import Babelfish.Tsql.ForJsonConflict

/-!
# The objects of `FOR JSON PATH`

As long as no path begins another, the objects in memory are the tree of the paths.  The first
object that is put below a path is written to where its copy stands; one that is put there later
stands as a copy that is written no more: what is put into it later is not seen.

* `Kids`, `Shaped`: the pairs of the objects and of the row.
* `Hung`: a chain was made for a column, but not yet put anywhere.
* `Hung.kids_new`, `Hung.kids_old`, `Hung.row_old`: the pairs of the objects of the chain, and of
  those before, after it was put somewhere.
* `Hung.push`: the chain is put into the row.
-/

namespace Babelfish.Tsql.ForJson

open Lib List

variable {V : Type}
variable {i : Nat} {x : Part} {q ys : List Part} {e : JsonbEntry} {v : JsonbValue V}
  {ps ps' : List (List UInt8 × JsonbValue V)} {k : List UInt8} {done : List (Column V)}

/-- The first column that begins with `q` goes on with `x`. -/
def FirstBelow (cols : List (Column V)) (q : List Part) (x : Part) : Prop :=
  ∃ before c after, cols = before ++ c :: after ∧ (∀ c' ∈ before, ¬q <+: c'.path) ∧
    q ++ [x] <+: c.path

/-- The copy `v` of the value at `q` is not written any more: its object is given nothing more, or
the copy has stayed with the one pair there was. -/
structure Frozen (m : Mem V) (nodes : List Part → Option JsonbEntry) (q : List Part)
    (e : JsonbEntry) (v : JsonbValue V) : Prop where
  parent_ne_row : e.parent ≠ jsonbRow
  parent_ne : ∀ q' e', nodes q' = some e' → e'.value ≠ e.parent
  copy : (m.cell e.value = some v ∧ ∀ x, nodes (q ++ [x]) = none) ∨
    ∃ n b b', v = .object 1 b' ∧ m.cell e.value = some (.object n b) ∧
      (∃ x e', nodes (q ++ [x]) = some e') ∧ (n = 1 → b' = b) ∧ (b' = b ∨ m.Freed b')

/-- The pairs of the object at `q`, which has the address `a`. -/
structure Kids (m : Mem V) (nodes : List Part → Option JsonbEntry) (done : List (Column V))
    (q : List Part) (a : Nat) (ps : List (List UInt8 × JsonbValue V)) : Prop where
  nodup : (ps.map Prod.fst).Nodup
  kid : ∀ (i : Nat) k v, ps[i]? = some (k, v) → ∃ x e, k = x.text ∧ nodes (q ++ [x]) = some e ∧
    (i = 0 → m.cell e.value = some v ∧ e.parent = a ∧ e.idx = 0 ∧ FirstBelow done q x) ∧
    (0 < i → Frozen m nodes (q ++ [x]) e v)
  all : ∀ x e, nodes (q ++ [x]) = some e → ∃ (i : Nat) (v : JsonbValue V), ps[i]? = some (x.text, v)

/-- The value is not that of a path, and no path has its copy there. -/
def Outside (nodes : List Part → Option JsonbEntry) (a : Nat) : Prop :=
  a ≠ jsonbRow ∧ ∀ q e, nodes q = some e → e.value ≠ a ∧ e.parent ≠ a

structure RowKids (m : Mem V) (nodes : List Part → Option JsonbEntry) (done : List (Column V))
    (ps : List (List UInt8 × JsonbValue V)) : Prop where
  nodup : (ps.map Prod.fst).Nodup
  kid : ∀ (i : Nat) k v, ps[i]? = some (k, v) → ∃ x, k = x.text ∧
    ((∃ e, nodes [x] = some e ∧ m.cell e.value = some v ∧ e.parent = jsonbRow ∧ e.idx = i) ∨
      (nodes [x] = none ∧ ∃ c ∈ done, c.path = [x] ∧ Stores m v c.colval ∧
        ∃ a, m.cell a = some v ∧ Outside nodes a))
  all : ∀ x e, nodes [x] = some e → ∃ (i : Nat) (v : JsonbValue V), ps[i]? = some (x.text, v)
  single : ∀ c ∈ done, ∀ x, c.path = [x] →
    ∃ (i : Nat) (v : JsonbValue V), ps[i]? = some (x.text, v)

/-- **The objects after the columns `done`**, of which no path begins another. -/
structure Shaped (m : Mem V) (nodes : List Part → Option JsonbEntry) (done : List (Column V)) :
    Prop where
  inj : ∀ {q q' e e'}, nodes q = some e → nodes q' = some e' → e.value = e'.value → q = q'
  ne_row : ∀ {q e}, nodes q = some e → e.value ≠ jsonbRow
  stored : ∀ c ∈ done, 2 ≤ c.path.length → ∃ e w, nodes c.path = some e ∧
    m.cell e.value = some w ∧ Stores m w c.colval
  kids : ∀ {q e x e'}, nodes q = some e → nodes (q ++ [x]) = some e' →
    ∃ n b ps, m.cell e.value = some (.object n b) ∧ m.block b = some ps ∧
      Kids m nodes done q e.value ps
  row : ∃ n b ps, m.cell jsonbRow = some (.object n b) ∧ m.block b = some ps ∧
    RowKids m nodes done ps

theorem shaped_startRow : Shaped (startRow : RowState V).mem (startRow : RowState V).entry [] where
  inj := nofun
  ne_row := nofun
  stored := nofun
  kids := nofun
  row := ⟨0, 0, [], rfl, rfl, nodup_nil, by simp, nofun, nofun⟩

theorem Linked.entry_of_concat {st : RowState V} (h : Linked st done)
    (he : st.entry (q ++ [x]) = some e) (hq : q ≠ []) : ∃ e', st.entry q = some e' := by
  obtain ⟨-, c, hc, hlen, hpre⟩ := (h.registered _).mp ⟨e, he⟩
  exact (h.registered q).mpr ⟨hq, c, hc, hlen, (prefix_append q [x]).trans hpre⟩

theorem FirstBelow.mono (h : FirstBelow done q x) (c : Column V) :
    FirstBelow (done ++ [c]) q x := by
  obtain ⟨before, c', after, hdone, hbefore, hpre⟩ := h
  refine ⟨before, c', after ++ [c], ?_, hbefore, hpre⟩
  rw [hdone, append_assoc, cons_append]

theorem Stores.mono {m m' : Mem V} {w : JsonbValue V} {v : Option (JsonValue V)}
    (h : Stores m w v) (hm : ∀ n b l, w = .object n b → m.block b = some l → m'.block b = some l) :
    Stores m' w v := by
  match v with
  | none | some (.scalar _) => exact h
  | some (.object _) =>
    obtain ⟨b, hw, hb⟩ := h
    exact ⟨b, hw, hm _ b _ hw hb⟩

/-! ### Lists of pairs -/

theorem same_place (hkeys : ps.map Prod.fst = ps'.map Prod.fst) (hi : ps[i]? = some (k, v)) :
    ∃ v', ps'[i]? = some (k, v') := by
  have hkey : (ps'.map Prod.fst)[i]? = some k := by
    rw [← hkeys, getElem?_map, hi]
    rfl
  rw [getElem?_map] at hkey
  obtain ⟨⟨k', v'⟩, hi', rfl⟩ := Option.map_eq_some_iff.mp hkey
  exact ⟨v', hi'⟩

theorem place_unique (h : (ps.map Prod.fst).Nodup) {j : Nat}
    {v' : JsonbValue V} (hi : ps[i]? = some (k, v)) (hj : ps[j]? = some (k, v')) : i = j := by
  have hi' : (ps.map Prod.fst)[i]? = some k := by
    rw [getElem?_map, hi]
    rfl
  have hj' : (ps.map Prod.fst)[j]? = some k := by
    rw [getElem?_map, hj]
    rfl
  exact (List.getElem?_inj (List.getElem?_eq_some_iff.mp hi').1 h).mp (hi'.trans hj'.symm)

theorem nodup_concat (h : (ps.map Prod.fst).Nodup) (hk : k ∉ ps.map Prod.fst) :
    ((ps ++ [(k, v)]).map Prod.fst).Nodup := by
  rw [map_append, map_singleton, nodup_append]
  refine ⟨h, nodup_singleton _, ?_⟩
  intro k' hk' k'' hk'' heq
  rw [heq, mem_singleton.mp hk''] at hk'
  exact hk hk'

theorem getElem?_append_of_some {ps qs : List (List UInt8 × JsonbValue V)}
    {p : List UInt8 × JsonbValue V} (h : ps[i]? = some p) : (ps ++ qs)[i]? = some p := by
  rwa [List.getElem?_append_left (List.getElem?_eq_some_iff.mp h).1]

theorem getElem?_concat {p q : List UInt8 × JsonbValue V} (h : (ps ++ [p])[i]? = some q) :
    ps[i]? = some q ∨ (i = ps.length ∧ p = q) := by
  rcases Nat.lt_trichotomy i ps.length with hlt | heq | hgt
  · rw [getElem?_append_left hlt] at h
    exact .inl h
  · subst heq
    rw [getElem?_concat_length] at h
    exact .inr ⟨rfl, Option.some.inj h⟩
  · have hlt := (List.getElem?_eq_some_iff.mp h).1
    rw [length_append, length_singleton] at hlt
    omega

/-! ### Memory that keeps everything but the row -/

/-- Every value but the row is as it was. -/
structure KeepsObjects (m m' : Mem V) : Prop where
  cell : ∀ {a v}, a ≠ jsonbRow → m.cell a = some v → m'.cell a = some v
  block : ∀ {a n b l}, a ≠ jsonbRow → m.cell a = some (.object n b) → m.block b = some l →
    m'.block b = some l
  freed : ∀ {b}, m.Freed b → m'.Freed b

section

variable {m m' : Mem V} {nodes : List Part → Option JsonbEntry} {done done' : List (Column V)}
  {a : Nat} {w : JsonbValue V}

theorem KeepsObjects.of_extends (h : m.Extends m') : KeepsObjects m m' where
  cell _ hc := h.cell hc
  block _ _ hb := h.block hb
  freed hb := h.freed hb

theorem Pushed.keeps {n b : Nat} {pair : List UInt8 × JsonbValue V} (h : Pushed m m' n b ps pair)
    (htidy : Tidy m) (hrow : m.cell jsonbRow = some (.object n b)) : KeepsObjects m m' where
  cell hne hc := (h.cell _ hne).trans hc
  block := by
    intro a n' b' l hne hc hl
    refine h.block b' l hl ?_
    rintro rfl
    exact hne (htidy.owner hc hrow)
  freed hb := h.freed _ hb

theorem KeepsObjects.trans {m'' : Mem V} (h : KeepsObjects m m') (h' : KeepsObjects m' m'') :
    KeepsObjects m m'' where
  cell hne hc := h'.cell hne (h.cell hne hc)
  block hne hc hb := h'.block hne (h.cell hne hc) (h.block hne hc hb)
  freed hb := h'.freed (h.freed hb)

theorem Stores.keeps {v : Option (JsonValue V)} (h : Stores m w v) (hm : KeepsObjects m m')
    (hne : a ≠ jsonbRow) (ha : m.cell a = some w) : Stores m' w v := by
  refine h.mono ?_
  rintro n b l rfl hl
  exact hm.block hne ha hl

theorem Frozen.keeps (h : Frozen m nodes q e w) (hm : KeepsObjects m m')
    (hne : e.value ≠ jsonbRow) : Frozen m' nodes q e w where
  parent_ne_row := h.parent_ne_row
  parent_ne := h.parent_ne
  copy := by
    rcases h.copy with ⟨hc, hnone⟩ | ⟨n, b, b', hv, hc, hkid, hone, hb⟩
    · exact .inl ⟨hm.cell hne hc, hnone⟩
    · exact .inr ⟨n, b, b', hv, hm.cell hne hc, hkid, hone, hb.imp_right hm.freed⟩

theorem Kids.place (hk : Kids m nodes done q a ps) (hi : ps[i]? = some (x.text, w))
    (he : nodes (q ++ [x]) = some e) :
    (i = 0 → m.cell e.value = some w ∧ e.parent = a ∧ e.idx = 0 ∧ FirstBelow done q x) ∧
      (0 < i → Frozen m nodes (q ++ [x]) e w) := by
  obtain ⟨x', e', hx, he', hplace⟩ := hk.kid i _ w hi
  obtain rfl : x = x' := Part.ext hx
  rw [he] at he'
  cases he'
  exact hplace

theorem RowKids.place (hk : RowKids m nodes done ps) (hi : ps[i]? = some (x.text, w))
    (he : nodes [x] = some e) : m.cell e.value = some w ∧ e.parent = jsonbRow ∧ e.idx = i := by
  obtain ⟨x', hx, hcases⟩ := hk.kid i _ w hi
  obtain rfl : x = x' := Part.ext hx
  rcases hcases with ⟨e', he', hplace⟩ | ⟨hnone, -⟩
  · rw [he] at he'
    cases he'
    exact hplace
  · rw [he] at hnone
    cases hnone

theorem Shaped.keeps (h : Shaped m nodes done) (hm : KeepsObjects m m')
    (hbelow : ∀ {q x}, FirstBelow done q x → FirstBelow done' q x)
    (hlong : ∀ c ∈ done', 2 ≤ c.path.length → c ∈ done)
    (hrow : ∃ n b ps, m'.cell jsonbRow = some (.object n b) ∧ m'.block b = some ps ∧
      RowKids m' nodes done' ps) : Shaped m' nodes done' where
  inj := h.inj
  ne_row := h.ne_row
  stored := by
    intro c hc hlen
    obtain ⟨e, w, he, hw, hs⟩ := h.stored c (hlong c hc hlen) hlen
    exact ⟨e, w, he, hm.cell (h.ne_row he) hw, hs.keeps hm (h.ne_row he) hw⟩
  kids := by
    intro q e x e' he he'
    obtain ⟨n, b, ps, hc, hb, hk⟩ := h.kids he he'
    refine ⟨n, b, ps, hm.cell (h.ne_row he) hc, hm.block (h.ne_row he) hc hb, hk.nodup, ?_, hk.all⟩
    intro i k v hi
    obtain ⟨x, e', hx, he', hfirst, hlater⟩ := hk.kid i k v hi
    refine ⟨x, e', hx, he', ?_, fun hpos => (hlater hpos).keeps hm (h.ne_row he')⟩
    intro h0
    obtain ⟨hv, hpar, hidx, hfirst⟩ := hfirst h0
    exact ⟨hm.cell (h.ne_row he') hv, hpar, hidx, hbelow hfirst⟩
  row := hrow

theorem Shaped.extends (h : Shaped m nodes done) (hm : m.Extends m') : Shaped m' nodes done := by
  have hkeeps := KeepsObjects.of_extends hm
  obtain ⟨n, b, ps, hc, hb, hk⟩ := h.row
  refine h.keeps hkeeps id (fun _ hc _ => hc)
    ⟨n, b, ps, hm.cell hc, hm.block hb, hk.nodup, ?_, hk.all, hk.single⟩
  intro i k v hi
  obtain ⟨x, hx, ⟨e, he, hv, hpar⟩ | ⟨hnone, c, hc, hpath, hs, a, ha, hout⟩⟩ := hk.kid i k v hi
  · exact ⟨x, hx, .inl ⟨e, he, hm.cell hv, hpar⟩⟩
  · exact ⟨x, hx, .inr ⟨hnone, c, hc, hpath, hs.keeps hkeeps hout.1 ha, a, hm.cell ha, hout⟩⟩

/-- **A pair is put into the row**, for a path that is not below it yet. -/
theorem RowKids.concat (hk : RowKids m nodes done ps) (hm : KeepsObjects m m')
    {nodes' : List Part → Option JsonbEntry} {c : Column V}
    (hne : ∀ {q e}, nodes q = some e → e.value ≠ jsonbRow) (hfree : nodes [x] = none)
    (hsep : ∀ c' ∈ done, c'.path ≠ [x]) (hold : ∀ {z e}, nodes [z] = some e → nodes' [z] = some e)
    (hnone : ∀ {c' z}, c' ∈ done → c'.path = [z] → nodes [z] = none → nodes' [z] = none)
    (hout : ∀ {a v}, m.cell a = some v → Outside nodes a → Outside nodes' a)
    (hall : ∀ {z e}, nodes' [z] = some e → nodes [z] = some e ∨ z = x)
    (hsingle : ∀ z, c.path = [z] → z = x)
    (hnew : (∃ e, nodes' [x] = some e ∧ m'.cell e.value = some w ∧ e.parent = jsonbRow ∧
        e.idx = ps.length) ∨
      (nodes' [x] = none ∧ c.path = [x] ∧ Stores m' w c.colval ∧
        ∃ a, m'.cell a = some w ∧ Outside nodes' a)) :
    RowKids m' nodes' (done ++ [c]) (ps ++ [(x.text, w)]) where
  nodup := by
    refine nodup_concat hk.nodup fun hmem => ?_
    obtain ⟨⟨k, u⟩, hku, hk'⟩ := mem_map.mp hmem
    obtain ⟨i, hi⟩ := mem_iff_getElem?.mp hku
    obtain ⟨z, hz, hcases⟩ := hk.kid i k u hi
    obtain rfl : x = z := Part.ext (hk'.symm.trans hz)
    rcases hcases with ⟨e, he, -⟩ | ⟨-, c', hc', hpath, -⟩
    · rw [hfree] at he
      cases he
    · exact hsep c' hc' hpath
  kid := by
    intro i k u hi
    rcases getElem?_concat hi with hi | ⟨rfl, heq⟩
    · obtain ⟨z, hz, ⟨e, he, hu, hrest⟩ | ⟨hno, c', hc', hpath, hs, a, ha, ho⟩⟩ := hk.kid i k u hi
      · exact ⟨z, hz, .inl ⟨e, hold he, hm.cell (hne he) hu, hrest⟩⟩
      · exact ⟨z, hz, .inr ⟨hnone hc' hpath hno, c', mem_append_left _ hc', hpath,
          hs.keeps hm ho.1 ha, a, hm.cell ho.1 ha, hout ha ho⟩⟩
    · cases heq
      refine ⟨x, rfl, hnew.imp_right ?_⟩
      rintro ⟨hno, hrest⟩
      exact ⟨hno, c, mem_append_right _ (mem_singleton_self c), hrest⟩
  all := by
    intro z e he
    rcases hall he with he | rfl
    · obtain ⟨j, u, hj⟩ := hk.all z e he
      exact ⟨j, u, getElem?_append_of_some hj⟩
    · exact ⟨ps.length, w, by simp⟩
  single := by
    intro c' hc' z hz
    rcases mem_append.mp hc' with hc' | hc'
    · obtain ⟨j, u, hj⟩ := hk.single c' hc' z hz
      exact ⟨j, u, getElem?_append_of_some hj⟩
    · rw [mem_singleton.mp hc'] at hz
      rw [hsingle z hz]
      exact ⟨ps.length, w, by simp⟩

end

/-! ### A chain below a path -/

theorem map_fst_modify : (ps.modify i fun p => (p.1, v)).map Prod.fst = ps.map Prod.fst := by
  apply ext_getElem?
  intro j
  rw [getElem?_map, getElem?_map, getElem?_modify]
  cases ps[j]? with
  | none => rfl
  | some p =>
    by_cases hij : i = j <;> simp [hij]

/-- The chain of the column `c` has been made below the path `r`, which is in the table, or for the
row; no path of a column before begins the path of `c` or is begun by it. -/
structure Hung (st st' : RowState V) (m : Mem V) (done : List (Column V)) (c : Column V)
    (w : JsonbValue V) (r zs : List Part) (a : Nat) : Prop where
  linked : Linked st done
  apart : ∀ c' ∈ done, Apart c'.path c.path
  long : 2 ≤ c.path.length
  ext : st.mem.Extends m
  nested : Nested m st.entry c.path st.mem.cells.length w r zs st' a
  root : r = [] ∨ ∃ e, st.entry r = some e
  stores : Stores m w c.colval

namespace Hung

variable {st st' : RowState V} {m m' : Mem V} {done : List (Column V)} {c : Column V}
  {w : JsonbValue V} {r zs : List Part} {a : Nat}

/-- The path is one of the chain. -/
def New (r : List Part) (c : Column V) (q : List Part) : Prop := r.length < q.length ∧ q <+: c.path

theorem new_ne_nil (hq : New r c q) : q ≠ [] :=
  ne_nil_of_length_pos (Nat.zero_lt_of_lt hq.1)

/-- The values made for the column, and their pairs, are as they were. -/
def Untouched (base : Nat) (m m' : Mem V) : Prop :=
  ∀ a, base ≤ a → m'.cell a = m.cell a ∧
    ∀ n b l, m.cell a = some (.object n b) → m.block b = some l → m'.block b = some l

section

variable (h : Hung st st' m done c w r zs a) {e' : JsonbEntry} {q' : List Part}

include h

section

variable (he : st.entry q = some e)
include he

theorem not_new : ¬New r c q := by
  rintro ⟨hlt, hpre⟩
  rw [h.nested.fresh q hlt hpre] at he
  cases he

theorem entry_old : st'.entry q = some e := by
  rw [h.nested.old q (h.not_new he), he]

theorem value_lt : e.value < st.mem.cells.length := by
  obtain ⟨v, hv, -⟩ := h.linked.value he
  exact Memory.cell_lt hv

theorem parent_lt : e.parent < st.mem.cells.length := by
  obtain ⟨-, n, b, hc, -⟩ := h.linked.parent he
  exact Memory.cell_lt hc

end

theorem eq_root (hnew : New r c (q ++ [x])) (hq : ¬New r c q) : q = r := by
  have hpre : q <+: c.path := (prefix_append q [x]).trans hnew.2
  have hlen : (q ++ [x]).length = q.length + 1 := length_append
  have hle : q.length ≤ r.length := not_lt.mp fun hlt => hq ⟨hlt, hpre⟩
  have hlt := hnew.1
  exact eq_of_prefix_of_length hpre ⟨zs, h.nested.path.symm⟩ (by omega)

theorem rest_ne_nil : zs ≠ [] := by
  rintro rfl
  have hpath : c.path = r := by rw [h.nested.path, append_nil]
  rcases h.root with hr | hr
  · have hlen := h.long
    rw [hpath, hr] at hlen
    simp at hlen
  · obtain ⟨-, c', hc', -, hpre⟩ := (h.linked.registered r).mp hr
    exact (h.apart c' hc').2 (hpath ▸ hpre)

theorem new_split (hq : New r c q) :
    ∃ zs₁ xs, zs₁ ≠ [] ∧ q = r ++ zs₁ ∧ zs = zs₁ ++ xs := h.nested.split hq

theorem new_value (hq : New r c q) (he : st'.entry q = some e) :
    st.mem.cells.length ≤ e.value ∧ e.value < a := by
  obtain ⟨zs₁, xs, hne, rfl, rfl⟩ := h.new_split hq
  obtain ⟨e', v, he', -, hlt, -, hchain⟩ := h.nested.chain.drop hne
  rw [he] at he'
  cases he'
  exact ⟨hchain.base_le, hlt⟩

theorem new_parent (hq : New r c q) (he : st'.entry q = some e) :
    e.parent = jsonbRow ∨ st.mem.cells.length ≤ e.parent := by
  obtain ⟨zs₁, xs, hne, rfl, rfl⟩ := h.new_split hq
  obtain ⟨e', v, he', -, -, hpar, hchain⟩ := h.nested.chain.drop hne
  rw [he] at he'
  cases he'
  rcases hpar with ⟨hpar, -⟩ | ⟨hlt, -⟩
  · exact .inl hpar
  · exact .inr (le_of_lt (lt_of_le_of_lt hchain.base_le hlt))

theorem outside {a' : Nat} (hv : st.mem.cell a' = some v) (hout : Outside st.entry a') :
    Outside st'.entry a' := by
  have hlt := Memory.cell_lt hv
  refine ⟨hout.1, fun q e he => ?_⟩
  by_cases hq : New r c q
  · have h1 := (h.new_value hq he).1
    refine ⟨by omega, ?_⟩
    rcases h.new_parent hq he with hpar | hpar
    · rw [hpar]
      exact hout.1.symm
    · omega
  · rw [h.nested.old _ hq] at he
    exact hout.2 q e he

theorem single_none {c' : Column V} (hc' : c' ∈ done) (hpath : c'.path = [x])
    (hnone : st.entry [x] = none) : st'.entry [x] = none := by
  rw [h.nested.old _, hnone]
  rintro ⟨-, hpre⟩
  exact (h.apart c' hc').1 (hpath ▸ hpre)

theorem new_of_concat (hq : New r c q) (he : st'.entry (q ++ [x]) = some e) :
    New r c (q ++ [x]) := by
  by_contra hnot
  rw [h.nested.old _ hnot] at he
  obtain ⟨e', he'⟩ := h.linked.entry_of_concat he (new_ne_nil hq)
  exact h.not_new he' hq

theorem last_no_kids (x : Part) : st'.entry (c.path ++ [x]) = none := by
  have hnot : ¬New r c (c.path ++ [x]) := by
    rintro ⟨-, hpre⟩
    have hle := hpre.length_le
    rw [length_append, length_singleton] at hle
    omega
  rw [h.nested.old _ hnot]
  cases he : st.entry (c.path ++ [x]) with
  | none => rfl
  | some e =>
    obtain ⟨-, c', hc', -, hpre⟩ := (h.linked.registered _).mp ⟨e, he⟩
    exact absurd ((prefix_append _ _).trans hpre) (h.apart c' hc').2

theorem inj (hshape : Shaped st.mem st.entry done)
    (he : st'.entry q = some e) (he' : st'.entry q' = some e') (hv : e.value = e'.value) :
    q = q' := by
  by_cases hq : New r c q
  · by_cases hq' : New r c q'
    · -- of two paths of the chain, the longer one has the smaller address
      have hlt : ∀ {p p' : List Part} {i i' : JsonbEntry}, New r c p → New r c p' →
          st'.entry p = some i → st'.entry p' = some i' → p.length < p'.length →
          i'.value < i.value := by
        intro p p' i i' hp hp' hi hi' hlt
        obtain ⟨zs₁, xs, hne, rfl, rfl⟩ := h.new_split hp
        obtain ⟨i1, v, hi1, -, -, -, hchain⟩ := h.nested.chain.drop hne
        rw [hi] at hi1
        cases hi1
        obtain ⟨xs₁, rfl⟩ := prefix_of_prefix_length_le hp.2 hp'.2 (le_of_lt hlt)
        have hpre := hp'.2
        rw [h.nested.path, ← append_assoc, prefix_append_right_inj] at hpre
        obtain ⟨xs₂, rfl⟩ := hpre
        have hmore : xs₁ ≠ [] := by
          rintro rfl
          simp at hlt
        obtain ⟨i2, v', hi2, -, hlt', -⟩ := hchain.drop hmore
        rw [hi'] at hi2
        cases hi2
        exact hlt'
      rcases Nat.lt_trichotomy q.length q'.length with hl | hl | hl
      · have := hlt hq hq' he he' hl
        omega
      · exact eq_of_prefix_of_length hq.2 hq'.2 hl
      · have := hlt hq' hq he' he hl
        omega
    · rw [h.nested.old _ hq'] at he'
      have h1 := (h.new_value hq he).1
      have h2 := h.value_lt he'
      omega
  · rw [h.nested.old _ hq] at he
    by_cases hq' : New r c q'
    · have h1 := (h.new_value hq' he').1
      have h2 := h.value_lt he
      omega
    · rw [h.nested.old _ hq'] at he'
      exact hshape.inj he he' hv

theorem ne_row (hshape : Shaped st.mem st.entry done) (he : st'.entry q = some e) :
    e.value ≠ jsonbRow := by
  by_cases hq : New r c q
  · obtain ⟨n, b, hrow⟩ := h.linked.row
    have h1 := (h.new_value hq he).1
    have h2 := Memory.cell_lt hrow
    omega
  · rw [h.nested.old _ hq] at he
    exact hshape.ne_row he

theorem stored_new (hm : Untouched st.mem.cells.length st'.mem m') :
    ∃ e w', st'.entry c.path = some e ∧ m'.cell e.value = some w' ∧ Stores m' w' c.colval := by
  have hwhole := h.nested.chain
  rw [← append_nil zs] at hwhole
  obtain ⟨e, v, he, -, -, -, hchain⟩ := hwhole.drop h.rest_ne_nil
  rw [← h.nested.path] at he
  obtain ⟨hcell, hblock⟩ := hm e.value (le_of_eq hchain.1.symm)
  refine ⟨e, w, he, hcell.trans hchain.2, h.stores.mono ?_⟩
  rintro n b l rfl hl
  exact hblock n b l hchain.2 (h.nested.ext.block hl)

theorem kids_new (hm : Untouched st.mem.cells.length st'.mem m')
    (hq : New r c q) (he : st'.entry q = some e) (he' : st'.entry (q ++ [x]) = some e') :
    ∃ n b ps, m'.cell e.value = some (.object n b) ∧ m'.block b = some ps ∧
      Kids m' st'.entry (done ++ [c]) q e.value ps := by
  have hqne := new_ne_nil hq
  have hbase := (h.new_value hq he).1
  obtain ⟨zs₁, xs, hne, rfl, hzs⟩ := h.new_split hq
  obtain ⟨e1, v, he1, -, -, -, hchain⟩ := (hzs ▸ h.nested.chain).drop hne
  rw [he] at he1
  cases he1
  cases xs with
  | nil =>
    -- the end of the path has nothing below it
    rw [append_nil] at hzs
    rw [← hzs, ← h.nested.path, h.last_no_kids] at he'
    cases he'
  | cons y ys =>
    obtain ⟨b, v, e2, hc, hb, hentry, hv, hlt, hpar, hrest⟩ := hchain
    rw [if_neg hqne] at hpar
    obtain ⟨hcell, hblock⟩ := hm e.value hbase
    have hcell2 := (hm e2.value hrest.base_le).1
    have hy : ∀ z i, st'.entry (r ++ zs₁ ++ [z]) = some i → z = y := by
      intro z i hi
      have hz := (h.new_of_concat hq hi).2
      rw [h.nested.path, hzs, ← append_assoc, prefix_append_right_inj] at hz
      obtain ⟨hzy, -⟩ := cons_prefix_cons.mp hz
      exact hzy
    refine ⟨1, b, [(y.text, v)], hcell.trans hc, hblock 1 b _ hc hb, ?_, ?_, ?_⟩
    · simp
    · intro i k u hi
      obtain ⟨rfl, hu⟩ : i = 0 ∧ (y.text, v) = (k, u) := by
        cases i with
        | zero => exact ⟨rfl, Option.some.inj hi⟩
        | succ i => simp at hi
      cases hu
      refine ⟨y, e2, rfl, hentry, ?_, fun hpos => absurd hpos (lt_irrefl 0)⟩
      rintro -
      refine ⟨hcell2.trans hv, hpar.1, hpar.2, done, c, [], rfl, ?_, ?_⟩
      · intro c' hc' hpre
        by_cases hlen : 2 ≤ c'.path.length
        · exact h.nested.not_prefix h.linked hq.1 hq.2 hc' hlen hpre
        · -- a name of one part that begins with this path would begin the new one
          have hle := hpre.length_le
          have hpos := length_pos_of_ne_nil hqne
          have heq := hpre.eq_of_length (by omega)
          exact (h.apart c' hc').1 (heq ▸ hq.2)
      · rw [h.nested.path, hzs]
        exact ⟨ys, by simp⟩
    · intro z i hi
      rw [hy z i hi]
      exact ⟨0, v, rfl⟩

theorem parent_ne (hf : Frozen m' st.entry q e v) (he : st.entry q = some e)
    (he' : st'.entry q' = some e') : e'.value ≠ e.parent := by
  by_cases hnew : New r c q'
  · have h1 := (h.new_value hnew he').1
    have h2 := h.parent_lt he
    omega
  · rw [h.nested.old _ hnew] at he'
    exact hf.parent_ne q' e' he'

theorem frozen_old (hf : Frozen st'.mem st.entry q e v) (he : st.entry q = some e) (hq : q ≠ r)
    (hcell : m'.cell e.value = st'.mem.cell e.value) (hfreed : ∀ b, st'.mem.Freed b → m'.Freed b) :
    Frozen m' st'.entry q e v where
  parent_ne_row := hf.parent_ne_row
  parent_ne _ _ he' := h.parent_ne hf he he'
  copy := by
    rcases hf.copy with ⟨hc, hnone⟩ | ⟨n, b, b', hv, hc, ⟨x, e', hx⟩, hone, hb⟩
    · refine .inl ⟨hcell.trans hc, fun x => ?_⟩
      rw [h.nested.old, hnone]
      intro hnew
      exact hq (h.eq_root hnew (h.not_new he))
    · refine .inr ⟨n, b, b', hv, hcell.trans hc, ⟨x, e', h.entry_old hx⟩, hone, ?_⟩
      exact hb.imp_right (hfreed _)

/-- The pairs of an object into which nothing is put, when the values below it are as they were or
have their copies written. -/
theorem kids_old {a' : Nat}
    (hk : Kids st'.mem st.entry done q a' ps) (hqr : q ≠ r) (hq : ¬New r c q)
    (hkeys : ps'.map Prod.fst = ps.map Prod.fst) (hfreed : ∀ b, st'.mem.Freed b → m'.Freed b)
    (hcell : ∀ x e, st.entry (q ++ [x]) = some e → q ++ [x] ≠ r →
      m'.cell e.value = st'.mem.cell e.value)
    (hslot : ∀ (i : Nat) (k : List UInt8) (v v' : JsonbValue V) (x : Part) (e : JsonbEntry),
      ps[i]? = some (k, v) → ps'[i]? = some (k, v') → k = x.text → st.entry (q ++ [x]) = some e →
      (q ++ [x] ≠ r → v' = v) ∧ (q ++ [x] = r → i = 0 → m'.cell e.value = some v') ∧
        (q ++ [x] = r → 0 < i → Frozen st'.mem st.entry (q ++ [x]) e v →
          Frozen m' st'.entry (q ++ [x]) e v')) : Kids m' st'.entry (done ++ [c]) q a' ps' where
  nodup := by
    rw [hkeys]
    exact hk.nodup
  kid := by
    intro i k v' hi
    -- the pair in this place before
    obtain ⟨v, hold⟩ := same_place hkeys hi
    obtain ⟨x, e, hx, he, hfirst, hlater⟩ := hk.kid i k v hold
    obtain ⟨hsame, hnow, hfrozen⟩ := hslot i k v v' x e hold hi hx he
    refine ⟨x, e, hx, h.entry_old he, ?_, ?_⟩
    · intro h0
      obtain ⟨hv, hpar, hidx, hbelow⟩ := hfirst h0
      refine ⟨?_, hpar, hidx, hbelow.mono c⟩
      by_cases hxr : q ++ [x] = r
      · exact hnow hxr h0
      · rwa [hcell x e he hxr, hsame hxr]
    · intro hpos
      by_cases hxr : q ++ [x] = r
      · exact hfrozen hxr hpos (hlater hpos)
      · rw [hsame hxr]
        exact h.frozen_old (hlater hpos) he hxr (hcell x e he hxr) hfreed
  all := by
    intro x e he
    have hnot : ¬New r c (q ++ [x]) := fun hnew => hqr (h.eq_root hnew hq)
    rw [h.nested.old _ hnot] at he
    obtain ⟨i, v, hi⟩ := hk.all x e he
    exact ⟨i, same_place hkeys.symm hi⟩

theorem row_old (hr : r ≠ [])
    (hk : RowKids st.mem st.entry done ps) (hkeys : ps'.map Prod.fst = ps.map Prod.fst)
    (hcell : ∀ x e v, st.entry [x] = some e → [x] ≠ r → st.mem.cell e.value = some v →
      m'.cell e.value = some v)
    (hslot : ∀ (i : Nat) (k : List UInt8) (v v' : JsonbValue V) (x : Part),
      ps[i]? = some (k, v) → ps'[i]? = some (k, v') → k = x.text →
      ([x] ≠ r → v' = v) ∧ ([x] = r → ∀ e, st.entry [x] = some e → m'.cell e.value = some v'))
    (houtside : ∀ a' v, st.mem.cell a' = some v → Outside st.entry a' → m'.cell a' = some v ∧
      ∀ n b l, v = .object n b → st.mem.block b = some l → m'.block b = some l) :
    RowKids m' st'.entry (done ++ [c]) ps' where
  nodup := by
    rw [hkeys]
    exact hk.nodup
  kid := by
    intro i k v' hi
    obtain ⟨v, hold⟩ := same_place hkeys hi
    obtain ⟨x, hx, hcases⟩ := hk.kid i k v hold
    obtain ⟨hsame, hnow⟩ := hslot i k v v' x hold hi hx
    refine ⟨x, hx, ?_⟩
    rcases hcases with ⟨e, he, hv, hrest⟩ | ⟨hnone, c', hc', hpath, hs, a', ha', hout⟩
    · refine .inl ⟨e, h.entry_old he, ?_, hrest⟩
      by_cases hxr : [x] = r
      · exact hnow hxr e he
      · rw [hsame hxr]
        exact hcell x e v he hxr hv
    · have hxr : [x] ≠ r := by
        rintro rfl
        obtain ⟨e, he⟩ := h.root.resolve_left hr
        rw [hnone] at he
        cases he
      obtain ⟨hca, hblock⟩ := houtside a' v ha' hout
      rw [hsame hxr]
      exact .inr ⟨h.single_none hc' hpath hnone, c', mem_append_left _ hc', hpath,
        hs.mono hblock, a', hca, h.outside ha' hout⟩
  all := by
    intro x e he
    have hnot : ¬New r c [x] := by
      rintro ⟨hlt, -⟩
      exact hr (length_eq_zero_iff.mp (Nat.lt_one_iff.mp hlt))
    rw [h.nested.old _ hnot] at he
    obtain ⟨i, v, hi⟩ := hk.all x e he
    exact ⟨i, same_place hkeys.symm hi⟩
  single := by
    intro c' hc' x hx
    rcases mem_append.mp hc' with hc' | hc'
    · obtain ⟨i, v, hi⟩ := hk.single c' hc' x hx
      exact ⟨i, same_place hkeys.symm hi⟩
    · have hlong := h.long
      rw [← mem_singleton.mp hc', hx] at hlong
      simp at hlong

section

variable (hshape : Shaped st.mem st.entry done) (hr : r ≠ []) (he : st.entry r = some e)
include hshape hr he

theorem parent_cases :
    (∃ x, r = [x] ∧ e.parent = jsonbRow) ∨ ∃ q z e', r = q ++ [z] ∧ st.entry q = some e' ∧
      ((e.parent = e'.value ∧ e.idx = 0) ∨
        (e.parent ≠ jsonbRow ∧ ∀ q' i, st.entry q' = some i → i.value ≠ e.parent)) := by
  obtain ⟨q, z, rfl⟩ : ∃ q z, r = q ++ [z] := ⟨_, _, (dropLast_append_getLast hr).symm⟩
  by_cases hq : q = []
  · subst hq
    left
    refine ⟨z, rfl, ?_⟩
    obtain ⟨n, b, ps, -, -, hk⟩ := hshape.row
    obtain ⟨i, v, hi⟩ := hk.all z e he
    exact (hk.place hi he).2.1
  · right
    obtain ⟨e', he'⟩ := h.linked.entry_of_concat he hq
    refine ⟨q, z, e', rfl, he', ?_⟩
    obtain ⟨n, b, ps, -, -, hk⟩ := hshape.kids he' he
    obtain ⟨i, v, hi⟩ := hk.all z e he
    obtain ⟨hfirst, hlater⟩ := hk.place hi he
    rcases Nat.eq_zero_or_pos i with h0 | hpos
    · obtain ⟨-, hpar, hidx, -⟩ := hfirst h0
      exact .inl ⟨hpar, hidx⟩
    · exact .inr ⟨(hlater hpos).parent_ne_row, (hlater hpos).parent_ne⟩

/-- An object whose pairs have the copy of the value at `r` is the one above it. -/
theorem eq_of_parent {i : JsonbEntry} (hi : st.entry q = some i) (hpar : i.value = e.parent) :
    ∃ z, r = q ++ [z] ∧ e.idx = 0 := by
  rcases h.parent_cases hshape hr he with ⟨x, rfl, hrow⟩ | ⟨q', z, e', rfl, he', hcases⟩
  · exact absurd (hpar.trans hrow) (hshape.ne_row hi)
  · rcases hcases with ⟨heq, hidx⟩ | ⟨-, hne⟩
    · rw [hshape.inj hi he' (hpar.trans heq)]
      exact ⟨z, rfl, hidx⟩
    · exact absurd hpar (hne q i hi)

end

end

/-- **The chain goes into the row.** -/
theorem push (h : Hung st st' m done c w [] zs a) (hshape₀ : Shaped st.mem st.entry done)
    {y : Part} (hzs : zs = y :: ys) {n b d : Nat} (hrow : st.mem.cell jsonbRow = some (.object n b))
    (ha : st'.mem.cell a = some (.object 1 d)) (hd : st'.mem.block d = some [(y.text, v)])
    (hps : st'.mem.block b = some ps) (hpushed : Pushed st'.mem m' n b ps (y.text, v)) :
    Shaped m' st'.entry (done ++ [c]) := by
  subst hzs
  have hext := h.ext.trans h.nested.ext
  have hshape := hshape₀.extends hext
  have hbase : jsonbRow < st.mem.cells.length := Memory.cell_lt hrow
  have hkeeps := hpushed.keeps h.nested.tidy (hext.cell hrow)
  have hcell : ∀ {q e}, st'.entry q = some e → m'.cell e.value = st'.mem.cell e.value :=
    fun he => hpushed.cell _ (h.ne_row hshape₀ he)
  have huntouched : Untouched st.mem.cells.length st'.mem m' := by
    intro a' ha'
    have hne : a' ≠ jsonbRow := by omega
    exact ⟨hpushed.cell a' hne, fun n' b' l hc hl => hkeeps.block hne hc hl⟩
  refine ⟨h.inj hshape₀, h.ne_row hshape₀, ?_, ?_, ?_⟩
  · intro c' hc' hlen
    rcases mem_append.mp hc' with hc' | hc'
    · obtain ⟨e, w', he, hw', hs⟩ := hshape.stored c' hc' hlen
      have he' := h.entry_old he
      exact ⟨e, w', he', (hcell he').trans hw', hs.keeps hkeeps (h.ne_row hshape₀ he') hw'⟩
    · rw [mem_singleton.mp hc']
      exact h.stored_new huntouched
  · intro q e x e' he he'
    by_cases hq : New [] c q
    · exact h.kids_new huntouched hq he he'
    · have hqne : q ≠ [] := by
        rintro rfl
        rw [h.nested.old _ hq] at he
        exact ((h.linked.registered []).mp ⟨e, he⟩).1 rfl
      have hold := he
      rw [h.nested.old _ hq] at hold
      have hnot : ¬New [] c (q ++ [x]) := fun hnew => hqne (h.eq_root hnew hq)
      rw [h.nested.old _ hnot] at he'
      obtain ⟨n', b', ps', hc, hb, hk⟩ := hshape.kids hold he'
      refine ⟨n', b', ps', (hcell he).trans hc, hkeeps.block (h.ne_row hshape₀ he) hc hb, ?_⟩
      apply h.kids_old hk hqne hq rfl hpushed.freed
      · intro z i hi _
        exact hcell (h.entry_old hi)
      · intro i k u u' z j hi hi' _ _
        rw [hi] at hi'
        cases hi'
        exact ⟨fun _ => rfl, fun hr => absurd hr (by simp), fun hr => absurd hr (by simp)⟩
  · obtain ⟨n', b', ps', hc, hb, hk⟩ := hshape₀.row
    rw [hrow] at hc
    cases hc
    rw [hext.block hb] at hps
    cases hps
    obtain ⟨d', v', e1, ha', hd', hentry, hv, -, hpar, -⟩ := h.nested.chain
    rw [ha] at ha'
    cases ha'
    rw [hd] at hd'
    cases hd'
    have hlen := h.linked.tidy.length hrow hb
    have hidx : e1.idx = ps.length := by rw [hpar.2, rowPairs_eq (h.ext.cell hrow), hlen]
    have hy : [y] <+: c.path := by
      rw [h.nested.path]
      exact ⟨ys, rfl⟩
    refine ⟨n + 1, b, ps ++ [(y.text, v)], hpushed.self, hpushed.pairs, ?_⟩
    refine hk.concat ((KeepsObjects.of_extends hext).trans hkeeps) hshape₀.ne_row
      (h.nested.fresh [y] Nat.zero_lt_one hy) (fun c' hc' hpath => (h.apart c' hc').1 (hpath ▸ hy))
      h.entry_old h.single_none h.outside ?_ ?_
      (Or.inl ⟨e1, hentry, (hcell hentry).trans hv, hpar.1, hidx⟩)
    · intro z i hi
      by_cases hz : New [] c [z]
      · exact .inr (by simpa using eq_of_prefix_of_length hz.2 hy rfl)
      · rw [h.nested.old _ hz] at hi
        exact .inl hi
    · intro z hz
      have hlong := h.long
      rw [hz] at hlong
      simp at hlong

end Hung

end Babelfish.Tsql.ForJson
