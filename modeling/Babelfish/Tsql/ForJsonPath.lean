import Mathlib.Data.List.TakeWhile
import Babelfish.Lib.Bytes
import Babelfish.Tsql.ForJsonColumns

/-!
# The object that `FOR JSON PATH` builds

The object is read from memory.  When each path that branches is the first one below the path it
continues, all copies are what they are copies of, and the object has the columns at their paths;
else a column is lost, or freed memory is read.

* `shaped_describes`: the object of a row whose paths are in order.
* `shaped_not_describes`: a row whose paths are not in order has no such object.
* `tsqlRowToJson_iff`: when the row becomes the object asked for, or the error that is asked for.
-/

namespace Babelfish.Tsql.ForJson

open Lib List

variable {V : Type}

/-- **The paths are in order**: of a path of two or more parts that branches, the first column that
begins with all but its last part begins with it. -/
def InOrder (cols : List (Column V)) : Prop :=
  ∀ u z x y, u ≠ [] → x ≠ y → (∃ c ∈ cols, u ++ [z, x] <+: c.path) →
    (∃ c ∈ cols, u ++ [z, y] <+: c.path) → FirstBelow cols u z

variable {q : List Part} {cols : List (Column V)} {ts : List (List UInt8 × Json V)}

theorem FirstBelow.unique {x y : Part} (hx : FirstBelow cols q x) (hy : FirstBelow cols q y) :
    x = y := by
  obtain ⟨b₁, c₁, a₁, h₁, hb₁, hp₁⟩ := hx
  obtain ⟨b₂, c₂, a₂, h₂, hb₂, hp₂⟩ := hy
  have hle : ∀ {b b' a a' : List (Column V)} {c c' : Column V}, b ++ c :: a = b' ++ c' :: a' →
      (∀ d ∈ b', ¬q <+: d.path) → q <+: c.path → b'.length ≤ b.length := by
    intro b b' a a' c c' heq hb' hc
    by_contra hlt
    have hget : (b' ++ c' :: a')[b.length]? = some c := by
      rw [← heq]
      simp
    rw [getElem?_append_left (by omega)] at hget
    exact hb' c (mem_of_getElem? hget) hc
  have hq₁ : q <+: c₁.path := (prefix_append q [x]).trans hp₁
  have hq₂ : q <+: c₂.path := (prefix_append q [y]).trans hp₂
  have heq := h₁.symm.trans h₂
  have hlen : b₁.length = b₂.length :=
    Nat.le_antisymm (hle heq.symm hb₁ hq₂) (hle heq hb₂ hq₁)
  obtain ⟨-, hrest⟩ := append_inj heq hlen
  cases hrest
  have hxy := eq_of_prefix_of_length hp₁ hp₂ (by simp)
  simpa using hxy

/-! ### Reading -/

theorem readPairs_exists (read : JsonbValue V → Option (Json V)) (P : List UInt8 → Json V → Prop)
    (ps : List (List UInt8 × JsonbValue V))
    (h : ∀ k v, (k, v) ∈ ps → ∃ t, read v = some t ∧ P k t) :
    ∃ ts, readPairs read ps = some ts ∧ ts.map Prod.fst = ps.map Prod.fst ∧
      ∀ k t, (k, t) ∈ ts → P k t := by
  induction ps with
  | nil => exact ⟨[], rfl, rfl, nofun⟩
  | cons p ps ih =>
    obtain ⟨k, v⟩ := p
    obtain ⟨t, ht, hP⟩ := h k v mem_cons_self
    obtain ⟨ts, hts, hkeys, hall⟩ := ih fun k v hkv => h k v (mem_cons_of_mem _ hkv)
    refine ⟨(k, t) :: ts, by rw [readPairs, ht, hts], by simp [hkeys], ?_⟩
    intro k' t' hmem
    rcases mem_cons.mp hmem with heq | hmem
    · cases heq
      exact hP
    · exact hall k' t' hmem

theorem readPairs_mem {read : JsonbValue V → Option (Json V)}
    {ps : List (List UInt8 × JsonbValue V)}
    (h : readPairs read ps = some ts) {k : List UInt8} {t : Json V} (hmem : (k, t) ∈ ts) :
    ∃ v, (k, v) ∈ ps ∧ read v = some t := by
  induction ps generalizing ts with
  | nil =>
    cases h
    cases hmem
  | cons p ps ih =>
    obtain ⟨k', v'⟩ := p
    rw [readPairs] at h
    split at h
    · rename_i t' ts' hv hps
      cases h
      rcases mem_cons.mp hmem with heq | hmem
      · cases heq
        exact ⟨v', mem_cons_self, hv⟩
      · obtain ⟨v, hmem', hread⟩ := ih hps hmem
        exact ⟨v, mem_cons_of_mem _ hmem', hread⟩
    · cases h

variable {ps : List (List UInt8 × JsonbValue V)}
variable {d : Nat} {m : Mem V} {t : Json V} {k : List UInt8} {t' : Json V} {done : List (Column V)}
  {c : Column V}

theorem readJson_object {n b : Nat} (hb : m.block b = some ps) (hn : ps.length = n) :
    readJson m (d + 1) (.object n b) = (readPairs (fun v => readJson m d v) ps).map .object := by
  rw [readJson, hb]
  simp only
  rw [if_pos (Nat.le_of_eq hn.symm), ← hn, take_length]

theorem Json.follow_append (t : Json V) (p q : List (List UInt8)) :
    t.follow (p ++ q) = (t.follow p).bind fun t' => t'.follow q := by
  induction p generalizing t with
  | nil => rfl
  | cons k p ih =>
    cases t with
    | leaf v => rfl
    | object ps =>
      rw [cons_append, Json.follow, Json.follow]
      cases ps.find? fun p => p.1 = k with
      | none => rfl
      | some kt => exact ih kt.2

theorem Json.follow_single {ps : List (List UInt8 × Json V)}
    (h : (Json.object ps).follow [k] = some t) : (k, t) ∈ ps := by
  rw [Json.follow] at h
  cases hf : ps.find? fun p => p.1 = k with
  | none =>
    rw [hf] at h
    cases h
  | some p =>
    rw [hf] at h
    have hk : p.1 = k := by simpa using find?_some hf
    cases h
    rw [← hk]
    exact mem_of_find?_eq_some hf

theorem read_kid {n b : Nat} (hread : readJson m d (.object n b) = some t)
    (hb : m.block b = some ps) (hfollow : t.follow [k] = some t') :
    ∃ (d' i : Nat) (v : JsonbValue V), i < n ∧ ps[i]? = some (k, v) ∧
      readJson m d' v = some t' := by
  cases d with
  | zero => cases hread
  | succ d =>
    rw [readJson, hb] at hread
    simp only at hread
    split at hread
    · obtain ⟨ts, hts, rfl⟩ := Option.map_eq_some_iff.mp hread
      obtain ⟨v, hmem, hv⟩ := readPairs_mem hts (Json.follow_single hfollow)
      obtain ⟨i, hi⟩ := mem_iff_getElem?.mp hmem
      have hlt := (List.getElem?_eq_some_iff.mp hi).1
      rw [length_take] at hlt
      rw [getElem?_take_of_lt (by omega)] at hi
      exact ⟨d, i, v, by omega, hi, hv⟩
    · cases hread

/-! ### Rows whose paths are in order -/

/-- What is to be shown of the value at the path `q`. -/
structure ReadsAs (done : List (Column V)) (q : List Part) (t : Json V) : Prop where
  reaches : ∀ c ∈ done, ∀ s, c.path = q ++ s →
    t.follow (s.map Part.text) = some (jsonOf c.colval)
  only : ∀ p v, t.LeafAt p v → ∃ c ∈ done, ∃ s, q.map Part.text ++ p = c.keys ++ s ∧
    (jsonOf c.colval).LeafAt s v

theorem ReadsAs.object (hq : ∀ c ∈ done, c.path ≠ q)
    (hkids : ∀ k t, (k, t) ∈ ts → ∃ x : Part, k = x.text ∧ ReadsAs done (q ++ [x]) t)
    (hall : ∀ c ∈ done, ∀ x s, c.path = q ++ x :: s → x.text ∈ ts.map Prod.fst) :
    ReadsAs done q (.object ts) where
  reaches := by
    intro c hc s hpath
    cases s with
    | nil => exact absurd (hpath.trans (append_nil q)) (hq c hc)
    | cons x s =>
      rw [map_cons, Json.follow]
      obtain ⟨⟨k, t⟩, hmem, hk⟩ := mem_map.mp (hall c hc x s hpath)
      cases hf : ts.find? fun p => p.1 = x.text with
      | none =>
        have hno := find?_eq_none.mp hf (k, t) hmem
        simp only [decide_eq_true_eq] at hno
        exact absurd hk hno
      | some p =>
        obtain ⟨k', t'⟩ := p
        have hk' : k' = x.text := by simpa using find?_some hf
        obtain ⟨x', hx', hreads⟩ := hkids k' t' (mem_of_find?_eq_some hf)
        obtain rfl : x = x' := Part.ext (hk'.symm.trans hx')
        exact hreads.reaches c hc s (by rw [hpath]; simp)
  only := by
    intro p v hleaf
    cases p with
    | nil => exact hleaf.elim
    | cons k p =>
      obtain ⟨t, hmem, hleaf⟩ := hleaf
      obtain ⟨x, rfl, hreads⟩ := hkids k t hmem
      obtain ⟨c, hc, s, heq, hs⟩ := hreads.only p v hleaf
      refine ⟨c, hc, s, ?_, hs⟩
      rw [← heq]
      simp

theorem readJson_stores {w : JsonbValue V} {v : Option (JsonValue V)} (h : Stores m w v) :
    readJson m (d + 2) w = some (jsonOf v) := by
  match v with
  | none | some (.scalar _) =>
    cases h
    rfl
  | some (.object pairs) =>
    obtain ⟨b, rfl, hb⟩ := h
    rw [readJson_object hb (length_map _)]
    have hpairs : ∀ ps : List (List UInt8 × V),
        readPairs (fun v => readJson m (d + 1) v) (ps.map fun p => (p.1, .leaf (some p.2))) =
          some (ps.map fun p => (p.1, Json.leaf (some p.2))) := by
      intro ps
      induction ps with
      | nil => rfl
      | cons p ps ih =>
        rw [map_cons, readPairs, ih]
        rfl
    rw [hpairs]
    rfl

theorem Separate.eq_of_prefix (h : Separate cols) {c' : Column V}
    (hc : c ∈ cols) (hc' : c' ∈ cols) (hpre : c.path <+: c'.path) : c = c' :=
  List.Pairwise.forall_of_forall_of_flip
    (R := fun c c' : Column V => c.path <+: c'.path → c = c') (fun _ _ _ => rfl)
    (h.imp fun hr hpre => absurd hpre hr.1) (h.imp fun hr hpre => absurd hpre hr.2) hc hc' hpre

theorem ReadsAs.column (hsep : Separate done) (hc : c ∈ done) :
    ReadsAs done c.path (jsonOf c.colval) where
  reaches := by
    intro c' hc' s hpath
    obtain rfl := hsep.eq_of_prefix hc hc' ⟨s, hpath.symm⟩
    obtain rfl : s = [] := append_right_eq_self.mp hpath.symm
    rfl
  only p _ hleaf := ⟨c, hc, p, rfl, hleaf⟩

section

variable {st : RowState V} {done : List (Column V)} {v : JsonbValue V} {e : JsonbEntry}

section

variable (hlink : Linked st done)
include hlink

theorem Linked.column (he : st.entry q = some e) :
    q ≠ [] ∧ ∃ c ∈ done, 2 ≤ c.path.length ∧ q <+: c.path :=
  (hlink.registered q).mp ⟨e, he⟩

theorem Linked.entry_of_prefix (hc : c ∈ done) (hq : q ≠ [])
    (hlen : 2 ≤ c.path.length) (hpre : q <+: c.path) :
    ∃ e, st.entry q = some e := (hlink.registered q).mpr ⟨hq, c, hc, hlen, hpre⟩

theorem copy_eq (hshape : Shaped st.mem st.entry done) (horder : InOrder done) {a : Nat}
    (hq : q ≠ []) (hk : Kids st.mem st.entry done q a ps) {i : Nat} (hi : ps[i]? = some (k, v)) :
    ∃ x e, k = x.text ∧ st.entry (q ++ [x]) = some e ∧ st.mem.cell e.value = some v := by
  obtain ⟨x, e, hx, he, hfirst, hlater⟩ := hk.kid i k v hi
  refine ⟨x, e, hx, he, ?_⟩
  rcases Nat.eq_zero_or_pos i with h0 | hpos
  · exact (hfirst h0).1
  rcases (hlater hpos).copy with ⟨hv, -⟩ | ⟨n, b, b', hv, hc, ⟨z, e1, he1⟩, hone, -⟩
  · exact hv
  -- with a second pair the path would branch, and come first
  obtain ⟨n', b'', ps', hc', hb', hk'⟩ := hshape.kids he he1
  rw [hc] at hc'
  cases hc'
  have hlen := hlink.tidy.length hc hb'
  have hn : n = 1 := by
    by_contra hne
    have hpos' : 0 < ps'.length := by
      obtain ⟨j, u, hj⟩ := hk'.all z e1 he1
      exact Nat.zero_lt_of_lt (List.getElem?_eq_some_iff.mp hj).1
    obtain ⟨⟨k0, u0⟩, h0⟩ : ∃ p, ps'[0]? = some p := ⟨_, getElem?_eq_getElem hpos'⟩
    obtain ⟨⟨k1, u1⟩, h1⟩ : ∃ p, ps'[1]? = some p :=
      ⟨_, getElem?_eq_getElem (show 1 < ps'.length by omega)⟩
    obtain ⟨x0, e0, hx0, he0, -⟩ := hk'.kid 0 k0 u0 h0
    obtain ⟨x1, e1', hx1, he1', -⟩ := hk'.kid 1 k1 u1 h1
    have hne01 : x0 ≠ x1 := by
      rintro rfl
      rw [hx0] at h0
      rw [hx1] at h1
      exact absurd (place_unique hk'.nodup h0 h1) (by decide)
    have hbelow : FirstBelow done q x := by
      obtain ⟨-, c0, hc0, -, hp0⟩ := hlink.column he0
      obtain ⟨-, c1, hc1, -, hp1⟩ := hlink.column he1'
      refine horder q x x0 x1 hq hne01 ⟨c0, hc0, ?_⟩ ⟨c1, hc1, ?_⟩
      · rwa [append_assoc, singleton_append] at hp0
      · rwa [append_assoc, singleton_append] at hp1
    obtain ⟨⟨kf, uf⟩, hf⟩ : ∃ p, ps[0]? = some p :=
      ⟨_, List.getElem?_eq_getElem (Nat.lt_trans hpos (List.getElem?_eq_some_iff.mp hi).1)⟩
    obtain ⟨xf, ef, hxf, -, hff, -⟩ := hk.kid 0 kf uf hf
    obtain rfl := hbelow.unique (hff rfl).2.2.2
    rw [hxf] at hf
    rw [hx] at hi
    have := place_unique hk.nodup hi hf
    omega
  rw [hc, hv, hone hn, hn]

/-- **Each path reads as what is below it**, when the paths are in order. -/
theorem reads_as (hshape : Shaped st.mem st.entry done) (hsep : Separate done)
    (horder : InOrder done) {N : Nat} (hN : ∀ c ∈ done, c.path.length ≤ N) (d : Nat)
    (he : st.entry q = some e) (hv : st.mem.cell e.value = some v) (hd : N + 2 ≤ d + q.length) :
    ∃ t, readJson st.mem d v = some t ∧ ReadsAs done q t := by
  induction d generalizing q e v with
  | zero =>
    obtain ⟨-, c, hc, -, hpre⟩ := hlink.column he
    have := hN c hc
    have := hpre.length_le
    omega
  | succ d ih =>
    obtain ⟨hq, c, hc, hlen, t, ht⟩ := hlink.column he
    cases t with
    | nil =>
      -- the path of a column
      rw [append_nil] at ht
      obtain ⟨e', w, he', hw, hs⟩ := hshape.stored c hc hlen
      rw [← ht, he] at he'
      cases he'
      rw [hv] at hw
      cases hw
      have hd' : 1 ≤ d := by
        have := hN c hc
        rw [← ht] at this
        omega
      obtain ⟨d', rfl⟩ := Nat.exists_eq_add_of_le' hd'
      exact ⟨_, readJson_stores hs, ht ▸ .column hsep hc⟩
    | cons x t =>
      -- an object
      obtain ⟨e', he'⟩ := hlink.entry_of_prefix hc (q := q ++ [x]) (by simp) hlen
        ⟨t, by rw [← ht]; simp⟩
      obtain ⟨n, b, ps, hcell, hb, hk⟩ := hshape.kids he he'
      rw [hv] at hcell
      cases hcell
      have hlen' := hlink.tidy.length hv hb
      obtain ⟨ts, hts, hkeys, hall⟩ := readPairs_exists (fun v => readJson st.mem d v)
        (fun k t => ∃ x : Part, k = x.text ∧ ReadsAs done (q ++ [x]) t) ps (by
          intro k u hku
          obtain ⟨i, hi⟩ := mem_iff_getElem?.mp hku
          obtain ⟨x, e, hx, hex, hu⟩ := copy_eq hlink hshape horder hq hk hi
          obtain ⟨t, ht, hreads⟩ := ih hex hu (by
            rw [length_append, length_singleton]
            omega)
          exact ⟨t, ht, x, hx, hreads⟩)
      refine ⟨.object ts, ?_, .object ?_ hall ?_⟩
      · rw [readJson_object hb hlen', hts]
        rfl
      · intro c' hc' hpath
        obtain rfl := hsep.eq_of_prefix hc' hc ⟨x :: t, by rw [hpath, ht]⟩
        rw [hpath] at ht
        exact absurd (append_right_eq_self.mp ht) (by simp)
      · intro c' hc' x' s hpath
        have hqlen := length_pos_of_ne_nil hq
        have hlen2 : 2 ≤ c'.path.length := by
          rw [hpath, length_append, length_cons]
          omega
        obtain ⟨e2, he2⟩ := hlink.entry_of_prefix hc' (q := q ++ [x']) (by simp) hlen2
          ⟨s, by rw [hpath]; simp⟩
        obtain ⟨i, u, hi⟩ := hk.all x' e2 he2
        rw [hkeys]
        exact mem_map.mpr ⟨_, mem_of_getElem? hi, rfl⟩

end

theorem exists_length_le (cols : List (Column V)) : ∃ N, ∀ c ∈ cols, c.path.length ≤ N :=
  ⟨_, fun _ hc => le_sum_of_mem (mem_map_of_mem (f := fun c => c.path.length) hc)⟩

/-- **The object of a row whose paths are in order.** -/
theorem shaped_describes (hlink : Linked st done) (hshape : Shaped st.mem st.entry done)
    (hsep : Separate done) (hne : ∀ c ∈ done, c.path ≠ []) (horder : InOrder done) :
    ∃ depth t, readRow st depth = some t ∧ Describes done t := by
  obtain ⟨N, hN⟩ := exists_length_le done
  obtain ⟨n, b, ps, hrow, hb, hk⟩ := hshape.row
  have hlen := hlink.tidy.length hrow hb
  obtain ⟨ts, hts, hkeys, hall⟩ := readPairs_exists (fun v => readJson st.mem (N + 2) v)
    (fun k t => ∃ x : Part, k = x.text ∧ ReadsAs done ([] ++ [x]) t) ps (by
      intro k v hkv
      obtain ⟨i, hi⟩ := mem_iff_getElem?.mp hkv
      obtain ⟨x, hx, ⟨e, he, hv, -⟩ | ⟨-, c, hc, hpath, hs, -⟩⟩ := hk.kid i k v hi
      · obtain ⟨t, ht, hreads⟩ := reads_as hlink hshape hsep horder hN (N + 2) he hv (by simp)
        exact ⟨t, ht, x, hx, hreads⟩
      · exact ⟨_, readJson_stores hs, x, hx, hpath ▸ .column hsep hc⟩)
  have hreads : ReadsAs done [] (.object ts) := by
    refine .object hne hall ?_
    intro c hc x s hpath
    rw [hkeys]
    cases s with
    | nil =>
      obtain ⟨i, v, hi⟩ := hk.single c hc x hpath
      exact mem_map.mpr ⟨_, mem_of_getElem? hi, rfl⟩
    | cons y s =>
      obtain ⟨e, he⟩ := hlink.entry_of_prefix hc (q := [x]) (by simp) (by rw [hpath]; simp)
        ⟨y :: s, by rw [hpath]; rfl⟩
      obtain ⟨i, v, hi⟩ := hk.all x e he
      exact mem_map.mpr ⟨_, mem_of_getElem? hi, rfl⟩
  refine ⟨N + 3, .object ts, ?_, ?_, ?_⟩
  · rw [readRow, hrow, Option.bind_some, readJson_object hb hlen, hts]
    rfl
  · intro c hc
    exact hreads.reaches c hc c.path (nil_append _).symm
  · intro p v hleaf
    exact hreads.only p v hleaf

/-! ### Rows whose paths are not in order -/

/-- What can be seen of the value of a path: the value, or a copy with one pair. -/
def Seen (st : RowState V) (e : JsonbEntry) (v : JsonbValue V) : Prop :=
  st.mem.cell e.value = some v ∨ ∃ n b b', v = .object 1 b' ∧
    st.mem.cell e.value = some (.object n b) ∧ (b' = b ∨ st.mem.Freed b')

/-- What is seen below a path that is seen: of a copy with one pair, only the first. -/
theorem Seen.kid (hshape : Shaped st.mem st.entry done) {x : Part} {e' : JsonbEntry}
    (hseen : Seen st e v) (he : st.entry q = some e) (he' : st.entry (q ++ [x]) = some e')
    (hread : readJson st.mem d v = some t) (hfollow : t.follow [x.text] = some t') :
    ∃ n b ps d' i v', st.mem.cell e.value = some (.object n b) ∧ st.mem.block b = some ps ∧
      Kids st.mem st.entry done q e.value ps ∧ ps[i]? = some (x.text, v') ∧
      readJson st.mem d' v' = some t' ∧ (v = .object n b ∨ i = 0) := by
  obtain ⟨n, b, ps, hc, hb, hk⟩ := hshape.kids he he'
  rcases hseen with hv | ⟨n', b', b'', rfl, hc', hold⟩
  · rw [hc] at hv
    cases hv
    obtain ⟨d', i, v', -, hi, hread'⟩ := read_kid hread hb hfollow
    exact ⟨n, b, ps, d', i, v', hc, hb, hk, hi, hread', .inl rfl⟩
  · rw [hc] at hc'
    cases hc'
    rcases hold with rfl | hfreed
    · obtain ⟨d', i, v', hlt, hi, hread'⟩ := read_kid hread hb hfollow
      exact ⟨n, b'', ps, d', i, v', hc, hb, hk, hi, hread', .inr (by omega)⟩
    · -- freed pairs are not read
      cases d with
      | zero => cases hread
      | succ d =>
        rw [readJson, hfreed.block_eq] at hread
        cases hread

section

variable {depth : Nat} (hlink : Linked st done) (hshape : Shaped st.mem st.entry done)
  (hread : readRow st depth = some t)
include hlink hshape hread

theorem seen_of_follow (q : List Part)
    (he : st.entry q = some e) (hfollow : t.follow (q.map Part.text) = some t') :
    ∃ d v, readJson st.mem d v = some t' ∧ Seen st e v := by
  induction q using reverseRecOn generalizing e t' with
  | nil => exact absurd rfl (hlink.column he).1
  | append_singleton q x ih =>
    by_cases hq : q = []
    · subst hq
      obtain ⟨n, b, ps, hrow, hb, hk⟩ := hshape.row
      rw [readRow, hrow, Option.bind_some] at hread
      obtain ⟨d, i, v, -, hi, hread'⟩ := read_kid hread hb hfollow
      exact ⟨d, v, hread', .inl (hk.place hi he).1⟩
    · rw [map_append, Json.follow_append] at hfollow
      obtain ⟨t1, ht1, hfollow'⟩ := Option.bind_eq_some_iff.mp hfollow
      obtain ⟨e1, he1⟩ := hlink.entry_of_concat he hq
      obtain ⟨d, v, hread', hseen⟩ := ih he1 ht1
      obtain ⟨n, b, ps, d', i, v', -, -, hk, hi, hread'', -⟩ :=
        hseen.kid hshape he1 he hread' hfollow'
      refine ⟨d', v', hread'', ?_⟩
      obtain ⟨hfirst, hlater⟩ := hk.place hi he
      rcases Nat.eq_zero_or_pos i with h0 | hpos
      · exact .inl (hfirst h0).1
      · rcases (hlater hpos).copy with ⟨hv, -⟩ | ⟨n', b', b'', hv, hc', -, -, hold⟩
        · exact .inl hv
        · exact .inr ⟨n', b', b'', hv, hc', hold⟩

/-- **A row whose paths are not in order** does not become the object asked for. -/
theorem shaped_not_describes (horder : ¬InOrder done) : ¬Describes done t := by
  intro hdesc
  unfold InOrder at horder
  push Not at horder
  obtain ⟨u, z, x, y, hu, hxy, ⟨cx, hcx, hpx⟩, ⟨cy, hcy, hpy⟩, hbelow⟩ := horder
  have hlong : ∀ {c : Column V} {w : Part}, u ++ [z, w] <+: c.path → 2 ≤ c.path.length := by
    intro c w hpre
    have hle := hpre.length_le
    rw [length_append, length_cons, length_singleton] at hle
    omega
  have hsplit : ∀ w : Part, u ++ [z, w] = u ++ [z] ++ [w] := fun w => by simp
  -- the entries of the path, of the one above it and of those below it
  obtain ⟨ex, hex⟩ := hlink.entry_of_prefix hcx (q := u ++ [z] ++ [x]) (by simp) (hlong hpx)
    (hsplit x ▸ hpx)
  obtain ⟨ez, hez⟩ := hlink.entry_of_concat hex (by simp)
  obtain ⟨eu, heu⟩ := hlink.entry_of_concat hez hu
  obtain ⟨ey, hey⟩ := hlink.entry_of_prefix hcy (q := u ++ [z] ++ [y]) (by simp) (hlong hpy)
    (hsplit y ▸ hpy)
  -- one of the two parts does not come first
  obtain ⟨w, cw, hcw, hpw, ew, hew, hw⟩ : ∃ w, ∃ cw ∈ done, u ++ [z, w] <+: cw.path ∧ ∃ ew,
      st.entry (u ++ [z] ++ [w]) = some ew ∧ ∀ n b ps, st.mem.cell ez.value = some (.object n b) →
        st.mem.block b = some ps → ∀ v, ps[0]? ≠ some (w.text, v) := by
    by_cases h0 : ∃ n b ps v, st.mem.cell ez.value = some (.object n b) ∧
        st.mem.block b = some ps ∧ ps[0]? = some (x.text, v)
    · obtain ⟨n, b, ps, v, hc, hb, h0⟩ := h0
      refine ⟨y, cy, hcy, hpy, ey, hey, ?_⟩
      intro n' b' ps' hc' hb' v' h0'
      rw [hc] at hc'
      cases hc'
      rw [hb] at hb'
      cases hb'
      rw [h0] at h0'
      have hkey := congrArg Prod.fst (Option.some.inj h0')
      exact hxy (Part.ext hkey)
    · refine ⟨x, cx, hcx, hpx, ex, hex, ?_⟩
      intro n b ps hc hb v h0'
      exact h0 ⟨n, b, ps, v, hc, hb, h0'⟩
  -- the column behind it is not reached
  have hreach := hdesc.reaches cw hcw
  obtain ⟨s, hs⟩ := hpw
  have hkeys : cw.keys = u.map Part.text ++ ([z.text] ++ ([w.text] ++ s.map Part.text)) := by
    rw [Column.keys, ← hs]
    simp
  rw [hkeys, Json.follow_append] at hreach
  obtain ⟨t1, ht1, hreach⟩ := Option.bind_eq_some_iff.mp hreach
  rw [Json.follow_append] at hreach
  obtain ⟨t2, ht2, hreach⟩ := Option.bind_eq_some_iff.mp hreach
  rw [Json.follow_append] at hreach
  obtain ⟨t3, ht3, -⟩ := Option.bind_eq_some_iff.mp hreach
  obtain ⟨d1, v1, hread1, hseen1⟩ := seen_of_follow hlink hshape hread u heu ht1
  obtain ⟨n, b, ps, d2, i, v2, hc, hb, hk, hi, hread2, -⟩ :=
    hseen1.kid hshape heu hez hread1 ht2
  obtain ⟨hfirst, hlater⟩ := hk.place hi hez
  rcases Nat.eq_zero_or_pos i with h0 | hpos
  · exact hbelow (hfirst h0).2.2.2
  · rcases (hlater hpos).copy with ⟨-, hnone⟩ | ⟨n', b', b'', rfl, hc', -, hone, hold⟩
    · rw [hnone] at hew
      cases hew
    · have hseen2 : Seen st ez (.object 1 b'') := Or.inr ⟨n', b', b'', rfl, hc', hold⟩
      obtain ⟨n3, b3, ps3, d3, j, v3, hc3, hb3, -, hj, -, hcase⟩ :=
        hseen2.kid hshape hez hew hread2 ht3
      have hj0 : j = 0 := by
        rcases hcase with heq | h0
        · cases heq
          have hlen := hlink.tidy.length hc3 hb3
          have := (List.getElem?_eq_some_iff.mp hj).1
          omega
        · exact h0
      subst hj0
      exact hw n3 b3 ps3 hc3 hb3 v3 hj

end

end

/-! ### The row -/

def ReportsConflict (r : Except Fault (RowState V)) : Prop := ∃ name, r = .error (.conflict name)

/-- The object asked for is built. -/
def BuildsObject (cols : List (Column V)) (r : Except Fault (RowState V)) : Prop :=
  ∃ st depth t, r = .ok st ∧ readRow st depth = some t ∧ Describes cols t

theorem live_sublist (nulls : Bool) : (live nulls cols).Sublist cols := filter_sublist

/-- **When `FOR JSON PATH` does what is asked for.**  It reports a conflict or builds the object,
and reports one exactly if a path equals another or begins it, in two cases: one of two columns that
are shown has several parts and no object and begins the other, with no column refused before; or no
column is refused, no path begins another, and the paths of the columns that are shown are in
order. -/
theorem tsqlRowToJson_iff (moves : Mem V → Bool) (includeNullValues : Bool) (cols : List (Column V))
    (hnamed : ∀ c ∈ cols, c.WellNamed) :
    ((ReportsConflict (tsqlRowToJson moves includeNullValues cols) ∨
          BuildsObject (live includeNullValues cols) (tsqlRowToJson moves includeNullValues cols)) ∧
        (ReportsConflict (tsqlRowToJson moves includeNullValues cols) ↔ ¬Separate cols)) ↔
      ¬NoClash (live includeNullValues (cols.takeWhile (·.accepted includeNullValues))) ∨
        ((∀ c ∈ cols, c.accepted includeNullValues) ∧ Separate cols ∧
          InOrder (live includeNullValues cols)) := by
  have hspec := addColumns_spec moves includeNullValues hnamed linked_startRow .nil
  change Outcome includeNullValues [] cols (tsqlRowToJson moves includeNullValues cols) at hspec
  have htake : (live includeNullValues (cols.takeWhile (·.accepted includeNullValues))).Sublist
      cols := (live_sublist _).trans (takeWhile_sublist _)
  have hclash : ¬NoClash (live includeNullValues (cols.takeWhile (·.accepted includeNullValues))) →
      ¬Separate cols := fun hno hsep => hno (Separate.noClash (hsep.sublist htake))
  have hshaped : (∀ c ∈ cols, c.accepted includeNullValues = true) → Separate cols →
      ∃ st, tsqlRowToJson moves includeNullValues cols = .ok st ∧
        Linked st (live includeNullValues cols) ∧
        Shaped st.mem st.entry (live includeNullValues cols) :=
    fun hacc hsep => addColumns_shaped moves includeNullValues cols [] startRow hnamed hacc
      linked_startRow shaped_startRow (hsep.sublist (live_sublist _))
  constructor
  · rintro ⟨hcases, hiff⟩
    by_cases hsep : Separate cols
    · right
      have hnot : ¬ReportsConflict (tsqlRowToJson moves includeNullValues cols) :=
        fun hconf => hiff.mp hconf hsep
      obtain ⟨st, depth, t, hrun, hread, hdesc⟩ := hcases.resolve_left hnot
      rw [hrun] at hspec
      refine ⟨hspec.1, hsep, ?_⟩
      by_contra horder
      obtain ⟨st', hrun', hlink, hshape⟩ := hshaped hspec.1 hsep
      rw [hrun] at hrun'
      cases hrun'
      exact shaped_not_describes hlink hshape hread horder hdesc
    · left
      obtain ⟨name, hname⟩ := hiff.mpr hsep
      rwa [hname] at hspec
  · rintro (hno | ⟨hacc, hsep, horder⟩)
    · have hconf : ReportsConflict (tsqlRowToJson moves includeNullValues cols) := by
        match hrun : tsqlRowToJson moves includeNullValues cols with
        | .error (.conflict name) => exact ⟨name, rfl⟩
        | .ok st =>
          rw [hrun] at hspec
          rw [takeWhile_eq_self_iff.mpr hspec.1] at hno
          exact absurd hspec.2.2 hno
        | .error .undefined =>
          rw [hrun] at hspec
          exact hspec.elim
        | .error .unnamedColumn =>
          rw [hrun] at hspec
          exact absurd hspec.2 hno
        | .error .binaryType =>
          rw [hrun] at hspec
          exact absurd hspec.2 hno
        | .error .nullPointer =>
          rw [hrun] at hspec
          exact absurd hspec.2 hno
      exact ⟨.inl hconf, fun _ => hclash hno, fun _ => hconf⟩
    · obtain ⟨st, hrun, hlink, hshape⟩ := hshaped hacc hsep
      have hne : ∀ c ∈ live includeNullValues cols, c.path ≠ [] :=
        fun c hc => (hnamed c ((live_sublist _).subset hc)).1
      obtain ⟨depth, t, hread, hdesc⟩ := shaped_describes hlink hshape
        (hsep.sublist (live_sublist _)) hne horder
      refine ⟨.inr ⟨st, depth, t, hrun, hread, hdesc⟩, ?_, ?_⟩
      · rintro ⟨name, hname⟩
        rw [hrun] at hname
        cases hname
      · intro hnot
        exact absurd hsep hnot

instance (c : Column V) : Decidable c.WellNamed := inferInstanceAs (Decidable (_ ∧ _))

instance (cols : List (Column V)) : Decidable (Separate cols) :=
  inferInstanceAs (Decidable (cols.Pairwise fun c c' => ¬c.path <+: c'.path ∧ ¬c'.path <+: c.path))

/-- The columns `a`, `x.y` and `x.z` of a row; the last is NULL. -/
def exampleColumns : List (Column Nat) :=
  [⟨[97], .money, some (.scalar 1)⟩, ⟨[120, 46, 121], .other, some (.scalar 2)⟩,
    ⟨[120, 46, 122], .other, none⟩]

/-- With NULLs shown and pairs that are moved each time, the row `a`, `x.y`, `x.z` becomes the
object asked for, and no conflict is reported. -/
theorem exampleColumns_builds :
    (ReportsConflict (tsqlRowToJson (fun _ => true) true exampleColumns) ∨
        BuildsObject (live true exampleColumns)
          (tsqlRowToJson (fun _ => true) true exampleColumns)) ∧
      (ReportsConflict (tsqlRowToJson (fun _ => true) true exampleColumns) ↔
        ¬Separate exampleColumns) := by
  refine (tsqlRowToJson_iff (fun _ => true) true exampleColumns (by decide)).mpr
    (.inr ⟨by decide, by decide, ?_⟩)
  -- no path has three parts
  rintro u z x y hu - ⟨c, hc, hpre⟩ -
  have hshort : ∀ c ∈ live true exampleColumns, c.path.length ≤ 2 := by decide
  have hle := hpre.length_le
  have hpos := length_pos_of_ne_nil hu
  rw [length_append, length_cons, length_singleton] at hle
  have := hshort c hc
  omega

/-- The columns `x.y`, `x.z.w` and `x.z.v` of a row. -/
def lostColumns : List (Column Nat) :=
  [⟨[120, 46, 121], .other, some (.scalar 1)⟩, ⟨[120, 46, 122, 46, 119], .other, some (.scalar 2)⟩,
    ⟨[120, 46, 122, 46, 118], .other, some (.scalar 3)⟩]

/-- The object built of `x.y`, `x.z.w` and `x.z.v` has no `x.z.v`, though no path begins another. -/
theorem third_column_lost :
    Separate lostColumns ∧ (∀ c ∈ lostColumns, c.WellNamed) ∧
      ∃ st, tsqlRowToJson (fun _ => false) false lostColumns = .ok st ∧
        readRow st 4 = some (.object [([120], .object [([121], .leaf (some 1)),
          ([122], .object [([119], .leaf (some 2))])])]) ∧
        ¬BuildsObject (live false lostColumns)
          (tsqlRowToJson (fun _ => false) false lostColumns) := by
  have hsep : Separate lostColumns := by decide
  have hnamed : ∀ c ∈ lostColumns, c.WellNamed := by decide
  refine ⟨hsep, hnamed, _, rfl, rfl, ?_⟩
  rintro ⟨st, depth, t, hrun, hread, hdesc⟩
  obtain ⟨st', hrun', hlink, hshape⟩ := addColumns_shaped (fun _ => false) false lostColumns []
    startRow hnamed (by decide) linked_startRow shaped_startRow hsep
  have hst : st' = st := Except.ok.inj (hrun'.symm.trans hrun)
  subst hst
  refine shaped_not_describes hlink hshape hread ?_ hdesc
  intro horder
  -- `x.z` branches, but `x.y` comes first
  have hz := horder [⟨[120], by decide, by decide⟩] ⟨[122], by decide, by decide⟩
    ⟨[119], by decide, by decide⟩ ⟨[118], by decide, by decide⟩ (by decide) (by decide)
    (by decide) (by decide)
  have hy : FirstBelow (live false lostColumns) [⟨[120], by decide, by decide⟩]
      ⟨[121], by decide, by decide⟩ := ⟨[], _, _, rfl, by decide, by decide⟩
  exact absurd (hz.unique hy) (by decide)

end Babelfish.Tsql.ForJson
