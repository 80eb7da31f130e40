import Babelfish.Tsql.ForJsonShape

/-!
# The objects after the columns of a row

A chain of objects is put into an object of the tree, or the value of a column into the row, and the
objects in memory are still the tree of the paths.

* `Put.shaped_put`: a chain is put into an object.
* `Shaped.push`: a value is put into the row.
* `addColumns_shaped`: the objects after all columns.
-/

namespace Babelfish.Tsql.ForJson

open Lib List

variable {V : Type}
variable {q : List Part} {i : JsonbEntry} {ps' : List (List UInt8 × JsonbValue V)}
  {done : List (Column V)} {st : RowState V} {c : Column V}

/-! ### A chain goes into an object -/

/-- The chain of the column `c` has been put into the object at `r`. -/
structure Put (st st' : RowState V) (m m' : Mem V) (done : List (Column V)) (c : Column V)
    (w v : JsonbValue V) (r : List Part) (y : Part) (ys : List Part) (a d n b b' : Nat)
    (e : JsonbEntry) (ps : List (List UInt8 × JsonbValue V)) : Prop where
  hung : Hung st st' m done c w r (y :: ys) a
  shaped : Shaped st.mem st.entry done
  ne_nil : r ≠ []
  entry : st.entry r = some e
  top : st'.mem.cell a = some (.object 1 d)
  pair : st'.mem.block d = some [(y.text, v)]
  current : st'.mem.cell e.value = some (.object n b)
  pairs : st'.mem.block b = some ps
  inserted : Inserted st'.mem m' e.value e.parent e.idx n b ps [(y.text, v)] b'

namespace Put

variable {st st' : RowState V} {m m' : Mem V} {done : List (Column V)} {c : Column V}
  {w v : JsonbValue V} {r : List Part} {y : Part} {ys : List Part} {a d n b b' : Nat}
  {e : JsonbEntry} {ps : List (List UInt8 × JsonbValue V)}
  (h : Put st st' m m' done c w v r y ys a d n b b' e ps) {u : JsonbValue V}

include h

theorem ext : st.mem.Extends st'.mem :=
  h.hung.ext.trans h.hung.nested.ext

theorem self : m'.cell e.value = some (.object (n + 1) b') := h.inserted.self

theorem root_prefix : r <+: c.path :=
  ⟨y :: ys, h.hung.nested.path.symm⟩

theorem new_kid : Hung.New r c (r ++ [y]) := by
  refine ⟨by simp, ?_⟩
  rw [h.hung.nested.path]
  exact ⟨ys, by simp⟩

theorem cell (hi : st'.entry q = some i) (hq : q ≠ r) : m'.cell i.value = st'.mem.cell i.value :=
  h.inserted.cell _ fun heq =>
    hq (h.hung.inj h.shaped hi (h.hung.entry_old h.entry) heq)

theorem untouched : Hung.Untouched st.mem.cells.length st'.mem m' := by
  have hlt := h.hung.value_lt h.entry
  have hplt := h.hung.parent_lt h.entry
  intro a' ha'
  refine ⟨h.inserted.cell a' (by omega), fun n' b' l hc hl => ?_⟩
  exact h.inserted.block a' n' b' l hc (by omega) (by omega) hl

theorem old_kid : ∃ x e, st.entry (r ++ [x]) = some e := by
  obtain ⟨-, c0, hc0, hlen0, ⟨t, ht⟩⟩ := (h.hung.linked.registered r).mp ⟨e, h.entry⟩
  cases t with
  | nil =>
    rw [append_nil] at ht
    exact absurd (ht ▸ h.root_prefix) (h.hung.apart c0 hc0).1
  | cons x t =>
    obtain ⟨e0, he0⟩ := (h.hung.linked.registered (r ++ [x])).mpr
      ⟨by simp, c0, hc0, hlen0, t, by rw [← ht]; simp⟩
    exact ⟨x, e0, he0⟩

theorem old_kids : Kids st'.mem st.entry done r e.value ps ∧ 0 < ps.length ∧ ps.length = n := by
  obtain ⟨x0, e0, he0⟩ := h.old_kid
  obtain ⟨n', b'', ps', hc, hb, hk⟩ := (h.shaped.extends h.ext).kids h.entry he0
  rw [h.current] at hc
  cases hc
  rw [h.pairs] at hb
  cases hb
  have hlen := h.hung.nested.tidy.length h.current h.pairs
  obtain ⟨j, u, hj⟩ := hk.all x0 e0 he0
  exact ⟨hk, Nat.zero_lt_of_lt (List.getElem?_eq_some_iff.mp hj).1, hlen⟩

theorem frozen_new :
    ∃ e1, st'.entry (r ++ [y]) = some e1 ∧ Frozen m' st'.entry (r ++ [y]) e1 v := by
  obtain ⟨d', v', e1, htop, hpair, hentry, hv, -, hpar, hchain⟩ := h.hung.nested.chain
  rw [h.top] at htop
  cases htop
  rw [h.pair] at hpair
  cases hpair
  rw [if_neg h.ne_nil] at hpar
  have hbase := h.hung.nested.chain.base_le
  have hcell := (h.untouched e1.value hchain.base_le).1
  refine ⟨e1, hentry, ?_, ?_, ?_⟩
  · obtain ⟨nr, br, hrow⟩ := h.hung.linked.row
    have hlt := Memory.cell_lt hrow
    omega
  · intro q' i hi
    by_cases hq' : Hung.New r c q'
    · have hlt := (h.hung.new_value hq' hi).2
      omega
    · rw [h.hung.nested.old _ hq'] at hi
      have hlt := h.hung.value_lt hi
      omega
  · cases ys with
    | nil =>
      left
      refine ⟨hcell.trans hv, fun z => ?_⟩
      have hpath : r ++ [y] = c.path := h.hung.nested.path.symm
      rw [hpath]
      exact h.hung.last_no_kids z
    | cons y2 ys =>
      right
      obtain ⟨b2, v2, e2, hc2, -, hentry2, -⟩ := hchain
      rw [hv] at hc2
      cases hc2
      exact ⟨1, b2, b2, rfl, hcell.trans hv, ⟨y2, e2, hentry2⟩, fun _ => rfl, .inl rfl⟩

theorem kids_root : Kids m' st'.entry (done ++ [c]) r e.value (ps ++ [(y.text, v)]) := by
  obtain ⟨hk, hpos, -⟩ := h.old_kids
  have hfresh : y.text ∉ ps.map Prod.fst := by
    intro hmem
    obtain ⟨⟨k, u⟩, hku, hk'⟩ := mem_map.mp hmem
    obtain ⟨j, hj⟩ := mem_iff_getElem?.mp hku
    obtain ⟨z, i, hz, hi, -⟩ := hk.kid j k u hj
    obtain rfl : y = z := Part.ext (hk'.symm.trans hz)
    rw [h.hung.nested.fresh _ h.new_kid.1 h.new_kid.2] at hi
    cases hi
  have hkept : ∀ {z i}, st.entry (r ++ [z]) = some i → m'.cell i.value = st'.mem.cell i.value :=
    fun hi => h.cell (h.hung.entry_old hi) (by simp)
  refine ⟨nodup_concat hk.nodup hfresh, ?_, ?_⟩
  · intro j k u hj
    rcases getElem?_concat hj with hj | ⟨rfl, heq⟩
    · obtain ⟨z, i, hz, hi, hfirst, hlater⟩ := hk.kid j k u hj
      refine ⟨z, i, hz, h.hung.entry_old hi, ?_, ?_⟩
      · intro h0
        obtain ⟨hu, hpar, hidx, hbelow⟩ := hfirst h0
        exact ⟨(hkept hi).trans hu, hpar, hidx, hbelow.mono c⟩
      · intro hjpos
        exact h.hung.frozen_old (hlater hjpos) hi (by simp) (hkept hi) h.inserted.freed
    · cases heq
      obtain ⟨e1, he1, hfrozen⟩ := h.frozen_new
      exact ⟨y, e1, rfl, he1, fun h0 => by omega, fun _ => hfrozen⟩
  · intro z i hi
    by_cases hz : Hung.New r c (r ++ [z])
    · have hzy : r ++ [z] = r ++ [y] := eq_of_prefix_of_length hz.2 h.new_kid.2 (by simp)
      have hzy' : z = y := by simpa using hzy
      rw [hzy']
      exact ⟨ps.length, v, by simp⟩
    · rw [h.hung.nested.old _ hz] at hi
      obtain ⟨j, u, hj⟩ := hk.all z i hi
      exact ⟨j, u, getElem?_append_of_some hj⟩

/-- A copy of the object at `r` that is not written any more now lacks a pair. -/
theorem frozen_root (hf : Frozen st'.mem st.entry r e u) : Frozen m' st'.entry r e u := by
  obtain ⟨-, hpos, hlen⟩ := h.old_kids
  obtain ⟨x0, e0, he0⟩ := h.old_kid
  refine ⟨hf.parent_ne_row, fun _ _ => h.hung.parent_ne hf h.entry, ?_⟩
  rcases hf.copy with ⟨-, hnone⟩ | ⟨n1, b1, b2, hu, hc1, ⟨z', i2, hz'⟩, -, hb2⟩
  · rw [hnone] at he0
    cases he0
  · rw [h.current] at hc1
    cases hc1
    refine .inr ⟨n + 1, b', b2, hu, h.self, ⟨z', i2, h.hung.entry_old hz'⟩, by omega, ?_⟩
    rcases hb2 with rfl | hb2
    · exact h.inserted.old.imp_left Eq.symm
    · exact .inr (h.inserted.freed _ hb2)

/-- The pairs of the object above `r`, if that holds the copy which is written. -/
theorem kids_above (hi : st.entry q = some i) (hqr : q ≠ r) (hq : ¬Hung.New r c q)
    (hk : Kids st'.mem st.entry done q i.value ps') (hpar : i.value = e.parent) :
    Kids m' st'.entry (done ++ [c]) q i.value
      (ps'.modify 0 fun p => (p.1, .object (n + 1) b')) := by
  obtain ⟨z0, hz0, -⟩ := h.hung.eq_of_parent h.shaped h.ne_nil h.entry hi hpar
  apply h.hung.kids_old hk hqr hq (map_fst_modify) h.inserted.freed
  · intro z i1 hi1 hne
    exact h.cell (h.hung.entry_old hi1) hne
  · intro j k u u' z i1 hj hj' hkz hi1
    rw [getElem?_modify, hj] at hj'
    refine ⟨?_, ?_, ?_⟩
    · intro hne
      by_cases hj0 : 0 = j
      · -- the pair that is written is that of `r`
        subst hj0
        have hentry : st.entry (q ++ [z0]) = some e := hz0 ▸ h.entry
        obtain ⟨j0, u0, hj0⟩ := hk.all z0 e hentry
        rcases Nat.eq_zero_or_pos j0 with h0 | hpos
        · subst h0
          rw [hj] at hj0
          cases hj0
          obtain rfl : z0 = z := Part.ext hkz
          exact absurd hz0.symm hne
        · exact absurd hpar (((hk.place hj0 hentry).2 hpos).parent_ne q i hi)
      · simp only [if_neg hj0] at hj'
        cases hj'
        rfl
    · intro hz h0
      subst h0
      rw [hz, h.entry] at hi1
      cases hi1
      cases hj'
      exact h.self
    · intro hz _ hf
      rw [hz, h.entry] at hi1
      cases hi1
      exact absurd hpar (hf.parent_ne q i hi)

theorem kids_other (hqr : q ≠ r) (hq : ¬Hung.New r c q)
    (hk : Kids st'.mem st.entry done q i.value ps') (hpar : i.value ≠ e.parent) :
    Kids m' st'.entry (done ++ [c]) q i.value ps' := by
  apply h.hung.kids_old hk hqr hq rfl h.inserted.freed
  · intro z i1 hi1 hne
    exact h.cell (h.hung.entry_old hi1) hne
  · intro j k u u' z i1 hj hj' hkz hi1
    rw [hj] at hj'
    cases hj'
    refine ⟨fun _ => rfl, ?_, ?_⟩
    · intro hz h0
      have hfirst := (hk.place (hkz ▸ hj) hi1).1 h0
      rw [hz, h.entry] at hi1
      cases hi1
      exact absurd hfirst.2.1.symm hpar
    · intro hz _ hf
      rw [hz, h.entry] at hi1
      cases hi1
      rw [hz] at hf ⊢
      exact h.frozen_root hf

theorem row_place {x : Part} (hx : r = [x]) (hk : RowKids st.mem st.entry done ps') {j : Nat}
    {k : List UInt8} {x' : Part} (hj : ps'[j]? = some (k, u)) (hkx : k = x'.text) :
    [x'] = r ↔ e.idx = j := by
  obtain ⟨j0, u0, hj0⟩ := hk.all x e (hx ▸ h.entry)
  rw [hx, (hk.place hj0 (hx ▸ h.entry)).2.2]
  constructor
  · intro hxx
    have hxx' : x' = x := by simpa using hxx
    subst hxx'
    rw [hkx] at hj
    exact place_unique hk.nodup hj0 hj
  · rintro rfl
    rw [hj0] at hj
    cases hj
    rw [show x = x' from Part.ext hkx]

theorem row : ∃ n b ps, m'.cell jsonbRow = some (.object n b) ∧ m'.block b = some ps ∧
      RowKids m' st'.entry (done ++ [c]) ps := by
  obtain ⟨n0, b0, ps0, hc0, hb0, hk⟩ := h.shaped.row
  have hrow := h.ext.cell hc0
  have hrowne : jsonbRow ≠ e.value := (h.shaped.ne_row h.entry).symm
  have houtside : ∀ a' u, st.mem.cell a' = some u → Outside st.entry a' → m'.cell a' = some u ∧
      ∀ n b l, u = .object n b → st.mem.block b = some l → m'.block b = some l := by
    intro a' u hu hout
    obtain ⟨h1, h2⟩ := hout.2 r e h.entry
    refine ⟨(h.inserted.cell a' h1.symm).trans (h.ext.cell hu), ?_⟩
    rintro n' b'' l rfl hl
    exact h.inserted.block a' n' b'' l (h.ext.cell hu) h1.symm h2.symm (h.ext.block hl)
  have hkept : ∀ x i u, st.entry [x] = some i → [x] ≠ r → st.mem.cell i.value = some u →
      m'.cell i.value = some u := by
    intro x i u hi hne hu
    exact (h.cell (h.hung.entry_old hi) hne).trans (h.ext.cell hu)
  rcases h.hung.parent_cases h.shaped h.ne_nil h.entry with
    ⟨x, hx, hpar⟩ | ⟨q, z, e', hqz, he', hcases⟩
  · have hcopy := h.inserted.copy n0 b0 ps0 (hpar ▸ hrow) (h.ext.block hb0)
    refine ⟨n0, b0, _, (h.inserted.cell _ hrowne).trans hrow, hcopy, ?_⟩
    apply h.hung.row_old h.ne_nil hk (map_fst_modify) hkept _ houtside
    intro j k u u' x' hj hj' hkx
    rw [getElem?_modify, hj] at hj'
    have hiff := h.row_place hx hk hj hkx
    constructor
    · intro hne
      simp only [if_neg fun h => hne (hiff.mpr h)] at hj'
      cases hj'
      rfl
    · intro hxr i1 hi1
      rw [hxr, h.entry] at hi1
      cases hi1
      simp only [if_pos (hiff.mp hxr)] at hj'
      cases hj'
      exact h.self
  · have hpar : jsonbRow ≠ e.parent := by
      rcases hcases with ⟨heq, -⟩ | ⟨hne, -⟩
      · rw [heq]
        exact (h.shaped.ne_row he').symm
      · exact hne.symm
    refine ⟨n0, b0, ps0, (h.inserted.cell _ hrowne).trans hrow,
      h.inserted.block _ n0 b0 ps0 hrow hrowne hpar (h.ext.block hb0), ?_⟩
    apply h.hung.row_old h.ne_nil hk rfl hkept _ houtside
    intro j k u u' x' hj hj' _
    rw [hj] at hj'
    cases hj'
    refine ⟨fun _ => rfl, fun hxr => ?_⟩
    have hq : q ≠ [] := ((h.hung.linked.registered q).mp ⟨e', he'⟩).1
    rw [← hxr] at hqz
    have hlen := congrArg length hqz
    rw [length_append, length_singleton, length_singleton] at hlen
    exact absurd (length_eq_zero_iff.mp (by omega)) hq

/-- **The objects after a chain was put into one of them.** -/
theorem shaped_put : Shaped m' st'.entry (done ++ [c]) := by
  have hshape := h.shaped.extends h.ext
  refine ⟨h.hung.inj h.shaped, h.hung.ne_row h.shaped, ?_, ?_, h.row⟩
  · intro c' hc' hlen
    rcases mem_append.mp hc' with hc' | hc'
    · obtain ⟨i, w', hi, hw', hs⟩ := hshape.stored c' hc' hlen
      have hnot := (h.hung.apart c' hc').1
      have hne : c'.path ≠ r := fun heq => hnot (heq ▸ h.root_prefix)
      refine ⟨i, w', h.hung.entry_old hi, (h.cell (h.hung.entry_old hi) hne).trans hw', hs.mono ?_⟩
      rintro n' b'' l rfl hl
      refine h.inserted.block _ n' b'' l hw' ?_ ?_ hl
      · exact fun heq => hne (h.shaped.inj hi h.entry heq)
      · intro heq
        obtain ⟨z, hz, -⟩ := h.hung.eq_of_parent h.shaped h.ne_nil h.entry hi heq
        exact hnot ((hz ▸ prefix_append c'.path [z]).trans h.root_prefix)
    · rw [mem_singleton.mp hc']
      exact h.hung.stored_new h.untouched
  · intro q i x i' hi hi'
    by_cases hq : Hung.New r c q
    · exact h.hung.kids_new h.untouched hq hi hi'
    have hold := hi
    rw [h.hung.nested.old _ hq] at hold
    by_cases hqr : q = r
    · subst hqr
      rw [h.entry] at hold
      cases hold
      exact ⟨_, _, _, h.self, h.inserted.pairs, h.kids_root⟩
    · have hnot : ¬Hung.New r c (q ++ [x]) := fun hnew => hqr (h.hung.eq_root hnew hq)
      rw [h.hung.nested.old _ hnot] at hi'
      obtain ⟨n', b'', ps', hc, hb, hk⟩ := hshape.kids hold hi'
      by_cases hpar : i.value = e.parent
      · obtain ⟨z0, -, hidx⟩ := h.hung.eq_of_parent h.shaped h.ne_nil h.entry hold hpar
        have hcopy := h.inserted.copy n' b'' ps' (hpar ▸ hc) hb
        rw [hidx] at hcopy
        exact ⟨n', b'', _, (h.cell hi hqr).trans hc, hcopy, h.kids_above hold hqr hq hk hpar⟩
      · have hvne : i.value ≠ e.value := fun heq => hqr (h.shaped.inj hold h.entry heq)
        exact ⟨n', b'', ps', (h.cell hi hqr).trans hc,
          h.inserted.block _ n' b'' ps' hc hvne hpar hb, h.kids_other hqr hq hk hpar⟩

end Put

/-! ### A name of one part -/

/-- **The value of a column with a name of one part goes into the row.** -/
theorem Shaped.push {m m' : Mem V} {w : JsonbValue V} {x : Part} {n b : Nat}
    {ps : List (List UInt8 × JsonbValue V)} (hshape : Shaped st.mem st.entry done)
    (hlink : Linked st done) (hsep : ∀ c' ∈ done, Apart c'.path c.path) (hext : st.mem.Extends m)
    (htidy : Tidy m) (hw : m.cell st.mem.cells.length = some w) (hstores : Stores m w c.colval)
    (hpath : c.path = [x]) (hrow : st.mem.cell jsonbRow = some (.object n b))
    (hps : m.block b = some ps) (hpushed : Pushed m m' n b ps (x.text, w)) :
    Shaped m' st.entry (done ++ [c]) := by
  have hbase : jsonbRow < st.mem.cells.length := Memory.cell_lt hrow
  have hkeeps := hpushed.keeps htidy (hext.cell hrow)
  have hkept := (KeepsObjects.of_extends hext).trans hkeeps
  have hnone : st.entry [x] = none := by
    cases he : st.entry [x] with
    | none => rfl
    | some e =>
      obtain ⟨-, c', hc', -, hpre⟩ := (hlink.registered [x]).mp ⟨e, he⟩
      exact absurd (hpath ▸ hpre) (hsep c' hc').2
  have hout : Outside st.entry st.mem.cells.length := by
    refine ⟨by omega, fun q e he => ?_⟩
    obtain ⟨v, hv, -⟩ := hlink.value he
    obtain ⟨-, np, bp, hp, -⟩ := hlink.parent he
    have h1 := Memory.cell_lt hv
    have h2 := Memory.cell_lt hp
    exact ⟨by omega, by omega⟩
  obtain ⟨n', b', ps', hc, hb, hk⟩ := hshape.row
  rw [hrow] at hc
  cases hc
  rw [hext.block hb] at hps
  cases hps
  refine hshape.keeps hkept (fun h => h.mono c) ?_
    ⟨n + 1, b, ps ++ [(x.text, w)], hpushed.self, hpushed.pairs, ?_⟩
  · intro c' hc' hlen
    rcases mem_append.mp hc' with hc' | hc'
    · exact hc'
    · rw [mem_singleton.mp hc', hpath] at hlen
      simp at hlen
  · refine hk.concat hkept hshape.ne_row hnone ?_ id (fun _ _ h => h) (fun _ h => h) .inl ?_
      (.inr ⟨hnone, hpath, hstores.keeps hkeeps hout.1 hw, _, hkeeps.cell hout.1 hw, hout⟩)
    · intro c' hc' hpath'
      exact (hsep c' hc').1 (by rw [hpath, hpath'])
    · intro z hz
      rw [hpath] at hz
      cases hz
      rfl

/-! ### All columns -/

theorem insertColumn_shaped (moves : Mem V → Bool)
    (hlink : Linked st done) (hshape : Shaped st.mem st.entry done)
    (hsep : ∀ c' ∈ done, Apart c'.path c.path) (hc : c.WellNamed) :
    ∃ st', insertColumn moves ⟨storeValue st.mem c.colval, st.hash⟩ c.attname
        st.mem.cells.length = .ok st' ∧ Shaped st'.mem st'.entry (done ++ [c]) := by
  obtain ⟨n, b, hrow⟩ := hlink.row
  obtain ⟨m, w, rfl, hw, hstores, hcases⟩ := insertColumn_cases moves hc hlink.tidy hrow
  have hext := extends_storeValue st.mem c.colval
  rcases hcases with ⟨x, ps, m', hx, hps, hpushed, hrun⟩ |
      ⟨y, ys, st', a, v, d, ps, m', hlen, hn, ha, hd, hps, hpushed, hrun⟩ |
      ⟨r, zs, st', a, e, hlen, hr, hn, he, hrun⟩
  · exact ⟨_, hrun, hshape.push hlink hsep hext (hlink.tidy.storeValue _) hw hstores hx hrow hps
      hpushed⟩
  · have hung : Hung st st' (storeValue st.mem c.colval) done c w [] (y :: ys) a :=
      ⟨hlink, hsep, hlen, hext, hn, .inl rfl, hstores⟩
    exact ⟨_, hrun, hung.push hshape rfl hrow ha hd hps hpushed⟩
  · have hung : Hung st st' (storeValue st.mem c.colval) done c w r zs a :=
      ⟨hlink, hsep, hlen, hext, hn, .inr ⟨e, he⟩, hstores⟩
    obtain ⟨y, ys, rfl⟩ := exists_cons_of_ne_nil hung.rest_ne_nil
    have hchain := hn.chain
    obtain ⟨d, v, e1, ha, hd, -⟩ := hchain
    have hext' := hext.trans hn.ext
    -- what is found is an object: a column with this path would begin the new one
    obtain ⟨v0, hv0, hleaf⟩ := hlink.value he
    cases v0 with
    | leaf u =>
      obtain ⟨c', hc', -, hpath, -⟩ := hleaf.mp trivial
      exact absurd ⟨y :: ys, by rw [hpath, ← hn.path]⟩ (hsep c' hc').1
    | object n0 b0 =>
      obtain ⟨hne, np, bp, hpar, hidx⟩ := hlink.parent he
      obtain ⟨ps, hps, -⟩ := hn.tidy.alive (hext'.cell hv0)
      obtain ⟨pps, hpps, -⟩ := hn.tidy.alive (hext'.cell hpar)
      obtain ⟨m', b', hins, hinserted⟩ := insertExistingJson_spec moves hn.tidy c.attname
        (hext'.cell hv0) hps ha hd (hext'.cell hpar) hpps hidx hne
      refine ⟨⟨m', st'.hash⟩, by rw [hrun, hins, Except.map], ?_⟩
      have hput : Put st st' (storeValue st.mem c.colval) m' done c w v r y ys a d n0 b0 b' e ps :=
        ⟨hung, hshape, hr, he, ha, hd, hext'.cell hv0, hps, hinserted⟩
      exact hput.shaped_put

theorem Separate.noClash {cols : List (Column V)} (h : Separate cols) : NoClash cols :=
  h.imp fun hapart => ⟨fun hclash => hapart.1 hclash.2.1, fun hclash => hapart.2 hclash.2.1⟩

/-- **The objects after all columns**, when no path begins another. -/
theorem addColumns_shaped (moves : Mem V → Bool) (nulls : Bool)
    (cols done : List (Column V)) (st : RowState V) (hnamed : ∀ c ∈ cols, c.WellNamed)
    (haccepted : ∀ c ∈ cols, c.accepted nulls) (hlink : Linked st done)
    (hshape : Shaped st.mem st.entry done) (hsep : Separate (done ++ live nulls cols)) :
    ∃ st', addColumns moves nulls st cols = .ok st' ∧
      Linked st' (done ++ live nulls cols) ∧
      Shaped st'.mem st'.entry (done ++ live nulls cols) := by
  induction cols generalizing done st with
  | nil =>
    have hlive : done ++ live nulls [] = done := append_nil done
    rw [hlive]
    exact ⟨st, rfl, hlink, hshape⟩
  | cons c cs ih =>
    have hc := hnamed c mem_cons_self
    have hacc := haccepted c mem_cons_self
    have hcs : ∀ c' ∈ cs, c'.WellNamed := (forall_mem_cons.mp hnamed).2
    have hacs : ∀ c' ∈ cs, c'.accepted nulls = true :=
      (forall_mem_cons.mp haccepted).2
    have hname : ¬(c.attname = questionColumn ∨ c.attname = []) := by
      intro hname
      simp [Column.accepted, hname] at hacc
    rw [addColumns, addColumn, if_neg hname]
    by_cases hlive : (c.colval.isSome || nulls) = true
    · have hshown : ¬(c.type = .binary ∨ c.type = .money ∧ c.colval = none) := by
        intro hrefused
        simp [Column.accepted, hlive, hrefused] at hacc
      rw [not_or] at hshown
      rw [if_neg (by cases hv : c.colval <;> simp_all), if_neg hshown.1, if_neg hshown.2]
      rw [live_cons_of_live cs hlive] at hsep ⊢
      have hdone := pairwise_append.mp hsep
      have hapart : ∀ c' ∈ done, Apart c'.path c.path :=
        fun c' hc' => hdone.2.2 c' hc' c mem_cons_self
      obtain ⟨st', hrun, hshape'⟩ := insertColumn_shaped moves hlink hshape hapart hc
      have hlink' : Linked st' (done ++ [c]) := by
        rcases insertColumn_spec moves hlink (Separate.noClash hdone.1) hc with
          ⟨st'', hrun', hlink', -⟩ | ⟨hrun', -⟩
        · rw [hrun] at hrun'
          cases hrun'
          exact hlink'
        · rw [hrun] at hrun'
          cases hrun'
      rw [hrun]
      rw [← singleton_append, ← append_assoc] at hsep ⊢
      exact ih (done ++ [c]) st' hcs hacs hlink' hshape' hsep
    · rw [if_pos (by cases hv : c.colval <;> simp_all)]
      rw [live_cons_of_not cs hlive] at hsep ⊢
      exact ih done st hcs hacs hlink hshape hsep

end Babelfish.Tsql.ForJson
