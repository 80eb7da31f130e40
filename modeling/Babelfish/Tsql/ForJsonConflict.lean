import Babelfish.Tsql.ForJson

/-!
# When `FOR JSON PATH` reports a conflict

The paths in the table are the beginnings of the paths of the columns with several parts.  A column
is put at the longest of them that begins its own path; there is a conflict if the value found there
is no object, or if the value to be put there is none.

* `nest_spec`: the loop over the parts of a name makes a chain of objects, up to the longest path
  that is in the table.
* `insertExistingJson_spec`: what putting a chain into an object does to the memory.
* `insertColumn_spec`: one column.
* `addColumns_spec`: a row is refused for a conflict exactly if one of two columns begins the other
  and is not an object.
-/

namespace Babelfish.Tsql.ForJson

open Lib List Memory

variable {V : Type} {e : JsonbEntry}

def RowState.entry (st : RowState V) (q : List Part) : Option JsonbEntry := st.hash (buildKey q)

theorem entry_enter (h : HTab (List UInt8) JsonbEntry) (m : Mem V) (q q' : List Part) :
    (RowState.mk m (enter h (buildKey q) e)).entry q' =
      if q' = q then some e else h (buildKey q') := by
  split_ifs with hq
  · subst hq
    exact enter_self
  · exact enter_ne fun hk => hq (buildKey_injective hk)

/-! ### The memory -/

/-- Each object has pairs of its own, as many as it says. -/
structure Tidy (m : Mem V) : Prop where
  alive : ∀ {a n b}, m.cell a = some (.object n b) → ∃ ps, m.block b = some ps ∧ ps.length = n
  owner : ∀ {a a' n n' b}, m.cell a = some (.object n b) → m.cell a' = some (.object n' b) → a = a'

variable {a : Nat} {v w : JsonbValue V} {m : Mem V}

theorem cell_newCell (h : (m.newCell v).cell a = some w) :
    (a = m.cells.length ∧ w = v) ∨ m.cell a = some w := by
  by_cases ha : a = m.cells.length
  · subst ha
    rw [cell_newCell_self] at h
    exact .inl ⟨rfl, (Option.some.inj h).symm⟩
  · right
    have hlt := cell_lt h
    rw [newCell, length_append, length_singleton] at hlt
    rwa [cell, newCell, getElem?_append_left (by omega)] at h

theorem Tidy.newLeaf (h : Tidy m) (v : Option V) : Tidy (m.newCell (.leaf v)) where
  alive := by
    intro a n b hc
    rcases cell_newCell hc with ⟨-, hv⟩ | hc
    · cases hv
    · exact h.alive hc
  owner := by
    intro a a' n n' b hc hc'
    rcases cell_newCell hc with ⟨-, hv⟩ | hc
    · cases hv
    rcases cell_newCell hc' with ⟨-, hv⟩ | hc'
    · cases hv
    exact h.owner hc hc'

variable {n : Nat}

theorem Tidy.ne_next (h : Tidy m) (hc : m.cell a = some (.object n m.blocks.length)) : False := by
  obtain ⟨ps, hps, -⟩ := h.alive hc
  exact absurd (block_lt hps) (lt_irrefl _)

variable {ps : List (List UInt8 × JsonbValue V)}
variable {b : Nat} {m' : Mem V} {p q u ys zs : List Part} {st : RowState V}
  {nodes : List Part → Option JsonbEntry}
variable {base : Nat} {val : JsonbValue V}

theorem Tidy.length (h : Tidy m) (hc : m.cell a = some (.object n b)) (hb : m.block b = some ps) :
    ps.length = n := by
  obtain ⟨l, hl, hlen⟩ := h.alive hc
  rw [hb] at hl
  cases hl
  exact hlen

theorem Tidy.newObject (h : Tidy m) (hn : ps.length = n) :
    Tidy ((m.newBlock ps).newCell (.object n m.blocks.length)) where
  alive := by
    intro a n' b hc
    rcases cell_newCell hc with ⟨-, hv⟩ | hc
    · cases hv
      exact ⟨ps, block_newBlock_self, hn⟩
    · obtain ⟨ps', hps', hn'⟩ := h.alive hc
      exact ⟨ps', extends_newBlock.block hps', hn'⟩
  owner := by
    intro a a' n1 n2 b hc hc'
    rcases cell_newCell hc with ⟨ha, hv⟩ | hc
    · rcases cell_newCell hc' with ⟨ha', -⟩ | hc'
      · rw [ha, ha']
      · cases hv
        exact (h.ne_next hc').elim
    · rcases cell_newCell hc' with ⟨-, hv'⟩ | hc'
      · cases hv'
        exact (h.ne_next hc).elim
      · exact h.owner hc hc'

section

variable (m : Mem V) (part : Part) (v : JsonbValue V)

theorem extends_createJson : m.Extends (createJson m part v) :=
  extends_newBlock.trans extends_newCell

theorem createJson_cell :
    (createJson m part v).cell m.cells.length = some (.object 1 m.blocks.length) :=
  cell_newCell_self (m := m.newBlock _)

theorem createJson_block : (createJson m part v).block m.blocks.length = some [(part.text, v)] :=
  block_newBlock_self

end

theorem extends_storeValue (m : Mem V) (v : Option (JsonValue V)) : m.Extends (storeValue m v) := by
  match v with
  | none | some (.scalar _) => exact extends_newCell
  | some (.object _) => exact extends_newBlock.trans extends_newCell

theorem Tidy.storeValue (h : Tidy m) (v : Option (JsonValue V)) : Tidy (storeValue m v) := by
  match v with
  | none => exact h.newLeaf none
  | some (.scalar v) => exact h.newLeaf (some v)
  | some (.object pairs) => exact h.newObject (length_map _)

/-- The value of a column is no object. -/
def IsScalar : Option (JsonValue V) → Prop
  | some (.object _) => False
  | _ => True

/-- A value in memory is no object. -/
def JsonbValue.IsLeaf : JsonbValue V → Prop
  | .leaf _ => True
  | .object _ _ => False

/-- A value in memory is the value of a column. -/
def Stores (m : Mem V) (w : JsonbValue V) : Option (JsonValue V) → Prop
  | none => w = .leaf none
  | some (.scalar v) => w = .leaf (some v)
  | some (.object pairs) => ∃ b, w = .object pairs.length b ∧
      m.block b = some (pairs.map fun p => (p.1, .leaf (some p.2)))

theorem storeValue_stores (m : Mem V) (v : Option (JsonValue V)) :
    ∃ w, (storeValue m v).cell m.cells.length = some w ∧ Stores (storeValue m v) w v := by
  match v with
  | none | some (.scalar _) => exact ⟨_, cell_newCell_self, rfl⟩
  | some (.object pairs) =>
    exact ⟨_, cell_newCell_self (m := m.newBlock _), _, rfl, block_newBlock_self⟩

theorem Stores.isLeaf_iff {v : Option (JsonValue V)} (h : Stores m w v) :
    w.IsLeaf ↔ IsScalar v := by
  match v with
  | none | some (.scalar _) =>
    cases h
    exact Iff.rfl
  | some (.object _) =>
    obtain ⟨b, rfl, -⟩ := h
    exact Iff.rfl

/-- Values keep their kinds, and objects do not lose pairs. -/
structure Grows (m m' : Mem V) : Prop where
  leaf : ∀ {a v}, m.cell a = some (.leaf v) → m'.cell a = some (.leaf v)
  object : ∀ {a n b}, m.cell a = some (.object n b) →
    ∃ n' b', n ≤ n' ∧ m'.cell a = some (.object n' b')

theorem Grows.trans {m'' : Mem V} (h : Grows m m') (h' : Grows m' m'') : Grows m m'' where
  leaf := fun hc => h'.leaf (h.leaf hc)
  object := by
    intro a n b hc
    obtain ⟨n', b', hn, hc'⟩ := h.object hc
    obtain ⟨n'', b'', hn', hc''⟩ := h'.object hc'
    exact ⟨n'', b'', le_trans hn hn', hc''⟩

theorem Grows.of_extends (h : m.Extends m') : Grows m m' where
  leaf := h.cell
  object := fun hc => ⟨_, _, le_rfl, h.cell hc⟩

theorem Grows.cell (h : Grows m m') (hc : m.cell a = some v) :
    ∃ v', m'.cell a = some v' ∧ (v'.IsLeaf ↔ v.IsLeaf) := by
  cases v with
  | leaf w => exact ⟨_, h.leaf hc, Iff.rfl⟩
  | object n b =>
    obtain ⟨n', b', -, hc'⟩ := h.object hc
    exact ⟨_, hc', Iff.rfl⟩

theorem Grows.setObject {b' k : Nat} (hc : m.cell a = some (.object n b))
    (hself : m'.cell a = some (.object (n + k) b'))
    (hother : ∀ a', a' ≠ a → m'.cell a' = m.cell a') : Grows m m' where
  leaf := by
    intro a' v hv
    rw [hother a' (by rintro rfl; rw [hc] at hv; cases hv), hv]
  object := by
    intro a' n' d hd
    by_cases ha : a' = a
    · subst ha
      rw [hc] at hd
      cases hd
      exact ⟨_, _, Nat.le_add_right _ _, hself⟩
    · exact ⟨n', d, le_rfl, (hother a' ha).trans hd⟩

theorem Tidy.setObject (h : Tidy m) {b' : Nat} (hc : m.cell a = some (.object n b))
    (hself : m'.cell a = some (.object ps.length b')) (hps : m'.block b' = some ps)
    (hother : ∀ a', a' ≠ a → m'.cell a' = m.cell a')
    (hblock : ∀ c l, m.block c = some l → c ≠ b → c ≠ b' ∧ ∃ l', m'.block c = some l' ∧
      l'.length = l.length) : Tidy m' := by
  have hkeep : ∀ {a' n' c}, a' ≠ a → m'.cell a' = some (.object n' c) →
      c ≠ b' ∧ ∃ l, m'.block c = some l ∧ l.length = n' := by
    intro a' n' c hne hc'
    rw [hother a' hne] at hc'
    obtain ⟨l, hl, hlen⟩ := h.alive hc'
    obtain ⟨hcb', l', hl', hlen'⟩ := hblock c l hl fun hcb => hne (h.owner hc' (hcb ▸ hc))
    exact ⟨hcb', l', hl', hlen'.trans hlen⟩
  constructor
  · intro a' n' c hc'
    by_cases ha : a' = a
    · subst ha
      rw [hself] at hc'
      cases hc'
      exact ⟨ps, hps, rfl⟩
    · exact (hkeep ha hc').2
  · intro a1 a2 n1 n2 c h1 h2
    by_cases ha1 : a1 = a <;> by_cases ha2 : a2 = a
    · rw [ha1, ha2]
    · rw [ha1, hself] at h1
      cases h1
      exact absurd rfl (hkeep ha2 h2).1
    · rw [ha2, hself] at h2
      cases h2
      exact absurd rfl (hkeep ha1 h1).1
    · rw [hother _ ha1] at h1
      rw [hother _ ha2] at h2
      exact h.owner h1 h2

/-! ### Putting pairs into an object -/

/-- What has changed after `nested` was put into the object `current`, whose copy is in `parent`. -/
structure Inserted (m m' : Mem V) (current parent idx n b : Nat)
    (ps ps' : List (List UInt8 × JsonbValue V)) (b' : Nat) : Prop where
  self : m'.cell current = some (.object (n + ps'.length) b')
  pairs : m'.block b' = some (ps ++ ps')
  cell : ∀ a, a ≠ current → m'.cell a = m.cell a
  copy : ∀ np bp pps, m.cell parent = some (.object np bp) → m.block bp = some pps →
    m'.block bp = some (pps.modify idx fun p => (p.1, .object (n + ps'.length) b'))
  block : ∀ a na c l, m.cell a = some (.object na c) → a ≠ current → a ≠ parent →
    m.block c = some l → m'.block c = some l
  old : b' = b ∨ m'.Freed b
  freed : ∀ c, m.Freed c → m'.Freed c
  tidy : Tidy m'
  grows : Grows m m'

variable (moves : Mem V → Bool) {entry : List Part → Option JsonbEntry}

theorem insertExistingJson_spec (h : Tidy m)
    {current parent nested idx n' c np bp : Nat} (key : List UInt8)
    {ps' pps : List (List UInt8 × JsonbValue V)} (hcur : m.cell current = some (.object n b))
    (hps : m.block b = some ps) (hnested : m.cell nested = some (.object n' c))
    (hps' : m.block c = some ps') (hparent : m.cell parent = some (.object np bp))
    (hpps : m.block bp = some pps) (hidx : idx < np) (hne : parent ≠ current) :
    ∃ m' b', insertExistingJson moves m current parent nested idx key = .ok m' ∧
      Inserted m m' current parent idx n b ps ps' b' := by
  have hbp : bp ≠ b := by
    rintro rfl
    exact hne (h.owner hparent hcur)
  -- the pairs in their new place, and the object that points to them
  obtain ⟨b', m1, hre⟩ : ∃ b' m1, m.realloc (moves m) b (ps ++ ps') = (b', m1) := ⟨_, _, rfl⟩
  have hmoved := realloc_moved (moves m) hps (ps ++ ps')
  rw [hre] at hmoved
  obtain ⟨hbp1, hb'bp⟩ := hmoved.other hpps hbp
  let w : JsonbValue V := .object (n + ps'.length) b'
  let m2 := m1.setCell current w
  let m3 := m2.setBlock bp (pps.modify idx fun p => (p.1, w))
  have hpar2 : m2.cell parent = some (.object np bp) := by
    exact (cell_setCell_ne hne w).trans ((hmoved.cell parent).trans hparent)
  have hself3 : m3.cell current = some w :=
    cell_setCell_self ((hmoved.cell current).trans hcur) w
  have hcell3 : ∀ a, a ≠ current → m3.cell a = m.cell a := fun a ha =>
    (cell_setCell_ne ha w).trans (hmoved.cell a)
  have hblock3 : m3.block b' = some (ps ++ ps') := by
    rw [block_setBlock_ne hb'bp]
    exact hmoved.block
  have hcopy3 : m3.block bp = some (pps.modify idx fun p => (p.1, w)) :=
    block_setBlock_self (m := m2) hbp1 _
  have hkeep3 : ∀ d l, m.block d = some l → d ≠ b → d ≠ bp → m3.block d = some l := by
    intro d l hd hdb hdbp
    rw [block_setBlock_ne hdbp]
    exact (hmoved.other hd hdb).1
  have hsize : (ps ++ ps').length = n + ps'.length := by
    rw [length_append, h.length hcur hps]
  refine ⟨m3, b', ?_, ?_⟩
  · rw [insertExistingJson, hcur, hnested]
    simp only
    rw [hps, hps']
    simp only
    rw [← h.length hcur hps, ← h.length hnested hps', take_length, take_length, hre,
      h.length hcur hps]
    rw [setPairValue, show (m1.setCell current w).cell parent = _ from hpar2]
    simp only
    rw [show (m1.setCell current w).block bp = some pps from hbp1]
    simp only
    rw [if_pos (by rw [h.length hparent hpps]; exact hidx)]
  · refine ⟨hself3, hblock3, hcell3, ?_, ?_, ?_, ?_, ?_, ?_⟩
    · intro np' bp' pps' hp hq
      rw [hparent] at hp
      cases hp
      rw [hpps] at hq
      cases hq
      exact hcopy3
    · intro a na d l ha hane hanp hd
      refine hkeep3 d l hd ?_ ?_
      · rintro rfl
        exact hane (h.owner ha hcur)
      · rintro rfl
        exact hanp (h.owner ha hparent)
    · rcases hmoved.old with hold | hold
      · exact .inl hold
      · exact .inr (Memory.Freed.setBlock (m := m2) hold hbp1)
    · intro d hd
      exact Memory.Freed.setBlock (m := m2) (hmoved.freed hd) hbp1
    · refine h.setObject hcur ?_ hblock3 hcell3 ?_
      · rwa [hsize]
      · intro d l hd hdb
        refine ⟨(hmoved.other hd hdb).2.symm, ?_⟩
        by_cases hdbp : d = bp
        · subst hdbp
          rw [hpps] at hd
          cases hd
          exact ⟨_, hcopy3, length_modify _ _ _⟩
        · exact ⟨l, hkeep3 d l hd hdb hdbp, rfl⟩
    · exact .setObject hcur hself3 hcell3

/-! ### Putting a pair into the row -/

/-- What has changed after a pair was put into the row. -/
structure Pushed (m m' : Mem V) (n b : Nat) (ps : List (List UInt8 × JsonbValue V))
    (pair : List UInt8 × JsonbValue V) : Prop where
  self : m'.cell jsonbRow = some (.object (n + 1) b)
  pairs : m'.block b = some (ps ++ [pair])
  cell : ∀ a, a ≠ jsonbRow → m'.cell a = m.cell a
  block : ∀ c l, m.block c = some l → c ≠ b → m'.block c = some l
  freed : ∀ c, m.Freed c → m'.Freed c
  tidy : Tidy m'
  grows : Grows m m'

theorem pushRow_spec (h : Tidy m) (hrow : m.cell jsonbRow = some (.object n b))
    (hps : m.block b = some ps) (pair : List UInt8 × JsonbValue V) :
    ∃ m', pushRow m pair = .ok m' ∧ Pushed m m' n b ps pair := by
  have hlen := h.length hrow hps
  let m1 := m.setBlock b (ps ++ [pair])
  let m2 := m1.setCell jsonbRow (.object (n + 1) b)
  have hself : m2.cell jsonbRow = some (.object (n + 1) b) :=
    cell_setCell_self (m := m1) hrow _
  have hcell : ∀ a, a ≠ jsonbRow → m2.cell a = m.cell a := fun a ha =>
    cell_setCell_ne ha _
  have hpairs : m2.block b = some (ps ++ [pair]) := block_setBlock_self hps _
  have hblock : ∀ c l, m.block c = some l → c ≠ b → m2.block c = some l := by
    intro c l hc hcb
    exact (block_setBlock_ne hcb).trans hc
  refine ⟨m2, ?_, hself, hpairs, hcell, hblock, ?_, ?_, ?_⟩
  · rw [pushRow, hrow]
    simp only
    rw [hps]
    simp only
    rw [← hlen, take_length, hlen]
  · intro c hc
    exact hc.setBlock hps
  · refine h.setObject hrow ?_ hpairs hcell ?_
    · rwa [length_append, hlen]
    · intro c l hc hcb
      exact ⟨hcb, l, hblock c l hc hcb, rfl⟩
  · exact .setObject hrow hself hcell

/-! ### The chain of objects of a name -/

/-- The value `a` at the path `q` is a chain of objects with one pair each, along the parts that
follow, to the value of the column, which has the address `base`.  The table has each of them, with
the object around it as its parent; the first is to become the pair `k` of the row. -/
def Chain (entry : List Part → Option JsonbEntry) (m : Mem V) (base k : Nat)
    (val : JsonbValue V) : List Part → List Part → Nat → Prop
  | _, [], a => a = base ∧ m.cell a = some val
  | q, y :: ys, a => ∃ b v e, m.cell a = some (.object 1 b) ∧ m.block b = some [(y.text, v)] ∧
      entry (q ++ [y]) = some e ∧ m.cell e.value = some v ∧ e.value < a ∧
      (if q = [] then e.parent = jsonbRow ∧ e.idx = k else e.parent = a ∧ e.idx = 0) ∧
      Chain entry m base k val (q ++ [y]) ys e.value

section

variable {entry : List Part → Option JsonbEntry} {k : Nat}

section

variable (h : Chain entry m base k val q ys a)
include h

theorem Chain.base_le : base ≤ a := by
  induction ys generalizing q a with
  | nil => exact le_of_eq h.1.symm
  | cons y ys ih =>
    obtain ⟨b, v, e, -, -, -, -, hlt, -, hrest⟩ := h
    exact le_trans (ih hrest) (le_of_lt hlt)

theorem Chain.cell : ∃ v, m.cell a = some v := by
  cases ys with
  | nil => exact ⟨val, h.2⟩
  | cons y ys =>
    obtain ⟨b, v, e, hc, -⟩ := h
    exact ⟨_, hc⟩

theorem Chain.mono {entry' : List Part → Option JsonbEntry}
    (hm : m.Extends m') (he : ∀ zs, zs ≠ [] → zs <+: ys → entry' (q ++ zs) = entry (q ++ zs)) :
    Chain entry' m' base k val q ys a := by
  induction ys generalizing q a with
  | nil => exact ⟨h.1, hm.cell h.2⟩
  | cons y ys ih =>
    obtain ⟨b, v, e, hc, hb, hentry, hv, hlt, hpar, hrest⟩ := h
    refine ⟨b, v, e, hm.cell hc, hm.block hb, ?_, hm.cell hv, hlt, hpar, ih hrest ?_⟩
    · rw [he [y] (cons_ne_nil _ _) (prefix_append [y] ys)]
      exact hentry
    · intro zs hzs hpre
      rw [append_assoc]
      exact he (y :: zs) (cons_ne_nil _ _) ((prefix_cons_inj y).mpr hpre)

end

end

/-- Where the loop over the parts of the path `p` has got to: the chain hangs below `u`, all that
was there before is still there, and the table has grown by the paths of the chain only. -/
structure Nested (m : Mem V) (nodes : List Part → Option JsonbEntry) (p : List Part) (base : Nat)
    (val : JsonbValue V) (u ys : List Part) (st : RowState V) (a : Nat) : Prop where
  path : p = u ++ ys
  ext : m.Extends st.mem
  tidy : Tidy st.mem
  chain : Chain st.entry st.mem base (rowPairs m) val u ys a
  old : ∀ q, ¬(u.length < q.length ∧ q <+: p) → st.entry q = nodes q
  fresh : ∀ q, u.length < q.length → q <+: p → nodes q = none

theorem rowPairs_eq (h : m.cell jsonbRow = some (.object n b)) : rowPairs m = n := by
  rw [rowPairs, h]

theorem eq_of_prefix_of_length (hq : q <+: p) (hu : u <+: p) (h : q.length = u.length) : q = u :=
  (prefix_of_prefix_length_le hq hu (le_of_eq h)).eq_of_length h

theorem Nested.step {x : Part} (h : Nested m nodes p base val (u ++ [x]) ys st a)
    (hrow : m.cell jsonbRow = some (.object n b)) (hnone : nodes (u ++ [x]) = none)
    (hv : st.mem.cell a = some v) (hvalue : e.value = a)
    (hparent : if u = [] then e.parent = jsonbRow ∧ e.idx = rowPairs st.mem
      else e.parent = st.mem.cells.length ∧ e.idx = 0) :
    Nested m nodes p base val u (x :: ys)
      ⟨createJson st.mem x v, enter st.hash (buildKey (u ++ [x])) e⟩ st.mem.cells.length := by
  have hext := extends_createJson st.mem x v
  have hlen : (u ++ [x]).length = u.length + 1 := length_append
  have hpath : p = u ++ x :: ys := by rw [h.path, append_assoc, singleton_append]
  have hux : u ++ [x] <+: p := ⟨ys, h.path.symm⟩
  have hpairs : rowPairs st.mem = rowPairs m := by
    rw [rowPairs_eq hrow, rowPairs_eq (h.ext.cell hrow)]
  refine ⟨hpath, h.ext.trans hext, h.tidy.newObject rfl, ?_, ?_, ?_⟩
  · refine ⟨_, v, e, createJson_cell st.mem x v, createJson_block st.mem x v, ?_, ?_, ?_, ?_, ?_⟩
    · exact (entry_enter _ _ _ _).trans (if_pos rfl)
    · rw [hvalue]
      exact hext.cell hv
    · rw [hvalue]
      exact cell_lt hv
    · rwa [← hpairs]
    · rw [hvalue]
      apply h.chain.mono hext
      intro zs hzs _
      refine (entry_enter _ _ _ _).trans (if_neg ?_)
      intro heq
      exact hzs (append_right_eq_self.mp heq)
  · intro q hq
    have hne : q ≠ u ++ [x] := by
      rintro rfl
      exact hq ⟨by omega, hux⟩
    refine (entry_enter _ _ _ _).trans ((if_neg hne).trans (h.old q ?_))
    rintro ⟨hlt, hpre⟩
    exact hq ⟨by omega, hpre⟩
  · intro q hlt hpre
    by_cases hq : q.length = (u ++ [x]).length
    · rwa [eq_of_prefix_of_length hpre hux hq]
    · exact h.fresh q (by omega) hpre

/-- **The loop over the parts of a name** makes the chain below the longest beginning of the path
that is in the table, and puts it there, or leaves the whole chain for the row. -/
theorem nest_spec (colname : List UInt8) (hrow : m.cell jsonbRow = some (.object n b))
    {up : List Part} (h : Nested m nodes p base val up.reverse ys st a) :
    ∃ r zs st' a', Nested m nodes p base val r zs st' a' ∧
      ((r = [] ∧ nest moves colname st up a = .ok (st', some a')) ∨
        ∃ e, r ≠ [] ∧ nodes r = some e ∧ nest moves colname st up a =
          (insertExistingJson moves st'.mem e.value e.parent a' e.idx colname).map
            fun m => (⟨m, st'.hash⟩, none)) := by
  induction up generalizing ys st a with
  | nil => exact ⟨[], ys, st, a, h, Or.inl ⟨rfl, rfl⟩⟩
  | cons x up ih =>
    have hkey : st.hash (buildKey (x :: up).reverse) = nodes (x :: up).reverse :=
      h.old _ fun hlt => lt_irrefl _ hlt.1
    cases hnode : nodes (x :: up).reverse with
    | some e =>
      refine ⟨_, ys, st, a, h, .inr ⟨e, ?_, hnode, ?_⟩⟩
      · simp
      · rw [nest, hkey, hnode]
        dsimp only
        cases insertExistingJson moves st.mem e.value e.parent a e.idx colname <;> rfl
    | none =>
      obtain ⟨v, hv⟩ := h.chain.cell
      rw [reverse_cons] at h hnode hkey
      let e : JsonbEntry :=
        if up = [] then ⟨a, jsonbRow, rowPairs st.mem⟩ else ⟨a, st.mem.cells.length, 0⟩
      have hstep := h.step hrow hnode hv (e := e) (by simp only [e]; split <;> rfl) (by
        by_cases hup : up = []
        · rw [if_pos (by rw [hup]; rfl)]
          simp only [e, if_pos hup, and_self]
        · rw [if_neg (by rwa [reverse_eq_nil_iff])]
          simp only [e, if_neg hup, and_self])
      obtain ⟨r, zs, st', a', hn, hcases⟩ := ih hstep
      refine ⟨r, zs, st', a', hn, ?_⟩
      rw [nest, reverse_cons, hkey, hnode]
      simp only [hv]
      exact hcases

theorem Chain.isLeaf_iff {k : Nat} (h : Chain entry m base k val q ys a) (hv : m.cell a = some v) :
    v.IsLeaf ↔ ys = [] ∧ val.IsLeaf := by
  cases ys with
  | nil =>
    rw [Option.some.inj (hv.symm.trans h.2), eq_self_iff_true, true_and]
  | cons y ys =>
    obtain ⟨b, v', e, hc, -⟩ := h
    rw [hv] at hc
    cases hc
    exact ⟨False.elim, fun h => by simp at h⟩

theorem Chain.drop {k : Nat} {xs : List Part}
    (h : Chain entry m base k val q (zs ++ xs) a) (hne : zs ≠ []) :
    ∃ e v, entry (q ++ zs) = some e ∧ m.cell e.value = some v ∧ e.value < a ∧
      ((e.parent = jsonbRow ∧ e.idx = k ∧ q = []) ∨
        (e.value < e.parent ∧ e.idx = 0 ∧ ∃ b, m.cell e.parent = some (.object 1 b))) ∧
      Chain entry m base k val (q ++ zs) xs e.value := by
  induction zs generalizing q a with
  | nil => exact absurd rfl hne
  | cons z zs ih =>
    obtain ⟨b, v, e, hc, -, hentry, hv, hlt, hpar, hrest⟩ := h
    by_cases hzs : zs = []
    · subst hzs
      refine ⟨e, v, hentry, hv, hlt, ?_, hrest⟩
      split at hpar
      · rename_i hq
        exact .inl ⟨hpar.1, hpar.2, hq⟩
      · exact .inr ⟨by rw [hpar.1]; exact hlt, hpar.2, b, by rw [hpar.1]; exact hc⟩
    · obtain ⟨e', v', hentry', hv', hlt', hpar', hchain⟩ := ih hrest hzs
      rw [append_assoc, singleton_append] at hentry' hchain
      refine ⟨e', v', hentry', hv', lt_trans hlt' hlt, .inr (hpar'.resolve_left ?_), hchain⟩
      rintro ⟨-, -, hq⟩
      simp at hq

theorem Nested.split (h : Nested m nodes p base val u ys st a)
    (hq : u.length < q.length ∧ q <+: p) : ∃ zs xs, zs ≠ [] ∧ q = u ++ zs ∧ ys = zs ++ xs := by
  obtain ⟨hlt, hpre⟩ := hq
  obtain ⟨zs, rfl⟩ := prefix_of_prefix_length_le ⟨ys, h.path.symm⟩ hpre (le_of_lt hlt)
  rw [h.path, prefix_append_right_inj] at hpre
  obtain ⟨xs, hxs⟩ := hpre
  refine ⟨zs, xs, ?_, rfl, hxs.symm⟩
  rintro rfl
  simp at hlt

/-! ### One column -/

variable {c : Column V} {cols : List (Column V)} {c' : Column V}

/-- **What a column does**: its pair goes into the row, or its chain does, or its chain goes into
the object found in the table. -/
theorem insertColumn_cases (hc : c.WellNamed) (htidy : Tidy st.mem)
    (hrow : st.mem.cell jsonbRow = some (.object n b)) :
    ∃ m w, m = storeValue st.mem c.colval ∧ m.cell st.mem.cells.length = some w ∧
      Stores m w c.colval ∧
      ((∃ x ps m', c.path = [x] ∧ m.block b = some ps ∧ Pushed m m' n b ps (x.text, w) ∧
          insertColumn moves ⟨m, st.hash⟩ c.attname st.mem.cells.length = .ok ⟨m', st.hash⟩) ∨
        (∃ y ys st' a v d ps m', 2 ≤ c.path.length ∧
          Nested m st.entry c.path st.mem.cells.length w [] (y :: ys) st' a ∧
          st'.mem.cell a = some (.object 1 d) ∧ st'.mem.block d = some [(y.text, v)] ∧
          st'.mem.block b = some ps ∧ Pushed st'.mem m' n b ps (y.text, v) ∧
          insertColumn moves ⟨m, st.hash⟩ c.attname st.mem.cells.length = .ok ⟨m', st'.hash⟩) ∨
        ∃ r zs st' a e, 2 ≤ c.path.length ∧ r ≠ [] ∧
          Nested m st.entry c.path st.mem.cells.length w r zs st' a ∧ st.entry r = some e ∧
          insertColumn moves ⟨m, st.hash⟩ c.attname st.mem.cells.length =
            (insertExistingJson moves st'.mem e.value e.parent a e.idx c.attname).map
              fun m => ⟨m, st'.hash⟩) := by
  obtain ⟨w, hw, hstores⟩ := storeValue_stores st.mem c.colval
  have hext := extends_storeValue st.mem c.colval
  have htidy' := htidy.storeValue c.colval
  have hrow' := hext.cell hrow
  refine ⟨storeValue st.mem c.colval, w, rfl, hw, hstores, ?_⟩
  by_cases hnum : determineNum c.attname > 1
  · have hlen : 2 ≤ c.path.length := by rwa [hc.num] at hnum
    have hstart : Nested (storeValue st.mem c.colval) st.entry c.path st.mem.cells.length w
        c.path.reverse.reverse [] ⟨storeValue st.mem c.colval, st.hash⟩ st.mem.cells.length := by
      rw [reverse_reverse]
      refine ⟨(append_nil _).symm, Memory.Extends.refl _, htidy', ⟨rfl, hw⟩, ?_, ?_⟩
      · exact fun _ _ => rfl
      · intro q hlt hpre
        exact absurd hpre.length_le (not_le.mpr hlt)
    have hall : ¬ (determineParts c.attname).length < determineNum c.attname := by
      rw [hc.num]
      exact lt_irrefl _
    obtain ⟨r, zs, st', a, hn, hcases⟩ := nest_spec moves c.attname hrow' hstart
    rcases hcases with ⟨rfl, hnest⟩ | ⟨e, hr, he, hnest⟩
    · right
      left
      cases zs with
      | nil =>
        have hpath := hn.path
        rw [hpath] at hlen
        exact absurd hlen (by simp)
      | cons y ys =>
        obtain ⟨d, v, e, hca, hd, -⟩ := hn.chain
        have hrowst := hn.ext.cell hrow'
        obtain ⟨ps, hps, -⟩ := hn.tidy.alive hrowst
        obtain ⟨m', hpush, hpushed⟩ := pushRow_spec hn.tidy hrowst hps (y.text, v)
        refine ⟨y, ys, st', a, v, d, ps, m', hlen, hn, hca, hd, hps, hpushed, ?_⟩
        rw [insertColumn, if_pos hnum, if_neg hall, show determineParts c.attname = c.path from rfl,
          hnest]
        simp only [firstPair, hca, hd, Option.bind_some, head?_cons, pushPair, hpush]
        rfl
    · right
      right
      refine ⟨r, zs, st', a, e, hlen, hr, hn, he, ?_⟩
      rw [insertColumn, if_pos hnum, if_neg hall, show determineParts c.attname = c.path from rfl,
        hnest]
      cases insertExistingJson moves st'.mem e.value e.parent a e.idx c.attname <;> rfl
  · left
    have hlen : c.path.length = 1 := by
      have hpos := length_pos_of_ne_nil hc.1
      rw [hc.num] at hnum
      omega
    obtain ⟨x, hx⟩ := length_eq_one_iff.mp hlen
    obtain ⟨ps, hps, -⟩ := htidy'.alive hrow'
    obtain ⟨m', hpush, hpushed⟩ := pushRow_spec htidy' hrow' hps (x.text, w)
    refine ⟨x, ps, m', hx, hps, hpushed, ?_⟩
    rw [insertColumn, if_neg hnum, show determineParts c.attname = [x] from hx]
    simp only [head?_cons, Option.bind_some, hw, Option.map_some, pushPair, hpush]
    rfl

/-! ### Conflicts -/

/-- The first column has several parts and no object, and begins the second. -/
def Clash (c c' : Column V) : Prop :=
  2 ≤ c.path.length ∧ c.path <+: c'.path ∧ IsScalar c.colval

/-- No column clashes with another. -/
def NoClash (cols : List (Column V)) : Prop :=
  cols.Pairwise fun c c' => ¬Clash c c' ∧ ¬Clash c' c

/-- What holds after the columns `done`, whether or not their paths are apart. -/
structure Linked (st : RowState V) (done : List (Column V)) : Prop where
  tidy : Tidy st.mem
  row : ∃ n b, st.mem.cell jsonbRow = some (.object n b)
  registered : ∀ q, (∃ e, st.entry q = some e) ↔
    q ≠ [] ∧ ∃ c ∈ done, 2 ≤ c.path.length ∧ q <+: c.path
  value : ∀ {q e}, st.entry q = some e → ∃ v, st.mem.cell e.value = some v ∧
    (v.IsLeaf ↔ ∃ c ∈ done, 2 ≤ c.path.length ∧ c.path = q ∧ IsScalar c.colval)
  parent : ∀ {q e}, st.entry q = some e → e.parent ≠ e.value ∧
    ∃ n b, st.mem.cell e.parent = some (.object n b) ∧ e.idx < n

theorem linked_startRow : Linked (startRow : RowState V) [] where
  tidy := by
    constructor
    · intro a n b h
      have ha : a < 1 := cell_lt h
      obtain rfl : a = 0 := by omega
      cases h
      exact ⟨[], rfl, rfl⟩
    · intro a a' n n' b h h'
      have ha : a < 1 := cell_lt h
      have ha' : a' < 1 := cell_lt h'
      omega
  row := ⟨0, 0, rfl⟩
  registered := by
    intro q
    constructor
    · rintro ⟨e, he⟩
      cases he
    · rintro ⟨-, c, hc, -⟩
      cases hc
  value he := nomatch he
  parent he := nomatch he

theorem NoClash.not_clash (h : NoClash cols)
    (hc : c ∈ cols) (hc' : c' ∈ cols) (hlt : c.path.length < c'.path.length) : ¬Clash c c' :=
  List.Pairwise.forall_of_forall_of_flip
    (R := fun c c' : Column V => c.path.length < c'.path.length → ¬Clash c c')
    (fun _ _ hlt => absurd hlt (lt_irrefl _)) (h.imp fun hr _ => hr.1)
    (h.imp fun hr _ => hr.2) hc hc' hlt

variable {done : List (Column V)} {r : List Part} {st' : RowState V}

theorem exists_mem_concat {P : Column V → Prop} :
    (∃ c' ∈ done ++ [c], P c') ↔ (∃ c' ∈ done, P c') ∨ P c := by
  simp only [mem_append, mem_singleton, or_and_right, exists_or, exists_eq_left]

theorem Linked.parent_grows (hlink : Linked st done) (hgrows : Grows st.mem m)
    (he : st.entry q = some e) :
    e.parent ≠ e.value ∧ ∃ n b, m.cell e.parent = some (.object n b) ∧ e.idx < n := by
  obtain ⟨hne, n, b, hc, hidx⟩ := hlink.parent he
  obtain ⟨n', b', hle, hc'⟩ := hgrows.object hc
  exact ⟨hne, n', b', hc', lt_of_lt_of_le hidx hle⟩

theorem Nested.registered (hlink : Linked st done) (hlen : 2 ≤ c.path.length)
    (hr : r = [] ∨ ∃ e, st.entry r = some e) (hn : Nested m st.entry c.path base w r zs st' a)
    (q : List Part) :
    (∃ e, st'.entry q = some e) ↔
      q ≠ [] ∧ ∃ c' ∈ done ++ [c], 2 ≤ c'.path.length ∧ q <+: c'.path := by
  by_cases hq : r.length < q.length ∧ q <+: c.path
  · constructor
    · rintro -
      exact ⟨ne_nil_of_length_pos (Nat.zero_lt_of_lt hq.1),
        exists_mem_concat.mpr (.inr ⟨hlen, hq.2⟩)⟩
    · rintro -
      obtain ⟨ys, xs, hys, rfl, rfl⟩ := hn.split hq
      obtain ⟨e, v, he, -⟩ := hn.chain.drop hys
      exact ⟨e, he⟩
  · rw [hn.old q hq, hlink.registered, exists_mem_concat]
    refine and_congr_right fun hne => ⟨.inl, fun h => h.elim id fun h => ?_⟩
    -- a beginning of the new path that is not in the chain begins `r`
    have hle : q.length ≤ r.length := not_lt.mp fun hlt => hq ⟨hlt, h.2⟩
    have hqr : q <+: r := prefix_of_prefix_length_le h.2 ⟨zs, hn.path.symm⟩ hle
    rcases hr with rfl | hr
    · exact absurd (prefix_nil.mp hqr) hne
    · obtain ⟨-, c'', hc'', hlen'', hpre''⟩ := (hlink.registered r).mp hr
      exact ⟨c'', hc'', hlen'', hqr.trans hpre''⟩

/-- A path of the chain begins no column before. -/
theorem Nested.not_prefix (hn : Nested m st.entry p base w r zs st' a) (hlink : Linked st done)
    (hq : r.length < q.length) (hpre : q <+: p) (hc' : c' ∈ done) (hlen : 2 ≤ c'.path.length) :
    ¬q <+: c'.path := by
  intro hpre'
  obtain ⟨e, he⟩ := (hlink.registered q).mpr
    ⟨ne_nil_of_length_pos (Nat.zero_lt_of_lt hq), c', hc', hlen, hpre'⟩
  rw [hn.fresh q hq hpre] at he
  cases he

/-- What the invariant asks of the entries, after a chain was made below `r` and the memory has only
grown since. -/
theorem Linked.nested (hlink : Linked st done) (hext : st.mem.Extends m) (hbase : jsonbRow < base)
    (hlen : 2 ≤ c.path.length) (hr : r = [] ∨ ∃ e, st.entry r = some e)
    (hn : Nested m st.entry c.path base w r zs st' a) (hw : Stores m w c.colval)
    (hgrows : Grows st'.mem m') (htidy : Tidy m')
    (hrow : ∃ n b, m'.cell jsonbRow = some (.object n b) ∧ (r = [] → rowPairs m < n))
    (hself : r = c.path → ¬IsScalar c.colval) : Linked ⟨m', st'.hash⟩ (done ++ [c]) := by
  obtain ⟨n, b, hrow, hpairs⟩ := hrow
  have hgrows' : Grows st.mem m' := (Grows.of_extends (hext.trans hn.ext)).trans hgrows
  have hchain : ∀ {q e}, r.length < q.length → q <+: c.path → st'.entry q = some e →
      ∃ v, st'.mem.cell e.value = some v ∧ (v.IsLeaf ↔ q = c.path ∧ w.IsLeaf) ∧
        base ≤ e.value ∧ ((e.parent = jsonbRow ∧ e.idx = rowPairs m ∧ r = []) ∨
          (e.value < e.parent ∧ e.idx = 0 ∧ ∃ b, st'.mem.cell e.parent = some (.object 1 b))) := by
    intro q e hlt hpre he
    obtain ⟨ys, xs, hys, rfl, rfl⟩ := hn.split ⟨hlt, hpre⟩
    obtain ⟨e', v, he', hv, -, hpar, hrest⟩ := hn.chain.drop hys
    rw [he'] at he
    cases he
    refine ⟨v, hv, ?_, hrest.base_le, hpar⟩
    rw [hrest.isLeaf_iff hv, hn.path, ← append_assoc, self_eq_append_right]
  have hregistered := hn.registered hlink hlen hr
  refine ⟨htidy, ⟨n, b, hrow⟩, hregistered, ?_, ?_⟩
  · intro q e he
    change st'.entry q = some e at he
    by_cases hq : r.length < q.length ∧ q <+: c.path
    · obtain ⟨v, hv, hleaf, -, -⟩ := hchain hq.1 hq.2 he
      obtain ⟨v', hv', hleaf'⟩ := hgrows.cell hv
      refine ⟨v', hv', ?_⟩
      rw [hleaf', hleaf, hw.isLeaf_iff, exists_mem_concat]
      constructor
      · rintro ⟨rfl, hscalar⟩
        exact .inr ⟨hlen, rfl, hscalar⟩
      · rintro (⟨c', hc', hlen', hpath, -⟩ | ⟨-, hpath, hscalar⟩)
        · have hnot := hn.not_prefix hlink hq.1 hq.2 hc' hlen'
          exact absurd (hpath ▸ prefix_rfl) hnot
        · exact ⟨hpath.symm, hscalar⟩
    · rw [hn.old q hq] at he
      obtain ⟨v, hv, hleaf⟩ := hlink.value he
      obtain ⟨v', hv', hleaf'⟩ := hgrows'.cell hv
      refine ⟨v', hv', ?_⟩
      rw [hleaf', hleaf, exists_mem_concat]
      refine ⟨.inl, fun h => h.elim id ?_⟩
      rintro ⟨-, rfl, hscalar⟩
      have hle : c.path.length ≤ r.length := not_lt.mp fun hlt => hq ⟨hlt, prefix_rfl⟩
      have hrp : r <+: c.path := ⟨zs, hn.path.symm⟩
      exact absurd hscalar (hself (hrp.eq_of_length_le hle))
  · intro q e he
    change st'.entry q = some e at he
    by_cases hq : r.length < q.length ∧ q <+: c.path
    · obtain ⟨v, -, -, hge, hpar⟩ := hchain hq.1 hq.2 he
      rcases hpar with ⟨hparent, hidx, hr⟩ | ⟨hlt, hidx, d, hd⟩
      · rw [hparent, hidx]
        exact ⟨by omega, n, b, hrow, hpairs hr⟩
      · obtain ⟨n', b', hle, hd'⟩ := hgrows.object hd
        exact ⟨by omega, n', b', hd', by omega⟩
    · rw [hn.old q hq] at he
      exact hlink.parent_grows hgrows' he

/-- **One column**: there is a conflict exactly if it clashes with one before it. -/
theorem insertColumn_spec (hlink : Linked st done) (hdone : NoClash done) (hc : c.WellNamed) :
    (∃ st', insertColumn moves ⟨storeValue st.mem c.colval, st.hash⟩ c.attname
          st.mem.cells.length = .ok st' ∧
        Linked st' (done ++ [c]) ∧ ∀ c' ∈ done, ¬Clash c' c ∧ ¬Clash c c') ∨
      (insertColumn moves ⟨storeValue st.mem c.colval, st.hash⟩ c.attname st.mem.cells.length =
          .error (.conflict c.attname) ∧ ∃ c' ∈ done, Clash c' c ∨ Clash c c') := by
  obtain ⟨n, b, hrow⟩ := hlink.row
  have hbase : jsonbRow < st.mem.cells.length := cell_lt hrow
  obtain ⟨m, w, rfl, hw, hstores, hcases⟩ := insertColumn_cases moves hc hlink.tidy hrow
  have hext := extends_storeValue st.mem c.colval
  rcases hcases with ⟨x, ps, m', hx, -, hpushed, hrun⟩ |
      ⟨y, ys, st', a, v, d, ps, m', hlen, hn, -, -, -, hpushed, hrun⟩ |
      ⟨r, zs, st', a, e, hlen, hr, hn, he, hrun⟩
  · -- a name of one part
    left
    have hlen : c.path.length = 1 := by rw [hx]; rfl
    have hgrows : Grows st.mem m' := (Grows.of_extends hext).trans hpushed.grows
    have hmem : ∀ (P : Column V → Prop), (∃ c' ∈ done ++ [c], 2 ≤ c'.path.length ∧ P c') ↔
        ∃ c' ∈ done, 2 ≤ c'.path.length ∧ P c' := by
      intro P
      rw [exists_mem_concat]
      exact or_iff_left fun h => by omega
    refine ⟨_, hrun, ⟨hpushed.tidy, ⟨_, _, hpushed.self⟩, ?_, ?_, ?_⟩, ?_⟩
    · intro q
      rw [hmem]
      exact hlink.registered q
    · intro q e he
      obtain ⟨v, hv, hleaf⟩ := hlink.value he
      obtain ⟨v', hv', hleaf'⟩ := hgrows.cell hv
      exact ⟨v', hv', by rw [hleaf', hleaf, hmem]⟩
    · intro q e he
      exact hlink.parent_grows hgrows he
    · intro c' _
      constructor
      · rintro ⟨hlen', hpre, -⟩
        have := hpre.length_le
        omega
      · rintro ⟨hlen', -⟩
        omega
  · -- no beginning of the path is in the table
    left
    refine ⟨_, hrun, ?_, ?_⟩
    · apply hlink.nested hext hbase hlen (.inl rfl) hn hstores hpushed.grows hpushed.tidy
      · refine ⟨_, _, hpushed.self, fun _ => ?_⟩
        rw [rowPairs_eq (hext.cell hrow)]
        exact Nat.lt_succ_self n
      · intro h
        rw [← h] at hlen
        exact absurd hlen (by simp)
    · intro c' hc'
      constructor
      · rintro ⟨hlen', hpre, -⟩
        exact hn.not_prefix hlink (Nat.zero_lt_of_lt hlen') hpre hc' hlen' prefix_rfl
      · rintro ⟨-, hpre, -⟩
        exact hn.not_prefix hlink (Nat.zero_lt_of_lt hlen) prefix_rfl hc'
          (le_trans hlen hpre.length_le) hpre
  · -- the path `r` is in the table
    have hrp : r <+: c.path := ⟨zs, hn.path.symm⟩
    obtain ⟨v, hv, hleaf⟩ := hlink.value he
    obtain ⟨-, c0, hc0, hlen0, hpre0⟩ := (hlink.registered r).mp ⟨e, he⟩
    have hv' := hn.ext.cell (hext.cell hv)
    obtain ⟨u, hu⟩ := hn.chain.cell
    -- a clash that is not found at `r` would be one of two columns before
    have hbefore : ¬v.IsLeaf → ∀ c' ∈ done, ¬Clash c' c := by
      rintro hnot c' hc' ⟨hlen', hpre, hscalar⟩
      rcases Nat.lt_trichotomy c'.path.length r.length with hlt | heq | hgt
      · refine hdone.not_clash hc' hc0 (lt_of_lt_of_le hlt hpre0.length_le) ⟨hlen', ?_, hscalar⟩
        exact (prefix_of_prefix_length_le hpre hrp (le_of_lt hlt)).trans hpre0
      · exact hnot (hleaf.mpr ⟨c', hc', hlen', eq_of_prefix_of_length hpre hrp heq, hscalar⟩)
      · exact hn.not_prefix hlink hgt hpre hc' hlen' prefix_rfl
    cases v with
    | leaf v =>
      right
      constructor
      · rw [hrun, insertExistingJson, hv', hu, Except.map]
      · obtain ⟨c', hc', hlen', hpath, hscalar⟩ := hleaf.mp trivial
        exact ⟨c', hc', .inl ⟨hlen', hpath ▸ hrp, hscalar⟩⟩
    | object n0 b0 =>
      cases u with
      | leaf u =>
        -- the value of the column itself, which is no object
        right
        obtain ⟨rfl, hscalar⟩ := (hn.chain.isLeaf_iff hu).mp trivial
        have hpath : c.path = r := by rw [hn.path, append_nil]
        constructor
        · rw [hrun, insertExistingJson, hv', hu, Except.map]
        · exact ⟨c0, hc0, .inr ⟨hlen, hpath ▸ hpre0, hstores.isLeaf_iff.mp hscalar⟩⟩
      | object n1 b1 =>
        left
        obtain ⟨hne, np, bp, hpar, hidx⟩ := hlink.parent he
        have hpar' := hn.ext.cell (hext.cell hpar)
        obtain ⟨ps, hps, -⟩ := hn.tidy.alive hv'
        obtain ⟨ps', hps', -⟩ := hn.tidy.alive hu
        obtain ⟨pps, hpps, -⟩ := hn.tidy.alive hpar'
        obtain ⟨m', b', hins, hinserted⟩ := insertExistingJson_spec moves hn.tidy c.attname
          hv' hps hu hps' hpar' hpps hidx hne
        have hself : r = c.path → ¬IsScalar c.colval := by
          intro hpath hscalar
          have hzs : zs = [] := by
            have := hn.path
            rw [← hpath] at this
            exact append_right_eq_self.mp this.symm
          exact (hn.chain.isLeaf_iff hu).mpr ⟨hzs, hstores.isLeaf_iff.mpr hscalar⟩
        refine ⟨_, by rw [hrun, hins, Except.map], ?_, ?_⟩
        · obtain ⟨nr, br, -, hrow'⟩ := hinserted.grows.object (hn.ext.cell (hext.cell hrow))
          exact hlink.nested hext hbase hlen (.inr ⟨e, he⟩) hn hstores hinserted.grows
            hinserted.tidy ⟨nr, br, hrow', fun h => absurd h hr⟩ hself
        · intro c' hc'
          refine ⟨hbefore id c' hc', ?_⟩
          rintro ⟨-, hpre, hscalar⟩
          by_cases hpath : r = c.path
          · exact hself hpath hscalar
          · have hlt : r.length < c.path.length :=
              Nat.lt_of_le_of_ne hrp.length_le fun h => hpath (hrp.eq_of_length h)
            exact hn.not_prefix hlink hlt prefix_rfl hc'
              (le_trans hlen hpre.length_le) hpre

/-! ### The row -/

/-- The column has a name, and is not shown or neither of a binary type nor a NULL of `money`. -/
def Column.accepted (includeNullValues : Bool) (c : Column V) : Bool :=
  !(c.attname = questionColumn ∨ c.attname = []) &&
    !((c.colval.isSome || includeNullValues) &&
      (c.type = .binary ∨ c.type = .money ∧ c.colval = none))

/-- What is to be shown of the outcome of the loop. -/
def Outcome (includeNullValues : Bool) (done cols : List (Column V)) :
    Except Fault (RowState V) → Prop
  | .ok st => (∀ c ∈ cols, c.accepted includeNullValues) ∧
      Linked st (done ++ live includeNullValues cols) ∧
      NoClash (done ++ live includeNullValues cols)
  | .error (.conflict _) =>
      ¬NoClash (done ++ live includeNullValues (cols.takeWhile (·.accepted includeNullValues)))
  | .error .undefined => False
  | .error _ => ¬(∀ c ∈ cols, c.accepted includeNullValues) ∧
      NoClash (done ++ live includeNullValues (cols.takeWhile (·.accepted includeNullValues)))

theorem noClash_concat :
    NoClash (done ++ [c]) ↔ NoClash done ∧ ∀ c' ∈ done, ¬Clash c' c ∧ ¬Clash c c' := by
  simp [NoClash, pairwise_append]

variable {nulls : Bool}

theorem live_cons_of_live (cs : List (Column V)) (h : (c.colval.isSome || nulls) = true) :
    live nulls (c :: cs) = c :: live nulls cs :=
  filter_cons_of_pos (by simpa using h)

theorem live_cons_of_not (cs : List (Column V)) (h : ¬(c.colval.isSome || nulls) = true) :
    live nulls (c :: cs) = live nulls cs :=
  filter_cons_of_neg (by simpa using h)

theorem Outcome.refused {cs : List (Column V)} {f : Fault} (hdone : NoClash done)
    (hc : ¬c.accepted nulls = true)
    (hf : f = .unnamedColumn ∨ f = .binaryType ∨ f = .nullPointer) :
    Outcome nulls done (c :: cs) (.error f) := by
  have houtcome : ¬(∀ c' ∈ c :: cs, c'.accepted nulls = true) ∧
      NoClash (done ++ live nulls
        ((c :: cs).takeWhile (·.accepted nulls))) := by
    refine ⟨fun h => hc (h c mem_cons_self), ?_⟩
    rw [takeWhile_cons_of_neg hc]
    exact (append_nil done).symm ▸ hdone
  rcases hf with rfl | rfl | rfl <;> exact houtcome

theorem Outcome.cons {done' cs : List (Column V)} {r : Except Fault (RowState V)}
    (hc : c.accepted nulls = true)
    (hlive : ∀ l, done ++ live nulls (c :: l) = done' ++ live nulls l)
    (h : Outcome nulls done' cs r) : Outcome nulls done (c :: cs) r := by
  have htake : (c :: cs).takeWhile (·.accepted nulls) =
      c :: cs.takeWhile (·.accepted nulls) := takeWhile_cons_of_pos hc
  match r, h with
  | .ok st, ⟨hall, hlink, hclash⟩ =>
    refine ⟨forall_mem_cons.mpr ⟨hc, hall⟩, ?_, ?_⟩ <;> rwa [hlive]
  | .error (.conflict _), h =>
    change ¬NoClash _
    rwa [htake, hlive]
  | .error .unnamedColumn, ⟨hall, hclash⟩ | .error .binaryType, ⟨hall, hclash⟩
  | .error .nullPointer, ⟨hall, hclash⟩ =>
    refine ⟨fun h => hall (forall_mem_cons.mp h).2, ?_⟩
    rwa [htake, hlive]

/-- **The loop over the columns**: it ends with a conflict exactly if two of the columns that are
shown clash, unless a column before them is refused. -/
theorem addColumns_spec (nulls : Bool) (hnamed : ∀ c ∈ cols, c.WellNamed)
    (hlink : Linked st done) (hdone : NoClash done) :
    Outcome nulls done cols (addColumns moves nulls st cols) := by
  induction cols generalizing done st with
  | nil =>
    refine ⟨fun c hc => absurd hc not_mem_nil, ?_, ?_⟩ <;>
      rwa [live, filter_nil, append_nil]
  | cons c cs ih =>
    obtain ⟨hc, hcs⟩ := forall_mem_cons.mp hnamed
    rw [addColumns, addColumn]
    by_cases hname : c.attname = questionColumn ∨ c.attname = []
    · rw [if_pos hname]
      exact Outcome.refused hdone (by simp [Column.accepted, hname]) (.inl rfl)
    rw [if_neg hname]
    by_cases hlive : (c.colval.isSome || nulls) = true
    · rw [if_neg (by cases hv : c.colval <;> simp_all)]
      by_cases hbinary : c.type = .binary
      · rw [if_pos hbinary]
        exact Outcome.refused hdone (by simp [Column.accepted, hlive, hbinary]) (.inr (.inl rfl))
      rw [if_neg hbinary]
      by_cases hmoney : c.type = .money ∧ c.colval = none
      · rw [if_pos hmoney]
        exact Outcome.refused hdone (by simp_all [Column.accepted]) (.inr (.inr rfl))
      rw [if_neg hmoney]
      have hacc : c.accepted nulls = true := by simp [Column.accepted, hname, hbinary, hmoney]
      rcases insertColumn_spec moves hlink hdone hc with ⟨st', hrun, hlink', hclash⟩ |
        ⟨hrun, c', hc', hclash⟩
      · rw [hrun]
        refine Outcome.cons hacc ?_
          (ih hcs hlink' (noClash_concat.mpr ⟨hdone, hclash⟩))
        intro l
        rw [live_cons_of_live l hlive, append_assoc, singleton_append]
      · rw [hrun]
        intro hno
        rw [takeWhile_cons_of_pos hacc, live_cons_of_live _ hlive] at hno
        have hpair := (pairwise_append.mp hno).2.2 c' hc' c mem_cons_self
        rcases hclash with h | h
        · exact hpair.1 h
        · exact hpair.2 h
    · rw [if_pos (by cases hv : c.colval <;> simp_all)]
      refine Outcome.cons (by simp [Column.accepted, hname, hlive]) ?_
        (ih hcs hlink hdone)
      intro l
      rw [live_cons_of_not l hlive]

end Babelfish.Tsql.ForJson
