import Babelfish.Lib.CheckedBytes
import Mathlib.Data.List.FinRange
import Mathlib.Data.List.Perm.Subperm

/-!
# INSERT BULK

The rows of a bulk load come in batches, each a flat array of values.  `ExecuteBulkCopy` puts the
values of a row into the columns of the table, with one index that goes over the columns of the
table and another one over the columns that were received, and keeps the rows in a buffer of 1000;
`EndBulkCopy` sets the sequence of the identity column and hands the rest of the buffer to the
table.

* `bulkCopyGetAttnums`, `executeBulkCopy`, `endBulkCopy`, `bulkCopy`: the code.
* `bulkCopyGetAttnums_spec`: the columns of a load can be inserted into, and are given once.
* `PlacedRow`, `placeColumns_spec`: what the loop over the columns has done when it ends.
-/

namespace Babelfish.Tsql.BulkCopy

open Lib List Function

/-! ### Errors -/

inductive LoadError where
  | error (text : String)
  /-- the loop over the rows does not end -/
  | endless
deriving DecidableEq, Repr

abbrev Fault := MemFault LoadError

variable {α : Type} {n : Nat} {σ : Type}

def raise (text : String) : Except Fault α := .error (.raised (.error text))

/-- Code of PostgreSQL, which may raise an error. -/
def call : Except String α → Except Fault α
  | .ok a => .ok a
  | .error text => raise text

def Raised (e : Fault) : Prop := ∃ text, e = .raised (.error text)

theorem ends_raise {text : String} {Q : α → Prop} : Ends Raised (raise text) Q := ⟨text, rfl⟩

theorem ends_call (x : Except String α) : Ends Raised (call x) fun a => x = .ok a := by
  cases x with
  | ok a => rfl
  | error text => exact ⟨text, rfl⟩

/-! ### Tables -/

abbrev Datum := BitVec 64

/-- The row of a slot; `none` is NULL. -/
abbrev Slot (n : Nat) := Fin n → Option Datum

/-- `pg_attribute` -/
structure Attribute where
  attname : String
  attisdropped : Bool := false
  attgenerated : Bool := false
  attidentity : Bool := false
  isRowversion : Bool := false
  atthasdef : Bool := false
deriving DecidableEq, Repr

namespace Attribute

def isIdentity (a : Attribute) : Bool := !a.attisdropped && a.attidentity

def isDefaulted (a : Attribute) : Bool :=
  !a.attisdropped && !a.attidentity && !a.attgenerated && a.atthasdef

def isComputed (a : Attribute) : Bool := !a.attisdropped && a.attgenerated

end Attribute

/-- A table has at most one identity column and one rowversion column. -/
structure TupleDesc (n : Nat) where
  relname : String
  att : Fin n → Attribute
  identity_unique : ∀ i j, (att i).isIdentity → (att j).isIdentity → i = j
  rowversion_unique : ∀ i j, (att i).isRowversion → (att j).isRowversion → i = j

/-- `BulkCopyGetAttnums`, one name. -/
def addAttnum (desc : TupleDesc n) (attnums : List (Fin n)) (name : String) :
    Except Fault (List (Fin n)) :=
  match (List.finRange n).find? fun i => !(desc.att i).attisdropped && (desc.att i).attname == name
  with
  | none => raise s!"column \"{name}\" of relation \"{desc.relname}\" does not exist"
  | some i =>
    if (desc.att i).attgenerated then raise s!"column \"{name}\" is a Computed column"
    else if (desc.att i).isRowversion then
      raise s!"column \"{name}\" is a ROWVERSION/TIMESTAMP column"
    else if i ∈ attnums then raise s!"column \"{name}\" specified more than once"
    else .ok (attnums ++ [i])

def bulkCopyGetAttnums (desc : TupleDesc n) (attnamelist : List String) :
    Except Fault (List (Fin n)) :=
  if attnamelist = [] then
    .ok ((List.finRange n).filter fun i =>
      !(desc.att i).attisdropped && !(desc.att i).attgenerated)
  else attnamelist.foldlM (addAttnum desc) []

/-! ### The state of a load -/

/-- The last column with a property, which is what a loop over the columns remembers. -/
def lastIndex (p : Fin n → Bool) : Option (Fin n) := ((List.finRange n).filter p).getLast?

/-- What a load is given, and what PostgreSQL does for it: the sequence of the identity column,
expressions of defaults and of computed columns, and constraints.  `σ` is what the sequence and the
default expressions read and change. -/
structure Load (n : Nat) (σ : Type) where
  desc : TupleDesc n
  attnumlist : List (Fin n)
  keepNulls : Bool
  checkConstraints : Bool
  identityInsert : Bool
  /-- `identity_col_incr_value` -/
  incr : Int
  nextval : σ → Except String (Int × σ)
  setval : Int → σ → Except String σ
  /-- `pg_sequence_last_value`, which is caught when it raises an error -/
  lastValue : σ → Option Int
  start : Int
  evalDefault : Fin n → σ → Except String (Option Datum × σ)
  compute : Slot n → Except String (Slot n)
  constraints : Slot n → Except String Unit

namespace Load

variable (c : Load n σ)

def seqIndex : Option (Fin n) := lastIndex fun i => (c.desc.att i).isIdentity

def rvIndex : Option (Fin n) :=
  lastIndex fun i => (c.desc.att i).isDefaulted && (c.desc.att i).isRowversion

def defmap : List (Fin n) := (List.finRange n).filter fun i => (c.desc.att i).isDefaulted

/-- `Max` or `Min`, by the increment. -/
def farther (cur v : Int) : Int := if c.incr > 0 then max cur v else min cur v

def initIdentityValue (db : σ) : Int := (c.lastValue db).getD c.start

/-- What `EndBulkCopy` does with the sequence. -/
def reseed (cur : Int) (db : σ) : Except String σ :=
  if (c.incr > 0 ∧ cur > c.initIdentityValue db) ∨ (c.incr < 0 ∧ cur < c.initIdentityValue db) then
    c.setval cur db
  else .ok db

end Load

def maxBufferedTuples : Nat := 1000

/-- `BulkCopyStateData`, the rows that the table has got, and the rest of the database. -/
structure BulkCopyState (n : Nat) (σ : Type) where
  curIdentityValue : Int
  slots : List (Slot n) := []
  bufferedTuples : Nat := 0
  table : List (Slot n) := []
  db : σ

/-! ### One row -/

/-- Where the loop over the columns is. -/
structure Placing (n : Nat) (σ : Type) where
  slot : Slot n
  j : Nat
  cur : Int
  db : σ

variable (c : Load n σ) (values : List (Option Datum)) {i : Fin n}

/-- A round of the loop over the columns.  `colCount` is the number of listed columns. -/
def placeColumn (row : Nat) (s : Placing n σ) (i : Fin n) : Except Fault (Placing n σ) :=
  if i ∉ c.attnumlist then
    if c.seqIndex = some i then
      if c.identityInsert then
        raise (s!"Explicit value must be specified for identity column in table " ++
          s!"'{c.desc.relname}' when IDENTITY_INSERT is set to ON")
      else do
        let (v, db) ← call (c.nextval s.db)
        return { s with slot := Function.update s.slot i (some (BitVec.ofInt 64 v)), db }
    else .ok { s with slot := Function.update s.slot i none }
  else do
    let target ← elemAt c.attnumlist s.j
    let value ← elemAt values (row * c.attnumlist.length + s.j)
    return {
      slot := Function.update s.slot target value
      j := s.j + 1
      cur := value.elim s.cur fun v =>
        if c.seqIndex = some i then c.farther s.cur v.toInt else s.cur
      db := s.db }

def placeColumns (row : Nat) (s : Placing n σ) :
    Except Fault (Placing n σ) :=
  (List.finRange n).foldlM (placeColumn c values row) s

def setDefault (s : Slot n × σ) (i : Fin n) : Except Fault (Slot n × σ) :=
  if s.1 i = none ∧ (c.keepNulls = false ∨ c.rvIndex = some i) then do
    let (v, db) ← call (c.evalDefault i s.2)
    return (Function.update s.1 i v, db)
  else .ok s

/-- `ExecComputeStoredGenerated` -/
def computeStored (slot : Slot n) : Except Fault (Slot n) := do
  let values ← call (c.compute slot)
  return fun i => if (c.desc.att i).isComputed then values i else slot i

/-- `CopyMultiInsertInfoFlush` -/
def flush (s : BulkCopyState n σ) : BulkCopyState n σ :=
  { s with table := s.table ++ s.slots, slots := [], bufferedTuples := 0 }

/-- `CopyMultiInsertInfoStore`, and the flush of a full buffer. -/
def store (s : BulkCopyState n σ) (slot : Slot n) : BulkCopyState n σ :=
  let s := { s with slots := s.slots ++ [slot], bufferedTuples := s.bufferedTuples + 1 }
  if s.bufferedTuples ≥ maxBufferedTuples then flush s else s

/-- A row, and how far `cur_index` goes on. -/
def executeRow (row : Nat) (s : BulkCopyState n σ) :
    Except Fault (BulkCopyState n σ × Nat) := do
  let p ← placeColumns c values row ⟨fun _ => some 0, 0, s.curIdentityValue, s.db⟩
  let (slot, db) ← c.defmap.foldlM (setDefault c) (p.slot, p.db)
  let slot ← computeStored c slot
  if c.checkConstraints then call (c.constraints slot)
  return (store { s with curIdentityValue := p.cur, db } slot, p.j)

/-! ### Batches -/

/-- The loop over the rows.  It begins with a slot of the buffer. -/
def executeLoop (c : Load n σ) (values : List (Option Datum)) (rowCount : Nat) :
    Nat → Nat → Nat → BulkCopyState n σ → Except Fault (BulkCopyState n σ)
  | 0, _, _, _ => .error (.raised .endless)
  | fuel + 1, curIndex, row, s =>
    if s.slots.length ≥ maxBufferedTuples then .error .outOfBounds
    else if curIndex < rowCount * c.attnumlist.length then do
      let (s, received) ← executeRow c values row s
      executeLoop c values rowCount fuel (curIndex + received) (row + 1) s
    else .ok s

/-- `ExecuteBulkCopy`, on rows that are received as one array. -/
def executeBulkCopy (s : BulkCopyState n σ) (rows : List (List (Option Datum))) :
    Except Fault (BulkCopyState n σ) :=
  executeLoop c rows.flatten rows.length (rows.length * c.attnumlist.length + 1) 0 0 s

/-- `EndBulkCopy` of a load that was not aborted. -/
def endBulkCopy (s : BulkCopyState n σ) : Except Fault (BulkCopyState n σ) := do
  let db ← if c.seqIndex.isSome then call (c.reseed s.curIdentityValue s.db) else .ok s.db
  let s := { s with db }
  return if s.bufferedTuples ≠ 0 then flush s else s

/-- `cur_identity_value`, as `BeginBulkCopy` sets it. -/
def Load.initialIdentity : Int := if c.incr > 0 then -2 ^ 63 else 2 ^ 63 - 1

def bulkCopy (db : σ) (batches : List (List (List (Option Datum)))) :
    Except Fault (BulkCopyState n σ) :=
  batches.foldlM (executeBulkCopy c) { curIdentityValue := c.initialIdentity, db } >>= endBulkCopy c

/-! ### Columns -/

theorem lastIndex_eq_some {p : Fin n → Bool} (hunique : ∀ i j, p i → p j → i = j) :
    lastIndex p = some i ↔ p i := by
  constructor
  · intro h
    exact (mem_filter.mp (mem_of_getLast? h)).2
  · intro hi
    have hmem : i ∈ (finRange n).filter p := mem_filter.mpr ⟨mem_finRange i, hi⟩
    cases h : lastIndex p with
    | none =>
      rw [lastIndex, getLast?_eq_none_iff] at h
      rw [h] at hmem
      cases hmem
    | some k => rw [hunique i k hi (mem_filter.mp (mem_of_getLast? h)).2]

theorem seqIndex_eq_some {c : Load n σ} : c.seqIndex = some i ↔ (c.desc.att i).isIdentity :=
  lastIndex_eq_some c.desc.identity_unique

theorem rvIndex_eq_some {c : Load n σ} :
    c.rvIndex = some i ↔ (c.desc.att i).isDefaulted ∧ (c.desc.att i).isRowversion := by
  rw [← Bool.and_eq_true]
  refine lastIndex_eq_some fun i j hi hj => ?_
  rw [Bool.and_eq_true] at hi hj
  exact c.desc.rowversion_unique i j hi.2 hj.2

theorem addAttnum_spec {desc : TupleDesc n} {attnums : List (Fin n)} (name : String)
    (h : attnums.Nodup ∧ ∀ i ∈ attnums, (desc.att i).attgenerated = false) :
    Ends Raised (addAttnum desc attnums name) fun l =>
      l.Nodup ∧ ∀ i ∈ l, (desc.att i).attgenerated = false := by
  unfold addAttnum
  split
  · exact ends_raise
  next i _ =>
  refine .ite (fun _ => ends_raise) fun hgen => .ite (fun _ => ends_raise) fun _ =>
    .ite (fun _ => ends_raise) fun hnew => .ok ⟨?_, ?_⟩
  · exact nodup_append.mpr ⟨h.1, nodup_singleton i, by
      rintro a ha _ hb rfl
      exact hnew (mem_singleton.mp hb ▸ ha)⟩
  · exact forall_mem_append.mpr
      ⟨h.2, forall_mem_singleton.mpr (Bool.eq_false_iff.mpr hgen)⟩

/-- **The columns of a load** are given once, and none of them is computed. -/
theorem bulkCopyGetAttnums_spec (desc : TupleDesc n) (names : List String) :
    Ends Raised (bulkCopyGetAttnums desc names) fun l =>
      l.Nodup ∧ ∀ i ∈ l, (desc.att i).attgenerated = false := by
  refine .ite (fun _ => .ok ⟨(nodup_finRange n).filter _, fun i hi => ?_⟩) fun _ => ?_
  · exact ((Bool.not_eq_true' _).mp (Bool.and_eq_true_iff.mp (mem_filter.mp hi).2).2)
  · exact .foldlM
      (I := fun _ (l : List (Fin n)) => l.Nodup ∧ ∀ i ∈ l, (desc.att i).attgenerated = false)
      ⟨nodup_nil, by simp⟩ fun _ name _ _ _ h => addAttnum_spec name h

/-! ### The loop over the columns -/

section
variable (c : Load n σ) (vs : List (Option Datum))

/-- **What the loop has done** behind the columns `pre`, with the values `vs` of a row: the
values received so far are in the columns of the list, whichever columns of the table these are. -/
structure PlacedRow (db : σ) (pre : List (Fin n)) (s : Placing n σ) : Prop where
  count : s.j = (pre.filter (· ∈ c.attnumlist)).length
  listed : ∀ k i, k < s.j → c.attnumlist[k]? = some i → vs[k]? = some (s.slot i)
  null : ∀ i ∈ pre, i ∉ c.attnumlist → c.seqIndex ≠ some i → s.slot i = none
  drawn : ∀ i, c.seqIndex = some i → i ∉ c.attnumlist → if i ∈ pre then
    ∃ v, c.nextval db = .ok (v, s.db) ∧ s.slot i = some (BitVec.ofInt 64 v) else s.db = db
  kept : (∀ i, c.seqIndex = some i → i ∈ c.attnumlist) → s.db = db

end

section
variable {c : Load n σ} {vs values : List (Option Datum)} {row : Nat} {cur : Int} {db : σ}
  {pre post : List (Fin n)} {i : Fin n} {s : Placing n σ}

theorem length_filter_le {l a : List (Fin n)} (hl : l.Nodup) :
    (l.filter (· ∈ a)).length ≤ a.length := by
  refine ((hl.filter _).subperm fun i hi => ?_).length_le
  exact of_decide_eq_true (mem_filter.mp hi).2

theorem length_filter_finRange {a : List (Fin n)} (ha : a.Nodup) :
    ((List.finRange n).filter (· ∈ a)).length = a.length := by
  refine Nat.le_antisymm (length_filter_le (nodup_finRange n))
    (ha.subperm fun i hi => ?_).length_le
  exact mem_filter.mpr ⟨mem_finRange i, decide_eq_true hi⟩

theorem mem_concat_of_ne {l : List (Fin n)} {k : Fin n} (h : k ≠ i) : k ∈ l ++ [i] ↔ k ∈ l := by
  simp [h]

theorem PlacedRow.unlisted (h : PlacedRow c vs db pre s) (hi : i ∉ c.attnumlist)
    (hpre : i ∉ pre) {v : Option Datum} {db' : σ}
    (hv : (c.seqIndex ≠ some i ∧ v = none ∧ db' = s.db) ∨ (c.seqIndex = some i ∧
      ∃ w, c.nextval s.db = .ok (w, db') ∧ v = some (BitVec.ofInt 64 w))) :
    PlacedRow c vs db (pre ++ [i])
      { s with slot := update s.slot i v, db := db' } where
  count := by simp [h.count, hi]
  listed k k' hk hat := by
    have hne : k' ≠ i := fun heq => hi (heq ▸ mem_of_getElem? hat)
    dsimp only
    rw [update_of_ne hne]
    exact h.listed k k' hk hat
  null k hk hun hseq := by
    by_cases hki : k = i
    · subst hki
      rcases hv with ⟨-, rfl, -⟩ | ⟨hcon, -⟩
      · exact update_self _ _ _
      · exact absurd hcon hseq
    · dsimp only
      rw [update_of_ne hki]
      exact h.null k ((mem_concat_of_ne hki).mp hk) hun hseq
  drawn k hseq hun := by
    have hd := h.drawn k hseq hun
    by_cases hki : k = i
    · subst hki
      rw [if_neg hpre] at hd
      rcases hv with ⟨hcon, -⟩ | ⟨-, w, hw, rfl⟩
      · exact absurd hseq hcon
      · rw [if_pos (by simp)]
        exact ⟨w, hd ▸ hw, update_self _ _ _⟩
    · rcases hv with ⟨-, -, rfl⟩ | ⟨hcon, -⟩
      · simp only [mem_concat_of_ne hki, update_of_ne hki]
        exact hd
      · exact absurd (Option.some.inj (hseq.symm.trans hcon)) hki
  kept hall := by
    rcases hv with ⟨-, -, rfl⟩ | ⟨hcon, -⟩
    · exact h.kept hall
    · exact absurd (hall i hcon) hi

theorem PlacedRow.next (h : PlacedRow c vs db pre s) (hnodup : c.attnumlist.Nodup)
    (hi : i ∈ c.attnumlist) {target : Fin n} {value : Option Datum}
    (htarget : c.attnumlist[s.j]? = some target) (hvalue : vs[s.j]? = some value) (cur : Int) :
    PlacedRow c vs db (pre ++ [i]) ⟨update s.slot target value, s.j + 1, cur, s.db⟩ where
  count := by simp [h.count, hi]
  listed k k' hk hat := by
    rcases Nat.lt_succ_iff_lt_or_eq.mp hk with hk | rfl
    · have hne : k' ≠ target := by
        rintro rfl
        have := (List.getElem?_inj (List.getElem?_eq_some_iff.mp hat).1 hnodup).mp
          (hat.trans htarget.symm)
        omega
      dsimp only
      rw [update_of_ne hne]
      exact h.listed k k' hk hat
    · obtain rfl := Option.some.inj (htarget.symm.trans hat)
      dsimp only
      rw [update_self, hvalue]
  null k hk hun hseq := by
    have hne : k ≠ target := fun heq => hun (heq ▸ mem_of_getElem? htarget)
    have hki : k ≠ i := fun heq => hun (heq ▸ hi)
    dsimp only
    rw [update_of_ne hne]
    exact h.null k ((mem_concat_of_ne hki).mp hk) hun hseq
  drawn k hseq hun := by
    have hne : k ≠ target := fun heq => hun (heq ▸ mem_of_getElem? htarget)
    have hki : k ≠ i := fun heq => hun (heq ▸ hi)
    simp only [mem_concat_of_ne hki, update_of_ne hne]
    exact h.drawn k hseq hun
  kept := h.kept

/-- **The loop over the columns** puts each value into its column. -/
theorem placeColumns_spec (hnodup : c.attnumlist.Nodup) (hlen : vs.length = c.attnumlist.length)
    (hvs : ∀ k, k < vs.length → values[row * c.attnumlist.length + k]? = vs[k]?) (slot : Slot n) :
    Ends Raised (placeColumns c values row ⟨slot, 0, cur, db⟩)
      (PlacedRow c vs db (List.finRange n)) := by
  refine .foldlM ⟨rfl, by simp, by simp, by simp, by simp⟩ ?_
  intro pre i post s hl h
  have hrange := nodup_finRange n
  have hpre : i ∉ pre := by
    rw [hl] at hrange
    exact fun hmem => (nodup_append.mp hrange).2.2 i hmem i mem_cons_self rfl
  refine .ite (fun hi => ?_) fun hi => ?_
  · refine .ite (fun hseq => .ite (fun _ => ends_raise) fun _ => ?_) fun hseq => ?_
    · refine (ends_call _).bind fun r hr => ?_
      exact h.unlisted hi hpre (.inr ⟨hseq, _, hr, rfl⟩)
    · exact h.unlisted hi hpre (.inl ⟨hseq, rfl, rfl⟩)
  · have hin := not_not.mp hi
    have hj : s.j < c.attnumlist.length := by
      have hle := length_filter_le (a := c.attnumlist) (hl ▸ hrange : (pre ++ i :: post).Nodup)
      rw [filter_append, length_append, filter_cons_of_pos (by simp [hin]),
        length_cons, ← h.count] at hle
      omega
    refine (Ends.elemAt hj).bind fun target htarget => ?_
    have hjv : s.j < vs.length := by omega
    have hvalue := hvs s.j hjv
    rw [getElem?_eq_getElem hjv] at hvalue
    refine (Ends.elemAt (List.getElem?_eq_some_iff.mp hvalue).1).bind fun value hval => ?_
    exact h.next hnodup hin htarget (hvs s.j hjv ▸ hval) _

end

end Babelfish.Tsql.BulkCopy
