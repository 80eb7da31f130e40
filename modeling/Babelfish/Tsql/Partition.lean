import Mathlib.Data.List.Perm.Subperm
import Mathlib.Order.Nat

/-!
# Partition functions

The boundary values of a partition function are sorted and stored.  `search_partition` finds the
partition of a value by a binary search in them, and `set_partition_range_bounds` makes the bounds
of a table's partitions from them.  Sorting, the comparison of the type and that of `sql_variant`
are PostgreSQL's.

* `tsqlBsearchArg_eq`: the search counts the values that are not greater than the key.
* `receives_iff`: so does the partition that receives the key.
* `searchPartition_receives`: the two for every partition function.
-/

namespace Babelfish.Tsql.Partition

open List

variable {V : Type}

/-! ### The source -/

def maxPartitionsLimit : Nat := 15000

def boundaryValue : Option V → Except String V
  | none => throw "NULL values are not allowed in partition function boundary values list."
  | some v => pure v

/-- `exec_stmt_partition_function`: what is stored for the given boundary values, converted to the
type of the function.  Sorting yields the sorted values and the pairs that were compared. -/
def execStmtPartitionFunction (cmp : V → V → Int) (qsortArg : List V → List V × List (V × V))
    (args : List (Option V)) : Except String (List V) := do
  if maxPartitionsLimit ≤ args.length then
    throw ("CREATE/ALTER partition function failed as only a maximum of 15000 partitions can be " ++
      "created.")
  let inputValues ← args.mapM boundaryValue
  let (sorted, compared) := qsortArg inputValues
  if compared.any fun p => cmp p.1 p.2 == 0 then
    throw "Duplicate values are not allowed in partition function boundary values list."
  return sorted

/-- `tsql_bsearch_arg`, with `base` counted in elements; `none` would be a read behind the array. -/
def tsqlBsearchArg (compar : V → V → Int) (key : V) (values : List V) (base lim : Nat) :
    Option Nat :=
  if lim = 0 then some (base + 1)
  else
    match values[base + lim / 2]? with
    | none => none
    | some p =>
      if compar key p = 0 then some (base + lim / 2 + 2)
      else if 0 < compar key p then
        tsqlBsearchArg compar key values (base + lim / 2 + 1) ((lim - 1) / 2)
      else tsqlBsearchArg compar key values base (lim / 2)
termination_by lim

/-- `search_partition`, once the partition function is found. -/
def searchPartition (sqlvariantCmp : V → V → Int) (rangeValues : List V) :
    Option V → Option Nat
  | none => some 1
  | some arg => tsqlBsearchArg sqlvariantCmp arg rangeValues 0 rangeValues.length

/-- Bounds of a partition; without an upper bound it goes up to `MAXVALUE`. -/
inductive PartitionBound (V : Type)
  | default
  | range (lower : V) (upper : Option V)

def setPartitionRangeBounds (rangeValues : List V) (idx totalPartitions : Nat) :
    Option (PartitionBound V) :=
  if idx = 0 then some .default
  else
    match rangeValues[idx - 1]? with
    | none => none
    | some lower =>
      if idx = totalPartitions - 1 then some (.range lower none)
      else rangeValues[idx]?.map fun upper => .range lower (some upper)

/-- The bounds that `bbf_create_partition_tables` gives to each partition. -/
def bbfCreatePartitionTables (rangeValues : List V) (i : Nat) : Option (PartitionBound V) :=
  if i < rangeValues.length + 1 then setPartitionRangeBounds rangeValues i (rangeValues.length + 1)
  else none

/-! ### PostgreSQL -/

section

variable [LE V]

/-- The value is in `[lower, upper)`. -/
def PartitionBound.Contains : PartitionBound V → V → Prop
  | .default, _ => False
  | .range lower upper, v => lower ≤ v ∧ ∀ u ∈ upper, ¬ u ≤ v

/-- A row is stored in the range partition that contains its value, otherwise in the default
partition. -/
def Receives (bounds : Nat → Option (PartitionBound V)) (value : Option V) (i : Nat) : Prop :=
  (∃ b ∈ bounds i, ∃ v ∈ value, b.Contains v) ∨
    bounds i = some .default ∧ ∀ j, ∀ b ∈ bounds j, ∀ v ∈ value, ¬ b.Contains v

/-- A comparison that orders the values. -/
structure Orders (cmp : V → V → Int) : Prop where
  pos_iff : ∀ a b, 0 < cmp a b ↔ ¬ a ≤ b
  neg_iff : ∀ a b, cmp a b < 0 ↔ ¬ b ≤ a

end

/-- What `qsort_arg` does: it sorts, and compares values at two different places. -/
structure Sorts (cmp : V → V → Int) (l : List V) (r : List V × List (V × V)) : Prop where
  perm : r.1.Perm l
  sorted : r.1.Pairwise fun a b => cmp a b ≤ 0
  compared : ∀ p ∈ r.2, [p.1, p.2].Subperm l

/-! ### The search -/

section

variable [Preorder V] {cmp compar : V → V → Int} {values : List V} {key : V}

theorem Orders.zero_iff (h : Orders cmp) (a b : V) : cmp a b = 0 ↔ a ≤ b ∧ b ≤ a := by
  have hpos := h.pos_iff a b
  have hneg := h.neg_iff a b
  constructor
  · intro hzero
    rw [hzero] at hpos hneg
    simpa using And.intro hpos hneg
  · rintro ⟨hab, hba⟩
    simp only [hab, hba, not_true, iff_false] at hpos hneg
    omega

variable [DecidableLE V]

theorem le_iff_lt_countP (hs : values.Pairwise (· < ·)) {i : Nat} {x : V}
    (hx : values[i]? = some x) : x ≤ key ↔ i < values.countP (· ≤ key) := by
  induction values generalizing i with
  | nil => cases hx
  | cons v values ih =>
    obtain ⟨hv, hs⟩ := pairwise_cons.mp hs
    by_cases hle : v ≤ key
    · rw [countP_cons_of_pos (by simpa using hle)]
      cases i with
      | zero =>
        cases hx
        simp [hle]
      | succ i => simp [ih hs hx]
    · have hnone : ∀ y ∈ v :: values, ¬ y ≤ key := by
        intro y hy hyle
        rcases mem_cons.mp hy with rfl | hy
        · exact hle hyle
        · exact hle ((hv y hy).le.trans hyle)
      rw [countP_eq_zero.mpr (by simpa using hnone)]
      simp [hnone x (mem_of_getElem? hx)]

theorem tsqlBsearchArg_eq (hcmp : Orders compar) (hs : values.Pairwise (· < ·)) (key : V)
    (base lim : Nat) (hlen : base + lim ≤ values.length) (hbase : base ≤ values.countP (· ≤ key))
    (htop : values.countP (· ≤ key) ≤ base + lim) :
    tsqlBsearchArg compar key values base lim = some (values.countP (· ≤ key) + 1) := by
  fun_induction tsqlBsearchArg compar key values base lim with
  | case1 base => rw [le_antisymm hbase htop]
  | case2 base lim hlim hp =>
    rw [getElem?_eq_none_iff] at hp
    omega
  | case3 base lim hlim p hp hzero =>
    obtain ⟨hle, hge⟩ := (hcmp.zero_iff key p).mp hzero
    have hlt := (le_iff_lt_countP hs hp).mp hge
    -- the next value is greater
    have hnext : ¬ base + lim / 2 + 1 < values.countP (· ≤ key) := by
      intro hlt'
      have hin := lt_of_lt_of_le hlt' countP_le_length
      obtain ⟨hm, rfl⟩ := List.getElem?_eq_some_iff.mp hp
      have hgreater := pairwise_iff_getElem.mp hs _ _ hm hin (Nat.lt_succ_self _)
      have hx := (le_iff_lt_countP hs (getElem?_eq_getElem hin)).mpr hlt'
      exact hgreater.not_ge (hx.trans hle)
    rw [show values.countP (· ≤ key) = base + lim / 2 + 1 by omega]
  | case4 base lim hlim p hp hzero hpos ih =>
    have hge : p ≤ key := by_contra fun hnot => by have := (hcmp.neg_iff key p).mpr hnot; omega
    have hlt := (le_iff_lt_countP hs hp).mp hge
    exact ih (by omega) (by omega) (by omega)
  | case5 base lim hlim p hp hzero hpos ih =>
    have hnot := mt (le_iff_lt_countP hs hp).mpr ((hcmp.neg_iff key p).mp (by omega))
    exact ih (by omega) hbase (by omega)

/-! ### The bounds -/

omit [Preorder V] [DecidableLE V] in
theorem bbfCreatePartitionTables_succ (i : Nat) : bbfCreatePartitionTables values (i + 1) =
    values[i]?.map fun lower => .range lower values[i + 1]? := by
  simp only [bbfCreatePartitionTables, setPartitionRangeBounds, Nat.add_lt_add_iff_right,
    Nat.add_one_ne_zero, if_false, Nat.add_sub_cancel]
  by_cases hi : i < values.length
  · rw [if_pos hi, getElem?_eq_getElem hi]
    by_cases hlast : i + 1 = values.length
    · simp [hlast]
    · have hlt : i + 1 < values.length := by omega
      simp [hlast, hlt]
  · simp [hi]

omit [Preorder V] [DecidableLE V] in
theorem default_iff (i : Nat) : bbfCreatePartitionTables values i = some .default ↔ i = 0 := by
  cases i with
  | zero => simp [bbfCreatePartitionTables, setPartitionRangeBounds]
  | succ i => simp [bbfCreatePartitionTables_succ]

theorem contains_iff (hs : values.Pairwise (· < ·)) (i : Nat) :
    (∃ b ∈ bbfCreatePartitionTables values i, b.Contains key) ↔
      i ≠ 0 ∧ i = values.countP (· ≤ key) := by
  have hcount : values.countP (· ≤ key) ≤ values.length := countP_le_length
  cases i with
  | zero => simp [(default_iff 0).mpr, PartitionBound.Contains]
  | succ i =>
    rw [bbfCreatePartitionTables_succ]
    constructor
    · rintro ⟨b, hb, hcontains⟩
      obtain ⟨lower, hlower, rfl⟩ := Option.map_eq_some_iff.mp hb
      have hi := (le_iff_lt_countP hs hlower).mp hcontains.1
      refine ⟨Nat.succ_ne_zero i, by_contra fun hne => ?_⟩
      have hu := getElem?_eq_getElem (show i + 1 < values.length by omega)
      exact hcontains.2 _ hu ((le_iff_lt_countP hs hu).mpr (by omega))
    · rintro ⟨-, hi⟩
      have hlower := getElem?_eq_getElem (show i < values.length by omega)
      refine ⟨_, Option.map_eq_some_iff.mpr ⟨_, hlower, rfl⟩, ?_, fun u hu => ?_⟩
      · exact (le_iff_lt_countP hs hlower).mpr (by omega)
      · exact mt (le_iff_lt_countP hs hu).mp (by omega)

theorem receives_iff (hs : values.Pairwise (· < ·)) (i : Nat) :
    Receives (bbfCreatePartitionTables values) (some key) i ↔ i = values.countP (· ≤ key) := by
  simp only [Receives, Option.mem_some_iff, exists_eq_left', forall_eq', default_iff]
  rw [contains_iff hs]
  constructor
  · rintro (⟨-, hi⟩ | ⟨rfl, hout⟩)
    · exact hi
    · refine by_contra fun hne => ?_
      obtain ⟨b, hb, hbkey⟩ := (contains_iff hs _).mpr ⟨Ne.symm hne, rfl⟩
      exact hout _ b hb hbkey
  · intro hi
    by_cases hzero : i = 0
    · refine Or.inr ⟨hzero, fun j b hb hbkey => ?_⟩
      obtain ⟨hne, hj⟩ := (contains_iff hs j).mp ⟨b, hb, hbkey⟩
      omega
    · exact Or.inl ⟨hzero, hi⟩

/-! ### Partition functions -/

variable {qsortArg : List V → List V × List (V × V)} {boundaries : List V}

omit [DecidableLE V] in
/-- **Different values are stored, and the stored values are strictly sorted.** -/
theorem execStmtPartitionFunction_eq (hcmp : Orders cmp)
    (hsort : Sorts cmp boundaries (qsortArg boundaries))
    (hdiff : boundaries.Pairwise fun a b => cmp a b ≠ 0)
    (hlen : boundaries.length < maxPartitionsLimit) :
    execStmtPartitionFunction cmp qsortArg (boundaries.map some) = .ok (qsortArg boundaries).1 ∧
      (qsortArg boundaries).1.Pairwise (· < ·) := by
  have hsymm : ∀ {a b}, cmp a b ≠ 0 → cmp b a ≠ 0 := by
    intro a b hab hba
    exact hab ((hcmp.zero_iff a b).mpr ((hcmp.zero_iff b a).mp hba).symm)
  constructor
  · have hvalues : (boundaries.map some).mapM boundaryValue = .ok boundaries := by
      rw [mapM_map]
      exact (mapM_pure (m := Except String) (f := id)).trans (by rw [map_id]; rfl)
    have hnone : ((qsortArg boundaries).2.any fun p => cmp p.1 p.2 == 0) = false := by
      rw [any_eq_false]
      intro p hp hzero
      obtain ⟨l, hl, hsub⟩ := hsort.compared p hp
      have hpair := (hl.pairwise_iff hsymm).mp (hdiff.sublist hsub)
      exact pairwise_pair.mp hpair (by simpa using hzero)
    simp only [execStmtPartitionFunction, hvalues, length_map, if_neg (not_le.mpr hlen)]
    show (if _ then _ else _) = _
    rw [hnone]
    rfl
  · refine (hsort.sorted.and ((hsort.perm.pairwise_iff hsymm).mpr hdiff)).imp ?_
    rintro a b ⟨hle, hne⟩
    have hpos : ¬ 0 < cmp a b := by omega
    rw [hcmp.pos_iff, not_not] at hpos
    exact lt_of_le_not_ge hpos ((hcmp.neg_iff a b).mp (by omega))

/-- **`$PARTITION` gives the number of the partition that receives the value**, if the partition
function has not too many boundaries. -/
theorem searchPartition_receives {sqlvariantCmp : V → V → Int} (hcmp : Orders cmp)
    (hvariant : Orders sqlvariantCmp) (qsortArg : List V → List V × List (V × V))
    (boundaries : List V) (hsort : Sorts cmp boundaries (qsortArg boundaries))
    (hdiff : boundaries.Pairwise fun a b => cmp a b ≠ 0) (value : Option V) :
    ((∃ stored, execStmtPartitionFunction cmp qsortArg (boundaries.map some) = .ok stored) ↔
      boundaries.length < maxPartitionsLimit) ∧
    ∀ stored, execStmtPartitionFunction cmp qsortArg (boundaries.map some) = .ok stored →
      searchPartition sqlvariantCmp stored value =
          some (1 + value.elim 0 fun v => boundaries.countP (· ≤ v)) ∧
        ∀ i, Receives (bbfCreatePartitionTables stored) value i ↔
          searchPartition sqlvariantCmp stored value = some (i + 1) := by
  by_cases hlen : boundaries.length < maxPartitionsLimit
  · obtain ⟨hexec, hs⟩ := execStmtPartitionFunction_eq hcmp hsort hdiff hlen
    refine ⟨⟨fun _ => hlen, fun _ => ⟨_, hexec⟩⟩, fun stored hstored => ?_⟩
    obtain rfl := Except.ok.inj (hexec.symm.trans hstored)
    cases value with
    | none => simp [searchPartition, Receives, default_iff, eq_comm]
    | some v =>
      have hfound := tsqlBsearchArg_eq hvariant hs v 0 _ (Nat.le_of_eq (Nat.zero_add _))
        (Nat.zero_le _) (countP_le_length.trans (Nat.le_add_left _ 0))
      simp only [searchPartition, hfound, receives_iff hs, Option.elim_some,
        hsort.perm.countP_eq (· ≤ v), Option.some.injEq]
      exact ⟨Nat.add_comm _ _, fun i => by omega⟩
  · have hnone : ∀ stored,
        execStmtPartitionFunction cmp qsortArg (boundaries.map some) ≠ .ok stored := by
      intro stored h
      simp only [execStmtPartitionFunction, length_map, if_pos (not_lt.mp hlen)] at h
      cases h
    simp [hnone, hlen]

end

/-- The boundaries 20 and 10, which are compared to see that they are not sorted and again to sort
them, and the value 15. -/
theorem searchPartition_receives_fifteen :
    ∃ stored, execStmtPartitionFunction (fun a b : Nat => (a - b : Int))
        (fun l => (l.reverse, [(20, 10), (20, 10)])) [some 20, some 10] = .ok stored ∧
      Receives (bbfCreatePartitionTables stored) (some 15) 1 := by
  have hcmp : Orders fun a b : Nat => (a - b : Int) := ⟨by omega, by omega⟩
  obtain ⟨hstored, hfound⟩ := searchPartition_receives hcmp hcmp
    (fun l => (l.reverse, [(20, 10), (20, 10)])) [20, 10]
    ⟨by decide, by decide, by simp [Subperm.refl]⟩ (by decide) (some 15)
  obtain ⟨stored, hexec⟩ := hstored.mpr (by decide)
  obtain ⟨hnumber, hreceives⟩ := hfound stored hexec
  exact ⟨stored, hexec, (hreceives 1).mpr (hnumber.trans (by decide))⟩

end Babelfish.Tsql.Partition
