import Mathlib.Data.Bool.Basic
import Mathlib.Tactic.SplitIfs

/-!
# Visibility of the rows of table variables

The rows of a table variable survive a rollback: a change is undone only when its transaction
failed, and failed transactions are kept in a map of their own.  The functions that decide on a row
read hint bits which earlier calls have left in its header, and set them.

* `Hinted`: what one call can do to the hint bits.
* `Reachable`: the rows, transactions and hint bits after any history.
* `hintsSound_of_reachable`: hint bits never lie.
* `mvcc_eq_visible`, `update_iff_visible`, `not_dead_of_visible`: the three functions for rows
  whose hint bits do not lie.
* `table_variable_visibility`: the decisions after any history.
-/

namespace Babelfish.Tsql.TableVariable

/-! ### Transactions and rows -/

abbrev TransactionId := UInt32

abbrev CommandId := Nat

/-- What becomes of a transaction.  A failed one is in `table_variable_failed_xid_map`; the handler
of `iterative_exec.c` puts it there while it is still the current one, and the status here changes
when it has been rolled back.  A statement without a savepoint (`EXEC`), whose transaction is put
there and goes on, is left out. -/
inductive XactStatus where
  | current
  | committed
  | rolledBack
  | failed
deriving DecidableEq, Repr

abbrev Xacts := TransactionId → XactStatus

variable {curcid : CommandId}

/-- `TransactionIdIsCurrentTransactionId` -/
def isCurrent (st : Xacts) (xid : TransactionId) : Bool := st xid == .current

/-- `TransactionIdDidCommit` -/
def didCommit (st : Xacts) (xid : TransactionId) : Bool := st xid == .committed

def findFailedTransaction (st : Xacts) (xid : TransactionId) : Bool := st xid == .failed

/-- `TransactionIdPrecedes`: modulo 2³² for normal ids, unsigned for the others. -/
def transactionIdPrecedes (id₁ id₂ : TransactionId) : Bool :=
  if id₁ < 3 ∨ id₂ < 3 then id₁ < id₂ else (id₁ - id₂).toInt32 < 0

/-- The transaction that deleted or updated a row, and its command. -/
structure Deleter where
  xid : TransactionId
  cmax : CommandId
deriving DecidableEq, Repr

/-- A row version.  `ctidIsSelf` tells whether `t_ctid` points to the row itself. -/
structure RowVersion where
  xmin : TransactionId
  cmin : CommandId
  deleter : Option Deleter
  ctidIsSelf : Bool
deriving DecidableEq, Repr

namespace RowVersion

/-- `HeapTupleHeaderGetRawXmax`, which is `InvalidTransactionId` without a deleter. -/
def rawXmax (r : RowVersion) : TransactionId := r.deleter.elim 0 Deleter.xid

/-- `HeapTupleHeaderGetCmax` -/
def cmax (r : RowVersion) : CommandId := r.deleter.elim 0 Deleter.cmax

end RowVersion

/-! ### Hint bits -/

structure HintBits where
  xminCommitted : Bool
  xminInvalid : Bool
  xmaxCommitted : Bool
  xmaxInvalid : Bool
deriving DecidableEq, Repr

inductive Hint where
  | xminCommitted
  | xminInvalid
  | xmaxCommitted
  | xmaxInvalid
deriving DecidableEq, Repr

/-- `HeapTupleSetHintBits`, which leaves the bit alone when the commit record is not yet on disk:
`allowed` says for which bits it does not. -/
def setHintBits (allowed : Hint → Bool) (hint : Hint) (b : HintBits) : HintBits :=
  if allowed hint then
    match hint with
    | .xminCommitted => { b with xminCommitted := true }
    | .xminInvalid => { b with xminInvalid := true }
    | .xmaxCommitted => { b with xmaxCommitted := true }
    | .xmaxInvalid => { b with xmaxInvalid := true }
  else b

/-- `HeapTupleHeaderXminInvalid`: of the two bits only `HEAP_XMIN_INVALID`. -/
def HintBits.headerXminInvalid (b : HintBits) : Bool := b.xminInvalid && !b.xminCommitted

/-! ### The decisions -/

section

variable (st : Xacts) (allowed : Hint → Bool) (r : RowVersion)

/-- `TVHeapTupleSatisfiesMVCC` from where the inserter is considered committed. -/
def mvccXmax (curcid : CommandId) (b : HintBits) : Bool × HintBits :=
  if b.xmaxInvalid then (true, b)
  else if b.xmaxCommitted then (false, b)
  else if isCurrent st r.rawXmax then (decide (r.cmax ≥ curcid), b)
  else if didCommit st r.rawXmax then (false, setHintBits allowed .xmaxCommitted b)
  else if findFailedTransaction st r.rawXmax then (true, setHintBits allowed .xmaxInvalid b)
  else (false, b)

/-- `TVHeapTupleSatisfiesMVCC` -/
def satisfiesMVCC (curcid : CommandId) (b : HintBits) : Bool × HintBits :=
  if b.xminCommitted then mvccXmax st allowed r curcid b
  else if b.headerXminInvalid then (false, b)
  else if isCurrent st r.xmin then
    if r.cmin ≥ curcid then (false, b)
    else if b.xmaxInvalid then (true, b)
    else if isCurrent st r.rawXmax then (decide (r.cmax ≥ curcid), b)
    else if findFailedTransaction st r.rawXmax then (true, setHintBits allowed .xmaxInvalid b)
    else mvccXmax st allowed r curcid b
  else if didCommit st r.xmin then
    mvccXmax st allowed r curcid (setHintBits allowed .xminCommitted b)
  else if findFailedTransaction st r.xmin then (false, setHintBits allowed .xminInvalid b)
  else mvccXmax st allowed r curcid b

variable (b : HintBits)

/-- `TVHeapTupleSatisfiesDirtyOrSelf` from where the inserter is considered committed. -/
def dirtyXmax : Bool × HintBits :=
  if b.xmaxInvalid then (true, b)
  else if b.xmaxCommitted then (false, b)
  else if isCurrent st r.rawXmax then (false, b)
  else if didCommit st r.rawXmax then (false, setHintBits allowed .xmaxCommitted b)
  else if findFailedTransaction st r.rawXmax then (true, setHintBits allowed .xmaxInvalid b)
  else (false, b)

/-- `TVHeapTupleSatisfiesDirtyOrSelf` -/
def satisfiesDirtyOrSelf : Bool × HintBits :=
  if b.xminCommitted then dirtyXmax st allowed r b
  else if b.headerXminInvalid then (false, b)
  else if isCurrent st r.xmin then
    if b.xmaxInvalid then (true, b)
    else if findFailedTransaction st r.rawXmax then (true, setHintBits allowed .xmaxInvalid b)
    else (false, b)
  else if didCommit st r.xmin then
    dirtyXmax st allowed r (setHintBits allowed .xminCommitted b)
  else if findFailedTransaction st r.xmin then (false, setHintBits allowed .xminInvalid b)
  else dirtyXmax st allowed r b

/-- `TVHeapTupleSatisfiesToast` -/
def satisfiesToast : Bool :=
  b.xminCommitted || (!b.headerXminInvalid && r.xmin != 0)

inductive TMResult where
  | ok
  | invisible
  | selfModified
  | updated
  | deleted
deriving DecidableEq, Repr

def deletedByOther : TMResult := if r.ctidIsSelf then .deleted else .updated

/-- `TVHeapTupleSatisfiesUpdate` from where the inserter is considered committed. -/
def updateXmax (curcid : CommandId) (b : HintBits) : TMResult × HintBits :=
  if b.xmaxInvalid then (.ok, b)
  else if b.xmaxCommitted then (deletedByOther r, b)
  else if isCurrent st r.rawXmax then
    (if r.cmax ≥ curcid then .selfModified else .invisible, b)
  else if didCommit st r.rawXmax then
    (deletedByOther r, setHintBits allowed .xmaxCommitted b)
  else if findFailedTransaction st r.rawXmax then (.ok, setHintBits allowed .xmaxInvalid b)
  else (deletedByOther r, b)

/-- `TVHeapTupleSatisfiesUpdate` -/
def satisfiesUpdate (curcid : CommandId) (b : HintBits) : TMResult × HintBits :=
  if b.xminCommitted then updateXmax st allowed r curcid b
  else if b.headerXminInvalid then (.invisible, b)
  else if isCurrent st r.xmin then
    if r.cmin ≥ curcid then (.invisible, b)
    else if b.xmaxInvalid then (.ok, b)
    else if findFailedTransaction st r.rawXmax then (.ok, setHintBits allowed .xmaxInvalid b)
    else (if r.cmax ≥ curcid then .selfModified else .invisible, b)
  else if didCommit st r.xmin then
    updateXmax st allowed r curcid (setHintBits allowed .xminCommitted b)
  else if findFailedTransaction st r.xmin then (.invisible, setHintBits allowed .xminInvalid b)
  else updateXmax st allowed r curcid b

/-- `HTSV_Result`, as far as it occurs here; a recently dead row comes with `dead_after`. -/
inductive HTSVResult where
  | dead
  | live
  | recentlyDead (deadAfter : TransactionId)
deriving DecidableEq, Repr

/-- `TVHeapTupleSatisfiesVacuumHorizon` from where the inserter is considered committed. -/
def vacuumXmax : HTSVResult × HintBits :=
  if b.xmaxInvalid then (.live, b)
  else if b.xmaxCommitted then (.recentlyDead r.rawXmax, b)
  else if didCommit st r.rawXmax then
    (.recentlyDead r.rawXmax, setHintBits allowed .xmaxCommitted b)
  else if findFailedTransaction st r.rawXmax then (.live, setHintBits allowed .xmaxInvalid b)
  else (.recentlyDead r.rawXmax, b)

/-- `TVHeapTupleSatisfiesVacuumHorizon` -/
def satisfiesVacuumHorizon : HTSVResult × HintBits :=
  if b.xminCommitted then vacuumXmax st allowed r b
  else if b.headerXminInvalid then (.dead, b)
  else if isCurrent st r.xmin then
    if b.xmaxInvalid then (.live, b)
    else if isCurrent st r.rawXmax then (.recentlyDead r.rawXmax, b)
    else if findFailedTransaction st r.rawXmax then (.live, b)
    else vacuumXmax st allowed r b
  else if didCommit st r.xmin then
    vacuumXmax st allowed r (setHintBits allowed .xminCommitted b)
  else if findFailedTransaction st r.xmin then (.dead, setHintBits allowed .xminInvalid b)
  else vacuumXmax st allowed r b

/-- A recently dead row is dead when its deleter can be removed. -/
def HTSVResult.settle (removable : TransactionId → Bool) : HTSVResult → HTSVResult
  | .recentlyDead deadAfter => if removable deadAfter then .dead else .recentlyDead deadAfter
  | res => res

/-- `TVHeapTupleSatisfiesVacuum` -/
def satisfiesVacuum (oldestXmin : TransactionId) (b : HintBits) : HTSVResult × HintBits :=
  let (res, b') := satisfiesVacuumHorizon st allowed r b
  (res.settle fun xid => transactionIdPrecedes xid oldestXmin, b')

/-- `TVHeapTupleSatisfiesNonVacuumable`.  `GlobalVisTestIsRemovableXid` is a function of
PostgreSQL. -/
def satisfiesNonVacuumable (removable : TransactionId → Bool) (b : HintBits) :
    Bool × HintBits :=
  let (res, b') := satisfiesVacuumHorizon st allowed r b
  (res.settle removable != .dead, b')

end

/-! ### What a row version is to look like -/

/-- **The visible row versions**: the inserter has not failed and, if it is the current
transaction, inserted before the command of the snapshot; and there is no deleter, or it has failed,
or it is the current transaction with a command not before that of the snapshot. -/
def Visible (st : Xacts) (curcid : CommandId) (r : RowVersion) : Prop :=
  st r.xmin ≠ .failed ∧ (st r.xmin = .current → r.cmin < curcid) ∧
    ∀ d, r.deleter = some d → st d.xid = .failed ∨ (st d.xid = .current ∧ curcid ≤ d.cmax)

/-- **Hint bits that do not lie.** -/
structure HintsSound (st : Xacts) (r : RowVersion) (b : HintBits) : Prop where
  xminCommitted : b.xminCommitted = true → st r.xmin = .committed
  xminInvalid : b.xminInvalid = true → st r.xmin = .failed
  xmaxCommitted : b.xmaxCommitted = true → ∃ d, r.deleter = some d ∧ st d.xid = .committed
  xmaxInvalid : b.xmaxInvalid = true → ∀ d, r.deleter = some d → st d.xid = .failed
  undeleted : r.deleter = none → b.xmaxInvalid = true

/-! ### What one call does to the hint bits -/

/-- **What one call can do to the hint bits**: a bit that is set afterwards was set before, or its
transaction has come to the end that the bit tells of. -/
structure Hinted (st : Xacts) (r : RowVersion) (b b' : HintBits) : Prop where
  xminCommitted : b'.xminCommitted = true → b.xminCommitted = true ∨ st r.xmin = .committed
  xminInvalid : b'.xminInvalid = true → b.xminInvalid = true ∨ st r.xmin = .failed
  xmaxCommitted : b'.xmaxCommitted = true →
    b.xmaxCommitted = true ∨ (b.xmaxInvalid = false ∧ st r.rawXmax = .committed)
  xmaxInvalid : b'.xmaxInvalid = true → b.xmaxInvalid = true ∨ st r.rawXmax = .failed
  keeps : b.xmaxInvalid = true → b'.xmaxInvalid = true

section

variable {st : Xacts} {allowed : Hint → Bool} {r : RowVersion} {b b' b'' : HintBits}
  {α : Type} {xmax : HintBits → α × HintBits}

theorem Hinted.refl : Hinted st r b b := ⟨.inl, .inl, .inl, .inl, id⟩

theorem Hinted.of_allowed {hint : Hint} (h : Hinted st r b (setHintBits (fun _ => true) hint b)) :
    Hinted st r b (setHintBits allowed hint b) := by
  unfold setHintBits at h ⊢
  split_ifs
  · exact h
  · exact .refl

theorem Hinted.setXminCommitted (h : didCommit st r.xmin = true) :
    Hinted st r b (setHintBits allowed .xminCommitted b) :=
  .of_allowed ⟨fun _ => .inr (by simpa [didCommit] using h), .inl, .inl, .inl, id⟩

theorem Hinted.setXminInvalid (h : findFailedTransaction st r.xmin = true) :
    Hinted st r b (setHintBits allowed .xminInvalid b) :=
  .of_allowed ⟨.inl, fun _ => .inr (by simpa [findFailedTransaction] using h), .inl, .inl, id⟩

theorem Hinted.setXmaxCommitted (hb : ¬ b.xmaxInvalid = true) (h : didCommit st r.rawXmax = true) :
    Hinted st r b (setHintBits allowed .xmaxCommitted b) := by
  have h : st r.rawXmax = .committed := by simpa [didCommit] using h
  exact .of_allowed
    ⟨.inl, .inl, fun _ => .inr ⟨Bool.eq_false_of_not_eq_true hb, h⟩, .inl, id⟩

theorem Hinted.setXmaxInvalid (h : findFailedTransaction st r.rawXmax = true) :
    Hinted st r b (setHintBits allowed .xmaxInvalid b) := by
  have h : st r.rawXmax = .failed := by simpa [findFailedTransaction] using h
  exact .of_allowed ⟨.inl, .inl, .inl, fun _ => .inr h, fun _ => rfl⟩

theorem Hinted.trans (h : Hinted st r b b') (h' : Hinted st r b' b'') : Hinted st r b b'' where
  xminCommitted hb := (h'.xminCommitted hb).elim h.xminCommitted .inr
  xminInvalid hb := (h'.xminInvalid hb).elim h.xminInvalid .inr
  xmaxCommitted hb := by
    rcases h'.xmaxCommitted hb with hb | ⟨hb, hx⟩
    · exact h.xmaxCommitted hb
    · refine .inr ⟨Bool.eq_false_of_not_eq_true fun ht => ?_, hx⟩
      rw [h.keeps ht] at hb
      cases hb
  xmaxInvalid hb := (h'.xmaxInvalid hb).elim h.xmaxInvalid .inr
  keeps hb := h'.keeps (h.keeps hb)

/-- The part of three of the functions that looks at the deleter. -/
theorem hinted_xmax {x₁ x₂ x₃ x₄ x₅ x₆ : α} :
    Hinted st r b
      (if b.xmaxInvalid then (x₁, b)
        else if b.xmaxCommitted then (x₂, b)
        else if isCurrent st r.rawXmax then (x₃, b)
        else if didCommit st r.rawXmax then (x₄, setHintBits allowed .xmaxCommitted b)
        else if findFailedTransaction st r.rawXmax then (x₅, setHintBits allowed .xmaxInvalid b)
        else (x₆, b)).2 := by
  split_ifs
  all_goals first
    | exact .refl
    | exact .setXmaxCommitted ‹_› ‹_›
    | exact .setXmaxInvalid ‹_›

theorem hinted_vacuumXmax : Hinted st r b (vacuumXmax st allowed r b).2 := by
  unfold vacuumXmax
  split_ifs
  all_goals first
    | exact .refl
    | exact .setXmaxCommitted ‹_› ‹_›
    | exact .setXmaxInvalid ‹_›

/-- The part of the four functions before the deleter is looked at. -/
def xminThen {α : Type} (st : Xacts) (allowed : Hint → Bool) (r : RowVersion) (b : HintBits)
    (xmax : HintBits → α × HintBits) (inProgress : α × HintBits) (dead : α) : α × HintBits :=
  if b.xminCommitted then xmax b
  else if b.headerXminInvalid then (dead, b)
  else if isCurrent st r.xmin then inProgress
  else if didCommit st r.xmin then xmax (setHintBits allowed .xminCommitted b)
  else if findFailedTransaction st r.xmin then (dead, setHintBits allowed .xminInvalid b)
  else xmax b

theorem hinted_xminThen {inProgress : α × HintBits}
    {dead : α} (hxmax : ∀ b, Hinted st r b (xmax b).2) (hprogress : Hinted st r b inProgress.2) :
    Hinted st r b (xminThen st allowed r b xmax inProgress dead).2 := by
  unfold xminThen
  split_ifs with _ _ _ hcommit hfail
  · exact hxmax b
  · exact .refl
  · exact hprogress
  · exact (Hinted.setXminCommitted hcommit).trans (hxmax _)
  · exact .setXminInvalid hfail
  · exact hxmax b

theorem hinted_satisfiesMVCC : Hinted st r b (satisfiesMVCC st allowed r curcid b).2 := by
  apply hinted_xminThen fun _ => hinted_xmax
  split_ifs
  all_goals first
    | exact .refl
    | exact .setXmaxInvalid ‹_›
    | exact hinted_xmax

theorem hinted_satisfiesDirtyOrSelf : Hinted st r b (satisfiesDirtyOrSelf st allowed r b).2 := by
  apply hinted_xminThen fun _ => hinted_xmax
  split_ifs
  all_goals first
    | exact .refl
    | exact .setXmaxInvalid ‹_›

theorem hinted_satisfiesUpdate : Hinted st r b (satisfiesUpdate st allowed r curcid b).2 := by
  apply hinted_xminThen fun _ => hinted_xmax
  split_ifs
  all_goals first
    | exact .refl
    | exact .setXmaxInvalid ‹_›

theorem hinted_satisfiesVacuumHorizon :
    Hinted st r b (satisfiesVacuumHorizon st allowed r b).2 := by
  apply hinted_xminThen fun _ => hinted_vacuumXmax
  split_ifs
  all_goals first
    | exact .refl
    | exact hinted_vacuumXmax

theorem HintsSound.hinted (h : HintsSound st r b) (hb : Hinted st r b b') : HintsSound st r b' where
  xminCommitted hx := (hb.xminCommitted hx).elim h.xminCommitted id
  xminInvalid hx := (hb.xminInvalid hx).elim h.xminInvalid id
  xmaxCommitted hx := by
    rcases hb.xmaxCommitted hx with hx | ⟨hinv, hst⟩
    · exact h.xmaxCommitted hx
    · cases hd : r.deleter with
      | none =>
        rw [h.undeleted hd] at hinv
        cases hinv
      | some d => exact ⟨d, rfl, by simpa [RowVersion.rawXmax, hd] using hst⟩
  xmaxInvalid hx d hd := by
    rcases hb.xmaxInvalid hx with hx | hst
    · exact h.xmaxInvalid hx d hd
    · simpa [RowVersion.rawXmax, hd] using hst
  undeleted hd := hb.keeps (h.undeleted hd)

end

/-! ### The decisions when the hint bits do not lie -/

/-- The deletion of a row version does not count: there is none, or the deleter has failed, or it is
the current transaction with a command not before that of the snapshot. -/
def NotDeleted (st : Xacts) (curcid : CommandId) (r : RowVersion) : Prop :=
  ∀ d, r.deleter = some d → st d.xid = .failed ∨ (st d.xid = .current ∧ curcid ≤ d.cmax)

section

variable {st : Xacts} {r : RowVersion} {b : HintBits} {d : Deleter}

theorem HintsSound.deleter_cases (h : HintsSound st r b) :
    (b.xmaxInvalid = true ∧ ∀ curcid, NotDeleted st curcid r) ∨
      ∃ d, r.deleter = some d ∧ r.rawXmax = d.xid ∧ r.cmax = d.cmax ∧
        (∀ curcid, NotDeleted st curcid r ↔
          st d.xid = .failed ∨ (st d.xid = .current ∧ curcid ≤ d.cmax)) ∧
        (b.xmaxInvalid = true → st d.xid = .failed) ∧
        (b.xmaxCommitted = true → st d.xid = .committed) := by
  have hcom := h.xmaxCommitted
  cases hd : r.deleter with
  | none => exact .inl ⟨h.undeleted hd, by simp [NotDeleted, hd]⟩
  | some d =>
    rw [hd] at hcom
    exact .inr ⟨d, rfl, by rw [RowVersion.rawXmax, hd]; rfl, by rw [RowVersion.cmax, hd]; rfl,
      by simp [NotDeleted, hd], fun hx => h.xmaxInvalid hx d hd, by simpa using hcom⟩

theorem visible_iff (hfail : st r.xmin ≠ .failed) (hcur : st r.xmin = .current → r.cmin < curcid) :
    Visible st curcid r ↔ NotDeleted st curcid r :=
  ⟨fun hv => hv.2.2, fun hn => ⟨hfail, hcur, hn⟩⟩

variable (h : HintsSound st r b) (allowed : Hint → Bool)

include h

theorem mvccXmax_iff (curcid : CommandId) :
    (mvccXmax st allowed r curcid b).1 = true ↔ NotDeleted st curcid r := by
  rcases h.deleter_cases with ⟨hinv, hn⟩ | ⟨d, -, hxid, hcmax, hn, hinv, hcom⟩
  · simp [mvccXmax, hinv, hn]
  · rw [mvccXmax, hxid, hcmax, hn]
    cases hi : b.xmaxInvalid <;> cases hc : b.xmaxCommitted <;> cases hst : st d.xid <;>
      simp_all [isCurrent, didCommit, findFailedTransaction]

theorem updateXmax_iff : ((updateXmax st allowed r curcid b).1 = .ok ∨
      (updateXmax st allowed r curcid b).1 = .selfModified) ↔ NotDeleted st curcid r := by
  have hother : deletedByOther r ≠ .ok ∧ deletedByOther r ≠ .selfModified := by
    unfold deletedByOther
    split <;> decide
  rcases h.deleter_cases with ⟨hinv, hn⟩ | ⟨d, -, hxid, hcmax, hn, hinv, hcom⟩
  · simp [updateXmax, hinv, hn]
  · rw [updateXmax, hxid, hcmax, hn]
    by_cases hcur : curcid ≤ d.cmax <;> simp only [hcur, if_true, if_false] <;>
      cases hi : b.xmaxInvalid <;> cases hc : b.xmaxCommitted <;> cases hst : st d.xid <;>
      simp_all [isCurrent, didCommit, findFailedTransaction]

/-- A row version that is not deleted is live, or recently dead through the current transaction. -/
theorem vacuumXmax_of_notDeleted (hn : NotDeleted st curcid r) :
    (vacuumXmax st allowed r b).1 = .live ∨
      ∃ xid, (vacuumXmax st allowed r b).1 = .recentlyDead xid ∧ st xid = .current := by
  rcases h.deleter_cases with ⟨hinv, -⟩ | ⟨d, -, hxid, -, hn', -, hcom⟩
  · simp [vacuumXmax, hinv]
  · rw [hn'] at hn
    rw [vacuumXmax, hxid]
    cases hi : b.xmaxInvalid <;> cases hc : b.xmaxCommitted <;> cases hst : st d.xid <;>
      simp_all [didCommit, findFailedTransaction]

omit allowed in
theorem xmin_cases {α : Type} {allowed : Hint → Bool} {xmax : HintBits → α × HintBits}
    {inProgress out : α × HintBits} {dead : α}
    (hout : out = xminThen st allowed r b xmax inProgress dead) :
    (st r.xmin = .failed ∧ out.1 = dead) ∨ (st r.xmin = .current ∧ out = inProgress) ∨
      (st r.xmin ≠ .failed ∧ st r.xmin ≠ .current ∧ ∃ b', HintsSound st r b' ∧ out = xmax b') := by
  subst hout
  have hcom := h.xminCommitted
  have hinv := h.xminInvalid
  unfold xminThen
  split_ifs with hc hi hcur hcommit hfail
  · exact .inr (.inr ⟨by simp [hcom hc], by simp [hcom hc], b, h, rfl⟩)
  · rw [HintBits.headerXminInvalid, Bool.and_eq_true] at hi
    exact .inl ⟨hinv hi.1, rfl⟩
  · exact .inr (.inl ⟨by simpa [isCurrent] using hcur, rfl⟩)
  · have hst : st r.xmin = .committed := by simpa [didCommit] using hcommit
    exact .inr (.inr ⟨by simp [hst], by simp [hst], _, h.hinted (.setXminCommitted hcommit), rfl⟩)
  · exact .inl ⟨by simpa [findFailedTransaction] using hfail, rfl⟩
  · refine .inr (.inr ⟨?_, ?_, b, h, rfl⟩)
    · simpa [findFailedTransaction] using hfail
    · simpa [isCurrent] using hcur

/-- A row of the current transaction: its deleter is looked at in another order. -/
theorem mvccCurrent_iff : (if b.xmaxInvalid then (true, b)
      else if isCurrent st r.rawXmax then (decide (r.cmax ≥ curcid), b)
      else if findFailedTransaction st r.rawXmax then (true, setHintBits allowed .xmaxInvalid b)
      else mvccXmax st allowed r curcid b).1 = true ↔ NotDeleted st curcid r := by
  have hxmax := mvccXmax_iff h allowed curcid
  rcases h.deleter_cases with ⟨hinv, hn⟩ | ⟨d, -, hxid, hcmax, hn, hinv, -⟩
  · simp [hinv, hn]
  · rw [hn] at hxmax ⊢
    rw [hxid, hcmax]
    cases hi : b.xmaxInvalid <;> cases hst : st d.xid <;>
      simp_all [isCurrent, findFailedTransaction]

/-- The same for an update, where a deleter that has finished is told by its command. -/
theorem updateCurrent_iff
    (hfinished : ∀ d, r.deleter = some d → st d.xid ≠ .current → d.cmax < curcid)
    {out : TMResult × HintBits} (hout : out = if b.xmaxInvalid then (.ok, b)
      else if findFailedTransaction st r.rawXmax then (.ok, setHintBits allowed .xmaxInvalid b)
      else (if r.cmax ≥ curcid then .selfModified else .invisible, b)) :
    (out.1 = .ok ∨ out.1 = .selfModified) ↔ NotDeleted st curcid r := by
  subst hout
  rcases h.deleter_cases with ⟨hinv, hn⟩ | ⟨d, hd, hxid, hcmax, hn, hinv, -⟩
  · simp [hinv, hn]
  · have hfin := hfinished d hd
    rw [hn, hxid, hcmax]
    by_cases hcur : d.cmax ≥ curcid
    · rw [if_pos hcur]
      have hst : st d.xid = .current := by
        by_contra hne
        exact absurd (hfin hne) (Nat.not_lt.mpr hcur)
      cases hi : b.xmaxInvalid <;> simp_all [findFailedTransaction]
    · rw [if_neg hcur]
      cases hi : b.xmaxInvalid <;> cases hst : st d.xid <;> simp_all [findFailedTransaction]

/-- **`TVHeapTupleSatisfiesMVCC` finds the visible row versions.** -/
theorem mvcc_eq_visible : (satisfiesMVCC st allowed r curcid b).1 = true ↔ Visible st curcid r := by
  rcases xmin_cases h (satisfiesMVCC.eq_1 st allowed r curcid b) with
    ⟨hst, hdead⟩ | ⟨hst, hout⟩ | ⟨hfail, hcur, b', hb', hout⟩
  · simp [Visible, hst, hdead]
  · rw [hout]
    by_cases hcmin : r.cmin ≥ curcid
    · rw [if_pos hcmin]
      simp only [Bool.false_eq_true, false_iff]
      exact fun hv => Nat.not_lt.mpr hcmin (hv.2.1 hst)
    · rw [if_neg hcmin, mvccCurrent_iff h, visible_iff (by simp [hst]) fun _ => Nat.not_le.mp hcmin]
  · rw [hout, mvccXmax_iff hb', visible_iff hfail fun hst => absurd hst hcur]

/-- **`TVHeapTupleSatisfiesUpdate` is ok or self-modified for the visible row versions.** -/
theorem update_iff_visible
    (hfinished : ∀ d, r.deleter = some d → st d.xid ≠ .current → d.cmax < curcid) :
    ((satisfiesUpdate st allowed r curcid b).1 = .ok ∨
      (satisfiesUpdate st allowed r curcid b).1 = .selfModified) ↔ Visible st curcid r := by
  rcases xmin_cases h (satisfiesUpdate.eq_1 st allowed r curcid b) with
    ⟨hst, hdead⟩ | ⟨hst, heq⟩ | ⟨hfail, hcur, b', hb', hout⟩
  · simp [Visible, hst, hdead]
  · by_cases hcmin : r.cmin ≥ curcid
    · rw [if_pos hcmin] at heq
      rw [heq]
      simp only [reduceCtorEq, or_self, false_iff]
      exact fun hv => Nat.not_lt.mpr hcmin (hv.2.1 hst)
    · rw [if_neg hcmin] at heq
      rw [updateCurrent_iff h allowed hfinished heq,
        visible_iff (by simp [hst]) fun _ => Nat.not_le.mp hcmin]
  · rw [hout, updateXmax_iff hb', visible_iff hfail fun hst => absurd hst hcur]

theorem horizon_of_visible (hv : Visible st curcid r) :
    (satisfiesVacuumHorizon st allowed r b).1 = .live ∨
      ∃ xid, (satisfiesVacuumHorizon st allowed r b).1 = .recentlyDead xid ∧ st xid = .current := by
  obtain ⟨hfailed, -, hn⟩ := hv
  rcases xmin_cases h (satisfiesVacuumHorizon.eq_1 st allowed r b) with
    ⟨hst, -⟩ | ⟨hst, hout⟩ | ⟨-, -, b', hb', hout⟩
  · exact absurd hst hfailed
  · rw [hout]
    split_ifs with hi hcur hfail
    · exact .inl rfl
    · exact .inr ⟨r.rawXmax, rfl, by simpa [isCurrent] using hcur⟩
    · exact .inl rfl
    · exact vacuumXmax_of_notDeleted h allowed hn
  · rw [hout]
    exact vacuumXmax_of_notDeleted hb' allowed hn

/-- **`TVHeapTupleSatisfiesVacuum` declares no visible row version dead**, unless the horizon is
after the current transaction. -/
theorem not_dead_of_visible {oldestXmin : TransactionId}
    (holdest : ∀ xid, st xid = .current → transactionIdPrecedes xid oldestXmin = false)
    (hv : Visible st curcid r) : (satisfiesVacuum st allowed r oldestXmin b).1 ≠ .dead := by
  have hres : (satisfiesVacuum st allowed r oldestXmin b).1 =
      (satisfiesVacuumHorizon st allowed r b).1.settle
        fun xid => transactionIdPrecedes xid oldestXmin := rfl
  rw [hres]
  rcases horizon_of_visible h allowed hv with hlive | ⟨xid, hrecent, hcur⟩
  · rw [hlive]
    exact HTSVResult.noConfusion
  · rw [hrecent, HTSVResult.settle, holdest xid hcur]
    simp

end

/-! ### Any history -/

/-- A call of one of the visibility functions. -/
inductive Call where
  | mvcc (curcid : CommandId)
  | dirtyOrSelf
  | toast
  | nonVacuumable (removable : TransactionId → Bool)
  | update (curcid : CommandId)
  | vacuum (oldestXmin : TransactionId)

def Call.hintBits (call : Call) (st : Xacts) (allowed : Hint → Bool) (r : RowVersion)
    (b : HintBits) : HintBits :=
  match call with
  | .mvcc curcid => (satisfiesMVCC st allowed r curcid b).2
  | .dirtyOrSelf => (satisfiesDirtyOrSelf st allowed r b).2
  | .toast => b
  | .nonVacuumable removable => (satisfiesNonVacuumable st allowed r removable b).2
  | .update curcid => (satisfiesUpdate st allowed r curcid b).2
  | .vacuum oldestXmin => (satisfiesVacuum st allowed r oldestXmin b).2

theorem Call.hinted (call : Call) {st : Xacts} {allowed : Hint → Bool} {r : RowVersion}
    {b : HintBits} : Hinted st r b (call.hintBits st allowed r b) := by
  cases call with
  | mvcc curcid => exact hinted_satisfiesMVCC
  | dirtyOrSelf => exact hinted_satisfiesDirtyOrSelf
  | toast => exact .refl
  | nonVacuumable removable => exact hinted_satisfiesVacuumHorizon
  | update curcid => exact hinted_satisfiesUpdate
  | vacuum oldestXmin => exact hinted_satisfiesVacuumHorizon

/-- **The histories of a row version.**  The current transaction inserts it without hint bits but
for `HEAP_XMAX_INVALID`; then, in any order, visibility functions are called, a current transaction
deletes or updates it, which clears the bits of the deleter, and transactions finish. -/
inductive Reachable : Xacts → RowVersion → HintBits → Prop
  | inserted (st : Xacts) (xmin : TransactionId) (cmin : CommandId) (self : Bool)
      (h : st xmin = .current) : Reachable st ⟨xmin, cmin, none, self⟩ ⟨false, false, false, true⟩
  | called {st : Xacts} {r : RowVersion} {b : HintBits} (h : Reachable st r b) (call : Call)
      (allowed : Hint → Bool) : Reachable st r (call.hintBits st allowed r b)
  | deleted {st : Xacts} {r : RowVersion} {b : HintBits} (h : Reachable st r b) (d : Deleter)
      (self : Bool) (hd : st d.xid = .current) :
      Reachable st { r with deleter := some d, ctidIsSelf := self }
        { b with xmaxCommitted := false, xmaxInvalid := false }
  | passes {st : Xacts} {r : RowVersion} {b : HintBits} (h : Reachable st r b) (st' : Xacts)
      (hxmin : st r.xmin ≠ .current → st' r.xmin = st r.xmin)
      (hxmax : ∀ d, r.deleter = some d → st d.xid ≠ .current → st' d.xid = st d.xid) :
      Reachable st' r b

/-- **Hint bits never lie**, after any history. -/
theorem hintsSound_of_reachable {st : Xacts} {r : RowVersion} {b : HintBits}
    (h : Reachable st r b) : HintsSound st r b := by
  induction h with
  | inserted st xmin cmin self h => exact ⟨by simp, by simp, by simp, by simp, by simp⟩
  | called _ call allowed ih => exact ih.hinted call.hinted
  | deleted _ d self hd ih =>
    exact ⟨ih.xminCommitted, ih.xminInvalid, by simp, by simp, by simp⟩
  | @passes st r b _ st' hxmin hxmax ih =>
    -- the bits tell of transactions that have finished, and these stay as they are
    refine ⟨?_, ?_, ?_, ?_, ih.undeleted⟩
    · intro hb
      rw [hxmin (by simp [ih.xminCommitted hb]), ih.xminCommitted hb]
    · intro hb
      rw [hxmin (by simp [ih.xminInvalid hb]), ih.xminInvalid hb]
    · intro hb
      obtain ⟨d, hd, hst⟩ := ih.xmaxCommitted hb
      exact ⟨d, hd, by rw [hxmax d hd (by simp [hst]), hst]⟩
    · intro hb d hd
      have hst := ih.xmaxInvalid hb d hd
      rw [hxmax d hd (by simp [hst]), hst]

/-- **The decisions on the rows of table variables**, after any history of a row version.  The MVCC
decision finds the visible row versions, and is the same whatever hint bits the calls of the history
have left; the decision for updates is ok or self-modified for these; and no visible row version is
declared dead when the oldest running transaction is not after the current one. -/
theorem table_variable_visibility {st : Xacts} {r : RowVersion} {b : HintBits}
    (h : Reachable st r b) (allowed : Hint → Bool) (curcid : CommandId)
    (oldestXmin : TransactionId) :
    ((satisfiesMVCC st allowed r curcid b).1 = true ↔ Visible st curcid r) ∧
    (∀ b' allowed', Reachable st r b' →
      (satisfiesMVCC st allowed' r curcid b').1 = (satisfiesMVCC st allowed r curcid b).1) ∧
    ((∀ d, r.deleter = some d → st d.xid ≠ .current → d.cmax < curcid) →
      (((satisfiesUpdate st allowed r curcid b).1 = .ok ∨
        (satisfiesUpdate st allowed r curcid b).1 = .selfModified) ↔ Visible st curcid r)) ∧
    ((∀ xid, st xid = .current → transactionIdPrecedes xid oldestXmin = false) →
      Visible st curcid r → (satisfiesVacuum st allowed r oldestXmin b).1 ≠ .dead) := by
  have hs := hintsSound_of_reachable h
  refine ⟨mvcc_eq_visible hs allowed, ?_, update_iff_visible hs allowed,
    not_dead_of_visible hs allowed⟩
  intro b' allowed' h'
  rw [Bool.eq_iff_iff, mvcc_eq_visible (hintsSound_of_reachable h'), mvcc_eq_visible hs]

/-- A row inserted by transaction 10, which is still running, and deleted by its subtransaction
11, which has failed: it is visible, also when an earlier call has set `HEAP_XMAX_INVALID`. -/
theorem visible_after_failed_delete :
    (satisfiesMVCC (fun x => if x = 11 then .failed else .current) (fun _ => true)
      ⟨10, 0, some ⟨11, 1⟩, true⟩ 2 ⟨false, false, false, true⟩).1 = true := by
  let before : Xacts := fun _ => .current
  let after : Xacts := fun x => if x = 11 then .failed else .current
  have hdel : Reachable before ⟨10, 0, some ⟨11, 1⟩, true⟩ ⟨false, false, false, false⟩ :=
    (Reachable.inserted before 10 0 true rfl).deleted ⟨11, 1⟩ true rfl
  have hfail : Reachable after ⟨10, 0, some ⟨11, 1⟩, true⟩ ⟨false, false, false, false⟩ :=
    hdel.passes after (by simp [before]) (by simp [before])
  have hcall : Reachable after ⟨10, 0, some ⟨11, 1⟩, true⟩ ⟨false, false, false, true⟩ :=
    hfail.called (.update 2) fun _ => true
  refine (table_variable_visibility hcall (fun _ => true) 2 10).1.mpr ⟨by decide, by decide, ?_⟩
  rintro d hd
  cases hd
  exact .inl rfl

end Babelfish.Tsql.TableVariable
