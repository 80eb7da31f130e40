import Mathlib.Data.List.Basic

/-!
# The identity values of nested scopes

`pltsql_identity.c` keeps the last identity value of the session as a pointer into a hash
table, and those of the scopes on a stack of copies.  A scope that generates no value has no
entry there: entering a scope only counts a level up, and leaving one pops the top entry only
when it is of the level being left.

`Scopes` is what the stack stands for: the running activations, each with the value generated
last directly in it.  `Follows` ties the code's state to it, and `lastScopeIdentityValue_run`
says what the two functions return after every properly nested run.
-/

namespace Babelfish.Tsql.ScopeIdentity

/-! ### The code -/

/-- An entry of the hash table. -/
structure SeqTableIdentityData where
  relid : Nat
  lastIdentityValid : Bool
  lastIdentity : Int

/-- An element of the stack; its `prev` is the rest of the list. -/
structure ScopeIdentityStack where
  nestLevel : Int
  lastUsedSeqIdentityInScope : SeqTableIdentityData

/-- The static variables of the file.  The entries of the hash table do not move, so the
pointer `last_used_seq_identity` is the key of the entry it points to. -/
structure State where
  seqhashtabidentity : Nat → Option SeqTableIdentityData
  lastUsedSeqIdentity : Option Nat
  lastUsedScopeSeqIdentity : List ScopeIdentityStack
  pltsqlScopeIdentityNestLevel : Int

def State.init : State := ⟨fun _ => none, none, [], 0⟩

/-- The test the three functions on the stack make: its top, if there is one and it is of the
current level, and what is below. -/
def State.top (s : State) : Option (ScopeIdentityStack × List ScopeIdentityStack) :=
  match s.lastUsedScopeSeqIdentity with
  | [] => none
  | top :: prev =>
    if top.nestLevel = s.pltsqlScopeIdentityNestLevel then some (top, prev) else none

def updateScopeIdentityStack (elm : SeqTableIdentityData) (s : State) : State :=
  match s.top with
  | some (top, prev) =>
    { s with
      lastUsedScopeSeqIdentity := { top with lastUsedSeqIdentityInScope := elm } :: prev }
  | none =>
    { s with
      lastUsedScopeSeqIdentity :=
        ⟨s.pltsqlScopeIdentityNestLevel, elm⟩ :: s.lastUsedScopeSeqIdentity }

def updateLastIdentity (seqid : Nat) (val : Int) (s : State) : State :=
  let elm : SeqTableIdentityData := ⟨seqid, true, val⟩
  updateScopeIdentityStack elm
    { s with
      seqhashtabidentity := fun k => if k = seqid then some elm else s.seqhashtabidentity k
      lastUsedSeqIdentity := some seqid }

inductive Error where
  | lastIdentityNotYetDefined
  | lastScopeIdentityNotYetDefined
  | lastIdentityNotValid

/-- `searchSysCacheExists` says which relations exist. -/
def lastIdentityValue (searchSysCacheExists : Nat → Bool) (s : State) : Except Error Int :=
  match s.lastUsedSeqIdentity.bind s.seqhashtabidentity with
  | none => .error .lastIdentityNotYetDefined
  | some elm =>
    if !searchSysCacheExists elm.relid then .error .lastIdentityNotYetDefined
    else if !elm.lastIdentityValid then .error .lastIdentityNotValid
    else .ok elm.lastIdentity

def lastScopeIdentityValue (searchSysCacheExists : Nat → Bool) (s : State) : Except Error Int :=
  match s.top with
  | none => .error .lastScopeIdentityNotYetDefined
  | some (top, _) =>
    let curr := top.lastUsedSeqIdentityInScope
    if curr.relid = 0 || !searchSysCacheExists curr.relid then
      .error .lastScopeIdentityNotYetDefined
    else if !curr.lastIdentityValid then .error .lastIdentityNotValid
    else .ok curr.lastIdentity

def newScopeIdentityNestLevel (s : State) : Int × State :=
  let level := s.pltsqlScopeIdentityNestLevel + 1
  (level, { s with pltsqlScopeIdentityNestLevel := level })

def revertLastScopeIdentity (nestLevel : Int) (s : State) : State :=
  match s.top with
  | none => { s with pltsqlScopeIdentityNestLevel := nestLevel - 1 }
  | some (_, prev) =>
    { s with
      pltsqlScopeIdentityNestLevel := nestLevel - 1
      lastUsedScopeSeqIdentity := prev }

abbrev Sequence (live : Nat → Bool) := { seqid : Nat // seqid ≠ 0 ∧ live seqid = true }

/-- A sequence and a value of it. -/
abbrev Identity (live : Nat → Bool) := Sequence live × Int

variable {live : Nat → Bool}

inductive Event (live : Nat → Bool) where
  | enter
  | leave
  | generate (seq : Sequence live) (val : Int)

/-- One event.  The levels are the callers' `scope_level` variables, the innermost first: a
scope is left, also in the `PG_FINALLY` of an error, with the level its entry returned.  There
is no step that leaves a scope which was not entered. -/
def step : State × List Int → Event live → Option (State × List Int)
  | (s, levels), .enter =>
    let (level, s') := newScopeIdentityNestLevel s
    some (s', level :: levels)
  | (s, level :: levels), .leave => some (revertLastScopeIdentity level s, levels)
  | (_, []), .leave => none
  | (s, levels), .generate seq val => some (updateLastIdentity seq val s, levels)

def run (w : State × List Int) (events : List (Event live)) : Option (State × List Int) :=
  events.foldlM step w

/-! ### The running activations -/

/-- The running activations, each with the identity generated last directly in it, and the
identity generated last in the session. -/
structure Scopes (live : Nat → Bool) where
  current : Option (Identity live)
  outer : List (Option (Identity live))
  session : Option (Identity live)

def Scopes.init : Scopes live := ⟨none, [], none⟩

def Scopes.step (a : Scopes live) : Event live → Scopes live
  | .enter => { a with current := none, outer := a.current :: a.outer }
  | .leave => { a with current := a.outer.head?.join, outer := a.outer.tail }
  | .generate seq val => { a with current := some (seq, val), session := some (seq, val) }

def Scopes.run (a : Scopes live) (events : List (Event live)) : Scopes live :=
  events.foldl Scopes.step a

/-- What a function returns for a remembered identity, or for none. -/
def valueOr (e : Error) : Option (Identity live) → Except Error Int
  | none => .error e
  | some (_, val) => .ok val

/-! ### The stack follows the activations -/

def dataOf (i : Identity live) : SeqTableIdentityData := ⟨i.1, true, i.2⟩

def entries : List (Option (Identity live)) → List ScopeIdentityStack
  | [] => []
  | none :: outer => entries outer
  | some i :: outer => ⟨outer.length, dataOf i⟩ :: entries outer

def levels : List (Option (Identity live)) → List Int
  | [] => []
  | _ :: outer => (outer.length + 1 : Int) :: levels outer

theorem entries_level_lt {acts : List (Option (Identity live))} {e : ScopeIdentityStack}
    (he : e ∈ entries acts) : e.nestLevel < acts.length := by
  induction acts with
  | nil => cases he
  | cons act outer ih =>
    rw [List.length_cons]
    cases act with
    | none => have := ih he; omega
    | some i =>
      rcases List.mem_cons.mp he with rfl | he
      · push_cast; omega
      · have := ih he; omega

/-- The state of the code for the activations `a`. -/
structure Follows (s : State) (a : Scopes live) : Prop where
  level : s.pltsqlScopeIdentityNestLevel = a.outer.length
  stack : s.lastUsedScopeSeqIdentity = entries (a.current :: a.outer)
  session : s.lastUsedSeqIdentity.bind s.seqhashtabidentity = a.session.map dataOf

section Step

variable {s : State} {a : Scopes live} (h : Follows s a) {w : State × List Int}
include h

/-- The top of the stack is of the current level just when the current activation has
generated a value; otherwise it belongs to an activation further out. -/
theorem Follows.top :
    s.top = a.current.map fun i => (⟨a.outer.length, dataOf i⟩, entries a.outer) := by
  rw [State.top, h.stack, h.level]
  cases a.current with
  | some i => simp [entries]
  | none =>
    rw [entries]
    split
    · rfl
    · rename_i top prev hst
      have := entries_level_lt (hst ▸ List.mem_cons_self : top ∈ entries a.outer)
      rw [if_neg (by omega)]
      rfl

theorem Follows.leave {act : Option (Identity live)}
    {outer : List (Option (Identity live))} (hout : a.outer = act :: outer) :
    Follows (revertLastScopeIdentity (outer.length + 1) s) (a.step .leave) := by
  rw [revertLastScopeIdentity, h.top]
  cases hcur : a.current with
  | none =>
    exact ⟨by simp [Scopes.step, hout],
      by simp [Scopes.step, hout, h.stack, hcur, entries], h.session⟩
  | some i => exact ⟨by simp [Scopes.step, hout], by simp [Scopes.step, hout], h.session⟩

theorem Follows.generate (seq : Sequence live) (val : Int) :
    Follows (updateLastIdentity seq val s) (a.step (.generate seq val)) := by
  have htop := h.top
  rw [State.top] at htop
  rw [updateLastIdentity, updateScopeIdentityStack, State.top, htop]
  cases hcur : a.current with
  | none =>
    exact ⟨h.level, by simp [h.level, h.stack, hcur, entries, Scopes.step, dataOf],
      by simp [Scopes.step, dataOf]⟩
  | some i =>
    exact ⟨h.level, by simp [entries, Scopes.step, dataOf], by simp [Scopes.step, dataOf]⟩

theorem Follows.step {e : Event live} (hstep : ScopeIdentity.step (s, levels a.outer) e = some w) :
    Follows w.1 (a.step e) ∧ w.2 = levels (a.step e).outer := by
  cases e with
  | enter =>
    cases hstep
    exact ⟨⟨by simp [Scopes.step, h.level], h.stack, h.session⟩,
      by simp [Scopes.step, levels, h.level]⟩
  | generate seq val =>
    cases hstep
    exact ⟨h.generate seq val, rfl⟩
  | leave =>
    cases hout : a.outer with
    | nil => rw [hout] at hstep; cases hstep
    | cons act outer =>
      rw [hout] at hstep
      cases hstep
      exact ⟨h.leave hout, by simp [Scopes.step, hout]⟩

theorem Follows.run {events : List (Event live)}
    (hrun : ScopeIdentity.run (s, levels a.outer) events = some w) :
    Follows w.1 (a.run events) := by
  induction events generalizing s a with
  | nil => cases hrun; exact h
  | cons e events ih =>
    obtain ⟨⟨s', levels'⟩, hstep, hrest⟩ := Option.bind_eq_some_iff.mp hrun
    obtain ⟨h', rfl⟩ := h.step hstep
    exact ih h' hrest

end Step

/-- **Each activation sees its own identity.**  After every properly nested run
`last_scope_identity_value` returns the value generated last directly in the current
activation, and `last_identity_value` the one generated last in the session. -/
theorem lastScopeIdentityValue_run (live : Nat → Bool) (events : List (Event live))
    (w : State × List Int) (hrun : run (State.init, []) events = some w) :
    lastScopeIdentityValue live w.1 =
        valueOr .lastScopeIdentityNotYetDefined (Scopes.init.run events).current ∧
      lastIdentityValue live w.1 =
        valueOr .lastIdentityNotYetDefined (Scopes.init.run events).session := by
  have h : Follows w.1 (Scopes.init.run events) := Follows.run ⟨rfl, rfl, rfl⟩ hrun
  constructor
  · rw [lastScopeIdentityValue, h.top]
    cases (Scopes.init.run events).current with
    | none => rfl
    | some i => simp [dataOf, i.1.2, valueOr]
  · rw [lastIdentityValue, h.session]
    cases (Scopes.init.run events).session with
    | none => rfl
    | some i => simp [dataOf, i.1.2, valueOr]

/-- A scope inside one that generated 5 generates 7 and is left, and a second one at the same
depth is entered. -/
def siblings : List (Event fun _ => true) :=
  [.generate ⟨1, by decide⟩ 5, .enter, .generate ⟨1, by decide⟩ 7, .leave, .enter]

theorem lastScopeIdentityValue_siblings :
    ∃ w, run (State.init, []) siblings = some w ∧
      lastScopeIdentityValue (fun _ => true) w.1 = .error .lastScopeIdentityNotYetDefined ∧
      lastIdentityValue (fun _ => true) w.1 = .ok 7 :=
  ⟨_, rfl, lastScopeIdentityValue_run (fun _ => true) siblings _ rfl⟩

end Babelfish.Tsql.ScopeIdentity
