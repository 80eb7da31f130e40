import Babelfish.Lib.Machine
import Babelfish.PLtsql.IterativeExec
import Babelfish.PLtsql.Scoping

/-!
# The error-context stack

The stack of error contexts follows the scope of the program counter: there is one
entry for each `TRY`/`CATCH` construct around the current statement, marked as restored
in the `CATCH` part, and `PG_exception_stack` points to the innermost entry that is not
marked.  The invariant `CtxInv` also says what is needed to keep this: each entry has
saved the handler below it and names the address of its `CATCH` part, and the current
index points to the innermost unmarked entry, if there is one.

* `CtxInv.saveCtx`, `CtxInv.restoreCtxFull`, ...: each kind of instruction.
* `CtxInv.longjmp`: the transfer of an error.
* `CtxInv.step`: every step keeps the invariant.
* `errCtxStack_follows_scope`: the invariant along every run of an accepted function.
-/

namespace Babelfish.PLtsql

open Lib Lib.Assembly List

variable {a : Node} {codes : List (Instr Nat)} {t : List TryCatchInfo} {i' : Instr Nat}

/-! ### The active handler and the current index -/

/-- The jump buffer of the innermost entry that is not marked as restored, the caller's
handler if there is none. -/
def activeHandler (stack : List ErrCtx) : Handler :=
  stack.foldl (fun h c => if c.partialRestored then h else .buf c.buf) .caller

@[simp] theorem activeHandler_nil : activeHandler [] = .caller := rfl

theorem activeHandler_concat (es : List ErrCtx) (c : ErrCtx) :
    activeHandler (es ++ [c]) = if c.partialRestored then activeHandler es else .buf c.buf := by
  simp [activeHandler]

theorem nextActive_append (es l : List ErrCtx) (n : Nat) (h : n ≤ es.length) :
    nextActive (es ++ l) n = nextActive es n := by
  induction n with
  | zero => rfl
  | succ n ih =>
    rw [nextActive, nextActive, List.getElem?_append_left (by omega), ih (by omega)]

theorem nextActive_concat (es : List ErrCtx) (c : ErrCtx) :
    nextActive (es ++ [c]) (es ++ [c]).length =
      if c.partialRestored then nextActive es es.length else some es.length := by
  rw [length_append, length_singleton, nextActive, List.getElem?_append_right (le_refl _),
    Nat.sub_self, nextActive_append es [c] _ (le_refl _)]
  rfl

/-! ### The stack of a scope -/

/-- A stack of error contexts for the parts `t`, the outermost first. -/
inductive StackFor (Γ : Nat → List TryCatchInfo) (H : Node → Nat → Prop) :
    List TryCatchInfo → List ErrCtx → Prop
  | nil : StackFor Γ H [] []
  | tryPart {t es c a} : StackFor Γ H t es → c.saveExceptionStack = activeHandler es →
      c.partialRestored = false → H a c.targetPc → Γ c.targetPc = t ++ [⟨a, false⟩] →
      StackFor Γ H (t ++ [⟨a, true⟩]) (es ++ [c])
  | catchPart {t es c a} : StackFor Γ H t es → c.saveExceptionStack = activeHandler es →
      c.partialRestored = true → StackFor Γ H (t ++ [⟨a, false⟩]) (es ++ [c])

section

variable {Γ : Nat → List TryCatchInfo} {H : Node → Nat → Prop} {t : List TryCatchInfo}
  {stack : List ErrCtx}

theorem StackFor.flags (h : StackFor Γ H t stack) :
    stack.map ErrCtx.partialRestored = t.map fun info => !info.inTryBlock := by
  induction h with
  | nil => rfl
  | tryPart _ _ hc _ _ ih | catchPart _ _ hc ih => simp [ih, hc]

theorem StackFor.eq_nil (h : StackFor Γ H [] stack) : stack = [] := by
  generalize ht : ([] : List TryCatchInfo) = t at h
  cases h with
  | nil => rfl
  | tryPart | catchPart => simp at ht

theorem StackFor.inv {info : TryCatchInfo} (h : StackFor Γ H (t ++ [info]) stack) :
    ∃ es c, stack = es ++ [c] ∧ StackFor Γ H t es ∧ c.saveExceptionStack = activeHandler es ∧
      c.partialRestored = !info.inTryBlock := by
  generalize ht : t ++ [info] = t' at h
  cases h with
  | nil => simp at ht
  | tryPart hs hsave hc _ _ | catchPart hs hsave hc =>
    obtain ⟨rfl, hinfo⟩ := append_inj' ht rfl
    exact ⟨_, _, rfl, hs, hsave, by rw [hc, singleton_inj.mp hinfo]; rfl⟩

/-- The caller's handler is only active outside of all `TRY` parts. -/
theorem StackFor.of_caller (h : StackFor Γ H t stack) (hc : activeHandler stack = .caller) :
    ∀ info ∈ t, info.inTryBlock = false := by
  induction h with
  | nil => intro info hi; simp at hi
  | tryPart _ _ hf _ _ _ => rw [activeHandler_concat, hf] at hc; simp at hc
  | catchPart _ _ hr ih =>
    rw [activeHandler_concat, hr] at hc
    exact forall_mem_append.mpr ⟨ih hc, forall_mem_singleton.mpr rfl⟩

/-- Where an error goes when the active handler is not the caller's. -/
theorem StackFor.active (h : StackFor Γ H t stack) {id : Nat}
    (hid : activeHandler stack = .buf id) :
    ∃ es c l t' a, stack = es ++ c :: l ∧ c.buf = id ∧ c.partialRestored = false ∧
      nextActive stack stack.length = some es.length ∧ StackFor Γ H t' es ∧
      c.saveExceptionStack = activeHandler es ∧ H a c.targetPc ∧
      Γ c.targetPc = t' ++ [⟨a, false⟩] ∧
      ∃ r, t = t' ++ ⟨a, true⟩ :: r ∧ ∀ info ∈ r, info.inTryBlock = false := by
  induction h with
  | nil => simp at hid
  | @tryPart t es c a hs hsave hc hH ht _ =>
    rw [activeHandler_concat, hc] at hid
    refine ⟨es, c, [], t, a, rfl, Handler.buf.inj hid, hc, ?_, hs, hsave, hH, ht, [], rfl, by simp⟩
    rw [nextActive_concat, hc]
    rfl
  | @catchPart t es c a hs hsave hc ih =>
    rw [activeHandler_concat, hc] at hid
    obtain ⟨es', c', l, t', a', rfl, hbuf, hc', hn, hs', hsave', hH', ht', r, rfl, hr⟩ := ih hid
    refine ⟨es', c', l ++ [c], t', a', by simp, hbuf, hc', ?_, hs', hsave', hH', ht',
      r ++ [⟨a, false⟩], by simp, ?_⟩
    · rwa [nextActive_concat, hc]
    · exact forall_mem_append.mpr ⟨hr, forall_mem_singleton.mpr rfl⟩

end

/-! ### The invariant -/

/-- The error contexts of `s` are those of the scope of its program counter. -/
structure CtxInv (Γ : Nat → List TryCatchInfo) (H : Node → Nat → Prop) (s : ExecState) :
    Prop where
  stack : StackFor Γ H (Γ s.pc) s.errCtxStack
  handler : s.pgExceptionStack = activeHandler s.errCtxStack
  current : ∀ i, nextActive s.errCtxStack s.errCtxStack.length = some i → s.curErrCtxIdx = i
  nodup : (s.errCtxStack.map ErrCtx.buf).Nodup
  fresh : ∀ c ∈ s.errCtxStack, c.buf < s.nextBuf
  alive : s.mode ≠ .crashed

section

variable {Γ : Nat → List TryCatchInfo} {H : Node → Nat → Prop} {s s' : ExecState} {env : CallEnv}

theorem CtxInv.init (h : Γ 0 = []) : CtxInv Γ H ExecState.init := by
  refine ⟨?_, rfl, by simp [ExecState.init, nextActive], by simp [ExecState.init],
    by simp [ExecState.init], by simp [ExecState.init]⟩
  show StackFor Γ H (Γ 0) []
  rw [h]
  exact StackFor.nil

theorem CtxInv.of_same (h : CtxInv Γ H s) (hs : s'.errCtxStack = s.errCtxStack)
    (hc : s'.curErrCtxIdx = s.curErrCtxIdx) (hh : s'.pgExceptionStack = s.pgExceptionStack)
    (hb : s'.nextBuf = s.nextBuf) (hpc : Γ s'.pc = Γ s.pc) (hm : s'.mode ≠ .crashed) :
    CtxInv Γ H s' := by
  refine ⟨?_, ?_, ?_, ?_, ?_, hm⟩
  · rw [hs, hpc]; exact h.stack
  · rw [hs, hh]; exact h.handler
  · rw [hs, hc]; exact h.current
  · rw [hs]; exact h.nodup
  · rw [hs, hb]; exact h.fresh

theorem CtxInv.saveCtx (h : CtxInv Γ H s) {q : Nat} (hH : H a q) (hq : Γ q = Γ s.pc ++ [⟨a, false⟩])
    (hpc : Γ (s.pc + 1) = Γ s.pc ++ [⟨a, true⟩]) : CtxInv Γ H (saveCtx q s) := by
  refine ⟨?_, ?_, ?_, ?_, ?_, h.alive⟩
  · show StackFor Γ H (Γ (s.pc + 1)) _
    rw [hpc]
    exact h.stack.tryPart h.handler rfl hH hq
  · show Handler.buf s.nextBuf = activeHandler (s.errCtxStack ++ [_])
    rw [activeHandler_concat]
    rfl
  · intro i hi
    rw [PLtsql.saveCtx, nextActive_concat] at hi
    simp only [Bool.false_eq_true, if_false, Option.some.injEq] at hi
    simp [PLtsql.saveCtx, hi]
  · simp only [PLtsql.saveCtx, map_append, map_cons, map_nil]
    refine nodup_append'.mpr ⟨h.nodup, by simp, ?_⟩
    intro x hx hx'
    obtain ⟨c, hc, rfl⟩ := mem_map.mp hx
    have := h.fresh c hc
    rw [mem_singleton] at hx'
    omega
  · exact forall_mem_append.mpr ⟨fun c hc => Nat.lt_succ_of_lt (h.fresh c hc),
      forall_mem_singleton.mpr (Nat.lt_succ_self _)⟩

/-- `s'` is `s` at another address and with other error contexts. -/
structure Quiet (s s' : ExecState) (pc : Nat) : Prop where
  pc : s'.pc = pc
  mode : s'.mode = s.mode
  trace : s'.trace = s.trace
  terminateBatch : s'.terminateBatch = s.terminateBatch
  returned : s'.returned = s.returned

section

variable (h : CtxInv Γ H s)
include h

/-- The top entry is unrestored and is the current one when a `TRY` part is left. -/
theorem CtxInv.top_try (ht : Γ s.pc = t ++ [⟨a, true⟩]) :
    ∃ es c, s.errCtxStack = es ++ [c] ∧ StackFor Γ H t es ∧
      c.saveExceptionStack = activeHandler es ∧ c.partialRestored = false ∧
      s.curErrCtxIdx = es.length := by
  have hs := h.stack
  rw [ht] at hs
  obtain ⟨es, c, he, hes, hsave, hc⟩ := hs.inv
  refine ⟨es, c, he, hes, hsave, hc, h.current _ ?_⟩
  rw [he, nextActive_concat, hc]
  rfl

theorem CtxInv.restoreCtxFull (ht : Γ s.pc = Γ (s.pc + 1) ++ [⟨a, true⟩]) :
    CtxInv Γ H (restoreCtxFull s) ∧ Quiet s (restoreCtxFull s) (s.pc + 1) := by
  obtain ⟨es, c, he, hes, hsave, hc, hcur⟩ := h.top_try ht
  have hget : s.errCtxStack[s.curErrCtxIdx]? = some c := by simp [he, hcur]
  have hr : PLtsql.restoreCtxFull s =
      { s with
        pc := s.pc + 1
        errCtxStack := es
        curErrCtxIdx := (nextActive es es.length).getD es.length
        pgExceptionStack := activeHandler es } := by
    rw [PLtsql.restoreCtxFull, hget]
    simp only [hsave, he, hcur, dropLast_concat]
  have hnd := h.nodup
  rw [he, map_append] at hnd
  rw [hr]
  refine ⟨⟨hes, rfl, ?_, (nodup_append'.mp hnd).1, ?_, h.alive⟩, rfl, rfl, rfl, rfl, rfl⟩
  · intro i hi
    rw [hi]
    rfl
  · intro c' hc'
    exact h.fresh c' (by rw [he]; exact mem_append_left _ hc')

/-- The top entry is marked when a `CATCH` part is left. -/
theorem CtxInv.top_catch (ht : Γ s.pc = t ++ [⟨a, false⟩]) :
    ∃ es c, s.errCtxStack = es ++ [c] ∧ StackFor Γ H t es ∧ c.partialRestored = true := by
  have hs := h.stack
  rw [ht] at hs
  obtain ⟨es, c, he, hes, -, hc⟩ := hs.inv
  exact ⟨es, c, he, hes, hc⟩

theorem CtxInv.restoreCtxPartial (ht : Γ s.pc = Γ (s.pc + 1) ++ [⟨a, false⟩]) :
    CtxInv Γ H (restoreCtxPartial s) ∧ Quiet s (restoreCtxPartial s) (s.pc + 1) := by
  obtain ⟨es, c, he, hes, hc⟩ := h.top_catch ht
  have hnd := h.nodup
  rw [he, map_append] at hnd
  have hr : PLtsql.restoreCtxPartial s = { s with pc := s.pc + 1, errCtxStack := es } := by
    simp [PLtsql.restoreCtxPartial, restoreCtxPartial2, he]
  rw [hr]
  refine ⟨⟨hes, ?_, ?_, (nodup_append'.mp hnd).1, ?_, h.alive⟩, rfl, rfl, rfl, rfl, rfl⟩
  · have hh := h.handler
    rwa [he, activeHandler_concat, hc] at hh
  · intro i hi
    refine h.current i ?_
    rwa [he, nextActive_concat, hc]
  · intro c' hc'
    exact h.fresh c' (by rw [he]; exact mem_append_left _ hc')

/-- Where an error lands that does not go to the caller: in the `CATCH` part of the
innermost construct whose `TRY` part is being executed. -/
theorem CtxInv.landed (env : CallEnv) (e : ErrorInfo) {id : Nat}
    (hid : s.pgExceptionStack = .buf id) :
    ∃ t a r q, Γ s.pc = t ++ ⟨a, true⟩ :: r ∧ (∀ info ∈ r, info.inTryBlock = false) ∧
      H a q ∧ Γ q = t ++ [⟨a, false⟩] ∧ id ∈ s.errCtxStack.map ErrCtx.buf ∧
      CtxInv Γ H (landed env e s) ∧ (landed env e s).pc = q ∧
      (landed env e s).mode = (if ignoreCatchBlock env e s.terminateBatch then .raise e else .run)
      ∧ (landed env e s).trace = s.trace ∧ (landed env e s).terminateBatch = s.terminateBatch ∧
      (landed env e s).returned = s.returned := by
  obtain ⟨es, c, l, t, a, he, hbuf, hc, hn, hs, hsave, hH, ht, r, hΓ, hfalse⟩ :=
    h.stack.active (h.handler.symm.trans hid)
  have hcur := h.current _ hn
  have hget : s.errCtxStack[s.curErrCtxIdx]? = some c := by simp [he, hcur]
  have hr : PLtsql.landed env e s =
      { s with
        pc := c.targetPc
        errCtxStack := es ++ [{ c with partialRestored := true }]
        curErrCtxIdx := (nextActive es es.length).getD es.length
        pgExceptionStack := activeHandler es
        mode := if ignoreCatchBlock env e s.terminateBatch then .raise e else .run } := by
    have hset : (s.errCtxStack.take (es.length + 1)).set es.length
        { c with partialRestored := true } = es ++ [{ c with partialRestored := true }] := by
      simp [he, take_append]
    rw [PLtsql.landed, hget]
    simp only [hcur, hset, nextActive_append es _ _ (le_refl _)]
    rw [← hsave]
  have hmem : ∀ c' ∈ es ++ [{ c with partialRestored := true }], ∃ c'' ∈ s.errCtxStack,
      c''.buf = c'.buf := by
    intro c' hc'
    rcases mem_append.mp hc' with hc' | hc'
    · exact ⟨c', by rw [he]; exact mem_append_left _ hc', rfl⟩
    · exact ⟨c, by simp [he], by rw [mem_singleton.mp hc']⟩
  refine ⟨t, a, r, c.targetPc, hΓ, hfalse, hH, ht, ?_, ?_, ?_⟩
  · exact mem_map.mpr ⟨c, by simp [he], hbuf⟩
  · rw [hr]
    refine ⟨?_, ?_, ?_, ?_, ?_, ?_⟩
    · show StackFor Γ H (Γ c.targetPc) _
      rw [ht]
      exact hs.catchPart hsave rfl
    · exact (activeHandler_concat es { c with partialRestored := true }).symm
    · intro i hi
      rw [nextActive_concat] at hi
      rw [show nextActive es es.length = some i from hi]
      rfl
    · have hnd := h.nodup
      rw [he, map_append, map_cons] at hnd
      rw [map_append]
      exact hnd.sublist ((List.Sublist.refl _).append ((nil_sublist _).cons_cons _))
    · intro c' hc'
      obtain ⟨c'', hm, hb⟩ := hmem c' hc'
      exact hb ▸ h.fresh c'' hm
    · show (if ignoreCatchBlock env e s.terminateBatch then Mode.raise e else .run) ≠ .crashed
      split <;> simp
  · rw [hr]
    exact ⟨rfl, rfl, rfl, rfl, rfl⟩

theorem CtxInv.longjmp (env : CallEnv) (e : ErrorInfo) : CtxInv Γ H (longjmp env e s) := by
  cases hid : s.pgExceptionStack with
  | caller =>
    have hr : PLtsql.longjmp env e s = { s with mode := .uncaught e } := by
      rw [PLtsql.longjmp, hid]
    rw [hr]
    exact h.of_same rfl rfl rfl rfl rfl (by simp)
  | buf id =>
    obtain ⟨t, a, r, q, -, -, -, -, hmem, hinv, -⟩ := h.landed env e hid
    have hr : PLtsql.longjmp env e s = PLtsql.landed env e s := by
      rw [PLtsql.longjmp, hid]
      exact if_pos hmem
    rwa [hr]

theorem CtxInv.dispatch (o : Oracle) (n : Node) (isReturn : Bool)
    (hm : s.mode = .run) (hpc : Γ (s.pc + 1) = Γ s.pc) :
    CtxInv Γ H (dispatchStmtHandleError env o n isReturn s) := by
  unfold dispatchStmtHandleError
  split
  · exact h.of_same rfl rfl rfl rfl hpc (by simp [hm])
  · dsimp only
    split
    · exact h.of_same rfl rfl rfl rfl rfl (by simp)
    · exact h.of_same rfl rfl rfl rfl hpc (by simp [hm])

theorem CtxInv.goto (o : Oracle) {lineno q : Nat} {c : Option Expr} (hm : s.mode = .run)
    (hi : ScopedInstr Γ H s.pc (.goto lineno c q)) : CtxInv Γ H (execStmtGoto o c q s) := by
  cases c with
  | none => exact h.of_same rfl rfl rfl rfl hi (by simp [execStmtGoto, hm])
  | some c =>
    simp only [execStmtGoto]
    split
    · exact h.of_same rfl rfl rfl rfl hi.1 (by simp [hm])
    · exact h.of_same rfl rfl rfl rfl hi.2 (by simp [hm])

end

/-- **Every step keeps the invariant.** -/
theorem CtxInv.step (hcode : ScopedCode Γ H codes) {o : Oracle} (h : CtxInv Γ H s)
    (hs : execStep codes env o s = some s') : CtxInv Γ H s' := by
  unfold execStep at hs
  split at hs
  case h_1 hm =>
    obtain ⟨i, hi, rfl⟩ := Option.map_eq_some_iff.mp hs
    have hsc := hcode.step hi
    cases i with
    | stmt n => exact h.dispatch o n false hm hsc
    | ret n => exact h.dispatch o n true hm hsc
    | goto lineno c q => exact h.goto o hm hsc
    | saveCtx lineno q =>
      obtain ⟨a, hH, hq, hpc⟩ := hsc
      exact h.saveCtx hH hq hpc
    | restoreCtxFull lineno =>
      obtain ⟨a, ha⟩ := hsc
      exact (h.restoreCtxFull ha).1
    | restoreCtxPartial lineno =>
      obtain ⟨a, ha⟩ := hsc
      exact (h.restoreCtxPartial ha).1
  case h_2 e hm =>
    cases hs
    exact h.longjmp env e
  case h_3 => simp at hs
  case h_4 => simp at hs

theorem CtxInv.reaches (hcode : ScopedCode Γ H codes) {o : Oracle}
    (hs : Reaches (execStep codes env o) ExecState.init s) : CtxInv Γ H s :=
  Reaches.invariant (fun _ _ h hstep => h.step hcode hstep) (CtxInv.init hcode.start) hs

end

/-! ### The scope of a statement -/

mutual
/-- The statements of a tree that become instructions of their own, with the
`TRY`/`CATCH` parts around them. -/
def Stmt.nestings (t : List TryCatchInfo) : Stmt → List (Node × List TryCatchInfo)
  | .atomic n => [(n, t)]
  | .block _ body => nestingsList t body
  | .ifElse _ _ b none => b.nestings t
  | .ifElse _ _ b (some e) => b.nestings t ++ e.nestings t
  | .whileLoop _ _ body => nestingsList t body
  | .ret n => [(n, t)]
  | .exit _ _ | .label _ _ | .goto _ _ => []
  | .tryCatch n b h => b.nestings (t ++ [⟨n, true⟩]) ++ h.nestings (t ++ [⟨n, false⟩])

def nestingsList (t : List TryCatchInfo) : List Stmt → List (Node × List TryCatchInfo)
  | [] => []
  | s :: ss => s.nestings t ++ nestingsList t ss
end

/-- If `i` executes a statement, then `all` has it with the parts around `i`. -/
def InTree (all : List (Node × List TryCatchInfo)) (i : Scoped) : Prop :=
  ∀ n, i.1 = .stmt n ∨ i.1 = .ret n → (n, i.2) ∈ all

theorem leave_inTree (all : List (Node × List TryCatchInfo)) {lineno d : Nat} {i pos : Nat} :
    Every (fun _ => InTree all) pos (leave lineno t d i) := by
  induction i generalizing pos with
  | zero => trivial
  | succ i ih =>
    rw [leave]
    split
    · cases t[i]? with
      | none => exact ih
      | some info =>
        refine ⟨?_, ih⟩
        intro n hn
        rcases info with ⟨a, _ | _⟩ <;> simp [restoreFor] at hn
    · trivial

theorem listing_inTree (ld : String → Nat) (all : List (Node × List TryCatchInfo)) :
    (∀ (s : Stmt) t w pos, s.nestings t ⊆ all →
      Every (fun _ => InTree all) pos (s.listing ld t w)) ∧
    ∀ (ss : List Stmt) t w pos, nestingsList t ss ⊆ all →
      Every (fun _ => InTree all) pos (listingList ld t w ss) := by
  -- an instruction that executes no statement
  have other : ∀ {i : Instr Label} {t : List TryCatchInfo},
      (∀ n, ¬ (i = .stmt n ∨ i = .ret n)) → InTree all (i, t) :=
    fun h n hn => absurd hn (h n)
  apply Stmt.ind
  case atomic =>
    intro n t w pos h
    refine ⟨fun m hm => ?_, trivial⟩
    obtain rfl : n = m := by simpa using hm
    exact h mem_cons_self
  case block => intro n body ih t w pos h; exact ih t w pos h
  case ifThen =>
    intro n c b ih t w pos h
    exact ⟨other (by simp), .append (ih t w _ h) trivial⟩
  case ifElse =>
    intro n c b e ihb ihe t w pos h
    obtain ⟨hb, he⟩ := append_subset.mp h
    exact ⟨other (by simp), .append (ihb t w _ hb)
      ⟨other (by simp), .append (ihe t w _ he) trivial⟩⟩
  case whileLoop =>
    intro n c body ih t w pos h
    exact ⟨other (by simp), .append (ih t _ _ h) ⟨other (by simp), trivial⟩⟩
  case exit =>
    intro n isExit t w pos _
    rw [Stmt.listing]
    split
    · trivial
    · exact .append (leave_inTree all) ⟨other (by simp), trivial⟩
  case ret =>
    intro n t w pos h
    refine ⟨fun m hm => ?_, .append (leave_inTree all) ⟨other (by simp), trivial⟩⟩
    obtain rfl : n = m := by simpa using hm
    exact h mem_cons_self
  case label => intro n l t w pos _; trivial
  case goto =>
    intro n l t w pos _
    exact .append (leave_inTree all) ⟨other (by simp), trivial⟩
  case tryCatch =>
    intro n b e ihb ihe t w pos h
    obtain ⟨hb, he⟩ := append_subset.mp h
    exact ⟨other (by simp), .append (ihb _ w _ hb) ⟨other (by simp), other (by simp),
      .append (ihe _ w _ he) ⟨other (by simp), trivial⟩⟩⟩
  case nil => intro t w pos _; trivial
  case cons =>
    intro s ss ihs ihss t w pos h
    obtain ⟨hs, hss⟩ := append_subset.mp h
    exact .append (ihs t w _ hs) (ihss t w _ hss)

theorem resolveInstr_executes {t : HTab Label Nat} {i : Instr Label} {n : Node}
    (hr : resolveInstr t i = .ok i') (h : i' = .stmt n ∨ i' = .ret n) :
    i = .stmt n ∨ i = .ret n := by
  cases i with
  | stmt m | ret m => cases hr; simpa using h
  | goto lineno c l | saveCtx lineno l =>
    obtain ⟨q, -, hq⟩ := bind_eq_ok.mp hr
    cases hq
    simp at h
  | restoreCtxFull lineno | restoreCtxPartial lineno => cases hr; simp at h

theorem Resolved.nesting {f : Func} {cc : CompileContext} (h : Resolved (f.listing cc) codes)
    {pc : Nat} {n : Node} (hi : codes[pc]? = some i') (hn : i' = .stmt n ∨ i' = .ret n) :
    (n, scopeAt (f.listing cc) pc) ∈ nestingsList [] f.action := by
  have he : Every (fun _ => InTree (nestingsList [] f.action)) 0 (f.listing cc) :=
    .append ((listing_inTree _ _).2 f.action [] [] 0 (List.Subset.refl _)) trivial
  obtain ⟨i, hh, hr⟩ := h.holds hi
  exact he.get _ 0 pc hh n (resolveInstr_executes hr hn)

/-! ### Every run -/

/-- **The error-context stack follows the scope**, along every run of the code of an
accepted function: one entry for each construct around the current statement, marked
exactly in the `CATCH` part; the innermost unmarked entry is the active handler; the
restoring instructions find the entry they expect; nothing is left at the end. -/
theorem errCtxStack_follows_scope {f : Func} {cc : CompileContext} (h : analyze f = .ok cc) :
    ∃ codes, genExecCode f cc = .ok codes ∧
      (∀ pc n i, codes[pc]? = some i → (i = .stmt n ∨ i = .ret n) →
        (n, scopeAt (f.listing cc) pc) ∈ nestingsList [] f.action) ∧
      ∀ env o s, Reaches (execStep codes env o) ExecState.init s →
        s.mode ≠ .crashed ∧
        s.errCtxStack.map ErrCtx.partialRestored =
          (scopeAt (f.listing cc) s.pc).map (fun info => !info.inTryBlock) ∧
        s.pgExceptionStack = activeHandler s.errCtxStack ∧
        (s.errCtxStack.map ErrCtx.buf).Nodup ∧
        (∀ lineno, codes[s.pc]? = some (.restoreCtxFull lineno) →
          ∃ es c, s.errCtxStack = es ++ [c] ∧ c.partialRestored = false ∧
            s.curErrCtxIdx = es.length) ∧
        (∀ lineno, codes[s.pc]? = some (.restoreCtxPartial lineno) →
          ∃ es c, s.errCtxStack = es ++ [c] ∧ c.partialRestored = true) ∧
        (codes.length ≤ s.pc → s.errCtxStack = [] ∧ s.pgExceptionStack = .caller) := by
  obtain ⟨codes, hgen, hres, hcode⟩ := genExecCode_ok (analyze_ok h)
  refine ⟨codes, hgen, fun pc n i hi hn => hres.nesting hi hn, ?_⟩
  intro env o s hs
  have inv : CtxInv _ _ s := CtxInv.reaches hcode hs
  refine ⟨inv.alive, inv.stack.flags, inv.handler, inv.nodup, ?_, ?_, ?_⟩
  · intro lineno hi
    obtain ⟨a, ha⟩ := hcode.step hi
    obtain ⟨es, c, he, -, -, hc, hcur⟩ := inv.top_try ha
    exact ⟨es, c, he, hc, hcur⟩
  · intro lineno hi
    obtain ⟨a, ha⟩ := hcode.step hi
    obtain ⟨es, c, he, -, hc⟩ := inv.top_catch ha
    exact ⟨es, c, he, hc⟩
  · intro hpc
    have hstack := inv.stack
    rw [hcode.stop hpc] at hstack
    have hnil := hstack.eq_nil
    exact ⟨hnil, by rw [inv.handler, hnil]; rfl⟩

/-- `BEGIN TRY a END TRY BEGIN CATCH b; c END CATCH`. -/
def tryFunc : Func :=
  ⟨[.tryCatch ⟨1, 1⟩ (.atomic ⟨2, 2⟩) (.block ⟨3, 3⟩ [.atomic ⟨4, 4⟩, .atomic ⟨5, 5⟩])], by decide⟩

theorem errCtxStack_follows_scope_tryFunc :
    ∃ cc codes, analyze tryFunc = .ok cc ∧ genExecCode tryFunc cc = .ok codes ∧
      ∀ env o s, Reaches (execStep codes env o) ExecState.init s → s.mode ≠ .crashed := by
  obtain ⟨codes, hgen, -, h⟩ := errCtxStack_follows_scope (f := tryFunc) rfl
  exact ⟨_, codes, rfl, hgen, fun env o s hs => (h env o s hs).1⟩

end Babelfish.PLtsql
