import Babelfish.Lib.Except
import Babelfish.Lib.HashTable
import Babelfish.PLtsql.Syntax

/-!
# The analyzer

`analyzer.c` walks a statement tree before code generation.  The walk keeps the
`TRY`/`CATCH` parts and the loops around the current statement on two stacks,
saves a copy of both for every statement that the code generator will ask about,
and records the labels and the `GOTO`s.  A second pass rejects a `GOTO` whose
label is missing or lies inside a part or a loop that does not enclose the
`GOTO`.

* `analyzeStmt`, `analyze`: the walk and the whole analysis.
* `Stmt.scopes`: the scopes the walk saves, read off the tree.
* `analyze_walk`: a successful walk enters exactly these scopes and labels.
* `Accepted`, `analyze_ok`: what the code generator may rely on.
-/

namespace Babelfish.PLtsql

open Lib List

/-! ### Contexts -/

/-- `TryCatchInfo`: a `TRY`/`CATCH` construct and the part being walked. -/
structure TryCatchInfo where
  stmt : Node
  inTryBlock : Bool
deriving DecidableEq, Repr

/-- `ScopeContext`: what encloses a statement, outermost first. -/
structure ScopeContext where
  nestingTrycatchInfos : List TryCatchInfo
  nestingLoops : List Nat
deriving DecidableEq, Repr

/-- `CompileContext`: what the analyzer leaves for the code generator. -/
structure CompileContext where
  stmtScopeContext : HTab Nat ScopeContext
  labelStmtMap : HTab String Node

/-- `AnalyzerContext`: the state of the walk. -/
structure AnalyzerContext where
  trycatchInfoStack : List TryCatchInfo
  loopStack : List Nat
  gotos : List (Node × String)
  cmplCtx : CompileContext

/-- The errors the analyzer raises.  `nullScope` is the dereference of a scope
entry that is not there. -/
inductive AnalyzeError where
  | labelNotUnique (label : String) (line prevLine : Nat)
  | breakOutsideLoop (line : Nat)
  | continueOutsideLoop (line : Nat)
  | gotoUndefined (label : String)
  | gotoIntoTryCatch (label : String)
  | gotoIntoLoop (label : String)
  | nullScope (addr : Nat)
deriving DecidableEq, Repr

def AnalyzeError.message : AnalyzeError → String
  | labelNotUnique label line prevLine =>
    s!"Label {label} not unique wihtin one procedure in line {line}, " ++
      s!"previous defined in line {prevLine}"
  | breakOutsideLoop line => s!"Do not support BREAK outside of a WHILE loop, line {line}"
  | continueOutsideLoop line => s!"Do not support CONTINUE outside of a WHILE loop, line {line}"
  | gotoUndefined label => s!"GOTO target Label {label} not defined"
  | gotoIntoTryCatch label => s!"GOTO into an try catch block not supported, label {label}"
  | gotoIntoLoop label => s!"GOTO into an while loop not supported, label {label}"
  | nullScope addr => s!"no scope for statement {addr}"

/-! ### The walk -/

variable (n : Node)

def saveScope (a : AnalyzerContext) : AnalyzerContext :=
  { a with
    cmplCtx := { a.cmplCtx with
      stmtScopeContext :=
        enter a.cmplCtx.stmtScopeContext n.addr ⟨a.trycatchInfoStack, a.loopStack⟩ } }

def pushTryCatch (info : TryCatchInfo) (a : AnalyzerContext) : AnalyzerContext :=
  { a with trycatchInfoStack := a.trycatchInfoStack ++ [info] }

variable (a : AnalyzerContext)

/-- Mark the innermost construct as being in its `CATCH` part. -/
def enterCatch : AnalyzerContext :=
  { a with
    trycatchInfoStack :=
      a.trycatchInfoStack.modify (a.trycatchInfoStack.length - 1)
        fun info => { info with inTryBlock := false } }

def popTryCatch : AnalyzerContext :=
  { a with trycatchInfoStack := a.trycatchInfoStack.dropLast }

def pushLoop (a : AnalyzerContext) : AnalyzerContext :=
  { a with loopStack := a.loopStack ++ [n.addr] }

def popLoop : AnalyzerContext := { a with loopStack := a.loopStack.dropLast }

def analyzerGotoAct (l : String) (a : AnalyzerContext) : AnalyzerContext :=
  let a := saveScope n a
  { a with gotos := a.gotos ++ [(n, l)] }

def analyzerLabelAct (l : String) (a : AnalyzerContext) :
    Except AnalyzeError AnalyzerContext :=
  match a.cmplCtx.labelStmtMap l with
  | some prev => .error (.labelNotUnique l n.lineno prev.lineno)
  | none => .ok (saveScope n
      { a with cmplCtx := { a.cmplCtx with labelStmtMap := enter a.cmplCtx.labelStmtMap l n } })

def analyzerExitAct (isExit : Bool) (a : AnalyzerContext) :
    Except AnalyzeError AnalyzerContext :=
  if a.loopStack.length = 0 then
    .error (if isExit then .breakOutsideLoop n.lineno else .continueOutsideLoop n.lineno)
  else .ok (saveScope n a)

mutual
/-- `general_walker_func` with the analyzer's actions. -/
def analyzeStmt : Stmt → AnalyzerContext → Except AnalyzeError AnalyzerContext
  | .atomic _, a => .ok a
  | .block _ body, a => analyzeList body a
  | .ifElse _ _ t none, a => analyzeStmt t a
  | .ifElse _ _ t (some e), a => do
    let a ← analyzeStmt t a
    analyzeStmt e a
  | .whileLoop n _ body, a => do
    let a ← analyzeList body (saveScope n (pushLoop n a))
    return popLoop a
  | .exit n isExit, a => analyzerExitAct n isExit a
  | .ret n, a => .ok (saveScope n a)
  | .label n l, a => analyzerLabelAct n l a
  | .goto n l, a => .ok (analyzerGotoAct n l a)
  | .tryCatch n b h, a => do
    let a ← analyzeStmt b (pushTryCatch ⟨n, true⟩ a)
    let a ← analyzeStmt h (enterCatch a)
    return popTryCatch a

def analyzeList : List Stmt → AnalyzerContext → Except AnalyzeError AnalyzerContext
  | [], a => .ok a
  | s :: ss, a => do
    let a ← analyzeStmt s a
    analyzeList ss a
end

/-! ### The checks on `GOTO` -/

/-- The loop shared by `check_goto_try_catch` and `check_goto_loop`: the stack of
the label is not the longer one and agrees with that of the `GOTO` as far as it
goes. -/
def checkGotoStack {α : Type} [DecidableEq α] (srcStack destStack : List α) : Bool :=
  !decide (srcStack.length < destStack.length) &&
    (srcStack.zip destStack).all fun p => decide (p.1 = p.2)

def checkGotoTryCatch (srcStack destStack : List TryCatchInfo) : Bool :=
  checkGotoStack srcStack destStack

def checkGotoLoop (srcStack destStack : List Nat) : Bool :=
  checkGotoStack srcStack destStack

/-- One round of the loop in `check_unsupported_goto`. -/
def checkGoto (cc : CompileContext) (g : Node × String) : Except AnalyzeError Unit :=
  match cc.labelStmtMap g.2 with
  | none => .error (.gotoUndefined g.2)
  | some label =>
    match cc.stmtScopeContext g.1.addr, cc.stmtScopeContext label.addr with
    | none, _ => .error (.nullScope g.1.addr)
    | _, none => .error (.nullScope label.addr)
    | some src, some dest =>
      if !checkGotoTryCatch src.nestingTrycatchInfos dest.nestingTrycatchInfos then
        .error (.gotoIntoTryCatch g.2)
      else if !checkGotoLoop src.nestingLoops dest.nestingLoops then
        .error (.gotoIntoLoop g.2)
      else .ok ()

def checkUnsupportedGoto (cc : CompileContext) : List (Node × String) → Except AnalyzeError Unit
  | [] => .ok ()
  | g :: gs => do
    checkGoto cc g
    checkUnsupportedGoto cc gs

/-- `create_compile_context` and `make_analyzer_context`. -/
def makeAnalyzerContext : AnalyzerContext := ⟨[], [], [], ⟨HTab.empty, HTab.empty⟩⟩

/-- `analyze`, on a function that has no code yet. -/
def analyze (f : Func) : Except AnalyzeError CompileContext := do
  let a ← analyzeList f.action makeAnalyzerContext
  checkUnsupportedGoto a.cmplCtx a.gotos
  return a.cmplCtx

/-! ### What a walk saves -/

mutual
/-- The scopes saved by the walk of a statement that lies inside the parts `t` and
the loops `l`. -/
def Stmt.scopes (t : List TryCatchInfo) (l : List Nat) : Stmt → List (Nat × ScopeContext)
  | .atomic _ => []
  | .block _ body => scopesList t l body
  | .ifElse _ _ b none => b.scopes t l
  | .ifElse _ _ b (some e) => b.scopes t l ++ e.scopes t l
  | .whileLoop n _ body => (n.addr, ⟨t, l ++ [n.addr]⟩) :: scopesList t (l ++ [n.addr]) body
  | .exit n _ => [(n.addr, ⟨t, l⟩)]
  | .ret n => [(n.addr, ⟨t, l⟩)]
  | .label n _ => [(n.addr, ⟨t, l⟩)]
  | .goto n _ => [(n.addr, ⟨t, l⟩)]
  | .tryCatch n b h =>
    b.scopes (t ++ [⟨n, true⟩]) l ++ h.scopes (t ++ [⟨n, false⟩]) l

def scopesList (t : List TryCatchInfo) (l : List Nat) : List Stmt → List (Nat × ScopeContext)
  | [] => []
  | s :: ss => s.scopes t l ++ scopesList t l ss
end

mutual
/-- Every `BREAK` and `CONTINUE` has a loop around it; `l` are the loops around the
statement. -/
def Stmt.ExitsInLoop (l : List Nat) : Stmt → Prop
  | .block _ body => ExitsInLoopList l body
  | .ifElse _ _ b none => b.ExitsInLoop l
  | .ifElse _ _ b (some e) => b.ExitsInLoop l ∧ e.ExitsInLoop l
  | .whileLoop n _ body => ExitsInLoopList (l ++ [n.addr]) body
  | .exit _ _ => l ≠ []
  | .tryCatch _ b h => b.ExitsInLoop l ∧ h.ExitsInLoop l
  | .atomic _ | .ret _ | .label _ _ | .goto _ _ => True

def ExitsInLoopList (l : List Nat) : List Stmt → Prop
  | [] => True
  | s :: ss => s.ExitsInLoop l ∧ ExitsInLoopList l ss
end

/-- The context after a walk that saved `sc`, met the labels `ls` and the `GOTO`s
`gs`. -/
def AnalyzerContext.record (sc : List (Nat × ScopeContext))
    (ls : List (String × Node)) (gs : List (Node × String)) : AnalyzerContext :=
  { a with
    gotos := a.gotos ++ gs
    cmplCtx := ⟨enterAll a.cmplCtx.stmtScopeContext sc, enterAll a.cmplCtx.labelStmtMap ls⟩ }

section

variable (a : AnalyzerContext) {sc : List (Nat × ScopeContext)} {ls : List (String × Node)}
  {gs : List (Node × String)}

@[simp] theorem record_labelStmtMap : (a.record sc ls gs).cmplCtx.labelStmtMap =
    enterAll a.cmplCtx.labelStmtMap ls := rfl

end

theorem AnalyzerContext.record_nil : a.record [] [] [] = a := by
  simp [record]

theorem AnalyzerContext.record_record {sc sc' ls ls' gs gs'} :
    (a.record sc ls gs).record sc' ls' gs' = a.record (sc ++ sc') (ls ++ ls') (gs ++ gs') := by
  simp [record, enterAll_append]

theorem saveScope_eq (a : AnalyzerContext) :
    saveScope n a = a.record [(n.addr, ⟨a.trycatchInfoStack, a.loopStack⟩)] [] [] := by
  simp [saveScope, AnalyzerContext.record]

/-- The labels of a piece of program can be entered into the table of `a` without
meeting an entry. -/
def FreshLabels (ls : List (String × Node)) : Prop :=
  (ls.map Prod.fst).Nodup ∧ ∀ l ∈ ls.map Prod.fst, a.cmplCtx.labelStmtMap l = none

theorem FreshLabels.append {a : AnalyzerContext} {sc ls ls' gs} (h : FreshLabels a ls)
    (h' : FreshLabels (a.record sc ls gs) ls') : FreshLabels a (ls ++ ls') := by
  have key : ∀ l ∈ ls'.map Prod.fst, l ∉ ls.map Prod.fst := by
    intro l hl hm
    obtain ⟨p, hp, rfl⟩ := mem_map.mp hm
    have h₁ := h'.2 _ hl
    rw [record_labelStmtMap, enterAll_of_mem h.1 hp] at h₁
    exact Option.some_ne_none _ h₁
  refine ⟨?_, ?_⟩
  · rw [map_append, nodup_append]
    refine ⟨h.1, h'.1, ?_⟩
    rintro x hx y hy rfl
    exact key x hy hx
  · intro l hl
    rw [map_append, mem_append] at hl
    rcases hl with hl | hl
    · exact h.2 l hl
    · have h₁ := h'.2 l hl
      rwa [record_labelStmtMap, enterAll_of_notMem (key l hl)] at h₁

/-! ### A walk, read off the tree -/

/-- A walk from `a` to `a'` saved `sc`, met the labels `ls` and the `GOTO`s `gs`, and
none of the labels was met before. -/
structure Walked (a a' : AnalyzerContext) (sc : List (Nat × ScopeContext))
    (ls : List (String × Node)) (gs : List (Node × String)) : Prop where
  eq : a' = a.record sc ls gs
  fresh : FreshLabels a ls

theorem FreshLabels.nil : FreshLabels a [] := ⟨nodup_nil, by simp⟩

theorem Walked.refl : Walked a a [] [] [] :=
  ⟨a.record_nil.symm, FreshLabels.nil a⟩

theorem Walked.save (a : AnalyzerContext) :
    Walked a (saveScope n a) [(n.addr, ⟨a.trycatchInfoStack, a.loopStack⟩)] [] [] :=
  ⟨saveScope_eq n a, FreshLabels.nil a⟩

theorem Walked.trans {a a' a'' : AnalyzerContext} {sc sc' ls ls' gs gs'}
    (h : Walked a a' sc ls gs) (h' : Walked a' a'' sc' ls' gs') :
    Walked a a'' (sc ++ sc') (ls ++ ls') (gs ++ gs') := by
  obtain ⟨rfl, hf⟩ := h
  obtain ⟨rfl, hf'⟩ := h'
  exact ⟨a.record_record, hf.append hf'⟩

/-- A walk does not depend on the two stacks except through what it saves. -/
theorem Walked.popLoop {a a' : AnalyzerContext} {sc ls gs} {n : Node}
    (h : Walked (pushLoop n a) a' sc ls gs) : Walked a (popLoop a') sc ls gs := by
  obtain ⟨rfl, hf⟩ := h
  exact ⟨by simp [PLtsql.popLoop, pushLoop, AnalyzerContext.record], hf⟩

theorem Walked.enterCatch {a a' : AnalyzerContext} {sc ls gs} {i : Node}
    (h : Walked (pushTryCatch ⟨i, true⟩ a) a' sc ls gs) :
    Walked (pushTryCatch ⟨i, false⟩ a) (enterCatch a') sc ls gs := by
  obtain ⟨rfl, hf⟩ := h
  refine ⟨?_, hf⟩
  simp [PLtsql.enterCatch, pushTryCatch, AnalyzerContext.record, modify_eq_take_drop]

theorem Walked.popTryCatch {a a' : AnalyzerContext} {sc ls gs} {info : TryCatchInfo}
    (h : Walked (pushTryCatch info a) a' sc ls gs) : Walked a (popTryCatch a') sc ls gs := by
  obtain ⟨rfl, hf⟩ := h
  exact ⟨by simp [PLtsql.popTryCatch, pushTryCatch, AnalyzerContext.record], hf⟩

theorem analyzerExitAct_ok {n : Node} {isExit : Bool} {a a' : AnalyzerContext}
    (h : analyzerExitAct n isExit a = .ok a') : a.loopStack ≠ [] ∧ a' = saveScope n a := by
  unfold analyzerExitAct at h
  split at h
  · simp at h
  · rename_i hl
    exact ⟨fun h₀ => hl (by rw [h₀]; rfl), (Except.ok.inj h).symm⟩

theorem analyzerLabelAct_ok {n : Node} {l : String} {a a' : AnalyzerContext}
    (h : analyzerLabelAct n l a = .ok a') :
    Walked a a' [(n.addr, ⟨a.trycatchInfoStack, a.loopStack⟩)] [(l, n)] [] := by
  unfold analyzerLabelAct at h
  split at h
  · simp at h
  · rename_i hl
    cases h
    exact ⟨by simp [saveScope, AnalyzerContext.record], by simp [FreshLabels, hl]⟩

theorem analyzerGotoAct_eq (l : String) (a : AnalyzerContext) :
    Walked a (analyzerGotoAct n l a) [(n.addr, ⟨a.trycatchInfoStack, a.loopStack⟩)] []
      [(n, l)] :=
  ⟨by simp [analyzerGotoAct, saveScope, AnalyzerContext.record], FreshLabels.nil a⟩

/-- What a successful walk of a statement did and checked. -/
def WalkSpec (s : Stmt) : Prop :=
  ∀ a a', analyzeStmt s a = .ok a' →
    Walked a a' (s.scopes a.trycatchInfoStack a.loopStack) s.labels s.gotos ∧
      s.ExitsInLoop a.loopStack

def WalkSpecList (ss : List Stmt) : Prop :=
  ∀ a a', analyzeList ss a = .ok a' →
    Walked a a' (scopesList a.trycatchInfoStack a.loopStack ss) (labelsList ss) (gotosList ss) ∧
      ExitsInLoopList a.loopStack ss

/-- **A walk that succeeds saves exactly the scopes of the tree.** -/
theorem analyze_walk : (∀ s, WalkSpec s) ∧ ∀ ss, WalkSpecList ss := by
  apply Stmt.ind
  case atomic =>
    intro n a a' h
    cases h
    exact ⟨Walked.refl a, trivial⟩
  case block => intro n body ih a a' h; exact ih a a' h
  case ifThen => intro n c t ih a a' h; exact ih a a' h
  case ifElse =>
    intro n c t e iht ihe a a' h
    obtain ⟨b, hb, h⟩ := bind_eq_ok.mp h
    obtain ⟨w, x⟩ := iht a b hb
    obtain ⟨w', x'⟩ := ihe b a' h
    rw [w.eq] at w' x'
    exact ⟨w.trans (w.eq ▸ w'), x, x'⟩
  case whileLoop =>
    intro n c body ih a a' h
    obtain ⟨b, hb, h⟩ := bind_eq_ok.mp h
    cases h
    obtain ⟨w, x⟩ := ih _ b hb
    exact ⟨((Walked.save n (pushLoop n a)).trans w).popLoop, x⟩
  case exit =>
    intro n isExit a a' h
    obtain ⟨hl, rfl⟩ := analyzerExitAct_ok h
    exact ⟨Walked.save n a, hl⟩
  case ret =>
    intro n a a' h
    cases h
    exact ⟨Walked.save n a, trivial⟩
  case label => intro n l a a' h; exact ⟨analyzerLabelAct_ok h, trivial⟩
  case goto =>
    intro n l a a' h
    cases h
    exact ⟨analyzerGotoAct_eq n l a, trivial⟩
  case tryCatch =>
    intro n b hd ihb ihh a a' h
    obtain ⟨b', hb, h⟩ := bind_eq_ok.mp h
    obtain ⟨c, hc, h⟩ := bind_eq_ok.mp h
    cases h
    obtain ⟨w, x⟩ := ihb _ b' hb
    have w₁ := w.enterCatch
    obtain ⟨w', x'⟩ := ihh _ c hc
    rw [w₁.eq] at w' x'
    exact ⟨(w₁.trans (w₁.eq ▸ w')).popTryCatch, x, x'⟩
  case nil =>
    intro a a' h
    cases h
    exact ⟨Walked.refl a, trivial⟩
  case cons =>
    intro s ss ihs ihss a a' h
    obtain ⟨b, hb, h⟩ := bind_eq_ok.mp h
    obtain ⟨w, x⟩ := ihs a b hb
    obtain ⟨w', x'⟩ := ihss b a' h
    rw [w.eq] at w' x'
    exact ⟨w.trans (w.eq ▸ w'), x, x'⟩

/-! ### Scopes are looked up by address -/

theorem scopes_keys_sublist :
    (∀ (s : Stmt) t l, ((s.scopes t l).map Prod.fst).Sublist s.addrs) ∧
      ∀ (ss : List Stmt) t l, ((scopesList t l ss).map Prod.fst).Sublist (addrsList ss) := by
  apply Stmt.ind
  case atomic => intro n t l; exact nil_sublist _
  case block => intro n body ih t l; exact (ih t l).cons _
  case ifThen => intro n c b ih t l; exact (ih t l).cons _
  case ifElse =>
    intro n c b e ihb ihe t l
    rw [Stmt.scopes, map_append]
    exact ((ihb t l).append (ihe t l)).cons _
  case whileLoop => intro n c body ih t l; exact (ih t _).cons_cons _
  case exit => intro n b t l; exact List.Sublist.refl _
  case ret => intro n t l; exact List.Sublist.refl _
  case label => intro n m t l; exact List.Sublist.refl _
  case goto => intro n m t l; exact List.Sublist.refl _
  case tryCatch =>
    intro n b h ihb ihh t l
    rw [Stmt.scopes, map_append]
    exact ((ihb _ l).append (ihh _ l)).cons _
  case nil => intro t l; exact List.Sublist.refl _
  case cons =>
    intro s ss ihs ihss t l
    rw [scopesList, map_append]
    exact (ihs t l).append (ihss t l)

/-! ### The check on `GOTO` -/

theorem checkGotoStack_iff {α : Type} [DecidableEq α] (src dest : List α) :
    checkGotoStack src dest = true ↔ dest <+: src := by
  induction src generalizing dest with
  | nil => cases dest <;> simp [checkGotoStack]
  | cons x src ih =>
    cases dest with
    | nil => simp [checkGotoStack]
    | cons y dest =>
      rw [cons_prefix_cons, ← ih dest]
      simp only [checkGotoStack, length_cons, zip_cons_cons, all_cons,
        Nat.add_lt_add_iff_right, Bool.and_eq_true, decide_eq_true_eq]
      tauto

/-- `GOTO` `g` of a program with scopes `sc` and labels `ls` has a label that lies in
no part and in no loop but those around `g`. -/
def GotoAccepted (sc : List (Nat × ScopeContext)) (ls : List (String × Node))
    (g : Node × String) : Prop :=
  ∃ label src dest, (g.2, label) ∈ ls ∧ (g.1.addr, src) ∈ sc ∧ (label.addr, dest) ∈ sc ∧
    dest.nestingTrycatchInfos <+: src.nestingTrycatchInfos ∧
    dest.nestingLoops <+: src.nestingLoops

theorem checkGoto_iff {sc ls} {g : Node × String} (hsc : (sc.map Prod.fst).Nodup)
    (hls : (ls.map Prod.fst).Nodup) :
    checkGoto ⟨enterAll HTab.empty sc, enterAll HTab.empty ls⟩ g = .ok () ↔
      GotoAccepted sc ls g := by
  simp only [GotoAccepted, ← enterAll_empty_iff hsc, ← enterAll_empty_iff hls, ← checkGotoStack_iff]
  unfold checkGoto
  cases hl : enterAll HTab.empty ls g.2 with
  | none => simp [hl]
  | some label =>
    cases hs : enterAll HTab.empty sc g.1.addr with
    | none => simp [hl, hs]
    | some src =>
      cases hd : enterAll HTab.empty sc label.addr <;>
        simp [hl, hs, hd, checkGotoTryCatch, checkGotoLoop, ite_error_eq_ok]

variable {f : Func} {cc : CompileContext}

theorem checkUnsupportedGoto_iff {gs : List (Node × String)} :
    checkUnsupportedGoto cc gs = .ok () ↔ ∀ g ∈ gs, checkGoto cc g = .ok () := by
  induction gs with
  | nil => simp [checkUnsupportedGoto]
  | cons g gs ih =>
    rw [forall_mem_cons, ← ih, checkUnsupportedGoto, bind_eq_ok]
    exact ⟨fun ⟨⟨⟩, h⟩ => h, fun h => ⟨(), h⟩⟩

/-! ### What an accepted function is -/

/-- The function passed the analysis with the result `cc`. -/
structure Accepted (f : Func) (cc : CompileContext) : Prop where
  scope : ∀ p ∈ scopesList [] [] f.action, cc.stmtScopeContext p.1 = some p.2
  label : ∀ p ∈ labelsList f.action, cc.labelStmtMap p.1 = some p.2
  labels_nodup : ((labelsList f.action).map Prod.fst).Nodup
  exits : ExitsInLoopList [] f.action
  gotos : ∀ g ∈ gotosList f.action,
    GotoAccepted (scopesList [] [] f.action) (labelsList f.action) g

theorem analyze_iff :
    analyze f = .ok cc ↔ ∃ a, analyzeList f.action makeAnalyzerContext = .ok a ∧ a.cmplCtx = cc ∧
      ∀ g ∈ gotosList f.action,
        GotoAccepted (scopesList [] [] f.action) (labelsList f.action) g := by
  simp only [analyze, bind_eq_ok]
  refine exists_congr fun a => and_congr_right fun ha => ?_
  obtain ⟨rfl, hf⟩ := (analyze_walk.2 f.action _ a ha).1
  have hsc := (scopes_keys_sublist.2 f.action [] []).nodup f.addrs_nodup
  simp only [← checkGoto_iff hsc hf.1, ← checkUnsupportedGoto_iff]
  constructor
  · rintro ⟨⟨⟩, hg, h⟩
    exact ⟨Except.ok.inj h, hg⟩
  · rintro ⟨rfl, hg⟩
    exact ⟨(), hg, rfl⟩

/-- **The contract of the analyzer.** -/
theorem analyze_ok (h : analyze f = .ok cc) : Accepted f cc := by
  obtain ⟨a, ha, rfl, hg⟩ := analyze_iff.mp h
  obtain ⟨⟨rfl, hf⟩, hx⟩ := analyze_walk.2 f.action _ a ha
  refine ⟨?_, ?_, hf.1, hx, hg⟩
  · rintro ⟨k, v⟩ hp
    refine enterAll_of_mem ?_ hp
    exact (scopes_keys_sublist.2 f.action [] []).nodup f.addrs_nodup
  · rintro ⟨k, v⟩ hp
    exact enterAll_of_mem hf.1 hp

end Babelfish.PLtsql
