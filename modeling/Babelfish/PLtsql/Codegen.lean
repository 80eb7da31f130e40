import Babelfish.PLtsql.Analyzer

/-!
# Code generation

`codegen.c` flattens a statement tree into a vector of instructions.  `IF` and
`WHILE` become conditional jumps, a `TRY`/`CATCH` construct is bracketed by
instructions that save and restore the error context, and a jump that leaves
such constructs first restores their contexts, the innermost one first.  Jumps
name labels while the code is generated; the labels are resolved at the end.

* `Instr`: the instructions, before (`Instr Label`) and after (`Instr Nat`) the
  labels are resolved.
* `genStmt`: the walk of the tree, one case for each visitor action.
* `genExecCode`: the code of a function.
-/

namespace Babelfish.PLtsql

open Lib

/-! ### Instructions -/

/-- The keys of `label_index`.  A user label is stored in lower case, so its text is
never that of a generated one. -/
inductive Label where
  | user (name : String)
  | loopBegin (n : Node)
  | loopEnd (n : Node)
  | catchBegin (n : Node)
  | catchEnd (n : Node)
  | elseBegin (n : Node)
  | elseEnd (n : Node)
  | endOfProc
deriving DecidableEq, Repr

/-- An element of `exec_codes->codes`, with jump targets in `τ`. -/
inductive Instr (τ : Type) where
  | stmt (n : Node)
  | ret (n : Node)
  | goto (lineno : Nat) (cond : Option Expr) (target : τ)
  | saveCtx (lineno : Nat) (target : τ)
  | restoreCtxFull (lineno : Nat)
  | restoreCtxPartial (lineno : Nat)
deriving DecidableEq, Repr

/-- `CodegenContext` without its compile context, which does not change. -/
structure CodegenContext where
  codes : List (Instr Label)
  labelIndex : HTab Label Nat
  loopContexts : List Node

/-- The error of `get_label_index`, and the dereference of a table entry or of a loop
context that is not there. -/
inductive CodegenError where
  | labelNotFound (label : Label)
  | nullPointer
deriving DecidableEq, Repr

def pointerText (addr : Nat) : String := "0x" ++ String.ofList (Nat.toDigits 16 addr)

/-- The text of a label.  The address of the walker in `END_OF_PROC` is left out. -/
def Label.text : Label → String
  | user name => name
  | loopBegin n => s!"$LOOP_BEGIN_{n.lineno}_-0x" ++ pointerText n.addr
  | loopEnd n => s!"$LOOP_END_{n.lineno}_-0x" ++ pointerText n.addr
  | catchBegin n => s!"$CATCH_BEGIN_{n.lineno}_-0x" ++ pointerText n.addr
  | catchEnd n => s!"$CATCH_END_{n.lineno}_-0x" ++ pointerText n.addr
  | elseBegin n => s!"$ELSE_BEGIN_{n.lineno}_-0x" ++ pointerText n.addr
  | elseEnd n => s!"$ELSE_END_{n.lineno}_-0x" ++ pointerText n.addr
  | endOfProc => "$END_OF_PROC_0_-0x"

def CodegenError.message : CodegenError → String
  | labelNotFound label => "Label NOT found  " ++ label.text
  | nullPointer => "null pointer dereference"

/-! ### Helper functions -/

def addStmt (i : Instr Label) (g : CodegenContext) : CodegenContext :=
  { g with codes := g.codes ++ [i] }

def addStmts (is : List (Instr Label)) (g : CodegenContext) : CodegenContext :=
  { g with codes := g.codes ++ is }

/-- `create_and_register_label`: the label is at the next slot. -/
def createAndRegisterLabel (l : Label) (g : CodegenContext) : CodegenContext :=
  { g with labelIndex := enter g.labelIndex l g.codes.length }

/-- The instruction that leaves a part of a `TRY`/`CATCH` construct. -/
def restoreFor (lineno : Nat) (info : TryCatchInfo) : Instr Label :=
  if info.inTryBlock then .restoreCtxFull lineno else .restoreCtxPartial lineno

/-- The loop `for (i = src_depth; i > dst_depth; i--)` of the cleanup functions, from
`i`. -/
def cleanupLoop (lineno : Nat) (infos : List TryCatchInfo) (dstDepth : Nat) :
    Nat → List (Instr Label)
  | 0 => []
  | i + 1 =>
    if dstDepth < i + 1 then
      (infos[i]?.map (restoreFor lineno)).toList ++ cleanupLoop lineno infos dstDepth i
    else []

variable (cc : CompileContext)

def cleanupExceptionContext (src dst : Node) (g : CodegenContext) :
    Except CodegenError CodegenContext :=
  match cc.stmtScopeContext src.addr, cc.stmtScopeContext dst.addr with
  | some s, some d =>
    let infos := s.nestingTrycatchInfos
    .ok (addStmts
      (cleanupLoop src.lineno infos d.nestingTrycatchInfos.length infos.length) g)
  | _, _ => .error .nullPointer

def cleanupAllExceptionContext (src : Node) (g : CodegenContext) :
    Except CodegenError CodegenContext :=
  match cc.stmtScopeContext src.addr with
  | some s =>
    let infos := s.nestingTrycatchInfos
    .ok (addStmts (cleanupLoop src.lineno infos 0 infos.length) g)
  | none => .error .nullPointer

/-! ### Visitor actions -/

def stmtExitAct (n : Node) (isExit : Bool) (g : CodegenContext) :
    Except CodegenError CodegenContext :=
  match g.loopContexts.getLast? with
  | none => .error .nullPointer
  | some w => do
    let target := if isExit then Label.loopEnd w else Label.loopBegin w
    let g ← cleanupExceptionContext cc n w g
    return addStmt (.goto n.lineno none target) g

def stmtReturnAct (n : Node) (g : CodegenContext) :
    Except CodegenError CodegenContext := do
  let g ← cleanupAllExceptionContext cc n (addStmt (.ret n) g)
  return addStmt (.goto n.lineno none .endOfProc) g

def stmtGotoAct (n : Node) (l : String) (g : CodegenContext) :
    Except CodegenError CodegenContext :=
  match cc.labelStmtMap l with
  | none => .error .nullPointer
  | some dest => do
    let g ← cleanupExceptionContext cc n dest g
    return addStmt (.goto n.lineno none (.user l)) g

def pushLoopContext (n : Node) (g : CodegenContext) : CodegenContext :=
  { g with loopContexts := g.loopContexts ++ [n] }

def popLoopContext (g : CodegenContext) : CodegenContext :=
  { g with loopContexts := g.loopContexts.dropLast }

mutual
/-- `general_walker_func` with the actions of the code generator. -/
def genStmt (cc : CompileContext) : Stmt → CodegenContext → Except CodegenError CodegenContext
  | .atomic n, g => .ok (addStmt (.stmt n) g)
  | .block _ body, g => genList cc body g
  | .ifElse n c t none, g => do
    let g ← genStmt cc t (addStmt (.goto n.lineno (some c) (.elseEnd n)) g)
    return createAndRegisterLabel (.elseEnd n) g
  | .ifElse n c t (some e), g => do
    let g ← genStmt cc t (addStmt (.goto n.lineno (some c) (.elseBegin n)) g)
    let g := addStmt (.goto n.lineno none (.elseEnd n)) g
    let g ← genStmt cc e (createAndRegisterLabel (.elseBegin n) g)
    return createAndRegisterLabel (.elseEnd n) g
  | .whileLoop n c body, g => do
    let g := createAndRegisterLabel (.loopBegin n) (pushLoopContext n g)
    let g ← genList cc body (addStmt (.goto n.lineno (some c) (.loopEnd n)) g)
    let g := addStmt (.goto n.lineno none (.loopBegin n)) g
    return popLoopContext (createAndRegisterLabel (.loopEnd n) g)
  | .exit n isExit, g => stmtExitAct cc n isExit g
  | .ret n, g => stmtReturnAct cc n g
  | .label _ l, g => .ok (createAndRegisterLabel (.user l) g)
  | .goto n l, g => stmtGotoAct cc n l g
  | .tryCatch n b h, g => do
    let g ← genStmt cc b (addStmt (.saveCtx n.lineno (.catchBegin n)) g)
    let g := addStmt (.restoreCtxFull n.lineno) g
    let g := addStmt (.goto n.lineno none (.catchEnd n)) g
    let g ← genStmt cc h (createAndRegisterLabel (.catchBegin n) g)
    let g := addStmt (.restoreCtxPartial n.lineno) g
    return createAndRegisterLabel (.catchEnd n) g

def genList (cc : CompileContext) : List Stmt → CodegenContext →
    Except CodegenError CodegenContext
  | [], g => .ok g
  | s :: ss, g => do
    let g ← genStmt cc s g
    genList cc ss g
end

/-! ### Resolving labels -/

def getLabelIndex (labelIndex : HTab Label Nat) (l : Label) : Except CodegenError Nat :=
  match labelIndex l with
  | some pc => .ok pc
  | none => .error (.labelNotFound l)

def resolveInstr (labelIndex : HTab Label Nat) : Instr Label → Except CodegenError (Instr Nat)
  | .stmt n => .ok (.stmt n)
  | .ret n => .ok (.ret n)
  | .goto lineno c l => do return .goto lineno c (← getLabelIndex labelIndex l)
  | .saveCtx lineno l => do return .saveCtx lineno (← getLabelIndex labelIndex l)
  | .restoreCtxFull lineno => .ok (.restoreCtxFull lineno)
  | .restoreCtxPartial lineno => .ok (.restoreCtxPartial lineno)

def resolveLabels (labelIndex : HTab Label Nat) :
    List (Instr Label) → Except CodegenError (List (Instr Nat))
  | [] => .ok []
  | i :: is => do
    let i ← resolveInstr labelIndex i
    let is ← resolveLabels labelIndex is
    return i :: is

def makeCodegenContext : CodegenContext := ⟨[], HTab.empty, []⟩

/-- `gen_exec_code`, on a function that has no code yet. -/
def genExecCode (f : Func) (cc : CompileContext) : Except CodegenError (List (Instr Nat)) := do
  let g ← genList cc f.action makeCodegenContext
  let g := createAndRegisterLabel .endOfProc g
  resolveLabels g.labelIndex g.codes

end Babelfish.PLtsql
