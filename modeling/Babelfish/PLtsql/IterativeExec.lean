import Babelfish.PLtsql.Codegen

/-!
# The iterative executor

`exec_stmt_iterative` runs the flat code.  Errors travel by `longjmp`: the jump buffer
that `PG_exception_stack` points to is either the caller's or belongs to an error
context that a saving instruction pushed.  The stack of these contexts, the index of
the current one and `PG_exception_stack` are all changed by three parties: the saving
and restoring instructions, and the error path of the main loop.

What conditions evaluate to and which statements fail is left to an `Oracle` that sees
the whole history, so a statement may behave differently each time it is executed.

* `caught`: what `dispatch_stmt_handle_error` does with the error of a statement.
* `landed`: the error path of the main loop, where a `longjmp` lands.
* `execInstr`, `execStep`: one instruction, one step.
-/

namespace Babelfish.PLtsql

/-! ### Errors -/

/-- What the executor asks about an error, the global state it is recorded in included. -/
structure ErrorInfo where
  /-- `!support_tsql_trans && !pltsql_sys_function_pop()` -/
  pgSemantics : Bool
  /-- `last_error_mapping_failed` -/
  mappingFailed : Bool
  /-- `is_ignorable_error` -/
  ignorable : Bool
  /-- `is_current_batch_aborting_error` -/
  currentBatchAborting : Bool
  /-- `ignore_xact_abort_error` -/
  ignoreXactAbort : Bool
  /-- `is_error_raising_batch` -/
  raisingBatch : Bool
  /-- `error_data.xact_abort_on` -/
  xactAbortOn : Bool
  /-- `error_data.trigger_error` -/
  triggerError : Bool
  /-- `error_data.rethrow_error` -/
  rethrowError : Bool
  /-- `latest_pg_error_code` is that of an undefined table or column -/
  undefinedObject : Bool
  /-- `sqlerrcode == ERRCODE_DATATYPE_MISMATCH` -/
  datatypeMismatch : Bool
  /-- `pltsql_insert_exec_active()`, and not at the level of this `TRY`/`CATCH` -/
  insertExec : Bool
deriving DecidableEq, Repr

/-- What the executor asks about the function and its callers. -/
structure CallEnv where
  /-- `ro_func` -/
  roFunc : Bool
  /-- `is_part_of_pltsql_trigger` -/
  partOfTrigger : Bool
  /-- some caller on `exec_state_call_stack` is inside a `TRY`/`CATCH` construct -/
  outerTryCatch : Bool
deriving DecidableEq, Repr

variable (env : CallEnv)

/-- `is_part_of_pltsql_trycatch_block`; `restored` are the `partial_restored` flags of the
error-context stack. -/
def isPartOfPltsqlTrycatchBlock (restored : List Bool) : Bool :=
  decide (1 < restored.length) || decide (restored = [false]) || env.outerTryCatch

variable (e : ErrorInfo)

def abortOnlyCurrentBatch : Bool := e.currentBatchAborting && e.raisingBatch

/-- `abort_execution`: its result, and `*terminate_batch`. -/
def abortExecution (restored : List Bool) (terminateBatch : Bool) : Bool × Bool :=
  if !e.ignorable then (true, terminateBatch)
  else if abortOnlyCurrentBatch e then (true, true)
  else if env.partOfTrigger || e.triggerError then (true, terminateBatch)
  else if e.rethrowError then (true, terminateBatch)
  else if isPartOfPltsqlTrycatchBlock env restored then (true, terminateBatch)
  else if e.xactAbortOn && !e.ignoreXactAbort then (true, terminateBatch)
  else (false, terminateBatch)

/-- `handle_error`: whether it throws the error again, and `*terminate_batch`. -/
def handleError (restored : List Bool) (terminateBatch : Bool) : Bool × Bool :=
  if e.mappingFailed then (true, terminateBatch)
  else
    let r := abortExecution env e restored terminateBatch
    (r.1 || env.roFunc, r.2)

/-- The `PG_CATCH` part of `dispatch_stmt_handle_error`: whether the error is thrown
again, and `*terminate_batch`.  If not, it is reported and execution continues. -/
def caught (restored : List Bool) (terminateBatch : Bool) : Bool × Bool :=
  if e.pgSemantics then (true, terminateBatch)
  else if env.roFunc then (true, terminateBatch)
  else handleError env e restored terminateBatch

def ignoreCatchBlockForUnmappedError : Bool :=
  if e.mappingFailed then
    if !env.partOfTrigger && !e.raisingBatch && e.undefinedObject then false else true
  else false

def ignoreCatchBlockForInsertExec : Bool :=
  if !e.insertExec then false else e.datatypeMismatch

/-- The condition under which the error path throws on instead of running the handler. -/
def ignoreCatchBlock (terminateBatch : Bool) : Bool :=
  ignoreCatchBlockForInsertExec e || ignoreCatchBlockForUnmappedError env e || terminateBatch

/-! ### States -/

/-- A jump buffer: that of the caller, or that of an error context. -/
inductive Handler where
  | caller
  | buf (id : Nat)
deriving DecidableEq, Repr

/-- `PLtsql_errctx`; `buf` names its `local_sigjmp_buf`. -/
structure ErrCtx where
  buf : Nat
  saveExceptionStack : Handler
  targetPc : Nat
  partialRestored : Bool
deriving DecidableEq, Repr

/-- What a run shows: the conditions evaluated and the statements executed, with their
results. -/
inductive Event where
  | cond (c : Expr) (value : Option Bool)
  | exec (n : Node) (error : Option ErrorInfo)
deriving DecidableEq, Repr

/-- The outcome of the next condition or statement, given all that went before. -/
structure Oracle where
  cond : List Event → Expr → Option Bool
  exec : List Event → Node → Option ErrorInfo

inductive Mode where
  | run
  /-- an error is on its way to `PG_exception_stack` -/
  | raise (e : ErrorInfo)
  /-- the error reached the caller -/
  | uncaught (e : ErrorInfo)
  /-- an access outside of the error-context stack, or a jump to a released buffer -/
  | crashed
deriving DecidableEq, Repr

/-- The state of `exec_stmt_iterative`.  `returned` is `rc == PLTSQL_RC_RETURN`, `nextBuf`
names the next jump buffer. -/
structure ExecState where
  pc : Nat
  errCtxStack : List ErrCtx
  curErrCtxIdx : Nat
  pgExceptionStack : Handler
  nextBuf : Nat
  terminateBatch : Bool
  returned : Bool
  mode : Mode
  trace : List Event
deriving DecidableEq, Repr

def ExecState.init : ExecState := ⟨0, [], 0, .caller, 0, false, false, .run, []⟩

/-! ### Error contexts -/

/-- The loop `for (i = idx - 1; i >= 0; i--)` that looks for an unrestored context. -/
def nextActive (stack : List ErrCtx) : Nat → Option Nat
  | 0 => none
  | i + 1 =>
    match stack[i]? with
    | none => none
    | some c => if c.partialRestored then nextActive stack i else some i

/-- `SAVE_CTX` when `sigsetjmp` returns the first time. -/
def saveCtx (targetPc : Nat) (s : ExecState) : ExecState :=
  let stack := s.errCtxStack ++ [⟨s.nextBuf, s.pgExceptionStack, targetPc, false⟩]
  { s with
    pc := s.pc + 1
    errCtxStack := stack
    curErrCtxIdx := stack.length - 1
    pgExceptionStack := .buf s.nextBuf
    nextBuf := s.nextBuf + 1 }

/-- `restore_ctx_full`, and the increment of the program counter. -/
def restoreCtxFull (s : ExecState) : ExecState :=
  match s.errCtxStack[s.curErrCtxIdx]? with
  | none => { s with mode := .crashed }
  | some ctx =>
    let stack := s.errCtxStack.dropLast
    { s with
      pc := s.pc + 1
      errCtxStack := stack
      curErrCtxIdx := (nextActive stack s.curErrCtxIdx).getD s.curErrCtxIdx
      pgExceptionStack := ctx.saveExceptionStack }

def restoreCtxPartial2 (s : ExecState) : ExecState :=
  match s.errCtxStack.getLast? with
  | none => { s with mode := .crashed }
  | some _ => { s with errCtxStack := s.errCtxStack.dropLast }

/-- `exec_stmt_restore_ctx_partial`, and the increment of the program counter. -/
def restoreCtxPartial (s : ExecState) : ExecState :=
  { restoreCtxPartial2 s with pc := (restoreCtxPartial2 s).pc + 1 }

/-- `SAVE_CTX` when `sigsetjmp` returns through a `longjmp`.  The contexts above the
current one are dropped, the current one is marked and its handler started. -/
def landed (s : ExecState) : ExecState :=
  match s.errCtxStack[s.curErrCtxIdx]? with
  | none => { s with mode := .crashed }
  | some ctx =>
    let stack := (s.errCtxStack.take (s.curErrCtxIdx + 1)).set s.curErrCtxIdx
      { ctx with partialRestored := true }
    { s with
      pc := ctx.targetPc
      errCtxStack := stack
      curErrCtxIdx := (nextActive stack s.curErrCtxIdx).getD s.curErrCtxIdx
      pgExceptionStack := ctx.saveExceptionStack
      mode := if ignoreCatchBlock env e s.terminateBatch then .raise e else .run }

/-- A `longjmp` to `PG_exception_stack`. -/
def longjmp (s : ExecState) : ExecState :=
  match s.pgExceptionStack with
  | .caller => { s with mode := .uncaught e }
  | .buf id =>
    if id ∈ s.errCtxStack.map ErrCtx.buf then landed env e s else { s with mode := .crashed }

/-! ### Instructions -/

/-- `dispatch_stmt_handle_error` on the statement at node `n`, and the increment of the
program counter; `isReturn` if it is a `RETURN`. -/
def dispatchStmtHandleError (o : Oracle) (n : Node) (isReturn : Bool) (s : ExecState) : ExecState :=
  match o.exec s.trace n with
  | none =>
    { s with
      pc := s.pc + 1
      returned := s.returned || isReturn
      trace := s.trace ++ [.exec n none] }
  | some e =>
    let r := caught env e (s.errCtxStack.map ErrCtx.partialRestored) s.terminateBatch
    let s : ExecState := { s with terminateBatch := r.2, trace := s.trace ++ [.exec n (some e)] }
    if r.1 then { s with mode := .raise e } else { s with pc := s.pc + 1 }

/-- `exec_stmt_goto`, and the increment of the program counter. -/
def execStmtGoto (o : Oracle) (cond : Option Expr) (targetPc : Nat) (s : ExecState) : ExecState :=
  match cond with
  | none => { s with pc := targetPc }
  | some c =>
    let value := o.cond s.trace c
    let s : ExecState := { s with trace := s.trace ++ [.cond c value] }
    -- jump if the condition is NULL or false
    if value = none ∨ value = some false then { s with pc := targetPc }
    else { s with pc := s.pc + 1 }

/-- One round of the main loop. -/
def execInstr (o : Oracle) (s : ExecState) : Instr Nat → ExecState
  | .stmt n => dispatchStmtHandleError env o n false s
  | .ret n => dispatchStmtHandleError env o n true s
  | .goto _ cond targetPc => execStmtGoto o cond targetPc s
  | .saveCtx _ targetPc => saveCtx targetPc s
  | .restoreCtxFull _ => restoreCtxFull s
  | .restoreCtxPartial _ => restoreCtxPartial s

/-- One step: an instruction, or the transfer of an error.  There is none once the
function has ended. -/
def execStep (codes : List (Instr Nat)) (env : CallEnv) (o : Oracle) (s : ExecState) :
    Option ExecState :=
  match s.mode with
  | .run => codes[s.pc]?.map (execInstr env o s)
  | .raise e => some (longjmp env e s)
  | .uncaught _ => none
  | .crashed => none

end Babelfish.PLtsql
