import Babelfish.Tds.Tokens

/-!
# Done tokens

A done token is only queued when it is sent: whether more tokens follow is known when the next one
is sent.  `SendPendingDone` finishes the queued token, and drops it when counts are off and it ends
a statement of a procedure that is no `SELECT`.

* `sendPendingDone`, `tdsSendDone`, `tdsSendError`, `tdsFlush`: the senders on the state of the
  module.
* `response`: the tokens of a request, from the calls of the senders.
* `statementEnd`: the calls at the end of a statement.
-/

namespace Babelfish.Response

/-! ### Tokens -/

inductive DoneKind where
  | done | doneProc | doneInProc
  deriving DecidableEq, Repr

def doneMore : BitVec 16 := 0x01

def doneError : BitVec 16 := 0x02

def doneCount : BitVec 16 := 0x10

def hasMore (status : BitVec 16) : Bool := status.getLsbD 0

def hasError (status : BitVec 16) : Bool := status.getLsbD 1

def hasCount (status : BitVec 16) : Bool := status.getLsbD 4

def cmdUnknown : Nat := 0x02

def cmdSelect : Nat := 0xC1

def cmdSelectInto : Nat := 0xC2

def cmdInsert : Nat := 0xC3

def cmdDelete : Nat := 0xC4

def cmdUpdate : Nat := 0xC5

def cmdMerge : Nat := 0x117

def cmdExecute : Nat := 0xE0

/-- A done token: queued, or on the wire. -/
structure Done where
  kind : DoneKind
  status : BitVec 16
  curCmd : Nat
  rowCnt : Nat
  deriving DecidableEq, Repr

inductive Sender where
  | info | envChange | rowDescription | returnStatus | returnValue
  deriving DecidableEq, Repr

inductive Token where
  | error (message : String)
  | other (sender : Sender) (body : List UInt8)
  | done (d : Done)
  deriving DecidableEq, Repr

/-! ### The senders -/

/-- `TdsPendingDone*`, where no pending token stands for `TdsHavePendingDone` being false,
`markErrorFlag`, and the tokens on the wire. -/
structure ResponseState where
  pending : Option (Bool × Done)
  markErrorFlag : Bool
  sent : List Token
  deriving DecidableEq, Repr

/-- The token is dropped: counts are off and it is the end of a statement of a procedure that is no
`SELECT`. -/
def suppressed (nocount : Bool) (d : Done) : Bool :=
  nocount && d.kind = .doneInProc && d.curCmd ≠ cmdSelect

/-- The status without the count, when counts are off or an error is marked. -/
def countedStatus (nocount : Bool) (status : BitVec 16) : BitVec 16 :=
  let status := if nocount then status &&& ~~~doneCount else status
  if hasError status then status &&& ~~~doneCount else status

variable (tdsVersion : Nat)

/-- `SendPendingDone`.  A row count that the version cannot send ends the connection. -/
def sendPendingDone (more : Bool) (s : ResponseState) : Option ResponseState :=
  match s.pending with
  | none => some s
  | some (nocount, d) =>
    let status := countedStatus nocount d.status
    if more && suppressed nocount d then some { s with pending := none }
    else
      let status := if more then status ||| doneMore else status
      if tdsVersion ≤ tdsVersion7_1_1 ∧ 2 ^ 32 - 1 < d.rowCnt then none
      else some { s with
        pending := none, sent := s.sent ++ [.done { d with status := status }] }

def tdsSendDone (nocount : Bool) (d : Done) (s : ResponseState) :
    Option ResponseState := do
  let s ← sendPendingDone tdsVersion true s
  let status := if s.markErrorFlag then d.status ||| doneError else d.status
  return { s with pending := some (nocount, { d with status := status }), markErrorFlag := false }

/-- The token of `TdsSendInfo`, `TdsSendEnvChange`, `PrepareRowDescription` with the description,
`TdsSendReturnStatus` or `SendReturnValueTokenInternal`. -/
def tdsSendOther (sender : Sender) (body : List UInt8) (s : ResponseState) :
    Option ResponseState := do
  let s ← sendPendingDone tdsVersion true s
  return { s with sent := s.sent ++ [.other sender body] }

/-- `TdsSendError`.  When the message cannot be converted, another one is sent and the error is
raised again, before the flag is set. -/
def tdsSendError (message : String) (converts : Bool) (s : ResponseState) :
    Option ResponseState := do
  let s ← sendPendingDone tdsVersion true s
  if converts then
    return { s with sent := s.sent ++ [.error message], markErrorFlag := true }
  else
    return { s with sent := s.sent ++ [.error "internal error occurred"] }

def tdsFlush (s : ResponseState) : Option ResponseState := do
  let s ← sendPendingDone tdsVersion false s
  return { s with markErrorFlag := false }

/-! ### Requests -/

/-- A call of a sender; a done token with the value of `NOCOUNT` at the call. -/
inductive Call where
  | error (message : String) (converts : Bool)
  | other (sender : Sender) (body : List UInt8)
  | done (nocount : Bool) (d : Done)
  deriving DecidableEq, Repr

def call : Call → ResponseState → Option ResponseState
  | .error message converts => tdsSendError tdsVersion message converts
  | .other sender body => tdsSendOther tdsVersion sender body
  | .done nocount d => tdsSendDone tdsVersion nocount d

def runCalls (tdsVersion : Nat) : List Call → ResponseState → Option ResponseState
  | [], s => some s
  | c :: cs, s => do
    let s ← call tdsVersion c s
    runCalls tdsVersion cs s

/-- The tokens of a request: the calls from a fresh state, closed by `TdsFlush`. -/
def response (calls : List Call) : Option (List Token) := do
  let s ← runCalls tdsVersion calls ⟨none, false, []⟩
  let s ← tdsFlush tdsVersion s
  return s.sent

/-! ### The end of a statement -/

/-- The command of a planned query, as far as `StatementEnd_Internal` tells them apart. -/
inductive CommandTag where
  | insert | update | delete | merge | select | other
  deriving DecidableEq, Repr

/-- What `StatementEnd_Internal` uses of a statement. -/
inductive EndedStmt where
  /-- `GOTO`, `RETURN` and the statements of table valued functions -/
  | noDone
  /-- an assignment, or the result of an expression -/
  | assign
  /-- a query: its plans, whether it only selects into nothing, whether an `INSERT EXEC` is active,
  and whether it changes a table variable in a function -/
  | execSql (tags : List CommandTag) (plainSelect insertExecActive tablevarInFunction : Bool)
  /-- `EXEC` of a procedure, or of a scalar function -/
  | exec (isScalarFunc insertExec : Bool) (returnStatus : Int)
  /-- `EXEC` of a batch or of a system procedure -/
  | execOther (insertExec : Bool)
  | other
  deriving DecidableEq, Repr

/-- `command_type` and `row_count_valid` of a query; the last plan counts. -/
def queryCommand (toplevel plainSelect insertExecActive : Bool) :
    List CommandTag → Nat × Bool → Nat × Bool
  | [], acc => acc
  | tag :: tags, acc =>
    queryCommand toplevel plainSelect insertExecActive tags <|
      match tag with
      | .insert => (cmdInsert, !insertExecActive)
      | .update => (cmdUpdate, !insertExecActive)
      | .delete => (cmdDelete, !insertExecActive)
      | .merge => (cmdMerge, !insertExecActive)
      | .select =>
        (if toplevel && plainSelect then cmdSelectInto else cmdSelect, !insertExecActive)
      | .other => acc

def EndedStmt.isProc : EndedStmt → Bool
  | .exec _ _ _ | .execOther _ => true
  | _ => false

def EndedStmt.command (toplevel markErrorFlag : Bool) : EndedStmt → Nat × Bool
  | .noDone | .other => (cmdUnknown, false)
  | .assign => (cmdSelect, true)
  | .execSql tags plainSelect insertExecActive _ =>
    queryCommand toplevel plainSelect insertExecActive tags (cmdUnknown, false)
  | .exec _ insertExec _ | .execOther insertExec =>
    if !markErrorFlag && insertExec then (cmdInsert, true) else (cmdExecute, false)

def EndedStmt.skipDone : EndedStmt → Bool
  | .noDone => true
  | .execSql _ _ _ tablevarInFunction => tablevarInFunction
  | _ => false

/-- The return status that is sent for a procedure at top level. -/
def EndedStmt.returnStatus : EndedStmt → List Int
  | .exec isScalarFunc _ status => if isScalarFunc then [] else [status]
  | .execOther _ => [0]
  | _ => []

/-- `StatementEnd_Internal`: the calls at the end of a statement that leaves `stack` statements
open.  `customRpc` is an RPC of a procedure by name, which sends its end itself. -/
def statementEnd (stack : Nat) (markErrorFlag nocount inFunction customRpc error : Bool)
    (evalProcessed : Nat) (stmt : EndedStmt) : List Call :=
  let toplevel := stack = 0
  if inFunction then []
  else if toplevel && stmt.isProc && customRpc then []
  else
    let (commandType, rowCountValid) := stmt.command toplevel markErrorFlag
    let status := if !markErrorFlag && toplevel && stmt.isProc then
        stmt.returnStatus.map fun n => Call.other .returnStatus (intBytes 4 n)
      else []
    let kind : DoneKind :=
      if toplevel && stmt.isProc then .doneProc else if toplevel then .done else .doneInProc
    let flags := (if rowCountValid then doneCount else 0) ||| (if toplevel then 0 else doneMore)
    let nprocessed := if rowCountValid && !error then evalProcessed else 0
    status ++
      if stmt.skipDone then [] else [.done nocount ⟨kind, flags, commandType, nprocessed⟩]

end Babelfish.Response
