import Babelfish.PLtsql.IterativeExec

/-!
# The structured semantics

What a statement tree means, without code, labels or error contexts.  A state is a
list of statements to run and a continuation: what encloses them and what comes after.
Conditions and statements get their results from the same `Oracle` as the executor.

A failing statement either is reported only, and execution continues with the next
statement, or raises its error.  A raised error unwinds the continuation to the
innermost enclosing `TRY` part and runs the `CATCH` part there, unless it is one that
`CATCH` parts ignore.  Which errors are raised and which are ignored is a parameter:
`executorPolicy` is what the executor does, under `strictPolicy` every error is raised
and none is ignored.

* `Cont`: continuations.
* `findLabel`: where a `GOTO` goes on.
* `structStep`: one step.
-/

namespace Babelfish.PLtsql

/-- What encloses the statements being run, the innermost first. -/
inductive Cont where
  /-- the end of the function -/
  | stop
  /-- then run `ss` -/
  | seq (ss : List Stmt) (k : Cont)
  /-- inside the body of a loop -/
  | loop (n : Node) (c : Expr) (body : List Stmt) (k : Cont)
  /-- inside the `TRY` part of a construct -/
  | tryPart (n : Node) (handler : Stmt) (k : Cont)
  /-- inside the `CATCH` part of a construct -/
  | catchPart (n : Node) (k : Cont)

/-- The enclosing `TRY`/`CATCH` constructs, the outermost first: whether the `CATCH` part
is being run. -/
def Cont.catching : Cont → List Bool
  | .stop => []
  | .seq _ k => k.catching
  | .loop _ _ _ k => k.catching
  | .tryPart _ _ k => k.catching ++ [false]
  | .catchPart _ k => k.catching ++ [true]

/-- The innermost enclosing loop, and what comes after it. -/
def Cont.innermostLoop : Cont → Option (Stmt × Cont)
  | .stop => none
  | .seq _ k => k.innermostLoop
  | .loop n c body k => some (.whileLoop n c body, k)
  | .tryPart _ _ k => k.innermostLoop
  | .catchPart _ k => k.innermostLoop

mutual
/-- The statements after label `l` and what encloses them, if the label is in the
statement, which is followed by `k`. -/
def findLabel (l : String) : Stmt → Cont → Option (List Stmt × Cont)
  | .label _ l', k => if l' = l then some ([], k) else none
  | .block _ body, k => findLabelList l body k
  | .ifElse _ _ b none, k => findLabel l b k
  | .ifElse _ _ b (some e), k => (findLabel l b k).or (findLabel l e k)
  | .whileLoop n c body, k => findLabelList l body (.loop n c body k)
  | .tryCatch n b h, k => (findLabel l b (.tryPart n h k)).or (findLabel l h (.catchPart n k))
  | .atomic _, _ | .exit _ _, _ | .ret _, _ | .goto _ _, _ => none

def findLabelList (l : String) : List Stmt → Cont → Option (List Stmt × Cont)
  | [], _ => none
  | s :: ss, k => (findLabel l s (.seq ss k)).or (findLabelList l ss k)
end

inductive Control where
  | run (ss : List Stmt) (k : Cont)
  /-- an error on its way out; `ignoreCatch` if `CATCH` parts ignore it -/
  | raise (e : ErrorInfo) (ignoreCatch : Bool) (k : Cont)
  | finished (returned : Bool)
  | uncaught (e : ErrorInfo)

structure StructState where
  control : Control
  trace : List Event

def StructState.init (f : Func) : StructState := ⟨.run f.action .stop, []⟩

/-- What becomes of an error inside the given constructs: nothing if it is only reported,
else whether `CATCH` parts ignore it. -/
abbrev ErrorPolicy := List Bool → ErrorInfo → Option Bool

def executorPolicy (env : CallEnv) : ErrorPolicy := fun catching e =>
  let r := caught env e catching false
  if r.1 then some (ignoreCatchBlock env e r.2) else none

/-- Every error is raised, and every `CATCH` part runs. -/
def strictPolicy : ErrorPolicy := fun _ _ => some false

/-- A statement inside `k` failed with `e`; `next` is where execution goes on if the error
is only reported. -/
def failed (policy : ErrorPolicy) (e : ErrorInfo) (k : Cont) (next : Control) : Control :=
  match policy k.catching e with
  | none => next
  | some ignoreCatch => .raise e ignoreCatch k

/-- A raised error leaves one enclosing construct. -/
def unwind (e : ErrorInfo) (ignoreCatch : Bool) : Cont → Control
  | .stop => .uncaught e
  | .seq _ k => .raise e ignoreCatch k
  | .loop _ _ _ k => .raise e ignoreCatch k
  | .catchPart _ k => .raise e ignoreCatch k
  | .tryPart n h k => if ignoreCatch then .raise e ignoreCatch k else .run [h] (.catchPart n k)

/-- The end of the innermost enclosing construct. -/
def leaveBlock : Cont → Control
  | .stop => .finished false
  | .seq ss k => .run ss k
  | .loop n c body k => .run [.whileLoop n c body] k
  | .tryPart _ _ k => .run [] k
  | .catchPart _ k => .run [] k

/-- A branch on condition `c`; NULL counts as false. -/
def branch (o : Oracle) (c : Expr) (trace : List Event) (yes no : Control) : StructState :=
  let value := o.cond trace c
  ⟨if value = some true then yes else no, trace ++ [.cond c value]⟩

/-- Execute the statement at `n` inside `k`. -/
def execute (policy : ErrorPolicy) (o : Oracle) (n : Node) (trace : List Event) (k : Cont)
    (ok next : Control) : StructState :=
  match o.exec trace n with
  | none => ⟨ok, trace ++ [.exec n none]⟩
  | some e => ⟨failed policy e k next, trace ++ [.exec n (some e)]⟩

/-- One step of a function with the statements `prog`.  A `RETURN` whose value fails to
evaluate still ends the function if the error is only reported. -/
def structStep (prog : List Stmt) (policy : ErrorPolicy) (o : Oracle) (a : StructState) :
    Option StructState :=
  match a.control with
  | .run [] k => some ⟨leaveBlock k, a.trace⟩
  | .run (.atomic n :: ss) k => some (execute policy o n a.trace k (.run ss k) (.run ss k))
  | .run (.block _ body :: ss) k => some ⟨.run body (.seq ss k), a.trace⟩
  | .run (.ifElse _ c b none :: ss) k =>
    some (branch o c a.trace (.run [b] (.seq ss k)) (.run ss k))
  | .run (.ifElse _ c b (some e) :: ss) k =>
    some (branch o c a.trace (.run [b] (.seq ss k)) (.run [e] (.seq ss k)))
  | .run (.whileLoop n c body :: ss) k =>
    some (branch o c a.trace (.run body (.loop n c body (.seq ss k))) (.run ss k))
  | .run (.exit _ isExit :: ss) k =>
    match k.innermostLoop with
    | none => some ⟨.run ss k, a.trace⟩
    | some (loop, k') => some ⟨.run (if isExit then [] else [loop]) k', a.trace⟩
  | .run (.ret n :: _) k => some (execute policy o n a.trace k (.finished true) (.finished false))
  | .run (.label _ _ :: ss) k => some ⟨.run ss k, a.trace⟩
  | .run (.goto _ l :: _) _ =>
    (findLabelList l prog .stop).map fun p => ⟨.run p.1 p.2, a.trace⟩
  | .run (.tryCatch n b h :: ss) k => some ⟨.run [b] (.tryPart n h (.seq ss k)), a.trace⟩
  | .raise e ignoreCatch k => some ⟨unwind e ignoreCatch k, a.trace⟩
  | .finished _ => none
  | .uncaught _ => none

/-! ### Results -/

inductive Exit where
  | finished (returned : Bool)
  | uncaught (e : ErrorInfo)
  | stuck
deriving DecidableEq, Repr

def StructState.exit (a : StructState) : Exit :=
  match a.control with
  | .finished returned => .finished returned
  | .uncaught e => .uncaught e
  | .run _ _ | .raise _ _ _ => .stuck

def ExecState.exit (s : ExecState) : Exit :=
  match s.mode with
  | .run => .finished s.returned
  | .uncaught e => .uncaught e
  | .raise _ | .crashed => .stuck

end Babelfish.PLtsql
