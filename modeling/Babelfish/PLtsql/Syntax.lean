import Mathlib.Data.List.Nodup

/-!
# PL/tsql statement trees

`pltsql.h` and `pltsql-2.h` describe a procedure as a tree of statements.  A
node is known to the compiler by its address: the scope map of the analyzer is
keyed by it and the labels that the code generator makes up are printed from it.
`Node` keeps that address with the line number, and a `Func` carries the fact
that no two nodes of its body share an address.

* `Stmt` is the tree.  `block` stands for `PLtsql_stmt_block` and for
  `PLtsql_stmt_init`: the walkers visit the children of both in order and emit
  nothing for the node itself.  `atomic` is every leaf that the executor runs
  through `dispatch_stmt`.
* `Stmt.addrs`, `Stmt.labels`: the addresses and the user labels of a tree.
* `Stmt.ind`: induction over a tree and over a statement list at once.
-/

namespace Babelfish.PLtsql

/-- A node of the parse tree: its address and the line it was read from. -/
structure Node where
  addr : Nat
  lineno : Nat
deriving DecidableEq, Repr

/-- A condition, known by the address of its `PLtsql_expr`. -/
abbrev Expr := Nat

inductive Stmt where
  | atomic (n : Node)
  | block (n : Node) (body : List Stmt)
  | ifElse (n : Node) (cond : Expr) (thenBody : Stmt) (elseBody : Option Stmt)
  | whileLoop (n : Node) (cond : Expr) (body : List Stmt)
  | exit (n : Node) (isExit : Bool)
  | ret (n : Node)
  | label (n : Node) (name : String)
  | goto (n : Node) (targetLabel : String)
  | tryCatch (n : Node) (body handler : Stmt)
deriving Repr

/-- Induction on a tree together with its statement lists. -/
theorem Stmt.ind {P : Stmt → Prop} {Q : List Stmt → Prop} (atomic : ∀ n, P (.atomic n))
    (block : ∀ n body, Q body → P (.block n body)) (ifThen : ∀ n c t, P t → P (.ifElse n c t none))
    (ifElse : ∀ n c t e, P t → P e → P (.ifElse n c t (some e)))
    (whileLoop : ∀ n c body, Q body → P (.whileLoop n c body)) (exit : ∀ n b, P (.exit n b))
    (ret : ∀ n, P (.ret n)) (label : ∀ n l, P (.label n l)) (goto : ∀ n l, P (.goto n l))
    (tryCatch : ∀ n b h, P b → P h → P (.tryCatch n b h)) (nil : Q [])
    (cons : ∀ s ss, P s → Q ss → Q (s :: ss)) :
    (∀ s, P s) ∧ ∀ ss, Q ss := by
  have hs : ∀ s, P s := by
    intro s
    -- the third motive is for the optional ELSE body, on which the cases split
    refine @Stmt.rec P Q (fun o => ∀ e, o = some e → P e)
      ?_ ?_ ?_ ?_ ?_ ?_ ?_ ?_ ?_ ?_ ?_ ?_ ?_ s
    · exact atomic
    · exact block
    · intro n c t o ht ho
      cases o with
      | none => exact ifThen n c t ht
      | some e => exact ifElse n c t e ht (ho e rfl)
    · exact whileLoop
    · exact exit
    · exact ret
    · exact label
    · exact goto
    · exact tryCatch
    · exact nil
    · exact cons
    · intro e he; cases he
    · intro v hv e he; cases he; exact hv
  refine ⟨hs, fun ss => ?_⟩
  induction ss with
  | nil => exact nil
  | cons s ss ih => exact cons s ss (hs s) ih

/-! ### Addresses and labels -/

mutual
def Stmt.addrs : Stmt → List Nat
  | .atomic n => [n.addr]
  | .block n body => n.addr :: addrsList body
  | .ifElse n _ t none => n.addr :: t.addrs
  | .ifElse n _ t (some e) => n.addr :: (t.addrs ++ e.addrs)
  | .whileLoop n _ body => n.addr :: addrsList body
  | .exit n _ => [n.addr]
  | .ret n => [n.addr]
  | .label n _ => [n.addr]
  | .goto n _ => [n.addr]
  | .tryCatch n b h => n.addr :: (b.addrs ++ h.addrs)

def addrsList : List Stmt → List Nat
  | [] => []
  | s :: ss => s.addrs ++ addrsList ss
end

mutual
/-- The user labels of a tree, each with the node of its label statement. -/
def Stmt.labels : Stmt → List (String × Node)
  | .block _ body => labelsList body
  | .ifElse _ _ t none => t.labels
  | .ifElse _ _ t (some e) => t.labels ++ e.labels
  | .whileLoop _ _ body => labelsList body
  | .label n l => [(l, n)]
  | .tryCatch _ b h => b.labels ++ h.labels
  | _ => []

def labelsList : List Stmt → List (String × Node)
  | [] => []
  | s :: ss => s.labels ++ labelsList ss
end

mutual
/-- The `GOTO` statements of a tree, in the order of the walk. -/
def Stmt.gotos : Stmt → List (Node × String)
  | .block _ body => gotosList body
  | .ifElse _ _ t none => t.gotos
  | .ifElse _ _ t (some e) => t.gotos ++ e.gotos
  | .whileLoop _ _ body => gotosList body
  | .goto n l => [(n, l)]
  | .tryCatch _ b h => b.gotos ++ h.gotos
  | _ => []

def gotosList : List Stmt → List (Node × String)
  | [] => []
  | s :: ss => s.gotos ++ gotosList ss
end

/-- A compiled function: the statements of its outermost block (`func->action`),
allocated at pairwise different addresses. -/
structure Func where
  action : List Stmt
  addrs_nodup : (addrsList action).Nodup

end Babelfish.PLtsql
