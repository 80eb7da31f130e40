import Babelfish.Tsql.ParseCache

/-!
# Restoring a cached batch

`antlr_batch_parse_cache_read` promises "On a miss or any restore failure, return false with no
state changed".  The datums are added only when all their numbers are right, and the parse result
is set last.  But an error of the reader jumps out with the error context as the current memory
context, and neither of the two handlers switches back.

* `read_false_iff`: when a restore that fails changes nothing.
-/

namespace Babelfish.Tsql.ParseCache

open CacheEntry (LookupResult)

/-- `PLtsql_datum`: its number and the rest of it. -/
structure Datum (D : Type) where
  dno : Nat
  body : D
deriving DecidableEq

/-- What the compiler has when the cache is read: `pltsql_nDatums` and `pltsql_Datums`,
`pltsql_parse_result`, and `CurrentMemoryContext`. -/
structure Compiler (Tree D Context : Type) where
  nDatums : Nat
  datums : List (Datum D)
  parseResult : Option Tree
  context : Context

/-- `pltsql_stringToNode` for trees and for lists of datums: an error, or a node that may be NULL.
An error makes `errorContext` the current context, and `FlushErrorState` leaves it so. -/
structure Reader (Tree D Context : Type) where
  tree : List UInt8 → Except Unit (Option Tree)
  datums : List UInt8 → Except Unit (List (Option (Datum D)))
  errorContext : Context

variable {Tree D Context : Type} (reader : Reader Tree D Context)

/-- `antlr_batch_parse_cache_restore_tree` -/
def restoreTree (treeStr : List UInt8)
    (s : Compiler Tree D Context) : Option Tree × Compiler Tree D Context :=
  match reader.tree treeStr with
  | .ok tree => (tree, s)
  | .error _ => (none, { s with context := reader.errorContext })

/-- `pltsql_adddatum` -/
def adddatum (s : Compiler Tree D Context) (d : Datum D) : Compiler Tree D Context :=
  { s with
    nDatums := s.nDatums + 1
    datums := s.datums.take s.nDatums ++ [{ d with dno := s.nDatums }] }

/-- The loop that checks the numbers: the datums if none is missing and all numbers are right. -/
def checkDnos : Nat → List (Option (Datum D)) → Option (List (Datum D))
  | _, [] => some []
  | _, none :: _ => none
  | expectedDno, some d :: rest =>
    if d.dno ≠ expectedDno then none else (checkDnos (expectedDno + 1) rest).map (d :: ·)

/-- `antlr_batch_parse_cache_restore_datums` -/
def restoreDatums (datumsStr : List UInt8)
    (s : Compiler Tree D Context) : Bool × Compiler Tree D Context :=
  match reader.datums datumsStr with
  | .error _ => (false, { s with context := reader.errorContext })
  | .ok [] => (false, s)
  | .ok datumList =>
    match checkDnos s.nDatums datumList with
    | none => (false, s)
    | some ds => (true, ds.foldl adddatum s)

/-- `antlr_batch_parse_cache_read`, after the lookup. -/
def read (cached : Option LookupResult)
    (s : Compiler Tree D Context) : Bool × Compiler Tree D Context :=
  match cached with
  | none => (false, s)
  | some cached =>
    match restoreTree reader cached.parseTree s with
    | (none, s) => (false, s)
    | (some tree, s) =>
      match cached.parseDatums with
      | none => (true, { s with parseResult := some tree })
      | some datumsStr =>
        match restoreDatums reader datumsStr s with
        | (false, s) => (false, s)
        | (true, s) => (true, { s with parseResult := some tree })

/-- The reader is left through an error: by the tree, or by the datums after a tree. -/
def Raises (cached : LookupResult) : Prop :=
  (∃ e, reader.tree cached.parseTree = .error e) ∨
    (∃ tree, reader.tree cached.parseTree = .ok (some tree)) ∧
      ∃ datumsStr e, cached.parseDatums = some datumsStr ∧ reader.datums datumsStr = .error e

variable (reader : Reader Tree D Context) (s : Compiler Tree D Context)

theorem context_unchanged_iff (c : Context) : { s with context := c } = s ↔ s.context = c := by
  cases s
  simp [eq_comm]

/-- The datums are added together or not at all; only an error changes the state. -/
theorem restoreDatums_false (datumsStr : List UInt8)
    (h : (restoreDatums reader datumsStr s).1 = false) :
    (restoreDatums reader datumsStr s).2 = s ↔
      s.context = reader.errorContext ∨ ∀ e, reader.datums datumsStr ≠ .error e := by
  unfold restoreDatums at h ⊢
  cases hread : reader.datums datumsStr with
  | error e => simp [context_unchanged_iff]
  | ok datumList =>
    cases datumList with
    | nil => simp
    | cons d rest =>
      rw [hread] at h
      cases hcheck : checkDnos s.nDatums (d :: rest) with
      | none => simp [hcheck]
      | some ds => simp [hcheck] at h

/-- **A restore that fails changes nothing, unless the reader is left through an error** while
another context than the error context is the current one. -/
theorem read_false_iff (cached : LookupResult) (s : Compiler Tree D Context) :
    ((read reader (some cached) s).1 = false → (read reader (some cached) s).2 = s) ↔
      s.context = reader.errorContext ∨ ¬ Raises reader cached := by
  unfold read Raises restoreTree
  cases htree : reader.tree cached.parseTree with
  | error e => simp [htree, context_unchanged_iff]
  | ok tree =>
    cases tree with
    | none => simp [htree]
    | some tree =>
      cases hdatums : cached.parseDatums with
      | none => simp [htree, hdatums]
      | some datumsStr =>
        have hfalse := restoreDatums_false reader s datumsStr
        rcases hrestore : restoreDatums reader datumsStr s with ⟨_ | _, s'⟩
        · rw [hrestore] at hfalse
          simpa [htree, hdatums, hrestore] using hfalse rfl
        · have hok : ∀ e, reader.datums datumsStr ≠ .error e := by
            intro e he
            simp [restoreDatums, he] at hrestore
          simp [htree, hdatums, hrestore, hok]

/-- An entry whose tree cannot be read leaves the error context behind. -/
theorem read_leaves_error_context :
    let reader : Reader Unit Unit Bool := ⟨fun _ => .error (), fun _ => .ok [], true⟩
    let s : Compiler Unit Unit Bool := ⟨0, [], none, false⟩
    (read reader (some ⟨[], none⟩) s).1 = false ∧
      (read reader (some ⟨[], none⟩) s).2.context ≠ s.context :=
  ⟨rfl, by decide⟩

end Babelfish.Tsql.ParseCache
