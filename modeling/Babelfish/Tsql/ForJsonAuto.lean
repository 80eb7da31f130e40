import Mathlib.Data.List.Basic
import Babelfish.Lib.Except

/-!
# `FOR JSON AUTO`

Each row of the query becomes an object in which the columns of level `l + 1` stand in an array of
one object, the last pair of the object of level `l`.  `checkForDuplicateRows` then looks for a
place for the row in the array of the rows before it: it goes down into every object whose pairs
have the values of the row's, puts what is left of the row behind the innermost objects when it
gets there, and otherwise at the least depth it has noted.

This file has the code, and the reading of the resulting array: one row for every path from an
object of the array to an innermost object.

* `tsqlAutoRow`: the object of a row.
* `checkForDuplicateRows`: the row put into the array.
* `readRows`: the rows that the array shows.
* `tsqlAutoRow_columns`: the object of a row whose columns stand level by level.
-/

namespace Babelfish.Tsql.ForJsonAuto

open Lib List

abbrev Key := List UInt8

/-- A value of a column.  `N` is the type of numbers: `numeric_cmp` gives zero on equal numbers. -/
inductive Scalar (N : Type) where
  | null
  | string (s : List UInt8)
  | numeric (n : N)
  | bool (b : Bool)
  deriving DecidableEq, Repr

/-- The value of a pair: a scalar, or an array of objects. -/
inductive Node (N : Type) where
  | scalar (v : Scalar N)
  | array (elems : List (List (Key × Node N)))

abbrev Object (N : Type) := List (Key × Node N)

/-- The value of a column of a table; `isMoney` is true of `money` and `smallmoney`. -/
structure Cell (N : Type) where
  tableAlias : Key
  colname : Key
  isMoney : Bool
  value : Scalar N

/-- A column `JSONAUTOALIAS.<level>.<alias>.<colname>`. -/
structure Column (N : Type) extends Cell N where
  level : Nat

inductive Fault where
  /-- "FOR JSON AUTO limitation: …" -/
  | limitation
  /-- `numeric_in` gets no text. -/
  | nullPointer
  /-- A scalar is read as if it were an array. -/
  | undefined
  deriving DecidableEq, Repr

variable {N : Type}

/-! ### The object of a row -/

/-- The objects of the levels `1, 2, …` while the row is read.  The pair of a nested array has no
value here: the array is the one object of the next level, and all copies of the array share it. -/
abbrev Levels (N : Type) := List (List (Key × Option (Scalar N)))

/-- `insert_existing_json_to_obj`: a pair behind the pairs of the object of level `num`. -/
def insertExistingJsonToObj (objs : Levels N) (num : Nat) (p : Key × Option (Scalar N)) :
    Levels N :=
  objs.modify (num - 1) (· ++ [p])

/-- The pairs of the object that `create_json_array` puts into its array. -/
def createJsonArray (colname : Key) : Option (Scalar N) → List (Key × Option (Scalar N))
  | none => []
  | some v => [(colname, some v)]

/-- `nestedVal`: a NULL that is to be left out has none. -/
def nestedVal [DecidableEq N] (includeNullValues : Bool) (v : Scalar N) : Option (Scalar N) :=
  if v = .null ∧ includeNullValues = false then none else some v

/-- The value goes into the object of its level. -/
def putColumn [DecidableEq N] (includeNullValues : Bool) (objs : Levels N) (c : Column N) :
    Except Fault (Levels N) :=
  let value := nestedVal includeNullValues c.value
  if c.level > 1 then
    if c.level ≤ objs.length then
      match value with
      | none => .ok objs
      | some v => .ok (insertExistingJsonToObj objs c.level (c.colname, some v))
    else if c.level > 2 ∧ objs.length < c.level - 1 then
      .error .limitation
    else
      .ok (insertExistingJsonToObj objs (c.level - 1) (c.tableAlias, none)
        ++ [createJsonArray c.colname value])
  else
    match value with
    | none => .ok objs
    | some v => .ok (insertExistingJsonToObj objs 1 (c.colname, some v))

/-- The value can be converted: a NULL that is shown must not be of a `money` type, whose text is
converted before the check for NULL. -/
def Cell.Converts (includeNullValues : Bool) (c : Cell N) : Prop :=
  ¬(c.isMoney = true ∧ c.value = .null ∧ includeNullValues = true)

instance [DecidableEq N] (includeNullValues : Bool) (c : Cell N) :
    Decidable (c.Converts includeNullValues) := inferInstanceAs (Decidable (¬_))

/-- One column of the row. -/
def addColumn [DecidableEq N] (includeNullValues : Bool) (objs : Levels N) (c : Column N) :
    Except Fault (Levels N) :=
  if c.Converts includeNullValues then putColumn includeNullValues objs c
  else .error .nullPointer

/-- The object of the first level, with the arrays below it. -/
def resolve : Levels N → Object N
  | [] => []
  | items :: rest => items.map fun p =>
      (p.1, match p.2 with
        | some v => .scalar v
        | none => .array [resolve rest])

def tsqlAutoRow [DecidableEq N] (includeNullValues : Bool) (cols : List (Column N)) :
    Except Fault (Object N) := do
  let objs ← cols.foldlM (addColumn includeNullValues) [[]]
  return resolve objs

/-! ### The row put into the array -/

/-- The types are the same, and the values. -/
def sameElem [DecidableEq N] : Node N → Node N → Bool
  | .scalar .null, .scalar .null => true
  | .scalar (.string s), .scalar (.string t) => s == t
  | .scalar (.numeric m), .scalar (.numeric n) => m == n
  | .scalar (.bool a), .scalar (.bool b) => a == b
  | _, _ => false

def isNull : Node N → Bool
  | .scalar .null => true
  | _ => false

/-- The loop over the pairs of an object but its last against those of the row: does it go down
into the object?  After two NULLs it goes on with the next pair, so it does not go down when the
last ones compared are NULLs.  The pairs of the row do not end first, as its last one is an array,
which no scalar is the same as. -/
def goesDown [DecidableEq N] : Object N → Object N → Bool
  | [], _ => false
  | _ :: _, [] => false
  | [(_, v)], (_, w) :: _ => sameElem v w && !isNull v
  | (_, v) :: p :: ps, (_, w) :: ws => sameElem v w && goesDown (p :: ps) ws

/-- One object of the array, with what is done in the array in it.  The object of the row in the
array that is its pair at the same place is the row there; a scalar at that place is read as an
array. -/
def visit [DecidableEq N]
    (inner : List (Object N) → Object N → Nat → Except Fault (List (Object N) × Nat))
    (row : Object N) (o : Object N) (minInsertDepth : Nat) : Except Fault (Object N × Nat) :=
  if goesDown o.dropLast row then
    match o.getLast?, row[o.length - 1]? with
    | some (k, .array elems), some (_, .array (row' :: _)) => do
      let (elems', min') ← inner elems row' (if minInsertDepth = 1 then 2 else minInsertDepth)
      return (o.dropLast ++ [(k, .array elems')], min')
    | _, _ => .error .undefined
  else
    .ok (o, minInsertDepth)

def scan (f : Object N → Nat → Except Fault (Object N × Nat)) :
    List (Object N) → Nat → Except Fault (List (Object N) × Nat)
  | [], minInsertDepth => .ok ([], minInsertDepth)
  | o :: arr, minInsertDepth => do
    let (o', min') ← f o minInsertDepth
    let (arr', min'') ← scan f arr min'
    return (o' :: arr', min'')

/-- The row comes before the last object of the array. -/
def insertBeforeLast (arr : List (Object N)) (row : Object N) : List (Object N) :=
  match arr.getLast? with
  | none => [row]
  | some o => arr.dropLast ++ [row, o]

/-- `checkForDuplicateRows`; the first number is `maxDepth - currDepth`. -/
def checkForDuplicateRows [DecidableEq N] : Nat → Nat → List (Object N) → Object N → Nat →
    Except Fault (List (Object N) × Nat)
  | 0, currDepth, arr, row, _ => .ok (arr ++ [row], currDepth)
  | n + 1, currDepth, arr, row, minInsertDepth => do
    let (arr', min') ←
      scan (visit (checkForDuplicateRows n (currDepth + 1)) row) arr minInsertDepth
    if currDepth = min' then
      return (insertBeforeLast arr' row, min')
    else
      return (arr', min')

def tsqlAutoRowToJson [DecidableEq N] (includeNullValues : Bool) (arr : List (Object N))
    (cols : List (Column N)) : Except Fault (List (Object N)) := do
  let row ← tsqlAutoRow includeNullValues cols
  let maxDepth := (cols.map Column.level).foldl max 0
  let (arr', _) ← checkForDuplicateRows (maxDepth - 1) 1 arr row 1
  return arr'

/-! ### Rows and their reading -/

/-- The pairs that an object shows, arrays apart. -/
abbrev Level (N : Type) := List (Key × Scalar N)

/-- A row as its levels. -/
abbrev Row (N : Type) := List (List (Cell N))

/-- The columns of a row, those of each level before those of the next. -/
def columnsFrom (l : Nat) : Row N → List (Column N)
  | [] => []
  | cs :: rest => cs.map (fun c => ⟨c, l⟩) ++ columnsFrom (l + 1) rest

def columns (r : Row N) : List (Column N) :=
  columnsFrom 1 r

/-- The aliases, names and types of the columns, level by level. -/
def names (r : Row N) : List (List (Key × Key × Bool)) :=
  r.map fun cs => cs.map fun c => (c.tableAlias, c.colname, c.isMoney)

def shown [DecidableEq N] (includeNullValues : Bool) (cs : List (Cell N)) : Level N :=
  cs.filterMap fun c => (nestedVal includeNullValues c.value).map fun v => (c.colname, v)

/-- The assignment of values to columns, level by level. -/
def assignment [DecidableEq N] (includeNullValues : Bool) (r : Row N) : List (Level N) :=
  r.map (shown includeNullValues)

/-- All rows of the query, one after the other. -/
def tsqlAutoRowsToJson [DecidableEq N] (includeNullValues : Bool) (rows : List (Row N)) :
    Except Fault (List (Object N)) :=
  rows.foldlM (fun arr r => tsqlAutoRowToJson includeNullValues arr (columns r)) []

def levelOf (o : Object N) : Level N :=
  o.filterMap fun p => match p.2 with
    | .scalar v => some (p.1, v)
    | .array _ => none

/-- The array in the last pair. -/
def elemsOf (o : Object N) : List (Object N) :=
  match o.getLast? with
  | some (_, .array elems) => elems
  | _ => []

/-- The rows that an array of objects shows, with `n` arrays inside one another. -/
def readRows : Nat → List (Object N) → List (List (Level N))
  | 0, arr => arr.map fun o => [levelOf o]
  | n + 1, arr => arr.flatMap fun o => (readRows n (elemsOf o)).map (levelOf o :: ·)

/-! ### The object of a row whose columns stand level by level -/

def obj (ps : Level N) : Object N :=
  ps.map fun p => (p.1, .scalar p.2)

/-- An object whose last pair is an array. -/
def objWith (ps : Level N) (tableAlias : Key) (elems : List (Object N)) : Object N :=
  obj ps ++ [(tableAlias, .array elems)]

def rowObject : Level N → List (Key × Level N) → Object N
  | ps, [] => obj ps
  | ps, (tableAlias, qs) :: rest => objWith ps tableAlias [rowObject qs rest]

/-- The alias of a level is the one of its first column. -/
def aliased [DecidableEq N] (includeNullValues : Bool) (cs : List (Cell N)) :
    Key × Level N :=
  ((cs.head?.map Cell.tableAlias).getD [], shown includeNullValues cs)

def kept (ps : Level N) : List (Key × Option (Scalar N)) :=
  ps.map fun p => (p.1, some p.2)

variable (ps : Level N) (rest : List (Key × Level N)) (tableAlias : Key) (qs : Level N)
  {cs : List (Cell N)} (c : Cell N)

@[simp] theorem kept_append : kept (ps ++ qs) = kept ps ++ kept qs :=
  map_append

@[simp] theorem shown_cons [DecidableEq N] (nulls : Bool) :
    shown nulls (c :: cs) =
      ((nestedVal nulls c.value).map fun w => (c.colname, w)).toList
        ++ shown nulls cs := by
  unfold shown
  rw [filterMap_cons]
  cases nestedVal nulls c.value <;> rfl

/-- The levels of a row that is read up to its last level: each level but the last ends with the
array of the next one. -/
def keptLevels : Level N → List (Key × Level N) → Levels N
  | ps, [] => [kept ps]
  | ps, (tableAlias, qs) :: rest => (kept ps ++ [(tableAlias, none)]) :: keptLevels qs rest

@[simp] theorem length_keptLevels : (keptLevels ps rest).length = rest.length + 1 := by
  induction rest generalizing ps with
  | nil => rfl
  | cons a rest ih => simp [keptLevels, ih]

theorem modify_keptLevels (ws : Level N) :
    (keptLevels ps (rest ++ [(tableAlias, qs)])).modify (rest.length + 1) (· ++ kept ws) =
      keptLevels ps (rest ++ [(tableAlias, qs ++ ws)]) := by
  induction rest generalizing ps with
  | nil => simp [keptLevels]
  | cons a rest ih =>
    simp only [cons_append, keptLevels, length_cons, modify_succ_cons, ih]

theorem keptLevels_snoc :
    (keptLevels ps rest).modify rest.length (· ++ [(tableAlias, none)]) ++ [kept qs] =
      keptLevels ps (rest ++ [(tableAlias, qs)]) := by
  induction rest generalizing ps with
  | nil => rfl
  | cons a rest ih =>
    simp only [cons_append, keptLevels, length_cons, modify_succ_cons, ih]

theorem resolve_keptLevels : resolve (keptLevels ps rest) = rowObject ps rest := by
  induction rest generalizing ps with
  | nil => simp [keptLevels, resolve, rowObject, kept, obj]
  | cons a rest ih => simp [keptLevels, resolve, rowObject, kept, obj, objWith, ih]

theorem mem_columnsFrom {l : Nat} {r : Row N} (hcs : cs ∈ r) (hc : c ∈ cs) :
    ∃ l', ⟨c, l'⟩ ∈ columnsFrom l r := by
  induction r generalizing l with
  | nil => cases hcs
  | cons cs' r ih =>
    rcases mem_cons.mp hcs with rfl | hcs
    · exact ⟨l, mem_append_left _ (mem_map.mpr ⟨c, hc, rfl⟩)⟩
    · obtain ⟨l', hmem⟩ := ih (l := l + 1) hcs
      exact ⟨l', mem_append_right _ hmem⟩

section
variable [DecidableEq N] (nulls : Bool)

theorem putColumn_first :
    putColumn nulls (keptLevels ps []) ⟨c, 1⟩ = .ok
      (keptLevels (ps ++ ((nestedVal nulls c.value).map fun w => (c.colname, w)).toList) []) := by
  unfold putColumn
  cases nestedVal nulls c.value <;>
    simp [insertExistingJsonToObj, keptLevels, kept]

theorem putColumn_again (qs : Level N) :
    putColumn nulls (keptLevels ps (rest ++ [(tableAlias, qs)])) ⟨c, rest.length + 2⟩ =
      .ok (keptLevels ps (rest ++
        [(tableAlias, qs ++ ((nestedVal nulls c.value).map fun w => (c.colname, w)).toList)])) := by
  unfold putColumn
  cases nestedVal nulls c.value with
  | none => simp
  | some w =>
    have h := modify_keptLevels ps rest tableAlias qs [(c.colname, w)]
    simpa [insertExistingJsonToObj, kept] using h

theorem putColumn_new :
    putColumn nulls (keptLevels ps rest) ⟨c, rest.length + 2⟩ =
      .ok (keptLevels ps (rest ++
        [(c.tableAlias, ((nestedVal nulls c.value).map fun w => (c.colname, w)).toList)])) := by
  unfold putColumn
  cases nestedVal nulls c.value with
  | none =>
    have h := keptLevels_snoc ps rest c.tableAlias ([] : Level N)
    simpa [insertExistingJsonToObj, createJsonArray, kept] using h
  | some w =>
    have h := keptLevels_snoc ps rest c.tableAlias [(c.colname, w)]
    simpa [insertExistingJsonToObj, createJsonArray, kept] using h

theorem addColumns_behind (l : Nat) (put : Level N → Levels N)
    (hput : ∀ c qs, putColumn nulls (put qs) ⟨c, l⟩ =
      .ok (put (qs ++ ((nestedVal nulls c.value).map fun w => (c.colname, w)).toList)))
    (cs : List (Cell N)) (hconv : ∀ c ∈ cs, c.Converts nulls) (qs : Level N) :
    (cs.map fun c => (⟨c, l⟩ : Column N)).foldlM (addColumn nulls) (put qs) =
      .ok (put (qs ++ shown nulls cs)) := by
  induction cs generalizing qs with
  | nil => simp [shown, pure, Except.pure]
  | cons c cs ih =>
    obtain ⟨hc, hcs⟩ := forall_mem_cons.mp hconv
    rw [map_cons, foldlM_cons, addColumn, if_pos hc, hput, ok_bind, ih hcs, shown_cons,
      append_assoc]

theorem addColumns_level (hne : cs ≠ []) (hconv : ∀ c ∈ cs, c.Converts nulls) (ps : Level N)
    (rest : List (Key × Level N)) :
    (cs.map fun c => (⟨c, rest.length + 2⟩ : Column N)).foldlM
        (addColumn nulls) (keptLevels ps rest) =
      .ok (keptLevels ps (rest ++ [aliased nulls cs])) := by
  cases cs with
  | nil => exact absurd rfl hne
  | cons c cs =>
    obtain ⟨hc, hcs⟩ := forall_mem_cons.mp hconv
    rw [map_cons, foldlM_cons, addColumn, if_pos hc, putColumn_new, ok_bind,
      addColumns_behind nulls _ (fun qs => keptLevels ps (rest ++ [(c.tableAlias, qs)]))
        (fun c' qs => putColumn_again ps rest c.tableAlias c' nulls qs) cs hcs]
    simp only [aliased, shown_cons, List.head?_cons, Option.map_some, Option.getD_some]

theorem addColumns_rest (more : Row N) (ps : Level N) (rest : List (Key × Level N))
    (hne : ∀ cs ∈ more, cs ≠ []) (hconv : ∀ cs ∈ more, ∀ c ∈ cs, c.Converts nulls) :
    (columnsFrom (rest.length + 2) more).foldlM (addColumn nulls) (keptLevels ps rest) =
      .ok (keptLevels ps (rest ++ more.map (aliased nulls))) := by
  induction more generalizing rest with
  | nil => simp [columnsFrom, pure, Except.pure]
  | cons cs more ih =>
    have hrest := ih (rest ++ [aliased nulls cs])
      (forall_mem_cons.mp hne).2 (forall_mem_cons.mp hconv).2
    rw [length_append, length_singleton] at hrest
    rw [columnsFrom, foldlM_append,
      addColumns_level nulls (hne cs mem_cons_self) (hconv cs mem_cons_self),
      ok_bind, show rest.length + 2 + 1 = rest.length + 1 + 2 by omega, hrest, map_cons,
      append_assoc, singleton_append]

/-- **The object of a row** has its levels one inside the other. -/
theorem tsqlAutoRow_columns (cs : List (Cell N)) (more : Row N) (hne : ∀ c ∈ more, c ≠ [])
    (hconv : ∀ cs' ∈ cs :: more, ∀ c ∈ cs', c.Converts nulls) :
    tsqlAutoRow nulls (columns (cs :: more)) =
      .ok (rowObject (shown nulls cs) (more.map (aliased nulls))) := by
  obtain ⟨hcs, hmore⟩ := forall_mem_cons.mp hconv
  have hfirst := addColumns_behind nulls 1 (fun ps => keptLevels ps [])
    (fun c ps => putColumn_first ps c nulls) cs hcs []
  have hrest := addColumns_rest nulls more (shown nulls cs) [] hne hmore
  rw [nil_append] at hfirst hrest
  rw [tsqlAutoRow, columns, columnsFrom, foldlM_append]
  rw [show ([[]] : Levels N) = keptLevels [] [] from rfl, hfirst, ok_bind]
  rw [show 1 + 1 = ([] : List (Key × Level N)).length + 2 from rfl, hrest, ok_bind,
    resolve_keptLevels]
  rfl

/-- A NULL of a `money` type ends the row. -/
theorem tsqlAutoRow_ne_ok {r : Row N} (hcs : cs ∈ r) (hc : c ∈ cs) (hconv : ¬c.Converts nulls)
    (o : Object N) : tsqlAutoRow nulls (columns r) ≠ .ok o := by
  obtain ⟨l, hmem⟩ := mem_columnsFrom c hcs hc
  refine bind_ne_ok (foldlM_ne_ok hmem (fun objs objs' h => ?_) _) o
  rw [addColumn, if_neg hconv] at h
  cases h

end

theorem maxDepth_columnsFrom (l : Nat) (r : Row N) (hne : ∀ cs ∈ r, cs ≠ []) (hr : r ≠ [])
    (m : Nat) (hm : m ≤ l) :
    ((columnsFrom l r).map Column.level).foldl max m = l + r.length - 1 := by
  induction r generalizing l m with
  | nil => exact absurd rfl hr
  | cons cs r ih =>
    have hlevel : ∀ (cs : List (Cell N)) (m : Nat), m ≤ l → cs ≠ [] →
        ((cs.map fun c => (⟨c, l⟩ : Column N)).map Column.level).foldl max m = l := by
      intro cs
      induction cs with
      | nil => intro m _ h; exact absurd rfl h
      | cons c cs ihc =>
        intro m hm _
        rw [map_cons, map_cons, foldl_cons]
        cases cs with
        | nil => exact Nat.max_eq_right hm
        | cons c' cs' => exact ihc (max m l) (by omega) (by simp)
    rw [columnsFrom, map_append, foldl_append, hlevel cs m hm (hne cs mem_cons_self)]
    cases r with
    | nil => simp [columnsFrom]
    | cons cs' r' =>
      rw [ih (l + 1) (forall_mem_cons.mp hne).2 (by simp) l (by omega)]
      simp only [length_cons]
      omega

theorem maxDepth_columns {r : Row N} (hne : ∀ cs ∈ r, cs ≠ []) (hr : r ≠ []) :
    ((columns r).map Column.level).foldl max 0 = r.length := by
  rw [columns, maxDepth_columnsFrom 1 r hne hr 0 (by omega)]
  omega

end Babelfish.Tsql.ForJsonAuto
