import Mathlib.Data.List.Infix
import Babelfish.Lib.HashTable
import Babelfish.Lib.Memory

/-!
# `FOR JSON PATH`

A row becomes an object: a column named `a.b.c` is a value in the object `b` of the object `a`.  The
objects are values that hold the number and the address of their pairs; a pair holds a copy of the
value of its key.  A table takes each path that was created to its value and to the object that
holds the copy of it, and a column whose path begins like an earlier one is put into the object
found there: its pairs are extended, and the copy is written again.

* `determineParts_buildKey`, `buildKey_injective`: names and paths.
* `Json.follow`, `Json.LeafAt`: what an object has at a path.
* `Describes`: an object with the columns at their paths and nothing else.
-/

namespace Babelfish.Tsql.ForJson

open Lib List

/-! ### Names and paths -/

def dot : UInt8 := 46

/-- A token of `strtok`: it is not empty and has no dot. -/
@[ext] structure Part where
  text : List UInt8
  ne_nil : text ≠ []
  dot_notMem : dot ∉ text
deriving DecidableEq

def Part.ofText (s : List UInt8) : Option Part :=
  if h : s ≠ [] ∧ dot ∉ s then some ⟨s, h.1, h.2⟩ else none

def determineParts (str : List UInt8) : List Part := (str.splitOn dot).filterMap Part.ofText

/-- `num` of `determine_parts`: one more than the dots. -/
def determineNum (str : List UInt8) : Nat := str.count dot + 1

/-- `build_key`: the parts up to some index, with dots between them. -/
def buildKey (parts : List Part) : List UInt8 := [dot].intercalate (parts.map Part.text)

/-! ### Values in memory -/

/-- `JsonbValue`: an object has the number and the address of its pairs; all else, a NULL included,
is not looked into. -/
inductive JsonbValue (V : Type) where
  | leaf (v : Option V)
  | object (nPairs pairs : Nat)
deriving DecidableEq, Repr

/-- The values and the pairs in memory. -/
abbrev Mem (V : Type) := Memory (JsonbValue V) (List UInt8 × JsonbValue V)

/-- What `jsonb_get_value` makes of a column that is not NULL: a value that is no object, or an
object of a JSON column. -/
inductive JsonValue (V : Type) where
  | scalar (v : V)
  | object (pairs : List (List UInt8 × V))
deriving DecidableEq, Repr

/-- The types that are treated in their own way: the binary ones, and `money` and `smallmoney`. -/
inductive ColumnType where
  | binary
  | money
  | other
deriving DecidableEq, Repr

/-- A column of a row; the value is `none` for NULL. -/
structure Column (V : Type) where
  attname : List UInt8
  type : ColumnType
  colval : Option (JsonValue V)
deriving DecidableEq, Repr

/-- `JsonbEntry`: the value at a path, the object with the copy of it, and the index of the copy. -/
structure JsonbEntry where
  value : Nat
  parent : Nat
  idx : Nat
deriving DecidableEq, Repr

/-- Why no row is made: one of the errors is raised, the process ends, or memory is read that holds
nothing. -/
inductive Fault where
  | conflict (property : List UInt8)
  | unnamedColumn
  | binaryType
  | nullPointer
  | undefined
deriving DecidableEq, Repr

/-- `jsonbRow` is the first value. -/
def jsonbRow : Nat := 0

/-- The memory and the table of the paths. -/
structure RowState (V : Type) where
  mem : Mem V
  hash : HTab (List UInt8) JsonbEntry

section

variable {V : Type} (m : Mem V)

/-- `jsonbRow->val.object.nPairs` -/
def rowPairs : Nat :=
  match m.cell jsonbRow with
  | some (.object n _) => n
  | _ => 0

/-- The value of a column is put into memory, at the next address. -/
def storeValue : Option (JsonValue V) → Mem V
  | none => m.newCell (.leaf none)
  | some (.scalar v) => m.newCell (.leaf (some v))
  | some (.object pairs) =>
    (m.newBlock (pairs.map fun p => (p.1, .leaf (some p.2)))).newCell
      (.object pairs.length m.blocks.length)

/-- `create_json`: an object with one pair, at the next address. -/
def createJson (part : Part) (val : JsonbValue V) : Mem V :=
  (m.newBlock [(part.text, val)]).newCell (.object 1 m.blocks.length)

/-- `parent->val.object.pairs[idx].value = *current` -/
def setPairValue (parent idx : Nat) (val : JsonbValue V) : Except Fault (Mem V) :=
  match m.cell parent with
  | some (.object _ b) =>
    match m.block b with
    | some pairs =>
      if idx < pairs.length then .ok (m.setBlock b (pairs.modify idx fun p => (p.1, val)))
      else .error .undefined
    | none => .error .undefined
  | _ => .error .undefined

variable (moves : Mem V → Bool)

/-- `insert_existing_json`.  Whether `repalloc` moves the pairs is open. -/
def insertExistingJson (m : Mem V) (current parent nestedVal idx : Nat)
    (key : List UInt8) : Except Fault (Mem V) :=
  match m.cell current, m.cell nestedVal with
  | some (.object n b), some (.object n' b') =>
    match m.block b, m.block b' with
    | some pairs, some pairs' =>
      let (b'', m') := m.realloc (moves m) b (pairs.take n ++ pairs'.take n')
      setPairValue (m'.setCell current (.object (n + n') b'')) parent idx (.object (n + n') b'')
    | _, _ => .error .undefined
  | some _, some _ => .error (.conflict key)
  | _, _ => .error .undefined

/-- The loop over the parts of a name, last part first.  It ends with the object that is to be put
into the row, or, when the column was put into an object found in the table, with nothing. -/
def nest (moves : Mem V → Bool) (colname : List UInt8) :
    RowState V → List Part → Nat → Except Fault (RowState V × Option Nat)
  | st, [], nestedVal => .ok (st, some nestedVal)
  | st, part :: up, nestedVal =>
    match st.hash (buildKey (part :: up).reverse) with
    | some e =>
      match insertExistingJson moves st.mem e.value e.parent nestedVal e.idx colname with
      | .ok m => .ok ({ st with mem := m }, none)
      | .error f => .error f
    | none =>
      match st.mem.cell nestedVal with
      | none => .error .undefined
      | some val =>
        let obj := st.mem.cells.length
        let entry : JsonbEntry :=
          if up = [] then ⟨nestedVal, jsonbRow, rowPairs st.mem⟩ else ⟨nestedVal, obj, 0⟩
        nest moves colname
          ⟨createJson st.mem part val, enter st.hash (buildKey (part :: up).reverse) entry⟩ up obj

/-- A pair is put behind those of the row. -/
def pushRow (pair : List UInt8 × JsonbValue V) : Except Fault (Mem V) :=
  match m.cell jsonbRow with
  | some (.object n b) =>
    match m.block b with
    | some pairs =>
      .ok ((m.setBlock b (pairs.take n ++ [pair])).setCell jsonbRow (.object (n + 1) b))
    | none => .error .undefined
  | _ => .error .undefined

def firstPair (a : Nat) : Option (List UInt8 × JsonbValue V) :=
  match m.cell a with
  | some (.object _ b) => (m.block b).bind List.head?
  | _ => none

/-- The pair goes into the row, if there is one. -/
def pushPair (st : RowState V) (pair : Option (List UInt8 × JsonbValue V)) :
    Except Fault (RowState V) :=
  match pair with
  | none => .error .undefined
  | some pair => (pushRow st.mem pair).map fun m => { st with mem := m }

/-- A column whose value is in memory goes into the row. -/
def insertColumn (st : RowState V) (colname : List UInt8) (value : Nat) :
    Except Fault (RowState V) :=
  let parts := determineParts colname
  if determineNum colname > 1 then
    if parts.length < determineNum colname then .error .undefined
    else
      match nest moves colname st parts.reverse value with
      | .error f => .error f
      | .ok (st, none) => .ok st
      | .ok (st, some top) => pushPair st (firstPair st.mem top)
  else
    pushPair st (parts.head?.bind fun part => (st.mem.cell value).map fun v => (part.text, v))

def questionColumn : List UInt8 := [63, 99, 111, 108, 117, 109, 110, 63]

/-- One turn of the loop of `tsql_row_to_json`. -/
def addColumn (includeNullValues : Bool) (st : RowState V) (c : Column V) :
    Except Fault (RowState V) :=
  if c.attname = questionColumn ∨ c.attname = [] then .error .unnamedColumn
  else if c.colval.isNone && !includeNullValues then .ok st
  else if c.type = .binary then .error .binaryType
  -- `numeric_in` gets the text of the value before the check for NULL
  else if c.type = .money ∧ c.colval = none then .error .nullPointer
  else
    insertColumn moves { st with mem := storeValue st.mem c.colval } c.attname st.mem.cells.length

def addColumns (moves : Mem V → Bool) (includeNullValues : Bool) :
    RowState V → List (Column V) → Except Fault (RowState V)
  | st, [] => .ok st
  | st, c :: cs =>
    match addColumn moves includeNullValues st c with
    | .error f => .error f
    | .ok st => addColumns moves includeNullValues st cs

def startRow : RowState V := ⟨⟨[.object 0 0], [some []]⟩, HTab.empty⟩

def tsqlRowToJson (includeNullValues : Bool) (cols : List (Column V)) :
    Except Fault (RowState V) := addColumns moves includeNullValues startRow cols

end

/-! ### The object that was built -/

/-- A JSON value; what is not an object is a leaf. -/
inductive Json (V : Type) where
  | leaf (v : Option V)
  | object (pairs : List (List UInt8 × Json V))

section

variable {V : Type}

def readPairs (read : JsonbValue V → Option (Json V)) :
    List (List UInt8 × JsonbValue V) → Option (List (List UInt8 × Json V))
  | [] => some []
  | (k, v) :: ps =>
    match read v, readPairs read ps with
    | some t, some ts => some ((k, t) :: ts)
    | _, _ => none

/-- The JSON value in memory, of at most this depth: there is none where freed memory is read. -/
def readJson (m : Mem V) : Nat → JsonbValue V → Option (Json V)
  | 0, _ => none
  | _ + 1, .leaf v => some (.leaf v)
  | depth + 1, .object n b =>
    match m.block b with
    | none => none
    | some pairs =>
      if n ≤ pairs.length then
        (readPairs (fun v => readJson m depth v) (pairs.take n)).map .object
      else none

def readRow (st : RowState V) (depth : Nat) : Option (Json V) :=
  (st.mem.cell jsonbRow).bind (readJson st.mem depth)

/-- What is reached from a value by following keys. -/
def Json.follow : Json V → List (List UInt8) → Option (Json V)
  | t, [] => some t
  | .leaf _, _ :: _ => none
  | .object ps, k :: ks =>
    match ps.find? fun p => p.1 = k with
    | some p => follow p.2 ks
    | none => none

/-- A value has a leaf at a path. -/
def Json.LeafAt : Json V → List (List UInt8) → Option V → Prop
  | .leaf w, [], v => w = v
  | .object ps, k :: ks, v => ∃ t, (k, t) ∈ ps ∧ LeafAt t ks v
  | _, _, _ => False

def jsonOf : Option (JsonValue V) → Json V
  | none => .leaf none
  | some (.scalar v) => .leaf (some v)
  | some (.object pairs) => .object (pairs.map fun p => (p.1, .leaf (some p.2)))

def Column.path (c : Column V) : List Part := determineParts c.attname

def Column.keys (c : Column V) : List (List UInt8) := c.path.map Part.text

/-- The name is made of parts that are not empty, with dots between them. -/
def Column.WellNamed (c : Column V) : Prop := c.path ≠ [] ∧ buildKey c.path = c.attname

/-- The columns that are shown. -/
def live (includeNullValues : Bool) (cols : List (Column V)) : List (Column V) :=
  cols.filter fun c => c.colval.isSome || includeNullValues

/-- **The object asked for**: the parts of each column lead to its value, and there are no other
leaves. -/
structure Describes (cols : List (Column V)) (t : Json V) : Prop where
  reaches : ∀ c ∈ cols, t.follow c.keys = some (jsonOf c.colval)
  only : ∀ p v, t.LeafAt p v → ∃ c ∈ cols, ∃ s, p = c.keys ++ s ∧ (jsonOf c.colval).LeafAt s v

def Apart (p q : List Part) : Prop := ¬p <+: q ∧ ¬q <+: p

/-- **No column's path equals another's or begins it.** -/
def Separate (cols : List (Column V)) : Prop := cols.Pairwise fun c c' => Apart c.path c'.path

end

/-! ### Names -/

theorem Part.ofText_text (p : Part) : Part.ofText p.text = some p := by
  rw [Part.ofText, dif_pos ⟨p.ne_nil, p.dot_notMem⟩]

variable {parts : List Part}

theorem filterMap_ofText : (parts.map Part.text).filterMap Part.ofText = parts := by
  induction parts with
  | nil => rfl
  | cons p parts ih => rw [map_cons, filterMap_cons_some p.ofText_text, ih]

/-- **A name made of parts is split into them.** -/
theorem determineParts_buildKey (h : parts ≠ []) : determineParts (buildKey parts) = parts := by
  have hparts : ∀ l ∈ parts.map Part.text, dot ∉ l :=
    forall_mem_map.mpr fun p _ => p.dot_notMem
  rw [determineParts, buildKey, splitOn_intercalate _ hparts (by simpa using h), filterMap_ofText]

theorem buildKey_injective : Function.Injective buildKey := by
  have hnil : ∀ parts, buildKey parts = [] → parts = [] := by
    intro parts h
    cases parts with
    | nil => rfl
    | cons p parts =>
      refine absurd ?_ p.ne_nil
      cases parts with
      | nil => simpa [buildKey] using h
      | cons p' parts =>
        rw [buildKey, map_cons, map_cons, intercalate_cons_cons] at h
        exact (append_eq_nil_iff.mp (append_eq_nil_iff.mp h).1).1
  intro p q h
  by_cases hp : p = []
  · subst hp
    exact (hnil q h.symm).symm
  by_cases hq : q = []
  · subst hq
    exact hnil p h
  rw [← determineParts_buildKey hp, h, determineParts_buildKey hq]

theorem determineNum_buildKey (h : parts ≠ []) : determineNum (buildKey parts) = parts.length := by
  induction parts with
  | nil => exact absurd rfl h
  | cons p parts ih =>
    have hp : p.text.count dot = 0 := count_eq_zero.mpr p.dot_notMem
    cases parts with
    | nil => simpa [determineNum, buildKey] using hp
    | cons p' parts =>
      have ih := ih (cons_ne_nil _ _)
      rw [determineNum, buildKey, map_cons] at ih ⊢
      rw [map_cons, intercalate_cons_cons, count_append, count_append, hp, count_singleton_self]
      rw [length_cons]
      omega

theorem Column.WellNamed.num {V : Type} {c : Column V} (h : c.WellNamed) :
    determineNum c.attname = c.path.length := by
  rw [← h.2]
  exact determineNum_buildKey h.1

end Babelfish.Tsql.ForJson
