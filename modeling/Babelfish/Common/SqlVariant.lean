import Babelfish.Common.Collation
import Babelfish.Lib.Bytes

/-!
# Comparison of `sql_variant`

A `sql_variant` is stored as a header, which tells the base type and for some types a type modifier
and a collation, and the bytes of a value of that type.  Two values are compared by the families of
their types first.  Within a family the comparison is that of the base type, or of one of the two
types after a cast; but strings of one type with different collations are compared by their
collations only, and a `time` is smaller than everything else of its family.

The operators and casts of the base types are looked up in the catalog.  They are a parameter,
`Natives`.
-/

namespace Babelfish.Common

open Lib

/-! ### Base types -/

inductive TypeCode where
  | datetimeoffset | datetime2 | datetime | smalldatetime | date | time
  | float | real
  | numeric | money | smallmoney | bigint | int | smallint | tinyint | bit
  | nvarchar | nchar | varchar | char
  | varbinary | binary
  | uniqueidentifier
deriving DecidableEq, Repr

namespace TypeCode

/-- The persistent number of a type. -/
def code : TypeCode → Nat
  | datetimeoffset => 1
  | datetime2 => 2
  | datetime => 3
  | smalldatetime => 4
  | date => 5
  | time => 6
  | float => 7
  | real => 8
  | numeric => 9
  | money => 10
  | smallmoney => 11
  | bigint => 12
  | int => 13
  | smallint => 14
  | tinyint => 15
  | bit => 16
  | nvarchar => 17
  | nchar => 18
  | varchar => 19
  | char => 20
  | varbinary => 21
  | binary => 22
  | uniqueidentifier => 23

/-- `get_tsql_type_info(type_code).family_prio` -/
def familyPrio : TypeCode → Nat
  | datetimeoffset | datetime2 | datetime | smalldatetime | date | time => 2
  | float | real => 3
  | numeric | money | smallmoney | bigint | int | smallint | tinyint | bit => 4
  | nvarchar | nchar | varchar | char => 5
  | varbinary | binary => 6
  | uniqueidentifier => 7

/-- `get_tsql_type_info(type_code).svhdr_size` -/
def svhdrSize : TypeCode → Nat
  | datetimeoffset | datetime2 | time => 2
  | datetime | smalldatetime | date | float | real => 1
  | numeric => 3
  | money | smallmoney | bigint | int | smallint | tinyint | bit => 1
  | nvarchar | nchar | varchar | char => 5
  | varbinary | binary => 3
  | uniqueidentifier => 1

def isStringType (t : TypeCode) : Bool :=
  t = nvarchar || t = nchar || t = varchar || t = char

end TypeCode

/-! ### Stored values -/

/-- A stored value, without its varlena header. -/
structure SqlVariant where
  bytes : List UInt8
  typeCode : TypeCode
  /-- `SV_GET_TYPCODE_PTR`: the code stands above the three bits of the header's version. -/
  metadata : (bytes.headD 0).toNat / 8 = typeCode.code
  header : typeCode.svhdrSize ≤ bytes.length
  /-- The collation of a string is a row of the table. -/
  collation : typeCode.isStringType = true → leNat (slice bytes 3 5) < totalCollCount

namespace SqlVariant

def collid (v : SqlVariant) : Nat := leNat (slice v.bytes 3 5)

def data (v : SqlVariant) : List UInt8 := v.bytes.drop v.typeCode.svhdrSize

/-- `get_tsql_type_info(type_code).family_prio` of the base type. -/
def family (v : SqlVariant) : Nat := v.typeCode.familyPrio

end SqlVariant

/-! ### Operators -/

inductive Operator where
  | lt | le | eq | ge | gt | ne
deriving DecidableEq, Repr

def Operator.oprname : Operator → List Char
  | lt => ['<']
  | le => ['<', '=']
  | eq => ['=']
  | ge => ['>', '=']
  | gt => ['>']
  | ne => ['<', '>']

/-- What is looked up in the catalog for a collation: the operators of one type, those of two
types, and the implicit casts. -/
structure Natives where
  /-- `compare_value(oprname, type, d1, d2, coll)` -/
  compareValue : Operator → TypeCode → List UInt8 → List UInt8 → Bool
  /-- `compatible_oper(oprname, type1, type2)`, when there is one. -/
  directCmp : Operator → TypeCode → TypeCode → Option (List UInt8 → List UInt8 → Bool)
  /-- `do_cast(source_type, target_type, value, -1, coll, COERCION_IMPLICIT)` -/
  doCast : TypeCode → TypeCode → List UInt8 → List UInt8

/-- The chain of tests on the operator's name that is made where two values cannot be equal. -/
def strictCmp (oprname : List Char) (less greater : Bool) : Bool :=
  if oprname.take 2 = ['<', '>'] then true
  else if oprname.take 1 = ['>'] then greater
  else if oprname.take 1 = ['<'] then less
  else false

/-- `comp_time`, on two types of which exactly one is `time`. -/
def compTime (oprname : List Char) (t1 t2 : TypeCode) : Bool :=
  strictCmp oprname (t1 = .time && t2 ≠ .time) (t1 ≠ .time && t2 = .time)

variable (n : Natives) (lcid : Int)

/-- `do_compare`.  The locale of the general collations is `lcid`. -/
def doCompare (op : Operator) (arg1 arg2 : SqlVariant) : Bool :=
  let t1 := arg1.typeCode
  let t2 := arg2.typeCode
  if t1 = t2 then
    if t1.isStringType && arg1.collid ≠ arg2.collid then
      let collCmpResult := cmpCollation lcid arg1.collid arg2.collid
      strictCmp op.oprname (collCmpResult < 0) (collCmpResult > 0)
    else n.compareValue op t1 arg1.data arg2.data
  else if t1 = .time || t2 = .time then compTime op.oprname t1 t2
  else
    match n.directCmp op t1 t2 with
    | some cmp => cmp arg1.data arg2.data
    | none =>
      if t1.code < t2.code then n.compareValue op t1 arg1.data (n.doCast t2 t1 arg2.data)
      else n.compareValue op t2 (n.doCast t1 t2 arg1.data) arg2.data

/-- The common shape of the six functions: `otherwise` decides between two families. -/
def sqlvariantOp (op : Operator) (otherwise : Nat → Nat → Bool) (arg1 arg2 : SqlVariant) : Bool :=
  if arg1.family = arg2.family then doCompare n lcid op arg1 arg2
  else otherwise arg1.family arg2.family

def sqlvariantlt : SqlVariant → SqlVariant → Bool :=
  sqlvariantOp n lcid .lt fun family1 family2 => family1 > family2

def sqlvariantle : SqlVariant → SqlVariant → Bool :=
  sqlvariantOp n lcid .le fun family1 family2 => family1 > family2

def sqlvarianteq : SqlVariant → SqlVariant → Bool :=
  sqlvariantOp n lcid .eq fun _ _ => false

def sqlvariantge : SqlVariant → SqlVariant → Bool :=
  sqlvariantOp n lcid .ge fun family1 family2 => family1 < family2

def sqlvariantgt : SqlVariant → SqlVariant → Bool :=
  sqlvariantOp n lcid .gt fun family1 family2 => family1 < family2

def sqlvariantne : SqlVariant → SqlVariant → Bool :=
  sqlvariantOp n lcid .ne fun _ _ => true

def sqlvariantCmp (arg1 arg2 : SqlVariant) : Int :=
  if arg1.family = arg2.family then
    if doCompare n lcid .lt arg1 arg2 then -1
    else if doCompare n lcid .eq arg1 arg2 then 0 else 1
  else if arg1.family > arg2.family then -1 else 1

/-- `sqlvariant_hash`: the bytes without the varlena header.  `hash_any` is a function of
PostgreSQL. -/
def sqlvariantHash (hash_any : List UInt8 → UInt32) (key : SqlVariant) : UInt32 :=
  hash_any key.bytes

end Babelfish.Common
