import Babelfish.Tds.UnicodeRoundTrip
import Babelfish.Lib.CountedFields

/-!
# The tokens with texts

The senders of `tdsresponse.c` whose tokens carry texts of the user: messages, environment
changes, and the names of columns, tables and databases.  A sender returns the bytes it puts on
the wire.  Lengths are kept in C integers of one or two bytes, and what is put of them is their
low bytes.

* `tdsSendInfoOrError`, `tdsSendEnvChange`: `INFO`, `ERROR` and `ENVCHANGE`.
* `sendColumnMetadataToken`, `sendTabNameToken`, `sendColInfoToken`: the description of a result.
-/

namespace Babelfish.Response

open Lib
open Tds (UnicodeError tdsUTF8toUTF16StringInfo)

/-! ### Strings -/

/-- A C string in the encoding of the server: characters, none of which is zero. -/
structure CString where
  chars : List Char
  nonzero : ∀ c ∈ chars, c.toNat ≠ 0

namespace CString

def bytes (s : CString) : List UInt8 := s.chars.flatMap String.utf8EncodeChar

def strlen (s : CString) : Nat := s.bytes.length

def pgMbstrlen (s : CString) : Nat := s.chars.length

/-- `psprintf("%s.%s", s, t)` -/
def joinDot (s t : CString) : CString where
  chars := s.chars ++ '.' :: t.chars
  nonzero := List.forall_mem_append.mpr
    ⟨s.nonzero, List.forall_mem_cons.mpr ⟨by decide, t.nonzero⟩⟩

/-- `s + 1` -/
def next (s : CString) : CString where
  chars := s.chars.tail
  nonzero := fun c hc => s.nonzero c (List.mem_of_mem_tail hc)

def empty : CString := ⟨[], by simp⟩

def sys : CString := ⟨['s', 'y', 's'], by simp⟩

def noName : CString := ⟨['?', 'c', 'o', 'l', 'u', 'm', 'n', '?'], by simp⟩

end CString

/-- `TdsUTF8toUTF16StringInfo` of a whole string. -/
def toUTF16 (s : CString) : Except UnicodeError (List UInt8) := tdsUTF8toUTF16StringInfo s.bytes

/-- The low `k` bytes of a C integer. -/
def intBytes (k : Nat) (n : Int) : List UInt8 := leBytes k (n % (256 : Int) ^ k).toNat

def tdsVersion7_1 : Nat := 0x71000000

def tdsVersion7_1_1 : Nat := 0x71000001

/-! ### Messages -/

inductive TokenError where
  | unicode (e : UnicodeError)
  /-- `Line Number execeeds INT16_MAX` -/
  | lineNumber
  deriving DecidableEq, Repr

variable (tdsVersion : Nat)

def lineNoLen : Nat := if tdsVersion ≤ tdsVersion7_1_1 then 2 else 4

/-- The line number, in as many bytes as the version has for it. -/
def lineNoBytes (lineNo : Int) : Except TokenError (List UInt8) :=
  if tdsVersion ≤ tdsVersion7_1_1 then
    if 32767 < lineNo then .error .lineNumber else .ok (intBytes 2 lineNo)
  else .ok (intBytes 4 lineNo)

def tdsSendInfoOrError (token : UInt8) (number state cls : Int)
    (message serverName procName : CString) (lineNo : Int) : Except TokenError (List UInt8) := do
  let messageUtf16 ← (toUTF16 message).mapError .unicode
  let serverNameUtf16 ← (toUTF16 serverName).mapError .unicode
  let procNameUtf16 ← (toUTF16 procName).mapError .unicode
  let totalLen := 4 + 1 + 1 + 2 + messageUtf16.length + 1 + serverNameUtf16.length + 1 +
    procNameUtf16.length + lineNoLen tdsVersion
  let line ← lineNoBytes tdsVersion lineNo
  return token :: leBytes 2 totalLen ++
    (intBytes 4 number ++ intBytes 1 state ++ intBytes 1 cls ++
      (leBytes 2 (messageUtf16.length / 2) ++ messageUtf16) ++
      (leBytes 1 serverName.strlen ++ serverNameUtf16) ++
      (leBytes 1 procName.strlen ++ procNameUtf16) ++ line)

/-! ### Environment changes -/

def tokenEnvChange : UInt8 := 0xE3

/-- The value of an environment change in UTF-16; no value is an empty buffer. -/
def envValue : Option CString → Except UnicodeError (List UInt8)
  | some s => toUTF16 s
  | none => .ok []

def tdsSendEnvChange (envid : Int) (newVal oldVal : Option CString) :
    Except UnicodeError (List UInt8) := do
  let newUtf16 ← envValue newVal
  let oldUtf16 ← envValue oldVal
  let totalLen := 1 + 1 + newUtf16.length + 1 + oldUtf16.length
  return tokenEnvChange :: leBytes 2 totalLen ++
    (intBytes 1 envid ++ (leBytes 1 (newUtf16.length / 2) ++ newUtf16) ++
      (leBytes 1 (oldUtf16.length / 2) ++ oldUtf16))

/-! ### Tables and columns -/

/-- `TdsRelationMetaDataInfo`.  Of the parts of the name the relation and the schema are set. -/
structure TdsRelationMetaDataInfo where
  relationName : CString
  schemaName : CString
  keyattrs : List Int
  tableNum : UInt8

/-- `partName[i]` -/
def TdsRelationMetaDataInfo.partName (rel : TdsRelationMetaDataInfo) : Nat → CString
  | 0 => rel.relationName
  | _ => rel.schemaName

/-- The base of a column that is not an expression: its relation, attribute and name there. -/
structure BaseColumn where
  baseColName : CString
  attrNum : Int
  relinfo : TdsRelationMetaDataInfo

/-- What a column of a spatial type carries. -/
structure SpatialNames where
  typeName : CString
  assemblyName : CString

/-- `TdsColumnMetaData`: `metaEntry` are the `metaLen` bytes of it that are sent, `base` stands for
`relOid`, `attrNum`, `relinfo` and `baseColName`, and `spatial` for `isSpatialType` with its two
names. -/
structure TdsColumnMetaData where
  colName : CString
  metaEntry : List UInt8
  sendTableName : Bool
  base : Option BaseColumn
  spatial : Option SpatialNames

/-- The loop of `FillTabNameWithNumParts` over the parts, the last first. -/
def fillParts (rel : TdsRelationMetaDataInfo) : Nat → Except UnicodeError (List UInt8)
  | 0 => .ok []
  | numParts + 1 => do
    let utf16 ← toUTF16 (rel.partName numParts)
    let more ← fillParts rel numParts
    return leBytes 2 (rel.partName numParts).pgMbstrlen ++ utf16 ++ more

def fillTabNameWithNumParts (numParts : Nat) (rel : TdsRelationMetaDataInfo) :
    Except UnicodeError (List UInt8) := do
  let parts ← fillParts rel numParts
  return UInt8.ofNat numParts :: parts

/-- The loop of `FillTabNameWithoutNumParts` that joins the parts. -/
def joinParts (rel : TdsRelationMetaDataInfo) : Nat → CString → CString
  | 0, tableName => tableName
  | numParts + 1, tableName => joinParts rel numParts (tableName.joinDot (rel.partName numParts))

def fillTabNameWithoutNumParts (numParts : Nat) (rel : TdsRelationMetaDataInfo) :
    Except UnicodeError (List UInt8) := do
  let joined := joinParts rel numParts .empty
  -- skip the first '.'
  let tableName := if joined.strlen = 0 then joined else joined.next
  let utf16 ← toUTF16 tableName
  return leBytes 2 tableName.pgMbstrlen ++ utf16

def tokenColMetadata : UInt8 := 0x81

def tokenTabName : UInt8 := 0xA4

def tokenColInfo : UInt8 := 0xA5

def maxCharInColMetadataName : Nat := 128

/-- The number of the units of a column name, and its bytes, cut to what one byte can count. -/
def clampedName (s : CString) : Except UnicodeError (List UInt8) := do
  let utf16 ← toUTF16 s
  let units := utf16.length / 2
  if maxCharInColMetadataName < units then
    return leBytes 1 maxCharInColMetadataName ++ utf16.take (maxCharInColMetadataName * 2)
  else
    return leBytes 1 units ++ utf16

/-- A user type of zero. -/
def userType : List UInt8 :=
  if tdsVersion ≤ tdsVersion7_1_1 then leBytes 2 0 else leBytes 4 0

variable (col : TdsColumnMetaData)

def columnTableName :
    Except UnicodeError (List UInt8) :=
  if col.sendTableName then
    match col.base with
    | some base =>
      if tdsVersion7_1_1 < tdsVersion then fillTabNameWithNumParts 2 base.relinfo
      else fillTabNameWithoutNumParts 2 base.relinfo
    | none => .ok ((if tdsVersion7_1_1 < tdsVersion then [1] else []) ++ leBytes 2 0)
  else .ok []

def columnSpatial (dbName : CString) (col : TdsColumnMetaData) : Except UnicodeError (List UInt8) :=
  match col.spatial with
  | some names => do
    let db ← toUTF16 dbName
    let sys ← toUTF16 .sys
    let type ← toUTF16 names.typeName
    let assembly ← toUTF16 names.assemblyName
    return (leBytes 1 dbName.pgMbstrlen ++ db) ++ (leBytes 1 CString.sys.pgMbstrlen ++ sys) ++
      (leBytes 1 names.typeName.pgMbstrlen ++ type) ++
      (leBytes 2 names.assemblyName.pgMbstrlen ++ assembly)
  | none => .ok []

/-- The name of a column; an expression sends none. -/
def columnName : Except UnicodeError (List UInt8) :=
  if col.colName.bytes = CString.noName.bytes then .ok (leBytes 1 0) else clampedName col.colName

/-- One round of the loop of `SendColumnMetadataToken`. -/
def columnMetadata (dbName : CString) (col : TdsColumnMetaData) :
    Except UnicodeError (List UInt8) := do
  let table ← columnTableName tdsVersion col
  let spatial ← columnSpatial dbName col
  let name ← columnName col
  return userType tdsVersion ++ col.metaEntry ++ table ++ spatial ++ name

/-- The fixed description of the `ROWSTAT` column. -/
def rowStatArray : List UInt8 :=
  [0x00, 0x00, 0x38, 0x07, 0x52, 0x00, 0x4f, 0x00, 0x57, 0x00, 0x53, 0x00, 0x54, 0x00, 0x41, 0x00,
    0x54, 0x00]

def sendColumnMetadataToken (dbName : CString) (cols : List TdsColumnMetaData)
    (sendRowStat : Bool) : Except UnicodeError (List UInt8) := do
  let entries ← cols.mapM (columnMetadata tdsVersion dbName)
  return tokenColMetadata :: leBytes 2 (if sendRowStat then cols.length + 1 else cols.length) ++
    (entries.flatten ++ if sendRowStat then userType tdsVersion ++ rowStatArray else [])

def tabNameEntry (rel : TdsRelationMetaDataInfo) :
    Except UnicodeError (List UInt8) :=
  if tdsVersion7_1 < tdsVersion then fillTabNameWithNumParts 2 rel
  else fillTabNameWithoutNumParts 2 rel

/-- `SendTabNameToken`, which sends nothing when there is no relation. -/
def sendTabNameToken (rels : List TdsRelationMetaDataInfo) :
    Except UnicodeError (Option (List UInt8)) :=
  if rels.isEmpty then .ok none
  else do
    let entries ← rels.mapM (tabNameEntry tdsVersion)
    return some (tokenTabName :: leBytes 2 entries.flatten.length ++ entries.flatten)

/-- The status of a column, and whether its name differs from the one in its relation. -/
def columnStatus : UInt8 :=
  match col.base with
  | none => 0x04
  | some base =>
    (if base.baseColName.bytes ≠ col.colName.bytes then 0x20 else 0) |||
      (if base.attrNum ∈ base.relinfo.keyattrs then 0x08 else 0)

/-- One round of the loop of `SendColInfoToken`. -/
def columnInfo (attno : Nat) (col : TdsColumnMetaData) : Except UnicodeError (List UInt8) := do
  let tableNum := (col.base.map fun base => base.relinfo.tableNum).getD 0
  let head := [UInt8.ofNat (attno + 1), tableNum, columnStatus col]
  match col.base with
  | some base =>
    if columnStatus col &&& 0x20 ≠ 0 then do
      let name ← clampedName base.baseColName
      return head ++ name
    else return head
  | none => return head

def sendColInfoToken (cols : List TdsColumnMetaData) (sendRowStat : Bool) :
    Except UnicodeError (List UInt8) := do
  let entries ← cols.zipIdx.mapM fun (col, attno) => columnInfo attno col
  let buf := entries.flatten ++
    if sendRowStat then [UInt8.ofNat (cols.length + 1), 0, 0x04 ||| 0x10] else []
  return tokenColInfo :: leBytes 2 buf.length ++ buf

end Babelfish.Response
