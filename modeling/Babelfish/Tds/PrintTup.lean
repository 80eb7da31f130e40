import Babelfish.Tds.Plp
import Babelfish.Lib.CountedFields

/-!
# Rows

`TdsPrintTup` chooses between two formats of a row: `ROW`, where a null value is written in the
way of its type, and `NBCROW`, where a bitmap says which values are null and nothing else is
written for them.  The choice is made by comparing the size of the bitmap with the size that the
nulls take in a `ROW`.

* `tdsPrintTup`: the bytes of a row.
* `clientRow`: a client that follows the announced types.
* `isNullBit_countNulls`: the bits of the bitmap are the nulls.
* `tdsPrintTup_read_iff`: the client takes the row from its bytes exactly when no null of a CLR
  type is written in a `ROW`.
* `geometryRow_not_read`: a row with a null geometry that the client cannot read.
-/

namespace Babelfish.Response

open Lib List
open Tds (TdsType plpChunk plpBytes plpTerminator)

/-! ### The formats of values -/

/-- How a value stands on the wire: behind a length of one, two or four bytes, behind a text
pointer, or as a sequence of chunks. -/
inductive ValueFormat where
  | byteLen | shortLen | longLen | textPtr | plp
  deriving DecidableEq, Repr

def valueFormat (tdsTypeId : TdsType) (maxSize : Nat) : ValueFormat :=
  match tdsTypeId with
  | .varchar | .nvarchar | .varbinary => if maxSize = 0xffff then .plp else .shortLen
  | .char | .nchar | .binary => .shortLen
  | .xml | .clrudt => .plp
  | .sqlvariant => .longLen
  | .text | .ntext | .image => .textPtr
  | _ => .byteLen

def readChunks : Nat → ByteReader (List UInt8)
  | 0 => refuse
  | fuel + 1 => do
    let n ← readWord 4
    if n = 0 then pure []
    else do
      let chunk ← takeBytes n
      let more ← readChunks fuel
      return chunk ++ more

/-- A value in chunks, of a length that is announced or announced as unknown. -/
def readPlp : ByteReader (Option (List UInt8)) := do
  let total ← readWord 8
  if total = 2 ^ 64 - 1 then pure none
  else do
    let left ← get
    let data ← readChunks (left.length + 1)
    if data.length = total ∨ total = 2 ^ 64 - 2 then pure (some data) else refuse

def readValue : ValueFormat → ByteReader (Option (List UInt8))
  | .byteLen => do
    let n ← readWord 1
    if n = 0 then pure none else some <$> takeBytes n
  | .shortLen => do
    let n ← readWord 2
    if n = 0xffff then pure none else some <$> takeBytes n
  | .longLen => do
    let n ← readWord 4
    if n = 0 then pure none else some <$> takeBytes n
  | .textPtr => do
    let n ← readWord 1
    if n = 0 then pure none
    else do
      -- the pointer and the timestamp
      let _ ← takeBytes (n + 8)
      let len ← readWord 4
      some <$> takeBytes len
  | .plp => readPlp

/-! ### Columns -/

/-- A column: what `TdsPrintTup` uses of its metadata, and its send function.  The send function
writes a value in the announced format. -/
structure Column (D : Type) where
  flags : Nat
  tdsTypeId : TdsType
  maxSize : Nat
  sendFunc : D → List UInt8
  payload : D → List UInt8
  sends : ∀ d, Reads (readValue (valueFormat tdsTypeId maxSize)) (sendFunc d) (some (payload d))

variable {D : Type} {nullMap : List UInt8} {attno : Nat}

namespace Column

variable (col : Column D)

/-- `flags & TDS_COLMETA_NULLABLE` -/
def nullable : Bool := col.flags.testBit 0

def format : ValueFormat := valueFormat col.tdsTypeId col.maxSize

/-- What a null adds to `simpleRowSize`. -/
def nullSize : Nat :=
  match col.tdsTypeId with
  | .varchar | .nvarchar | .varbinary => if col.maxSize = 0xffff then 8 else 2
  | .char | .nchar | .binary => 2
  | .xml => 8
  | .sqlvariant => 4
  | _ => 1

def nullBytes : List UInt8 :=
  match col.tdsTypeId with
  | .varchar | .nvarchar | .varbinary =>
    if col.maxSize = 0xffff then leBytes 8 0xffffffffffffffff else leBytes 2 0xffff
  | .char | .nchar | .binary => leBytes 2 0xffff
  | .xml => leBytes 8 0xffffffffffffffff
  | .sqlvariant => leBytes 4 0
  | _ => leBytes 1 0

end Column

/-- A column with its value in the row. -/
abbrev Cell (D : Type) := Column D × Option D

/-! ### The writer -/

def tdsVersion7_3_B : Nat := 0x730B0003

def tokenRow : UInt8 := 0xD1

def tokenNbcRow : UInt8 := 0xD2

/-- `nullMap[attno / 8] |= (0x01 << (attno & 0x07))` -/
def setNull (nullMap : List UInt8) (attno : Nat) : List UInt8 :=
  nullMap.modify (attno / 8) (· ||| (1 <<< UInt8.ofNat (attno % 8)))

/-- The loop that fills the bitmap and adds up `simpleRowSize`. -/
def countNulls : List (Cell D) → Nat → List UInt8 × Nat → List UInt8 × Nat
  | [], _, acc => acc
  | (col, value) :: cells, attno, (nullMap, simpleRowSize) =>
    if col.nullable && value.isNone then
      countNulls cells (attno + 1) (setNull nullMap attno, simpleRowSize + col.nullSize)
    else countNulls cells (attno + 1) (nullMap, simpleRowSize)

def nullMapSize (natts : Nat) (sendRowStat : Bool) : Nat :=
  if sendRowStat then (natts + 1 + 7) / 8 else (natts + 7) / 8

def cellBytes (rowToken : UInt8) (cell : Cell D) : List UInt8 :=
  match cell.2 with
  | none => if rowToken = tokenRow then cell.1.nullBytes else []
  | some d => cell.1.sendFunc d

/-- `SP_CURSOR_FETCH_SUCCEEDED`, for a cursor fetch. -/
def rowStatBytes (sendRowStat : Bool) : List UInt8 := if sendRowStat then leBytes 4 1 else []

def tdsPrintTup (tdsVersion : Nat) (row : List (Cell D)) (sendRowStat : Bool) : List UInt8 :=
  let size := nullMapSize row.length sendRowStat
  let (nullMap, simpleRowSize) := countNulls row 0 (List.replicate size 0, 0)
  let rowToken :=
    if tdsVersion7_3_B ≤ tdsVersion then
      if size ≤ simpleRowSize then tokenNbcRow else tokenRow
    else tokenRow
  rowToken :: (if rowToken = tokenNbcRow then nullMap else []) ++
    (row.flatMap (cellBytes rowToken) ++ rowStatBytes sendRowStat)

/-! ### The client -/

/-- Whether the bitmap says that a column is null. -/
def isNullBit (nullMap : List UInt8) (attno : Nat) : Bool :=
  (nullMap.getD (attno / 8) 0).toNat.testBit (attno % 8)

/-- The row status, an `INT4` that is not null. -/
def readRowStat (sendRowStat : Bool) : ByteReader (Option Nat) :=
  if sendRowStat then do
    let status ← readWord 4
    return some status
  else pure none

/-- The client that follows the announced types. -/
def clientRow (formats : List ValueFormat) (sendRowStat : Bool) :
    ByteReader (List (Option (List UInt8)) × Option Nat) := do
  let tag ← takeBytes 1
  if tag = [tokenRow] then do
    let values ← readSeq (formats.map readValue)
    let rowStat ← readRowStat sendRowStat
    return (values, rowStat)
  else if tag = [tokenNbcRow] then do
    let nullMap ← takeBytes ((formats.length + (if sendRowStat then 1 else 0) + 7) / 8)
    let values ← readSeq (formats.zipIdx.map fun (format, attno) =>
      if isNullBit nullMap attno then pure none else readValue format)
    let rowStat ←
      if sendRowStat && isNullBit nullMap formats.length then pure none
      else readRowStat sendRowStat
    return (values, rowStat)
  else refuse

def rowValues (row : List (Cell D)) (sendRowStat : Bool) :
    List (Option (List UInt8)) × Option Nat :=
  (row.map fun cell => cell.2.map cell.1.payload, if sendRowStat then some 1 else none)

/-! ### The bitmap -/

theorem testBit_setBit (b : UInt8) {j k : Nat} (hk : k < 8) :
    (b ||| (1 <<< UInt8.ofNat k)).toNat.testBit j = (b.toNat.testBit j || decide (j = k)) := by
  have hshift : (1 <<< UInt8.ofNat k : UInt8).toNat = 2 ^ k := by
    have hpow : 2 ^ k < 2 ^ 8 := Nat.pow_lt_pow_right (by decide) hk
    have hof : (UInt8.ofNat k).toNat = k := by
      rw [UInt8.toNat_ofNat', Nat.mod_eq_of_lt (by omega)]
    rw [UInt8.toNat_shiftLeft, hof, Nat.mod_eq_of_lt hk]
    show 1 <<< k % 2 ^ 8 = 2 ^ k
    rw [Nat.one_shiftLeft, Nat.mod_eq_of_lt hpow]
  rw [UInt8.toNat_or, Nat.testBit_or, hshift, Nat.testBit_two_pow]
  congr 1
  exact decide_eq_decide.mpr eq_comm

theorem isNullBit_setNull (h : attno / 8 < nullMap.length) (i : Nat) :
    isNullBit (setNull nullMap attno) i = (isNullBit nullMap i || decide (i = attno)) := by
  unfold isNullBit setNull
  rw [getD_eq_getElem?_getD, getD_eq_getElem?_getD, getElem?_modify]
  by_cases hbyte : attno / 8 = i / 8
  · rw [← hbyte, getElem?_eq_getElem h]
    simp only [if_true, Option.map_eq_map, Option.map_some, Option.getD_some]
    rw [testBit_setBit _ (Nat.mod_lt attno (by decide))]
    congr 1
    exact decide_eq_decide.mpr (by omega)
  · have hne : i ≠ attno := by
      rintro rfl
      exact hbyte rfl
    simp [hbyte, hne]

theorem length_setNull : (setNull nullMap attno).length = nullMap.length := by
  simp [setNull]

variable (cells : List (Cell D)) {row : List (Cell D)} {rowStat : Bool} {cell : Cell D}

theorem length_countNulls (acc : List UInt8 × Nat) :
    (countNulls cells attno acc).1.length = acc.1.length := by
  induction cells generalizing attno acc with
  | nil => rfl
  | cons cell cells ih =>
    rw [countNulls]
    split
    · rw [ih, length_setNull]
    · rw [ih]

/-- Whether the column at a place is null, the first place being `attno`. -/
def isNullAt (attno i : Nat) : Bool :=
  decide (attno ≤ i) && (cells[i - attno]?).any fun cell => cell.2.isNone

theorem isNullAt_cons (cells : List (Cell D)) (i : Nat) :
    isNullAt (cell :: cells) attno i =
      (cell.2.isNone && decide (i = attno) || isNullAt cells (attno + 1) i) := by
  unfold isNullAt
  rcases Nat.lt_trichotomy i attno with hlt | rfl | hgt
  · simp [Nat.not_le.mpr hlt, Nat.ne_of_lt hlt, show ¬ attno + 1 ≤ i by omega]
  · simp [show ¬ i + 1 ≤ i by omega]
  · obtain ⟨k, rfl⟩ : ∃ k, i = attno + 1 + k := ⟨i - (attno + 1), by omega⟩
    rw [show attno + 1 + k - attno = k + 1 by omega, Nat.add_sub_cancel_left]
    simp [show attno ≤ attno + 1 + k by omega, show ¬ attno + 1 + k = attno by omega]

/-- **The bits of the bitmap are the nulls.** -/
theorem isNullBit_countNulls (hnull : ∀ cell ∈ cells, cell.1.nullable) (attno : Nat)
    (acc : List UInt8 × Nat) (hlen : (attno + cells.length + 7) / 8 ≤ acc.1.length) (i : Nat) :
    isNullBit (countNulls cells attno acc).1 i = (isNullBit acc.1 i || isNullAt cells attno i) := by
  induction cells generalizing attno acc with
  | nil => simp [countNulls, isNullAt]
  | cons cell cells ih =>
    obtain ⟨nullMap, size⟩ := acc
    obtain ⟨hcell, hcells⟩ := forall_mem_cons.mp hnull
    have hlen : (attno + (cells.length + 1) + 7) / 8 ≤ nullMap.length := hlen
    rw [countNulls, hcell, Bool.true_and, isNullAt_cons]
    split_ifs with hnone
    · have hmap : (attno + 1 + cells.length + 7) / 8 ≤ (setNull nullMap attno).length := by
        rw [length_setNull]
        omega
      rw [ih hcells (attno + 1) _ hmap, isNullBit_setNull (by omega), hnone,
        Bool.true_and, Bool.or_assoc]
    · have hmap : (attno + 1 + cells.length + 7) / 8 ≤ nullMap.length := by omega
      have hsome : cell.2.isNone = false := Bool.eq_false_iff.mpr hnone
      rw [ih hcells (attno + 1) _ hmap, hsome, Bool.false_and, Bool.false_or]

def nullsSize (row : List (Cell D)) : Nat :=
  (row.map fun cell => if cell.2.isNone then cell.1.nullSize else 0).sum

theorem countNulls_size (hnull : ∀ cell ∈ cells, cell.1.nullable)
    (attno : Nat) (acc : List UInt8 × Nat) :
    (countNulls cells attno acc).2 = acc.2 + nullsSize cells := by
  induction cells generalizing attno acc with
  | nil => rfl
  | cons cell cells ih =>
    obtain ⟨hcell, hcells⟩ := forall_mem_cons.mp hnull
    rw [countNulls, hcell, Bool.true_and, nullsSize, map_cons, sum_cons]
    split_ifs
    · rw [ih hcells, Nat.add_assoc]
      rfl
    · rw [ih hcells, Nat.zero_add]
      rfl

theorem isNullBit_zero (n i : Nat) : isNullBit (List.replicate n 0) i = false := by
  unfold isNullBit
  rw [getD_eq_getElem?_getD, getElem?_replicate]
  split <;> exact Nat.zero_testBit _

/-! ### Values and nulls -/

theorem reads_null {k n : Nat} {c : Nat → Prop} [DecidablePred c]
    {f : Nat → ByteReader (Option (List UInt8))} (hn : n < 256 ^ k) (hc : c n) :
    Reads (readWord k >>= fun m => if c m then pure none else f m) (leBytes k n) none := by
  refine (Reads.readWord hn).map ?_
  rw [if_pos hc]
  exact .pure none

/-- A null is read in every format but the chunks of a CLR type. -/
theorem readValue_null (col : Column D) (hclr : col.tdsTypeId ≠ .clrudt) :
    Reads (readValue col.format) col.nullBytes none := by
  have hbyte : Reads (readValue .byteLen) (leBytes 1 0) none := reads_null (by decide) rfl
  have hshort : Reads (readValue .shortLen) (leBytes 2 0xffff) none := reads_null (by decide) rfl
  have hlong : Reads (readValue .longLen) (leBytes 4 0) none := reads_null (by decide) rfl
  have htext : Reads (readValue .textPtr) (leBytes 1 0) none := reads_null (by decide) rfl
  have hplp : Reads (readValue .plp) (leBytes 8 0xffffffffffffffff) none :=
    reads_null (by decide) (by decide)
  obtain ⟨flags, tdsTypeId, maxSize, sendFunc, payload, sends⟩ := col
  cases tdsTypeId with
  | varchar | nvarchar | varbinary =>
    show Reads (readValue (if maxSize = 0xffff then .plp else .shortLen))
      (if maxSize = 0xffff then leBytes 8 0xffffffffffffffff else leBytes 2 0xffff) none
    split
    · exact hplp
    · exact hshort
  | char | nchar | binary => exact hshort
  | xml => exact hplp
  | sqlvariant => exact hlong
  | text | ntext | image => exact htext
  | clrudt => exact absurd rfl hclr
  | uniqueidentifier | integer | date | time | datetime2 | datetimeoffset | bit | decimaln
  | numericn | float | moneyn | datetimen | table => exact hbyte

theorem readPlp_zero (rest rest' : List UInt8) :
    readPlp (leBytes 1 0 ++ rest) ≠ some (none, rest') := by
  intro h
  obtain ⟨total, s, hword, hrest⟩ := bind_eq_some.mp h
  obtain ⟨bs, s₁, htake, hpure⟩ := bind_eq_some.mp hword
  cases hpure
  obtain ⟨hle, rfl, rfl⟩ := takeBytes_eq_some.mp htake
  have hhead : (leBytes 1 0 ++ rest).take 8 = 0 :: rest.take 7 := rfl
  have hlt : leNat ((leBytes 1 0 ++ rest).take 8) ≠ 2 ^ 64 - 1 := by
    rw [hhead, leNat, show (0 : UInt8).toNat = 0 from rfl]
    omega
  rw [if_neg hlt] at hrest
  obtain ⟨left, s₂, hget, hrest⟩ := bind_eq_some.mp hrest
  obtain ⟨data, s₃, hdata, hrest⟩ := bind_eq_some.mp hrest
  split at hrest <;> cases hrest

def Cell.IsNullUdt (cell : Cell D) : Prop := cell.2 = none ∧ cell.1.tdsTypeId = .clrudt

/-- **A column of a `ROW` is read exactly when it is not a null of a CLR type.** -/
theorem cell_readsIff (cell : Cell D) :
    ReadsIff (readValue cell.1.format) (cellBytes tokenRow cell) (cell.2.map cell.1.payload)
      (¬ cell.IsNullUdt) := by
  obtain ⟨col, value⟩ := cell
  cases value with
  | some d => exact ReadsIff.of_reads (col.sends d) fun h => nomatch h.1
  | none =>
    by_cases hclr : col.tdsTypeId = .clrudt
    · have hformat : col.format = .plp := by rw [Column.format, hclr]; rfl
      have hbytes : col.nullBytes = leBytes 1 0 := by rw [Column.nullBytes, hclr]
      refine ⟨fun h => absurd ⟨rfl, hclr⟩ h, fun rest rest' hr => ?_⟩
      have hr : readValue col.format (col.nullBytes ++ rest) = some (none, rest') := hr
      rw [hformat, hbytes] at hr
      exact absurd hr (readPlp_zero rest rest')
    · exact .of_reads (readValue_null col hclr) fun h => hclr h.2

/-- A column of an `NBCROW`, for which the bitmap says whether it is null. -/
theorem cell_reads_nbc (h : isNullBit nullMap attno = cell.2.isNone) :
    Reads (if isNullBit nullMap attno then pure none else readValue cell.1.format)
      (cellBytes tokenNbcRow cell) (cell.2.map cell.1.payload) := by
  obtain ⟨col, value⟩ := cell
  rw [h]
  cases value with
  | some d => exact col.sends d
  | none => exact Reads.pure none

theorem readRowStat_reads :
    Reads (readRowStat rowStat) (rowStatBytes rowStat)
      (if rowStat then some 1 else none) := by
  cases rowStat with
  | true => exact (Reads.readWord (show 1 < 256 ^ 4 by decide)).map (Reads.pure (some 1))
  | false => exact Reads.pure none

/-! ### Rows -/

/-- **A `ROW` is read exactly when it has no null of a CLR type.** -/
theorem row_read_iff :
    Reads (clientRow (row.map fun cell => cell.1.format) rowStat)
        (tokenRow :: (row.flatMap (cellBytes tokenRow) ++ rowStatBytes rowStat))
        (rowValues row rowStat) ↔
      ∀ cell ∈ row, ¬ cell.IsNullUdt := by
  have htag : Reads (takeBytes 1) [tokenRow] [tokenRow] := Reads.takeBytes [tokenRow]
  have hcells := ReadsIff.seq (l := row) fun cell _ => cell_readsIff cell
  rw [← singleton_append, clientRow, htag.bind_iff, if_pos rfl, map_map]
  constructor
  · intro h
    obtain ⟨values, s, hvalues, hrest⟩ := bind_eq_some.mp (h [])
    obtain ⟨rowStat, s', -, hpure⟩ := bind_eq_some.mp hrest
    cases hpure
    rw [append_assoc] at hvalues
    exact (hcells.only _ _ hvalues).1
  · intro h
    exact (hcells.reads h).bind (readRowStat_reads.map (.pure _))

theorem isNullAt_zipIdx {p : Cell D × Nat} (hp : p ∈ row.zipIdx) :
    isNullAt row 0 p.2 = p.1.2.isNone := by
  obtain ⟨cell, i⟩ := p
  have hget : row[i]? = some cell := mem_zipIdx_iff_getElem?.mp hp
  simp [isNullAt, hget]

/-- **An `NBCROW` is read** when the bits of its bitmap are the nulls. -/
theorem nbcRow_read (hlen : nullMap.length = nullMapSize row.length rowStat)
    (hbits : ∀ i, isNullBit nullMap i = isNullAt row 0 i) :
    Reads (clientRow (row.map fun cell => cell.1.format) rowStat)
      (tokenNbcRow :: nullMap ++ (row.flatMap (cellBytes tokenNbcRow) ++ rowStatBytes rowStat))
      (rowValues row rowStat) := by
  have htag : Reads (takeBytes 1) [tokenNbcRow] [tokenNbcRow] := Reads.takeBytes [tokenNbcRow]
  have hmap : Reads (takeBytes
      (((row.map fun cell => cell.1.format).length + (if rowStat then 1 else 0) + 7) / 8))
      nullMap nullMap := by
    have hsize : ((row.map fun cell => cell.1.format).length +
        (if rowStat then 1 else 0) + 7) / 8 = nullMap.length := by
      rw [length_map, hlen, nullMapSize]
      cases rowStat <;> rfl
    rw [hsize]
    exact .takeBytes nullMap
  have hstat : isNullBit nullMap (row.map fun cell => cell.1.format).length = false := by
    rw [hbits, length_map]
    simp [isNullAt]
  -- the columns with their places, as the loop of the client has them
  have hcells := (ReadsIff.seq (l := row.zipIdx) fun p hp =>
    ReadsIff.of_reads (cell_reads_nbc ((hbits p.2).trans (isNullAt_zipIdx hp))) trivial).reads
      fun _ _ => trivial
  have hreaders : (row.map fun cell => cell.1.format).zipIdx.map (fun (format, attno) =>
      if isNullBit nullMap attno then pure none else readValue format) =
      row.zipIdx.map fun p =>
        if isNullBit nullMap p.2 then pure none else readValue p.1.1.format := by
    rw [zipIdx_map, map_map]
    rfl
  have hbytes : (row.zipIdx.flatMap fun p => cellBytes tokenNbcRow p.1) =
      row.flatMap (cellBytes tokenNbcRow) := by
    rw [← flatMap_map, zipIdx_map_fst]
  have hvalues : (row.zipIdx.map fun p => p.1.2.map p.1.1.payload) =
      row.map fun cell => cell.2.map cell.1.payload := by
    conv_rhs => rw [← zipIdx_map_fst 0 row, map_map]
    rfl
  rw [← hreaders, hbytes, hvalues] at hcells
  rw [cons_append, ← singleton_append, clientRow, htag.bind_iff, if_neg (by decide), if_pos rfl]
  refine hmap.bind (hcells.bind ?_)
  rw [hstat, Bool.and_false, if_neg (by decide)]
  exact readRowStat_reads.map (.pure _)

/-! ### The law -/

/-- A `ROW` is chosen: the version has no other format, or the bitmap is larger than the nulls. -/
def SentAsRow (tdsVersion : Nat) (row : List (Cell D)) (sendRowStat : Bool) : Prop :=
  tdsVersion < tdsVersion7_3_B ∨
    nullsSize row < (row.length + (if sendRowStat then 1 else 0) + 7) / 8

instance (tdsVersion : Nat) (row : List (Cell D)) (sendRowStat : Bool) :
    Decidable (SentAsRow tdsVersion row sendRowStat) := inferInstanceAs (Decidable (_ ∨ _))

theorem nullMapSize_eq (natts : Nat) :
    nullMapSize natts rowStat = (natts + (if rowStat then 1 else 0) + 7) / 8 := by
  cases rowStat <;> rfl

theorem tdsPrintTup_eq {version : Nat}
    (hnull : ∀ cell ∈ row, cell.1.nullable) :
    tdsPrintTup version row rowStat =
      let rowToken := if SentAsRow version row rowStat then tokenRow else tokenNbcRow
      let acc := countNulls row 0 (List.replicate (nullMapSize row.length rowStat) 0, 0)
      rowToken :: (if rowToken = tokenNbcRow then acc.1 else []) ++
        (row.flatMap (cellBytes rowToken) ++ rowStatBytes rowStat) := by
  have hsize : (countNulls row 0
      (replicate (nullMapSize row.length rowStat) 0, 0)).2 = nullsSize row := by
    rw [countNulls_size row hnull, Nat.zero_add]
  have htoken : (if tdsVersion7_3_B ≤ version then
        if nullMapSize row.length rowStat ≤ nullsSize row then tokenNbcRow else tokenRow
      else tokenRow) =
      if SentAsRow version row rowStat then tokenRow else tokenNbcRow := by
    rw [nullMapSize_eq]
    unfold SentAsRow
    split_ifs <;> first | rfl | omega
  rw [← htoken, ← hsize]
  rfl

/-- **The client takes the row from its bytes exactly when no null of a CLR type is written in a
`ROW`.** -/
theorem tdsPrintTup_read_iff (tdsVersion : Nat) (row : List (Cell D)) (sendRowStat : Bool)
    (hnull : ∀ cell ∈ row, cell.1.nullable) :
    Reads (clientRow (row.map fun cell => cell.1.format) sendRowStat)
        (tdsPrintTup tdsVersion row sendRowStat) (rowValues row sendRowStat) ↔
      ¬ (SentAsRow tdsVersion row sendRowStat ∧ ∃ cell ∈ row, cell.IsNullUdt) := by
  rw [tdsPrintTup_eq hnull]
  split_ifs with hrow
  · refine row_read_iff.trans ?_
    simp only [hrow, true_and, not_exists, not_and]
  · dsimp only
    rw [if_pos rfl]
    refine iff_of_true (nbcRow_read ?_ fun i => ?_) fun h => hrow h.1
    · rw [length_countNulls, length_replicate]
    · rw [isNullBit_countNulls row hnull 0 _ ?_ i, isNullBit_zero, Bool.false_or]
      rw [length_replicate, nullMapSize]
      split <;> omega

/-! ### Examples of rows -/

theorem readChunks_reads (chunks : List (List UInt8)) (fuel : Nat) (hfuel : chunks.length < fuel)
    (hchunks : ∀ chunk ∈ chunks, chunk ≠ [] ∧ chunk.length < 256 ^ 4) :
    Reads (readChunks fuel) (chunks.flatMap plpChunk ++ leBytes 4 plpTerminator)
      chunks.flatten := by
  induction chunks generalizing fuel with
  | nil =>
    obtain ⟨fuel, rfl⟩ := Nat.exists_eq_add_of_lt hfuel
    exact (Reads.readWord (show plpTerminator < 256 ^ 4 by decide)).map (Reads.pure [])
  | cons chunk chunks ih =>
    obtain ⟨⟨hne, hlt⟩, hrest⟩ := forall_mem_cons.mp hchunks
    obtain ⟨fuel, rfl⟩ : ∃ k, fuel = k + 1 := ⟨fuel - 1, by omega⟩
    have hzero : chunk.length ≠ 0 := by simpa using hne
    rw [flatMap_cons, plpChunk, append_assoc, append_assoc, flatten_cons]
    refine (Reads.readWord hlt).bind ?_
    rw [if_neg hzero]
    refine (Reads.takeBytes chunk).bind ?_
    exact (ih fuel (by simpa using hfuel) hrest).map (Reads.pure _)

/-- **What the writer of values in chunks emits is read**, however it is cut. -/
theorem readPlp_plpBytes {chunks : List (List UInt8)}
    (hchunks : ∀ chunk ∈ chunks, chunk ≠ [] ∧ chunk.length < 256 ^ 4)
    (hlen : chunks.flatten.length < 2 ^ 64 - 2) :
    Reads readPlp (plpBytes chunks) (some chunks.flatten) := by
  refine (Reads.readWord (show chunks.flatten.length < 256 ^ 8 by omega)).bind ?_
  rw [if_neg (by omega)]
  intro rest
  rw [bind_apply]
  have hfuel : chunks.length <
      (chunks.flatMap plpChunk ++ leBytes 4 plpTerminator ++ rest).length + 1 := by
    have hle := Tds.length_le_flatMap chunks
    rw [length_append, length_append]
    omega
  refine ((readChunks_reads chunks _ hfuel hchunks).map ?_) rest
  rw [if_pos (Or.inl rfl)]
  exact .pure _

def tinyintColumn : Column UInt8 where
  flags := 9
  tdsTypeId := .integer
  maxSize := 1
  sendFunc := fun b => [1, b]
  payload := fun b => [b]
  sends := fun _ _ => rfl

/-- A `geometry` column, with the flags of a computed one; the data are of one byte here. -/
def geometryColumn : Column UInt8 where
  flags := 0x21
  tdsTypeId := .clrudt
  maxSize := 0xffff
  sendFunc := fun b => plpBytes [[b]]
  payload := fun b => [b]
  sends := fun _ => readPlp_plpBytes (by simp) (show 1 < 2 ^ 64 - 2 by decide)

/-- Eight numbers and a null geometry. -/
def geometryRow : List (Cell UInt8) :=
  List.replicate 8 (tinyintColumn, some 7) ++ [(geometryColumn, none)]

/-- **A null geometry in a `ROW`** is one zero byte, which the client takes for the start of a
length of eight bytes. -/
theorem geometryRow_not_read :
    tdsPrintTup 0x74000004 geometryRow false =
      [0xD1, 1, 7, 1, 7, 1, 7, 1, 7, 1, 7, 1, 7, 1, 7, 1, 7, 0] ∧
    (∀ cell ∈ geometryRow, cell.1.nullable) ∧
    ¬ Reads (clientRow (geometryRow.map fun cell => cell.1.format) false)
      (tdsPrintTup 0x74000004 geometryRow false) (rowValues geometryRow false) := by
  refine ⟨by decide, by decide, fun h => ?_⟩
  exact row_read_iff.mp h (geometryColumn, none) (by simp [geometryRow])
    ⟨rfl, rfl⟩

/-- Two numbers and two geometries, one of each NULL. -/
def halfNullRow : List (Cell UInt8) :=
  [(tinyintColumn, some 7), (geometryColumn, none), (tinyintColumn, none), (geometryColumn, some 5)]

/-- A null geometry goes into the bitmap and is read. -/
theorem tdsPrintTup_read_iff_halfNull :
    Reads (clientRow (halfNullRow.map fun cell => cell.1.format) true)
      (tdsPrintTup 0x74000004 halfNullRow true) (rowValues halfNullRow true) :=
  (tdsPrintTup_read_iff 0x74000004 halfNullRow true (by decide)).mpr fun h => absurd h.1 (by decide)

end Babelfish.Response
