import Babelfish.Lib.Stateful
import Babelfish.Tds.Requests
import Babelfish.Tds.RpcMessage

/-!
# Bulk load

`tdsbulkload.c`: the rows of a bulk load arrive packet by packet, and the parser pulls the next
packet from wherever it runs out of bytes.  Between values it drops the bytes it has parsed; inside
a PLP value it keeps them, because it holds offsets to the chunks.  The rows are handed to the
callback in batches, limited in rows and in kilobytes.

The values are handed on as Datums.  The conversion of the bytes of a value is a parameter; it gets
the rest of the message too, because a conversion can read more bytes than the value has.  The
limits, like all settings, are `int`.
-/

namespace Babelfish.Tds

open Lib

/-! ### Columns -/

/-- The types a column of a bulk load can have. -/
inductive BulkType where
  | integer | bit | float | moneyn | datetimen | uniqueidentifier | decimaln | numericn
  | char | varchar | nchar | nvarchar | text | ntext | image | xml | datetime2 | time
  | datetimeoffset | binary | varbinary | date | sqlvariant
deriving Repr, DecidableEq

/-- `TDS_TYPE_*` -/
def BulkType.toByte : BulkType → UInt8
  | .image => 34
  | .text => 35
  | .uniqueidentifier => 36
  | .integer => 38
  | .date => 40
  | .time => 41
  | .datetime2 => 42
  | .datetimeoffset => 43
  | .sqlvariant => 98
  | .ntext => 99
  | .bit => 104
  | .decimaln => 106
  | .numericn => 108
  | .float => 109
  | .moneyn => 110
  | .datetimen => 111
  | .varbinary => 165
  | .varchar => 167
  | .binary => 173
  | .char => 175
  | .nvarchar => 231
  | .nchar => 239
  | .xml => 241

def BulkType.ofByte : UInt8 → Option BulkType
  | 34 => some .image
  | 35 => some .text
  | 36 => some .uniqueidentifier
  | 38 => some .integer
  | 40 => some .date
  | 41 => some .time
  | 42 => some .datetime2
  | 43 => some .datetimeoffset
  | 98 => some .sqlvariant
  | 99 => some .ntext
  | 104 => some .bit
  | 106 => some .decimaln
  | 108 => some .numericn
  | 109 => some .float
  | 110 => some .moneyn
  | 111 => some .datetimen
  | 165 => some .varbinary
  | 167 => some .varchar
  | 173 => some .binary
  | 175 => some .char
  | 231 => some .nvarchar
  | 239 => some .nchar
  | 241 => some .xml
  | _ => none

/-- `VARIANT_TYPE_*`: a column of a fixed length that is never NULL, with its `TDS_MAXLEN_*`. -/
def BulkType.fixedOfByte : UInt8 → Option (BulkType × Nat)
  | 48 => some (.integer, 1)
  | 50 => some (.bit, 1)
  | 52 => some (.integer, 2)
  | 56 => some (.integer, 4)
  | 58 => some (.datetimen, 4)
  | 59 => some (.float, 4)
  | 60 => some (.moneyn, 8)
  | 61 => some (.datetimen, 8)
  | 62 => some (.float, 8)
  | 122 => some (.moneyn, 4)
  | 127 => some (.integer, 8)
  | _ => none

/-- How the metadata of a type is laid out: the cases of the switch of `GetBulkLoadRequest`. -/
inductive InfoFormat where
  | length
  | numeric
  | string
  | text (hasCollation : Bool)
  | scale (maxLen : Nat)
  | binary
  | date
  | variant
deriving Repr, DecidableEq

def BulkType.info : BulkType → InfoFormat
  | .integer | .bit | .float | .moneyn | .datetimen | .uniqueidentifier | .xml => .length
  | .decimaln | .numericn => .numeric
  | .char | .varchar | .nchar | .nvarchar => .string
  | .text | .ntext => .text true
  | .image => .text false
  | .datetime2 => .scale 8
  | .time => .scale 5
  | .datetimeoffset => .scale 10
  | .binary | .varbinary => .binary
  | .date => .date
  | .sqlvariant => .variant

/-- How a value of a type is laid out: the cases of the switch of `SetBulkLoadRowData`. -/
inductive ValueFormat where
  | byteLength
  | numeric
  | shortLength
  | text
  | plp
  | variant
deriving Repr, DecidableEq

def BulkType.format : BulkType → ValueFormat
  | .integer | .bit | .float | .time | .date | .datetime2 | .datetimen | .moneyn
  | .uniqueidentifier | .datetimeoffset => .byteLength
  | .numericn | .decimaln => .numeric
  | .char | .varchar | .nchar | .nvarchar | .binary | .varbinary => .shortLength
  | .text | .ntext | .image => .text
  | .xml => .plp
  | .sqlvariant => .variant

/-- `BulkLoadColMetaData`, with the collation in the place of the encoding that is looked up from
it. -/
structure BulkLoadColMetaData where
  userType : Nat
  flags : Nat
  columnTdsType : BulkType
  scale : UInt8
  precision : UInt8
  sortId : UInt8
  collation : Nat
  maxLen : Nat
  colName : List UInt8
  variantType : Bool
deriving Repr, DecidableEq

/-! ### Errors -/

/-- Why a bulk load ends early; `overrun` is a copy of a chunk that is not inside the message. -/
inductive BcpStop where
  | eof
  | fatal (e : FatalError)
  | outOfBand
  | noMoreData
  | unexpectedToken
  | columnCount (n : Nat)
  | unknownType (type : UInt8)
  | invalidLength (row column : Nat) (type : UInt8)
  | chunking (row column : Nat) (type : UInt8)
  | numericScale (row column : Nat)
  | unexpectedRowToken (row : Nat) (token : UInt8)
  | overrun
deriving Repr, DecidableEq

def BcpStop.message : BcpStop → String
  | .eof => "EOF on TDS socket while fetching For Bulk Load Request"
  | .fatal e => e.message
  | .outOfBand => "Unexpected out of band packet while fetching a Bulk Load Request."
  | .noMoreData => "Trying to read more data than available in BCP request."
  | .unexpectedToken => stream ++ "unexpected token encountered processing the request."
  | .columnCount n => stream ++ "column count " ++ toString n ++ " is invalid."
  | .unknownType type => "The incoming tabular data stream (TDS) is incorrect. " ++
      "Data type 0x" ++ hex02 type ++ " is unknown."
  | .invalidLength row column type => stream ++ place row column ++ "Data type 0x" ++ hex02 type ++
      " has an invalid data length or metadata length."
  | .chunking row column type => stream ++ place row column ++ "The chunking format is " ++
      "incorrect for a large object parameter of data type 0x" ++ hex02 type ++ "."
  | .numericScale row column => stream ++ place row column ++ "The supplied value is not a " ++
      "valid instance of data type Numeric/Decimal. Check the source data for invalid values. " ++
      "An example of an invalid value is data of numeric type with scale greater than precision."
  | .unexpectedRowToken row token => stream ++ "Row " ++ toString row ++
      ", unexpected token encountered processing the request. " ++ toString token.toNat
  | .overrun => ""
where
  stream := "The incoming tabular data stream (TDS) Bulk Load Request (BulkLoadBCP) protocol " ++
    "stream is incorrect. "
  place (row column : Nat) := "Row " ++ toString row ++ ", column " ++ toString column ++ ": "

/-! ### The message and the packets that are still to come -/

/-- The message that has been received and not dropped, the offset of the parser, the reader behind
it, and the counters of the current batch. -/
structure BcpState where
  message : List UInt8
  bcpOffset : Nat
  recv : RecvState
  currentBatchSize : Int
  rowCount : Nat
deriving Repr, DecidableEq

abbrev Bcp (α : Type) := StateT BcpState (Outcome BcpStop) α

def stop {α : Type} (e : BcpStop) : Bcp α := fun _ => .error e

/-- A function of the reader; `EOF` is raised as an error. -/
def fromReader {α : Type} : Outcome Stop α → Outcome BcpStop α
  | .ok a => .ok a
  | .error .eof => .error .eof
  | .error (.fatal e) => .error (.fatal e)
  | .timeout => .timeout

def tdsGetRecvPacketEomStatus (b : BcpState) : Bool := b.recv.recvPacketStatus &&& statusEom != 0

def BcpState.unparsed (b : BcpState) : List UInt8 := b.message.drop b.bcpOffset

section

variable (fuel : Nat)

def tdsReadNextPendingBcpRequest (b : BcpState) : Outcome BcpStop BcpState := do
  let s ← fromReader (tdsReadNextBuffer fuel b.recv)
  if s.recvMessageType ≠ bulkLoad then .error .outOfBand
  else
    let (data, s) ← fromReader (tdsGetbytes fuel s.leftInPacket s)
    pure { b with message := b.message ++ data, recv := s }

/-- `FetchMoreBcpData`; the number of bytes is passed as an `int`. -/
def fetchMoreBcpData (freeMessageData : Bool) (dataLenToRead : Nat) (b : BcpState) :
    Outcome BcpStop BcpState :=
  if tdsGetRecvPacketEomStatus b then .error .noMoreData
  else
    whileLoop
      (fun b => decide (b.message.length < toUInt64 (toInt32 dataLenToRead + b.bcpOffset)))
      (tdsReadNextPendingBcpRequest fuel) fuel
      (if freeMessageData then { b with message := b.unparsed, bcpOffset := 0 } else b)

def fetchMoreBcpPlpData (dataLenToRead : Nat) (b : BcpState) : Outcome BcpStop BcpState :=
  fetchMoreBcpData fuel false dataLenToRead b

/-- Fetch more when the message has fewer bytes left. -/
def checkMessage (fetch : Nat → BcpState → Outcome BcpStop BcpState) (dataLen : Nat) : Bcp Unit :=
  fun b => do
    if toUInt64 (b.message.length - b.bcpOffset) < dataLen then
      let b ← fetch dataLen b
      pure ((), b)
    else pure ((), b)

/-- `CheckMessageHasEnoughBytesToReadColMetadata` -/
def checkColMetadata (dataLen : Nat) : Bcp Unit :=
  checkMessage (fetchMoreBcpData fuel false) dataLen

/-- `CheckMessageHasEnoughBytesToReadRows` -/
def checkRows (dataLen : Nat) : Bcp Unit := checkMessage (fetchMoreBcpData fuel true) dataLen

/-- `CheckPlpMessageHasEnoughBytesToRead` -/
def checkPlp (dataLen : Nat) : Bcp Unit := checkMessage (fetchMoreBcpPlpData fuel) dataLen

end

/-- Copy from the offset and step over it. -/
def take (n : Nat) : Bcp (List UInt8) := fun b =>
  .ok (slice b.message b.bcpOffset (b.bcpOffset + n), { b with bcpOffset := b.bcpOffset + n })

/-- `message->data[bcpOffset++]` -/
def takeByte : Bcp UInt8 := do
  let bytes ← take 1
  pure (bytes.headD 0)

/-- `currentBatchSize += n` -/
def BcpState.grow (b : BcpState) (n : Nat) : BcpState :=
  { b with currentBatchSize := toInt32 (toUInt32 (b.currentBatchSize + n)) }

/-- Copy from the offset, step over it and count it. -/
def takeRow (n : Nat) : Bcp (List UInt8) := do
  let bytes ← take n
  modify fun b => b.grow n
  pure bytes

/-! ### Column metadata -/

section

variable (fuel : Nat)

def readTypeInfo (c : BulkLoadColMetaData) : Bcp BulkLoadColMetaData :=
  match c.columnTdsType.info with
  | .length => do
    checkColMetadata fuel 1
    let maxLen ← takeByte
    pure { c with maxLen := toUInt32 (signedChar maxLen) }
  | .numeric => do
    checkColMetadata fuel 3
    let maxLen ← takeByte
    let precision ← takeByte
    let scale ← takeByte
    pure { c with maxLen := toUInt32 (signedChar maxLen), precision := precision, scale := scale }
  | .string => do
    checkColMetadata fuel 7
    let maxLen ← take 2
    let collation ← take 4
    let sortId ← takeByte
    pure { c with maxLen := leNat maxLen, collation := leNat collation, sortId := sortId }
  | .text hasCollation => do
    checkColMetadata fuel 4
    let maxLen ← take 4
    let c ← (if hasCollation then readCollation { c with maxLen := leNat maxLen }
      else pure { c with maxLen := leNat maxLen })
    checkColMetadata fuel 2
    let tableLen ← take 2
    checkColMetadata fuel (leNat tableLen * 2)
    let _ ← take (leNat tableLen * 2)
    pure c
  | .scale maxLen => do
    checkColMetadata fuel 1
    let scale ← takeByte
    pure { c with maxLen := maxLen, scale := scale }
  | .binary => do
    checkColMetadata fuel 2
    let maxLen ← take 2
    pure { c with maxLen := leNat maxLen }
  | .date => pure { c with maxLen := 3 }
  | .variant => do
    checkColMetadata fuel 4
    let maxLen ← take 4
    pure { c with maxLen := leNat maxLen }
where
  /-- The collation and sort-id of `TEXT` and `NTEXT`. -/
  readCollation (c : BulkLoadColMetaData) : Bcp BulkLoadColMetaData := do
    checkColMetadata fuel 5
    let collation ← take 4
    let sortId ← takeByte
    pure { c with collation := leNat collation, sortId := sortId }

/-- A column whose type and name are not yet known (`palloc0`). -/
def blankColumn (userType flags : Nat) (type : BulkType) : BulkLoadColMetaData where
  userType := userType
  flags := flags
  columnTdsType := type
  scale := 0
  precision := 0
  sortId := 0
  collation := 0
  maxLen := 0
  colName := []
  variantType := false

/-- `TYPE_INFO` -/
def readType (userType flags : Nat) (type : UInt8) : Bcp BulkLoadColMetaData :=
  match BulkType.ofByte type with
  | some t => readTypeInfo fuel (blankColumn userType flags t)
  | none =>
    match BulkType.fixedOfByte type with
    | some (t, maxLen) =>
      pure { blankColumn userType flags t with maxLen := maxLen, variantType := true }
    | none => stop (.unknownType type)

def readColumn : Bcp BulkLoadColMetaData := do
  checkColMetadata fuel 7
  let userType ← take 4
  let flags ← take 2
  let type ← takeByte
  let c ← readType fuel (leNat userType) (leNat flags) type
  checkColMetadata fuel 1
  let colNameLen ← takeByte
  checkColMetadata fuel (colNameLen.toNat * 2)
  let colName ← take (colNameLen.toNat * 2)
  pure { c with colName := colName }

def readColumns : Nat → Bcp (List BulkLoadColMetaData)
  | 0 => pure []
  | n + 1 => do
    let c ← readColumn fuel
    let cs ← readColumns n
    pure (c :: cs)

def tokenColMetadata : UInt8 := 0x81

def tokenRow : UInt8 := 0xD1

def tokenDone : UInt8 := 0xFD

def maxBulkLoadColumns : Nat := 30000

def tdsResetBcpOffset : Bcp Unit := modify fun b => { b with bcpOffset := 0 }

def getBulkLoadRequest : Bcp (List BulkLoadColMetaData) := do
  tdsResetBcpOffset
  checkColMetadata fuel 1
  let token ← takeByte
  if token ≠ tokenColMetadata then stop .unexpectedToken
  else
    checkColMetadata fuel 2
    let colCount ← take 2
    if leNat colCount = 0 ∨ maxBulkLoadColumns < leNat colCount then
      stop (.columnCount (leNat colCount))
    else readColumns fuel (leNat colCount)

end

/-! ### PLP values -/

/-- `bcpOffset + size > message->len` -/
def exceedsMessage (size : Nat) : Bcp Bool := do
  let b ← get
  pure (decide (b.message.length < b.bcpOffset + size))

section

variable (fuel : Nat)

/-- The loop of `ReadBcpPlp`; `none` is `STATUS_ERROR`. -/
def readBcpChunks : Nat → Bcp (Option (List PlpData))
  | 0 => fun _ => .timeout
  | n + 1 => do
    checkPlp fuel 4
    if ← exceedsMessage 4 then pure none
    else
      let tempLen ← takeRow 4
      if leNat tempLen = plpTerminator then pure (some [])
      else
        let b ← get
        checkPlp fuel (leNat tempLen)
        if ← exceedsMessage (leNat tempLen) then pure none
        else
          let _ ← takeRow (leNat tempLen)
          let rest ← readBcpChunks n
          pure (rest.map (⟨b.bcpOffset, leNat tempLen⟩ :: ·))

def readBcpPlp : Bcp (Option PlpValue) := do
  checkPlp fuel 8
  let plpTok ← takeRow 8
  if leNat plpTok = plpNull then pure (some ⟨true, []⟩)
  else
    (← readBcpChunks fuel fuel).elim (pure none) fun plp =>
      let lenCheck := (plp.map PlpData.len).sum % 2 ^ 64
      if leNat plpTok ≠ plpUnknownLen ∧ lenCheck ≠ leNat plpTok then pure none
      else pure (some ⟨false, plp⟩)

/-- `TdsGetPlpStringInfoBufferFromToken` on the message. -/
def collectPlp (plp : List PlpData) : Bcp (List UInt8) := fun b =>
  match tdsGetPlpStringInfoBufferFromToken b.message plp ⟨b.bcpOffset⟩ with
  | .ok bytes _ => .ok (bytes, b)
  | .error _ _ => .error .overrun

end

/-! ### Rows -/

section

variable (fuel : Nat) (c : BulkLoadColMetaData)

/-- A value of the given length, after `CheckForInvalidLength`. -/
def readBytes (column len : Nat) : Bcp (Option (List UInt8)) := do
  if c.maxLen < len then
    let b ← get
    stop (.invalidLength b.rowCount (column + 1) c.columnTdsType.toByte)
  else
    checkRows fuel len
    let bytes ← takeRow len
    pure (some bytes)

variable (column : Nat)

/-- A value behind its length in one byte; the length 0 is NULL. -/
def readByteLength : Bcp (Option (List UInt8)) := do
  checkRows fuel 1
  let len ← takeRow 1
  if len.headD 0 = 0 then pure none
  else readBytes fuel c column (toUInt32 (signedChar (len.headD 0)))

def readNumericValue : Bcp (Option (List UInt8)) := do
  if c.precision < c.scale then
    let b ← get
    stop (.numericScale b.rowCount (column + 1))
  else readByteLength fuel c column

def readPlpValue : Bcp (Option (List UInt8)) := do
  match ← readBcpPlp fuel with
  | none =>
    let b ← get
    stop (.chunking b.rowCount (column + 1) c.columnTdsType.toByte)
  | some ⟨true, _⟩ => pure none
  | some ⟨false, plp⟩ =>
    let bytes ← collectPlp plp
    pure (some bytes)

def readShortLength : Bcp (Option (List UInt8)) := do
  if c.maxLen ≠ 0xFFFF then
    checkRows fuel 2
    let len ← takeRow 2
    if leNat len ≠ 0xFFFF then readBytes fuel c column (leNat len)
    else pure none
  else readPlpValue fuel c column

/-- A value behind a text pointer and a timestamp.  A pointer of length 0 is NULL; so is a value of
length 0. -/
def readTextValue : Bcp (Option (List UInt8)) := do
  checkRows fuel 1
  let dataTextPtrLen ← takeRow 1
  if dataTextPtrLen.headD 0 = 0 then pure none
  else
    checkRows fuel ((dataTextPtrLen.headD 0).toNat + 8 + 4)
    let _ ← takeRow (dataTextPtrLen.headD 0).toNat
    let _ ← takeRow 8
    let len ← takeRow 4
    if leNat len = 0 then pure none
    else readBytes fuel c column (leNat len)

def readVariantValue : Bcp (Option (List UInt8)) := do
  checkRows fuel 4
  let len ← takeRow 4
  if leNat len = 0 then pure none
  else readBytes fuel c column (leNat len)

/-- The switch of `SetBulkLoadRowData`. -/
def readBulkValue : Bcp (Option (List UInt8)) :=
  match c.columnTdsType.format with
  | .byteLength =>
    if c.variantType then readBytes fuel c column c.maxLen else readByteLength fuel c column
  | .numeric => readNumericValue fuel c column
  | .shortLength => readShortLength fuel c column
  | .text => readTextValue fuel c column
  | .plp => readPlpValue fuel c column
  | .variant => readVariantValue fuel c column

end

section

variable {D : Type} (datum : BulkLoadColMetaData → List UInt8 → List UInt8 → D) (fuel : Nat)

/-- The columns of a row, from the given number on. -/
def readBulkColumns : List BulkLoadColMetaData → Nat → Bcp (List (Option D))
  | [], _ => pure []
  | c :: cs, column => do
    let value ← readBulkValue fuel c column
    let b ← get
    let values ← readBulkColumns cs (column + 1)
    pure (value.map (datum c · b.unparsed) :: values)

/-- One iteration of the row loop, up to the next token. -/
def readBulkRow (cols : List BulkLoadColMetaData) : Bcp (List (Option D)) := do
  modify fun b => { b with rowCount := b.rowCount + 1 }
  let _ ← takeRow 1
  let row ← readBulkColumns datum fuel cols 0
  checkRows fuel 1
  pure row

/-- `get_insert_bulk_kilobytes_per_batch() * 1024`, an `int`. -/
def batchBytes (kilobytesPerBatch : Nat) : Int := toInt32 (kilobytesPerBatch * 1024 % 2 ^ 32)

/-- The batch has reached neither of its limits. -/
def BcpState.belowLimits (b : BcpState) (kilobytesPerBatch rowsPerBatch : Nat) : Bool :=
  decide (b.currentBatchSize < batchBytes kilobytesPerBatch ∧ b.rowCount < rowsPerBatch)

variable (kilobytesPerBatch rowsPerBatch : Nat) (cols : List BulkLoadColMetaData)

def rowLoop : Nat → Bcp (List (List (Option D)))
  | 0 => fun _ => .timeout
  | n + 1 => do
    let b ← get
    if b.message.getD b.bcpOffset 0 = tokenRow ∧
        b.belowLimits kilobytesPerBatch rowsPerBatch then
      let row ← readBulkRow datum fuel cols
      let rows ← rowLoop n
      pure (row :: rows)
    else pure []

/-- The end of `SetBulkLoadRowData`: a batch below its limits is the last one. -/
def checkDone : Bcp Unit := do
  checkRows fuel 1
  let b ← get
  if b.belowLimits kilobytesPerBatch rowsPerBatch then
    if b.message.getD b.bcpOffset 0 = tokenDone then
      if toUInt64 (b.message.length - b.bcpOffset) < 13 ∧ !tdsGetRecvPacketEomStatus b then
        checkRows fuel (toUInt64 (b.message.length - b.bcpOffset) + 1)
      else pure ()
    else stop (.unexpectedRowToken b.rowCount (b.message.getD b.bcpOffset 0))
  else pure ()

def setBulkLoadRowData : Bcp (List (List (Option D))) := do
  modify fun b => { b with rowCount := 0, currentBatchSize := 0 }
  checkRows fuel 1
  let rows ← rowLoop datum fuel kilobytesPerBatch rowsPerBatch cols fuel
  checkDone fuel kilobytesPerBatch rowsPerBatch
  pure rows

/-- What a call of the bulk load callback gets, with the part of the message behind the batch. -/
structure Batch (D : Type) where
  rows : List (List (Option D))
  next : List UInt8
deriving Repr, DecidableEq

/-- The loop of `ProcessBCPRequest`, up to a batch without rows. -/
def processBatches : Nat → Bcp (List (Batch D))
  | 0 => fun _ => .timeout
  | n + 1 => do
    let rows ← setBulkLoadRowData datum fuel kilobytesPerBatch rowsPerBatch cols
    let b ← get
    if rows.isEmpty then pure [⟨rows, b.unparsed⟩]
    else
      let batches ← processBatches n
      pure (⟨rows, b.unparsed⟩ :: batches)

def processBcpRequest : Bcp (List (Batch D)) := do
  let batches ← processBatches datum fuel kilobytesPerBatch rowsPerBatch cols fuel
  tdsResetBcpOffset
  pure batches

end

/-- A bulk load request from its first packet on: the calls of the callback. -/
def bulkLoadRequest {D : Type} (datum : BulkLoadColMetaData → List UInt8 → List UInt8 → D)
    (fuel kilobytesPerBatch rowsPerBatch : Nat) (s : RecvState) :
    Outcome BcpStop (List (Batch D)) := do
  let (request, s) ← fromReader (tdsReadNextRequest fuel s)
  let (cols, b) ← getBulkLoadRequest fuel ⟨request.message, 0, s, 0, 0⟩
  let (batches, _) ← processBcpRequest datum fuel kilobytesPerBatch rowsPerBatch cols b
  pure batches

end Babelfish.Tds
