import Babelfish.Tds.BulkLoad
import Babelfish.Tds.Plp

/-!
# The format of a bulk load

A bulk load is the metadata of its columns, its rows and a `DONE` token.  The relations here say
which bytes stand for which columns and values; they do not mention packets.

* `EncodesValue`: the bytes of a value, NULL or not.
* `EncodesStream`: the bytes of a whole bulk load.
-/

namespace Babelfish.Tds

open Lib

/-- The column has its length in one byte in front of each value. -/
def BulkLoadColMetaData.HasLengthByte (c : BulkLoadColMetaData) : Prop :=
  (c.columnTdsType.format = .byteLength ∧ c.variantType = false) ∨
    (c.columnTdsType.format = .numeric ∧ c.scale ≤ c.precision)

/-- The values of the column are partially length-prefixed. -/
def BulkLoadColMetaData.HasPlp (c : BulkLoadColMetaData) : Prop :=
  c.columnTdsType.format = .plp ∨ (c.columnTdsType.format = .shortLength ∧ c.maxLen = 0xFFFF)

/-- **The bytes of a value.**  NULL and the empty value are different; a PLP value may tell its
length or not, and may be cut into any chunks. -/
inductive EncodesValue (c : BulkLoadColMetaData) : Option (List UInt8) → List UInt8 → Prop where
  | byteNull (hc : c.HasLengthByte) : EncodesValue c none [0]
  | byteValue (hc : c.HasLengthByte) (bs : List UInt8) (hpos : bs ≠ []) (hlen : bs.length < 128)
      (hmax : bs.length ≤ c.maxLen) : EncodesValue c (some bs) (UInt8.ofNat bs.length :: bs)
  | fixed (hc : c.columnTdsType.format = .byteLength) (hfixed : c.variantType = true)
      (bs : List UInt8) (hlen : bs.length = c.maxLen) (hmax : c.maxLen < 2 ^ 31) :
      EncodesValue c (some bs) bs
  | shortNull (hc : c.columnTdsType.format = .shortLength) (hmax : c.maxLen ≠ 0xFFFF) :
      EncodesValue c none (leBytes 2 0xFFFF)
  | shortValue (hc : c.columnTdsType.format = .shortLength) (hplp : c.maxLen ≠ 0xFFFF)
      (bs : List UInt8) (hlen : bs.length < 0xFFFF) (hmax : bs.length ≤ c.maxLen) :
      EncodesValue c (some bs) (leBytes 2 bs.length ++ bs)
  | plpNull (hc : c.HasPlp) : EncodesValue c none (leBytes 8 plpNull)
  | plpValue (hc : c.HasPlp) (plpTok : Nat) (chunks : List (List UInt8))
      (hchunks : ∀ chunk ∈ chunks, chunk ≠ [] ∧ chunk.length < 2 ^ 31)
      (htok : plpTok = chunks.flatten.length ∨ plpTok = plpUnknownLen) :
      EncodesValue c (some chunks.flatten)
        (leBytes 8 plpTok ++ (chunks.flatMap plpChunk ++ leBytes 4 plpTerminator))
  | textNull (hc : c.columnTdsType.format = .text) : EncodesValue c none [0]
  | textValue (hc : c.columnTdsType.format = .text) (pointer timestamp bs : List UInt8)
      (hpointer : pointer ≠ []) (hlen : pointer.length < 256) (htimestamp : timestamp.length = 8)
      (hsize : bs.length < 2 ^ 31) (hmax : bs.length ≤ c.maxLen) :
      EncodesValue c (some bs) (UInt8.ofNat pointer.length :: (pointer ++ (timestamp ++
        (leBytes 4 bs.length ++ bs))))
  | variantNull (hc : c.columnTdsType.format = .variant) : EncodesValue c none (leBytes 4 0)
  | variantValue (hc : c.columnTdsType.format = .variant) (bs : List UInt8) (hpos : bs ≠ [])
      (hsize : bs.length < 2 ^ 31) (hmax : bs.length ≤ c.maxLen) :
      EncodesValue c (some bs) (leBytes 4 bs.length ++ bs)

inductive EncodesRow :
    List BulkLoadColMetaData → List (Option (List UInt8)) → List UInt8 → Prop where
  | nil : EncodesRow [] [] []
  | cons {c : BulkLoadColMetaData} {v : Option (List UInt8)} {bs : List UInt8}
      {cs : List BulkLoadColMetaData} {vs : List (Option (List UInt8))} {bs' : List UInt8}
      (hv : EncodesValue c v bs) (hvs : EncodesRow cs vs bs') :
      EncodesRow (c :: cs) (v :: vs) (bs ++ bs')

inductive EncodesRows (cols : List BulkLoadColMetaData) :
    List (List (Option (List UInt8))) → List UInt8 → Prop where
  | nil : EncodesRows cols [] []
  | cons {row : List (Option (List UInt8))} {bs : List UInt8}
      {rows : List (List (Option (List UInt8)))} {bs' : List UInt8} (hrow : EncodesRow cols row bs)
      (hrows : EncodesRows cols rows bs') : EncodesRows cols (row :: rows) (tokenRow :: bs ++ bs')

/-- The bytes behind the type of a column. -/
inductive EncodesInfo (c : BulkLoadColMetaData) :
    InfoFormat → BulkLoadColMetaData → List UInt8 → Prop where
  | length (maxLen : UInt8) :
      EncodesInfo c .length { c with maxLen := toUInt32 (signedChar maxLen) } [maxLen]
  | numeric (maxLen precision scale : UInt8) :
      EncodesInfo c .numeric
        { c with maxLen := toUInt32 (signedChar maxLen), precision := precision, scale := scale }
        [maxLen, precision, scale]
  | string (maxLen collation : Nat) (sortId : UInt8) (hlen : maxLen < 256 ^ 2)
      (hcollation : collation < 256 ^ 4) :
      EncodesInfo c .string { c with maxLen := maxLen, collation := collation, sortId := sortId }
        (leBytes 2 maxLen ++ (leBytes 4 collation ++ [sortId]))
  | text (maxLen collation : Nat) (sortId : UInt8) (tableName : List UInt8) (tableLen : Nat)
      (hlen : maxLen < 256 ^ 4) (hcollation : collation < 256 ^ 4) (htable : tableLen < 256 ^ 2)
      (hname : tableName.length = tableLen * 2) :
      EncodesInfo c (.text true)
        { c with maxLen := maxLen, collation := collation, sortId := sortId }
        (leBytes 4 maxLen ++
          (leBytes 4 collation ++ ([sortId] ++ (leBytes 2 tableLen ++ tableName))))
  | image (maxLen : Nat) (tableName : List UInt8) (tableLen : Nat) (hlen : maxLen < 256 ^ 4)
      (htable : tableLen < 256 ^ 2) (hname : tableName.length = tableLen * 2) :
      EncodesInfo c (.text false) { c with maxLen := maxLen }
        (leBytes 4 maxLen ++ (leBytes 2 tableLen ++ tableName))
  | scale (maxLen : Nat) (scale : UInt8) :
      EncodesInfo c (.scale maxLen) { c with maxLen := maxLen, scale := scale } [scale]
  | binary (maxLen : Nat) (hlen : maxLen < 256 ^ 2) :
      EncodesInfo c .binary { c with maxLen := maxLen } (leBytes 2 maxLen)
  | date : EncodesInfo c .date { c with maxLen := 3 } []
  | variant (maxLen : Nat) (hlen : maxLen < 256 ^ 4) :
      EncodesInfo c .variant { c with maxLen := maxLen } (leBytes 4 maxLen)

inductive EncodesType (userType flags : Nat) : UInt8 → BulkLoadColMetaData → List UInt8 → Prop where
  | info {type : UInt8} {t : BulkType} {c : BulkLoadColMetaData} {bytes : List UInt8}
      (ht : BulkType.ofByte type = some t)
      (hinfo : EncodesInfo (blankColumn userType flags t) t.info c bytes) :
      EncodesType userType flags type c bytes
  | fixed {type : UInt8} {t : BulkType} {maxLen : Nat} (ht : BulkType.ofByte type = none)
      (hfixed : BulkType.fixedOfByte type = some (t, maxLen)) :
      EncodesType userType flags type
        { blankColumn userType flags t with maxLen := maxLen, variantType := true } []

inductive EncodesColumn : BulkLoadColMetaData → List UInt8 → Prop where
  | intro {userType flags : Nat} {type : UInt8} {c : BulkLoadColMetaData} {info : List UInt8}
      (htype : EncodesType userType flags type c info) (huser : userType < 256 ^ 4)
      (hflags : flags < 256 ^ 2) (nameLen : UInt8) (name : List UInt8)
      (hname : name.length = nameLen.toNat * 2) :
      EncodesColumn { c with colName := name }
        (leBytes 4 userType ++ (leBytes 2 flags ++ ([type] ++ (info ++ ([nameLen] ++ name)))))

inductive EncodesColumns : List BulkLoadColMetaData → List UInt8 → Prop where
  | nil : EncodesColumns [] []
  | cons {c : BulkLoadColMetaData} {bs : List UInt8} {cs : List BulkLoadColMetaData}
      {bs' : List UInt8} (hc : EncodesColumn c bs) (hcs : EncodesColumns cs bs') :
      EncodesColumns (c :: cs) (bs ++ bs')

/-- **The bytes of a bulk load**: the metadata, the rows and the `DONE` token. -/
inductive EncodesStream (cols : List BulkLoadColMetaData)
    (rows : List (List (Option (List UInt8)))) (done : List UInt8) : List UInt8 → Prop where
  | intro {colBytes rowBytes : List UInt8} (hcols : EncodesColumns cols colBytes)
      (hne : cols ≠ []) (hmax : cols.length ≤ maxBulkLoadColumns)
      (hrows : EncodesRows cols rows rowBytes) (hdone : done.head? = some tokenDone) :
      EncodesStream cols rows done
        ([tokenColMetadata] ++ (leBytes 2 cols.length ++ (colBytes ++ (rowBytes ++ done))))

end Babelfish.Tds
