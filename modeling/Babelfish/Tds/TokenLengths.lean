import Babelfish.Tds.Tokens

/-!
# The lengths that tokens announce

A client follows the lengths: it takes the announced number of bytes for a token, and of a string
the announced number of UTF-16 units.  What it takes is what the server wrote exactly when every
length is right, and the lengths of the server are right under conditions on the texts alone.

* `CString.fits_iff`: the number of the characters stands for the number of the units exactly when
  no character needs two of them and the count fits.
* `reads_clientToken_iff`, `reads_clientColumns_iff`: when the client takes what was written.
* `tokens_followed_iff`: the conditions for the five senders.
* `supplementaryTable_not_followed`: a name that breaks the stream.
-/

namespace Babelfish.Response

open Lib List Field
open Tds (utf16Encode tdsUTF8toUTF16StringInfo_encode)

variable {lineNo : Int} {version : Nat} {α : Type}
variable (s : CString) (attno : Nat) (col : TdsColumnMetaData) (cs : List Char)
  {client : ByteReader α} {v : Option CString} {k : Nat} {written : α} {envid : Int}

/-! ### Units of strings -/

def unitCount (c : Char) : Nat := if c.toNat ≤ 0xFFFF then 1 else 2

namespace CString

def utf16 (s : CString) : List UInt8 := s.chars.flatMap utf16Encode

/-- The number of the UTF-16 units. -/
def units (s : CString) : Nat := (s.chars.map unitCount).sum

/-- Every character is one unit, and `k` bytes can count them. -/
def Fits (k : Nat) (s : CString) : Prop :=
  (∀ c ∈ s.chars, c.toNat ≤ 0xFFFF) ∧ s.chars.length < 256 ^ k

instance (k : Nat) (s : CString) : Decidable (s.Fits k) :=
  @instDecidableAnd _ _ (List.decidableBAll _ _) _

end CString

theorem length_utf16Encode (c : Char) : (utf16Encode c).length = 2 * unitCount c := by
  unfold utf16Encode unitCount
  split <;> rfl

theorem length_flatMap_utf16Encode :
    (cs.flatMap utf16Encode).length = 2 * (cs.map unitCount).sum := by
  induction cs with
  | nil => rfl
  | cons c cs ih =>
    rw [flatMap_cons, length_append, length_utf16Encode, ih, map_cons, sum_cons, Nat.mul_add]

theorem CString.length_utf16 : s.utf16.length = 2 * s.units :=
  length_flatMap_utf16Encode s.chars

theorem length_le_unitCount : cs.length ≤ (cs.map unitCount).sum := by
  simpa using length_le_sum_of_one_le (cs.map unitCount) (forall_mem_map.mpr fun c _ => by
    unfold unitCount
    split <;> decide)

theorem unitCount_eq_length_iff :
    (cs.map unitCount).sum = cs.length ↔ ∀ c ∈ cs, c.toNat ≤ 0xFFFF := by
  induction cs with
  | nil => simp
  | cons c cs ih =>
    have hle := length_le_unitCount cs
    rw [map_cons, sum_cons, length_cons, forall_mem_cons, ← ih, unitCount]
    split_ifs <;> omega

/-- **A count of characters is a count of units** exactly when every character is one unit and the
count fits. -/
theorem CString.fits_iff (s : CString) : s.pgMbstrlen % 256 ^ k = s.units ↔ s.Fits k := by
  have hle : s.pgMbstrlen ≤ s.units := length_le_unitCount s.chars
  have hmod := Nat.mod_le s.pgMbstrlen (256 ^ k)
  have hbasic : s.units = s.pgMbstrlen ↔ ∀ c ∈ s.chars, c.toNat ≤ 0xFFFF :=
    unitCount_eq_length_iff s.chars
  constructor
  · intro h
    refine ⟨hbasic.mp (by omega), ?_⟩
    show s.pgMbstrlen < _
    omega
  · rintro ⟨hall, hlt⟩
    rw [hbasic.mpr hall]
    exact Nat.mod_eq_of_lt hlt

theorem toUTF16_eq : toUTF16 s = .ok s.utf16 :=
  tdsUTF8toUTF16StringInfo_encode s.nonzero

theorem utf16_half : s.utf16.length / 2 = s.units := by
  rw [s.length_utf16]
  omega

/-! ### The client -/

/-- A token with a length of two bytes and the fields of its body. -/
def clientToken (token : UInt8) (kinds : List FieldKind) : ByteReader (List (List UInt8)) := do
  let tag ← takeBytes 1
  if tag = [token] then framed 2 (readFields kinds) else refuse

/-- A `COLMETADATA` token: the number of the columns, where `FFFF` stands for no metadata, and the
fields of each. -/
def clientColumns (formats : List (List FieldKind)) :
    ByteReader (List (List (List UInt8))) := do
  let tag ← takeBytes 1
  if tag = [tokenColMetadata] then do
    let count ← readWord 2
    if count = 0xFFFF then pure [] else readSeq ((formats.take count).map readFields)
  else refuse

/-- **The token is sent, and a client that follows the lengths takes from it what was written.** -/
def Followed {ε α : Type} (client : ByteReader α) (sent : Except ε (List UInt8)) (written : α) :
    Prop :=
  ∃ bytes, sent = .ok bytes ∧ Reads client bytes written

theorem followed_ok_iff {ε : Type} {bytes : List UInt8} :
    Followed client (.ok bytes : Except ε (List UInt8)) written ↔ Reads client bytes written :=
  ⟨fun ⟨_, heq, h⟩ => by cases heq; exact h, fun h => ⟨bytes, rfl, h⟩⟩

theorem not_followed_error {ε : Type} {e : ε} :
    ¬ Followed client (.error e : Except ε (List UInt8)) written := by
  rintro ⟨_, heq, -⟩
  cases heq

theorem reads_clientToken_iff (token : UInt8) (n : Nat) (fs : List Field) :
    Reads (clientToken token (fs.map kind)) (token :: leBytes 2 n ++ fs.flatMap bytes)
        (fs.map content) ↔
      n % 65536 = (fs.flatMap bytes).length ∧ ∀ f ∈ fs, f.Right := by
  have htag : Reads (takeBytes 1) [token] [token] := Reads.takeBytes [token]
  rw [cons_append, ← singleton_append, clientToken, htag.bind_iff, if_pos rfl]
  exact (readsIff_fields fs).framed 2 n

theorem reads_clientColumns_iff (groups : List (List Field)) :
    Reads (clientColumns (groups.map fun fs => fs.map kind))
        (tokenColMetadata :: leBytes 2 groups.length ++
          groups.flatMap fun fs => fs.flatMap bytes)
        (groups.map fun fs => fs.map content) ↔
      groups.length < 65535 ∧ ∀ fs ∈ groups, ∀ f ∈ fs, f.Right := by
  have htag : Reads (takeBytes 1) [tokenColMetadata] [tokenColMetadata] :=
    Reads.takeBytes [tokenColMetadata]
  rw [cons_append, ← singleton_append, clientColumns, htag.bind_iff, if_pos rfl]
  have hword : Reads (readWord 2) (leBytes 2 groups.length) (groups.length % 65536) :=
    readWord_leBytes 2 groups.length
  rw [hword.bind_iff]
  split_ifs
  · refine iff_of_false (fun h => ?_) (by omega)
    have hempty := congrArg (fun p => p.map fun q => q.1.length) (h [])
    have hempty : some 0 = some (groups.map fun fs => fs.map content).length := hempty
    rw [length_map, Option.some.injEq] at hempty
    omega
  · by_cases hlt : groups.length < 65535
    · have hall : ((groups.map fun fs => fs.map kind).take (groups.length % 65536)).map
          readFields = groups.map fun fs => readFields (fs.map kind) := by
        rw [Nat.mod_eq_of_lt (by omega), take_of_length_le (Nat.le_of_eq (length_map _)), map_map]
        rfl
      rw [hall]
      refine (ReadsIff.seq fun fs _ => readsIff_fields fs).iff.trans ?_
      simp only [hlt, true_and]
    · refine iff_of_false (fun h => ?_) fun h => hlt h.1
      have hlen := length_of_readSeq (h [])
      rw [length_map, length_map, length_take, length_map] at hlen
      omega

/-! ### Messages and environment changes -/

/-- The fields of an `INFO` or `ERROR` token, with the counts of the server. -/
def messageFields (tdsVersion : Nat) (number state cls : Int)
    (message serverName procName : CString) (lineNo : Int) : List Field :=
  [.fixed (intBytes 4 number), .fixed (intBytes 1 state), .fixed (intBytes 1 cls),
    .counted 2 message.units message.utf16, .counted 1 serverName.strlen serverName.utf16,
    .counted 1 procName.strlen procName.utf16, .fixed (intBytes (lineNoLen tdsVersion) lineNo)]

/-- The number of the bytes behind the length of an `INFO` or `ERROR` token. -/
def messageSize (tdsVersion : Nat) (message serverName procName : CString) : Nat :=
  10 + 2 * message.units + 2 * serverName.units + 2 * procName.units + lineNoLen tdsVersion

/-- The condition of an `INFO` or `ERROR` token. -/
def MessageFits (tdsVersion : Nat) (message serverName procName : CString) (lineNo : Int) : Prop :=
  messageSize tdsVersion message serverName procName < 65536 ∧
    serverName.strlen % 256 = serverName.units ∧ procName.strlen % 256 = procName.units ∧
    (tdsVersion ≤ tdsVersion7_1_1 → lineNo ≤ 32767)

@[simp] theorem length_intBytes (n : Int) : (intBytes k n).length = k :=
  length_leBytes k _

theorem lineNoBytes_eq (h : version ≤ tdsVersion7_1_1 → lineNo ≤ 32767) :
    lineNoBytes version lineNo = .ok (intBytes (lineNoLen version) lineNo) := by
  unfold lineNoBytes lineNoLen
  split_ifs with hv
  · have hline := h hv
    omega
  all_goals rfl

section Message

variable (version : Nat) (token : UInt8) (number state cls : Int)
  (message serverName procName : CString) (lineNo : Int)

theorem length_messageFields :
    ((messageFields version number state cls message serverName procName lineNo).flatMap
      bytes).length = messageSize version message serverName procName := by
  simp [messageFields, messageSize, bytes, CString.length_utf16]
  omega

theorem tdsSendInfoOrError_eq (h : version ≤ tdsVersion7_1_1 → lineNo ≤ 32767) :
    tdsSendInfoOrError version token number state cls message serverName procName lineNo =
      .ok (token :: leBytes 2 (messageSize version message serverName procName) ++
        (messageFields version number state cls message serverName procName lineNo).flatMap
          bytes) := by
  have hsize : 4 + 1 + 1 + 2 + message.utf16.length + 1 + serverName.utf16.length + 1 +
      procName.utf16.length + lineNoLen version =
        messageSize version message serverName procName := by
    rw [message.length_utf16, serverName.length_utf16, procName.length_utf16, messageSize]
    omega
  simp only [tdsSendInfoOrError, toUTF16_eq, Except.mapError, ok_bind, lineNoBytes_eq h, utf16_half,
    hsize, messageFields, flatMap_cons, flatMap_nil, bytes, append_nil, append_assoc]
  rfl

theorem tdsSendInfoOrError_fatal (h : ¬ (version ≤ tdsVersion7_1_1 → lineNo ≤ 32767)) :
    tdsSendInfoOrError version token number state cls message serverName procName lineNo =
      .error .lineNumber := by
  obtain ⟨hv, hline⟩ := Classical.not_imp.mp h
  have hbytes : lineNoBytes version lineNo = .error .lineNumber := by
    rw [lineNoBytes, if_pos hv, if_pos (by omega)]
  simp only [tdsSendInfoOrError, toUTF16_eq, Except.mapError, ok_bind, hbytes]
  rfl

theorem message_followed_iff :
    let fs := messageFields version number state cls message serverName procName lineNo
    Followed (clientToken token (fs.map kind))
        (tdsSendInfoOrError version token number state cls message serverName procName lineNo)
        (fs.map content) ↔
      MessageFits version message serverName procName lineNo := by
  intro fs
  by_cases hline : version ≤ tdsVersion7_1_1 → lineNo ≤ 32767
  · rw [tdsSendInfoOrError_eq _ _ _ _ _ _ _ _ _ hline, followed_ok_iff, reads_clientToken_iff,
      length_messageFields, MessageFits]
    have hright : (∀ f ∈ fs, f.Right) ↔ message.units % 65536 = message.units ∧
        serverName.strlen % 256 = serverName.units ∧ procName.strlen % 256 = procName.units := by
      simp only [fs, messageFields, forall_mem_cons, Field.Right, CString.length_utf16,
        Nat.mul_right_inj (show 2 ≠ 0 by decide)]
      simp
    have hle : message.units ≤ messageSize version message serverName procName := by
      unfold messageSize
      omega
    rw [hright]
    constructor
    · rintro ⟨hsize, -, hserver, hproc⟩
      exact ⟨by omega, hserver, hproc, hline⟩
    · rintro ⟨hsize, hserver, hproc, -⟩
      exact ⟨by omega, by omega, hserver, hproc⟩
  · rw [tdsSendInfoOrError_fatal _ _ _ _ _ _ _ _ _ hline]
    exact iff_of_false not_followed_error fun h => hline h.2.2.2

end Message

def envUnits : Option CString → Nat
  | some s => s.units
  | none => 0

def envUtf16 : Option CString → List UInt8
  | some s => s.utf16
  | none => []

theorem envValue_eq : envValue v = .ok (envUtf16 v) := by
  cases v with
  | some s => exact toUTF16_eq s
  | none => rfl

theorem length_envUtf16 : (envUtf16 v).length = 2 * envUnits v := by
  cases v with
  | some s => exact s.length_utf16
  | none => rfl

/-- The fields of an `ENVCHANGE` token, with the counts of the server. -/
def envChangeFields (envid : Int) (newVal oldVal : Option CString) : List Field :=
  [.fixed (intBytes 1 envid), .counted 1 (envUnits newVal) (envUtf16 newVal),
    .counted 1 (envUnits oldVal) (envUtf16 oldVal)]

theorem tdsSendEnvChange_eq (newVal oldVal : Option CString) :
    tdsSendEnvChange envid newVal oldVal =
      .ok (tokenEnvChange :: leBytes 2 (3 + 2 * envUnits newVal + 2 * envUnits oldVal) ++
        (envChangeFields envid newVal oldVal).flatMap bytes) := by
  have hhalf : ∀ v, (envUtf16 v).length / 2 = envUnits v := by
    intro v
    rw [length_envUtf16]
    omega
  have hsize : 1 + 1 + (envUtf16 newVal).length + 1 + (envUtf16 oldVal).length =
      3 + 2 * envUnits newVal + 2 * envUnits oldVal := by
    rw [length_envUtf16, length_envUtf16]
    omega
  simp only [tdsSendEnvChange, envValue_eq, ok_bind, hhalf, hsize, envChangeFields,
    flatMap_cons, flatMap_nil, bytes, append_nil, append_assoc]
  rfl

theorem envChange_followed_iff (envid : Int) (newVal oldVal : Option CString) :
    let fs := envChangeFields envid newVal oldVal
    Followed (clientToken tokenEnvChange (fs.map kind))
        (tdsSendEnvChange envid newVal oldVal) (fs.map content) ↔
      envUnits newVal ≤ 255 ∧ envUnits oldVal ≤ 255 := by
  intro fs
  rw [tdsSendEnvChange_eq, followed_ok_iff, reads_clientToken_iff]
  have hlen : (fs.flatMap bytes).length = 3 + 2 * envUnits newVal + 2 * envUnits oldVal := by
    simp [fs, envChangeFields, bytes, length_envUtf16]
    omega
  have hright : (∀ f ∈ fs, f.Right) ↔
      envUnits newVal % 256 = envUnits newVal ∧ envUnits oldVal % 256 = envUnits oldVal := by
    simp only [fs, envChangeFields, forall_mem_cons, Field.Right, length_envUtf16,
      Nat.mul_right_inj (show 2 ≠ 0 by decide)]
    simp
  rw [hlen, hright]
  omega

/-! ### Names of tables -/

variable (rel : TdsRelationMetaDataInfo)

def fullName : CString := rel.schemaName.joinDot rel.relationName

variable (numbered : Bool)

/-- The fields of the name of a relation, in two parts behind their number or in one part, with
the counts of the server. -/
def tabNameFields (rel : TdsRelationMetaDataInfo) : List Field :=
  if numbered then
    [.fixed [2], .counted 2 rel.schemaName.pgMbstrlen rel.schemaName.utf16,
      .counted 2 rel.relationName.pgMbstrlen rel.relationName.utf16]
  else [.counted 2 (fullName rel).pgMbstrlen (fullName rel).utf16]

def TabNameFits (rel : TdsRelationMetaDataInfo) : Prop :=
  if numbered then rel.schemaName.Fits 2 ∧ rel.relationName.Fits 2 else (fullName rel).Fits 2

def tabNameSize (rel : TdsRelationMetaDataInfo) : Nat :=
  if numbered then 5 + 2 * rel.schemaName.units + 2 * rel.relationName.units
  else 2 + 2 * (fullName rel).units

theorem right_counted_iff (s : CString) : (counted k s.pgMbstrlen s.utf16).Right ↔ s.Fits k := by
  rw [Field.Right, s.length_utf16, Nat.mul_right_inj (by decide), s.fits_iff]

theorem tabNameFields_right_iff (rel : TdsRelationMetaDataInfo) :
    (∀ f ∈ tabNameFields numbered rel, f.Right) ↔ TabNameFits numbered rel := by
  unfold tabNameFields TabNameFits
  cases numbered <;> simp [right_counted_iff, Field.Right.eq_1]

theorem length_tabNameFields (rel : TdsRelationMetaDataInfo) :
    ((tabNameFields numbered rel).flatMap bytes).length = tabNameSize numbered rel := by
  unfold tabNameFields tabNameSize
  cases numbered <;> simp [bytes, CString.length_utf16]
  omega

theorem fillTabNameWithNumParts_eq :
    fillTabNameWithNumParts 2 rel = .ok ((tabNameFields true rel).flatMap bytes) := by
  simp only [fillTabNameWithNumParts, fillParts, toUTF16_eq, ok_bind]
  simp [tabNameFields, bytes, TdsRelationMetaDataInfo.partName]
  rfl

theorem strlen_joinDot (t : CString) : (s.joinDot t).strlen ≠ 0 := by
  simp [CString.strlen, CString.bytes, CString.joinDot, String.utf8EncodeChar]

theorem fillTabNameWithoutNumParts_eq :
    fillTabNameWithoutNumParts 2 rel = .ok ((tabNameFields false rel).flatMap bytes) := by
  have hjoin : joinParts rel 2 .empty =
      (CString.empty.joinDot rel.schemaName).joinDot rel.relationName := rfl
  have hnext : ((CString.empty.joinDot rel.schemaName).joinDot rel.relationName).next =
      fullName rel := rfl
  simp only [fillTabNameWithoutNumParts, hjoin, if_neg (strlen_joinDot _ _), hnext, toUTF16_eq,
    ok_bind]
  simp [tabNameFields, bytes]
  rfl

/-! ### The description of a result -/

/-- **The `TABNAME` token is followed.**  Nothing is to be followed when nothing is sent. -/
def TabNameFollowed (tdsVersion : Nat) (rels : List TdsRelationMetaDataInfo) : Prop :=
  let fs := rels.flatMap (tabNameFields (tdsVersion7_1 < tdsVersion))
  ∃ sent, sendTabNameToken tdsVersion rels = .ok sent ∧
    ∀ bytes, sent = some bytes →
      Reads (clientToken tokenTabName (fs.map Field.kind)) bytes (fs.map Field.content)

theorem tabNameEntry_eq (version : Nat) (rel : TdsRelationMetaDataInfo) :
    tabNameEntry version rel =
      .ok ((tabNameFields (tdsVersion7_1 < version) rel).flatMap bytes) := by
  unfold tabNameEntry
  split_ifs with hv
  · rw [decide_eq_true hv, fillTabNameWithNumParts_eq]
  · rw [decide_eq_false hv, fillTabNameWithoutNumParts_eq]

theorem length_flatMap_fields {fields : α → List Field} {size : α → Nat}
    (h : ∀ a, ((fields a).flatMap bytes).length = size a) (l : List α) :
    ((l.flatMap fields).flatMap bytes).length = (l.map size).sum := by
  simp only [flatMap_assoc, length_flatMap, h]

theorem flatten_map_fields (fields : α → List Field) (l : List α) :
    (l.map fun a => (fields a).flatMap bytes).flatten =
      (l.flatMap fields).flatMap bytes := by
  rw [← flatMap_def, flatMap_assoc]

theorem tabName_followed_iff (version : Nat) (rels : List TdsRelationMetaDataInfo) :
    TabNameFollowed version rels ↔
      (rels.map (tabNameSize (tdsVersion7_1 < version))).sum < 65536 ∧
        ∀ rel ∈ rels, TabNameFits (tdsVersion7_1 < version) rel := by
  unfold TabNameFollowed sendTabNameToken
  cases rels with
  | nil => simp
  | cons rel rels =>
    generalize hrels : rel :: rels = l
    have hne : l.isEmpty = false := by rw [← hrels]; rfl
    simp only [hne, Bool.false_eq_true, if_false, mapM_ok fun r _ => tabNameEntry_eq version r,
      ok_bind, flatten_map_fields, length_flatMap_fields (length_tabNameFields _)]
    have hright : (∀ f ∈ l.flatMap (tabNameFields (tdsVersion7_1 < version)), f.Right) ↔
        ∀ rel ∈ l, TabNameFits (tdsVersion7_1 < version) rel := by
      simp only [forall_mem_flatMap, tabNameFields_right_iff]
    simp only [pure, Except.pure, Except.ok.injEq, exists_eq_left', Option.some.injEq, forall_eq']
    rw [reads_clientToken_iff, length_flatMap_fields (length_tabNameFields _), hright]
    exact and_congr_left fun _ => by omega

/-- The field of a name that is cut to what one byte can count. -/
def clampedField (s : CString) : Field :=
  .counted 1 (min s.units 128) (s.utf16.take 256)

theorem length_take_utf16 : (s.utf16.take 256).length = 2 * min s.units 128 := by
  rw [length_take, s.length_utf16]
  omega

theorem clampedField_right : (clampedField s).Right := by
  show 2 * (min s.units 128 % 256) = (s.utf16.take 256).length
  rw [length_take_utf16]
  omega

theorem clampedName_eq : clampedName s = .ok (clampedField s).bytes := by
  simp only [clampedName, toUTF16_eq, ok_bind, utf16_half, maxCharInColMetadataName]
  split_ifs with h
  · rw [clampedField, bytes, Nat.min_eq_right (Nat.le_of_lt h)]
    rfl
  · have htake : s.utf16.take 256 = s.utf16 := by
      refine take_of_length_le ?_
      rw [s.length_utf16]
      omega
    rw [clampedField, bytes, Nat.min_eq_left (Nat.le_of_not_lt h), htake]
    rfl

/-- The name of a column that differs from its name in the relation. -/
def differentName (col : TdsColumnMetaData) : Option CString :=
  match col.base with
  | some base => if base.baseColName.bytes ≠ col.colName.bytes then some base.baseColName else none
  | none => none

def columnInfoFields (attno : Nat) (col : TdsColumnMetaData) : List Field :=
  .fixed [UInt8.ofNat (attno + 1), (col.base.map fun base => base.relinfo.tableNum).getD 0,
    columnStatus col] :: ((differentName col).map clampedField).toList

def columnInfoSize (col : TdsColumnMetaData) : Nat :=
  match differentName col with
  | some name => 4 + 2 * min name.units 128
  | none => 3

theorem columnInfo_eq :
    columnInfo attno col = .ok ((columnInfoFields attno col).flatMap bytes) := by
  unfold columnInfo columnInfoFields differentName
  cases hbase : col.base with
  | none => simp [bytes, pure, Except.pure]
  | some base =>
    have hstatus : columnStatus col &&& 0x20 ≠ 0 ↔ base.baseColName.bytes ≠ col.colName.bytes := by
      simp only [columnStatus, hbase]
      by_cases hname : base.baseColName.bytes ≠ col.colName.bytes
      · rw [if_pos hname]
        split <;> simp only [hname, ne_eq, not_false_eq_true, iff_true] <;> decide
      · rw [if_neg hname]
        split <;> simp only [hname, iff_false] <;> decide
    simp only [hstatus]
    split_ifs
    · simp [clampedName_eq, ok_bind, bytes, pure, Except.pure]
    · simp [bytes, pure, Except.pure]

theorem length_columnInfoFields :
    ((columnInfoFields attno col).flatMap bytes).length = columnInfoSize col := by
  unfold columnInfoFields columnInfoSize
  cases differentName col with
  | none => rfl
  | some name =>
    show ([_, _, _] ++ ((clampedField name).bytes ++ [])).length = 4 + 2 * min name.units 128
    rw [append_nil, length_append, clampedField, bytes, length_append,
      length_leBytes, length_take_utf16, show ∀ a b c : UInt8, [a, b, c].length = 3 from
        fun _ _ _ => rfl]
    omega

theorem columnInfoFields_right : ∀ f ∈ columnInfoFields attno col, f.Right := by
  refine forall_mem_cons.mpr ⟨trivial, ?_⟩
  cases differentName col with
  | none => simp
  | some name => simpa using clampedField_right name

def colInfoFields (cols : List TdsColumnMetaData) (sendRowStat : Bool) : List Field :=
  (cols.zipIdx.flatMap fun p => columnInfoFields p.2 p.1) ++
    if sendRowStat then [.fixed [UInt8.ofNat (cols.length + 1), 0, 0x04 ||| 0x10]] else []

def colInfoSize (cols : List TdsColumnMetaData) (sendRowStat : Bool) : Nat :=
  (cols.map columnInfoSize).sum + if sendRowStat then 3 else 0

section

variable (cols : List TdsColumnMetaData) (rowStat : Bool)

theorem length_colInfoFields :
    ((colInfoFields cols rowStat).flatMap bytes).length =
      colInfoSize cols rowStat := by
  have hcols : (cols.zipIdx.map fun p => columnInfoSize p.1) = cols.map columnInfoSize := by
    rw [show (fun p : TdsColumnMetaData × Nat => columnInfoSize p.1) = columnInfoSize ∘ Prod.fst
      from rfl, ← map_map, zipIdx_map_fst]
  rw [colInfoFields, colInfoSize, flatMap_append, length_append,
    length_flatMap_fields (fun p : TdsColumnMetaData × Nat => length_columnInfoFields p.2 p.1),
    hcols]
  cases rowStat <;> rfl

theorem sendColInfoToken_eq :
    sendColInfoToken cols rowStat =
      .ok (tokenColInfo :: leBytes 2 (colInfoSize cols rowStat) ++
        (colInfoFields cols rowStat).flatMap bytes) := by
  have hbuf : (cols.zipIdx.map fun p => (columnInfoFields p.2 p.1).flatMap bytes).flatten ++
      (if rowStat then [UInt8.ofNat (cols.length + 1), 0, 0x04 ||| 0x10] else []) =
        (colInfoFields cols rowStat).flatMap bytes := by
    rw [flatten_map_fields fun p : TdsColumnMetaData × Nat => columnInfoFields p.2 p.1,
      colInfoFields, flatMap_append]
    cases rowStat <;> rfl
  rw [sendColInfoToken, mapM_ok fun p _ => columnInfo_eq p.2 p.1, ok_bind]
  dsimp only
  rw [hbuf, length_colInfoFields]
  rfl

theorem colInfo_followed_iff :
    let fs := colInfoFields cols rowStat
    Followed (clientToken tokenColInfo (fs.map kind)) (sendColInfoToken cols rowStat)
        (fs.map content) ↔
      colInfoSize cols rowStat < 65536 := by
  intro fs
  have hright : ∀ f ∈ fs, f.Right := by
    refine forall_mem_append.mpr ⟨?_, ?_⟩
    · rw [forall_mem_flatMap]
      exact fun p _ => columnInfoFields_right p.2 p.1
    · cases rowStat with
      | true => simp [Field.Right]
      | false => simp
  rw [sendColInfoToken_eq, followed_ok_iff, reads_clientToken_iff, length_colInfoFields,
    and_iff_left hright]
  omega

end

/-! ### Columns -/

def columnTableFields (tdsVersion : Nat) (col : TdsColumnMetaData) : List Field :=
  if col.sendTableName then
    match col.base with
    | some base => tabNameFields (tdsVersion7_1_1 < tdsVersion) base.relinfo
    | none =>
      (if tdsVersion7_1_1 < tdsVersion then [.fixed [1]] else []) ++ [.counted 2 0 []]
  else []

def columnSpatialFields (dbName : CString) (col : TdsColumnMetaData) : List Field :=
  match col.spatial with
  | some names =>
    [.counted 1 dbName.pgMbstrlen dbName.utf16,
      .counted 1 CString.sys.pgMbstrlen CString.sys.utf16,
      .counted 1 names.typeName.pgMbstrlen names.typeName.utf16,
      .counted 2 names.assemblyName.pgMbstrlen names.assemblyName.utf16]
  | none => []

def columnNameField (col : TdsColumnMetaData) : Field :=
  if col.colName.bytes = CString.noName.bytes then .counted 1 0 [] else clampedField col.colName

/-- The fields of a column of a `COLMETADATA` token, with the counts of the server. -/
def columnFields (tdsVersion : Nat) (dbName : CString) (col : TdsColumnMetaData) : List Field :=
  .fixed (userType tdsVersion) :: .fixed col.metaEntry ::
    (columnTableFields tdsVersion col ++ columnSpatialFields dbName col ++ [columnNameField col])

def rowStatFields (tdsVersion : Nat) : List Field :=
  [.fixed (userType tdsVersion), .fixed (rowStatArray.take 3),
    .counted 1 7 (rowStatArray.drop 4)]

def columnsFields (tdsVersion : Nat) (dbName : CString) (cols : List TdsColumnMetaData)
    (sendRowStat : Bool) : List (List Field) :=
  cols.map (columnFields tdsVersion dbName) ++
    if sendRowStat then [rowStatFields tdsVersion] else []

/-- The condition of a column: the names that are counted by their characters. -/
def ColumnFits (tdsVersion : Nat) (dbName : CString) (col : TdsColumnMetaData) : Prop :=
  (col.sendTableName = true → ∀ base, col.base = some base →
      TabNameFits (tdsVersion7_1_1 < tdsVersion) base.relinfo) ∧
    ∀ names, col.spatial = some names →
      dbName.Fits 1 ∧ names.typeName.Fits 1 ∧ names.assemblyName.Fits 2

section

variable (version) (dbName : CString) {cols : List TdsColumnMetaData} {rowStat : Bool}

theorem columnTableName_eq : columnTableName version col =
      .ok ((columnTableFields version col).flatMap bytes) := by
  unfold columnTableName columnTableFields
  cases hsend : col.sendTableName with
  | false => rfl
  | true =>
    cases hbase : col.base with
    | none => by_cases hv : tdsVersion7_1_1 < version <;> simp [hv, bytes]
    | some base =>
      by_cases hv : tdsVersion7_1_1 < version <;>
        simp [hv, fillTabNameWithNumParts_eq, fillTabNameWithoutNumParts_eq]

theorem columnSpatial_eq :
    columnSpatial dbName col = .ok ((columnSpatialFields dbName col).flatMap bytes) := by
  unfold columnSpatial columnSpatialFields
  cases col.spatial with
  | none => rfl
  | some names =>
    simp only [toUTF16_eq, ok_bind]
    simp [bytes, pure, Except.pure]

theorem columnName_eq : columnName col = .ok (columnNameField col).bytes := by
  unfold columnName columnNameField
  split_ifs
  · rfl
  · rw [clampedName_eq]

theorem columnMetadata_eq :
    columnMetadata version dbName col =
      .ok ((columnFields version dbName col).flatMap bytes) := by
  simp only [columnMetadata, columnTableName_eq, columnSpatial_eq, columnName_eq, ok_bind]
  simp [columnFields, bytes, pure, Except.pure]

theorem sendColumnMetadataToken_eq :
    sendColumnMetadataToken version dbName cols rowStat =
      .ok (tokenColMetadata ::
        leBytes 2 (columnsFields version dbName cols rowStat).length ++
        (columnsFields version dbName cols rowStat).flatMap fun fs =>
          fs.flatMap bytes) := by
  simp only [sendColumnMetadataToken, mapM_ok fun c _ => columnMetadata_eq version c dbName,
    ok_bind, columnsFields, length_append, length_map, flatMap_append, flatMap_map]
  cases rowStat with
  | false => simp [List.flatMap, pure, Except.pure]
  | true =>
    simp only [if_true, length_singleton, flatMap_singleton]
    rfl

theorem columnTableFields_right_iff :
    (∀ f ∈ columnTableFields version col, f.Right) ↔
      (col.sendTableName = true → ∀ base, col.base = some base →
        TabNameFits (tdsVersion7_1_1 < version) base.relinfo) := by
  unfold columnTableFields
  cases col.sendTableName with
  | false => simp
  | true =>
    cases col.base with
    | none => by_cases hv : tdsVersion7_1_1 < version <;> simp [hv, Field.Right]
    | some base => simp [tabNameFields_right_iff]

theorem sys_fits : CString.sys.Fits 1 := by decide

theorem columnSpatialFields_right_iff :
    (∀ f ∈ columnSpatialFields dbName col, f.Right) ↔
      ∀ names, col.spatial = some names →
        dbName.Fits 1 ∧ names.typeName.Fits 1 ∧ names.assemblyName.Fits 2 := by
  unfold columnSpatialFields
  cases col.spatial with
  | none => simp
  | some names => simp [right_counted_iff, sys_fits]

theorem columnNameField_right : (columnNameField col).Right := by
  unfold columnNameField
  split
  · rfl
  · exact clampedField_right col.colName

theorem columnFields_right_iff :
    (∀ f ∈ columnFields version dbName col, f.Right) ↔ ColumnFits version dbName col := by
  have hfixed : ∀ bytes, (fixed bytes).Right := fun _ => trivial
  rw [columnFields, forall_mem_cons, forall_mem_cons, forall_mem_append, forall_mem_append,
    columnTableFields_right_iff, columnSpatialFields_right_iff, forall_mem_singleton, ColumnFits]
  simp only [hfixed, columnNameField_right, true_and, and_true]

theorem columnMetadata_followed_iff (cols : List TdsColumnMetaData) (rowStat : Bool) :
    let groups := columnsFields version dbName cols rowStat
    Followed (clientColumns (groups.map fun fs => fs.map kind))
        (sendColumnMetadataToken version dbName cols rowStat)
        (groups.map fun fs => fs.map content) ↔
      cols.length + (if rowStat then 1 else 0) < 65535 ∧
        ∀ col ∈ cols, ColumnFits version dbName col := by
  intro groups
  have hlen : groups.length = cols.length + (if rowStat then 1 else 0) := by
    simp only [groups, columnsFields, length_append, length_map]
    cases rowStat <;> rfl
  have hrow : ∀ fs ∈ (if rowStat then [rowStatFields version] else []),
      ∀ f ∈ fs, f.Right := by
    cases rowStat with
    | false => simp
    | true => simp [rowStatFields, Field.Right, rowStatArray]
  have hright : (∀ fs ∈ groups, ∀ f ∈ fs, f.Right) ↔
      ∀ col ∈ cols, ColumnFits version dbName col := by
    simp only [groups, columnsFields]
    rw [forall_mem_append, and_iff_left hrow, forall_mem_map]
    simp only [columnFields_right_iff]
  rw [sendColumnMetadataToken_eq, followed_ok_iff, reads_clientColumns_iff, hlen, hright]

end

/-! ### The law -/

/-- **When a client that follows the lengths takes what the server wrote.**  A message must leave
its token under 65536 bytes, its server and procedure names must be counted by bytes as by units,
and its line number must fit the version; the values of an environment change have at most 255
units; the tables of a `TABNAME` token and the columns of a `COLINFO` token take less than 65536
bytes; a `COLMETADATA` token has less than 65535 columns; and the names that are counted by their
characters, those of tables and, for spatial columns, of the database, the type and its assembly,
have no character of two units and fit their counts. -/
theorem tokens_followed_iff (tdsVersion : Nat) (token : UInt8) (number state cls : Int)
    (message serverName procName : CString) (lineNo envid : Int) (newVal oldVal : Option CString)
    (dbName : CString) (cols : List TdsColumnMetaData) (sendRowStat : Bool)
    (rels : List TdsRelationMetaDataInfo) :
    (let fs := messageFields tdsVersion number state cls message serverName procName lineNo
     Followed (clientToken token (fs.map Field.kind))
          (tdsSendInfoOrError tdsVersion token number state cls message serverName procName lineNo)
          (fs.map Field.content) ↔
        MessageFits tdsVersion message serverName procName lineNo) ∧
    (let fs := envChangeFields envid newVal oldVal
     Followed (clientToken tokenEnvChange (fs.map Field.kind))
          (tdsSendEnvChange envid newVal oldVal) (fs.map Field.content) ↔
        envUnits newVal ≤ 255 ∧ envUnits oldVal ≤ 255) ∧
    (let groups := columnsFields tdsVersion dbName cols sendRowStat
     Followed (clientColumns (groups.map fun fs => fs.map Field.kind))
          (sendColumnMetadataToken tdsVersion dbName cols sendRowStat)
          (groups.map fun fs => fs.map Field.content) ↔
        cols.length + (if sendRowStat then 1 else 0) < 65535 ∧
          ∀ col ∈ cols, ColumnFits tdsVersion dbName col) ∧
    (TabNameFollowed tdsVersion rels ↔
        (rels.map (tabNameSize (tdsVersion7_1 < tdsVersion))).sum < 65536 ∧
          ∀ rel ∈ rels, TabNameFits (tdsVersion7_1 < tdsVersion) rel) ∧
    let fs := colInfoFields cols sendRowStat
    Followed (clientToken tokenColInfo (fs.map Field.kind)) (sendColInfoToken cols sendRowStat)
        (fs.map Field.content) ↔
      colInfoSize cols sendRowStat < 65536 :=
  ⟨message_followed_iff _ _ _ _ _ _ _ _ _, envChange_followed_iff _ _ _,
    columnMetadata_followed_iff _ _ _ _, tabName_followed_iff _ _, colInfo_followed_iff _ _⟩

/-- A table `dbo` with a name of one supplementary character. -/
def supplementaryTable : TdsRelationMetaDataInfo where
  relationName := ⟨[Char.ofNat 0x1F600], by simp⟩
  schemaName := ⟨['d', 'b', 'o'], by simp⟩
  keyattrs := []
  tableNum := 1

/-- **The name of one character is announced as one unit and sent as two**: the client takes the
second unit for the start of what follows. -/
theorem supplementaryTable_not_followed :
    sendTabNameToken 0x74000004 [supplementaryTable] =
      .ok (some [0xA4, 15, 0, 2, 3, 0, 100, 0, 98, 0, 111, 0, 1, 0, 0x3D, 0xD8, 0x00, 0xDE]) ∧
    ¬ TabNameFollowed 0x74000004 [supplementaryTable] := by
  refine ⟨by decide +kernel, fun h => ?_⟩
  have hfits := ((tabName_followed_iff _ _).mp h).2 _ (mem_singleton.mpr rfl)
  exact absurd hfits.2 (by decide)

end Babelfish.Response
