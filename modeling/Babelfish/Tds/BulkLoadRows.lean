import Babelfish.Tds.BulkLoadFormat
import Babelfish.Tds.BulkLoadWindow

/-!
# The rows of a bulk load

Each function of the parser is a composition of the rules for the window.  Reading back what the
format says gives the columns, the values and the rows; a batch is a number of rows.

* `readType_yields`, `readColumns_yields`: the metadata is read back.
* `readBulkValue_yields`: so is a value, but for an empty text.
* `rowLoop_gives`: the row loop ends at the `DONE` token or at a limit of the batch.
* `processBatches_gives`: the batches make up the rows.
-/

namespace Babelfish.Tds

open Lib List

variable {bs bytes done : List UInt8} {rows left : List (List (Option (List UInt8)))}
  {cols : List BulkLoadColMetaData}

section

variable {src : Source} {pre rest : List UInt8} {k n : Nat} {b : BcpState}

/-! ### Column metadata -/

theorem leNat_leBytes_of_lt {k n : Nat} (h : n < 256 ^ k) : leNat (leBytes k n) = n := by
  rw [leNat_leBytes, Nat.mod_eq_of_lt h]

theorem tableName_yields {tableLen : Nat} {tableName : List UInt8} (htable : tableLen < 256 ^ 2)
    (hname : tableName.length = tableLen * 2) (c : BulkLoadColMetaData) :
    Yields (Upto src 0 (leBytes 2 tableLen ++ (tableName ++ rest))) (do
      checkColMetadata src.fuel 2
      let tableLen ← Tds.take 2
      checkColMetadata src.fuel (leNat tableLen * 2)
      let _ ← Tds.take (leNat tableLen * 2)
      pure c) c (Upto src 0 rest) := by
  refine fetchMetadata (length_leBytes 2 tableLen) (by decide) ?_
  rw [leNat_leBytes_of_lt htable]
  exact fetchMetadata hname (by omega) .pure

variable {c : BulkLoadColMetaData} {v : Option (List UInt8)} {column : Nat}

theorem readTypeInfo_yields {f : InfoFormat} {c' : BulkLoadColMetaData} {info : List UInt8}
    (hf : c.columnTdsType.info = f) (h : EncodesInfo c f c' info) :
    Yields (Upto src 0 (info ++ rest)) (readTypeInfo src.fuel c) c' (Upto src 0 rest) := by
  cases h with simp only [readTypeInfo, append_assoc, hf]
  | length maxLen => exact fetchMetadataByte .pure
  | numeric maxLen precision scale =>
    refine .bind (checkColMetadata_yields (by simp) (by decide)) ?_
    refine .bind (takeByte_yields (k := 2)) ?_
    refine .bind (takeByte_yields (k := 1)) ?_
    exact .bind (takeByte_yields (k := 0)) .pure
  | string maxLen collation sortId hlen hcollation =>
    refine .bind (checkColMetadata_yields (by simp; omega) (by decide)) ?_
    refine .bind (take_yields (k := 5) (length_leBytes 2 maxLen)) ?_
    refine .bind (take_yields (k := 1) (length_leBytes 4 collation)) ?_
    refine .bind (takeByte_yields (k := 0)) ?_
    rw [leNat_leBytes_of_lt hlen, leNat_leBytes_of_lt hcollation]
    exact .pure
  | text maxLen collation sortId tableName tableLen hlen hcollation htable hname =>
    refine fetchMetadata (length_leBytes 4 maxLen) (by decide) ?_
    rw [leNat_leBytes_of_lt hlen, if_pos trivial]
    refine .bind (Q := Upto src 0 (leBytes 2 tableLen ++ (tableName ++ rest))) ?_
      (tableName_yields htable hname _)
    refine .bind (checkColMetadata_yields (by simp; omega) (by decide)) ?_
    refine .bind (take_yields (k := 1) (length_leBytes 4 collation)) ?_
    refine .bind (takeByte_yields (k := 0)) ?_
    rw [leNat_leBytes_of_lt hcollation]
    exact .pure
  | image maxLen tableName tableLen hlen htable hname =>
    refine fetchMetadata (length_leBytes 4 maxLen) (by decide) ?_
    rw [leNat_leBytes_of_lt hlen]
    exact .bind .pure (tableName_yields htable hname _)
  | scale maxLen scale => exact fetchMetadataByte .pure
  | binary maxLen hlen =>
    refine fetchMetadata (length_leBytes 2 maxLen) (by decide) ?_
    rw [leNat_leBytes_of_lt hlen]
    exact .pure
  | date => exact .pure
  | variant maxLen hlen =>
    refine fetchMetadata (length_leBytes 4 maxLen) (by decide) ?_
    rw [leNat_leBytes_of_lt hlen]
    exact .pure

theorem readType_yields {userType flags : Nat} {type : UInt8} {info : List UInt8}
    (h : EncodesType userType flags type c info) :
    Yields (Upto src 0 (info ++ rest)) (readType src.fuel userType flags type) c
      (Upto src 0 rest) := by
  cases h with
  | info ht hinfo =>
    simp only [readType, ht]
    exact readTypeInfo_yields rfl hinfo
  | fixed ht hfixed =>
    simp only [readType, ht, hfixed]
    exact .pure

theorem readColumn_yields (h : EncodesColumn c bytes) :
    Yields (Upto src 0 (bytes ++ rest)) (readColumn src.fuel) c (Upto src 0 rest) := by
  cases h with
  | intro htype huser hflags nameLen name hname =>
    have hlt := nameLen.toNat_lt
    simp only [readColumn, append_assoc]
    refine .bind (checkColMetadata_yields (by simp; omega) (by decide)) ?_
    refine .bind (take_yields (k := 3) (length_leBytes 4 _)) ?_
    refine .bind (take_yields (k := 1) (length_leBytes 2 _)) ?_
    refine .bind (takeByte_yields (k := 0)) ?_
    rw [leNat_leBytes_of_lt huser, leNat_leBytes_of_lt hflags]
    refine .bind (readType_yields htype) (fetchMetadataByte ?_)
    exact fetchMetadata hname (by omega) .pure

theorem readColumns_yields (h : EncodesColumns cols bytes) :
    Yields (Upto src 0 (bytes ++ rest)) (readColumns src.fuel cols.length) cols
      (Upto src 0 rest) := by
  induction h with
  | nil => exact .pure
  | cons hc hcs ih =>
    rw [append_assoc]
    exact .bind (readColumn_yields hc) (.bind ih .pure)

/-! ### Values -/

theorem exceedsMessage_yields :
    Yields (Ahead src pre n rest) (exceedsMessage n) false (Ahead src pre n rest) := by
  intro b h
  have havail := h.available
  exact .ok ⟨by simpa using havail, h⟩

/-- **The chunks of a PLP value** are indexed up to the terminator. -/
theorem readBcpChunks_yields (chunks : List (List UInt8)) (pre : List UInt8)
    (hn : chunks.length < n) (hchunks : ∀ chunk ∈ chunks, chunk ≠ [] ∧ chunk.length < 2 ^ 31) :
    Yields (Ahead src pre 0 (chunks.flatMap plpChunk ++ (leBytes 4 plpTerminator ++ rest)))
      (readBcpChunks src.fuel n) (some (chunkIndex pre.length chunks))
      (Ahead src (pre ++ (chunks.flatMap plpChunk ++ leBytes 4 plpTerminator)) 0 rest) := by
  induction chunks generalizing n pre with
  | nil =>
    obtain ⟨n, rfl⟩ : ∃ m, n = m + 1 := ⟨n - 1, by omega⟩
    rw [flatMap_nil, nil_append, nil_append, readBcpChunks]
    refine .bind (checkPlp_yields (by simp) (by decide)) ?_
    refine .bind exceedsMessage_yields ?_
    refine .bind (takeRow_ahead (k := 0) (length_leBytes 4 plpTerminator)) ?_
    exact .pure
  | cons chunk chunks ih =>
    obtain ⟨n, rfl⟩ : ∃ m, n = m + 1 := ⟨n - 1, by omega⟩
    obtain ⟨hne, hlen⟩ := hchunks chunk mem_cons_self
    have hterm : ¬ chunk.length = plpTerminator :=
      Nat.ne_of_gt (length_pos_iff.mpr hne)
    have hlen' : (pre ++ leBytes 4 chunk.length ++ chunk).length =
        pre.length + (plpChunk chunk).length := by
      simp [plpChunk]
    rw [length_cons] at hn
    have hrest := ih (n := n) (pre ++ leBytes 4 chunk.length ++ chunk) (by omega)
      (forall_mem_cons.mp hchunks).2
    rw [hlen'] at hrest
    rw [readBcpChunks, flatMap_cons, plpChunk, append_assoc, append_assoc]
    refine .bind (checkPlp_yields (by simp) (by decide)) ?_
    refine .bind exceedsMessage_yields ?_
    refine .bind (takeRow_ahead (k := 0) (length_leBytes 4 chunk.length)) ?_
    rw [leNat_leBytes_of_lt (by omega), if_neg hterm]
    refine .get fun b hb => .pre ?_ (by rintro _ rfl; exact hb)
    have hoffset : b.bcpOffset = pre.length + 4 := by
      rw [hb.offset_eq, length_append, length_leBytes]
    refine .bind (checkPlp_yields (by simp) hlen) ?_
    refine .bind exceedsMessage_yields ?_
    refine .bind (takeRow_ahead (k := 0) rfl) (.bind hrest ?_)
    rw [hoffset, chunkIndex, append_assoc, append_assoc, append_assoc, append_assoc]
    exact .pure

/-- **A PLP value** is indexed and collected. -/
theorem readPlpValue_yields {plpTok : Nat} {chunks : List (List UInt8)}
    (hchunks : ∀ chunk ∈ chunks, chunk ≠ [] ∧ chunk.length < 2 ^ 31)
    (htok : plpTok = chunks.flatten.length ∨ plpTok = plpUnknownLen) :
    Yields (Upto src 0 (leBytes 8 plpTok ++ (chunks.flatMap plpChunk ++
        (leBytes 4 plpTerminator ++ rest))))
      (readPlpValue src.fuel c column) (some chunks.flatten) (Upto src 0 rest) := by
  rintro b ⟨pre, h⟩
  have hbound := h.bound
  have hshort := h.short
  simp only [length_append, length_leBytes] at hbound hshort
  have hcount := length_le_flatMap chunks
  have hflat := length_flatten_le_flatMap chunks
  have hval : leNat (leBytes 8 plpTok) = plpTok := by
    refine leNat_leBytes_of_lt ?_
    unfold plpUnknownLen at htok
    omega
  have hnull : ¬ plpTok = plpNull := by
    unfold plpUnknownLen at htok
    unfold plpNull
    omega
  have hread : Yields (Ahead src pre 0 (leBytes 8 plpTok ++ (chunks.flatMap plpChunk ++
        (leBytes 4 plpTerminator ++ rest)))) (readBcpPlp src.fuel)
      (some ⟨false, chunkIndex (pre ++ leBytes 8 plpTok).length chunks⟩)
      (Ahead src (pre ++ leBytes 8 plpTok ++ (chunks.flatMap plpChunk ++
        leBytes 4 plpTerminator)) 0 rest) := by
    refine .bind (checkPlp_yields (by simp) (by decide)) ?_
    refine .bind (takeRow_ahead (k := 0) (length_leBytes 8 plpTok)) ?_
    rw [hval, if_neg hnull]
    refine .bind (readBcpChunks_yields chunks _ (by omega) hchunks) ?_
    dsimp only [Option.elim_some]
    rw [chunkIndex_sum, Nat.mod_eq_of_lt (by omega),
      if_neg fun hbad => htok.elim (fun hlen => hbad.2 hlen.symm) hbad.1]
    exact .pure
  refine Yields.bind hread ?_ b h
  intro t ht
  have hocc : OccursAt t.message (pre ++ leBytes 8 plpTok).length (chunks.flatMap plpChunk) := by
    refine ⟨pre ++ leBytes 8 plpTok, leBytes 4 plpTerminator ++ t.unparsed, ?_, rfl⟩
    rw [← ht.message_eq]
    simp only [append_assoc]
  obtain ⟨d, hcollect, -⟩ := (collect_reads chunks hocc).run
    (c := ⟨t.bcpOffset⟩) (m := t.bcpOffset) rfl
  refine ⟨(some chunks.flatten, t), ?_, rfl, _, ht⟩
  simp only [collectPlp, bind, StateT.bind, hcollect, Outcome.bind]
  rfl

/-- What a value becomes: an empty text is stored as NULL. -/
def stored (c : BulkLoadColMetaData) : Option (List UInt8) → Option (List UInt8)
  | some [] => if c.columnTdsType.format = .text then none else some []
  | v => v

theorem stored_of_ne (h : c.columnTdsType.format ≠ .text) : stored c v = v := by
  rcases v with _ | ⟨_ | ⟨x, xs⟩⟩
  · rfl
  · rw [stored, if_neg h]
  · rfl

theorem readBytes_yields {len : Nat} (hlen : bs.length = len) (hint : len < 2 ^ 31)
    (hmax : len ≤ c.maxLen) :
    Yields (Upto src 0 (bs ++ rest)) (readBytes src.fuel c column len) (some bs)
      (Upto src 0 rest) := by
  rw [readBytes, if_neg (Nat.not_lt.mpr hmax)]
  exact fetchRow hlen hint .pure

theorem readByteLength_null :
    Yields (Upto src 0 ([0] ++ rest)) (readByteLength src.fuel c column) none (Upto src 0 rest) :=
  fetchRow rfl (by decide) .pure

theorem lengthByte (hpos : bs ≠ []) (hlen : bs.length < 256) :
    (UInt8.ofNat bs.length).toNat = bs.length ∧ UInt8.ofNat bs.length ≠ 0 := by
  have hnat : (UInt8.ofNat bs.length).toNat = bs.length := by
    rw [UInt8.toNat_ofNat']
    omega
  refine ⟨hnat, fun h => hpos (eq_nil_of_length_eq_zero ?_)⟩
  rw [← hnat, h]
  rfl

theorem readByteLength_yields (hpos : bs ≠ []) (hlen : bs.length < 128)
    (hmax : bs.length ≤ c.maxLen) :
    Yields (Upto src 0 ([UInt8.ofNat bs.length] ++ (bs ++ rest))) (readByteLength src.fuel c column)
      (some bs) (Upto src 0 rest) := by
  obtain ⟨hnat, hzero⟩ := lengthByte hpos (by omega)
  have hsigned : toUInt32 (signedChar (UInt8.ofNat bs.length)) = bs.length := by
    unfold toUInt32 signedChar
    omega
  refine fetchRow rfl (by decide) ?_
  rw [headD_cons, if_neg hzero, hsigned]
  exact readBytes_yields rfl (by omega) hmax

theorem BulkLoadColMetaData.HasLengthByte.read_eq (h : c.HasLengthByte) (fuel : Nat) :
    readBulkValue fuel c column = readByteLength fuel c column := by
  rcases h with ⟨hf, hv⟩ | ⟨hf, hscale⟩
  · simp only [readBulkValue, hf, hv]
    rfl
  · simp only [readBulkValue, hf, readNumericValue]
    rw [if_neg (UInt8.not_lt.mpr hscale)]

theorem BulkLoadColMetaData.HasPlp.read_eq (h : c.HasPlp) (fuel : Nat) :
    readBulkValue fuel c column = readPlpValue fuel c column := by
  rcases h with hf | ⟨hf, hmax⟩
  · simp only [readBulkValue, hf]
  · simp only [readBulkValue, hf, readShortLength]
    rw [if_neg (not_not_intro hmax)]

theorem BulkLoadColMetaData.HasLengthByte.not_text (h : c.HasLengthByte) :
    c.columnTdsType.format ≠ .text := by
  rcases h with ⟨hf, -⟩ | ⟨hf, -⟩ <;> simp [hf]

theorem BulkLoadColMetaData.HasPlp.not_text (h : c.HasPlp) : c.columnTdsType.format ≠ .text := by
  rcases h with hf | ⟨hf, -⟩ <;> simp [hf]

/-- **A value is read back**, but for an empty text. -/
theorem readBulkValue_yields (h : EncodesValue c v bytes) :
    Yields (Upto src 0 (bytes ++ rest)) (readBulkValue src.fuel c column) (stored c v)
      (Upto src 0 rest) := by
  cases h with
  | byteNull hc =>
    rw [hc.read_eq, stored_of_ne hc.not_text]
    exact readByteLength_null
  | byteValue hc bs hpos hlen hmax =>
    rw [hc.read_eq, stored_of_ne hc.not_text]
    exact readByteLength_yields hpos hlen hmax
  | fixed hc hfixed bs hlen hmax =>
    rw [stored_of_ne (by simp [hc])]
    simp only [readBulkValue, hc, hfixed, if_true]
    exact readBytes_yields hlen hmax le_rfl
  | shortNull hc hmax =>
    simp only [readBulkValue, hc, readShortLength, if_pos hmax]
    exact fetchRow (length_leBytes 2 _) (by decide) .pure
  | shortValue hc hplp bs hlen hmax =>
    have hval : leNat (leBytes 2 bs.length) = bs.length := leNat_leBytes_of_lt (by omega)
    have hne : leNat (leBytes 2 bs.length) ≠ 0xFFFF := by omega
    rw [stored_of_ne (by simp [hc]), append_assoc]
    simp only [readBulkValue, hc, readShortLength, if_pos hplp]
    refine fetchRow (length_leBytes 2 _) (by decide) ?_
    rw [if_pos hne, hval]
    exact readBytes_yields rfl (by omega) hmax
  | plpNull hc =>
    rw [hc.read_eq, stored_of_ne hc.not_text]
    rintro b ⟨pre, h⟩
    have hread : Yields (Ahead src pre 0 (leBytes 8 plpNull ++ rest)) (readBcpPlp src.fuel)
        (some ⟨true, []⟩) (Ahead src (pre ++ leBytes 8 plpNull) 0 rest) := by
      refine .bind (checkPlp_yields (by simp) (by decide)) ?_
      refine .bind (takeRow_ahead (k := 0) (length_leBytes 8 plpNull)) ?_
      rw [if_pos (leNat_leBytes_of_lt (by decide))]
      exact .pure
    refine Yields.bind hread ?_ b h
    exact Yields.pre Yields.pure fun _ h => ⟨_, h⟩
  | plpValue hc plpTok chunks hchunks htok =>
    rw [hc.read_eq, stored_of_ne hc.not_text, append_assoc, append_assoc]
    exact readPlpValue_yields hchunks htok
  | textNull hc =>
    simp only [readBulkValue, hc, readTextValue]
    exact fetchRow rfl (by decide) .pure
  | textValue hc pointer timestamp bs hpointer hlen htimestamp hsize hmax =>
    obtain ⟨hnat, hzero⟩ := lengthByte hpointer (by omega)
    simp only [readBulkValue, hc, readTextValue, cons_append, append_assoc]
    refine fetchRow (show [UInt8.ofNat pointer.length].length = 1 from rfl) (by decide) ?_
    rw [headD_cons, if_neg hzero, hnat]
    refine .bind (checkRows_yields (by simp; omega) (by omega)) ?_
    rw [Nat.add_assoc]
    refine .bind (takeRow_yields rfl) ?_
    refine .bind (takeRow_yields (k := 4) htimestamp) ?_
    refine .bind (takeRow_yields (k := 0) (length_leBytes 4 bs.length)) ?_
    rw [leNat_leBytes_of_lt (by omega)]
    cases bs with
    | nil =>
      rw [if_pos length_nil, stored, if_pos hc]
      exact .pure
    | cons x xs =>
      exact readBytes_yields rfl (by omega) hmax
  | variantNull hc =>
    rw [stored_of_ne (by simp [hc])]
    simp only [readBulkValue, hc, readVariantValue]
    exact fetchRow (length_leBytes 4 0) (by decide) .pure
  | variantValue hc bs hpos hsize hmax =>
    rw [stored_of_ne (by simp [hc]), append_assoc]
    simp only [readBulkValue, hc, readVariantValue]
    refine fetchRow (length_leBytes 4 _) (by decide) ?_
    rw [leNat_leBytes_of_lt (by omega), if_neg fun hnil => hpos (eq_nil_of_length_eq_zero hnil)]
    exact readBytes_yields rfl hsize hmax

/-! ### Rows -/

variable {D : Type} (datum : BulkLoadColMetaData → List UInt8 → List UInt8 → D)

def sentRow : List BulkLoadColMetaData → List (Option (List UInt8)) → List (Option D) :=
  List.zipWith fun c v => v.map (datum c · [])

def storedRow : List BulkLoadColMetaData → List (Option (List UInt8)) → List (Option D) :=
  List.zipWith fun c v => (stored c v).map (datum c · [])

/-- **The values are converted from their own bytes**, whatever lies behind them. -/
def OwnBytesRow (cols : List BulkLoadColMetaData) (row : List (Option (List UInt8))) : Prop :=
  ∀ p ∈ cols.zip row, ∀ bs ∈ p.2, ∀ behind, datum p.1 bs behind = datum p.1 bs []

variable {row : List (Option (List UInt8))} {datum}

theorem stored_map_own (h : ∀ bs ∈ v, ∀ behind, datum c bs behind = datum c bs [])
    (behind : List UInt8) :
    (stored c v).map (datum c · behind) = (stored c v).map (datum c · []) := by
  rcases v with _ | ⟨_ | ⟨x, xs⟩⟩
  · rfl
  · by_cases htext : c.columnTdsType.format = .text
    · simp [stored, htext]
    · simp [stored, htext, h _ rfl behind]
  · simp [stored, h _ rfl behind]

theorem readBulkColumns_yields (h : EncodesRow cols row bytes) (hown : OwnBytesRow datum cols row) :
    Yields (Upto src 0 (bytes ++ rest)) (readBulkColumns datum src.fuel cols column)
      (storedRow datum cols row) (Upto src 0 rest) := by
  induction h generalizing column with
  | nil => exact .pure
  | cons hv hvs ih =>
    obtain ⟨hfirst, hrest⟩ := forall_mem_cons.mp hown
    rw [append_assoc]
    refine .bind (readBulkValue_yields hv) (.get fun b hb => ?_)
    rw [stored_map_own hfirst]
    exact .pre (.bind (ih hrest) .pure) (by rintro _ rfl; exact hb)

variable (datum)

/-- **A row** is read back up to the token behind it. -/
theorem readBulkRow_yields (h : EncodesRow cols row bytes) (hown : OwnBytesRow datum cols row)
    (hrest : rest ≠ []) :
    Yields (Upto src 1 ([tokenRow] ++ (bytes ++ rest))) (readBulkRow datum src.fuel cols)
      (storedRow datum cols row) (Upto src 1 rest) := by
  refine .bind (a := ()) (Q := Upto src 1 ([tokenRow] ++ (bytes ++ rest))) ?_ ?_
  · rintro b ⟨pre, hb⟩
    exact .ok ⟨rfl, pre, hb.counters _ _⟩
  refine .bind (takeRow_yields (k := 0) rfl) ?_
  refine .bind (readBulkColumns_yields h hown) ?_
  exact .bind (checkRows_yields (length_pos_iff.mpr hrest) (by decide))
    .pure

theorem Upto.token {x : UInt8} (h : Upto src 1 (x :: rest) b) :
    b.message.getD b.bcpOffset 0 = x := by
  obtain ⟨pre, h⟩ := h
  obtain ⟨ps, -, hrest⟩ := h.coming
  have havail := h.available
  have hdrop : b.unparsed.length = b.message.length - b.bcpOffset := b.length_unparsed
  cases hu : b.unparsed with
  | nil =>
    rw [hu, length_nil] at hdrop
    omega
  | cons y ys =>
    rw [hu, cons_append] at hrest
    have hget : b.message.getD b.bcpOffset 0 = b.unparsed.getD 0 0 := by
      simp [BcpState.unparsed, getD_eq_getElem?_getD]
    rw [hget, hu]
    exact (cons.inj hrest).1

/-! ### Batches -/

/-- The state between two rows: the rows `left` are still to come. -/
def RowsAhead (src : Source) (cols : List BulkLoadColMetaData) (done : List UInt8) (k : Nat)
    (left : List (List (Option (List UInt8)))) (b : BcpState) : Prop :=
  ∃ bytes, EncodesRows cols left bytes ∧ Upto src k (bytes ++ done) b

theorem RowsAhead.length_lt (h : RowsAhead src cols done k left b) : left.length < src.fuel := by
  obtain ⟨bytes, hrows, pre, hb⟩ := h
  have hshort := hb.short
  rw [length_append] at hshort
  have hcount : left.length ≤ bytes.length := by
    clear hb hshort
    induction hrows with
    | nil => exact le_rfl
    | cons _ _ ih =>
      simp only [length_cons, cons_append, length_append]
      omega
  omega

theorem RowsAhead.zero (h : RowsAhead src cols done k left b) :
    RowsAhead src cols done 0 left b := by
  obtain ⟨bytes, hrows, hup⟩ := h
  exact ⟨bytes, hrows, hup.mono (Nat.zero_le k)⟩

variable {kilobytes rowLimit : Nat} {t : BcpState}

/-- What the row loop leaves: it read the rows `taken`, and stopped at the end of the rows or at a
limit. -/
structure RowsRead (src : Source) (datum : BulkLoadColMetaData → List UInt8 → List UInt8 → D)
    (kilobytesPerBatch rowsPerBatch : Nat) (cols : List BulkLoadColMetaData) (done : List UInt8)
    (rows : List (List (Option (List UInt8)))) (out : List (List (Option D))) (t : BcpState)
    (taken left : List (List (Option (List UInt8)))) : Prop where
  split : rows = taken ++ left
  values : out = taken.map (storedRow datum cols)
  ahead : RowsAhead src cols done 1 left t
  stopped : t.belowLimits kilobytesPerBatch rowsPerBatch = true → left = []

theorem SameCounters.belowLimits (h : SameCounters b t) (kilobytes rowLimit : Nat) :
    t.belowLimits kilobytes rowLimit =
      b.belowLimits kilobytes rowLimit := by
  rw [BcpState.belowLimits, BcpState.belowLimits, h.1, h.2]

/-- The batch ends exactly at the `DONE` token. -/
def Batch.EndsAt (batch : Batch D) (done : List UInt8) : Prop :=
  batch.next ≠ [] ∧ batch.next <+: done

theorem RowsAhead.endsAt (h : RowsAhead src cols done 1 [] t) (rows : List (List (Option D))) :
    Batch.EndsAt ⟨rows, t.unparsed⟩ done := by
  obtain ⟨bytes, hrows, pre, hup⟩ := h
  cases hrows with
  | nil =>
    obtain ⟨ps, -, hrest⟩ := hup.coming
    have havail := hup.available
    have hlen : t.unparsed.length = t.message.length - t.bcpOffset := t.length_unparsed
    exact ⟨length_pos_iff.mp (by show 0 < t.unparsed.length; omega), _, hrest⟩

theorem rowLoop_succ :
    rowLoop datum src.fuel kilobytes rowLimit cols (n + 1) b =
      if b.message.getD b.bcpOffset 0 = tokenRow ∧
          b.belowLimits kilobytes rowLimit = true then
        (do
          let row ← readBulkRow datum src.fuel cols
          let rows ← rowLoop datum src.fuel kilobytes rowLimit cols n
          pure (row :: rows) : Bcp (List (List (Option D)))) b
      else .ok ([], b) := by
  show (if _ then _ else _ : Bcp (List (List (Option D)))) b = _
  split <;> rfl

section

variable (hdone : done.head? = some tokenDone)
include hdone

theorem EncodesRows.ne_nil (_ : EncodesRows cols rows bytes) : bytes ++ done ≠ [] := by
  intro hnil
  rw [(append_eq_nil_iff.mp hnil).2] at hdone
  exact absurd hdone (by simp)

theorem RowsAhead.token (h : RowsAhead src cols done 1 left b) :
    b.message.getD b.bcpOffset 0 = if left = [] then tokenDone else tokenRow := by
  obtain ⟨bytes, hrows, hb⟩ := h
  cases hrows with
  | nil =>
    obtain ⟨tail, rfl⟩ := head?_eq_some_iff.mp hdone
    exact hb.token
  | cons hrow hrows => exact hb.token

theorem RowsAhead.check (h : RowsAhead src cols done 0 left b) :
    Gives (checkRows src.fuel 1 b) fun r =>
      RowsAhead src cols done 1 left r.2 ∧ SameCounters b r.2 := by
  obtain ⟨bytes, hrows, pre, hb⟩ := h
  refine (hb.check (length_pos_iff.mpr (hrows.ne_nil hdone)) (by decide) true).mono ?_
  rintro r ⟨-, hsame, pre', -, hr⟩
  exact ⟨⟨bytes, hrows, pre', hr⟩, hsame⟩

/-- **The row loop** reads rows until it meets the `DONE` token or a limit. -/
theorem rowLoop_gives (hn : rows.length < n) (hb : RowsAhead src cols done 1 rows b)
    (hown : ∀ row ∈ rows, OwnBytesRow datum cols row) :
    Gives (rowLoop datum src.fuel kilobytes rowLimit cols n b) fun r =>
      ∃ taken left, RowsRead src datum kilobytes rowLimit cols done rows r.1 r.2
          taken left ∧
        (b.belowLimits kilobytes rowLimit = true → rows ≠ [] → taken ≠ []) ∧
        (b.belowLimits kilobytes rowLimit = false → taken = [] ∧ r.2 = b) := by
  induction rows generalizing n b with
  | nil =>
    obtain ⟨n, rfl⟩ : ∃ m, n = m + 1 := ⟨n - 1, by omega⟩
    have htoken := hb.token hdone
    rw [rowLoop_succ, htoken, if_neg fun h => absurd h.1 (by decide)]
    exact .ok ⟨[], [], ⟨rfl, rfl, hb, fun _ => rfl⟩, fun _ h => absurd rfl h,
      fun _ => ⟨rfl, rfl⟩⟩
  | cons row rows ih =>
    obtain ⟨n, rfl⟩ : ∃ m, n = m + 1 := ⟨n - 1, by omega⟩
    rw [length_cons] at hn
    obtain ⟨hfirst, hothers⟩ := forall_mem_cons.mp hown
    have htoken := hb.token hdone
    rw [rowLoop_succ]
    cases hbelow : b.belowLimits kilobytes rowLimit with
    | false =>
      rw [if_neg fun h => absurd h.2 (by simp)]
      refine .ok ⟨[], row :: rows, ⟨rfl, rfl, hb, fun h => ?_⟩, fun h => absurd h (by simp),
        fun _ => ⟨rfl, rfl⟩⟩
      exact absurd (hbelow.symm.trans h) (by simp)
    | true =>
      rw [if_pos ⟨htoken, rfl⟩]
      obtain ⟨bytes, hrows, hup⟩ := hb
      cases hrows with
      | @cons _ bs _ bs' hrow hrows =>
        have hup' : Upto src 1 ([tokenRow] ++ (bs ++ (bs' ++ done))) b := by
          simpa using hup
        refine .bind (readBulkRow_yields datum hrow hfirst (hrows.ne_nil hdone) b hup') ?_
        rintro ⟨_, t⟩ ⟨rfl, hnext⟩
        refine .bind (ih (by omega) ⟨bs', hrows, hnext⟩ hothers) ?_
        rintro ⟨out, u⟩ ⟨taken, left, hread, -⟩
        refine .ok ⟨row :: taken, left, ⟨?_, ?_, hread.ahead, hread.stopped⟩,
          fun _ _ => cons_ne_nil row taken, fun h => absurd h (by simp)⟩
        · rw [hread.split, cons_append]
        · exact congrArg (storedRow datum cols row :: ·) hread.values

/-- **The end of a batch** leaves the rows that are left. -/
theorem checkDone_gives (hb : RowsAhead src cols done 1 left b)
    (hstop : b.belowLimits kilobytes rowLimit = true → left = []) :
    Gives (checkDone src.fuel kilobytes rowLimit b) fun r =>
      RowsAhead src cols done 1 left r.2 := by
  refine .bind (hb.zero.check hdone) ?_
  rintro ⟨_, t⟩ ⟨(ht : RowsAhead src cols done 1 left t), (hsame : SameCounters b t)⟩
  show Gives ((if t.belowLimits kilobytes rowLimit = true then _ else _ : Bcp Unit) t) _
  cases hbelow : t.belowLimits kilobytes rowLimit with
  | false => exact .ok ht
  | true =>
    obtain rfl := hstop ((hsame.belowLimits _ _).symm.trans hbelow)
    have htoken : t.message.getD t.bcpOffset 0 = tokenDone := by simpa using ht.token hdone
    rw [if_pos rfl, if_pos htoken]
    obtain ⟨bytes, hrows, pre, hup⟩ := ht
    cases hrows with
    | nil =>
      have hwidth : toUInt64 (t.message.length - t.bcpOffset) = t.unparsed.length := by
        have hlen := hup.length_message_lt
        have havail := hup.available
        rw [t.length_unparsed]
        unfold toUInt64
        omega
      rw [hwidth]
      split_ifs with hmore
      · -- a packet without the end-of-message bit is followed by one that has a payload
        have hlonger : t.unparsed.length + 1 ≤ done.length := by
          obtain ⟨ps, hps, hrest⟩ := hup.coming
          cases ps with
          | nil => exact absurd hps.status (by simpa [tdsGetRecvPacketEomStatus] using hmore.2)
          | cons p ps =>
            have hpayload := length_pos_iff.mpr (hps.packets p mem_cons_self).2.1
            have hlen := congrArg length hrest
            simp only [flatMap_cons, length_append, length_nil] at hlen
            omega
        refine ((hup.mono (Nat.zero_le 1)).check hlonger (by omega) true).mono ?_
        rintro r ⟨-, -, pre', -, hr⟩
        exact ⟨[], .nil, pre', hr.mono (Nat.le_add_left 1 _)⟩
      · exact .ok ⟨[], .nil, pre, hup⟩

variable (hlimit : 1 ≤ rowLimit)
include hlimit

/-- **One batch**: some of the rows, at least one if the limits allow any. -/
theorem setBulkLoadRowData_gives (hb : RowsAhead src cols done 0 rows b)
    (hown : ∀ row ∈ rows, OwnBytesRow datum cols row) :
    Gives (setBulkLoadRowData datum src.fuel kilobytes rowLimit cols b) fun r =>
      ∃ taken left, rows = taken ++ left ∧ r.1 = taken.map (storedRow datum cols) ∧
        RowsAhead src cols done 1 left r.2 ∧
        (0 < batchBytes kilobytes → rows ≠ [] → taken ≠ []) ∧
        (¬ 0 < batchBytes kilobytes → taken = []) := by
  have hreset : RowsAhead src cols done 0 rows { b with rowCount := 0, currentBatchSize := 0 } := by
    obtain ⟨bytes, hrows, pre, hup⟩ := hb
    exact ⟨bytes, hrows, pre, hup.counters 0 0⟩
  refine .bind (hreset.check hdone) ?_
  rintro ⟨_, t⟩ ⟨ht, hsame⟩
  have hbelow : t.belowLimits kilobytes rowLimit =
      decide (0 < batchBytes kilobytes) := by
    rw [hsame.belowLimits, BcpState.belowLimits]
    simp only [decide_eq_decide]
    omega
  refine .bind (rowLoop_gives datum hdone ht.length_lt ht hown) ?_
  rintro ⟨out, u⟩ ⟨taken, left, hread, hsome, hnone⟩
  refine .bind (checkDone_gives hdone hread.ahead hread.stopped) fun r hr => ?_
  refine .ok ⟨taken, left, hread.split, hread.values, hr, fun hpos => ?_, fun hneg => ?_⟩
  · exact hsome (by rw [hbelow]; simpa using hpos)
  · exact (hnone (by rw [hbelow]; simpa using hneg)).1

/-- **All batches**, when the limits allow any rows: they make up the rows, and the last one ends at
the `DONE` token. -/
theorem processBatches_gives (hbytes : 0 < batchBytes kilobytes) (hn : rows.length < n)
    (hb : RowsAhead src cols done 0 rows b) (hown : ∀ row ∈ rows, OwnBytesRow datum cols row) :
    Gives (processBatches datum src.fuel kilobytes rowLimit cols n b) fun r =>
      r.1.flatMap Batch.rows = rows.map (storedRow datum cols) ∧
        ∃ batch, r.1.getLast? = some batch ∧ batch.EndsAt done := by
  induction n generalizing rows b with
  | zero => omega
  | succ n ih =>
    refine .bind (setBulkLoadRowData_gives datum hdone hlimit hb hown) ?_
    rintro ⟨_, t⟩ ⟨taken, left, rfl, rfl, ht, hsome, -⟩
    show Gives ((if ((taken.map (storedRow datum cols)).isEmpty) = true then _ else _ :
      Bcp (List (Batch D))) t) _
    cases taken with
    | nil =>
      have hleft : left = [] := by
        by_contra hne
        exact hsome hbytes hne rfl
      subst hleft
      exact .ok ⟨rfl, _, rfl, ht.endsAt _⟩
    | cons row taken =>
      rw [if_neg (by simp)]
      refine .bind (ih (by simp at hn; omega) ht.zero
        (forall_mem_append.mp hown).2) ?_
      rintro ⟨batches, u⟩ ⟨hall, batch, hlast, hend⟩
      refine .ok ⟨?_, batch, ?_, hend⟩
      · rw [flatMap_cons, hall, map_append]
      · cases batches with
        | nil => exact absurd hlast (by simp)
        | cons _ _ => rw [getLast?_cons_cons]; exact hlast

/-- When the limit in bytes is not positive, the first batch has no rows and is taken for the
last. -/
theorem processBatches_none (hbytes : ¬ 0 < batchBytes kilobytes) (hn : rows.length < n)
    (hb : RowsAhead src cols done 0 rows b) (hown : ∀ row ∈ rows, OwnBytesRow datum cols row) :
    Gives (processBatches datum src.fuel kilobytes rowLimit cols n b) fun r =>
      r.1.flatMap Batch.rows = [] ∧
        (rows = [] → ∃ batch, r.1.getLast? = some batch ∧ batch.EndsAt done) := by
  obtain ⟨n, rfl⟩ := Nat.exists_eq_add_one.mpr (Nat.zero_lt_of_lt hn)
  refine .bind (setBulkLoadRowData_gives datum hdone hlimit hb hown) ?_
  rintro ⟨_, t⟩ ⟨taken, left, rfl, rfl, ht, -, hnone⟩
  obtain rfl := hnone hbytes
  refine .ok ⟨rfl, ?_⟩
  rintro rfl
  exact ⟨_, rfl, ht.endsAt _⟩

end

end

end Babelfish.Tds
