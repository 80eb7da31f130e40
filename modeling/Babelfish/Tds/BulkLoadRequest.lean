import Babelfish.Tds.BulkLoadRows
import Babelfish.Tds.NumericRecv

/-!
# Bulk load requests

The first packet of a bulk load is handed out by `TdsReadNextRequest`; the others are pulled by the
parser.

* `bulkLoadRequest_gives`: what the callback gets.
* `bulkLoadRequest_exact_iff`: when that is exactly the rows of the stream.
-/

namespace Babelfish.Tds

open Lib List

theorem AtBoundary.readBulkRequest {fuel size : Nat} {p : Packet} {rest : List UInt8}
    {s : RecvState} (h : AtBoundary size (p.bytes ++ rest) s) (hsize : p.size ≤ size)
    (hfuel : s.pending.length < fuel) (hne : p.payload ≠ []) (hbulk : p.messageType = bulkLoad) :
    Gives (tdsReadNextRequest fuel s) fun r =>
      r.1 = p.request ∧ Consumed size p rest r.2 := by
  obtain ⟨n, rfl⟩ : ∃ n, fuel = n + 1 := ⟨fuel - 1, by omega⟩
  obtain ⟨t, u, ht, hin, hu, hcons⟩ := h.readPayload hsize hfuel hne
  have hask : Consumed size p rest { u with doProcessHeader := true } :=
    ⟨hcons.toAtBoundary.askHeader, hcons.messageType, hcons.status⟩
  have hrequest : extendRequest t p.payload none = p.request := extendRequest_eq hin none
  have hend : ∃ v, endOfPacket p.request u = .done (p.request, v) ∧ Consumed size p rest v := by
    have htype : (u.recvMessageType == bulkLoad) = true := by simp [hcons.messageType, hbulk]
    unfold endOfPacket
    split
    · split
      · exact ⟨_, rfl, hask⟩
      · exact ⟨_, rfl, hcons⟩
    · exact ⟨_, rfl, hask⟩
  obtain ⟨v, hv, hconsumed⟩ := hend
  refine ⟨(p.request, v), ?_, rfl, hconsumed⟩
  simp only [tdsReadNextRequest, loop, readPacket, ht, hu, Outcome.ok_bind, hrequest, hv,
    Outcome.pure_eq]

theorem Message.eomLast (m : Message) : EomLast m.packets := by
  have hinit : ∀ ps : List Packet, (∀ p ∈ ps, p.eom = false) → EomLast (ps ++ [m.last]) := by
    intro ps
    induction ps with
    | nil => exact fun _ => ⟨m.last_eom, trivial⟩
    | cons p ps ih =>
      intro h
      refine ⟨?_, ih (forall_mem_cons.mp h).2⟩
      rw [h p mem_cons_self]
      simp
  exact hinit m.init m.init_eom

theorem length_payloads_le : ∀ ps : List Packet,
    (ps.flatMap Packet.payload).length ≤ (wire ps).length :=
  length_flatMap_mono fun p => by rw [p.length_bytes]; exact Nat.le_add_right _ _

section

variable {D : Type} (datum : BulkLoadColMetaData → List UInt8 → List UInt8 → D)
  {cols : List BulkLoadColMetaData} {rows : List (List (Option (List UInt8)))}
  {done stream : List UInt8}

/-- **`GetBulkLoadRequest`** reads the columns and stands in front of the rows. -/
theorem getBulkLoadRequest_gives {src : Source} {b : BcpState}
    (h : EncodesStream cols rows done stream) (hb : Ahead src [] 0 stream b) :
    Gives (getBulkLoadRequest src.fuel b) fun r =>
      r.1 = cols ∧ RowsAhead src cols done 0 rows r.2 := by
  cases h with
  | @intro colBytes rowBytes hcols hne hmax hrows hdone =>
    have hpos : 0 < cols.length := length_pos_iff.mpr hne
    have hval : leNat (leBytes 2 cols.length) = cols.length :=
      leNat_leBytes_of_lt (Nat.lt_of_le_of_lt hmax (by decide))
    have hcount : ¬ (cols.length = 0 ∨ maxBulkLoadColumns < cols.length) := by omega
    have hreset : Yields (Ahead src [] 0 ([tokenColMetadata] ++ (leBytes 2 cols.length ++
        (colBytes ++ (rowBytes ++ done))))) tdsResetBcpOffset ()
        (Upto src 0 ([tokenColMetadata] ++ (leBytes 2 cols.length ++
          (colBytes ++ (rowBytes ++ done))))) := by
      intro t ht
      have hoffset : t.bcpOffset = 0 := ht.offset_eq
      have hsame : { t with bcpOffset := 0 } = t := by rw [← hoffset]
      refine .ok ⟨rfl, [], ?_⟩
      show Ahead src [] 0 _ { t with bcpOffset := 0 }
      rwa [hsame]
    have hread : Yields (Ahead src [] 0 ([tokenColMetadata] ++ (leBytes 2 cols.length ++
        (colBytes ++ (rowBytes ++ done))))) (getBulkLoadRequest src.fuel) cols
        (Upto src 0 (rowBytes ++ done)) := by
      refine .bind hreset (fetchMetadataByte ?_)
      rw [if_neg (by simp)]
      refine fetchMetadata (length_leBytes 2 cols.length) (by decide) ?_
      rw [hval, if_neg hcount]
      exact readColumns_yields hcols
    exact (hread b hb).mono fun r hr => ⟨hr.1, rowBytes, hrows, hr.2⟩

/-- The row has a text that is empty and not NULL. -/
def HasEmptyText (cols : List BulkLoadColMetaData) (row : List (Option (List UInt8))) : Prop :=
  ∃ p ∈ cols.zip row, p.1.columnTdsType.format = .text ∧ p.2 = some []

theorem stored_map_iff (c : BulkLoadColMetaData) (v : Option (List UInt8)) :
    (stored c v).map (datum c · []) = v.map (datum c · []) ↔
      ¬ (c.columnTdsType.format = .text ∧ v = some []) := by
  rcases v with _ | ⟨_ | ⟨x, xs⟩⟩
  · simp [stored]
  · by_cases htext : c.columnTdsType.format = .text <;> simp [stored, htext]
  · simp [stored]

theorem storedRow_iff (row : List (Option (List UInt8))) :
    storedRow datum cols row = sentRow datum cols row ↔ ¬ HasEmptyText cols row := by
  induction cols generalizing row with
  | nil => simp [storedRow, sentRow, HasEmptyText]
  | cons c cols ih =>
    cases row with
    | nil => simp [storedRow, sentRow, HasEmptyText]
    | cons v row =>
      have hhead := stored_map_iff datum c v
      have htail := ih row
      simp only [storedRow, sentRow, HasEmptyText, zipWith_cons_cons, cons.injEq,
        zip_cons_cons, exists_mem_cons_iff, not_or] at hhead htail ⊢
      rw [hhead, htail]

/-- **The bulk load is exact**: the batches handed to the callback make up the rows of the stream,
and the last one ends exactly at the `DONE` token. -/
def ExactBatches (datum : BulkLoadColMetaData → List UInt8 → List UInt8 → D)
    (cols : List BulkLoadColMetaData) (rows : List (List (Option (List UInt8)))) (done : List UInt8)
    (out : Outcome BcpStop (List (Batch D))) : Prop :=
  ∃ batches, out = .ok batches ∧ batches.flatMap Batch.rows = rows.map (sentRow datum cols) ∧
    ∃ batch, batches.getLast? = some batch ∧ batch.EndsAt done

section

variable (hbound : stream.length < 2 ^ 63) {m : Message} (hbulk : m.messageType = bulkLoad)
  {buffer later : List UInt8} {socket : List ReadEvent}
  (hpackets : ∀ p ∈ m.packets, p.payload ≠ [] ∧ p.size ≤ buffer.length)
  (hpayload : m.packets.flatMap Packet.payload = stream)
  (hsocket : delivered socket = wire m.packets ++ later) (hfail : ReadEvent.fail ∉ socket)
  {fuel : Nat} (hfuel : (delivered socket).length < fuel)

include hbound hbulk hpackets hpayload hsocket hfail hfuel

/-- The first packet is read, and the whole stream is ahead. -/
theorem firstPacket_ahead :
    Gives (fromReader (tdsReadNextRequest fuel (tdsCommInit buffer socket))) fun r =>
      Ahead ⟨fuel, buffer.length, later⟩ [] 0 stream ⟨r.1.message, 0, r.2, 0, 0⟩ := by
  have hinit := tdsCommInit_atBoundary buffer hfail
  have heoms := m.eomLast
  have hlen := length_payloads_le m.packets
  have htype := m.sameType
  rw [hpayload] at hlen
  have hall : (delivered socket).length = (wire m.packets).length + later.length := by
    rw [hsocket, length_append]
  cases hps : m.packets with
  | nil => exact absurd hps (by simp [Message.packets])
  | cons p ps =>
    have hmem : ∀ q ∈ p :: ps, q.messageType = bulkLoad ∧ q.payload ≠ [] ∧
        q.size ≤ buffer.length := by
      rw [← hps]
      exact fun q hq => ⟨(htype q hq).trans hbulk, hpackets q hq⟩
    rw [hps] at heoms hpayload
    rw [hsocket, hps, wire_cons, append_assoc] at hinit
    obtain ⟨hpbulk, hpne, hpsize⟩ := hmem p mem_cons_self
    have hpending := hinit.pending
    have hfuel' : (tdsCommInit buffer socket).pending.length < fuel := by
      rwa [(tdsCommInit_atBoundary buffer hfail).pending]
    obtain ⟨⟨_, s⟩, hr, rfl, hs⟩ := hinit.readBulkRequest hpsize hfuel' hpne hpbulk
    refine ⟨(p.request, s), by rw [hr]; rfl, ⟨ps, ⟨hs.toAtBoundary, (forall_mem_cons.mp hmem).2,
      heoms.2, ?_⟩, hpayload⟩, rfl, Nat.zero_le _, ?_, ?_, ?_⟩
    · rw [hs.status]
      exact heoms.1
    · show s.pending.length < fuel
      have := congrArg length hpending
      rw [length_append] at this
      rw [hs.pending]
      omega
    · show stream.length < fuel
      omega
    · rw [length_nil]
      omega

/-- **A bulk load, from its first packet on.**  The stream is cut into packets anywhere, and the
socket delivers them in any pieces.  When the limit in bytes, computed as an `int`, is positive, the
batches make up the rows as the parser stores them; otherwise all rows are lost. -/
theorem bulkLoadRequest_gives (hstream : EncodesStream cols rows done stream)
    (hown : ∀ row ∈ rows, OwnBytesRow datum cols row) (kilobytes : Nat)
    {rowLimit : Nat} (hlimit : 1 ≤ rowLimit) :
    Gives (bulkLoadRequest datum fuel kilobytes rowLimit (tdsCommInit buffer socket))
      fun batches =>
        (0 < batchBytes kilobytes →
          batches.flatMap Batch.rows = rows.map (storedRow datum cols) ∧
          ∃ batch, batches.getLast? = some batch ∧ batch.EndsAt done) ∧
        (¬ 0 < batchBytes kilobytes → batches.flatMap Batch.rows = [] ∧
          (rows = [] → ∃ batch, batches.getLast? = some batch ∧ batch.EndsAt done)) := by
  have hdone : done.head? = some tokenDone := by
    cases hstream with
    | intro _ _ _ _ hdone => exact hdone
  refine .bind (firstPacket_ahead hbound hbulk hpackets hpayload hsocket hfail hfuel) ?_
  rintro ⟨request, s⟩ hahead
  have hget := getBulkLoadRequest_gives hstream hahead
  dsimp only at hget ⊢
  refine .bind hget ?_
  rintro ⟨cols', b⟩ ⟨hcols, hb⟩
  dsimp only at hcols hb ⊢
  rw [hcols]
  by_cases hbytes : 0 < batchBytes kilobytes
  · refine .bind (P := fun r => r.1.flatMap Batch.rows = rows.map (storedRow datum cols) ∧
      ∃ batch, r.1.getLast? = some batch ∧ batch.EndsAt done) ?_
      fun r hr => Gives.ok ⟨fun _ => hr, fun h => absurd hbytes h⟩
    exact .bind (processBatches_gives datum hdone hlimit hbytes hb.length_lt hb hown)
      fun r hr => Gives.ok hr
  · refine .bind (P := fun r => r.1.flatMap Batch.rows = [] ∧
      (rows = [] → ∃ batch, r.1.getLast? = some batch ∧ batch.EndsAt done)) ?_
      fun r hr => Gives.ok ⟨fun h => absurd h hbytes, fun _ => hr⟩
    exact .bind (processBatches_none datum hdone hlimit hbytes hb.length_lt hb hown)
      fun r hr => Gives.ok hr

end

end

/-- One nullable integer column without a name. -/
def intColumn : BulkLoadColMetaData := { blankColumn 0 0 .integer with maxLen := 4 }

def intRows : List (List (Option (List UInt8))) := [[some [1, 0, 0, 0]], [none]]

def doneBytes : List UInt8 := [0xFD, 0, 0, 0, 0, 0, 0, 0, 0, 0, 0, 0, 0]

def intStream : List UInt8 :=
  [0x81, 1, 0, 0, 0, 0, 0, 0, 0, 0x26, 4, 0, 0xD1, 4, 1, 0, 0, 0, 0xD1, 0] ++ doneBytes

theorem intStream_encodes : EncodesStream [intColumn] intRows doneBytes intStream := by
  have hcolumn : EncodesColumn intColumn [0, 0, 0, 0, 0, 0, 0x26, 4, 0] :=
    .intro (.info (show BulkType.ofByte 0x26 = some .integer from rfl) (.length 4)) (by decide)
      (by decide) 0 [] rfl
  have hbyte : intColumn.HasLengthByte := Or.inl ⟨rfl, rfl⟩
  have hone : EncodesRow [intColumn] [some [1, 0, 0, 0]] [4, 1, 0, 0, 0] :=
    .cons (.byteValue hbyte [1, 0, 0, 0] (by simp) (by decide) (by decide)) .nil
  have hnull : EncodesRow [intColumn] [none] [0] := .cons (.byteNull hbyte) .nil
  exact .intro (.cons hcolumn .nil) (by simp) (by decide) (.cons hone (.cons hnull .nil)) rfl

/-- The stream in two packets, cut inside the first value. -/
def intMessage : Message where
  messageType := bulkLoad
  init := [plainPacket bulkLoad 0 (intStream.take 15) (by decide)]
  last := plainPacket bulkLoad 1 (intStream.drop 15) (by decide)
  sameType := by simp [plainPacket]
  init_eom := by simp [plainPacket, Packet.eom, statusEom]
  last_eom := by simp [plainPacket, Packet.eom, statusEom]

theorem intMessage_packets : ∀ p ∈ intMessage.packets,
    p.payload ≠ [] ∧ p.size ≤ (List.replicate 64 (0 : UInt8)).length :=
  forall_mem_cons.mpr ⟨by decide, forall_mem_singleton.mpr (by decide)⟩

def intSocket : List ReadEvent := putBack (wire intMessage.packets) []

/-- The rows 7 and 8 of a `numeric(9, 0)` column, each of 5 bytes. -/
def numericStream : List UInt8 :=
  [0x81, 1, 0, 0, 0, 0, 0, 0, 0, 0x6C, 5, 9, 0, 0, 0xD1, 5, 1, 7, 0, 0, 0, 0xD1, 5, 1, 8, 0, 0, 0]
    ++ doneBytes

def numericPacket : Packet := plainPacket bulkLoad 1 numericStream (by decide)

def numericDatum (c : BulkLoadColMetaData) (bytes behind : List UInt8) :
    Except NumericError Numeric :=
  tdsTypeNumericToDatum c.scale.toNat (bytes ++ behind) []

end Babelfish.Tds
