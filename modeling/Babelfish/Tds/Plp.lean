import Babelfish.Tds.Send
import Babelfish.Tds.RpcMessage

/-!
# Sending and reading back a PLP value

A partially length-prefixed value goes out as its length, chunks that each have their own length,
and a terminator.  `TdsSendPlpDataHelper` cuts the chunks so that none crosses a packet; `ReadPlp`
indexes them and `TdsGetPlpStringInfoBufferFromToken` collects them.

* `Sending.tdsSendPlpDataHelper`: the writer emits chunks that are not empty and make up the value.
* `readPlp_reads`, `collect_reads`: the two passes of the reader.
* `tdsSendPlpDataHelper_roundTrip`: the reader returns the value.
-/

namespace Babelfish.Tds

open Lib
open List hiding modify

/-! ### The writer -/

def plpChunckLen : Nat := 32000

/-- A chunk of the given length, and the loop goes on behind it.  The source drops the result of the
second call; a socket that fails ends the run here. -/
def putChunk (fuel : Nat) (data : List UInt8) (tempOffset len : Nat) (s : SendState) :
    Outcome Stop (Iter (Nat × SendState) SendState) := do
  let s ← internalPutbytes fuel (leBytes 4 len) s
  let s ← internalPutbytes fuel (slice data tempOffset (tempOffset + len)) s
  pure (.next (tempOffset + len, s))

/-- One iteration of the loop of `TdsSendPlpDataHelper`; the state is `tempOffset` and the
writer. -/
def sendChunk (fuel : Nat) (data : List UInt8) (p : Nat × SendState) :
    Outcome Stop (Iter (Nat × SendState) SendState) :=
  let len := min plpChunckLen (data.length - p.1)
  if len = 0 then .ok (.done p.2)
  else
    let availableBufferSpace := getAvailableBufferSize p.2
    if availableBufferSpace < len + 4 then
      if availableBufferSpace < 1 + 4 then do
        let s ← flushBuffer p.2
        pure (.next (p.1, s))
      else putChunk fuel data p.1 (availableBufferSpace - 4) p.2
    else putChunk fuel data p.1 len p.2

def tdsSendPlpDataHelper (fuel : Nat) (data : List UInt8) (s : SendState) :
    Outcome Stop SendState := do
  let s ← internalPutbytes fuel (leBytes 8 data.length) s
  let s ← loop (sendChunk fuel data) fuel (0, s)
  internalPutbytes fuel (leBytes 4 plpTerminator) s

/-! ### The format -/

def plpChunk (chunk : List UInt8) : List UInt8 := leBytes 4 chunk.length ++ chunk

/-- A value on the wire, cut into the given chunks. -/
def plpBytes (chunks : List (List UInt8)) : List UInt8 :=
  leBytes 8 chunks.flatten.length ++ (chunks.flatMap plpChunk ++ leBytes 4 plpTerminator)

/-! ### What the writer emits -/

/-- **The bytes have been put**: some packets went out behind those that wait, and the rest waits.
Unlike `Emitted`, the packets may have any length. -/
def Streamed (size : Nat) (messageType : UInt8) (sent buf bytes : List UInt8) (s : SendState) :
    Prop :=
  ∃ (packets : List (List UInt8)) (buf' : List UInt8),
    Sending size messageType (sent ++ packets.flatMap (frame messageType 0x00)) buf' s ∧
    packets.flatten ++ buf' = buf ++ bytes

section

variable {fuel size : Nat} {type : UInt8} {sent buf bytes data : List UInt8} {s : SendState}

theorem Sending.streamed (h : Sending size type sent buf s) : Streamed size type sent buf [] s :=
  ⟨[], buf, by simpa using h, by simp⟩

section

variable (h : Streamed size type sent buf bytes s)
include h

theorem Streamed.internalPutbytes (hsize : packetHeaderSize < size) (more : List UInt8)
    (hfuel : more.length < fuel) :
    Gives (internalPutbytes fuel more s) (Streamed size type sent buf (bytes ++ more)) := by
  obtain ⟨packets, buf₁, hs, hall⟩ := h
  refine (hs.internalPutbytes hsize more hfuel).mono ?_
  rintro t ⟨packets', buf₂, ht, -, hall', -⟩
  refine ⟨packets ++ packets', buf₂, ?_, ?_⟩
  · rwa [flatMap_append, ← append_assoc]
  · rw [flatten_append, append_assoc, hall', ← append_assoc, hall, append_assoc]

theorem Streamed.flushBuffer :
    Gives (flushBuffer s) fun t =>
      Streamed size type sent buf bytes t ∧ t.sendCur = packetHeaderSize := by
  obtain ⟨packets, buf₁, hs, hall⟩ := h
  refine (hs.internalFlush false).mono fun t ht => ⟨⟨packets ++ [buf₁], [], ?_, ?_⟩, ht.cur⟩
  · simpa using ht
  · simpa using hall

theorem Streamed.bufferSize : s.sendBuffer.length = size := by
  obtain ⟨_, _, hs, -⟩ := h
  exact hs.bufferSize

end

/-- **The invariant of the loop**: the data up to `tempOffset` has been put in chunks that are not
empty. -/
def ChunksPut (size : Nat) (messageType : UInt8) (sent buf head data : List UInt8)
    (p : Nat × SendState) : Prop :=
  ∃ chunks : List (List UInt8), chunks.flatten = data.take p.1 ∧
    (∀ c ∈ chunks, c ≠ [] ∧ c.length ≤ plpChunckLen) ∧ p.1 ≤ data.length ∧
    Streamed size messageType sent buf (head ++ chunks.flatMap plpChunk) p.2

/-- Twice the data that is left; a flush counts one. -/
def chunksLeft (data : List UInt8) (p : Nat × SendState) : Nat :=
  2 * (data.length - p.1) + if getAvailableBufferSize p.2 < 1 + 4 then 1 else 0

section

variable {head : List UInt8} {p : Nat × SendState} (h : ChunksPut size type sent buf head data p)
include h

theorem ChunksPut.putChunk (hsize : packetHeaderSize < size)
    (hfuel : data.length + 4 < fuel) {len : Nat} (hpos : 0 < len) (hlen : len ≤ plpChunckLen)
    (hleft : p.1 + len ≤ data.length) (Q : SendState → Prop) :
    Gives (putChunk fuel data p.1 len p.2) (Iter.Progress
      (ChunksPut size type sent buf head data) (chunksLeft data) Q p) := by
  obtain ⟨chunks, hchunks, hne, hle, hs⟩ := h
  have hslice : (slice data p.1 (p.1 + len)).length = len := by
    rw [length_slice hleft]
    omega
  refine .bind (hs.internalPutbytes hsize _ (by rw [length_leBytes]; omega)) fun t ht => ?_
  refine .bind (ht.internalPutbytes hsize _ (by omega)) fun u hu => .ok ⟨?_, ?_⟩
  · refine ⟨chunks ++ [slice data p.1 (p.1 + len)], ?_, ?_, hleft, ?_⟩
    · rw [flatten_append, hchunks, flatten_singleton, slice, take_add,
        drop_left' (by rw [length_take]; omega)]
    · exact forall_mem_append.mpr ⟨hne,
        forall_mem_singleton.mpr ⟨length_pos_iff.mp (by omega), by omega⟩⟩
    · simpa [plpChunk, hslice] using hu
  · simp only [chunksLeft]
    split <;> split <;> omega

/-- **One iteration** sends a chunk, or makes room for one. -/
theorem ChunksPut.sendChunk (hsize : packetHeaderSize + 5 ≤ size) (hfuel : data.length + 4 < fuel) :
    Gives (sendChunk fuel data p) (Iter.Progress
      (ChunksPut size type sent buf head data) (chunksLeft data)
      (fun s => ChunksPut size type sent buf head data (data.length, s)) p) := by
  have hle : p.1 ≤ data.length := h.choose_spec.2.2.1
  have hroom : packetHeaderSize < size := by omega
  unfold Tds.sendChunk
  dsimp only
  split_ifs with hzero hfit hfull
  · have hend : p.1 = data.length := by
      have : plpChunckLen = 32000 := rfl
      omega
    exact .ok (hend ▸ h)
  · obtain ⟨chunks, hchunks, hne, -, hs⟩ := h
    refine .bind hs.flushBuffer fun t ht => .ok ⟨⟨chunks, hchunks, hne, hle, ht.1⟩, ?_⟩
    have hempty : ¬ getAvailableBufferSize t < 1 + 4 := by
      rw [getAvailableBufferSize, ht.1.bufferSize, ht.2]
      omega
    simp only [chunksLeft, if_pos hfull, if_neg hempty]
    omega
  all_goals exact h.putChunk hroom hfuel (by omega) (by omega) (by omega) _

end

/-- **What `TdsSendPlpDataHelper` emits**: the value in chunks that are not empty. -/
theorem Sending.tdsSendPlpDataHelper (h : Sending size type sent buf s)
    (hsize : packetHeaderSize + 5 ≤ size) (data : List UInt8) (hfuel : 2 * data.length + 8 < fuel) :
    Gives (tdsSendPlpDataHelper fuel data s) fun t => ∃ chunks : List (List UInt8),
      chunks.flatten = data ∧ (∀ c ∈ chunks, c ≠ [] ∧ c.length ≤ plpChunckLen) ∧
      Streamed size type sent buf (plpBytes chunks) t := by
  have hroom : packetHeaderSize < size := by omega
  refine .bind (h.streamed.internalPutbytes hroom _ (by rw [length_leBytes]; omega))
    fun t ht => ?_
  refine Gives.bind (Gives.loop (chunksLeft data)
    (fun p hp => ChunksPut.sendChunk hp hsize (by omega)) fuel (0, t)
    ⟨[], rfl, by simp, Nat.zero_le _, by simpa using ht⟩ ?_) ?_
  · simp only [chunksLeft]
    split <;> omega
  rintro u ⟨chunks, hchunks, hne, -, hu⟩
  refine (hu.internalPutbytes hroom _ (by rw [length_leBytes]; omega)).mono
    fun v hv => ⟨chunks, ?_, hne, ?_⟩
  · rw [hchunks, take_length]
  · rwa [plpBytes, hchunks, take_length, ← append_assoc]

end

/-! ### What the reader returns -/

/-- **From offset `n` the parser returns `a` and stands at offset `m`.** -/
def Reads {α : Type} (n : Nat) (p : Parse α) (a : α) (m : Nat) : Prop :=
  Triple (fun c => c.offset = n) p (fun b c => b = a ∧ c.offset = m) (fun _ _ => False)

namespace Reads

variable {α β : Type} {n m k : Nat} {p : Parse α} {f : α → Parse β} {a : α} {b : β}

theorem pure (a : α) (n : Nat) : Reads n (Pure.pure a) a n := Triple.pure fun _ hc => ⟨rfl, hc⟩

theorem bind (hp : Reads n p a m) (hf : Reads m (f a) b k) : Reads n (p >>= f) b k := by
  refine Triple.bind hp fun a' => Triple.assume (fun _ h => h.1) ?_
  rintro rfl
  exact hf.pre fun _ h => h.2

theorem get {f : Cursor → Parse β} (h : ∀ c, c.offset = n → Reads n (f c) b k) :
    Reads n (MonadState.get >>= f) b k := by
  refine Triple.get fun c hc => (h c hc).pre ?_
  rintro _ rfl
  exact hc

theorem run (h : Reads n p a m) {c : Cursor} (hc : c.offset = n) :
    ∃ d, p c = .ok a d ∧ d.offset = m := by
  rcases Triple.run h hc with ⟨a', d, hrun, rfl, hd⟩ | ⟨_, _, -, hfalse⟩
  · exact ⟨d, hrun, hd⟩
  · exact hfalse.elim

end Reads

section

variable {msg bytes : List UInt8} {n : Nat} (hmsg : msg.length < 2 ^ 63)

include hmsg in
theorem exceeds_reads {size : Nat} (hin : n + size ≤ msg.length) :
    Reads n (exceeds msg size) false n := by
  rintro c rfl
  refine ⟨?_, rfl⟩
  rw [Nat.mod_eq_of_lt (by omega)]
  simpa using hin

theorem copyAt_reads {m : Nat} (h : OccursAt msg m bytes) :
    Reads n (copyAt msg m bytes.length) bytes n := by
  have hin : 0 ≤ (bytes.length : Int) ∧ (m : Int) + bytes.length ≤ msg.length := by
    have := h.le
    omega
  rw [copyAt, if_pos hin, Int.toNat_natCast, h.slice_eq]
  exact .pure _ _

theorem advance_reads {k : Nat} (hin : n + k < 2 ^ 63) : Reads n (advance k) () (n + k) := by
  rintro c rfl
  refine ⟨rfl, ?_⟩
  show toUInt64 (c.offset + k) = c.offset + k
  unfold toUInt64
  omega

include hmsg in
theorem fetch_reads {k : Nat} (h : OccursAt msg n bytes) (hk : bytes.length = k) :
    Reads n (fetch msg k) bytes (n + k) := by
  have hle := h.le
  subst hk
  refine .get fun c hc => ?_
  rw [hc]
  refine .bind (copyAt_reads h) ?_
  exact .bind (advance_reads (by omega)) (.pure _ _)

/-- The index that `ReadPlp` makes of the chunks that start at offset `n`. -/
def chunkIndex : Nat → List (List UInt8) → List PlpData
  | _, [] => []
  | n, chunk :: chunks => ⟨n + 4, chunk.length⟩ :: chunkIndex (n + (plpChunk chunk).length) chunks

theorem length_plpChunk (chunk : List UInt8) : (plpChunk chunk).length = 4 + chunk.length := by
  simp [plpChunk]

variable (chunks : List (List UInt8))

theorem chunkIndex_sum :
    ((chunkIndex n chunks).map PlpData.len).sum = chunks.flatten.length := by
  induction chunks generalizing n with
  | nil => rfl
  | cons chunk chunks ih => simp [chunkIndex, ih]

theorem length_le_flatMap : ∀ chunks : List (List UInt8),
    chunks.length ≤ (chunks.flatMap plpChunk).length :=
  length_le_length_flatMap fun chunk => by rw [length_plpChunk]; omega

theorem length_flatten_le_flatMap : ∀ chunks : List (List UInt8),
    chunks.flatten.length ≤ (chunks.flatMap plpChunk).length := by
  intro chunks
  rw [← flatMap_id]
  exact length_flatMap_mono (fun chunk => by rw [length_plpChunk]; exact Nat.le_add_left _ _) chunks

include hmsg in
/-- **The first pass**: the chunks are indexed up to the terminator. -/
theorem readPlpChunks_reads {fuel : Nat}
    (hfuel : chunks.length < fuel) (hchunks : ∀ c ∈ chunks, c ≠ [] ∧ c.length < 2 ^ 32)
    (h : OccursAt msg n (chunks.flatMap plpChunk ++ leBytes 4 plpTerminator)) :
    Reads n (readPlpChunks msg fuel) (some (chunkIndex n chunks))
      (n + ((chunks.flatMap plpChunk).length + 4)) := by
  induction chunks generalizing fuel n with
  | nil =>
    obtain ⟨fuel, rfl⟩ : ∃ m, fuel = m + 1 := ⟨fuel - 1, by omega⟩
    rw [flatMap_nil, nil_append] at h
    have hle := h.le
    refine .bind (exceeds_reads hmsg hle) ?_
    refine .bind (fetch_reads hmsg h (length_leBytes 4 _)) ?_
    exact .pure _ _
  | cons chunk chunks ih =>
    obtain ⟨fuel, rfl⟩ : ∃ m, fuel = m + 1 := ⟨fuel - 1, by omega⟩
    obtain ⟨hne, hlen⟩ := hchunks chunk mem_cons_self
    have hpos : 0 < chunk.length := length_pos_iff.mpr hne
    rw [flatMap_cons, append_assoc] at h
    have hhead : OccursAt msg n (leBytes 4 chunk.length ++ chunk) := h.left
    have hfirst := hhead.left
    have hle := hhead.le
    rw [length_append, length_leBytes] at hle
    refine .bind (exceeds_reads hmsg (by omega)) ?_
    refine .bind (fetch_reads hmsg hfirst (length_leBytes 4 _)) ?_
    have hval : leNat (leBytes 4 chunk.length) = chunk.length := by
      rw [leNat_leBytes]
      omega
    have hterm : ¬ leNat (leBytes 4 chunk.length) = plpTerminator := by
      rw [hval]
      exact Nat.ne_of_gt hpos
    rw [if_neg hterm, hval]
    refine .get fun c hc => ?_
    refine .bind (exceeds_reads hmsg (by omega)) ?_
    refine .bind (advance_reads (by omega)) ?_
    have hrest := ih (n := n + (plpChunk chunk).length)
      (by rwa [length_cons, Nat.add_lt_add_iff_right] at hfuel)
      (forall_mem_cons.mp hchunks).2 h.right
    rw [length_plpChunk, ← Nat.add_assoc] at hrest
    refine .bind hrest ?_
    rw [hc, Option.map_some, flatMap_cons, length_append, chunkIndex, length_plpChunk]
    have hend : n + 4 + chunk.length + ((chunks.flatMap plpChunk).length + 4) =
        n + (4 + chunk.length + (chunks.flatMap plpChunk).length + 4) := by omega
    rw [hend, ← Nat.add_assoc n 4 chunk.length]
    exact .pure _ _

include hmsg in
/-- **`ReadPlp`** on a value that was sent. -/
theorem readPlp_reads {chunks : List (List UInt8)} {fuel : Nat} (hfuel : chunks.length < fuel)
    (hchunks : ∀ c ∈ chunks, c ≠ [] ∧ c.length < 2 ^ 32) (h : OccursAt msg n (plpBytes chunks)) :
    Reads n (readPlp msg fuel) (some ⟨false, chunkIndex (n + 8) chunks⟩)
      (n + (plpBytes chunks).length) := by
  have hle := h.le
  have hlen := length_flatten_le_flatMap chunks
  simp only [plpBytes, length_append, length_leBytes] at hle
  have hval : leNat (leBytes 8 chunks.flatten.length) = chunks.flatten.length := by
    rw [leNat_leBytes]
    omega
  refine .bind (exceeds_reads hmsg (by omega)) ?_
  refine .bind (fetch_reads hmsg h.left (length_leBytes 8 _)) ?_
  rw [hval, if_neg (by unfold plpNull; omega)]
  have hright := h.right
  refine .bind (readPlpChunks_reads hmsg chunks hfuel hchunks hright) ?_
  dsimp only
  rw [chunkIndex_sum, Nat.mod_eq_of_lt (by omega), if_neg (by simp)]
  have hend : n + 8 + ((chunks.flatMap plpChunk).length + 4) = n + (plpBytes chunks).length := by
    simp only [plpBytes, length_append, length_leBytes]
    omega
  rw [hend]
  exact .pure _ _

/-- **The second pass**: the indexed chunks are collected. -/
theorem collect_reads {m : Nat} (h : OccursAt msg n (chunks.flatMap plpChunk)) :
    Reads m (tdsGetPlpStringInfoBufferFromToken msg (chunkIndex n chunks)) chunks.flatten m := by
  induction chunks generalizing n with
  | nil => exact Reads.pure _ _
  | cons chunk chunks ih =>
    have hhead : OccursAt msg n (leBytes 4 chunk.length ++ chunk) := h.left
    have hchunk := hhead.right
    refine .bind (copyAt_reads hchunk) ?_
    exact .bind (ih h.right) (.pure _ _)

end

/-! ### The round trip -/

/-- Wherever the chunks stand in a message, the reader returns the value and stands just behind the
terminator. -/
def PlpReadBack (chunks : List (List UInt8)) (data : List UInt8) : Prop :=
  ∀ (msg : List UInt8) (n fuel : Nat) (c : Cursor), msg.length < 2 ^ 63 → msg.length < fuel →
    OccursAt msg n (plpBytes chunks) → c.offset = n →
    ∃ v d e, readPlp msg fuel c = .ok (some v) d ∧ v.isNull = false ∧
      d.offset = n + (plpBytes chunks).length ∧
      tdsGetPlpStringInfoBufferFromToken msg v.plp d = .ok data e

/-- **A PLP value is read back.**  The send buffer has at least 13 bytes and is filled up to any
point.  The value goes out in chunks that are not empty. -/
theorem tdsSendPlpDataHelper_roundTrip (s : SendState) (hsize : 13 ≤ s.sendBuffer.length)
    (hstart : s.sendStart = 0) (hlow : packetHeaderSize ≤ s.sendCur)
    (hhigh : s.sendCur ≤ s.sendBuffer.length) (hblocking : ∀ e ∈ s.socket, e.Blocking)
    (data : List UInt8) (fuel : Nat) (hfuel : 2 * data.length + 8 < fuel) :
    ∃ (t : SendState) (packets chunks : List (List UInt8)) (buf : List UInt8),
      tdsSendPlpDataHelper fuel data s = .ok t ∧
      Sending s.sendBuffer.length s.sendMessageType
        (s.sent ++ packets.flatMap (frame s.sendMessageType 0x00)) buf t ∧
      packets.flatten ++ buf = slice s.sendBuffer packetHeaderSize s.sendCur ++ plpBytes chunks ∧
      (∀ c ∈ chunks, c ≠ []) ∧ chunks.flatten = data ∧ PlpReadBack chunks data := by
  have hs : Sending s.sendBuffer.length s.sendMessageType s.sent
      (slice s.sendBuffer packetHeaderSize s.sendCur) s :=
    ⟨rfl, hstart, by rw [length_slice hhigh]; omega, hhigh, rfl, rfl, rfl, hblocking⟩
  obtain ⟨t, hsend, chunks, hdata, hne, packets, buf, ht, hall⟩ :=
    hs.tdsSendPlpDataHelper hsize data hfuel
  refine ⟨t, packets, chunks, buf, hsend, ht, hall, fun c hc => (hne c hc).1, hdata, ?_⟩
  intro msg n fuel' c hmsg hfuel' hocc hc
  have hcount := length_le_flatMap chunks
  have hle := hocc.le
  simp only [plpBytes, length_append, length_leBytes] at hle
  have hsmall : ∀ c ∈ chunks, c ≠ [] ∧ c.length < 2 ^ 32 := fun c hc =>
    ⟨(hne c hc).1, Nat.lt_of_le_of_lt (hne c hc).2 (by decide)⟩
  obtain ⟨d, hread, hd⟩ :=
    (readPlp_reads hmsg (show chunks.length < fuel' by omega) hsmall hocc).run hc
  have hchunks := hocc.right.left
  obtain ⟨e, hcollect, -⟩ := (collect_reads chunks hchunks).run (m := d.offset) rfl
  exact ⟨_, d, e, hread, rfl, hd, hdata ▸ hcollect⟩

def smallWriter : SendState := ⟨List.replicate 13 0, 0, 9, 4, [.eintr, .wrote 0], []⟩

theorem tdsSendPlpDataHelper_roundTrip_smallWriter :
    ∃ (t : SendState) (packets chunks : List (List UInt8)) (buf : List UInt8),
      tdsSendPlpDataHelper 13 [65, 66] smallWriter = .ok t ∧
      Sending 13 4 ([] ++ packets.flatMap (frame 4 0x00)) buf t ∧
      packets.flatten ++ buf = slice smallWriter.sendBuffer packetHeaderSize 9 ++ plpBytes chunks ∧
      (∀ c ∈ chunks, c ≠ []) ∧ chunks.flatten = [65, 66] ∧ PlpReadBack chunks [65, 66] :=
  tdsSendPlpDataHelper_roundTrip smallWriter (by decide) rfl (by decide) (by decide)
    (by simp [smallWriter, WriteEvent.Blocking]) [65, 66] 13 (by decide)

end Babelfish.Tds
