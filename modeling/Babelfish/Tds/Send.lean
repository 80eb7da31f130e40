import Babelfish.Tds.Requests

/-!
# The TDS writer

The sending half of `tdscomm.c`.  Bytes are collected in the send buffer behind eight bytes for
the header; the header is filled in when the buffer is flushed.

* `Sending.internalFlush`: a flush emits the packet in the buffer, however the socket takes it.
* `Sending.internalPutbytes`: putting bytes emits full packets and keeps the rest in the buffer.
* `sendMessage_frames`: a message is emitted as full packets and a last one.
* `sendMessage_roundTrip`: with a buffer whose size fits the length field of the header, these are
  the packets of a message, and the reader returns it.
-/

namespace Babelfish.Tds

open Lib List Packet

/-! ### The socket -/

/-- What a call of `tds_secure_write` does: accept some of the bytes (at least one), get
interrupted, find that it would block, or fail. -/
inductive WriteEvent where
  | wrote (n : Nat)
  | eintr
  | wouldBlock
  | fail
deriving Repr, DecidableEq

/-- A write that a blocking socket can make. -/
def WriteEvent.Blocking : WriteEvent → Prop
  | .wrote _ => True
  | .eintr => True
  | .wouldBlock => False
  | .fail => False

/-- The variables of the writer; `socket` holds what the coming writes do (a write beyond the list
accepts everything) and `sent` the bytes accepted so far. -/
structure SendState where
  sendBuffer : List UInt8
  sendStart : Nat
  sendCur : Nat
  sendMessageType : UInt8
  socket : List WriteEvent
  sent : List UInt8
deriving Repr, DecidableEq

/-- `TdsCommInit` and `TdsCommReset` for the writer. -/
def sendInit (buffer : List UInt8) (socket : List WriteEvent) : SendState where
  sendBuffer := buffer
  sendStart := 0
  sendCur := packetHeaderSize
  sendMessageType := 0
  socket := socket
  sent := []

/-! ### Flushing -/

def tdsFillHeader (lastPacket : Bool) (s : SendState) : SendState :=
  let header := [s.sendMessageType, if lastPacket then 0x01 else 0x00] ++
    beBytes 2 (s.sendCur - s.sendStart) ++ [0, 0, 0, 0]
  { s with sendBuffer := overwrite s.sendBuffer 0 header }

variable (s : SendState)

def SendState.accept (n : Nat) : SendState :=
  { s with
    sent := s.sent ++ slice s.sendBuffer s.sendStart (s.sendStart + n)
    sendStart := s.sendStart + n }

def SendState.rewind : SendState :=
  { s with sendStart := 0, sendCur := packetHeaderSize }

/-- The loop of `InternalFlush`, over what the writes do. -/
def flushLoop : List WriteEvent → SendState → Outcome Stop SendState
  | [], s => .ok { (s.accept (s.sendCur - s.sendStart)).rewind with socket := [] }
  | e :: events, s =>
    if s.sendStart < s.sendCur then
      match e with
      | .wrote n => flushLoop events (s.accept (min (n + 1) (s.sendCur - s.sendStart)))
      | .eintr => flushLoop events s
      | .wouldBlock => .ok { s with socket := events }
      | .fail => .error .eof
    else .ok { s.rewind with socket := e :: events }

def internalFlush (lastPacket : Bool) (s : SendState) : Outcome Stop SendState :=
  let s := if s.sendStart = 0 then tdsFillHeader lastPacket s else s
  let s := if lastPacket then { s with sendMessageType := 0 } else s
  flushLoop s.socket s

def flushBuffer : Outcome Stop SendState := internalFlush false s

def getAvailableBufferSize : Nat := s.sendBuffer.length - s.sendCur

/-! ### Writing -/

/-- Copy as many of the bytes as there is room for. -/
def copySome (bytes : List UInt8) (s : SendState) : List UInt8 × SendState :=
  let amount := min (s.sendBuffer.length - s.sendCur) bytes.length
  (bytes.drop amount, { s with
    sendBuffer := overwrite s.sendBuffer s.sendCur (bytes.take amount)
    sendCur := s.sendCur + amount })

/-- One iteration of the loop of `InternalPutbytes`. -/
def putSome (p : List UInt8 × SendState) : Outcome Stop (List UInt8 × SendState) := do
  let s ← (if p.2.sendBuffer.length ≤ p.2.sendCur then internalFlush false p.2 else pure p.2)
  pure (copySome p.1 s)

def internalPutbytes (fuel : Nat) (bytes : List UInt8) (s : SendState) :
    Outcome Stop SendState := do
  let p ← whileLoop (fun p => !p.1.isEmpty) putSome fuel (bytes, s)
  pure p.2

def tdsSetMessageType (messageType : UInt8) (s : SendState) : SendState :=
  { s with sendMessageType := messageType }

def tdsFlush : Outcome Stop SendState := internalFlush true s

def putPieces (fuel : Nat) : List (List UInt8) → SendState → Outcome Stop SendState
  | [], s => .ok s
  | piece :: pieces, s => do
    let s ← internalPutbytes fuel piece s
    putPieces fuel pieces s

/-- A whole message: its type, its pieces and the final flush. -/
def sendMessage (fuel : Nat) (messageType : UInt8) (pieces : List (List UInt8)) (s : SendState) :
    Outcome Stop SendState := do
  let s ← putPieces fuel pieces (tdsSetMessageType messageType s)
  tdsFlush s

/-! ### What a flush emits -/

/-- The bytes of one packet as the writer lays them out.  The length field has two bytes. -/
def frame (messageType status : UInt8) (payload : List UInt8) : List UInt8 :=
  [messageType, status] ++ beBytes 2 (payload.length + packetHeaderSize) ++ [0, 0, 0, 0] ++ payload

theorem frame_eq_bytes (type status : UInt8) (payload : List UInt8)
    (h : payload.length + packetHeaderSize < 256 ^ 2) :
    frame type status payload = (plainPacket type status payload h).bytes := rfl

theorem flushLoop_spec (events : List WriteEvent) (s : SendState) (hev : ∀ e ∈ events, e.Blocking)
    (hle : s.sendStart ≤ s.sendCur) (hcur : s.sendCur ≤ s.sendBuffer.length) :
    Gives (flushLoop events s) fun t =>
      t = { s.rewind with
        sent := s.sent ++ slice s.sendBuffer s.sendStart s.sendCur, socket := t.socket } ∧
      ∀ e ∈ t.socket, e.Blocking := by
  induction events generalizing s with
  | nil =>
    refine .ok ⟨?_, by simp⟩
    simp [SendState.accept, SendState.rewind, Nat.add_sub_cancel' hle]
  | cons e events ih =>
    have hrest : ∀ e ∈ events, e.Blocking := (forall_mem_cons.mp hev).2
    by_cases hlt : s.sendStart < s.sendCur
    · have he := hev e mem_cons_self
      cases e with
      | wrote n =>
        simp only [flushLoop, if_pos hlt]
        generalize hk : min (n + 1) (s.sendCur - s.sendStart) = k
        refine (ih (s.accept k) hrest (show s.sendStart + k ≤ s.sendCur by omega) hcur).mono ?_
        rintro t ⟨ht, hsock⟩
        refine ⟨?_, hsock⟩
        rw [ht]
        simp only [SendState.accept, SendState.rewind, append_assoc]
        rw [slice_append_slice (by omega) (by omega) hcur]
      | eintr =>
        simp only [flushLoop, if_pos hlt]
        exact ih s hrest hle hcur
      | wouldBlock | fail => exact absurd he id
    · obtain heq : s.sendStart = s.sendCur := by omega
      simp only [flushLoop, if_neg hlt]
      refine .ok ⟨?_, hev⟩
      simp [SendState.rewind, heq]

/-- **The state of the writer between two calls**: `sent` has gone out and the bytes `buf` wait in
the buffer behind the room for the header. -/
structure Sending (size : Nat) (messageType : UInt8) (sent buf : List UInt8) (s : SendState) :
    Prop where
  bufferSize : s.sendBuffer.length = size
  atStart : s.sendStart = 0
  cur : s.sendCur = packetHeaderSize + buf.length
  fits : s.sendCur ≤ size
  waiting : slice s.sendBuffer packetHeaderSize s.sendCur = buf
  type : s.sendMessageType = messageType
  out : s.sent = sent
  blocking : ∀ e ∈ s.socket, e.Blocking

theorem sendInit_sending (buffer : List UInt8) (socket : List WriteEvent)
    (hsize : packetHeaderSize ≤ buffer.length) (hblocking : ∀ e ∈ socket, e.Blocking) :
    Sending buffer.length 0 [] [] (sendInit buffer socket) :=
  ⟨rfl, rfl, rfl, hsize, slice_self _ _, rfl, rfl, hblocking⟩

variable {s : SendState} {size : Nat}

theorem flushLoop_sending (hsize : s.sendBuffer.length = size) (hstart : s.sendStart = 0)
    (hcur : s.sendCur ≤ size) (hroom : packetHeaderSize ≤ size)
    (hblocking : ∀ e ∈ s.socket, e.Blocking) :
    Gives (flushLoop s.socket s) (Sending size s.sendMessageType
      (s.sent ++ slice s.sendBuffer 0 s.sendCur) []) := by
  refine (flushLoop_spec s.socket s hblocking (by omega) (by omega)).mono ?_
  rintro t ⟨ht, hsock⟩
  rw [hstart] at ht
  rw [ht]
  exact ⟨hsize, rfl, rfl, hroom, slice_self _ _, rfl, rfl, hsock⟩

variable {type : UInt8} {sent buf : List UInt8} {fuel : Nat} {bytes : List UInt8}

/-- **A flush emits the packet in the buffer**, in whatever pieces the socket takes it. -/
theorem Sending.internalFlush (h : Sending size type sent buf s) (lastPacket : Bool) :
    Gives (internalFlush lastPacket s) (Sending size (if lastPacket then 0 else type)
      (sent ++ frame type (if lastPacket then 0x01 else 0x00) buf) []) := by
  have hcur := h.cur
  have hfits := h.fits
  have hsize := h.bufferSize
  generalize hheader : [type, if lastPacket then 0x01 else 0x00] ++
    beBytes 2 (s.sendCur - s.sendStart) ++ [0, 0, 0, 0] = header
  have hlen : header.length = packetHeaderSize := by rw [← hheader]; simp [packetHeaderSize]
  have hbuffer : (overwrite s.sendBuffer 0 header).length = size := by
    rw [length_overwrite (by omega), hsize]
  have hdata : slice (overwrite s.sendBuffer 0 header) 0 s.sendCur = header ++ buf := by
    have hafter := slice_overwrite_after s.sendBuffer header 0 s.sendCur (by omega)
    rw [← slice_append_slice (Nat.zero_le header.length) (by omega) (by omega),
      slice_overwrite_zero (by omega)]
    rw [zero_add, hlen, h.waiting] at hafter
    rw [hlen, hafter]
  have hframe : header ++ buf = frame type (if lastPacket then 0x01 else 0x00) buf := by
    rw [← hheader, h.atStart, hcur, Nat.sub_zero, add_comm]
    rfl
  have hfill : tdsFillHeader lastPacket s =
      { s with sendBuffer := overwrite s.sendBuffer 0 header } := by
    rw [← hheader, ← h.type]
    rfl
  unfold Tds.internalFlush
  rw [if_pos h.atStart, hfill, ← hframe, ← hdata, ← h.out, ← h.type]
  cases lastPacket with
  | false | true => exact flushLoop_sending hbuffer h.atStart hfits (by omega) h.blocking

/-! ### What putting bytes emits -/

theorem Sending.copySome (h : Sending size type sent buf s) (hroom : s.sendCur < size)
    (hne : bytes ≠ []) :
    ∃ n, 0 < n ∧ (copySome bytes s).1 = bytes.drop n ∧ bytes.take n ≠ [] ∧
      Sending size type sent (buf ++ bytes.take n) (copySome bytes s).2 := by
  have hcur := h.cur
  have hsize := h.bufferSize
  have hpos : 0 < bytes.length := length_pos_iff.mpr hne
  unfold Tds.copySome
  generalize hn : min (s.sendBuffer.length - s.sendCur) bytes.length = n
  have hlen : (bytes.take n).length = n := by rw [length_take]; omega
  have hfit : s.sendCur + (bytes.take n).length ≤ s.sendBuffer.length := by omega
  refine ⟨n, by omega, rfl, length_pos_iff.mp (by omega), ?_⟩
  exact {
    bufferSize := by rw [length_overwrite hfit, hsize]
    atStart := h.atStart
    cur := by rw [length_append, hlen, ← add_assoc, ← hcur]
    fits := show s.sendCur + n ≤ size by omega
    waiting := by
      have hslice := slice_overwrite (show packetHeaderSize ≤ s.sendCur by omega) hfit
      rwa [h.waiting, hlen] at hslice
    type := h.type
    out := h.out
    blocking := h.blocking }

/-- **What putting `bytes` does** when `buf` waits: full packets go out, and the rest waits; a
packet goes out only when there is more to come. -/
def Emitted (size : Nat) (messageType : UInt8) (sent buf bytes : List UInt8) (s : SendState) :
    Prop :=
  ∃ (chunks : List (List UInt8)) (buf' : List UInt8),
    Sending size messageType (sent ++ chunks.flatMap (frame messageType 0x00)) buf' s ∧
    (∀ c ∈ chunks, c.length + packetHeaderSize = size) ∧ chunks.flatten ++ buf' = buf ++ bytes ∧
    (buf' = [] → chunks = [])

theorem Sending.emitted (h : Sending size type sent buf s) : Emitted size type sent buf [] s :=
  ⟨[], buf, by simpa using h, by simp, by simp, by simp⟩

theorem Emitted.trans (h : Emitted size type sent buf bytes s) :
    ∃ sent' buf', Sending size type sent' buf' s ∧
      ∀ (more : List UInt8) (t : SendState), Emitted size type sent' buf' more t →
        Emitted size type sent buf (bytes ++ more) t := by
  obtain ⟨chunks, buf₁, hs, hfull, hall, hne⟩ := h
  refine ⟨_, buf₁, hs, ?_⟩
  rintro more t ⟨chunks', buf₂, ht, hfull', hall', hne'⟩
  refine ⟨chunks ++ chunks', buf₂, ?_, ?_, ?_, ?_⟩
  · rwa [flatMap_append, ← append_assoc]
  · exact forall_mem_append.mpr ⟨hfull, hfull'⟩
  · rw [flatten_append, append_assoc, hall', ← append_assoc, hall, append_assoc]
  · intro hnil
    have hchunks' := hne' hnil
    rw [hnil, hchunks', flatten_nil, nil_append] at hall'
    rw [hne (append_eq_nil_iff.mp hall'.symm).1, hchunks', append_nil]

section

variable (h : Sending size type sent buf s) (hsize : packetHeaderSize < size)
include h hsize

theorem Sending.putSome (hne : bytes ≠ []) :
    Gives (putSome (bytes, s)) fun p => ∃ n, 0 < n ∧ p.1 = bytes.drop n ∧
      Emitted size type sent buf (bytes.take n) p.2 := by
  have hcur := h.cur
  have hfits := h.fits
  unfold Tds.putSome
  dsimp only
  split_ifs with hfull
  · refine .bind (h.internalFlush false) fun t ht => ?_
    have hcur' : t.sendCur = packetHeaderSize := ht.cur
    obtain ⟨n, hn, hrest, htake, hnext⟩ := ht.copySome (by omega) hne
    refine .ok ⟨n, hn, hrest, [buf], bytes.take n, ?_, ?_, by simp,
      fun hnil => absurd hnil htake⟩
    · simpa using hnext
    · have hlen := h.bufferSize
      simp only [mem_singleton]
      rintro c rfl
      omega
  · have hlen := h.bufferSize
    obtain ⟨n, hn, hrest, htake, hnext⟩ := h.copySome (by omega) hne
    refine .ok ⟨n, hn, hrest, [], buf ++ bytes.take n, ?_, by simp, by simp, fun _ => rfl⟩
    simpa using hnext

/-- **`InternalPutbytes`** emits full packets and keeps the rest. -/
theorem Sending.internalPutbytes (bytes : List UInt8) (hfuel : bytes.length < fuel) :
    Gives (internalPutbytes fuel bytes s) (Emitted size type sent buf bytes) := by
  -- what has been put and what is left make up the bytes
  refine .bind (.while (I := fun p => ∃ done, done ++ p.1 = bytes ∧
    Emitted size type sent buf done p.2) (fun p => p.1.length) ?_
    ⟨[], rfl, h.emitted⟩ hfuel) ?_
  · rintro ⟨todo, t⟩ ⟨done, hall, ht⟩ hcond
    have hne : todo ≠ [] := by simpa using hcond
    obtain ⟨sent', buf', hs, htrans⟩ := ht.trans
    refine (hs.putSome hsize hne).mono ?_
    rintro ⟨todo', t'⟩ ⟨n, hn, rfl, hput⟩
    refine ⟨⟨done ++ todo.take n, ?_, htrans _ _ hput⟩, ?_⟩
    · rw [append_assoc, take_append_drop, hall]
    · have hpos : 0 < todo.length := length_pos_iff.mpr hne
      show (todo.drop n).length < todo.length
      rw [length_drop]
      omega
  · rintro ⟨todo, t⟩ ⟨⟨done, hall, ht⟩, hcond⟩
    have hnil : todo = [] := by simpa using hcond
    subst hnil
    rw [← hall, append_nil]
    exact .ok ht

end

theorem Sending.putPieces (hsize : packetHeaderSize < size) (pieces : List (List UInt8))
    {sent buf : List UInt8} {s : SendState} (h : Sending size type sent buf s)
    (hfuel : ∀ piece ∈ pieces, piece.length < fuel) :
    Gives (putPieces fuel pieces s) (Emitted size type sent buf pieces.flatten) := by
  induction pieces generalizing sent buf s with
  | nil => exact Gives.ok h.emitted
  | cons piece pieces ih =>
    refine .bind (h.internalPutbytes hsize piece (hfuel piece (by simp))) fun t ht => ?_
    obtain ⟨sent', buf', hs, htrans⟩ := ht.trans
    exact (ih hs (forall_mem_cons.mp hfuel).2).mono fun u hu => htrans _ _ hu

/-! ### Whole messages -/

/-- **What the writer emits for a message**, for every size of the buffer: full packets with status
0 and a last packet with the end-of-message bit, which is empty only when the message is. -/
theorem sendMessage_frames (h : Sending size type sent [] s) (hsize : packetHeaderSize < size)
    (pieces : List (List UInt8)) (hfuel : ∀ piece ∈ pieces, piece.length < fuel) (newType : UInt8) :
    Gives (sendMessage fuel newType pieces s) fun t =>
      ∃ (chunks : List (List UInt8)) (buf : List UInt8),
        Sending size 0
          (sent ++ chunks.flatMap (frame newType 0x00) ++ frame newType 0x01 buf) [] t ∧
        (∀ c ∈ chunks, c.length + packetHeaderSize = size) ∧
        buf.length + packetHeaderSize ≤ size ∧ chunks.flatten ++ buf = pieces.flatten ∧
        (buf = [] → chunks = []) := by
  have hstart : Sending size newType sent [] (tdsSetMessageType newType s) :=
    ⟨h.bufferSize, h.atStart, h.cur, h.fits, h.waiting, rfl, h.out, h.blocking⟩
  refine .bind (Sending.putPieces hsize pieces hstart hfuel) ?_
  rintro t ⟨chunks, buf, ht, hfull, hall, hne⟩
  refine (ht.internalFlush true).mono fun u hu => ⟨chunks, buf, hu, hfull, ?_, hall, hne⟩
  have hcur := ht.cur
  have hfits := ht.fits
  omega

theorem exists_packets (type status : UInt8) (chunks : List (List UInt8))
    (h : ∀ c ∈ chunks, c.length + packetHeaderSize < 256 ^ 2) :
    ∃ ps : List Packet, wire ps = chunks.flatMap (frame type status) ∧
      ps.map payload = chunks ∧
      ∀ p ∈ ps, p.messageType = type ∧ p.status = status := by
  induction chunks with
  | nil => exact ⟨[], rfl, rfl, by simp⟩
  | cons c chunks ih =>
    obtain ⟨hc, hchunks⟩ := forall_mem_cons.mp h
    obtain ⟨ps, hwire, hpayload, hps⟩ := ih hchunks
    refine ⟨plainPacket type status c hc :: ps, ?_, ?_, ?_⟩
    · rw [wire_cons, hwire, flatMap_cons, frame_eq_bytes type status c hc]
    · rw [map_cons, hpayload]
      rfl
    · exact forall_mem_cons.mpr ⟨⟨rfl, rfl⟩, hps⟩

theorem readNextRequest_message {m : Message} (hbulk : m.messageType ≠ bulkLoad)
    {buffer : List UInt8} (hpackets : ∀ p ∈ m.packets, p.payload ≠ [] ∧ p.size ≤ buffer.length)
    {socket : List ReadEvent} (hstream : delivered socket = wire m.packets)
    (hfail : ReadEvent.fail ∉ socket) (hfuel : (delivered socket).length < fuel) :
    ∃ r, tdsReadNextRequest fuel (tdsCommInit buffer socket) =
        .ok (⟨m.messageType, m.first.status, m.packets.flatMap payload⟩, r) ∧
      r.pending = [] := by
  have hcomplete : Complete m.packets :=
    complete_concat (by simp [endsRequest, m.last_eom])
  have hrequests : requests m.packets =
      [⟨m.messageType, m.first.status, m.packets.flatMap payload⟩] := by
    have happend := requests_append_message m []
    rw [append_nil, Message.requests, if_neg hbulk] at happend
    rw [happend, m.sameType m.first (head_mem _)]
    rfl
  obtain ⟨r, hr, hbound⟩ := readRequests_stream hcomplete hpackets
    (hstream.trans (append_nil _).symm) hfail hfuel
  rw [hrequests] at hr
  exact ⟨r, tdsReadNextRequest_of_readRequests hr, hbound.pending⟩

/-- **The packets of a message sent with a buffer of the given size**: no packet is longer than the
buffer, its header tells its length, all but the last are full and have status 0, the last has the
end-of-message bit, and the payloads make up the message. -/
structure Message.Carries (m : Message) (size : Nat) (messageType : UInt8)
    (message : List UInt8) : Prop where
  type : m.messageType = messageType
  fits : ∀ p ∈ m.packets, p.bytes.length ≤ size
  lengthField : ∀ p ∈ m.packets, beNat (slice p.bytes 2 4) = p.bytes.length
  full : ∀ p ∈ m.init, p.bytes.length = size
  status : ∀ p ∈ m.init, p.status = 0x00
  lastStatus : m.last.status = 0x01
  payloads : m.packets.flatMap Packet.payload = message

theorem Packet.beNat_bytes (p : Packet) : beNat (slice p.bytes 2 4) = p.bytes.length := by
  rw [p.length_bytes, ← p.beNat_header]
  simp [slice, bytes, header]

theorem exists_message {size : Nat} {chunks : List (List UInt8)} (type : UInt8)
    (hhigh : size < 256 ^ 2) (hfull : ∀ c ∈ chunks, c.length + packetHeaderSize = size)
    (hbuf : buf.length + packetHeaderSize ≤ size) :
    ∃ m : Message, m.Carries size type (chunks.flatten ++ buf) ∧
      wire m.packets = chunks.flatMap (frame type 0x00) ++ frame type 0x01 buf ∧
      (∀ p ∈ m.init, p.payload ∈ chunks) ∧ m.last.payload = buf := by
  have hlast : buf.length + packetHeaderSize < 256 ^ 2 := lt_of_le_of_lt hbuf hhigh
  obtain ⟨ps, hwire, hpayload, hps⟩ := exists_packets type 0x00 chunks
    fun c hc => by rw [hfull c hc]; exact hhigh
  have hmem : ∀ p ∈ ps, p.payload ∈ chunks := fun p hp => hpayload ▸ mem_map_of_mem hp
  have hsize : ∀ p ∈ ps, p.bytes.length = size := fun p hp =>
    p.length_bytes.trans (hfull p.payload (hmem p hp))
  refine ⟨⟨type, ps, plainPacket type 0x01 buf hlast, ?_, ?_, ?_⟩,
    ⟨rfl, ?_, fun p _ => p.beNat_bytes, hsize, fun p hp => (hps p hp).2, rfl, ?_⟩, ?_, hmem, rfl⟩
  · exact forall_mem_append.mpr
      ⟨fun p hp => (hps p hp).1, forall_mem_singleton.mpr rfl⟩
  · intro p hp
    rw [eom, (hps p hp).2]
    rfl
  · show (0x01 &&& statusEom != 0) = true
    rfl
  · refine forall_mem_append.mpr
      ⟨fun p hp => le_of_eq (hsize p hp), forall_mem_singleton.mpr ?_⟩
    rwa [length_bytes]
  · rw [← hpayload, ← flatMap_def, Message.packets, flatMap_append]
    simp [plainPacket]
  · rw [Message.packets, wire_append, hwire, wire_cons, wire_nil, append_nil,
      frame_eq_bytes type 0x01 buf hlast]

/-- Any reader with a buffer of at least that size returns the message, however it is delivered. -/
def Message.ReadBack (m : Message) (size : Nat) (messageType : UInt8) (message : List UInt8) :
    Prop :=
  ∀ buffer socket fuel, size ≤ buffer.length → delivered socket = wire m.packets →
    ReadEvent.fail ∉ socket → (delivered socket).length < fuel →
    ∃ r, tdsReadNextRequest fuel (tdsCommInit buffer socket) =
      .ok (⟨messageType, m.first.status, message⟩, r) ∧ r.pending = []

/-- **The writer emits the message, and the reader returns it.**  The buffer has room for a payload
byte and its size fits the length field of the header; the pieces of the message and the way the
socket takes the packets are arbitrary.  It is read back unless it is empty or a bulk load. -/
theorem sendMessage_roundTrip {size : Nat} {oldType : UInt8} {sent : List UInt8} {s : SendState}
    (h : Sending size oldType sent [] s) (hlow : packetHeaderSize < size) (hhigh : size < 256 ^ 2)
    (messageType : UInt8) (pieces : List (List UInt8)) (fuel : Nat)
    (hfuel : ∀ piece ∈ pieces, piece.length < fuel) :
    ∃ (t : SendState) (m : Message), sendMessage fuel messageType pieces s = .ok t ∧
      Sending size 0 (sent ++ wire m.packets) [] t ∧
      m.Carries size messageType pieces.flatten ∧
      (pieces.flatten ≠ [] → messageType ≠ bulkLoad →
        m.ReadBack size messageType pieces.flatten) := by
  obtain ⟨t, hsend, chunks, buf, ht, hfull, hbuf, hall, hne⟩ :=
    sendMessage_frames h hlow pieces hfuel messageType
  obtain ⟨m, hm, hwire, hinit, hlast⟩ := exists_message messageType hhigh hfull hbuf
  rw [hall] at hm
  refine ⟨t, m, hsend, by rwa [hwire, ← append_assoc], hm, ?_⟩
  intro hmessage hbulk buffer socket fuel' hsize hstream hfail hfuel'
  have hbufNe : buf ≠ [] := by
    intro hnil
    rw [hnil, hne hnil] at hall
    exact hmessage hall.symm
  have hpackets : ∀ p ∈ m.packets, p.payload ≠ [] ∧ p.size ≤ buffer.length := by
    intro p hp
    refine ⟨?_, le_trans (p.length_bytes ▸ hm.fits p hp) hsize⟩
    rcases mem_append.mp hp with hp | hp
    · have hlen := hfull p.payload (hinit p hp)
      exact length_pos_iff.mp (by omega)
    · rwa [mem_singleton.mp hp, hlast]
  obtain ⟨r, hr, hrest⟩ := readNextRequest_message (hm.type ▸ hbulk) hpackets hstream hfail hfuel'
  rw [hm.type, hm.payloads] at hr
  exact ⟨r, hr, hrest⟩

/-- A message in two pieces, with partial writes. -/
theorem sendMessage_roundTrip_pieces :
    ∃ (t : SendState) (m : Message),
      sendMessage 10 0x04 [[1, 2], [3]] (sendInit (List.replicate 10 0) [.wrote 2, .eintr]) =
        .ok t ∧
      Sending 10 0 ([] ++ wire m.packets) [] t ∧ m.Carries 10 0x04 [1, 2, 3] ∧
      m.ReadBack 10 0x04 [1, 2, 3] := by
  have hinit := sendInit_sending (List.replicate 10 0) [.wrote 2, .eintr] (by decide)
    (by simp [WriteEvent.Blocking])
  obtain ⟨t, m, hsend, ht, hm, hback⟩ :=
    sendMessage_roundTrip hinit (by decide) (by decide) 0x04 [[1, 2], [3]] 10 (by decide)
  exact ⟨t, m, hsend, ht, hm, hback (by decide) (by decide)⟩

theorem length_frame (type status : UInt8) (payload : List UInt8) :
    (frame type status payload).length = payload.length + packetHeaderSize := by
  simp [frame, packetHeaderSize]
  omega

theorem beNat_frame (type status : UInt8) (payload : List UInt8) :
    beNat (slice (frame type status payload) 2 4) =
      (payload.length + packetHeaderSize) % 256 ^ 2 := by
  rw [← beNat_beBytes]
  simp [slice, frame]

/-- With a buffer of 65536 bytes the length field wraps: the header of a full packet says 0.  A bulk
load of two packets is read back without the second. -/
theorem lengthField_wraps :
    (∃ t, sendMessage 65529 0x04 [List.replicate 65528 0] (sendInit (List.replicate 65536 0) []) =
        .ok t ∧ t.sent.length = 65536 ∧ beNat (slice t.sent 2 4) = 0) ∧
      ∃ t socket r,
        sendMessage 10 bulkLoad [[1, 2, 3]] (sendInit (List.replicate 10 0) []) = .ok t ∧
        delivered socket = t.sent ∧
        tdsReadNextRequest 20 (tdsCommInit (List.replicate 10 0) socket) =
          .ok (⟨bulkLoad, 0, [1, 2]⟩, r) := by
  refine ⟨?_, _, [.data 7 [0, 0, 10, 0, 0, 0, 0, 1, 2, 7, 1, 0, 9, 0, 0, 0, 0, 3]], _,
    rfl, rfl, rfl⟩
  have hinit : Sending 65536 0 [] [] (sendInit (replicate 65536 0) []) := by
    have := sendInit_sending (replicate 65536 0) []
      (by rw [length_replicate]; decide) (by simp)
    rwa [length_replicate] at this
  have hpieces : ∀ piece ∈ [replicate 65528 (0 : UInt8)], piece.length < 65529 := by
    simp only [mem_singleton, forall_eq, length_replicate]
    decide
  obtain ⟨t, hsend, chunks, buf, ht, hfull, -, hall, hne⟩ :=
    sendMessage_frames hinit (by decide) _ hpieces 0x04
  have hlen : chunks.flatten.length + buf.length = 65528 := by
    have := congrArg length hall
    rwa [flatten_cons, flatten_nil, append_nil, length_replicate, length_append] at this
  -- a full packet in front of the last one would leave nothing for the last
  have hchunks : chunks = [] := by
    cases chunks with
    | nil => rfl
    | cons c cs =>
      have hc := hfull c mem_cons_self
      rw [flatten_cons, length_append] at hlen
      simp only [packetHeaderSize] at hc
      exact hne (eq_nil_of_length_eq_zero (by omega))
  subst hchunks
  rw [flatten_nil, length_nil, zero_add] at hlen
  have hout : t.sent = frame 0x04 0x01 buf := by simpa using ht.out
  refine ⟨t, hsend, ?_, ?_⟩
  · rw [hout, length_frame, hlen]
    rfl
  · rw [hout, beNat_frame, hlen]
    rfl

end Babelfish.Tds
