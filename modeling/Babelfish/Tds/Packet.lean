import Babelfish.Lib.Bytes

/-!
# TDS packets and messages

The format the reader and the writer agree on: a packet is an eight byte header, whose third and
fourth bytes hold the length of the whole packet in network byte order, followed by the payload.
A message is a run of packets, the last of which carries the end-of-message bit.

* `requests`: the requests a reader hands out for a sequence of packets.
* `requests_append_message`: for a message that is one request with the payloads put together,
  or one request a packet when it is a bulk load.
-/

namespace Babelfish.Tds

open Lib

def packetHeaderSize : Nat := 8

def bulkLoad : UInt8 := 0x07

def statusEom : UInt8 := 0x01

/-- A packet; `tail` is the server process, the packet number and the window, which nobody reads. -/
structure Packet where
  messageType : UInt8
  status : UInt8
  tail : List UInt8
  payload : List UInt8
  tail_length : tail.length = 4
  fits : payload.length + packetHeaderSize < 256 ^ 2

namespace Packet

variable (p : Packet)

def size : Nat := p.payload.length + packetHeaderSize

def header : List UInt8 :=
  [p.messageType, p.status] ++ beBytes 2 p.size ++ p.tail

def bytes : List UInt8 := p.header ++ p.payload

def eom : Bool := p.status &&& statusEom != 0

/-- A reader hands out a request after a packet that ends a message, and after every packet of a
bulk load. -/
def endsRequest : Bool := p.eom || p.messageType == bulkLoad

@[simp] theorem length_header : p.header.length = packetHeaderSize := by
  simp [header, p.tail_length, packetHeaderSize]

@[simp] theorem length_bytes : p.bytes.length = p.size := by
  simp [bytes, size]
  omega

theorem header_getD_zero : p.header.getD 0 0 = p.messageType := rfl

theorem header_getD_one : p.header.getD 1 0 = p.status := rfl

theorem beNat_header : beNat (slice p.header 2 4) = p.size := by
  have hslice : slice p.header 2 4 = beBytes 2 p.size := by
    simp [slice, header]
  rw [hslice]
  exact beNat_beBytes_of_lt p.fits

end Packet

/-- A packet as the server sends it, with zeroes for what nobody reads. -/
def plainPacket (messageType status : UInt8) (payload : List UInt8)
    (h : payload.length + packetHeaderSize < 256 ^ 2) : Packet :=
  ⟨messageType, status, [0, 0, 0, 0], payload, rfl, h⟩

def wire (ps : List Packet) : List UInt8 := ps.flatMap Packet.bytes

@[simp] theorem wire_nil : wire [] = [] := rfl

variable {ps : List Packet}

@[simp] theorem wire_cons (p : Packet) : wire (p :: ps) = p.bytes ++ wire ps :=
  rfl

@[simp] theorem wire_append (qs : List Packet) : wire (ps ++ qs) = wire ps ++ wire qs := by
  simp [wire]

/-! ### Requests -/

/-- What `TdsReadNextRequest` hands out: the type and the status of the first packet, and the
bytes. -/
structure Request where
  messageType : UInt8
  status : UInt8
  message : List UInt8
deriving Repr, DecidableEq

def Packet.request (p : Packet) : Request := ⟨p.messageType, p.status, p.payload⟩

def Packet.before (p : Packet) (r : Request) : Request :=
  ⟨p.messageType, p.status, p.payload ++ r.message⟩

/-- **The requests in a sequence of packets.**  Packets after the last one that ends a request
are not handed out. -/
def requests : List Packet → List Request
  | [] => []
  | p :: ps =>
    if p.endsRequest then p.request :: requests ps
    else
      match requests ps with
      | [] => []
      | r :: rs => p.before r :: rs

/-- A message: packets of one type, the last and only the last with the end-of-message bit. -/
structure Message where
  messageType : UInt8
  init : List Packet
  last : Packet
  sameType : ∀ p ∈ init ++ [last], p.messageType = messageType
  init_eom : ∀ p ∈ init, p.eom = false
  last_eom : last.eom = true

namespace Message

def packets (m : Message) : List Packet := m.init ++ [m.last]

def first (m : Message) : Packet := m.packets.head (by simp [packets])

/-- **The requests of a message**: a bulk load is handed out packet by packet, any other message
as the concatenation of its payloads with the type and status of its first packet. -/
def requests (m : Message) : List Request :=
  if m.messageType = bulkLoad then m.packets.map Packet.request
  else [⟨m.first.messageType, m.first.status, m.packets.flatMap Packet.payload⟩]

end Message

theorem requests_append_single (hps : ∀ p ∈ ps, p.endsRequest = true) (qs : List Packet) :
    requests (ps ++ qs) = ps.map Packet.request ++ requests qs := by
  induction ps with
  | nil => rfl
  | cons p ps ih =>
    have hp : p.endsRequest = true := hps p (by simp)
    simp [requests, hp, ih (List.forall_mem_cons.mp hps).2]

theorem requests_append_whole {p : Packet}
    (hps : ∀ q ∈ ps, q.endsRequest = false) (hp : p.endsRequest = true) (qs : List Packet) :
    requests ((ps ++ [p]) ++ qs) =
      ⟨((ps ++ [p]).head (by simp)).messageType, ((ps ++ [p]).head (by simp)).status,
        (ps ++ [p]).flatMap Packet.payload⟩ :: requests qs := by
  induction ps with
  | nil => simp [requests, hp, Packet.request]
  | cons q ps ih =>
    have hq : q.endsRequest = false := hps q (by simp)
    have hrest := ih (List.forall_mem_cons.mp hps).2
    simp only [List.cons_append] at hrest ⊢
    rw [requests, hrest]
    simp [hq, Packet.before]

/-- **The requests of a sequence of messages** are the requests of its first message followed by
those of the others. -/
theorem requests_append_message (m : Message) (qs : List Packet) :
    requests (m.packets ++ qs) = m.requests ++ requests qs := by
  unfold Message.requests
  split_ifs with hb
  · refine requests_append_single (fun p hp => ?_) qs
    simp [Packet.endsRequest, m.sameType p hp, hb]
  · have htype : ∀ p ∈ m.packets, (p.messageType == bulkLoad) = false := by
      intro p hp
      simp [m.sameType p hp, hb]
    refine requests_append_whole (fun p hp => ?_) ?_ qs
    · simp [Packet.endsRequest, m.init_eom p hp, htype p (List.mem_append_left _ hp)]
    · simp [Packet.endsRequest, m.last_eom]

theorem requests_messages (ms : List Message) :
    requests (ms.flatMap Message.packets) = ms.flatMap Message.requests := by
  induction ms with
  | nil => rfl
  | cons m ms ih => rw [List.flatMap_cons, requests_append_message, ih, List.flatMap_cons]

end Babelfish.Tds
