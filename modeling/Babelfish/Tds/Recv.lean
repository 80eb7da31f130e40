import Babelfish.Lib.Loop
import Babelfish.Tds.Packet

/-!
# The TDS reader

The receiving half of `tdscomm.c`.  The reader keeps one buffer with two cursors, `recvStart` and
`recvEnd`; the bytes between them have been received and not consumed.  `leftInPacket` counts the
payload bytes of the current packet that are still to come and `doProcessHeader` asks for the next
header.

The socket is a list of events: a `read` takes as many bytes of the first one as fit in the
buffer, and the rest of it stays for the next `read`.
-/

namespace Babelfish.Tds

open Lib

/-! ### The socket -/

/-- What a call of `tds_secure_read` finds: some bytes, an interrupted call, or an error. -/
inductive ReadEvent where
  | data (b : UInt8) (bs : List UInt8)
  | eintr
  | fail
deriving Repr, DecidableEq

def ReadEvent.bytes : ReadEvent → List UInt8
  | .data b bs => b :: bs
  | .eintr => []
  | .fail => []

def delivered (socket : List ReadEvent) : List UInt8 := socket.flatMap ReadEvent.bytes

/-- The socket after a `read` that left the bytes `bs` of the first event behind. -/
def putBack : List UInt8 → List ReadEvent → List ReadEvent
  | [], socket => socket
  | b :: bs, socket => .data b bs :: socket

@[simp] theorem delivered_nil : delivered [] = [] := rfl

variable {socket : List ReadEvent}

@[simp] theorem delivered_cons (e : ReadEvent) :
    delivered (e :: socket) = e.bytes ++ delivered socket := rfl

@[simp] theorem delivered_putBack (bs : List UInt8) :
    delivered (putBack bs socket) = bs ++ delivered socket := by
  cases bs <;> rfl

theorem fail_notMem_putBack (h : ReadEvent.fail ∉ socket) {bs : List UInt8} :
    ReadEvent.fail ∉ putBack bs socket := by
  cases bs with
  | nil => exact h
  | cons b bs => simpa [putBack] using h

/-! ### The state of the reader -/

/-- The errors that end the process. -/
inductive FatalError where
  | lastPacketNotConsumed
  | packetTooLong (length bufferSize : Nat)
  | insufficientData
  | startBeyondEnd (start stop : Nat)
deriving Repr, DecidableEq

def FatalError.message : FatalError → String
  | .lastPacketNotConsumed =>
      "New TDS packet read encountered while last packet is not fully consumed"
  | .packetTooLong length bufferSize =>
      s!"Packet length {length} exceeds packet size {bufferSize}"
  | .insufficientData => "TDS packet with insufficient data"
  | .startBeyondEnd start stop =>
      s!"TDS buffer start pointer {start} beyond end pointer {stop}"

/-- Why a reader function does not return its result: it returns `EOF`, as do all its callers, or
the process ends. -/
inductive Stop where
  | eof
  | fatal (e : FatalError)
deriving Repr, DecidableEq

/-- The variables of the reader.  `cursorLog` is a history variable: all the positions the two
cursors have taken. -/
structure RecvState where
  recvBuffer : List UInt8
  recvStart : Nat
  recvEnd : Nat
  leftInPacket : Nat
  doProcessHeader : Bool
  recvMessageType : UInt8
  recvPacketStatus : UInt8
  socket : List ReadEvent
  cursorLog : List (Nat × Nat)
deriving Repr, DecidableEq

namespace RecvState

def bufferSize (s : RecvState) : Nat := s.recvBuffer.length

def setCursors (s : RecvState) (start stop : Nat) : RecvState :=
  { s with recvStart := start, recvEnd := stop, cursorLog := (start, stop) :: s.cursorLog }

end RecvState

/-- `TdsCommInit` and `TdsCommReset`, with whatever `palloc` left in the buffer. -/
def tdsCommInit (buffer : List UInt8) (socket : List ReadEvent) : RecvState where
  recvBuffer := buffer
  recvStart := 0
  recvEnd := 0
  leftInPacket := 0
  doProcessHeader := true
  recvMessageType := 0
  recvPacketStatus := 0
  socket := socket
  cursorLog := [(0, 0)]

/-! ### Filling the buffer -/

variable (s : RecvState)

/-- Move the unread data to the start of the buffer. -/
def leftJustify : RecvState :=
  if 0 < s.recvStart then
    if s.recvStart < s.recvEnd then
      { s with recvBuffer := overwrite s.recvBuffer 0 (slice s.recvBuffer s.recvStart s.recvEnd)
        }.setCursors 0 (s.recvEnd - s.recvStart)
    else s.setCursors 0 0
  else s

/-- The state after a `read` that put the bytes `got` behind the data of the buffer. -/
def RecvState.receive (got : List UInt8) (socket : List ReadEvent) : RecvState :=
  { s with recvBuffer := overwrite s.recvBuffer s.recvEnd got, socket := socket
    }.setCursors s.recvStart (s.recvEnd + got.length)

/-- The loop around `tds_secure_read`, over the events of the socket. -/
def readLoop (s : RecvState) : List ReadEvent → Outcome Stop RecvState
  | [] => .error .eof
  | .eintr :: socket => readLoop s socket
  | .fail :: _ => .error .eof
  | .data b bs :: socket =>
    let capacity := s.bufferSize - s.recvEnd
    -- a `read` of no bytes returns 0, which is taken for the end of the stream
    if capacity = 0 then .error .eof
    else .ok (s.receive ((b :: bs).take capacity) (putBack ((b :: bs).drop capacity) socket))

def tdsReadsocket : Outcome Stop RecvState := readLoop (leftJustify s) s.socket

/-- The part of `TdsProcessHeader` that reads the eight bytes of the header. -/
def parseHeader : Outcome Stop RecvState :=
  let length := beNat (slice s.recvBuffer (s.recvStart + 2) (s.recvStart + 4))
  if s.bufferSize < length then .error (.fatal (.packetTooLong length s.bufferSize))
  else if length < packetHeaderSize then .error (.fatal .insufficientData)
  else .ok ({ s with
    recvMessageType := s.recvBuffer.getD s.recvStart 0
    recvPacketStatus := s.recvBuffer.getD (s.recvStart + 1) 0
    leftInPacket := length - packetHeaderSize
    doProcessHeader := false
    }.setCursors (s.recvStart + packetHeaderSize) s.recvEnd)

variable (fuel : Nat)

def tdsProcessHeader (s : RecvState) : Outcome Stop RecvState :=
  if s.leftInPacket ≠ 0 then .error (.fatal .lastPacketNotConsumed)
  else do
    let s ← whileLoop (fun s => s.recvEnd - s.recvStart < packetHeaderSize) tdsReadsocket fuel s
    parseHeader s

/-- The part of `TdsRecvbuf` after "No more data in the buffer to read". -/
def recvbufRead (s : RecvState) : Outcome Stop RecvState := do
  let s ← (if s.recvStart = s.recvEnd then refill s else pure s)
  if s.recvEnd < s.recvStart then .error (.fatal (.startBeyondEnd s.recvStart s.recvEnd))
  else pure s
where
  refill (s : RecvState) : Outcome Stop RecvState := do
    let s ← tdsReadsocket s
    if s.leftInPacket = 0 then
      let s ← (if s.doProcessHeader then tdsProcessHeader fuel s else pure s)
      -- the last read may have got only the header
      if s.recvStart = s.recvEnd ∧ 0 < s.leftInPacket then tdsReadsocket s else pure s
    else pure s

def tdsRecvbuf (s : RecvState) : Outcome Stop RecvState :=
  if s.leftInPacket = 0 ∧ s.recvStart < s.recvEnd then do
    let s ← tdsProcessHeader fuel s
    if s.leftInPacket = 0 then pure s else recvbufRead fuel s
  else recvbufRead fuel s

/-! ### Reading -/

def tdsReadNextBuffer (s : RecvState) : Outcome Stop RecvState :=
  whileLoop
    (fun s => decide (0 < s.leftInPacket ∧ s.recvEnd ≤ s.recvStart) || s.doProcessHeader)
    (tdsRecvbuf fuel) fuel s

def tdsConsumedBytes (bytes : Nat) : RecvState :=
  { s with
    leftInPacket := s.leftInPacket - bytes
    doProcessHeader := s.leftInPacket - bytes = 0 || s.doProcessHeader }

/-- The local variables of `TdsGetbytes`: the bytes copied so far and how many are missing. -/
structure Getbytes where
  state : RecvState
  copied : List UInt8
  len : Nat
deriving Repr, DecidableEq

/-- The condition of the inner loop of `TdsGetbytes`. -/
def nothingToGet : Bool := decide (s.leftInPacket = 0 ∨ s.recvEnd ≤ s.recvStart)

/-- One iteration of the loop of `TdsGetbytes`. -/
def getSome (g : Getbytes) : Outcome Stop Getbytes := do
  let s ← whileLoop nothingToGet (tdsRecvbuf fuel) fuel g.state
  let amount := min (min s.leftInPacket (s.recvEnd - s.recvStart)) g.len
  pure {
    state := tdsConsumedBytes (s.setCursors (s.recvStart + amount) s.recvEnd) amount
    copied := g.copied ++ slice s.recvBuffer s.recvStart (s.recvStart + amount)
    len := g.len - amount }

def tdsGetbytes (fuel len : Nat) (s : RecvState) : Outcome Stop (List UInt8 × RecvState) := do
  let g ← whileLoop (fun g => decide (0 < g.len)) (getSome fuel) fuel ⟨s, [], len⟩
  pure (g.copied, g.state)

/-- The local variables of `TdsReadNextRequest`: the request is there once the first packet has
been seen. -/
structure ReadRequest where
  state : RecvState
  request : Option Request
deriving Repr, DecidableEq

/-- The request after one more packet; type and status are saved from the first. -/
def extendRequest (data : List UInt8) : Option Request → Request
  | none => ⟨s.recvMessageType, s.recvPacketStatus, data⟩
  | some r => { r with message := r.message ++ data }

/-- The end of an iteration of `TdsReadNextRequest`, after the payload has been copied. -/
def endOfPacket (request : Request) (s : RecvState) : Iter ReadRequest (Request × RecvState) :=
  if s.recvPacketStatus &&& statusEom != 0 then
    if s.leftInPacket = 0 ∧ s.recvStart = s.recvEnd then
      .done (request, { s with doProcessHeader := true })
    else .done (request, s)
  else if s.recvMessageType == bulkLoad then .done (request, { s with doProcessHeader := true })
  else .next ⟨s, some request⟩

/-- One iteration of the loop of `TdsReadNextRequest`. -/
def readPacket (r : ReadRequest) :
    Outcome Stop (Iter ReadRequest (Request × RecvState)) := do
  let s ← tdsReadNextBuffer fuel r.state
  let (data, s') ← tdsGetbytes fuel s.leftInPacket s
  pure (endOfPacket (extendRequest s data r.request) s')

def tdsReadNextRequest (s : RecvState) : Outcome Stop (Request × RecvState) :=
  loop (readPacket fuel) fuel ⟨s, none⟩

def readRequests (fuel : Nat) : Nat → RecvState → Outcome Stop (List Request × RecvState)
  | 0, s => .ok ([], s)
  | n + 1, s => do
    let (r, s) ← tdsReadNextRequest fuel s
    let (rs, s) ← readRequests fuel n s
    pure (r :: rs, s)

end Babelfish.Tds
