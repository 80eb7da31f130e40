import Babelfish.Tds.Recv

/-!
# The TDS reader returns the messages that were sent

Whatever the reader does, the bytes it has received and not consumed followed by the bytes the
socket still delivers are the rest of the stream (`RecvState.pending`).  Each function gets one
lemma that says how much of the stream it consumes.

* `AtBoundary`: the reader is between two packets; `InPacket`: it is inside one.
* `processHeader_spec`, `AtBoundary.recvbuf`, `AtBoundary.readNextBuffer`, `InPacket.recvbuf`,
  `InPacket.getbytes`: what the reader's functions do in these states.
-/

namespace Babelfish.Tds

open Lib List RecvState

variable {s t : RecvState} {socket : List ReadEvent}

namespace RecvState

def unread (s : RecvState) : List UInt8 := slice s.recvBuffer s.recvStart s.recvEnd

def pending (s : RecvState) : List UInt8 := s.unread ++ delivered s.socket

/-- **The invariant of the reader**: the cursors are and always were in order and inside the
buffer.  A socket that reports an error ends the connection and is not considered. -/
structure Sound (s : RecvState) : Prop where
  start_le : s.recvStart ≤ s.recvEnd
  end_le : s.recvEnd ≤ s.bufferSize
  log_le : ∀ c ∈ s.cursorLog, c.1 ≤ c.2 ∧ c.2 ≤ s.bufferSize
  noFail : ReadEvent.fail ∉ s.socket

/-- Everything but the buffer's contents, the cursors and the socket. -/
structure SameHeader (s t : RecvState) : Prop where
  bufferSize : t.bufferSize = s.bufferSize
  leftInPacket : t.leftInPacket = s.leftInPacket
  doProcessHeader : t.doProcessHeader = s.doProcessHeader
  recvMessageType : t.recvMessageType = s.recvMessageType
  recvPacketStatus : t.recvPacketStatus = s.recvPacketStatus

theorem SameHeader.refl (s : RecvState) : SameHeader s s := ⟨rfl, rfl, rfl, rfl, rfl⟩

theorem SameHeader.trans {u : RecvState} (h : SameHeader s t) (h' : SameHeader t u) :
    SameHeader s u where
  bufferSize := h'.bufferSize.trans h.bufferSize
  leftInPacket := h'.leftInPacket.trans h.leftInPacket
  doProcessHeader := h'.doProcessHeader.trans h.doProcessHeader
  recvMessageType := h'.recvMessageType.trans h.recvMessageType
  recvPacketStatus := h'.recvPacketStatus.trans h.recvPacketStatus

theorem Sound.length_unread (h : s.Sound) :
    s.unread.length = s.recvEnd - s.recvStart := length_slice h.end_le

theorem unread_eq_nil (he : s.recvStart = s.recvEnd) : s.unread = [] := by
  simp [unread, he]

theorem Sound.setCursors (h : s.Sound) {start stop : Nat} (hle : start ≤ stop)
    (hstop : stop ≤ s.bufferSize) : (s.setCursors start stop).Sound where
  start_le := hle
  end_le := hstop
  log_le := forall_mem_cons.mpr ⟨⟨hle, hstop⟩, h.log_le⟩
  noFail := h.noFail

theorem Sound.setBuffer (h : s.Sound) {buffer : List UInt8}
    (hlen : buffer.length = s.bufferSize) (hfail : ReadEvent.fail ∉ socket) :
    Sound { s with recvBuffer := buffer, socket := socket } where
  start_le := h.start_le
  end_le := by simpa only [bufferSize, hlen] using h.end_le
  log_le := by simpa only [bufferSize, hlen] using h.log_le
  noFail := hfail

end RecvState

open RecvState

/-! ### Filling the buffer -/

/-- **Left-justifying the buffer loses nothing.** -/
theorem leftJustify_spec (h : s.Sound) :
    (leftJustify s).Sound ∧ (leftJustify s).unread = s.unread ∧ SameHeader s (leftJustify s) ∧
      (leftJustify s).recvEnd = s.unread.length := by
  have hlen := h.length_unread
  have hle := h.start_le
  have hend := h.end_le
  unfold leftJustify
  split
  · split
    · have hfit : s.unread.length ≤ s.recvBuffer.length := by
        have : s.bufferSize = s.recvBuffer.length := rfl
        omega
      have hbuf : (overwrite s.recvBuffer 0 s.unread).length = s.bufferSize :=
        length_overwrite (by omega)
      refine ⟨(h.setBuffer hbuf h.noFail).setCursors (Nat.zero_le _) ?_, ?_,
        ⟨hbuf, rfl, rfl, rfl, rfl⟩, hlen.symm⟩
      · show s.recvEnd - s.recvStart ≤ (overwrite s.recvBuffer 0 s.unread).length
        omega
      · show slice (overwrite s.recvBuffer 0 s.unread) 0 (s.recvEnd - s.recvStart) = s.unread
        rw [← hlen]
        exact slice_overwrite_zero hfit
    · have hnil : s.unread = [] := unread_eq_nil (by omega)
      refine ⟨h.setCursors (Nat.le_refl 0) (Nat.zero_le _), ?_, ⟨rfl, rfl, rfl, rfl, rfl⟩, ?_⟩
      · rw [hnil]
        exact slice_self _ _
      · rw [hnil]
        rfl
  · exact ⟨h, rfl, SameHeader.refl s, by omega⟩

/-- What a successful `TdsReadsocket` does: at least one byte moves from the socket to the
buffer. -/
structure Refilled (s t : RecvState) : Prop where
  sound : t.Sound
  pending : t.pending = s.pending
  more : s.unread.length < t.unread.length
  same : SameHeader s t

theorem Refilled.nonempty (h : Refilled s t) : t.recvStart < t.recvEnd := by
  have hmore := h.more
  rw [h.sound.length_unread] at hmore
  omega

theorem RecvState.Sound.receive (h : s.Sound) (hfail : ReadEvent.fail ∉ socket) (got : List UInt8)
    (hfit : s.recvEnd + got.length ≤ s.bufferSize) :
    (s.receive got socket).Sound ∧ (s.receive got socket).unread = s.unread ++ got ∧
      SameHeader s (s.receive got socket) := by
  have hbuf : (overwrite s.recvBuffer s.recvEnd got).length = s.bufferSize := length_overwrite hfit
  refine ⟨(h.setBuffer hbuf hfail).setCursors ?_ ?_, slice_overwrite h.start_le hfit,
    ⟨hbuf, rfl, rfl, rfl, rfl⟩⟩
  · exact Nat.le_trans h.start_le (Nat.le_add_right _ _)
  · show _ ≤ (overwrite s.recvBuffer s.recvEnd got).length
    omega

theorem readLoop_spec (h : s.Sound) (hroom : s.recvEnd < s.bufferSize)
    (hfail : ReadEvent.fail ∉ socket) (hne : delivered socket ≠ []) :
    Gives (readLoop s socket) fun t => t.Sound ∧ t.pending = s.unread ++ delivered socket ∧
      s.unread.length < t.unread.length ∧ SameHeader s t := by
  induction socket with
  | nil => exact absurd rfl hne
  | cons e socket ih =>
    have hfail' : ReadEvent.fail ∉ socket := fun hmem => hfail (mem_cons_of_mem e hmem)
    cases e with
    | fail => exact absurd (mem_cons_self) hfail
    | eintr => exact ih hfail' hne
    | data b bs =>
      have hcap : s.bufferSize - s.recvEnd ≠ 0 := by omega
      have hlen : ((b :: bs).take (s.bufferSize - s.recvEnd)).length =
          min (s.bufferSize - s.recvEnd) (bs.length + 1) := length_take
      obtain ⟨hsound, hunread, hsame⟩ := h.receive
        (fail_notMem_putBack hfail')
        ((b :: bs).take (s.bufferSize - s.recvEnd)) (by omega)
      simp only [readLoop, if_neg hcap]
      refine .ok ⟨hsound, ?_, ?_, hsame⟩
      · rw [pending, hunread, append_assoc]
        show _ ++ (_ ++ delivered (putBack _ socket)) = _
        rw [delivered_putBack, ← append_assoc (take _ _), take_append_drop]
        rfl
      · rw [hunread, length_append]
        omega

/-- **`TdsReadsocket`** moves at least one byte when the buffer has room and bytes come. -/
theorem readsocket_spec (h : s.Sound) (hroom : s.unread.length < s.bufferSize)
    (hcome : delivered s.socket ≠ []) : Gives (tdsReadsocket s) (Refilled s) := by
  obtain ⟨hj, hunread, hsame, hend⟩ := leftJustify_spec h
  have hroom' : (leftJustify s).recvEnd < (leftJustify s).bufferSize := by
    rwa [hend, hsame.bufferSize]
  refine .mono (readLoop_spec hj hroom' h.noFail hcome) ?_
  rintro t ⟨hsound, hpending, hmore, ht⟩
  rw [hunread] at hpending hmore
  exact ⟨hsound, hpending, hmore, hsame.trans ht⟩

/-! ### The header -/

/-- The reader is between two packets and looks for a header. -/
structure AtBoundary (size : Nat) (rest : List UInt8) (s : RecvState) : Prop where
  sound : s.Sound
  size : s.bufferSize = size
  left : s.leftInPacket = 0
  pending : s.pending = rest
  header : s.doProcessHeader = true

/-- The reader is inside the packet `p`, whose payload bytes `todo` are still to be consumed. -/
structure InPacket (size : Nat) (p : Packet) (todo rest : List UInt8) (s : RecvState) : Prop where
  sound : s.Sound
  size : s.bufferSize = size
  left : s.leftInPacket = todo.length
  pending : s.pending = todo ++ rest
  header : s.doProcessHeader = false
  messageType : s.recvMessageType = p.messageType
  status : s.recvPacketStatus = p.status

variable {p : Packet} {todo rest : List UInt8}
variable {size : Nat}

theorem InPacket.refilled (h : InPacket size p todo rest s) (ht : Refilled s t) :
    InPacket size p todo rest t where
  sound := ht.sound
  size := ht.same.bufferSize.trans h.size
  left := ht.same.leftInPacket.trans h.left
  pending := ht.pending.trans h.pending
  header := ht.same.doProcessHeader.trans h.header
  messageType := ht.same.recvMessageType.trans h.messageType
  status := ht.same.recvPacketStatus.trans h.status

theorem parseHeader_spec (h : s.Sound) (hpending : s.pending = p.bytes ++ rest)
    (hsize : p.size ≤ s.bufferSize) (hready : packetHeaderSize ≤ s.recvEnd - s.recvStart) :
    Gives (parseHeader s) (InPacket s.bufferSize p p.payload rest) := by
  have hready' : packetHeaderSize ≤ s.unread.length := by rw [h.length_unread]; exact hready
  have hlarge : packetHeaderSize ≤ p.size := Nat.le_add_left _ _
  have hstop : s.recvStart + packetHeaderSize ≤ s.recvEnd := by
    have := h.start_le
    omega
  have heq : s.unread ++ delivered s.socket = p.header ++ (p.payload ++ rest) := by
    rwa [← append_assoc]
  have hhead : s.unread.take packetHeaderSize = p.header := by
    have := congrArg (take packetHeaderSize) heq
    rwa [take_append_of_le_length hready', take_left' p.length_header] at this
  have hrest : s.unread.drop packetHeaderSize ++ delivered s.socket = p.payload ++ rest := by
    have := congrArg (drop packetHeaderSize) heq
    rwa [drop_append_of_le_length hready', drop_left' p.length_header] at this
  have hslice : slice s.recvBuffer s.recvStart (s.recvStart + packetHeaderSize) = p.header := by
    have hzero : s.unread.take packetHeaderSize = slice s.unread 0 packetHeaderSize := rfl
    rw [← hhead, hzero, unread, slice_slice _ hstop, add_zero]
  have hlength : beNat (slice s.recvBuffer (s.recvStart + 2) (s.recvStart + 4)) = p.size := by
    rw [← p.beNat_header, ← hslice, slice_slice _ (by simp [packetHeaderSize])]
  have htype : s.recvBuffer.getD (s.recvStart + 0) 0 = p.messageType := by
    rw [← p.header_getD_zero, ← hslice]
    exact getD_slice (by simp [packetHeaderSize]) 0
  have hstatus : s.recvBuffer.getD (s.recvStart + 1) 0 = p.status := by
    rw [← p.header_getD_one, ← hslice]
    exact getD_slice (by simp [packetHeaderSize]) 0
  simp only [parseHeader, hlength]
  rw [if_neg (by omega), if_neg (by omega)]
  refine .ok ?_
  have hsound := h.setCursors hstop h.end_le
  exact {
    sound := ⟨hsound.start_le, hsound.end_le, hsound.log_le, hsound.noFail⟩
    size := rfl
    left := Nat.add_sub_cancel _ _
    pending := by
      rwa [unread, drop_slice] at hrest
    header := rfl
    messageType := htype
    status := hstatus }

variable {fuel : Nat}

/-- **`TdsProcessHeader`** consumes the header of the next packet. -/
theorem processHeader_spec (h : s.Sound) (hleft : s.leftInPacket = 0)
    (hpending : s.pending = p.bytes ++ rest) (hsize : p.size ≤ s.bufferSize)
    (hfuel : s.pending.length < fuel) :
    Gives (tdsProcessHeader fuel s) (InPacket s.bufferSize p p.payload rest) := by
  have hlarge : packetHeaderSize ≤ p.size := Nat.le_add_left _ _
  have hlen : p.size ≤ s.pending.length := by
    rw [hpending, length_append, p.length_bytes]
    exact Nat.le_add_right _ _
  unfold tdsProcessHeader
  rw [if_neg (by simpa using hleft)]
  refine .bind (.while (I := fun t => t.Sound ∧ t.pending = s.pending ∧ SameHeader s t)
    (fun t => (delivered t.socket).length) ?_ ⟨h, rfl, SameHeader.refl s⟩ ?_) ?_
  · rintro t ⟨ht, hp, hsame⟩ hcond
    have hshort : t.unread.length < packetHeaderSize := by
      rw [ht.length_unread]
      simpa using hcond
    have htotal : t.unread.length + (delivered t.socket).length = s.pending.length := by
      rw [← hp, pending, length_append]
    have hcome : delivered t.socket ≠ [] := by
      intro hnil
      rw [hnil, length_nil] at htotal
      omega
    refine .mono (readsocket_spec ht (by rw [hsame.bufferSize]; omega) hcome) ?_
    intro u hu
    refine ⟨⟨hu.sound, hu.pending.trans hp, hsame.trans hu.same⟩, ?_⟩
    have htotal' : u.unread.length + (delivered u.socket).length = s.pending.length := by
      rw [← hp, ← hu.pending, pending, length_append]
    have hmore := hu.more
    omega
  · have : (delivered s.socket).length ≤ s.pending.length := by
      rw [pending, length_append]
      exact Nat.le_add_left _ _
    omega
  · rintro t ⟨⟨ht, hp, hsame⟩, hcond⟩
    rw [← hsame.bufferSize]
    refine parseHeader_spec ht (hp.trans hpending) (by rw [hsame.bufferSize]; exact hsize) ?_
    simpa using hcond

/-! ### `TdsRecvbuf` -/

section

variable (h : InPacket size p todo rest s) (htodo : todo ≠ [])
  (hsize : 0 < size)

include h htodo hsize

theorem InPacket.readsocket (hempty : s.recvStart = s.recvEnd) :
    Gives (tdsReadsocket s) fun t => InPacket size p todo rest t ∧ t.recvStart < t.recvEnd := by
  have hnil : s.unread = [] := unread_eq_nil hempty
  have hcome : delivered s.socket ≠ [] := by
    have hpending := h.pending
    rw [RecvState.pending, hnil, nil_append] at hpending
    rw [hpending]
    simp [htodo]
  refine .mono (readsocket_spec h.sound ?_ hcome) fun t ht => ⟨h.refilled ht, ht.nonempty⟩
  rwa [hnil, h.size]

theorem InPacket.recvbufRead :
    Gives (recvbufRead fuel s) fun t => InPacket size p todo rest t ∧ t.recvStart < t.recvEnd := by
  have hleft : ∀ t, InPacket size p todo rest t → t.leftInPacket ≠ 0 := by
    intro t ht hzero
    exact htodo (eq_nil_of_length_eq_zero (ht.left.symm.trans hzero))
  have hfill : Gives (if s.recvStart = s.recvEnd then recvbufRead.refill fuel s else pure s)
      fun t => InPacket size p todo rest t ∧ t.recvStart < t.recvEnd := by
    split_ifs with hempty
    · refine .bind (h.readsocket htodo hsize hempty) fun t ht => ?_
      rw [if_neg (hleft t ht.1)]
      exact .ok ht
    · have hle := h.sound.start_le
      exact .ok ⟨h, by omega⟩
  refine .bind hfill fun t ht => ?_
  rw [if_neg (by omega)]
  exact .ok ht

theorem InPacket.recvbuf :
    Gives (tdsRecvbuf fuel s) fun t => InPacket size p todo rest t ∧ t.recvStart < t.recvEnd := by
  have hleft : s.leftInPacket ≠ 0 := fun hzero =>
    htodo (eq_nil_of_length_eq_zero (h.left.symm.trans hzero))
  unfold tdsRecvbuf
  rw [if_neg fun hc => hleft hc.1]
  exact h.recvbufRead htodo hsize

end

section

variable (h : AtBoundary size (p.bytes ++ rest) s) (hsize : p.size ≤ size)
  (hfuel : s.pending.length < fuel)
include h hsize hfuel

/-- **`TdsRecvbuf` between two packets** consumes the header of the next one. -/
theorem AtBoundary.recvbuf : Gives (tdsRecvbuf fuel s) fun t =>
      InPacket size p p.payload rest t ∧ (p.payload ≠ [] → t.recvStart < t.recvEnd) := by
  have hpos : 0 < size := lt_of_lt_of_le (by simp [Packet.size, packetHeaderSize]) hsize
  have hheader : ∀ t : RecvState, t.Sound → t.pending = s.pending → SameHeader s t →
      Gives (tdsProcessHeader fuel t) (InPacket size p p.payload rest) := by
    intro t ht hpending hsame
    have hbuf : t.bufferSize = size := hsame.bufferSize.trans h.size
    rw [← hbuf]
    exact processHeader_spec ht (hsame.leftInPacket.trans h.left) (hpending.trans h.pending)
      (by omega) (by rw [hpending]; exact hfuel)
  have hzero : ∀ t, InPacket size p p.payload rest t → t.leftInPacket = 0 → p.payload = [] :=
    fun t ht hl => eq_nil_of_length_eq_zero (ht.left.symm.trans hl)
  unfold tdsRecvbuf
  split_ifs
  · refine .bind (hheader s h.sound rfl (SameHeader.refl s)) fun t ht => ?_
    split_ifs with hl
    · exact .ok ⟨ht, fun hne => absurd (hzero t ht hl) hne⟩
    · have hne : p.payload ≠ [] := fun hnil => hl (by rw [ht.left, hnil, length_nil])
      exact (ht.recvbufRead hne hpos).mono fun u hu => ⟨hu.1, fun _ => hu.2⟩
  · have hempty : s.recvStart = s.recvEnd := by
      have := h.sound.start_le
      have := h.left
      omega
    have hcome : delivered s.socket ≠ [] := by
      have hpending := h.pending
      rw [RecvState.pending, unread_eq_nil hempty, nil_append] at hpending
      rw [hpending]
      simp [Packet.bytes, Packet.header]
    have hroom : s.unread.length < s.bufferSize := by
      rwa [unread_eq_nil hempty, h.size]
    have hfill : Gives (recvbufRead.refill fuel s) fun t =>
        InPacket size p p.payload rest t ∧ (p.payload ≠ [] → t.recvStart < t.recvEnd) := by
      refine .bind (readsocket_spec h.sound hroom hcome) fun t ht => ?_
      rw [if_pos (ht.same.leftInPacket.trans h.left),
        if_pos (ht.same.doProcessHeader.trans h.header)]
      refine .bind (hheader t ht.sound ht.pending ht.same) fun u hu => ?_
      split_ifs with hagain
      · have hne : p.payload ≠ [] := by
          intro hnil
          have := hu.left
          rw [hnil, length_nil] at this
          omega
        exact (hu.readsocket hne hpos hagain.1).mono fun v hv => ⟨hv.1, fun _ => hv.2⟩
      · refine .ok ⟨hu, fun hne => ?_⟩
        have hle := hu.sound.start_le
        have hlpos : 0 < u.leftInPacket := by
          rw [hu.left]
          exact length_pos_iff.mpr hne
        omega
    unfold recvbufRead
    rw [if_pos hempty]
    refine .bind hfill fun t ht => ?_
    rw [if_neg (by have := ht.1.sound.start_le; omega)]
    exact .ok ht

/-! ### `TdsReadNextBuffer` and `TdsGetbytes` -/

/-- **`TdsReadNextBuffer` between two packets** consumes the header of the next one. -/
theorem AtBoundary.readNextBuffer :
    Gives (tdsReadNextBuffer fuel s) (InPacket size p p.payload rest) := by
  have hlen : packetHeaderSize ≤ s.pending.length := by
    rw [h.pending, length_append, p.length_bytes, Packet.size]
    omega
  obtain ⟨n, rfl⟩ : ∃ n, fuel = n + 2 := ⟨fuel - 2, by simp only [packetHeaderSize] at hlen; omega⟩
  refine .while_once (by simp [h.header]) ((h.recvbuf hsize hfuel).mono ?_)
  rintro t ⟨ht, hmore⟩
  refine ⟨ht, ?_⟩
  simp only [ht.header, Bool.or_false, decide_eq_false_iff_not, not_and, not_le]
  intro hleft
  rw [ht.left] at hleft
  exact hmore (length_pos_iff.mp hleft)

end

/-- The reader has consumed the packet `p`; its type and status are still there. -/
structure Consumed (size : Nat) (p : Packet) (rest : List UInt8) (s : RecvState) : Prop
    extends AtBoundary size rest s where
  messageType : s.recvMessageType = p.messageType
  status : s.recvPacketStatus = p.status

theorem InPacket.consume (h : InPacket size p todo rest s) {n : Nat} (htodo : n ≤ todo.length)
    (hbuf : n ≤ s.recvEnd - s.recvStart) :
    slice s.recvBuffer s.recvStart (s.recvStart + n) = todo.take n ∧
      (todo.drop n ≠ [] → InPacket size p (todo.drop n) rest
        (tdsConsumedBytes (s.setCursors (s.recvStart + n) s.recvEnd) n)) ∧
      (todo.drop n = [] → Consumed size p rest
        (tdsConsumedBytes (s.setCursors (s.recvStart + n) s.recvEnd) n)) := by
  have hle := h.sound.start_le
  have hstop : s.recvStart + n ≤ s.recvEnd := by omega
  have hlen : n ≤ s.unread.length := by rw [h.sound.length_unread]; exact hbuf
  have heq : s.unread ++ delivered s.socket = todo ++ rest := h.pending
  have htake : s.unread.take n = todo.take n := by
    have := congrArg (take n) heq
    rwa [take_append_of_le_length hlen, take_append_of_le_length htodo] at this
  have hdrop : slice s.recvBuffer (s.recvStart + n) s.recvEnd ++ delivered s.socket =
      todo.drop n ++ rest := by
    have := congrArg (drop n) heq
    rwa [drop_append_of_le_length hlen, drop_append_of_le_length htodo, unread, drop_slice] at this
  have hsound := h.sound.setCursors hstop h.sound.end_le
  have hsound' : (tdsConsumedBytes (s.setCursors (s.recvStart + n) s.recvEnd) n).Sound :=
    ⟨hsound.start_le, hsound.end_le, hsound.log_le, hsound.noFail⟩
  have hleft : s.leftInPacket - n = (todo.drop n).length := by rw [h.left, length_drop]
  refine ⟨?_, fun hne => ?_, fun hnil => ?_⟩
  · have hzero : s.unread.take n = slice s.unread 0 n := rfl
    rw [← htake, hzero, unread, slice_slice _ hstop, add_zero]
  · refine ⟨hsound', h.size, hleft, hdrop, ?_, h.messageType, h.status⟩
    have hpos : s.leftInPacket - n ≠ 0 := by
      rw [hleft]
      exact fun hz => hne (eq_nil_of_length_eq_zero hz)
    simpa [tdsConsumedBytes, setCursors, hpos] using h.header
  · rw [hnil, length_nil] at hleft
    rw [hnil, nil_append] at hdrop
    refine ⟨⟨hsound', h.size, hleft, hdrop, ?_⟩, h.messageType, h.status⟩
    simp [tdsConsumedBytes, setCursors, hleft]

/-- Inside a packet, the inner loop of `TdsGetbytes` makes sure that the buffer has data. -/
theorem InPacket.available {n : Nat} (h : InPacket size p todo rest s) (htodo : todo ≠ [])
    (hsize : 0 < size) :
    Gives (whileLoop nothingToGet (tdsRecvbuf fuel) (n + 2) s) fun t =>
      InPacket size p todo rest t ∧ t.recvStart < t.recvEnd := by
  have hcond : ∀ t, InPacket size p todo rest t → t.recvStart < t.recvEnd →
      nothingToGet t = false := by
    intro t ht hlt
    have hpos : 0 < todo.length := length_pos_iff.mpr htodo
    have hleft := ht.left
    simp only [nothingToGet, decide_eq_false_iff_not]
    omega
  by_cases hlt : s.recvStart < s.recvEnd
  · rw [whileLoop_false (hcond s h hlt)]
    exact .ok ⟨h, hlt⟩
  · refine .while_once ?_ ((h.recvbuf htodo hsize).mono fun t ht => ?_)
    · simp only [nothingToGet, decide_eq_true_eq]
      omega
    · exact ⟨ht, hcond t ht.1 ht.2⟩

/-- The loop invariant of `TdsGetbytes`: what has been copied and what is still to come make up
the payload. -/
def GetsPayload (size : Nat) (p : Packet) (rest : List UInt8) (g : Getbytes) : Prop :=
  ∃ todo, g.copied ++ todo = p.payload ∧ g.len = todo.length ∧
    (todo ≠ [] → InPacket size p todo rest g.state) ∧ (todo = [] → Consumed size p rest g.state)

theorem GetsPayload.getSome {g : Getbytes} (h : GetsPayload size p rest g) (hlen : 0 < g.len)
    (hsize : 0 < size) (hfuel : 2 ≤ fuel) :
    Gives (getSome fuel g) fun g' => GetsPayload size p rest g' ∧ g'.len < g.len := by
  obtain ⟨todo, hall, htodo, hin, -⟩ := h
  have hne : todo ≠ [] := length_pos_iff.mp (htodo ▸ hlen)
  obtain ⟨n, rfl⟩ : ∃ n, fuel = n + 2 := ⟨fuel - 2, by omega⟩
  refine .bind ((hin hne).available hne hsize) ?_
  rintro t ⟨ht, hlt⟩
  generalize hamount : min (min t.leftInPacket (t.recvEnd - t.recvStart)) g.len = amount
  have hleft := ht.left
  obtain ⟨hcopy, hmore, hlast⟩ := ht.consume (show amount ≤ todo.length by omega) (by omega)
  refine .ok ⟨⟨todo.drop amount, ?_, ?_, hmore, hlast⟩, ?_⟩
  · show (g.copied ++ _) ++ todo.drop amount = p.payload
    rw [hcopy, append_assoc, take_append_drop, hall]
  · rw [length_drop, htodo]
  · show g.len - amount < g.len
    omega

/-- **`TdsGetbytes` of the payload** returns the payload and leaves the reader behind the
packet. -/
theorem InPacket.getbytes (h : InPacket size p p.payload rest s) (hne : p.payload ≠ [])
    (hsize : 0 < size) (hfuel : p.payload.length + 1 < fuel) :
    Gives (tdsGetbytes fuel s.leftInPacket s) fun r =>
      r.1 = p.payload ∧ Consumed size p rest r.2 := by
  have hstart : GetsPayload size p rest ⟨s, [], s.leftInPacket⟩ :=
    ⟨p.payload, rfl, h.left, fun _ => h, fun hnil => absurd hnil hne⟩
  have hleft := h.left
  refine .bind (.while Getbytes.len ?_ hstart (show s.leftInPacket < fuel by omega)) ?_
  · intro g hg hlen
    exact hg.getSome (by simpa using hlen) hsize (by omega)
  · rintro g ⟨⟨todo, hall, htodo, -, hdone⟩, hlen⟩
    have hnil : todo = [] := by
      have : g.len = 0 := by simpa using hlen
      exact eq_nil_of_length_eq_zero (htodo.symm.trans this)
    rw [hnil, append_nil] at hall
    exact .ok ⟨hall, hdone hnil⟩

end Babelfish.Tds
