import Babelfish.Tds.BulkLoad

/-!
# The window of the bulk load parser

The parser of a bulk load sees the stream through a window: the part of the message behind the
offset, followed by the payloads of the packets that are still to come, is what is left of the
stream (`Ahead`).  Fetching more packets and dropping parsed bytes do not change it, so each
operation of the parser gets a rule in terms of the stream alone.

* `Ahead.fetch`: packets are fetched until the window is wide enough.
* `fetchMetadata`, `fetchRow`: a field is checked for and copied.
* `checkPlp_yields`, `takeRow_ahead`: the same inside a PLP value, where nothing is dropped.
-/

namespace Babelfish.Tds

open Lib List

/-- Only the last packet has the end-of-message bit. -/
def EomLast : List Packet → Prop
  | [] => True
  | p :: ps => p.eom = ps.isEmpty ∧ EomLast ps

/-- What does not change during a bulk load: the iterations a loop may make, the size of the
reader's buffer and the bytes behind the last packet. -/
structure Source where
  fuel : Nat
  size : Nat
  later : List UInt8

/-- The reader is in front of the packets `ps`. -/
structure Coming (src : Source) (ps : List Packet) (s : RecvState) : Prop where
  boundary : AtBoundary src.size (wire ps ++ src.later) s
  packets : ∀ p ∈ ps, p.messageType = bulkLoad ∧ p.payload ≠ [] ∧ p.size ≤ src.size
  eoms : EomLast ps
  status : (s.recvPacketStatus &&& statusEom != 0) = ps.isEmpty

/-- **The rest of the stream is `rest`**: at least `k` bytes of it are in the message, behind the
parsed part `pre` of the message. -/
structure Ahead (src : Source) (pre : List UInt8) (k : Nat) (rest : List UInt8) (b : BcpState) :
    Prop where
  coming : ∃ ps, Coming src ps b.recv ∧ b.unparsed ++ ps.flatMap Packet.payload = rest
  parsed : b.message.take b.bcpOffset = pre
  available : b.bcpOffset + k ≤ b.message.length
  pending : b.recv.pending.length < src.fuel
  short : rest.length < src.fuel
  bound : pre.length + rest.length < 2 ^ 63

/-- The same with any parsed part. -/
def Upto (src : Source) (k : Nat) (rest : List UInt8) (b : BcpState) : Prop :=
  ∃ pre, Ahead src pre k rest b

section

variable {src : Source} {pre rest : List UInt8} {k : Nat} {b : BcpState} {n : Nat}

theorem Ahead.mono (h : Ahead src pre k rest b) {j : Nat} (hj : j ≤ k) : Ahead src pre j rest b :=
  ⟨h.coming, h.parsed, Nat.le_trans (Nat.add_le_add_left hj _) h.available, h.pending, h.short,
    h.bound⟩

theorem Upto.mono (h : Upto src k rest b) {j : Nat} (hj : j ≤ k) : Upto src j rest b := by
  obtain ⟨pre, h⟩ := h
  exact ⟨pre, h.mono hj⟩

/-- Fetching packets keeps the counters of the batch. -/
def SameCounters (b t : BcpState) : Prop :=
  t.currentBatchSize = b.currentBatchSize ∧ t.rowCount = b.rowCount

theorem Ahead.counters (h : Ahead src pre k rest b) (size : Int) (rows : Nat) :
    Ahead src pre k rest { b with currentBatchSize := size, rowCount := rows } :=
  ⟨h.coming, h.parsed, h.available, h.pending, h.short, h.bound⟩

theorem BcpState.length_unparsed (b : BcpState) :
    b.unparsed.length = b.message.length - b.bcpOffset := by
  rw [BcpState.unparsed, length_drop]

section

variable (h : Ahead src pre k rest b)
include h

theorem Ahead.offset_eq : b.bcpOffset = pre.length := by
  have := h.available
  rw [← h.parsed, length_take]
  omega

theorem Ahead.message_eq : pre ++ b.unparsed = b.message := by
  rw [← h.parsed, BcpState.unparsed, take_append_drop]

theorem Ahead.length_message : b.message.length = pre.length + b.unparsed.length := by
  rw [← h.message_eq, length_append]

theorem Ahead.length_unparsed_le : b.unparsed.length ≤ rest.length := by
  obtain ⟨ps, -, rfl⟩ := h.coming
  rw [length_append]
  exact Nat.le_add_right _ _

theorem Ahead.length_message_lt : b.message.length < 2 ^ 63 := by
  have hbound := h.bound
  have hlen := h.length_unparsed_le
  rw [h.length_message]
  omega

theorem Ahead.eom_iff : tdsGetRecvPacketEomStatus b = true ↔ rest.length ≤ b.unparsed.length := by
  obtain ⟨ps, hps, rfl⟩ := h.coming
  rw [tdsGetRecvPacketEomStatus, hps.status, length_append]
  cases ps with
  | nil => simp
  | cons p ps =>
    have hpos := length_pos_of_ne_nil (hps.packets p mem_cons_self).2.1
    rw [flatMap_cons, length_append]
    simp only [isEmpty_cons, Bool.false_eq_true, false_iff]
    omega

end

/-! ### Fetching packets -/

theorem Coming.tail {p : Packet} {ps : List Packet} {s t : RecvState} (h : Coming src (p :: ps) s)
    (ht : Consumed src.size p (wire ps ++ src.later) t) : Coming src ps t where
  boundary := ht.toAtBoundary
  packets := fun q hq => h.packets q (mem_cons_of_mem p hq)
  eoms := h.eoms.2
  status := by rw [ht.status]; exact h.eoms.1

/-- **`TdsReadNextPendingBcpRequest`** widens the window. -/
theorem Ahead.readNext (h : Ahead src pre k rest b) (hmore : b.unparsed.length < rest.length) :
    Gives (tdsReadNextPendingBcpRequest src.fuel b) fun t =>
      (Ahead src pre k rest t ∧ SameCounters b t) ∧
        t.recv.pending.length < b.recv.pending.length := by
  obtain ⟨ps, hps, hrest⟩ := h.coming
  cases ps with
  | nil =>
    rw [← hrest, flatMap_nil, append_nil] at hmore
    exact absurd hmore (Nat.lt_irrefl _)
  | cons p ps =>
    obtain ⟨htype, hne, hsize⟩ := hps.packets p mem_cons_self
    have hbound := hps.boundary
    rw [wire_cons, append_assoc] at hbound
    obtain ⟨t, u, ht, hin, hu, hcons⟩ := hbound.readPayload hsize h.pending hne
    have hless : u.pending.length < b.recv.pending.length := by
      have hall := congrArg List.length hbound.pending
      rw [length_append, p.length_bytes, Packet.size, packetHeaderSize] at hall
      rw [hcons.pending]
      omega
    have havail : b.bcpOffset + k ≤ b.message.length := h.available
    have hoffset : b.bcpOffset ≤ b.message.length := by omega
    refine ⟨{ b with message := b.message ++ p.payload, recv := u }, ?_, ⟨⟨⟨ps, hps.tail hcons, ?_⟩,
      ?_, ?_, Nat.lt_trans hless h.pending, h.short, h.bound⟩, rfl, rfl⟩, hless⟩
    · have hbulk : ¬ t.recvMessageType ≠ bulkLoad := by rw [hin.messageType, htype]; simp
      simp only [tdsReadNextPendingBcpRequest, ht, fromReader, Outcome.ok_bind, if_neg hbulk, hu,
        Outcome.pure_eq]
    · rw [← hrest, flatMap_cons, ← append_assoc]
      congr 1
      exact drop_append_of_le_length hoffset
    · rw [← h.parsed]
      exact take_append_of_le_length hoffset
    · show b.bcpOffset + k ≤ (b.message ++ p.payload).length
      rw [length_append]
      omega

section

variable (h : Ahead src pre 0 rest b)
include h

/-- The state in front of the loop: what was parsed is dropped, or kept. -/
theorem Ahead.dropParsed (free : Bool) :
    Ahead src (if free then [] else pre) 0 rest
      (if free then { b with message := b.unparsed, bcpOffset := 0 } else b) := by
  cases free with
  | false => exact h
  | true =>
    have hbound := h.bound
    refine ⟨h.coming, rfl, Nat.zero_le _, h.pending, h.short, ?_⟩
    rw [if_pos rfl, length_nil]
    omega

/-- **`FetchMoreBcpData`** fetches packets until the window is wide enough. -/
theorem Ahead.fetch (hn : n ≤ rest.length)
    (hint : n < 2 ^ 31) (hshort : b.unparsed.length < n) (free : Bool) :
    Gives (fetchMoreBcpData src.fuel free n b) fun t =>
      Ahead src (if free then [] else pre) n rest t ∧ SameCounters b t := by
  have hwidth : ∀ t : BcpState, Ahead src (if free then [] else pre) 0 rest t →
      (t.message.length < toUInt64 (toInt32 n + t.bcpOffset) ↔ t.unparsed.length < n) := by
    intro t ht
    have hlen := ht.length_message_lt
    have havail := ht.available
    rw [t.length_unparsed]
    unfold toUInt64 toInt32
    rw [if_pos hint]
    omega
  unfold fetchMoreBcpData
  rw [if_neg (by rw [h.eom_iff]; omega)]
  refine (Gives.while (I := fun t => Ahead src (if free then [] else pre) 0 rest t ∧
    SameCounters b t) (fun t => t.recv.pending.length) ?_ ⟨h.dropParsed free, ?_⟩ ?_).mono ?_
  · rintro t ⟨ht, hsize, hrows⟩ hcond
    have hlt := (hwidth t ht).mp (by simpa using hcond)
    refine (ht.readNext (by omega)).mono ?_
    rintro u ⟨⟨hu, hsize', hrows'⟩, hless⟩
    exact ⟨⟨hu, hsize'.trans hsize, hrows'.trans hrows⟩, hless⟩
  · cases free with
    | false | true => exact ⟨rfl, rfl⟩
  · cases free with
    | false | true => exact h.pending
  · rintro t ⟨⟨ht, hsame⟩, hcond⟩
    have hge : ¬ t.unparsed.length < n := fun hlt => by
      have := (hwidth t ht).mpr hlt
      simp [this] at hcond
    have havail := ht.available
    rw [t.length_unparsed] at hge
    exact ⟨⟨ht.coming, ht.parsed, by omega, ht.pending, ht.short, ht.bound⟩, hsame⟩

theorem Ahead.enough (n : Nat) :
    toUInt64 (b.message.length - b.bcpOffset) < n ↔ b.unparsed.length < n := by
  have hlen := h.length_message_lt
  have havail := h.available
  rw [b.length_unparsed]
  unfold toUInt64
  omega

theorem Ahead.check (hn : n ≤ rest.length) (hint : n < 2 ^ 31) (free : Bool) :
    Gives (checkMessage (fetchMoreBcpData src.fuel free) n b) fun r => r.1 = () ∧
      SameCounters b r.2 ∧ ∃ pre', (free = false → pre' = pre) ∧ Ahead src pre' n rest r.2 := by
  unfold checkMessage
  by_cases hshort : b.unparsed.length < n
  · rw [if_pos ((h.enough n).mpr hshort)]
    refine .bind (h.fetch hn hint hshort free) fun t ht => .ok ⟨rfl, ht.2, _, ?_, ht.1⟩
    intro hfree
    rw [hfree]
    rfl
  · rw [if_neg fun hlt => hshort ((h.enough n).mp hlt)]
    have havail : b.bcpOffset + n ≤ b.message.length := by
      have := h.available
      rw [b.length_unparsed] at hshort
      omega
    exact .ok ⟨rfl, ⟨rfl, rfl⟩, pre, fun _ => rfl, ⟨h.coming, h.parsed, havail, h.pending,
      h.short, h.bound⟩⟩

end

/-! ### Rules for the operations -/

theorem Ahead.take {xs : List UInt8} (h : Ahead src pre (n + k) (xs ++ rest) b)
    (hlen : xs.length = n) : slice b.message b.bcpOffset (b.bcpOffset + n) = xs ∧
      Ahead src (pre ++ xs) k rest { b with bcpOffset := b.bcpOffset + n } := by
  obtain ⟨ps, hps, hrest⟩ := h.coming
  have havail := h.available
  have hbound := h.bound
  have hshort := h.short
  have hwide : n ≤ b.unparsed.length := by
    rw [b.length_unparsed]
    omega
  have hcopy : b.unparsed.take n = xs := by
    have := congrArg (List.take n) hrest
    rwa [take_append_of_le_length hwide, take_left' hlen] at this
  have hslice : slice b.message b.bcpOffset (b.bcpOffset + n) = xs := by
    rw [← hcopy, BcpState.unparsed, slice, drop_take, Nat.add_sub_cancel_left]
  refine ⟨hslice, ⟨ps, hps, ?_⟩, ?_, ?_, h.pending, ?_, ?_⟩
  · have := congrArg (List.drop n) hrest
    rw [drop_append_of_le_length hwide, drop_left' hlen] at this
    rw [← this, BcpState.unparsed, BcpState.unparsed, drop_drop]
  · show b.message.take (b.bcpOffset + n) = pre ++ xs
    rw [← h.parsed, ← hcopy, BcpState.unparsed, take_add]
  · show b.bcpOffset + n + k ≤ b.message.length
    omega
  · rw [length_append] at hshort
    omega
  · rw [length_append] at hbound ⊢
    omega

variable {n : Nat} {xs : List UInt8}

section

variable (hn : n ≤ rest.length) (hint : n < 2 ^ 31)
include hn hint

theorem checkColMetadata_yields :
    Yields (Upto src 0 rest) (checkColMetadata src.fuel n) () (Upto src n rest) := by
  rintro b ⟨pre, h⟩
  exact (h.check hn hint false).mono fun r ⟨hr, _, pre', _, h'⟩ => ⟨hr, pre', h'⟩

theorem checkRows_yields :
    Yields (Upto src 0 rest) (checkRows src.fuel n) () (Upto src n rest) := by
  rintro b ⟨pre, h⟩
  exact (h.check hn hint true).mono fun r ⟨hr, _, pre', _, h'⟩ => ⟨hr, pre', h'⟩

/-- Inside a PLP value nothing is dropped. -/
theorem checkPlp_yields :
    Yields (Ahead src pre 0 rest) (checkPlp src.fuel n) () (Ahead src pre n rest) := by
  intro b h
  refine (h.check hn hint false).mono ?_
  rintro r ⟨hr, -, pre', hpre, h'⟩
  exact ⟨hr, hpre rfl ▸ h'⟩

end

theorem take_yields (hlen : xs.length = n) :
    Yields (Upto src (n + k) (xs ++ rest)) (take n) xs (Upto src k rest) := by
  rintro b ⟨pre, h⟩
  obtain ⟨hcopy, hnext⟩ := h.take hlen
  exact .ok ⟨hcopy, pre ++ xs, hnext⟩

theorem takeByte_yields {x : UInt8} :
    Yields (Upto src (1 + k) ([x] ++ rest)) takeByte x (Upto src k rest) :=
  Yields.bind (take_yields rfl) Yields.pure

theorem takeRow_ahead (hlen : xs.length = n) :
    Yields (Ahead src pre (n + k) (xs ++ rest)) (takeRow n) xs (Ahead src (pre ++ xs) k rest) := by
  intro b h
  obtain ⟨hcopy, hnext⟩ := h.take hlen
  exact .ok ⟨hcopy, hnext.counters _ _⟩

theorem takeRow_yields (hlen : xs.length = n) :
    Yields (Upto src (n + k) (xs ++ rest)) (takeRow n) xs (Upto src k rest) := by
  rintro b ⟨pre, h⟩
  exact (takeRow_ahead hlen b h).mono fun r hr => ⟨hr.1, pre ++ xs, hr.2⟩

variable {α : Type} {f : List UInt8 → Bcp α} {a : α} {Q : BcpState → Prop}

theorem fetchMetadata (hlen : xs.length = n) (hint : n < 2 ^ 31)
    (hf : Yields (Upto src 0 rest) (f xs) a Q) :
    Yields (Upto src 0 (xs ++ rest)) (do
      checkColMetadata src.fuel n
      let bytes ← Tds.take n
      f bytes) a Q := by
  refine .bind (checkColMetadata_yields ?_ hint) (.bind (take_yields (k := 0) hlen) hf)
  rw [length_append]
  omega

theorem fetchMetadataByte {x : UInt8} {f : UInt8 → Bcp α}
    (hf : Yields (Upto src 0 rest) (f x) a Q) :
    Yields (Upto src 0 ([x] ++ rest)) (do
      checkColMetadata src.fuel 1
      let byte ← takeByte
      f byte) a Q := by
  refine .bind (checkColMetadata_yields ?_ (by decide))
    (Yields.bind (takeByte_yields (k := 0)) hf)
  rw [length_append]
  exact Nat.le_add_right 1 _

theorem fetchRow (hlen : xs.length = n) (hint : n < 2 ^ 31)
    (hf : Yields (Upto src 0 rest) (f xs) a Q) :
    Yields (Upto src 0 (xs ++ rest)) (do
      checkRows src.fuel n
      let bytes ← takeRow n
      f bytes) a Q := by
  refine .bind (checkRows_yields ?_ hint) (.bind (takeRow_yields (k := 0) hlen) hf)
  rw [length_append]
  omega

end

end Babelfish.Tds
