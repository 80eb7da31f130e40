import Babelfish.Tds.RecvSpec

/-!
# Successive calls of `TdsReadNextRequest`

One iteration of the loop of `TdsReadNextRequest` consumes one packet.  Behind a packet with a
payload the reader asks for the next header; behind an empty packet it does so only in some cases
(`Recovers`), and in the others it takes the header it has already consumed for the next one.

* `readPacket_spec`: what one iteration does.
* `readRequests_iff`: successive calls return the requests of the stream exactly when the reader
  stays in step.
* `staysReady_of_payloads`: a stream without empty packets never gets the reader out of step.
* `readRequests_messages`: such a stream is read back as the messages it was made from, however
  the socket cuts it.
* `readRequests_iff_staysReady`: for streams with empty packets.
-/

namespace Babelfish.Tds

open Lib RecvState List Packet

/-! ### One packet -/

/-- The request after the packet `p`. -/
def Packet.extend (p : Packet) : Option Request → Request
  | none => p.request
  | some r => { r with message := r.message ++ p.payload }

/-- **The packet leaves the reader asking for a header.**  `t` is the state after the iteration
that read the packet. -/
def Recovers (p : Packet) (t : RecvState) : Prop :=
  p.payload ≠ [] ∨ (p.eom = true ∧ t.recvStart = t.recvEnd) ∨
    (p.eom = false ∧ p.messageType = bulkLoad)

/-- The state after the iteration that read the packet `p`: in step, or still with the header of
`p` as the current one. -/
def Leaves (size : Nat) (p : Packet) (rest : List UInt8) (t : RecvState) : Prop :=
  (Recovers p t ∧ AtBoundary size rest t) ∨ (¬ Recovers p t ∧ InPacket size p [] rest t)

/-- What the iteration that read the packet `p` decides. -/
def Packet.decides (p : Packet) (req : Option Request) (t : RecvState) :
    Iter ReadRequest (Request × RecvState) :=
  if p.endsRequest then .done (p.extend req, t) else .next ⟨t, some (p.extend req)⟩

theorem tdsGetbytes_zero (fuel : Nat) (s : RecvState) :
    tdsGetbytes (fuel + 1) 0 s = .ok ([], s) := by
  rfl

variable {rest : List UInt8} {s : RecvState}
variable {size : Nat}

theorem AtBoundary.askHeader (h : AtBoundary size rest s) :
    AtBoundary size rest { s with doProcessHeader := true } :=
  ⟨⟨h.sound.start_le, h.sound.end_le, h.sound.log_le, h.sound.noFail⟩, h.size, h.left, h.pending,
    rfl⟩

variable {p : Packet}

theorem InPacket.askHeader (h : InPacket size p [] rest s) :
    AtBoundary size rest { s with doProcessHeader := true } :=
  ⟨⟨h.sound.start_le, h.sound.end_le, h.sound.log_le, h.sound.noFail⟩, h.size, h.left, h.pending,
    rfl⟩

theorem extendRequest_eq {todo : List UInt8} (h : InPacket size p todo rest s)
    (req : Option Request) : extendRequest s p.payload req = p.extend req := by
  cases req with
  | none => simp [extendRequest, extend, request, h.messageType, h.status]
  | some r => rfl

theorem endOfPacket_eq (hstatus : s.recvPacketStatus = p.status)
    (htype : s.recvMessageType = p.messageType) (hleft : s.leftInPacket = 0)
    (req : Option Request) :
    endOfPacket (p.extend req) s = p.decides req
      (if (p.eom = true ∧ s.recvStart = s.recvEnd) ∨ (p.eom = false ∧ p.messageType = bulkLoad)
        then { s with doProcessHeader := true } else s) := by
  have heom : (s.recvPacketStatus &&& statusEom != 0) = p.eom := by rw [hstatus]; rfl
  unfold endOfPacket decides endsRequest
  rw [heom, htype, hleft]
  cases p.eom with
  | true => by_cases hempty : s.recvStart = s.recvEnd <;> simp [hempty]
  | false => by_cases hbulk : p.messageType = bulkLoad <;> simp [hbulk]

theorem endOfPacket_consumed (h : Consumed size p rest s) :
    ∃ t, AtBoundary size rest t ∧
      ∀ req, endOfPacket (p.extend req) s = p.decides req t := by
  refine ⟨_, ?_, endOfPacket_eq h.status h.messageType h.left⟩
  split
  · exact h.toAtBoundary.askHeader
  · exact h.toAtBoundary

theorem endOfPacket_empty (h : InPacket size p [] rest s) (hnil : p.payload = []) :
    ∃ t, Leaves size p rest t ∧ (¬ Recovers p s → t = s) ∧
      ∀ req, endOfPacket (p.extend req) s = p.decides req t := by
  refine ⟨_, ?_, fun hno => if_neg fun hasks => hno (.inr hasks),
    endOfPacket_eq h.status h.messageType h.left⟩
  split
  · exact .inl ⟨.inr ‹_›, h.askHeader⟩
  · refine .inr ⟨?_, h⟩
    rintro (hne | hasks)
    · exact hne hnil
    · contradiction

variable {req : Option Request} {fuel : Nat}

section

variable (h : AtBoundary size (p.bytes ++ rest) s) (hsize : p.size ≤ size)
  (hfuel : s.pending.length < fuel)
include h hsize hfuel

theorem AtBoundary.readPayload (hne : p.payload ≠ []) : ∃ t u,
      tdsReadNextBuffer fuel s = .ok t ∧ InPacket size p p.payload rest t ∧
      tdsGetbytes fuel t.leftInPacket t = .ok (p.payload, u) ∧ Consumed size p rest u := by
  have hpos : 0 < size := Nat.lt_of_lt_of_le (by simp [Packet.size, packetHeaderSize]) hsize
  have hlen : p.payload.length + packetHeaderSize ≤ s.pending.length := by
    rw [h.pending, length_append, p.length_bytes, Packet.size]
    omega
  simp only [packetHeaderSize] at hlen
  obtain ⟨t, ht, hin⟩ := h.readNextBuffer hsize hfuel
  obtain ⟨⟨data, u⟩, hu, rfl, hcons⟩ :=
    hin.getbytes hne hpos (show p.payload.length + 1 < fuel by omega)
  exact ⟨t, u, ht, hin, hu, hcons⟩

/-- **One iteration of `TdsReadNextRequest`** consumes one packet. -/
theorem readPacket_spec : ∃ t, Leaves size p rest t ∧
      ∀ req, readPacket fuel ⟨s, req⟩ = .ok (p.decides req t) := by
  by_cases hne : p.payload = []
  · obtain ⟨u, hu, hin⟩ := h.readNextBuffer hsize hfuel
    have hin' : InPacket size p [] rest u := hne ▸ hin
    obtain ⟨n, rfl⟩ : ∃ n, fuel = n + 1 := ⟨fuel - 1, by omega⟩
    have hget : tdsGetbytes (n + 1) u.leftInPacket u = .ok (p.payload, u) := by
      rw [hin'.left, hne]
      exact tdsGetbytes_zero n u
    obtain ⟨t, hleaves, -, ht⟩ := endOfPacket_empty hin' hne
    refine ⟨t, hleaves, fun req => ?_⟩
    simp only [readPacket, hu, hget, Outcome.ok_bind, extendRequest_eq hin, ht, Outcome.pure_eq]
  · obtain ⟨u, v, hu, hin, hget, hv⟩ := h.readPayload hsize hfuel hne
    obtain ⟨t, hbound, ht⟩ := endOfPacket_consumed hv
    refine ⟨t, .inl ⟨.inl hne, hbound⟩, fun req => ?_⟩
    simp only [readPacket, hu, hget, Outcome.ok_bind, extendRequest_eq hin, ht, Outcome.pure_eq]

end

/-- **An iteration out of step consumes nothing**: it delivers the empty packet, whose header is
still the current one, once more. -/
theorem readPacket_stale (h : InPacket size p [] rest s) (hnil : p.payload = [])
    (hno : ¬ Recovers p s) : readPacket (fuel + 1) ⟨s, req⟩ = .ok (p.decides req s) := by
  have hbuffer : tdsReadNextBuffer (fuel + 1) s = .ok s :=
    whileLoop_false (by simp [h.header, h.left])
  have hget : tdsGetbytes (fuel + 1) s.leftInPacket s = .ok (p.payload, s) := by
    rw [h.left, hnil]
    exact tdsGetbytes_zero fuel s
  obtain ⟨t, -, hsame, ht⟩ := endOfPacket_empty h hnil
  rw [hsame hno] at ht
  simp only [readPacket, hbuffer, hget, Outcome.ok_bind, extendRequest_eq h, ht, Outcome.pure_eq]

/-! ### One call -/

/-- The packets end with the end of a request. -/
def Complete : List Packet → Prop
  | [] => True
  | [p] => p.endsRequest = true
  | _ :: p :: ps => Complete (p :: ps)

/-- The state of the connection behind the packet that one iteration reads. -/
def behindPacket (fuel : Nat) (s : RecvState) : RecvState :=
  match readPacket fuel ⟨s, none⟩ with
  | .ok (.done (_, t)) | .ok (.next ⟨t, _⟩) => t
  | .error _ | .timeout => s

/-- **The reader stays in step**: behind each of the packets it asks for the next header. -/
def StaysReady (fuel : Nat) : List Packet → RecvState → Prop
  | [], _ => True
  | p :: ps, s => Recovers p (behindPacket fuel s) ∧ StaysReady fuel ps (behindPacket fuel s)

def Request.after : Option Request → Request → Request
  | none, r => r
  | some q, r => { q with message := q.message ++ r.message }

variable {ps : List Packet}
variable {t : RecvState} {socket : List ReadEvent} {u : RecvState}

theorem Complete.tail (h : Complete (p :: ps)) : Complete ps := by
  cases ps with
  | nil => trivial
  | cons q ps => exact h

theorem Complete.ne_nil (h : Complete (p :: ps)) (hp : p.endsRequest = false) : ps ≠ [] := by
  rintro rfl
  rw [Complete, hp] at h
  simp at h

/-- How a call ends that starts between two packets. -/
inductive Answered (fuel size : Nat) (rest : List UInt8) (ps : List Packet) (s : RecvState)
    (req : Option Request) (out : Outcome Stop (Request × RecvState)) : Prop where
  /-- It returns the next request and is in step. -/
  | request (r : Request) (ps' : List Packet) (t : RecvState)
      (returns : out = .ok (Request.after req r, t)) (next : requests ps = r :: requests ps')
      (complete : Complete ps') (shorter : ps'.length < ps.length) (suffix : ps' ⊆ ps)
      (boundary : AtBoundary size (wire ps' ++ rest) t)
      (less : t.pending.length ≤ s.pending.length)
      (ready : StaysReady fuel ps s ↔ StaysReady fuel ps' t)
  /-- It never returns. -/
  | diverges (timeout : out = .timeout) (ready : ¬ StaysReady fuel ps s)
  /-- It returns and is out of step, with the header of an empty packet as the current one. -/
  | stale (p : Packet) (rest' : List UInt8) (r : Request) (t : RecvState)
      (returns : out = .ok (r, t)) (inside : InPacket size p [] rest' t)
      (empty : p.payload = []) (ends : p.endsRequest = true) (lost : ¬ Recovers p t)
      (ready : ¬ StaysReady fuel ps s)

theorem staysReady_cons (ps : List Packet)
    (ht : ∀ req, readPacket fuel ⟨s, req⟩ = .ok (p.decides req t)) :
    StaysReady fuel (p :: ps) s ↔ Recovers p t ∧ StaysReady fuel ps t := by
  have hbehind : behindPacket fuel s = t := by
    unfold behindPacket
    rw [ht none, decides]
    cases p.endsRequest <;> rfl
  rw [StaysReady, hbehind]

/-- Out of step inside a message, the loop runs forever. -/
theorem loop_stale (h : InPacket size p [] rest s) (hnil : p.payload = []) (hno : ¬ Recovers p s)
    (hends : p.endsRequest = false) (n : Nat) :
    loop (readPacket (fuel + 1)) n ⟨s, req⟩ = .timeout := by
  refine loop_diverges (I := fun r => r.state = s) ?_ n _ rfl
  rintro ⟨t, req⟩ rfl
  refine ⟨⟨t, some (p.extend req)⟩, ?_, rfl⟩
  rw [readPacket_stale h hnil hno, decides, hends]
  rfl

/-- **A call of `TdsReadNextRequest` that starts between two packets.** -/
theorem loop_readPacket (ps : List Packet) (n : Nat) (s : RecvState) (req : Option Request)
    (hne : ps ≠ []) (hcomplete : Complete ps) (hs : AtBoundary size (wire ps ++ rest) s)
    (hsize : ∀ p ∈ ps, p.size ≤ size) (hfuel : s.pending.length < fuel) (hn : ps.length ≤ n) :
    Answered fuel size rest ps s req (loop (readPacket fuel) n ⟨s, req⟩) := by
  induction ps generalizing n s req with
  | nil => exact absurd rfl hne
  | cons p ps ih =>
    obtain ⟨m, rfl⟩ : ∃ m, n = m + 1 := ⟨n - 1, by simp only [length_cons] at hn; omega⟩
    have hs' : AtBoundary size (p.bytes ++ (wire ps ++ rest)) s := by
      rwa [← append_assoc]
    obtain ⟨t, hleaves, ht⟩ := readPacket_spec hs' (hsize p (by simp)) hfuel
    have hready := staysReady_cons ps ht
    have hless : (wire ps ++ rest).length ≤ s.pending.length := by
      simp only [hs'.pending, length_append]
      omega
    simp only [loop, ht, Outcome.ok_bind, decides]
    rcases hleaves with ⟨hrec, hbound⟩ | ⟨hno, hin⟩
    · cases hends : p.endsRequest with
      | true =>
        refine .request p.request ps t ?_ (by simp [requests, hends]) hcomplete.tail (by simp)
          (subset_cons_self p ps) hbound (by rw [hbound.pending]; exact hless)
          (by simp [hready, hrec])
        cases req <;> rfl
      | false =>
        have hnext := ih m t (some (p.extend req)) (hcomplete.ne_nil hends) hcomplete.tail hbound
          (forall_mem_cons.mp hsize).2 (by rw [hbound.pending]; omega)
          (by simpa using hn)
        cases hnext with
        | request r ps' u hret hreq hcomp hshort hsub hu hle hru =>
          refine .request (p.before r) ps' u (hret.trans ?_) (by simp [requests, hends, hreq]) hcomp
            (Nat.lt_succ_of_lt hshort) (subset_cons_of_subset p hsub) hu
            (by rw [hbound.pending] at hle; omega) (by simp [hready, hrec, hru])
          cases req <;> simp [Request.after, extend, before, request]
        | diverges hout hru => exact .diverges hout (by simp [hready, hru])
        | stale q rest' r u hret hu hnil hq hlost hru =>
          exact .stale q rest' r u hret hu hnil hq hlost (by simp [hready, hru])
    · have hnil : p.payload = [] := by
        by_contra hne
        exact hno (.inl hne)
      have hnot : ¬ StaysReady fuel (p :: ps) s := fun h => hno (hready.mp h).1
      cases hends : p.endsRequest with
      | true => exact .stale p _ _ t rfl hin hnil hends hno hnot
      | false =>
        obtain ⟨k, rfl⟩ : ∃ k, fuel = k + 1 := ⟨fuel - 1, by omega⟩
        exact .diverges (loop_stale hin hnil hno hends m) hnot

/-- An empty packet inside a message keeps the call from returning. -/
theorem AtBoundary.diverges (h : AtBoundary size (p.bytes ++ rest) s) (hsize : p.size ≤ size)
    (hfuel : s.pending.length < fuel) (hnil : p.payload = []) (hends : p.endsRequest = false) :
    tdsReadNextRequest fuel s = .timeout := by
  obtain ⟨t, hleaves, ht⟩ := readPacket_spec h hsize hfuel
  obtain ⟨heom, hbulk⟩ : p.eom = false ∧ (p.messageType == bulkLoad) = false := by
    simpa [endsRequest] using hends
  have hno : ¬ Recovers p t := by
    rintro (hp | ⟨he, -⟩ | ⟨-, hb⟩)
    · exact hp hnil
    · rw [heom] at he
      simp at he
    · rw [hb] at hbulk
      simp at hbulk
  have hin : InPacket size p [] rest t := by
    rcases hleaves with hl | hl
    · exact absurd hl.1 hno
    · exact hl.2
  obtain ⟨k, rfl⟩ : ∃ k, fuel = k + 1 := ⟨fuel - 1, by omega⟩
  simp only [tdsReadNextRequest, loop, ht, Outcome.ok_bind, decides, hends]
  exact loop_stale hin hnil hno hends k

/-! ### Successive calls -/

theorem Complete.requests_ne_nil (h : Complete ps) (hne : ps ≠ []) : requests ps ≠ [] := by
  induction ps with
  | nil => exact absurd rfl hne
  | cons p ps ih =>
    cases hends : p.endsRequest with
    | true => simp [requests, hends]
    | false =>
      obtain ⟨r, rs, hr⟩ := exists_cons_of_ne_nil (ih h.tail (h.ne_nil hends))
      simp [requests, hends, hr]

theorem length_le_wire (ps : List Packet) : ps.length ≤ (wire ps).length :=
  length_le_length_flatMap (fun p => by rw [p.length_bytes]; exact Nat.succ_pos _) ps

theorem readRequests_succ {n : Nat} {r q : Request} {rs : List Request}
    (h : tdsReadNextRequest fuel s = .ok (r, t)) :
    readRequests fuel (n + 1) s = .ok (q :: rs, u) ↔
      r = q ∧ readRequests fuel n t = .ok (rs, u) := by
  simp only [readRequests, h, Outcome.ok_bind]
  cases hn : readRequests fuel n t with
  | ok a =>
    obtain ⟨qs, v⟩ := a
    simp [and_assoc]
  | error e | timeout => simp

theorem tdsReadNextRequest_of_readRequests {r : Request}
    (h : readRequests fuel 1 s = .ok ([r], t)) : tdsReadNextRequest fuel s = .ok (r, t) := by
  cases hcall : tdsReadNextRequest fuel s with
  | ok a =>
    obtain ⟨rfl, hu⟩ := (readRequests_succ hcall).mp h
    cases hu
    rfl
  | error e | timeout => simp [readRequests, hcall] at h

/-- Out of step behind a message, every call returns the empty packet again. -/
theorem readRequests_stale (h : InPacket size p [] rest s) (hnil : p.payload = [])
    (hno : ¬ Recovers p s) (hends : p.endsRequest = true) (n : Nat) :
    readRequests (fuel + 1) n s = .ok (List.replicate n p.request, s) := by
  have hcall : tdsReadNextRequest (fuel + 1) s = .ok (p.request, s) := by
    simp [tdsReadNextRequest, loop, readPacket_stale h hnil hno, decides, hends, extend]
  induction n with
  | zero => rfl
  | succ n ih => simp [readRequests, hcall, ih, replicate_succ]

/-- **The reader returns the requests of the stream and consumes just their packets exactly when
it stays in step.** -/
theorem readRequests_iff (k : Nat) (hk : ps.length ≤ k)
    (hcomplete : Complete ps) (hs : AtBoundary size (wire ps ++ rest) s)
    (hsize : ∀ p ∈ ps, p.size ≤ size) (hfuel : s.pending.length < fuel) :
    ((∃ t, readRequests fuel (requests ps).length s = .ok (requests ps, t) ∧
      AtBoundary size rest t) ↔ StaysReady fuel ps s) := by
  induction k generalizing ps s with
  | zero =>
    obtain rfl : ps = [] := eq_nil_of_length_eq_zero (by omega)
    exact ⟨fun _ => trivial, fun _ => ⟨s, rfl, hs⟩⟩
  | succ k ih =>
    by_cases hne : ps = []
    · subst hne
      exact ⟨fun _ => trivial, fun _ => ⟨s, rfl, hs⟩⟩
    have hlen : ps.length ≤ fuel := by
      have hwire := length_le_wire ps
      rw [hs.pending, length_append] at hfuel
      omega
    have hcall := loop_readPacket ps fuel s none hne hcomplete hs hsize hfuel hlen
    obtain ⟨r, rs, hr⟩ := exists_cons_of_ne_nil (hcomplete.requests_ne_nil hne)
    cases hcall with
    | request r' ps' t hret hreq hcomp hshort hsub ht hless hready =>
      have hret' : tdsReadNextRequest fuel s = .ok (r', t) := hret
      rw [hready, hreq, length_cons,
        ← ih (by omega) hcomp ht (fun p hp => hsize p (hsub hp)) (by omega)]
      simp only [readRequests_succ hret', true_and]
    | diverges hout hready =>
      have hout' : tdsReadNextRequest fuel s = .timeout := hout
      refine ⟨?_, fun h => absurd h hready⟩
      rintro ⟨u, hu, -⟩
      rw [hr, length_cons, readRequests, hout'] at hu
      simp at hu
    | stale p rest' r' t hret hin hnil hends hlost hready =>
      have hret' : tdsReadNextRequest fuel s = .ok (r', t) := hret
      obtain ⟨m, rfl⟩ : ∃ m, fuel = m + 1 := ⟨fuel - 1, by omega⟩
      refine ⟨?_, fun h => absurd h hready⟩
      rintro ⟨u, hu, hbound⟩
      rw [hr, length_cons, readRequests_succ hret', readRequests_stale hin hnil hlost hends] at hu
      simp only [Outcome.ok.injEq, Prod.mk.injEq] at hu
      obtain ⟨-, -, rfl⟩ := hu
      exact absurd hbound.header (by simp [hin.header])

theorem staysReady_of_payloads (hs : AtBoundary size (wire ps ++ rest) s)
    (hps : ∀ p ∈ ps, p.payload ≠ [] ∧ p.size ≤ size) (hfuel : s.pending.length < fuel) :
    StaysReady fuel ps s := by
  induction ps generalizing s with
  | nil => trivial
  | cons p ps ih =>
    have hs' : AtBoundary size (p.bytes ++ (wire ps ++ rest)) s := by
      rwa [← append_assoc]
    obtain ⟨hne, hsize⟩ := hps p (by simp)
    obtain ⟨t, hleaves, ht⟩ := readPacket_spec hs' hsize hfuel
    have hrec : Recovers p t := Or.inl hne
    have hbound : AtBoundary size (wire ps ++ rest) t := by
      rcases hleaves with h | h
      · exact h.2
      · exact absurd hrec h.1
    have hless : t.pending.length < fuel := by
      rw [hs'.pending] at hfuel
      rw [hbound.pending]
      simp only [length_append] at hfuel ⊢
      omega
    exact (staysReady_cons ps ht).mpr
      ⟨hrec, ih hbound (forall_mem_cons.mp hps).2 hless⟩

/-! ### Whole streams -/

theorem complete_append {qs : List Packet} (hps : Complete ps) (hqs : Complete qs) :
    Complete (ps ++ qs) := by
  induction ps with
  | nil => exact hqs
  | cons p ps ih =>
    cases ps with
    | nil =>
      cases qs with
      | nil => exact hps
      | cons q qs => exact hqs
    | cons p' ps => exact ih hps

theorem complete_concat (hp : p.endsRequest = true) : Complete (ps ++ [p]) := by
  induction ps with
  | nil => exact hp
  | cons q ps ih =>
    cases ps with
    | nil | cons q' ps => exact ih

theorem complete_messages (ms : List Message) : Complete (ms.flatMap Message.packets) := by
  induction ms with
  | nil => trivial
  | cons m ms ih =>
    refine complete_append (complete_concat ?_) ih
    simp [endsRequest, m.last_eom]

theorem tdsCommInit_atBoundary (buffer : List UInt8) (hfail : ReadEvent.fail ∉ socket) :
    AtBoundary buffer.length (delivered socket) (tdsCommInit buffer socket) where
  sound := ⟨le_rfl, Nat.zero_le _, by simp [tdsCommInit], hfail⟩
  size := rfl
  left := rfl
  pending := by
    rfl
  header := rfl

theorem readRequests_stream {buffer : List UInt8}
    (hcomplete : Complete ps) (hps : ∀ p ∈ ps, p.payload ≠ [] ∧ p.size ≤ buffer.length)
    (hstream : delivered socket = wire ps ++ rest) (hfail : ReadEvent.fail ∉ socket)
    (hfuel : (delivered socket).length < fuel) :
    ∃ t, readRequests fuel (requests ps).length (tdsCommInit buffer socket) =
      .ok (requests ps, t) ∧ AtBoundary buffer.length rest t := by
  have hstart := tdsCommInit_atBoundary buffer hfail
  rw [hstream] at hstart
  have hfuel' : (tdsCommInit buffer socket).pending.length < fuel := by
    exact hfuel
  have hready := staysReady_of_payloads hstart hps hfuel'
  exact (readRequests_iff _ le_rfl hcomplete hstart (fun p hp => (hps p hp).2)
    hfuel').mpr hready

/-- **The reader returns the messages that were sent.**  The stream is a sequence of messages
without empty packets, followed by anything, and `socket` says how its bytes come in.  Successive
calls of `TdsReadNextRequest` return the messages in order and leave just the bytes that follow
them, and the cursors have always been in order and inside the buffer. -/
theorem readRequests_messages (ms : List Message) (rest buffer : List UInt8)
    (socket : List ReadEvent)
    (hpackets : ∀ m ∈ ms, ∀ p ∈ m.packets, p.payload ≠ [] ∧ p.size ≤ buffer.length)
    (hstream : delivered socket = wire (ms.flatMap Message.packets) ++ rest)
    (hfail : ReadEvent.fail ∉ socket) (fuel : Nat) (hfuel : (delivered socket).length < fuel) :
    ∃ t, readRequests fuel (ms.flatMap Message.requests).length (tdsCommInit buffer socket) =
        .ok (ms.flatMap Message.requests, t) ∧
      t.pending = rest ∧ ∀ c ∈ t.cursorLog, c.1 ≤ c.2 ∧ c.2 ≤ buffer.length := by
  have hps : ∀ p ∈ ms.flatMap Message.packets, p.payload ≠ [] ∧ p.size ≤ buffer.length := by
    intro p hp
    obtain ⟨m, hm, hp⟩ := mem_flatMap.mp hp
    exact hpackets m hm p hp
  obtain ⟨t, ht, hbound⟩ := readRequests_stream (complete_messages ms) hps hstream hfail hfuel
  rw [requests_messages] at ht
  refine ⟨t, ht, hbound.pending, ?_⟩
  have hlog := hbound.sound.log_le
  rwa [hbound.size] at hlog

def twoPackets : Message where
  messageType := 0x01
  init := [plainPacket 0x01 0x00 [0x41] (by decide)]
  last := plainPacket 0x01 0x01 [0x42, 0x43] (by decide)
  sameType := by decide
  init_eom := by decide
  last_eom := by decide

/-- The batch comes in pieces that end inside its headers. -/
theorem readRequests_messages_twoPackets :
    ∃ t, readRequests 20 1 (tdsCommInit (List.replicate 10 0)
        [.data 1 [0, 0], .eintr, .data 9 [0, 0, 0, 0, 0x41, 1],
          .data 1 [0, 10, 0, 0, 0, 0, 0x42, 0x43]]) =
        .ok ([⟨0x01, 0x00, [0x41, 0x42, 0x43]⟩], t) ∧
      t.pending = [] ∧
      ∀ c ∈ t.cursorLog, c.1 ≤ c.2 ∧ c.2 ≤ (List.replicate 10 (0 : UInt8)).length :=
  readRequests_messages [twoPackets] [] (replicate 10 0) _ (by decide) (by decide) (by decide)
    20 (by decide)

/-- **Streams with empty packets.**  Successive calls of `TdsReadNextRequest` return, each packet
delivered in one request, and leave the reader asking for the header that follows, exactly when
each empty packet on the way is the end of a message with nothing behind it in the buffer, or a
packet of a bulk load without the end-of-message bit. -/
theorem readRequests_iff_staysReady (ps : List Packet) (rest buffer : List UInt8)
    (socket : List ReadEvent) (hcomplete : Complete ps) (hsize : ∀ p ∈ ps, p.size ≤ buffer.length)
    (hstream : delivered socket = wire ps ++ rest) (hfail : ReadEvent.fail ∉ socket) (fuel : Nat)
    (hfuel : (delivered socket).length < fuel) :
    (∃ t, readRequests fuel (requests ps).length (tdsCommInit buffer socket) =
        .ok (requests ps, t) ∧ AtBoundary buffer.length rest t) ↔
      StaysReady fuel ps (tdsCommInit buffer socket) := by
  have hstart := tdsCommInit_atBoundary buffer hfail
  rw [hstream] at hstart
  have hfuel' : (tdsCommInit buffer socket).pending.length < fuel := by
    exact hfuel
  exact readRequests_iff _ le_rfl hcomplete hstart hsize hfuel'

def emptyMessage : List Packet :=
  [plainPacket 0x01 0x01 [] (by decide), plainPacket 0x01 0x01 [0x41] (by decide)]

theorem readRequests_iff_staysReady_emptyMessage :
    (∃ t, readRequests 20 2 (tdsCommInit (List.replicate 9 0)
        [.data 1 [1, 0, 8, 0, 0, 0, 0], .data 1 [1, 0, 9, 0, 0, 0, 0, 0x41]]) =
        .ok ([⟨0x01, 0x01, []⟩, ⟨0x01, 0x01, [0x41]⟩], t) ∧ AtBoundary 9 [] t) ↔
      StaysReady 20 emptyMessage (tdsCommInit (List.replicate 9 0)
        [.data 1 [1, 0, 8, 0, 0, 0, 0], .data 1 [1, 0, 9, 0, 0, 0, 0, 0x41]]) :=
  readRequests_iff_staysReady emptyMessage [] (replicate 9 0) _
    (show Packet.endsRequest _ = true by decide) (by decide) (by decide) (by decide) 20 (by decide)

/-- One read brings an empty packet with the given status and a batch behind it. -/
def emptyThenBatch (status : UInt8) : List ReadEvent :=
  [.data 1 [status, 0, 8, 0, 0, 0, 0, 1, 1, 0, 9, 0, 0, 0, 0, 0x41]]

/-- With an empty packet in front of a batch the call never returns; with an empty message in front
of a batch that comes in the same read, the calls return the empty message again and again. -/
theorem emptyPacket_out_of_step :
    (∀ fuel, tdsReadNextRequest fuel (tdsCommInit (List.replicate 17 0) (emptyThenBatch 0x00)) =
      .timeout) ∧
    ∃ t, readRequests 20 3 (tdsCommInit (List.replicate 17 0) (emptyThenBatch 0x01)) =
        .ok ([⟨0x01, 0x01, []⟩, ⟨0x01, 0x01, []⟩, ⟨0x01, 0x01, []⟩], t) := by
  refine ⟨fun fuel => ?_, _, rfl⟩
  by_cases hfuel : fuel < 18
  · revert fuel
    decide
  · have hstart := tdsCommInit_atBoundary (replicate 17 0)
      (show ReadEvent.fail ∉ emptyThenBatch 0x00 by decide)
    have hbytes : delivered (emptyThenBatch 0x00) = (plainPacket 0x01 0x00 [] (by decide)).bytes ++
        (plainPacket 0x01 0x01 [0x41] (by decide)).bytes := by decide
    rw [hbytes] at hstart
    exact hstart.diverges (by decide) (Nat.lt_of_lt_of_le (by decide) (Nat.not_lt.mp hfuel)) rfl
      (by decide)

end Babelfish.Tds
