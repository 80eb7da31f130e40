import Babelfish.Tds.DoneTokens

/-!
# The stream of a response

The tokens of a request in terms of its calls, and what holds of them for every sequence of calls
that is closed by a final done token.

* `response_eq`: the tokens that the state machine puts on the wire are `stream`.
* `stream_inOrder`, `stream_moreButLast`, `stream_uncounted`: the order of the tokens, their `MORE`
  bits, and that no counted token is marked.
* `errorsMarked_stream_iff`: errors are marked exactly when the first done token behind each error
  that is not dropped is queued with a mark.
* `response_right_iff`: the law of a response.
* `lostError_unmarked`: a procedure with `NOCOUNT` whose error the client does not see marked.
-/

namespace Babelfish.Response

open List

/-! ### The tokens of the calls -/

/-- The status of a queued token on the wire. -/
def finishedStatus (more nocount : Bool) (status : BitVec 16) : BitVec 16 :=
  if more then countedStatus nocount status ||| doneMore else countedStatus nocount status

def emit (more : Bool) : Option (Bool × Done) → List Token
  | none => []
  | some (nocount, d) =>
    if more && suppressed nocount d then []
    else [.done { d with status := finishedStatus more nocount d.status }]

/-- A done token as it is queued behind the mark of an error. -/
def queued (mark nocount : Bool) (d : Done) : Bool × Done :=
  (nocount, { d with status := if mark then d.status ||| doneError else d.status })

/-- The text of an error that is sent. -/
def sentMessage (message : String) (converts : Bool) : String :=
  if converts then message else "internal error occurred"

/-- The tokens of calls that are closed by a done token, from a pending token and a mark on. -/
def stream (lastNocount : Bool) (last : Done) :
    Option (Bool × Done) → Bool → List Call → List Token
  | p, mark, [] => emit true p ++ emit false (some (queued mark lastNocount last))
  | p, mark, .error message converts :: cs =>
    emit true p ++ .error (sentMessage message converts) ::
      stream lastNocount last none (mark || converts) cs
  | p, mark, .other sender body :: cs =>
    emit true p ++ .other sender body :: stream lastNocount last none mark cs
  | p, mark, .done nocount d :: cs =>
    emit true p ++ stream lastNocount last (some (queued mark nocount d)) false cs

variable {version : Nat} {s s' : ResponseState}
variable {tokens : List Token} {more : Bool} {d : Done} {lastNocount : Bool} {cs : List Call}
  {last : Done}

theorem sendPendingDone_eq (h : sendPendingDone version more s = some s') :
    s' = { s with pending := none, sent := s.sent ++ emit more s.pending } := by
  obtain ⟨pending, mark, sent⟩ := s
  cases pending with
  | none =>
    cases h
    simp [emit]
  | some p =>
    simp only [sendPendingDone] at h
    split at h
    · next hsup =>
      cases h
      simp [emit, hsup]
    · next hsup =>
      split at h
      · cases h
      · cases h
        simp [emit, hsup, finishedStatus]

theorem tdsSendError_eq {message : String} {converts : Bool}
    (h : tdsSendError version message converts s = some s') :
    s' = ⟨none, s.markErrorFlag || converts,
      s.sent ++ emit true s.pending ++ [.error (sentMessage message converts)]⟩ := by
  obtain ⟨s₁, hs₁, h⟩ := Option.bind_eq_some_iff.mp h
  rw [sendPendingDone_eq hs₁] at h
  cases converts with
  | true | false =>
    cases h
    simp [sentMessage]

theorem tdsSendOther_eq {sender : Sender} {body : List UInt8}
    (h : tdsSendOther version sender body s = some s') :
    s' = ⟨none, s.markErrorFlag, s.sent ++ emit true s.pending ++ [.other sender body]⟩ := by
  obtain ⟨s₁, hs₁, h⟩ := Option.bind_eq_some_iff.mp h
  rw [sendPendingDone_eq hs₁] at h
  cases h
  rfl

theorem tdsSendDone_eq {nocount : Bool} (h : tdsSendDone version nocount d s = some s') :
    s' = ⟨some (queued s.markErrorFlag nocount d), false, s.sent ++ emit true s.pending⟩ := by
  obtain ⟨s₁, hs₁, h⟩ := Option.bind_eq_some_iff.mp h
  rw [sendPendingDone_eq hs₁] at h
  cases h
  rfl

theorem tdsFlush_eq (h : tdsFlush version s = some s') :
    s' = ⟨none, false, s.sent ++ emit false s.pending⟩ := by
  obtain ⟨s₁, hs₁, h⟩ := Option.bind_eq_some_iff.mp h
  rw [sendPendingDone_eq hs₁] at h
  cases h
  rfl

theorem runCalls_eq {s s₁ s₂ : ResponseState}
    (hrun : runCalls version (cs ++ [.done lastNocount last]) s = some s₁)
    (hflush : tdsFlush version s₁ = some s₂) :
    s₂.sent = s.sent ++ stream lastNocount last s.pending s.markErrorFlag cs := by
  induction cs generalizing s with
  | nil =>
    obtain ⟨s', hcall, hrest⟩ := Option.bind_eq_some_iff.mp hrun
    cases hrest
    rw [tdsFlush_eq hflush, tdsSendDone_eq hcall, stream, append_assoc]
  | cons c cs ih =>
    obtain ⟨s', hcall, hrest⟩ := Option.bind_eq_some_iff.mp hrun
    rw [ih hrest]
    cases c with
    | error message converts =>
      simp only [tdsSendError_eq hcall, stream, append_assoc, singleton_append]
    | other sender body =>
      simp only [tdsSendOther_eq hcall, stream, append_assoc, singleton_append]
    | done nocount d => simp only [tdsSendDone_eq hcall, stream, append_assoc]

/-- **The state machine puts the tokens of `stream` on the wire.** -/
theorem response_eq (h : response version (cs ++ [.done lastNocount last]) = some tokens) :
    tokens = stream lastNocount last none false cs := by
  obtain ⟨s₁, hrun, h⟩ := Option.bind_eq_some_iff.mp h
  obtain ⟨s₂, hflush, h⟩ := Option.bind_eq_some_iff.mp h
  cases h
  rw [runCalls_eq hrun hflush, nil_append]

/-- Versions above 7.1 can send every row count, so that every request gets its response. -/
theorem response_exists (hv : tdsVersion7_1_1 < version) (calls : List Call) :
    ∃ tokens, response version calls = some tokens := by
  have hpending : ∀ more s, ∃ s', sendPendingDone version more s = some s' := by
    intro more s
    unfold sendPendingDone
    repeat' split
    all_goals first | exact ⟨_, rfl⟩ | omega
  have hrun : ∀ s, ∃ s', runCalls version calls s = some s' := by
    induction calls with
    | nil => exact fun s => ⟨s, rfl⟩
    | cons c cs ih =>
      intro s
      obtain ⟨s', hs'⟩ := hpending true s
      cases c with
      | error message converts =>
        cases converts <;> simpa [runCalls, call, tdsSendError, hs'] using ih _
      | other | done => simpa [runCalls, call, tdsSendOther, tdsSendDone, hs'] using ih _
  obtain ⟨s₁, hs₁⟩ := hrun ⟨none, false, []⟩
  obtain ⟨s₂, hs₂⟩ := hpending false s₁
  exact ⟨s₂.sent, by simp [response, hs₁, tdsFlush, hs₂]⟩

/-! ### Bits of the status -/

section Bits

variable (nocount : Bool) (status : BitVec 16)

theorem hasMore_clearCount : hasMore (status &&& ~~~doneCount) = hasMore status := by
  simp [hasMore, doneCount]

theorem hasError_clearCount : hasError (status &&& ~~~doneCount) = hasError status := by
  simp [hasError, doneCount]

theorem hasCount_clearCount : hasCount (status &&& ~~~doneCount) = false := by
  simp [hasCount, doneCount]

theorem countedStatus_cases : ∃ s, (s = status ∨ s = status &&& ~~~doneCount) ∧
    countedStatus nocount status = if hasError s then s &&& ~~~doneCount else s := by
  cases nocount with
  | false => exact ⟨status, .inl rfl, rfl⟩
  | true => exact ⟨status &&& ~~~doneCount, .inr rfl, rfl⟩

theorem countedStatus_keeps {bit : BitVec 16 → Bool}
    (hbit : ∀ s, bit (s &&& ~~~doneCount) = bit s) :
    bit (countedStatus nocount status) = bit status := by
  obtain ⟨s, hs, h⟩ := countedStatus_cases nocount status
  have hsame : bit s = bit status := by
    rcases hs with rfl | rfl
    · rfl
    · exact hbit status
  rw [h]
  split
  · rw [hbit, hsame]
  · exact hsame

theorem countedStatus_not_both :
    ¬ (hasError (countedStatus nocount status) ∧ hasCount (countedStatus nocount status)) := by
  obtain ⟨s, -, h⟩ := countedStatus_cases nocount status
  rw [h]
  split
  · rw [hasCount_clearCount]
    exact fun hboth => Bool.noConfusion hboth.2
  · next herror => exact fun hboth => herror hboth.1

theorem hasError_finishedStatus :
    hasError (finishedStatus more nocount status) = hasError status := by
  rw [← countedStatus_keeps nocount status hasError_clearCount]
  unfold finishedStatus
  cases more <;> simp [hasError, doneMore]

theorem finishedStatus_not_both (more : Bool) :
    ¬ (hasError (finishedStatus more nocount status) ∧
      hasCount (finishedStatus more nocount status)) := by
  have h := countedStatus_not_both nocount status
  unfold finishedStatus
  cases more with
  | false => exact h
  | true => simpa [hasError, hasCount, doneMore] using h

theorem hasMore_finishedStatus_true : hasMore (finishedStatus true nocount status) = true := by
  simp [finishedStatus, hasMore, doneMore]

theorem hasMore_finishedStatus_false :
    hasMore (finishedStatus false nocount status) = hasMore status :=
  countedStatus_keeps nocount status hasMore_clearCount

theorem hasMore_queued (mark : Bool) (d : Done) :
    hasMore (queued mark nocount d).2.status = hasMore d.status := by
  cases mark <;> simp [queued, hasMore, doneError]

theorem hasError_queued (mark : Bool) :
    hasError (queued mark nocount d).2.status = (mark || hasError d.status) := by
  cases mark <;> simp [queued, hasError, doneError]

end Bits

/-! ### Order, `MORE` and counts -/

def Call.dropped : Call → Bool
  | .done nocount d => suppressed nocount d
  | _ => false

/-- The token of a call, a done token without its status. -/
def Call.token : Call → Token
  | .error message converts => .error (sentMessage message converts)
  | .other sender body => .other sender body
  | .done _ d => .done { d with status := 0 }

/-- A token without the status of a done token. -/
def Token.bare : Token → Token
  | .done d => .done { d with status := 0 }
  | t => t

/-- **The tokens stand in the order of the calls**, without those that are dropped. -/
def InOrder (calls : List Call) (tokens : List Token) : Prop :=
  tokens.map Token.bare = (calls.filter fun c => !c.dropped).map Call.token

/-- **Every done token but the last has the `MORE` bit, and the last has not.** -/
def MoreButLast (tokens : List Token) : Prop :=
  ∃ init d, tokens = init ++ [.done d] ∧ hasMore d.status = false ∧
    ∀ d', .done d' ∈ init → hasMore d'.status = true

/-- **No done token has both the `ERROR` and the `COUNT` bit.** -/
def Uncounted (tokens : List Token) : Prop :=
  ∀ d, .done d ∈ tokens → ¬ (hasError d.status ∧ hasCount d.status)

def pendingCall : Option (Bool × Done) → List Call
  | none => []
  | some (nocount, d) => [.done nocount d]

theorem bare_emit {p : Option (Bool × Done)} :
    (emit true p).map Token.bare =
      ((pendingCall p).filter fun c => !c.dropped).map Call.token := by
  cases p with
  | none => rfl
  | some p =>
    obtain ⟨nocount, d⟩ := p
    by_cases h : suppressed nocount d = true <;>
      simp [emit, pendingCall, Call.dropped, h, Token.bare, Call.token]

theorem filter_token_queued (mark nocount : Bool) :
    ((pendingCall (some (queued mark nocount d))).filter fun c => !c.dropped).map Call.token =
      ([Call.done nocount d].filter fun c => !c.dropped).map Call.token := by
  have hpending : pendingCall (some (queued mark nocount d)) =
      [.done nocount (queued mark nocount d).2] := rfl
  have hqueued : (Call.done nocount (queued mark nocount d).2).dropped =
      (Call.done nocount d).dropped := rfl
  rw [hpending, filter_singleton, filter_singleton, hqueued]
  cases (Call.done nocount d).dropped <;> rfl

section Closed

variable {lastNocount : Bool} {last : Done} {p : Option (Bool × Done)} {mark : Bool}

theorem stream_inOrder (hlast : last.kind ≠ .doneInProc) (cs : List Call) :
    InOrder (pendingCall p ++ (cs ++ [.done lastNocount last]))
      (stream lastNocount last p mark cs) := by
  have hkeep : suppressed lastNocount last = false := by simp [suppressed, hlast]
  unfold InOrder
  induction cs generalizing p mark with
  | nil =>
    rw [stream, map_append, bare_emit, nil_append, filter_append, map_append]
    simp [emit, Call.dropped, hkeep, Call.token, Token.bare, queued]
  | cons c cs ih =>
    rw [filter_append, map_append]
    cases c with
    | error message converts | other sender body =>
      rw [stream, map_append, bare_emit, map_cons, ih]
      rfl
    | done nocount d =>
      rw [stream, map_append, bare_emit, ih, filter_append, map_append,
        filter_token_queued, ← map_append, ← filter_append]
      rfl

theorem status_of_mem_emit (h : .done d ∈ emit more p) :
    ∃ nocount status, d.status = finishedStatus more nocount status := by
  cases p with
  | none => cases h
  | some p =>
    simp only [emit] at h
    split at h
    · cases h
    · cases mem_singleton.mp h
      exact ⟨_, _, rfl⟩

theorem hasMore_of_mem_emit (d : Done) (h : .done d ∈ emit true p) : hasMore d.status = true := by
  obtain ⟨nocount, status, hd⟩ := status_of_mem_emit h
  rw [hd, hasMore_finishedStatus_true]

theorem MoreButLast.append {ts : List Token} (hts : ∀ d, .done d ∈ ts → hasMore d.status = true)
    (h : MoreButLast tokens) : MoreButLast (ts ++ tokens) := by
  obtain ⟨init, d, rfl, hd, hinit⟩ := h
  refine ⟨ts ++ init, d, (append_assoc _ _ _).symm, hd, fun d' hd' => ?_⟩
  exact (mem_append.mp hd').elim (hts d') (hinit d')

theorem MoreButLast.cons {t : Token} (ht : ∀ d, t ≠ .done d) (h : MoreButLast tokens) :
    MoreButLast (t :: tokens) :=
  .append (fun d hd => absurd (mem_singleton.mp hd).symm (ht d)) h

theorem stream_moreButLast (hmore : hasMore last.status = false) (cs : List Call) :
    MoreButLast (stream lastNocount last p mark cs) := by
  induction cs generalizing p mark with
  | nil =>
    refine .append hasMore_of_mem_emit ⟨[], _, rfl, ?_, by simp⟩
    rw [hasMore_finishedStatus_false]
    exact (hasMore_queued lastNocount mark last).trans hmore
  | cons c cs ih =>
    cases c with
    | error message converts | other sender body =>
      exact .append hasMore_of_mem_emit (ih.cons nofun)
    | done nocount d => exact .append hasMore_of_mem_emit ih

theorem Uncounted.emit_append (h : Uncounted tokens) :
    Uncounted (emit more p ++ tokens) := by
  intro d hd
  rcases mem_append.mp hd with hd | hd
  · obtain ⟨nocount, status, hd⟩ := status_of_mem_emit hd
    rw [hd]
    exact finishedStatus_not_both nocount status more
  · exact h d hd

theorem Uncounted.cons {t : Token} (ht : ∀ d, t ≠ .done d) (h : Uncounted tokens) :
    Uncounted (t :: tokens) :=
  fun d hd => h d ((mem_cons.mp hd).resolve_left (ht d).symm)

theorem stream_uncounted (cs : List Call) : Uncounted (stream lastNocount last p mark cs) := by
  induction cs generalizing p mark with
  | nil =>
    rw [stream, ← append_nil (emit false _)]
    exact .emit_append (.emit_append fun d h => nomatch h)
  | cons c cs ih =>
    cases c with
    | error message converts | other sender body => exact .emit_append (ih.cons nofun)
    | done nocount d => exact .emit_append ih

/-! ### Marks of errors -/

/-- The first done token has the `ERROR` bit. -/
def NextMarked : List Token → Prop
  | [] => False
  | .done d :: _ => hasError d.status
  | _ :: tokens => NextMarked tokens

/-- **Every `ERROR` token is followed by a done token with the `ERROR` bit before any done token
without it.** -/
def ErrorsMarked : List Token → Prop
  | [] => True
  | .error _ :: tokens => NextMarked tokens ∧ ErrorsMarked tokens
  | _ :: tokens => ErrorsMarked tokens

/-- The first done call that is not dropped, up to the closing one, has the `ERROR` bit itself or
comes next after an error whose message was converted; `mark` says that there is such an error
since the last done call. -/
def FirstKeptMarked (last : Done) : Bool → List Call → Prop
  | mark, [] => mark ∨ hasError last.status
  | mark, .done nocount d :: cs =>
    if suppressed nocount d then FirstKeptMarked last false cs else mark ∨ hasError d.status
  | mark, .error _ converts :: cs => FirstKeptMarked last (mark || converts) cs
  | mark, .other _ _ :: cs => FirstKeptMarked last mark cs

/-- Behind every error the first done call that is not dropped is marked. -/
def ErrorsKept (last : Done) : Bool → List Call → Prop
  | _, [] => True
  | mark, .error _ converts :: cs =>
    FirstKeptMarked last (mark || converts) cs ∧ ErrorsKept last (mark || converts) cs
  | _, .done _ _ :: cs => ErrorsKept last false cs
  | mark, .other _ _ :: cs => ErrorsKept last mark cs

theorem nextMarked_emit :
    NextMarked (emit true p ++ tokens) ↔
      match p with
      | none => NextMarked tokens
      | some (nocount, d) =>
        if suppressed nocount d then NextMarked tokens else hasError d.status := by
  cases p with
  | none => rfl
  | some p =>
    obtain ⟨nocount, d⟩ := p
    cases h : suppressed nocount d with
    | true => simp [emit, h]
    | false => simp [emit, h, NextMarked, hasError_finishedStatus]

theorem errorsMarked_emit : ErrorsMarked (emit more p ++ tokens) ↔ ErrorsMarked tokens := by
  cases p with
  | none => rfl
  | some p =>
    simp only [emit]
    split <;> rfl

theorem nextMarked_stream_iff :
    NextMarked (stream lastNocount last p mark cs) ↔
      match p with
      | none => FirstKeptMarked last mark cs
      | some (nocount, d) =>
        if suppressed nocount d then FirstKeptMarked last mark cs else hasError d.status := by
  induction cs generalizing p mark with
  | nil =>
    have hlast : NextMarked (emit false (some (queued mark lastNocount last))) ↔
        FirstKeptMarked last mark [] := by
      show hasError (finishedStatus false lastNocount (queued mark lastNocount last).2.status) ↔ _
      rw [hasError_finishedStatus, hasError_queued, Bool.or_eq_true]
      rfl
    rw [stream, nextMarked_emit]
    simp only [hlast]
  | cons c cs ih =>
    cases c with
    | error message converts =>
      have hkept : NextMarked (.error (sentMessage message converts) ::
          stream lastNocount last none (mark || converts) cs) ↔
          FirstKeptMarked last mark (.error message converts :: cs) := ih
      rw [stream, nextMarked_emit]
      simp only [hkept]
    | other sender body =>
      have hkept : NextMarked (.other sender body :: stream lastNocount last none mark cs) ↔
          FirstKeptMarked last mark (.other sender body :: cs) := ih
      rw [stream, nextMarked_emit]
      simp only [hkept]
    | done nocount d =>
      have hkept : NextMarked (stream lastNocount last (some (queued mark nocount d)) false cs) ↔
          FirstKeptMarked last mark (.done nocount d :: cs) := by
        refine ih.trans ?_
        show (if suppressed nocount d then FirstKeptMarked last false cs
          else (hasError (queued mark nocount d).2.status : Prop)) ↔ _
        rw [hasError_queued, Bool.or_eq_true]
        rfl
      rw [stream, nextMarked_emit]
      simp only [hkept]

/-- **Errors are marked on the wire exactly when they are kept by the calls.** -/
theorem errorsMarked_stream_iff (cs : List Call) :
    ErrorsMarked (stream lastNocount last p mark cs) ↔ ErrorsKept last mark cs := by
  induction cs generalizing p mark with
  | nil =>
    rw [stream, errorsMarked_emit, ← append_nil (emit false _), errorsMarked_emit]
    rfl
  | cons c cs ih =>
    cases c with
    | error message converts =>
      refine errorsMarked_emit.trans ?_
      exact and_congr nextMarked_stream_iff ih
    | other sender body | done nocount d => exact errorsMarked_emit.trans ih

end Closed

/-! ### The law -/

/-- What a response must be: the four properties of its tokens. -/
structure ResponseRight (calls : List Call) (tokens : List Token) : Prop where
  inOrder : InOrder calls tokens
  moreButLast : MoreButLast tokens
  uncounted : Uncounted tokens
  errorsMarked : ErrorsMarked tokens

/-- **The response of every request is right exactly when its errors are kept**: behind every
error, the first done call that is not dropped is queued with a mark. -/
theorem response_right_iff (tdsVersion : Nat) (calls : List Call) (nocount : Bool) (last : Done)
    (hlast : last.kind ≠ .doneInProc) (hmore : hasMore last.status = false) (tokens : List Token)
    (h : response tdsVersion (calls ++ [.done nocount last]) = some tokens) :
    ResponseRight (calls ++ [.done nocount last]) tokens ↔ ErrorsKept last false calls := by
  rw [response_eq h]
  constructor
  · intro hright
    exact (errorsMarked_stream_iff calls).mp hright.errorsMarked
  · intro hkept
    exact ⟨stream_inOrder hlast calls, stream_moreButLast hmore calls, stream_uncounted calls,
      (errorsMarked_stream_iff calls).mpr hkept⟩

/-- An error that the closing token marks. -/
theorem response_right_iff_error :
    ResponseRight ([.error "failed" true] ++ [.done true ⟨.done, 0, cmdUnknown, 0⟩])
      [.error "failed", .done ⟨.done, doneError, cmdUnknown, 0⟩] :=
  (response_right_iff 0x74000004 [.error "failed" true] true ⟨.done, 0, cmdUnknown, 0⟩ (by decide)
    (by decide) _ (by decide)).mpr ⟨.inl rfl, trivial⟩

/-- The end of an `INSERT` in a procedure, after its error. -/
def failedInsert : List Call :=
  statementEnd 1 true true false false true 0 (.execSql [.insert] false false false)

/-- The end of the `EXEC` of the procedure. -/
def endedExec : List Call := statementEnd 0 false true false false false 0 (.exec false false 0)

/-- **An error in a procedure with `NOCOUNT`** is followed by a done token without a mark: the
token that was marked is dropped. -/
theorem lostError_unmarked :
    failedInsert = [.done true ⟨.doneInProc, doneCount ||| doneMore, cmdInsert, 0⟩] ∧
    endedExec = [.other .returnStatus [0, 0, 0, 0], .done true ⟨.doneProc, 0, cmdExecute, 0⟩] ∧
    response 0x74000004 (.error "failed" true :: failedInsert ++ endedExec) =
      some [.error "failed", .other .returnStatus [0, 0, 0, 0],
        .done ⟨.doneProc, 0, cmdExecute, 0⟩] ∧
    ¬ ResponseRight (.error "failed" true :: failedInsert ++ endedExec)
      [.error "failed", .other .returnStatus [0, 0, 0, 0],
        .done ⟨.doneProc, 0, cmdExecute, 0⟩] := by
  refine ⟨by decide, by decide, by decide, fun h => ?_⟩
  have hmarked : hasError 0 = true := h.errorsMarked.1
  exact absurd hmarked (by decide)

end Babelfish.Response
