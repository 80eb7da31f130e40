import Babelfish.Lib.Bytes
import Babelfish.Lib.Except

/-!
# PRELOGIN and the negotiation of TLS

A client opens a connection with a PRELOGIN message: a list of options, each with a token, an
offset and a length, the terminator, and then the values.  The server answers every option, and one
of the answers decides what happens to the connection: whether there is a TLS handshake before the
LOGIN7 message is read, and whether TLS stays on afterwards.

* `parsePreLoginRequest_encode`, `parsePreLoginRequest_sound`: the parser accepts the encodings of
  the well-formed option lists and nothing else.
* `negotiated_of_encryption`: with an ENCRYPTION option the negotiated option is `on` or `req`.
* `tls_kept_iff`: for which messages TLS is kept.
-/

namespace Babelfish.Tds

open Lib List

/-! ### The request -/

structure PreLoginOption where
  token : UInt8
  offset : Nat
  length : Nat
  val : List UInt8
deriving DecidableEq, Repr

/-- How `TdsProcessLogin` ends when the connection is refused: an error return or `FATAL`. -/
inductive LoginError where
  /-- `STATUS_ERROR` of `TdsGetbytes` -/
  | endOfInput
  | noOptions
  | invalidOptionLength (length : Nat)
  | wrongMessageType
  | invalidEncryptionLength (length : Nat)
  | certificationNotSupported (value : UInt8)
  | handshakeFailed
  | loginFailed
deriving DecidableEq, Repr

def tdsDefaultInitPacketSize : Nat := 4096

def tdsPrelogin : UInt8 := 0x12

def tdsPreloginVersion : UInt8 := 0x00

def tdsPreloginEncryption : UInt8 := 0x01

def tdsPreloginInstopt : UInt8 := 0x02

def tdsPreloginMars : UInt8 := 0x04

def tdsPreloginFedauthrequired : UInt8 := 0x06

def tdsPreloginTerminator : UInt8 := 0xFF

/-- The first loop of `ParsePreLoginRequest`: the options up to the terminator, without values. -/
def readOptions : List UInt8 → Except LoginError (List PreLoginOption × List UInt8)
  | [] => .error .endOfInput
  | token :: rest =>
    if token = tdsPreloginTerminator then .ok ([], rest)
    else
      match rest with
      | o₁ :: o₂ :: l₁ :: l₂ :: rest' =>
        let length := beNat [l₁, l₂]
        if length > tdsDefaultInitPacketSize then .error (.invalidOptionLength length)
        else do
          let (options, left) ← readOptions rest'
          .ok (⟨token, beNat [o₁, o₂], length, []⟩ :: options, left)
      | _ => .error .endOfInput

/-- The second loop of `ParsePreLoginRequest`: the value of each option, one after the other
whatever the offsets say. -/
def readValues : List PreLoginOption → List UInt8 → Except LoginError (List PreLoginOption)
  | [], _ => .ok []
  | option :: options, input =>
    if input.length < option.length then .error .endOfInput
    else do
      let read ← readValues options (input.drop option.length)
      .ok ({ option with val := input.take option.length } :: read)

/-- `ParsePreLoginRequest`, on the bytes the client sends and the type of its message.  The
terminator, which the source keeps as the last element of the list, is left out of the result. -/
def parsePreLoginRequest (messageType : UInt8) (input : List UInt8) :
    Except LoginError (List PreLoginOption) := do
  let (headers, rest) ← readOptions input
  if headers = [] then .error .noOptions
  else
    let options ← readValues headers rest
    if messageType ≠ tdsPrelogin then .error .wrongMessageType else .ok options

/-! ### The response -/

/-- The values of the ENCRYPTION option that the server knows. -/
inductive EncryptOption where
  | off
  | on
  | notSup
  | req
deriving DecidableEq, Repr

/-- `TDS_ENCRYPT_OFF`, `TDS_ENCRYPT_ON`, `TDS_ENCRYPT_NOT_SUP` and `TDS_ENCRYPT_REQ` -/
def EncryptOption.byte : EncryptOption → UInt8
  | .off => 0x00
  | .on => 0x01
  | .notSup => 0x02
  | .req => 0x03

/-- What the login depends on: the argument `loadedSsl`, the family of the socket's address, the
setting `tds_ssl_encrypt` and the bytes of the product version. -/
structure LoginConfig where
  loadSsl : Bool
  unixSocket : Bool
  tdsSslEncrypt : Bool
  makeVersionByte : Nat → UInt8

/-- `*loadEncryption` and `MyTdsEncryptOption` -/
structure Negotiation where
  loadEncryption : EncryptOption
  myTdsEncryptOption : EncryptOption
deriving DecidableEq, Repr

variable (config : LoginConfig)

def encryptionAnswer (reqVal : List UInt8) :
    Except LoginError EncryptOption :=
  match reqVal with
  | [] => .error (.invalidEncryptionLength 0)
  | b :: _ =>
    if config.loadSsl ∧ ¬ config.unixSocket then
      if b = EncryptOption.on.byte ∨ b = EncryptOption.req.byte then .ok .on
      else if b = EncryptOption.off.byte then
        .ok (if config.tdsSslEncrypt then .req else .off)
      else if b = EncryptOption.notSup.byte then
        .ok (if config.tdsSslEncrypt then .req else .notSup)
      else .error (.certificationNotSupported b)
    else .ok .notSup

/-- `SetPreLoginResponseVal`: the value of the answer and the negotiation after it. -/
def setPreLoginResponseVal (token : UInt8) (reqVal : List UInt8)
    (neg : Negotiation) : Except LoginError (List UInt8 × Negotiation) :=
  if token = tdsPreloginVersion then
    .ok ((List.range 4).map config.makeVersionByte ++ [0x00, 0x00], neg)
  else if token = tdsPreloginEncryption then do
    let answer ← encryptionAnswer config reqVal
    .ok ([answer.byte], ⟨answer, answer⟩)
  else if token = tdsPreloginInstopt ∨ token = tdsPreloginMars then .ok ([0x00], neg)
  else .ok ([], neg)

/-- The loop of `MakePreLoginResponse` over the options of the request. -/
def answerOptions (config : LoginConfig) :
    List PreLoginOption → Negotiation → Except LoginError (List (UInt8 × List UInt8) × Negotiation)
  | [], neg => .ok ([], neg)
  | option :: options, neg =>
    if option.token ≠ tdsPreloginFedauthrequired then do
      let (val, neg') ← setPreLoginResponseVal config option.token option.val neg
      let (answers, neg'') ← answerOptions config options neg'
      .ok ((option.token, val) :: answers, neg'')
    else answerOptions config options neg

def responseHeaders : Nat → List (UInt8 × List UInt8) → List UInt8
  | _, [] => [tdsPreloginTerminator]
  | offset, (token, val) :: answers =>
    token :: beBytes 2 offset ++ beBytes 2 val.length ++
      responseHeaders (offset + val.length) answers

/-- The bytes of the response: five for each answer, one for the terminator, and the values. -/
def responseBytes (answers : List (UInt8 × List UInt8)) : List UInt8 :=
  responseHeaders (5 * answers.length + 1) answers ++ answers.flatMap Prod.snd

def makePreLoginResponse (request : List PreLoginOption) :
    Except LoginError (List UInt8 × Negotiation) := do
  let (answers, neg) ← answerOptions config request ⟨.off, .off⟩
  .ok (responseBytes answers, neg)

/-! ### The login -/

/-- What the login does on the connection. -/
inductive LoginStep where
  | sendPreLoginResponse (bytes : List UInt8)
  /-- `SecureOpenServer` -/
  | tlsHandshake
  /-- `ProcessLoginInternal`, which reads LOGIN7 -/
  | readLogin7
  /-- `TdsFreeSslStruct` -/
  | freeSslStruct
deriving DecidableEq, Repr

/-- The steps of a login in order, the negotiated option and the result. -/
structure LoginRun where
  steps : List LoginStep
  negotiated : Option EncryptOption
  result : Except LoginError Unit

variable (handshake login : Bool) (response : List UInt8)

/-- The part of `TdsProcessLogin` after the negotiation.  Whether the handshake and the processing
of LOGIN7 succeed depends on the client. -/
def afterNegotiation (opt : EncryptOption) :
    LoginRun :=
  let opened := opt = .on ∨ opt = .off ∨ opt = .req
  let steps := .sendPreLoginResponse response :: (if opened then [.tlsHandshake] else [])
  if opened ∧ handshake = false then ⟨steps, some opt, .error .handshakeFailed⟩
  else if login = false then ⟨steps ++ [.readLogin7], some opt, .error .loginFailed⟩
  else
    ⟨steps ++ [.readLogin7] ++ (if opt = .off then [.freeSslStruct] else []), some opt, .ok ()⟩

def tdsProcessLogin (messageType : UInt8) (input : List UInt8) : LoginRun :=
  match parsePreLoginRequest messageType input with
  | .error e => ⟨[], none, .error e⟩
  | .ok request =>
    match makePreLoginResponse config request with
    | .error e => ⟨[], none, .error e⟩
    | .ok (response, neg) => afterNegotiation handshake login response neg.loadEncryption

/-! ### What the login is to guarantee -/

/-- Whether the connection is encrypted after these steps. -/
def tlsOn (steps : List LoginStep) : Bool :=
  steps.foldl (fun on step =>
    match step with
    | .tlsHandshake => true
    | .freeSslStruct => false
    | _ => on) false

/-- **TLS for the whole session**: the connection is refused, or LOGIN7 is read and the session
goes on under TLS, and the negotiated option is neither `off` nor `notSup`. -/
def LoginRun.KeepsTls (run : LoginRun) : Prop :=
  (∃ e, run.result = .error e) ∨
    (.readLogin7 ∈ run.steps ∧
      (∀ before after, run.steps = before ++ .readLogin7 :: after → tlsOn before = true) ∧
      tlsOn run.steps = true ∧ run.negotiated ≠ some .off ∧ run.negotiated ≠ some .notSup)

/-- TLS is required: it is loaded, the connection is not a Unix socket and `tds_ssl_encrypt` is
on. -/
def LoginConfig.RequiresTls : Prop :=
  config.loadSsl = true ∧ config.unixSocket = false ∧ config.tdsSslEncrypt = true

/-- An option that a message can carry. -/
structure PreLoginOption.WellFormed (option : PreLoginOption) : Prop where
  token_ne : option.token ≠ tdsPreloginTerminator
  offset_lt : option.offset < 65536
  length_le : option.length ≤ tdsDefaultInitPacketSize
  val_length : option.val.length = option.length

def PreLoginOption.header (option : PreLoginOption) : List UInt8 :=
  option.token :: (beBytes 2 option.offset ++ beBytes 2 option.length)

/-- The bytes of a message: the headers, the terminator and the values. -/
def encodePreLogin (options : List PreLoginOption) : List UInt8 :=
  options.flatMap PreLoginOption.header ++
    tdsPreloginTerminator :: options.flatMap PreLoginOption.val

/-! ### The parser -/

def PreLoginOption.cleared (option : PreLoginOption) : PreLoginOption := { option with val := [] }

open PreLoginOption

theorem beBytes_two (n : Nat) : ∃ a b, beBytes 2 n = [a, b] := ⟨_, _, rfl⟩

theorem beBytes_beNat_two (a b : UInt8) : beBytes 2 (beNat [a, b]) = [a, b] := by
  have h := leBytes_leNat [b, a]
  exact congrArg List.reverse h

theorem beNat_two_lt (a b : UInt8) : beNat [a, b] < 65536 := by
  have h := leNat_lt [b, a]
  rw [length_cons, length_singleton] at h
  exact Nat.lt_of_lt_of_le h (by decide)

variable {options : List PreLoginOption} {input tail : List UInt8} {config : LoginConfig}
  {neg : Negotiation} {headers request : List PreLoginOption}
  {neg' : Negotiation} {token : UInt8}

theorem readOptions_terminator : readOptions (tdsPreloginTerminator :: tail) = .ok ([], tail) := by
  unfold readOptions
  rw [if_pos rfl]

theorem readOptions_header {option : PreLoginOption} (h : option.WellFormed) :
    readOptions (option.header ++ tail) = (do
      let (options, left) ← readOptions tail
      .ok (option.cleared :: options, left)) := by
  obtain ⟨o₁, o₂, ho⟩ := beBytes_two option.offset
  obtain ⟨l₁, l₂, hl⟩ := beBytes_two option.length
  have hlen : option.length ≤ 4096 := h.length_le
  have hoff : beNat [o₁, o₂] = option.offset := by
    have hlt := h.offset_lt
    rw [← ho, beNat_beBytes_of_lt (by omega)]
  have hlength : beNat [l₁, l₂] = option.length := by
    rw [← hl, beNat_beBytes_of_lt (by omega)]
  rw [header, ho, hl]
  simp only [cons_append, nil_append]
  rw [readOptions, if_neg h.token_ne]
  simp only [hoff, hlength]
  rw [if_neg (Nat.not_lt.mpr h.length_le)]
  rfl

section

variable (h : ∀ o ∈ options, o.WellFormed)
include h

theorem readOptions_encode :
    readOptions (options.flatMap header ++ tdsPreloginTerminator :: tail) =
      .ok (options.map cleared, tail) := by
  induction options with
  | nil => rw [flatMap_nil, nil_append, readOptions_terminator, map_nil]
  | cons option options ih =>
    rw [flatMap_cons, append_assoc, readOptions_header (h option (by simp)),
      ih (forall_mem_cons.mp h).2]
    rfl

theorem readValues_encode :
    readValues (options.map cleared)
      (options.flatMap val ++ tail) = .ok options := by
  induction options with
  | nil => rfl
  | cons option options ih =>
    have hlen := (h option (by simp)).val_length
    have ih := ih (forall_mem_cons.mp h).2
    rw [map_cons, flatMap_cons, append_assoc, readValues]
    have hc : option.cleared.length = option.length := rfl
    have htake : (option.val ++ (options.flatMap val ++ tail)).take
        option.length = option.val := take_left' hlen
    rw [if_neg (by simp [hc, hlen]), hc, drop_left' hlen, ih, htake]
    rfl

/-- **What the parser accepts**: every message made of well-formed options, at least one. -/
theorem parsePreLoginRequest_encode (hne : options ≠ []) (rest : List UInt8) :
    parsePreLoginRequest tdsPrelogin (encodePreLogin options ++ rest) = .ok options := by
  rw [parsePreLoginRequest, encodePreLogin, append_assoc, cons_append, readOptions_encode h]
  change (if options.map cleared = [] then _ else _) = _
  rw [if_neg (by simpa using hne), readValues_encode h]
  rfl

end

theorem readOptions_sound {left : List UInt8} (h : readOptions input = .ok (headers, left)) :
    input = headers.flatMap header ++ tdsPreloginTerminator :: left ∧
      ∀ o ∈ headers, o.token ≠ tdsPreloginTerminator ∧ o.offset < 65536 ∧
        o.length ≤ tdsDefaultInitPacketSize := by
  fun_induction readOptions input generalizing headers left with
  | case1 => cases h
  | case2 rest =>
    cases h
    exact ⟨rfl, by simp⟩
  | case3 => cases h
  | case4 token htok o₁ o₂ l₁ l₂ rest' length hlen =>
    rename_i ih
    obtain ⟨⟨options, left'⟩, hrest, heq⟩ := bind_eq_ok.mp h
    cases heq
    obtain ⟨rfl, hall⟩ := ih hrest
    refine ⟨?_, ?_⟩
    · have hl : beBytes 2 length = [l₁, l₂] := beBytes_beNat_two l₁ l₂
      simp only [flatMap_cons, header, beBytes_beNat_two, hl]
      rfl
    · exact forall_mem_cons.mpr ⟨⟨htok, beNat_two_lt o₁ o₂, Nat.not_lt.mp hlen⟩, hall⟩
  | case5 => cases h

theorem readValues_sound (h : readValues headers input = .ok options) :
    (∃ rest, input = options.flatMap val ++ rest) ∧
      options.map cleared = headers.map cleared ∧
      ∀ o ∈ options, o.val.length = o.length := by
  induction headers generalizing input options with
  | nil =>
    cases h
    exact ⟨⟨input, rfl⟩, rfl, by simp⟩
  | cons header headers ih =>
    rw [readValues] at h
    obtain ⟨hlen, h⟩ := ite_error_eq_ok.mp h
    obtain ⟨read, hread, heq⟩ := bind_eq_ok.mp h
    cases heq
    obtain ⟨⟨rest, hrest⟩, hmap, hall⟩ := ih hread
    refine ⟨⟨rest, ?_⟩, ?_, ?_⟩
    · rw [flatMap_cons, append_assoc, ← hrest, take_append_drop]
    · rw [map_cons, map_cons, hmap]
      rfl
    · exact forall_mem_cons.mpr ⟨length_take_of_le (Nat.not_lt.mp hlen), hall⟩

theorem flatMap_header_congr {xs ys : List PreLoginOption} (h : xs.map cleared = ys.map cleared) :
    xs.flatMap header = ys.flatMap header := by
  have hclear : ∀ l : List PreLoginOption,
      (l.map cleared).flatMap header =
        l.flatMap header := by
    intro l
    rw [flatMap_map]
    rfl
  rw [← hclear xs, h, hclear]

/-- **What the parser accepts is well formed**: the bytes begin with the encoding of the options it
returns. -/
theorem parsePreLoginRequest_sound {type : UInt8}
    (h : parsePreLoginRequest type input = .ok options) :
    type = tdsPrelogin ∧ options ≠ [] ∧ (∀ o ∈ options, o.WellFormed) ∧
      ∃ rest, input = encodePreLogin options ++ rest := by
  obtain ⟨⟨headers, left⟩, hheaders, h⟩ := bind_eq_ok.mp h
  simp only at h
  obtain ⟨hne, h⟩ := ite_error_eq_ok.mp h
  obtain ⟨read, hread, h⟩ := bind_eq_ok.mp h
  obtain ⟨htype, h⟩ := ite_error_eq_ok.mp h
  cases h
  obtain ⟨hinput, hwf⟩ := readOptions_sound hheaders
  obtain ⟨⟨rest, hrest⟩, hmap, hval⟩ := readValues_sound hread
  refine ⟨not_not.mp htype, ?_, ?_, rest, ?_⟩
  · rintro rfl
    exact hne (map_eq_nil_iff.mp hmap.symm)
  · intro o ho
    have hmem : o.cleared ∈ headers.map cleared :=
      hmap ▸ mem_map_of_mem ho
    obtain ⟨o', ho', heq⟩ := mem_map.mp hmem
    obtain ⟨htok, hoff, hlen⟩ := hwf o' ho'
    have e₁ : o'.token = o.token := (mk.inj heq).1
    have e₂ : o'.offset = o.offset := (mk.inj heq).2.1
    have e₃ : o'.length = o.length := (mk.inj heq).2.2.1
    exact ⟨e₁ ▸ htok, e₂ ▸ hoff, e₃ ▸ hlen, hval o ho⟩
  · rw [hinput, encodePreLogin, flatMap_header_congr hmap, hrest, append_assoc, cons_append]

/-! ### The negotiation -/

def EncryptOption.Encrypts (opt : EncryptOption) : Prop := opt = .on ∨ opt = .req

/-- Where TLS is required, every accepted ENCRYPTION option is answered by one that keeps it. -/
theorem encryptionAnswer_encrypts (hc : config.RequiresTls) {reqVal : List UInt8}
    {answer : EncryptOption} (h : encryptionAnswer config reqVal = .ok answer) :
    answer.Encrypts := by
  obtain ⟨hssl, hunix, henc⟩ := hc
  cases reqVal with
  | nil => cases h
  | cons b rest =>
    simp only [encryptionAnswer, hssl, hunix, henc, Bool.false_eq_true, not_false_eq_true,
      and_self, if_true] at h
    split at h
    · cases h
      exact .inl rfl
    split at h
    · cases h
      exact .inr rfl
    split at h
    · cases h
      exact .inr rfl
    · cases h

theorem setPreLoginResponseVal_cases {reqVal val : List UInt8}
    (h : setPreLoginResponseVal config token reqVal neg = .ok (val, neg')) :
    (token = tdsPreloginEncryption ∧ encryptionAnswer config reqVal = .ok neg'.loadEncryption) ∨
      (token ≠ tdsPreloginEncryption ∧ neg' = neg) := by
  by_cases htok : token = tdsPreloginEncryption
  · subst htok
    obtain ⟨answer, hanswer, heq⟩ := bind_eq_ok.mp h
    cases heq
    exact .inl ⟨rfl, hanswer⟩
  · rw [setPreLoginResponseVal, if_neg htok] at h
    refine .inr ⟨htok, ?_⟩
    split at h
    · cases h
      rfl
    split at h <;> cases h <;> rfl

theorem setPreLoginResponseVal_other (reqVal : List UInt8) (htok : token ≠ tdsPreloginEncryption) :
    ∃ val, setPreLoginResponseVal config token reqVal neg = .ok (val, neg) := by
  rw [setPreLoginResponseVal, if_neg htok]
  split
  · exact ⟨_, rfl⟩
  · split <;> exact ⟨_, rfl⟩

/-- The loop ends with an option that keeps TLS when it meets an ENCRYPTION option, wherever in the
list and however often. -/
theorem answerOptions_encrypts (hc : config.RequiresTls) {answers : List (UInt8 × List UInt8)}
    (h : answerOptions config options neg = .ok (answers, neg'))
    (henc : neg.loadEncryption.Encrypts ∨ ∃ o ∈ options, o.token = tdsPreloginEncryption) :
    neg'.loadEncryption.Encrypts := by
  induction options generalizing neg answers with
  | nil =>
    cases h
    rcases henc with henc | ⟨o, ho, -⟩
    · exact henc
    · cases ho
  | cons option options ih =>
    rw [answerOptions] at h
    split_ifs at h with hfed
    · obtain ⟨⟨val, neg₁⟩, hset, h⟩ := bind_eq_ok.mp h
      obtain ⟨⟨rest, neg₂⟩, hrest, heq⟩ := bind_eq_ok.mp h
      cases heq
      apply ih hrest
      rcases setPreLoginResponseVal_cases hset with ⟨-, hanswer⟩ | ⟨htok, rfl⟩
      · exact .inl (encryptionAnswer_encrypts hc hanswer)
      · refine henc.imp_right ?_
        rintro ⟨o, ho, hto⟩
        rcases mem_cons.mp ho with rfl | ho
        · exact absurd hto htok
        · exact ⟨o, ho, hto⟩
    · apply ih h
      refine henc.imp_right ?_
      rintro ⟨o, ho, hto⟩
      rcases mem_cons.mp ho with rfl | ho
      · rw [hto] at hfed
        exact absurd (by decide) hfed
      · exact ⟨o, ho, hto⟩

theorem answerOptions_default (config : LoginConfig) (neg : Negotiation)
    (h : ∀ o ∈ options, o.token ≠ tdsPreloginEncryption) :
    ∃ answers, answerOptions config options neg = .ok (answers, neg) := by
  induction options with
  | nil => exact ⟨[], rfl⟩
  | cons option options ih =>
    obtain ⟨answers, hanswers⟩ := ih (forall_mem_cons.mp h).2
    obtain ⟨val, hval⟩ := setPreLoginResponseVal_other option.val (h option (by simp))
    by_cases hfed : option.token ≠ tdsPreloginFedauthrequired
    · refine ⟨(option.token, val) :: answers, ?_⟩
      rw [answerOptions, if_pos hfed, hval, ok_bind]
      simp only [hanswers, ok_bind]
    · refine ⟨answers, ?_⟩
      rw [answerOptions, if_neg hfed, hanswers]

/-- **The negotiated option**: with an ENCRYPTION option in the request it is `on` or `req`. -/
theorem negotiated_of_encryption (hc : config.RequiresTls)
    {response : List UInt8} (h : makePreLoginResponse config request = .ok (response, neg))
    (henc : ∃ o ∈ request, o.token = tdsPreloginEncryption) : neg.loadEncryption.Encrypts := by
  obtain ⟨⟨answers, neg'⟩, hanswers, heq⟩ := bind_eq_ok.mp h
  cases heq
  exact answerOptions_encrypts hc hanswers (.inr henc)

theorem negotiated_default (config : LoginConfig)
    (h : ∀ o ∈ request, o.token ≠ tdsPreloginEncryption) :
    ∃ response, makePreLoginResponse config request = .ok (response, ⟨.off, .off⟩) := by
  obtain ⟨answers, hanswers⟩ := answerOptions_default config ⟨.off, .off⟩ h
  refine ⟨responseBytes answers, ?_⟩
  rw [makePreLoginResponse, hanswers]
  rfl

/-! ### TLS for the whole session -/

theorem keepsTls_of_error {run : LoginRun} {e : LoginError} (h : run.result = .error e) :
    run.KeepsTls := .inl ⟨e, h⟩

theorem keepsTls_afterNegotiation {opt : EncryptOption} (h : opt.Encrypts) :
    (afterNegotiation handshake login response opt).KeepsTls := by
  have hopened : opt = .on ∨ opt = .off ∨ opt = .req := h.imp_right .inr
  have hoff : opt ≠ .off := by rcases h with rfl | rfl <;> decide
  have hnot : opt ≠ .notSup := by rcases h with rfl | rfl <;> decide
  unfold afterNegotiation
  simp only [eq_true hopened, if_true, true_and]
  rw [if_neg hoff]
  split
  · exact keepsTls_of_error rfl
  split
  · exact keepsTls_of_error rfl
  refine .inr ⟨by simp, ?_, rfl, by simpa using hoff, by simpa using hnot⟩
  -- LOGIN7 is read once, after the handshake
  intro before after heq
  rcases before with - | ⟨a, - | ⟨b, - | ⟨c, before⟩⟩⟩
  · simp at heq
  · simp at heq
  · simp only [cons_append, nil_append, List.cons.injEq] at heq
    obtain ⟨rfl, rfl, -⟩ := heq
    rfl
  · simp at heq

theorem not_keepsTls_off : ¬ (afterNegotiation true true response .off).KeepsTls := by
  rintro (⟨e, he⟩ | ⟨-, -, -, hoff, -⟩)
  · cases he
  · exact hoff rfl

/-- **When TLS is kept.**  Where TLS is required, a message keeps it or is refused, whatever becomes
of the handshake and of the login, exactly when no well-formed list of options without an ENCRYPTION
option is the beginning of it. -/
theorem tls_kept_iff {config : LoginConfig} (hc : config.RequiresTls) (messageType : UInt8)
    (input : List UInt8) :
    (∀ handshake login, (tdsProcessLogin config handshake login messageType input).KeepsTls) ↔
    ∀ options rest, messageType = tdsPrelogin → options ≠ [] → (∀ o ∈ options, o.WellFormed) →
      input = encodePreLogin options ++ rest →
      ∃ o ∈ options, o.token = tdsPreloginEncryption := by
  constructor
  · rintro h options rest rfl hne hwf rfl
    by_contra hnone
    push Not at hnone
    obtain ⟨response, hresponse⟩ := negotiated_default config hnone
    have hkeep := h true true
    rw [tdsProcessLogin, parsePreLoginRequest_encode hwf hne] at hkeep
    simp only [hresponse] at hkeep
    exact not_keepsTls_off response hkeep
  · intro h handshake login
    unfold tdsProcessLogin
    cases hparse : parsePreLoginRequest messageType input with
    | error e => exact keepsTls_of_error rfl
    | ok request =>
      obtain ⟨htype, hne, hwf, rest, hinput⟩ := parsePreLoginRequest_sound hparse
      simp only
      cases hresponse : makePreLoginResponse config request with
      | error e => exact keepsTls_of_error rfl
      | ok result =>
        obtain ⟨response, neg⟩ := result
        have henc := h request rest htype hne hwf hinput
        exact keepsTls_afterNegotiation handshake login response
          (negotiated_of_encryption hc hresponse henc)

/-- A server that requires TLS, of version 12.0.2000. -/
def tlsServer : LoginConfig := ⟨true, false, true, fun i => [12, 0, 7, 208].getD i 0⟩

/-- A client that says it has no encryption, with two ENCRYPTION options. -/
theorem tls_kept_repeated :
    (tdsProcessLogin tlsServer true true tdsPrelogin
      [1, 0, 11, 0, 1, 1, 0, 12, 0, 1, 255, 1, 2]).KeepsTls := by
  refine (tls_kept_iff ⟨rfl, rfl, rfl⟩ _ _).mpr ?_ true true
  intro options rest _ hne hwf hinput
  have hparse := parsePreLoginRequest_encode hwf hne rest
  rw [← hinput] at hparse
  have hlist : parsePreLoginRequest tdsPrelogin [1, 0, 11, 0, 1, 1, 0, 12, 0, 1, 255, 1, 2] =
      .ok [⟨1, 11, 1, [1]⟩, ⟨1, 12, 1, [2]⟩] := by decide +kernel
  rw [hlist] at hparse
  cases hparse
  exact ⟨⟨1, 11, 1, [1]⟩, by simp, rfl⟩

/-- A client that asks for the version only: the handshake takes place and TLS is dropped after the
login. -/
theorem version_only_drops_tls :
    (tdsProcessLogin tlsServer true true tdsPrelogin [0, 0, 6, 0, 0, 255]).steps.drop 1 =
        [.tlsHandshake, .readLogin7, .freeSslStruct] ∧
      ¬ (tdsProcessLogin tlsServer true true tdsPrelogin [0, 0, 6, 0, 0, 255]).KeepsTls := by
  refine ⟨by decide +kernel, ?_⟩
  rintro (⟨e, he⟩ | ⟨-, -, -, hoff, -⟩)
  · cases he
  · exact hoff (by decide +kernel)

end Babelfish.Tds
