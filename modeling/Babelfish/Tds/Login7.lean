import Babelfish.Tds.UnicodeRoundTrip

/-!
# LOGIN7

Before a client is known, `FetchLoginRequest` reads its LOGIN7 message: a fixed part, a table of
offsets and lengths, and the texts that the table points to.  The texts are read in the order of the
table, with a position that only goes forward.

* `fetchLoginRequest`: the parser.
* `LaidOut`: the fields are inside the message, one behind the other.
* `fetchLoginRequest_ok_iff`: which messages are accepted.
* `LoginRead`: what an accepted request should hold.
* `fetchLoginRequest_right_iff`: accepted requests hold what they should, and all well-formed
  messages are accepted, but for texts with a high surrogate before `0xE000`.
-/

namespace Babelfish.Tds

open Lib List

/-! ### The request -/

/-- How `FetchLoginRequest` ends without success. -/
inductive Login7Error where
  /-- `STATUS_ERROR` -/
  | statusError
  /-- an error of `TdsUTF16toUTF8StringInfo` -/
  | unicode (e : UnicodeError)
  | windowsLogin
  | largeSspi
deriving DecidableEq, Repr

def Login7Error.message : Login7Error → Option String
  | .statusError => none
  | .unicode e => some e.message
  | .windowsLogin => some "Windows login is not supported in babelfish"
  | .largeSspi => some "large SSPI is not supported yet"

/-- `TDS_LOGIN_ATTR_*`, in the order of the table. -/
inductive LoginAttr where
  | hostname
  | username
  | password
  | appname
  | servername
  | unused
  | library
  | language
  | database
deriving DecidableEq, Repr

def loginAttrs : List LoginAttr :=
  [.hostname, .username, .password, .appname, .servername, .unused, .library, .language, .database]

structure LoginRequestData where
  length : Nat
  tdsVersion : Nat
  packetSize : Nat
  clientProVersion : Nat
  clientPid : Nat
  connectionId : Nat
  optionFlags1 : UInt8
  optionFlags2 : UInt8
  typeFlags : UInt8
  optionFlags3 : UInt8
  clientTimezone : Nat
  clientLcid : Nat
  hostname : Option (List UInt8) := none
  username : Option (List UInt8) := none
  password : Option (List UInt8) := none
  appname : Option (List UInt8) := none
  servername : Option (List UInt8) := none
  library : Option (List UInt8) := none
  language : Option (List UInt8) := none
  database : Option (List UInt8) := none
  clientId : List UInt8 := []
  sspiLen : Nat := 0
  sspi : Option (List UInt8) := none
deriving DecidableEq, Repr

namespace LoginRequestData

/-- The switch over the attributes. -/
def setText (attr : LoginAttr) (text : List UInt8) (r : LoginRequestData) : LoginRequestData :=
  match attr with
  | .hostname => { r with hostname := some text }
  | .username => { r with username := some text }
  | .password => { r with password := some text }
  | .appname => { r with appname := some text }
  | .servername => { r with servername := some text }
  | .library => { r with library := some text }
  | .language => { r with language := some text }
  | .database => { r with database := some text }
  | .unused => r

variable (r : LoginRequestData) {attr : LoginAttr} {t : List UInt8}

def text : LoginAttr → Option (List UInt8)
  | .hostname => r.hostname
  | .username => r.username
  | .password => r.password
  | .appname => r.appname
  | .servername => r.servername
  | .library => r.library
  | .language => r.language
  | .database => r.database
  | .unused => none

theorem text_setText_self (h : attr ≠ .unused) : (r.setText attr t).text attr = some t := by
  cases attr <;> first | rfl | exact absurd rfl h

theorem text_setText_other {other : LoginAttr} (h : attr ≠ other) :
    (r.setText attr t).text other = r.text other := by
  cases attr <;> cases other <;> first | rfl | exact absurd rfl h

@[simp] theorem length_setText : (r.setText attr t).length = r.length := by
  cases attr <;> rfl

@[simp] theorem text_sspi (n : Nat) (data : Option (List UInt8)) :
    ({ r with sspiLen := n, sspi := data } : LoginRequestData).text attr =
      r.text attr := by
  cases attr <;> rfl

end LoginRequestData

def sizeOfLoginRequestFixed : Nat := 36

def tdsLogin7 : UInt8 := 0x10

/-- The fixed part, with `clientProVersion` in the other byte order. -/
def readFixedPart (bs : List UInt8) : LoginRequestData where
  length := leNat (slice bs 0 4)
  tdsVersion := leNat (slice bs 4 8)
  packetSize := leNat (slice bs 8 12)
  clientProVersion := beNat (slice bs 12 16)
  clientPid := leNat (slice bs 16 20)
  connectionId := leNat (slice bs 20 24)
  optionFlags1 := bs.getD 24 0
  optionFlags2 := bs.getD 25 0
  typeFlags := bs.getD 26 0
  optionFlags3 := bs.getD 27 0
  clientTimezone := leNat (slice bs 28 32)
  clientLcid := leNat (slice bs 32 36)

/-! ### Reading -/

/-- `TdsGetbytes`: the bytes and what is left. -/
def loginGetbytes (len : Nat) (left : List UInt8) :
    Except Login7Error (List UInt8 × List UInt8) :=
  if left.length < len then .error .statusError else .ok (left.take len, left.drop len)

/-- `TdsDiscardbytes` -/
def loginDiscardbytes (len : Nat) (left : List UInt8) : Except Login7Error (List UInt8) :=
  if left.length < len then .error .statusError else .ok (left.drop len)

/-- `if (c) return STATUS_ERROR;` -/
def statusErrorIf (c : Prop) [Decidable c] : Except Login7Error Unit :=
  if c then .error .statusError else .ok ()

/-- An entry of the table: `(uint16_t) attrs[i]` and `(uint16_t) (attrs[i] >> 16)`. -/
structure LoginField where
  attr : LoginAttr
  offset : Nat
  length : Nat
deriving DecidableEq, Repr

/-- The request so far, the bytes that are left and the position of the first of them. -/
structure LoginState where
  request : LoginRequestData
  left : List UInt8
  read : Nat
deriving DecidableEq, Repr

/-- `(((p & 0xff) ^ 0xA5) << 4) | (((p & 0xff) ^ 0xA5) >> 4)` -/
def revealByte (p : UInt8) : UInt8 :=
  ((p ^^^ 0xA5) <<< 4) ||| ((p ^^^ 0xA5) >>> 4)

/-- The password is not sent as it is. -/
def revealText (attr : LoginAttr) (bytes : List UInt8) : List UInt8 :=
  if attr = .password then bytes.map revealByte else bytes

/-- `TdsUTF16toUTF8StringInfo`, whose errors end the login. -/
def loginText (bytes : List UInt8) : Except Login7Error (List UInt8) :=
  match tdsUTF16toUTF8StringInfo bytes with
  | .ok text => .ok text
  | .error e => .error (.unicode e)

variable (f : LoginField)

/-- A text, from its offset on. -/
def readAttrText (s : LoginState) (left : List UInt8) :
    Except Login7Error LoginState := do
  let length := f.length * 2
  statusErrorIf (f.offset + length > s.request.length)
  let (bytes, left) ← loginGetbytes length left
  statusErrorIf (f.offset + length > s.request.length)
  let text ← loginText (revealText f.attr bytes)
  return ⟨s.request.setText f.attr text, left, f.offset + length⟩

/-- The field that is not used is skipped; its length is in bytes. -/
def skipUnused (s : LoginState) (left : List UInt8) :
    Except Login7Error LoginState := do
  let left ← loginDiscardbytes f.length left
  statusErrorIf (f.offset + f.length > s.request.length)
  return ⟨s.request, left, f.offset + f.length⟩

/-- One round of the loop over the table. -/
def readAttr (s : LoginState) : Except Login7Error LoginState :=
  if f.length > 0 then do
    statusErrorIf (f.offset < s.read)
    let left ← loginDiscardbytes (f.offset - s.read) s.left
    statusErrorIf (f.length > 128)
    if f.attr = .unused then skipUnused f s left else readAttrText f s left
  else .ok s

def readAttrs : List LoginField → LoginState → Except Login7Error LoginState
  | [], s => .ok s
  | f :: fs, s => readAttr f s >>= readAttrs fs

/-- `sspiLen` is not negative, so that it is never found to be `-1`. -/
def readSspi (windowsLoginRefused : Bool) (sspiOffsetLen : Nat) (s : LoginState) :
    Except Login7Error LoginState :=
  if sspiOffsetLen > 0 then
    let offset := sspiOffsetLen % 65536
    let sspiLen := sspiOffsetLen / 65536
    if sspiLen > 0 then
      if windowsLoginRefused then .error .windowsLogin
      else if (sspiLen : Int) = -1 then .error .largeSspi
      else do
        statusErrorIf (offset < s.read)
        let left ← loginDiscardbytes (offset - s.read) s.left
        statusErrorIf (offset + sspiLen > s.request.length)
        let (sspi, left) ← loginGetbytes sspiLen left
        return ⟨{ s.request with sspiLen, sspi := some sspi }, left, offset + sspiLen⟩
    else .ok s
  else .ok s

/-- The table, an offset and a length in each word. -/
def loginFields (attrs : List UInt8) : List LoginField :=
  loginAttrs.zipIdx.map fun (attr, i) =>
    let word := leNat (slice attrs (4 * i) (4 * i + 4))
    ⟨attr, word % 65536, word / 65536⟩

/-- `FetchLoginRequest`, on the type of the message and the bytes that the client sends: the request
and the bytes that are left.  `windowsLoginRefused` is the setting that forbids SSPI. -/
def fetchLoginRequest (messageType : UInt8) (windowsLoginRefused : Bool) (input : List UInt8) :
    Except Login7Error (LoginRequestData × List UInt8) := do
  let (fixed, left) ← loginGetbytes sizeOfLoginRequestFixed input
  let request := readFixedPart fixed
  statusErrorIf (request.length > 128 * 1024)
  statusErrorIf (36 > request.length)
  statusErrorIf (messageType ≠ tdsLogin7)
  let (attrs, left) ← loginGetbytes 36 left
  statusErrorIf (72 > request.length)
  let (clientId, left) ← loginGetbytes 6 left
  statusErrorIf (78 > request.length)
  let (sspiOffsetLen, left) ← loginGetbytes 4 left
  statusErrorIf (82 > request.length)
  let s ← readAttrs (loginFields attrs) ⟨{ request with clientId }, left, 82⟩
  let s ← readSspi windowsLoginRefused (leNat sspiOffsetLen) s
  let left ← loginDiscardbytes ((request.length + 2 ^ 32 - s.read) % 2 ^ 32) s.left
  return (s.request, left)

/-! ### The message -/

variable (input : List UInt8) {fs : List LoginField}

/-- What the client declares as the length of the message. -/
def declaredLength : Nat := leNat (slice input 0 4)

def messageFields : List LoginField := loginFields (slice input 36 72)

def sspiOffset : Nat := leNat (slice input 78 82) % 65536

def sspiLength : Nat := leNat (slice input 78 82) / 65536

def LoginField.stop : Nat :=
  f.offset + if f.attr = .unused then f.length else f.length * 2

def LoginField.bytes (input : List UInt8) : List UInt8 :=
  slice input f.offset f.stop

def LoginField.IsText : Prop := f.length ≠ 0 ∧ f.attr ≠ .unused

/-- The fields that are not empty are inside the message from `start` on, one behind the other, with
at most 128 units each. -/
structure LaidOut (start total : Nat) (fields : List LoginField) : Prop where
  inside : ∀ f ∈ fields, f.length ≠ 0 → start ≤ f.offset ∧ f.length ≤ 128 ∧ f.stop ≤ total
  ordered : fields.Pairwise fun f g => f.length ≠ 0 → g.length ≠ 0 → f.stop ≤ g.offset

theorem LoginField.offset_le_stop : f.offset ≤ f.stop := Nat.le_add_right _ _

theorem laidOut_nil (start total : Nat) : LaidOut start total [] := ⟨by simp, .nil⟩

theorem laidOut_cons_empty {start total : Nat} {f : LoginField} (h : f.length = 0) :
    LaidOut start total (f :: fs) ↔ LaidOut start total fs := by
  constructor
  · rintro ⟨hin, hord⟩
    exact ⟨(forall_mem_cons.mp hin).2, (pairwise_cons.mp hord).2⟩
  · rintro ⟨hin, hord⟩
    exact ⟨forall_mem_cons.mpr ⟨absurd h, hin⟩,
      pairwise_cons.mpr ⟨fun g _ hne => absurd h hne, hord⟩⟩

theorem laidOut_cons {start total : Nat} {f : LoginField} (h : f.length ≠ 0) :
    LaidOut start total (f :: fs) ↔
      start ≤ f.offset ∧ f.length ≤ 128 ∧ f.stop ≤ total ∧ LaidOut f.stop total fs := by
  have hle := f.offset_le_stop
  constructor
  · rintro ⟨hin, hord⟩
    obtain ⟨hfirst, hrest⟩ := pairwise_cons.mp hord
    obtain ⟨h1, h2, h3⟩ := hin f mem_cons_self h
    refine ⟨h1, h2, h3, ?_, hrest⟩
    intro g hg hne
    obtain ⟨-, hg2, hg3⟩ := hin g (mem_cons_of_mem f hg) hne
    exact ⟨hfirst g hg h hne, hg2, hg3⟩
  · rintro ⟨h1, h2, h3, hin, hord⟩
    refine ⟨forall_mem_cons.mpr ⟨fun _ => ⟨h1, h2, h3⟩, fun g hg hne => ?_⟩,
      pairwise_cons.mpr ⟨fun g hg _ hne => (hin g hg hne).1, hord⟩⟩
    obtain ⟨hg1, hg2, hg3⟩ := hin g hg hne
    exact ⟨by omega, hg2, hg3⟩

/-! ### One field -/

section
variable {input : List UInt8} {total : Nat} {f : LoginField} {fields : List LoginField}
  {s s' t : LoginState} {type : UInt8} {refused : Bool} {r : LoginRequestData × List UInt8}
  {left : List UInt8}

def LoginField.HasText (f : LoginField) (input text : List UInt8) : Prop :=
  tdsUTF16toUTF8StringInfo (revealText f.attr (f.bytes input)) = .ok text

open LoginField

/-- The state is at its position of the input. -/
structure LoginState.At (s : LoginState) (input : List UInt8) (total : Nat) : Prop where
  left : s.left = input.drop s.read
  length : s.request.length = total
  read : s.read ≤ input.length

theorem statusErrorIf_eq_ok {c : Prop} [Decidable c] {u : Unit} : statusErrorIf c = .ok u ↔ ¬c := by
  rw [statusErrorIf, ite_error_eq_ok]
  exact and_iff_left rfl

theorem loginDiscardbytes_drop {pos len : Nat} (hpos : pos ≤ input.length) :
    loginDiscardbytes len (input.drop pos) = .ok left ↔
      pos + len ≤ input.length ∧ left = input.drop (pos + len) := by
  rw [loginDiscardbytes, length_drop, drop_drop, ite_error_eq_ok, Except.ok.injEq, eq_comm]
  exact and_congr_left fun _ => by omega

theorem loginGetbytes_drop {pos len : Nat} {r : List UInt8 × List UInt8}
    (hpos : pos ≤ input.length) :
    loginGetbytes len (input.drop pos) = .ok r ↔
      pos + len ≤ input.length ∧ r = (slice input pos (pos + len), input.drop (pos + len)) := by
  have hslice : (input.drop pos).take len = slice input pos (pos + len) := by
    rw [slice, drop_take]
    congr 1
    omega
  rw [loginGetbytes, length_drop, drop_drop, hslice, ite_error_eq_ok, Except.ok.injEq, eq_comm]
  exact and_congr_left fun _ => by omega

theorem loginText_eq_ok {bytes text : List UInt8} :
    loginText bytes = .ok text ↔ tdsUTF16toUTF8StringInfo bytes = .ok text := by
  unfold loginText
  cases tdsUTF16toUTF8StringInfo bytes with
  | ok t | error e => simp

theorem LoginState.At.discard (hs : s.At input total) {offset : Nat} (hle : s.read ≤ offset) :
    loginDiscardbytes (offset - s.read) s.left = .ok left ↔
      offset ≤ input.length ∧ left = input.drop offset := by
  rw [hs.left, loginDiscardbytes_drop hs.read, Nat.add_sub_of_le hle]

theorem readField_eq_ok (hoff : f.offset ≤ input.length) :
    (if f.attr = .unused then skipUnused f s (input.drop f.offset)
      else readAttrText f s (input.drop f.offset)) = .ok s' ↔
      f.stop ≤ s.request.length ∧ f.stop ≤ input.length ∧ s'.left = input.drop f.stop ∧
        s'.read = f.stop ∧
        if f.attr = .unused then s'.request = s.request
        else ∃ text, f.HasText input text ∧ s'.request = s.request.setText f.attr text := by
  obtain ⟨request', left', read'⟩ := s'
  unfold LoginField.HasText skipUnused readAttrText LoginField.bytes LoginField.stop
  split_ifs
  · simp only [bind_eq_ok, loginDiscardbytes_drop hoff, statusErrorIf_eq_ok, gt_iff_lt, not_lt]
    constructor
    · rintro ⟨left, ⟨hin, rfl⟩, -, hle, ⟨⟩⟩
      exact ⟨hle, hin, rfl, rfl, rfl⟩
    · rintro ⟨hle, hin, rfl, rfl, rfl⟩
      exact ⟨_, ⟨hin, rfl⟩, (), hle, rfl⟩
  · simp only [bind_eq_ok, loginGetbytes_drop hoff, statusErrorIf_eq_ok,
      loginText_eq_ok, gt_iff_lt, not_lt]
    constructor
    · rintro ⟨-, hle, _, ⟨hin, rfl⟩, -, -, text, htext, ⟨⟩⟩
      exact ⟨hle, hin, rfl, rfl, text, htext, rfl⟩
    · rintro ⟨hle, hin, rfl, rfl, text, htext, rfl⟩
      exact ⟨(), hle, _, ⟨hin, rfl⟩, (), hle, text, htext, rfl⟩

/-- **A round of the loop**, for a field that is not empty: it begins behind what has been read,
it ends inside the message, and its text is one that can be converted. -/
theorem readAttr_eq_ok (hs : s.At input total) (hf : f.length ≠ 0) :
    readAttr f s = .ok s' ↔
      s.read ≤ f.offset ∧ f.length ≤ 128 ∧ f.stop ≤ total ∧ f.stop ≤ input.length ∧
        s'.left = input.drop f.stop ∧ s'.read = f.stop ∧
        if f.attr = .unused then s'.request = s.request
        else ∃ text, f.HasText input text ∧ s'.request = s.request.setText f.attr text := by
  have hstop := f.offset_le_stop
  unfold readAttr
  rw [if_pos (pos_of_ne_zero hf), ← hs.length]
  simp only [bind_eq_ok, statusErrorIf_eq_ok, gt_iff_lt, not_lt]
  constructor
  · rintro ⟨-, hle, left, hleft, -, hlong, hrest⟩
    obtain ⟨hoff, rfl⟩ := (hs.discard hle).mp hleft
    exact ⟨hle, hlong, (readField_eq_ok hoff).mp hrest⟩
  · rintro ⟨hle, hlong, htotal, hin, hrest⟩
    have hoff : f.offset ≤ input.length := le_trans hstop hin
    exact ⟨(), hle, _, (hs.discard hle).mpr ⟨hoff, rfl⟩, (), hlong,
      (readField_eq_ok hoff).mpr ⟨htotal, hin, hrest⟩⟩

theorem readAttr_at (hs : s.At input total) (hf : f.length ≠ 0) (h : readAttr f s = .ok t) :
    t.At input total ∧ t.read = f.stop := by
  obtain ⟨-, -, -, hin, hleft, hpos, hrequest⟩ := (readAttr_eq_ok hs hf).mp h
  refine ⟨⟨by rw [hleft, hpos], ?_, by omega⟩, hpos⟩
  rw [← hs.length]
  split_ifs at hrequest
  · rw [hrequest]
  · obtain ⟨text, -, hreq⟩ := hrequest
    rw [hreq, LoginRequestData.length_setText]

/-! ### The table -/

/-- What the loop over the table has done. -/
structure ReadFields (input : List UInt8) (fields : List LoginField) (s s' : LoginState) :
    Prop where
  laidOut : LaidOut s.read s.request.length fields
  texts : ∀ f ∈ fields, f.IsText → ∃ text, f.HasText input text ∧
    s'.request.text f.attr = some text
  others : ∀ attr, attr ∉ fields.map LoginField.attr →
    s'.request.text attr = s.request.text attr
  read : ∀ x, s'.read ≤ x ↔ s.read ≤ x ∧ ∀ f ∈ fields, f.length ≠ 0 → f.stop ≤ x

theorem readAttrs_ok (hs : s.At input total)
    (hnodup : (fields.map attr).Nodup) (h : readAttrs fields s = .ok s') :
    s'.At input total ∧ ReadFields input fields s s' := by
  induction fields generalizing s with
  | nil =>
    cases h
    exact ⟨hs, laidOut_nil _ _, by simp, by simp, by simp⟩
  | cons f fs ih =>
    rw [map_cons, nodup_cons] at hnodup
    obtain ⟨t, ht, hrest⟩ := bind_eq_ok.mp h
    by_cases hf : f.length = 0
    · obtain rfl : s = t := by
        rw [readAttr, if_neg (by omega)] at ht
        exact Except.ok.inj ht
      obtain ⟨hat, hlaid, htexts, hothers, hread⟩ := ih hs hnodup.2 hrest
      refine ⟨hat, (laidOut_cons_empty hf).mpr hlaid,
        forall_mem_cons.mpr ⟨fun hftext => absurd hf hftext.1, htexts⟩, ?_, ?_⟩
      · intro attr hattr
        exact hothers attr fun hmem => hattr (mem_cons_of_mem _ hmem)
      · intro x
        rw [hread, forall_mem_cons]
        exact ⟨fun hx => ⟨hx.1, fun hne => absurd hf hne, hx.2⟩, fun hx => ⟨hx.1, hx.2.2⟩⟩
    · obtain ⟨hoff, hlong, htotal, -, -, -, hrequest⟩ := (readAttr_eq_ok hs hf).mp ht
      obtain ⟨htAt, hpos⟩ := readAttr_at hs hf ht
      obtain ⟨hat, hlaid, htexts, hothers, hread⟩ := ih htAt hnodup.2 hrest
      rw [hpos, htAt.length, ← hs.length] at hlaid
      refine ⟨hat, (laidOut_cons hf).mpr ⟨hoff, hlong, hs.length ▸ htotal, hlaid⟩,
        forall_mem_cons.mpr ⟨fun hftext => ?_, htexts⟩, ?_, ?_⟩
      · rw [if_neg hftext.2] at hrequest
        obtain ⟨text, htext, hreq⟩ := hrequest
        refine ⟨text, htext, ?_⟩
        rw [hothers _ hnodup.1, hreq, LoginRequestData.text_setText_self _ hftext.2]
      · intro attr hattr
        rw [map_cons, mem_cons, not_or] at hattr
        rw [hothers attr hattr.2]
        split_ifs at hrequest
        · rw [hrequest]
        · obtain ⟨text, -, hreq⟩ := hrequest
          rw [hreq, LoginRequestData.text_setText_other _ fun heq => hattr.1 heq.symm]
      · intro x
        have hle := f.offset_le_stop
        rw [hread, hpos, forall_mem_cons]
        constructor
        · rintro ⟨hstop, hall⟩
          exact ⟨by omega, fun _ => hstop, hall⟩
        · rintro ⟨-, hstop, hall⟩
          exact ⟨hstop hf, hall⟩

theorem readAttrs_exists (hs : s.At input total)
    (hlaid : LaidOut s.read total fields) (hcomplete : total ≤ input.length)
    (htexts : ∀ f ∈ fields, f.IsText → ∃ text, f.HasText input text) :
    ∃ s', readAttrs fields s = .ok s' := by
  induction fields generalizing s with
  | nil => exact ⟨s, rfl⟩
  | cons f fs ih =>
    obtain ⟨htext, hrest⟩ := forall_mem_cons.mp htexts
    by_cases hf : f.length = 0
    · obtain ⟨s', hs'⟩ := ih hs ((laidOut_cons_empty hf).mp hlaid) hrest
      refine ⟨s', bind_eq_ok.mpr ⟨s, ?_, hs'⟩⟩
      rw [readAttr, if_neg (by omega)]
    · obtain ⟨hoff, hlong, htotal, hlaid'⟩ := (laidOut_cons hf).mp hlaid
      obtain ⟨t, ht⟩ : ∃ t, readAttr f s = .ok t := by
        by_cases hunused : f.attr = .unused
        · refine ⟨⟨s.request, input.drop f.stop, f.stop⟩, (readAttr_eq_ok hs hf).mpr ?_⟩
          rw [if_pos hunused]
          exact ⟨hoff, hlong, htotal, by omega, rfl, rfl, rfl⟩
        · obtain ⟨text, htext⟩ := htext ⟨hf, hunused⟩
          refine ⟨⟨s.request.setText f.attr text, input.drop f.stop, f.stop⟩,
            (readAttr_eq_ok hs hf).mpr ?_⟩
          rw [if_neg hunused]
          exact ⟨hoff, hlong, htotal, by omega, rfl, rfl, text, htext, rfl⟩
      obtain ⟨htAt, hpos⟩ := readAttr_at hs hf ht
      obtain ⟨s', hs'⟩ := ih htAt (hpos ▸ hlaid') hrest
      exact ⟨s', bind_eq_ok.mpr ⟨t, ht, hs'⟩⟩

/-! ### SSPI -/

/-- What is known when the SSPI data have been read. -/
def LoginState.withSspi (s : LoginState) (input : List UInt8) (offset len : Nat) : LoginState :=
  ⟨{ s.request with sspiLen := len, sspi := some (slice input offset (offset + len)) },
    input.drop (offset + len), offset + len⟩

theorem readSspi_eq_ok {word : Nat} (hs : s.At input total) :
    readSspi refused word s = .ok s' ↔
      if word / 65536 = 0 then s' = s
      else refused = false ∧ s.read ≤ word % 65536 ∧
        word % 65536 + word / 65536 ≤ total ∧ word % 65536 + word / 65536 ≤ input.length ∧
        s' = s.withSspi input (word % 65536) (word / 65536) := by
  unfold readSspi
  rw [← hs.length]
  by_cases hlen : word / 65536 = 0
  · have hsame : (if word > 0 then (Except.ok s : Except Login7Error LoginState) else .ok s) =
        .ok s := by split <;> rfl
    simp only [hlen, lt_irrefl, gt_iff_lt, if_false, if_true, hsame]
    exact ⟨fun h => (Except.ok.inj h).symm, fun h => by rw [h]⟩
  · have hpos : word > 0 := by omega
    have hlen' : word / 65536 > 0 := pos_of_ne_zero hlen
    have hlarge : ¬((word / 65536 : Nat) : Int) = -1 := by omega
    simp only [if_neg hlen, if_pos hpos, if_pos hlen', if_neg hlarge]
    cases refused with
    | true =>
      simp
    | false =>
      simp only [Bool.false_eq_true, if_false, bind_eq_ok, statusErrorIf_eq_ok, true_and, gt_iff_lt,
        not_lt]
      constructor
      · rintro ⟨-, hle, left, hleft, -, htotal, r, hr, hs'⟩
        obtain ⟨hoff, rfl⟩ := (hs.discard hle).mp hleft
        obtain ⟨hin, rfl⟩ := (loginGetbytes_drop hoff).mp hr
        exact ⟨hle, htotal, hin, (Except.ok.inj hs').symm⟩
      · rintro ⟨hle, htotal, hin, rfl⟩
        have hoff : word % 65536 ≤ input.length := by omega
        exact ⟨(), hle, _, (hs.discard hle).mpr ⟨hoff, rfl⟩, (), htotal, _,
          (loginGetbytes_drop hoff).mpr ⟨hin, rfl⟩, rfl⟩

/-! ### The whole message -/

/-- What is known when the table has been read. -/
def loginStart (input : List UInt8) : LoginState :=
  ⟨{ readFixedPart (slice input 0 36) with clientId := slice input 72 78 }, input.drop 82, 82⟩

theorem length_readFixed (input : List UInt8) :
    (readFixedPart (slice input 0 36)).length = declaredLength input := by
  show leNat (slice (slice input 0 36) 0 4) = leNat (slice input 0 4)
  rw [slice_slice input (by decide)]

theorem attrs_messageFields : (messageFields input).map attr = loginAttrs := rfl

theorem nodup_messageFields : ((messageFields input).map attr).Nodup := by
  rw [attrs_messageFields]
  decide

theorem fetchLoginRequest_eq_ok :
    fetchLoginRequest type refused input = .ok r ↔
      type = tdsLogin7 ∧ 82 ≤ declaredLength input ∧ declaredLength input ≤ 128 * 1024 ∧
        82 ≤ input.length ∧
        ∃ s s', readAttrs (messageFields input) (loginStart input) = .ok s ∧
          readSspi refused (leNat (slice input 78 82)) s = .ok s' ∧
          loginDiscardbytes ((declaredLength input + 2 ^ 32 - s'.read) % 2 ^ 32) s'.left = .ok r.2 ∧
          r.1 = s'.request := by
  have hget : ∀ {pos len stop : Nat} (q : List UInt8 × List UInt8), pos ≤ input.length →
      pos + len = stop →
      (loginGetbytes len (input.drop pos) = .ok q ↔
        stop ≤ input.length ∧ q = (slice input pos stop, input.drop stop)) := by
    rintro pos len _ q hpos rfl
    exact loginGetbytes_drop hpos
  have hfirst : ∀ q, (loginGetbytes sizeOfLoginRequestFixed input = .ok q ↔
      36 ≤ input.length ∧ q = (slice input 0 36, input.drop 36)) := by
    intro q
    have hzero : 0 + 36 = 36 := rfl
    exact hget q (Nat.zero_le _) hzero
  have hlength := length_readFixed input
  unfold fetchLoginRequest
  simp only [bind_eq_ok, statusErrorIf_eq_ok, gt_iff_lt, not_lt, Classical.not_not, ne_eq]
  constructor
  · rintro ⟨_, h1, -, hlimit, -, -, -, htype, _, h2, -, -, _, h3, -, -, _, h4, -, hfixed, s, hs,
      s', hs', left, hleft, hr⟩
    obtain ⟨h36, rfl⟩ := (hfirst _).mp h1
    obtain ⟨h72, rfl⟩ := (hget _ h36 rfl).mp h2
    obtain ⟨h78, rfl⟩ := (hget _ h72 rfl).mp h3
    obtain ⟨h82, rfl⟩ := (hget _ h78 rfl).mp h4
    cases hr
    simp only [hlength] at hlimit hfixed hleft
    exact ⟨htype, hfixed, hlimit, h82, s, s', hs, hs', hleft, rfl⟩
  · rintro ⟨htype, hfixed, hlimit, h82, s, s', hs, hs', hleft, hr⟩
    refine ⟨_, (hfirst _).mpr ⟨by omega, rfl⟩, (), ?_, (), ?_, (), htype, _,
      (hget _ (by omega) rfl).mpr ⟨by omega, rfl⟩, (), ?_, _,
      (hget _ (by omega) rfl).mpr ⟨by omega, rfl⟩, (), ?_, _,
      (hget _ (by omega) rfl).mpr ⟨h82, rfl⟩, (), ?_, s, hs, s', hs', r.2, ?_, ?_⟩
    -- the checks of the declared length
    iterate 5
      · rw [hlength]
        omega
    · rwa [hlength]
    · rw [← hr]
      rfl

/-- **The layout of the messages that are accepted.** -/
structure LoginFits (messageType : UInt8) (refused : Bool) (input : List UInt8) : Prop where
  type : messageType = tdsLogin7
  fixed : 82 ≤ declaredLength input
  limit : declaredLength input ≤ 128 * 1024
  complete : declaredLength input ≤ input.length
  fields : LaidOut 82 (declaredLength input) (messageFields input)
  sspi : sspiLength input ≠ 0 → refused = false ∧ 82 ≤ sspiOffset input ∧
    (∀ f ∈ messageFields input, f.length ≠ 0 → f.stop ≤ sspiOffset input) ∧
    sspiOffset input + sspiLength input ≤ declaredLength input

/-- What an accepted request holds: the texts as they are converted, and the SSPI data. -/
structure LoginHolds (input : List UInt8) (r : LoginRequestData × List UInt8) : Prop where
  consumed : r.2 = input.drop (declaredLength input)
  texts : ∀ f ∈ messageFields input, f.IsText → ∃ text, f.HasText input text ∧
    r.1.text f.attr = some text
  sspi : sspiLength input ≠ 0 → r.1.sspiLen = sspiLength input ∧
    r.1.sspi = some (slice input (sspiOffset input) (sspiOffset input + sspiLength input))

theorem loginStart_at (h82 : 82 ≤ input.length) :
    (loginStart input).At input (declaredLength input) :=
  ⟨rfl, length_readFixed input, h82⟩

theorem fetchLoginRequest_ok (h : fetchLoginRequest type refused input = .ok r) :
    LoginFits type refused input ∧ LoginHolds input r := by
  obtain ⟨htype, hfixed, hlimit, h82, s, s', hs, hs', hleft, hr⟩ := fetchLoginRequest_eq_ok.mp h
  have hstart := loginStart_at h82
  obtain ⟨hat, hfields⟩ := readAttrs_ok hstart nodup_messageFields hs
  have hlaid := hfields.laidOut
  rw [hstart.length] at hlaid
  have hsspi := (readSspi_eq_ok hat).mp hs'
  -- Nothing that was read is behind the end of the message.
  have hend : s.read ≤ declaredLength input := by
    refine (hfields.read _).mpr ⟨hfixed, fun f hf hne => ?_⟩
    exact (hlaid.inside f hf hne).2.2
  have hdone : s'.left = input.drop s'.read ∧ s'.read ≤ declaredLength input ∧
      s'.read ≤ input.length := by
    split_ifs at hsspi
    · rw [hsspi]
      exact ⟨hat.left, hend, hat.read⟩
    · obtain ⟨-, -, htotal, hin, rfl⟩ := hsspi
      exact ⟨rfl, htotal, hin⟩
  have hrest : (declaredLength input + 2 ^ 32 - s'.read) % 2 ^ 32 =
      declaredLength input - s'.read := by omega
  rw [hrest, hdone.1, loginDiscardbytes_drop hdone.2.2, Nat.add_sub_of_le hdone.2.1] at hleft
  refine ⟨⟨htype, hfixed, hlimit, hleft.1, hlaid, ?_⟩, hleft.2, ?_, ?_⟩
  · intro hlen
    rw [if_neg (show ¬leNat (slice input 78 82) / 65536 = 0 from hlen)] at hsspi
    obtain ⟨hrefused, hoff, htotal, -, -⟩ := hsspi
    obtain ⟨hoff', hall⟩ := (hfields.read _).mp hoff
    exact ⟨hrefused, hoff', hall, htotal⟩
  · intro f hf hftext
    obtain ⟨text, htext, hheld⟩ := hfields.texts f hf hftext
    refine ⟨text, htext, ?_⟩
    rw [hr]
    split_ifs at hsspi
    · rw [hsspi, hheld]
    · obtain ⟨-, -, -, -, rfl⟩ := hsspi
      rw [LoginState.withSspi, LoginRequestData.text_sspi, hheld]
  · intro hlen
    rw [if_neg (show ¬leNat (slice input 78 82) / 65536 = 0 from hlen)] at hsspi
    obtain ⟨-, -, -, -, rfl⟩ := hsspi
    rw [hr]
    exact ⟨rfl, rfl⟩

/-- **Which messages are accepted**: those whose fields are laid out and have texts that can be
converted. -/
theorem fetchLoginRequest_ok_iff :
    (∃ r, fetchLoginRequest type refused input = .ok r) ↔
      LoginFits type refused input ∧ ∀ f ∈ messageFields input, f.IsText →
        ∃ text, f.HasText input text := by
  constructor
  · rintro ⟨r, hr⟩
    obtain ⟨hfits, hholds⟩ := fetchLoginRequest_ok hr
    refine ⟨hfits, fun f hf hftext => ?_⟩
    obtain ⟨text, htext, -⟩ := hholds.texts f hf hftext
    exact ⟨text, htext⟩
  · rintro ⟨hfits, htexts⟩
    have hcomplete := hfits.complete
    have hstart := loginStart_at (le_trans hfits.fixed hcomplete)
    obtain ⟨s, hs⟩ := readAttrs_exists hstart hfits.fields hcomplete htexts
    obtain ⟨hat, hfields⟩ := readAttrs_ok hstart nodup_messageFields hs
    obtain ⟨s', hs', hread, hleft⟩ : ∃ s', readSspi refused (leNat (slice input 78 82)) s = .ok s' ∧
        s'.read ≤ declaredLength input ∧ s'.left = input.drop s'.read := by
      by_cases hlen : leNat (slice input 78 82) / 65536 = 0
      · refine ⟨s, (readSspi_eq_ok hat).mpr (by rw [if_pos hlen]), ?_, hat.left⟩
        exact (hfields.read _).mpr
          ⟨hfits.fixed, fun f hf hne => (hfits.fields.inside f hf hne).2.2⟩
      · obtain ⟨hrefused, hoff, hall, htotal⟩ := hfits.sspi hlen
        have hin := le_trans htotal hcomplete
        refine ⟨s.withSspi input (sspiOffset input) (sspiLength input),
          (readSspi_eq_ok hat).mpr ?_, htotal, rfl⟩
        rw [if_neg hlen]
        exact ⟨hrefused, (hfields.read _).mpr ⟨hoff, hall⟩, htotal, hin, rfl⟩
    have hrest : (declaredLength input + 2 ^ 32 - s'.read) % 2 ^ 32 =
        declaredLength input - s'.read := by
      have hlimit := hfits.limit
      omega
    refine ⟨(s'.request, input.drop (declaredLength input)), fetchLoginRequest_eq_ok.mpr
      ⟨hfits.type, hfits.fixed, hfits.limit, le_trans hfits.fixed hcomplete, s, s', hs, hs', ?_,
        rfl⟩⟩
    rw [hrest, hleft, loginDiscardbytes_drop (by omega), Nat.add_sub_of_le hread]
    exact ⟨hcomplete, rfl⟩

end

/-! ### What the login is to guarantee -/

/-- How a client hides a byte of the password: the halves are exchanged and the result is combined
with `0xA5`. -/
def hideByte (b : UInt8) : UInt8 :=
  ((b <<< 4) ||| (b >>> 4)) ^^^ 0xA5

def hideText (attr : LoginAttr) (bytes : List UInt8) : List UInt8 :=
  if attr = .password then bytes.map hideByte else bytes

theorem revealByte_hideByte (b : UInt8) : revealByte (hideByte b) = b := by
  have hall : ∀ v : BitVec 8, revealByte (hideByte ⟨v⟩) = ⟨v⟩ := by decide +kernel
  exact hall b.toBitVec

theorem hideByte_revealByte (b : UInt8) : hideByte (revealByte b) = b := by
  have hall : ∀ v : BitVec 8, hideByte (revealByte ⟨v⟩) = ⟨v⟩ := by decide +kernel
  exact hall b.toBitVec

theorem revealText_eq_iff {attr : LoginAttr} {bytes text : List UInt8} :
    revealText attr bytes = text ↔ bytes = hideText attr text := by
  unfold revealText hideText
  split_ifs
  · constructor
    · rintro rfl
      simp [Function.comp_def, hideByte_revealByte]
    · rintro rfl
      simp [Function.comp_def, revealByte_hideByte]
  · rfl

/-- **What an accepted request should hold**: the declared length is consumed, the texts are those
at the places of the table, in UTF-8, the SSPI data are at their place, and no field reaches past
the end of the message. -/
structure LoginRead (input : List UInt8) (r : LoginRequestData × List UInt8) : Prop where
  consumed : declaredLength input ≤ input.length ∧ r.2 = input.drop (declaredLength input)
  texts : ∀ f ∈ messageFields input, f.IsText → ∃ cs : List Char, (∀ c ∈ cs, c.toNat ≠ 0) ∧
    slice input f.offset (f.offset + 2 * f.length) = hideText f.attr (cs.flatMap utf16Encode) ∧
      r.1.text f.attr = some (cs.flatMap String.utf8EncodeChar)
  sspi : sspiLength input ≠ 0 → r.1.sspiLen = sspiLength input ∧
    r.1.sspi = some (slice input (sspiOffset input) (sspiOffset input + sspiLength input))
  inside : (∀ f ∈ messageFields input, f.length ≠ 0 → f.stop ≤ declaredLength input) ∧
    (sspiLength input ≠ 0 → sspiOffset input + sspiLength input ≤ declaredLength input)

/-- A complete message without SSPI data whose fields are laid out and have well-formed texts
without NUL. -/
structure WellFormedLogin (input : List UInt8) : Prop where
  fixed : 82 ≤ declaredLength input
  limit : declaredLength input ≤ 128 * 1024
  complete : declaredLength input ≤ input.length
  fields : LaidOut 82 (declaredLength input) (messageFields input)
  sspi : sspiLength input = 0
  texts : ∀ f ∈ messageFields input, f.IsText →
    WellFormed (units (revealText f.attr (f.bytes input)))

/-- A message that is accepted although a text has a high surrogate before `0xE000`. -/
def SlippedLogin (refused : Bool) (input : List UInt8) : Prop :=
  LoginFits tdsLogin7 refused input ∧
    (∀ f ∈ messageFields input, f.IsText →
      ∃ ps : List Piece, revealText f.attr (f.bytes input) = ps.flatMap Piece.bytes) ∧
    ∃ f ∈ messageFields input, f.IsText ∧ HasSlip (revealText f.attr (f.bytes input))

theorem LoginField.bytes_of_isText {f : LoginField} (h : f.IsText) (input : List UInt8) :
    f.bytes input = slice input f.offset (f.offset + 2 * f.length) := by
  rw [LoginField.bytes, LoginField.stop, if_neg h.2, mul_comm]

theorem WellFormedLogin.accepted {input : List UInt8} (h : WellFormedLogin input) (refused : Bool) :
    ∃ r, fetchLoginRequest tdsLogin7 refused input = .ok r := by
  refine fetchLoginRequest_ok_iff.mpr
    ⟨⟨rfl, h.fixed, h.limit, h.complete, h.fields, fun hne => absurd h.sspi hne⟩, ?_⟩
  intro f hf hftext
  refine convertible_iff.mpr (exists_pieces_of_wellFormed ?_ (h.texts f hf hftext))
  have hstop := (h.fields.inside f hf hftext.1).2.2
  have hlen : (revealText f.attr (f.bytes input)).length = (f.bytes input).length := by
    unfold revealText
    split
    · rw [length_map]
    · rfl
  rw [LoginField.stop, if_neg hftext.2] at hstop
  rw [hlen, f.bytes_of_isText hftext, length_slice (by have := h.complete; omega)]
  omega

/-- **Login requests are read as they are sent**, but for messages with a high surrogate before
`0xE000`: an accepted request holds what it should, and a well-formed message is accepted. -/
theorem fetchLoginRequest_right_iff (refused : Bool) (input : List UInt8) :
    ((∀ r, fetchLoginRequest tdsLogin7 refused input = .ok r → LoginRead input r) ∧
      (WellFormedLogin input → ∃ r, fetchLoginRequest tdsLogin7 refused input = .ok r)) ↔
    ¬SlippedLogin refused input := by
  constructor
  · rintro ⟨hsound, -⟩ ⟨hfits, htexts, f, hf, hftext, hslip⟩
    obtain ⟨r, hr⟩ := fetchLoginRequest_ok_iff.mpr
      ⟨hfits, fun g hg hgtext => convertible_iff.mpr (htexts g hg hgtext)⟩
    obtain ⟨cs, hne, hbytes, -⟩ := (hsound r hr).texts f hf hftext
    rw [← f.bytes_of_isText hftext, ← revealText_eq_iff] at hbytes
    rw [hbytes] at hslip
    exact not_hasSlip_encode hne hslip
  · intro hnot
    refine ⟨?_, fun h => h.accepted refused⟩
    intro r hr
    obtain ⟨hfits, hholds⟩ := fetchLoginRequest_ok hr
    refine ⟨⟨hfits.complete, hholds.consumed⟩, ?_, hholds.sspi, ?_, fun h => (hfits.sspi h).2.2.2⟩
    · intro f hf hftext
      obtain ⟨text, htext, hheld⟩ := hholds.texts f hf hftext
      have hslip : ¬HasSlip (revealText f.attr (f.bytes input)) := by
        intro hslip
        refine hnot ⟨hfits, fun g hg hgtext => ?_, f, hf, hftext, hslip⟩
        obtain ⟨gtext, hgtext, -⟩ := hholds.texts g hg hgtext
        exact convertible_iff.mp ⟨gtext, hgtext⟩
      obtain ⟨cs, hne, hbytes, rfl⟩ := text_of_not_hasSlip hslip htext
      refine ⟨cs, hne, ?_, hheld⟩
      rw [← f.bytes_of_isText hftext]
      exact revealText_eq_iff.mp hbytes
    · intro f hf hne
      exact (hfits.fields.inside f hf hne).2.2

/-- A message with one field, the host name, which is a high surrogate and `0xE000`. -/
def slippedMessage : List UInt8 :=
  leBytes 4 86 ++ List.replicate 32 0 ++ leBytes 4 (82 + 2 * 65536) ++ List.replicate 42 0
    ++ [0x00, 0xD8, 0x00, 0xE0]

/-- The two units that are not well-formed become the character `U+10000`. -/
theorem slippedMessage_accepted :
    (fetchLoginRequest tdsLogin7 false slippedMessage).toOption.map (fun r => r.1.hostname) =
        some (some [0xF0, 0x90, 0x80, 0x80]) ∧
      slice slippedMessage 82 86 = [0x00, 0xD8, 0x00, 0xE0] ∧
      ¬WellFormed (units [0x00, 0xD8, 0x00, 0xE0]) := by
  refine ⟨by decide +kernel, by decide +kernel, ?_⟩
  rintro ⟨-, h⟩
  rw [if_pos (by decide)] at h
  exact absurd h.1 (by decide)

end Babelfish.Tds
