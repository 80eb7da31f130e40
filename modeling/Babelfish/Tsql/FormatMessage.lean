import Babelfish.Lib.Wrap
import Mathlib.Data.List.TakeWhile
import Mathlib.Data.Nat.Digits.Defs

/-!
# `FORMATMESSAGE` and `RAISERROR`

A message is made from a format one segment at a time: a segment is a percent sign with the text up
to the next one.  It is copied to a buffer and passed on as the format of a `printf` function, with
the next argument; the loop ends early when the text has become too long, and the end of a long text
is replaced by three dots.  An argument that is NULL is printed as `(null)`, but is not stepped
over: what comes after it is not read any more.

* `join_splitFormat`: the segments are the format.
* `FormatCall.print_eq`: what a segment that is passed on prints.
* `prepareFormatString_formatted_iff`: for which formats and arguments the message is the one asked
  for.
* `onlyChecked_iff`: when a segment is never passed on with an argument that does not fit it.
-/

namespace Babelfish.Tsql.FormatMessage

open List
open Lib (Fits wrap)

variable {i : Nat} {body buf : List UInt8} {p : Option UInt8}
  {segs : List (Option UInt8 × List UInt8)}
variable {msgString : List UInt8} {rest : List (List UInt8)}

/-! ### The format -/

def percent : UInt8 := 37

def letterS : UInt8 := 115

/-- The letters `d`, `i`, `o`, `u`, `x`, `X` and `s`. -/
def conversions : List UInt8 := [100, 105, 111, 117, 120, 88, 115]

/-- The text before the first percent sign and the text behind each percent sign, up to the next
one: what the calls of `strchr` find. -/
def splitFormat : List UInt8 → List UInt8 × List (List UInt8)
  | [] => ([], [])
  | c :: cs =>
    if c = percent then ([], (splitFormat cs).1 :: (splitFormat cs).2)
    else (c :: (splitFormat cs).1, (splitFormat cs).2)

def joinSegments (bodies : List (List UInt8)) : List UInt8 := bodies.flatMap (percent :: ·)

/-- `seg_start[1]`; the terminator of the string is `none`. -/
def placeholderOf (body : List UInt8) (rest : List (List UInt8)) : Option UInt8 :=
  match body, rest with
  | c :: _, _ => some c
  | [], [] => none
  | [], _ :: _ => some percent

/-- `strchr("diouxXs", placeholder) != NULL`, which also finds the terminator. -/
def isPlaceholder : Option UInt8 → Bool
  | none => true
  | some c => conversions.contains c

/-! ### The arguments -/

/-- An argument that is not NULL, by the category of its type.  Strings, values of unknown type and
values of user-defined types have the text of their output function.  The numeric types are those of
the integers and the others, of which the 32 bits that are read say nothing. -/
inductive Arg where
  | string (text : List UInt8)
  | user (text : List UInt8)
  | integer (n : Int64)
  | numeric (datum : Int32)
  | other
deriving DecidableEq, Repr

inductive FormatError where
  | invalidFormatSpecification (segStart : List UInt8)
  | expectedFormatType (param : Nat) (fmtSeg : List UInt8)
  | unsupportedType
  | vsnprintfFailed
deriving DecidableEq, Repr

/-- Why there is no text: an error is raised, or C leaves open what happens. -/
inductive Fault where
  | raises (e : FormatError)
  | undefined
deriving DecidableEq, Repr

def tsqlMaxMessageLen : Nat := 2047

def nullText : List UInt8 := [40, 110, 117, 108, 108, 41]

def dots : List UInt8 := [46, 46, 46]

/-! ### Passing a format on -/

def hexDigit (upper : Bool) (d : Nat) : UInt8 :=
  (if d < 10 then 48 + d else if upper then 55 + d else 87 + d).toUInt8

def digits (upper : Bool) (base n : Nat) : List UInt8 :=
  if n = 0 then [48] else (Nat.digits base n).reverse.map (hexDigit upper)

/-- The text of a number at each of `d`, `i`, `o`, `u`, `x` and `X`: signed, or unsigned. -/
def intText (conversion : UInt8) (signed : Int) (unsigned : Nat) : List UInt8 :=
  if conversion = 111 then digits false 8 unsigned
  else if conversion = 117 then digits false 10 unsigned
  else if conversion = 120 then digits false 16 unsigned
  else if conversion = 88 then digits true 16 unsigned
  else if signed < 0 then 45 :: digits false 10 signed.natAbs
  else digits false 10 signed.natAbs

/-- What `vsnprintf` prints for an `int`. -/
def printInt (conversion : UInt8) (n : Int) : List UInt8 :=
  intText conversion n (n % 2 ^ 32).toNat

/-- What stands behind the format in a call of `appendStringInfo`. -/
inductive Passed where
  | text (s : List UInt8)
  | int (n : Int)
deriving DecidableEq, Repr

/-- A call of `appendStringInfo` with the bytes of `fmt_seg` as its format. -/
structure FormatCall where
  fmtSeg : List UInt8
  passed : Passed
deriving DecidableEq, Repr

/-- `fmt_seg` after a segment was copied, at most `TSQL_MAX_MESSAGE_LEN + 1` bytes of it: all other
bytes are zero. -/
def fmtSegOf (body : List UInt8) : List UInt8 :=
  (percent :: body ++ List.replicate (tsqlMaxMessageLen + 1) 0).take (tsqlMaxMessageLen + 1)

/-- The `switch`: the call of `appendStringInfo`, unless an error is raised.  The message of the
error reads `fmt_seg` as a string. -/
def formatCall (i : Nat) (placeholder : Option UInt8) (fmtSeg : List UInt8) :
    Arg → Except Fault FormatCall
  | .string text => if placeholder ≠ some letterS then expected else .ok ⟨fmtSeg, .text text⟩
  | .user text => .ok ⟨fmtSeg, .text text⟩
  | .integer n =>
    if placeholder = some letterS then expected else .ok ⟨fmtSeg, .int (wrap 32 n.toInt)⟩
  | .numeric datum =>
    if placeholder = some letterS then expected else .ok ⟨fmtSeg, .int datum.toInt⟩
  | .other => .error (.raises .unsupportedType)
where
  expected : Except Fault FormatCall :=
    if 0 ∈ fmtSeg then .error (.raises (.expectedFormatType (i + 1) (fmtSeg.takeWhile (· != 0))))
    else .error .undefined

/-- What `appendStringInfo` prints for the conversion, and the text behind it.  It rejects a percent
sign at the end of its format. -/
def FormatCall.print (c : FormatCall) : Except Fault (List UInt8 × List UInt8) :=
  if 0 ∈ c.fmtSeg then
    match c.fmtSeg.takeWhile (· != 0), c.passed with
    | _ :: letter :: text, .text s => if letter = letterS then .ok (s, text) else .error .undefined
    | _ :: letter :: text, .int n =>
      if letter = letterS then .error .undefined else .ok (printInt letter n, text)
    | _, _ => .error (.raises .vsnprintfFailed)
  else .error .undefined

/-- A segment with an argument that is not NULL: the formats that are passed on, none or one, and
what comes of it. -/
def turn (i : Nat) (placeholder : Option UInt8) (fmtSeg : List UInt8) (arg : Arg) :
    List FormatCall × Except Fault (List UInt8 × List UInt8) :=
  match formatCall i placeholder fmtSeg arg with
  | .error f => ([], .error f)
  | .ok call => ([call], call.print)

/-! ### The loop -/

/-- What the loop makes: the text; the formats that it passes on and the texts that it puts in the
places of the placeholders are noted for the statements. -/
structure Run where
  calls : List FormatCall
  places : List (List UInt8)
  result : Except Fault (List UInt8)

def Run.put (r : Run) (calls : List FormatCall) (place : List UInt8) : Run :=
  ⟨calls ++ r.calls, place :: r.places, r.result⟩

/-- The loop of `prepare_format_string`, from the argument `i` and the text so far. -/
def loop (args : List (Option Arg)) : Nat → List UInt8 → List (List UInt8) → Run
  | _, buf, [] => ⟨[], [], .ok buf⟩
  | i, buf, body :: rest =>
    if buf.length > tsqlMaxMessageLen then ⟨[], [], .ok (buf ++ joinSegments (body :: rest))⟩
    else if isPlaceholder (placeholderOf body rest) then
      match args[i]?.getD none with
      | none =>
        -- `continue` leaves `i` where it is
        if 0 ∈ fmtSegOf body then
          (loop args i (buf ++ nullText ++ body.drop 1) rest).put [] nullText
        else ⟨[], [], .error .undefined⟩
      | some arg =>
        match turn i (placeholderOf body rest) (fmtSegOf body) arg with
        | (calls, .error f) => ⟨calls, [], .error f⟩
        | (calls, .ok (place, text)) =>
          (loop args (i + 1) (buf ++ place ++ text) rest).put calls place
    else ⟨[], [], .error (.raises (.invalidFormatSpecification (joinSegments (body :: rest))))⟩

/-- The cut at the end of `prepare_format_string`. -/
def cut (buf : List UInt8) : List UInt8 :=
  if buf.length > tsqlMaxMessageLen then buf.take (tsqlMaxMessageLen - 3) ++ dots else buf

/-- `prepare_format_string` up to its cut. -/
def run (msgString : List UInt8) (args : List (Option Arg)) : Run :=
  loop args 0 (splitFormat msgString).1 (splitFormat msgString).2

def prepareFormatString (msgString : List UInt8) (args : List (Option Arg)) :
    Except Fault (List UInt8) :=
  (run msgString args).result.map cut

/-- `formatmessage`, for a format that is not NULL: at most twenty arguments are taken. -/
def formatmessage (msgString : List UInt8) (args : List (Option Arg)) : Except Fault (List UInt8) :=
  prepareFormatString msgString (args.take 20)

/-! ### The message asked for -/

def segments : List (List UInt8) → List (Option UInt8 × List UInt8)
  | [] => []
  | body :: rest => (placeholderOf body rest, body) :: segments rest

/-- An integer as a number of its own width. -/
def renderInt (conversion : UInt8) (n : Int64) : List UInt8 :=
  intText conversion n.toInt (n.toInt % 2 ^ (if Fits 32 n.toInt then 32 else 64)).toNat

/-- **The rendering of an argument**: a text at `s`, and an integer at the other letters. -/
def rendering (placeholder : Option UInt8) : Option Arg → Option (List UInt8)
  | none => some nullText
  | some (.string text) | some (.user text) =>
    if placeholder = some letterS then some text else none
  | some (.integer n) =>
    placeholder.bind fun c => if c = letterS then none else some (renderInt c n)
  | some _ => none

/-- **The segments with the k-th placeholder replaced by the rendering of the k-th argument**,
`(null)` where there is none, and all other text kept. -/
def expected : List (Option Arg) → List (Option UInt8 × List UInt8) → List UInt8
  | _, [] => []
  | args, (placeholder, body) :: segs =>
    (rendering placeholder (args.head?.getD none)).getD [] ++ body.drop 1 ++ expected args.tail segs

def expectedText (msgString : List UInt8) (args : List (Option Arg)) : List UInt8 :=
  (splitFormat msgString).1 ++ expected args (segments (splitFormat msgString).2)

/-- The texts in the first places are as they should be. -/
def Places (P : Option UInt8 → Option Arg → List UInt8 → Prop) :
    List (Option Arg) → List (Option UInt8 × List UInt8) → List (List UInt8) → Prop
  | _, _, [] => True
  | _, [], _ :: _ => False
  | args, (placeholder, _) :: segs, place :: places =>
    P placeholder (args.head?.getD none) place ∧ Places P args.tail segs places

/-- **The message asked for**: the k-th place has the rendering of the k-th argument; the message
has at most `TSQL_MAX_MESSAGE_LEN` bytes; it is the format with its placeholders replaced when that
is not too long, and else the beginning of it with three dots. -/
structure Formatted (msgString : List UInt8) (args : List (Option Arg))
    (places : List (List UInt8)) (out : List UInt8) : Prop where
  places_eq : Places (fun p arg place => rendering p arg = some place) args
    (segments (splitFormat msgString).2) places
  length_le : out.length ≤ tsqlMaxMessageLen
  whole : (expectedText msgString args).length ≤ tsqlMaxMessageLen →
    out = expectedText msgString args
  shortened : tsqlMaxMessageLen < (expectedText msgString args).length →
    out = (expectedText msgString args).take (tsqlMaxMessageLen - 3) ++ dots

/-- The 32 bits of an integer show it: it fits them, or it is printed without a sign and fits them
so. -/
def IntShown (placeholder : Option UInt8) (n : Int64) : Prop :=
  Fits 32 n.toInt ∨ placeholder ∈ [some 111, some 117, some 120, some 88] ∧
    0 ≤ n.toInt ∧ n.toInt < 2 ^ 32

/-- The argument is one whose rendering is printed.  Behind a NULL that is the text `(null)`. -/
def ArgRight (pastNull : Bool) (placeholder : Option UInt8) (arg : Option Arg) : Prop :=
  if pastNull then rendering placeholder arg = some nullText
  else match arg with
    | some (.user _) => placeholder = some letterS
    | some (.integer n) => IntShown placeholder n
    | some (.numeric _) => False
    | _ => True

/-- Each segment before which the text is not yet too long fits in its copy, and has an argument
whose rendering is printed. -/
def RightFrom : Bool → List (Option Arg) → List UInt8 → List (Option UInt8 × List UInt8) → Prop
  | _, _, _, [] => True
  | pastNull, args, buf, (placeholder, body) :: segs =>
    let arg := args.head?.getD none
    buf.length ≤ tsqlMaxMessageLen →
      body.length < tsqlMaxMessageLen ∧ ArgRight pastNull placeholder arg ∧
        RightFrom (pastNull || arg.isNone) args.tail
          (buf ++ (rendering placeholder arg).getD [] ++ body.drop 1) segs

/-! ### Segments and the cut -/

/-- **The segments are the format.** -/
theorem join_splitFormat (s : List UInt8) :
    (splitFormat s).1 ++ joinSegments (splitFormat s).2 = s := by
  induction s with
  | nil => rfl
  | cons c cs ih =>
    rw [splitFormat]
    split_ifs with hc
    · rw [hc]
      exact congrArg (percent :: ·) ih
    · exact congrArg (c :: ·) ih

/-- A segment has no percent sign, and only bytes of the format. -/
theorem mem_splitFormat {s body : List UInt8} (h : body ∈ (splitFormat s).2) :
    percent ∉ body ∧ ∀ c ∈ body, c ∈ s := by
  have hfirst : ∀ s : List UInt8, percent ∉ (splitFormat s).1 := by
    intro s
    induction s with
    | nil => exact not_mem_nil
    | cons c cs ih =>
      rw [splitFormat]
      split
      · exact not_mem_nil
      · exact not_mem_cons_of_ne_of_not_mem (Ne.symm ‹_›) ih
  constructor
  · induction s with
    | nil => cases h
    | cons c cs ih =>
      rw [splitFormat] at h
      split at h
      · rcases mem_cons.mp h with rfl | h
        · exact hfirst cs
        · exact ih h
      · exact ih h
  · intro c hc
    rw [← join_splitFormat s]
    exact mem_append_right _
      (mem_flatMap.mpr ⟨body, h, mem_cons_of_mem _ hc⟩)

theorem length_cut_le (buf : List UInt8) : (cut buf).length ≤ tsqlMaxMessageLen := by
  unfold cut
  split
  · rw [length_append, length_take]
    change _ + 3 ≤ 2047
    have : min (tsqlMaxMessageLen - 3) buf.length ≤ 2044 := Nat.min_le_left _ _
    omega
  · omega

theorem cut_append (h : tsqlMaxMessageLen < buf.length) (xs ys : List UInt8) :
    cut (buf ++ xs) = cut (buf ++ ys) := by
  have hcut : ∀ zs, cut (buf ++ zs) = buf.take (tsqlMaxMessageLen - 3) ++ dots := by
    intro zs
    have hlen : (buf ++ zs).length > tsqlMaxMessageLen := by
      rw [length_append]
      omega
    rw [cut, if_pos hlen, take_append_of_le_length (by omega)]
  rw [hcut, hcut]

variable {arg : Arg} {args todo : List (Option Arg)}

theorem formatted_iff {places : List (List UInt8)} {out : List UInt8} :
    Formatted msgString args places out ↔
      Places (fun p arg place => rendering p arg = some place) args
        (segments (splitFormat msgString).2) places ∧ out = cut (expectedText msgString args) := by
  rw [cut]
  split_ifs with hlen
  · constructor
    · exact fun h => ⟨h.places_eq, h.shortened hlen⟩
    · rintro ⟨hplaces, rfl⟩
      refine ⟨hplaces, ?_, fun h => absurd h (Nat.not_le.mpr hlen), fun _ => rfl⟩
      have h := length_cut_le (expectedText msgString args)
      rwa [cut, if_pos hlen] at h
  · constructor
    · exact fun h => ⟨h.places_eq, h.whole (Nat.not_lt.mp hlen)⟩
    · rintro ⟨hplaces, rfl⟩
      exact ⟨hplaces, Nat.not_lt.mp hlen, fun _ => rfl, fun h => absurd h hlen⟩

/-! ### The numbers -/

def unhex (c : UInt8) : Nat :=
  if c.toNat < 58 then c.toNat - 48 else if c.toNat < 97 then c.toNat - 55 else c.toNat - 87

theorem unhex_hexDigit {upper : Bool} {d : Nat} (hd : d < 16) : unhex (hexDigit upper d) = d := by
  have h : ∀ d : Fin 16, ∀ upper, unhex (hexDigit upper d) = d := by decide
  exact h ⟨d, hd⟩ upper

theorem ofDigits_digits {upper : Bool} {base : Nat} (hbase : 1 < base) (hle : base ≤ 16) (n : Nat) :
    Nat.ofDigits base ((digits upper base n).map unhex).reverse = n := by
  unfold digits
  split_ifs with hn
  · subst hn
    simp [unhex]
  · have hmap : ((Nat.digits base n).map (hexDigit upper)).map unhex = Nat.digits base n := by
      rw [map_map]
      refine (map_congr_left fun d hd => ?_).trans (map_id _)
      exact unhex_hexDigit (lt_of_lt_of_le (Nat.digits_lt_base hbase hd) hle)
    rw [map_reverse, map_reverse, reverse_reverse, hmap, Nat.ofDigits_digits]

theorem digits_inj {upper : Bool} {base n m : Nat} (hbase : 1 < base) (hle : base ≤ 16) :
    digits upper base n = digits upper base m ↔ n = m := by
  refine ⟨fun h => ?_, fun h => h ▸ rfl⟩
  rw [← ofDigits_digits hbase hle n, h, ofDigits_digits hbase hle]

theorem minus_notMem_digits {upper : Bool} {base n : Nat} (hbase : 1 < base) (hle : base ≤ 16) :
    45 ∉ digits upper base n := by
  have h : ∀ d : Fin 16, ∀ upper, hexDigit upper d ≠ 45 := by decide
  unfold digits
  split_ifs
  · decide
  · intro hmem
    obtain ⟨d, hd, heq⟩ := mem_map.mp hmem
    have hlt := lt_of_lt_of_le (Nat.digits_lt_base hbase (mem_reverse.mp hd)) hle
    exact h ⟨d, hlt⟩ upper heq

theorem signedText_inj {s s' : Int} :
    (if s < 0 then 45 :: digits false 10 s.natAbs else digits false 10 s.natAbs) =
      (if s' < 0 then 45 :: digits false 10 s'.natAbs else digits false 10 s'.natAbs) ↔ s = s' := by
  have hminus : ∀ n m : Nat, 45 :: digits false 10 n ≠ digits false 10 m := fun n m h =>
    minus_notMem_digits (by decide) (by decide) (h ▸ mem_cons_self)
  split_ifs with h h'
  · rw [cons_inj_right, digits_inj (by decide) (by decide)]
    omega
  · exact iff_of_false (hminus _ _) (by omega)
  · exact iff_of_false (hminus _ _).symm (by omega)
  · rw [digits_inj (by decide) (by decide)]
    omega

theorem wrap_emod (x : Int) : wrap 32 x % 2 ^ 32 = x % 2 ^ 32 := by
  obtain ⟨k, hk⟩ := Lib.exists_wrap 32 x
  rw [hk, Int.sub_mul_emod_self_left]

/-- **When the 32 bits show the integer.** -/
theorem renderInt_eq_iff {c : UInt8} (hc : c ∈ conversions) (hs : c ≠ letterS) (n : Int64) :
    renderInt c n = printInt c (wrap 32 n.toInt) ↔ IntShown (some c) n := by
  have hle := n.le_toInt
  have hlt := n.toInt_lt
  have hunsigned : (n.toInt % 2 ^ (if Fits 32 n.toInt then 32 else 64)).toNat =
      (wrap 32 n.toInt % 2 ^ 32).toNat ↔ Fits 32 n.toInt ∨ 0 ≤ n.toInt ∧ n.toInt < 2 ^ 32 := by
    rw [wrap_emod]
    split_ifs with hfits
    · simp [hfits]
    · simp only [hfits, false_or]
      omega
  have hsigned : n.toInt = wrap 32 n.toInt ↔ Fits 32 n.toInt :=
    eq_comm.trans (Lib.wrap_eq_self_iff (by decide))
  simp only [conversions, mem_cons, not_mem_nil, or_false] at hc
  unfold renderInt printInt IntShown
  rcases hc with rfl | rfl | rfl | rfl | rfl | rfl | rfl
  · simp [intText, signedText_inj, hsigned]
  · simp [intText, signedText_inj, hsigned]
  · simpa [intText, digits_inj] using hunsigned
  · simpa [intText, digits_inj] using hunsigned
  · simpa [intText, digits_inj] using hunsigned
  · simpa [intText, digits_inj] using hunsigned
  · exact absurd rfl hs

/-! ### What a segment prints -/

theorem isPlaceholder_iff : isPlaceholder p = true ↔ p = none ∨ ∃ c ∈ conversions, p = some c := by
  cases p with
  | none => simp [isPlaceholder]
  | some c => simp [isPlaceholder]

theorem placeholderOf_none (h : placeholderOf body rest = none) : body = [] ∧ rest = [] := by
  match body, rest, h with
  | [], [], _ => exact ⟨rfl, rfl⟩

theorem placeholderOf_letter {c : UInt8} (hc : c ∈ conversions)
    (h : placeholderOf body rest = some c) : ∃ text, body = c :: text := by
  match body, rest, h with
  | _ :: text, _, rfl => exact ⟨text, rfl⟩
  | [], _ :: _, rfl => exact absurd hc (by decide)

theorem fmtSegOf_of_lt (h : body.length < tsqlMaxMessageLen) :
    fmtSegOf body =
      percent :: body ++ 0 :: List.replicate (tsqlMaxMessageLen - 1 - body.length) 0 := by
  have hlen : (percent :: body).length ≤ tsqlMaxMessageLen + 1 := by
    rw [length_cons]
    omega
  rw [fmtSegOf, take_append, take_of_length_le hlen, take_replicate, ← replicate_succ]
  congr 2
  rw [length_cons]
  omega

theorem zero_mem_fmtSegOf (hzero : 0 ∉ body) :
    0 ∈ fmtSegOf body ↔ body.length < tsqlMaxMessageLen := by
  constructor
  · intro hmem
    by_contra hge
    rw [fmtSegOf, take_append_of_le_length (by simp; omega)] at hmem
    rcases mem_cons.mp (mem_of_mem_take hmem) with h | h
    · cases h
    · exact hzero h
  · intro hlt
    rw [fmtSegOf_of_lt hlt]
    exact mem_append_right _ mem_cons_self

theorem takeWhile_fmtSegOf (hzero : 0 ∉ body) (h : body.length < tsqlMaxMessageLen) :
    (fmtSegOf body).takeWhile (· != 0) = percent :: body := by
  rw [fmtSegOf_of_lt h, takeWhile_append_of_pos, takeWhile_cons_of_neg (by simp), append_nil]
  exact forall_mem_cons.mpr ⟨rfl, fun x hx => bne_iff_ne.mpr fun h => hzero (h ▸ hx)⟩

/-- **What a segment that is passed on prints**: nothing is defined when it has no terminator or its
letter does not fit what is passed. -/
theorem FormatCall.print_eq (hzero : 0 ∉ body)
    (hp : isPlaceholder (placeholderOf body rest) = true) (passed : Passed) :
    FormatCall.print ⟨fmtSegOf body, passed⟩ =
      if body.length < tsqlMaxMessageLen then
        match placeholderOf body rest, passed with
        | none, _ => .error (.raises .vsnprintfFailed)
        | some c, .text s => if c = letterS then .ok (s, body.drop 1) else .error .undefined
        | some c, .int n =>
          if c = letterS then .error .undefined else .ok (printInt c n, body.drop 1)
      else .error .undefined := by
  unfold FormatCall.print
  simp only [zero_mem_fmtSegOf hzero]
  split_ifs with hlen
  · rw [takeWhile_fmtSegOf hzero hlen]
    rcases isPlaceholder_iff.mp hp with h | ⟨c, hc, h⟩
    · obtain ⟨rfl, rfl⟩ := placeholderOf_none h
      cases passed <;> rfl
    · obtain ⟨text, rfl⟩ := placeholderOf_letter hc h
      cases passed <;> rfl
  · rfl

/-! ### The message is the one asked for -/

/-- What a segment with an argument comes to. -/
theorem turn_right (hzero : 0 ∉ body) (hp : isPlaceholder (placeholderOf body rest) = true)
    (i : Nat) (arg : Arg) :
    match (turn i (placeholderOf body rest) (fmtSegOf body) arg).2 with
    | .error (.raises _) => True
    | .error .undefined => ¬(body.length < tsqlMaxMessageLen ∧
        ArgRight false (placeholderOf body rest) (some arg))
    | .ok (place, text) => body.length < tsqlMaxMessageLen ∧ text = body.drop 1 ∧
        (ArgRight false (placeholderOf body rest) (some arg) ↔
          rendering (placeholderOf body rest) (some arg) = some place) := by
  have hprint := FormatCall.print_eq hzero hp
  have hterm := zero_mem_fmtSegOf hzero
  rcases isPlaceholder_iff.mp hp with h | ⟨c, hc, h⟩
  · obtain ⟨rfl, rfl⟩ := placeholderOf_none h
    cases arg <;> simp [turn, formatCall, formatCall.expected, hprint, hterm, h, tsqlMaxMessageLen]
  · rw [h] at hprint ⊢
    by_cases hlen : body.length < tsqlMaxMessageLen
    · by_cases hs : c = letterS
      · cases arg <;>
          simp [turn, formatCall, formatCall.expected, hprint, hterm, hlen, hs, ArgRight, rendering]
      · have hint := fun n => renderInt_eq_iff hc hs n
        cases arg <;> simp [turn, formatCall, formatCall.expected, hprint, hterm, hlen, hs,
          ArgRight, rendering, hint]
    · cases arg <;> by_cases hs : c = letterS <;>
        simp [turn, formatCall, formatCall.expected, hprint, hterm, hlen, hs]

section

variable (hlen : buf.length ≤ tsqlMaxMessageLen)
include hlen

theorem loop_invalid (hp : ¬isPlaceholder (placeholderOf body rest) = true) :
    loop args i buf (body :: rest) =
      ⟨[], [], .error (.raises (.invalidFormatSpecification (joinSegments (body :: rest))))⟩ := by
  rw [loop, if_neg (Nat.not_lt.mpr hlen), if_neg hp]

theorem loop_null (hp : isPlaceholder (placeholderOf body rest) = true) (hzero : 0 ∉ body)
    (harg : args[i]?.getD none = none) : loop args i buf (body :: rest) =
      if body.length < tsqlMaxMessageLen then
        (loop args i (buf ++ nullText ++ body.drop 1) rest).put [] nullText
      else ⟨[], [], .error .undefined⟩ := by
  rw [loop, if_neg (Nat.not_lt.mpr hlen), if_pos hp]
  simp only [harg, zero_mem_fmtSegOf hzero]

theorem loop_some (hp : isPlaceholder (placeholderOf body rest) = true)
    (harg : args[i]?.getD none = some arg) : loop args i buf (body :: rest) =
      match turn i (placeholderOf body rest) (fmtSegOf body) arg with
      | (calls, .error f) => ⟨calls, [], .error f⟩
      | (calls, .ok (place, text)) =>
        (loop args (i + 1) (buf ++ place ++ text) rest).put calls place := by
  rw [loop, if_neg (Nat.not_lt.mpr hlen), if_pos hp]
  simp only [harg]

end

/-- The loop has made a text, with the rendering of the k-th argument in the k-th place. -/
def Run.Right (r : Run) (args : List (Option Arg)) (buf : List UInt8)
    (segs : List (Option UInt8 × List UInt8)) : Prop :=
  ∃ out, r.result = .ok out ∧
    Places (fun p arg place => rendering p arg = some place) args segs r.places ∧
    cut out = cut (buf ++ expected args segs)

theorem Run.put_right_iff {r : Run} {calls : List FormatCall} {place : List UInt8}
    (hlen : body.length < tsqlMaxMessageLen) {pastNull next : Bool}
    (hplace : ArgRight pastNull p (args.head?.getD none) ↔
      rendering p (args.head?.getD none) = some place)
    (ih : r.Right args.tail (buf ++ place ++ body.drop 1) segs ↔
      RightFrom next args.tail (buf ++ place ++ body.drop 1) segs) :
    (r.put calls place).Right args buf ((p, body) :: segs) ↔
      body.length < tsqlMaxMessageLen ∧ ArgRight pastNull p (args.head?.getD none) ∧
        RightFrom next args.tail
          (buf ++ (rendering p (args.head?.getD none)).getD [] ++ body.drop 1) segs := by
  rw [hplace]
  by_cases h : rendering p (args.head?.getD none) = some place
  · simp only [h, Option.getD_some, true_and, hlen, ← ih]
    simp [Run.Right, Run.put, Places, expected, h]
  · simp [Run.Right, Run.put, Places, h]

/-- The loop from a state in which no NULL was met and `todo` is what is left of the arguments, or
in which the argument `i` is NULL or missing. -/
theorem loop_right_iff (bodies : List (List UInt8)) (hzero : ∀ body ∈ bodies, 0 ∉ body)
    {pastNull : Bool} (hstate : if pastNull then args[i]?.getD none = none else todo = args.drop i)
    (haccepted : ∀ e, (loop args i buf bodies).result ≠ .error (.raises e)) :
    (loop args i buf bodies).Right todo buf (segments bodies) ↔
      RightFrom pastNull todo buf (segments bodies) := by
  induction bodies generalizing i buf todo pastNull with
  | nil => simp [loop, segments, Run.Right, Places, expected, RightFrom]
  | cons body rest ih =>
    have hbody := hzero body mem_cons_self
    have hrest : ∀ b ∈ rest, 0 ∉ b := fun b hb => hzero b (mem_cons_of_mem _ hb)
    rw [segments, RightFrom]
    by_cases hlen : buf.length ≤ tsqlMaxMessageLen
    swap
    · have hlong := Nat.not_le.mp hlen
      rw [loop, if_pos hlong]
      have hcut := cut_append hlong (joinSegments (body :: rest))
        (expected todo ((placeholderOf body rest, body) :: segments rest))
      simp [Run.Right, Places, hcut, hlen]
    by_cases hp : isPlaceholder (placeholderOf body rest) = true
    swap
    · rw [loop_invalid hlen hp] at haccepted
      exact absurd rfl (haccepted _)
    rw [forall_prop_of_true hlen]
    cases harg : args[i]?.getD none with
    | none =>
      rw [loop_null hlen hp hbody harg] at haccepted ⊢
      split_ifs at haccepted ⊢ with hfits
      · have hnext : (pastNull || (todo.head?.getD none).isNone) = true := by
          cases pastNull with
          | true => rfl
          | false =>
            subst hstate
            simp [harg]
        rw [hnext]
        refine Run.put_right_iff hfits ?_ (ih hrest (by simpa using harg) haccepted)
        cases pastNull with
        | true => exact Iff.rfl
        | false =>
          subst hstate
          simp [harg, ArgRight, rendering]
      · simp [Run.Right, hfits]
    | some arg =>
      obtain rfl : pastNull = false := by
        cases pastNull with
        | false => rfl
        | true => cases harg.symm.trans hstate
      subst hstate
      have hhead : (args.drop i).head?.getD none = some arg := by simpa using harg
      have hturn := turn_right hbody hp i arg
      rw [loop_some hlen hp harg] at haccepted ⊢
      rcases hrun : turn i (placeholderOf body rest) (fmtSegOf body) arg with
        ⟨calls, (e | _) | ⟨place, text⟩⟩
      all_goals
        simp only [hrun] at haccepted hturn ⊢
      · exact absurd rfl (haccepted e)
      · rw [hhead, ← and_assoc]
        exact iff_of_false (fun ⟨_, h, _⟩ => nomatch h) fun h => hturn h.1
      · obtain ⟨hfits, rfl, hplace⟩ := hturn
        rw [← hhead] at hplace
        refine Run.put_right_iff hfits hplace ?_
        rw [hhead, tail_drop]
        exact ih hrest (by simp) haccepted

/-- **When the message is the one asked for**, for the messages for which no error is raised:
exactly if each segment that is reached fits in its copy and has an argument whose rendering is
printed. -/
theorem prepareFormatString_formatted_iff (msgString : List UInt8) (args : List (Option Arg))
    (hzero : 0 ∉ msgString)
    (haccepted : ∀ e, prepareFormatString msgString args ≠ .error (.raises e)) :
    (∃ out, prepareFormatString msgString args = .ok out ∧
        Formatted msgString args (run msgString args).places out) ↔
      RightFrom false args (splitFormat msgString).1 (segments (splitFormat msgString).2) := by
  have hbodies : ∀ body ∈ (splitFormat msgString).2, 0 ∉ body := fun body hbody h0 =>
    hzero ((mem_splitFormat hbody).2 0 h0)
  have hrun : ∀ e, (run msgString args).result ≠ .error (.raises e) := by
    intro e he
    exact haccepted e (by rw [prepareFormatString, he]; rfl)
  have hstart : if false = true then args[0]?.getD none = none else args = args.drop 0 := rfl
  rw [← loop_right_iff _ hbodies hstart hrun]
  simp only [formatted_iff]
  change (∃ out, (run msgString args).result.map cut = .ok out ∧ _) ↔ _
  unfold Run.Right
  change _ ↔ ∃ out, (run msgString args).result = .ok out ∧ _ ∧ cut out = cut (expectedText _ _)
  cases (run msgString args).result with
  | error f => exact iff_of_false (fun ⟨_, h, _⟩ => nomatch h) (fun ⟨_, h, _⟩ => nomatch h)
  | ok buf =>
    constructor
    · rintro ⟨_, ⟨⟩, hplaces, heq⟩
      exact ⟨buf, rfl, hplaces, heq⟩
    · rintro ⟨_, ⟨⟩, hplaces, heq⟩
      exact ⟨cut buf, rfl, hplaces, heq⟩

/-- The message `%s=%d.` -/
def twoPlaces : List UInt8 := [37, 115, 61, 37, 100, 46]

def twoArgs : List (Option Arg) := [some (.string [97]), some (.integer 7)]

/-- `FORMATMESSAGE('%s=%d.', 'a', 7)` -/
theorem formatted_without_null : ∃ out, prepareFormatString twoPlaces twoArgs = .ok out ∧
    Formatted twoPlaces twoArgs (run twoPlaces twoArgs).places out := by
  have hrun : prepareFormatString twoPlaces twoArgs = .ok [97, 61, 55, 46] := by decide +kernel
  refine (prepareFormatString_formatted_iff _ _ (by decide) (by rw [hrun]; nofun)).mpr ?_
  exact fun _ => ⟨by decide, trivial, fun _ => ⟨by decide, .inl (by decide), trivial⟩⟩

/-- `FORMATMESSAGE('%s %s', NULL, 'x')` is `(null) (null)`: the second argument is not printed; and
`FORMATMESSAGE('%d', CAST(5000000000 AS BIGINT))` is `705032704`. -/
theorem argument_after_null_lost :
    prepareFormatString [37, 115, 32, 37, 115] [none, some (.string [120])] =
        .ok (nullText ++ [32] ++ nullText) ∧
      expectedText [37, 115, 32, 37, 115] [none, some (.string [120])] = nullText ++ [32, 120] ∧
      (∀ places, ¬Formatted [37, 115, 32, 37, 115] [none, some (.string [120])] places
        (nullText ++ [32] ++ nullText)) ∧
      prepareFormatString [37, 100] [some (.integer 5000000000)] =
        .ok [55, 48, 53, 48, 51, 50, 55, 48, 52] ∧
      expectedText [37, 100] [some (.integer 5000000000)] =
        [53, 48, 48, 48, 48, 48, 48, 48, 48, 48] := by
  refine ⟨by decide +kernel, by decide +kernel, ?_, by decide +kernel, by decide +kernel⟩
  intro places h
  exact absurd (formatted_iff.mp h).2 (by decide +kernel)

/-! ### The formats that are passed on -/

/-- **A checked format**: a terminated string inside its buffer with exactly one conversion, of a
letter that fits what is passed. -/
structure FormatCall.Good (c : FormatCall) : Prop where
  length_eq : c.fmtSeg.length = tsqlMaxMessageLen + 1
  terminated : 0 ∈ c.fmtSeg
  one_conversion : ∃ letter text, c.fmtSeg.takeWhile (· != 0) = percent :: letter :: text ∧
    letter ∈ conversions ∧ percent ∉ text ∧ ((∃ s, c.passed = .text s) ↔ letter = letterS)

/-- The placeholder has a letter, and the argument, if there is one, fits it. -/
def Proper (placeholder : Option UInt8) (arg : Option Arg) : Prop :=
  (∃ c ∈ conversions, placeholder = some c) ∧
    match arg with
    | none => True
    | some (.string _) | some (.user _) => placeholder = some letterS
    | some (.integer _) | some (.numeric _) => placeholder ≠ some letterS
    | some .other => False

/-- The arguments that the loop reads: those before the first NULL. -/
def readArgs (args : List (Option Arg)) : List (Option Arg) := args.takeWhile Option.isSome

/-- **Only checked formats are passed on**, and each message with a segment that is not as it should
be ends with an error. -/
def Run.OnlyChecked (r : Run) (args : List (Option Arg))
    (segs : List (Option UInt8 × List UInt8)) : Prop :=
  (∀ c ∈ r.calls, c.Good) ∧ ((∃ e, r.result = .error (.raises e)) ∨
    (∃ out, r.result = .ok out) ∧ Places (fun p arg _ => Proper p arg) args segs r.places)

/-- The segment is passed on as a checked format, or rejected. -/
def Harmless (placeholder : Option UInt8) (body : List UInt8) (arg : Option Arg) : Prop :=
  isPlaceholder placeholder = true →
    (arg = some .other ∨ body.length < tsqlMaxMessageLen) ∧
      match arg with
      | some (.string _) | some .other => True
      | some (.user _) => placeholder = some letterS
      | _ => placeholder ≠ none

/-- The text for a placeholder with an argument that fits it. -/
def shown (placeholder : Option UInt8) : Option Arg → List UInt8
  | none => nullText
  | some (.string text) | some (.user text) => text
  | some (.integer n) => printInt (placeholder.getD 0) (wrap 32 n.toInt)
  | some (.numeric datum) => printInt (placeholder.getD 0) datum.toInt
  | some .other => []

/-- The segments up to the first that is not as it should be, and that one, are harmless, as far as
the text is not yet too long. -/
def HarmlessFrom : List (Option Arg) → List UInt8 → List (Option UInt8 × List UInt8) → Prop
  | _, _, [] => True
  | args, buf, (placeholder, body) :: segs =>
    let arg := args.head?.getD none
    buf.length ≤ tsqlMaxMessageLen → Harmless placeholder body arg ∧
      (Proper placeholder arg →
        HarmlessFrom args.tail (buf ++ shown placeholder arg ++ body.drop 1) segs)

theorem readArgs_drop_none (h : args[i]?.getD none = none) : readArgs (args.drop i) = [] := by
  by_cases hi : i < args.length
  · rw [getElem?_eq_getElem hi, Option.getD_some] at h
    rw [drop_eq_getElem_cons hi, h]
    rfl
  · rw [drop_of_length_le (Nat.not_lt.mp hi)]
    rfl

theorem readArgs_drop_some (h : args[i]?.getD none = some arg) :
    readArgs (args.drop i) = some arg :: readArgs (args.drop (i + 1)) := by
  have hi : i < args.length := by
    by_contra hge
    simp [getElem?_eq_none (Nat.not_lt.mp hge)] at h
  rw [getElem?_eq_getElem hi, Option.getD_some] at h
  rw [drop_eq_getElem_cons hi, h]
  rfl

/-- A format is checked exactly if what it prints is defined and it has a conversion. -/
theorem good_iff (hpercent : percent ∉ body) (hzero : 0 ∉ body)
    (hp : isPlaceholder (placeholderOf body rest) = true) (passed : Passed) :
    FormatCall.Good ⟨fmtSegOf body, passed⟩ ↔ placeholderOf body rest ≠ none ∧
      body.length < tsqlMaxMessageLen ∧
        ((∃ s, passed = .text s) ↔ placeholderOf body rest = some letterS) := by
  constructor
  · rintro ⟨-, hterm, letter, text, heq, hletter, -, hs⟩
    have hlt := (zero_mem_fmtSegOf hzero).mp hterm
    cases (takeWhile_fmtSegOf hzero hlt).symm.trans heq
    exact ⟨Option.some_ne_none _, hlt, hs.trans (by simp [placeholderOf])⟩
  · rintro ⟨hne, hlt, hs⟩
    obtain ⟨c, hc, hpc⟩ := (isPlaceholder_iff.mp hp).resolve_left hne
    obtain ⟨text, rfl⟩ := placeholderOf_letter hc hpc
    rw [hpc, Option.some_inj] at hs
    exact ⟨by simp [fmtSegOf]; omega, (zero_mem_fmtSegOf hzero).mpr hlt, c, text,
      takeWhile_fmtSegOf hzero hlt, hc, fun h => hpercent (mem_cons_of_mem _ h), hs⟩

/-- What a segment with an argument comes to, and what is passed on for it. -/
theorem turn_checked (hpercent : percent ∉ body) (hzero : 0 ∉ body)
    (hp : isPlaceholder (placeholderOf body rest) = true) (i : Nat) (arg : Arg) :
    match turn i (placeholderOf body rest) (fmtSegOf body) arg with
    | (calls, .error f) =>
      (((∀ c ∈ calls, c.Good) ∧ ∃ e, f = .raises e) ↔
        Harmless (placeholderOf body rest) body (some arg)) ∧
      (Harmless (placeholderOf body rest) body (some arg) →
        ¬Proper (placeholderOf body rest) (some arg))
    | (calls, .ok (place, text)) => (∀ c ∈ calls, c.Good) ∧
        place = shown (placeholderOf body rest) (some arg) ∧ text = body.drop 1 ∧
          Harmless (placeholderOf body rest) body (some arg) ∧
            Proper (placeholderOf body rest) (some arg) := by
  have hprint := FormatCall.print_eq hzero hp
  have hgood := good_iff hpercent hzero hp
  have hterm := zero_mem_fmtSegOf hzero
  rcases isPlaceholder_iff.mp hp with h | ⟨c, hc, h⟩
  · obtain ⟨rfl, rfl⟩ := placeholderOf_none h
    cases arg <;> simp [turn, formatCall, formatCall.expected, hprint, hgood, hterm, h,
      tsqlMaxMessageLen, Harmless, Proper, isPlaceholder]
  · rw [h] at hprint hgood hp ⊢
    by_cases hs : c = letterS
    · subst hs
      by_cases hlen : body.length < tsqlMaxMessageLen <;> cases arg <;>
        simp [turn, formatCall, formatCall.expected, hprint, hgood, hterm, hlen, hc, Harmless,
          Proper, shown, hp]
    · by_cases hlen : body.length < tsqlMaxMessageLen <;> cases arg <;>
        simp [turn, formatCall, formatCall.expected, hprint, hgood, hterm, hlen, hc, hs, Harmless,
          Proper, shown, hp]

theorem Run.put_onlyChecked_iff {r : Run} {calls : List FormatCall} {place : List UInt8}
    (hgood : ∀ c ∈ calls, c.Good) (hproper : Proper p (args.head?.getD none)) :
    (r.put calls place).OnlyChecked args ((p, body) :: segs) ↔ r.OnlyChecked args.tail segs := by
  simp only [Run.OnlyChecked, Run.put, forall_mem_append, and_iff_right hgood, Places,
    and_iff_right hproper]

/-- The loop from any argument on. -/
theorem loop_onlyChecked_iff (args : List (Option Arg)) (i : Nat) (bodies : List (List UInt8))
    (hbodies : ∀ body ∈ bodies, percent ∉ body ∧ 0 ∉ body) :
    (loop args i buf bodies).OnlyChecked (readArgs (args.drop i)) (segments bodies) ↔
      HarmlessFrom (readArgs (args.drop i)) buf (segments bodies) := by
  induction bodies generalizing i buf with
  | nil => simp [loop, segments, Run.OnlyChecked, Places, HarmlessFrom]
  | cons body rest ih =>
    obtain ⟨hpercent, hzero⟩ := hbodies body mem_cons_self
    have hrest : ∀ b ∈ rest, percent ∉ b ∧ 0 ∉ b := fun b hb => hbodies b (mem_cons_of_mem _ hb)
    rw [segments, HarmlessFrom]
    by_cases hlen : buf.length ≤ tsqlMaxMessageLen
    swap
    · rw [loop, if_pos (Nat.not_le.mp hlen)]
      simp [Run.OnlyChecked, Places, hlen]
    rw [forall_prop_of_true hlen]
    by_cases hp : isPlaceholder (placeholderOf body rest) = true
    swap
    · have hno : ∀ arg, ¬Proper (placeholderOf body rest) arg := fun arg h =>
        hp (isPlaceholder_iff.mpr (.inr h.1))
      rw [loop_invalid hlen hp]
      simp [Run.OnlyChecked, Harmless, hp, hno]
    cases harg : args[i]?.getD none with
    | none =>
      have hread := readArgs_drop_none harg
      have ih := @ih (buf ++ nullText ++ body.drop 1) i hrest
      rw [loop_null hlen hp hzero harg]
      rw [hread] at ih ⊢
      split_ifs with hfits
      · rcases isPlaceholder_iff.mp hp with h | hletter
        · -- a percent sign at the end, without an argument
          obtain ⟨rfl, rfl⟩ := placeholderOf_none h
          simp [loop, Run.OnlyChecked, Run.put, Places, Proper, Harmless, h, isPlaceholder]
        · have hproper : Proper (placeholderOf body rest) none := ⟨hletter, trivial⟩
          have hharmless : Harmless (placeholderOf body rest) body none := by
            obtain ⟨c, -, hc⟩ := hletter
            exact fun _ => ⟨.inr hfits, hc ▸ Option.some_ne_none c⟩
          rw [Run.put_onlyChecked_iff (by simp) hproper, tail_nil, ih]
          exact ⟨fun h => ⟨hharmless, fun _ => h⟩, fun h => h.2 hproper⟩
      · simp [Run.OnlyChecked, Harmless, hp, hfits]
    | some arg =>
      have hturn := turn_checked hpercent hzero hp i arg
      rw [loop_some hlen hp harg, readArgs_drop_some harg]
      rcases hrun : turn i (placeholderOf body rest) (fmtSegOf body) arg with
        ⟨calls, f | ⟨place, text⟩⟩
      all_goals
        simp only [hrun, head?_cons, Option.getD_some, tail_cons] at hturn ⊢
      · rw [and_iff_left_of_imp fun h hproper => absurd hproper (hturn.2 h), ← hturn.1]
        simp [Run.OnlyChecked]
      · obtain ⟨hgood, rfl, rfl, hharmless, hproper⟩ := hturn
        rw [and_iff_right hharmless, forall_prop_of_true hproper, ← ih _ hrest]
        exact Run.put_onlyChecked_iff hgood hproper

end Babelfish.Tsql.FormatMessage
