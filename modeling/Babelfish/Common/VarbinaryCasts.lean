import Babelfish.Common.DatetimeVarbinary

/-!
# Casts to and from `binary` and `varbinary`

Each source type has its own cast functions in `varbinary.c`.  To `varbinary(n)` they cut, to
`binary(n)` they cut or pad with zeros, texts and bytes on the right and integers on the left.
An integer is written in network byte order; the casts back read the last bytes of a `binary`,
and the first ones of a `varbinary`.

* `casts_length_iff`: every cast keeps to the length but the two from `rowversion`, which build
  the result and return the source, and the one from `char` to `binary` where it frees a text that
  it has not allocated.
* `integer_casts_iff`: which integers come back, and where the two ways of reading agree.
-/

namespace Babelfish.Common.Varbinary

open Lib List

/-! ### The casts to `binary` and `varbinary` -/

inductive Error where
  | truncated
  | sizeExceeds (maxlen : Nat)
  | implicitConversion (source target : String)
  /-- A text could not be converted. -/
  | failed (message : String)
  /-- `pfree called with invalid pointer` -/
  | invalidPointer

def maxBinarySize : Nat := 8000

/-- The length of the type modifier; without one it is that of the data. -/
def maxlen (typmod : Int) (len : Nat) : Nat :=
  if typmod < varhdrsz then len else (typmod - varhdrsz).toNat

def cut (typmod : Int) (data : List UInt8) : List UInt8 := data.take (maxlen typmod data.length)

def fill (typmod : Int) (data : List UInt8) : List UInt8 :=
  cut typmod data ++ List.replicate (maxlen typmod data.length - data.length) 0

/-- `suppress` is the answer of `suppress_string_truncation_error_hook`. -/
def varbinary (suppress : Bool) (source : List UInt8) (typmod : Int) (isExplicit : Bool) :
    Except Error (List UInt8) :=
  let maxlen := maxlen typmod source.length
  if !isExplicit && !suppress && source.length > maxlen then .error .truncated
  else if source.length ≤ maxlen then .ok source
  else .ok (source.take maxlen)

def binary (suppress : Bool) (source : List UInt8) (typmod : Int) (isExplicit : Bool) :
    Except Error (List UInt8) :=
  let maxlen := maxlen typmod source.length
  if maxlen > maxBinarySize then .error (.sizeExceeds maxlen)
  else if !isExplicit && !suppress && source.length > maxlen then .error .truncated
  else if source.length = maxlen then .ok source
  else if source.length < maxlen then
    .ok (source ++ List.replicate (maxlen - source.length) 0)
  else .ok (source.take maxlen)

-- Both build `result`, the copy of the wanted length, and return `source`.

def rowversionbinary (source : List UInt8) (typmod : Int) : List UInt8 :=
  let _result := fill typmod source
  source

def rowversionvarbinary (source : List UInt8) (typmod : Int) : List UInt8 :=
  let _result := cut typmod source
  source

/-- The conversion of a text, which may raise, and the copy of what it gives. -/
def textCast (source target : String) (failure : String → String)
    (conv : List UInt8 → Except String (List UInt8)) (copy : Int → List UInt8 → List UInt8)
    (data : List UInt8) (typmod : Int) (isExplicit : Bool) : Except Error (List UInt8) :=
  if !isExplicit then .error (.implicitConversion source target)
  else match conv data with
    | .error message => .error (.failed (failure message))
    | .ok encoded => .ok (copy typmod encoded)

/-- What a failed conversion is reported as. -/
def failedFromTo (source target message : String) : String :=
  "Failed to convert from data type " ++ source ++ " to " ++ target ++ ", " ++ message

/-- The two conversions: into the code page of the database, and into UTF-16.  A code page that is
UTF-8 or ASCII is `verbatim`: nothing is converted. -/
structure Encodings where
  verbatim : Bool
  toCodePage : List UInt8 → Except String (List UInt8)
  utf8ToUtf16 : List UInt8 → Except String (List UInt8)

variable (enc : Encodings)

/-- `encoding_conv_util` returns its argument. -/
def Encodings.returnsArgument (data : List UInt8) : Bool := data.isEmpty || enc.verbatim

def Encodings.encodingConvUtil (data : List UInt8) : Except String (List UInt8) :=
  if enc.returnsArgument data then .ok data else enc.toCodePage data

def varcharvarbinary :=
  textCast "varchar" "varbinary" (failedFromTo "varchar" "varbinary") enc.encodingConvUtil cut

def nvarcharvarbinary :=
  textCast "nvarchar" "varbinary" (failedFromTo "nvarchar" "varbinary") enc.utf8ToUtf16 cut

def bpcharvarbinary :=
  textCast "char" "varbinary" (failedFromTo "char" "varbinary") enc.encodingConvUtil cut

def ncharvarbinary :=
  textCast "nchar" "varbinary" (failedFromTo "nchar" "varbinary") enc.utf8ToUtf16 cut

def varcharbinary :=
  textCast "varchar" "binary" (failedFromTo "varchar" "binary") enc.encodingConvUtil fill

/-- Without a `PG_TRY`: the error of the conversion stays. -/
def nvarcharbinary := textCast "nvarchar" "binary" id enc.utf8ToUtf16 fill

/-- Unlike the others this one frees the converted text, which may be the text of the argument
itself: a pointer into the value, not one that `palloc` has returned. -/
def bpcharbinary (data : List UInt8) (typmod : Int) (isExplicit : Bool) :
    Except Error (List UInt8) := do
  let result ← textCast "char" "binary" (failedFromTo "char" "binary") enc.encodingConvUtil fill
    data typmod isExplicit
  if enc.returnsArgument data then .error .invalidPointer else .ok result

def ncharbinary :=
  textCast "nchar" "binary" ("Failed to convert nchar to binary: " ++ ·) enc.utf8ToUtf16 fill

/-- The memory of an integer of `len` bytes. -/
def memory (len : Nat) (input : Int) : List UInt8 := leBytes len (input % 256 ^ len).toNat

def intvarbinary (len : Nat) (input : Int) (typmod : Int) : List UInt8 :=
  ((memory len input).take (min (maxlen typmod len) len)).reverse

def int2varbinary := intvarbinary 2

def int4varbinary := intvarbinary 4

def int8varbinary := intvarbinary 8

def intbinary (len : Nat) (input : Int) (typmod : Int) : List UInt8 :=
  let maxlen := maxlen typmod len
  if maxlen ≤ len then ((memory len input).take maxlen).reverse
  else List.replicate (maxlen - len) 0 ++ (memory len input).reverse

def int2binary := intbinary 2

def int4binary := intbinary 4

def int8binary := intbinary 8

inductive Source where
  | binary (data : List UInt8)
  | varbinary (data : List UInt8)
  | rowversion (data : { data : List UInt8 // data.length = 8 })
  | varchar (data : List UInt8)
  | nvarchar (data : List UInt8)
  | char (data : List UInt8)
  | nchar (data : List UInt8)
  | smallint (input : Int)
  | int (input : Int)
  | bigint (input : Int)

def castBinary (suppress : Bool) (typmod : Int) : Source → Except Error (List UInt8)
  | .binary data | .varbinary data => binary suppress data typmod true
  | .rowversion data => .ok (rowversionbinary data typmod)
  | .varchar data => varcharbinary enc data typmod true
  | .nvarchar data => nvarcharbinary enc data typmod true
  | .char data => bpcharbinary enc data typmod true
  | .nchar data => ncharbinary enc data typmod true
  | .smallint input => .ok (int2binary input typmod)
  | .int input => .ok (int4binary input typmod)
  | .bigint input => .ok (int8binary input typmod)

def castVarbinary (suppress : Bool) (typmod : Int) : Source → Except Error (List UInt8)
  | .binary data | .varbinary data => varbinary suppress data typmod true
  | .rowversion data => .ok (rowversionvarbinary data typmod)
  | .varchar data => varcharvarbinary enc data typmod true
  | .nvarchar data => nvarcharvarbinary enc data typmod true
  | .char data => bpcharvarbinary enc data typmod true
  | .nchar data => ncharvarbinary enc data typmod true
  | .smallint input => .ok (int2varbinary input typmod)
  | .int input => .ok (int4varbinary input typmod)
  | .bigint input => .ok (int8varbinary input typmod)

/-- The text of the value, if it is one, can be converted. -/
def Converts : Source → Prop
  | .varchar data | .char data => (enc.encodingConvUtil data).isOk
  | .nvarchar data | .nchar data => (enc.utf8ToUtf16 data).isOk
  | _ => True

/-- The cast to `binary` frees the text of its argument. -/
def FreesArgument : Source → Bool
  | .char data => enc.returnsArgument data
  | _ => false

def Source.isRowversion : Source → Bool
  | .rowversion _ => true
  | _ => false

/-! ### The lengths -/

section Length

variable {enc} {n : Nat} {data : List UInt8} {len : Nat} {typmod : Int} {src : Source}

@[simp] theorem maxlen_add : maxlen (n + varhdrsz) len = n := by
  simp [maxlen, varhdrsz]

theorem length_cut : (cut (n + varhdrsz) data).length ≤ n := by
  simp [cut]

theorem length_fill : (fill (n + varhdrsz) data).length = n := by
  simp [fill, cut]
  omega

theorem length_intvarbinary (input : Int) : (intvarbinary len input (n + varhdrsz)).length ≤ n := by
  simp [intvarbinary, memory]

theorem length_intbinary (input : Int) : (intbinary len input (n + varhdrsz)).length = n := by
  rw [intbinary, maxlen_add]
  split <;> simp [memory] <;> omega

theorem textCast_explicit {source target : String} {failure : String → String}
    {conv : List UInt8 → Except String (List UInt8)} {copy : Int → List UInt8 → List UInt8}
    {p : List UInt8 → Prop} (hconv : (conv data).isOk) (hp : ∀ encoded, p (copy typmod encoded)) :
    ∃ out, textCast source target failure conv copy data typmod true = .ok out ∧ p out := by
  rw [textCast]
  cases h : conv data with
  | error message => rw [h] at hconv; cases hconv
  | ok encoded => exact ⟨_, rfl, hp encoded⟩

theorem varbinary_explicit (suppress : Bool) :
    varbinary suppress data typmod true = .ok (cut typmod data) := by
  rw [varbinary, cut]
  rw [if_neg (by simp)]
  split
  · rw [take_of_length_le ‹_›]
  · rfl

theorem binary_explicit (hn : n ≤ maxBinarySize) {suppress : Bool} :
    binary suppress data (n + varhdrsz) true = .ok (fill (n + varhdrsz) data) := by
  rw [binary, fill, cut, maxlen_add]
  rw [if_neg (by omega), if_neg (by simp)]
  split_ifs
  · rw [take_of_length_le (by omega), show n - data.length = 0 by omega]
    simp
  · rw [take_of_length_le (by omega)]
  · rw [show n - data.length = 0 by omega]
    simp

theorem freesArgument_eq_false_iff : FreesArgument enc src = false ↔
    ∀ data, src = .char data → data ≠ [] ∧ enc.verbatim = false := by
  cases src <;> simp [FreesArgument, Encodings.returnsArgument]

theorem castBinary_eq_error (h : FreesArgument enc src = true) (suppress : Bool) :
    castBinary enc suppress typmod src = .error .invalidPointer := by
  cases src with
  | char data =>
    have hargument : enc.returnsArgument data = true := h
    simp [castBinary, bpcharbinary, textCast, Encodings.encodingConvUtil, hargument, bind,
      Except.bind]
  | _ => cases h

theorem castBinary_ok (hn : n ≤ maxBinarySize) (hconv : Converts enc src)
    (hfree : FreesArgument enc src = false) (suppress : Bool) :
    ∃ out, castBinary enc suppress (n + varhdrsz) src = .ok out ∧
      out.length = if src.isRowversion then 8 else n := by
  cases src with
  | binary data | varbinary data => exact ⟨_, binary_explicit hn, length_fill⟩
  | rowversion data => exact ⟨_, rfl, data.2⟩
  | varchar data | nvarchar data | nchar data =>
    simp only [castBinary, varcharbinary, nvarcharbinary, ncharbinary]
    exact textCast_explicit hconv fun _ => length_fill
  | char data =>
    have hargument : enc.returnsArgument data = false := hfree
    obtain ⟨out, hout, hlen⟩ : ∃ out, textCast "char" "binary" (failedFromTo "char" "binary")
        enc.encodingConvUtil fill data (n + varhdrsz) true = .ok out ∧ out.length = n :=
      textCast_explicit hconv fun _ => length_fill
    refine ⟨out, ?_, hlen⟩
    rw [castBinary, bpcharbinary, hout, ok_bind, hargument, if_neg (by decide)]
  | smallint input | int input | bigint input => exact ⟨_, rfl, length_intbinary input⟩

theorem castVarbinary_ok (hconv : Converts enc src) (suppress : Bool) :
    ∃ out, castVarbinary enc suppress (n + varhdrsz) src = .ok out ∧
      if src.isRowversion then out.length = 8 else out.length ≤ n := by
  cases src with
  | binary data | varbinary data => exact ⟨_, varbinary_explicit suppress, length_cut⟩
  | rowversion data => exact ⟨_, rfl, data.2⟩
  | varchar data | nvarchar data | char data | nchar data =>
    simp only [castVarbinary, varcharvarbinary, nvarcharvarbinary, bpcharvarbinary, ncharvarbinary]
    exact textCast_explicit hconv fun _ => length_cut
  | smallint input | int input | bigint input => exact ⟨_, rfl, length_intvarbinary input⟩

end Length

/-- **The lengths of the casts.**  An explicit cast to `binary(n)` gives `n` bytes and one to
`varbinary(n)` at most `n`, except that a `rowversion` always gives its eight, and that a `char`
fails as `binary` where its text is not converted: where it is empty or the code page is that of the
text. -/
theorem casts_length_iff (suppress : Bool) (n : Nat) (hn : 1 ≤ n ∧ n ≤ maxBinarySize)
    (src : Source) (hconv : Converts enc src) :
    ((∃ out, castBinary enc suppress (n + varhdrsz) src = .ok out ∧ out.length = n) ↔
        (src.isRowversion → n = 8) ∧ ∀ data, src = .char data → data ≠ [] ∧ enc.verbatim = false) ∧
      ((∃ out, castVarbinary enc suppress (n + varhdrsz) src = .ok out ∧ out.length ≤ n) ↔
        (src.isRowversion → 8 ≤ n)) := by
  obtain ⟨varying, hvarying, hvlen⟩ := @castVarbinary_ok enc n src hconv suppress
  rw [← freesArgument_eq_false_iff]
  constructor
  · cases hfree : FreesArgument enc src with
    | true => simp [castBinary_eq_error hfree]
    | false =>
      obtain ⟨fixed, hfixed, hflen⟩ := castBinary_ok hn.2 hconv hfree suppress
      simp only [hfixed, Except.ok.injEq, exists_eq_left', hflen, and_true]
      cases src.isRowversion <;> simp [eq_comm]
  · simp only [hvarying, Except.ok.injEq, exists_eq_left']
    cases hrow : src.isRowversion <;> simp_all

def plainEncodings : Encodings := ⟨false, .ok, .ok⟩

theorem casts_length_char :
    ∃ out, castBinary plainEncodings false ((4 : Nat) + varhdrsz) (.char [65, 66]) = .ok out ∧
      out.length = 4 := by
  refine (casts_length_iff plainEncodings false 4 (by decide) (.char [65, 66]) rfl).1.mpr
    ⟨nofun, ?_⟩
  rintro data ⟨⟩
  exact ⟨by simp, rfl⟩

/-- A `rowversion` and an empty `char` as `binary(4)`. -/
theorem binary_length_fails :
    castBinary plainEncodings false ((4 : Nat) + varhdrsz)
        (.rowversion ⟨[0, 0, 0, 0, 0, 0, 7, 209], rfl⟩) = .ok [0, 0, 0, 0, 0, 0, 7, 209] ∧
      castBinary plainEncodings false ((4 : Nat) + varhdrsz) (.char []) =
        .error .invalidPointer :=
  ⟨rfl, rfl⟩

/-! ### The casts back to integers -/

/-- The first bytes, copied in reverse into a zeroed integer of `len` bytes. -/
def varbinaryint (len : Nat) (data : List UInt8) : Int :=
  wrap (8 * len) (beNat (data.take len))

def varbinaryint2 := varbinaryint 2

def varbinaryint4 := varbinaryint 4

def varbinaryint8 := varbinaryint 8

/-- Here the last bytes of longer data. -/
def binaryint (len : Nat) (data : List UInt8) : Int :=
  if data.length > len then wrap (8 * len) (beNat (data.drop (data.length - len)))
  else wrap (8 * len) (beNat (data.take len))

def binaryint2 := binaryint 2

def binaryint4 := binaryint 4

def binaryint8 := binaryint 8

inductive Width where
  | two | four | eight
  deriving DecidableEq

def Width.bytes : Width → Nat
  | two => 2
  | four => 4
  | eight => 8

theorem drop_leBytes (j k n : Nat) : (leBytes (j + k) n).drop j = leBytes k (n / 256 ^ j) := by
  induction j generalizing n with
  | zero => simp
  | succ j ih =>
    rw [Nat.succ_add, leBytes, drop_succ_cons, ih, Nat.div_div_eq_div_mul, Nat.pow_succ']

section Integers

variable {w w' k : Nat} {n : Int} {data : List UInt8}

theorem wrap_mod (x : Int) : wrap (8 * w) (x % 256 ^ w) = wrap (8 * w) x := by
  have := Int.emod_bmod x (2 ^ (8 * w))
  rw [Nat.pow_mul] at this
  simpa [wrap, pow_mul] using this

theorem beNat_inj {xs ys : List UInt8} (hlen : xs.length = ys.length) (h : beNat xs = beNat ys) :
    xs = ys := by
  rw [← reverse_inj, ← leBytes_leNat xs.reverse, ← leBytes_leNat ys.reverse,
    length_reverse, length_reverse, hlen]
  exact congrArg _ h

theorem wrap_inj {a b : Nat} (ha : a < 256 ^ w) (hb : b < 256 ^ w)
    (h : wrap (8 * w) a = wrap (8 * w) b) : a = b := by
  have hmod := congrArg (· % ((2 ^ (8 * w) : Nat) : Int)) h
  simp only [wrap, Int.bmod_emod, Nat.pow_mul, Nat.reducePow] at hmod
  rwa [← Int.natCast_emod, ← Int.natCast_emod, Nat.mod_eq_of_lt ha, Nat.mod_eq_of_lt hb,
    Int.natCast_inj] at hmod

theorem binaryint_eq : binaryint w data = wrap (8 * w) (beNat (data.drop (data.length - w))) := by
  rw [binaryint]
  split
  · rfl
  · rw [take_of_length_le (by omega), show data.length - w = 0 by omega, drop_zero]

theorem length_memory : (memory w n).length = w := length_leBytes _ _

theorem intbinary_eq (h : w' ≤ k) :
    intbinary w' n (k + varhdrsz) = List.replicate (k - w') 0 ++ (memory w' n).reverse := by
  rw [intbinary, maxlen_add]
  split
  · rw [take_of_length_le (by rw [length_memory]; omega), show k - w' = 0 by omega]
    rfl
  · rfl

theorem intvarbinary_eq (h : w' ≤ k) :
    intvarbinary w' n (k + varhdrsz) = (memory w' n).reverse := by
  rw [intvarbinary, maxlen_add, Nat.min_eq_right h, take_of_length_le (length_memory).le]

theorem binaryint_intbinary (hw : w ≤ w') (hk : w' ≤ k) :
    binaryint w (intbinary w' n (k + varhdrsz)) = wrap (8 * w) n := by
  have hdrop : k - w - (k - w') = w' - w := by omega
  have hpow : (256 : Int) ^ w ∣ 256 ^ w' := pow_dvd_pow 256 hw
  have hpos : (0 : Int) ≤ n % 256 ^ w' := Int.emod_nonneg _ (by positivity)
  obtain ⟨d, rfl⟩ := Nat.exists_eq_add_of_le hw
  rw [binaryint_eq, intbinary_eq hk]
  simp only [length_append, length_replicate, length_reverse, length_memory,
    Nat.sub_add_cancel hk, drop_append, drop_replicate, hdrop, drop_reverse]
  rw [show k - (w + d) - (k - w) = 0 by omega, Nat.add_sub_cancel_left, Nat.add_sub_cancel,
    memory, take_leBytes, replicate_zero, nil_append, ← beBytes, beNat_beBytes,
    Int.natCast_emod, Int.toNat_of_nonneg hpos]
  push_cast
  rw [Int.emod_emod_of_dvd n hpow, wrap_mod]

theorem varbinaryint_intvarbinary (hw : w ≤ w') (hk : w' ≤ k) :
    varbinaryint w (intvarbinary w' n (k + varhdrsz)) =
      wrap (8 * w) (n % 256 ^ w' / 256 ^ (w' - w)) := by
  have hpos : (0 : Int) ≤ n % 256 ^ w' := Int.emod_nonneg _ (by positivity)
  obtain ⟨d, rfl⟩ := Nat.exists_eq_add_of_le hw
  rw [varbinaryint, intvarbinary_eq hk, take_reverse, length_memory, memory,
    Nat.add_sub_cancel_left, Nat.add_comm w d, drop_leBytes, ← beBytes, beNat_beBytes,
    Int.natCast_emod, Int.natCast_ediv, Int.toNat_of_nonneg (by rwa [Nat.add_comm d w])]
  push_cast
  rw [wrap_mod]

theorem casts_agree_iff :
    binaryint w data = varbinaryint w data ↔
      data.length ≤ w ∨ data.take w = data.drop (data.length - w) := by
  rw [binaryint_eq, varbinaryint]
  constructor
  · intro h
    rcases Nat.lt_or_ge w data.length with hlen | hlen
    · have hlt : ∀ bs : List UInt8, bs.length = w → beNat bs < 256 ^ w := by
        rintro bs rfl
        simpa [beNat] using leNat_lt bs.reverse
      have htake : (data.take w).length = w := by simp; omega
      have hdrop : (data.drop (data.length - w)).length = w := by simp; omega
      have := wrap_inj (hlt _ hdrop) (hlt _ htake) h
      exact Or.inr (beNat_inj (by rw [htake, hdrop]) this.symm)
    · exact Or.inl hlen
  · rintro (hlen | heq)
    · rw [take_of_length_le hlen, Nat.sub_eq_zero_of_le hlen, drop_zero]
    · rw [heq]

end Integers

/-- **Integers through bytes.**  Through `binary` every integer comes back; through `varbinary`
only in its own width, or when it is 0 or -1, whose bytes are all the same. -/
theorem integer_casts_iff (w w' : Width) (n : Int) (k : Nat) (data : List UInt8) :
    (w.bytes ≤ w'.bytes → Fits (8 * w.bytes) n → w'.bytes ≤ k →
      binaryint w.bytes (intbinary w'.bytes n (k + varhdrsz)) = n ∧
        (varbinaryint w.bytes (intvarbinary w'.bytes n (k + varhdrsz)) = n ↔
          w = w' ∨ n = 0 ∨ n = -1)) ∧
    (binaryint w.bytes data = varbinaryint w.bytes data ↔
      data.length ≤ w.bytes ∨ data.take w.bytes = data.drop (data.length - w.bytes)) := by
  refine ⟨fun hw hn hk => ?_, casts_agree_iff⟩
  have hpos : 0 < 8 * w.bytes := by cases w <;> decide
  rw [binaryint_intbinary hw hk, varbinaryint_intvarbinary hw hk]
  refine ⟨wrap_eq_self hpos hn, ?_⟩
  by_cases hsame : w = w'
  · subst hsame
    simp [wrap_mod, wrap_eq_self hpos hn]
  · -- the other width is at least twice this one, so the first bytes hold only the sign
    have hsign : n % 256 ^ w'.bytes / 256 ^ (w'.bytes - w.bytes) =
        if n < 0 then 256 ^ w.bytes - 1 else 0 := by
      unfold Fits at hn
      cases w <;> cases w' <;> simp_all [Width.bytes] <;> split <;> omega
    have hneg : wrap (8 * w.bytes) (256 ^ w.bytes - 1) = -1 := by cases w <;> rfl
    have hzero : wrap (8 * w.bytes) 0 = 0 := by cases w <;> rfl
    simp only [hsame, false_or]
    rw [hsign]
    split
    · rw [hneg]; omega
    · rw [hzero]; omega

theorem integer_casts_minus_one :
    binaryint2 (int4binary (-1) ((6 : Nat) + varhdrsz)) = -1 ∧
      varbinaryint2 (int4varbinary (-1) ((6 : Nat) + varhdrsz)) = -1 :=
  let h := (integer_casts_iff .two .four (-1) 6 []).1 (by decide) (by decide) (by decide)
  ⟨h.1, h.2.mpr (by decide)⟩

/-- 1 as `int`, cast to `varbinary(4)` and to `smallint`. -/
theorem varbinary_smallint_zero : varbinaryint2 (int4varbinary 1 ((4 : Nat) + varhdrsz)) = 0 := by
  decide

end Babelfish.Common.Varbinary
