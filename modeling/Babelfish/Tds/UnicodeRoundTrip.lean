import Mathlib
import Babelfish.Lib.Except
import Babelfish.Tds.Unicode

/-!
# Which UTF-16 is accepted, and that both conversions are inverse

The code points are Lean's `Char`, which are the Unicode scalar values, and their UTF-8 encoding is
`String.utf8EncodeChar`; `utf16Encode` is their encoding in UTF-16LE.  The receiver's check of the
second half of a surrogate pair lets one unit too many pass, `0xE000`, so what it accepts is a
sequence of pieces: encoded characters, and high surrogates followed by `0xE000`.

* `wellFormed_pieces`: such a sequence is well-formed when it has no piece of the second kind.
* `tdsUTF16toUTF8StringInfo_eq_ok`: what is accepted, and what comes out.
* `utf8Loop_encode`: what UTF-8 is converted to.
* `utf16_faithful_iff`: when the receiver does what it should.
* `lengthInUTF16_eq`: the length of what is sent.
-/

namespace Babelfish.Tds

open Lib List

/-! ### Well-formed UTF-16 -/

def units : List UInt8 → List Nat
  | a :: b :: bytes => unit16 a b :: units bytes
  | _ => []

/-- A high surrogate, `D800` to `DBFF`. -/
def IsHigh (u : Nat) : Prop := 0xD800 ≤ u ∧ u ≤ 0xDBFF

/-- A low surrogate, `DC00` to `DFFF`. -/
def IsLow (u : Nat) : Prop := 0xDC00 ≤ u ∧ u ≤ 0xDFFF

instance (u : Nat) : Decidable (IsHigh u) := inferInstanceAs (Decidable (_ ∧ _))

instance (u : Nat) : Decidable (IsLow u) := inferInstanceAs (Decidable (_ ∧ _))

/-- **Well-formed UTF-16 without NUL**: every high surrogate is followed by a low one, and there is
no other low surrogate. -/
def WellFormed : List Nat → Prop
  | [] => True
  | [u] => u ≠ 0 ∧ ¬ IsHigh u ∧ ¬ IsLow u
  | u :: v :: us =>
    u ≠ 0 ∧ if IsHigh u then IsLow v ∧ WellFormed us else ¬ IsLow u ∧ WellFormed (v :: us)

def unitBytes (u : Nat) : List UInt8 := [UInt8.ofNat u, UInt8.ofNat (u / 256)]

/-- The encoding of a character in UTF-16LE. -/
def utf16Encode (c : Char) : List UInt8 :=
  if c.toNat ≤ 0xFFFF then unitBytes c.toNat
  else unitBytes (0xD800 + (c.toNat - 0x10000) / 1024) ++
    unitBytes (0xDC00 + (c.toNat - 0x10000) % 1024)

/-- What the receiver accepts: a character, or a high surrogate, of which the lower ten bits are
given, followed by `0xE000`. -/
inductive Piece where
  | char (c : Char) (nonzero : c.toNat ≠ 0)
  | slip (high : Fin 1024)

namespace Piece

def bytes : Piece → List UInt8
  | char c _ => utf16Encode c
  | slip high => unitBytes (0xD800 + high) ++ unitBytes 0xE000

/-- The code point that the receiver takes a piece for. -/
def code : Piece → Nat
  | char c _ => c.toNat
  | slip high => high * 1024 + 0x10000

/-- The piece is an encoded character. -/
def IsChar : Piece → Prop
  | char _ _ => True
  | slip _ => False

end Piece

open Piece

/-! ### Units and their bytes -/

theorem unit16_lt (a b : UInt8) : unit16 a b < 65536 := by
  have ha := a.toNat_lt
  have hb := b.toNat_lt
  rw [unit16]
  omega

theorem unitBytes_unit16 (a b : UInt8) : unitBytes (unit16 a b) = [a, b] := by
  have ha := a.toNat_lt
  rw [unitBytes, unit16, show (b.toNat * 256 + a.toNat) / 256 = b.toNat by omega, UInt8.ofNat_toNat]
  congr 1
  apply UInt8.toNat.inj
  rw [UInt8.toNat_ofNat']
  omega

theorem unit16_unitBytes {u : Nat} (h : u < 65536) :
    unit16 (UInt8.ofNat u) (UInt8.ofNat (u / 256)) = u := by
  rw [unit16, UInt8.toNat_ofNat', UInt8.toNat_ofNat']
  omega

theorem units_unitBytes {u : Nat} (h : u < 65536) (rest : List UInt8) :
    units (unitBytes u ++ rest) = u :: units rest := by
  rw [unitBytes, cons_append, singleton_append, units, unit16_unitBytes h]

variable {cs : List Char} (c : Char) (p : Piece) (rest : List UInt8) (ps : List Piece) {n : Nat}

theorem char_toNat_cases : c.toNat < 0xD800 ∨ 0xDFFF < c.toNat ∧ c.toNat < 0x110000 := c.valid

theorem exists_char (h : n < 0xD800 ∨ 0xDFFF < n ∧ n < 0x110000) : ∃ c : Char, c.toNat = n :=
  ⟨Char.ofNatAux n h, by simp [Char.ofNatAux, Char.toNat]⟩

theorem units_char :
    units (utf16Encode c ++ rest) =
      if c.toNat ≤ 0xFFFF then c.toNat :: units rest
      else (0xD800 + (c.toNat - 0x10000) / 1024) :: (0xDC00 + (c.toNat - 0x10000) % 1024) ::
        units rest := by
  have hc := char_toNat_cases c
  rw [utf16Encode]
  split_ifs
  · rw [units_unitBytes (by omega)]
  · rw [append_assoc, units_unitBytes (by omega), units_unitBytes (by omega)]

theorem wellFormed_char (hc : c.toNat ≠ 0) (rest : List UInt8) :
    WellFormed (units (utf16Encode c ++ rest)) ↔ WellFormed (units rest) := by
  have hcases := char_toNat_cases c
  rw [units_char]
  split_ifs
  · have hhigh : ¬ IsHigh c.toNat := by unfold IsHigh; omega
    have hlow : ¬ IsLow c.toNat := by unfold IsLow; omega
    cases units rest with
    | nil | cons u us => simp [WellFormed, hc, hhigh, hlow]
  · have hhigh : IsHigh (0xD800 + (c.toNat - 0x10000) / 1024) := by unfold IsHigh; omega
    have hlow : IsLow (0xDC00 + (c.toNat - 0x10000) % 1024) := by unfold IsLow; omega
    rw [WellFormed, if_pos hhigh]
    simp [hlow]

theorem not_wellFormed_slip (high : Fin 1024) {rest : List UInt8} :
    ¬ WellFormed (units ((slip high).bytes ++ rest)) := by
  have hhigh : IsHigh (0xD800 + high) := by unfold IsHigh; omega
  have hlow : ¬ IsLow 0xE000 := by decide
  rw [bytes, append_assoc, units_unitBytes (by omega), units_unitBytes (by decide),
    WellFormed, if_pos hhigh]
  rintro ⟨-, h, -⟩
  exact hlow h

/-- **A sequence of pieces is well-formed when each of them is a character.** -/
theorem wellFormed_pieces : WellFormed (units (ps.flatMap bytes)) ↔ ∀ p ∈ ps, p.IsChar := by
  induction ps with
  | nil => simp [units, WellFormed]
  | cons p ps ih =>
    rw [flatMap_cons, forall_mem_cons]
    cases p with
    | char c hc =>
      rw [bytes, wellFormed_char c hc, ih]
      simp [Piece.IsChar]
    | slip high => simp [not_wellFormed_slip high, Piece.IsChar]

/-! ### What the receiver accepts -/

theorem Piece.code_cases :
    p.code ≠ 0 ∧ (p.code < 0xD800 ∨ 0xDFFF < p.code ∧ p.code < 0x110000) := by
  cases p with
  | char c hc => exact ⟨hc, char_toNat_cases c⟩
  | slip high =>
    rw [code]
    omega

theorem Piece.length_bytes : p.bytes.length = 2 ∨ p.bytes.length = 4 := by
  cases p with
  | char c hc =>
    rw [bytes, utf16Encode]
    split <;> simp [unitBytes]
  | slip high => simp [bytes, unitBytes]

theorem getUTF16CodePoint_single {in0 in1 : UInt8} (more : List UInt8)
    (h : unit16 in0 in1 < 0xD800 ∨ 0xE000 ≤ unit16 in0 in1) :
    getUTF16CodePoint in0 in1 more =
      if unit16 in0 in1 = 0 then .error .codePointZero else .ok (unit16 in0 in1, 2) :=
  if_pos h

theorem getUTF16CodePoint_pair (in0 in1 in2 in3 : UInt8) (more : List UInt8)
    (h : 0xD800 ≤ unit16 in0 in1 ∧ unit16 in0 in1 < 0xE000) :
    getUTF16CodePoint in0 in1 (in2 :: in3 :: more) =
      if 0xDC00 ≤ unit16 in0 in1 then .error (.highPart in0 in1)
      else if unit16 in2 in3 < 0xDC00 ∨ 0xE000 < unit16 in2 in3 then .error (.lowPart in2 in3)
      else .ok (unit16 in0 in1 % 1024 * 1024 + unit16 in2 in3 % 1024 + 0x10000, 4) :=
  if_neg (by omega)

variable {more : List UInt8} {fuel : Nat}

theorem getUTF16CodePoint_end (in0 in1 : UInt8)
    (h : 0xD800 ≤ unit16 in0 in1 ∧ unit16 in0 in1 < 0xE000) (hmore : more.length < 2) :
    ∃ e, getUTF16CodePoint in0 in1 more = .error e := by
  have hne : ¬ (unit16 in0 in1 < 0xD800 ∨ 0xE000 ≤ unit16 in0 in1) := by omega
  match more, hmore with
  | [], _ | [_], _ =>
    simp only [getUTF16CodePoint, if_neg hne]
    split <;> exact ⟨_, rfl⟩

theorem getUTF16CodePoint_inv {in0 in1 : UInt8} {code consumed : Nat}
    (h : getUTF16CodePoint in0 in1 more = .ok (code, consumed)) :
    ∃ p : Piece, p.code = code ∧ in0 :: in1 :: more = p.bytes ++ more.drop (consumed - 2) := by
  have hlt := unit16_lt in0 in1
  have hbytes := unitBytes_unit16 in0 in1
  by_cases hunit : unit16 in0 in1 < 0xD800 ∨ 0xE000 ≤ unit16 in0 in1
  · rw [getUTF16CodePoint_single more hunit] at h
    obtain ⟨hzero, h⟩ := ite_error_eq_ok.mp h
    cases h
    obtain ⟨c, hc⟩ := exists_char (n := unit16 in0 in1) (by omega)
    refine ⟨.char c (by omega), hc, ?_⟩
    rw [bytes, utf16Encode, hc, if_pos (by omega), hbytes]
    rfl
  by_cases hmore : more.length < 2
  · obtain ⟨e, he⟩ := getUTF16CodePoint_end in0 in1 (by omega) hmore
    rw [he] at h
    cases h
  obtain ⟨in2, in3, rest, rfl⟩ : ∃ in2 in3 rest, more = in2 :: in3 :: rest := by
    match more, hmore with
    | [], hmore | [_], hmore => simp at hmore
    | in2 :: in3 :: rest, _ => exact ⟨in2, in3, rest, rfl⟩
  have hbytes' := unitBytes_unit16 in2 in3
  rw [getUTF16CodePoint_pair in0 in1 in2 in3 rest (by omega)] at h
  obtain ⟨hhigh, h⟩ := ite_error_eq_ok.mp h
  obtain ⟨hlow, h⟩ := ite_error_eq_ok.mp h
  cases h
  by_cases hslip : unit16 in2 in3 = 0xE000
  · refine ⟨.slip ⟨unit16 in0 in1 % 1024, by omega⟩, ?_, ?_⟩
    · simp only [code, hslip]
    · have hhigh' : 0xD800 + unit16 in0 in1 % 1024 = unit16 in0 in1 := by omega
      simp only [bytes, hhigh']
      rw [hbytes, ← hslip, hbytes']
      rfl
  · obtain ⟨c, hc⟩ := exists_char
      (n := unit16 in0 in1 % 1024 * 1024 + unit16 in2 in3 % 1024 + 0x10000) (by omega)
    refine ⟨.char c (by omega), hc, ?_⟩
    have hu : 0xD800 + (c.toNat - 0x10000) / 1024 = unit16 in0 in1 := by omega
    have hv : 0xDC00 + (c.toNat - 0x10000) % 1024 = unit16 in2 in3 := by omega
    rw [bytes, utf16Encode, if_neg (by omega), hu, hv, hbytes, hbytes']
    rfl

theorem getUTF16CodePoint_piece :
    ∃ in0 in1 more, p.bytes ++ rest = in0 :: in1 :: more ∧
      ∃ consumed, getUTF16CodePoint in0 in1 more = .ok (p.code, consumed) ∧
        more.drop (consumed - 2) = rest := by
  cases p with
  | char c hc =>
    have hcases := char_toNat_cases c
    by_cases h : c.toNat ≤ 0xFFFF
    · refine ⟨_, _, rest, by rw [bytes, utf16Encode, if_pos h]; rfl, 2, ?_, rfl⟩
      have hunit := unit16_unitBytes (u := c.toNat) (by omega)
      rw [getUTF16CodePoint_single rest (by omega), hunit, if_neg hc]
      rfl
    · refine ⟨_, _, _, by rw [bytes, utf16Encode, if_neg h]; rfl, 4, ?_, rfl⟩
      have hhigh := unit16_unitBytes (u := 0xD800 + (c.toNat - 0x10000) / 1024) (by omega)
      have hlow := unit16_unitBytes (u := 0xDC00 + (c.toNat - 0x10000) % 1024) (by omega)
      refine (getUTF16CodePoint_pair _ _ _ _ _ (by omega)).trans ?_
      have hcode : (0xD800 + (c.toNat - 0x10000) / 1024) % 1024 * 1024 +
          (0xDC00 + (c.toNat - 0x10000) % 1024) % 1024 + 0x10000 = c.toNat := by omega
      rw [hhigh, hlow, if_neg (by omega), if_neg (by omega), hcode, code]
  | slip high =>
    refine ⟨_, _, _, by rw [bytes]; rfl, 4, ?_, rfl⟩
    have hhigh := unit16_unitBytes (u := 0xD800 + high) (by omega)
    have hlow := unit16_unitBytes (u := 0xE000) (by omega)
    refine (getUTF16CodePoint_pair _ _ _ _ _ (by omega)).trans ?_
    have hcode : (0xD800 + high.val) % 1024 * 1024 + 0xE000 % 1024 + 0x10000 =
        high * 1024 + 0x10000 := by omega
    rw [hhigh, hlow, if_neg (by omega), if_neg (by omega), hcode, code]

theorem badCodePoint_char (hc : c.toNat ≠ 0) : badCodePoint c.toNat = false := by
  have hcases := char_toNat_cases c
  simp only [badCodePoint, Bool.or_eq_false_iff, Bool.and_eq_false_iff, decide_eq_false_iff_not]
  omega

theorem addUTF8ToStringInfo_char (hc : c.toNat ≠ 0) :
    addUTF8ToStringInfo c.toNat = .ok (String.utf8EncodeChar c) := by
  have hcases := char_toNat_cases c
  have hval : c.val.toNat = c.toNat := rfl
  rw [addUTF8ToStringInfo, badCodePoint_char c hc, String.utf8EncodeChar, hval]
  -- the same four ranges on both sides; the leading byte is reduced by the library
  by_cases h1 : c.toNat ≤ 0x7F
  · simp only [h1, if_true]
    rfl
  by_cases h2 : c.toNat ≤ 0x7FF
  · have : c.toNat / 64 % 32 = c.toNat / 64 := by omega
    simp only [h1, h2, this, if_true, if_false]
    rfl
  by_cases h3 : c.toNat ≤ 0xFFFF
  · have : c.toNat / 4096 % 16 = c.toNat / 4096 := by omega
    simp only [h1, h2, h3, this, if_true, if_false]
    rfl
  · have : c.toNat / 262144 % 8 = c.toNat / 262144 := by omega
    simp only [h1, h2, h3, this, if_false]
    rfl

theorem Piece.exists_char : ∃ c : Char, c.toNat = p.code ∧ c.toNat ≠ 0 := by
  obtain ⟨hne, hcases⟩ := p.code_cases
  obtain ⟨c, hc⟩ := Tds.exists_char hcases
  exact ⟨c, hc, by omega⟩

/-- The characters that the receiver takes the pieces for, in UTF-8. -/
def IsDecoding (ps : List Piece) (cs : List Char) : Prop :=
  List.Forall₂ (fun p c => c.toNat = Piece.code p) ps cs

theorem utf16Loop_nil : utf16Loop fuel [] = .ok [] := by
  cases fuel <;> rfl

theorem utf16Loop_piece {c : Char} (hc : c.toNat = p.code) (fuel : Nat) (rest : List UInt8) :
    utf16Loop (fuel + 1) (p.bytes ++ rest) =
      (utf16Loop fuel rest).map (String.utf8EncodeChar c ++ ·) := by
  obtain ⟨in0, in1, more, hbytes, consumed, hcode, hdrop⟩ := getUTF16CodePoint_piece p rest
  have hne : c.toNat ≠ 0 := by rw [hc]; exact p.code_cases.1
  rw [hbytes, utf16Loop, hcode, ok_bind]
  dsimp only
  rw [← hc, addUTF8ToStringInfo_char c hne, ok_bind, hdrop]
  cases utf16Loop fuel rest <;> rfl

theorem utf16Loop_pieces {ps : List Piece} (h : IsDecoding ps cs) (hfuel : ps.length ≤ fuel) :
    utf16Loop fuel (ps.flatMap bytes) = .ok (cs.flatMap String.utf8EncodeChar) := by
  induction h generalizing fuel with
  | nil => exact utf16Loop_nil
  | @cons p c ps cs hc _ ih =>
    obtain _ | fuel := fuel
    · simp at hfuel
    rw [flatMap_cons, utf16Loop_piece p hc, ih (by simpa using hfuel)]
    rfl

/-- Bytes are pieces if a property of them lets a piece be taken off and then holds of the rest. -/
theorem exists_pieces {Q : List UInt8 → Prop}
    (hstep : ∀ in0 in1 more, Q (in0 :: in1 :: more) →
      ∃ (p : Piece) (rest : List UInt8), in0 :: in1 :: more = p.bytes ++ rest ∧ Q rest) :
    ∀ bytes : List UInt8, bytes.length % 2 = 0 → Q bytes →
      ∃ ps : List Piece, bytes = ps.flatMap Piece.bytes
  | [], _, _ => ⟨[], rfl⟩
  | [_], heven, _ => by simp at heven
  | in0 :: in1 :: more, heven, h => by
    obtain ⟨p, rest, hbytes, hrest⟩ := hstep in0 in1 more h
    have hp := p.length_bytes
    have hlength := congrArg List.length hbytes
    simp only [length_cons, length_append] at heven hlength
    have hshorter : rest.length < more.length + 1 + 1 := by omega
    obtain ⟨ps, rfl⟩ := exists_pieces hstep rest (by omega) hrest
    exact ⟨p :: ps, hbytes⟩
termination_by bytes => bytes.length

theorem utf16Loop_inv {bytes out : List UInt8} (heven : bytes.length % 2 = 0)
    (h : utf16Loop bytes.length bytes = .ok out) :
    ∃ ps : List Piece, bytes = ps.flatMap Piece.bytes := by
  refine exists_pieces (Q := fun bytes => ∃ fuel out, bytes.length ≤ fuel ∧
    utf16Loop fuel bytes = .ok out) ?_ bytes heven ⟨_, out, Nat.le_refl _, h⟩
  rintro in0 in1 more ⟨_ | fuel, out, hfuel, h⟩
  · simp at hfuel
  rw [utf16Loop, bind_eq_ok] at h
  obtain ⟨⟨code, consumed⟩, hcode, h⟩ := h
  obtain ⟨p, -, hbytes⟩ := getUTF16CodePoint_inv hcode
  obtain ⟨head, _, h⟩ := bind_eq_ok.mp h
  obtain ⟨tail, htail, _⟩ := bind_eq_ok.mp h
  simp only [length_cons] at hfuel
  exact ⟨p, _, hbytes, fuel, tail, by rw [length_drop]; omega, htail⟩

theorem length_le_flatMap_bytes : ps.length ≤ (ps.flatMap bytes).length :=
  length_le_length_flatMap (fun p => by have := p.length_bytes; omega) ps

theorem flatMap_bytes_even : (ps.flatMap bytes).length % 2 = 0 := by
  induction ps with
  | nil => rfl
  | cons p ps ih =>
    have hp := p.length_bytes
    rw [flatMap_cons, length_append]
    omega

theorem exists_decoding : ∃ cs, IsDecoding ps cs := by
  induction ps with
  | nil => exact ⟨[], .nil⟩
  | cons p ps ih =>
    obtain ⟨cs, hcs⟩ := ih
    obtain ⟨c, hc, -⟩ := p.exists_char
    exact ⟨c :: cs, .cons hc hcs⟩

/-- **What the receiver accepts, and what it makes of it.** -/
theorem tdsUTF16toUTF8StringInfo_eq_ok {bytes out : List UInt8} :
    tdsUTF16toUTF8StringInfo bytes = .ok out ↔
      ∃ ps cs, bytes = ps.flatMap Piece.bytes ∧ IsDecoding ps cs ∧
        out = cs.flatMap String.utf8EncodeChar := by
  constructor
  · intro h
    rw [tdsUTF16toUTF8StringInfo] at h
    obtain ⟨hodd, h⟩ := ite_error_eq_ok.mp h
    obtain ⟨ps, rfl⟩ := utf16Loop_inv (by omega) h
    obtain ⟨cs, hcs⟩ := exists_decoding ps
    rw [utf16Loop_pieces hcs (length_le_flatMap_bytes ps)] at h
    exact ⟨ps, cs, rfl, hcs, (Except.ok.inj h).symm⟩
  · rintro ⟨ps, cs, rfl, hcs, rfl⟩
    rw [tdsUTF16toUTF8StringInfo, if_neg (fun h => h (flatMap_bytes_even ps)),
      utf16Loop_pieces hcs (length_le_flatMap_bytes ps)]

theorem convertible_iff {bytes : List UInt8} :
    (∃ text, tdsUTF16toUTF8StringInfo bytes = .ok text) ↔
      ∃ ps : List Piece, bytes = ps.flatMap Piece.bytes := by
  constructor
  · rintro ⟨text, htext⟩
    obtain ⟨ps, -, hps, -, -⟩ := tdsUTF16toUTF8StringInfo_eq_ok.mp htext
    exact ⟨ps, hps⟩
  · rintro ⟨ps, hps⟩
    obtain ⟨cs, hcs⟩ := exists_decoding ps
    exact ⟨_, tdsUTF16toUTF8StringInfo_eq_ok.mpr ⟨ps, cs, hps, hcs, rfl⟩⟩

/-! ### The other direction -/

theorem addUTF16ToStringInfo_char (hc : c.toNat ≠ 0) :
    addUTF16ToStringInfo c.toNat = .ok (utf16Encode c) := by
  have hcases := char_toNat_cases c
  rw [addUTF16ToStringInfo, badCodePoint_char c hc, utf16Encode]
  by_cases h : c.toNat ≤ 0xFFFF
  · have hlow : UInt8.ofNat (c.toNat % 256) = UInt8.ofNat c.toNat := by
      apply UInt8.toNat.inj
      simp
    have hhigh : c.toNat / 256 % 256 = c.toNat / 256 := by omega
    simp only [h, if_true, hlow, hhigh]
    rfl
  · have hhigh : (c.toNat - 0x10000) / 1024 % 1024 = (c.toNat - 0x10000) / 1024 := by omega
    simp only [h, if_false, hhigh]
    rfl

theorem toNat_ofNat_byte (h : n < 256) : (UInt8.ofNat n).toNat = n :=
  UInt8.toNat_ofNat_of_lt' h

theorem continuation_byte : continuation (UInt8.ofNat (n % 64 + 128)) = true := by
  rw [continuation, toNat_ofNat_byte (by omega)]
  simp only [decide_eq_true_eq]
  omega

theorem utf8Bits_char :
    ∃ in0 more, String.utf8EncodeChar c ++ rest = in0 :: more ∧
      ∃ consumed, utf8Bits in0 more = .ok (c.toNat, consumed) ∧
        more.drop (consumed - 1) = rest := by
  have hcases := char_toNat_cases c
  have hval : c.val.toNat = c.toNat := rfl
  rw [String.utf8EncodeChar, hval]
  generalize c.toNat = v at hcases
  by_cases h1 : v ≤ 0x7F
  · refine ⟨UInt8.ofNat v, rest, by simp [h1], 1, ?_, rfl⟩
    unfold utf8Bits
    rw [toNat_ofNat_byte (by omega), if_pos (by omega)]
  by_cases h2 : v ≤ 0x7FF
  · refine ⟨UInt8.ofNat (v / 64 % 32 + 192), UInt8.ofNat (v % 64 + 128) :: rest,
      by simp [h1, h2], 2, ?_, rfl⟩
    rw [utf8Bits, toNat_ofNat_byte (by omega), if_neg (by omega), if_pos (by omega)]
    simp (disch := omega) only [continuation_byte, if_true, toNat_ofNat_byte]
    congr 2
    omega
  by_cases h3 : v ≤ 0xFFFF
  · refine ⟨UInt8.ofNat (v / 4096 % 16 + 224),
      UInt8.ofNat (v / 64 % 64 + 128) :: UInt8.ofNat (v % 64 + 128) :: rest,
      by simp [h1, h2, h3], 3, ?_, rfl⟩
    rw [utf8Bits, toNat_ofNat_byte (by omega), if_neg (by omega), if_neg (by omega),
      if_pos (by omega)]
    simp (disch := omega) only [continuation_byte, Bool.and_self, if_true, toNat_ofNat_byte]
    congr 2
    omega
  · refine ⟨UInt8.ofNat (v / 262144 % 8 + 240),
      UInt8.ofNat (v / 4096 % 64 + 128) :: UInt8.ofNat (v / 64 % 64 + 128) ::
        UInt8.ofNat (v % 64 + 128) :: rest,
      by simp [h1, h2, h3], 4, ?_, rfl⟩
    rw [utf8Bits, toNat_ofNat_byte (by omega), if_neg (by omega), if_neg (by omega),
      if_neg (by omega), if_pos (by omega)]
    simp (disch := omega) only [continuation_byte, Bool.and_self, if_true, toNat_ofNat_byte]
    congr 2
    omega

theorem getUTF8CodePoint_char :
    ∃ in0 more, String.utf8EncodeChar c ++ rest = in0 :: more ∧
      ∃ consumed, getUTF8CodePoint in0 more = .ok (c.toNat, consumed) ∧
        more.drop (consumed - 1) = rest := by
  obtain ⟨in0, more, hbytes, consumed, hbits, hdrop⟩ := utf8Bits_char c rest
  have hcases := char_toNat_cases c
  refine ⟨in0, more, hbytes, consumed, ?_, hdrop⟩
  rw [getUTF8CodePoint, hbits, ok_bind]
  exact if_neg (by omega)

/-- **UTF-8 without NUL is converted character by character.** -/
theorem utf8Loop_encode (hne : ∀ c ∈ cs, c.toNat ≠ 0) (hfuel : cs.length ≤ fuel) :
    utf8Loop fuel (cs.flatMap String.utf8EncodeChar) = .ok (cs.flatMap utf16Encode) := by
  induction cs generalizing fuel with
  | nil => cases fuel <;> rfl
  | cons c cs ih =>
    obtain ⟨hc, hcs⟩ := forall_mem_cons.mp hne
    obtain _ | fuel := fuel
    · simp at hfuel
    obtain ⟨in0, more, hbytes, consumed, hcode, hdrop⟩ :=
      getUTF8CodePoint_char c (cs.flatMap String.utf8EncodeChar)
    rw [flatMap_cons, hbytes, utf8Loop, hcode, ok_bind]
    dsimp only
    rw [addUTF16ToStringInfo_char c hc, ok_bind, hdrop, ih hcs (by simpa using hfuel), ok_bind]
    rfl

theorem length_le_utf8 : cs.length ≤ (cs.flatMap String.utf8EncodeChar).length :=
  length_le_length_flatMap (fun c => String.length_utf8EncodeChar c ▸ c.utf8Size_pos) cs

theorem tdsUTF8toUTF16StringInfo_encode (h : ∀ c ∈ cs, c.toNat ≠ 0) :
    tdsUTF8toUTF16StringInfo (cs.flatMap String.utf8EncodeChar) =
      .ok (cs.flatMap utf16Encode) :=
  utf8Loop_encode h length_le_utf8

/-! ### The law -/

theorem getUTF16CodePoint_of_wellFormed {in0 in1 : UInt8}
    (h : WellFormed (units (in0 :: in1 :: more))) :
    ∃ code consumed, getUTF16CodePoint in0 in1 more = .ok (code, consumed) := by
  have hsingle : unit16 in0 in1 ≠ 0 → ¬ IsHigh (unit16 in0 in1) → ¬ IsLow (unit16 in0 in1) →
      ∃ code consumed, getUTF16CodePoint in0 in1 more = .ok (code, consumed) := by
    intro hne hhigh hlow
    unfold IsHigh at hhigh
    unfold IsLow at hlow
    exact ⟨_, 2, (getUTF16CodePoint_single more (by omega)).trans (if_neg hne)⟩
  match more, h with
  | [], h | [_], h => exact hsingle h.1 h.2.1 h.2.2
  | in2 :: in3 :: more, h =>
    obtain ⟨hne, h⟩ := h
    split_ifs at h with hhigh
    · have hlow := h.1
      unfold IsHigh at hhigh
      unfold IsLow at hlow
      have hpair := getUTF16CodePoint_pair in0 in1 in2 in3 more (by omega)
      rw [if_neg (by omega), if_neg (by omega)] at hpair
      exact ⟨_, 4, hpair⟩
    · exact hsingle hne hhigh h.1

theorem exists_pieces_of_wellFormed {bytes : List UInt8} (heven : bytes.length % 2 = 0)
    (h : WellFormed (units bytes)) : ∃ ps : List Piece, bytes = ps.flatMap Piece.bytes := by
  refine exists_pieces (Q := fun bytes => WellFormed (units bytes)) ?_ bytes heven h
  intro in0 in1 more h
  obtain ⟨code, consumed, hcode⟩ := getUTF16CodePoint_of_wellFormed h
  obtain ⟨p, -, hbytes⟩ := getUTF16CodePoint_inv hcode
  rw [hbytes] at h
  refine ⟨p, _, hbytes, ?_⟩
  cases p with
  | char c hc => exact (wellFormed_char c hc _).mp h
  | slip high => exact absurd h (not_wellFormed_slip high)

theorem IsDecoding.bytes_eq {ps : List Piece} (h : IsDecoding ps cs) (hchar : ∀ p ∈ ps, p.IsChar) :
    ps.flatMap bytes = cs.flatMap utf16Encode ∧ ∀ c ∈ cs, c.toNat ≠ 0 := by
  induction h with
  | nil => simp
  | @cons p c ps cs hc _ ih =>
    obtain ⟨hp, hps⟩ := forall_mem_cons.mp hchar
    obtain ⟨hbytes, hne⟩ := ih hps
    cases p with
    | slip high => exact hp.elim
    | char c' hc' =>
      obtain rfl : c = c' := Char.toNat_inj.mp hc
      exact ⟨by rw [flatMap_cons, flatMap_cons, hbytes, bytes], forall_mem_cons.mpr ⟨hc', hne⟩⟩

/-- The receiver does with these bytes what it should: it accepts them when they are well-formed
UTF-16LE without NUL, it makes UTF-8 of their characters, and the sender makes these bytes of it
again. -/
def Faithful (bytes : List UInt8) : Prop :=
  ((∃ out, tdsUTF16toUTF8StringInfo bytes = .ok out) ↔
    bytes.length % 2 = 0 ∧ WellFormed (units bytes)) ∧
  ∀ out, tdsUTF16toUTF8StringInfo bytes = .ok out →
    ∃ cs : List Char, bytes = cs.flatMap utf16Encode ∧
      out = cs.flatMap String.utf8EncodeChar ∧ tdsUTF8toUTF16StringInfo out = .ok bytes

/-- The bytes are pieces, of which one at least is a high surrogate followed by `0xE000`. -/
def HasSlip (bytes : List UInt8) : Prop :=
  ∃ ps : List Piece, bytes = ps.flatMap Piece.bytes ∧ ∃ p ∈ ps, ¬ p.IsChar

theorem isChar_of_not_hasSlip {ps : List Piece} (h : ¬ HasSlip (ps.flatMap bytes)) :
    ∀ p ∈ ps, p.IsChar := by
  intro p hp
  by_contra hslip
  exact h ⟨ps, rfl, p, hp, hslip⟩

theorem HasSlip.not_wellFormed {bytes : List UInt8} (h : HasSlip bytes) :
    ¬ WellFormed (units bytes) := by
  obtain ⟨ps, rfl, p, hp, hslip⟩ := h
  exact fun hwell => hslip ((wellFormed_pieces ps).mp hwell p hp)

/-- Characters are well-formed, and not pieces with a high surrogate before `0xE000`. -/
theorem not_hasSlip_encode (hne : ∀ c ∈ cs, c.toNat ≠ 0) : ¬ HasSlip (cs.flatMap utf16Encode) := by
  refine mt HasSlip.not_wellFormed (not_not_intro ?_)
  induction cs with
  | nil => trivial
  | cons c cs ih =>
    obtain ⟨hc, hcs⟩ := forall_mem_cons.mp hne
    exact (wellFormed_char c hc _).mpr (ih hcs)

theorem text_of_not_hasSlip {bytes text : List UInt8} (h : ¬ HasSlip bytes)
    (htext : tdsUTF16toUTF8StringInfo bytes = .ok text) :
    ∃ cs : List Char, (∀ c ∈ cs, c.toNat ≠ 0) ∧ bytes = cs.flatMap utf16Encode ∧
      text = cs.flatMap String.utf8EncodeChar := by
  obtain ⟨ps, cs, rfl, hcs, rfl⟩ := tdsUTF16toUTF8StringInfo_eq_ok.mp htext
  obtain ⟨hbytes, hne⟩ := hcs.bytes_eq (isChar_of_not_hasSlip h)
  exact ⟨cs, hne, hbytes, rfl⟩

/-- **Accepted strings without such a piece are well-formed, and convert back.** -/
theorem faithful_of_not_hasSlip {bytes : List UInt8} (h : ¬ HasSlip bytes) : Faithful bytes := by
  refine ⟨⟨?_, ?_⟩, ?_⟩
  · intro hout
    obtain ⟨ps, rfl⟩ := convertible_iff.mp hout
    exact ⟨flatMap_bytes_even ps, (wellFormed_pieces ps).mpr (isChar_of_not_hasSlip h)⟩
  · rintro ⟨heven, hwell⟩
    exact convertible_iff.mpr (exists_pieces_of_wellFormed heven hwell)
  · intro out hout
    obtain ⟨cs, hne, hbytes, rfl⟩ := text_of_not_hasSlip h hout
    exact ⟨cs, hbytes, rfl, hbytes ▸ tdsUTF8toUTF16StringInfo_encode hne⟩

theorem not_faithful_of_hasSlip {bytes : List UInt8} (h : HasSlip bytes) : ¬ Faithful bytes := by
  rintro ⟨haccept, -⟩
  have ⟨ps, hps, _⟩ := h
  exact h.not_wellFormed (haccept.mp (convertible_iff.mpr ⟨ps, hps⟩)).2

theorem utf8_utf16_utf8 (h : ∀ c ∈ cs, c.toNat ≠ 0) :
    (tdsUTF8toUTF16StringInfo (cs.flatMap String.utf8EncodeChar) >>= tdsUTF16toUTF8StringInfo) =
      .ok (cs.flatMap String.utf8EncodeChar) := by
  rw [tdsUTF8toUTF16StringInfo_encode h, ok_bind]
  obtain ⟨ps, hps⟩ : ∃ ps : List Piece, IsDecoding ps cs ∧ ∀ p ∈ ps, p.IsChar := by
    induction cs with
    | nil => exact ⟨[], .nil, by simp⟩
    | cons c cs ih =>
      obtain ⟨hc, hcs⟩ := forall_mem_cons.mp h
      obtain ⟨ps, hdec, hchar⟩ := ih hcs
      exact ⟨.char c hc :: ps, .cons rfl hdec, forall_mem_cons.mpr ⟨trivial, hchar⟩⟩
  obtain ⟨hbytes, -⟩ := hps.1.bytes_eq hps.2
  exact tdsUTF16toUTF8StringInfo_eq_ok.mpr ⟨ps, cs, hbytes.symm, hps.1, rfl⟩

/-- **What the receiver gets right**: it does what it should on every string but those that it
takes for pieces of which one is a high surrogate followed by `0xE000`, and on UTF-8 without NUL
the two conversions are inverse. -/
theorem utf16_faithful_iff (bytes : List UInt8) (cs : List Char) :
    (Faithful bytes ↔ ¬ HasSlip bytes) ∧
    ((∀ c ∈ cs, c.toNat ≠ 0) →
      (tdsUTF8toUTF16StringInfo (cs.flatMap String.utf8EncodeChar) >>=
        tdsUTF16toUTF8StringInfo) = .ok (cs.flatMap String.utf8EncodeChar)) :=
  ⟨⟨fun h hslip => not_faithful_of_hasSlip hslip h, faithful_of_not_hasSlip⟩, utf8_utf16_utf8⟩

/-- The first character and the private-use character that follows it are merged, and come back as
another string. -/
theorem high_surrogate_before_e000 :
    tdsUTF16toUTF8StringInfo [0x00, 0xD8, 0x00, 0xE0] = .ok [0xF0, 0x90, 0x80, 0x80] ∧
      ¬ WellFormed (units [0x00, 0xD8, 0x00, 0xE0]) ∧
      tdsUTF8toUTF16StringInfo [0xF0, 0x90, 0x80, 0x80] = .ok [0x00, 0xD8, 0x00, 0xDC] := by
  refine ⟨by decide +kernel, ?_, by decide +kernel⟩
  rintro ⟨-, h⟩
  rw [if_pos (by decide)] at h
  exact absurd h.1 (by decide)

/-- Characters of one, two and four bytes in UTF-8. -/
theorem utf16_faithful_iff_widths :
    (Faithful [0x41, 0x00, 0xE9, 0x00, 0x3D, 0xD8, 0x00, 0xDE] ↔
      ¬ HasSlip [0x41, 0x00, 0xE9, 0x00, 0x3D, 0xD8, 0x00, 0xDE]) ∧
    (tdsUTF8toUTF16StringInfo (['A', 'é', '😀'].flatMap String.utf8EncodeChar) >>=
        tdsUTF16toUTF8StringInfo) = .ok (['A', 'é', '😀'].flatMap String.utf8EncodeChar) :=
  ⟨(utf16_faithful_iff _ []).1, (utf16_faithful_iff [] ['A', 'é', '😀']).2 (by simp)⟩

/-! ### The length in UTF-16 -/

theorem length_utf8Loop (vin : List UInt8) :
    length <$> utf8Loop fuel vin = (2 * ·) <$> lengthLoop fuel vin := by
  induction fuel generalizing vin with
  | zero => rfl
  | succ fuel ih =>
    cases vin with
    | nil => rfl
    | cons in0 rest =>
      rw [utf8Loop, lengthLoop, map_bind, map_bind]
      refine bind_congr fun ⟨code, consumed⟩ => ?_
      have hnext (k : Nat) :
          (2 * ·) <$> (do return k + (← lengthLoop fuel (rest.drop (consumed - 1)))) =
          (· + 2 * k) <$> length <$> utf8Loop fuel (rest.drop (consumed - 1)) := by
        rw [ih]
        simp [Nat.mul_add, Nat.add_comm]
      dsimp only
      rw [addUTF16ToStringInfo]
      cases badCodePoint code with
      | true => rfl
      | false =>
        by_cases hunit : code ≤ 0xFFFF
        · have hone := hnext 1
          simpa [hunit, ok_bind, Nat.add_assoc] using hone.symm
        · have htwo := hnext 2
          simpa [hunit, ok_bind, Nat.add_assoc] using htwo.symm

/-- **`TdsUTF8LengthInUTF16` counts the units that are written**, and fails as the conversion. -/
theorem lengthInUTF16_eq (vin : List UInt8) :
    length <$> tdsUTF8toUTF16StringInfo vin = (2 * ·) <$> tdsUTF8LengthInUTF16 vin :=
  length_utf8Loop _

end Babelfish.Tds
