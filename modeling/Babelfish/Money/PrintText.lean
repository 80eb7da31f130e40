import Babelfish.Money.Print
import Babelfish.Money.ScanExact
import Mathlib.Data.List.GetD

/-!
# The printed text of an amount

* `pgInt64tostr_prints`, `pgInt64tostrZeropad_prints`: the text that each function prints, and the
  places that it writes.
* `fixeddecimal2str_prints`: the text of an amount.
* `scanfixeddecimal_printed`: it is read back.
* `fixeddecimalout_iff`: for which amounts it stays inside of the buffer.
* `fixeddecimal2varchar_iff`: for which amounts the cast to varchar rounds to two decimals.
-/

namespace Babelfish.Money

open Lib List Buffer

variable {v : Int} {i n : Nat} {b : Buffer} {l : List UInt8} {c : UInt8}

/-! ### Buffers -/

namespace Buffer

def writeAll (b : Buffer) (i : Nat) : List UInt8 → Buffer
  | [] => b
  | c :: cs => (b.write i c).writeAll (i + 1) cs

variable {k : Nat}

theorem mem_write : (b.write i c).mem k = if k = i then c else b.mem k := Function.update_apply ..

@[simp] theorem written_write : (b.write i c).written = i :: b.written := rfl

theorem mem_writeAll :
    (b.writeAll i l).mem k = if i ≤ k ∧ k < i + l.length then l.getD (k - i) 0 else b.mem k := by
  induction l generalizing b i with
  | nil =>
    rw [writeAll, if_neg (by simp)]
  | cons c l ih =>
    rw [writeAll, ih, mem_write, length_cons]
    split_ifs <;> try omega
    · rw [show k - i = (k - (i + 1)) + 1 by omega, getD_cons_succ]
    · rw [show k - i = 0 by omega, getD_cons_zero]
    · rfl

theorem mem_written_writeAll :
    k ∈ (b.writeAll i l).written ↔ k ∈ b.written ∨ i ≤ k ∧ k < i + l.length := by
  induction l generalizing b i with
  | nil => rw [writeAll, length_nil, or_iff_left (by omega)]
  | cons c l ih =>
    rw [writeAll, ih, written_write, mem_cons, length_cons, or_assoc, or_left_comm]
    exact or_congr_right (by omega)

theorem text_eq (h : ∀ k, k < l.length → b.mem (i + k) = l.getD k 0) : b.text i l.length = l := by
  apply ext_getElem
  · simp [text]
  · intro k _ hk
    have hget : l.getD k 0 = l[k] := by simp [hk]
    rw [← hget, ← h k hk]
    simp [text]

theorem mem_of_text (h : b.text i l.length = l) (hk : k < l.length) :
    b.mem (i + k) = l.getD k 0 := by
  have hget : (b.text i l.length).getD k 0 = b.mem (i + k) := by simp [text, hk]
  rw [← hget, h]

end Buffer

/-- **A text was printed**: it stands at the offset, nothing before it has changed, and just its
places and that of the terminating 0 were written. -/
structure Prints (b b' : Buffer) (i : Nat) (l : List UInt8) : Prop where
  text : b'.text i l.length = l
  before : ∀ k, k < i → b'.mem k = b.mem k
  written : ∀ k, k ∈ b'.written ↔ k ∈ b.written ∨ i ≤ k ∧ k ≤ i + l.length

/-! ### Reversing in place -/

theorem reverseLoop_mem {fuel start str : Nat} (hfuel : str - start ≤ fuel) (k : Nat) :
    (reverseLoop fuel start str b).mem k =
      if start ≤ k ∧ k ≤ str then b.mem (start + str - k) else b.mem k := by
  induction fuel generalizing start str b with
  | zero =>
    rw [reverseLoop]
    split_ifs
    · rw [show start + str - k = k by omega]
    · rfl
  | succ fuel ih =>
    rw [reverseLoop]
    by_cases hlt : start < str
    · rw [if_pos hlt, ih (by omega)]
      simp only [mem_write]
      -- the two ends are exchanged, and the round before is about what is between them
      split_ifs <;> try omega
      · rw [show start + 1 + (str - 1) - k = start + str - k by omega]
      · rw [show start + str - k = start by omega]
      · rw [show start + str - k = str by omega]
      · rfl
    · rw [if_neg hlt]
      split_ifs
      · rw [show start + str - k = k by omega]
      · rfl

theorem mem_written_reverseLoop (fuel start str : Nat) (b : Buffer) (k : Nat) :
    (k ∈ b.written → k ∈ (reverseLoop fuel start str b).written) ∧
      (k ∈ (reverseLoop fuel start str b).written → k ∈ b.written ∨ start ≤ k ∧ k ≤ str) := by
  induction fuel generalizing start str b with
  | zero => exact ⟨id, .inl⟩
  | succ fuel ih =>
    rw [reverseLoop]
    split_ifs
    · obtain ⟨hkeep, honly⟩ := ih (start + 1) (str - 1)
        ((b.write start (b.mem str)).write str (b.mem start))
      simp only [written_write, mem_cons] at hkeep honly
      refine ⟨fun h => hkeep (.inr (.inr h)), fun h => ?_⟩
      rcases honly h with (h | h | h) | h
      case inl.inr.inr => exact .inl h
      all_goals exact .inr (by omega)
    · exact ⟨id, .inl⟩

/-! ### Digits -/

/-- The digits of a number, highest first; one for 0. -/
def printedDigits (n : Nat) : List Nat := if n = 0 then [0] else decimalDigits n

theorem printedDigits_of_lt (h : n < 10) : printedDigits n = [n] := by
  unfold printedDigits
  split
  · simp [*]
  · rw [decimalDigits, Nat.digits_of_lt 10 n (by omega) h]
    rfl

theorem printedDigits_step (h : 10 ≤ n) : printedDigits n = printedDigits (n / 10) ++ [n % 10] := by
  have hdiv : n / 10 ≠ 0 := by omega
  rw [printedDigits, if_neg (by omega), printedDigits, if_neg hdiv, decimalDigits,
    Nat.digits_def' (by decide) (by omega), reverse_cons, decimalDigits]

theorem printedDigits_lt {d : Nat} (h : d ∈ printedDigits n) : d < 10 := by
  unfold printedDigits at h
  split at h
  · simp at h
    omega
  · exact decimalDigits_lt h

theorem decimalValue_printedDigits : decimalValue (printedDigits n) = n := by
  unfold printedDigits
  split
  · simp [decimalValue, *]
  · exact decimalValue_digits n

variable (negative : Bool) {ds : List Nat} {p : Nat} {b' : Buffer}

theorem signFactor_tdiv (n : Nat) :
    (signFactor negative * n).tdiv 10 = signFactor negative * (n / 10 : Nat) ∧
      digitOf negative (signFactor negative * n - signFactor negative * (n / 10 : Nat) * 10) =
        digitByte (n % 10) := by
  cases negative with
  | false =>
    simp only [signFactor, Bool.false_eq_true, if_false, Int.one_mul, digitOf]
    refine ⟨rfl, ?_⟩
    congr 1
    omega
  | true =>
    simp only [signFactor, if_true, Int.neg_mul, Int.one_mul, digitOf]
    refine ⟨by rw [Int.neg_tdiv]; rfl, ?_⟩
    congr 1
    omega

theorem signFactor_mul_eq_zero {negative : Bool} : signFactor negative * n = 0 ↔ n = 0 := by
  cases negative <;> simp [signFactor]

/-- **The digits are written lowest first.** -/
theorem digitLoop_eq {fuel n : Nat} (hn : n < 10 ^ fuel) (hfuel : 0 < fuel) {str : Nat} :
    digitLoop negative fuel str (signFactor negative * n) b =
      (str + (printedDigits n).length,
        b.writeAll str ((printedDigits n).reverse.map digitByte)) := by
  induction fuel generalizing n str b with
  | zero => exact absurd hfuel (by decide)
  | succ fuel ih =>
    obtain ⟨hdiv, hdigit⟩ := signFactor_tdiv negative n
    rw [digitLoop, hdiv, hdigit]
    by_cases hsmall : n < 10
    · have hzero : signFactor negative * (n / 10 : Nat) = 0 := by
        rw [Nat.div_eq_of_lt hsmall]
        simp
      rw [if_neg (not_not.mpr hzero), printedDigits_of_lt hsmall, Nat.mod_eq_of_lt hsmall]
      rfl
    · have hne : signFactor negative * (n / 10 : Nat) ≠ 0 := by
        rw [Ne, signFactor_mul_eq_zero]
        omega
      have hfuel : 0 < fuel := pos_of_ne_zero (by rintro rfl; omega)
      rw [if_pos hne, ih (by omega) hfuel, printedDigits_step (n := n) (by omega)]
      simp only [length_append, length_singleton, reverse_append,
        reverse_singleton, singleton_append, map_cons, writeAll]
      congr 1
      omega

theorem printedDigits_ne_nil (n : Nat) : 0 < (printedDigits n).length := by
  unfold printedDigits
  split
  · simp
  · exact length_pos_of_ne_nil (decimalDigits_ne_nil (by assumption))

theorem prints_reversed (b : Buffer) (start : Nat) (hl : 0 < l.length) :
    Prints b (reverseLoop l.length start (start + l.length - 1)
      ((b.writeAll start l.reverse).write (start + l.length) 0)) start l where
  text := by
    apply text_eq
    intro k hk
    rw [reverseLoop_mem (by omega), if_pos (by omega), mem_write,
      if_neg (by omega), mem_writeAll, length_reverse, if_pos (by omega),
      show start + (start + l.length - 1) - (start + k) - start = l.length - 1 - k by omega,
      getD_eq_getElem?_getD, List.getElem?_reverse (by omega),
      show l.length - 1 - (l.length - 1 - k) = k by omega, ← getD_eq_getElem?_getD]
  before k hk := by
    rw [reverseLoop_mem (by omega), if_neg (by omega), mem_write,
      if_neg (by omega), mem_writeAll, if_neg (by omega)]
  written k := by
    obtain ⟨hkeep, honly⟩ := mem_written_reverseLoop l.length start (start + l.length - 1)
      ((b.writeAll start l.reverse).write (start + l.length) 0) k
    simp only [written_write, mem_cons, mem_written_writeAll, length_reverse] at hkeep honly
    constructor
    · intro h
      rcases honly h with (h | h | h) | h
      case inl.inr.inl => exact .inl h
      all_goals exact .inr (by omega)
    · rintro (h | h)
      · exact hkeep (.inr (.inl h))
      · by_cases hend : k = start + l.length
        · exact hkeep (.inl hend)
        · exact hkeep (.inr (.inr (by omega)))

theorem Prints.cons (h : Prints (b.write i c) b' (i + 1) l) : Prints b b' i (c :: l) where
  text := by
    apply text_eq
    intro k hk
    cases k with
    | zero => rw [add_zero, h.before i (by omega), mem_write, if_pos rfl]; rfl
    | succ k =>
      rw [length_cons] at hk
      rw [show i + (k + 1) = i + 1 + k by omega, mem_of_text h.text (by omega)]
      rfl
  before k hk := by rw [h.before k (by omega), mem_write, if_neg (by omega)]
  written k := by
    rw [h.written, written_write, mem_cons, length_cons, or_assoc, or_left_comm]
    exact or_congr_right (by omega)

def integerText (n : Nat) : List UInt8 :=
  (if negative then [45] else []) ++ (printedDigits n).map digitByte

theorem digitLoop_prints (hn : n < 10 ^ 20) (start : Nat) :
    ∃ b', digitLoop negative 20 start (signFactor negative * n) b =
        (start + (printedDigits n).length, b') ∧
      Prints b (reverseLoop (printedDigits n).length start (start + (printedDigits n).length - 1)
        (b'.write (start + (printedDigits n).length) 0)) start
          ((printedDigits n).map digitByte) := by
  have hmap : ((printedDigits n).map digitByte).length = (printedDigits n).length :=
    length_map ..
  have hprints := prints_reversed b start (l := (printedDigits n).map digitByte)
    (by rw [hmap]; exact printedDigits_ne_nil n)
  rw [hmap, ← map_reverse] at hprints
  exact ⟨_, digitLoop_eq negative hn (by decide), hprints⟩

/-- **`pg_int64tostr` prints the number.** -/
theorem pgInt64tostr_prints (hneg : negative = true → 0 < n) (hn : n < 10 ^ 20) (str : Nat) :
    ∃ b', pgInt64tostr str (signFactor negative * n) b =
        (str + (integerText negative n).length, b') ∧ Prints b b' str (integerText negative n) := by
  cases negative with
  | false =>
    have hsign : ¬ signFactor false * (n : Int) < 0 := by simp [signFactor]
    obtain ⟨b', hloop, hprints⟩ := digitLoop_prints false hn str
    have hlen : (integerText false n).length = (printedDigits n).length := by simp [integerText]
    refine ⟨_, ?_, hprints⟩
    rw [pgInt64tostr, if_neg hsign, decide_eq_false hsign, hlen]
    dsimp only
    rw [hloop, Nat.add_sub_cancel_left]
  | true =>
    have hsign : signFactor true * (n : Int) < 0 := by
      have := hneg rfl
      simp [signFactor]
      omega
    obtain ⟨b', hloop, hprints⟩ := digitLoop_prints true hn (str + 1)
    have hlen : (integerText true n).length = (printedDigits n).length + 1 := by
      simp [integerText]
    refine ⟨_, ?_, hprints.cons⟩
    rw [pgInt64tostr, if_pos hsign, decide_eq_true hsign, hlen]
    dsimp only
    rw [hloop, Nat.add_sub_cancel_left, add_assoc, add_comm 1]

/-! ### Zero-padded digits -/

def paddedDigits : Nat → Nat → List Nat
  | 0, _ => []
  | p + 1, n => paddedDigits p (n / 10) ++ [n % 10]

@[simp] theorem length_paddedDigits (n : Nat) : (paddedDigits p n).length = p := by
  induction p generalizing n with
  | zero => rfl
  | succ p ih => simp [paddedDigits, ih]

theorem paddedDigits_lt {d : Nat} (h : d ∈ paddedDigits p n) : d < 10 := by
  induction p generalizing n with
  | zero => simp [paddedDigits] at h
  | succ p ih =>
    rw [paddedDigits, mem_append, mem_singleton] at h
    rcases h with h | h
    · exact ih h
    · omega

theorem decimalValue_paddedDigits (n : Nat) : decimalValue (paddedDigits p n) = n % 10 ^ p := by
  induction p generalizing n with
  | zero => simp [paddedDigits, decimalValue, Nat.mod_one]
  | succ p ih =>
    rw [paddedDigits, decimalValue_concat, ih, pow_succ, mul_comm (10 ^ p), Nat.mod_mul]
    omega

/-- **The digits are written from the end.** -/
theorem padLoop_eq (start p n : Nat) :
    ∃ b' : Buffer, padLoop false start p (n : Int) b = (((n / 10 ^ p : Nat) : Int), b') ∧
      b'.text start p = (paddedDigits p n).map digitByte ∧
      (∀ k, k < start ∨ start + p ≤ k → b'.mem k = b.mem k) ∧
      ∀ k, k ∈ b'.written ↔ k ∈ b.written ∨ start ≤ k ∧ k < start + p := by
  induction p generalizing n b with
  | zero =>
    exact ⟨b, by simp [padLoop], rfl, fun _ _ => rfl, fun k => (or_iff_left (by omega)).symm⟩
  | succ p ih =>
    obtain ⟨hdiv, hdigit⟩ := signFactor_tdiv false n
    simp only [signFactor, Bool.false_eq_true, if_false, Int.one_mul] at hdiv hdigit
    obtain ⟨b', hloop, htext, hmem, hwritten⟩ :=
      ih (n / 10) (b := b.write (start + p) (digitByte (n % 10)))
    refine ⟨b', ?_, ?_, ?_, ?_⟩
    · rw [padLoop, hdiv, hdigit, hloop, Nat.div_div_eq_div_mul, pow_succ, mul_comm (10 ^ p)]
    · rw [text, range_succ, map_append, map_singleton,
        hmem (start + p) (by omega), mem_write, if_pos rfl, paddedDigits, map_append]
      exact congrArg (· ++ [digitByte (n % 10)]) htext
    · intro k hk
      rw [hmem k (by omega), mem_write, if_neg (by omega)]
    · intro k
      rw [hwritten, written_write, mem_cons, or_assoc, or_left_comm]
      exact or_congr_right (by omega)

/-- **`pg_int64tostr_zeropad` prints a number that has enough room.** -/
theorem pgInt64tostrZeropad_prints (hn : n < 10 ^ p) (str : Nat) :
    ∃ b', pgInt64tostrZeropad str (n : Int) p b = (str + p, b') ∧
      Prints b b' str ((paddedDigits p n).map digitByte) := by
  obtain ⟨b', hloop, htext, hmem, hwritten⟩ := padLoop_eq str p n
  have hlen : ((paddedDigits p n).map digitByte).length = p := by simp
  refine ⟨b'.write (str + p) 0, ?_, ?_, ?_, ?_⟩
  · rw [pgInt64tostrZeropad, if_neg (by omega), hloop, Nat.div_eq_of_lt hn]
    rfl
  · apply text_eq
    intro k hk
    rw [mem_write, if_neg (by omega)]
    have htext' : b'.text str ((paddedDigits p n).map digitByte).length =
        (paddedDigits p n).map digitByte := by rw [hlen, htext]
    exact mem_of_text htext' (by omega)
  · intro k hk
    rw [mem_write, if_neg (by omega), hmem k (by omega)]
  · intro k
    rw [written_write, mem_cons, hwritten, hlen, or_left_comm]
    exact or_congr_right (by omega)

/-! ### Amounts -/

theorem Prints.append {b₁ b₂ : Buffer} {l₁ l₂ : List UInt8} (h₁ : Prints b b₁ i l₁)
    (h₂ : Prints b₁ b₂ (i + l₁.length) l₂) : Prints b b₂ i (l₁ ++ l₂) where
  text := by
    apply text_eq
    intro k hk
    rw [length_append] at hk
    by_cases hin : k < l₁.length
    · rw [h₂.before (i + k) (by omega), mem_of_text h₁.text hin, getD_append _ _ _ _ hin]
    · rw [getD_append_right _ _ _ _ (by omega),
        ← mem_of_text h₂.text (k := k - l₁.length) (by omega),
        show i + l₁.length + (k - l₁.length) = i + k by omega]
  before k hk := by rw [h₂.before k (by omega), h₁.before k hk]
  written k := by
    rw [h₂.written, h₁.written, length_append, or_assoc]
    exact or_congr_right (by omega)

/-- The text of a number of units, of which `10 ^ p` are a whole. -/
def decimalText (p : Nat) (v : Int) : List UInt8 :=
  integerText (v < 0) (v.natAbs / 10 ^ p) ++
    46 :: (paddedDigits p (v.natAbs % 10 ^ p)).map digitByte

theorem integralpart_prints {m : Nat} (hv : v.natAbs < 10 ^ 20) :
    ∃ b', (if v < 0 ∧ v.natAbs / m = 0
          then pgInt64tostr 1 (v.tdiv m) (b.write 0 45)
          else pgInt64tostr 0 (v.tdiv m) b) =
        ((integerText (v < 0) (v.natAbs / m)).length, b') ∧
      Prints b b' 0 (integerText (v < 0) (v.natAbs / m)) := by
  have hquot : v.tdiv m = signFactor (v < 0) * (v.natAbs / m : Nat) := by
    rw [tdiv_eq_sign_mul]
    by_cases hneg : v < 0
    · simp [signFactor, hneg, Int.sign_eq_neg_one_of_neg hneg]
    · rcases Int.lt_or_eq_of_le (not_lt.mp hneg) with hpos | rfl
      · simp [signFactor, hneg, Int.sign_eq_one_of_pos hpos]
      · simp
  by_cases hzero : v < 0 ∧ v.natAbs / m = 0
  · obtain ⟨b', hprint, hprints⟩ :=
      pgInt64tostr_prints false (n := 0) (b := b.write 0 45) (by simp) (by decide) 1
    have htext : integerText (v < 0) (v.natAbs / m) = 45 :: integerText false 0 := by
      simp [integerText, hzero.1, hzero.2]
    refine ⟨b', ?_, ?_⟩
    · rw [htext, if_pos hzero, hquot, hzero.2, length_cons, add_comm _ 1, ← hprint]
      simp
    · rw [htext]
      exact hprints.cons
  · have hpos : decide (v < 0) = true → 0 < v.natAbs / m := by
      intro h
      exact pos_of_ne_zero fun h0 => hzero ⟨of_decide_eq_true h, h0⟩
    have hle := Nat.div_le_self v.natAbs m
    obtain ⟨b', hprint, hprints⟩ := pgInt64tostr_prints (v < 0) hpos (by omega) 0
    rw [zero_add] at hprint
    exact ⟨b', by rw [if_neg hzero, hquot, hprint], hprints⟩

/-- **The text that is printed, and the places that are written.**  `v` is what is left of the
amount when the digits that are not printed have been dropped. -/
theorem fixeddecimal2str_prints {val m : Int} (hm : m = (10 ^ p : Nat))
    (hdrop : (if p < 4 then dropDigits val m else val) = v) (hv : v.natAbs < 10 ^ 20) :
    ∃ b', fixeddecimal2str val m p b = ((decimalText p v).length, b') ∧
      Prints b b' 0 (decimalText p v) := by
  subst hm
  obtain ⟨b₁, hintegral, hprints₁⟩ := integralpart_prints (m := 10 ^ p) hv
  have hpos : 0 < 10 ^ p := Nat.pow_pos (by decide)
  obtain ⟨b₂, hfraction, hprints₂⟩ := pgInt64tostrZeropad_prints
    (n := v.natAbs % 10 ^ p) (p := p) (Nat.mod_lt _ hpos)
    ((integerText (v < 0) (v.natAbs / 10 ^ p)).length + 1)
  have happend : Prints b b₂ 0 (decimalText p v) := by
    refine hprints₁.append ?_
    rw [zero_add]
    exact hprints₂.cons
  refine ⟨b₂, ?_, happend⟩
  have hlen : (decimalText p v).length =
      (integerText (v < 0) (v.natAbs / 10 ^ p)).length + 1 + p := by
    simp [decimalText, add_assoc, add_comm 1]
  have hquot : v.tdiv (10 ^ p : Nat) = 0 ↔ v.natAbs / 10 ^ p = 0 := by
    rw [← Int.natAbs_eq_zero, Int.natAbs_tdiv]
    rfl
  have hrem : (if v < 0 then -v.tmod (10 ^ p : Nat) else v.tmod (10 ^ p : Nat)) =
      (v.natAbs % 10 ^ p : Nat) := by
    obtain ⟨-, hnonneg, hneg⟩ := tdiv_tmod_spec v (m := (10 ^ p : Nat)) (by exact_mod_cast hpos)
    have habs := Int.natAbs_tmod v (10 ^ p : Nat)
    rw [Int.natAbs_natCast] at habs
    split <;> omega
  rw [hlen, ← hfraction, ← hrem, fixeddecimal2str, hdrop]
  simp only [ite_and] at hintegral
  split_ifs at hintegral ⊢ <;> try omega
  all_goals
    dsimp only
    rw [hintegral]

/-! ### Reading back -/

theorem neZero_ten : NeZero 10 := inferInstance

def digitMarks (ds : List Nat) : List Mark := ds.map fun d => some (@Fin.ofNat 10 neZero_ten d)

theorem digitMarks_bytes (h : ∀ d ∈ ds, d < 10) :
    (digitMarks ds).map markByte = ds.map digitByte := by
  rw [digitMarks, map_map]
  apply map_congr_left
  intro d hd
  simp [markByte, Nat.mod_eq_of_lt (h d hd)]

theorem markDigits_digitMarks (h : ∀ d ∈ ds, d < 10) : markDigits (digitMarks ds) = ds := by
  induction ds with
  | nil => rfl
  | cons d ds ih =>
    obtain ⟨hd, hds⟩ := forall_mem_cons.mp h
    have hcons : markDigits (digitMarks (d :: ds)) = d % 10 :: markDigits (digitMarks ds) := rfl
    rw [hcons, ih hds, Nat.mod_eq_of_lt hd]

def printedText (v : Int) : MoneyText where
  lead := []
  opening := .signFirst (if v < 0 then some (true, []) else none) none
  integral := digitMarks (printedDigits (v.natAbs / 10000))
  fraction := some (digitMarks (paddedDigits 4 (v.natAbs % 10000)))
  trail := []

theorem printedText_bytes : (printedText v).bytes = decimalText 4 v := by
  have hintegral := digitMarks_bytes fun d => printedDigits_lt (n := v.natAbs / 10000)
  have hfraction := digitMarks_bytes fun d => paddedDigits_lt (p := 4) (n := v.natAbs % 10000)
  by_cases hneg : v < 0 <;>
    simp [printedText, MoneyText.bytes, MoneyText.body, Opening.bytes, currencyBytes, pointBytes,
      spaceBytes, signByte, decimalText, integerText, hneg, hintegral, hfraction]

theorem printedText_parts (v : Int) :
    signFactor (printedText v).opening.negative = (if v < 0 then -1 else 1) ∧
      (printedText v).whole = v.natAbs / 10000 ∧ (printedText v).units = v.natAbs % 10000 := by
  refine ⟨?_, ?_, ?_⟩
  · by_cases hneg : v < 0 <;> simp [printedText, Opening.negative, signFactor, hneg]
  · rw [MoneyText.whole, printedText, markDigits_digitMarks fun d => printedDigits_lt,
      decimalValue_printedDigits]
  · have hdigits : fractionDigits (printedText v).fraction = paddedDigits 4 (v.natAbs % 10000) :=
      markDigits_digitMarks fun d => paddedDigits_lt
    rw [MoneyText.units, hdigits, roundedUnits, length_paddedDigits, decimalValue_paddedDigits]
    omega

/-- **The printed text is read back.** -/
theorem scanfixeddecimal_printed (hv : Fits 64 v) :
    (scanfixeddecimal (decimalText 4 v)).map Prod.fst = .ok v := by
  obtain ⟨hsign, hwhole, hunits⟩ := printedText_parts v
  have hamount : (printedText v).amount = v := by
    rw [amount_eq, hsign, hwhole, hunits]
    split <;> omega
  have hexact : (printedText v).Exact := by
    apply exact_of_fits_product
    apply fits_product_of_fits_amount
    rwa [hamount]
  rwa [MoneyText.Exact, hamount, if_pos hv, printedText_bytes] at hexact

/-- The text is read back, and no byte was written behind the buffer of `MAXINT8LEN + 1` bytes. -/
def PrintedSafely (maxInt8Len : Nat) (mem : Nat → UInt8) (v : Int) : Prop :=
  (scanfixeddecimal (fixeddecimalout v ⟨mem, []⟩).1).map Prod.fst = .ok v ∧
    ∀ i ∈ (fixeddecimalout v ⟨mem, []⟩).2.written, i < maxInt8Len + 1

theorem length_decimalText_le_iff (hv : Fits 64 v) :
    (decimalText 4 v).length ≤ 20 ↔ -10 ^ 18 < v := by
  have hlen : (decimalText 4 v).length =
      (if v < 0 then 1 else 0) + (printedDigits (v.natAbs / 10000)).length + 5 := by
    by_cases hneg : v < 0
    · simp [decimalText, integerText, hneg]
      omega
    · simp [decimalText, integerText, hneg]
  have hdigits : ∀ k, 0 < k →
      ((printedDigits (v.natAbs / 10000)).length ≤ k ↔ v.natAbs / 10000 < 10 ^ k) := by
    intro k hk
    unfold printedDigits
    split
    · simp [*]
      omega
    · exact length_decimalDigits_le_iff
  have h14 := hdigits 14 (by decide)
  have h15 := hdigits 15 (by decide)
  rw [fits_64] at hv
  rw [hlen]
  split <;> omega

/-- **Which amounts are printed inside of the buffer**: with room for 20 characters and the
terminating 0, those above -100000000000000.0000.  The text of every amount is read back. -/
theorem fixeddecimalout_iff (maxInt8Len : Nat) (h20 : maxInt8Len = 20) (mem : Nat → UInt8)
    (v : Int) (hv : Fits 64 v) : PrintedSafely maxInt8Len mem v ↔ -10 ^ 18 < v := by
  obtain ⟨b', hprint, hprints⟩ : ∃ b', fixeddecimal2str v 10000 4 ⟨mem, []⟩ =
      ((decimalText 4 v).length, b') ∧ Prints ⟨mem, []⟩ b' 0 (decimalText 4 v) :=
    fixeddecimal2str_prints (p := 4) rfl rfl (by rw [fits_64] at hv; omega)
  have hout : fixeddecimalout v ⟨mem, []⟩ = (decimalText 4 v, b') := by
    rw [fixeddecimalout, hprint]
    exact congrArg (·, b') hprints.text
  rw [PrintedSafely, hout, ← length_decimalText_le_iff hv]
  constructor
  · rintro ⟨-, hwritten⟩
    have hlast := hwritten (decimalText 4 v).length ((hprints.written _).mpr (.inr (by omega)))
    omega
  · intro hlen
    refine ⟨scanfixeddecimal_printed hv, fun i hi => ?_⟩
    rcases (hprints.written i).mp hi with hnil | hrange
    · cases hnil
    · omega

/-- The smallest amount takes 21 characters, and the terminating 0 is written behind the buffer. -/
theorem smallest_amount_overruns :
    21 ∈ (fixeddecimalout (-9223372036854775808) ⟨fun _ => 0, []⟩).2.written ∧ ¬ 21 < 20 + 1 := by
  decide +kernel

/-- The greatest amount stays inside. -/
theorem fixeddecimalout_iff_greatest :
    PrintedSafely 20 (fun _ => 0) 9223372036854775807 :=
  (fixeddecimalout_iff 20 rfl (fun _ => 0) 9223372036854775807 (by decide)).mpr (by decide)

/-! ### Two digits behind the point -/

def fixeddecimal2varchar (val maxByteLen : Int) (b : Buffer) : Except String (List UInt8) :=
  let (len, b) := fixeddecimal2str val 100 2 b
  let maxByteLen : Int := if maxByteLen < 0 then len + 4 else maxByteLen
  if len > maxByteLen - 4 then
    .error ("There is insufficient result space to convert a money/smallmoney value to " ++
      "varchar/nvarchar.")
  else .ok (b.text 0 len)

/-- The number that a text denotes, in units of its last digit: a sign, digits, a point and `p`
digits. -/
def textUnits (p : Nat) (text : List UInt8) : Option Int :=
  let negative : Bool := text.head? = some 45
  let body := if negative then text.tail else text
  let whole := body.takeWhile (· != 46)
  let digits := whole ++ (body.dropWhile (· != 46)).tail
  if whole ≠ [] ∧ digits.length = whole.length + p ∧ body.contains 46 ∧ digits.all isDigit then
    some (signFactor negative * decimalValue (digits.map (·.toNat - 48)))
  else none

theorem map_digitByte (h : ∀ d ∈ ds, d < 10) : (ds.map digitByte).map (·.toNat - 48) = ds := by
  rw [map_map, map_congr_left fun d hd => ?_, map_id]
  rw [Function.comp_apply, digitByte_toNat (h d hd), Nat.add_sub_cancel_left]
  rfl

theorem textUnits_digits (negative : Bool) {ws fs : List Nat} (hne : ws ≠ [])
    (h : ∀ d ∈ ws ++ fs, d < 10) :
    textUnits fs.length ((if negative then [45] else []) ++ ws.map digitByte ++
      46 :: fs.map digitByte) = some (signFactor negative * decimalValue (ws ++ fs)) := by
  have hpoint : ∀ c ∈ ws.map digitByte, (c != 46) = true := by
    intro c hc
    obtain ⟨d, hd, rfl⟩ := mem_map.mp hc
    simpa using digitByte_ne (h d (mem_append_left fs hd)) (by decide)
  have hbody : ∀ text, text = ws.map digitByte ++ 46 :: fs.map digitByte →
      text.takeWhile (· != 46) = ws.map digitByte ∧
        text.dropWhile (· != 46) = 46 :: fs.map digitByte := by
    rintro _ rfl
    rw [takeWhile_append_of_pos hpoint, dropWhile_append_of_pos hpoint]
    simp
  have hall : (ws.map digitByte ++ fs.map digitByte).all isDigit = true := by
    rw [← map_append, all_map, all_eq_true]
    exact fun d hd => isDigit_digitByte (h d hd)
  obtain ⟨w, ws, rfl⟩ := exists_cons_of_ne_nil hne
  have hsign : digitByte w ≠ 45 := digitByte_ne (h w (by simp)) (by decide)
  have hvalue := map_digitByte h
  rw [map_append] at hvalue
  obtain ⟨htake, hdrop⟩ := hbody _ rfl
  cases negative with
  | false => simp_all [textUnits, Nat.add_right_comm]
  | true => simp_all [textUnits, Nat.add_right_comm]

theorem textUnits_decimalText : textUnits p (decimalText p v) = some v := by
  have hdigits : ∀ d ∈ printedDigits (v.natAbs / 10 ^ p) ++ paddedDigits p (v.natAbs % 10 ^ p),
      d < 10 := by
    intro d hd
    rcases mem_append.mp hd with hd | hd
    · exact printedDigits_lt hd
    · exact paddedDigits_lt hd
  have hunits := textUnits_digits (v < 0)
    (length_pos_iff.mp (printedDigits_ne_nil (v.natAbs / 10 ^ p))) hdigits
  rw [length_paddedDigits, decimalValue_append, decimalValue_printedDigits, length_paddedDigits,
    decimalValue_paddedDigits, Nat.mod_mod, Nat.div_add_mod'] at hunits
  rw [decimalText, integerText, hunits, signFactor]
  split_ifs with hneg <;> simp at hneg <;> congr 1 <;> omega

theorem dropDigits_iff :
    dropDigits v 100 = roundHalfAway v 100 ↔
      (5 ≤ (wrap 32 |wrap 32 (v.tdiv 10)|).tmod 10 ↔ 50 ≤ v.natAbs % 100) ∧
        ¬(-100 < v ∧ v ≤ -50) := by
  obtain ⟨hdiv, hpos, hneg⟩ := tdiv_tmod_spec v (m := 100) (by decide)
  have habs := Int.natAbs_tmod v 100
  rw [roundHalfAway_eq (by decide), dropDigits, show (10000 : Int).tdiv (100 * 10) = 10 from rfl]
  generalize (wrap 32 |wrap 32 (v.tdiv 10)|).tmod 10 = lastDigit
  push_cast
  rcases Int.lt_trichotomy v 0 with h | rfl | h
  · rw [Int.sign_eq_neg_one_of_neg h]
    split_ifs <;> omega
  · rw [Int.sign_zero]
    split_ifs <;> omega
  · rw [Int.sign_eq_one_of_pos h]
    split_ifs <;> omega

theorem fixeddecimal2varchar_eq (hprint : fixeddecimal2str v 100 2 b = (l.length, b'))
    (htext : b'.text 0 l.length = l) (maxByteLen : Int) :
    (fixeddecimal2varchar v maxByteLen b).toOption =
      if 0 ≤ maxByteLen ∧ maxByteLen < l.length + 4 then none else some l := by
  unfold fixeddecimal2varchar
  rw [hprint]
  dsimp only
  rw [htext]
  split_ifs
  all_goals first
    | rfl
    | omega

/-- **When the text denotes the rounded amount**: the third digit behind the point must lie on the
same side of 5 when `abs` has cut the number to 32 bits, and the amount must not be a negative one
that is rounded to -0.01. -/
theorem fixeddecimal2varchar_iff (hv : Fits 64 v) (b : Buffer) :
    ∃ text : List UInt8,
      (∀ maxByteLen, (fixeddecimal2varchar v maxByteLen b).toOption =
        if 0 ≤ maxByteLen ∧ maxByteLen < text.length + 4 then none else some text) ∧
      (textUnits 2 text = some (roundHalfAway v 100) ↔
        (5 ≤ (wrap 32 |wrap 32 (v.tdiv 10)|).tmod 10 ↔ 50 ≤ v.natAbs % 100) ∧
          ¬(-100 < v ∧ v ≤ -50)) := by
  have hsmall : (dropDigits v 100).natAbs < 10 ^ 20 := by
    obtain ⟨hdiv, hpos, hneg⟩ := tdiv_tmod_spec v (m := 100) (by decide)
    rw [fits_64] at hv
    unfold dropDigits
    dsimp only
    split_ifs <;> omega
  obtain ⟨b', hprint, hprints⟩ : ∃ b', fixeddecimal2str v 100 2 b =
      ((decimalText 2 (dropDigits v 100)).length, b') ∧
        Prints b b' 0 (decimalText 2 (dropDigits v 100)) :=
    fixeddecimal2str_prints (p := 2) (by norm_num) (if_pos (by decide)) hsmall
  refine ⟨_, fixeddecimal2varchar_eq hprint hprints.text, ?_⟩
  rw [textUnits_decimalText, Option.some_inj, dropDigits_iff]

/-- -0.0050 becomes 0.01, and 2147483.6480 becomes 2147483.64. -/
theorem wrong_sign_and_digit :
    (fixeddecimal2varchar (-50) (-1) ⟨fun _ => 0, []⟩).map (textUnits 2) = .ok (some 1) ∧
      roundHalfAway (-50) 100 = -1 ∧
      (fixeddecimal2varchar 21474836480 (-1) ⟨fun _ => 0, []⟩).map (textUnits 2) =
        .ok (some 214748364) ∧
      roundHalfAway 21474836480 100 = 214748365 := by
  decide +kernel

/-- 12.3456 becomes 12.35. -/
theorem fixeddecimal2varchar_cents :
    ∃ text, (fixeddecimal2varchar 123456 (-1) ⟨fun _ => 0, []⟩).toOption = some text ∧
      textUnits 2 text = some (roundHalfAway 123456 100) := by
  obtain ⟨text, htext, hunits⟩ :=
    fixeddecimal2varchar_iff (v := 123456) (by decide) ⟨fun _ => 0, []⟩
  exact ⟨text, htext (-1), hunits.mpr (by decide)⟩

end Babelfish.Money
