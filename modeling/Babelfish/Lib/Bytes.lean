import Mathlib.Algebra.Order.BigOperators.Group.List
import Mathlib.Algebra.Order.Group.Nat

/-!
# Buffers and integers as bytes

A C buffer is a list; `slice` is the part between two cursors and `overwrite` is `memcpy` into
the buffer at a cursor.

* `slice_append_slice`: two adjacent parts make one part.
* `slice_overwrite`: the part up to the end of the copied bytes.
* `OccursAt`: where a list stands in another one.
* `leNat_leBytes`, `beNat_beBytes`: reading back an integer written in little or big endian gives
  the integer modulo the width.
* `toNat_orBytes`: the number that shifts and ors make of bytes.
-/

namespace Babelfish.Lib

open List

variable {α : Type} {a b i k : Nat}

/-! ### Parts of a buffer -/

variable (l : List α)

/-- The bytes `l[a], …, l[b - 1]`. -/
def slice (a b : Nat) : List α := (l.take b).drop a

/-- `memcpy(l + i, xs, |xs|)`. -/
def overwrite (i : Nat) (xs : List α) : List α :=
  l.take i ++ xs ++ l.drop (i + xs.length)

theorem length_slice {l : List α} (hb : b ≤ l.length) : (slice l a b).length = b - a := by
  simp [slice, Nat.min_eq_left hb]

@[simp] theorem slice_self (a : Nat) : slice l a a = [] := by
  simp [slice]

theorem slice_append_slice {l : List α} {c : Nat} (hab : a ≤ b) (hbc : b ≤ c) (hc : c ≤ l.length) :
    slice l a b ++ slice l b c = slice l a c := by
  have htake : (l.take c).take b = l.take b := by rw [take_take, Nat.min_eq_left hbc]
  have hlen : a ≤ ((l.take c).take b).length := by simp; omega
  calc slice l a b ++ slice l b c
      = ((l.take c).take b).drop a ++ (l.take c).drop b := by rw [htake]; rfl
    _ = ((l.take c).take b ++ (l.take c).drop b).drop a :=
        (drop_append_of_le_length hlen).symm
    _ = slice l a c := by rw [take_append_drop]; rfl

theorem length_overwrite {l xs : List α} (h : i + xs.length ≤ l.length) :
    (overwrite l i xs).length = l.length := by
  simp [overwrite]
  omega

theorem slice_overwrite {l xs : List α} (ha : a ≤ i) (hi : i + xs.length ≤ l.length) :
    slice (overwrite l i xs) a (i + xs.length) = slice l a i ++ xs := by
  have hlen : (l.take i).length = i := by simp; omega
  unfold slice overwrite
  rw [take_left' (by simp [hlen]), drop_append_of_le_length (by omega)]

theorem slice_overwrite_after (l xs : List α) (i b : Nat) (hi : i + xs.length ≤ l.length) :
    slice (overwrite l i xs) (i + xs.length) b = slice l (i + xs.length) b := by
  have hlen : (l.take i ++ xs).length = i + xs.length := by simp; omega
  unfold slice overwrite
  rw [drop_take, drop_take, ← hlen, drop_left]

theorem slice_overwrite_zero {l xs : List α} (h : xs.length ≤ l.length) :
    slice (overwrite l 0 xs) 0 xs.length = xs := by
  simpa [slice] using slice_overwrite (Nat.le_refl 0) (show 0 + xs.length ≤ l.length by omega)

theorem drop_slice (a b k : Nat) : (slice l a b).drop k = slice l (a + k) b := by
  simp [slice, drop_drop]

theorem slice_slice {j : Nat} (hj : a + j ≤ b) :
    slice (slice l a b) i j = slice l (a + i) (a + j) := by
  simp only [slice, take_drop, drop_drop, take_take, Nat.min_eq_left hj]

theorem getD_slice {l : List α} (hk : a + k < b) (d : α) :
    l.getD (a + k) d = (slice l a b).getD k d := by
  simp [slice, getD_eq_getElem?_getD, hk]

/-! ### Occurrences -/

/-- `xs` stands in `l` at position `n`. -/
def OccursAt (l : List α) (n : Nat) (xs : List α) : Prop :=
  ∃ pre post, l = pre ++ (xs ++ post) ∧ pre.length = n

namespace OccursAt

variable {l xs ys : List α} {n : Nat}

theorem le (h : OccursAt l n xs) : n + xs.length ≤ l.length := by
  obtain ⟨pre, post, rfl, rfl⟩ := h
  simp only [length_append]
  omega

theorem slice_eq (h : OccursAt l n xs) : slice l n (n + xs.length) = xs := by
  obtain ⟨pre, post, rfl, rfl⟩ := h
  rw [slice, ← append_assoc, take_left' length_append, drop_left]

theorem left (h : OccursAt l n (xs ++ ys)) : OccursAt l n xs := by
  obtain ⟨pre, post, rfl, rfl⟩ := h
  exact ⟨pre, ys ++ post, by simp, rfl⟩

theorem right (h : OccursAt l n (xs ++ ys)) : OccursAt l (n + xs.length) ys := by
  obtain ⟨pre, post, rfl, rfl⟩ := h
  exact ⟨pre ++ xs, post, by simp, length_append⟩

end OccursAt

/-! ### Integers in a fixed number of bytes -/

/-- The `k` low bytes of `n`, lowest first. -/
def leBytes : Nat → Nat → List UInt8
  | 0, _ => []
  | k + 1, n => UInt8.ofNat n :: leBytes k (n / 256)

/-- The integer whose bytes are given, lowest first. -/
def leNat : List UInt8 → Nat
  | [] => 0
  | b :: bs => b.toNat + 256 * leNat bs

@[simp] theorem length_leBytes (k n : Nat) : (leBytes k n).length = k := by
  induction k generalizing n with
  | zero => rfl
  | succ k ih => simp [leBytes, ih]

/-- **Reading back a little-endian integer.** -/
theorem leNat_leBytes (k n : Nat) : leNat (leBytes k n) = n % 256 ^ k := by
  induction k generalizing n with
  | zero => simp [leBytes, leNat, Nat.mod_one]
  | succ k ih =>
    rw [leBytes, leNat, ih, pow_succ', Nat.mod_mul]
    simp

theorem leBytes_inj {m n : Nat} (h : leBytes k m = leBytes k n) (hm : m < 256 ^ k)
    (hn : n < 256 ^ k) : m = n := by
  have := congrArg leNat h
  rwa [leNat_leBytes, leNat_leBytes, Nat.mod_eq_of_lt hm, Nat.mod_eq_of_lt hn] at this

theorem leNat_lt (bs : List UInt8) : leNat bs < 256 ^ bs.length := by
  induction bs with
  | nil => simp [leNat]
  | cons b bs ih =>
    have hb : b.toNat < 256 := b.toNat_lt
    rw [leNat, length_cons, pow_succ']
    omega

theorem take_leBytes (k j n : Nat) : (leBytes (k + j) n).take k = leBytes k n := by
  induction k generalizing n with
  | zero => simp [leBytes]
  | succ k ih => rw [Nat.succ_add, leBytes, leBytes, take_succ_cons, ih]

/-- **Writing a little-endian integer that was read.** -/
theorem leBytes_leNat (bs : List UInt8) : leBytes bs.length (leNat bs) = bs := by
  induction bs with
  | nil => rfl
  | cons b bs ih =>
    have hb : b.toNat < 256 := b.toNat_lt
    have hdiv : (b.toNat + 256 * leNat bs) / 256 = leNat bs := by omega
    rw [length_cons, leNat, leBytes, hdiv, ih, UInt8.ofNat_add, UInt8.ofNat_toNat, UInt8.ofNat_mul]
    simp

theorem leNat_append (xs ys : List UInt8) :
    leNat (xs ++ ys) = leNat xs + 256 ^ xs.length * leNat ys := by
  induction xs with
  | nil => simp [leNat]
  | cons x xs ih =>
    rw [cons_append, leNat, leNat, ih, length_cons, Nat.pow_succ', Nat.mul_add, Nat.mul_assoc]
    omega

def beBytes (k n : Nat) : List UInt8 := (leBytes k n).reverse

def beNat (bs : List UInt8) : Nat := leNat bs.reverse

@[simp] theorem length_beBytes (k n : Nat) : (beBytes k n).length = k := by simp [beBytes]

theorem beNat_beBytes (k n : Nat) : beNat (beBytes k n) = n % 256 ^ k := by
  simp [beNat, beBytes, leNat_leBytes]

theorem beNat_beBytes_of_lt {n : Nat} (h : n < 256 ^ k) : beNat (beBytes k n) = n := by
  rw [beNat_beBytes, Nat.mod_eq_of_lt h]

/-! ### Bytes put together with shifts -/

/-- A byte, shifted to its place. -/
def shiftedByte (w : Nat) (b : UInt8) (i : Nat) : BitVec w := b.toBitVec.setWidth w <<< (8 * i)

/-- The bytes `f 0, …, f (k - 1)`, put together. -/
def orBytes (w : Nat) (f : Nat → UInt8) (k : Nat) : BitVec w :=
  (List.range k).foldl (fun acc i => acc ||| shiftedByte w (f i) i) 0

theorem toNat_shiftedByte {w : Nat} (b : UInt8) (h : 8 * (i + 1) ≤ w) :
    (shiftedByte w b i).toNat = 256 ^ i * b.toNat := by
  have hb : b.toNat < 2 ^ 8 := b.toNat_lt
  have hpow : 256 ^ i = 2 ^ (8 * i) := by rw [Nat.pow_mul]
  have hlt : b.toNat * 2 ^ (8 * i) < 2 ^ w :=
    calc b.toNat * 2 ^ (8 * i) < 2 ^ 8 * 2 ^ (8 * i) :=
          Nat.mul_lt_mul_of_pos_right hb (Nat.two_pow_pos _)
      _ = 2 ^ (8 * (i + 1)) := by rw [← Nat.pow_add, Nat.mul_add, Nat.add_comm]
      _ ≤ 2 ^ w := Nat.pow_le_pow_right (by decide) h
  have hb' : b.toNat < 2 ^ w := lt_of_lt_of_le hb (Nat.pow_le_pow_right (by decide) (by omega))
  rw [shiftedByte, BitVec.toNat_shiftLeft, BitVec.toNat_setWidth, UInt8.toNat_toBitVec,
    Nat.shiftLeft_eq, Nat.mod_eq_of_lt hb', Nat.mod_eq_of_lt hlt, hpow, mul_comm]

/-- **Putting together bytes with shifts** makes the little-endian number. -/
theorem toNat_orBytes {w : Nat} (f : Nat → UInt8) (h : 8 * k ≤ w) :
    (orBytes w f k).toNat = leNat ((List.range k).map f) := by
  induction k with
  | zero => rfl
  | succ k ih =>
    have hlt := leNat_lt ((List.range k).map f)
    have hpow : 256 ^ k = 2 ^ (8 * k) := by rw [Nat.pow_mul]
    rw [length_map, length_range, hpow] at hlt
    rw [orBytes, range_succ, foldl_append, foldl_cons, foldl_nil,
      BitVec.toNat_or, toNat_shiftedByte (f k) h]
    show (orBytes w f k).toNat ||| _ = _
    rw [ih (by omega), map_append, leNat_append, length_map, length_range, hpow,
      Nat.or_comm, ← Nat.two_pow_add_eq_or_of_lt hlt, add_comm]
    simp [leNat]

/-! ### Lengths -/

theorem length_flatMap_mono {β γ : Type} {f : α → List β} {g : α → List γ}
    (h : ∀ x, (g x).length ≤ (f x).length) (l : List α) :
    (l.flatMap g).length ≤ (l.flatMap f).length := by
  rw [length_flatMap, length_flatMap]
  exact sum_le_sum fun x _ => h x

theorem length_le_length_flatMap {β : Type} {f : α → List β} (h : ∀ x, 0 < (f x).length)
    (l : List α) : l.length ≤ (l.flatMap f).length := by
  simpa using length_flatMap_mono (g := fun x => [x]) h l

end Babelfish.Lib
