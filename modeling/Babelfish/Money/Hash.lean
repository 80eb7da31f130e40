import Babelfish.Lib.Bytes

/-!
# The hash operator family of `money`

The operator family `fixeddecimal_ops` declares `money` equal to integers of three widths and
registers a hash function for each of the four types.  A `money` value is hashed through its eight
stored bytes, which are those of the value times 10000, an integer through its own value.

* `declaredEqual_iff`: the cross-type operators declare equal what is the same number.
* `hash_agrees_iff_not_equal`: for which pairs the registered hashes agree with the operators.
-/

namespace Babelfish.Money

open Lib

/-! ### The cross-type equality operators -/

/-- An integer argument of the family, of type `smallint`, `int` or `bigint`. -/
inductive IntegerArg where
  | int2 (n : Int16)
  | int4 (n : Int32)
  | int8 (n : Int64)
deriving DecidableEq, Repr

def IntegerArg.toInt : IntegerArg → Int
  | .int2 n => n.toInt
  | .int4 n => n.toInt
  | .int8 n => n.toInt

/-- `FIXEDDECIMAL_MULTIPLIER`, a `long long`. -/
def multiplier64 : Int64 := 10000

/-- `FIXEDDECIMAL_MAX`, `INT64_MAX / FIXEDDECIMAL_MULTIPLIER` -/
def fixeddecimalMax : Int64 := 922337203685477

/-- `FIXEDDECIMAL_MIN`, `INT64_MIN / FIXEDDECIMAL_MULTIPLIER` -/
def fixeddecimalMin : Int64 := -922337203685477

def fixeddecimalInt2Eq (val1 : Int64) (val2 : Int16) : Bool :=
  val1 == val2.toInt64 * multiplier64

def fixeddecimalInt4Eq (val1 : Int64) (val2 : Int32) : Bool :=
  val1 == val2.toInt64 * multiplier64

def fixeddecimalInt8Eq (val1 val2 : Int64) : Bool :=
  if val2 > fixeddecimalMax then false
  else if val2 < fixeddecimalMin then false
  else val1 == val2 * multiplier64

def int2FixeddecimalEq (val1 : Int16) (val2 : Int64) : Bool :=
  val1.toInt64 * multiplier64 == val2

def int4FixeddecimalEq (val1 : Int32) (val2 : Int64) : Bool :=
  val1.toInt64 * multiplier64 == val2

def int8FixeddecimalEq (val1 val2 : Int64) : Bool :=
  if val1 > fixeddecimalMax then false
  else if val1 < fixeddecimalMin then false
  else val1 * multiplier64 == val2

def moneyEqInteger (m : Int64) : IntegerArg → Bool
  | .int2 n => fixeddecimalInt2Eq m n
  | .int4 n => fixeddecimalInt4Eq m n
  | .int8 n => fixeddecimalInt8Eq m n

def integerEqMoney (n : IntegerArg) (m : Int64) : Bool :=
  match n with
  | .int2 n => int2FixeddecimalEq n m
  | .int4 n => int4FixeddecimalEq n m
  | .int8 n => int8FixeddecimalEq n m

/-! ### The registered hash functions -/

/-- `hashint2`, `hashint4` and `hashint8` of PostgreSQL, which agree on equal integers. -/
structure IntegerHashes where
  hashint2 : Int16 → UInt32
  hashint4 : Int32 → UInt32
  hashint8 : Int64 → UInt32
  agree2 : ∀ n : Int16, hashint2 n = hashint8 n.toInt64
  agree4 : ∀ n : Int32, hashint4 n = hashint8 n.toInt64

/-- The hash function the family registers for the type of the integer. -/
def IntegerHashes.hash (hs : IntegerHashes) : IntegerArg → UInt32
  | .int2 n => hs.hashint2 n
  | .int4 n => hs.hashint4 n
  | .int8 n => hs.hashint8 n

/-- `fixeddecimal_hash`.  `hash_any` is a function of PostgreSQL. -/
def fixeddecimalHash (hash_any : List UInt8 → UInt32) (val : Int64) : UInt32 :=
  hash_any (leBytes 8 val.toUInt64.toNat)

/-! ### Equality is that of the numbers -/

variable {m : Int64}

theorem beq_mul_iff {k : Int64} (hlo : -922337203685477 ≤ k.toInt)
    (hhi : k.toInt ≤ 922337203685477) :
    (m == k * multiplier64) = true ↔ m.toInt = k.toInt * 10000 := by
  have hmul : (k * multiplier64).toInt = k.toInt * 10000 := by
    rw [Int64.toInt_mul]
    exact Int.bmod_eq_of_le (by simp [multiplier64]; omega) (by simp [multiplier64]; omega)
  rw [beq_iff_eq, ← Int64.toInt_inj, hmul]

theorem int8Eq_iff {k : Int64} : fixeddecimalInt8Eq m k = true ↔ m.toInt = k.toInt * 10000 := by
  have hle := m.toInt_lt
  have hge := m.le_toInt
  have hmax : fixeddecimalMax.toInt = 922337203685477 := by decide
  have hmin : fixeddecimalMin.toInt = -922337203685477 := by decide
  unfold fixeddecimalInt8Eq
  simp only [gt_iff_lt, Int64.lt_iff_toInt_lt]
  split_ifs
  · rw [false_iff]
    omega
  · rw [false_iff]
    omega
  · exact beq_mul_iff (by omega) (by omega)

variable {n : IntegerArg}

/-- **The operators declare equal what is the same number**: with the money value on the left. -/
theorem declaredEqual_iff : moneyEqInteger m n = true ↔ m.toInt = n.toInt * 10000 := by
  cases n with
  | int2 n | int4 n =>
    have hle := n.toInt_lt
    have hge := n.le_toInt
    exact (beq_mul_iff (by simp; omega) (by simp; omega)).trans (by simp [IntegerArg.toInt])
  | int8 n => exact int8Eq_iff

theorem integerEqMoney_eq : integerEqMoney n m = moneyEqInteger m n := by
  cases n with
  | int2 n | int4 n => exact BEq.comm
  | int8 n =>
    simp only [integerEqMoney, moneyEqInteger, int8FixeddecimalEq, fixeddecimalInt8Eq]
    rw [BEq.comm]

/-! ### The hashes -/

/-- `hash_uint32` of PostgreSQL: `hash_any` of the four bytes. -/
def hashUint32 (hash_any : List UInt8 → UInt32) (k : UInt32) : UInt32 :=
  hash_any (leBytes 4 k.toNat)

/-- The `lohalf` of `hashint8`, into which it folds the high half of the integer so that equal
integers of the three types have equal codes. -/
def foldedHalf (val : Int64) : UInt32 :=
  let hihalf := UInt32.ofInt (val.toInt / 2 ^ 32)
  UInt32.ofInt val.toInt ^^^ if 0 ≤ val then hihalf else ~~~hihalf

theorem foldedHalf_eq {val : Int64} (hlo : -2 ^ 31 ≤ val.toInt) (hhi : val.toInt < 2 ^ 31) :
    foldedHalf val = UInt32.ofInt val.toInt := by
  unfold foldedHalf
  simp only [Int64.le_iff_toInt_le, Int64.toInt_zero]
  split
  · rw [show val.toInt / 2 ^ 32 = 0 by omega]
    exact UInt32.xor_zero
  · rw [show val.toInt / 2 ^ 32 = -1 by omega]
    exact UInt32.xor_zero

/-- The integer hashes as PostgreSQL documents them. -/
def IntegerHashes.documented (hash_any : List UInt8 → UInt32) : IntegerHashes where
  hashint2 n := hashUint32 hash_any (UInt32.ofInt n.toInt)
  hashint4 n := hashUint32 hash_any (UInt32.ofInt n.toInt)
  hashint8 n := hashUint32 hash_any (foldedHalf n)
  agree2 n := by
    have hle := n.toInt_lt
    have hge := n.le_toInt
    rw [foldedHalf_eq (by simp; omega) (by simp; omega), Int16.toInt_toInt64]
  agree4 n := by
    have hle := n.toInt_lt
    have hge := n.le_toInt
    rw [foldedHalf_eq (by simp; omega) (by simp; omega), Int32.toInt_toInt64]

open IntegerHashes (documented)

/-- A hash of the length tells the eight bytes of a money value from the four of an integer. -/
theorem codes_differ (m : Int64) (n : IntegerArg) :
    fixeddecimalHash (fun image => UInt32.ofNat image.length) m ≠
      (documented fun image => UInt32.ofNat image.length).hash n := by
  cases n <;>
    simp [fixeddecimalHash, IntegerHashes.hash, documented, hashUint32, length_leBytes]

/-- **The hashes of no equal pair agree.**  Whatever `hash_any` and the integer hashes are, a money
value and an integer have equal codes when one of the operators declares them equal: this holds of
a pair only because the operators do not. -/
theorem hash_agrees_iff_not_equal (m : Int64) (n : IntegerArg) :
    (∀ (hash_any : List UInt8 → UInt32) (hs : IntegerHashes),
      (moneyEqInteger m n = true ∨ integerEqMoney n m = true) →
        fixeddecimalHash hash_any m = hs.hash n) ↔
    m.toInt ≠ n.toInt * 10000 := by
  rw [integerEqMoney_eq, or_self, declaredEqual_iff]
  exact ⟨fun h heq => codes_differ m n (h _ _ heq), fun hne _ _ heq => absurd heq hne⟩

/-- The same with the integer hashes taken from the same `hash_any`. -/
theorem documented_agrees_iff_not_equal (m : Int64) (n : IntegerArg) :
    (∀ hash_any : List UInt8 → UInt32,
      (moneyEqInteger m n = true ∨ integerEqMoney n m = true) →
        fixeddecimalHash hash_any m = (documented hash_any).hash n) ↔
    m.toInt ≠ n.toInt * 10000 := by
  rw [integerEqMoney_eq, or_self, declaredEqual_iff]
  exact ⟨fun h heq => codes_differ m n (h _ heq), fun hne _ heq => absurd heq hne⟩

/-- One unit of money, stored as 10000, and the integer 1. -/
theorem one_money_one_int :
    moneyEqInteger 10000 (.int4 1) = true ∧
      ∃ hash_any : List UInt8 → UInt32,
        fixeddecimalHash hash_any 10000 ≠ (documented hash_any).hash (.int4 1) :=
  ⟨by decide, _, codes_differ 10000 (.int4 1)⟩

end Babelfish.Money
