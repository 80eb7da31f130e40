import Babelfish.Lib.Bytes

/-!
# Readers of binary formats

A reader takes a value from the front of a sequence of bytes and leaves the rest.  `Reads r xs a`
says that `r` takes `a` from `xs`, whatever follows; the rules put readers together as the format
puts its parts together.

* `takeBytes`, `readWord`, `readMany`: the readers that formats are made of.
* `Reads.bind`, `Reads.readMany`: the rules for parts that follow each other.
-/

namespace Babelfish.Lib

abbrev ByteReader (α : Type) := StateT (List UInt8) Option α

variable {α β : Type}

/-- A reader that never succeeds. -/
def refuse : ByteReader α :=
  fun _ => none

def takeBytes (n : Nat) : ByteReader (List UInt8) :=
  fun bs => if n ≤ bs.length then some (bs.take n, bs.drop n) else none

/-- A number of `k` bytes, the lowest first. -/
def readWord (k : Nat) : ByteReader Nat := do
  let bs ← takeBytes k
  return leNat bs

/-- `n` values, one after the other. -/
def readMany (r : ByteReader α) : Nat → ByteReader (List α)
  | 0 => pure []
  | n + 1 => do
    let a ← r
    let as ← readMany r n
    return a :: as

/-- **The reader takes `a` from `xs`**, whatever follows. -/
def Reads (r : ByteReader α) (xs : List UInt8) (a : α) : Prop :=
  ∀ rest, r (xs ++ rest) = some (a, rest)

namespace Reads

variable {r : ByteReader α} {xs ys : List UInt8} {a : α} {b : β} {f : α → ByteReader β}

theorem pure (a : α) : Reads (Pure.pure a) [] a :=
  fun _ => rfl

theorem bind (h : Reads r xs a) (hf : Reads (f a) ys b) : Reads (r >>= f) (xs ++ ys) b := by
  intro rest
  show (r (xs ++ ys ++ rest)).bind (fun p => f p.1 p.2) = _
  rw [List.append_assoc, h (ys ++ rest)]
  exact hf rest

theorem map (h : Reads r xs a) (hf : Reads (f a) [] b) : Reads (r >>= f) xs b := by
  have hbind := h.bind hf
  rwa [List.append_nil] at hbind

theorem takeBytes (xs : List UInt8) : Reads (Lib.takeBytes xs.length) xs xs := by
  intro rest
  simp [Lib.takeBytes]

theorem readWord {k n : Nat} (hn : n < 256 ^ k) : Reads (Lib.readWord k) (leBytes k n) n := by
  have htake := Reads.takeBytes (leBytes k n)
  rw [length_leBytes] at htake
  refine htake.map fun rest => ?_
  show some (leNat (leBytes k n), rest) = some (n, rest)
  rw [leNat_leBytes, Nat.mod_eq_of_lt hn]

theorem readMany {write : α → List UInt8} {l : List α} (h : ∀ a ∈ l, Reads r (write a) a) :
    Reads (Lib.readMany r l.length) (l.flatMap write) l := by
  induction l with
  | nil => exact Reads.pure []
  | cons a l ih =>
    rw [List.flatMap_cons]
    refine (h a List.mem_cons_self).bind ?_
    exact (ih (List.forall_mem_cons.mp h).2).map (Reads.pure _)

end Reads

end Babelfish.Lib
