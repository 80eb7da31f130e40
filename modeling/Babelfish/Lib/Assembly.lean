import Mathlib.Data.List.Basic

/-!
# Assembly listings

A listing is a list of instructions and label marks.  `instrs` is the code, `marks`
gives each label the address of the instruction that follows it.  `At P pos seg`
says that the part `seg` of the listing `P` starts at address `pos`; it splits along
`seg`, and a label mark or an instruction at its head is read off `P`.

* `At.append`, `At.instr`, `At.mark`: taking a placed part apart.
* `Every`: a property of all instructions of a part, with their addresses.
* `Every.get`: such a property at one address.
-/

namespace Babelfish.Lib.Assembly

/-- One line of a listing. -/
inductive Item (L I : Type) where
  | mark (l : L)
  | instr (i : I)
deriving DecidableEq, Repr

abbrev Listing (L I : Type) := List (Item L I)

variable {L I : Type}
variable {pos : Nat} {P r : Listing L I} {l : L} {i : I} {φ : Nat → I → Prop}

def instrs : Listing L I → List I
  | [] => []
  | .mark _ :: r => instrs r
  | .instr i :: r => i :: instrs r

def size (a : Listing L I) : Nat := (instrs a).length

/-- The labels of a listing that starts at `pos`, with their addresses. -/
def marks (pos : Nat) : Listing L I → List (L × Nat)
  | [] => []
  | .mark l :: r => (l, pos) :: marks pos r
  | .instr _ :: r => marks (pos + 1) r

@[simp] theorem instrs_nil : instrs ([] : Listing L I) = [] := rfl

@[simp] theorem instrs_mark : instrs (.mark l :: r) = instrs r := rfl

@[simp] theorem instrs_instr : instrs (.instr i :: r) = i :: instrs r := rfl

@[simp] theorem instrs_append (a b : Listing L I) : instrs (a ++ b) = instrs a ++ instrs b := by
  induction a with
  | nil => rfl
  | cons x a ih => cases x <;> simp [ih]

@[simp] theorem size_nil : size ([] : Listing L I) = 0 := rfl

@[simp] theorem size_mark : size (.mark l :: r) = size r := rfl

@[simp] theorem size_instr : size (.instr i :: r) = size r + 1 := rfl

@[simp] theorem size_append (a b : Listing L I) : size (a ++ b) = size a + size b := by
  simp [size]

@[simp] theorem marks_nil : marks pos ([] : Listing L I) = [] := rfl

@[simp] theorem marks_mark : marks pos (.mark l :: r) = (l, pos) :: marks pos r := rfl

@[simp] theorem marks_instr : marks pos (.instr i :: r) = marks (pos + 1) r := rfl

theorem marks_append (a b : Listing L I) :
    marks pos (a ++ b) = marks pos a ++ marks (pos + size a) b := by
  induction a generalizing pos with
  | nil => rfl
  | cons x a ih =>
    cases x with
    | mark l => simp [ih]
    | instr i => simp [ih, Nat.add_assoc, Nat.add_comm 1]

theorem marks_map_fst (pos pos' : Nat) (a : Listing L I) :
    (marks pos a).map Prod.fst = (marks pos' a).map Prod.fst := by
  induction a generalizing pos pos' with
  | nil => rfl
  | cons x a ih =>
    cases x with
    | mark l => simp [ih pos pos']
    | instr i => exact ih _ _

/-! ### Placed parts -/

/-- The part `seg` of `P` starts at address `pos`. -/
def At (P : Listing L I) (pos : Nat) (seg : Listing L I) : Prop :=
  ∃ pre post, P = pre ++ (seg ++ post) ∧ size pre = pos

theorem At.self (P : Listing L I) : At P 0 P := ⟨[], [], by simp, rfl⟩

theorem at_nil {P : Listing L I} (h : pos ≤ size P) : At P pos [] := by
  induction P generalizing pos with
  | nil =>
    rw [size_nil] at h
    exact ⟨[], [], rfl, by rw [size_nil]; omega⟩
  | cons x P ih =>
    cases x with
    | mark l =>
      obtain ⟨pre, post, hP, hpos⟩ := ih h
      exact ⟨.mark l :: pre, post, by rw [hP]; rfl, hpos⟩
    | instr i =>
      cases pos with
      | zero => exact ⟨[], .instr i :: P, rfl, rfl⟩
      | succ pos =>
        rw [size_instr] at h
        obtain ⟨pre, post, hP, hpos⟩ := ih (show pos ≤ size P by omega)
        exact ⟨.instr i :: pre, post, by rw [hP]; rfl, by rw [size_instr, hpos]⟩

theorem mark_le {q : Nat} {a : Listing L I} (h : (l, q) ∈ marks pos a) : q ≤ pos + size a := by
  induction a generalizing pos with
  | nil => simp at h
  | cons x a ih =>
    cases x with
    | mark l' =>
      rcases List.mem_cons.mp h with h | h
      · rw [(Prod.mk.inj h).2]; omega
      · exact ih h
    | instr i =>
      have := ih h
      rw [size_instr]
      omega

theorem At.append {a b : Listing L I} (h : At P pos (a ++ b)) :
    At P pos a ∧ At P (pos + size a) b := by
  obtain ⟨pre, post, hP, hpos⟩ := h
  refine ⟨⟨pre, b ++ post, by simp [hP], hpos⟩, pre ++ a, post, by simp [hP], ?_⟩
  rw [size_append, hpos]

theorem At.mark (h : At P pos (.mark l :: r)) : (l, pos) ∈ marks 0 P ∧ At P pos r := by
  obtain ⟨pre, post, hP, hpos⟩ := h
  refine ⟨?_, pre ++ [.mark l], post, by simp [hP], by simp [hpos]⟩
  rw [hP, marks_append, hpos]
  simp

theorem At.instr (h : At P pos (.instr i :: r)) : (instrs P)[pos]? = some i ∧ At P (pos + 1) r := by
  obtain ⟨pre, post, hP, hpos⟩ := h
  refine ⟨?_, pre ++ [.instr i], post, by simp [hP], by simp [hpos]⟩
  rw [hP, instrs_append, ← hpos, size, List.getElem?_append_right (Nat.le_refl _)]
  simp

/-! ### Properties of all instructions -/

/-- Every instruction of the part, which starts at `pos`, satisfies `φ` at its address. -/
def Every (φ : Nat → I → Prop) (pos : Nat) : Listing L I → Prop
  | [] => True
  | .mark _ :: r => Every φ pos r
  | .instr i :: r => φ pos i ∧ Every φ (pos + 1) r

section

variable (φ : Nat → I → Prop) (pos : Nat)

@[simp] theorem every_nil : Every φ pos ([] : Listing L I) := trivial

@[simp] theorem every_mark : Every φ pos (.mark l :: r) ↔ Every φ pos r := Iff.rfl

@[simp] theorem every_instr : Every φ pos (.instr i :: r) ↔ φ pos i ∧ Every φ (pos + 1) r := Iff.rfl

@[simp] theorem every_append (a b : Listing L I) :
    Every φ pos (a ++ b) ↔ Every φ pos a ∧ Every φ (pos + size a) b := by
  induction a generalizing pos with
  | nil => simp
  | cons x a ih =>
    cases x with
    | mark l => simp [ih]
    | instr i => simp [ih, and_assoc, Nat.add_assoc, Nat.add_comm 1]

end

theorem Every.append {a b : Listing L I} (ha : Every φ pos a) (hb : Every φ (pos + size a) b) :
    Every φ pos (a ++ b) :=
  (every_append φ pos a b).mpr ⟨ha, hb⟩

theorem Every.get (a : Listing L I) (pos k : Nat) (he : Every φ pos a)
    (h : (instrs a)[k]? = some i) : φ (pos + k) i := by
  induction a generalizing pos k with
  | nil => simp at h
  | cons x a ih =>
    cases x with
    | mark l => exact ih pos k he h
    | instr j =>
      cases k with
      | zero =>
        rw [instrs_instr, List.getElem?_cons_zero, Option.some.injEq] at h
        exact h ▸ he.1
      | succ k =>
        have := ih (pos + 1) k he.2 h
        rwa [show pos + 1 + k = pos + (k + 1) by omega] at this

end Babelfish.Lib.Assembly
