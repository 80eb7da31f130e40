import Mathlib.Logic.Basic

/-!
# Computations that may fail

The inversion rule for a sequence of steps in `Except`: if the whole succeeded
then so did each step; a check; and loops over a list.
-/

namespace Babelfish.Lib

variable {α β ε : Type} {x : Except ε α} {f : α → Except ε β}

theorem bind_eq_ok {b : β} : x >>= f = .ok b ↔ ∃ a, x = .ok a ∧ f a = .ok b := by
  cases x with
  | error e | ok a => simp [bind, Except.bind]

theorem bind_ne_ok (h : ∀ a, x ≠ .ok a) : ∀ b, x >>= f ≠ .ok b := by
  intro b hb
  obtain ⟨a, ha, -⟩ := bind_eq_ok.mp hb
  exact h a ha

/-- A result up to a failing case, and the step after it. -/
theorem ite_bind_ne_ok {c p q : Prop} [Decidable c]
    (h : if c then ∀ a, x ≠ .ok a else p) (hq : p → q) : if c then ∀ b, x >>= f ≠ .ok b else q := by
  by_cases hc : c
  · rw [if_pos hc] at h ⊢
    exact bind_ne_ok h
  · rw [if_neg hc] at h ⊢
    exact hq h

theorem ok_bind (a : α) (f : α → Except ε β) : (Except.ok a >>= f) = f a := rfl

theorem ite_error_eq_ok {c : Prop} [Decidable c] {e : ε} {y : α} :
    (if c then Except.error e else x) = .ok y ↔ ¬c ∧ x = .ok y := by
  split <;> simp [*]

theorem foldlM_ne_ok {g : β → α → Except ε β} {l : List α} {a : α} (ha : a ∈ l)
    (hg : ∀ b c, g b a ≠ .ok c) : ∀ b c, l.foldlM g b ≠ .ok c := by
  induction l with
  | nil => cases ha
  | cons d l ih =>
    intro b c h
    rw [List.foldlM_cons] at h
    obtain ⟨b', hb', hl⟩ := bind_eq_ok.mp h
    rcases List.mem_cons.mp ha with rfl | ha
    · exact hg _ _ hb'
    · exact ih ha b' c hl

theorem mapM_ok {g : α → β} {l : List α} (h : ∀ a ∈ l, f a = .ok (g a)) :
    l.mapM f = .ok (l.map g) := by
  induction l with
  | nil => rfl
  | cons a l ih =>
    obtain ⟨ha, hl⟩ := List.forall_mem_cons.mp h
    rw [List.mapM_cons, ha, ok_bind, ih hl]
    rfl

end Babelfish.Lib
