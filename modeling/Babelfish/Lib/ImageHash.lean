import Mathlib.Logic.Nontrivial.Basic

/-!
# Hashes of images

A hash operator class needs that equal values have equal hashes.  When the hash is computed from
the bytes of a value by a function about which nothing is known, two values have equal hashes for
sure exactly when they have the same bytes.

* `forall_hash_eq_iff`: for one pair of images.
* `hash_respects_iff`: for a pair of values and an equality that may identify more than the images.
-/

namespace Babelfish.Lib

variable {α β γ : Type}

/-- **All functions agree on two images only when these are the same.** -/
theorem forall_hash_eq_iff [Nontrivial γ] {x y : β} :
    (∀ hash : β → γ, hash x = hash y) ↔ x = y := by
  constructor
  · intro h
    obtain ⟨c, d, hcd⟩ := exists_pair_ne γ
    by_contra hne
    classical
    -- the function that tells `x` from everything else
    have hsep := h fun z => if z = x then c else d
    rw [if_pos rfl, if_neg (Ne.symm hne)] at hsep
    exact hcd hsep
  · intro h hash
    rw [h]

/-- **The law of a hash operator class, for a pair.** -/
theorem hash_respects_iff [Nontrivial γ] (image : α → β) (eq : Prop) (a b : α) :
    (∀ hash : β → γ, eq → hash (image a) = hash (image b)) ↔ (eq → image a = image b) := by
  constructor
  · intro h heq
    exact forall_hash_eq_iff.mp fun hash => h hash heq
  · intro h hash heq
    rw [h heq]

end Babelfish.Lib
