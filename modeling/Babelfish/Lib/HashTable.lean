import Mathlib.Data.List.Nodup

/-!
# Hash tables

A hash table is its lookup function.  `enter` is `hash_search` with
`HASH_ENTER` followed by a store into the entry, `enterAll` enters a list of
bindings in order.  A table built by entering bindings whose keys do not repeat
looks every one of them up again (`enterAll_of_mem`), and has nothing else in it
(`enterAll_of_notMem`, `mem_of_enterAll`).
-/

namespace Babelfish.Lib

abbrev HTab (κ ν : Type) := κ → Option ν

section

variable {κ ν : Type} [DecidableEq κ] {k k' : κ} {v : ν}

def HTab.empty : HTab κ ν := fun _ => none

variable (m : HTab κ ν)

def enter (k : κ) (v : ν) : HTab κ ν := fun k' => if k' = k then some v else m k'

/-- `hash_search` with `HASH_REMOVE`. -/
def remove (k : κ) : HTab κ ν := fun k' => if k' = k then none else m k'

def enterAll (m : HTab κ ν) : List (κ × ν) → HTab κ ν
  | [] => m
  | p :: l => enterAll (enter m p.1 p.2) l

variable {m} {l : List (κ × ν)}

@[simp] theorem enterAll_nil : enterAll m [] = m := rfl

@[simp] theorem enterAll_cons (p : κ × ν) :
    enterAll m (p :: l) = enterAll (enter m p.1 p.2) l := rfl

theorem enterAll_append (l₁ l₂ : List (κ × ν)) :
    enterAll m (l₁ ++ l₂) = enterAll (enterAll m l₁) l₂ := by
  induction l₁ generalizing m with
  | nil => rfl
  | cons p l ih => exact ih

theorem enter_self : enter m k v k = some v := if_pos rfl

theorem enter_ne (h : k' ≠ k) : enter m k v k' = m k' :=
  if_neg h

theorem enter_eq_some {w : ν} :
    enter m k v k' = some w ↔ (k' = k ∧ w = v) ∨ (k' ≠ k ∧ m k' = some w) := by
  by_cases h : k' = k
  · rw [h, enter_self, Option.some.injEq]
    simp [eq_comm]
  · rw [enter_ne h]
    simp [h]

theorem remove_self : remove m k k = none := if_pos rfl

theorem remove_ne (h : k' ≠ k) : remove m k k' = m k' := if_neg h

theorem remove_eq_some {w : ν} :
    remove m k k' = some w ↔ k' ≠ k ∧ m k' = some w := by
  by_cases h : k' = k
  · rw [h, remove_self]
    simp
  · rw [remove_ne h]
    simp [h]

theorem enterAll_of_notMem (h : k ∉ l.map Prod.fst) :
    enterAll m l k = m k := by
  induction l generalizing m with
  | nil => rfl
  | cons p l ih =>
    rw [List.map_cons, List.mem_cons, not_or] at h
    rw [enterAll_cons, ih h.2, enter_ne h.1]

theorem enterAll_of_mem (hn : (l.map Prod.fst).Nodup) (h : (k, v) ∈ l) :
    enterAll m l k = some v := by
  induction l generalizing m with
  | nil => simp at h
  | cons p l ih =>
    rw [List.map_cons, List.nodup_cons] at hn
    rw [enterAll_cons]
    rcases List.mem_cons.mp h with rfl | h'
    · rw [enterAll_of_notMem hn.1, enter_self]
    · exact ih hn.2 h'

theorem mem_of_enterAll (h : enterAll m l k = some v) :
    (k, v) ∈ l ∨ m k = some v := by
  induction l generalizing m with
  | nil => exact .inr h
  | cons p l ih =>
    rcases ih h with h' | h'
    · exact .inl (List.mem_cons_of_mem _ h')
    · by_cases hk : k = p.1
      · subst hk
        rw [enter_self, Option.some.injEq] at h'
        exact .inl (by rw [← h']; exact List.mem_cons_self)
      · rw [enter_ne hk] at h'
        exact .inr h'

theorem enterAll_empty_iff (hn : (l.map Prod.fst).Nodup) :
    enterAll HTab.empty l k = some v ↔ (k, v) ∈ l :=
  ⟨fun h => (mem_of_enterAll h).resolve_right nofun, enterAll_of_mem hn⟩

end

end Babelfish.Lib
