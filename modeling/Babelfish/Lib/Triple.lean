/-!
# Pre- and postconditions for code with a state and errors

`Triple P p Q E`: started in a state that satisfies `P`, the computation `p` either returns a
value in a state that satisfies `Q`, or fails in a state that satisfies `E`.

* `Triple.bind`, `Triple.pure`, `Triple.get`: one rule for each construct.
* `Triple.pre`, `Triple.assume`: a stronger precondition, and a fact that does not depend on the
  state.
-/

namespace Babelfish.Lib

variable {ε σ α β : Type}

/-- **Total correctness with errors.** -/
def Triple (P : σ → Prop) (p : EStateM ε σ α) (Q : α → σ → Prop) (E : ε → σ → Prop) : Prop :=
  ∀ s, P s → match p s with
    | .ok a t => Q a t
    | .error e t => E e t

namespace Triple

variable {P P' : σ → Prop} {p : EStateM ε σ α} {Q Q' : α → σ → Prop} {E : ε → σ → Prop}

theorem pure {a : α} (h : ∀ s, P s → Q a s) : Triple P (Pure.pure a : EStateM ε σ α) Q E :=
  fun s hs => h s hs

theorem bind {f : α → EStateM ε σ β} {R : β → σ → Prop} (hp : Triple P p Q E)
    (hf : ∀ a, Triple (Q a) (f a) R E) : Triple P (p >>= f) R E := by
  intro s hs
  have h := hp s hs
  show match EStateM.bind p f s with | .ok a t => R a t | .error e t => E e t
  unfold EStateM.bind
  cases hps : p s with
  | ok a t =>
    rw [hps] at h
    exact hf a t h
  | error e t =>
    rwa [hps] at h

theorem get {f : σ → EStateM ε σ α} (h : ∀ s, P s → Triple (fun t => t = s) (f s) Q E) :
    Triple P (MonadState.get >>= f) Q E :=
  fun s hs => h s hs s rfl

theorem mono (h : Triple P p Q E) (hP : ∀ s, P' s → P s) (hQ : ∀ a s, Q a s → Q' a s) :
    Triple P' p Q' E := by
  intro s hs
  have h' := h s (hP s hs)
  cases hps : p s with
  | ok a t =>
    rw [hps] at h'
    exact hQ a t h'
  | error e t =>
    rw [hps] at h'
    exact h'

theorem pre (h : Triple P p Q E) (hP : ∀ s, P' s → P s) : Triple P' p Q E :=
  h.mono hP fun _ _ hq => hq

/-- A fact that follows from the precondition may be assumed. -/
theorem assume {F : Prop} (hF : ∀ s, P s → F) (h : F → Triple P p Q E) : Triple P p Q E :=
  fun s hs => h (hF s hs) s hs

theorem run (h : Triple P p Q E) {s : σ} (hs : P s) :
    (∃ a t, p s = .ok a t ∧ Q a t) ∨ ∃ e t, p s = .error e t ∧ E e t := by
  have h' := h s hs
  cases hps : p s with
  | ok a t =>
    rw [hps] at h'
    exact .inl ⟨a, t, rfl, h'⟩
  | error e t =>
    rw [hps] at h'
    exact .inr ⟨e, t, rfl, h'⟩

end Triple

end Babelfish.Lib
