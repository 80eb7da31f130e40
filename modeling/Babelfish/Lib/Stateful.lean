import Babelfish.Lib.Loop

/-!
# Total correctness with a state

A C function that reads and changes variables is a function of a state into `Outcome`.
`Yields P p a Q` says that `p`, started in a state that satisfies `P`, returns the value `a` in a
state that satisfies `Q`.

* `Yields.bind`, `Yields.pure`, `Yields.get`: one rule for each construct.
* `Yields.pre`: weakening.

`Keeps P E p` is partial correctness: `p` keeps the invariant `P`, and fails only with what `E`
allows.

* `Keeps.bind`, `Keeps.pure`, `Keeps.ite`: one instance for each construct.
-/

namespace Babelfish.Lib

variable {ε σ α β : Type}

/-- **From any state in `P`, the computation returns `a` in a state in `Q`.** -/
def Yields (P : σ → Prop) (p : StateT σ (Outcome ε) α) (a : α) (Q : σ → Prop) : Prop :=
  ∀ s, P s → Gives (p s) fun r => r.1 = a ∧ Q r.2

namespace Yields

variable {P P' Q R : σ → Prop} {p : StateT σ (Outcome ε) α} {a : α} {b : β}

theorem pure {a : α} : Yields P (Pure.pure a : StateT σ (Outcome ε) α) a P :=
  fun _ hs => Gives.ok ⟨rfl, hs⟩

theorem bind {f : α → StateT σ (Outcome ε) β} (hp : Yields P p a Q) (hf : Yields Q (f a) b R) :
    Yields P (p >>= f) b R := by
  intro s hs
  refine Gives.bind (hp s hs) ?_
  rintro ⟨a', t⟩ ⟨rfl, ht⟩
  exact hf t ht

theorem get {f : σ → StateT σ (Outcome ε) β} (h : ∀ s, P s → Yields (fun t => t = s) (f s) b Q) :
    Yields P (MonadState.get >>= f) b Q :=
  fun s hs => h s hs s rfl

theorem pre (h : Yields P p a Q) (hP : ∀ s, P' s → P s) : Yields P' p a Q :=
  fun s hs => h s (hP s hs)

end Yields

/-- **From any state in `P`, the computation returns in a state in `P`, fails with an `e` in `E`, or
does not return.**  A class, so that it is found by following the program. -/
class Keeps (P : σ → Prop) (E : ε → Prop) (p : StateT σ (Outcome ε) α) : Prop where
  keeps : ∀ s, P s → (∀ r, p s = .ok r → P r.2) ∧ ∀ e, p s = .error e → E e

namespace Keeps

variable {P : σ → Prop} {E : ε → Prop} {p q : StateT σ (Outcome ε) α}

theorem of_ok {g : σ → α × σ} (h : ∀ s, P s → P (g s).2) : Keeps P E fun s => .ok (g s) :=
  ⟨fun s hs => ⟨fun _ hr => Outcome.ok.inj hr ▸ h s hs, nofun⟩⟩

instance pure {a : α} : Keeps P E (Pure.pure a : StateT σ (Outcome ε) α) := of_ok fun _ hs => hs

instance get : Keeps P E (MonadState.get : StateT σ (Outcome ε) σ) := of_ok fun _ hs => hs

instance timeout : Keeps P E (fun _ => .timeout : StateT σ (Outcome ε) α) :=
  ⟨fun _ _ => ⟨nofun, nofun⟩⟩

instance bind {f : α → StateT σ (Outcome ε) β} [hp : Keeps P E p] [hf : ∀ a, Keeps P E (f a)] :
    Keeps P E (p >>= f) := by
  refine ⟨fun s hs => ?_⟩
  obtain ⟨hok, herror⟩ := hp.keeps s hs
  change (∀ r, (p s >>= fun r => f r.1 r.2) = _ → _) ∧ ∀ e, (p s >>= fun r => f r.1 r.2) = _ → _
  cases hrun : p s with
  | ok r => exact (hf r.1).keeps r.2 (hok r hrun)
  | error e => exact ⟨nofun, fun _ he => Outcome.error.inj he ▸ herror e hrun⟩
  | timeout => exact ⟨nofun, nofun⟩

instance ite {c : Prop} [Decidable c] [hp : Keeps P E p] [hq : Keeps P E q] :
    Keeps P E (if c then p else q) := by
  split
  · exact hp
  · exact hq

end Keeps

end Babelfish.Lib
