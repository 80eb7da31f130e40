import Mathlib.Data.List.Infix

/-!
# Deterministic machines

A machine is a step function `σ → Option σ` that gives nothing when it has stopped.
`Reaches` are its runs, `Stops` the runs that end.

* `Reaches.invariant`: what holds at first and is kept by every step holds throughout.
* `Simulation`: each step of one machine is matched by some steps of another, or by
  none while a measure of the first goes down.
* `Simulation.sameRuns`: then both show the same events, and stop with the same result.
-/

namespace Babelfish.Lib

section

variable {σ : Type} {step : σ → Option σ} {a b c : σ}

/-- The state after `n` steps. -/
def after (step : σ → Option σ) : Nat → σ → Option σ
  | 0, a => some a
  | n + 1, a => (step a).bind (after step n)

/-- Some number of steps leads from `a` to `b`. -/
def Reaches (step : σ → Option σ) (a b : σ) : Prop := ∃ n, after step n a = some b

/-- The run from `a` ends in `b`. -/
def Stops (step : σ → Option σ) (a b : σ) : Prop := Reaches step a b ∧ step b = none

theorem after_add (m n : Nat) (a : σ) :
    after step (m + n) a = (after step m a).bind (after step n) := by
  induction m generalizing a with
  | zero => rw [Nat.zero_add]; rfl
  | succ m ih =>
    rw [Nat.add_right_comm]
    cases hs : step a with
    | none => simp [after, hs]
    | some a' => simp [after, hs, ih]

theorem after_one (h : step a = some b) : after step 1 a = some b := by simp [after, h]

theorem after_trans {m n : Nat} (h : after step m a = some b) (h' : after step n b = some c) :
    after step (m + n) a = some c := by rw [after_add, h]; exact h'

theorem Reaches.refl (a : σ) : Reaches step a a := ⟨0, rfl⟩

theorem Reaches.trans (h : Reaches step a b) (h' : Reaches step b c) : Reaches step a c := by
  obtain ⟨m, hm⟩ := h
  obtain ⟨n, hn⟩ := h'
  exact ⟨m + n, after_trans hm hn⟩

theorem Reaches.one (h : step a = some b) : Reaches step a b := ⟨1, after_one h⟩

theorem Reaches.head (h : step a = some b) (h' : Reaches step b c) : Reaches step a c :=
  (Reaches.one h).trans h'

theorem Reaches.invariant {I : σ → Prop} (hstep : ∀ s s', I s → step s = some s' → I s')
    (ha : I a) (h : Reaches step a b) : I b := by
  obtain ⟨n, hn⟩ := h
  induction n generalizing a with
  | zero => exact Option.some.inj hn ▸ ha
  | succ n ih =>
    cases hs : step a with
    | none => simp [after, hs] at hn
    | some a' => exact ih (hstep a a' ha hs) (by simpa [after, hs] using hn)

theorem after_of_stop {n : Nat} (hb : step b = none) (h : after step n b = some c) :
    n = 0 ∧ c = b := by
  cases n with
  | zero => exact ⟨rfl, (Option.some.inj h).symm⟩
  | succ n => simp [after, hb] at h

theorem after_le {m n : Nat} (h : after step m a = some b) (h' : after step n a = some c)
    (hmn : m ≤ n) : after step (n - m) b = some c := by
  rw [← Nat.add_sub_cancel' hmn, after_add, h] at h'
  exact h'

end

/-! ### Simulation -/

section

variable {σ τ ε ρ : Type}

/-- Two machines, each with the events shown so far and the result of a stopped state,
show the same events and stop with the same events and result. -/
structure SameRuns (step₁ : σ → Option σ) (obs₁ : σ → List ε) (res₁ : σ → ρ) (a : σ)
    (step₂ : τ → Option τ) (obs₂ : τ → List ε) (res₂ : τ → ρ) (b : τ) : Prop where
  events₁ : ∀ a', Reaches step₁ a a' → ∃ b', Reaches step₂ b b' ∧ obs₁ a' <+: obs₂ b'
  events₂ : ∀ b', Reaches step₂ b b' → ∃ a', Reaches step₁ a a' ∧ obs₂ b' <+: obs₁ a'
  stops : ∀ es r, (∃ a', Stops step₁ a a' ∧ obs₁ a' = es ∧ res₁ a' = r) ↔
    ∃ b', Stops step₂ b b' ∧ obs₂ b' = es ∧ res₂ b' = r

/-- The first machine is matched by the second. -/
structure Simulation (step₁ : σ → Option σ) (obs₁ : σ → List ε) (res₁ : σ → ρ)
    (step₂ : τ → Option τ) (obs₂ : τ → List ε) (res₂ : τ → ρ) (R : σ → τ → Prop)
    (measure : σ → Nat) : Prop where
  obs : ∀ {a b}, R a b → obs₁ a = obs₂ b
  step : ∀ {a b a'}, R a b → step₁ a = some a' →
    ∃ b', R a' b' ∧ ((∃ n, after step₂ (n + 1) b = some b') ∨ b' = b ∧ measure a' < measure a)
  stop : ∀ {a b}, R a b → step₁ a = none → step₂ b = none ∧ res₁ a = res₂ b
  grows : ∀ {b b'}, step₂ b = some b' → obs₂ b <+: obs₂ b'

variable {step₁ : σ → Option σ} {obs₁ : σ → List ε} {res₁ : σ → ρ} {step₂ : τ → Option τ}
  {obs₂ : τ → List ε} {res₂ : τ → ρ} {R : σ → τ → Prop} {measure : σ → Nat} {a : σ} {b : τ}

variable (S : Simulation step₁ obs₁ res₁ step₂ obs₂ res₂ R measure)

include S

theorem Simulation.obs_prefix {b' : τ} (h : Reaches step₂ b b') : obs₂ b <+: obs₂ b' :=
  Reaches.invariant (I := fun s => obs₂ b <+: obs₂ s)
    (fun _ _ hs hstep => hs.trans (S.grows hstep)) (List.prefix_refl _) h

theorem Simulation.reaches (hR : R a b) {a' : σ} (h : Reaches step₁ a a') :
    ∃ b', Reaches step₂ b b' ∧ R a' b' := by
  refine Reaches.invariant (I := fun s => ∃ b', Reaches step₂ b b' ∧ R s b') ?_
    ⟨b, Reaches.refl b, hR⟩ h
  rintro s s' ⟨b', hb, hs⟩ hstep
  obtain ⟨b'', hR'', ⟨n, hn⟩ | ⟨rfl, -⟩⟩ := S.step hs hstep
  · exact ⟨b'', hb.trans ⟨n + 1, hn⟩, hR''⟩
  · exact ⟨b'', hb, hR''⟩

/-- The first machine can be run until the second has made `n` steps, or to its end. -/
theorem Simulation.catchUp (hR : R a b) (n : Nat) :
    ∃ a' b' k, Reaches step₁ a a' ∧ R a' b' ∧ after step₂ k b = some b' ∧
      (n ≤ k ∨ step₁ a' = none) := by
  -- the second machine only stutters while the measure of the first goes down
  have one : ∀ (m : Nat) (a : σ) (b : τ), measure a ≤ m → R a b →
      ∃ a' b' k, Reaches step₁ a a' ∧ R a' b' ∧ after step₂ k b = some b' ∧
        (1 ≤ k ∨ step₁ a' = none) := by
    intro m
    induction m with
    | zero =>
      intro a b hm hab
      cases hs : step₁ a with
      | none => exact ⟨a, b, 0, .refl a, hab, rfl, .inr hs⟩
      | some a' =>
        obtain ⟨b', hR', ⟨k, hk⟩ | ⟨-, hlt⟩⟩ := S.step hab hs
        · exact ⟨a', b', k + 1, .one hs, hR', hk, .inl (by omega)⟩
        · omega
    | succ m ih =>
      intro a b hm hab
      cases hs : step₁ a with
      | none => exact ⟨a, b, 0, .refl a, hab, rfl, .inr hs⟩
      | some a' =>
        obtain ⟨b', hR', ⟨k, hk⟩ | ⟨rfl, hlt⟩⟩ := S.step hab hs
        · exact ⟨a', b', k + 1, .one hs, hR', hk, .inl (by omega)⟩
        · obtain ⟨a'', b'', k, ha, hrest⟩ := ih a' b' (by omega) hR'
          exact ⟨a'', b'', k, .head hs ha, hrest⟩
  induction n with
  | zero => exact ⟨a, b, 0, .refl a, hR, rfl, .inl (Nat.zero_le _)⟩
  | succ n ih =>
    obtain ⟨a', b', k, ha, hR', hk, hn | hstop⟩ := ih
    · obtain ⟨a'', b'', j, ha', hR'', hj, hj' | hstop⟩ := one _ a' b' (Nat.le_refl _) hR'
      · exact ⟨a'', b'', k + j, ha.trans ha', hR'', after_trans hk hj, .inl (by omega)⟩
      · exact ⟨a'', b'', k + j, ha.trans ha', hR'', after_trans hk hj, .inr hstop⟩
    · exact ⟨a', b', k, ha, hR', hk, .inr hstop⟩

/-- A state of the second machine is overtaken by a related one, or is stopped. -/
theorem Simulation.covered (hR : R a b) {b' : τ} (h : Reaches step₂ b b') :
    ∃ a' b'', Reaches step₁ a a' ∧ R a' b'' ∧ Reaches step₂ b' b'' := by
  obtain ⟨n, hn⟩ := h
  obtain ⟨a', b'', k, ha, hR', hk, hnk | hstop⟩ := S.catchUp hR n
  · exact ⟨a', b'', ha, hR', _, after_le hn hk hnk⟩
  · have hb := (S.stop hR' hstop).1
    by_cases hnk : n ≤ k
    · exact ⟨a', b'', ha, hR', _, after_le hn hk hnk⟩
    · obtain ⟨hz, -⟩ := after_of_stop hb (after_le hk hn (by omega))
      omega

/-- **Machines related by a simulation have the same runs.** -/
theorem Simulation.sameRuns (hR : R a b) : SameRuns step₁ obs₁ res₁ a step₂ obs₂ res₂ b := by
  refine ⟨?_, ?_, ?_⟩
  · intro a' ha
    obtain ⟨b', hb, hR'⟩ := S.reaches hR ha
    exact ⟨b', hb, by rw [S.obs hR']⟩
  · intro b' hb
    obtain ⟨a', b'', ha, hR', hb'⟩ := S.covered hR hb
    exact ⟨a', ha, by rw [S.obs hR']; exact S.obs_prefix hb'⟩
  · intro es r
    constructor
    · rintro ⟨a', ⟨ha, hstop⟩, rfl, rfl⟩
      obtain ⟨b', hb, hR'⟩ := S.reaches hR ha
      obtain ⟨hb', hr⟩ := S.stop hR' hstop
      exact ⟨b', ⟨hb, hb'⟩, (S.obs hR').symm, hr.symm⟩
    · rintro ⟨b', ⟨⟨n, hn⟩, hstop⟩, rfl, rfl⟩
      obtain ⟨a', b'', k, ha, hR', hk, hnk | hstop'⟩ := S.catchUp hR (n + 1)
      · obtain ⟨hz, -⟩ := after_of_stop hstop (after_le hn hk (by omega))
        omega
      · obtain ⟨hb'', hr⟩ := S.stop hR' hstop'
        obtain rfl : b'' = b' := by
          by_cases hnk : n ≤ k
          · exact (after_of_stop hstop (after_le hn hk hnk)).2
          · exact (after_of_stop hb'' (after_le hk hn (by omega))).2.symm
        exact ⟨a', ⟨ha, hstop'⟩, S.obs hR', hr⟩

end

end Babelfish.Lib
