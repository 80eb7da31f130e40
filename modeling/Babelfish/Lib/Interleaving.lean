import Mathlib.Algebra.Order.BigOperators.Group.Finset
import Mathlib.Data.Fintype.BigOperators

/-!
# Sessions that share a state

Several sessions, each with a state of its own, take turns in working on a shared state.  A step of
a session reads and changes the shared state and its own; it may also make everything start again.

In many such systems the shared state counts, for every resource, how often the sessions use it.
The rule `Run.invariant` is for these: what one step has to do is to change the counter by as much
as the session changes its use, and to leave alone what others use.

* `sum_session_update`: a sum over the sessions when one of them changes.
* `Run.invariant`: the rule.
-/

namespace Babelfish.Lib

variable {ι γ σ ε κ : Type}

/-- The shared state and the states of the sessions. -/
structure Config (ι γ σ : Type) where
  shared : γ
  session : ι → σ

/-- What a step of one session leads to. -/
inductive Effect (γ σ : Type) where
  | next (shared : γ) (own : σ)
  | restart

def Config.after [DecidableEq ι] (init c : Config ι γ σ) (i : ι) : Effect γ σ → Config ι γ σ
  | .next shared own => ⟨shared, Function.update c.session i own⟩
  | .restart => init

/-- The states that are reached by steps that meet a condition.  With the condition that is always
met, these are all states that are reached. -/
inductive Run [DecidableEq ι] (step : γ → σ → ε → Option (Effect γ σ)) (cond : γ → σ → ε → Prop)
    (init : Config ι γ σ) : Config ι γ σ → Prop
  | init : Run step cond init init
  | step {c : Config ι γ σ} {i : ι} {e : ε} {effect : Effect γ σ} (h : Run step cond init c)
      (hcond : cond c.shared (c.session i) e)
      (hstep : step c.shared (c.session i) e = some effect) :
      Run step cond init (Config.after init c i effect)

/-- The state after a list of steps, each with the session that takes it. -/
def Config.runAll [DecidableEq ι] (step : γ → σ → ε → Option (Effect γ σ)) (init : Config ι γ σ) :
    List (ι × ε) → Config ι γ σ → Option (Config ι γ σ)
  | [], c => some c
  | (i, e) :: events, c =>
    match step c.shared (c.session i) e with
    | none => none
    | some effect => runAll step init events (Config.after init c i effect)

variable {step : γ → σ → ε → Option (Effect γ σ)}

theorem Run.of_runAll [DecidableEq ι] {init c c' : Config ι γ σ} {events : List (ι × ε)}
    (h : Run step (fun _ _ _ => True) init c) (hrun : Config.runAll step init events c = some c') :
    Run step (fun _ _ _ => True) init c' := by
  induction events generalizing c with
  | nil =>
    cases hrun
    exact h
  | cons event events ih =>
    obtain ⟨i, e⟩ := event
    rw [Config.runAll] at hrun
    cases hstep : step c.shared (c.session i) e with
    | none =>
      rw [hstep] at hrun
      cases hrun
    | some effect =>
      rw [hstep] at hrun
      exact ih (h.step trivial hstep) hrun

theorem sum_session_update [Fintype ι] [DecidableEq ι] (f : σ → Nat) (session : ι → σ) (i : ι)
    (own : σ) :
    ∑ j, f (Function.update session i own j) + f (session i) = ∑ j, f (session j) + f own := by
  simp only [Function.apply_update fun _ => f]
  rw [Finset.sum_update_of_mem (Finset.mem_univ i),
    Finset.sum_eq_add_sum_sdiff_singleton_of_mem (Finset.mem_univ i) fun j => f (session j)]
  omega

section Counting

variable (count : γ → κ → Nat) (uses : σ → κ → Nat)

/-- The shared state is good, every session's state fits it, and the counters are right. -/
structure Counted [Fintype ι] (Good : γ → Prop) (Own : γ → σ → Prop) (c : Config ι γ σ) :
    Prop where
  good : Good c.shared
  own : ∀ i, Own c.shared (c.session i)
  count_eq : ∀ k, count c.shared k = ∑ i, uses (c.session i) k

variable {count uses}

/-- **Sessions that count what they use.**  An invariant holds in all states that are reached if a
step of a session keeps it for the shared state and its own, changes the counters by what it
changes its use, and keeps the invariant of any other session whose use is counted as well. -/
theorem Run.invariant [Fintype ι] [DecidableEq ι] {cond : γ → σ → ε → Prop} {init : Config ι γ σ}
    {Good : γ → Prop} {Own : γ → σ → Prop} (hinit : Counted count uses Good Own init)
    (hstep : ∀ g s e g' s', Good g → Own g s → (∀ k, uses s k ≤ count g k) → cond g s e →
      step g s e = some (.next g' s') →
        Good g' ∧ Own g' s' ∧ ∀ k, count g' k + uses s k = count g k + uses s' k)
    (hframe : ∀ g s e g' s' t, Good g → Own g s → cond g s e → step g s e = some (.next g' s') →
      Own g t → (∀ k, uses s k + uses t k ≤ count g k) → Own g' t) {c : Config ι γ σ}
    (h : Run step cond init c) : Counted count uses Good Own c := by
  induction h with
  | init => exact hinit
  | @step c i e effect _ hcond hs ih =>
    cases effect with
    | restart => exact hinit
    | next g' s' =>
      have hle : ∀ k, uses (c.session i) k ≤ count c.shared k := by
        intro k
        rw [ih.count_eq]
        exact Finset.single_le_sum (f := fun j => uses (c.session j) k)
          (fun _ _ => Nat.zero_le _) (Finset.mem_univ i)
      obtain ⟨hgood, hown, hcount⟩ := hstep _ _ _ _ _ ih.good (ih.own i) hle hcond hs
      refine ⟨hgood, fun j => ?_, fun k => ?_⟩
      · by_cases hj : j = i
        · subst hj
          show Own g' (Function.update c.session j s' j)
          rwa [Function.update_self]
        · show Own g' (Function.update c.session i s' j)
          rw [Function.update_of_ne hj]
          refine hframe _ _ _ _ _ _ ih.good (ih.own i) hcond hs (ih.own j) fun k => ?_
          rw [ih.count_eq]
          exact Finset.add_le_sum (f := fun l => uses (c.session l) k) (fun _ _ => Nat.zero_le _)
            (Finset.mem_univ i) (Finset.mem_univ j) (Ne.symm hj)
      · have hsum := sum_session_update (fun s => uses s k) c.session i s'
        have := hcount k
        have := ih.count_eq k
        show count g' k = ∑ j, uses (Function.update c.session i s' j) k
        omega

end Counting

end Babelfish.Lib
