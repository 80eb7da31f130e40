/-!
# Loops of imperative code, with total correctness

A C function that may stop the process, report failure to its caller or run forever is a
function into `Outcome`; a `while` loop is `loop`, with the number of iterations it may make
given from outside.  `timeout` is the answer of a loop that was not given enough iterations.

* `Gives x Q`: the computation `x` returns, and its result satisfies `Q`.
* `Gives.bind`: sequencing.
* `Gives.loop`: a loop with an invariant and a decreasing measure returns.
* `whileLoop`, `Gives.while`: the same for a loop with a condition.
* `loop_diverges`: a loop that can always go on is still running after any number of iterations.
-/

namespace Babelfish.Lib

/-- The outcome of a computation: a result, a failure `e`, or no answer yet. -/
inductive Outcome (ε α : Type) where
  | ok (a : α)
  | error (e : ε)
  | timeout
deriving Repr, DecidableEq

variable {ε α β σ ρ : Type} {f : α → Outcome ε β} {a : α}

namespace Outcome

def bind : Outcome ε α → (α → Outcome ε β) → Outcome ε β
  | .ok a, f => f a
  | .error e, _ => .error e
  | .timeout, _ => .timeout

instance : Monad (Outcome ε) where
  pure := .ok
  bind := bind

@[simp] theorem ok_bind : (Outcome.ok a >>= f) = f a := rfl

@[simp] theorem error_bind (e : ε) : ((Outcome.error e : Outcome ε α) >>= f) = .error e := rfl

@[simp] theorem timeout_bind : ((Outcome.timeout : Outcome ε α) >>= f) = .timeout := rfl

@[simp] theorem pure_eq : (pure a : Outcome ε α) = .ok a := rfl

end Outcome

variable {s : σ} {fuel : Nat} {cond : σ → Bool} {I : σ → Prop} {body : σ → Outcome ε σ}

/-- **The computation returns, and its result satisfies `Q`.** -/
def Gives (x : Outcome ε α) (Q : α → Prop) : Prop := ∃ a, x = .ok a ∧ Q a

namespace Gives

theorem ok {Q : α → Prop} (h : Q a) : Gives (Outcome.ok a : Outcome ε α) Q :=
  ⟨a, rfl, h⟩

variable {x : Outcome ε α}

theorem mono {P Q : α → Prop} (h : Gives x P) (hPQ : ∀ a, P a → Q a) : Gives x Q := by
  obtain ⟨a, ha, hP⟩ := h
  exact ⟨a, ha, hPQ a hP⟩

theorem bind {P : α → Prop} {Q : β → Prop} (h : Gives x P) (hf : ∀ a, P a → Gives (f a) Q) :
    Gives (x >>= f) Q := by
  obtain ⟨a, rfl, hP⟩ := h
  exact hf a hP

end Gives

/-! ### Loops -/

/-- What one iteration of a loop decides: go on from a new state, or leave the loop. -/
inductive Iter (σ ρ : Type) where
  | next (s : σ)
  | done (r : ρ)
deriving Repr, DecidableEq

/-- `while (true) body`, for at most the given number of iterations. -/
def loop (body : σ → Outcome ε (Iter σ ρ)) : Nat → σ → Outcome ε ρ
  | 0, _ => .timeout
  | fuel + 1, s => body s >>= fun i =>
      match i with
      | .next s' => loop body fuel s'
      | .done r => .ok r

/-- What an iteration that makes progress leaves behind: the postcondition when it is the last
one, the invariant and a smaller measure when it is not. -/
def Iter.Progress (I : σ → Prop) (m : σ → Nat) (Q : ρ → Prop) (s : σ) : Iter σ ρ → Prop
  | .next s' => I s' ∧ m s' < m s
  | .done r => Q r

/-- **Total correctness of a loop.**  When every iteration that starts in the invariant makes
progress, the loop returns within as many iterations as the measure says. -/
theorem Gives.loop {body : σ → Outcome ε (Iter σ ρ)} {Q : ρ → Prop} (m : σ → Nat)
    (hbody : ∀ s, I s → Gives (body s) (Iter.Progress I m Q s)) (fuel : Nat) (s : σ) (hI : I s)
    (hm : m s < fuel) : Gives (Lib.loop body fuel s) Q := by
  induction fuel generalizing s with
  | zero => omega
  | succ fuel ih =>
    refine .bind (hbody s hI) ?_
    rintro (s' | r) h
    · exact ih s' h.1 (Nat.lt_of_lt_of_le h.2 (Nat.le_of_lt_succ hm))
    · exact .ok h

/-- `while (cond) body`, for at most the given number of iterations. -/
def whileLoop (cond : σ → Bool) (body : σ → Outcome ε σ) (fuel : Nat) (s : σ) : Outcome ε σ :=
  loop (fun s => if cond s then body s >>= fun s' => .ok (.next s') else .ok (.done s)) fuel s

/-- **Total correctness of a loop with a condition.** -/
theorem Gives.while (m : σ → Nat)
    (hbody : ∀ s, I s → cond s = true → Gives (body s) (fun s' => I s' ∧ m s' < m s)) (hI : I s)
    (hm : m s < fuel) : Gives (whileLoop cond body fuel s) (fun s' => I s' ∧ cond s' = false) := by
  refine .loop m ?_ fuel s hI hm
  intro s hI
  split
  case isTrue hc => exact Gives.bind (hbody s hI hc) fun s' h => Gives.ok h
  case isFalse hc => exact Gives.ok ⟨hI, by simpa using hc⟩

theorem whileLoop_false (hc : cond s = false) : whileLoop cond body (fuel + 1) s = .ok s := by
  simp [whileLoop, loop, hc]

theorem Gives.while_once {Q : σ → Prop} (hc : cond s = true)
    (hbody : Gives (body s) (fun s' => Q s' ∧ cond s' = false)) :
    Gives (whileLoop cond body (fuel + 2) s) Q := by
  obtain ⟨s', hs', hQ, hc'⟩ := hbody
  refine ⟨s', ?_, hQ⟩
  simp [whileLoop, Lib.loop, hc, hs', hc']

/-- **Divergence of a loop.**  When every iteration that starts in the invariant goes on, the
loop never returns. -/
theorem loop_diverges {body : σ → Outcome ε (Iter σ ρ)}
    (hbody : ∀ s, I s → ∃ s', body s = .ok (.next s') ∧ I s') (fuel : Nat) (s : σ) (hI : I s) :
    Lib.loop body fuel s = .timeout := by
  induction fuel generalizing s with
  | zero => rfl
  | succ fuel ih =>
    obtain ⟨s', hs', hI'⟩ := hbody s hI
    simp only [Lib.loop, hs', Outcome.ok_bind]
    exact ih s' hI'

end Babelfish.Lib
