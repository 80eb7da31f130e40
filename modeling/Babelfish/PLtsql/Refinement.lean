import Babelfish.PLtsql.Continuation

/-!
# The code refines the structured semantics

Every step of the structured semantics is matched by the executor on the generated
code.  The relation `Matches` puts the program counter at the listing of the statements
to run, with the code of the continuation behind it; the error contexts are taken from
the invariant `CtxInv`.  Some steps of the structured semantics, such as entering a
block, take no instruction; then the measure `Control.rank` goes down.

* `exec_jumps`, `exec_leave`: the executor follows jumps and leaves parts.
* `AtStmt.atomic`, `AtStmt.goto`, `Related.raise` and the like: one lemma for each kind of step.
* `simulation`: the executor simulates the structured semantics.
* `exec_refines_structured`: both have the same runs.
-/

namespace Babelfish.PLtsql

open Lib Lib.Assembly List StructState Control

variable {l : Label} {t : List TryCatchInfo} {w : List (Node × Nat)} {codes : List (Instr Nat)}
  {pc : Nat} {s : ExecState} {i : Instr Nat}

/-- `codes` is the resolved listing `P`, and it is scoped. -/
structure Loaded (P : Listing Label Scoped) (codes : List (Instr Nat)) : Prop where
  resolved : Resolved P codes
  wellScoped : ScopedCode (scopeAt P) (HandlerAt P) codes

/-- The error contexts of `s` are as the code `P` wants them. -/
abbrev Fits (P : Listing Label Scoped) (s : ExecState) : Prop :=
  CtxInv (scopeAt P) (HandlerAt P) s

/-- Some steps lead from `s` to `s'`, which is at `q` and differs only in its error
contexts. -/
structure Moves (P : Listing Label Scoped) (step : ExecState → Option ExecState)
    (s s' : ExecState) (q : Nat) : Prop where
  reaches : Reaches step s s'
  fits : Fits P s'
  quiet : Quiet s s' q

section

variable {P : Listing Label Scoped} {codes : List (Instr Nat)} {env : CallEnv} {o : Oracle}
  {s s' s'' : ExecState} {t : List TryCatchInfo} {q r lineno : Nat}

theorem Quiet.trans (h : Quiet s s' q) (h' : Quiet s' s'' r) : Quiet s s'' r :=
  ⟨h'.pc, h'.mode.trans h.mode, h'.trace.trans h.trace,
    h'.terminateBatch.trans h.terminateBatch, h'.returned.trans h.returned⟩

theorem Moves.refl (h : Fits P s) : Moves P (execStep codes env o) s s s.pc :=
  ⟨Reaches.refl s, h, rfl, rfl, rfl, rfl, rfl⟩

theorem Moves.trans (h : Moves P (execStep codes env o) s s' q)
    (h' : Moves P (execStep codes env o) s' s'' r) : Moves P (execStep codes env o) s s'' r :=
  ⟨h.reaches.trans h'.reaches, h'.fits, h.quiet.trans h'.quiet⟩

/-! ### Fetching instructions -/

theorem Loaded.fetch (h : Loaded P codes) {i : Instr Label} {i' : Instr Nat}
    (hi : Holds P pc i t) (hr : resolveInstr (labelTable P) i = .ok i') : codes[pc]? = some i' := by
  obtain ⟨j, hj, hc⟩ := h.resolved.get hi
  rw [hr, Except.ok.injEq] at hj
  rw [hc, hj]

theorem Loaded.resolve_goto (h : Loaded P codes) {c : Option Expr} (hm : (l, q) ∈ marks 0 P) :
    resolveInstr (labelTable P) (.goto lineno c l) = .ok (.goto lineno c q) := by
  rw [resolveInstr, getLabelIndex, h.resolved.label hm]
  rfl

theorem step_run (hm : s.mode = .run) (hi : codes[s.pc]? = some i) :
    execStep codes env o s = some (execInstr env o s i) := by
  rw [execStep, hm, hi]
  rfl

theorem Loaded.mark_inj (h : Loaded P codes) (hq : (l, q) ∈ marks 0 P) (hr : (l, r) ∈ marks 0 P) :
    q = r := by
  have := h.resolved.label hq
  rwa [h.resolved.label hr, Option.some.injEq, eq_comm] at this

/-! ### Jumps and restoring instructions -/

section

variable (hl : Loaded P codes) (env : CallEnv) (o : Oracle)
include hl

section

variable (hm : s.mode = .run) (hg : Holds P s.pc (.goto lineno none l) t) (hq : (l, q) ∈ marks 0 P)
include hm hg hq

theorem step_goto : execStep codes env o s = some { s with pc := q } :=
  step_run hm (hl.fetch hg (hl.resolve_goto hq))

theorem move_goto (hf : Fits P s) : Moves P (execStep codes env o) s { s with pc := q } q := by
  have hs := step_goto hl env o hm hg hq
  exact ⟨.one hs, hf.step hl.wellScoped hs, rfl, rfl, rfl, rfl, rfl⟩

end

theorem exec_jumps (hj : Jumps P t pc q) (hf : Fits P s) (hrun : s.mode = .run) (hpc : s.pc = pc) :
    ∃ s', Moves P (execStep codes env o) s s' q := by
  induction hj generalizing s with
  | refl pc => subst hpc; exact ⟨s, Moves.refl hf⟩
  | step hg hm _ ih =>
    subst hpc
    have h := move_goto hl env o hrun hg hm hf
    obtain ⟨s', h'⟩ := ih h.fits hrun rfl
    exact ⟨s', h.trans h'⟩

theorem move_restore (hf : Fits P s) (hm : s.mode = .run) {info : TryCatchInfo}
    (hi : Holds P s.pc (restoreFor lineno info) t) :
    ∃ s', Moves P (execStep codes env o) s s' (s.pc + 1) := by
  rcases info with ⟨a, _ | _⟩
  · have hc : codes[s.pc]? = some (.restoreCtxPartial lineno) := hl.fetch hi rfl
    obtain ⟨b, hb⟩ := hl.wellScoped.step hc
    obtain ⟨hinv, hq⟩ := hf.restoreCtxPartial hb
    exact ⟨_, .one (step_run hm hc), hinv, hq⟩
  · have hc : codes[s.pc]? = some (.restoreCtxFull lineno) := hl.fetch hi rfl
    obtain ⟨b, hb⟩ := hl.wellScoped.step hc
    obtain ⟨hinv, hq⟩ := hf.restoreCtxFull hb
    exact ⟨_, .one (step_run hm hc), hinv, hq⟩

theorem exec_leave_from {d : Nat} {a : Listing Label Scoped} {i : Nat} (hi : i ≤ t.length)
    (hf : Fits P s) (hm : s.mode = .run) (ha : At P s.pc (leave lineno t d i ++ a)) :
    ∃ s', Moves P (execStep codes env o) s s' (s.pc + size (leave lineno t d i)) := by
  induction i generalizing s with
  | zero => exact ⟨s, Moves.refl hf⟩
  | succ i ih =>
    rw [leave] at ha ⊢
    by_cases hd : d < i + 1
    · have hget : t[i]? = some t[i] := getElem?_eq_getElem (by omega)
      rw [if_pos hd, hget] at ha ⊢
      obtain ⟨hh, ha⟩ := At.instr ha
      obtain ⟨s₁, h₁⟩ := move_restore hl env o hf hm hh
      rw [← h₁.quiet.pc] at ha
      obtain ⟨s₂, h₂⟩ := ih (by omega) h₁.fits (h₁.quiet.mode.trans hm) ha
      refine ⟨s₂, ?_⟩
      have h := h₁.trans h₂
      rw [h₁.quiet.pc] at h
      have hsz : s.pc + (size (leave lineno t d i) + 1) =
          s.pc + 1 + size (leave lineno t d i) := by omega
      show Moves _ _ s s₂ (s.pc + (size (leave lineno t d i) + 1))
      rwa [hsz]
    · rw [if_neg hd]
      exact ⟨s, Moves.refl hf⟩

theorem exec_leave {d : Nat} (hf : Fits P s) (hm : s.mode = .run) (hq : (l, q) ∈ marks 0 P)
    (ha : At P s.pc (leave lineno t d t.length ++ [.instr (.goto lineno none l, t.take d)])) :
    ∃ s', Moves P (execStep codes env o) s s' q ∧
      ∃ n, after (execStep codes env o) (n + 1) s = some s' := by
  obtain ⟨s₁, h₁⟩ := exec_leave_from hl env o (le_refl _) hf hm ha
  obtain ⟨-, ha⟩ := ha.append
  rw [← h₁.quiet.pc] at ha
  have hm₁ := h₁.quiet.mode.trans hm
  have h₂ := move_goto hl env o hm₁ ha.instr.1 hq h₁.fits
  have hs₂ := step_goto hl env o hm₁ ha.instr.1 hq
  obtain ⟨n, hn⟩ := h₁.reaches
  exact ⟨_, h₁.trans h₂, n, after_trans hn (after_one hs₂)⟩

end

end

/-! ### The relation -/

def Matches (P : Listing Label Scoped) (ld : String → Nat) (env : CallEnv) :
    Control → ExecState → Prop
  | .run ss k, s => s.mode = .run ∧ s.terminateBatch = false ∧ s.returned = false ∧
      ∃ t w, At P s.pc (listingList ld t w ss) ∧
        KAt P ld k (s.pc + size (listingList ld t w ss)) t w
  | .raise e ignoreCatch k, s => s.mode = .raise e ∧ s.returned = false ∧
      ignoreCatchBlock env e s.terminateBatch = ignoreCatch ∧
      ∃ t w pc r, KAt P ld k pc t w ∧ scopeAt P s.pc = t ++ r ∧
        ∀ info ∈ r, info.inTryBlock = false
  | .finished returned, s => s.mode = .run ∧ size P ≤ s.pc ∧ s.returned = returned
  | .uncaught e, s => s.mode = .uncaught e

structure Related (P : Listing Label Scoped) (ld : String → Nat) (env : CallEnv)
    (a : StructState) (s : ExecState) : Prop where
  trace : a.trace = s.trace
  fits : Fits P s
  control : Matches P ld env a.control s

mutual
/-- Only a block takes no instruction of its own and has parts. -/
def Stmt.rank : Stmt → Nat
  | .block _ body => rankList body + 2
  | _ => 1

def rankList : List Stmt → Nat
  | [] => 0
  | s :: ss => s.rank + rankList ss
end

def Cont.rank : Cont → Nat
  | .stop => 0
  | .seq ss k => 2 * rankList ss + 2 + k.rank
  | .loop _ _ _ k | .tryPart _ _ k | .catchPart _ k => k.rank + 1

/-- What goes down when the structured semantics takes a step without an instruction. -/
def Control.rank : Control → Nat
  | .run ss k => 2 * rankList ss + k.rank + 1
  | .raise _ _ k => k.rank + 1
  | .finished _ | .uncaught _ => 0

/-- The executor in state `s` answers the step from `a` to `a'`. -/
def Answers (P : Listing Label Scoped) (ld : String → Nat) (codes : List (Instr Nat))
    (env : CallEnv) (o : Oracle) (a : StructState) (s : ExecState) (a' : StructState) : Prop :=
  ∃ s', Related P ld env a' s' ∧ ((∃ n, after (execStep codes env o) (n + 1) s = some s') ∨
    s' = s ∧ a'.control.rank < a.control.rank)

section

variable {P : Listing Label Scoped} {ld : String → Nat} {codes : List (Instr Nat)}
  {env : CallEnv} {o : Oracle} {a a' : StructState} {s s' s'' : ExecState} {q : Nat}
  {ss : List Stmt} {k : Cont} {tr : List Event}

theorem Answers.stutter (h : Related P ld env a' s) (hr : a'.control.rank < a.control.rank) :
    Answers P ld codes env o a s a' := ⟨s, h, .inr ⟨rfl, hr⟩⟩

theorem Answers.step (hs : execStep codes env o s = some s') (h : Related P ld env a' s') :
    Answers P ld codes env o a s a' := ⟨s', h, .inl ⟨0, after_one hs⟩⟩

theorem Answers.reaches (hs : Reaches (execStep codes env o) s s') (h : Related P ld env a' s')
    (hr : a'.control.rank < a.control.rank) : Answers P ld codes env o a s a' := by
  obtain ⟨n, hn⟩ := hs
  cases n with
  | zero => cases hn; exact Answers.stutter h hr
  | succ n => exact ⟨s', h, .inl ⟨n, hn⟩⟩

theorem Answers.last (hs : Reaches (execStep codes env o) s s')
    (hs' : execStep codes env o s' = some s'') (h : Related P ld env a' s'') :
    Answers P ld codes env o a s a' := by
  obtain ⟨n, hn⟩ := hs
  exact ⟨s'', h, .inl ⟨n, after_trans hn (after_one hs')⟩⟩

theorem Moves.run (hv : Moves P (execStep codes env o) s s' q) (htr : tr = s.trace)
    (hm : s.mode = .run) (htb : s.terminateBatch = false) (hret : s.returned = false)
    (ha : At P q (listingList ld t w ss)) (hk : KAt P ld k (q + size (listingList ld t w ss)) t w) :
    Related P ld env ⟨.run ss k, tr⟩ s' := by
  obtain ⟨-, hf, hpc, hmode, htrace, hterm, hr⟩ := hv
  refine ⟨htr.trans htrace.symm, hf, hmode.trans hm, hterm.trans htb, hr.trans hret, t, w, ?_, ?_⟩
  · rw [hpc]; exact ha
  · rw [hpc]; exact hk

theorem listingList_singleton (st : Stmt) : listingList ld t w [st] = st.listing ld t w := by
  rw [listingList, listingList, append_nil]

/-! ### The end of a construct -/

theorem Related.leaveBlock (hl : Loaded P codes) (h : Related P ld env ⟨.run [] k, tr⟩ s) :
    Answers P ld codes env o ⟨.run [] k, tr⟩ s ⟨leaveBlock k, tr⟩ := by
  obtain ⟨htr, hf, hm, htb, hret, t, w, -, hk⟩ := h
  cases k with
  | stop =>
    obtain ⟨q, hj, hq, -, -⟩ := hk
    obtain ⟨s', hv⟩ := exec_jumps hl env o hj hf hm rfl
    refine .reaches hv.reaches ⟨htr.trans hv.quiet.trace.symm, hv.fits,
      hv.quiet.mode.trans hm, ?_, hv.quiet.returned.trans hret⟩ (by simp [leaveBlock, rank])
    rwa [hv.quiet.pc]
  | seq ss k =>
    obtain ⟨q, hj, ha, hk⟩ := hk
    obtain ⟨s', hv⟩ := exec_jumps hl env o hj hf hm rfl
    refine .reaches hv.reaches (hv.run htr hm htb hret ha hk) ?_
    simp only [leaveBlock, rank, Cont.rank, rankList]
    omega
  | loop n c body k =>
    obtain ⟨q, hj, b, w', rfl, hg, ha, hb, hk⟩ := hk
    obtain ⟨s', hv⟩ := exec_jumps hl env o hj hf hm rfl
    have hm' := hv.quiet.mode.trans hm
    rw [← hv.quiet.pc] at hg
    have hv' := hv.trans (move_goto hl env o hm' hg ha.mark.1 hv.fits)
    refine .last hv.reaches (step_goto hl env o hm' hg ha.mark.1)
      (hv'.run htr hm htb hret (t := t) (w := w') ?_ ?_)
    · rw [listingList_singleton]; exact ha
    · rw [listingList_singleton, hb]; exact hk
  | tryPart n h k =>
    obtain ⟨q, hj, b, t', rfl, hr, hg, hmb, hah, hrp, hme, hk⟩ := hk
    obtain ⟨s₁, hv₁⟩ := exec_jumps hl env o hj hf hm rfl
    have hm₁ := hv₁.quiet.mode.trans hm
    rw [← hv₁.quiet.pc] at hr hg
    have hr : Holds P s₁.pc (restoreFor n.lineno ⟨n, true⟩) _ := hr
    obtain ⟨s₂, hv₂⟩ := move_restore hl env o hv₁.fits hm₁ hr
    have hm₂ := hv₂.quiet.mode.trans hm₁
    rw [← hv₂.quiet.pc] at hg
    have hv := (hv₁.trans hv₂).trans (move_goto hl env o hm₂ hg hme hv₂.fits)
    refine .last (hv₁.trans hv₂).reaches (step_goto hl env o hm₂ hg hme)
      (hv.run htr hm htb hret (t := t') (w := w) ?_ hk)
    have := mark_le hme
    exact at_nil (by omega)
  | catchPart n k =>
    obtain ⟨q, hj, t', rfl, hr, hk⟩ := hk
    obtain ⟨s₁, hv₁⟩ := exec_jumps hl env o hj hf hm rfl
    have hm₁ := hv₁.quiet.mode.trans hm
    rw [← hv₁.quiet.pc] at hr hk
    have hr : Holds P s₁.pc (restoreFor n.lineno ⟨n, false⟩) _ := hr
    obtain ⟨s₂, hv₂⟩ := move_restore hl env o hv₁.fits hm₁ hr
    refine .reaches (hv₁.trans hv₂).reaches
      ((hv₁.trans hv₂).run htr hm htb hret (t := t') (w := w) ?_ hk) ?_
    · have := (List.getElem?_eq_some_iff.mp hr).1
      exact at_nil (show s₁.pc + 1 ≤ size P from this)
    · simp only [leaveBlock, rank, Cont.rank, rankList]
      omega

/-! ### Statements -/

/-- The executor is at statement `st`, with `ss` behind it and then `k`. -/
structure AtStmt (P : Listing Label Scoped) (ld : String → Nat) (s : ExecState) (st : Stmt)
    (ss : List Stmt) (k : Cont) (t : List TryCatchInfo) (w : List (Node × Nat)) : Prop where
  fits : Fits P s
  mode : s.mode = .run
  terminateBatch : s.terminateBatch = false
  returned : s.returned = false
  here : At P s.pc (st.listing ld t w)
  rest : At P (s.pc + size (st.listing ld t w)) (listingList ld t w ss)
  cont : KAt P ld k (s.pc + size (st.listing ld t w) + size (listingList ld t w ss)) t w

theorem Related.atStmt {st : Stmt} (h : Related P ld env ⟨.run (st :: ss) k, tr⟩ s) :
    tr = s.trace ∧ ∃ t w, AtStmt P ld s st ss k t w := by
  obtain ⟨htr, hf, hm, htb, hret, t, w, ha, hk⟩ := h
  obtain ⟨hs, hss⟩ := ha.append
  rw [listingList, size_append, ← Nat.add_assoc] at hk
  exact ⟨htr, t, w, hf, hm, htb, hret, hs, hss, hk⟩

section

variable {st : Stmt} {t : List TryCatchInfo} {w : List (Node × Nat)} {n : Node} {c : Expr}
  {b e : Stmt} {body : List Stmt} {terminateBatch : Bool} {control : Control} {isExit : Bool}

section

variable (h : AtStmt P ld s st ss k t w)
include h

theorem AtStmt.contSeq :
    KAt P ld (.seq ss k) (s.pc + size (st.listing ld t w)) t w := KAt.seq_at h.rest h.cont

theorem AtStmt.placed : Placed P t s.pc (st.listing ld t w) := ⟨h.here, h.contSeq.scope⟩

theorem AtStmt.scope : scopeAt P s.pc = t :=
  (entry_scope P ld).1 st t w s.pc h.placed

/-- The statements after `st`, at an address where the error contexts are those of `s'`. -/
theorem AtStmt.next (hpc : s'.pc = s.pc + size (st.listing ld t w)) (hm : s'.mode = .run)
    (htb : s'.terminateBatch = false) (hret : s'.returned = false) :
    Matches P ld env (.run ss k) s' := by
  refine ⟨hm, htb, hret, t, w, ?_, ?_⟩
  · rw [hpc]; exact h.rest
  · rw [hpc]; exact h.cont

theorem AtStmt.single (hb : At P pc (b.listing ld t w)) {k' : Cont}
    (hk : KAt P ld k' (pc + size (b.listing ld t w)) t w) :
    Matches P ld env (.run [b] k') { s with pc := pc, trace := tr } := by
  refine ⟨h.mode, h.terminateBatch, h.returned, t, w, ?_, ?_⟩
  · rw [listingList_singleton]; exact hb
  · rw [listingList_singleton]; exact hk

end

theorem AtStmt.label {l : String} (hs : AtStmt P ld s (.label n l) ss k t w) :
    Answers P ld codes env o ⟨.run (.label n l :: ss) k, s.trace⟩ s ⟨.run ss k, s.trace⟩ := by
  refine .stutter ⟨rfl, hs.fits, hs.next rfl hs.mode hs.terminateBatch hs.returned⟩ ?_
  simp only [rank, rankList, Stmt.rank]
  omega

theorem AtStmt.block (hs : AtStmt P ld s (.block n body) ss k t w) :
    Answers P ld codes env o ⟨.run (.block n body :: ss) k, tr⟩ s
      ⟨.run body (.seq ss k), s.trace⟩ := by
  refine .stutter ⟨rfl, hs.fits, hs.mode, hs.terminateBatch, hs.returned, t, w, hs.here,
    hs.contSeq⟩ ?_
  simp only [rank, Cont.rank, rankList, Stmt.rank]
  omega

/-! ### Conditions -/

section

variable (hl : Loaded P codes)
include hl

theorem Answers.branch (hs : AtStmt P ld s st ss k t w) {lineno : Nat}
    (hg : Holds P s.pc (.goto lineno (some c) l) t) (hq : (l, q) ∈ marks 0 P) {yes no : Control}
    (hyes : ∀ tr', Matches P ld env yes { s with pc := s.pc + 1, trace := tr' })
    (hno : ∀ tr', Matches P ld env no { s with pc := q, trace := tr' }) :
    Answers P ld codes env o a s (branch o c s.trace yes no) := by
  have hc : codes[s.pc]? = some (.goto lineno (some c) q) := hl.fetch hg (hl.resolve_goto hq)
  have hstep : execStep codes env o s = some (execStmtGoto o (some c) q s) := step_run hs.mode hc
  have hfits := hs.fits.step hl.wellScoped hstep
  by_cases hv : o.cond s.trace c = some true
  · have hgo : execStmtGoto o (some c) q s =
        { s with pc := s.pc + 1, trace := s.trace ++ [.cond c (o.cond s.trace c)] } := by
      simp [execStmtGoto, hv]
    rw [hgo] at hstep hfits
    refine .step hstep ⟨rfl, hfits, ?_⟩
    rw [PLtsql.branch, if_pos hv]
    exact hyes _
  · have hgo : execStmtGoto o (some c) q s =
        { s with pc := q, trace := s.trace ++ [.cond c (o.cond s.trace c)] } := by
      rcases hval : o.cond s.trace c with _ | _ | _
      · simp [execStmtGoto, hval]
      · simp [execStmtGoto, hval]
      · exact absurd hval hv
    rw [hgo] at hstep hfits
    refine .step hstep ⟨rfl, hfits, ?_⟩
    rw [PLtsql.branch, if_neg hv]
    exact hno _

theorem AtStmt.ifThen (hs : AtStmt P ld s (.ifElse n c b none) ss k t w) :
    Answers P ld codes env o a s (branch o c s.trace (.run [b] (.seq ss k)) (.run ss k)) := by
  obtain ⟨hg, hb, hm, hsz⟩ := hs.placed.ifThen
  refine .branch hl hs hg hm (fun tr' => ?_) (fun tr' => ?_)
  · exact hs.single hb.at_pos (hsz ▸ hs.contSeq)
  · exact hs.next hsz.symm hs.mode hs.terminateBatch hs.returned

theorem AtStmt.ifElse (hs : AtStmt P ld s (.ifElse n c b (some e)) ss k t w) :
    Answers P ld codes env o a s
      (branch o c s.trace (.run [b] (.seq ss k)) (.run [e] (.seq ss k))) := by
  have hk := hs.contSeq
  obtain ⟨q, rfl, hg, hb, hj, hmb, he, hme, hsz⟩ := hs.placed.ifElse
  rw [hsz] at hk
  refine .branch hl hs hg hmb (fun tr' => ?_) (fun tr' => ?_)
  · exact hs.single hb.at_pos (hk.jump hj hme)
  · exact hs.single he.at_pos hk

theorem AtStmt.whileLoop (hs : AtStmt P ld s (.whileLoop n c body) ss k t w) :
    Answers P ld codes env o a s
      (branch o c s.trace (.run body (.loop n c body (.seq ss k))) (.run ss k)) := by
  have hbody := KAt.loop_body hs.here hs.contSeq
  obtain ⟨q, rfl, -, hg, hb, -, hme, -, hsz⟩ := hs.placed.whileLoop
  refine .branch hl hs hg hme (fun tr' => ?_) (fun tr' => ?_)
  · exact ⟨hs.mode, hs.terminateBatch, hs.returned, t, _, hb.at_pos, hbody⟩
  · exact hs.next hsz.symm hs.mode hs.terminateBatch hs.returned

end

/-! ### Executing a statement -/

theorem caught_continue {e : ErrorInfo} {restored : List Bool}
    (h : (caught env e restored terminateBatch).1 = false) :
    (caught env e restored terminateBatch).2 = terminateBatch := by
  unfold caught handleError abortExecution at h ⊢
  grind

/-- From `s` some steps without events lead to a state for `control`. -/
def Continues (P : Listing Label Scoped) (ld : String → Nat) (codes : List (Instr Nat))
    (env : CallEnv) (o : Oracle) (s : ExecState) (control : Control) : Prop :=
  ∃ s', Moves P (execStep codes env o) s s' s'.pc ∧ Matches P ld env control s'

theorem Continues.here (hf : Fits P s) (h : Matches P ld env control s) :
    Continues P ld codes env o s control := ⟨s, Moves.refl hf, h⟩

theorem Continues.answers (hs : execStep codes env o s = some s')
    (hc : Continues P ld codes env o s' control) :
    Answers P ld codes env o a s ⟨control, s'.trace⟩ := by
  obtain ⟨s'', hv, hm⟩ := hc
  obtain ⟨n, hn⟩ := hv.reaches
  refine ⟨s'', ⟨hv.quiet.trace.symm, hv.fits, hm⟩, .inl ⟨n, ?_⟩⟩
  rw [Nat.add_comm]
  exact after_trans (after_one hs) hn

/-- The statement at `n` is executed; `hnext` says what comes after it. -/
theorem Answers.execute (hl : Loaded P codes) (hat : AtStmt P ld s st ss k t w) (isReturn : Bool)
    (next : Bool → Control) (hi : codes[s.pc]? = some i)
    (hexec : execInstr env o s i = dispatchStmtHandleError env o n isReturn s)
    (hnext : ∀ s', Fits P s' → s'.pc = s.pc + 1 → s'.mode = .run → s'.terminateBatch = false →
      (s'.returned = true → isReturn = true) →
      Continues P ld codes env o s' (next s'.returned)) :
    Answers P ld codes env o a s
      (execute (executorPolicy env) o n s.trace k (next isReturn) (next false)) := by
  obtain ⟨hf, hm, htb, hret, -, -, hk⟩ := id hat
  have hs : execStep codes env o s = some (dispatchStmtHandleError env o n isReturn s) := by
    rw [step_run hm hi, hexec]
  have hfits := hf.step hl.wellScoped hs
  have hcatch : s.errCtxStack.map ErrCtx.partialRestored = k.catching := by
    rw [hf.stack.flags, hk.catching, hat.scope]
  unfold PLtsql.execute
  unfold dispatchStmtHandleError at hs hfits
  cases ho : o.exec s.trace n with
  | none =>
    rw [ho] at hs hfits
    have := Continues.answers (a := a) hs (hnext _ hfits rfl hm htb (by simp [hret]))
    simpa [hret] using this
  | some e =>
    rw [ho] at hs hfits
    simp only [hcatch, htb] at hs hfits
    split_ifs at hs hfits with hr
    · refine .step hs ⟨rfl, hfits, ?_⟩
      simp only [failed, executorPolicy, hr, if_true]
      exact ⟨rfl, hret, rfl, t, w, _, [], hk, by rw [append_nil]; exact hat.scope, by simp⟩
    · have hcont := caught_continue (Bool.eq_false_iff.mpr hr)
      simp only [failed, executorPolicy, hr, Bool.false_eq_true, if_false]
      have := Continues.answers (a := a) hs (hnext _ hfits rfl hm hcont (by simp [hret]))
      simpa [hret] using this

theorem AtStmt.atomic (hl : Loaded P codes) (hs : AtStmt P ld s (.atomic n) ss k t w) :
    Answers P ld codes env o a s
      (execute (executorPolicy env) o n s.trace k (.run ss k) (.run ss k)) := by
  have hi : codes[s.pc]? = some (.stmt n) := hl.fetch hs.here.instr.1 rfl
  refine .execute hl hs false (fun _ => .run ss k) hi rfl ?_
  intro s' hf hpc hm htb hret
  have hreturned := Bool.eq_false_iff.mpr fun h => by simpa using hret h
  exact .here hf (hs.next hpc hm htb hreturned)

theorem AtStmt.ret (hl : Loaded P codes) (hend : (Label.endOfProc, size P) ∈ marks 0 P)
    (hs : AtStmt P ld s (.ret n) ss k t w) :
    Answers P ld codes env o a s
      (execute (executorPolicy env) o n s.trace k (.finished true) (.finished false)) := by
  obtain ⟨hh, hleave⟩ := hs.here.instr
  have hi : codes[s.pc]? = some (.ret n) := hl.fetch hh rfl
  refine .execute hl hs true finished hi rfl ?_
  intro s' hf hpc hm _ _
  rw [← hpc] at hleave
  obtain ⟨s'', hv, -⟩ := exec_leave hl env o (d := 0) hf hm hend hleave
  refine ⟨s'', ?_, hv.quiet.mode.trans hm, ?_, hv.quiet.returned⟩
  · rw [hv.quiet.pc]; exact hv
  · rw [hv.quiet.pc]

/-! ### `TRY`/`CATCH`, `BREAK` and `CONTINUE` -/

theorem AtStmt.tryCatch (hl : Loaded P codes) (hs : AtStmt P ld s (.tryCatch n b e) ss k t w) :
    Answers P ld codes env o a s ⟨.run [b] (.tryPart n e (.seq ss k)), s.trace⟩ := by
  obtain ⟨hkb, -⟩ := KAt.parts hs.here hs.contSeq
  obtain ⟨q, r, rfl, rfl, hi, hb, -, -, hmb, -⟩ := hs.placed.tryCatch
  have hc : codes[s.pc]? = some (.saveCtx n.lineno _) := hl.fetch hi (by
    rw [resolveInstr, getLabelIndex, hl.resolved.label hmb]; rfl)
  have hstep : execStep codes env o s = some (saveCtx _ s) := step_run hs.mode hc
  refine .step hstep ⟨rfl, hs.fits.step hl.wellScoped hstep, hs.mode, hs.terminateBatch,
    hs.returned, t ++ [⟨n, true⟩], w, ?_, ?_⟩
  · rw [listingList_singleton]; exact hb.at_pos
  · rw [listingList_singleton]; exact hkb

theorem loop_marks {w' : List (Node × Nat)}
    (ha : At P q (Stmt.listing ld t w' (.whileLoop n c body)))
    (hk : KAt P ld k (q + size (Stmt.listing ld t w' (.whileLoop n c body))) t w') :
    (Label.loopBegin n, q) ∈ marks 0 P ∧
      (Label.loopEnd n, q + size (Stmt.listing ld t w' (.whileLoop n c body))) ∈ marks 0 P := by
  obtain ⟨r, rfl, hmb, -, -, -, hme, -, hsz⟩ := Placed.whileLoop ⟨ha, hk.scope⟩
  exact ⟨hmb, by rw [hsz]; exact hme⟩

theorem AtStmt.exit_none (hs : AtStmt P ld s (.exit n isExit) ss k t w)
    (hk : k.innermostLoop = none) :
    Answers P ld codes env o ⟨.run (.exit n isExit :: ss) k, tr⟩ s ⟨.run ss k, s.trace⟩ := by
  obtain rfl : w = [] := by
    rcases hs.cont.innermostLoop with ⟨hw, -⟩ | ⟨w', m, d, c, body, k', b, -, -, hl', -⟩
    · exact hw
    · rw [hk] at hl'; simp at hl'
  refine .stutter ⟨rfl, hs.fits, hs.next rfl hs.mode hs.terminateBatch hs.returned⟩ ?_
  simp only [rank, rankList, Stmt.rank]
  omega

theorem AtStmt.exit_some (hl : Loaded P codes) {loop : Stmt} {k' : Cont}
    (hs : AtStmt P ld s (.exit n isExit) ss k t w) (hk : k.innermostLoop = some (loop, k')) :
    Answers P ld codes env o a s ⟨.run (if isExit then [] else [loop]) k', s.trace⟩ := by
  rcases hs.cont.innermostLoop with ⟨-, hw⟩ | ⟨w', m, d, c, body, k₁, b, rfl, hd, hl', ha, hk'⟩
  · rw [hk] at hw; simp at hw
  rw [hk] at hl'
  cases hl'
  obtain ⟨hmb, hme⟩ := loop_marks ha hk'
  have hhere := hs.here
  simp only [Stmt.listing, getLast?_append, getLast?_singleton, Option.some_or] at hhere
  cases isExit with
  | true =>
    obtain ⟨s', hv, hn⟩ := exec_leave hl env o hs.fits hs.mode hme hhere
    have hle := mark_le hme
    refine ⟨s', hv.run rfl hs.mode hs.terminateBatch hs.returned (at_nil (by omega)) hk', .inl hn⟩
  | false =>
    obtain ⟨s', hv, hn⟩ := exec_leave hl env o hs.fits hs.mode hmb hhere
    refine ⟨s', hv.run rfl hs.mode hs.terminateBatch hs.returned (t := t.take d) (w := w') ?_ ?_,
      .inl hn⟩
    · simp only [Bool.false_eq_true, if_false, listingList_singleton]; exact ha
    · simp only [Bool.false_eq_true, if_false, listingList_singleton]; exact hk'

/-! ### Errors on their way out -/

theorem innermost_try_unique {t' r r' : List TryCatchInfo} {m m' : Node}
    (h : t ++ ⟨m, true⟩ :: r = t' ++ ⟨m', true⟩ :: r')
    (hr : ∀ info ∈ r, info.inTryBlock = false) (hr' : ∀ info ∈ r', info.inTryBlock = false) :
    t = t' ∧ m = m' := by
  rcases append_eq_append_iff.mp h with ⟨x, rfl, hx⟩ | ⟨x, rfl, hx⟩
  · cases x with
    | nil => exact ⟨by simp, by simpa using (cons.inj hx).1⟩
    | cons y ys =>
      have := hr ⟨m', true⟩ (by rw [(cons.inj hx).2]; simp)
      simp at this
  · cases x with
    | nil => exact ⟨by simp, by simpa using ((cons.inj hx).1).symm⟩
    | cons y ys =>
      have := hr' ⟨m, true⟩ (by rw [(cons.inj hx).2]; simp)
      simp at this

theorem ignoreCatchBlock_false {e : ErrorInfo} (h : ignoreCatchBlock env e terminateBatch = false) :
    terminateBatch = false := by
  rw [ignoreCatchBlock, Bool.or_eq_false_iff] at h
  exact h.2

theorem Related.raise (hl : Loaded P codes) {e : ErrorInfo} {ignoreCatch : Bool}
    (h : Related P ld env ⟨.raise e ignoreCatch k, tr⟩ s) :
    Answers P ld codes env o ⟨.raise e ignoreCatch k, tr⟩ s ⟨unwind e ignoreCatch k, tr⟩ := by
  obtain ⟨htr, hf, hm, hret, hig, t, w, pc, r, hk, hsc, hr⟩ := h
  have hstep : execStep codes env o s = some (longjmp env e s) := by rw [execStep, hm]
  cases k with
  | stop =>
    obtain ⟨q, -, -, rfl, -⟩ := hk
    have hcaller : s.pgExceptionStack = .caller := by
      cases hid : s.pgExceptionStack with
      | caller => rfl
      | buf id =>
        obtain ⟨t', m, r', q', hsc', -⟩ := hf.landed env e hid
        rw [hsc, nil_append] at hsc'
        have := hr ⟨m, true⟩ (by rw [hsc']; simp)
        simp at this
    refine .step hstep ⟨?_, hf.step hl.wellScoped hstep, ?_⟩
    · rw [longjmp, hcaller]; exact htr
    · show (longjmp env e s).mode = .uncaught e
      rw [longjmp, hcaller]
  | seq ss k =>
    obtain ⟨q, -, -, hk⟩ := hk
    refine .stutter ⟨htr, hf, hm, hret, hig, t, w, _, r, hk, hsc, hr⟩ ?_
    simp only [unwind, rank, Cont.rank]
    omega
  | loop n c body k =>
    obtain ⟨q, -, b, w', -, -, -, -, hk⟩ := hk
    refine .stutter ⟨htr, hf, hm, hret, hig, t, w', _, r, hk, hsc, hr⟩ ?_
    simp only [unwind, rank, Cont.rank]
    omega
  | catchPart n k =>
    obtain ⟨q, -, t', rfl, -, hk⟩ := hk
    refine .stutter ⟨htr, hf, hm, hret, hig, t', w, _, ⟨n, false⟩ :: r, hk, ?_, ?_⟩ ?_
    · rw [hsc, append_assoc]; rfl
    · exact forall_mem_cons.mpr ⟨rfl, hr⟩
    · simp only [unwind, rank, Cont.rank]
      omega
  | tryPart n h k =>
    obtain ⟨q, -, b, t', rfl, -, -, hmb, hah, hrp, -, hk⟩ := hk
    rw [append_assoc] at hsc
    cases hid : s.pgExceptionStack with
    | caller =>
      have := hf.stack.of_caller (hf.handler.symm.trans hid) ⟨n, true⟩ (by rw [hsc]; simp)
      simp at this
    | buf id =>
      obtain ⟨t₁, m, r₁, q₁, hsc₁, hr₁, hH, hq₁, hmem, hinv, hpc, hmode, htrace, htb, hret'⟩ :=
        hf.landed env e hid
      obtain ⟨rfl, rfl⟩ := innermost_try_unique (hsc₁.symm.trans hsc) hr₁ hr
      obtain rfl : q₁ = b := hl.mark_inj hH hmb
      have hland : longjmp env e s = landed env e s := by
        rw [longjmp, hid]
        exact if_pos hmem
      rw [hland] at hstep
      rw [hig] at hmode
      cases ignoreCatch with
      | true =>
        refine .step hstep ⟨htr.trans htrace.symm, hinv, hmode, hret'.trans hret, ?_, t₁, w,
          _, [⟨m, false⟩], hk, ?_, by simp⟩
        · rw [htb]; exact hig
        · rw [hpc]; exact hq₁
      | false =>
        refine .step hstep ⟨htr.trans htrace.symm, hinv, hmode,
          htb.trans (ignoreCatchBlock_false hig), hret'.trans hret, t₁ ++ [⟨m, false⟩], w, ?_, ?_⟩
        · rw [hpc, listingList_singleton]; exact hah
        · rw [hpc, listingList_singleton]
          exact ⟨_, .refl _, t₁, rfl, hrp, hk⟩

end

end

/-! ### The whole program -/

section

variable {f : Func} {cc : CompileContext} {codes : List (Instr Nat)} {env : CallEnv} {o : Oracle}
  {a a' : StructState} {s : ExecState} {ss : List Stmt} {k : Cont} {tr : List Event} {n : Node}

theorem AtStmt.goto (env : CallEnv) (o : Oracle) (hacc : Accepted f cc)
    (hl : Loaded (f.listing cc) codes) {l : String}
    (hs : AtStmt (f.listing cc) (labelDepth cc) s (.goto n l) ss k t w) :
    ∃ p, findLabelList l f.action .stop = some p ∧
      Answers (f.listing cc) (labelDepth cc) codes env o a s ⟨.run p.1 p.2, s.trace⟩ := by
  have hgoto := hs.here.append.2.instr.1
  obtain ⟨q, hm, -⟩ := wellScoped hacc hgoto
  obtain ⟨ss', k', t', w', hfind, ha, hk⟩ := findLabel_of_mark hacc hm
  obtain ⟨s', hv, hn⟩ := exec_leave hl env o hs.fits hs.mode hm hs.here
  exact ⟨(ss', k'), hfind, s', hv.run rfl hs.mode hs.terminateBatch hs.returned ha hk, .inl hn⟩

theorem endOfProc_mark : (Label.endOfProc, size (f.listing cc)) ∈ marks 0 (f.listing cc) := by
  have hm := (At.self (f.listing cc)).append.2.mark.1
  have hsz : size (f.listing cc) = 0 + size (listingList (labelDepth cc) [] [] f.action) := by
    rw [Func.listing, size_append, size_mark, size_nil]
    omega
  rwa [hsz]

section

variable (hacc : Accepted f cc) (hl : Loaded (f.listing cc) codes)
  (h : Related (f.listing cc) (labelDepth cc) env a s)
include hacc hl h

theorem Related.answers (hs : structStep f.action (executorPolicy env) o a = some a') :
    Answers (f.listing cc) (labelDepth cc) codes env o a s a' := by
  obtain ⟨control, tr⟩ := a
  cases control with
  | run ss k =>
    cases ss with
    | nil => cases hs; exact h.leaveBlock hl
    | cons st ss =>
      obtain ⟨rfl, t, w, hat⟩ := h.atStmt
      cases st with
      | atomic n => cases hs; exact hat.atomic hl
      | block n body => cases hs; exact hat.block
      | ifElse n c b e =>
        cases e with
        | none => cases hs; exact hat.ifThen hl
        | some e => cases hs; exact hat.ifElse hl
      | whileLoop n c body => cases hs; exact hat.whileLoop hl
      | exit n isExit =>
        simp only [structStep] at hs
        split at hs
        · rename_i hk
          cases hs
          exact hat.exit_none hk
        · rename_i loop k' hk
          cases hs
          exact hat.exit_some hl hk
      | ret n =>
        cases hs
        exact hat.ret hl endOfProc_mark
      | label n l => cases hs; exact hat.label
      | goto n l =>
        obtain ⟨p, hp, hans⟩ := hat.goto env o hacc hl
        simp only [structStep, hp, Option.map_some, Option.some.injEq] at hs
        rwa [← hs]
      | tryCatch n b e => cases hs; exact hat.tryCatch hl
  | raise e ignoreCatch k => cases hs; exact h.raise hl
  | finished returned | uncaught e => simp [structStep] at hs

theorem Related.stop (hs : structStep f.action (executorPolicy env) o a = none) :
    execStep codes env o s = none ∧ a.exit = s.exit := by
  obtain ⟨control, tr⟩ := a
  cases control with
  | run ss k =>
    cases ss with
    | nil => simp [structStep] at hs
    | cons st ss =>
      cases st with
      | ifElse n c b e => cases e <;> simp [structStep] at hs
      | exit n isExit => simp only [structStep] at hs; split at hs <;> simp at hs
      | goto n l =>
        obtain ⟨-, t, w, hat⟩ := h.atStmt
        obtain ⟨p, hp, -⟩ := hat.goto (a := ⟨.run ss k, tr⟩) env o hacc hl
        simp [structStep, hp] at hs
      | _ => simp [structStep] at hs
  | raise e ignoreCatch k => simp [structStep] at hs
  | finished returned =>
    obtain ⟨-, -, hm, hpc, hret⟩ := h
    have hnone : codes[s.pc]? = none :=
      getElem?_eq_none (by rw [hl.resolved.length]; exact hpc)
    exact ⟨by simp [execStep, hm, hnone], by simp [exit, ExecState.exit, hm, hret]⟩
  | uncaught e =>
    have hm : s.mode = .uncaught e := h.control
    exact ⟨by simp [execStep, hm], by simp [exit, ExecState.exit, hm]⟩

end

end

theorem execStep_trace {env : CallEnv} {o : Oracle}
    {s' : ExecState} (h : execStep codes env o s = some s') : s.trace <+: s'.trace := by
  unfold execStep at h
  split at h
  · obtain ⟨i, -, rfl⟩ := Option.map_eq_some_iff.mp h
    cases i with
    | stmt n | ret n => simp only [execInstr, dispatchStmtHandleError]; split <;> grind
    | goto lineno c q => cases c <;> simp only [execInstr, execStmtGoto] <;> grind
    | saveCtx lineno q => exact prefix_refl _
    | restoreCtxFull lineno => simp only [execInstr, restoreCtxFull]; split <;> simp
    | restoreCtxPartial lineno =>
      simp only [execInstr, restoreCtxPartial, restoreCtxPartial2]; split <;> simp
  · cases h
    unfold longjmp landed
    grind
  · simp at h
  · simp at h

theorem simulation {f : Func} {cc : CompileContext}
    (hacc : Accepted f cc) (hl : Loaded (f.listing cc) codes) (env : CallEnv) (o : Oracle) :
    Simulation (structStep f.action (executorPolicy env) o) trace exit
      (execStep codes env o) ExecState.trace ExecState.exit
      (Related (f.listing cc) (labelDepth cc) env) fun a => a.control.rank where
  obs h := h.trace
  step h hs := h.answers hacc hl hs
  stop h hs := h.stop hacc hl hs
  grows hs := execStep_trace hs

/-- **The code of an accepted function runs as the tree does.**  On every oracle the
executor and the structured semantics evaluate the same conditions and execute the same
statements in the same order, for finite and infinite runs, and end in the same way. -/
theorem exec_refines_structured {f : Func} {cc : CompileContext} (h : analyze f = .ok cc) :
    ∃ codes, genExecCode f cc = .ok codes ∧ ∀ env o,
      SameRuns (structStep f.action (executorPolicy env) o) StructState.trace StructState.exit
        (StructState.init f) (execStep codes env o) ExecState.trace ExecState.exit
        ExecState.init := by
  have hacc := analyze_ok h
  obtain ⟨codes, hgen, hres, hcode⟩ := genExecCode_ok hacc
  refine ⟨codes, hgen, fun env o => (simulation hacc ⟨hres, hcode⟩ env o).sameRuns ?_⟩
  obtain ⟨ha, hk⟩ := listing_continues f cc
  exact ⟨rfl, CtxInv.init hcode.start, rfl, rfl, rfl, [], [], ha, hk⟩

theorem exec_refines_structured_tryFunc :
    ∃ cc codes, analyze tryFunc = .ok cc ∧ genExecCode tryFunc cc = .ok codes ∧ ∀ env o,
      SameRuns (structStep tryFunc.action (executorPolicy env) o) StructState.trace
        StructState.exit (StructState.init tryFunc) (execStep codes env o) ExecState.trace
        ExecState.exit ExecState.init := by
  obtain ⟨codes, hgen, h⟩ := exec_refines_structured (f := tryFunc) rfl
  exact ⟨_, codes, rfl, hgen, h⟩

/-! ### An error inside a `CATCH` part -/

/-- An error that the executor ignores outside of `TRY` parts. -/
def ignorableError : ErrorInfo :=
  ⟨false, false, true, false, false, true, false, false, false, false, false, false⟩

/-- The first two statements of `tryFunc`, `a` and `b`, fail. -/
def failingOracle : Oracle :=
  ⟨fun _ _ => none, fun _ n => if n.addr = 2 ∨ n.addr = 4 then some ignorableError else none⟩

/-- **An error inside a `CATCH` part does not always propagate.**  Outside of other
`TRY` parts an ignorable error is reported and the `CATCH` part goes on: `c` is executed,
while under the strict policy the error of `b` ends the function. -/
theorem error_in_catch_continues :
    ∃ cc codes s a, analyze tryFunc = .ok cc ∧ genExecCode tryFunc cc = .ok codes ∧
      Stops (execStep codes ⟨false, false, false⟩ failingOracle) ExecState.init s ∧
      s.trace = [.exec ⟨2, 2⟩ (some ignorableError), .exec ⟨4, 4⟩ (some ignorableError),
        .exec ⟨5, 5⟩ none] ∧ s.exit = .finished false ∧
      Stops (structStep tryFunc.action strictPolicy failingOracle) (StructState.init tryFunc) a ∧
      a.trace = [.exec ⟨2, 2⟩ (some ignorableError), .exec ⟨4, 4⟩ (some ignorableError)] ∧
      a.exit = .uncaught ignorableError :=
  ⟨_, _, _, _, rfl, rfl, ⟨⟨6, rfl⟩, rfl⟩, rfl, rfl, ⟨⟨9, rfl⟩, rfl⟩, rfl, rfl⟩

end Babelfish.PLtsql
