import Babelfish.PLtsql.Listing

/-!
# The scopes of the code

`scopeAt P pc` are the `TRY`/`CATCH` parts around the instruction at `pc`, none at the
end of the code.  The instructions move between scopes in step with what they do to
the error-context stack: `WellScoped` says how.  A saving instruction enters a `TRY`
part, and the `CATCH` part at its target; a restoring instruction leaves the part its
name says; everything else stays where it is, jumps included.

* `Placed.ifThen`, `Placed.whileLoop`, ...: a placed statement taken apart.
* `entry_scope`: a statement is entered in its own scope.
* `wellScoped`: all code of an accepted function is well scoped.
* `genExecCode_ok`: an accepted function has code.
* `analyze_genExecCode_inside`: its jumps stay inside the code.
-/

namespace Babelfish.PLtsql

open Lib Lib.Assembly List Stmt

/-- The parts around the instruction at `pc`. -/
def scopeAt (P : Listing Label Scoped) (pc : Nat) : List TryCatchInfo :=
  ((instrs P)[pc]?.map Prod.snd).getD []

def Holds (P : Listing Label Scoped) (pc : Nat) (i : Instr Label) (t : List TryCatchInfo) : Prop :=
  (instrs P)[pc]? = some (i, t)

variable {P r : Listing Label Scoped} {pc : Nat} {i : Instr Label} {t : List TryCatchInfo}
  {g : Instr Label} {i' : Instr Nat} {l : Label} {cc : CompileContext} {lineno d pos : Nat}

theorem Holds.scope (h : Holds P pc i t) : scopeAt P pc = t := by
  rw [scopeAt, h]; rfl

/-- The listing `a` sits at `pos` and what follows it has scope `t`. -/
structure Placed (P : Listing Label Scoped) (t : List TryCatchInfo) (pos : Nat)
    (a : Listing Label Scoped) : Prop where
  at_pos : At P pos a
  after : scopeAt P (pos + size a) = t

section

variable {ld : String → Nat}
  {w : List (Node × Nat)} {pos : Nat} {n : Node} {c : Expr} {b e : Stmt} {body : List Stmt}

/-! ### Placed statements -/

theorem Placed.ifThen (h : Placed P t pos (listing ld t w (.ifElse n c b none))) :
    Holds P pos (.goto n.lineno (some c) (.elseEnd n)) t ∧
      Placed P t (pos + 1) (b.listing ld t w) ∧
      (Label.elseEnd n, pos + 1 + size (b.listing ld t w)) ∈ marks 0 P ∧
      pos + size (listing ld t w (.ifElse n c b none)) =
        pos + 1 + size (b.listing ld t w) := by
  obtain ⟨hp, ha⟩ := h
  obtain ⟨hi, hp⟩ := hp.instr
  obtain ⟨hb, hp⟩ := hp.append
  have hsz : pos + size (listing ld t w (.ifElse n c b none)) =
      pos + 1 + size (b.listing ld t w) := by
    rw [listing, size_instr, size_append, size_mark, size_nil]
    omega
  rw [hsz] at ha
  exact ⟨hi, ⟨hb, ha⟩, hp.mark.1, hsz⟩

theorem Placed.ifElse (h : Placed P t pos (listing ld t w (.ifElse n c b (some e)))) :
    ∃ q, q = pos + 1 + size (b.listing ld t w) ∧
      Holds P pos (.goto n.lineno (some c) (.elseBegin n)) t ∧
      Placed P t (pos + 1) (b.listing ld t w) ∧
      Holds P q (.goto n.lineno none (.elseEnd n)) t ∧
      (Label.elseBegin n, q + 1) ∈ marks 0 P ∧ Placed P t (q + 1) (e.listing ld t w) ∧
      (Label.elseEnd n, q + 1 + size (e.listing ld t w)) ∈ marks 0 P ∧
      pos + size (listing ld t w (.ifElse n c b (some e))) =
        q + 1 + size (e.listing ld t w) := by
  obtain ⟨hp, ha⟩ := h
  obtain ⟨hi, hp⟩ := hp.instr
  obtain ⟨hb, hp⟩ := hp.append
  obtain ⟨hg, hp⟩ := hp.instr
  obtain ⟨hm, hp⟩ := hp.mark
  obtain ⟨he, hp⟩ := hp.append
  have hsz : pos + size (listing ld t w (.ifElse n c b (some e))) =
      pos + 1 + size (b.listing ld t w) + 1 + size (e.listing ld t w) := by
    rw [listing, size_instr, size_append, size_instr, size_mark, size_append, size_mark, size_nil]
    omega
  rw [hsz] at ha
  exact ⟨_, rfl, hi, ⟨hb, Holds.scope hg⟩, hg, hm, ⟨he, ha⟩, hp.mark.1, hsz⟩

theorem Placed.whileLoop (h : Placed P t pos (listing ld t w (.whileLoop n c body))) :
    ∃ q, q = pos + 1 + size (listingList ld t (w ++ [(n, t.length)]) body) ∧
      (Label.loopBegin n, pos) ∈ marks 0 P ∧
      Holds P pos (.goto n.lineno (some c) (.loopEnd n)) t ∧
      Placed P t (pos + 1) (listingList ld t (w ++ [(n, t.length)]) body) ∧
      Holds P q (.goto n.lineno none (.loopBegin n)) t ∧
      (Label.loopEnd n, q + 1) ∈ marks 0 P ∧ scopeAt P (q + 1) = t ∧
      pos + size (listing ld t w (.whileLoop n c body)) = q + 1 := by
  obtain ⟨hp, ha⟩ := h
  obtain ⟨hm, hp⟩ := hp.mark
  obtain ⟨hi, hp⟩ := hp.instr
  obtain ⟨hb, hp⟩ := hp.append
  obtain ⟨hg, hp⟩ := hp.instr
  have hsz : pos + size (listing ld t w (.whileLoop n c body)) =
      pos + 1 + size (listingList ld t (w ++ [(n, t.length)]) body) + 1 := by
    rw [listing, size_mark, size_instr, size_append, size_instr, size_mark, size_nil]
    omega
  rw [hsz] at ha
  exact ⟨_, rfl, hm, hi, ⟨hb, Holds.scope hg⟩, hg, hp.mark.1, ha, hsz⟩

theorem Placed.tryCatch (h : Placed P t pos (listing ld t w (.tryCatch n b e))) :
    ∃ q r, q = pos + 1 + size (b.listing ld (t ++ [⟨n, true⟩]) w) ∧
      r = q + 2 + size (e.listing ld (t ++ [⟨n, false⟩]) w) ∧
      Holds P pos (.saveCtx n.lineno (.catchBegin n)) t ∧
      Placed P (t ++ [⟨n, true⟩]) (pos + 1) (b.listing ld (t ++ [⟨n, true⟩]) w) ∧
      Holds P q (.restoreCtxFull n.lineno) (t ++ [⟨n, true⟩]) ∧
      Holds P (q + 1) (.goto n.lineno none (.catchEnd n)) t ∧
      (Label.catchBegin n, q + 2) ∈ marks 0 P ∧
      Placed P (t ++ [⟨n, false⟩]) (q + 2) (e.listing ld (t ++ [⟨n, false⟩]) w) ∧
      Holds P r (.restoreCtxPartial n.lineno) (t ++ [⟨n, false⟩]) ∧
      (Label.catchEnd n, r + 1) ∈ marks 0 P ∧ scopeAt P (r + 1) = t ∧
      pos + size (listing ld t w (.tryCatch n b e)) = r + 1 := by
  obtain ⟨hp, ha⟩ := h
  obtain ⟨hi, hp⟩ := hp.instr
  obtain ⟨hb, hp⟩ := hp.append
  obtain ⟨hf, hp⟩ := hp.instr
  obtain ⟨hg, hp⟩ := hp.instr
  obtain ⟨hm, hp⟩ := hp.mark
  obtain ⟨he, hp⟩ := hp.append
  obtain ⟨hr, hp⟩ := hp.instr
  have hsz : pos + size (listing ld t w (.tryCatch n b e)) =
      pos + 1 + size (b.listing ld (t ++ [⟨n, true⟩]) w) + 2 +
        size (e.listing ld (t ++ [⟨n, false⟩]) w) + 1 := by
    rw [listing, size_instr, size_append, size_instr, size_instr, size_mark, size_append,
      size_instr, size_mark, size_nil]
    omega
  rw [hsz] at ha
  exact ⟨_, _, rfl, rfl, hi, ⟨hb, Holds.scope hf⟩, hf, hg, hm, ⟨he, Holds.scope hr⟩, hr,
    hp.mark.1, ha, hsz⟩

/-! ### Leaving parts -/

theorem leave_entry {i : Nat} (hd : d ≤ i) (hi : i ≤ t.length)
    (h : At P pos (leave lineno t d i ++ .instr (g, t.take d) :: r)) :
    scopeAt P pos = t.take i := by
  cases i with
  | zero =>
    obtain rfl : d = 0 := by omega
    exact Holds.scope h.instr.1
  | succ i =>
    rw [leave] at h
    split_ifs at h with hdi
    · rw [getElem?_eq_getElem (by omega)] at h
      exact Holds.scope h.instr.1
    · obtain rfl : d = i + 1 := by omega
      exact Holds.scope h.instr.1

end

section

variable {ld : String → Nat} {w : List (Node × Nat)}

theorem leave_eq_nil {i : Nat} (h : i ≤ d) : leave lineno t d i = [] := by
  cases i with
  | zero => rfl
  | succ i => rw [leave, if_neg (by omega)]

theorem leave_all_entry (h : At P pos (leave lineno t d t.length ++ .instr (g, t.take d) :: r)) :
    scopeAt P pos = t := by
  by_cases hd : d ≤ t.length
  · rw [leave_entry hd (Nat.le_refl _) h, take_length]
  · rw [leave_eq_nil (by omega)] at h
    rw [Holds.scope h.instr.1, take_of_length_le (by omega)]

/-- **A statement is entered in its own scope.** -/
theorem entry_scope (P : Listing Label Scoped) (ld : String → Nat) :
    (∀ (s : Stmt) t w pos, Placed P t pos (s.listing ld t w) → scopeAt P pos = t) ∧
    ∀ (ss : List Stmt) t w pos, Placed P t pos (listingList ld t w ss) → scopeAt P pos = t := by
  apply ind
  case atomic => intro n t w pos h; exact Holds.scope h.at_pos.instr.1
  case block => intro n body ih t w pos h; exact ih t w pos h
  case ifThen => intro n c b _ t w pos h; exact h.ifThen.1.scope
  case ifElse =>
    intro n c b e _ _ t w pos h
    obtain ⟨q, -, hi, -⟩ := h.ifElse
    exact hi.scope
  case whileLoop =>
    intro n c body _ t w pos h
    obtain ⟨q, -, -, hi, -⟩ := h.whileLoop
    exact hi.scope
  case exit =>
    intro n isExit t w pos h
    rw [listing] at h
    split at h
    · exact h.after
    · exact leave_all_entry h.at_pos
  case ret => intro n t w pos h; exact Holds.scope h.at_pos.instr.1
  case label => intro n l t w pos h; exact h.after
  case goto => intro n l t w pos h; exact leave_all_entry h.at_pos
  case tryCatch =>
    intro n b e _ _ t w pos h
    obtain ⟨q, r, -, -, hi, -⟩ := h.tryCatch
    exact hi.scope
  case nil => intro t w pos h; exact h.after
  case cons =>
    intro s ss ihs ihss t w pos h
    obtain ⟨hs, hss⟩ := h.at_pos.append
    have ha := h.after
    rw [listingList, size_append, ← Nat.add_assoc] at ha
    exact ihs t w pos ⟨hs, ihss t w _ ⟨hss, ha⟩⟩

theorem Placed.cons {s : Stmt}
    {ss : List Stmt} (h : Placed P t pos (listingList ld t w (s :: ss))) :
    Placed P t pos (s.listing ld t w) ∧
      Placed P t (pos + size (s.listing ld t w)) (listingList ld t w ss) := by
  obtain ⟨hs, hss⟩ := h.at_pos.append
  have ha := h.after
  rw [listingList, size_append, ← Nat.add_assoc] at ha
  have hp : Placed P t (pos + size (s.listing ld t w)) (listingList ld t w ss) := ⟨hss, ha⟩
  exact ⟨⟨hs, (entry_scope P ld).2 ss t w _ hp⟩, hp⟩

/-! ### How instructions move between scopes -/

/-- The label is registered at an address with scope `t`. -/
def Target (P : Listing Label Scoped) (l : Label) (t : List TryCatchInfo) : Prop :=
  ∃ q, (l, q) ∈ marks 0 P ∧ scopeAt P q = t

/-- What the instruction `i` at `pc` says about the scopes of its successors. -/
def WellScoped (P : Listing Label Scoped) (pc : Nat) (i : Scoped) : Prop :=
  match i.1 with
  | .stmt _ | .ret _ => scopeAt P (pc + 1) = i.2
  | .goto _ none l => Target P l i.2
  | .goto _ (some _) l => Target P l i.2 ∧ scopeAt P (pc + 1) = i.2
  | .saveCtx _ l =>
    ∃ a, l = .catchBegin a ∧ Target P l (i.2 ++ [⟨a, false⟩]) ∧
      scopeAt P (pc + 1) = i.2 ++ [⟨a, true⟩]
  | .restoreCtxFull _ => ∃ a, i.2 = scopeAt P (pc + 1) ++ [⟨a, true⟩]
  | .restoreCtxPartial _ => ∃ a, i.2 = scopeAt P (pc + 1) ++ [⟨a, false⟩]

theorem leave_wellScoped {i : Nat} (hd : d ≤ i) (hi : i ≤ t.length)
    (h : At P pos (leave lineno t d i ++ .instr (g, t.take d) :: r)) :
    Every (WellScoped P) pos (leave lineno t d i) := by
  induction i generalizing pos with
  | zero => trivial
  | succ i ih =>
    rw [leave] at h ⊢
    split_ifs at h ⊢
    · have hget : t[i]? = some t[i] := getElem?_eq_getElem (by omega)
      rw [hget] at h ⊢
      obtain ⟨_, h⟩ := At.instr h
      have hs : scopeAt P (pos + 1) = t.take i := leave_entry (by omega) (by omega) h
      have htake : t.take (i + 1) = t.take i ++ [t[i]] := by
        rw [take_add_one, hget]; rfl
      refine ⟨?_, ih (by omega) (by omega) h⟩
      rw [htake]
      rcases t[i] with ⟨a, _ | _⟩ <;> exact ⟨a, by rw [hs]⟩
    · trivial

/-- Both labels of every loop around the current statement are registered in the scope
of the loop. -/
def LoopsPlaced (P : Listing Label Scoped) (t : List TryCatchInfo) (w : List (Node × Nat)) :
    Prop :=
  ∀ p ∈ w, p.2 ≤ t.length ∧ Target P (.loopBegin p.1) (t.take p.2) ∧
    Target P (.loopEnd p.1) (t.take p.2)

theorem LoopsPlaced.part (h : LoopsPlaced P t w) (info : TryCatchInfo) :
    LoopsPlaced P (t ++ [info]) w := by
  intro p hp
  obtain ⟨hd, hb, he⟩ := h p hp
  rw [take_append_of_le_length hd]
  exact ⟨by rw [length_append]; omega, hb, he⟩

/-- The label of the `GOTO` `g` is registered in a scope that encloses `g`; `all` are the
scopes of the whole function. -/
def GotoPlaced (P : Listing Label Scoped) (ld : String → Nat) (all : List (Nat × ScopeContext))
    (g : Node × String) : Prop :=
  ∀ src, (g.1.addr, src) ∈ all → ld g.2 ≤ src.nestingTrycatchInfos.length ∧
    Target P (.user g.2) (src.nestingTrycatchInfos.take (ld g.2))

/-- All jump targets of a piece of program with scopes `sc` and `GOTO`s `gs` are placed. -/
structure JumpsPlaced (P : Listing Label Scoped) (ld : String → Nat)
    (all : List (Nat × ScopeContext)) (t : List TryCatchInfo) (w : List (Node × Nat))
    (sc : List (Nat × ScopeContext)) (gs : List (Node × String)) : Prop where
  loops : LoopsPlaced P t w
  scopes : sc ⊆ all
  gotos : ∀ g ∈ gs, GotoPlaced P ld all g
  endOfProc : Target P .endOfProc []

theorem JumpsPlaced.append {all t w sc sc' gs gs'}
    (h : JumpsPlaced P ld all t w (sc ++ sc') (gs ++ gs')) :
    JumpsPlaced P ld all t w sc gs ∧ JumpsPlaced P ld all t w sc' gs' := by
  obtain ⟨hl, hs, hg, he⟩ := h
  obtain ⟨hs, hs'⟩ := append_subset.mp hs
  obtain ⟨hg, hg'⟩ := forall_mem_append.mp hg
  exact ⟨⟨hl, hs, hg, he⟩, hl, hs', hg', he⟩

theorem JumpsPlaced.part {all t w sc gs} (h : JumpsPlaced P ld all t w sc gs)
    (info : TryCatchInfo) : JumpsPlaced P ld all (t ++ [info]) w sc gs :=
  ⟨h.loops.part info, h.scopes, h.gotos, h.endOfProc⟩

/-- A jump out of parts: the restoring instructions and then the jump itself. -/
theorem leave_jump_wellScoped (hd : d ≤ t.length) (hl : Target P l (t.take d))
    (h : At P pos (leave lineno t d t.length ++ [.instr (.goto lineno none l, t.take d)])) :
    Every (WellScoped P) pos
      (leave lineno t d t.length ++ [.instr (.goto lineno none l, t.take d)]) := by
  exact (leave_wellScoped hd (Nat.le_refl _) h).append ⟨hl, trivial⟩

theorem stmt_wellScoped (all : List (Nat × ScopeContext)) :
    (∀ (s : Stmt) t w pos, Placed P t pos (s.listing ld t w) →
      JumpsPlaced P ld all t w (s.scopes t (loopAddrs w)) s.gotos →
      Every (WellScoped P) pos (s.listing ld t w)) ∧
    ∀ (ss : List Stmt) t w pos, Placed P t pos (listingList ld t w ss) →
      JumpsPlaced P ld all t w (scopesList t (loopAddrs w) ss) (gotosList ss) →
      Every (WellScoped P) pos (listingList ld t w ss) := by
  have entry := (entry_scope P ld).1
  apply ind
  case atomic => intro n t w pos h _; exact ⟨h.after, trivial⟩
  case block => intro n body ih t w pos h hj; exact ih t w pos h hj
  case ifThen =>
    intro n c b ih t w pos h hj
    obtain ⟨_, hb, hm, hsz⟩ := h.ifThen
    refine ⟨⟨⟨_, hm, hb.after⟩, entry b t w _ hb⟩, ?_⟩
    exact .append (ih t w _ hb hj) trivial
  case ifElse =>
    intro n c b e ihb ihe t w pos h hj
    obtain ⟨hjb, hje⟩ := hj.append
    obtain ⟨q, rfl, _, hb, hg, hmb, he, hme, hsz⟩ := h.ifElse
    refine ⟨⟨⟨_, hmb, entry e t w _ he⟩, entry b t w _ hb⟩, ?_⟩
    exact .append (ihb t w _ hb hjb) ⟨⟨_, hme, he.after⟩, .append (ihe t w _ he hje) trivial⟩
  case whileLoop =>
    intro n c body ih t w pos h hj
    obtain ⟨q, rfl, hmb, hi, hb, hg, hme, ha, hsz⟩ := h.whileLoop
    have hbegin : Target P (.loopBegin n) t := ⟨_, hmb, hi.scope⟩
    have hend : Target P (.loopEnd n) t := ⟨_, hme, ha⟩
    have hj' : JumpsPlaced P ld all t (w ++ [(n, t.length)])
        (scopesList t (loopAddrs (w ++ [(n, t.length)])) body) (gotosList body) := by
      refine ⟨?_, ?_, hj.gotos, hj.endOfProc⟩
      · refine forall_mem_append.mpr ⟨hj.loops, forall_mem_singleton.mpr ?_⟩
        rw [take_length]
        exact ⟨Nat.le_refl _, hbegin, hend⟩
      · intro p hp
        rw [loopAddrs_append] at hp
        exact hj.scopes (mem_cons_of_mem _ hp)
    refine ⟨⟨hend, (entry_scope P ld).2 body t _ _ hb⟩, ?_⟩
    exact .append (ih t _ _ hb hj') ⟨hbegin, trivial⟩
  case exit =>
    intro n isExit t w pos h hj
    rw [listing] at h ⊢
    cases hw : w.getLast? with
    | none => trivial
    | some p =>
      rw [hw] at h
      obtain ⟨hd, hb, he⟩ := hj.loops _ (mem_of_getLast? hw)
      refine leave_jump_wellScoped hd ?_ h.at_pos
      cases isExit
      · exact hb
      · exact he
  case ret =>
    intro n t w pos h hj
    have hp := h.at_pos.instr.2
    refine ⟨?_, leave_jump_wellScoped (Nat.zero_le _) hj.endOfProc hp⟩
    exact leave_all_entry (d := 0) hp
  case label => intro n l t w pos h _; trivial
  case goto =>
    intro n l t w pos h hj
    obtain ⟨hd, ht⟩ := hj.gotos (n, l) mem_cons_self ⟨t, loopAddrs w⟩
      (hj.scopes mem_cons_self)
    exact leave_jump_wellScoped hd ht h.at_pos
  case tryCatch =>
    intro n b e ihb ihe t w pos h hj
    obtain ⟨hjb, hje⟩ := hj.append
    obtain ⟨q, r, rfl, rfl, _, hb, hf, hg, hmb, he, hr, hme, ha, hsz⟩ := h.tryCatch
    refine ⟨⟨n, rfl, ⟨_, hmb, entry e _ w _ he⟩, entry b _ w _ hb⟩, ?_⟩
    refine .append (ihb _ w _ hb (hjb.part _)) ⟨⟨n, by rw [hg.scope]⟩, ⟨_, hme, ha⟩, ?_⟩
    exact .append (ihe _ w _ he (hje.part _)) ⟨⟨n, by rw [ha]⟩, trivial⟩
  case nil => intro t w pos _ _; trivial
  case cons =>
    intro s ss ihs ihss t w pos h hj
    obtain ⟨hs, hss⟩ := h.cons
    obtain ⟨hjs, hjss⟩ := hj.append
    exact .append (ihs t w pos hs hjs) (ihss t w _ hss hjss)

/-! ### Labels lie in the scope of their statement -/

/-- Each of the labels `ls` is registered in its scope, one of `sc`. -/
def LabelsPlaced (P : Listing Label Scoped) (ls : List (String × Node))
    (sc : List (Nat × ScopeContext)) : Prop :=
  ∀ p ∈ ls, ∃ s, (p.2.addr, s) ∈ sc ∧ Target P (.user p.1) s.nestingTrycatchInfos

theorem LabelsPlaced.append {ls ls' sc sc'} (h : LabelsPlaced P ls sc)
    (h' : LabelsPlaced P ls' sc') : LabelsPlaced P (ls ++ ls') (sc ++ sc') := by
  refine forall_mem_append.mpr ⟨fun p hp => ?_, fun p hp => ?_⟩
  · obtain ⟨s, hs, ht⟩ := h p hp
    exact ⟨s, mem_append_left _ hs, ht⟩
  · obtain ⟨s, hs, ht⟩ := h' p hp
    exact ⟨s, mem_append_right _ hs, ht⟩

theorem label_placed :
    (∀ (s : Stmt) t w pos, Placed P t pos (s.listing ld t w) →
      LabelsPlaced P s.labels (s.scopes t (loopAddrs w))) ∧
    ∀ (ss : List Stmt) t w pos, Placed P t pos (listingList ld t w ss) →
      LabelsPlaced P (labelsList ss) (scopesList t (loopAddrs w) ss) := by
  apply ind
  case atomic => exact fun _ _ _ _ _ => nofun
  case block => exact fun _ _ ih => ih
  case ifThen => intro n c b ih t w pos h; exact ih t w _ h.ifThen.2.1
  case ifElse =>
    intro n c b e ihb ihe t w pos h
    obtain ⟨q, rfl, _, hb, _, _, he, _⟩ := h.ifElse
    exact (ihb t w _ hb).append (ihe t w _ he)
  case whileLoop =>
    intro n c body ih t w pos h p hp
    obtain ⟨q, rfl, _, _, hb, _⟩ := h.whileLoop
    obtain ⟨sc, hsc, ht⟩ := ih t _ _ hb p hp
    rw [loopAddrs_append] at hsc
    exact ⟨sc, mem_cons_of_mem _ hsc, ht⟩
  case exit => exact fun _ _ _ _ _ _ => nofun
  case ret => exact fun _ _ _ _ _ => nofun
  case label =>
    intro n l t w pos h p hp
    obtain rfl := mem_singleton.mp hp
    exact ⟨⟨t, loopAddrs w⟩, mem_cons_self, pos, h.at_pos.mark.1, h.after⟩
  case goto => exact fun _ _ _ _ _ _ => nofun
  case tryCatch =>
    intro n b e ihb ihe t w pos h
    obtain ⟨q, r, rfl, rfl, _, hb, _, _, _, he, _⟩ := h.tryCatch
    exact (ihb _ w _ hb).append (ihe _ w _ he)
  case nil => exact fun _ _ _ _ => nofun
  case cons =>
    intro s ss ihs ihss t w pos h
    obtain ⟨hs, hss⟩ := h.cons
    exact (ihs t w _ hs).append (ihss t w _ hss)

end

/-! ### Accepted functions -/

section

variable {f : Func} {cc : CompileContext}

theorem listing_placed :
    Placed (f.listing cc) [] 0 (listingList (labelDepth cc) [] [] f.action) := by
  refine ⟨(At.self (f.listing cc)).append.1, ?_⟩
  have hlen : (instrs (f.listing cc)).length =
      0 + size (listingList (labelDepth cc) [] [] f.action) := by
    rw [Func.listing, instrs_append, length_append, size]
    simp
  rw [scopeAt, getElem?_eq_none (by omega)]
  rfl

theorem scopes_inj {a : Nat} {sc sc' : ScopeContext}
    (h : (a, sc) ∈ scopesList [] [] f.action) (h' : (a, sc') ∈ scopesList [] [] f.action) :
    sc = sc' := by
  have hn := (scopes_keys_sublist.2 f.action [] []).nodup f.addrs_nodup
  have h₁ := (enterAll_empty_iff hn).mpr h
  have h₂ := (enterAll_empty_iff hn).mpr h'
  exact Option.some.inj (h₁.symm.trans h₂)

theorem Accepted.gotoPlaced (h : Accepted f cc) {g : Node × String} (hg : g ∈ gotosList f.action) :
    GotoPlaced (f.listing cc) (labelDepth cc) (scopesList [] [] f.action) g := by
  obtain ⟨m, src', dst, hl, hs', hd, hpre, -⟩ := h.gotos g hg
  intro src hs
  obtain rfl := scopes_inj hs hs'
  have hdepth : labelDepth cc g.2 = dst.nestingTrycatchInfos.length := by
    simp [labelDepth, h.label _ hl, h.scope _ hd]
  obtain ⟨sc, hsc, ht⟩ := label_placed.2 f.action [] [] 0 listing_placed _ hl
  obtain rfl := scopes_inj hsc hd
  rw [hdepth, ← prefix_iff_eq_take.mp hpre]
  exact ⟨hpre.length_le, ht⟩

theorem Accepted.jumpsPlaced (h : Accepted f cc) :
    JumpsPlaced (f.listing cc) (labelDepth cc) (scopesList [] [] f.action) [] []
      (scopesList [] [] f.action) (gotosList f.action) := by
  refine ⟨by simp [LoopsPlaced], List.Subset.refl _, fun g hg => h.gotoPlaced hg, ?_⟩
  exact ⟨_, (At.self (f.listing cc)).append.2.mark.1, listing_placed.after⟩

/-- **All code of an accepted function is well scoped.** -/
theorem wellScoped (h : Accepted f cc) (hi : Holds (f.listing cc) pc i t) :
    WellScoped (f.listing cc) pc (i, t) := by
  have he : Every (WellScoped (f.listing cc)) 0 (f.listing cc) := by
    exact .append ((stmt_wellScoped _).2 f.action [] [] 0 listing_placed h.jumpsPlaced)
      trivial
  have := he.get _ 0 pc hi
  rwa [Nat.zero_add] at this

end

/-! ### The resolved code -/

/-- `codes` is the listing `P` with its labels resolved. -/
structure Resolved (P : Listing Label Scoped) (codes : List (Instr Nat)) : Prop where
  length : codes.length = size P
  label : ∀ {l q}, (l, q) ∈ marks 0 P → labelTable P l = some q
  get : ∀ {pc i t}, Holds P pc i t →
    ∃ i', resolveInstr (labelTable P) i = .ok i' ∧ codes[pc]? = some i'

/-- The `CATCH` part of the construct at node `a` starts at `q`. -/
def HandlerAt (P : Listing Label Scoped) (a : Node) (q : Nat) : Prop :=
  (Label.catchBegin a, q) ∈ marks 0 P

/-- The scopes of the successors of the instruction `i` at `pc`, in code whose `CATCH`
parts start where `H` says. -/
def ScopedInstr (Γ : Nat → List TryCatchInfo) (H : Node → Nat → Prop) (pc : Nat) :
    Instr Nat → Prop
  | .stmt _ | .ret _ => Γ (pc + 1) = Γ pc
  | .goto _ none q => Γ q = Γ pc
  | .goto _ (some _) q => Γ q = Γ pc ∧ Γ (pc + 1) = Γ pc
  | .saveCtx _ q =>
    ∃ a, H a q ∧ Γ q = Γ pc ++ [⟨a, false⟩] ∧ Γ (pc + 1) = Γ pc ++ [⟨a, true⟩]
  | .restoreCtxFull _ => ∃ a, Γ pc = Γ (pc + 1) ++ [⟨a, true⟩]
  | .restoreCtxPartial _ => ∃ a, Γ pc = Γ (pc + 1) ++ [⟨a, false⟩]

/-- The code moves between the scopes `Γ` as it should, from none at the start to none
at the end. -/
structure ScopedCode (Γ : Nat → List TryCatchInfo) (H : Node → Nat → Prop)
    (codes : List (Instr Nat)) : Prop where
  start : Γ 0 = []
  step : ∀ {pc i}, codes[pc]? = some i → ScopedInstr Γ H pc i
  stop : ∀ {pc}, codes.length ≤ pc → Γ pc = []

theorem Holds.of_lt (h : pc < size P) : ∃ i, Holds P pc i (scopeAt P pc) := by
  have hget : (instrs P)[pc]? = some (instrs P)[pc] := getElem?_eq_getElem h
  refine ⟨(instrs P)[pc].1, ?_⟩
  rw [Holds, scopeAt, hget]
  rfl

section

variable {codes : List (Instr Nat)}

theorem Resolved.holds (h : Resolved P codes) (hi : codes[pc]? = some i') :
    ∃ i, Holds P pc i (scopeAt P pc) ∧ resolveInstr (labelTable P) i = .ok i' := by
  obtain ⟨hlt, -⟩ := List.getElem?_eq_some_iff.mp hi
  obtain ⟨i, hh⟩ := Holds.of_lt (h.length ▸ hlt)
  obtain ⟨j, hr, hj⟩ := h.get hh
  rw [hi, Option.some.injEq] at hj
  exact ⟨i, hh, hj ▸ hr⟩

theorem Target.resolve (h : Resolved P codes) (ht : Target P l t) :
    ∃ q, getLabelIndex (labelTable P) l = .ok q ∧ (l, q) ∈ marks 0 P ∧ scopeAt P q = t := by
  obtain ⟨q, hm, hs⟩ := ht
  exact ⟨q, by rw [getLabelIndex, h.label hm], hm, hs⟩

theorem Resolved.scopedInstr (h : Resolved P codes)
    (hw : WellScoped P pc (i, scopeAt P pc)) (hr : resolveInstr (labelTable P) i = .ok i') :
    ScopedInstr (scopeAt P) (HandlerAt P) pc i' := by
  cases i with
  | stmt n | ret n => cases hr; exact hw
  | goto lineno c l =>
    cases c with
    | none =>
      obtain ⟨q, hq, -, hs⟩ := Target.resolve h hw
      rw [resolveInstr, hq] at hr
      cases hr
      exact hs
    | some c =>
      obtain ⟨q, hq, -, hs⟩ := Target.resolve h hw.1
      rw [resolveInstr, hq] at hr
      cases hr
      exact ⟨hs, hw.2⟩
  | saveCtx lineno l =>
    obtain ⟨a, rfl, ht, hnext⟩ := hw
    obtain ⟨q, hq, hm, hs⟩ := Target.resolve h ht
    rw [resolveInstr, hq] at hr
    cases hr
    exact ⟨a, hm, hs, hnext⟩
  | restoreCtxFull lineno | restoreCtxPartial lineno => cases hr; exact hw

end

theorem WellScoped.resolves {f : Func} (h : Accepted f cc)
    (hw : WellScoped (f.listing cc) pc (i, t)) :
    ∃ i', resolveInstr (labelTable (f.listing cc)) i = .ok i' := by
  have key : ∀ {l t}, Target (f.listing cc) l t →
      ∃ q, getLabelIndex (labelTable (f.listing cc)) l = .ok q := by
    rintro l t ⟨q, hm, -⟩
    exact ⟨q, by rw [getLabelIndex, labelTable_of_mem h hm]⟩
  cases i with
  | goto lineno c l =>
    have ht : Target (f.listing cc) l t := by
      cases c with
      | none => exact hw
      | some c => exact hw.1
    obtain ⟨q, hq⟩ := key ht
    exact ⟨.goto lineno c q, by rw [resolveInstr, hq]; rfl⟩
  | saveCtx lineno l =>
    obtain ⟨a, -, ht, -⟩ := hw
    obtain ⟨q, hq⟩ := key ht
    exact ⟨.saveCtx lineno q, by rw [resolveInstr, hq]; rfl⟩
  | _ => exact ⟨_, rfl⟩

/-- **An accepted function has code**, its resolved listing, and the code is scoped. -/
theorem genExecCode_ok {f : Func} (h : Accepted f cc) :
    ∃ codes, genExecCode f cc = .ok codes ∧ Resolved (f.listing cc) codes ∧
      ScopedCode (scopeAt (f.listing cc)) (HandlerAt (f.listing cc)) codes := by
  have hres : ∀ i ∈ (instrs (f.listing cc)).map Prod.fst,
      ∃ i', resolveInstr (labelTable (f.listing cc)) i = .ok i' := by
    intro i hi
    obtain ⟨p, hp, rfl⟩ := mem_map.mp hi
    obtain ⟨pc, hpc⟩ := mem_iff_getElem?.mp hp
    exact (wellScoped h (i := p.1) (t := p.2) hpc).resolves h
  obtain ⟨codes, hc, hlen, hget⟩ := resolveLabels_ok _ hres
  have hr : Resolved (f.listing cc) codes := by
    refine ⟨by rw [hlen, length_map]; rfl, labelTable_of_mem h, ?_⟩
    intro pc i t hi
    exact hget pc i (by rw [getElem?_map, hi]; rfl)
  refine ⟨codes, by rw [genExecCode_eq h, hc], hr, ?_, ?_, ?_⟩
  · exact (entry_scope _ _).2 f.action [] [] 0 listing_placed
  · intro pc i' hi
    obtain ⟨i, hh, hri⟩ := hr.holds hi
    exact hr.scopedInstr (wellScoped h hh) hri
  · intro pc hpc
    rw [scopeAt, getElem?_eq_none (by rw [hr.length] at hpc; exact hpc)]
    rfl

/-! ### Jumps stay inside the code -/

/-- Where an instruction may send the execution. -/
def Instr.target {τ : Type} : Instr τ → Option τ
  | .goto _ _ q | .saveCtx _ q => some q
  | _ => none

theorem getLabelIndex_le {q : Nat} (h : getLabelIndex (labelTable P) l = .ok q) : q ≤ size P := by
  unfold getLabelIndex at h
  split at h
  case h_1 hq =>
    cases h
    have hm := (mem_of_enterAll hq).resolve_right nofun
    rw [← Nat.zero_add (size P)]
    exact mark_le hm
  case h_2 => cases h

theorem resolveInstr_target {m : HTab Label Nat} {q : Nat}
    (h : resolveInstr m i = .ok i') (hq : i'.target = some q) : ∃ l, getLabelIndex m l = .ok q := by
  cases i with
  | goto lineno c l | saveCtx lineno l =>
    obtain ⟨p, hp, h⟩ := bind_eq_ok.mp h
    cases h
    cases hq
    exact ⟨l, hp⟩
  | _ => cases h; cases hq

/-- **What `analyze` accepts has code, and the code does not jump out of itself.**  A tree
that can be walked is accepted exactly when its `GOTO`s are; every scope and every label
of an accepted tree is found, and its jumps lead to an instruction or to the end. -/
theorem analyze_genExecCode_inside (f : Func) :
    (∀ a, analyzeList f.action makeAnalyzerContext = .ok a →
      ((∃ cc, analyze f = .ok cc) ↔ ∀ g ∈ gotosList f.action,
        GotoAccepted (scopesList [] [] f.action) (labelsList f.action) g)) ∧
    ∀ cc, analyze f = .ok cc → ∃ codes, genExecCode f cc = .ok codes ∧
      ∀ i ∈ codes, ∀ q, i.target = some q → q ≤ codes.length := by
  constructor
  · intro a ha
    constructor
    · rintro ⟨cc, h⟩
      obtain ⟨-, -, -, hg⟩ := analyze_iff.mp h
      exact hg
    · intro hg
      exact ⟨_, analyze_iff.mpr ⟨a, ha, rfl, hg⟩⟩
  · intro cc h
    obtain ⟨codes, hgen, hr, -⟩ := genExecCode_ok (analyze_ok h)
    refine ⟨codes, hgen, fun i hi q hq => ?_⟩
    obtain ⟨pc, hpc⟩ := mem_iff_getElem?.mp hi
    obtain ⟨j, -, hj⟩ := hr.holds hpc
    obtain ⟨l, hl⟩ := resolveInstr_target hj hq
    rw [hr.length]
    exact getLabelIndex_le hl

/-- `WHILE c BEGIN GOTO done END; done:`. -/
def leaveFunc : Func :=
  ⟨[.whileLoop ⟨1, 1⟩ 0 [.goto ⟨2, 2⟩ "done"], .label ⟨3, 3⟩ "done"], by decide⟩

theorem leaveFunc_inside :
    ∃ cc codes, analyze leaveFunc = .ok cc ∧ genExecCode leaveFunc cc = .ok codes ∧
      ∀ i ∈ codes, ∀ q, i.target = some q → q ≤ codes.length := by
  obtain ⟨codes, h⟩ := (analyze_genExecCode_inside leaveFunc).2 _ rfl
  exact ⟨_, codes, rfl, h⟩

end Babelfish.PLtsql
