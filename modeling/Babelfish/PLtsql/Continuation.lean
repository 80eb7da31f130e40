import Babelfish.PLtsql.ErrorContext
import Babelfish.PLtsql.Structured

/-!
# Continuations in the code

`KAt P ld k pc t w` says that the code from `pc` on, inside the parts `t` and the loops
`w`, does what the continuation `k` says.  Between constructs the code may contain
unconditional jumps (`Jumps`): the end of a `THEN` branch jumps over the `ELSE` branch.

* `KAt.scope`, `KAt.catching`: `pc` lies in the scope `t`, and `k` knows it.
* `KAt.innermostLoop`: the code of the innermost loop.
* `findLabel_at`: the code after a label is what `findLabel` finds.
* `exec_jumps`, `exec_leave`: the executor follows jumps and leaves parts.
-/

namespace Babelfish.PLtsql

open Lib Lib.Assembly List Stmt

/-- A chain of unconditional jumps inside the parts `t` leads from one address to
another. -/
inductive Jumps (P : Listing Label Scoped) (t : List TryCatchInfo) : Nat → Nat → Prop
  | refl (pc : Nat) : Jumps P t pc pc
  | step {pc q r lineno : Nat} {l : Label} : Holds P pc (.goto lineno none l) t →
      (l, q) ∈ marks 0 P → Jumps P t q r → Jumps P t pc r

/-- The code from `pc` on continues as `k`. -/
def KAt (P : Listing Label Scoped) (ld : String → Nat) :
    Cont → Nat → List TryCatchInfo → List (Node × Nat) → Prop
  | .stop, pc, t, w => ∃ q, Jumps P t pc q ∧ size P ≤ q ∧ t = [] ∧ w = []
  | .seq ss k, pc, t, w => ∃ q, Jumps P t pc q ∧ At P q (listingList ld t w ss) ∧
      KAt P ld k (q + size (listingList ld t w ss)) t w
  | .loop n c body k, pc, t, w => ∃ q, Jumps P t pc q ∧ ∃ b w', w = w' ++ [(n, t.length)] ∧
      Holds P q (.goto n.lineno none (.loopBegin n)) t ∧
      At P b (Stmt.listing ld t w' (.whileLoop n c body)) ∧
      b + size (Stmt.listing ld t w' (.whileLoop n c body)) = q + 1 ∧ KAt P ld k (q + 1) t w'
  | .tryPart n h k, pc, t, w => ∃ q, Jumps P t pc q ∧ ∃ b t', t = t' ++ [⟨n, true⟩] ∧
      Holds P q (.restoreCtxFull n.lineno) t ∧
      Holds P (q + 1) (.goto n.lineno none (.catchEnd n)) t' ∧
      (Label.catchBegin n, b) ∈ marks 0 P ∧
      At P b (h.listing ld (t' ++ [⟨n, false⟩]) w) ∧
      Holds P (b + size (h.listing ld (t' ++ [⟨n, false⟩]) w)) (.restoreCtxPartial n.lineno)
        (t' ++ [⟨n, false⟩]) ∧
      (Label.catchEnd n, b + size (h.listing ld (t' ++ [⟨n, false⟩]) w) + 1) ∈ marks 0 P ∧
      KAt P ld k (b + size (h.listing ld (t' ++ [⟨n, false⟩]) w) + 1) t' w
  | .catchPart n k, pc, t, w => ∃ q, Jumps P t pc q ∧ ∃ t', t = t' ++ [⟨n, false⟩] ∧
      Holds P q (.restoreCtxPartial n.lineno) t ∧ KAt P ld k (q + 1) t' w

section

variable {P : Listing Label Scoped} {ld : String → Nat} {t : List TryCatchInfo}
  {w : List (Node × Nat)} {pc q : Nat} {k : Cont}

theorem KAt.jump {lineno : Nat} {l : Label} (hg : Holds P pc (.goto lineno none l) t)
    (hm : (l, q) ∈ marks 0 P) (h : KAt P ld k q t w) : KAt P ld k pc t w := by
  cases k with
  | stop | seq ss k | loop n c body k | tryPart n h' k | catchPart n k =>
    obtain ⟨r, hj, h⟩ := h
    exact ⟨r, .step hg hm hj, h⟩

theorem KAt.seq_at {ss : List Stmt} (h : At P pc (listingList ld t w ss))
    (hk : KAt P ld k (pc + size (listingList ld t w ss)) t w) : KAt P ld (.seq ss k) pc t w :=
  ⟨pc, .refl pc, h, hk⟩

theorem Jumps.scope (h : Jumps P t pc q) (hq : scopeAt P q = t) : scopeAt P pc = t := by
  cases h with
  | refl => exact hq
  | step hg _ _ => exact hg.scope

theorem KAt.scope {k : Cont} {pc : Nat} {t : List TryCatchInfo} {w : List (Node × Nat)}
    (h : KAt P ld k pc t w) : scopeAt P pc = t := by
  induction k generalizing pc t w with
  | stop =>
    obtain ⟨q, hj, hq, rfl, -⟩ := h
    refine hj.scope ?_
    rw [scopeAt, List.getElem?_eq_none hq]
    rfl
  | seq ss k ih =>
    obtain ⟨q, hj, ha, hk⟩ := h
    exact hj.scope ((entry_scope P ld).2 ss t w q ⟨ha, ih hk⟩)
  | loop n c body k _ =>
    obtain ⟨q, hj, b, w', -, hg, -⟩ := h
    exact hj.scope hg.scope
  | tryPart n h' k _ =>
    obtain ⟨q, hj, b, t', -, hr, -⟩ := h
    exact hj.scope hr.scope
  | catchPart n k _ =>
    obtain ⟨q, hj, t', -, hr, -⟩ := h
    exact hj.scope hr.scope

theorem KAt.catching (h : KAt P ld k pc t w) :
    k.catching = t.map fun info => !info.inTryBlock := by
  induction k generalizing pc t w with
  | stop => obtain ⟨q, -, -, rfl, -⟩ := h; rfl
  | seq ss k ih => obtain ⟨q, -, -, hk⟩ := h; exact ih hk
  | loop n c body k ih => obtain ⟨q, -, b, w', -, -, -, -, hk⟩ := h; exact ih hk
  | tryPart n h' k ih =>
    obtain ⟨q, -, b, t', rfl, -, -, -, -, -, -, hk⟩ := h
    simp [Cont.catching, ih hk]
  | catchPart n k ih =>
    obtain ⟨q, -, t', rfl, -, hk⟩ := h
    simp [Cont.catching, ih hk]

/-- The innermost loop of a continuation is the innermost of `w`, and its code is at some
`b` inside the parts that enclose the loop. -/
def LoopAt (P : Listing Label Scoped) (ld : String → Nat) (t : List TryCatchInfo)
    (w : List (Node × Nat)) (innermost : Option (Stmt × Cont)) : Prop :=
  w = [] ∧ innermost = none ∨
    ∃ w' m d c body k' b, w = w' ++ [(m, d)] ∧ d ≤ t.length ∧
      innermost = some (.whileLoop m c body, k') ∧
      At P b (Stmt.listing ld (t.take d) w' (.whileLoop m c body)) ∧
      KAt P ld k' (b + size (Stmt.listing ld (t.take d) w' (.whileLoop m c body))) (t.take d) w'

theorem LoopAt.append {innermost : Option (Stmt × Cont)} (h : LoopAt P ld t w innermost)
    (t' : List TryCatchInfo) : LoopAt P ld (t ++ t') w innermost := by
  rcases h with h | ⟨w', m, d, c, body, k', b, rfl, hd, hl, h⟩
  · exact .inl h
  · refine .inr ⟨w', m, d, c, body, k', b, rfl, by rw [length_append]; omega, hl, ?_⟩
    rwa [take_append_of_le_length hd]

theorem KAt.innermostLoop (h : KAt P ld k pc t w) : LoopAt P ld t w k.innermostLoop := by
  induction k generalizing pc t w with
  | stop => obtain ⟨q, -, -, -, rfl⟩ := h; exact .inl ⟨rfl, rfl⟩
  | seq ss k ih => obtain ⟨q, -, -, hk⟩ := h; exact ih hk
  | loop n c body k _ =>
    obtain ⟨q, -, b, w', rfl, -, ha, hb, hk⟩ := h
    refine .inr ⟨w', n, t.length, c, body, k, b, rfl, le_refl _, rfl, ?_, ?_⟩
    · rwa [take_length]
    · rwa [take_length, hb]
  | tryPart n h' k ih =>
    obtain ⟨q, -, b, t', rfl, -, -, -, -, -, -, hk⟩ := h
    exact (ih hk).append _
  | catchPart n k ih =>
    obtain ⟨q, -, t', rfl, -, hk⟩ := h
    exact (ih hk).append _

theorem KAt.loop_body {n : Node} {c : Expr} {body : List Stmt}
    (ha : At P pc (listing ld t w (.whileLoop n c body)))
    (hk : KAt P ld k (pc + size (listing ld t w (.whileLoop n c body))) t w) :
    KAt P ld (.loop n c body k)
      (pc + 1 + size (listingList ld t (w ++ [(n, t.length)]) body)) t
      (w ++ [(n, t.length)]) := by
  obtain ⟨q, rfl, -, -, -, hg, -, -, hsz⟩ := Placed.whileLoop ⟨ha, hk.scope⟩
  rw [hsz] at hk
  exact ⟨_, .refl _, pc, w, rfl, hg, ha, hsz, hk⟩

theorem KAt.parts {n : Node} {b h : Stmt} (ha : At P pc (listing ld t w (.tryCatch n b h)))
    (hk : KAt P ld k (pc + size (listing ld t w (.tryCatch n b h))) t w) :
    KAt P ld (.tryPart n h k) (pc + 1 + size (b.listing ld (t ++ [⟨n, true⟩]) w))
      (t ++ [⟨n, true⟩]) w ∧
    KAt P ld (.catchPart n k) (pc + 1 + size (b.listing ld (t ++ [⟨n, true⟩]) w) + 2 +
      size (h.listing ld (t ++ [⟨n, false⟩]) w)) (t ++ [⟨n, false⟩]) w := by
  obtain ⟨q, r, rfl, rfl, -, -, hf, hg, hmb, he, hr, hme, -, hsz⟩ :=
    Placed.tryCatch ⟨ha, hk.scope⟩
  rw [hsz] at hk
  exact ⟨⟨_, .refl _, _, t, rfl, hf, hg, hmb, he.at_pos, hr, hme, hk⟩, ⟨_, .refl _, t, rfl, hr, hk⟩⟩

end

/-! ### Labels -/

/-- The label is registered where the code runs `ss` and continues as `k`. -/
def LabelAt (P : Listing Label Scoped) (ld : String → Nat) (l : String) (ss : List Stmt)
    (k : Cont) : Prop :=
  ∃ q t w, (Label.user l, q) ∈ marks 0 P ∧ At P q (listingList ld t w ss) ∧
    KAt P ld k (q + size (listingList ld t w ss)) t w

theorem findLabel_at (P : Listing Label Scoped) (ld : String → Nat) (l : String) :
    (∀ (s : Stmt) pc t w k ss k', At P pc (s.listing ld t w) →
      KAt P ld k (pc + size (s.listing ld t w)) t w → findLabel l s k = some (ss, k') →
      LabelAt P ld l ss k') ∧
    ∀ (s : List Stmt) pc t w k ss k', At P pc (listingList ld t w s) →
      KAt P ld k (pc + size (listingList ld t w s)) t w → findLabelList l s k = some (ss, k') →
      LabelAt P ld l ss k' := by
  apply ind
  case atomic => intro n pc t w k ss k' _ _ h; simp [findLabel] at h
  case block => intro n body ih pc t w k ss k' ha hk h; exact ih pc t w k ss k' ha hk h
  case ifThen =>
    intro n c b ih pc t w k ss k' ha hk h
    obtain ⟨-, hb, -, hsz⟩ := Placed.ifThen ⟨ha, hk.scope⟩
    rw [hsz] at hk
    exact ih _ t w k ss k' hb.at_pos hk h
  case ifElse =>
    intro n c b e ihb ihe pc t w k ss k' ha hk h
    obtain ⟨q, rfl, -, hb, hg, -, he, hm, hsz⟩ := Placed.ifElse ⟨ha, hk.scope⟩
    rw [hsz] at hk
    rcases Option.or_eq_some_iff.mp h with h | ⟨-, h⟩
    · exact ihb _ t w k ss k' hb.at_pos (hk.jump hg hm) h
    · exact ihe _ t w k ss k' he.at_pos hk h
  case whileLoop =>
    intro n c body ih pc t w k ss k' ha hk h
    obtain ⟨q, rfl, -, -, hb, -⟩ := Placed.whileLoop ⟨ha, hk.scope⟩
    exact ih _ t _ _ ss k' hb.at_pos (KAt.loop_body ha hk) h
  case exit => intro n b pc t w k ss k' _ _ h; simp [findLabel] at h
  case ret => intro n pc t w k ss k' _ _ h; simp [findLabel] at h
  case label =>
    intro n l' pc t w k ss k' ha hk h
    rw [findLabel] at h
    split_ifs at h with hl
    subst hl
    cases h
    obtain ⟨hm, ha'⟩ := ha.mark
    exact ⟨pc, t, w, hm, ha', hk⟩
  case goto => intro n l' pc t w k ss k' _ _ h; simp [findLabel] at h
  case tryCatch =>
    intro n b h' ihb ihh pc t w k ss k' ha hk h
    obtain ⟨hkb, hkh⟩ := KAt.parts ha hk
    obtain ⟨q, r, rfl, rfl, -, hb, -, -, -, hh, -⟩ := Placed.tryCatch ⟨ha, hk.scope⟩
    rcases Option.or_eq_some_iff.mp h with h | ⟨-, h⟩
    · exact ihb _ _ w _ ss k' hb.at_pos hkb h
    · exact ihh _ _ w _ ss k' hh.at_pos hkh h
  case nil => intro pc t w k ss k' _ _ h; simp [findLabelList] at h
  case cons =>
    intro s₀ rest ihs ihrest pc t w k ss k' ha hk h
    obtain ⟨hs, hrest⟩ := ha.append
    rw [listingList, size_append, ← Nat.add_assoc] at hk
    rcases Option.or_eq_some_iff.mp h with h | ⟨-, h⟩
    · exact ihs pc t w _ ss k' hs (KAt.seq_at hrest hk) h
    · exact ihrest _ t w k ss k' hrest hk h

theorem findLabel_isSome (l : String) :
    (∀ (s : Stmt) k, l ∈ s.labels.map Prod.fst → (findLabel l s k).isSome) ∧
    ∀ (ss : List Stmt) k, l ∈ (labelsList ss).map Prod.fst → (findLabelList l ss k).isSome := by
  apply ind
  case atomic => intro n k h; simp [labels] at h
  case block => intro n body ih k h; exact ih k h
  case ifThen => intro n c b ih k h; exact ih k h
  case ifElse =>
    intro n c b e ihb ihe k h
    rw [labels, map_append, mem_append] at h
    rw [findLabel, Option.isSome_or, Bool.or_eq_true]
    exact h.imp (ihb k) (ihe k)
  case whileLoop => intro n c body ih k h; exact ih _ h
  case exit => intro n b k h; simp [labels] at h
  case ret => intro n k h; simp [labels] at h
  case label =>
    intro n l' k h
    obtain rfl : l = l' := by simpa [labels] using h
    simp [findLabel]
  case goto => intro n l' k h; simp [labels] at h
  case tryCatch =>
    intro n b h' ihb ihh k h
    rw [labels, map_append, mem_append] at h
    rw [findLabel, Option.isSome_or, Bool.or_eq_true]
    exact h.imp (ihb _) (ihh _)
  case nil => intro k h; simp [labelsList] at h
  case cons =>
    intro s ss ihs ihss k h
    rw [labelsList, map_append, mem_append] at h
    rw [findLabelList, Option.isSome_or, Bool.or_eq_true]
    exact h.imp (ihs _) (ihss _)

theorem listing_continues (f : Func) (cc : CompileContext) :
    At (f.listing cc) 0 (listingList (labelDepth cc) [] [] f.action) ∧
      KAt (f.listing cc) (labelDepth cc) .stop
        (0 + size (listingList (labelDepth cc) [] [] f.action)) [] [] := by
  refine ⟨listing_placed.at_pos, _, .refl _, ?_, rfl, rfl⟩
  rw [Func.listing, size_append, size_mark, size_nil]
  omega

theorem findLabel_of_mark {f : Func} {cc : CompileContext} (h : Accepted f cc) {l : String}
    {q : Nat} (hm : (Label.user l, q) ∈ marks 0 (f.listing cc)) :
    ∃ ss k t w, findLabelList l f.action .stop = some (ss, k) ∧
      At (f.listing cc) q (listingList (labelDepth cc) t w ss) ∧
      KAt (f.listing cc) (labelDepth cc) k (q + size (listingList (labelDepth cc) t w ss)) t w := by
  have hown := (listing_ownLabels (labelDepth cc)).2 f.action [] [] f.addrs_nodup h.labels_nodup
  have hl : l ∈ (labelsList f.action).map Prod.fst := by
    have hmem := mem_map_of_mem (f := Prod.fst) hm
    rw [Func.listing, marks_append_fst, mem_append] at hmem
    rcases hmem with hmem | hmem
    · exact hown.belongs _ hmem
    · simp at hmem
  obtain ⟨⟨ss, k⟩, hf⟩ := Option.isSome_iff_exists.mp ((findLabel_isSome l).2 f.action .stop hl)
  obtain ⟨ha, hk⟩ := listing_continues f cc
  obtain ⟨q', t, w, hm', ha', hk'⟩ := (findLabel_at _ _ l).2 f.action _ _ _ _ ss k ha hk hf
  obtain rfl : q' = q := by
    have h₁ := labelTable_of_mem h hm
    rwa [labelTable_of_mem h hm', Option.some.injEq] at h₁
  exact ⟨ss, k, t, w, hf, ha', hk'⟩

end Babelfish.PLtsql
