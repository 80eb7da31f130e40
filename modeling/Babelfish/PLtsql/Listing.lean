import Babelfish.Lib.Assembly
import Babelfish.PLtsql.Codegen

/-!
# The code, read off the tree

The generator works with a growing code vector, a label table and the tables of the
analyzer.  `Stmt.listing` says what all this amounts to: the instructions and label
marks of a statement, each instruction with the `TRY`/`CATCH` parts around it.  The
parts around a restoring instruction of a jump are those not yet left.

* `gen_eq`: on an accepted function the generator emits the listing.
* `genExecCode_eq`: the code of an accepted function is the resolved listing.
* `marks_nodup`: no label is registered twice.
-/

namespace Babelfish.PLtsql

open Lib Lib.Assembly List Stmt CodegenContext

/-- An instruction with the `TRY`/`CATCH` parts around it, the outermost first. -/
abbrev Scoped := Instr Label × List TryCatchInfo

/-- The instructions that leave the parts `t` from depth `i` down to `d`. -/
def leave (lineno : Nat) (t : List TryCatchInfo) (d : Nat) : Nat → Listing Label Scoped
  | 0 => []
  | i + 1 =>
    if d < i + 1 then
      (t[i]?.map fun info => Item.instr (restoreFor lineno info, t.take (i + 1))).toList ++
        leave lineno t d i
    else []

mutual
/-- The listing of a statement inside the parts `t` and the loops `w`, each loop with
the number of parts around it; `ld` gives this number for the labels. -/
def Stmt.listing (ld : String → Nat) (t : List TryCatchInfo) (w : List (Node × Nat)) :
    Stmt → Listing Label Scoped
  | .atomic n => [.instr (.stmt n, t)]
  | .block _ body => listingList ld t w body
  | .ifElse n c b none =>
    .instr (.goto n.lineno (some c) (.elseEnd n), t) ::
      (b.listing ld t w ++ [.mark (.elseEnd n)])
  | .ifElse n c b (some e) =>
    .instr (.goto n.lineno (some c) (.elseBegin n), t) ::
      (b.listing ld t w ++
        .instr (.goto n.lineno none (.elseEnd n), t) :: .mark (.elseBegin n) ::
          (e.listing ld t w ++ [.mark (.elseEnd n)]))
  | .whileLoop n c body =>
    .mark (.loopBegin n) :: .instr (.goto n.lineno (some c) (.loopEnd n), t) ::
      (listingList ld t (w ++ [(n, t.length)]) body ++
        [.instr (.goto n.lineno none (.loopBegin n), t), .mark (.loopEnd n)])
  | .exit n isExit =>
    match w.getLast? with
    | none => []
    | some (m, d) =>
      leave n.lineno t d t.length ++
        [.instr (.goto n.lineno none (if isExit then .loopEnd m else .loopBegin m), t.take d)]
  | .ret n =>
    .instr (.ret n, t) ::
      (leave n.lineno t 0 t.length ++ [.instr (.goto n.lineno none .endOfProc, [])])
  | .label _ l => [.mark (.user l)]
  | .goto n l =>
    leave n.lineno t (ld l) t.length ++
      [.instr (.goto n.lineno none (.user l), t.take (ld l))]
  | .tryCatch n b h =>
    .instr (.saveCtx n.lineno (.catchBegin n), t) ::
      (b.listing ld (t ++ [⟨n, true⟩]) w ++
        .instr (.restoreCtxFull n.lineno, t ++ [⟨n, true⟩]) ::
        .instr (.goto n.lineno none (.catchEnd n), t) :: .mark (.catchBegin n) ::
          (h.listing ld (t ++ [⟨n, false⟩]) w ++
            [.instr (.restoreCtxPartial n.lineno, t ++ [⟨n, false⟩]),
              .mark (.catchEnd n)]))

def listingList (ld : String → Nat) (t : List TryCatchInfo) (w : List (Node × Nat)) :
    List Stmt → Listing Label Scoped
  | [] => []
  | s :: ss => s.listing ld t w ++ listingList ld t w ss
end

/-! ### The generator emits the listing -/

/-- The context after the generator emitted the listing `a`. -/
def CodegenContext.emit (g : CodegenContext) (a : Listing Label Scoped) : CodegenContext :=
  { g with
    codes := g.codes ++ (instrs a).map Prod.fst
    labelIndex := enterAll g.labelIndex (marks g.codes.length a) }

theorem emit_nil (g : CodegenContext) : g.emit [] = g := by simp [emit]

variable {b : Listing Label Scoped} {l : Label} {g : CodegenContext}

theorem emit_emit (a : Listing Label Scoped) : (g.emit a).emit b = g.emit (a ++ b) := by
  simp [emit, marks_append, enterAll_append, size]

theorem addStmt_eq (i : Instr Label) (t : List TryCatchInfo) :
    addStmt i g = g.emit [.instr (i, t)] := by simp [addStmt, emit]

theorem createAndRegisterLabel_eq (g : CodegenContext) :
    createAndRegisterLabel l g = g.emit [.mark l] := by
  simp [createAndRegisterLabel, emit]

section

variable (lineno : Nat) (t : List TryCatchInfo)
include lineno t

theorem instrs_leave (d i : Nat) :
    (instrs (leave lineno t d i)).map Prod.fst = cleanupLoop lineno t d i := by
  induction i with
  | zero => rfl
  | succ i ih =>
    rw [leave, cleanupLoop]
    split
    · cases t[i]? <;> simp [ih]
    · rfl

theorem marks_leave (d i pos : Nat) : marks pos (leave lineno t d i) = [] := by
  induction i generalizing pos with
  | zero => rfl
  | succ i ih =>
    rw [leave]
    split
    · cases t[i]? <;> simp [ih]
    · rfl

theorem addStmts_cleanupLoop (d i : Nat) :
    addStmts (cleanupLoop lineno t d i) g = g.emit (leave lineno t d i) := by
  simp [addStmts, emit, instrs_leave, marks_leave]

end

/-- The number of parts around the statement of label `l`. -/
def labelDepth (cc : CompileContext) (l : String) : Nat :=
  ((cc.labelStmtMap l).bind fun m => cc.stmtScopeContext m.addr).elim 0
    fun sc => sc.nestingTrycatchInfos.length

def loopAddrs (w : List (Node × Nat)) : List Nat := w.map fun p => p.1.addr

@[simp] theorem loopAddrs_append (w : List (Node × Nat)) (p : Node × Nat) :
    loopAddrs (w ++ [p]) = loopAddrs w ++ [p.1.addr] := by simp [loopAddrs]

/-- The analyzer's table has the scope of every loop around the current statement. -/
def LoopsKnown (cc : CompileContext) (w : List (Node × Nat)) : Prop :=
  ∀ p ∈ w, ∃ sc, cc.stmtScopeContext p.1.addr = some sc ∧ sc.nestingTrycatchInfos.length = p.2

/-- The analyzer's tables have the target of a `GOTO`. -/
def LabelKnown (cc : CompileContext) (l : String) : Prop :=
  ∃ m sc, cc.labelStmtMap l = some m ∧ cc.stmtScopeContext m.addr = some sc

/-- The analyzer left in `cc` all that the generator asks for in a piece of program with
the scopes `sc` and the `GOTO`s `gs`. -/
structure Known (cc : CompileContext) (sc : List (Nat × ScopeContext))
    (gs : List (Node × String)) (w : List (Node × Nat)) : Prop where
  scope : ∀ p ∈ sc, cc.stmtScopeContext p.1 = some p.2
  goto : ∀ g ∈ gs, LabelKnown cc g.2
  loops : LoopsKnown cc w

variable {cc : CompileContext}
variable {n : Node} {addrs : List Nat} {names names' : List String}
  {addrs' : List Nat}

theorem Known.append {sc sc' gs gs' w} (h : Known cc (sc ++ sc') (gs ++ gs') w) :
    Known cc sc gs w ∧ Known cc sc' gs' w := by
  refine ⟨⟨?_, ?_, h.loops⟩, ?_, ?_, h.loops⟩
  · intro p hp; exact h.scope p (mem_append_left _ hp)
  · intro g hg; exact h.goto g (mem_append_left _ hg)
  · intro p hp; exact h.scope p (mem_append_right _ hp)
  · intro g hg; exact h.goto g (mem_append_right _ hg)

theorem cleanupExceptionContext_eq {src dst : Node} {s d : ScopeContext}
    (hs : cc.stmtScopeContext src.addr = some s) (hd : cc.stmtScopeContext dst.addr = some d) :
    cleanupExceptionContext cc src dst g = .ok (g.emit (leave src.lineno s.nestingTrycatchInfos
      d.nestingTrycatchInfos.length s.nestingTrycatchInfos.length)) := by
  simp only [cleanupExceptionContext, hs, hd, addStmts_cleanupLoop]

theorem stmtExitAct_eq {isExit : Bool} {t w}
    (hk : Known cc (scopes t (loopAddrs w) (.exit n isExit)) [] w) (hw : loopAddrs w ≠ [])
    (hg : g.loopContexts = w.map Prod.fst) :
    stmtExitAct cc n isExit g =
      .ok (g.emit (listing (labelDepth cc) t w (.exit n isExit))) := by
  have hne : w ≠ [] := by rintro rfl; exact hw rfl
  obtain ⟨w₀, ⟨m, d⟩, rfl⟩ := (eq_nil_or_concat' w).resolve_left hne
  obtain ⟨sc, hm, hd⟩ := hk.loops (m, d) (by simp)
  have hn := hk.scope (n.addr, ⟨t, loopAddrs (w₀ ++ [(m, d)])⟩) (by simp [scopes])
  simp only [stmtExitAct, hg, map_append, map_cons, map_nil, List.getLast?_append,
    List.getLast?_singleton, Option.some_or, cleanupExceptionContext_eq hn hm, listing, hd]
  exact congrArg Except.ok ((addStmt_eq _ (t.take d)).trans (emit_emit _))

theorem stmtReturnAct_eq {t w} (hk : Known cc (scopes t (loopAddrs w) (.ret n)) [] w) :
    stmtReturnAct cc n g = .ok (g.emit (listing (labelDepth cc) t w (.ret n))) := by
  have hn := hk.scope (n.addr, ⟨t, loopAddrs w⟩) (by simp [scopes])
  simp only [stmtReturnAct, cleanupAllExceptionContext, hn, addStmts_cleanupLoop, listing]
  refine congrArg Except.ok ?_
  rw [addStmt_eq (.ret n) t, addStmt_eq (.goto _ _ _) [], emit_emit, emit_emit]
  rfl

theorem stmtGotoAct_eq {l : String} {t w}
    (hk : Known cc (scopes t (loopAddrs w) (.goto n l)) [(n, l)] w) :
    stmtGotoAct cc n l g = .ok (g.emit (listing (labelDepth cc) t w (.goto n l))) := by
  have hn := hk.scope (n.addr, ⟨t, loopAddrs w⟩) (by simp [scopes])
  obtain ⟨m, sc, hl, hm⟩ := hk.goto (n, l) (by simp)
  have hd : labelDepth cc l = sc.nestingTrycatchInfos.length := by simp [labelDepth, hl, hm]
  simp only [stmtGotoAct, hl, cleanupExceptionContext_eq hn hm, listing, hd]
  exact congrArg Except.ok ((addStmt_eq _ (t.take _)).trans (emit_emit _))

def GenSpec (cc : CompileContext) (s : Stmt) : Prop :=
  ∀ t w, Known cc (s.scopes t (loopAddrs w)) s.gotos w → s.ExitsInLoop (loopAddrs w) →
    ∀ g, g.loopContexts = w.map Prod.fst →
      genStmt cc s g = .ok (g.emit (s.listing (labelDepth cc) t w))

def GenSpecList (cc : CompileContext) (ss : List Stmt) : Prop :=
  ∀ t w, Known cc (scopesList t (loopAddrs w) ss) (gotosList ss) w →
    ExitsInLoopList (loopAddrs w) ss →
    ∀ g, g.loopContexts = w.map Prod.fst →
      genList cc ss g = .ok (g.emit (listingList (labelDepth cc) t w ss))

/-- **The generator emits the listing of the tree.** -/
theorem gen_eq : (∀ s, GenSpec cc s) ∧ ∀ ss, GenSpecList cc ss := by
  apply ind
  case atomic => intro n t w _ _ g _; exact congrArg Except.ok (addStmt_eq _ t)
  case block => intro n body ih t w hk hx g hg; exact ih t w hk hx g hg
  case ifThen =>
    intro n c b ih t w hk hx g hg
    rw [genStmt, addStmt_eq _ t, ih t w hk hx, ok_bind, emit_emit,
      createAndRegisterLabel_eq, emit_emit]
    · simp [listing, pure, Except.pure]
    · exact hg
  case ifElse =>
    intro n c b e ihb ihe t w hk hx g hg
    obtain ⟨hkb, hke⟩ := hk.append
    rw [genStmt, addStmt_eq _ t, ihb t w hkb hx.1, ok_bind, emit_emit]
    · dsimp only
      rw [addStmt_eq _ t, emit_emit, createAndRegisterLabel_eq, emit_emit, ihe t w hke hx.2,
        ok_bind, emit_emit, createAndRegisterLabel_eq, emit_emit]
      · simp [listing, pure, Except.pure]
      · exact hg
    · exact hg
  case whileLoop =>
    intro n c body ih t w hk hx g hg
    have hk' : Known cc (scopesList t (loopAddrs (w ++ [(n, t.length)])) body) (gotosList body)
        (w ++ [(n, t.length)]) := by
      refine ⟨?_, hk.goto, ?_⟩
      · intro p hp
        rw [loopAddrs_append] at hp
        exact hk.scope p (mem_cons_of_mem _ hp)
      · exact forall_mem_append.mpr ⟨hk.loops,
          forall_mem_singleton.mpr ⟨_, hk.scope _ mem_cons_self, rfl⟩⟩
    have hx' : ExitsInLoopList (loopAddrs (w ++ [(n, t.length)])) body := by
      rw [loopAddrs_append]; exact hx
    have hg' : (pushLoopContext n g).loopContexts = (w ++ [(n, t.length)]).map Prod.fst := by
      simp [pushLoopContext, hg]
    rw [genStmt, createAndRegisterLabel_eq]
    dsimp only
    rw [addStmt_eq _ t, emit_emit, ih t _ hk' hx', ok_bind, emit_emit]
    · rw [addStmt_eq _ t, emit_emit, createAndRegisterLabel_eq, emit_emit]
      simp [listing, pure, Except.pure, pushLoopContext, popLoopContext, emit]
    · exact hg'
  case exit =>
    intro n isExit t w hk hx g hg
    exact stmtExitAct_eq hk hx hg
  case ret => intro n t w hk _ g _; exact stmtReturnAct_eq hk
  case label => intro n l t w _ _ g _; exact congrArg Except.ok (createAndRegisterLabel_eq g)
  case goto => intro n l t w hk _ g _; exact stmtGotoAct_eq hk
  case tryCatch =>
    intro n b h ihb ihh t w hk hx g hg
    obtain ⟨hkb, hkh⟩ := hk.append
    rw [genStmt, addStmt_eq _ t, ihb _ w hkb hx.1, ok_bind, emit_emit]
    · dsimp only
      rw [addStmt_eq (.restoreCtxFull n.lineno) (t ++ [⟨n, true⟩]), emit_emit, addStmt_eq _ t,
        emit_emit, createAndRegisterLabel_eq, emit_emit, ihh _ w hkh hx.2, ok_bind, emit_emit]
      · rw [addStmt_eq _ (t ++ [⟨n, false⟩]), emit_emit, createAndRegisterLabel_eq, emit_emit]
        simp [listing, pure, Except.pure]
      · exact hg
    · exact hg
  case nil => intro t w _ _ g _; exact congrArg Except.ok (emit_nil g).symm
  case cons =>
    intro s ss ihs ihss t w hk hx g hg
    obtain ⟨hks, hkss⟩ := hk.append
    rw [genList, ihs t w hks hx.1 g hg, ok_bind, ihss t w hkss hx.2, emit_emit]
    · rfl
    · exact hg

/-! ### Labels do not repeat -/

/-- The label is one of the user labels `names` or was generated for a node at one of
the addresses `addrs`. -/
def Label.BelongsTo (names : List String) (addrs : List Nat) : Label → Prop
  | .user name => name ∈ names
  | .loopBegin n | .loopEnd n | .catchBegin n | .catchEnd n | .elseBegin n | .elseEnd n =>
    n.addr ∈ addrs
  | .endOfProc => False

theorem Label.BelongsTo.mono
    (hn : names ⊆ names') (ha : addrs ⊆ addrs') (h : l.BelongsTo names addrs) :
    l.BelongsTo names' addrs' := by
  cases l with
  | user name => exact hn h
  | endOfProc => exact h
  | _ => exact ha h

/-- The labels marked in a listing of statements with these addresses and user labels. -/
structure OwnLabels (a : Listing Label Scoped) (names : List String) (addrs : List Nat) :
    Prop where
  nodup : ((marks 0 a).map Prod.fst).Nodup
  belongs : ∀ l ∈ (marks 0 a).map Prod.fst, l.BelongsTo names addrs

variable {a : Listing Label Scoped}
variable {f : Func}

theorem OwnLabels.mono (h : OwnLabels a names addrs) (hn : names ⊆ names') (ha : addrs ⊆ addrs') :
    OwnLabels a names' addrs' :=
  ⟨h.nodup, fun l hl => (h.belongs l hl).mono hn ha⟩

theorem marks_append_fst : (marks 0 (a ++ b)).map Prod.fst =
    (marks 0 a).map Prod.fst ++ (marks 0 b).map Prod.fst := by
  rw [marks_append, map_append, marks_map_fst (0 + size a) 0 b]

theorem OwnLabels.append {na nb : List String} {aa ab : List Nat}
    (ha : aa.Nodup → na.Nodup → OwnLabels a na aa) (hb : ab.Nodup → nb.Nodup → OwnLabels b nb ab)
    (hd : (aa ++ ab).Nodup) (hn : (na ++ nb).Nodup) :
    OwnLabels (a ++ b) (na ++ nb) (aa ++ ab) := by
  rw [nodup_append'] at hn hd
  have ha := ha hd.1 hn.1
  have hb := hb hd.2.1 hn.2.1
  refine ⟨?_, ?_⟩ <;> rw [marks_append_fst]
  · rw [nodup_append']
    refine ⟨ha.nodup, hb.nodup, ?_⟩
    intro l hla hlb
    have h₁ := ha.belongs l hla
    have h₂ := hb.belongs l hlb
    cases l with
    | user name => exact hn.2.2 h₁ h₂
    | endOfProc => exact h₁
    | _ => exact hd.2.2 h₁ h₂
  · intro l hl
    rcases mem_append.mp hl with hl | hl
    · exact (ha.belongs l hl).mono (subset_append_left _ _) (subset_append_left _ _)
    · exact (hb.belongs l hl).mono (subset_append_right _ _) (subset_append_right _ _)

theorem OwnLabels.construct (ms : List Label)
    (h : addrs.Nodup → names.Nodup → OwnLabels a names addrs) (hn : (n.addr :: addrs).Nodup)
    (hnames : names.Nodup) (hms : ms.Nodup) (hown : ∀ l ∈ ms, l.BelongsTo [] [n.addr])
    (hb : ((marks 0 b).map Prod.fst).Perm (ms ++ (marks 0 a).map Prod.fst)) :
    OwnLabels b names (n.addr :: addrs) := by
  obtain ⟨hna, hn⟩ := nodup_cons.mp hn
  have h := h hn hnames
  refine ⟨?_, ?_⟩
  · rw [hb.nodup_iff, nodup_append']
    refine ⟨hms, h.nodup, ?_⟩
    intro l hl hla
    have h₁ := hown l hl
    have h₂ := h.belongs l hla
    cases l with
    | user name => exact absurd h₁ (by simp [Label.BelongsTo])
    | endOfProc => exact h₁
    | _ => exact hna (mem_singleton.mp h₁ ▸ h₂)
  · intro l hl
    rcases mem_append.mp (hb.mem_iff.mp hl) with hl | hl
    · exact (hown l hl).mono (nil_subset _) (by simp)
    · exact (h.belongs l hl).mono (List.Subset.refl _) (subset_cons_self _ _)

theorem OwnLabels.empty (h : ∀ pos, marks pos a = []) (names : List String) (addrs : List Nat) :
    OwnLabels a names addrs := by
  refine ⟨?_, ?_⟩ <;> simp [h]

theorem listing_ownLabels (ld : String → Nat) :
    (∀ (s : Stmt) t w, s.addrs.Nodup → (s.labels.map Prod.fst).Nodup →
      OwnLabels (s.listing ld t w) (s.labels.map Prod.fst) s.addrs) ∧
    ∀ (ss : List Stmt) t w, (addrsList ss).Nodup → ((labelsList ss).map Prod.fst).Nodup →
      OwnLabels (listingList ld t w ss) ((labelsList ss).map Prod.fst) (addrsList ss) := by
  apply ind
  case atomic => intro n t w _ _; exact .empty (fun _ => rfl) _ _
  case block =>
    intro n body ih t w ha hl
    exact (ih t w (nodup_cons.mp ha).2 hl).mono (List.Subset.refl _)
      (subset_cons_self _ _)
  case ifThen =>
    intro n c b ih t w ha hl
    refine .construct [.elseEnd n] (ih t w) ha hl (by simp) (by simp [Label.BelongsTo]) ?_
    rw [listing, marks_instr, marks_map_fst _ 0, marks_append_fst]
    exact perm_append_comm
  case ifElse =>
    intro n c b e ihb ihe t w ha hl
    rw [labels, map_append] at hl ⊢
    refine .construct [.elseBegin n, .elseEnd n] (.append (ihb t w) (ihe t w)) ha hl (by simp)
      (by simp [Label.BelongsTo]) (perm_iff_count.mpr fun l => ?_)
    simp [listing, marks_append, marks_map_fst _ 0, count_cons]
    omega
  case whileLoop =>
    intro n c body ih t w ha hl
    refine .construct [.loopBegin n, .loopEnd n] (ih t (w ++ [(n, t.length)])) ha hl (by simp)
      (by simp [Label.BelongsTo]) (perm_iff_count.mpr fun l => ?_)
    simp [listing, marks_append, marks_map_fst _ 0, count_cons]
  case exit =>
    intro n isExit t w _ _
    refine .empty (fun pos => ?_) _ _
    rw [listing]
    split
    · rfl
    · simp [marks_append, marks_leave]
  case ret =>
    intro n t w _ _
    exact .empty (fun pos => by simp [listing, marks_append, marks_leave]) _ _
  case label =>
    intro n l t w _ _
    exact ⟨by simp [listing], by simp [listing, labels, Label.BelongsTo]⟩
  case goto =>
    intro n l t w _ _
    exact .empty (fun pos => by simp [listing, marks_append, marks_leave]) _ _
  case tryCatch =>
    intro n b h ihb ihh t w ha hl
    rw [labels, map_append] at hl ⊢
    refine .construct [.catchBegin n, .catchEnd n]
      (.append (ihb (t ++ [⟨n, true⟩]) w) (ihh (t ++ [⟨n, false⟩]) w)) ha hl (by simp)
      (by simp [Label.BelongsTo]) (perm_iff_count.mpr fun l => ?_)
    simp [listing, marks_append, marks_map_fst _ 0, count_cons]
    omega
  case nil => intro t w _ _; exact .empty (fun _ => rfl) _ _
  case cons =>
    intro s ss ihs ihss t w ha hl
    rw [labelsList, map_append] at hl ⊢
    exact .append (ihs t w) (ihss t w) ha hl

/-! ### The code of a function -/

def Func.listing (f : Func) (cc : CompileContext) : Listing Label Scoped :=
  listingList (labelDepth cc) [] [] f.action ++ [.mark .endOfProc]

def labelTable (P : Listing Label Scoped) : HTab Label Nat := enterAll HTab.empty (marks 0 P)

section

variable (h : Accepted f cc)
include h

theorem Accepted.known : Known cc (scopesList [] [] f.action) (gotosList f.action) [] := by
  refine ⟨h.scope, ?_, by simp [LoopsKnown]⟩
  intro g hg
  obtain ⟨m, _, dst, hl, _, hd, _⟩ := h.gotos g hg
  exact ⟨m, dst, h.label _ hl, h.scope _ hd⟩

/-- **The code of an accepted function is its listing, with the labels resolved.** -/
theorem genExecCode_eq :
    genExecCode f cc =
      resolveLabels (labelTable (f.listing cc)) ((instrs (f.listing cc)).map Prod.fst) := by
  rw [genExecCode, gen_eq.2 f.action [] [] h.known h.exits _ rfl, ok_bind,
    createAndRegisterLabel_eq, emit_emit]
  rfl

theorem marks_nodup : ((marks 0 (f.listing cc)).map Prod.fst).Nodup := by
  obtain ⟨hn, hb⟩ := (listing_ownLabels (labelDepth cc)).2 f.action [] [] f.addrs_nodup
    h.labels_nodup
  rw [Func.listing, marks_append_fst, nodup_append']
  refine ⟨hn, by simp, ?_⟩
  intro l hl hl'
  obtain rfl : l = .endOfProc := by simpa using hl'
  exact hb _ hl

theorem labelTable_of_mem {pc : Nat} (hl : (l, pc) ∈ marks 0 (f.listing cc)) :
    labelTable (f.listing cc) l = some pc :=
  enterAll_of_mem (marks_nodup h) hl

end

theorem resolveLabels_ok {t : HTab Label Nat} (is : List (Instr Label))
    (h : ∀ i ∈ is, ∃ i', resolveInstr t i = .ok i') :
    ∃ is', resolveLabels t is = .ok is' ∧ is'.length = is.length ∧
      ∀ (pc : Nat) i, is[pc]? = some i → ∃ i', resolveInstr t i = .ok i' ∧ is'[pc]? = some i' := by
  induction is with
  | nil => exact ⟨[], rfl, rfl, by simp⟩
  | cons j is ih =>
    obtain ⟨j', hj⟩ := h j mem_cons_self
    obtain ⟨is', hr, hlen, hget⟩ := ih (forall_mem_cons.mp h).2
    refine ⟨j' :: is', by rw [resolveLabels, hj, ok_bind, hr]; rfl, by simp [hlen], ?_⟩
    intro pc i hi
    cases pc with
    | zero =>
      obtain rfl : j = i := by simpa using hi
      exact ⟨j', hj, rfl⟩
    | succ pc => exact hget pc i hi

end Babelfish.PLtsql
