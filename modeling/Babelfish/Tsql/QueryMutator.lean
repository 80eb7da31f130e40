import Babelfish.Lib.Except
import Babelfish.Lib.Bytes
import Mathlib.Data.List.Induction
import Mathlib.Data.List.Pairwise

/-!
# Rewriting the text of a query

While a batch is compiled, `PLtsql_expr_query_mutator` collects rewrites of a query (at a position,
one text becomes another one) and then makes them all at once.  The text is decoded for it, so that
positions count characters; only the check of `add` compares them with a number of bytes.

* `Mutator.add`, `Mutator.run`: the two halves; `Mutator.mutate` collects rewrites and makes them.
* `Substituted`: all rewrites made at once.
* `runEntries_spec`: the loop makes all rewrites of the map that stand at their places, or two of
  them overlap.
* `mutate_right_iff`: the result is right unless a position is given twice.
* `mutate_eq_of_perm`: their order does not matter.
-/

namespace Babelfish.Tsql.QueryMutator

open Lib List

/-! ### The class -/

/-- A text as it is decoded.  Those of the mutator are C strings, without NUL. -/
abbrev Text := List Char

inductive MutatorError where
  | negativeOffset
  | largeOffset
  | multipleMutations
  /-- `std::out_of_range`, of `substr` -/
  | outOfRange
deriving DecidableEq, Repr

def MutatorError.message : MutatorError → String
  | .negativeOffset => "can't mutate an internal query. offset value is negative"
  | .largeOffset => "can't mutate an internal query. offset value is too large"
  | .multipleMutations =>
    "Can't mutate an internal query: detected multiple mutations on the same position"
  | .outOfRange => "basic_string::substr"

/-- A rewrite as it is given to `add`, and, with an offset as its position, an entry of the map. -/
structure Rewrite where
  pos : Int
  orig : Text
  repl : Text
deriving DecidableEq, Repr

variable {cursor : Nat} {e r : Rewrite} {es m : List Rewrite}

/-- An expression that has become a query of its own, behind `SELECT `. -/
structure SelectFragment where
  idxStart : Int
  idxEnd : Int
  idxStartShift : Int
deriving DecidableEq, Repr

/-- `PLtsql_expr_query_mutator`, but for its map, which is a list in the order of its keys. -/
structure Mutator where
  query : Text
  baseIdx : Int
  fragment : Option SelectFragment
deriving DecidableEq, Repr

def strlen (t : Text) : Nat := (t.flatMap String.utf8EncodeChar).length

/-- `std::map::emplace`: a key that is there keeps its value. -/
def emplace (r : Rewrite) : List Rewrite → List Rewrite
  | [] => [r]
  | e :: es =>
    if r.pos < e.pos then r :: e :: es
    else if e.pos < r.pos then e :: emplace r es
    else e :: es

/-- A string in double quotes that gets single quotes. -/
def Rewrite.isString (r : Rewrite) : Bool :=
  r.orig.head? == some '"' && r.orig.getLast? == some '"' &&
    r.repl.head? == some '\x27' && r.repl.getLast? == some '\x27'

namespace Mutator

variable (mu : Mutator)

def offset (pos : Int) : Int :=
  match mu.fragment with
  | none => pos - mu.baseIdx
  | some f => pos - f.idxStart + if f.idxStartShift > 0 then f.idxStartShift else 0

/-- A position that belongs to another expression of the statement. -/
def isElsewhere (pos : Int) : Bool :=
  match mu.fragment with
  | none => false
  | some f => pos < f.idxStart || pos > f.idxEnd

def entry (r : Rewrite) : Rewrite := { r with pos := mu.offset r.pos }

/-- `add`, on the map. -/
def add (m : List Rewrite) (r : Rewrite) : Except MutatorError (List Rewrite) :=
  if mu.isElsewhere r.pos then .ok m
  else if r.isString then .ok (emplace (mu.entry r) m)
  else if mu.offset r.pos < 0 then .error .negativeOffset
  else if mu.offset r.pos > strlen mu.query then .error .largeOffset
  else .ok (emplace (mu.entry r) m)

/-- The length of `fragment_SELECT_prefix`, for a fragment. -/
def shift : Int := if mu.fragment.isSome then "SELECT ".length else 0

end Mutator

/-- `std::u32string::substr`.  A negative position is one of `size_t` behind every text. -/
def substr (t : Text) (pos : Int) (len : Nat) : Except MutatorError Text :=
  if pos < 0 ∨ (t.length : Int) < pos then .error .outOfRange
  else .ok ((t.drop pos.toNat).take len)

variable (mu : Mutator)

/-- A round of the loop, on the cursor and the new text.  The condition is made with a comma, so
that an empty text is looked for as well. -/
def Mutator.runEntry (e : Rewrite) (s : Nat × Text) :
    Except MutatorError (Nat × Text) := do
  let offset := e.pos + mu.shift
  let found ← substr mu.query offset e.orig.length
  if found = e.orig then
    if offset < s.1 then throw .multipleMutations
    else
      let copied ← if offset - s.1 > 0 then substr mu.query s.1 (offset - s.1).toNat else pure []
      return (offset.toNat + e.orig.length, s.2 ++ copied ++ e.repl)
  else return s

def Mutator.runEntries (mu : Mutator) : List Rewrite → Nat × Text → Except MutatorError (Nat × Text)
  | [], s => .ok s
  | e :: es, s => mu.runEntry e s >>= mu.runEntries es

/-- `run`: the new text of the query. -/
def Mutator.run (m : List Rewrite) : Except MutatorError Text :=
  if m.length = 0 then .ok mu.query
  else do
    let (cursor, rewritten) ← mu.runEntries m (0, [])
    if cursor < strlen mu.query then
      let rest ← substr mu.query cursor mu.query.length
      return rewritten ++ rest
    else return rewritten

/-- Rewrites are collected, and then made. -/
def Mutator.mutate (rs : List Rewrite) : Except MutatorError Text :=
  rs.foldlM mu.add [] >>= mu.run

/-! ### What a mutator is for -/

/-- The place of an entry in the text. -/
def Mutator.place (e : Rewrite) : Nat := (e.pos + mu.shift).toNat

/-- The original text of an entry stands at its place. -/
def Mutator.stands (e : Rewrite) : Bool :=
  (mu.query.drop (mu.place e)).take e.orig.length = e.orig

/-- **All rewrites made at once**: `text`, which begins at `pos`, consists of the original texts at
their places and of gaps, and `out` of the new texts and the same gaps. -/
def Substituted (place : Rewrite → Nat) : Nat → List Rewrite → Text → Text → Prop
  | _, [], text, out => out = text
  | pos, e :: es, text, out => ∃ gap rest out', pos + gap.length = place e ∧
      text = gap ++ e.orig ++ rest ∧ out = gap ++ e.repl ++ out' ∧
      Substituted place (place e + e.orig.length) es rest out'

/-- A position inside the text of the query. -/
structure Mutator.Inside (mu : Mutator) (r : Rewrite) : Prop where
  here : mu.isElsewhere r.pos = false
  lower : 0 ≤ mu.offset r.pos
  upper : mu.place (mu.entry r) ≤ mu.query.length

/-- No two rewrites are given for the same position. -/
abbrev Distinct (rs : List Rewrite) : Prop := (rs.map Rewrite.pos).Nodup

/-- **What rewriting should do**: the rewrites that stand at their positions are made, each once, or
the error is raised; and it is raised when two are given for the same position. -/
structure Mutator.MutatesRight (mu : Mutator) (rs : List Rewrite) : Prop where
  result : mu.mutate rs = .error .multipleMutations ∨
    ∃ out es, mu.mutate rs = .ok out ∧ es.Perm ((rs.map mu.entry).filter mu.stands) ∧
      Substituted mu.place 0 es mu.query out
  twice : ¬Distinct rs → mu.mutate rs = .error .multipleMutations

/-- Two entries stand in the text and overlap. -/
def Mutator.Overlap (es : List Rewrite) : Prop :=
  ∃ e ∈ es, ∃ e' ∈ es, mu.stands e ∧ mu.stands e' ∧ e.pos < e'.pos ∧
    mu.place e' < mu.place e + e.orig.length

/-- The first rewrite for each position. -/
def firstRewrites (rs : List Rewrite) : List Rewrite :=
  rs.reverse.pwFilter fun r r' => r.pos ≠ r'.pos

/-- The entries of the map, when all rewrites have been given. -/
def Mutator.kept (rs : List Rewrite) : List Rewrite :=
  rs.foldl (fun m r => emplace (mu.entry r) m) []

open Mutator

/-! ### The map -/

theorem mem_emplace (h : e ∈ emplace r m) : e = r ∨ e ∈ m := by
  induction m with
  | nil => exact .inl (mem_singleton.mp h)
  | cons d m ih =>
    rw [emplace] at h
    split at h
    · exact mem_cons.mp h
    split at h
    · rcases mem_cons.mp h with rfl | h
      · exact .inr mem_cons_self
      · exact (ih h).imp id (mem_cons_of_mem d)
    · exact .inr h

def Sorted (m : List Rewrite) : Prop := m.Pairwise fun e e' => e.pos < e'.pos

theorem sorted_emplace (h : Sorted m) : Sorted (emplace r m) := by
  induction m with
  | nil => exact pairwise_singleton _ _
  | cons d m ih =>
    obtain ⟨hd, hm⟩ := pairwise_cons.mp h
    rw [emplace]
    split
    · next hlt =>
      refine pairwise_cons.mpr ⟨fun e he => ?_, h⟩
      rcases mem_cons.mp he with rfl | he
      · exact hlt
      · exact Int.lt_trans hlt (hd e he)
    split
    · next hgt =>
      refine pairwise_cons.mpr ⟨fun e he => ?_, ih hm⟩
      rcases mem_emplace he with rfl | he
      · exact hgt
      · exact hd e he
    · exact h

theorem emplace_perm (h : r.pos ∉ m.map Rewrite.pos) : (emplace r m).Perm (r :: m) := by
  induction m with
  | nil => exact .refl _
  | cons d m ih =>
    rw [map_cons, mem_cons, not_or] at h
    rw [emplace]
    split
    · exact .refl _
    split
    · exact ((ih h.2).cons d).trans (.swap r d m)
    · omega

theorem emplace_of_mem (h : Sorted m) (hmem : r.pos ∈ m.map Rewrite.pos) : emplace r m = m := by
  induction m with
  | nil => cases hmem
  | cons d m ih =>
    obtain ⟨hd, hm⟩ := pairwise_cons.mp h
    rw [emplace]
    rcases mem_cons.mp hmem with heq | hmem
    · rw [if_neg (by omega), if_neg (by omega)]
    · obtain ⟨e, he, hpos⟩ := mem_map.mp hmem
      have hlt := hd e he
      rw [if_neg (by omega), if_pos (by omega), ih hm hmem]

section
variable {mu : Mutator} {rs : List Rewrite}

theorem kept_concat : mu.kept (rs ++ [r]) = emplace (mu.entry r) (mu.kept rs) := by
  simp [kept]

theorem sorted_kept : Sorted (mu.kept rs) := by
  induction rs using reverseRecOn with
  | nil => exact .nil
  | append_singleton rs r ih =>
    rw [kept_concat]
    exact sorted_emplace ih

theorem offset_inj {p q : Int} (h : mu.offset p = mu.offset q) : p = q := by
  unfold offset at h
  split at h <;> omega

/-- **The map holds the first rewrite for each position.** -/
theorem kept_perm : (mu.kept rs).Perm ((firstRewrites rs).map mu.entry) := by
  induction rs using reverseRecOn with
  | nil => exact .refl _
  | append_singleton rs r ih =>
    have hpos : (mu.entry r).pos ∈ (mu.kept rs).map Rewrite.pos ↔
        ¬∀ r' ∈ firstRewrites rs, r.pos ≠ r'.pos := by
      rw [(ih.map _).mem_iff]
      simp only [mem_map, exists_exists_and_eq_and, not_forall, not_not, exists_prop]
      exact exists_congr fun r' => and_congr_right fun _ =>
        ⟨fun h => (offset_inj h).symm, fun h => congrArg mu.offset h.symm⟩
    rw [kept_concat, firstRewrites, reverse_append, reverse_singleton, singleton_append]
    by_cases hnew : ∀ r' ∈ firstRewrites rs, r.pos ≠ r'.pos
    · rw [pwFilter_cons_of_pos hnew]
      exact (emplace_perm fun hmem => hpos.mp hmem hnew).trans (ih.cons _)
    · rw [pwFilter_cons_of_neg hnew, emplace_of_mem sorted_kept (hpos.mpr hnew)]
      exact ih

theorem firstRewrites_perm (h : Distinct rs) : (firstRewrites rs).Perm rs := by
  rw [firstRewrites, pwFilter_eq_self.mpr]
  · exact reverse_perm rs
  · exact pairwise_reverse.mpr ((pairwise_map.mp h).imp Ne.symm)

theorem exists_of_mem_kept (h : e ∈ mu.kept rs) : ∃ r ∈ rs, e = mu.entry r := by
  obtain ⟨r, hr, rfl⟩ := mem_map.mp (kept_perm.mem_iff.mp h)
  exact ⟨r, mem_reverse.mp (pwFilter_subset _ hr), rfl⟩

theorem overlap_kept : mu.Overlap (mu.kept rs) ↔ mu.Overlap ((firstRewrites rs).map mu.entry) := by
  simp only [Overlap, kept_perm.mem_iff]

/-! ### Collecting -/

theorem length_le_strlen (t : Text) : t.length ≤ strlen t := by
  refine length_le_length_flatMap (fun c => ?_) t
  rw [String.length_utf8EncodeChar]
  exact Char.utf8Size_pos c

theorem shift_nonneg (mu : Mutator) : 0 ≤ mu.shift := by
  unfold shift
  split <;> decide

theorem Mutator.Inside.add_eq (h : mu.Inside r) : mu.add m r = .ok (emplace (mu.entry r) m) := by
  obtain ⟨hhere, hlower, hupper⟩ := h
  have hlen := length_le_strlen mu.query
  have hoffset : mu.offset r.pos ≤ strlen mu.query := by
    have hshift := shift_nonneg mu
    have hplace : mu.place (mu.entry r) = (mu.offset r.pos + mu.shift).toNat := rfl
    omega
  rw [add, hhere, if_neg Bool.false_ne_true, if_neg (Int.not_lt.mpr hlower),
    if_neg (Int.not_lt.mpr hoffset), ite_self]

theorem foldlM_add_eq (h : ∀ r ∈ rs, mu.Inside r) :
    rs.foldlM mu.add m = .ok (rs.foldl (fun m r => emplace (mu.entry r) m) m) := by
  induction rs generalizing m with
  | nil => rfl
  | cons r rs ih =>
    obtain ⟨hr, hrs⟩ := forall_mem_cons.mp h
    rw [foldlM_cons, hr.add_eq, ok_bind, ih hrs]
    rfl

/-! ### Making the rewrites -/

/-- An entry of the map whose place is in the text. -/
def Mutator.Fits (mu : Mutator) (e : Rewrite) : Prop :=
  0 ≤ e.pos + mu.shift ∧ mu.place e ≤ mu.query.length

theorem substr_eq {t : Text} {pos : Nat} (h : pos ≤ t.length) (len : Nat) :
    substr t pos len = .ok ((t.drop pos).take len) := by
  rw [substr, if_neg (by omega), Int.toNat_natCast]

theorem runEntry_eq {out : Text} (h : mu.Fits e) (hc : cursor ≤ mu.query.length) :
    mu.runEntry e (cursor, out) =
      if mu.stands e then
        if mu.place e < cursor then .error .multipleMutations
        else .ok (mu.place e + e.orig.length,
          out ++ (mu.query.drop cursor).take (mu.place e - cursor) ++ e.repl)
      else .ok (cursor, out) := by
  have hplace : e.pos + mu.shift = (mu.place e : Int) := (Int.toNat_of_nonneg h.1).symm
  unfold runEntry stands
  simp only [hplace, substr_eq h.2, ok_bind, decide_eq_true_eq]
  split_ifs with hs hlt hgap <;> try omega
  · rfl
  · rw [substr_eq hc, ok_bind, Int.toNat_sub]
    rfl
  · have hgap : mu.place e = cursor := by omega
    rw [hgap, Nat.sub_self, take_zero]
    rfl
  · rfl

/-- An entry that stands in the text begins before the cursor, or two entries overlap. -/
def Mutator.Clash (mu : Mutator) (cursor : Nat) (es : List Rewrite) : Prop :=
  (∃ e ∈ es, mu.stands e ∧ mu.place e < cursor) ∨ mu.Overlap es

theorem clash_skip (h : ¬mu.stands e) : mu.Clash cursor (e :: es) ↔ mu.Clash cursor es := by
  unfold Mutator.Clash Mutator.Overlap
  simp [h]

theorem clash_step (hs : mu.stands e) (hsorted : Sorted (e :: es))
    (hfits : ∀ d ∈ e :: es, mu.Fits d) (hc : cursor ≤ mu.place e) :
    mu.Clash cursor (e :: es) ↔ mu.Clash (mu.place e + e.orig.length) es := by
  obtain ⟨hlt, -⟩ := pairwise_cons.mp hsorted
  obtain ⟨he, hes⟩ := forall_mem_cons.mp hfits
  have hplace : ∀ d ∈ es, mu.place e < mu.place d := by
    intro d hd
    have hpos := hlt d hd
    have he' := he.1
    unfold place
    omega
  constructor
  · rintro (⟨d, hd, -, hbefore⟩ | ⟨d, hd, d', hd', hsd, hsd', hpos, hover⟩)
    · rcases mem_cons.mp hd with rfl | hd
      · omega
      · have := hplace d hd
        omega
    · rcases mem_cons.mp hd' with rfl | hd₂
      · rcases mem_cons.mp hd with rfl | hd₁
        · omega
        · exact absurd (hlt d hd₁) (by omega)
      · rcases mem_cons.mp hd with rfl | hd₁
        · exact .inl ⟨d', hd₂, hsd', hover⟩
        · exact .inr ⟨d, hd₁, d', hd₂, hsd, hsd', hpos, hover⟩
  · rintro (⟨d, hd, hsd, hbefore⟩ | ⟨d, hd, d', hd', hrest⟩)
    · exact .inr ⟨e, mem_cons_self, d, mem_cons_of_mem e hd, hs, hsd, hlt d hd, hbefore⟩
    · exact .inr ⟨d, mem_cons_of_mem e hd, d', mem_cons_of_mem e hd', hrest⟩

theorem drop_at_entry (hs : mu.stands e) (hc : cursor ≤ mu.place e) :
    mu.query.drop cursor = (mu.query.drop cursor).take (mu.place e - cursor) ++ e.orig ++
      mu.query.drop (mu.place e + e.orig.length) := by
  have hfound : (mu.query.drop (mu.place e)).take e.orig.length = e.orig := of_decide_eq_true hs
  have hdrop : (mu.query.drop cursor).drop (mu.place e - cursor) = mu.query.drop (mu.place e) := by
    rw [drop_drop, Nat.add_sub_of_le hc]
  have hentry : mu.query.drop (mu.place e) =
      e.orig ++ mu.query.drop (mu.place e + e.orig.length) := by
    rw [← drop_drop]
    conv_rhs => rw [← hfound, hfound]
    exact (congrArg (· ++ _) hfound ▸ take_append_drop e.orig.length _).symm
  rw [append_assoc, ← hentry, ← hdrop, take_append_drop]

/-- **The loop** makes all rewrites that stand in the text, or two of them are in each other's
way. -/
theorem runEntries_spec (hsorted : Sorted es) (hfits : ∀ e ∈ es, mu.Fits e)
    (hc : cursor ≤ mu.query.length) (out : Text) :
    (mu.Clash cursor es ∧ mu.runEntries es (cursor, out) = .error .multipleMutations) ∨
    (¬mu.Clash cursor es ∧ ∃ stop mid, mu.runEntries es (cursor, out) = .ok (stop, out ++ mid) ∧
      stop ≤ mu.query.length ∧ Substituted mu.place cursor (es.filter mu.stands)
        (mu.query.drop cursor) (mid ++ mu.query.drop stop)) := by
  induction es generalizing cursor out with
  | nil =>
    refine .inr ⟨?_, cursor, [], by rw [append_nil]; rfl, hc, rfl⟩
    rintro (⟨e, he, -⟩ | ⟨e, he, -⟩) <;> cases he
  | cons e es ih =>
    obtain ⟨he, hes⟩ := forall_mem_cons.mp hfits
    have htail := (pairwise_cons.mp hsorted).2
    rw [runEntries, runEntry_eq he hc]
    by_cases hs : mu.stands e
    · rw [if_pos hs, filter_cons_of_pos hs]
      by_cases hbefore : mu.place e < cursor
      · rw [if_pos hbefore]
        exact .inl ⟨.inl ⟨e, mem_cons_self, hs, hbefore⟩, rfl⟩
      · have hle := Nat.le_of_not_lt hbefore
        have htext := drop_at_entry hs hle
        have hend : mu.place e + e.orig.length ≤ mu.query.length := by
          have hlen := congrArg length (of_decide_eq_true hs)
          have hup := he.2
          rw [length_take, length_drop] at hlen
          omega
        rw [if_neg hbefore, ok_bind, clash_step hs hsorted hfits hle]
        refine (ih htail hes hend _).imp id ?_
        rintro ⟨hnot, stop, mid, hrun, hstop, hsub⟩
        refine ⟨hnot, stop, (mu.query.drop cursor).take (mu.place e - cursor) ++ e.repl ++ mid,
          by rw [hrun]; simp, hstop, ?_⟩
        refine ⟨_, _, _, ?_, htext, by simp, hsub⟩
        rw [length_take, length_drop]
        omega
    · rw [if_neg hs, filter_cons_of_neg hs, ok_bind, clash_skip hs]
      exact ih htail hes hc out

theorem mutate_cases (h : ∀ r ∈ rs, mu.Inside r) :
    (mu.Overlap (mu.kept rs) ∧ mu.mutate rs = .error .multipleMutations) ∨
    (¬mu.Overlap (mu.kept rs) ∧ ∃ out, mu.mutate rs = .ok out ∧
      Substituted mu.place 0 ((mu.kept rs).filter mu.stands) mu.query out) := by
  rw [mutate, foldlM_add_eq h, ok_bind]
  show (_ ∧ mu.run (mu.kept rs) = _) ∨ (_ ∧ ∃ out, mu.run (mu.kept rs) = .ok out ∧ _)
  have hfits : ∀ e ∈ mu.kept rs, mu.Fits e := by
    intro e he
    obtain ⟨r, hr, rfl⟩ := exists_of_mem_kept he
    obtain ⟨-, hlower, hupper⟩ := h r hr
    exact ⟨Int.add_nonneg hlower (shift_nonneg mu), hupper⟩
  have hclash : mu.Clash 0 (mu.kept rs) ↔ mu.Overlap (mu.kept rs) := by
    refine ⟨?_, .inr⟩
    rintro (⟨e, -, -, hlt⟩ | hover)
    · omega
    · exact hover
  have hspec := runEntries_spec sorted_kept hfits (Nat.zero_le _) []
  rw [hclash] at hspec
  rcases hspec with ⟨hover, herr⟩ | ⟨hnot, stop, mid, hrun, hstop, hsub⟩
  · refine .inl ⟨hover, ?_⟩
    have hne : ¬(mu.kept rs).length = 0 := by
      obtain ⟨e, he, -⟩ := hover
      exact fun h0 => ne_nil_of_mem he (eq_nil_of_length_eq_zero h0)
    rw [run, if_neg hne, herr]
    rfl
  · refine .inr ⟨hnot, mid ++ mu.query.drop stop, ?_, hsub⟩
    unfold run
    split
    · next h0 =>
      rw [eq_nil_of_length_eq_zero h0] at hsub
      exact congrArg Except.ok hsub.symm
    rw [hrun, ok_bind, nil_append]
    dsimp only
    have hlen := length_le_strlen mu.query
    split_ifs
    · rw [substr_eq hstop, ok_bind, take_of_length_le (by rw [length_drop]; omega)]
      rfl
    · rw [drop_of_length_le (by omega), append_nil]
      rfl

end

/-- **Rewrites are made as they are given**, unless a position is given twice: then the first one is
made, without an error. -/
theorem mutate_right_iff (mu : Mutator) (rs : List Rewrite)
    (h : ∀ r ∈ rs, mu.Inside r) :
    mu.MutatesRight rs ↔ Distinct rs ∨ mu.Overlap ((firstRewrites rs).map mu.entry) := by
  rw [← overlap_kept]
  rcases mutate_cases h with ⟨hover, herr⟩ | ⟨hnot, out, hout, hsub⟩
  · exact ⟨fun _ => .inr hover, fun _ => ⟨.inl herr, fun _ => herr⟩⟩
  · constructor
    · intro hright
      by_contra hcon
      rw [not_or] at hcon
      have herr := hright.twice hcon.1
      rw [hout] at herr
      cases herr
    · rintro (hdistinct | hover)
      · refine ⟨.inr ⟨out, _, hout, ?_, hsub⟩, fun hcon => absurd hdistinct hcon⟩
        exact (kept_perm.trans ((firstRewrites_perm hdistinct).map _)).filter _
      · exact absurd hover hnot

/-- A query with a character of two bytes. -/
theorem mutate_right_variable :
    Mutator.MutatesRight ⟨['é', '@', 'a'], 0, none⟩ [⟨1, ['@', 'a'], ['b']⟩] := by
  refine (mutate_right_iff ⟨['é', '@', 'a'], 0, none⟩ [⟨1, ['@', 'a'], ['b']⟩] ?_).mpr
    (.inl (by decide))
  intro r hr
  obtain rfl := mem_singleton.mp hr
  exact ⟨by decide, by decide, by decide⟩

/-- Of two rewrites of the same character, one is lost. -/
theorem mutate_loses :
    Mutator.mutate ⟨['a'], 0, none⟩ [⟨0, ['a'], ['b']⟩, ⟨0, ['a'], ['c']⟩] = .ok ['b'] ∧
      ¬Mutator.MutatesRight ⟨['a'], 0, none⟩ [⟨0, ['a'], ['b']⟩, ⟨0, ['a'], ['c']⟩] := by
  refine ⟨by decide, fun h => ?_⟩
  exact absurd (h.twice (by decide)) (by decide)

/-! ### The order of the rewrites -/

/-- **The order in which rewrites are given does not matter**, if no position is given twice. -/
theorem mutate_eq_of_perm (mu : Mutator) {rs rs' : List Rewrite} (hperm : rs.Perm rs')
    (hinside : ∀ r ∈ rs, mu.Inside r) (h : Distinct rs) : mu.mutate rs = mu.mutate rs' := by
  have h' : Distinct rs' := (hperm.map _).nodup h
  have hfirst : (firstRewrites rs).Perm (firstRewrites rs') :=
    ((firstRewrites_perm h).trans hperm).trans (firstRewrites_perm h').symm
  have hkept : (mu.kept rs).Perm (mu.kept rs') :=
    (kept_perm.trans (hfirst.map _)).trans kept_perm.symm
  have heq : mu.kept rs = mu.kept rs' :=
    hkept.eq_of_pairwise (fun _ _ _ _ hlt hgt => absurd hlt hgt.asymm) sorted_kept sorted_kept
  rw [mutate, mutate, foldlM_add_eq hinside,
    foldlM_add_eq fun r hr => hinside r (hperm.mem_iff.mpr hr)]
  exact congrArg mu.run heq

theorem mutate_eq_of_perm_two :
    Mutator.mutate ⟨['a', 'b'], 0, none⟩ [⟨1, ['b'], ['c']⟩, ⟨0, ['a'], ['d']⟩] =
      Mutator.mutate ⟨['a', 'b'], 0, none⟩ [⟨0, ['a'], ['d']⟩, ⟨1, ['b'], ['c']⟩] :=
  mutate_eq_of_perm _ (.swap _ _ _) (forall_mem_cons.mpr ⟨⟨by decide, by decide, by decide⟩,
    forall_mem_singleton.mpr ⟨by decide, by decide, by decide⟩⟩) (by decide)

end Babelfish.Tsql.QueryMutator
