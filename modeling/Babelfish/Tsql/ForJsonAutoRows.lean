import Mathlib.Data.List.Nodup
import Babelfish.Tsql.ForJsonAutoMerge

/-!
# The rows that `FOR JSON AUTO` shows

The array shows the rows it was given as long as a row is not taken for an earlier one that has the
values of other columns.  Which columns have the values only matters when NULLs are left out: with
all columns shown, equal values by position are equal values of the same columns.

When a row is put below the levels of another one, those levels stay in the way: no later row can
bring an object with its own levels into the array.

* `Faithful.insert`: a row that is kept apart from the rows before it is added to those shown.
* `BlockedUpper.insert`, `BlockedRoot.insert`: levels that stay in the way.
* `tsqlAutoRowsToJson_iff`: when the array shows exactly the rows.
-/

namespace Babelfish.Tsql.ForJsonAuto

open Lib List

variable {N : Type} [DecidableEq N]

/-! ### Fitting -/

variable {c q : List (Level N)}

theorem fits_self (h : fits c q = true) : fits c c = true := by
  induction c generalizing q with
  | nil => rfl
  | cons e c ih =>
    cases q with
    | nil => cases h
    | cons r q =>
      rw [fits, Bool.and_eq_true] at h ⊢
      exact ⟨levelSame_self h.1, ih h.2⟩

theorem fits_append (hlen : c.length = q.length) (l : List (Level N)) :
    fits c (q ++ l) = fits c q := by
  induction c generalizing q with
  | nil => rfl
  | cons e c ih =>
    cases q with
    | nil => cases hlen
    | cons r q => rw [cons_append, fits, fits, ih (by simpa using hlen)]

theorem fits_append_right (h : fits c q = true) (l : List (Level N)) : fits c (q ++ l) = true := by
  induction c generalizing q with
  | nil => rfl
  | cons e c ih =>
    cases q with
    | nil => cases h
    | cons r q =>
      rw [cons_append, fits, Bool.and_eq_true]
      rw [fits, Bool.and_eq_true] at h
      exact ⟨h.1, ih h.2⟩

theorem fits_symm (hlen : c.length = q.length) (h : fits c q = true) : fits q c = true := by
  induction c generalizing q with
  | nil => cases q with
    | nil => rfl
    | cons r q => cases hlen
  | cons e c ih =>
    cases q with
    | nil => cases hlen
    | cons r q =>
      rw [fits, Bool.and_eq_true] at h ⊢
      exact ⟨levelSame_symm h.1, ih (by simpa using hlen) h.2⟩

theorem fits_dropLast (hlen : c.length + 1 = q.length) : fits c q.dropLast = fits c q := by
  have hne : q ≠ [] := by
    rintro rfl
    cases hlen
  have h := fits_append (c := c) (q := q.dropLast) (by simp; omega) [q.getLast hne]
  rw [dropLast_append_getLast] at h
  exact h.symm

omit [DecidableEq N] in
theorem attach_dropLast : attach q.dropLast q = q := by
  rw [attach, length_dropLast, dropLast_eq_take, take_append_drop]

/-! ### The rows kept apart -/

/-- **A row `q` is kept apart from an earlier row `p`**: no scalar of `q` is read as an array on
the way to `p`; and when all levels of `p` above the last, or its first level above others, are
taken for those of `q`, they are those of `q`. -/
def KeptApart (p q : List (Level N)) : Prop :=
  overruns p.dropLast q = false ∧ (fits p.dropLast q = true → p.dropLast = q.dropLast) ∧
    ∀ e ∈ p.dropLast.head?, ∀ r ∈ q.head?, levelSame e r = true → e = r

instance (p q : List (Level N)) : Decidable (KeptApart p q) := by
  unfold KeptApart
  infer_instance

/-- The array shows the rows so far. -/
structure Faithful (n : Nat) (arr : List (Object N)) (shownRows : List (List (Level N))) :
    Prop where
  shaped : ∀ o ∈ arr, Shaped (n + 1) o
  apart : Apart (arr.map levelOf)
  rows : (readRows (n + 1) arr).Perm shownRows
  once : ((uppers (n + 1) arr).filter fun u => fits u u).Nodup

variable {n : Nat} {arr : List (Object N)}

omit [DecidableEq N] in
theorem mem_uppers_succ (hshape : ∀ o ∈ arr, Shaped (n + 1) o) (u : List (Level N)) :
    u ∈ uppers (n + 1) arr ↔ ∃ p ∈ readRows (n + 1) arr, p.dropLast = u := by
  cases arr with
  | nil => simp
  | cons o arr => exact mem_uppers (n + 1) (o :: arr) (cons_ne_nil o arr) hshape u

variable {rows : List (List (Level N))}

theorem Faithful.mem_uppers (h : Faithful n arr rows) (u : List (Level N)) :
    u ∈ uppers (n + 1) arr ↔ ∃ p ∈ rows, p.dropLast = u := by
  rw [mem_uppers_succ h.shaped]
  constructor
  · rintro ⟨p, hp, rfl⟩
    exact ⟨p, h.rows.mem_iff.mp hp, rfl⟩
  · rintro ⟨p, hp, rfl⟩
    exact ⟨p, h.rows.mem_iff.mpr hp, rfl⟩

/-- No scalar of a row that is kept apart from the rows so far is read as an array. -/
theorem Faithful.not_overruns (h : Faithful n arr rows) (hapart : ∀ p ∈ rows, KeptApart p q) :
    (uppers (n + 1) arr).any (overruns · q) = false := by
  refine any_eq_false_of fun u hu => ?_
  obtain ⟨p, hp, rfl⟩ := (h.mem_uppers u).mp hu
  exact (hapart p hp).1

theorem Faithful.mem_roots (h : Faithful n arr rows) (e : Level N) :
    e ∈ arr.map levelOf ↔ ∃ p ∈ rows, p.dropLast.head? = some e := by
  rw [ForJsonAuto.mem_roots h.shaped]
  constructor
  · rintro ⟨u, hu⟩
    obtain ⟨p, hp, hpu⟩ := (h.mem_uppers _).mp hu
    exact ⟨p, hp, by rw [hpu]; rfl⟩
  · rintro ⟨p, hp, hhead⟩
    obtain ⟨u, hu⟩ := head?_eq_some_iff.mp hhead
    exact ⟨u, (h.mem_uppers _).mpr ⟨p, hp, hu⟩⟩

theorem levelSame_comm (e r : Level N) : levelSame e r = levelSame r e :=
  Bool.eq_iff_iff.mpr ⟨levelSame_symm, levelSame_symm⟩

variable {r : Level N} {arr' : List (Object N)} {p : List (Level N)}

theorem Inserted.apart (h : Inserted n r q arr arr') (hapart : Apart (arr.map levelOf)) :
    Apart (arr'.map levelOf) := by
  cases h with
  | root hroot _ hroots =>
    unfold Apart at hapart ⊢
    rw [hroots.pairwise_iff fun {x y} h => by rwa [levelSame_comm]]
    rw [pairwise_append]
    refine ⟨hapart, pairwise_singleton _ _, ?_⟩
    intro e he r' hr'
    rw [mem_singleton.mp hr']
    exact hroot e he
  | inner _ _ hroots | second _ _ _ _ _ hroots => rwa [hroots]

theorem Inserted.shaped (h : Inserted n r q arr arr') : ∀ o ∈ arr', Shaped n o := by
  cases h with
  | root _ hgrown _ | inner _ hgrown _ | second _ _ _ _ hgrown _ => exact hgrown.shaped

omit [DecidableEq N] in
theorem eq_singleton_of_nodup {l : List (List (Level N))} (hl : l ≠ []) (hnodup : l.Nodup)
    (hall : ∀ u ∈ l, u = c) : l = [c] := by
  cases l with
  | nil => exact absurd rfl hl
  | cons x l =>
    cases l with
    | nil => rw [hall x mem_cons_self]
    | cons y l =>
      have hx := hall x mem_cons_self
      have hy := hall y (mem_cons_of_mem _ mem_cons_self)
      rw [hx, hy] at hnodup
      simp at hnodup

theorem nodup_uppers {us us' : List (List (Level N))} (honce : (us.filter fun u => fits u u).Nodup)
    (hperm : us'.Perm (us ++ [c])) (hnew : fits c c = true → c ∉ us) :
    (us'.filter fun u => fits u u).Nodup := by
  rw [(hperm.filter _).nodup_iff, filter_append]
  refine nodup_append.mpr ⟨honce, (nodup_singleton c).filter _, ?_⟩
  rintro u hu _ hv rfl
  obtain ⟨hv, hself⟩ := mem_filter.mp hv
  rw [mem_singleton.mp hv] at hu hself
  exact hnew hself (mem_filter.mp hu).1

/-- **A row that is kept apart from those before it** is added to the rows shown. -/
theorem Faithful.insert (h : Faithful n arr rows) (hq : q.length = n + 1)
    (hapart : ∀ p ∈ rows, KeptApart p (r :: q)) (hins : Inserted (n + 1) r q arr arr') :
    Faithful n arr' (rows ++ [r :: q]) := by
  have hq₀ : q ≠ [] := by
    rintro rfl
    cases hq
  have hdrop : (r :: q).dropLast = r :: q.dropLast := dropLast_cons_of_ne_nil hq₀
  suffices hnew : (readRows (n + 1) arr').Perm (rows ++ [r :: q]) ∧
      ((uppers (n + 1) arr').filter fun u => fits u u).Nodup from
    ⟨hins.shaped, hins.apart h.apart, hnew.1, hnew.2⟩
  cases hins with
  | root hroot hgrown _ =>
    refine ⟨hgrown.rows.trans (h.rows.append_right _), nodup_uppers h.once hgrown.uppers ?_⟩
    intro hself hmem
    rw [hdrop] at hself hmem
    have hr := hroot r ((ForJsonAuto.mem_roots h.shaped r).mpr ⟨_, hmem⟩)
    rw [fits, hr] at hself
    cases hself
  | inner hfit hgrown _ =>
    constructor
    · have hall : ∀ u ∈ (uppers (n + 1) arr).filter (fits · (r :: q)), u = (r :: q).dropLast := by
        intro u hu
        obtain ⟨hu, hfits⟩ := mem_filter.mp hu
        obtain ⟨p, hp, rfl⟩ := (h.mem_uppers u).mp hu
        exact (hapart p hp).2.1 hfits
      have hnodup : ((uppers (n + 1) arr).filter (fits · (r :: q))).Nodup := by
        have hsub := h.once.filter (fits · (r :: q))
        rw [filter_filter] at hsub
        rwa [filter_congr fun u _ => show fits u (r :: q) =
          (fits u (r :: q) && fits u u) by
            cases hf : fits u (r :: q) with
            | false => rfl
            | true => rw [fits_self hf]; rfl]
      have hne : (uppers (n + 1) arr).filter (fits · (r :: q)) ≠ [] := by
        obtain ⟨u, hu, hf⟩ := any_eq_true.mp hfit
        exact ne_nil_of_mem (mem_filter.mpr ⟨hu, hf⟩)
      have hrows := hgrown.rows
      rw [eq_singleton_of_nodup hne hnodup hall, map_singleton, attach_dropLast] at hrows
      exact hrows.trans (h.rows.append_right _)
    · have huppers := hgrown.uppers
      rw [append_nil] at huppers
      rw [(huppers.filter _).nodup_iff]
      exact h.once
  | second e he hsame hfit hgrown _ =>
    obtain ⟨p, hp, hhead⟩ := (h.mem_roots e).mp he
    have heq : e = r := (hapart p hp).2.2 e hhead r rfl hsame
    subst heq
    refine ⟨hgrown.rows.trans (h.rows.append_right _), nodup_uppers h.once hgrown.uppers ?_⟩
    intro hself hmem
    have hf : fits (e :: q).dropLast (e :: q) = true := by
      rwa [← fits_dropLast (by simp)]
    rw [any_eq_false] at hfit
    exact hfit _ hmem hf

/-! ### Levels in the way -/

/-- Levels that are taken for `c`, with nothing below `c` itself. -/
structure BlockedUpper (n : Nat) (arr : List (Object N)) (c : List (Level N)) : Prop where
  shaped : ∀ o ∈ arr, Shaped (n + 1) o
  apart : Apart (arr.map levelOf)
  taken : ∃ u ∈ uppers (n + 1) arr, fits u c = true
  absent : c ∉ uppers (n + 1) arr

/-- An object that is taken for `r`, with no object that has the level `r` itself. -/
structure BlockedRoot (n : Nat) (arr : List (Object N)) (r : Level N) : Prop where
  shaped : ∀ o ∈ arr, Shaped (n + 1) o
  apart : Apart (arr.map levelOf)
  taken : ∃ e ∈ arr.map levelOf, levelSame e r = true
  absent : r ∉ arr.map levelOf

theorem BlockedRoot.insert {r₀ : Level N} (h : BlockedRoot n arr r₀)
    (hins : Inserted (n + 1) r q arr arr') : BlockedRoot n arr' r₀ := by
  obtain ⟨e, he, hsame⟩ := h.taken
  have hroots : (arr'.map levelOf = arr.map levelOf) ∨
      (arr'.map levelOf).Perm (arr.map levelOf ++ [r]) ∧ r ≠ r₀ := by
    cases hins with
    | root hroot _ hroots =>
      refine .inr ⟨hroots, ?_⟩
      rintro rfl
      rw [hroot e he] at hsame
      cases hsame
    | inner _ _ hroots | second _ _ _ _ _ hroots => exact .inl hroots
  refine ⟨hins.shaped, hins.apart h.apart, ⟨e, ?_, hsame⟩, ?_⟩
  · rcases hroots with heq | ⟨hperm, -⟩
    · rwa [heq]
    · exact hperm.mem_iff.mpr (mem_append_left _ he)
  · rcases hroots with heq | ⟨hperm, hne⟩
    · rw [heq]
      exact h.absent
    · intro hmem
      rcases mem_append.mp (hperm.mem_iff.mp hmem) with hmem | hmem
      · exact h.absent hmem
      · exact hne (mem_singleton.mp hmem).symm

theorem BlockedUpper.insert (h : BlockedUpper n arr c) (hc : c.length = n + 1)
    (hq : q.length = n + 1) (hins : Inserted (n + 1) r q arr arr') : BlockedUpper n arr' c := by
  obtain ⟨u, hu, hfits⟩ := h.taken
  have hq₀ : q ≠ [] := by
    rintro rfl
    cases hq
  obtain ⟨f, c', rfl⟩ : ∃ f c', c = f :: c' := exists_cons_of_ne_nil (by
    rintro rfl
    cases hc)
  obtain ⟨o, ho, hu'⟩ := mem_flatMap.mp hu
  obtain ⟨u', -, rfl⟩ := mem_map.mp hu'
  rw [fits, Bool.and_eq_true] at hfits
  have hnew : ∀ new, (uppers (n + 1) arr').Perm (uppers (n + 1) arr ++ new) → f :: c' ∉ new →
      BlockedUpper n arr' (f :: c') := by
    intro new hperm hnot
    refine ⟨hins.shaped, hins.apart h.apart, ⟨_, hperm.mem_iff.mpr (mem_append_left _ hu), ?_⟩, ?_⟩
    · rwa [fits, Bool.and_eq_true]
    · intro hmem
      rcases mem_append.mp (hperm.mem_iff.mp hmem) with hmem | hmem
      · exact h.absent hmem
      · exact hnot hmem
  cases hins with
  | root hroot hgrown _ =>
    refine hnew _ hgrown.uppers ?_
    rw [dropLast_cons_of_ne_nil hq₀, mem_singleton, cons.injEq]
    rintro ⟨rfl, -⟩
    have hno := hroot (levelOf o) (mem_map_of_mem ho)
    rw [hfits.1] at hno
    cases hno
  | inner _ hgrown _ => exact hnew _ hgrown.uppers not_mem_nil
  | second e he hsame hfit hgrown _ =>
    refine hnew _ hgrown.uppers ?_
    rw [dropLast_cons_of_ne_nil hq₀, mem_singleton, cons.injEq]
    rintro ⟨rfl, rfl⟩
    -- The levels in the way fit the row itself, so it went below them.
    rw [any_eq_false] at hfit
    refine hfit _ hu ?_
    rw [fits, Bool.and_eq_true]
    have hfits' := fits_append_right hfits.2 [q.getLast hq₀]
    rw [dropLast_append_getLast] at hfits'
    exact ⟨levelSame_trans hfits.1 hsame, hfits'⟩

section

variable (hlen : ∀ p ∈ rows, p.length = n + 2) (hpair : rows.Pairwise KeptApart)
include hlen hpair

/-- Of two of the rows kept apart, in any order, those taken for each other are the same. -/
theorem eq_of_fits : ∀ p ∈ rows, ∀ p' ∈ rows,
      fits p.dropLast p'.dropLast = true → p.dropLast = p'.dropLast := by
  have hpairs : rows.Pairwise fun p p' =>
      fits p.dropLast p'.dropLast = true → p.dropLast = p'.dropLast := by
    refine hpair.imp_of_mem ?_
    intro p p' hp hp' hapart hfits
    rw [fits_dropLast (by simp [hlen p hp, hlen p' hp'])] at hfits
    exact hapart.2.1 hfits
  refine List.Pairwise.forall_of_forall_of_flip (fun _ _ _ => rfl) hpairs ?_
  refine hpairs.imp_of_mem ?_
  intro p p' hp hp' heq hfits
  exact (heq (fits_symm (by simp [hlen p hp, hlen p' hp']) hfits)).symm

theorem eq_of_levelSame :
    ∀ p ∈ rows, ∀ p' ∈ rows, ∀ e ∈ p.dropLast.head?, ∀ e' ∈ p'.dropLast.head?,
      levelSame e e' = true → e = e' := by
  have hhead : ∀ p ∈ rows, p.dropLast.head? = p.head? := by
    intro p hp
    match p, hlen p hp with
    | [_], h => cases h
    | _ :: _ :: _, _ => rfl
  have hpairs : rows.Pairwise fun p p' => ∀ e ∈ p.dropLast.head?, ∀ e' ∈ p'.dropLast.head?,
      levelSame e e' = true → e = e' := by
    refine hpair.imp_of_mem ?_
    intro p p' hp hp' hapart e he e' he' hsame
    rw [hhead p' hp'] at he'
    exact hapart.2.2 e he e' he' hsame
  refine List.Pairwise.forall_of_forall_of_flip ?_ hpairs ?_
  · intro p _ e he e' he' _
    exact Option.some.inj (he.symm.trans he')
  · refine hpairs.imp ?_
    intro p p' h e' he' e he hsame
    exact (h e he e' he' (levelSame_symm hsame)).symm

end

/-- The levels in the way of a row that is not kept apart. -/
theorem Faithful.blocked (h : Faithful n arr rows) (hq : q.length = n + 1)
    (hlen : ∀ p ∈ rows, p.length = n + 2) (hpair : rows.Pairwise KeptApart) (hp : p ∈ rows)
    (hbad : ¬KeptApart p (r :: q)) :
    (uppers (n + 1) arr).any (overruns · (r :: q)) = true ∨
      BlockedUpper n arr (r :: q).dropLast ∨ BlockedRoot n arr r := by
  by_cases hover : overruns p.dropLast (r :: q) = false
  · by_cases hfit : fits p.dropLast (r :: q) = true ∧ p.dropLast ≠ (r :: q).dropLast
    · obtain ⟨hfit, hne⟩ := hfit
      refine .inr (.inl ⟨h.shaped, h.apart, ⟨p.dropLast, ?_, ?_⟩, ?_⟩)
      · exact (h.mem_uppers _).mpr ⟨p, hp, rfl⟩
      · rwa [fits_dropLast (by simp [hlen p hp, hq])]
      · intro hmem
        obtain ⟨p', hp', hdrop⟩ := (h.mem_uppers _).mp hmem
        refine hne ((eq_of_fits hlen hpair p hp p' hp' ?_).trans hdrop)
        rwa [hdrop, fits_dropLast (by simp [hlen p hp, hq])]
    · have hroot : ∃ e ∈ p.dropLast.head?, levelSame e r = true ∧ e ≠ r := by
        by_contra hno
        push Not at hno hfit
        refine hbad ⟨hover, hfit, ?_⟩
        intro e he r' hr' hsame
        cases hr'
        exact hno e he hsame
      obtain ⟨e, he, hsame, hne⟩ := hroot
      have hmem : e ∈ arr.map levelOf := (h.mem_roots e).mpr ⟨p, hp, he⟩
      refine .inr (.inr ⟨h.shaped, h.apart, ⟨e, hmem, hsame⟩, ?_⟩)
      intro hr
      obtain ⟨p', hp', hhead⟩ := (h.mem_roots r).mp hr
      exact hne (eq_of_levelSame hlen hpair p hp p' hp' e he r hhead hsame)
  · rw [Bool.not_eq_false] at hover
    exact .inl (any_eq_true.mpr ⟨p.dropLast, (h.mem_uppers _).mpr ⟨p, hp, rfl⟩, hover⟩)

/-! ### One row of the query -/

variable (nulls : Bool) {row more : Row N}

theorem tsqlAutoRowToJson_columns (arr : List (Object N))
    {cs : List (Cell N)} (hne : ∀ c ∈ cs :: more, c ≠ [])
    (hconv : ∀ cs' ∈ cs :: more, ∀ c ∈ cs', c.Converts nulls) :
    tsqlAutoRowToJson nulls arr (columns (cs :: more)) =
      checkForDuplicateRows more.length 1 arr
        (rowObject (shown nulls cs) (more.map (aliased nulls))) 1 >>=
          fun x => .ok x.1 := by
  have hrow := tsqlAutoRow_columns nulls cs more (fun c hc => hne c (mem_cons_of_mem _ hc)) hconv
  have hdepth := maxDepth_columns hne (cons_ne_nil _ _)
  rw [tsqlAutoRowToJson, hrow, ok_bind, hdepth]
  rfl

theorem levels_aliased : (more.map (aliased nulls)).map Prod.snd = assignment nulls more := by
  rw [map_map]
  rfl

/-- The row has `n + 2` levels, with columns in each whose values can be converted. -/
def RowOf (n : Nat) (row : Row N) : Prop :=
  row.length = n + 2 ∧ (∀ cs ∈ row, cs ≠ []) ∧ ∀ cs ∈ row, ∀ c ∈ cs, c.Converts nulls

/-- **One row of the query**: it is put where `Inserted` says, unless a scalar of it is read as an
array. -/
theorem tsqlAutoRowToJson_inserts (hrow : RowOf nulls n row)
    (hshape : ∀ o ∈ arr, Shaped (n + 1) o) (hapart : Apart (arr.map levelOf)) :
    ∃ r q, assignment nulls row = r :: q ∧ q.length = n + 1 ∧
      if (uppers (n + 1) arr).any (overruns · (r :: q)) then
        ∀ x, tsqlAutoRowToJson nulls arr (columns row) ≠ .ok x
      else ∃ arr', tsqlAutoRowToJson nulls arr (columns row) = .ok arr' ∧
        Inserted (n + 1) r q arr arr' := by
  obtain ⟨hlen, hne, hconv⟩ := hrow
  obtain ⟨cs, more, rfl⟩ := exists_cons_of_length_eq_add_one hlen
  have hmore : more.length = n + 1 := by simpa using hlen
  refine ⟨shown nulls cs, assignment nulls more, rfl, by simpa [assignment] using hmore, ?_⟩
  have hspec := checkForDuplicateRows_inserts (r := shown nulls cs)
    (show (more.map (aliased nulls)).length = n + 1 by simpa using hmore)
    hshape hapart
  rw [Inserts, levels, levels_aliased] at hspec
  rw [tsqlAutoRowToJson_columns nulls arr hne hconv, hmore]
  refine ite_bind_ne_ok hspec ?_
  rintro ⟨arr', m, hres, hins⟩
  exact ⟨arr', by rw [hres, ok_bind], hins⟩

/-! ### All rows of the query -/

variable (includeNullValues : Bool) in
/-- The rows of a query, from an array that some rows have made. -/
def runFrom (arr : List (Object N)) (rows : List (Row N)) :
    Except Fault (List (Object N)) :=
  rows.foldlM (fun arr r => tsqlAutoRowToJson includeNullValues arr (columns r)) arr

theorem runFrom_cons (rows : List (Row N)) :
    runFrom nulls arr (row :: rows) =
      tsqlAutoRowToJson nulls arr (columns row) >>= fun arr' =>
        runFrom nulls arr' rows :=
  foldlM_cons

section

variable {rows : List (Row N)} (hrows : ∀ row ∈ rows, RowOf nulls n row)
  {before : List (List (Level N))}
include hrows

theorem runFrom_faithful (h : Faithful n arr before)
    (hpair : (before ++ rows.map (assignment nulls)).Pairwise KeptApart) :
    ∃ arr', runFrom nulls arr rows = .ok arr' ∧
      Faithful n arr' (before ++ rows.map (assignment nulls)) := by
  induction rows generalizing arr before with
  | nil => exact ⟨arr, rfl, by simpa using h⟩
  | cons row rows ih =>
    obtain ⟨hfirst, hrows⟩ := forall_mem_cons.mp hrows
    obtain ⟨r, q, hrow, hq, hspec⟩ := tsqlAutoRowToJson_inserts nulls hfirst h.shaped
      h.apart
    rw [map_cons, hrow] at hpair ⊢
    have hapart : ∀ p ∈ before, KeptApart p (r :: q) := fun p hp =>
      (pairwise_append.mp hpair).2.2 p hp _ mem_cons_self
    rw [h.not_overruns hapart] at hspec
    obtain ⟨arr', hres, hins⟩ := hspec
    rw [runFrom_cons, hres, ok_bind]
    have hstep := h.insert hq hapart hins
    rw [append_cons] at hpair ⊢
    exact ih hrows hstep hpair

theorem runFrom_invariant {P : List (Object N) → Prop}
    (hshape : ∀ arr, P arr → (∀ o ∈ arr, Shaped (n + 1) o) ∧ Apart (arr.map levelOf))
    (hstep : ∀ arr arr' r q, P arr → q.length = n + 1 → Inserted (n + 1) r q arr arr' → P arr')
    (h : P arr) (hrun : runFrom nulls arr rows = .ok arr') : P arr' := by
  induction rows generalizing arr with
  | nil =>
    cases hrun
    exact h
  | cons row rows ih =>
    obtain ⟨hfirst, hrows⟩ := forall_mem_cons.mp hrows
    obtain ⟨hsh, hap⟩ := hshape arr h
    obtain ⟨r, q, hrow, hq, hspec⟩ := tsqlAutoRowToJson_inserts nulls hfirst hsh hap
    rw [runFrom_cons] at hrun
    obtain ⟨arr₁, hres, hrun⟩ := bind_eq_ok.mp hrun
    split_ifs at hspec
    · exact absurd hres (hspec arr₁)
    · obtain ⟨arr₂, hres₂, hins⟩ := hspec
      rw [hres] at hres₂
      cases hres₂
      exact ih hrows (hstep _ _ _ _ h hq hins) hrun

/-- **A row that is not kept apart** is not shown in the end. -/
theorem runFrom_loses (h : Faithful n arr before) (hbefore : ∀ p ∈ before, p.length = n + 2)
    (hpair : before.Pairwise KeptApart)
    (hbad : ¬(before ++ rows.map (assignment nulls)).Pairwise KeptApart)
    (hrun : runFrom nulls arr rows = .ok arr') :
    ∃ q ∈ rows.map (assignment nulls), q ∉ readRows (n + 1) arr' := by
  induction rows generalizing arr before with
  | nil => exact absurd (by simpa using hpair) hbad
  | cons row rows ih =>
    obtain ⟨hfirst, hmore⟩ := forall_mem_cons.mp hrows
    obtain ⟨r, q, hrow, hq, hspec⟩ := tsqlAutoRowToJson_inserts nulls hfirst h.shaped
      h.apart
    by_cases hapart : ∀ p ∈ before, KeptApart p (r :: q)
    · rw [h.not_overruns hapart] at hspec
      obtain ⟨arr₁, hres, hins⟩ := hspec
      rw [runFrom_cons, hres, ok_bind] at hrun
      have hpair' : (before ++ [r :: q]).Pairwise KeptApart := by
        refine pairwise_append.mpr ⟨hpair, pairwise_singleton _ _, ?_⟩
        intro p hp p' hp'
        rw [mem_singleton.mp hp']
        exact hapart p hp
      have hbefore' : ∀ p ∈ before ++ [r :: q], p.length = n + 2 :=
        forall_mem_append.mpr ⟨hbefore, forall_mem_singleton.mpr (congrArg (· + 1) hq)⟩
      rw [map_cons, hrow, append_cons] at hbad
      obtain ⟨p, hp, hnot⟩ := ih hmore (h.insert hq hapart hins) hbefore' hpair' hbad hrun
      exact ⟨p, mem_cons_of_mem _ hp, hnot⟩
    · push Not at hapart
      obtain ⟨p, hp, hbadp⟩ := hapart
      have hmem : r :: q ∈ (row :: rows).map (assignment nulls) := by
        rw [map_cons, hrow]
        exact mem_cons_self
      refine ⟨r :: q, hmem, ?_⟩
      have hq₀ : q ≠ [] := by
        rintro rfl
        cases hq
      rcases h.blocked hq hbefore hpair hp hbadp with hover | hblock | hblock
      · rw [if_pos hover] at hspec
        obtain ⟨arr₁, hres, -⟩ := bind_eq_ok.mp hrun
        exact absurd hres (hspec arr₁)
      · have hend := runFrom_invariant nulls hrows
          (P := fun arr => BlockedUpper n arr (r :: q).dropLast)
          (fun _ h => ⟨h.shaped, h.apart⟩)
          (fun _ _ _ _ h hq' hins => h.insert (by simp [hq]) hq' hins) hblock hrun
        intro hread
        exact hend.absent ((mem_uppers_succ hend.shaped _).mpr ⟨_, hread, rfl⟩)
      · have hend := runFrom_invariant nulls hrows (P := fun arr => BlockedRoot n arr r)
          (fun _ h => ⟨h.shaped, h.apart⟩) (fun _ _ _ _ h _ hins => h.insert hins) hblock hrun
        intro hread
        refine hend.absent ((mem_roots hend.shaped r).mpr ⟨q.dropLast, ?_⟩)
        exact (mem_uppers_succ hend.shaped _).mpr
          ⟨_, hread, dropLast_cons_of_ne_nil hq₀⟩

end

/-! ### Rows of one level, and rows with all columns -/

theorem runFrom_one (rows : List (Row N)) (arr : List (Object N))
    (hlen : ∀ row ∈ rows, row.length = 1) (hne : ∀ row ∈ rows, ∀ c ∈ row, c ≠ [])
    (hconv : ∀ row ∈ rows, ∀ cs ∈ row, ∀ c ∈ cs, c.Converts nulls) :
    ∃ arr', runFrom nulls arr rows = .ok arr' ∧
      readRows 0 arr' = readRows 0 arr ++ rows.map (assignment nulls) := by
  induction rows generalizing arr with
  | nil => exact ⟨arr, rfl, by simp⟩
  | cons row rows ih =>
    obtain ⟨hone, hlens⟩ := forall_mem_cons.mp hlen
    obtain ⟨hcs, hnes⟩ := forall_mem_cons.mp hne
    obtain ⟨hcells, hconvs⟩ := forall_mem_cons.mp hconv
    obtain ⟨cs, rfl⟩ := length_eq_one_iff.mp hone
    have hres := tsqlAutoRowToJson_columns nulls arr hcs hcells
    obtain ⟨arr', hrun, hread⟩ := ih (arr ++ [obj (shown nulls cs)]) hlens hnes hconvs
    refine ⟨arr', ?_, ?_⟩
    · rwa [runFrom_cons, hres]
    · rw [hread]
      simp [readRows, assignment]

theorem keptApart_of_length_one (hp : p.length = 1) (hq : q.length = 1) : KeptApart p q := by
  obtain ⟨e, rfl⟩ := length_eq_one_iff.mp hp
  obtain ⟨r, rfl⟩ := length_eq_one_iff.mp hq
  exact ⟨rfl, fun _ => rfl, fun e he => by cases he⟩

theorem eq_of_levelSame_of_keys {e : Level N} (hkeys : e.map Prod.fst = r.map Prod.fst)
    (h : levelSame e r = true) : e = r := by
  have hvalues := (levelSame_iff.mp h).1
  unfold values at hvalues
  rw [← zip_unzip e, ← zip_unzip r, unzip_eq_map, unzip_eq_map]
  rw [hkeys, hvalues]

theorem kept_of_keys (hkeys : c.map (·.map Prod.fst) <+: q.map (·.map Prod.fst)) :
    overruns c q = false ∧ (fits c q = true → c <+: q) := by
  induction c generalizing q with
  | nil => exact ⟨rfl, fun _ => nil_prefix⟩
  | cons e c ih =>
    cases q with
    | nil => simp at hkeys
    | cons r q =>
      rw [map_cons, map_cons, cons_prefix_cons] at hkeys
      obtain ⟨hkey, hkeys⟩ := hkeys
      have hlen : e.length = r.length := by
        simpa using congrArg length hkey
      obtain ⟨hover, hfit⟩ := ih hkeys
      refine ⟨by simp [overruns, hlen, hover], ?_⟩
      intro h
      rw [fits, Bool.and_eq_true] at h
      rw [eq_of_levelSame_of_keys hkey h.1]
      exact cons_prefix_cons.mpr ⟨rfl, hfit h.2⟩

theorem keptApart_of_keys (hkeys : p.map (·.map Prod.fst) = q.map (·.map Prod.fst)) :
    KeptApart p q := by
  have hlen : p.length = q.length := by
    simpa using congrArg length hkeys
  have hpre : p.dropLast.map (·.map Prod.fst) <+: q.map (·.map Prod.fst) := by
    rw [← hkeys]
    exact (List.dropLast_prefix p).map _
  obtain ⟨hover, hfit⟩ := kept_of_keys hpre
  refine ⟨hover, ?_, ?_⟩
  · intro h
    rw [dropLast_eq_take (l := q), ← hlen, prefix_iff_eq_take.mp (hfit h)]
    simp
  · intro e he r hr hsame
    obtain ⟨c, hc⟩ := head?_eq_some_iff.mp he
    obtain ⟨q', rfl⟩ := head?_eq_some_iff.mp hr
    rw [hc, map_cons, map_cons, cons_prefix_cons] at hpre
    exact eq_of_levelSame_of_keys hpre.1 hsame

theorem keys_assignment :
    (assignment true row).map (·.map Prod.fst) = (names row).map (·.map fun n => n.2.1) := by
  have hshown : ∀ cs : List (Cell N), shown true cs = cs.map fun c => (c.colname, c.value) := by
    intro cs
    rw [← filterMap_eq_map]
    apply filterMap_congr
    intro c _
    simp [nestedVal]
  unfold assignment names
  simp only [map_map]
  apply map_congr_left
  intro cs _
  simp [hshown]

/-- A NULL of a `money` type ends the query. -/
theorem tsqlAutoRowsToJson_ne_ok {rows : List (Row N)} {cs : List (Cell N)} {c : Cell N}
    (hrow : row ∈ rows) (hcs : cs ∈ row) (hc : c ∈ cs) (hconv : ¬c.Converts nulls)
    (arr : List (Object N)) : tsqlAutoRowsToJson nulls rows ≠ .ok arr :=
  foldlM_ne_ok hrow (fun _ => bind_ne_ok (tsqlAutoRow_ne_ok c nulls hcs hc hconv)) _ _

/-- Columns `a` and `b` of a table `t`, the second one of type `money`, and below them a column `x`
of a table `u`. -/
def exampleNames : List (List (Key × Key × Bool)) :=
  [[([116], [97], false), ([116], [98], true)], [([117], [120], false)]]

def exampleRow (a b x : Scalar Int) : Row Int :=
  [[⟨[116], [97], false, a⟩, ⟨[116], [98], true, b⟩], [⟨[117], [120], false, x⟩]]

end Babelfish.Tsql.ForJsonAuto
