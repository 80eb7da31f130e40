import Babelfish.Tsql.ForJsonAuto

/-!
# Where `checkForDuplicateRows` puts a row

The pairs of an object and of a row are compared by position, and only their values.  So a level of
a row is taken for the level of an object when the values of the object are the first ones of the
row (`levelMatches`); when the row then has more pairs than the object (`overruns`), one of its
scalars is read as an array.

`uppers` are the levels above each innermost array.  The row is put behind the innermost objects of
every array whose levels are taken for its own (`fits`).  If there is none, it is put into the
second array of the object that is taken for its first level, or it becomes a new object.

* `checkForDuplicateRows_deep`: below the second array.
* `checkForDuplicateRows_second`: in the second array.
* `checkForDuplicateRows_inserts`: in the array of all rows.
-/

namespace Babelfish.Tsql.ForJsonAuto

open Lib List

variable {N : Type} {e r : Level N}

/-! ### Levels taken for the same -/

variable (ps : Level N) {es : List (Object N)} {row : Object N} {m n : Nat}
  {arr : List (Object N)} {a : Key} {o : Object N}

def values : List (Scalar N) :=
  ps.map Prod.snd

/-- There is a last value and it is not NULL. -/
def solid : Bool :=
  match (values ps).getLast? with
  | none | some .null => false
  | some _ => true

/-- An object with the pairs `e` is taken for a row that begins with the pairs `r`. -/
def levelMatches [DecidableEq N] (e r : Level N) : Bool :=
  decide (values e <+: values r) && solid e

/-- The same, and the row has no further pairs. -/
def levelSame [DecidableEq N] (e r : Level N) : Bool :=
  levelMatches e r && e.length == r.length

theorem solid_cons_cons (p q : Key × Scalar N) (ps : Level N) :
    solid (p :: q :: ps) = solid (q :: ps) := by
  simp [solid, values, getLast?_cons_cons]

section
variable [DecidableEq N]

theorem levelSame_iff : levelSame e r = true ↔ values e = values r ∧ solid e = true := by
  unfold levelSame levelMatches
  constructor
  · intro h
    simp only [Bool.and_eq_true, decide_eq_true_eq, beq_iff_eq] at h
    obtain ⟨⟨hpre, hsolid⟩, hlen⟩ := h
    exact ⟨hpre.eq_of_length (by simpa [values] using hlen), hsolid⟩
  · rintro ⟨hvalues, hsolid⟩
    have hlen := congrArg length hvalues
    simp only [values, length_map] at hlen
    simp [hvalues, hsolid, hlen]

theorem levelSame_matches (h : levelSame e r = true) :
    levelMatches e r = true ∧ e.length = r.length := by
  simpa [levelSame] using h

theorem levelSame_symm (h : levelSame e r = true) : levelSame r e = true := by
  obtain ⟨hvalues, hsolid⟩ := levelSame_iff.mp h
  refine levelSame_iff.mpr ⟨hvalues.symm, ?_⟩
  unfold solid at hsolid ⊢
  rwa [← hvalues]

theorem levelSame_trans {f : Level N} (h : levelSame e f = true) (h' : levelSame f r = true) :
    levelSame e r = true := by
  obtain ⟨hvalues, hsolid⟩ := levelSame_iff.mp h
  exact levelSame_iff.mpr ⟨hvalues.trans (levelSame_iff.mp h').1, hsolid⟩

theorem levelSame_self (h : levelSame e r = true) : levelSame e e = true :=
  levelSame_trans h (levelSame_symm h)

@[simp] theorem sameElem_scalar (v w : Scalar N) :
    sameElem (.scalar v) (.scalar w) = decide (v = w) := by
  cases v <;> cases w <;> simp [sameElem, Bool.beq_eq_decide_eq]

@[simp] theorem sameElem_array (v : Scalar N) : sameElem (.scalar v) (.array es) = false := by
  cases v <;> rfl

theorem goesDown_obj : goesDown (obj e) (objWith r a es) = levelMatches e r := by
  induction e generalizing r with
  | nil => simp [goesDown, obj, levelMatches, solid, values]
  | cons p e ih =>
    obtain ⟨k, v⟩ := p
    cases r with
    | nil =>
      cases e <;> simp [goesDown, obj, objWith, levelMatches, values]
    | cons q r =>
      cases e with
      | nil =>
        cases v <;> simp [goesDown, obj, objWith, levelMatches, values, solid, isNull]
      | cons p' e =>
        have hrec := ih (r := r)
        simp only [obj, objWith, map_cons, cons_append] at hrec ⊢
        rw [goesDown, hrec]
        simp only [levelMatches, solid_cons_cons, sameElem_scalar]
        simp only [values, map_cons, cons_prefix_cons, Bool.decide_and, Bool.and_assoc]

/-- **One object of the array**, on the levels. -/
theorem visit_objWith
    (inner : List (Object N) → Object N → Nat → Except Fault (List (Object N) × Nat)) {b : Key} :
    visit inner (objWith r b [row]) (objWith e a es) m =
      if levelMatches e r then
        if e.length = r.length then
          inner es row (if m = 1 then 2 else m) >>= fun x => .ok (objWith e a x.1, x.2)
        else .error .undefined
      else .ok (objWith e a es, m) := by
  have hdrop : (objWith e a es).dropLast = obj e := by simp [objWith]
  have hlast : (objWith e a es).getLast? = some (a, .array es) := by simp [objWith]
  have hlen : (objWith e a es).length - 1 = e.length := by simp [objWith, obj]
  rw [visit, hdrop, goesDown_obj, hlast, hlen]
  by_cases hmatch : levelMatches e r = true
  · rw [if_pos hmatch, if_pos hmatch]
    have hle : e.length ≤ r.length := by
      simp only [levelMatches, Bool.and_eq_true, decide_eq_true_eq] at hmatch
      simpa [values] using hmatch.1.length_le
    by_cases heq : e.length = r.length
    · have hrow : (objWith r b [row])[e.length]? = some (b, .array [row]) := by
        simp [objWith, obj, heq]
      rw [if_pos heq, hrow]
      rfl
    · have hlt : e.length < r.length := by omega
      have hrow : (objWith r b [row])[e.length]? =
          some (r[e.length].1, .scalar r[e.length].2) := by
        rw [objWith, getElem?_append_left (by simpa [obj] using hlt)]
        simp [obj, hlt]
      rw [if_neg heq, hrow]
  · rw [if_neg hmatch, if_neg hmatch]

end

/-! ### Trees of objects -/

@[simp] theorem levelOf_obj : levelOf (obj ps) = ps := by
  simp [levelOf, obj, filterMap_map]

@[simp] theorem levelOf_objWith (a : Key) (es : List (Object N)) :
    levelOf (objWith ps a es) = ps := by
  have h := levelOf_obj ps
  unfold levelOf at h ⊢
  rw [objWith, filterMap_append, h]
  simp

@[simp] theorem elemsOf_objWith : elemsOf (objWith ps a es) = es := by
  simp [elemsOf, objWith]

/-- Objects with `n` arrays inside one another, none of them empty. -/
def Shaped : Nat → Object N → Prop
  | 0, o => ∃ ps, o = obj ps
  | n + 1, o => ∃ ps a es, o = objWith ps a es ∧ es ≠ [] ∧ ∀ o' ∈ es, Shaped n o'

def uppers : Nat → List (Object N) → List (List (Level N))
  | 0, _ => [[]]
  | n + 1, arr => arr.flatMap fun o => (uppers n (elemsOf o)).map (levelOf o :: ·)

@[simp] theorem uppers_cons :
    uppers (n + 1) (o :: arr) =
      (uppers n (elemsOf o)).map (levelOf o :: ·) ++ uppers (n + 1) arr := rfl

@[simp] theorem uppers_nil : uppers (n + 1) ([] : List (Object N)) = [] := rfl

@[simp] theorem readRows_cons :
    readRows (n + 1) (o :: arr) =
      (readRows n (elemsOf o)).map (levelOf o :: ·) ++ readRows (n + 1) arr := rfl

@[simp] theorem readRows_nil : readRows (n + 1) ([] : List (Object N)) = [] := rfl

def levels (r : Level N) (rest : List (Key × Level N)) : List (Level N) :=
  r :: rest.map Prod.snd

section

variable (r : Level N) (rest : List (Key × Level N))

theorem readRows_rowObject : readRows rest.length [rowObject r rest] = [levels r rest] := by
  induction rest generalizing r with
  | nil => simp [readRows, rowObject, levels]
  | cons p rest ih =>
    simp [rowObject, ih, levels]

theorem uppers_rowObject : uppers rest.length [rowObject r rest] = [(levels r rest).dropLast] := by
  induction rest generalizing r with
  | nil => rfl
  | cons p rest ih =>
    simp [rowObject, ih, levels, dropLast_cons_of_ne_nil]

theorem shaped_rowObject : Shaped rest.length (rowObject r rest) := by
  induction rest generalizing r with
  | nil => exact ⟨r, rfl⟩
  | cons p rest ih =>
    obtain ⟨a, qs⟩ := p
    exact ⟨r, a, [rowObject qs rest], rfl, by simp, forall_mem_singleton.mpr (ih qs)⟩

theorem levelOf_rowObject : levelOf (rowObject r rest) = r := by
  cases rest with
  | nil => exact levelOf_obj r
  | cons p rest => exact levelOf_objWith r p.1 _

end

variable {n : Nat} {rest : List (Key × Level N)}

theorem rowObject_of_length (hlen : rest.length = n + 1) :
    ∃ b s more, more.length = n ∧ rowObject r rest = objWith r b [rowObject s more] ∧
      levels r rest = r :: levels s more := by
  cases rest with
  | nil => cases hlen
  | cons p more =>
    obtain ⟨b, s⟩ := p
    exact ⟨b, s, more, by simpa using hlen, rfl, rfl⟩

section

variable (n) (arr : List (Object N)) (hne : arr ≠ []) (hshape : ∀ o ∈ arr, Shaped n o)
include hne hshape

theorem uppers_ne_nil : uppers n arr ≠ [] := by
  induction n generalizing arr with
  | zero => simp [uppers]
  | succ n ih =>
    cases arr with
    | nil => exact absurd rfl hne
    | cons o arr =>
      obtain ⟨ps, a, es, rfl, hes, hall⟩ := hshape o mem_cons_self
      have hup := ih es hes hall
      simp [hup]

/-- **The innermost arrays are not empty**: their levels are those of the rows but the last. -/
theorem mem_uppers (u : List (Level N)) :
    u ∈ uppers n arr ↔ ∃ p ∈ readRows n arr, p.dropLast = u := by
  induction n generalizing arr u with
  | zero =>
    obtain ⟨o, arr, rfl⟩ := exists_cons_of_ne_nil hne
    simp only [uppers, mem_singleton, readRows, mem_map]
    constructor
    · rintro rfl
      exact ⟨[levelOf o], ⟨o, mem_cons_self, rfl⟩, rfl⟩
    · rintro ⟨_, ⟨o', -, rfl⟩, rfl⟩
      rfl
  | succ n ih =>
    have hpath : ∀ m (arr : List (Object N)), ∀ p ∈ readRows m arr, p ≠ [] := by
      intro m arr p hp
      cases m with
      | zero =>
        obtain ⟨o, -, rfl⟩ := mem_map.mp hp
        simp
      | succ m =>
        obtain ⟨o, -, hp⟩ := mem_flatMap.mp hp
        obtain ⟨p', -, rfl⟩ := mem_map.mp hp
        simp
    simp only [uppers, readRows, mem_flatMap, mem_map]
    constructor
    · rintro ⟨o, ho, u', hu', rfl⟩
      obtain ⟨ps, a, es, rfl, hes, hall⟩ := hshape o ho
      rw [elemsOf_objWith] at hu'
      obtain ⟨p, hp, rfl⟩ := (ih es hes hall u').mp hu'
      refine ⟨_, ⟨_, ho, p, by rwa [elemsOf_objWith], rfl⟩, ?_⟩
      rw [dropLast_cons_of_ne_nil (hpath _ _ p hp)]
    · rintro ⟨_, ⟨o, ho, p, hp, rfl⟩, rfl⟩
      obtain ⟨ps, a, es, rfl, hes, hall⟩ := hshape o ho
      rw [elemsOf_objWith] at hp
      refine ⟨_, ho, p.dropLast, ?_, ?_⟩
      · rw [elemsOf_objWith]
        exact (ih es hes hall _).mpr ⟨p, hp, rfl⟩
      · rw [dropLast_cons_of_ne_nil (hpath _ _ p hp)]

end

variable {arr : List (Object N)}
variable {α : Type} {o : Object N} {l l' : List (Object N)} {us vs : List (List (Level N))}
  {o' : Object N}

theorem mem_roots (hshape : ∀ o ∈ arr, Shaped (n + 1) o) (e : Level N) :
    e ∈ arr.map levelOf ↔ ∃ u, e :: u ∈ uppers (n + 1) arr := by
  simp only [uppers, mem_map, mem_flatMap]
  constructor
  · rintro ⟨o, ho, rfl⟩
    obtain ⟨ps, a, es, rfl, hes, hall⟩ := hshape o ho
    obtain ⟨u, hu⟩ := exists_mem_of_ne_nil _ (uppers_ne_nil n es hes hall)
    exact ⟨u, _, ho, u, by rwa [elemsOf_objWith], rfl⟩
  · rintro ⟨u, o, ho, u', -, heq⟩
    exact ⟨o, ho, (cons.inj heq).1⟩

/-! ### Growing -/

/-- The array shows the rows `vs` besides, and has new innermost arrays below the levels `us`. -/
structure Grown (n : Nat) (arr arr' : List (Object N)) (vs us : List (List (Level N))) :
    Prop where
  shaped : ∀ o ∈ arr', Shaped n o
  rows : (readRows n arr').Perm (readRows n arr ++ vs)
  uppers : (uppers n arr').Perm (uppers n arr ++ us)
  ne_nil : arr ≠ [] → arr' ≠ []

theorem Grown.refl (h : ∀ o ∈ arr, Shaped n o) : Grown n arr arr [] [] :=
  ⟨h, by simp, by simp, id⟩

theorem Grown.append (h : ∀ o ∈ arr, Shaped 0 o) (r : Level N) :
    Grown 0 arr (arr ++ [obj r]) [[r]] [] := by
  refine ⟨?_, by simp [readRows], by simp [ForJsonAuto.uppers], by simp⟩
  exact forall_mem_append.mpr ⟨h, forall_mem_singleton.mpr ⟨r, rfl⟩⟩

theorem perm_append_append (a b c d : List α) : (a ++ b ++ (c ++ d)).Perm (a ++ c ++ (b ++ d)) := by
  rw [append_assoc, append_assoc]
  exact (perm_append_comm_assoc b c d).append_left a

theorem Grown.cons {arr' : List (Object N)} {vs' us' : List (List (Level N))}
    (h : Grown (n + 1) [o] [o'] vs us) (h' : Grown (n + 1) arr arr' vs' us') :
    Grown (n + 1) (o :: arr) (o' :: arr') (vs ++ vs') (us ++ us') := by
  refine ⟨?_, ?_, ?_, fun _ => cons_ne_nil _ _⟩
  · exact forall_mem_cons.mpr ⟨forall_mem_singleton.mp h.shaped, h'.shaped⟩
  · have hrows := h.rows
    simp only [readRows_cons, readRows_nil, append_nil] at hrows ⊢
    exact (hrows.append h'.rows).trans (perm_append_append _ _ _ _)
  · have huppers := h.uppers
    simp only [uppers_cons, uppers_nil, append_nil] at huppers ⊢
    exact (huppers.append h'.uppers).trans (perm_append_append _ _ _ _)

theorem Grown.lift {es' : List (Object N)} (h : Grown n es es' vs us) (hes : es ≠ [])
    (e : Level N) (a : Key) :
    Grown (n + 1) [objWith e a es] [objWith e a es'] (vs.map (e :: ·)) (us.map (e :: ·)) := by
  refine ⟨?_, ?_, ?_, fun _ => cons_ne_nil _ _⟩
  · exact forall_mem_singleton.mpr ⟨e, a, es', rfl, h.ne_nil hes, h.shaped⟩
  · have hrows := h.rows.map (e :: ·)
    simpa using hrows
  · have huppers := h.uppers.map (e :: ·)
    simpa using huppers

theorem insertBeforeLast_perm (arr : List (Object N)) (row : Object N) :
    (insertBeforeLast arr row).Perm (arr ++ [row]) := by
  unfold insertBeforeLast
  cases h : arr.getLast? with
  | none =>
    rw [getLast?_eq_none_iff] at h
    subst h
    exact .refl _
  | some o =>
    obtain ⟨hne, hlast⟩ := getLast?_eq_some_iff.mp h
    subst hlast
    rw [dropLast_concat, append_assoc]
    exact (List.Perm.swap o row []).append_left hne

theorem Grown.insert (h : ∀ o ∈ arr, Shaped (n + 1) o) (hlen : rest.length = n + 1) :
    Grown (n + 1) arr (insertBeforeLast arr (rowObject r rest)) [levels r rest]
      [(levels r rest).dropLast] := by
  have hperm := insertBeforeLast_perm arr (rowObject r rest)
  have hrow := shaped_rowObject r rest
  have hread := readRows_rowObject r rest
  have hup := uppers_rowObject r rest
  rw [hlen] at hrow hread hup
  refine ⟨?_, ?_, ?_, ?_⟩
  · have hall := forall_mem_append.mpr ⟨h, forall_mem_singleton.mpr hrow⟩
    exact fun o ho => hall o (hperm.mem_iff.mp ho)
  · rw [← hread]
    exact (hperm.flatMap_right _).trans (.of_eq flatMap_append)
  · rw [← hup]
    exact (hperm.flatMap_right _).trans (.of_eq flatMap_append)
  · intro _ hnil
    rw [hnil] at hperm
    exact absurd hperm.nil_eq (by simp)

theorem Grown.middle (h : Grown (n + 1) [o] [o'] vs us)
    (hl : ∀ x ∈ l, Shaped (n + 1) x) (hl' : ∀ x ∈ l', Shaped (n + 1) x) :
    Grown (n + 1) (l ++ o :: l') (l ++ o' :: l') vs us := by
  induction l with
  | nil => simpa using h.cons (.refl hl')
  | cons x l ih =>
    obtain ⟨hx, hl⟩ := forall_mem_cons.mp hl
    exact (Grown.refl (forall_mem_singleton.mpr hx)).cons (ih hl)

theorem uppers_middle (e : Level N) (a : Key) (es : List (Object N)) {p : List (Level N) → Bool}
    (hl : ∀ u ∈ uppers (n + 1) l, p u = false) (hl' : ∀ u ∈ uppers (n + 1) l', p u = false) :
    (uppers (n + 1) (l ++ objWith e a es :: l')).filter p =
      ((uppers n es).filter fun u => p (e :: u)).map (e :: ·) := by
  have hnone : ∀ k : List (Object N), (∀ u ∈ uppers (n + 1) k, p u = false) →
      (uppers (n + 1) k).filter p = [] := by
    intro k hk
    rw [filter_eq_nil_iff]
    intro u hu
    simp [hk u hu]
  have hsplit : uppers (n + 1) (l ++ objWith e a es :: l') =
      uppers (n + 1) l ++ ((uppers n es).map (e :: ·) ++ uppers (n + 1) l') := by
    rw [uppers, flatMap_append, flatMap_cons, levelOf_objWith, elemsOf_objWith]
    rfl
  rw [hsplit, filter_append, filter_append, hnone l hl, hnone l' hl', filter_map,
    nil_append, append_nil]
  rfl

/-! ### Object by object -/

theorem scan_append (f : Object N → Nat → Except Fault (Object N × Nat)) :
    scan f (l ++ l') m =
      scan f l m >>= fun x => scan f l' x.2 >>= fun y => .ok (x.1 ++ y.1, y.2) := by
  induction l generalizing m with
  | nil =>
    rw [nil_append, scan, ok_bind]
    cases scan f l' m <;> rfl
  | cons o l ih =>
    rw [cons_append, scan, scan]
    cases f o m with
    | error _ => rfl
    | ok x =>
      simp only [ok_bind, ih]
      cases scan f l x.2 with
      | error _ => rfl
      | ok y =>
        show (scan f l' y.2 >>= _) >>= _ = scan f l' y.2 >>= _
        cases scan f l' y.2 <;> rfl

variable {f : Object N → Nat → Except Fault (Object N × Nat)} {maxDepth : Nat} {q : List (Level N)}
  {inner : List (Object N) → Object N → Nat → Except Fault (List (Object N) × Nat)} {p : α → Bool}

theorem scan_keeps (h : ∀ o ∈ arr, f o m = .ok (o, m)) : scan f arr m = .ok (arr, m) := by
  induction arr with
  | nil => rfl
  | cons o arr ih =>
    rw [scan, h o mem_cons_self, ok_bind]
    simp only [ih (forall_mem_cons.mp h).2, ok_bind]
    rfl

theorem scan_fails (ho : o ∈ arr) (h : ∀ m x, f o m ≠ .ok x) : ∀ m x, scan f arr m ≠ .ok x := by
  induction arr with
  | nil => exact absurd ho not_mem_nil
  | cons o' arr ih =>
    intro m x hx
    obtain ⟨y, hy, hx⟩ := bind_eq_ok.mp hx
    obtain ⟨z, hz, -⟩ := bind_eq_ok.mp hx
    rcases mem_cons.mp ho with rfl | ho
    · exact h m y hy
    · exact ih ho _ _ hz

/-! ### Below the second array -/

theorem any_const (l : List α) (b : Bool) (h : l ≠ []) : l.any (fun _ => b) = b := by
  cases l with
  | nil => exact absurd rfl h
  | cons x l => cases b <;> simp

theorem any_eq_false_of {l : List α} (h : ∀ x ∈ l, p x = false) : l.any p = false := by
  rw [any_eq_false]
  intro x hx
  simp [h x hx]

theorem any_eq_of_filter {β : Type} {l : List α} {k : List β} {q : β → Bool}
    {f : β → α} (h : l.filter p = (k.filter q).map f) : l.any p = k.any q := by
  have hne : ∀ {γ : Type} (l : List γ) (p : γ → Bool), l.any p = true ↔ l.filter p ≠ [] := by
    intro γ l p
    simp [filter_eq_nil_iff]
  rw [Bool.eq_iff_iff, hne, hne, h]
  simp

/-- The levels above an innermost array are taken for those of the row. -/
def fits [DecidableEq N] : List (Level N) → List (Level N) → Bool
  | [], _ => true
  | _ :: _, [] => false
  | e :: u, r :: q => levelSame e r && fits u q

/-- On the way down to an innermost array, a scalar of the row is read as an array. -/
def overruns [DecidableEq N] : List (Level N) → List (Level N) → Bool
  | [], _ => false
  | _ :: _, [] => false
  | e :: u, r :: q => (levelMatches e r && e.length != r.length) || (levelSame e r && overruns u q)

/-- The row below other levels than its own. -/
def attach (u q : List (Level N)) : List (Level N) :=
  u ++ q.drop u.length

@[simp] theorem attach_cons {u : List (Level N)} : attach (e :: u) (r :: q) = e :: attach u q := by
  simp [attach]

section
variable [DecidableEq N]

/-- The row is put behind the innermost objects of every array that it fits, and nowhere else. -/
def Merges (n : Nat) (q : List (Level N)) (maxDepth : Nat) (arr : List (Object N)) (m : Nat)
    (res : Except Fault (List (Object N) × Nat)) : Prop :=
  if (uppers n arr).any (overruns · q) then ∀ x, res ≠ .ok x
  else ∃ arr', res = .ok (arr', if (uppers n arr).any (fits · q) then maxDepth else m) ∧
    Grown n arr arr' (((uppers n arr).filter (fits · q)).map (attach · q)) []

/-- The same for one object. -/
def MergesOne (n : Nat) (q : List (Level N)) (maxDepth : Nat) (o : Object N) (m : Nat)
    (res : Except Fault (Object N × Nat)) : Prop :=
  if (uppers n [o]).any (overruns · q) then ∀ x, res ≠ .ok x
  else ∃ o', res = .ok (o', if (uppers n [o]).any (fits · q) then maxDepth else m) ∧
    Grown n [o] [o'] (((uppers n [o]).filter (fits · q)).map (attach · q)) []

theorem scan_merges {good : Nat → Prop} (hmax : good maxDepth)
    (hf : ∀ o ∈ arr, ∀ m, good m → MergesOne (n + 1) q maxDepth o m (f o m)) (hm : good m) :
    Merges (n + 1) q maxDepth arr m (scan f arr m) := by
  induction arr generalizing m with
  | nil => exact ⟨[], rfl, .refl fun _ h => absurd h not_mem_nil⟩
  | cons o arr ih =>
    have hone := hf o mem_cons_self m hm
    have hsplit : uppers (n + 1) (o :: arr) = uppers (n + 1) [o] ++ uppers (n + 1) arr := by simp
    unfold MergesOne at hone
    unfold Merges
    rw [hsplit, any_append, any_append, filter_append, map_append, scan]
    by_cases hover : (uppers (n + 1) [o]).any (overruns · q) = true
    · rw [if_pos hover] at hone
      rw [hover, Bool.true_or, if_pos rfl]
      exact bind_ne_ok hone
    · rw [if_neg hover] at hone
      obtain ⟨o', hres, hgrown⟩ := hone
      rw [Bool.not_eq_true] at hover
      rw [hover, Bool.false_or, hres, ok_bind]
      have hgood : good (if (uppers (n + 1) [o]).any (fits · q) then maxDepth else m) := by
        split
        · exact hmax
        · exact hm
      have hrest := ih (forall_mem_cons.mp hf).2 hgood
      unfold Merges at hrest
      refine ite_bind_ne_ok hrest fun ⟨arr', hres', hgrown'⟩ => ?_
      refine ⟨o' :: arr', ?_, hgrown.cons hgrown'⟩
      simp only [hres', ok_bind]
      cases (uppers (n + 1) [o]).any (fits · q) <;>
        cases (uppers (n + 1) arr).any (fits · q) <;> rfl

theorem visit_merges {b : Key} (hm : m ≠ 1)
    (hshape : Shaped (n + 1) (objWith e a es)) (hes : es ≠ []) (hall : ∀ o ∈ es, Shaped n o)
    (hinner : Merges n q maxDepth es m (inner es row m)) :
    MergesOne (n + 1) (r :: q) maxDepth (objWith e a es) m
      (visit inner (objWith r b [row]) (objWith e a es) m) := by
  have hne := uppers_ne_nil n es hes hall
  unfold MergesOne
  rw [visit_objWith, if_neg hm, uppers_cons, uppers_nil, append_nil, levelOf_objWith,
    elemsOf_objWith, any_map, any_map, filter_map, map_map]
  simp only [Function.comp_def, overruns, fits, attach_cons]
  by_cases hmatch : levelMatches e r = true
  · rw [if_pos hmatch]
    by_cases hlen : e.length = r.length
    · have hsame : levelSame e r = true := by simp [levelSame, hmatch, hlen]
      simp only [hsame, hlen, Bool.true_and, bne_self_eq_false, Bool.and_false, Bool.false_or,
        if_true]
      unfold Merges at hinner
      refine ite_bind_ne_ok hinner fun ⟨es', hres, hgrown⟩ => ?_
      refine ⟨objWith e a es', by rw [hres, ok_bind], ?_⟩
      have hlift := hgrown.lift hes e a
      simpa only [map_map, Function.comp_def, map_nil] using hlift
    · have hover : (levelMatches e r && e.length != r.length) = true := by simp [hmatch, hlen]
      simp only [hover, Bool.true_or, any_const _ _ hne, if_true, if_neg hlen]
      intro x hx
      cases hx
  · rw [if_neg hmatch]
    have hsame : levelSame e r = false := by simp [levelSame, hmatch]
    simp only [hmatch, hsame, Bool.false_and, Bool.or_self, any_const _ _ hne]
    refine ⟨objWith e a es, by simp, ?_⟩
    simpa using .refl (forall_mem_singleton.mpr hshape)

theorem scan_visit_merges (r : Level N) (b : Key) (good : Nat → Prop)
    (hmax : good maxDepth) (hgood : ∀ m, good m → m ≠ 1) (hshape : ∀ o ∈ arr, Shaped (n + 1) o)
    (hinner : ∀ es m, (∀ o ∈ es, Shaped n o) → good m → Merges n q maxDepth es m (inner es row m))
    (m : Nat) (hm : good m) :
    Merges (n + 1) (r :: q) maxDepth arr m (scan (visit inner (objWith r b [row])) arr m) := by
  refine scan_merges hmax ?_ hm
  intro o ho m hm
  have hshaped := hshape o ho
  obtain ⟨e, a, es, rfl, hes, hall⟩ := hshape o ho
  exact visit_merges (hgood m hm) hshaped hes hall (hinner es m hall hm)

/-- **Below the second array** the row is only put behind innermost objects. -/
theorem checkForDuplicateRows_deep (n currDepth : Nat) (arr : List (Object N)) (r : Level N)
    (rest : List (Key × Level N)) (m : Nat) (hlen : rest.length = n)
    (hshape : ∀ o ∈ arr, Shaped n o) (hm : m ≠ 1) (hdepth : 1 < currDepth + n)
    (hapart : ∀ c, currDepth ≤ c → c < currDepth + n → m ≠ c) :
    Merges n (levels r rest) (currDepth + n) arr m
      (checkForDuplicateRows n currDepth arr (rowObject r rest) m) := by
  induction n generalizing currDepth arr r rest m with
  | zero =>
    rw [length_eq_zero_iff] at hlen
    subst hlen
    exact ⟨_, rfl, .append hshape r⟩
  | succ n ih =>
    obtain ⟨b, s, more, hmore, hrow, hlevels⟩ := rowObject_of_length hlen
    rw [hrow, hlevels, checkForDuplicateRows]
    have hadd : currDepth + 1 + n = currDepth + (n + 1) := by omega
    have hinner : ∀ (es : List (Object N)) (m : Nat), (∀ o ∈ es, Shaped n o) →
        (m ≠ 1 ∧ ∀ c, currDepth ≤ c → c < currDepth + (n + 1) → m ≠ c) →
        Merges n (levels s more) (currDepth + (n + 1)) es m
          (checkForDuplicateRows n (currDepth + 1) es (rowObject s more) m) := by
      intro es m hes hgood
      have hrec := ih (currDepth + 1) es s more m hmore hes hgood.1 (by omega)
        fun c h₁ h₂ => hgood.2 c (by omega) (by omega)
      rwa [hadd] at hrec
    have hscan := scan_visit_merges r b
      (fun m => m ≠ 1 ∧ ∀ c, currDepth ≤ c → c < currDepth + (n + 1) → m ≠ c)
      ⟨by omega, fun c _ hc => by omega⟩ (fun m hm => hm.1) hshape hinner m ⟨hm, hapart⟩
    unfold Merges at hscan ⊢
    refine ite_bind_ne_ok hscan fun ⟨arr', hres, hgrown⟩ => ?_
    refine ⟨arr', ?_, hgrown⟩
    have hcur : currDepth ≠ if (uppers (n + 1) arr).any (fits · (r :: levels s more))
        then currDepth + (n + 1) else m := by
      split
      · omega
      · exact (hapart currDepth (Nat.le_refl _) (by omega)).symm
    rw [hres, ok_bind]
    simp only [if_neg hcur]
    rfl

/-! ### The second array -/

/-- **In the second array** the row is put behind the innermost objects that it fits; if there are
none, it is a new object of the array. -/
theorem checkForDuplicateRows_second (hlen : rest.length = n) (hshape : ∀ o ∈ arr, Shaped n o) :
    if (uppers n arr).any (overruns · (levels r rest)) then
      ∀ x, checkForDuplicateRows n 2 arr (rowObject r rest) 2 ≠ .ok x
    else ∃ arr' m, checkForDuplicateRows n 2 arr (rowObject r rest) 2 = .ok (arr', m) ∧ m ≠ 1 ∧
      if (uppers n arr).any (fits · (levels r rest)) then
        Grown n arr arr' (((uppers n arr).filter (fits · (levels r rest))).map
          (attach · (levels r rest))) []
      else Grown n arr arr' [levels r rest] [(levels r rest).dropLast] := by
  cases n with
  | zero =>
    have hdeep := checkForDuplicateRows_deep 0 2 arr r rest 2 hlen hshape (by omega) (by omega)
      fun c h₁ h₂ => by omega
    unfold Merges at hdeep
    by_cases hover : (uppers 0 arr).any (overruns · (levels r rest)) = true
    · rwa [if_pos hover] at hdeep ⊢
    · rw [if_neg hover] at hdeep ⊢
      obtain ⟨arr', hres, hgrown⟩ := hdeep
      have hfit : (uppers 0 arr).any (fits · (levels r rest)) = true := rfl
      refine ⟨arr', _, hres, by simp, ?_⟩
      rwa [hfit]
  | succ n =>
    obtain ⟨b, s, more, hmore, hrow, hlevels⟩ := rowObject_of_length hlen
    have hadd : 2 + 1 + n = n + 3 := by omega
    have hinner : ∀ (es : List (Object N)) (m : Nat), (∀ o ∈ es, Shaped n o) →
        (m = 2 ∨ m = n + 3) →
        Merges n (levels s more) (n + 3) es m
          (checkForDuplicateRows n (2 + 1) es (rowObject s more) m) := by
      intro es m hes hgood
      have hrec := checkForDuplicateRows_deep n (2 + 1) es s more m hmore hes (by omega)
        (by omega) fun c h₁ h₂ => by omega
      rwa [hadd] at hrec
    have hscan := scan_visit_merges r b (fun m => m = 2 ∨ m = n + 3) (Or.inr rfl)
      (fun m hm => by omega) hshape hinner 2 (.inl rfl)
    rw [← hlevels, ← hrow] at hscan
    unfold Merges at hscan
    rw [checkForDuplicateRows]
    refine ite_bind_ne_ok hscan fun ⟨arr', hres, hgrown⟩ => ?_
    rw [hres, ok_bind]
    by_cases hfit : (uppers (n + 1) arr).any (fits · (levels r rest)) = true
    · have hcur : ¬2 = n + 3 := by omega
      simp only [hfit, if_true, if_neg hcur]
      exact ⟨arr', n + 3, rfl, by omega, hgrown⟩
    · simp only [if_neg hfit, if_true]
      refine ⟨insertBeforeLast arr' (rowObject r rest), 2, rfl, by omega, ?_⟩
      have hnone : (uppers (n + 1) arr).filter (fits · (levels r rest)) = [] := by
        rw [filter_eq_nil_iff]
        intro u hu hfits
        exact hfit (any_eq_true.mpr ⟨u, hu, hfits⟩)
      rw [hnone] at hgrown
      have hinsert := Grown.insert hgrown.shaped (r := r) hlen
      refine ⟨hinsert.shaped, ?_, ?_, fun hne => hinsert.ne_nil (hgrown.ne_nil hne)⟩
      · have hrows := hgrown.rows
        rw [map_nil, append_nil] at hrows
        exact hinsert.rows.trans (hrows.append_right _)
      · have huppers := hgrown.uppers
        rw [append_nil] at huppers
        exact hinsert.uppers.trans (huppers.append_right _)

/-! ### The array of all rows -/

/-- Where the row went: it is a new object; it is below levels that are taken for its own; or it is
in the second array of an object that is taken for its first level. -/
inductive Inserted (n : Nat) (r : Level N) (q : List (Level N)) (arr arr' : List (Object N)) :
    Prop where
  | root (hroot : ∀ e ∈ arr.map levelOf, levelSame e r = false)
      (hgrown : Grown n arr arr' [r :: q] [(r :: q).dropLast])
      (hroots : (arr'.map levelOf).Perm (arr.map levelOf ++ [r]))
  | inner (hfit : (uppers n arr).any (fits · (r :: q)) = true)
      (hgrown : Grown n arr arr'
        (((uppers n arr).filter (fits · (r :: q))).map (attach · (r :: q))) [])
      (hroots : arr'.map levelOf = arr.map levelOf)
  | second (e : Level N) (he : e ∈ arr.map levelOf) (hsame : levelSame e r = true)
      (hfit : (uppers n arr).any (fits · (r :: q)) = false)
      (hgrown : Grown n arr arr' [e :: q] [(e :: q).dropLast])
      (hroots : arr'.map levelOf = arr.map levelOf)

/-- The row is put where `Inserted` says, unless a scalar of it is read as an array. -/
def Inserts (n : Nat) (r : Level N) (rest : List (Key × Level N)) (arr : List (Object N)) : Prop :=
  if (uppers n arr).any (overruns · (levels r rest)) then
    ∀ x, checkForDuplicateRows n 1 arr (rowObject r rest) 1 ≠ .ok x
  else ∃ arr' m, checkForDuplicateRows n 1 arr (rowObject r rest) 1 = .ok (arr', m) ∧
    Inserted n r (rest.map Prod.snd) arr arr'

/-- No two objects of the array are taken for each other. -/
def Apart (es : List (Level N)) : Prop :=
  es.Pairwise fun e e' => levelSame e e' = false

section

variable (h : ∀ o ∈ arr, levelMatches (levelOf o) r = false)
include h

/-- What an object that is not taken for the row's first level has below it is not visited. -/
theorem fits_overruns_of_not_matches :
    (∀ u ∈ uppers (n + 1) arr, fits u (r :: q) = false) ∧
      ∀ u ∈ uppers (n + 1) arr, overruns u (r :: q) = false := by
  constructor <;>
  · intro u hu
    obtain ⟨o, ho, hu⟩ := mem_flatMap.mp hu
    obtain ⟨u, -, rfl⟩ := mem_map.mp hu
    simp [fits, overruns, levelSame, h o ho]

variable (hshape : ∀ o ∈ arr, Shaped (n + 1) o)
include hshape

theorem scan_visit_keeps (b : Key) (m : Nat) :
    scan (visit inner (objWith r b [row])) arr m = .ok (arr, m) := by
  apply scan_keeps
  intro o ho
  have hno := h o ho
  obtain ⟨e, a, es, rfl, -, -⟩ := hshape o ho
  rw [levelOf_objWith] at hno
  rw [visit_objWith, hno]
  rfl

theorem checkForDuplicateRows_root (hlen : rest.length = n + 1) :
    checkForDuplicateRows (n + 1) 1 arr (rowObject r rest) 1 =
      .ok (insertBeforeLast arr (rowObject r rest), 1) := by
  obtain ⟨b, s, more, -, hrow, -⟩ := rowObject_of_length hlen
  rw [checkForDuplicateRows, hrow, scan_visit_keeps h hshape, ok_bind]
  rfl

end

theorem overruns_of_matches (hshape : ∀ o ∈ arr, Shaped (n + 1) o) (ho : o ∈ arr)
    (hmatch : levelMatches (levelOf o) r = true) (hlen : (levelOf o).length ≠ r.length) :
    (uppers (n + 1) arr).any (overruns · (r :: q)) = true := by
  obtain ⟨u, hu⟩ := (mem_roots hshape (levelOf o)).mp (mem_map_of_mem ho)
  exact any_eq_true.mpr ⟨_, hu, by simp [overruns, hmatch, hlen]⟩

theorem Apart.unique (hapart : Apart ((l ++ o :: l').map levelOf))
    (hsame : levelSame (levelOf o) r = true) :
    ∀ x, x ∈ l ∨ x ∈ l' → levelSame (levelOf x) r = false := by
  intro x hx
  rw [← Bool.not_eq_true]
  intro hxsame
  rw [Apart, map_append, map_cons, pairwise_append] at hapart
  obtain ⟨-, hright, hcross⟩ := hapart
  rcases hx with hx | hx
  · have h := hcross _ (mem_map_of_mem hx) _ mem_cons_self
    rw [levelSame_trans hxsame (levelSame_symm hsame)] at h
    cases h
  · have h := (pairwise_cons.mp hright).1 _ (mem_map_of_mem hx)
    rw [levelSame_trans hsame (levelSame_symm hxsame)] at h
    cases h

/-- The array of all rows when one object is taken for the row: what is done is done in it. -/
theorem scan_middle (a b : Key) (es : List (Object N)) (row : Object N)
    (hl : ∀ x ∈ l, Shaped (n + 1) x) (hl' : ∀ x ∈ l', Shaped (n + 1) x)
    (hsame : levelSame e r = true)
    (hother : ∀ x, x ∈ l ∨ x ∈ l' → levelMatches (levelOf x) r = false) :
    scan (visit (checkForDuplicateRows n 2) (objWith r b [row])) (l ++ objWith e a es :: l') 1 =
      checkForDuplicateRows n 2 es row 2 >>= fun x =>
        .ok (l ++ objWith e a x.1 :: l', x.2) := by
  obtain ⟨hmatch, hlen⟩ := levelSame_matches hsame
  rw [scan_append, scan_visit_keeps (fun x hx => hother x (.inl hx)) hl, ok_bind, scan]
  simp only [scan_visit_keeps (fun x hx => hother x (.inr hx)) hl']
  rw [visit_objWith, if_pos hmatch, if_pos hlen, if_pos rfl]
  cases checkForDuplicateRows n 2 es row 2 <;> rfl

section

variable (hlen : rest.length = n + 1) (hshape : ∀ o ∈ arr, Shaped (n + 1) o)
  (hapart : Apart (arr.map levelOf))
include hlen hshape hapart

theorem checkForDuplicateRows_below (ho : o ∈ arr) (hsame : levelSame (levelOf o) r = true)
    (hlong : ∀ x ∈ arr, levelMatches (levelOf x) r = true → (levelOf x).length = r.length) :
    Inserts (n + 1) r rest arr := by
  obtain ⟨b, s, more, hmore, hrow, hlevels⟩ := rowObject_of_length (r := r) hlen
  have hrest : rest.map Prod.snd = levels s more := (cons.inj hlevels).2
  obtain ⟨l, l', rfl⟩ := append_of_mem ho
  have hother : ∀ x, x ∈ l ∨ x ∈ l' → levelMatches (levelOf x) r = false := by
    intro x hx
    have hno := hapart.unique hsame x hx
    have hmem : x ∈ l ++ o :: l' := by
      rcases hx with hx | hx <;> simp [hx]
    rw [← Bool.not_eq_true]
    intro hmatch
    simp [levelSame, hmatch, hlong x hmem hmatch] at hno
  obtain ⟨e, a, es, rfl, hes, hall⟩ := hshape o ho
  rw [levelOf_objWith] at hsame
  have hl := fits_overruns_of_not_matches (n := n) (q := levels s more) fun x hx =>
    hother x (.inl hx)
  have hl' := fits_overruns_of_not_matches (n := n) (q := levels s more) fun x hx =>
    hother x (.inr hx)
  have hfilter := uppers_middle e a es hl.1 hl'.1
  have hover := any_eq_of_filter (uppers_middle e a es hl.2 hl'.2)
  have hfit := any_eq_of_filter hfilter
  simp only [fits, overruns, hsame, (levelSame_matches hsame).2, bne_self_eq_false, Bool.and_false,
    Bool.false_or, Bool.true_and] at hfilter hover hfit
  have hshl : ∀ x ∈ l, Shaped (n + 1) x := fun x hx => hshape x (by simp [hx])
  have hshl' : ∀ x ∈ l', Shaped (n + 1) x := fun x hx => hshape x (by simp [hx])
  have hscan := scan_middle a b es (rowObject s more) hshl hshl' hsame hother
  have hsecond := checkForDuplicateRows_second (r := s) hmore hall
  rw [Inserts, hlevels, hover, hrow, checkForDuplicateRows, hscan]
  refine ite_bind_ne_ok (ite_bind_ne_ok hsecond id) fun ⟨es', m, hres, hm, hgrown⟩ => ?_
  refine ⟨l ++ objWith e a es' :: l', m, ?_, ?_⟩
  · rw [hres, ok_bind, ok_bind]
    exact if_neg hm.symm
  · have hroots : (l ++ objWith e a es' :: l').map levelOf =
        (l ++ objWith e a es :: l').map levelOf := by simp
    rw [hrest]
    split_ifs at hgrown with hf
    · refine .inner (hfit.trans hf) ?_ hroots
      have hmid := (hgrown.lift hes e a).middle hshl hshl'
      rw [hfilter]
      simpa only [map_map, Function.comp_def, attach_cons, map_nil] using hmid
    · rw [Bool.not_eq_true] at hf
      refine .second e (by simp) hsame (hfit.trans hf) ?_ hroots
      have hmid := (hgrown.lift hes e a).middle hshl hshl'
      rwa [map_singleton, map_singleton, ← dropLast_cons_of_ne_nil (by simp [levels])] at hmid

/-- **A row and the array of all rows.** -/
theorem checkForDuplicateRows_inserts : Inserts (n + 1) r rest arr := by
  obtain ⟨b, s, more, hmore, hrow, hlevels⟩ := rowObject_of_length hlen
  by_cases hno : ∀ o ∈ arr, levelMatches (levelOf o) r = false
  · obtain ⟨hfits, hovers⟩ := fits_overruns_of_not_matches (n := n) (q := levels s more) hno
    rw [Inserts, hlevels, any_eq_false_of hovers]
    refine ⟨_, _, checkForDuplicateRows_root hno hshape hlen, .root ?_ ?_ ?_⟩
    · exact forall_mem_map.mpr fun o ho => by simp [levelSame, hno o ho]
    · exact .insert hshape hlen
    · have hperm := (insertBeforeLast_perm arr (rowObject r rest)).map levelOf
      rwa [map_append, map_singleton, levelOf_rowObject] at hperm
  · push Not at hno
    obtain ⟨o, ho, hmatch⟩ := hno
    rw [ne_eq, Bool.not_eq_false] at hmatch
    by_cases hlong : ∃ x ∈ arr, levelMatches (levelOf x) r = true ∧ (levelOf x).length ≠ r.length
    · obtain ⟨x, hx, hxmatch, hxlen⟩ := hlong
      rw [Inserts, hlevels, if_pos (overruns_of_matches hshape hx hxmatch hxlen)]
      intro y hy
      obtain ⟨z, hz, -⟩ := bind_eq_ok.mp hy
      refine scan_fails hx ?_ 1 z hz
      intro m w hw
      obtain ⟨e, a, es, rfl, -, -⟩ := hshape x hx
      rw [levelOf_objWith] at hxmatch hxlen
      rw [hrow, visit_objWith, if_pos hxmatch, if_neg hxlen] at hw
      cases hw
    · push Not at hlong
      exact checkForDuplicateRows_below hlen hshape hapart ho (by
        simp [levelSame, hmatch, hlong o ho hmatch]) fun x hx hxmatch => hlong x hx hxmatch

end

end

end Babelfish.Tsql.ForJsonAuto
