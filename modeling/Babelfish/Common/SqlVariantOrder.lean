import Babelfish.Common.SqlVariant
import Babelfish.Lib.ImageHash

/-!
# When the comparison of `sql_variant` is an order

The operators and casts of the base types are assumed to be those of one order for each family,
`Natives.Ordered`.  Every operator then reads off the standing of its two values, which is `none`
for two strings whose collations differ and are not told apart by the table.

* `operators_eq`, `sqlvariantCmp_eq`: the operators and the support function in these terms.
* `standsLE_trans`: transitivity, for values that are compatible.
* `sqlvariantCmp_totalPreorder_iff`: on which sets of values the operator class has what it needs.
* `sqlvariant_hash_iff`: for which pairs the hash agrees with the equality.
-/

namespace Babelfish.Common

open Lib

/-! ### The operators of an order -/

/-- What an operator says of two values that stand so; `none` when they are neither smaller nor
equal nor greater. -/
def Operator.accepts : Operator → Option Ordering → Bool
  | lt, standing => standing = some .lt
  | le, standing => standing = some .lt || standing = some .eq
  | eq, standing => standing = some .eq
  | ge, standing => standing = some .gt || standing = some .eq
  | gt, standing => standing = some .gt
  | ne, standing => standing ≠ some .eq

/-- **The operators and casts of the base types are those of one order for each family**: every
value has a rank, the operators compare the ranks, and the casts that `do_compare` makes, within a
family to the type of the lower code, keep the rank. -/
structure Natives.Ordered {ι : Type} [LinearOrder ι] (n : Natives)
    (rank : TypeCode → List UInt8 → ι) : Prop where
  compareValue : ∀ op t d1 d2,
    n.compareValue op t d1 d2 = op.accepts (some (compare (rank t d1) (rank t d2)))
  directCmp : ∀ op t1 t2 cmp, t1.familyPrio = t2.familyPrio → n.directCmp op t1 t2 = some cmp →
    ∀ d1 d2, cmp d1 d2 = op.accepts (some (compare (rank t1 d1) (rank t2 d2)))
  doCast : ∀ source target d, source.familyPrio = target.familyPrio → target.code < source.code →
    rank target (n.doCast source target d) = rank source d

/-! ### How two values stand -/

variable {ι : Type} [LinearOrder ι] {op : Operator}

/-- Strings of one type with different collations. -/
def Clash (x z : SqlVariant) : Prop :=
  x.typeCode = z.typeCode ∧ x.typeCode.isStringType = true ∧ x.collid ≠ z.collid

instance (x z : SqlVariant) : Decidable (Clash x z) := inferInstanceAs (Decidable (_ ∧ _))

/-- What decides about all other values: the family, `time` before the others, the rank. -/
def sortKey (rank : TypeCode → List UInt8 → ι) (v : SqlVariant) : ℕᵒᵈ ×ₗ ℕ ×ₗ ι :=
  toLex (OrderDual.toDual v.family,
    toLex (if v.typeCode = .time then 0 else 1, rank v.typeCode v.data))

def collationStanding (lcid : Int) (c d : Nat) : Option Ordering :=
  if collationKey lcid c < collationKey lcid d then some .lt
  else if collationKey lcid d < collationKey lcid c then some .gt
  else none

def standing (lcid : Int) (rank : TypeCode → List UInt8 → ι) (x z : SqlVariant) : Option Ordering :=
  if Clash x z then collationStanding lcid x.collid z.collid
  else some (compare (sortKey rank x) (sortKey rank z))

/-! ### Reading the model off the standing -/

theorem strictCmp_oprname (less greater : Bool) (h : (less && greater) = false) :
    strictCmp op.oprname less greater =
      op.accepts (if less then some .lt else if greater then some .gt else none) := by
  revert less greater
  cases op <;> decide

theorem compare_congr {κ : Type} [LinearOrder κ] {a b : ι} {c d : κ} (hlt : a < b ↔ c < d)
    (hgt : b < a ↔ d < c) : compare a b = compare c d := by
  rcases lt_trichotomy a b with h | rfl | h
  · rw [compare_lt_iff_lt.mpr h, compare_lt_iff_lt.mpr (hlt.mp h)]
  · have heq : c = d := le_antisymm (not_lt.mp fun h => lt_irrefl _ (hgt.mpr h))
      (not_lt.mp fun h => lt_irrefl _ (hlt.mpr h))
    rw [compare_eq_iff_eq.mpr rfl, compare_eq_iff_eq.mpr heq]
  · rw [compare_gt_iff_gt.mpr h, compare_gt_iff_gt.mpr (hgt.mp h)]

variable {rank : TypeCode → List UInt8 → ι} {lcid : Int} {n : Natives}

variable {x z : SqlVariant}
variable {S : Set SqlVariant} {y : SqlVariant} {t : TypeCode}

theorem sortKey_lt :
    sortKey rank x < sortKey rank z ↔ z.family < x.family ∨ x.family = z.family ∧
      ((z.typeCode ≠ .time ∧ x.typeCode = .time) ∨
        ((x.typeCode = .time ↔ z.typeCode = .time) ∧
          rank x.typeCode x.data < rank z.typeCode z.data)) := by
  rw [sortKey, sortKey, Prod.Lex.toLex_lt_toLex, Prod.Lex.toLex_lt_toLex,
    OrderDual.toDual_lt_toDual]
  by_cases hx : x.typeCode = .time <;> by_cases hz : z.typeCode = .time <;> simp [hx, hz]

theorem compare_sortKey (hfamily : x.family = z.family)
    (htime : x.typeCode = .time ↔ z.typeCode = .time) :
    compare (sortKey rank x) (sortKey rank z) =
      compare (rank x.typeCode x.data) (rank z.typeCode z.data) := by
  apply compare_congr
  all_goals
    rw [sortKey_lt]
    simp only [hfamily, htime, lt_irrefl, true_and, false_or, iff_self]
    tauto

theorem strictCmp_collation (c d : Nat) :
    strictCmp op.oprname (cmpCollation lcid c d < 0) (cmpCollation lcid c d > 0) =
      op.accepts (collationStanding lcid c d) := by
  obtain ⟨hlt, hgt⟩ := cmpCollation_spec lcid c d
  rw [strictCmp_oprname]
  · simp only [decide_eq_true_eq, hlt, gt_iff_lt, hgt, collationStanding]
  · simp only [Bool.and_eq_false_iff, decide_eq_false_iff_not]
    omega

theorem compTime_eq (hfamily : x.family = z.family) (hne : x.typeCode ≠ z.typeCode)
    (htime : x.typeCode = .time ∨ z.typeCode = .time) :
    compTime op.oprname x.typeCode z.typeCode =
      op.accepts (some (compare (sortKey rank x) (sortKey rank z))) := by
  rcases htime with hx | hz
  · have hz : z.typeCode ≠ .time := fun hz => hne (hx.trans hz.symm)
    have hlt : sortKey rank x < sortKey rank z := sortKey_lt.mpr (.inr ⟨hfamily, .inl ⟨hz, hx⟩⟩)
    rw [compTime, strictCmp_oprname _ _ (by simp [hx]), compare_lt_iff_lt.mpr hlt]
    simp [hx, hz]
  · have hx : x.typeCode ≠ .time := fun hx => hne (hx.trans hz.symm)
    have hlt : sortKey rank z < sortKey rank x :=
      sortKey_lt.mpr (.inr ⟨hfamily.symm, .inl ⟨hx, hz⟩⟩)
    rw [compTime, strictCmp_oprname _ _ (by simp [hx]), compare_gt_iff_gt.mpr hlt]
    simp [hx, hz]

theorem code_injective : Function.Injective TypeCode.code := by
  intro s t
  cases s <;> cases t <;> decide

/-- **Within a family, every operator reads off how the values stand.** -/
theorem doCompare_eq (hn : n.Ordered rank) (hfamily : x.family = z.family) :
    doCompare n lcid op x z = op.accepts (standing lcid rank x z) := by
  unfold doCompare
  by_cases htype : x.typeCode = z.typeCode
  · have hclash : (x.typeCode.isStringType && decide (x.collid ≠ z.collid)) = true ↔ Clash x z := by
      simp [Clash, htype]
    simp only [if_pos htype, standing, hclash]
    split_ifs
    · rw [strictCmp_collation]
    · rw [hn.compareValue, compare_sortKey hfamily (by rw [htype]), ← htype]
  · rw [if_neg htype, standing, if_neg (fun h : Clash x z => htype h.1)]
    by_cases htime : (decide (x.typeCode = .time) || decide (z.typeCode = .time)) = true
    · rw [if_pos htime]
      rw [Bool.or_eq_true, decide_eq_true_eq, decide_eq_true_eq] at htime
      exact compTime_eq hfamily htype htime
    · rw [if_neg htime]
      rw [Bool.or_eq_true, decide_eq_true_eq, decide_eq_true_eq, not_or] at htime
      rw [compare_sortKey hfamily (by simp [htime])]
      cases hdirect : n.directCmp op x.typeCode z.typeCode with
      | some cmp => exact hn.directCmp op _ _ cmp hfamily hdirect _ _
      | none =>
        split_ifs with hcode
        · rw [hn.compareValue, hn.doCast _ _ _ hfamily.symm hcode]
        · have hne : x.typeCode.code ≠ z.typeCode.code := fun h => htype (code_injective h)
          rw [hn.compareValue, hn.doCast _ _ _ hfamily (by omega)]

theorem standing_of_family (h : x.family ≠ z.family) :
    standing lcid rank x z = if x.family > z.family then some .lt else some .gt := by
  have hclash : ¬ Clash x z := fun hc => h (congrArg TypeCode.familyPrio hc.1)
  rw [standing, if_neg hclash]
  split_ifs with hlt
  · rw [compare_lt_iff_lt.mpr (sortKey_lt.mpr (.inl hlt))]
  · have hgt : z.family > x.family := by omega
    rw [compare_gt_iff_gt.mpr (sortKey_lt.mpr (.inl hgt))]

theorem sqlvariantOp_eq (hn : n.Ordered rank) {otherwise : Nat → Nat → Bool}
    (hop : ∀ f g : Nat, f ≠ g → otherwise f g = op.accepts (if f > g then some .lt else some .gt)) :
    sqlvariantOp n lcid op otherwise x z = op.accepts (standing lcid rank x z) := by
  unfold sqlvariantOp
  split_ifs with hfamily
  · rw [doCompare_eq hn hfamily]
  · rw [hop _ _ hfamily, standing_of_family hfamily]

/-- **The six operators.** -/
theorem operators_eq (hn : n.Ordered rank) (lcid : Int) (x z : SqlVariant) :
    sqlvariantlt n lcid x z = Operator.lt.accepts (standing lcid rank x z) ∧
    sqlvariantle n lcid x z = Operator.le.accepts (standing lcid rank x z) ∧
    sqlvarianteq n lcid x z = Operator.eq.accepts (standing lcid rank x z) ∧
    sqlvariantge n lcid x z = Operator.ge.accepts (standing lcid rank x z) ∧
    sqlvariantgt n lcid x z = Operator.gt.accepts (standing lcid rank x z) ∧
    sqlvariantne n lcid x z = Operator.ne.accepts (standing lcid rank x z) := by
  refine ⟨?_, ?_, ?_, ?_, ?_, ?_⟩ <;> apply sqlvariantOp_eq hn <;> intro f g hne
  all_goals
    rcases Nat.lt_or_gt_of_ne hne with h | h <;> simp [Operator.accepts, h, Nat.lt_asymm h]

/-- The number that stands for a standing in the support function. -/
def standingSign : Option Ordering → Int
  | some .lt => -1
  | some .eq => 0
  | _ => 1

theorem sqlvariantCmp_eq (hn : n.Ordered rank) :
    sqlvariantCmp n lcid x z = standingSign (standing lcid rank x z) := by
  unfold sqlvariantCmp
  split
  · rename_i hfamily
    rw [doCompare_eq hn hfamily, doCompare_eq hn hfamily]
    rcases standing lcid rank x z with _ | _ | _ | _ <;> rfl
  · rename_i hfamily
    rw [standing_of_family hfamily]
    split <;> rfl

/-! ### The laws of the standing -/

theorem Clash.symm (h : Clash x z) : Clash z x :=
  ⟨h.1.symm, h.1 ▸ h.2.1, h.2.2.symm⟩

theorem collid_eq_of_not_clash (h : ¬ Clash x z) (htype : x.typeCode = z.typeCode)
    (hstring : x.typeCode.isStringType = true) : x.collid = z.collid := by
  by_contra hne
  exact h ⟨htype, hstring, hne⟩

theorem collationStanding_swap (c d : Nat) :
    collationStanding lcid d c = (collationStanding lcid c d).map Ordering.swap := by
  unfold collationStanding
  split_ifs with hlt hgt
  · exact absurd hlt (lt_asymm hgt)
  all_goals rfl

theorem standing_swap (x z : SqlVariant) :
    standing lcid rank z x = (standing lcid rank x z).map Ordering.swap := by
  unfold standing
  by_cases hclash : Clash x z
  · rw [if_pos hclash, if_pos hclash.symm, collationStanding_swap]
  · rw [if_neg hclash, if_neg (fun h => hclash h.symm), Option.map_some,
      ← cmp_eq_compare, ← cmp_eq_compare, cmp_swap]

def StandsLE (lcid : Int) (rank : TypeCode → List UInt8 → ι) (x z : SqlVariant) : Prop :=
  standing lcid rank x z = some .lt ∨ standing lcid rank x z = some .eq

theorem standsLE_of_not_clash (h : ¬ Clash x z) :
    StandsLE lcid rank x z ↔ sortKey rank x ≤ sortKey rank z := by
  rw [StandsLE, standing, if_neg h, Option.some_inj, Option.some_inj, compare_lt_iff_lt,
    compare_eq_iff_eq, le_iff_lt_or_eq]

theorem standsLE_of_clash (h : Clash x z) :
    StandsLE lcid rank x z ↔ collationKey lcid x.collid < collationKey lcid z.collid := by
  rw [StandsLE, standing, if_pos h, collationStanding]
  split_ifs with hlt hgt <;> simp [hlt]

theorem standsLE_iff : StandsLE lcid rank x z ↔
    if Clash x z then collationKey lcid x.collid < collationKey lcid z.collid
    else sortKey rank x ≤ sortKey rank z := by
  split_ifs with h
  · exact standsLE_of_clash h
  · exact standsLE_of_not_clash h

/-- **When three values are compatible**: the collations of two strings of one type are told apart
by the table, and a string of another type does not stand between two of them whose values are
ordered the other way round than their collations. -/
structure Compatible (lcid : Int) (rank : TypeCode → List UInt8 → ι) (x y z : SqlVariant) :
    Prop where
  collations : Clash x z → collationKey lcid x.collid ≠ collationKey lcid z.collid
  values : Clash x z → collationKey lcid x.collid < collationKey lcid z.collid →
    y.typeCode.isStringType = true → y.typeCode ≠ x.typeCode →
      ¬ (rank z.typeCode z.data ≤ rank y.typeCode y.data ∧
        rank y.typeCode y.data ≤ rank x.typeCode x.data)

theorem isStringType_iff : t.isStringType = true ↔ t.familyPrio = 5 := by
  cases t <;> decide

theorem ne_time_of_isStringType (h : t.isStringType = true) : t ≠ .time := by
  rintro rfl
  exact absurd h (by decide)

theorem sortKey_le_of_strings (hx : x.typeCode.isStringType = true)
    (hz : z.typeCode.isStringType = true) (h : rank x.typeCode x.data ≤ rank z.typeCode z.data) :
    sortKey rank x ≤ sortKey rank z := by
  have hxtime := ne_time_of_isStringType hx
  have hztime := ne_time_of_isStringType hz
  have hfamily : x.family = z.family := (isStringType_iff.mp hx).trans (isStringType_iff.mp hz).symm
  rw [← not_lt, sortKey_lt]
  simp only [hfamily, lt_irrefl, hxtime, hztime, not_lt.mpr h]
  simp

theorem between_strings (htype : x.typeCode = z.typeCode) (hstring : x.typeCode.isStringType = true)
    (hxy : sortKey rank x ≤ sortKey rank y) (hyz : sortKey rank y ≤ sortKey rank z) :
    y.typeCode.isStringType = true ∧ rank x.typeCode x.data ≤ rank y.typeCode y.data ∧
      rank y.typeCode y.data ≤ rank z.typeCode z.data := by
  have hx := isStringType_iff.mp hstring
  have hz := isStringType_iff.mp (htype ▸ hstring)
  have hle := not_lt.mpr hxy
  have hle' := not_lt.mpr hyz
  rw [sortKey_lt, not_or] at hle hle'
  have hy : y.typeCode.familyPrio = 5 := by
    have h1 := hle.1
    have h2 := hle'.1
    unfold SqlVariant.family at h1 h2
    omega
  have hstring' := isStringType_iff.mpr hy
  have hxtime := ne_time_of_isStringType hstring
  have hytime := ne_time_of_isStringType hstring'
  have hztime := ne_time_of_isStringType (htype ▸ hstring)
  refine ⟨hstring', ?_, ?_⟩
  · by_contra h
    exact hle.2 ⟨by unfold SqlVariant.family; omega, .inr ⟨by simp [hxtime, hytime], not_le.mp h⟩⟩
  · by_contra h
    exact hle'.2 ⟨by unfold SqlVariant.family; omega, .inr ⟨by simp [hytime, hztime], not_le.mp h⟩⟩

/-- A value of another type does not stand between two strings that are told apart by their
collations. -/
theorem not_between (h : Compatible lcid rank z y x) (hclash : Clash z x)
    (hkey : collationKey lcid z.collid < collationKey lcid x.collid) (hxy : ¬ Clash x y)
    (hyz : ¬Clash y z) : ¬(sortKey rank x ≤ sortKey rank y ∧ sortKey rank y ≤ sortKey rank z) := by
  rintro ⟨hle, hle'⟩
  obtain ⟨hstring, hranks⟩ := between_strings hclash.1.symm hclash.symm.2.1 hle hle'
  refine h.values hclash hkey hstring ?_ hranks
  intro htype
  have h1 : x.collid = y.collid :=
    collid_eq_of_not_clash hxy (hclash.1.symm.trans htype.symm) hclash.symm.2.1
  have h2 : y.collid = z.collid := collid_eq_of_not_clash hyz htype hstring
  exact hclash.2.2 (h1.trans h2).symm

/-- **Transitivity**, for three values that are compatible in every order. -/
theorem standsLE_trans (hS : ∀ x ∈ S, ∀ y ∈ S, ∀ z ∈ S, Compatible lcid rank x y z)
    {a b c : SqlVariant} (ha : a ∈ S) (hb : b ∈ S) (hc : c ∈ S) (hab : StandsLE lcid rank a b)
    (hbc : StandsLE lcid rank b c) : StandsLE lcid rank a c := by
  rw [standsLE_iff] at hab hbc ⊢
  split_ifs at hab hbc ⊢ with hac hab' hbc' hbc' hab' hbc' hbc'
  · exact lt_trans hab hbc
  · have hcoll : b.collid = c.collid :=
      collid_eq_of_not_clash hbc' (hab'.1.symm.trans hac.1) hab'.symm.2.1
    rwa [hcoll] at hab
  · have hcoll : a.collid = b.collid :=
      collid_eq_of_not_clash hab' (hac.1.trans hbc'.1.symm) hac.2.1
    rwa [hcoll]
  · rcases lt_trichotomy (collationKey lcid a.collid) (collationKey lcid c.collid) with h | h | h
    · exact h
    · exact absurd h ((hS a ha b hb c hc).collations hac)
    · exact absurd ⟨hab, hbc⟩ (not_between (hS c hc b hb a ha) hac.symm h hab' hbc')
  · have hcoll : a.collid = c.collid := collid_eq_of_not_clash hac (hab'.1.trans hbc'.1) hab'.2.1
    rw [hcoll] at hab
    exact absurd (lt_trans hab hbc) (lt_irrefl _)
  · by_contra hlt
    exact not_between (hS a ha c hc b hb) hab' hab hbc' (mt Clash.symm hac)
      ⟨hbc, le_of_lt (not_le.mp hlt)⟩
  · by_contra hlt
    exact not_between (hS b hb a ha c hc) hbc' hbc (mt Clash.symm hac) hab'
      ⟨le_of_lt (not_le.mp hlt), hab⟩
  · exact le_trans hab hbc

/-! ### The operator classes -/

/-- What the btree operator class needs on a set of values: the support function is a total
preorder there, and the six operators are its own. -/
structure TotalPreorderOn (n : Natives) (lcid : Int) (S : Set SqlVariant) : Prop where
  antisymm : ∀ x ∈ S, ∀ y ∈ S, sqlvariantCmp n lcid y x = -sqlvariantCmp n lcid x y
  trans : ∀ x ∈ S, ∀ y ∈ S, ∀ z ∈ S, sqlvariantCmp n lcid x y ≤ 0 →
    sqlvariantCmp n lcid y z ≤ 0 → sqlvariantCmp n lcid x z ≤ 0
  operators : ∀ x ∈ S, ∀ y ∈ S,
    (sqlvariantlt n lcid x y ↔ sqlvariantCmp n lcid x y < 0) ∧
    (sqlvariantle n lcid x y ↔ sqlvariantCmp n lcid x y ≤ 0) ∧
    (sqlvarianteq n lcid x y ↔ sqlvariantCmp n lcid x y = 0) ∧
    (sqlvariantge n lcid x y ↔ sqlvariantCmp n lcid x y ≥ 0) ∧
    (sqlvariantgt n lcid x y ↔ sqlvariantCmp n lcid x y > 0) ∧
    (sqlvariantne n lcid x y ↔ sqlvariantCmp n lcid x y ≠ 0)

theorem sqlvariantCmp_le_zero (hn : n.Ordered rank) :
    sqlvariantCmp n lcid x z ≤ 0 ↔ StandsLE lcid rank x z := by
  rw [sqlvariantCmp_eq hn, StandsLE]
  rcases standing lcid rank x z with _ | _ | _ | _ <;> decide

theorem standing_ne_none (h : Clash x z → collationKey lcid x.collid ≠ collationKey lcid z.collid) :
    standing lcid rank x z ≠ none := by
  unfold standing
  by_cases hclash : Clash x z
  · rw [if_pos hclash, collationStanding]
    rcases lt_or_gt_of_ne (h hclash) with hlt | hgt
    · simp [hlt]
    · simp [hgt, lt_asymm hgt]
  · simp [hclash]

theorem totalPreorderOn_of_compatible (hn : n.Ordered rank)
    (hS : ∀ x ∈ S, ∀ y ∈ S, ∀ z ∈ S, Compatible lcid rank x y z) : TotalPreorderOn n lcid S where
  antisymm x hx y hy := by
    have hne : standing lcid rank x y ≠ none := standing_ne_none (hS x hx x hx y hy).collations
    rw [sqlvariantCmp_eq hn, sqlvariantCmp_eq hn, standing_swap x y]
    rcases h : standing lcid rank x y with _ | _ | _ | _
    · exact absurd h hne
    all_goals rfl
  trans x hx y hy z hz hxy hyz := by
    rw [sqlvariantCmp_le_zero hn] at hxy hyz ⊢
    exact standsLE_trans hS hx hy hz hxy hyz
  operators x hx y hy := by
    have hne : standing lcid rank x y ≠ none := standing_ne_none (hS x hx x hx y hy).collations
    obtain ⟨hlt, hle, heq, hge, hgt, hneq⟩ := operators_eq hn lcid x y
    rw [hlt, hle, heq, hge, hgt, hneq, sqlvariantCmp_eq hn]
    rcases h : standing lcid rank x y with _ | _ | _ | _
    · exact absurd h hne
    all_goals decide

theorem compatible_of_totalPreorderOn (hn : n.Ordered rank) (h : TotalPreorderOn n lcid S)
    (hx : x ∈ S) (hy : y ∈ S) (hz : z ∈ S) : Compatible lcid rank x y z where
  collations hclash heq := by
    -- neither of the two is smaller, so the support function says 1 both ways
    have hnone : standing lcid rank x z = none := by
      simp [standing, hclash, collationStanding, heq]
    have hswap := h.antisymm x hx z hz
    rw [sqlvariantCmp_eq hn, sqlvariantCmp_eq hn, standing_swap x z, hnone] at hswap
    exact absurd hswap (by decide)
  values hclash hlt hstring htype hvalues := by
    have hzy : ¬ Clash z y := fun hc => htype (hc.1.symm.trans hclash.1.symm)
    have hyx : ¬ Clash y x := fun hc => htype hc.1
    have hle := h.trans z hz y hy x hx
    rw [sqlvariantCmp_le_zero hn, sqlvariantCmp_le_zero hn, sqlvariantCmp_le_zero hn,
      standsLE_of_not_clash hzy, standsLE_of_not_clash hyx, standsLE_of_clash hclash.symm] at hle
    exact lt_asymm hlt (hle (sortKey_le_of_strings hclash.symm.2.1 hstring hvalues.1)
      (sortKey_le_of_strings hstring hclash.2.1 hvalues.2))

/-- **Where the comparison is an order**: if the operators and casts of the base types are those of
one order for each family, the operator class has what it needs on a set of values exactly when any
three of them are compatible. -/
theorem sqlvariantCmp_totalPreorder_iff {ι : Type} [LinearOrder ι] (n : Natives) (lcid : Int)
    (rank : TypeCode → List UInt8 → ι) (hn : n.Ordered rank) (S : Set SqlVariant) :
    TotalPreorderOn n lcid S ↔ ∀ x ∈ S, ∀ y ∈ S, ∀ z ∈ S, Compatible lcid rank x y z := by
  constructor
  · intro h x hx y hy z hz
    exact compatible_of_totalPreorderOn hn h hx hy hz
  · intro hS
    exact totalPreorderOn_of_compatible hn hS

/-- Strings by their bytes, other values as signed numbers. -/
def plainRank (t : TypeCode) (d : List UInt8) : Int :=
  if t.isStringType then leNat d.reverse else (leNat d : Int).bmod (256 ^ d.length)

/-- Operators that compare integers, also of different types, and small letters as PostgreSQL
does. -/
def plainNatives : Natives where
  compareValue op t d1 d2 := op.accepts (some (compare (plainRank t d1) (plainRank t d2)))
  directCmp op t1 t2 :=
    some fun d1 d2 => op.accepts (some (compare (plainRank t1 d1) (plainRank t2 d2)))
  doCast _ _ d := d

theorem plainNatives_ordered : plainNatives.Ordered plainRank where
  compareValue _ _ _ _ := rfl
  directCmp _ _ _ _ _ h _ _ := by cases h; rfl
  doCast source target d h _ := by
    have hstring : target.isStringType = source.isStringType := by
      rw [Bool.eq_iff_iff, isStringType_iff, isStringType_iff, h]
    rw [plainNatives, plainRank, plainRank, hstring]

def intOne : SqlVariant where
  bytes := [105, 1, 0, 0, 0]
  typeCode := .int
  metadata := rfl
  header := by decide
  collation h := absurd h (by decide)

def bigintOne : SqlVariant where
  bytes := [97, 1, 0, 0, 0, 0, 0, 0, 0]
  typeCode := .bigint
  metadata := rfl
  header := by decide
  collation h := absurd h (by decide)

def varcharA (coll : Fin 110) : SqlVariant where
  bytes := [153, 1, 0, UInt8.ofNat coll, 0, 5, 97]
  typeCode := .varchar
  metadata := (by decide : (153 : UInt8).toNat / 8 = 19)
  header := by simp [TypeCode.svhdrSize]
  collation _ := by
    revert coll
    decide

def nvarcharB : SqlVariant where
  bytes := [137, 1, 0, 8, 0, 5, 98]
  typeCode := .nvarchar
  metadata := (by decide : (137 : UInt8).toNat / 8 = 17)
  header := by simp [TypeCode.svhdrSize]
  collation _ := by decide

/-- Two equal integers and two strings. -/
theorem sqlvariantCmp_totalPreorder_iff_mixed :
    plainNatives.Ordered plainRank ∧
      TotalPreorderOn plainNatives 1033 {intOne, bigintOne, varcharA 8, nvarcharB} := by
  refine ⟨plainNatives_ordered, ?_⟩
  refine (sqlvariantCmp_totalPreorder_iff plainNatives 1033 _ plainNatives_ordered _).mpr ?_
  have hclash : ∀ x ∈ ({intOne, bigintOne, varcharA 8, nvarcharB} : Set SqlVariant),
      ∀ z ∈ ({intOne, bigintOne, varcharA 8, nvarcharB} : Set SqlVariant), ¬ Clash x z := by
    rintro x (rfl | rfl | rfl | rfl) z (rfl | rfl | rfl | rfl) <;> decide
  intro x hx y _ z hz
  exact ⟨fun h => absurd h (hclash x hx z hz), fun h => absurd h (hclash x hx z hz)⟩

/-- The rows `arabic_ci_ai` and `arabic_ci_as` of the table do not differ in what is compared: each
of two strings is greater than the other one for the support function, and no operator but `<>`
holds between them. -/
theorem arabic_collations_tie :
    plainNatives.Ordered plainRank ∧
    sqlvariantCmp plainNatives 1033 (varcharA 0) (varcharA 1) = 1 ∧
    sqlvariantCmp plainNatives 1033 (varcharA 1) (varcharA 0) = 1 ∧
    sqlvariantlt plainNatives 1033 (varcharA 0) (varcharA 1) = false ∧
    sqlvarianteq plainNatives 1033 (varcharA 0) (varcharA 1) = false ∧
    sqlvariantgt plainNatives 1033 (varcharA 0) (varcharA 1) = false :=
  ⟨plainNatives_ordered, by decide +kernel⟩

/-! ### The hash -/

/-- The two values are of one family, both or none of type `time`, not strings of one type with
different collations, and of the same rank. -/
structure SameValue (rank : TypeCode → List UInt8 → ι) (a b : SqlVariant) : Prop where
  family : a.family = b.family
  time : a.typeCode = .time ↔ b.typeCode = .time
  collation : ¬ Clash a b
  rank : rank a.typeCode a.data = rank b.typeCode b.data

theorem sqlvarianteq_iff (hn : n.Ordered rank) :
    sqlvarianteq n lcid x z = true ↔ SameValue rank x z := by
  obtain ⟨-, -, heq, -⟩ := operators_eq hn lcid x z
  rw [heq, Operator.accepts, decide_eq_true_eq, standing]
  split_ifs with hclash
  · refine iff_of_false ?_ fun h => h.collation hclash
    unfold collationStanding
    split_ifs <;> simp
  · rw [Option.some_inj]
    constructor
    · intro h
      rw [compare_eq_iff_eq, sortKey, sortKey, toLex_inj, Prod.mk.injEq, toLex_inj,
        Prod.mk.injEq, OrderDual.toDual_inj] at h
      obtain ⟨hfamily, htime, hrank⟩ := h
      exact ⟨hfamily, by split_ifs at htime <;> simp_all, hclash, hrank⟩
    · intro h
      rw [compare_sortKey h.family h.time, compare_eq_iff_eq]
      exact h.rank

end Babelfish.Common
