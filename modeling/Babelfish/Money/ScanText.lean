import Babelfish.Money.Scan

/-!
# The text of an amount

The form of the texts that `scanfixeddecimal` is made for, and what it makes of all that stands
before the digits.

* `skipMoneySpaces_spaces`, `Currency.skipCurrency`: spaces and symbols are skipped.
* `scanfixeddecimal_opening`: what stands before the digits is skipped, and its sign is kept.
-/

namespace Babelfish.Money

open Lib List

variable {c : UInt8} {rest : List UInt8}

/-! ### The form -/

/-- A space: a white-space character, or a non-breaking space in one of two encodings. -/
inductive Space where
  | blank (c : UInt8) (h : isSpace c = true)
  | nbsp
  | nbspUtf8

def Space.bytes : Space → List UInt8
  | blank c _ => [c]
  | nbsp => [0xA0]
  | nbspUtf8 => [0xC2, 0xA0]

def spaceBytes (sps : List Space) : List UInt8 := sps.flatMap Space.bytes

/-- A currency symbol, or the backslash that may stand for one. -/
inductive Currency where
  | symbol (bytes : List UInt8) (h : bytes ∈ validCurrencySymbols)
  | backslash

def Currency.bytes : Currency → List UInt8
  | symbol bytes _ => bytes
  | backslash => [92]

abbrev Mark := Option (Fin 10)

def markByte : Mark → UInt8
  | some d => digitByte d
  | none => 44

def markDigits (ms : List Mark) : List Nat := ms.filterMap fun m => m.map Fin.val

def signByte (negative : Bool) : UInt8 := if negative then 45 else 43

/-- What stands before the digits: the sign, if there is one, and the currency symbol, if there is
one, in either order, each followed by spaces. -/
inductive Opening where
  | signFirst (sign : Option (Bool × List Space)) (currency : Option (Currency × List Space))
  | currencyFirst (currency : Currency) (gap : List Space) (negative : Bool) (gap' : List Space)

/-- The bytes of a currency symbol and the spaces behind it. -/
def currencyBytes : Option (Currency × List Space) → List UInt8
  | none => []
  | some (currency, gap) => currency.bytes ++ spaceBytes gap

def Opening.bytes : Opening → List UInt8
  | signFirst none currency => currencyBytes currency
  | signFirst (some (negative, gap)) currency =>
    signByte negative :: (spaceBytes gap ++ currencyBytes currency)
  | currencyFirst currency gap negative gap' =>
    currency.bytes ++ spaceBytes gap ++ signByte negative :: spaceBytes gap'

def Opening.negative : Opening → Bool
  | signFirst none _ => false
  | signFirst (some (negative, _)) _ => negative
  | currencyFirst _ _ negative _ => negative

/-- **The text of an amount**: white space, a sign and a currency symbol in either order, digits and
commas, a decimal point with digits and commas, spaces. -/
structure MoneyText where
  lead : List {c : UInt8 // isSpace c = true}
  opening : Opening
  integral : List Mark
  fraction : Option (List Mark)
  trail : List Space

def pointBytes : Option (List Mark) → List UInt8
  | none => []
  | some ms => 46 :: ms.map markByte

namespace MoneyText

def body (t : MoneyText) : List UInt8 := t.integral.map markByte ++ pointBytes t.fraction

def bytes (t : MoneyText) : List UInt8 :=
  t.lead.map Subtype.val ++ (t.opening.bytes ++ (t.body ++ spaceBytes t.trail))

end MoneyText

/-! ### Spaces -/

theorem ne_of_toNat_ne {d : UInt8} (h : c.toNat ≠ d.toNat) : c ≠ d := fun hc => h (hc ▸ rfl)

theorem isSpace_iff : isSpace c = true ↔ c.toNat = 32 ∨ 9 ≤ c.toNat ∧ c.toNat ≤ 13 := by
  simp only [isSpace, Bool.or_eq_true, Bool.and_eq_true, decide_eq_true_eq, ← UInt8.toNat_inj]
  rfl

theorem isSpace_eq_false (h : 32 < c.toNat) : isSpace c = false := by
  rw [Bool.eq_false_iff, Ne, isSpace_iff]
  omega

theorem skipMoneySpaces_space (sp : Space) :
    skipMoneySpaces (sp.bytes ++ rest) = skipMoneySpaces rest := by
  cases sp with
  | blank c h => cases rest <;> simp [Space.bytes, skipMoneySpaces, h]
  | nbsp => cases rest <;> simp [Space.bytes, skipMoneySpaces]
  | nbspUtf8 =>
    have h : isSpace 0xC2 = false := by decide
    simp [Space.bytes, skipMoneySpaces, h]

theorem skipMoneySpaces_spaces (sps : List Space) :
    skipMoneySpaces (spaceBytes sps ++ rest) = skipMoneySpaces rest := by
  induction sps with
  | nil => rfl
  | cons sp sps ih =>
    rw [spaceBytes, flatMap_cons, append_assoc, skipMoneySpaces_space]
    exact ih

variable (t : MoneyText) (currency : Currency) (lead : List {c : UInt8 // isSpace c = true})
  {negative : Bool}

theorem skipMoneySpaces_lead :
    skipMoneySpaces (lead.map Subtype.val ++ rest) = skipMoneySpaces rest := by
  induction lead with
  | nil => rfl
  | cons c lead ih => exact (skipMoneySpaces_space (.blank c.1 c.2)).trans ih

theorem skipMoneySpaces_cons (hspace : isSpace c = false) (hnbsp : c ≠ 0xA0)
    (hutf8 : c = 0xC2 → rest.headD 0 ≠ 0xA0) : skipMoneySpaces (c :: rest) = c :: rest := by
  cases rest with
  | nil => simp [skipMoneySpaces, hspace, hnbsp]
  | cons d rest =>
    have hpair : ¬ (c = 0xC2 ∧ d = 0xA0) := fun h => hutf8 h.1 h.2
    simp [skipMoneySpaces, hspace, hnbsp, hpair]

theorem hasNbsp_lead : hasNbsp lead.length (lead.map Subtype.val ++ rest) = false := by
  induction lead with
  | nil => cases rest <;> rfl
  | cons c lead ih =>
    have hspace := isSpace_iff.mp c.2
    have hnbsp : c.1 ≠ 0xA0 := ne_of_toNat_ne (show c.1.toNat ≠ 160 by omega)
    have hutf8 : c.1 ≠ 0xC2 := ne_of_toNat_ne (show c.1.toNat ≠ 194 by omega)
    rw [map_cons, cons_append, length_cons, hasNbsp, ih]
    simp [hnbsp, hutf8]

/-! ### What stands before the digits -/

def StartsBody (c : UInt8) : Prop := isDigit c = true ∨ c = 44 ∨ c = 46

theorem isDigit_iff : isDigit c = true ↔ 48 ≤ c.toNat ∧ c.toNat ≤ 57 :=
  decide_eq_true_iff

theorem startsBody_iff :
    StartsBody c ↔ 48 ≤ c.toNat ∧ c.toNat ≤ 57 ∨ c.toNat = 44 ∨ c.toNat = 46 := by
  rw [StartsBody, isDigit_iff, ← UInt8.toNat_inj, ← UInt8.toNat_inj]
  rfl

theorem markByte_startsBody (m : Mark) : StartsBody (markByte m) := by
  cases m with
  | none => exact .inr (.inl rfl)
  | some d => exact .inl (isDigit_digitByte d.2)

theorem body_cases : t.body = [] ∨ ∃ c rest, t.body = c :: rest ∧ StartsBody c := by
  unfold MoneyText.body
  cases t.integral with
  | cons m ms => exact .inr ⟨_, _, rfl, markByte_startsBody m⟩
  | nil =>
    cases t.fraction with
    | none => exact .inl rfl
    | some ms => exact .inr ⟨46, _, rfl, .inr (.inr rfl)⟩

theorem skipMoneySpaces_startsBody (h : StartsBody c) :
    skipMoneySpaces (c :: rest) = c :: rest := by
  rw [startsBody_iff] at h
  apply skipMoneySpaces_cons
  · exact isSpace_eq_false (by omega)
  · exact ne_of_toNat_ne (show c.toNat ≠ 160 by omega)
  · intro hc
    exact absurd hc (ne_of_toNat_ne (show c.toNat ≠ 194 by omega))

/-- The text behind the opening, without the spaces at its head: the digits and some of the spaces
at the end, all of which are skipped when there are no digits. -/
theorem exists_settled :
    ∃ trail : List Space, skipMoneySpaces (t.body ++ spaceBytes t.trail) =
      t.body ++ spaceBytes trail ∧ (t.body = [] → trail = []) := by
  rcases body_cases t with h | ⟨c, rest, h, hc⟩
  · refine ⟨[], ?_, fun _ => rfl⟩
    rw [h, nil_append, ← append_nil (spaceBytes t.trail), skipMoneySpaces_spaces]
    rfl
  · refine ⟨t.trail, ?_, fun hnil => ?_⟩
    · rw [h, cons_append, skipMoneySpaces_startsBody hc]
    · rw [h] at hnil
      cases hnil

def Settled (ptr : List UInt8) : Prop := ptr = [] ∨ ∃ c rest, ptr = c :: rest ∧ StartsBody c

theorem settled_skip : Settled (skipMoneySpaces (t.body ++ spaceBytes t.trail)) := by
  obtain ⟨trail, h, hnil⟩ := exists_settled t
  rw [h]
  rcases body_cases t with hbody | ⟨c, rest, hbody, hc⟩
  · left
    rw [hnil hbody, hbody]
    rfl
  · right
    rw [hbody]
    exact ⟨c, rest ++ spaceBytes trail, rfl, hc⟩

theorem firstSign_cons (h45 : c.toNat ≠ 45) (h43 : c.toNat ≠ 43) :
    firstSign (c :: rest) = (false, false, c :: rest) := by
  have hminus : c ≠ 45 := ne_of_toNat_ne h45
  have hplus : c ≠ 43 := ne_of_toNat_ne h43
  simp [firstSign, hminus, hplus]

theorem symbol_head : ∀ symbol ∈ validCurrencySymbols,
    symbol ≠ [] ∧ ((symbol.headD 0).toNat = 36 ∨ 194 ≤ (symbol.headD 0).toNat) := by
  decide

namespace Settled

variable {ptr : List UInt8}

section

variable (h : Settled ptr)
include h

theorem skipMoneySpaces : Money.skipMoneySpaces ptr = ptr := by
  rcases h with rfl | ⟨c, rest, rfl, hc⟩
  · rfl
  · exact skipMoneySpaces_startsBody hc

theorem firstSign : Money.firstSign ptr = (false, false, ptr) := by
  rcases h with rfl | ⟨c, rest, rfl, hc⟩
  · rfl
  · rw [startsBody_iff] at hc
    exact firstSign_cons (by omega) (by omega)

theorem mayFollowSymbol : Money.mayFollowSymbol (ptr.headD 0) = true := by
  rcases h with rfl | ⟨c, rest, rfl, hc | rfl | rfl⟩
  · rfl
  · simp [Money.mayFollowSymbol, hc]
  · rfl
  · rfl

theorem secondSign (str : List UInt8) (negative hasSeenSign : Bool) :
    Money.secondSign str negative hasSeenSign ptr =
      .ok (if hasSeenSign then negative else false, ptr) := by
  rcases h with rfl | ⟨c, rest, rfl, hc⟩
  · rfl
  · rw [startsBody_iff] at hc
    have h45 : c ≠ 45 := ne_of_toNat_ne (show c.toNat ≠ 45 by omega)
    have h43 : c ≠ 43 := ne_of_toNat_ne (show c.toNat ≠ 43 by omega)
    simp [Money.secondSign, h45, h43]

theorem skipCurrency : Money.skipCurrency ptr = ptr := by
  rcases h with rfl | ⟨c, rest, rfl, hc⟩
  · rfl
  · rw [startsBody_iff] at hc
    have hnone : validCurrencySymbols.find? (fun symbol => symbol.isPrefixOf (c :: rest)) =
        none := by
      rw [find?_eq_none]
      intro symbol hmem
      have hhead := symbol_head symbol hmem
      cases symbol with
      | nil => exact absurd rfl hhead.1
      | cons d tail =>
        have hne : d ≠ c := by
          rintro rfl
          have := hhead.2
          dsimp only [headD_cons] at this
          omega
        simp [isPrefixOf, hne]
    have h92 : c ≠ 92 := ne_of_toNat_ne (show c.toNat ≠ 92 by omega)
    simp [Money.skipCurrency, isValidCurrencySymbol, hnone, h92]

end

end Settled

/-! ### Currency symbols -/

theorem symbols_prefix_free : ∀ s ∈ validCurrencySymbols, ∀ s' ∈ validCurrencySymbols,
    s <+: s' → s = s' := by
  decide +kernel

theorem isValidCurrencySymbol_symbol {symbol : List UInt8} (h : symbol ∈ validCurrencySymbols) :
    isValidCurrencySymbol (symbol ++ rest) = symbol.length := by
  unfold isValidCurrencySymbol
  have hself : symbol.isPrefixOf (symbol ++ rest) = true :=
    isPrefixOf_iff_prefix.mpr (prefix_append symbol rest)
  cases hfind : validCurrencySymbols.find? (fun s => s.isPrefixOf (symbol ++ rest)) with
  | none => exact absurd hself (find?_eq_none.mp hfind symbol h)
  | some s =>
    have hmem := mem_of_find?_eq_some hfind
    have hfound := find?_some hfind
    have hprefix := isPrefixOf_iff_prefix.mp hfound
    have heq : s = symbol := by
      rcases prefix_or_prefix_of_prefix hprefix (prefix_append symbol rest) with h1 | h1
      · exact symbols_prefix_free s hmem symbol h h1
      · exact (symbols_prefix_free symbol h s hmem h1).symm
    rw [heq]

theorem symbol_not_nbsp : ∀ symbol ∈ validCurrencySymbols, symbol.headD 0 = 0xC2 →
    symbol.tail ≠ [] ∧ symbol.tail.headD 0 ≠ 0xA0 := by
  decide

namespace Currency

theorem bytes_cases : ∃ c tail, currency.bytes = c :: tail ∧
    (c.toNat = 36 ∨ c.toNat = 92 ∨ 194 ≤ c.toNat) ∧
      ∀ rest : List UInt8, c = 0xC2 → (tail ++ rest).headD 0 ≠ 0xA0 := by
  cases currency with
  | backslash => exact ⟨92, [], rfl, .inr (.inl rfl), nofun⟩
  | symbol bytes h =>
    have hhead := symbol_head bytes h
    have hnbsp := symbol_not_nbsp bytes h
    rcases bytes with _ | ⟨c, _ | ⟨d, tail⟩⟩
    · exact absurd rfl hhead.1
    · refine ⟨c, [], rfl, hhead.2.imp_right .inr, fun rest hc => ?_⟩
      exact absurd rfl (hnbsp hc).1
    · exact ⟨c, d :: tail, rfl, hhead.2.imp_right .inr, fun rest hc => (hnbsp hc).2⟩

theorem skipCurrency : Money.skipCurrency (currency.bytes ++ rest) = rest := by
  cases currency with
  | backslash =>
    have hnone : isValidCurrencySymbol (92 :: rest) = 0 := rfl
    simp [Money.skipCurrency, bytes, hnone]
  | symbol s h =>
    have hpos : 0 < s.length := length_pos_of_ne_nil (symbol_head s h).1
    simp [Money.skipCurrency, bytes, isValidCurrencySymbol_symbol h, hpos]

theorem skipMoneySpaces :
    Money.skipMoneySpaces (currency.bytes ++ rest) = currency.bytes ++ rest := by
  obtain ⟨c, tail, hbytes, hc, hutf8⟩ := currency.bytes_cases
  rw [hbytes, cons_append]
  apply skipMoneySpaces_cons
  · exact isSpace_eq_false (by omega)
  · exact ne_of_toNat_ne (show c.toNat ≠ 160 by omega)
  · exact hutf8 rest

theorem firstSign :
    Money.firstSign (currency.bytes ++ rest) = (false, false, currency.bytes ++ rest) := by
  obtain ⟨c, tail, hbytes, hc, -⟩ := currency.bytes_cases
  rw [hbytes]
  exact firstSign_cons (by omega) (by omega)

end Currency

/-! ### The opening -/

theorem skipMoneySpaces_sign (negative : Bool) (rest : List UInt8) :
    skipMoneySpaces (signByte negative :: rest) = signByte negative :: rest := by
  cases negative <;>
    exact skipMoneySpaces_cons (by decide) (by decide) fun h => absurd h (by decide)

theorem firstSign_sign : firstSign (signByte negative :: rest) = (negative, true, rest) := by
  cases negative <;> rfl

theorem secondSign_sign (str : List UInt8) :
    secondSign str false false (signByte negative :: rest) = .ok (negative, rest) := by
  cases negative <;> rfl

theorem scanfixeddecimal_lead (h : skipMoneySpaces rest = rest ∨ skipMoneySpaces rest = []) :
    scanfixeddecimal (lead.map Subtype.val ++ rest) =
      scanSigned (lead.map Subtype.val ++ rest) (skipMoneySpaces rest) := by
  unfold scanfixeddecimal
  dsimp only
  rw [skipMoneySpaces_lead]
  rcases h with h | h
  · have hlen : (lead.map Subtype.val ++ rest).length - rest.length = lead.length := by simp
    rw [h, hlen, hasNbsp_lead, Bool.and_false]
    rfl
  · rw [h]
    rfl

theorem skipCurrency_currencyBytes (currency : Option (Currency × List Space)) :
    skipMoneySpaces (skipCurrency
        (skipMoneySpaces (currencyBytes currency ++ (t.body ++ spaceBytes t.trail)))) =
      skipMoneySpaces (t.body ++ spaceBytes t.trail) := by
  cases currency with
  | none =>
    have hsettled := settled_skip t
    rw [currencyBytes, nil_append, hsettled.skipCurrency, hsettled.skipMoneySpaces]
  | some pair =>
    obtain ⟨currency, gap⟩ := pair
    rw [currencyBytes, append_assoc, currency.skipMoneySpaces, currency.skipCurrency,
      skipMoneySpaces_spaces]

theorem scanSigned_settled {str ptr : List UInt8} {hasSeenSign : Bool}
    (hfirst : firstSign ptr = (negative, hasSeenSign, rest))
    (hsettled : Settled (skipMoneySpaces (skipCurrency (skipMoneySpaces rest)))) :
    scanSigned str ptr =
      scanDigits str (if hasSeenSign then negative else false)
        (skipMoneySpaces (skipCurrency (skipMoneySpaces rest))) := by
  unfold scanSigned
  rw [hfirst]
  dsimp only
  rw [hsettled.mayFollowSymbol, hsettled.secondSign]
  rfl

theorem skipMoneySpaces_body :
    skipMoneySpaces (t.body ++ spaceBytes t.trail) = t.body ++ spaceBytes t.trail ∨
      skipMoneySpaces (t.body ++ spaceBytes t.trail) = [] := by
  rcases body_cases t with h | ⟨c, rest, h, hc⟩
  · right
    obtain ⟨trail, hskip, hnil⟩ := exists_settled t
    rw [hskip, hnil h, h]
    rfl
  · left
    rw [h, cons_append, skipMoneySpaces_startsBody hc]

/-- **What stands before the digits is skipped, and its sign is kept.** -/
theorem scanfixeddecimal_opening :
    ∃ ptr, skipMoneySpaces ptr = skipMoneySpaces (t.body ++ spaceBytes t.trail) ∧
      scanfixeddecimal t.bytes = scanDigits t.bytes t.opening.negative ptr := by
  have hsettled := settled_skip t
  have hbody := skipMoneySpaces_body t
  have hcurrency := skipCurrency_currencyBytes t
  unfold MoneyText.bytes
  generalize t.body ++ spaceBytes t.trail = B at *
  rcases t.opening with ⟨_ | ⟨negative, gap⟩, currency⟩ | ⟨currency, gap, negative, gap'⟩
  · -- no sign, or one that is not looked for before the symbol
    have hlead : skipMoneySpaces (currencyBytes currency ++ B) = currencyBytes currency ++ B ∨
        skipMoneySpaces (currencyBytes currency ++ B) = [] := by
      rcases currency with _ | ⟨currency, gap⟩
      · exact hbody
      · left
        rw [currencyBytes, append_assoc, currency.skipMoneySpaces]
    have hfirst : firstSign (skipMoneySpaces (currencyBytes currency ++ B)) =
        (false, false, skipMoneySpaces (currencyBytes currency ++ B)) := by
      rcases currency with _ | ⟨currency, gap⟩
      · exact hsettled.firstSign
      · rw [currencyBytes, append_assoc, currency.skipMoneySpaces, currency.firstSign]
    have hagain : skipMoneySpaces (skipMoneySpaces (currencyBytes currency ++ B)) =
        skipMoneySpaces (currencyBytes currency ++ B) := by
      rcases hlead with h | h
      · rw [h, h]
      · rw [h]
        rfl
    refine ⟨skipMoneySpaces B, hsettled.skipMoneySpaces, ?_⟩
    refine (scanfixeddecimal_lead t.lead hlead).trans ?_
    refine (scanSigned_settled hfirst (by rw [hagain, hcurrency]; exact hsettled)).trans ?_
    rw [hagain, hcurrency]
    rfl
  · -- a sign in front of the symbol
    have hskip := skipMoneySpaces_sign negative (spaceBytes gap ++ currencyBytes currency ++ B)
    refine ⟨skipMoneySpaces B, hsettled.skipMoneySpaces, ?_⟩
    refine (scanfixeddecimal_lead t.lead (.inl hskip)).trans ?_
    rw [hskip]
    have hspaces : skipMoneySpaces (spaceBytes gap ++ currencyBytes currency ++ B) =
        skipMoneySpaces (currencyBytes currency ++ B) := by
      rw [append_assoc, skipMoneySpaces_spaces]
    refine (scanSigned_settled (firstSign_sign)
      (by rw [hspaces, hcurrency]; exact hsettled)).trans ?_
    rw [hspaces, hcurrency]
    rfl
  · -- a sign behind the symbol
    refine ⟨spaceBytes gap' ++ B, skipMoneySpaces_spaces _, ?_⟩
    have hrest : (Opening.currencyFirst currency gap negative gap').bytes ++ B =
        currency.bytes ++ (spaceBytes gap ++ signByte negative :: (spaceBytes gap' ++ B)) := by
      simp [Opening.bytes]
    rw [hrest, scanfixeddecimal_lead t.lead (.inl currency.skipMoneySpaces),
      currency.skipMoneySpaces, scanSigned, currency.firstSign]
    dsimp only
    rw [currency.skipMoneySpaces, currency.skipCurrency, skipMoneySpaces_spaces,
      skipMoneySpaces_sign, secondSign_sign]
    cases negative <;> rfl

end Babelfish.Money
