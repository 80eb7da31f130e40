import Babelfish.Lib.Decimal
import Babelfish.Lib.Except
import Mathlib.Data.List.GetD
import Mathlib.Data.List.TakeWhile

/-!
# Type modifiers of the parameters of a routine

The catalog keeps the types of a routine's parameters without their modifiers, so that `CREATE
FUNCTION` and `CREATE PROCEDURE` store the modifiers as a JSON text in `probin`.  The writer packs
the modifiers of a type without looking at the type; the reader corrects what it finds by the name
of the type.  Before, the parser gives a numeric type the modifiers that it lacks.

* `buildTypmodArray`, `probinJsonReader`, `adjustTypmod`: the writer and the reader.
* `Declares`: the modifier that PostgreSQL computes for a declared type.
* `pack_declared`: what is packed for such a type, and when it is read back.
* `typmods_right_iff`: all modifiers are read back but a fractional precision of 0, and that of
  `numeric(p)` where the parser does not add the scale.
-/

namespace Babelfish.Tsql.Probin

open Lib List

/-! ### Types -/

/-- The names that the code compares a type's name with, and those of the other types with
modifiers. -/
inductive TypName where
  | varchar
  | nvarchar
  | nchar
  | varbinary
  | binary
  | bpchar
  | smalldatetime
  | decimal
  | money
  | smallmoney
  | numeric
  | time
  | datetime2
  | datetimeoffset
  | other (name : String)
deriving DecidableEq, Repr

namespace TypName

def text : TypName → String
  | varchar => "varchar"
  | nvarchar => "nvarchar"
  | nchar => "nchar"
  | varbinary => "varbinary"
  | binary => "binary"
  | bpchar => "bpchar"
  | smalldatetime => "smalldatetime"
  | decimal => "decimal"
  | money => "money"
  | smallmoney => "smallmoney"
  | numeric => "numeric"
  | time => "time"
  | datetime2 => "datetime2"
  | datetimeoffset => "datetimeoffset"
  | other name => name

/-- `max_allowed_varchar_length` or `max_allowed_nvarchar_length`, for the types with a length. -/
def maxLength : TypName → Option Nat
  | varchar | bpchar | varbinary | binary => some 8000
  | nvarchar | nchar => some 4000
  | _ => none

/-- `MAX` can stand for the length. -/
def hasMax : TypName → Bool
  | varchar | nvarchar | varbinary => true
  | _ => false

def isNumeric : TypName → Bool
  | numeric | decimal => true
  | _ => false

/-- The modifier is a fractional precision. -/
def isFractional : TypName → Bool
  | time | datetime2 | datetimeoffset => true
  | _ => false

end TypName

/-- `TypeName`.  `named` is false of `%TYPE` and of a type without a name, and `inSys` says whether
the name is one of the schema `sys`. -/
structure TypeName where
  named : Bool
  inSys : Bool
  name : TypName
  typmods : List Int
deriving DecidableEq, Repr

/-- `CreateFunctionStmt`; a procedure has no return type. -/
structure CreateFunctionStmt where
  parameters : List TypeName
  returnType : Option TypeName
deriving DecidableEq, Repr

/-- The types of a routine, in the order of the array. -/
def CreateFunctionStmt.types (stmt : CreateFunctionStmt) : List TypeName :=
  stmt.parameters ++ stmt.returnType.toList

/-- The dialect is T-SQL; the client is one of the TDS protocol. -/
structure Session where
  tsql : Bool
  tdsClient : Bool
deriving DecidableEq, Repr

inductive ProbinError where
  | numericSize (precision : Int) (type : TypName)
  | keywordMax (name : TypName)
  | lengthExceeds (size : Int) (max : Nat) (name : TypName)
  /-- `DirectFunctionCall2`, of `json_array_element` -/
  | functionReturnedNull
deriving DecidableEq, Repr

def ProbinError.message : ProbinError → String
  | .numericSize precision type =>
    s!"The size ({precision}) given to the type '{type.text}' exceeds the maximum allowed (38)"
  | .keywordMax name => s!"Incorrect syntax near the keyword '{name.text}'."
  | .lengthExceeds size max name =>
    s!"The size '{size}' exceeds the maximum allowed ({max}) for '{name.text}' datatype."
  | .functionReturnedNull => "function returned NULL"

def varHdrSz : Int := 4

def tsqlMaxTypmod : Int := -8000

def tsqlMaxNumPrecision : Int := 38

/-! ### Parsing -/

/-- `validate_numeric_typmods_hook` is called. -/
def Session.validates (s : Session) : Bool := s.tsql || s.tdsClient

def tsqlValidateNumericTypmods (type : TypName) (typmods : List Int) :
    Except ProbinError (List Int) :=
  let typmods := if typmods = [] then [18, 0] else typmods
  match typmods with
  | [precision] =>
    if precision > tsqlMaxNumPrecision then .error (.numericSize precision type)
    -- `list_append_unique`
    else .ok (if 0 ∈ typmods then typmods else typmods ++ [0])
  | [precision, _] =>
    if precision > tsqlMaxNumPrecision then .error (.numericSize precision type) else .ok typmods
  | _ => .ok typmods

/-- A type as the parser leaves it. -/
def parseType (s : Session) (t : TypeName) : Except ProbinError TypeName :=
  if s.validates && t.name.isNumeric then do
    return { t with typmods := ← tsqlValidateNumericTypmods t.name t.typmods }
  else .ok t

/-! ### Writing -/

/-- `pltsql_check_or_set_default_typmod_helper` -/
def checkOrSetDefaultTypmod (t : TypeName) (typmod : Int) (isCast isProcedureOrFunc : Bool) :
    Except ProbinError Int :=
  if t.named = false ∨ t.inSys = false then .ok typmod
  else if typmod = -1 then
    if t.name.maxLength.isSome then
      .ok ((if isCast then 30 else 1) + if isProcedureOrFunc then 0 else varHdrSz)
    else .ok (match t.name with
      | .smalldatetime => 0
      | .decimal => 1179652
      | .money => (19 <<< 16 ||| 4 : Nat) + varHdrSz
      | .smallmoney => (10 <<< 16 ||| 4 : Nat) + varHdrSz
      | _ => typmod)
  else if typmod = tsqlMaxTypmod then
    if t.name.hasMax then .ok (-1) else .error (.keywordMax t.name)
  else match t.name.maxLength with
    | some max =>
      if typmod > max + varHdrSz then .error (.lengthExceeds (typmod - varHdrSz) max t.name)
      else .ok typmod
    | none => .ok typmod

variable (tsql : Bool)

/-- An element of the array.  `tsql` says whether the dialect is T-SQL. -/
def packTypmods (t : TypeName) : Except ProbinError Int :=
  let check (typmod : Int) := if tsql then checkOrSetDefaultTypmod t typmod false true
    else .ok typmod
  match t.typmods with
  | [] => check (-1)
  | first :: rest => do
    let typmod ← check first
    return rest.foldl (fun acc m => acc * 2 ^ 16 + m + varHdrSz) typmod

def buildTypmodArray (stmt : CreateFunctionStmt) : Except ProbinError (List Int) := do
  let args ← stmt.parameters.mapM (packTypmods tsql)
  match stmt.returnType with
  | none => return args
  | some ret => return args ++ [← packTypmods tsql ret]

/-- `"%d"` -/
def decimalText (n : Int) : List UInt8 :=
  (if n < 0 then [45] else []) ++
    if n = 0 then [48] else (decimalDigits n.natAbs).map digitByte

/-- The JSON object in `probin`, with the texts of its strings. -/
structure ProbinObject where
  versionNum : List UInt8
  originalProbin : List UInt8
  typmodArray : List (List UInt8)
deriving DecidableEq, Repr

variable {name : TypName} {probin : ProbinObject}

/-- `ProbinJsonbBuilder`, for a routine without an original `probin`. -/
def probinWriter (stmt : CreateFunctionStmt) : Except ProbinError ProbinObject := do
  return ⟨decimalText 1, [], (← buildTypmodArray tsql stmt).map decimalText⟩

/-- The routine as it is written, parsed and stored. -/
def createFunction (s : Session) (stmt : CreateFunctionStmt) : Except ProbinError ProbinObject := do
  let parameters ← stmt.parameters.mapM (parseType s)
  match stmt.returnType with
  | none => probinWriter s.tsql ⟨parameters, none⟩
  | some ret => probinWriter s.tsql ⟨parameters, some (← parseType s ret)⟩

/-! ### Reading -/

/-- The value of the digits that a text begins with. -/
def leadingNumber (text : List UInt8) : Nat :=
  decimalValue ((text.takeWhile isDigit).map fun c => c.toNat - 48)

def atoi (text : List UInt8) : Int :=
  if text.head? = some 45 then -leadingNumber text.tail else leadingNumber text

/-- `json_array_element`: the text of an element, with its quotes. -/
def jsonArrayElement (arr : List (List UInt8)) (i : Nat) : Except ProbinError (List UInt8) :=
  match arr[i]? with
  | some text => .ok ([34] ++ text ++ [34])
  | none => .error .functionReturnedNull

def probinJsonReader (probin : ProbinObject) (len : Nat) : Except ProbinError (List Int) :=
  (List.range len).mapM fun i => do
    let text ← jsonArrayElement probin.typmodArray i
    return atoi (text.tail.dropLast)

/-- `adjustTypmod`, by the name of the type. -/
def adjustTypmod (name : TypName) (typmod : Int) : Int :=
  if typmod = 0 then -1
  else if name.maxLength.isSome ∧ typmod ≠ -1 then varHdrSz
  else 0

def probinReadArgsTypmods (probin : ProbinObject) (argtypes : List TypName) :
    Except ProbinError (List Int) := do
  let typmods ← probinJsonReader probin argtypes.length
  return (argtypes.zip typmods).map fun (name, typmod) => typmod + adjustTypmod name typmod

def probinReadRetTypmod (probin : ProbinObject) (nargs : Nat) (declared : TypName) :
    Except ProbinError Int := do
  let typmods ← probinJsonReader probin (nargs + 1)
  let typmod := typmods.getD nargs (-1)
  return typmod + adjustTypmod declared typmod

/-! ### What the modifiers should be -/

/-- **The modifier of a declared type**, as PostgreSQL computes it. -/
inductive Declares (s : Session) : TypeName → Int → Prop
  | length {named inSys : Bool} {name : TypName} {max n : Nat} (hname : name.maxLength = some max)
      (hpos : 1 ≤ n) (hmax : n ≤ max) : Declares s ⟨named, inSys, name, [n]⟩ (n + varHdrSz)
  | max {name : TypName} (hname : name.hasMax) (htsql : s.tsql = true) :
      Declares s ⟨true, true, name, [tsqlMaxTypmod]⟩ (-1)
  | numeric {named inSys : Bool} {name : TypName} (hname : name.isNumeric)
      (hvalidates : s.validates = true) :
      Declares s ⟨named, inSys, name, []⟩ ((18 <<< 16 ||| 0 : Nat) + varHdrSz)
  | precision {named inSys : Bool} {name : TypName} {p : Nat} (hname : name.isNumeric)
      (hpos : 1 ≤ p) (hp : p ≤ 38) :
      Declares s ⟨named, inSys, name, [p]⟩ ((p <<< 16 ||| 0 : Nat) + varHdrSz)
  | scale {named inSys : Bool} {name : TypName} {p q : Nat} (hname : name.isNumeric)
      (hpos : 1 ≤ p) (hp : p ≤ 38) (hq : q ≤ p) :
      Declares s ⟨named, inSys, name, [p, q]⟩ ((p <<< 16 ||| q : Nat) + varHdrSz)
  | fraction {named inSys : Bool} {name : TypName} {p : Nat} (hname : name.isFractional)
      (hp : p ≤ 7) : Declares s ⟨named, inSys, name, [p]⟩ p

/-- A fractional precision of 0, or a precision to which the parser does not add the scale. -/
def TypeName.Mishandled (s : Session) (t : TypeName) : Prop :=
  (t.name.isFractional ∧ t.typmods = [0]) ∨
    (s.validates = false ∧ t.name.isNumeric ∧ t.typmods.length = 1)

/-- The types of a routine have no modifiers, or some that their types admit. -/
def CreateFunctionStmt.Admitted (s : Session) (stmt : CreateFunctionStmt) : Prop :=
  ∀ t ∈ stmt.types, t.typmods = [] ∨ ∃ typmod, Declares s t typmod

open CreateFunctionStmt

/-- **What reading should give**: at the position of each declared type, its modifier. -/
structure TypmodsRight (s : Session) (stmt : CreateFunctionStmt) (probin : ProbinObject) :
    Prop where
  args : ∃ typmods, probinReadArgsTypmods probin (stmt.parameters.map TypeName.name) = .ok typmods ∧
    ∀ (i : Nat) (t : TypeName) (typmod : Int), stmt.parameters[i]? = some t →
      Declares s t typmod → typmods[i]? = some typmod
  ret : ∀ t typmod, stmt.returnType = some t → Declares s t typmod →
    probinReadRetTypmod probin stmt.parameters.length t.name = .ok typmod

/-! ### Texts -/

theorem leadingNumber_digits (n : Nat) :
    leadingNumber ((decimalDigits n).map digitByte) = n := by
  have hall : ∀ c ∈ (decimalDigits n).map digitByte, isDigit c = true :=
    forall_mem_map.mpr fun d hd => isDigit_digitByte (decimalDigits_lt hd)
  have hmap : ((decimalDigits n).map digitByte).map (fun c => c.toNat - 48) = decimalDigits n := by
    rw [map_map]
    refine (map_congr_left fun d hd => ?_).trans (map_id _)
    show (digitByte d).toNat - 48 = d
    rw [digitByte_toNat (decimalDigits_lt hd), Nat.add_sub_cancel_left]
  rw [leadingNumber, takeWhile_eq_self_iff.mpr hall, hmap, decimalValue_digits]

theorem atoi_decimalText (n : Int) : atoi (decimalText n) = n := by
  unfold decimalText
  by_cases hneg : n < 0
  · rw [if_pos hneg, if_neg (by omega), atoi, singleton_append, head?_cons, if_pos rfl,
      tail_cons, leadingNumber_digits]
    omega
  · rw [if_neg hneg, nil_append]
    by_cases hzero : n = 0
    · subst hzero
      decide
    · rw [if_neg hzero, atoi, leadingNumber_digits, if_neg ?_]
      · omega
      · intro hhead
        obtain ⟨d, hd, heq⟩ := mem_map.mp (mem_of_head? hhead)
        exact digitByte_ne (decimalDigits_lt hd) (by decide) heq

/-! ### One type -/

section
variable {tsql : Bool} {t : TypeName} {typmod : Int}

theorem checkOrSetDefaultTypmod_eq (hne : typmod ≠ -1) (hmax : typmod ≠ tsqlMaxTypmod)
    (hle : ∀ max, t.name.maxLength = some max → typmod ≤ max) :
    checkOrSetDefaultTypmod t typmod false true = .ok typmod := by
  unfold checkOrSetDefaultTypmod
  split
  · rfl
  cases hlen : t.name.maxLength with
  | none => rfl
  | some max =>
    have hfit : (max : Int) ≤ max + varHdrSz := Int.le_add_of_nonneg_right (by decide)
    exact if_neg (Int.not_lt.mpr (Int.le_trans (hle max hlen) hfit))

theorem packTypmods_eq {named inSys : Bool} {n : Nat} {rest : List Int}
    (hle : ∀ max, name.maxLength = some max → n ≤ max) :
    packTypmods tsql ⟨named, inSys, name, n :: rest⟩ =
      .ok (rest.foldl (fun acc m => acc * 2 ^ 16 + m + varHdrSz) n) := by
  have hcheck : (if tsql then checkOrSetDefaultTypmod ⟨named, inSys, name, n :: rest⟩ n false true
      else .ok (n : Int)) = .ok (n : Int) := by
    rw [checkOrSetDefaultTypmod_eq (by omega) (by unfold tsqlMaxTypmod; omega), ite_self]
    intro max hmax
    exact_mod_cast hle max hmax
  unfold packTypmods
  dsimp only
  rw [hcheck]
  rfl

theorem packTypmods_nil (h : t.typmods = []) : ∃ v, packTypmods tsql t = .ok v := by
  unfold packTypmods
  rw [h]
  dsimp only
  cases tsql with
  | false => exact ⟨_, rfl⟩
  | true =>
    rw [if_pos rfl]
    unfold checkOrSetDefaultTypmod
    split
    · exact ⟨_, rfl⟩
    rw [if_pos rfl]
    split <;> exact ⟨_, rfl⟩

theorem adjustTypmod_of_maxLength (h : name.maxLength = none) {v : Int} (hv : v ≠ 0) :
    adjustTypmod name v = 0 := by
  rw [adjustTypmod, if_neg hv, if_neg (by simp [h])]

theorem maxLength_of_isNumeric (h : name.isNumeric) : name.maxLength = none := by
  cases name <;> first | rfl | cases h

theorem maxLength_of_isFractional (h : name.isFractional) :
    name.maxLength = none ∧ name.isNumeric = false := by
  cases name <;> first | exact ⟨rfl, rfl⟩ | cases h

theorem not_mishandled {s : Session} {max : Nat} (h : t.name.maxLength = some max) :
    ¬t.Mishandled s := by
  rintro (⟨hfrac, -⟩ | ⟨-, hnum, -⟩)
  · rw [(maxLength_of_isFractional hfrac).1] at h
    cases h
  · rw [maxLength_of_isNumeric hnum] at h
    cases h

theorem not_mishandled_numeric {s : Session} (h : t.name.isNumeric)
    (hscale : ¬(s.validates = false ∧ t.typmods.length = 1)) : ¬t.Mishandled s := by
  rintro (⟨hfrac, -⟩ | ⟨hs, -, hone⟩)
  · rw [(maxLength_of_isFractional hfrac).2] at h
    cases h
  · exact hscale ⟨hs, hone⟩

theorem maxLength_of_hasMax (h : name.hasMax) : ∃ max, name.maxLength = some max := by
  cases name <;> first | exact ⟨_, rfl⟩ | cases h

theorem parseType_eq {s : Session} (h : t.name.isNumeric = false) : parseType s t = .ok t := by
  rw [parseType, h, Bool.and_false, if_neg (by decide)]

theorem isNumeric_of_maxLength {max : Nat} (h : name.maxLength = some max) :
    name.isNumeric = false := by
  cases name <;> first | rfl | cases h

/-- What the parser leaves of a numeric type with modifiers. -/
theorem parseType_numeric {s : Session} {named inSys : Bool} {p : Nat} {rest : List Int}
    (hname : name.isNumeric) (hpos : 1 ≤ p) (hp : p ≤ 38) (hrest : rest.length ≤ 1) :
    parseType s ⟨named, inSys, name, p :: rest⟩ = .ok ⟨named, inSys, name,
      p :: if s.validates ∧ rest = [] then [0] else rest⟩ := by
  have hle : ¬((p : Int) > tsqlMaxNumPrecision) := by unfold tsqlMaxNumPrecision; omega
  have hzero : (0 : Int) ≠ p := by omega
  unfold parseType
  cases hs : s.validates with
  | false => simp
  | true =>
    match rest, hrest with
    | [], _ => simp [hname, tsqlValidateNumericTypmods, hle, hzero, bind, Except.bind, pure,
        Except.pure]
    | [q], _ => simp [hname, tsqlValidateNumericTypmods, hle, bind, Except.bind, pure, Except.pure]

theorem packTypmods_scale {named inSys : Bool} {p q : Nat} (hname : name.isNumeric) (hq : q ≤ 38) :
    ∃ v, packTypmods tsql ⟨named, inSys, name, [p, q]⟩ = .ok v ∧
      v + adjustTypmod name v = (p <<< 16 ||| q : Nat) + varHdrSz := by
  have hlen := maxLength_of_isNumeric hname
  refine ⟨_, packTypmods_eq (by simp [hlen]), ?_⟩
  rw [← Nat.shiftLeft_add_eq_or_of_lt (by omega), Nat.shiftLeft_eq]
  rw [foldl_cons, foldl_nil, adjustTypmod_of_maxLength hlen (by unfold varHdrSz; omega)]
  omega

/-- **What is packed for a declared type**, and when it is read back. -/
theorem pack_declared {s : Session} (h : Declares s t typmod) :
    ∃ u v, parseType s t = .ok u ∧ packTypmods s.tsql u = .ok v ∧
      (v + adjustTypmod t.name v = typmod ↔ ¬t.Mishandled s) := by
  cases h with
  | @length named inSys name max n hname hpos hmax =>
    refine ⟨_, n, parseType_eq (isNumeric_of_maxLength hname), packTypmods_eq fun m hm => ?_,
      iff_of_true ?_ (not_mishandled hname)⟩
    · rw [hname] at hm
      exact Option.some.inj hm ▸ hmax
    · rw [adjustTypmod, if_neg (by omega), if_pos ⟨by rw [hname]; rfl, by omega⟩]
  | @max name hname htsql =>
    obtain ⟨max, hlen⟩ := maxLength_of_hasMax hname
    refine ⟨_, -1, parseType_eq (isNumeric_of_maxLength hlen), ?_,
      iff_of_true ?_ (not_mishandled hlen)⟩
    · rw [htsql]
      cases name <;> first | rfl | cases hname
    · rw [adjustTypmod, if_neg (by decide), if_neg fun h => h.2 rfl]
      rfl
  | @numeric named inSys name hname hvalidates =>
    obtain ⟨v, hv, hback⟩ := @packTypmods_scale name s.tsql named inSys 18 0 hname (by decide)
    refine ⟨⟨named, inSys, name, [18, 0]⟩, v, ?_, hv,
      iff_of_true hback (not_mishandled_numeric hname ?_)⟩
    · rw [parseType, hvalidates, hname]
      rfl
    · simp
  | @precision named inSys name p hname hpos hp =>
    have hparse := @parseType_numeric name s named inSys p [] hname hpos hp (by decide)
    cases hs : s.validates with
    | true =>
      obtain ⟨v, hv, hback⟩ := @packTypmods_scale name s.tsql named inSys p 0 hname (by decide)
      rw [hs, if_pos ⟨rfl, rfl⟩] at hparse
      exact ⟨_, v, hparse, hv, iff_of_true hback (not_mishandled_numeric hname (by simp [hs]))⟩
    | false =>
      have hlen := maxLength_of_isNumeric hname
      rw [hs, if_neg (by simp)] at hparse
      refine ⟨_, p, hparse, packTypmods_eq (by simp [hlen]),
        iff_of_false ?_ (not_not.mpr (Or.inr ⟨hs, hname, rfl⟩))⟩
      rw [adjustTypmod_of_maxLength hlen (by omega), Nat.or_zero, Nat.shiftLeft_eq, varHdrSz]
      omega
  | @scale named inSys name p q hname hpos hp hq =>
    have hparse := @parseType_numeric name s named inSys p [(q : Int)] hname hpos hp le_rfl
    obtain ⟨v, hv, hback⟩ := @packTypmods_scale name s.tsql named inSys p q hname (by omega)
    rw [if_neg (by simp)] at hparse
    exact ⟨_, v, hparse, hv, iff_of_true hback (not_mishandled_numeric hname (by simp))⟩
  | @fraction named inSys name p hname hp =>
    obtain ⟨hlen, hnum⟩ := maxLength_of_isFractional hname
    refine ⟨_, p, parseType_eq hnum, packTypmods_eq (by simp [hlen]), ?_⟩
    by_cases hzero : p = 0
    · subst hzero
      exact iff_of_false (show ¬(0 + (-1) : Int) = 0 by decide) (not_not.mpr (Or.inl ⟨hname, rfl⟩))
    · rw [adjustTypmod_of_maxLength hlen (by omega), Int.add_zero]
      refine iff_of_true rfl ?_
      rintro (⟨-, heq⟩ | ⟨-, hn, -⟩)
      · exact hzero (by simpa using heq)
      · rw [hnum] at hn
        cases hn

theorem pack_nil {s : Session} (h : t.typmods = []) :
    ∃ u v, parseType s t = .ok u ∧ packTypmods s.tsql u = .ok v := by
  obtain ⟨named, inSys, name, typmods⟩ := t
  subst h
  cases hcase : s.validates && name.isNumeric with
  | true =>
    rw [Bool.and_eq_true] at hcase
    obtain ⟨u, v, hu, hv, -⟩ := pack_declared (.numeric hcase.2 hcase.1)
    exact ⟨u, v, hu, hv⟩
  | false =>
    obtain ⟨v, hv⟩ := @packTypmods_nil s.tsql ⟨named, inSys, name, []⟩ rfl
    exact ⟨_, v, by rw [parseType, hcase, if_neg (by decide)], hv⟩

end

/-! ### A routine -/

/-- What is packed for a type, when it is admitted. -/
def packed (s : Session) (t : TypeName) : Int :=
  (parseType s t >>= packTypmods s.tsql).toOption.getD 0

def readBack (s : Session) (t : TypeName) : Int := packed s t + adjustTypmod t.name (packed s t)

section
variable {s : Session} {stmt : CreateFunctionStmt}

theorem packed_eq {t u : TypeName} {v : Int} (hu : parseType s t = .ok u)
    (hv : packTypmods s.tsql u = .ok v) : packed s t = v := by
  rw [packed, hu, ok_bind, hv]
  rfl

theorem CreateFunctionStmt.Admitted.exists_parsed (h : stmt.Admitted s) {t : TypeName}
    (ht : t ∈ stmt.types) :
    ∃ u, parseType s t = .ok u ∧ packTypmods s.tsql u = .ok (packed s t) := by
  obtain ⟨u, v, hu, hv⟩ : ∃ u v, parseType s t = .ok u ∧ packTypmods s.tsql u = .ok v := by
    rcases h t ht with hnil | ⟨typmod, hdecl⟩
    · exact pack_nil hnil
    · obtain ⟨u, v, hu, hv, -⟩ := pack_declared hdecl
      exact ⟨u, v, hu, hv⟩
  exact ⟨u, hu, by rw [packed_eq hu hv, hv]⟩

/-- Parsed and packed one after the other, the types give the list of their packed modifiers. -/
theorem exists_mapM_parseType {ts : List TypeName}
    (h : ∀ t ∈ ts, ∃ u, parseType s t = .ok u ∧ packTypmods s.tsql u = .ok (packed s t)) :
    ∃ us, ts.mapM (parseType s) = .ok us ∧
      us.mapM (packTypmods s.tsql) = .ok (ts.map (packed s)) := by
  induction ts with
  | nil => exact ⟨[], rfl, rfl⟩
  | cons t ts ih =>
    obtain ⟨u, hu, hv⟩ := h t mem_cons_self
    obtain ⟨us, hus, hvs⟩ := ih fun t ht => h t (mem_cons_of_mem _ ht)
    refine ⟨u :: us, ?_, ?_⟩
    · rw [mapM_cons, hu, ok_bind, hus]
      rfl
    · rw [mapM_cons, hv, ok_bind, hvs]
      rfl

theorem createFunction_eq (h : stmt.Admitted s) : createFunction s stmt =
    .ok ⟨decimalText 1, [], (stmt.types.map (packed s)).map decimalText⟩ := by
  obtain ⟨us, hus, hvs⟩ := exists_mapM_parseType fun t (ht : t ∈ stmt.parameters) =>
    h.exists_parsed (mem_append_left _ ht)
  rw [createFunction, hus, ok_bind, types, map_append]
  cases hret : stmt.returnType with
  | none => simp [probinWriter, buildTypmodArray, hvs, bind, Except.bind, pure, Except.pure]
  | some ret =>
    obtain ⟨u, hu, hv⟩ := h.exists_parsed (show ret ∈ stmt.types by simp [types, hret])
    simp [probinWriter, buildTypmodArray, hvs, hu, hv, bind, Except.bind, pure, Except.pure]

theorem probinJsonReader_eq {vs : List Int} (h : probin.typmodArray = vs.map decimalText)
    {len : Nat} (hlen : len ≤ vs.length) : probinJsonReader probin len = .ok (vs.take len) := by
  have hstep : ∀ i ∈ range len, (do
      let text ← jsonArrayElement probin.typmodArray i
      return atoi (text.tail.dropLast)) = (.ok (vs.getD i 0) : Except ProbinError Int) := by
    intro i hi
    have hi' : i < vs.length := Nat.lt_of_lt_of_le (mem_range.mp hi) hlen
    rw [jsonArrayElement, h, getElem?_map, getElem?_eq_getElem hi', getD_eq_getElem _ _ hi']
    simp [ok_bind, atoi_decimalText, pure, Except.pure]
  rw [probinJsonReader, mapM_ok hstep]
  refine congrArg Except.ok (ext_getElem (by simp [hlen]) fun i hi _ => ?_)
  rw [length_map, length_range] at hi
  rw [getElem_map, getElem_range, getElem_take, getD_eq_getElem _ _ (Nat.lt_of_lt_of_le hi hlen)]

section

variable (hp : probin.typmodArray = (stmt.types.map (packed s)).map decimalText)
include hp

theorem probinReadArgsTypmods_eq :
    probinReadArgsTypmods probin (stmt.parameters.map TypeName.name) =
      .ok (stmt.parameters.map (readBack s)) := by
  have htake : (stmt.types.map (packed s)).take (stmt.parameters.map TypeName.name).length =
      stmt.parameters.map (packed s) := by
    rw [types, map_append, length_map]
    exact take_left' (length_map _)
  rw [probinReadArgsTypmods, probinJsonReader_eq hp (by simp [types]), htake,
    ok_bind, zip_map', map_map]
  rfl

theorem probinReadRetTypmod_eq {ret : TypeName} (hret : stmt.returnType = some ret) :
    probinReadRetTypmod probin stmt.parameters.length ret.name = .ok (readBack s ret) := by
  have htypes : stmt.types = stmt.parameters ++ [ret] := by
    rw [types, hret, Option.toList_some]
  have hlen : stmt.parameters.length + 1 ≤ (stmt.types.map (packed s)).length := by
    simp [htypes]
  rw [probinReadRetTypmod, probinJsonReader_eq hp hlen, ok_bind]
  simp [htypes, readBack, pure, Except.pure]

theorem typmodsRight_iff :
    TypmodsRight s stmt probin ↔
      ∀ t ∈ stmt.types, ∀ typmod, Declares s t typmod → readBack s t = typmod := by
  constructor
  · rintro ⟨⟨typmods, hread, hargs⟩, hret⟩ t ht typmod hdecl
    rw [probinReadArgsTypmods_eq hp] at hread
    rcases mem_append.mp ht with ht | ht
    · obtain ⟨i, hi⟩ := mem_iff_getElem?.mp ht
      have hat := hargs i t typmod hi hdecl
      rw [← Except.ok.inj hread, getElem?_map, hi] at hat
      exact Option.some.inj hat
    · have hsome := Option.mem_toList.mp ht
      have hat := hret t typmod hsome hdecl
      rw [probinReadRetTypmod_eq hp hsome] at hat
      exact Except.ok.inj hat
  · intro hall
    refine ⟨⟨_, probinReadArgsTypmods_eq hp, ?_⟩, ?_⟩
    · intro i t typmod hi hdecl
      rw [getElem?_map, hi, Option.map_some,
        hall t (mem_append_left _ (mem_of_getElem? hi)) typmod hdecl]
    · intro t typmod hsome hdecl
      have hmem : t ∈ stmt.types := mem_append_right _ (Option.mem_toList.mpr hsome)
      rw [probinReadRetTypmod_eq hp hsome, hall t hmem typmod hdecl]

end

end

/-- **All modifiers are read back**, but fractional precisions of 0, and that of a numeric type with
a precision alone where the parser does not add the scale. -/
theorem typmods_right_iff (s : Session) (stmt : CreateFunctionStmt) (h : stmt.Admitted s) :
    ∃ probin, createFunction s stmt = .ok probin ∧
      (TypmodsRight s stmt probin ↔ ∀ t ∈ stmt.types, ¬t.Mishandled s) := by
  refine ⟨_, createFunction_eq h, (typmodsRight_iff rfl).trans (forall₂_congr fun t ht => ?_)⟩
  have hdecl : ∀ typmod, Declares s t typmod → (readBack s t = typmod ↔ ¬t.Mishandled s) := by
    intro typmod hdecl
    obtain ⟨u, v, hu, hv, hiff⟩ := pack_declared hdecl
    rw [readBack, packed_eq hu hv, hiff]
  constructor
  · intro hall hmis
    rcases h t ht with hnil | ⟨typmod, hd⟩
    · rcases hmis with ⟨-, hzero⟩ | ⟨-, -, hone⟩
      · rw [hnil] at hzero
        cases hzero
      · rw [hnil] at hone
        cases hone
    · exact (hdecl typmod hd).mp (hall typmod hd) hmis
  · exact fun hnot typmod hd => (hdecl typmod hd).mpr hnot

/-- `@a varchar(10), @b numeric(10)`, with `varchar(max)` as the return type. -/
def routine : CreateFunctionStmt :=
  ⟨[⟨true, true, .varchar, [10]⟩, ⟨true, false, .numeric, [10]⟩],
    some ⟨true, true, .varchar, [-8000]⟩⟩

theorem typmods_right_routine :
    ∃ probin, createFunction ⟨true, true⟩ routine = .ok probin ∧
      TypmodsRight ⟨true, true⟩ routine probin := by
  have hcases : ∀ t ∈ routine.types, t = ⟨true, true, .varchar, [10]⟩ ∨
      t = ⟨true, false, .numeric, [10]⟩ ∨ t = ⟨true, true, .varchar, [-8000]⟩ := by
    simp [routine, CreateFunctionStmt.types]
  obtain ⟨probin, hwrite, hiff⟩ := typmods_right_iff ⟨true, true⟩ routine fun t ht => by
    rcases hcases t ht with rfl | rfl | rfl
    · exact Or.inr ⟨_, .length (n := 10) rfl (by decide) (by decide)⟩
    · exact Or.inr ⟨_, .precision (p := 10) rfl (by decide) (by decide)⟩
    · exact Or.inr ⟨_, .max rfl rfl⟩
  refine ⟨probin, hwrite, hiff.mpr fun t ht => ?_⟩
  rcases hcases t ht with rfl | rfl | rfl
  all_goals simp [TypeName.Mishandled, TypName.isNumeric, TypName.isFractional, Session.validates]

/-- `numeric(10)` comes back, and `time(0)` without a modifier. -/
theorem zero_fraction_lost :
    (createFunction ⟨true, true⟩ ⟨[⟨true, false, .numeric, [10]⟩, ⟨true, true, .time, [0]⟩], none⟩
        >>= fun probin => probinReadArgsTypmods probin [.numeric, .time]) = .ok [655364, -1] ∧
      Declares ⟨true, true⟩ ⟨true, true, .time, [0]⟩ 0 :=
  ⟨by decide +kernel, .fraction (p := 0) rfl (by decide)⟩

end Babelfish.Tsql.Probin
