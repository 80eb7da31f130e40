import Mathlib

/-!
# Cleaning the text of a date

`clean_input_str` copies a text into a buffer of `MAXDATELEN + 1` bytes, without the spaces that do
not matter.  One step of the loop writes one byte or two, but asks only whether there is room for
one of them and the terminator.

* `cleanedLength`: the number of bytes that a text takes.
* `cleanLoop_spec`: when the loop comes to the end of a text, and with how many bytes.
* `cleanInputStr_inside_iff`: the texts that it copies inside the buffer.
-/

namespace Babelfish.Common

/-- `DATE_TIME`, `DATE_TIME_2` and `DATE_TIME_OFFSET` -/
inductive DateTimeContext where
  | dateTime | dateTime2 | dateTimeOffset
deriving DecidableEq, Repr

/-- `context_str` -/
def DateTimeContext.name : DateTimeContext → String
  | dateTime => "datetime"
  | dateTime2 => "datetime2"
  | dateTimeOffset => "datetimeoffset"

/-- The classes of characters that C knows, by its locale: no letter is a digit, and punctuation is
in none of them. -/
structure CharClasses where
  isspace : Char → Bool
  isalpha : Char → Bool
  isdigit : Char → Bool
  alpha_digit : ∀ c, isalpha c = true → isdigit c = false
  punctuation : ∀ c ∈ [',', ':', '.', '/', '+', '-'],
    isspace c = false ∧ isalpha c = false ∧ isdigit c = false

/-- The variables of the loop.  `last` is `last_non_space` with the character there, and `j` is the
length of `result`. -/
structure Cleaning where
  i : Nat := 0
  last : Option (Nat × Char) := none
  numColons : Nat := 0
  extraSpaces : Bool := false
  result : List Char := []

section

variable (maxdatelen : Nat) (cls : CharClasses) (context : DateTimeContext)

/-- What is written for a letter, with `other` for the digits, or for a digit, with `other` for the
letters. -/
def Cleaning.word (st : Cleaning) (other : Char → Bool) (c : Char) : List Char :=
  match st.last with
  | none => [c]
  | some (pos, l) =>
    if ¬ cls.isdigit l ∧ ¬ cls.isalpha l then [c]
    else if other l then [' ', c]
    else if pos + 1 = st.i then [c]
    else [' ', c]

/-- What is written for a character, unless it is refused. -/
def Cleaning.piece (st : Cleaning) (c : Char) : Option (List Char) :=
  if context = .dateTime ∧ c ∈ ['/', '-', '.'] then some ['.']
  else if cls.isalpha c then some (st.word cls cls.isdigit c)
  else if cls.isdigit c then some (st.word cls cls.isalpha c)
  else if c = ',' ∨ c = ':' ∨ (context ≠ .dateTime ∧ c ∈ ['.', '/', '+', '-']) then
    if context = .dateTimeOffset ∧ c ∈ ['+', '-'] ∧ 0 < st.numColons then some [' ', c]
    else some [c]
  else none

def Cleaning.countColon (st : Cleaning) (c : Char) : Cleaning :=
  if context = .dateTimeOffset ∧ c = ':' then { st with numColons := st.numColons + 1 } else st

/-- The loop: whether it comes to the end of the text, and the variables then. -/
def cleanLoop : List Char → Cleaning → Bool × Cleaning
  | [], st => (true, st)
  | c :: str, st =>
    if cls.isspace c then
      cleanLoop str { st with i := st.i + 1, extraSpaces := st.extraSpaces || st.i ≠ 0 }
    else if st.result.length ≥ maxdatelen then (false, st)
    else
      let st := st.countColon context c
      match st.piece cls context c with
      | none => (false, st)
      | some cs =>
        cleanLoop str { st with i := st.i + 1, last := some (st.i, c), result := st.result ++ cs }

/-- `clean_input_str`: the cleaned text and `*contains_extra_spaces`, or the error. -/
def cleanInputStr (str : List Char) : Except String (List Char × Bool) :=
  match cleanLoop maxdatelen cls context str {} with
  | (true, st) => .ok (st.result, st.extraSpaces)
  | (false, _) => .error ("invalid input syntax for type " ++ context.name ++ ": \"" ++
      String.ofList str ++ "\"")

/-- The bytes of the buffer that are written, from the first one on, with the terminator. -/
def cleanWrites (str : List Char) : List Char :=
  match cleanLoop maxdatelen cls context str {} with
  | (true, st) => st.result ++ [Char.ofNat 0]
  | (false, st) => st.result

end

variable {maxdatelen : Nat} {cls : CharClasses} {context : DateTimeContext} {st : Cleaning}
  {c : Char} {cs before : List Char}

/-! ### The bytes that a text takes -/

section

variable (cls context)

def CharClasses.isWord (c : Char) : Bool := cls.isalpha c || cls.isdigit c

/-- The character is accepted. -/
def admitted (c : Char) : Bool :=
  cls.isWord c || [',', ':', '.', '/', '-'].contains c || (c == '+' && context != .dateTime)

/-- A space is put in front of the character, where `before` is the text before it, backwards:
between a letter and a digit, between two words, and in front of a time zone. -/
def spaced (before : List Char) (c : Char) : Bool :=
  ((before.dropWhile cls.isspace).head?.any fun l => cls.isWord l && cls.isWord c &&
      (cls.isalpha l != cls.isalpha c || before.head? != some l)) ||
    (context == .dateTimeOffset && ['+', '-'].contains c && before.contains ':')

/-- The length of the cleaned text, for a text that is given backwards. -/
def cleanedLength : List Char → Nat
  | [] => 0
  | c :: before =>
    if cls.isspace c then cleanedLength before
    else cleanedLength before + if spaced cls context before c then 2 else 1

/-- The text takes one byte more than there is room for, the last two in one step. -/
structure Overlong (maxdatelen : Nat) (str : List Char) : Prop where
  admitted : ∀ c ∈ str, cls.isspace c = true ∨ admitted cls context c = true
  length : cleanedLength cls context str.reverse = maxdatelen + 1
  spaced : ∃ c before, str.reverse.dropWhile cls.isspace = c :: before ∧
    spaced cls context before c = true

end

theorem cleanedLength_dropWhile (before : List Char) :
    cleanedLength cls context (before.dropWhile cls.isspace) =
      cleanedLength cls context before := by
  induction before with
  | nil => rfl
  | cons c before ih =>
    rw [List.dropWhile_cons]
    split_ifs with hspace
    · rw [ih, cleanedLength, if_pos hspace]
    · rfl

/-! ### The loop -/

/-- The variables when the text `before`, given backwards, has been read. -/
structure Cleaning.At (cls : CharClasses) (context : DateTimeContext) (before : List Char)
    (st : Cleaning) : Prop where
  i : st.i = before.length
  last : st.last.map Prod.snd = (before.dropWhile cls.isspace).head?
  pos : ∀ pos l, st.last = some (pos, l) →
    pos < st.i ∧ (pos + 1 = st.i ↔ before.head? = some l)
  colons : context = .dateTimeOffset → (0 < st.numColons ↔ ':' ∈ before)
  length : st.result.length = cleanedLength cls context before

theorem CharClasses.notMem (hc : cls.isWord c = true) : c ∉ [',', ':', '.', '/', '+', '-'] := by
  intro hmem
  obtain ⟨-, halpha, hdigit⟩ := cls.punctuation c hmem
  rw [isWord, halpha, hdigit] at hc
  cases hc

/-- `other` is the class of words that `c` is not in. -/
theorem Cleaning.At.length_word (h : st.At cls context before) (hc : cls.isWord c = true)
    {other : Char → Bool}
    (hother : ∀ l, cls.isWord l = true → other l = (cls.isalpha l != cls.isalpha c)) :
    (st.word cls other c).length = if spaced cls context before c then 2 else 1 := by
  have hsign : ['+', '-'].contains c = false := by
    have := CharClasses.notMem hc
    simp_all
  have hlast := h.last
  unfold Cleaning.word spaced
  rw [hsign, ← hlast]
  cases hst : st.last with
  | none => simp
  | some p =>
    obtain ⟨pos, l⟩ := p
    have hpos := (h.pos pos l hst).2
    by_cases hl : cls.isWord l = true
    · have hword : ¬ (¬ cls.isdigit l = true ∧ ¬ cls.isalpha l = true) := by
        rintro ⟨hdigit, halpha⟩
        simp [CharClasses.isWord, hdigit, halpha] at hl
      simp only [hword, if_false, hother l hl, hpos]
      by_cases hdiff : (cls.isalpha l != cls.isalpha c) = true <;>
        by_cases hnext : before.head? = some l <;> simp [hdiff, hnext, hl, hc]
    · have hword : ¬ cls.isdigit l = true ∧ ¬ cls.isalpha l = true := by
        simpa [CharClasses.isWord, and_comm] using hl
      simp [hword, hl]

theorem Cleaning.At.piece_eq (h : st.At cls context before) (hadm : admitted cls context c = true) :
    ∃ cs, st.piece cls context c = some cs ∧
      cs.length = if spaced cls context before c then 2 else 1 := by
  unfold Cleaning.piece
  by_cases hword : cls.isWord c = true
  · have hnot : ¬ (context = .dateTime ∧ c ∈ ['/', '-', '.']) := by
      have := CharClasses.notMem hword
      simp_all
    rw [if_neg hnot]
    by_cases halpha : cls.isalpha c = true
    · refine ⟨_, if_pos halpha, h.length_word hword fun l hl => ?_⟩
      have := cls.alpha_digit l
      simp only [CharClasses.isWord] at hl
      grind
    · have hdigit : cls.isdigit c = true := by simpa [CharClasses.isWord, halpha] using hword
      rw [if_neg halpha, if_pos hdigit]
      refine ⟨_, rfl, h.length_word hword fun l hl => ?_⟩
      grind
  · have halpha : ¬ cls.isalpha c = true := fun hcon => hword (by simp [CharClasses.isWord, hcon])
    have hdigit : ¬ cls.isdigit c = true := fun hcon => hword (by simp [CharClasses.isWord, hcon])
    have hspaced : spaced cls context before c =
        (context == .dateTimeOffset && ['+', '-'].contains c && before.contains ':') := by
      simp [spaced, hword]
    have hcolons := h.colons
    rw [if_neg halpha, if_neg hdigit, hspaced]
    simp only [admitted, hword, Bool.false_or, Bool.or_eq_true, List.contains_iff_mem,
      List.mem_cons, List.not_mem_nil, or_false, Bool.and_eq_true, beq_iff_eq] at hadm
    by_cases hcolon : ':' ∈ before <;>
      rcases hadm with (rfl | rfl | rfl | rfl | rfl) | ⟨rfl, hne⟩ <;> cases context <;>
      simp_all

theorem Cleaning.piece_none (hadm : admitted cls context c = false) :
    st.piece cls context c = none := by
  simp only [admitted, CharClasses.isWord, Bool.or_eq_false_iff] at hadm
  obtain ⟨⟨⟨halpha, hdigit⟩, hother⟩, hplus⟩ := hadm
  unfold Cleaning.piece
  cases context <;> simp_all

theorem Cleaning.At.space (h : st.At cls context before) (hc : cls.isspace c = true) :
    Cleaning.At cls context (c :: before)
      { st with i := st.i + 1, extraSpaces := st.extraSpaces || st.i ≠ 0 } where
  i := by simp [h.i]
  last := by rw [List.dropWhile_cons, if_pos hc, ← h.last]
  pos := by
    intro pos l hst
    have hpos := (h.pos pos l hst).1
    have hlast : (before.dropWhile cls.isspace).head? = some l := by rw [← h.last, hst]; rfl
    have hl := List.head?_dropWhile_not cls.isspace before
    rw [hlast] at hl
    refine ⟨by show pos < st.i + 1; omega, iff_of_false (by show ¬ pos + 1 = st.i + 1; omega) ?_⟩
    rw [List.head?_cons]
    rintro ⟨⟩
    simp_all
  colons := by
    intro hcontext
    have hne : c ≠ ':' := by
      rintro rfl
      have := (cls.punctuation ':' (by simp)).1
      simp_all
    simp [h.colons hcontext, hne.symm]
  length := by rw [cleanedLength, if_pos hc, ← h.length]

/-- Colons are counted in front of the look at the character, which is then none of the signs. -/
theorem Cleaning.piece_countColon :
    (st.countColon context c).piece cls context c = st.piece cls context c := by
  unfold Cleaning.countColon
  split_ifs with hcolon
  · simp [Cleaning.piece, Cleaning.word, hcolon.2]
  · rfl

theorem Cleaning.result_countColon : (st.countColon context c).result = st.result := by
  unfold Cleaning.countColon
  split_ifs <;> rfl

theorem Cleaning.At.next (h : st.At cls context before) (hc : cls.isspace c = false)
    (hcs : cs.length = if spaced cls context before c then 2 else 1) :
    Cleaning.At cls context (c :: before)
      { st.countColon context c with
        i := (st.countColon context c).i + 1
        last := some ((st.countColon context c).i, c)
        result := (st.countColon context c).result ++ cs } where
  i := by simp [Cleaning.countColon, h.i, apply_ite Cleaning.i]
  last := by simp [hc]
  pos := by simp
  colons := by
    intro hcontext
    have hcolons := h.colons hcontext
    by_cases hcolon : c = ':'
    · simp [Cleaning.countColon, hcontext, hcolon]
    · simp [Cleaning.countColon, hcolon, hcolons, Ne.symm hcolon]
  length := by rw [List.length_append, hcs, result_countColon, h.length, cleanedLength, hc]; rfl

theorem forall_split_cons {str : List Char} (Q : List Char → Char → Prop) :
    (∀ a d b, c :: str = a ++ d :: b → Q a d) ↔
      Q [] c ∧ ∀ a d b, str = a ++ d :: b → Q (c :: a) d := by
  constructor
  · intro hall
    exact ⟨hall [] c str rfl, fun a d b hstr => hall (c :: a) d b (by rw [hstr]; rfl)⟩
  · rintro ⟨hhead, htail⟩ a d b hstr
    cases a with
    | nil =>
      cases hstr
      exact hhead
    | cons a as =>
      cases hstr
      exact htail as d b rfl

/-- When the loop comes to the end, and with how many bytes. -/
theorem cleanLoop_spec (maxdatelen : Nat) (str : List Char) (h : st.At cls context before) :
    ((cleanLoop maxdatelen cls context str st).1 = true ↔
      ∀ a c b, str = a ++ c :: b → cls.isspace c = false →
        admitted cls context c = true ∧
          cleanedLength cls context (a.reverse ++ before) < maxdatelen) ∧
    ((cleanLoop maxdatelen cls context str st).1 = true →
      (cleanLoop maxdatelen cls context str st).2.result.length =
        cleanedLength cls context (str.reverse ++ before)) ∧
    (st.result.length ≤ maxdatelen + 1 →
      (cleanLoop maxdatelen cls context str st).2.result.length ≤ maxdatelen + 1) := by
  induction str generalizing st before with
  | nil => simp [cleanLoop, h.length]
  | cons c str ih =>
    have hrev : ∀ a : List Char, (c :: a).reverse ++ before = a.reverse ++ c :: before := by simp
    rw [forall_split_cons fun a d => cls.isspace d = false → admitted cls context d = true ∧
      cleanedLength cls context (a.reverse ++ before) < maxdatelen]
    simp only [hrev]
    rw [cleanLoop]
    by_cases hspace : cls.isspace c = true
    · rw [if_pos hspace]
      have := ih (h.space hspace)
      simpa [hspace] using this
    · have hc : cls.isspace c = false := by simpa using hspace
      rw [if_neg hspace]
      by_cases hfull : st.result.length ≥ maxdatelen
      · have hlong : ¬ cleanedLength cls context before < maxdatelen :=
          Nat.not_lt.mpr (h.length ▸ hfull)
        rw [if_pos hfull]
        simp [hc, hlong]
      · have hroom : cleanedLength cls context before < maxdatelen := h.length ▸ Nat.not_le.mp hfull
        rw [if_neg hfull]
        dsimp only
        rw [Cleaning.piece_countColon]
        by_cases hadm : admitted cls context c = true
        · obtain ⟨cs, hpiece, hcs⟩ := h.piece_eq hadm
          obtain ⟨haccepts, hlength, hinside⟩ := ih (h.next hc hcs)
          have hle : cs.length ≤ 2 := by
            rw [hcs]
            split_ifs
            · exact Nat.le_refl 2
            · exact Nat.le_succ 1
          rw [hpiece]
          refine ⟨?_, hlength, fun _ => hinside ?_⟩
          · rw [haccepts]
            simp [hadm, hroom]
          · dsimp only
            rw [List.length_append, Cleaning.result_countColon]
            omega
        · rw [Cleaning.piece_none (by simpa using hadm)]
          simp [hc, hadm, Cleaning.result_countColon]

/-! ### The buffer -/

theorem cleanedLength_mono {before' : List Char} (h : before <:+ before') :
    cleanedLength cls context before ≤ cleanedLength cls context before' := by
  induction before' with
  | nil => exact Nat.le_of_eq (congrArg _ (List.suffix_nil.mp h))
  | cons c before' ih =>
    rcases List.suffix_cons_iff.mp h with rfl | h
    · exact Nat.le_refl _
    · have := ih h
      rw [cleanedLength]
      split_ifs <;> omega

theorem suffix_dropWhile (hc : cls.isspace c = false) {text : List Char}
    (h : c :: before <:+ text) : c :: before <:+ text.dropWhile cls.isspace := by
  induction text with
  | nil => exact absurd (List.suffix_nil.mp h) (List.cons_ne_nil _ _)
  | cons d text ih =>
    rw [List.dropWhile_cons]
    split_ifs with hd
    · rcases List.suffix_cons_iff.mp h with heq | h
      · cases heq
        rw [hc] at hd
        cases hd
      · exact ih h
    · exact h

theorem Cleaning.At.init (cls : CharClasses) (context : DateTimeContext) :
    Cleaning.At cls context [] {} where
  i := rfl
  last := rfl
  pos := nofun
  colons := by simp
  length := rfl

theorem last_of_dropWhile {str : List Char}
    (hdrop : str.reverse.dropWhile cls.isspace = c :: before) :
    cls.isspace c = false ∧ ∃ spaces, str = before.reverse ++ c :: spaces := by
  have hhead := List.head?_dropWhile_not cls.isspace str.reverse
  obtain ⟨spaces, hspaces⟩ := hdrop ▸ List.dropWhile_suffix cls.isspace (l := str.reverse)
  rw [hdrop] at hhead
  refine ⟨by simpa using hhead, spaces.reverse, ?_⟩
  rw [← str.reverse_reverse, ← hspaces]
  simp

/-- A text of `MAXDATELEN + 1` bytes is accepted exactly if its last character takes two. -/
theorem overlong_iff {str : List Char}
    (hlength : cleanedLength cls context str.reverse = maxdatelen + 1) :
    (cleanLoop maxdatelen cls context str {}).1 = true ↔ Overlong cls context maxdatelen str := by
  have hloop := (cleanLoop_spec maxdatelen str (Cleaning.At.init cls context)).1
  simp only [List.append_nil] at hloop
  rw [hloop]
  constructor
  · intro hall
    refine ⟨fun c hc => ?_, hlength, ?_⟩
    · obtain ⟨a, b, hstr⟩ := List.append_of_mem hc
      cases hspace : cls.isspace c with
      | true => exact .inl rfl
      | false => exact .inr (hall a c b hstr hspace).1
    · rw [← cleanedLength_dropWhile] at hlength
      cases hdrop : str.reverse.dropWhile cls.isspace with
      | nil =>
        rw [hdrop] at hlength
        cases hlength
      | cons c before =>
        obtain ⟨hc, spaces, hstr⟩ := last_of_dropWhile hdrop
        have hroom := (hall _ _ _ hstr hc).2
        rw [List.reverse_reverse] at hroom
        rw [hdrop, cleanedLength, if_neg (by simp [hc])] at hlength
        refine ⟨c, before, rfl, ?_⟩
        by_contra hcon
        rw [if_neg hcon] at hlength
        omega
  · rintro ⟨hadm, -, d, before, hdrop, hspaced⟩ a c b hstr hc
    refine ⟨(hadm c (by simp [hstr])).resolve_left (by simp [hc]), ?_⟩
    rw [← cleanedLength_dropWhile, hdrop, cleanedLength,
      if_neg (by simp [(last_of_dropWhile hdrop).1]), if_pos hspaced] at hlength
    have hsuffix : c :: a.reverse <:+ d :: before := by
      rw [← hdrop]
      exact suffix_dropWhile hc ⟨b.reverse, by simp [hstr]⟩
    have hbefore : a.reverse <:+ before := by
      rcases List.suffix_cons_iff.mp hsuffix with heq | h
      · cases heq
        exact List.suffix_refl _
      · exact (List.suffix_cons c a.reverse).trans h
    have : cleanedLength cls context a.reverse ≤ cleanedLength cls context before :=
      cleanedLength_mono hbefore
    omega

/-- **When all writes stay inside the buffer and longer texts are refused**: for every text but
those whose cleaned form has one byte more than there is room for, the last two for one character,
which the test in front of it lets through. -/
theorem cleanInputStr_inside_iff (maxdatelen : Nat) (cls : CharClasses) (context : DateTimeContext)
    (str : List Char) :
    ((cleanWrites maxdatelen cls context str).length ≤ maxdatelen + 1 ∧
      (maxdatelen < cleanedLength cls context str.reverse →
        ∃ e, cleanInputStr maxdatelen cls context str = .error e)) ↔
      ¬ Overlong cls context maxdatelen str := by
  obtain ⟨-, hlength, hinside⟩ := cleanLoop_spec maxdatelen str (Cleaning.At.init cls context)
  replace hinside := hinside (Nat.zero_le _)
  rw [List.append_nil] at hlength
  have hover : Overlong cls context maxdatelen str ↔
      cleanedLength cls context str.reverse = maxdatelen + 1 ∧
        (cleanLoop maxdatelen cls context str {}).1 = true :=
    ⟨fun h => ⟨h.length, (overlong_iff h.length).mpr h⟩, fun h => (overlong_iff h.1).mp h.2⟩
  rw [hover]
  unfold cleanWrites cleanInputStr
  generalize cleanLoop maxdatelen cls context str {} = final at hlength hinside ⊢
  obtain ⟨accepted, st⟩ := final
  dsimp only at hlength hinside ⊢
  cases accepted with
  | false => simpa using hinside
  | true =>
    have hlen := hlength rfl
    constructor
    · rintro ⟨hwrites, -⟩ ⟨htotal, -⟩
      rw [List.length_append, List.length_singleton] at hwrites
      omega
    · intro hnot
      have hroom : cleanedLength cls context str.reverse ≤ maxdatelen := by
        by_contra hcon
        exact hnot ⟨by omega, rfl⟩
      refine ⟨?_, fun hmore => absurd hroom (Nat.not_le.mpr hmore)⟩
      rw [List.length_append, List.length_singleton]
      omega

def ascii : CharClasses where
  isspace := Char.isWhitespace
  isalpha := Char.isAlpha
  isdigit := Char.isDigit
  alpha_digit := by
    intro c
    simp only [Char.isAlpha, Char.isDigit, Char.isUpper, Char.isLower, Bool.or_eq_true,
      Bool.and_eq_true, Bool.and_eq_false_iff, decide_eq_true_eq, decide_eq_false_iff_not]
    simp only [ge_iff_le, UInt32.le_iff_toNat_le]
    simp
    omega
  punctuation := by
    simp only [List.mem_cons, List.not_mem_nil, or_false, forall_eq_or_imp, forall_eq]
    decide

/-- Each digit behind a letter and each letter behind a digit takes two bytes, and the terminator
of `1a1a1…1` is written behind the buffer. -/
theorem letters_and_digits_outside :
    ¬ (cleanWrites 128 ascii .dateTime2
      ((List.replicate 32 ['1', 'a']).flatten ++ ['1'])).length ≤ 128 + 1 := by
  decide +kernel

end Babelfish.Common
