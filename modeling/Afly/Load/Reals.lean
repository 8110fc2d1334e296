import Afly.Load.RoundTrip
import Mathlib.Algebra.Field.Rat
import Mathlib.Tactic.FieldSimp

/-! # The texts of real numbers

`snprintf` prints a real number with a sign, an integer part, a fraction where
there is one, and an exponent with its sign and two digits at least. The library
makes a JSON number of it that cannot be taken for an integer and that stands
for the same number, so that `strtod` reads what `snprintf` printed.
-/

namespace Afly.Load

-- Facts about all characters of a text are decided over the text, not over the type.
attribute [local instance (high)] List.decidableBAll

def maxRealStrLength : ℕ := 100

/-- The end of `jsonp_dtostr`: a plus sign and leading zeros are taken out of the exponent. -/
def stripExponent (buffer : CStr) : CStr :=
  match buffer.span (· ≠ 'e') with
  | (front, e :: c :: digits) =>
    front ++ e :: (if c = '-' then [c] else []) ++ digits.dropWhile (· = '0')
  | _ => buffer

/-- `jsonp_dtostr` on what `snprintf` prints. -/
def jsonpDtostr (size : ℕ) (printed : CStr) : Option CStr :=
  if size ≤ printed.length then none
  else if '.' ∉ printed ∧ 'e' ∉ printed then
    if size ≤ printed.length + 3 then none else some (stripExponent (printed ++ ['.', '0']))
  else some (stripExponent printed)

/-- The format `%.17g` of a finite number. -/
inductive PrintedReal : CStr → Prop where
  | fixed {sgn digits fraction : CStr} : Minus sgn → IsInteger digits → Fraction fraction →
      PrintedReal (sgn ++ digits ++ fraction)
  | scientific {sgn digits fraction exponent : CStr} {c : Char} : Minus sgn → IsInteger digits →
      Fraction fraction → c = '+' ∨ c = '-' → IsNumeral exponent → significant exponent ≠ [] →
      PrintedReal (sgn ++ digits ++ fraction ++ 'e' :: c :: exponent)

/-- The power of ten that an exponent stands for. -/
def exponentValue : CStr → ℤ
  | [] => 0
  | _ :: digits =>
    if digits.head? = some '-' then -decimal digits.tail
    else if digits.head? = some '+' then decimal digits.tail
    else decimal digits

/-- The number that a text stands for, as its sign and its magnitude. -/
def numberValue (s : CStr) : Bool × ℚ :=
  let (digits, rest) := (if s.head? = some '-' then s.tail else s).span Char.isDigit
  let (fraction, rest) :=
    if rest.head? = some '.' then rest.tail.span Char.isDigit else ([], rest)
  (s.head? = some '-',
    (decimal (digits ++ fraction) : ℚ) * 10 ^ (exponentValue rest - fraction.length))

/-- Texts that stand for the same number are read as the same value. -/
def ByValue (strtod : CStr → Option Double) : Prop :=
  ∀ s t, NumberText s → NumberText t → numberValue s = numberValue t → strtod s = strtod t

/-- `snprintf` prints a value in its format, in the room that there is, and with as many digits as
tell it from all others. -/
structure PrintsBack (strtod : CStr → Option Double) (printed : Double → CStr) (value : Double) :
    Prop where
  format : PrintedReal (printed value)
  short : (printed value).length + 3 < maxRealStrLength
  back : strtod (printed value) = some value

/-- The text of a real number, for what `snprintf` prints. -/
def dtostr (printed : Double → CStr) (value : Double) : CStr :=
  (jsonpDtostr maxRealStrLength (printed value)).getD []

section

variable {sgn digits fraction exponent front printed : CStr} {c : Char} {size : ℕ}

theorem digit_ne {l : CStr} (h : IsNumeral l) (hc : c.isDigit = false) : c ∉ l := by
  intro hmem
  exact Bool.false_ne_true (hc.symm.trans (h.2 c hmem))

theorem not_mem_front (hsgn : Minus sgn) (hs : IsInteger digits) (hf : Fraction fraction) :
    'e' ∉ sgn ++ digits ++ fraction := by
  simp only [List.mem_append, not_or]
  refine ⟨⟨?_, digit_ne hs.1 rfl⟩, ?_⟩
  · cases hsgn <;> decide
  · cases hf with
    | none => simp
    | point hl => simpa using digit_ne hl rfl

theorem stripExponent_none (h : 'e' ∉ front) : stripExponent front = front := by
  have hspan : (front ++ []).span (· ≠ 'e') = (front, []) := by
    apply span_append
    · intro d hd
      simpa using fun he : d = 'e' => h (he ▸ hd)
    · simp
  rw [List.append_nil] at hspan
  rw [stripExponent, hspan]

theorem stripExponent_exponent (h : 'e' ∉ front) (c : Char) (exponent : CStr) :
    stripExponent (front ++ 'e' :: c :: exponent) =
      front ++ 'e' :: (if c = '-' then [c] else []) ++ significant exponent := by
  have hspan : (front ++ 'e' :: c :: exponent).span (· ≠ 'e') = (front, 'e' :: c :: exponent) := by
    apply span_append
    · intro d hd
      simpa using fun he : d = 'e' => h (he ▸ hd)
    · simp
  rw [stripExponent, hspan]
  rfl

theorem isNumeral_significant (h : IsNumeral exponent) (hne : significant exponent ≠ []) :
    IsNumeral (significant exponent) :=
  ⟨hne, fun d hd => h.2 d (List.dropWhile_subset _ hd)⟩

theorem head?_numeral (h : IsNumeral digits) (hc : c.isDigit = false) : digits.head? ≠ some c :=
  fun hhead => digit_ne h hc (List.mem_of_mem_head? hhead)

theorem numberValue_eq (hsgn : Minus sgn) (hs : IsNumeral digits) (hf : Fraction fraction)
    (he : Exponent exponent) : numberValue (sgn ++ digits ++ fraction ++ exponent) =
      (decide (sgn ≠ []), (decimal (digits ++ fraction.tail) : ℚ) *
        10 ^ (exponentValue exponent - fraction.tail.length)) := by
  have hexponent (he : Exponent exponent) : ∀ c ∈ exponent.head?, c.isDigit = false ∧ c ≠ '.' := by
    cases he with
    | none => simp
    | plain hE | signed hE =>
      rintro c ⟨⟩
      rcases hE with rfl | rfl <;> decide
  have htail : ∀ c ∈ (fraction ++ exponent).head?, c.isDigit = false := by
    cases hf with
    | none => exact fun c hc => (hexponent he c hc).1
    | point => rintro c ⟨⟩; rfl
  have hunsigned : (if (sgn ++ digits ++ fraction ++ exponent).head? = some '-' then
      (sgn ++ digits ++ fraction ++ exponent).tail else sgn ++ digits ++ fraction ++ exponent) =
      digits ++ (fraction ++ exponent) ∧
      ((sgn ++ digits ++ fraction ++ exponent).head? = some '-' ↔ sgn ≠ []) := by
    cases hsgn with
    | none =>
      have hhead : ([] ++ digits ++ fraction ++ exponent).head? ≠ some '-' := by
        rw [List.nil_append, List.append_assoc, List.head?_append_of_ne_nil _ hs.1]
        exact head?_numeral hs rfl
      rw [if_neg hhead]
      exact ⟨by simp, iff_of_false hhead (by simp)⟩
    | minus => exact ⟨by simp, by simp⟩
  have hspan := span_append hs.2 htail
  have hfraction : (if (fraction ++ exponent).head? = some '.' then
      (fraction ++ exponent).tail.span Char.isDigit else ([], fraction ++ exponent)) =
      (fraction.tail, exponent) := by
    cases hf with
    | none =>
      have hpoint : exponent.head? ≠ some '.' := fun h => (hexponent he _ h).2 rfl
      rw [List.nil_append, if_neg hpoint]
      rfl
    | point hl =>
      rw [List.cons_append, List.head?_cons, if_pos rfl]
      exact span_append hl.2 fun c hc => (hexponent he c hc).1
  rw [numberValue, hunsigned.1, hspan]
  dsimp only
  rw [hfraction, decide_eq_decide.mpr hunsigned.2]

theorem numberValue_point (hsgn : Minus sgn) (hs : IsNumeral digits) :
    numberValue (sgn ++ digits ++ ['.', '0'] ++ []) = numberValue (sgn ++ digits ++ [] ++ []) := by
  rw [numberValue_eq hsgn hs (show Fraction ['.', '0'] from .point (by decide)) .none,
    numberValue_eq hsgn hs .none .none]
  have hzero : decimal (digits ++ ['0']) = 10 * decimal digits := decimal_concat digits '0'
  simp [hzero, exponentValue]
  field_simp

theorem exponentValue_significant (hc : c = '+' ∨ c = '-') (he : IsNumeral exponent) :
    exponentValue ('e' :: ((if c = '-' then [c] else []) ++ significant exponent)) =
      exponentValue ('e' :: c :: exponent) := by
  have hdigits {d : Char} (hd : d.isDigit = false) : (significant exponent).head? ≠ some d := by
    intro hhead
    exact digit_ne he hd (List.dropWhile_subset _ (List.mem_of_mem_head? hhead))
  rcases hc with rfl | rfl
  · simp [exponentValue, hdigits (d := '-') rfl, hdigits (d := '+') rfl, decimal_significant]
  · simp [exponentValue, decimal_significant]

theorem jsonpDtostr_spec (h : PrintedReal printed) (hsize : printed.length + 3 < size) :
    ∃ t, jsonpDtostr size printed = some t ∧ NumberText printed ∧ NumberText t ∧
      numberValue t = numberValue printed ∧
      ∀ strtod value, strtod t = some value → Lexeme strtod (.real value) t := by
  have hroom : ¬ size ≤ printed.length := by omega
  cases h with
  | fixed hsgn hs hf =>
    rename_i sgn digits fraction
    have hfront := not_mem_front hsgn hs hf
    rw [← List.append_nil (sgn ++ digits ++ fraction)]
    cases hf with
    | none =>
      have hpoint : '.' ∉ sgn ++ digits ++ [] := by
        rw [List.append_nil, List.mem_append, not_or]
        exact ⟨by cases hsgn <;> decide, digit_ne hs.1 rfl⟩
      have hfront' : 'e' ∉ sgn ++ digits ++ [] ++ ['.', '0'] := by
        simpa using hfront
      refine ⟨sgn ++ digits ++ ['.', '0'] ++ [], ?_, .mk hsgn hs.1 .none .none,
        .mk hsgn hs.1 (.point (by decide)) .none, numberValue_point hsgn hs.1, ?_⟩
      · rw [List.append_nil (sgn ++ digits ++ []), jsonpDtostr, if_neg hroom,
          if_pos ⟨hpoint, hfront⟩, if_neg (by omega), stripExponent_none hfront', List.append_nil,
          List.append_nil]
      · exact fun _ _ hvalue => .real hsgn hs (.point (by decide)) .none (by simp) hvalue
    | point hl =>
      rename_i tail
      refine ⟨sgn ++ digits ++ '.' :: tail ++ [], ?_, .mk hsgn hs.1 (.point hl) .none,
        .mk hsgn hs.1 (.point hl) .none, rfl, ?_⟩
      · rw [List.append_nil, jsonpDtostr, if_neg hroom, if_neg (by simp), stripExponent_none hfront]
      · exact fun _ _ hvalue => .real hsgn hs (.point hl) .none (by simp) hvalue
  | scientific hsgn hs hf hc he hne =>
    rename_i sgn digits fraction exponent c
    have hfront := not_mem_front hsgn hs hf
    have hnumeral := isNumeral_significant he hne
    have hsigned : Exponent ('e' :: c :: exponent) := .signed (Or.inr rfl) hc he
    have hexponent : Exponent ('e' :: ((if c = '-' then [c] else []) ++ significant exponent)) := by
      rcases hc with rfl | rfl
      · exact .plain (Or.inr rfl) hnumeral
      · exact .signed (Or.inr rfl) (Or.inr rfl) hnumeral
    refine ⟨sgn ++ digits ++ fraction ++ ('e' :: ((if c = '-' then [c] else []) ++
      significant exponent)), ?_, .mk hsgn hs.1 hf hsigned, .mk hsgn hs.1 hf hexponent, ?_, ?_⟩
    · rw [jsonpDtostr, if_neg hroom, if_neg (by simp), stripExponent_exponent hfront]
      simp
    · rw [numberValue_eq hsgn hs.1 hf hexponent, numberValue_eq hsgn hs.1 hf hsigned,
        exponentValue_significant hc he]
    · exact fun _ _ hvalue => .real hsgn hs hf hexponent (by simp) hvalue

theorem PrintsBack.lexeme {strtod : CStr → Option Double} {printed : Double → CStr}
    {value : Double} (hvalue : ByValue strtod) (h : PrintsBack strtod printed value) :
    jsonpDtostr maxRealStrLength (printed value) = some (dtostr printed value) ∧
      Lexeme strtod (.real value) (dtostr printed value) := by
  obtain ⟨t, ht, hprinted, htext, hsame, hlexeme⟩ := jsonpDtostr_spec h.format h.short
  have hdtostr : dtostr printed value = t := by rw [dtostr, ht, Option.getD_some]
  rw [hdtostr]
  refine ⟨ht, hlexeme strtod value ?_⟩
  rw [hvalue t _ htext hprinted hsame, h.back]

end

section Two

def oneAndHalf : Double := 0x3FF8000000000000
def huge : Double := 0x7E37E43C8800759C

/-- Reading and printing, as far as these two numbers go. -/
def readTwo (s : CStr) : Option Double :=
  if numberValue s = (false, 3 / 2) then some oneAndHalf
  else if numberValue s = (false, 10 ^ 300) then some huge
  else none

def printTwo (value : Double) : CStr :=
  if value = huge then "1e+300".toList else "1.5".toList

theorem byValue_readTwo : ByValue readTwo := by
  intro s t _ _ h
  rw [readTwo, readTwo, h]

theorem readTwo_half {s : CStr} (h : numberValue s = (false, 3 / 2)) :
    readTwo s = some oneAndHalf := if_pos h

theorem printsBack_half : PrintsBack readTwo printTwo oneAndHalf where
  format := show PrintedReal ([] ++ ['1'] ++ ['.', '5']) from
    .fixed .none ⟨by decide, by decide⟩ (.point (by decide))
  short := by decide
  back := readTwo_half (by decide +kernel)

theorem printsBack_huge : PrintsBack readTwo printTwo huge where
  format := show PrintedReal ([] ++ ['1'] ++ [] ++ 'e' :: '+' :: ['3', '0', '0']) from
    .scientific .none ⟨by decide, by decide⟩ .none (Or.inl rfl) (by decide) (by decide)
  short := by decide
  back := by decide +kernel

theorem printsBack_of_readTwo {value : Double} (h : ReadAs readTwo value) :
    PrintsBack readTwo printTwo value := by
  obtain ⟨s, -, hs⟩ := h
  unfold readTwo at hs
  split_ifs at hs
  · cases hs
    exact printsBack_half
  · cases hs
    exact printsBack_huge

end Two

/-- Whatever the library reads has its strings and keys in UTF-8, its keys once in each object, its
integers in range and its depth bounded, and what is printed of it is read as the same, when
`snprintf` prints what `strtod` reads so that it is read back. -/
theorem jsonLoads_reprinted {strtod : CStr → Option Double} {printed : Double → CStr} {s : CStr}
    {j : Json} (hvalue : ByValue strtod)
    (hback : ∀ value, ReadAs strtod value → PrintsBack strtod printed value)
    (h : jsonLoads strtod s = some j) : Storable (ReadAs strtod) maxDepth j ∧
      ∃ t, jsonDumps (dtostr printed) j = some t ∧ jsonLoads strtod t = some j := by
  obtain ⟨hstorable, hcontainer⟩ := storable_of_jsonLoads h
  exact ⟨hstorable, loads_dumps (fun value hread => ((hback value hread).lexeme hvalue).2)
    hstorable hcontainer⟩

theorem jsonLoads_escape : jsonLoads readTwo "[1.50, \"\\u0041\"]".toList =
    some (.arr [.real oneAndHalf, .str ['A']]) := by
  have hreal : Lexeme readTwo (.real oneAndHalf) ([] ++ ['1'] ++ ['.', '5', '0'] ++ []) :=
    .real .none ⟨by decide, by decide⟩ (.point (by decide)) .none (by decide)
      (readTwo_half (by decide +kernel))
  have hstring : Quoted "\\u0041".toList ['A'] :=
    .unicode (h := ['0', '0', '4', '1']) ⟨by decide, by decide⟩ (by decide) (by decide) .nil
  have hitems : Denotes readTwo 2047 _ _ := .items
    (.padded blanks_nil (.scalar hreal .real) blanks_nil)
    (.item (.padded blanks_space (.scalar (.string hstring) (.string (by decide))) blanks_nil))
  exact jsonLoads_of_document (utf8CheckString_iff.mp (by decide)) ⟨Or.inl ⟨_, rfl⟩, [], _, [],
    (List.append_nil _).symm, blanks_nil, blanks_nil, .array hitems⟩

theorem jsonDumps_escape :
    Storable (ReadAs readTwo) maxDepth (.arr [.real oneAndHalf, .str ['A']]) ∧
    ∃ t, jsonDumps (dtostr printTwo) (.arr [.real oneAndHalf, .str ['A']]) = some t ∧
      jsonLoads readTwo t = some (.arr [.real oneAndHalf, .str ['A']]) :=
  jsonLoads_reprinted byValue_readTwo (fun _ => printsBack_of_readTwo) jsonLoads_escape

end Afly.Load
