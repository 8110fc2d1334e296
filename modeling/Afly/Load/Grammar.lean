import Afly.Load.Parser

/-! # The grammar of JSON texts

What a text denotes, as the standard has it: lexemes with blanks between them,
and the values, arrays and objects that they make up. A member that is repeated
takes the place of the first. Each value is as deep as its derivation allows.
-/

namespace Afly.Load

def Blanks (w : CStr) : Prop := ∀ c ∈ w, isBlank c = true

/-- The text of an integer part has no superfluous zero in front. -/
def IsInteger (digits : CStr) : Prop :=
  IsNumeral digits ∧ (digits.head? = some '0' → digits = ['0'])

inductive Minus : CStr → Prop where
  | none : Minus []
  | minus : Minus ['-']

inductive Fraction : CStr → Prop where
  | none : Fraction []
  | point {digits : CStr} : IsNumeral digits → Fraction ('.' :: digits)

/-- Nothing, or an exponent with a sign or without one. -/
inductive Exponent : CStr → Prop where
  | none : Exponent []
  | plain {e : Char} {digits : CStr} : e = 'E' ∨ e = 'e' → IsNumeral digits →
      Exponent (e :: digits)
  | signed {e sgn : Char} {digits : CStr} : e = 'E' ∨ e = 'e' → sgn = '+' ∨ sgn = '-' →
      IsNumeral digits → Exponent (e :: sgn :: digits)

inductive NumberText : CStr → Prop where
  | mk {sgn digits fraction exponent : CStr} : Minus sgn → IsNumeral digits → Fraction fraction →
      Exponent exponent → NumberText (sgn ++ digits ++ fraction ++ exponent)

structure HexFour (h : CStr) : Prop where
  length : h.length = 4
  digits : ∀ c ∈ h, isXdigit c = true

/-- The two halves of a surrogate pair. -/
def IsHigh (value : ℕ) : Prop := 0xd800 ≤ value ∧ value ≤ 0xdbff
def IsLow (value : ℕ) : Prop := 0xdc00 ≤ value ∧ value ≤ 0xdfff

instance : DecidablePred IsHigh := fun _ => inferInstanceAs (Decidable (_ ∧ _))
instance : DecidablePred IsLow := fun _ => inferInstanceAs (Decidable (_ ∧ _))

/-- What is between two quotes, and the bytes that it denotes. -/
inductive Quoted : CStr → CStr → Prop where
  | nil : Quoted [] []
  | plain {c : Char} {saved val : CStr} : c ≠ quote → c ≠ backslash → 0x1f < c.toNat →
      Quoted saved val → Quoted (c :: saved) (c :: val)
  | short {e : Char} {saved val : CStr} :
      e ∈ [quote, backslash, '/', 'b', 'f', 'n', 'r', 't'] → Quoted saved val →
      Quoted (backslash :: e :: saved) (unescape e :: val)
  | unicode {h saved val : CStr} : HexFour h → ¬ IsHigh (decodeUnicodeEscape h) →
      ¬ IsLow (decodeUnicodeEscape h) → Quoted saved val →
      Quoted (backslash :: 'u' :: (h ++ saved)) (utf8Encode (decodeUnicodeEscape h) ++ val)
  | pair {h l saved val : CStr} : HexFour h → HexFour l → IsHigh (decodeUnicodeEscape h) →
      IsLow (decodeUnicodeEscape l) → Quoted saved val →
      Quoted (backslash :: 'u' :: (h ++ backslash :: 'u' :: (l ++ saved)))
        (utf8Encode ((decodeUnicodeEscape h - 0xd800) <<< 10 + (decodeUnicodeEscape l - 0xdc00) +
          0x10000) ++ val)

section

variable (strtod : CStr → Option Double)

inductive Lexeme : Token → CStr → Prop where
  | sign {c : Char} : c ∈ ['\x7b', '\x7d', '[', ']', ':', ','] → Lexeme (.sign c) [c]
  | string {saved val : CStr} : Quoted saved val → Lexeme (.string val) (quote :: saved ++ [quote])
  | positive {digits : CStr} : IsInteger digits → decimal digits < 2 ^ 63 →
      Lexeme (.integer (decimal digits)) digits
  | negative {digits : CStr} : IsInteger digits → decimal digits ≤ 2 ^ 63 →
      Lexeme (.integer (-decimal digits)) ('-' :: digits)
  | real {sgn digits fraction exponent : CStr} {value : Double} : Minus sgn → IsInteger digits →
      Fraction fraction → Exponent exponent → fraction ++ exponent ≠ [] →
      strtod (sgn ++ digits ++ fraction ++ exponent) = some value →
      Lexeme (.real value) (sgn ++ digits ++ fraction ++ exponent)
  | true : Lexeme .true "true".toList
  | false : Lexeme .false "false".toList
  | null : Lexeme .null "null".toList

inductive Scalar : Token → Json → Prop where
  | string {val : CStr} : nul ∉ val → Scalar (.string val) (.str val)
  | integer {n : ℤ} : Scalar (.integer n) (.int n)
  | real {value : Double} : Scalar (.real value) (.real value)
  | true : Scalar .true (.bool true)
  | false : Scalar .false (.bool false)
  | null : Scalar .null .null

inductive KeyText : String → CStr → Prop where
  | mk {saved key : CStr} : Quoted saved key → nul ∉ key →
      KeyText (String.ofList key) (quote :: saved ++ [quote])

/-- What a part of a text denotes: a value, also with blanks around it, a member, or what is between
brackets. -/
inductive Part where
  | value (j : Json)
  | padded (j : Json)
  | member (p : String × Json)
  | items (l : List Json)
  | members (m : List (String × Json))

/-- The object that takes members one after the other. -/
def object (m : List (String × Json)) : List (String × Json) :=
  m.foldl (fun obj p => jsonObjectSetNew obj p.1 (some p.2)) []

/-- A text denotes a part, with values nested to the depth given. -/
inductive Denotes : ℕ → Part → CStr → Prop where
  | scalar {depth : ℕ} {token : Token} {j : Json} {s : CStr} : Lexeme strtod token s →
      Scalar token j → Denotes (depth + 1) (.value j) s
  | emptyArray {depth : ℕ} {w : CStr} : Blanks w →
      Denotes (depth + 1) (.value (.arr [])) ('[' :: w ++ [']'])
  | array {depth : ℕ} {l : List Json} {s : CStr} : Denotes depth (.items l) s →
      Denotes (depth + 1) (.value (.arr l)) ('[' :: s ++ [']'])
  | emptyObject {depth : ℕ} {w : CStr} : Blanks w →
      Denotes (depth + 1) (.value (.obj [])) ('\x7b' :: w ++ ['\x7d'])
  | object {depth : ℕ} {m : List (String × Json)} {s : CStr} : Denotes depth (.members m) s →
      Denotes (depth + 1) (.value (.obj (object m))) ('\x7b' :: s ++ ['\x7d'])
  | padded {depth : ℕ} {j : Json} {w s w' : CStr} : Blanks w → Denotes depth (.value j) s →
      Blanks w' → Denotes depth (.padded j) (w ++ s ++ w')
  | item {depth : ℕ} {j : Json} {s : CStr} : Denotes depth (.padded j) s →
      Denotes depth (.items [j]) s
  | items {depth : ℕ} {j : Json} {l : List Json} {s t : CStr} : Denotes depth (.padded j) s →
      Denotes depth (.items l) t → Denotes depth (.items (j :: l)) (s ++ ',' :: t)
  | keyed {depth : ℕ} {key : String} {j : Json} {w k w' s : CStr} : Blanks w → KeyText key k →
      Blanks w' → Denotes depth (.padded j) s →
      Denotes depth (.member (key, j)) (w ++ k ++ w' ++ ':' :: s)
  | member {depth : ℕ} {p : String × Json} {s : CStr} : Denotes depth (.member p) s →
      Denotes depth (.members [p]) s
  | members {depth : ℕ} {p : String × Json} {m : List (String × Json)} {s t : CStr} :
      Denotes depth (.member p) s → Denotes depth (.members m) t →
      Denotes depth (.members (p :: m)) (s ++ ',' :: t)

/-- The texts of an array or an object, with blanks around it. -/
structure Document (j : Json) (s : CStr) : Prop where
  container : (∃ l, j = .arr l) ∨ ∃ m, j = .obj m
  denotes : ∃ w text w', s = w ++ text ++ w' ∧ Blanks w ∧ Blanks w' ∧
    Denotes strtod maxDepth (.value j) text

end

end Afly.Load
