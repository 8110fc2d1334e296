import Afly.C.Decimal
import Afly.C.Dump
import Afly.Load.Stream

/-! # The lexer of the JSON library

The scanners of `load.c` on the bytes that the stream delivers. A string is
scanned twice, for its end and for its value. Behind a token that is invalid
nothing is read any more: the parser gives up there.
-/

namespace Afly.Load

inductive Token where
  | invalid
  | eof
  | sign (c : Char)
  | string (val : CStr)
  | integer (n : ℤ)
  | real (value : Double)
  | true
  | false
  | null
  deriving DecidableEq

def isXdigit (c : Char) : Bool :=
  c.isDigit || ('A' ≤ c && c ≤ 'F') || ('a' ≤ c && c ≤ 'f')

/-- The blanks that `lex_scan` skips. -/
def isBlank (c : Char) : Bool := c = ' ' || c = '\t' || c = '\n' || c = '\r'

/-- `utf8_encode` for a code point. -/
def utf8Encode (codepoint : ℕ) : CStr :=
  if codepoint < 0x80 then [Char.ofNat codepoint]
  else if codepoint < 0x800 then
    [Char.ofNat (0xc0 + (codepoint &&& 0x7c0) >>> 6), Char.ofNat (0x80 + (codepoint &&& 0x3f))]
  else if codepoint < 0x10000 then
    [Char.ofNat (0xe0 + (codepoint &&& 0xf000) >>> 12),
      Char.ofNat (0x80 + (codepoint &&& 0xfc0) >>> 6), Char.ofNat (0x80 + (codepoint &&& 0x3f))]
  else
    [Char.ofNat (0xf0 + (codepoint &&& 0x1c0000) >>> 18),
      Char.ofNat (0x80 + (codepoint &&& 0x3f000) >>> 12),
      Char.ofNat (0x80 + (codepoint &&& 0xfc0) >>> 6), Char.ofNat (0x80 + (codepoint &&& 0x3f))]

/-- The value of a digit in `decode_unicode_escape`. -/
def escapeDigit (c : Char) : ℕ :=
  if c.isDigit then c.toNat - '0'.toNat
  else if c.isLower then c.toNat - 'a'.toNat + 10 else c.toNat - 'A'.toNat + 10

/-- `decode_unicode_escape` on four hex digits. -/
def decodeUnicodeEscape (digits : CStr) : ℕ :=
  digits.foldl (fun value c => value <<< 4 + escapeDigit c) 0

/-- The first scan of `lex_scan_string`: what is saved up to the closing quote, and the rest. -/
def scanQuoted : CStr → Option (CStr × CStr)
  | [] => none
  | c :: s =>
    if c = quote then some ([], s)
    else if c.toNat ≤ 0x1f then none
    else if c = backslash then
      match s with
      | [] => none
      | e :: s =>
        if e = 'u' then
          match s with
          | h₁ :: h₂ :: h₃ :: h₄ :: s =>
            if [h₁, h₂, h₃, h₄].all isXdigit then
              (scanQuoted s).map fun (saved, rest) =>
                (c :: e :: h₁ :: h₂ :: h₃ :: h₄ :: saved, rest)
            else none
          | _ => none
        else if e ∈ [quote, backslash, '/', 'b', 'f', 'n', 'r', 't'] then
          (scanQuoted s).map fun (saved, rest) => (c :: e :: saved, rest)
        else none
    else (scanQuoted s).map fun (saved, rest) => (c :: saved, rest)

def unescape (e : Char) : Char :=
  if e = 'b' then '\x08'
  else if e = 'f' then '\x0c'
  else if e = 'n' then '\n'
  else if e = 'r' then '\r'
  else if e = 't' then '\t'
  else e

/-- The second scan of `lex_scan_string`, over what the first one saved. -/
def decodeQuoted : CStr → Option CStr
  | [] => some []
  | c :: p =>
    if c = backslash then
      match p with
      | [] => none
      | e :: p =>
        if e = 'u' then
          match p with
          | h₁ :: h₂ :: h₃ :: h₄ :: p =>
            let value := decodeUnicodeEscape [h₁, h₂, h₃, h₄]
            if 0xd800 ≤ value ∧ value ≤ 0xdbff then
              match p with
              | b :: u :: l₁ :: l₂ :: l₃ :: l₄ :: p =>
                if b = backslash ∧ u = 'u' then
                  let value2 := decodeUnicodeEscape [l₁, l₂, l₃, l₄]
                  if 0xdc00 ≤ value2 ∧ value2 ≤ 0xdfff then
                    (decodeQuoted p).map fun t =>
                      utf8Encode ((value - 0xd800) <<< 10 + (value2 - 0xdc00) + 0x10000) ++ t
                  else none
                else none
              | _ => none
            else if 0xdc00 ≤ value ∧ value ≤ 0xdfff then none
            else (decodeQuoted p).map fun t => utf8Encode value ++ t
          | _ => none
        else (decodeQuoted p).map fun t => unescape e :: t
    else (decodeQuoted p).map fun t => c :: t

/-- `lex_scan_string` behind the opening quote. -/
def lexScanString (s : CStr) : Token × CStr :=
  match scanQuoted s with
  | none => (.invalid, s)
  | some (saved, rest) =>
    match decodeQuoted saved with
    | none => (.invalid, rest)
    | some val => (.string val, rest)

section Number

-- The `double` that `strtod` reads, or none where `jsonp_strtod` finds that the text strtod.
variable (strtod : CStr → Option Double)

/-- The token of a number that is all digits: `strtoll` has a range. -/
def integerToken (saved : CStr) : Token :=
  let n : ℤ := match saved with
    | [] => 0
    | c :: digits => if c = '-' then -(decimal digits : ℤ) else decimal (c :: digits)
  if n < -2 ^ 63 ∨ 2 ^ 63 ≤ n then .invalid else .integer n

/-- The token of a number with a point or an exponent. -/
def realToken (saved : CStr) : Token := (strtod saved).elim .invalid .real

/-- The exponent in `lex_scan_number`, and the end of a real number. -/
def scanExponent (saved : CStr) (s : CStr) : Token × CStr :=
  match s with
  | [] => (realToken strtod saved, s)
  | c :: s' =>
    if c = 'E' ∨ c = 'e' then
      let (sgn, s') : CStr × CStr := match s' with
        | d :: t => if d = '+' ∨ d = '-' then ([d], t) else ([], s')
        | [] => ([], s')
      let (digits, rest) := s'.span Char.isDigit
      if digits.isEmpty then (.invalid, rest)
      else (realToken strtod (saved ++ c :: sgn ++ digits), rest)
    else (realToken strtod saved, s)

/-- The part of `lex_scan_number` behind the integer part. -/
def scanFraction (saved : CStr) (s : CStr) : Token × CStr :=
  match s with
  | [] => (integerToken saved, s)
  | c :: s' =>
    if c = '.' then
      let (digits, rest) := s'.span Char.isDigit
      if digits.isEmpty then (.invalid, rest)
      else scanExponent strtod (saved ++ c :: digits) rest
    else if c = 'E' ∨ c = 'e' then scanExponent strtod saved s
    else (integerToken saved, s)

/-- The integer part in `lex_scan_number`, with the sign already saved. -/
def scanInteger (sgn : CStr) (s : CStr) : Token × CStr :=
  match s with
  | [] => (.invalid, s)
  | c :: s' =>
    if c = '0' then
      if s'.head?.any Char.isDigit then (.invalid, s') else scanFraction strtod (sgn ++ [c]) s'
    else if c.isDigit then
      let (digits, rest) := s'.span Char.isDigit
      scanFraction strtod (sgn ++ c :: digits) rest
    else (.invalid, s)

/-- `lex_scan_number`, with its first byte. -/
def lexScanNumber (c : Char) (s : CStr) : Token × CStr :=
  if c = '-' then scanInteger strtod [c] s else scanInteger strtod [] (c :: s)

/-- `lex_scan`, for bytes at whose end the text is over or, else, is malformed. -/
def lexScan (valid : Bool) (s : CStr) : Token × CStr :=
  match s.dropWhile isBlank with
  | [] => (if valid then .eof else .invalid, [])
  | c :: s =>
    if c ∈ ['\x7b', '\x7d', '[', ']', ':', ','] then (.sign c, s)
    else if c = quote then lexScanString s
    else if c.isDigit ∨ c = '-' then lexScanNumber strtod c s
    else if c.isAlpha then
      let (word, rest) := (c :: s).span Char.isAlpha
      (if word = "true".toList then .true
        else if word = "false".toList then .false
        else if word = "null".toList then .null
        else .invalid, rest)
    else (.invalid, s)

end Number

end Afly.Load
