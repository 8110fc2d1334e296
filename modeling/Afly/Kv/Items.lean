import Afly.C.Text

/-! # Items and their texts

The printer and the parser of `cJSON.c` as the key-value store calls them: the
printer formats, and the parser takes a text up to the end of its first value. The
conversions of numbers are those of the C library.
-/

namespace Afly.Kv

/-- A `cJSON` item with its children in the order of their list. -/
inductive CJson (N : Type) where
  | null
  | false
  | true
  | number (valuedouble : N)
  | string (valuestring : CStr)
  | array (child : List (CJson N))
  | object (child : List (CStr × CJson N))

section Print

/-- The bytes that `print_string_ptr` adds for one of its input. -/
def escapeCharacters (c : Char) : ℕ :=
  if c ∈ ['"', '\\', '\x08', '\x0c', '\n', '\x0d', '\t'] then 1 else if c.toNat < 32 then 5 else 0

def escaped (c : Char) : CStr :=
  if c = '\\' then ['\\']
  else if c = '"' then ['"']
  else if c = '\x08' then ['b']
  else if c = '\x0c' then ['f']
  else if c = '\n' then ['n']
  else if c = '\x0d' then ['r']
  else if c = '\t' then ['t']
  else ['u', '0', '0', Nat.digitChar (c.toNat / 16), Nat.digitChar (c.toNat % 16)]

def printChar (c : Char) : CStr :=
  if 31 < c.toNat ∧ c ≠ '"' ∧ c ≠ '\\' then [c] else '\\' :: escaped c

def printStringPtr (input : CStr) : CStr :=
  if (input.map escapeCharacters).sum = 0 then '"' :: input ++ ['"']
  else '"' :: input.flatMap printChar ++ ['"']

variable {N : Type} (printNumber : N → CStr)

mutual

/-- `print_value` with the format of `cJSON_Print`. -/
def printValue (depth : ℕ) : CJson N → CStr
  | .null => "null".toList
  | .false => "false".toList
  | .true => "true".toList
  | .number n => printNumber n
  | .string s => printStringPtr s
  | .array child => '[' :: printElements (depth + 1) child ++ [']']
  | .object child =>
    '\x7b' :: '\n' :: printItems (depth + 1) child ++ List.replicate depth '\t' ++ ['\x7d']

/-- The loop of `print_array`. -/
def printElements (depth : ℕ) : List (CJson N) → CStr
  | [] => []
  | element :: child =>
    printValue depth element ++ (if child.isEmpty then [] else [',', ' ']) ++
      printElements depth child

/-- The loop of `print_object`. -/
def printItems (depth : ℕ) : List (CStr × CJson N) → CStr
  | [] => []
  | (string, item) :: child =>
    List.replicate depth '\t' ++ printStringPtr string ++ [':', '\t'] ++ printValue depth item ++
      (if child.isEmpty then [] else [',']) ++ ['\n'] ++ printItems depth child

end

def cJsonPrint (item : CJson N) : CStr := printValue printNumber 0 item

end Print

section Parse

/-- `buffer_skip_whitespace` on the rest of a buffer, which ends with the terminator. -/
def bufferSkipWhitespace (s : CStr) : CStr :=
  match s.dropWhile fun c => c.toNat ≤ 32 with
  | [] => [nul]
  | c :: s => c :: s

/-- The search of `parse_string` for the closing quote: the text in front of it and the rest. -/
def scanString : CStr → Option (CStr × CStr)
  | [] => none
  | c :: s =>
    if c = '"' then some ([], s)
    else if c = '\\' then
      match s with
      | [] => none
      | e :: s => (scanString s).map fun (text, rest) => (c :: e :: text, rest)
    else (scanString s).map fun (text, rest) => (c :: text, rest)

def hexDigit (c : Char) : Option ℕ :=
  if '0' ≤ c ∧ c ≤ '9' then some (c.toNat - '0'.toNat)
  else if 'A' ≤ c ∧ c ≤ 'F' then some (10 + c.toNat - 'A'.toNat)
  else if 'a' ≤ c ∧ c ≤ 'f' then some (10 + c.toNat - 'a'.toNat)
  else none

/-- `parse_hex4`: what is no digit makes the number zero. -/
def parseHex4 (input : CStr) : ℕ :=
  ((input.mapM hexDigit).map fun digits => digits.foldl (fun h digit => h <<< 4 + digit) 0).getD 0

/-- The bytes that `utf16_literal_to_utf8` writes for a code point. -/
def utf8Sequence (codepoint : ℕ) : CStr :=
  let last (codepoint : ℕ) := Char.ofNat ((codepoint ||| 0x80) &&& 0xbf)
  let first (codepoint mark : ℕ) := Char.ofNat ((codepoint ||| mark) &&& 0xff)
  if codepoint < 0x80 then [Char.ofNat (codepoint &&& 0x7f)]
  else if codepoint < 0x800 then [first (codepoint >>> 6) 0xc0, last codepoint]
  else if codepoint < 0x10000 then
    [first (codepoint >>> 12) 0xe0, last (codepoint >>> 6), last codepoint]
  else
    [first (codepoint >>> 18) 0xf0, last (codepoint >>> 12), last (codepoint >>> 6), last codepoint]

def unescaped (e : Char) : Option Char :=
  if e = 'b' then some '\x08'
  else if e = 'f' then some '\x0c'
  else if e = 'n' then some '\n'
  else if e = 'r' then some '\x0d'
  else if e = 't' then some '\t'
  else if e = '"' ∨ e = '\\' ∨ e = '/' then some e
  else none

/-- The second loop of `parse_string`, over the text in front of the closing quote. -/
def unescape : CStr → Option CStr
  | [] => some []
  | c :: p =>
    if c = '\\' then
      match p with
      -- Behind a number of four letters that has a backslash the closing quote comes next.
      | [] => some ['"']
      | e :: p =>
        if e = 'u' then
          match p with
          | h₁ :: h₂ :: h₃ :: h₄ :: p =>
            let firstCode := parseHex4 [h₁, h₂, h₃, h₄]
            if 0xdc00 ≤ firstCode ∧ firstCode ≤ 0xdfff then none
            else if 0xd800 ≤ firstCode ∧ firstCode ≤ 0xdbff then
              match p with
              | b :: u :: l₁ :: l₂ :: l₃ :: l₄ :: p =>
                let secondCode := parseHex4 [l₁, l₂, l₃, l₄]
                if b ≠ '\\' ∨ u ≠ 'u' ∨ secondCode < 0xdc00 ∨ 0xdfff < secondCode then none
                else
                  let codepoint := 0x10000 + ((firstCode &&& 0x3ff) <<< 10 ||| secondCode &&& 0x3ff)
                  (unescape p).map fun output => utf8Sequence codepoint ++ output
              | _ => none
            else (unescape p).map fun output => utf8Sequence firstCode ++ output
          | _ => none
        else (unescaped e).bind fun value => (unescape p).map fun output => value :: output
    else (unescape p).map fun output => c :: output

/-- `parse_string`: the string ends where a zero was written into it. -/
def parseString (s : CStr) : Option (CStr × CStr) :=
  match s with
  | '"' :: s => (scanString s).bind fun (text, rest) =>
    (unescape text).map fun output => (cstr output, rest)
  | _ => none

def isNumberChar (c : Char) : Bool := c.isDigit || c ∈ ['+', '-', 'e', 'E', '.']

def nestingLimit : ℕ := 1000

-- The number at the start of a text and the number of characters that it has.
variable {N : Type} (strtod : CStr → Option (N × ℕ))

def parseNumber (s : CStr) : Option (CJson N × CStr) :=
  (strtod ((s.take 63).takeWhile isNumberChar)).map fun (number, length) =>
    (.number number, s.drop length)

mutual

/-- `parse_value`. A call that goes deeper or on has read a character since the last but one. -/
def parseValue : ℕ → ℕ → CStr → Option (CJson N × CStr)
  | 0, _, _ => none
  | fuel + 1, depth, s =>
    if "null".toList <+: s then some (.null, s.drop 4)
    else if "false".toList <+: s then some (.false, s.drop 5)
    else if "true".toList <+: s then some (.true, s.drop 4)
    else match s with
    | [] => none
    | c :: rest =>
      if c = '"' then (parseString s).map fun (valuestring, s) => (.string valuestring, s)
      else if c = '-' ∨ c.isDigit then parseNumber strtod s
      else if c = '[' then
        if nestingLimit ≤ depth then none
        else if (bufferSkipWhitespace rest).head? = some ']' then
          some (.array [], (bufferSkipWhitespace rest).tail)
        else (parseElements fuel (depth + 1) rest).map fun (child, s) => (.array child, s)
      else if c = '\x7b' then
        if nestingLimit ≤ depth then none
        else if (bufferSkipWhitespace rest).head? = some '\x7d' then
          some (.object [], (bufferSkipWhitespace rest).tail)
        else (parseItems fuel (depth + 1) rest).map fun (child, s) => (.object child, s)
      else none

/-- The loop of `parse_array`. -/
def parseElements : ℕ → ℕ → CStr → Option (List (CJson N) × CStr)
  | 0, _, _ => none
  | fuel + 1, depth, s =>
    (parseValue fuel depth (bufferSkipWhitespace s)).bind fun (element, s) =>
      match bufferSkipWhitespace s with
      | [] => none
      | c :: s =>
        if c = ',' then
          (parseElements fuel depth s).map fun (child, s) => (element :: child, s)
        else if c = ']' then some ([element], s)
        else none

/-- The loop of `parse_object`. -/
def parseItems : ℕ → ℕ → CStr → Option (List (CStr × CJson N) × CStr)
  | 0, _, _ => none
  | fuel + 1, depth, s =>
    (parseString (bufferSkipWhitespace s)).bind fun (string, s) =>
      match bufferSkipWhitespace s with
      | [] => none
      | c :: s =>
        if c = ':' then
          (parseValue fuel depth (bufferSkipWhitespace s)).bind fun (item, s) =>
            match bufferSkipWhitespace s with
            | [] => none
            | c :: s =>
              if c = ',' then
                (parseItems fuel depth s).map fun (child, s) => ((string, item) :: child, s)
              else if c = '\x7d' then some ([(string, item)], s)
              else none
        else none

end

/-- `cJSON_Parse`: what stands behind the value is not looked at. -/
def cJsonParse (value : CStr) : Option (CJson N) :=
  (parseValue strtod (2 * (value.length + 1)) 0 (bufferSkipWhitespace (value ++ [nul]))).map
    Prod.fst

end Parse

end Afly.Kv
