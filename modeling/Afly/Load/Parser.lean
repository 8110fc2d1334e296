import Afly.Load.Lexer

/-! # The parser of the JSON library

`parse_json` and the functions under it, with no flags set. An object takes its
members one after the other, so that a repeated key keeps its place and gets the
last value. The functions run on a measure that no text uses up.
-/

namespace Afly.Load

def maxDepth : ℕ := 2048

section Parse

variable (strtod : CStr → Option Double) (valid : Bool) (limit : ℕ)

mutual

/-- `parse_value` with the token read last, `depth` values around it, up to a limit. -/
def parseValue : ℕ → ℕ → Token → CStr → Option (Json × CStr)
  | 0, _, _, _ => none
  | fuel + 1, depth, token, s =>
    if limit < depth + 1 then none
    else match token with
      | .string val => if nul ∈ val then none else some (.str val, s)
      | .integer n => some (.int n, s)
      | .real value => some (.real value, s)
      | .true => some (.bool true, s)
      | .false => some (.bool false, s)
      | .null => some (.null, s)
      | .sign c =>
        if c = '\x7b' then parseObject fuel (depth + 1) s
        else if c = '[' then parseArray fuel (depth + 1) s
        else none
      | .invalid | .eof => none

/-- `parse_object` behind the opening brace. -/
def parseObject : ℕ → ℕ → CStr → Option (Json × CStr)
  | 0, _, _ => none
  | fuel + 1, depth, s =>
    let (token, s) := lexScan strtod valid s
    if token = .sign '\x7d' then some (.obj [], s) else parseMembers fuel depth [] token s

/-- The loop of `parse_object`. -/
def parseMembers : ℕ → ℕ → List (String × Json) → Token → CStr → Option (Json × CStr)
  | 0, _, _, _, _ => none
  | fuel + 1, depth, object, token, s =>
    match token with
    | .string key =>
      if nul ∈ key then none
      else
        let (token, s) := lexScan strtod valid s
        if token ≠ .sign ':' then none
        else
          let (token, s) := lexScan strtod valid s
          match parseValue fuel depth token s with
          | none => none
          | some (value, s) =>
            let object := jsonObjectSetNew object (String.ofList key) (some value)
            let (token, s) := lexScan strtod valid s
            if token = .sign ',' then
              let (token, s) := lexScan strtod valid s
              parseMembers fuel depth object token s
            else if token = .sign '\x7d' then some (.obj object, s)
            else none
    | _ => none

/-- `parse_array` behind the opening bracket. -/
def parseArray : ℕ → ℕ → CStr → Option (Json × CStr)
  | 0, _, _ => none
  | fuel + 1, depth, s =>
    let (token, s) := lexScan strtod valid s
    if token = .sign ']' then some (.arr [], s) else parseItems fuel depth [] token s

/-- The loop of `parse_array`. -/
def parseItems : ℕ → ℕ → List Json → Token → CStr → Option (Json × CStr)
  | 0, _, _, _, _ => none
  | fuel + 1, depth, array, token, s =>
    if token = .eof then none
    else match parseValue fuel depth token s with
      | none => none
      | some (elem, s) =>
        let array := array ++ [elem]
        let (token, s) := lexScan strtod valid s
        if token = .sign ',' then
          let (token, s) := lexScan strtod valid s
          parseItems fuel depth array token s
        else if token = .sign ']' then some (.arr array, s)
        else none

end

def parseJson (s : CStr) : Option Json :=
  let fuel := 2 * s.length + 1
  let (token, s) := lexScan strtod valid s
  if token ≠ .sign '[' ∧ token ≠ .sign '\x7b' then none
  else match parseValue strtod valid limit fuel 0 token s with
    | none => none
    | some (result, s) =>
      let (token, _) := lexScan strtod valid s
      if token ≠ .eof then none else some result

end Parse

/-- `json_loads` without flags. -/
def jsonLoads (strtod : CStr → Option Double) (string : CStr) : Option Json :=
  parseJson strtod (utf8CheckString string) maxDepth (streamBytes 0 string)

end Afly.Load
