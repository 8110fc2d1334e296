import Afly.C.Text

/-! # Parsed JSON values

The values the JSON library hands out, with the member lookups of
`json_parser.c`. A real number is a `double`, of which only its 64 bits matter
here.
-/

namespace Afly

/-- The bits of a `double`. -/
abbrev Double := BitVec 64

inductive Json where
  | null
  | bool (b : Bool)
  | int (n : ℤ)
  | real (value : Double)
  | str (s : CStr)
  | arr (l : List Json)
  | obj (m : List (String × Json))

def jsonObjectGet (obj : Json) (name : String) : Option Json :=
  match obj with
  | .obj m => m.lookup name
  | _ => none

/-- Read an integer member into a variable that holds `value`. -/
def jsonGetInt (obj : Json) (name : String) (value : ℤ) : ℤ :=
  match jsonObjectGet obj name with
  | some (.int n) => if n < intMin ∨ n > intMax then value else n
  | _ => value

def jsonGetString (obj : Json) (name : String) : Option CStr :=
  match jsonObjectGet obj name with
  | some (.str s) => some s
  | _ => none

end Afly
