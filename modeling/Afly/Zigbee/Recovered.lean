import Afly.Zigbee.Layout

/-! # Attributes that are recovered

Each value is written from what is found under its name: the last value of that
name. A bitmap comes back exactly when its elements take it up as a whole, each
value takes as much as it did, and each byte of the buffer is what the values
leave there. Nothing else comes back.
-/

namespace Afly

section Writing

variable {e : AttrElement} {buf t t' : List SChar} {off room own used : ℕ} {bitmapType : Bool}
  {m : Member} {source : Option Source}

def AttrElement.count : AttrElement → ℕ
  | .null => 0
  | .elem _ _ _ child next => child.count + next.count + 1

end Writing

def AttrElement.bytes : AttrElement → ℕ
  | .null => 0
  | .elem _ dataType _ _ next => dataType.bytes + next.bytes

namespace AttrProfile

def bytes (ap : AttrProfile) : ℕ :=
  match ap.dataType with
  | .struct | .array => ap.attrElement.bytes
  | t => t.bytes

/-- The profiles of booleans, data, numbers and bitmaps, alone or as the elements of a structure. -/
structure WellFormed (ap : AttrProfile) : Prop where
  root : ap.dataType.Single ∨ ap.dataType.isBitmap = true ∨ ap.dataType = .struct ∨
    ap.dataType = .array
  listed : ap.attrElement.Listed

def layout (ap : AttrProfile) (buf : List SChar) : AttrLayout × ℕ :=
  ap.attrElement.layout 0 buf.length true

def moves (ap : AttrProfile) (buf : List SChar) : List Move :=
  (ap.layout buf).1.moves (ap.layout buf).1

variable {ap : AttrProfile} {buf : List SChar} {dtostr : Double → CStr}
  {strtod : CStr → Option Double}

end AttrProfile

end Afly
