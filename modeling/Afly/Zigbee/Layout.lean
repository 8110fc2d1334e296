import Afly.Lib.Keyed
import Afly.Load.RoundTrip
import Afly.Zigbee.Profile

/-! # The layout of an attribute

The elements of a profile lie over the bytes of a buffer: a value of a bitmap
lies where the ones behind it begin as well, its children and a bitmap move
those behind on, and the last element says how much is taken. What is found
under a name is the last value of that name, and each value is written from
what is found.
-/

namespace Afly

/-- Elements at their places, each with the bytes that it reads itself. -/
inductive AttrLayout where
  | nil
  | cons (name : String) (member : Member) (own : ℕ) (child next : AttrLayout)

/-- What is found under a name: a value of the buffer, or the elements of a bitmap. -/
inductive Source where
  | text (m : Member)
  | object (l : AttrLayout)

/-- A value is written from what was found for it. -/
structure Move where
  source : Option Member
  target : Member
  own : ℕ

/-- The bytes that an element reads of the room there is. -/
def ZclDataType.own (t : ZclDataType) (room : ℕ) : ℕ :=
  if t.isBitmap then 0 else if t.bytes ≤ room then t.bytes else 0

/-- The layout of some elements at a place, and the bytes that it takes. -/
def AttrElement.layout : AttrElement → ℕ → ℕ → Bool → AttrLayout × ℕ
  | .null, _, _, _ => (.nil, 0)
  | .elem name dataType mask child next, off, room, bitmapType =>
    let own := dataType.own room
    let used := if bitmapType && !next.isNull then 0 else own
    let inner := child.layout (off + used) (room - used) dataType.isBitmap
    let used := used + inner.2
    let behind := next.layout (off + used) (room - used) bitmapType
    (.cons name ⟨dataType, if bitmapType then mask else 0, off⟩ own inner.1 behind.1,
      used + behind.2)

/-- What a pointer points to, where a value is set. -/
inductive Owner where
  | object
  | other
  | freed
  deriving DecidableEq

def JsonPtr.owner : JsonPtr → Owner
  | .live (.obj _) => .object
  | .freed => .freed
  | _ => .other

/-- The value of an element in the making, before its children are set. -/
def Member.start (buf : List SChar) (m : Member) (own : ℕ) : Option Json :=
  if m.dataType.isBitmap then some (.obj []) else if own = 0 then none else some (.str (m.text buf))

/-- What the value of an element is for its children, where it is set under a name. -/
def Owner.child (owner : Owner) (name : String) (m : Member) (own : ℕ) : Owner :=
  if m.dataType.isBitmap = false ∧ own = 0 then .other
  else if owner = .object ∧ utf8CheckString name.toList = true then
    if m.dataType.isBitmap then .object else .other
  else .freed

/-- What an object has of an element that has a value: its children or its text, under a name in
UTF-8. -/
def Member.held {α : Type} (m : Member) (name : String) (own : ℕ) (object text : α) : Option α :=
  if utf8CheckString name.toList then
    if m.dataType.isBitmap then some object else if own = 0 then none else some text
  else none

namespace AttrLayout

def log : AttrLayout → List ℕ
  | .nil => []
  | .cons _ _ own child next => own * 8 :: (child.log ++ next.log)

/-- The values can be read, and none is set in a value that was released. -/
def Reads (buf : List SChar) : Owner → AttrLayout → Prop
  | _, .nil => True
  | owner, .cons name m own child next =>
    (own ≠ 0 → m.Readable buf) ∧
    (owner = .freed → utf8CheckString name.toList = true → m.dataType.isBitmap = false ∧ own = 0) ∧
    child.Reads buf (owner.child name m own) ∧ next.Reads buf owner

/-- The members that some elements set in an object. -/
def members (buf : List SChar) : AttrLayout → List (String × Json) → List (String × Json)
  | .nil, obj => obj
  | .cons name m own child next, obj =>
    next.members buf (jsonObjectSetNew obj name
      (m.held name own (.obj (child.members buf [])) (.str (m.text buf))))

def find : AttrLayout → String → Option Source
  | .nil, _ => none
  | .cons name m own child next, key =>
    (next.find key).or (if name = key then m.held name own (.object child) (.text m) else none)

end AttrLayout

def Source.json (buf : List SChar) : Source → Json
  | .text m => .str (m.text buf)
  | .object l => .obj (l.members buf [])

/-- The value that is read of what was found. -/
def Source.member : Source → Option Member
  | .text m => some m
  | .object _ => none

def Source.below : Source → AttrLayout
  | .text _ => .nil
  | .object l => l

def Member.moves (m : Member) (own : ℕ) (source : Option Source) : List Move :=
  if m.dataType.isBitmap then [] else [⟨source.bind Source.member, m, own⟩]

namespace AttrLayout

/-- The values in the order in which they are written, from what is found in the parent. -/
def moves : AttrLayout → AttrLayout → List Move
  | .nil, _ => []
  | .cons name m own child next, parent =>
    let source := parent.find name
    m.moves own source ++ (child.moves (source.elim .nil Source.below) ++ next.moves parent)

end AttrLayout

namespace Move

variable (buf : List SChar)

/-- As many bytes are written as the element read. -/
def Fits (mv : Move) : Prop := (mv.source.elim 0 fun s => mv.target.takes (s.text buf)) = mv.own

instance (mv : Move) : Decidable (mv.Fits buf) := inferInstanceAs (Decidable (_ = _))

end Move

namespace AttrElement

/-- The elements are single values and bitmaps, with C strings for names. -/
def Listed : AttrElement → Prop
  | .null => True
  | .elem name dataType _ child next =>
    (dataType.Single ∨ dataType.isBitmap = true) ∧ nul ∉ name.toList ∧ child.Listed ∧ next.Listed

end AttrElement

section Reading

variable {buf : List SChar} {e : AttrElement} {jparent : JsonPtr} {off room own : ℕ}
  {bitmapType : Bool} {m : Member} {name : String}

/-- A pointer, once some elements are set in what it points to. -/
def AttrLayout.fill (buf : List SChar) (l : AttrLayout) : JsonPtr → JsonPtr
  | .live (.obj obj) => .live (.obj (l.members buf obj))
  | p => p

end Reading

section Found

variable {buf : List SChar} {l : AttrLayout} {key : String} {s : Source}

def AttrLayout.Named : AttrLayout → Prop
  | .nil => True
  | .cons name _ _ child next => nul ∉ name.toList ∧ child.Named ∧ next.Named

theorem AttrElement.Listed.named {e : AttrElement} (h : e.Listed) (off room : ℕ)
    (bitmapType : Bool) : (e.layout off room bitmapType).1.Named := by
  induction e generalizing off room bitmapType with
  | null => trivial
  | elem name dataType mask child next ihchild ihnext =>
    obtain ⟨-, hname, hchild, hnext⟩ := h
    exact ⟨hname, ihchild hchild _ _ _, ihnext hnext _ _ _⟩

theorem AttrLayout.Named.find (h : l.Named) (hfind : l.find key = some s) :
    Load.PlainText key.toList ∧ s.below.Named := by
  induction l with
  | nil => cases hfind
  | cons name m own child next _ ihnext =>
    obtain ⟨hname, hchild, hnext⟩ := h
    rw [AttrLayout.find, Option.or_eq_some_iff] at hfind
    rcases hfind with hfind | ⟨-, hown⟩
    · exact ihnext hnext hfind
    · unfold Member.held at hown
      split_ifs at hown with hkey hutf8 hbitmap hzero
      · obtain rfl := hkey
        cases hown
        exact ⟨⟨utf8CheckString_iff.mp hutf8, hname⟩, hchild⟩
      · obtain rfl := hkey
        cases hown
        exact ⟨⟨utf8CheckString_iff.mp hutf8, hname⟩, trivial⟩

end Found

end Afly
