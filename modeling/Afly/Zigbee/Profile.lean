import Afly.Load.Parser
import Afly.Zigbee.Members

/-! # Attribute profiles

A profile describes an attribute by a tree of elements. One recursion over the
tree makes a JSON value of the bytes of an attribute, another one makes bytes
of such a value. Both go through the elements in the same order, each with a
position of its own.
-/

namespace Afly

/-- A pointer to an `attr_element_t`. -/
inductive AttrElement where
  | null
  | elem (elementName : String) (dataType : ZclDataType) (maskCode : BitVec 32)
      (childElement nextElement : AttrElement)

def AttrElement.isNull : AttrElement → Bool
  | .null => true
  | .elem .. => false

structure AttrProfile where
  dataType : ZclDataType
  attrElement : AttrElement

/-- A pointer to a JSON value. -/
inductive JsonPtr where
  | null
  | live (j : Json)
  -- the value was released
  | freed

def JsonPtr.value : JsonPtr → Option Json
  | .live j => some j
  | _ => none

/-- `json_object_set_new`: what becomes of the value. It is the object's, or it is released. -/
def objectSetNew (jparent : JsonPtr) (name : String) : Option Json → Option JsonPtr
  | none => some .null
  | some jarg =>
    if utf8CheckString name.toList then
      match jparent with
      | .live (.obj _) => some (.live jarg)
      | .freed => none
      | _ => some .freed
    else some .freed

/-- The object with a member that was set, as it is now. -/
def JsonPtr.withMember : JsonPtr → String → JsonPtr → JsonPtr
  | .live (.obj m), name, .live jarg => .live (.obj (jsonObjectSetNew m name (some jarg)))
  | jparent, _, _ => jparent

/-- `alink_attr2json`: the parent, the bits used, and in order those that each element used. -/
def attr2json (buf : List SChar) :
    AttrElement → JsonPtr → ℕ → ℕ → Bool → Option (JsonPtr × ℕ × List ℕ)
  | .null, jparent, _, _, _ => some (jparent, 0, [])
  | .elem name dataType mask child next, jparent, off, lenbit, bitmapType =>
    (parseBuf2json dataType mask buf off lenbit bitmapType).bind fun (jarg, own) =>
      (objectSetNew jparent name jarg).bind fun jarg =>
        let used := if bitmapType && !next.isNull then 0 else own
        (attr2json buf child jarg (off + used / 8) (lenbit - used) dataType.isBitmap).bind
          fun (jarg, inner, log) =>
            let used := used + inner
            (attr2json buf next (jparent.withMember name jarg) (off + used / 8) (lenbit - used)
              bitmapType).map fun (jparent, behind, log') =>
                (jparent, used + behind, own :: (log ++ log'))

/-- `alink_json2attr`: the buffer, the bits used, and in order those that each element used. -/
def json2attr :
    AttrElement → Option Json → List SChar → ℕ → Bool → Option (List SChar × ℕ × List ℕ)
  | .null, _, buf, _, _ => some (buf, 0, [])
  | .elem name dataType mask child next, jparent, buf, off, bitmapType =>
    let jarg := jparent.bind fun j => jsonObjectGet j name
    (parseJson2buf jarg dataType mask buf off bitmapType).bind fun (buf, own) =>
      let used := if bitmapType && !next.isNull then 0 else own
      (json2attr child jarg buf (off + used / 8) dataType.isBitmap).bind fun (buf, inner, log) =>
        let used := used + inner
        (json2attr next jparent buf (off + used / 8) bitmapType).map fun (buf, behind, log') =>
          (buf, used + behind, own :: (log ++ log'))

namespace AttrProfile

/-- The value that `alink_attr_profile_buf2json` makes of a buffer, with the bits that each element
used. -/
def value (ap : AttrProfile) (buf : List SChar) : Option (Option Json × List ℕ) :=
  (parseBuf2json ap.dataType 0 buf 0 (buf.length * 8) false).bind fun (jargs, used) =>
    (attr2json buf ap.attrElement (jargs.elim .null .live) (used / 8) (buf.length * 8 - used)
      ap.dataType.isBitmap).map fun (jargs, _, log) => (jargs.value, log)

-- The functions of the C library for real numbers.
variable (dtostr : Double → CStr) (strtod : CStr → Option Double)

def buf2json (ap : AttrProfile) (buf : List SChar) : Option (Option CStr × List ℕ) :=
  (ap.value buf).map fun (jargs, log) =>
    match jargs with
    | some (.str u) => (some u, log)
    | jargs => (jargs.bind (jsonDumps dtostr), log)

/-- `alink_attr_profile_json2buf`: the bytes that it writes, or nothing where it returns -1. -/
def json2buf (ap : AttrProfile) (profile : Option CStr) :
    Option (Option (List SChar × List ℕ)) :=
  match profile.bind (Load.jsonLoads strtod) with
  | none => some none
  | some jargs =>
    if ap.attrElement.isNull then none
    else
      (json2attr ap.attrElement (some jargs) (List.replicate 128 0) 0 ap.dataType.isBitmap).bind
        fun (tmpbuf, used, log) =>
          (readBytes tmpbuf 0 (used / 8)).map fun bytes => some (bytes, log)

/-- The buffer comes back byte for byte, and each element uses as many bits on both ways. -/
def RoundTrips (ap : AttrProfile) (buf : List SChar) : Prop :=
  ∃ profile log, ap.buf2json dtostr buf = some (profile, log) ∧
    ap.json2buf strtod profile = some (some (buf, log))

end AttrProfile

section Parents

variable {e : AttrElement} {jparent : Option Json}

end Parents

end Afly
