import Afly.C.Argv
import Afly.C.Hex
import Afly.C.LongLong
import Afly.C.Utf8
import Afly.Lib.Bits

/-! # Values of Zigbee attributes

The conversions between the bytes of an attribute and JSON strings, one pair
for each data type. The loops over a mask run over as many bits as an `int` has
bytes, hex digits are read from the start of a text that begins with `0x`, and
a boolean is written as a whole byte.
-/

namespace Afly

/-- The widths of the numbered data types. -/
structure Width where
  bytes : ℕ
  pos : 0 < bytes
  le : bytes ≤ 8

def Width.bits (n : Width) : ℕ := n.bytes * 8

/-- The data types of `alink_data_types`. -/
inductive ZclDataType where
  | data (n : Width)
  | boolean
  | uint (n : Width)
  | int (n : Width)
  | enum8
  | enum16
  | struct
  | array
  | bitmap (n : Width)
  | clusterId
  | attrId
  | ieeeAddr
  -- those without a conversion, and those that are not in the table
  | other

def ZclDataType.isBitmap : ZclDataType → Bool
  | .bitmap _ => true
  | _ => false

def readBytes (buf : List SChar) (off n : ℕ) : Option (List SChar) :=
  if off + n ≤ buf.length then some ((buf.drop off).take n) else none

/-- `sprintf(tmp, "%02x", c)` for a `char`, which is signed. -/
def sprintfHex (c : SChar) : CStr :=
  if c.msb then "ffffff".toList ++ hexByte false c.toNat else hexByte false c.toNat

/-- `B2J_DATAN`, with an array of 64 bytes for the text. -/
def b2jDataN (n : ℕ) (buf : List SChar) (off lenbit : ℕ) : Option (Option Json × ℕ) :=
  if n ≤ lenbit then do
    let bytes ← readBytes buf off (n / 8)
    let tmp := "0x".toList ++ bytes.flatMap sprintfHex
    if tmp.length < 64 then some (jsonString tmp, n) else none
  else some (none, 0)

def b2jBoolean (buf : List SChar) (off lenbit : ℕ) : Option (Option Json × ℕ) :=
  if 8 ≤ lenbit then (buf[off]?).map fun b => (jsonString (sprintfInt b.toNat), 8)
  else some (none, 0)

/-- `sizeof(mask)`. -/
def sizeofInt : ℕ := 4

def b2jMask (val : LongLong) (mask : BitVec 32) : LongLong :=
  Bits.gather mask.getLsbD val sizeofInt 0

/-- What `B2J_UINTN` and `B2J_INTN` share. -/
def b2jNumber (sprintf : LongLong → CStr) (n : ℕ) (buf : List SChar) (off lenbit : ℕ)
    (mask : BitVec 32) : Option (Option Json × ℕ) :=
  if n ≤ lenbit then do
    let bytes ← readBytes buf off (n / 8)
    let val ← orBytes bytes 0 0
    some (jsonString (sprintf (if mask ≠ 0 then b2jMask val mask else val)), n)
  else some (none, 0)

def b2jUintN := b2jNumber sprintfLlu

def b2jIntN := b2jNumber sprintfLld

/-- A loop that writes bytes one after another, and passes over some. -/
def storeLoop (byte : ℕ → Option SChar) (off : ℕ) : ℕ → ℕ → List SChar → Option (List SChar)
  | 0, _, buf => some buf
  | n + 1, i, buf =>
    match byte i with
    | none => storeLoop byte off n (i + 1) buf
    | some b => (store buf (off + i) b).bind (storeLoop byte off n (i + 1))

def j2bDataN (n : ℕ) (buf : List SChar) (off : ℕ) (jarg : Option Json) : Option (List SChar × ℕ) :=
  match jarg.bind jsonStringValue with
  | none => some (buf, 0)
  | some sval =>
    let len := min (n / 8) (sval.length / 2)
    let byte (i : ℕ) := (hexParseByte (sval.drop (i * 2))).map fun p => BitVec.ofNat 8 p.1
    (storeLoop byte off len 0 buf).map fun buf => (buf, len * 8)

def j2bBoolean (buf : List SChar) (off : ℕ) (jarg : Option Json) : Option (List SChar × ℕ) :=
  match jarg.bind jsonStringValue with
  | none => some (buf, 0)
  | some sval => (store buf off (if atoi sval = 0 then 0 else 1)).map fun buf => (buf, 8)

def j2bUnmask (oldval val : LongLong) (mask : BitVec 32) : LongLong :=
  Bits.scatter mask.getLsbD val sizeofInt 0 0 oldval

/-- What `J2B_UINTN` and `J2B_INTN` share. -/
def j2bNumber (sscanf : CStr → LongLong) (n : ℕ) (buf : List SChar) (off : ℕ) (mask : BitVec 32)
    (jarg : Option Json) : Option (List SChar × ℕ) :=
  match jarg.bind jsonStringValue with
  | none => some (buf, 0)
  | some sval => do
    let lval ← if mask ≠ 0 then do
        let bytes ← readBytes buf off (n / 8)
        let oldval ← orBytes bytes 0 0
        some (j2bUnmask oldval (sscanf sval) mask)
      else some (sscanf sval)
    let byte (i : ℕ) := some ((lval.sshiftRight (i * 8)).setWidth 8)
    let buf ← storeLoop byte off (n / 8) 0 buf
    some (buf, n / 8 * 8)

def j2bUintN := j2bNumber sscanfLlu

def j2bIntN := j2bNumber sscanfLld

/-- `alink_parse_buf2json`, with the functions that the table names. -/
def parseBuf2json (dataType : ZclDataType) (mask : BitVec 32) (buf : List SChar) (off lenbit : ℕ)
    (bitmapType : Bool) : Option (Option Json × ℕ) :=
  match dataType with
  | .data n => b2jDataN n.bits buf off lenbit
  | .boolean => b2jBoolean buf off lenbit
  | .uint n => b2jUintN n.bits buf off lenbit (if bitmapType then mask else 0)
  | .int n => b2jIntN n.bits buf off lenbit (if bitmapType then mask else 0)
  | .enum8 => b2jUintN 8 buf off lenbit (if bitmapType then mask else 0)
  | .enum16 => b2jUintN 16 buf off lenbit (if bitmapType then mask else 0)
  | .struct => some (some (.arr []), 0)
  | .array => some (some (.arr []), 0)
  | .bitmap _ => some (some (.obj []), 0)
  | .clusterId => b2jDataN 16 buf off lenbit
  | .attrId => b2jDataN 16 buf off lenbit
  | .ieeeAddr => b2jDataN 64 buf off lenbit
  | .other => some (none, 0)

def parseJson2buf (jarg : Option Json) (dataType : ZclDataType) (mask : BitVec 32)
    (buf : List SChar) (off : ℕ) (bitmapType : Bool) : Option (List SChar × ℕ) :=
  match dataType with
  | .data n => j2bDataN n.bits buf off jarg
  | .boolean => j2bBoolean buf off jarg
  | .uint n => j2bUintN n.bits buf off (if bitmapType then mask else 0) jarg
  | .int n => j2bIntN n.bits buf off (if bitmapType then mask else 0) jarg
  | .enum8 => j2bUintN 8 buf off (if bitmapType then mask else 0) jarg
  | .enum16 => j2bUintN 16 buf off (if bitmapType then mask else 0) jarg
  | .struct | .array | .bitmap _ => some (buf, 0)
  | .clusterId => j2bDataN 16 buf off jarg
  | .attrId => j2bDataN 16 buf off jarg
  | .ieeeAddr => j2bDataN 64 buf off jarg
  | .other => some (buf, 0)

end Afly
