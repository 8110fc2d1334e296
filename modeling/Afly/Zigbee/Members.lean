import Afly.C.Dump
import Afly.Zigbee.Values

/-! # Values at their places

An attribute's value at its place in a buffer has a text, which is written to
the place of a value: to its own, or to that of another one of the same name. A
member says for every byte on its own what a text leaves there, and in closed
form what its own text leaves.
-/

namespace Afly

/-- The bytes that a value of a data type takes. -/
def ZclDataType.bytes : ZclDataType → ℕ
  | .data n | .uint n | .int n | .bitmap n => n.bytes
  | .boolean | .enum8 => 1
  | .enum16 | .clusterId | .attrId => 2
  | .ieeeAddr => 8
  | .struct | .array | .other => 0

/-- The data types of a single value: booleans, data and numbers. -/
def ZclDataType.Single : ZclDataType → Prop
  | .data _ | .boolean | .uint _ | .int _ | .enum8 | .enum16 => True
  | _ => False

def ZclDataType.Number : ZclDataType → Prop
  | .uint _ | .int _ | .enum8 | .enum16 => True
  | _ => False

namespace ZclDataType

theorem Number.isBitmap {t : ZclDataType} (h : t.Number) : t.isBitmap = false := by
  cases t with
  | bitmap => cases h
  | _ => rfl

theorem Single.isBitmap {t : ZclDataType} (h : t.Single) : t.isBitmap = false := by
  cases t with
  | bitmap => cases h
  | _ => rfl

end ZclDataType

/-- The bytes of hex digits that stand for a byte. -/
def signedBytes (b : SChar) : List SChar := if b.msb then [0xff, 0xff, 0xff, b] else [b]

/-- A value of a bitmap with its mask and its place in the buffer. -/
structure Member where
  dataType : ZclDataType
  mask : BitVec 32
  off : ℕ

def dataText (bytes : List SChar) : CStr :=
  "0x".toList ++ hexBytes false none ((bytes.flatMap signedBytes).map BitVec.toNat)

namespace Member

/-- The number in the bytes of a value, as its mask has it. -/
def number (buf : List SChar) (m : Member) : LongLong :=
  let val := ((readBytes buf m.off m.dataType.bytes).bind (orBytes · 0 0)).getD 0
  if m.mask ≠ 0 then b2jMask val m.mask else val

def text (buf : List SChar) (m : Member) : CStr :=
  match m.dataType with
  | .data n => dataText ((buf.drop m.off).take n.bytes)
  | .boolean => sprintfInt (buf.getD m.off 0).toNat
  | .int _ => sprintfLld (m.number buf)
  | _ => sprintfLlu (m.number buf)

def takes (m : Member) (s : CStr) : ℕ :=
  match m.dataType with
  | .data n => min n.bytes (s.length / 2)
  | t => t.bytes

/-- A value that can be read: no number beyond 32 bits, no eight bytes with the highest bit set. -/
def Readable (buf : List SChar) (m : Member) : Prop :=
  match m.dataType with
  | .data n => n.bytes < 8 ∨ ∃ b ∈ (buf.drop m.off).take n.bytes, b.msb = false
  | .boolean => True
  | t => t.bytes ≤ 4

end Member

section Store

variable {byte : ℕ → Option SChar} {off i n : ℕ} {t : List SChar}

end Store

section Numbers

variable {sprintf : LongLong → CStr} {sscanf : CStr → LongLong} {mask : BitVec 32}
  {buf : List SChar} {off n lenbit i j : ℕ} {val : LongLong}

end Numbers

section Data

variable {buf : List SChar} {off n lenbit : ℕ}

end Data

namespace Member

variable {m : Member} {buf : List SChar} {lenbit : ℕ}

end Member

section Texts

end Texts

end Afly
