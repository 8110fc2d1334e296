import Afly.C.Decimal

/-! # Integers of 64 bits

A `long long` as a word of 64 bits: its texts, which `sscanf` reads back, and
the bytes that are put together in it. The bytes are shifted as `int`, so that
the fourth one fills the upper half with its sign and a fifth one has no value.
-/

namespace Afly

abbrev LongLong := BitVec 64

/-- A `char`, which is signed. -/
abbrev SChar := BitVec 8

/-- `sprintf(buf, "%lld", val)`. -/
def sprintfLld (val : LongLong) : CStr := sprintfInt val.toInt

/-- `sprintf(buf, "%llu", val)`. -/
def sprintfLlu (val : LongLong) : CStr := sprintfInt val.toNat

/-- The magnitude of a decimal conversion, with the sign already read. -/
def scanMagnitude (neg : Bool) (s : CStr) : Option (Bool × ℕ) :=
  match s.takeWhile Char.isDigit with
  | [] => none
  | d :: ds => some (neg, Nat.ofDigitChars 10 (d :: ds) 0)

/-- The sign and the magnitude of a decimal conversion. -/
def scanDecimal (s : CStr) : Option (Bool × ℕ) :=
  match s.dropWhile isspace with
  | '-' :: t => scanMagnitude true t
  | '+' :: t => scanMagnitude false t
  | t => scanMagnitude false t

/-- `sscanf(s, "%lld", &val)` with `val` zero before: what `strtoll` makes of the text. -/
def sscanfLld (s : CStr) : LongLong :=
  match scanDecimal s with
  | none => 0
  | some (neg, n) =>
    BitVec.ofInt 64 (max (-2 ^ 63) (min (2 ^ 63 - 1) (if neg then -(n : ℤ) else n)))

/-- `sscanf(s, "%llu", &val)` with `val` zero before: what `strtoull` makes of the text. -/
def sscanfLlu (s : CStr) : LongLong :=
  match scanDecimal s with
  | none => 0
  | some (neg, n) =>
    if 2 ^ 64 ≤ n then BitVec.allOnes 64
    else if neg then -BitVec.ofNat 64 n else BitVec.ofNat 64 n

/-- `x << s` for an `int`, which has no value from 32 places on. -/
def shlInt (x : BitVec 32) (s : ℕ) : Option (BitVec 32) := if s < 32 then some (x <<< s) else none

/-- The loop `val = val | ((buf)[i]&0xff) << (i*8)`. -/
def orBytes : List SChar → ℕ → LongLong → Option LongLong
  | [], _, val => some val
  | b :: bytes, i, val => do
    let v ← shlInt (b.setWidth 32) (i * 8)
    orBytes bytes (i + 1) (val ||| v.signExtend 64)

section Bytes

variable {bytes : List SChar} {val acc : LongLong} {i j k : ℕ}

end Bytes

end Afly
