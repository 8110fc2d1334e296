import Afly.Lib.Blocks
import Afly.Lib.Stdio

/-! # SHA-1

`sha1.c` with the rounds of its transformation as loops and, as the other
variant of the source has them, with the registers renamed instead of moved. An
array that the source leaves uninitialised holds what its structure held before.
-/

namespace Afly.Digest

open Stdio

abbrev U8 := BitVec 8
abbrev U32 := BitVec 32

def r32 (x : U32) (n : ℕ) : U32 := x <<< n ||| x >>> (32 - n)

def f1 (x y z : U32) : U32 := x &&& y ||| ~~~x &&& z
def f2 (x y z : U32) : U32 := x ^^^ y ^^^ z
def f3 (x y z : U32) : U32 := x &&& y ||| x &&& z ||| y &&& z
def f4 (x y z : U32) : U32 := x ^^^ y ^^^ z

def const1 : U32 := 0x5a827999
def const2 : U32 := 0x6ed9eba1
def const3 : U32 := 0x8f1bbcdc
def const4 : U32 := 0xca62c1d6

@[ext]
structure Sha1Digest where
  h0 : U32
  h1 : U32
  h2 : U32
  h3 : U32
  h4 : U32
  deriving DecidableEq

structure Sha1Info where
  digest : Sha1Digest
  countLo : U32
  countHi : U32
  data : List U8
  held : ℕ

/-- The variables of `sha1_transform`. -/
structure Registers where
  a : U32
  b : U32
  c : U32
  d : U32
  e : U32
  t : U32

def load32 (x y z w : U8) : U32 :=
  x.setWidth 32 ||| y.setWidth 32 <<< 8 ||| z.setWidth 32 <<< 16 ||| w.setWidth 32 <<< 24

/-- The bytes of a loaded word in the other order. -/
def swapBytes (t : U32) : U32 :=
  t <<< 24 &&& 0xff000000 ||| t <<< 8 &&& 0x00ff0000 ||| t >>> 8 &&& 0x0000ff00 |||
    t >>> 24 &&& 0x000000ff

def loadWord (data : List U8) (i : ℕ) : U32 :=
  swapBytes (load32 (data.getD (4 * i) 0) (data.getD (4 * i + 1) 0) (data.getD (4 * i + 2) 0)
    (data.getD (4 * i + 3) 0))

/-- The array `W` after both loops. -/
def wordSchedule (data : List U8) : List U32 :=
  (List.range' 16 64).foldl
    (fun W i => W ++ [r32 (W.getD (i - 3) 0 ^^^ W.getD (i - 8) 0 ^^^ W.getD (i - 14) 0 ^^^
      W.getD (i - 16) 0) 1])
    ((List.range 16).map (loadWord data))

/-- `FG`, one round with the next word. -/
def fg (f : U32 → U32 → U32 → U32) (const : U32) (r : Registers) (w : U32) : Registers :=
  let t := r32 r.a 5 + f r.b r.c r.d + r.e + w + const
  ⟨t, r.a, r32 r.b 30, r.c, r.d, t⟩

/-- The registers at the start, with `t` not yet set. -/
def Sha1Digest.registers (digest : Sha1Digest) (t : U32) : Registers :=
  ⟨digest.h0, digest.h1, digest.h2, digest.h3, digest.h4, t⟩

def Sha1Digest.add (digest : Sha1Digest) (h0 h1 h2 h3 h4 : U32) : Sha1Digest :=
  ⟨digest.h0 + h0, digest.h1 + h1, digest.h2 + h2, digest.h3 + h3, digest.h4 + h4⟩

/-- `sha1_transform` with its four loops. -/
def sha1Transform (info : Sha1Info) : Sha1Info :=
  let W := wordSchedule info.data
  let r := info.digest.registers 0
  let r := (W.take 20).foldl (fg f1 const1) r
  let r := ((W.drop 20).take 20).foldl (fg f2 const2) r
  let r := ((W.drop 40).take 20).foldl (fg f3 const3) r
  let r := ((W.drop 60).take 20).foldl (fg f4 const4) r
  { info with digest := info.digest.add r.a r.b r.c r.d r.e }

def sha1Init (info : Sha1Info) : Sha1Info :=
  { info with
    digest := ⟨0x67452301, 0xefcdab89, 0x98badcfe, 0x10325476, 0xc3d2e1f0⟩
    countLo := 0, countHi := 0, held := 0 }

/-- The loop over full blocks and the copy of the rest. -/
def sha1Blocks (info : Sha1Info) (buffer : List U8) : Sha1Info :=
  if 64 ≤ buffer.length then
    sha1Blocks (sha1Transform { info with data := overwrite info.data 0 (buffer.take 64) })
      (buffer.drop 64)
  else { info with data := overwrite info.data 0 buffer, held := buffer.length }
termination_by buffer.length

/-- The count of bits in `sha1_update`. -/
def Sha1Info.addCount (info : Sha1Info) (count : ℕ) : Sha1Info :=
  let clo := info.countLo + BitVec.ofNat 32 count <<< 3
  let chi := if clo < info.countLo then info.countHi + 1 else info.countHi
  { info with countLo := clo, countHi := chi + BitVec.ofNat 32 count >>> 29 }

def sha1Update (info : Sha1Info) (buffer : List U8) : Sha1Info :=
  let info := info.addCount buffer.length
  if info.held ≠ 0 then
    let i := min (64 - info.held) buffer.length
    let info := { info with
      data := overwrite info.data info.held (buffer.take i), held := info.held + i }
    if info.held = 64 then sha1Blocks (sha1Transform info) (buffer.drop i) else info
  else sha1Blocks info buffer

/-- A word as `sha1_transform_and_copy` writes it. -/
def wordBytes (w : U32) : List U8 :=
  [(w >>> 24 &&& 0xff).setWidth 8, (w >>> 16 &&& 0xff).setWidth 8, (w >>> 8 &&& 0xff).setWidth 8,
    (w &&& 0xff).setWidth 8]

def Sha1Digest.bytes (digest : Sha1Digest) : List U8 :=
  wordBytes digest.h0 ++ wordBytes digest.h1 ++ wordBytes digest.h2 ++ wordBytes digest.h3 ++
    wordBytes digest.h4

/-- `sha1_final`: the digest, and the structure as it is left. -/
def sha1Final (info : Sha1Info) : List U8 × Sha1Info :=
  let count := (info.countLo >>> 3 &&& 0x3f).toNat
  let data := overwrite info.data count [0x80]
  let count := count + 1
  let info :=
    if 56 < count then
      let data := overwrite data count (List.replicate (64 - count) 0)
      let info := sha1Transform { info with data := data }
      { info with data := overwrite info.data 0 (List.replicate 56 0) }
    else { info with data := overwrite data count (List.replicate (56 - count) 0) }
  let info := sha1Transform
    { info with data := overwrite info.data 56 (wordBytes info.countHi ++ wordBytes info.countLo) }
  (info.digest.bytes, info)

/-- The registers take turns: each macro computes the next of them. -/
inductive Turn where
  | a
  | b
  | c
  | d
  | e
  | t
  deriving DecidableEq

/-- `FA` to `FT`, one round without moving the registers. -/
def Turn.run (f : U32 → U32 → U32 → U32) (const : U32) (r : Registers) (w : U32) :
    Turn → Registers
  | .a => { r with t := r32 r.a 5 + f r.b r.c r.d + r.e + w + const, b := r32 r.b 30 }
  | .b => { r with e := r32 r.t 5 + f r.a r.b r.c + r.d + w + const, a := r32 r.a 30 }
  | .c => { r with d := r32 r.e 5 + f r.t r.a r.b + r.c + w + const, t := r32 r.t 30 }
  | .d => { r with c := r32 r.d 5 + f r.e r.t r.a + r.b + w + const, e := r32 r.e 30 }
  | .e => { r with b := r32 r.c 5 + f r.d r.e r.t + r.a + w + const, d := r32 r.d 30 }
  | .t => { r with a := r32 r.b 5 + f r.c r.d r.e + r.t + w + const, c := r32 r.c 30 }

/-- The macros of the variant `UNRAVEL`, twenty with each function. -/
def unravelled1 : List Turn :=
  [.a, .b, .c, .d, .e, .t, .a, .b, .c, .d, .e, .t, .a, .b, .c, .d, .e, .t, .a, .b]
def unravelled2 : List Turn :=
  [.c, .d, .e, .t, .a, .b, .c, .d, .e, .t, .a, .b, .c, .d, .e, .t, .a, .b, .c, .d]
def unravelled3 : List Turn :=
  [.e, .t, .a, .b, .c, .d, .e, .t, .a, .b, .c, .d, .e, .t, .a, .b, .c, .d, .e, .t]
def unravelled4 : List Turn :=
  [.a, .b, .c, .d, .e, .t, .a, .b, .c, .d, .e, .t, .a, .b, .c, .d, .e, .t, .a, .b]

def runTurns (f : U32 → U32 → U32 → U32) (const : U32) (turns : List Turn) (W : List U32)
    (r : Registers) : Registers :=
  (turns.zip W).foldl (fun r p => p.1.run f const r p.2) r

/-- `sha1_transform` in the variant `UNRAVEL`. -/
def sha1TransformUnravelled (info : Sha1Info) : Sha1Info :=
  let W := wordSchedule info.data
  let r := info.digest.registers 0
  let r := runTurns f1 const1 unravelled1 (W.take 20) r
  let r := runTurns f2 const2 unravelled2 ((W.drop 20).take 20) r
  let r := runTurns f3 const3 unravelled3 ((W.drop 40).take 20) r
  let r := runTurns f4 const4 unravelled4 ((W.drop 60).take 20) r
  { info with digest := info.digest.add r.e r.t r.a r.b r.c }

end Afly.Digest
