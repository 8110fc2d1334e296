import Afly.C.Dump
import Afly.Digest.Hmac
import Afly.Provision.Hotp

/-! # The text of a dynamic password

The answer to a request for the password, with the digest and the JSON library
that the program is linked with: six digits at most, from the first four bytes
of the keyed digest of the number of the interval.
-/

namespace Afly

open World Digest

def byteOf (n : ℕ) : U8 := BitVec.ofNat 8 n

/-- What the answer is made with, for the contents of the stack. -/
def Hotp.linked (ctx : Sha1Info) (tmpKey : List U8) (mac : Fin 32 → ℕ)
    (dtostr : Double → CStr) : Hotp where
  hmacSha1 := fun key msg j =>
    ((Digest.hmacSha1 ctx tmpKey (key.map byteOf) (msg.map byteOf) 20).getD j 0).toFin
  dumps := jsonDumps dtostr
  mac := mac

/-- The password of an event-based scheme: the first four bytes of the digest without their first
bit, as a decimal number of six digits. -/
def password (secret counter : List U8) : ℕ :=
  ((hmac secret counter).take 4).foldl (fun n b => n * 2 ^ 8 + b.toNat) 0 % 2 ^ 31 % 10 ^ 6

section

variable {ctx : Sha1Info} {tmpKey : List U8} {mac : Fin 32 → ℕ} {dtostr : Double → CStr}

theorem take_four {l : List U8} (h : 4 ≤ l.length) :
    l.take 4 = [l.getD 0 0, l.getD 1 0, l.getD 2 0, l.getD 3 0] := by
  match l, h with
  | a :: b :: c :: d :: _, _ => rfl

theorem lockPass_linked (hctx : ctx.data.length = 64) (htmp : tmpKey.length = 64)
    (seed interval t : ℤ) {address : List ℕ} (ha : address.length = 8) :
    lockPass (Hotp.linked ctx tmpKey mac dtostr).hmacSha1 seed interval t address =
      password ((bigEndian32 seed ++ address).map byteOf)
        ((bigEndian32 (t.fdiv interval)).map byteOf) := by
  have hkey : ((bigEndian32 seed ++ address).map byteOf).length < 2 ^ 31 := by
    rw [List.length_map, List.length_append, ha]
    exact show 4 + 8 < 2 ^ 31 by decide
  have hmsg : ((bigEndian32 (t.fdiv interval)).map byteOf).length < 2 ^ 31 :=
    show 4 < 2 ^ 31 by decide
  have hhmac (key msg : List U8) : (hmac key msg).length = 20 := rfl
  have hlong (key msg : List U8) : 4 ≤ (hmac key msg).length := by
    rw [hhmac]
    decide
  rw [lockPass, password, take_four (hlong _ _)]
  dsimp only [Hotp.linked]
  rw [hmacSha1_copy hctx htmp hkey hmsg, Nat.min_self, List.take_of_length_le (hhmac _ _).le,
    Stdio.overwrite_to_end (by rw [Nat.zero_add, hhmac, List.length_replicate]), List.take_zero,
    List.nil_append]
  generalize hmac _ _ = d
  have hsum (a b c d : ℕ) : (((0 * 2 ^ 8 + a) * 2 ^ 8 + b) * 2 ^ 8 + c) * 2 ^ 8 + d =
      a * 2 ^ 24 + b * 2 ^ 16 + c * 2 ^ 8 + d := by
    ring
  rw [List.foldl_cons, List.foldl_cons, List.foldl_cons, List.foldl_cons, List.foldl_nil, hsum]
  rfl

theorem dumpQuoted_sprintfInt (n : ℤ) :
    dumpQuoted (sprintfInt n) = quote :: sprintfInt n ++ [quote] := by
  have hplain : ∀ c ∈ sprintfInt n, dumpByte c = [c] := by
    intro c hc
    have hne (d : Char) (hd : d.isDigit = false) (hdash : d ≠ '-') : c ≠ d := by
      rintro rfl
      rcases mem_sprintfInt hc with h | h
      · exact absurd (h.symm.trans hd) (by decide)
      · exact hdash h
    have hlarge : ¬ c.toNat < 0x20 := by
      rcases mem_sprintfInt hc with h | rfl
      · have := (toNat_of_isDigit h).1
        omega
      · decide
    rw [dumpByte, if_neg (hne _ (by decide) (by decide)), if_neg (hne _ (by decide) (by decide)),
      if_neg (hne _ (by decide) (by decide)), if_neg (hne _ (by decide) (by decide)),
      if_neg (hne _ (by decide) (by decide)), if_neg (hne _ (by decide) (by decide)),
      if_neg (hne _ (by decide) (by decide)), if_neg hlarge]
  rw [dumpQuoted, List.flatMap_def, List.map_congr_left hplain, ← List.flatMap_def,
    List.flatMap_singleton']

theorem jsonDumps_dynamicPass (val : ℤ) : jsonDumps dtostr (dynamicPass val) =
    some ("\x7b\"DynamicPass\": \"".toList ++ sprintfInt val ++ "\"\x7d".toList) := by
  have hutf8 : utf8CheckString (sprintfInt val) = true :=
    utf8_of_jsonString (jsonString_ascii fun _ => ascii_sprintfInt)
  have hopen : '\x7b' :: (dumpQuoted "DynamicPass".toList ++ ": ".toList) ++ [quote] =
      "\x7b\"DynamicPass\": \"".toList := by decide
  have hclose : [quote, '\x7d'] = "\"\x7d".toList := by decide
  rw [dynamicPass_eq, jsonDumps, doDump, dumpMembers, doDump, dumpString, if_pos hutf8,
    dumpQuoted_sprintfInt, ← hopen, ← hclose]
  simp

end

/-- The answer to a request for a confirmed password, to the last byte of its text: for a name that
denotes an address and an interval whose number is rounded down it is the password of the standard
digest, whatever the stack holds. -/
theorem subdevGetDynamicReply_linked (env : Env) (w : World) (i : Slot) {address : List ℕ}
    {ctx : Sha1Info} {tmpKey : List U8} (mac : Fin 32 → ℕ) (dtostr : Double → CStr)
    (hctx : ctx.data.length = 64) (htmp : tmpKey.length = 64) (hd : (w.subdevs i).dynamic ≠ 0)
    (hi : (w.subdevs i).interval ≠ 0) (ha : AddressOf (w.subdevs i).deviceName address)
    (hround : (w.subdevs i).interval ∣ env.time 0 ∨ 0 ≤ env.time 0 * (w.subdevs i).interval) :
    w.subdevGetDynamicReply env (Hotp.linked ctx tmpKey mac dtostr) i =
      some (w, 0, some ("\x7b\"DynamicPass\": \"".toList ++
        sprintfInt (password ((bigEndian32 (w.subdevs i).seed ++ address).map byteOf)
          ((bigEndian32 ((env.time 0).fdiv (w.subdevs i).interval)).map byteOf)) ++
        "\"\x7d".toList)) := by
  have hdown : (env.time 0).tdiv (w.subdevs i).interval =
      (env.time 0).fdiv (w.subdevs i).interval := by
    rcases tdiv_cases hi with ⟨-, h⟩ | ⟨h, -⟩
    · exact h
    · exact absurd hround h
  rw [subdevGetDynamicReply_address _ hd hi ha, hdown, lockPass_linked hctx htmp _ _ _ ha.1,
    Int.fdiv_one]
  dsimp only [Hotp.linked]
  rw [jsonDumps_dynamicPass]

/-- A lock that is named by its address. -/
theorem addressed_password :
    (single (confirmedDevice "00158d00026c5415".toList)).subdevGetDynamicReply .quiet
      (Hotp.linked ⟨sha1Start, 7, 7, List.replicate 64 7, 7⟩ (List.replicate 64 7) (fun _ => 7)
        fun _ => []) 0 =
      some (single (confirmedDevice "00158d00026c5415".toList), 0,
        some ("\x7b\"DynamicPass\": \"".toList ++
          sprintfInt (password
            ((bigEndian32 1500000000 ++ [0, 21, 141, 0, 2, 108, 84, 21]).map byteOf)
            ((bigEndian32 ((Env.quiet.time 0).fdiv 1800)).map byteOf)) ++ "\"\x7d".toList)) :=
  subdevGetDynamicReply_linked _ _ _ _ _ (by decide) (by decide) (by decide) (by decide)
    (addressOf_iff.mpr (by decide)) (Or.inr (by decide))

end Afly
