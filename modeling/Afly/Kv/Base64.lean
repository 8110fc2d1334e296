import Afly.C.Text
import Afly.Digest.Sha1

/-! # Base64

`base64.c` as the key-value store uses it. The decoder looks up whatever stands
in memory, a fill character or a byte behind the text as well; what it finds
there must not reach the output.
-/

namespace Afly.Kv

open Digest (U8)

def encodingTable : List Char :=
  "ABCDEFGHIJKLMNOPQRSTUVWXYZabcdefghijklmnopqrstuvwxyz0123456789+/".toList

/-- The first half of `decoding_table`. -/
def decodingAscii (c : Char) : ℕ :=
  if c = nul then 0xfe
  else if c = '+' then 0x3e
  else if c = '/' then 0x3f
  else if '0' ≤ c ∧ c ≤ '9' then c.toNat - '0'.toNat + 0x34
  else if c = '=' then 0xfe
  else if 'A' ≤ c ∧ c ≤ 'Z' then c.toNat - 'A'.toNat
  else if 'a' ≤ c ∧ c ≤ 'z' then c.toNat - 'a'.toNat + 0x1a
  else 0xff

def base64EncodeSize (len : ℕ) : ℕ := (len + 2) / 3 * 4 + 1

def modTable (r : ℕ) : ℕ := if r = 0 then 0 else if r = 1 then 2 else 1

def encodeTriple (octetA octetB octetC : U8) : CStr :=
  let triple := octetA.toNat <<< 16 + octetB.toNat <<< 8 + octetC.toNat
  [encodingTable.getD (triple >>> 18 &&& 0x3f) nul, encodingTable.getD (triple >>> 12 &&& 0x3f) nul,
    encodingTable.getD (triple >>> 6 &&& 0x3f) nul, encodingTable.getD (triple &&& 0x3f) nul]

def encodeLoop : List U8 → CStr
  | [] => []
  | [a] => encodeTriple a 0 0
  | [a, b] => encodeTriple a b 0
  | a :: b :: c :: input => encodeTriple a b c ++ encodeLoop input

/-- The text of `ABase64_Encode`: fill characters are put over the end of what the loop wrote. -/
def aBase64Encode (input : List U8) : CStr :=
  (encodeLoop input).take (base64EncodeSize input.length - 1 - modTable (input.length % 3)) ++
    List.replicate (modTable (input.length % 3)) '='

section Decode

-- What a lookup of a byte from 128 on finds: `char` may be signed on the target.
variable (wild : Char → U8)

def decodingTable (c : Char) : ℕ :=
  if c.toNat < 0x80 then decodingAscii c else (wild c).toNat

def decodeTriple (a b c d : Char) : List U8 :=
  let triple := decodingTable wild a <<< 18 + decodingTable wild b <<< 12 +
    decodingTable wild c <<< 6 + decodingTable wild d
  [.ofNat 8 (triple >>> 16), .ofNat 8 (triple >>> 8), .ofNat 8 triple]

/-- The rounds of the loop in `ABase64_Decode`, over the text and the memory behind it. -/
def decodeLoop : ℕ → List Char → List U8
  | 0, _ => []
  | rounds + 1, a :: b :: c :: d :: mem => decodeTriple wild a b c d ++ decodeLoop rounds mem
  -- There always is memory for a round.
  | _ + 1, _ => []

/-- `ABase64_DecodeLen`, with the two bytes below the text. -/
def aBase64DecodeLen (below : Char × Char) (encoded : CStr) : ℤ :=
  let ends := (below.1 :: below.2 :: encoded).drop encoded.length
  ((encoded.length * 3 / 4 : ℕ) : ℤ) - ends.count '='

/-- `ABase64_Decode` into an array of the length that `ABase64_DecodeLen` returned: the output, with
the text read from `mem`. -/
def aBase64Decode (oLen : ℤ) (inLen : ℕ) (mem : List Char) : List U8 :=
  (decodeLoop wild ((inLen + 3) / 4) mem).take oLen.toNat

end Decode

/-- The part of the text that is no fill characters. -/
def letters (input : List U8) : CStr := (encodeLoop input).take ((4 * input.length + 2) / 3)

theorem mod_three_cases (n : ℕ) : modTable (n % 3) = 0 ∧ n % 3 = 0 ∨
    modTable (n % 3) = 2 ∧ n % 3 = 1 ∨ modTable (n % 3) = 1 ∧ n % 3 = 2 := by
  unfold modTable
  split_ifs <;> omega

theorem aBase64Encode_eq (input : List U8) : aBase64Encode input =
    letters input ++ List.replicate (modTable (input.length % 3)) '=' := by
  unfold aBase64Encode letters base64EncodeSize
  congr 2
  rcases mod_three_cases input.length with ⟨h, hr⟩ | ⟨h, hr⟩ | ⟨h, hr⟩ <;> omega

theorem length_encodeLoop (input : List U8) :
    (encodeLoop input).length = (input.length + 2) / 3 * 4 := by
  fun_induction encodeLoop input with
  | case1 => rfl
  | case2 a => simp [encodeTriple]
  | case3 a b => simp [encodeTriple]
  | case4 a b c input ih =>
    rw [List.length_append, ih]
    simp only [encodeTriple, List.length_cons, List.length_nil]
    omega

theorem length_letters (input : List U8) :
    (letters input).length = (4 * input.length + 2) / 3 := by
  rw [letters, List.length_take, length_encodeLoop]
  omega

theorem letters_cons (a b c : U8) (input : List U8) :
    letters (a :: b :: c :: input) = encodeTriple a b c ++ letters input := by
  have hsize : (4 * (a :: b :: c :: input).length + 2) / 3 =
      (encodeTriple a b c).length + (4 * input.length + 2) / 3 := by
    simp only [encodeTriple, List.length_cons, List.length_nil]
    omega
  rw [letters, hsize, encodeLoop, List.take_length_add_append, letters]

theorem encodeTriple_eq (a b c : U8) :
    encodeTriple a b c = [encodingTable.getD (a.toNat / 4) nul,
      encodingTable.getD (a.toNat % 4 * 16 + b.toNat / 16) nul,
      encodingTable.getD (b.toNat % 16 * 4 + c.toNat / 64) nul,
      encodingTable.getD (c.toNat % 64) nul] := by
  have hand (n : ℕ) : n &&& 0x3f = n % 64 := Nat.and_two_pow_sub_one_eq_mod n 6
  have ha := a.isLt
  have hb := b.isLt
  have hc := c.isLt
  have h₁ : (a.toNat * 2 ^ 16 + b.toNat * 2 ^ 8 + c.toNat) / 2 ^ 18 % 64 = a.toNat / 4 := by
    omega
  have h₂ : (a.toNat * 2 ^ 16 + b.toNat * 2 ^ 8 + c.toNat) / 2 ^ 12 % 64 =
      a.toNat % 4 * 16 + b.toNat / 16 := by
    omega
  have h₃ : (a.toNat * 2 ^ 16 + b.toNat * 2 ^ 8 + c.toNat) / 2 ^ 6 % 64 =
      b.toNat % 16 * 4 + c.toNat / 64 := by
    omega
  have h₄ : (a.toNat * 2 ^ 16 + b.toNat * 2 ^ 8 + c.toNat) % 64 = c.toNat % 64 := by
    omega
  simp only [encodeTriple, hand, Nat.shiftLeft_eq, Nat.shiftRight_eq_div_pow, h₁, h₂, h₃, h₄]

theorem mem_encodeTriple {a b c : U8} {e : Char} (h : e ∈ encodeTriple a b c) :
    e ∈ encodingTable := by
  have hget : ∀ i < 64, encodingTable.getD i nul ∈ encodingTable := by decide +kernel
  have ha := a.isLt
  have hb := b.isLt
  rw [encodeTriple_eq] at h
  simp only [List.mem_cons, List.not_mem_nil, or_false] at h
  rcases h with rfl | rfl | rfl | rfl <;> exact hget _ (by omega)

theorem mem_encodeLoop {input : List U8} {e : Char} (h : e ∈ encodeLoop input) :
    e ∈ encodingTable := by
  fun_induction encodeLoop input with
  | case1 => cases h
  | case2 => exact mem_encodeTriple h
  | case3 => exact mem_encodeTriple h
  | case4 a b c input ih =>
    rcases List.mem_append.mp h with h | h
    · exact mem_encodeTriple h
    · exact ih h

theorem mem_letters {input : List U8} {e : Char} (h : e ∈ letters input) : e ∈ encodingTable :=
  mem_encodeLoop (List.mem_of_mem_take h)

theorem nul_notMem_aBase64Encode (input : List U8) : nul ∉ aBase64Encode input := by
  rw [aBase64Encode_eq, List.mem_append]
  rintro (h | h)
  · exact absurd (mem_letters h) (by decide)
  · exact absurd (List.eq_of_mem_replicate h) (by decide)

section Decode

variable {wild : Char → U8} {input : List U8}

theorem decodingTable_lt (c : Char) : decodingTable wild c < 256 := by
  unfold decodingTable
  split_ifs
  · have hdigit : ∀ a b : Char, c ≤ a → b ≤ c → c.toNat - b.toNat ≤ a.toNat - b.toNat :=
      fun a b ha _ => Nat.sub_le_sub_right ha b.toNat
    unfold decodingAscii
    split_ifs with _ _ _ h _ h h
    iterate 3 decide
    · have := hdigit _ _ h.2 h.1
      simp only [Char.reduceToNat] at this ⊢
      omega
    · decide
    · have := hdigit _ _ h.2 h.1
      simp only [Char.reduceToNat] at this ⊢
      omega
    · have := hdigit _ _ h.2 h.1
      simp only [Char.reduceToNat] at this ⊢
      omega
    · decide
  · exact (wild c).isLt

theorem decodingTable_encodingTable {n : ℕ} (h : n < 64) :
    decodingTable wild (encodingTable.getD n nul) = n := by
  have htable : ∀ i < 64, (encodingTable.getD i nul).toNat < 0x80 ∧
      decodingAscii (encodingTable.getD i nul) = i := by
    decide +kernel
  rw [decodingTable, if_pos (htable n h).1, (htable n h).2]

theorem decodeTriple_eq {p q r s : Char} {x y z w : ℕ} (hp : decodingTable wild p = x)
    (hq : decodingTable wild q = y) (hr : decodingTable wild r = z)
    (hs : decodingTable wild s = w) : decodeTriple wild p q r s =
      [.ofNat 8 ((x * 2 ^ 18 + y * 2 ^ 12 + z * 2 ^ 6 + w) / 2 ^ 16),
        .ofNat 8 ((x * 2 ^ 18 + y * 2 ^ 12 + z * 2 ^ 6 + w) / 2 ^ 8),
        .ofNat 8 (x * 2 ^ 18 + y * 2 ^ 12 + z * 2 ^ 6 + w)] := by
  simp only [decodeTriple, hp, hq, hr, hs, Nat.shiftLeft_eq, Nat.shiftRight_eq_div_pow]

theorem ofNat_byte {n : ℕ} {a : U8} (h : n % 256 = a.toNat) : BitVec.ofNat 8 n = a :=
  BitVec.eq_of_toNat_eq ((BitVec.toNat_ofNat n 8).trans h)

theorem decodeLoop_letters {rounds : ℕ} (hrounds : input.length ≤ 3 * rounds) {tail : List Char}
    (htail : 2 ≤ tail.length) :
    (decodeLoop wild rounds (letters input ++ tail)).take input.length = input := by
  induction input using encodeLoop.induct generalizing rounds with
  | case1 => rfl
  | case2 a =>
    obtain ⟨rounds, rfl⟩ : ∃ k, rounds = k + 1 := ⟨rounds - 1, by
      simp only [List.length_cons] at hrounds
      omega⟩
    obtain ⟨r, s, tail, rfl⟩ : ∃ r s t, tail = r :: s :: t := by
      match tail, htail with
      | r :: s :: t, _ => exact ⟨r, s, t, rfl⟩
    have ha := a.isLt
    have hr : decodingTable wild r < 256 := decodingTable_lt r
    have hs : decodingTable wild s < 256 := decodingTable_lt s
    have hletters : letters [a] = [encodingTable.getD (a.toNat / 4) nul,
        encodingTable.getD (a.toNat % 4 * 16) nul] := by
      simp [letters, encodeLoop, encodeTriple_eq]
    rw [hletters, List.cons_append, List.cons_append, List.nil_append, decodeLoop, decodeTriple_eq
      (decodingTable_encodingTable (by omega)) (decodingTable_encodingTable (by omega)) rfl rfl]
    exact congrArg (fun b => [b]) (ofNat_byte (by omega))
  | case3 a b =>
    obtain ⟨rounds, rfl⟩ : ∃ k, rounds = k + 1 := ⟨rounds - 1, by
      simp only [List.length_cons] at hrounds
      omega⟩
    obtain ⟨s, tail, rfl⟩ : ∃ s t, tail = s :: t := by
      match tail, htail with
      | s :: t, _ => exact ⟨s, t, rfl⟩
    have ha := a.isLt
    have hb := b.isLt
    have hs : decodingTable wild s < 256 := decodingTable_lt s
    have hletters : letters [a, b] = [encodingTable.getD (a.toNat / 4) nul,
        encodingTable.getD (a.toNat % 4 * 16 + b.toNat / 16) nul,
        encodingTable.getD (b.toNat % 16 * 4) nul] := by
      simp [letters, encodeLoop, encodeTriple_eq]
    rw [hletters, List.cons_append, List.cons_append, List.cons_append, List.nil_append,
      decodeLoop, decodeTriple_eq (decodingTable_encodingTable (by omega))
      (decodingTable_encodingTable (by omega)) (decodingTable_encodingTable (by omega)) rfl]
    exact congrArg₂ (fun a b => [a, b]) (ofNat_byte (by omega)) (ofNat_byte (by omega))
  | case4 a b c input ih =>
    obtain ⟨rounds, rfl⟩ : ∃ k, rounds = k + 1 := ⟨rounds - 1, by
      simp only [List.length_cons] at hrounds
      omega⟩
    have ha := a.isLt
    have hb := b.isLt
    have hc := c.isLt
    have hround : decodeLoop wild (rounds + 1) (letters (a :: b :: c :: input) ++ tail) =
        [a, b, c] ++ decodeLoop wild rounds (letters input ++ tail) := by
      rw [letters_cons, encodeTriple_eq, List.append_assoc]
      simp only [List.cons_append, List.nil_append]
      rw [decodeLoop, decodeTriple_eq (decodingTable_encodingTable (by omega))
        (decodingTable_encodingTable (by omega)) (decodingTable_encodingTable (by omega))
        (decodingTable_encodingTable (by omega))]
      simp only [List.cons_append, List.nil_append]
      congr 1
      · exact ofNat_byte (by omega)
      · congr 1
        · exact ofNat_byte (by omega)
        · congr 1
          exact ofNat_byte (by omega)
    rw [hround, List.length_cons, List.length_cons, List.length_cons]
    simp only [List.cons_append, List.nil_append, List.take_succ_cons]
    rw [ih (by simp only [List.length_cons] at hrounds; omega)]

theorem take_aBase64Encode {m : ℕ} (hm : (letters input).length ≤ m) :
    ∃ fill ≤ modTable (input.length % 3), (aBase64Encode input).take m =
      letters input ++ List.replicate fill '=' := by
  refine ⟨min (m - (letters input).length) (modTable (input.length % 3)), Nat.min_le_right _ _, ?_⟩
  rw [aBase64Encode_eq, List.take_append, List.take_of_length_le hm, List.take_replicate]

theorem aBase64DecodeLen_fill (below : Char × Char) (hinput : input ≠ []) {fill : ℕ}
    (hfill : fill ≤ modTable (input.length % 3)) :
    aBase64DecodeLen below (letters input ++ List.replicate fill '=') = input.length := by
  have hlen := length_letters input
  have hpos := List.length_pos_iff.mpr hinput
  have hcount : ((below.1 :: below.2 :: (letters input ++ List.replicate fill '=')).drop
      (letters input ++ List.replicate fill '=').length).count '=' = fill := by
    have hsize : (letters input ++ List.replicate fill '=').length =
        (letters input).length + fill - 2 + 2 := by
      rw [List.length_append, List.length_replicate]
      omega
    have hfit : (letters input).length + fill - 2 - (letters input).length = 0 := by
      rcases mod_three_cases input.length with ⟨h, hr⟩ | ⟨h, hr⟩ | ⟨h, hr⟩ <;> omega
    have hnone : '=' ∉ (letters input).drop ((letters input).length + fill - 2) := fun h =>
      absurd (mem_letters (List.mem_of_mem_drop h)) (by decide)
    rw [hsize, List.drop_succ_cons, List.drop_succ_cons, List.drop_append, hfit, List.drop_zero,
      List.count_append, List.count_eq_zero_of_not_mem hnone, List.count_replicate_self,
      Nat.zero_add]
  rw [aBase64DecodeLen]
  simp only [hcount]
  rw [List.length_append, List.length_replicate, hlen]
  rcases mod_three_cases input.length with ⟨h, hr⟩ | ⟨h, hr⟩ | ⟨h, hr⟩ <;> omega

theorem aBase64DecodeLen_short (below : Char × Char) {encoded : CStr}
    (h : encoded.length < (letters input).length) :
    aBase64DecodeLen below encoded < input.length := by
  rw [length_letters] at h
  simp only [aBase64DecodeLen]
  omega

theorem aBase64Decode_fill {fill inLen : ℕ}
    (hlen : inLen = (letters input ++ List.replicate fill '=').length) {rest : List Char}
    (hrest : 2 ≤ rest.length) :
    aBase64Decode wild input.length inLen (letters input ++ List.replicate fill '=' ++ rest) =
      input := by
  rw [aBase64Decode, Int.toNat_natCast, List.append_assoc]
  refine decodeLoop_letters ?_ ?_
  · rw [hlen, List.length_append, length_letters]
    omega
  · rw [List.length_append]
    omega

end Decode

end Afly.Kv
