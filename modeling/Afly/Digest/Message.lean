import Afly.Digest.Compress

/-! # The digest of a message

The standard pads a message to full blocks and compresses one after the other.
The source never sees the whole message: it holds back what does not fill a
block, counts the bits in two words, and pads in its buffer. Whatever the pieces
are that a message comes in, the digest is that of the message.
-/

namespace Afly.Digest

open Stdio Blocks

/-- A bit, zeros, and the number of bits as eight bytes fill the last block. -/
def sha1Padding (len : ℕ) : List U8 :=
  0x80 :: List.replicate ((119 - len % 64) % 64) 0 ++
    (List.range 8).map fun i => BitVec.ofNat 8 (8 * len / 256 ^ (7 - i))

def sha1Start : Sha1Digest := ⟨0x67452301, 0xefcdab89, 0x98badcfe, 0x10325476, 0xc3d2e1f0⟩

def sha1 (message : List U8) : List U8 :=
  (absorb 64 compress sha1Start (message ++ sha1Padding message.length)).bytes

/-- The structure after a message: the digest of its full blocks, the cells behind them at the
front of the buffer, and the number of its bits in two words. -/
structure Sha1Info.After (info : Sha1Info) (m : List U8) : Prop where
  length_data : info.data.length = 64
  digest : info.digest = absorb 64 compress sha1Start m
  held : info.held = m.length % 64
  data : info.data.take info.held = leftover 64 m
  count : info.countHi ++ info.countLo = BitVec.ofNat (32 + 32) (8 * m.length)

section Update

variable {info : Sha1Info} {m buffer : List U8}

theorem after_sha1Init (h : info.data.length = 64) : (sha1Init info).After [] where
  length_data := h
  digest := rfl
  held := rfl
  data := rfl
  count := show (0 : U32) ++ (0 : U32) = BitVec.ofNat (32 + 32) 0 by decide

theorem toNat_append32 (x y : U32) : (x ++ y : BitVec (32 + 32)).toNat =
    x.toNat * 2 ^ 32 + y.toNat := by
  rw [BitVec.toNat_append, ← Nat.shiftLeft_add_eq_or_of_lt y.isLt, Nat.shiftLeft_eq]

theorem add_carry {hi lo q r : ℕ} (hlo : lo < 2 ^ 32) (hr : r < 2 ^ 32) :
    ((if (lo + r) % 2 ^ 32 < lo then (hi + 1) % 2 ^ 32 else hi) + q) % 2 ^ 32 * 2 ^ 32 +
        (lo + r) % 2 ^ 32 = (hi * 2 ^ 32 + lo + (q * 2 ^ 32 + r)) % 2 ^ 64 := by
  have hsplit (x y : ℕ) (hy : y < 2 ^ 32) :
      x % 2 ^ 32 * 2 ^ 32 + y = (x * 2 ^ 32 + y) % 2 ^ 64 := by
    omega
  have hlow : (lo + r) % 2 ^ 32 < 2 ^ 32 := Nat.mod_lt _ (by decide)
  split
  · have hsum : hi * 2 ^ 32 + lo + (q * 2 ^ 32 + r) =
        (hi + 1 + q) * 2 ^ 32 + (lo + r) % 2 ^ 32 := by
      omega
    rw [Nat.mod_add_mod, hsplit _ _ hlow, hsum]
  · have hsum : hi * 2 ^ 32 + lo + (q * 2 ^ 32 + r) = (hi + q) * 2 ^ 32 + (lo + r) % 2 ^ 32 := by
      omega
    rw [hsplit _ _ hlow, hsum]

theorem count_addCount {n k : ℕ} (hn : n < 2 ^ 31)
    (h : info.countHi ++ info.countLo = BitVec.ofNat (32 + 32) (8 * k)) :
    (info.addCount n).countHi ++ (info.addCount n).countLo =
      BitVec.ofNat (32 + 32) (8 * (k + n)) := by
  have hnat := congrArg BitVec.toNat h
  rw [toNat_append32, BitVec.toNat_ofNat] at hnat
  have hof : (BitVec.ofNat 32 n).toNat = n := by
    rw [BitVec.toNat_ofNat, Nat.mod_eq_of_lt (by omega)]
  have hshl : (BitVec.ofNat 32 n <<< 3).toNat = n * 8 % 2 ^ 32 := by
    rw [BitVec.toNat_shiftLeft, hof, Nat.shiftLeft_eq]
  have hshr : (BitVec.ofNat 32 n >>> 29).toNat = n / 2 ^ 29 := by
    rw [BitVec.toNat_ushiftRight, hof, Nat.shiftRight_eq_div_pow]
  have hone : (1 : U32).toNat = 1 := rfl
  have hsum : 8 * k + (n / 2 ^ 29 * 2 ^ 32 + n * 8 % 2 ^ 32) = 8 * (k + n) := by omega
  apply BitVec.eq_of_toNat_eq
  rw [toNat_append32, BitVec.toNat_ofNat]
  dsimp only [Sha1Info.addCount]
  rw [BitVec.toNat_add, apply_ite BitVec.toNat, BitVec.toNat_add, BitVec.toNat_add, hshl, hshr,
    hone,
    ← hsum, ← Nat.mod_add_mod (8 * k), ← hnat]
  simp only [BitVec.lt_def, BitVec.toNat_add, hshl]
  exact add_carry info.countLo.isLt (Nat.mod_lt _ (by decide))

theorem sha1Blocks_spec (hdata : info.data.length = 64) (buffer : List U8) :
    (sha1Blocks info buffer).data.length = 64 ∧
      (sha1Blocks info buffer).digest = absorb 64 compress info.digest buffer ∧
      (sha1Blocks info buffer).held = buffer.length % 64 ∧
      (sha1Blocks info buffer).data.take (buffer.length % 64) = leftover 64 buffer ∧
      (sha1Blocks info buffer).countHi = info.countHi ∧
      (sha1Blocks info buffer).countLo = info.countLo := by
  induction buffer using block_induct (n := 64) (by decide) generalizing info with
  | short l hl =>
    rw [sha1Blocks, if_neg (by omega), absorb_of_lt hl, leftover_of_lt hl, Nat.mod_eq_of_lt hl]
    refine ⟨?_, rfl, rfl, ?_, rfl, rfl⟩
    · rw [length_overwrite (by omega), hdata]
    · dsimp only
      rw [overwrite_of_le (Nat.zero_le _), List.take_zero, List.nil_append, List.take_left]
  | block b l hb ih =>
    have hlen : (b ++ l).length = 64 + l.length := by rw [List.length_append, hb]
    rw [sha1Blocks, if_pos (by omega), List.take_left' hb, List.drop_left' hb,
      overwrite_to_end (by omega), List.take_zero, List.nil_append, sha1Transform_eq,
      absorb_block_append (by decide) hb,
      leftover_block_append (by decide) hb, hlen, Nat.add_mod_left]
    exact ih hb

theorem take_overwrite_held {data part : List U8} {held : ℕ}
    (h : held + part.length ≤ data.length) :
    (overwrite data held part).take (held + part.length) = data.take held ++ part := by
  rw [overwrite_of_le (by omega), ← List.append_assoc, List.take_left']
  rw [List.length_append, List.length_take]
  omega

/-- The structure after a message and one more piece of it, when the loop takes all that does not
belong to the block begun. -/
theorem after_sha1Blocks {counted : Sha1Info} {rest : List U8} (hdata : counted.data.length = 64)
    (hdigest : absorb 64 compress sha1Start m = absorb 64 compress counted.digest rest)
    (hleft : leftover 64 m = leftover 64 rest) (hmod : m.length % 64 = rest.length % 64)
    (hcount : counted.countHi ++ counted.countLo = BitVec.ofNat (32 + 32) (8 * m.length)) :
    (sha1Blocks counted rest).After m := by
  obtain ⟨hlen, hd, hheld, hl, hhi, hlo⟩ := sha1Blocks_spec hdata rest
  constructor
  · exact hlen
  · rw [hd, hdigest]
  · rw [hheld, hmod]
  · rw [hheld, hl, hleft]
  · rw [hhi, hlo, hcount]

theorem after_sha1Update (h : info.After m) (hlen : buffer.length < 2 ^ 31) :
    (sha1Update info buffer).After (m ++ buffer) := by
  obtain ⟨hdata, hdigest, hheld, hleft, hcount⟩ := h
  have hcount' := count_addCount hlen hcount
  rw [← List.length_append] at hcount'
  have hlength : (m ++ buffer).length % 64 = (info.held + buffer.length) % 64 := by
    rw [List.length_append, hheld, Nat.mod_add_mod]
  have hrest : (leftover 64 m).length = info.held := by rw [length_leftover, hheld]
  have hlt : info.held < 64 := by omega
  -- the count touches neither the buffer nor the digest
  change (info.addCount buffer.length).data.length = 64 at hdata
  change (info.addCount buffer.length).digest = _ at hdigest
  change (info.addCount buffer.length).data.take (info.addCount buffer.length).held = _ at hleft
  change (m ++ buffer).length % 64 = ((info.addCount buffer.length).held + _) % 64 at hlength
  change _ = (info.addCount buffer.length).held at hrest
  change (info.addCount buffer.length).held < 64 at hlt
  rw [sha1Update]
  generalize info.addCount buffer.length = counted at *
  dsimp only
  split_ifs with hzero hfull
  · -- the piece fills the block begun
    have hi : min (64 - counted.held) buffer.length = 64 - counted.held := by omega
    rw [hi] at hfull ⊢
    have hpart : (buffer.take (64 - counted.held)).length = 64 - counted.held := by
      rw [List.length_take]
      omega
    have hblock : overwrite counted.data counted.held (buffer.take (64 - counted.held)) =
        leftover 64 m ++ buffer.take (64 - counted.held) := by
      rw [overwrite_to_end (by omega), hleft]
    have hlenBlock : (leftover 64 m ++ buffer.take (64 - counted.held)).length = 64 := by
      rw [List.length_append, hrest, hpart]
      omega
    have hsplit : leftover 64 m ++ buffer = leftover 64 m ++ buffer.take (64 - counted.held) ++
        buffer.drop (64 - counted.held) := by
      rw [List.append_assoc, List.take_append_drop]
    rw [sha1Transform_eq]
    apply after_sha1Blocks
    · rw [hblock, hlenBlock]
    · rw [absorb_append (by decide), ← hdigest, hsplit, absorb_block_append (by decide) hlenBlock,
        hblock]
    · rw [leftover_append (by decide), hsplit, leftover_block_append (by decide) hlenBlock]
    · rw [hlength, List.length_drop]
      omega
    · exact hcount'
  · -- the piece stays inside the block begun
    have hi : min (64 - counted.held) buffer.length = buffer.length := by omega
    rw [hi] at hfull
    rw [hi, List.take_length]
    have hshort : (leftover 64 m ++ buffer).length < 64 := by
      rw [List.length_append, hrest]
      omega
    constructor
    · rw [length_overwrite (by omega), hdata]
    · rw [absorb_append (by decide), absorb_of_lt hshort, hdigest]
    · rw [hlength, Nat.mod_eq_of_lt (by omega)]
    · rw [leftover_append (by decide), leftover_of_lt hshort, take_overwrite_held (by omega), hleft]
    · exact hcount'
  · -- the piece starts at a block
    have hnil : leftover 64 m = [] := by
      apply List.eq_nil_of_length_eq_zero
      omega
    apply after_sha1Blocks hdata
    · rw [absorb_append (by decide), hnil, List.nil_append, hdigest]
    · rw [leftover_append (by decide), hnil, List.nil_append]
    · rw [hlength]
      congr 1
      omega
    · exact hcount'

theorem after_foldl (hdata : info.data.length = 64) (pieces : List (List U8))
    (hlen : ∀ piece ∈ pieces, piece.length < 2 ^ 31) :
    (pieces.foldl sha1Update (sha1Init info)).After pieces.flatten := by
  induction pieces using List.reverseRecOn with
  | nil => exact after_sha1Init hdata
  | append_singleton pieces piece ih =>
    rw [List.foldl_append, List.flatten_append, List.flatten_singleton]
    apply after_sha1Update
    · exact ih fun p hp => hlen p (List.mem_append_left _ hp)
    · exact hlen piece (by simp)

end Update

section Final

variable {info : Sha1Info} {m : List U8}

theorem wordBytes_eq (w : U32) : wordBytes w =
    [BitVec.ofNat 8 (w.toNat / 2 ^ 24), BitVec.ofNat 8 (w.toNat / 2 ^ 16),
      BitVec.ofNat 8 (w.toNat / 2 ^ 8), BitVec.ofNat 8 w.toNat] := by
  have hbyte (x : U32) : (x &&& 0xff).setWidth 8 = BitVec.ofNat 8 x.toNat := by
    apply BitVec.eq_of_toNat_eq
    rw [BitVec.toNat_setWidth, BitVec.toNat_and, BitVec.toNat_ofNat]
    exact congrArg (· % 2 ^ 8) (Nat.and_two_pow_sub_one_eq_mod _ 8) |>.trans (Nat.mod_mod _ _)
  simp only [wordBytes, hbyte, BitVec.toNat_ushiftRight, Nat.shiftRight_eq_div_pow]

theorem countBytes_eq (h : info.After m) : wordBytes info.countHi ++ wordBytes info.countLo =
    (List.range 8).map fun i => BitVec.ofNat 8 (8 * m.length / 256 ^ (7 - i)) := by
  have hnat := congrArg BitVec.toNat h.count
  rw [toNat_append32, BitVec.toNat_ofNat] at hnat
  have hlo := info.countLo.isLt
  have hhi : info.countHi.toNat = 8 * m.length / 2 ^ 32 % 2 ^ 32 := by omega
  have hlo : info.countLo.toNat = 8 * m.length % 2 ^ 32 := by omega
  rw [wordBytes_eq, wordBytes_eq, hhi, hlo]
  generalize 8 * m.length = bits
  have hbyte (x y : ℕ) (h : x % 2 ^ 8 = y % 2 ^ 8) : BitVec.ofNat 8 x = BitVec.ofNat 8 y := by
    apply BitVec.eq_of_toNat_eq
    rwa [BitVec.toNat_ofNat, BitVec.toNat_ofNat]
  change _ = [BitVec.ofNat 8 (bits / 256 ^ 7), BitVec.ofNat 8 (bits / 256 ^ 6),
    BitVec.ofNat 8 (bits / 256 ^ 5), BitVec.ofNat 8 (bits / 256 ^ 4),
    BitVec.ofNat 8 (bits / 256 ^ 3), BitVec.ofNat 8 (bits / 256 ^ 2),
    BitVec.ofNat 8 (bits / 256 ^ 1), BitVec.ofNat 8 (bits / 256 ^ 0)]
  simp only [List.cons_append, List.nil_append, List.cons.injEq, and_true]
  refine ⟨hbyte _ _ ?_, hbyte _ _ ?_, hbyte _ _ ?_, hbyte _ _ ?_, hbyte _ _ ?_, hbyte _ _ ?_,
    hbyte _ _ ?_, hbyte _ _ ?_⟩ <;> omega

theorem count_eq (h : info.After m) :
    (info.countLo >>> 3 &&& 0x3f).toNat = m.length % 64 := by
  have hnat := congrArg BitVec.toNat h.count
  rw [toNat_append32, BitVec.toNat_ofNat] at hnat
  have hlo := info.countLo.isLt
  rw [BitVec.toNat_and, BitVec.toNat_ushiftRight, Nat.shiftRight_eq_div_pow]
  have hmod : info.countLo.toNat / 2 ^ 3 &&& (0x3f : U32).toNat =
      info.countLo.toNat / 2 ^ 3 % 2 ^ 6 := Nat.and_two_pow_sub_one_eq_mod _ 6
  rw [hmod]
  omega

section Closing

variable {data rest len : List U8}

theorem closing_short (hdata : data.length = 64) (hrest : data.take rest.length = rest)
    (hshort : rest.length < 56) (hlen : len.length = 8) :
    overwrite (overwrite (overwrite data rest.length [0x80]) (rest.length + 1)
      (List.replicate (56 - (rest.length + 1)) 0)) 56 len =
      rest ++ (0x80 :: List.replicate ((119 - rest.length) % 64) 0 ++ len) := by
  have hzeros : (119 - rest.length) % 64 = 56 - (rest.length + 1) := by omega
  have hzeros' : 56 = rest.length + 1 +
      (List.replicate (56 - (rest.length + 1)) (0 : U8)).length := by
    rw [List.length_replicate]
    omega
  rw [overwrite_next hzeros', overwrite_next (by rw [List.length_singleton]), overwrite_to_end,
    hrest, hzeros, List.singleton_append, List.cons_append]
  rw [List.length_append, List.length_append, List.length_singleton, ← Nat.add_assoc,
    ← Nat.add_assoc, ← hzeros', hlen, hdata]

theorem closing_full (hdata : data.length = 64) (hrest : data.take rest.length = rest)
    (hlt : rest.length < 64) :
    overwrite (overwrite data rest.length [0x80]) (rest.length + 1)
      (List.replicate (64 - (rest.length + 1)) 0) =
      rest ++ 0x80 :: List.replicate (64 - (rest.length + 1)) 0 := by
  rw [overwrite_next (by rw [List.length_singleton]), List.singleton_append, overwrite_to_end,
    hrest]
  rw [List.length_cons, List.length_replicate]
  omega

end Closing

theorem sha1Final_after (h : info.After m) : (sha1Final info).1 = sha1 m := by
  have hlast := count_eq h
  have hbytes := countBytes_eq h
  obtain ⟨hdata, hdigest, hheld, hleft, -⟩ := h
  have hrest : (leftover 64 m).length = m.length % 64 := length_leftover m
  have hlt : (leftover 64 m).length < 64 := by omega
  rw [hheld, ← hrest] at hleft
  rw [sha1Final, sha1, sha1Padding, absorb_append (by decide), hlast, ← hbytes, ← hrest]
  generalize leftover 64 m = rest at *
  have hcount : (wordBytes info.countHi ++ wordBytes info.countLo).length = 8 := rfl
  dsimp only
  split_ifs with hfull
  · have hblock := closing_full hdata hleft hlt
    rw [hblock, sha1Transform_eq, sha1Transform_eq]
    dsimp only
    generalize wordBytes info.countHi ++ wordBytes info.countLo = count at *
    have hlen : (rest ++ 0x80 :: List.replicate (64 - (rest.length + 1)) (0 : U8)).length = 64 := by
      rw [List.length_append, List.length_cons, List.length_replicate]
      omega
    have hzeros : (119 - rest.length) % 64 = 64 - (rest.length + 1) + 56 := by omega
    have hpad : rest ++ (0x80 :: List.replicate ((119 - rest.length) % 64) 0 ++ count) =
        rest ++ 0x80 :: List.replicate (64 - (rest.length + 1)) (0 : U8) ++
          (List.replicate 56 0 ++ count) := by
      rw [hzeros, ← List.replicate_append_replicate]
      simp
    have hlast : (List.replicate 56 (0 : U8) ++ count).length = 64 := by
      rw [List.length_append, List.length_replicate, hcount]
    rw [hpad, absorb_block_append (by decide) hlen, absorb_block (by decide) hlast, hdigest]
    generalize rest ++ 0x80 :: List.replicate (64 - (rest.length + 1)) (0 : U8) = block at hlen
    rw [overwrite_next (by rw [Nat.zero_add, List.length_replicate]), overwrite_to_end (by omega),
      List.take_zero, List.nil_append]
  · rw [sha1Transform_eq]
    dsimp only
    generalize wordBytes info.countHi ++ wordBytes info.countLo = count at *
    rw [closing_short hdata hleft (by omega) hcount, absorb_block (by decide), hdigest]
    rw [List.length_append, List.length_append, List.length_cons, List.length_replicate, hcount]
    omega

end Final

/-- Whatever pieces a message comes in, and whatever the structure held before, the digest is that
of the message. -/
theorem sha1Final_foldl (info : Sha1Info) (hdata : info.data.length = 64)
    (pieces : List (List U8)) (hlen : ∀ piece ∈ pieces, piece.length < 2 ^ 31) :
    (sha1Final (pieces.foldl sha1Update (sha1Init info))).1 = sha1 pieces.flatten :=
  sha1Final_after (after_foldl hdata pieces hlen)

/-- A message in three pieces, the second over the end of a block. -/
theorem sha1Final_three_pieces :
    (sha1Final ([List.replicate 60 1, List.replicate 70 2, []].foldl sha1Update
      (sha1Init ⟨sha1Start, 7, 7, List.replicate 64 7, 7⟩))).1 =
      sha1 (List.replicate 60 1 ++ List.replicate 70 2) :=
  sha1Final_foldl _ (by decide) _ (by decide)

end Afly.Digest
