import Afly.Digest.Message

/-! # Keyed digests

`hmac_sha1` with one structure for its three or two digests and one array for
both padded keys. The structure and the arrays hold at first what was on the
stack; the result does not depend on it.
-/

namespace Afly.Digest

open Stdio

/-- The padded key that both digests start with, in the array that may hold another. -/
def padKey (tmpKey key : List U8) (b : U8) : List U8 :=
  overwrite (overwrite tmpKey 0 (key.map (· ^^^ b))) key.length
    (List.replicate (64 - key.length) b)

/-- `hmac_sha1` with the structure `ctx` and the array `tmpKey` as they are found. -/
def hmacSha1 (ctx : Sha1Info) (tmpKey key data : List U8) (resultLength : ℕ) : List U8 :=
  let (key, ctx) :=
    if 64 < key.length then sha1Final (sha1Update (sha1Init ctx) key) else (key, ctx)
  let tmpKey := padKey tmpKey key 0x36
  let (sha, ctx) := sha1Final (sha1Update (sha1Update (sha1Init ctx) tmpKey) data)
  let tmpKey := padKey tmpKey key 0x5c
  let (sha, _) := sha1Final (sha1Update (sha1Update (sha1Init ctx) tmpKey) sha)
  overwrite (List.replicate resultLength 0) 0 (sha.take (min resultLength 20))

def blockKey (key : List U8) : List U8 :=
  let key := if 64 < key.length then sha1 key else key
  key ++ List.replicate (64 - key.length) 0

def hmac (key message : List U8) : List U8 :=
  sha1 ((blockKey key).map (· ^^^ 0x5c) ++ sha1 ((blockKey key).map (· ^^^ 0x36) ++ message))

variable {ctx : Sha1Info} {tmpKey key data : List U8}

theorem length_sha1 (m : List U8) : (sha1 m).length = 20 := rfl

theorem length_overwrite_block {l part : List U8} {pos : ℕ} (hl : l.length = 64)
    (h : pos + part.length ≤ 64) : (overwrite l pos part).length = 64 := by
  rw [length_overwrite (by omega), hl]

theorem length_data_sha1Final {m : List U8} (h : ctx.After m) :
    (sha1Final ctx).2.data.length = 64 := by
  have hlt : m.length % 64 < 64 := Nat.mod_lt _ (by decide)
  have hone : (overwrite ctx.data (m.length % 64) [(0x80 : U8)]).length = 64 := by
    apply length_overwrite_block h.length_data
    rw [List.length_singleton]
    omega
  rw [sha1Final, count_eq h]
  dsimp only
  split_ifs with hfull
  · rw [sha1Transform_eq, sha1Transform_eq]
    dsimp only
    apply length_overwrite_block
    · apply length_overwrite_block
      · apply length_overwrite_block hone
        rw [List.length_replicate]
        omega
      · rw [List.length_replicate]
        omega
    · exact le_rfl
  · rw [sha1Transform_eq]
    dsimp only
    apply length_overwrite_block
    · apply length_overwrite_block hone
      rw [List.length_replicate]
      omega
    · exact le_rfl

theorem sha1Final_pieces (hdata : ctx.data.length = 64) (pieces : List (List U8))
    (hlen : ∀ piece ∈ pieces, piece.length < 2 ^ 31) :
    ∃ ctx', ctx'.data.length = 64 ∧
      sha1Final (pieces.foldl sha1Update (sha1Init ctx)) = (sha1 pieces.flatten, ctx') := by
  have h := after_foldl hdata pieces hlen
  exact ⟨_, length_data_sha1Final h, Prod.ext (sha1Final_after h) rfl⟩

theorem padKey_eq (htmp : tmpKey.length = 64) (hkey : key.length ≤ 64) (b : U8) :
    padKey tmpKey key b = (key ++ List.replicate (64 - key.length) 0).map (· ^^^ b) := by
  have hzero : 0 ^^^ b = b := BitVec.zero_xor
  rw [padKey, overwrite_next (by rw [Nat.zero_add, List.length_map]), overwrite_to_end,
    List.take_zero, List.nil_append, List.map_append, List.map_replicate, hzero]
  rw [List.length_append, List.length_map, List.length_replicate]
  omega

theorem length_padKey (htmp : tmpKey.length = 64) (hkey : key.length ≤ 64) (b : U8) :
    (padKey tmpKey key b).length = 64 := by
  rw [padKey_eq htmp hkey, List.length_map, List.length_append, List.length_replicate]
  omega

theorem digests_eq (hctx : ctx.data.length = 64) (htmp : tmpKey.length = 64)
    (hkey : key.length ≤ 64) (hdata : data.length < 2 ^ 31) :
    let inner := sha1Final (sha1Update (sha1Update (sha1Init ctx) (padKey tmpKey key 0x36)) data)
    (sha1Final (sha1Update (sha1Update (sha1Init inner.2)
      (padKey (padKey tmpKey key 0x36) key 0x5c)) inner.1)).1 =
      sha1 (padKey tmpKey key 0x5c ++ sha1 (padKey tmpKey key 0x36 ++ data)) := by
  have hlen (b : U8) : (padKey tmpKey key b).length < 2 ^ 31 := by
    rw [length_padKey htmp hkey]
    decide
  obtain ⟨ctx', hctx', hinner⟩ := sha1Final_pieces hctx [padKey tmpKey key 0x36, data] (by
    simpa using ⟨hlen 0x36, hdata⟩)
  obtain ⟨_, -, houter⟩ := sha1Final_pieces hctx'
    [padKey tmpKey key 0x5c, sha1 (padKey tmpKey key 0x36 ++ data)] (by
    simpa [length_sha1] using hlen 0x5c)
  have hagain : padKey (padKey tmpKey key 0x36) key 0x5c = padKey tmpKey key 0x5c := by
    rw [padKey_eq (length_padKey htmp hkey _) hkey, padKey_eq htmp hkey]
  simp only [List.foldl_cons, List.foldl_nil, List.flatten_cons, List.flatten_nil,
    List.append_nil] at hinner houter
  dsimp only
  rw [hinner, hagain, houter]

theorem hmacSha1_copy (hctx : ctx.data.length = 64) (htmp : tmpKey.length = 64)
    (hkey : key.length < 2 ^ 31) (hdata : data.length < 2 ^ 31) (n : ℕ) :
    hmacSha1 ctx tmpKey key data n =
      overwrite (List.replicate n 0) 0 ((hmac key data).take (min n 20)) := by
  by_cases hlong : 64 < key.length
  · obtain ⟨ctx', hctx', hhash⟩ := sha1Final_pieces hctx [key] (by simpa using hkey)
    simp only [List.foldl_cons, List.foldl_nil, List.flatten_cons, List.flatten_nil,
      List.append_nil] at hhash
    have hshort : (sha1 key).length ≤ 64 := by
      rw [length_sha1]
      decide
    have hdigests := digests_eq hctx' htmp hshort hdata
    rw [hmacSha1, if_pos hlong, hhash]
    dsimp only at hdigests ⊢
    rw [hdigests, padKey_eq htmp hshort, padKey_eq htmp hshort, hmac, blockKey, if_pos hlong]
  · have hshort : key.length ≤ 64 := Nat.le_of_not_lt hlong
    have hdigests := digests_eq hctx htmp hshort hdata
    rw [hmacSha1, if_neg hlong]
    dsimp only at hdigests ⊢
    rw [hdigests, padKey_eq htmp hshort, padKey_eq htmp hshort, hmac, blockKey, if_neg hlong]

/-- The keyed digest of the standard, cut off or followed by zeros as the caller asks. -/
theorem hmacSha1_eq (ctx : Sha1Info) (tmpKey key data : List U8) (hctx : ctx.data.length = 64)
    (htmp : tmpKey.length = 64) (hkey : key.length < 2 ^ 31) (hdata : data.length < 2 ^ 31)
    (n : ℕ) :
    hmacSha1 ctx tmpKey key data n = (hmac key data).take n ++ List.replicate (n - 20) 0 := by
  have hlen : (hmac key data).length = 20 := rfl
  have hmin : (hmac key data).take (min n 20) = (hmac key data).take n := by
    rw [← hlen, List.take_eq_take_iff]
    omega
  rw [hmacSha1_copy hctx htmp hkey hdata, hmin, overwrite_of_le (Nat.zero_le _), List.take_zero,
    List.nil_append, List.drop_replicate, Nat.zero_add, List.length_take, hlen]
  congr 2
  omega

/-- A key of more than a block, on a stack that held something else. -/
theorem hmacSha1_long_key :
    hmacSha1 ⟨sha1Start, 7, 7, List.replicate 64 7, 7⟩ (List.replicate 64 7)
      (List.replicate 65 1) []
      24 = (hmac (List.replicate 65 1) []).take 24 ++ [0, 0, 0, 0] :=
  hmacSha1_eq _ _ _ _ (by decide) (by decide) (by decide) (by decide) 24

end Afly.Digest
