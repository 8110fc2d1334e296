import Afly.Digest.Sha1

/-! # The compression function

SHA-1 as its standard states it: the words of a block are a sequence given by a
recurrence, and a block takes eighty rounds on five words. Both variants of
`sha1_transform` compute it: the loops because each round is one of the
standard, the renamed registers because each macro is the round seen from the
registers whose turn it is.
-/

namespace Afly.Digest

/-- Four bytes of a block, the most significant first. -/
def blockWord (block : List U8) (i : ℕ) : U32 :=
  block.getD (4 * i) 0 ++ block.getD (4 * i + 1) 0 ++ block.getD (4 * i + 2) 0 ++
    block.getD (4 * i + 3) 0

/-- The words of a block: those it consists of, and those that the recurrence gives. -/
def messageWord (block : List U8) (t : ℕ) : U32 :=
  if t < 16 then blockWord block t
  else (messageWord block (t - 3) ^^^ messageWord block (t - 8) ^^^ messageWord block (t - 14) ^^^
    messageWord block (t - 16)).rotateLeft 1

def roundFunction (t : ℕ) (x y z : U32) : U32 :=
  if t < 20 then (x &&& y) ^^^ (~~~x &&& z)
  else if t < 40 then x ^^^ y ^^^ z
  else if t < 60 then (x &&& y) ^^^ (x &&& z) ^^^ (y &&& z)
  else x ^^^ y ^^^ z

def roundConstant (t : ℕ) : U32 :=
  if t < 20 then 0x5a827999 else if t < 40 then 0x6ed9eba1 else if t < 60 then 0x8f1bbcdc
  else 0xca62c1d6

def sha1Round (block : List U8) (s : Sha1Digest) (t : ℕ) : Sha1Digest :=
  ⟨s.h0.rotateLeft 5 + roundFunction t s.h1 s.h2 s.h3 + s.h4 + messageWord block t +
    roundConstant t, s.h0, s.h1.rotateLeft 30, s.h2, s.h3⟩

def compress (h : Sha1Digest) (block : List U8) : Sha1Digest :=
  let s := (List.range 80).foldl (sha1Round block) h
  h.add s.h0 s.h1 s.h2 s.h3 s.h4

theorem r32_eq_rotateLeft (x : U32) {n : ℕ} (h : n < 32) : r32 x n = x.rotateLeft n := by
  rw [BitVec.rotateLeft_def, Nat.mod_eq_of_lt h, r32]

theorem f1_eq (x y z : U32) : f1 x y z = (x &&& y) ^^^ (~~~x &&& z) := by
  ext i hi
  simp only [f1, BitVec.getElem_or, BitVec.getElem_and, BitVec.getElem_xor, BitVec.getElem_not]
  cases x[i] <;> simp

theorem f3_eq (x y z : U32) : f3 x y z = (x &&& y) ^^^ (x &&& z) ^^^ (y &&& z) := by
  ext i hi
  simp only [f3, BitVec.getElem_or, BitVec.getElem_and, BitVec.getElem_xor]
  cases x[i] <;> cases y[i] <;> simp

section Schedule

theorem swapBytes_load32 (x y z w : U8) :
    swapBytes (load32 x y z w) = (x ++ y ++ z ++ w : BitVec (8 + 8 + 8 + 8)) := by
  apply BitVec.eq_of_getLsbD_eq
  intro i hi
  simp only [swapBytes, load32, BitVec.getLsbD_or, BitVec.getLsbD_and, BitVec.getLsbD_shiftLeft,
    BitVec.getLsbD_ushiftRight, BitVec.getLsbD_append, BitVec.getLsbD_setWidth]
  interval_cases i <;> simp

variable (block : List U8)

theorem schedule_prefix (k : ℕ) :
    (List.range' 16 k).foldl
      (fun W i => W ++ [r32 (W.getD (i - 3) 0 ^^^ W.getD (i - 8) 0 ^^^ W.getD (i - 14) 0 ^^^
        W.getD (i - 16) 0) 1]) ((List.range 16).map (loadWord block)) =
      (List.range (16 + k)).map (messageWord block) := by
  induction k with
  | zero =>
    apply List.map_congr_left
    intro i hi
    rw [messageWord, if_pos (List.mem_range.mp hi), loadWord, swapBytes_load32, blockWord]
  | succ k ih =>
    have hget {j : ℕ} (hj : j < 16 + k) :
        ((List.range (16 + k)).map (messageWord block)).getD j 0 = messageWord block j := by
      simp [hj]
    rw [List.range'_concat, List.foldl_append, ih, List.foldl_cons, List.foldl_nil, one_mul,
      hget (by omega), hget (by omega), hget (by omega), hget (by omega),
      r32_eq_rotateLeft _ (by decide), ← Nat.add_assoc, List.range_succ, List.map_append,
      List.map_singleton]
    nth_rewrite 5 [messageWord]
    rw [if_neg (by omega)]

theorem wordSchedule_eq : wordSchedule block = (List.range 80).map (messageWord block) :=
  schedule_prefix block 64

end Schedule

section Rounds

variable {block : List U8} {f : U32 → U32 → U32 → U32} {const : U32} {r : Registers} {k n : ℕ}

/-- The five words that the registers hold for the next round when it is `x`'s turn. -/
def Registers.view (r : Registers) : Turn → Sha1Digest
  | .a => ⟨r.a, r.b, r.c, r.d, r.e⟩
  | .b => ⟨r.t, r.a, r.b, r.c, r.d⟩
  | .c => ⟨r.e, r.t, r.a, r.b, r.c⟩
  | .d => ⟨r.d, r.e, r.t, r.a, r.b⟩
  | .e => ⟨r.c, r.d, r.e, r.t, r.a⟩
  | .t => ⟨r.b, r.c, r.d, r.e, r.t⟩

/-- Whose turn is next. -/
def Turn.next : Turn → Turn
  | .a => .b
  | .b => .c
  | .c => .d
  | .d => .e
  | .e => .t
  | .t => .a

/-- The rounds from `k` on use one function and one constant. -/
def RoundsUse (k n : ℕ) (f : U32 → U32 → U32 → U32) (const : U32) : Prop :=
  ∀ t, k ≤ t → t < k + n → roundFunction t = f ∧ roundConstant t = const

theorem view_fg (h : roundFunction k = f ∧ roundConstant k = const) :
    (fg f const r (messageWord block k)).view .a = sha1Round block (r.view .a) k := by
  simp only [fg, Registers.view, sha1Round, h.1, h.2, r32_eq_rotateLeft _ (show 5 < 32 by decide),
    r32_eq_rotateLeft _ (show 30 < 32 by decide)]

theorem view_run (h : roundFunction k = f ∧ roundConstant k = const) (x : Turn) :
    (x.run f const r (messageWord block k)).view x.next = sha1Round block (r.view x) k := by
  cases x <;>
    simp only [Turn.run, Turn.next, Registers.view, sha1Round, h.1, h.2,
      r32_eq_rotateLeft _ (show 5 < 32 by decide), r32_eq_rotateLeft _ (show 30 < 32 by decide)]

theorem view_loop (h : RoundsUse k n f const) :
    (((List.range' k n).map (messageWord block)).foldl (fg f const) r).view .a =
      (List.range' k n).foldl (sha1Round block) (r.view .a) := by
  induction n generalizing k r with
  | zero => rfl
  | succ n ih =>
    rw [List.range'_succ, List.map_cons, List.foldl_cons, List.foldl_cons,
      ih fun t hk ht => h t (by omega) (by omega), view_fg (h k le_rfl (by omega))]

theorem view_runTurns (h : RoundsUse k n f const) (x : Turn) :
    (runTurns f const (List.iterate Turn.next x n) ((List.range' k n).map (messageWord block))
      r).view (Turn.next^[n] x) = (List.range' k n).foldl (sha1Round block) (r.view x) := by
  induction n generalizing k r x with
  | zero => rfl
  | succ n ih =>
    have hrest := ih (k := k + 1) (r := x.run f const r (messageWord block k)) (x := x.next)
      fun t hk ht => h t (by omega) (by omega)
    rw [view_run (h k le_rfl (by omega))] at hrest
    rw [List.range'_succ, List.foldl_cons, ← hrest]
    rfl

theorem roundsUse_f1 : RoundsUse 0 20 f1 const1 := by
  intro t _ ht
  constructor
  · funext x y z
    rw [roundFunction, if_pos (by omega), f1_eq]
  · rw [roundConstant, if_pos (by omega), const1]

theorem roundsUse_f2 : RoundsUse 20 20 f2 const2 := by
  intro t hk ht
  constructor
  · funext x y z
    rw [roundFunction, if_neg (by omega), if_pos (by omega), f2]
  · rw [roundConstant, if_neg (by omega), if_pos (by omega), const2]

theorem roundsUse_f3 : RoundsUse 40 20 f3 const3 := by
  intro t hk ht
  constructor
  · funext x y z
    rw [roundFunction, if_neg (by omega), if_neg (by omega), if_pos (by omega), f3_eq]
  · rw [roundConstant, if_neg (by omega), if_neg (by omega), if_pos (by omega), const3]

theorem roundsUse_f4 : RoundsUse 60 20 f4 const4 := by
  intro t hk ht
  constructor
  · funext x y z
    rw [roundFunction, if_neg (by omega), if_neg (by omega), if_neg (by omega), f4]
  · rw [roundConstant, if_neg (by omega), if_neg (by omega), if_neg (by omega), const4]

theorem schedule_part (hk : k + n ≤ 80) : ((wordSchedule block).drop k).take n =
    (List.range' k n).map (messageWord block) := by
  have hrange : List.range' k (80 - k) = List.range' k n ++ List.range' (k + n) (80 - (k + n)) := by
    rw [List.range'_append_1]
    congr 1
    omega
  rw [wordSchedule_eq, List.range_eq_range', ← List.map_drop, ← List.map_take, List.drop_range',
    Nat.zero_add, Nat.mul_one, hrange, List.take_left' List.length_range']

theorem rounds_parts (s : Sha1Digest) : (List.range 80).foldl (sha1Round block) s =
    (List.range' 60 20).foldl (sha1Round block) ((List.range' 40 20).foldl (sha1Round block)
      ((List.range' 20 20).foldl (sha1Round block) ((List.range' 0 20).foldl (sha1Round block)
        s))) := by
  rw [← List.foldl_append, ← List.foldl_append, ← List.foldl_append]
  rfl

end Rounds

theorem sha1Transform_eq (info : Sha1Info) :
    sha1Transform info = { info with digest := compress info.digest info.data } := by
  have hview (r : Registers) : info.digest.add r.a r.b r.c r.d r.e =
      info.digest.add (r.view .a).h0 (r.view .a).h1 (r.view .a).h2 (r.view .a).h3 (r.view .a).h4 :=
    rfl
  have hpart : (wordSchedule info.data).take 20 =
      (List.range' 0 20).map (messageWord info.data) := schedule_part (k := 0) (by omega)
  unfold sha1Transform
  dsimp only
  rw [hview, hpart, schedule_part (by omega), schedule_part (by omega), schedule_part (by omega),
    view_loop roundsUse_f4, view_loop roundsUse_f3, view_loop roundsUse_f2, view_loop roundsUse_f1,
    ← rounds_parts, compress]
  rfl

theorem sha1TransformUnravelled_eq (info : Sha1Info) :
    sha1TransformUnravelled info = { info with digest := compress info.digest info.data } := by
  have hview (r : Registers) : info.digest.add r.e r.t r.a r.b r.c =
      info.digest.add (r.view .c).h0 (r.view .c).h1 (r.view .c).h2 (r.view .c).h3 (r.view .c).h4 :=
    rfl
  have hpart : (wordSchedule info.data).take 20 =
      (List.range' 0 20).map (messageWord info.data) := schedule_part (k := 0) (by omega)
  have h1 : unravelled1 = List.iterate Turn.next .a 20 := by decide
  have h2 : unravelled2 = List.iterate Turn.next .c 20 := by decide
  have h3 : unravelled3 = List.iterate Turn.next .e 20 := by decide
  have h4 : unravelled4 = List.iterate Turn.next .a 20 := by decide
  unfold sha1TransformUnravelled
  dsimp only
  rw [hview, hpart, schedule_part (by omega), schedule_part (by omega), schedule_part (by omega),
    h1, h2, h3, h4]
  -- after eighty macros it is the turn of `c`
  have hrun (k : ℕ) (f : U32 → U32 → U32 → U32) (const : U32) (x y : Turn) (r : Registers)
      (h : RoundsUse k 20 f const) (hy : Turn.next^[20] x = y) :
      (runTurns f const (List.iterate Turn.next x 20)
        ((List.range' k 20).map (messageWord info.data)) r).view y =
        (List.range' k 20).foldl (sha1Round info.data) (r.view x) := by
    rw [← hy, view_runTurns h x]
  rw [hrun 60 f4 const4 .a .c _ roundsUse_f4 rfl, hrun 40 f3 const3 .e .a _ roundsUse_f3 rfl,
    hrun 20 f2 const2 .c .e _ roundsUse_f2 rfl, hrun 0 f1 const1 .a .c _ roundsUse_f1 rfl,
    ← rounds_parts, compress]
  rfl

/-- Either variant of the transformation compresses the block in the array into the digest and
changes nothing else. -/
theorem sha1Transform_variants (info : Sha1Info) :
    sha1Transform info = { info with digest := compress info.digest info.data } ∧
      sha1TransformUnravelled info = sha1Transform info := by
  rw [sha1TransformUnravelled_eq, sha1Transform_eq]
  exact ⟨rfl, rfl⟩

end Afly.Digest
