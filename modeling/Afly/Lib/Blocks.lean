import Mathlib.Tactic

/-! # Functions of blocks

A message is taken block by block: a state is updated once for every full block
of `n` cells, and what does not fill a block is left over. Both depend on the
message alone, not on the pieces it comes in.
-/

namespace Blocks

variable {σ α : Type*}

/-- The state after all full blocks of a message. -/
def absorb (n : ℕ) (f : σ → List α → σ) (s : σ) (l : List α) : σ :=
  (List.range (l.length / n)).foldl (fun s i => f s ((l.drop (n * i)).take n)) s

/-- The cells behind the last full block. -/
def leftover (n : ℕ) (l : List α) : List α := l.drop (n * (l.length / n))

variable {n : ℕ} {f : σ → List α → σ} {s : σ} {b l l' : List α}

theorem absorb_of_lt (h : l.length < n) : absorb n f s l = s := by
  rw [absorb, Nat.div_eq_of_lt h]
  rfl

theorem leftover_of_lt (h : l.length < n) : leftover n l = l := by
  rw [leftover, Nat.div_eq_of_lt h, Nat.mul_zero, List.drop_zero]

theorem div_length_append (hn : 0 < n) (hb : b.length = n) :
    (b ++ l).length / n = l.length / n + 1 := by
  rw [List.length_append, hb, Nat.add_div_left _ hn]

theorem drop_block_append (hb : b.length = n) (i : ℕ) :
    (b ++ l).drop (n * (i + 1)) = l.drop (n * i) := by
  rw [Nat.mul_succ, Nat.add_comm, ← hb, List.drop_append]
  simp

theorem absorb_block_append (hn : 0 < n) (hb : b.length = n) :
    absorb n f s (b ++ l) = absorb n f (f s b) l := by
  rw [absorb, div_length_append hn hb, List.range_succ_eq_map, List.foldl_cons, Nat.mul_zero,
    List.drop_zero, List.take_left' hb, List.foldl_map, absorb]
  simp only [drop_block_append hb]

theorem leftover_block_append (hn : 0 < n) (hb : b.length = n) :
    leftover n (b ++ l) = leftover n l := by
  rw [leftover, div_length_append hn hb, drop_block_append hb, leftover]

theorem length_leftover (l : List α) : (leftover n l).length = l.length % n := by
  rw [leftover, List.length_drop]
  have := Nat.div_add_mod l.length n
  omega

/-- A message has no full block, or it is a block with a message behind it. -/
theorem block_induct {motive : List α → Prop} (hn : 0 < n)
    (short : ∀ l, l.length < n → motive l)
    (block : ∀ b l, b.length = n → motive l → motive (b ++ l)) (l : List α) : motive l := by
  induction hlen : l.length using Nat.strong_induction_on generalizing l with
  | _ k ih =>
    by_cases hl : l.length < n
    · exact short l hl
    · rw [← List.take_append_drop n l]
      refine block _ _ ?_ (ih (l.drop n).length ?_ _ rfl)
      · rw [List.length_take]
        omega
      · rw [List.length_drop]
        omega

theorem absorb_append (hn : 0 < n) : absorb n f s (l ++ l') =
    absorb n f (absorb n f s l) (leftover n l ++ l') := by
  induction l using block_induct hn generalizing s with
  | short l hl => rw [absorb_of_lt hl, leftover_of_lt hl]
  | block b l hb ih =>
    rw [List.append_assoc, absorb_block_append hn hb, ih, absorb_block_append hn hb,
      leftover_block_append hn hb]

theorem leftover_append (hn : 0 < n) : leftover n (l ++ l') = leftover n (leftover n l ++ l') := by
  induction l using block_induct hn with
  | short l hl => rw [leftover_of_lt hl]
  | block b l hb ih =>
    rw [List.append_assoc, leftover_block_append hn hb, ih, leftover_block_append hn hb]

theorem absorb_block (hn : 0 < n) (hb : b.length = n) : absorb n f s b = f s b := by
  have h := absorb_block_append (f := f) (s := s) (l := []) hn hb
  rw [List.append_nil] at h
  rw [h]
  exact absorb_of_lt hn

end Blocks
