import Mathlib.Tactic

/-! # Selected bits

The bits of a word at selected positions are gathered into the low bits of
another word, and scattered back from there. What comes back are the selected
bits.
-/

namespace Bits

variable {w : ℕ} (sel : ℕ → Bool)

/-- Put the selected bits below a position behind the bits of `acc`, from the highest on. -/
def gather (val : BitVec w) : ℕ → BitVec w → BitVec w
  | 0, acc => acc
  | i + 1, acc => gather val i (if sel i then acc <<< 1 ||| (val.sshiftRight i &&& 1#w) else acc)

/-- Put the bits of `val` from `j` on at the selected ones of `n` positions from `i` on. -/
def scatter (val : BitVec w) : ℕ → ℕ → ℕ → BitVec w → BitVec w
  | 0, _, _, acc => acc
  | n + 1, i, j, acc =>
    if sel i then scatter val n (i + 1) (j + 1) (acc ||| (val.sshiftRight j &&& 1#w) <<< i)
    else scatter val n (i + 1) j acc

variable {sel} {val acc : BitVec w} {i j k n : ℕ}

end Bits
