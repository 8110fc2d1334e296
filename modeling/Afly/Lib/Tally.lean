import Mathlib.Algebra.Order.BigOperators.Group.Finset
import Mathlib.Algebra.Order.Group.Multiset
import Mathlib.Data.Fintype.BigOperators
import Mathlib.Tactic.Abel

/-! # Tallies of a finite table

The tally of a table collects, with multiplicity, the values of the cells that
satisfy a predicate. Overwriting one cell changes the tally by the old and the
new value of that cell only.
-/

namespace Tally

variable {ι α β : Type*} [Fintype ι] [DecidableEq ι]

/-- The values `f` of the cells that satisfy `p`, with multiplicity. -/
def tally (p : α → Prop) [DecidablePred p] (f : α → β) (t : ι → α) : Multiset β :=
  ∑ j, if p (t j) then {f (t j)} else 0

variable {p q : α → Prop} [DecidablePred p] [DecidablePred q] {f : α → β} {t : ι → α}
  {j : ι} {x : α}

omit [DecidableEq ι] in
theorem card_tally : (tally p f t).card = (Finset.univ.filter fun j => p (t j)).card := by
  rw [tally, Multiset.card_sum, Finset.card_filter]
  exact Finset.sum_congr rfl fun j _ => by split <;> simp

omit [DecidableEq ι] in
theorem mem_tally {b : β} : b ∈ tally p f t ↔ ∃ j, p (t j) ∧ f (t j) = b := by
  simp only [tally, Multiset.mem_sum, Finset.mem_univ, true_and]
  apply exists_congr
  intro j
  split <;> rename_i h <;> simp [h, eq_comm]

omit [DecidableEq ι] in
theorem tally_le (h : ∀ j, p (t j) → q (t j)) : tally p f t ≤ tally q f t := by
  apply Finset.sum_le_sum
  intro j _
  by_cases hp : p (t j)
  · simp [hp, h j hp]
  · simp [hp]

/-- Overwriting a cell trades its old contribution for its new one. -/
theorem tally_update : tally p f (Function.update t j x) + (if p (t j) then {f (t j)} else 0) =
    tally p f t + (if p x then {f x} else 0) := by
  rw [tally, tally, ← Finset.add_sum_erase _ _ (Finset.mem_univ j),
    ← Finset.add_sum_erase _ (fun k => if p (t k) then {f (t k)} else 0) (Finset.mem_univ j)]
  have hrest : (∑ k ∈ Finset.univ.erase j,
      if p (Function.update t j x k) then {f (Function.update t j x k)} else (0 : Multiset β)) =
      ∑ k ∈ Finset.univ.erase j, if p (t k) then {f (t k)} else 0 :=
    Finset.sum_congr rfl fun k hk => by rw [Function.update_of_ne (Finset.ne_of_mem_erase hk)]
  rw [hrest, Function.update_self]
  abel

theorem tally_update_add (hold : ¬ p (t j)) (hnew : p x) :
    tally p f (Function.update t j x) = f x ::ₘ tally p f t := by
  have h := tally_update (p := p) (f := f) (t := t) (j := j) (x := x)
  rw [if_neg hold, if_pos hnew, add_zero] at h
  rw [h, Multiset.add_comm, Multiset.singleton_add]

theorem tally_update_erase [DecidableEq β] (hold : p (t j)) (hnew : ¬ p x) :
    tally p f (Function.update t j x) = (tally p f t).erase (f (t j)) := by
  have h := tally_update (p := p) (f := f) (t := t) (j := j) (x := x)
  rw [if_pos hold, if_neg hnew, add_zero, Multiset.add_comm, Multiset.singleton_add] at h
  rw [← h, Multiset.erase_cons_head]

theorem tally_update_of_not (hold : ¬ p (t j)) (hnew : ¬ p x) :
    tally p f (Function.update t j x) = tally p f t := by
  have h := tally_update (p := p) (f := f) (t := t) (j := j) (x := x)
  rwa [if_neg hold, if_neg hnew, add_zero, add_zero] at h

theorem tally_update_same (hp : p (t j) ↔ p x) (hf : f (t j) = f x) :
    tally p f (Function.update t j x) = tally p f t := by
  have h := tally_update (p := p) (f := f) (t := t) (j := j) (x := x)
  simp only [hp, hf] at h
  exact add_right_cancel h

end Tally
