import Mathlib.Data.List.Induction
import Afly.Lib.Chain

/-! # Chains linked both ways

A doubly linked list is a chain of `next` links from the head and a chain of
`prev` links from the tail that visit the same nodes in opposite order. Each
operation at an end changes one link of the node that was there before.
-/

namespace Chain

variable {P : Type*} {next next' prev prev' : P → Option P} {head tail : Option P} {l : List P}
  {p q : P}

/-- The nodes `l`, from `head` along `next` and from `tail` along `prev`. -/
structure TwoWay (next prev : P → Option P) (head tail : Option P) (l : List P) : Prop where
  forward : Linked next head l
  backward : Linked prev tail l.reverse

theorem TwoWay.symm (h : TwoWay next prev head tail l) : TwoWay prev next tail head l.reverse := by
  refine ⟨h.backward, ?_⟩
  rw [List.reverse_reverse]
  exact h.forward

theorem TwoWay.head_eq (h : TwoWay next prev head tail l) : head = l.head? := by
  cases l with
  | nil => exact h.forward
  | cons p l => exact h.forward.1

theorem TwoWay.tail_eq (h : TwoWay next prev head tail l) : tail = l.getLast? := by
  rw [← List.head?_reverse]
  have hb := h.backward
  cases hl : l.reverse with
  | nil => rw [hl] at hb; exact hb
  | cons p l' => rw [hl] at hb; exact hb.1

theorem TwoWay.pushFront (h : TwoWay next prev head tail l) (hq : q ∉ l)
    (hnext : next' q = head) (hprev : prev' q = none) (hkeep : ∀ p ∈ l, next' p = next p)
    (hhead : ∀ p, head = some p → prev' p = some q)
    (hkeep' : ∀ p ∈ l, head ≠ some p → prev' p = prev p) :
    TwoWay next' prev' (some q) (if tail.isNone then some q else tail) (q :: l) := by
  have hf : Linked next' (some q) (q :: l) := by
    refine ⟨rfl, ?_⟩
    rw [hnext]
    exact h.forward.congr fun p hp => (hkeep p hp).symm
  refine ⟨hf, ?_⟩
  have hb := h.backward
  rw [List.reverse_cons]
  cases l with
  | nil =>
    obtain rfl : tail = none := hb
    exact ⟨rfl, hprev⟩
  | cons p l =>
    have hd := h.forward.nodup
    have htail := h.tail_eq
    rw [List.reverse_cons] at hb ⊢
    have hsome : tail.isNone = false := by
      rw [htail]
      simp [List.getLast?_cons]
    rw [hsome]
    apply hb.concat (by simpa [or_comm] using hq) (hhead p h.forward.1) hprev
    intro r hr
    have hrl : r ∈ l := List.mem_reverse.mp hr
    apply hkeep' r (List.mem_cons_of_mem _ hrl)
    rw [h.forward.1]
    rintro ⟨⟩
    exact (List.nodup_cons.mp hd).1 hrl

theorem TwoWay.popBack (h : TwoWay next prev head tail (l ++ [q]))
    (hkeep : ∀ p ∈ l, prev' p = prev p) (hlast : ∀ p, prev q = some p → next' p = none)
    (hkeep' : ∀ p ∈ l, prev q ≠ some p → next' p = next p) :
    TwoWay next' prev' (if l = [] then none else head) (prev q) l := by
  have hb := h.backward
  rw [List.reverse_append, List.reverse_singleton, List.singleton_append] at hb
  constructor
  · cases l using List.reverseRecOn with
    | nil => rfl
    | append_singleton l p =>
      rw [if_neg (by simp)]
      have hd := h.forward.nodup
      have hpq : prev q = some p := by
        have hb' := hb.2
        rw [List.reverse_append, List.reverse_singleton, List.singleton_append] at hb'
        exact hb'.1
      have hnone : next q = none := h.forward.next_eq_head
      have hf := h.forward
      rw [List.append_assoc, List.singleton_append] at hf hd
      apply hf.unlink ((hlast p hpq).trans hnone.symm)
      intro r hr
      rw [List.append_nil] at hr
      apply hkeep' r (List.mem_append_left _ hr)
      rw [hpq]
      rintro ⟨⟩
      exact (List.nodup_append.mp hd).2.2 p hr p List.mem_cons_self rfl
  · exact hb.2.congr fun p hp => (hkeep p (List.mem_reverse.mp hp)).symm

end Chain
