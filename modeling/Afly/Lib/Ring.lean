import Afly.Lib.TwoWay

/-! # Rings with a head

A circular list through a head that is no node: the head links to the first node
and to the last one. With `none` for the head, such a ring is a chain that is
linked both ways, and a place in it is a node or the head.
-/

namespace Chain

variable {P : Type*} {next next' prev prev' : Option P → Option P} {l l₁ l₂ : List P} {p q : P}

/-- The nodes `l` around a ring, in both directions. -/
def Ring (next prev : Option P → Option P) (l : List P) : Prop :=
  TwoWay (next ∘ some) (prev ∘ some) (next none) (prev none) l

/-- The place in front of what follows a part of a ring. -/
def place (x : Option P) (l : List P) : Option P := (l.getLast?).or x

@[simp] theorem place_nil (x : Option P) : place x [] = x := rfl

@[simp] theorem place_cons (x : Option P) (p : P) (l : List P) :
    place x (p :: l) = place (some p) l := by
  rw [place, place, List.getLast?_cons]
  cases l.getLast? <;> rfl

theorem place_none (l : List P) : place none l = l.getLast? := Option.or_none

theorem place_mem (x : Option P) (l : List P) : place x l = x ∨ ∃ p ∈ l, place x l = some p := by
  unfold place
  cases h : l.getLast? with
  | none => exact Or.inl rfl
  | some p => exact Or.inr ⟨p, List.mem_of_getLast? h, rfl⟩

/-- The link from a place leads on to what follows it. -/
theorem Linked.next_place {x : Option P} (h : Linked (next ∘ some) (next x) (l₁ ++ l₂)) :
    Linked (next ∘ some) (next (place x l₁)) l₂ := by
  induction l₁ generalizing x with
  | nil => exact h
  | cons p l₁ ih =>
    rw [place_cons]
    exact ih h.2

theorem Linked.redirect {x : Option P} (h : Linked (next ∘ some) (next x) (l₁ ++ l₂))
    (hx : ∀ p, x = some p → p ∉ l₁) {l : List P}
    (hl : Linked (next' ∘ some) (next' (place x l₁)) l)
    (hkeep : ∀ y, (y = x ∨ ∃ p ∈ l₁, y = some p) → y ≠ place x l₁ → next' y = next y) :
    Linked (next' ∘ some) (next' x) (l₁ ++ l) := by
  induction l₁ generalizing x with
  | nil => exact hl
  | cons p l₁ ih =>
    rw [place_cons] at hl hkeep
    have hp : p ∉ l₁ := (List.nodup_cons.mp (List.nodup_append.mp h.nodup).1).1
    have hne : x ≠ place (some p) l₁ := by
      rintro rfl
      rcases place_mem (some p) l₁ with he | ⟨q, hq, he⟩
      · exact hx p he List.mem_cons_self
      · exact hx q he (List.mem_cons_of_mem _ hq)
    refine ⟨(hkeep x (Or.inl rfl) hne).trans h.1, ?_⟩
    refine ih h.2 (fun q hq => Option.some.inj hq ▸ hp) hl fun y hy hny => hkeep y ?_ hny
    rcases hy with rfl | ⟨q, hq, rfl⟩
    · exact Or.inr ⟨p, List.mem_cons_self, rfl⟩
    · exact Or.inr ⟨q, List.mem_cons_of_mem _ hq, rfl⟩

namespace Ring

theorem symm (h : Ring next prev l) : Ring prev next l.reverse := TwoWay.symm h

theorem nodup (h : Ring next prev l) : l.Nodup := h.forward.nodup

theorem next_place (h : Ring next prev (l₁ ++ l₂)) : next l₁.getLast? = l₂.head? := by
  rw [← place_none]
  have hl := h.forward.next_place
  cases l₂ with
  | nil => exact hl
  | cons p l₂ => exact hl.1

theorem prev_place (h : Ring next prev (l₁ ++ l₂)) : prev l₂.head? = l₁.getLast? := by
  have hr := h.symm
  rw [List.reverse_append] at hr
  have hn := hr.next_place
  rwa [List.getLast?_reverse, List.head?_reverse] at hn

theorem congr (h : Ring next prev l) (hnext : ∀ x, (∀ p, x = some p → p ∈ l) → next' x = next x)
    (hprev : ∀ x, (∀ p, x = some p → p ∈ l) → prev' x = prev x) : Ring next' prev' l := by
  constructor
  · rw [hnext none (by simp)]
    exact h.forward.congr fun p hp => (hnext (some p) (by simpa using hp)).symm
  · rw [hprev none (by simp)]
    exact h.backward.congr fun p hp =>
      (hprev (some p) (by simpa using List.mem_reverse.mp hp)).symm

end Ring

theorem Linked.splice [DecidableEq P] (h : Linked (next ∘ some) (next none) (l₁ ++ l₂))
    (hq : q ∉ l₁ ++ l₂) : Linked (Function.update (Function.update next (some q) l₂.head?)
      l₁.getLast? (some q) ∘ some) (Function.update (Function.update next (some q) l₂.head?)
      l₁.getLast? (some q) none) (l₁ ++ q :: l₂) := by
  rw [List.mem_append, not_or] at hq
  have hplace : l₁.getLast? ≠ some q := fun he => hq.1 (List.mem_of_getLast? he)
  have hnodup := List.nodup_append.mp h.nodup
  have hrest := h.next_place
  rw [place_none] at hrest
  have hhead : next l₁.getLast? = l₂.head? := by
    cases l₂ with
    | nil => exact hrest
    | cons p l₂ => exact hrest.1
  refine h.redirect (by simp) ?_ fun y hy hny => ?_
  · rw [place_none, Function.update_self]
    refine ⟨rfl, ?_⟩
    rw [Function.comp_apply, Function.update_of_ne hplace.symm, Function.update_self, ← hhead]
    refine hrest.congr fun p hp => ?_
    rw [Function.comp_apply, Function.comp_apply, Function.update_of_ne, Function.update_of_ne]
    · rintro ⟨⟩
      exact hq.2 hp
    · intro he
      exact hnodup.2.2 p (List.mem_of_getLast? he.symm) p hp rfl
  · rw [place_none] at hny
    rw [Function.update_of_ne hny, Function.update_of_ne]
    rcases hy with rfl | ⟨p, hp, rfl⟩
    · simp
    · rintro ⟨⟩
      exact hq.1 hp

theorem Linked.excise [DecidableEq P] (h : Linked (next ∘ some) (next none) (l₁ ++ p :: l₂)) :
    Linked (Function.update next l₁.getLast? (next (some p)) ∘ some)
      (Function.update next l₁.getLast? (next (some p)) none) (l₁ ++ l₂) := by
  have hnodup := List.nodup_append.mp h.nodup
  have hrest := h.next_place
  refine h.redirect (by simp) ?_ fun y _ hny => ?_
  · rw [place_none, Function.update_self]
    refine hrest.2.congr fun q hq => ?_
    rw [Function.comp_apply, Function.comp_apply, Function.update_of_ne]
    intro he
    exact hnodup.2.2 q (List.mem_of_getLast? he.symm) q (List.mem_cons_of_mem _ hq) rfl
  · rw [place_none] at hny
    rw [Function.update_of_ne hny]

namespace Ring

variable [DecidableEq P]

/-- A fresh node between two parts of a ring. -/
theorem insert (h : Ring next prev (l₁ ++ l₂)) (hq : q ∉ l₁ ++ l₂) :
    Ring (Function.update (Function.update next (some q) l₂.head?) l₁.getLast? (some q))
      (Function.update (Function.update prev (some q) l₁.getLast?) l₂.head? (some q))
      (l₁ ++ q :: l₂) := by
  refine ⟨h.forward.splice hq, ?_⟩
  have hr := h.backward
  rw [List.reverse_append] at hr
  have hs := hr.splice (q := q) (by simpa [or_comm] using hq)
  rw [List.head?_reverse, List.getLast?_reverse] at hs
  simpa using hs

theorem remove (h : Ring next prev (l₁ ++ p :: l₂)) :
    Ring (Function.update next (prev (some p)) (next (some p)))
      (Function.update prev (next (some p)) (prev (some p))) (l₁ ++ l₂) := by
  have hprev : prev (some p) = l₁.getLast? := h.prev_place
  have hsplit : Ring next prev ((l₁ ++ [p]) ++ l₂) := by simpa using h
  have hnext : next (some p) = l₂.head? := by
    have hn := hsplit.next_place
    rwa [List.getLast?_concat] at hn
  constructor
  · have hs := h.forward.excise
    rwa [← hprev] at hs
  · have hr := h.backward
    rw [List.reverse_append, List.reverse_cons, List.append_assoc, List.singleton_append] at hr
    have hs := hr.excise
    rwa [List.getLast?_reverse, ← hnext, ← List.reverse_append] at hs

end Ring

end Chain
