import Mathlib.Logic.Function.Basic
import Mathlib.Data.List.Nodup

/-! # Null-terminated chains of links

A heap gives each node the link to its successor. `Linked next h l` says that
the chain that starts at the link `h` visits exactly the nodes `l` and ends.
Such a chain is unique and never repeats a node, and it survives every change
of links outside it.
-/

namespace Chain

variable {P : Type*} {next next' : P → Option P} {h : Option P} {l l' : List P} {p q : P}

/-- The chain of links from `h` visits the nodes `l` in order and then ends. -/
def Linked (next : P → Option P) : Option P → List P → Prop
  | h, [] => h = none
  | h, p :: l => h = some p ∧ Linked next (next p) l

@[simp] theorem linked_nil : Linked next h [] ↔ h = none := Iff.rfl

@[simp] theorem linked_cons : Linked next h (p :: l) ↔ h = some p ∧ Linked next (next p) l :=
  Iff.rfl

theorem Linked.unique (hl : Linked next h l) (hl' : Linked next h l') : l = l' := by
  induction l generalizing h l' with
  | nil =>
    cases l' with
    | nil => rfl
    | cons q l' =>
      rw [linked_nil.mp hl] at hl'
      exact absurd hl'.1 (by simp)
  | cons p l ih =>
    cases l' with
    | nil => exact absurd (hl.1.symm.trans hl') (by simp)
    | cons q l' =>
      have hpq : p = q := Option.some.inj (hl.1.symm.trans hl'.1)
      subst hpq
      rw [ih hl.2 hl'.2]

theorem Linked.suffix {l₁ l₂ : List P} (hl : Linked next h (l₁ ++ p :: l₂)) :
    Linked next (some p) (p :: l₂) := by
  induction l₁ generalizing h with
  | nil => exact ⟨rfl, hl.2⟩
  | cons q l₁ ih => exact ih hl.2

theorem Linked.nodup (hl : Linked next h l) : l.Nodup := by
  induction l generalizing h with
  | nil => exact .nil
  | cons p l ih =>
    refine List.nodup_cons.mpr ⟨?_, ih hl.2⟩
    intro hp
    -- a second visit of `p` would give two chains of different length from `p`
    obtain ⟨l₁, l₂, rfl⟩ := List.append_of_mem hp
    have h₁ : Linked next (some p) (p :: l₂) := hl.2.suffix
    have h₂ : Linked next (some p) (p :: (l₁ ++ p :: l₂)) := ⟨rfl, hl.2⟩
    have he := congrArg List.length (h₁.unique h₂)
    simp only [List.length_cons, List.length_append] at he
    omega

theorem Linked.congr (hl : Linked next h l) (he : ∀ p ∈ l, next p = next' p) :
    Linked next' h l := by
  induction l generalizing h with
  | nil => exact hl
  | cons p l ih =>
    refine ⟨hl.1, ?_⟩
    rw [← he p (by simp)]
    exact ih hl.2 fun q hq => he q (by simp [hq])

theorem Linked.concat (hl : Linked next h (l ++ [p])) (hq : q ∉ l ++ [p])
    (hp' : next' p = some q) (hq' : next' q = none) (he : ∀ r ∈ l, next' r = next r) :
    Linked next' h (l ++ [p] ++ [q]) := by
  induction l generalizing h with
  | nil => exact ⟨hl.1, hp', hq'⟩
  | cons r l ih =>
    refine ⟨hl.1, ?_⟩
    rw [he r (by simp)]
    exact ih hl.2 (fun hm => hq (by simp_all)) fun s hs => he s (by simp [hs])

/-- Linking past a node takes exactly that node out of a chain. -/
theorem Linked.unlink {l₁ l₂ : List P} (hl : Linked next h (l₁ ++ p :: q :: l₂))
    (hp' : next' p = next q) (he : ∀ r ∈ l₁ ++ l₂, next' r = next r) :
    Linked next' h (l₁ ++ p :: l₂) := by
  induction l₁ generalizing h with
  | nil =>
    refine ⟨hl.1, ?_⟩
    rw [hp']
    exact hl.2.2.congr fun s hs => (he s (by simpa using hs)).symm
  | cons s l₁ ih =>
    refine ⟨hl.1, ?_⟩
    rw [he s (by simp)]
    exact ih hl.2 fun t ht => he t (by simp_all)

theorem Linked.insert {l₁ l₂ : List P} (hl : Linked next h (l₁ ++ p :: l₂))
    (hp' : next' p = some q) (hq' : next' q = next p)
    (he : ∀ r ∈ l₁ ++ l₂, next' r = next r) : Linked next' h (l₁ ++ p :: q :: l₂) := by
  induction l₁ generalizing h with
  | nil =>
    refine ⟨hl.1, hp', ?_⟩
    rw [hq']
    exact hl.2.congr fun r hr => (he r hr).symm
  | cons r l₁ ih =>
    refine ⟨hl.1, ?_⟩
    rw [he r (by simp)]
    exact ih hl.2 fun s hs => he s (by simp_all)

theorem Linked.next_eq_head {l₁ l₂ : List P} (hl : Linked next h (l₁ ++ p :: l₂)) :
    next p = l₂.head? := by
  induction l₁ generalizing h with
  | nil =>
    cases l₂ with
    | nil => exact hl.2
    | cons q l₂ => exact hl.2.1
  | cons r l₁ ih => exact ih hl.2

theorem Linked.meets {bad : P → Prop} (hl : Linked next h l) (hl' : Linked next' h l')
    (he : ∀ q, ¬ bad q → next q = next' q) (hbad : ∃ p ∈ l, bad p) : ∃ p ∈ l', bad p := by
  induction l generalizing h l' with
  | nil => simp at hbad
  | cons p l ih =>
    cases l' with
    | nil => exact absurd (hl.1.symm.trans hl') (by simp)
    | cons q l' =>
      obtain rfl : p = q := Option.some.inj (hl.1.symm.trans hl'.1)
      by_cases hp : bad p
      · exact ⟨p, List.mem_cons_self, hp⟩
      · have hrest : ∃ r ∈ l, bad r := by simpa [hp] using hbad
        obtain ⟨r, hr, hb⟩ := ih hl.2 (he p hp ▸ hl'.2) hrest
        exact ⟨r, List.mem_cons_of_mem _ hr, hb⟩

/-- The part of a list up to its first node in a set, that node included. -/
def cut (bad : P → Prop) [DecidablePred bad] : List P → List P
  | [] => []
  | p :: l => if bad p then [p] else p :: cut bad l

section Cut

variable {bad : P → Prop} [DecidablePred bad]

theorem Linked.cut (hl : Linked next h l) (hgood : ∀ p, ¬ bad p → next' p = next p)
    (hbad : ∀ p, bad p → next' p = none) : Linked next' h (cut bad l) := by
  induction l generalizing h with
  | nil => exact hl
  | cons p l ih =>
    unfold Chain.cut
    split
    · rename_i hp
      exact ⟨hl.1, hbad p hp⟩
    · rename_i hp
      refine ⟨hl.1, ?_⟩
      rw [hgood p hp]
      exact ih hl.2

theorem mem_of_mem_cut (hp : p ∈ cut bad l) : p ∈ l := by
  induction l with
  | nil => exact hp
  | cons q l ih =>
    unfold cut at hp
    split at hp
    · rw [List.mem_singleton.mp hp]
      exact List.mem_cons_self
    · rcases List.mem_cons.mp hp with rfl | hp
      · exact List.mem_cons_self
      · exact List.mem_cons_of_mem _ (ih hp)

theorem mem_cut_iff {l₁ l₂ : List P} (hd : (l₁ ++ p :: l₂).Nodup) (hp : ¬ bad p) :
    p ∈ cut bad (l₁ ++ p :: l₂) ↔ ∀ q ∈ l₁, ¬ bad q := by
  induction l₁ with
  | nil =>
    rw [List.nil_append, cut, if_neg hp]
    simp
  | cons q l₁ ih =>
    rw [List.cons_append, List.nodup_cons] at hd
    have hpq : p ≠ q := by
      rintro rfl
      exact hd.1 (by simp)
    rw [List.cons_append, cut]
    split
    · rename_i hq
      constructor
      · intro hm
        exact absurd (List.mem_singleton.mp hm) hpq
      · intro h
        exact absurd hq (h q List.mem_cons_self)
    · rename_i hq
      rw [List.mem_cons, ih hd.2]
      simp [hpq, hq]

end Cut

end Chain
