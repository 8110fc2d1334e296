import Mathlib.Data.Set.Card
import Mathlib.Tactic

/-! # Tables of keyed rows

A table gives each slot a row, and a row carries a key or is free. A table whose
keys are distinct stands for exactly one finite map, and writing one row changes
the map at one key. The map of a table is full when no row is free.
-/

namespace Directory

variable {ι R K : Type*} {key : R → Option K} {t t' : ι → R} {m m' : K → Option R} {i j : ι}
  {k : K} {r : R}

/-- The rows with a key are the values of the map, and no key occurs twice. -/
structure Represents (key : R → Option K) (t : ι → R) (m : K → Option R) : Prop where
  distinct : ∀ i j k, key (t i) = some k → key (t j) = some k → i = j
  listed : ∀ i k, key (t i) = some k → m k = some (t i)
  found : ∀ k r, m k = some r → ∃ i, t i = r ∧ key r = some k

theorem Represents.eq_none_iff (h : Represents key t m) :
    m k = none ↔ ∀ i, key (t i) ≠ some k := by
  constructor
  · intro hm i hi
    rw [h.listed i k hi] at hm
    cases hm
  · intro hno
    cases hm : m k with
    | none => rfl
    | some r =>
      obtain ⟨i, rfl, hi⟩ := h.found k r hm
      exact absurd hi (hno i)

theorem Represents.unique (h : Represents key t m) (h' : Represents key t m') : m = m' := by
  funext k
  cases hm : m k with
  | none => exact (h'.eq_none_iff.mpr (h.eq_none_iff.mp hm)).symm
  | some r =>
    obtain ⟨i, rfl, hi⟩ := h.found k r hm
    exact (h'.listed i k hi).symm

/-- A table without a key is empty. -/
theorem represents_empty (h : ∀ i, key (t i) = none) : Represents key t fun _ => none where
  distinct i j k hi := by rw [h i] at hi; cases hi
  listed i k hi := by rw [h i] at hi; cases hi
  found k r hr := by cases hr

section Write

variable [DecidableEq ι] [DecidableEq K]

theorem Represents.write (h : Represents key t m) (hr : key r = some k)
    (hi : key (t i) = none ∨ key (t i) = some k) (hk : ∀ j, key (t j) = some k → j = i) :
    Represents key (Function.update t i r) (Function.update m k (some r)) where
  distinct a b k' ha hb := by
    by_cases hai : a = i
    · subst hai
      by_cases hbi : b = a
      · exact hbi.symm
      rw [Function.update_self, hr] at ha
      rw [Function.update_of_ne hbi, ← ha] at hb
      exact absurd (hk b hb) hbi
    · rw [Function.update_of_ne hai] at ha
      by_cases hbi : b = i
      · subst hbi
        rw [Function.update_self, hr] at hb
        exact absurd (hk a (hb ▸ ha)) hai
      · rw [Function.update_of_ne hbi] at hb
        exact h.distinct a b k' ha hb
  listed a k' ha := by
    by_cases hai : a = i
    · subst hai
      rw [Function.update_self, hr] at ha
      obtain rfl := Option.some.inj ha
      simp
    · rw [Function.update_of_ne hai] at ha ⊢
      have hne : k' ≠ k := by
        rintro rfl
        exact hai (hk a ha)
      rw [Function.update_of_ne hne]
      exact h.listed a k' ha
  found k' r' hr' := by
    by_cases hkk : k' = k
    · subst hkk
      rw [Function.update_self] at hr'
      obtain rfl := Option.some.inj hr'
      exact ⟨i, by simp, hr⟩
    · rw [Function.update_of_ne hkk] at hr'
      obtain ⟨a, rfl, ha⟩ := h.found k' r' hr'
      have hne : a ≠ i := by
        rintro rfl
        rcases hi with hi | hi
        · rw [hi] at ha; cases ha
        · rw [hi] at ha; exact hkk (Option.some.inj ha).symm
      exact ⟨a, by rw [Function.update_of_ne hne], ha⟩

/-- Changing a row under its own key changes the map there. -/
theorem Represents.rewrite (h : Represents key t m) (hi : key (t i) = some k)
    (hr : key r = some k) : Represents key (Function.update t i r) (Function.update m k (some r)) :=
  h.write hr (Or.inr hi) fun j hj => h.distinct j i k hj hi

/-- Filling a free row under a new key adds the key. -/
theorem Represents.insert (h : Represents key t m) (hi : key (t i) = none) (hm : m k = none)
    (hr : key r = some k) : Represents key (Function.update t i r) (Function.update m k (some r)) :=
  h.write hr (Or.inl hi) fun j hj => absurd hj (h.eq_none_iff.mp hm j)

omit [DecidableEq K] in
theorem ne_of_key_update (hr : key r = none) {j : ι}
    (hj : key (Function.update t i r j) = some k) : j ≠ i := by
  rintro rfl
  rw [Function.update_self, hr] at hj
  cases hj

omit [DecidableEq K] in
theorem Represents.refill (h : Represents key t m) (hi : key (t i) = none) (hr : key r = none) :
    Represents key (Function.update t i r) m where
  distinct a b k ha hb := by
    rw [Function.update_of_ne (ne_of_key_update hr ha)] at ha
    rw [Function.update_of_ne (ne_of_key_update hr hb)] at hb
    exact h.distinct a b k ha hb
  listed a k ha := by
    have hai := ne_of_key_update hr ha
    rw [Function.update_of_ne hai] at ha ⊢
    exact h.listed a k ha
  found k r' hm := by
    obtain ⟨a, rfl, ha⟩ := h.found k r' hm
    have hai : a ≠ i := by
      rintro rfl
      rw [hi] at ha
      cases ha
    exact ⟨a, Function.update_of_ne hai _ _, ha⟩

theorem Represents.erase (h : Represents key t m) (hi : key (t i) = some k) (hr : key r = none) :
    Represents key (Function.update t i r) (Function.update m k none) where
  distinct a b k' ha hb := by
    rw [Function.update_of_ne (ne_of_key_update hr ha)] at ha
    rw [Function.update_of_ne (ne_of_key_update hr hb)] at hb
    exact h.distinct a b k' ha hb
  listed a k' ha := by
    have hai := ne_of_key_update hr ha
    rw [Function.update_of_ne hai] at ha ⊢
    have hne : k' ≠ k := by
      rintro rfl
      exact hai (h.distinct a i k' ha hi)
    rw [Function.update_of_ne hne]
    exact h.listed a k' ha
  found k' r' hr' := by
    have hne : k' ≠ k := by rintro rfl; rw [Function.update_self] at hr'; cases hr'
    rw [Function.update_of_ne hne] at hr'
    obtain ⟨a, rfl, ha⟩ := h.found k' r' hr'
    have hai : a ≠ i := by
      rintro rfl
      exact hne (Option.some.inj (ha.symm.trans hi))
    exact ⟨a, by rw [Function.update_of_ne hai], ha⟩

end Write

section Count

theorem Represents.ncard_eq (h : Represents key t m) :
    {k | m k ≠ none}.ncard = {i | key (t i) ≠ none}.ncard := by
  symm
  refine Set.ncard_congr (fun i hi => (key (t i)).get (Option.isSome_iff_ne_none.mpr hi)) ?_ ?_ ?_
  · intro i hi
    obtain ⟨k, hk⟩ := Option.ne_none_iff_exists'.mp hi
    simp [hk, h.listed i k hk]
  · intro i j hi hj he
    obtain ⟨k, hk⟩ := Option.ne_none_iff_exists'.mp hi
    obtain ⟨l, hl⟩ := Option.ne_none_iff_exists'.mp hj
    have hkl : k = l := by simpa [hk, hl] using he
    exact h.distinct i j k hk (hkl ▸ hl)
  · intro k hk
    obtain ⟨r, hr⟩ := Option.ne_none_iff_exists'.mp hk
    obtain ⟨i, rfl, hi⟩ := h.found k r hr
    exact ⟨i, by simp [hi], by simp [hi]⟩

variable [Fintype ι]

theorem Represents.ncard_le (h : Represents key t m) :
    {k | m k ≠ none}.ncard ≤ Fintype.card ι := by
  rw [h.ncard_eq, ← Nat.card_eq_fintype_card]
  exact Set.ncard_le_card _

theorem Represents.full_iff (h : Represents key t m) :
    (∀ i, key (t i) ≠ none) ↔ {k | m k ≠ none}.ncard = Fintype.card ι := by
  rw [h.ncard_eq, ← Nat.card_eq_fintype_card, ← Set.ncard_univ]
  constructor
  · intro hall
    congr 1
    exact Set.eq_univ_of_forall hall
  · intro hn
    exact Set.eq_univ_iff_forall.mp
      (Set.eq_of_subset_of_ncard_le (Set.subset_univ _) hn.ge)

end Count

end Directory
