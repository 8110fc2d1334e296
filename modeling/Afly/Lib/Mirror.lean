import Mathlib.Logic.Function.Basic

/-! # Two copies of one mapping

Owners know the handle they hold, and the issuer of the handles knows the owner
of each. The copies mirror each other when both record the same pairs; then an
owner is determined by its handle, and each side determines the other, so a
change of one side alone always breaks the mirror.
-/

namespace Mirror

variable {O H : Type*} {owner owner' : O → Option H} {bound : H → Option O} {o o' : O}
  {h h' : H}

/-- Both sides record the same pairs. -/
def Mirrors (owner : O → Option H) (bound : H → Option O) : Prop :=
  ∀ o h, owner o = some h ↔ bound h = some o

theorem Mirrors.owner_inj (m : Mirrors owner bound) (ho : owner o = some h)
    (ho' : owner o' = some h) : o = o' :=
  Option.some.inj (((m o h).mp ho).symm.trans ((m o' h).mp ho'))

theorem Mirrors.owner_eq (m : Mirrors owner bound) (m' : Mirrors owner' bound) :
    owner' = owner := by
  funext o
  ext h
  exact (m' o h).trans (m o h).symm

variable [DecidableEq O] [DecidableEq H]

theorem Mirrors.assign (m : Mirrors owner bound) (ho : owner o = none) (hh : bound h = none) :
    Mirrors (Function.update owner o (some h)) (Function.update bound h (some o)) := by
  intro p q
  by_cases hp : p = o
  · by_cases hq : q = h
    · subst hp hq; simp
    · subst hp
      rw [Function.update_self, Function.update_of_ne hq, ← m p q, ho]
      simp [Ne.symm hq]
  · by_cases hq : q = h
    · subst hq
      rw [Function.update_self, Function.update_of_ne hp, m p q, hh]
      simp [Ne.symm hp]
    · rw [Function.update_of_ne hp, Function.update_of_ne hq]
      exact m p q

theorem Mirrors.release (m : Mirrors owner bound) (ho : owner o = some h) :
    Mirrors (Function.update owner o none) (Function.update bound h none) := by
  intro p q
  by_cases hp : p = o
  · subst hp
    by_cases hq : q = h
    · subst hq; simp
    · rw [Function.update_self, Function.update_of_ne hq, ← m p q, ho]
      simp [Ne.symm hq]
  · by_cases hq : q = h
    · subst hq
      rw [Function.update_self, Function.update_of_ne hp]
      constructor
      · intro hpq
        exact absurd (m.owner_inj hpq ho) hp
      · intro hn
        simp at hn
    · rw [Function.update_of_ne hp, Function.update_of_ne hq]
      exact m p q

theorem Mirrors.not_replace (m : Mirrors owner bound) (ho : owner o = some h)
    (hh : bound h' = none) :
    ¬ Mirrors (Function.update owner o (some h')) (Function.update bound h' (some o)) := by
  intro m'
  have hne : h ≠ h' := by
    rintro rfl
    exact absurd (((m o h).mp ho).symm.trans hh) (by simp)
  have hold : Function.update bound h' (some o) h = some o := by
    rw [Function.update_of_ne hne]
    exact (m o h).mp ho
  have hnew := (m' o h).mpr hold
  rw [Function.update_self] at hnew
  exact hne (Option.some.inj hnew).symm

end Mirror
