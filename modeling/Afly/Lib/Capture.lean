import Mathlib.Data.List.Basic

/-! # A waiter in front of a dispatcher

Items are dispatched one by one. Somebody waits for an item with a certain
property: the first such item is captured for the waiter, and all others are
dispatched. Over a whole list this takes exactly one item out of the list, in
any lawful monad.
-/

namespace Capture

universe u v

variable {S V : Type u} {I : Type*} {m : Type u → Type v} [Monad m]

def route (dispatch : S → I → m S) (answers : I → Bool) (value : I → V) (s : S × Option V) (i : I) :
    m (S × Option V) :=
  match answers i, s.2 with
  | true, none => pure (s.1, some (value i))
  | _, _ => (fun s' => (s', s.2)) <$> dispatch s.1 i

variable {dispatch : S → I → m S} {answers : I → Bool} {value : I → V} {s : S}
  {i : I} {l : List I} {v : V}

theorem route_some : route dispatch answers value (s, some v) i =
    (fun s' => (s', some v)) <$> dispatch s i := by
  unfold route
  cases answers i <;> rfl

theorem route_of_not_answers {c : Option V} (h : answers i = false) :
    route dispatch answers value (s, c) i = (fun s' => (s', c)) <$> dispatch s i := by
  unfold route
  rw [h]

theorem route_of_answers (h : answers i = true) :
    route dispatch answers value (s, none) i = pure (s, some (value i)) := by
  unfold route
  rw [h]

variable [LawfulMonad m]

theorem foldlM_route_some : l.foldlM (route dispatch answers value) (s, some v) =
    (fun s' => (s', some v)) <$> l.foldlM dispatch s := by
  induction l generalizing s with
  | nil => simp
  | cons i l ih => simp [route_some, ih]

theorem foldlM_route_none : l.foldlM (route dispatch answers value) (s, none) =
    (fun s' => (s', (l.find? answers).map value)) <$> (l.eraseP answers).foldlM dispatch s := by
  induction l generalizing s with
  | nil => simp
  | cons i l ih =>
    cases h : answers i with
    | true =>
      rw [List.foldlM_cons, route_of_answers h, pure_bind, foldlM_route_some,
        List.eraseP_cons_of_pos h, List.find?_cons_of_pos h]
      rfl
    | false =>
      have hno : ¬ answers i = true := by simp [h]
      rw [List.foldlM_cons, route_of_not_answers h, List.eraseP_cons_of_neg hno,
        List.find?_cons_of_neg hno, List.foldlM_cons]
      simp [ih]

end Capture
