import Mathlib.Data.Set.Basic

/-! # Reachable states of a partial step function

A step function `S → E → Option S` is undefined where the program has no
behaviour. Steps are filtered by a permission on the state before the step and
the event; the invariant rule turns a step lemma into a statement about every
reachable state.
-/

namespace Reach

variable {S E : Type*}

/-- The states reached from `s₀` by defined steps that the permission admits. -/
inductive Reachable (step : S → E → Option S) (ok : S → E → Prop) (s₀ : S) : S → Prop where
  | start : Reachable step ok s₀ s₀
  | next {s s' : S} {e : E} : Reachable step ok s₀ s → ok s e → step s e = some s' →
      Reachable step ok s₀ s'

variable {step : S → E → Option S} {ok ok' : S → E → Prop} {s₀ s s' : S}

/-- A property of the start that every admitted step preserves holds in every reachable state. -/
theorem Reachable.invariant {I : S → Prop} (h₀ : I s₀)
    (hstep : ∀ s e s', I s → ok s e → step s e = some s' → I s')
    (h : Reachable step ok s₀ s) : I s := by
  induction h with
  | start => exact h₀
  | next _ hok hs ih => exact hstep _ _ _ ih hok hs

theorem Reachable.trans (h : Reachable step ok s₀ s) (h' : Reachable step ok s s') :
    Reachable step ok s₀ s' := by
  induction h' with
  | start => exact h
  | next _ hok hs ih => exact .next ih hok hs

theorem Reachable.mono (hok : ∀ s e, ok s e → ok' s e) (h : Reachable step ok s₀ s) :
    Reachable step ok' s₀ s := by
  induction h with
  | start => exact .start
  | next _ hs hstep ih => exact .next ih (hok _ _ hs) hstep

/-- Play a list of events, stopping where a step is undefined. -/
def run (step : S → E → Option S) : S → List E → Option S
  | s, [] => some s
  | s, e :: es => (step s e).bind fun s' => run step s' es

theorem run_append (es es' : List E) :
    run step s (es ++ es') = (run step s es).bind fun t => run step t es' := by
  induction es generalizing s with
  | nil => rfl
  | cons e es ih =>
    simp only [List.cons_append, run, ih, Option.bind_assoc]

/-- A played list of admitted events ends in a reachable state. -/
theorem reachable_of_run {es : List E} (h : run step s es = some s')
    (hok : ∀ e ∈ es, ∀ t, ok t e) (hs : Reachable step ok s₀ s) : Reachable step ok s₀ s' := by
  induction es generalizing s with
  | nil => cases h; exact hs
  | cons e es ih =>
    obtain ⟨t, ht, hrun⟩ := Option.bind_eq_some_iff.mp h
    exact ih hrun (fun e he => hok e (List.mem_cons_of_mem _ he))
      (hs.next (hok e List.mem_cons_self s) ht)

end Reach
