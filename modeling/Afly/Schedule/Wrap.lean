import Afly.C.Text
import Afly.Schedule.Spec

/-! # The scheduler on a 32-bit clock

On the target a `long` has 32 bits, so that the clock and the deadlines wrap
around after 2^32 milliseconds, first after 24.8 days. A delay is a difference
and survives that, but the deadlines are compared as signed numbers: two of them
that lie on different sides of an overflow come out in the wrong order.
-/

namespace Afly.Sched

variable {P F A : Type*} {s s' : Sched P F A} {l : List P} {task p q : P} {fuel : ℕ}
  {started : P → ℕ} {now : ℕ}

/-- The listed tasks were scheduled at these readings of a clock that never wraps around. -/
structure Timed (s : Sched P F A) (l : List P) (started : P → ℕ) : Prop where
  tasks : s.Tasks l
  start : ∀ p ∈ l, (s.heap p).start = int32 (started p)

/-- The time from which a task is due, on the clock that never wraps around. -/
def trueDeadline (s : Sched P F A) (started : P → ℕ) (p : P) : ℤ := started p + (s.heap p).delt

/-- The task to execute first is one that is due first, and the delay leads to its deadline. -/
def FirstOnTime (fuel : ℕ) (s : Sched P F A) (l : List P) (started : P → ℕ) (now : ℕ) : Prop :=
  (l = [] ∧ s.schedueFirstTaskToExec fuel int32 = some none ∧
    s.schedueFirstTaskDelay fuel int32 (int32 now) = some (-1)) ∨
  ∃ q ∈ l, s.schedueFirstTaskToExec fuel int32 = some (some q) ∧
    (∀ p ∈ l, s.trueDeadline started q ≤ s.trueDeadline started p) ∧
    s.schedueFirstTaskDelay fuel int32 (int32 now) = some (max 0 (s.trueDeadline started q - now))

/-- How often a signed 32-bit clock has overflowed at a time. -/
def overflows (t : ℤ) : ℤ := (t + 2 ^ 31) / 2 ^ 32

section Clock

theorem int32_eq_overflows (t : ℤ) : int32 t = t - 2 ^ 32 * overflows t := by
  rw [int32, Int.bmod_eq_emod, overflows]
  split <;> omega

theorem int32_le_iff {a b : ℤ} (h : overflows a = overflows b) : int32 a ≤ int32 b ↔ a ≤ b := by
  rw [int32_eq_overflows, int32_eq_overflows, h]
  omega

theorem int32_lt_of_overflows {a b : ℤ} (hlt : overflows a < overflows b) (hb : b < a + 2 ^ 32) :
    int32 b < int32 a ∧ a < b := by
  rw [int32_eq_overflows, int32_eq_overflows]
  unfold overflows at *
  omega

theorem int32_sub {a b : ℤ} (h : |a - b| ≤ 2 ^ 30) : int32 (int32 a - int32 b) = a - b := by
  obtain ⟨hl, hu⟩ := abs_le.mp h
  rw [int32_eq_overflows a, int32_eq_overflows b, int32_eq_overflows]
  generalize overflows a = k
  generalize overflows b = m
  unfold overflows
  omega

end Clock

theorem Timed.schedueAdd [DecidableEq P] (h : s.Timed l started) (hf : l.length ≤ fuel) (ms : ℤ)
    (func : Option F) (arg : Option A) :
    ∃ s', s.schedueAdd fuel (int32 now) task ms func arg = some s' ∧
      s'.Timed (if task ∈ l then l else l ++ [task]) (Function.update started task now) := by
  obtain ⟨s', hs, ht, hc⟩ := schedueAdd_spec task h.tasks hf (int32 now) ms func arg
  refine ⟨s', hs, ht, ?_⟩
  intro p hp
  have hstart : (s'.heap p).start = (s'.call p).start := rfl
  rw [hstart, hc]
  by_cases hpt : p = task
  · subst hpt
    rw [Function.update_self, Function.update_self]
  · rw [Function.update_of_ne hpt, Function.update_of_ne hpt]
    refine h.start p ?_
    split at hp
    · exact hp
    · simpa [hpt] using hp

theorem Timed.schedueDel [DecidableEq P] (h : s.Timed l started) (hf : l.length ≤ fuel) :
    ∃ s', s.schedueDel fuel task = some s' ∧ s'.Timed (l.erase task) started := by
  obtain ⟨s', hs, ht, hc⟩ := schedueDel_spec task h.tasks hf
  refine ⟨s', hs, ht, ?_⟩
  intro p hp
  have hstart : (s'.heap p).start = (s'.call p).start := rfl
  rw [hstart, hc]
  exact h.start p (List.mem_of_mem_erase hp)

theorem Timed.deadline (h : s.Timed l started) (hp : p ∈ l) :
    s.deadline int32 p = int32 (s.trueDeadline started p) := by
  rw [Sched.deadline, h.start p hp, trueDeadline]
  exact Int.bmod_add_bmod

theorem Timed.delay (h : s.Timed l started) (hp : p ∈ l)
    (hfirst : s.schedueFirstTaskToExec fuel int32 = some (some p))
    (hnear : |s.trueDeadline started p - now| ≤ 2 ^ 30) :
    s.schedueFirstTaskDelay fuel int32 (int32 now) =
      some (max 0 (s.trueDeadline started p - now)) := by
  rw [schedueFirstTaskDelay, hfirst, Option.map_some]
  dsimp only
  rw [h.deadline hp, int32_sub hnear]

/-- The first task is on time exactly when no overflow lies between two pending deadlines. -/
theorem firstOnTime_iff (h : s.Timed l started) (hf : l.length ≤ fuel)
    (hnear : ∀ p ∈ l, |s.trueDeadline started p - now| ≤ 2 ^ 30) :
    s.FirstOnTime fuel l started now ↔
      ∀ p ∈ l, ∀ q ∈ l, overflows (s.trueDeadline started p) =
        overflows (s.trueDeadline started q) := by
  -- no two deadlines are a whole round apart
  have hclose {p q : P} (hp : p ∈ l) (hq : q ∈ l) :
      s.trueDeadline started q < s.trueDeadline started p + 2 ^ 32 := by
    have := abs_le.mp (hnear p hp)
    have := abs_le.mp (hnear q hq)
    omega
  have hcases : (l = [] ∧ s.schedueFirstTaskToExec fuel int32 = some none) ∨ _ :=
    schedueFirstTaskToExec_spec h.tasks hf
  rcases hcases with ⟨rfl, hnone⟩ | ⟨q, hq, hfirst⟩
  · refine iff_of_true (Or.inl ⟨rfl, hnone, ?_⟩) (by simp)
    rw [schedueFirstTaskDelay, hnone, Option.map_some]
  have hleast (p : P) (hp : p ∈ l) :
      int32 (s.trueDeadline started q) ≤ int32 (s.trueDeadline started p) := by
    rw [← h.deadline hq, ← h.deadline hp]
    exact schedueFirstTaskToExec_le h.tasks hf hfirst hp
  constructor
  · rintro (⟨rfl, -⟩ | ⟨q', hq', hfirst', htrue, -⟩)
    · exact absurd hq (by simp)
    · obtain rfl : q = q' := Option.some.inj (Option.some.inj (hfirst.symm.trans hfirst'))
      -- a deadline on another side of an overflow than the found one is out of order
      have hsame (p : P) (hp : p ∈ l) : overflows (s.trueDeadline started p) =
          overflows (s.trueDeadline started q) := by
        rcases lt_trichotomy (overflows (s.trueDeadline started p))
          (overflows (s.trueDeadline started q)) with hlt | heq | hlt
        · exact absurd (int32_lt_of_overflows hlt (hclose hp hq)).2 (htrue p hp).not_gt
        · exact heq
        · exact absurd (int32_lt_of_overflows hlt (hclose hq hp)).1 (hleast p hp).not_gt
      intro p hp p' hp'
      rw [hsame p hp, hsame p' hp']
  · intro hsame
    refine Or.inr ⟨q, hq, hfirst, ?_, h.delay hq hfirst (hnear q hq)⟩
    intro p hp
    exact (int32_le_iff (hsame q hq p hp)).mp (hleast p hp)

/-- Two tasks that were scheduled at one time, with different delays. -/
def twoTasks (start : ℕ) (a b : ℤ) : Sched Bool Unit Unit where
  heap
    | false => ⟨some (), none, int32 start, a, some true⟩
    | true => ⟨some (), none, int32 start, b, none⟩
  taskList := some false

theorem twoTasks_timed (start : ℕ) (a b : ℤ) :
    (twoTasks start a b).Timed [false, true] (fun _ => start) where
  tasks := ⟨rfl, rfl, rfl⟩
  start := by
    intro p _
    cases p <;> simp [twoTasks]

/-- Two tasks that are due in the first minute. -/
theorem firstOnTime_early : (twoTasks 0 30000 10000).FirstOnTime 2 [false, true] (fun _ => 0) 0 ↔
    ∀ p ∈ [false, true], ∀ q ∈ [false, true],
      overflows ((twoTasks 0 30000 10000).trueDeadline (fun _ => 0) p) =
        overflows ((twoTasks 0 30000 10000).trueDeadline (fun _ => 0) q) :=
  firstOnTime_iff (twoTasks_timed 0 30000 10000) (by decide) (by simp [trueDeadline, twoTasks])

/-- After 24.8 days the task of the second before the overflow waits for the one behind it. -/
theorem not_firstOnTime_overflow :
    (twoTasks 2147483000 500 1000).Timed [false, true] (fun _ => 2147483000) ∧
    (∀ p ∈ [false, true], |(twoTasks 2147483000 500 1000).trueDeadline (fun _ => 2147483000) p -
      (2147483000 : ℕ)| ≤ 2 ^ 30) ∧
    ¬ (twoTasks 2147483000 500 1000).FirstOnTime 2 [false, true] (fun _ => 2147483000)
      2147483000 := by
  refine ⟨twoTasks_timed _ _ _, by simp [trueDeadline, twoTasks], ?_⟩
  rintro (⟨⟨⟩, -⟩ | ⟨q, -, hfirst, hleast, -⟩)
  have htrue :
      (twoTasks 2147483000 500 1000).schedueFirstTaskToExec 2 int32 = some (some true) := by
    decide
  obtain rfl : true = q := Option.some.inj (Option.some.inj (htrue.symm.trans hfirst))
  exact absurd (hleast false (by decide)) (by decide)

end Afly.Sched
