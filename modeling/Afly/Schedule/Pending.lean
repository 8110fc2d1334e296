import Mathlib.Data.Fintype.Card
import Afly.Schedule.Spec

/-! # Pending calls

What the scheduler is for: a finite map from tasks to the calls they wait for.
Scheduling adds to the map, deleting removes from it, and the list represents
the map when its tasks are exactly the pending ones and carry their calls.
-/

namespace Afly

def Call.deadline {F A : Type*} (c : Call F A) : ℤ := c.start + c.delt

namespace Sched

variable {P F A : Type*} {s s' : Sched P F A} {l : List P} {task : P} {fuel : ℕ}
  {pending : P → Option (Call F A)}

/-- The list `l` of the scheduler holds exactly the pending calls. -/
structure Represents (s : Sched P F A) (pending : P → Option (Call F A)) (l : List P) : Prop where
  tasks : s.Tasks l
  listed : ∀ task, task ∈ l ↔ pending task ≠ none
  calls : ∀ task c, pending task = some c → s.call task = c

theorem Represents.length_le [Fintype P] (h : s.Represents pending l) :
    l.length ≤ Fintype.card P := h.tasks.nodup.length_le_card

theorem Represents.call_of_mem (h : s.Represents pending l) (hm : task ∈ l) :
    pending task = some (s.call task) := by
  obtain ⟨c, hc⟩ := Option.ne_none_iff_exists'.mp ((h.listed task).mp hm)
  rw [hc, h.calls task c hc]

theorem Represents.congr (h : s.Represents pending l) (hlist : s'.taskList = s.taskList)
    (hheap : ∀ task, pending task ≠ none → s'.heap task = s.heap task) :
    s'.Represents pending l where
  tasks := by
    unfold Tasks
    rw [hlist]
    exact h.tasks.congr fun p hp => by rw [next, next, hheap p ((h.listed p).mp hp)]
  listed := h.listed
  calls task c hc := by rw [call, hheap task (by simp [hc]), ← call, h.calls task c hc]

section Operations

variable [DecidableEq P]

variable (task) in
theorem Represents.schedueAdd (h : s.Represents pending l) (hf : l.length ≤ fuel) (now ms : ℤ)
    (func : Option F) (arg : Option A) :
    ∃ s' l', s.schedueAdd fuel now task ms func arg = some s' ∧
      s'.Represents (Function.update pending task (some ⟨func, arg, now, ms⟩)) l' := by
  obtain ⟨s', hs', ht, hc⟩ := schedueAdd_spec task h.tasks hf now ms func arg
  refine ⟨s', _, hs', ht, ?_, ?_⟩
  · intro q
    by_cases hq : q = task
    · subst hq; split <;> simp_all
    · rw [Function.update_of_ne hq, ← h.listed q]
      split <;> simp [hq]
  · intro q c hq
    rw [hc]
    by_cases hqt : q = task
    · subst hqt
      rw [Function.update_self] at hq ⊢
      exact Option.some.inj hq
    · rw [Function.update_of_ne hqt] at hq ⊢
      exact h.calls q c hq

variable (task) in
theorem Represents.schedueDel (h : s.Represents pending l) (hf : l.length ≤ fuel) :
    ∃ s' l', s.schedueDel fuel task = some s' ∧ s'.call = s.call ∧
      s'.Represents (Function.update pending task none) l' := by
  obtain ⟨s', hs', ht, hc⟩ := schedueDel_spec task h.tasks hf
  refine ⟨s', _, hs', hc, ht, ?_, ?_⟩
  · intro q
    rw [h.tasks.nodup.mem_erase_iff, h.listed q]
    by_cases hq : q = task
    · subst hq; simp
    · simp [hq]
  · intro q c hq
    have hqt : q ≠ task := by rintro rfl; simp at hq
    rw [Function.update_of_ne hqt] at hq
    rw [hc, h.calls q c hq]

omit [DecidableEq P] in
theorem Represents.first (long : ℤ → ℤ) (h : s.Represents pending l) (hf : l.length ≤ fuel) :
    s.schedueFirstTaskToExec fuel long = some none ∨
    ∃ q ∈ l, s.schedueFirstTaskToExec fuel long = some (some q) :=
  (schedueFirstTaskToExec_spec h.tasks hf).imp_left And.right

omit [DecidableEq P] in
/-- The delay of the first task is negative on an empty list, and leads to the least deadline, or
to now when that has passed. -/
theorem Represents.delay {now delt : ℤ} (h : s.Represents pending l) (hf : l.length ≤ fuel)
    (hd : s.schedueFirstTaskDelay fuel id now = some delt) : (l = [] ∧ delt = -1) ∨
    ∃ q c, s.schedueFirstTaskToExec fuel id = some (some q) ∧ pending q = some c ∧
      delt = max 0 (c.deadline - now) ∧
      ∀ task c', pending task = some c' → c.deadline ≤ c'.deadline := by
  have hdead (task : P) : s.deadline id task = (s.call task).deadline := rfl
  unfold schedueFirstTaskDelay at hd
  rcases schedueFirstTaskToExec_spec h.tasks hf with ⟨hl, he⟩ | ⟨q, hq, he⟩
  · rw [he] at hd
    exact Or.inl ⟨hl, (Option.some.inj hd).symm⟩
  · rw [he] at hd
    refine Or.inr ⟨q, s.call q, he, h.call_of_mem hq, (Option.some.inj hd).symm, ?_⟩
    intro task c' hc'
    have hm : task ∈ l := (h.listed task).mpr (by simp [hc'])
    rw [← h.calls task c' hc', ← hdead, ← hdead]
    exact schedueFirstTaskToExec_le h.tasks hf he hm

end Operations

end Sched

end Afly
