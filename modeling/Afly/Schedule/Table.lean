import Afly.Lib.Keyed
import Afly.Lib.Reach
import Afly.Schedule.Pending

/-! # The scheduler as a table

In every run of `schedue_add` and `schedue_del` the list of tasks is a table in
order of entry, from each pending task to its function, its argument and its
deadline. The task to execute first is the last one in the table with the least
deadline.
-/

namespace Afly

open Chain Keyed

/-- What the table keeps for a task. -/
structure Due (F A : Type*) where
  func : Option F
  arg : Option A
  deadline : ℤ

def Call.due {F A : Type*} (c : Call F A) : Due F A := ⟨c.func, c.arg, c.deadline⟩

/-- A call of the scheduler, with the clock reading that `schedue_add` takes. -/
inductive SchedOp (P F A : Type*) where
  | add (task : P) (now ms : ℤ) (func : Option F) (arg : Option A)
  | del (task : P)

namespace SchedOp

variable {P F A : Type*} [DecidableEq P]

/-- What an operation does to the table. -/
def on (table : List (P × Due F A)) : SchedOp P F A → List (P × Due F A)
  | .add task now ms func arg => put task ⟨func, arg, now + ms⟩ table
  | .del task => drop task table

def table (ops : List (SchedOp P F A)) : List (P × Due F A) := ops.foldl on []

end SchedOp

namespace Sched

variable {P F A : Type*} {s : Sched P F A} {l : List P} {fuel : ℕ}

section Runs

variable [DecidableEq P]

def step (fuel : ℕ) (s : Sched P F A) : SchedOp P F A → Option (Sched P F A)
  | .add task now ms func arg => s.schedueAdd fuel now task ms func arg
  | .del task => s.schedueDel fuel task

structure Tabulates (s : Sched P F A) (table : List (P × Due F A)) (l : List P) : Prop where
  tasks : s.Tasks l
  entries : table = graph (fun p => (s.call p).due) l

variable {table : List (P × Due F A)}

theorem Tabulates.step (h : s.Tabulates table l) (hf : l.length ≤ fuel) (op : SchedOp P F A) :
    ∃ s' l', s.step fuel op = some s' ∧ s'.Tabulates (op.on table) l' ∧
      l'.length ≤ l.length + 1 := by
  obtain ⟨ht, rfl⟩ := h
  cases op with
  | add task now ms func arg =>
    obtain ⟨s', hs', ht', hc⟩ := schedueAdd_spec task ht hf now ms func arg
    refine ⟨s', _, hs', ⟨ht', ?_⟩, by split <;> simp⟩
    rw [SchedOp.on, put_graph, hc]
    congr 1
    funext p
    by_cases hp : p = task
    · subst hp
      rw [Function.update_self, Function.update_self]
      rfl
    · rw [Function.update_of_ne hp, Function.update_of_ne hp]
  | del task =>
    obtain ⟨s', hs', ht', hc⟩ := schedueDel_spec task ht hf
    refine ⟨s', _, hs', ⟨ht', ?_⟩, List.length_erase_le.trans (Nat.le_succ _)⟩
    rw [SchedOp.on, drop_graph ht.nodup, hc]

theorem Tabulates.run (h : s.Tabulates table l) {ops : List (SchedOp P F A)}
    (hf : l.length + ops.length ≤ fuel) : ∃ s' l', Reach.run (Sched.step fuel) s ops = some s' ∧
      s'.Tabulates (ops.foldl SchedOp.on table) l' ∧ l'.length ≤ fuel := by
  induction ops generalizing s table l with
  | nil => exact ⟨s, l, rfl, h, hf⟩
  | cons op ops ih =>
    rw [List.length_cons] at hf
    obtain ⟨s', l', hs', ht, hlen⟩ := h.step (show l.length ≤ fuel by omega) op
    obtain ⟨s'', l'', hrun, ht', hlen'⟩ := ih ht (by omega)
    exact ⟨s'', l'', by rw [Reach.run, hs', Option.bind_some, hrun], ht', hlen'⟩

variable (heap : P → SchduleTask P F A)

/-- In every run of `schedue_add` and `schedue_del` from the empty list, whatever the records hold,
the links visit the tasks of the table once each and in its order, with the entries of the table.
The task to execute first is null for the empty table and else the last one with the least deadline,
and the delay is -1 or leads to that deadline, or to now when it has passed. -/
theorem schedue_refines_table (ops : List (SchedOp P F A)) (hf : ops.length ≤ fuel) :
    ∃ s l, Reach.run (Sched.step fuel) ⟨heap, none⟩ ops = some s ∧
      Linked s.next s.taskList l ∧ l.Nodup ∧
      SchedOp.table ops = graph (fun p => (s.call p).due) l ∧
      ((SchedOp.table ops = [] ∧ s.schedueFirstTaskToExec fuel id = some none ∧
        ∀ now, s.schedueFirstTaskDelay fuel id now = some (-1)) ∨
      ∃ t₁ q due t₂, SchedOp.table ops = t₁ ++ (q, due) :: t₂ ∧
        s.schedueFirstTaskToExec fuel id = some (some q) ∧
        (∀ e ∈ t₁, due.deadline ≤ e.2.deadline) ∧ (∀ e ∈ t₂, due.deadline < e.2.deadline) ∧
        ∀ now, s.schedueFirstTaskDelay fuel id now = some (max 0 (due.deadline - now))) := by
  have h₀ : (⟨heap, none⟩ : Sched P F A).Tabulates [] [] := ⟨rfl, rfl⟩
  have hrounds : ([] : List P).length + ops.length ≤ fuel := by simpa using hf
  obtain ⟨s, l, hrun, h, hlen⟩ := h₀.run hrounds
  refine ⟨s, l, hrun, h.tasks, h.tasks.nodup, h.entries, ?_⟩
  have htable : SchedOp.table ops = graph (fun p => (s.call p).due) l := h.entries
  rcases schedueFirstTaskToExec_last id h.tasks hlen with
    ⟨rfl, hfirst⟩ | ⟨l₁, q, l₂, rfl, hfirst, h₁, h₂⟩
  · left
    refine ⟨htable, hfirst, ?_⟩
    intro now
    rw [schedueFirstTaskDelay, hfirst]
    rfl
  · right
    refine ⟨graph (fun p => (s.call p).due) l₁, q, (s.call q).due,
      graph (fun p => (s.call p).due) l₂, ?_, hfirst, ?_, ?_, ?_⟩
    · rw [htable]
      simp [graph]
    · exact List.forall_mem_map.mpr h₁
    · exact List.forall_mem_map.mpr h₂
    · intro now
      rw [schedueFirstTaskDelay, hfirst]
      rfl

/-- A task that is added again keeps its place, and deleting an absent one changes nothing. -/
theorem schedue_refines_table_two : ∃ s, Reach.run (Sched.step 4)
    (⟨fun _ => .zero, none⟩ : Sched ℕ ℕ ℕ) [.add 1 0 5 none none, .add 2 1 9 none none,
      .add 1 2 8 none none, .del 3] = some s ∧ Linked s.next s.taskList [1, 2] := by
  have hlen : ([.add 1 0 5 none none, .add 2 1 9 none none, .add 1 2 8 none none, .del 3] :
    List (SchedOp ℕ ℕ ℕ)).length ≤ 4 := le_rfl
  obtain ⟨s, l, hrun, hl, -, ht, -⟩ := schedue_refines_table (fun _ => .zero) _ hlen
  refine ⟨s, hrun, ?_⟩
  have hkeys := congrArg (List.map Prod.fst) ht
  rw [keys_graph] at hkeys
  subst hkeys
  exact hl

end Runs

end Sched

end Afly
