import Mathlib.Logic.Function.Basic
import Mathlib.Tactic

/-! # The task scheduler

The tasks of `schedule.c` are linked through their own records: a heap gives
the record of every task and `taskList` the first link. The type of task
addresses, of functions and of arguments is arbitrary, and a C loop over the
list takes a bound on its rounds and is undefined when the list is longer,
as on a list that has become a ring. `long` is what the target's `long` keeps
of an integer.
-/

namespace Afly

structure SchduleTask (P F A : Type*) where
  func : Option F
  arg : Option A
  start : ℤ
  delt : ℤ
  next : Option P

def SchduleTask.zero {P F A : Type*} : SchduleTask P F A := ⟨none, none, 0, 0, none⟩

/-- What `schedue_add` stores in a task besides its link. -/
structure Call (F A : Type*) where
  func : Option F
  arg : Option A
  start : ℤ
  delt : ℤ

def SchduleTask.call {P F A : Type*} (t : SchduleTask P F A) : Call F A :=
  ⟨t.func, t.arg, t.start, t.delt⟩

structure Sched (P F A : Type*) where
  heap : P → SchduleTask P F A
  taskList : Option P

namespace Sched

variable {P F A : Type*}

def next (s : Sched P F A) (p : P) : Option P := (s.heap p).next

def call (s : Sched P F A) (p : P) : Call F A := (s.heap p).call

section Loops

variable [DecidableEq P] (s : Sched P F A) (task : P)

/-- The loop of `schedue_search`. -/
def searchLoop : ℕ → Option P → Option (Option P)
  | _, none => some none
  | 0, some _ => none
  | n + 1, some curr => if curr = task then some (some curr) else searchLoop n (s.next curr)

omit [DecidableEq P] in
/-- The loop of `_schedue_add`: the last task of the list. -/
def lastLoop : ℕ → Option P → Option (Option P)
  | _, none => some none
  | 0, some prev => if (s.next prev).isNone then some (some prev) else none
  | n + 1, some prev => if (s.next prev).isNone then some (some prev)
      else lastLoop n (s.next prev)

/-- The loop of `schedue_del`: `prev` and `curr` when it stops. -/
def delLoop : ℕ → Option P → Option P → Option (Option P × Option P)
  | _, prev, none => some (prev, none)
  | 0, _, some _ => none
  | n + 1, prev, some curr =>
    if curr = task then some (prev, some curr) else delLoop n (some curr) (s.next curr)

end Loops

/-- The deadline `start + delt` of a task. -/
def deadline (long : ℤ → ℤ) (s : Sched P F A) (p : P) : ℤ :=
  long ((s.heap p).start + (s.heap p).delt)

/-- The loop of `schedue_first_task_to_exec`, with `min` found so far. -/
def minLoop (long : ℤ → ℤ) (s : Sched P F A) : ℕ → Option P → P → Option P
  | _, none, min => some min
  | 0, some _, _ => none
  | n + 1, some curr, min =>
    minLoop long s n (s.next curr)
      (if s.deadline long curr ≤ s.deadline long min then curr else min)

section Operations

variable [DecidableEq P]

def setNext (s : Sched P F A) (p : P) (n : Option P) : Sched P F A :=
  { s with heap := Function.update s.heap p { s.heap p with next := n } }

def setCall (s : Sched P F A) (p : P) (c : Call F A) : Sched P F A :=
  { s with heap := Function.update s.heap p ⟨c.func, c.arg, c.start, c.delt, (s.heap p).next⟩ }

def schedueSearch (fuel : ℕ) (s : Sched P F A) (task : P) : Option (Option P) :=
  s.searchLoop task fuel s.taskList

def append (fuel : ℕ) (s : Sched P F A) (task : P) : Option (Sched P F A) :=
  (s.lastLoop fuel s.taskList).map fun
    | none => { s with taskList := some task }.setNext task none
    | some prev => (s.setNext prev (some task)).setNext task none

/-- `schedue_add`, with the clock reading `now` of `schedue_current`. -/
def schedueAdd (fuel : ℕ) (now : ℤ) (s : Sched P F A) (task : P) (ms : ℤ) (func : Option F)
    (arg : Option A) : Option (Sched P F A) :=
  (s.schedueSearch fuel task).bind fun found =>
    (match found with
      | none => s.append fuel task
      | some _ => some s).map fun (s : Sched P F A) => s.setCall task ⟨func, arg, now, ms⟩

omit [DecidableEq P] in
def schedueFirstTaskToExec (fuel : ℕ) (long : ℤ → ℤ) (s : Sched P F A) : Option (Option P) :=
  match s.taskList with
  | none => some none
  | some min => (s.minLoop long fuel (some min) min).map some

omit [DecidableEq P] in
def schedueFirstTaskDelay (fuel : ℕ) (long : ℤ → ℤ) (now : ℤ) (s : Sched P F A) : Option ℤ :=
  (s.schedueFirstTaskToExec fuel long).map fun
    | none => -1
    | some min => max 0 (long (s.deadline long min - now))

def schedueDel (fuel : ℕ) (s : Sched P F A) (task : P) : Option (Sched P F A) :=
  (s.delLoop task fuel none s.taskList).map fun
    | (_, none) => s
    | (none, some curr) => { s with taskList := s.next curr }
    | (some prev, some curr) => s.setNext prev (s.next curr)

end Operations

end Sched

end Afly
