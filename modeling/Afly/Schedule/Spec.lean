import Afly.Lib.Chain
import Afly.Schedule.Basic

/-! # The scheduler on a well-formed list

On a chain of tasks no longer than the bound every scheduler function is
defined. `schedueAdd` leaves a pending task in its place and hangs a new one at
the end, `schedueDel` takes out exactly its task, and no other task's function,
argument or times change.
-/

namespace Afly.Sched

open Chain

variable {P F A : Type*} {s : Sched P F A} {l : List P} {task p : P} {fuel : ℕ}

def Tasks (s : Sched P F A) (l : List P) : Prop := Linked s.next s.taskList l

@[simp] theorem next_setCall [DecidableEq P] (c : Call F A) :
    (s.setCall task c).next = s.next := by
  funext q
  by_cases h : q = task
  · subst h; simp [next, setCall]
  · simp [next, setCall, h]

@[simp] theorem call_setCall [DecidableEq P] (c : Call F A) :
    (s.setCall task c).call = Function.update s.call task c := by
  funext q
  by_cases h : q = task
  · subst h; simp [call, setCall, SchduleTask.call]
  · simp [call, setCall, h]

@[simp] theorem next_setNext [DecidableEq P] (n : Option P) :
    (s.setNext p n).next = Function.update s.next p n := by
  funext q
  by_cases h : q = p
  · subst h; simp [next, setNext]
  · simp [next, setNext, h]

@[simp] theorem call_setNext [DecidableEq P] (n : Option P) : (s.setNext p n).call = s.call := by
  funext q
  by_cases h : q = p
  · subst h; simp [call, setNext, SchduleTask.call]
  · simp [call, setNext, h]

section Loops

variable [DecidableEq P]

theorem searchLoop_eq {h : Option P} (hl : Linked s.next h l) (hf : l.length ≤ fuel) :
    s.searchLoop task fuel h = some (if task ∈ l then some task else none) := by
  induction l generalizing h fuel with
  | nil => rw [linked_nil.mp hl]; cases fuel <;> rfl
  | cons q l ih =>
    obtain ⟨fuel, rfl⟩ : ∃ n, fuel = n + 1 :=
      ⟨fuel - 1, by simp only [List.length_cons] at hf; omega⟩
    rw [hl.1, searchLoop]
    by_cases hq : q = task
    · simp [hq]
    · rw [if_neg hq, ih hl.2 (by simpa using hf)]
      simp [Ne.symm hq]

theorem schedueSearch_eq (hl : s.Tasks l) (hf : l.length ≤ fuel) :
    s.schedueSearch fuel task = some (if task ∈ l then some task else none) :=
  searchLoop_eq hl hf

omit [DecidableEq P] in
theorem lastLoop_eq {h : Option P} (hl : Linked s.next h l) (hf : l.length ≤ fuel) :
    s.lastLoop fuel h = some l.getLast? := by
  induction l generalizing h fuel with
  | nil => rw [linked_nil.mp hl]; cases fuel <;> rfl
  | cons q l ih =>
    obtain ⟨fuel, rfl⟩ : ∃ n, fuel = n + 1 :=
      ⟨fuel - 1, by simp only [List.length_cons] at hf; omega⟩
    rw [hl.1, lastLoop]
    cases l with
    | nil => simp [linked_nil.mp hl.2]
    | cons r l =>
      rw [hl.2.1, if_neg (by simp), ← hl.2.1, ih hl.2 (by simpa using hf)]
      simp [List.getLast?_cons_cons]

variable (task) in
theorem delLoop_eq {h : Option P} (prev : Option P) (hl : Linked s.next h l)
    (hf : l.length ≤ fuel) :
    (task ∉ l ∧ ∃ q, s.delLoop task fuel prev h = some (q, none)) ∨
    ∃ l₁ l₂, l = l₁ ++ task :: l₂ ∧ task ∉ l₁ ∧
      s.delLoop task fuel prev h = some (l₁.getLast?.or prev, some task) := by
  induction l generalizing h prev fuel with
  | nil =>
    rw [linked_nil.mp hl]
    exact Or.inl ⟨by simp, prev, by cases fuel <;> rfl⟩
  | cons q l ih =>
    obtain ⟨fuel, rfl⟩ : ∃ n, fuel = n + 1 :=
      ⟨fuel - 1, by simp only [List.length_cons] at hf; omega⟩
    rw [hl.1, delLoop]
    by_cases hq : q = task
    · subst hq
      exact Or.inr ⟨[], l, rfl, by simp, by simp⟩
    · rw [if_neg hq]
      rcases ih (some q) hl.2 (by simpa using hf) with ⟨hn, r, hr⟩ | ⟨l₁, l₂, rfl, hn, hr⟩
      · exact Or.inl ⟨by simp [hn, Ne.symm hq], r, hr⟩
      · refine Or.inr ⟨q :: l₁, l₂, rfl, by simp [hn, Ne.symm hq], ?_⟩
        rw [hr]
        cases l₁ with
        | nil => rfl
        | cons r l₁ => simp [List.getLast?_cons]

omit [DecidableEq P] in
theorem minLoop_last (long : ℤ → ℤ) {h : Option P} (hl : Linked s.next h l) (hf : l.length ≤ fuel) :
    ∃ q, s.minLoop long fuel h p = some q ∧
      ((q = p ∧ ∀ r ∈ l, s.deadline long p < s.deadline long r) ∨
        ∃ l₁ l₂, l = l₁ ++ q :: l₂ ∧ s.deadline long q ≤ s.deadline long p ∧
          (∀ r ∈ l₁, s.deadline long q ≤ s.deadline long r) ∧
          ∀ r ∈ l₂, s.deadline long q < s.deadline long r) := by
  induction l generalizing h fuel p with
  | nil =>
    rw [linked_nil.mp hl]
    exact ⟨p, by cases fuel <;> rfl, Or.inl ⟨rfl, by simp⟩⟩
  | cons r l ih =>
    obtain ⟨fuel, rfl⟩ : ∃ n, fuel = n + 1 :=
      ⟨fuel - 1, by simp only [List.length_cons] at hf; omega⟩
    rw [hl.1, minLoop]
    obtain ⟨q, hq, hcases⟩ := ih (p := if s.deadline long r ≤ s.deadline long p then r else p)
      hl.2 (by simpa using hf)
    refine ⟨q, hq, ?_⟩
    split at hcases
    · rename_i hle
      right
      rcases hcases with ⟨rfl, hlt⟩ | ⟨l₁, l₂, rfl, hq, h₁, h₂⟩
      · exact ⟨[], l, rfl, hle, by simp, hlt⟩
      · refine ⟨r :: l₁, l₂, rfl, hq.trans hle, ?_, h₂⟩
        exact List.forall_mem_cons.mpr ⟨hq, h₁⟩
    · rename_i hlt
      rw [not_le] at hlt
      rcases hcases with ⟨rfl, hall⟩ | ⟨l₁, l₂, rfl, hq, h₁, h₂⟩
      · exact Or.inl ⟨rfl, List.forall_mem_cons.mpr ⟨hlt, hall⟩⟩
      · refine Or.inr ⟨r :: l₁, l₂, rfl, hq, ?_, h₂⟩
        exact List.forall_mem_cons.mpr ⟨hq.trans hlt.le, h₁⟩

end Loops

section Operations

variable [DecidableEq P]

theorem append_spec (hl : s.Tasks l) (hn : task ∉ l) (hf : l.length ≤ fuel) :
    ∃ s', s.append fuel task = some s' ∧ s'.Tasks (l ++ [task]) ∧ s'.call = s.call := by
  rw [append, lastLoop_eq hl hf]
  cases l using List.reverseRecOn with
  | nil => exact ⟨_, rfl, ⟨rfl, by simp⟩, by simp; rfl⟩
  | append_singleton l q =>
    rw [List.getLast?_concat]
    refine ⟨_, rfl, ?_, by simp⟩
    have hqt : q ≠ task := by rintro rfl; simp at hn
    have hql : q ∉ l := by
      intro hq
      have hd := hl.nodup
      rw [List.nodup_append] at hd
      exact hd.2.2 q hq q (by simp) rfl
    apply Linked.concat hl hn (by simp [hqt]) (by simp)
    intro r hr
    have hrq : r ≠ q := by rintro rfl; exact hql hr
    have hrt : r ≠ task := by rintro rfl; simp [hr] at hn
    simp [hrq, hrt]

variable (task) in
theorem schedueAdd_spec (hl : s.Tasks l) (hf : l.length ≤ fuel) (now ms : ℤ) (func : Option F)
    (arg : Option A) : ∃ s', s.schedueAdd fuel now task ms func arg = some s' ∧
      s'.Tasks (if task ∈ l then l else l ++ [task]) ∧
      s'.call = Function.update s.call task ⟨func, arg, now, ms⟩ := by
  rw [schedueAdd, schedueSearch_eq hl hf]
  by_cases hm : task ∈ l
  · rw [if_pos hm, if_pos hm]
    refine ⟨_, rfl, ?_, call_setCall _⟩
    unfold Tasks
    rw [next_setCall]
    exact hl
  · rw [if_neg hm, if_neg hm]
    obtain ⟨s', hs', ht, hc⟩ := append_spec hl hm hf
    refine ⟨s'.setCall task ⟨func, arg, now, ms⟩, by simp [hs'], ?_, by rw [call_setCall, hc]⟩
    unfold Tasks
    rw [next_setCall]
    exact ht

variable (task) in
theorem schedueDel_spec (hl : s.Tasks l) (hf : l.length ≤ fuel) :
    ∃ s', s.schedueDel fuel task = some s' ∧ s'.Tasks (l.erase task) ∧ s'.call = s.call := by
  rw [schedueDel]
  rcases delLoop_eq task none hl hf with
    ⟨hn, q, hq⟩ | ⟨l₁, l₂, rfl, hn, hq⟩
  · rw [hq, List.erase_of_not_mem hn]
    exact ⟨s, rfl, hl, rfl⟩
  · rw [hq, Option.or_none, List.erase_append_right _ hn, List.erase_cons_head]
    cases l₁ using List.reverseRecOn with
    | nil => exact ⟨_, rfl, hl.2, rfl⟩
    | append_singleton l₁ r =>
      rw [List.getLast?_concat]
      refine ⟨_, rfl, ?_, by simp⟩
      have hd := hl.nodup
      unfold Tasks at hl ⊢
      rw [List.append_assoc, List.singleton_append] at hl ⊢
      apply Linked.unlink hl (by simp)
      intro q hq
      have hqr : q ≠ r := by
        rintro rfl
        simp only [List.append_assoc, List.cons_append, List.nil_append, List.nodup_append,
          List.nodup_cons, List.mem_cons] at hd hq
        grind
      simp [hqr]

omit [DecidableEq P] in
theorem schedueFirstTaskToExec_last (long : ℤ → ℤ) (hl : s.Tasks l) (hf : l.length ≤ fuel) :
    (l = [] ∧ s.schedueFirstTaskToExec fuel long = some none) ∨
    ∃ l₁ q l₂, l = l₁ ++ q :: l₂ ∧ s.schedueFirstTaskToExec fuel long = some (some q) ∧
      (∀ r ∈ l₁, s.deadline long q ≤ s.deadline long r) ∧
      ∀ r ∈ l₂, s.deadline long q < s.deadline long r := by
  unfold schedueFirstTaskToExec
  cases l with
  | nil => exact Or.inl ⟨rfl, by rw [linked_nil.mp hl]⟩
  | cons r l =>
    have hr : Linked s.next (some r) (r :: l) := ⟨rfl, hl.2⟩
    obtain ⟨q, hq, hcases⟩ := minLoop_last (p := r) long hr hf
    rw [hl.1]
    rcases hcases with ⟨-, hlt⟩ | ⟨l₁, l₂, he, -, h₁, h₂⟩
    · exact absurd (hlt r List.mem_cons_self) (lt_irrefl _)
    · exact Or.inr ⟨l₁, q, l₂, he, by simp [hq], h₁, h₂⟩

omit [DecidableEq P] in
theorem schedueFirstTaskToExec_spec {long : ℤ → ℤ} (hl : s.Tasks l) (hf : l.length ≤ fuel) :
    (l = [] ∧ s.schedueFirstTaskToExec fuel long = some none) ∨
    ∃ q ∈ l, s.schedueFirstTaskToExec fuel long = some (some q) := by
  rcases schedueFirstTaskToExec_last long hl hf with hnil | ⟨l₁, q, l₂, rfl, hq, -⟩
  · exact Or.inl hnil
  · exact Or.inr ⟨q, by simp, hq⟩

omit [DecidableEq P] in
theorem schedueFirstTaskToExec_le {long : ℤ → ℤ} {q : P} (hl : s.Tasks l) (hf : l.length ≤ fuel)
    (hq : s.schedueFirstTaskToExec fuel long = some (some q)) (hp : p ∈ l) :
    s.deadline long q ≤ s.deadline long p := by
  rcases schedueFirstTaskToExec_last long hl hf with ⟨rfl, -⟩ | ⟨l₁, q', l₂, rfl, hq', h₁, h₂⟩
  · cases hp
  · obtain rfl : q = q' := Option.some.inj (Option.some.inj (hq.symm.trans hq'))
    rcases List.mem_append.mp hp with hp | hp
    · exact h₁ p hp
    · rcases List.mem_cons.mp hp with rfl | hp
      · exact le_rfl
      · exact (h₂ p hp).le

end Operations

end Afly.Sched
