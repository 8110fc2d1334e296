import Afly.Lib.Directory
import Mathlib.Data.BitVec
import Mathlib.Data.Fin.Tuple.Basic

/-! # The table of watched files

The rows of `file_event.c`, each a file descriptor with an argument and the
functions that are called for its events. Function pointers and arguments are of
any types. A row without a descriptor keeps what it held, also the events that
`poll` last reported in it.
-/

namespace Afly

open Directory

abbrev pollEventNfd : ℕ := 32

def pollIn : BitVec 16 := 1
def pollPri : BitVec 16 := 2
def pollOut : BitVec 16 := 4

/-- `struct file_event_state`. -/
structure FileEventState (H A : Type*) where
  recv : Option H
  send : Option H
  eventf : Option H
  arg : A

/-- `struct pollfd`. -/
structure PollFd where
  fd : ℤ
  events : BitVec 16
  revents : BitVec 16

/-- `struct file_event_table`. -/
structure FileEventTable (H A : Type*) where
  poll : Fin pollEventNfd → PollFd
  state : Fin pollEventNfd → FileEventState H A

/-- What the table keeps of one call of `file_event_reg` or `file_event_reg_pollf`. -/
structure FileEvent (H A : Type*) where
  fd : ℤ
  events : BitVec 16
  state : FileEventState H A

namespace FileEvent

variable {H A : Type*}

/-- The descriptor and the argument of a row in use. -/
def key (r : FileEvent H A) : Option (ℤ × A) :=
  if r.fd < 0 then none else some (r.fd, r.state.arg)

/-- The row that `file_event_reg` writes. -/
def reg (fd : ℤ) (recv send : Option H) (arg : A) : FileEvent H A where
  fd := fd
  events := (if recv.isSome then pollIn ||| pollPri else 0) |||
    (if send.isSome then pollOut else 0)
  state := ⟨recv, send, none, arg⟩

/-- The row that `file_event_reg_pollf` writes. -/
def regPollf (fd : ℤ) (eventf : Option H) (eventsMask : BitVec 16) (arg : A) : FileEvent H A where
  fd := fd
  events := eventsMask
  state := ⟨none, none, eventf, arg⟩

end FileEvent

namespace FileEventTable

variable {H A : Type*} [DecidableEq A] (fet : FileEventTable H A)

omit [DecidableEq A] in
def fileEventInit : FileEventTable H A := { fet with poll := fun _ => ⟨-1, 0, 0⟩ }

def fileEventFind (fd : ℤ) (arg : A) : Option (Fin pollEventNfd) :=
  (Fin.find? fun i => (fet.poll i).fd = fd ∧ (fet.state i).arg = arg).or
    (Fin.find? fun i => (fet.poll i).fd < 0)

omit [DecidableEq A] in
/-- Overwrite a row, except for what `poll` reported in it. -/
def setRow (i : Fin pollEventNfd) (r : FileEvent H A) : FileEventTable H A where
  poll := Function.update fet.poll i { fet.poll i with fd := r.fd, events := r.events }
  state := Function.update fet.state i r.state

/-- The two registrations, which differ in the row that they write. -/
def register (r : FileEvent H A) : FileEventTable H A × ℤ :=
  match fet.fileEventFind r.fd r.state.arg with
  | none => (fet, -1)
  | some i => (fet.setRow i r, 0)

def fileEventReg (fd : ℤ) (recv send : Option H) (arg : A) : FileEventTable H A × ℤ :=
  fet.register (.reg fd recv send arg)

def fileEventRegPollf (fd : ℤ) (eventf : Option H) (eventsMask : BitVec 16) (arg : A) :
    FileEventTable H A × ℤ :=
  fet.register (.regPollf fd eventf eventsMask arg)

def fileEventUnreg (fd : ℤ) (arg : A) : FileEventTable H A × ℤ :=
  match fet.fileEventFind fd arg with
  | none => (fet, -1)
  | some i =>
    if (fet.poll i).fd < 0 then (fet, -1)
    else
      (fet.setRow i { fd := -1, events := 0, state := ⟨none, none, none, (fet.state i).arg⟩ }, 0)

omit [DecidableEq A] in
/-- What a row holds, without the events that were reported. -/
def row (i : Fin pollEventNfd) : FileEvent H A where
  fd := (fet.poll i).fd
  events := (fet.poll i).events
  state := fet.state i

end FileEventTable

inductive FileOp (H A : Type*) where
  | reg (fd : ℤ) (recv send : Option H) (arg : A)
  | regPollf (fd : ℤ) (eventf : Option H) (eventsMask : BitVec 16) (arg : A)
  | unreg (fd : ℤ) (arg : A)

/-- The descriptor and the argument that a call is about. -/
def FileOp.key {H A : Type*} : FileOp H A → ℤ × A
  | .reg fd _ _ arg | .regPollf fd _ _ arg | .unreg fd arg => (fd, arg)

def FileEventTable.operate {H A : Type*} [DecidableEq A] (fet : FileEventTable H A) :
    FileOp H A → FileEventTable H A × ℤ
  | .reg fd recv send arg => fet.fileEventReg fd recv send arg
  | .regPollf fd eventf eventsMask arg => fet.fileEventRegPollf fd eventf eventsMask arg
  | .unreg fd arg => fet.fileEventUnreg fd arg

/-- The files that are watched, by descriptor and argument. -/
abbrev Watched (H A : Type*) := ℤ × A → Option (FileEvent H A)

namespace Watched

variable {H A : Type*} [DecidableEq A]

omit [DecidableEq A] in
def Full (m : Watched H A) : Prop := {k | m k ≠ none}.ncard = pollEventNfd

open Classical in
/-- Watch a file, if it is watched already or there is room. A negative descriptor takes room and
is not watched. -/
noncomputable def register (m : Watched H A) (r : FileEvent H A) : Watched H A × ℤ :=
  match r.key with
  | none => (m, if m.Full then -1 else 0)
  | some k => if m k = none ∧ m.Full then (m, -1) else (Function.update m k (some r), 0)

def unregister (m : Watched H A) (k : ℤ × A) : Watched H A × ℤ :=
  match m k with
  | none => (m, -1)
  | some _ => (Function.update m k none, 0)

/-- The calls of `file_event.c` as changes of the map. -/
noncomputable def operate (m : Watched H A) : FileOp H A → Watched H A × ℤ
  | .reg fd recv send arg => m.register (.reg fd recv send arg)
  | .regPollf fd eventf eventsMask arg => m.register (.regPollf fd eventf eventsMask arg)
  | .unreg fd arg => m.unregister (fd, arg)

end Watched

namespace FileEventTable

section Rows

variable {H A : Type*} {fet : FileEventTable H A} {i j : Fin pollEventNfd} {r : FileEvent H A}
  {fd : ℤ} {arg : A}

theorem row_setRow : (fet.setRow i r).row = Function.update fet.row i r := by
  funext j
  by_cases hj : j = i
  · subst hj
    simp [row, setRow]
  · simp [row, setRow, hj]

theorem revents_setRow : ((fet.setRow i r).poll j).revents = (fet.poll j).revents := by
  by_cases hj : j = i
  · subst hj
    simp [setRow]
  · simp [setRow, hj]

theorem key_row_eq_none_iff : (fet.row i).key = none ↔ (fet.poll i).fd < 0 := by
  unfold FileEvent.key
  split_ifs with hneg
  · exact ⟨fun _ => hneg, fun _ => rfl⟩
  · exact ⟨nofun, fun h => absurd h hneg⟩

theorem key_row_eq_some_iff : (fet.row i).key = some (fd, arg) ↔
    0 ≤ fd ∧ (fet.poll i).fd = fd ∧ (fet.state i).arg = arg := by
  unfold FileEvent.key
  split_ifs with hneg
  · refine ⟨nofun, ?_⟩
    rintro ⟨hfd, rfl, -⟩
    exact absurd hneg (not_lt.mpr hfd)
  · simp only [Option.some.injEq, Prod.mk.injEq]
    exact ⟨fun h => ⟨h.1 ▸ not_lt.mp hneg, h⟩, fun h => h.2⟩

theorem represents_fileEventInit (fet : FileEventTable H A) :
    Represents FileEvent.key fet.fileEventInit.row fun _ => none :=
  represents_empty fun _ => key_row_eq_none_iff.mpr (by decide : (-1 : ℤ) < 0)

theorem full_iff {m : Watched H A} (h : Represents FileEvent.key fet.row m) :
    m.Full ↔ ∀ i, ¬ (fet.poll i).fd < 0 := by
  have hfull := h.full_iff
  rw [Fintype.card_fin] at hfull
  simp only [ne_eq, key_row_eq_none_iff] at hfull
  exact hfull.symm

end Rows

section Find

variable {H A : Type*} [DecidableEq A] {fet : FileEventTable H A} {m : Watched H A}
  {i : Fin pollEventNfd} {fd : ℤ} {arg : A}

/-- Where `file_event_find` finds a descriptor and an argument: in the row that is in use for them,
or else in a free row, if there is one. -/
theorem fileEventFind_cases (h : Represents FileEvent.key fet.row m) (fd : ℤ) (arg : A) :
    (0 ≤ fd ∧ ∃ i, fet.fileEventFind fd arg = some i ∧ (fet.row i).key = some (fd, arg)) ∨
    ((fd < 0 ∨ m (fd, arg) = none) ∧ ¬ m.Full ∧
      ∃ i, fet.fileEventFind fd arg = some i ∧ (fet.poll i).fd < 0) ∨
    ((fd < 0 ∨ m (fd, arg) = none) ∧ m.Full ∧ fet.fileEventFind fd arg = none) := by
  rw [full_iff h]
  unfold fileEventFind
  cases hsame : Fin.find? fun i => (fet.poll i).fd = fd ∧ (fet.state i).arg = arg with
  | some i =>
    simp only [Fin.find?_eq_some_iff, decide_eq_true_eq] at hsame
    obtain ⟨⟨rfl, rfl⟩, -⟩ := hsame
    by_cases hneg : (fet.poll i).fd < 0
    · exact Or.inr (Or.inl ⟨Or.inl hneg, fun hall => hall i hneg, i, rfl, hneg⟩)
    · exact Or.inl ⟨not_lt.mp hneg, i, rfl,
        key_row_eq_some_iff.mpr ⟨not_lt.mp hneg, rfl, rfl⟩⟩
  | none =>
    simp only [Fin.find?_eq_none_iff, decide_eq_false_iff_not] at hsame
    have hnone : fd < 0 ∨ m (fd, arg) = none := by
      by_cases hneg : fd < 0
      · exact Or.inl hneg
      · refine Or.inr (h.eq_none_iff.mpr fun i hi => hsame i ?_)
        exact (key_row_eq_some_iff.mp hi).2
    rw [Option.none_or]
    cases hfree : Fin.find? fun i => ((fet.poll i).fd < 0 : Bool) with
    | some i =>
      simp only [Fin.find?_eq_some_iff, decide_eq_true_eq] at hfree
      exact Or.inr (Or.inl ⟨hnone, fun hall => hall i hfree.1, i, rfl, hfree.1⟩)
    | none =>
      simp only [Fin.find?_eq_none_iff, decide_eq_false_iff_not] at hfree
      exact Or.inr (Or.inr ⟨hnone, hfree, rfl⟩)

variable {r : FileEvent H A}

theorem register_spec (h : Represents FileEvent.key fet.row m) (r : FileEvent H A) :
    Represents FileEvent.key (fet.register r).1.row (m.register r).1 ∧
      (fet.register r).2 = (m.register r).2 := by
  unfold register Watched.register
  have hkey : r.key = if r.fd < 0 then none else some (r.fd, r.state.arg) := rfl
  rcases fileEventFind_cases h r.fd r.state.arg with
    ⟨hfd, i, hi, hrow⟩ | ⟨hnone, hfull, i, hi, hfree⟩ | ⟨hnone, hfull, hi⟩
  · have hm := h.listed i _ hrow
    rw [if_neg (not_lt.mpr hfd)] at hkey
    rw [hi, hkey]
    dsimp only
    rw [if_neg (by simp [hm]), row_setRow]
    exact ⟨h.rewrite hrow hkey, rfl⟩
  · rw [hi]
    dsimp only
    rw [row_setRow]
    have hrow := key_row_eq_none_iff.mpr hfree
    by_cases hneg : r.fd < 0
    · rw [if_pos hneg] at hkey
      rw [hkey]
      dsimp only
      rw [if_neg hfull]
      exact ⟨h.refill hrow hkey, rfl⟩
    · rw [if_neg hneg] at hkey
      have hm := hnone.resolve_left hneg
      rw [hkey]
      dsimp only
      rw [if_neg fun hc => hfull hc.2]
      exact ⟨h.insert hrow hm hkey, rfl⟩
  · rw [hi]
    dsimp only
    by_cases hneg : r.fd < 0
    · rw [if_pos hneg] at hkey
      rw [hkey]
      dsimp only
      rw [if_pos hfull]
      exact ⟨h, rfl⟩
    · rw [if_neg hneg] at hkey
      rw [hkey]
      dsimp only
      rw [if_pos ⟨hnone.resolve_left hneg, hfull⟩]
      exact ⟨h, rfl⟩

theorem fileEventUnreg_spec (h : Represents FileEvent.key fet.row m) (fd : ℤ) (arg : A) :
    Represents FileEvent.key (fet.fileEventUnreg fd arg).1.row (m.unregister (fd, arg)).1 ∧
      (fet.fileEventUnreg fd arg).2 = (m.unregister (fd, arg)).2 := by
  unfold fileEventUnreg Watched.unregister
  have hneg (hfd : fd < 0 ∨ m (fd, arg) = none) : m (fd, arg) = none := by
    rcases hfd with hfd | hm
    · refine h.eq_none_iff.mpr fun i hi => ?_
      exact absurd (key_row_eq_some_iff.mp hi).1 (not_le.mpr hfd)
    · exact hm
  rcases fileEventFind_cases h fd arg with
    ⟨hfd, i, hi, hrow⟩ | ⟨hnone, -, i, hi, hfree⟩ | ⟨hnone, -, hi⟩
  · rw [hi, h.listed i _ hrow]
    dsimp only
    rw [if_neg (not_lt.mpr ((key_row_eq_some_iff.mp hrow).2.1 ▸ hfd)), row_setRow]
    exact ⟨h.erase hrow rfl, rfl⟩
  · rw [hi, hneg hnone]
    dsimp only
    rw [if_pos hfree]
    exact ⟨h, rfl⟩
  · rw [hi, hneg hnone]
    exact ⟨h, rfl⟩

theorem operate_spec (h : Represents FileEvent.key fet.row m) (op : FileOp H A) :
    Represents FileEvent.key (fet.operate op).1.row (m.operate op).1 ∧
      (fet.operate op).2 = (m.operate op).2 := by
  cases op with
  | reg fd recv send arg => exact register_spec h _
  | regPollf fd eventf eventsMask arg => exact register_spec h _
  | unreg fd arg => exact fileEventUnreg_spec h fd arg

end Find

section Frame

variable {H A : Type*} [DecidableEq A] {fet : FileEventTable H A} {m : Watched H A}
  {i j : Fin pollEventNfd} {k : ℤ × A} {r : FileEvent H A}

/-- What a call does to the table: nothing, or it writes the row that is found for its file, and
only `file_event_unreg` writes one for another file. -/
theorem operate_cases (fet : FileEventTable H A) (op : FileOp H A) :
    (fet.operate op).1 = fet ∨ ∃ i r, fet.fileEventFind op.key.1 op.key.2 = some i ∧
      (fet.operate op).1 = fet.setRow i r ∧
      ((r.fd, r.state.arg) = op.key ∨ ∃ fd arg, op = .unreg fd arg) := by
  have hregister (r : FileEvent H A) : (fet.register r).1 = fet ∨
      ∃ i, fet.fileEventFind r.fd r.state.arg = some i ∧ (fet.register r).1 = fet.setRow i r := by
    unfold register
    cases fet.fileEventFind r.fd r.state.arg with
    | none => exact Or.inl rfl
    | some i => exact Or.inr ⟨i, rfl, rfl⟩
  cases op with
  | reg fd recv send arg =>
    rcases hregister (.reg fd recv send arg) with heq | ⟨i, hi, heq⟩
    · exact Or.inl heq
    · exact Or.inr ⟨i, _, hi, heq, Or.inl rfl⟩
  | regPollf fd eventf eventsMask arg =>
    rcases hregister (.regPollf fd eventf eventsMask arg) with heq | ⟨i, hi, heq⟩
    · exact Or.inl heq
    · exact Or.inr ⟨i, _, hi, heq, Or.inl rfl⟩
  | unreg fd arg =>
    unfold operate fileEventUnreg
    dsimp only [FileOp.key]
    cases fet.fileEventFind fd arg with
    | none => exact Or.inl rfl
    | some i =>
      dsimp only
      split_ifs
      · exact Or.inl rfl
      · exact Or.inr ⟨i, _, rfl, rfl, Or.inr ⟨fd, arg, rfl⟩⟩

theorem key_of_fileEventFind (h : Represents FileEvent.key fet.row m)
    (hrow : (fet.row i).key ≠ none) {fd : ℤ} {arg : A} (hi : fet.fileEventFind fd arg = some i) :
    (fet.row i).key = some (fd, arg) := by
  rcases fileEventFind_cases h fd arg with
    ⟨-, j, hj, hused⟩ | ⟨-, -, j, hj, hfree⟩ | ⟨-, -, hj⟩
  · obtain rfl := Option.some.inj (hi.symm.trans hj)
    exact hused
  · obtain rfl := Option.some.inj (hi.symm.trans hj)
    exact absurd (key_row_eq_none_iff.mpr hfree) hrow
  · cases hi.symm.trans hj

theorem row_operate (h : Represents FileEvent.key fet.row m) (hrow : (fet.row i).key = some k)
    {op : FileOp H A} (hk : op.key ≠ k) : (fet.operate op).1.row i = fet.row i := by
  rcases operate_cases fet op with heq | ⟨j, r, hj, heq, -⟩
  · rw [heq]
  · have hij : i ≠ j := by
      rintro rfl
      have hkey := key_of_fileEventFind h (hrow ▸ Option.some_ne_none k) hj
      exact hk (Option.some.inj (hkey.symm.trans hrow))
    rw [heq, row_setRow, Function.update_of_ne hij]

theorem revents_operate (op : FileOp H A) :
    ((fet.operate op).1.poll i).revents = (fet.poll i).revents := by
  rcases operate_cases fet op with heq | ⟨j, r, -, heq, -⟩
  · rw [heq]
  · rw [heq, revents_setRow]

theorem key_operate (h : Represents FileEvent.key fet.row m) {op : FileOp H A}
    (hop : ∀ fd arg, op ≠ .unreg fd arg) (hrow : (fet.row i).key ≠ none) :
    ((fet.operate op).1.row i).key = (fet.row i).key := by
  rcases operate_cases fet op with heq | ⟨j, r, hj, heq, hr | ⟨fd, arg, hunreg⟩⟩
  · rw [heq]
  · rw [heq, row_setRow]
    by_cases hij : i = j
    · subst hij
      have hkey := key_of_fileEventFind h hrow hj
      obtain ⟨hfd, -, -⟩ := key_row_eq_some_iff.mp hkey
      have hpair : op.key = (r.fd, r.state.arg) := hr.symm
      rw [hpair] at hfd hkey
      rw [Function.update_self, hkey, FileEvent.key, if_neg (not_lt.mpr hfd)]
    · rw [Function.update_of_ne hij]
  · exact absurd hunreg (hop fd arg)

end Frame

end FileEventTable

end Afly
