import Mathlib.Logic.Function.Basic
import Mathlib.Tactic

/-! # One-shot timers

The timers of `timer.c` are linked through their own records in the order of
their expiry. A timer whose expiry is 0 is not armed. The type of timer
addresses is arbitrary, the clock is unbounded, and a C loop over the list takes
a bound on its rounds. The handler of a timer never changes and is not kept.
-/

namespace Afly

/-- `struct timer`. -/
structure Timer (P : Type*) where
  next : Option P
  timeMs : ℕ

def Timer.zero {P : Type*} : Timer P := ⟨none, 0⟩

/-- `struct timer_head`, with the records of all timers. -/
structure TimerHead (P : Type*) where
  heap : P → Timer P
  first : Option P

namespace TimerHead

variable {P : Type*}

def init : TimerHead P := ⟨fun _ => .zero, none⟩

def next (h : TimerHead P) (p : P) : Option P := (h.heap p).next

/-- The expiry of a timer, 0 when it is not armed. -/
def time (h : TimerHead P) (p : P) : ℕ := (h.heap p).timeMs

/-- The link that `prev` points to: that of a timer, or the head of the list. -/
def link (h : TimerHead P) : Option P → Option P
  | none => h.first
  | some p => h.next p

section Operations

variable [DecidableEq P]

def setNext (h : TimerHead P) (p : P) (n : Option P) : TimerHead P :=
  { h with heap := Function.update h.heap p { h.heap p with next := n } }

def setTime (h : TimerHead P) (p : P) (t : ℕ) : TimerHead P :=
  { h with heap := Function.update h.heap p { h.heap p with timeMs := t } }

/-- `*prev = n`. -/
def setLink (h : TimerHead P) : Option P → Option P → TimerHead P
  | none, n => { h with first := n }
  | some p, n => h.setNext p n

/-- The loop of `timer_cancel`. -/
def cancelLoop (timer : P) (h : TimerHead P) : ℕ → Option P → Option (TimerHead P)
  | 0, prev => if (h.link prev).isNone then some h else none
  | n + 1, prev =>
    match h.link prev with
    | none => some h
    | some node =>
      if node = timer then some ((h.setLink prev (h.next node)).setTime node 0)
      else cancelLoop timer h n (some node)

def timerCancel (fuel : ℕ) (h : TimerHead P) (timer : P) : Option (TimerHead P) :=
  if h.time timer = 0 then some h else h.cancelLoop timer fuel none

omit [DecidableEq P] in
/-- The loop of `timer_set`: the link behind which a timer with this expiry belongs. -/
def insertLoop (time : ℕ) (h : TimerHead P) : ℕ → Option P → Option (Option P)
  | 0, prev => if (h.link prev).isNone then some prev else none
  | n + 1, prev =>
    match h.link prev with
    | none => some prev
    | some node => if time < h.time node then some prev else insertLoop time h n (some node)

def timerSet (fuel now : ℕ) (h : TimerHead P) (timer : P) (ms : ℕ) : Option (TimerHead P) :=
  (h.timerCancel fuel timer).bind fun h =>
    let h := h.setTime timer (now + ms)
    (h.insertLoop (now + ms) fuel none).map fun prev =>
      (h.setLink prev (some timer)).setNext timer (h.link prev)

/-- One round of `timer_advance` at a time: the timer whose handler it calls, off the list, or
nothing when none is due. -/
def timerAdvanceRound (now : ℕ) (h : TimerHead P) : Option (P × TimerHead P) :=
  match h.first with
  | none => none
  | some node =>
    if h.time node > now then none
    else some (node, (({ h with first := h.next node }).setTime node 0).setNext node none)

end Operations

end TimerHead

end Afly
