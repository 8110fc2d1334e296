import Afly.Events.Files
import Afly.Lib.Reach
import Afly.Timer.Spec

/-! # Timers and files in one loop

`run_main` calls the handlers of the timers that are due, waits for files until
the next timer is due, and calls the handlers of the files with events. Any
handler may set and cancel timers, watch other files, cease to watch one, and
take its time. What handlers do is a parameter, so the loop is that of any
program, and the time of the loop itself is not counted.
-/

namespace Afly

open FileEventTable

abbrev int32Max : ℕ := 2 ^ 31 - 1

/-- The call of a handler for a file, with the events if it takes them. -/
structure EventCall (H A : Type*) where
  handler : H
  arg : A
  fd : ℤ
  events : Option (BitVec 16)

/-- Where handlers are called: before the loop, by a timer and for a file. -/
inductive Cause (H A P : Type*) where
  | start
  | timer (timer : P)
  | file (call : EventCall H A)

inductive Action (H A P : Type*) where
  | file (op : FileOp H A)
  | timerSet (timer : P) (ms : ℕ)
  | timerCancel (timer : P)
  | work (ms : ℕ)

/-- What `poll` answers for a descriptor and the events asked for, or nothing when it fails, and
how long it waits. -/
structure PollAnswer where
  slept : ℕ
  ready : Option (ℤ → BitVec 16 → BitVec 16)

inductive LoopRecord (H A P : Type*) where
  | filed (op : FileOp H A) (ret : ℤ)
  | set (timer : P) (due : ℕ)
  | cancelled (timer : P)
  | fired (timer : P) (now : ℕ)
  | called (call : EventCall H A)
  | polled (now timeoutMs : ℕ) (ready : Option (ℤ → BitVec 16 → BitVec 16))
  | returned (rc : ℤ)

/-- Where the loop is: before it, in `timer_advance` with its `mtime`, or about to poll. -/
inductive LoopPhase where
  | start
  | advance (mtime : ℕ)
  | poll (nextTimeoutMs : ℤ)

/-- The process in its loop, with what its handlers keep for themselves. -/
structure MainLoop (H A P σ : Type*) where
  fet : FileEventTable H A
  th : TimerHead P
  own : σ
  /-- The monotonic clock in milliseconds, which has left the 0 of a timer that is not armed. -/
  now : ℕ
  ticking : 0 < now
  phase : LoopPhase
  /-- What happened, the latest first. -/
  trace : List (LoopRecord H A P)

/-- What `poll` reports in a table, and its result. -/
def FileEventTable.polled {H A : Type*} (fet : FileEventTable H A)
    (ready : ℤ → BitVec 16 → BitVec 16) : FileEventTable H A × ℤ :=
  let fet := { fet with poll := fun i =>
    { fet.poll i with
      revents := if (fet.poll i).fd < 0 then 0 else ready (fet.poll i).fd (fet.poll i).events } }
  (fet, ((List.finRange pollEventNfd).countP fun i => (fet.poll i).revents ≠ 0 : ℕ))

namespace MainLoop

variable {H A P σ : Type*} [DecidableEq A] [DecidableEq P] [Fintype P]

/-- The loop of a program, with any table of files that is not filled in yet. -/
def start (fet : FileEventTable H A) (own : σ) (now : ℕ) : MainLoop H A P σ where
  fet := fet.fileEventInit
  th := .init
  own := own
  now := now + 1
  ticking := Nat.succ_pos now
  phase := .start
  trace := []

omit [DecidableEq A] [DecidableEq P] [Fintype P] in
def note (s : MainLoop H A P σ) (e : LoopRecord H A P) : MainLoop H A P σ :=
  { s with trace := e :: s.trace }

/-- The list of timers has at most all of them. -/
def act (s : MainLoop H A P σ) : Action H A P → Option (MainLoop H A P σ)
  | .file op =>
    some ({ s with fet := (s.fet.operate op).1 }.note (.filed op (s.fet.operate op).2))
  | .timerSet timer ms =>
    (s.th.timerSet (Fintype.card P) s.now timer ms).map fun th =>
      { s with th := th }.note (.set timer (s.now + ms))
  | .timerCancel timer =>
    (s.th.timerCancel (Fintype.card P) timer).map fun th =>
      { s with th := th }.note (.cancelled timer)
  | .work ms => some { s with now := s.now + ms, ticking := Nat.add_pos_left s.ticking ms }

-- What handlers keep and do, by why they are called and in which state.
variable (serve : Cause H A P → MainLoop H A P σ → σ × List (Action H A P))

def handle (s : MainLoop H A P σ) (c : Cause H A P) : Option (MainLoop H A P σ) :=
  (serve c s).2.foldlM act { s with own := (serve c s).1 }

def call (s : MainLoop H A P σ) (c : EventCall H A) : Option (MainLoop H A P σ) :=
  handle serve (s.note (.called c)) (.file c)

/-- One round of the loop in `timer_advance`, which reads the clock again when it knows of no timer
that is due. -/
def timerAdvance (s : MainLoop H A P σ) (mtime : ℕ) : Option (MainLoop H A P σ) :=
  match s.th.first with
  | none => some { s with phase := .poll (-1) }
  | some node =>
    let mtime := if s.th.time node > mtime then s.now else mtime
    match s.th.timerAdvanceRound mtime with
    | none => some { s with phase := .poll (s.th.time node - mtime) }
    | some (timer, th) =>
      handle serve ({ s with th := th, phase := .advance mtime }.note (.fired timer s.now))
        (.timer timer)

/-- Call one of the two functions of a row, if it has it when its event was reported. -/
def offer (s : MainLoop H A P σ) (i : Fin pollEventNfd) (revents bit : BitVec 16)
    (func : FileEventState H A → Option H) : Option (MainLoop H A P σ) :=
  match if revents &&& bit ≠ 0 then func (s.fet.state i) else none with
  | none => some s
  | some handler => s.call serve ⟨handler, (s.fet.state i).arg, (s.fet.poll i).fd, none⟩

/-- The body of the loop in `file_event_poll` for a row with events. -/
def turn (s : MainLoop H A P σ) (i : Fin pollEventNfd) : Option (MainLoop H A P σ) :=
  let revents := (s.fet.poll i).revents
  match if revents &&& (s.fet.poll i).events ≠ 0 then (s.fet.state i).eventf else none with
  | some eventf => s.call serve ⟨eventf, (s.fet.state i).arg, (s.fet.poll i).fd, some revents⟩
  | none => (s.offer serve i revents pollIn fun fes => fes.recv).bind fun s =>
    s.offer serve i revents pollOut fun fes => fes.send

/-- The loop of `file_event_poll` over rows, with what is left of the result of `poll`. -/
def pollLoop (s : MainLoop H A P σ) : List (Fin pollEventNfd) → ℤ → Option (MainLoop H A P σ × ℤ)
  | [], rc => some (s, rc)
  | i :: l, rc =>
    if rc > 0 then
      if (s.fet.poll i).revents = 0 then pollLoop s l rc
      else (s.turn serve i).bind fun s => pollLoop s l (rc - 1)
    else some (s, rc)

/-- The conversion to `uint64_t` makes a negative timeout large. -/
def fileEventPoll (s : MainLoop H A P σ) (timeoutMs : ℤ) (answer : PollAnswer) :
    Option (MainLoop H A P σ × ℤ) :=
  let timeoutMs := if timeoutMs < 0 then int32Max else min timeoutMs.toNat int32Max
  let s := s.note (.polled s.now timeoutMs answer.ready)
  let s := { s with now := s.now + answer.slept,
                    ticking := Nat.add_pos_left s.ticking answer.slept }
  match answer.ready with
  | none => some (s, -1)
  | some ready =>
    if (s.fet.polled ready).2 = 0 then some ({ s with fet := (s.fet.polled ready).1 }, 0)
    else pollLoop serve { s with fet := (s.fet.polled ready).1 } (List.finRange pollEventNfd)
      (s.fet.polled ready).2

/-- One step of `run_main`: what comes before its loop, a round of `timer_advance`, or
`file_event_poll`. -/
def step (s : MainLoop H A P σ) (answer : PollAnswer) : Option (MainLoop H A P σ) :=
  match s.phase with
  | .start => handle serve { s with phase := .advance 0 } .start
  | .advance mtime => s.timerAdvance serve mtime
  | .poll nextTimeoutMs => (s.fileEventPoll serve nextTimeoutMs answer).map fun (s, rc) =>
    { s with phase := .advance 0 }.note (.returned rc)

end MainLoop

section Record

variable {H A P : Type*}

noncomputable def watched [DecidableEq A] : List (LoopRecord H A P) → Watched H A
  | [] => fun _ => none
  | .filed op _ :: trace => ((watched trace).operate op).1
  | _ :: trace => watched trace

/-- When the armed timers are due after what happened. -/
def due [DecidableEq P] : List (LoopRecord H A P) → P → Option ℕ
  | [] => fun _ => none
  | .set timer time :: trace => Function.update (due trace) timer (some time)
  | .cancelled timer :: trace => Function.update (due trace) timer none
  | .fired timer _ :: trace => Function.update (due trace) timer none
  | _ :: trace => due trace

def LoopRecord.callFor [DecidableEq A] (k : ℤ × A) : LoopRecord H A P → Option (EventCall H A)
  | .called c => if (c.fd, c.arg) = k then some c else none
  | _ => none

def callsFor [DecidableEq A] (k : ℤ × A) (trace : List (LoopRecord H A P)) :
    List (EventCall H A) :=
  trace.filterMap (LoopRecord.callFor k)

def Untouched (k : ℤ × A) (trace : List (LoopRecord H A P)) : Prop :=
  ∀ op ret, .filed op ret ∈ trace → op.key ≠ k

def NoneLeft (trace : List (LoopRecord H A P)) : Prop :=
  ∀ fd arg ret, .filed (.unreg fd arg) ret ∉ trace

/-- A part of what happened that is inside of one `file_event_poll`. -/
def LoopRecord.inside : LoopRecord H A P → Bool
  | .filed .. | .set .. | .cancelled .. | .called .. => true
  | .fired .. | .polled .. | .returned .. => false

end Record

namespace FileEvent

variable {H A : Type*}

/-- The call of one of the two functions for an event that is among the reported ones. -/
def offered (r : FileEvent H A) (revents bit : BitVec 16) (func : Option H) :
    List (EventCall H A) :=
  (if revents &&& bit ≠ 0 then func else none).toList.map fun handler =>
    ⟨handler, r.state.arg, r.fd, none⟩

def calls (r : FileEvent H A) (revents : BitVec 16) : List (EventCall H A) :=
  match if revents &&& r.events ≠ 0 then r.state.eventf else none with
  | some eventf => [⟨eventf, r.state.arg, r.fd, some revents⟩]
  | none => r.offered revents pollIn r.state.recv ++ r.offered revents pollOut r.state.send

/-- A call is one of those that some event can ask for. -/
def Makes (r : FileEvent H A) (c : EventCall H A) : Prop :=
  c.fd = r.fd ∧ c.arg = r.state.arg ∧
    (c.events.isSome ∧ r.state.eventf = some c.handler ∨
      c.events = none ∧ (r.state.recv = some c.handler ∨ r.state.send = some c.handler))

end FileEvent

end Afly
