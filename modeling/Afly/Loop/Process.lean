import Afly.Gateway.Step
import Afly.Queue.List
import Afly.Timer.Basic

/-! # The main loop

The process around the gateway: its clocks, the timers of `timer_advance` with
their handlers, the queue of messages that wait for the bus, and what the
connection to the cloud leaves to do. A handler takes no time. It may set the
task timer several times, of which only the last one counts, so the gateway's
state says what the timer is to be set to.
-/

namespace Afly

/-- The timers of the process that do more than write to the log. -/
inductive TimerRef where
  | uprotoStep
  | syncList
  | task
  deriving DecidableEq

instance : Fintype TimerRef where
  elems := {.uprotoStep, .syncList, .task}
  complete timer := by cases timer <;> decide

/-- `stEvent_t`, with a message as its parameter. -/
structure UEvent (M : Type) where
  eid : ℤ
  param : Option M

abbrev ueSendMsg : ℤ := 0

inductive CloudEvent where
  | connected
  | disconnected

/-- The state in which a handler starts, where the task timer is not yet set. -/
def World.untimed (w : World) : World := { w with taskTimer := none }

/-- The gateway in its main loop. The messages are of any type. -/
structure Process (M : Type) where
  world : World
  timers : TimerHead TimerRef
  msgq : StList ℕ (UEvent M)
  /-- The messages that the queue's handler gave to `uproto_ubus_send`. -/
  handed : List M
  connected : ℤ
  connectChangeOn : ℤ
  /-- The variable `last` of `afly_handler_sync_list_run`. -/
  last : ℤ
  /-- The monotonic clock in milliseconds, which has left the 0 of a timer that is not armed. -/
  now : ℕ
  ticking : 0 < now
  /-- The value of `time(NULL)`. -/
  wall : ℤ

namespace Process

variable {M : Type}

/-- The number of timers: no list without a ring is longer. -/
def fuel : ℕ := 3

def timerInit (p : Process M) (timer : TimerRef) : Process M :=
  { p with timers := (p.timers.setNext timer none).setTime timer 0 }

def timerCancel (p : Process M) (timer : TimerRef) : Option (Process M) :=
  (p.timers.timerCancel fuel timer).map fun timers => { p with timers := timers }

def timerSet (p : Process M) (timer : TimerRef) (ms : ℕ) : Option (Process M) :=
  (p.timers.timerSet fuel p.now timer ms).map fun timers => { p with timers := timers }

/-- The surroundings of a handler, with the clocks of the process. -/
def clocked (p : Process M) (env : Env) : Env :=
  { env with clock := fun _ => p.now, time := fun _ => p.wall }

/-- Run a handler of the gateway, and set the task timer as it says. -/
def handle (p : Process M) (env : Env) (handler : Env → World → Option World) :
    Option (Process M) :=
  (handler (p.clocked env) p.world.untimed).bind fun w =>
    let p := { p with world := w }
    match w.taskTimer with
    | none => some p
    | some time => p.timerSet .task (time - p.now).toNat

section Uproto

def uprotoStep (p : Process M) : Option (Process M) :=
  (p.timerCancel .uprotoStep).bind fun p => p.timerSet .uprotoStep 10

/-- `uproto_push_msg`, with the address of the new list item. -/
def uprotoPushMsg (p : Process M) (item : ℕ) (eid : ℤ) (param : Option M) : Option (Process M) :=
  (p.msgq.lockqueuePush item ⟨eid, param⟩).bind fun msgq => { p with msgq := msgq }.uprotoStep

def uprotoSendUbusMsgHandler (p : Process M) : Option M → Process M
  | none => p
  | some m => { p with handed := p.handed ++ [m] }

/-- `uproto_handler_event`. The check lets one event identifier pass that is behind the array of
handlers. -/
def uprotoHandlerEvent (p : Process M) (e : UEvent M) : Option (Process M) :=
  if ¬ (0 ≤ e.eid ∧ e.eid ≤ 1) then some p
  else if e.eid = ueSendMsg then some (p.uprotoSendUbusMsgHandler e.param)
  else none

def uprotoRun (p : Process M) : Option (Process M) :=
  p.msgq.lockqueuePop.bind fun
    | (msgq, none) => some { p with msgq := msgq }
    | (msgq, some e) =>
      ({ p with msgq := msgq }.uprotoHandlerEvent e).bind fun p => p.uprotoStep

end Uproto

/-- The cases of `event_handler` for the connection. -/
def eventHandler (p : Process M) : CloudEvent → Process M
  | .connected =>
    { p with
      world := p.world.setSdk (p.world.sdk.onGateway .postAllProperties)
      connected := 1
      connectChangeOn := 1 }
  | .disconnected => { p with connected := 0 }

def aflyHandlerSyncListRun (p : Process M) : Option (Process M) :=
  (p.timerCancel .syncList).map fun p =>
    if p.connectChangeOn = 1 ∨ p.wall - p.last > 60 * 15 then
      { p with
        world := if p.connected ≠ 0 then p.world.send .deviceList else p.world
        connectChangeOn := 0
        last := int32 p.wall }
    else p

/-- `afly_init`, with the cloud events while it waits for the connection. -/
def aflyInit (p : Process M) (env : Env) (cloud : List CloudEvent) : Option (Process M) := do
  let p := (p.timerInit .syncList).timerInit .task
  let p ← p.handle env fun env w => w.schedule env 0 .gwInfoTask 1000 .gwInfoFunc none
  let p ← p.handle env fun env w => some (w.productSubLoadAll env).1
  (cloud.foldl eventHandler p).timerSet .syncList 2000

/-- Call the handler of the timer that `timer_advance` takes off its list. -/
def fire (p : Process M) (env : Env) : Option (Process M) :=
  (p.timers.timerAdvanceRound p.now).bind fun (timer, timers) =>
    let p := { p with timers := timers }
    match timer with
    | .uprotoStep => p.uprotoRun
    | .syncList => p.aflyHandlerSyncListRun
    | .task => p.handle env fun env w => w.aflyHandlerTaskRun env

end Process

/-- The state of a new process without timers and messages. -/
def Process.boot {M : Type} : Process M where
  world := .boot
  timers := .init
  msgq := .init
  handed := []
  connected := 0
  connectChangeOn := 0
  last := 0
  now := 1000
  ticking := by decide
  wall := 1500000000

inductive LoopEvent (M : Type) where
  | op (env : Env) (op : Op)
  | gwInfo (env : Env)
  | push (item : ℕ) (m : M)
  | cloud (e : CloudEvent)
  | pass (ms : ℕ) (wall : ℤ)
  | fire (env : Env)

def Process.step {M : Type} (p : Process M) : LoopEvent M → Option (Process M)
  | .op env op => p.handle env fun env w => w.step (env, op)
  | .gwInfo env => p.handle env fun env w => w.gwInfoFunc env 0
  | .push item m => p.uprotoPushMsg item ueSendMsg (some m)
  | .cloud e => some (p.eventHandler e)
  | .pass ms wall =>
    some { p with now := p.now + ms, ticking := Nat.add_pos_left p.ticking ms, wall := wall }
  | .fire env => p.fire env

end Afly
