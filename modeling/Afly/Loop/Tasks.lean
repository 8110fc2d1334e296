import Afly.Doors.Openings
import Afly.Lib.Reach
import Afly.Loop.Timers
import Afly.Tasks.Relock

/-! # One timer for all tasks

The tasks of the gateway share one timer. Every call of the scheduler sets it to
the least deadline, and its handler runs the first task when that is due and sets
the timer again. So the timer is never later than the first task, and a task runs
when it is due and never twice for one call of the scheduler.
-/

namespace Afly

open World Reach

inductive TaskEvent where
  | scheduled (task : TaskRef) (call : Call TaskFunc Slot)
  | ran (task : TaskRef) (time : ℤ)

/-- The calls that wait after what happened, the latest event first: those that were scheduled and
did not run since. -/
def pendingOf : List TaskEvent → TaskRef → Option (Call TaskFunc Slot)
  | [] => fun _ => none
  | .scheduled task call :: trace => Function.update (pendingOf trace) task (some call)
  | .ran task _ :: trace => Function.update (pendingOf trace) task none

/-- Each task that ran was waiting for a call that was due, and no waiting call was due before
it. -/
def Lawful (trace : List TaskEvent) : Prop :=
  ∀ later task time earlier, trace = later ++ .ran task time :: earlier →
    ∃ c, pendingOf earlier task = some c ∧ c.deadline ≤ time ∧
      ∀ task' c', pendingOf earlier task' = some c' → c.deadline ≤ c'.deadline

def TaskEvent.isRun : TaskEvent → Bool
  | .scheduled _ _ => false
  | .ran _ _ => true

def TaskEvent.runs (task : TaskRef) : TaskEvent → Bool
  | .scheduled _ _ => false
  | .ran task' _ => task' = task

def TaskEvent.schedules (task : TaskRef) : TaskEvent → Bool
  | .scheduled task' _ => task' = task
  | .ran _ _ => false

/-- A time is no later than each waiting call, or than now. -/
def Covers (now time : ℤ) (pending : TaskRef → Option (Call TaskFunc Slot)) : Prop :=
  ∀ task c, pending task = some c → time ≤ max now c.deadline

section Handlers

variable {env : Env} {w w' : World} {l : List TaskRef} {task : TaskRef} {now : ℤ}
  {pending : TaskRef → Option (Call TaskFunc Slot)}

/-- A clock that stands still and fits into a `long`. -/
structure Env.Still (env : Env) (now : ℤ) : Prop where
  long : env.long = id
  clock : ∀ k, env.clock k = now

/-- The timer is set to a time from now on that covers the waiting calls. -/
def World.SetsTimer (w : World) (now : ℤ)
    (pending : TaskRef → Option (Call TaskFunc Slot)) : Prop :=
  ∃ time, w.taskTimer = some time ∧ now ≤ time ∧ Covers now time pending

theorem World.delay_spec {k : ℕ} {delt : ℤ} (h : w.sched.Represents pending l)
    (henv : env.Still now) (hd : w.schedueFirstTaskDelay env k = some delt) :
    (l = [] ∧ delt = -1) ∨ ∃ q c,
      w.sched.schedueFirstTaskToExec fuel env.long = some (some q) ∧ pending q = some c ∧
      delt = max 0 (c.deadline - now) ∧
      ∀ task c', pending task = some c' → c.deadline ≤ c'.deadline := by
  rw [World.schedueFirstTaskDelay, henv.long, henv.clock] at hd
  rw [henv.long]
  exact h.delay (length_le_fuel h) hd

theorem World.setsTimer_of_delay {k k' : ℕ} {delt : ℤ} (h : w.sched.Represents pending l)
    (henv : env.Still now) (hd : w.schedueFirstTaskDelay env k = some delt) (hl : l ≠ []) :
    (w.timerSet env k' delt).SetsTimer now pending := by
  rcases delay_spec h henv hd with ⟨he, -⟩ | ⟨q, c, -, -, rfl, hleast⟩
  · exact absurd he hl
  · refine ⟨now + max 0 (c.deadline - now), ?_, by omega, ?_⟩
    · rw [World.timerSet, henv.clock]
    · intro task c' hc'
      have := hleast task c' hc'
      omega

theorem World.schedule_spec {k : ℕ} {ms : ℤ} {func : TaskFunc} {arg : Option Slot}
    (h : w.sched.Represents pending l) (henv : env.Still now)
    (hs : w.schedule env k task ms func arg = some w') :
    ∃ l', w'.sched.Represents (Function.update pending task (some ⟨some func, arg, now, ms⟩)) l' ∧
      w'.SetsTimer now (Function.update pending task (some ⟨some func, arg, now, ms⟩)) := by
  obtain ⟨l', hrep⟩ := schedule_represents h hs
  rw [henv.long, henv.clock, id_eq] at hrep
  refine ⟨l', hrep, ?_⟩
  obtain ⟨w₁, h₁, h₂⟩ := Option.bind_eq_some_iff.mp hs
  obtain ⟨delt, hd, rfl⟩ := Option.map_eq_some_iff.mp h₂
  have hrep₁ : w₁.sched.Represents
      (Function.update pending task (some ⟨some func, arg, now, ms⟩)) l' := hrep
  refine setsTimer_of_delay hrep₁ henv hd ?_
  rintro rfl
  have hm := (hrep₁.listed task).mpr (by rw [Function.update_self]; simp)
  cases hm

/-- What the handler of the timer does to the waiting calls: a due task of least deadline runs, or
none does, and the timer is set as long as a task waits. -/
theorem World.taskRun_spec (h : w.sched.Represents pending l) (henv : env.Still now)
    (hr : w.aflyHandlerTaskRun env = some w') :
    (∀ q, w.dueTask env = some q → ∃ c, pending q = some c ∧ c.deadline ≤ now ∧
      ∀ task c', pending task = some c' → c.deadline ≤ c'.deadline) ∧
    ∃ l', w'.sched.Represents (match w.dueTask env with
      | none => pending
      | some q => pendingAfterRun env pending q (w.sched.call q).func) l' ∧
      (l' ≠ [] → w'.SetsTimer now (match w.dueTask env with
        | none => pending
        | some q => pendingAfterRun env pending q (w.sched.call q).func)) := by
  refine ⟨?_, ?_⟩
  · intro q hq
    unfold dueTask at hq
    split at hq
    · rename_i hd
      rcases delay_spec h henv hd with ⟨-, hneg⟩ | ⟨q', c, hfirst, hc, hdelt, hleast⟩
      · omega
      · rw [hfirst] at hq
        obtain rfl : q' = q := Option.some.inj hq
        exact ⟨c, hc, by omega, hleast⟩
    · cases hq
  · obtain ⟨l', hrep⟩ := aflyHandlerTaskRun_represents h hr
    refine ⟨l', hrep, ?_⟩
    intro hl
    obtain ⟨delt, hd, ⟨hneg, rfl⟩ | ⟨w₁, delt', -, -, hd', rfl⟩⟩ := aflyHandlerTaskRun_cases hr
    · -- there was no task
      obtain rfl : l' = l := hrep.tasks.unique h.tasks
      rcases delay_spec h henv hd with ⟨he, -⟩ | ⟨q, c, -, -, rfl, -⟩
      · exact absurd he hl
      · omega
    · split_ifs at hrep ⊢ with hneg
      · rcases delay_spec hrep henv hd' with ⟨he, -⟩ | ⟨q, c, -, -, rfl, -⟩
        · exact absurd he hl
        · omega
      · have hrep₁ : w₁.sched.Represents _ l' := hrep
        exact setsTimer_of_delay hrep₁ henv hd' hl

end Handlers

/-- The waiting calls are on the list, each the call of its task, and the timer of the tasks is
armed in time when there are any. -/
structure Process.Schedules {M : Type} (p : Process M)
    (pending : TaskRef → Option (Call TaskFunc Slot)) (l : List TaskRef) : Prop where
  represents : p.world.sched.Represents pending l
  calls : ∀ task c, pending task = some c → task.Call c
  timers : p.timers.WellFormed
  armed : l ≠ [] → p.timers.time .task ≠ 0 ∧ Covers p.now (p.timers.time .task) pending

section Process

variable {M : Type} {p p' : Process M} {env : Env} {l : List TaskRef}
  {pending pending' : TaskRef → Option (Call TaskFunc Slot)}
  {handler : Env → World → Option World}

theorem Process.still_clocked (hlong : env.long = id) : (p.clocked env).Still p.now :=
  ⟨hlong, fun _ => rfl⟩

theorem Process.schedules_of_sets (hw : p.timers.WellFormed) (hp : p.handle env handler = some p')
    (hcalls : ∀ task c, pending task = some c → task.Call c)
    (h : ∀ w, handler (p.clocked env) p.world.untimed = some w →
      ∃ l, w.sched.Represents pending l ∧ (l ≠ [] → w.SetsTimer p.now pending)) :
    ∃ l, p'.Schedules pending l := by
  obtain ⟨w, timers, hw', rfl, hwf, htime⟩ := handle_spec hw hp
  obtain ⟨l, hrep, hset⟩ := h w hw'
  refine ⟨l, hrep, hcalls, hwf, ?_⟩
  intro hl
  obtain ⟨time, ht, hle, hcover⟩ := hset hl
  have hnat : ((p.now + (time - p.now).toNat : ℕ) : ℤ) = time := by omega
  have hpos := p.ticking
  dsimp only
  rw [htime, ht, Option.elim_some, Function.update_self]
  refine ⟨by omega, ?_⟩
  rw [hnat]
  exact hcover

theorem Process.schedules_of_same (hS : p.Schedules pending l)
    (hp : p.handle env handler = some p')
    (h : ∀ w, handler (p.clocked env) p.world.untimed = some w →
      w.sched.Represents pending l ∧ w.taskTimer = none) : p'.Schedules pending l := by
  obtain ⟨w, timers, hw', rfl, hwf, htime⟩ := handle_spec hS.timers hp
  obtain ⟨hrep, ht⟩ := h w hw'
  refine ⟨hrep, hS.calls, hwf, ?_⟩
  dsimp only
  rw [htime, ht]
  exact hS.armed

end Process

structure Chronicle (M : Type) where
  process : Process M
  trace : List TaskEvent

/-- What the handler of the task timer does to the tasks, the latest first. -/
def Process.taskRuns {M : Type} (p : Process M) (env : Env) : List TaskEvent :=
  match p.world.dueTask (p.clocked env) with
  | none => []
  | some q =>
    if (p.world.sched.call q).func = some .gwInfoFunc then
      [.scheduled .gwInfoTask (gwInfoCall (p.clocked env)), .ran q p.now]
    else [.ran q p.now]

def Process.firings {M : Type} (p : Process M) (env : Env) : List TaskEvent :=
  match p.timers.timerAdvanceRound p.now with
  | some (.task, _) => p.taskRuns env
  | _ => []

/-- What an event of the gateway does to the tasks: a lock event may open a door. -/
def Process.openings {M : Type} (p : Process M) (env : Env) : Op → List TaskEvent
  | .rptEvent name eid buf =>
    match p.world.opensDoor name eid buf with
    | none => []
    | some i => [.scheduled (.sub i) ⟨some .subdevTimeoutFunc, some i, env.long p.now, 5000⟩]
  | _ => []

/-- What happens to the tasks in an event of the loop, the latest first. -/
def Process.tasks {M : Type} (p : Process M) : LoopEvent M → List TaskEvent
  | .op env op => p.openings env op
  | .gwInfo env => [.scheduled .gwInfoTask (gwInfoCall (p.clocked env))]
  | .fire env => p.firings env
  | .push _ _ | .cloud _ | .pass _ _ => []

def Op.OnDoors : Op → Prop
  | .rptEvent _ _ _ | .subAdd _ _ _ | .subDel _ | .subClr => True
  | _ => False

namespace Chronicle

variable {M : Type}

def pending (S : Chronicle M) : TaskRef → Option (Call TaskFunc Slot) := pendingOf S.trace

def step (S : Chronicle M) (e : LoopEvent M) : Option (Chronicle M) :=
  (S.process.step e).map fun p => ⟨p, S.process.tasks e ++ S.trace⟩

/-- Lock events, `gw_info_func`, firings, and table operations that remove no device with a waiting
call. A `long` holds the clock. -/
def Admits (S : Chronicle M) : LoopEvent M → Prop
  | .op env op => env.long = id ∧ op.OnDoors ∧
    Scheduled.RemovesIdle ⟨S.process.world.untimed, S.pending⟩ op
  | .gwInfo env | .fire env => env.long = id
  | .push _ _ | .cloud _ | .pass _ _ => True

/-- The waiting calls are on the list with an armed timer, and the tasks ran by the law. -/
def Invariant (S : Chronicle M) : Prop :=
  (∃ l, S.process.Schedules S.pending l) ∧ Lawful S.trace

end Chronicle

section Lawful

variable {trace : List TaskEvent} {task : TaskRef} {time : ℤ} {c : Call TaskFunc Slot}

theorem lawful_nil : Lawful [] := by
  intro later task time earlier h
  simp at h

theorem Lawful.scheduled (h : Lawful trace) (task : TaskRef) (c : Call TaskFunc Slot) :
    Lawful (.scheduled task c :: trace) := by
  intro later task' time earlier he
  cases later with
  | nil => cases he
  | cons e later => exact h later task' time earlier (List.cons.inj he).2

theorem Lawful.ran (h : Lawful trace) (hc : pendingOf trace task = some c)
    (hdue : c.deadline ≤ time)
    (hleast : ∀ task' c', pendingOf trace task' = some c' → c.deadline ≤ c'.deadline) :
    Lawful (.ran task time :: trace) := by
  intro later task' time' earlier he
  cases later with
  | nil =>
    cases he
    exact ⟨c, hc, hdue, hleast⟩
  | cons e later => exact h later task' time' earlier (List.cons.inj he).2

/-- A task runs at most once for each time that it is scheduled. -/
theorem Lawful.runs_le (h : Lawful trace) (task : TaskRef) :
    trace.countP (TaskEvent.runs task) + (pendingOf trace task).toList.length ≤
      trace.countP (TaskEvent.schedules task) := by
  induction trace with
  | nil => rfl
  | cons e trace ih =>
    have hlaw : Lawful trace := by
      intro later task' time earlier he
      exact h (e :: later) task' time earlier (by rw [he, List.cons_append])
    have hle := ih hlaw
    cases e with
    | scheduled task' c =>
      by_cases ht : task' = task
      · subst ht
        simp only [pendingOf, Function.update_self, List.countP_cons, TaskEvent.runs,
          TaskEvent.schedules]
        simp
        omega
      · simpa [pendingOf, Function.update_of_ne (Ne.symm ht), List.countP_cons, TaskEvent.runs,
          TaskEvent.schedules, ht] using hle
    | ran task' time =>
      by_cases ht : task' = task
      · subst ht
        obtain ⟨c, hc, -⟩ := h [] task' time trace rfl
        rw [hc] at hle
        simpa [pendingOf, List.countP_cons, TaskEvent.runs, TaskEvent.schedules] using hle
      · simpa [pendingOf, Function.update_of_ne (Ne.symm ht), List.countP_cons, TaskEvent.runs,
          TaskEvent.schedules, ht] using hle

end Lawful

section Steps

variable {M : Type} {S S' : Chronicle M} {e : LoopEvent M} {env : Env} {l : List TaskRef}
  {p p' : Process M} {pending : TaskRef → Option (Call TaskFunc Slot)} {task : TaskRef}
  {c : Option (Call TaskFunc Slot)}

theorem func_ne_of_call {c : Call TaskFunc Slot} (h : task.Call c) : c.func ≠ none := by
  cases task with
  | gwInfoTask =>
    rw [show c.func = some .gwInfoFunc from h]
    simp
  | sub i =>
    rw [h.1]
    simp

theorem Process.rptEvent_schedules {name : CStr} {eid : ℤ} {buf : ℕ → ℤ}
    (hS : p.Schedules pending l) (hlong : env.long = id)
    (hp : p.handle env (fun env w => w.aflyNxpRptEvent env name eid buf) = some p') :
    ∃ l, p'.Schedules (match p.world.opensDoor name eid buf with
      | none => pending
      | some i => Function.update pending (.sub i)
        (some ⟨some .subdevTimeoutFunc, some i, p.now, 5000⟩)) l := by
  cases hi : p.world.opensDoor name eid buf with
  | none =>
    refine ⟨l, schedules_of_same hS hp ?_⟩
    intro w hw
    have ho := rptEvent_opens hw
    rw [show p.world.untimed.opensDoor name eid buf = none from hi] at ho
    exact ⟨by rw [ho.sched]; exact hS.represents, ho.taskTimer⟩
  | some i =>
    refine schedules_of_sets hS.timers hp (calls_update hS.calls ?_) ?_
    · rintro _ ⟨⟩
      exact ⟨rfl, rfl⟩
    · intro w hw
      have ho := rptEvent_opens hw
      rw [show p.world.untimed.opensDoor name eid buf = some i from hi] at ho
      obtain ⟨w₁, h₁, hsame⟩ := ho
      obtain ⟨l', hrep, time, ht, hcover⟩ := schedule_spec
        (by rw [sched_postLockState]; exact hS.represents) (still_clocked hlong) h₁
      exact ⟨l', by rw [hsame.sched]; exact hrep,
        fun _ => ⟨time, hsame.taskTimer.trans ht, hcover⟩⟩

theorem Process.gwInfo_schedules (hS : p.Schedules pending l) (hlong : env.long = id)
    (hp : p.handle env (fun env w => w.gwInfoFunc env 0) = some p') :
    ∃ l, p'.Schedules
      (Function.update pending .gwInfoTask (some (gwInfoCall (p.clocked env)))) l := by
  have hcall : gwInfoCall (p.clocked env) =
      ⟨some .gwInfoFunc, none, p.now, if env.productInit < 0 then 1000 else 20 * 60 * 1000⟩ := by
    rw [gwInfoCall, (still_clocked hlong).long, (still_clocked hlong).clock]
    rfl
  refine schedules_of_sets hS.timers hp (calls_update hS.calls ?_) ?_
  · rintro _ ⟨⟩
    rfl
  · intro w hw
    obtain ⟨sdk, hs⟩ := gwInfoFunc_cases hw
    have hrep : (p.world.untimed.setSdk sdk).sched.Represents pending l := hS.represents
    obtain ⟨l', hrep', hset⟩ := schedule_spec hrep (still_clocked hlong) hs
    rw [hcall]
    exact ⟨l', hrep', fun _ => hset⟩

theorem Process.taskRun_schedules (hw : p.timers.WellFormed)
    (hrep : p.world.sched.Represents pending l)
    (hcalls : ∀ task c, pending task = some c → task.Call c) (hlong : env.long = id)
    (hp : p.handle env (fun env w => w.aflyHandlerTaskRun env) = some p') :
    (∀ q, p.world.dueTask (p.clocked env) = some q → ∃ c, pending q = some c ∧
      c.deadline ≤ p.now ∧ ∀ task c', pending task = some c' → c.deadline ≤ c'.deadline) ∧
    ∃ l, p'.Schedules (match p.world.dueTask (p.clocked env) with
      | none => pending
      | some q => pendingAfterRun (p.clocked env) pending q (p.world.sched.call q).func) l := by
  have hrep' : p.world.untimed.sched.Represents pending l := hrep
  obtain ⟨w, timers, hrun, -⟩ := handle_spec hw hp
  refine ⟨(taskRun_spec hrep' (still_clocked hlong) hrun).1, ?_⟩
  refine schedules_of_sets hw hp ?_ ?_
  · cases p.world.dueTask (p.clocked env) with
    | none => exact hcalls
    | some q => exact calls_pendingAfterRun hcalls rfl
  · intro w hw'
    exact (taskRun_spec hrep' (still_clocked hlong) hw').2

theorem sameTasks_productSubAdd {r : SaveResult} {name key : CStr} {secret : Option CStr} {ret : ℤ}
    {w w' : World} (h : w.productSubAdd r name key secret = some (w', ret)) : SameTasks w w' := by
  refine ⟨sched_productSubAdd h, ?_⟩
  rcases productSubAdd_cases h with ⟨j, sd, -, -, rfl⟩ | ⟨-, -, rfl⟩ | ⟨j, sd, -, -, -, rfl⟩
  · rfl
  · rfl
  · exact sameTasks_save.taskTimer

theorem taskTimer_productSubDel {r : SaveResult} {name : CStr} {w : World} :
    (w.productSubDel r name).1.taskTimer = w.taskTimer := by
  unfold productSubDel
  split
  · rfl
  · exact sameTasks_save.taskTimer

theorem taskTimer_productSubClr {r : SaveResult} {w : World} :
    (w.productSubClr r).1.taskTimer = w.taskTimer := sameTasks_saveAll.taskTimer

theorem Process.Schedules.congr (hS : p.Schedules pending l) (hs : p'.world.sched = p.world.sched)
    (hw : p'.timers.WellFormed) (ht : p'.timers.time .task = p.timers.time .task)
    (hnow : p.now ≤ p'.now) : p'.Schedules pending l where
  represents := by rw [hs]; exact hS.represents
  calls := hS.calls
  timers := hw
  armed hl := by
    obtain ⟨hset, hcover⟩ := hS.armed hl
    rw [ht]
    refine ⟨hset, ?_⟩
    intro task c hc
    have := hcover task c hc
    omega

theorem Chronicle.taskRuns_invariant (hlaw : Lawful S.trace)
    (hdue : ∀ q, S.process.world.dueTask (S.process.clocked env) = some q → ∃ c,
      S.pending q = some c ∧ c.deadline ≤ S.process.now ∧
        ∀ task c', S.pending task = some c' → c.deadline ≤ c'.deadline)
    (hS : ∃ l, p.Schedules (match S.process.world.dueTask (S.process.clocked env) with
      | none => S.pending
      | some q => pendingAfterRun (S.process.clocked env) S.pending q
        (S.process.world.sched.call q).func) l) :
    Chronicle.Invariant ⟨p, S.process.taskRuns env ++ S.trace⟩ := by
  unfold Process.taskRuns
  cases hq : S.process.world.dueTask (S.process.clocked env) with
  | none =>
    rw [hq] at hS
    exact ⟨hS, hlaw⟩
  | some q =>
    rw [hq] at hS
    obtain ⟨c, hc, hle, hleast⟩ := hdue q hq
    have hran : Lawful (.ran q S.process.now :: S.trace) := hlaw.ran hc hle hleast
    dsimp only
    by_cases hfunc : (S.process.world.sched.call q).func = some .gwInfoFunc
    · rw [if_pos hfunc]
      dsimp only at hS
      rw [pendingAfterRun, if_pos hfunc] at hS
      exact ⟨hS, hran.scheduled _ _⟩
    · rw [if_neg hfunc]
      dsimp only at hS
      rw [pendingAfterRun, if_neg hfunc] at hS
      exact ⟨hS, hran⟩

theorem Chronicle.fire_invariant (h : S.Invariant) (hlong : env.long = id)
    (hs : S.step (.fire env) = some S') : S'.Invariant := by
  obtain ⟨⟨l, hS⟩, hlaw⟩ := h
  obtain ⟨p, hp, rfl⟩ := Option.map_eq_some_iff.mp hs
  obtain ⟨⟨timer, timers⟩, hf, hrun⟩ := Option.bind_eq_some_iff.mp hp
  obtain ⟨hw₁, -, -, -, ht₁⟩ := Process.timerAdvanceRound_cases hS.timers hf
  cases timer with
  | uprotoStep =>
    have htasks : S.process.tasks (.fire env) = [] := by
      rw [Process.tasks, Process.firings, hf]
    rw [htasks]
    have hS₁ : { S.process with timers := timers }.Schedules S.pending l :=
      hS.congr rfl hw₁ (by rw [ht₁, Function.update_of_ne (by decide)]) le_rfl
    obtain ⟨msgq, handed, timers₂, rfl, hw₂, ht₂⟩ := Process.uprotoRun_frame hw₁ hrun
    exact ⟨⟨l, hS₁.congr rfl hw₂ (ht₂ _ (by decide)) le_rfl⟩, hlaw⟩
  | syncList =>
    have htasks : S.process.tasks (.fire env) = [] := by
      rw [Process.tasks, Process.firings, hf]
    rw [htasks]
    have hS₁ : { S.process with timers := timers }.Schedules S.pending l :=
      hS.congr rfl hw₁ (by rw [ht₁, Function.update_of_ne (by decide)]) le_rfl
    obtain ⟨timers₂, hw₂, ht₂, he⟩ := Process.aflyHandlerSyncListRun_frame hw₁ hrun
    have hkeep : timers₂.time .task = timers.time .task := by
      rw [ht₂, Function.update_of_ne (by decide)]
    refine ⟨⟨l, ?_⟩, hlaw⟩
    rw [he]
    split
    · refine hS₁.congr ?_ hw₂ hkeep le_rfl
      dsimp only
      split <;> rfl
    · exact hS₁.congr rfl hw₂ hkeep le_rfl
  | task =>
    have htasks : S.process.tasks (.fire env) = S.process.taskRuns env := by
      rw [Process.tasks, Process.firings, hf]
    rw [htasks]
    obtain ⟨hdue, hS'⟩ := Process.taskRun_schedules (p := { S.process with timers := timers }) hw₁
      hS.represents hS.calls hlong hrun
    exact S.taskRuns_invariant hlaw hdue hS'

theorem Chronicle.rptEvent_invariant {name : CStr} {eid : ℤ} {buf : ℕ → ℤ} (h : S.Invariant)
    (hlong : env.long = id)
    (hp : S.process.handle env (fun env w => w.aflyNxpRptEvent env name eid buf) = some p) :
    Chronicle.Invariant ⟨p, S.process.openings env (.rptEvent name eid buf) ++ S.trace⟩ := by
  obtain ⟨⟨l, hS⟩, hlaw⟩ := h
  obtain ⟨l', hS'⟩ := Process.rptEvent_schedules hS hlong hp
  have hnow : env.long S.process.now = S.process.now := by rw [hlong, id_eq]
  unfold Process.openings
  dsimp only
  cases hi : S.process.world.opensDoor name eid buf with
  | none =>
    rw [hi] at hS'
    exact ⟨⟨l', hS'⟩, hlaw⟩
  | some i =>
    rw [hi] at hS'
    dsimp only
    rw [hnow]
    exact ⟨⟨l', hS'⟩, hlaw.scheduled _ _⟩

theorem Chronicle.op_invariant {op : Op} (h : S.Invariant) (hop : S.Admits (.op env op))
    (hp : S.process.handle env (fun env w => w.step (env, op)) = some p) :
    Chronicle.Invariant ⟨p, S.process.openings env op ++ S.trace⟩ := by
  obtain ⟨⟨l, hS⟩, hlaw⟩ := h
  obtain ⟨hlong, hdoors, hok⟩ := hop
  have hidle : Scheduled.Invariant ⟨S.process.world.untimed, S.pending⟩ l :=
    ⟨hS.represents, fun task c hc => func_ne_of_call (hS.calls task c hc)⟩
  cases op with
  | rptEvent name eid buf =>
    have hp : S.process.handle env (fun env w => w.aflyNxpRptEvent env name eid buf) = some p :=
      hp
    exact rptEvent_invariant ⟨⟨l, hS⟩, hlaw⟩ hlong hp
  | subAdd name key secret =>
    refine ⟨⟨l, Process.schedules_of_same hS hp ?_⟩, hlaw⟩
    intro w hw
    obtain ⟨⟨w₁, ret⟩, h₁, rfl⟩ := Option.map_eq_some_iff.mp hw
    have hsame := sameTasks_productSubAdd h₁
    exact ⟨by rw [hsame.sched]; exact hS.represents, hsame.taskTimer⟩
  | subDel name =>
    refine ⟨⟨l, Process.schedules_of_same hS hp ?_⟩, hlaw⟩
    intro w hw
    obtain rfl := Option.some.inj hw
    have hdel : Scheduled.Invariant
        ⟨(S.process.world.untimed.productSubDel ((S.process.clocked env).save 0) name).1, _⟩ l :=
      Scheduled.invariant_subDel hidle hok
    rw [Scheduled.after_subDel hok] at hdel
    exact ⟨hdel.represents, taskTimer_productSubDel⟩
  | subClr =>
    refine ⟨⟨l, Process.schedules_of_same hS hp ?_⟩, hlaw⟩
    intro w hw
    obtain rfl := Option.some.inj hw
    have hclr : Scheduled.Invariant
        ⟨(S.process.world.untimed.productSubClr ((S.process.clocked env).save 0)).1, _⟩ l :=
      Scheduled.invariant_subClr hidle hok
    rw [Scheduled.after_subClr hok] at hclr
    exact ⟨hclr.represents, taskTimer_productSubClr⟩
  | _ => exact hdoors.elim

theorem Chronicle.invariant_of_same (h : S.Invariant)
    (hs : S'.process.world.sched = S.process.world.sched) (hw : S'.process.timers.WellFormed)
    (ht : S'.process.timers.time .task = S.process.timers.time .task)
    (hnow : S.process.now ≤ S'.process.now) (htrace : S'.trace = S.trace) : S'.Invariant := by
  obtain ⟨⟨l, hS⟩, hlaw⟩ := h
  rw [Invariant, pending, htrace]
  exact ⟨⟨l, hS.congr hs hw ht hnow⟩, hlaw⟩

/-- The list represents the waiting calls after every event, and the tasks ran by the law. -/
theorem Chronicle.invariant_step (h : S.Invariant) (hop : S.Admits e) (hs : S.step e = some S') :
    S'.Invariant := by
  cases e with
  | fire env => exact fire_invariant h hop hs
  | push item m =>
    obtain ⟨p, hp, rfl⟩ := Option.map_eq_some_iff.mp hs
    obtain ⟨msgq, timers, rfl, hw, ht⟩ := Process.uprotoPushMsg_frame h.1.choose_spec.timers hp
    exact invariant_of_same h rfl hw (ht _ (by decide)) le_rfl rfl
  | cloud c =>
    obtain ⟨p, hp, rfl⟩ := Option.map_eq_some_iff.mp hs
    cases hp
    cases c <;> exact invariant_of_same h rfl h.1.choose_spec.timers rfl le_rfl rfl
  | pass ms wall =>
    obtain ⟨p, hp, rfl⟩ := Option.map_eq_some_iff.mp hs
    cases hp
    exact invariant_of_same h rfl h.1.choose_spec.timers rfl (Nat.le_add_right _ _) rfl
  | gwInfo env =>
    obtain ⟨⟨l, hS⟩, hlaw⟩ := h
    obtain ⟨p, hp, rfl⟩ := Option.map_eq_some_iff.mp hs
    exact ⟨Process.gwInfo_schedules hS hop hp, hlaw.scheduled _ _⟩
  | op env op =>
    obtain ⟨p, hp, rfl⟩ := Option.map_eq_some_iff.mp hs
    exact op_invariant h hop hp

theorem Process.aflyInit_schedules {p₀ : Process M} {cloud : List CloudEvent} (h : p.Fresh)
    (hlong : env.long = id) (hp : p.aflyInit env cloud = some p₀) :
    ∃ l, p₀.Schedules (Function.update (fun _ => none) .gwInfoTask
      (some ⟨some .gwInfoFunc, none, p.now, 1000⟩)) l := by
  obtain ⟨timers, p₁, p₂, hw, -, h₁, h₂, hset⟩ := aflyInit_cases h hp
  have hempty : p.world.untimed.sched.Represents (fun _ => none) [] :=
    ⟨h.tasks, by simp, by simp⟩
  -- the gateway's own task is scheduled
  obtain ⟨l, hS₁⟩ : ∃ l, p₁.Schedules (Function.update (fun _ => none) .gwInfoTask
      (some ⟨some .gwInfoFunc, none, p.now, 1000⟩)) l := by
    refine schedules_of_sets (p := { p with timers := timers }) hw h₁ (calls_update (by simp) ?_) ?_
    · rintro _ ⟨⟩
      rfl
    · intro w hs
      obtain ⟨l, hrep, hset⟩ := schedule_spec hempty (still_clocked hlong) hs
      exact ⟨l, hrep, fun _ => hset⟩
  -- the table is loaded around it
  have hS₂ := schedules_of_same hS₁ h₂ (by
    intro w hw
    obtain rfl := Option.some.inj hw
    obtain ⟨hg, hl, ht⟩ := productSubLoadAll_tasks (p₁.clocked env) p₁.world.untimed
    refine ⟨hS₁.represents.congr hl ?_, ht⟩
    intro task hne
    cases task with
    | gwInfoTask => exact hg
    | sub i => exact absurd (Function.update_of_ne (by simp) _ _) hne)
  obtain ⟨ht, hn, hs⟩ := foldl_eventHandler cloud p₂
  have hS₃ := hS₂.congr hs (by rw [ht]; exact hS₂.timers) (by rw [ht]) hn.ge
  obtain ⟨timers₃, h₃, hw₃, ht₃⟩ := timerSet_spec .syncList 2000 hS₃.timers
  cases hset.symm.trans h₃
  exact ⟨l, hS₃.congr rfl hw₃ (by rw [ht₃, Function.update_of_ne (by decide)]) le_rfl⟩

/-- A firing runs at most one task, and no other event runs any. -/
theorem Chronicle.step_runs (hs : S.step e = some S') : ∃ new, S'.trace = new ++ S.trace ∧
    new.countP TaskEvent.isRun ≤ 1 ∧
    ((∀ env, e ≠ .fire env) → new.countP TaskEvent.isRun = 0) := by
  obtain ⟨p, -, rfl⟩ := Option.map_eq_some_iff.mp hs
  refine ⟨_, rfl, ?_⟩
  cases e with
  | fire env =>
    refine ⟨?_, fun hne => absurd rfl (hne env)⟩
    unfold Process.tasks Process.firings Process.taskRuns
    dsimp only
    split
    · split
      · simp
      · split <;> simp [TaskEvent.isRun]
    · simp
  | op env op =>
    have hzero : (S.process.openings env op).countP TaskEvent.isRun = 0 := by
      unfold Process.openings
      split
      · split <;> simp [TaskEvent.isRun]
      · rfl
    exact ⟨hzero.le.trans (Nat.zero_le 1), fun _ => hzero⟩
  | gwInfo | push | cloud | pass => exact ⟨Nat.zero_le 1, fun _ => rfl⟩

theorem Chronicle.fire_defined {timers : TimerHead TimerRef} (hS : S.process.Schedules S.pending l)
    (hf : S.process.timers.timerAdvanceRound S.process.now = some (.task, timers)) :
    ∃ S', S.step (.fire env) = some S' := by
  obtain ⟨hw, -⟩ := Process.timerAdvanceRound_cases hS.timers hf
  have hrep : S.process.world.untimed.sched.Represents S.pending l := hS.represents
  obtain ⟨w, hrun⟩ := aflyHandlerTaskRun_defined (S.process.clocked env) hrep
    (fun task c hc => func_ne_of_call (hS.calls task c hc)) (by
      intro task c hc hfunc
      have hcall := hS.calls task c hc
      cases task with
      | gwInfoTask => cases hfunc.symm.trans hcall
      | sub i => rw [hcall.2]; simp)
  obtain ⟨p, hp⟩ := Process.handle_defined (p := { S.process with timers := timers }) hw hrun
  have hstep : S.process.step (.fire env) = some p := by
    rw [Process.step, Process.fire, hf, Option.bind_some]
    exact hp
  exact ⟨_, Option.map_eq_some_iff.mpr ⟨p, hstep, rfl⟩⟩

/-- In every run after `afly_init`, between two handlers: the tasks that were scheduled and did not
run since are on the list, and the timer is armed for the first of them or for now. Each task that
ran was due and had the least deadline, at most one in a firing and none elsewhere, and at most
once for each time that it was scheduled. A firing of the timer always ends. -/
theorem task_timer_covers {p p₀ : Process M} {cloud : List CloudEvent} (hfresh : p.Fresh)
    (hlong : env.long = id) (hinit : p.aflyInit env cloud = some p₀)
    (hr : Reachable Chronicle.step Chronicle.Admits
      ⟨p₀, [.scheduled .gwInfoTask ⟨some .gwInfoFunc, none, p.now, 1000⟩]⟩ S) :
    (∃ l, S.process.world.sched.Tasks l ∧ (∀ task, task ∈ l ↔ S.pending task ≠ none) ∧
      (l ≠ [] → S.process.timers.time .task ≠ 0 ∧
        Covers S.process.now (S.process.timers.time .task) S.pending)) ∧
    Lawful S.trace ∧
    (∀ task, S.trace.countP (TaskEvent.runs task) ≤ S.trace.countP (TaskEvent.schedules task)) ∧
    (∀ e S', S.step e = some S' → ∃ new, S'.trace = new ++ S.trace ∧
      new.countP TaskEvent.isRun ≤ 1 ∧
      ((∀ env, e ≠ .fire env) → new.countP TaskEvent.isRun = 0)) ∧
    ∀ env timers, S.process.timers.timerAdvanceRound S.process.now = some (.task, timers) →
      ∃ S', S.step (.fire env) = some S' := by
  have hstart : Chronicle.Invariant
      ⟨p₀, [.scheduled .gwInfoTask ⟨some .gwInfoFunc, none, p.now, 1000⟩]⟩ :=
    ⟨Process.aflyInit_schedules hfresh hlong hinit, lawful_nil.scheduled _ _⟩
  obtain ⟨⟨l, hS⟩, hlaw⟩ := hr.invariant hstart
    fun _ _ _ h hop hs => Chronicle.invariant_step h hop hs
  refine ⟨⟨l, hS.represents.tasks, hS.represents.listed, hS.armed⟩, hlaw, ?_,
    fun _ _ => Chronicle.step_runs, fun _ _ => Chronicle.fire_defined hS⟩
  intro task
  have := hlaw.runs_le task
  omega

end Steps

/-- A door is opened, and a second later the gateway's own task runs. -/
def openedOnce : List (LoopEvent ℕ) :=
  [.op .quiet (.subAdd firstDevice.deviceName firstDevice.productKey none),
   .op .quiet (.rptEvent firstDevice.deviceName eventNxpAddDelPassRet (ackBuf 0 888888 0)),
   .pass 1000 1500000001, .fire .quiet]

theorem task_timer_covers_opened : ∃ (p₀ : Process ℕ) (S : Chronicle ℕ),
    Process.boot.aflyInit .quiet [.connected] = some p₀ ∧
    run Chronicle.step ⟨p₀, [.scheduled .gwInfoTask ⟨some .gwInfoFunc, none, 1000, 1000⟩]⟩
      openedOnce = some S ∧
    S.process.timers.time .task = 6000 ∧ S.trace.countP TaskEvent.isRun = 1 ∧ Lawful S.trace := by
  obtain ⟨p₀, hinit, ho⟩ : ∃ p₀ : Process ℕ,
      Process.boot.aflyInit .quiet [.connected] = some p₀ ∧
      (run Chronicle.step ⟨p₀, [.scheduled .gwInfoTask ⟨some .gwInfoFunc, none, 1000, 1000⟩]⟩
        openedOnce).map (fun S =>
          (S.process.timers.time .task, S.trace.countP TaskEvent.isRun)) = some (6000, 1) :=
    Option.map_eq_some_iff.mp (by decide +kernel)
  obtain ⟨S, hS, ho⟩ := Option.map_eq_some_iff.mp ho
  obtain ⟨htime, hrun⟩ := Prod.mk.inj ho
  have hlaw := (task_timer_covers Process.fresh_boot rfl hinit
    (reachable_of_run hS (by simp [openedOnce, Chronicle.Admits, Op.OnDoors,
      Scheduled.RemovesIdle, Env.quiet]) .start)).2.1
  exact ⟨p₀, S, hinit, hS, htime, hrun, hlaw⟩

end Afly
