import Afly.Gateway.Outcomes
import Afly.Gateway.Step
import Afly.Schedule.Pending

/-! # Scheduled calls and removed devices

The task of a device lies inside its record, and removing the device overwrites
the record with zero bytes, links included. The list keeps every pending call in
exactly the runs that never remove a device whose task is pending.
-/

namespace Afly

open World Reach Chain

/-- The gateway with the calls that were scheduled, and neither run nor deleted, nor removed
together with their device. -/
structure Scheduled where
  world : World
  pending : TaskRef → Option (Call TaskFunc Slot)

/-- The task that `afly_handler_task_run` executes. -/
def World.dueTask (env : Env) (w : World) : Option TaskRef :=
  if w.schedueFirstTaskDelay env 0 = some 0 then
    (w.sched.schedueFirstTaskToExec fuel env.long).join
  else none

/-- The call with which `gw_info_func` schedules itself again. -/
def gwInfoCall (env : Env) : Call TaskFunc Slot where
  func := some .gwInfoFunc
  arg := none
  start := env.long (env.clock 1)
  delt := if env.productInit < 0 then 1000 else 20 * 60 * 1000

def pendingAfterRun (env : Env) (pending : TaskRef → Option (Call TaskFunc Slot)) (task : TaskRef)
    (func : Option TaskFunc) : TaskRef → Option (Call TaskFunc Slot) :=
  if func = some .gwInfoFunc then
    Function.update (Function.update pending task none) .gwInfoTask (some (gwInfoCall env))
  else Function.update pending task none

def Scheduled.after (S : Scheduled) : Env × Op → TaskRef → Option (Call TaskFunc Slot)
  | (env, .schedueAdd task ms func arg) =>
    Function.update S.pending task (some ⟨some func, arg, env.long (env.clock 0), ms⟩)
  | (_, .schedueDel task) => Function.update S.pending task none
  | (env, .taskRun) =>
    match S.world.dueTask env with
    | none => S.pending
    | some task => pendingAfterRun env S.pending task (S.world.sched.call task).func
  | (_, .subDel name) =>
    match S.world.productSubSearchByName name with
    | none => S.pending
    | some i => Function.update S.pending (.sub i) none
  | (_, .subClr) => fun
    | .gwInfoTask => S.pending .gwInfoTask
    | .sub _ => none
  | _ => S.pending

def Scheduled.step (S : Scheduled) (e : Env × Op) : Option Scheduled :=
  (S.world.step e).map fun w => ⟨w, S.after e⟩

/-- The scheduler calls, the due tasks and the table operations of a run. -/
def Op.OnTasks : Op → Prop
  | .schedueAdd _ _ _ _ | .schedueDel _ | .taskRun | .subAdd _ _ _ | .subDel _ | .subClr => True
  | _ => False

/-- The walk over the list ends, meets every pending task once with its call, and meets no task
with a null function. -/
def Scheduled.Walks (S : Scheduled) : Prop :=
  ∃ l, S.world.sched.Tasks l ∧
    (∀ task c, S.pending task = some c → l.count task = 1 ∧ S.world.sched.call task = c) ∧
    ∀ task ∈ l, (S.world.sched.call task).func ≠ none

/-- No device is removed while its task is pending. -/
def Scheduled.RemovesIdle (S : Scheduled) : Op → Prop
  | .subDel name => ∀ i, S.world.productSubSearchByName name = some i → S.pending (.sub i) = none
  | .subClr => ∀ i, S.pending (.sub i) = none
  | _ => True

/-- The list represents the pending calls, and each of them has a function. -/
structure Scheduled.Invariant (S : Scheduled) (l : List TaskRef) : Prop where
  represents : S.world.sched.Represents S.pending l
  func : ∀ task c, S.pending task = some c → c.func ≠ none

section Lenses

variable {env : Env} {w w' : World} {i : Slot}

theorem card_taskRef : Fintype.card TaskRef = fuel := by decide

theorem sched_setDev {sd : SubDev} (h : sd.task = (w.subdevs i).task) :
    (w.setDev i sd).sched = w.sched := by
  unfold sched
  congr 1
  funext task
  cases task with
  | gwInfoTask => rfl
  | sub k =>
    by_cases hk : k = i
    · subst hk; simpa using h
    · simp [hk]

@[simp] theorem sched_productSubSave {r : SaveResult} :
    (w.productSubSave i r).sched = w.sched := by
  unfold productSubSave; split <;> rfl

@[simp] theorem sched_productSubSaveAll {r : SaveResult} :
    (w.productSubSaveAll r).sched = w.sched := by
  unfold productSubSaveAll; split_ifs <;> rfl

@[simp] theorem sched_postLockState {status : ℤ} : (w.postLockState i status).sched = w.sched :=
  sched_setDev (w := w) (by rfl)

theorem sched_productSubAdd {r : SaveResult} {name key : CStr} {secret : Option CStr} {ret : ℤ}
    (h : w.productSubAdd r name key secret = some (w', ret)) : w'.sched = w.sched := by
  rcases productSubAdd_cases h with ⟨j, sd, -, hsd, rfl⟩ | ⟨-, -, rfl⟩ | ⟨j, sd, -, hm, hsd, rfl⟩
  · refine sched_setDev ?_
    cases SubDev.assign_occupies hsd with
    | same => rfl
    | assign key secret he => rw [he]
    | fresh _ _ _ _ _ htask => exact htask
  · rfl
  · rw [sched_productSubSave]
    exact sched_setDev (SubDev.occupy_eq hsd).2.2.2.2.2

theorem schedueAdd_sched {k : ℕ} {task : TaskRef} {ms : ℤ} {func : TaskFunc} {arg : Option Slot}
    (h : w.schedueAdd env k task ms func arg = some w') :
    w.sched.schedueAdd fuel (env.long (env.clock k)) task ms (some func) arg = some w'.sched := by
  obtain ⟨s, hs, rfl⟩ := Option.map_eq_some_iff.mp h
  rw [hs, sched_setSched]

theorem schedueDel_sched {task : TaskRef} (h : w.schedueDel task = some w') :
    w.sched.schedueDel fuel task = some w'.sched := by
  obtain ⟨s, hs, rfl⟩ := Option.map_eq_some_iff.mp h
  rw [hs, sched_setSched]

theorem schedule_sched {k : ℕ} {task : TaskRef} {ms : ℤ} {func : TaskFunc} {arg : Option Slot}
    (h : w.schedule env k task ms func arg = some w') :
    w.sched.schedueAdd fuel (env.long (env.clock k)) task ms (some func) arg = some w'.sched := by
  obtain ⟨w₁, h₁, h₂⟩ := Option.bind_eq_some_iff.mp h
  obtain ⟨delt, -, rfl⟩ := Option.map_eq_some_iff.mp h₂
  have hs := schedueAdd_sched h₁
  rwa [show (w₁.timerSet env (k + 2) delt).sched = w₁.sched from rfl]

theorem productSubDel_of_none {r : SaveResult} {name : CStr}
    (h : w.productSubSearchByName name = none) : (w.productSubDel r name).1 = w := by
  unfold productSubDel
  rw [h]

theorem sched_productSubDel {r : SaveResult} {name : CStr}
    (h : w.productSubSearchByName name = some i) :
    (w.productSubDel r name).1.sched =
      { w.sched with heap := Function.update w.sched.heap (.sub i) .zero } := by
  unfold productSubDel
  rw [h]
  dsimp only
  rw [sched_productSubSave]
  unfold sched
  congr 1
  funext task
  cases task with
  | gwInfoTask => rw [Function.update_of_ne (by simp)]; rfl
  | sub k =>
    by_cases hk : k = i
    · subst hk; simp [SubDev.zero]
    · simp [hk]

theorem sched_productSubClr {r : SaveResult} : (w.productSubClr r).1.sched =
    { w.sched with heap := fun
        | .gwInfoTask => w.gwInfoTask
        | .sub _ => .zero } := by
  unfold productSubClr
  dsimp only
  rw [sched_productSubSaveAll]
  unfold sched
  congr 1

variable (env w) in
theorem productSubLoadAll_tasks : (w.productSubLoadAll env).1.gwInfoTask = w.gwInfoTask ∧
    (w.productSubLoadAll env).1.taskList = w.taskList ∧
    (w.productSubLoadAll env).1.taskTimer = w.taskTimer := by
  unfold productSubLoadAll
  cases w.db with
  | missing =>
    dsimp only
    unfold productSubSaveAll
    split_ifs <;> exact ⟨rfl, rfl, rfl⟩
  | broken =>
    dsimp only
    split <;> exact ⟨rfl, rfl, rfl⟩
  | whole t =>
    dsimp only
    split <;> exact ⟨rfl, rfl, rfl⟩

end Lenses

section TaskRun

variable {env : Env} {w w' : World} {pending : TaskRef → Option (Call TaskFunc Slot)}
  {l : List TaskRef} {task : TaskRef}

theorem length_le_fuel (h : w.sched.Represents pending l) : l.length ≤ fuel :=
  h.length_le.trans card_taskRef.le

variable (env) in
theorem schedueFirstTaskDelay_defined (h : w.sched.Represents pending l) (k : ℕ) :
    ∃ delt, w.schedueFirstTaskDelay env k = some delt := by
  unfold World.schedueFirstTaskDelay Sched.schedueFirstTaskDelay
  rcases h.first env.long (length_le_fuel h) with he | ⟨q, -, he⟩ <;>
    (rw [he]; exact ⟨_, rfl⟩)

theorem schedule_represents {k : ℕ} {ms : ℤ} {func : TaskFunc} {arg : Option Slot}
    (h : w.sched.Represents pending l) (hs : w.schedule env k task ms func arg = some w') :
    ∃ l', w'.sched.Represents
      (Function.update pending task (some ⟨some func, arg, env.long (env.clock k), ms⟩)) l' := by
  obtain ⟨s, l', hs', hrep⟩ := h.schedueAdd task (length_le_fuel h)
    (env.long (env.clock k)) ms (some func) arg
  obtain rfl : w'.sched = s := Option.some.inj ((schedule_sched hs).symm.trans hs')
  exact ⟨l', hrep⟩

theorem schedule_defined {k : ℕ} {ms : ℤ} {func : TaskFunc} {arg : Option Slot}
    (h : w.sched.Represents pending l) : ∃ w', w.schedule env k task ms func arg = some w' := by
  obtain ⟨s, l', hs, hrep⟩ := h.schedueAdd task (length_le_fuel h)
    (env.long (env.clock k)) ms (some func) arg
  have ha : w.schedueAdd env k task ms func arg = some (w.setSched s) := by
    rw [World.schedueAdd, hs]; rfl
  rw [← sched_setSched w s] at hrep
  obtain ⟨delt, hd⟩ := schedueFirstTaskDelay_defined env hrep (k + 1)
  rw [schedule, ha, Option.bind_some, hd]
  exact ⟨_, rfl⟩

theorem runFirstTask_represents (h : w.sched.Represents pending l)
    (hr : w.runFirstTask env = some w') :
    ∃ q l', w.sched.schedueFirstTaskToExec fuel env.long = some (some q) ∧
      w'.sched.Represents (pendingAfterRun env pending q (w.sched.call q).func) l' := by
  obtain ⟨q, w₁, hfirst, hdel, hrun⟩ := runFirstTask_cases hr
  obtain ⟨s, l₁, hs, hcall, hrep⟩ := h.schedueDel q (length_le_fuel h)
  obtain rfl : w₁.sched = s := Option.some.inj ((schedueDel_sched hdel).symm.trans hs)
  refine ⟨q, ?_⟩
  have hfunc : (w₁.sched.heap q).func = (w.sched.call q).func := by rw [← hcall]; rfl
  rw [← hfunc, pendingAfterRun]
  rcases runTask_cases hrun with ⟨hf, hinfo⟩ | ⟨i, hf, -, rfl⟩
  · rw [hf, if_pos rfl]
    obtain ⟨sdk, hsched⟩ := gwInfoFunc_cases hinfo
    have hrep' : (w₁.setSdk sdk).sched.Represents (Function.update pending q none) l₁ := hrep
    obtain ⟨l', hl'⟩ := schedule_represents hrep' hsched
    exact ⟨l', hfirst, hl'⟩
  · rw [hf, if_neg (by simp)]
    exact ⟨l₁, hfirst, by rwa [sched_postLockState]⟩

theorem aflyHandlerTaskRun_represents (h : w.sched.Represents pending l)
    (hr : w.aflyHandlerTaskRun env = some w') :
    ∃ l', w'.sched.Represents (match w.dueTask env with
      | none => pending
      | some q => pendingAfterRun env pending q (w.sched.call q).func) l' := by
  obtain ⟨delt, hdelt, hcases⟩ := aflyHandlerTaskRun_cases hr
  rw [dueTask, hdelt]
  rcases hcases with ⟨hneg, rfl⟩ | ⟨w₁, delt', -, ⟨rfl, h₁⟩ | ⟨h₀, rfl⟩, -, rfl⟩
  · have h₀ : ¬ some delt = some 0 := by
      rintro ⟨⟩
      exact absurd hneg (by decide)
    rw [if_neg h₀]
    exact ⟨l, h⟩
  · obtain ⟨q, l', hq, hrep⟩ := runFirstTask_represents h h₁
    rw [if_pos rfl, hq]
    refine ⟨l', ?_⟩
    split <;> exact hrep
  · have hne : ¬ some delt = some 0 := fun he => h₀ (Option.some.inj he)
    rw [if_neg hne]
    refine ⟨l, ?_⟩
    dsimp only
    split <;> exact h

theorem runFirstTask_defined {q : TaskRef} {c : Call TaskFunc Slot}
    (h : w.sched.Represents pending l)
    (hq : w.sched.schedueFirstTaskToExec fuel env.long = some (some q)) (hc : pending q = some c)
    (hfunc : c.func ≠ none) (harg : c.func = some .subdevTimeoutFunc → c.arg ≠ none) :
    ∃ w', w.runFirstTask env = some w' := by
  obtain ⟨s, l₁, hs, hcall, hrep⟩ := h.schedueDel q (length_le_fuel h)
  have hdel : w.schedueDel q = some (w.setSched s) := by rw [World.schedueDel, hs]; rfl
  have hrun : w.runFirstTask env = (w.setSched s).runTask env 1 (s.heap q) := by
    rw [runFirstTask, hq]
    simp only [Option.bind_eq_bind, Option.bind_some, hdel, sched_setSched]
  have hheap : (s.heap q).call = c := (congrFun hcall q).trans (h.calls q c hc)
  rw [← hheap] at hfunc harg
  rw [hrun, runTask]
  split
  · rename_i hf; exact absurd hf hfunc
  · unfold gwInfoFunc
    dsimp only
    rw [← sched_setSched w s] at hrep
    split
    · exact schedule_defined (w := (w.setSched s).setSdk _) hrep
    · exact schedule_defined hrep
  · rename_i hf
    obtain ⟨i, hi⟩ := Option.ne_none_iff_exists'.mp (harg hf)
    have hi' : (s.heap q).arg = some i := hi
    rw [subdevTimeoutFunc, hi']
    exact ⟨_, rfl⟩

variable (env) in
theorem aflyHandlerTaskRun_defined (h : w.sched.Represents pending l)
    (hfunc : ∀ task c, pending task = some c → c.func ≠ none)
    (harg : ∀ task c, pending task = some c → c.func = some .subdevTimeoutFunc → c.arg ≠ none) :
    ∃ w', w.aflyHandlerTaskRun env = some w' := by
  unfold aflyHandlerTaskRun
  obtain ⟨delt, hdelt⟩ := schedueFirstTaskDelay_defined env h 0
  rw [hdelt]
  simp only [Option.bind_eq_bind, Option.bind_some]
  by_cases hneg : delt < 0
  · exact ⟨w, if_pos hneg⟩
  rw [if_neg hneg]
  obtain ⟨w₁, l₁, pending₁, h₁, hrep₁⟩ : ∃ w₁ l₁ pending₁,
      (if delt = 0 then w.runFirstTask env else some w) = some w₁ ∧
        w₁.sched.Represents pending₁ l₁ := by
    by_cases h₀ : delt = 0
    · rw [if_pos h₀]
      rcases h.first env.long (length_le_fuel h) with he | ⟨q, hq, he⟩
      · -- an empty list has the delay `-1`
        rw [World.schedueFirstTaskDelay, Sched.schedueFirstTaskDelay, he] at hdelt
        have hd : delt = -1 := (Option.some.inj hdelt).symm
        omega
      · have hc := h.call_of_mem hq
        obtain ⟨w₁, h₁⟩ := runFirstTask_defined h he hc (hfunc q _ hc) (harg q _ hc)
        obtain ⟨_, l₁, -, hrep⟩ := runFirstTask_represents h h₁
        exact ⟨w₁, l₁, _, h₁, hrep⟩
    · exact ⟨w, l, pending, if_neg h₀, h⟩
  obtain ⟨delt', hdelt'⟩ := schedueFirstTaskDelay_defined env hrep₁ 4
  rw [h₁, Option.bind_some, hdelt']
  exact ⟨_, rfl⟩

end TaskRun

section Calls

variable {env : Env} {pending : TaskRef → Option (Call TaskFunc Slot)}
  {P : TaskRef → Call TaskFunc Slot → Prop} {task : TaskRef}

theorem calls_update {c : Option (Call TaskFunc Slot)}
    (h : ∀ task c, pending task = some c → P task c) (hc : ∀ c', c = some c' → P task c')
    (t : TaskRef) (c' : Call TaskFunc Slot)
    (ht : Function.update pending task c t = some c') : P t c' := by
  by_cases hq : t = task
  · subst hq
    rw [Function.update_self] at ht
    exact hc c' ht
  · rw [Function.update_of_ne hq] at ht
    exact h t c' ht

theorem calls_pendingAfterRun {func : Option TaskFunc}
    (h : ∀ task c, pending task = some c → P task c) (hgw : P .gwInfoTask (gwInfoCall env))
    (t : TaskRef) (c : Call TaskFunc Slot)
    (ht : pendingAfterRun env pending task func t = some c) : P t c := by
  unfold pendingAfterRun at ht
  split at ht
  · refine calls_update (calls_update h (by simp)) ?_ t c ht
    rintro _ ⟨⟩
    exact hgw
  · exact calls_update h (by simp) t c ht

end Calls

section Steps

variable {S S' : Scheduled} {l : List TaskRef} {env : Env} {e : Env × Op}

theorem Scheduled.Invariant.walks (h : S.Invariant l) : S.Walks := by
  refine ⟨l, h.represents.tasks, ?_, ?_⟩
  · intro task c hc
    have hm : task ∈ l := (h.represents.listed task).mpr (by simp [hc])
    exact ⟨List.count_eq_one_of_mem h.represents.tasks.nodup hm,
      h.represents.calls task c hc⟩
  · intro task hm
    exact h.func task _ (h.represents.call_of_mem hm)

theorem Scheduled.after_subDel {name : CStr} (hok : S.RemovesIdle (.subDel name)) :
    S.after (env, .subDel name) = S.pending := by
  dsimp only [Scheduled.after]
  cases hi : S.world.productSubSearchByName name with
  | none => rfl
  | some i =>
    have hnone : S.pending (.sub i) = none := hok i hi
    dsimp only
    rw [← hnone]
    exact Function.update_eq_self _ _

theorem Scheduled.after_subClr (hok : S.RemovesIdle .subClr) :
    S.after (env, .subClr) = S.pending := by
  funext task
  cases task with
  | gwInfoTask => rfl
  | sub i => exact (hok i).symm

theorem Scheduled.invariant_subDel (h : S.Invariant l) {name : CStr}
    (hok : S.RemovesIdle (.subDel name)) : Scheduled.Invariant
      ⟨(S.world.productSubDel (env.save 0) name).1, S.after (env, .subDel name)⟩ l := by
  rw [after_subDel hok]
  cases hi : S.world.productSubSearchByName name with
  | none =>
    rw [productSubDel_of_none hi]
    exact ⟨h.represents, h.func⟩
  | some i =>
    have hnone : S.pending (.sub i) = none := hok i hi
    refine ⟨?_, h.func⟩
    dsimp only
    rw [sched_productSubDel hi]
    refine h.represents.congr rfl ?_
    intro task ht
    apply Function.update_of_ne
    rintro rfl
    exact ht hnone

theorem Scheduled.invariant_subClr (h : S.Invariant l) (hok : S.RemovesIdle .subClr) :
    Scheduled.Invariant ⟨(S.world.productSubClr (env.save 0)).1, S.after (env, .subClr)⟩ l := by
  rw [after_subClr hok]
  refine ⟨?_, h.func⟩
  dsimp only
  rw [sched_productSubClr]
  refine h.represents.congr rfl ?_
  intro task ht
  cases task with
  | gwInfoTask => rfl
  | sub i => exact absurd (hok i) ht

/-- A removal that hits no pending task keeps the list, and so does every other step. -/
theorem Scheduled.invariant_step (h : S.Invariant l) (hop : e.2.OnTasks)
    (hok : S.RemovesIdle e.2) (hs : S.step e = some S') : ∃ l', S'.Invariant l' := by
  obtain ⟨env, op⟩ := e
  obtain ⟨w', hw', rfl⟩ := Option.map_eq_some_iff.mp hs
  cases op with
  | schedueAdd task ms func arg =>
    obtain ⟨s, l', hs', hrep⟩ := h.represents.schedueAdd task
      (length_le_fuel h.represents) (env.long (env.clock 0)) ms (some func) arg
    obtain rfl : w'.sched = s := Option.some.inj ((schedueAdd_sched hw').symm.trans hs')
    exact ⟨l', hrep, calls_update h.func (by rintro _ ⟨⟩; simp)⟩
  | schedueDel task =>
    obtain ⟨s, l', hs', -, hrep⟩ := h.represents.schedueDel task (length_le_fuel h.represents)
    obtain rfl : w'.sched = s := Option.some.inj ((schedueDel_sched hw').symm.trans hs')
    exact ⟨l', hrep, calls_update h.func (by simp)⟩
  | taskRun =>
    obtain ⟨l', hrep⟩ := aflyHandlerTaskRun_represents h.represents hw'
    refine ⟨l', hrep, ?_⟩
    dsimp only [Scheduled.after]
    cases S.world.dueTask env with
    | none => exact h.func
    | some task => exact calls_pendingAfterRun h.func (by simp [gwInfoCall])
  | subAdd =>
    obtain ⟨⟨w₁, ret⟩, h₁, rfl⟩ := Option.map_eq_some_iff.mp hw'
    refine ⟨l, ?_, h.func⟩
    have hsched : w₁.sched = S.world.sched := sched_productSubAdd h₁
    rw [hsched]
    exact h.represents
  | subDel =>
    obtain rfl := Option.some.inj hw'
    exact ⟨l, invariant_subDel h hok⟩
  | subClr =>
    obtain rfl := Option.some.inj hw'
    exact ⟨l, invariant_subClr h hok⟩
  | _ => exact hop.elim

theorem not_walks_of_erased (bad : TaskRef → Prop) (h : S.Invariant l)
    (hlist : S'.world.sched.taskList = S.world.sched.taskList)
    (hkeep : ∀ task, ¬ bad task → S'.world.sched.heap task = S.world.sched.heap task)
    (herase : ∀ task, bad task → S'.world.sched.heap task = .zero)
    (hbad : ∃ task, bad task ∧ S.pending task ≠ none) : ¬ S'.Walks := by
  rintro ⟨l', hl', -, hfunc⟩
  obtain ⟨task, ht, hp⟩ := hbad
  unfold Sched.Tasks at hl'
  rw [hlist] at hl'
  obtain ⟨q, hq, hb⟩ := h.represents.tasks.meets hl'
    (fun q hq => by rw [Sched.next, Sched.next, hkeep q hq])
    ⟨task, (h.represents.listed task).mpr hp, ht⟩
  apply hfunc q hq
  rw [Sched.call, herase q hb]
  rfl

theorem Scheduled.removesIdle_of_walks (h : S.Invariant l) (hop : e.2.OnTasks)
    (hs : S.step e = some S') (hw : S'.Walks) : S.RemovesIdle e.2 := by
  obtain ⟨env, op⟩ := e
  obtain ⟨w', hw', rfl⟩ := Option.map_eq_some_iff.mp hs
  cases op with
  | subDel name =>
    intro i hi
    by_contra hp
    obtain rfl := Option.some.inj hw'
    refine not_walks_of_erased (fun task => task = .sub i) h ?_ ?_ ?_ ⟨_, rfl, hp⟩ hw
    · dsimp only; rw [sched_productSubDel hi]
    · intro task ht
      dsimp only
      rw [sched_productSubDel hi]
      exact Function.update_of_ne ht _ _
    · rintro task rfl
      dsimp only
      rw [sched_productSubDel hi]
      exact Function.update_self ..
  | subClr =>
    intro i
    by_contra hp
    obtain rfl := Option.some.inj hw'
    refine not_walks_of_erased (fun task => task ≠ .gwInfoTask) h ?_ ?_ ?_
      ⟨.sub i, by simp, hp⟩ hw
    · dsimp only; rw [sched_productSubClr]
    · intro task ht
      obtain rfl := not_not.mp ht
      dsimp only
      rw [sched_productSubClr]
      rfl
    · intro task ht
      dsimp only
      rw [sched_productSubClr]
      cases task with
      | gwInfoTask => exact absurd rfl ht
      | sub i => rfl
  | schedueAdd | schedueDel | taskRun | subAdd => trivial
  | _ => exact hop.elim

/-- In every run that removes no device with a pending task the walk meets every pending task
with its call, and the first removal of a device with a pending task breaks it. A due task can
always be called, when timeouts carry their device. -/
theorem pending_tasks_walk {w₀ : World} (h₀ : w₀.taskList = none)
    (hr : Reachable Scheduled.step (fun S e => e.2.OnTasks ∧ S.RemovesIdle e.2)
      ⟨w₀, fun _ => none⟩ S) :
    S.Walks ∧
    (∀ e S', e.2.OnTasks → S.step e = some S' → (S'.Walks ↔ S.RemovesIdle e.2)) ∧
    ((∀ task c, S.pending task = some c → c.func = some .subdevTimeoutFunc → c.arg ≠ none) →
      ∀ env, ∃ S', S.step (env, .taskRun) = some S') := by
  have hstart : ∃ l, Scheduled.Invariant ⟨w₀, fun _ => none⟩ l := by
    refine ⟨[], ⟨h₀, by simp, ?_⟩, ?_⟩
    · rintro _ _ ⟨⟩
    · rintro _ _ ⟨⟩
  obtain ⟨l, hI⟩ : ∃ l, S.Invariant l :=
    hr.invariant (I := fun S => ∃ l, S.Invariant l) hstart
      fun _ _ _ ⟨_, hI⟩ hok hs => Scheduled.invariant_step hI hok.1 hok.2 hs
  refine ⟨hI.walks, ?_, ?_⟩
  · intro e S' hop hs
    constructor
    · exact Scheduled.removesIdle_of_walks hI hop hs
    · intro hok
      obtain ⟨l', hI'⟩ := Scheduled.invariant_step hI hop hok hs
      exact hI'.walks
  · intro harg env
    obtain ⟨w', hw'⟩ := aflyHandlerTaskRun_defined env hI.represents hI.func harg
    exact ⟨_, Option.map_eq_some_iff.mpr ⟨w', hw', rfl⟩⟩

end Steps

/-- The timeout of the first device and then the gateway's own task are scheduled. -/
def scheduleBoth : List (Env × Op) :=
  [(.quiet, .schedueAdd (.sub 0) 5000 .subdevTimeoutFunc (some 0)),
   (.quiet, .schedueAdd .gwInfoTask 1000 .gwInfoFunc none)]

theorem pending_tasks_walk_both : ∃ S, run Scheduled.step ⟨single firstDevice, fun _ => none⟩
    scheduleBoth = some S ∧ S.world.taskList = some (.sub 0) ∧ S.Walks := by
  obtain ⟨S, hS, ho⟩ : ∃ S, run Scheduled.step ⟨single firstDevice, fun _ => none⟩ scheduleBoth =
      some S ∧ S.world.taskList = some (.sub 0) := Option.map_eq_some_iff.mp (by decide +kernel)
  exact ⟨S, hS, ho, (pending_tasks_walk (show (single firstDevice).taskList = none from rfl)
    (reachable_of_run hS (by simp [scheduleBoth, Op.OnTasks, Scheduled.RemovesIdle]) .start)).1⟩

/-- Removing the device in front drops the task of the gateway behind it. -/
theorem removal_drops_task :
    ¬ ∀ (w₀ : World) (S : Scheduled), w₀.taskList = none →
      Reachable Scheduled.step (fun _ e => e.2.OnTasks) ⟨w₀, fun _ => none⟩ S → S.Walks := by
  intro h
  obtain ⟨S, hS, ho⟩ : ∃ S, run Scheduled.step ⟨single firstDevice, fun _ => none⟩
      (scheduleBoth ++ [(.quiet, .subDel firstDevice.deviceName)]) = some S ∧
      (S.world.taskList, S.world.sched.next (.sub 0), (S.pending .gwInfoTask).isSome) =
        (some (.sub 0), none, true) := Option.map_eq_some_iff.mp (by decide +kernel)
  simp only [Prod.mk.injEq] at ho
  obtain ⟨hhead, hnext, hpending⟩ := ho
  obtain ⟨l, hl, hp, -⟩ := h (single firstDevice) S rfl
    (reachable_of_run hS (by simp [scheduleBoth, Op.OnTasks]) .start)
  have hlone : Linked S.world.sched.next S.world.sched.taskList [.sub 0] := ⟨hhead, hnext⟩
  obtain rfl : l = [.sub 0] := Linked.unique hl hlone
  obtain ⟨c, hc⟩ := Option.isSome_iff_exists.mp hpending
  exact absurd (hp .gwInfoTask c hc).1 (by decide)

end Afly
