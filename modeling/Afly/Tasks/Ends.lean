import Afly.Tasks.Relock

/-! # The task list ends

No event of a run makes a ring of the task list, whatever it removes or loads.
So every walk over the list ends, and a lock event is always handled to its end.
-/

namespace Afly

open World Reach Chain

/-- The walk over the task list ends. -/
def World.Ends (w : World) : Prop := ∃ l, w.sched.Tasks l

section Ends

variable {env : Env} {w w' : World} {op : Op} {e : Env × LifeEvent}

/-- An edit that keeps the task. -/
def KeepsTask (sd sd' : SubDev) : Prop := sd'.task = sd.task

theorem frame_task : Frame (fun _ _ _ => True) (fun _ => True) KeepsTask where
  trans h h' := h'.trans h
  same h := h.task
  asked _ _ := rfl
  occupy _ _ h := (SubDev.occupy_eq h).2.2.2.2.2
  report _ h := (SubDev.report_eq h).2.2.2.2

theorem World.Ends.of_frame (h : w.Ends) (hf : FrameStep KeepsTask w w') : w'.Ends := by
  obtain ⟨l, hl⟩ := h
  refine ⟨l, ?_⟩
  rw [hf.sched fun hk => hk]
  exact hl

variable (env) in
theorem World.Ends.schedule (h : w.Ends) (k : ℕ) (task : TaskRef) (ms : ℤ) (func : TaskFunc)
    (arg : Option Slot) : ∃ w', w.schedule env k task ms func arg = some w' ∧ w'.Ends := by
  obtain ⟨l, hl⟩ := h
  obtain ⟨s, hs, ht, -⟩ := Sched.schedueAdd_spec task hl (hl.nodup.length_le_card.trans
    card_taskRef.le) (env.long (env.clock k)) ms (some func) arg
  have hadd : w.schedueAdd env k task ms func arg = some (w.setSched s) := by
    rw [World.schedueAdd, hs]
    rfl
  have hfirst : ∃ first, s.schedueFirstTaskToExec fuel env.long = some first := by
    rcases Sched.schedueFirstTaskToExec_spec ht (ht.nodup.length_le_card.trans card_taskRef.le) with
      ⟨-, he⟩ | ⟨q, -, he⟩
    · exact ⟨_, he⟩
    · exact ⟨_, he⟩
  obtain ⟨first, hfirst⟩ := hfirst
  obtain ⟨delt, hdelt⟩ : ∃ delt, (w.setSched s).schedueFirstTaskDelay env (k + 1) = some delt := by
    unfold World.schedueFirstTaskDelay Sched.schedueFirstTaskDelay
    rw [sched_setSched, hfirst]
    exact ⟨_, rfl⟩
  have hsched : ((w.setSched s).timerSet env (k + 2) delt).sched = s := sched_setSched w s
  refine ⟨(w.setSched s).timerSet env (k + 2) delt, ?_, ⟨_, hsched ▸ ht⟩⟩
  rw [World.schedule, hadd, Option.bind_some, hdelt]
  rfl

theorem World.Ends.of_schedule (h : w.Ends) {k : ℕ} {task : TaskRef} {ms : ℤ} {func : TaskFunc}
    {arg : Option Slot} (hs : w.schedule env k task ms func arg = some w') : w'.Ends := by
  obtain ⟨w₁, h₁, hends⟩ := h.schedule env k task ms func arg
  obtain rfl : w' = w₁ := Option.some.inj (hs.symm.trans h₁)
  exact hends

theorem World.Ends.of_schedueDel {q : TaskRef} (h : w.Ends) (hdel : w.schedueDel q = some w') :
    w'.Ends := by
  obtain ⟨l, hl⟩ := h
  obtain ⟨s, hs, ht, -⟩ := Sched.schedueDel_spec q hl
    (hl.nodup.length_le_card.trans card_taskRef.le)
  obtain rfl : w'.sched = s := Option.some.inj ((schedueDel_sched hdel).symm.trans hs)
  exact ⟨_, ht⟩

theorem World.Ends.of_postLockState (h : w.Ends) (i : Slot) (status : ℤ) :
    (w.postLockState i status).Ends := by
  obtain ⟨l, hl⟩ := h
  refine ⟨l, ?_⟩
  rw [sched_postLockState]
  exact hl

theorem World.Ends.of_taskRun (h : w.Ends) (hr : w.aflyHandlerTaskRun env = some w') :
    w'.Ends := by
  obtain ⟨delt, -, ⟨-, rfl⟩ | ⟨w₁, delt', -, hrun, -, rfl⟩⟩ := aflyHandlerTaskRun_cases hr
  · exact h
  have h₁ : w₁.Ends := by
    rcases hrun with ⟨-, hfirst⟩ | ⟨-, rfl⟩
    · obtain ⟨q, w₂, -, hdel, htask⟩ := runFirstTask_cases hfirst
      have h₂ := h.of_schedueDel hdel
      rcases runTask_cases htask with ⟨-, hinfo⟩ | ⟨i, -, -, rfl⟩
      · obtain ⟨sdk, hs⟩ := gwInfoFunc_cases hinfo
        have hset : (w₂.setSdk sdk).Ends := h₂
        exact hset.of_schedule hs
      · exact h₂.of_postLockState i 0
    · exact h
  split
  · exact h₁
  · exact h₁

theorem ends_step (h : w.Ends) (hop : e.2.OnLocks) (hs : w.lifeStep e = some w') : w'.Ends := by
  obtain ⟨env, event⟩ := e
  cases event with
  | restart => exact ⟨_, (restart_spec hs).1⟩
  | handle op =>
    by_cases hrem : op.Removes
    · obtain ⟨l, hl⟩ := h
      exact ⟨_, (erasesAll_removed hrem hs).tasks hl⟩
    · rcases step_frame frame_task (fun _ => rfl) (onDevices_of_onLocks hop hrem)
        (fun _ _ => trivial) hs with hf | ⟨i, w₁, h₁, hf⟩ | hrun
      · exact h.of_frame hf
      · exact ((h.of_postLockState i 1).of_schedule h₁).of_frame hf
      · exact h.of_taskRun hrun

/-- In every reachable state the task list ends. -/
theorem ends_of_reachable {w₀ : World} (h₀ : w₀.taskList = none)
    (hr : Reachable lifeStep (fun _ e => e.2.OnLocks) w₀ w) : w.Ends :=
  hr.invariant (I := World.Ends) ⟨[], h₀⟩ fun _ _ _ h hop hs => ends_step h hop hs

variable (env) in
theorem doorOpened_defined (h : w.Ends) (i : Slot) : ∃ w', w.doorOpened env i = some w' := by
  obtain ⟨w', hw, -⟩ := (h.of_postLockState i 1).schedule env 0 (.sub i) 5000 .subdevTimeoutFunc
    (some i)
  exact ⟨w', hw⟩

variable (env) in
theorem rptEvent_defined (h : w.Ends) (name : CStr) (eid : ℤ) (buf : ℕ → ℤ) :
    ∃ w', w.aflyNxpRptEvent env name eid buf = some w' := by
  unfold aflyNxpRptEvent
  split
  · exact ⟨w, rfl⟩
  rename_i i _
  obtain ⟨w₁, h₁⟩ := doorOpened_defined env h i
  have hevent : ∃ r, w.lockEvent env i eid buf = some r := by
    unfold lockEvent
    split_ifs
    · unfold checkRecord
      split
      · exact ⟨_, rfl⟩
      · dsimp only
        split
        · exact ⟨_, rfl⟩
        · split
          · rw [h₁]
            exact ⟨_, rfl⟩
          · exact ⟨_, rfl⟩
    · unfold addDelPassRet
      split
      · exact ⟨_, rfl⟩
      · split_ifs
        · exact ⟨_, rfl⟩
        · exact ⟨_, rfl⟩
        · rw [h₁]
          exact ⟨_, rfl⟩
        · exact ⟨_, rfl⟩
    · exact ⟨_, rfl⟩
    · exact ⟨_, rfl⟩
  obtain ⟨r, hr⟩ := hevent
  rw [hr]
  exact ⟨_, rfl⟩

end Ends

end Afly
