import Afly.Gateway.Frames
import Afly.Handles.Mapping
import Afly.Keys.Edits
import Afly.Provision.Interval
import Afly.Tasks.Pending

/-! # Open locks are reset

An opened door sets the lock status of a device and schedules the call that
resets it. The status is part of the record and goes to the db file, while the
call is lost with the process, and with the list behind the task of a removed
device. In runs that lose no such call every open status is going to be reset.
-/

namespace Afly

open World Reach Chain

/-- The second record of the table that the program starts with. -/
def secondDevice : SubDev :=
  { firstDevice with
    deviceName := "00158d00026c540a".toList
    deviceSecret := "3X1jZmnSKx1Dej9RQvLVtywP1SPe6Xk1".toList }

def initialSubdevs : Slot → SubDev := fun i =>
  if i = 0 then firstDevice else if i = 1 then secondDevice else .zero

namespace World

/-- What a new process finds: its own data and the db file. -/
def newProcess (w : World) : World :=
  { w with subdevs := initialSubdevs, gwInfoTask := .zero, taskList := none, taskTimer := none,
           sdk := .init }

/-- `afly_init`: a new process schedules its task and loads the table. -/
def restart (env : Env) (w : World) : Option World :=
  (w.newProcess.schedule env 0 .gwInfoTask 1000 .gwInfoFunc none).map fun w =>
    (w.productSubLoadAll env).1

/-- The table that a new process comes to hold. -/
def loadedTable (env : Env) (w : World) : Slot → SubDev :=
  match w.db with
  | .missing => fun _ => .zero
  | .broken => if env.opens then env.brokenRead.1 else initialSubdevs
  | .whole t => if env.opens then t else initialSubdevs

/-- The records that deleting some names in turn erases. -/
def removedBy : World → List CStr → List Slot
  | _, [] => []
  | w, name :: names =>
    let found := w.productSubSearchByName name
    found.toList ++ removedBy (found.elim w fun i => w.setDev i .zero) names

/-- The records that an event erases. -/
def removed (w : World) : Env × Op → List Slot
  | (_, .subDel name) => w.removedBy [name]
  | (_, .subClr) | (_, .clrSubDev) => List.finRange 40
  | (env, .delSubDev input) => w.removedBy (removedNames env input)
  | (_, .subdevDeleted (some _) (some name)) => w.removedBy [name]
  | (_, .xdel mac) => w.removedBy [mac]
  | (env, .nxpUnreg name) =>
    match w.productSubSearchByName name with
    | none => []
    | some i =>
      if (w.subdevs i).devid ≠ 0 ∧ env.destroy = 0 ∧ env.unregister = 0 then [i] else []
  | _ => []

/-- A device in use whose lock status says open. -/
def Open (w : World) (i : Slot) : Prop :=
  (w.subdevs i).use ≠ 0 ∧ (w.subdevs i).lock.lockStatus = 1

end World

/-- The call that a listed task carries: the gateway's own, or the reset of a device. -/
def TaskRef.Call : TaskRef → Call TaskFunc Slot → Prop
  | .gwInfoTask, c => c.func = some .gwInfoFunc
  | .sub i, c => c.func = some .subdevTimeoutFunc ∧ c.arg = some i

namespace World

/-- The reset of a device is on the list, which ends. -/
def RelockPending (w : World) (i : Slot) : Prop :=
  ∃ l, w.sched.Tasks l ∧ .sub i ∈ l ∧ TaskRef.Call (.sub i) (w.sched.call (.sub i))

def Relocks (w : World) : Prop := ∀ i, w.Open i → w.RelockPending i

/-- No erased record has its task in front of the task of an open device that stays. -/
def ErasesBehind (w : World) (erased : List Slot) : Prop :=
  ∀ i, w.Open i → i ∉ erased → ∀ l₁ l₂, w.sched.Tasks (l₁ ++ .sub i :: l₂) →
    ∀ k ∈ erased, .sub k ∉ l₁

end World

/-- The strings of a registration that end before the lock status. -/
structure NxpReg.EndsBeforeLock (r : NxpReg) : Prop where
  type : r.type.length < 144
  version : r.version.length < 112
  model : r.model.length < 80

/-- What happens to the gateway: an event for the process, or a new process. -/
inductive LifeEvent where
  | handle (op : Op)
  | restart

/-- The events of a run. The scheduler is called by the handlers only. -/
def LifeEvent.OnLocks : LifeEvent → Prop
  | .handle (.schedueAdd _ _ _ _) | .handle (.schedueDel _) | .handle .loadAll => False
  | _ => True

namespace World

def lifeStep (w : World) : Env × LifeEvent → Option World
  | (env, .handle op) => w.step (env, op)
  | (env, .restart) => w.restart env

/-- The events that lose no reset of an open device. -/
def KeepsRelocks (w : World) : Env × LifeEvent → Prop
  | (env, .restart) => ∀ i, (w.loadedTable env i).use ≠ 0 →
      (w.loadedTable env i).lock.lockStatus ≠ 1
  | (_, .handle (.nxpReg r)) => r.EndsBeforeLock
  | (env, .handle op) => w.ErasesBehind (w.removed (env, op))

/-- The list ends, its tasks carry their calls or none, and it has the task of every open device
with its call. -/
structure Relocking (w : World) (l : List TaskRef) : Prop where
  tasks : w.sched.Tasks l
  calls : ∀ task ∈ l, (w.sched.call task).func = none ∨ task.Call (w.sched.call task)
  pending : ∀ i, w.Open i → .sub i ∈ l ∧ TaskRef.Call (.sub i) (w.sched.call (.sub i))

end World

section Frames

variable {env : Env} {w w' : World} {l : List TaskRef} {i : Slot}

theorem World.Relocking.relocks (h : w.Relocking l) : w.Relocks := by
  intro i hi
  exact ⟨l, h.tasks, h.pending i hi⟩

theorem World.Relocking.length_le (h : w.Relocking l) : l.length ≤ fuel :=
  h.tasks.nodup.length_le_card.trans card_taskRef.le

/-- An edit that keeps the task and opens no lock. -/
structure KeepsRelock (sd sd' : SubDev) : Prop where
  task : sd'.task = sd.task
  opened : sd'.use ≠ 0 → sd'.lock.lockStatus = 1 → sd.use ≠ 0 ∧ sd.lock.lockStatus = 1

theorem Lock.poke_lockStatus {sd sd' : SubDev} {k : ℕ} {c : Char} (h : sd.poke k c = some sd')
    (hk : k < 16) : sd'.lock = sd.lock := by
  unfold SubDev.poke at h
  split_ifs at h <;> first | omega | (cases h; rfl)

theorem SubDev.report_lock {sd sd' : SubDev} {r : NxpReg} (hr : r.EndsBeforeLock)
    (h : sd.report r = some sd') : sd'.lock = sd.lock := by
  unfold report at h
  obtain ⟨sd₁, h₁, h⟩ := Option.bind_eq_some_iff.mp h
  obtain ⟨sd₂, h₂, h⟩ := Option.bind_eq_some_iff.mp h
  obtain ⟨sd₃, h₃, h⟩ := Option.bind_eq_some_iff.mp h
  cases h
  have hspill {a b : SubDev} {room : ℕ} {s : CStr} (hs : s.length < room + 16)
      (h : a.spill (overrun room s) = some b) : b.lock = a.lock := by
    refine spill_induct (R := fun a b => b.lock = a.lock) (fun _ => rfl) (fun h h' => h'.trans h)
      ?_ h
    intro a b k c hk hp
    have hlen := length_overrun room s
    exact Lock.poke_lockStatus hp (by omega)
  calc sd₃.lock = sd₂.lock := hspill (by exact hr.model) h₃
    _ = sd₁.lock := hspill (by exact hr.version) h₂
    _ = sd.lock := hspill (by exact hr.type) h₁

theorem frame_relock : Frame (fun _ _ _ => True) NxpReg.EndsBeforeLock KeepsRelock where
  trans h h' := by
    refine ⟨h'.task.trans h.task, ?_⟩
    intro hu hs
    obtain ⟨hu', hs'⟩ := h'.opened hu hs
    exact h.opened hu' hs'
  same h := by
    refine ⟨h.task, ?_⟩
    intro hu hs
    rw [← h.use, ← h.lockStatus]
    exact ⟨hu, hs⟩
  asked a seed := ⟨rfl, fun hu hs => ⟨hu, hs⟩⟩
  occupy _ _ h := by
    obtain ⟨-, -, -, -, hlock, htask⟩ := SubDev.occupy_eq h
    refine ⟨htask, ?_⟩
    intro _ hs
    rw [hlock] at hs
    exact absurd hs (by decide)
  report hr h := by
    obtain ⟨hdevice, -, -, -, htask⟩ := SubDev.report_eq h
    refine ⟨htask, ?_⟩
    intro hu hs
    rw [SubDev.report_lock hr h] at hs
    rw [hdevice.use] at hu
    exact ⟨hu, hs⟩

theorem sched_of_frame (h : FrameStep KeepsRelock w w') : w'.sched = w.sched :=
  h.sched fun hk => hk.task

theorem World.Relocking.of_frame (h : w.Relocking l) (hf : FrameStep KeepsRelock w w') :
    w'.Relocking l where
  tasks := by rw [sched_of_frame hf]; exact h.tasks
  calls := by rw [sched_of_frame hf]; exact h.calls
  pending i hi := by
    rw [sched_of_frame hf]
    exact h.pending i ((hf.subdevs i).opened hi.1 hi.2)

end Frames

section Removal

variable {env : Env} {w w' w'' : World} {l : List TaskRef} {i : Slot} {name : CStr}
  {erased erased' : List Slot}

/-- Some records are erased, and nothing else that the scheduler reads changes. -/
structure World.ErasesAll (erased : List Slot) (w w' : World) : Prop where
  subdevs : ∀ i, w'.subdevs i = if i ∈ erased then .zero else w.subdevs i
  gwInfoTask : w'.gwInfoTask = w.gwInfoTask
  taskList : w'.taskList = w.taskList

theorem World.ErasesAll.of_eq (hs : w'.subdevs = w.subdevs) (hg : w'.gwInfoTask = w.gwInfoTask)
    (hl : w'.taskList = w.taskList) : ErasesAll [] w w' :=
  ⟨fun i => by rw [hs, if_neg (by simp)], hg, hl⟩

theorem World.ErasesAll.trans (h : ErasesAll erased w w') (h' : ErasesAll erased' w' w'') :
    ErasesAll (erased ++ erased') w w'' where
  subdevs i := by
    rw [h'.subdevs, h.subdevs]
    simp only [List.mem_append]
    split_ifs <;> first | rfl | simp_all
  gwInfoTask := h'.gwInfoTask.trans h.gwInfoTask
  taskList := h'.taskList.trans h.taskList

theorem removedBy_congr {names : List CStr} (h : w'.subdevs = w.subdevs) :
    w'.removedBy names = w.removedBy names := by
  induction names generalizing w w' with
  | nil => rfl
  | cons name names ih =>
    unfold removedBy
    dsimp only
    rw [productSubSearchByName_subdevs h]
    cases w.productSubSearchByName name with
    | none => exact ih h
    | some i => exact congrArg _ (ih (by simp [h]))

theorem productSubSave_tasks {r : SaveResult} :
    (w.productSubSave i r).gwInfoTask = w.gwInfoTask ∧
      (w.productSubSave i r).taskList = w.taskList := by
  unfold productSubSave
  split <;> exact ⟨rfl, rfl⟩

theorem removedBy_of_none {names : List CStr} (h : w.productSubSearchByName name = none) :
    w.removedBy (name :: names) = w.removedBy names := by
  rw [removedBy]
  rw [h]
  rfl

theorem removedBy_of_search {names : List CStr} (h : w.productSubSearchByName name = some i) :
    w.removedBy (name :: names) = i :: (w.setDev i .zero).removedBy names := by
  rw [removedBy]
  rw [h]
  rfl

theorem erasesAll_del {r : SaveResult} :
    ErasesAll (w.removedBy [name]) w (w.productSubDel r name).1 := by
  cases hs : w.productSubSearchByName name with
  | none =>
    rw [removedBy_of_none hs, productSubDel_of_none hs]
    exact .of_eq rfl rfl rfl
  | some i =>
    have hdel : (w.productSubDel r name).1 = (w.setDev i .zero).productSubSave i r := by
      unfold productSubDel
      rw [hs]
    have htasks := productSubSave_tasks (w := w.setDev i .zero) (i := i) (r := r)
    rw [removedBy_of_search hs, hdel]
    refine ⟨?_, htasks.1, htasks.2⟩
    intro k
    rw [productSubSave_subdevs, setDev_subdevs, Function.update_apply]
    simp only [removedBy, List.mem_singleton]

theorem World.ErasesAll.del_cons {names : List CStr} {r : SaveResult}
    (h : ErasesAll ((w.productSubDel r name).1.removedBy names) (w.productSubDel r name).1 w') :
    ErasesAll (w.removedBy (name :: names)) w w' := by
  have hdel := erasesAll_del (w := w) (r := r) |>.trans h
  cases hs : w.productSubSearchByName name with
  | none =>
    rw [productSubDel_of_none hs] at h
    rw [removedBy_of_none hs]
    exact h
  | some i =>
    have hsub : (w.productSubDel r name).1.subdevs = (w.setDev i .zero).subdevs := by
      rw [productSubDel_subdevs, hs, setDev_subdevs]
    rw [removedBy_of_search hs, removedBy_congr hsub] at hdel
    rw [removedBy_of_search hs]
    exact hdel

theorem erasesAll_delSubdevs {k : ℕ} {l : List Json} {flag : Bool}
    (h : eachSubdev (delSubdev env) k l w = some (w', flag)) :
    ErasesAll (w.removedBy (l.filterMap removedName)) w w' := by
  induction l generalizing k w flag with
  | nil => cases h; exact .of_eq rfl rfl rfl
  | cons jv l ih =>
    rw [eachSubdev] at h
    obtain ⟨⟨w₁, f₁⟩, h₁, h⟩ := Option.bind_eq_some_iff.mp h
    obtain ⟨⟨w₂, f₂⟩, h₂, h⟩ := Option.bind_eq_some_iff.mp h
    cases h
    have hrest := ih h₂
    rw [List.filterMap_cons]
    unfold delSubdev at h₁
    split at h₁
    · rename_i name hname hsecret hkey
      cases h₁
      have hno : removedName jv = none := by simp [removedName, hname, hsecret, hkey]
      rw [hno]
      rw [removedBy_congr (send_subdevs w _)] at hrest
      exact ⟨hrest.subdevs, hrest.gwInfoTask, hrest.taskList⟩
    · rename_i name secret key hname hsecret hkey
      have hyes : removedName jv = some name := by simp [removedName, hname, hsecret, hkey]
      rw [hyes]
      apply ErasesAll.del_cons (r := env.save k)
      cases hs : w.productSubSearchByName name with
      | none =>
        rw [hs] at h₁
        cases h₁
        rw [productSubDel_of_none hs]
        exact hrest
      | some i =>
        rw [hs] at h₁
        cases h₁
        exact hrest
    · rename_i hno'
      cases h₁
      have hno : removedName jv = none := by
        unfold removedName
        split
        · rename_i name secret key h₁ h₂ h₃
          exact (hno' name secret key h₁ h₂ h₃).elim
        · rfl
      rw [hno]
      exact hrest

theorem World.ErasesAll.heap (he : ErasesAll erased w w') (task : TaskRef) : w'.sched.heap task =
    if task ∈ erased.map TaskRef.sub then .zero else w.sched.heap task := by
  cases task with
  | gwInfoTask =>
    rw [if_neg (by simp)]
    exact he.gwInfoTask
  | sub i =>
    have hsub := he.subdevs i
    have hm : TaskRef.sub i ∈ erased.map TaskRef.sub ↔ i ∈ erased := by simp
    unfold sched
    dsimp only
    rw [hsub]
    by_cases hi : i ∈ erased
    · rw [if_pos hi, if_pos (hm.mpr hi)]
      rfl
    · rw [if_neg hi, if_neg (hm.not.mpr hi)]

theorem World.ErasesAll.tasks (he : ErasesAll erased w w') (h : w.sched.Tasks l) :
    w'.sched.Tasks (cut (· ∈ erased.map TaskRef.sub) l) := by
  have hlist : w'.sched.taskList = w.sched.taskList := he.taskList
  unfold Sched.Tasks at h ⊢
  rw [hlist]
  apply h.cut
  · intro task ht
    rw [Sched.next, Sched.next, he.heap, if_neg ht]
  · intro task ht
    rw [Sched.next, he.heap, if_pos ht]
    rfl

theorem World.ErasesAll.open_iff (he : ErasesAll erased w w') :
    w'.Open i ↔ i ∉ erased ∧ w.Open i := by
  unfold Open
  rw [he.subdevs]
  split_ifs with hi
  · simp [hi, SubDev.zero]
  · simp [hi]

theorem World.ErasesAll.call (he : ErasesAll erased w w') (hi : i ∉ erased) :
    w'.sched.call (.sub i) = w.sched.call (.sub i) := by
  rw [Sched.call, Sched.call, he.heap, if_neg (by simpa using hi)]

theorem World.Relocking.of_erases (h : w.Relocking l) (he : ErasesAll erased w w')
    (hok : w.ErasesBehind erased) : w'.Relocking (cut (· ∈ erased.map TaskRef.sub) l) where
  tasks := he.tasks h.tasks
  calls task ht := by
    by_cases hm : task ∈ erased.map TaskRef.sub
    · left
      rw [Sched.call, he.heap, if_pos hm]
      rfl
    · rw [Sched.call, he.heap, if_neg hm]
      exact h.calls task (mem_of_mem_cut ht)
  pending i hi := by
    obtain ⟨hni, hopen⟩ := he.open_iff.mp hi
    obtain ⟨hm, hcall⟩ := h.pending i hopen
    refine ⟨?_, (he.call hni).symm ▸ hcall⟩
    obtain ⟨l₁, l₂, rfl⟩ := List.append_of_mem hm
    apply (mem_cut_iff h.tasks.nodup (by simpa using hni)).mpr
    intro q hq hbad
    obtain ⟨k, hk, rfl⟩ := List.mem_map.mp hbad
    exact hok i hopen hni l₁ l₂ h.tasks k hk hq

theorem World.Relocking.erasesBehind (h : w.Relocking l) (he : ErasesAll erased w w')
    (hw : w'.Relocks) : w.ErasesBehind erased := by
  intro i hopen hni l₁ l₂ hl k hk hm
  obtain rfl : l = l₁ ++ .sub i :: l₂ := h.tasks.unique hl
  obtain ⟨l', hl', hi, -⟩ := hw i (he.open_iff.mpr ⟨hni, hopen⟩)
  obtain rfl : l' = _ := hl'.unique (he.tasks h.tasks)
  exact (mem_cut_iff hl.nodup (by simpa using hni)).mp hi _ hm (List.mem_map_of_mem hk)

end Removal

section Runs

variable {env : Env} {w w' : World} {l : List TaskRef} {i : Slot} {task : TaskRef}

theorem World.TasksOnly.open_iff (h : TasksOnly w w') : w'.Open i ↔ w.Open i := by
  unfold Open
  rw [h.subdevs i]

theorem World.Relocking.congr (h : w.Relocking l) (hsub : w'.subdevs = w.subdevs)
    (hsched : w'.sched = w.sched) : w'.Relocking l where
  tasks := hsched ▸ h.tasks
  calls := hsched ▸ h.calls
  pending i hi := by
    unfold Open at hi
    rw [hsub] at hi
    rw [hsched]
    exact h.pending i hi

/-- The open devices but the one of a task have their resets pending. -/
structure World.RelockingBut (task : TaskRef) (w : World) (l : List TaskRef) : Prop where
  tasks : w.sched.Tasks l
  calls : ∀ q ∈ l, (w.sched.call q).func = none ∨ q.Call (w.sched.call q)
  pending : ∀ i, w.Open i → .sub i ≠ task →
    .sub i ∈ l ∧ TaskRef.Call (.sub i) (w.sched.call (.sub i))

theorem World.RelockingBut.schedule {k : ℕ} {ms : ℤ} {func : TaskFunc} {arg : Option Slot}
    (h : w.RelockingBut task l) (hcall : task.Call ⟨some func, arg, env.long (env.clock k), ms⟩)
    (hs : w.schedule env k task ms func arg = some w') : ∃ l', w'.Relocking l' := by
  have hlen : l.length ≤ fuel := h.tasks.nodup.length_le_card.trans card_taskRef.le
  obtain ⟨s, hs', ht', hcall'⟩ := Sched.schedueAdd_spec task h.tasks hlen (env.long (env.clock k))
    ms (some func) arg
  obtain rfl : w'.sched = s := Option.some.inj ((schedule_sched hs).symm.trans hs')
  have hself : task ∈ if task ∈ l then l else l ++ [task] := by
    split
    · assumption
    · simp
  have hold {q : TaskRef} (hq : q ∈ l) : q ∈ if task ∈ l then l else l ++ [task] := by
    split
    · exact hq
    · exact List.mem_append_left _ hq
  refine ⟨_, ht', ?_, ?_⟩
  · intro q hq
    rw [hcall']
    by_cases hqt : q = task
    · subst hqt
      rw [Function.update_self]
      exact Or.inr hcall
    · rw [Function.update_of_ne hqt]
      apply h.calls q
      split at hq
      · exact hq
      · exact (List.mem_append.mp hq).resolve_right fun hm => hqt (List.mem_singleton.mp hm)
  · intro i hi
    rw [hcall']
    by_cases hit : .sub i = task
    · subst hit
      rw [Function.update_self]
      exact ⟨hself, hcall⟩
    · rw [Function.update_of_ne hit]
      obtain ⟨hm, hci⟩ := h.pending i ((tasksOnly_schedule hs).open_iff.mp hi) hit
      exact ⟨hold hm, hci⟩

theorem World.RelockingBut.postLockState (h : w.RelockingBut (.sub i) l) (status : ℤ) :
    (w.postLockState i status).RelockingBut (.sub i) l := by
  constructor
  · rw [sched_postLockState]
    exact h.tasks
  · rw [sched_postLockState]
    exact h.calls
  · intro k hk hne
    rw [sched_postLockState]
    have hki : k ≠ i := by
      rintro rfl
      exact hne rfl
    unfold Open at hk
    rw [postLockState_subdevs, Function.update_of_ne hki] at hk
    exact h.pending k hk hne

theorem World.Relocking.but (h : w.Relocking l) (task : TaskRef) : w.RelockingBut task l :=
  ⟨h.tasks, h.calls, fun i hi _ => h.pending i hi⟩

theorem World.Relocking.of_opened (h : w.Relocking l) (hs : w.doorOpened env i = some w') :
    ∃ l', w'.Relocking l' := by
  have hcall : TaskRef.Call (.sub i)
      ⟨some .subdevTimeoutFunc, some i, env.long (env.clock 0), 5000⟩ := ⟨rfl, rfl⟩
  exact ((h.but (.sub i)).postLockState 1).schedule hcall hs

theorem World.RelockingBut.reset (h : w.RelockingBut (.sub i) l) :
    (w.postLockState i 0).Relocking l := by
  have hbut := h.postLockState 0
  refine ⟨hbut.tasks, hbut.calls, ?_⟩
  intro k hk
  apply hbut.pending k hk
  rintro ⟨⟩
  have hstatus := hk.2
  rw [postLockState_subdevs, Function.update_self] at hstatus
  exact zero_ne_one hstatus

theorem World.Relocking.of_del {q : TaskRef} (h : w.Relocking l) (hdel : w.schedueDel q = some w') :
    w'.RelockingBut q (l.erase q) ∧ w'.sched.call = w.sched.call := by
  obtain ⟨s, hs, ht, hcall⟩ := Sched.schedueDel_spec q h.tasks h.length_le
  obtain rfl : w'.sched = s := Option.some.inj ((schedueDel_sched hdel).symm.trans hs)
  refine ⟨⟨ht, ?_, ?_⟩, hcall⟩
  · rw [hcall]
    exact fun p hp => h.calls p (List.mem_of_mem_erase hp)
  · intro i hi hne
    obtain ⟨hm, hci⟩ := h.pending i ((tasksOnly_schedueDel hdel).open_iff.mp hi)
    rw [hcall]
    exact ⟨(List.mem_erase_of_ne hne).mpr hm, hci⟩

theorem World.Relocking.first_mem {q : TaskRef} (h : w.Relocking l)
    (hfirst : w.sched.schedueFirstTaskToExec fuel env.long = some (some q)) : q ∈ l := by
  have hspec : (l = [] ∧ w.sched.schedueFirstTaskToExec fuel env.long = some none) ∨
      ∃ q ∈ l, w.sched.schedueFirstTaskToExec fuel env.long = some (some q) :=
    Sched.schedueFirstTaskToExec_spec h.tasks h.length_le
  rcases hspec with ⟨-, he⟩ | ⟨q', hq', he⟩
  · exact absurd (hfirst.symm.trans he) (by simp)
  · obtain rfl : q = q' := by simpa using hfirst.symm.trans he
    exact hq'

theorem gwInfoTask_of_call {q : TaskRef} {c : Call TaskFunc Slot}
    (h : c.func = none ∨ q.Call c) (hfunc : c.func = some .gwInfoFunc) : q = .gwInfoTask := by
  cases q with
  | gwInfoTask => rfl
  | sub i =>
    rcases h with hn | hsub
    · cases hfunc.symm.trans hn
    · cases hfunc.symm.trans hsub.1

theorem sub_of_call {q : TaskRef} {c : Call TaskFunc Slot}
    (h : c.func = none ∨ q.Call c) (hfunc : c.func = some .subdevTimeoutFunc)
    (harg : c.arg = some i) : q = .sub i := by
  cases q with
  | gwInfoTask =>
    rcases h with hn | hg
    · cases hfunc.symm.trans hn
    · cases hfunc.symm.trans hg
  | sub j =>
    rcases h with hn | hsub
    · cases hfunc.symm.trans hn
    · rw [Option.some.inj (harg.symm.trans hsub.2)]

theorem World.RelockingBut.gwInfoFunc {k : ℕ} (h : w.RelockingBut .gwInfoTask l)
    (hs : w.gwInfoFunc env k = some w') : ∃ l', w'.Relocking l' := by
  have hcall (ms : ℤ) : TaskRef.Call .gwInfoTask
      ⟨some .gwInfoFunc, none, env.long (env.clock k), ms⟩ := rfl
  obtain ⟨sdk, hsched⟩ := gwInfoFunc_cases hs
  have hpost : (w.setSdk sdk).RelockingBut .gwInfoTask l := ⟨h.tasks, h.calls, h.pending⟩
  exact hpost.schedule (hcall _) hsched

theorem World.Relocking.of_runFirstTask (h : w.Relocking l) (hr : w.runFirstTask env = some w') :
    ∃ l', w'.Relocking l' := by
  obtain ⟨q, w₁, hfirst, hdel, hrun⟩ := runFirstTask_cases hr
  obtain ⟨hbut, hcall⟩ := h.of_del hdel
  -- the call of the task decides which task it is
  have hqcall := h.calls q (h.first_mem hfirst)
  rw [← hcall] at hqcall
  rcases runTask_cases hrun with ⟨hfunc, hinfo⟩ | ⟨i, hfunc, harg, rfl⟩
  · obtain rfl := gwInfoTask_of_call hqcall hfunc
    exact hbut.gwInfoFunc hinfo
  · obtain rfl := sub_of_call hqcall hfunc harg
    exact ⟨_, hbut.reset⟩

theorem World.Relocking.of_taskRun (h : w.Relocking l)
    (hr : w.aflyHandlerTaskRun env = some w') : ∃ l', w'.Relocking l' := by
  obtain ⟨delt, -, ⟨-, rfl⟩ | ⟨w₁, delt', -, hrun, -, rfl⟩⟩ := aflyHandlerTaskRun_cases hr
  · exact ⟨l, h⟩
  have h₁ : ∃ l', w₁.Relocking l' := by
    rcases hrun with ⟨-, hfirst⟩ | ⟨-, rfl⟩
    · exact h.of_runFirstTask hfirst
    · exact ⟨l, h⟩
  split
  · exact h₁
  · obtain ⟨l', hl'⟩ := h₁
    exact ⟨l', hl'.congr rfl rfl⟩

end Runs

section Removals

variable {env : Env} {w w' w'' : World} {i : Slot} {name mac : CStr} {r : SaveResult}

theorem World.ErasesAll.congr_left {erased : List Slot} (h : ErasesAll erased w' w'')
    (hs : w'.subdevs = w.subdevs) (hg : w'.gwInfoTask = w.gwInfoTask)
    (hl : w'.taskList = w.taskList) : ErasesAll erased w w'' where
  subdevs k := by rw [h.subdevs, hs]
  gwInfoTask := h.gwInfoTask.trans hg
  taskList := h.taskList.trans hl

theorem erasesAll_del_found (h : w.productSubSearchByName name = some i)
    (hs : w'.subdevs = w.subdevs) (hg : w'.gwInfoTask = w.gwInfoTask)
    (hl : w'.taskList = w.taskList) :
    ErasesAll (w.removedBy [name]) w (w'.productSubDel r (w.subdevs i).deviceName).1 := by
  rw [name_of_search h, ← removedBy_congr hs]
  exact erasesAll_del.congr_left hs hg hl

theorem erasesAll_clr : ErasesAll (List.finRange 40) w (w.productSubClr r).1 where
  subdevs k := by
    rw [productSubClr_subdevs, if_pos (List.mem_finRange k)]
  gwInfoTask := by
    unfold productSubClr productSubSaveAll
    dsimp only
    split_ifs <;> rfl
  taskList := by
    unfold productSubClr productSubSaveAll
    dsimp only
    split_ifs <;> rfl

theorem erasesAll_xdel : ErasesAll (w.removedBy [mac]) w (w.doCmdXdel env mac) := by
  unfold doCmdXdel
  cases h : w.productSubSearchByName mac with
  | none =>
    rw [removedBy_of_none h]
    exact .of_eq rfl rfl rfl
  | some i => exact erasesAll_del_found h rfl rfl rfl

theorem erasesAll_subdevDeleted (key : CStr) : ErasesAll (w.removedBy [name]) w
    (w.eventSubdevDeleted env (some key) (some name)) := by
  unfold eventSubdevDeleted
  dsimp only
  cases h : w.productSubSearchByName name with
  | none =>
    rw [removedBy_of_none h]
    exact .of_eq rfl rfl rfl
  | some i => exact erasesAll_del_found h rfl rfl rfl

theorem removed_unreg (h : w.productSubSearchByName name = some i) :
    w.removed (env, .nxpUnreg name) =
      if (w.subdevs i).devid ≠ 0 ∧ env.destroy = 0 ∧ env.unregister = 0 then [i] else [] := by
  unfold removed
  dsimp only
  rw [h]

theorem erasesAll_unreg :
    ErasesAll (w.removed (env, .nxpUnreg name)) w (w.aflyNxpUnreg env name) := by
  rcases Option.eq_none_or_eq_some (w.productSubSearchByName name) with h | ⟨i, h⟩
  · have hno : w.removed (env, .nxpUnreg name) = [] := by
      unfold removed
      dsimp only
      rw [h]
    unfold aflyNxpUnreg
    rw [hno, h]
    exact .of_eq rfl rfl rfl
  · unfold aflyNxpUnreg
    rw [removed_unreg h, h]
    dsimp only
    by_cases hd : (w.subdevs i).devid = 0
    · rw [if_pos hd, if_neg (by simp [hd])]
      exact .of_eq rfl rfl rfl
    rw [if_neg hd]
    by_cases hdestroy : env.destroy = 0
    · rw [if_neg (not_not.mpr hdestroy)]
      by_cases hunreg : env.unregister = 0
      · rw [if_neg (not_not.mpr hunreg), if_pos ⟨hd, hdestroy, hunreg⟩]
        have hone : w.removedBy [name] = [i] := removedBy_of_search h
        rw [← hone]
        exact erasesAll_del_found h rfl rfl rfl
      · rw [if_pos hunreg, if_neg (by simp [hunreg])]
        exact .of_eq rfl rfl rfl
    · rw [if_pos hdestroy, if_neg (by simp [hdestroy])]
      exact .of_eq rfl rfl rfl

theorem erasesAll_delRequest {input : CStr} {ret : ℤ}
    (h : w.gatewayDelSubdev env input = some (w', ret)) :
    ErasesAll (w.removedBy (removedNames env input)) w w' := by
  unfold gatewayDelSubdev at h
  unfold removedNames
  cases he : requestList env input with
  | error ret' =>
    rw [he] at h
    cases h
    exact .of_eq rfl rfl rfl
  | ok l =>
    rw [he] at h
    obtain ⟨⟨w₁, flag⟩, h₁, he'⟩ := Option.map_eq_some_iff.mp h
    cases he'
    have hall := erasesAll_delSubdevs h₁
    cases flag with
    | false => exact hall
    | true => exact ⟨hall.subdevs, hall.gwInfoTask, hall.taskList⟩

theorem erasesAll_removed {op : Op} (hop : op.Removes) (h : w.step (env, op) = some w') :
    ErasesAll (w.removed (env, op)) w w' := by
  cases op with
  | subDel name =>
    cases h
    exact erasesAll_del
  | subClr =>
    cases h
    exact erasesAll_clr
  | clrSubDev =>
    cases h
    have hclr := erasesAll_clr (w := w) (r := env.save 0)
    unfold gatewayClrSubdev
    dsimp only
    split
    · exact hclr
    · exact ⟨hclr.subdevs, hclr.gwInfoTask, hclr.taskList⟩
  | delSubDev input =>
    obtain ⟨⟨w₁, ret⟩, h₁, rfl⟩ := Option.map_eq_some_iff.mp h
    exact erasesAll_delRequest h₁
  | subdevDeleted key name =>
    cases h
    cases key with
    | none => exact .of_eq rfl rfl rfl
    | some key =>
      cases name with
      | none => exact .of_eq rfl rfl rfl
      | some name => exact erasesAll_subdevDeleted key
  | xdel mac =>
    cases h
    exact erasesAll_xdel
  | nxpUnreg name =>
    cases h
    exact erasesAll_unreg
  | _ => exact hop.elim

end Removals

section Restart

variable {env : Env} {w w' : World} {i : Slot}

variable (env) in
theorem load_table {w₁ : World} (hdb : w₁.db = w.db)
    (hsub : ∀ k, (w₁.subdevs k).use = (initialSubdevs k).use ∧
      (w₁.subdevs k).lock = (initialSubdevs k).lock) (i : Slot) :
    ((w₁.productSubLoadAll env).1.subdevs i).use = (w.loadedTable env i).use ∧
      ((w₁.productSubLoadAll env).1.subdevs i).lock = (w.loadedTable env i).lock := by
  unfold productSubLoadAll loadedTable
  rw [hdb]
  cases w.db with
  | missing =>
    dsimp only
    rw [productSubSaveAll_subdevs]
    exact ⟨rfl, rfl⟩
  | broken =>
    dsimp only
    split
    · unfold productSubClrIdAfterLoad
      dsimp only
      split <;> exact ⟨rfl, rfl⟩
    · exact hsub i
  | whole t =>
    dsimp only
    split
    · unfold productSubClrIdAfterLoad
      dsimp only
      split <;> exact ⟨rfl, rfl⟩
    · exact hsub i

theorem restart_spec (h : w.restart env = some w') :
    w'.sched.Tasks [.gwInfoTask] ∧ TaskRef.Call .gwInfoTask (w'.sched.call .gwInfoTask) ∧
      ∀ i, w'.Open i ↔ (w.loadedTable env i).use ≠ 0 ∧
        (w.loadedTable env i).lock.lockStatus = 1 := by
  obtain ⟨w₁, h₁, rfl⟩ := Option.map_eq_some_iff.mp h
  have honly := tasksOnly_schedule h₁
  have hsub : ∀ k, (w₁.subdevs k).use = (initialSubdevs k).use ∧
      (w₁.subdevs k).lock = (initialSubdevs k).lock := by
    intro k
    rw [honly.subdevs k]
    exact ⟨rfl, rfl⟩
  have hempty : w.newProcess.sched.Tasks [] := rfl
  obtain ⟨s, hs, ht, hcall⟩ := Sched.schedueAdd_spec TaskRef.gwInfoTask hempty
    (Nat.zero_le World.fuel) (env.long (env.clock 0)) 1000 (some .gwInfoFunc) none
  obtain rfl : w₁.sched = s := Option.some.inj ((schedule_sched h₁).symm.trans hs)
  have hdb : w₁.db = w.db := honly.db
  have hload := load_table env hdb hsub
  obtain ⟨hg, hl, -⟩ := productSubLoadAll_tasks env w₁
  refine ⟨?_, ?_, ?_⟩
  · rw [if_neg (by simp)] at ht
    obtain ⟨hhead, hnext⟩ := ht
    have hnext' : w₁.gwInfoTask.next = none := hnext
    refine ⟨hl.trans hhead, ?_⟩
    rw [← hg] at hnext'
    exact hnext'
  · have he : (w₁.productSubLoadAll env).1.sched.call .gwInfoTask = w₁.sched.call .gwInfoTask :=
      congrArg SchduleTask.call hg
    rw [he, hcall, Function.update_self]
    rfl
  · intro i
    unfold Open
    rw [(hload i).1, (hload i).2]

end Restart

section LifeSteps

variable {env : Env} {w w' : World} {l : List TaskRef} {op : Op} {e : Env × LifeEvent}

theorem onDevices_of_onLocks (hop : (LifeEvent.handle op).OnLocks) (hrem : ¬ op.Removes) :
    op.OnDevices := by
  cases op with
  | schedueAdd | schedueDel | loadAll => exact hop.elim
  | subDel | subClr | clrSubDev | delSubDev | subdevDeleted | xdel | nxpUnreg =>
    exact (hrem trivial).elim
  | _ => trivial

theorem World.Relocking.of_step (h : w.Relocking l) (hop : op.OnDevices)
    (hreg : ∀ r, op = .nxpReg r → r.EndsBeforeLock) (hs : w.step (env, op) = some w') :
    ∃ l', w'.Relocking l' := by
  have hconfirmed (sd : SubDev) : KeepsRelock sd { sd with dynamic := 1 } :=
    ⟨rfl, fun hu hs => ⟨hu, hs⟩⟩
  rcases step_frame frame_relock hconfirmed hop hreg hs with hf | ⟨i, w₁, h₁, hf⟩ | hrun
  · exact ⟨l, h.of_frame hf⟩
  · obtain ⟨l', hl'⟩ := h.of_opened h₁
    exact ⟨l', hl'.of_frame hf⟩
  · exact h.of_taskRun hrun

theorem erasesBehind_nil : w.ErasesBehind [] := by
  intro i _ _ l₁ l₂ _ k hk
  exact absurd hk (by simp)

theorem keepsRelocks_of_not_removes (hrem : ¬ op.Removes) (hreg : ∀ r, op ≠ .nxpReg r) :
    w.KeepsRelocks (env, .handle op) := by
  cases op with
  | subDel | subClr | clrSubDev | delSubDev | subdevDeleted | xdel | nxpUnreg =>
    exact (hrem trivial).elim
  | nxpReg r => exact (hreg r rfl).elim
  | _ => exact erasesBehind_nil

theorem keepsRelocks_of_removes (hrem : op.Removes) :
    w.KeepsRelocks (env, .handle op) ↔ w.ErasesBehind (w.removed (env, op)) := by
  cases op with
  | subDel | subClr | clrSubDev | delSubDev | subdevDeleted | xdel | nxpUnreg => exact Iff.rfl
  | _ => exact hrem.elim

/-- An event keeps every reset, when it meets the condition. -/
theorem relocking_step (h : w.Relocking l) (hop : e.2.OnLocks) (hok : w.KeepsRelocks e)
    (hs : w.lifeStep e = some w') : ∃ l', w'.Relocking l' := by
  obtain ⟨env, event⟩ := e
  cases event with
  | restart =>
    obtain ⟨ht, hc, hopen⟩ := restart_spec hs
    refine ⟨[.gwInfoTask], ht, ?_, ?_⟩
    · intro task hm
      rw [List.mem_singleton.mp hm]
      exact Or.inr hc
    · intro i hi
      obtain ⟨hu, hst⟩ := (hopen i).mp hi
      exact absurd hst (hok i hu)
  | handle op =>
    by_cases hrem : op.Removes
    · have he := erasesAll_removed hrem hs
      exact ⟨_, h.of_erases he ((keepsRelocks_of_removes hrem).mp hok)⟩
    · refine h.of_step (onDevices_of_onLocks hop hrem) ?_ hs
      rintro r rfl
      exact hok

theorem keepsRelocks_of_relocks (h : w.Relocking l) (hreg : ∀ r, e.2 ≠ .handle (.nxpReg r))
    (hs : w.lifeStep e = some w') (hw : w'.Relocks) : w.KeepsRelocks e := by
  obtain ⟨env, event⟩ := e
  cases event with
  | restart =>
    obtain ⟨ht, -, hopen⟩ := restart_spec hs
    intro i hu hst
    obtain ⟨l', hl', hi, -⟩ := hw i ((hopen i).mpr ⟨hu, hst⟩)
    obtain rfl : l' = [.gwInfoTask] := hl'.unique ht
    exact absurd hi (by simp)
  | handle op =>
    by_cases hrem : op.Removes
    · exact (keepsRelocks_of_removes hrem).mpr (h.erasesBehind (erasesAll_removed hrem hs) hw)
    · exact keepsRelocks_of_not_removes hrem fun r hr => hreg r (congrArg _ hr)

end LifeSteps

/-- In every run whose removals have no task of a removed device in front of a reset, whose
restarts load no open device and whose registrations end before the lock status, every open device
is going to be reset. The first event without strings that misses the condition breaks this. -/
theorem open_locks_relock {w₀ w : World} (h₀ : w₀.taskList = none) (hclosed : ∀ i, ¬ w₀.Open i)
    (hr : Reachable lifeStep (fun w e => e.2.OnLocks ∧ w.KeepsRelocks e) w₀ w) :
    w.Relocks ∧ ∀ e w', e.2.OnLocks → (∀ r, e.2 ≠ .handle (.nxpReg r)) →
      w.lifeStep e = some w' → (w'.Relocks ↔ w.KeepsRelocks e) := by
  have hstart : ∃ l, w₀.Relocking l :=
    ⟨[], h₀, by simp, fun i hi => absurd hi (hclosed i)⟩
  obtain ⟨l, hI⟩ : ∃ l, w.Relocking l :=
    hr.invariant (I := fun w => ∃ l, w.Relocking l) hstart
      fun _ _ _ ⟨_, hI⟩ hok hs => relocking_step hI hok.1 hok.2 hs
  refine ⟨hI.relocks, ?_⟩
  intro e w' hop hreg hs
  constructor
  · exact keepsRelocks_of_relocks hI hreg hs
  · intro hok
    obtain ⟨l', hI'⟩ := relocking_step hI hop hok hs
    exact hI'.relocks

/-- A new gateway gets its first device, whose door is then opened. -/
def openFirst : List (Env × LifeEvent) :=
  [(.quiet, .restart), (.adding, .handle (.addSubDev addSubDevText)),
   (.quiet, .handle (.rptEvent newLock.name eventNxpAddDelPassRet (ackBuf 1 888888 0)))]

/-- The opened door is going to be closed. -/
theorem open_locks_relock_first : ∃ w, run lifeStep boot openFirst = some w ∧ w.Open 0 ∧
    w.Relocks := by
  obtain ⟨w, hw, ho⟩ : ∃ w, run lifeStep boot openFirst = some w ∧
      ((w.subdevs 0).use, (w.subdevs 0).lock.lockStatus) = (1, 1) :=
    Option.map_eq_some_iff.mp (by decide +kernel)
  simp only [Prod.mk.injEq] at ho
  have hclosed : ∀ i, ¬ boot.Open i := fun i hi => hi.1 rfl
  have hrestart : boot.KeepsRelocks (.quiet, .restart) := fun i hu => absurd rfl hu
  have hcons : (boot.lifeStep (.quiet, .restart)).bind
      (fun w => run lifeStep w openFirst.tail) = some w := hw
  obtain ⟨w₁, h₁, hrun⟩ := Option.bind_eq_some_iff.mp hcons
  have hreach : Reachable lifeStep (fun w e => e.2.OnLocks ∧ w.KeepsRelocks e) boot w₁ :=
    Reachable.start.next (e := (.quiet, .restart)) ⟨trivial, hrestart⟩ h₁
  refine ⟨w, hw, ⟨by omega, ho.2⟩, ?_⟩
  refine (open_locks_relock rfl hclosed (reachable_of_run hrun ?_ hreach)).1
  intro e he t
  simp only [openFirst, List.tail_cons, List.mem_cons, List.not_mem_nil, or_false] at he
  rcases he with rfl | rfl
  · exact ⟨trivial, erasesBehind_nil⟩
  · exact ⟨trivial, erasesBehind_nil⟩

/-- The record of an opened lock is saved for its dynamic password, and the gateway starts anew: the
lock stays open. -/
theorem restart_forgets_relock :
    ¬ ∀ w, Reachable lifeStep (fun _ e => e.2.OnLocks) boot w → w.Relocks := by
  intro h
  obtain ⟨w, hw, ho⟩ : ∃ w, run lifeStep boot (openFirst ++
        [(.quiet, .handle (.rptEvent newLock.name eventNxpAddDelPassRet (ackBuf 1 999999 0))),
          (.quiet, .restart)]) = some w ∧
      ((w.subdevs 0).use, (w.subdevs 0).lock.lockStatus, w.taskList, w.gwInfoTask.next) =
        (1, 1, some .gwInfoTask, none) :=
    Option.map_eq_some_iff.mp (by decide +kernel)
  simp only [Prod.mk.injEq] at ho
  obtain ⟨huse, hstatus, hhead, hnext⟩ := ho
  have hreach : Reachable lifeStep (fun _ e => e.2.OnLocks) boot w :=
    reachable_of_run hw (by simp [openFirst, LifeEvent.OnLocks]) .start
  obtain ⟨l, hl, hm, -⟩ := h w hreach 0 ⟨by omega, hstatus⟩
  have hlone : w.sched.Tasks [.gwInfoTask] := ⟨hhead, hnext⟩
  obtain rfl : l = [.gwInfoTask] := hl.unique hlone
  exact absurd hm (by simp)

end Afly
