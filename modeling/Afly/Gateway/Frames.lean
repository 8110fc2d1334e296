import Afly.Gateway.Events
import Afly.Gateway.Step

/-! # Frames of the handlers

Most handlers write a few members of one record and leave the others alone. A
relation between the old and the new record that admits these edits holds for
every record over every such handler, with the strings that the relation asks
for. The task list stays as it is, except where an event opens a door, a task
runs or a device is removed.
-/

namespace Afly

/-- Edits that leave the use, the task, the dynamic password and the lock status alone. -/
structure SameState (sd sd' : SubDev) : Prop where
  use : sd'.use = sd.use
  task : sd'.task = sd.task
  dynamic : sd'.dynamic = sd.dynamic
  interval : sd'.interval = sd.interval
  lockStatus : sd'.lock.lockStatus = sd.lock.lockStatus

theorem SameState.refl (sd : SubDev) : SameState sd sd := ⟨rfl, rfl, rfl, rfl, rfl⟩

/-- A relation on records that respects the edits of the handlers, for added devices and for
reports whose strings satisfy a condition. -/
structure Frame (added : CStr → CStr → Option CStr → Prop) (reported : NxpReg → Prop)
    (R : SubDev → SubDev → Prop) : Prop where
  trans : ∀ {a b c}, R a b → R b c → R a c
  same : ∀ {a b}, SameState a b → R a b
  asked : ∀ a seed, R a { a with seed := seed, interval := 30 * 60 }
  occupy : ∀ {a b name key secret}, added name key secret → a.use = 0 →
    a.occupy name key secret = some b → R a b
  report : ∀ {a b r}, reported r → a.report r = some b → R a b

/-- Every record is in the relation, and the head of the task list stays. -/
structure FrameStep (R : SubDev → SubDev → Prop) (w w' : World) : Prop where
  subdevs : ∀ i, R (w.subdevs i) (w'.subdevs i)
  gwInfoTask : w'.gwInfoTask = w.gwInfoTask
  taskList : w'.taskList = w.taskList

/-- The strings of an element of `AddSubDev` that adds a device. -/
def AddedBy (added : CStr → CStr → Option CStr → Prop) (jv : Json) : Prop :=
  ∀ name secret key, jsonGetString jv "deviceName" = some name →
    jsonGetString jv "deviceSecret" = some secret → jsonGetString jv "productKey" = some key →
    added name key (some secret)

open World

section Frames

variable {added : CStr → CStr → Option CStr → Prop} {reported : NxpReg → Prop}
  {R : SubDev → SubDev → Prop} {env : Env} {w w' w'' : World} {i : Slot} {sd : SubDev}

theorem Frame.refl (hR : Frame added reported R) (sd : SubDev) : R sd sd := hR.same (.refl sd)

theorem FrameStep.trans (hR : Frame added reported R) (h : FrameStep R w w')
    (h' : FrameStep R w' w'') : FrameStep R w w'' where
  subdevs i := hR.trans (h.subdevs i) (h'.subdevs i)
  gwInfoTask := h'.gwInfoTask.trans h.gwInfoTask
  taskList := h'.taskList.trans h.taskList

theorem FrameStep.of_eq (hR : Frame added reported R) (hs : w'.subdevs = w.subdevs)
    (hg : w'.gwInfoTask = w.gwInfoTask) (hl : w'.taskList = w.taskList) : FrameStep R w w' :=
  ⟨fun i => by rw [hs]; exact hR.refl _, hg, hl⟩

theorem FrameStep.refl (hR : Frame added reported R) (w : World) : FrameStep R w w :=
  .of_eq hR rfl rfl rfl

theorem frameStep_setDev (hR : Frame added reported R) (h : R (w.subdevs i) sd) :
    FrameStep R w (w.setDev i sd) :=
  ⟨rel_update hR.refl h, rfl, rfl⟩

theorem frameStep_save (hR : Frame added reported R) (i : Slot) (r : SaveResult) :
    FrameStep R w (w.productSubSave i r) := by
  unfold productSubSave
  split
  · exact .of_eq hR rfl rfl rfl
  · exact .refl hR w

theorem frameStep_addPass (hR : Frame added reported R) (mac : CStr)
    (id type suspend startTime endTime val₁ val₂ : ℤ) :
    FrameStep R w (w.nxpLockAddPass mac id type suspend startTime endTime val₁ val₂) := by
  unfold nxpLockAddPass
  split
  · exact .refl hR w
  · exact .of_eq hR rfl rfl rfl

theorem frameStep_provision (hR : Frame added reported R) : FrameStep R w (w.provision env i) := by
  have h := frameStep_addPass (w := w) hR (w.subdevs i).deviceName 999999 1 0
    (int32 (env.time 1)) (int32 (env.time 2 + validity)) (int32 (env.time 0)) (30 * 60)
  apply h.trans hR
  apply frameStep_setDev hR
  rw [nxpLockAddPass_subdevs]
  exact hR.asked _ _

theorem frameStep_add (hR : Frame added reported R) {name key : CStr} {secret : Option CStr}
    {r : SaveResult} {ret : ℤ} (hadd : added name key secret)
    (h : w.productSubAdd r name key secret = some (w', ret)) : FrameStep R w w' := by
  rcases productSubAdd_cases h with ⟨j, sd, -, hsd, rfl⟩ | ⟨-, -, rfl⟩ | ⟨j, sd, -, hm, hsd, rfl⟩
  · apply frameStep_setDev hR
    apply hR.same
    unfold SubDev.assign at hsd
    split at hsd
    · cases hsd
      exact ⟨rfl, rfl, rfl, rfl, rfl⟩
    · cases hsd
  · exact .refl hR _
  · exact (frameStep_setDev hR (hR.occupy hadd (use_of_malloc hm) hsd)).trans hR
      (frameStep_save hR j r)

theorem frameStep_addSubdevs (hR : Frame added reported R) {k : ℕ} {l : List Json} {flag : Bool}
    (hl : ∀ jv ∈ l, AddedBy added jv) (h : eachSubdev (addSubdev env) k l w = some (w', flag)) :
    FrameStep R w w' := by
  induction l generalizing k w flag with
  | nil => cases h; exact .refl hR _
  | cons jv l ih =>
    rw [eachSubdev] at h
    obtain ⟨⟨w₁, f₁⟩, h₁, h⟩ := Option.bind_eq_some_iff.mp h
    obtain ⟨⟨w₂, f₂⟩, h₂, h⟩ := Option.bind_eq_some_iff.mp h
    cases h
    refine FrameStep.trans hR ?_ (ih (fun jv' hm => hl jv' (List.mem_cons_of_mem _ hm)) h₂)
    have hjv := hl jv List.mem_cons_self
    unfold addSubdev at h₁
    split at h₁
    · cases h₁
      exact .of_eq hR rfl rfl rfl
    · rename_i name sec key hname hsec hkey
      split at h₁
      · cases h₁
        exact .refl hR _
      · obtain ⟨⟨w₃, ret⟩, h₃, he⟩ := Option.map_eq_some_iff.mp h₁
        cases he
        exact frameStep_add hR (hjv name sec key hname hsec hkey) h₃
    · cases h₁
      exact .refl hR _

theorem frameStep_gatewayAddSubdev (hR : Frame added reported R) {input : CStr} {ret : ℤ}
    (hl : ∀ l, requestList env input = .ok l → ∀ jv ∈ l, AddedBy added jv)
    (h : w.gatewayAddSubdev env input = some (w', ret)) : FrameStep R w w' := by
  unfold gatewayAddSubdev at h
  split at h
  · cases h
    exact .refl hR _
  · rename_i l hreq
    obtain ⟨⟨w₁, flag⟩, h₁, he⟩ := Option.map_eq_some_iff.mp h
    cases he
    apply (frameStep_addSubdevs hR (hl l hreq) h₁).trans hR
    split
    · exact .of_eq hR rfl rfl rfl
    · exact .refl hR _

theorem frameStep_createHandle (hR : Frame added reported R) :
    FrameStep R w (w.createHandle env i) := by
  unfold createHandle
  split
  · exact .refl hR w
  · exact ⟨rel_update hR.refl (hR.same ⟨rfl, rfl, rfl, rfl, rfl⟩), rfl, rfl⟩

theorem frameStep_syncLogin (hR : Frame added reported R) (online : ℤ) :
    FrameStep R w (w.syncLogin env i online) := by
  refine ⟨?_, ?_, ?_⟩
  · rw [syncLogin_subdevs]
    exact rel_update hR.refl (hR.same ⟨rfl, rfl, rfl, rfl, rfl⟩)
  · unfold syncLogin
    dsimp only
    split_ifs <;> rfl
  · unfold syncLogin
    dsimp only
    split_ifs <;> rfl

theorem frameStep_registerRecord (hR : Frame added reported R) {r : NxpReg} {found : Option Slot}
    (hadd : ∀ spk ∈ spks, added r.name spk.productKey none)
    (h : w.registerRecord env r = some (w', found)) : FrameStep R w w' := by
  unfold registerRecord at h
  split at h
  · cases h
    exact .refl hR _
  · split at h
    · cases h
      exact .of_eq hR rfl rfl rfl
    · rename_i spk hspk
      obtain ⟨⟨w₁, ret⟩, h₁, he⟩ := Option.map_eq_some_iff.mp h
      cases he
      exact frameStep_add hR (hadd spk (List.mem_of_find?_eq_some hspk)) h₁

theorem frameStep_nxpReg (hR : Frame added reported R) {r : NxpReg}
    (hadd : ∀ spk ∈ spks, added r.name spk.productKey none) (hrep : reported r)
    (h : w.aflyNxpReg env r = some w') : FrameStep R w w' := by
  unfold aflyNxpReg at h
  obtain ⟨⟨w₁, found⟩, h₁, h⟩ := Option.bind_eq_some_iff.mp h
  apply (frameStep_registerRecord hR hadd h₁).trans hR
  cases found with
  | none => cases h; exact .refl hR _
  | some i =>
    have hopen : FrameStep R w₁ (w₁.openHandle env i).1 := by
      unfold openHandle
      split_ifs
      · exact .refl hR _
      · exact .refl hR _
      · exact frameStep_createHandle hR
    apply hopen.trans hR
    dsimp only at h
    split at h
    · obtain ⟨w₂, h₂, rfl⟩ := Option.map_eq_some_iff.mp h
      refine FrameStep.trans hR ?_ (frameStep_syncLogin hR r.online)
      obtain ⟨sd, hsd, rfl⟩ := Option.map_eq_some_iff.mp h₂
      have hstore := (frameStep_setDev hR (hR.report hrep hsd)).trans hR
        (frameStep_save hR i (env.save 1))
      dsimp only
      split
      · exact hstore.trans hR (frameStep_provision hR)
      · exact hstore
    · cases h
      exact .refl hR _

theorem frameStep_uptOnline (hR : Frame added reported R) (s : NxpStatus) :
    FrameStep R w (w.aflyNxpUptOnline env s) := by
  unfold aflyNxpUptOnline
  split
  · exact .refl hR _
  · split
    · exact .refl hR _
    · rename_i i _ _
      have hstore : FrameStep R w (w.storeStatus i s) := by
        apply frameStep_setDev hR
        apply hR.same
        dsimp only
        split <;> exact ⟨rfl, rfl, rfl, rfl, rfl⟩
      exact (hstore.trans hR (frameStep_save hR i _)).trans hR (frameStep_syncLogin hR s.online)

end Frames

section Requests

variable {added : CStr → CStr → Option CStr → Prop} {reported : NxpReg → Prop}
  {R : SubDev → SubDev → Prop} {env : Env} {w w' : World} {i : Slot} {input : CStr} {ret : ℤ}

theorem frameStep_setKeys (hR : Frame added reported R) (keys : Fin 4 → KeyBank) :
    FrameStep R w (w.setDev i ((w.subdevs i).setKeys keys)) :=
  frameStep_setDev hR (hR.same ⟨rfl, rfl, rfl, rfl, rfl⟩)

theorem frameStep_send (hR : Frame added reported R) (cmd : NxpCmd) : FrameStep R w (w.send cmd) :=
  .of_eq hR rfl rfl rfl

theorem frameStep_addKey (hR : Frame added reported R)
    (h : w.subdevAddKey env i input = some (w', ret)) : FrameStep R w w' := by
  obtain ⟨r, -, he⟩ := Option.map_eq_some_iff.mp h
  cases r with
  | error ret' => cases he; exact .refl hR _
  | ok req =>
    dsimp only at he
    split at he
    · cases he
      exact .refl hR _
    · rename_i sd j ha
      cases he
      have hset : FrameStep R w (w.setDev i sd) := by
        obtain ⟨-, rfl⟩ := addKeyWaitAck_eq_some_iff.mp ha
        exact frameStep_setKeys hR _
      apply hset.trans hR
      unfold sendAddKey
      dsimp only
      split <;> exact frameStep_addPass hR ..

theorem frameStep_clrPass (hR : Frame added reported R) (mac : CStr) (type : ℤ) :
    FrameStep R w (w.nxpLockClrPass mac type) := by
  unfold nxpLockClrPass
  split
  · exact .refl hR w
  · exact frameStep_send hR _

theorem frameStep_delKey (hR : Frame added reported R)
    (h : w.subdevDelKey env i input = some (w', ret)) : FrameStep R w w' := by
  unfold subdevDelKey at h
  split at h
  · cases h
    exact .refl hR _
  · dsimp only at h
    split at h
    · cases h
      exact .refl hR _
    · obtain ⟨keyID, -, he⟩ := Option.map_eq_some_iff.mp h
      split at he
      · cases he
        exact frameStep_clrPass hR ..
      · split at he
        · cases he
          exact .refl hR _
        · split at he
          · cases he
            exact .refl hR _
          · cases he
            unfold nxpLockDelPass
            split
            · exact .refl hR w
            · exact frameStep_send hR _

theorem frameStep_clrKey (hR : Frame added reported R) :
    FrameStep R w (w.subdevClrKey env i input).1 := by
  unfold subdevClrKey
  split
  · exact .refl hR w
  · split
    · exact .refl hR w
    · dsimp only
      exact frameStep_clrPass hR ..

theorem frameStep_oneKeyOpen (hR : Frame added reported R) :
    FrameStep R w (w.subdevOneKeyOpen env i).1 := by
  unfold subdevOneKeyOpen nxpLockOneKeyOpen
  dsimp only
  exact frameStep_addPass hR ..

theorem frameStep_getDynamic (hR : Frame added reported R)
    (h : w.subdevGetDynamic env i = some (w', ret)) : FrameStep R w w' := by
  unfold subdevGetDynamic at h
  split_ifs at h
  · cases h
    exact frameStep_provision hR
  · cases h
    exact .refl hR _

/-- The services for keys and passwords of one device. -/
def Op.OnLock : Op → Prop
  | .addKey _ _ | .delKey _ _ | .clrKey _ _ | .getDynamic _ | .oneKeyOpen _ => True
  | _ => False

theorem frameStep_request (hR : Frame added reported R) {op : Op} (hop : op.OnLock)
    (h : w.step (env, op) = some w') : FrameStep R w w' := by
  cases op with
  | addKey i input =>
    rcases request_cases h with ⟨-, rfl⟩ | ⟨-, h⟩
    · exact .refl hR _
    · obtain ⟨⟨w₁, ret⟩, h₁, rfl⟩ := Option.map_eq_some_iff.mp h
      exact frameStep_addKey hR h₁
  | delKey i input =>
    rcases request_cases h with ⟨-, rfl⟩ | ⟨-, h⟩
    · exact .refl hR _
    · obtain ⟨⟨w₁, ret⟩, h₁, rfl⟩ := Option.map_eq_some_iff.mp h
      exact frameStep_delKey hR h₁
  | clrKey i input =>
    rcases request_cases h with ⟨-, rfl⟩ | ⟨-, h⟩
    · exact .refl hR _
    · cases h
      exact frameStep_clrKey hR
  | getDynamic i =>
    rcases request_cases h with ⟨-, rfl⟩ | ⟨-, h⟩
    · exact .refl hR _
    · obtain ⟨⟨w₁, ret⟩, h₁, rfl⟩ := Option.map_eq_some_iff.mp h
      exact frameStep_getDynamic hR h₁
  | oneKeyOpen i =>
    rcases request_cases h with ⟨-, rfl⟩ | ⟨-, h⟩
    · exact .refl hR _
    · cases h
      exact frameStep_oneKeyOpen hR
  | _ => exact hop.elim

end Requests

section Events

variable {added : CStr → CStr → Option CStr → Prop} {reported : NxpReg → Prop}
  {R : SubDev → SubDev → Prop} {env : Env} {w w' : World} {i : Slot} {eid : ℤ} {buf : ℕ → ℤ}
  {notice : Option Notice}

theorem frameStep_clearKeys (hR : Frame added reported R) (type : ℤ) :
    FrameStep R w (w.productSubLockClrKey env i type).1 := by
  unfold productSubLockClrKey
  dsimp only
  generalize List.finRange 128 = l
  induction l generalizing w with
  | nil => exact .refl hR w
  | cons j l ih =>
    rw [List.foldl_cons]
    refine FrameStep.trans hR ?_ ih
    unfold clrKeyRound
    dsimp only
    split
    · exact .refl hR w
    · exact (frameStep_setKeys hR _).trans hR (frameStep_save hR i _)

theorem frameStep_keyAck (hR : Frame added reported R) (type op passId code : ℤ) :
    FrameStep R w (w.keyAck env i type op passId code).1 := by
  rcases keyAck_cases env w i type op passId code with
    ⟨he, -⟩ | ⟨_, j, -, -, -, -, -, he⟩ | ⟨_, j, -, -, -, -, -, he⟩
  · rw [he]
    exact .refl hR w
  · rw [he]
    exact (frameStep_setKeys hR _).trans hR (frameStep_save hR i _)
  · rw [he]
    exact (frameStep_setKeys hR _).trans hR (frameStep_save hR i _)

theorem World.LockOutcome.frame (hR : Frame added reported R)
    (h : LockOutcome env w i eid buf w' notice) : FrameStep R w w' ∨
      w.doorOpened env i = some w' ∨
      eid = eventNxpAddDelPassRet ∧ buf 1 = 999999 ∧
        w' = (w.productSubLockAddDynamicComplete (env.save 0) i).1 := by
  cases h with
  | unchanged => exact Or.inl (.refl hR w)
  | opened notice h => exact Or.inr (Or.inl h)
  | cleared => exact Or.inl (frameStep_clearKeys hR 0)
  | provisioned heid hid => exact Or.inr (Or.inr ⟨heid, hid, rfl⟩)
  | acked => exact Or.inl (frameStep_keyAck hR ..)

theorem frameStep_triggerEvent (hR : Frame added reported R) (n : Notice) :
    FrameStep R w (w.triggerEvent env i n) := by
  rw [triggerEvent_eq]
  split
  · refine FrameStep.trans hR ?_ (frameStep_createHandle hR)
    exact .of_eq hR rfl rfl rfl
  · exact .of_eq hR rfl rfl rfl

end Events

/-- The events of devices that remove none: the table operations, requests and reports, and the due
task. -/
def Op.OnDevices : Op → Prop
  | .subAdd _ _ _ | .addSubDev _ | .taskRun | .addKey _ _ | .delKey _ _ | .clrKey _ _
  | .getDynamic _ | .oneKeyOpen _ | .nxpReg _ | .uptOnline _ | .rptEvent _ _ _ => True
  | _ => False

section Steps

variable {reported : NxpReg → Prop} {R : SubDev → SubDev → Prop} {env : Env} {w w' : World}
  {op : Op}

theorem FrameStep.sched (htask : ∀ {a b : SubDev}, R a b → b.task = a.task)
    (h : FrameStep R w w') : w'.sched = w.sched := by
  unfold World.sched
  rw [h.gwInfoTask, h.taskList]
  congr 1
  funext task
  cases task with
  | gwInfoTask => rfl
  | sub i => exact htask (h.subdevs i)

/-- An event that removes no device and does not call the scheduler is within the frame, except that
it may open a door or run the due task. -/
theorem step_frame (hR : Frame (fun _ _ _ => True) reported R)
    (hconfirmed : ∀ sd : SubDev, R sd { sd with dynamic := 1 }) (hop : op.OnDevices)
    (hreg : ∀ r, op = .nxpReg r → reported r) (hs : w.step (env, op) = some w') :
    FrameStep R w w' ∨ (∃ i w₁, w.doorOpened env i = some w₁ ∧ FrameStep R w₁ w') ∨
      w.aflyHandlerTaskRun env = some w' := by
  by_cases hlock : op.OnLock
  · exact Or.inl (frameStep_request hR hlock hs)
  cases op with
  | addKey | delKey | clrKey | getDynamic | oneKeyOpen => exact (hlock trivial).elim
  | taskRun => exact Or.inr (Or.inr hs)
  | subAdd name key secret =>
    obtain ⟨⟨w₁, ret⟩, h₁, rfl⟩ := Option.map_eq_some_iff.mp hs
    exact Or.inl (frameStep_add hR trivial h₁)
  | addSubDev input =>
    obtain ⟨⟨w₁, ret⟩, h₁, rfl⟩ := Option.map_eq_some_iff.mp hs
    apply Or.inl
    apply frameStep_gatewayAddSubdev hR ?_ h₁
    intros
    intro _ _ _ _ _ _
    trivial
  | nxpReg r => exact Or.inl (frameStep_nxpReg hR (fun _ _ => trivial) (hreg r rfl) hs)
  | uptOnline s =>
    cases hs
    exact Or.inl (frameStep_uptOnline hR s)
  | rptEvent name eid buf =>
    rcases aflyNxpRptEvent_cases hs with ⟨-, rfl⟩ | ⟨k, w₁, notice, -, he, rfl⟩
    · exact Or.inl (.refl hR _)
    have htrigger : FrameStep R w₁ (notice.elim w₁ fun n => w₁.triggerEvent env k n) := by
      cases notice with
      | none => exact .refl hR _
      | some n => exact frameStep_triggerEvent hR n
    rcases (lockEvent_outcome he).frame hR with hf | hopen | ⟨-, -, rfl⟩
    · exact Or.inl (hf.trans hR htrigger)
    · exact Or.inr (Or.inl ⟨k, w₁, hopen, htrigger⟩)
    · have hset : FrameStep R w (w.setDev k { w.subdevs k with dynamic := 1 }) :=
        frameStep_setDev hR (hconfirmed _)
      exact Or.inl ((hset.trans hR (frameStep_save hR k _)).trans hR htrigger)
  | _ => exact hop.elim

end Steps

end Afly
