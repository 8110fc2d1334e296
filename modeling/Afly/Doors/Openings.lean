import Afly.Gateway.Events
import Afly.Tasks.Pending

/-! # Lock events that open a door

Two lock events say that a door is open: a check record that passed, of a key
that the gateway knows, and the answer to the request that opens it. These
schedule the call that resets the lock status, and no other lock event touches
the task list or its timer.
-/

namespace Afly

open World

/-- The event reports that the door of the device is open. -/
def SubDev.opens (sd : SubDev) (eid : ℤ) (buf : ℕ → ℤ) : Bool :=
  if eid = eventNxpCheckRecord then
    buf 1 = 1 && ((checkRecordType (buf 0)).bind fun type => checkRecordKey sd type (buf 3)).isSome
  else eid = eventNxpAddDelPassRet && buf 1 = 888888

def doorOpenNotification (keyID : CStr) (lockType : ℤ) : Notice :=
  ⟨"DoorOpenNotification", [("KeyID", .str keyID), ("LockType", .int lockType)]⟩

def World.opensDoor (w : World) (name : CStr) (eid : ℤ) (buf : ℕ → ℤ) : Option Slot :=
  (w.productSubSearchByName name).bind fun i =>
    if (w.subdevs i).opens eid buf then some i else none

/-- Two states with the same task records, task list and timer. -/
structure SameTasks (w w' : World) : Prop where
  sched : w'.sched = w.sched
  taskTimer : w'.taskTimer = w.taskTimer

section Frames

variable {env : Env} {w w' w'' : World} {i : Slot}

theorem SameTasks.refl (w : World) : SameTasks w w := ⟨rfl, rfl⟩

theorem SameTasks.trans (h : SameTasks w w') (h' : SameTasks w' w'') : SameTasks w w'' :=
  ⟨h'.sched.trans h.sched, h'.taskTimer.trans h.taskTimer⟩

theorem sameTasks_setDev {sd : SubDev} (h : sd.task = (w.subdevs i).task) :
    SameTasks w (w.setDev i sd) := ⟨sched_setDev h, rfl⟩

theorem sameTasks_setSdk (sdk : Sdk) : SameTasks w (w.setSdk sdk) := ⟨rfl, rfl⟩

theorem sameTasks_save {r : SaveResult} : SameTasks w (w.productSubSave i r) := by
  refine ⟨sched_productSubSave, ?_⟩
  unfold productSubSave
  split <;> rfl

theorem sameTasks_store {sd : SubDev} {r : SaveResult} (h : sd.task = (w.subdevs i).task) :
    SameTasks w ((w.setDev i sd).productSubSave i r) :=
  (sameTasks_setDev h).trans sameTasks_save

theorem sameTasks_saveAll {r : SaveResult} : SameTasks w (w.productSubSaveAll r) := by
  refine ⟨sched_productSubSaveAll, ?_⟩
  unfold productSubSaveAll
  split_ifs <;> rfl

theorem sameTasks_createHandle : SameTasks w (w.createHandle env i) := by
  unfold createHandle
  split
  · exact .refl w
  · exact (sameTasks_setSdk _).trans (sameTasks_setDev rfl)

theorem sameTasks_triggerEvent (notice : Notice) : SameTasks w (w.triggerEvent env i notice) := by
  unfold triggerEvent
  dsimp only
  split_ifs
  · exact sameTasks_setSdk _
  · exact (sameTasks_setSdk _).trans sameTasks_createHandle
  · exact sameTasks_setSdk _

theorem sameTasks_clrKey (type : ℤ) : SameTasks w (w.productSubLockClrKey env i type).1 := by
  unfold productSubLockClrKey
  induction List.finRange 128 generalizing w with
  | nil => exact .refl w
  | cons j l ih =>
    rw [List.foldl_cons]
    refine SameTasks.trans ?_ ih
    unfold clrKeyRound
    dsimp only
    split
    · exact .refl w
    · exact sameTasks_store rfl

variable (env w i) in
theorem sameTasks_keyAck (type op passId code : ℤ) :
    SameTasks w (w.keyAck env i type op passId code).1 := by
  rcases keyAck_cases env w i type op passId code with
    ⟨he, -⟩ | ⟨_, j, -, -, -, -, -, he⟩ | ⟨_, j, -, -, -, -, -, he⟩
  · rw [he]
    exact .refl w
  · rw [he]
    exact sameTasks_store rfl
  · rw [he]
    exact sameTasks_store rfl

end Frames

section Openings

variable {env : Env} {w w' : World} {i : Slot} {name : CStr} {eid : ℤ} {buf : ℕ → ℤ}
  {notice : Option Notice}

theorem checkRecord_cases (h : w.checkRecord env i buf = some (w', notice)) :
    (w.subdevs i).opens eventNxpCheckRecord buf = false ∧ w' = w ∧ notice = none ∨
    (w.subdevs i).opens eventNxpCheckRecord buf = true ∧
      ∃ type id lockType, checkRecordType (buf 0) = some type ∧
        checkRecordKey (w.subdevs i) type (buf 3) = some id ∧ buf 1 = 1 ∧
        w.doorOpened env i = some w' ∧
        notice = some (doorOpenNotification (sprintfInt id) lockType) := by
  unfold checkRecord at h
  unfold SubDev.opens
  rw [if_pos rfl]
  cases htype : checkRecordType (buf 0) with
  | none =>
    rw [htype] at h
    cases h
    exact Or.inl ⟨by simp, rfl, rfl⟩
  | some type =>
    rw [htype] at h
    dsimp only at h
    rw [Option.bind_some]
    cases hkey : checkRecordKey (w.subdevs i) type (buf 3) with
    | none =>
      rw [hkey] at h
      cases h
      exact Or.inl ⟨by simp, rfl, rfl⟩
    | some id =>
      rw [hkey] at h
      dsimp only at h
      by_cases hpass : buf 1 = 1
      · rw [if_pos hpass] at h
        obtain ⟨w₁, h₁, he⟩ := Option.map_eq_some_iff.mp h
        cases he
        exact Or.inr ⟨by simp [hpass], type, id, _, rfl, hkey, hpass, h₁, rfl⟩
      · rw [if_neg hpass] at h
        cases h
        exact Or.inl ⟨by simp [hpass], rfl, rfl⟩

theorem addDelPassRet_sameTasks {op passId code : ℤ} (hid : passId ≠ 888888)
    (h : w.addDelPassRet env i op passId code = some (w', notice)) : SameTasks w w' := by
  unfold addDelPassRet at h
  cases htype : passIdType passId with
  | none =>
    rw [htype] at h
    cases h
    exact .refl w
  | some type =>
    rw [htype] at h
    dsimp only at h
    rw [if_neg hid] at h
    split_ifs at h
    · obtain ⟨rfl, rfl⟩ := Prod.mk.inj (Option.some.inj h)
      exact sameTasks_clrKey type
    · obtain ⟨rfl, rfl⟩ := Prod.mk.inj (Option.some.inj h)
      exact sameTasks_store rfl
    · have hack := sameTasks_keyAck env w i type op passId code
      rwa [Option.some.inj h] at hack

theorem lockEvent_opens (h : w.lockEvent env i eid buf = some (w', notice)) :
    if (w.subdevs i).opens eid buf then w.doorOpened env i = some w' else SameTasks w w' := by
  unfold lockEvent at h
  split_ifs at h with hcheck hack hsys
  · subst hcheck
    rcases checkRecord_cases h with ⟨hno, rfl, -⟩ | ⟨hopens, -, -, -, -, -, -, hopened, -⟩
    · rw [if_neg (Bool.eq_false_iff.mp hno)]
      exact .refl _
    · rw [if_pos hopens]
      exact hopened
  · subst hack
    have hopens : (w.subdevs i).opens eventNxpAddDelPassRet buf = decide (buf 1 = 888888) := by
      simp [SubDev.opens]
    rw [hopens]
    by_cases hid : buf 1 = 888888
    · rw [if_pos (by simpa using hid)]
      have htype : passIdType (buf 1) = some 0 := by rw [hid]; decide
      rw [addDelPassRet, htype, hid] at h
      obtain ⟨w₁, h₁, he⟩ := Option.map_eq_some_iff.mp h
      cases he
      exact h₁
    · rw [if_neg (by simpa using hid)]
      exact addDelPassRet_sameTasks hid h
  · cases h
    rw [SubDev.opens, if_neg hcheck]
    simpa [hack] using SameTasks.refl w
  · cases h
    rw [SubDev.opens, if_neg hcheck]
    simpa [hack] using SameTasks.refl w

theorem rptEvent_opens (h : w.aflyNxpRptEvent env name eid buf = some w') :
    match w.opensDoor name eid buf with
    | none => SameTasks w w'
    | some i => ∃ w₁, w.doorOpened env i = some w₁ ∧ SameTasks w₁ w' := by
  unfold opensDoor
  rcases aflyNxpRptEvent_cases h with ⟨hno, rfl⟩ | ⟨i, w₁, notice, hi, he, rfl⟩
  · rw [hno]
    exact .refl w'
  · rw [hi, Option.bind_some]
    have htrigger : SameTasks w₁ (notice.elim w₁ fun n => w₁.triggerEvent env i n) := by
      cases notice with
      | none => exact .refl w₁
      | some n => exact sameTasks_triggerEvent n
    have ho := lockEvent_opens he
    by_cases hopens : (w.subdevs i).opens eid buf
    · rw [if_pos hopens] at ho ⊢
      exact ⟨w₁, ho, htrigger⟩
    · rw [if_neg hopens] at ho ⊢
      exact ho.trans htrigger

end Openings

end Afly
