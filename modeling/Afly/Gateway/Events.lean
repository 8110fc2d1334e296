import Afly.Gateway.Outcomes

/-! # The outcomes of lock events

What the event switch does to the record, and what the trigger does for an event
that the cloud gets. The acknowledgement of a key changes at most one slot, and
its cases follow the slot that the search by id validates.
-/

namespace Afly

/-- The cloud does not know the device of a trigger, and it is registered and created anew. -/
def Env.Recreates (env : Env) : Prop := env.trigger = -520 ∧ 0 ≤ env.register ∧ 0 ≤ env.create

instance (env : Env) : Decidable env.Recreates := inferInstanceAs (Decidable (_ ∧ _ ∧ _))

namespace World

variable {env : Env} {w w' : World} {i : Slot}

section Events

variable {eid : ℤ} {buf : ℕ → ℤ} {notice : Option Notice}

theorem createHandle_calls : (w.createHandle env i).sdk.calls = w.sdk.calls := by
  rw [createHandle_sdk]
  split
  · rfl
  · unfold Sdk.create
    split <;> rfl

theorem triggerEvent_calls {n : Notice} : (w.triggerEvent env i n).sdk.calls =
    w.sdk.calls ++ [(.trigger (w.subdevs i).devid n, w.sdk.live (w.subdevs i).devid)] := by
  unfold triggerEvent
  dsimp only
  split_ifs
  · rfl
  · rw [createHandle_calls]; rfl
  · rfl

@[simp] theorem postLockState_subdevs {status : ℤ} : (w.postLockState i status).subdevs =
    Function.update w.subdevs i
      { w.subdevs i with lock := { (w.subdevs i).lock with lockStatus := status } } := rfl

theorem doorOpened_spec (h : w.doorOpened env i = some w') :
    TasksOnly (w.postLockState i 1) w' := tasksOnly_schedule h

theorem productSubLockAddKeyComplete_eq {r : SaveResult} {type id : ℤ} {k : Fin 128}
    (hk : firstAdding (w.subdevs i) type id = some k) :
    (w.productSubLockAddKeyComplete r i type id).1 = (w.setDev i ((w.subdevs i).setBankKey type k
      { (w.subdevs i).bank type k with keyState := keyStateAdded })).productSubSave i r := by
  unfold productSubLockAddKeyComplete
  dsimp only
  rw [hk]

theorem productSubLockDelKey_eq {r : SaveResult} {type id : ℤ} {k : Fin 128}
    (hk : firstAdded (w.subdevs i) type id = some k) :
    (w.productSubLockDelKey r i type id).1 =
      (w.setDev i ((w.subdevs i).setBankKey type k .zero)).productSubSave i r := by
  unfold productSubLockDelKey
  dsimp only
  rw [hk]

/-- The validated slot does not wait for the acknowledgement, or its code is not zero. -/
def AckIdle (sd : SubDev) (type op passId code : ℤ) : Prop :=
  ∀ j, productSubLockGetKeyById sd type passId = some j → code = 0 →
    ¬ (((sd.bank type j).keyState = keyStateAdding ∧ op = 1) ∨
      ((sd.bank type j).keyState = keyStateAdded ∧ op = 0))

variable (env w i) in
theorem keyAck_cases (type op passId code : ℤ) :
    (w.keyAck env i type op passId code = (w, none) ∧
      AckIdle (w.subdevs i) type op passId code) ∨
    (∃ j k, productSubLockGetKeyById (w.subdevs i) type passId = some j ∧
      ((w.subdevs i).bank type j).keyState = keyStateAdding ∧ op = 1 ∧ code = 0 ∧
      firstAdding (w.subdevs i) type passId = some k ∧
      w.keyAck env i type op passId code = ((w.setDev i ((w.subdevs i).setBankKey type k
          { (w.subdevs i).bank type k with keyState := keyStateAdded })).productSubSave i
            (env.save 0),
        some ⟨"KeyAddedNotification", [("KeyID", .str (sprintfInt passId)), ("LockType", .int type),
          ("UserLimit", .int ((w.subdevs i).bank type j).limit),
          ("KeyStr", .str (snprintfStr ((w.subdevs i).bank type j).len
            (cstr (List.ofFn ((w.subdevs i).bank type j).buf))))]⟩)) ∨
    ∃ j k, productSubLockGetKeyById (w.subdevs i) type passId = some j ∧
      ((w.subdevs i).bank type j).keyState = keyStateAdded ∧ op = 0 ∧ code = 0 ∧
      firstAdded (w.subdevs i) type passId = some k ∧
      w.keyAck env i type op passId code = ((w.setDev i ((w.subdevs i).setBankKey type k .zero)
          ).productSubSave i (env.save 0),
        some ⟨"KeyDeletedNotification",
          [("KeyID", .str (sprintfInt passId)), ("LockType", .int type)]⟩) := by
  unfold keyAck
  dsimp only
  cases hj : productSubLockGetKeyById (w.subdevs i) type passId with
  | none => exact Or.inl ⟨rfl, fun _ h => absurd (hj.symm.trans h) (by simp)⟩
  | some j =>
    dsimp only
    have hid := (getKeyById_eq_some_iff.mp hj).1.2
    split_ifs with hg hc ho
    · exact Or.inl ⟨rfl, fun _ _ h => absurd h hc⟩
    · have hs : ((w.subdevs i).bank type j).keyState = keyStateAdding := by
        rcases hg with hg | hg
        · exact hg.1
        · exact absurd (ho.symm.trans hg.2) (by decide)
      obtain ⟨k, hk⟩ := exists_firstAdding hs hid
      refine Or.inr (Or.inl ⟨j, k, rfl, hs, ho, not_not.mp hc, hk, ?_⟩)
      rw [productSubLockAddKeyComplete_eq hk]
    · have hs : ((w.subdevs i).bank type j).keyState = keyStateAdded ∧ op = 0 :=
        hg.resolve_left fun hg => ho hg.2
      obtain ⟨k, hk⟩ := exists_firstAdded hs.1 hid
      refine Or.inr (Or.inr ⟨j, k, rfl, hs.1, hs.2, not_not.mp hc, hk, ?_⟩)
      rw [productSubLockDelKey_eq hk]
    · refine Or.inl ⟨rfl, ?_⟩
      intro k hk _
      obtain rfl : j = k := Option.some.inj (hj.symm.trans hk)
      exact hg

inductive LockOutcome (env : Env) (w : World) (i : Slot) (eid : ℤ) (buf : ℕ → ℤ) :
    World → Option Notice → Prop where
  | unchanged (notice : Option Notice) : LockOutcome env w i eid buf w notice
  | opened {w' : World} (notice : Notice) (h : w.doorOpened env i = some w') :
      LockOutcome env w i eid buf w' (some notice)
  | cleared (notice : Notice) (heid : eid = eventNxpAddDelPassRet) (hid : buf 1 = 0) :
      LockOutcome env w i eid buf (w.productSubLockClrKey env i 0).1 (some notice)
  | provisioned (heid : eid = eventNxpAddDelPassRet) (hid : buf 1 = 999999) :
      LockOutcome env w i eid buf (w.productSubLockAddDynamicComplete (env.save 0) i).1 none
  | acked {type : ℤ} (heid : eid = eventNxpAddDelPassRet) (htype : passIdType (buf 1) = some type)
      (hid : buf 1 ≠ 0 ∧ buf 1 ≠ 999999 ∧ buf 1 ≠ 888888) :
      LockOutcome env w i eid buf (w.keyAck env i type (buf 0) (buf 1) (buf 2)).1
        (w.keyAck env i type (buf 0) (buf 1) (buf 2)).2

theorem TasksOnly.sameHandle (h : TasksOnly w w') (k : Slot) :
    SameHandle (w.subdevs k) (w'.subdevs k) := by
  rw [h.subdevs k]
  exact ⟨⟨rfl, rfl, rfl, rfl⟩, rfl, rfl⟩

theorem doorOpened_sameHandle (h : w.doorOpened env i = some w') (k : Slot) :
    SameHandle (w.subdevs k) (w'.subdevs k) := by
  refine SameHandle.trans ?_ ((doorOpened_spec h).sameHandle k)
  rw [postLockState_subdevs]
  exact rel_update .refl ⟨⟨rfl, rfl, rfl, rfl⟩, rfl, rfl⟩ k

theorem LockOutcome.sameHandle (h : LockOutcome env w i eid buf w' notice) (k : Slot) :
    SameHandle (w.subdevs k) (w'.subdevs k) := by
  cases h with
  | unchanged => exact .refl _
  | opened notice h => exact doorOpened_sameHandle h k
  | cleared =>
    rw [productSubLockClrKey_subdevs]
    exact rel_update .refl ⟨⟨rfl, rfl, rfl, rfl⟩, rfl, rfl⟩ k
  | provisioned =>
    rw [productSubLockAddDynamicComplete, productSubSave_subdevs, setDev_subdevs]
    exact rel_update .refl ⟨⟨rfl, rfl, rfl, rfl⟩, rfl, rfl⟩ k
  | @acked type =>
    rcases keyAck_cases env w i type (buf 0) (buf 1) (buf 2) with
      ⟨he, -⟩ | ⟨_, j, -, -, -, -, -, he⟩ | ⟨_, j, -, -, -, -, -, he⟩
    · rw [he]; exact .refl _
    · rw [he, productSubSave_subdevs, setDev_subdevs]
      exact rel_update .refl ⟨⟨rfl, rfl, rfl, rfl⟩, rfl, rfl⟩ k
    · rw [he, productSubSave_subdevs, setDev_subdevs]
      exact rel_update .refl ⟨⟨rfl, rfl, rfl, rfl⟩, rfl, rfl⟩ k

theorem LockOutcome.sdk (h : LockOutcome env w i eid buf w' notice) : w'.sdk = w.sdk ∨
    ∃ property, w'.sdk = w.sdk.post (w.subdevs i).devid property := by
  cases h with
  | unchanged => exact Or.inl rfl
  | opened notice h => exact Or.inr ⟨_, (doorOpened_spec h).sdk⟩
  | cleared => exact Or.inl productSubLockClrKey_sdk
  | provisioned => exact Or.inl (productSubSave_sdk ..)
  | @acked type =>
    rcases keyAck_cases env w i type (buf 0) (buf 1) (buf 2) with
      ⟨he, -⟩ | ⟨_, j, -, -, -, -, -, he⟩ | ⟨_, j, -, -, -, -, -, he⟩
    · rw [he]; exact Or.inl rfl
    · rw [he]; exact Or.inl (productSubSave_sdk ..)
    · rw [he]; exact Or.inl (productSubSave_sdk ..)

theorem triggerEvent_eq {n : Notice} : w.triggerEvent env i n =
    if env.Recreates then
      (w.setSdk (w.sdk.record (w.subdevs i).devid (.trigger (w.subdevs i).devid n))).createHandle
        env i
    else w.setSdk (w.sdk.record (w.subdevs i).devid (.trigger (w.subdevs i).devid n)) := by
  by_cases h : env.Recreates
  · rw [if_pos h, triggerEvent, if_pos h.1, if_neg (not_lt.mpr h.2.1)]
  · rw [if_neg h, triggerEvent]
    split_ifs with ht hr
    · rfl
    · have hc : env.create < 0 := by
        by_contra hc
        exact h ⟨ht, not_lt.mp hr, not_lt.mp hc⟩
      rw [createHandle, if_pos hc]
    · rfl

variable (env w i) in
theorem triggerEvent_subdevs (n : Notice) : (w.triggerEvent env i n).subdevs =
    if env.Recreates then Function.update w.subdevs i { w.subdevs i with devid := env.create }
    else w.subdevs := by
  rw [triggerEvent_eq]
  split
  · rename_i h
    rw [createHandle_subdevs, if_neg (not_lt.mpr h.2.2), setSdk_subdevs]
  · rfl

theorem triggerEvent_sameDevice {n : Notice} (k : Slot) :
    SameDevice (w.subdevs k) ((w.triggerEvent env i n).subdevs k) := by
  rw [triggerEvent_subdevs]
  split
  · exact rel_update .refl ⟨rfl, rfl, rfl, rfl⟩ k
  · exact .refl _

theorem checkRecord_outcome (h : w.checkRecord env i buf = some (w', notice)) :
    LockOutcome env w i eid buf w' notice := by
  unfold checkRecord at h
  split at h
  · cases h; exact .unchanged none
  · dsimp only at h
    split at h
    · cases h; exact .unchanged none
    · split at h
      · obtain ⟨w₁, h₁, he⟩ := Option.map_eq_some_iff.mp h
        cases he
        exact .opened _ h₁
      · cases h; exact .unchanged none

theorem passIdType_zero : passIdType 0 = some 0 := by decide

theorem addDelPassRet_outcome (heid : eid = eventNxpAddDelPassRet)
    (h : w.addDelPassRet env i (buf 0) (buf 1) (buf 2) = some (w', notice)) :
    LockOutcome env w i eid buf w' notice := by
  unfold addDelPassRet at h
  split at h
  · cases h; exact .unchanged none
  · rename_i type htype
    split_ifs at h with h₀ h₁ h₂
    · obtain ⟨rfl, rfl⟩ := Prod.mk.inj (Option.some.inj h)
      rw [h₀, passIdType_zero] at htype
      obtain rfl := Option.some.inj htype
      exact .cleared _ heid h₀
    · obtain ⟨rfl, rfl⟩ := Prod.mk.inj (Option.some.inj h)
      exact .provisioned heid h₁
    · obtain ⟨w₁, hw, he⟩ := Option.map_eq_some_iff.mp h
      cases he
      exact .opened _ hw
    · have ho : LockOutcome env w i eid buf _ _ := .acked heid htype ⟨h₀, h₁, h₂⟩
      rwa [Option.some.inj h] at ho

theorem lockEvent_outcome (h : w.lockEvent env i eid buf = some (w', notice)) :
    LockOutcome env w i eid buf w' notice := by
  unfold lockEvent at h
  split_ifs at h with h₃ h₄ h₇
  · exact checkRecord_outcome h
  · exact addDelPassRet_outcome h₄ h
  · cases h; exact .unchanged _
  · cases h; exact .unchanged none

/-- A lock event is for no record, or it ends with the event switch, or with a trigger. -/
theorem aflyNxpRptEvent_cases {name : CStr} (h : w.aflyNxpRptEvent env name eid buf = some w') :
    (w.productSubSearchByName name = none ∧ w' = w) ∨
    ∃ i w₁ notice, w.productSubSearchByName name = some i ∧
      w.lockEvent env i eid buf = some (w₁, notice) ∧
      w' = notice.elim w₁ fun n => w₁.triggerEvent env i n := by
  unfold aflyNxpRptEvent at h
  split at h
  · cases h; exact Or.inl ⟨by assumption, rfl⟩
  · rename_i i hi
    obtain ⟨⟨w₁, notice⟩, h₁, he⟩ := Option.map_eq_some_iff.mp h
    refine Or.inr ⟨i, w₁, notice, hi, h₁, ?_⟩
    cases notice with
    | none => exact he.symm
    | some n => exact he.symm

theorem aflyNxpRptEvent_sameDevice {name : CStr} (h : w.aflyNxpRptEvent env name eid buf = some w')
    (k : Slot) : SameDevice (w.subdevs k) (w'.subdevs k) := by
  rcases aflyNxpRptEvent_cases h with ⟨-, rfl⟩ | ⟨i, w₁, notice, -, he, rfl⟩
  · exact .refl _
  · have ho := lockEvent_outcome he
    cases notice with
    | none => exact (ho.sameHandle k).toSameDevice
    | some n => exact (ho.sameHandle k).toSameDevice.trans (triggerEvent_sameDevice k)

end Events

end World

end Afly
