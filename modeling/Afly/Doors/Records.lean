import Afly.C.Decimal
import Afly.Doors.Openings
import Afly.Intake.Reports
import Afly.Keys.Stored
import Afly.Tasks.Ends

/-! # Who opened a door

A check record that passed tells the cloud with which key a door was opened:
with an added key of the bank that the record selects, or with a dynamic
password, whose openings share one id. The two can be told apart as long as no
added key has the shared id, and only a registration that runs into the key
table, or a torn file, can bring about such a key.
-/

namespace Afly

open World Reach

/-- The id that all openings with a dynamic password share. -/
abbrev dynamicKeyId : ℤ := 6999999

/-- An added key does not have the id of the dynamic passwords. -/
def LockKey.NotDynamic (key : LockKey) : Prop :=
  key.keyState = keyStateAdded → key.id ≠ dynamicKeyId

/-- The notice says that a door was opened with the key `keyID`. -/
structure Notice.Opened (n : Notice) (keyID : CStr) : Prop where
  identifier : n.identifier = "DoorOpenNotification"
  keyID : n.event.lookup "KeyID" = some (.str keyID)

namespace World

def notices (w w' : World) : List Notice :=
  (w'.sdk.calls.drop w.sdk.calls.length).filterMap fun
    | (.trigger _ n, _) => some n
    | _ => none

/-- The reset of the device is on the list, five seconds from the start. -/
def RelockFrom (w : World) (i : Slot) (start : ℤ) : Prop :=
  ∃ l, w.sched.Tasks l ∧ .sub i ∈ l ∧
    w.sched.call (.sub i) = ⟨some .subdevTimeoutFunc, some i, start, 5000⟩

end World

/-- What a check record for the record `found` does. -/
structure Recorded (env : Env) (w : World) (found : Option Slot) (passType pass passId : ℤ)
    (w' : World) : Prop where
  key : ∀ n ∈ w.notices w', ∀ keyID, n.Opened keyID → keyID ≠ "6999999".toList →
    pass = 1 ∧ ∃ i type j, found = some i ∧ checkRecordType passType = some type ∧
      ((w.subdevs i).bank type j).keyState = keyStateAdded ∧
      ((w.subdevs i).bank type j).id = passId ∧ keyID = sprintfInt passId
  dynamic : ∀ n ∈ w.notices w', n.Opened "6999999".toList → passType = 1 ∧ pass = 1
  relock : ∀ n ∈ w.notices w', ∃ i, found = some i ∧ (w'.subdevs i).lock.lockStatus = 1 ∧
    w'.RelockFrom i (env.long (env.clock 0))
  quiet : w.notices w' = [] → w' = w
  keys : ∀ i, (w'.subdevs i).lock.keys = (w.subdevs i).lock.keys

theorem slotRule_notDynamic : SlotRule LockKey.NotDynamic where
  zero h := absurd (show keyStateNone = keyStateAdded from h) (by decide)
  fill _ _ _ _ _ h := absurd (show keyStateAdding = keyStateAdded from h) (by decide)
  complete {key type} htype _ _ hid := by
    have hno : passIdType dynamicKeyId = none := by decide
    rw [show key.id = dynamicKeyId from hid, hno] at htype
    cases htype

section Records

variable {env : Env} {w w' : World} {i : Slot} {buf : ℕ → ℤ} {notice : Option Notice} {name : CStr}

theorem checkRecordType_eq_six {passType : ℤ} (h : checkRecordType passType = some 6) :
    passType = 1 := by
  unfold checkRecordType at h
  split_ifs at h with h₀ h₁ h₂ h₃ h₄
  · exact absurd h (by decide)
  · exact absurd h (by decide)
  · exact absurd h (by decide)
  · exact absurd h (by decide)
  · exact h₄

theorem checkRecordKey_cases {sd : SubDev} {type passId id : ℤ}
    (h : checkRecordKey sd type passId = some id) :
    (type = 6 ∧ id = dynamicKeyId) ∨ id = passId ∧
      ∃ j, (sd.bank type j).keyState = keyStateAdded ∧ (sd.bank type j).id = passId := by
  unfold checkRecordKey at h
  split_ifs at h with h₆
  · cases h
    exact Or.inl ⟨h₆, rfl⟩
  · split at h
    · cases h
    · rename_i j hj
      have hid : (sd.bank type j).id = passId := (getKeyById_eq_some_iff.mp hj).1.2
      split_ifs at h with hstate
      cases h
      exact Or.inr ⟨hid, j, not_not.mp hstate, hid⟩

theorem doorOpened_lockStatus (h : w.doorOpened env i = some w') :
    (w'.subdevs i).lock.lockStatus = 1 := by
  rw [(doorOpened_spec h).subdevs i]
  dsimp only
  rw [postLockState_subdevs, Function.update_self]

theorem triggerEvent_lock {k : Slot} {n : Notice} :
    ((w.triggerEvent env k n).subdevs i).lock = (w.subdevs i).lock := by
  rw [triggerEvent_subdevs]
  split
  · by_cases hik : i = k
    · subst hik
      rw [Function.update_self]
    · rw [Function.update_of_ne hik]
  · rfl

theorem World.Ends.relockFrom (h : w.Ends) (hs : w.doorOpened env i = some w') :
    w'.RelockFrom i (env.long (env.clock 0)) := by
  obtain ⟨l, hl⟩ := h.of_postLockState i 1
  obtain ⟨s, hs', ht, hcall⟩ := Sched.schedueAdd_spec (.sub i) hl
    (hl.nodup.length_le_card.trans card_taskRef.le) (env.long (env.clock 0)) 5000
    (some .subdevTimeoutFunc) (some i)
  obtain rfl : w'.sched = s := Option.some.inj ((schedule_sched hs).symm.trans hs')
  refine ⟨_, ht, ?_, ?_⟩
  · split
    · assumption
    · simp
  · rw [hcall, Function.update_self]

theorem World.RelockFrom.congr {start : ℤ} (h : w.RelockFrom i start) (hs : SameTasks w w') :
    w'.RelockFrom i start := by
  unfold World.RelockFrom
  rw [hs.sched]
  exact h

theorem notices_opened {n : Notice} {w₁ : World} (h : w.doorOpened env i = some w₁) :
    w.notices (w₁.triggerEvent env i n) = [n] := by
  have hcalls : (w₁.triggerEvent env i n).sdk.calls = w.sdk.calls ++
      [(.post (w.subdevs i).devid [("LockState", .int 1)], w.sdk.live (w.subdevs i).devid),
        (.trigger (w₁.subdevs i).devid n, w₁.sdk.live (w₁.subdevs i).devid)] := by
    rw [triggerEvent_calls, (doorOpened_spec h).sdk]
    simp [postLockState, Sdk.post, Sdk.record]
  rw [notices, hcalls, List.drop_left]
  rfl

theorem notices_self : w.notices w = [] := by
  rw [notices, List.drop_length]
  rfl

theorem opened_doorOpenNotification {keyID keyID' : CStr} {lockType : ℤ} :
    (doorOpenNotification keyID lockType).Opened keyID' ↔ keyID = keyID' := by
  constructor
  · intro h
    have hid : some (Json.str keyID) = some (.str keyID') := h.keyID
    exact Json.str.inj (Option.some.inj hid)
  · rintro rfl
    exact ⟨rfl, rfl⟩

theorem recorded_self {found : Option Slot} {passType pass passId : ℤ} :
    Recorded env w found passType pass passId w where
  key n hn := by
    rw [notices_self] at hn
    cases hn
  dynamic n hn := by
    rw [notices_self] at hn
    cases hn
  relock n hn := by
    rw [notices_self] at hn
    cases hn
  quiet _ := rfl
  keys _ := rfl

theorem rptEvent_recorded (hends : w.Ends) (hkeys : w.AllKeys LockKey.NotDynamic)
    (h : w.aflyNxpRptEvent env name eventNxpCheckRecord buf = some w') :
    Recorded env w (w.productSubSearchByName name) (buf 0) (buf 1) (buf 3) w' := by
  rcases aflyNxpRptEvent_cases h with ⟨-, rfl⟩ | ⟨i, w₁, notice, hname, he, rfl⟩
  · exact recorded_self
  rw [lockEvent, if_pos rfl] at he
  rcases checkRecord_cases he with ⟨-, rfl, rfl⟩ |
    ⟨-, type, id, lockType, htype, hkey, hpass, hopen, rfl⟩
  · exact recorded_self
  have hid : sprintfInt dynamicKeyId = "6999999".toList := by decide
  rw [hname, Option.elim_some]
  constructor
  · intro n hn keyID ho hne
    rw [notices_opened hopen, List.mem_singleton] at hn
    subst hn
    obtain rfl := opened_doorOpenNotification.mp ho
    rcases checkRecordKey_cases hkey with ⟨-, rfl⟩ | ⟨rfl, j, hstate, hj⟩
    · exact absurd hid hne
    · exact ⟨hpass, i, type, j, rfl, htype, hstate, hj, rfl⟩
  · intro n hn ho
    rw [notices_opened hopen, List.mem_singleton] at hn
    subst hn
    have hshared : id = dynamicKeyId :=
      sprintfInt_inj ((opened_doorOpenNotification.mp ho).trans hid.symm)
    rcases checkRecordKey_cases hkey with ⟨rfl, -⟩ | ⟨rfl, j, hstate, hj⟩
    · exact ⟨checkRecordType_eq_six htype, hpass⟩
    · exact absurd (hj.trans hshared) (hkeys.subdevs i _ j hstate)
  · intro n _
    refine ⟨i, rfl, ?_, ?_⟩
    · rw [triggerEvent_lock]
      exact doorOpened_lockStatus hopen
    · exact (hends.relockFrom hopen).congr (sameTasks_triggerEvent _)
  · intro hnone
    rw [notices_opened hopen] at hnone
    cases hnone
  · intro k
    rw [triggerEvent_lock, (doorOpened_sameKeys hopen k).keys]

theorem checkRecordReport_cases {envs : ℕ → Env} {cmdmac : Option CStr} {value : Json} {ret : ℤ}
    (h : w.rptNxpLockCheckRecord envs cmdmac value = .ok (w', ret)) :
    w' = w ∨ ∃ name time passVal, cmdmac = some name ∧
      w.aflyNxpRptEvent (envs 0) name eventNxpCheckRecord
        (fun k => [jsonGetInt value "passType" (-1), jsonGetInt value "pass" (-1), time,
          jsonGetInt value "passId" (-1), passVal].getD k 0) = some w' := by
  unfold rptNxpLockCheckRecord at h
  dsimp only at h
  split at h
  · cases h
    exact Or.inl rfl
  split at h
  · cases h
    exact Or.inl rfl
  split at h
  · cases h
    exact Or.inl rfl
  obtain ⟨w₁, h₁, he⟩ := map_eq_ok.mp h
  cases he
  cases cmdmac with
  | none =>
    unfold World.rptEvent at h₁
    dsimp only at h₁
    split at h₁
    · cases h₁
    · cases h₁
      exact Or.inl rfl
  | some name => exact Or.inr ⟨name, _, _, rfl, rptEvent_eq_ok h₁⟩

end Records

/-- In every run whose registrations end before the key table, and whose restarts load no torn file
with an added key that has the id of the dynamic passwords, every check record is handled to its
end: the cloud gets the key that opened the door, which is relocked, and no key slot changes. -/
theorem door_openings_recorded {w₀ w : World} (h₀ : w₀.taskList = none)
    (hkeys : w₀.AllKeys LockKey.NotDynamic)
    (hr : Reachable lifeStep
      (fun w e => e.2.OnLocks ∧ w.KeepsKeys LockKey.NotDynamic e) w₀ w) :
    (∀ env name buf, ∃ w', w.aflyNxpRptEvent env name eventNxpCheckRecord buf = some w' ∧
      Recorded env w (w.productSubSearchByName name) (buf 0) (buf 1) (buf 3) w') ∧
    ∀ envs cmdmac value w' ret, w.rptNxpLockCheckRecord envs cmdmac value = .ok (w', ret) →
      Recorded (envs 0) w (cmdmac.bind w.productSubSearchByName)
        (jsonGetInt value "passType" (-1)) (jsonGetInt value "pass" (-1))
        (jsonGetInt value "passId" (-1)) w' := by
  have hends : w.Ends := ends_of_reachable h₀ (hr.mono fun _ _ h => h.1)
  have hall : w.AllKeys LockKey.NotDynamic :=
    hr.invariant hkeys fun _ _ _ h hok hs => allKeys_step slotRule_notDynamic h hok.1 hok.2 hs
  constructor
  · intro env name buf
    obtain ⟨w', hw'⟩ := rptEvent_defined env hends name eventNxpCheckRecord buf
    exact ⟨w', hw', rptEvent_recorded hends hall hw'⟩
  · intro envs cmdmac value w' ret h
    rcases checkRecordReport_cases h with rfl | ⟨name, time, passVal, rfl, hw'⟩
    · exact recorded_self
    · exact rptEvent_recorded hends hall hw'

def addOne (keyStr : String) : List (Env × LifeEvent) :=
  [(.quiet, .restart), (.quiet, .handle (.nxpReg newLock)),
   ((addKeyOp keyStr).1, .handle (addKeyOp keyStr).2)]

def acceptOne : List (Env × LifeEvent) :=
  addOne "123456" ++ [((ackOp 1 2123456 0).1, .handle (ackOp 1 2123456 0).2)]

/-- The check record of a password that opened the door. -/
def checkBuf (passId : ℤ) : ℕ → ℤ := fun k => [0, 1, 0, passId, 0].getD k 0

theorem checkBuf_passId (passId : ℤ) : checkBuf passId 3 = passId := rfl

/-- The opening with a confirmed password is recorded. -/
theorem door_openings_recorded_one : ∃ w w', run lifeStep boot acceptOne = some w ∧
    w.aflyNxpRptEvent .quiet newLock.name eventNxpCheckRecord (checkBuf 2123456) = some w' ∧
    w.notices w' ≠ [] ∧
    Recorded .quiet w (w.productSubSearchByName newLock.name) 0 1 2123456 w' := by
  obtain ⟨w, hw, hn⟩ : ∃ w, run lifeStep boot acceptOne = some w ∧
      ((w.aflyNxpRptEvent .quiet newLock.name eventNxpCheckRecord (checkBuf 2123456)).map fun w' =>
        (w.notices w').length) = some 1 :=
    Option.map_eq_some_iff.mp (by decide +kernel)
  have hboot : boot.AllKeys LockKey.NotDynamic :=
    ⟨fun _ => allKeys_zero slotRule_notDynamic, fun _ ht => by cases ht⟩
  have hreach : Reachable lifeStep
      (fun w e => e.2.OnLocks ∧ w.KeepsKeys LockKey.NotDynamic e) boot w := by
    refine reachable_of_run hw ?_ .start
    intro e he t
    simp only [acceptOne, addOne, List.cons_append, List.nil_append, List.mem_cons,
      List.not_mem_nil, or_false] at he
    rcases he with rfl | rfl | rfl | rfl
    · exact ⟨trivial, fun _ _ _ => allKeys_zero slotRule_notDynamic⟩
    · exact ⟨trivial, by decide, by decide, by decide⟩
    · exact ⟨trivial, trivial⟩
    · exact ⟨trivial, trivial⟩
  obtain ⟨w', hw', hr⟩ := (door_openings_recorded rfl hboot hreach).1 .quiet newLock.name
    (checkBuf 2123456)
  refine ⟨w, w', hw, hw', ?_, hr⟩
  rw [hw', Option.map_some, Option.some_inj] at hn
  exact List.ne_nil_of_length_eq_add_one hn

section Overrun

variable {env : Env} {w w' : World} {i : Slot} {r : NxpReg} {adx : Fin 4} {j : Fin 128}

theorem nxpReg_slot (hi : w.productSubSearchByName r.name = some i)
    (htype : r.type.length < 172 + 56 * (128 * adx + j))
    (hversion : r.version.length < 140 + 56 * (128 * adx + j))
    (hmodel : r.model.length < 108 + 56 * (128 * adx + j)) (h : w.aflyNxpReg env r = some w') :
    (w'.subdevs i).lock.keys adx j = (w.subdevs i).lock.keys adx j := by
  rcases aflyNxpReg_cases h with ⟨found, h₁, -⟩ | ⟨w₁, k, w₂, h₁, hc, h₂, rfl⟩
  · rw [(registerRecord_registered hi h₁).1]
  obtain ⟨rfl, he⟩ := registerRecord_registered hi h₁
  cases he
  obtain ⟨sd, hsd, -, hsub, -⟩ := storeReport_spec h₂
  have hslot := SubDev.report_slot htype hversion hmodel hsd
  rw [openHandle_subdevs hc, Function.update_self] at hslot
  rw [(syncLogin_sameKeys i).keys, hsub, Function.update_self]
  split
  · exact hslot
  · exact hslot

end Overrun

/-- A registration whose version runs over the state of the first password. -/
def longestVersion : NxpReg :=
  { newLock with version := List.replicate 7312 'v' ++ ['\x02'] }

theorem length_longestVersion : longestVersion.version.length = 7313 := by
  unfold longestVersion
  rw [List.length_append, List.length_replicate, List.length_singleton]

theorem checkRecordKey_single {sd : SubDev} {type id : ℤ} (htype : type ≠ 6)
    (hstate : (sd.bank type 0).keyState = keyStateAdded) (hid : (sd.bank type 0).id = id)
    (hother : ∀ k, 0 < k → (sd.bank type k).keyState = keyStateNone) :
    checkRecordKey sd type id = some id := by
  have hfound : productSubLockGetKeyById sd type id = some 0 :=
    getKeyById_eq_some_iff.mpr
      ⟨⟨by rw [hstate]; decide, hid⟩, fun k hk hlive => hlive.1 (hother k hk)⟩
  unfold checkRecordKey
  rw [if_neg htype, hfound]
  dsimp only
  rw [if_neg (not_not.mpr hstate), hid]

theorem checkRecord_password {env : Env} {w w' : World} {i : Slot} {buf : ℕ → ℤ} {id : ℤ}
    {notice : Option Notice} (h : w.checkRecord env i buf = some (w', notice))
    (hpassType : buf 0 = 0) (hpass : buf 1 = 1)
    (hkey : checkRecordKey (w.subdevs i) 2 (buf 3) = some id) :
    w.doorOpened env i = some w' ∧ ∃ lockType,
      notice = some (doorOpenNotification (sprintfInt id) lockType) := by
  have htwo : checkRecordType (buf 0) = some 2 := by rw [hpassType]; rfl
  have hopens : (w.subdevs i).opens eventNxpCheckRecord buf = true := by
    unfold SubDev.opens
    rw [if_pos rfl, htwo, Option.bind_some, hkey, hpass]
    rfl
  rcases checkRecord_cases h with ⟨hno, -⟩ | ⟨-, type, id', lockType, htype, hkey', -, hopen, rfl⟩
  · cases hno.symm.trans hopens
  · cases htwo.symm.trans htype
    cases hkey.symm.trans hkey'
    exact ⟨hopen, lockType, rfl⟩

set_option maxRecDepth 100000 in
theorem longestVersion_adds : ∃ w, run lifeStep boot
      (addOne "4999999" ++ [(.quiet, .handle (.nxpReg longestVersion))]) = some w ∧
      (w.productSubSearchByName newLock.name, ((w.subdevs 0).lock.keys 1 0).keyState,
        ((w.subdevs 0).lock.keys 1 0).id) = (some 0, keyStateAdded, dynamicKeyId) :=
    Option.map_eq_some_iff.mp (by decide +kernel)

theorem longestVersion_keeps {w : World} (hw : run lifeStep boot
      (addOne "4999999" ++ [(.quiet, .handle (.nxpReg longestVersion))]) = some w) (k : Fin 128)
    (hk : 0 < k) : ((w.subdevs 0).lock.keys 1 k).keyState = keyStateNone := by
  obtain ⟨w₁, h₁, hw₁⟩ : ∃ w₁, run lifeStep boot (addOne "4999999") = some w₁ ∧
      (w₁.productSubSearchByName newLock.name,
        decide (∀ k, 0 < k → ((w₁.subdevs 0).lock.keys 1 k).keyState = keyStateNone)) =
          (some 0, true) :=
    Option.map_eq_some_iff.mp (by decide +kernel)
  simp only [Prod.mk.injEq, decide_eq_true_eq] at hw₁
  rw [run_append, h₁, Option.bind_some] at hw
  obtain ⟨w₂, h₂, hrun⟩ := Option.bind_eq_some_iff.mp hw
  obtain rfl : w₂ = w := Option.some.inj hrun
  have hslot : (w₂.subdevs 0).lock.keys 1 k = (w₁.subdevs 0).lock.keys 1 k := by
    apply nxpReg_slot (r := longestVersion) hw₁.1
    · exact Nat.lt_add_right _ (by decide)
    · rw [length_longestVersion]
      change 7313 < 140 + 56 * (128 * 1 + k.val)
      omega
    · exact Nat.lt_add_right _ (by decide)
    · exact h₂
  rw [hslot]
  exact hw₁.2 k hk

/-- The password 4999999 has the id of the dynamic passwords, and a long registration makes it an
added key without the lock's answer. -/
theorem password_opens_as_dynamic :
    ¬ ∀ w, Reachable lifeStep (fun _ e => e.2.OnLocks) boot w →
      ∀ env name buf w', w.aflyNxpRptEvent env name eventNxpCheckRecord buf = some w' →
        Recorded env w (w.productSubSearchByName name) (buf 0) (buf 1) (buf 3) w' := by
  intro h
  obtain ⟨w, hw, hkey⟩ := longestVersion_adds
  simp only [Prod.mk.injEq] at hkey
  obtain ⟨hname, hstate, hid⟩ := hkey
  have hreach : Reachable lifeStep (fun _ e => e.2.OnLocks) boot w := by
    refine reachable_of_run hw ?_ .start
    intro e he _
    simp only [addOne, addKeyOp, List.cons_append, List.nil_append, List.mem_cons,
      List.not_mem_nil, or_false] at he
    rcases he with rfl | rfl | rfl | rfl <;> trivial
  obtain ⟨w', hw'⟩ := rptEvent_defined .quiet (ends_of_reachable rfl hreach) newLock.name
    eventNxpCheckRecord (checkBuf dynamicKeyId)
  have hdynamic := (h w hreach .quiet newLock.name _ w' hw').dynamic
  rcases aflyNxpRptEvent_cases hw' with ⟨hno, -⟩ | ⟨i, w₁, notice, hi, he, rfl⟩
  · exact absurd (hname.symm.trans hno) (by simp)
  cases hname.symm.trans hi
  rw [lockEvent, if_pos rfl] at he
  have hrecord : checkRecordKey (w.subdevs 0) 2 (checkBuf dynamicKeyId 3) = some dynamicKeyId := by
    rw [checkBuf_passId]
    exact checkRecordKey_single (by decide) hstate hid (longestVersion_keeps hw)
  obtain ⟨hopen, lockType, rfl⟩ := checkRecord_password he rfl rfl hrecord
  rw [Option.elim_some, notices_opened hopen] at hdynamic
  have hpass := hdynamic _ List.mem_cons_self (opened_doorOpenNotification.mpr (by decide))
  exact absurd hpass.1 (by decide)

end Afly
