import Afly.Gateway.Requests

/-! # Reports of the lock module

What `afly.c` does when a device registers, goes online or offline, leaves, or
reports an event, and what it does when a scheduled task is due. The strings of
a registration are copied without a look at their length.
-/

namespace Afly

/-- The arguments of `afly_nxp_reg`. -/
structure NxpReg where
  name : CStr
  model : CStr
  type : CStr
  version : CStr
  battery : ℤ
  online : ℤ
  rssi : ℤ

/-- The arguments of `afly_nxp_upt_online`. -/
structure NxpStatus where
  name : CStr
  online : ℤ
  type : CStr
  battery : ℤ
  passNum : ℤ
  passAll : ℤ
  cardNum : ℤ
  cardAll : ℤ
  fingNum : ℤ
  fingAll : ℤ
  rssi : ℤ

abbrev eventNxpCheckRecord : ℤ := 3
abbrev eventNxpAddDelPassRet : ℤ := 4
abbrev eventNxpSysStatus : ℤ := 7

/-- The record after the copies of `afly_nxp_reg`, in the order type, version, model, app. -/
def SubDev.report (sd : SubDev) (r : NxpReg) : Option SubDev := do
  let app := "NXP".toList
  let model := if r.model.length < 32 then r.model else r.model.take 32 ++ app
  let version := if r.version.length < 32 then r.version else r.version.take 32 ++ model
  let type := if r.type.length < 32 then r.type else r.type.take 32 ++ version
  let sd ← sd.spill (overrun 128 r.type)
  let sd ← sd.spill (overrun 96 r.version)
  let sd ← sd.spill (overrun 64 r.model)
  some { sd with
    battery := r.battery
    online := r.online
    type := type
    version := version
    model := model
    app := app
    rssi := r.rssi }

/-- The lock type of a pass id, or nothing for an id the gateway does not know. -/
def passIdType (passId : ℤ) : Option ℤ :=
  if 2000000 ≤ passId ∧ passId < 3000000 then some 2
  else if 3000000 ≤ passId ∧ passId < 4000000 then some 3
  else if 1000000 ≤ passId ∧ passId < 2000000 then some 1
  else if 5000000 ≤ passId ∧ passId < 6000000 then some 2
  else if passId ≠ 0 ∧ passId ≠ 999999 ∧ passId ≠ 888888 then none
  else some 0

/-- The lock type of a check record's pass type. -/
def checkRecordType (passType : ℤ) : Option ℤ :=
  if passType = 0 then some 2
  else if passType = 11 then some 3
  else if passType = 21 then some 1
  else if passType = 5 then some 2
  else if passType = 1 then some 6
  else none

/-- The id of the key that a check record is about. Dynamic passwords share one id. -/
def checkRecordKey (sd : SubDev) (type passId : ℤ) : Option ℤ :=
  if type = 6 then some 6999999
  else match productSubLockGetKeyById sd type passId with
    | none => none
    | some j =>
      if (sd.bank type j).keyState ≠ keyStateAdded then none else some (sd.bank type j).id

namespace World

def reportAllStatus (w : World) (i : Slot) : World :=
  let sd := w.subdevs i
  w.setSdk (w.sdk.post sd.devid
    [("BatteryPercentage", .int sd.battery), ("LinkType", .str sd.app),
     ("Version", .str sd.version), ("Model", .str sd.model)])

/-- The login or logout that follows an online report, and the post of the status. -/
def syncLogin (env : Env) (w : World) (i : Slot) (online : ℤ) : World :=
  let sd := w.subdevs i
  let w :=
    if online ≠ 0 then
      if sd.login = 0 then
        (w.setSdk (w.sdk.login sd.devid env.login)).setDev i
          { sd with login := if env.login = 0 then 1 else 0 }
      else w
    else if sd.login ≠ 0 then
      (w.setSdk (w.sdk.logout sd.devid env.logout)).setDev i
        { sd with login := if env.logout = 0 then 0 else 1 }
    else w
  if (w.subdevs i).login ≠ 0 then w.reportAllStatus i else w

/-- The record that a registration is about, added when the name is new. -/
def registerRecord (env : Env) (w : World) (r : NxpReg) : Option (World × Option Slot) :=
  match w.productSubSearchByName r.name with
  | some i => some (w, some i)
  | none =>
    match productSubGetProductKeyByTypeOrModel r.type r.model with
    | none => some (w.send (.delDevice r.name "1203".toList), none)
    | some spk => (w.productSubAdd (env.save 0) r.name spk.productKey none).map fun (w, _) =>
        (w, w.productSubSearchByName r.name)

/-- `linkkit_gateway_subdev_create` for the record `i`, with the handle stored. -/
def createHandle (env : Env) (w : World) (i : Slot) : World :=
  if env.create < 0 then w
  else (w.setSdk (w.sdk.create i env.create)).setDev i { w.subdevs i with devid := env.create }

/-- Register a record without a handle, and tell whether it has one afterwards. -/
def openHandle (env : Env) (w : World) (i : Slot) : World × Bool :=
  if (w.subdevs i).devid ≠ 0 then (w, true)
  else if env.register < 0 then (w, false)
  else (w.createHandle env i, decide (0 ≤ env.create))

/-- Store what a registration reports, and ask for a dynamic password. -/
def storeReport (env : Env) (w : World) (i : Slot) (r : NxpReg) : Option World :=
  ((w.subdevs i).report r).map fun sd =>
    let w := (w.setDev i sd).productSubSave i (env.save 1)
    if sd.dynamic = 0 then w.provision env i else w

def aflyNxpReg (env : Env) (w : World) (r : NxpReg) : Option World := do
  let (w, found) ← w.registerRecord env r
  match found with
  | none => some w
  | some i =>
    let (w, ready) := w.openHandle env i
    if ready then (w.storeReport env i r).map fun w => w.syncLogin env i r.online else some w

def aflyNxpUnreg (env : Env) (w : World) (name : CStr) : World :=
  match w.productSubSearchByName name with
  | none => w
  | some i =>
    let sd := w.subdevs i
    if sd.devid = 0 then w
    else
      let w := w.setSdk (w.sdk.destroy sd.devid env.destroy)
      if env.destroy ≠ 0 then w
      else if env.unregister ≠ 0 then w
      else (w.productSubDel (env.save 0) sd.deviceName).1

/-- The record after an online report. -/
def storeStatus (w : World) (i : Slot) (s : NxpStatus) : World :=
  let sd := w.subdevs i
  let lock :=
    if s.type.take 4 = "1203".toList then
      { sd.lock with passNum := s.passNum, passAll := s.passAll, cardNum := s.cardNum,
                     cardAll := s.cardAll, fingNum := s.fingNum, fingAll := s.fingAll }
    else sd.lock
  w.setDev i { sd with online := s.online, battery := s.battery, lock := lock, rssi := s.rssi }

def aflyNxpUptOnline (env : Env) (w : World) (s : NxpStatus) : World :=
  match w.productSubSearchByName s.name with
  | none => w
  | some i =>
    if (w.subdevs i).devid = 0 then w
    else ((w.storeStatus i s).productSubSave i (env.save 0)).syncLogin env i s.online

/-- Set the lock status of the record `i` and post it. -/
def postLockState (w : World) (i : Slot) (status : ℤ) : World :=
  let sd := w.subdevs i
  (w.setDev i { sd with lock := { sd.lock with lockStatus := status } }).setSdk
    (w.sdk.post sd.devid [("LockState", .int status)])

def subdevTimeoutFunc (w : World) (arg : Option Slot) : Option World :=
  arg.map fun i => w.postLockState i 0

/-- The lock status and the timeout task of an opened door. -/
def doorOpened (env : Env) (w : World) (i : Slot) : Option World :=
  (w.postLockState i 1).schedule env 0 (.sub i) 5000 .subdevTimeoutFunc (some i)

def productSubLockAddKeyComplete (r : SaveResult) (w : World) (i : Slot) (type id : ℤ) :
    World × ℤ :=
  let sd := w.subdevs i
  match firstAdding sd type id with
  | none => (w, -1)
  | some j =>
    ((w.setDev i (sd.setBankKey type j { sd.bank type j with keyState := keyStateAdded })
      ).productSubSave i r, r.ret)

def productSubLockDelKey (r : SaveResult) (w : World) (i : Slot) (type id : ℤ) : World × ℤ :=
  let sd := w.subdevs i
  match firstAdded sd type id with
  | none => (w, -1)
  | some j => ((w.setDev i (sd.setBankKey type j .zero)).productSubSave i r, r.ret)

/-- One round of `product_sub_lock_clr_key`. -/
def clrKeyRound (env : Env) (i : Slot) (type : ℤ) (w : World) (j : Fin 128) : World :=
  let sd := w.subdevs i
  if (sd.bank type j).keyState = keyStateNone then w
  else (w.setDev i (sd.setBankKey type j .zero)).productSubSave i (env.save j)

def productSubLockClrKey (env : Env) (w : World) (i : Slot) (type : ℤ) : World × ℤ :=
  ((List.finRange 128).foldl (clrKeyRound env i type) w, 0)

def productSubLockAddDynamicComplete (r : SaveResult) (w : World) (i : Slot) : World × ℤ :=
  ((w.setDev i { w.subdevs i with dynamic := 1 }).productSubSave i r, r.ret)

/-- The case `EVENT_NXP_CHECK_RECORD`. -/
def checkRecord (env : Env) (w : World) (i : Slot) (buf : ℕ → ℤ) :
    Option (World × Option Notice) :=
  match checkRecordType (buf 0) with
  | none => some (w, none)
  | some type =>
    let sd := w.subdevs i
    let lockType := if type = 6 then 2 else type
    match checkRecordKey sd type (buf 3) with
    | none => some (w, none)
    | some id =>
      if buf 1 = 1 then (w.doorOpened env i).map fun w =>
        (w, some ⟨"DoorOpenNotification",
          [("KeyID", .str (sprintfInt id)), ("LockType", .int lockType)]⟩)
      else some (w, none)

def keyAck (env : Env) (w : World) (i : Slot) (type op passId code : ℤ) :
    World × Option Notice :=
  let sd := w.subdevs i
  match productSubLockGetKeyById sd type passId with
  | none => (w, none)
  | some j =>
    let key := sd.bank type j
    if ¬ ((key.keyState = keyStateAdding ∧ op = 1) ∨ (key.keyState = keyStateAdded ∧ op = 0)) then
      (w, none)
    else
      let keyID := sprintfInt passId
      let keyStr := snprintfStr key.len (cstr (List.ofFn key.buf))
      if code ≠ 0 then (w, none)
      else if op = 1 then
        ((w.productSubLockAddKeyComplete (env.save 0) i type passId).1,
          some ⟨"KeyAddedNotification", [("KeyID", .str keyID), ("LockType", .int type),
            ("UserLimit", .int key.limit), ("KeyStr", .str keyStr)]⟩)
      else
        ((w.productSubLockDelKey (env.save 0) i type passId).1,
          some ⟨"KeyDeletedNotification", [("KeyID", .str keyID), ("LockType", .int type)]⟩)

/-- The case `EVENT_NXP_ADD_DEL_PASS_RET`. -/
def addDelPassRet (env : Env) (w : World) (i : Slot) (op passId code : ℤ) :
    Option (World × Option Notice) :=
  match passIdType passId with
  | none => some (w, none)
  | some type =>
    if passId = 0 then some ((w.productSubLockClrKey env i type).1,
      some ⟨"ClearKeyNotifycation", [("LockType", .int 2)]⟩)
    else if passId = 999999 then
      some ((w.productSubLockAddDynamicComplete (env.save 0) i).1, none)
    else if passId = 888888 then (w.doorOpened env i).map fun w =>
      (w, some ⟨"DoorOpenNotification",
        [("KeyID", .str "7888888".toList), ("LockType", .int 2)]⟩)
    else some (w.keyAck env i type op passId code)

/-- The case `EVENT_NXP_SYS_STATUS`. -/
def sysStatus (buf : ℕ → ℤ) : Option Notice :=
  if buf 0 ≠ 0 then some ⟨"Error", [("ErrorCode", .int 0)]⟩
  else if buf 1 ≠ 0 then some ⟨"LowElectricityAlarm", []⟩
  else none

/-- The event switch of `afly_nxp_rpt_event`, with the notice for the cloud. -/
def lockEvent (env : Env) (w : World) (i : Slot) (eid : ℤ) (buf : ℕ → ℤ) :
    Option (World × Option Notice) :=
  if eid = eventNxpCheckRecord then w.checkRecord env i buf
  else if eid = eventNxpAddDelPassRet then w.addDelPassRet env i (buf 0) (buf 1) (buf 2)
  else if eid = eventNxpSysStatus then some (w, sysStatus buf)
  else some (w, none)

/-- Trigger an event, and register anew when the cloud does not know the device. -/
def triggerEvent (env : Env) (w : World) (i : Slot) (notice : Notice) : World :=
  let devid := (w.subdevs i).devid
  let w := w.setSdk (w.sdk.record devid (.trigger devid notice))
  if env.trigger = -520 then
    if env.register < 0 then w else w.createHandle env i
  else w

def aflyNxpRptEvent (env : Env) (w : World) (name : CStr) (eid : ℤ) (buf : ℕ → ℤ) :
    Option World :=
  match w.productSubSearchByName name with
  | none => some w
  | some i => (w.lockEvent env i eid buf).map fun
      | (w, none) => w
      | (w, some notice) => w.triggerEvent env i notice

def gwInfoFunc (env : Env) (k : ℕ) (w : World) : Option World :=
  let w := if env.productInit > 0 then w.setSdk (w.sdk.onGateway .postAllProperties) else w
  w.schedule env k .gwInfoTask (if env.productInit < 0 then 1000 else 20 * 60 * 1000)
    .gwInfoFunc none

/-- Call the function of a task. There is no result for a null function. -/
def runTask (env : Env) (k : ℕ) (w : World) (task : Task) : Option World :=
  match task.func with
  | none => none
  | some .gwInfoFunc => w.gwInfoFunc env k
  | some .subdevTimeoutFunc => w.subdevTimeoutFunc task.arg

/-- Take the first task off the list and call it. -/
def runFirstTask (env : Env) (w : World) : Option World := do
  let first ← w.sched.schedueFirstTaskToExec fuel env.long
  let task ← first
  let w ← w.schedueDel task
  w.runTask env 1 (w.sched.heap task)

def aflyHandlerTaskRun (env : Env) (w : World) : Option World := do
  let delt ← w.schedueFirstTaskDelay env 0
  if delt < 0 then some w
  else
    (if delt = 0 then w.runFirstTask env else some w).bind fun w =>
      (w.schedueFirstTaskDelay env 4).map fun delt =>
        if delt < 0 then w else w.timerSet env 5 delt

end World

end Afly
