import Afly.C.Json
import Afly.Registry.Record

/-! # The state of the gateway process

A `World` holds what the gateway and its surroundings remember: the record
table and the db file, the task list and its timer, the handles of the cloud
SDK, and the commands sent to the lock module. The answers that one event gets
from outside (clocks, SDK results, file outcomes, parsed texts) form an `Env`.
-/

namespace Afly

/-- What the db file holds: nothing, bytes that no complete save wrote, or a table. -/
inductive DbFile where
  | missing
  | broken
  | whole (t : Slot → SubDev)

def DbFile.write (db : DbFile) (i : Slot) (sd : SubDev) : DbFile :=
  match db with
  | .whole t => .whole (Function.update t i sd)
  | db => db

/-- The outcome of a save: the code it returns, and whether the file holds the new bytes. -/
structure SaveResult where
  ret : ℤ
  kept : Bool

/-- An event for the cloud: its identifier and its members. -/
structure Notice where
  identifier : String
  event : List (String × Json)

/-- The calls that use a handle, and the posts on the gateway's own handle. -/
inductive SdkCall where
  | login (devid : ℤ)
  | logout (devid : ℤ)
  | post (devid : ℤ) (property : List (String × Json))
  | trigger (devid : ℤ) (notice : Notice)
  | postGateway (property : List (String × Json))
  | postAllProperties

/-- The cloud SDK: the record each live handle is bound to, the handles handed out so far, the
login states, and every call with whether its handle was live. -/
structure Sdk where
  bound : ℤ → Option Slot
  issued : List ℤ
  loggedIn : ℤ → Bool
  calls : List (SdkCall × Bool)

namespace Sdk

def init : Sdk := ⟨fun _ => none, [], fun _ => false, []⟩

def live (sdk : Sdk) (devid : ℤ) : Bool := (sdk.bound devid).isSome

def record (sdk : Sdk) (devid : ℤ) (call : SdkCall) : Sdk :=
  { sdk with calls := sdk.calls ++ [(call, sdk.live devid)] }

/-- `linkkit_gateway_subdev_create` with result `ret`. -/
def create (sdk : Sdk) (i : Slot) (ret : ℤ) : Sdk :=
  if 0 < ret then
    { sdk with bound := Function.update sdk.bound ret (some i), issued := ret :: sdk.issued,
               loggedIn := Function.update sdk.loggedIn ret false }
  else sdk

/-- `linkkit_gateway_subdev_destroy` with result `ret`. A destroyed handle is logged out. -/
def destroy (sdk : Sdk) (devid ret : ℤ) : Sdk :=
  if ret = 0 then
    { sdk with bound := Function.update sdk.bound devid none,
               loggedIn := Function.update sdk.loggedIn devid false }
  else sdk

/-- `linkkit_gateway_subdev_login` with result `ret`. -/
def login (sdk : Sdk) (devid ret : ℤ) : Sdk :=
  let sdk := sdk.record devid (.login devid)
  if ret = 0 then { sdk with loggedIn := Function.update sdk.loggedIn devid true } else sdk

/-- `linkkit_gateway_subdev_logout` with result `ret`. -/
def logout (sdk : Sdk) (devid ret : ℤ) : Sdk :=
  let sdk := sdk.record devid (.logout devid)
  if ret = 0 then { sdk with loggedIn := Function.update sdk.loggedIn devid false } else sdk

/-- `linkkit_gateway_post_property_json_sync` on the handle of a device. -/
def post (sdk : Sdk) (devid : ℤ) (property : List (String × Json)) : Sdk :=
  sdk.record devid (.post devid property)

/-- A call on the gateway's own handle, which is never destroyed. -/
def onGateway (sdk : Sdk) (call : SdkCall) : Sdk :=
  { sdk with calls := sdk.calls ++ [(call, true)] }

end Sdk

/-- The commands of `nxpx.c`, with the members of their `value`. -/
inductive NxpCmd where
  | deviceList
  | addDevice (mac type : CStr)
  | delDevice (mac type : CStr)
  | addPassword (mac : CStr) (passId passType suspend startTime endTime passVal1 passVal2 : ℤ)
  | delPassword (mac : CStr) (passId passType clearAll : ℤ)
  deriving DecidableEq

/-- The answers of the outside world while one event is handled. -/
structure Env where
  /-- What a `long` of the target keeps of an integer. -/
  long : ℤ → ℤ
  /-- The successive values of `time(NULL)`. -/
  time : ℕ → ℤ
  /-- The successive readings of the monotonic clock, in milliseconds. -/
  clock : ℕ → ℤ
  /-- The outcomes of the successive saves. -/
  save : ℕ → SaveResult
  register : ℤ
  create : ℤ
  unregister : ℤ
  destroy : ℤ
  login : ℤ
  logout : ℤ
  trigger : ℤ
  productInit : ℤ
  /-- What the JSON library makes of a text. -/
  jsonLoads : CStr → Option Json
  /-- Whether the db file can be opened. -/
  opens : Bool
  /-- The table and the result after a read of a broken file. -/
  brokenRead : (Slot → SubDev) × ℤ

/-- The state of the gateway process and its surroundings. -/
structure World where
  subdevs : Slot → SubDev
  db : DbFile
  gwInfoTask : Task
  taskList : Option TaskRef
  taskTimer : Option ℤ
  sdk : Sdk
  sent : List NxpCmd

namespace World

def setDev (w : World) (i : Slot) (sd : SubDev) : World :=
  { w with subdevs := Function.update w.subdevs i sd }

def setSdk (w : World) (sdk : Sdk) : World := { w with sdk := sdk }

def send (w : World) (cmd : NxpCmd) : World := { w with sent := w.sent ++ [cmd] }

/-- `product_sub_save(sd, 0, sizeof(*sd))` on the record `i`. -/
def productSubSave (w : World) (i : Slot) (r : SaveResult) : World :=
  if r.kept then { w with db := w.db.write i (w.subdevs i) } else w

def productSubSaveAll (w : World) (r : SaveResult) : World :=
  if r.kept then { w with db := .whole w.subdevs }
  else if r.ret = -1 then w else { w with db := .broken }

/-- The task list, with the records that lie inside the device records. -/
def sched (w : World) : Sched TaskRef TaskFunc Slot where
  heap
    | .gwInfoTask => w.gwInfoTask
    | .sub i => (w.subdevs i).task
  taskList := w.taskList

def setSched (w : World) (s : Sched TaskRef TaskFunc Slot) : World :=
  { w with
    subdevs := fun i => { w.subdevs i with task := s.heap (.sub i) }
    gwInfoTask := s.heap .gwInfoTask
    taskList := s.taskList }

/-- The number of task records: no list without a ring is longer. -/
def fuel : ℕ := 41

def schedueAdd (env : Env) (k : ℕ) (w : World) (task : TaskRef) (ms : ℤ) (func : TaskFunc)
    (arg : Option Slot) : Option World :=
  (w.sched.schedueAdd fuel (env.long (env.clock k)) task ms (some func) arg).map w.setSched

def schedueDel (w : World) (task : TaskRef) : Option World :=
  (w.sched.schedueDel fuel task).map w.setSched

def schedueFirstTaskDelay (env : Env) (k : ℕ) (w : World) : Option ℤ :=
  w.sched.schedueFirstTaskDelay fuel env.long (env.long (env.clock k))

/-- `timer_set(env.th, &env.task_timer, delt)`. -/
def timerSet (env : Env) (k : ℕ) (w : World) (delt : ℤ) : World :=
  { w with taskTimer := some (env.clock k + delt) }

/-- Schedule a task and set the timer to the first deadline, as every caller of `schedue_add`
does. -/
def schedule (env : Env) (k : ℕ) (w : World) (task : TaskRef) (ms : ℤ) (func : TaskFunc)
    (arg : Option Slot) : Option World :=
  (w.schedueAdd env k task ms func arg).bind fun w =>
    (w.schedueFirstTaskDelay env (k + 1)).map fun delt => w.timerSet env (k + 2) delt

@[simp] theorem setDev_subdevs (w : World) (i : Slot) (sd : SubDev) :
    (w.setDev i sd).subdevs = Function.update w.subdevs i sd := rfl
@[simp] theorem setDev_sdk (w : World) (i : Slot) (sd : SubDev) : (w.setDev i sd).sdk = w.sdk := rfl
@[simp] theorem setDev_sent (w : World) (i : Slot) (sd : SubDev) :
    (w.setDev i sd).sent = w.sent := rfl
@[simp] theorem setDev_db (w : World) (i : Slot) (sd : SubDev) : (w.setDev i sd).db = w.db := rfl
@[simp] theorem setSdk_subdevs (w : World) (sdk : Sdk) : (w.setSdk sdk).subdevs = w.subdevs := rfl
@[simp] theorem setSdk_sdk (w : World) (sdk : Sdk) : (w.setSdk sdk).sdk = sdk := rfl
@[simp] theorem setSdk_sent (w : World) (sdk : Sdk) : (w.setSdk sdk).sent = w.sent := rfl
@[simp] theorem setSdk_db (w : World) (sdk : Sdk) : (w.setSdk sdk).db = w.db := rfl
@[simp] theorem send_subdevs (w : World) (cmd : NxpCmd) : (w.send cmd).subdevs = w.subdevs := rfl
@[simp] theorem send_sdk (w : World) (cmd : NxpCmd) : (w.send cmd).sdk = w.sdk := rfl
@[simp] theorem send_sent (w : World) (cmd : NxpCmd) : (w.send cmd).sent = w.sent ++ [cmd] := rfl
@[simp] theorem send_db (w : World) (cmd : NxpCmd) : (w.send cmd).db = w.db := rfl

@[simp] theorem productSubSave_subdevs (w : World) (i : Slot) (r : SaveResult) :
    (w.productSubSave i r).subdevs = w.subdevs := by unfold productSubSave; split <;> rfl
@[simp] theorem productSubSave_sdk (w : World) (i : Slot) (r : SaveResult) :
    (w.productSubSave i r).sdk = w.sdk := by unfold productSubSave; split <;> rfl
@[simp] theorem productSubSave_sent (w : World) (i : Slot) (r : SaveResult) :
    (w.productSubSave i r).sent = w.sent := by unfold productSubSave; split <;> rfl
@[simp] theorem productSubSaveAll_subdevs (w : World) (r : SaveResult) :
    (w.productSubSaveAll r).subdevs = w.subdevs := by
  unfold productSubSaveAll; split_ifs <;> rfl
@[simp] theorem productSubSaveAll_sdk (w : World) (r : SaveResult) :
    (w.productSubSaveAll r).sdk = w.sdk := by unfold productSubSaveAll; split_ifs <;> rfl
@[simp] theorem productSubSaveAll_sent (w : World) (r : SaveResult) :
    (w.productSubSaveAll r).sent = w.sent := by unfold productSubSaveAll; split_ifs <;> rfl

@[simp] theorem sched_setSched (w : World) (s : Sched TaskRef TaskFunc Slot) :
    (w.setSched s).sched = s := by
  cases s with
  | mk heap taskList =>
    unfold sched setSched
    congr 1
    funext t
    cases t <;> rfl

/-- Two states that differ at most in task records, task list and timer. -/
structure TasksOnly (w w' : World) : Prop where
  subdevs : ∀ i, w'.subdevs i = { w.subdevs i with task := (w'.subdevs i).task }
  db : w'.db = w.db
  sdk : w'.sdk = w.sdk
  sent : w'.sent = w.sent

theorem TasksOnly.trans {w₁ w₂ w₃ : World} (h : TasksOnly w₁ w₂) (h' : TasksOnly w₂ w₃) :
    TasksOnly w₁ w₃ where
  subdevs i := by rw [h'.subdevs i, h.subdevs i]
  db := h'.db.trans h.db
  sdk := h'.sdk.trans h.sdk
  sent := h'.sent.trans h.sent

theorem tasksOnly_setSched (w : World) (s : Sched TaskRef TaskFunc Slot) :
    TasksOnly w (w.setSched s) := ⟨fun _ => rfl, rfl, rfl, rfl⟩

theorem tasksOnly_schedueAdd {env : Env} {k : ℕ} {w w' : World} {task : TaskRef} {ms : ℤ}
    {func : TaskFunc} {arg : Option Slot} (h : w.schedueAdd env k task ms func arg = some w') :
    TasksOnly w w' := by
  obtain ⟨s, -, rfl⟩ := Option.map_eq_some_iff.mp h
  exact tasksOnly_setSched w s

theorem tasksOnly_schedueDel {w w' : World} {task : TaskRef} (h : w.schedueDel task = some w') :
    TasksOnly w w' := by
  obtain ⟨s, -, rfl⟩ := Option.map_eq_some_iff.mp h
  exact tasksOnly_setSched w s

theorem tasksOnly_schedule {env : Env} {k : ℕ} {w w' : World} {task : TaskRef} {ms : ℤ}
    {func : TaskFunc} {arg : Option Slot} (h : w.schedule env k task ms func arg = some w') :
    TasksOnly w w' := by
  obtain ⟨w₁, h₁, h₂⟩ := Option.bind_eq_some_iff.mp h
  obtain ⟨delt, -, rfl⟩ := Option.map_eq_some_iff.mp h₂
  exact (tasksOnly_schedueAdd h₁).trans ⟨fun _ => rfl, rfl, rfl, rfl⟩

end World

end Afly
