import Afly.Gateway.Reports
import Afly.Lib.Reach

/-! # The gateway as a transition system

One step handles one event with the answers that the surroundings give to it:
a scheduler call, a table operation, a request, a report, or a due task. The
results of requests are dropped, and a step is undefined where its handler is.
-/

namespace Afly

inductive Op where
  | schedueAdd (task : TaskRef) (ms : ℤ) (func : TaskFunc) (arg : Option Slot)
  | schedueDel (task : TaskRef)
  | taskRun
  | subAdd (name key : CStr) (secret : Option CStr)
  | subDel (name : CStr)
  | subClr
  | loadAll
  | addSubDev (input : CStr)
  | delSubDev (input : CStr)
  | clrSubDev
  | subdevDeleted (productKey deviceName : Option CStr)
  | xdel (mac : CStr)
  | addKey (i : Slot) (input : CStr)
  | delKey (i : Slot) (input : CStr)
  | clrKey (i : Slot) (input : CStr)
  | getDynamic (i : Slot)
  | oneKeyOpen (i : Slot)
  | nxpReg (r : NxpReg)
  | nxpUnreg (name : CStr)
  | uptOnline (s : NxpStatus)
  | rptEvent (name : CStr) (eid : ℤ) (buf : ℕ → ℤ)

namespace World

/-- A request for the record `i`. `subdev_call_service` looks the service up under the app and the
type of the record and finds none for a free one; the console calls the handler itself, for a record
that the search by name has found. -/
def request (w : World) (i : Slot) (handler : Option World) : Option World :=
  if (w.subdevs i).use = 0 then some w else handler

theorem request_cases {w w' : World} {i : Slot} {handler : Option World}
    (h : w.request i handler = some w') :
    ((w.subdevs i).use = 0 ∧ w' = w) ∨ (w.subdevs i).use ≠ 0 ∧ handler = some w' := by
  unfold request at h
  split_ifs at h with hu
  · cases h; exact Or.inl ⟨hu, rfl⟩
  · exact Or.inr ⟨hu, h⟩

def step (w : World) : Env × Op → Option World
  | (env, .schedueAdd task ms func arg) => w.schedueAdd env 0 task ms func arg
  | (_, .schedueDel task) => w.schedueDel task
  | (env, .taskRun) => w.aflyHandlerTaskRun env
  | (env, .subAdd name key secret) => (w.productSubAdd (env.save 0) name key secret).map (·.1)
  | (env, .subDel name) => some (w.productSubDel (env.save 0) name).1
  | (env, .subClr) => some (w.productSubClr (env.save 0)).1
  | (env, .loadAll) => some (w.productSubLoadAll env).1
  | (env, .addSubDev input) => (w.gatewayAddSubdev env input).map (·.1)
  | (env, .delSubDev input) => (w.gatewayDelSubdev env input).map (·.1)
  | (env, .clrSubDev) => some (w.gatewayClrSubdev env).1
  | (env, .subdevDeleted productKey deviceName) =>
    some (w.eventSubdevDeleted env productKey deviceName)
  | (env, .xdel mac) => some (w.doCmdXdel env mac)
  | (env, .addKey i input) => w.request i ((w.subdevAddKey env i input).map (·.1))
  | (env, .delKey i input) => w.request i ((w.subdevDelKey env i input).map (·.1))
  | (env, .clrKey i input) => w.request i (some (w.subdevClrKey env i input).1)
  | (env, .getDynamic i) => w.request i ((w.subdevGetDynamic env i).map (·.1))
  | (env, .oneKeyOpen i) => w.request i (some (w.subdevOneKeyOpen env i).1)
  | (env, .nxpReg r) => w.aflyNxpReg env r
  | (env, .nxpUnreg name) => some (w.aflyNxpUnreg env name)
  | (env, .uptOnline s) => some (w.aflyNxpUptOnline env s)
  | (env, .rptEvent name eid buf) => w.aflyNxpRptEvent env name eid buf

/-- The state of a new process with an empty table and no db file. -/
def boot : World where
  subdevs := fun _ => .zero
  db := .missing
  gwInfoTask := .zero
  taskList := none
  taskTimer := none
  sdk := .init
  sent := []

/-- The state with one device, in the first record. -/
def single (sd : SubDev) : World := boot.setDev 0 sd

end World

/-- Surroundings where every call succeeds and no text parses. -/
def Env.quiet : Env where
  long := id
  time := fun _ => 1500000000
  clock := fun _ => 0
  save := fun _ => ⟨0, true⟩
  register := 0
  create := 1
  unregister := 0
  destroy := 0
  login := 0
  logout := 0
  trigger := 0
  productInit := 0
  jsonLoads := fun _ => none
  opens := true
  brokenRead := (fun _ => .zero, -2)

/-- The text of an `AddKey` request. -/
def addKeyText (keyStr : CStr) : CStr :=
  "\x7b\"LockType\": 2, \"UserLimit\": 1, \"KeyStr\": \"".toList ++ keyStr ++ "\"\x7d".toList

def Env.parsing (keyStr : CStr) : Env :=
  { Env.quiet with
    jsonLoads := fun s =>
      if s = addKeyText keyStr then
        some (.obj [("LockType", .int 2), ("UserLimit", .int 1), ("KeyStr", .str keyStr)])
      else none }

/-- A request for a password, as an event with its surroundings. -/
def addKeyOp (keyStr : String) : Env × Op :=
  (.parsing keyStr.toList, .addKey 0 (addKeyText keyStr.toList))

def newLock : NxpReg where
  name := firstDevice.deviceName
  model := "1203".toList
  type := "1203".toList
  version := "1.0".toList
  battery := 100
  online := 1
  rssi := 0

def lockWithPassword : SubDev :=
  firstDevice.setBankKey 2 0
    { LockKey.zero with keyState := keyStateAdded, id := 2123456, type := 2 }

def ackBuf (op passId code : ℤ) : ℕ → ℤ := fun k => [op, passId, code].getD k 0

/-- An acknowledgement of the new lock, as an event with its surroundings. -/
def ackOp (op passId code : ℤ) : Env × Op :=
  (.quiet, .rptEvent newLock.name eventNxpAddDelPassRet (ackBuf op passId code))

end Afly
