import Afly.C.Hex
import Afly.Gateway.Reports

/-! # Reports from ubus

The report handlers of `uproto.c`: they read the members of a packet's `value`
and call the report functions of `afly.c`. The mac of the packet may be absent,
and a string operation on an absent string is a fault of its own. The answers of
the surroundings are given for each call of such a function.
-/

namespace Afly

/-- Why a packet has no result: a string operation on an absent string, a string that runs over the
record it is copied into, or a task list that does not end. -/
inductive Fault where
  | absent
  | overrun
  | loop
  deriving DecidableEq

def present {α : Type*} : Option α → Except Fault α
  | none => .error .absent
  | some s => .ok s

section Results

variable {α β : Type*} {f : α → β} {x : Except Fault α} {b : β} {fault : Fault}

theorem map_eq_error : x.map f = .error fault ↔ x = .error fault := by
  cases x <;> simp [Except.map]

theorem map_eq_ok : x.map f = .ok b ↔ ∃ a, x = .ok a ∧ f a = b := by
  cases x <;> simp [Except.map]

end Results

abbrev eventNxpReboot : ℤ := 1
abbrev eventNxpFactoryReset : ℤ := 2
abbrev eventNxpModPassRet : ℤ := 5
abbrev eventNxpDamageAlarm : ℤ := 6

/-- What `rpt_nxp_list` and `rpt_nxp_new_device_added` read of a device. -/
def nxpRegOf (jv : Json) : Option NxpReg := do
  let name ← jsonGetString jv "mac"
  let model ← jsonGetString jv "model"
  let type ← jsonGetString jv "type"
  let version ← jsonGetString jv "version"
  some {
    name := name
    model := model
    type := type
    version := version
    battery := jsonGetInt jv "battery" 100
    online := jsonGetInt jv "battery" 0
    rssi := jsonGetInt jv "battery" 100 }

/-- What `rpt_nxp_status` reads of a device. -/
def nxpStatusOf (cmdmac : Option CStr) (jv : Json) : Option NxpStatus := do
  let name ← cmdmac
  let type ← jsonGetString jv "type"
  some {
    name := name
    online := jsonGetInt jv "battery" 0
    type := type
    battery := jsonGetInt jv "battery" (-1)
    passNum := jsonGetInt jv "passwdNum" 0
    passAll := jsonGetInt jv "passwdAll" 49
    cardNum := jsonGetInt jv "cardNum" 0
    cardAll := jsonGetInt jv "cardAll" 0
    fingNum := jsonGetInt jv "fingerNum" 0
    fingAll := jsonGetInt jv "fingerAll" 0
    rssi := jsonGetInt jv "rssi" 100 }

namespace World

def rptReg (env : Env) (w : World) (r : NxpReg) : Except Fault World :=
  match w.aflyNxpReg env r with
  | none => .error .overrun
  | some w => .ok w

/-- `afly_nxp_rpt_event` for a name that may be absent. The search compares the name with the name
of every record in use. -/
def rptEvent (env : Env) (w : World) (name : Option CStr) (eid : ℤ) (buf : List ℤ) :
    Except Fault World :=
  match name with
  | none => if ∃ i, (w.subdevs i).use ≠ 0 then .error .absent else .ok w
  | some name =>
    match w.aflyNxpRptEvent env name eid fun k => buf.getD k 0 with
    | none => .error .loop
    | some w => .ok w

/-- One element of `rpt_nxp_list`, which is skipped when it misses a string. -/
def rptListed (env : Env) (w : World) (jv : Json) : Except Fault World :=
  match nxpRegOf jv with
  | none => .ok w
  | some r => w.rptReg env r

/-- The loop of `rpt_nxp_list`. -/
def rptEach (envs : ℕ → Env) : ℕ → List Json → World → Except Fault World
  | _, [], w => .ok w
  | k, jv :: l, w => (w.rptListed (envs k) jv).bind fun w => rptEach envs (k + 1) l w

def rptNxpList (envs : ℕ → Env) (w : World) (value : Json) : Except Fault (World × ℤ) :=
  match jsonObjectGet value "device_list" with
  | none => .ok (w, -1)
  | some (.arr l) => (rptEach envs 0 l w).map fun w => (w, 0)
  | some _ => .ok (w, -2)

def rptNxpNewDeviceAdded (envs : ℕ → Env) (w : World) (value : Json) : Except Fault (World × ℤ) :=
  match nxpRegOf value with
  | none => .ok (w, -1)
  | some r => (w.rptReg (envs 0) r).map fun w => (w, 0)

def rptNxpDeviceDeleted (envs : ℕ → Env) (w : World) (value : Json) : World × ℤ :=
  match jsonGetString value "mac" with
  | none => (w, -1)
  | some name => (w.aflyNxpUnreg (envs 0) name, 0)

/-- An event of the device that `value` names. -/
def rptNamed (eid : ℤ) (envs : ℕ → Env) (w : World) (value : Json) : Except Fault (World × ℤ) :=
  match jsonGetString value "mac" with
  | none => .ok (w, -1)
  | some name => (w.rptEvent (envs 0) name eid []).map fun w => (w, 0)

def rptNxpLockReboot : (ℕ → Env) → World → Json → Except Fault (World × ℤ) :=
  rptNamed eventNxpReboot

def rptNxpFactoryReset : (ℕ → Env) → World → Json → Except Fault (World × ℤ) :=
  rptNamed eventNxpFactoryReset

def rptNxpStatus (envs : ℕ → Env) (w : World) (cmdmac : Option CStr) (value : Json) :
    Except Fault (World × ℤ) :=
  match nxpStatusOf cmdmac value with
  | none => .ok (w, -1)
  | some s =>
    let w := w.aflyNxpUptOnline (envs 0) s
    if s.battery < 30 ∧ s.online ≠ 0 then
      (w.rptEvent (envs 1) s.name eventNxpSysStatus [0, 1]).map fun w => (w, 0)
    else .ok (w, 0)

def rptNxpLockCheckRecord (envs : ℕ → Env) (w : World) (cmdmac : Option CStr) (value : Json) :
    Except Fault (World × ℤ) :=
  let passType := jsonGetInt value "passType" (-1)
  let pass := jsonGetInt value "pass" (-1)
  let time := jsonGetInt value "time" (-1)
  let passId := jsonGetInt value "passId" (-1)
  let passVal₁ := jsonGetInt value "passVal1" (-1)
  if ¬ (passType = 0 ∨ passType = 1 ∨ passType = 5) then .ok (w, -1)
  else if time = -1 ∨ passId = -1 then .ok (w, -2)
  else if passVal₁ = -1 then .ok (w, -3)
  else (w.rptEvent (envs 0) cmdmac eventNxpCheckRecord
    [passType, pass, time, passId, passVal₁]).map fun w => (w, 0)

/-- The parameters of an answer to a password command: the device, the operation, the pass id and
the code. -/
def passResult (cmdmac : Option CStr) (value : Json) : Option (CStr × CStr × ℤ × ℤ) :=
  let passId := jsonGetInt value "passId" (-1)
  let code := jsonGetInt value "code" (-1)
  match cmdmac, jsonGetString value "operation" with
  | some name, some op =>
    if passId = -1 ∨ ¬ (code ≥ 0 ∨ code ≤ 20) then none else some (name, op, passId, code)
  | _, _ => none

def rptNxpLockPassAdddelResult (envs : ℕ → Env) (w : World) (cmdmac : Option CStr) (value : Json) :
    Except Fault (World × ℤ) :=
  match passResult cmdmac value with
  | none => .ok (w, -1)
  | some (name, op, passId, code) =>
    (w.rptEvent (envs 0) name eventNxpAddDelPassRet
      [if op = "add".toList then 1 else 0, passId, code]).map fun w => (w, 0)

def rptNxpLockPassModResult (envs : ℕ → Env) (w : World) (cmdmac : Option CStr) (value : Json) :
    Except Fault (World × ℤ) :=
  match passResult cmdmac value with
  | none => .ok (w, -1)
  | some (name, op, passId, code) =>
    if op ≠ "modify".toList then .ok (w, -2)
    else (w.rptEvent (envs 0) name eventNxpModPassRet [2, passId, code]).map fun w => (w, 0)

def rptNxpLockDamageAlarm (envs : ℕ → Env) (w : World) (cmdmac : Option CStr) (value : Json) :
    Except Fault (World × ℤ) :=
  let alarmStatus := jsonGetInt value "alarmStatus" (-1)
  let time := jsonGetInt value "time" (-1)
  match cmdmac with
  | none => .ok (w, -1)
  | some name =>
    if time = -1 ∨ alarmStatus = -1 then .ok (w, -1)
    else (w.rptEvent (envs 0) name eventNxpDamageAlarm [alarmStatus, time]).map fun w => (w, 0)

def rptNxpLockRptSysStatus (envs : ℕ → Env) (w : World) (cmdmac : Option CStr) (value : Json) :
    Except Fault (World × ℤ) :=
  match cmdmac, jsonGetString value "systemStatus" with
  | some name, some systemStatus =>
    (w.rptEvent (envs 0) name eventNxpSysStatus
      [if systemStatus = "systemLock".toList then 1 else 0,
       if systemStatus = "lowPowerAlarm".toList then 1 else 0]).map fun w => (w, 0)
  | _, _ => .ok (w, -1)

/-- `rpt_register`, `rpt_unregister` and `rpt_online`, which parse the mac and do nothing else. -/
def rptParsed (w : World) (cmdmac : Option CStr) : Except Fault (World × ℤ) :=
  (present cmdmac).map fun _ => (w, 0)

/-- The handlers of cluster reports, which only look at the number of bytes of a member. -/
def rptBytes (member : String) (least : ℕ) (w : World) (cmdmac : Option CStr) (value : Json) :
    Except Fault (World × ℤ) :=
  match jsonGetString value "endpoint", jsonGetString value "cluster",
      jsonGetString value member with
  | some _, some _, some valstr => (present cmdmac).map fun _ =>
      match hexParse 64 valstr with
      | none => (w, -2)
      | some bytes => (w, if bytes.length < least then -2 else 0)
  | _, _, _ => .ok (w, -1)

def rptZclcmd : World → Option CStr → Json → Except Fault (World × ℤ) := rptBytes "value" 3

def rptAtr : World → Option CStr → Json → Except Fault (World × ℤ) := rptBytes "data" 4

theorem rptEvent_eq_ok {env : Env} {w w' : World} {name : CStr} {eid : ℤ} {buf : List ℤ}
    (h : w.rptEvent env (some name) eid buf = .ok w') :
    w.aflyNxpRptEvent env name eid (fun k => buf.getD k 0) = some w' := by
  unfold rptEvent at h
  dsimp only at h
  split at h
  · cases h
  · rename_i heq
    cases h
    exact heq

end World

end Afly
