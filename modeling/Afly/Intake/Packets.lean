import Afly.Intake.Reports

/-! # Packets from ubus

`uproto_handler_ubus_cmd_alink` reads a packet and either fills the result of a
waiting call or hands the packet to the report handler of its attribute. No
member is checked before it is compared. Only reports have a handler: a packet
of the type `cmdResult` names no command.
-/

namespace Afly

inductive Report where
  | rptZclcmd
  | rptAtr
  | rptRegister
  | rptUnregister
  | rptOnline
  | rptNxpList
  | rptNxpNewDeviceAdded
  | rptNxpDeviceDeleted
  | rptNxpLockReboot
  | rptNxpFactoryReset
  | rptNxpStatus
  | rptNxpLockLocalAddPass
  | rptNxpLockLocalDelPass
  | rptNxpLockCheckRecord
  | rptNxpLockPassAdddelResult
  | rptNxpLockPassModResult
  | rptNxpLockDamageAlarm
  | rptNxpLockRptSysStatus
  deriving DecidableEq

def Report.handle (rpt : Report) (envs : ℕ → Env) (w : World) (cmdmac : Option CStr)
    (value : Json) : Except Fault (World × ℤ) :=
  match rpt with
  | .rptZclcmd => w.rptZclcmd cmdmac value
  | .rptAtr => w.rptAtr cmdmac value
  | .rptRegister | .rptUnregister | .rptOnline => w.rptParsed cmdmac
  | .rptNxpList => w.rptNxpList envs value
  | .rptNxpNewDeviceAdded => w.rptNxpNewDeviceAdded envs value
  | .rptNxpDeviceDeleted => .ok (w.rptNxpDeviceDeleted envs value)
  | .rptNxpLockReboot => w.rptNxpLockReboot envs value
  | .rptNxpFactoryReset => w.rptNxpFactoryReset envs value
  | .rptNxpStatus => w.rptNxpStatus envs cmdmac value
  | .rptNxpLockLocalAddPass | .rptNxpLockLocalDelPass => .ok (w, 0)
  | .rptNxpLockCheckRecord => w.rptNxpLockCheckRecord envs cmdmac value
  | .rptNxpLockPassAdddelResult => w.rptNxpLockPassAdddelResult envs cmdmac value
  | .rptNxpLockPassModResult => w.rptNxpLockPassModResult envs cmdmac value
  | .rptNxpLockDamageAlarm => w.rptNxpLockDamageAlarm envs cmdmac value
  | .rptNxpLockRptSysStatus => w.rptNxpLockRptSysStatus envs cmdmac value

/-- The names of `uattrcmds` with their report handlers. -/
def uattrcmds : List (String × Option Report) :=
  [("ember.zb3.zclcmd", some .rptZclcmd),
   ("ember.zb3.atr", some .rptAtr),
   ("ember.zb3.register", some .rptRegister),
   ("ember.zb3.unregister", some .rptUnregister),
   ("ember.zb3.online", some .rptOnline),
   ("mod.device_list", some .rptNxpList),
   ("mod.add_device", none),
   ("mod.del_device", none),
   ("mod.new_device_added", some .rptNxpNewDeviceAdded),
   ("device.device_deleted", some .rptNxpDeviceDeleted),
   ("mod.device_deleted", some .rptNxpDeviceDeleted),
   ("device.lock.reboot", some .rptNxpLockReboot),
   ("device.factory_reset", some .rptNxpFactoryReset),
   ("device.status", some .rptNxpStatus),
   ("device.lock_add_password", none),
   ("device.lock_del_password", none),
   ("device.lock_add_ic_card", none),
   ("device.lock_del_ic_card", none),
   ("device.lock_local_add_password", some .rptNxpLockLocalAddPass),
   ("device.lock_local_del_password", some .rptNxpLockLocalDelPass),
   ("device.lock.del_all_password", none),
   ("device.lock.check_record", some .rptNxpLockCheckRecord),
   ("device.lock.password_adddel_result", some .rptNxpLockPassAdddelResult),
   ("device.lock.modify_password", none),
   ("device.lock.password_modify_result", some .rptNxpLockPassModResult),
   ("device.lock.damage_alarm", some .rptNxpLockDamageAlarm),
   ("device.lock.del_finger_print", none),
   ("device.lock.add_finger_print", none),
   ("device.lock.report_system_status", some .rptNxpLockRptSysStatus)]

def uprotoSearchUattrcmd (attr : CStr) : Option (String × Option Report) :=
  uattrcmds.find? fun cmd => attr = cmd.1.toList

/-- The gateway with the call that waits for a report: its mac, its attribute and its result. -/
structure Uproto where
  world : World
  usyncMac : Option CStr
  usyncAttr : Option CStr
  usyncRet : Option Json

/-- The members of a packet's `data`, where a handler reads an absent value like a null one. -/
structure Packet where
  ctype : CStr
  cmdmac : Option CStr
  attr : Option CStr
  value : Option Json

/-- `uproto_cmd_handler_attr_rpt`, with the value −1 or −2 where there is no report handler. -/
def uprotoCmdHandlerAttrRpt (envs : ℕ → Env) (w : World) (p : Packet) :
    Except Fault (World × ℤ) :=
  (present p.attr).bind fun attr =>
    match uprotoSearchUattrcmd attr with
    | none => .ok (w, -1)
    | some (_, none) => .ok (w, -2)
    | some (_, some rpt) => rpt.handle envs w p.cmdmac (p.value.getD .null)

namespace Uproto

/-- `_uproto_handler_cmd`. The commands of `ucmds` that no packet type names are left out. -/
def handlerCmd (envs : ℕ → Env) (u : Uproto) (p : Packet) : Except Fault Uproto :=
  if p.ctype = "reportAttribute".toList then
    (uprotoCmdHandlerAttrRpt envs u.world p).map fun (w, _) => { u with world := w }
  else .ok u

/-- The packet for the waiting call, or for its report handler. -/
def deliver (envs : ℕ → Env) (u : Uproto) (p : Packet) : Except Fault Uproto :=
  match u.usyncAttr with
  | none => u.handlerCmd envs p
  | some usyncAttr =>
    if p.ctype = "reportAttribute".toList then
      (present p.attr).bind fun attr =>
        if attr = usyncAttr ∧ u.usyncRet.isNone then
          match u.usyncMac with
          | none => .ok { u with usyncRet := p.value }
          | some usyncMac => (present p.cmdmac).bind fun cmdmac =>
              if cmdmac = usyncMac then .ok { u with usyncRet := p.value }
              else u.handlerCmd envs p
        else u.handlerCmd envs p
    else u.handlerCmd envs p

/-- `uproto_handler_ubus_cmd_alink`, which always returns −1. -/
def uprotoHandlerUbusCmdAlink (envs : ℕ → Env) (u : Uproto) (cmd : CStr) : Except Fault Uproto :=
  match (envs 0).jsonLoads cmd with
  | none => .ok u
  | some jpkt =>
    (present (jsonGetString jpkt "from")).bind fun source =>
      if source ≠ "ZB3".toList ∧ source ≠ "NXP".toList then .ok u
      else (present (jsonGetString jpkt "to")).bind fun dest =>
        if dest ≠ "CLOUD".toList then .ok u
        else (present (jsonGetString jpkt "type")).bind fun ctype =>
          if ctype ≠ "cmdResult".toList ∧ ctype ≠ "reportAttribute".toList then .ok u
          else match jsonObjectGet jpkt "data" with
            | none => .ok u
            | some jdata => u.deliver envs {
                ctype := ctype
                cmdmac := jsonGetString jdata "mac"
                attr := jsonGetString jdata "attribute"
                value := jsonObjectGet jdata "value" }

end Uproto

end Afly
