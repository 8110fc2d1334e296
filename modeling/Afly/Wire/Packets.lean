import Afly.Intake.Waiting
import Afly.Lib.Keyed
import Afly.Load.RoundTrip

/-! # Commands on the bus

`uproto_call` puts a command into a message and sends its text twice, to the lock
module and to the Zigbee module. A message can be stored, whatever strings a
command has in it.
-/

namespace Afly

open Load

def jsonObjectDel (obj : List (String × Json)) (key : String) : List (String × Json) :=
  Keyed.drop key obj

/-- An event of ubus with its string `PKT`. -/
structure UbusEvent where
  id : String
  pkt : CStr

def uprotoEventIdReport : String := "DS.EMBER.COMMAND"

def uprotoEventIdReportNxp : String := "DS.NXP"

def redirect (jmsg : List (String × Json)) (dest : String) : List (String × Json) :=
  jsonObjectSetNew (jsonObjectDel jmsg "to") "to" (jsonString dest.toList)

/-- `uproto_ubus_send`: the events that it sends. -/
def uprotoUbusSend (dtostr : Double → CStr) (jmsg : List (String × Json)) : List UbusEvent :=
  let nxp := redirect jmsg "NXP"
  let zb3 := redirect nxp "ZB3"
  ((jsonDumps dtostr (.obj nxp)).map fun smsg => ⟨uprotoEventIdReportNxp, smsg⟩).toList ++
    ((jsonDumps dtostr (.obj zb3)).map fun smsg => ⟨uprotoEventIdReport, smsg⟩).toList

namespace NxpCmd

/-- The lock that a command of `nxpx.c` is for. -/
def mac : NxpCmd → Option CStr
  | .deviceList => none
  | .addDevice mac _ | .delDevice mac _ | .addPassword mac .. | .delPassword mac .. => some mac

def attr : NxpCmd → String
  | .deviceList => "mod.device_list"
  | .addDevice .. => "mod.add_device"
  | .delDevice .. => "mod.del_device"
  | .addPassword .. => "device.lock.add_password"
  | .delPassword .. => "device.lock.del_password"

def operation : NxpCmd → String
  | .deviceList => "getAttribute"
  | _ => "setAttribute"

/-- The members of `jarg`. -/
def jarg : NxpCmd → Properties
  | .deviceList => []
  | .addDevice mac type | .delDevice mac type =>
    [("mac", jsonString mac), ("type", jsonString type)]
  | .addPassword _ passId passType suspend startTime endTime passVal1 passVal2 =>
    [("passId", some (.int passId)), ("passType", some (.int passType)),
     ("suspend", some (.int suspend)), ("startTime", some (.int startTime)),
     ("endTime", some (.int endTime)), ("passVal1", some (.int passVal1)),
     ("passVal2", some (.int passVal2))]
  | .delPassword _ passId passType clearAll =>
    [("passId", some (.int passId)), ("passType", some (.int passType)),
     ("clearAll", some (.int clearAll))]

/-- The message that `uproto_call` makes of a command. -/
def message (macstr : CStr) (ctime : ℤ) (cmd : NxpCmd) : List (String × Json) :=
  (uprotoMakeMsg macstr ctime cmd.mac cmd.attr.toList cmd.operation.toList
    (some (.obj cmd.jarg.object))).object

/-- The events of `uproto_call` with a command. -/
def events (dtostr : Double → CStr) (macstr : CStr) (ctime : ℤ) (cmd : NxpCmd) : List UbusEvent :=
  uprotoUbusSend dtostr (cmd.message macstr ctime)

def strings : NxpCmd → List CStr
  | .deviceList => []
  | .addDevice mac type | .delDevice mac type => [mac, type]
  | .addPassword mac .. | .delPassword mac .. => [mac]

def integers : NxpCmd → List ℤ
  | .deviceList | .addDevice .. | .delDevice .. => []
  | .addPassword _ passId passType suspend startTime endTime passVal1 passVal2 =>
    [passId, passType, suspend, startTime, endTime, passVal1, passVal2]
  | .delPassword _ passId passType clearAll => [passId, passType, clearAll]

/-- Strings end at their terminators, and integers are those of an `int`. -/
structure InMemory (cmd : NxpCmd) : Prop where
  strings : ∀ s ∈ cmd.strings, nul ∉ s
  integers : ∀ n ∈ cmd.integers, intMin ≤ n ∧ n ≤ intMax

def named (cmd : NxpCmd) : Bool := cmd.strings.all utf8CheckString

end NxpCmd

section Objects

-- Facts about all characters of a text are decided over the text, not over the type.
attribute [local instance (high)] List.decidableBAll

variable {real : Double → Prop} {d : ℕ} {m : List (String × Json)} {key dest : String} {j : Json}
  {s : CStr}

theorem storable_jsonString (hs : nul ∉ s) (h : jsonString s = some j) :
    Storable real (d + 1) j := by
  unfold jsonString at h
  split_ifs at h with hutf8
  cases h
  exact .str ⟨utf8CheckString_iff.mp hutf8, hs⟩

theorem storable_set (h : Storable real (d + 1) (.obj m)) (hkey : PlainText key.toList)
    (hj : Storable real d j) : Storable real (d + 1) (.obj (jsonObjectSetNew m key (some j))) := by
  cases h with
  | obj hnodup hkeys hvalues =>
    refine .obj (jsonObjectSetNew_nodup hnodup) (fun p hp => ?_) fun p hp => ?_
    · rcases mem_jsonObjectSetNew hp with hp | rfl
      · exact hkeys p hp
      · exact hkey
    · rcases mem_jsonObjectSetNew hp with hp | rfl
      · exact hvalues p hp
      · exact hj

theorem storable_del (h : Storable real (d + 1) (.obj m)) :
    Storable real (d + 1) (.obj (jsonObjectDel m key)) := by
  cases h with
  | obj hnodup hkeys hvalues =>
    have hsub : (jsonObjectDel m key).Sublist m := List.filter_sublist
    exact .obj (hnodup.sublist (hsub.map _)) (fun p hp => hkeys p (hsub.subset hp))
      fun p hp => hvalues p (hsub.subset hp)

theorem storable_object {properties : Properties}
    (hkeys : ∀ p ∈ properties, PlainText p.1.toList)
    (hvalues : ∀ p ∈ properties, ∀ j, p.2 = some j → Storable real d j) :
    Storable real (d + 1) (.obj properties.object) := by
  unfold Properties.object
  have hobj : Storable real (d + 1) (.obj []) := .obj .nil (by simp) (by simp)
  generalize ([] : List (String × Json)) = obj at hobj
  induction properties generalizing obj with
  | nil => exact hobj
  | cons p properties ih =>
    refine ih (fun q hq => hkeys q (List.mem_cons_of_mem _ hq))
      (fun q hq => hvalues q (List.mem_cons_of_mem _ hq)) _ ?_
    dsimp only
    cases hp : p.2 with
    | none => exact hobj
    | some j =>
      exact storable_set hobj (hkeys p List.mem_cons_self) (hvalues p List.mem_cons_self j hp)

theorem lookup_jsonObjectDel {name : String} : (jsonObjectDel m key).lookup name =
    if name = key then none else m.lookup name := by
  induction m with
  | nil => simp [jsonObjectDel, Keyed.drop]
  | cons p m ih =>
    unfold jsonObjectDel Keyed.drop at ih ⊢
    by_cases hp : p.1 = key
    · rw [List.filter_cons_of_neg (by simpa using hp), ih, List.lookup_cons, hp]
      by_cases hname : name = key
      · rw [if_pos hname, if_pos hname]
      · rw [if_neg hname, if_neg hname, beq_false_of_ne hname]
    · rw [List.filter_cons_of_pos (by simpa using hp), List.lookup_cons, ih, List.lookup_cons]
      by_cases hname : name = p.1
      · rw [hname, beq_self_eq_true, if_neg hp, if_neg hp]
      · rw [beq_false_of_ne hname]

theorem lookup_redirect (hdest : jsonString dest.toList = some (.str dest.toList))
    {name : String} : (redirect m dest).lookup name =
      if name = "to" then some (.str dest.toList) else m.lookup name := by
  rw [redirect, hdest, lookup_jsonObjectSetNew, lookup_jsonObjectDel]
  split_ifs <;> rfl

theorem storable_redirect (h : Storable real (d + 2) (.obj m)) (dest : String)
    (hdest : PlainText dest.toList) : Storable real (d + 2) (.obj (redirect m dest)) := by
  have hstring : jsonString dest.toList = some (.str dest.toList) :=
    if_pos (utf8CheckString_iff.mpr hdest.1)
  rw [redirect, hstring]
  exact storable_set (storable_del h) ⟨utf8Text_of_ascii (by decide), by decide⟩ (.str hdest)

end Objects

end Afly
