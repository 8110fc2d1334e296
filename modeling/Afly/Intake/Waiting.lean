import Afly.C.Dump
import Afly.Intake.Absent
import Afly.Lib.Capture
import Afly.Platform.Mac

/-! # A call that waits for its answer

`uproto_call` sends a command and waits for a report with its attribute. While
it waits, packets are handled as always, by the same function, which finds in
three variables what is waited for. Of all packets that arrive, the call gets
the first report that answers it, and every other one goes to its handler.
-/

namespace Afly

open Capture

/-- A message on the bus, with the answers of the surroundings while it is handled. -/
structure Arrival where
  envs : ℕ → Env
  str : Option CStr

/-- What `select` returns with: an error, the end of the time, or descriptors. The messages are
those that are read when the bus is among them. -/
inductive Wake where
  | failed
  | timeout
  | other
  | ready (batch : List Arrival)

namespace Uproto

def uprotoHandlerUbusEvent (u : Uproto) (a : Arrival) : Except Fault Uproto :=
  match a.str with
  | none => .ok u
  | some str =>
    match (a.envs 0).jsonLoads str with
    | none => .ok u
    | some jmsg =>
      match jsonGetString jmsg "PKT" with
      | none => .ok u
      | some spkt => u.uprotoHandlerUbusCmdAlink a.envs spkt

/-- `ubus_handle_event` on the messages that are there. -/
def ubusHandleEvent (u : Uproto) (batch : List Arrival) : Except Fault Uproto :=
  batch.foldlM uprotoHandlerUbusEvent u

/-- The loop of `uproto_wait_response`. Where `select` has not returned again it has no result. -/
def waitLoop (u : Uproto) : List Wake → Except Fault (Option Uproto)
  | [] => .ok none
  | .failed :: _ => .ok (some u)
  | .timeout :: _ => .ok (some u)
  | .other :: wakes => waitLoop u wakes
  | .ready batch :: wakes => do
    let u ← u.ubusHandleEvent batch
    if u.usyncRet.isSome then .ok (some u) else waitLoop u wakes

def uprotoWaitResponse (u : Uproto) (mac : Option CStr) (attr : CStr) (wakes : List Wake) :
    Except Fault (Option (Uproto × Option Json)) := do
  let u ← waitLoop { u with usyncMac := mac, usyncAttr := some attr, usyncRet := none } wakes
  .ok (u.map fun u =>
    ({ u with usyncMac := none, usyncAttr := none, usyncRet := none }, u.usyncRet))

/-- `uproto_call`: the message that it sends, and the value that it returns with. The hardware id
and the time are those that the message carries. -/
def uprotoCall (u : Uproto) (macstr : CStr) (ctime : ℤ) (mac : Option CStr) (attr operation : CStr)
    (jvalue : Option Json) (timeout : ℤ) (wakes : List Wake) :
    Properties × Except Fault (Option (Uproto × Option Json)) :=
  (uprotoMakeMsg macstr ctime mac attr operation jvalue,
    if 0 < timeout then u.uprotoWaitResponse mac attr wakes else .ok (some (u, none)))

end Uproto

structure Json.WellFormed (jpkt : Json) : Prop where
  source : (jsonGetString jpkt "from").isSome
  dest : (jsonGetString jpkt "to").isSome
  ctype : (jsonGetString jpkt "type").isSome
  data : ∃ jdata, jsonObjectGet jpkt "data" = some jdata ∧ (jsonGetString jdata "mac").isSome ∧
    (jsonGetString jdata "attribute").isSome ∧ (jsonObjectGet jdata "value").isSome

/-- What the intake filter lets through. -/
def Json.accepted (jpkt : Json) : Option Packet := do
  let source ← jsonGetString jpkt "from"
  let dest ← jsonGetString jpkt "to"
  let ctype ← jsonGetString jpkt "type"
  let jdata ← jsonObjectGet jpkt "data"
  if (source = "ZB3".toList ∨ source = "NXP".toList) ∧ dest = "CLOUD".toList ∧
      (ctype = "cmdResult".toList ∨ ctype = "reportAttribute".toList)
    then some (packetOf ctype jdata) else none

/-- A packet that is handled. -/
structure Delivery where
  envs : ℕ → Env
  packet : Packet

namespace Arrival

def json (a : Arrival) : Option Json := do
  let str ← a.str
  let jmsg ← (a.envs 0).jsonLoads str
  let spkt ← jsonGetString jmsg "PKT"
  (a.envs 0).jsonLoads spkt

/-- The packet inside a message, if it is accepted. -/
def accepted (a : Arrival) : Option Delivery :=
  (a.json.bind Json.accepted).map fun p => ⟨a.envs, p⟩

def WellFormed (a : Arrival) : Prop := ∀ jpkt, a.json = some jpkt → jpkt.WellFormed

end Arrival

namespace Delivery

/-- A report with the attribute, and with the mac unless any will do. -/
def answers (mac : Option CStr) (attr : CStr) (q : Delivery) : Bool :=
  q.packet.ctype = "reportAttribute".toList ∧ q.packet.attr = some attr ∧
    (mac.isNone ∨ q.packet.cmdmac = mac)

def value (q : Delivery) : Json := q.packet.value.getD .null

def dispatch (w : World) (q : Delivery) : Except Fault World :=
  ((Uproto.idle w).handlerCmd q.envs q.packet).map Uproto.world

end Delivery

namespace Wake

def batch : Wake → List Arrival
  | .ready batch => batch
  | _ => []

/-- The packets that are accepted until the waiting is over, which is at the end of the time or
with the messages among which there is an answer. -/
def deliveries (answers : Delivery → Bool) : List Wake → List Delivery
  | [] => []
  | .failed :: _ => []
  | .timeout :: _ => []
  | .other :: wakes => deliveries answers wakes
  | .ready batch :: wakes => batch.filterMap Arrival.accepted ++
      if (batch.filterMap Arrival.accepted).any answers then [] else deliveries answers wakes

def returns (answers : Delivery → Bool) : List Wake → Bool
  | [] => false
  | .failed :: _ => true
  | .timeout :: _ => true
  | .other :: wakes => returns answers wakes
  | .ready batch :: wakes =>
    (batch.filterMap Arrival.accepted).any answers || returns answers wakes

def captured (answers : Delivery → Bool) (wakes : List Wake) : Option Json :=
  ((deliveries answers wakes).find? answers).map Delivery.value

def passed (answers : Delivery → Bool) (wakes : List Wake) : List Delivery :=
  (deliveries answers wakes).eraseP answers

end Wake

section Packets

variable {u : Uproto} {w : World} {q : Delivery} {a : Arrival} {mac : Option CStr} {attr : CStr}
  {s : World × Option Json} {jpkt : Json} {p : Packet}

/-- The gateway while a call waits, with the result that it has so far. -/
def Uproto.waiting (mac : Option CStr) (attr : CStr) (s : World × Option Json) : Uproto :=
  ⟨s.1, mac, some attr, s.2⟩

theorem handlerCmd_eq (u : Uproto) (q : Delivery) : u.handlerCmd q.envs q.packet =
    (fun w => { u with world := w }) <$> q.dispatch u.world := by
  unfold Delivery.dispatch Uproto.handlerCmd
  dsimp only [Uproto.idle]
  split
  · cases uprotoCmdHandlerAttrRpt q.envs u.world q.packet with
    | error fault => rfl
    | ok r => rfl
  · rfl

/-- All that is compared of an accepted packet is there. -/
structure Delivery.Full (q : Delivery) : Prop where
  cmdmac : q.packet.cmdmac.isSome
  attr : q.packet.attr.isSome
  value : q.packet.value.isSome

theorem answers_iff : q.answers mac attr = true ↔ q.packet.ctype = "reportAttribute".toList ∧
    q.packet.attr = some attr ∧ (mac = none ∨ q.packet.cmdmac = mac) := by
  rw [Delivery.answers, decide_eq_true_eq, Option.isNone_iff_eq_none]

theorem deliver_waiting (hq : q.Full) : (Uproto.waiting mac attr s).deliver q.envs q.packet =
    Uproto.waiting mac attr <$> route Delivery.dispatch (Delivery.answers mac attr) Delivery.value
      s q := by
  obtain ⟨w, ret⟩ := s
  have hhand (ret : Option Json) : (Uproto.waiting mac attr (w, ret)).handlerCmd q.envs q.packet =
      Uproto.waiting mac attr <$> (fun w' => (w', ret)) <$> q.dispatch w := by
    rw [handlerCmd_eq, Functor.map_map]
    rfl
  have hpass (hno : ∀ attr', q.packet.ctype = "reportAttribute".toList →
      q.packet.attr = some attr' → ¬ (Uproto.waiting mac attr (w, ret)).Awaits attr') :
      (Uproto.waiting mac attr (w, ret)).deliver q.envs q.packet =
        Uproto.waiting mac attr <$> (fun w' => (w', ret)) <$> q.dispatch w := by
    rw [deliver_of_not_awaits hno fun _ => hq.attr, hhand]
  cases ret with
  | some v =>
    rw [route_some, hpass]
    rintro attr' - - ⟨-, hret⟩
    cases hret
  | none =>
    have hawaits : (Uproto.waiting mac attr (w, none)).Awaits attr := ⟨rfl, rfl⟩
    obtain ⟨cmdmac, hcmdmac⟩ := Option.isSome_iff_exists.mp hq.cmdmac
    obtain ⟨v, hv⟩ := Option.isSome_iff_exists.mp hq.value
    have hvalue : q.packet.value = some q.value := by rw [Delivery.value, hv, Option.getD_some]
    cases hans : q.answers mac attr with
    | true =>
      obtain ⟨hreport, hattr, hmac⟩ := answers_iff.mp hans
      rw [route_of_answers hans, map_pure, ← hvalue]
      cases mac with
      | none => exact deliver_of_awaits_any hreport hattr hawaits rfl
      | some m =>
        rw [deliver_of_awaits_mac hreport hattr hawaits rfl, hmac.resolve_left (by simp)]
        exact if_pos rfl
    | false =>
      rw [route_of_not_answers hans]
      by_cases hattr : q.packet.ctype = "reportAttribute".toList ∧ q.packet.attr = some attr
      · cases mac with
        | none => exact absurd (answers_iff.mpr ⟨hattr.1, hattr.2, Or.inl rfl⟩) (by simp [hans])
        | some m =>
          have hne : cmdmac ≠ m := by
            rintro rfl
            exact absurd (answers_iff.mpr ⟨hattr.1, hattr.2, Or.inr hcmdmac⟩) (by simp [hans])
          rw [deliver_of_awaits_mac hattr.1 hattr.2 hawaits rfl, hcmdmac, ← hhand]
          exact if_neg hne
      · apply hpass
        rintro attr' hreport hattr' ⟨hsync, -⟩
        obtain rfl : attr = attr' := Option.some.inj hsync
        exact hattr ⟨hreport, hattr'⟩

theorem deliver_idle : (Uproto.idle w).deliver q.envs q.packet = Uproto.idle <$> q.dispatch w :=
  handlerCmd_eq (.idle w) q

theorem alink_eq {envs : ℕ → Env} {cmd : CStr} (h : jpkt.WellFormed)
    (hload : (envs 0).jsonLoads cmd = some jpkt) : u.uprotoHandlerUbusCmdAlink envs cmd =
      jpkt.accepted.elim (.ok u) fun p => u.deliver envs p := by
  obtain ⟨source, hsource⟩ := Option.isSome_iff_exists.mp h.source
  obtain ⟨dest, hdest⟩ := Option.isSome_iff_exists.mp h.dest
  obtain ⟨ctype, hctype⟩ := Option.isSome_iff_exists.mp h.ctype
  obtain ⟨jdata, hdata, -⟩ := h.data
  have hbind (s : CStr) (f : CStr → Except Fault Uproto) : (present (some s)).bind f = f s := rfl
  have haccepted : jpkt.accepted = if (source = "ZB3".toList ∨ source = "NXP".toList) ∧
      dest = "CLOUD".toList ∧ (ctype = "cmdResult".toList ∨ ctype = "reportAttribute".toList)
        then some (packetOf ctype jdata) else none := by
    rw [Json.accepted, hsource, hdest, hctype, hdata]
    rfl
  unfold Uproto.uprotoHandlerUbusCmdAlink
  rw [hload, haccepted]
  dsimp only
  rw [hsource, hbind]
  split
  · rename_i hfrom
    rw [if_neg fun hall => hall.1.elim hfrom.1 hfrom.2]
    rfl
  rename_i hfrom
  rw [hdest, hbind]
  split
  · rename_i hto
    rw [if_neg fun hall => hto hall.2.1]
    rfl
  rename_i hto
  rw [hctype, hbind]
  split
  · rename_i htype
    rw [if_neg fun hall => hall.2.2.elim htype.1 htype.2]
    rfl
  rename_i htype
  rw [hdata, if_pos ⟨one_of_not_neither hfrom, not_not.mp hto, one_of_not_neither htype⟩]
  rfl

theorem event_eq (u : Uproto) (ha : a.WellFormed) : u.uprotoHandlerUbusEvent a =
    a.accepted.elim (.ok u) fun q => u.deliver q.envs q.packet := by
  unfold Uproto.uprotoHandlerUbusEvent Arrival.accepted
  cases hs : a.str with
  | none =>
    have hjson : a.json = none := by simp [Arrival.json, hs]
    rw [hjson]
    rfl
  | some str =>
    cases hm : (a.envs 0).jsonLoads str with
    | none =>
      have hjson : a.json = none := by simp [Arrival.json, hs, hm]
      rw [hjson]
      simp only [hm]
      rfl
    | some jmsg =>
      cases hp : jsonGetString jmsg "PKT" with
      | none =>
        have hjson : a.json = none := by simp [Arrival.json, hs, hm, hp]
        rw [hjson]
        simp only [hm, hp]
        rfl
      | some spkt =>
        have hjson : a.json = (a.envs 0).jsonLoads spkt := by simp [Arrival.json, hs, hm, hp]
        simp only [hm, hp]
        rw [hjson]
        cases hload : (a.envs 0).jsonLoads spkt with
        | none =>
          unfold Uproto.uprotoHandlerUbusCmdAlink
          rw [hload]
          rfl
        | some jpkt =>
          rw [alink_eq (ha jpkt (hjson.trans hload)) hload, Option.bind_some]
          cases jpkt.accepted with
          | none => rfl
          | some p => rfl

theorem full_of_accepted (ha : a.WellFormed) (hq : a.accepted = some q) : q.Full := by
  obtain ⟨p, hp, rfl⟩ := Option.map_eq_some_iff.mp hq
  obtain ⟨jpkt, hjson, hp⟩ := Option.bind_eq_some_iff.mp hp
  obtain ⟨jdata, hdata, hmac, hattr, hvalue⟩ := (ha jpkt hjson).data
  obtain ⟨source, -, hp⟩ := Option.bind_eq_some_iff.mp hp
  obtain ⟨dest, -, hp⟩ := Option.bind_eq_some_iff.mp hp
  obtain ⟨ctype, -, hp⟩ := Option.bind_eq_some_iff.mp hp
  obtain ⟨jdata', hdata', hp⟩ := Option.bind_eq_some_iff.mp hp
  obtain rfl : jdata = jdata' := Option.some.inj (hdata.symm.trans hdata')
  split at hp
  · cases hp
    exact ⟨hmac, hattr, hvalue⟩
  · cases hp

end Packets

section Messages

variable {σ : Type} {g : σ → Uproto} {step : σ → Delivery → Except Fault σ} {s : σ}
  {batch : List Arrival}

theorem ubusHandleEvent_eq (hbatch : ∀ a ∈ batch, a.WellFormed)
    (hstep : ∀ s q, q.Full → (g s).deliver q.envs q.packet = g <$> step s q) :
    (g s).ubusHandleEvent batch = g <$> (batch.filterMap Arrival.accepted).foldlM step s := by
  unfold Uproto.ubusHandleEvent
  induction batch generalizing s with
  | nil => rfl
  | cons a batch ih =>
    have ha := hbatch a List.mem_cons_self
    have hrest := fun s => ih (s := s) fun a' ha' => hbatch a' (List.mem_cons_of_mem _ ha')
    rw [List.foldlM_cons, event_eq (g s) ha]
    cases hq : a.accepted with
    | none =>
      rw [List.filterMap_cons_none hq]
      exact hrest s
    | some q =>
      rw [List.filterMap_cons_some hq, List.foldlM_cons, Option.elim_some,
        hstep s q (full_of_accepted ha hq), map_bind, bind_map_left]
      exact bind_congr fun s' => hrest s'

end Messages

section Wait

variable {w : World} {mac : Option CStr} {attr : CStr} {wakes : List Wake} {batch : List Arrival}
  {answers : Delivery → Bool}

namespace Wake

theorem deliveries_of_any (h : (batch.filterMap Arrival.accepted).any answers = true) :
    deliveries answers (.ready batch :: wakes) = batch.filterMap Arrival.accepted := by
  rw [deliveries, if_pos h, List.append_nil]

theorem passed_of_not_any (h : (batch.filterMap Arrival.accepted).any answers = false) :
    passed answers (.ready batch :: wakes) =
      batch.filterMap Arrival.accepted ++ passed answers wakes := by
  unfold passed
  rw [deliveries, if_neg (Bool.eq_false_iff.mp h),
    List.eraseP_append_right _ (List.any_eq_false.mp h)]

theorem captured_of_not_any (h : (batch.filterMap Arrival.accepted).any answers = false) :
    captured answers (.ready batch :: wakes) = captured answers wakes := by
  unfold captured
  rw [deliveries, if_neg (Bool.eq_false_iff.mp h), List.find?_append,
    List.find?_eq_none.mpr (List.any_eq_false.mp h), Option.none_or]

end Wake

variable (w mac attr) in
theorem waitLoop_eq (hwakes : ∀ k ∈ wakes, ∀ a ∈ k.batch, a.WellFormed) :
    Uproto.waitLoop (.waiting mac attr (w, none)) wakes =
      (fun w' => if Wake.returns (Delivery.answers mac attr) wakes then
          some (Uproto.waiting mac attr (w', Wake.captured (Delivery.answers mac attr) wakes))
        else none) <$>
          (Wake.passed (Delivery.answers mac attr) wakes).foldlM Delivery.dispatch w := by
  induction wakes generalizing w with
  | nil => rfl
  | cons k wakes ih =>
    have hrest := fun w => ih w fun k' hk' => hwakes k' (List.mem_cons_of_mem _ hk')
    cases k with
    | failed => rfl
    | timeout => rfl
    | other => exact hrest w
    | ready batch =>
      have hbatch : ∀ a ∈ batch, a.WellFormed := hwakes _ List.mem_cons_self
      have hhandle := ubusHandleEvent_eq (g := Uproto.waiting mac attr) (s := (w, none)) hbatch
        fun s q hq => deliver_waiting hq
      rw [foldlM_route_none] at hhandle
      rw [Uproto.waitLoop, hhandle, bind_map_left, bind_map_left]
      cases hany : (batch.filterMap Arrival.accepted).any (Delivery.answers mac attr) with
      | true =>
        have hfound : ((batch.filterMap Arrival.accepted).find?
            (Delivery.answers mac attr)).isSome := List.find?_isSome.mpr (List.any_eq_true.mp hany)
        have hreturns :
            Wake.returns (Delivery.answers mac attr) (.ready batch :: wakes) = true := by
          rw [Wake.returns, hany, Bool.true_or]
        rw [hreturns, Wake.passed, Wake.captured, Wake.deliveries_of_any hany,
          map_eq_pure_bind]
        refine bind_congr fun w' => ?_
        rw [if_pos rfl]
        exact if_pos (Option.isSome_map.trans hfound)
      | false =>
        have hnone : (batch.filterMap Arrival.accepted).find? (Delivery.answers mac attr) = none :=
          List.find?_eq_none.mpr (List.any_eq_false.mp hany)
        have hreturns : Wake.returns (Delivery.answers mac attr) (.ready batch :: wakes) =
            Wake.returns (Delivery.answers mac attr) wakes := by
          rw [Wake.returns, hany, Bool.false_or]
        rw [hreturns, Wake.passed_of_not_any hany, Wake.captured_of_not_any hany,
          List.foldlM_append, map_bind, hnone,
          List.eraseP_of_forall_not (List.any_eq_false.mp hany)]
        exact bind_congr hrest

end Wait

/-- Of the packets that arrive while a call waits, the first report with its attribute, and its mac
if it has one, is returned, and all others that the intake accepts are handed to their handlers,
each once and in order. The call leaves nothing behind that a later packet could be compared
with. -/
theorem call_routes {u : Uproto} {macstr : CStr} {ctime : ℤ} {mac : Option CStr}
    {attr operation : CStr} {jvalue : Option Json} {timeout : ℤ} {wakes : List Wake}
    (ht : 0 < timeout) (hwakes : ∀ k ∈ wakes, ∀ a ∈ k.batch, a.WellFormed) :
    (u.uprotoCall macstr ctime mac attr operation jvalue timeout wakes).2 =
      (fun w => if Wake.returns (Delivery.answers mac attr) wakes then
          some (Uproto.idle w, Wake.captured (Delivery.answers mac attr) wakes)
        else none) <$>
          (Wake.passed (Delivery.answers mac attr) wakes).foldlM Delivery.dispatch u.world ∧
    ∀ w batch, (∀ a ∈ batch, Arrival.WellFormed a) → (Uproto.idle w).ubusHandleEvent batch =
      Uproto.idle <$> (batch.filterMap Arrival.accepted).foldlM Delivery.dispatch w := by
  constructor
  · have hwait : (u.uprotoCall macstr ctime mac attr operation jvalue timeout wakes).2 =
        u.uprotoWaitResponse mac attr wakes := if_pos ht
    have hloop := waitLoop_eq u.world mac attr hwakes
    unfold Uproto.waiting at hloop
    rw [hwait, Uproto.uprotoWaitResponse, hloop, bind_map_left, map_eq_pure_bind]
    refine bind_congr fun w => ?_
    split
    · rfl
    · rfl
  · intro w batch hbatch
    exact ubusHandleEvent_eq hbatch fun _ _ _ => deliver_idle

def noReals (_ : Double) : CStr := []

/-- Surroundings where the texts of some values are read. -/
def Env.reading (l : List Json) : Env :=
  { Env.quiet with jsonLoads := fun s => l.find? fun j => jsonDumps noReals j = some s }

/-- The message on the bus with a packet inside. -/
def Json.message (jpkt : Json) : Json := .obj [("PKT", .str ((jsonDumps noReals jpkt).getD []))]

def Arrival.carrying (jpkt : Json) : Arrival where
  envs := fun _ => .reading [jpkt.message, jpkt]
  str := jsonDumps noReals jpkt.message

theorem carrying_json {jpkt : Json} (hpkt : (jsonDumps noReals jpkt).isSome)
    (hmsg : (jsonDumps noReals jpkt.message).isSome)
    (hne : jsonDumps noReals jpkt.message ≠ jsonDumps noReals jpkt) :
    (Arrival.carrying jpkt).json = some jpkt := by
  obtain ⟨str, hstr⟩ := Option.isSome_iff_exists.mp hmsg
  obtain ⟨spkt, hspkt⟩ := Option.isSome_iff_exists.mp hpkt
  rw [hspkt] at hne
  have houter : (Env.reading [jpkt.message, jpkt]).jsonLoads str = some jpkt.message := by
    simp [Env.reading, hstr]
  have hinner : (Env.reading [jpkt.message, jpkt]).jsonLoads spkt = some jpkt := by
    simp [Env.reading, hspkt, hne]
  have hmember : jsonGetString jpkt.message "PKT" = some spkt := by
    simp [Json.message, jsonGetString, jsonObjectGet, hspkt]
  simp only [Arrival.json, Arrival.carrying, hstr, Option.bind_eq_bind, Option.bind_some, houter,
    hmember, hinner]

def deviceReport (attr mac device : String) : Json :=
  let members : List (String × Json) := [("mac", .str device.toList),
    ("model", .str "1203".toList), ("type", .str "1203".toList), ("version", .str "1.0".toList)]
  .obj [("from", .str "NXP".toList), ("to", .str "CLOUD".toList),
    ("type", .str "reportAttribute".toList),
    ("data", .obj [("mac", .str mac.toList), ("attribute", .str attr.toList),
      ("value", .obj (members ++ [("device_list", .arr [.obj members])]))])]

def Delivery.carrying (jpkt : Json) : Delivery :=
  ⟨(Arrival.carrying jpkt).envs,
    packetOf "reportAttribute".toList ((jsonObjectGet jpkt "data").getD .null)⟩

theorem deviceReport_carried (attr mac device : String) {jpkt : Json}
    (hj : deviceReport attr mac device = jpkt) (hpkt : (jsonDumps noReals jpkt).isSome)
    (hmsg : (jsonDumps noReals jpkt.message).isSome)
    (hne : jsonDumps noReals jpkt.message ≠ jsonDumps noReals jpkt) :
    (Arrival.carrying jpkt).WellFormed ∧
      (Arrival.carrying jpkt).accepted = some (.carrying jpkt) := by
  have hjson := carrying_json hpkt hmsg hne
  subst hj
  constructor
  · intro jpkt hjpkt
    obtain rfl := Option.some.inj (hjson.symm.trans hjpkt)
    exact ⟨rfl, rfl, rfl, _, rfl, rfl, rfl, rfl⟩
  · rw [Arrival.accepted, hjson]
    rfl

/-- A call for the list of one module gets its report. Reports that match by half come before it,
and another one that matches behind it; they reach their handlers, which register the devices. -/
theorem call_routes_between : ∃ w, ((Uproto.idle World.boot).uprotoCall [] 0 (some "aa".toList)
      "mod.device_list".toList "getAttribute".toList none 1500
      [.ready [.carrying (deviceReport "mod.new_device_added" "aa" "d0")], .other,
        .ready [.carrying (deviceReport "mod.device_list" "bb" "d1"),
          .carrying (deviceReport "mod.device_list" "aa" "d2"),
          .carrying (deviceReport "mod.device_list" "aa" "d3")]]).2 =
      .ok (some (.idle w,
        some (Delivery.carrying (deviceReport "mod.device_list" "aa" "d2")).value)) ∧
    ((w.subdevs 0).deviceName, (w.subdevs 1).deviceName, (w.subdevs 2).deviceName,
      (w.subdevs 3).use) = ("d0".toList, "d1".toList, "d3".toList, 0) := by
  obtain ⟨hwell₀, hacc₀⟩ := deviceReport_carried "mod.new_device_added" "aa" "d0" rfl
    (by decide +kernel) (by decide +kernel) (by decide +kernel)
  obtain ⟨hwell₁, hacc₁⟩ := deviceReport_carried "mod.device_list" "bb" "d1" rfl
    (by decide +kernel) (by decide +kernel) (by decide +kernel)
  obtain ⟨hwell₂, hacc₂⟩ := deviceReport_carried "mod.device_list" "aa" "d2" rfl
    (by decide +kernel) (by decide +kernel) (by decide +kernel)
  obtain ⟨hwell₃, hacc₃⟩ := deviceReport_carried "mod.device_list" "aa" "d3" rfl
    (by decide +kernel) (by decide +kernel) (by decide +kernel)
  obtain ⟨w, hw, hnames⟩ : ∃ w, [Delivery.carrying (deviceReport "mod.new_device_added" "aa" "d0"),
      .carrying (deviceReport "mod.device_list" "bb" "d1"),
      .carrying (deviceReport "mod.device_list" "aa" "d3")].foldlM Delivery.dispatch World.boot =
        .ok w ∧ ((w.subdevs 0).deviceName, (w.subdevs 1).deviceName, (w.subdevs 2).deviceName,
          (w.subdevs 3).use) = ("d0".toList, "d1".toList, "d3".toList, 0) :=
    map_eq_ok.mp (by rfl)
  refine ⟨w, ?_, hnames⟩
  generalize hans : Delivery.answers (some "aa".toList) "mod.device_list".toList = answers
  have h₀ : answers (.carrying (deviceReport "mod.new_device_added" "aa" "d0")) = false := by
    rw [← hans]; decide
  have h₁ : answers (.carrying (deviceReport "mod.device_list" "bb" "d1")) = false := by
    rw [← hans]; decide
  have h₂ : answers (.carrying (deviceReport "mod.device_list" "aa" "d2")) = true := by
    rw [← hans]; decide
  refine (call_routes (by decide) ?_).1.trans ?_
  · simp only [List.forall_mem_cons, Wake.batch, hwell₀, hwell₁, hwell₂, hwell₃, List.not_mem_nil,
      false_implies, implies_true, and_self]
  · rw [hans]
    simp only [Wake.returns, Wake.captured, Wake.passed, Wake.deliveries, List.filterMap_cons,
      hacc₀, hacc₁, hacc₂, hacc₃, List.filterMap_nil, List.any_cons, h₀, h₁, h₂, List.any_nil,
      Bool.or_false, Bool.false_or, Bool.true_or, Bool.false_eq_true, if_false, if_true,
      List.cons_append, List.nil_append, List.append_nil, List.find?_cons, List.eraseP_cons, cond,
      Option.map_some]
    exact congrArg (Functor.map fun w => some (Uproto.idle w, some (Delivery.carrying
      (deviceReport "mod.device_list" "aa" "d2")).value)) hw

end Afly
