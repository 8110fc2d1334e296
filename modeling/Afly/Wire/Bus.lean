import Afly.Wire.Packets

/-! # The texts on the bus

For each command that the gateway sends, in whatever order, the bus carries two
texts, which the JSON library reads as the command's message to the one module
and to the other. The messages tell which commands were sent, in which order.
The gateway itself takes no notice of its own messages.
-/

namespace Afly

open Load

section Message

variable {strtod : CStr → Option Double} {dtostr : Double → CStr} {real : Double → Prop}
  {macstr : CStr} {ctime : ℤ} {cmd : NxpCmd} {d : ℕ}

def asciiName (name : String) : Bool := name.toList.all fun c => c.toNat < 0x80 && c ≠ nul

theorem plainText_of_asciiName {name : String} (h : asciiName name = true) :
    PlainText name.toList := by
  have hall := List.all_eq_true.mp h
  constructor
  · apply utf8Text_of_ascii
    intro c hc
    have := hall c hc
    simp only [Bool.and_eq_true, decide_eq_true_iff] at this
    exact this.1
  · intro hc
    have := hall nul hc
    simp at this

theorem storable_int {n : ℤ} (h : intMin ≤ n ∧ n ≤ intMax) : Storable real (d + 1) (.int n) := by
  unfold intMin intMax at h
  exact .int (by omega) (by omega)

namespace NxpCmd

theorem jarg_cases (cmd : NxpCmd) : ∀ p ∈ cmd.jarg, asciiName p.1 = true ∧
    ((∃ s ∈ cmd.strings, p.2 = jsonString s) ∨ ∃ n ∈ cmd.integers, p.2 = some (.int n)) := by
  have hnames : (cmd.jarg.map Prod.fst).all asciiName = true := by
    cases cmd <;> simp [jarg, asciiName, nul]
  intro p hp
  refine ⟨List.all_eq_true.mp hnames p.1 (List.mem_map_of_mem hp), ?_⟩
  cases cmd <;> simp only [jarg, List.mem_cons, List.not_mem_nil, or_false] at hp <;>
    rcases hp with rfl | rfl | rfl | rfl | rfl | rfl | rfl <;> simp [strings, integers]

theorem storable_jarg (h : cmd.InMemory) : Storable real (d + 2) (.obj cmd.jarg.object) := by
  refine storable_object (fun p hp => plainText_of_asciiName (cmd.jarg_cases p hp).1)
    fun p hp j hj => ?_
  rcases (cmd.jarg_cases p hp).2 with ⟨s, hs, he⟩ | ⟨n, hn, he⟩
  · exact storable_jsonString (h.strings s hs) (he.symm.trans hj)
  · cases he.symm.trans hj
    exact storable_int (h.integers n hn)

theorem storable_asciiName {name : String} {j : Json} (hname : asciiName name = true)
    (h : jsonString name.toList = some j) : Storable real (d + 1) j :=
  storable_jsonString (plainText_of_asciiName hname).2 h

theorem storable_mac (hmac : nul ∉ macstr) (h : cmd.InMemory) {j : Json}
    (hj : jsonString (cmd.mac.getD macstr) = some j) : Storable real (d + 1) j := by
  refine storable_jsonString ?_ hj
  cases cmd with
  | deviceList => exact hmac
  | addDevice mac | delDevice mac | addPassword mac | delPassword mac =>
    exact h.strings mac List.mem_cons_self

theorem asciiName_attr (cmd : NxpCmd) : asciiName cmd.attr = true := by
  cases cmd <;> simp [attr, asciiName, nul]

theorem asciiName_operation (cmd : NxpCmd) : asciiName cmd.operation = true := by
  cases cmd <;> simp [operation, asciiName, nul]

theorem storable_message (hmac : nul ∉ macstr) (htime : intMin ≤ ctime ∧ ctime ≤ intMax)
    (h : cmd.InMemory) : Storable real (d + 6) (.obj (cmd.message macstr ctime)) := by
  have hkeys {properties : Properties}
      (hnames : (properties.map Prod.fst).all asciiName = true) :
      ∀ p ∈ properties, PlainText p.1.toList := fun p hp =>
    plainText_of_asciiName (List.all_eq_true.mp hnames p.1 (List.mem_map_of_mem hp))
  have harg : Storable real (d + 4) (.obj (Properties.object
      [("mac", jsonString (cmd.mac.getD macstr)), ("attribute", jsonString cmd.attr.toList),
       ("value", some (.obj cmd.jarg.object))])) := by
    apply storable_object (hkeys (by simp [asciiName, nul]))
    simp only [List.forall_mem_cons, List.not_mem_nil, false_implies, implies_true, and_true,
      Option.some.injEq, forall_eq']
    exact ⟨fun j => storable_mac hmac h, fun j => storable_asciiName cmd.asciiName_attr,
      storable_jarg h⟩
  have hdata : Storable real (d + 5) (.obj (Properties.object
      [("id", jsonString cmd.attr.toList), ("command", jsonString cmd.operation.toList),
       ("arguments", some (.obj (Properties.object
        [("mac", jsonString (cmd.mac.getD macstr)), ("attribute", jsonString cmd.attr.toList),
         ("value", some (.obj cmd.jarg.object))])))])) := by
    apply storable_object (hkeys (by simp [asciiName, nul]))
    simp only [List.forall_mem_cons, List.not_mem_nil, false_implies, implies_true, and_true,
      Option.some.injEq, forall_eq']
    exact ⟨fun j => storable_asciiName cmd.asciiName_attr,
      fun j => storable_asciiName cmd.asciiName_operation, harg⟩
  apply storable_object (hkeys (by simp [uprotoMakeMsg, messageHead, asciiName, nul]))
  simp only [uprotoMakeMsg, messageHead, List.cons_append, List.nil_append, List.forall_mem_cons,
    List.not_mem_nil, false_implies, implies_true, and_true, Option.some.injEq, forall_eq']
  exact ⟨fun j => storable_asciiName (by decide), fun j => storable_asciiName (by decide),
    fun j => storable_asciiName (by decide), fun j => storable_jsonString hmac,
    fun j => storable_asciiName (by decide), storable_int htime, hdata⟩

end NxpCmd

theorem jsonString_dest {dest : String} (h : asciiName dest = true) :
    jsonString dest.toList = some (.str dest.toList) :=
  if_pos (utf8CheckString_iff.mpr (plainText_of_asciiName h).1)

theorem events_eq (strtod : CStr → Option Double) (dtostr : Double → CStr) (hmac : nul ∉ macstr)
    (htime : intMin ≤ ctime ∧ ctime ≤ intMax) (h : cmd.InMemory) : ∃ nxp zb3,
      cmd.events dtostr macstr ctime =
        [⟨uprotoEventIdReportNxp, nxp⟩, ⟨uprotoEventIdReport, zb3⟩] ∧
      jsonLoads strtod nxp = some (.obj (redirect (cmd.message macstr ctime) "NXP")) ∧
      jsonLoads strtod zb3 =
        some (.obj (redirect (redirect (cmd.message macstr ctime) "NXP") "ZB3")) := by
  -- a message has no real numbers
  have hstored : Storable (fun _ => False) maxDepth (.obj (cmd.message macstr ctime)) :=
    NxpCmd.storable_message hmac htime h
  have hnxp :
      Storable (fun _ => False) maxDepth (.obj (redirect (cmd.message macstr ctime) "NXP")) :=
    storable_redirect hstored "NXP" (plainText_of_asciiName (by decide))
  have hzb3 := storable_redirect hnxp "ZB3" (plainText_of_asciiName (by decide))
  obtain ⟨nxp, hdump, hload⟩ := loads_dumps (fun _ => False.elim) hnxp (Or.inr ⟨_, rfl⟩)
  obtain ⟨zb3, hdump', hload'⟩ := loads_dumps (fun _ => False.elim) hzb3 (Or.inr ⟨_, rfl⟩)
  refine ⟨nxp, zb3, ?_, hload, hload'⟩
  rw [NxpCmd.events, uprotoUbusSend, hdump, hdump']
  rfl

theorem lookup_twice {m : List (String × Json)} {name : String} (hname : name ≠ "to") :
    (redirect (redirect m "NXP") "ZB3").lookup name = m.lookup name := by
  rw [lookup_redirect (jsonString_dest (by decide)), if_neg hname,
    lookup_redirect (jsonString_dest (by decide)), if_neg hname]

theorem nul_notMem_macstr (buf : List Char) (file : Option (List Char)) (mac : List Char) :
    nul ∉ Afly.macstr buf file mac := by
  unfold Afly.macstr
  generalize ((platformGetHwId buf file mac 32).take 8).map Char.toNat = data
  cases hs : hexString 32 data false none with
  | none => exact List.not_mem_nil
  | some s =>
    rw [hexString] at hs
    cases (Option.ite_none_left_eq_some.mp hs).2
    intro hmem
    exact absurd (isSome_of_mem_hexBytes hmem) (by decide)

theorem uprotoHandlerUbusCmdAlink_own {m : List (String × Json)} {pkt : CStr} {u : Uproto}
    {envs : ℕ → Env} (hloads : (envs 0).jsonLoads pkt = some (.obj m))
    (hfrom : m.lookup "from" = some (.str "CLOUD".toList)) :
    u.uprotoHandlerUbusCmdAlink envs pkt = .ok u := by
  have hsource : jsonGetString (.obj m) "from" = some "CLOUD".toList := by
    have hget : jsonObjectGet (.obj m) "from" = some (.str "CLOUD".toList) := hfrom
    rw [jsonGetString, hget]
  have hother : "CLOUD".toList ≠ "ZB3".toList ∧ "CLOUD".toList ≠ "NXP".toList := by decide
  rw [Uproto.uprotoHandlerUbusCmdAlink, hloads]
  dsimp only
  rw [hsource, present, Except.bind, if_pos hother]

theorem lookup_message {name : String} (value : Option Json)
    (h : (name, value) ∈ uprotoMakeMsg macstr ctime cmd.mac cmd.attr.toList cmd.operation.toList
      (some (.obj cmd.jarg.object))) : (cmd.message macstr ctime).lookup name = value :=
  Properties.lookup_object (by simp [uprotoMakeMsg, messageHead]) h

section Injective

variable {cmd' : NxpCmd} {name : String} {s t : CStr}

theorem jsonString_inj (hs : utf8CheckString s = true) (h : jsonString s = jsonString t) :
    s = t := by
  unfold jsonString at h
  rw [if_pos hs] at h
  split_ifs at h
  cases h
  rfl

theorem attr_inj (h : jsonString cmd.attr.toList = jsonString cmd'.attr.toList) :
    cmd.attr = cmd'.attr :=
  String.toList_inj.mp (jsonString_inj
    (utf8CheckString_iff.mpr (plainText_of_asciiName cmd.asciiName_attr).1) h)

theorem object_inj {l l' : Properties} (hnodup : (l.map Prod.fst).Nodup)
    (hnames : l.map Prod.fst = l'.map Prod.fst) (h : l.object = l'.object) : l = l' := by
  have hlength : l.length = l'.length := by simpa using congrArg List.length hnames
  apply List.ext_getElem hlength
  intro k hk hk'
  have hname : l[k].1 = l'[k].1 := by
    have hat : (l.map Prod.fst)[k]? = (l'.map Prod.fst)[k]? := by rw [hnames]
    simpa [hk, hk'] using hat
  have hvalue : l.object.lookup l[k].1 = l[k].2 :=
    Properties.lookup_object hnodup (List.getElem_mem hk)
  have hvalue' : l'.object.lookup l'[k].1 = l'[k].2 :=
    Properties.lookup_object (hnames ▸ hnodup) (List.getElem_mem hk')
  exact Prod.ext hname (hvalue.symm.trans (h ▸ hname ▸ hvalue'))

theorem jarg_inj (h : cmd.jarg.object = cmd'.jarg.object)
    (hnames : cmd.jarg.map Prod.fst = cmd'.jarg.map Prod.fst) : cmd.jarg = cmd'.jarg := by
  refine object_inj ?_ hnames h
  cases cmd <;> simp [NxpCmd.jarg]

theorem command_eq (hnamed : cmd.named = true) (hattr : cmd.attr = cmd'.attr)
    (hmac : jsonString (cmd.mac.getD macstr) = jsonString (cmd'.mac.getD macstr))
    (hjarg : cmd.jarg.object = cmd'.jarg.object) : cmd = cmd' := by
  have hutf8 := List.all_eq_true.mp hnamed
  -- the attribute tells which command it is
  cases cmd with
  | deviceList =>
    cases cmd' with
    | deviceList => rfl
    | addDevice | delDevice | addPassword | delPassword => simp [NxpCmd.attr] at hattr
  | addDevice mac type =>
    cases cmd' with
    | addDevice mac' type' =>
      have h := jarg_inj hjarg rfl
      simp only [NxpCmd.jarg, List.cons.injEq, Prod.mk.injEq, true_and, and_true] at h
      obtain rfl := jsonString_inj (hutf8 mac (by simp [NxpCmd.strings])) h.1
      obtain rfl := jsonString_inj (hutf8 type (by simp [NxpCmd.strings])) h.2
      rfl
    | deviceList | delDevice | addPassword | delPassword => simp [NxpCmd.attr] at hattr
  | delDevice mac type =>
    cases cmd' with
    | delDevice mac' type' =>
      have h := jarg_inj hjarg rfl
      simp only [NxpCmd.jarg, List.cons.injEq, Prod.mk.injEq, true_and, and_true] at h
      obtain rfl := jsonString_inj (hutf8 mac (by simp [NxpCmd.strings])) h.1
      obtain rfl := jsonString_inj (hutf8 type (by simp [NxpCmd.strings])) h.2
      rfl
    | deviceList | addDevice | addPassword | delPassword => simp [NxpCmd.attr] at hattr
  | addPassword mac =>
    cases cmd' with
    | addPassword mac' =>
      obtain rfl : mac = mac' := jsonString_inj (hutf8 mac List.mem_cons_self) hmac
      have h := jarg_inj hjarg rfl
      simp only [NxpCmd.jarg, List.cons.injEq, Prod.mk.injEq, Option.some.injEq, Json.int.injEq,
        true_and, and_true] at h
      obtain ⟨rfl, rfl, rfl, rfl, rfl, rfl, rfl⟩ := h
      rfl
    | deviceList | addDevice | delDevice | delPassword => simp [NxpCmd.attr] at hattr
  | delPassword mac =>
    cases cmd' with
    | delPassword mac' =>
      obtain rfl : mac = mac' := jsonString_inj (hutf8 mac List.mem_cons_self) hmac
      have h := jarg_inj hjarg rfl
      simp only [NxpCmd.jarg, List.cons.injEq, Prod.mk.injEq, Option.some.injEq, Json.int.injEq,
        true_and, and_true] at h
      obtain ⟨rfl, rfl, rfl⟩ := h
      rfl
    | deviceList | addDevice | delDevice | addPassword => simp [NxpCmd.attr] at hattr

theorem message_inj {ctime' : ℤ} (hnamed : cmd.named = true)
    (h : redirect (cmd.message macstr ctime) "NXP" = redirect (cmd'.message macstr ctime') "NXP") :
    cmd = cmd' ∧ ctime = ctime' := by
  have hdest : jsonString "NXP".toList = some (.str "NXP".toList) := jsonString_dest (by decide)
  have hlookup (name : String) (hname : name ≠ "to") :
      (cmd.message macstr ctime).lookup name = (cmd'.message macstr ctime').lookup name := by
    have hsame := congrArg (List.lookup name) h
    rwa [lookup_redirect hdest, lookup_redirect hdest, if_neg hname, if_neg hname] at hsame
  have htime : some (Json.int ctime) = some (.int ctime') := by
    have hsame := hlookup "time" (by decide)
    rwa [lookup_message (some (.int ctime)) (by simp [uprotoMakeMsg, messageHead]),
      lookup_message (some (.int ctime')) (by simp [uprotoMakeMsg, messageHead])] at hsame
  -- the members of the message that hold the command
  let jarg (cmd : NxpCmd) := Properties.object [("mac", jsonString (cmd.mac.getD macstr)),
    ("attribute", jsonString cmd.attr.toList), ("value", some (.obj cmd.jarg.object))]
  let jdata (cmd : NxpCmd) := Properties.object [("id", jsonString cmd.attr.toList),
    ("command", jsonString cmd.operation.toList), ("arguments", some (.obj (jarg cmd)))]
  have hdata : some (Json.obj (jdata cmd)) = some (.obj (jdata cmd')) := by
    have hsame := hlookup "data" (by decide)
    rwa [lookup_message (some (.obj (jdata cmd))) (by simp [uprotoMakeMsg, jdata, jarg]),
      lookup_message (some (.obj (jdata cmd'))) (by simp [uprotoMakeMsg, jdata, jarg])]
      at hsame
  have harg : some (Json.obj (jarg cmd)) = some (.obj (jarg cmd')) := by
    have hmember (cmd : NxpCmd) : (jdata cmd).lookup "arguments" = some (.obj (jarg cmd)) :=
      Properties.lookup_object (by simp) (by simp)
    rw [← hmember, ← hmember, Json.obj.inj (Option.some.inj hdata)]
  have hmember (name : String) (value : NxpCmd → Option Json)
      (hvalue : ∀ cmd, (jarg cmd).lookup name = value cmd) : value cmd = value cmd' := by
    rw [← hvalue, ← hvalue, Json.obj.inj (Option.some.inj harg)]
  have hmac := hmember "mac" (fun cmd => jsonString (cmd.mac.getD macstr))
    fun cmd => Properties.lookup_object (by simp) (by simp)
  have hattr := hmember "attribute" (fun cmd => jsonString cmd.attr.toList)
    fun cmd => Properties.lookup_object (by simp) (by simp)
  have hvalue := hmember "value" (fun cmd => some (.obj cmd.jarg.object))
    fun cmd => Properties.lookup_object (by simp) (by simp)
  exact ⟨command_eq hnamed (attr_inj hattr) hmac (Json.obj.inj (Option.some.inj hvalue)),
    Json.int.inj (Option.some.inj htime)⟩

end Injective

/-- What the bus carries of commands and the times of their sending. -/
def busOf (dtostr : Double → CStr) (macstr : CStr) (l : List (NxpCmd × ℤ)) : List UbusEvent :=
  l.flatMap fun c => c.1.events dtostr macstr c.2

/-- The messages of the commands, each to the one module and to the other, under the names of their
events. -/
def messagesOf (macstr : CStr) (l : List (NxpCmd × ℤ)) : List (String × Json) :=
  l.flatMap fun c =>
    let nxp := redirect (c.1.message macstr c.2) "NXP"
    [(uprotoEventIdReportNxp, .obj nxp), (uprotoEventIdReport, .obj (redirect nxp "ZB3"))]

/-- The event with the value that is read of its text. -/
def UbusEvent.loaded (strtod : CStr → Option Double) (e : UbusEvent) : String × Option Json :=
  (e.id, jsonLoads strtod e.pkt)

variable {l l' : List (NxpCmd × ℤ)}

theorem loaded_busOf (strtod : CStr → Option Double) (dtostr : Double → CStr) (hmac : nul ∉ macstr)
    (h : ∀ c ∈ l, c.1.InMemory ∧ intMin ≤ c.2 ∧ c.2 ≤ intMax) :
    (busOf dtostr macstr l).map (UbusEvent.loaded strtod) =
      (messagesOf macstr l).map fun m => (m.1, some m.2) := by
  induction l with
  | nil => rfl
  | cons c l ih =>
    obtain ⟨hc, htime⟩ := h c List.mem_cons_self
    obtain ⟨nxp, zb3, hevents, hnxp, hzb3⟩ := events_eq strtod dtostr hmac htime hc
    unfold busOf messagesOf at ih ⊢
    rw [List.flatMap_cons, List.flatMap_cons, List.map_append, List.map_append,
      ih fun c hc => h c (List.mem_cons_of_mem _ hc), hevents]
    simp [UbusEvent.loaded, hnxp, hzb3]

theorem messagesOf_inj (hnamed : ∀ c ∈ l, c.1.named = true)
    (h : messagesOf macstr l = messagesOf macstr l') : l = l' := by
  induction l generalizing l' with
  | nil =>
    cases l' with
    | nil => rfl
    | cons c l' => cases h
  | cons c l ih =>
    cases l' with
    | nil => cases h
    | cons c' l' =>
      unfold messagesOf at h ih
      rw [List.flatMap_cons, List.flatMap_cons] at h
      simp only [List.cons_append, List.nil_append, List.cons.injEq, Prod.mk.injEq, true_and,
        Json.obj.injEq] at h
      obtain ⟨hnxp, -, hrest⟩ := h
      obtain ⟨hcmd, htime⟩ := message_inj (hnamed c List.mem_cons_self) hnxp
      rw [Prod.ext hcmd htime, ih (fun c hc => hnamed c (List.mem_cons_of_mem _ hc)) hrest]

theorem own_message (hmac : nul ∉ macstr) {e : UbusEvent} (he : e ∈ busOf dtostr macstr l)
    (h : ∀ c ∈ l, c.1.InMemory ∧ intMin ≤ c.2 ∧ c.2 ≤ intMax) {u : Uproto} {envs : ℕ → Env}
    (hloads : (envs 0).jsonLoads = jsonLoads strtod) :
    u.uprotoHandlerUbusCmdAlink envs e.pkt = .ok u := by
  obtain ⟨c, hc, he⟩ := List.mem_flatMap.mp he
  obtain ⟨hmem, htime⟩ := h c hc
  obtain ⟨nxp, zb3, hevents, hnxp, hzb3⟩ := events_eq strtod dtostr hmac htime hmem
  have hfrom : (c.1.message macstr c.2).lookup "from" = some (.str "CLOUD".toList) :=
    (lookup_message _ List.mem_cons_self).trans (jsonString_dest (by decide))
  rw [hevents] at he
  rcases List.mem_pair.mp he with rfl | rfl
  · refine uprotoHandlerUbusCmdAlink_own (hloads ▸ hnxp) ?_
    rw [lookup_redirect (jsonString_dest (by decide)), if_neg (by decide), hfrom]
  · exact uprotoHandlerUbusCmdAlink_own (hloads ▸ hzb3) ((lookup_twice (by decide)).trans hfrom)

/-- Of any commands, in memory as C has its values, the bus carries in order for each one two texts,
which are read as its message to the one module and to the other. The texts tell which commands were
sent, if their names are UTF-8, and a message of the gateway that comes back to it changes
nothing. -/
theorem commands_on_bus (strtod : CStr → Option Double) (dtostr : Double → CStr) (buf : List Char)
    (file : Option (List Char)) (mac : List Char)
    (h : ∀ c ∈ l, c.1.InMemory ∧ intMin ≤ c.2 ∧ c.2 ≤ intMax) :
    let macstr := Afly.macstr buf file mac
    (busOf dtostr macstr l).map (UbusEvent.loaded strtod) =
        (messagesOf macstr l).map (fun m => (m.1, some m.2)) ∧
      (∀ l' : List (NxpCmd × ℤ), (∀ c ∈ l', c.1.InMemory ∧ intMin ≤ c.2 ∧ c.2 ≤ intMax) →
        (∀ c ∈ l, c.1.named = true) → busOf dtostr macstr l = busOf dtostr macstr l' → l = l') ∧
      ∀ e ∈ busOf dtostr macstr l, ∀ (u : Uproto) (envs : ℕ → Env),
        (envs 0).jsonLoads = jsonLoads strtod → u.uprotoHandlerUbusCmdAlink envs e.pkt = .ok u := by
  intro macstr
  have hmac : nul ∉ macstr := nul_notMem_macstr buf file mac
  refine ⟨loaded_busOf strtod dtostr hmac h, fun l' h' hnamed hbus => ?_, fun e he u envs hloads =>
    own_message hmac he h hloads⟩
  have hloaded := congrArg (List.map (UbusEvent.loaded strtod)) hbus
  rw [loaded_busOf strtod dtostr hmac h, loaded_busOf strtod dtostr hmac h'] at hloaded
  refine messagesOf_inj hnamed (List.map_injective_iff.mpr ?_ hloaded)
  intro m m' hm
  obtain ⟨hid, hmessage⟩ := Prod.mk.inj hm
  exact Prod.ext hid (Option.some.inj hmessage)

/-- A request for the list, the removal of a device and that of its passwords. -/
def threeCommands : List (NxpCmd × ℤ) :=
  [(.deviceList, 0), (.delDevice "00158d00026c540a".toList "1203".toList, 1),
    (.delPassword "00158d00026c540a".toList 0 0 0, 2)]

theorem inMemory_threeCommands :
    ∀ c ∈ threeCommands, c.1.InMemory ∧ intMin ≤ c.2 ∧ c.2 ≤ intMax := by
  intro c hc
  simp only [threeCommands, List.mem_cons, List.not_mem_nil, or_false] at hc
  rcases hc with rfl | rfl | rfl
  · exact ⟨⟨by simp [NxpCmd.strings], by simp [NxpCmd.integers]⟩, by decide⟩
  · exact ⟨⟨by decide, by simp [NxpCmd.integers]⟩, by decide⟩
  · exact ⟨⟨by decide, by decide⟩, by decide⟩

/-- Their texts are read as six messages, and are not those of another order. -/
theorem commands_on_bus_three : (busOf noReals (Afly.macstr [] none []) threeCommands).map
      (UbusEvent.loaded fun _ => none) =
      (messagesOf (Afly.macstr [] none []) threeCommands).map (fun m => (m.1, some m.2)) ∧
    busOf noReals (Afly.macstr [] none []) threeCommands ≠
      busOf noReals (Afly.macstr [] none []) threeCommands.reverse := by
  obtain ⟨hloaded, htell, -⟩ :=
    commands_on_bus (fun _ => none) noReals [] none [] inMemory_threeCommands
  refine ⟨hloaded, fun hbus => ?_⟩
  have hsame := htell _ (fun c hc => inMemory_threeCommands c (List.mem_reverse.mp hc))
    (by decide) hbus
  have hfirst := congrArg (fun l => l.head?.map Prod.snd) hsame
  exact absurd hfirst (by decide)

end Message

end Afly
