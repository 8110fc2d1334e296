import Afly.Intake.Packets
import Afly.Tasks.Ends

/-! # Packets with absent members

A packet is handled without a string operation on an absent member exactly when
the members that its way through the handlers compares are there. The condition
follows the order of the comparisons, and it depends on the waiting call and, for
a check record, on whether the table has a device at all.
-/

namespace Afly

open World Reach

/-- The members that a handler of cluster reports checks are there. -/
def BytesGiven (member : String) (value : Json) : Prop :=
  (jsonGetString value "endpoint").isSome ∧ (jsonGetString value "cluster").isSome ∧
    (jsonGetString value member).isSome

/-- A check record that passes the checks of its members. -/
def CheckRecordGiven (value : Json) : Prop :=
  (jsonGetInt value "passType" (-1) = 0 ∨ jsonGetInt value "passType" (-1) = 1 ∨
    jsonGetInt value "passType" (-1) = 5) ∧
  ¬ (jsonGetInt value "time" (-1) = -1 ∨ jsonGetInt value "passId" (-1) = -1) ∧
  jsonGetInt value "passVal1" (-1) ≠ -1

/-- The mac is there where the handler of a report uses it without a check. -/
def Report.MacGiven (rpt : Report) (w : World) (cmdmac : Option CStr) (value : Json) : Prop :=
  match rpt with
  | .rptZclcmd => BytesGiven "value" value → cmdmac.isSome
  | .rptAtr => BytesGiven "data" value → cmdmac.isSome
  | .rptRegister | .rptUnregister | .rptOnline => cmdmac.isSome
  | .rptNxpLockCheckRecord =>
    CheckRecordGiven value → (∃ i, (w.subdevs i).use ≠ 0) → cmdmac.isSome
  | _ => True

/-- A call waits for the attribute of a packet, and has no result yet. -/
def Uproto.Awaits (u : Uproto) (attr : CStr) : Prop := u.usyncAttr = some attr ∧ u.usyncRet = none

/-- The members of a report's `data` that are compared are there. -/
def Uproto.DataComplete (u : Uproto) (p : Packet) : Prop :=
  p.ctype = "reportAttribute".toList → ∃ attr, p.attr = some attr ∧
    (u.Awaits attr → u.usyncMac.isSome → p.cmdmac.isSome) ∧
    (¬ (u.Awaits attr ∧ (u.usyncMac = none ∨ u.usyncMac = p.cmdmac)) →
      ∀ name rpt, uprotoSearchUattrcmd attr = some (name, some rpt) →
        rpt.MacGiven u.world p.cmdmac (p.value.getD .null))

/-- What the gateway reads of a packet's `data`. -/
def packetOf (ctype : CStr) (jdata : Json) : Packet where
  ctype := ctype
  cmdmac := jsonGetString jdata "mac"
  attr := jsonGetString jdata "attribute"
  value := jsonObjectGet jdata "value"

/-- The members of a packet that are compared are there, in the order of the comparisons. -/
def Uproto.Complete (u : Uproto) (jpkt : Json) : Prop :=
  ∃ source, jsonGetString jpkt "from" = some source ∧
    (source = "ZB3".toList ∨ source = "NXP".toList →
      ∃ dest, jsonGetString jpkt "to" = some dest ∧
        (dest = "CLOUD".toList →
          ∃ ctype, jsonGetString jpkt "type" = some ctype ∧
            (ctype = "cmdResult".toList ∨ ctype = "reportAttribute".toList →
              ∀ jdata, jsonObjectGet jpkt "data" = some jdata →
                u.DataComplete (packetOf ctype jdata))))

/-- A `cmdResult` or `reportAttribute` from ZB3 or NXP, addressed to CLOUD, with a data object. -/
def Json.Addressed (jpkt : Json) : Prop :=
  (jsonGetString jpkt "from" = some "ZB3".toList ∨ jsonGetString jpkt "from" = some "NXP".toList) ∧
    jsonGetString jpkt "to" = some "CLOUD".toList ∧
    (jsonGetString jpkt "type" = some "cmdResult".toList ∨
      jsonGetString jpkt "type" = some "reportAttribute".toList) ∧
    ∃ m, jsonObjectGet jpkt "data" = some (.obj m)

/-- A packet uses no absent member, it is handled to its end, and it changes nothing unless it is
addressed to the gateway. -/
structure Uproto.Safe (envs : ℕ → Env) (u : Uproto) (cmd : CStr) : Prop where
  present : u.uprotoHandlerUbusCmdAlink envs cmd ≠ .error .absent
  ends : u.uprotoHandlerUbusCmdAlink envs cmd ≠ .error .loop
  ignored : (∀ jpkt, (envs 0).jsonLoads cmd = some jpkt → ¬ jpkt.Addressed) →
    u.uprotoHandlerUbusCmdAlink envs cmd = .ok u

section Faults

variable {α β : Type*} {x : Except Fault α} {fault : Fault}

@[simp] theorem map_ne_error {f : α → β} : x.map f ≠ .error fault ↔ x ≠ .error fault :=
  map_eq_error.not

@[simp] theorem present_bind_absent {o : Option α} {f : α → Except Fault β} :
    (present o).bind f ≠ .error .absent ↔ ∃ s, o = some s ∧ f s ≠ .error .absent := by
  cases o <;> simp [present, Except.bind]

@[simp] theorem present_bind_loop {o : Option α} {f : α → Except Fault β} :
    (present o).bind f ≠ .error .loop ↔ ∀ s, o = some s → f s ≠ .error .loop := by
  cases o <;> simp [present, Except.bind]

@[simp] theorem present_ne_absent {o : Option α} : present o ≠ .error .absent ↔ o.isSome := by
  cases o <;> simp [present]

@[simp] theorem present_ne_loop {o : Option α} : present o ≠ .error .loop := by
  cases o <;> simp [present]

end Faults

section Handlers

variable {env : Env} {envs : ℕ → Env} {w : World} {name cmdmac : Option CStr} {value : Json}
  {eid : ℤ} {buf : List ℤ}

theorem rptEvent_absent : w.rptEvent env name eid buf ≠ .error .absent ↔
    ((∃ i, (w.subdevs i).use ≠ 0) → name.isSome) := by
  unfold rptEvent
  cases name with
  | none => simp
  | some name =>
    dsimp only
    split <;> simp

theorem rptEvent_loop (h : w.Ends) : w.rptEvent env name eid buf ≠ .error .loop := by
  unfold rptEvent
  cases name with
  | none =>
    dsimp only
    split <;> simp
  | some name =>
    obtain ⟨w', hw⟩ := rptEvent_defined env h name eid fun k => buf.getD k 0
    dsimp only
    rw [hw]
    simp

theorem rptReg_fault {r : NxpReg} {fault : Fault} (h : w.rptReg env r = .error fault) :
    fault = .overrun := by
  unfold rptReg at h
  split at h
  · cases h; rfl
  · cases h

theorem rptListed_fault {jv : Json} {fault : Fault} (h : w.rptListed env jv = .error fault) :
    fault = .overrun := by
  unfold rptListed at h
  split at h
  · cases h
  · exact rptReg_fault h

theorem rptEach_fault {k : ℕ} {l : List Json} {fault : Fault}
    (h : rptEach envs k l w = .error fault) : fault = .overrun := by
  induction l generalizing k w with
  | nil => cases h
  | cons jv l ih =>
    rw [rptEach] at h
    cases h₁ : w.rptListed (envs k) jv with
    | error fault₁ =>
      rw [h₁] at h
      cases h
      exact rptListed_fault h₁
    | ok w₁ =>
      rw [h₁] at h
      exact ih h

/-- A handler that uses no absent member and ends. -/
structure Harmless (w : World) (x : Except Fault (World × ℤ)) : Prop where
  absent : x ≠ .error .absent
  loop : w.Ends → x ≠ .error .loop

theorem harmless_ok {result : World × ℤ} : Harmless w (.ok result) := ⟨by simp, by simp⟩

theorem harmless_of_overrun {x : Except Fault (World × ℤ)}
    (h : ∀ fault, x = .error fault → fault = .overrun) : Harmless w x := by
  constructor
  · intro hx
    exact absurd (h _ hx) (by decide)
  · intro _ hx
    exact absurd (h _ hx) (by decide)

theorem harmless_rptEvent {w₁ : World} {mac : CStr} {f : World → World × ℤ}
    (hends : w.Ends → w₁.Ends) : Harmless w ((w₁.rptEvent env (some mac) eid buf).map f) := by
  constructor
  · rw [map_ne_error, rptEvent_absent]
    simp
  · intro h
    rw [map_ne_error]
    exact rptEvent_loop (hends h)

theorem harmless_rptNxpList : Harmless w (w.rptNxpList envs value) := by
  apply harmless_of_overrun
  intro fault h
  unfold rptNxpList at h
  split at h
  · cases h
  · rename_i l _
    cases h₁ : rptEach envs 0 l w with
    | error fault₁ =>
      rw [h₁] at h
      cases h
      exact rptEach_fault h₁
    | ok w₁ =>
      rw [h₁] at h
      cases h
  · cases h

theorem harmless_rptNxpNewDeviceAdded : Harmless w (w.rptNxpNewDeviceAdded envs value) := by
  apply harmless_of_overrun
  intro fault h
  unfold rptNxpNewDeviceAdded at h
  split at h
  · cases h
  · rename_i r _
    cases h₁ : w.rptReg (envs 0) r with
    | error fault₁ =>
      rw [h₁] at h
      cases h
      exact rptReg_fault h₁
    | ok w₁ =>
      rw [h₁] at h
      cases h

theorem harmless_rptNamed : Harmless w (w.rptNamed eid envs value) := by
  unfold rptNamed
  split
  · exact harmless_ok
  · exact harmless_rptEvent id

theorem harmless_rptNxpStatus : Harmless w (w.rptNxpStatus envs cmdmac value) := by
  unfold rptNxpStatus
  split
  · exact harmless_ok
  · dsimp only
    split
    · exact harmless_rptEvent fun h => h.of_frame (frameStep_uptOnline frame_task _)
    · exact harmless_ok

theorem harmless_rptNxpLockPassAdddelResult :
    Harmless w (w.rptNxpLockPassAdddelResult envs cmdmac value) := by
  unfold rptNxpLockPassAdddelResult
  split
  · exact harmless_ok
  · exact harmless_rptEvent id

theorem harmless_rptNxpLockPassModResult :
    Harmless w (w.rptNxpLockPassModResult envs cmdmac value) := by
  unfold rptNxpLockPassModResult
  split
  · exact harmless_ok
  · split
    · exact harmless_ok
    · exact harmless_rptEvent id

theorem harmless_rptNxpLockDamageAlarm :
    Harmless w (w.rptNxpLockDamageAlarm envs cmdmac value) := by
  unfold rptNxpLockDamageAlarm
  dsimp only
  split
  · exact harmless_ok
  · split
    · exact harmless_ok
    · exact harmless_rptEvent id

theorem harmless_rptNxpLockRptSysStatus :
    Harmless w (w.rptNxpLockRptSysStatus envs cmdmac value) := by
  unfold rptNxpLockRptSysStatus
  split
  · exact harmless_rptEvent id
  · exact harmless_ok

theorem rptNxpLockCheckRecord_faults :
    (w.rptNxpLockCheckRecord envs cmdmac value ≠ .error .absent ↔
      (CheckRecordGiven value → (∃ i, (w.subdevs i).use ≠ 0) → cmdmac.isSome)) ∧
    (w.Ends → w.rptNxpLockCheckRecord envs cmdmac value ≠ .error .loop) := by
  unfold rptNxpLockCheckRecord CheckRecordGiven
  dsimp only
  split_ifs with htype htime hval
  · exact ⟨iff_of_true (by simp) fun hgiven => absurd htime hgiven.2.1, by simp⟩
  · exact ⟨iff_of_true (by simp) fun hgiven => absurd hval hgiven.2.2, by simp⟩
  · rw [map_ne_error, map_ne_error, rptEvent_absent]
    refine ⟨?_, rptEvent_loop⟩
    constructor
    · exact fun h _ => h
    · exact fun h => h ⟨htype, htime, hval⟩
  · exact ⟨iff_of_true (by simp) fun hgiven => absurd hgiven.1 htype, by simp⟩

theorem rptBytes_faults {member : String} {least : ℕ} :
    (w.rptBytes member least cmdmac value ≠ .error .absent ↔
      (BytesGiven member value → cmdmac.isSome)) ∧
    (w.Ends → w.rptBytes member least cmdmac value ≠ .error .loop) := by
  unfold rptBytes BytesGiven
  split
  · rename_i h₁ h₂ h₃
    simp [h₁, h₂, h₃]
  · rename_i hno
    refine ⟨iff_of_true (by simp) ?_, by simp⟩
    rintro ⟨h₁, h₂, h₃⟩
    obtain ⟨s₁, h₁⟩ := Option.isSome_iff_exists.mp h₁
    obtain ⟨s₂, h₂⟩ := Option.isSome_iff_exists.mp h₂
    obtain ⟨s₃, h₃⟩ := Option.isSome_iff_exists.mp h₃
    exact (hno s₁ s₂ s₃ h₁ h₂ h₃).elim

variable (envs w cmdmac value) in
theorem Report.handle_faults (rpt : Report) :
    (rpt.handle envs w cmdmac value ≠ .error .absent ↔ rpt.MacGiven w cmdmac value) ∧
    (w.Ends → rpt.handle envs w cmdmac value ≠ .error .loop) := by
  have hharmless {x : Except Fault (World × ℤ)} (h : Harmless w x) :
      (x ≠ .error .absent ↔ True) ∧ (w.Ends → x ≠ .error .loop) :=
    ⟨iff_of_true h.absent trivial, h.loop⟩
  cases rpt with
  | rptZclcmd | rptAtr => exact rptBytes_faults
  | rptRegister | rptUnregister | rptOnline =>
    exact ⟨map_ne_error.trans present_ne_absent, fun _ => map_ne_error.mpr present_ne_loop⟩
  | rptNxpList => exact hharmless harmless_rptNxpList
  | rptNxpNewDeviceAdded => exact hharmless harmless_rptNxpNewDeviceAdded
  | rptNxpDeviceDeleted | rptNxpLockLocalAddPass | rptNxpLockLocalDelPass =>
    exact hharmless harmless_ok
  | rptNxpLockReboot | rptNxpFactoryReset => exact hharmless harmless_rptNamed
  | rptNxpStatus => exact hharmless harmless_rptNxpStatus
  | rptNxpLockCheckRecord => exact rptNxpLockCheckRecord_faults
  | rptNxpLockPassAdddelResult => exact hharmless harmless_rptNxpLockPassAdddelResult
  | rptNxpLockPassModResult => exact hharmless harmless_rptNxpLockPassModResult
  | rptNxpLockDamageAlarm => exact hharmless harmless_rptNxpLockDamageAlarm
  | rptNxpLockRptSysStatus => exact hharmless harmless_rptNxpLockRptSysStatus

end Handlers

section Packets

theorem one_of_not_neither {a x y : CStr} (h : ¬ (a ≠ x ∧ a ≠ y)) : a = x ∨ a = y :=
  (not_and_or.mp h).imp not_not.mp not_not.mp

variable {envs : ℕ → Env} {u : Uproto} {p : Packet} {jpkt : Json} {cmd : CStr}

theorem attrRpt_faults {w : World} :
    (uprotoCmdHandlerAttrRpt envs w p ≠ .error .absent ↔ ∃ attr, p.attr = some attr ∧
      ∀ name rpt, uprotoSearchUattrcmd attr = some (name, some rpt) →
        rpt.MacGiven w p.cmdmac (p.value.getD .null)) ∧
    (w.Ends → uprotoCmdHandlerAttrRpt envs w p ≠ .error .loop) := by
  unfold uprotoCmdHandlerAttrRpt
  cases p.attr with
  | none => simp [present, Except.bind]
  | some attr =>
    have hattr (f : CStr → Except Fault (World × ℤ)) : (present (some attr)).bind f = f attr := rfl
    rw [hattr]
    have hone {P : CStr → Prop} : (∃ a, some attr = some a ∧ P a) ↔ P attr := by simp
    rw [hone]
    cases hs : uprotoSearchUattrcmd attr with
    | none => simp
    | some cmd =>
      obtain ⟨name, rpt⟩ := cmd
      cases rpt with
      | none => simp
      | some rpt =>
        obtain ⟨habsent, hloop⟩ := rpt.handle_faults envs w p.cmdmac (p.value.getD .null)
        refine ⟨habsent.trans ?_, hloop⟩
        constructor
        · rintro h _ _ ⟨⟩
          exact h
        · exact fun h => h name rpt rfl

variable (envs u p) in
theorem handlerCmd_faults :
    (u.handlerCmd envs p ≠ .error .absent ↔ (p.ctype = "reportAttribute".toList →
      ∃ attr, p.attr = some attr ∧ ∀ name rpt, uprotoSearchUattrcmd attr = some (name, some rpt) →
        rpt.MacGiven u.world p.cmdmac (p.value.getD .null))) ∧
    (u.world.Ends → u.handlerCmd envs p ≠ .error .loop) := by
  unfold Uproto.handlerCmd
  split
  · rename_i hreport
    rw [map_ne_error, map_ne_error, attrRpt_faults.1]
    exact ⟨⟨fun h _ => h, fun h => h hreport⟩, attrRpt_faults.2⟩
  · rename_i hother
    exact ⟨iff_of_true (by simp) fun h => absurd h hother, by simp⟩

theorem dataComplete_iff {attr : CStr} (hreport : p.ctype = "reportAttribute".toList)
    (hattr : p.attr = some attr)
    (hmac : u.Awaits attr → u.usyncMac.isSome → p.cmdmac.isSome)
    (htaken : ¬ (u.Awaits attr ∧ (u.usyncMac = none ∨ u.usyncMac = p.cmdmac))) :
    u.DataComplete p ↔ u.handlerCmd envs p ≠ .error .absent := by
  rw [(handlerCmd_faults envs u p).1]
  constructor
  · intro h _
    obtain ⟨attr', hattr', -, hgiven⟩ := h hreport
    obtain rfl : attr = attr' := Option.some.inj (hattr.symm.trans hattr')
    exact ⟨attr, hattr, hgiven htaken⟩
  · intro h _
    obtain ⟨attr', hattr', hgiven⟩ := h hreport
    obtain rfl : attr = attr' := Option.some.inj (hattr.symm.trans hattr')
    exact ⟨attr, hattr, hmac, fun _ => hgiven⟩

theorem dataComplete_of_taken {attr : CStr} (hattr : p.attr = some attr)
    (hmac : u.usyncMac.isSome → p.cmdmac.isSome)
    (htaken : u.Awaits attr ∧ (u.usyncMac = none ∨ u.usyncMac = p.cmdmac)) : u.DataComplete p :=
  fun _ => ⟨attr, hattr, fun _ => hmac, fun h => absurd htaken h⟩

theorem deliver_of_not_awaits
    (h : ∀ attr, p.ctype = "reportAttribute".toList → p.attr = some attr → ¬ u.Awaits attr)
    (hattr : p.ctype = "reportAttribute".toList → p.attr.isSome) :
    u.deliver envs p = u.handlerCmd envs p := by
  unfold Uproto.deliver
  split
  · rfl
  rename_i usyncAttr hsync
  split
  · rename_i hreport
    obtain ⟨attr, hsome⟩ := Option.isSome_iff_exists.mp (hattr hreport)
    rw [hsome]
    apply if_neg
    rintro ⟨rfl, hret⟩
    exact h attr hreport hsome ⟨hsync, Option.isNone_iff_eq_none.mp hret⟩
  · rfl

theorem deliver_of_no_attr (hreport : p.ctype = "reportAttribute".toList) (hattr : p.attr = none) :
    u.deliver envs p = .error .absent := by
  unfold Uproto.deliver
  split
  · rw [Uproto.handlerCmd, if_pos hreport, uprotoCmdHandlerAttrRpt, hattr]
    rfl
  · rw [if_pos hreport, hattr]
    rfl

section Awaited

variable {attr mac : CStr} (hreport : p.ctype = "reportAttribute".toList)
  (hattr : p.attr = some attr) (hawaits : u.Awaits attr)

include hreport hattr hawaits

theorem deliver_of_awaits_any (hmac : u.usyncMac = none) :
    u.deliver envs p = .ok { u with usyncRet := p.value } := by
  obtain ⟨hsync, hret⟩ := hawaits
  unfold Uproto.deliver
  rw [hsync, hmac]
  dsimp only
  rw [if_pos hreport, hattr]
  exact if_pos ⟨rfl, by rw [hret]; rfl⟩

theorem deliver_of_awaits_mac (hmac : u.usyncMac = some mac) : u.deliver envs p =
    (present p.cmdmac).bind fun cmdmac =>
      if cmdmac = mac then .ok { u with usyncRet := p.value } else u.handlerCmd envs p := by
  obtain ⟨hsync, hret⟩ := hawaits
  unfold Uproto.deliver
  rw [hsync, hmac]
  dsimp only
  rw [if_pos hreport, hattr]
  exact if_pos ⟨rfl, by rw [hret]; rfl⟩

theorem deliver_faults_awaited : (u.deliver envs p ≠ .error .absent ↔ u.DataComplete p) ∧
    (u.world.Ends → u.deliver envs p ≠ .error .loop) := by
  cases hmac : u.usyncMac with
  | none =>
    rw [deliver_of_awaits_any hreport hattr hawaits hmac]
    refine ⟨iff_of_true (by simp) ?_, by simp⟩
    exact dataComplete_of_taken hattr (by simp [hmac]) ⟨hawaits, Or.inl hmac⟩
  | some mac =>
    rw [deliver_of_awaits_mac hreport hattr hawaits hmac]
    cases hcmdmac : p.cmdmac with
    | none =>
      refine ⟨iff_of_false (by simp [present, Except.bind]) ?_, by simp [present, Except.bind]⟩
      intro h
      obtain ⟨attr', hsome, hgiven, -⟩ := h hreport
      obtain rfl : attr = attr' := Option.some.inj (hattr.symm.trans hsome)
      have hsome' := hgiven hawaits (by simp [hmac])
      simp [hcmdmac] at hsome'
    | some cmdmac =>
      have hbind (f : CStr → Except Fault Uproto) : (present (some cmdmac)).bind f = f cmdmac := rfl
      rw [hbind]
      split
      · rename_i heq
        refine ⟨iff_of_true (by simp) ?_, by simp⟩
        exact dataComplete_of_taken hattr (by simp [hcmdmac])
          ⟨hawaits, Or.inr (by rw [hmac, hcmdmac, heq])⟩
      · rename_i hne
        refine ⟨(dataComplete_iff hreport hattr (by simp [hcmdmac]) ?_).symm,
          (handlerCmd_faults envs u p).2⟩
        rintro ⟨-, hm | hm⟩
        · exact absurd (hmac.symm.trans hm) (by simp)
        · exact hne (Option.some.inj (hcmdmac.symm.trans (hm.symm.trans hmac)))

end Awaited

theorem deliver_faults : (u.deliver envs p ≠ .error .absent ↔ u.DataComplete p) ∧
    (u.world.Ends → u.deliver envs p ≠ .error .loop) := by
  obtain ⟨hcmd, hloop⟩ := handlerCmd_faults envs u p
  by_cases hreport : p.ctype = "reportAttribute".toList
  · cases hattr : p.attr with
    | none =>
      rw [deliver_of_no_attr hreport hattr]
      refine ⟨iff_of_false (by simp) ?_, by simp⟩
      intro h
      obtain ⟨attr, hsome, -⟩ := h hreport
      exact absurd (hattr.symm.trans hsome) (by simp)
    | some attr =>
      by_cases hawaits : u.Awaits attr
      · exact deliver_faults_awaited hreport hattr hawaits
      · rw [deliver_of_not_awaits]
        · refine ⟨(dataComplete_iff hreport hattr ?_ ?_).symm, hloop⟩
          · exact fun h => absurd h hawaits
          · exact fun h => hawaits h.1
        · intro attr' _ hsome
          obtain rfl : attr = attr' := Option.some.inj (hattr.symm.trans hsome)
          exact hawaits
        · intro _
          rw [hattr]
          rfl
  · rw [deliver_of_not_awaits (fun _ h => absurd h hreport) fun h => absurd h hreport]
    refine ⟨iff_of_true ?_ ?_, hloop⟩
    · exact hcmd.mpr fun h => absurd h hreport
    · exact fun h => absurd h hreport

variable (envs u cmd) in
theorem alink_faults :
    (u.uprotoHandlerUbusCmdAlink envs cmd ≠ .error .absent ↔
      ∀ jpkt, (envs 0).jsonLoads cmd = some jpkt → u.Complete jpkt) ∧
    (u.world.Ends → u.uprotoHandlerUbusCmdAlink envs cmd ≠ .error .loop) := by
  unfold Uproto.uprotoHandlerUbusCmdAlink
  cases (envs 0).jsonLoads cmd with
  | none => simp
  | some jpkt =>
    have hone {P : Json → Prop} : (∀ j, some jpkt = some j → P j) ↔ P jpkt := by simp
    rw [hone]
    unfold Uproto.Complete
    dsimp only
    rw [present_bind_absent, present_bind_loop]
    constructor
    · refine exists_congr fun source => and_congr_right fun _ => ?_
      split
      · rename_i hsource
        exact iff_of_true (by simp) fun h => h.elim (absurd · hsource.1) (absurd · hsource.2)
      rename_i hsource
      have hsource' : source = "ZB3".toList ∨ source = "NXP".toList := one_of_not_neither hsource
      rw [present_bind_absent, forall_prop_of_true hsource']
      refine exists_congr fun dest => and_congr_right fun _ => ?_
      split
      · rename_i hdest
        exact iff_of_true (by simp) fun h => absurd h hdest
      rename_i hdest
      rw [present_bind_absent, forall_prop_of_true (not_not.mp hdest)]
      refine exists_congr fun ctype => and_congr_right fun _ => ?_
      split
      · rename_i htype
        exact iff_of_true (by simp) fun h => h.elim (absurd · htype.1) (absurd · htype.2)
      rename_i htype
      have htype' : ctype = "cmdResult".toList ∨ ctype = "reportAttribute".toList :=
        one_of_not_neither htype
      rw [forall_prop_of_true htype']
      cases jsonObjectGet jpkt "data" with
      | none => simp
      | some jdata =>
        have hdata : (∀ j, some jdata = some j → u.DataComplete (packetOf ctype j)) ↔
            u.DataComplete (packetOf ctype jdata) := by simp
        rw [hdata]
        exact deliver_faults.1
    · intro hends source _
      split
      · simp
      rw [present_bind_loop]
      intro dest _
      split
      · simp
      rw [present_bind_loop]
      intro ctype _
      split
      · simp
      split
      · simp
      · exact deliver_faults.2 hends

theorem deliver_ignored {ctype : CStr} {jdata : Json} (hdata : ∀ m, jdata ≠ .obj m)
    (hcomplete : u.DataComplete (packetOf ctype jdata)) :
    u.deliver envs (packetOf ctype jdata) = .ok u := by
  have hother : ctype ≠ "reportAttribute".toList := by
    intro hreport
    obtain ⟨attr, hattr, -⟩ := hcomplete hreport
    cases jdata with
    | obj m => exact hdata m rfl
    | null | bool | int | real | str | arr => cases hattr
  unfold Uproto.deliver Uproto.handlerCmd
  split
  · exact if_neg hother
  · exact (if_neg hother).trans (if_neg hother)

theorem alink_ignored (hcomplete : u.Complete jpkt) (hno : ¬ jpkt.Addressed)
    (hload : (envs 0).jsonLoads cmd = some jpkt) :
    u.uprotoHandlerUbusCmdAlink envs cmd = .ok u := by
  obtain ⟨source, hsource, hcomplete⟩ := hcomplete
  have hbind (s : CStr) (f : CStr → Except Fault Uproto) : (present (some s)).bind f = f s := rfl
  unfold Uproto.uprotoHandlerUbusCmdAlink
  rw [hload]
  dsimp only
  rw [hsource, hbind]
  split
  · rfl
  rename_i hfrom
  have hfrom' : source = "ZB3".toList ∨ source = "NXP".toList := one_of_not_neither hfrom
  obtain ⟨dest, hdest, hcomplete⟩ := hcomplete hfrom'
  rw [hdest, hbind]
  split
  · rfl
  rename_i hto
  obtain ⟨ctype, htype, hcomplete⟩ := hcomplete (not_not.mp hto)
  rw [htype, hbind]
  split
  · rfl
  rename_i hctype
  have hctype' : ctype = "cmdResult".toList ∨ ctype = "reportAttribute".toList :=
    one_of_not_neither hctype
  split
  · rfl
  rename_i jdata hdata
  refine deliver_ignored ?_ (hcomplete hctype' jdata hdata)
  rintro m rfl
  apply hno
  refine ⟨?_, ?_, ?_, m, hdata⟩
  · rw [hsource]
    exact hfrom'.imp (congrArg some) (congrArg some)
  · rw [hdest, not_not.mp hto]
  · rw [htype]
    exact hctype'.imp (congrArg some) (congrArg some)

end Packets

/-- In every reachable state a packet is handled without a use of an absent member, and changes
nothing unless it is addressed to the gateway, exactly when it has the members that are
compared. -/
theorem packets_safe_iff {envs : ℕ → Env} {w₀ : World} {u : Uproto} {cmd : CStr}
    (h₀ : w₀.taskList = none) (hr : Reachable lifeStep (fun _ e => e.2.OnLocks) w₀ u.world) :
    u.Safe envs cmd ↔ ∀ jpkt, (envs 0).jsonLoads cmd = some jpkt → u.Complete jpkt := by
  obtain ⟨habsent, hloop⟩ := alink_faults envs u cmd
  constructor
  · exact fun h => habsent.mp h.present
  · intro hcomplete
    refine ⟨habsent.mpr hcomplete, hloop (ends_of_reachable h₀ hr), ?_⟩
    intro hno
    cases hload : (envs 0).jsonLoads cmd with
    | none =>
      unfold Uproto.uprotoHandlerUbusCmdAlink
      rw [hload]
    | some jpkt => exact alink_ignored (hcomplete jpkt hload) (hno jpkt hload) hload

def Env.sending (jpkt : Json) : Env := { Env.quiet with jsonLoads := fun _ => some jpkt }

def Uproto.idle (w : World) : Uproto := ⟨w, none, none, none⟩

/-- A packet of the lock module for somebody else is ignored. -/
theorem packets_safe_other : (Uproto.idle boot).Safe
    (fun _ => .sending (.obj [("from", .str "NXP".toList), ("to", .str "GATEWAY".toList)])) [] := by
  have hboot : boot.taskList = none := rfl
  refine (packets_safe_iff hboot .start).mpr ?_
  rintro _ ⟨⟩
  refine ⟨"NXP".toList, rfl, fun _ => ⟨"GATEWAY".toList, rfl, ?_⟩⟩
  intro h
  exact absurd h (by decide)

/-- The packet without members is compared with the sources that the gateway knows. -/
theorem empty_packet_faults : ¬ ∀ (envs : ℕ → Env) (w₀ : World) (u : Uproto) (cmd : CStr),
    w₀.taskList = none → Reachable lifeStep (fun _ e => e.2.OnLocks) w₀ u.world →
      u.Safe envs cmd := by
  intro h
  have hsafe := h (fun _ => .sending (.obj [])) boot (.idle boot) [] rfl .start
  exact hsafe.present rfl

end Afly
