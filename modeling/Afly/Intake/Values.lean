import Afly.Handles.Login
import Afly.Intake.Reports

/-! # What a report leaves in the record

A device list, a new device and a status each carry the members `online`,
`battery` and `rssi`. The handlers read some of them from the member `battery`.
A record holds what was reported, and the device is logged in or out by it,
exactly when these reads give the same values.
-/

namespace Afly

open World

/-- The reports with the members `online`, `battery` and `rssi`. -/
inductive StatusReport where
  | listed
  | added
  | status
  deriving DecidableEq

def StatusReport.battery : StatusReport → ℤ
  | .status => -1
  | _ => 100

/-- The record holds what is reported, or the defaults of absent members. -/
structure SubDev.Holds (sd : SubDev) (kind : StatusReport) (jv : Json) : Prop where
  online : sd.online = jsonGetInt jv "online" 0
  battery : sd.battery = jsonGetInt jv "battery" kind.battery
  rssi : sd.rssi = jsonGetInt jv "rssi" 100

/-- The call is no login, or a login of a device that is online and not logged in, and the same for
a logout. -/
def SdkCall.Follows (online : ℤ) (loggedIn : Prop) : SdkCall → Prop
  | .login _ => online ≠ 0 ∧ ¬ loggedIn
  | .logout _ => online = 0 ∧ loggedIn
  | _ => True

namespace World

def LoggedIn (w : World) (i : Slot) : Prop := (w.subdevs i).use ≠ 0 ∧ (w.subdevs i).login ≠ 0

def Registered (w : World) (name : CStr) (i : Slot) : Prop :=
  w.productSubSearchByName name = some i ∧ (w.subdevs i).devid ≠ 0

/-- Every call between two states follows the online value of the device. -/
def CallsFollow (w w' : World) (online : ℤ) (loggedIn : Prop) : Prop :=
  ∃ calls, w'.sdk.calls = w.sdk.calls ++ calls ∧ ∀ c ∈ calls, c.1.Follows online loggedIn

/-- A report is handled as it says: the record and the calls follow its members. -/
structure HandledAs (w w' : World) (i : Slot) (kind : StatusReport) (jv : Json) : Prop where
  holds : (w'.subdevs i).Holds kind jv
  calls : CallsFollow w w' (jsonGetInt jv "online" 0) (w.LoggedIn i)

/-- The handling of one device of a report, from `w` to `w'`. The devices behind it in a list lead
on to the state `final`. -/
inductive Handles (envs : ℕ → Env) : StatusReport → Json → CStr → Slot → World → World → List Json →
    World → Prop where
  | listed {w₀ w w' final : World} {value jv : Json} {front rest : List Json} {name : CStr}
      {i : Slot} (hlist : jsonObjectGet value "device_list" = some (.arr (front ++ jv :: rest)))
      (hreport : w₀.rptNxpList envs value = .ok (final, 0))
      (hfront : rptEach envs 0 front w₀ = .ok w) (hjv : w.rptListed (envs front.length) jv = .ok w')
      (hread : (nxpRegOf jv).isSome) (hname : jsonGetString jv "mac" = some name)
      (hreg : w.Registered name i ∨ w'.Registered name i) :
      Handles envs .listed jv name i w w' rest final
  | added {w w' : World} {jv : Json} {name : CStr} {i : Slot}
      (hreport : w.rptNxpNewDeviceAdded envs jv = .ok (w', 0))
      (hname : jsonGetString jv "mac" = some name)
      (hreg : w.Registered name i ∨ w'.Registered name i) :
      Handles envs .added jv name i w w' [] w'
  | status {w w' : World} {jv : Json} {name : CStr} {i : Slot}
      (hreport : w.rptNxpStatus envs (some name) jv = .ok (w', 0)) (hreg : w.Registered name i) :
      Handles envs .status jv name i w w' [] w'

end World

/-- The values that are read from the member `battery` are those of the members meant. -/
def SameReads (kind : StatusReport) (jv : Json) : Prop :=
  jsonGetInt jv "battery" 0 = jsonGetInt jv "online" 0 ∧
    (kind ≠ .status → jsonGetInt jv "battery" 100 = jsonGetInt jv "rssi" 100)

section Calls

variable {env : Env} {w w' w'' : World} {i : Slot} {online : ℤ} {loggedIn : Prop}

theorem World.CallsFollow.of_eq (h : w'.sdk.calls = w.sdk.calls) :
    CallsFollow w w' online loggedIn :=
  ⟨[], by simpa using h, by simp⟩

theorem World.CallsFollow.trans (h : CallsFollow w w' online loggedIn)
    (h' : CallsFollow w' w'' online loggedIn) : CallsFollow w w'' online loggedIn := by
  obtain ⟨l, hl, hall⟩ := h
  obtain ⟨l', hl', hall'⟩ := h'
  refine ⟨l ++ l', ?_, ?_⟩
  · rw [hl', hl, List.append_assoc]
  · intro c hc
    exact (List.mem_append.mp hc).elim (hall c) (hall' c)

theorem World.CallsFollow.record (devid : ℤ) {call : SdkCall}
    (hcall : call.Follows online loggedIn)
    (h : w'.sdk.calls = (w.sdk.record devid call).calls) : CallsFollow w w' online loggedIn :=
  ⟨_, h, by simpa using hcall⟩

theorem syncLogin_follows :
    CallsFollow w (w.syncLogin env i online) online ((w.subdevs i).login ≠ 0) := by
  have hafter : CallsFollow w (w.setSdk (sdkAfter env w.sdk (w.subdevs i) online)) online
      ((w.subdevs i).login ≠ 0) := by
    unfold sdkAfter
    split_ifs with ho hl hl
    · have hcall : (SdkCall.login (w.subdevs i).devid).Follows online
          ((w.subdevs i).login ≠ 0) := ⟨ho, not_not.mpr hl⟩
      apply CallsFollow.record (w.subdevs i).devid hcall
      unfold Sdk.login
      dsimp only
      split <;> rfl
    · exact .of_eq rfl
    · have hcall : (SdkCall.logout (w.subdevs i).devid).Follows online
          ((w.subdevs i).login ≠ 0) := ⟨not_not.mp ho, hl⟩
      apply CallsFollow.record (w.subdevs i).devid hcall
      unfold Sdk.logout
      dsimp only
      split <;> rfl
    · exact .of_eq rfl
  rcases syncLogin_sdk env w i online with he | ⟨property, he⟩
  · exact hafter.trans (.of_eq (by rw [he]; rfl))
  · apply hafter.trans
    have hcall : (SdkCall.post (w.subdevs i).devid property).Follows online
        ((w.subdevs i).login ≠ 0) := trivial
    apply CallsFollow.record (w.subdevs i).devid hcall
    rw [he]
    rfl

end Calls

section Records

variable {env : Env} {envs : ℕ → Env} {w w' : World} {i : Slot} {name : CStr} {r : NxpReg}

theorem SubDev.report_values {sd sd' : SubDev} (h : sd.report r = some sd') :
    sd'.online = r.online ∧ sd'.battery = r.battery ∧ sd'.rssi = r.rssi := by
  unfold SubDev.report at h
  obtain ⟨sd₁, -, h⟩ := Option.bind_eq_some_iff.mp h
  obtain ⟨sd₂, -, h⟩ := Option.bind_eq_some_iff.mp h
  obtain ⟨sd₃, -, h⟩ := Option.bind_eq_some_iff.mp h
  cases h
  exact ⟨rfl, rfl, rfl⟩

theorem World.AddsDevices.loggedIn (h : AddsDevices w w') (hu : (w'.subdevs i).use ≠ 0) :
    (w'.subdevs i).login ≠ 0 ↔ w.LoggedIn i := by
  have ho := h.subdevs i
  unfold LoggedIn
  generalize w.subdevs i = sd at ho ⊢
  generalize w'.subdevs i = sd' at ho hu ⊢
  cases ho with
  | same => exact (and_iff_right hu).symm
  | assign key secret hsd =>
    subst hsd
    exact (and_iff_right hu).symm
  | fresh hfree huse hdevid hlogin hlock htask =>
    constructor
    · exact fun hl => absurd hlogin hl
    · exact fun hl => absurd hfree hl.1

theorem reg_values (h : w.aflyNxpReg env r = some w')
    (hreg : w.Registered r.name i ∨ w'.Registered r.name i) :
    w'.productSubSearchByName r.name = some i ∧
    ((w'.subdevs i).online = r.online ∧ (w'.subdevs i).battery = r.battery ∧
      (w'.subdevs i).rssi = r.rssi) ∧ CallsFollow w w' r.online (w.LoggedIn i) := by
  rcases aflyNxpReg_cases h with ⟨found, h₁, hd⟩ | ⟨w₁, k, w₂, h₁, hc, h₂, rfl⟩
  · exfalso
    rcases hreg with ⟨hi, hdevid⟩ | ⟨hi, hdevid⟩
    · obtain ⟨rfl, rfl⟩ := registerRecord_registered hi h₁
      exact hdevid (hd i rfl)
    · exact hdevid (hd i ((registerRecord_spec h₁).2.symm.trans hi))
  obtain ⟨hadds, hfound⟩ := registerRecord_spec h₁
  obtain ⟨hdev, hsdk⟩ := storeReport_sameHandle h₂
  have hopen := openHandle_subdevs hc
  have hsearch : (w₂.syncLogin env k r.online).productSubSearchByName r.name = some k := by
    rw [← hfound]
    apply productSubSearchByName_of_sameDevice
    intro j
    have hdevice : SameDevice (w₁.subdevs j) (w₂.subdevs j) := by
      refine SameDevice.trans ?_ (hdev j).toSameDevice
      rw [hopen]
      exact rel_update .refl ⟨rfl, rfl, rfl, rfl⟩ j
    apply hdevice.trans
    rw [syncLogin_subdevs]
    exact rel_update .refl ⟨rfl, rfl, rfl, rfl⟩ j
  have hk : k = i := by
    rcases hreg with ⟨hi, -⟩ | ⟨hi, -⟩
    · exact Option.some.inj (registerRecord_registered hi h₁).2
    · exact Option.some.inj (hsearch.symm.trans hi)
  subst hk
  have hlogin : (w₂.subdevs k).login = (w₁.subdevs k).login := by
    rw [(hdev k).login, hopen, Function.update_self]
  refine ⟨hsearch, ?_, ?_⟩
  · obtain ⟨sd, hsd, -, hsub, -⟩ := storeReport_spec h₂
    obtain ⟨honline, hbattery, hrssi⟩ := SubDev.report_values hsd
    rw [syncLogin_subdevs, Function.update_self, hsub, Function.update_self]
    split <;> exact ⟨honline, hbattery, hrssi⟩
  · have hcalls : w₂.sdk.calls = w.sdk.calls := by
      rw [hsdk, openHandle_calls hc, hadds.sdk]
    have hlog : ((w₂.subdevs k).login ≠ 0) = w.LoggedIn k := by
      rw [hlogin]
      exact propext (hadds.loggedIn (use_of_search hfound))
    rw [← hlog]
    exact (CallsFollow.of_eq hcalls).trans syncLogin_follows

variable (env) in
theorem uptOnline_values {s : NxpStatus} (hreg : w.Registered s.name i) :
    (((w.aflyNxpUptOnline env s).subdevs i).online = s.online ∧
      ((w.aflyNxpUptOnline env s).subdevs i).battery = s.battery ∧
      ((w.aflyNxpUptOnline env s).subdevs i).rssi = s.rssi) ∧
    CallsFollow w (w.aflyNxpUptOnline env s) s.online (w.LoggedIn i) := by
  obtain ⟨hi, hdevid⟩ := hreg
  unfold aflyNxpUptOnline
  rw [hi]
  dsimp only
  rw [if_neg hdevid]
  constructor
  · rw [syncLogin_subdevs, Function.update_self, productSubSave_subdevs]
    simp [storeStatus]
  · have hlog : ((((w.storeStatus i s).productSubSave i (env.save 0)).subdevs i).login ≠ 0) =
        w.LoggedIn i := by
      simp [storeStatus, LoggedIn, use_of_search hi]
    rw [← hlog]
    exact (CallsFollow.of_eq (by simp [storeStatus])).trans syncLogin_follows

theorem sysStatus_values {buf : ℕ → ℤ} {online : ℤ} {loggedIn : Prop}
    (h : w.aflyNxpRptEvent env name eventNxpSysStatus buf = some w') :
    ((w'.subdevs i).online = (w.subdevs i).online ∧
      (w'.subdevs i).battery = (w.subdevs i).battery ∧
      (w'.subdevs i).rssi = (w.subdevs i).rssi) ∧ CallsFollow w w' online loggedIn := by
  rcases aflyNxpRptEvent_cases h with ⟨-, rfl⟩ | ⟨k, w₁, notice, -, he, rfl⟩
  · exact ⟨⟨rfl, rfl, rfl⟩, .of_eq rfl⟩
  have heq : w.lockEvent env k eventNxpSysStatus buf = some (w, sysStatus buf) := rfl
  obtain ⟨rfl, rfl⟩ := Prod.mk.inj (Option.some.inj (heq.symm.trans he))
  cases sysStatus buf with
  | none => exact ⟨⟨rfl, rfl, rfl⟩, .of_eq rfl⟩
  | some n =>
    constructor
    · rw [Option.elim_some, triggerEvent_subdevs]
      split
      · by_cases hik : i = k
        · subst hik
          rw [Function.update_self]
          exact ⟨rfl, rfl, rfl⟩
        · rw [Function.update_of_ne hik]
          exact ⟨rfl, rfl, rfl⟩
      · exact ⟨rfl, rfl, rfl⟩
    · have hcall : (SdkCall.trigger (w.subdevs k).devid n).Follows online loggedIn := trivial
      apply CallsFollow.record (w.subdevs k).devid hcall
      exact triggerEvent_calls

theorem reg_other (h : w.aflyNxpReg env r = some w') (huse : (w.subdevs i).use ≠ 0)
    (hname : r.name ≠ (w.subdevs i).deviceName) : w'.subdevs i = w.subdevs i := by
  have hfree {w₁ : World} {found : Option Slot} (h₁ : w.registerRecord env r = some (w₁, found)) :
      w₁.subdevs i = w.subdevs i := by
    unfold registerRecord at h₁
    split at h₁
    · cases h₁; rfl
    · split at h₁
      · cases h₁; rfl
      · obtain ⟨⟨w₂, ret⟩, hadd, he⟩ := Option.map_eq_some_iff.mp h₁
        cases he
        rcases productSubAdd_cases hadd with
          ⟨k, sd, hk, -, -⟩ | ⟨-, -, rfl⟩ | ⟨k, sd, -, hm, -, rfl⟩
        · rename_i hnone _ _ _
          exact absurd (hnone.symm.trans hk) (by simp)
        · rfl
        · have hik : i ≠ k := by
            rintro rfl
            exact huse (use_of_malloc hm)
          rw [productSubSave_subdevs, setDev_subdevs, Function.update_of_ne hik]
  rcases aflyNxpReg_cases h with ⟨found, h₁, -⟩ | ⟨w₁, k, w₂, h₁, hc, h₂, rfl⟩
  · exact hfree h₁
  have hik : i ≠ k := by
    rintro rfl
    apply hname
    rw [← hfree h₁]
    exact (name_of_search (registerRecord_spec h₁).2).symm
  obtain ⟨sd, -, -, hsub, -⟩ := storeReport_spec h₂
  rw [syncLogin_subdevs, Function.update_of_ne hik, hsub, Function.update_of_ne hik,
    openHandle_subdevs hc, Function.update_of_ne hik, hfree h₁]

theorem rptReg_eq_ok (h : w.rptReg env r = .ok w') : w.aflyNxpReg env r = some w' := by
  unfold rptReg at h
  split at h
  · cases h
  · rename_i heq
    cases h
    exact heq

theorem rptEach_append {front rest : List Json} {k : ℕ} :
    rptEach envs k (front ++ rest) w =
      (rptEach envs k front w).bind fun w => rptEach envs (k + front.length) rest w := by
  induction front generalizing k w with
  | nil => rfl
  | cons jv front ih =>
    rw [List.cons_append, rptEach, rptEach]
    cases w.rptListed (envs k) jv with
    | error fault => rfl
    | ok w₁ =>
      have hk : k + 1 + front.length = k + (jv :: front).length := by simp; omega
      rw [← hk]
      exact ih

theorem rptEach_other {rest : List Json} {k : ℕ} (h : rptEach envs k rest w = .ok w')
    (huse : (w.subdevs i).use ≠ 0) (hname : ∀ jv ∈ rest, ∀ r, nxpRegOf jv = some r →
      r.name ≠ (w.subdevs i).deviceName) : w'.subdevs i = w.subdevs i := by
  induction rest generalizing k w with
  | nil => cases h; rfl
  | cons jv rest ih =>
    rw [rptEach] at h
    cases h₁ : w.rptListed (envs k) jv with
    | error fault => rw [h₁] at h; cases h
    | ok w₁ =>
      rw [h₁] at h
      have hone : w₁.subdevs i = w.subdevs i := by
        unfold rptListed at h₁
        split at h₁
        · cases h₁; rfl
        · rename_i r hr
          exact reg_other (rptReg_eq_ok h₁) huse (hname jv List.mem_cons_self r hr)
      rw [← hone]
      apply ih h
      · rwa [hone]
      · rw [hone]
        exact fun jv' hm => hname jv' (List.mem_cons_of_mem _ hm)

end Records

section Reports

variable {envs : ℕ → Env} {kind : StatusReport} {jv : Json} {name : CStr} {i : Slot}
  {w w' final : World} {rest : List Json} {r : NxpReg}

def StatusReport.readRssi (kind : StatusReport) (jv : Json) : ℤ :=
  match kind with
  | .status => jsonGetInt jv "rssi" 100
  | _ => jsonGetInt jv "battery" 100

theorem handledAs_iff (hvalues : (w'.subdevs i).online = jsonGetInt jv "battery" 0 ∧
      (w'.subdevs i).battery = jsonGetInt jv "battery" kind.battery ∧
      (w'.subdevs i).rssi = kind.readRssi jv)
    (hcalls : CallsFollow w w' (jsonGetInt jv "battery" 0) (w.LoggedIn i)) :
    w.HandledAs w' i kind jv ↔ SameReads kind jv := by
  obtain ⟨honline, hbattery, hrssi⟩ := hvalues
  constructor
  · intro h
    refine ⟨honline.symm.trans h.holds.online, ?_⟩
    intro hkind
    have hr := hrssi.symm.trans h.holds.rssi
    cases kind with
    | status => exact absurd rfl hkind
    | listed | added => exact hr
  · rintro ⟨ho, hr⟩
    rw [ho] at honline hcalls
    refine ⟨⟨honline, hbattery, hrssi.trans ?_⟩, hcalls⟩
    cases kind with
    | status => rfl
    | listed | added => exact hr (by simp)

theorem nxpRegOf_eq (h : nxpRegOf jv = some r) : jsonGetString jv "mac" = some r.name ∧
    r.online = jsonGetInt jv "battery" 0 ∧ r.battery = jsonGetInt jv "battery" 100 ∧
      r.rssi = jsonGetInt jv "battery" 100 := by
  unfold nxpRegOf at h
  obtain ⟨name, hname, h⟩ := Option.bind_eq_some_iff.mp h
  obtain ⟨model, -, h⟩ := Option.bind_eq_some_iff.mp h
  obtain ⟨type, -, h⟩ := Option.bind_eq_some_iff.mp h
  obtain ⟨version, -, h⟩ := Option.bind_eq_some_iff.mp h
  cases h
  exact ⟨hname, rfl, rfl, rfl⟩

theorem regOf_handledAs {env : Env} (hkind : kind ≠ .status) (hr : nxpRegOf jv = some r)
    (h : w.aflyNxpReg env r = some w') (hname : jsonGetString jv "mac" = some name)
    (hreg : w.Registered name i ∨ w'.Registered name i) :
    w'.productSubSearchByName name = some i ∧ (w.HandledAs w' i kind jv ↔ SameReads kind jv) := by
  obtain ⟨hmac, honline, hbattery, hrssi⟩ := nxpRegOf_eq hr
  obtain rfl : name = r.name := Option.some.inj (hname.symm.trans hmac)
  obtain ⟨hsearch, ⟨ho, hb, hs⟩, hcalls⟩ := reg_values h hreg
  refine ⟨hsearch, handledAs_iff ⟨ho.trans honline, ?_, ?_⟩ (honline ▸ hcalls)⟩
  · cases kind with
    | status => exact absurd rfl hkind
    | listed | added => exact hb.trans hbattery
  · cases kind with
    | status => exact absurd rfl hkind
    | listed | added => exact hs.trans hrssi

theorem nxpStatusOf_eq {s : NxpStatus} (h : nxpStatusOf (some name) jv = some s) :
    s.name = name ∧ s.online = jsonGetInt jv "battery" 0 ∧
      s.battery = jsonGetInt jv "battery" (-1) ∧ s.rssi = jsonGetInt jv "rssi" 100 := by
  unfold nxpStatusOf at h
  rw [Option.bind_eq_bind, Option.bind_some] at h
  obtain ⟨type, -, h⟩ := Option.bind_eq_some_iff.mp h
  cases h
  exact ⟨rfl, rfl, rfl, rfl⟩

theorem status_handledAs (h : w.rptNxpStatus envs (some name) jv = .ok (w', 0))
    (hreg : w.Registered name i) : w.HandledAs w' i .status jv ↔ SameReads .status jv := by
  unfold rptNxpStatus at h
  split at h
  · cases h
  rename_i s hs
  obtain ⟨rfl, honline, hbattery, hrssi⟩ := nxpStatusOf_eq hs
  obtain ⟨⟨ho, hb, hr⟩, hcalls⟩ := uptOnline_values (envs 0) hreg
  dsimp only at h
  split at h
  · obtain ⟨w₂, h₂, he⟩ := map_eq_ok.mp h
    cases he
    obtain ⟨⟨ho', hb', hr'⟩, hcalls'⟩ := sysStatus_values (i := i) (rptEvent_eq_ok h₂)
    apply handledAs_iff
    · exact ⟨(ho'.trans ho).trans honline, (hb'.trans hb).trans hbattery,
        (hr'.trans hr).trans hrssi⟩
    · rw [← honline]
      exact hcalls.trans hcalls'
  · cases h
    apply handledAs_iff
    · exact ⟨ho.trans honline, hb.trans hbattery, hr.trans hrssi⟩
    · rw [← honline]
      exact hcalls

theorem rptListed_eq_ok {env : Env} (h : w.rptListed env jv = .ok w') (hr : nxpRegOf jv = some r) :
    w.aflyNxpReg env r = some w' := by
  unfold rptListed at h
  rw [hr] at h
  exact rptReg_eq_ok h

/-- A registered device gets exactly the reported values, and is logged in or out by them, exactly
when the members `online` and `rssi` have the values that are read from the member `battery`. The
devices behind it in a list change nothing of it. -/
theorem reported_values_iff (h : Handles envs kind jv name i w w' rest final) :
    (w.HandledAs w' i kind jv ↔ SameReads kind jv) ∧
    ((∀ jv' ∈ rest, ∀ r, nxpRegOf jv' = some r → r.name ≠ name) →
      final.subdevs i = w'.subdevs i) := by
  cases h with
  | @listed w₀ _ _ _ value _ front _ _ _ hlist hreport hfront hjv hread hname hreg =>
    obtain ⟨r, hr⟩ := Option.isSome_iff_exists.mp hread
    have hkind : StatusReport.listed ≠ .status := by simp
    obtain ⟨hsearch, hiff⟩ := regOf_handledAs hkind hr (rptListed_eq_ok hjv hr) hname hreg
    refine ⟨hiff, ?_⟩
    intro hrest
    have hfinal : rptEach envs (front.length + 1) rest w' = .ok final := by
      unfold rptNxpList at hreport
      rw [hlist] at hreport
      obtain ⟨w₁, h₁, he⟩ := map_eq_ok.mp hreport
      cases he
      rw [rptEach_append, hfront, Nat.zero_add] at h₁
      have h₂ : (w.rptListed (envs front.length) jv).bind
          (fun w => rptEach envs (front.length + 1) rest w) = .ok final := h₁
      rw [hjv] at h₂
      exact h₂
    apply rptEach_other hfinal (use_of_search hsearch)
    rw [name_of_search hsearch]
    exact hrest
  | added hreport hname hreg =>
    refine ⟨?_, fun _ => rfl⟩
    unfold rptNxpNewDeviceAdded at hreport
    split at hreport
    · cases hreport
    · rename_i r hr
      obtain ⟨w₁, h₁, he⟩ := map_eq_ok.mp hreport
      cases he
      have hkind : StatusReport.added ≠ .status := by simp
      exact (regOf_handledAs hkind hr (rptReg_eq_ok h₁) hname hreg).2
  | status hreport hreg => exact ⟨status_handledAs hreport hreg, fun _ => rfl⟩

end Reports

theorem ok_of_toOption {α : Type*} {x : Except Fault α} {a : α} (h : x.toOption = some a) :
    x = .ok a := by
  cases x with
  | error fault => cases h
  | ok b =>
    cases h
    rfl

/-- The report of the new lock, where every read gives the value of the member meant. -/
def newLockReport : Json :=
  .obj [("mac", .str newLock.name), ("type", .str newLock.type), ("version", .str newLock.version),
    ("model", .str newLock.model), ("battery", .int 1), ("online", .int 1), ("rssi", .int 1)]

theorem reported_values_newLock : ∃ w', boot.rptNxpNewDeviceAdded (fun _ => .quiet) newLockReport =
    .ok (w', 0) ∧ boot.HandledAs w' 0 .added newLockReport := by
  obtain ⟨⟨w', ret⟩, hw, ho⟩ : ∃ p, (boot.rptNxpNewDeviceAdded (fun _ => .quiet)
        newLockReport).toOption = some p ∧
      (p.2, p.1.productSubSearchByName newLock.name, (p.1.subdevs 0).devid) = (0, some 0, 1) :=
    Option.map_eq_some_iff.mp (by decide +kernel)
  simp only [Prod.mk.injEq] at ho
  obtain ⟨rfl, hfound, hdevid⟩ := ho
  have hreg : w'.Registered newLock.name 0 := ⟨hfound, by omega⟩
  refine ⟨w', ok_of_toOption hw, ?_⟩
  exact (reported_values_iff (.added (ok_of_toOption hw) rfl (Or.inr hreg))).1.mpr
    ⟨rfl, fun _ => rfl⟩

/-- The status of a fully charged lock that is offline. -/
def offlineReport : Json :=
  .obj [("type", .str newLock.type), ("battery", .int 100), ("online", .int 0)]

/-- The gateway takes the charge of the lock for its online value, and logs it in. -/
theorem offline_lock_logged_in : ¬ ∀ envs kind jv name i (w w' : World) rest final,
    Handles envs kind jv name i w w' rest final → w.HandledAs w' i kind jv := by
  intro h
  obtain ⟨⟨w', ret⟩, hw, ho⟩ : ∃ p, ((single { firstDevice with devid := 1 }).rptNxpStatus
        (fun _ => .quiet) (some newLock.name) offlineReport).toOption = some p ∧
      (p.2, (p.1.subdevs 0).online) = (0, 100) :=
    Option.map_eq_some_iff.mp (by decide +kernel)
  simp only [Prod.mk.injEq] at ho
  obtain ⟨rfl, honline⟩ := ho
  have hreg : (single { firstDevice with devid := 1 }).Registered newLock.name 0 := by
    refine ⟨?_, ?_⟩ <;> decide +kernel
  have hh := h _ _ _ _ _ _ _ _ _ (.status (ok_of_toOption hw) hreg)
  have hread : jsonGetInt offlineReport "online" 0 = 0 := by decide
  have hzero := hh.holds.online
  omega

end Afly
