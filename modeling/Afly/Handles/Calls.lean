import Afly.Gateway.Events
import Afly.Gateway.Step

/-! # Calls at the cloud SDK

What each handler does to the SDK and to the handle of its record, for the events
that register, report and remove devices. Of the SDK itself only this is assumed:
a created handle is fresh.
-/

namespace Afly

/-- The SDK after more calls, all of them on live handles or all on dead ones. -/
structure Sdk.Calls (live : Bool) (sdk sdk' : Sdk) : Prop where
  bound : sdk'.bound = sdk.bound
  issued : sdk'.issued = sdk.issued
  calls : ∃ l, sdk'.calls = sdk.calls ++ l ∧ ∀ c ∈ l, c.2 = live

namespace Sdk

variable {sdk sdk' sdk'' : Sdk} {devid ret : ℤ} {b : Bool}

theorem Calls.refl (sdk : Sdk) : Calls b sdk sdk := ⟨rfl, rfl, [], by simp, by simp⟩

theorem Calls.trans (h : Calls b sdk sdk') (h' : Calls b sdk' sdk'') : Calls b sdk sdk'' := by
  obtain ⟨l, hl, hall⟩ := h.calls
  obtain ⟨l', hl', hall'⟩ := h'.calls
  refine ⟨h'.bound.trans h.bound, h'.issued.trans h.issued, l ++ l', ?_, ?_⟩
  · rw [hl', hl, List.append_assoc]
  · intro c hc
    exact (List.mem_append.mp hc).elim (hall c) (hall' c)

theorem Calls.live (h : Calls b sdk sdk') : sdk'.live devid = sdk.live devid := by
  rw [Sdk.live, h.bound, Sdk.live]

variable (sdk devid) in
theorem calls_record (call : SdkCall) : Calls (sdk.live devid) sdk (sdk.record devid call) :=
  ⟨rfl, rfl, _, rfl, by simp⟩

theorem calls_onGateway (call : SdkCall) : Calls true sdk (sdk.onGateway call) :=
  ⟨rfl, rfl, _, rfl, by simp⟩

theorem calls_login : Calls (sdk.live devid) sdk (sdk.login devid ret) := by
  have h := calls_record sdk devid (.login devid)
  unfold login
  dsimp only
  split
  · exact ⟨h.bound, h.issued, h.calls⟩
  · exact h

theorem calls_logout : Calls (sdk.live devid) sdk (sdk.logout devid ret) := by
  have h := calls_record sdk devid (.logout devid)
  unfold logout
  dsimp only
  split
  · exact ⟨h.bound, h.issued, h.calls⟩
  · exact h

theorem calls_post (property : List (String × Json)) :
    Calls (sdk.live devid) sdk (sdk.post devid property) := calls_record sdk devid _

@[simp] theorem record_loggedIn (call : SdkCall) :
    (sdk.record devid call).loggedIn = sdk.loggedIn := rfl

@[simp] theorem post_loggedIn (property : List (String × Json)) :
    (sdk.post devid property).loggedIn = sdk.loggedIn := rfl

/-- A new handle is positive, not live, and was never handed out. -/
structure Fresh (sdk : Sdk) (devid : ℤ) : Prop where
  pos : 0 < devid
  dead : sdk.bound devid = none
  new : devid ∉ sdk.issued

theorem create_of_fresh {i : Slot} (h : sdk.Fresh devid) : sdk.create i devid =
    { sdk with bound := Function.update sdk.bound devid (some i), issued := devid :: sdk.issued,
               loggedIn := Function.update sdk.loggedIn devid false } := if_pos h.pos

end Sdk

/-- `linkkit_gateway_subdev_create` fails or hands out a fresh handle. -/
def World.SdkSane (w : World) (env : Env) : Prop := env.create < 0 ∨ w.sdk.Fresh env.create

theorem World.SdkSane.congr {b : Bool} {w w' : World} {env : Env} (h : w.SdkSane env)
    (hs : Sdk.Calls b w.sdk w'.sdk) : w'.SdkSane env :=
  h.imp_right fun hf =>
    ⟨hf.pos, by rw [hs.bound]; exact hf.dead, by rw [hs.issued]; exact hf.new⟩

def Op.OnHandles : Op → Prop
  | .nxpReg _ | .nxpUnreg _ | .uptOnline _ | .rptEvent _ _ _ | .subdevDeleted _ _ | .addSubDev _
  | .delSubDev _ | .clrSubDev | .xdel _ => True
  | _ => False

namespace World

variable {env : Env} {w w' : World} {name : CStr} {i : Slot}

section Reports

variable (env w i) in
theorem syncLogin_calls (online : ℤ) : Sdk.Calls (w.sdk.live (w.subdevs i).devid) w.sdk
    (w.syncLogin env i online).sdk := by
  have h : Sdk.Calls (w.sdk.live (w.subdevs i).devid) w.sdk
      (sdkAfter env w.sdk (w.subdevs i) online) := by
    unfold sdkAfter
    split_ifs
    · exact Sdk.calls_login
    · exact .refl _
    · exact Sdk.calls_logout
    · exact .refl _
  rcases syncLogin_sdk env w i online with he | ⟨p, he⟩
  · rw [he]; exact h
  · rw [he]
    refine h.trans ?_
    rw [← h.live]
    exact Sdk.calls_post p

theorem syncLogin_loggedIn {online : ℤ} : (w.syncLogin env i online).sdk.loggedIn =
    (sdkAfter env w.sdk (w.subdevs i) online).loggedIn := by
  rcases syncLogin_sdk env w i online with he | ⟨p, he⟩
  · rw [he]
  · rw [he, Sdk.post_loggedIn]

theorem openHandle_cases (hsane : w.SdkSane env)
    (hc : (w.subdevs i).devid ≠ 0 ∨ 0 ≤ env.register ∧ 0 ≤ env.create) :
    ((w.openHandle env i).1.subdevs i).devid ≠ 0 ∧
      ((∀ k, SameHandle (w.subdevs k) ((w.openHandle env i).1.subdevs k)) ∧
          (w.openHandle env i).1.sdk = w.sdk ∨
        (w.subdevs i).devid = 0 ∧ w.sdk.Fresh env.create ∧
          (w.openHandle env i).1.subdevs =
            Function.update w.subdevs i { w.subdevs i with devid := env.create } ∧
          (w.openHandle env i).1.sdk = w.sdk.create i env.create) := by
  have hsub := openHandle_subdevs hc
  have hsdk := openHandle_sdk hc
  by_cases hd : (w.subdevs i).devid = 0
  · have hf : w.sdk.Fresh env.create :=
      hsane.resolve_left (not_lt.mpr (hc.resolve_left (not_not.mpr hd)).2)
    rw [if_neg (not_not.mpr hd)] at hsub hsdk
    refine ⟨?_, Or.inr ⟨hd, hf, hsub, hsdk⟩⟩
    rw [hsub, Function.update_self]
    exact hf.pos.ne'
  · rw [if_pos hd] at hsub hsdk
    refine ⟨?_, Or.inl ⟨fun k => ?_, hsdk⟩⟩
    · rw [hsub, Function.update_self]
      exact hd
    · rw [hsub]
      exact rel_update .refl ⟨⟨rfl, rfl, rfl, rfl⟩, rfl, rfl⟩ k

end Reports

section Events

variable {eid : ℤ} {buf : ℕ → ℤ} {notice : Option Notice}

theorem LockOutcome.calls (h : LockOutcome env w i eid buf w' notice) :
    Sdk.Calls (w.sdk.live (w.subdevs i).devid) w.sdk w'.sdk ∧ w'.sdk.loggedIn = w.sdk.loggedIn := by
  rcases h.sdk with he | ⟨p, he⟩
  · rw [he]; exact ⟨.refl _, rfl⟩
  · rw [he]; exact ⟨Sdk.calls_post p, rfl⟩

theorem LockOutcome.sdk_of_none (h : LockOutcome env w i eid buf w' notice)
    (hn : notice = none) : w'.sdk = w.sdk := by
  cases h with
  | unchanged => rfl
  | opened => cases hn
  | cleared => cases hn
  | provisioned => exact productSubSave_sdk ..
  | @acked type =>
    rcases keyAck_cases env w i type (buf 0) (buf 1) (buf 2) with
      ⟨he, -⟩ | ⟨_, j, -, -, -, -, -, he⟩ | ⟨_, j, -, -, -, -, -, he⟩
    · rw [he]
    · rw [he] at hn; cases hn
    · rw [he] at hn; cases hn

theorem triggerEvent_sdk {n : Notice} (hsane : w.SdkSane env) :
    Sdk.Calls (w.sdk.live (w.subdevs i).devid) w.sdk
      (w.sdk.record (w.subdevs i).devid (.trigger (w.subdevs i).devid n)) ∧
    (w.triggerEvent env i n).sdk = if env.Recreates then
        { w.sdk.record (w.subdevs i).devid (.trigger (w.subdevs i).devid n) with
          bound := Function.update w.sdk.bound env.create (some i)
          issued := env.create :: w.sdk.issued
          loggedIn := Function.update w.sdk.loggedIn env.create false }
      else w.sdk.record (w.subdevs i).devid (.trigger (w.subdevs i).devid n) := by
  refine ⟨Sdk.calls_record _ _ _, ?_⟩
  rw [triggerEvent_eq]
  split
  · rename_i hr
    have hf : w.sdk.Fresh env.create := hsane.resolve_left (not_lt.mpr hr.2.2)
    rw [createHandle_sdk, if_neg (not_lt.mpr hr.2.2), setSdk_sdk, Sdk.create, if_pos hf.pos]
    rfl
  · rfl

end Events

section Notices

variable {eid : ℤ} {buf : ℕ → ℤ} {notice : Option Notice}

/-- An event of the lock that the cloud gets. -/
def Notifies (sd : SubDev) (eid : ℤ) (buf : ℕ → ℤ) : Prop :=
  (eid = eventNxpCheckRecord ∧ buf 1 = 1 ∧ ∃ type, checkRecordType (buf 0) = some type ∧
    (type = 6 ∨ ∃ j, productSubLockGetKeyById sd type (buf 3) = some j ∧
      (sd.bank type j).keyState = keyStateAdded)) ∨
  (eid = eventNxpAddDelPassRet ∧ (buf 1 = 0 ∨ buf 1 = 888888 ∨ ∃ type,
    passIdType (buf 1) = some type ∧ type ≠ 0 ∧ ¬ AckIdle sd type (buf 0) (buf 1) (buf 2))) ∨
  (eid = eventNxpSysStatus ∧ (buf 0 ≠ 0 ∨ buf 1 ≠ 0))

theorem checkRecordKey_isSome {sd : SubDev} {type passId : ℤ} :
    (∃ id, checkRecordKey sd type passId = some id) ↔ type = 6 ∨
      ∃ j, productSubLockGetKeyById sd type passId = some j ∧
        (sd.bank type j).keyState = keyStateAdded := by
  unfold checkRecordKey
  by_cases h6 : type = 6
  · simp [h6]
  · cases hj : productSubLockGetKeyById sd type passId with
    | none => simp [h6]
    | some j =>
      by_cases hs : (sd.bank type j).keyState = keyStateAdded
      · simp [h6, hs]
      · simp [h6, hs]

theorem checkRecord_notifies (h : w.checkRecord env i buf = some (w', notice)) :
    notice ≠ none ↔ Notifies (w.subdevs i) eventNxpCheckRecord buf := by
  have hiff : Notifies (w.subdevs i) eventNxpCheckRecord buf ↔ buf 1 = 1 ∧
      ∃ type, checkRecordType (buf 0) = some type ∧
        ∃ id, checkRecordKey (w.subdevs i) type (buf 3) = some id := by
    simp [Notifies, checkRecordKey_isSome]
  rw [hiff]
  unfold checkRecord at h
  cases ht : checkRecordType (buf 0) with
  | none =>
    rw [ht] at h
    cases h
    simp
  | some type =>
    rw [ht] at h
    dsimp only at h
    cases hk : checkRecordKey (w.subdevs i) type (buf 3) with
    | none =>
      rw [hk] at h
      cases h
      simp [hk]
    | some id =>
      rw [hk] at h
      dsimp only at h
      by_cases h1 : buf 1 = 1
      · rw [if_pos h1] at h
        obtain ⟨w₁, -, he⟩ := Option.map_eq_some_iff.mp h
        cases he
        simp [h1, hk]
      · rw [if_neg h1] at h
        cases h
        simp [h1]

theorem passIdType_ne_zero {passId type : ℤ} (h : passIdType passId = some type) :
    type ≠ 0 ↔ passId ≠ 0 ∧ passId ≠ 999999 ∧ passId ≠ 888888 := by
  unfold passIdType at h
  split_ifs at h <;> (cases h; omega)

theorem keyAck_notifies {type op passId code : ℤ} :
    (w.keyAck env i type op passId code).2 ≠ none ↔
      ¬ AckIdle (w.subdevs i) type op passId code := by
  rcases keyAck_cases env w i type op passId code with
    ⟨he, hidle⟩ | ⟨j, k, hj, hs, hop, hcode, _, he⟩ | ⟨j, k, hj, hs, hop, hcode, _, he⟩
  · rw [he]
    simp [hidle]
  · rw [he]
    apply iff_of_true (by simp)
    intro hidle
    exact hidle j hj hcode (Or.inl ⟨hs, hop⟩)
  · rw [he]
    apply iff_of_true (by simp)
    intro hidle
    exact hidle j hj hcode (Or.inr ⟨hs, hop⟩)

theorem addDelPassRet_notifies
    (h : w.addDelPassRet env i (buf 0) (buf 1) (buf 2) = some (w', notice)) :
    notice ≠ none ↔ Notifies (w.subdevs i) eventNxpAddDelPassRet buf := by
  have hiff : Notifies (w.subdevs i) eventNxpAddDelPassRet buf ↔
      buf 1 = 0 ∨ buf 1 = 888888 ∨ ∃ type, passIdType (buf 1) = some type ∧ type ≠ 0 ∧
        ¬ AckIdle (w.subdevs i) type (buf 0) (buf 1) (buf 2) := by
    simp [Notifies]
  rw [hiff]
  unfold addDelPassRet at h
  cases ht : passIdType (buf 1) with
  | none =>
    rw [ht] at h
    cases h
    refine iff_of_false (by simp) ?_
    rintro (h₀ | h₈ | ⟨type, h, -⟩)
    · rw [h₀] at ht; exact absurd ht (by decide)
    · rw [h₈] at ht; exact absurd ht (by decide)
    · cases h
  | some type =>
    rw [ht] at h
    dsimp only at h
    have hzero := passIdType_ne_zero ht
    simp only [Option.some.injEq, exists_eq_left']
    split_ifs at h with h₀ h₉ h₈
    · obtain ⟨-, rfl⟩ := Prod.mk.inj (Option.some.inj h)
      exact iff_of_true (by simp) (Or.inl h₀)
    · obtain ⟨-, rfl⟩ := Prod.mk.inj (Option.some.inj h)
      refine iff_of_false (by simp) ?_
      rintro (h | h | ⟨h, -⟩)
      · exact h₀ h
      · omega
      · exact (hzero.mp h).2.1 h₉
    · obtain ⟨w₁, -, he⟩ := Option.map_eq_some_iff.mp h
      cases he
      exact iff_of_true (by simp) (Or.inr (Or.inl h₈))
    · have hn : notice = (w.keyAck env i type (buf 0) (buf 1) (buf 2)).2 := by
        rw [Option.some.inj h]
      rw [hn, keyAck_notifies]
      have hkey : type ≠ 0 := hzero.mpr ⟨h₀, h₉, h₈⟩
      constructor
      · intro hidle
        exact Or.inr (Or.inr ⟨hkey, hidle⟩)
      · rintro (h | h | ⟨-, h⟩)
        · exact absurd h h₀
        · exact absurd h h₈
        · exact h

theorem sysStatus_notifies {sd : SubDev} :
    sysStatus buf ≠ none ↔ Notifies sd eventNxpSysStatus buf := by
  unfold sysStatus
  split_ifs with h₀ h₁
  · simp [Notifies, h₀]
  · simp [Notifies, h₁]
  · simp [Notifies, not_not.mp h₀, not_not.mp h₁]

theorem lockEvent_notifies (h : w.lockEvent env i eid buf = some (w', notice)) :
    notice ≠ none ↔ Notifies (w.subdevs i) eid buf := by
  unfold lockEvent at h
  split_ifs at h with h₃ h₄ h₇
  · subst h₃; exact checkRecord_notifies h
  · subst h₄; exact addDelPassRet_notifies h
  · subst h₇
    cases h
    exact sysStatus_notifies
  · cases h
    refine iff_of_false (by simp) ?_
    rintro (⟨rfl, -⟩ | ⟨rfl, -⟩ | ⟨rfl, -⟩)
    · exact h₃ rfl
    · exact h₄ rfl
    · exact h₇ rfl

end Notices

end World

section Single

open World

theorem devid_single (i : Slot) : ((single firstDevice).subdevs i).devid = 0 := by
  by_cases hi : i = 0
  · subst hi; rfl
  · rw [single, setDev_subdevs, Function.update_of_ne hi]; rfl

theorem sdkSane_single : (single firstDevice).SdkSane .quiet :=
  Or.inr ⟨by decide, rfl, by simp [single, boot, Sdk.init]⟩

end Single

end Afly
