import Afly.Handles.Calls

/-! # The login flags

The gateway remembers in a flag whether it logged a handle in, and logs in only
while the flag is down. The flag follows the SDK in every run in which no handle
is replaced or destroyed under a record whose flag is up.
-/

namespace Afly

open World Reach

/-- The flag of every registered device says whether its handle is logged in. -/
def LoginSynced (w : World) : Prop :=
  ∀ i, (w.subdevs i).use ≠ 0 → (w.subdevs i).devid ≠ 0 →
    ((w.subdevs i).login = 1 ↔ w.sdk.loggedIn (w.subdevs i).devid = true)

/-- The events that replace or destroy no handle under a raised flag. -/
def World.KeepsLogin (w : World) : Env × Op → Prop
  | (env, .nxpUnreg name) => ∀ i, w.productSubSearchByName name = some i →
      (w.subdevs i).devid ≠ 0 → env.destroy = 0 → env.unregister ≠ 0 → (w.subdevs i).login = 0
  | (env, .rptEvent name eid buf) => ∀ i, w.productSubSearchByName name = some i →
      Notifies (w.subdevs i) eid buf → env.Recreates → (w.subdevs i).login = 0
  | _ => True

/-- The name of a device that the event reports online. -/
def Op.online : Op → Option CStr
  | .nxpReg r => if r.online ≠ 0 then some r.name else none
  | .uptOnline s => if s.online ≠ 0 then some s.name else none
  | _ => none

/-- The step calls for a login on the handle. -/
def AttemptsLogin (w w' : World) (devid : ℤ) : Prop :=
  ∃ live, (.login devid, live) ∈ w'.sdk.calls.drop w.sdk.calls.length

/-- Devices have different handles, each handed out, with a flag that is one exactly when it is
logged in, and without a handle the flag is down. -/
structure LoginMap (w : World) : Prop where
  distinct : ∀ i j, (w.subdevs i).use ≠ 0 → (w.subdevs j).use ≠ 0 → (w.subdevs i).devid ≠ 0 →
    (w.subdevs i).devid = (w.subdevs j).devid → i = j
  issued : ∀ i, (w.subdevs i).use ≠ 0 → (w.subdevs i).devid ≠ 0 →
    (w.subdevs i).devid ∈ w.sdk.issued
  synced : ∀ i, (w.subdevs i).use ≠ 0 → (w.subdevs i).devid ≠ 0 →
    (w.subdevs i).login = if w.sdk.loggedIn (w.subdevs i).devid = true then 1 else 0
  loggedOut : ∀ i, (w.subdevs i).use ≠ 0 → (w.subdevs i).devid = 0 → (w.subdevs i).login = 0

/-- A record keeps its handle and flag, or has neither. -/
def SameLogin (sd sd' : SubDev) : Prop :=
  sd'.use ≠ 0 → (sd.use ≠ 0 ∧ sd'.devid = sd.devid ∧ sd'.login = sd.login) ∨
    (sd'.devid = 0 ∧ sd'.login = 0)

section Frames

variable {sd sd' : SubDev} {w w' : World} {i : Slot}

theorem SameHandle.sameLogin (h : SameHandle sd sd') : SameLogin sd sd' :=
  fun hu => Or.inl ⟨by rw [← h.use]; exact hu, h.devid, h.login⟩

theorem Occupies.sameLogin (h : Occupies sd sd') : SameLogin sd sd' := by
  intro hu
  cases h with
  | same => exact Or.inl ⟨hu, rfl, rfl⟩
  | assign key secret he => subst he; exact Or.inl ⟨hu, rfl, rfl⟩
  | fresh _ _ hdevid hlogin => exact Or.inr ⟨hdevid, hlogin⟩

theorem Erases.sameLogin (h : Erases sd sd') : SameLogin sd sd' := by
  intro hu
  rcases h with rfl | rfl
  · exact Or.inl ⟨hu, rfl, rfl⟩
  · exact absurd rfl hu

theorem LoginMap.loginSynced (h : LoginMap w) : LoginSynced w := by
  intro i hu hd
  rw [h.synced i hu hd]
  split
  · rename_i hl; simp [hl]
  · rename_i hl; simp [hl]

theorem LoginMap.login_cases (h : LoginMap w) (hu : (w.subdevs i).use ≠ 0) :
    (w.subdevs i).login = 0 ∨ (w.subdevs i).login = 1 := by
  by_cases hd : (w.subdevs i).devid = 0
  · exact Or.inl (h.loggedOut i hu hd)
  · rw [h.synced i hu hd]
    split
    · exact Or.inr rfl
    · exact Or.inl rfl

theorem LoginMap.devid_ne (h : LoginMap w) (hu : (w.subdevs i).use ≠ 0) {j : Slot} (hj : j ≠ i)
    (hju : (w.subdevs j).use ≠ 0) (hjd : (w.subdevs j).devid ≠ 0) :
    (w.subdevs j).devid ≠ (w.subdevs i).devid :=
  fun he => hj (h.distinct j i hju hu hjd he)

theorem LoginMap.frame (h : LoginMap w) (hdev : ∀ k, SameLogin (w.subdevs k) (w'.subdevs k))
    (hissued : w'.sdk.issued = w.sdk.issued) (hlog : w'.sdk.loggedIn = w.sdk.loggedIn) :
    LoginMap w' := by
  have hkeep (i : Slot) (hu : (w'.subdevs i).use ≠ 0) (hd : (w'.subdevs i).devid ≠ 0) :
      (w.subdevs i).use ≠ 0 ∧ (w'.subdevs i).devid = (w.subdevs i).devid ∧
        (w'.subdevs i).login = (w.subdevs i).login :=
    (hdev i hu).resolve_right fun h => hd h.1
  constructor
  · intro i j hi hj hd he
    obtain ⟨hi', hdi, -⟩ := hkeep i hi hd
    obtain ⟨hj', hdj, -⟩ := hkeep j hj (he ▸ hd)
    exact h.distinct i j hi' hj' (hdi ▸ hd) (hdi.symm.trans (he.trans hdj))
  · intro i hu hd
    obtain ⟨hu', hdi, -⟩ := hkeep i hu hd
    rw [hissued, hdi]
    exact h.issued i hu' (hdi ▸ hd)
  · intro i hu hd
    obtain ⟨hu', hdi, hli⟩ := hkeep i hu hd
    rw [hlog, hdi, hli]
    exact h.synced i hu' (hdi ▸ hd)
  · intro i hu hd
    rcases hdev i hu with ⟨hu', hdi, hli⟩ | ⟨-, hli⟩
    · rw [hli]
      exact h.loggedOut i hu' (hdi.symm.trans hd)
    · exact hli

theorem LoginMap.update (h : LoginMap w) (hsub : w'.subdevs = Function.update w.subdevs i sd)
    (hissued : ∀ devid ∈ w.sdk.issued, devid ∈ w'.sdk.issued)
    (hself : sd.use ≠ 0 → sd.devid ≠ 0 → sd.devid ∈ w'.sdk.issued ∧
      sd.login = if w'.sdk.loggedIn sd.devid = true then 1 else 0)
    (hzero : sd.devid = 0 → sd.login = 0)
    (hother : ∀ j, j ≠ i → (w.subdevs j).use ≠ 0 → (w.subdevs j).devid ≠ 0 →
      (w.subdevs j).devid ≠ sd.devid ∧
        w'.sdk.loggedIn (w.subdevs j).devid = w.sdk.loggedIn (w.subdevs j).devid) :
    LoginMap w' := by
  have hi : w'.subdevs i = sd := by rw [hsub, Function.update_self]
  have hne (j : Slot) (hj : j ≠ i) : w'.subdevs j = w.subdevs j := by
    rw [hsub, Function.update_of_ne hj]
  constructor
  · intro j k hju hku hd he
    by_cases hj : j = i
    · subst hj
      by_contra hk
      rw [hi, hne k (Ne.symm hk)] at he
      rw [hi] at hd
      rw [hne k (Ne.symm hk)] at hku
      exact (hother k (Ne.symm hk) hku (he ▸ hd)).1 he.symm
    · rw [hne j hj] at hju hd he
      by_cases hk : k = i
      · subst hk
        rw [hi] at he
        exact absurd he (hother j hj hju hd).1
      · rw [hne k hk] at hku he
        exact h.distinct j k hju hku hd he
  · intro j hju hd
    by_cases hj : j = i
    · subst hj
      rw [hi] at hju hd ⊢
      exact (hself hju hd).1
    · rw [hne j hj] at hju hd ⊢
      exact hissued _ (h.issued j hju hd)
  · intro j hju hd
    by_cases hj : j = i
    · subst hj
      rw [hi] at hju hd ⊢
      exact (hself hju hd).2
    · rw [hne j hj] at hju hd ⊢
      rw [(hother j hj hju hd).2]
      exact h.synced j hju hd
  · intro j hju hd
    by_cases hj : j = i
    · subst hj
      rw [hi] at hd ⊢
      exact hzero hd
    · rw [hne j hj] at hju hd ⊢
      exact h.loggedOut j hju hd

end Frames

section Steps

variable {env : Env} {w w' : World} {i : Slot} {name : CStr}

theorem login_loggedIn {sdk : Sdk} {devid ret : ℤ} : (sdk.login devid ret).loggedIn =
    if ret = 0 then Function.update sdk.loggedIn devid true else sdk.loggedIn := by
  unfold Sdk.login
  dsimp only
  split <;> rfl

theorem logout_loggedIn {sdk : Sdk} {devid ret : ℤ} : (sdk.logout devid ret).loggedIn =
    if ret = 0 then Function.update sdk.loggedIn devid false else sdk.loggedIn := by
  unfold Sdk.logout
  dsimp only
  split <;> rfl

theorem sdkAfter_synced {sdk : Sdk} {sd : SubDev} {online : ℤ}
    (h : sd.login = if sdk.loggedIn sd.devid = true then 1 else 0) :
    loginAfter env sd online =
      if (sdkAfter env sdk sd online).loggedIn sd.devid = true then 1 else 0 := by
  unfold loginAfter sdkAfter
  by_cases ho : online ≠ 0
  · rw [if_pos ho, if_pos ho]
    by_cases hl : sd.login = 0
    · rw [if_pos hl, if_pos hl, login_loggedIn]
      by_cases hr : env.login = 0
      · simp [hr]
      · rw [if_neg hr, if_neg hr, ← h, hl]
    · rw [if_neg hl, if_neg hl, h]
  · rw [if_neg ho, if_neg ho]
    by_cases hl : sd.login ≠ 0
    · rw [if_pos hl, if_pos hl, logout_loggedIn]
      by_cases hr : env.logout = 0
      · simp [hr]
      · rw [if_neg hr, if_neg hr]
        by_cases hs : sdk.loggedIn sd.devid = true
        · rw [if_pos hs]
        · rw [if_neg hs] at h; exact absurd h hl
    · rw [if_neg hl, if_neg hl, h]

theorem sdkAfter_other {sdk : Sdk} {sd : SubDev} {online devid : ℤ} (hne : devid ≠ sd.devid) :
    (sdkAfter env sdk sd online).loggedIn devid = sdk.loggedIn devid := by
  unfold sdkAfter
  split_ifs
  · rw [login_loggedIn]; split <;> simp [hne]
  · rfl
  · rw [logout_loggedIn]; split <;> simp [hne]
  · rfl

theorem LoginMap.syncLogin (h : LoginMap w) {online : ℤ} (hu : (w.subdevs i).use ≠ 0)
    (hd : (w.subdevs i).devid ≠ 0) : LoginMap (w.syncLogin env i online) := by
  have hcalls := syncLogin_calls env w i online
  refine h.update syncLogin_subdevs (fun devid hm => by rwa [hcalls.issued]) (fun _ _ => ⟨?_, ?_⟩)
    (fun h0 => absurd h0 hd) fun j hj hju hjd => ⟨h.devid_ne hu hj hju hjd, ?_⟩
  · rw [hcalls.issued]
    exact h.issued i hu hd
  · rw [syncLogin_loggedIn]
    exact sdkAfter_synced (h.synced i hu hd)
  · rw [syncLogin_loggedIn]
    exact sdkAfter_other (h.devid_ne hu hj hju hjd)

theorem LoginMap.destroy_erase (h : LoginMap w) {ret : ℤ} (hu : (w.subdevs i).use ≠ 0)
    (hsub : w'.subdevs = Function.update w.subdevs i .zero)
    (hsdk : w'.sdk = w.sdk.destroy (w.subdevs i).devid ret) : LoginMap w' := by
  have hissued : w'.sdk.issued = w.sdk.issued := by rw [hsdk, Sdk.destroy]; split <;> rfl
  refine h.update hsub (fun devid hm => by rwa [hissued]) (fun hz => absurd rfl hz) (fun _ => rfl)
    fun j hj hju hjd => ⟨hjd, ?_⟩
  rw [hsdk, Sdk.destroy]
  split
  · exact Function.update_of_ne (h.devid_ne hu hj hju hjd) _ _
  · rfl

theorem LoginMap.destroy_keep (h : LoginMap w) (hu : (w.subdevs i).use ≠ 0)
    (hd : (w.subdevs i).devid ≠ 0) (hsub : w'.subdevs = w.subdevs)
    (hsdk : w'.sdk = w.sdk.destroy (w.subdevs i).devid 0) (hl : (w.subdevs i).login = 0) :
    LoginMap w' := by
  rw [Sdk.destroy, if_pos rfl] at hsdk
  have hself : w'.subdevs = Function.update w.subdevs i (w.subdevs i) := by
    rw [hsub, Function.update_eq_self]
  refine h.update hself
    (fun devid hm => by rw [hsdk]; exact hm) (fun _ _ => ⟨?_, ?_⟩) (fun _ => hl)
    fun j hj hju hjd => ⟨h.devid_ne hu hj hju hjd, ?_⟩
  · rw [hsdk]
    exact h.issued i hu hd
  · rw [hsdk, hl]
    simp
  · rw [hsdk]
    exact Function.update_of_ne (h.devid_ne hu hj hju hjd) _ _

theorem LoginMap.create (h : LoginMap w) {devid : ℤ} (hf : w.sdk.Fresh devid)
    (hl : (w.subdevs i).login = 0)
    (hsub : w'.subdevs = Function.update w.subdevs i { w.subdevs i with devid := devid })
    (hissued : w'.sdk.issued = devid :: w.sdk.issued)
    (hlog : w'.sdk.loggedIn = Function.update w.sdk.loggedIn devid false) : LoginMap w' := by
  have hne (j : Slot) (hju : (w.subdevs j).use ≠ 0) (hjd : (w.subdevs j).devid ≠ 0) :
      (w.subdevs j).devid ≠ devid :=
    fun he => hf.new (he ▸ h.issued j hju hjd)
  refine h.update hsub (fun d hm => by rw [hissued]; exact List.mem_cons_of_mem _ hm)
    (fun _ _ => ⟨?_, ?_⟩) (fun _ => hl) fun j _ hju hjd => ⟨hne j hju hjd, ?_⟩
  · rw [hissued]
    exact List.mem_cons_self
  · rw [hlog]
    simp [hl]
  · rw [hlog]
    exact Function.update_of_ne (hne j hju hjd) _ _

theorem LoginMap.openHandle (h : LoginMap w) (hsane : w.SdkSane env)
    (hu : (w.subdevs i).use ≠ 0)
    (hc : (w.subdevs i).devid ≠ 0 ∨ 0 ≤ env.register ∧ 0 ≤ env.create) :
    LoginMap (w.openHandle env i).1 ∧ ((w.openHandle env i).1.subdevs i).devid ≠ 0 := by
  obtain ⟨hopen, ⟨hdev, hsdk⟩ | ⟨hd, hf, hsub, hsdk⟩⟩ := openHandle_cases hsane hc
  · exact ⟨h.frame (fun k => (hdev k).sameLogin) (by rw [hsdk]) (by rw [hsdk]), hopen⟩
  · rw [Sdk.create_of_fresh hf] at hsdk
    exact ⟨h.create hf (h.loggedOut i hu hd) hsub (by rw [hsdk]) (by rw [hsdk]), hopen⟩

end Steps

section Reports

variable {env : Env} {w w' : World} {i : Slot} {name : CStr}

theorem LoginMap.of_sameHandle (h : LoginMap w)
    (hdev : ∀ k, SameHandle (w.subdevs k) (w'.subdevs k)) (hsdk : w'.sdk = w.sdk) :
    LoginMap w' :=
  h.frame (fun k => (hdev k).sameLogin) (by rw [hsdk]) (by rw [hsdk])

theorem LoginMap.of_adds (h : LoginMap w) (ha : AddsDevices w w') : LoginMap w' :=
  h.frame (fun k => (ha.subdevs k).sameLogin) (by rw [ha.sdk]) (by rw [ha.sdk])

theorem World.PostsList.loggedIn (h : PostsList w w') :
    w'.sdk.issued = w.sdk.issued ∧ w'.sdk.loggedIn = w.sdk.loggedIn := by
  rcases h with he | ⟨p, he⟩
  · rw [he]; exact ⟨rfl, rfl⟩
  · rw [he]; exact ⟨rfl, rfl⟩

theorem LoginMap.syncLogin_online (h : LoginMap w) {online : ℤ} (ho : online ≠ 0)
    (hu : (w.subdevs i).use ≠ 0) (hd : (w.subdevs i).devid ≠ 0) :
    (w.syncLogin env i online).sdk.loggedIn (w.subdevs i).devid = true ∨
      AttemptsLogin w (w.syncLogin env i online) (w.subdevs i).devid := by
  by_cases hl : (w.subdevs i).login = 0
  · have hcalls : (sdkAfter env w.sdk (w.subdevs i) online).calls = w.sdk.calls ++
        [(.login (w.subdevs i).devid, w.sdk.live (w.subdevs i).devid)] := by
      rw [sdkAfter, if_pos ho, if_pos hl, Sdk.login]
      split <;> rfl
    refine Or.inr ⟨w.sdk.live (w.subdevs i).devid, ?_⟩
    rcases syncLogin_sdk env w i online with he | ⟨p, he⟩
    · rw [he, hcalls, List.drop_left]
      exact List.mem_singleton_self _
    · rw [he, Sdk.post, Sdk.record, hcalls, List.append_assoc, List.drop_left]
      exact List.mem_cons_self
  · refine Or.inl ?_
    rw [syncLogin_loggedIn, sdkAfter, if_pos ho, if_neg hl]
    have hs := h.synced i hu hd
    by_contra hn
    exact hl (by rw [hs, if_neg hn])

theorem openHandle_calls (hc : (w.subdevs i).devid ≠ 0 ∨ 0 ≤ env.register ∧ 0 ≤ env.create) :
    (w.openHandle env i).1.sdk.calls = w.sdk.calls := by
  rw [openHandle_sdk hc]
  split
  · rfl
  · rw [Sdk.create]
    split <;> rfl

theorem syncLogin_search {online : ℤ} {w₁ : World} {k : Slot}
    (hdev : ∀ j, SameDevice (w₁.subdevs j) (w.subdevs j))
    (hi : w₁.productSubSearchByName name = some i)
    (hk : (w.syncLogin env i online).productSubSearchByName name = some k) :
    k = i ∧ ((w.syncLogin env i online).subdevs k).devid = (w.subdevs i).devid := by
  have hsearch : (w.syncLogin env i online).productSubSearchByName name =
      w₁.productSubSearchByName name := by
    refine productSubSearchByName_of_sameDevice fun j => (hdev j).trans ?_
    rw [syncLogin_subdevs]
    exact rel_update .refl ⟨rfl, rfl, rfl, rfl⟩ j
  obtain rfl : k = i := Option.some.inj (hk.symm.trans (hsearch.trans hi))
  exact ⟨rfl, by rw [syncLogin_subdevs, Function.update_self]⟩

/-- What a step guarantees to a device that it reports online. -/
def LogsIn (w w' : World) (name : CStr) : Prop :=
  ∀ i, w'.productSubSearchByName name = some i → (w'.subdevs i).devid ≠ 0 →
    w'.sdk.loggedIn (w'.subdevs i).devid = true ∨ AttemptsLogin w w' (w'.subdevs i).devid

theorem LoginMap.nxpReg (h : LoginMap w) {r : NxpReg} (hsane : w.SdkSane env)
    (hs : w.aflyNxpReg env r = some w') :
    LoginMap w' ∧ (r.online ≠ 0 → LogsIn w w' r.name) := by
  rcases aflyNxpReg_handles hs with ⟨ha, hd⟩ | ⟨w₁, i, w₂, ha, hfound, hc, hdev, hsdk, rfl⟩
  · exact ⟨h.of_adds ha, fun _ i hi hne => absurd (hd i hi) hne⟩
  · have hsane₁ : w₁.SdkSane env := by rwa [SdkSane, ha.sdk]
    have hu := use_of_search hfound
    obtain ⟨hopen, hd⟩ := (h.of_adds ha).openHandle hsane₁ hu hc
    have h₂ := hopen.of_sameHandle hdev hsdk
    have hu₂ : (w₂.subdevs i).use ≠ 0 := by
      rw [(hdev i).use, openHandle_use hc]
      exact hu
    have hd₂ : (w₂.subdevs i).devid ≠ 0 := by
      rw [(hdev i).devid]
      exact hd
    refine ⟨h₂.syncLogin hu₂ hd₂, ?_⟩
    intro ho k hk hkd
    have hsame (j : Slot) : SameDevice (w₁.subdevs j) (w₂.subdevs j) := by
      refine SameDevice.trans ?_ (hdev j).toSameDevice
      rw [openHandle_subdevs hc]
      exact rel_update .refl ⟨rfl, rfl, rfl, rfl⟩ j
    obtain ⟨rfl, hdk⟩ := syncLogin_search hsame hfound hk
    rw [hdk]
    refine (h₂.syncLogin_online ho hu₂ hd₂).imp_right fun ha' => ?_
    rwa [AttemptsLogin, hsdk, openHandle_calls hc, ha.sdk] at ha'

theorem LoginMap.uptOnline (h : LoginMap w) {s : NxpStatus} :
    LoginMap (w.aflyNxpUptOnline env s) ∧
      (s.online ≠ 0 → LogsIn w (w.aflyNxpUptOnline env s) s.name) := by
  rcases aflyNxpUptOnline_cases env w s with
    ⟨he, hno⟩ | ⟨i, w₁, hi, hd, hdev, hsdk, he⟩
  · rw [he]
    exact ⟨h, fun _ k hk hkd => absurd (hno k hk) hkd⟩
  · rw [he]
    have h₁ := h.of_sameHandle hdev hsdk
    have hu₁ : (w₁.subdevs i).use ≠ 0 := by rw [(hdev i).use]; exact use_of_search hi
    have hd₁ : (w₁.subdevs i).devid ≠ 0 := by rw [(hdev i).devid]; exact hd
    refine ⟨h₁.syncLogin hu₁ hd₁, ?_⟩
    intro ho k hk hkd
    obtain ⟨rfl, hdk⟩ := syncLogin_search (fun j => (hdev j).toSameDevice) hi hk
    rw [hdk]
    refine (h₁.syncLogin_online ho hu₁ hd₁).imp_right fun ha => ?_
    rwa [AttemptsLogin, hsdk] at ha

theorem LoginMap.subdevDeleted (h : LoginMap w) {productKey deviceName : Option CStr} :
    LoginMap (w.eventSubdevDeleted env productKey deviceName) := by
  rcases eventSubdevDeleted_cases env w productKey deviceName with
    ⟨-, he⟩ | ⟨name, i, -, -, hi, hsub, hsdk⟩
  · rw [he]; exact h
  · exact h.destroy_erase (use_of_search hi) hsub hsdk

theorem LoginMap.nxpUnreg (h : LoginMap w) :
    (w.KeepsLogin (env, .nxpUnreg name) → LoginMap (w.aflyNxpUnreg env name)) ∧
      (LoginSynced (w.aflyNxpUnreg env name) → w.KeepsLogin (env, .nxpUnreg name)) := by
  rcases aflyNxpUnreg_cases env w name with
    ⟨he, hno⟩ | ⟨i, hi, hd, hr, hsdk, hsub⟩
  · rw [he]
    exact ⟨fun _ => h, fun _ k hk hkd hr => absurd hr (hno k hk hkd)⟩
  · have hu := use_of_search hi
    by_cases hun : env.unregister = 0
    · rw [if_neg (not_not.mpr hun)] at hsub
      exact ⟨fun _ => h.destroy_erase hu hsub hsdk, fun _ _ _ _ _ hne => absurd hun hne⟩
    · rw [if_pos hun] at hsub
      constructor
      · intro hk
        exact h.destroy_keep hu hd hsub hsdk (hk i hi hd hr hun)
      · intro hl k hk _ _ _
        obtain rfl : i = k := Option.some.inj (hi.symm.trans hk)
        apply (h.login_cases hu).resolve_right
        intro h1
        have hlog := (hl i (by rwa [hsub]) (by rwa [hsub])).mp (by rwa [hsub])
        rw [hsub, hsdk, Sdk.destroy, if_pos rfl] at hlog
        dsimp only at hlog
        rw [Function.update_self] at hlog
        cases hlog

theorem LoginMap.triggerEvent (h : LoginMap w) {n : Notice} (hsane : w.SdkSane env)
    (hu : (w.subdevs i).use ≠ 0) :
    ((env.Recreates → (w.subdevs i).login = 0) → LoginMap (w.triggerEvent env i n)) ∧
      (LoginSynced (w.triggerEvent env i n) → env.Recreates → (w.subdevs i).login = 0) := by
  obtain ⟨-, hsdk⟩ := triggerEvent_sdk (i := i) (n := n) hsane
  have hsub := triggerEvent_subdevs env w i n
  by_cases hr : env.Recreates
  · have hf : w.sdk.Fresh env.create := hsane.resolve_left (not_lt.mpr hr.2.2)
    rw [if_pos hr] at hsdk hsub
    constructor
    · intro hl
      exact h.create hf (hl hr) hsub (by rw [hsdk]) (by rw [hsdk])
    · intro hl _
      apply (h.login_cases hu).resolve_right
      intro h1
      -- the new handle is logged out, so a raised flag is out of step
      have hlog := (hl i (by rw [hsub, Function.update_self]; exact hu)
        (by rw [hsub, Function.update_self]; exact hf.pos.ne')).mp
          (by rw [hsub, Function.update_self]; exact h1)
      rw [hsub, Function.update_self, hsdk] at hlog
      dsimp only at hlog
      rw [Function.update_self] at hlog
      cases hlog
  · rw [if_neg hr] at hsdk hsub
    refine ⟨fun _ => h.frame (fun k => ?_) (by rw [hsdk]; rfl) (by rw [hsdk]; rfl),
      fun _ hr' => absurd hr' hr⟩
    rw [hsub]
    exact (SameHandle.refl _).sameLogin

theorem LoginMap.rptEvent (h : LoginMap w) {eid : ℤ} {buf : ℕ → ℤ}
    (hsane : w.SdkSane env) (hs : w.aflyNxpRptEvent env name eid buf = some w') :
    (w.KeepsLogin (env, .rptEvent name eid buf) → LoginMap w') ∧
      (LoginSynced w' → w.KeepsLogin (env, .rptEvent name eid buf)) := by
  rcases aflyNxpRptEvent_cases hs with ⟨hnone, rfl⟩ | ⟨i, w₁, notice, hi, he, rfl⟩
  · exact ⟨fun _ => h, fun _ i hi => absurd (hnone.symm.trans hi) (by simp)⟩
  have ho := lockEvent_outcome he
  have hnotify := lockEvent_notifies he
  have h₁ : LoginMap w₁ :=
    h.frame (fun k => (ho.sameHandle k).sameLogin) ho.calls.1.issued ho.calls.2
  cases notice with
  | none =>
    refine ⟨fun _ => h₁, ?_⟩
    intro _ k hk hn
    obtain rfl : i = k := Option.some.inj (hi.symm.trans hk)
    exact absurd rfl (hnotify.mpr hn)
  | some n =>
    have hu : (w₁.subdevs i).use ≠ 0 := by rw [(ho.sameHandle i).use]; exact use_of_search hi
    obtain ⟨hkeep, hbreak⟩ := h₁.triggerEvent (n := n) (hsane.congr ho.calls.1) hu
    rw [(ho.sameHandle i).login] at hkeep hbreak
    constructor
    · intro hk
      exact hkeep (hk i hi (hnotify.mp (by simp)))
    · intro hl k hk _
      obtain rfl : i = k := Option.some.inj (hi.symm.trans hk)
      exact hbreak hl

end Reports

section Runs

variable {w w₀ w' : World} {e : Env × Op}

/-- A step keeps the flags in step exactly when it replaces or destroys no handle under a raised
flag. -/
theorem LoginMap.step (h : LoginMap w) (hop : e.2.OnHandles) (hsane : w.SdkSane e.1)
    (hs : w.step e = some w') :
    (w.KeepsLogin e → LoginMap w') ∧ (LoginSynced w' → w.KeepsLogin e) := by
  obtain ⟨env, op⟩ := e
  cases op with
  | addSubDev =>
    obtain ⟨⟨w₁, ret⟩, h₁, rfl⟩ := Option.map_eq_some_iff.mp hs
    obtain ⟨hocc, hpost⟩ := gatewayAddSubdev_spec h₁
    exact ⟨fun _ => h.frame (fun k => (hocc k).sameLogin) hpost.loggedIn.1 hpost.loggedIn.2,
      fun _ => trivial⟩
  | delSubDev =>
    obtain ⟨⟨w₁, ret⟩, h₁, rfl⟩ := Option.map_eq_some_iff.mp hs
    obtain ⟨hdel, hpost⟩ := gatewayDelSubdev_spec h₁
    exact ⟨fun _ => h.frame (fun k => (hdel k).sameLogin) hpost.loggedIn.1 hpost.loggedIn.2,
      fun _ => trivial⟩
  | clrSubDev =>
    obtain rfl := Option.some.inj hs
    obtain ⟨hsub, hpost⟩ := gatewayClrSubdev_spec env w
    refine ⟨fun _ => h.frame (fun k => ?_) hpost.loggedIn.1 hpost.loggedIn.2, fun _ => trivial⟩
    rw [hsub]
    exact fun hu => absurd rfl hu
  | subdevDeleted =>
    obtain rfl := Option.some.inj hs
    exact ⟨fun _ => h.subdevDeleted, fun _ => trivial⟩
  | xdel =>
    obtain rfl := Option.some.inj hs
    exact ⟨fun _ => h.frame (fun k => (doCmdXdel_subdevs k).sameLogin) (by rw [doCmdXdel_sdk])
      (by rw [doCmdXdel_sdk]), fun _ => trivial⟩
  | nxpReg => exact ⟨fun _ => (h.nxpReg hsane hs).1, fun _ => trivial⟩
  | nxpUnreg =>
    obtain rfl := Option.some.inj hs
    exact h.nxpUnreg
  | uptOnline =>
    obtain rfl := Option.some.inj hs
    exact ⟨fun _ => h.uptOnline.1, fun _ => trivial⟩
  | rptEvent => exact h.rptEvent hsane hs
  | _ => exact hop.elim

theorem LoginMap.online (h : LoginMap w) {name : CStr} (ho : e.2.online = some name)
    (hsane : w.SdkSane e.1) (hs : w.step e = some w') : LogsIn w w' name := by
  obtain ⟨env, op⟩ := e
  cases op with
  | nxpReg r =>
    dsimp only [Op.online] at ho
    split_ifs at ho with hon
    cases ho
    exact (h.nxpReg hsane hs).2 hon
  | uptOnline s =>
    dsimp only [Op.online] at ho
    split_ifs at ho with hon
    cases ho
    obtain rfl := Option.some.inj hs
    exact h.uptOnline.2 hon
  | _ => cases ho

theorem loginMap_start (h₀ : ∀ i, (w.subdevs i).use ≠ 0 →
    (w.subdevs i).devid = 0 ∧ (w.subdevs i).login = 0) : LoginMap w := by
  constructor
  · intro i _ hu _ hd _
    exact absurd (h₀ i hu).1 hd
  · intro i hu hd
    exact absurd (h₀ i hu).1 hd
  · intro i hu hd
    exact absurd (h₀ i hu).1 hd
  · intro i hu _
    exact (h₀ i hu).2

/-- In every run that replaces and destroys no handle under a raised flag, the flags say which
devices are logged in and an online report leaves none logged out without a login call; any other
event puts a flag out of step at once. -/
theorem login_flags (h₀ : ∀ i, (w₀.subdevs i).use ≠ 0 →
      (w₀.subdevs i).devid = 0 ∧ (w₀.subdevs i).login = 0)
    (hr : Reachable step (fun w e => e.2.OnHandles ∧ w.SdkSane e.1 ∧ w.KeepsLogin e) w₀ w) :
    LoginSynced w ∧ ∀ e w', e.2.OnHandles → w.SdkSane e.1 → w.step e = some w' →
      (LoginSynced w' ↔ w.KeepsLogin e) ∧
        ∀ name, e.2.online = some name → LogsIn w w' name := by
  have h : LoginMap w := hr.invariant (loginMap_start h₀) fun _ _ _ hI hok hs =>
    (hI.step hok.1 hok.2.1 hs).1 hok.2.2
  refine ⟨h.loginSynced, ?_⟩
  intro e w' hop hsane hs
  obtain ⟨hkeep, hbreak⟩ := h.step hop hsane hs
  constructor
  · exact ⟨hbreak, fun hk => (hkeep hk).loginSynced⟩
  · intro name ho
    exact h.online ho hsane hs

end Runs

theorem login_single (i : Slot) : ((single firstDevice).subdevs i).login = 0 := by
  by_cases hi : i = 0
  · subst hi; rfl
  · rw [single, setDev_subdevs, Function.update_of_ne hi]; rfl

/-- A first registration logs the device in and raises its flag. -/
theorem login_flags_registered : ∃ w, (single firstDevice).step (.quiet, .nxpReg newLock) =
    some w ∧ (w.subdevs 0).login = 1 ∧ LoginSynced w := by
  obtain ⟨w, hw, hl⟩ : ∃ w, (single firstDevice).step (.quiet, .nxpReg newLock) = some w ∧
      (w.subdevs 0).login = 1 := Option.map_eq_some_iff.mp (by decide +kernel)
  exact ⟨w, hw, hl, (login_flags (fun i _ => ⟨devid_single i, login_single i⟩)
    (.next (e := (.quiet, .nxpReg newLock)) .start ⟨trivial, sdkSane_single, trivial⟩ hw)).1⟩

/-- A status alarm that the cloud answers with -520, and the surroundings of its recovery. -/
def recreateOp : Env × Op :=
  ({ Env.quiet with trigger := -520, create := 2 },
    .rptEvent newLock.name eventNxpSysStatus (fun _ => 1))

/-- The recovery from -520 leaves the flag of the old handle up on the new one. -/
theorem recreate_keeps_flag :
    ¬ ∀ w₀ w : World, (∀ i, (w₀.subdevs i).use ≠ 0 →
        (w₀.subdevs i).devid = 0 ∧ (w₀.subdevs i).login = 0) →
      Reachable step (fun w e => e.2.OnHandles ∧ w.SdkSane e.1) w₀ w → LoginSynced w := by
  intro h
  obtain ⟨w₁, h₁, ho⟩ : ∃ w₁, (single firstDevice).step (.quiet, .nxpReg newLock) = some w₁ ∧
      (w₁.sdk.live 2, decide (2 ∈ w₁.sdk.issued), (w₁.step recreateOp).map fun w =>
        decide ((w.subdevs 0).use ≠ 0 ∧ (w.subdevs 0).devid = 2 ∧ (w.subdevs 0).login = 1 ∧
          w.sdk.loggedIn 2 = false)) = (false, false, some true) :=
    Option.map_eq_some_iff.mp (by decide +kernel)
  simp only [Prod.mk.injEq, decide_eq_false_iff_not] at ho
  obtain ⟨hdead, hnew, ho⟩ := ho
  obtain ⟨w, hw, ho⟩ := Option.map_eq_some_iff.mp ho
  obtain ⟨hu, hd, hl, hlog⟩ := of_decide_eq_true ho
  have hsane : w₁.SdkSane recreateOp.1 :=
    Or.inr ⟨by decide, Option.isNone_iff_eq_none.mp (Option.isSome_eq_false_iff.mp hdead), hnew⟩
  have hsync := h (single firstDevice) w (fun i _ => ⟨devid_single i, login_single i⟩)
    (.next (e := recreateOp) (.next (e := (.quiet, .nxpReg newLock)) .start
      ⟨trivial, sdkSane_single⟩ h₁) ⟨trivial, hsane⟩ hw)
  have hin := (hsync 0 hu (by rw [hd]; decide)).mp hl
  rw [hd, hlog] at hin
  cases hin

end Afly
