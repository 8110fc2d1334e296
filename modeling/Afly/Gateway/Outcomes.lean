import Afly.Gateway.Reports
import Afly.Gateway.Tables

/-! # The outcomes of reports

What a registration, an online report and the removal of a device leave behind,
said once for every handler: the record they write and what they do at the SDK.
The invariants of the gateway are derived from these statements and do not
unfold the handlers again.
-/

namespace Afly

structure SameDevice (sd sd' : SubDev) : Prop where
  use : sd'.use = sd.use
  productKey : sd'.productKey = sd.productKey
  deviceName : sd'.deviceName = sd.deviceName
  deviceSecret : sd'.deviceSecret = sd.deviceSecret

theorem SameDevice.refl (sd : SubDev) : SameDevice sd sd := ⟨rfl, rfl, rfl, rfl⟩

theorem SameDevice.trans {a b c : SubDev} (h : SameDevice a b) (h' : SameDevice b c) :
    SameDevice a c :=
  ⟨h'.use.trans h.use, h'.productKey.trans h.productKey, h'.deviceName.trans h.deviceName,
    h'.deviceSecret.trans h.deviceSecret⟩

structure SameHandle (sd sd' : SubDev) : Prop extends SameDevice sd sd' where
  devid : sd'.devid = sd.devid
  login : sd'.login = sd.login

theorem SameHandle.refl (sd : SubDev) : SameHandle sd sd := ⟨.refl sd, rfl, rfl⟩

theorem SameHandle.trans {a b c : SubDev} (h : SameHandle a b) (h' : SameHandle b c) :
    SameHandle a c :=
  ⟨h.toSameDevice.trans h'.toSameDevice, h'.devid.trans h.devid, h'.login.trans h.login⟩

theorem rel_update {R : SubDev → SubDev → Prop} (hrefl : ∀ sd, R sd sd) {f : Slot → SubDev}
    {j : Slot} {sd : SubDev} (h : R (f j) sd) (i : Slot) : R (f i) (Function.update f j sd i) := by
  by_cases hij : i = j
  · subst hij; rwa [Function.update_self]
  · rw [Function.update_of_ne hij]; exact hrefl _

/-- The strings of a registration that end before the key table. -/
structure NxpReg.Bounded (r : NxpReg) : Prop where
  type : r.type.length < 172
  version : r.version.length < 140
  model : r.model.length < 108

namespace SubDev

variable {sd sd' : SubDev} {r : NxpReg}

theorem report_eq (h : sd.report r = some sd') : SameDevice sd sd' ∧ sd'.devid = sd.devid ∧
    sd'.login = sd.login ∧ sd'.online = r.online ∧ sd'.task = sd.task := by
  unfold report at h
  obtain ⟨sd₁, h₁, h⟩ := Option.bind_eq_some_iff.mp h
  obtain ⟨sd₂, h₂, h⟩ := Option.bind_eq_some_iff.mp h
  obtain ⟨sd₃, h₃, h⟩ := Option.bind_eq_some_iff.mp h
  cases h
  have ht := ((spill_spillsTo h₁).trans ((spill_spillsTo h₂).trans (spill_spillsTo h₃))).eq
  rw [ht]
  exact ⟨⟨rfl, rfl, rfl, rfl⟩, rfl, rfl, rfl, rfl⟩

theorem report_slot {adx : Fin 4} {j : Fin 128} (htype : r.type.length < 172 + 56 * (128 * adx + j))
    (hversion : r.version.length < 140 + 56 * (128 * adx + j))
    (hmodel : r.model.length < 108 + 56 * (128 * adx + j)) (h : sd.report r = some sd') :
    sd'.lock.keys adx j = sd.lock.keys adx j := by
  unfold report at h
  obtain ⟨sd₁, h₁, h⟩ := Option.bind_eq_some_iff.mp h
  obtain ⟨sd₂, h₂, h⟩ := Option.bind_eq_some_iff.mp h
  obtain ⟨sd₃, h₃, h⟩ := Option.bind_eq_some_iff.mp h
  cases h
  have hlen (room : ℕ) (s : CStr) (hs : s.length < room + 44 + 56 * (128 * adx + j)) :
      (overrun room s).length ≤ 44 + 56 * (128 * adx + j) :=
    (length_overrun room s).trans (by omega)
  calc sd₃.lock.keys adx j = sd₂.lock.keys adx j := spill_slot h₃ (hlen _ _ hmodel)
    _ = sd₁.lock.keys adx j := spill_slot h₂ (hlen _ _ hversion)
    _ = sd.lock.keys adx j := spill_slot h₁ (hlen _ _ htype)

theorem report_keys (hr : r.Bounded) (h : sd.report r = some sd') :
    sd'.lock.keys = sd.lock.keys := by
  funext adx j
  exact report_slot (hr.type.trans_le (by omega)) (hr.version.trans_le (by omega))
    (hr.model.trans_le (by omega)) h

end SubDev

/-- The key table of a bank whose live slots are erased. -/
def eraseBank (keys : Fin 4 → KeyBank) (adx : Fin 4) : Fin 4 → KeyBank :=
  Function.update keys adx fun j =>
    if (keys adx j).keyState = keyStateNone then keys adx j else .zero

namespace SubDev

variable {type : ℤ}

/-- The record after the rounds for the slots `l` of `product_sub_lock_clr_key`. -/
def clearSlots (sd : SubDev) (type : ℤ) (l : List (Fin 128)) : SubDev :=
  sd.setKeys (Function.update sd.lock.keys (productSubConvetType2idx type) fun j =>
    if j ∈ l ∧ (sd.bank type j).keyState ≠ keyStateNone then .zero else sd.bank type j)

theorem clearSlots_nil (sd : SubDev) : sd.clearSlots type [] = sd := by
  simp [clearSlots, SubDev.bank, SubDev.setKeys]

theorem clearSlots_cons (sd : SubDev) (j : Fin 128) (l : List (Fin 128)) :
    (if (sd.bank type j).keyState = keyStateNone then sd
      else sd.setBankKey type j .zero).clearSlots type l = sd.clearSlots type (j :: l) := by
  split_ifs with hj
  · unfold clearSlots
    congr 2
    funext k
    by_cases hk : k = j
    · subst hk; simp [hj]
    · simp [hk]
  · unfold clearSlots
    rw [setBankKey_bank, setBankKey_eq_setKeys, setKeys_keys, setKeys_setKeys, Function.update_idem]
    congr 2
    funext k
    by_cases hk : k = j
    · subst hk; simp [hj]
    · simp [hk]

end SubDev

namespace World

variable {env : Env} {w w' : World} {i : Slot}

section Clear

variable {type : ℤ}

theorem clrKeyRound_subdevs (j : Fin 128) : (clrKeyRound env i type w j).subdevs =
    Function.update w.subdevs i (if ((w.subdevs i).bank type j).keyState = keyStateNone then
      w.subdevs i else (w.subdevs i).setBankKey type j .zero) := by
  unfold clrKeyRound
  dsimp only
  split_ifs <;> simp

theorem clrKeyRound_sdk (j : Fin 128) : (clrKeyRound env i type w j).sdk = w.sdk := by
  unfold clrKeyRound
  dsimp only
  split_ifs <;> simp

theorem clrKeyRounds_subdevs (l : List (Fin 128)) :
    (l.foldl (clrKeyRound env i type) w).subdevs =
      Function.update w.subdevs i ((w.subdevs i).clearSlots type l) := by
  induction l generalizing w with
  | nil => simp [SubDev.clearSlots_nil]
  | cons j l ih =>
    rw [List.foldl_cons, ih, clrKeyRound_subdevs, Function.update_idem, Function.update_self,
      SubDev.clearSlots_cons]

theorem clrKeyRounds_sdk (l : List (Fin 128)) :
    (l.foldl (clrKeyRound env i type) w).sdk = w.sdk := by
  induction l generalizing w with
  | nil => rfl
  | cons j l ih => rw [List.foldl_cons, ih, clrKeyRound_sdk]

theorem productSubLockClrKey_subdevs : (w.productSubLockClrKey env i type).1.subdevs =
    Function.update w.subdevs i ((w.subdevs i).setKeys
      (eraseBank (w.subdevs i).lock.keys (productSubConvetType2idx type))) := by
  rw [productSubLockClrKey, clrKeyRounds_subdevs]
  unfold SubDev.clearSlots eraseBank
  congr 3
  funext j
  by_cases hj : ((w.subdevs i).bank type j).keyState = keyStateNone
  · rw [if_neg fun h => h.2 hj]; exact (if_pos hj).symm
  · rw [if_pos ⟨List.mem_finRange j, hj⟩]; exact (if_neg hj).symm

theorem productSubLockClrKey_sdk : (w.productSubLockClrKey env i type).1.sdk = w.sdk :=
  clrKeyRounds_sdk _

end Clear

section Login

variable {online : ℤ}

/-- The login flag after an online report. -/
def loginAfter (env : Env) (sd : SubDev) (online : ℤ) : ℤ :=
  if online ≠ 0 then if sd.login = 0 then if env.login = 0 then 1 else 0 else sd.login
  else if sd.login ≠ 0 then if env.logout = 0 then 0 else 1 else sd.login

/-- The SDK after the login or logout of an online report. -/
def sdkAfter (env : Env) (sdk : Sdk) (sd : SubDev) (online : ℤ) : Sdk :=
  if online ≠ 0 then if sd.login = 0 then sdk.login sd.devid env.login else sdk
  else if sd.login ≠ 0 then sdk.logout sd.devid env.logout else sdk

@[simp] theorem reportAllStatus_subdevs : (w.reportAllStatus i).subdevs = w.subdevs := rfl

theorem syncLogin_subdevs : (w.syncLogin env i online).subdevs = Function.update w.subdevs i
    { w.subdevs i with login := loginAfter env (w.subdevs i) online } := by
  unfold syncLogin loginAfter
  dsimp only
  split_ifs <;> simp

@[simp] theorem syncLogin_sent : (w.syncLogin env i online).sent = w.sent := by
  unfold syncLogin
  dsimp only
  split_ifs <;> rfl

variable (env w i online) in
theorem syncLogin_sdk : (w.syncLogin env i online).sdk =
      sdkAfter env w.sdk (w.subdevs i) online ∨
    ∃ property, (w.syncLogin env i online).sdk =
      (sdkAfter env w.sdk (w.subdevs i) online).post (w.subdevs i).devid property := by
  unfold syncLogin sdkAfter
  dsimp only
  split_ifs <;> first | exact Or.inl rfl | exact Or.inr ⟨_, by simp [reportAllStatus]; rfl⟩

end Login

section Register

variable {r : NxpReg}

theorem createHandle_subdevs : (w.createHandle env i).subdevs =
    if env.create < 0 then w.subdevs
    else Function.update w.subdevs i { w.subdevs i with devid := env.create } := by
  unfold createHandle
  split <;> rfl

theorem createHandle_sdk : (w.createHandle env i).sdk =
    if env.create < 0 then w.sdk else w.sdk.create i env.create := by
  unfold createHandle
  split <;> rfl

theorem registerRecord_spec {found : Option Slot} (h : w.registerRecord env r = some (w', found)) :
    AddsDevices w w' ∧ w'.productSubSearchByName r.name = found := by
  unfold registerRecord at h
  split at h
  · cases h
    exact ⟨⟨fun _ => .same, rfl⟩, by assumption⟩
  · rename_i hnone
    split at h
    · cases h
      exact ⟨⟨fun _ => .same, rfl⟩, hnone⟩
    · obtain ⟨⟨w₁, ret⟩, h₁, he⟩ := Option.map_eq_some_iff.mp h
      cases he
      exact ⟨⟨productSubAdd_occupies h₁, productSubAdd_sdk h₁⟩, rfl⟩

theorem registerRecord_registered {found : Option Slot}
    (hi : w.productSubSearchByName r.name = some i)
    (h : w.registerRecord env r = some (w', found)) : w' = w ∧ found = some i := by
  unfold registerRecord at h
  rw [hi] at h
  cases h
  exact ⟨rfl, rfl⟩

theorem storeReport_spec (h : w.storeReport env i r = some w') :
    ∃ sd, (w.subdevs i).report r = some sd ∧ w'.sdk = w.sdk ∧
      w'.subdevs = Function.update w.subdevs i
        (if sd.dynamic = 0 then { sd with seed := int32 (env.time 0), interval := 30 * 60 }
         else sd) ∧
      w'.sent =
        if sd.dynamic = 0 then w.sent ++ [dynamicCommand env sd.deviceName] else w.sent := by
  obtain ⟨sd, hsd, rfl⟩ := Option.map_eq_some_iff.mp h
  refine ⟨sd, hsd, ?_, ?_, ?_⟩
  · dsimp only; split <;> simp
  · dsimp only; split <;> simp
  · dsimp only; split <;> simp

theorem aflyNxpReg_cases (h : w.aflyNxpReg env r = some w') :
    (∃ found, w.registerRecord env r = some (w', found) ∧
      ∀ i, found = some i → (w'.subdevs i).devid = 0) ∨
    ∃ w₁ i w₂, w.registerRecord env r = some (w₁, some i) ∧
      ((w₁.subdevs i).devid ≠ 0 ∨ 0 ≤ env.register ∧ 0 ≤ env.create) ∧
      (w₁.openHandle env i).1.storeReport env i r = some w₂ ∧
      w' = w₂.syncLogin env i r.online := by
  unfold aflyNxpReg at h
  obtain ⟨⟨w₁, found⟩, h₁, h⟩ := Option.bind_eq_some_iff.mp h
  cases found with
  | none => cases h; exact Or.inl ⟨none, h₁, fun _ hi => by cases hi⟩
  | some i =>
    dsimp only at h
    by_cases hready : (w₁.openHandle env i).2 = true
    · rw [if_pos hready] at h
      obtain ⟨w₂, h₂, rfl⟩ := Option.map_eq_some_iff.mp h
      refine Or.inr ⟨w₁, i, w₂, h₁, ?_, h₂, rfl⟩
      unfold openHandle at hready
      split_ifs at hready with hd hr
      · exact Or.inl hd
      · exact Or.inr ⟨not_lt.mp hr, of_decide_eq_true hready⟩
    · rw [if_neg hready] at h
      cases h
      -- without a handle `openHandle` has left the state as it was
      have hw : (w₁.openHandle env i).1 = w₁ := by
        unfold openHandle at hready ⊢
        split_ifs at hready ⊢
        · exact absurd rfl hready
        · rfl
        · have hc : env.create < 0 := by simpa using hready
          simp [createHandle, hc]
      have hd : (w₁.subdevs i).devid = 0 := by
        by_contra hd
        exact hready (by rw [openHandle, if_pos hd])
      rw [hw]
      exact Or.inl ⟨some i, h₁, fun _ hi => Option.some.inj hi ▸ hd⟩

@[simp] theorem createHandle_sent : (w.createHandle env i).sent = w.sent := by
  unfold createHandle; split <;> rfl

@[simp] theorem openHandle_sent : (w.openHandle env i).1.sent = w.sent := by
  unfold openHandle
  split_ifs
  · rfl
  · rfl
  · exact createHandle_sent

theorem openHandle_subdevs (hc : (w.subdevs i).devid ≠ 0 ∨ 0 ≤ env.register ∧ 0 ≤ env.create) :
    (w.openHandle env i).1.subdevs = Function.update w.subdevs i { w.subdevs i with
      devid := if (w.subdevs i).devid ≠ 0 then (w.subdevs i).devid else env.create } := by
  unfold openHandle
  split_ifs with hd hr
  · simp
  · omega
  · have hcr : ¬ env.create < 0 := by omega
    simp [createHandle_subdevs, hcr]

theorem openHandle_sdk (hc : (w.subdevs i).devid ≠ 0 ∨ 0 ≤ env.register ∧ 0 ≤ env.create) :
    (w.openHandle env i).1.sdk =
      if (w.subdevs i).devid ≠ 0 then w.sdk else w.sdk.create i env.create := by
  unfold openHandle
  split_ifs with hd hr
  · rfl
  · omega
  · have hcr : ¬ env.create < 0 := by omega
    simp [createHandle_sdk, hcr]

end Register

section Devices

variable {name : CStr}

theorem productSubSearchByName_of_sameDevice
    (h : ∀ k, SameDevice (w.subdevs k) (w'.subdevs k)) :
    w'.productSubSearchByName name = w.productSubSearchByName name :=
  productSubSearchByName_congr (fun k => (h k).use) fun k => (h k).deviceName

theorem productSubSearchByName_subdevs (h : w'.subdevs = w.subdevs) :
    w'.productSubSearchByName name = w.productSubSearchByName name :=
  productSubSearchByName_congr (fun k => by rw [h]) fun k => by rw [h]

theorem productSubDel_of_search {r : SaveResult} (h : w.productSubSearchByName name = some i)
    (hw : w'.subdevs = w.subdevs) :
    (w'.productSubDel r (w.subdevs i).deviceName).1.subdevs =
      Function.update w.subdevs i .zero := by
  rw [productSubDel_subdevs, name_of_search h, productSubSearchByName_subdevs hw, h, hw]

variable (env w) in
theorem eventSubdevDeleted_cases (productKey deviceName : Option CStr) :
    ((∀ name i, productKey ≠ none → deviceName = some name →
        w.productSubSearchByName name ≠ some i) ∧
      w.eventSubdevDeleted env productKey deviceName = w) ∨
    ∃ name i, productKey ≠ none ∧ deviceName = some name ∧
      w.productSubSearchByName name = some i ∧
      (w.eventSubdevDeleted env productKey deviceName).subdevs =
        Function.update w.subdevs i .zero ∧
      (w.eventSubdevDeleted env productKey deviceName).sdk =
        w.sdk.destroy (w.subdevs i).devid env.destroy := by
  unfold eventSubdevDeleted
  split
  · rename_i key name
    cases hi : w.productSubSearchByName name with
    | none =>
      refine Or.inl ⟨?_, rfl⟩
      intro name' i _ he hs
      cases he
      exact absurd (hi.symm.trans hs) (by simp)
    | some i =>
      refine Or.inr ⟨name, i, by simp, rfl, hi, ?_, ?_⟩
      · exact productSubDel_of_search hi rfl
      · dsimp only
        rw [productSubDel_sdk]
        rfl
  · rename_i hno
    refine Or.inl ⟨?_, rfl⟩
    intro name i hk hn _
    obtain ⟨key, rfl⟩ := Option.ne_none_iff_exists'.mp hk
    exact hno key name rfl hn

variable (env w name) in
theorem aflyNxpUnreg_cases :
    (w.aflyNxpUnreg env name = w ∧
      ∀ i, w.productSubSearchByName name = some i → (w.subdevs i).devid ≠ 0 → env.destroy ≠ 0) ∨
    ∃ i, w.productSubSearchByName name = some i ∧ (w.subdevs i).devid ≠ 0 ∧ env.destroy = 0 ∧
      (w.aflyNxpUnreg env name).sdk = w.sdk.destroy (w.subdevs i).devid 0 ∧
      (w.aflyNxpUnreg env name).subdevs =
        if env.unregister ≠ 0 then w.subdevs else Function.update w.subdevs i .zero := by
  unfold aflyNxpUnreg
  cases hi : w.productSubSearchByName name with
  | none => exact Or.inl ⟨rfl, fun _ h => by cases h⟩
  | some i =>
    dsimp only
    by_cases hd : (w.subdevs i).devid = 0
    · refine Or.inl ⟨if_pos hd, ?_⟩
      intro k hk hne
      cases hk
      exact absurd hd hne
    by_cases hr : env.destroy = 0
    · refine Or.inr ⟨i, rfl, hd, hr, ?_⟩
      rw [if_neg hd, if_neg (not_not.mpr hr), hr]
      by_cases hu : env.unregister = 0
      · rw [if_neg (not_not.mpr hu), if_neg (not_not.mpr hu), productSubDel_sdk]
        exact ⟨rfl, productSubDel_of_search hi (setSdk_subdevs w _)⟩
      · rw [if_pos hu, if_pos hu]
        exact ⟨rfl, rfl⟩
    · refine Or.inl ⟨?_, fun _ _ _ => hr⟩
      rw [if_neg hd, if_pos hr, Sdk.destroy, if_neg hr]
      rfl

theorem eventSubdevDeleted_erases {productKey deviceName : Option CStr} (k : Slot) :
    Erases (w.subdevs k) ((w.eventSubdevDeleted env productKey deviceName).subdevs k) := by
  rcases eventSubdevDeleted_cases env w productKey deviceName with
    ⟨-, he⟩ | ⟨name, i, -, -, -, hsub, -⟩
  · rw [he]; exact .refl _
  · rw [hsub]; exact rel_update .refl (Or.inr rfl) k

theorem aflyNxpUnreg_erases (k : Slot) :
    Erases (w.subdevs k) ((w.aflyNxpUnreg env name).subdevs k) := by
  rcases aflyNxpUnreg_cases env w name with ⟨he, -⟩ | ⟨i, -, -, -, -, hsub⟩
  · rw [he]; exact .refl _
  · rw [hsub]
    split
    · exact .refl _
    · exact rel_update .refl (Or.inr rfl) k

theorem storeStatus_sameHandle {s : NxpStatus} (k : Slot) :
    SameHandle (w.subdevs k) ((w.storeStatus i s).subdevs k) := by
  rw [storeStatus, setDev_subdevs]
  exact rel_update .refl ⟨⟨rfl, rfl, rfl, rfl⟩, rfl, rfl⟩ k

theorem storeReport_sameHandle {r : NxpReg} (h : w.storeReport env i r = some w') :
    (∀ k, SameHandle (w.subdevs k) (w'.subdevs k)) ∧ w'.sdk = w.sdk := by
  obtain ⟨sd, hsd, hsdk, hsub, -⟩ := storeReport_spec h
  obtain ⟨hdevice, hdevid, hlogin, -⟩ := SubDev.report_eq hsd
  refine ⟨?_, hsdk⟩
  intro k
  rw [hsub]
  refine rel_update .refl ?_ k
  split
  · exact ⟨⟨hdevice.use, hdevice.productKey, hdevice.deviceName, hdevice.deviceSecret⟩,
      hdevid, hlogin⟩
  · exact ⟨hdevice, hdevid, hlogin⟩

theorem aflyNxpReg_handles {r : NxpReg} (h : w.aflyNxpReg env r = some w') :
    (AddsDevices w w' ∧
      ∀ i, w'.productSubSearchByName r.name = some i → (w'.subdevs i).devid = 0) ∨
    ∃ (w₁ : World) (i : Slot) (w₂ : World), AddsDevices w w₁ ∧
      w₁.productSubSearchByName r.name = some i ∧
      ((w₁.subdevs i).devid ≠ 0 ∨ 0 ≤ env.register ∧ 0 ≤ env.create) ∧
      (∀ k, SameHandle ((w₁.openHandle env i).1.subdevs k) (w₂.subdevs k)) ∧
      w₂.sdk = (w₁.openHandle env i).1.sdk ∧ w' = w₂.syncLogin env i r.online := by
  rcases aflyNxpReg_cases h with ⟨found, h₁, hd⟩ | ⟨w₁, i, w₂, h₁, hc, h₂, rfl⟩
  · obtain ⟨ha, hfound⟩ := registerRecord_spec h₁
    exact Or.inl ⟨ha, fun i hi => hd i (hfound.symm.trans hi)⟩
  · obtain ⟨ha, hfound⟩ := registerRecord_spec h₁
    obtain ⟨hdev, hsdk⟩ := storeReport_sameHandle h₂
    exact Or.inr ⟨w₁, i, w₂, ha, hfound, hc, hdev, hsdk, rfl⟩

theorem openHandle_use (hc : (w.subdevs i).devid ≠ 0 ∨ 0 ≤ env.register ∧ 0 ≤ env.create) :
    ((w.openHandle env i).1.subdevs i).use = (w.subdevs i).use := by
  rw [openHandle_subdevs hc, Function.update_self]

variable (env w) in
theorem aflyNxpUptOnline_cases (s : NxpStatus) :
    (w.aflyNxpUptOnline env s = w ∧
      ∀ i, w.productSubSearchByName s.name = some i → (w.subdevs i).devid = 0) ∨
    ∃ (i : Slot) (w₁ : World), w.productSubSearchByName s.name = some i ∧
      (w.subdevs i).devid ≠ 0 ∧ (∀ k, SameHandle (w.subdevs k) (w₁.subdevs k)) ∧ w₁.sdk = w.sdk ∧
      w.aflyNxpUptOnline env s = w₁.syncLogin env i s.online := by
  unfold aflyNxpUptOnline
  cases hi : w.productSubSearchByName s.name with
  | none => exact Or.inl ⟨rfl, fun _ h => by cases h⟩
  | some i =>
    dsimp only
    split_ifs with hd
    · refine Or.inl ⟨rfl, ?_⟩
      intro k hk
      cases hk
      exact hd
    · refine Or.inr ⟨i, _, rfl, hd, ?_, ?_, rfl⟩
      · intro k
        rw [productSubSave_subdevs]
        exact storeStatus_sameHandle k
      · rw [productSubSave_sdk]
        rfl

end Devices

section Tasks

variable {env : Env} {w w' : World} {k : ℕ} {task : Task}

theorem gwInfoFunc_cases (h : w.gwInfoFunc env k = some w') : ∃ sdk,
    (w.setSdk sdk).schedule env k .gwInfoTask
      (if env.productInit < 0 then 1000 else 20 * 60 * 1000) .gwInfoFunc none = some w' := by
  unfold gwInfoFunc at h
  dsimp only at h
  split at h
  · exact ⟨_, h⟩
  · exact ⟨w.sdk, h⟩

theorem runTask_cases (h : w.runTask env k task = some w') :
    (task.func = some .gwInfoFunc ∧ w.gwInfoFunc env k = some w') ∨
    ∃ i, task.func = some .subdevTimeoutFunc ∧ task.arg = some i ∧ w' = w.postLockState i 0 := by
  unfold runTask at h
  split at h
  · cases h
  · rename_i hf
    exact Or.inl ⟨hf, h⟩
  · rename_i hf
    obtain ⟨i, harg, rfl⟩ := Option.map_eq_some_iff.mp h
    exact Or.inr ⟨i, hf, harg, rfl⟩

theorem runFirstTask_cases (h : w.runFirstTask env = some w') : ∃ q w₁,
    w.sched.schedueFirstTaskToExec fuel env.long = some (some q) ∧
      w.schedueDel q = some w₁ ∧ w₁.runTask env 1 (w₁.sched.heap q) = some w' := by
  unfold runFirstTask at h
  obtain ⟨first, hfirst, h₁⟩ := Option.bind_eq_some_iff.mp h
  obtain ⟨q, rfl, h₂⟩ := Option.bind_eq_some_iff.mp h₁
  obtain ⟨w₁, hdel, hrun⟩ := Option.bind_eq_some_iff.mp h₂
  exact ⟨q, w₁, hfirst, hdel, hrun⟩

theorem aflyHandlerTaskRun_cases (h : w.aflyHandlerTaskRun env = some w') : ∃ delt,
    w.schedueFirstTaskDelay env 0 = some delt ∧
    ((delt < 0 ∧ w' = w) ∨ ∃ w₁ delt', 0 ≤ delt ∧
      (delt = 0 ∧ w.runFirstTask env = some w₁ ∨ delt ≠ 0 ∧ w₁ = w) ∧
      w₁.schedueFirstTaskDelay env 4 = some delt' ∧
      w' = if delt' < 0 then w₁ else w₁.timerSet env 5 delt') := by
  unfold aflyHandlerTaskRun at h
  obtain ⟨delt, hdelt, h⟩ := Option.bind_eq_some_iff.mp h
  refine ⟨delt, hdelt, ?_⟩
  split at h
  · rename_i hneg
    cases h
    exact Or.inl ⟨hneg, rfl⟩
  · rename_i hneg
    obtain ⟨w₁, h₁, h⟩ := Option.bind_eq_some_iff.mp h
    obtain ⟨delt', hdelt', rfl⟩ := Option.map_eq_some_iff.mp h
    refine Or.inr ⟨w₁, delt', not_lt.mp hneg, ?_, hdelt', rfl⟩
    split at h₁
    · rename_i h₀
      exact Or.inl ⟨h₀, h₁⟩
    · rename_i h₀
      exact Or.inr ⟨h₀, (Option.some.inj h₁).symm⟩

theorem aflyHandlerTaskRun_induct {I : World → Prop}
    (hsched : ∀ w w', TasksOnly w w' → I w → I w')
    (hsdk : ∀ w sdk, I w → I (w.setSdk sdk))
    (hreset : ∀ w i, I w → I (w.postLockState i 0))
    (h : w.aflyHandlerTaskRun env = some w') (hw : I w) : I w' := by
  obtain ⟨delt, -, ⟨-, rfl⟩ | ⟨w₁, delt', -, hrun, -, rfl⟩⟩ := aflyHandlerTaskRun_cases h
  · exact hw
  have h₁ : I w₁ := by
    rcases hrun with ⟨-, hfirst⟩ | ⟨-, rfl⟩
    · obtain ⟨q, w₂, -, hdel, htask⟩ := runFirstTask_cases hfirst
      have h₂ := hsched w w₂ (tasksOnly_schedueDel hdel) hw
      rcases runTask_cases htask with ⟨-, hinfo⟩ | ⟨i, -, -, rfl⟩
      · obtain ⟨sdk, hs⟩ := gwInfoFunc_cases hinfo
        exact hsched _ _ (tasksOnly_schedule hs) (hsdk w₂ sdk h₂)
      · exact hreset w₂ i h₂
    · exact hw
  split
  · exact h₁
  · exact hsched _ _ ⟨fun _ => rfl, rfl, rfl, rfl⟩ h₁

theorem aflyHandlerTaskRun_sent (h : w.aflyHandlerTaskRun env = some w') : w'.sent = w.sent :=
  aflyHandlerTaskRun_induct (I := fun w' => w'.sent = w.sent) (fun _ _ ht hw => ht.sent.trans hw)
    (fun _ _ hw => hw) (fun _ _ hw => hw) h rfl

end Tasks

end World

end Afly
