import Afly.Handles.Calls
import Afly.Lib.Mirror

/-! # The handles of the devices

The record table and the SDK keep two copies of one mapping from devices to
handles. They agree in every run without a few events that change one side
alone: a removal that does not destroy the handle, a destroyed handle whose
record stays, and an event that overwrites a handle or is reported without one.
-/

namespace Afly

open World Reach Mirror

def SubDev.handle (sd : SubDev) : Option ℤ :=
  if sd.use ≠ 0 ∧ sd.devid ≠ 0 then some sd.devid else none

def World.handles (w : World) (i : Slot) : Option ℤ := (w.subdevs i).handle

/-- Records and live handles determine each other, and every call was on a live handle. -/
structure HandleMap (w : World) : Prop where
  bound : ∀ i, (w.subdevs i).use ≠ 0 → (w.subdevs i).devid ≠ 0 →
    w.sdk.bound (w.subdevs i).devid = some i
  distinct : ∀ i j, (w.subdevs i).use ≠ 0 → (w.subdevs j).use ≠ 0 → (w.subdevs i).devid ≠ 0 →
    (w.subdevs i).devid = (w.subdevs j).devid → i = j
  owned : ∀ devid, w.sdk.live devid = true →
    devid ≠ 0 ∧ ∃! i, (w.subdevs i).use ≠ 0 ∧ (w.subdevs i).devid = devid
  calls : ∀ c ∈ w.sdk.calls, c.2 = true

/-- The name in an element of a `DelSubDev` list that is deleted here. -/
def removedName (jv : Json) : Option CStr :=
  match jsonGetString jv "deviceName", jsonGetString jv "deviceSecret",
      jsonGetString jv "productKey" with
  | some name, some _, some _ => some name
  | _, _, _ => none

def removedNames (env : Env) (input : CStr) : List CStr :=
  match requestList env input with
  | .error _ => []
  | .ok l => l.filterMap removedName

/-- No name in turn finds a record with a handle. -/
def World.RemovesUnregistered : World → List CStr → Prop
  | _, [] => True
  | w, name :: names =>
    (∀ i, w.productSubSearchByName name = some i → (w.subdevs i).devid = 0) ∧
      (w.productSubDel ⟨0, false⟩ name).1.RemovesUnregistered names

/-- The events that change both sides of the mapping, or none. -/
def World.KeepsHandles (w : World) : Env × Op → Prop
  | (env, .delSubDev input) => w.RemovesUnregistered (removedNames env input)
  | (_, .clrSubDev) => ∀ i, (w.subdevs i).use ≠ 0 → (w.subdevs i).devid = 0
  | (_, .xdel mac) => w.RemovesUnregistered [mac]
  | (env, .subdevDeleted productKey deviceName) => ∀ name i, productKey ≠ none →
      deviceName = some name → w.productSubSearchByName name = some i →
        (w.subdevs i).devid ≠ 0 → env.destroy = 0
  | (env, .nxpUnreg name) => ∀ i, w.productSubSearchByName name = some i →
      (w.subdevs i).devid ≠ 0 → env.destroy = 0 → env.unregister = 0
  | (env, .rptEvent name eid buf) => ∀ i, w.productSubSearchByName name = some i →
      Notifies (w.subdevs i) eid buf → (w.subdevs i).devid ≠ 0 ∧ ¬ env.Recreates
  | _ => True

section Handles

variable {sd sd' : SubDev} {w w' : World} {i : Slot} {devid : ℤ}

theorem handle_eq_some_iff :
    sd.handle = some devid ↔ sd.use ≠ 0 ∧ sd.devid = devid ∧ devid ≠ 0 := by
  unfold SubDev.handle
  split_ifs with h
  · constructor
    · intro he
      cases he
      exact ⟨h.1, rfl, h.2⟩
    · rintro ⟨-, hd, -⟩
      exact congrArg some hd
  · apply iff_of_false (by simp)
    rintro ⟨hu, rfl, hd⟩
    exact h ⟨hu, hd⟩

theorem handle_eq_none_iff : sd.handle = none ↔ (sd.use ≠ 0 → sd.devid = 0) := by
  unfold SubDev.handle
  split_ifs with h
  · apply iff_of_false (by simp)
    intro he
    exact h.2 (he h.1)
  · apply iff_of_true rfl
    intro hu
    by_contra hd
    exact h ⟨hu, hd⟩

@[simp] theorem handle_zero : SubDev.zero.handle = none := rfl

theorem handle_congr (huse : sd'.use = sd.use) (hdevid : sd'.devid = sd.devid) :
    sd'.handle = sd.handle := by
  rw [SubDev.handle, huse, hdevid, SubDev.handle]

theorem handle_setDevid (hu : sd.use ≠ 0) (hd : devid ≠ 0) :
    ({ sd with devid := devid } : SubDev).handle = some devid :=
  handle_eq_some_iff.mpr ⟨hu, rfl, hd⟩

theorem SameHandle.handle (h : SameHandle sd sd') : sd'.handle = sd.handle :=
  handle_congr h.use h.devid

theorem Occupies.handle (h : Occupies sd sd') : sd'.handle = sd.handle := by
  cases h with
  | same => rfl
  | assign key secret he => rw [he]; rfl
  | fresh hfree _ hdevid =>
    rw [handle_eq_none_iff.mpr fun _ => hdevid, handle_eq_none_iff.mpr fun h => absurd hfree h]

theorem handles_eq_of_sameHandle (h : ∀ k, SameHandle (w.subdevs k) (w'.subdevs k)) :
    w'.handles = w.handles := funext fun k => (h k).handle

theorem handles_update (h : w'.subdevs = Function.update w.subdevs i sd) :
    w'.handles = Function.update w.handles i sd.handle := by
  funext k
  by_cases hk : k = i
  · subst hk; simp [handles, h]
  · simp [handles, h, hk]

theorem handles_erase_iff (hu : (w.subdevs i).use ≠ 0)
    (h : w'.subdevs = Function.update w.subdevs i .zero) :
    w'.handles = w.handles ↔ (w.subdevs i).devid = 0 := by
  rw [handles_update h, Function.update_eq_self_iff, handle_zero, eq_comm]
  exact handle_eq_none_iff.trans ⟨fun he => he hu, fun he _ => he⟩

theorem handleMap_iff :
    HandleMap w ↔ Mirrors w.handles w.sdk.bound ∧ ∀ c ∈ w.sdk.calls, c.2 = true := by
  constructor
  · intro h
    refine ⟨fun i devid => ?_, h.calls⟩
    constructor
    · intro hi
      obtain ⟨hu, rfl, hd⟩ := handle_eq_some_iff.mp hi
      exact h.bound i hu hd
    · intro hb
      obtain ⟨hd, j, ⟨hu, rfl⟩, -⟩ := h.owned devid (by rw [Sdk.live, hb]; rfl)
      obtain rfl : j = i := Option.some.inj ((h.bound j hu hd).symm.trans hb)
      exact handle_eq_some_iff.mpr ⟨hu, rfl, hd⟩
  · rintro ⟨m, hcalls⟩
    have hbound (i : Slot) (hu : (w.subdevs i).use ≠ 0) (hd : (w.subdevs i).devid ≠ 0) :
        w.sdk.bound (w.subdevs i).devid = some i :=
      (m i _).mp (handle_eq_some_iff.mpr ⟨hu, rfl, hd⟩)
    refine ⟨hbound, fun i j hi hj hd he => ?_, fun devid hl => ?_, hcalls⟩
    · exact m.owner_inj (handle_eq_some_iff.mpr ⟨hi, rfl, hd⟩)
        (handle_eq_some_iff.mpr ⟨hj, he.symm, hd⟩)
    · obtain ⟨i, hi⟩ := Option.isSome_iff_exists.mp hl
      obtain ⟨hu, hd, h0⟩ := handle_eq_some_iff.mp ((m i devid).mpr hi)
      refine ⟨h0, i, ⟨hu, hd⟩, fun j hj => ?_⟩
      exact m.owner_inj (handle_eq_some_iff.mpr ⟨hj.1, hj.2, h0⟩)
        (handle_eq_some_iff.mpr ⟨hu, hd, h0⟩)

theorem HandleMap.mirrors (h : HandleMap w) : Mirrors w.handles w.sdk.bound :=
  (handleMap_iff.mp h).1

theorem HandleMap.live (h : HandleMap w) (hu : (w.subdevs i).use ≠ 0)
    (hd : (w.subdevs i).devid ≠ 0) : w.sdk.live (w.subdevs i).devid = true := by
  rw [Sdk.live, h.bound i hu hd]
  rfl

theorem HandleMap.bound_zero (h : HandleMap w) : w.sdk.bound 0 = none := by
  by_contra hb
  exact (h.owned 0 (Option.isSome_iff_ne_none.mpr hb)).1 rfl

theorem calls_true {sdk sdk' : Sdk} (h : Sdk.Calls true sdk sdk')
    (hall : ∀ c ∈ sdk.calls, c.2 = true) : ∀ c ∈ sdk'.calls, c.2 = true := by
  obtain ⟨l, hl, hlive⟩ := h.calls
  intro c hc
  rw [hl] at hc
  exact (List.mem_append.mp hc).elim (hall c) (hlive c)

theorem HandleMap.frame_iff (h : HandleMap w) (hs : Sdk.Calls true w.sdk w'.sdk) :
    HandleMap w' ↔ w'.handles = w.handles := by
  rw [handleMap_iff, hs.bound]
  constructor
  · rintro ⟨m, -⟩
    exact h.mirrors.owner_eq m
  · intro he
    rw [he]
    exact ⟨h.mirrors, calls_true hs h.calls⟩

theorem HandleMap.destroy_erase (h : HandleMap w) (hu : (w.subdevs i).use ≠ 0)
    (hsub : w'.subdevs = Function.update w.subdevs i .zero)
    (hsdk : w'.sdk = w.sdk.destroy (w.subdevs i).devid 0) : HandleMap w' := by
  rw [handleMap_iff, hsdk, handles_update hsub, Sdk.destroy, if_pos rfl]
  refine ⟨?_, h.calls⟩
  by_cases hd : (w.subdevs i).devid = 0
  · have hnone : w.handles i = none := handle_eq_none_iff.mpr fun _ => hd
    dsimp only
    rw [hd, handle_zero, ← hnone, Function.update_eq_self, ← h.bound_zero, Function.update_eq_self]
    exact h.mirrors
  · exact h.mirrors.release (handle_eq_some_iff.mpr ⟨hu, rfl, hd⟩)

end Handles

section Removals

variable {env : Env} {w w' : World} {i : Slot} {name : CStr}

theorem World.PostsList.calls (h : PostsList w w') : Sdk.Calls true w.sdk w'.sdk := by
  rcases h with he | ⟨p, he⟩
  · rw [he]; exact .refl _
  · rw [he]; exact Sdk.calls_onGateway _

theorem productSubDel_congr {r r' : SaveResult} (h : w'.subdevs = w.subdevs) :
    (w'.productSubDel r' name).1.subdevs = (w.productSubDel r name).1.subdevs := by
  rw [productSubDel_subdevs, productSubDel_subdevs, productSubSearchByName_subdevs h, h]

theorem removesUnregistered_congr {names : List CStr} (h : w'.subdevs = w.subdevs) :
    w'.RemovesUnregistered names ↔ w.RemovesUnregistered names := by
  induction names generalizing w w' with
  | nil => exact Iff.rfl
  | cons name names ih =>
    rw [RemovesUnregistered, RemovesUnregistered, productSubSearchByName_subdevs h, h]
    exact and_congr_right fun _ => ih (productSubDel_congr h)

variable (w name) in
theorem productSubDel_handles_iff (r : SaveResult) :
    (w.productSubDel r name).1.handles = w.handles ↔
      ∀ i, w.productSubSearchByName name = some i → (w.subdevs i).devid = 0 := by
  cases hi : w.productSubSearchByName name with
  | none =>
    have hsub : (w.productSubDel r name).1.subdevs = w.subdevs := by
      rw [productSubDel_subdevs, hi]
    exact iff_of_true (funext fun k => by rw [handles, hsub]; rfl) fun _ h => by cases h
  | some i =>
    have hsub : (w.productSubDel r name).1.subdevs = Function.update w.subdevs i .zero := by
      rw [productSubDel_subdevs, hi]
    rw [handles_erase_iff (use_of_search hi) hsub]
    constructor
    · rintro hd _ ⟨⟩
      exact hd
    · intro h
      exact h i rfl

theorem delSubdev_removedName {k : ℕ} {jv : Json} {flag : Bool}
    (h : delSubdev env k w jv = some (w', flag)) :
    w'.subdevs = ((removedName jv).elim w fun name =>
      (w.productSubDel ⟨0, false⟩ name).1).subdevs := by
  unfold delSubdev at h
  split at h
  · rename_i name h₁ h₂ h₃
    cases h
    rw [removedName, h₁, h₂, h₃]
    rfl
  · rename_i name secret key h₁ h₂ h₃
    rw [removedName, h₁, h₂, h₃]
    dsimp only [Option.elim]
    cases hi : w.productSubSearchByName name with
    | none =>
      rw [hi] at h
      cases h
      rw [productSubDel_subdevs, hi]
    | some i =>
      rw [hi] at h
      cases h
      exact productSubDel_congr rfl
  · rename_i hno
    cases h
    have hnone : removedName jv = none := by
      unfold removedName
      split
      · rename_i name secret key h₁ h₂ h₃
        exact (hno name secret key h₁ h₂ h₃).elim
      · rfl
    rw [hnone]
    rfl

theorem delSubdevs_handles_iff {k : ℕ} {l : List Json} {flag : Bool}
    (h : eachSubdev (delSubdev env) k l w = some (w', flag)) :
    w'.handles = w.handles ↔ w.RemovesUnregistered (l.filterMap removedName) := by
  induction l generalizing k w flag with
  | nil => cases h; exact iff_of_true rfl trivial
  | cons jv l ih =>
    rw [eachSubdev] at h
    obtain ⟨⟨w₁, f₁⟩, h₁, h⟩ := Option.bind_eq_some_iff.mp h
    obtain ⟨⟨w₂, f₂⟩, h₂, h⟩ := Option.bind_eq_some_iff.mp h
    cases h
    have hsub := delSubdev_removedName h₁
    have hrest : RemovesDevices w₁ w' :=
      eachSubdev_induct .refl (fun h h' => h.trans h') delSubdev_removes h₂
    rw [List.filterMap_cons]
    cases hn : removedName jv with
    | none =>
      rw [hn] at hsub
      have hsame : w₁.handles = w.handles := funext fun i => by rw [handles, hsub]; rfl
      rw [← hsame, ih h₂]
      exact removesUnregistered_congr hsub
    | some name =>
      rw [hn] at hsub
      dsimp only [Option.elim] at hsub
      have hdel : w₁.handles = (w.productSubDel ⟨0, false⟩ name).1.handles :=
        funext fun i => by rw [handles, hsub]; rfl
      have hiff := productSubDel_handles_iff w name ⟨0, false⟩
      dsimp only
      rw [RemovesUnregistered, ← hiff, ← hdel, ← removesUnregistered_congr hsub, ← ih h₂]
      constructor
      · -- a record that lost its handle at this name stays erased to the end of the list
        intro he
        have hsame : w₁.handles = w.handles := by
          funext i
          have hi := congrFun he i
          rcases hrest.subdevs i with h₀ | h₀
          · rwa [handles, h₀] at hi
          · rw [handles, h₀, handle_zero] at hi
            have h₁ := (delSubdev_removes h₁).subdevs i
            rcases h₁ with h₁ | h₁
            · rw [handles, h₁]; rfl
            · rw [handles, h₁, handle_zero, hi]
        exact ⟨hsame, he.trans hsame.symm⟩
      · rintro ⟨hsame, he⟩
        exact he.trans hsame

theorem gatewayDelSubdev_handles_iff {input : CStr} {ret : ℤ}
    (h : w.gatewayDelSubdev env input = some (w', ret)) :
    w'.handles = w.handles ↔ w.RemovesUnregistered (removedNames env input) := by
  unfold gatewayDelSubdev at h
  unfold removedNames
  cases hl : requestList env input with
  | error ret => rw [hl] at h; cases h; exact iff_of_true rfl trivial
  | ok l =>
    rw [hl] at h
    obtain ⟨⟨w₁, flag⟩, h₁, he⟩ := Option.map_eq_some_iff.mp h
    cases he
    rw [← delSubdevs_handles_iff h₁]
    cases flag <;> exact Iff.rfl

theorem doCmdXdel_handles_iff {mac : CStr} :
    (w.doCmdXdel env mac).handles = w.handles ↔ w.RemovesUnregistered [mac] := by
  have hsub : (w.doCmdXdel env mac).subdevs = (w.productSubDel ⟨0, false⟩ mac).1.subdevs := by
    unfold doCmdXdel
    cases hi : w.productSubSearchByName mac with
    | none => rw [productSubDel_subdevs, hi]
    | some i =>
      dsimp only
      rw [name_of_search hi]
      exact productSubDel_congr (send_subdevs w _)
  have hdel : (w.doCmdXdel env mac).handles = (w.productSubDel ⟨0, false⟩ mac).1.handles :=
    funext fun i => by rw [handles, hsub]; rfl
  rw [hdel, productSubDel_handles_iff, RemovesUnregistered, RemovesUnregistered, and_true]

theorem HandleMap.subdevDeleted_iff (h : HandleMap w) {productKey deviceName : Option CStr} :
    HandleMap (w.eventSubdevDeleted env productKey deviceName) ↔
      w.KeepsHandles (env, .subdevDeleted productKey deviceName) := by
  rcases eventSubdevDeleted_cases env w productKey deviceName with
    ⟨hno, he⟩ | ⟨name, i, hk, hn, hi, hsub, hsdk⟩
  · rw [he]
    exact iff_of_true h fun name i hk hn hi => absurd hi (hno name i hk hn)
  · have hcond : w.KeepsHandles (env, .subdevDeleted productKey deviceName) ↔
        ((w.subdevs i).devid ≠ 0 → env.destroy = 0) := by
      constructor
      · intro hc
        exact hc name i hk hn hi
      · intro hc name' i' _ hn' hi'
        cases hn.symm.trans hn'
        cases hi.symm.trans hi'
        exact hc
    rw [hcond]
    by_cases hr : env.destroy = 0
    · rw [hr] at hsdk
      exact iff_of_true (h.destroy_erase (use_of_search hi) hsub hsdk) fun _ => hr
    · rw [Sdk.destroy, if_neg hr] at hsdk
      rw [h.frame_iff (by rw [hsdk]; exact .refl _), handles_erase_iff (use_of_search hi) hsub]
      constructor
      · intro hd hne
        exact absurd hd hne
      · intro hc
        by_contra hd
        exact hr (hc hd)

theorem HandleMap.nxpUnreg_iff (h : HandleMap w) :
    HandleMap (w.aflyNxpUnreg env name) ↔ w.KeepsHandles (env, .nxpUnreg name) := by
  rcases aflyNxpUnreg_cases env w name with
    ⟨he, hno⟩ | ⟨i, hi, hd, hr, hsdk, hsub⟩
  · rw [he]
    exact iff_of_true h fun i hi hd hr => absurd hr (hno i hi hd)
  · have hcond : w.KeepsHandles (env, .nxpUnreg name) ↔ env.unregister = 0 := by
      constructor
      · intro hc
        exact hc i hi hd hr
      · intro hu _ _ _ _
        exact hu
    rw [hcond]
    by_cases hu : env.unregister = 0
    · rw [if_neg (not_not.mpr hu)] at hsub
      exact iff_of_true (h.destroy_erase (use_of_search hi) hsub hsdk) hu
    · rw [if_pos hu] at hsub
      apply iff_of_false _ hu
      intro h'
      -- the record still has the handle, so it must still be bound
      have hb := h'.bound i (by rw [hsub]; exact use_of_search hi) (by rw [hsub]; exact hd)
      rw [hsub, hsdk, Sdk.destroy, if_pos rfl] at hb
      dsimp only at hb
      rw [Function.update_self] at hb
      cases hb

end Removals

section Reports

variable {env : Env} {w w' : World} {i : Slot} {name : CStr}

theorem HandleMap.of_adds (h : HandleMap w) (ha : AddsDevices w w') : HandleMap w' :=
  (h.frame_iff (by rw [ha.sdk]; exact .refl _)).mpr (funext fun i => (ha.subdevs i).handle)

theorem HandleMap.of_sameHandle (h : HandleMap w)
    (hdev : ∀ k, SameHandle (w.subdevs k) (w'.subdevs k)) (hsdk : w'.sdk = w.sdk) :
    HandleMap w' :=
  (h.frame_iff (by rw [hsdk]; exact .refl _)).mpr (handles_eq_of_sameHandle hdev)

theorem HandleMap.openHandle (h : HandleMap w) (hsane : w.SdkSane env)
    (hu : (w.subdevs i).use ≠ 0)
    (hc : (w.subdevs i).devid ≠ 0 ∨ 0 ≤ env.register ∧ 0 ≤ env.create) :
    HandleMap (w.openHandle env i).1 ∧ ((w.openHandle env i).1.subdevs i).devid ≠ 0 := by
  obtain ⟨hopen, ⟨hdev, hsdk⟩ | ⟨hd, hf, hsub, hsdk⟩⟩ := openHandle_cases hsane hc
  · exact ⟨h.of_sameHandle hdev hsdk, hopen⟩
  · rw [Sdk.create_of_fresh hf] at hsdk
    refine ⟨handleMap_iff.mpr ?_, hopen⟩
    rw [handles_update hsub, hsdk, handle_setDevid hu hf.pos.ne']
    exact ⟨h.mirrors.assign (handle_eq_none_iff.mpr fun _ => hd) hf.dead, h.calls⟩

theorem HandleMap.syncLogin (h : HandleMap w) {online : ℤ} (hu : (w.subdevs i).use ≠ 0)
    (hd : (w.subdevs i).devid ≠ 0) : HandleMap (w.syncLogin env i online) := by
  have hcalls := syncLogin_calls env w i online
  rw [h.live hu hd] at hcalls
  refine (h.frame_iff hcalls).mpr ?_
  rw [handles_update (syncLogin_subdevs), Function.update_eq_self_iff]
  exact handle_congr rfl rfl

theorem HandleMap.nxpReg (h : HandleMap w) {r : NxpReg} (hsane : w.SdkSane env)
    (hs : w.aflyNxpReg env r = some w') : HandleMap w' := by
  rcases aflyNxpReg_handles hs with ⟨ha, -⟩ | ⟨w₁, i, w₂, ha, hfound, hc, hdev, hsdk, rfl⟩
  · exact h.of_adds ha
  · have hsane₁ : w₁.SdkSane env := by rwa [SdkSane, ha.sdk]
    have hu := use_of_search hfound
    obtain ⟨hopen, hd⟩ := (h.of_adds ha).openHandle hsane₁ hu hc
    refine (hopen.of_sameHandle hdev hsdk).syncLogin ?_ ?_
    · rw [(hdev i).use, openHandle_use hc]
      exact hu
    · rw [(hdev i).devid]
      exact hd

theorem HandleMap.uptOnline (h : HandleMap w) {s : NxpStatus} :
    HandleMap (w.aflyNxpUptOnline env s) := by
  rcases aflyNxpUptOnline_cases env w s with
    ⟨he, -⟩ | ⟨i, w₁, hi, hd, hdev, hsdk, he⟩
  · rw [he]; exact h
  · rw [he]
    refine (h.of_sameHandle hdev hsdk).syncLogin ?_ ?_
    · rw [(hdev i).use]; exact use_of_search hi
    · rw [(hdev i).devid]; exact hd

theorem not_handleMap_of_dead {n : Notice} (hb : w.sdk.bound (w.subdevs i).devid = none) :
    ¬ HandleMap (w.triggerEvent env i n) := by
  intro h
  have hc := h.calls (.trigger (w.subdevs i).devid n, w.sdk.live (w.subdevs i).devid)
    (by rw [triggerEvent_calls]; exact List.mem_append_right _ (List.mem_singleton_self _))
  dsimp only at hc
  rw [Sdk.live, hb] at hc
  cases hc

theorem HandleMap.triggerEvent_iff {n : Notice} (h : HandleMap w) (hsane : w.SdkSane env)
    (hu : (w.subdevs i).use ≠ 0) (hd : (w.subdevs i).devid ≠ 0) :
    HandleMap (w.triggerEvent env i n) ↔ ¬ env.Recreates := by
  obtain ⟨hcalls, hsdk⟩ := triggerEvent_sdk (i := i) (n := n) hsane
  have hsub := triggerEvent_subdevs env w i n
  rw [h.live hu hd] at hcalls
  by_cases hr : env.Recreates
  · apply iff_of_false _ (not_not.mpr hr)
    intro h'
    have hf : w.sdk.Fresh env.create := hsane.resolve_left (not_lt.mpr hr.2.2)
    have hm := h'.mirrors
    rw [if_pos hr] at hsdk hsub
    rw [handles_update hsub, hsdk, handle_setDevid hu hf.pos.ne'] at hm
    exact h.mirrors.not_replace (handle_eq_some_iff.mpr ⟨hu, rfl, hd⟩) hf.dead hm
  · rw [if_neg hr] at hsdk hsub
    refine iff_of_true ((h.frame_iff (by rwa [hsdk])).mpr ?_) hr
    exact funext fun k => by rw [handles, hsub]; rfl

theorem HandleMap.rptEvent_iff (h : HandleMap w) {eid : ℤ} {buf : ℕ → ℤ}
    (hsane : w.SdkSane env) (hs : w.aflyNxpRptEvent env name eid buf = some w') :
    HandleMap w' ↔ w.KeepsHandles (env, .rptEvent name eid buf) := by
  rcases aflyNxpRptEvent_cases hs with ⟨hnone, rfl⟩ | ⟨i, w₁, notice, hi, he, rfl⟩
  · exact iff_of_true h fun i hi => absurd (hnone.symm.trans hi) (by simp)
  have ho := lockEvent_outcome he
  have hnotify := lockEvent_notifies he
  have hcond : w.KeepsHandles (env, .rptEvent name eid buf) ↔
      (Notifies (w.subdevs i) eid buf → (w.subdevs i).devid ≠ 0 ∧ ¬ env.Recreates) := by
    constructor
    · intro hc
      exact hc i hi
    · intro hc i' hi'
      cases hi.symm.trans hi'
      exact hc
  rw [hcond]
  cases notice with
  | none =>
    apply iff_of_true (h.of_sameHandle ho.sameHandle (ho.sdk_of_none rfl))
    intro hn
    exact absurd rfl (hnotify.mpr hn)
  | some n =>
    have hn : Notifies (w.subdevs i) eid buf := hnotify.mp (by simp)
    have hdevid := (ho.sameHandle i).devid
    have hu := use_of_search hi
    dsimp only [Option.elim]
    by_cases hd : (w.subdevs i).devid = 0
    · refine iff_of_false (not_handleMap_of_dead ?_) fun hc => (hc hn).1 hd
      rw [hdevid, hd, ho.calls.1.bound]
      exact h.bound_zero
    · have hcalls := ho.calls.1
      rw [h.live hu hd] at hcalls
      have h₁ : HandleMap w₁ := (h.frame_iff hcalls).mpr (handles_eq_of_sameHandle ho.sameHandle)
      rw [h₁.triggerEvent_iff (hsane.congr hcalls) (by rw [(ho.sameHandle i).use]; exact hu)
        (by rw [hdevid]; exact hd)]
      constructor
      · intro hc _
        exact ⟨hd, hc⟩
      · intro hc
        exact (hc hn).2

end Reports

section Runs

variable {w w₀ w' : World} {e : Env × Op}

/-- A step from a state with a correct mapping keeps it exactly when it changes both sides. -/
theorem HandleMap.step_iff (h : HandleMap w) (hop : e.2.OnHandles) (hsane : w.SdkSane e.1)
    (hs : w.step e = some w') : HandleMap w' ↔ w.KeepsHandles e := by
  obtain ⟨env, op⟩ := e
  cases op with
  | addSubDev =>
    obtain ⟨⟨w₁, ret⟩, h₁, rfl⟩ := Option.map_eq_some_iff.mp hs
    obtain ⟨hocc, hpost⟩ := gatewayAddSubdev_spec h₁
    exact iff_of_true ((h.frame_iff hpost.calls).mpr (funext fun i => (hocc i).handle)) trivial
  | delSubDev =>
    obtain ⟨⟨w₁, ret⟩, h₁, rfl⟩ := Option.map_eq_some_iff.mp hs
    exact (h.frame_iff (gatewayDelSubdev_spec h₁).2.calls).trans (gatewayDelSubdev_handles_iff h₁)
  | clrSubDev =>
    obtain rfl := Option.some.inj hs
    obtain ⟨hsub, hpost⟩ := gatewayClrSubdev_spec env w
    rw [h.frame_iff hpost.calls]
    constructor
    · intro he i
      have hi := congrFun he i
      rw [handles, hsub, handle_zero] at hi
      exact handle_eq_none_iff.mp hi.symm
    · intro hc
      funext i
      rw [handles, hsub, handle_zero]
      exact (handle_eq_none_iff.mpr (hc i)).symm
  | subdevDeleted =>
    obtain rfl := Option.some.inj hs
    exact h.subdevDeleted_iff
  | xdel =>
    obtain rfl := Option.some.inj hs
    exact (h.frame_iff (by rw [doCmdXdel_sdk]; exact .refl _)).trans doCmdXdel_handles_iff
  | nxpReg => exact iff_of_true (h.nxpReg hsane hs) trivial
  | nxpUnreg =>
    obtain rfl := Option.some.inj hs
    exact h.nxpUnreg_iff
  | uptOnline =>
    obtain rfl := Option.some.inj hs
    exact iff_of_true h.uptOnline trivial
  | rptEvent => exact h.rptEvent_iff hsane hs
  | _ => exact hop.elim

/-- In every run of events that change both sides of the mapping or none, records and live handles
determine each other and every call is on a live handle; any other event breaks this at once. -/
theorem handles_mapped (h₀ : HandleMap w₀)
    (hr : Reachable step (fun w e => e.2.OnHandles ∧ w.SdkSane e.1 ∧ w.KeepsHandles e) w₀ w) :
    HandleMap w ∧ ∀ e w', e.2.OnHandles → w.SdkSane e.1 → w.step e = some w' →
      (HandleMap w' ↔ w.KeepsHandles e) := by
  have h : HandleMap w := hr.invariant h₀ fun _ _ _ hI hok hs =>
    (hI.step_iff hok.1 hok.2.1 hs).mpr hok.2.2
  exact ⟨h, fun _ _ hop hsane hs => h.step_iff hop hsane hs⟩

end Runs

theorem handleMap_single : HandleMap (single firstDevice) := by
  constructor
  · intro i _ hd
    exact absurd (devid_single i) hd
  · intro i _ _ _ hd
    exact absurd (devid_single i) hd
  · rintro _ ⟨⟩
  · rintro _ ⟨⟩

/-- A first registration gives the device a live handle. -/
theorem handles_mapped_registered : ∃ w, (single firstDevice).step (.quiet, .nxpReg newLock) =
    some w ∧ (w.subdevs 0).devid = 1 ∧ HandleMap w := by
  obtain ⟨w, hw, hd⟩ : ∃ w, (single firstDevice).step (.quiet, .nxpReg newLock) = some w ∧
      (w.subdevs 0).devid = 1 := Option.map_eq_some_iff.mp (by decide +kernel)
  exact ⟨w, hw, hd, (handles_mapped handleMap_single
    (.next (e := (.quiet, .nxpReg newLock)) .start ⟨trivial, sdkSane_single, trivial⟩ hw)).1⟩

/-- Clearing the devices leaves the handle of a registered one without an owner. -/
theorem clear_leaks_handle :
    ¬ ∀ w₀ w : World, HandleMap w₀ →
      Reachable step (fun w e => e.2.OnHandles ∧ w.SdkSane e.1) w₀ w → HandleMap w := by
  intro h
  obtain ⟨w₁, h₁, ho⟩ : ∃ w₁, (single firstDevice).step (.quiet, .nxpReg newLock) = some w₁ ∧
      (w₁.step ({ Env.quiet with create := -1 }, .clrSubDev)).map (fun w => (w.sdk.live 1,
        decide (∃ i, (w.subdevs i).use ≠ 0 ∧ (w.subdevs i).devid = 1))) = some (true, false) :=
    Option.map_eq_some_iff.mp (by decide +kernel)
  obtain ⟨w, hw, ho⟩ := Option.map_eq_some_iff.mp ho
  simp only [Prod.mk.injEq, decide_eq_false_iff_not] at ho
  have hm := h (single firstDevice) w handleMap_single
    (.next (e := ({ Env.quiet with create := -1 }, .clrSubDev))
      (.next (e := (.quiet, .nxpReg newLock)) .start ⟨trivial, sdkSane_single⟩ h₁)
      ⟨trivial, Or.inl (by decide)⟩ hw)
  exact ho.2 (hm.owned 1 ho.1).2.exists

end Afly
