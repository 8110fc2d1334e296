import Afly.Gateway.Devices

/-! # What the table operations change

Every operation on whole records acts on each record alone: it leaves the record
as it is, occupies a free one, or erases it. The services for lists of devices
inherit this from their elements, and none of the operations touches a handle of
the SDK except the deletion event.
-/

namespace Afly

inductive Occupies (sd : SubDev) : SubDev → Prop where
  | same : Occupies sd sd
  | assign {sd' : SubDev} (key secret : CStr) (hsd : sd' = { sd with
      productKey := key, deviceSecret := secret }) : Occupies sd sd'
  | fresh {sd' : SubDev} (hfree : sd.use = 0) (huse : sd'.use = 1) (hdevid : sd'.devid = 0)
      (hlogin : sd'.login = 0) (hlock : sd'.lock = .zero) (htask : sd'.task = sd.task) :
      Occupies sd sd'

theorem Occupies.trans {a b c : SubDev} (h : Occupies a b) (h' : Occupies b c) :
    Occupies a c := by
  cases h with
  | same => exact h'
  | assign key secret hb =>
    subst hb
    cases h' with
    | same => exact .assign key secret rfl
    | assign key' secret' hc => exact .assign key' secret' hc
    | fresh hfree huse hdevid hlogin hlock htask =>
      exact .fresh hfree huse hdevid hlogin hlock htask
  | fresh hfree huse hdevid hlogin hlock htask =>
    cases h' with
    | same => exact .fresh hfree huse hdevid hlogin hlock htask
    | assign key' secret' hc =>
      subst hc
      exact .fresh hfree huse hdevid hlogin hlock htask
    | fresh hfree' => exact absurd (huse.symm.trans hfree') (by decide)

def Erases (sd sd' : SubDev) : Prop := sd' = sd ∨ sd' = .zero

theorem Erases.refl (sd : SubDev) : Erases sd sd := Or.inl rfl

theorem Erases.trans {a b c : SubDev} (h : Erases a b) (h' : Erases b c) : Erases a c := by
  rcases h' with rfl | rfl
  · exact h
  · exact Or.inr rfl

namespace SubDev

theorem assign_occupies {sd sd' : SubDev} {key : CStr} {secret : Option CStr}
    (h : sd.assign key secret = some sd') : Occupies sd sd' := by
  unfold assign at h
  split at h
  · cases h; exact .assign key (secret.getD []) rfl
  · cases h

theorem occupy_eq {sd sd' : SubDev} {name key : CStr} {secret : Option CStr}
    (h : sd.occupy name key secret = some sd') :
    sd'.use = 1 ∧ sd'.devid = 0 ∧ sd'.login = 0 ∧ sd'.deviceName = name.take 128 ∧
      sd'.lock = .zero ∧ sd'.task = sd.task := by
  unfold occupy at h
  obtain ⟨sd₁, h₁, h⟩ := Option.bind_eq_some_iff.mp h
  obtain ⟨sd₂, h₂, h⟩ := Option.bind_eq_some_iff.mp h
  obtain ⟨sd₃, h₃, h⟩ := Option.bind_eq_some_iff.mp h
  cases h
  have ht := ((spill_spillsTo h₁).trans ((spill_spillsTo h₂).trans (spill_spillsTo h₃))).eq
  exact ⟨rfl, rfl, rfl, rfl, rfl, by rw [ht]⟩

theorem occupy_occupies {sd sd' : SubDev} {name key : CStr} {secret : Option CStr}
    (hfree : sd.use = 0) (h : sd.occupy name key secret = some sd') : Occupies sd sd' := by
  obtain ⟨huse, hdevid, hlogin, -, hlock, htask⟩ := occupy_eq h
  exact .fresh hfree huse hdevid hlogin hlock htask

end SubDev

namespace World

section Search

variable {w : World} {name : CStr} {i : Slot}

theorem productSubSearchByName_eq_some_iff : w.productSubSearchByName name = some i ↔
    ((w.subdevs i).use ≠ 0 ∧ name = (w.subdevs i).deviceName) ∧
      ∀ k < i, ¬ ((w.subdevs k).use ≠ 0 ∧ name = (w.subdevs k).deviceName) := by
  simp only [productSubSearchByName, Fin.find?_eq_some_iff, decide_eq_true_eq,
    decide_eq_false_iff_not]

theorem use_of_search (h : w.productSubSearchByName name = some i) : (w.subdevs i).use ≠ 0 :=
  (productSubSearchByName_eq_some_iff.mp h).1.1

theorem name_of_search (h : w.productSubSearchByName name = some i) :
    (w.subdevs i).deviceName = name := (productSubSearchByName_eq_some_iff.mp h).1.2.symm

theorem productSubSearchByName_congr {w' : World} (huse : ∀ k, (w'.subdevs k).use =
    (w.subdevs k).use) (hname : ∀ k, (w'.subdevs k).deviceName = (w.subdevs k).deviceName) :
    w'.productSubSearchByName name = w.productSubSearchByName name := by
  simp only [productSubSearchByName, huse, hname]

theorem use_of_malloc (h : w.productSubMalloc = some i) : (w.subdevs i).use = 0 := by
  simp only [productSubMalloc, Fin.find?_eq_some_iff, decide_eq_true_eq] at h
  exact h.1

end Search

section TableOperations

variable {w w' : World} {r : SaveResult} {name key : CStr} {secret : Option CStr} {ret : ℤ}

/-- The outcomes of `product_sub_add`. -/
theorem productSubAdd_cases (h : w.productSubAdd r name key secret = some (w', ret)) :
    (∃ i sd, w.productSubSearchByName name = some i ∧ (w.subdevs i).assign key secret = some sd ∧
      w' = w.setDev i sd) ∨
    (w.productSubSearchByName name = none ∧ w.productSubMalloc = none ∧ w' = w) ∨
    ∃ i sd, w.productSubSearchByName name = none ∧ w.productSubMalloc = some i ∧
      (w.subdevs i).occupy name key secret = some sd ∧
      w' = (w.setDev i sd).productSubSave i r := by
  unfold productSubAdd at h
  cases hs : w.productSubSearchByName name with
  | some i =>
    rw [hs] at h
    obtain ⟨sd, hsd, he⟩ := Option.map_eq_some_iff.mp h
    cases he
    exact Or.inl ⟨i, sd, rfl, hsd, rfl⟩
  | none =>
    rw [hs] at h
    cases hm : w.productSubMalloc with
    | none => rw [hm] at h; cases h; exact Or.inr (Or.inl ⟨rfl, rfl, rfl⟩)
    | some i =>
      rw [hm] at h
      obtain ⟨sd, hsd, he⟩ := Option.map_eq_some_iff.mp h
      cases he
      exact Or.inr (Or.inr ⟨i, sd, rfl, rfl, hsd, rfl⟩)

theorem productSubAdd_occupies (h : w.productSubAdd r name key secret = some (w', ret))
    (i : Slot) : Occupies (w.subdevs i) (w'.subdevs i) := by
  rcases productSubAdd_cases h with ⟨j, sd, -, hsd, rfl⟩ | ⟨-, -, rfl⟩ | ⟨j, sd, -, hm, hsd, rfl⟩
  · by_cases hij : i = j
    · subst hij; simpa using SubDev.assign_occupies hsd
    · simpa [hij] using Occupies.same
  · exact .same
  · by_cases hij : i = j
    · subst hij; simpa using SubDev.occupy_occupies (use_of_malloc hm) hsd
    · simpa [hij] using Occupies.same

theorem productSubAdd_sdk (h : w.productSubAdd r name key secret = some (w', ret)) :
    w'.sdk = w.sdk := by
  rcases productSubAdd_cases h with ⟨j, sd, -, -, rfl⟩ | ⟨-, -, rfl⟩ | ⟨j, sd, -, -, -, rfl⟩ <;>
    simp

theorem productSubDel_subdevs : (w.productSubDel r name).1.subdevs =
    match w.productSubSearchByName name with
    | none => w.subdevs
    | some i => Function.update w.subdevs i .zero := by
  unfold productSubDel
  split <;> simp_all

theorem productSubDel_erases (i : Slot) :
    Erases (w.subdevs i) ((w.productSubDel r name).1.subdevs i) := by
  rw [productSubDel_subdevs]
  split
  · exact .refl _
  · rename_i j _
    by_cases hij : i = j
    · subst hij; exact Or.inr (by simp)
    · exact Or.inl (by simp [hij])

@[simp] theorem productSubDel_sdk : (w.productSubDel r name).1.sdk = w.sdk := by
  unfold productSubDel
  split <;> simp

@[simp] theorem productSubClr_subdevs : (w.productSubClr r).1.subdevs = fun _ => .zero := by
  simp [productSubClr]

@[simp] theorem productSubClr_sdk : (w.productSubClr r).1.sdk = w.sdk := by
  simp [productSubClr]

end TableOperations

section Lists

variable {env : Env} {w w' : World} {input : CStr} {ret : ℤ}

theorem eachSubdev_induct {item : ℕ → World → Json → Option (World × Bool)}
    {R : World → World → Prop} (hrefl : ∀ w, R w w)
    (htrans : ∀ {a b c}, R a b → R b c → R a c)
    (hitem : ∀ {k w jv w' flag}, item k w jv = some (w', flag) → R w w')
    {k : ℕ} {l : List Json} {flag : Bool} (h : eachSubdev item k l w = some (w', flag)) :
    R w w' := by
  induction l generalizing k w flag with
  | nil => cases h; exact hrefl _
  | cons jv l ih =>
    rw [eachSubdev] at h
    obtain ⟨⟨w₁, f₁⟩, h₁, h⟩ := Option.bind_eq_some_iff.mp h
    obtain ⟨⟨w₂, f₂⟩, h₂, h⟩ := Option.bind_eq_some_iff.mp h
    cases h
    exact htrans (hitem h₁) (ih h₂)

/-- Adding devices acts on each record alone, and only posts to the cloud. -/
structure AddsDevices (w w' : World) : Prop where
  subdevs : ∀ i, Occupies (w.subdevs i) (w'.subdevs i)
  sdk : w'.sdk = w.sdk

theorem AddsDevices.trans {w₁ w₂ w₃ : World} (h : AddsDevices w₁ w₂) (h' : AddsDevices w₂ w₃) :
    AddsDevices w₁ w₃ :=
  ⟨fun i => (h.subdevs i).trans (h'.subdevs i), h'.sdk.trans h.sdk⟩

theorem addSubdev_adds {k : ℕ} {jv : Json} {flag : Bool}
    (h : addSubdev env k w jv = some (w', flag)) : AddsDevices w w' := by
  unfold addSubdev at h
  split at h
  · cases h; exact ⟨fun _ => .same, rfl⟩
  · split at h
    · cases h; exact ⟨fun _ => .same, rfl⟩
    · obtain ⟨⟨w₁, ret⟩, h₁, he⟩ := Option.map_eq_some_iff.mp h
      cases he
      exact ⟨productSubAdd_occupies h₁, productSubAdd_sdk h₁⟩
  · cases h; exact ⟨fun _ => .same, rfl⟩

/-- At most one post of the device list follows a list request. -/
def PostsList (w w' : World) : Prop :=
  w'.sdk = w.sdk ∨ ∃ property, w'.sdk = w.sdk.onGateway (.postGateway property)

theorem gatewayAddSubdev_spec (h : w.gatewayAddSubdev env input = some (w', ret)) :
    (∀ i, Occupies (w.subdevs i) (w'.subdevs i)) ∧ PostsList w w' := by
  unfold gatewayAddSubdev at h
  split at h
  · cases h; exact ⟨fun _ => .same, Or.inl rfl⟩
  · obtain ⟨⟨w₁, flag⟩, h₁, he⟩ := Option.map_eq_some_iff.mp h
    cases he
    have ha : AddsDevices w w₁ :=
      eachSubdev_induct (fun _ => ⟨fun _ => .same, rfl⟩) (fun h h' => h.trans h') addSubdev_adds h₁
    cases flag with
    | false => exact ⟨ha.subdevs, Or.inl ha.sdk⟩
    | true => exact ⟨ha.subdevs, Or.inr ⟨_, by rw [← ha.sdk]; rfl⟩⟩

/-- Removing devices acts on each record alone, and only posts to the cloud. -/
structure RemovesDevices (w w' : World) : Prop where
  subdevs : ∀ i, Erases (w.subdevs i) (w'.subdevs i)
  sdk : w'.sdk = w.sdk

theorem RemovesDevices.refl (w : World) : RemovesDevices w w := ⟨fun _ => .refl _, rfl⟩

theorem RemovesDevices.trans {w₁ w₂ w₃ : World} (h : RemovesDevices w₁ w₂)
    (h' : RemovesDevices w₂ w₃) : RemovesDevices w₁ w₃ :=
  ⟨fun i => (h.subdevs i).trans (h'.subdevs i), h'.sdk.trans h.sdk⟩

theorem delSubdev_removes {k : ℕ} {jv : Json} {flag : Bool}
    (h : delSubdev env k w jv = some (w', flag)) : RemovesDevices w w' := by
  unfold delSubdev at h
  split at h
  · cases h; exact ⟨fun _ => .refl _, rfl⟩
  · split at h
    · cases h; exact .refl _
    · cases h; exact ⟨productSubDel_erases, productSubDel_sdk⟩
  · cases h; exact .refl _

theorem gatewayDelSubdev_spec (h : w.gatewayDelSubdev env input = some (w', ret)) :
    (∀ i, Erases (w.subdevs i) (w'.subdevs i)) ∧ PostsList w w' := by
  unfold gatewayDelSubdev at h
  split at h
  · cases h; exact ⟨fun _ => .refl _, Or.inl rfl⟩
  · obtain ⟨⟨w₁, flag⟩, h₁, he⟩ := Option.map_eq_some_iff.mp h
    cases he
    have hd : RemovesDevices w w₁ :=
      eachSubdev_induct .refl (fun h h' => h.trans h') delSubdev_removes h₁
    cases flag with
    | false => exact ⟨hd.subdevs, Or.inl hd.sdk⟩
    | true => exact ⟨hd.subdevs, Or.inr ⟨_, by rw [← hd.sdk]; rfl⟩⟩

variable (env w) in
theorem gatewayClrSubdev_spec :
    (w.gatewayClrSubdev env).1.subdevs = (fun _ => .zero) ∧
      PostsList w (w.gatewayClrSubdev env).1 := by
  unfold gatewayClrSubdev
  dsimp only
  split
  · exact ⟨by simp, Or.inl (by simp)⟩
  · exact ⟨by simp [gatewayPostSubdevList], Or.inr ⟨_, by simp [gatewayPostSubdevList]; rfl⟩⟩

theorem doCmdXdel_subdevs {mac : CStr} (i : Slot) :
    Erases (w.subdevs i) ((w.doCmdXdel env mac).subdevs i) := by
  unfold doCmdXdel
  split
  · exact .refl _
  · exact productSubDel_erases i

@[simp] theorem doCmdXdel_sdk {mac : CStr} : (w.doCmdXdel env mac).sdk = w.sdk := by
  unfold doCmdXdel
  split
  · rfl
  · simp

end Lists

end World

end Afly
