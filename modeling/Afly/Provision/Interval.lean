import Afly.Gateway.Frames
import Afly.Provision.Dynamic

/-! # The interval of a dynamic password

A dynamic password is computed with a division by the interval that the lock was
asked for. A report of the lock confirms the password whether or not the gateway
asked, so that the interval may still be zero. In runs where every such report
follows a request the division is defined.
-/

namespace Afly

open World Reach

def SubDev.Timed (sd : SubDev) : Prop := sd.dynamic ≠ 0 → sd.interval ≠ 0

/-- Every device in use with a confirmed dynamic password has an interval. -/
def World.Timed (w : World) : Prop := ∀ i, (w.subdevs i).use ≠ 0 → (w.subdevs i).Timed

/-- The strings of an added device that end before the state of the dynamic password. -/
structure AddedFits (name key : CStr) (secret : Option CStr) : Prop where
  name : name.length < 268
  key : key.length < 316
  secret : (secret.getD []).length < 204

/-- The strings of a registration that end before the state of the dynamic password. -/
structure NxpReg.EndsEarly (r : NxpReg) : Prop where
  name : r.name.length < 268
  type : r.type.length < 132
  version : r.version.length < 100
  model : r.model.length < 68

def Op.OnDynamic : Op → Prop
  | .addSubDev _ | .nxpReg _ | .uptOnline _ | .rptEvent _ _ _ | .getDynamic _ | .delSubDev _
  | .clrSubDev | .subDel _ | .subClr | .subdevDeleted _ _ | .xdel _ | .nxpUnreg _ => True
  | _ => False

/-- A report on the dynamic password follows a request for it, and no string runs over its state. -/
def World.AsksFirst (w : World) : Env × Op → Prop
  | (env, .addSubDev input) => ∀ l, requestList env input = .ok l → ∀ jv ∈ l, AddedBy AddedFits jv
  | (_, .nxpReg r) => r.EndsEarly
  | (_, .rptEvent name eid buf) => eid = eventNxpAddDelPassRet → buf 1 = 999999 →
      ∀ i, w.productSubSearchByName name = some i → (w.subdevs i).interval ≠ 0
  | _ => True

section Steps

variable {env : Env} {w w' : World} {e : Env × Op}

theorem SubDev.occupy_dynamic {sd sd' : SubDev} {name key : CStr} {secret : Option CStr}
    (hfits : AddedFits name key secret) (h : sd.occupy name key secret = some sd') :
    SameDynamic sd sd' := by
  unfold occupy at h
  obtain ⟨sd₁, h₁, h⟩ := Option.bind_eq_some_iff.mp h
  obtain ⟨sd₂, h₂, h⟩ := Option.bind_eq_some_iff.mp h
  obtain ⟨sd₃, h₃, h⟩ := Option.bind_eq_some_iff.mp h
  cases h
  have hlen (room : ℕ) (s : CStr) (hs : s.length < room + 4) : (overrun room s).length ≤ 4 :=
    (length_overrun room s).trans (by omega)
  obtain ⟨d₁, s₁, i₁⟩ := spill_dynamic h₁ (hlen _ _ hfits.key)
  obtain ⟨d₂, s₂, i₂⟩ := spill_dynamic h₂ (hlen _ _ hfits.secret)
  obtain ⟨d₃, s₃, i₃⟩ := spill_dynamic h₃ (hlen _ _ hfits.name)
  exact ⟨d₃.trans (d₂.trans d₁), s₃.trans (s₂.trans s₁), i₃.trans (i₂.trans i₁)⟩

theorem SubDev.Timed.of_same {sd sd' : SubDev} (h : sd.Timed) (hd : sd'.dynamic = sd.dynamic)
    (hi : sd'.interval = sd.interval) : sd'.Timed := by
  unfold Timed
  rw [hd, hi]
  exact h

theorem frame_timed : Frame AddedFits NxpReg.EndsEarly fun a b => a.Timed → b.Timed where
  trans h h' ha := h' (h ha)
  same h ha := ha.of_same h.dynamic h.interval
  asked a seed _ := by
    intro _
    exact (by decide : (30 * 60 : ℤ) ≠ 0)
  occupy hfits _ h ha := by
    have hs := SubDev.occupy_dynamic hfits h
    exact ha.of_same hs.1 hs.2.2
  report hr h ha := by
    have hs := SubDev.report_dynamic hr.type hr.version hr.model h
    exact ha.of_same hs.1 hs.2.2

theorem addedFits_spks {name : CStr} (hname : name.length < 268) :
    ∀ spk ∈ spks, AddedFits name spk.productKey none := by
  have hkeys : ∀ spk ∈ spks, spk.productKey.length < 316 := by
    intro spk hspk
    simp only [spks, List.mem_cons, List.not_mem_nil, or_false] at hspk
    rcases hspk with rfl | rfl | rfl <;> decide
  intro spk hspk
  exact ⟨hname, hkeys spk hspk, by simp⟩

theorem timed_of_erases (hI : ∀ i, (w.subdevs i).Timed)
    (h : ∀ i, Erases (w.subdevs i) (w'.subdevs i)) (i : Slot) : (w'.subdevs i).Timed := by
  rcases h i with he | he
  · rw [he]
    exact hI i
  · rw [he]
    intro hd
    exact absurd rfl hd

theorem timed_rptEvent (hI : ∀ i, (w.subdevs i).Timed) {name : CStr} {eid : ℤ} {buf : ℕ → ℤ}
    (hok : w.AsksFirst (env, .rptEvent name eid buf))
    (h : w.aflyNxpRptEvent env name eid buf = some w') (i : Slot) : (w'.subdevs i).Timed := by
  rcases aflyNxpRptEvent_cases h with ⟨-, rfl⟩ | ⟨k, w₁, notice, hk, he, rfl⟩
  · exact hI i
  have h₁ : ∀ i, (w₁.subdevs i).Timed := by
    rcases (lockEvent_outcome he).frame frame_timed with hf | hopen | ⟨heid, hid, rfl⟩
    · exact fun i => hf.subdevs i (hI i)
    · intro j
      have hpost : ((w.postLockState k 1).subdevs j).Timed := by
        rw [postLockState_subdevs]
        refine rel_update (R := fun a b => a.Timed → b.Timed) (fun _ h => h) ?_ j (hI j)
        exact fun ht => ht
      rw [(doorOpened_spec hopen).subdevs j]
      exact hpost
    · intro j
      rw [productSubLockAddDynamicComplete, productSubSave_subdevs, setDev_subdevs]
      by_cases hj : j = k
      · subst hj
        rw [Function.update_self]
        exact fun _ => hok heid hid j hk
      · rw [Function.update_of_ne hj]
        exact hI j
  cases notice with
  | none => exact h₁ i
  | some n => exact (frameStep_triggerEvent frame_timed n).subdevs i (h₁ i)

theorem timed_step (hI : ∀ i, (w.subdevs i).Timed) (hop : e.2.OnDynamic) (hok : w.AsksFirst e)
    (h : w.step e = some w') : ∀ i, (w'.subdevs i).Timed := by
  obtain ⟨env, op⟩ := e
  cases op with
  | addSubDev input =>
    obtain ⟨⟨w₁, ret⟩, h₁, rfl⟩ := Option.map_eq_some_iff.mp h
    exact fun i => (frameStep_gatewayAddSubdev frame_timed hok h₁).subdevs i (hI i)
  | nxpReg r =>
    exact fun i =>
      (frameStep_nxpReg frame_timed (addedFits_spks hok.name) hok h).subdevs i (hI i)
  | uptOnline s =>
    cases h
    exact fun i => (frameStep_uptOnline frame_timed s).subdevs i (hI i)
  | rptEvent name eid buf => exact timed_rptEvent hI hok h
  | getDynamic i =>
    have hop : (Op.getDynamic i).OnLock := trivial
    exact fun k => (frameStep_request frame_timed hop h).subdevs k (hI k)
  | delSubDev input =>
    obtain ⟨⟨w₁, ret⟩, h₁, rfl⟩ := Option.map_eq_some_iff.mp h
    exact timed_of_erases hI (gatewayDelSubdev_spec h₁).1
  | clrSubDev =>
    cases h
    refine timed_of_erases hI fun i => Or.inr ?_
    rw [(gatewayClrSubdev_spec env w).1]
  | subDel name =>
    cases h
    exact timed_of_erases hI productSubDel_erases
  | subClr =>
    cases h
    refine timed_of_erases hI fun i => Or.inr ?_
    rw [productSubClr_subdevs]
  | subdevDeleted key name =>
    cases h
    exact timed_of_erases hI eventSubdevDeleted_erases
  | xdel mac =>
    cases h
    exact timed_of_erases hI doCmdXdel_subdevs
  | nxpUnreg name =>
    cases h
    exact timed_of_erases hI aflyNxpUnreg_erases
  | _ => exact hop.elim

theorem asksFirst_of_timed {name : CStr} {eid : ℤ} {buf : ℕ → ℤ}
    (h : w.aflyNxpRptEvent env name eid buf = some w') (hw : w'.Timed) :
    w.AsksFirst (env, .rptEvent name eid buf) := by
  intro heid hid i hi
  subst heid
  rw [rptEvent_dynamic hi hid] at h
  obtain rfl := Option.some.inj h
  have hrec : ((w.productSubLockAddDynamicComplete (env.save 0) i).1.subdevs i) =
      { w.subdevs i with dynamic := 1 } := by
    rw [productSubLockAddDynamicComplete, productSubSave_subdevs, setDev_subdevs,
      Function.update_self]
  have ht := hw i
  rw [hrec] at ht
  exact ht (use_of_search hi) (by simp)

end Steps

/-- In every run whose reports on a dynamic password follow a request for it, and whose strings do
not run over its state, a confirmed dynamic password has an interval and its computation is
defined. A report that follows no request breaks this. -/
theorem interval_of_dynamic {w₀ w : World} (h₀ : ∀ i, (w₀.subdevs i).Timed)
    (hr : Reachable step (fun w e => e.2.OnDynamic ∧ w.AsksFirst e) w₀ w) :
    w.Timed ∧
    (∀ env i, ∃ w', w.step (env, .getDynamic i) = some w') ∧
    ∀ env name eid buf w', w.step (env, .rptEvent name eid buf) = some w' →
      (w.AsksFirst (env, .rptEvent name eid buf) ↔ w'.Timed) := by
  have hI : ∀ i, (w.subdevs i).Timed :=
    hr.invariant (I := fun w => ∀ i, (w.subdevs i).Timed) h₀
      fun _ _ _ hI hok hs => timed_step hI hok.1 hok.2 hs
  refine ⟨fun i _ => hI i, ?_, ?_⟩
  · intro env i
    unfold step
    dsimp only
    unfold request
    split
    · exact ⟨w, rfl⟩
    · unfold subdevGetDynamic
      split_ifs with hd hi
      · exact ⟨_, rfl⟩
      · exact absurd hi (hI i hd)
      · exact ⟨_, rfl⟩
  · intro env name eid buf w' hs
    constructor
    · exact fun hok i _ => timed_step hI (e := (env, .rptEvent name eid buf)) trivial hok hs i
    · exact asksFirst_of_timed hs

/-- The list of devices in an `AddSubDev` request. -/
def addListText : CStr :=
  ("[\x7b\"deviceName\": \"00158d00026c5415\", " ++
    "\"deviceSecret\": \"goXATTZ7X9QoOxzFdAMbtjurKnqugvOs\", " ++
    "\"productKey\": \"a1wcKZILMWO\"\x7d]").toList

/-- The text of the request, with the list as a string. -/
def addSubDevText : CStr :=
  "\x7b\"SubDevList\": \"".toList ++
    addListText.flatMap (fun c => if c = '"' then ['\\', '"'] else [c]) ++ "\"\x7d".toList

def Env.adding : Env :=
  { Env.quiet with
    jsonLoads := fun s =>
      if s = addListText then
        some (.arr [.obj [("deviceName", .str firstDevice.deviceName),
          ("deviceSecret", .str firstDevice.deviceSecret),
          ("productKey", .str firstDevice.productKey)]])
      else if s = addSubDevText then some (.obj [("SubDevList", .str addListText)])
      else none }

def addSubDevOp : Env × Op := (.adding, .addSubDev addSubDevText)

/-- The cloud asks for the password of a device, which the lock then confirms. -/
theorem interval_of_dynamic_asked : ∃ w, run step (single firstDevice)
      ([(.quiet, .getDynamic 0)] ++ [ackOp 1 999999 0]) = some w ∧ (w.subdevs 0).dynamic = 1 ∧
    ∃ w', w.step (.quiet, .getDynamic 0) = some w' := by
  obtain ⟨w₁, h₁, ho⟩ : ∃ w₁, run step (single firstDevice) [(.quiet, .getDynamic 0)] = some w₁ ∧
      ((w₁.subdevs 0).interval, w₁.productSubSearchByName newLock.name) = (1800, some 0) :=
    Option.map_eq_some_iff.mp (by decide +kernel)
  obtain ⟨w, hw, hd⟩ : ∃ w, run step (single firstDevice)
      ([(.quiet, .getDynamic 0)] ++ [ackOp 1 999999 0]) = some w ∧ (w.subdevs 0).dynamic = 1 :=
    Option.map_eq_some_iff.mp (by decide +kernel)
  simp only [Prod.mk.injEq] at ho
  have hs : w₁.step (ackOp 1 999999 0) = some w := by
    rw [run_append, h₁] at hw
    simpa [run] using hw
  have h₀ : ∀ i, ((single firstDevice).subdevs i).dynamic = 0 := by decide +kernel
  have hreach : Reachable step (fun w e => e.2.OnDynamic ∧ w.AsksFirst e) (single firstDevice) w₁ :=
    reachable_of_run h₁ (by simp [Op.OnDynamic, AsksFirst]) .start
  refine ⟨w, hw, hd, (interval_of_dynamic (fun i hi => absurd (h₀ i) hi)
    (hreach.next (e := ackOp 1 999999 0) ?_ hs)).2.1 _ _⟩
  refine ⟨trivial, ?_⟩
  intro _ _ i hi
  obtain rfl : i = 0 := Option.some.inj (hi.symm.trans ho.2)
  rw [ho.1]
  decide

/-- A device that the cloud added is confirmed by its lock unasked, and the next computation of its
password divides by zero. -/
theorem unasked_divides_by_zero : ∃ w, run step boot [addSubDevOp, ackOp 1 999999 0] = some w ∧
    (w.subdevs 0).use ≠ 0 ∧ ¬ (w.subdevs 0).Timed ∧ w.step (.quiet, .getDynamic 0) = none := by
  obtain ⟨w, hw, ho⟩ : ∃ w, run step boot [addSubDevOp, ackOp 1 999999 0] = some w ∧
      ((w.subdevs 0).use, (w.subdevs 0).dynamic, (w.subdevs 0).interval) = (1, 1, 0) :=
    Option.map_eq_some_iff.mp (by decide +kernel)
  simp only [Prod.mk.injEq] at ho
  obtain ⟨huse, hdynamic, hinterval⟩ := ho
  refine ⟨w, hw, by omega, ?_, ?_⟩
  · intro ht
    exact ht (by omega) hinterval
  · unfold step
    dsimp only
    rw [request, if_neg (by omega), subdevGetDynamic, if_neg (by omega), if_pos hinterval]
    rfl

end Afly
