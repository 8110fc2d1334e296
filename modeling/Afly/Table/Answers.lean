import Afly.Table.Lists

/-! # What the list services answer

`AddSubDev` answers with 0 whatever becomes of its elements, and `DelSubDev`
with -1. So the first one tells the truth when there is room for every device of
the list, and the second one when a device of the list is still bound.
-/

namespace Afly

open Reach World

def World.carriers (w : World) (name : CStr) : Finset Slot :=
  Finset.univ.filter fun i => (w.subdevs i).boundName = some name

/-- A device whose strings end inside the record that they are copied to, and whose name ends in
front of the member behind the secret. -/
structure Device.Contained (d : Device) : Prop where
  name : d.name.length ≤ 128
  key : d.key.length < 312 + 28716
  secret : d.secret.length < 200 + 28716

/-- `AddSubDev` answers with 0 exactly when every device of the list is bound after it. -/
def AddTruthful (env : Env) (w : World) (input : CStr) (ds : List Device) : Prop :=
  ∃ w' ret, w.gatewayAddSubdev env input = some (w', ret) ∧
    (ret = 0 ↔ ∀ d ∈ ds, w'.bindings d.name ≠ none)

/-- `DelSubDev` answers with 0 exactly when no device of the list is bound after it. -/
def DelTruthful (env : Env) (w : World) (input : CStr) (ds : List Device) : Prop :=
  ∃ w' ret, w.gatewayDelSubdev env input = some (w', ret) ∧
    (ret = 0 ↔ ∀ d ∈ ds, w'.bindings d.name = none)

/-- There is a free record for every device that is not bound, and its strings do not leave the
record. -/
structure World.HasRoom (w : World) (ds : List Device) : Prop where
  room : (w.newcomers ds).length ≤ w.freeSlots.length
  contained : ∀ d ∈ w.newcomers ds, d.Contained

/-- Some name has more records than the list has elements. -/
def World.LeavesBound (w : World) (ds : List Device) : Prop :=
  ∃ d ∈ ds, (ds.map Device.name).count d.name < (w.carriers d.name).card

section Spill

variable {sd sd' : SubDev} {c : Char} {k : ℕ} {bytes name key secret : CStr}

theorem Lock.poke_isSome_iff {lock : Lock} : (lock.poke k c).isSome ↔ k < 28700 := by
  unfold Lock.poke
  dsimp only
  split_ifs <;> first
    | exact iff_of_true rfl (by omega)
    | exact iff_of_false Bool.false_ne_true (by omega)

variable (sd k c) in
theorem poke_isSome_iff : (sd.poke k c).isSome ↔ k < 28716 := by
  unfold SubDev.poke
  split_ifs
  · exact iff_of_true rfl (by omega)
  · exact iff_of_true rfl (by omega)
  · exact iff_of_true rfl (by omega)
  · exact iff_of_true rfl (by omega)
  · rw [Option.isSome_map, Lock.poke_isSome_iff]
    omega

variable (sd bytes) in
theorem spill_isSome_iff : (sd.spill bytes).isSome ↔ bytes.length ≤ 28716 := by
  have hfold (n : ℕ) (sd : SubDev) (hn : n ≤ 28716) :
      ((bytes.zipIdx n).foldlM (fun (sd : SubDev) b => sd.poke b.2 b.1) sd).isSome ↔
        n + bytes.length ≤ 28716 := by
    induction bytes generalizing n sd with
    | nil => simp [hn]
    | cons c bytes ih =>
      rw [List.zipIdx_cons, List.foldlM_cons, List.length_cons]
      have hpoke := poke_isSome_iff sd c n
      cases hp : sd.poke n c with
      | none =>
        rw [hp] at hpoke
        simp at hpoke ⊢
        omega
      | some sd₁ =>
        rw [hp] at hpoke
        have hlt := hpoke.mp rfl
        rw [Option.bind_eq_bind, Option.bind_some, ih (n + 1) sd₁ (by omega)]
        omega
  have h := hfold 0 sd (Nat.zero_le _)
  rwa [Nat.zero_add] at h

theorem length_overrun_le_iff (room : ℕ) : (overrun room key).length ≤ 28716 ↔
    key.length < room + 28716 := by
  unfold overrun
  split
  · simp
    omega
  · rw [List.length_append, List.length_drop, List.length_singleton]
    omega

theorem occupy_isSome (hname : name.length ≤ 128) : (sd.occupy name key (some secret)).isSome ↔
    key.length < 312 + 28716 ∧ secret.length < 200 + 28716 := by
  have hkey := spill_isSome_iff sd (overrun 312 key)
  rw [length_overrun_le_iff] at hkey
  have hname' : overrun 264 name = [] := if_pos (by omega)
  unfold SubDev.occupy
  cases h₁ : sd.spill (overrun 312 key) with
  | none =>
    rw [h₁] at hkey
    simp at hkey ⊢
    omega
  | some sd₁ =>
    have hsecret := spill_isSome_iff sd₁ (overrun 200 secret)
    rw [length_overrun_le_iff] at hsecret
    rw [h₁] at hkey
    rw [Option.bind_eq_bind, Option.bind_some, Option.getD_some]
    cases h₂ : sd₁.spill (overrun 200 secret) with
    | none =>
      rw [h₂] at hsecret
      simp at hsecret ⊢
      omega
    | some sd₂ =>
      rw [h₂] at hsecret
      rw [hname']
      exact iff_of_true rfl ⟨hkey.mp rfl, hsecret.mp rfl⟩

end Spill

section Adding

variable {env : Env} {w w' : World} {L : List Json} {k : ℕ} {flag : Bool} {name : CStr} {d : Device}
  {ds : List Device}

theorem addSubdev_outcome {jv : Json} (h : addSubdev env k w jv = some (w', flag)) :
    w'.subdevs = w.subdevs ∨ ∃ (d : Device) (i : Slot) (free : List Slot) (sd : SubDev),
      w.freeSlots = i :: free ∧
      (w.subdevs i).occupy d.name d.key (some d.secret) = some sd ∧
        w'.subdevs = Function.update w.subdevs i sd := by
  cases hjv : jv.device with
  | none =>
    obtain ⟨w₁, hstep, hsub⟩ := addSubdev_of_incomplete env w k hjv
    cases h.symm.trans hstep
    exact Or.inl hsub
  | some d =>
    rcases addSubdev_cases env w k hjv with ⟨-, hstep⟩ | ⟨-, -, hstep⟩ |
      ⟨i, free, -, hfree, hstep⟩
    · cases h.symm.trans hstep
      exact Or.inl rfl
    · cases h.symm.trans hstep
      exact Or.inl rfl
    · obtain ⟨sd, hsd, he⟩ := Option.map_eq_some_iff.mp (hstep.symm.trans h)
      cases he
      exact Or.inr ⟨d, i, free, sd, hfree, hsd, productSubSave_subdevs ..⟩

theorem mem_freeSlots_of_cons {i : Slot} {free : List Slot} (h : w.freeSlots = i :: free) :
    (w.subdevs i).use = 0 := by
  apply mem_freeSlots.mp
  rw [h]
  exact List.mem_cons_self

theorem boundName_of_occupy {sd sd' : SubDev} {key : CStr} {secret : Option CStr}
    (h : sd.occupy name key secret = some sd') : sd'.boundName = some (name.take 128) := by
  obtain ⟨huse, -, -, hname, -⟩ := SubDev.occupy_eq h
  exact SubDev.boundName_eq_some_iff.mpr ⟨by rw [huse]; exact one_ne_zero, hname⟩

theorem eachSubdev_add_persists (h : eachSubdev (addSubdev env) k L w = some (w', flag)) :
    w'.productSubSearchByName name = none → w.productSubSearchByName name = none := by
  refine eachSubdev_induct (R := fun w w' => w'.productSubSearchByName name = none →
    w.productSubSearchByName name = none) (fun _ => id) (fun h h' => h ∘ h') ?_ h
  intro k w jv w' flag hstep hno
  rcases addSubdev_outcome hstep with hsub | ⟨d, i, free, sd, hfree, -, hsub⟩
  · rwa [productSubSearchByName_subdevs hsub] at hno
  · exact ((search_setDev_eq_none_iff _ (mem_freeSlots_of_cons hfree) hsub).mp hno).1

theorem eachSubdev_add_unbound (h : eachSubdev (addSubdev env) k L w = some (w', flag)) :
    w.productSubSearchByName name = none ∧ (w.freeSlots = [] ∨ 128 < name.length) →
      w'.productSubSearchByName name = none ∧ (w'.freeSlots = [] ∨ 128 < name.length) := by
  refine eachSubdev_induct (R := fun w w' => w.productSubSearchByName name = none ∧
    (w.freeSlots = [] ∨ 128 < name.length) → w'.productSubSearchByName name = none ∧
      (w'.freeSlots = [] ∨ 128 < name.length)) (fun _ => id) (fun h h' => h' ∘ h) ?_ h
  rintro k w jv w' flag hstep ⟨hno, hbad⟩
  rcases addSubdev_outcome hstep with hsub | ⟨d, i, free, sd, hfree, hsd, hsub⟩
  · rw [productSubSearchByName_subdevs hsub, freeSlots_congr hsub]
    exact ⟨hno, hbad⟩
  · have hlong : 128 < name.length := by
      refine hbad.resolve_left fun hnil => ?_
      rw [hfree] at hnil
      cases hnil
    refine ⟨(search_setDev_eq_none_iff _ (mem_freeSlots_of_cons hfree) hsub).mpr ⟨hno, ?_⟩,
      Or.inr hlong⟩
    rw [boundName_of_occupy hsd, ne_eq, Option.some.injEq]
    rintro rfl
    rw [List.length_take] at hlong
    omega

variable (ds) in
theorem newcomers_head (h : w.productSubSearchByName d.name = none) :
    ∃ l, w.newcomers (d :: ds) = d :: l := by
  rw [newcomers, List.filter_cons_of_pos (by rw [h]; rfl), List.eraseDupsBy_cons]
  exact ⟨_, rfl⟩

variable (env k w L) in
/-- The pass over a list ends, with all its devices bound. -/
def BindsAll : Prop := ∃ w' flag, eachSubdev (addSubdev env) k L w = some (w', flag) ∧
  ∀ d ∈ devicesOf L, w'.productSubSearchByName d.name ≠ none

theorem bindsAll_cons {jv : Json} (hstep : addSubdev env k w jv = some (w', flag))
    (hfirst : ∀ d, jv.device = some d → w'.productSubSearchByName d.name ≠ none) :
    BindsAll env w (jv :: L) k ↔ BindsAll env w' L (k + 1) := by
  unfold BindsAll
  rw [eachSubdev_cons hstep]
  constructor
  · rintro ⟨w₂, flag₂, hw₂, hall⟩
    obtain ⟨⟨w₃, flag₃⟩, hrest, he⟩ := Option.map_eq_some_iff.mp hw₂
    cases he
    refine ⟨w₃, flag₃, hrest, fun d hd => hall d ?_⟩
    cases hjv : jv.device with
    | none => rwa [devicesOf_cons_none hjv]
    | some d₁ =>
      rw [devicesOf_cons_some hjv]
      exact List.mem_cons_of_mem _ hd
  · rintro ⟨w₂, flag₂, hw₂, hall⟩
    refine ⟨w₂, flag || flag₂, by rw [hw₂]; rfl, ?_⟩
    cases hjv : jv.device with
    | none => rwa [devicesOf_cons_none hjv]
    | some d₁ =>
      rw [devicesOf_cons_some hjv, List.forall_mem_cons]
      exact ⟨fun hno => hfirst d₁ hjv (eachSubdev_add_persists hw₂ hno), hall⟩

theorem not_bindsAll_of_unbound (hd : d ∈ devicesOf L)
    (hs : w.productSubSearchByName d.name = none)
    (hbad : w.freeSlots = [] ∨ 128 < d.name.length) : ¬ BindsAll env w L k := by
  rintro ⟨w', flag, hw', hall⟩
  exact hall d hd (eachSubdev_add_unbound hw' ⟨hs, hbad⟩).1

theorem not_bindsAll_of_not_contained {jv : Json} {i : Slot} {f : SubDev → World × Bool}
    (hjv : jv.device = some d) (hs : w.productSubSearchByName d.name = none) (hd : ¬ d.Contained)
    (hstep : addSubdev env k w jv = ((w.subdevs i).occupy d.name d.key (some d.secret)).map f) :
    ¬ BindsAll env w (jv :: L) k := by
  by_cases hlong : 128 < d.name.length
  · have hmem : d ∈ devicesOf (jv :: L) := devicesOf_cons_some hjv ▸ List.mem_cons_self
    exact not_bindsAll_of_unbound hmem hs (Or.inr hlong)
  · rintro ⟨w', flag, hw', -⟩
    have hnone : (w.subdevs i).occupy d.name d.key (some d.secret) = none := by
      rw [← Option.not_isSome_iff_eq_none, occupy_isSome (not_lt.mp hlong)]
      exact fun h => hd ⟨not_lt.mp hlong, h.1, h.2⟩
    rw [eachSubdev, hstep, hnone] at hw'
    cases hw'

variable (env) in
theorem bindsAll_iff (k : ℕ) : BindsAll env w L k ↔
    (w.newcomers (devicesOf L)).length ≤ w.freeSlots.length ∧
      ∀ d ∈ w.newcomers (devicesOf L), d.Contained := by
  induction L generalizing k w with
  | nil =>
    refine iff_of_true ⟨w, false, rfl, fun d hd => absurd hd List.not_mem_nil⟩ ⟨Nat.zero_le _, ?_⟩
    intro d hd
    exact absurd (mem_of_mem_newcomers hd).1 List.not_mem_nil
  | cons jv L ih =>
    cases hjv : jv.device with
    | none =>
      obtain ⟨w₁, hstep, hsub⟩ := addSubdev_of_incomplete env w k hjv
      rw [bindsAll_cons hstep fun d hd => absurd (hjv.symm.trans hd) (by simp), ih (k + 1),
        newcomers_congr hsub, freeSlots_congr hsub, devicesOf_cons_none hjv]
    | some d =>
      rcases addSubdev_cases env w k hjv with ⟨hs, hstep⟩ |
        ⟨hs, hfree, hstep⟩ | ⟨i, free, hs, hfree, hstep⟩
      · rw [bindsAll_cons hstep, ih (k + 1), devicesOf_cons_some hjv, newcomers_of_bound hs]
        rintro d' hd'
        cases hjv.symm.trans hd'
        exact hs
      · have hmem : d ∈ devicesOf (jv :: L) := devicesOf_cons_some hjv ▸ List.mem_cons_self
        refine iff_of_false (not_bindsAll_of_unbound hmem hs (Or.inl hfree)) ?_
        rintro ⟨hroom, -⟩
        obtain ⟨l, hl⟩ := newcomers_head (devicesOf L) hs
        rw [devicesOf_cons_some hjv, hl, hfree, List.length_cons, List.length_nil] at hroom
        omega
      · by_cases hd : d.Contained
        · obtain ⟨sd, hsd⟩ :=
            Option.isSome_iff_exists.mp ((occupy_isSome hd.name).mpr ⟨hd.key, hd.secret⟩)
          rw [hsd, Option.map_some] at hstep
          have hbound : sd.boundName = some d.name := by
            rw [boundName_of_occupy hsd, List.take_of_length_le hd.name]
          have hsub : ((w.setDev i sd).productSubSave i (env.save k)).subdevs =
              Function.update w.subdevs i sd := productSubSave_subdevs ..
          have hnew (name : CStr) :=
            search_setDev_eq_none_iff name (mem_freeSlots_of_cons hfree) hsub
          simp only [hbound, ne_eq, Option.some.injEq] at hnew
          rw [bindsAll_cons hstep, ih (k + 1), devicesOf_cons_some hjv,
            newcomers_of_unbound hs hnew,
            freeSlots_setDev hfree (SubDev.boundName_eq_some_iff.mp hbound).1 hsub, hfree,
            List.length_cons, List.length_cons, List.forall_mem_cons, and_iff_right hd,
            Nat.add_le_add_iff_right]
          rintro d' hd' hno
          cases hjv.symm.trans hd'
          exact ((hnew d.name).mp hno).2 rfl
        · refine iff_of_false (not_bindsAll_of_not_contained hjv hs hd hstep) ?_
          rintro ⟨-, hall⟩
          obtain ⟨l, hl⟩ := newcomers_head (devicesOf L) hs
          rw [devicesOf_cons_some hjv, hl] at hall
          exact hd (hall d List.mem_cons_self)

/-- The code is 0, so it is right exactly when there is room. -/
theorem add_truthful_iff {input : CStr} (hin : requestList env input = .ok L) :
    AddTruthful env w input (devicesOf L) ↔ w.HasRoom (devicesOf L) := by
  have hroom : w.HasRoom (devicesOf L) ↔
      (w.newcomers (devicesOf L)).length ≤ w.freeSlots.length ∧
        ∀ d ∈ w.newcomers (devicesOf L), d.Contained :=
    ⟨fun h => ⟨h.room, h.contained⟩, fun h => ⟨h.1, h.2⟩⟩
  unfold AddTruthful
  rw [hroom, ← bindsAll_iff env 0, gatewayAddSubdev_of_list hin]
  have hsearch (w' : World) (flag : Bool) (name : CStr) :
      (if flag then (w'.send .deviceList).gatewayPostSubdevList else w').bindings name = none ↔
        w'.productSubSearchByName name = none := by
    rw [bindings_eq_none_iff]
    cases flag with
    | false => rfl
    | true => rfl
  constructor
  · rintro ⟨w', ret, hw', hret⟩
    obtain ⟨⟨w₁, flag⟩, hrun, he⟩ := Option.map_eq_some_iff.mp hw'
    cases he
    refine ⟨w₁, flag, hrun, fun d hd => ?_⟩
    rw [ne_eq, ← hsearch w₁ flag]
    exact hret.mp rfl d hd
  · rintro ⟨w₁, flag, hrun, hall⟩
    refine ⟨_, 0, by rw [hrun]; rfl, iff_of_true rfl fun d hd => ?_⟩
    rw [ne_eq, hsearch w₁ flag]
    exact hall d hd

end Adding

section Removing

variable {env : Env} {w w' : World} {L : List Json} {k : ℕ} {name name' : CStr}

theorem mem_carriers {i : Slot} : i ∈ w.carriers name ↔ (w.subdevs i).boundName = some name := by
  simp [carriers]

theorem carriers_eq_empty_iff : w.carriers name = ∅ ↔ w.bindings name = none := by
  rw [bindings_eq_none_iff, search_eq_none_iff, Finset.eq_empty_iff_forall_notMem]
  simp only [mem_carriers, ne_eq]

theorem card_carriers_del {r : SaveResult} : ((w.productSubDel r name).1.carriers name').card =
    (w.carriers name').card - if name = name' then 1 else 0 := by
  cases hs : w.productSubSearchByName name with
  | none =>
    have hsub : (w.productSubDel r name).1.subdevs = w.subdevs := by rw [productSubDel_subdevs, hs]
    have hsame : (w.productSubDel r name).1.carriers name' = w.carriers name' := by
      ext i
      rw [mem_carriers, mem_carriers, hsub]
    rw [hsame]
    split
    · rename_i heq
      subst heq
      rw [carriers_eq_empty_iff.mpr (bindings_eq_none_iff.mpr hs), Finset.card_empty]
    · rfl
  | some i =>
    have hsub : (w.productSubDel r name).1.subdevs = Function.update w.subdevs i .zero := by
      rw [productSubDel_subdevs, hs]
    have herase : (w.productSubDel r name).1.carriers name' = (w.carriers name').erase i := by
      ext j
      rw [Finset.mem_erase, mem_carriers, mem_carriers, hsub]
      by_cases hj : j = i
      · subst hj
        rw [Function.update_self]
        simp [SubDev.boundName, SubDev.zero]
      · rw [Function.update_of_ne hj, and_iff_right hj]
    have hi := boundName_of_search hs
    rw [herase]
    split
    · rename_i heq
      rw [Finset.card_erase_of_mem (mem_carriers.mpr (heq ▸ hi))]
    · rename_i hne
      rw [Finset.erase_eq_of_notMem, Nat.sub_zero]
      rw [mem_carriers, hi, Option.some.injEq]
      exact hne

variable (env w L) in
theorem eachSubdev_del_carriers (k : ℕ) : ∃ w' flag,
    eachSubdev (delSubdev env) k L w = some (w', flag) ∧ ∀ name,
      (w'.carriers name).card =
        (w.carriers name).card - ((devicesOf L).map Device.name).count name := by
  induction L generalizing k w with
  | nil => exact ⟨w, false, rfl, fun name => rfl⟩
  | cons jv L ih =>
    have hcongr {w₁ w₂ : World} (hsub : w₁.subdevs = w₂.subdevs) (name : CStr) :
        (w₁.carriers name).card = (w₂.carriers name).card := by
      unfold carriers
      rw [hsub]
    cases hjv : jv.device with
    | none =>
      obtain ⟨w₁, hstep, hsub⟩ := delSubdev_of_incomplete env w k hjv
      obtain ⟨w', flag, hw', hcard⟩ := ih (w := w₁) (k + 1)
      rw [eachSubdev_cons hstep, hw', devicesOf_cons_none hjv]
      exact ⟨w', _, rfl, fun name => by rw [hcard, hcongr hsub]⟩
    | some d =>
      obtain ⟨w₁, flag₁, hstep, hsub⟩ := delSubdev_of_device env w k hjv
      obtain ⟨w', flag, hw', hcard⟩ := ih (w := w₁) (k + 1)
      rw [eachSubdev_cons hstep, hw', devicesOf_cons_some hjv, List.map_cons]
      refine ⟨w', _, rfl, fun name => ?_⟩
      rw [hcard, hcongr hsub, card_carriers_del, List.count_cons]
      simp only [beq_iff_eq]
      omega

/-- The code is -1, so it is right exactly when a name has more records than elements. -/
theorem del_truthful_iff {input : CStr} (hin : requestList env input = .ok L) :
    DelTruthful env w input (devicesOf L) ↔ w.LeavesBound (devicesOf L) := by
  obtain ⟨w₁, flag, hrun, hcard⟩ := eachSubdev_del_carriers env w L 0
  have hbound (d : Device) :
      (if flag then w₁.gatewayPostSubdevList else w₁).bindings d.name ≠ none ↔
      ((devicesOf L).map Device.name).count d.name < (w.carriers d.name).card := by
    have hname := hcard d.name
    have hempty : (if flag then w₁.gatewayPostSubdevList else w₁).bindings d.name = none ↔
        (w₁.carriers d.name).card = 0 := by
      rw [Finset.card_eq_zero, carriers_eq_empty_iff]
      cases flag with
      | false => rfl
      | true => rfl
    rw [ne_eq, hempty]
    omega
  unfold DelTruthful
  rw [gatewayDelSubdev_of_list hin, hrun, Option.map_some]
  constructor
  · rintro ⟨w', ret, hw', hret⟩
    cases hw'
    by_contra hno
    have hall := hret.mpr fun d hd => by
      by_contra hd'
      exact hno ⟨d, hd, (hbound d).mp hd'⟩
    exact absurd hall (by decide)
  · rintro ⟨d, hd, hlt⟩
    refine ⟨_, -1, rfl, iff_of_false (by decide) fun hall => ?_⟩
    exact (hbound d).mpr hlt (hall d hd)

theorem World.Holds.not_leavesBound {m : Bindings} (h : w.Holds m) (ds : List Device) :
    ¬ w.LeavesBound ds := by
  rintro ⟨d, hd, hlt⟩
  have hone : (w.carriers d.name).card ≤ 1 := by
    rw [Finset.card_le_one]
    intro i hi j hj
    exact h.represents.distinct i j d.name (mem_carriers.mp hi) (mem_carriers.mp hj)
  have hcount : 1 ≤ (ds.map Device.name).count d.name :=
    List.one_le_count_iff.mpr (List.mem_map_of_mem hd)
  omega

end Removing

/-- The code of adding tells what happened exactly when there is room for all newcomers, and that
of removing exactly when it leaves a device of the list bound. -/
theorem truthful_iff (env : Env) (w : World) (input : CStr) {L : List Json}
    (hin : requestList env input = .ok L) :
    (AddTruthful env w input (devicesOf L) ↔ w.HasRoom (devicesOf L)) ∧
      (DelTruthful env w input (devicesOf L) ↔ w.LeavesBound (devicesOf L)) :=
  ⟨add_truthful_iff hin, del_truthful_iff hin⟩

theorem devicesOf_firstElement : devicesOf [firstElement] = [firstListed] := rfl

theorem newcomers_boot : boot.newcomers [firstListed] = [firstListed] := by
  have hno : boot.productSubSearchByName firstListed.name = none := by
    rw [search_eq_none_iff]
    intro i
    rw [SubDev.boundName_eq_none_iff.mpr rfl]
    simp
  rw [newcomers, List.filter_cons_of_pos (by rw [hno]; rfl)]
  rfl

theorem holds_addFirst {w : World} (hw : run tableStep boot [addFirst] = some w) :
    w.Holds w.bindings := by
  have hadmits : ∀ op ∈ [addFirst], ∀ w : World, TableOp.Admits w op := by
    intro op hop _
    obtain rfl := List.mem_singleton.mp hop
    exact ⟨by decide, by decide, by decide⟩
  obtain ⟨m, hm⟩ := holds_of_reachable (fun _ => rfl) (reachable_of_run hw hadmits .start)
  rwa [hm.bindings_eq]

/-- A device that finds room is added, as the answer 0 says, and the answer -1 to its removal is
wrong. -/
theorem truthful_iff_first :
    AddTruthful (.naming [firstElement]) boot [] (devicesOf [firstElement]) ∧ ∃ w,
      run tableStep boot [addFirst] = some w ∧
      ¬ DelTruthful (.naming [firstElement]) w [] (devicesOf [firstElement]) := by
  constructor
  · rw [(truthful_iff _ boot [] (requestList_naming _)).1, devicesOf_firstElement]
    constructor
    · rw [newcomers_boot]
      decide
    · rw [newcomers_boot]
      intro d hd
      obtain rfl := List.mem_singleton.mp hd
      exact ⟨by decide, by decide, by decide⟩
  · obtain ⟨w, hw, -⟩ : ∃ w, run tableStep boot [addFirst] = some w ∧ (w.subdevs 0).use = 1 :=
      Option.map_eq_some_iff.mp (by decide +kernel)
    refine ⟨w, hw, ?_⟩
    rw [(truthful_iff _ w [] (requestList_naming _)).2]
    exact (holds_addFirst hw).not_leavesBound _

/-- A device that is removed gets the answer -1. -/
theorem removed_not_truthful : ∃ w, run tableStep boot [addFirst] = some w ∧
    ¬ DelTruthful (.naming [firstElement]) w [] (devicesOf [firstElement]) := by
  obtain ⟨w, hw, -⟩ : ∃ w, run tableStep boot [addFirst] = some w ∧ (w.subdevs 0).use = 1 :=
    Option.map_eq_some_iff.mp (by decide +kernel)
  refine ⟨w, hw, fun h => ?_⟩
  exact (holds_addFirst hw).not_leavesBound _ ((del_truthful_iff (requestList_naming _)).mp h)

end Afly
