import Mathlib.Data.Fintype.Fin
import Mathlib.Data.List.Intervals
import Afly.Cloud.Properties
import Afly.Table.Bindings

/-! # The list of devices

The lookup by rank reads the record with that number in every round of its
scan. It finds the device of each rank, and the cloud gets the list of all
devices, exactly when the records in use are the first ones of the table.
-/

namespace Afly

open World Reach

/-- The records in use, in the order of the table. -/
def World.inUse (w : World) : List Slot :=
  (List.finRange 40).filter fun i => (w.subdevs i).use ≠ 0

def SubDev.listItem (sd : SubDev) : Json := .obj (Properties.object
  [("deviceName", jsonString sd.deviceName), ("deviceSecret", jsonString sd.deviceSecret),
   ("productKey", jsonString sd.productKey)])

def World.deviceList (w : World) : Json := .arr (w.inUse.map fun i => (w.subdevs i).listItem)

/-- The ranks below the number of devices yield every device once, in order, and both ways to the
cloud carry the list of exactly these devices. -/
structure World.Listed (w : World) : Prop where
  ranks : (List.range w.productSubGetNum).map w.productSubGetI = w.inUse.map some
  posted : w.gatewayPostSubdevList.sdk.calls =
    w.sdk.calls ++ [(.postGateway [("SubDevList", w.deviceList)], true)]
  served : ∀ env gw input, env.jsonLoads input = some (.arr [.str "SubDevList".toList]) →
    ∃ jret, gatewayGetProperty env gw w input = some (0, jret) ∧
      jret.lookup "SubDevList" = some w.deviceList

/-- The records in use are the first ones of the table. -/
def World.Dense (w : World) : Prop :=
  ∀ i : Slot, (w.subdevs i).use ≠ 0 ↔ i.val < w.productSubGetNum

section Ranks

variable {w : World} {i : Slot}

theorem getILoop_eq (n idx : ℕ) : w.getILoop i n idx =
    if (w.subdevs i).use ≠ 0 ∧ idx ≤ i.val ∧ i.val < idx + n then some i else none := by
  induction n generalizing idx with
  | zero =>
    rw [if_neg (by omega)]
    rfl
  | succ n ih =>
    rw [getILoop]
    by_cases hu : (w.subdevs i).use = 0
    · rw [if_pos hu, ih, if_neg (by simp [hu]), if_neg (by simp [hu])]
    · rw [if_neg hu, ih]
      by_cases hidx : idx = i.val
      · rw [if_neg (not_not.mpr hidx), if_pos ⟨hu, hidx.le, by omega⟩]
      · rw [if_pos hidx]
        congr 1
        rw [eq_iff_iff]
        constructor
        · rintro ⟨-, hl, hr⟩
          exact ⟨hu, by omega, by omega⟩
        · rintro ⟨-, hl, hr⟩
          exact ⟨hu, by omega, by omega⟩

theorem productSubGetI_val : w.productSubGetI i.val =
    if i.val < w.productSubGetNum ∧ (w.subdevs i).use ≠ 0 then some i else none := by
  unfold productSubGetI
  rw [dif_pos i.isLt, getILoop_eq]
  have hi := i.isLt
  split_ifs with hn hu hu <;> first | rfl | (exfalso; simp_all)

theorem productSubGetNum_le : w.productSubGetNum ≤ 40 := by
  unfold productSubGetNum
  exact (Finset.card_le_univ _).trans_eq (Fintype.card_fin 40)

theorem inUse_of_dense (h : w.Dense) :
    w.inUse = (List.finRange 40).filter fun i => i.val < w.productSubGetNum := by
  unfold inUse
  apply List.filter_congr
  intro i _
  rw [decide_eq_decide]
  exact h i

theorem map_val_inUse (h : w.Dense) : w.inUse.map Fin.val = List.range w.productSubGetNum := by
  have hmap : ((List.finRange 40).map Fin.val).filter (· < w.productSubGetNum) =
      ((List.finRange 40).filter fun i => i.val < w.productSubGetNum).map Fin.val :=
    List.filter_map
  rw [inUse_of_dense h, ← hmap, List.map_coe_finRange_eq_range, ← List.Ico.zero_bot,
    List.Ico.filter_lt, min_eq_right productSubGetNum_le, List.Ico.zero_bot]

theorem ranks_of_dense (h : w.Dense) :
    (List.range w.productSubGetNum).map w.productSubGetI = w.inUse.map some := by
  rw [← map_val_inUse h, List.map_map]
  apply List.map_congr_left
  intro i hi
  have hu : (w.subdevs i).use ≠ 0 := of_decide_eq_true (List.mem_filter.mp hi).2
  rw [Function.comp_apply, productSubGetI_val, if_pos ⟨(h i).mp hu, hu⟩]

theorem dense_of_ranks
    (h : (List.range w.productSubGetNum).map w.productSubGetI = w.inUse.map some) : w.Dense := by
  have hbelow (i : Slot) (hi : i.val < w.productSubGetNum) : (w.subdevs i).use ≠ 0 := by
    have hm : w.productSubGetI i.val ∈ w.inUse.map some :=
      h ▸ List.mem_map_of_mem (List.mem_range.mpr hi)
    obtain ⟨k, -, hk⟩ := List.mem_map.mp hm
    rw [productSubGetI_val] at hk
    by_contra hu
    rw [if_neg fun hc => hc.2 hu] at hk
    cases hk
  have hcard : (Finset.univ.filter fun i : Slot => i.val < w.productSubGetNum) =
      Finset.univ.filter fun i => (w.subdevs i).use ≠ 0 := by
    apply Finset.eq_of_subset_of_card_le
    · intro i hi
      simp only [Finset.mem_filter, Finset.mem_univ, true_and] at hi ⊢
      exact hbelow i hi
    · rw [Fin.card_filter_val_lt, min_eq_right productSubGetNum_le]
      exact le_rfl
  intro i
  have hi := Finset.ext_iff.mp hcard i
  simp only [Finset.mem_filter, Finset.mem_univ, true_and] at hi
  exact hi.symm

theorem subDevList_of_dense (h : w.Dense) : w.subDevList = [("SubDevList", w.deviceList)] := by
  have hitems : ((List.range w.productSubGetNum).filterMap fun i =>
      (w.productSubGetI i).map fun j => (w.subdevs j).listItem) =
        w.inUse.map fun i => (w.subdevs i).listItem := by
    calc _ = ((List.range w.productSubGetNum).map w.productSubGetI).filterMap
          fun r => r.map fun j => (w.subdevs j).listItem := List.filterMap_map.symm
      _ = (w.inUse.map some).filterMap fun r => r.map fun j => (w.subdevs j).listItem := by
        rw [ranks_of_dense h]
      _ = _ := by rw [List.filterMap_map]; exact congrFun List.filterMap_eq_map _
  unfold subDevList deviceList
  rw [← hitems]
  rfl

end Ranks

/-- The lookup by rank yields every device once and in order, and the cloud gets the list of
exactly the registered devices, if and only if the records in use are the first ones. -/
theorem listed_iff_dense (w : World) : w.Listed ↔ w.Dense := by
  constructor
  · intro h
    exact dense_of_ranks h.ranks
  · intro h
    have hlist := subDevList_of_dense h
    refine ⟨ranks_of_dense h, ?_, ?_⟩
    · unfold gatewayPostSubdevList
      rw [hlist]
      rfl
    · intro env gw input hin
      apply getProperty_single hin
      simp [gatewayProperties, hlist]

def addSecond : TableOp :=
  .add "00158d00026c540a".toList firstDevice.productKey (some firstDevice.deviceSecret)

/-- Two devices are added and the first is removed: the one device left is not listed. -/
theorem listed_fails : ∃ w, run tableStep boot
    [addFirst, addSecond, .del firstDevice.deviceName] = some w ∧ ¬ w.Listed := by
  obtain ⟨w, hw, hu⟩ : ∃ w, run tableStep boot
      [addFirst, addSecond, .del firstDevice.deviceName] = some w ∧
      (w.productSubGetNum, (w.subdevs 0).use) = (1, 0) :=
    Option.map_eq_some_iff.mp (by decide +kernel)
  simp only [Prod.mk.injEq] at hu
  refine ⟨w, hw, ?_⟩
  intro hl
  have hd := (dense_of_ranks hl.ranks 0).mpr (by rw [hu.1]; decide)
  exact hd hu.2

end Afly
