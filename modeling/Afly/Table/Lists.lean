import Afly.Table.Bindings

/-! # Lists of devices

The services `AddSubDev` and `DelSubDev` walk through a list. The devices that
are not bound yet, each name once, take the free records in order, and those for
which no record is left are passed over. Nothing else of the table changes. So a
second pass finds nothing to do, and removing what was added frees the records
that were taken.
-/

namespace Afly

open World Reach Directory

structure Device where
  name : CStr
  key : CStr
  secret : CStr

def Json.device (jv : Json) : Option Device := do
  let name ← jsonGetString jv "deviceName"
  let secret ← jsonGetString jv "deviceSecret"
  let key ← jsonGetString jv "productKey"
  some ⟨name, key, secret⟩

/-- The record of a device that was just added. -/
def Device.record (d : Device) : SubDev := .fresh d.name d.key (some d.secret)

def devicesOf (L : List Json) : List Device := L.filterMap Json.device

namespace World

/-- The free records, in the order of the table. -/
def freeSlots (w : World) : List Slot := (List.finRange 40).filter fun i => (w.subdevs i).use = 0

/-- The devices whose name is not bound. Of a repeated name the first one counts. -/
def newcomers (w : World) (ds : List Device) : List Device :=
  (ds.filter fun d => (w.productSubSearchByName d.name).isNone).eraseDupsBy fun d d' =>
    d.name = d'.name

end World

/-- The slots hold the devices that they are paired with, and the others what they held. -/
structure Placed (t t' : Slot → SubDev) (l : List (Slot × Device)) : Prop where
  placed : ∀ p ∈ l, t' p.1 = p.2.record
  kept : ∀ i, i ∉ l.map Prod.fst → t' i = t i

section FirstOccurrences

variable {α : Type*} {r : α → α → Bool} {l : List α} {a : α}

theorem eraseDupsBy_induction {P : List α → Prop} (nil : P [])
    (cons : ∀ a l, P (l.filter fun b => r b a = false) → P (a :: l)) (l : List α) : P l := by
  induction hn : l.length using Nat.strong_induction_on generalizing l with
  | _ n ih =>
    cases l with
    | nil => exact nil
    | cons a l =>
      apply cons
      refine ih _ ?_ _ rfl
      have hle := List.length_filter_le (fun b => decide (r b a = false)) l
      rw [List.length_cons] at hn
      omega

theorem mem_of_mem_eraseDupsBy (h : a ∈ l.eraseDupsBy r) : a ∈ l := by
  induction l using eraseDupsBy_induction (r := r) with
  | nil => exact h
  | cons b l ih =>
    rw [List.eraseDupsBy_cons, List.mem_cons] at h
    rcases h with rfl | h
    · exact List.mem_cons_self
    · exact List.mem_cons_of_mem _ (List.mem_filter.mp (ih h)).1

theorem exists_mem_eraseDupsBy (hrefl : ∀ a, r a a = true) (h : a ∈ l) :
    ∃ b ∈ l.eraseDupsBy r, r a b = true := by
  induction l using eraseDupsBy_induction (r := r) with
  | nil => cases h
  | cons b l ih =>
    rw [List.eraseDupsBy_cons]
    cases hab : r a b with
    | true => exact ⟨b, List.mem_cons_self, hab⟩
    | false =>
      have hmem : a ∈ l.filter fun c => r c b = false := by
        rw [List.mem_filter, decide_eq_true_eq]
        refine ⟨(List.mem_cons.mp h).resolve_left ?_, hab⟩
        rintro rfl
        rw [hrefl] at hab
        cases hab
      obtain ⟨c, hc, hac⟩ := ih hmem
      exact ⟨c, List.mem_cons_of_mem _ hc, hac⟩

end FirstOccurrences

section Search

variable {w w' : World} {ds : List Device} {d : Device} {name : CStr} {i : Slot} {sd : SubDev}
  {free : List Slot}

theorem malloc_eq_head (w : World) : w.productSubMalloc = w.freeSlots.head? := by
  rw [productSubMalloc, freeSlots, List.head?_filter, Fin.find?_eq_find?_finRange]

theorem mem_freeSlots : i ∈ w.freeSlots ↔ (w.subdevs i).use = 0 := by
  simp [freeSlots]

theorem nodup_freeSlots (w : World) : w.freeSlots.Nodup := (List.nodup_finRange 40).filter _

theorem freeSlots_setDev (hfree : w.freeSlots = i :: free) (hu : sd.use ≠ 0)
    (hw : w'.subdevs = Function.update w.subdevs i sd) : w'.freeSlots = free := by
  have hnodup := nodup_freeSlots w
  have herase : w'.freeSlots = w.freeSlots.filter (· ≠ i) := by
    unfold freeSlots
    rw [hw, List.filter_filter]
    apply List.filter_congr
    intro j _
    by_cases hj : j = i
    · subst hj
      simp [hu]
    · simp [hj]
  rw [hfree] at hnodup
  rw [herase, hfree, List.filter_cons_of_neg (by simp), List.filter_eq_self]
  intro j hj
  rw [decide_eq_true_eq]
  rintro rfl
  exact (List.nodup_cons.mp hnodup).1 hj

variable (name) in
theorem search_setDev_eq_none_iff (hi : (w.subdevs i).use = 0)
    (hw : w'.subdevs = Function.update w.subdevs i sd) :
    w'.productSubSearchByName name = none ↔
      w.productSubSearchByName name = none ∧ sd.boundName ≠ some name := by
  rw [search_eq_none_iff, search_eq_none_iff, hw]
  constructor
  · intro h
    constructor
    · intro j
      by_cases hj : j = i
      · subst hj
        rw [SubDev.boundName_eq_none_iff.mpr hi]
        simp
      · have hother := h j
        rwa [Function.update_of_ne hj] at hother
    · have hself := h i
      rwa [Function.update_self] at hself
  · rintro ⟨hold, hnew⟩ j
    by_cases hj : j = i
    · subst hj
      rwa [Function.update_self]
    · rw [Function.update_of_ne hj]
      exact hold j

theorem newcomers_of_bound (h : w.productSubSearchByName d.name ≠ none) :
    w.newcomers (d :: ds) = w.newcomers ds := by
  rw [newcomers, newcomers, List.filter_cons_of_neg]
  rw [Option.isNone_iff_eq_none]
  exact h

theorem newcomers_of_unbound (h : w.productSubSearchByName d.name = none)
    (hw : ∀ name, w'.productSubSearchByName name = none ↔
      w.productSubSearchByName name = none ∧ d.name ≠ name) :
    w.newcomers (d :: ds) = d :: w'.newcomers ds := by
  rw [newcomers, newcomers, List.filter_cons_of_pos (by rw [h]; rfl), List.eraseDupsBy_cons,
    List.filter_filter]
  congr 2
  apply List.filter_congr
  intro d' _
  rw [Bool.eq_iff_iff, Bool.and_eq_true, decide_eq_true_eq, Option.isNone_iff_eq_none,
    Option.isNone_iff_eq_none, hw, and_comm]
  simp [eq_comm]

theorem mem_of_mem_newcomers (h : d ∈ w.newcomers ds) :
    d ∈ ds ∧ w.productSubSearchByName d.name = none := by
  obtain ⟨hmem, hnone⟩ := List.mem_filter.mp (mem_of_mem_eraseDupsBy h)
  exact ⟨hmem, Option.isNone_iff_eq_none.mp hnone⟩

theorem exists_newcomer (hd : d ∈ ds) (hno : w.productSubSearchByName d.name = none) :
    ∃ d' ∈ w.newcomers ds, d'.name = d.name := by
  have hmem : d ∈ ds.filter fun d => (w.productSubSearchByName d.name).isNone := by
    rw [List.mem_filter, hno]
    exact ⟨hd, rfl⟩
  obtain ⟨d', hd', hname⟩ := exists_mem_eraseDupsBy
    (r := fun d d' : Device => decide (d.name = d'.name)) (fun _ => decide_eq_true rfl) hmem
  exact ⟨d', hd', (of_decide_eq_true hname).symm⟩

end Search

section Elements

variable {item : ℕ → World → Json → Option (World × Bool)} {w w₁ w' : World} {L : List Json}
  {jv : Json} {k : ℕ} {flag : Bool}

theorem eachSubdev_cons (h : item k w jv = some (w₁, flag)) : eachSubdev item k (jv :: L) w =
    (eachSubdev item (k + 1) L w₁).map fun r => (r.1, flag || r.2) := by
  rw [eachSubdev, h]
  cases hrest : eachSubdev item (k + 1) L w₁ with
  | none => simp [hrest]
  | some r => simp [hrest]

theorem devicesOf_cons_none (h : jv.device = none) : devicesOf (jv :: L) = devicesOf L :=
  List.filterMap_cons_none h

theorem devicesOf_cons_some {d : Device} (h : jv.device = some d) :
    devicesOf (jv :: L) = d :: devicesOf L :=
  List.filterMap_cons_some h

theorem freeSlots_congr (h : w'.subdevs = w.subdevs) : w'.freeSlots = w.freeSlots := by
  unfold freeSlots
  rw [h]

theorem newcomers_congr (h : w'.subdevs = w.subdevs) (ds : List Device) :
    w'.newcomers ds = w.newcomers ds := by
  unfold newcomers
  simp only [productSubSearchByName_subdevs h]

end Elements

section Adding

variable {env : Env} {w w' : World} {m : Bindings} {L : List Json} {jv : Json} {d : Device}
  {k : ℕ} {i : Slot} {free : List Slot}

variable (env w k) in
theorem addSubdev_of_incomplete (h : jv.device = none) :
    ∃ w', addSubdev env k w jv = some (w', false) ∧ w'.subdevs = w.subdevs := by
  unfold Json.device at h
  unfold addSubdev
  cases hname : jsonGetString jv "deviceName" with
  | none => exact ⟨w, rfl, rfl⟩
  | some name =>
    cases hsecret : jsonGetString jv "deviceSecret" with
    | none =>
      cases jsonGetString jv "productKey" with
      | none => exact ⟨_, rfl, rfl⟩
      | some key => exact ⟨w, rfl, rfl⟩
    | some secret =>
      cases hkey : jsonGetString jv "productKey" with
      | none => exact ⟨w, rfl, rfl⟩
      | some key => simp [hname, hsecret, hkey] at h

theorem productSubAdd_of_full {name key : CStr} {secret : Option CStr} {r : SaveResult}
    (hs : w.productSubSearchByName name = none) (hfree : w.freeSlots = []) :
    w.productSubAdd r name key secret = some (w, -1) := by
  have hmalloc : w.productSubMalloc = none := by rw [malloc_eq_head, hfree, List.head?_nil]
  unfold productSubAdd
  rw [hs]
  dsimp only
  rw [hmalloc]

theorem productSubAdd_of_free {name key : CStr} {secret : Option CStr} {r : SaveResult}
    (hs : w.productSubSearchByName name = none) (hfree : w.freeSlots = i :: free) :
    w.productSubAdd r name key secret = ((w.subdevs i).occupy name key secret).map
      fun sd => ((w.setDev i sd).productSubSave i r, r.ret) := by
  have hmalloc : w.productSubMalloc = some i := by rw [malloc_eq_head, hfree, List.head?_cons]
  unfold productSubAdd
  rw [hs]
  dsimp only
  rw [hmalloc]

variable (env w k) in
theorem addSubdev_cases (h : jv.device = some d) :
    (w.productSubSearchByName d.name ≠ none ∧ addSubdev env k w jv = some (w, false)) ∨
    (w.productSubSearchByName d.name = none ∧ w.freeSlots = [] ∧
      addSubdev env k w jv = some (w, false)) ∨
    ∃ i free, w.productSubSearchByName d.name = none ∧ w.freeSlots = i :: free ∧
      addSubdev env k w jv = ((w.subdevs i).occupy d.name d.key (some d.secret)).map fun sd =>
        ((w.setDev i sd).productSubSave i (env.save k), decide ((env.save k).ret = 0)) := by
  obtain ⟨name, hname, h⟩ := Option.bind_eq_some_iff.mp h
  obtain ⟨secret, hsecret, h⟩ := Option.bind_eq_some_iff.mp h
  obtain ⟨key, hkey, h⟩ := Option.bind_eq_some_iff.mp h
  cases h
  by_cases hs : w.productSubSearchByName name = none
  · have hadd : addSubdev env k w jv = (w.productSubAdd (env.save k) name key (some secret)).map
        fun r => (r.1, decide (r.2 = 0)) := by
      simp only [addSubdev, hname, hsecret, hkey, hs]
    right
    rw [hadd]
    cases hfree : w.freeSlots with
    | nil =>
      refine Or.inl ⟨hs, rfl, ?_⟩
      rw [productSubAdd_of_full hs hfree]
      rfl
    | cons i free =>
      refine Or.inr ⟨i, free, hs, rfl, ?_⟩
      rw [productSubAdd_of_free hs hfree, Option.map_map]
      rfl
  · obtain ⟨j, hj⟩ := Option.ne_none_iff_exists'.mp hs
    refine Or.inl ⟨hs, ?_⟩
    simp only [addSubdev, hname, hsecret, hkey, hj]

/-- The strings of a device fit the arrays of a record. -/
def Device.Fits (d : Device) : Prop := FitsRecord d.name d.key (some d.secret)

theorem Placed.nil (h : w'.subdevs = w.subdevs) : Placed w.subdevs w'.subdevs [] := by
  rw [h]
  exact ⟨fun p hp => absurd hp List.not_mem_nil, fun _ _ => rfl⟩

theorem Placed.cons {t t' : Slot → SubDev} {l : List (Slot × Device)}
    (h : Placed (Function.update t i d.record) t' l) (hi : i ∉ l.map Prod.fst) :
    Placed t t' ((i, d) :: l) where
  placed := by
    intro p hp
    rcases List.mem_cons.mp hp with rfl | hp
    · rw [h.kept _ hi, Function.update_self]
    · exact h.placed p hp
  kept := by
    intro j hj
    rw [List.map_cons, List.mem_cons, not_or] at hj
    rw [h.kept j hj.2, Function.update_of_ne hj.1]

theorem use_record (d : Device) : d.record.use ≠ 0 := one_ne_zero

theorem boundName_record (d : Device) : d.record.boundName = some d.name := rfl

theorem World.Holds.insert (h : w.Holds m) (hs : w.productSubSearchByName d.name = none)
    (hi : w.subdevs i = .zero) (hw : w'.subdevs = Function.update w.subdevs i d.record) :
    w'.Holds (Function.update m d.name (some d.record)) where
  represents := by
    rw [hw]
    exact h.represents.insert (by rw [hi]; rfl)
      (h.represents.eq_none_iff.mpr (search_eq_none_iff.mp hs)) rfl
  free := by
    rw [hw]
    exact free_update h.free fun hu => absurd hu (use_record d)

variable (env) in
theorem eachSubdev_add (h : w.Holds m) (hfits : ∀ d ∈ devicesOf L, d.Fits) (k : ℕ) :
    ∃ w' flag, eachSubdev (addSubdev env) k L w = some (w', flag) ∧ (∃ m', w'.Holds m') ∧
      Placed w.subdevs w'.subdevs (w.freeSlots.zip (w.newcomers (devicesOf L))) := by
  induction L generalizing k w m with
  | nil =>
    refine ⟨w, false, rfl, ⟨m, h⟩, ?_⟩
    rw [devicesOf, List.filterMap_nil, newcomers, List.filter_nil, List.eraseDupsBy_nil,
      List.zip_nil_right]
    exact .nil rfl
  | cons jv L ih =>
    have hrun {w₁ : World} {flag₁ : Bool} {l : List (Slot × Device)}
        (hstep : addSubdev env k w jv = some (w₁, flag₁))
        (hrest : ∃ w' flag, eachSubdev (addSubdev env) (k + 1) L w₁ = some (w', flag) ∧
          (∃ m', w'.Holds m') ∧ Placed w.subdevs w'.subdevs l) :
        ∃ w' flag, eachSubdev (addSubdev env) k (jv :: L) w = some (w', flag) ∧
          (∃ m', w'.Holds m') ∧ Placed w.subdevs w'.subdevs l := by
      obtain ⟨w', flag, hw', hplaced⟩ := hrest
      refine ⟨w', flag₁ || flag, ?_, hplaced⟩
      rw [eachSubdev_cons hstep, hw']
      rfl
    cases hjv : jv.device with
    | none =>
      rw [devicesOf_cons_none hjv] at hfits ⊢
      obtain ⟨w₁, hstep, hsub⟩ := addSubdev_of_incomplete env w k hjv
      apply hrun hstep
      rw [← hsub, ← freeSlots_congr hsub, ← newcomers_congr hsub]
      exact ih (h.of_subdevs hsub) hfits (k + 1)
    | some d =>
      rw [devicesOf_cons_some hjv] at hfits ⊢
      have htail : ∀ d ∈ devicesOf L, d.Fits := fun d' hd' => hfits d' (List.mem_cons_of_mem _ hd')
      rcases addSubdev_cases env w k hjv with ⟨hs, hstep⟩ |
        ⟨hs, hfree, hstep⟩ | ⟨i, free, hs, hfree, hstep⟩
      · apply hrun hstep
        rw [newcomers_of_bound hs]
        exact ih h htail (k + 1)
      · apply hrun hstep
        have hrest := ih h htail (k + 1)
        rw [hfree, List.zip_nil_left] at hrest ⊢
        exact hrest
      · have hi : i ∈ w.freeSlots := by
          rw [hfree]
          exact List.mem_cons_self
        have hzero := h.free i (mem_freeSlots.mp hi)
        rw [hzero, SubDev.occupy_of_fits (hfits d List.mem_cons_self), Option.map_some] at hstep
        apply hrun hstep
        have hsub : ((w.setDev i d.record).productSubSave i (env.save k)).subdevs =
            Function.update w.subdevs i d.record := productSubSave_subdevs ..
        have hnew (name : CStr) :=
          search_setDev_eq_none_iff name (mem_freeSlots.mp hi) hsub
        simp only [boundName_record, ne_eq, Option.some.injEq] at hnew
        have hnodup := nodup_freeSlots w
        rw [hfree] at hnodup
        rw [newcomers_of_unbound hs hnew, hfree, List.zip_cons_cons]
        obtain ⟨w', flag, hw', hholds, hplaced⟩ := ih (h.insert hs hzero hsub) htail (k + 1)
        rw [freeSlots_setDev hfree (use_record d) hsub, hsub] at hplaced
        refine ⟨w', flag, hw', hholds, hplaced.cons fun hmem => ?_⟩
        obtain ⟨⟨j, d'⟩, hp, rfl⟩ := List.mem_map.mp hmem
        exact (List.nodup_cons.mp hnodup).1 (List.of_mem_zip hp).1

theorem gatewayAddSubdev_of_list {input : CStr} (hin : requestList env input = .ok L) :
    w.gatewayAddSubdev env input = (eachSubdev (addSubdev env) 0 L w).map fun r =>
      (if r.2 then (r.1.send .deviceList).gatewayPostSubdevList else r.1, 0) := by
  rw [gatewayAddSubdev, hin]

theorem gatewayAddSubdev_placed {input : CStr} (hin : requestList env input = .ok L)
    (h : w.Holds m) (hfits : ∀ d ∈ devicesOf L, d.Fits) :
    ∃ w', w.gatewayAddSubdev env input = some (w', 0) ∧ (∃ m', w'.Holds m') ∧
      Placed w.subdevs w'.subdevs (w.freeSlots.zip (w.newcomers (devicesOf L))) := by
  obtain ⟨w', flag, hw', hholds, hplaced⟩ := eachSubdev_add env h hfits 0
  refine ⟨_, by rw [gatewayAddSubdev_of_list hin, hw', Option.map_some], ?_⟩
  cases flag with
  | false => exact ⟨hholds, hplaced⟩
  | true =>
    obtain ⟨m', hm'⟩ := hholds
    exact ⟨⟨m', hm'.of_subdevs rfl⟩, hplaced⟩

end Adding

section Removing

variable {env : Env} {w w' : World} {m : Bindings} {L : List Json} {jv : Json} {d : Device} {k : ℕ}

/-- The records with one of the names are erased, and the others stay. -/
structure Removed (t t' : Slot → SubDev) (names : List CStr) : Prop where
  erased : ∀ i, ∀ name ∈ names, (t i).boundName = some name → t' i = .zero
  kept : ∀ i, (∀ name ∈ names, (t i).boundName ≠ some name) → t' i = t i

variable (env w k) in
theorem delSubdev_of_incomplete (h : jv.device = none) :
    ∃ w', delSubdev env k w jv = some (w', false) ∧ w'.subdevs = w.subdevs := by
  unfold Json.device at h
  unfold delSubdev
  cases hname : jsonGetString jv "deviceName" with
  | none => exact ⟨w, rfl, rfl⟩
  | some name =>
    cases hsecret : jsonGetString jv "deviceSecret" with
    | none =>
      cases jsonGetString jv "productKey" with
      | none => exact ⟨_, rfl, rfl⟩
      | some key => exact ⟨w, rfl, rfl⟩
    | some secret =>
      cases hkey : jsonGetString jv "productKey" with
      | none => exact ⟨w, rfl, rfl⟩
      | some key => simp [hname, hsecret, hkey] at h

variable (env w k) in
theorem delSubdev_of_device (h : jv.device = some d) : ∃ w' flag,
    delSubdev env k w jv = some (w', flag) ∧
      w'.subdevs = (w.productSubDel (env.save k) d.name).1.subdevs := by
  obtain ⟨name, hname, h⟩ := Option.bind_eq_some_iff.mp h
  obtain ⟨secret, hsecret, h⟩ := Option.bind_eq_some_iff.mp h
  obtain ⟨key, hkey, h⟩ := Option.bind_eq_some_iff.mp h
  cases h
  unfold delSubdev
  rw [hname, hsecret, hkey]
  cases hs : w.productSubSearchByName name with
  | none =>
    refine ⟨w, false, by dsimp only; rw [hs], ?_⟩
    rw [productSubDel_subdevs, hs]
  | some i => exact ⟨_, true, by dsimp only; rw [hs], rfl⟩

theorem Removed.cons {r : SaveResult} {name : CStr} {names : List CStr} {t' : Slot → SubDev}
    (h : w.Holds m) (hr : Removed (w.productSubDel r name).1.subdevs t' names) :
    Removed w.subdevs t' (name :: names) := by
  have hself (i : Slot) (hi : (w.subdevs i).boundName = some name) :
      (w.productSubDel r name).1.subdevs i = .zero := by
    rw [productSubDel_subdevs, h.search_eq_some_iff.mpr hi]
    exact Function.update_self ..
  have hother (i : Slot) (hi : (w.subdevs i).boundName ≠ some name) :
      (w.productSubDel r name).1.subdevs i = w.subdevs i := by
    rw [productSubDel_subdevs]
    cases hs : w.productSubSearchByName name with
    | none => rfl
    | some j =>
      apply Function.update_of_ne
      rintro rfl
      exact hi (boundName_of_search hs)
  constructor
  · intro i name' hname' hi
    by_cases heq : name' = name
    · subst heq
      rw [hr.kept i, hself i hi]
      intro name'' _
      rw [hself i hi]
      simp [SubDev.boundName, SubDev.zero]
    · have hne : (w.subdevs i).boundName ≠ some name := by
        rw [hi]
        simpa using heq
      apply hr.erased i name' ((List.mem_cons.mp hname').resolve_left heq)
      rw [hother i hne, hi]
  · intro i hno
    have hi := hother i (hno name List.mem_cons_self)
    rw [hr.kept i, hi]
    intro name' hname'
    rw [hi]
    exact hno name' (List.mem_cons_of_mem _ hname')

variable (env) in
theorem eachSubdev_del (h : w.Holds m) (k : ℕ) :
    ∃ w' flag, eachSubdev (delSubdev env) k L w = some (w', flag) ∧
      Removed w.subdevs w'.subdevs ((devicesOf L).map Device.name) := by
  induction L generalizing k w m with
  | nil =>
    refine ⟨w, false, rfl, fun i name hname => absurd hname List.not_mem_nil, fun _ _ => rfl⟩
  | cons jv L ih =>
    cases hjv : jv.device with
    | none =>
      obtain ⟨w₁, hstep, hsub⟩ := delSubdev_of_incomplete env w k hjv
      obtain ⟨w', flag, hw', hremoved⟩ := ih (h.of_subdevs hsub) (k + 1)
      rw [hsub] at hremoved
      rw [eachSubdev_cons hstep, hw', devicesOf_cons_none hjv]
      exact ⟨w', _, rfl, hremoved⟩
    | some d =>
      obtain ⟨w₁, flag₁, hstep, hsub⟩ := delSubdev_of_device env w k hjv
      have hholds : w₁.Holds (Function.update m d.name none) :=
        (del_holds h).of_subdevs (by rw [hsub, productSubDel_subdevs, productSubDel_subdevs])
      obtain ⟨w', flag, hw', hremoved⟩ := ih hholds (k + 1)
      rw [eachSubdev_cons hstep, hw', devicesOf_cons_some hjv, List.map_cons]
      refine ⟨w', _, rfl, Removed.cons (r := env.save k) h ?_⟩
      rwa [hsub] at hremoved

theorem gatewayDelSubdev_of_list {input : CStr} (hin : requestList env input = .ok L) :
    w.gatewayDelSubdev env input = (eachSubdev (delSubdev env) 0 L w).map fun r =>
      (if r.2 then r.1.gatewayPostSubdevList else r.1, -1) := by
  rw [gatewayDelSubdev, hin]

theorem gatewayDelSubdev_removed {input : CStr} (hin : requestList env input = .ok L)
    (h : w.Holds m) : ∃ w', w.gatewayDelSubdev env input = some (w', -1) ∧
      Removed w.subdevs w'.subdevs ((devicesOf L).map Device.name) := by
  obtain ⟨w', flag, hw', hremoved⟩ := eachSubdev_del env h 0
  refine ⟨_, by rw [gatewayDelSubdev_of_list hin, hw', Option.map_some], ?_⟩
  cases flag with
  | false => exact hremoved
  | true => exact hremoved

end Removing

section Laws

variable {w w' : World} {m m' : Bindings} {ds : List Device} {d : Device} {i : Slot} {name : CStr}
  {sd : SubDev}

theorem use_of_mem_zip (h : i ∈ (w.freeSlots.zip (w.newcomers ds)).map Prod.fst) :
    (w.subdevs i).use = 0 := by
  obtain ⟨⟨j, d⟩, hp, rfl⟩ := List.mem_map.mp h
  exact mem_freeSlots.mp (List.of_mem_zip hp).1

theorem kept_of_placed
    (hp : Placed w.subdevs w'.subdevs (w.freeSlots.zip (w.newcomers ds)))
    (hi : (w.subdevs i).use ≠ 0) : w'.subdevs i = w.subdevs i :=
  hp.kept i fun hmem => hi (use_of_mem_zip hmem)

theorem World.Holds.bindings_eq_some_iff (h : w.Holds m) : w.bindings name = some sd ↔
    ∃ i, w.subdevs i = sd ∧ (w.subdevs i).boundName = some name := by
  rw [h.bindings_eq]
  constructor
  · intro hm
    obtain ⟨i, rfl, hi⟩ := h.represents.found name sd hm
    exact ⟨i, rfl, hi⟩
  · rintro ⟨i, rfl, hi⟩
    exact h.represents.listed i name hi

theorem bindings_eq_none_iff : w.bindings name = none ↔ w.productSubSearchByName name = none := by
  rw [bindings, Option.map_eq_none_iff]

theorem exists_mem_zip_iff {α β : Type*} {l : List α} {l' : List β} {b : β} :
    (∃ a, (a, b) ∈ l.zip l') ↔ b ∈ l'.take l.length := by
  induction l generalizing l' with
  | nil => simp
  | cons a l ih =>
    cases l' with
    | nil => simp
    | cons b' l' =>
      rw [List.length_cons, List.take_succ_cons, List.mem_cons, ← ih, List.zip_cons_cons]
      simp only [List.mem_cons, Prod.mk.injEq, exists_or, exists_eq_left]

theorem bindings_of_placed (h : w.Holds m) (h' : w'.Holds m')
    (hp : Placed w.subdevs w'.subdevs (w.freeSlots.zip (w.newcomers ds))) (name : CStr)
    (sd : SubDev) : w'.bindings name = some sd ↔ w.bindings name = some sd ∨
      ∃ d ∈ (w.newcomers ds).take w.freeSlots.length, d.name = name ∧ d.record = sd := by
  rw [h.bindings_eq_some_iff, h'.bindings_eq_some_iff]
  constructor
  · rintro ⟨i, rfl, hi⟩
    by_cases hmem : i ∈ (w.freeSlots.zip (w.newcomers ds)).map Prod.fst
    · obtain ⟨⟨j, d⟩, hd, rfl⟩ := List.mem_map.mp hmem
      rw [hp.placed _ hd, boundName_record] at hi
      rw [hp.placed _ hd]
      exact Or.inr ⟨d, exists_mem_zip_iff.mp ⟨j, hd⟩, Option.some.inj hi, rfl⟩
    · rw [hp.kept i hmem] at hi ⊢
      exact Or.inl ⟨i, rfl, hi⟩
  · rintro (⟨i, rfl, hi⟩ | ⟨d, hd, rfl, rfl⟩)
    · have hkept := kept_of_placed hp (SubDev.boundName_eq_some_iff.mp hi).1
      exact ⟨i, hkept, by rw [hkept, hi]⟩
    · obtain ⟨i, hi⟩ := exists_mem_zip_iff.mpr hd
      exact ⟨i, hp.placed _ hi, by rw [hp.placed _ hi, boundName_record]⟩

theorem full_or_bound (hp : Placed w.subdevs w'.subdevs (w.freeSlots.zip (w.newcomers ds))) :
    w'.freeSlots = [] ∨ w'.newcomers ds = [] := by
  rcases le_total w.freeSlots.length (w.newcomers ds).length with hlen | hlen
  · left
    rw [List.eq_nil_iff_forall_not_mem]
    intro i hi
    rw [mem_freeSlots] at hi
    by_cases hmem : i ∈ w.freeSlots
    · rw [← List.map_fst_zip hlen] at hmem
      obtain ⟨p, hd, rfl⟩ := List.mem_map.mp hmem
      rw [hp.placed p hd] at hi
      exact use_record p.2 hi
    · rw [mem_freeSlots] at hmem
      rw [kept_of_placed hp hmem] at hi
      exact hmem hi
  · right
    rw [List.eq_nil_iff_forall_not_mem]
    intro d hd
    obtain ⟨hmem, hno⟩ := mem_of_mem_newcomers hd
    rw [search_eq_none_iff] at hno
    cases hs : w.productSubSearchByName d.name with
    | some i =>
      apply hno i
      rw [kept_of_placed hp (use_of_search hs)]
      exact boundName_of_search hs
    | none =>
      obtain ⟨d', hd', hname⟩ := exists_newcomer hmem hs
      rw [← List.map_snd_zip hlen] at hd'
      obtain ⟨p, hpair, rfl⟩ := List.mem_map.mp hd'
      apply hno p.1
      rw [hp.placed p hpair, boundName_record, hname]

theorem placed_again {w'' : World}
    (hp : Placed w.subdevs w'.subdevs (w.freeSlots.zip (w.newcomers ds)))
    (hp' : Placed w'.subdevs w''.subdevs (w'.freeSlots.zip (w'.newcomers ds))) :
    w''.subdevs = w'.subdevs := by
  have hnil : w'.freeSlots.zip (w'.newcomers ds) = [] := by
    rcases full_or_bound hp with hfull | hbound
    · rw [hfull, List.zip_nil_left]
    · rw [hbound, List.zip_nil_right]
  funext i
  rw [hnil] at hp'
  exact hp'.kept i List.not_mem_nil

theorem removed_of_placed {w'' : World} (h : w.Holds m)
    (hno : ∀ d ∈ ds, w.bindings d.name = none)
    (hp : Placed w.subdevs w'.subdevs (w.freeSlots.zip (w.newcomers ds)))
    (hr : Removed w'.subdevs w''.subdevs (ds.map Device.name)) : w''.subdevs = w.subdevs := by
  funext i
  by_cases hmem : i ∈ (w.freeSlots.zip (w.newcomers ds)).map Prod.fst
  · rw [h.free i (use_of_mem_zip hmem)]
    obtain ⟨p, hd, rfl⟩ := List.mem_map.mp hmem
    have hname := (mem_of_mem_newcomers (List.of_mem_zip hd).2).1
    apply hr.erased p.1 p.2.name (List.mem_map_of_mem hname)
    rw [hp.placed p hd, boundName_record]
  · rw [← hp.kept i hmem]
    apply hr.kept
    intro name hname hi
    obtain ⟨d, hd, rfl⟩ := List.mem_map.mp hname
    rw [hp.kept i hmem] at hi
    exact search_eq_none_iff.mp (bindings_eq_none_iff.mp (hno d hd)) i hi

end Laws

/-- In every registry that the operations on devices and keys reach, adding a list gives the
complete elements whose names are not bound, the first of each name, the free records in order and
leaves all others alone. Adding it again changes nothing, and removing it restores the table when
none of its names was bound. -/
theorem list_laws {w₀ w : World} (h₀ : ∀ i, w₀.subdevs i = .zero)
    (hr : Reachable tableStep (fun w op => TableOp.Admits w op) w₀ w) {L : List Json}
    (hfits : ∀ d ∈ devicesOf L, d.Fits) {env env' : Env} {input input' : CStr}
    (hin : requestList env input = .ok L) (hin' : requestList env' input' = .ok L) :
    ∃ w₁, w.gatewayAddSubdev env input = some (w₁, 0) ∧
      Placed w.subdevs w₁.subdevs (w.freeSlots.zip (w.newcomers (devicesOf L))) ∧
      (∀ name sd, w₁.bindings name = some sd ↔ w.bindings name = some sd ∨
        ∃ d ∈ (w.newcomers (devicesOf L)).take w.freeSlots.length,
          d.name = name ∧ d.record = sd) ∧
      (∃ w₂, w₁.gatewayAddSubdev env' input' = some (w₂, 0) ∧ w₂.subdevs = w₁.subdevs) ∧
      ((∀ d ∈ devicesOf L, w.bindings d.name = none) →
        ∃ w₃, w₁.gatewayDelSubdev env' input' = some (w₃, -1) ∧ w₃.subdevs = w.subdevs) := by
  obtain ⟨m, hm⟩ := holds_of_reachable h₀ hr
  obtain ⟨w₁, hadd, ⟨m₁, hm₁⟩, hp⟩ := gatewayAddSubdev_placed hin hm hfits
  refine ⟨w₁, hadd, hp, bindings_of_placed hm hm₁ hp, ?_, fun hno => ?_⟩
  · obtain ⟨w₂, hagain, -, hp'⟩ := gatewayAddSubdev_placed hin' hm₁ hfits
    exact ⟨w₂, hagain, placed_again hp hp'⟩
  · obtain ⟨w₃, hdel, hremoved⟩ := gatewayDelSubdev_removed hin' hm₁
    exact ⟨w₃, hdel, removed_of_placed hm hno hp hremoved⟩

/-- An element with the strings of the first device of the program. -/
def firstElement : Json := .obj
  [("deviceName", .str firstDevice.deviceName), ("deviceSecret", .str firstDevice.deviceSecret),
   ("productKey", .str firstDevice.productKey)]

def firstListed : Device :=
  ⟨firstDevice.deviceName, firstDevice.productKey, firstDevice.deviceSecret⟩

/-- Surroundings where the empty text is a request with the list `L`. -/
def Env.naming (L : List Json) : Env :=
  { Env.quiet with jsonLoads := fun text =>
      if text = [] then some (.obj [("SubDevList", .str ['[', ']'])]) else some (.arr L) }

theorem requestList_naming (L : List Json) : requestList (.naming L) [] = .ok L := rfl

/-- A device that is named twice is added once, and removing the list empties the table again. -/
theorem list_laws_repeated :
    ∃ w₁, boot.gatewayAddSubdev (.naming [firstElement, firstElement]) [] = some (w₁, 0) ∧
      ∃ w₃, w₁.gatewayDelSubdev (.naming [firstElement, firstElement]) [] = some (w₃, -1) ∧
        w₃.subdevs = boot.subdevs := by
  have hfits : ∀ d ∈ devicesOf [firstElement, firstElement], d.Fits := by
    intro d hd
    have hmem : d ∈ [firstListed, firstListed] := hd
    obtain rfl : d = firstListed := by simpa using hmem
    exact ⟨by decide, by decide, by decide⟩
  have hstart : Reachable tableStep (fun w op => TableOp.Admits w op) boot boot := .start
  obtain ⟨w₁, hadd, -, -, -, hdel⟩ := list_laws (fun _ => rfl) hstart hfits
    (requestList_naming _) (requestList_naming _)
  refine ⟨w₁, hadd, hdel fun d _ => ?_⟩
  rw [bindings_eq_none_iff, search_eq_none_iff]
  intro i
  rw [SubDev.boundName_eq_none_iff.mpr rfl]
  simp

end Afly
