import Afly.Gateway.Events
import Afly.Gateway.Step
import Afly.Lib.Directory

/-! # The table as a map from device names

What the record table is for: a map from the names of the devices to their
records. Adding, removing and the operations on keys and dynamic passwords are
the operations of that map as long as every string fits its array, every save
succeeds, and the records named by a pointer are in use.
-/

namespace Afly

open World Reach Directory

/-- The name under which a record is found. A free record has none. -/
def SubDev.boundName (sd : SubDev) : Option CStr := if sd.use = 0 then none else some sd.deviceName

/-- The operations of `product_sub.c` on the keys and the dynamic password of one record. -/
inductive DeviceOp where
  | addKeyWaitAck (time type limit : ℤ) (buf : CStr)
  | addKeyComplete (type id : ℤ)
  | delKey (type id : ℤ)
  | clrKey (type : ℤ)
  | addDynamicWaitAck (seed interval : ℤ)
  | addDynamicComplete

/-- The operations of `product_sub.c` on the table. -/
inductive TableOp where
  | add (name key : CStr) (secret : Option CStr)
  | del (name : CStr)
  | clr
  | device (i : Slot) (op : DeviceOp)

def SaveResult.done : SaveResult := ⟨0, true⟩

namespace World

def deviceOp (w : World) (i : Slot) : DeviceOp → World
  | .addKeyWaitAck time type limit buf =>
    match productSubLockAddKeyWaitAck (w.subdevs i) time type limit buf with
    | none => w
    | some (sd, _) => w.setDev i sd
  | .addKeyComplete type id => (w.productSubLockAddKeyComplete .done i type id).1
  | .delKey type id => (w.productSubLockDelKey .done i type id).1
  | .clrKey type => (w.productSubLockClrKey { Env.quiet with save := fun _ => .done } i type).1
  | .addDynamicWaitAck seed interval => w.productSubLockAddDynamicWaitAck i seed interval
  | .addDynamicComplete => (w.productSubLockAddDynamicComplete .done i).1

/-- One operation on the table, with saves that succeed. -/
def tableStep (w : World) : TableOp → Option World
  | .add name key secret => (w.productSubAdd .done name key secret).map (·.1)
  | .del name => some (w.productSubDel .done name).1
  | .clr => some (w.productSubClr .done).1
  | .device i op => some (w.deviceOp i op)

end World

/-- The strings of a device that fit their arrays. -/
structure FitsRecord (name key : CStr) (secret : Option CStr) : Prop where
  name : name.length < 64
  key : key.length < 48
  secret : (secret.getD []).length < 64

/-- The strings fit, and a pointer to a record comes from a lookup. -/
def TableOp.Admits (w : World) : TableOp → Prop
  | .add name key secret => FitsRecord name key secret
  | .device i _ => (w.subdevs i).use ≠ 0
  | _ => True

/-- The abstract state: which device a name is bound to. -/
abbrev Bindings := CStr → Option SubDev

/-- A device with nothing but its name, key and secret. -/
def SubDev.fresh (name key : CStr) (secret : Option CStr) : SubDev :=
  { SubDev.zero with
    use := 1, deviceName := name, productKey := key, deviceSecret := secret.getD [] }

/-- What an operation on one record makes of it. -/
def SubDev.after (sd : SubDev) : DeviceOp → SubDev
  | .addKeyWaitAck time type limit buf =>
    ((productSubLockAddKeyWaitAck sd time type limit buf).map Prod.fst).getD sd
  | .addKeyComplete type id => ((firstAdding sd type id).map fun j =>
      sd.setBankKey type j { sd.bank type j with keyState := keyStateAdded }).getD sd
  | .delKey type id => ((firstAdded sd type id).map fun j => sd.setBankKey type j .zero).getD sd
  | .clrKey type => sd.setKeys (eraseBank sd.lock.keys (productSubConvetType2idx type))
  | .addDynamicWaitAck seed interval => { sd with seed := seed, interval := interval }
  | .addDynamicComplete => { sd with dynamic := 1 }

namespace Bindings

noncomputable def size (m : Bindings) : ℕ := {name | m name ≠ none}.ncard

/-- Bind a name anew in place, or to a fresh device while fewer than 40 names are bound. -/
noncomputable def add (m : Bindings) (name key : CStr) (secret : Option CStr) : Bindings :=
  match m name with
  | some sd => Function.update m name
      (some { sd with productKey := key, deviceSecret := secret.getD [] })
  | none => if m.size < 40 then Function.update m name (some (.fresh name key secret)) else m

/-- The abstract operations, where `names` tells which device a slot holds. -/
noncomputable def after (names : Slot → CStr) (m : Bindings) : TableOp → Bindings
  | .add name key secret => m.add name key secret
  | .del name => Function.update m name none
  | .clr => fun _ => none
  | .device i op => Function.update m (names i) ((m (names i)).map (·.after op))

end Bindings

def World.bindings (w : World) : Bindings := fun name =>
  (w.productSubSearchByName name).map w.subdevs

/-- The table stands for a map, and its free records are zero. -/
structure World.Holds (w : World) (m : Bindings) : Prop where
  represents : Represents SubDev.boundName w.subdevs m
  free : ∀ i, (w.subdevs i).use = 0 → w.subdevs i = .zero

section Names

variable {w w' : World} {m : Bindings} {name : CStr} {i : Slot} {sd : SubDev}

theorem SubDev.boundName_eq_some_iff :
    sd.boundName = some name ↔ sd.use ≠ 0 ∧ sd.deviceName = name := by
  unfold boundName
  split_ifs with h
  · simp [h]
  · simp [h]

theorem SubDev.boundName_eq_none_iff : sd.boundName = none ↔ sd.use = 0 := by
  unfold boundName
  split_ifs with h
  · simp [h]
  · simp [h]

theorem boundName_of_search (h : w.productSubSearchByName name = some i) :
    (w.subdevs i).boundName = some name :=
  SubDev.boundName_eq_some_iff.mpr ⟨use_of_search h, name_of_search h⟩

theorem search_eq_none_iff :
    w.productSubSearchByName name = none ↔ ∀ i, (w.subdevs i).boundName ≠ some name := by
  simp only [productSubSearchByName, Fin.find?_eq_none_iff, decide_eq_false_iff_not, ne_eq,
    SubDev.boundName_eq_some_iff]
  constructor
  · intro h i hi
    exact h i ⟨hi.1, hi.2.symm⟩
  · intro h i hi
    exact h i ⟨hi.1, hi.2.symm⟩

/-- The search finds the one record that carries the name. -/
theorem World.Holds.search_eq_some_iff (h : w.Holds m) :
    w.productSubSearchByName name = some i ↔ (w.subdevs i).boundName = some name := by
  constructor
  · exact boundName_of_search
  · intro hi
    cases hs : w.productSubSearchByName name with
    | none => exact absurd hi (search_eq_none_iff.mp hs i)
    | some j => rw [h.represents.distinct i j name hi (boundName_of_search hs)]

theorem World.Holds.bindings_eq (h : w.Holds m) : w.bindings = m := by
  funext name
  unfold bindings
  cases hs : w.productSubSearchByName name with
  | none => exact (h.represents.eq_none_iff.mpr (search_eq_none_iff.mp hs)).symm
  | some i => exact (h.represents.listed i name (boundName_of_search hs)).symm

theorem malloc_eq_none_iff :
    w.productSubMalloc = none ↔ ∀ i, (w.subdevs i).boundName ≠ none := by
  simp only [productSubMalloc, Fin.find?_eq_none_iff, decide_eq_false_iff_not, ne_eq,
    SubDev.boundName_eq_none_iff]

theorem World.Holds.malloc_eq_none_iff (h : w.Holds m) :
    w.productSubMalloc = none ↔ m.size = 40 := by
  rw [Afly.malloc_eq_none_iff, h.represents.full_iff, Fintype.card_fin, Bindings.size]

theorem World.Holds.size_le (h : w.Holds m) : m.size ≤ 40 := by
  simpa [Bindings.size] using h.represents.ncard_le

end Names

section Operations

variable {w w' : World} {m : Bindings} {name key : CStr} {secret : Option CStr} {i : Slot}
  {sd : SubDev} {op : TableOp}

theorem deviceOp_subdevs (op : DeviceOp) : (w.deviceOp i op).subdevs =
    Function.update w.subdevs i ((w.subdevs i).after op) := by
  cases op with
  | addKeyWaitAck time type limit buf =>
    unfold deviceOp SubDev.after
    dsimp only
    cases productSubLockAddKeyWaitAck (w.subdevs i) time type limit buf with
    | none => simp
    | some r => simp
  | addKeyComplete type id =>
    unfold deviceOp SubDev.after productSubLockAddKeyComplete
    dsimp only
    split
    · rename_i hj
      simp [hj]
    · rename_i j hj
      rw [hj, productSubSave_subdevs]
      rfl
  | delKey type id =>
    unfold deviceOp SubDev.after productSubLockDelKey
    dsimp only
    split
    · rename_i hj
      simp [hj]
    · rename_i j hj
      rw [hj, productSubSave_subdevs]
      rfl
  | clrKey type => exact productSubLockClrKey_subdevs
  | addDynamicWaitAck seed interval => rfl
  | addDynamicComplete => simp [deviceOp, productSubLockAddDynamicComplete, SubDev.after]

theorem SubDev.after_sameDevice (sd : SubDev) (op : DeviceOp) : SameDevice sd (sd.after op) := by
  cases op with
  | addKeyWaitAck time type limit buf =>
    unfold after
    dsimp only
    cases ha : productSubLockAddKeyWaitAck sd time type limit buf with
    | none => exact .refl sd
    | some r =>
      obtain ⟨-, hr⟩ := addKeyWaitAck_eq_some_iff.mp ha
      rw [Option.map_some, Option.getD_some, hr]
      exact ⟨rfl, rfl, rfl, rfl⟩
  | addKeyComplete type id =>
    unfold after
    dsimp only
    cases firstAdding sd type id <;> exact ⟨rfl, rfl, rfl, rfl⟩
  | delKey type id =>
    unfold after
    dsimp only
    cases firstAdded sd type id <;> exact ⟨rfl, rfl, rfl, rfl⟩
  | clrKey type => exact ⟨rfl, rfl, rfl, rfl⟩
  | addDynamicWaitAck seed interval => exact ⟨rfl, rfl, rfl, rfl⟩
  | addDynamicComplete => exact ⟨rfl, rfl, rfl, rfl⟩

theorem SubDev.boundName_of_sameDevice {sd' : SubDev} (h : SameDevice sd sd') :
    sd'.boundName = sd.boundName := by
  unfold boundName
  rw [h.use, h.deviceName]

theorem SubDev.assign_of_fits (h : FitsRecord name key secret) : sd.assign key secret =
    some { sd with productKey := key, deviceSecret := secret.getD [] } :=
  if_pos ⟨h.key, h.secret⟩

/-- A free record that a device is added to keeps its task and the numbers in front of it. -/
def SubDev.enter (sd : SubDev) (name key : CStr) (secret : Option CStr) : SubDev :=
  { sd with
    use := 1, devid := 0, login := 0, productKey := key, deviceName := name,
    deviceSecret := secret.getD [], battery := 0, online := 0, type := [], version := [],
    model := [], app := [], lock := .zero }

theorem SubDev.occupy_eq_enter (h : FitsRecord name key secret) :
    sd.occupy name key secret = some (sd.enter name key secret) := by
  have hlen := h.name
  have hkey : overrun 312 key = [] := if_pos (h.key.trans (by decide))
  have hsecret : overrun 200 (secret.getD []) = [] := if_pos (h.secret.trans (by decide))
  have hname : overrun 264 name = [] := if_pos (h.name.trans (by decide))
  have hspill (sd : SubDev) : sd.spill [] = some sd := rfl
  unfold occupy
  rw [hkey, hsecret, hname, hspill]
  simp only [Option.bind_eq_bind, Option.bind_some, hspill]
  rw [if_pos h.key, if_pos h.name, List.take_of_length_le (by omega : name.length ≤ 128),
    List.take_of_length_le h.secret.le]
  rfl

theorem SubDev.occupy_of_fits (h : FitsRecord name key secret) :
    SubDev.zero.occupy name key secret = some (.fresh name key secret) :=
  occupy_eq_enter h

theorem World.Holds.of_subdevs (h : w.Holds m) (he : w'.subdevs = w.subdevs) : w'.Holds m where
  represents := by rw [he]; exact h.represents
  free := by rw [he]; exact h.free

theorem free_update (h : ∀ k, (w.subdevs k).use = 0 → w.subdevs k = .zero)
    (hsd : sd.use = 0 → sd = .zero) (k : Slot) (hk : (Function.update w.subdevs i sd k).use = 0) :
    Function.update w.subdevs i sd k = .zero := by
  by_cases hki : k = i
  · subst hki
    rw [Function.update_self] at hk ⊢
    exact hsd hk
  · rw [Function.update_of_ne hki] at hk ⊢
    exact h k hk

/-- The outcomes of `product_sub_add`: the name is bound anew in place, or bound in a free record,
or 40 names are bound. -/
theorem World.Holds.productSubAdd_cases (h : w.Holds m) (hfits : FitsRecord name key secret) :
    (∃ i, w.productSubSearchByName name = some i ∧
      w.productSubAdd .done name key secret = some (w.setDev i { w.subdevs i with
        productKey := key, deviceSecret := secret.getD [] }, 0)) ∨
    (m name = none ∧ m.size < 40 ∧ ∃ i, w.subdevs i = .zero ∧
      w.productSubAdd .done name key secret =
        some ((w.setDev i (.fresh name key secret)).productSubSave i .done, 0)) ∨
    (m name = none ∧ m.size = 40 ∧ w.productSubAdd .done name key secret = some (w, -1)) := by
  unfold productSubAdd
  cases hs : w.productSubSearchByName name with
  | some i =>
    refine Or.inl ⟨i, rfl, ?_⟩
    dsimp only
    rw [SubDev.assign_of_fits hfits, Option.map_some]
  | none =>
    have hm : m name = none := h.represents.eq_none_iff.mpr (search_eq_none_iff.mp hs)
    dsimp only
    cases hi : w.productSubMalloc with
    | none => exact Or.inr (Or.inr ⟨hm, h.malloc_eq_none_iff.mp hi, rfl⟩)
    | some i =>
      have hsize : m.size ≠ 40 := by
        intro he
        rw [h.malloc_eq_none_iff.mpr he] at hi
        cases hi
      have hzero := h.free i (use_of_malloc hi)
      refine Or.inr (Or.inl ⟨hm, lt_of_le_of_ne h.size_le hsize, i, hzero, ?_⟩)
      dsimp only
      rw [hzero, SubDev.occupy_of_fits hfits, Option.map_some]
      rfl

theorem add_holds (h : w.Holds m) (hfits : FitsRecord name key secret) :
    ∃ w', (w.productSubAdd .done name key secret).map (·.1) = some w' ∧
      w'.Holds (m.add name key secret) := by
  unfold Bindings.add
  rcases h.productSubAdd_cases hfits with ⟨i, hs, ha⟩ | ⟨hm, hsize, i, hzero, ha⟩ | ⟨hm, hsize, ha⟩
  · have hb := boundName_of_search hs
    rw [ha, h.represents.listed i name hb]
    refine ⟨_, rfl, ?_, ?_⟩
    · exact h.represents.rewrite hb hb
    · exact free_update h.free fun hu => absurd hu (use_of_search hs)
  · rw [ha, hm]
    dsimp only
    rw [if_pos hsize]
    refine ⟨_, rfl, World.Holds.of_subdevs (w := w.setDev i (.fresh name key secret))
      ⟨?_, ?_⟩ (by simp)⟩
    · exact h.represents.insert (by rw [hzero]; rfl) hm rfl
    · exact free_update h.free fun hu => absurd hu (by simp [SubDev.fresh])
  · rw [ha, hm]
    dsimp only
    rw [if_neg hsize.not_lt]
    exact ⟨w, rfl, h⟩

theorem del_holds (h : w.Holds m) : (w.productSubDel .done name).1.Holds
    (Function.update m name none) := by
  cases hs : w.productSubSearchByName name with
  | none =>
    have hm : m name = none := h.represents.eq_none_iff.mpr (search_eq_none_iff.mp hs)
    rw [Function.update_eq_self_iff.mpr hm.symm]
    exact h.of_subdevs (by rw [productSubDel_subdevs, hs])
  | some i =>
    have hsub : (w.productSubDel .done name).1.subdevs = Function.update w.subdevs i .zero := by
      rw [productSubDel_subdevs, hs]
    constructor
    · rw [hsub]
      exact h.represents.erase (boundName_of_search hs) rfl
    · rw [hsub]
      exact free_update h.free fun _ => rfl

theorem tableStep_holds (h : w.Holds m) (hok : op.Admits w) : ∃ w', tableStep w op = some w' ∧
    w'.Holds (m.after (fun i => (w.subdevs i).deviceName) op) := by
  cases op with
  | add name key secret => exact add_holds h hok
  | del name => exact ⟨_, rfl, del_holds h⟩
  | clr =>
    refine ⟨_, rfl, ?_, ?_⟩
    · rw [productSubClr_subdevs]
      exact represents_empty fun _ => rfl
    · intro i _
      rw [productSubClr_subdevs]
  | device i op =>
    have hsame := SubDev.after_sameDevice (w.subdevs i) op
    have hb : (w.subdevs i).boundName = some (w.subdevs i).deviceName := if_neg hok
    refine ⟨_, rfl, ?_, ?_⟩
    · rw [deviceOp_subdevs, Bindings.after, h.represents.listed i _ hb]
      exact h.represents.rewrite hb ((SubDev.boundName_of_sameDevice hsame).trans hb)
    · rw [deviceOp_subdevs]
      exact free_update h.free fun hu => absurd (hsame.use.symm.trans hu) hok

end Operations

/-- Every state of a run from a zero table stands for a map. -/
theorem holds_of_reachable {w₀ w : World} (h₀ : ∀ i, w₀.subdevs i = .zero)
    (hr : Reachable tableStep (fun w op => TableOp.Admits w op) w₀ w) : ∃ m, w.Holds m := by
  apply hr.invariant (I := fun w => ∃ m, w.Holds m)
  · refine ⟨fun _ => none, represents_empty ?_, fun i _ => h₀ i⟩
    intro i
    rw [h₀ i]
    rfl
  · rintro w op w' ⟨m, hm⟩ hok hs
    obtain ⟨w'', hs', hm'⟩ := tableStep_holds hm hok
    obtain rfl := Option.some.inj (hs.symm.trans hs')
    exact ⟨_, hm'⟩

/-- In every run from a zero table the table refines a map from device names: names in use are
distinct, the search reads the map, free records are zero, and every operation does to the map what
it is for. An added device is bound in place, or bound as a fresh device in a free record, or the
call fails and changes nothing because 40 other names are bound. -/
theorem table_refines_map {w₀ w : World} (h₀ : ∀ i, w₀.subdevs i = .zero)
    (hr : Reachable tableStep (fun w op => TableOp.Admits w op) w₀ w) :
    (∀ i j, (w.subdevs i).use ≠ 0 → (w.subdevs j).use ≠ 0 →
      (w.subdevs i).deviceName = (w.subdevs j).deviceName → i = j) ∧
    (∀ name i, w.productSubSearchByName name = some i ↔
      (w.subdevs i).use ≠ 0 ∧ (w.subdevs i).deviceName = name) ∧
    (∀ i, (w.subdevs i).use = 0 → w.subdevs i = .zero) ∧
    w₀.bindings = (fun _ => none) ∧
    (∀ op, TableOp.Admits w op → ∃ w', tableStep w op = some w' ∧
      w'.bindings = w.bindings.after (fun i => (w.subdevs i).deviceName) op) ∧
    ∀ name key secret, FitsRecord name key secret →
      (∃ i, w.productSubSearchByName name = some i ∧
        w.productSubAdd .done name key secret = some (w.setDev i { w.subdevs i with
          productKey := key, deviceSecret := secret.getD [] }, 0)) ∨
      (w.bindings name = none ∧ w.bindings.size < 40 ∧ ∃ i, w.subdevs i = .zero ∧
        w.productSubAdd .done name key secret =
          some ((w.setDev i (.fresh name key secret)).productSubSave i .done, 0)) ∨
      (w.bindings name = none ∧ w.bindings.size = 40 ∧
        w.productSubAdd .done name key secret = some (w, -1)) := by
  obtain ⟨m, hm⟩ := holds_of_reachable h₀ hr
  obtain ⟨m₀, hm₀⟩ := holds_of_reachable h₀ .start
  have hempty : m₀ = fun _ => none :=
    hm₀.represents.unique (represents_empty fun i => by rw [h₀ i]; rfl)
  refine ⟨?_, ?_, hm.free, hm₀.bindings_eq.trans hempty, ?_, ?_⟩
  · intro i j hi hj hname
    exact hm.represents.distinct i j _ (SubDev.boundName_eq_some_iff.mpr ⟨hi, hname⟩)
      (SubDev.boundName_eq_some_iff.mpr ⟨hj, rfl⟩)
  · intro name i
    rw [hm.search_eq_some_iff, SubDev.boundName_eq_some_iff]
  · intro op hok
    obtain ⟨w', hs, hm'⟩ := tableStep_holds hm hok
    refine ⟨w', hs, ?_⟩
    rw [hm'.bindings_eq, hm.bindings_eq]
  · intro name key secret hfits
    rw [hm.bindings_eq]
    exact hm.productSubAdd_cases hfits

/-- The first device of the program as added to an empty table. -/
def addFirst : TableOp :=
  .add firstDevice.deviceName firstDevice.productKey (some firstDevice.deviceSecret)

/-- A device that was removed and added again is found under its name only. -/
theorem table_refines_map_readded : ∃ w, run tableStep boot
      [addFirst, .del firstDevice.deviceName, addFirst] = some w ∧
    ∀ name i, w.productSubSearchByName name = some i ↔
      (w.subdevs i).use ≠ 0 ∧ (w.subdevs i).deviceName = name := by
  obtain ⟨w, hw, -⟩ : ∃ w, run tableStep boot
      [addFirst, .del firstDevice.deviceName, addFirst] = some w ∧ (w.subdevs 0).use = 1 :=
    Option.map_eq_some_iff.mp (by decide +kernel)
  have hfits : FitsRecord firstDevice.deviceName firstDevice.productKey
      (some firstDevice.deviceSecret) := ⟨by decide, by decide, by decide⟩
  refine ⟨w, hw, (table_refines_map (fun _ => rfl) (reachable_of_run hw ?_ .start)).2.1⟩
  intro op hop _
  rcases List.mem_cons.mp hop with rfl | hop
  · exact hfits
  · rcases List.mem_pair.mp hop with rfl | rfl
    · trivial
    · exact hfits

end Afly
