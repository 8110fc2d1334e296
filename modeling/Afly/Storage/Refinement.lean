import Afly.Storage.Agreement

/-! # Saves as the gateway sees them

The gateway's state keeps the db file as a table, and a save as its code with
whether the file holds the record. As long as a write is handed on completely or
not at all, every operation on the streams is the operation on that state with
some outcome of its saves.
-/

namespace Afly

open Stdio World

section Stands

variable {α : Type*} (L : Layout α)

/-- The cells of a file stand for what the gateway takes it for. -/
def FileStands : Option (List α) → DbFile → Prop
  | none, .missing => True
  | some _, .broken => True
  | some l, .whole t => 40 * L.sizeof ≤ l.length ∧
      ∀ i : Slot, slice (i.val * L.sizeof) L.sizeof l = L.cells (t i)
  | _, _ => False

variable {L} {n : ℕ}

/-- The store holds the table and the file of a state. -/
structure Stands (s : Store L n) (w : World) : Prop where
  subdevs : s.subdevs = w.subdevs
  file : FileStands L (s.io.files s.subdevFile) w.db

/-- A write of a record reaches the file completely or not at all. -/
def AllOrNothing (L : Layout α) (a : Answer) : Prop :=
  reached a L.sizeof = 0 ∨ reached a L.sizeof = L.sizeof

variable {s s' : Store L n} {w : World} {a : Answer} {i : Slot} {sd : SubDev} {ret : ℤ}
  {name key : CStr} {secret : Option CStr}

theorem Stands.setDev (h : Stands s w) (i : Slot) (sd : SubDev) :
    Stands (s.setDev i sd) (w.setDev i sd) where
  subdevs := by
    rw [Store.setDev, h.subdevs]
    rfl
  file := h.file

theorem slot_end_le (i : Slot) (m : ℕ) : i.val * m + m ≤ 40 * m := by
  rw [← Nat.succ_mul]
  exact Nat.mul_le_mul_right m i.isLt

theorem slot_apart {i j : Slot} (h : j ≠ i) (m : ℕ) :
    j.val * m + m ≤ i.val * m ∨ i.val * m + m ≤ j.val * m := by
  rw [← Nat.succ_mul, ← Nat.succ_mul]
  rcases lt_or_gt_of_ne h with hlt | hlt
  · exact Or.inl (Nat.mul_le_mul_right m hlt)
  · exact Or.inr (Nat.mul_le_mul_right m hlt)

theorem fileStands_tableCells (subdevs : Slot → SubDev) :
    FileStands L (some (tableCells L subdevs)) (.whole subdevs) := by
  have hrow (i : Slot) : (L.cells (subdevs i)).length = L.sizeof := L.length_cells _
  constructor
  · rw [tableCells, length_flatMap_rows hrow, List.length_finRange]
  · intro i
    rw [tableCells, slice_flatMap hrow _ _ (by simp), List.getElem_finRange]
    rfl

variable [Inhabited α]

theorem FileStands.write {l : List α} {db : DbFile} (h : FileStands L (some l) db) (i : Slot)
    (sd : SubDev) : FileStands L (some (overwrite l (i.val * L.sizeof) (L.cells sd)))
      (db.write i sd) := by
  cases db with
  | missing => exact h
  | broken => trivial
  | whole t =>
    obtain ⟨hlen, hcells⟩ := h
    have hend := slot_end_le i L.sizeof
    have hsd := L.length_cells sd
    constructor
    · rw [length_overwrite (by omega)]
      exact hlen
    · intro j
      by_cases hj : j = i
      · subst hj
        rw [slice_overwrite hsd.le, hsd, Function.update_self, List.drop_eq_nil_of_le,
          List.append_nil]
        rw [slice, List.length_take]
        exact min_le_left _ _
      · rw [slice_overwrite_other (by omega) (by rw [hsd]; exact slot_apart hj _), hcells j,
          Function.update_of_ne hj]

theorem Stands.saveRecord (h : Stands s w) (ha : AllOrNothing L a)
    (hs : s.saveRecord a i = (s', ret)) :
    ∃ r : SaveResult, r.ret = ret ∧ Stands s' (w.productSubSave i r) := by
  obtain rfl : (s.saveRecord a i).1 = s' := by rw [hs]
  by_cases hopens : s.Opens a
  · obtain ⟨l, hl⟩ := Option.isSome_iff_exists.mp hopens.2.2
    have hfile := (Store.saveRecord_files hopens hl i).1
    have hstands := h.file
    rw [hl] at hstands
    rcases ha with hzero | hwhole
    · refine ⟨⟨ret, false⟩, rfl, h.subdevs, ?_⟩
      rw [hzero, List.take_zero, overwrite_nil] at hfile
      change FileStands L ((s.saveRecord a i).1.io.files s.subdevFile) w.db
      rwa [hfile]
    · refine ⟨⟨ret, true⟩, rfl, h.subdevs, ?_⟩
      rw [hwhole, List.take_of_length_le (L.length_cells _).le, h.subdevs] at hfile
      change FileStands L ((s.saveRecord a i).1.io.files s.subdevFile) (w.db.write i (w.subdevs i))
      rw [hfile]
      exact hstands.write i _
  · refine ⟨⟨ret, false⟩, rfl, h.subdevs, ?_⟩
    change FileStands L ((s.saveRecord a i).1.io.files s.subdevFile) w.db
    rw [(Store.saveRecord_of_not_opens hopens).1]
    exact h.file

theorem Stands.change (h : Stands s w) (ha : AllOrNothing L a) (i : Slot) (sd : SubDev) :
    ∃ r : SaveResult, r.ret = ((s.setDev i sd).saveRecord a i).2 ∧
      Stands ((s.setDev i sd).saveRecord a i).1 ((w.setDev i sd).productSubSave i r) :=
  (h.setDev i sd).saveRecord ha rfl

theorem Stands.productSubAdd (h : Stands s w) (ha : AllOrNothing L a)
    (hadd : s.productSubAdd a name key secret = some (s', ret)) :
    ∃ r w', w.productSubAdd r name key secret = some (w', ret) ∧ Stands s' w' := by
  have hsearch : searchByName s.subdevs name = w.productSubSearchByName name := by
    rw [h.subdevs]
    rfl
  have hmalloc : malloc s.subdevs = w.productSubMalloc := by
    rw [h.subdevs]
    rfl
  unfold Store.productSubAdd at hadd
  unfold World.productSubAdd
  rw [hsearch, hmalloc, h.subdevs] at hadd
  cases hi : w.productSubSearchByName name with
  | some i =>
    rw [hi] at hadd
    obtain ⟨sd, hsd, he⟩ := Option.map_eq_some_iff.mp hadd
    cases he
    dsimp only
    rw [hsd]
    exact ⟨⟨0, false⟩, _, rfl, h.setDev i sd⟩
  | none =>
    rw [hi] at hadd
    dsimp only at hadd ⊢
    cases hfree : w.productSubMalloc with
    | none =>
      rw [hfree] at hadd
      cases hadd
      exact ⟨⟨0, false⟩, w, rfl, h⟩
    | some i =>
      rw [hfree] at hadd
      obtain ⟨sd, hsd, he⟩ := Option.map_eq_some_iff.mp hadd
      obtain ⟨r, hr, hstands⟩ := h.change ha i sd
      rw [he] at hr hstands
      dsimp only
      rw [hsd]
      exact ⟨r, _, by rw [Option.map_some, hr], hstands⟩

theorem Stands.productSubDel (h : Stands s w) (ha : AllOrNothing L a) (name : CStr) :
    ∃ r, (w.productSubDel r name).2 = (s.productSubDel a name).2 ∧
      Stands (s.productSubDel a name).1 (w.productSubDel r name).1 := by
  have hsearch : searchByName s.subdevs name = w.productSubSearchByName name := by
    rw [h.subdevs]
    rfl
  unfold Store.productSubDel World.productSubDel
  rw [hsearch]
  cases w.productSubSearchByName name with
  | none => exact ⟨⟨0, false⟩, rfl, h⟩
  | some i =>
    obtain ⟨r, -, hstands⟩ := h.change ha i .zero
    exact ⟨r, rfl, hstands⟩

theorem Stands.addKeyComplete (h : Stands s w) (ha : AllOrNothing L a) (i : Slot) (type id : ℤ) :
    ∃ r, (w.productSubLockAddKeyComplete r i type id).2 =
        (s.productSubLockAddKeyComplete a i type id).2 ∧
      Stands (s.productSubLockAddKeyComplete a i type id).1
        (w.productSubLockAddKeyComplete r i type id).1 := by
  unfold Store.productSubLockAddKeyComplete World.productSubLockAddKeyComplete
  rw [h.subdevs]
  dsimp only
  cases firstAdding (w.subdevs i) type id with
  | none => exact ⟨⟨0, false⟩, rfl, h⟩
  | some j => exact h.change ha i _

theorem Stands.delKey (h : Stands s w) (ha : AllOrNothing L a) (i : Slot) (type id : ℤ) :
    ∃ r, (w.productSubLockDelKey r i type id).2 = (s.productSubLockDelKey a i type id).2 ∧
      Stands (s.productSubLockDelKey a i type id).1 (w.productSubLockDelKey r i type id).1 := by
  unfold Store.productSubLockDelKey World.productSubLockDelKey
  rw [h.subdevs]
  dsimp only
  cases firstAdded (w.subdevs i) type id with
  | none => exact ⟨⟨0, false⟩, rfl, h⟩
  | some j => exact h.change ha i _

theorem Stands.addDynamicComplete (h : Stands s w) (ha : AllOrNothing L a) (i : Slot) :
    ∃ r, (w.productSubLockAddDynamicComplete r i).2 =
        (s.productSubLockAddDynamicComplete a i).2 ∧
      Stands (s.productSubLockAddDynamicComplete a i).1
        (w.productSubLockAddDynamicComplete r i).1 := by
  unfold Store.productSubLockAddDynamicComplete World.productSubLockAddDynamicComplete
  rw [h.subdevs]
  exact h.change ha i _

theorem clrKeyRound_congr {env env' : Env} {i : Slot} {type : ℤ} {j : Fin 128}
    (h : env.save j = env'.save j) :
    World.clrKeyRound env i type w j = World.clrKeyRound env' i type w j := by
  unfold World.clrKeyRound
  rw [h]

theorem Stands.clrKeyRounds {answers : ℕ → Answer} (ha : ∀ k, AllOrNothing L (answers k))
    (env : Env) (i : Slot) (type : ℤ) {l : List (Fin 128)} (hl : l.Nodup) (h : Stands s w) :
    ∃ save, Stands (l.foldl (Store.clrKeyRound answers i type) s)
      (l.foldl (World.clrKeyRound { env with save := save } i type) w) := by
  induction l generalizing s w with
  | nil => exact ⟨env.save, h⟩
  | cons j l ih =>
    obtain ⟨hj, hl⟩ := List.nodup_cons.mp hl
    obtain ⟨r, hround⟩ : ∃ r : SaveResult, ∀ save, save j = r →
        Stands (Store.clrKeyRound answers i type s j)
          (World.clrKeyRound { env with save := save } i type w j) := by
      unfold Store.clrKeyRound World.clrKeyRound
      rw [h.subdevs]
      dsimp only
      split
      · exact ⟨⟨0, false⟩, fun _ _ => h⟩
      · obtain ⟨r, -, hstands⟩ := h.change (ha j) i ((w.subdevs i).setBankKey type j .zero)
        exact ⟨r, fun save hsave => by rw [hsave]; exact hstands⟩
    obtain ⟨save, hrest⟩ := ih hl (hround (fun _ => r) rfl)
    refine ⟨Function.update save j r, ?_⟩
    rw [List.foldl_cons, List.foldl_cons]
    have hfirst : World.clrKeyRound { env with save := Function.update save j r } i type w j =
        World.clrKeyRound { env with save := fun _ => r } i type w j :=
      clrKeyRound_congr (Function.update_self j.val r save)
    rw [hfirst, List.foldl_ext _ (World.clrKeyRound { env with save := save } i type)]
    · exact hrest
    · intro w k hk
      have hne : k.val ≠ j.val := by
        intro he
        exact hj (Fin.ext he ▸ hk)
      exact clrKeyRound_congr (Function.update_of_ne hne r save)

theorem Stands.clrKey {answers : ℕ → Answer} (h : Stands s w)
    (ha : ∀ k, AllOrNothing L (answers k)) (env : Env) (i : Slot) (type : ℤ) :
    ∃ save, (w.productSubLockClrKey { env with save := save } i type).2 =
        (s.productSubLockClrKey answers i type).2 ∧
      Stands (s.productSubLockClrKey answers i type).1
        (w.productSubLockClrKey { env with save := save } i type).1 := by
  obtain ⟨save, hstands⟩ := h.clrKeyRounds ha env i type (List.nodup_finRange 128)
  unfold World.productSubLockClrKey Store.productSubLockClrKey
  dsimp only
  exact ⟨save, rfl, hstands⟩

theorem Stands.productSubSaveAll (h : Stands s w) (ha : a.Willing) :
    ∃ r : SaveResult, r.ret = (s.productSubSaveAll a).2 ∧
      Stands (s.productSubSaveAll a).1 (w.productSubSaveAll r) := by
  cases hopen : s.io.fopen a s.subdevFile .write with
  | none =>
    refine ⟨⟨-1, false⟩, ?_, ?_, ?_⟩
    · unfold Store.productSubSaveAll fileSaveAll
      dsimp only
      rw [hopen]
      rfl
    · rw [productSubSaveAll_subdevs]
      exact h.subdevs
    · change FileStands L ((fileSaveAll L a s.io s.subdevFile s.subdevs).1.files s.subdevFile) w.db
      unfold fileSaveAll
      rw [hopen]
      exact h.file
  | some r =>
    obtain ⟨fp, io₁⟩ := r
    have hat := (at_of_fopen_write hopen).fseek 0
    have hfile := hat.fwrite_fclose a (tableCells L s.subdevs)
    rw [if_pos ha.flushes, ha.taken, overwrite_empty] at hfile
    refine ⟨⟨(s.productSubSaveAll a).2, true⟩, rfl, h.subdevs, ?_⟩
    change FileStands L ((fileSaveAll L a s.io s.subdevFile s.subdevs).1.files s.subdevFile)
      (.whole w.subdevs)
    unfold fileSaveAll
    rw [hopen]
    dsimp only
    split
    · rw [hfile, ← h.subdevs]
      exact fileStands_tableCells _
    · rw [hfile, ← h.subdevs]
      exact fileStands_tableCells _

end Stands

end Afly
