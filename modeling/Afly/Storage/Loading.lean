import Afly.Storage.Parts

/-! # Loading a db file of any length

At the start the table is read over the one in memory, and only then the length
of what came is looked at. A file that is too short leaves its bytes in front of
the records that were there before. Without a file an empty one is made, and
nobody looks whether its bytes could be handed on when it is closed.
-/

namespace Afly

open Stdio

namespace RowStore

variable {n : ℕ}

/-- The handle and the login state: the bytes that a load clears in a record that is in use. -/
def Cleared (row : List Byte) (k : ℕ) : Prop := rowInUse row ∧ 4 ≤ k ∧ k < 12

instance (row : List Byte) (k : ℕ) : Decidable (Cleared row k) :=
  inferInstanceAs (Decidable (_ ∧ _))

/-- The load has the table of the file, up to handles and login states, or fails without a byte of
a file in the table. -/
def LoadsWhole (a : Answer) (s : RowStore n) (db : CStr) : Prop :=
  ((s.productSubLoadAll a db).2 = 0 ∧
    ∃ l, (s.productSubLoadAll a db).1.io.files db = some l ∧ 40 * sizeofSubDev ≤ l.length ∧
      ∀ i, (s.productSubLoadAll a db).1.rows.row i = clrIdRow (rowOf l i)) ∨
  ((s.productSubLoadAll a db).2 ≠ 0 ∧
    ((s.productSubLoadAll a db).1.rows = s.rows ∨
      (s.productSubLoadAll a db).1.rows = s.rows.clrIdAfterLoad ∨
      s.io.files db = none ∧ (s.productSubLoadAll a db).1.rows = .zero))

/-- The new file has all bytes of the empty table, or the save fails. -/
def Makes (a : Answer) (s : RowStore n) : Prop :=
  a.grants = true → s.io.opened < n → (∀ m, a.accepts = some m → 40 * sizeofSubDev ≤ m) →
    a.flushes = true ∨ 40 * sizeofSubDev ≤ a.out

/-- The file is long enough, or cannot be opened, or each of its bytes is in the table already or
will be cleared there. Without a file, the new one is complete. -/
def Loadable (a : Answer) (s : RowStore n) (db : CStr) : Prop :=
  match s.io.files db with
  | some l => 40 * sizeofSubDev ≤ l.length ∨ ¬ (a.grants = true ∧ s.io.opened < n) ∨
      ∀ i k, k < sizeofSubDev → base i + k < l.length →
        l[base i + k]? = (s.rows.row i)[k]? ∨ Cleared (s.rows.row i) k
  | none => s.Makes a

section Rows

variable {row row' got : List Byte} {m : Rows} {i : Slot} {l : List Byte}

theorem getElem?_clrIdRow (h : row.length = sizeofSubDev) (k : ℕ) : (clrIdRow row)[k]? =
    if Cleared row k then some 0 else row[k]? := by
  have hge := sizeofSubDev_ge
  unfold clrIdRow
  by_cases hu : rowInUse row
  · rw [if_pos hu, getElem?_overwrite_inside (by rw [List.length_replicate]; omega),
      List.length_replicate]
    by_cases hk : 4 ≤ k ∧ k < 12
    · rw [if_pos hk, if_pos ⟨hu, hk⟩, List.getElem?_replicate, if_pos (by omega)]
    · rw [if_neg hk, if_neg fun h => hk h.2]
  · rw [if_neg hu, if_neg fun h => hu h.1]

theorem cleared_congr (h : ∀ k < 4, row[k]? = row'[k]?) (k : ℕ) :
    Cleared row k ↔ Cleared row' k := by
  have htake : row.take 4 = row'.take 4 := by
    ext1 k
    rw [List.getElem?_take, List.getElem?_take]
    split
    · rename_i hk
      exact h k hk
    · rfl
  rw [Cleared, Cleared, rowInUse, rowInUse, htake]

theorem clrIdRow_eq_iff (h : row.length = sizeofSubDev) (h' : row'.length = sizeofSubDev) :
    clrIdRow row = clrIdRow row' ↔
      ∀ k < sizeofSubDev, row[k]? = row'[k]? ∨ Cleared row' k := by
  have hge := sizeofSubDev_ge
  constructor
  · intro heq
    have hat (k : ℕ) := congrArg (fun r : List Byte => r[k]?) heq
    simp only [getElem?_clrIdRow h, getElem?_clrIdRow h'] at hat
    have hfront : ∀ k < 4, row[k]? = row'[k]? := by
      intro k hk
      have hk' := hat k
      rwa [if_neg fun hc => absurd hc.2.1 (by omega), if_neg fun hc => absurd hc.2.1 (by omega)]
        at hk'
    intro k _
    by_cases hc : Cleared row' k
    · exact Or.inr hc
    · have hk' := hat k
      rw [if_neg ((not_congr (cleared_congr hfront k)).mpr hc), if_neg hc] at hk'
      exact Or.inl hk'
  · intro heq
    have hfront : ∀ k < 4, row[k]? = row'[k]? := by
      intro k hk
      rcases heq k (by omega) with hk' | hc
      · exact hk'
      · exact absurd hc.2.1 (by omega)
    ext1 k
    rw [getElem?_clrIdRow h, getElem?_clrIdRow h']
    by_cases hc : Cleared row' k
    · rw [if_pos ((cleared_congr hfront k).mpr hc), if_pos hc]
    · rw [if_neg ((not_congr (cleared_congr hfront k)).mpr hc), if_neg hc]
      by_cases hk : k < sizeofSubDev
      · exact (heq k hk).resolve_right hc
      · rw [List.getElem?_eq_none (by omega), List.getElem?_eq_none (by omega)]

theorem clrIdRow_clrIdRow (h : row.length = sizeofSubDev) :
    clrIdRow (clrIdRow row) = clrIdRow row := by
  rw [clrIdRow_eq_iff (length_clrIdRow h) h]
  intro k _
  rw [getElem?_clrIdRow h]
  by_cases hc : Cleared row k
  · exact Or.inr hc
  · rw [if_neg hc]
    exact Or.inl rfl

theorem getElem?_readOver (m : Rows) (got : List Byte) (i : Slot) {k : ℕ} (hk : k < sizeofSubDev) :
    ((m.readOver got).row i)[k]? =
      if base i + k < got.length then got[base i + k]? else (m.row i)[k]? := by
  have hlen :
      (slice (base i) sizeofSubDev got).length = min sizeofSubDev (got.length - base i) := by
    rw [slice, List.length_take, List.length_drop]
  change (overwrite (m.row i) 0 (slice (base i) sizeofSubDev got))[k]? = _
  rw [getElem?_overwrite_inside (by rw [m.length_row]; omega), hlen, getElem?_slice, Nat.sub_zero,
    if_pos hk]
  split_ifs <;> first | rfl | omega

theorem readOver_clrId_iff (m : Rows) (got : List Byte) :
    (m.readOver got).clrIdAfterLoad = m.clrIdAfterLoad ↔
      ∀ i k, k < sizeofSubDev → base i + k < got.length →
        got[base i + k]? = (m.row i)[k]? ∨ Cleared (m.row i) k := by
  have hrows : (m.readOver got).clrIdAfterLoad = m.clrIdAfterLoad ↔
      ∀ i, clrIdRow ((m.readOver got).row i) = clrIdRow (m.row i) := by
    rw [Rows.ext_iff, funext_iff]
    rfl
  rw [hrows]
  refine forall_congr' fun i => ?_
  rw [clrIdRow_eq_iff ((m.readOver got).length_row i) (m.length_row i)]
  refine forall_congr' fun k => forall_congr' fun hk => ?_
  rw [getElem?_readOver m got i hk]
  split_ifs with hin
  · simp [hin]
  · simp [hin]

end Rows

section Load

variable {a : Answer} {s : RowStore n} {db : CStr} {l : List Byte}

theorem productSubLoadAll_file (hl : s.io.files db = some l) :
    s.productSubLoadAll a db = loadAll a { s with subdevFile := db } := by
  rw [productSubLoadAll]
  dsimp only
  rw [if_pos]
  rw [hl]
  rfl

theorem loadAll_files (hl : s.io.files s.subdevFile = some l) :
    (s.loadAll a).1.io.files s.subdevFile = some l := by
  unfold loadAll
  cases hopen : s.io.fopen a s.subdevFile .read with
  | none => exact hl
  | some p =>
    obtain ⟨fp, io₁⟩ := p
    obtain ⟨l', hl', hat⟩ := at_of_fopen (by simp) hopen
    obtain rfl : l = l' := Option.some.inj (hl.symm.trans hl')
    have hread : ((io₁.fseek fp 0).fread fp (40 * sizeofSubDev)).1.At fp s.subdevFile _ [] l :=
      (hat.fseek 0).fread.1
    have hclose := hread.fclose (a := a)
    rw [overwrite_nil, ite_self] at hclose
    exact hclose

theorem rowOf_take (l : List Byte) (i : Slot) :
    rowOf (l.take (40 * sizeofSubDev)) i = rowOf l i := by
  have hi := Nat.mul_le_mul_right sizeofSubDev (Nat.succ_le_of_lt i.isLt)
  rw [Nat.succ_mul] at hi
  rw [rowOf, rowOf, slice, slice, base, List.drop_take, List.take_take, min_eq_left (by omega)]

theorem loadsWhole_of_opens (hl : s.io.files db = some l)
    (ho : RowStore.Opens a { s with subdevFile := db }) :
    s.LoadsWhole a db ↔ 40 * sizeofSubDev ≤ l.length ∨
      ∀ i k, k < sizeofSubDev → base i + k < l.length →
        l[base i + k]? = (s.rows.row i)[k]? ∨ Cleared (s.rows.row i) k := by
  obtain ⟨hrows, hret⟩ := loadAll_of_opens hl ho
  rw [← productSubLoadAll_file hl] at hrows hret
  have hfile := loadAll_files (a := a) (s := { s with subdevFile := db }) hl
  rw [← productSubLoadAll_file hl] at hfile
  rw [LoadsWhole, hrows, hret, hfile, hl]
  by_cases hlong : 40 * sizeofSubDev ≤ l.length
  · refine iff_of_true (Or.inl ⟨hlong, l, rfl, hlong, ?_⟩) (Or.inl hlong)
    intro i
    have hfull : (l.take (40 * sizeofSubDev)).length = 40 * sizeofSubDev := by
      rw [List.length_take, min_eq_left hlong]
    change clrIdRow ((s.rows.readOver _).row i) = _
    rw [readOver_row _ (base_le hfull i), ← rowOf_take]
    rfl
  · rw [List.take_of_length_le (by omega), ← readOver_clrId_iff]
    have hself (h : (s.rows.readOver l).clrIdAfterLoad = s.rows) :
        (s.rows.readOver l).clrIdAfterLoad = s.rows.clrIdAfterLoad := by
      ext i : 2
      have hi : clrIdRow ((s.rows.readOver l).row i) = s.rows.row i :=
        congrArg (fun m : Rows => m.row i) h
      change clrIdRow ((s.rows.readOver l).row i) = clrIdRow (s.rows.row i)
      rw [← hi, clrIdRow_clrIdRow ((s.rows.readOver l).length_row i)]
    constructor
    · rintro (⟨hret', -⟩ | ⟨-, hsame | hclr | ⟨hnone, -⟩⟩)
      · exact absurd hret' hlong
      · exact Or.inr (hself hsame)
      · exact Or.inr hclr
      · simp at hnone
    · rintro (hlong' | hclr)
      · exact absurd hlong' hlong
      · exact Or.inr ⟨(not_congr hret).mpr hlong, Or.inr (Or.inl hclr)⟩

end Load

section Make

variable {a : Answer} {s : RowStore n} {db : CStr}

theorem rowOf_bytes (m : Rows) (i : Slot) : rowOf m.bytes i = m.row i := by
  rw [rowOf, Rows.bytes, base, slice_flatMap m.length_row _ _ (by simp), List.getElem_finRange]
  rfl

theorem length_bytes (m : Rows) : m.bytes.length = 40 * sizeofSubDev := by
  rw [Rows.bytes, length_flatMap_rows m.length_row, List.length_finRange]

theorem clrIdRow_zero (i : Slot) : clrIdRow (Rows.zero.row i) = Rows.zero.row i := by
  rw [clrIdRow, if_neg]
  rw [rowInUse, not_not]
  exact List.take_replicate

theorem saveAll_iff : ((s.productSubSaveAll a).2 = 0 ↔ a.grants = true ∧ s.io.opened < n ∧
      ∀ m, a.accepts = some m → 40 * sizeofSubDev ≤ m) ∧
    (s.productSubSaveAll a).1.rows = s.rows ∧
    ((s.productSubSaveAll a).2 = 0 → (s.productSubSaveAll a).1.io.files s.subdevFile =
      some (if a.flushes then s.rows.bytes else s.rows.bytes.take a.out)) := by
  have hlen := length_bytes s.rows
  have hge := sizeofSubDev_ge
  unfold productSubSaveAll
  cases hopen : s.io.fopen a s.subdevFile .write with
  | none =>
    have hno : ¬ (a.grants = true ∧ s.io.opened < n) := by
      intro h
      have hsome : (s.io.fopen a s.subdevFile .write).isSome :=
        (fopen_isSome_iff .write).mpr ⟨h.1, h.2, Or.inl rfl⟩
      rw [hopen] at hsome
      exact absurd hsome (by simp)
    refine ⟨iff_of_false (by dsimp only; omega) fun h => hno ⟨h.1, h.2.1⟩, rfl, ?_⟩
    intro h
    dsimp only at h
    omega
  | some p =>
    obtain ⟨fp, io₁⟩ := p
    have hsome : (s.io.fopen a s.subdevFile .write).isSome := by rw [hopen]; rfl
    obtain ⟨hgrants, hfree, -⟩ := (fopen_isSome_iff .write).mp hsome
    have hat := (at_of_fopen_write hopen).fseek 0
    have hret : ((io₁.fseek fp 0).fwrite a fp s.rows.bytes).2 = 1 ↔ a.grants = true ∧
        s.io.opened < n ∧ ∀ m, a.accepts = some m → 40 * sizeofSubDev ≤ m := by
      rw [fwrite_uncut_iff, and_iff_right hgrants, and_iff_right hfree, hlen,
        and_iff_right (by omega)]
    dsimp only
    split
    · rename_i hne
      refine ⟨iff_of_false (by dsimp only; omega) fun h => hne (hret.mpr h), rfl, ?_⟩
      intro h
      dsimp only at h
      omega
    · rename_i heq
      have hall := hret.mp (not_not.mp heq)
      refine ⟨iff_of_true rfl hall, rfl, fun _ => ?_⟩
      have hclose := hat.fwrite_fclose a s.rows.bytes
      have htaken : a.taken s.rows.bytes = s.rows.bytes := by
        apply taken_of_uncut
        rw [hlen]
        exact hall.2.2
      rw [overwrite_empty, htaken] at hclose
      exact hclose

theorem loadsWhole_of_absent (hl : s.io.files db = none) : s.LoadsWhole a db ↔ s.Makes a := by
  have hmake : s.productSubLoadAll a db =
      RowStore.productSubSaveAll a { s with subdevFile := db, rows := .zero } := by
    rw [productSubLoadAll]
    dsimp only
    rw [if_neg]
    rw [hl]
    simp
  obtain ⟨hret, hrows, hfile⟩ := saveAll_iff (a := a)
    (s := { s with subdevFile := db, rows := .zero })
  rw [← hmake] at hret hrows hfile
  by_cases hok : (s.productSubLoadAll a db).2 = 0
  · obtain ⟨hgrants, hfree, huncut⟩ := hret.mp hok
    have hlen := length_bytes .zero
    have hmakes : s.Makes a ↔ a.flushes = true ∨ 40 * sizeofSubDev ≤ a.out :=
      ⟨fun h => h hgrants hfree huncut, fun h _ _ _ => h⟩
    rw [LoadsWhole, hfile hok, hrows, hmakes, iff_true_intro hok, true_and,
      or_iff_left fun h => h.1 hok]
    constructor
    · rintro ⟨l, hsome, hlong, -⟩
      by_contra hcut
      rw [not_or] at hcut
      rw [if_neg hcut.1] at hsome
      rw [← Option.some.inj hsome, List.length_take] at hlong
      omega
    · intro hall
      have hbytes : (if a.flushes then Rows.zero.bytes else Rows.zero.bytes.take a.out) =
          Rows.zero.bytes := by
        split
        · rfl
        · rename_i hflush
          rw [List.take_of_length_le]
          rw [hlen]
          exact hall.resolve_left hflush
      refine ⟨Rows.zero.bytes, congrArg some hbytes, hlen.ge, ?_⟩
      intro i
      rw [rowOf_bytes, clrIdRow_zero]
  · refine iff_of_true (Or.inr ⟨hok, Or.inr (Or.inr ⟨hl, hrows⟩)⟩) ?_
    intro hgrants hfree huncut
    exact absurd (hret.mpr ⟨hgrants, hfree, huncut⟩) hok

end Make

/-- The table of the file or the one before: a load has one of them exactly when the file is long
enough, is not opened, or brings no byte that is not there. -/
theorem loadsWhole_iff (a : Answer) (s : RowStore n) (db : CStr) :
    s.LoadsWhole a db ↔ s.Loadable a db := by
  unfold Loadable
  split
  · rename_i l hl
    by_cases ho : RowStore.Opens a { s with subdevFile := db }
    · rw [loadsWhole_of_opens hl ho]
      have hopen : a.grants = true ∧ s.io.opened < n := ⟨ho.1, ho.2.1⟩
      rw [or_iff_right (not_not.mpr hopen)]
    · have hload := loadAll_of_not_opens ho
      rw [← productSubLoadAll_file hl] at hload
      have hclosed : ¬ (a.grants = true ∧ s.io.opened < n) := by
        rintro ⟨hgrants, hfree⟩
        refine ho ⟨hgrants, hfree, ?_⟩
        rw [Option.isSome_iff_exists]
        exact ⟨l, hl⟩
      refine iff_of_true (Or.inr ?_) (Or.inr (Or.inl hclosed))
      rw [hload]
      exact ⟨by dsimp only; omega, Or.inl rfl⟩
  · rename_i hl
    exact loadsWhole_of_absent hl

/-- A file that was cut behind the first byte puts this byte before an empty record. -/
theorem cut_not_loadsWhole : ¬ RowStore.LoadsWhole prompt
    { blank with io := { blank.io with files := fun _ => some [1] } } [] := by
  rw [loadsWhole_of_opens rfl ⟨rfl, by decide, rfl⟩]
  rintro (hlong | hsame)
  · exact absurd hlong (by decide)
  · have hfirst := hsame 0 0 (by decide) (by decide)
    rcases hfirst with hbyte | hcleared
    · rw [blank, Rows.zero] at hbyte
      dsimp only at hbyte
      rw [List.getElem?_replicate, if_pos (by decide)] at hbyte
      exact absurd hbyte (by decide)
    · exact absurd hcleared.2.1 (by decide)

end RowStore

end Afly
