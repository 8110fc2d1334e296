import Afly.Storage.Rows

/-! # Saving and loading a part of a record

The offset of a part counts in memory but not in the file: a part is written to
the beginning of the record's place and read from there. A part that is set and
got again comes back all the same. Only the bytes around it tell: they are the
right ones where the offset is zero or the bytes of the record happen to repeat.
-/

namespace Afly

open Stdio

theorem Rows.length_part (m : Rows) (i : Slot) (part : Part sizeofSubDev) :
    (slice part.off part.size (m.row i)).length = part.size := by
  have := part.fits
  rw [slice, List.length_take, List.length_drop, m.length_row]
  omega

section Writes

variable {n : ℕ} {a : Answer} {l data : List Byte} {io : Stdio CStr Byte n} {fp : Fin n}
  {path : CStr} {pos : ℕ}

theorem taken_of_uncut (h : ∀ m, a.accepts = some m → data.length ≤ m) : a.taken data = data := by
  unfold Answer.taken
  split
  · rfl
  · rename_i m hm
    rw [List.take_of_length_le (h m hm)]

theorem fwrite_uncut_iff : (io.fwrite a fp data).2 = 1 ↔
    0 < data.length ∧ ∀ m, a.accepts = some m → data.length ≤ m := by
  rw [fwrite_eq_one_iff, ← List.length_pos_iff]
  refine and_congr_right fun _ => ?_
  unfold Answer.taken
  cases a.accepts with
  | none => simp
  | some m => simp

theorem reached_of_uncut (h : ∀ m, a.accepts = some m → data.length ≤ m) :
    reached a data.length = min data.length a.out := by
  unfold reached
  split
  · rfl
  · rename_i m hm
    rw [if_pos (h m hm)]

theorem write_files (h : io.At fp path pos [] l) (a : Answer) (data : List Byte) :
    (if (io.fwrite a fp data).2 ≠ 1 then (io.fwrite a fp data).1.fclose a fp
      else (io.fwrite a fp data).1).files path =
        some (overwrite l pos (data.take (reached a data.length))) := by
  by_cases hcut : ∃ m, a.accepts = some m ∧ m < data.length
  · obtain ⟨m, hm, hlt⟩ := hcut
    have htaken : a.taken data = data.take m := by rw [Answer.taken, hm]
    have hreached : reached a data.length = if a.flushes then m else min m a.out := by
      unfold reached
      rw [hm]
      exact if_neg (by omega)
    have hret : (io.fwrite a fp data).2 ≠ 1 := by
      rw [ne_eq, fwrite_eq_one_iff, htaken, List.length_take]
      omega
    rw [if_pos hret, h.fwrite_fclose, htaken, hreached]
    split
    · rfl
    · rw [List.take_take, min_comm]
  · have huncut : ∀ m, a.accepts = some m → data.length ≤ m := by
      intro m hm
      by_contra hlt
      exact hcut ⟨m, hm, not_le.mp hlt⟩
    have htake : data.take (min data.length a.out) = data.take a.out := by
      rw [min_comm, ← List.take_take, List.take_length]
    rw [reached_of_uncut huncut, htake]
    split
    · rename_i hne
      have hnil : data = [] := by
        by_contra hdata
        exact hne (fwrite_eq_one_iff.mpr ⟨hdata, by rw [taken_of_uncut huncut]⟩)
      rw [h.fwrite_fclose, taken_of_uncut huncut, hnil]
      split <;> simp
    · rw [h.fwrite.file, taken_of_uncut huncut]

end Writes

namespace RowStore

variable {n : ℕ}

/-- A save or a load finds a stream and the file. -/
def Opens (a : Answer) (s : RowStore n) : Prop :=
  a.grants = true ∧ s.io.opened < n ∧ (s.io.files s.subdevFile).isSome

instance (a : Answer) (s : RowStore n) : Decidable (s.Opens a) :=
  inferInstanceAs (Decidable (_ ∧ _))

def Completes (a : Answer) (s : RowStore n) (size : ℕ) : Prop :=
  s.Opens a ∧ 0 < size ∧ ∀ m, a.accepts = some m → size ≤ m

/-- How many bytes of a part are in the file when a save returns. -/
def handed (a : Answer) (s : RowStore n) (size : ℕ) : ℕ := if s.Opens a then reached a size else 0

def base (i : Slot) : ℕ := i.val * sizeofSubDev

def rowOf (l : List Byte) (i : Slot) : List Byte := slice (base i) sizeofSubDev l

/-- The part of the record in the file is the one in memory, and the rest of the file as it was. -/
def SavesPart (a : Answer) (s : RowStore n) (l : List Byte) (i : Slot) (part : Part sizeofSubDev) :
    Prop :=
  (s.productSubSave a (some i) part).1.io.files s.subdevFile =
    some (overwrite l (base i + part.off) (slice part.off part.size (s.rows.row i)))

def SsetsPart (a : Answer) (s : RowStore n) (l : List Byte) (i : Slot) (part : Part sizeofSubDev)
    (buf : List Byte) : Prop :=
  (s.productSubSset a (some i) part buf).1.rows = s.rows.write i part buf ∧
    (s.productSubSset a (some i) part buf).1.io.files s.subdevFile =
      some (overwrite l (base i + part.off) buf)

/-- The part of the record in memory is the one in the file, and the rest of memory as it was. -/
def LoadsPart (a : Answer) (s : RowStore n) (l : List Byte) (i : Slot) (part : Part sizeofSubDev) :
    Prop :=
  (s.productSubLoad a (some i) part).1.rows =
    s.rows.write i part (slice (base i + part.off) part.size l)

/-- What is set and saved is loaded and got again. -/
def RoundTrips (a a' : Answer) (s : RowStore n) (i : Slot) (part : Part sizeofSubDev)
    (buf : List Byte) : Prop :=
  (s.productSubSset a (some i) part buf).2 = 0 ∧
    ((s.productSubSset a (some i) part buf).1.productSubSget a' (some i) part).2 = (0, some buf)

def Reloads (a a' : Answer) (s : RowStore n) (l : List Byte) (i : Slot) (part : Part sizeofSubDev)
    (buf : List Byte) : Prop :=
  ((s.productSubSset a (some i) part buf).1.productSubLoadAll a' s.subdevFile).2 = 0 →
    ((s.productSubSset a (some i) part buf).1.productSubLoadAll a' s.subdevFile).1.rows.row i =
      clrIdRow (overwrite (rowOf l i) part.off buf)

/-- Every byte that goes to the file belongs where it lands, at the beginning of the record, and
every byte of the part that stays behind is there already. -/
structure Lands (m off : ℕ) (data row : List Byte) : Prop where
  written : ∀ k < m, data[k]? = if off ≤ k then data[k - off]? else row[k]?
  kept : ∀ k, m ≤ k → off ≤ k → k < off + data.length → row[k]? = data[k - off]?

/-- A part is saved and loaded where it belongs. The answers are those to a save, a load, and the
three steps of setting, getting and reloading. -/
structure PartAccess (answers : ℕ → Answer) (s : RowStore n) (l : List Byte) (i : Slot)
    (part : Part sizeofSubDev) (buf : List Byte) : Prop where
  save : s.SavesPart (answers 0) l i part
  load : s.LoadsPart (answers 1) l i part
  sset : s.SsetsPart (answers 2) l i part buf
  sget : s.RoundTrips (answers 2) (answers 3) i part buf
  reload : s.Reloads (answers 2) (answers 4) l i part buf

/-- The bytes at the beginning of the record are the ones that belong to the part, and no use of a
stream is refused or leaves a byte behind that is not in the file. -/
structure PartFits (answers : ℕ → Answer) (s : RowStore n) (l : List Byte) (i : Slot)
    (part : Part sizeofSubDev) (buf : List Byte) : Prop where
  save : Lands (s.handed (answers 0) part.size) part.off
    (slice part.off part.size (s.rows.row i)) (rowOf l i)
  load : ∀ k < part.size, (if s.Opens (answers 1) then (rowOf l i)[k]?
    else (s.rows.row i)[part.off + k]?) = (rowOf l i)[part.off + k]?
  sset : Lands (s.handed (answers 2) part.size) part.off buf (rowOf l i)
  completes : s.Completes (answers 2) part.size
  opens : (answers 3).grants = true ∧ s.io.opened + 1 < n
  sget : ∀ k, s.handed (answers 2) part.size ≤ k → k < part.size → (rowOf l i)[k]? = buf[k]?

section Save

variable {a a' : Answer} {s : RowStore n} {l data row : List Byte} {i : Slot}
  {part : Part sizeofSubDev} {buf : List Byte} {m off : ℕ}

variable (a s part) in
theorem handed_le : s.handed a part.size ≤ part.size := by
  unfold handed
  split
  · exact Store.reached_le _ _
  · exact Nat.zero_le _

theorem lands_iff (hm : m ≤ data.length) (hfits : off + data.length ≤ row.length) :
    overwrite row 0 (data.take m) = overwrite row off data ↔ Lands m off data row := by
  have hlen : (data.take m).length = m := by rw [List.length_take, min_eq_left hm]
  have hfront (k : ℕ) : (overwrite row 0 (data.take m))[k]? =
      if k < m then data[k]? else row[k]? := by
    rw [getElem?_overwrite_inside (by omega), hlen]
    by_cases hk : k < m
    · rw [if_pos hk, if_pos (by omega), Nat.sub_zero, List.getElem?_take, if_pos hk]
    · rw [if_neg hk, if_neg (by omega)]
  constructor
  · intro h
    have hat (k : ℕ) := congrArg (fun r : List Byte => r[k]?) h
    simp only [hfront, getElem?_overwrite_inside hfits] at hat
    constructor
    · intro k hk
      have hk' := hat k
      rw [if_pos hk] at hk'
      rw [hk']
      split_ifs <;> first | rfl | omega
    · intro k hmk hoff hlt
      have hk' := hat k
      rwa [if_neg (by omega), if_pos ⟨hoff, hlt⟩] at hk'
  · intro h
    ext1 k
    rw [hfront, getElem?_overwrite_inside hfits]
    by_cases hk : k < m
    · rw [if_pos hk, h.written k hk]
      split_ifs <;> first | rfl | omega
    · rw [if_neg hk]
      split
      · rename_i hin
        exact h.kept k (not_lt.mp hk) hin.1 hin.2
      · rfl

theorem opens_iff (mode : Mode) (hmode : mode ≠ .write) :
    (s.io.fopen a s.subdevFile mode).isSome ↔ s.Opens a := by
  rw [fopen_isSome_iff, or_iff_right hmode, Opens]

theorem opens_of_fopen {mode : Mode} {p : Fin n × Stdio CStr Byte n} (hmode : mode ≠ .write)
    (h : s.io.fopen a s.subdevFile mode = some p) : s.Opens a := by
  rw [← opens_iff mode hmode, h]
  rfl

theorem not_opens_of_fopen {mode : Mode} (hmode : mode ≠ .write)
    (h : s.io.fopen a s.subdevFile mode = none) : ¬ s.Opens a := by
  rw [← opens_iff mode hmode, h]
  exact Bool.false_ne_true

variable (a i part) in
theorem productSubSave_files (hl : s.io.files s.subdevFile = some l) :
    (s.productSubSave a (some i) part).1.io.files s.subdevFile = some (overwrite l (base i)
      ((slice part.off part.size (s.rows.row i)).take (s.handed a part.size))) := by
  have hlen := s.rows.length_part i part
  unfold productSubSave
  cases hopen : s.io.fopen a s.subdevFile .update with
  | none =>
    have hno : ¬ s.Opens a := not_opens_of_fopen (by simp) hopen
    rw [handed, if_neg hno, List.take_zero, overwrite_nil]
    exact hl
  | some p =>
    obtain ⟨fp, io₁⟩ := p
    have ho : s.Opens a := opens_of_fopen (by simp) hopen
    obtain ⟨l', hl', hat⟩ := at_of_fopen (by simp) hopen
    obtain rfl : l = l' := Option.some.inj (hl.symm.trans hl')
    have hw := write_files ((hat.fseek 0).fseek (i.val * sizeofSubDev)) a
      (slice part.off part.size (s.rows.row i))
    rw [handed, if_pos ho]
    rw [hlen] at hw
    rw [base]
    dsimp only
    split at hw
    · rename_i hne
      rw [if_pos hne]
      exact hw
    · rename_i heq
      rw [if_neg heq]
      exact hw

variable (a s i part) in
theorem productSubSave_rows_eq : (s.productSubSave a (some i) part).1.rows = s.rows ∧
    (s.productSubSave a (some i) part).1.subdevFile = s.subdevFile := by
  unfold productSubSave
  dsimp only
  split
  · exact ⟨rfl, rfl⟩
  · split_ifs <;> exact ⟨rfl, rfl⟩

variable (a s i part) in
/-- A save returns 0 where it opens the file and takes all of a part that is not empty, and then
leaves its stream open. -/
theorem productSubSave_ret : ((s.productSubSave a (some i) part).2 = 0 ↔
      s.Completes a part.size) ∧ (s.Completes a part.size →
    (s.productSubSave a (some i) part).1.io.opened = s.io.opened + 1) := by
  have hlen := s.rows.length_part i part
  unfold productSubSave
  cases hopen : s.io.fopen a s.subdevFile .update with
  | none =>
    have hno : ¬ s.Opens a := not_opens_of_fopen (by simp) hopen
    exact ⟨iff_of_false (by dsimp only; omega) fun h => hno h.1, fun h => absurd h.1 hno⟩
  | some p =>
    obtain ⟨fp, io₁⟩ := p
    have ho : s.Opens a := opens_of_fopen (by simp) hopen
    have hret : (((io₁.fseek fp 0).fseek fp (i.val * sizeofSubDev)).fwrite a fp
        (slice part.off part.size (s.rows.row i))).2 = 1 ↔ s.Completes a part.size := by
      rw [fwrite_uncut_iff, Completes, and_iff_right ho, hlen]
    dsimp only
    split
    · rename_i hne
      exact ⟨iff_of_false (by dsimp only; omega) fun h => hne (hret.mpr h),
        fun h => absurd (hret.mpr h) hne⟩
    · rename_i heq
      refine ⟨iff_of_true rfl (hret.mp (not_not.mp heq)), fun _ => ?_⟩
      exact opened_of_fopen hopen (by rw [handles_fwrite, handles_fseek, handles_fseek])

end Save

section Rows

variable {m : Rows} {i : Slot} {part : Part sizeofSubDev} {data data' l : List Byte}

theorem slice_write (hlen : data.length = part.size) :
    slice part.off part.size ((m.write i part data).row i) = data := by
  have htake : data.take part.size = data := List.take_of_length_le hlen.le
  have hrow : (m.write i part data).row i = overwrite (m.row i) part.off data := by
    unfold Rows.write
    dsimp only
    rw [Function.update_self, htake]
  rw [hrow, slice_overwrite hlen.le, List.drop_of_length_le, List.append_nil]
  rw [m.length_part, hlen]

theorem write_inj (hlen : data.length = part.size) (hlen' : data'.length = part.size) :
    m.write i part data = m.write i part data' ↔ data = data' := by
  constructor
  · intro h
    rw [← slice_write (m := m) (i := i) hlen, h, slice_write hlen']
  · rintro rfl
    rfl

theorem write_self : m.write i part (slice part.off part.size (m.row i)) = m := by
  have hfits := part.fits
  have hlen := m.length_part i part
  ext j : 2
  unfold Rows.write
  dsimp only
  rcases eq_or_ne j i with rfl | hj
  · rw [Function.update_self, List.take_of_length_le hlen.le]
    ext1 k
    rw [getElem?_overwrite_inside (by rw [hlen, m.length_row]; exact hfits)]
    split
    · rename_i hk
      rw [getElem?_slice, if_pos (by omega)]
      congr 1
      omega
    · rfl
  · rw [Function.update_of_ne hj]

theorem base_le (hfull : l.length = 40 * sizeofSubDev) (i : Slot) :
    base i + sizeofSubDev ≤ l.length := by
  have := Nat.mul_le_mul_right sizeofSubDev (Nat.succ_le_of_lt i.isLt)
  rw [Nat.succ_mul] at this
  rw [hfull]
  exact this

theorem length_rowOf (hfull : l.length = 40 * sizeofSubDev) (i : Slot) :
    (rowOf l i).length = sizeofSubDev := by
  have := base_le hfull i
  rw [rowOf, slice, List.length_take, List.length_drop]
  omega

theorem getElem?_rowOf (l : List Byte) (i : Slot) {k : ℕ} (hk : k < sizeofSubDev) :
    (rowOf l i)[k]? = l[base i + k]? := by
  rw [rowOf, getElem?_slice, if_pos hk]

end Rows

section Load

variable {a a' : Answer} {s : RowStore n} {l : List Byte} {i : Slot} {part : Part sizeofSubDev}
  {buf : List Byte}

variable (a i part) in
theorem productSubLoad_rows (hl : s.io.files s.subdevFile = some l)
    (hfull : l.length = 40 * sizeofSubDev) :
    (s.productSubLoad a (some i) part).1.rows = s.rows.write i part
      (if s.Opens a then slice (base i) part.size l
        else slice part.off part.size (s.rows.row i)) ∧
    ((s.productSubLoad a (some i) part).2 = 0 ↔ s.Opens a ∧ 0 < part.size) := by
  unfold productSubLoad
  cases hopen : s.io.fopen a s.subdevFile .read with
  | none =>
    have hno : ¬ s.Opens a := not_opens_of_fopen (by simp) hopen
    rw [if_neg hno, write_self]
    exact ⟨rfl, iff_of_false (by dsimp only; omega) fun h => hno h.1⟩
  | some p =>
    obtain ⟨fp, io₁⟩ := p
    have ho : s.Opens a := opens_of_fopen (by simp) hopen
    obtain ⟨l', hl', hat⟩ := at_of_fopen (by simp) hopen
    obtain rfl : l = l' := Option.some.inj (hl.symm.trans hl')
    have hseek := hat.fseek (i.val * sizeofSubDev)
    have hgot : ((io₁.fseek fp (i.val * sizeofSubDev)).fread fp part.size).2.1 =
        slice (base i) part.size l := congrArg Prod.fst hseek.fread.2
    have hret : ((io₁.fseek fp (i.val * sizeofSubDev)).fread fp part.size).2.2 = 1 ↔
        0 < part.size := by
      have hbase := base_le hfull i
      have hfits := part.fits
      rw [base] at hbase
      rw [hseek.fread_eq_one_iff]
      omega
    rw [if_pos ho]
    dsimp only
    rw [hgot]
    split
    · rename_i hne
      exact ⟨rfl, iff_of_false (by dsimp only; omega) fun h => hne (hret.mpr h.2)⟩
    · rename_i heq
      exact ⟨rfl, iff_of_true rfl ⟨ho, hret.mp (not_not.mp heq)⟩⟩

theorem loadAll_of_opens (hl : s.io.files s.subdevFile = some l) (ho : s.Opens a) :
    (s.loadAll a).1.rows = (s.rows.readOver (l.take (40 * sizeofSubDev))).clrIdAfterLoad ∧
      ((s.loadAll a).2 = 0 ↔ 40 * sizeofSubDev ≤ l.length) := by
  obtain ⟨⟨fp, io₁⟩, hopen⟩ := Option.isSome_iff_exists.mp ((opens_iff .read (by simp)).mpr ho)
  obtain ⟨l', hl', hat⟩ := at_of_fopen (by simp) hopen
  obtain rfl : l = l' := Option.some.inj (hl.symm.trans hl')
  have hseek := hat.fseek 0
  have hgot : ((io₁.fseek fp 0).fread fp (40 * sizeofSubDev)).2.1 = l.take (40 * sizeofSubDev) :=
    congrArg Prod.fst hseek.fread.2
  have hret : ((io₁.fseek fp 0).fread fp (40 * sizeofSubDev)).2.2 = 1 ↔
      40 * sizeofSubDev ≤ l.length := by
    have := sizeofSubDev_ge
    rw [hseek.fread_eq_one_iff]
    omega
  unfold loadAll
  rw [hopen]
  dsimp only
  rw [hgot]
  refine ⟨rfl, ?_⟩
  rw [← hret]
  split
  · rename_i hne
    exact iff_of_false (by omega) hne
  · rename_i heq
    exact iff_of_true rfl (not_not.mp heq)

theorem loadAll_of_not_opens (ho : ¬ s.Opens a) : s.loadAll a = (s, -1) := by
  have hopen : s.io.fopen a s.subdevFile .read = none := by
    rw [← Option.not_isSome_iff_eq_none, opens_iff .read (by simp)]
    exact ho
  rw [loadAll, hopen]

theorem readOver_row (m : Rows) {got : List Byte} (h : base i + sizeofSubDev ≤ got.length) :
    (m.readOver got).row i = slice (base i) sizeofSubDev got := by
  have hlen : (slice (base i) sizeofSubDev got).length = sizeofSubDev := by
    rw [slice, List.length_take, List.length_drop]
    omega
  have hne : slice (base i) sizeofSubDev got ≠ [] := by
    have := sizeofSubDev_ge
    rw [← List.length_pos_iff]
    omega
  change overwrite (m.row i) 0 (slice (base i) sizeofSubDev got) = _
  rw [overwrite_of_ne_nil hne, List.take_zero, Nat.zero_sub, List.replicate_zero, List.nil_append,
    List.nil_append, List.drop_of_length_le, List.append_nil]
  rw [m.length_row, hlen, Nat.zero_add]

end Load

section Access

variable {a a' : Answer} {s : RowStore n} {l : List Byte} {i : Slot} {part : Part sizeofSubDev}
  {buf : List Byte}

theorem file_lands_iff {m : ℕ} {data : List Byte} (hfull : l.length = 40 * sizeofSubDev)
    (hm : m ≤ part.size) (hlen : data.length = part.size) :
    overwrite l (base i) (data.take m) = overwrite l (base i + part.off) data ↔
      Lands m part.off data (rowOf l i) := by
  have hfits := part.fits
  have htake : (data.take m).length ≤ part.size := by
    rw [List.length_take]
    omega
  have hiff : overwrite l (base i + 0) (data.take m) = overwrite l (base i + part.off) data ↔
      overwrite (rowOf l i) 0 (data.take m) = overwrite (rowOf l i) part.off data :=
    overwrite_inside_iff (by omega) (by omega) (base_le hfull i)
  rw [Nat.add_zero] at hiff
  rw [hiff]
  exact lands_iff (by omega) (by rw [hlen, length_rowOf hfull]; exact hfits)

theorem savesPart_iff (hl : s.io.files s.subdevFile = some l)
    (hfull : l.length = 40 * sizeofSubDev) : s.SavesPart a l i part ↔
      Lands (s.handed a part.size) part.off (slice part.off part.size (s.rows.row i))
        (rowOf l i) := by
  rw [SavesPart, productSubSave_files a i part hl, Option.some.injEq]
  exact file_lands_iff hfull (handed_le a s part) (s.rows.length_part i part)

theorem productSubSset_eq : s.productSubSset a (some i) part buf =
    RowStore.productSubSave a { s with rows := s.rows.write i part buf } (some i) part := by
  rw [productSubSset, productSubSet]
  exact if_neg (not_not.mpr rfl)

theorem ssetsPart_iff (hl : s.io.files s.subdevFile = some l)
    (hfull : l.length = 40 * sizeofSubDev) (hbuf : buf.length = part.size) :
    s.SsetsPart a l i part buf ↔ Lands (s.handed a part.size) part.off buf (rowOf l i) := by
  have hfile := productSubSave_files a i part
    (s := { s with rows := s.rows.write i part buf }) hl
  rw [slice_write hbuf] at hfile
  rw [SsetsPart, productSubSset_eq, hfile, Option.some.injEq,
    and_iff_right (productSubSave_rows_eq a { s with rows := s.rows.write i part buf } i part).1]
  exact file_lands_iff hfull (handed_le a s part) hbuf

theorem loadsPart_iff (hl : s.io.files s.subdevFile = some l)
    (hfull : l.length = 40 * sizeofSubDev) : s.LoadsPart a l i part ↔
      ∀ k < part.size, (if s.Opens a then (rowOf l i)[k]?
        else (s.rows.row i)[part.off + k]?) = (rowOf l i)[part.off + k]? := by
  have hfits := part.fits
  have hbase := base_le hfull i
  have hslice (pos : ℕ) (hpos : pos + part.size ≤ sizeofSubDev) :
      (slice (base i + pos) part.size l).length = part.size := by
    rw [slice, List.length_take, List.length_drop]
    omega
  have hlen : (if s.Opens a then slice (base i) part.size l
      else slice part.off part.size (s.rows.row i)).length = part.size := by
    split
    · have hfront := hslice 0 (by omega)
      rwa [Nat.add_zero] at hfront
    · exact s.rows.length_part i part
  rw [LoadsPart, (productSubLoad_rows a i part hl hfull).1, write_inj hlen (hslice part.off hfits)]
  have hat (k : ℕ) (hk : k < part.size) : (if s.Opens a then slice (base i) part.size l
      else slice part.off part.size (s.rows.row i))[k]? = (if s.Opens a then (rowOf l i)[k]?
        else (s.rows.row i)[part.off + k]?) := by
    split
    · rw [getElem?_slice, if_pos hk, getElem?_rowOf l i (by omega)]
    · rw [getElem?_slice, if_pos hk]
  constructor
  · intro h k hk
    rw [← hat k hk, h, getElem?_slice, if_pos hk, getElem?_rowOf l i (by omega), Nat.add_assoc]
  · intro h
    apply List.ext_getElem?
    intro k
    by_cases hk : k < part.size
    · rw [hat k hk, h k hk, getElem?_slice, if_pos hk, getElem?_rowOf l i (by omega),
        Nat.add_assoc]
    · rw [List.getElem?_eq_none (by omega), List.getElem?_eq_none]
      rw [hslice part.off hfits]
      omega

theorem productSubSget_eq (hl : s.io.files s.subdevFile = some l)
    (hfull : l.length = 40 * sizeofSubDev) : (s.productSubSget a (some i) part).2 =
      if s.Opens a ∧ 0 < part.size then (0, some (slice (base i) part.size l)) else (-1, none) := by
  obtain ⟨hrows, hret⟩ := productSubLoad_rows a i part hl hfull
  have hbase := base_le hfull i
  have hfits := part.fits
  unfold productSubSget
  dsimp only
  split_ifs with hne hok hok
  · exact absurd (hret.mpr hok) hne
  · rfl
  · rw [if_pos hok.1] at hrows
    have hlen : (slice (base i) part.size l).length = part.size := by
      rw [slice, List.length_take, List.length_drop]
      omega
    rw [productSubGet, hrows, slice_write hlen]
  · exact absurd (hret.mp (not_not.mp hne)) hok

variable (i part) in
theorem slice_written_iff {m : ℕ} (hfull : l.length = 40 * sizeofSubDev)
    (hbuf : buf.length = part.size) (hm : m ≤ part.size) :
    slice (base i) part.size (overwrite l (base i) (buf.take m)) = buf ↔
      ∀ k, m ≤ k → k < part.size → (rowOf l i)[k]? = buf[k]? := by
  have hfits := part.fits
  have hbase := base_le hfull i
  have htake : (buf.take m).length = m := by
    rw [List.length_take, hbuf, min_eq_left hm]
  have hat (k : ℕ) (hk : k < part.size) :
      (slice (base i) part.size (overwrite l (base i) (buf.take m)))[k]? =
        if k < m then buf[k]? else (rowOf l i)[k]? := by
    rw [getElem?_slice, if_pos hk, getElem?_overwrite_inside (by omega), htake,
      getElem?_rowOf l i (by omega)]
    by_cases hlt : k < m
    · rw [if_pos (by omega), if_pos hlt, Nat.add_sub_cancel_left, List.getElem?_take, if_pos hlt]
    · rw [if_neg (by omega), if_neg hlt]
  constructor
  · intro h k hmk hk
    have hk' := hat k hk
    rw [h, if_neg (by omega)] at hk'
    exact hk'.symm
  · intro h
    apply List.ext_getElem?
    intro k
    by_cases hk : k < part.size
    · rw [hat k hk]
      split
      · rfl
      · exact h k (by omega) hk
    · rw [List.getElem?_eq_none, List.getElem?_eq_none (by omega)]
      exact (List.length_take_le _ _).trans (by omega)

/-- What is set comes back exactly when nothing is refused, and what stays in the stream of the
save is in the file already. -/
theorem roundTrips_iff (hl : s.io.files s.subdevFile = some l)
    (hfull : l.length = 40 * sizeofSubDev) (hbuf : buf.length = part.size) :
    s.RoundTrips a a' i part buf ↔ s.Completes a part.size ∧
      (a'.grants = true ∧ s.io.opened + 1 < n) ∧
      ∀ k, s.handed a part.size ≤ k → k < part.size → (rowOf l i)[k]? = buf[k]? := by
  have hfits := part.fits
  have hbase := base_le hfull i
  have hhanded := handed_le a s part
  -- the save writes the bytes that were set
  let s₀ : RowStore n := { s with rows := s.rows.write i part buf }
  have hfile := productSubSave_files a i part (s := s₀) hl
  rw [slice_write hbuf] at hfile
  obtain ⟨-, hname⟩ := productSubSave_rows_eq a s₀ i part
  obtain ⟨hret, hopened⟩ := productSubSave_ret a s₀ i part
  rw [RoundTrips, productSubSset_eq, hret]
  refine and_congr_right fun hcomplete => ?_
  have hfull' : (overwrite l (base i) (buf.take (s.handed a part.size))).length =
      40 * sizeofSubDev := by
    rw [length_overwrite (by rw [List.length_take]; omega), hfull]
  rw [productSubSget_eq (by rw [hname]; exact hfile) hfull']
  have hopens : (RowStore.productSubSave a s₀ (some i) part).1.Opens a' ∧ 0 < part.size ↔
      a'.grants = true ∧ s.io.opened + 1 < n := by
    rw [Opens, hopened hcomplete, hname, hfile]
    have := hcomplete.2.1
    simp [this, s₀]
  rw [← slice_written_iff i part hfull hbuf hhanded]
  split
  · rename_i hok
    rw [and_iff_right (hopens.mp hok)]
    simp
  · rename_i hno
    refine iff_of_false (by simp) ?_
    rintro ⟨hok, -⟩
    exact hno (hopens.mpr hok)

theorem reloads_of_sset (hfull : l.length = 40 * sizeofSubDev) (hbuf : buf.length = part.size)
    (h : s.SsetsPart a l i part buf) : s.Reloads a a' l i part buf := by
  have hfits := part.fits
  have hbase := base_le hfull i
  intro hret
  generalize hs : (s.productSubSset a (some i) part buf).1 = s₁ at hret ⊢
  have hname : s₁.subdevFile = s.subdevFile := by
    rw [← hs, productSubSset_eq]
    exact (productSubSave_rows_eq _ _ _ _).2
  have hfile := h.2
  rw [hs, ← hname] at hfile
  have hload : s₁.productSubLoadAll a' s.subdevFile = s₁.loadAll a' := by
    rw [← hname, productSubLoadAll]
    dsimp only
    rw [if_pos]
    rw [hfile]
    rfl
  rw [hload] at hret ⊢
  have hfull' : (overwrite l (base i + part.off) buf).length = 40 * sizeofSubDev := by
    rw [length_overwrite (by omega), hfull]
  by_cases ho : s₁.Opens a'
  · rw [(loadAll_of_opens hfile ho).1, List.take_of_length_le hfull'.le]
    change clrIdRow ((s₁.rows.readOver _).row i) = _
    rw [readOver_row _ (base_le hfull' i), slice_overwrite_inside (by omega) hbase]
    rfl
  · rw [loadAll_of_not_opens ho] at hret
    dsimp only at hret
    omega

/-- A part is saved and loaded where it belongs exactly when the bytes at the beginning of the
record are those of the part, and nothing is refused or stays in a stream. -/
theorem partAccess_iff (answers : ℕ → Answer) (s : RowStore n) (l : List Byte) (i : Slot)
    (part : Part sizeofSubDev) (buf : List Byte) (hl : s.io.files s.subdevFile = some l)
    (hfull : l.length = 40 * sizeofSubDev) (hbuf : buf.length = part.size) :
    s.PartAccess answers l i part buf ↔ s.PartFits answers l i part buf := by
  constructor
  · intro h
    obtain ⟨hcomplete, hopens, hkept⟩ := (roundTrips_iff hl hfull hbuf).mp h.sget
    exact {
      save := (savesPart_iff hl hfull).mp h.save
      load := (loadsPart_iff hl hfull).mp h.load
      sset := (ssetsPart_iff hl hfull hbuf).mp h.sset
      completes := hcomplete
      opens := hopens
      sget := hkept }
  · intro h
    have hsset := (ssetsPart_iff hl hfull hbuf).mpr h.sset
    exact {
      save := (savesPart_iff hl hfull).mpr h.save
      load := (loadsPart_iff hl hfull).mpr h.load
      sset := hsset
      sget := (roundTrips_iff hl hfull hbuf).mpr ⟨h.completes, h.opens, h.sget⟩
      reload := reloads_of_sset hfull hbuf hsset }

end Access

/-- A table and a file of zero bytes, and room for two streams. -/
def blank : RowStore 2 :=
  ⟨.zero, [], ⟨fun _ => some (List.replicate (40 * sizeofSubDev) 0), fun _ => none⟩⟩

/-- A system that refuses nothing and has small writes in the file at once. -/
def prompt : Answer := ⟨true, none, 4096, true⟩

theorem blank_opens : blank.Opens prompt := ⟨rfl, by decide, rfl⟩

theorem blank_handed {size : ℕ} (h : size ≤ 4096) : blank.handed prompt size = size := by
  rw [handed, if_pos blank_opens]
  exact min_eq_left h

/-- The four bytes at the beginning of a record are saved and loaded where they belong. -/
theorem partAccess_use : blank.PartAccess (fun _ => prompt) (List.replicate (40 * sizeofSubDev) 0)
    0 ⟨0, 4, by decide⟩ [1, 0, 0, 0] := by
  have hlands (data : List Byte) (hlen : data.length = 4) (row : List Byte) :
      Lands (blank.handed prompt 4) 0 data row := by
    rw [blank_handed (by decide)]
    refine ⟨fun k _ => by simp, ?_⟩
    intro k hk _ hlt
    omega
  refine (partAccess_iff _ blank _ 0 ⟨0, 4, by decide⟩ [1, 0, 0, 0] rfl List.length_replicate
    rfl).mpr ⟨?_, ?_, ?_, ?_, ?_, ?_⟩
  · exact hlands _ (Rows.length_part _ _ _) _
  · intro k _
    rw [if_pos blank_opens, Nat.zero_add]
  · exact hlands _ rfl _
  · exact ⟨blank_opens, by decide, by rintro m ⟨⟩⟩
  · exact ⟨rfl, by decide⟩
  · intro k hk hlt
    rw [blank_handed (by decide)] at hk
    omega

/-- A handle that is set and saved lands on the word that tells whether the record is in use. -/
theorem not_partAccess_devid : ¬ blank.PartAccess (fun _ => prompt)
    (List.replicate (40 * sizeofSubDev) 0) 0 ⟨4, 4, by decide⟩ [1, 0, 0, 0] := by
  intro h
  have hlands := (ssetsPart_iff rfl List.length_replicate rfl).mp h.sset
  rw [blank_handed (by decide)] at hlands
  have hfirst := hlands.written 0 (by decide)
  rw [if_neg (by decide), getElem?_rowOf _ _ (by decide), List.getElem?_replicate,
    if_pos (by decide)] at hfirst
  exact absurd hfirst (by decide)

end RowStore

end Afly
