import Afly.Storage.Agreement

/-! # The table and its file byte by byte

`product_sub.c` also saves and loads parts of a record, by an offset and a size,
and it reads the whole table over the one in memory. Here the table is kept as
the bytes of its records, so that a part is just a piece of a row.
-/

namespace Afly

open Stdio

abbrev Byte := Fin 256

instance byteNeZero : NeZero 256 := ⟨by decide⟩

instance byteInhabited : Inhabited Byte := ⟨0⟩

/-- `sizeof(stSubDev_t)` on the target. -/
def sizeofSubDev : ℕ := 29060

theorem sizeofSubDev_ge : 12 ≤ sizeofSubDev := by decide

/-- The table `subdevs` as bytes. -/
@[ext]
structure Rows where
  row : Slot → List Byte
  length_row : ∀ i, (row i).length = sizeofSubDev

namespace Rows

/-- The table after a `memset` to zero. -/
def zero : Rows := ⟨fun _ => List.replicate sizeofSubDev 0, fun _ => List.length_replicate⟩

def bytes (m : Rows) : List Byte := (List.finRange 40).flatMap m.row

/-- Write bytes into a part of a record. What does not fit into the part is not written. -/
def write (m : Rows) (i : Slot) (part : Part sizeofSubDev) (data : List Byte) : Rows where
  row := Function.update m.row i (overwrite (m.row i) part.off (data.take part.size))
  length_row := by
    intro j
    have hfits := part.fits
    have hlen : (data.take part.size).length ≤ part.size := List.length_take_le _ _
    rcases eq_or_ne j i with rfl | hj
    · rw [Function.update_self, length_overwrite (by rw [m.length_row]; omega), m.length_row]
    · rw [Function.update_of_ne hj, m.length_row]

def readOver (m : Rows) (got : List Byte) : Rows where
  row i := overwrite (m.row i) 0 (slice (i.val * sizeofSubDev) sizeofSubDev got)
  length_row := by
    intro i
    have hlen : (slice (i.val * sizeofSubDev) sizeofSubDev got).length ≤ sizeofSubDev :=
      List.length_take_le _ _
    rw [length_overwrite (by rw [m.length_row]; omega), m.length_row]

end Rows

/-- The `int` at the front of a record, `use`, is not zero. -/
def rowInUse (row : List Byte) : Prop := row.take 4 ≠ List.replicate 4 0

instance (row : List Byte) : Decidable (rowInUse row) :=
  inferInstanceAs (Decidable (row.take 4 ≠ List.replicate 4 0))

/-- One round of `product_sub_clr_id_after_load`: `devid` and `login` follow `use`. -/
def clrIdRow (row : List Byte) : List Byte :=
  if rowInUse row then overwrite row 4 (List.replicate 8 0) else row

theorem length_clrIdRow {row : List Byte} (h : row.length = sizeofSubDev) :
    (clrIdRow row).length = sizeofSubDev := by
  have := sizeofSubDev_ge
  unfold clrIdRow
  split
  · rw [length_overwrite (by rw [List.length_replicate]; omega), h]
  · exact h

def Rows.clrIdAfterLoad (m : Rows) : Rows :=
  ⟨fun i => clrIdRow (m.row i), fun _ => length_clrIdRow (m.length_row _)⟩

/-- The table, the name of the db file and the streams. -/
structure RowStore (n : ℕ) where
  rows : Rows
  subdevFile : CStr
  io : Stdio CStr Byte n

namespace RowStore

variable {n : ℕ}

def productSubSave (a : Answer) (s : RowStore n) (sd : Option Slot) (part : Part sizeofSubDev) :
    RowStore n × ℤ :=
  match sd with
  | none => (s, -1)
  | some i =>
    match s.io.fopen a s.subdevFile .update with
    | none => (s, -2)
    | some (fp, io) =>
      let io := io.fseek fp 0
      let io := io.fseek fp (i.val * sizeofSubDev)
      let (io, ret) := io.fwrite a fp (slice part.off part.size (s.rows.row i))
      if ret ≠ 1 then ({ s with io := io.fclose a fp }, -3) else ({ s with io := io }, 0)

def productSubLoad (a : Answer) (s : RowStore n) (sd : Option Slot) (part : Part sizeofSubDev) :
    RowStore n × ℤ :=
  match sd with
  | none => (s, -1)
  | some i =>
    match s.io.fopen a s.subdevFile .read with
    | none => (s, -2)
    | some (fp, io) =>
      let io := io.fseek fp (i.val * sizeofSubDev)
      let (io, got, ret) := io.fread fp part.size
      let rows := s.rows.write i part got
      if ret ≠ 1 then ({ s with rows := rows, io := io.fclose a fp }, -3)
      else ({ s with rows := rows, io := io }, 0)

def productSubSet (s : RowStore n) (sd : Option Slot) (part : Part sizeofSubDev)
    (buf : List Byte) : RowStore n × ℤ :=
  match sd with
  | none => (s, -1)
  | some i => ({ s with rows := s.rows.write i part buf }, 0)

/-- `product_sub_get`: the code, and what it copies to the buffer. -/
def productSubGet (s : RowStore n) (sd : Option Slot) (part : Part sizeofSubDev) :
    ℤ × Option (List Byte) :=
  match sd with
  | none => (-1, none)
  | some i => (0, some (slice part.off part.size (s.rows.row i)))

def productSubSset (a : Answer) (s : RowStore n) (sd : Option Slot) (part : Part sizeofSubDev)
    (buf : List Byte) : RowStore n × ℤ :=
  let (s, ret) := s.productSubSet sd part buf
  if ret ≠ 0 then (s, -1) else s.productSubSave a sd part

def productSubSget (a : Answer) (s : RowStore n) (sd : Option Slot) (part : Part sizeofSubDev) :
    RowStore n × ℤ × Option (List Byte) :=
  let (s, ret) := s.productSubLoad a sd part
  if ret ≠ 0 then (s, -1, none) else (s, s.productSubGet sd part)

def productSubSaveAll (a : Answer) (s : RowStore n) : RowStore n × ℤ :=
  match s.io.fopen a s.subdevFile .write with
  | none => (s, -1)
  | some (fp, io) =>
    let io := io.fseek fp 0
    let (io, ret) := io.fwrite a fp s.rows.bytes
    if ret ≠ 1 then ({ s with io := io.fclose a fp }, -2)
    else ({ s with io := io.fclose a fp }, 0)

def loadAll (a : Answer) (s : RowStore n) : RowStore n × ℤ :=
  match s.io.fopen a s.subdevFile .read with
  | none => (s, -1)
  | some (fp, io) =>
    let io := io.fseek fp 0
    let (io, got, ret) := io.fread fp (40 * sizeofSubDev)
    let rows := (s.rows.readOver got).clrIdAfterLoad
    ({ s with rows := rows, io := io.fclose a fp }, if ret ≠ 1 then -2 else 0)

def productSubLoadAll (a : Answer) (s : RowStore n) (db : CStr) : RowStore n × ℤ :=
  let s := { s with subdevFile := db }
  if (s.io.files db).isSome then s.loadAll a
  else { s with rows := .zero }.productSubSaveAll a

end RowStore

end Afly
