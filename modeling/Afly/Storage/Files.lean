import Afly.Lib.Stdio
import Afly.Table.Bindings

/-! # The db file behind its streams

The functions of `product_sub.c` that save and load, with the streams they open
and close, and the operations on devices and keys that call them. A record is a
row of `sizeof(stSubDev_t)` cells, and the file holds the rows in order. Every
call leaves a report of what it found and what it left.
-/

namespace Afly

open Stdio

structure Layout (α : Type*) where
  sizeof : ℕ
  cells : SubDev → List α
  record : List α → SubDev
  length_cells : ∀ sd, (cells sd).length = sizeof
  sizeof_pos : 0 < sizeof

/-- A part of a record: the `off` and the `size` of an access. -/
structure Part (sizeof : ℕ) where
  off : ℕ
  size : ℕ
  fits : off + size ≤ sizeof

def Part.whole (sizeof : ℕ) : Part sizeof := ⟨0, sizeof, by omega⟩

inductive FileCall (sizeof : ℕ) where
  | save (sd : Option Slot) (part : Part sizeof)
  | load (sd : Option Slot) (part : Part sizeof)
  | saveAll
  | loadAll

section Calls

variable {α : Type*} [Inhabited α] {n : ℕ} (L : Layout α)

/-- The cells of the table `subdevs`. -/
def tableCells (subdevs : Slot → SubDev) : List α :=
  (List.finRange 40).flatMap fun i => L.cells (subdevs i)

def readOver (sd : SubDev) (off : ℕ) (got : List α) : SubDev :=
  L.record (overwrite (L.cells sd) off got)

/-- The table after `got` was read over it. A record that no cell reaches stays as it is. -/
def readTable (subdevs : Slot → SubDev) (got : List α) : Slot → SubDev := fun i =>
  if i.val * L.sizeof < got.length then
    readOver L (subdevs i) 0 (slice (i.val * L.sizeof) L.sizeof got)
  else subdevs i

def fileSave (a : Answer) (io : Stdio CStr α n) (subdevFile : CStr) (subdevs : Slot → SubDev)
    (sd : Option Slot) (part : Part L.sizeof) : Stdio CStr α n × ℤ :=
  match sd with
  | none => (io, -1)
  | some i =>
    match io.fopen a subdevFile .update with
    | none => (io, -2)
    | some (fp, io) =>
      let io := io.fseek fp 0
      let io := io.fseek fp (i.val * L.sizeof)
      let (io, ret) := io.fwrite a fp (slice part.off part.size (L.cells (subdevs i)))
      if ret ≠ 1 then (io.fclose a fp, -3) else (io, 0)

/-- `product_sub_load`: the streams, the table and the code. -/
def fileLoad (a : Answer) (io : Stdio CStr α n) (subdevFile : CStr) (subdevs : Slot → SubDev)
    (sd : Option Slot) (part : Part L.sizeof) : Stdio CStr α n × (Slot → SubDev) × ℤ :=
  match sd with
  | none => (io, subdevs, -1)
  | some i =>
    match io.fopen a subdevFile .read with
    | none => (io, subdevs, -2)
    | some (fp, io) =>
      let io := io.fseek fp (i.val * L.sizeof)
      let (io, got, ret) := io.fread fp part.size
      let subdevs := Function.update subdevs i (readOver L (subdevs i) part.off got)
      if ret ≠ 1 then (io.fclose a fp, subdevs, -3) else (io, subdevs, 0)

def fileSaveAll (a : Answer) (io : Stdio CStr α n) (subdevFile : CStr)
    (subdevs : Slot → SubDev) : Stdio CStr α n × ℤ :=
  match io.fopen a subdevFile .write with
  | none => (io, -1)
  | some (fp, io) =>
    let io := io.fseek fp 0
    let (io, ret) := io.fwrite a fp (tableCells L subdevs)
    if ret ≠ 1 then (io.fclose a fp, -2) else (io.fclose a fp, 0)

def clrIdAfterLoad (subdevs : Slot → SubDev) : Slot → SubDev := fun i =>
  if (subdevs i).use = 0 then subdevs i else { subdevs i with login := 0, devid := 0 }

def fileLoadAll (a : Answer) (io : Stdio CStr α n) (db : CStr) (subdevs : Slot → SubDev) :
    Stdio CStr α n × (Slot → SubDev) × ℤ :=
  match io.fopen a db .read with
  | none => (io, subdevs, -1)
  | some (fp, io) =>
    let io := io.fseek fp 0
    let (io, got, ret) := io.fread fp (40 * L.sizeof)
    let subdevs := clrIdAfterLoad (readTable L subdevs got)
    if ret ≠ 1 then (io.fclose a fp, subdevs, -2) else (io.fclose a fp, subdevs, 0)

def searchByName (subdevs : Slot → SubDev) (name : CStr) : Option Slot :=
  Fin.find? fun i => (subdevs i).use ≠ 0 ∧ name = (subdevs i).deviceName

def malloc (subdevs : Slot → SubDev) : Option Slot := Fin.find? fun i => (subdevs i).use = 0

end Calls

/-- What a call found, and what it left: the streams, the table at its return and its code. -/
structure FileReport {α : Type*} (L : Layout α) (n : ℕ) where
  call : FileCall L.sizeof
  subdevFile : CStr
  before : Stdio CStr α n
  after : Stdio CStr α n
  subdevs : Slot → SubDev
  ret : ℤ

/-- The table in memory, the name of the db file, the streams, and the calls so far. -/
structure Store {α : Type*} (L : Layout α) (n : ℕ) where
  subdevs : Slot → SubDev
  subdevFile : CStr
  io : Stdio CStr α n
  log : List (FileReport L n)

namespace Store

variable {α : Type*} [Inhabited α] {L : Layout α} {n : ℕ}

def setDev (s : Store L n) (i : Slot) (sd : SubDev) : Store L n :=
  { s with subdevs := Function.update s.subdevs i sd }

def leave (s : Store L n) (call : FileCall L.sizeof) (before : Stdio CStr α n) (ret : ℤ) :
    Store L n × ℤ :=
  ({ s with log := s.log ++ [⟨call, s.subdevFile, before, s.io, s.subdevs, ret⟩] }, ret)

def productSubSave (a : Answer) (s : Store L n) (sd : Option Slot) (part : Part L.sizeof) :
    Store L n × ℤ :=
  let (io, ret) := fileSave L a s.io s.subdevFile s.subdevs sd part
  { s with io := io }.leave (.save sd part) s.io ret

def productSubLoad (a : Answer) (s : Store L n) (sd : Option Slot) (part : Part L.sizeof) :
    Store L n × ℤ :=
  let (io, subdevs, ret) := fileLoad L a s.io s.subdevFile s.subdevs sd part
  { s with io := io, subdevs := subdevs }.leave (.load sd part) s.io ret

def productSubSaveAll (a : Answer) (s : Store L n) : Store L n × ℤ :=
  let (io, ret) := fileSaveAll L a s.io s.subdevFile s.subdevs
  { s with io := io }.leave .saveAll s.io ret

def productSubLoadAll (a : Answer) (s : Store L n) (db : CStr) : Store L n × ℤ :=
  let io := s.io
  let s := { s with subdevFile := db }
  if (io.files db).isSome then
    let (io', subdevs, ret) := fileLoadAll L a io db s.subdevs
    { s with io := io', subdevs := subdevs }.leave .loadAll io ret
  else
    let (s, ret) := { s with subdevs := fun _ => .zero }.productSubSaveAll a
    s.leave .loadAll io ret

/-- Save all of the record `i`. -/
def saveRecord (a : Answer) (s : Store L n) (i : Slot) : Store L n × ℤ :=
  s.productSubSave a (some i) (.whole _)

def productSubAdd (a : Answer) (s : Store L n) (name key : CStr) (secret : Option CStr) :
    Option (Store L n × ℤ) :=
  match searchByName s.subdevs name with
  | some i => ((s.subdevs i).assign key secret).map fun sd => (s.setDev i sd, 0)
  | none =>
    match malloc s.subdevs with
    | none => some (s, -1)
    | some i => ((s.subdevs i).occupy name key secret).map fun sd =>
        (s.setDev i sd).saveRecord a i

def productSubDel (a : Answer) (s : Store L n) (name : CStr) : Store L n × ℤ :=
  match searchByName s.subdevs name with
  | none => (s, 0)
  | some i => (((s.setDev i .zero).saveRecord a i).1, 0)

def productSubClr (a : Answer) (s : Store L n) : Store L n × ℤ :=
  { s with subdevs := fun _ => .zero }.productSubSaveAll a

def productSubLockAddKeyComplete (a : Answer) (s : Store L n) (i : Slot) (type id : ℤ) :
    Store L n × ℤ :=
  let sd := s.subdevs i
  match firstAdding sd type id with
  | none => (s, -1)
  | some j =>
    (s.setDev i (sd.setBankKey type j { sd.bank type j with keyState := keyStateAdded })
      ).saveRecord a i

def productSubLockDelKey (a : Answer) (s : Store L n) (i : Slot) (type id : ℤ) :
    Store L n × ℤ :=
  let sd := s.subdevs i
  match firstAdded sd type id with
  | none => (s, -1)
  | some j => (s.setDev i (sd.setBankKey type j .zero)).saveRecord a i

/-- One round of `product_sub_lock_clr_key`. -/
def clrKeyRound (answers : ℕ → Answer) (i : Slot) (type : ℤ) (s : Store L n) (j : Fin 128) :
    Store L n :=
  let sd := s.subdevs i
  if (sd.bank type j).keyState = keyStateNone then s
  else ((s.setDev i (sd.setBankKey type j .zero)).saveRecord (answers j) i).1

def productSubLockClrKey (answers : ℕ → Answer) (s : Store L n) (i : Slot) (type : ℤ) :
    Store L n × ℤ :=
  ((List.finRange 128).foldl (clrKeyRound answers i type) s, 0)

def productSubLockAddDynamicComplete (a : Answer) (s : Store L n) (i : Slot) : Store L n × ℤ :=
  (s.setDev i { s.subdevs i with dynamic := 1 }).saveRecord a i

def deviceOp (answers : ℕ → Answer) (s : Store L n) (i : Slot) : DeviceOp → Store L n
  | .addKeyWaitAck time type limit buf =>
    match productSubLockAddKeyWaitAck (s.subdevs i) time type limit buf with
    | none => s
    | some (sd, _) => s.setDev i sd
  | .addKeyComplete type id => (s.productSubLockAddKeyComplete (answers 0) i type id).1
  | .delKey type id => (s.productSubLockDelKey (answers 0) i type id).1
  | .clrKey type => (s.productSubLockClrKey answers i type).1
  | .addDynamicWaitAck seed interval =>
    s.setDev i { s.subdevs i with seed := seed, interval := interval }
  | .addDynamicComplete => (s.productSubLockAddDynamicComplete (answers 0) i).1

end Store

/-- What the gateway does with the table: the operations of `product_sub.c`, the saves that
`afly.c` makes itself, and the members that it writes. -/
inductive StoreOp (sizeof : ℕ) where
  | table (op : TableOp)
  | save (sd : Option Slot) (part : Part sizeof)
  | load (sd : Option Slot) (part : Part sizeof)
  | saveAll
  | loadAll (db : CStr)
  | assign (i : Slot) (sd : SubDev)

/-- One operation, with the answers that the system gives to its uses of a stream. -/
def Store.step {α : Type*} [Inhabited α] {L : Layout α} {n : ℕ} (s : Store L n) :
    (ℕ → Answer) × StoreOp L.sizeof → Option (Store L n)
  | (answers, .table (.add name key secret)) =>
    (s.productSubAdd (answers 0) name key secret).map (·.1)
  | (answers, .table (.del name)) => some (s.productSubDel (answers 0) name).1
  | (answers, .table .clr) => some (s.productSubClr (answers 0)).1
  | (answers, .table (.device i op)) => some (s.deviceOp answers i op)
  | (answers, .save sd part) => some (s.productSubSave (answers 0) sd part).1
  | (answers, .load sd part) => some (s.productSubLoad (answers 0) sd part).1
  | (answers, .saveAll) => some (s.productSubSaveAll (answers 0)).1
  | (answers, .loadAll db) => some (s.productSubLoadAll (answers 0) db).1
  | (_, .assign i sd) => some (s.setDev i sd)

end Afly
