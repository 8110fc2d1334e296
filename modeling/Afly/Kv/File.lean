import Afly.Kv.Base64
import Afly.Kv.Items

/-! # The key-value file

`kv.c` and the functions of `HAL_OS_linux.c` over it. The items of the file are in
memory from the first call on, and every change writes all of them to a new file,
which then takes the place of the old one. A call of the system may fail wherever
the source checks for it.
-/

namespace Afly.Kv

open Digest (U8)

/-- `case_insensitive_strcmp` where it finds no difference. -/
def caseInsensitiveEq : CStr → CStr → Bool
  | [], [] => true
  | c :: s, d :: t => c.toLower = d.toLower && caseInsensitiveEq s t
  | _, _ => false

namespace CJson

variable {N : Type}

/-- `cJSON_GetObjectItem`: what is in an array has no name. -/
def getObjectItem (key : CStr) : CJson N → Option (CJson N)
  | .object child => (child.find? fun p => caseInsensitiveEq key p.1).map Prod.snd
  | _ => none

def deleteItemFromObject (key : CStr) : CJson N → CJson N
  | .object child => .object (child.eraseP fun p => caseInsensitiveEq key p.1)
  | item => item

/-- `cJSON_AddItemToObject`. It is not followed where the file holds no object. -/
def addItemToObject (object : CJson N) (key : CStr) (item : CJson N) : Option (CJson N) :=
  match object with
  | .object child => some (.object (child ++ [(key, item)]))
  | _ => none

end CJson

/-- What the system returns to an operation, and the memory around the buffer of its caller. -/
structure KvEnv where
  /-- Memory for the record of the file. -/
  malloc : Bool
  /-- How many bytes are written to a new file, if it can be opened. -/
  create : Option ℕ
  fsync : Bool
  /-- Whether the file can be read as a whole. -/
  readFile : Bool
  /-- Memory for the text or the data of a value. -/
  mallocValue : Bool
  /-- Whether the items can be printed, written and put in the place of the file. -/
  replace : Bool
  below : Char × Char
  beyond : Char × Char
  wild : Char → U8

/-- The file, with its terminator, and the items in memory. -/
structure KvFile (N : Type) where
  disk : Option (List Char)
  kvfile : Option (CJson N)

section

variable {N : Type} (printNumber : N → CStr) (strtod : CStr → Option (N × ℕ)) (e : KvEnv)

/-- `create_json_file`, where there is no file: what it leaves there, and whether it succeeds. -/
def createJsonFile : Option (List Char) × Bool :=
  match e.create with
  | none => (none, false)
  | some n => (some (("\x7b\x7d".toList ++ [nul]).take n), 3 ≤ n && e.fsync)

/-- `kv_open`. A text without terminator would be read beyond its end. -/
def kvOpen (disk : Option (List Char)) : Option (KvFile N) :=
  if e.malloc then
    let (disk, created) := match disk with
      | none => createJsonFile e
      | some content => (some content, true)
    match disk with
    | none => some ⟨disk, none⟩
    | some content =>
      if created && e.readFile then
        if nul ∈ content then some ⟨disk, cJsonParse strtod (cstr content)⟩ else none
      else some ⟨disk, none⟩
  else some ⟨disk, none⟩

def kvSync (root : CJson N) (disk : Option (List Char)) : KvFile N × ℤ :=
  if e.replace then (⟨some (cJsonPrint printNumber root ++ [nul]), some root⟩, 0)
  else (⟨disk, some root⟩, -1)

/-- `kv_set`: the items in memory change first. -/
def kvSet (root : CJson N) (disk : Option (List Char)) (key value : CStr) :
    Option (KvFile N × ℤ) :=
  ((root.deleteItemFromObject key).addItemToObject key (.string value)).map fun root =>
    kvSync printNumber e root disk

def kvDel (root : CJson N) (disk : Option (List Char)) (key : CStr) : KvFile N × ℤ :=
  kvSync printNumber e (root.deleteItemFromObject key) disk

/-- `kv_get` into a buffer: the text is cut off to fit. An item that is no string has no text to
copy. -/
def kvGet (root : CJson N) (key : CStr) (valueLen : ℕ) : Option (Option CStr) :=
  if valueLen = 0 then some none
  else match root.getObjectItem key with
  | none => some none
  | some (.string value) => some (some (value.take (valueLen - 1)))
  | some _ => none

/-- `kv_set_blob`. A text has at most as many bytes as an `int` counts. -/
def kvSetBlob (root : CJson N) (disk : Option (List Char)) (key : CStr) (value : List U8) :
    Option (KvFile N × ℤ) :=
  if (base64EncodeSize value.length : ℤ) ≤ intMax then
    if e.mallocValue then kvSet printNumber e root disk key (aBase64Encode value)
    else some (⟨disk, some root⟩, -1)
  else none

/-- What `kv_get_blob` makes of the text in the buffer: the data and what the buffer holds then. A
negative length is none for which there is memory. -/
def decodeValue (valueLen : ℕ) (text : CStr) : Option (List U8 × List U8) :=
  let decodeLen := aBase64DecodeLen e.below text
  let mem := text ++ (List.replicate (valueLen - text.length) nul ++ [e.beyond.1, e.beyond.2])
  let decoded := aBase64Decode e.wild decodeLen text.length mem
  if 0 ≤ decodeLen ∧ e.mallocValue = true ∧ decodeLen ≤ valueLen then
    some (decoded, decoded ++ List.replicate (valueLen - decodeLen.toNat) 0)
  else none

def kvGetBlob (root : CJson N) (key : CStr) (valueLen : ℕ) :
    Option (Option (List U8 × List U8)) :=
  (kvGet root key valueLen).map fun text => text.bind (decodeValue e valueLen)

/-- The file as the first line of every function of the hardware layer leaves it. -/
def KvFile.opened (kv : KvFile N) : Option (KvFile N) :=
  match kv.kvfile with
  | some _ => some kv
  | none => kvOpen strtod e kv.disk

def KvFile.halKvSet (kv : KvFile N) (key : CStr) (val : List U8) : Option (KvFile N × ℤ) :=
  (kv.opened strtod e).bind fun kv =>
    match kv.kvfile with
    | none => some (kv, -1)
    | some root => kvSetBlob printNumber e root kv.disk key val

def KvFile.halKvGet (kv : KvFile N) (key : CStr) (bufferLen : ℕ) :
    Option (KvFile N × Option (List U8 × List U8)) :=
  (kv.opened strtod e).bind fun kv =>
    match kv.kvfile with
    | none => some (kv, none)
    | some root => (kvGetBlob e root key bufferLen).map fun answer => (kv, answer)

def KvFile.halKvDel (kv : KvFile N) (key : CStr) : Option (KvFile N × ℤ) :=
  (kv.opened strtod e).map fun kv =>
    match kv.kvfile with
    | none => (kv, -1)
    | some root => kvDel printNumber e root kv.disk key

/-- The process ends, at whatever point of an operation that did not come to its end. -/
def KvFile.restart (kv : KvFile N) : KvFile N := { kv with kvfile := none }

end

end Afly.Kv
