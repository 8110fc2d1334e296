import Afly.C.Utf8
import Afly.Gateway.World
import Afly.Registry.KeyTable

/-! # Adding and removing devices

The table operations of `product_sub.c` and the handlers that add and remove
whole records: the cloud services of the gateway, the `SUBDEV_DELETED` event and
the console command `xdel`. An operation is undefined where a string runs over
memory that the model does not keep.
-/

namespace Afly

structure SubProductKeys where
  productKey : CStr
  model : CStr
  type : CStr

def spks : List SubProductKeys :=
  [⟨"a1pqkio7cMk".toList, "0009".toList, "1203".toList⟩,
   ⟨"a1pqkio7cMk".toList, "0066".toList, "1203".toList⟩,
   ⟨"a1pqkio7cMk".toList, "0008".toList, "1203".toList⟩]

def productSubGetProductKeyByTypeOrModel (type model : CStr) : Option SubProductKeys :=
  spks.find? fun spk => spk.model = model ∨ spk.type = type

/-- The first record of the table that the program starts with. -/
def firstDevice : SubDev :=
  { SubDev.zero with
    use := 1
    productKey := "a1wcKZILMWO".toList
    deviceName := "00158d00026c5415".toList
    deviceSecret := "goXATTZ7X9QoOxzFdAMbtjurKnqugvOs".toList
    battery := 100
    type := "1203".toList
    version := "1.0".toList
    model := "1203".toList
    app := "NXP".toList }

namespace SubDev

/-- The record that `product_sub_add` leaves when it finds the name. -/
def assign (sd : SubDev) (key : CStr) (secret : Option CStr) : Option SubDev :=
  if key.length < 48 ∧ (secret.getD []).length < 64 then
    some { sd with productKey := key, deviceSecret := secret.getD [] }
  else none

/-- The record that `product_sub_add` makes of a free one. The key, the secret and the name are
copied in this order over three arrays that follow each other as key, name and secret. -/
def occupy (sd : SubDev) (name key : CStr) (secret : Option CStr) : Option SubDev := do
  let sd ← sd.spill (overrun 312 key)
  let sd ← sd.spill (overrun 200 (secret.getD []))
  let sd ← sd.spill (overrun 264 name)
  some { sd with
    use := 1
    devid := 0
    login := 0
    productKey := if key.length < 48 then key else key.take 48 ++ name.take 128
    deviceName := name.take 128
    deviceSecret := if name.length < 64 then (secret.getD []).take 64 else (name.drop 64).take 64
    battery := 0
    online := 0
    type := []
    version := []
    model := []
    app := []
    lock := .zero }

end SubDev

namespace World

def productSubSearchByName (w : World) (name : CStr) : Option Slot :=
  Fin.find? fun i => (w.subdevs i).use ≠ 0 ∧ name = (w.subdevs i).deviceName

/-- The record that `product_sub_malloc` takes. -/
def productSubMalloc (w : World) : Option Slot :=
  Fin.find? fun i => (w.subdevs i).use = 0

def productSubAdd (r : SaveResult) (w : World) (name key : CStr) (secret : Option CStr) :
    Option (World × ℤ) :=
  match w.productSubSearchByName name with
  | some i => ((w.subdevs i).assign key secret).map fun sd => (w.setDev i sd, 0)
  | none =>
    match w.productSubMalloc with
    | none => some (w, -1)
    | some i => ((w.subdevs i).occupy name key secret).map fun sd =>
        ((w.setDev i sd).productSubSave i r, r.ret)

def productSubDel (r : SaveResult) (w : World) (name : CStr) : World × ℤ :=
  match w.productSubSearchByName name with
  | none => (w, 0)
  | some i => ((w.setDev i .zero).productSubSave i r, 0)

def productSubClr (r : SaveResult) (w : World) : World × ℤ :=
  ({ w with subdevs := fun _ => .zero }.productSubSaveAll r, r.ret)

def productSubClrIdAfterLoad (w : World) : World :=
  { w with subdevs := fun i =>
      if (w.subdevs i).use = 0 then w.subdevs i
      else { w.subdevs i with login := 0, devid := 0 } }

def productSubLoadAll (env : Env) (w : World) : World × ℤ :=
  match w.db with
  | .missing => ({ w with subdevs := fun _ => .zero }.productSubSaveAll (env.save 0),
      (env.save 0).ret)
  | .broken =>
    if env.opens then
      ({ w with subdevs := env.brokenRead.1 }.productSubClrIdAfterLoad, env.brokenRead.2)
    else (w, -1)
  | .whole t =>
    if env.opens then ({ w with subdevs := t }.productSubClrIdAfterLoad, 0) else (w, -1)

def productSubGetNum (w : World) : ℕ :=
  (Finset.univ.filter fun i => (w.subdevs i).use ≠ 0).card

/-- The loop of `product_sub_get_i`, which looks at the record `i` in every round. -/
def getILoop (w : World) (i : Slot) : ℕ → ℕ → Option Slot
  | 0, _ => none
  | n + 1, idx =>
    if (w.subdevs i).use = 0 then getILoop w i n idx
    else if idx ≠ i.val then getILoop w i n (idx + 1)
    else some i

def productSubGetI (w : World) (i : ℕ) : Option Slot :=
  if h : i < 40 then
    if i < w.productSubGetNum then w.getILoop ⟨i, h⟩ 40 0 else none
  else none

/-- The property `SubDevList` that the gateway posts. -/
def subDevList (w : World) : List (String × Json) :=
  let item (sd : SubDev) : Json :=
    let ji := jsonObjectSetNew [] "deviceName" (jsonString sd.deviceName)
    let ji := jsonObjectSetNew ji "deviceSecret" (jsonString sd.deviceSecret)
    .obj (jsonObjectSetNew ji "productKey" (jsonString sd.productKey))
  [("SubDevList", .arr ((List.range w.productSubGetNum).filterMap fun i =>
    (w.productSubGetI i).map fun j => item (w.subdevs j)))]

def gatewayPostSubdevList (w : World) : World :=
  w.setSdk (w.sdk.onGateway (.postGateway w.subDevList))

/-- The array that the services read from their input, or the code they fail with. -/
def requestList (env : Env) (input : CStr) : Except ℤ (List Json) :=
  match env.jsonLoads input with
  | none => .error (-1)
  | some jin =>
    match jsonGetString jin "SubDevList" with
    | none => .error (-2)
    | some slist =>
      match env.jsonLoads slist with
      | none => .error (-3)
      | some (.arr l) => .ok l
      | some _ => .error (-4)

/-- Handle the elements of an array in order, and tell whether one of them counts. -/
def eachSubdev (item : ℕ → World → Json → Option (World × Bool)) :
    ℕ → List Json → World → Option (World × Bool)
  | _, [], w => some (w, false)
  | k, jv :: l, w => do
    let (w, flag) ← item k w jv
    let (w, flags) ← eachSubdev item (k + 1) l w
    some (w, flag || flags)

/-- One element of `AddSubDev`. -/
def addSubdev (env : Env) (k : ℕ) (w : World) (jv : Json) : Option (World × Bool) :=
  match jsonGetString jv "deviceName", jsonGetString jv "deviceSecret",
      jsonGetString jv "productKey" with
  | some name, none, none => some (w.send (.addDevice name "1203".toList), false)
  | some name, some sec, some key =>
    match w.productSubSearchByName name with
    | some _ => some (w, false)
    | none => (w.productSubAdd (env.save k) name key (some sec)).map fun (w, ret) => (w, ret = 0)
  | _, _, _ => some (w, false)

def gatewayAddSubdev (env : Env) (w : World) (input : CStr) : Option (World × ℤ) :=
  match requestList env input with
  | .error ret => some (w, ret)
  | .ok l => (eachSubdev (addSubdev env) 0 l w).map fun (w, flag) =>
      (if flag then (w.send .deviceList).gatewayPostSubdevList else w, 0)

/-- One element of `DelSubDev`. -/
def delSubdev (env : Env) (k : ℕ) (w : World) (jv : Json) : Option (World × Bool) :=
  match jsonGetString jv "deviceName", jsonGetString jv "deviceSecret",
      jsonGetString jv "productKey" with
  | some name, none, none => some (w.send (.delDevice name "1203".toList), false)
  | some name, some _, some _ =>
    match w.productSubSearchByName name with
    | none => some (w, false)
    | some _ => some ((w.productSubDel (env.save k) name).1, true)
  | _, _, _ => some (w, false)

def gatewayDelSubdev (env : Env) (w : World) (input : CStr) : Option (World × ℤ) :=
  match requestList env input with
  | .error ret => some (w, ret)
  | .ok l => (eachSubdev (delSubdev env) 0 l w).map fun (w, flag) =>
      (if flag then w.gatewayPostSubdevList else w, -1)

def gatewayClrSubdev (env : Env) (w : World) : World × ℤ :=
  let (w, ret) := w.productSubClr (env.save 0)
  if ret ≠ 0 then (w, -1) else (w.gatewayPostSubdevList, 0)

/-- The case `LINKKIT_EVENT_SUBDEV_DELETED` of `event_handler`. -/
def eventSubdevDeleted (env : Env) (w : World) (productKey deviceName : Option CStr) : World :=
  match productKey, deviceName with
  | some _, some name =>
    match w.productSubSearchByName name with
    | none => w
    | some i =>
      let sd := w.subdevs i
      let w := w.send (.delDevice sd.deviceName "1203".toList)
      let w := w.setSdk (w.sdk.destroy sd.devid env.destroy)
      (w.productSubDel (env.save 0) sd.deviceName).1
  | _, _ => w

def doCmdXdel (env : Env) (w : World) (mac : CStr) : World :=
  match w.productSubSearchByName mac with
  | none => w
  | some i =>
    let sd := w.subdevs i
    ((w.send (.delDevice sd.deviceName sd.type)).productSubDel (env.save 0) sd.deviceName).1

end World

end Afly
