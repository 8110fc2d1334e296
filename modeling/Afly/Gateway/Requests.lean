import Afly.Gateway.Devices

/-! # Requests to a lock

The commands of `nxpx.c` and the service handlers of `afly.c` that turn a
request for the record `i` into commands to the lock. A handler returns the
state and the code the cloud gets; it is undefined where the code reads
through a null string or divides by zero.
-/

namespace Afly

abbrev validity : ℤ := 3600 * 24 * 365 * 10

/-- An `AddKey` request that passed every check of `subdev_add_key`. -/
structure AddKeyReq where
  lockType : ℤ
  userLimit : ℤ
  keyStr : CStr
  start : ℤ
  stop : ℤ
  lockType_eq : lockType = 2
  userLimit_eq : userLimit = 1
  valid : productValidPasswordString keyStr = true
  scans : (sscanfPair keyStr).1 ≠ 0

/-- The checks of `subdev_add_key`: the request, or the code it fails with. -/
def addKeyRequest (env : Env) (input : CStr) : Option (Except ℤ AddKeyReq) :=
  match env.jsonLoads input with
  | none => some (.error (-1))
  | some jin =>
    let lockType := jsonGetInt jin "LockType" (-1)
    let userLimit := jsonGetInt jin "UserLimit" (-1)
    let start := jsonGetInt jin "Start" (-1)
    let stop := jsonGetInt jin "End" (-1)
    if hl : lockType = 2 then
      if hu : userLimit = 1 then
        (jsonGetString jin "KeyStr").map fun keyStr =>
          if hv : productValidPasswordString keyStr = true then
            if hs : (sscanfPair keyStr).1 = 0 then .error (-5)
            else .ok {
              lockType := lockType
              userLimit := userLimit
              keyStr := keyStr
              start := if start = -1 then int32 (env.time 0) else start
              stop := if stop = -1 then int32 (env.time 1 + validity) else stop
              lockType_eq := hl
              userLimit_eq := hu
              valid := hv
              scans := hs }
          else .error (-4)
      else some (.error (-3))
    else some (.error (-2))

theorem addKeyRequest_error {env : Env} {input : CStr} {ret : ℤ}
    (h : addKeyRequest env input = some (.error ret)) : -5 ≤ ret ∧ ret < 0 := by
  unfold addKeyRequest at h
  split at h
  · cases h; decide
  · dsimp only at h
    split at h
    · split at h
      · obtain ⟨keyStr, -, he⟩ := Option.map_eq_some_iff.mp h
        split at he
        · split at he
          · cases he; decide
          · cases he
        · cases he; decide
      · cases h; decide
    · cases h; decide

namespace World

def nxpLockAddPass (w : World) (mac : CStr) (id type suspend startTime endTime val₁ val₂ : ℤ) :
    World :=
  if type ≠ 0 ∧ type ≠ 1 ∧ type ≠ 5 ∧ type ≠ 10 then w
  else w.send (.addPassword mac id type suspend startTime endTime
    (if type = 10 then 0 else val₁) (if type = 1 ∨ type = 5 then val₂ else 0))

def nxpLockDelPass (w : World) (mac : CStr) (id type : ℤ) : World :=
  if type ≠ 0 ∧ type ≠ 1 ∧ type ≠ 5 then w else w.send (.delPassword mac id type 0)

def nxpLockClrPass (w : World) (mac : CStr) (type : ℤ) : World :=
  if type ≠ 0 then w else w.send (.delPassword mac 0 0 0x30ae7b00)

def nxpLockAddDynamic (w : World) (mac : CStr) (seed interval startTime endTime : ℤ) : World :=
  w.nxpLockAddPass mac 999999 1 0 startTime endTime seed interval

def nxpLockOneKeyOpen (env : Env) (w : World) (mac : CStr) : World :=
  w.nxpLockAddPass mac 888888 10 0 (int32 (env.time 0 - 60)) (int32 (env.time 1 + 60 * 4)) 0 0

def productSubLockAddDynamicWaitAck (w : World) (i : Slot) (seed interval : ℤ) : World :=
  w.setDev i { w.subdevs i with seed := seed, interval := interval }

/-- Ask the lock for a dynamic password, as `afly_nxp_reg` and `subdev_get_dynamic` do. -/
def provision (env : Env) (w : World) (i : Slot) : World :=
  let seed := int32 (env.time 0)
  (w.nxpLockAddDynamic (w.subdevs i).deviceName seed (30 * 60) (int32 (env.time 1))
    (int32 (env.time 2 + validity))).productSubLockAddDynamicWaitAck i seed (30 * 60)

/-- The command for an added key, as a normal or as a counted password. -/
def sendAddKey (w : World) (mac : CStr) (id : ℤ) (req : AddKeyReq) : World :=
  let (ret, passId, cnt) := sscanfPair req.keyStr
  if ret = 1 then w.nxpLockAddPass mac id 0 0 req.start req.stop (atoi req.keyStr) 0
  else w.nxpLockAddPass mac id 5 0 req.start req.stop passId cnt

def subdevAddKey (env : Env) (w : World) (i : Slot) (input : CStr) : Option (World × ℤ) :=
  (addKeyRequest env input).map fun
    | .error ret => (w, ret)
    | .ok req =>
      match productSubLockAddKeyWaitAck (w.subdevs i) (env.time 2) req.lockType req.userLimit
          req.keyStr with
      | none => (w, -6)
      | some (sd, j) =>
        ((w.setDev i sd).sendAddKey sd.deviceName (sd.bank req.lockType j).id req, 0)

def subdevDelKey (env : Env) (w : World) (i : Slot) (input : CStr) : Option (World × ℤ) :=
  match env.jsonLoads input with
  | none => some (w, -1)
  | some jin =>
    let sd := w.subdevs i
    let lockType := jsonGetInt jin "LockType" (-1)
    if lockType ≠ 2 then some (w, -2)
    else (jsonGetString jin "KeyID").map fun keyID =>
      if keyID = "******".toList then (w.nxpLockClrPass sd.deviceName 0, 0)
      else if atoi keyID < 1000000 then (w, -3)
      else
        match productSubLockGetKeyById sd lockType (atoi keyID) with
        | none => (w, -4)
        | some j => (w.nxpLockDelPass sd.deviceName (sd.bank lockType j).id 0, 0)

def subdevClrKey (env : Env) (w : World) (i : Slot) (input : CStr) : World × ℤ :=
  match env.jsonLoads input with
  | none => (w, -1)
  | some jin =>
    if jsonGetInt jin "LockType" (-1) ≠ 2 then (w, -2)
    else (w.nxpLockClrPass (w.subdevs i).deviceName 0, 0)

def subdevOneKeyOpen (env : Env) (w : World) (i : Slot) : World × ℤ :=
  (w.nxpLockOneKeyOpen env (w.subdevs i).deviceName, 0)

/-- `subdev_get_dynamic` up to the text of its answer. -/
def subdevGetDynamic (env : Env) (w : World) (i : Slot) : Option (World × ℤ) :=
  if (w.subdevs i).dynamic = 0 then some (w.provision env i, -1)
  else if (w.subdevs i).interval = 0 then none
  else some (w, 0)

section Frames

variable (w : World) (mac : CStr)

@[simp] theorem nxpLockAddPass_subdevs (id type suspend startTime endTime val₁ val₂ : ℤ) :
    (w.nxpLockAddPass mac id type suspend startTime endTime val₁ val₂).subdevs = w.subdevs := by
  unfold nxpLockAddPass; split <;> rfl
@[simp] theorem nxpLockAddPass_sdk (id type suspend startTime endTime val₁ val₂ : ℤ) :
    (w.nxpLockAddPass mac id type suspend startTime endTime val₁ val₂).sdk = w.sdk := by
  unfold nxpLockAddPass; split <;> rfl
@[simp] theorem nxpLockAddPass_db (id type suspend startTime endTime val₁ val₂ : ℤ) :
    (w.nxpLockAddPass mac id type suspend startTime endTime val₁ val₂).db = w.db := by
  unfold nxpLockAddPass; split <;> rfl
@[simp] theorem nxpLockDelPass_subdevs (id type : ℤ) :
    (w.nxpLockDelPass mac id type).subdevs = w.subdevs := by
  unfold nxpLockDelPass; split <;> rfl
@[simp] theorem nxpLockClrPass_subdevs (type : ℤ) :
    (w.nxpLockClrPass mac type).subdevs = w.subdevs := by unfold nxpLockClrPass; split <;> rfl
@[simp] theorem nxpLockOneKeyOpen_subdevs (env : Env) :
    (w.nxpLockOneKeyOpen env mac).subdevs = w.subdevs := nxpLockAddPass_subdevs ..

@[simp] theorem provision_subdevs (env : Env) (i : Slot) :
    (w.provision env i).subdevs = Function.update w.subdevs i
      { w.subdevs i with seed := int32 (env.time 0), interval := 30 * 60 } := by
  simp [provision, nxpLockAddDynamic, productSubLockAddDynamicWaitAck]

/-- The command with which `provision` asks the lock `mac`. -/
def dynamicCommand (env : Env) (mac : CStr) : NxpCmd :=
  .addPassword mac 999999 1 0 (int32 (env.time 1)) (int32 (env.time 2 + validity))
    (int32 (env.time 0)) (30 * 60)

@[simp] theorem provision_sent (env : Env) (i : Slot) : (w.provision env i).sent =
    w.sent ++ [dynamicCommand env (w.subdevs i).deviceName] := by
  simp [provision, nxpLockAddDynamic, nxpLockAddPass, productSubLockAddDynamicWaitAck,
    dynamicCommand]

@[simp] theorem provision_sdk (env : Env) (i : Slot) : (w.provision env i).sdk = w.sdk := by
  simp [provision, nxpLockAddDynamic, productSubLockAddDynamicWaitAck]

end Frames

def addKeyCommand (mac : CStr) (id : ℤ) (req : AddKeyReq) : NxpCmd :=
  if (sscanfPair req.keyStr).1 = 1 then
    .addPassword mac id 0 0 req.start req.stop (atoi req.keyStr) 0
  else
    .addPassword mac id 5 0 req.start req.stop (sscanfPair req.keyStr).2.1
      (sscanfPair req.keyStr).2.2

theorem sendAddKey_eq (w : World) (mac : CStr) (id : ℤ) (req : AddKeyReq) :
    w.sendAddKey mac id req = w.send (addKeyCommand mac id req) := by
  unfold sendAddKey addKeyCommand nxpLockAddPass
  dsimp only
  split_ifs <;> simp_all

section Spec

variable {env : Env} {w w' : World} {i : Slot} {input : CStr} {ret : ℤ}

theorem subdevAddKey_refused (h : addKeyRequest env input = some (.error ret)) :
    w.subdevAddKey env i input = some (w, ret) := by
  rw [subdevAddKey, h, Option.map_some]

theorem subdevAddKey_noRoom {req : AddKeyReq} (h : addKeyRequest env input = some (.ok req))
    (hn : firstNone (w.subdevs i) 2 = none) : w.subdevAddKey env i input = some (w, -6) := by
  rw [← req.lockType_eq] at hn
  rw [subdevAddKey, h, Option.map_some]
  dsimp only
  rw [addKeyWaitAck_eq_none_iff.mpr hn]

theorem subdevAddKey_fills {req : AddKeyReq} {j : Fin 128}
    (h : addKeyRequest env input = some (.ok req)) (hj : firstNone (w.subdevs i) 2 = some j) :
    w.subdevAddKey env i input = some (((w.setDev i ((w.subdevs i).setBankKey 2 j
      (fillKey ((w.subdevs i).bank 2 j) (env.time 2) 2 1 req.keyStr))).send
        (addKeyCommand (w.subdevs i).deviceName (keyId 2 req.keyStr) req)), 0) := by
  rw [subdevAddKey, h, Option.map_some]
  dsimp only
  rw [req.lockType_eq, req.userLimit_eq, addKeyWaitAck_eq_some_iff.mpr ⟨hj, rfl⟩]
  dsimp only
  rw [sendAddKey_eq, setBankKey_bank, Function.update_self]
  rfl

theorem subdevAddKey_cases (h : w.subdevAddKey env i input = some (w', ret)) :
    (ret ≠ 0 ∧ w' = w) ∨
    ∃ req j, addKeyRequest env input = some (.ok req) ∧ ret = 0 ∧
      firstNone (w.subdevs i) 2 = some j ∧ w'.db = w.db ∧ w'.sdk = w.sdk ∧
      w'.subdevs = Function.update w.subdevs i ((w.subdevs i).setBankKey 2 j
        (fillKey ((w.subdevs i).bank 2 j) (env.time 2) 2 1 req.keyStr)) := by
  obtain ⟨r, hr, -⟩ := Option.map_eq_some_iff.mp h
  cases r with
  | error ret' =>
    cases h.symm.trans (subdevAddKey_refused hr)
    exact Or.inl ⟨(addKeyRequest_error hr).2.ne, rfl⟩
  | ok req =>
    cases hj : firstNone (w.subdevs i) 2 with
    | none => cases h.symm.trans (subdevAddKey_noRoom hr hj); exact Or.inl ⟨by decide, rfl⟩
    | some j =>
      cases h.symm.trans (subdevAddKey_fills hr hj)
      exact Or.inr ⟨req, j, hr, rfl, rfl, rfl, rfl, rfl⟩

variable (env) in
theorem subdevAddKey_accepts {req : AddKeyReq} {j : Fin 128}
    (hr : addKeyRequest env input = some (.ok req)) (hj : firstNone (w.subdevs i) 2 = some j) :
    ∃ w', w.subdevAddKey env i input = some (w', 0) := ⟨_, subdevAddKey_fills hr hj⟩

theorem subdevAddKey_full (h : w.subdevAddKey env i input = some (w', -6)) :
    firstNone (w.subdevs i) 2 = none := by
  obtain ⟨r, hr, -⟩ := Option.map_eq_some_iff.mp h
  cases r with
  | error ret' =>
    cases h.symm.trans (subdevAddKey_refused hr)
    exact absurd (addKeyRequest_error hr).1 (by decide)
  | ok req =>
    cases hj : firstNone (w.subdevs i) 2 with
    | none => rfl
    | some j => cases h.symm.trans (subdevAddKey_fills hr hj)

end Spec

end World

end Afly
