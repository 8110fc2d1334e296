import Afly.Cloud.Properties
import Afly.Gateway.Tables
import Afly.Intake.Reports

/-! # Requests with any members

The handlers of requests from the cloud, for every text: what they return, what
they leave alone, and which of them compare a member that need not be there. A
handler is safe for a request exactly when the strings that it uses without a
check are there.
-/

namespace Afly

open World

/-- The loop of `product_sub_lock_get_key_i`. -/
def getKeyLoop (sd : SubDev) (type : ℤ) (i : ℕ) : List (Fin 128) → ℕ → Option (Fin 128)
  | [], _ => none
  | j :: l, idx =>
    if (sd.bank type j).keyState ≠ keyStateAdded then getKeyLoop sd type i l idx
    else if idx ≠ i then getKeyLoop sd type i l (idx + 1)
    else some j

def productSubLockGetKeyI (sd : SubDev) (i : ℕ) (type : ℤ) : Option (Fin 128) :=
  if i < productSubLockGetKeyNum sd type then getKeyLoop sd type i (List.finRange 128) 0 else none

def keyProperties (key : LockKey) : Properties :=
  [("LockType", some (.int key.type)),
   ("UserLimit", some (.int key.limit)),
   ("KeyStr", jsonString (snprintfStr key.len (cstr (List.ofFn key.buf)))),
   ("KeyID", jsonString (sprintfInt key.id))]

/-- The list of keys that `subdev_get_key_list` answers with. -/
def keyList (sd : SubDev) (type : ℤ) : Json :=
  .arr ((List.range (productSubLockGetKeyNum sd type)).filterMap fun i =>
    (productSubLockGetKeyI sd i type).map fun j => .obj (keyProperties (sd.bank type j)).object)

/-- `subdev_get_key_list`: the code, and the text it puts into the output. `dumps` is what the JSON
library makes of a value. -/
def subdevGetKeyList (dumps : Json → Option CStr) (outLen : ℕ) (env : Env) (sd : SubDev)
    (input : CStr) : ℤ × Option CStr :=
  match env.jsonLoads input with
  | none => (-1, none)
  | some jin =>
    let lockType := jsonGetInt jin "LockType" (-1)
    if lockType ≠ 2 ∧ lockType ≠ 5 then (-2, none)
    else match dumps (keyList sd lockType) with
      | none => (-3, none)
      | some sout => if sout.length ≥ outLen then (-4, none) else (0, some sout)

/-- The command of `gateway_remote_back`. -/
def remoteShell (ip : CStr) (port : ℤ) : CStr :=
  "(rm -rf /tmp/rmt_pipe &&  mkfifo /tmp/rmt_pipe && /bin/sh -i 2>&1  </tmp/rmt_pipe | nc ".toList ++
    ip ++ " ".toList ++ sprintfInt port ++ " > /tmp/rmt_pipe) & ".toList

/-- `gateway_remote_back`: the code and the commands it runs. The second one is written into an
array of 1024 bytes. -/
def gatewayRemoteBack (env : Env) (input : CStr) : Except Fault (ℤ × List CStr) :=
  match env.jsonLoads input with
  | none => .ok (-1, [])
  | some jin =>
    let backSvrPort := jsonGetInt jin "BackSvrPort" (-1)
    match jsonGetString jin "BackSvrIp" with
    | none => .ok (-2, [])
    | some backSvrIp =>
      if backSvrPort = -1 then .ok (-2, [])
      else if (remoteShell backSvrIp backSvrPort).length < 1024 then
        .ok (0, ["killall nc".toList, remoteShell backSvrIp backSvrPort])
      else .error .overrun

inductive CloudHandler where
  | subdevAddKey
  | subdevDelKey
  | subdevClrKey
  | subdevGetKeyList
  | subdevGetProperty
  | gatewayGetProperty
  | gatewayAddSubdev
  | gatewayDelSubdev
  | gatewayRemoteBack
  deriving DecidableEq

/-- What a request is handled with: the surroundings, the gateway's settings, the device of a
device's request, and the room of the output. -/
structure Service where
  env : Env
  gw : Gateway
  world : World
  device : Slot
  dumps : Json → Option CStr
  outLen : ℕ

def orFault {α : Type*} (fault : Fault) : Option α → Except Fault α
  | none => .error fault
  | some a => .ok a

namespace CloudHandler

/-- Handle a request: the state after it and the code it returns. -/
def handle (h : CloudHandler) (s : Service) (input : CStr) : Except Fault (World × ℤ) :=
  match h with
  | .subdevAddKey => orFault .absent (s.world.subdevAddKey s.env s.device input)
  | .subdevDelKey => orFault .absent (s.world.subdevDelKey s.env s.device input)
  | .subdevClrKey => .ok (s.world.subdevClrKey s.env s.device input)
  | .subdevGetKeyList => .ok (s.world,
      (Afly.subdevGetKeyList s.dumps s.outLen s.env (s.world.subdevs s.device) input).1)
  | .subdevGetProperty => (orFault .absent (Afly.subdevGetProperty s.env s.gw
      (s.world.subdevs s.device) input)).map fun r => (s.world, r.1)
  | .gatewayGetProperty => (orFault .absent (Afly.gatewayGetProperty s.env s.gw s.world input)).map
      fun r => (s.world, r.1)
  | .gatewayAddSubdev => orFault .overrun (s.world.gatewayAddSubdev s.env input)
  | .gatewayDelSubdev => orFault .overrun (s.world.gatewayDelSubdev s.env input)
  | .gatewayRemoteBack => (Afly.gatewayRemoteBack s.env input).map fun r => (s.world, r.1)

/-- One element of a list request. -/
def element (h : CloudHandler) (env : Env) (k : ℕ) (w : World) (jv : Json) :
    Option (World × Bool) :=
  match h with
  | .gatewayAddSubdev => addSubdev env k w jv
  | .gatewayDelSubdev => delSubdev env k w jv
  | _ => some (w, false)

/-- The request has the members that the handler needs, of their types. -/
def WellFormed (h : CloudHandler) (env : Env) (input : CStr) : Prop :=
  ∃ jin, env.jsonLoads input = some jin ∧
    match h with
    | .subdevAddKey => jsonGetInt jin "LockType" (-1) = 2 ∧ jsonGetInt jin "UserLimit" (-1) = 1 ∧
        ∃ keyStr, jsonGetString jin "KeyStr" = some keyStr ∧
          productValidPasswordString keyStr = true ∧ (sscanfPair keyStr).1 ≠ 0
    | .subdevDelKey => jsonGetInt jin "LockType" (-1) = 2 ∧ (jsonGetString jin "KeyID").isSome
    | .subdevClrKey => jsonGetInt jin "LockType" (-1) = 2
    | .subdevGetKeyList =>
      jsonGetInt jin "LockType" (-1) = 2 ∨ jsonGetInt jin "LockType" (-1) = 5
    | .subdevGetProperty | .gatewayGetProperty =>
      ∃ jv l, jin = .arr (jv :: l) ∧ ∀ jv' ∈ jv :: l, (jsonStringValue jv').isSome
    | .gatewayAddSubdev | .gatewayDelSubdev => ∃ l, requestList env input = .ok l
    | .gatewayRemoteBack =>
      (jsonGetString jin "BackSvrIp").isSome ∧ jsonGetInt jin "BackSvrPort" (-1) ≠ -1

/-- A string that is longer than the array it is written to. -/
def TooLong (h : CloudHandler) (env : Env) (input : CStr) : Prop :=
  match h with
  | .gatewayAddSubdev => ∃ l, requestList env input = .ok l ∧ ∃ jv ∈ l, ∃ name secret key,
      jsonGetString jv "deviceName" = some name ∧ jsonGetString jv "deviceSecret" = some secret ∧
        jsonGetString jv "productKey" = some key ∧
          (128 ≤ name.length ∨ 64 ≤ secret.length ∨ 48 ≤ key.length)
  | .gatewayRemoteBack => ∃ jin ip, env.jsonLoads input = some jin ∧
      jsonGetString jin "BackSvrIp" = some ip ∧
        1024 ≤ (remoteShell ip (jsonGetInt jin "BackSvrPort" (-1))).length
  | _ => False

/-- The strings that the handler uses without a check are there. -/
def Given (h : CloudHandler) (env : Env) (input : CStr) : Prop :=
  ∀ jin, env.jsonLoads input = some jin →
    match h with
    | .subdevAddKey => jsonGetInt jin "LockType" (-1) = 2 → jsonGetInt jin "UserLimit" (-1) = 1 →
        (jsonGetString jin "KeyStr").isSome
    | .subdevDelKey => jsonGetInt jin "LockType" (-1) = 2 → (jsonGetString jin "KeyID").isSome
    | .subdevGetProperty | .gatewayGetProperty =>
      ∀ l, jin = .arr l → ∀ jv ∈ l, (jsonStringValue jv).isSome
    | _ => True

/-- A handler returns a code without a use of an absent string, rejects a malformed request without
any change, and skips a malformed element without a change of the table or of the db file. -/
structure Robust (h : CloudHandler) (s : Service) (input : CStr) : Prop where
  returns : ∀ fault, h.handle s input = .error fault → fault = .overrun ∧ h.TooLong s.env input
  rejects : ¬ h.WellFormed s.env input → ∀ w ret, h.handle s input = .ok (w, ret) →
    ret < 0 ∧ w = s.world
  skips : ∀ k w jv w' flag, ((jsonGetString jv "deviceName").isNone ∨
      (jsonGetString jv "deviceSecret").isNone ∨ (jsonGetString jv "productKey").isNone) →
    h.element s.env k w jv = some (w', flag) → flag = false ∧ w'.subdevs = w.subdevs ∧ w'.db = w.db

end CloudHandler

section Handlers

variable {env : Env} {gw : Gateway} {w w' : World} {i : Slot} {input : CStr} {ret : ℤ}
  {fault : Fault} {s : Service}

theorem orFault_eq_error {α : Type*} {fault' : Fault} {o : Option α} :
    orFault fault o = .error fault' ↔ o = none ∧ fault = fault' := by
  cases o <;> simp [orFault]

theorem orFault_eq_ok {α : Type*} {o : Option α} {a : α} :
    orFault fault o = .ok a ↔ o = some a := by
  cases o <;> simp [orFault]

theorem addKeyRequest_eq_none :
    addKeyRequest env input = none ↔ ¬ CloudHandler.subdevAddKey.Given env input := by
  unfold addKeyRequest CloudHandler.Given
  cases env.jsonLoads input with
  | none =>
    refine iff_of_false (by rintro ⟨⟩) (not_not.mpr ?_)
    rintro _ ⟨⟩
  | some jin =>
    dsimp only
    constructor
    · intro hnone hgiven
      split at hnone
      · rename_i hl
        split at hnone
        · rename_i hu
          have hkey := hgiven jin rfl hl hu
          rw [Option.map_eq_none_iff] at hnone
          rw [hnone] at hkey
          cases hkey
        · cases hnone
      · cases hnone
    · intro hno
      by_contra hsome
      apply hno
      rintro _ ⟨⟩ hl hu
      rw [dif_pos hl, dif_pos hu, Option.map_eq_none_iff] at hsome
      exact Option.isSome_iff_ne_none.mpr hsome

theorem addKeyRequest_wellFormed {req : AddKeyReq}
    (h : addKeyRequest env input = some (.ok req)) :
    CloudHandler.subdevAddKey.WellFormed env input := by
  unfold addKeyRequest at h
  split at h
  · cases h
  · rename_i jin hjin
    dsimp only at h
    split at h
    · rename_i hl
      split at h
      · rename_i hu
        obtain ⟨keyStr, hkey, he⟩ := Option.map_eq_some_iff.mp h
        split at he
        · rename_i hv
          split at he
          · cases he
          · rename_i hs
            exact ⟨jin, hjin, hl, hu, keyStr, hkey, hv, hs⟩
        · cases he
      · cases h
    · cases h

theorem subdevAddKey_eq_none : w.subdevAddKey env i input = none ↔
    ¬ CloudHandler.subdevAddKey.Given env input := by
  unfold World.subdevAddKey
  rw [Option.map_eq_none_iff, addKeyRequest_eq_none]

theorem subdevAddKey_rejects (hbad : ¬ CloudHandler.subdevAddKey.WellFormed env input)
    (h : w.subdevAddKey env i input = some (w', ret)) : ret < 0 ∧ w' = w := by
  obtain ⟨r, hr, he⟩ := Option.map_eq_some_iff.mp h
  cases r with
  | error ret' =>
    cases he
    exact ⟨(addKeyRequest_error hr).2, rfl⟩
  | ok req => exact absurd (addKeyRequest_wellFormed hr) hbad

theorem subdevDelKey_eq_none : w.subdevDelKey env i input = none ↔
    ¬ CloudHandler.subdevDelKey.Given env input := by
  unfold World.subdevDelKey CloudHandler.Given
  cases env.jsonLoads input with
  | none =>
    refine iff_of_false (by rintro ⟨⟩) (not_not.mpr ?_)
    rintro _ ⟨⟩
  | some jin =>
    dsimp only
    split
    · rename_i hl
      refine iff_of_false (by rintro ⟨⟩) (not_not.mpr ?_)
      rintro _ ⟨⟩ hl'
      exact (hl hl').elim
    · rename_i hl
      rw [Option.map_eq_none_iff]
      constructor
      · intro hnone hgiven
        have hkey := hgiven jin rfl (not_not.mp hl)
        rw [hnone] at hkey
        cases hkey
      · intro hno
        by_contra hsome
        apply hno
        rintro _ ⟨⟩ _
        exact Option.isSome_iff_ne_none.mpr hsome

theorem subdevDelKey_rejects (hbad : ¬ CloudHandler.subdevDelKey.WellFormed env input)
    (h : w.subdevDelKey env i input = some (w', ret)) : ret < 0 ∧ w' = w := by
  unfold World.subdevDelKey at h
  split at h
  · cases h
    exact ⟨by decide, rfl⟩
  · rename_i jin hjin
    dsimp only at h
    split at h
    · cases h
      exact ⟨by decide, rfl⟩
    · rename_i hl
      obtain ⟨keyID, hkey, -⟩ := Option.map_eq_some_iff.mp h
      exact absurd ⟨jin, hjin, not_not.mp hl, by rw [hkey]; rfl⟩ hbad

theorem subdevClrKey_rejects (hbad : ¬ CloudHandler.subdevClrKey.WellFormed env input) :
    w.subdevClrKey env i input = (w, -1) ∨ w.subdevClrKey env i input = (w, -2) := by
  unfold World.subdevClrKey
  split
  · exact Or.inl rfl
  · rename_i jin hjin
    split
    · exact Or.inr rfl
    · rename_i hl
      exact absurd ⟨jin, hjin, not_not.mp hl⟩ hbad

theorem subdevGetKeyList_rejects {sd : SubDev} {dumps : Json → Option CStr} {outLen : ℕ}
    (hbad : ¬ CloudHandler.subdevGetKeyList.WellFormed env input) :
    (subdevGetKeyList dumps outLen env sd input).1 < 0 := by
  unfold subdevGetKeyList
  split
  · decide
  · rename_i jin hjin
    dsimp only
    split
    · decide
    · rename_i hl
      exact absurd ⟨jin, hjin, (not_and_or.mp hl).imp not_not.mp not_not.mp⟩ hbad

theorem foldlM_serveProperty {cases : Properties} {l : List Json} {jret : List (String × Json)} :
    l.foldlM (serveProperty cases) jret = none ↔ ¬ ∀ jv ∈ l, (jsonStringValue jv).isSome := by
  induction l generalizing jret with
  | nil => simp
  | cons jv l ih =>
    rw [List.foldlM_cons]
    cases hv : jsonStringValue jv with
    | none =>
      have hstep : serveProperty cases jret jv = none := by rw [serveProperty, hv, Option.map_none]
      rw [hstep, Option.bind_eq_bind, Option.bind_none, List.forall_mem_cons, hv]
      simp
    | some sv =>
      obtain ⟨jret', hstep⟩ : ∃ jret', serveProperty cases jret jv = some jret' := by
        rw [serveProperty, hv, Option.map_some]
        exact ⟨_, rfl⟩
      rw [hstep, Option.bind_eq_bind, Option.bind_some, ih, List.forall_mem_cons, hv]
      simp

theorem getProperty_eq_none {cases : Properties} : getProperty env cases input = none ↔
    ∃ l, env.jsonLoads input = some (.arr l) ∧ ¬ ∀ jv ∈ l, (jsonStringValue jv).isSome := by
  unfold getProperty
  split
  · rename_i jv l hin
    rw [Option.map_eq_none_iff, foldlM_serveProperty, hin]
    constructor
    · intro hbad
      exact ⟨_, rfl, hbad⟩
    · rintro ⟨l', hl', hbad⟩
      cases hl'
      exact hbad
  · rename_i hno
    constructor
    · rintro ⟨⟩
    · rintro ⟨l, hl, hbad⟩
      cases l with
      | nil => simp at hbad
      | cons jv l => exact (hno jv l hl).elim

theorem getProperty_rejects {cases : Properties} {r : ℤ × List (String × Json)}
    (hbad : ¬ ∃ jin, env.jsonLoads input = some jin ∧ ∃ jv l, jin = .arr (jv :: l) ∧
      ∀ jv' ∈ jv :: l, (jsonStringValue jv').isSome)
    (h : getProperty env cases input = some r) : r.1 < 0 := by
  unfold getProperty at h
  split at h
  · rename_i jv l hin
    exfalso
    apply hbad
    refine ⟨_, hin, jv, l, rfl, ?_⟩
    by_contra hno
    obtain ⟨jret, hjret, -⟩ := Option.map_eq_some_iff.mp h
    exact absurd (hjret.symm.trans (foldlM_serveProperty.mpr hno)) (by simp)
  · cases h
    decide

theorem occupy_eq_none {sd : SubDev} {name key : CStr} {secret : Option CStr}
    (h : sd.occupy name key secret = none) :
    128 ≤ name.length ∨ 64 ≤ (secret.getD []).length ∨ 48 ≤ key.length := by
  by_contra hno
  obtain ⟨hname, hrest⟩ := not_or.mp hno
  obtain ⟨hsecret, hkey⟩ := not_or.mp hrest
  have hfits {room : ℕ} {s : CStr} (hs : s.length < room) (sd : SubDev) :
      sd.spill (overrun room s) = some sd := by
    rw [overrun, if_pos hs]
    rfl
  unfold SubDev.occupy at h
  rw [hfits (by omega), Option.bind_eq_bind, Option.bind_some, hfits (by omega),
    Option.bind_some, hfits (by omega), Option.bind_some] at h
  cases h

theorem addSubdev_eq_none {k : ℕ} {jv : Json} (h : addSubdev env k w jv = none) :
    ∃ name secret key, jsonGetString jv "deviceName" = some name ∧
      jsonGetString jv "deviceSecret" = some secret ∧ jsonGetString jv "productKey" = some key ∧
        (128 ≤ name.length ∨ 64 ≤ secret.length ∨ 48 ≤ key.length) := by
  unfold addSubdev at h
  split at h
  · cases h
  · rename_i name secret key hname hsecret hkey
    refine ⟨name, secret, key, hname, hsecret, hkey, ?_⟩
    split at h
    · cases h
    · rename_i hnone
      have hadd := Option.map_eq_none_iff.mp h
      unfold productSubAdd at hadd
      rw [hnone] at hadd
      dsimp only at hadd
      split at hadd
      · cases hadd
      · exact occupy_eq_none (Option.map_eq_none_iff.mp hadd)
  · cases h

theorem eachSubdev_eq_none {item : ℕ → World → Json → Option (World × Bool)} {k : ℕ}
    {l : List Json} (h : eachSubdev item k l w = none) :
    ∃ k' w' jv, jv ∈ l ∧ item k' w' jv = none := by
  induction l generalizing k w with
  | nil => cases h
  | cons jv l ih =>
    cases h₁ : item k w jv with
    | none => exact ⟨k, w, jv, List.mem_cons_self, h₁⟩
    | some r =>
      obtain ⟨w₁, f₁⟩ := r
      rw [eachSubdev, h₁, Option.bind_eq_bind, Option.bind_some] at h
      dsimp only at h
      cases h₂ : eachSubdev item (k + 1) l w₁ with
      | none =>
        obtain ⟨k', w', jv', hm, he⟩ := ih h₂
        exact ⟨k', w', jv', List.mem_cons_of_mem _ hm, he⟩
      | some r₂ =>
        rw [h₂] at h
        cases h

theorem gatewayAddSubdev_eq_none (h : w.gatewayAddSubdev env input = none) :
    CloudHandler.gatewayAddSubdev.TooLong env input := by
  unfold gatewayAddSubdev at h
  split at h
  · cases h
  · rename_i l hl
    obtain ⟨k, w₁, jv, hm, he⟩ := eachSubdev_eq_none (Option.map_eq_none_iff.mp h)
    exact ⟨l, hl, jv, hm, addSubdev_eq_none he⟩

theorem delSubdev_isSome (k : ℕ) (jv : Json) : delSubdev env k w jv ≠ none := by
  unfold delSubdev
  split
  · exact Option.some_ne_none _
  · split
    · exact Option.some_ne_none _
    · exact Option.some_ne_none _
  · exact Option.some_ne_none _

theorem gatewayDelSubdev_ne_none : w.gatewayDelSubdev env input ≠ none := by
  intro h
  unfold gatewayDelSubdev at h
  split at h
  · cases h
  · obtain ⟨k, w₁, jv, -, he⟩ := eachSubdev_eq_none (Option.map_eq_none_iff.mp h)
    exact delSubdev_isSome k jv he

theorem requestList_error (h : requestList env input = .error ret) : ret < 0 := by
  unfold requestList at h
  split at h
  · cases h; decide
  · split at h
    · cases h; decide
    · split at h
      · cases h; decide
      · cases h
      · cases h; decide

theorem requestList_malformed (hbad : ¬ ∃ jin, env.jsonLoads input = some jin ∧
    ∃ l, requestList env input = .ok l) : ∃ ret, requestList env input = .error ret := by
  cases h : requestList env input with
  | error ret => exact ⟨ret, rfl⟩
  | ok l =>
    exfalso
    apply hbad
    cases hin : env.jsonLoads input with
    | none =>
      rw [requestList, hin] at h
      cases h
    | some jin => exact ⟨jin, rfl, l, h⟩

theorem gatewayRemoteBack_eq_error (h : gatewayRemoteBack env input = .error fault) :
    fault = .overrun ∧ CloudHandler.gatewayRemoteBack.TooLong env input := by
  unfold gatewayRemoteBack at h
  split at h
  · cases h
  · rename_i jin hjin
    dsimp only at h
    split at h
    · cases h
    · rename_i ip hip
      split_ifs at h with hport hlen
      cases h
      exact ⟨rfl, jin, ip, hjin, hip, not_lt.mp hlen⟩

theorem gatewayRemoteBack_rejects {r : ℤ × List CStr}
    (hbad : ¬ CloudHandler.gatewayRemoteBack.WellFormed env input)
    (h : gatewayRemoteBack env input = .ok r) : r.1 < 0 := by
  unfold gatewayRemoteBack at h
  split at h
  · cases h
    decide
  · rename_i jin hjin
    dsimp only at h
    split at h
    · cases h
      decide
    · rename_i ip hip
      split_ifs at h with hport hlen
      · cases h
        decide
      · exact absurd ⟨jin, hjin, by rw [hip]; rfl, hport⟩ hbad

theorem addSubdev_skips {k : ℕ} {jv : Json} {flag : Bool}
    (hbad : (jsonGetString jv "deviceName").isNone ∨ (jsonGetString jv "deviceSecret").isNone ∨
      (jsonGetString jv "productKey").isNone)
    (h : addSubdev env k w jv = some (w', flag)) :
    flag = false ∧ w'.subdevs = w.subdevs ∧ w'.db = w.db := by
  unfold addSubdev at h
  split at h
  · cases h
    exact ⟨rfl, rfl, rfl⟩
  · rename_i name secret key hname hsecret hkey
    rw [hname, hsecret, hkey] at hbad
    rcases hbad with hnone | hnone | hnone
    · cases hnone
    · cases hnone
    · cases hnone
  · cases h
    exact ⟨rfl, rfl, rfl⟩

theorem delSubdev_skips {k : ℕ} {jv : Json} {flag : Bool}
    (hbad : (jsonGetString jv "deviceName").isNone ∨ (jsonGetString jv "deviceSecret").isNone ∨
      (jsonGetString jv "productKey").isNone)
    (h : delSubdev env k w jv = some (w', flag)) :
    flag = false ∧ w'.subdevs = w.subdevs ∧ w'.db = w.db := by
  unfold delSubdev at h
  split at h
  · cases h
    exact ⟨rfl, rfl, rfl⟩
  · rename_i name secret key hname hsecret hkey
    rw [hname, hsecret, hkey] at hbad
    rcases hbad with hnone | hnone | hnone
    · cases hnone
    · cases hnone
    · cases hnone
  · cases h
    exact ⟨rfl, rfl, rfl⟩

theorem getProperty_given : (∃ l, env.jsonLoads input = some (.arr l) ∧
      ¬ ∀ jv ∈ l, (jsonStringValue jv).isSome) ↔
    ¬ ∀ jin, env.jsonLoads input = some jin → ∀ l, jin = .arr l →
      ∀ jv ∈ l, (jsonStringValue jv).isSome := by
  constructor
  · rintro ⟨l, hl, hbad⟩ hall
    exact hbad (hall _ hl l rfl)
  · intro hno
    by_contra hall
    apply hno
    rintro jin hjin l rfl
    by_contra hbad
    exact hall ⟨l, hjin, hbad⟩

theorem handle_absent (h : CloudHandler) :
    h.handle s input = .error .absent ↔ ¬ h.Given s.env input := by
  cases h with
  | subdevAddKey =>
    rw [CloudHandler.handle, orFault_eq_error, subdevAddKey_eq_none, and_iff_left rfl]
  | subdevDelKey =>
    rw [CloudHandler.handle, orFault_eq_error, subdevDelKey_eq_none, and_iff_left rfl]
  | subdevClrKey => simp [CloudHandler.handle, CloudHandler.Given]
  | subdevGetKeyList => simp [CloudHandler.handle, CloudHandler.Given]
  | subdevGetProperty =>
    rw [CloudHandler.handle, map_eq_error, orFault_eq_error, subdevGetProperty,
      getProperty_eq_none, and_iff_left rfl]
    exact getProperty_given
  | gatewayGetProperty =>
    rw [CloudHandler.handle, map_eq_error, orFault_eq_error, gatewayGetProperty,
      getProperty_eq_none, and_iff_left rfl]
    exact getProperty_given
  | gatewayAddSubdev =>
    simp [CloudHandler.handle, CloudHandler.Given, orFault_eq_error]
  | gatewayDelSubdev =>
    simp [CloudHandler.handle, CloudHandler.Given, orFault_eq_error]
  | gatewayRemoteBack =>
    rw [CloudHandler.handle, map_eq_error]
    constructor
    · intro he
      cases (gatewayRemoteBack_eq_error he).1
    · intro hno
      exact (hno fun _ _ => trivial).elim

theorem handle_fault {h : CloudHandler} (he : h.handle s input = .error fault)
    (hf : fault ≠ .absent) : fault = .overrun ∧ h.TooLong s.env input := by
  cases h with
  | subdevAddKey => exact (hf (orFault_eq_error.mp he).2.symm).elim
  | subdevDelKey => exact (hf (orFault_eq_error.mp he).2.symm).elim
  | subdevClrKey => cases he
  | subdevGetKeyList => cases he
  | subdevGetProperty => exact (hf (orFault_eq_error.mp (map_eq_error.mp he)).2.symm).elim
  | gatewayGetProperty => exact (hf (orFault_eq_error.mp (map_eq_error.mp he)).2.symm).elim
  | gatewayAddSubdev =>
    obtain ⟨hnone, rfl⟩ := orFault_eq_error.mp he
    exact ⟨rfl, gatewayAddSubdev_eq_none hnone⟩
  | gatewayDelSubdev => exact (gatewayDelSubdev_ne_none (orFault_eq_error.mp he).1).elim
  | gatewayRemoteBack => exact gatewayRemoteBack_eq_error (map_eq_error.mp he)

theorem handle_rejects {h : CloudHandler} (hbad : ¬ h.WellFormed s.env input)
    (he : h.handle s input = .ok (w, ret)) : ret < 0 ∧ w = s.world := by
  cases h with
  | subdevAddKey => exact subdevAddKey_rejects hbad (orFault_eq_ok.mp he)
  | subdevDelKey => exact subdevDelKey_rejects hbad (orFault_eq_ok.mp he)
  | subdevClrKey =>
    have hw : s.world.subdevClrKey s.env s.device input = (w, ret) := Except.ok.inj he
    rcases subdevClrKey_rejects hbad with h | h
    · cases hw.symm.trans h
      exact ⟨by decide, rfl⟩
    · cases hw.symm.trans h
      exact ⟨by decide, rfl⟩
  | subdevGetKeyList =>
    cases he
    exact ⟨subdevGetKeyList_rejects hbad, rfl⟩
  | subdevGetProperty =>
    obtain ⟨r, hr, he⟩ := map_eq_ok.mp he
    cases he
    exact ⟨getProperty_rejects hbad (orFault_eq_ok.mp hr), rfl⟩
  | gatewayGetProperty =>
    obtain ⟨r, hr, he⟩ := map_eq_ok.mp he
    cases he
    exact ⟨getProperty_rejects hbad (orFault_eq_ok.mp hr), rfl⟩
  | gatewayAddSubdev =>
    obtain ⟨ret', hlist⟩ := requestList_malformed hbad
    have hw := orFault_eq_ok.mp he
    rw [World.gatewayAddSubdev, hlist] at hw
    cases hw
    exact ⟨requestList_error hlist, rfl⟩
  | gatewayDelSubdev =>
    obtain ⟨ret', hlist⟩ := requestList_malformed hbad
    have hw := orFault_eq_ok.mp he
    rw [World.gatewayDelSubdev, hlist] at hw
    cases hw
    exact ⟨requestList_error hlist, rfl⟩
  | gatewayRemoteBack =>
    obtain ⟨r, hr, he⟩ := map_eq_ok.mp he
    cases he
    exact ⟨gatewayRemoteBack_rejects hbad hr, rfl⟩

theorem element_skips {h : CloudHandler} {k : ℕ} {jv : Json} {flag : Bool}
    (hbad : (jsonGetString jv "deviceName").isNone ∨ (jsonGetString jv "deviceSecret").isNone ∨
      (jsonGetString jv "productKey").isNone)
    (he : h.element env k w jv = some (w', flag)) :
    flag = false ∧ w'.subdevs = w.subdevs ∧ w'.db = w.db := by
  cases h with
  | gatewayAddSubdev => exact addSubdev_skips hbad he
  | gatewayDelSubdev => exact delSubdev_skips hbad he
  | _ =>
    cases he
    exact ⟨rfl, rfl, rfl⟩

/-- A handler is robust for a request exactly when the strings that it uses are there. -/
theorem robust_iff_given (h : CloudHandler) (s : Service) (input : CStr) :
    h.Robust s input ↔ h.Given s.env input := by
  constructor
  · intro hr
    by_contra hno
    cases (hr.returns .absent ((handle_absent h).mpr hno)).1
  · intro hgiven
    constructor
    · intro fault he
      apply handle_fault he
      rintro rfl
      exact (handle_absent h).mp he hgiven
    · intro hbad w ret he
      exact handle_rejects hbad he
    · intro k w jv w' flag hbad he
      exact element_skips hbad he

end Handlers

/-- A request to add a password that has no `KeyStr`. -/
def bareAddKey : Json := .obj [("LockType", .int 2), ("UserLimit", .int 1)]

/-- The request faults, for a device that is in use. -/
theorem bare_add_key_faults : ¬ ∀ (h : CloudHandler) (s : Service) (input : CStr) (jin : Json),
    s.env.jsonLoads input = some jin → h.Robust s input := by
  intro hall
  have hr := hall .subdevAddKey
    ⟨{ Env.quiet with jsonLoads := fun _ => some bareAddKey }, defaultGateway,
      World.single firstDevice, 0, fun _ => none, 0⟩ [] bareAddKey rfl
  have hgiven : ¬ CloudHandler.subdevAddKey.Given
      { Env.quiet with jsonLoads := fun _ => some bareAddKey } [] := fun hg =>
    absurd (hg bareAddKey rfl (by decide) (by decide)) (by decide)
  cases (hr.returns .absent ((handle_absent _).mpr hgiven)).1

end Afly
