import Afly.Cloud.Properties

/-! # Setting the properties of the gateway

A request sets the channel and the identifiers of the network all at once: it is
read, checked and then stored. The checks take a missing string for one that can
be measured, and the request that passes them all has none for the read-only
address, which is copied nevertheless. So a request is refused, or the process
does not survive it.
-/

namespace Afly

structure StGateway extends Gateway where
  connected : ℤ
  lkDev : ℤ
  halConfigDir : CStr
  productKey : CStr
  deviceName : CStr
  deviceSecret : CStr
  productSecret : CStr
  id : CStr

def initialGateway : StGateway where
  toGateway := defaultGateway
  connected := 0
  lkDev := 0
  halConfigDir := "/etc/config/dusun/afly/linkkit.hal".toList
  productKey := "a16jEJYhBrU".toList
  deviceName := "dyxTestGateway".toList
  deviceSecret := "2BQQ2LHBbV8TbVRJrhwtVMpc8JsXD2Dv".toList
  productSecret := "a1q89CnOyZM".toList
  id := "238709".toList

/-- `gateway_set_property`. There is no result where a string function gets a null pointer. The
terminator of the key lies in the first byte of the flag behind it. -/
def gatewaySetProperty (env : Env) (gw : StGateway) (input : CStr) : Option (ℤ × StGateway) :=
  match env.jsonLoads input with
  | none => some (-1, gw)
  | some jin =>
    let zbBand := jsonGetInt jin "ZB_Band" (-1)
    let zbChannel := jsonGetInt jin "ZB_Channel" (-1)
    let zbPanId := jsonGetString jin "ZB_PAN_ID"
    let extPanId := jsonGetString jin "EXT_PAN_ID"
    let zbCoMac := jsonGetString jin "ZB_CO_MAC"
    let networkKey := jsonGetString jin "NETWORK_KEY"
    if zbBand ≠ -1 then some (-1, gw)
    else if zbCoMac.isSome then some (-1, gw)
    else if ¬ (11 ≤ zbChannel ∧ zbChannel ≤ 26) then some (-1, gw)
    else zbPanId.bind fun panId =>
      if panId.length ≠ 4 then some (-1, gw)
      else extPanId.bind fun extId =>
        if extId.length ≠ 16 then some (-1, gw)
        else networkKey.bind fun key =>
          if key.length ≠ 32 then some (-1, gw)
          else zbCoMac.map fun coMac =>
            (0, { gw with
              zbBand := zbBand
              zbChannel := zbChannel
              zbPanId := panId
              extPanId := extId
              zbCoMac := coMac
              networkKey := key
              connected := gw.connected / 256 * 256 })

/-- The settings of a request are stored, each string with its terminator in its own 32 bytes, and
all else stays. -/
structure StGateway.Accepts (gw gw' : StGateway) (jin : Json) : Prop where
  channel : 11 ≤ gw'.zbChannel ∧ gw'.zbChannel ≤ 26
  requested : jsonGetInt jin "ZB_Channel" (-1) = gw'.zbChannel
  panId : jsonGetString jin "ZB_PAN_ID" = some gw'.zbPanId ∧ gw'.zbPanId.length = 4
  extPanId : jsonGetString jin "EXT_PAN_ID" = some gw'.extPanId ∧ gw'.extPanId.length = 16
  networkKey : jsonGetString jin "NETWORK_KEY" = some gw'.networkKey ∧ gw'.networkKey.length = 32
  inside : gw'.zbPanId.length < 32 ∧ gw'.extPanId.length < 32 ∧ gw'.networkKey.length < 32
  rest : gw' = { gw with
    zbChannel := gw'.zbChannel
    zbPanId := gw'.zbPanId
    extPanId := gw'.extPanId
    networkKey := gw'.networkKey }

/-- The request is refused with nothing changed, or accepted. -/
def SetsOrRefuses (env : Env) (gw : StGateway) (input : CStr) : Prop :=
  ∃ ret gw', gatewaySetProperty env gw input = some (ret, gw') ∧
    (ret < 0 ∧ gw' = gw ∨
      ret = 0 ∧ ∃ jin, env.jsonLoads input = some jin ∧ gw.Accepts gw' jin)

/-- A check refuses the request before a missing string is measured. -/
def Json.RefusedSetting (jin : Json) : Prop :=
  jsonGetInt jin "ZB_Band" (-1) ≠ -1 ∨ (jsonGetString jin "ZB_CO_MAC").isSome ∨
  ¬ (11 ≤ jsonGetInt jin "ZB_Channel" (-1) ∧ jsonGetInt jin "ZB_Channel" (-1) ≤ 26) ∨
  ∃ panId, jsonGetString jin "ZB_PAN_ID" = some panId ∧ (panId.length ≠ 4 ∨
    ∃ extId, jsonGetString jin "EXT_PAN_ID" = some extId ∧ (extId.length ≠ 16 ∨
      ∃ key, jsonGetString jin "NETWORK_KEY" = some key ∧ key.length ≠ 32))

section SetProperty

variable {env : Env} {gw : StGateway} {input : CStr} {jin : Json}

variable (gw) in
theorem gatewaySetProperty_eq (hin : env.jsonLoads input = some jin) :
    (jin.RefusedSetting ∧ gatewaySetProperty env gw input = some (-1, gw)) ∨
      ¬ jin.RefusedSetting ∧ gatewaySetProperty env gw input = none := by
  unfold gatewaySetProperty Json.RefusedSetting
  rw [hin]
  dsimp only
  by_cases hband : jsonGetInt jin "ZB_Band" (-1) = -1
  swap
  · rw [if_pos hband]
    exact Or.inl ⟨Or.inl hband, rfl⟩
  rw [if_neg (not_not.mpr hband)]
  cases hmac : jsonGetString jin "ZB_CO_MAC" with
  | some mac => exact Or.inl ⟨by simp, rfl⟩
  | none =>
    rw [if_neg (by simp)]
    by_cases hch : 11 ≤ jsonGetInt jin "ZB_Channel" (-1) ∧ jsonGetInt jin "ZB_Channel" (-1) ≤ 26
    swap
    · rw [if_pos hch]
      exact Or.inl ⟨Or.inr (Or.inr (Or.inl hch)), rfl⟩
    rw [if_neg (not_not.mpr hch)]
    cases hpan : jsonGetString jin "ZB_PAN_ID" with
    | none => exact Or.inr ⟨by simp [hband, hch], rfl⟩
    | some panId =>
      rw [Option.bind_some]
      by_cases hp : panId.length = 4
      swap
      · rw [if_pos hp]
        exact Or.inl ⟨by simp [hp], rfl⟩
      rw [if_neg (not_not.mpr hp)]
      cases hext : jsonGetString jin "EXT_PAN_ID" with
      | none => exact Or.inr ⟨by simp [hband, hch, hp], rfl⟩
      | some extId =>
        rw [Option.bind_some]
        by_cases he : extId.length = 16
        swap
        · rw [if_pos he]
          exact Or.inl ⟨by simp [he], rfl⟩
        rw [if_neg (not_not.mpr he)]
        cases hkey : jsonGetString jin "NETWORK_KEY" with
        | none => exact Or.inr ⟨by simp [hband, hch, hp, he], rfl⟩
        | some key =>
          rw [Option.bind_some]
          by_cases hk : key.length = 32
          · rw [if_neg (not_not.mpr hk)]
            exact Or.inr ⟨by simp [hband, hch, hp, he, hk], rfl⟩
          · rw [if_pos hk]
            exact Or.inl ⟨by simp [hk], rfl⟩

theorem gatewaySetProperty_refuses {ret : ℤ} {gw' : StGateway}
    (h : gatewaySetProperty env gw input = some (ret, gw')) : ret = -1 ∧ gw' = gw := by
  cases hin : env.jsonLoads input with
  | none =>
    unfold gatewaySetProperty at h
    rw [hin] at h
    cases h
    exact ⟨rfl, rfl⟩
  | some jin =>
    rcases gatewaySetProperty_eq gw hin with ⟨-, he⟩ | ⟨-, he⟩
    · cases h.symm.trans he
      exact ⟨rfl, rfl⟩
    · cases h.symm.trans he

end SetProperty

/-- A call refuses or accepts its request exactly when a check refuses it, and no request is
accepted. -/
theorem set_property_iff_refused (env : Env) (gw : StGateway) (input : CStr) :
    (SetsOrRefuses env gw input ↔
      ∀ jin, env.jsonLoads input = some jin → jin.RefusedSetting) ∧
    ∀ ret gw', gatewaySetProperty env gw input = some (ret, gw') → ret = -1 ∧ gw' = gw := by
  refine ⟨⟨?_, ?_⟩, fun _ _ => gatewaySetProperty_refuses⟩
  · rintro ⟨ret, gw', h, -⟩ jin hin
    rcases gatewaySetProperty_eq gw hin with ⟨href, -⟩ | ⟨-, he⟩
    · exact href
    · cases h.symm.trans he
  · intro h
    refine ⟨-1, gw, ?_, Or.inl ⟨by decide, rfl⟩⟩
    cases hin : env.jsonLoads input with
    | none =>
      unfold gatewaySetProperty
      rw [hin]
    | some jin =>
      rcases gatewaySetProperty_eq gw hin with ⟨-, he⟩ | ⟨hno, -⟩
      · exact he
      · exact absurd (h jin hin) hno

/-- A request for all the settings that may be written. -/
def settings : Json := .obj
  [("ZB_Channel", .int 15), ("ZB_PAN_ID", .str "40d2".toList),
   ("EXT_PAN_ID", .str "00158d0000aabbcc".toList),
   ("NETWORK_KEY", .str "0123456789abcdef0123456789abcdef".toList)]

/-- The process does not survive a request for all the settings. -/
theorem settings_have_no_answer :
    ¬ ((∀ env gw input m, env.jsonLoads input = some (.obj m) → SetsOrRefuses env gw input) ∧
      ∃ env gw input gw', gatewaySetProperty env gw input = some (0, gw')) := by
  rintro ⟨h, -⟩
  obtain ⟨ret, gw', he, -⟩ := h { Env.quiet with jsonLoads := fun _ => some settings }
    initialGateway [] _ rfl
  cases he

end Afly
