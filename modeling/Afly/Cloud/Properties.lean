import Afly.C.Utf8
import Afly.Gateway.Reports
import Afly.Gateway.Step

/-! # Properties of the gateway and of its devices

The gateway posts properties on its own and answers requests for them, each by
a field list written out by hand. The lists for a device agree. The lists for
the gateway agree exactly when its two network identifiers do, since the posted
extended identifier is read from the field of the short one.
-/

namespace Afly

/-- The network settings in `stGateway_t`. -/
structure Gateway where
  zbBand : ℤ
  zbChannel : ℤ
  zbCoMac : CStr
  zbPanId : CStr
  extPanId : CStr
  networkKey : CStr

def defaultGateway : Gateway where
  zbBand := 2
  zbChannel := 11
  zbCoMac := "00158d0000******".toList
  zbPanId := "30ae".toList
  extPanId := "00158d0000******".toList
  networkKey := "********************************".toList

/-- Properties in the order of the source, where a value is missing when its bytes are not UTF-8. -/
abbrev Properties := List (String × Option Json)

def Properties.object (properties : Properties) : List (String × Json) :=
  properties.foldl (fun obj p => jsonObjectSetNew obj p.1 p.2) []

/-- The properties that `post_all_properties` posts. -/
def allProperties (gw : Gateway) : Properties :=
  [("ZB_Band", some (.int gw.zbBand)),
   ("ZB_Channel", some (.int gw.zbChannel)),
   ("ZB_CO_MAC", jsonString gw.zbCoMac),
   ("ZB_PAN_ID", jsonString gw.zbPanId),
   ("EXT_PAN_ID", jsonString gw.zbPanId),
   ("NETWORK_KEY", jsonString gw.networkKey),
   ("Version", jsonString "V0.0.1".toList)]

/-- The cases of `gateway_get_property`. -/
def gatewayProperties (gw : Gateway) (w : World) : Properties :=
  [("ZB_Band", some (.int gw.zbBand)),
   ("ZB_Channel", some (.int gw.zbChannel)),
   ("ZB_CO_MAC", jsonString gw.zbCoMac),
   ("ZB_PAN_ID", jsonString gw.zbPanId),
   ("EXT_PAN_ID", jsonString gw.extPanId),
   ("NETWORK_KEY", jsonString gw.networkKey),
   ("SubDevList", w.subDevList.lookup "SubDevList")]

/-- The cases of `subdev_get_property`, two of which can never be reached. -/
def subdevProperties (gw : Gateway) (sd : SubDev) : Properties :=
  [("ZB_Band", some (.int gw.zbBand)),
   ("ZB_Channel", some (.int gw.zbChannel)),
   ("ZB_CO_MAC", jsonString gw.zbCoMac),
   ("ZB_PAN_ID", jsonString gw.zbPanId),
   ("EXT_PAN_ID", jsonString gw.extPanId),
   ("NETWORK_KEY", jsonString gw.networkKey),
   ("Model", jsonString sd.model),
   ("Version", jsonString sd.version),
   ("BatteryPercentage", some (.int sd.battery)),
   ("WiFI_RSSI", some (.int sd.rssi)),
   ("WIFI_Channel", some (.int gw.zbChannel)),
   ("LockState", some (.int sd.lock.lockStatus)),
   ("LinkType", jsonString sd.app),
   ("Version", jsonString sd.version),
   ("Model", jsonString sd.model)]

/-- The properties that `afly_nxp_report_all_status` posts. -/
def statusProperties (sd : SubDev) : Properties :=
  [("BatteryPercentage", some (.int sd.battery)),
   ("LinkType", jsonString sd.app),
   ("Version", jsonString sd.version),
   ("Model", jsonString sd.model)]

/-- The chain of `strcmp` over the cases, for one element of a request. -/
def serveProperty (cases : Properties) (jret : List (String × Json)) (jv : Json) :
    Option (List (String × Json)) :=
  (jsonStringValue jv).map fun sv =>
    match cases.find? fun p => sv = p.1.toList with
    | none => jret
    | some (key, value) => jsonObjectSetNew jret key value

/-- The handlers of property requests: the code and the object they return. There is no result
where an element of the array is not a string. -/
def getProperty (env : Env) (cases : Properties) (input : CStr) :
    Option (ℤ × List (String × Json)) :=
  match env.jsonLoads input with
  | some (.arr (jv :: l)) => ((jv :: l).foldlM (serveProperty cases) []).map fun jret => (0, jret)
  | _ => some (-1, [])

def gatewayGetProperty (env : Env) (gw : Gateway) (w : World) (input : CStr) :
    Option (ℤ × List (String × Json)) := getProperty env (gatewayProperties gw w) input

def subdevGetProperty (env : Env) (gw : Gateway) (sd : SubDev) (input : CStr) :
    Option (ℤ × List (String × Json)) := getProperty env (subdevProperties gw sd) input

/-- A request for one property returns the value that is posted under its name. -/
def Properties.AgreesWith (posted : Properties)
    (get : Env → CStr → Option (ℤ × List (String × Json))) (served : Properties) : Prop :=
  ∀ env input name, env.jsonLoads input = some (.arr [.str name.toList]) →
    name ∈ posted.map Prod.fst → name ∈ served.map Prod.fst →
    ∃ jret, get env input = some (0, jret) ∧ jret.lookup name = posted.object.lookup name

/-- The pushed and the pulled view of the gateway and of a device agree. -/
def ViewsAgree (gw : Gateway) (w : World) (sd : SubDev) : Prop :=
  (allProperties gw).AgreesWith (fun env input => gatewayGetProperty env gw w input)
      (gatewayProperties gw w) ∧
    (statusProperties sd).AgreesWith (fun env input => subdevGetProperty env gw sd input)
      (subdevProperties gw sd)

section Objects

variable {properties served : Properties} {name : String}

theorem lookup_foldl (obj : List (String × Json)) (hno : name ∉ properties.map Prod.fst) :
    (properties.foldl (fun obj p => jsonObjectSetNew obj p.1 p.2) obj).lookup name =
      obj.lookup name := by
  induction properties generalizing obj with
  | nil => rfl
  | cons p properties ih =>
    simp only [List.map_cons, List.mem_cons, not_or] at hno
    rw [List.foldl_cons, ih _ hno.2, lookup_jsonObjectSetNew, if_neg hno.1]

theorem Properties.lookup_object (hnodup : (properties.map Prod.fst).Nodup) {value : Option Json}
    (hm : (name, value) ∈ properties) : properties.object.lookup name = value := by
  unfold Properties.object
  generalize hobj : ([] : List (String × Json)) = obj
  have hnone : obj.lookup name = none := by rw [← hobj]; rfl
  clear hobj
  induction properties generalizing obj with
  | nil => cases hm
  | cons p properties ih =>
    rw [List.map_cons, List.nodup_cons] at hnodup
    rw [List.foldl_cons]
    rcases List.mem_cons.mp hm with rfl | hm
    · rw [lookup_foldl _ hnodup.1, lookup_jsonObjectSetNew, if_pos rfl, hnone, Option.or_none]
    · have hne : name ≠ p.1 := by
        rintro rfl
        exact hnodup.1 (List.mem_map.mpr ⟨_, hm, rfl⟩)
      apply ih hnodup.2 hm
      rw [lookup_jsonObjectSetNew, if_neg hne, hnone]

theorem getProperty_single {env : Env} {input : CStr} {value : Option Json}
    (hin : env.jsonLoads input = some (.arr [.str name.toList]))
    (hfind : served.find? (fun p => name = p.1) = some (name, value)) :
    ∃ jret, getProperty env served input = some (0, jret) ∧ jret.lookup name = value := by
  refine ⟨jsonObjectSetNew [] name value, ?_, ?_⟩
  · unfold getProperty
    rw [hin]
    simp [serveProperty, jsonStringValue, String.toList_inj, hfind]
  · rw [lookup_jsonObjectSetNew, if_pos rfl]
    exact Option.or_none

theorem Properties.agreesWith_of_values {posted : Properties}
    (hnodup : (posted.map Prod.fst).Nodup)
    (hvalues : ∀ name value, (name, value) ∈ posted → name ∈ served.map Prod.fst →
      served.find? (fun p => name = p.1) = some (name, value)) :
    posted.AgreesWith (fun env input => getProperty env served input) served := by
  intro env input name hin hp hs
  obtain ⟨⟨_, value⟩, hm, rfl⟩ := List.mem_map.mp hp
  obtain ⟨jret, hget, hlookup⟩ := getProperty_single hin (hvalues _ value hm hs)
  exact ⟨jret, hget, hlookup.trans (lookup_object hnodup hm).symm⟩

end Objects

section Views

variable {gw : Gateway} {w : World} {sd : SubDev}

/-- The two network identifiers are the same string, or neither of them is a JSON string. -/
def Gateway.SameIds (gw : Gateway) : Prop :=
  gw.zbPanId = gw.extPanId ∨
    utf8CheckString gw.zbPanId = false ∧ utf8CheckString gw.extPanId = false

theorem Gateway.sameIds_iff : gw.SameIds ↔ jsonString gw.zbPanId = jsonString gw.extPanId := by
  unfold SameIds jsonString
  constructor
  · rintro (h | ⟨h, h'⟩)
    · rw [h]
    · rw [h, h']
      rfl
  · intro h
    cases hz : utf8CheckString gw.zbPanId with
    | false =>
      cases he : utf8CheckString gw.extPanId with
      | false => exact Or.inr ⟨rfl, rfl⟩
      | true => simp [hz, he] at h
    | true =>
      cases he : utf8CheckString gw.extPanId with
      | false => simp [hz, he] at h
      | true => exact Or.inl (by simpa [hz, he] using h)

theorem statusProperties_agrees : (statusProperties sd).AgreesWith
    (fun env input => subdevGetProperty env gw sd input) (subdevProperties gw sd) := by
  apply Properties.agreesWith_of_values
  · simp [statusProperties]
  · intro name value hm _
    simp only [statusProperties, List.mem_cons, Prod.mk.injEq, List.not_mem_nil, or_false] at hm
    rcases hm with ⟨rfl, rfl⟩ | ⟨rfl, rfl⟩ | ⟨rfl, rfl⟩ | ⟨rfl, rfl⟩ <;> simp [subdevProperties]

theorem allProperties_nodup : ((allProperties gw).map Prod.fst).Nodup := by
  simp [allProperties]

/-- Surroundings where every text is a request for one property. -/
def Env.asking (name : String) : Env :=
  { Env.quiet with jsonLoads := fun _ => some (.arr [.str name.toList]) }

/-- The gateway posts and serves the same values exactly when its two identifiers agree. -/
theorem allProperties_agrees_iff : (allProperties gw).AgreesWith
    (fun env input => gatewayGetProperty env gw w input) (gatewayProperties gw w) ↔
      gw.SameIds := by
  rw [Gateway.sameIds_iff]
  constructor
  · intro h
    obtain ⟨jret, hget, hlookup⟩ := h (.asking "EXT_PAN_ID") [] "EXT_PAN_ID" rfl
      (by simp [allProperties]) (by simp [gatewayProperties])
    have hfind : (gatewayProperties gw w).find? (fun p => "EXT_PAN_ID" = p.1) =
        some ("EXT_PAN_ID", jsonString gw.extPanId) := by
      simp [gatewayProperties]
    have hin : (Env.asking "EXT_PAN_ID").jsonLoads [] =
        some (.arr [.str "EXT_PAN_ID".toList]) := rfl
    obtain ⟨jret', hget', hlookup'⟩ := getProperty_single hin hfind
    obtain rfl : jret = jret' := congrArg Prod.snd (Option.some.inj (hget.symm.trans hget'))
    rw [← hlookup', hlookup]
    exact (Properties.lookup_object allProperties_nodup (by simp [allProperties])).symm
  · intro h
    apply Properties.agreesWith_of_values allProperties_nodup
    intro name value hm hs
    simp only [allProperties, List.mem_cons, Prod.mk.injEq, List.not_mem_nil, or_false] at hm
    rcases hm with ⟨rfl, rfl⟩ | ⟨rfl, rfl⟩ | ⟨rfl, rfl⟩ | ⟨rfl, rfl⟩ | ⟨rfl, rfl⟩ | ⟨rfl, rfl⟩ |
      ⟨rfl, rfl⟩
    · simp [gatewayProperties]
    · simp [gatewayProperties]
    · simp [gatewayProperties]
    · simp [gatewayProperties]
    · rw [h]
      simp [gatewayProperties]
    · simp [gatewayProperties]
    · simp [gatewayProperties] at hs

/-- The posted and the requested properties of the gateway and of every device are the same
exactly when the gateway's two network identifiers are. -/
theorem viewsAgree_iff (gw : Gateway) (w : World) (sd : SubDev) :
    ViewsAgree gw w sd ↔ gw.SameIds := by
  unfold ViewsAgree
  rw [allProperties_agrees_iff]
  constructor
  · rintro ⟨h, -⟩
    exact h
  · intro h
    exact ⟨h, statusProperties_agrees⟩

/-- The settings that the program starts with are posted with the wrong extended identifier. -/
theorem viewsAgree_default : ¬ ViewsAgree defaultGateway World.boot firstDevice := by
  rw [ViewsAgree, allProperties_agrees_iff]
  rintro ⟨h | h, -⟩
  · exact absurd h (by decide)
  · exact absurd h.1 (by decide)

end Views

end Afly
