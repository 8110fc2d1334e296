import Afly.Keys.Acknowledge

/-! # From a password to its key and back

The id of a new key encodes its type and its password as one number. The
acknowledgement decodes the type from the range of the id and then looks for the
slot, and a delete request looks for the slot by the id alone. Both find the new
key exactly when the password stays below the next range and no other slot
stands in the way.
-/

namespace Afly

open World

section Encoding

theorem keyId_two (keyStr : CStr) : keyId 2 keyStr = int32 (2000000 + atoi keyStr) := by
  rw [keyId, int32_eq_self (n := 1000000 * 2) (by decide) (by decide)]
  rfl

theorem keyId_range (type : ℤ) (keyStr : CStr) :
    intMin ≤ keyId type keyStr ∧ keyId type keyStr ≤ intMax := int32_range _

/-- The passwords whose id lies in a range of password keys. -/
def PasswordInRange (keyStr : CStr) : Prop :=
  (0 ≤ atoi keyStr ∧ atoi keyStr < 1000000) ∨ (3000000 ≤ atoi keyStr ∧ atoi keyStr < 4000000)

theorem keyId_two_cases (keyStr : CStr) : keyId 2 keyStr = 2000000 + atoi keyStr ∨
    2147483647 < 2000000 + atoi keyStr ∧ keyId 2 keyStr < 0 := by
  obtain ⟨hl, hu⟩ := atoi_range keyStr
  unfold intMin at hl
  unfold intMax at hu
  rw [keyId_two, int32, Int.bmod_eq_emod]
  split <;> omega

theorem passIdType_keyId_iff (keyStr : CStr) :
    passIdType (keyId 2 keyStr) = some 2 ↔ PasswordInRange keyStr := by
  unfold PasswordInRange passIdType
  rcases keyId_two_cases keyStr with h | ⟨h, h'⟩
  · rw [h]
    split_ifs <;> simp <;> omega
  · split_ifs <;> simp <;> omega

theorem keyId_of_range {keyStr : CStr} (h : PasswordInRange keyStr) :
    1000000 ≤ keyId 2 keyStr := by
  unfold PasswordInRange at h
  rcases keyId_two_cases keyStr with h' | ⟨h', -⟩ <;> omega

end Encoding

/-- The gateway finds the key `j` of the password bank by its id: a successful acknowledgement
turns it added, and a delete request passes the id check and reaches it. -/
structure RoutesBack (w : World) (name : CStr) (i : Slot) (j : Fin 128) (id : ℤ) : Prop where
  bank : ∃ type, passIdType id = some type ∧
    productSubConvetType2idx type = productSubConvetType2idx 2
  acked : ∀ env, ∃ w', w.aflyNxpRptEvent env name eventNxpAddDelPassRet (ackBuf 1 id 0) = some w' ∧
    ((w'.subdevs i).bank 2 j).keyState = keyStateAdded
  deletable : ∀ env input jin, env.jsonLoads input = some jin →
    jsonGetInt jin "LockType" (-1) = 2 → jsonGetString jin "KeyID" = some (sprintfInt id) →
    productSubLockGetKeyById (w.subdevs i) 2 id = some j ∧
      w.subdevDelKey env i input = some (w.nxpLockDelPass (w.subdevs i).deviceName id 0, 0)

/-- The password is in range, and every live slot that already has its id is a confirmed key in
front of the new slot. -/
structure KeyRoutable (sd : SubDev) (j : Fin 128) (keyStr : CStr) : Prop where
  range : PasswordInRange keyStr
  before : ∀ k, (sd.bank 2 k).keyState ≠ keyStateNone → (sd.bank 2 k).id = keyId 2 keyStr →
    k < j ∧ (sd.bank 2 k).keyState ≠ keyStateAdding

section Routing

variable {env : Env} {w w' : World} {name : CStr} {i : Slot} {j : Fin 128} {keyStr : CStr}

/-- The two scans for an id meet in a slot that is being added. -/
theorem scans_agree_iff {sd : SubDev} {id : ℤ} (hs : (sd.bank 2 j).keyState = keyStateAdding)
    (hid : (sd.bank 2 j).id = id) :
    (productSubLockGetKeyById sd 2 id = some j ∧ firstAdding sd 2 id = some j) ↔
      ∀ k ≠ j, (sd.bank 2 k).keyState ≠ keyStateNone → (sd.bank 2 k).id = id →
        k < j ∧ (sd.bank 2 k).keyState ≠ keyStateAdding := by
  rw [getKeyById_eq_some_iff, firstAdding_eq_some_iff]
  constructor
  · rintro ⟨⟨-, hlast⟩, -, hfirst⟩ k hkj hk hkid
    have hlt : k < j := lt_of_le_of_ne (not_lt.mp fun h => hlast k h ⟨hk, hkid⟩) hkj
    exact ⟨hlt, fun h => hfirst k hlt ⟨h, hkid⟩⟩
  · intro h
    refine ⟨⟨⟨by rw [hs]; decide, hid⟩, ?_⟩, ⟨hs, hid⟩, ?_⟩
    · rintro k hjk ⟨hk, hkid⟩
      exact absurd (h k hjk.ne' hk hkid).1 (not_lt.mpr hjk.le)
    · rintro k hkj ⟨hk, hkid⟩
      exact (h k hkj.ne (by rw [hk]; decide) hkid).2 hk

/-- The surroundings in which one request text names a key to delete. -/
def Env.deleting (id : ℤ) : Env :=
  { Env.quiet with
    jsonLoads := fun _ => some (.obj [("LockType", .int 2), ("KeyID", .str (sprintfInt id))]) }

/-- A key that is being added is routed back exactly when its id is in range and both scans for
the id meet in its slot. -/
theorem routesBack_iff (hname : w.productSubSearchByName name = some i)
    (hs : ((w.subdevs i).bank 2 j).keyState = keyStateAdding)
    (hid : ((w.subdevs i).bank 2 j).id = keyId 2 keyStr) :
    RoutesBack w name i j (keyId 2 keyStr) ↔ PasswordInRange keyStr ∧
      productSubLockGetKeyById (w.subdevs i) 2 (keyId 2 keyStr) = some j ∧
      firstAdding (w.subdevs i) 2 (keyId 2 keyStr) = some j := by
  constructor
  · intro h
    obtain ⟨type, htype, hidx⟩ := h.bank
    rw [convetType2idx_eq_two_iff htype] at hidx
    subst hidx
    have hj := (h.deletable (.deleting (keyId 2 keyStr)) [] _ rfl rfl rfl).1
    refine ⟨(passIdType_keyId_iff keyStr).mp htype, hj, ?_⟩
    obtain ⟨w', hw', hst⟩ := h.acked .quiet
    obtain ⟨w'', hw'', hcases⟩ := keyAckEvent_cases .quiet
      (ackBuf 1 (keyId 2 keyStr) 0) hname htype (by decide)
    obtain rfl : w'' = w' := Option.some.inj (hw''.symm.trans hw')
    rcases hcases with ⟨rfl, -⟩ | ⟨-, k, -, -, -, -, hk, hkeys, -⟩ | ⟨-, k, -, -, hop, -⟩
    · exact absurd (hs.symm.trans hst) (by decide)
    · rw [bank_of_keys hkeys] at hst
      by_cases hkj : j = k
      · rw [hkj]; exact hk
      · rw [Function.update_of_ne hkj, hs] at hst
        exact absurd hst (by decide)
    · exact absurd (show (1 : ℤ) = 0 from hop) (by decide)
  · rintro ⟨hr, hj, hfirst⟩
    have htype := (passIdType_keyId_iff keyStr).mpr hr
    refine ⟨⟨2, htype, rfl⟩, ?_, ?_⟩
    · intro env
      obtain ⟨w', hw', hcases⟩ := keyAckEvent_cases env
        (ackBuf 1 (keyId 2 keyStr) 0) hname htype (by decide)
      refine ⟨w', hw', ?_⟩
      rcases hcases with ⟨-, hidle⟩ | ⟨-, k, -, -, -, -, hk, hkeys, -⟩ | ⟨-, k, -, -, hop, -⟩
      · exact absurd (Or.inl ⟨hs, rfl⟩) (hidle j hj rfl)
      · obtain rfl : k = j := Option.some.inj (hk.symm.trans hfirst)
        rw [bank_of_keys hkeys, Function.update_self]
      · exact absurd (show (1 : ℤ) = 0 from hop) (by decide)
    · intro env input jin hjin hlt hkid
      have hge := keyId_of_range hr
      have hat : atoi (sprintfInt (keyId 2 keyStr)) = keyId 2 keyStr :=
        atoi_sprintfInt (keyId_range 2 keyStr).1 (keyId_range 2 keyStr).2
      have hstar : sprintfInt (keyId 2 keyStr) ≠ "******".toList := by
        intro h
        have h0 : atoi "******".toList = 0 := by decide
        rw [← h, hat] at h0
        omega
      refine ⟨hj, ?_⟩
      unfold subdevDelKey
      rw [hjin]
      dsimp only
      rw [if_neg (not_not.mpr hlt), hkid, Option.map_some, if_neg hstar, hat,
        if_neg (not_lt.mpr hge), hlt, hj]
      dsimp only
      rw [hid]

theorem addKey_filled {input : CStr} (hname : w.productSubSearchByName name = some i)
    (hadd : w.subdevAddKey env i input = some (w', 0)) :
    ∃ req j, addKeyRequest env input = some (.ok req) ∧ firstNone (w.subdevs i) 2 = some j ∧
      ((w'.subdevs i).bank 2 j).id = keyId 2 req.keyStr ∧
      ((w'.subdevs i).bank 2 j).keyState = keyStateAdding ∧
      (w'.subdevs i).bank 2 = Function.update ((w.subdevs i).bank 2) j
        (fillKey ((w.subdevs i).bank 2 j) (env.time 2) 2 1 req.keyStr) ∧
      w'.productSubSearchByName name = some i := by
  rcases subdevAddKey_cases hadd with ⟨hne, -⟩ | ⟨req, j, hreq, -, hj, -, -, hw'⟩
  · exact absurd rfl hne
  · have hb : (w'.subdevs i).bank 2 = Function.update ((w.subdevs i).bank 2) j
        (fillKey ((w.subdevs i).bank 2 j) (env.time 2) 2 1 req.keyStr) := by
      rw [hw', Function.update_self, setBankKey_bank]
    refine ⟨req, j, hreq, hj, ?_, ?_, hb, ?_⟩
    · rw [hb, Function.update_self]; rfl
    · rw [hb, Function.update_self]; rfl
    · rw [productSubSearchByName_of_sameDevice (w := w), hname]
      intro k
      rw [hw']
      exact rel_update .refl ⟨rfl, rfl, rfl, rfl⟩ k

/-- An accepted request can be routed back exactly when its password is in range and no other
slot with the id lies behind the new one or is still being added. -/
theorem add_key_routes_iff {input : CStr} (hname : w.productSubSearchByName name = some i)
    (hadd : w.subdevAddKey env i input = some (w', 0)) :
    ∃ req j, addKeyRequest env input = some (.ok req) ∧ firstNone (w.subdevs i) 2 = some j ∧
      ((w'.subdevs i).bank 2 j).id = keyId 2 req.keyStr ∧
      (RoutesBack w' name i j (keyId 2 req.keyStr) ↔ KeyRoutable (w.subdevs i) j req.keyStr) := by
  obtain ⟨req, j, hreq, hj, hid, hs, hb, hname'⟩ := addKey_filled hname hadd
  refine ⟨req, j, hreq, hj, hid, ?_⟩
  rw [routesBack_iff hname' hs hid, scans_agree_iff hs hid]
  constructor
  · rintro ⟨hr, hagree⟩
    refine ⟨hr, ?_⟩
    intro k hk hkid
    have hkj : k ≠ j := by rintro rfl; exact hk (firstNone_eq_some_iff.mp hj).1
    have hkb := hagree k hkj
    rw [hb, Function.update_of_ne hkj] at hkb
    exact hkb hk hkid
  · intro h
    refine ⟨h.range, ?_⟩
    intro k hkj
    rw [hb, Function.update_of_ne hkj]
    exact h.before k

end Routing

/-- The request for `123456` at a new lock is accepted and can be routed back. -/
theorem add_key_routes_iff_firstDevice :
    (single firstDevice).productSubSearchByName firstDevice.deviceName = some 0 ∧
    ∃ w', (single firstDevice).subdevAddKey (.parsing "123456".toList) 0
        (addKeyText "123456".toList) = some (w', 0) ∧
      ∃ req j, addKeyRequest (.parsing "123456".toList) (addKeyText "123456".toList) =
          some (.ok req) ∧ firstNone ((single firstDevice).subdevs 0) 2 = some j ∧
        ((w'.subdevs 0).bank 2 j).id = keyId 2 req.keyStr ∧
        (RoutesBack w' firstDevice.deviceName 0 j (keyId 2 req.keyStr) ↔
          KeyRoutable ((single firstDevice).subdevs 0) j req.keyStr) := by
  have hname : (single firstDevice).productSubSearchByName firstDevice.deviceName = some 0 := by
    decide +kernel
  obtain ⟨⟨w', ret⟩, hadd, hret⟩ : ∃ r, (single firstDevice).subdevAddKey
      (.parsing "123456".toList) 0 (addKeyText "123456".toList) = some r ∧ r.2 = 0 :=
    Option.map_eq_some_iff.mp (by decide +kernel)
  obtain rfl : ret = 0 := hret
  exact ⟨hname, w', hadd, add_key_routes_iff hname hadd⟩

/-- The key of the password `1234567` gets an id of the card range. -/
theorem add_key_leaves_range :
    ¬ ∀ env (w : World) name i input w', w.productSubSearchByName name = some i →
      w.subdevAddKey env i input = some (w', 0) →
      ∃ req j, addKeyRequest env input = some (.ok req) ∧ firstNone (w.subdevs i) 2 = some j ∧
        RoutesBack w' name i j (keyId 2 req.keyStr) := by
  intro h
  have hname : (single firstDevice).productSubSearchByName firstDevice.deviceName = some 0 := by
    decide +kernel
  obtain ⟨⟨w', ret⟩, hadd, hret⟩ : ∃ r, (single firstDevice).subdevAddKey
      (.parsing "1234567".toList) 0 (addKeyText "1234567".toList) = some r ∧ r.2 = 0 :=
    Option.map_eq_some_iff.mp (by decide +kernel)
  obtain rfl : ret = 0 := hret
  obtain ⟨req, j, hreq, -, hr⟩ := h _ _ _ 0 _ w' hname hadd
  have hk : (addKeyRequest (.parsing "1234567".toList) (addKeyText "1234567".toList)).map
      (fun r => r.toOption.map AddKeyReq.keyStr) = some (some "1234567".toList) := by decide +kernel
  rw [hreq, Option.map_some, Option.some.injEq] at hk
  have hks : req.keyStr = "1234567".toList := Option.some.inj hk
  obtain ⟨type, htype, hidx⟩ := hr.bank
  rw [convetType2idx_eq_two_iff htype] at hidx
  rw [hidx, hks] at htype
  exact absurd htype (by decide)

end Afly
