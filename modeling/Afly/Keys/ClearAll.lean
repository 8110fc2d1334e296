import Afly.Keys.Edits

/-! # The acknowledgement of a clear

A clear command for password keys is acknowledged with the pass id zero. The
handler selects the bank by a type that is zero on this path, so it empties the
first bank, and it does not look at the code of the acknowledgement.
-/

namespace Afly

open World

/-- The notice that a clear command was carried out on a lock type. -/
def clearNotice (lockType : ℤ) : Notice := ⟨"ClearKeyNotifycation", [("LockType", .int lockType)]⟩

/-- What the acknowledgement of a clear of the password bank has to do. -/
structure ClearsPasswords (w w' : World) (i : Slot) (code : ℤ) : Prop where
  emptied : code = 0 → ∀ j, ((w'.subdevs i).bank 2 j).keyState = keyStateNone
  others : code = 0 → ∀ adx ≠ productSubConvetType2idx 2,
    (w'.subdevs i).lock.keys adx = (w.subdevs i).lock.keys adx
  notified : code = 0 → w'.sdk.calls = w.sdk.calls ++
    [(.trigger (w.subdevs i).devid (clearNotice 2), w.sdk.live (w.subdevs i).devid)]
  refused : code ≠ 0 → (w'.subdevs i).lock.keys = (w.subdevs i).lock.keys
  silent : code ≠ 0 → w'.sdk.calls = w.sdk.calls

section Acknowledgement

variable {env : Env} {w : World} {name : CStr} {i : Slot} {buf : ℕ → ℤ}

variable (env buf) in
theorem clearAck_spec (hname : w.productSubSearchByName name = some i) (hid : buf 1 = 0) :
    ∃ w', w.aflyNxpRptEvent env name eventNxpAddDelPassRet buf = some w' ∧
      (w'.subdevs i).lock.keys = eraseBank (w.subdevs i).lock.keys 0 ∧
      w'.sdk.calls = w.sdk.calls ++
        [(.trigger (w.subdevs i).devid (clearNotice 2), w.sdk.live (w.subdevs i).devid)] := by
  have he : w.lockEvent env i eventNxpAddDelPassRet buf =
      some ((w.productSubLockClrKey env i 0).1, some (clearNotice 2)) := by
    rw [lockEvent, if_neg (by decide), if_pos rfl, addDelPassRet, hid, passIdType_zero]
    exact if_pos rfl
  have hd : ((w.productSubLockClrKey env i 0).1.subdevs i).devid = (w.subdevs i).devid := by
    rw [productSubLockClrKey_subdevs, Function.update_self]
    rfl
  refine ⟨(w.productSubLockClrKey env i 0).1.triggerEvent env i (clearNotice 2), ?_, ?_, ?_⟩
  · unfold aflyNxpRptEvent
    rw [hname]
    dsimp only
    rw [he]
    rfl
  · rw [(triggerEvent_sameKeys _).keys, productSubLockClrKey_subdevs, Function.update_self]
    rfl
  · rw [triggerEvent_calls, productSubLockClrKey_sdk, hd]

theorem eraseBank_of_ne {keys : Fin 4 → KeyBank} {adx bdx : Fin 4} (h : bdx ≠ adx) :
    eraseBank keys adx bdx = keys bdx := Function.update_of_ne h _ _

theorem eraseBank_eq_iff {keys : Fin 4 → KeyBank} {adx : Fin 4} :
    eraseBank keys adx adx = keys adx ↔ ∀ j, (keys adx j).keyState = keyStateNone := by
  rw [eraseBank, Function.update_self, funext_iff]
  apply forall_congr'
  intro j
  constructor
  · intro h
    by_contra hj
    rw [if_neg hj] at h
    exact hj (h ▸ rfl)
  · intro hj
    rw [if_pos hj]

/-- The acknowledgement does its duty exactly when there is nothing to clear: its code is zero
and neither the password bank nor the first bank holds a live key. -/
theorem clear_ack_iff (hname : w.productSubSearchByName name = some i) (hid : buf 1 = 0) :
    (∃ w', w.aflyNxpRptEvent env name eventNxpAddDelPassRet buf = some w' ∧
      ClearsPasswords w w' i (buf 2)) ↔
    buf 2 = 0 ∧ (∀ j, ((w.subdevs i).bank 2 j).keyState = keyStateNone) ∧
      ∀ j, ((w.subdevs i).bank 1 j).keyState = keyStateNone := by
  obtain ⟨w', hw', hkeys, hcalls⟩ := clearAck_spec env buf hname hid
  have hbank : (w'.subdevs i).bank 2 = (w.subdevs i).bank 2 := by
    unfold SubDev.bank
    rw [hkeys]
    exact eraseBank_of_ne (by decide)
  constructor
  · rintro ⟨w'', hw'', hc⟩
    obtain rfl : w'' = w' := Option.some.inj (hw''.symm.trans hw')
    have hcode : buf 2 = 0 := by
      by_contra hcode
      have hs := (hc.silent hcode).symm.trans hcalls
      simp at hs
    have ho := hc.others hcode 0 (by decide)
    rw [hkeys] at ho
    exact ⟨hcode, fun j => hbank ▸ hc.emptied hcode j, eraseBank_eq_iff.mp ho⟩
  · rintro ⟨hcode, hpass, hfing⟩
    refine ⟨w', hw', ?_⟩
    constructor
    · intro _ j
      exact hbank ▸ hpass j
    · intro _ adx _
      rw [hkeys]
      by_cases h₀ : adx = 0
      · subst h₀; exact eraseBank_eq_iff.mpr hfing
      · exact eraseBank_of_ne h₀
    · intro _
      exact hcalls
    · intro h
      exact absurd hcode h
    · intro h
      exact absurd hcode h

end Acknowledgement

theorem clear_ack_iff_firstDevice :
    (single firstDevice).productSubSearchByName firstDevice.deviceName = some 0 ∧
    ((∃ w', (single firstDevice).aflyNxpRptEvent .quiet firstDevice.deviceName
        eventNxpAddDelPassRet (fun _ => 0) = some w' ∧
        ClearsPasswords (single firstDevice) w' 0 0) ↔
      (0 : ℤ) = 0 ∧ (∀ j, (((single firstDevice).subdevs 0).bank 2 j).keyState = keyStateNone) ∧
        ∀ j, (((single firstDevice).subdevs 0).bank 1 j).keyState = keyStateNone) :=
  have hname : (single firstDevice).productSubSearchByName firstDevice.deviceName = some 0 := by
    decide +kernel
  ⟨hname, clear_ack_iff hname rfl⟩

/-- A successful acknowledgement leaves the password in place. -/
theorem clear_ack_keeps_password :
    ¬ ∀ env w name i buf, w.productSubSearchByName name = some i → buf 1 = 0 →
      ∃ w', w.aflyNxpRptEvent env name eventNxpAddDelPassRet buf = some w' ∧
        ClearsPasswords w w' i (buf 2) := by
  intro h
  have hname : (single lockWithPassword).productSubSearchByName lockWithPassword.deviceName =
      some 0 := by decide +kernel
  obtain ⟨w', hw', hc⟩ := h .quiet (single lockWithPassword) lockWithPassword.deviceName 0
    (fun _ => 0) hname rfl
  obtain ⟨w'', hw'', hkeys, -⟩ :=
    clearAck_spec .quiet (fun _ => 0) hname rfl
  obtain rfl : w'' = w' := Option.some.inj (hw''.symm.trans hw')
  have hk := hc.emptied rfl 0
  unfold SubDev.bank at hk
  rw [hkeys] at hk
  exact absurd hk (by decide +kernel)

end Afly
