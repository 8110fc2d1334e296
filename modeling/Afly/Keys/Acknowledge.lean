import Afly.Keys.Edits

/-! # The acknowledgement of a key

An acknowledgement is validated against the last live slot with its id, but it
completes the first slot that is being added, or deletes the first added one.
The three scans agree exactly when no second slot in the same state carries the
id of the validated one.
-/

namespace Afly

open World

theorem passIdType_key {passId type : ℤ} (h : passIdType passId = some type) (ht : type ≠ 0) :
    1000000 ≤ passId ∧ (type = 1 ∨ type = 2 ∨ type = 3) := by
  unfold passIdType at h
  split_ifs at h <;> (cases h; omega)

def addedNotice (type : ℤ) (key : LockKey) : Notice :=
  ⟨"KeyAddedNotification", [("KeyID", .str (sprintfInt key.id)), ("LockType", .int type),
    ("UserLimit", .int key.limit),
    ("KeyStr", .str (snprintfStr key.len (cstr (List.ofFn key.buf))))]⟩

def deletedNotice (type : ℤ) (key : LockKey) : Notice :=
  ⟨"KeyDeletedNotification", [("KeyID", .str (sprintfInt key.id)), ("LockType", .int type)]⟩

section Relations

variable (w w' : World) (i : Slot)

/-- The step triggers the notice for the record, and makes no other call. -/
def Emits (n : Notice) : Prop := w'.sdk.calls = w.sdk.calls ++
  [(.trigger (w.subdevs i).devid n, w.sdk.live (w.subdevs i).devid)]

/-- Exactly the slot `k` of the bank went from one state to the other. -/
def OnlyWent (type s s' : ℤ) (k : Fin 128) : Prop :=
  ∀ k', (((w.subdevs i).bank type k').keyState = s ∧ ((w'.subdevs i).bank type k').keyState = s') ↔
    k' = k

end Relations

/-- What one acknowledgement, and the same one delivered again, has to do. -/
structure AckCorrect (w w' : World) (name : CStr) (i : Slot) (type : ℤ) (buf : ℕ → ℤ) :
    Prop where
  validated : ∀ adx k, (w'.subdevs i).lock.keys adx k ≠ (w.subdevs i).lock.keys adx k →
    adx = productSubConvetType2idx type ∧
      productSubLockGetKeyById (w.subdevs i) type (buf 1) = some k
  added : ∀ n, (Emits w w' i n ∧ n.identifier = "KeyAddedNotification") ↔
    ∃ k, OnlyWent w w' i type keyStateAdding keyStateAdded k ∧
      n = addedNotice type ((w.subdevs i).bank type k)
  deleted : ∀ n, (Emits w w' i n ∧ n.identifier = "KeyDeletedNotification") ↔
    ∃ k, OnlyWent w w' i type keyStateAdded keyStateNone k ∧
      n = deletedNotice type ((w.subdevs i).bank type k)
  again : ∀ env w'', w'.aflyNxpRptEvent env name eventNxpAddDelPassRet buf = some w'' →
    (w''.subdevs i).lock.keys = (w'.subdevs i).lock.keys ∧ w''.sdk.calls = w'.sdk.calls

/-- The validated slot, if it is in the state the acknowledgement needs, is the only slot in that
state with the id. -/
def AckUnambiguous (sd : SubDev) (type op passId code : ℤ) : Prop :=
  ∀ s, ((op = 1 ∧ s = keyStateAdding) ∨ (op = 0 ∧ s = keyStateAdded)) → code = 0 →
    ∀ j, productSubLockGetKeyById sd type passId = some j → (sd.bank type j).keyState = s →
      ∀ k, (sd.bank type k).keyState = s → (sd.bank type k).id = passId → k = j

section Acknowledgement

variable {env : Env} {w w' : World} {name : CStr} {i : Slot} {type : ℤ} {buf : ℕ → ℤ}

theorem rptEvent_keyAck (hname : w.productSubSearchByName name = some i)
    (htype : passIdType (buf 1) = some type) (ht : type ≠ 0) :
    w.aflyNxpRptEvent env name eventNxpAddDelPassRet buf =
      some ((w.keyAck env i type (buf 0) (buf 1) (buf 2)).2.elim
        (w.keyAck env i type (buf 0) (buf 1) (buf 2)).1 fun n =>
          (w.keyAck env i type (buf 0) (buf 1) (buf 2)).1.triggerEvent env i n) := by
  have hr := (passIdType_key htype ht).1
  unfold aflyNxpRptEvent
  rw [hname]
  dsimp only
  rw [lockEvent, if_neg (by decide), if_pos rfl, addDelPassRet, htype]
  dsimp only
  rw [if_neg (by omega), if_neg (by omega), if_neg (by omega), Option.map_some]
  split <;> simp_all

variable (env buf) in
theorem keyAckEvent_cases (hname : w.productSubSearchByName name = some i)
    (htype : passIdType (buf 1) = some type) (ht : type ≠ 0) :
    ∃ w', w.aflyNxpRptEvent env name eventNxpAddDelPassRet buf = some w' ∧
    ((w' = w ∧ AckIdle (w.subdevs i) type (buf 0) (buf 1) (buf 2)) ∨
    (∃ j k, productSubLockGetKeyById (w.subdevs i) type (buf 1) = some j ∧
      ((w.subdevs i).bank type j).keyState = keyStateAdding ∧ buf 0 = 1 ∧ buf 2 = 0 ∧
      firstAdding (w.subdevs i) type (buf 1) = some k ∧
      (w'.subdevs i).lock.keys = ((w.subdevs i).setBankKey type k
        { (w.subdevs i).bank type k with keyState := keyStateAdded }).lock.keys ∧
      Emits w w' i (addedNotice type ((w.subdevs i).bank type j))) ∨
    ∃ j k, productSubLockGetKeyById (w.subdevs i) type (buf 1) = some j ∧
      ((w.subdevs i).bank type j).keyState = keyStateAdded ∧ buf 0 = 0 ∧ buf 2 = 0 ∧
      firstAdded (w.subdevs i) type (buf 1) = some k ∧
      (w'.subdevs i).lock.keys = ((w.subdevs i).setBankKey type k .zero).lock.keys ∧
      Emits w w' i (deletedNotice type ((w.subdevs i).bank type j))) := by
  rw [rptEvent_keyAck hname htype ht]
  refine ⟨_, rfl, ?_⟩
  rcases keyAck_cases env w i type (buf 0) (buf 1) (buf 2) with
    ⟨he, hno⟩ | ⟨j, k, hj, hs, hop, hcode, hk, he⟩ | ⟨j, k, hj, hs, hop, hcode, hk, he⟩
  · rw [he]
    exact Or.inl ⟨rfl, hno⟩
  · rw [he]
    refine Or.inr (Or.inl ⟨j, k, hj, hs, hop, hcode, hk, ?_, ?_⟩)
    · dsimp only [Option.elim]
      rw [(triggerEvent_sameKeys _).keys, productSubSave_subdevs, setDev_subdevs,
        Function.update_self]
    · rw [Emits, addedNotice, (getKeyById_eq_some_iff.mp hj).1.2]
      dsimp only [Option.elim]
      rw [triggerEvent_calls, productSubSave_sdk, setDev_sdk, productSubSave_subdevs,
        setDev_subdevs, Function.update_self]
      rfl
  · rw [he]
    refine Or.inr (Or.inr ⟨j, k, hj, hs, hop, hcode, hk, ?_, ?_⟩)
    · dsimp only [Option.elim]
      rw [(triggerEvent_sameKeys _).keys, productSubSave_subdevs, setDev_subdevs,
        Function.update_self]
    · rw [Emits, deletedNotice, (getKeyById_eq_some_iff.mp hj).1.2]
      dsimp only [Option.elim]
      rw [triggerEvent_calls, productSubSave_sdk, setDev_sdk, productSubSave_subdevs,
        setDev_subdevs, Function.update_self]
      rfl

theorem Emits.eq {n m : Notice} (h : Emits w w' i n) (h' : Emits w w' i m) : n = m := by
  have he := h.symm.trans h'
  simpa using he

theorem not_emits_self {n : Notice} : ¬ Emits w w i n := by
  intro h
  unfold Emits at h
  simp at h

theorem rptEvent_idle (hname : w.productSubSearchByName name = some i)
    (htype : passIdType (buf 1) = some type) (ht : type ≠ 0)
    (hidle : AckIdle (w.subdevs i) type (buf 0) (buf 1) (buf 2)) :
    w.aflyNxpRptEvent env name eventNxpAddDelPassRet buf = some w := by
  obtain ⟨w', hw', ⟨rfl, -⟩ | ⟨j, -, hj, hs, hop, hcode, -⟩ | ⟨j, -, hj, hs, hop, hcode, -⟩⟩ :=
    keyAckEvent_cases env buf hname htype ht
  · exact hw'
  · exact absurd (Or.inl ⟨hs, hop⟩) (hidle j hj hcode)
  · exact absurd (Or.inr ⟨hs, hop⟩) (hidle j hj hcode)

theorem ackCorrect_idle (hname : w.productSubSearchByName name = some i)
    (htype : passIdType (buf 1) = some type) (ht : type ≠ 0)
    (hidle : AckIdle (w.subdevs i) type (buf 0) (buf 1) (buf 2)) :
    AckCorrect w w name i type buf where
  validated _ _ h := absurd rfl h
  added n := by
    constructor
    · rintro ⟨hn, -⟩
      exact absurd hn not_emits_self
    · rintro ⟨k, hk, -⟩
      obtain ⟨hs, hs'⟩ := (hk k).mpr rfl
      exact absurd (hs.symm.trans hs') (by decide)
  deleted n := by
    constructor
    · rintro ⟨hn, -⟩
      exact absurd hn not_emits_self
    · rintro ⟨k, hk, -⟩
      obtain ⟨hs, hs'⟩ := (hk k).mpr rfl
      exact absurd (hs.symm.trans hs') (by decide)
  again env w'' h := by
    obtain rfl : w'' = w :=
      Option.some.inj (h.symm.trans (rptEvent_idle hname htype ht hidle))
    exact ⟨rfl, rfl⟩

theorem onlyWent_of_keys {k : Fin 128} {key : LockKey} {s s' : ℤ} (hss : s ≠ s')
    (hkeys : (w'.subdevs i).lock.keys = ((w.subdevs i).setBankKey type k key).lock.keys)
    (hs : ((w.subdevs i).bank type k).keyState = s) (hs' : key.keyState = s') (l : Fin 128) :
    OnlyWent w w' i type s s' l ↔ l = k := by
  have hb := bank_of_keys hkeys
  have hwent (m : Fin 128) : (((w.subdevs i).bank type m).keyState = s ∧
      ((w'.subdevs i).bank type m).keyState = s') ↔ m = k := by
    rw [hb]
    constructor
    · rintro ⟨h, h'⟩
      by_contra hm
      rw [Function.update_of_ne hm] at h'
      exact hss (h.symm.trans h')
    · rintro rfl
      rw [Function.update_self]
      exact ⟨hs, hs'⟩
  constructor
  · intro h
    exact (hwent l).mp ((h l).mpr rfl)
  · rintro rfl
    exact hwent

theorem not_onlyWent_of_keys {k l : Fin 128} {key : LockKey} {s s' : ℤ} (hss : s ≠ s')
    (hkeys : (w'.subdevs i).lock.keys = ((w.subdevs i).setBankKey type k key).lock.keys)
    (hne : ((w.subdevs i).bank type k).keyState ≠ s) : ¬ OnlyWent w w' i type s s' l := by
  intro h
  have hb := bank_of_keys hkeys
  have hl := (h l).mpr rfl
  by_cases hlk : l = k
  · subst hlk; exact hne hl.1
  · rw [hb, Function.update_of_ne hlk] at hl
    exact hss (hl.1.symm.trans hl.2)

theorem firstAdding_eq_of_unique {sd : SubDev} {id : ℤ} {j k : Fin 128}
    (hk : firstAdding sd type id = some k)
    (hu : ∀ l, (sd.bank type l).keyState = keyStateAdding → (sd.bank type l).id = id → l = j) :
    k = j := hu k (firstAdding_eq_some_iff.mp hk).1.1 (firstAdding_eq_some_iff.mp hk).1.2

theorem firstAdded_eq_of_unique {sd : SubDev} {id : ℤ} {j k : Fin 128}
    (hk : firstAdded sd type id = some k)
    (hu : ∀ l, (sd.bank type l).keyState = keyStateAdded → (sd.bank type l).id = id → l = j) :
    k = j := hu k (firstAdded_eq_some_iff.mp hk).1.1 (firstAdded_eq_some_iff.mp hk).1.2

section OneSlot

variable {s s' : ℤ} {j : Fin 128} {key : LockKey} {ident : String} {notice : Fin 128 → Notice}
  {m n : Notice}

theorem validated_of_keys
    (hj : productSubLockGetKeyById (w.subdevs i) type (buf 1) = some j)
    (hkeys : (w'.subdevs i).lock.keys = ((w.subdevs i).setBankKey type j key).lock.keys)
    (adx : Fin 4) (k : Fin 128)
    (h : (w'.subdevs i).lock.keys adx k ≠ (w.subdevs i).lock.keys adx k) :
    adx = productSubConvetType2idx type ∧
      productSubLockGetKeyById (w.subdevs i) type (buf 1) = some k := by
  rw [hkeys] at h
  obtain ⟨hadx, rfl⟩ := eq_of_setBankKey_ne h
  exact ⟨hadx, hj⟩

variable (notice) in
theorem emits_iff_of_keys (hss : s ≠ s')
    (hkeys : (w'.subdevs i).lock.keys = ((w.subdevs i).setBankKey type j key).lock.keys)
    (hs : ((w.subdevs i).bank type j).keyState = s) (hs' : key.keyState = s')
    (he : Emits w w' i (notice j)) (hi : (notice j).identifier = ident) :
    (Emits w w' i n ∧ n.identifier = ident) ↔
      ∃ k, OnlyWent w w' i type s s' k ∧ n = notice k := by
  simp only [onlyWent_of_keys hss hkeys hs hs', exists_eq_left]
  constructor
  · rintro ⟨hn, -⟩
    exact hn.eq he
  · rintro rfl
    exact ⟨he, hi⟩

theorem emits_iff_of_other (hss : s ≠ s')
    (hkeys : (w'.subdevs i).lock.keys = ((w.subdevs i).setBankKey type j key).lock.keys)
    (hs : ((w.subdevs i).bank type j).keyState ≠ s) (he : Emits w w' i m)
    (hi : m.identifier ≠ ident) :
    (Emits w w' i n ∧ n.identifier = ident) ↔
      ∃ k, OnlyWent w w' i type s s' k ∧ n = notice k := by
  constructor
  · rintro ⟨hn, hident⟩
    rw [hn.eq he] at hident
    exact absurd hident hi
  · rintro ⟨k, hk, -⟩
    exact absurd hk (not_onlyWent_of_keys hss hkeys hs)

theorem again_of_idle (hname : w'.productSubSearchByName name = some i)
    (htype : passIdType (buf 1) = some type) (ht : type ≠ 0)
    (hidle : AckIdle (w'.subdevs i) type (buf 0) (buf 1) (buf 2)) (env : Env) (w'' : World)
    (h : w'.aflyNxpRptEvent env name eventNxpAddDelPassRet buf = some w'') :
    (w''.subdevs i).lock.keys = (w'.subdevs i).lock.keys ∧ w''.sdk.calls = w'.sdk.calls := by
  obtain rfl : w'' = w' :=
    Option.some.inj (h.symm.trans (rptEvent_idle hname htype ht hidle))
  exact ⟨rfl, rfl⟩

theorem ackCorrect_complete (hname : w'.productSubSearchByName name = some i)
    (htype : passIdType (buf 1) = some type) (ht : type ≠ 0)
    (hj : productSubLockGetKeyById (w.subdevs i) type (buf 1) = some j)
    (hs : ((w.subdevs i).bank type j).keyState = keyStateAdding) (hop : buf 0 = 1)
    (hkeys : (w'.subdevs i).lock.keys = ((w.subdevs i).setBankKey type j
      { (w.subdevs i).bank type j with keyState := keyStateAdded }).lock.keys)
    (he : Emits w w' i (addedNotice type ((w.subdevs i).bank type j))) :
    AckCorrect w w' name i type buf := by
  have hb := bank_of_keys hkeys
  have hidle : AckIdle (w'.subdevs i) type (buf 0) (buf 1) (buf 2) := by
    intro l hl _
    -- the completed slot is still the last live one with the id
    have hlj : l = j := by
      obtain ⟨⟨hl₁, hl₂⟩, hl₃⟩ := getKeyById_eq_some_iff.mp hl
      obtain ⟨⟨-, hj₂⟩, hj₃⟩ := getKeyById_eq_some_iff.mp hj
      rw [hb] at hl₁ hl₂ hl₃
      rcases lt_trichotomy l j with hlt | rfl | hgt
      · exact absurd ⟨by simp, by simpa using hj₂⟩ (hl₃ j hlt)
      · rfl
      · rw [Function.update_of_ne hgt.ne'] at hl₁ hl₂
        exact absurd ⟨hl₁, hl₂⟩ (hj₃ l hgt)
    rw [hlj, hb, Function.update_self, hop]
    simp
  exact
    { validated := validated_of_keys hj hkeys
      added := fun _ => emits_iff_of_keys (fun k => addedNotice type ((w.subdevs i).bank type k))
        (by decide) hkeys hs rfl he rfl
      deleted := fun _ => emits_iff_of_other (by decide) hkeys (by rw [hs]; decide) he
        (by simp [addedNotice])
      again := again_of_idle hname htype ht hidle }

theorem ackCorrect_delete (hname : w'.productSubSearchByName name = some i)
    (htype : passIdType (buf 1) = some type) (ht : type ≠ 0)
    (hj : productSubLockGetKeyById (w.subdevs i) type (buf 1) = some j)
    (hs : ((w.subdevs i).bank type j).keyState = keyStateAdded) (hop : buf 0 = 0)
    (hkeys : (w'.subdevs i).lock.keys = ((w.subdevs i).setBankKey type j .zero).lock.keys)
    (he : Emits w w' i (deletedNotice type ((w.subdevs i).bank type j)))
    (hu : ∀ l, ((w.subdevs i).bank type l).keyState = keyStateAdded →
      ((w.subdevs i).bank type l).id = buf 1 → l = j) :
    AckCorrect w w' name i type buf := by
  have hb := bank_of_keys hkeys
  have hidle : AckIdle (w'.subdevs i) type (buf 0) (buf 1) (buf 2) := by
    intro l hl _
    obtain ⟨⟨hl₁, hl₂⟩, -⟩ := getKeyById_eq_some_iff.mp hl
    rw [hb] at hl₁ hl₂ ⊢
    by_cases hlj : l = j
    · subst hlj; simp at hl₁
    · rw [Function.update_of_ne hlj] at hl₂ ⊢
      rintro (⟨-, h₁⟩ | ⟨h₁, -⟩)
      · exact absurd (hop.symm.trans h₁) (by decide)
      · exact hlj (hu l h₁ hl₂)
  exact
    { validated := validated_of_keys hj hkeys
      added := fun _ => emits_iff_of_other (by decide) hkeys (by rw [hs]; decide) he
        (by simp [deletedNotice])
      deleted := fun _ => emits_iff_of_keys
        (fun k => deletedNotice type ((w.subdevs i).bank type k)) (by decide) hkeys hs rfl he rfl
      again := again_of_idle hname htype ht hidle }

theorem eq_of_changed {k l : Fin 128} (hc : AckCorrect w w' name i type buf)
    (hj : productSubLockGetKeyById (w.subdevs i) type (buf 1) = some j)
    (hs : s ≠ keyStateNone)
    (hkeys : (w'.subdevs i).lock.keys = ((w.subdevs i).setBankKey type k key).lock.keys)
    (hk : ((w.subdevs i).bank type k).keyState = s) (hkey : key.keyState ≠ s)
    (hfirst : ∀ k' < k, ¬ (((w.subdevs i).bank type k').keyState = s ∧
      ((w.subdevs i).bank type k').id = buf 1))
    (hl : ((w.subdevs i).bank type l).keyState = s)
    (hid : ((w.subdevs i).bank type l).id = buf 1) : l = j := by
  have hch := hc.validated (productSubConvetType2idx type) k (by
    rw [hkeys, SubDev.setBankKey, setKey_keys, Function.update_self, Function.update_self]
    exact fun h => hkey ((congrArg LockKey.keyState h).trans hk))
  obtain rfl : k = j := Option.some.inj (hch.2.symm.trans hj)
  apply le_antisymm
  · apply not_lt.mp
    intro hlt
    exact (getKeyById_eq_some_iff.mp hj).2 l hlt ⟨by rw [hl]; exact hs, hid⟩
  · apply not_lt.mp
    intro hlt
    exact hfirst l hlt ⟨hl, hid⟩

end OneSlot

theorem ackUnambiguous_of_correct (hname : w.productSubSearchByName name = some i)
    (htype : passIdType (buf 1) = some type) (ht : type ≠ 0)
    (hw' : w.aflyNxpRptEvent env name eventNxpAddDelPassRet buf = some w')
    (hc : AckCorrect w w' name i type buf) :
    AckUnambiguous (w.subdevs i) type (buf 0) (buf 1) (buf 2) := by
  obtain ⟨w'', hw'', hcases⟩ := keyAckEvent_cases env buf hname htype ht
  obtain rfl : w'' = w' := Option.some.inj (hw''.symm.trans hw')
  intro s hs hcode j hj hjs k hks hkid
  rcases hcases with ⟨-, hidle⟩ | ⟨-, m, -, -, hop, -, hm, hkeys, -⟩ |
    ⟨-, m, -, -, hop, -, hm, hkeys, -⟩
  · refine absurd ?_ (hidle j hj hcode)
    rcases hs with ⟨hop, rfl⟩ | ⟨hop, rfl⟩
    · exact Or.inl ⟨hjs, hop⟩
    · exact Or.inr ⟨hjs, hop⟩
  · obtain ⟨⟨hm₁, -⟩, hm₂⟩ := firstAdding_eq_some_iff.mp hm
    rcases hs with ⟨-, rfl⟩ | ⟨hop', -⟩
    · have hne : keyStateAdded ≠ keyStateAdding := by decide
      exact eq_of_changed hc hj (by decide) hkeys hm₁ hne hm₂ hks hkid
    · exact absurd (hop.symm.trans hop') (by decide)
  · obtain ⟨⟨hm₁, -⟩, hm₂⟩ := firstAdded_eq_some_iff.mp hm
    rcases hs with ⟨hop', -⟩ | ⟨-, rfl⟩
    · exact absurd (hop.symm.trans hop') (by decide)
    · exact eq_of_changed hc hj (by decide) hkeys hm₁ (by decide) hm₂ hks hkid

theorem ackCorrect_of_unambiguous (hname : w.productSubSearchByName name = some i)
    (htype : passIdType (buf 1) = some type) (ht : type ≠ 0)
    (hu : AckUnambiguous (w.subdevs i) type (buf 0) (buf 1) (buf 2)) :
    ∃ w', w.aflyNxpRptEvent env name eventNxpAddDelPassRet buf = some w' ∧
      AckCorrect w w' name i type buf := by
  obtain ⟨w', hw', hcases⟩ := keyAckEvent_cases env buf hname htype ht
  have hname' : w'.productSubSearchByName name = some i := by
    rw [productSubSearchByName_of_sameDevice (aflyNxpRptEvent_sameDevice hw'), hname]
  refine ⟨w', hw', ?_⟩
  rcases hcases with ⟨rfl, hidle⟩ | ⟨j, m, hj, hs, hop, hcode, hm, hkeys, he⟩ |
    ⟨j, m, hj, hs, hop, hcode, hm, hkeys, he⟩
  · exact ackCorrect_idle hname htype ht hidle
  · have huj := hu keyStateAdding (Or.inl ⟨hop, rfl⟩) hcode j hj hs
    rw [firstAdding_eq_of_unique hm huj] at hkeys
    exact ackCorrect_complete hname' htype ht hj hs hop hkeys he
  · have huj := hu keyStateAdded (Or.inr ⟨hop, rfl⟩) hcode j hj hs
    rw [firstAdded_eq_of_unique hm huj] at hkeys
    exact ackCorrect_delete hname' htype ht hj hs hop hkeys he huj

/-- Every acknowledgement of a key is correct exactly when its validated slot is the only one in
the expected state with its id. -/
theorem key_ack_iff (hname : w.productSubSearchByName name = some i)
    (htype : passIdType (buf 1) = some type) (ht : type ≠ 0) :
    (∃ w', w.aflyNxpRptEvent env name eventNxpAddDelPassRet buf = some w' ∧
      AckCorrect w w' name i type buf) ↔
    AckUnambiguous (w.subdevs i) type (buf 0) (buf 1) (buf 2) := by
  constructor
  · rintro ⟨w', hw', hc⟩
    exact ackUnambiguous_of_correct hname htype ht hw' hc
  · intro hu
    exact ackCorrect_of_unambiguous hname htype ht hu

end Acknowledgement

/-- The delete acknowledgement of the only password of a lock is correct. -/
theorem key_ack_iff_lockWithPassword :
    (single lockWithPassword).productSubSearchByName lockWithPassword.deviceName = some 0 ∧
    ((∃ w', (single lockWithPassword).aflyNxpRptEvent .quiet lockWithPassword.deviceName
        eventNxpAddDelPassRet (ackBuf 0 2123456 0) = some w' ∧
        AckCorrect (single lockWithPassword) w' lockWithPassword.deviceName 0 2
          (ackBuf 0 2123456 0)) ↔
      AckUnambiguous ((single lockWithPassword).subdevs 0) 2 0 2123456 0) :=
  have hname : (single lockWithPassword).productSubSearchByName lockWithPassword.deviceName =
      some 0 := by decide +kernel
  ⟨hname, key_ack_iff hname (by decide) (by decide)⟩

theorem run_addKey_twice : (Reach.run step boot [(.quiet, .nxpReg newLock),
      addKeyOp "123456", addKeyOp "123456"]).map
    (fun w => (w.productSubSearchByName newLock.name,
      productSubLockGetKeyById (w.subdevs 0) 2 2123456, ((w.subdevs 0).bank 2 1).keyState,
      firstAdding (w.subdevs 0) 2 2123456)) =
    some (some 0, some 1, keyStateAdding, some 0) := by
  decide +kernel

/-- After two requests for one password, the acknowledgement completes the wrong slot. -/
theorem key_ack_completes_other_slot :
    ¬ ∀ w, Reach.Reachable step (fun _ _ => True) boot w → ∀ env name i type buf,
      w.productSubSearchByName name = some i → passIdType (buf 1) = some type → type ≠ 0 →
      ∃ w', w.aflyNxpRptEvent env name eventNxpAddDelPassRet buf = some w' ∧
        AckCorrect w w' name i type buf := by
  intro h
  obtain ⟨w, hw, hobs⟩ := Option.map_eq_some_iff.mp run_addKey_twice
  simp only [Prod.mk.injEq] at hobs
  obtain ⟨hname, hj, hs, hk⟩ := hobs
  have htype : passIdType (ackBuf 1 2123456 0 1) = some 2 := by decide
  have hreach := Reach.reachable_of_run hw (fun _ _ _ => trivial) .start
  obtain ⟨w', hw', hc⟩ := h w hreach .quiet newLock.name 0 2 (ackBuf 1 2123456 0) hname htype
    (by decide)
  have hu := ackUnambiguous_of_correct hname htype (by decide) hw' hc
  obtain ⟨⟨hk₁, hk₂⟩, -⟩ := firstAdding_eq_some_iff.mp hk
  have h01 := hu keyStateAdding (Or.inl ⟨rfl, rfl⟩) rfl 1 hj hs 0 hk₁ hk₂
  exact absurd h01 (by decide)

end Afly
