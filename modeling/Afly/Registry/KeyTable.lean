import Afly.Registry.Record

/-! # The key table of a lock

The scans of `product_sub.c` over one bank of key slots. Completion and deletion
stop at the first slot that matches; the lookup by id runs to the end and keeps
the last one. Key pointers are slot numbers of the bank.
-/

namespace Afly

/-- `product_sub_convet_type2idx`: the bank of a lock type, and the first bank for any other. -/
def productSubConvetType2idx (type : ℤ) : Fin 4 :=
  if type = 1 then 0 else if type = 2 then 1 else if type = 3 then 2 else if type = 5 then 3 else 0

namespace SubDev

variable (sd : SubDev) (type id : ℤ)

def bank : KeyBank := sd.lock.keys (productSubConvetType2idx type)

def setKeys (keys : Fin 4 → KeyBank) : SubDev := { sd with lock := { sd.lock with keys := keys } }

def setBankKey (j : Fin 128) (key : LockKey) : SubDev :=
  sd.setKey (productSubConvetType2idx type) j key

end SubDev

section Scans

variable (sd : SubDev) (type id : ℤ)

def productSubLockGetKeyNum : ℕ :=
  (Finset.univ.filter fun j => (sd.bank type j).keyState = keyStateAdded).card

/-- The slot that `product_sub_lock_add_key_wait_ack` takes. -/
def firstNone : Option (Fin 128) :=
  Fin.find? fun j => (sd.bank type j).keyState = keyStateNone

/-- The slot that `product_sub_lock_add_key_complete` completes. -/
def firstAdding : Option (Fin 128) :=
  Fin.find? fun j => (sd.bank type j).keyState = keyStateAdding ∧ (sd.bank type j).id = id

/-- The slot that `product_sub_lock_del_key` deletes. -/
def firstAdded : Option (Fin 128) :=
  Fin.find? fun j => (sd.bank type j).keyState = keyStateAdded ∧ (sd.bank type j).id = id

def productSubLockGetKeyById : Option (Fin 128) :=
  Fin.findRev? fun j => (sd.bank type j).keyState ≠ keyStateNone ∧ (sd.bank type j).id = id

end Scans

/-- The id of a new key: `1000000 * type + atoi(buf)` in `int`. -/
def keyId (type : ℤ) (buf : CStr) : ℤ := int32 (int32 (1000000 * type) + atoi buf)

/-- The key that `product_sub_lock_add_key_wait_ack` writes over an old slot. -/
def fillKey (old : LockKey) (time type limit : ℤ) (buf : CStr) : LockKey where
  last := int32 time
  keyState := keyStateAdding
  id := keyId type buf
  type := type
  limit := limit
  len := buf.length
  buf := fun i => if i.val < buf.length then buf.getD i.val nul else old.buf i

/-- `product_sub_lock_add_key_wait_ack`: the record with the new key, and its slot. -/
def productSubLockAddKeyWaitAck (sd : SubDev) (time type limit : ℤ) (buf : CStr) :
    Option (SubDev × Fin 128) :=
  if productSubLockGetKeyNum sd type < 128 then
    (firstNone sd type).map fun j =>
      (sd.setBankKey type j (fillKey (sd.bank type j) time type limit buf), j)
  else none

def productValidPasswordString (s : CStr) : Bool :=
  decide (6 ≤ s.length) && decide (s.length ≤ 15) && s.all fun c => c.isDigit || c = ','

section Spec

variable {sd : SubDev} {type id : ℤ} {adx : Fin 4} {j k : Fin 128} {key : LockKey}

@[simp] theorem setKey_keys : (sd.setKey adx j key).lock.keys =
    Function.update sd.lock.keys adx (Function.update (sd.lock.keys adx) j key) := rfl

@[simp] theorem setKeys_keys (keys : Fin 4 → KeyBank) : (sd.setKeys keys).lock.keys = keys := rfl

@[simp] theorem setKeys_setKeys (keys keys' : Fin 4 → KeyBank) :
    (sd.setKeys keys).setKeys keys' = sd.setKeys keys' := rfl

theorem setBankKey_eq_setKeys : sd.setBankKey type j key =
    sd.setKeys (Function.update sd.lock.keys (productSubConvetType2idx type)
      (Function.update (sd.bank type) j key)) := rfl

@[simp] theorem setBankKey_bank : (sd.setBankKey type j key).bank type =
    Function.update (sd.bank type) j key := by
  simp [SubDev.bank, SubDev.setBankKey]

theorem bank_of_keys {sd' : SubDev} (h : sd'.lock.keys = (sd.setBankKey type j key).lock.keys) :
    sd'.bank type = Function.update (sd.bank type) j key := by
  rw [← setBankKey_bank, SubDev.bank, h, SubDev.bank]

theorem setBankKey_keys_of_ne (h : adx ≠ productSubConvetType2idx type) :
    (sd.setBankKey type j key).lock.keys adx = sd.lock.keys adx := by
  simp [SubDev.setBankKey, h]

theorem eq_of_setBankKey_ne
    (h : (sd.setBankKey type j key).lock.keys adx k ≠ sd.lock.keys adx k) :
    adx = productSubConvetType2idx type ∧ k = j := by
  by_cases hadx : adx = productSubConvetType2idx type
  · subst hadx
    refine ⟨rfl, ?_⟩
    by_contra hk
    apply h
    rw [SubDev.setBankKey, setKey_keys, Function.update_self, Function.update_of_ne hk]
  · exact absurd (congrFun (setBankKey_keys_of_ne hadx) k) h

theorem firstNone_eq_some_iff : firstNone sd type = some j ↔
    (sd.bank type j).keyState = keyStateNone ∧
      ∀ k < j, (sd.bank type k).keyState ≠ keyStateNone := by
  simp only [firstNone, Fin.find?_eq_some_iff, decide_eq_true_eq, decide_eq_false_iff_not]

theorem firstNone_eq_none_iff : firstNone sd type = none ↔
    ∀ k, (sd.bank type k).keyState ≠ keyStateNone := by
  simp only [firstNone, Fin.find?_eq_none_iff, decide_eq_false_iff_not]

theorem firstAdding_eq_some_iff : firstAdding sd type id = some j ↔
    ((sd.bank type j).keyState = keyStateAdding ∧ (sd.bank type j).id = id) ∧
      ∀ k < j, ¬ ((sd.bank type k).keyState = keyStateAdding ∧ (sd.bank type k).id = id) := by
  simp only [firstAdding, Fin.find?_eq_some_iff, decide_eq_true_eq, decide_eq_false_iff_not]

theorem firstAdded_eq_some_iff : firstAdded sd type id = some j ↔
    ((sd.bank type j).keyState = keyStateAdded ∧ (sd.bank type j).id = id) ∧
      ∀ k < j, ¬ ((sd.bank type k).keyState = keyStateAdded ∧ (sd.bank type k).id = id) := by
  simp only [firstAdded, Fin.find?_eq_some_iff, decide_eq_true_eq, decide_eq_false_iff_not]

theorem exists_firstAdding (h : (sd.bank type j).keyState = keyStateAdding)
    (hid : (sd.bank type j).id = id) : ∃ k, firstAdding sd type id = some k :=
  Option.isSome_iff_exists.mp (Fin.isSome_find?_iff.mpr ⟨j, by simp [h, hid]⟩)

theorem exists_firstAdded (h : (sd.bank type j).keyState = keyStateAdded)
    (hid : (sd.bank type j).id = id) : ∃ k, firstAdded sd type id = some k :=
  Option.isSome_iff_exists.mp (Fin.isSome_find?_iff.mpr ⟨j, by simp [h, hid]⟩)

theorem getKeyById_eq_some_iff : productSubLockGetKeyById sd type id = some j ↔
    ((sd.bank type j).keyState ≠ keyStateNone ∧ (sd.bank type j).id = id) ∧
      ∀ k, j < k → ¬ ((sd.bank type k).keyState ≠ keyStateNone ∧ (sd.bank type k).id = id) := by
  simp only [productSubLockGetKeyById, Fin.findRev?_eq_some_iff, decide_eq_true_eq,
    decide_eq_false_iff_not]

theorem addKeyWaitAck_eq_some_iff {time limit : ℤ} {buf : CStr} {sd' : SubDev} :
    productSubLockAddKeyWaitAck sd time type limit buf = some (sd', j) ↔
      firstNone sd type = some j ∧
        sd' = sd.setBankKey type j (fillKey (sd.bank type j) time type limit buf) := by
  unfold productSubLockAddKeyWaitAck
  constructor
  · intro h
    split_ifs at h
    obtain ⟨k, hk, he⟩ := Option.map_eq_some_iff.mp h
    cases he
    exact ⟨hk, rfl⟩
  · rintro ⟨hj, rfl⟩
    have hlt : productSubLockGetKeyNum sd type < 128 := by
      rw [productSubLockGetKeyNum]
      refine lt_of_lt_of_eq (Finset.card_lt_univ_of_notMem (x := j) ?_) (by simp)
      simp [(firstNone_eq_some_iff.mp hj).1]
    rw [if_pos hlt, hj]
    rfl

theorem addKeyWaitAck_eq_none_iff {time limit : ℤ} {buf : CStr} :
    productSubLockAddKeyWaitAck sd time type limit buf = none ↔ firstNone sd type = none := by
  cases hf : firstNone sd type with
  | none => unfold productSubLockAddKeyWaitAck; simp [hf]
  | some j =>
    have h : productSubLockAddKeyWaitAck sd time type limit buf =
        some (sd.setBankKey type j (fillKey (sd.bank type j) time type limit buf), j) :=
      addKeyWaitAck_eq_some_iff.mpr ⟨hf, rfl⟩
    simp [h]

end Spec

end Afly
