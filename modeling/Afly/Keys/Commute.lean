import Afly.Keys.Acknowledge
import Afly.Gateway.Step

/-! # The order of acknowledgements

An acknowledgement reads the slots with its id and writes one of them. The write
leaves no slot with another id different, so that an acknowledgement of another
id finds what it would have found before, and writes another slot.
-/

namespace Afly

open World Reach

def InKeyRange (passId : ℤ) : Prop :=
  (1000000 ≤ passId ∧ passId < 4000000) ∨ (5000000 ≤ passId ∧ passId < 6000000)

instance (passId : ℤ) : Decidable (InKeyRange passId) := inferInstanceAs (Decidable (_ ∨ _))

/-- Every trigger and every write to the file succeeds. -/
structure Env.Succeeds (env : Env) : Prop where
  trigger : 0 ≤ env.trigger
  save : ∀ k, env.save k = ⟨0, true⟩

/-- The same records and the same file, and the same calls at the SDK in some order. -/
structure SameButOrder (w w' : World) : Prop where
  subdevs : w'.subdevs = w.subdevs
  db : w'.db = w.db
  calls : w.sdk.calls.Perm w'.sdk.calls

/-- The write of an acknowledgement, and the notice about it. -/
structure AckEdit where
  slot : Fin 128
  key : LockKey
  notice : Notice

def ackEdit (sd : SubDev) (type op passId code : ℤ) : Option AckEdit :=
  (productSubLockGetKeyById sd type passId).bind fun j =>
    let key := sd.bank type j
    if code ≠ 0 then none
    else if key.keyState = keyStateAdding ∧ op = 1 then
      (firstAdding sd type passId).map fun k =>
        ⟨k, { sd.bank type k with keyState := keyStateAdded }, addedNotice type key⟩
    else if key.keyState = keyStateAdded ∧ op = 0 then
      (firstAdded sd type passId).map fun k => ⟨k, .zero, deletedNotice type key⟩
    else none

theorem passIdType_of_inKeyRange {passId : ℤ} (h : InKeyRange passId) :
    ∃ type, passIdType passId = some type ∧ type ≠ 0 := by
  unfold InKeyRange at h
  unfold passIdType
  split_ifs <;> first | exact ⟨_, rfl, by decide⟩ | omega

section Edits

variable {sd sd' : SubDev} {type type' op passId passId' code : ℤ} {e : AckEdit}

def Names (sd : SubDev) (type passId : ℤ) (j : Fin 128) : Prop :=
  (sd.bank type j).keyState ≠ keyStateNone ∧ (sd.bank type j).id = passId

def SameNamed (type passId : ℤ) (sd sd' : SubDev) : Prop :=
  ∀ j, sd'.bank type j = sd.bank type j ∨ (¬ Names sd type passId j ∧ ¬ Names sd' type passId j)

theorem ackEdit_names (h : ackEdit sd type op passId code = some e) :
    Names sd type passId e.slot ∧ (e.key.keyState = keyStateNone ∨ e.key.id = passId) := by
  obtain ⟨j, -, he⟩ := Option.bind_eq_some_iff.mp h
  dsimp only at he
  split_ifs at he
  · obtain ⟨k, hk, rfl⟩ := Option.map_eq_some_iff.mp he
    obtain ⟨⟨hs, hid⟩, -⟩ := firstAdding_eq_some_iff.mp hk
    exact ⟨⟨by rw [hs]; decide, hid⟩, Or.inr hid⟩
  · obtain ⟨k, hk, rfl⟩ := Option.map_eq_some_iff.mp he
    obtain ⟨⟨hs, hid⟩, -⟩ := firstAdded_eq_some_iff.mp hk
    exact ⟨⟨by rw [hs]; decide, hid⟩, Or.inl rfl⟩

theorem SameNamed.scan (h : SameNamed type passId sd sd') {s : ℤ} (hs : s ≠ keyStateNone)
    (j : Fin 128) : ((sd'.bank type j).keyState = s ∧ (sd'.bank type j).id = passId) ↔
      ((sd.bank type j).keyState = s ∧ (sd.bank type j).id = passId) := by
  rcases h j with he | ⟨hno, hno'⟩
  · rw [he]
  · constructor
    · rintro ⟨hs', hid⟩
      exact absurd ⟨by rw [hs']; exact hs, hid⟩ hno'
    · rintro ⟨hs', hid⟩
      exact absurd ⟨by rw [hs']; exact hs, hid⟩ hno

theorem SameNamed.getKeyById (h : SameNamed type passId sd sd') :
    productSubLockGetKeyById sd' type passId = productSubLockGetKeyById sd type passId := by
  unfold productSubLockGetKeyById
  congr 1
  funext j
  rw [decide_eq_decide]
  rcases h j with he | ⟨hno, hno'⟩
  · rw [he]
  · exact ⟨fun hn => absurd hn hno', fun hn => absurd hn hno⟩

theorem SameNamed.firstAdding (h : SameNamed type passId sd sd') :
    firstAdding sd' type passId = firstAdding sd type passId := by
  unfold Afly.firstAdding
  congr 1
  funext j
  rw [decide_eq_decide]
  exact h.scan (by decide) j

theorem SameNamed.firstAdded (h : SameNamed type passId sd sd') :
    firstAdded sd' type passId = firstAdded sd type passId := by
  unfold Afly.firstAdded
  congr 1
  funext j
  rw [decide_eq_decide]
  exact h.scan (by decide) j

theorem SameNamed.bank (h : SameNamed type passId sd sd') {j : Fin 128}
    (hj : Names sd type passId j) : sd'.bank type j = sd.bank type j :=
  (h j).resolve_right fun hn => hn.1 hj

theorem SameNamed.ackEdit (h : SameNamed type passId sd sd') :
    ackEdit sd' type op passId code = ackEdit sd type op passId code := by
  unfold Afly.ackEdit
  rw [h.getKeyById, h.firstAdding, h.firstAdded]
  cases hj : productSubLockGetKeyById sd type passId with
  | none => rfl
  | some j =>
    rw [Option.bind_some, Option.bind_some, h.bank (getKeyById_eq_some_iff.mp hj).1]
    cases hk : Afly.firstAdding sd type passId with
    | none => rfl
    | some k =>
      obtain ⟨⟨hs, hid⟩, -⟩ := firstAdding_eq_some_iff.mp hk
      have hb := h.bank (j := k) ⟨by rw [hs]; decide, hid⟩
      simp only [Option.map_some, hb]

theorem sameNamed_setBankKey (h : ackEdit sd type op passId code = some e)
    (hne : passId ≠ passId') :
    SameNamed type' passId' sd (sd.setBankKey type e.slot e.key) := by
  obtain ⟨⟨-, hid⟩, hkey⟩ := ackEdit_names h
  intro j
  by_cases he : (sd.setBankKey type e.slot e.key).bank type' j = sd.bank type' j
  · exact Or.inl he
  obtain ⟨hadx, rfl⟩ := eq_of_setBankKey_ne he
  have hbank : sd.bank type' = sd.bank type := by rw [SubDev.bank, SubDev.bank, hadx]
  have hbank' : (sd.setBankKey type e.slot e.key).bank type' =
      (sd.setBankKey type e.slot e.key).bank type := by rw [SubDev.bank, SubDev.bank, hadx]
  refine Or.inr ⟨?_, ?_⟩
  · rintro ⟨-, hid'⟩
    rw [hbank] at hid'
    exact hne (hid.symm.trans hid')
  · rintro ⟨hs', hid'⟩
    rw [hbank', setBankKey_bank, Function.update_self] at hs' hid'
    rcases hkey with hnone | hkey
    · exact hs' hnone
    · exact hne (hkey.symm.trans hid')

theorem setBankKey_comm {k k' : Fin 128} {key key' : LockKey}
    (h : productSubConvetType2idx type = productSubConvetType2idx type' → k ≠ k') :
    (sd.setBankKey type k key).setBankKey type' k' key' =
      (sd.setBankKey type' k' key').setBankKey type k key := by
  unfold SubDev.setBankKey
  generalize productSubConvetType2idx type = adx at h ⊢
  generalize productSubConvetType2idx type' = adx' at h ⊢
  unfold SubDev.setKey Lock.setKey
  dsimp only
  by_cases hadx : adx = adx'
  · subst hadx
    rw [Function.update_self, Function.update_self, Function.update_idem, Function.update_idem,
      Function.update_comm (h rfl)]
  · rw [Function.update_of_ne hadx, Function.update_of_ne (Ne.symm hadx),
      Function.update_comm hadx]

end Edits

section File

variable {db : DbFile} {i i' : Slot} {sd sd' : SubDev}

theorem DbFile.write_idem : (db.write i sd).write i sd' = db.write i sd' := by
  cases db <;> simp [DbFile.write]

theorem DbFile.write_comm (h : i ≠ i') :
    (db.write i sd).write i' sd' = (db.write i' sd').write i sd := by
  cases db with
  | whole t => exact congrArg DbFile.whole (Function.update_comm h _ _ _)
  | _ => rfl

end File

namespace World

/-- Write a key of the record `i`, save the record and trigger the notice. -/
def commit (w : World) (i : Slot) (type : ℤ) (e : AckEdit) : World :=
  let sd := (w.subdevs i).setBankKey type e.slot e.key
  { w with
    subdevs := Function.update w.subdevs i sd
    db := w.db.write i sd
    sdk := w.sdk.record (w.subdevs i).devid (.trigger (w.subdevs i).devid e.notice) }

/-- The record that an acknowledgement is for, with its write. -/
def ackTarget (w : World) (name : CStr) (buf : ℕ → ℤ) : Option (Slot × ℤ × AckEdit) := do
  let i ← w.productSubSearchByName name
  let type ← passIdType (buf 1)
  let e ← ackEdit (w.subdevs i) type (buf 0) (buf 1) (buf 2)
  some (i, type, e)

/-- An acknowledgement, when the save and the trigger succeed. -/
def acknowledge (w : World) (name : CStr) (buf : ℕ → ℤ) : World :=
  match w.ackTarget name buf with
  | none => w
  | some (i, type, e) => w.commit i type e

section Acknowledge

variable {env : Env} {w : World} {name name' : CStr} {buf buf' : ℕ → ℤ} {i i' : Slot}
  {type type' : ℤ} {e e' : AckEdit}

theorem ackTarget_eq_some_iff : w.ackTarget name buf = some (i, type, e) ↔
    w.productSubSearchByName name = some i ∧ passIdType (buf 1) = some type ∧
      ackEdit (w.subdevs i) type (buf 0) (buf 1) (buf 2) = some e := by
  unfold ackTarget
  simp only [Option.bind_eq_bind, Option.bind_eq_some_iff, Option.some.injEq, Prod.mk.injEq]
  constructor
  · rintro ⟨_, hi, _, ht, _, he, rfl, rfl, rfl⟩
    exact ⟨hi, ht, he⟩
  · rintro ⟨hi, ht, he⟩
    exact ⟨i, hi, type, ht, e, he, rfl, rfl, rfl⟩

theorem acknowledge_of_none (h : w.ackTarget name buf = none) : w.acknowledge name buf = w := by
  unfold acknowledge
  simp only [h]

theorem acknowledge_of_some (h : w.ackTarget name buf = some (i, type, e)) :
    w.acknowledge name buf = w.commit i type e := by
  unfold acknowledge
  simp only [h]

theorem keyAck_eq (r : env.save 0 = ⟨0, true⟩) (op passId code : ℤ) :
    w.keyAck env i type op passId code =
      match ackEdit (w.subdevs i) type op passId code with
      | none => (w, none)
      | some e => ((w.setDev i ((w.subdevs i).setBankKey type e.slot e.key)).productSubSave i
          ⟨0, true⟩, some e.notice) := by
  rcases keyAck_cases env w i type op passId code with
    ⟨he, hidle⟩ | ⟨j, k, hj, hs, rfl, rfl, hk, he⟩ | ⟨j, k, hj, hs, rfl, rfl, hk, he⟩
  · rw [he]
    have hno : ackEdit (w.subdevs i) type op passId code = none := by
      unfold ackEdit
      cases hj : productSubLockGetKeyById (w.subdevs i) type passId with
      | none => rfl
      | some j =>
        rw [Option.bind_some]
        dsimp only
        split_ifs with hc ha hd
        · rfl
        · exact absurd (Or.inl ha) (hidle j hj (not_not.mp hc))
        · exact absurd (Or.inr hd) (hidle j hj (not_not.mp hc))
        · rfl
    rw [hno]
  · have hid := (getKeyById_eq_some_iff.mp hj).1.2
    have hedit : ackEdit (w.subdevs i) type 1 passId 0 = some ⟨k,
        { (w.subdevs i).bank type k with keyState := keyStateAdded },
        addedNotice type ((w.subdevs i).bank type j)⟩ := by
      unfold ackEdit
      rw [hj, Option.bind_some]
      dsimp only
      rw [if_neg (by decide), if_pos ⟨hs, rfl⟩, hk, Option.map_some]
    rw [he, hedit, r, addedNotice, hid]
  · have hid := (getKeyById_eq_some_iff.mp hj).1.2
    have hedit : ackEdit (w.subdevs i) type 0 passId 0 = some ⟨k, .zero,
        deletedNotice type ((w.subdevs i).bank type j)⟩ := by
      unfold ackEdit
      rw [hj, Option.bind_some]
      dsimp only
      rw [if_neg (by decide), if_neg (by rw [hs]; decide), if_pos ⟨hs, rfl⟩, hk, Option.map_some]
    rw [he, hedit, r, deletedNotice, hid]

theorem rptEvent_acknowledge (henv : env.Succeeds) (hkey : InKeyRange (buf 1)) :
    w.aflyNxpRptEvent env name eventNxpAddDelPassRet buf = some (w.acknowledge name buf) := by
  obtain ⟨type, htype, ht⟩ := passIdType_of_inKeyRange hkey
  cases hname : w.productSubSearchByName name with
  | none =>
    unfold aflyNxpRptEvent acknowledge ackTarget
    rw [hname]
    rfl
  | some i =>
    rw [rptEvent_keyAck hname htype ht, keyAck_eq (henv.save 0)]
    unfold acknowledge ackTarget
    rw [hname, htype]
    dsimp only [Option.bind_eq_bind, Option.bind_some]
    cases he : ackEdit (w.subdevs i) type (buf 0) (buf 1) (buf 2) with
    | none => rfl
    | some e =>
      have htrigger : env.trigger ≠ -520 := by
        have := henv.trigger
        omega
      dsimp only [Option.elim, Option.bind_some]
      rw [triggerEvent, if_neg htrigger]
      simp only [productSubSave, commit, setSdk, setDev, if_true, Function.update_self]
      rfl

theorem commit_self : (w.commit i type e).subdevs i =
    (w.subdevs i).setBankKey type e.slot e.key := Function.update_self ..

theorem commit_of_ne {k : Slot} (h : k ≠ i) : (w.commit i type e).subdevs k = w.subdevs k :=
  Function.update_of_ne h ..

theorem commit_sameHandle (k : Slot) :
    SameHandle (w.subdevs k) ((w.commit i type e).subdevs k) := by
  by_cases hk : k = i
  · subst hk
    rw [commit_self]
    exact ⟨⟨rfl, rfl, rfl, rfl⟩, rfl, rfl⟩
  · rw [commit_of_ne hk]
    exact .refl _

theorem commit_search : (w.commit i type e).productSubSearchByName name =
    w.productSubSearchByName name :=
  productSubSearchByName_of_sameDevice fun k => (commit_sameHandle k).toSameDevice

theorem ackTarget_commit (h : w.ackTarget name buf = some (i, type, e))
    (hne : name ≠ name' ∨ buf 1 ≠ buf' 1) :
    (w.commit i type e).ackTarget name' buf' = w.ackTarget name' buf' := by
  obtain ⟨hi, -, he⟩ := ackTarget_eq_some_iff.mp h
  unfold ackTarget
  rw [commit_search]
  cases hi' : w.productSubSearchByName name' with
  | none => simp only [Option.bind_eq_bind, Option.bind_none]
  | some k =>
    have hedit (t : ℤ) : ackEdit ((w.commit i type e).subdevs k) t (buf' 0) (buf' 1) (buf' 2) =
        ackEdit (w.subdevs k) t (buf' 0) (buf' 1) (buf' 2) := by
      by_cases hki : k = i
      · subst hki
        have hnames : name = name' := (name_of_search hi).symm.trans (name_of_search hi')
        have hid := hne.resolve_left (not_not.mpr hnames)
        rw [commit_self]
        exact (sameNamed_setBankKey he hid).ackEdit
      · rw [commit_of_ne hki]
    dsimp only [Option.bind_eq_bind, Option.bind_some]
    simp only [hedit]

theorem commit_calls : (w.commit i type e).sdk.calls = w.sdk.calls ++
    [(.trigger (w.subdevs i).devid e.notice, w.sdk.live (w.subdevs i).devid)] := rfl

theorem commit_commit_calls : ((w.commit i type e).commit i' type' e').sdk.calls = w.sdk.calls ++
    [(.trigger (w.subdevs i).devid e.notice, w.sdk.live (w.subdevs i).devid),
      (.trigger (w.subdevs i').devid e'.notice, w.sdk.live (w.subdevs i').devid)] := by
  rw [commit_calls, commit_calls, (commit_sameHandle i').devid, List.append_assoc]
  rfl

theorem commit_comm (h : i = i' → productSubConvetType2idx type = productSubConvetType2idx type' →
    e.slot ≠ e'.slot) : SameButOrder ((w.commit i type e).commit i' type' e')
      ((w.commit i' type' e').commit i type e) := by
  have hcalls : ((w.commit i type e).commit i' type' e').sdk.calls.Perm
      ((w.commit i' type' e').commit i type e).sdk.calls := by
    rw [commit_commit_calls, commit_commit_calls]
    exact (List.Perm.swap ..).append_left _
  by_cases hi : i = i'
  · subst hi
    have hkeys : ((w.subdevs i).setBankKey type e.slot e.key).setBankKey type' e'.slot e'.key =
        ((w.subdevs i).setBankKey type' e'.slot e'.key).setBankKey type e.slot e.key :=
      setBankKey_comm (h rfl)
    refine ⟨?_, ?_, hcalls⟩
    · change Function.update (Function.update _ i _) i _ =
        Function.update (Function.update _ i _) i _
      rw [Function.update_idem, Function.update_idem, commit_self, commit_self, hkeys]
    · change (w.db.write i _).write i _ = (w.db.write i _).write i _
      rw [DbFile.write_idem, DbFile.write_idem, commit_self, commit_self, hkeys]
  · refine ⟨?_, ?_, hcalls⟩
    · change Function.update (Function.update _ i' _) i _ =
        Function.update (Function.update _ i _) i' _
      rw [commit_of_ne hi, commit_of_ne (Ne.symm hi), Function.update_comm hi]
    · change (w.db.write i' _).write i _ = (w.db.write i _).write i' _
      rw [commit_of_ne hi, commit_of_ne (Ne.symm hi), DbFile.write_comm hi]

theorem acknowledge_comm (hne : name ≠ name' ∨ buf 1 ≠ buf' 1) :
    SameButOrder ((w.acknowledge name buf).acknowledge name' buf')
      ((w.acknowledge name' buf').acknowledge name buf) := by
  have hne' : name' ≠ name ∨ buf' 1 ≠ buf 1 := hne.imp Ne.symm Ne.symm
  cases ht : w.ackTarget name buf with
  | none =>
    rw [acknowledge_of_none ht]
    cases ht' : w.ackTarget name' buf' with
    | none =>
      rw [acknowledge_of_none ht', acknowledge_of_none ht]
      exact ⟨rfl, rfl, .refl _⟩
    | some r' =>
      obtain ⟨i', type', e'⟩ := r'
      have ht₂ := (ackTarget_commit ht' hne').trans ht
      rw [acknowledge_of_some ht', acknowledge_of_none ht₂]
      exact ⟨rfl, rfl, .refl _⟩
  | some r =>
    obtain ⟨i, type, e⟩ := r
    rw [acknowledge_of_some ht]
    cases ht' : w.ackTarget name' buf' with
    | none =>
      have ht₂ := (ackTarget_commit ht hne).trans ht'
      rw [acknowledge_of_none ht', acknowledge_of_some ht, acknowledge_of_none ht₂]
      exact ⟨rfl, rfl, .refl _⟩
    | some r' =>
      obtain ⟨i', type', e'⟩ := r'
      have ht₂ := (ackTarget_commit ht hne).trans ht'
      have ht₃ := (ackTarget_commit ht' hne').trans ht
      rw [acknowledge_of_some ht', acknowledge_of_some ht₂, acknowledge_of_some ht₃]
      apply commit_comm
      intro hi hadx hslot
      -- one slot has one id
      subst hi
      obtain ⟨hs, -, he⟩ := ackTarget_eq_some_iff.mp ht
      obtain ⟨hs', -, he'⟩ := ackTarget_eq_some_iff.mp ht'
      have hnames : name = name' := (name_of_search hs).symm.trans (name_of_search hs')
      have hid := (ackEdit_names he).1.2
      have hid' := (ackEdit_names he').1.2
      rw [SubDev.bank, ← hadx, ← hslot] at hid'
      exact (hne.resolve_left (not_not.mpr hnames)) (hid.symm.trans hid')

end Acknowledge

end World

/-- Any two acknowledgements of keys, for different devices or with different ids, have the same
effect in either order, and trigger the same notices. -/
theorem acknowledgements_commute (w : World) {name name' : CStr} {buf buf' : ℕ → ℤ}
    (hkey : InKeyRange (buf 1)) (hkey' : InKeyRange (buf' 1))
    (hne : name ≠ name' ∨ buf 1 ≠ buf' 1) {env₁ env₂ env₃ env₄ : Env} (h₁ : env₁.Succeeds)
    (h₂ : env₂.Succeeds) (h₃ : env₃.Succeeds) (h₄ : env₄.Succeeds) :
    ∃ v v', run step w [(env₁, .rptEvent name eventNxpAddDelPassRet buf),
        (env₂, .rptEvent name' eventNxpAddDelPassRet buf')] = some v ∧
      run step w [(env₃, .rptEvent name' eventNxpAddDelPassRet buf'),
        (env₄, .rptEvent name eventNxpAddDelPassRet buf)] = some v' ∧ SameButOrder v v' := by
  refine ⟨(w.acknowledge name buf).acknowledge name' buf',
    (w.acknowledge name' buf').acknowledge name buf, ?_, ?_, acknowledge_comm hne⟩
  · simp only [run, World.step, rptEvent_acknowledge h₁ hkey, rptEvent_acknowledge h₂ hkey',
      Option.bind_some]
  · simp only [run, World.step, rptEvent_acknowledge h₃ hkey', rptEvent_acknowledge h₄ hkey,
      Option.bind_some]

theorem succeeds_quiet : Env.quiet.Succeeds := ⟨by decide, fun _ => rfl⟩

/-- Two passwords of a lock are confirmed in either order. -/
theorem acknowledgements_commute_two : ∃ w v v', run step (single firstDevice)
      [addKeyOp "123456", addKeyOp "654321"] = some w ∧
    run step w [ackOp 1 2123456 0, ackOp 1 2654321 0] = some v ∧
    run step w [ackOp 1 2654321 0, ackOp 1 2123456 0] = some v' ∧ SameButOrder v v' := by
  obtain ⟨w, hw, -⟩ : ∃ w, run step (single firstDevice)
      [addKeyOp "123456", addKeyOp "654321"] = some w ∧ w.sent.length = 2 :=
    Option.map_eq_some_iff.mp (by decide +kernel)
  have hkey : InKeyRange (ackBuf 1 2123456 0 1) := by decide
  have hkey' : InKeyRange (ackBuf 1 2654321 0 1) := by decide
  obtain ⟨v, v', hv, hv', hsame⟩ := acknowledgements_commute w hkey hkey'
    (Or.inr (by decide) : newLock.name ≠ newLock.name ∨ _) succeeds_quiet succeeds_quiet
    succeeds_quiet succeeds_quiet
  exact ⟨w, v, v', hw, hv, hv', hsame⟩

end Afly
