import Afly.Gateway.Events
import Afly.Gateway.Step

/-! # What a step does to a key table

Every step of the gateway acts on the key table of a record in one of a few
ways, each with its cause: a request fills a slot, an acknowledgement completes
or empties one, a clear empties a bank, and a removed or a newly occupied record
has an empty table. All invariants of the key table go by cases on this list.
-/

namespace Afly

open World

theorem convetType2idx_eq_two_iff {passId type : ℤ} (h : passIdType passId = some type) :
    productSubConvetType2idx type = productSubConvetType2idx 2 ↔ type = 2 := by
  unfold passIdType at h
  split_ifs at h <;> (cases h; decide)

def Op.Removes : Op → Prop
  | .subDel _ | .subClr | .delSubDev _ | .clrSubDev | .subdevDeleted _ _ | .xdel _
  | .nxpUnreg _ => True
  | _ => False

/-- What a step does to the key table of the record `i`, and why. -/
inductive KeyEdit (env : Env) (w : World) (op : Op) (i : Slot) : (Fin 4 → KeyBank) → Prop where
  | same : KeyEdit env w op i (w.subdevs i).lock.keys
  | fill {input : CStr} {req : AddKeyReq} {j : Fin 128} (hop : op = .addKey i input)
      (huse : (w.subdevs i).use ≠ 0) (hreq : addKeyRequest env input = some (.ok req))
      (hj : firstNone (w.subdevs i) 2 = some j) :
      KeyEdit env w op i ((w.subdevs i).setBankKey 2 j
        (fillKey ((w.subdevs i).bank 2 j) (env.time 2) 2 1 req.keyStr)).lock.keys
  | complete {name : CStr} {buf : ℕ → ℤ} {type : ℤ} {j : Fin 128}
      (hop : op = .rptEvent name eventNxpAddDelPassRet buf)
      (hname : w.productSubSearchByName name = some i) (htype : passIdType (buf 1) = some type)
      (hack : buf 0 = 1 ∧ buf 2 = 0) (hj : firstAdding (w.subdevs i) type (buf 1) = some j) :
      KeyEdit env w op i ((w.subdevs i).setBankKey type j
        { (w.subdevs i).bank type j with keyState := keyStateAdded }).lock.keys
  | remove {name : CStr} {buf : ℕ → ℤ} {type : ℤ} {j : Fin 128}
      (hop : op = .rptEvent name eventNxpAddDelPassRet buf)
      (hname : w.productSubSearchByName name = some i) (htype : passIdType (buf 1) = some type)
      (hack : buf 0 = 0 ∧ buf 2 = 0) (hj : firstAdded (w.subdevs i) type (buf 1) = some j) :
      KeyEdit env w op i ((w.subdevs i).setBankKey type j .zero).lock.keys
  | clear {name : CStr} {buf : ℕ → ℤ} (hop : op = .rptEvent name eventNxpAddDelPassRet buf)
      (hname : w.productSubSearchByName name = some i) (hid : buf 1 = 0) :
      KeyEdit env w op i (eraseBank (w.subdevs i).lock.keys 0)
  | erase (hop : op.Removes) : KeyEdit env w op i Lock.zero.keys
  | occupy (hfree : (w.subdevs i).use = 0) : KeyEdit env w op i Lock.zero.keys

/-- A record keeps its use flag, is occupied, or is erased. -/
def KeepsUse (sd sd' : SubDev) : Prop := sd'.use = sd.use ∨ sd'.use = 1 ∨ sd' = .zero

/-- What a step does to the key table and the use flag of the record `i`. -/
structure RecordEdit (env : Env) (w : World) (op : Op) (i : Slot) (sd : SubDev) : Prop where
  keys : KeyEdit env w op i sd.lock.keys
  use : KeepsUse (w.subdevs i) sd

structure SameKeys (sd sd' : SubDev) : Prop where
  use : sd'.use = sd.use
  keys : sd'.lock.keys = sd.lock.keys

theorem SameKeys.refl (sd : SubDev) : SameKeys sd sd := ⟨rfl, rfl⟩

theorem SameKeys.trans {a b c : SubDev} (h : SameKeys a b) (h' : SameKeys b c) : SameKeys a c :=
  ⟨h'.use.trans h.use, h'.keys.trans h.keys⟩

section Frames

variable {env : Env} {w w' : World} {op : Op} {i : Slot}

theorem KeyEdit.of_keys {keys : Fin 4 → KeyBank} (h : keys = (w.subdevs i).lock.keys) :
    KeyEdit env w op i keys := h ▸ .same

theorem RecordEdit.of_update {j : Slot} {sd : SubDev} (h : RecordEdit env w op j sd) (i : Slot) :
    RecordEdit env w op i (Function.update w.subdevs j sd i) := by
  by_cases hij : i = j
  · subst hij
    rwa [Function.update_self]
  · rw [Function.update_of_ne hij]
    exact ⟨.same, Or.inl rfl⟩

theorem RecordEdit.of_same {sd : SubDev} (h : SameKeys (w.subdevs i) sd) :
    RecordEdit env w op i sd := ⟨.of_keys h.keys, Or.inl h.use⟩

theorem Occupies.use {sd sd' : SubDev} (h : Occupies sd sd') :
    sd'.use = sd.use ∨ sd'.use = 1 := by
  cases h with
  | same => exact Or.inl rfl
  | assign key secret hsd => exact Or.inl (by rw [hsd])
  | fresh _ huse => exact Or.inr huse

theorem RecordEdit.of_occupies {sd sd' : SubDev} (h : Occupies (w.subdevs i) sd)
    (hs : SameKeys sd sd') : RecordEdit env w op i sd' := by
  refine ⟨?_, (h.use.imp hs.use.trans hs.use.trans).imp_right Or.inl⟩
  rw [hs.keys]
  cases h with
  | same => exact .same
  | assign key secret hsd => exact .of_keys (by rw [hsd])
  | fresh hfree _ _ _ hlock _ => rw [hlock]; exact .occupy hfree

theorem RecordEdit.of_erases {sd : SubDev} (hop : op.Removes) (h : Erases (w.subdevs i) sd) :
    RecordEdit env w op i sd := by
  rcases h with rfl | rfl
  · exact .of_same (.refl _)
  · exact ⟨.erase hop, Or.inr (Or.inr rfl)⟩

theorem World.TasksOnly.sameKeys (h : TasksOnly w w') (i : Slot) :
    SameKeys (w.subdevs i) (w'.subdevs i) := by
  rw [h.subdevs i]
  exact ⟨rfl, rfl⟩

theorem syncLogin_sameKeys {j : Slot} {online : ℤ} (i : Slot) :
    SameKeys (w.subdevs i) ((w.syncLogin env j online).subdevs i) := by
  rw [syncLogin_subdevs]
  exact rel_update .refl ⟨rfl, rfl⟩ i

theorem triggerEvent_sameKeys {j : Slot} {notice : Notice} (i : Slot) :
    SameKeys (w.subdevs i) ((w.triggerEvent env j notice).subdevs i) := by
  rw [triggerEvent_subdevs]
  split
  · exact rel_update .refl ⟨rfl, rfl⟩ i
  · exact .refl _

theorem postLockState_sameKeys {j : Slot} {status : ℤ} (i : Slot) :
    SameKeys (w.subdevs i) ((w.postLockState j status).subdevs i) := by
  rw [postLockState_subdevs]
  exact rel_update .refl ⟨rfl, rfl⟩ i

theorem doorOpened_sameKeys {j : Slot} (h : w.doorOpened env j = some w') (i : Slot) :
    SameKeys (w.subdevs i) (w'.subdevs i) :=
  (postLockState_sameKeys i).trans ((doorOpened_spec h).sameKeys i)

theorem aflyHandlerTaskRun_sameKeys (h : w.aflyHandlerTaskRun env = some w') (i : Slot) :
    SameKeys (w.subdevs i) (w'.subdevs i) :=
  aflyHandlerTaskRun_induct (I := fun w' => SameKeys (w.subdevs i) (w'.subdevs i))
    (fun _ _ ht hk => hk.trans (ht.sameKeys i)) (fun _ _ hk => hk)
    (fun _ _ hk => hk.trans (postLockState_sameKeys i)) h (.refl _)

theorem subdevDelKey_subdevs {j : Slot} {input : CStr} {ret : ℤ}
    (h : w.subdevDelKey env j input = some (w', ret)) : w'.subdevs = w.subdevs := by
  unfold subdevDelKey at h
  split at h
  · cases h; rfl
  · dsimp only at h
    split at h
    · cases h; rfl
    · obtain ⟨keyID, -, he⟩ := Option.map_eq_some_iff.mp h
      split_ifs at he
      · cases he; simp
      · cases he; rfl
      · split at he <;> (cases he; simp)

theorem subdevClrKey_subdevs {j : Slot} {input : CStr} :
    (w.subdevClrKey env j input).1.subdevs = w.subdevs := by
  unfold subdevClrKey
  split
  · rfl
  · split <;> simp

theorem provision_sameKeys {j : Slot} (i : Slot) :
    SameKeys (w.subdevs i) ((w.provision env j).subdevs i) := by
  rw [provision_subdevs]
  exact rel_update .refl ⟨rfl, rfl⟩ i

theorem subdevGetDynamic_sameKeys {j : Slot} {ret : ℤ}
    (h : w.subdevGetDynamic env j = some (w', ret)) (i : Slot) :
    SameKeys (w.subdevs i) (w'.subdevs i) := by
  unfold subdevGetDynamic at h
  split_ifs at h
  · cases h; exact provision_sameKeys i
  · cases h; exact .refl _

theorem aflyNxpReg_sameKeys {r : NxpReg} (hr : r.Bounded) (h : w.aflyNxpReg env r = some w') :
    ∃ w₁, AddsDevices w w₁ ∧ ∀ i, SameKeys (w₁.subdevs i) (w'.subdevs i) := by
  rcases aflyNxpReg_cases h with ⟨found, h₁, -⟩ | ⟨w₁, j, w₂, h₁, hc, hs, rfl⟩
  · exact ⟨w', (registerRecord_spec h₁).1, fun _ => .refl _⟩
  · refine ⟨w₁, (registerRecord_spec h₁).1, fun i => SameKeys.trans ?_ (syncLogin_sameKeys i)⟩
    obtain ⟨sd, hsd, -, hw₂, -⟩ := storeReport_spec hs
    rw [hw₂, openHandle_subdevs hc, Function.update_idem]
    rw [openHandle_subdevs hc, Function.update_self] at hsd
    have hu := (SubDev.report_eq hsd).1.use
    have hk := SubDev.report_keys hr hsd
    refine rel_update .refl ?_ i
    split
    · exact ⟨hu, hk⟩
    · exact ⟨hu, hk⟩

theorem aflyNxpUptOnline_sameKeys {s : NxpStatus} (i : Slot) :
    SameKeys (w.subdevs i) ((w.aflyNxpUptOnline env s).subdevs i) := by
  unfold aflyNxpUptOnline
  split
  · exact .refl _
  · split_ifs
    · exact .refl _
    · refine SameKeys.trans ?_ (syncLogin_sameKeys i)
      rw [productSubSave_subdevs, storeStatus, setDev_subdevs]
      refine rel_update .refl ⟨rfl, ?_⟩ i
      dsimp only
      split <;> rfl

end Frames

section Step

variable {env : Env} {w w' : World} {op : Op} {i : Slot}

theorem World.LockOutcome.recordEdit {j : Slot} {name : CStr} {eid : ℤ} {buf : ℕ → ℤ}
    {notice : Option Notice} (hname : w.productSubSearchByName name = some j)
    (h : LockOutcome env w j eid buf w' notice) (i : Slot) :
    RecordEdit env w (.rptEvent name eid buf) i (w'.subdevs i) := by
  cases h with
  | unchanged => exact .of_same (.refl _)
  | opened notice h => exact .of_same (doorOpened_sameKeys h i)
  | cleared notice heid hid =>
    subst heid
    rw [productSubLockClrKey_subdevs]
    refine .of_update ?_ i
    exact ⟨.clear rfl hname hid, Or.inl rfl⟩
  | provisioned heid hid =>
    rw [productSubLockAddDynamicComplete, productSubSave_subdevs, setDev_subdevs]
    refine .of_update ?_ i
    exact .of_same ⟨rfl, rfl⟩
  | @acked type heid htype hid =>
    subst heid
    rcases keyAck_cases env w j type (buf 0) (buf 1) (buf 2) with
      ⟨he, -⟩ | ⟨_, k, -, -, hop, hcode, hk, he⟩ | ⟨_, k, -, -, hop, hcode, hk, he⟩
    · rw [he]; exact .of_same (.refl _)
    · rw [he, productSubSave_subdevs, setDev_subdevs]
      refine .of_update ?_ i
      exact ⟨.complete rfl hname htype ⟨hop, hcode⟩ hk, Or.inl rfl⟩
    · rw [he, productSubSave_subdevs, setDev_subdevs]
      refine .of_update ?_ i
      exact ⟨.remove rfl hname htype ⟨hop, hcode⟩ hk, Or.inl rfl⟩

/-- Every step other than a restart edits each key table in one of the listed ways, when no
registration carries a string that reaches the key table. -/
theorem step_recordEdit (hload : op ≠ .loadAll) (hreg : ∀ r, op = .nxpReg r → r.Bounded)
    (h : w.step (env, op) = some w') (i : Slot) : RecordEdit env w op i (w'.subdevs i) := by
  cases op with
  | schedueAdd => exact .of_same ((tasksOnly_schedueAdd h).sameKeys i)
  | schedueDel => exact .of_same ((tasksOnly_schedueDel h).sameKeys i)
  | taskRun => exact .of_same (aflyHandlerTaskRun_sameKeys h i)
  | subAdd =>
    obtain ⟨⟨w₁, ret⟩, h₁, rfl⟩ := Option.map_eq_some_iff.mp h
    exact .of_occupies (productSubAdd_occupies h₁ i) (.refl _)
  | subDel => cases h; exact .of_erases trivial (productSubDel_erases i)
  | subClr => cases h; exact .of_erases trivial (Or.inr (by simp))
  | loadAll => exact absurd rfl hload
  | addSubDev =>
    obtain ⟨⟨w₁, ret⟩, h₁, rfl⟩ := Option.map_eq_some_iff.mp h
    exact .of_occupies ((gatewayAddSubdev_spec h₁).1 i) (.refl _)
  | delSubDev =>
    obtain ⟨⟨w₁, ret⟩, h₁, rfl⟩ := Option.map_eq_some_iff.mp h
    exact .of_erases trivial ((gatewayDelSubdev_spec h₁).1 i)
  | clrSubDev =>
    cases h
    exact .of_erases trivial (Or.inr (by rw [(gatewayClrSubdev_spec _ _).1]))
  | subdevDeleted => cases h; exact .of_erases trivial (eventSubdevDeleted_erases i)
  | xdel => cases h; exact .of_erases trivial (doCmdXdel_subdevs i)
  | addKey j input =>
    rcases request_cases h with ⟨-, rfl⟩ | ⟨hu, h⟩
    · exact .of_same (.refl _)
    · obtain ⟨⟨w₁, ret⟩, h₁, rfl⟩ := Option.map_eq_some_iff.mp h
      rcases subdevAddKey_cases h₁ with ⟨-, rfl⟩ | ⟨req, k, hreq, -, hk, -, -, hw⟩
      · exact .of_same (.refl _)
      · dsimp only
        rw [hw]
        refine .of_update ?_ i
        exact ⟨.fill rfl hu hreq hk, Or.inl rfl⟩
  | delKey j input =>
    rcases request_cases h with ⟨-, rfl⟩ | ⟨-, h⟩
    · exact .of_same (.refl _)
    · obtain ⟨⟨w₁, ret⟩, h₁, rfl⟩ := Option.map_eq_some_iff.mp h
      dsimp only
      rw [subdevDelKey_subdevs h₁]
      exact .of_same (.refl _)
  | clrKey j input =>
    rcases request_cases h with ⟨-, rfl⟩ | ⟨-, h⟩
    · exact .of_same (.refl _)
    · cases h
      rw [subdevClrKey_subdevs]
      exact .of_same (.refl _)
  | getDynamic j =>
    rcases request_cases h with ⟨-, rfl⟩ | ⟨-, h⟩
    · exact .of_same (.refl _)
    · obtain ⟨⟨w₁, ret⟩, h₁, rfl⟩ := Option.map_eq_some_iff.mp h
      exact .of_same (subdevGetDynamic_sameKeys h₁ i)
  | oneKeyOpen j =>
    rcases request_cases h with ⟨-, rfl⟩ | ⟨-, h⟩
    · exact .of_same (.refl _)
    · cases h
      rw [subdevOneKeyOpen, nxpLockOneKeyOpen_subdevs]
      exact .of_same (.refl _)
  | nxpReg r =>
    obtain ⟨w₁, ha, hk⟩ := aflyNxpReg_sameKeys (hreg r rfl) h
    exact .of_occupies (ha.subdevs i) (hk i)
  | nxpUnreg => cases h; exact .of_erases trivial (aflyNxpUnreg_erases i)
  | uptOnline => cases h; exact .of_same (aflyNxpUptOnline_sameKeys i)
  | rptEvent name eid buf =>
    rcases aflyNxpRptEvent_cases h with ⟨-, rfl⟩ | ⟨j, w₁, notice, hname, he, rfl⟩
    · exact .of_same (.refl _)
    · have ho := (lockEvent_outcome he).recordEdit hname i
      cases notice with
      | none => exact ho
      | some n =>
        -- the trigger may give the record a new handle, and keeps the rest
        refine ⟨?_, Or.inl (aflyNxpRptEvent_sameDevice h i).use⟩
        dsimp only [Option.elim]
        rw [(triggerEvent_sameKeys i).keys]
        exact ho.keys

theorem step_keyEdit (hload : op ≠ .loadAll) (hreg : ∀ r, op = .nxpReg r → r.Bounded)
    (h : w.step (env, op) = some w') (i : Slot) :
    KeyEdit env w op i (w'.subdevs i).lock.keys :=
  (step_recordEdit hload hreg h i).keys

end Step

end Afly
