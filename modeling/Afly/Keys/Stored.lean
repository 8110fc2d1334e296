import Afly.Tasks.Relock

/-! # Keys in memory and in the file

A restart takes the key tables back from the db file, which holds what some
saves wrote. A property of key slots that every edit of a key table respects
holds in memory and in the file along all runs, restarts included, as long as no
registration runs into a key table and no torn file is loaded that breaks it.
-/

namespace Afly

open World

/-- A property of key slots that every edit of a key table respects. -/
structure SlotRule (Q : LockKey → Prop) : Prop where
  zero : Q .zero
  fill : ∀ (old : LockKey) (time type limit : ℤ) (buf : CStr), Q (fillKey old time type limit buf)
  complete : ∀ {key : LockKey} {type : ℤ}, passIdType key.id = some type → Q key →
    Q { key with keyState := keyStateAdded }

/-- Every key slot of the record has the property. -/
def SubDev.AllKeys (Q : LockKey → Prop) (sd : SubDev) : Prop := ∀ adx j, Q (sd.lock.keys adx j)

/-- Every key slot in memory and in the file has the property. -/
structure World.AllKeys (Q : LockKey → Prop) (w : World) : Prop where
  subdevs : ∀ i, (w.subdevs i).AllKeys Q
  db : ∀ t, w.db = .whole t → ∀ i, (t i).AllKeys Q

/-- The registration ends before the key table, and the file of a restart is whole or its bytes
still have the property. -/
def World.KeepsKeys (Q : LockKey → Prop) (w : World) : Env × LifeEvent → Prop
  | (_, .handle (.nxpReg r)) => r.Bounded
  | (env, .restart) => w.db = .broken → env.opens = true → ∀ i, (env.brokenRead.1 i).AllKeys Q
  | _ => True

section Lenses

variable {Q : LockKey → Prop} {w w' : World} {i : Slot} {sd sd' : SubDev} {r : SaveResult}

theorem SubDev.AllKeys.congr (h : sd.AllKeys Q) (hk : sd'.lock.keys = sd.lock.keys) :
    sd'.AllKeys Q := by
  unfold SubDev.AllKeys
  rw [hk]
  exact h

theorem SubDev.AllKeys.setBankKey {type : ℤ} {j : Fin 128} {key : LockKey} (h : sd.AllKeys Q)
    (hkey : Q key) : (sd.setBankKey type j key).AllKeys Q := by
  intro adx k
  by_cases hne : (sd.setBankKey type j key).lock.keys adx k = sd.lock.keys adx k
  · rw [hne]
    exact h adx k
  · obtain ⟨rfl, rfl⟩ := eq_of_setBankKey_ne hne
    rw [SubDev.setBankKey, setKey_keys, Function.update_self, Function.update_self]
    exact hkey

theorem World.AllKeys.withTable {t : Slot → SubDev} (h : w.AllKeys Q)
    (ht : ∀ i, (t i).AllKeys Q) : { w with subdevs := t }.AllKeys Q := ⟨ht, h.db⟩

theorem World.AllKeys.congr (h : w.AllKeys Q)
    (hk : ∀ i, (w'.subdevs i).lock.keys = (w.subdevs i).lock.keys) (hdb : w'.db = w.db) :
    w'.AllKeys Q where
  subdevs i := (h.subdevs i).congr (hk i)
  db t ht := h.db t (hdb.symm.trans ht)

theorem World.AllKeys.setDev (h : w.AllKeys Q) (hsd : sd.AllKeys Q) :
    (w.setDev i sd).AllKeys Q where
  subdevs k := by
    by_cases hk : k = i
    · subst hk
      rw [setDev_subdevs, Function.update_self]
      exact hsd
    · rw [setDev_subdevs, Function.update_of_ne hk]
      exact h.subdevs k
  db := h.db

theorem World.AllKeys.setDev_keys (h : w.AllKeys Q)
    (hk : sd.lock.keys = (w.subdevs i).lock.keys) : (w.setDev i sd).AllKeys Q :=
  h.setDev ((h.subdevs i).congr hk)

theorem World.AllKeys.setSdk (h : w.AllKeys Q) (sdk : Sdk) : (w.setSdk sdk).AllKeys Q :=
  ⟨h.subdevs, h.db⟩

theorem World.AllKeys.send (h : w.AllKeys Q) (cmd : NxpCmd) : (w.send cmd).AllKeys Q :=
  ⟨h.subdevs, h.db⟩

theorem World.AllKeys.tasksOnly (h : w.AllKeys Q) (ht : TasksOnly w w') : w'.AllKeys Q :=
  h.congr (fun i => (ht.sameKeys i).keys) ht.db

theorem World.AllKeys.save (h : w.AllKeys Q) : (w.productSubSave i r).AllKeys Q := by
  refine ⟨fun k => by rw [productSubSave_subdevs]; exact h.subdevs k, ?_⟩
  unfold productSubSave
  split
  · intro t ht k
    cases hdb : w.db with
    | missing => simp [hdb, DbFile.write] at ht
    | broken => simp [hdb, DbFile.write] at ht
    | whole t₀ =>
      obtain rfl : Function.update t₀ i (w.subdevs i) = t := by
        simpa [hdb, DbFile.write] using ht
      by_cases hk : k = i
      · subst hk
        rw [Function.update_self]
        exact h.subdevs k
      · rw [Function.update_of_ne hk]
        exact h.db t₀ hdb k
  · exact h.db

theorem World.AllKeys.saveAll (h : w.AllKeys Q) : (w.productSubSaveAll r).AllKeys Q := by
  refine ⟨fun k => by rw [productSubSaveAll_subdevs]; exact h.subdevs k, ?_⟩
  unfold productSubSaveAll
  split_ifs
  · intro t ht
    cases ht
    exact h.subdevs
  · exact h.db
  · intro t ht
    cases ht

end Lenses

section Handlers

variable {Q : LockKey → Prop} {env : Env} {w w' : World} {i : Slot} {name : CStr}
  {r : SaveResult} {input : CStr} {ret : ℤ}

theorem allKeys_zero (hQ : SlotRule Q) : SubDev.zero.AllKeys Q := fun _ _ => hQ.zero

theorem World.AllKeys.add {key : CStr} {secret : Option CStr} (hQ : SlotRule Q) (h : w.AllKeys Q)
    (ha : w.productSubAdd r name key secret = some (w', ret)) : w'.AllKeys Q := by
  rcases productSubAdd_cases ha with ⟨j, sd, -, hsd, rfl⟩ | ⟨-, -, rfl⟩ | ⟨j, sd, -, -, hsd, rfl⟩
  · apply h.setDev_keys
    unfold SubDev.assign at hsd
    split at hsd
    · cases hsd
      rfl
    · cases hsd
  · exact h
  · apply World.AllKeys.save
    apply h.setDev
    intro adx k
    rw [(SubDev.occupy_eq hsd).2.2.2.2.1]
    exact hQ.zero

theorem World.AllKeys.del (hQ : SlotRule Q) (h : w.AllKeys Q) (name : CStr) :
    (w.productSubDel r name).1.AllKeys Q := by
  unfold productSubDel
  split
  · exact h
  · exact (h.setDev (allKeys_zero hQ)).save

theorem World.AllKeys.clr (hQ : SlotRule Q) (h : w.AllKeys Q) :
    (w.productSubClr r).1.AllKeys Q := by
  exact (h.withTable fun _ => allKeys_zero hQ).saveAll

theorem allKeys_addSubdev {k : ℕ} {jv : Json} {flag : Bool} (hQ : SlotRule Q)
    (ha : addSubdev env k w jv = some (w', flag)) (h : w.AllKeys Q) :
    w'.AllKeys Q := by
  unfold addSubdev at ha
  split at ha
  · cases ha
    exact h.send _
  · split at ha
    · cases ha
      exact h
    · obtain ⟨⟨w₁, ret⟩, h₁, he⟩ := Option.map_eq_some_iff.mp ha
      cases he
      exact h.add hQ h₁
  · cases ha
    exact h

theorem allKeys_delSubdev {k : ℕ} {jv : Json} {flag : Bool} (hQ : SlotRule Q)
    (hd : delSubdev env k w jv = some (w', flag)) (h : w.AllKeys Q) :
    w'.AllKeys Q := by
  unfold delSubdev at hd
  split at hd
  · cases hd
    exact h.send _
  · split at hd
    · cases hd
      exact h
    · cases hd
      exact h.del hQ _
  · cases hd
    exact h

theorem World.AllKeys.gatewayAddSubdev (hQ : SlotRule Q) (h : w.AllKeys Q)
    (ha : w.gatewayAddSubdev env input = some (w', ret)) : w'.AllKeys Q := by
  unfold World.gatewayAddSubdev at ha
  split at ha
  · cases ha
    exact h
  · obtain ⟨⟨w₁, flag⟩, h₁, he⟩ := Option.map_eq_some_iff.mp ha
    cases he
    have hall : w₁.AllKeys Q :=
      eachSubdev_induct (R := fun w w' => w.AllKeys Q → w'.AllKeys Q) (fun _ h => h)
        (fun h h' => h' ∘ h) (allKeys_addSubdev hQ) h₁ h
    split
    · exact (hall.send _).setSdk _
    · exact hall

theorem World.AllKeys.gatewayDelSubdev (hQ : SlotRule Q) (h : w.AllKeys Q)
    (hd : w.gatewayDelSubdev env input = some (w', ret)) : w'.AllKeys Q := by
  unfold World.gatewayDelSubdev at hd
  split at hd
  · cases hd
    exact h
  · obtain ⟨⟨w₁, flag⟩, h₁, he⟩ := Option.map_eq_some_iff.mp hd
    cases he
    have hall : w₁.AllKeys Q :=
      eachSubdev_induct (R := fun w w' => w.AllKeys Q → w'.AllKeys Q) (fun _ h => h)
        (fun h h' => h' ∘ h) (allKeys_delSubdev hQ) h₁ h
    split
    · exact hall.setSdk _
    · exact hall

theorem World.AllKeys.gatewayClrSubdev (hQ : SlotRule Q) (h : w.AllKeys Q) :
    (w.gatewayClrSubdev env).1.AllKeys Q := by
  have hclr : (w.productSubClr (env.save 0)).1.AllKeys Q := h.clr hQ
  unfold World.gatewayClrSubdev
  dsimp only
  split
  · exact hclr
  · exact hclr.setSdk _

theorem World.AllKeys.subdevDeleted (hQ : SlotRule Q) (h : w.AllKeys Q)
    (productKey deviceName : Option CStr) :
    (w.eventSubdevDeleted env productKey deviceName).AllKeys Q := by
  unfold eventSubdevDeleted
  split
  · split
    · exact h
    · exact ((h.send _).setSdk _).del hQ _
  · exact h

theorem World.AllKeys.xdel (hQ : SlotRule Q) (h : w.AllKeys Q) (mac : CStr) :
    (w.doCmdXdel env mac).AllKeys Q := by
  unfold doCmdXdel
  split
  · exact h
  · exact (h.send _).del hQ _

theorem World.AllKeys.unreg (hQ : SlotRule Q) (h : w.AllKeys Q) (name : CStr) :
    (w.aflyNxpUnreg env name).AllKeys Q := by
  unfold aflyNxpUnreg
  split
  · exact h
  · dsimp only
    split_ifs
    · exact h
    · exact h.setSdk _
    · exact h.setSdk _
    · exact (h.setSdk _).del hQ _

end Handlers

section Reports

variable {Q : LockKey → Prop} {env : Env} {w w' : World} {i : Slot} {name : CStr}

theorem World.AllKeys.createHandle (h : w.AllKeys Q) : (w.createHandle env i).AllKeys Q := by
  unfold World.createHandle
  split
  · exact h
  · exact (h.setSdk _).setDev_keys rfl

theorem World.AllKeys.syncLogin (h : w.AllKeys Q) (online : ℤ) :
    (w.syncLogin env i online).AllKeys Q := by
  have hdb : (w.syncLogin env i online).db = w.db := by
    unfold World.syncLogin
    dsimp only
    split_ifs <;> rfl
  exact h.congr (fun k => (syncLogin_sameKeys k).keys) hdb

theorem World.AllKeys.provision (h : w.AllKeys Q) : (w.provision env i).AllKeys Q := by
  have hdb : (w.provision env i).db = w.db := by
    unfold World.provision
    exact nxpLockAddPass_db ..
  exact h.congr (fun k => (provision_sameKeys k).keys) hdb

theorem World.AllKeys.postLockState (h : w.AllKeys Q) (status : ℤ) :
    (w.postLockState i status).AllKeys Q :=
  h.congr (fun k => (postLockState_sameKeys k).keys) rfl

theorem World.AllKeys.triggerEvent (h : w.AllKeys Q) (n : Notice) :
    (w.triggerEvent env i n).AllKeys Q := by
  rw [triggerEvent_eq]
  split
  · exact (h.setSdk _).createHandle
  · exact h.setSdk _

theorem World.AllKeys.taskRun (h : w.AllKeys Q) (hr : w.aflyHandlerTaskRun env = some w') :
    w'.AllKeys Q :=
  aflyHandlerTaskRun_induct (I := fun w => w.AllKeys Q) (fun _ _ ht h => h.tasksOnly ht)
    (fun _ sdk h => h.setSdk sdk) (fun _ _ h => h.postLockState 0) hr h

theorem World.AllKeys.nxpReg {r : NxpReg} (hQ : SlotRule Q) (h : w.AllKeys Q) (hr : r.Bounded)
    (ha : w.aflyNxpReg env r = some w') : w'.AllKeys Q := by
  have hrecord {w₁ : World} {found : Option Slot} (h₁ : w.registerRecord env r = some (w₁, found)) :
      w₁.AllKeys Q := by
    unfold registerRecord at h₁
    split at h₁
    · cases h₁
      exact h
    · split at h₁
      · cases h₁
        exact h.send _
      · obtain ⟨⟨w₂, ret⟩, h₂, he⟩ := Option.map_eq_some_iff.mp h₁
        cases he
        exact h.add hQ h₂
  rcases aflyNxpReg_cases ha with ⟨found, h₁, -⟩ | ⟨w₁, j, w₂, h₁, -, h₂, rfl⟩
  · exact hrecord h₁
  have hopen : (w₁.openHandle env j).1.AllKeys Q := by
    unfold openHandle
    split_ifs
    · exact hrecord h₁
    · exact hrecord h₁
    · exact (hrecord h₁).createHandle
  apply World.AllKeys.syncLogin
  obtain ⟨sd, hsd, rfl⟩ := Option.map_eq_some_iff.mp h₂
  have hstore := (hopen.setDev_keys (SubDev.report_keys hr hsd)).save (i := j) (r := env.save 1)
  dsimp only
  split
  · exact hstore.provision
  · exact hstore

theorem World.AllKeys.uptOnline (h : w.AllKeys Q) (s : NxpStatus) :
    (w.aflyNxpUptOnline env s).AllKeys Q := by
  unfold aflyNxpUptOnline
  split
  · exact h
  · split_ifs
    · exact h
    · apply World.AllKeys.syncLogin
      apply World.AllKeys.save
      apply h.setDev_keys
      dsimp only
      split <;> rfl

theorem World.AllKeys.clearKeys (hQ : SlotRule Q) (h : w.AllKeys Q) (type : ℤ) :
    (w.productSubLockClrKey env i type).1.AllKeys Q := by
  unfold productSubLockClrKey
  dsimp only
  generalize List.finRange 128 = l
  induction l generalizing w with
  | nil => exact h
  | cons j l ih =>
    rw [List.foldl_cons]
    apply ih
    unfold clrKeyRound
    dsimp only
    split
    · exact h
    · exact (h.setDev ((h.subdevs i).setBankKey hQ.zero)).save

theorem World.AllKeys.keyAck {type op passId code : ℤ} (hQ : SlotRule Q) (h : w.AllKeys Q)
    (htype : passIdType passId = some type) :
    (w.keyAck env i type op passId code).1.AllKeys Q := by
  rcases keyAck_cases env w i type op passId code with
    ⟨he, -⟩ | ⟨_, j, -, -, -, -, hj, he⟩ | ⟨_, j, -, -, -, -, -, he⟩
  · rw [he]
    exact h
  · rw [he]
    have hid : ((w.subdevs i).bank type j).id = passId := (firstAdding_eq_some_iff.mp hj).1.2
    rw [← hid] at htype
    exact (h.setDev ((h.subdevs i).setBankKey (hQ.complete htype (h.subdevs i _ j)))).save
  · rw [he]
    exact (h.setDev ((h.subdevs i).setBankKey hQ.zero)).save

theorem World.AllKeys.lockEvent {eid : ℤ} {buf : ℕ → ℤ} {notice : Option Notice}
    (hQ : SlotRule Q) (h : w.AllKeys Q) (ho : LockOutcome env w i eid buf w' notice) :
    w'.AllKeys Q := by
  cases ho with
  | unchanged => exact h
  | opened notice hopen => exact (h.postLockState 1).tasksOnly (doorOpened_spec hopen)
  | cleared => exact h.clearKeys hQ 0
  | provisioned =>
    have hset : (w.setDev i { w.subdevs i with dynamic := 1 }).AllKeys Q := h.setDev_keys rfl
    exact hset.save
  | acked heid htype hid => exact h.keyAck hQ htype

theorem World.AllKeys.rptEvent {eid : ℤ} {buf : ℕ → ℤ} (hQ : SlotRule Q) (h : w.AllKeys Q)
    (hs : w.aflyNxpRptEvent env name eid buf = some w') : w'.AllKeys Q := by
  rcases aflyNxpRptEvent_cases hs with ⟨-, rfl⟩ | ⟨k, w₁, notice, -, he, rfl⟩
  · exact h
  have h₁ := h.lockEvent hQ (lockEvent_outcome he)
  cases notice with
  | none => exact h₁
  | some n => exact h₁.triggerEvent n

end Reports

section Requests

variable {Q : LockKey → Prop} {env : Env} {w w' : World} {i : Slot} {input : CStr} {ret : ℤ}

theorem World.AllKeys.addKey (hQ : SlotRule Q) (h : w.AllKeys Q)
    (ha : w.subdevAddKey env i input = some (w', ret)) : w'.AllKeys Q := by
  rcases subdevAddKey_cases ha with ⟨-, rfl⟩ | ⟨req, j, -, -, -, hdb, -, hsub⟩
  · exact h
  · have hset : (w.setDev i ((w.subdevs i).setBankKey 2 j
        (fillKey ((w.subdevs i).bank 2 j) (env.time 2) 2 1 req.keyStr))).AllKeys Q :=
      h.setDev ((h.subdevs i).setBankKey (hQ.fill ..))
    refine hset.congr ?_ hdb
    intro k
    rw [hsub]
    rfl

theorem World.AllKeys.clrPass (h : w.AllKeys Q) (mac : CStr) (type : ℤ) :
    (w.nxpLockClrPass mac type).AllKeys Q := by
  unfold nxpLockClrPass
  split
  · exact h
  · exact h.send _

theorem World.AllKeys.delKey (h : w.AllKeys Q)
    (hd : w.subdevDelKey env i input = some (w', ret)) : w'.AllKeys Q := by
  unfold subdevDelKey at hd
  split at hd
  · cases hd
    exact h
  · dsimp only at hd
    split at hd
    · cases hd
      exact h
    · obtain ⟨keyID, -, he⟩ := Option.map_eq_some_iff.mp hd
      split at he
      · cases he
        exact h.clrPass ..
      · split at he
        · cases he
          exact h
        · split at he
          · cases he
            exact h
          · cases he
            unfold nxpLockDelPass
            split
            · exact h
            · exact h.send _

theorem World.AllKeys.clrKey (h : w.AllKeys Q) : (w.subdevClrKey env i input).1.AllKeys Q := by
  unfold subdevClrKey
  split
  · exact h
  · split
    · exact h
    · dsimp only
      exact h.clrPass ..

theorem World.AllKeys.getDynamic (h : w.AllKeys Q)
    (hd : w.subdevGetDynamic env i = some (w', ret)) : w'.AllKeys Q := by
  unfold subdevGetDynamic at hd
  split_ifs at hd
  · cases hd
    exact h.provision
  · cases hd
    exact h

theorem World.AllKeys.oneKeyOpen (h : w.AllKeys Q) :
    (w.subdevOneKeyOpen env i).1.AllKeys Q := by
  unfold subdevOneKeyOpen nxpLockOneKeyOpen nxpLockAddPass
  dsimp only
  split
  · exact h
  · exact h.send _

end Requests

section Steps

variable {Q : LockKey → Prop} {env : Env} {w w' : World} {op : Op} {e : Env × LifeEvent}

theorem World.AllKeys.of_step (hQ : SlotRule Q) (h : w.AllKeys Q)
    (hop : (LifeEvent.handle op).OnLocks) (hreg : ∀ r, op = .nxpReg r → r.Bounded)
    (hs : w.step (env, op) = some w') : w'.AllKeys Q := by
  cases op with
  | schedueAdd | schedueDel | loadAll => exact hop.elim
  | taskRun => exact h.taskRun hs
  | subAdd =>
    obtain ⟨⟨w₁, ret⟩, h₁, rfl⟩ := Option.map_eq_some_iff.mp hs
    exact h.add hQ h₁
  | subDel => cases hs; exact h.del hQ _
  | subClr => cases hs; exact h.clr hQ
  | addSubDev =>
    obtain ⟨⟨w₁, ret⟩, h₁, rfl⟩ := Option.map_eq_some_iff.mp hs
    exact h.gatewayAddSubdev hQ h₁
  | delSubDev =>
    obtain ⟨⟨w₁, ret⟩, h₁, rfl⟩ := Option.map_eq_some_iff.mp hs
    exact h.gatewayDelSubdev hQ h₁
  | clrSubDev => cases hs; exact h.gatewayClrSubdev hQ
  | subdevDeleted => cases hs; exact h.subdevDeleted hQ ..
  | xdel => cases hs; exact h.xdel hQ _
  | addKey =>
    rcases request_cases hs with ⟨-, rfl⟩ | ⟨-, hs⟩
    · exact h
    · obtain ⟨⟨w₁, ret⟩, h₁, rfl⟩ := Option.map_eq_some_iff.mp hs
      exact h.addKey hQ h₁
  | delKey =>
    rcases request_cases hs with ⟨-, rfl⟩ | ⟨-, hs⟩
    · exact h
    · obtain ⟨⟨w₁, ret⟩, h₁, rfl⟩ := Option.map_eq_some_iff.mp hs
      exact h.delKey h₁
  | clrKey =>
    rcases request_cases hs with ⟨-, rfl⟩ | ⟨-, hs⟩
    · exact h
    · cases hs; exact h.clrKey
  | getDynamic =>
    rcases request_cases hs with ⟨-, rfl⟩ | ⟨-, hs⟩
    · exact h
    · obtain ⟨⟨w₁, ret⟩, h₁, rfl⟩ := Option.map_eq_some_iff.mp hs
      exact h.getDynamic h₁
  | oneKeyOpen =>
    rcases request_cases hs with ⟨-, rfl⟩ | ⟨-, hs⟩
    · exact h
    · cases hs; exact h.oneKeyOpen
  | nxpReg r => exact h.nxpReg hQ (hreg r rfl) hs
  | nxpUnreg => cases hs; exact h.unreg hQ _
  | uptOnline => cases hs; exact h.uptOnline _
  | rptEvent => exact h.rptEvent hQ hs

theorem World.AllKeys.clrIdAfterLoad (h : w.AllKeys Q) :
    w.productSubClrIdAfterLoad.AllKeys Q := by
  refine h.congr ?_ rfl
  intro i
  unfold productSubClrIdAfterLoad
  dsimp only
  split <;> rfl

theorem World.AllKeys.loadAll (hQ : SlotRule Q) (h : w.AllKeys Q)
    (hbroken : w.db = .broken → env.opens = true → ∀ i, (env.brokenRead.1 i).AllKeys Q) :
    (w.productSubLoadAll env).1.AllKeys Q := by
  unfold productSubLoadAll
  split
  · exact (h.withTable fun _ => allKeys_zero hQ).saveAll
  · rename_i hdb
    split
    · rename_i hopens
      exact (h.withTable (hbroken hdb hopens)).clrIdAfterLoad
    · exact h
  · rename_i t hdb
    split
    · exact (h.withTable (h.db t hdb)).clrIdAfterLoad
    · exact h

theorem allKeys_initialSubdevs (hQ : SlotRule Q) (i : Slot) : (initialSubdevs i).AllKeys Q := by
  unfold initialSubdevs
  split_ifs <;> exact fun _ _ => hQ.zero

theorem World.AllKeys.restart (hQ : SlotRule Q) (h : w.AllKeys Q)
    (hbroken : w.db = .broken → env.opens = true → ∀ i, (env.brokenRead.1 i).AllKeys Q)
    (hs : w.restart env = some w') : w'.AllKeys Q := by
  obtain ⟨w₁, h₁, rfl⟩ := Option.map_eq_some_iff.mp hs
  have honly := tasksOnly_schedule h₁
  have hnew : w.newProcess.AllKeys Q := ⟨allKeys_initialSubdevs hQ, h.db⟩
  apply (hnew.tasksOnly honly).loadAll hQ
  rw [honly.db]
  exact hbroken

/-- Every event of a run keeps the property of the slots in memory and in the file. -/
theorem allKeys_step (hQ : SlotRule Q) (h : w.AllKeys Q) (hop : e.2.OnLocks)
    (hok : w.KeepsKeys Q e) (hs : w.lifeStep e = some w') : w'.AllKeys Q := by
  obtain ⟨env, event⟩ := e
  cases event with
  | restart => exact h.restart hQ hok hs
  | handle op =>
    refine h.of_step hQ hop ?_ hs
    rintro r rfl
    exact hok

end Steps

end Afly
