import Afly.Gateway.Events
import Afly.Gateway.Step

/-! # Dynamic passwords

The gateway asks a lock for a dynamic password again and again until a report
arrives, and each request overwrites the seed of the one before. Reports carry
no seed and may be late: the two sides agree when the report that ends the
asking comes after the lock accepted the latest request.
-/

namespace Afly

open World Reach

/-- The seed and the interval that a command asks the lock `name` to store. -/
def NxpCmd.dynamicFor (name : CStr) : NxpCmd → Option (ℤ × ℤ)
  | .addPassword mac passId passType _ _ _ seed interval =>
    if mac = name ∧ passId = 999999 ∧ passType = 1 then some (seed, interval) else none
  | _ => none

/-- The requests for a dynamic password that the lock `name` was sent. -/
def World.dynamicRequests (name : CStr) (w : World) : List (ℤ × ℤ) :=
  w.sent.filterMap (NxpCmd.dynamicFor name)

/-- The gateway and a lock: how many requests the lock answered, what it stores of the last one it
accepted, and the reports in flight, each with its `op` and `code`. -/
structure Provisioning where
  world : World
  answered : ℕ
  stored : Option (ℤ × ℤ)
  reports : List (ℤ × ℤ)

def Provisioning.queue (name : CStr) (S : Provisioning) : List (ℤ × ℤ) :=
  (S.world.dynamicRequests name).drop S.answered

inductive ProvisionEvent where
  | gateway (env : Env) (op : Op)
  | process (op code : ℤ)
  | deliver (env : Env) (k : ℕ)

/-- The gateway handles an event, the lock answers its next request, or a report arrives. -/
def Provisioning.step (name : CStr) (S : Provisioning) : ProvisionEvent → Option Provisioning
  | .gateway env op => (S.world.step (env, op)).map fun w => { S with world := w }
  | .process op code => (S.queue name).head?.map fun p =>
      { S with
        answered := S.answered + 1
        stored := if code = 0 then some p else S.stored
        reports := S.reports ++ [(op, code)] }
  | .deliver env k => S.reports[k]?.bind fun r =>
      (S.world.aflyNxpRptEvent env name eventNxpAddDelPassRet (ackBuf r.1 999999 r.2)).map fun w =>
        { S with world := w, reports := S.reports.eraseIdx k }

/-- The registrations, requests, answers and reports of a run. Another lock has another name. -/
def Provisioning.Admits (name : CStr) (i : Slot) (S : Provisioning) : ProvisionEvent → Prop
  | .gateway _ (.nxpReg _) => True
  | .gateway _ (.getDynamic k) => (S.world.subdevs k).deviceName = name → k = i
  | .gateway _ _ => False
  | .process _ _ | .deliver _ _ => True

/-- The strings of a registration that end before the state of the dynamic password. -/
structure NxpReg.Fits (r : NxpReg) : Prop where
  name : r.name.length < 128
  type : r.type.length < 132
  version : r.version.length < 100
  model : r.model.length < 68

/-- A report that ends the asking accepts, and comes when the request the lock accepted last and
all it has not answered ask for the same as the latest one. -/
def Provisioning.Settled (name : CStr) (i : Slot) (S : Provisioning) : ProvisionEvent → Prop
  | .gateway _ (.nxpReg r) => r.Fits
  | .deliver _ k => (S.world.subdevs i).dynamic = 0 → ∀ r, S.reports[k]? = some r →
      r = (1, 0) ∧ ∃ p, (S.world.dynamicRequests name).getLast? = some p ∧ S.stored = some p ∧
        ∀ q ∈ S.queue name, q = p
  | _ => True

/-- A confirmed dynamic password is the one that the lock stores. -/
def Provisioning.Agrees (i : Slot) (S : Provisioning) : Prop :=
  (S.world.subdevs i).dynamic ≠ 0 →
    S.stored = some ((S.world.subdevs i).seed, (S.world.subdevs i).interval)

/-- While the password is not confirmed the gateway has the latest request's seed; afterwards the
lock has it as well, and nothing it still has to answer asks for another. -/
structure Provisioning.Invariant (name : CStr) (i : Slot) (S : Provisioning) : Prop where
  found : S.world.productSubSearchByName name = some i
  latest : (S.world.subdevs i).dynamic = 0 → ∀ p,
    (S.world.dynamicRequests name).getLast? = some p →
      ((S.world.subdevs i).seed, (S.world.subdevs i).interval) = p
  settled : (S.world.subdevs i).dynamic ≠ 0 →
    S.stored = some ((S.world.subdevs i).seed, (S.world.subdevs i).interval) ∧
      ∀ q ∈ S.queue name, q = ((S.world.subdevs i).seed, (S.world.subdevs i).interval)
  asked : S.reports ≠ [] → S.world.dynamicRequests name ≠ []

section Requests

variable {env : Env} {w w' w'' : World} {name : CStr} {i k : Slot}

def SameDynamic (sd sd' : SubDev) : Prop :=
  sd'.dynamic = sd.dynamic ∧ sd'.seed = sd.seed ∧ sd'.interval = sd.interval

theorem SubDev.report_dynamic {sd sd' : SubDev} {r : NxpReg} (htype : r.type.length < 132)
    (hversion : r.version.length < 100) (hmodel : r.model.length < 68)
    (h : sd.report r = some sd') : SameDynamic sd sd' := by
  unfold report at h
  obtain ⟨sd₁, h₁, h⟩ := Option.bind_eq_some_iff.mp h
  obtain ⟨sd₂, h₂, h⟩ := Option.bind_eq_some_iff.mp h
  obtain ⟨sd₃, h₃, h⟩ := Option.bind_eq_some_iff.mp h
  cases h
  have hlen (room : ℕ) (s : CStr) (hs : s.length < room + 4) : (overrun room s).length ≤ 4 :=
    (length_overrun room s).trans (by omega)
  obtain ⟨d₁, s₁, i₁⟩ := spill_dynamic h₁ (hlen _ _ htype)
  obtain ⟨d₂, s₂, i₂⟩ := spill_dynamic h₂ (hlen _ _ hversion)
  obtain ⟨d₃, s₃, i₃⟩ := spill_dynamic h₃ (hlen _ _ hmodel)
  exact ⟨d₃.trans (d₂.trans d₁), s₃.trans (s₂.trans s₁), i₃.trans (i₂.trans i₁)⟩

theorem dynamicRequests_append (cmd : NxpCmd) (h : w'.sent = w.sent ++ [cmd]) :
    w'.dynamicRequests name = w.dynamicRequests name ++ (cmd.dynamicFor name).toList := by
  rw [dynamicRequests, h, List.filterMap_append, dynamicRequests]
  cases hc : cmd.dynamicFor name <;> simp [hc]

variable (name) in
theorem dynamicRequests_congr (h : w'.sent = w.sent) :
    w'.dynamicRequests name = w.dynamicRequests name := by
  rw [dynamicRequests, h, dynamicRequests]

@[simp] theorem dynamicFor_dynamicCommand (mac : CStr) : (dynamicCommand env mac).dynamicFor name =
    if mac = name then some (int32 (env.time 0), 30 * 60) else none := by
  simp [dynamicCommand, NxpCmd.dynamicFor]

/-- The gateway asks the lock for nothing, or overwrites its seed with what it asks for. -/
structure AsksFor (name : CStr) (i : Slot) (w w' : World) : Prop where
  found : w'.productSubSearchByName name = some i
  dynamic : (w'.subdevs i).dynamic = (w.subdevs i).dynamic
  requests : (((w'.subdevs i).seed = (w.subdevs i).seed ∧
      (w'.subdevs i).interval = (w.subdevs i).interval) ∧
      w'.dynamicRequests name = w.dynamicRequests name) ∨
    ((w.subdevs i).dynamic = 0 ∧ w'.dynamicRequests name = w.dynamicRequests name ++
      [((w'.subdevs i).seed, (w'.subdevs i).interval)])

/-- A state in which nothing about the lock changed. -/
structure KeepsLock (name : CStr) (i : Slot) (w w' : World) : Prop where
  found : w'.productSubSearchByName name = some i
  same : SameDynamic (w.subdevs i) (w'.subdevs i)
  requests : w'.dynamicRequests name = w.dynamicRequests name

theorem KeepsLock.asksFor (h : KeepsLock name i w w') : AsksFor name i w w' :=
  ⟨h.found, h.same.1, Or.inl ⟨h.same.2, h.requests⟩⟩

theorem KeepsLock.trans_asksFor (h : KeepsLock name i w w') (h' : AsksFor name i w' w'') :
    AsksFor name i w w'' where
  found := h'.found
  dynamic := h'.dynamic.trans h.same.1
  requests := by
    rcases h'.requests with ⟨⟨hs, hi⟩, hr⟩ | ⟨hd, hr⟩
    · exact Or.inl ⟨⟨hs.trans h.same.2.1, hi.trans h.same.2.2⟩, hr.trans h.requests⟩
    · exact Or.inr ⟨h.same.1.symm.trans hd, by rw [hr, h.requests]⟩

theorem registerRecord_keepsLock {r : NxpReg} {found : Option Slot} (hr : r.name.length < 128)
    (hname : w.productSubSearchByName name = some i)
    (h : w.registerRecord env r = some (w', found)) : KeepsLock name i w w' := by
  unfold registerRecord at h
  split at h
  · cases h; exact ⟨hname, ⟨rfl, rfl, rfl⟩, rfl⟩
  · rename_i hnone
    split at h
    · cases h
      refine ⟨hname, ⟨rfl, rfl, rfl⟩, ?_⟩
      rw [dynamicRequests_append (w := w) _ rfl]
      simp [NxpCmd.dynamicFor]
    · obtain ⟨⟨w₁, ret⟩, h₁, he⟩ := Option.map_eq_some_iff.mp h
      cases he
      rcases productSubAdd_cases h₁ with ⟨j, sd, hj, -⟩ | ⟨-, -, rfl⟩ | ⟨j, sd, -, hj, hsd, rfl⟩
      · exact absurd (hnone.symm.trans hj) (by simp)
      · exact ⟨hname, ⟨rfl, rfl, rfl⟩, rfl⟩
      · obtain ⟨⟨huse, hdev⟩, hfirst⟩ := productSubSearchByName_eq_some_iff.mp hname
        have hij : i ≠ j := by rintro rfl; exact huse (use_of_malloc hj)
        have hsub : ((w.setDev j sd).productSubSave j (env.save 0)).subdevs =
            Function.update w.subdevs j sd := by rw [productSubSave_subdevs, setDev_subdevs]
        have hnew : sd.deviceName ≠ name := by
          rw [(SubDev.occupy_eq hsd).2.2.2.1, List.take_of_length_le hr.le]
          rintro rfl
          exact absurd (hnone.symm.trans hname) (by simp)
        refine ⟨productSubSearchByName_eq_some_iff.mpr ⟨?_, ?_⟩, ?_, ?_⟩
        · rw [hsub, Function.update_of_ne hij]; exact ⟨huse, hdev⟩
        · intro k hk
          rw [hsub]
          by_cases hkj : k = j
          · subst hkj
            rw [Function.update_self]
            exact fun h => hnew h.2.symm
          · rw [Function.update_of_ne hkj]; exact hfirst k hk
        · rw [hsub, Function.update_of_ne hij]; exact ⟨rfl, rfl, rfl⟩
        · exact dynamicRequests_congr name (by rw [productSubSave_sent, setDev_sent])

theorem storeReport_asksFor {r : NxpReg} {w₁ w₂ : World} (hr : r.Fits)
    (hname : w₁.productSubSearchByName name = some i)
    (hk : w₁.productSubSearchByName r.name = some k)
    (hc : (w₁.subdevs k).devid ≠ 0 ∨ 0 ≤ env.register ∧ 0 ≤ env.create)
    (hs : (w₁.openHandle env k).1.storeReport env k r = some w₂) :
    AsksFor name i w₁ (w₂.syncLogin env k r.online) := by
  obtain ⟨sd, hsd, -, hsub, hsent⟩ := storeReport_spec hs
  rw [openHandle_subdevs hc, Function.update_self] at hsd
  rw [openHandle_subdevs hc, Function.update_idem] at hsub
  rw [openHandle_sent] at hsent
  obtain ⟨hdevice, -⟩ := SubDev.report_eq hsd
  have hdyn : SameDynamic (w₁.subdevs k) sd := by
    have h := SubDev.report_dynamic hr.type hr.version hr.model hsd
    exact h
  have hsub' : (w₂.syncLogin env k r.online).subdevs = Function.update w₁.subdevs k
      { w₂.subdevs k with login := loginAfter env (w₂.subdevs k) r.online } := by
    rw [syncLogin_subdevs, hsub, Function.update_idem]
  have hmac : sd.deviceName = r.name := hdevice.deviceName.trans (name_of_search hk)
  have hsame (l : Slot) :
      SameDevice (w₁.subdevs l) ((w₂.syncLogin env k r.online).subdevs l) := by
    rw [hsub']
    refine rel_update .refl ?_ l
    rw [hsub, Function.update_self]
    split <;> exact ⟨hdevice.use, hdevice.productKey, hdevice.deviceName, hdevice.deviceSecret⟩
  have hfound := (productSubSearchByName_of_sameDevice hsame).trans hname
  by_cases hik : i = k
  · subst hik
    have hrn : r.name = name := (name_of_search hk).symm.trans (name_of_search hname)
    have hself : (w₂.syncLogin env i r.online).subdevs i =
        { w₂.subdevs i with login := loginAfter env (w₂.subdevs i) r.online } := by
      rw [hsub', Function.update_self]
    by_cases hd : sd.dynamic = 0
    · rw [if_pos hd] at hsub hsent
      have hw₂ : w₂.subdevs i = { sd with seed := int32 (env.time 0), interval := 30 * 60 } := by
        rw [hsub, Function.update_self]
      refine ⟨hfound, ?_, Or.inr ⟨hdyn.1.symm.trans hd, ?_⟩⟩
      · rw [hself, hw₂]; exact hdyn.1
      · rw [hself, hw₂, dynamicRequests_append (w := w₁) _ ((syncLogin_sent).trans hsent)]
        simp [hmac, hrn]
    · rw [if_neg hd] at hsub hsent
      have hw₂ : w₂.subdevs i = sd := by rw [hsub, Function.update_self]
      refine ⟨hfound, ?_, Or.inl ⟨?_, dynamicRequests_congr name (syncLogin_sent.trans hsent)⟩⟩
      · rw [hself, hw₂]; exact hdyn.1
      · rw [hself, hw₂]; exact hdyn.2
  · have hne : (w₂.syncLogin env k r.online).subdevs i = w₁.subdevs i := by
      rw [hsub', Function.update_of_ne hik]
    refine ⟨hfound, by rw [hne], Or.inl ⟨by rw [hne]; exact ⟨rfl, rfl⟩, ?_⟩⟩
    have hrn : r.name ≠ name := by
      intro h
      rw [h] at hk
      exact hik (Option.some.inj (hname.symm.trans hk))
    split at hsent
    · rw [dynamicRequests_append (w := w₁) _ (syncLogin_sent.trans hsent)]
      simp [hmac, hrn]
    · exact dynamicRequests_congr name (syncLogin_sent.trans hsent)

theorem aflyNxpReg_asksFor {r : NxpReg} (hr : r.Fits)
    (hname : w.productSubSearchByName name = some i) (h : w.aflyNxpReg env r = some w') :
    AsksFor name i w w' := by
  rcases aflyNxpReg_cases h with ⟨found, h₁, -⟩ | ⟨w₁, k, w₂, h₁, hc, hs, rfl⟩
  · exact (registerRecord_keepsLock hr.name hname h₁).asksFor
  · have hkeep := registerRecord_keepsLock hr.name hname h₁
    exact hkeep.trans_asksFor
      (storeReport_asksFor hr hkeep.found (registerRecord_spec h₁).2 hc hs)

theorem getDynamic_asksFor (hname : w.productSubSearchByName name = some i)
    (hk : (w.subdevs k).deviceName = name → k = i)
    (h : w.step (env, .getDynamic k) = some w') : AsksFor name i w w' := by
  have hrefl : AsksFor name i w w := ⟨hname, rfl, Or.inl ⟨⟨rfl, rfl⟩, rfl⟩⟩
  rcases request_cases h with ⟨-, rfl⟩ | ⟨-, h⟩
  · exact hrefl
  obtain ⟨⟨w₁, ret⟩, h₁, rfl⟩ := Option.map_eq_some_iff.mp h
  unfold subdevGetDynamic at h₁
  split_ifs at h₁ with hd hi
  · cases h₁
    have hsame (l : Slot) : SameDevice (w.subdevs l) ((w.provision env k).subdevs l) := by
      rw [provision_subdevs]
      exact rel_update .refl ⟨rfl, rfl, rfl, rfl⟩ l
    have hfound := (productSubSearchByName_of_sameDevice hsame).trans hname
    by_cases hik : i = k
    · subst hik
      refine ⟨hfound, by simp, Or.inr ⟨hd, ?_⟩⟩
      rw [dynamicRequests_append (w := w) _ (provision_sent ..)]
      simp [name_of_search hname]
    · refine ⟨hfound, by simp [hik], Or.inl ⟨by simp [hik], ?_⟩⟩
      rw [dynamicRequests_append (w := w) _ (provision_sent ..)]
      simp [show (w.subdevs k).deviceName ≠ name from fun h => hik (hk h).symm]
  · cases h₁; exact hrefl

theorem rptEvent_dynamic (hname : w.productSubSearchByName name = some i) {buf : ℕ → ℤ}
    (hid : buf 1 = 999999) : w.aflyNxpRptEvent env name eventNxpAddDelPassRet buf =
      some (w.productSubLockAddDynamicComplete (env.save 0) i).1 := by
  have htype : passIdType 999999 = some 0 := by decide
  unfold aflyNxpRptEvent
  rw [hname]
  dsimp only
  rw [lockEvent, if_neg (by decide), if_pos rfl, addDelPassRet, hid, htype]
  dsimp only
  rw [if_neg (by decide), if_pos rfl, Option.map_some]

end Requests

section Steps

variable {env : Env} {name : CStr} {i : Slot} {k : ℕ} {S S' : Provisioning} {e : ProvisionEvent}

/-- The steps that a report can follow without breaking the agreement. -/
abbrev Provisioning.Ok (name : CStr) (i : Slot) (S : Provisioning) (e : ProvisionEvent) : Prop :=
  S.Admits name i e ∧ S.Settled name i e

theorem Provisioning.invariant_gateway {w' : World} (hI : S.Invariant name i)
    (h : AsksFor name i S.world w') : Provisioning.Invariant name i { S with world := w' } where
  found := h.found
  latest hd p hp := by
    rcases h.requests with ⟨⟨hs, hi⟩, hr⟩ | ⟨-, hr⟩
    · rw [hr] at hp
      rw [hs, hi]
      exact hI.latest (h.dynamic.symm.trans hd) p hp
    · rw [hr, List.getLast?_concat] at hp
      exact Option.some.inj hp
  settled hd := by
    rw [h.dynamic] at hd
    rcases h.requests with ⟨⟨hs, hi⟩, hr⟩ | ⟨hd', -⟩
    · unfold queue
      rw [hr, hs, hi]
      exact hI.settled hd
    · exact absurd hd' hd
  asked hne := by
    rcases h.requests with ⟨-, hr⟩ | ⟨-, hr⟩
    · rw [hr]; exact hI.asked hne
    · rw [hr]; simp

theorem Provisioning.process_spec {op code : ℤ} (h : S.step name (.process op code) = some S') :
    ∃ p, S.queue name = p :: S'.queue name ∧ S'.world = S.world ∧
      S'.stored = (if code = 0 then some p else S.stored) ∧
      S'.reports = S.reports ++ [(op, code)] := by
  obtain ⟨p, hp, rfl⟩ := Option.map_eq_some_iff.mp h
  refine ⟨p, ?_, rfl, rfl, rfl⟩
  unfold queue at hp ⊢
  dsimp only
  rw [← List.tail_drop, List.eq_cons_of_mem_head? hp, List.tail_cons]

theorem Provisioning.invariant_process {op code : ℤ} (hI : S.Invariant name i)
    (h : S.step name (.process op code) = some S') : S'.Invariant name i := by
  obtain ⟨p, hq, hw, hstored, -⟩ := process_spec h
  constructor
  · rw [hw]
    exact hI.found
  · rw [hw]
    exact hI.latest
  · intro hd
    rw [hw] at hd ⊢
    obtain ⟨hs, hall⟩ := hI.settled hd
    rw [hq] at hall
    constructor
    · rw [hstored, hall p List.mem_cons_self, hs, ite_self]
    · intro q hm
      exact hall q (List.mem_cons_of_mem _ hm)
  · intro _ he
    rw [hw] at he
    rw [queue, he] at hq
    simp at hq

theorem Provisioning.deliver_spec (hI : S.Invariant name i)
    (h : S.step name (.deliver env k) = some S') :
    (∃ r, S.reports[k]? = some r) ∧
      S'.world.subdevs = Function.update S.world.subdevs i
        { S.world.subdevs i with dynamic := 1 } ∧
      S'.world.sent = S.world.sent ∧ S'.stored = S.stored ∧ S'.answered = S.answered ∧
      S'.reports = S.reports.eraseIdx k := by
  obtain ⟨r, hr, h⟩ := Option.bind_eq_some_iff.mp h
  obtain ⟨w', hw', rfl⟩ := Option.map_eq_some_iff.mp h
  rw [rptEvent_dynamic hI.found (by rfl)] at hw'
  obtain rfl := Option.some.inj hw'
  refine ⟨⟨r, hr⟩, ?_, ?_, rfl, rfl, rfl⟩
  · rw [productSubLockAddDynamicComplete, productSubSave_subdevs, setDev_subdevs]
  · rw [productSubLockAddDynamicComplete, productSubSave_sent, setDev_sent]

theorem Provisioning.invariant_deliver (hI : S.Invariant name i)
    (hok : S.Settled name i (.deliver env k)) (h : S.step name (.deliver env k) = some S') :
    S'.Invariant name i := by
  obtain ⟨⟨r, hr⟩, hsub, hsent, hstored, hanswered, hreports⟩ := deliver_spec hI h
  have hrec : S'.world.subdevs i = { S.world.subdevs i with dynamic := 1 } := by
    rw [hsub, Function.update_self]
  have hrequests := dynamicRequests_congr name hsent
  have hqueue : S'.queue name = S.queue name := by rw [queue, hrequests, hanswered, queue]
  have hsame (l : Slot) : SameDevice (S.world.subdevs l) (S'.world.subdevs l) := by
    rw [hsub]
    exact rel_update .refl ⟨rfl, rfl, rfl, rfl⟩ l
  constructor
  · exact (productSubSearchByName_of_sameDevice hsame).trans hI.found
  · intro hd
    rw [hrec] at hd
    exact absurd hd (by simp)
  · intro _
    rw [hrec, hstored, hqueue]
    by_cases hd : (S.world.subdevs i).dynamic = 0
    · obtain ⟨-, p, hp, hs, hall⟩ := hok hd r hr
      rw [hI.latest hd p hp]
      exact ⟨hs, hall⟩
    · exact hI.settled hd
  · intro _
    rw [hrequests]
    apply hI.asked
    intro he
    rw [he] at hr
    simp at hr

theorem Provisioning.asksFor_of_gateway {op : Op} {w' : World} (hI : S.Invariant name i)
    (hop : S.Admits name i (.gateway env op)) (hok : S.Settled name i (.gateway env op))
    (h : S.world.step (env, op) = some w') : AsksFor name i S.world w' := by
  cases op with
  | nxpReg r => exact aflyNxpReg_asksFor hok hI.found h
  | getDynamic k => exact getDynamic_asksFor hI.found hop h
  | _ => exact hop.elim

theorem Provisioning.invariant_step (hI : S.Invariant name i) (hok : S.Ok name i e)
    (h : S.step name e = some S') : S'.Invariant name i := by
  cases e with
  | gateway env op =>
    obtain ⟨w', hw', rfl⟩ := Option.map_eq_some_iff.mp h
    exact invariant_gateway hI (asksFor_of_gateway hI hok.1 hok.2 hw')
  | process op code => exact invariant_process hI h
  | deliver env k => exact invariant_deliver hI hok.2 h

theorem Provisioning.confirmed_by_report (hI : S.Invariant name i) (hok : S.Ok name i e)
    (h : S.step name e = some S') (hd : (S.world.subdevs i).dynamic = 0)
    (hd' : (S'.world.subdevs i).dynamic ≠ 0) :
    ∃ env k, e = .deliver env k ∧ S.reports[k]? = some (1, 0) := by
  cases e with
  | gateway env op =>
    obtain ⟨w', hw', rfl⟩ := Option.map_eq_some_iff.mp h
    exact absurd ((asksFor_of_gateway hI hok.1 hok.2 hw').dynamic.trans hd) hd'
  | process op code =>
    obtain ⟨-, -, hw, -⟩ := process_spec h
    exact absurd (hw ▸ hd) hd'
  | deliver env k =>
    obtain ⟨⟨r, hr⟩, -⟩ := deliver_spec hI h
    obtain ⟨rfl, -⟩ := hok.2 hd r hr
    exact ⟨env, k, rfl, hr⟩

theorem Provisioning.reachable_stored {q : ℤ × ℤ} (hq : q ∈ S.queue name) :
    ∃ T, Reachable (Provisioning.step name) (Provisioning.Ok name i) S T ∧ T.world = S.world ∧
      T.stored = some q := by
  generalize hl : S.queue name = l at hq
  induction l generalizing S with
  | nil => simp at hq
  | cons p l ih =>
    obtain ⟨S', hS'⟩ : ∃ S', S.step name (.process 1 0) = some S' :=
      ⟨_, by rw [step, hl]; rfl⟩
    obtain ⟨p', hp', hw, hstored, -⟩ := process_spec hS'
    obtain ⟨rfl, hl'⟩ := List.cons.inj (hl.symm.trans hp')
    have hreach : Reachable (Provisioning.step name) (Provisioning.Ok name i) S S' :=
      .next (e := .process 1 0) .start ⟨trivial, trivial⟩ hS'
    rcases List.mem_cons.mp hq with rfl | hq
    · exact ⟨S', hreach, hw, hstored.trans (if_pos rfl)⟩
    · obtain ⟨T, hT, hTw, hTs⟩ := ih hl'.symm hq
      exact ⟨T, hreach.trans hT, hTw.trans hw, hTs⟩

theorem Provisioning.settled_of_agrees (hI : S.Invariant name i)
    (h : S.step name (.deliver env k) = some S') (hr : S.reports[k]? = some (1, 0))
    (hagrees : ∀ T, Reachable (Provisioning.step name) (Provisioning.Ok name i) S' T → T.Agrees i) :
    S.Settled name i (.deliver env k) := by
  intro hd r hr'
  obtain ⟨-, hsub, hsent, hstored, hanswered, -⟩ := deliver_spec hI h
  have hrec : S'.world.subdevs i = { S.world.subdevs i with dynamic := 1 } := by
    rw [hsub, Function.update_self]
  have hqueue : S'.queue name = S.queue name := by
    rw [queue, dynamicRequests_congr name hsent, hanswered, queue]
  have hne : S.world.dynamicRequests name ≠ [] := hI.asked (by rintro he; simp [he] at hr)
  obtain ⟨p, hp⟩ := Option.isSome_iff_exists.mp (List.getLast?_isSome.mpr hne)
  have hpair := hI.latest hd p hp
  refine ⟨Option.some.inj (hr'.symm.trans hr), p, hp, ?_, ?_⟩
  · have hs := hagrees S' .start (by rw [hrec]; simp)
    rw [hstored, hrec] at hs
    exact hs.trans (congrArg some hpair)
  · intro q hq
    obtain ⟨T, hT, hTw, hTs⟩ := reachable_stored (i := i) (hqueue ▸ hq)
    have hs := hagrees T hT (by rw [hTw, hrec]; simp)
    rw [hTs, hTw, hrec] at hs
    exact (Option.some.inj hs).trans hpair

/-- In every run whose confirming reports are settled, and whose registrations carry strings that
fit, a confirmed dynamic password is the one that the lock stores, and only an accepting report
confirms it. A confirming report that is not settled breaks one of the two. -/
theorem dynamic_agrees {w₀ : World} {stored : Option (ℤ × ℤ)}
    (hname : w₀.productSubSearchByName name = some i) (hsent : w₀.dynamicRequests name = [])
    (h₀ : Provisioning.Agrees i ⟨w₀, 0, stored, []⟩)
    (hr : Reachable (Provisioning.step name) (Provisioning.Ok name i) ⟨w₀, 0, stored, []⟩ S) :
    S.Agrees i ∧
    (∀ e S', S.Ok name i e → S.step name e = some S' → (S.world.subdevs i).dynamic = 0 →
      (S'.world.subdevs i).dynamic ≠ 0 → ∃ env k, e = .deliver env k ∧
        S.reports[k]? = some (1, 0)) ∧
    ∀ env k S', S.step name (.deliver env k) = some S' → (S.world.subdevs i).dynamic = 0 →
      (S.Settled name i (.deliver env k) ↔ S.reports[k]? = some (1, 0) ∧
        ∀ T, Reachable (Provisioning.step name) (Provisioning.Ok name i) S' T → T.Agrees i) := by
  have hstart : Provisioning.Invariant name i ⟨w₀, 0, stored, []⟩ := by
    constructor
    · exact hname
    · intro _ p hp
      rw [hsent] at hp
      simp at hp
    · intro hd
      exact ⟨h₀ hd, by simp [Provisioning.queue, hsent]⟩
    · intro h
      exact absurd rfl h
  have hI : S.Invariant name i :=
    hr.invariant hstart fun _ _ _ hI hok hs => Provisioning.invariant_step hI hok hs
  refine ⟨fun hd => (hI.settled hd).1,
    fun e S' hok hs => Provisioning.confirmed_by_report hI hok hs, ?_⟩
  intro env k S' hs hd
  constructor
  · intro hok
    obtain ⟨⟨r, hr⟩, -⟩ := Provisioning.deliver_spec hI hs
    have hI' := Provisioning.invariant_deliver hI hok hs
    refine ⟨(hok hd r hr).1 ▸ hr, ?_⟩
    intro T hT hd'
    have hIT : T.Invariant name i :=
      hT.invariant hI' fun _ _ _ hI hok hs => Provisioning.invariant_step hI hok hs
    exact (hIT.settled hd').1
  · rintro ⟨hr, ha⟩
    exact Provisioning.settled_of_agrees hI hs hr ha

end Steps

/-- The lock answers the request for a dynamic password with this code. -/
def provisionAnswer (code : ℤ) : List ProvisionEvent :=
  [.gateway .quiet (.getDynamic 0), .process 1 code]

/-- An accepted request that is reported before any other confirms what the lock stores. -/
theorem dynamic_agrees_accepted : ∃ S, run (Provisioning.step firstDevice.deviceName)
      ⟨single firstDevice, 0, none, []⟩ (provisionAnswer 0 ++ [.deliver .quiet 0]) = some S ∧
    (S.world.subdevs 0).dynamic = 1 ∧ S.Agrees 0 := by
  obtain ⟨S₁, h₁, ho⟩ : ∃ S₁, run (Provisioning.step firstDevice.deviceName)
      ⟨single firstDevice, 0, none, []⟩ (provisionAnswer 0) = some S₁ ∧
      (S₁.world.dynamicRequests firstDevice.deviceName, S₁.stored,
        S₁.queue firstDevice.deviceName, S₁.reports) =
        ([(1500000000, 1800)], some (1500000000, 1800), [], [(1, 0)]) :=
    Option.map_eq_some_iff.mp (by decide +kernel)
  obtain ⟨S, hS, hd⟩ : ∃ S, run (Provisioning.step firstDevice.deviceName)
      ⟨single firstDevice, 0, none, []⟩ (provisionAnswer 0 ++ [.deliver .quiet 0]) = some S ∧
      (S.world.subdevs 0).dynamic = 1 := Option.map_eq_some_iff.mp (by decide +kernel)
  simp only [Prod.mk.injEq] at ho
  obtain ⟨hreq, hstored, hqueue, hreports⟩ := ho
  have hs : S₁.step firstDevice.deviceName (.deliver .quiet 0) = some S := by
    rw [run_append, h₁] at hS
    simpa [run] using hS
  have hreach : Reachable (Provisioning.step firstDevice.deviceName)
      (Provisioning.Ok firstDevice.deviceName 0) ⟨single firstDevice, 0, none, []⟩ S₁ :=
    reachable_of_run h₁ (by simp [provisionAnswer, Provisioning.Ok, Provisioning.Admits,
      Provisioning.Settled]) .start
  refine ⟨S, hS, hd, (dynamic_agrees (by decide +kernel) rfl (fun h => absurd rfl h)
    (hreach.next (e := .deliver .quiet 0) ⟨trivial, fun _ r hr => ?_⟩ hs)).1⟩
  rw [hreports] at hr
  refine ⟨(Option.some.inj hr).symm, (1500000000, 1800), ?_, hstored, ?_⟩
  · rw [hreq]; rfl
  · rw [hqueue]; simp

/-- A rejected request is taken for a confirmed one. -/
theorem rejection_confirms_dynamic :
    ¬ ∀ (w₀ : World) (name : CStr) (i : Slot) (S : Provisioning),
      w₀.productSubSearchByName name = some i → w₀.dynamicRequests name = [] →
      (w₀.subdevs i).dynamic = 0 →
      Reachable (Provisioning.step name) (fun S e => S.Admits name i e) ⟨w₀, 0, none, []⟩ S →
      S.Agrees i := by
  intro h
  obtain ⟨S, hS, ho⟩ : ∃ S, run (Provisioning.step firstDevice.deviceName)
      ⟨single firstDevice, 0, none, []⟩ (provisionAnswer 1 ++ [.deliver .quiet 0]) = some S ∧
      ((S.world.subdevs 0).dynamic, S.stored) = (1, none) :=
    Option.map_eq_some_iff.mp (by decide +kernel)
  simp only [Prod.mk.injEq] at ho
  have ha := h (single firstDevice) firstDevice.deviceName 0 S (by decide +kernel) rfl rfl
    (reachable_of_run hS (by simp [provisionAnswer, Provisioning.Admits]) .start)
  rw [Provisioning.Agrees, ho.1, ho.2] at ha
  exact absurd (ha (by decide)) (by simp)

end Afly
