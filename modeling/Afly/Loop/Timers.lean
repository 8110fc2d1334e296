import Afly.Loop.Process
import Afly.Timer.Spec

/-! # The timers of the main loop

Each timer call of the process is the list operation on the three timers, which
is defined on a well-formed list. A firing takes a due timer of least expiry,
and a handler of the gateway touches no timer but that of the tasks.
-/

namespace Afly.Process

open TimerHead

variable {M : Type} {p p' : Process M} {timer : TimerRef} {ms : ℕ} {env : Env}

/-- A process before `afly_init`: no task is listed, and only the queue's timer may be armed. -/
structure Fresh (p : Process M) : Prop where
  tasks : p.world.taskList = none
  timers : p.timers.WellFormed
  idle : ∀ t ≠ .uprotoStep, p.timers.time t = 0

theorem fresh_boot : (boot : Process M).Fresh := ⟨rfl, TimerHead.wellFormed_init, fun _ _ => rfl⟩

theorem card_timerRef : Fintype.card TimerRef = fuel := by decide

variable (timer) in
theorem timerCancel_spec (h : p.timers.WellFormed) :
    ∃ timers, p.timerCancel timer = some { p with timers := timers } ∧ timers.WellFormed ∧
      timers.time = Function.update p.timers.time timer 0 := by
  obtain ⟨l, hl⟩ := h
  obtain ⟨timers, ht, hw, htime⟩ :=
    TimerHead.timerCancel_spec timer hl (hl.length_le.trans card_timerRef.le)
  exact ⟨timers, by rw [Process.timerCancel, ht, Option.map_some], ⟨_, hw⟩, htime⟩

variable (timer ms) in
theorem timerSet_spec (h : p.timers.WellFormed) :
    ∃ timers, p.timerSet timer ms = some { p with timers := timers } ∧ timers.WellFormed ∧
      timers.time = Function.update p.timers.time timer (p.now + ms) := by
  obtain ⟨l, hl⟩ := h
  obtain ⟨timers, l', ht, hw, htime⟩ :=
    TimerHead.timerSet_spec timer hl (hl.length_le.trans card_timerRef.le)
      (Nat.add_pos_left p.ticking ms)
  exact ⟨timers, by rw [Process.timerSet, ht, Option.map_some], ⟨l', hw⟩, htime⟩

theorem timerInit_spec (h : p.timers.WellFormed) (ht : p.timers.time timer = 0) :
    ∃ timers, p.timerInit timer = { p with timers := timers } ∧ timers.WellFormed ∧
      timers.time = p.timers.time := by
  obtain ⟨l, hl⟩ := h
  have hn : timer ∉ l := fun hm => (hl.armed timer).mp hm ht
  have htime : ((p.timers.setNext timer none).setTime timer 0).time = p.timers.time := by
    rw [time_setTime, time_setNext, ← ht, Function.update_eq_self]
  refine ⟨_, rfl, ⟨l, ?_, ?_, ?_⟩, htime⟩
  · rw [next_setTime, next_setNext, first_setTime, first_setNext]
    refine hl.linked.congr ?_
    rintro q hq
    have hne : q ≠ timer := by
      rintro rfl
      exact hn hq
    rw [Function.update_of_ne hne]
  · rw [htime]
    exact hl.armed
  · rw [htime]
    exact hl.sorted

theorem uprotoStep_spec (h : p.timers.WellFormed) :
    ∃ timers, p.uprotoStep = some { p with timers := timers } ∧ timers.WellFormed ∧
      timers.time = Function.update p.timers.time .uprotoStep (p.now + 10) := by
  obtain ⟨timers₁, h₁, hw₁, ht₁⟩ := timerCancel_spec .uprotoStep h
  obtain ⟨timers₂, h₂, hw₂, ht₂⟩ :=
    timerSet_spec (p := { p with timers := timers₁ }) .uprotoStep 10 hw₁
  refine ⟨timers₂, by rw [uprotoStep, h₁, Option.bind_some, h₂], hw₂, ?_⟩
  rw [ht₂, ht₁, Function.update_idem]

theorem timerAdvanceRound_cases {timers : TimerHead TimerRef} (h : p.timers.WellFormed)
    (hf : p.timers.timerAdvanceRound p.now = some (timer, timers)) :
    timers.WellFormed ∧ p.timers.time timer ≠ 0 ∧ p.timers.time timer ≤ p.now ∧
      (∀ t, p.timers.time t ≠ 0 → p.timers.time timer ≤ p.timers.time t) ∧
      timers.time = Function.update p.timers.time timer 0 := by
  obtain ⟨l, hl⟩ := h
  rcases TimerHead.timerAdvanceRound_spec p.now hl with
    ⟨hn, -⟩ | ⟨t, l', h', hs, rfl, hdue, hleast, hr, htime⟩
  · rw [hn] at hf
    cases hf
  · rw [hs] at hf
    cases hf
    refine ⟨⟨l', hr⟩, (hl.armed _).mp List.mem_cons_self, hdue, ?_, htime⟩
    intro t ht
    exact hleast t ((hl.armed t).mpr ht)

theorem handle_spec {handler : Env → World → Option World} (h : p.timers.WellFormed)
    (hp : p.handle env handler = some p') : ∃ w timers,
      handler (p.clocked env) p.world.untimed = some w ∧
      p' = { p with world := w, timers := timers } ∧ timers.WellFormed ∧
      timers.time = w.taskTimer.elim p.timers.time fun time =>
        Function.update p.timers.time .task (p.now + (time - p.now).toNat) := by
  obtain ⟨w, hw, hp⟩ := Option.bind_eq_some_iff.mp hp
  dsimp only at hp
  cases ht : w.taskTimer with
  | none =>
    rw [ht] at hp
    cases hp
    exact ⟨w, p.timers, hw, rfl, h, by rw [ht]; rfl⟩
  | some time =>
    rw [ht] at hp
    obtain ⟨timers, hs, hwf, htime⟩ := timerSet_spec (p := { p with world := w }) .task
      (time - p.now).toNat h
    cases hp.symm.trans hs
    exact ⟨w, timers, hw, rfl, hwf, by rw [ht]; exact htime⟩

theorem handle_defined {handler : Env → World → Option World} {w : World}
    (h : p.timers.WellFormed) (hw : handler (p.clocked env) p.world.untimed = some w) :
    ∃ p', p.handle env handler = some p' := by
  rw [handle, hw, Option.bind_some]
  dsimp only
  cases w.taskTimer with
  | none => exact ⟨_, rfl⟩
  | some time =>
    obtain ⟨timers, hs, -⟩ := timerSet_spec (p := { p with world := w }) .task
      (time - p.now).toNat h
    exact ⟨_, hs⟩

theorem handle_timers {handler : Env → World → Option World} (h : p.timers.WellFormed)
    (hp : p.handle env handler = some p') :
    p'.timers.WellFormed ∧ ∀ t ≠ .task, p'.timers.time t = p.timers.time t := by
  obtain ⟨w, timers, -, rfl, hw, ht⟩ := handle_spec h hp
  refine ⟨hw, ?_⟩
  intro t hne
  rw [ht]
  cases w.taskTimer with
  | none => rfl
  | some time => exact Function.update_of_ne hne _ _

theorem uprotoRun_frame (h : p.timers.WellFormed) (hp : p.uprotoRun = some p') :
    ∃ msgq handed timers, p' = { p with msgq := msgq, handed := handed, timers := timers } ∧
      timers.WellFormed ∧ ∀ t ≠ .uprotoStep, timers.time t = p.timers.time t := by
  obtain ⟨⟨msgq, e⟩, -, hp⟩ := Option.bind_eq_some_iff.mp hp
  cases e with
  | none =>
    cases hp
    exact ⟨msgq, p.handed, p.timers, rfl, h, fun _ _ => rfl⟩
  | some e =>
    obtain ⟨eid, param⟩ := e
    obtain ⟨p₁, h₁, hp⟩ := Option.bind_eq_some_iff.mp hp
    obtain ⟨handed, rfl⟩ : ∃ handed, p₁ = { p with msgq := msgq, handed := handed } := by
      unfold uprotoHandlerEvent at h₁
      split_ifs at h₁
      · cases h₁
        cases param with
        | none => exact ⟨p.handed, rfl⟩
        | some m => exact ⟨p.handed ++ [m], rfl⟩
      · cases h₁
        exact ⟨p.handed, rfl⟩
    obtain ⟨timers, hs, hw, ht⟩ :=
      uprotoStep_spec (p := { p with msgq := msgq, handed := handed }) h
    cases hp.symm.trans hs
    refine ⟨msgq, handed, timers, rfl, hw, ?_⟩
    rintro t hne
    rw [ht, Function.update_of_ne hne]

theorem uprotoPushMsg_frame {item : ℕ} {eid : ℤ} {param : Option M} (h : p.timers.WellFormed)
    (hp : p.uprotoPushMsg item eid param = some p') :
    ∃ msgq timers, p' = { p with msgq := msgq, timers := timers } ∧
      timers.WellFormed ∧ ∀ t ≠ .uprotoStep, timers.time t = p.timers.time t := by
  obtain ⟨msgq, -, hp⟩ := Option.bind_eq_some_iff.mp hp
  obtain ⟨timers, hs, hw, ht⟩ := uprotoStep_spec (p := { p with msgq := msgq }) h
  cases hp.symm.trans hs
  refine ⟨msgq, timers, rfl, hw, ?_⟩
  rintro t hne
  rw [ht, Function.update_of_ne hne]

theorem aflyHandlerSyncListRun_frame (h : p.timers.WellFormed)
    (hp : p.aflyHandlerSyncListRun = some p') : ∃ timers, timers.WellFormed ∧
      timers.time = Function.update p.timers.time .syncList 0 ∧
      p' = if p.connectChangeOn = 1 ∨ p.wall - p.last > 60 * 15 then
        { p with
          timers := timers
          world := if p.connected ≠ 0 then p.world.send .deviceList else p.world
          connectChangeOn := 0
          last := int32 p.wall }
        else { p with timers := timers } := by
  obtain ⟨timers, hc, hw, ht⟩ := timerCancel_spec .syncList h
  rw [aflyHandlerSyncListRun, hc, Option.map_some] at hp
  exact ⟨timers, hw, ht, (Option.some.inj hp).symm⟩

section Init

variable {p₀ : Process M} {cloud : List CloudEvent}

variable (cloud) in
theorem foldl_eventHandler (p : Process M) : (cloud.foldl eventHandler p).timers = p.timers ∧
    (cloud.foldl eventHandler p).now = p.now ∧
    (cloud.foldl eventHandler p).world.sched = p.world.sched := by
  induction cloud generalizing p with
  | nil => exact ⟨rfl, rfl, rfl⟩
  | cons e cloud ih =>
    obtain ⟨ht, hn, hs⟩ := ih (p.eventHandler e)
    rw [List.foldl_cons, ht, hn, hs]
    cases e <;> exact ⟨rfl, rfl, rfl⟩

theorem aflyInit_cases (h : p.Fresh) (hp : p.aflyInit env cloud = some p₀) :
    ∃ timers p₁ p₂, timers.WellFormed ∧ timers.time = p.timers.time ∧
      { p with timers := timers }.handle env
        (fun env w => w.schedule env 0 .gwInfoTask 1000 .gwInfoFunc none) = some p₁ ∧
      p₁.handle env (fun env w => some (w.productSubLoadAll env).1) = some p₂ ∧
      (cloud.foldl eventHandler p₂).timerSet .syncList 2000 = some p₀ := by
  obtain ⟨timers₁, h₁, hw₁, ht₁⟩ := timerInit_spec h.timers (h.idle .syncList (by decide))
  obtain ⟨timers₂, h₂, hw₂, ht₂⟩ := timerInit_spec (p := { p with timers := timers₁ }) hw₁
    (by rw [ht₁]; exact h.idle .task (by decide))
  rw [aflyInit, h₁, h₂] at hp
  obtain ⟨p₁, hp₁, hp⟩ := Option.bind_eq_some_iff.mp hp
  obtain ⟨p₂, hp₂, hp⟩ := Option.bind_eq_some_iff.mp hp
  exact ⟨timers₂, p₁, p₂, hw₂, ht₂.trans ht₁, hp₁, hp₂, hp⟩

theorem aflyInit_timers (h : p.Fresh) (hp : p.aflyInit env cloud = some p₀) :
    p₀.timers.WellFormed ∧ p₀.timers.time .syncList ≠ 0 := by
  obtain ⟨timers, p₁, p₂, hw, -, h₁, h₂, hset⟩ := aflyInit_cases h hp
  have hw₁ := (handle_timers (p := { p with timers := timers }) hw h₁).1
  have hw₂ := (handle_timers hw₁ h₂).1
  rw [← (foldl_eventHandler cloud p₂).1] at hw₂
  obtain ⟨timers₃, h₃, hw₃, ht₃⟩ := timerSet_spec .syncList 2000 hw₂
  cases hset.symm.trans h₃
  refine ⟨hw₃, ?_⟩
  rw [ht₃, Function.update_self]
  simp

end Init

end Afly.Process
