import Afly.Gateway.Outcomes
import Afly.Lib.Reach
import Afly.Loop.Timers

/-! # The device list is synchronised

A connection to the cloud leaves a flag, and the handler of the list's timer
takes it and asks the lock module for its devices. `afly_init` arms the timer
once, and the handler does not arm it again: after its first firing nothing asks
for the list any more.
-/

namespace Afly

open Reach

variable {M : Type}

/-- The process with the time of its last request for the device list, and whether the timer of
the list has fired. -/
structure Listed (M : Type) where
  process : Process M
  asked : Option ℤ
  fired : Bool

/-- The requests for the device list that a step sent. -/
def Process.Asks (p p' : Process M) : Prop :=
  .deviceList ∈ p'.world.sent.drop p.world.sent.length

instance (p p' : Process M) : Decidable (p.Asks p') :=
  inferInstanceAs (Decidable (_ ∈ p'.world.sent.drop p.world.sent.length))

/-- The event is a firing of the timer of the list. -/
def LoopEvent.FiresList (p : Process M) : LoopEvent M → Bool
  | .fire _ => (p.timers.timerAdvanceRound p.now).map Prod.fst = some .syncList
  | _ => false

def Listed.step (S : Listed M) (e : LoopEvent M) : Option (Listed M) :=
  (S.process.step e).map fun p =>
    ⟨p, if S.process.Asks p then some S.process.wall else S.asked,
      S.fired || e.FiresList S.process⟩

/-- The process after `afly_init`. -/
def Listed.start (p : Process M) : Listed M := ⟨p, none, false⟩

/-- Connects and disconnects, firings, and what passes between them. -/
def LoopEvent.OnCloud : LoopEvent M → Prop
  | .cloud _ | .pass _ _ | .fire _ => True
  | .op _ _ | .gwInfo _ | .push _ _ => False

namespace Listed

/-- More than 15 minutes have passed since the last request for the list. -/
def Stale (S : Listed M) (wall : ℤ) : Prop := ∀ t, S.asked = some t → 60 * 15 < wall - t

/-- A synchronisation of the list is owed. -/
def Owed (S : Listed M) : Prop :=
  S.process.connectChangeOn = 1 ∨ S.process.connected ≠ 0 ∧ S.Stale S.process.wall

def Armed (S : Listed M) : Prop := S.process.timers.time .syncList ≠ 0

/-- When a synchronisation is owed, the timer is armed. -/
def Kept (S : Listed M) : Prop := S.Owed → S.Armed

/-- A step that takes the flag asks for the list. -/
def Answers (S S' : Listed M) : Prop :=
  S.process.connectChangeOn = 1 → S'.process.connectChangeOn ≠ 1 → S.process.Asks S'.process

/-- The events that leave no synchronisation behind. After the first firing there is no connect,
and while connected no more than 15 minutes pass since the last request. At that firing a flag meets
a connection, or without a flag there is none, or the handler has rested for 15 minutes. -/
def Timely (S : Listed M) : LoopEvent M → Prop
  | .cloud .connected => S.fired = false
  | .pass _ wall => S.fired = true → S.process.connected = 0 ∨ ¬ S.Stale wall
  | .fire env => LoopEvent.FiresList S.process (.fire env) →
    if S.process.connectChangeOn = 1 then S.process.connected ≠ 0
    else S.process.connected = 0 ∨ S.process.wall - S.process.last > 60 * 15
  | _ => True

/-- The timer is armed until it fires. -/
structure Settled (S : Listed M) : Prop where
  timers : S.process.timers.WellFormed
  armed : S.Armed ↔ S.fired = false

end Listed

section Steps

variable {S S' : Listed M} {e : LoopEvent M} {env : Env} {p p' : Process M}

theorem Process.not_asks_of_sent (h : p'.world.sent = p.world.sent) : ¬ p.Asks p' := by
  rw [Process.Asks, h, List.drop_length]
  exact List.not_mem_nil

theorem Process.asks_of_send (h : p'.world = p.world.send .deviceList) : p.Asks p' := by
  rw [Process.Asks, h, World.send_sent, List.drop_left]
  exact List.mem_singleton_self _

/-- A step that sends nothing and touches neither the flag, the connection, the clock nor the
timer. -/
structure Process.Rests (p p' : Process M) : Prop where
  sent : p'.world.sent = p.world.sent
  connected : p'.connected = p.connected
  connectChangeOn : p'.connectChangeOn = p.connectChangeOn
  wall : p'.wall = p.wall
  armed : p'.timers.time .syncList = p.timers.time .syncList

theorem Process.fire_rests {timer : TimerRef} {timers : TimerHead TimerRef}
    (hw : p.timers.WellFormed) (hne : timer ≠ .syncList)
    (hf : p.timers.timerAdvanceRound p.now = some (timer, timers))
    (hp : p.fire env = some p') : p'.timers.WellFormed ∧ p.Rests p' := by
  obtain ⟨hw₁, -, -, -, ht₁⟩ := timerAdvanceRound_cases hw hf
  have hkeep : timers.time .syncList = p.timers.time .syncList := by
    rw [ht₁, Function.update_of_ne hne.symm]
  rw [fire, hf, Option.bind_some] at hp
  cases timer with
  | syncList => exact absurd rfl hne
  | uprotoStep =>
    obtain ⟨msgq, handed, timers₂, rfl, hw₂, ht₂⟩ :=
      uprotoRun_frame (p := { p with timers := timers }) hw₁ hp
    exact ⟨hw₂, rfl, rfl, rfl, rfl, (ht₂ _ (by decide)).trans hkeep⟩
  | task =>
    obtain ⟨hw₂, ht₂⟩ := handle_timers (p := { p with timers := timers }) hw₁ hp
    obtain ⟨w, timers', hrun, rfl, -⟩ := handle_spec (p := { p with timers := timers }) hw₁ hp
    have hsent : w.sent = p.world.untimed.sent :=
      World.aflyHandlerTaskRun_sent hrun
    exact ⟨hw₂, hsent, rfl, rfl, rfl, (ht₂ _ (by decide)).trans hkeep⟩

theorem Process.fire_syncList {timers : TimerHead TimerRef} (hw : p.timers.WellFormed)
    (hf : p.timers.timerAdvanceRound p.now = some (.syncList, timers))
    (hp : p.fire env = some p') : p'.timers.WellFormed ∧ p'.timers.time .syncList = 0 ∧
      p'.connected = p.connected ∧ p'.wall = p.wall ∧
      if p.connectChangeOn = 1 ∨ p.wall - p.last > 60 * 15 then
        p'.connectChangeOn = 0 ∧ (p.Asks p' ↔ p.connected ≠ 0)
      else p'.connectChangeOn = p.connectChangeOn ∧ ¬ p.Asks p' := by
  obtain ⟨hw₁, -⟩ := timerAdvanceRound_cases hw hf
  rw [fire, hf, Option.bind_some] at hp
  obtain ⟨timers₂, hw₂, ht₂, he⟩ :=
    aflyHandlerSyncListRun_frame (p := { p with timers := timers }) hw₁ hp
  have hoff : timers₂.time .syncList = 0 := by rw [ht₂, Function.update_self]
  by_cases htake : p.connectChangeOn = 1 ∨ p.wall - p.last > 60 * 15
  · rw [if_pos htake] at he ⊢
    subst he
    refine ⟨hw₂, hoff, rfl, rfl, rfl, ?_⟩
    by_cases hc : p.connected = 0
    · refine iff_of_false (not_asks_of_sent ?_) (not_not.mpr hc)
      simp [hc]
    · refine iff_of_true (asks_of_send ?_) hc
      simp [hc]
  · rw [if_neg htake] at he ⊢
    subst he
    exact ⟨hw₂, hoff, rfl, rfl, rfl, not_asks_of_sent rfl⟩

theorem Process.firesList_iff {timer : TimerRef} {timers : TimerHead TimerRef}
    (hf : p.timers.timerAdvanceRound p.now = some (timer, timers)) :
    LoopEvent.FiresList p (.fire env) = true ↔ timer = .syncList := by
  simp [LoopEvent.FiresList, hf]

theorem Process.step_syncList (hw : p.timers.WellFormed) (hp : p.step e = some p') :
    p'.timers.WellFormed ∧ (e.FiresList p = true → p.timers.time .syncList ≠ 0) ∧
      p'.timers.time .syncList = if e.FiresList p then 0 else p.timers.time .syncList := by
  cases e with
  | op | gwInfo =>
    rw [step] at hp
    obtain ⟨hw', ht⟩ := handle_timers hw hp
    exact ⟨hw', fun h => absurd h Bool.false_ne_true, ht _ (by decide)⟩
  | push =>
    obtain ⟨msgq, timers, rfl, hw', ht⟩ := uprotoPushMsg_frame hw hp
    exact ⟨hw', fun h => absurd h Bool.false_ne_true, ht _ (by decide)⟩
  | cloud c =>
    obtain rfl : p.eventHandler c = p' := Option.some.inj hp
    cases c <;> exact ⟨hw, fun h => absurd h Bool.false_ne_true, rfl⟩
  | pass ms wall =>
    cases hp
    exact ⟨hw, fun h => absurd h Bool.false_ne_true, rfl⟩
  | fire env =>
    obtain ⟨⟨timer, timers⟩, hf, -⟩ := Option.bind_eq_some_iff.mp hp
    have hset := (timerAdvanceRound_cases hw hf).2.1
    by_cases ht : timer = .syncList
    · subst ht
      obtain ⟨hw', hoff, -⟩ := fire_syncList hw hf hp
      exact ⟨hw', fun _ => hset, by rw [if_pos ((firesList_iff hf).mpr rfl), hoff]⟩
    · obtain ⟨hw', hrests⟩ := fire_rests hw ht hf hp
      have hno : ¬ LoopEvent.FiresList p (.fire env) = true := (firesList_iff hf).not.mpr ht
      exact ⟨hw', fun h => absurd h hno, by rw [if_neg hno, hrests.armed]⟩

theorem Listed.step_spec (hs : S.step e = some S') : S.process.step e = some S'.process ∧
    (S'.asked = if S.process.Asks S'.process then some S.process.wall else S.asked) ∧
    S'.fired = (S.fired || e.FiresList S.process) := by
  obtain ⟨p, hp, rfl⟩ := Option.map_eq_some_iff.mp hs
  exact ⟨hp, rfl, rfl⟩

theorem Listed.settled_step (h : S.Settled) (hs : S.step e = some S') : S'.Settled := by
  obtain ⟨hp, -, hfired⟩ := step_spec hs
  obtain ⟨hw, hset, ht⟩ := Process.step_syncList h.timers hp
  refine ⟨hw, ?_⟩
  rw [Armed, ht, hfired, Bool.or_eq_false_iff, ← h.armed, Armed]
  cases hf : e.FiresList S.process with
  | true => simp
  | false => simp

theorem Listed.settled_start {p₀ : Process M} {cloud : List CloudEvent} (hfresh : p.Fresh)
    (hinit : p.aflyInit env cloud = some p₀) : (Listed.start p₀).Settled := by
  obtain ⟨hw₀, harmed⟩ := Process.aflyInit_timers hfresh hinit
  exact ⟨hw₀, iff_of_true harmed rfl⟩

/-- In every run after `afly_init` the timer of the list is armed up to its first firing, and never
again. -/
theorem never_armed_again {p₀ : Process M} {cloud : List CloudEvent} (hfresh : p.Fresh)
    (hinit : p.aflyInit env cloud = some p₀)
    (hr : Reachable Listed.step (fun _ _ => True) (.start p₀) S) : S.Settled :=
  hr.invariant (Listed.settled_start hfresh hinit) fun _ _ _ h _ hs => Listed.settled_step h hs

theorem Listed.asked_of_sent (hs : S.step e = some S')
    (hsent : S'.process.world.sent = S.process.world.sent) : S'.asked = S.asked := by
  rw [(step_spec hs).2.1, if_neg (Process.not_asks_of_sent hsent)]

/-- Of the events around the cloud only the firing of the timer asks for the list. -/
theorem Listed.unasked_step (hw : S.process.timers.WellFormed) (hop : e.OnCloud)
    (h : S.fired = false → S.asked = none) (hs : S.step e = some S') :
    S'.fired = false → S'.asked = none := by
  obtain ⟨hp, -, hfired⟩ := step_spec hs
  intro hno
  rw [hfired, Bool.or_eq_false_iff] at hno
  rw [← h hno.1]
  apply asked_of_sent hs
  cases e with
  | op | gwInfo | push => exact hop.elim
  | cloud c =>
    have he : S'.process = S.process.eventHandler c := (Option.some.inj hp).symm
    rw [he]
    cases c <;> rfl
  | pass ms wall => rw [(Option.some.inj hp).symm]
  | fire env =>
    obtain ⟨⟨timer, timers⟩, hf, -⟩ := Option.bind_eq_some_iff.mp hp
    have hne : timer ≠ .syncList := by
      rintro rfl
      rw [(Process.firesList_iff hf).mpr rfl] at hno
      exact absurd hno.2 (by decide)
    exact (Process.fire_rests hw hne hf hp).2.sent

theorem Listed.kept_of_rests (h : S.process.Rests S'.process) (hs : S.step e = some S')
    (hS : S.Kept) : S'.Kept ∧ S.Answers S' := by
  have hasked := asked_of_sent hs h.sent
  constructor
  · intro ho
    rw [Armed, h.armed]
    apply hS
    rwa [Owed, Stale, h.connected, h.connectChangeOn, h.wall, hasked] at ho
  · intro hon hoff
    exact absurd (h.connectChangeOn.trans hon) hoff

theorem Listed.fire_syncList_iff {timers : TimerHead TimerRef} (h : S.Settled)
    (hask : S.fired = false → S.asked = none)
    (hf : S.process.timers.timerAdvanceRound S.process.now = some (.syncList, timers))
    (hs : S.step (.fire env) = some S') :
    (S'.Kept ∧ S.Answers S') ↔ S.Timely (.fire env) := by
  obtain ⟨hp, hasked, -⟩ := step_spec hs
  obtain ⟨-, hoff, hc, hwall, hcase⟩ := Process.fire_syncList h.timers hf hp
  have hkept : S'.Kept ↔ ¬ S'.Owed := by
    rw [Kept, Armed, hoff]
    simp
  have htimely : S.Timely (.fire env) ↔
      if S.process.connectChangeOn = 1 then S.process.connected ≠ 0
      else S.process.connected = 0 ∨ S.process.wall - S.process.last > 60 * 15 :=
    ⟨fun h => h ((Process.firesList_iff hf).mpr rfl), fun h _ => h⟩
  rw [hkept, htimely, Owed, hc, hwall, Answers]
  split_ifs at hcase with htake
  · -- the handler takes the flag
    obtain ⟨hflag, hasks⟩ := hcase
    have hnot : ¬ (S'.process.connectChangeOn = 1 ∨
        S.process.connected ≠ 0 ∧ S'.Stale S.process.wall) := by
      rintro (h | ⟨hon, hstale⟩)
      · omega
      · have := hstale S.process.wall (by rw [hasked, if_pos (hasks.mpr hon)])
        omega
    split_ifs with hone
    · exact ⟨fun h => hasks.mp (h.2 hone (by omega)), fun h => ⟨hnot, fun _ _ => hasks.mpr h⟩⟩
    · refine iff_of_true ⟨hnot, fun h => absurd h hone⟩ ?_
      exact Or.inr (htake.resolve_left hone)
  · -- it rests, and nothing was asked before the first firing
    obtain ⟨hflag, hasks⟩ := hcase
    obtain ⟨hone, hrest⟩ := not_or.mp htake
    have harmed : S.Armed := (Process.timerAdvanceRound_cases h.timers hf).2.1
    have hstale : S'.Stale S.process.wall := by
      intro t ht
      rw [hasked, if_neg hasks, hask (h.armed.mp harmed)] at ht
      cases ht
    rw [hflag, if_neg hone]
    constructor
    · rintro ⟨h, -⟩
      by_contra hno
      exact h (Or.inr ⟨(not_or.mp hno).1, hstale⟩)
    · intro h
      refine ⟨?_, fun h => absurd h hone⟩
      rintro (hon | ⟨hc, -⟩)
      · exact hone hon
      · exact hc (h.resolve_right hrest)

theorem Listed.connected_iff (hs : S.step (.cloud .connected) = some S') :
    (S'.Kept ∧ S.Answers S') ↔ S.Armed := by
  have he : S'.process = S.process.eventHandler .connected :=
    (Option.some.inj (step_spec hs).1).symm
  rw [Answers, Kept, Owed, Armed, he]
  exact ⟨fun h => h.1 (Or.inl rfl), fun h => ⟨fun _ => h, fun _ h => absurd rfl h⟩⟩

theorem Listed.kept_of_disconnected (hs : S.step (.cloud .disconnected) = some S') (hS : S.Kept) :
    S'.Kept ∧ S.Answers S' := by
  have he : S'.process = S.process.eventHandler .disconnected :=
    (Option.some.inj (step_spec hs).1).symm
  rw [Answers, Kept, Owed, Armed, he]
  refine ⟨?_, fun hon hoff => absurd hon hoff⟩
  rintro (hon | ⟨hc, -⟩)
  · exact hS (Or.inl hon)
  · exact absurd rfl hc

theorem Listed.pass_iff {ms : ℕ} {wall : ℤ} (h : S.Settled)
    (hs : S.step (.pass ms wall) = some S') (hS : S.Kept) :
    (S'.Kept ∧ S.Answers S') ↔ S.Timely (.pass ms wall) := by
  have he := (Option.some.inj (step_spec hs).1).symm
  have hasked := asked_of_sent hs (by rw [he])
  have hstale : S'.Stale wall ↔ S.Stale wall := by rw [Stale, Stale, hasked]
  have harmed : S'.Armed ↔ S.fired = false := by rw [Armed, he, ← h.armed, Armed]
  rw [Timely, Answers, Kept, harmed, Owed, he, hstale]
  constructor
  · rintro ⟨h, -⟩ hfired
    by_contra hno
    obtain ⟨hc, hst⟩ := not_or.mp hno
    rw [h (Or.inr ⟨hc, not_not.mp hst⟩)] at hfired
    exact absurd hfired (by decide)
  · intro htimely
    refine ⟨?_, fun hon hoff => absurd hon hoff⟩
    rintro (hon | ⟨hc, hst⟩)
    · exact h.armed.mp (hS (Or.inl hon))
    · by_contra hfired
      rcases htimely (Bool.eq_true_of_not_eq_false hfired) with hno | hno
      · exact hc hno
      · exact hno hst

/-- A step keeps the promise and answers the flag exactly when its event is timely. -/
theorem Listed.step_iff (h : S.Settled) (hask : S.fired = false → S.asked = none) (hS : S.Kept)
    (hop : e.OnCloud) (hs : S.step e = some S') : (S'.Kept ∧ S.Answers S') ↔ S.Timely e := by
  obtain ⟨hp, -⟩ := step_spec hs
  cases e with
  | op | gwInfo | push => exact hop.elim
  | fire env =>
    obtain ⟨⟨timer, timers⟩, hf, -⟩ := Option.bind_eq_some_iff.mp hp
    by_cases ht : timer = .syncList
    · subst ht
      exact fire_syncList_iff h hask hf hs
    · obtain ⟨-, hrests⟩ := Process.fire_rests h.timers ht hf hp
      refine iff_of_true (kept_of_rests hrests hs hS) ?_
      intro hfires
      exact absurd ((Process.firesList_iff hf).mp hfires) ht
  | cloud c =>
    cases c with
    | connected => exact (connected_iff hs).trans h.armed
    | disconnected => exact iff_of_true (kept_of_disconnected hs hS) trivial
  | pass ms wall => exact pass_iff h hs hS

/-- In every run after `afly_init` whose events are timely, the timer of the list is armed whenever
a synchronisation is owed, and each further step keeps this and answers a flag that it takes
exactly when its event is timely. -/
theorem sync_armed {p p₀ : Process M} {env : Env} {cloud : List CloudEvent} (hfresh : p.Fresh)
    (hinit : p.aflyInit env cloud = some p₀)
    (hr : Reachable Listed.step (fun S e => e.OnCloud ∧ S.Timely e) (.start p₀) S) :
    S.Kept ∧ ∀ e S', e.OnCloud → S.step e = some S' → ((S'.Kept ∧ S.Answers S') ↔ S.Timely e) := by
  have hsettled := never_armed_again hfresh hinit (hr.mono fun _ _ _ => trivial)
  have h₀ : (Listed.start p₀).Settled := Listed.settled_start hfresh hinit
  obtain ⟨-, hask, hS⟩ := hr.invariant
    (I := fun S => S.Settled ∧ (S.fired = false → S.asked = none) ∧ S.Kept)
    ⟨h₀, fun _ => rfl, fun _ => h₀.armed.mpr rfl⟩ (by
      rintro S e S' ⟨h, hask, hS⟩ ⟨hop, htimely⟩ hs
      exact ⟨Listed.settled_step h hs, Listed.unasked_step h.timers hop hask hs,
        ((Listed.step_iff h hask hS hop hs).mpr htimely).1⟩)
  exact ⟨hS, fun e S' hop hs => Listed.step_iff hsettled hask hS hop hs⟩

end Steps

theorem Listed.timely_of_flag {S : Listed M} {env : Env} (hon : S.process.connectChangeOn = 1)
    (hc : S.process.connected = 1) : S.Timely (.fire env) := by
  intro _
  rw [if_pos hon, hc]
  exact one_ne_zero

/-- The gateway connects while it starts, and its timer waits for two seconds. Its firing asks for
the list, and leaves nothing to wait for. -/
theorem sync_armed_connected : ∃ (p₀ : Process ℕ) (S S' : Listed ℕ),
    Process.boot.aflyInit .quiet [.connected] = some p₀ ∧
      run Listed.step (.start p₀) [.pass 2000 1500000002, .fire .quiet] = some S ∧
      S.Owed ∧ S.Armed ∧
      S.step (.fire .quiet) = some S' ∧ S'.fired = true ∧ ¬ S'.Owed := by
  have hplay : ((Process.boot : Process ℕ).aflyInit .quiet [.connected]).bind (fun p₀ =>
      ((Listed.start p₀).step (.pass 2000 1500000002)).bind fun S₁ =>
      (S₁.step (.fire .quiet)).bind fun S₂ => (S₂.step (.fire .quiet)).map fun S₃ =>
        [S₁.process.connectChangeOn, S₁.process.connected, S₂.process.connectChangeOn,
          S₂.process.connected, S₃.fired.toNat, S₃.process.timers.time .syncList]) =
      some [1, 1, 1, 1, 1, 0] := by decide +kernel
  obtain ⟨p₀, hinit, hplay⟩ := Option.bind_eq_some_iff.mp hplay
  obtain ⟨S₁, h₁, hplay⟩ := Option.bind_eq_some_iff.mp hplay
  obtain ⟨S₂, h₂, hplay⟩ := Option.bind_eq_some_iff.mp hplay
  obtain ⟨S₃, h₃, ho⟩ := Option.map_eq_some_iff.mp hplay
  simp only [List.cons.injEq, and_true] at ho
  obtain ⟨hon₁, hc₁, hon₂, hc₂, hfired, htime⟩ := ho
  have hpass : LoopEvent.OnCloud (.pass 2000 1500000002 : LoopEvent ℕ) := trivial
  have hfire : LoopEvent.OnCloud (.fire .quiet : LoopEvent ℕ) := trivial
  have hr₁ : Reachable Listed.step (fun S e => e.OnCloud ∧ S.Timely e) (.start p₀) S₁ :=
    .next .start ⟨hpass, fun h => absurd h Bool.false_ne_true⟩ h₁
  have hr₂ := hr₁.next ⟨hfire, Listed.timely_of_flag hon₁ hc₁⟩ h₂
  have hr₃ := hr₂.next ⟨hfire, Listed.timely_of_flag hon₂ hc₂⟩ h₃
  have hkept₂ := (sync_armed Process.fresh_boot hinit hr₂).1
  have hkept₃ := (sync_armed Process.fresh_boot hinit hr₃).1
  refine ⟨p₀, S₂, S₃, hinit, by simp [run, h₁, h₂], Or.inl hon₂, hkept₂ (Or.inl hon₂), h₃, ?_, ?_⟩
  · cases hf : S₃.fired with
    | true => rfl
    | false => simp [hf] at hfired
  · exact fun howed => hkept₃ howed (Nat.cast_eq_zero.mp htime)

/-- A second connection finds a timer that fired once and was not armed again. -/
theorem reconnect_waits_for_nothing : ¬ ∀ (p p₀ : Process ℕ) (env : Env) (cloud : List CloudEvent)
    (S : Listed ℕ), p.Fresh → p.aflyInit env cloud = some p₀ →
      Reachable Listed.step (fun _ e => e.OnCloud) (.start p₀) S → S.Kept := by
  intro h
  obtain ⟨p₀, hinit, ho⟩ : ∃ p₀ : Process ℕ,
      Process.boot.aflyInit .quiet [.connected] = some p₀ ∧
      (run Listed.step (.start p₀) [.pass 2000 1500000002, .fire .quiet, .fire .quiet,
        .cloud .disconnected, .cloud .connected]).map (fun S =>
          (S.process.timers.time .syncList, S.process.connectChangeOn)) = some (0, 1) :=
    Option.map_eq_some_iff.mp (by decide +kernel)
  obtain ⟨S, hS, ho⟩ := Option.map_eq_some_iff.mp ho
  obtain ⟨htime, hon⟩ := Prod.mk.inj ho
  refine h _ _ _ _ S Process.fresh_boot hinit
    (reachable_of_run hS (by simp [LoopEvent.OnCloud]) .start) (Or.inl hon) htime

end Afly
