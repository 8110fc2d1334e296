import Afly.Lib.Reach
import Afly.Loop.Timers

/-! # Messages for the bus

`uproto_push_msg` puts a message into the queue and arms the queue's timer, and
each firing of the timer hands over one message and arms the timer again. The
messages that were pushed are those handed over followed by those that wait.
-/

namespace Afly

open Reach

variable {M : Type}

structure Mailed (M : Type) where
  process : Process M
  pushed : List M

def Mailed.after (S : Mailed M) : LoopEvent M → List M
  | .push _ m => S.pushed ++ [m]
  | _ => S.pushed

def Mailed.step (S : Mailed M) (e : LoopEvent M) : Option (Mailed M) :=
  (S.process.step e).map fun p => ⟨p, S.after e⟩

/-- The queue holds the messages `waiting`, the oldest at its tail. -/
structure Process.Holds (p : Process M) (waiting : List M) : Prop where
  queue : ∃ nodes, p.msgq.Represents nodes
    (waiting.reverse.map fun m => ⟨ueSendMsg, some m⟩)
  timers : p.timers.WellFormed

/-- The timer of the queue is armed when messages wait. -/
structure Process.Queues (p : Process M) (waiting : List M) : Prop extends p.Holds waiting where
  armed : waiting ≠ [] → p.timers.time .uprotoStep ≠ 0

/-- The messages of the run are those handed over and then those in the queue. -/
def Mailed.Invariant (S : Mailed M) : Prop :=
  ∃ waiting, S.process.Queues waiting ∧ S.pushed = S.process.handed ++ waiting

namespace Process

variable {p p' : Process M} {waiting : List M} {item : ℕ} {m : M} {env : Env}
  {timers : TimerHead TimerRef}

theorem Holds.size (h : p.Holds waiting) : p.msgq.size = waiting.length := by
  obtain ⟨nodes, hq⟩ := h.queue
  rw [hq.size, hq.length_eq]
  simp

theorem Queues.congr (h : p.Queues waiting) (hq : p'.msgq = p.msgq) (hw : p'.timers.WellFormed)
    (ht : p'.timers.time .uprotoStep = p.timers.time .uprotoStep) : p'.Queues waiting where
  queue := by rw [hq]; exact h.queue
  timers := hw
  armed := by rw [ht]; exact h.armed

theorem uprotoStep_queues (h : p.Holds waiting) : ∃ timers,
    p.uprotoStep = some { p with timers := timers } ∧
      { p with timers := timers }.Queues waiting := by
  obtain ⟨timers, hs, hw, ht⟩ := uprotoStep_spec h.timers
  refine ⟨timers, hs, ⟨h.queue, hw⟩, ?_⟩
  intro _
  rw [ht, Function.update_self]
  simp

theorem uprotoPushMsg_spec (h : p.Holds waiting) (hfree : p.msgq.heap item = none) (m : M) :
    ∃ p', p.uprotoPushMsg item ueSendMsg (some m) = some p' ∧ p'.Queues (waiting ++ [m]) ∧
      p'.handed = p.handed ∧ p'.world = p.world := by
  obtain ⟨nodes, hq⟩ := h.queue
  obtain ⟨msgq, hpush, hr⟩ := StList.lockqueuePush_spec hq hfree ⟨ueSendMsg, some m⟩
  have hholds : { p with msgq := msgq }.Holds (waiting ++ [m]) := by
    refine ⟨⟨item :: nodes, ?_⟩, h.timers⟩
    rw [List.reverse_append, List.reverse_singleton, List.singleton_append, List.map_cons]
    exact hr
  obtain ⟨timers, hs, hqueues⟩ := uprotoStep_queues hholds
  refine ⟨_, ?_, hqueues, rfl, rfl⟩
  rw [uprotoPushMsg, hpush, Option.bind_some, hs]

theorem uprotoPushMsg_free {eid : ℤ} {param : Option M}
    (h : p.uprotoPushMsg item eid param = some p') : p.msgq.heap item = none := by
  obtain ⟨msgq, hpush, -⟩ := Option.bind_eq_some_iff.mp h
  by_contra hn
  obtain ⟨node, hnode⟩ := Option.ne_none_iff_exists'.mp hn
  rw [StList.lockqueuePush, StList.listPushFront, hnode] at hpush
  cases hpush

theorem uprotoRun_spec (h : p.Holds waiting) : ∃ p', p.uprotoRun = some p' ∧
    p'.Queues waiting.tail ∧ p'.handed = p.handed ++ waiting.head?.toList ∧
    p'.world = p.world := by
  obtain ⟨nodes, hq⟩ := h.queue
  cases waiting with
  | nil =>
    refine ⟨p, ?_, ⟨h, fun hn => absurd rfl hn⟩, by simp, rfl⟩
    rw [uprotoRun, StList.lockqueuePop_nil hq]
    rfl
  | cons m waiting =>
    rw [List.reverse_cons, List.map_append] at hq
    obtain ⟨msgq, nodes', hpop, hr⟩ := StList.lockqueuePop_spec hq
    have hholds : { p with msgq := msgq, handed := p.handed ++ [m] }.Holds waiting :=
      ⟨⟨nodes', hr⟩, h.timers⟩
    obtain ⟨timers, hs, hqueues⟩ := uprotoStep_queues hholds
    refine ⟨_, ?_, hqueues, rfl, rfl⟩
    rw [uprotoRun, hpop]
    exact hs

variable (env) in
theorem fire_uprotoStep (h : p.Queues waiting)
    (hf : p.timers.timerAdvanceRound p.now = some (.uprotoStep, timers)) : ∃ p',
      p.fire env = some p' ∧ p'.Queues waiting.tail ∧
      p'.handed = p.handed ++ waiting.head?.toList ∧ p'.world = p.world := by
  obtain ⟨hw, -⟩ := timerAdvanceRound_cases h.timers hf
  rw [fire, hf]
  exact uprotoRun_spec (p := { p with timers := timers }) ⟨h.queue, hw⟩

theorem handle_queues {handler : Env → World → Option World} (h : p.Queues waiting)
    (hs : p.handle env handler = some p') : p'.Queues waiting ∧ p'.handed = p.handed := by
  obtain ⟨hw, ht⟩ := handle_timers h.timers hs
  obtain ⟨w, timers, -, rfl, -⟩ := handle_spec h.timers hs
  exact ⟨h.congr rfl hw (ht _ (by decide)), rfl⟩

theorem fire_other {timer : TimerRef} (h : p.Queues waiting) (hne : timer ≠ .uprotoStep)
    (hf : p.timers.timerAdvanceRound p.now = some (timer, timers)) (hs : p.fire env = some p') :
    p'.Queues waiting ∧ p'.handed = p.handed := by
  obtain ⟨hw, -, -, -, ht⟩ := timerAdvanceRound_cases h.timers hf
  have hkeep : timers.time .uprotoStep = p.timers.time .uprotoStep := by
    rw [ht, Function.update_of_ne hne.symm]
  have hq : { p with timers := timers }.Queues waiting := h.congr rfl hw hkeep
  rw [fire, hf, Option.bind_some] at hs
  cases timer with
  | uprotoStep => exact absurd rfl hne
  | syncList =>
    obtain ⟨timers', hc, hw', ht'⟩ :=
      timerCancel_spec (p := { p with timers := timers }) .syncList hw
    dsimp only at hs
    rw [aflyHandlerSyncListRun, hc, Option.map_some] at hs
    have hkeep' : timers'.time .uprotoStep = timers.time .uprotoStep := by
      rw [ht', Function.update_of_ne (by decide)]
    split at hs <;> (cases hs; exact ⟨hq.congr rfl hw' hkeep', rfl⟩)
  | task => exact handle_queues (p := { p with timers := timers }) hq hs

end Process

section Runs

variable {S S' : Mailed M} {e : LoopEvent M}

theorem Mailed.invariant_step (h : S.Invariant) (hs : S.step e = some S') : S'.Invariant := by
  obtain ⟨waiting, hq, hpushed⟩ := h
  obtain ⟨p, hp, rfl⟩ := Option.map_eq_some_iff.mp hs
  cases e with
  | push item m =>
    obtain ⟨p', hp', hq', hh, -⟩ :=
      Process.uprotoPushMsg_spec hq.toHolds (Process.uprotoPushMsg_free hp) m
    cases hp.symm.trans hp'
    refine ⟨_, hq', ?_⟩
    dsimp only [Mailed.after]
    rw [hpushed, hh, List.append_assoc]
  | cloud c =>
    cases hp
    cases c <;> exact ⟨waiting, hq.congr rfl hq.timers rfl, hpushed⟩
  | pass ms wall =>
    cases hp
    exact ⟨waiting, hq.congr rfl hq.timers rfl, hpushed⟩
  | fire env =>
    obtain ⟨⟨timer, timers⟩, hf, -⟩ := Option.bind_eq_some_iff.mp hp
    by_cases ht : timer = .uprotoStep
    · subst ht
      obtain ⟨p', hp', hq', hh, -⟩ := Process.fire_uprotoStep env hq hf
      cases hp.symm.trans hp'
      refine ⟨_, hq', ?_⟩
      dsimp only [Mailed.after]
      rw [hpushed, hh]
      cases waiting <;> simp
    · obtain ⟨hq', hh⟩ := Process.fire_other hq ht hf hp
      refine ⟨waiting, hq', ?_⟩
      dsimp only [Mailed.after]
      rw [hpushed, hh]
  | op env op =>
    have hp : S.process.handle env (fun env w => w.step (env, op)) = some p := hp
    obtain ⟨hq', hh⟩ := Process.handle_queues hq hp
    exact ⟨waiting, hq', by rw [hh]; exact hpushed⟩
  | gwInfo env =>
    have hp : S.process.handle env (fun env w => w.gwInfoFunc env 0) = some p := hp
    obtain ⟨hq', hh⟩ := Process.handle_queues hq hp
    exact ⟨waiting, hq', by rw [hh]; exact hpushed⟩

/-- In every run of pushes, firings and other events the messages handed over are the first ones
that were pushed, all others are in the queue, and while there are any its timer is armed. A push
with a free node and a firing of the timer always end, the push handing over nothing and the firing
the next message. -/
theorem messages_in_order {p₀ : Process M} (hq : p₀.msgq = .init) (hh : p₀.handed = [])
    (ht : p₀.timers.WellFormed)
    (hr : Reachable Mailed.step (fun _ _ => True) ⟨p₀, []⟩ S) :
    S.process.handed <+: S.pushed ∧
    S.process.handed.length + S.process.msgq.size = S.pushed.length ∧
    (S.process.msgq.size ≠ 0 → S.process.timers.time .uprotoStep ≠ 0) ∧
    (∀ item m, S.process.msgq.heap item = none → ∃ S', S.step (.push item m) = some S' ∧
      S'.process.handed = S.process.handed ∧ S'.process.world = S.process.world) ∧
    ∀ env timers, S.process.timers.timerAdvanceRound S.process.now =
        some (.uprotoStep, timers) → ∃ S', S.step (.fire env) = some S' ∧
      S'.process.handed = S.pushed.take (S.process.handed.length + 1) ∧
      S'.process.world = S.process.world := by
  have hstart : (⟨p₀, []⟩ : Mailed M).Invariant := by
    refine ⟨[], ⟨⟨⟨[], ?_⟩, ht⟩, fun hn => absurd rfl hn⟩, ?_⟩
    · rw [hq]
      exact StList.represents_init
    · rw [hh, List.append_nil]
  obtain ⟨waiting, hI, hpushed⟩ :=
    hr.invariant hstart fun _ _ _ h _ hs => Mailed.invariant_step h hs
  refine ⟨⟨waiting, hpushed.symm⟩, ?_, ?_, ?_, ?_⟩
  · rw [hI.size, hpushed, List.length_append, Nat.cast_add]
  · intro hsize
    refine hI.armed ?_
    rintro rfl
    exact hsize hI.size
  · intro item m hfree
    obtain ⟨p', hp', -, hhanded, hworld⟩ := Process.uprotoPushMsg_spec hI.toHolds hfree m
    exact ⟨_, Option.map_eq_some_iff.mpr ⟨p', hp', rfl⟩, hhanded, hworld⟩
  · intro env timers hf
    obtain ⟨p', hp', -, hhanded, hworld⟩ := Process.fire_uprotoStep env hI hf
    refine ⟨_, Option.map_eq_some_iff.mpr ⟨p', hp', rfl⟩, ?_, hworld⟩
    rw [hhanded, hpushed, List.take_length_add_append]
    cases waiting <;> simp

/-- Two messages are pushed, and the timer fires once. -/
theorem messages_in_order_two : ∃ S : Mailed ℕ, run Mailed.step ⟨.boot, []⟩
      [.push 0 10, .pass 4 1500000000, .push 1 20, .pass 10 1500000000, .fire .quiet] = some S ∧
    S.process.handed = [10] ∧ S.process.handed <+: S.pushed ∧ S.process.msgq.size = 1 ∧
    S.process.timers.time .uprotoStep ≠ 0 := by
  obtain ⟨S, hS, ho⟩ : ∃ S, run Mailed.step ⟨.boot, []⟩
      [.push 0 10, .pass 4 1500000000, .push 1 20, .pass 10 1500000000, .fire .quiet] = some S ∧
      (S.process.handed, S.process.msgq.size) = ([10], 1) :=
    Option.map_eq_some_iff.mp (by decide +kernel)
  obtain ⟨hh, hsize⟩ := Prod.mk.inj ho
  have hreach : Reachable Mailed.step (fun _ _ => True) ⟨.boot, []⟩ S :=
    reachable_of_run hS (by simp) .start
  obtain ⟨hpre, -, harmed, -⟩ := messages_in_order rfl rfl TimerHead.wellFormed_init hreach
  exact ⟨S, hS, hh, hpre, hsize, harmed (by rw [hsize]; decide)⟩

end Runs

end Afly
