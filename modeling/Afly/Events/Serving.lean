import Afly.Events.MainLoop

/-! # What happens in the main loop

In every run, whatever the handlers do, the table of files is the map that its
calls made, each handler that is called for a file is one that is registered for
it at that moment, and a registration that is left alone while files are served
gets exactly the calls that its events ask for. Timers are called when they are
due, the earliest first, and the wait for files ends no later than the next of
them is due.
-/

namespace Afly

open Directory Reach FileEventTable

section Laws

variable {H A P : Type*}

/-- What is said of one thing that happened in the table of files, by what happened before it. -/
def LoopRecord.FileLaw [DecidableEq A] (before : List (LoopRecord H A P)) :
    LoopRecord H A P → Prop
  | .filed op ret => ret = ((watched before).operate op).2
  | .called c => c.fd < 0 ∨ ∃ r, watched before (c.fd, c.arg) = some r ∧ r.Makes c
  | .returned rc => ∃ during now timeoutMs ready before',
    before = during ++ .polled now timeoutMs ready :: before' ∧ (∀ e ∈ during, e.inside) ∧
      (ready = none → rc = -1 ∧ during = []) ∧ ∀ answer ∈ ready, rc = 0 ∧
        (∀ k r, watched before' k = some r → Untouched k during →
          (callsFor k during).reverse = r.calls (answer k.1 r.events)) ∧
        (NoneLeft during → ∀ c, .called c ∈ during → watched before' (c.fd, c.arg) ≠ none)
  | _ => True

/-- What is said of one thing that happened with the timers. -/
def LoopRecord.TimerLaw [DecidableEq P] (before : List (LoopRecord H A P)) :
    LoopRecord H A P → Prop
  | .fired timer now => ∃ time, due before timer = some time ∧ time ≤ now ∧
    ∀ timer' time', due before timer' = some time' → time ≤ time'
  | .polled now timeoutMs _ => 0 < timeoutMs ∧
    (∀ timer time, due before timer = some time → now + timeoutMs ≤ time) ∧
    (timeoutMs = int32Max ∨ ∃ timer, due before timer = some (now + timeoutMs))
  | _ => True

def Always (law : List (LoopRecord H A P) → LoopRecord H A P → Prop)
    (trace : List (LoopRecord H A P)) : Prop :=
  ∀ later e before, trace = later ++ e :: before → law before e

theorem always_cons {law : List (LoopRecord H A P) → LoopRecord H A P → Prop}
    {e : LoopRecord H A P} {trace : List (LoopRecord H A P)} (he : law trace e)
    (h : Always law trace) : Always law (e :: trace) := by
  rintro (_ | ⟨e', later⟩) e₁ before heq
  · cases heq
    exact he
  · rw [List.cons_append, List.cons.injEq] at heq
    exact h later e₁ before heq.2

end Laws

section Words

variable {H A P : Type*} {k : ℤ × A} {new new' : List (LoopRecord H A P)}

theorem untouched_append : Untouched k (new' ++ new) ↔ Untouched k new' ∧ Untouched k new := by
  simp only [Untouched, List.mem_append]
  exact ⟨fun h => ⟨fun op ret hm => h op ret (Or.inl hm), fun op ret hm => h op ret (Or.inr hm)⟩,
    fun h op ret hm => hm.elim (h.1 op ret) (h.2 op ret)⟩

theorem noneLeft_append : NoneLeft (new' ++ new) ↔ NoneLeft new' ∧ NoneLeft new := by
  simp only [NoneLeft, List.mem_append, not_or]
  exact ⟨fun h => ⟨fun fd arg ret => (h fd arg ret).1, fun fd arg ret => (h fd arg ret).2⟩,
    fun h fd arg ret => ⟨h.1 fd arg ret, h.2 fd arg ret⟩⟩

theorem callsFor_append [DecidableEq A] :
    callsFor k (new' ++ new) = callsFor k new' ++ callsFor k new := List.filterMap_append

theorem callsFor_eq_nil [DecidableEq A] (h : ∀ c, .called c ∉ new) : callsFor k new = [] := by
  refine List.filterMap_eq_nil_iff.mpr fun e he => ?_
  cases e with
  | called c => exact absurd he (h c)
  | filed | set | cancelled | fired | polled | returned => rfl

end Words

namespace FileEvent

variable {H A : Type*} {r : FileEvent H A} {revents bit : BitVec 16} {func : Option H}

theorem calls_eventf {eventf : H}
    (h : (if revents &&& r.events ≠ 0 then r.state.eventf else none) = some eventf) :
    r.calls revents = [⟨eventf, r.state.arg, r.fd, some revents⟩] := by
  rw [calls, h]

theorem calls_offered (h : (if revents &&& r.events ≠ 0 then r.state.eventf else none) = none) :
    r.calls revents = r.offered revents pollIn r.state.recv ++
      r.offered revents pollOut r.state.send := by
  rw [calls, h]

theorem reverse_offered : (r.offered revents bit func).reverse = r.offered revents bit func := by
  unfold offered
  cases (if revents &&& bit ≠ 0 then func else none) <;> rfl

theorem calls_zero (r : FileEvent H A) : r.calls 0 = [] := by
  simp [calls, offered]

theorem Makes.key_eq {c : EventCall H A} (hc : r.Makes c) :
    r.key = if c.fd < 0 then none else some (c.fd, c.arg) := by
  rw [key, hc.1, hc.2.1]

end FileEvent

namespace MainLoop

variable {H A P σ : Type*} [DecidableEq A] [DecidableEq P] [Fintype P]
  {s s' s'' : MainLoop H A P σ} {new new' : List (LoopRecord H A P)} {k : ℤ × A}
  {i j : Fin pollEventNfd}

/-- What was done to the table and the timers is what they hold. -/
structure Sound (s : MainLoop H A P σ) : Prop where
  files : Represents FileEvent.key s.fet.row (watched s.trace)
  timers : s.th.WellFormed
  armed : ∀ timer, due s.trace timer = if s.th.time timer = 0 then none else some (s.th.time timer)
  fileLaw : Always LoopRecord.FileLaw s.trace
  timerLaw : Always LoopRecord.TimerLaw s.trace

/-- What handlers do to the loop, apart from what they do on purpose. -/
structure Extends (s s' : MainLoop H A P σ) (new : List (LoopRecord H A P)) : Prop where
  trace : s'.trace = new ++ s.trace
  inside : ∀ e ∈ new, e.inside
  phase : s'.phase = s.phase
  now : s.now ≤ s'.now
  revents : ∀ i, (s'.fet.poll i).revents = (s.fet.poll i).revents
  rows : ∀ i k, (s.fet.row i).key = some k → Untouched k new → s'.fet.row i = s.fet.row i
  keys : ∀ i, NoneLeft new → (s.fet.row i).key ≠ none → (s'.fet.row i).key = (s.fet.row i).key

omit [DecidableEq A] [DecidableEq P] [Fintype P] in
theorem Extends.refl (s : MainLoop H A P σ) : s.Extends s [] :=
  ⟨rfl, nofun, rfl, le_rfl, fun _ => rfl, fun _ _ _ _ => rfl, fun _ _ _ => rfl⟩

omit [DecidableEq A] [DecidableEq P] [Fintype P] in
theorem extends_note {e : LoopRecord H A P} (th : TimerHead P) (he : e.inside) :
    s.Extends ({ s with th := th }.note e) [e] where
  trace := rfl
  inside e' he' := by
    rw [List.mem_singleton.mp he']
    exact he
  phase := rfl
  now := le_rfl
  revents _ := rfl
  rows _ _ _ _ := rfl
  keys _ _ _ := rfl

omit [DecidableEq A] [DecidableEq P] [Fintype P] in
theorem Extends.trans (h : s.Extends s' new) (h' : s'.Extends s'' new') :
    s.Extends s'' (new' ++ new) where
  trace := by rw [h'.trace, h.trace, List.append_assoc]
  inside e he := (List.mem_append.mp he).elim (h'.inside e) (h.inside e)
  phase := h'.phase.trans h.phase
  now := h.now.trans h'.now
  revents i := (h'.revents i).trans (h.revents i)
  rows i k hi hk := by
    obtain ⟨hk', hk⟩ := untouched_append.mp hk
    have hrow := h.rows i k hi hk
    rw [h'.rows i k (hrow ▸ hi) hk', hrow]
  keys i hn hi := by
    obtain ⟨hn', hn⟩ := noneLeft_append.mp hn
    have hkey := h.keys i hn hi
    rw [h'.keys i hn' (hkey ▸ hi), hkey]

omit [DecidableEq A] [Fintype P] in
theorem armed_update {th : TimerHead P} {timer : P} {time : ℕ}
    (h : ∀ p, due s.trace p = if s.th.time p = 0 then none else some (s.th.time p))
    (htime : th.time = Function.update s.th.time timer time) (p : P) :
    Function.update (due s.trace) timer (if time = 0 then none else some time) p =
      if th.time p = 0 then none else some (th.time p) := by
  by_cases hp : p = timer
  · subst hp
    simp [htime]
  · simp [htime, hp, h]

theorem act_spec (h : s.Sound) (a : Action H A P) : ∃ s' new, s.act a = some s' ∧ s'.Sound ∧
    s.Extends s' new ∧ ∀ c, .called c ∉ new := by
  obtain ⟨l, hl⟩ := h.timers
  cases a with
  | file op =>
    obtain ⟨hfiles, hret⟩ := operate_spec h.files op
    refine ⟨_, [.filed op (s.fet.operate op).2], rfl, ⟨hfiles, h.timers, h.armed,
      always_cons hret h.fileLaw, always_cons trivial h.timerLaw⟩, ⟨rfl, ?_, rfl, le_rfl, ?_, ?_,
      ?_⟩, by simp⟩
    · simp [LoopRecord.inside]
    · exact fun i => revents_operate op
    · intro i k hi hk
      exact row_operate h.files hi (hk op _ List.mem_cons_self)
    · intro i hn hi
      refine key_operate h.files ?_ hi
      rintro fd arg rfl
      exact hn fd arg _ List.mem_cons_self
  | timerSet timer ms =>
    obtain ⟨th, l', hset, hl', htime⟩ :=
      TimerHead.timerSet_spec timer hl hl.length_le (Nat.add_pos_left s.ticking ms)
    refine ⟨{ s with th := th }.note (.set timer (s.now + ms)), [.set timer (s.now + ms)],
      by rw [act, hset]; rfl, ⟨h.files, ⟨l', hl'⟩, ?_,
      always_cons trivial h.fileLaw, always_cons trivial h.timerLaw⟩, extends_note th rfl, by simp⟩
    have harmed := armed_update h.armed htime
    rw [if_neg (Nat.add_pos_left s.ticking ms).ne'] at harmed
    exact harmed
  | timerCancel timer =>
    obtain ⟨th, hcancel, hl', htime⟩ := TimerHead.timerCancel_spec timer hl hl.length_le
    refine ⟨{ s with th := th }.note (.cancelled timer), [.cancelled timer],
      by rw [act, hcancel]; rfl, ⟨h.files, ⟨_, hl'⟩, ?_,
      always_cons trivial h.fileLaw, always_cons trivial h.timerLaw⟩, extends_note th rfl, by simp⟩
    exact armed_update h.armed htime
  | work ms =>
    exact ⟨_, [], rfl, ⟨h.files, h.timers, h.armed, h.fileLaw, h.timerLaw⟩, ⟨rfl, nofun, rfl,
      Nat.le_add_right .., fun _ => rfl, fun _ _ _ _ => rfl, fun _ _ _ => rfl⟩, nofun⟩

theorem foldlM_act_spec (l : List (Action H A P)) (h : s.Sound) : ∃ s' new,
    l.foldlM act s = some s' ∧ s'.Sound ∧ s.Extends s' new ∧ ∀ c, .called c ∉ new := by
  induction l generalizing s with
  | nil => exact ⟨s, [], rfl, h, .refl s, nofun⟩
  | cons a l ih =>
    obtain ⟨s₁, new₁, hact, h₁, he₁, hc₁⟩ := act_spec h a
    obtain ⟨s₂, new₂, hfold, h₂, he₂, hc₂⟩ := ih h₁
    refine ⟨s₂, new₂ ++ new₁, ?_, h₂, he₁.trans he₂, fun c hc => ?_⟩
    · rw [List.foldlM_cons, hact]
      exact hfold
    · exact (List.mem_append.mp hc).elim (hc₂ c) (hc₁ c)

variable (serve : Cause H A P → MainLoop H A P σ → σ × List (Action H A P))

theorem handle_spec (h : s.Sound) (c : Cause H A P) : ∃ s' new,
    s.handle serve c = some s' ∧ s'.Sound ∧ s.Extends s' new ∧ ∀ c, .called c ∉ new := by
  have hown : Sound { s with own := (serve c s).1 } :=
    ⟨h.files, h.timers, h.armed, h.fileLaw, h.timerLaw⟩
  obtain ⟨s', new, hfold, h', he, hc⟩ := foldlM_act_spec (serve c s).2 hown
  exact ⟨s', new, hfold, h', ⟨he.trace, he.inside, he.phase, he.now, he.revents, he.rows, he.keys⟩,
    hc⟩

omit [DecidableEq P] [Fintype P] in
theorem callFor_row {m : Watched H A} {fet : FileEventTable H A}
    (h : Represents FileEvent.key fet.row m) (hj : (fet.row j).key = some k) {c : EventCall H A}
    (hc : (fet.row i).Makes c) :
    LoopRecord.callFor (P := P) k (.called c) = if j = i then some c else none := by
  have hrow : (c.fd, c.arg) = k ↔ (fet.row i).key = some k := by
    rw [hc.key_eq]
    split_ifs with hneg
    · constructor
      · rintro rfl
        exact absurd (key_row_eq_some_iff.mp hj).1 (not_le.mpr hneg)
      · intro he
        cases he
    · rw [Option.some.injEq]
  have hsame : (c.fd, c.arg) = k ↔ j = i :=
    ⟨fun he => h.distinct j i k hj (hrow.mp he), fun he => hrow.mpr (he ▸ hj)⟩
  simp only [LoopRecord.callFor, hsame]

omit [Fintype P] in
theorem Sound.called (h : s.Sound) {c : EventCall H A} (hc : (s.fet.row i).Makes c) :
    LoopRecord.FileLaw s.trace (.called c) := by
  by_cases hneg : c.fd < 0
  · exact Or.inl hneg
  · exact Or.inr ⟨s.fet.row i, h.files.listed i _ (hc.key_eq.trans (if_neg hneg)), hc⟩

theorem call_spec (h : s.Sound) {c : EventCall H A} (hc : (s.fet.row i).Makes c) : ∃ s' new,
    s.call serve c = some s' ∧ s'.Sound ∧ s.Extends s' (new ++ [.called c]) ∧
      ∀ c, .called c ∉ new := by
  have hnoted : (s.note (.called c)).Sound := ⟨h.files, h.timers, h.armed,
    always_cons (h.called hc) h.fileLaw, always_cons trivial h.timerLaw⟩
  obtain ⟨s', new, hcall, h', he, hnone⟩ := handle_spec serve hnoted (.file c)
  exact ⟨s', new, hcall, h', (extends_note s.th rfl).trans he, hnone⟩

omit [Fintype P] in
theorem callsFor_called (h : s.Sound) {c : EventCall H A} (hc : (s.fet.row i).Makes c)
    (hnew : ∀ c, .called c ∉ new) (hj : (s.fet.row j).key = some k) :
    callsFor k (new ++ [.called c]) = if j = i then [c] else [] := by
  rw [callsFor_append, callsFor_eq_nil hnew, List.nil_append, callsFor, List.filterMap_cons,
    callFor_row h.files hj hc]
  split_ifs <;> rfl

theorem offer_spec (h : s.Sound) (revents bit : BitVec 16) (func : FileEventState H A → Option H)
    (hfunc : ∀ fes handler, func fes = some handler → fes.recv = some handler ∨
      fes.send = some handler) : ∃ s' new, s.offer serve i revents bit func = some s' ∧ s'.Sound ∧
      s.Extends s' new ∧
      (∀ j k, (s.fet.row j).key = some k → callsFor k new =
        if j = i then (s.fet.row i).offered revents bit (func (s.fet.state i)) else []) ∧
      ∀ c, .called c ∈ new → (s.fet.row i).Makes c := by
  unfold offer FileEvent.offered
  cases hf : if revents &&& bit ≠ 0 then func (s.fet.state i) else none with
  | none =>
    refine ⟨s, [], rfl, h, .refl s, fun j k _ => ?_, nofun⟩
    split_ifs <;> rfl
  | some handler =>
    have hstate : func (s.fet.state i) = some handler := (Option.ite_none_right_eq_some.mp hf).2
    have hc : (s.fet.row i).Makes ⟨handler, (s.fet.state i).arg, (s.fet.poll i).fd, none⟩ :=
      ⟨rfl, rfl, Or.inr ⟨rfl, hfunc _ _ hstate⟩⟩
    obtain ⟨s', new, hcall, h', he, hnew⟩ := call_spec serve h hc
    refine ⟨s', _, hcall, h', he, fun j k hj => callsFor_called h hc hnew hj, fun c hmem => ?_⟩
    rcases List.mem_append.mp hmem with hmem | hmem
    · exact absurd hmem (hnew c)
    · cases List.mem_singleton.mp hmem
      exact hc

theorem turn_spec (h : s.Sound) : ∃ s' new, s.turn serve i = some s' ∧ s'.Sound ∧
    s.Extends s' new ∧
    (∀ j k, (s.fet.row j).key = some k → Untouched k new → (callsFor k new).reverse =
      if j = i then (s.fet.row i).calls (s.fet.poll i).revents else []) ∧
    ((s.fet.row i).key ≠ none → NoneLeft new → ∀ c, .called c ∈ new →
      (s.fet.row i).key = some (c.fd, c.arg)) := by
  have hkey {r : FileEvent H A} (hr : r.key ≠ none) {c : EventCall H A} (hc : r.Makes c) :
      r.key = some (c.fd, c.arg) := by
    rw [hc.key_eq] at hr ⊢
    split_ifs at hr ⊢
    · exact absurd rfl hr
    · rfl
  unfold turn
  dsimp only
  cases hf : if (s.fet.poll i).revents &&& (s.fet.poll i).events ≠ 0 then (s.fet.state i).eventf
    else none with
  | some eventf =>
    have hstate : (s.fet.state i).eventf = some eventf := (Option.ite_none_right_eq_some.mp hf).2
    have hc : (s.fet.row i).Makes ⟨eventf, (s.fet.state i).arg, (s.fet.poll i).fd,
        some (s.fet.poll i).revents⟩ := ⟨rfl, rfl, Or.inl ⟨rfl, hstate⟩⟩
    obtain ⟨s', new, hcall, h', he, hnew⟩ := call_spec serve h hc
    refine ⟨s', _, hcall, h', he, fun j k hj _ => ?_, fun hi _ c hmem => ?_⟩
    · rw [callsFor_called h hc hnew hj, FileEvent.calls_eventf (r := s.fet.row i) hf]
      split_ifs <;> rfl
    · rcases List.mem_append.mp hmem with hmem | hmem
      · exact absurd hmem (hnew c)
      · cases List.mem_singleton.mp hmem
        exact hkey hi hc
  | none =>
    obtain ⟨s₁, new₁, hrecv, h₁, he₁, hcalls₁, hmakes₁⟩ := offer_spec serve (i := i) h
      (s.fet.poll i).revents pollIn (fun fes => fes.recv) fun _ _ => Or.inl
    obtain ⟨s₂, new₂, hsend, h₂, he₂, hcalls₂, hmakes₂⟩ := offer_spec serve (i := i) h₁
      (s.fet.poll i).revents pollOut (fun fes => fes.send) fun _ _ => Or.inr
    refine ⟨s₂, new₂ ++ new₁, by rw [hrecv]; exact hsend, h₂, he₁.trans he₂, fun j k hj hk => ?_,
      fun hi hn c hmem => ?_⟩
    · obtain ⟨-, hk₁⟩ := untouched_append.mp hk
      have hrow := he₁.rows j k hj hk₁
      rw [callsFor_append, hcalls₁ j k hj, hcalls₂ j k (hrow ▸ hj)]
      by_cases hji : j = i
      · subst hji
        have hstate : s₁.fet.state j = s.fet.state j := congrArg FileEvent.state hrow
        rw [if_pos rfl, if_pos rfl, if_pos rfl, hrow, hstate, List.reverse_append,
          FileEvent.reverse_offered, FileEvent.reverse_offered,
          FileEvent.calls_offered (r := s.fet.row j) hf]
        rfl
      · rw [if_neg hji, if_neg hji, if_neg hji]
        rfl
    · obtain ⟨-, hn₁⟩ := noneLeft_append.mp hn
      have hrow := he₁.keys i hn₁ hi
      rcases List.mem_append.mp hmem with hmem | hmem
      · rw [← hrow]
        exact hkey (hrow ▸ hi) (hmakes₂ c hmem)
      · exact hkey hi (hmakes₁ c hmem)

/-- What the loop of `file_event_poll` calls: for each of its rows, whatever the rows before had
done, what the events in it ask for. -/
theorem pollLoop_spec {l : List (Fin pollEventNfd)} (hl : l.Nodup) {rc : ℤ} (h : s.Sound)
    (hrc : rc = (l.countP fun i => (s.fet.poll i).revents ≠ 0 : ℕ)) : ∃ s' new,
    s.pollLoop serve l rc = some (s', 0) ∧ s'.Sound ∧ s.Extends s' new ∧
    (∀ j k, (s.fet.row j).key = some k → Untouched k new → (callsFor k new).reverse =
      if j ∈ l then (s.fet.row j).calls (s.fet.poll j).revents else []) ∧
    ((∀ i, (s.fet.poll i).revents ≠ 0 → (s.fet.row i).key ≠ none) → NoneLeft new →
      ∀ c, .called c ∈ new →
        ∃ i, (s.fet.poll i).revents ≠ 0 ∧ (s.fet.row i).key = some (c.fd, c.arg)) := by
  induction l generalizing s rc with
  | nil =>
    subst hrc
    exact ⟨s, [], rfl, h, .refl s, fun _ _ _ _ => rfl, fun _ _ => nofun⟩
  | cons i l ih =>
    obtain ⟨hi, hl⟩ := List.nodup_cons.mp hl
    rw [pollLoop]
    split_ifs with hpos hrev
    · have hcount : rc = (l.countP fun i => (s.fet.poll i).revents ≠ 0 : ℕ) := by
        rw [hrc, List.countP_cons_of_neg (by simp [hrev])]
      obtain ⟨s', new, hloop, h', he, hcalls, hkeys⟩ := ih hl h hcount
      refine ⟨s', new, hloop, h', he, fun j k hj hk => ?_, hkeys⟩
      rw [hcalls j k hj hk]
      by_cases hji : j = i
      · subst hji
        rw [if_neg hi, if_pos List.mem_cons_self, hrev, FileEvent.calls_zero]
      · simp [hji]
    · obtain ⟨s₁, new₁, hturn, h₁, he₁, hcalls₁, hkeys₁⟩ := turn_spec serve (i := i) h
      have hcount : rc - 1 = (l.countP fun i => (s₁.fet.poll i).revents ≠ 0 : ℕ) := by
        simp only [he₁.revents]
        rw [hrc, List.countP_cons, if_pos (by exact decide_eq_true hrev)]
        push_cast
        ring
      obtain ⟨s₂, new₂, hloop, h₂, he₂, hcalls₂, hkeys₂⟩ := ih hl h₁ hcount
      refine ⟨s₂, new₂ ++ new₁, by rw [hturn]; exact hloop, h₂, he₁.trans he₂,
        fun j k hj hk => ?_, fun hused hn c hmem => ?_⟩
      · obtain ⟨hk₂, hk₁⟩ := untouched_append.mp hk
        have hrow := he₁.rows j k hj hk₁
        rw [callsFor_append, List.reverse_append, hcalls₁ j k hj hk₁,
          hcalls₂ j k (hrow ▸ hj) hk₂, hrow, he₁.revents]
        by_cases hji : j = i
        · subst hji
          simp [hi]
        · simp [hji]
      · obtain ⟨hn₂, hn₁⟩ := noneLeft_append.mp hn
        rcases List.mem_append.mp hmem with hmem | hmem
        · have hused₁ (j) (hj : (s₁.fet.poll j).revents ≠ 0) : (s₁.fet.row j).key ≠ none := by
            rw [he₁.revents] at hj
            rw [he₁.keys j hn₁ (hused j hj)]
            exact hused j hj
          obtain ⟨j, hj, hkey⟩ := hkeys₂ hused₁ hn₂ c hmem
          rw [he₁.revents] at hj
          exact ⟨j, hj, he₁.keys j hn₁ (hused j hj) ▸ hkey⟩
        · exact ⟨i, hrev, hkeys₁ (hused i hrev) hn₁ c hmem⟩
    · have hzero : (i :: l).countP (fun i => (s.fet.poll i).revents ≠ 0) = 0 := by omega
      have hnone : rc = 0 := by omega
      subst hnone
      refine ⟨s, [], rfl, h, .refl s, fun j k _ _ => ?_, fun _ _ => nofun⟩
      split_ifs with hj
      · have hrev := List.countP_eq_zero.mp hzero j hj
        simp only [ne_eq, decide_not, Bool.not_eq_true', decide_eq_false_iff_not, not_not] at hrev
        rw [hrev, FileEvent.calls_zero]
        rfl
      · rfl

/-- A wait that ends no later than the first timer is due. -/
def Waits (s : MainLoop H A P σ) (timeoutMs : ℤ) : Prop :=
  timeoutMs = -1 ∧ (∀ timer, s.th.time timer = 0) ∨
    0 < timeoutMs ∧ (∃ timer, (s.th.time timer : ℤ) = s.now + timeoutMs) ∧
      ∀ timer, s.th.time timer ≠ 0 → s.now + timeoutMs ≤ s.th.time timer

def Paced (s : MainLoop H A P σ) : Prop :=
  match s.phase with
  | .start => True
  | .advance mtime => mtime ≤ s.now
  | .poll nextTimeoutMs => s.Waits nextTimeoutMs

omit [Fintype P] in
theorem due_eq_some_iff (h : s.Sound) {timer : P} {time : ℕ} :
    due s.trace timer = some time ↔ time ≠ 0 ∧ s.th.time timer = time := by
  rw [h.armed]
  split_ifs with hzero
  · refine ⟨nofun, ?_⟩
    rintro ⟨hpos, rfl⟩
    exact absurd hzero hpos
  · rw [Option.some.injEq]
    exact ⟨fun he => ⟨he ▸ hzero, he⟩, fun he => he.2⟩

theorem timerAdvance_spec (h : s.Sound) {mtime : ℕ} (hmtime : mtime ≤ s.now) : ∃ s',
    s.timerAdvance serve mtime = some s' ∧ s'.Sound ∧ s'.Paced := by
  obtain ⟨l, hl⟩ := h.timers
  unfold timerAdvance
  split
  · rename_i hfirst
    obtain rfl : l = [] := by
      cases l with
      | nil => rfl
      | cons p l => cases hfirst.symm.trans hl.linked.1
    refine ⟨_, rfl, ⟨h.files, h.timers, h.armed, h.fileLaw, h.timerLaw⟩, Or.inl ⟨rfl, fun p => ?_⟩⟩
    by_contra hp
    exact List.not_mem_nil ((hl.armed p).mpr hp)
  · rename_i node hfirst
    dsimp only
    have hnow : (if s.th.time node > mtime then s.now else mtime) ≤ s.now := by
      split_ifs
      · exact le_rfl
      · exact hmtime
    generalize hmtime' : (if s.th.time node > mtime then s.now else mtime) = mtime' at hnow
    rcases TimerHead.timerAdvanceRound_spec mtime' hl with
      ⟨hround, hlate⟩ | ⟨timer, l', th, hround, rfl, hdue, hleast, hl', htime⟩
    · rw [hround]
      refine ⟨_, rfl, ⟨h.files, h.timers, h.armed, h.fileLaw, h.timerLaw⟩, Or.inr ?_⟩
      cases l with
      | nil => cases hfirst.symm.trans hl.linked
      | cons p l =>
        obtain rfl : node = p := Option.some.inj (hfirst.symm.trans hl.linked.1)
        have hmem := hlate node List.mem_cons_self
        obtain rfl : s.now = mtime' := by
          rw [← hmtime'] at hmem ⊢
          split_ifs at hmem ⊢ with hgt
          · rfl
          · exact absurd hmem hgt
        have hnode : (s.th.time node : ℤ) = s.now + (s.th.time node - s.now) := by omega
        refine ⟨by omega, ⟨node, hnode⟩, fun timer htimer => ?_⟩
        have hle : s.th.time node ≤ s.th.time timer := by
          rcases List.mem_cons.mp ((hl.armed timer).mpr htimer) with rfl | hmem
          · exact le_rfl
          · exact (List.pairwise_cons.mp hl.sorted).1 timer hmem
        change (s.now : ℤ) + _ ≤ s.th.time timer
        omega
    · rw [hround]
      have harmed : s.th.time timer ≠ 0 := (hl.armed timer).mp List.mem_cons_self
      have hsound : ({ s with th := th, phase := .advance mtime' }.note
          (.fired timer s.now)).Sound := by
        refine ⟨h.files, ⟨l', hl'⟩, armed_update h.armed htime, always_cons trivial h.fileLaw,
          always_cons ⟨s.th.time timer, (due_eq_some_iff h).mpr ⟨harmed, rfl⟩, hdue.trans hnow,
            fun timer' time' hdue' => ?_⟩ h.timerLaw⟩
        obtain ⟨hpos, rfl⟩ := (due_eq_some_iff h).mp hdue'
        exact hleast timer' ((hl.armed timer').mpr hpos)
      obtain ⟨s', new, hhandle, h', he, -⟩ := handle_spec serve hsound (.timer timer)
      refine ⟨s', hhandle, h', ?_⟩
      rw [Paced, he.phase]
      exact hnow.trans he.now

omit [DecidableEq A] [Fintype P] in
theorem polled_law {timeoutMs : ℤ} {clamped : ℕ}
    (hclamped : clamped = if timeoutMs < 0 then int32Max else min timeoutMs.toNat int32Max)
    (hdue : ∀ timer time, due s.trace timer = some time ↔ time ≠ 0 ∧ s.th.time timer = time)
    (hwaits : s.Waits timeoutMs) (ready : Option (ℤ → BitVec 16 → BitVec 16)) :
    LoopRecord.TimerLaw s.trace (.polled s.now clamped ready) := by
  rcases hwaits with ⟨rfl, hnone⟩ | ⟨hpos, ⟨timer, htimer⟩, hleast⟩
  · obtain rfl : clamped = int32Max := hclamped
    refine ⟨by decide, fun timer time htime => ?_, Or.inl rfl⟩
    obtain ⟨hne, rfl⟩ := (hdue timer time).mp htime
    exact absurd (hnone timer) hne
  · have hmax : 0 < int32Max := by decide
    rw [if_neg (by omega)] at hclamped
    refine ⟨by omega, fun timer time htime => ?_, ?_⟩
    · obtain ⟨hne, rfl⟩ := (hdue timer time).mp htime
      have := hleast timer hne
      omega
    · by_cases hlarge : int32Max ≤ timeoutMs.toNat
      · exact Or.inl (hclamped.trans (min_eq_right hlarge))
      · rw [min_eq_left (not_le.mp hlarge).le] at hclamped
        exact Or.inr ⟨timer, (hdue timer _).mpr ⟨by omega, by omega⟩⟩

theorem pollLoop_zero (l : List (Fin pollEventNfd)) : s.pollLoop serve l 0 = some (s, 0) := by
  cases l <;> rfl

theorem fileEventPoll_spec (h : s.Sound) {timeoutMs : ℤ} (hwaits : s.Waits timeoutMs)
    (answer : PollAnswer) : ∃ s' rc, s.fileEventPoll serve timeoutMs answer = some (s', rc) ∧
      s'.Sound ∧ LoopRecord.FileLaw s'.trace (.returned rc) := by
  unfold fileEventPoll
  dsimp only
  generalize hclamped : (if timeoutMs < 0 then int32Max else min timeoutMs.toNat int32Max) = clamped
  have hlaw := polled_law hclamped.symm (fun _ _ => due_eq_some_iff h) hwaits answer.ready
  have hfiles := always_cons (e := .polled s.now clamped answer.ready) trivial h.fileLaw
  cases hready : answer.ready with
  | none =>
    rw [hready] at hlaw hfiles
    exact ⟨_, -1, rfl, ⟨h.files, h.timers, h.armed, hfiles, always_cons hlaw h.timerLaw⟩,
      [], s.now, clamped, none, s.trace, rfl, nofun, fun _ => ⟨rfl, rfl⟩, nofun⟩
  | some ready =>
    rw [hready] at hlaw hfiles
    dsimp only
    generalize hs₁ : ({ s with
      fet := (s.fet.polled ready).1
      now := s.now + answer.slept
      ticking := Nat.add_pos_left s.ticking answer.slept
      trace := .polled s.now clamped (some ready) :: s.trace } : MainLoop H A P σ) = s₁
    have h₁ : s₁.Sound := by
      subst hs₁
      exact ⟨h.files, h.timers, h.armed, hfiles, always_cons hlaw h.timerLaw⟩
    have hrow (i) : s₁.fet.row i = s.fet.row i := by subst hs₁; rfl
    have hrev (i) : (s₁.fet.poll i).revents =
        if (s.fet.poll i).fd < 0 then 0 else ready (s.fet.poll i).fd (s.fet.poll i).events := by
      subst hs₁; rfl
    have hrc : (s.fet.polled ready).2 =
        ((List.finRange pollEventNfd).countP fun i => (s₁.fet.poll i).revents ≠ 0 : ℕ) := by
      subst hs₁; rfl
    obtain ⟨s', new, hloop, h', he, hcalls, hkeys⟩ :=
      pollLoop_spec serve (List.nodup_finRange pollEventNfd) h₁ hrc
    refine ⟨s', 0, ?_, h', new, s.now, clamped, some ready, s.trace, ?_, he.inside, nofun, ?_⟩
    · split_ifs with hzero
      · have hrc₀ : (s.fet.polled ready).2 = 0 := hzero
        rw [hrc₀] at hloop
        subst hs₁
        exact (pollLoop_zero serve _).symm.trans hloop
      · subst hs₁
        exact hloop
    · rw [he.trace, ← hs₁]
    · rintro _ ⟨⟩
      refine ⟨rfl, fun k r hr hk => ?_, fun hnone c hc => ?_⟩
      · obtain ⟨i, rfl, hi⟩ := h.files.found k r hr
        have hfd := key_row_eq_some_iff.mp hi
        rw [hcalls i k (hrow i ▸ hi) hk, if_pos (List.mem_finRange i), hrow, hrev,
          if_neg (not_lt.mpr (hfd.2.1 ▸ hfd.1)), hfd.2.1]
        rfl
      · have hused (i) (hi : (s₁.fet.poll i).revents ≠ 0) : (s₁.fet.row i).key ≠ none := by
          rw [hrow, ne_eq, key_row_eq_none_iff]
          intro hneg
          exact hi ((hrev i).trans (if_pos hneg))
        obtain ⟨i, -, hi⟩ := hkeys hused hnone c hc
        rw [hrow] at hi
        rw [h.files.listed i _ hi]
        exact Option.some_ne_none _

theorem step_spec (h : s.Sound) (hpaced : s.Paced) (answer : PollAnswer) :
    ∃ s', s.step serve answer = some s' ∧ s'.Sound ∧ s'.Paced := by
  unfold step
  unfold Paced at hpaced
  split
  · obtain ⟨s', new, hhandle, h', he, -⟩ := handle_spec serve
      (s := { s with phase := .advance 0 }) ⟨h.files, h.timers, h.armed, h.fileLaw, h.timerLaw⟩
      .start
    refine ⟨s', hhandle, h', ?_⟩
    rw [Paced, he.phase]
    exact Nat.zero_le _
  · rename_i mtime hphase
    rw [hphase] at hpaced
    exact timerAdvance_spec serve h hpaced
  · rename_i nextTimeoutMs hphase
    rw [hphase] at hpaced
    obtain ⟨s', rc, hpoll, h', hlaw⟩ := fileEventPoll_spec serve h hpaced answer
    rw [hpoll]
    exact ⟨_, rfl, ⟨h'.files, h'.timers, h'.armed, always_cons hlaw h'.fileLaw,
      always_cons trivial h'.timerLaw⟩, Nat.zero_le _⟩

theorem run_spec (h : s.Sound) (hpaced : s.Paced) (answers : List PollAnswer) :
    ∃ s', run (step serve) s answers = some s' ∧ s'.Sound := by
  induction answers generalizing s with
  | nil => exact ⟨s, rfl, h⟩
  | cons answer answers ih =>
    obtain ⟨s₁, hstep, h₁, hpaced₁⟩ := step_spec serve h hpaced answer
    obtain ⟨s', hrun, h'⟩ := ih h₁ hpaced₁
    exact ⟨s', by rw [run, hstep]; exact hrun, h'⟩

omit [Fintype P] in
theorem sound_start (fet : FileEventTable H A) (own : σ) (now : ℕ) :
    (start (P := P) fet own now).Sound where
  files := represents_fileEventInit fet
  timers := TimerHead.wellFormed_init
  armed _ := rfl
  fileLaw := by rintro (_ | _) e before ⟨⟩
  timerLaw := by rintro (_ | _) e before ⟨⟩

/-- Whatever handlers do and `poll` answers, the main loop goes on, its table of files is the map
that the calls of `file_event.c` made, and the law for files holds of each thing that happened. -/
theorem files_served (fet : FileEventTable H A) (own : σ) (now : ℕ) (answers : List PollAnswer) :
    ∃ s, run (step serve) (start fet own now) answers = some s ∧
      Represents FileEvent.key s.fet.row (watched s.trace) ∧
      Always LoopRecord.FileLaw s.trace := by
  obtain ⟨s, hrun, h⟩ := run_spec serve (sound_start fet own now) trivial answers
  exact ⟨s, hrun, h.files, h.fileLaw⟩

/-- Whatever handlers do and `poll` answers, the timers on the list are those that were set and
neither cancelled nor called since, and the law for timers holds of each thing that happened. -/
theorem timers_served (fet : FileEventTable H A) (own : σ) (now : ℕ) (answers : List PollAnswer) :
    ∃ s, run (step serve) (start fet own now) answers = some s ∧
      (∀ timer time, due s.trace timer = some time ↔ time ≠ 0 ∧ s.th.time timer = time) ∧
      Always LoopRecord.TimerLaw s.trace := by
  obtain ⟨s, hrun, h⟩ := run_spec serve (sound_start fet own now) trivial answers
  exact ⟨s, hrun, fun _ _ => due_eq_some_iff h, h.timerLaw⟩

end MainLoop

end Afly
