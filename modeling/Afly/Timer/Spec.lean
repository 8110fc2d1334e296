import Afly.Lib.Chain
import Afly.Timer.Basic

/-! # Timers on a well-formed list

What the list is for: a map from timers to expiries. On a sorted chain of
exactly the armed timers, `timerSet` and `timerCancel` change the expiry of their
timer and of no other, and the round of `timer_advance` takes off a timer of
least expiry that is due.
-/

namespace Afly.TimerHead

open Chain

variable {P : Type*} {h : TimerHead P} {l : List P} {timer p : P} {fuel : ℕ}

/-- The list has exactly the armed timers, in the order of their expiry. -/
structure Represents (h : TimerHead P) (l : List P) : Prop where
  linked : Linked h.next h.first l
  armed : ∀ p, p ∈ l ↔ h.time p ≠ 0
  sorted : l.Pairwise fun p q => h.time p ≤ h.time q

def WellFormed (h : TimerHead P) : Prop := ∃ l, h.Represents l

theorem wellFormed_init : (init : TimerHead P).WellFormed :=
  ⟨[], rfl, fun _ => by simp [time, init, Timer.zero], .nil⟩

theorem Represents.length_le [Fintype P] (h : h.Represents l) : l.length ≤ Fintype.card P :=
  h.linked.nodup.length_le_card

section Fields

variable [DecidableEq P]

@[simp] theorem next_setNext (n : Option P) :
    (h.setNext p n).next = Function.update h.next p n := by
  funext q
  by_cases hq : q = p
  · subst hq; simp [next, setNext]
  · simp [next, setNext, hq]

@[simp] theorem time_setNext (n : Option P) : (h.setNext p n).time = h.time := by
  funext q
  by_cases hq : q = p
  · subst hq; simp [time, setNext]
  · simp [time, setNext, hq]

@[simp] theorem next_setTime (t : ℕ) : (h.setTime p t).next = h.next := by
  funext q
  by_cases hq : q = p
  · subst hq; simp [next, setTime]
  · simp [next, setTime, hq]

@[simp] theorem time_setTime (t : ℕ) : (h.setTime p t).time = Function.update h.time p t := by
  funext q
  by_cases hq : q = p
  · subst hq; simp [time, setTime]
  · simp [time, setTime, hq]

@[simp] theorem time_setLink (prev n : Option P) : (h.setLink prev n).time = h.time := by
  cases prev with
  | none => rfl
  | some p => exact time_setNext n

@[simp] theorem first_setNext (n : Option P) : (h.setNext p n).first = h.first := rfl
@[simp] theorem first_setTime (t : ℕ) : (h.setTime p t).first = h.first := rfl

end Fields

section Loops

variable [DecidableEq P] {l₁ l₂ : List P}

theorem cancelLoop_eq {prev : Option P} (hl : Linked h.next (h.link prev) (l₁ ++ timer :: l₂))
    (hn : timer ∉ l₁) (hf : (l₁ ++ timer :: l₂).length ≤ fuel) :
    h.cancelLoop timer fuel prev =
      some ((h.setLink (l₁.getLast?.or prev) (h.next timer)).setTime timer 0) := by
  induction l₁ generalizing prev fuel with
  | nil =>
    obtain ⟨fuel, rfl⟩ : ∃ n, fuel = n + 1 :=
      ⟨fuel - 1, by simp only [List.nil_append, List.length_cons] at hf; omega⟩
    rw [cancelLoop, hl.1]
    simp
  | cons q l₁ ih =>
    obtain ⟨fuel, rfl⟩ : ∃ n, fuel = n + 1 :=
      ⟨fuel - 1, by simp only [List.cons_append, List.length_cons] at hf; omega⟩
    have hq : q ≠ timer := by
      rintro rfl
      exact hn List.mem_cons_self
    rw [cancelLoop, hl.1]
    dsimp only
    have hrest : h.cancelLoop timer fuel (some q) =
        some ((h.setLink (l₁.getLast?.or (some q)) (h.next timer)).setTime timer 0) :=
      ih hl.2 (fun hm => hn (List.mem_cons_of_mem _ hm)) (by simpa using hf)
    rw [if_neg hq, hrest]
    cases l₁ with
    | nil => rfl
    | cons r l₁ => simp [List.getLast?_cons]

omit [DecidableEq P] in
theorem insertLoop_eq {prev : Option P} {t : ℕ} (hl : Linked h.next (h.link prev) l)
    (hf : l.length ≤ fuel) : ∃ l₁ l₂, l = l₁ ++ l₂ ∧ (∀ q ∈ l₁, h.time q ≤ t) ∧
      (∀ q, l₂.head? = some q → t < h.time q) ∧
      h.insertLoop t fuel prev = some (l₁.getLast?.or prev) := by
  induction l generalizing prev fuel with
  | nil =>
    refine ⟨[], [], rfl, by simp, by simp, ?_⟩
    cases fuel with
    | zero => rw [insertLoop, linked_nil.mp hl]; rfl
    | succ n => rw [insertLoop, linked_nil.mp hl]; rfl
  | cons q l ih =>
    obtain ⟨fuel, rfl⟩ : ∃ n, fuel = n + 1 :=
      ⟨fuel - 1, by simp only [List.length_cons] at hf; omega⟩
    rw [insertLoop, hl.1]
    dsimp only
    by_cases ht : t < h.time q
    · refine ⟨[], q :: l, rfl, by simp, ?_, by rw [if_pos ht]; rfl⟩
      rintro r ⟨⟩
      exact ht
    · have hlen : l.length ≤ fuel := by simpa using hf
      have hrest : Linked h.next (h.link (some q)) l := hl.2
      obtain ⟨l₁, l₂, rfl, hle, hlt, he⟩ := ih hrest hlen
      refine ⟨q :: l₁, l₂, rfl, ?_, hlt, ?_⟩
      · intro r hr
        rcases List.mem_cons.mp hr with rfl | hr
        · exact not_lt.mp ht
        · exact hle r hr
      · rw [if_neg ht, he]
        cases l₁ with
        | nil => rfl
        | cons r l₁ => simp [List.getLast?_cons]

end Loops

section Operations

variable [DecidableEq P] {l₁ l₂ : List P}

theorem linked_setLink_next (hl : Linked h.next h.first (l₁ ++ timer :: l₂)) :
    Linked (h.setLink l₁.getLast? (h.next timer)).next
      (h.setLink l₁.getLast? (h.next timer)).first (l₁ ++ l₂) := by
  have hd := hl.nodup
  cases l₁ using List.reverseRecOn with
  | nil => exact hl.2
  | append_singleton l₁ q =>
    rw [List.getLast?_concat]
    simp only [List.append_assoc, List.singleton_append] at hl hd ⊢
    unfold setLink
    rw [next_setNext, first_setNext]
    apply Linked.unlink hl (by simp)
    intro r hr
    have hrq : r ≠ q := by
      rintro rfl
      simp only [List.nodup_append, List.nodup_cons, List.mem_cons, List.mem_append] at hd hr
      grind
    simp [hrq]

theorem linked_setLink_timer (hl : Linked h.next h.first (l₁ ++ l₂)) (hn : timer ∉ l₁ ++ l₂) :
    Linked ((h.setLink l₁.getLast? (some timer)).setNext timer (h.link l₁.getLast?)).next
      ((h.setLink l₁.getLast? (some timer)).setNext timer (h.link l₁.getLast?)).first
      (l₁ ++ timer :: l₂) := by
  have hd := hl.nodup
  cases l₁ using List.reverseRecOn with
  | nil =>
    refine ⟨rfl, ?_⟩
    rw [next_setNext, Function.update_self]
    refine hl.congr fun r hr => ?_
    have hrt : r ≠ timer := by
      rintro rfl
      exact hn hr
    rw [Function.update_of_ne hrt]
    rfl
  | append_singleton l₁ q =>
    rw [List.getLast?_concat]
    have hqt : q ≠ timer := by
      rintro rfl
      simp at hn
    simp only [List.append_assoc, List.singleton_append] at hl hd ⊢
    unfold setLink
    rw [next_setNext, next_setNext, first_setNext, first_setNext]
    apply Linked.insert hl (by simp [hqt]) (by simp [link])
    intro r hr
    have hrq : r ≠ q := by
      rintro rfl
      simp only [List.nodup_append, List.nodup_cons, List.mem_cons, List.mem_append] at hd hr
      grind
    have hrt : r ≠ timer := by
      rintro rfl
      simp only [List.mem_append, List.mem_cons] at hn hr
      grind
    simp [hrq, hrt]

omit [DecidableEq P] in
theorem sorted_congr {time time' : P → ℕ} (hs : l.Pairwise fun p q => time p ≤ time q)
    (he : ∀ p ∈ l, time' p = time p) : l.Pairwise fun p q => time' p ≤ time' q :=
  hs.imp_of_mem fun hp hq hle => by rwa [he _ hp, he _ hq]

theorem Represents.remove {h' : TimerHead P} (hr : h.Represents (l₁ ++ timer :: l₂))
    (hl : Linked h'.next h'.first (l₁ ++ l₂)) (ht : h'.time = Function.update h.time timer 0) :
    h'.Represents (l₁ ++ l₂) := by
  have hn : timer ∉ l₁ ++ l₂ := by
    have hd := hr.linked.nodup
    simp only [List.nodup_append, List.nodup_cons, List.mem_cons, List.mem_append] at hd ⊢
    grind
  constructor
  · exact hl
  · intro p
    rw [ht]
    by_cases hp : p = timer
    · subst hp
      simpa using hn
    · rw [Function.update_of_ne hp, ← hr.armed p]
      simp [hp]
  · rw [ht]
    refine sorted_congr (hr.sorted.sublist ?_) ?_
    · exact (List.Sublist.refl l₁).append (List.sublist_cons_self timer l₂)
    · intro p hp
      apply Function.update_of_ne
      rintro rfl
      exact hn hp

theorem Represents.insert {h' : TimerHead P} {t : ℕ} (hr : h.Represents (l₁ ++ l₂))
    (hn : timer ∉ l₁ ++ l₂) (hl : Linked h'.next h'.first (l₁ ++ timer :: l₂))
    (ht : h'.time = Function.update h.time timer t) (hpos : t ≠ 0)
    (hle : ∀ q ∈ l₁, h.time q ≤ t) (hlt : ∀ q, l₂.head? = some q → t < h.time q) :
    h'.Represents (l₁ ++ timer :: l₂) := by
  have htime : ∀ q ∈ l₁ ++ l₂, h'.time q = h.time q := by
    intro q hq
    rw [ht]
    apply Function.update_of_ne
    rintro rfl
    exact hn hq
  have htimer : h'.time timer = t := by rw [ht, Function.update_self]
  constructor
  · exact hl
  · intro p
    by_cases hp : p = timer
    · subst hp
      rw [htimer]
      exact iff_of_true (by simp) hpos
    · rw [ht, Function.update_of_ne hp, ← hr.armed p]
      simp [hp]
  · have hsorted := sorted_congr hr.sorted htime
    rw [List.pairwise_append] at hsorted ⊢
    refine ⟨hsorted.1, List.pairwise_cons.mpr ⟨?_, hsorted.2.1⟩, ?_⟩
    · rw [htimer]
      intro q hq
      cases l₂ with
      | nil => cases hq
      | cons r l₂ =>
        have hr : t < h'.time r := by
          rw [htime r (by simp)]
          exact hlt r rfl
        rcases List.mem_cons.mp hq with rfl | hq
        · exact hr.le
        · exact hr.le.trans ((List.pairwise_cons.mp hsorted.2.1).1 q hq)
    · intro p hp q hq
      rcases List.mem_cons.mp hq with rfl | hq
      · rw [htimer, htime p (List.mem_append_left _ hp)]
        exact hle p hp
      · exact hsorted.2.2 p hp q hq

variable (timer) in
theorem timerCancel_spec (hr : h.Represents l) (hf : l.length ≤ fuel) :
    ∃ h', h.timerCancel fuel timer = some h' ∧ h'.Represents (l.erase timer) ∧
      h'.time = Function.update h.time timer 0 := by
  by_cases hm : timer ∈ l
  · obtain ⟨l₁, l₂, rfl, hn⟩ := List.eq_append_cons_of_mem hm
    have hlinked : Linked h.next (h.link none) (l₁ ++ timer :: l₂) := hr.linked
    have he := cancelLoop_eq hlinked hn hf
    rw [Option.or_none] at he
    have hcancel : h.timerCancel fuel timer =
        some ((h.setLink l₁.getLast? (h.next timer)).setTime timer 0) := by
      rw [timerCancel, if_neg ((hr.armed timer).mp hm), he]
    have htime : ((h.setLink l₁.getLast? (h.next timer)).setTime timer 0).time =
        Function.update h.time timer 0 := by
      rw [time_setTime, time_setLink]
    refine ⟨_, hcancel, ?_, htime⟩
    rw [List.erase_append_right _ hn, List.erase_cons_head]
    apply hr.remove _ htime
    rw [next_setTime, first_setTime]
    exact linked_setLink_next hr.linked
  · have ht : h.time timer = 0 := by
      by_contra ht
      exact hm ((hr.armed timer).mpr ht)
    refine ⟨h, by rw [timerCancel, if_pos ht], ?_, ?_⟩
    · rwa [List.erase_of_not_mem hm]
    · rw [← ht, Function.update_eq_self]

variable (timer) in
theorem timerSet_spec {now ms : ℕ} (hr : h.Represents l) (hf : l.length ≤ fuel)
    (hpos : 0 < now + ms) : ∃ h' l', h.timerSet fuel now timer ms = some h' ∧ h'.Represents l' ∧
      h'.time = Function.update h.time timer (now + ms) := by
  obtain ⟨h₁, hc, hr₁, ht₁⟩ := timerCancel_spec timer hr hf
  have hn : timer ∉ l.erase timer := by
    rw [hr₁.armed, ht₁, Function.update_self]
    simp
  have hf₁ : (l.erase timer).length ≤ fuel := (List.length_erase_le ..).trans hf
  have hl : Linked (h₁.setTime timer (now + ms)).next ((h₁.setTime timer (now + ms)).link none)
      (l.erase timer) := by
    rw [next_setTime]
    exact hr₁.linked
  obtain ⟨l₁, l₂, he, hle, hlt, hi⟩ := insertLoop_eq (t := now + ms) hl hf₁
  rw [Option.or_none] at hi
  rw [he] at hl hn hr₁
  have hset : h.timerSet fuel now timer ms =
      some (((h₁.setTime timer (now + ms)).setLink l₁.getLast? (some timer)).setNext timer
        ((h₁.setTime timer (now + ms)).link l₁.getLast?)) := by
    rw [timerSet, hc, Option.bind_some]
    dsimp only
    rw [hi, Option.map_some]
  have hold : ∀ q ∈ l₁ ++ l₂, (h₁.setTime timer (now + ms)).time q = h₁.time q := by
    intro q hq
    rw [time_setTime]
    apply Function.update_of_ne
    rintro rfl
    exact hn hq
  refine ⟨_, l₁ ++ timer :: l₂, hset, ?_, ?_⟩
  · apply hr₁.insert hn (linked_setLink_timer hl hn) _ hpos.ne'
    · intro q hq
      rw [← hold q (List.mem_append_left _ hq)]
      exact hle q hq
    · intro q hq
      rw [← hold q (List.mem_append_right _ (List.mem_of_head? hq))]
      exact hlt q hq
    · rw [time_setNext, time_setLink, time_setTime]
  · rw [time_setNext, time_setLink, time_setTime, ht₁, Function.update_idem]

theorem timerAdvanceRound_spec (now : ℕ) (hr : h.Represents l) :
    (h.timerAdvanceRound now = none ∧ ∀ p ∈ l, now < h.time p) ∨
    ∃ p l' h', h.timerAdvanceRound now = some (p, h') ∧ l = p :: l' ∧ h.time p ≤ now ∧
      (∀ q ∈ l, h.time p ≤ h.time q) ∧ h'.Represents l' ∧
      h'.time = Function.update h.time p 0 := by
  have hl := hr.linked
  unfold timerAdvanceRound
  cases l with
  | nil => exact Or.inl ⟨by rw [linked_nil.mp hl], by simp⟩
  | cons p l =>
    rw [hl.1]
    dsimp only
    have hleast : ∀ q ∈ p :: l, h.time p ≤ h.time q := by
      intro q hq
      rcases List.mem_cons.mp hq with rfl | hq
      · exact le_rfl
      · exact (List.pairwise_cons.mp hr.sorted).1 q hq
    by_cases ht : h.time p > now
    · exact Or.inl ⟨if_pos ht, fun q hq => lt_of_lt_of_le ht (hleast q hq)⟩
    · rw [if_neg ht]
      have hr' : h.Represents ([] ++ p :: l) := hr
      have htime : (({ h with first := h.next p }.setTime p 0).setNext p none).time =
          Function.update h.time p 0 := by
        rw [time_setNext, time_setTime]
        rfl
      refine Or.inr ⟨p, l, _, rfl, rfl, not_lt.mp ht, hleast, hr'.remove ?_ htime, htime⟩
      rw [next_setNext, next_setTime, first_setNext, first_setTime]
      refine hl.2.congr ?_
      intro q hq
      have hqp : q ≠ p := by
        rintro rfl
        exact (List.nodup_cons.mp hl.nodup).1 hq
      rw [Function.update_of_ne hqp]
      rfl

end Operations

end Afly.TimerHead
