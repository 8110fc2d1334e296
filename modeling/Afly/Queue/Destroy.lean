import Afly.Queue.Deque

/-! # Releasing a list

`list_destroy` moves the head on with one pointer and finds the next node to
release with another, and it reads the second through the first. On a list with
elements that either runs into the null pointer behind the last node or leaves
a node in the list, at which an assertion ends the program.
-/

namespace Afly

open Reach

namespace StList

variable {N D W : Type} [DecidableEq N]

/-- The loop of `list_destroy` at the node `pi`, with what `freefunc` works on. -/
def destroyLoop (freefunc : Option (D → W → W)) :
    ℕ → StList N (Option D) → Option N → W → Option (StList N (Option D) × W)
  | _, l, none, w => some (l, w)
  | 0, _, some _, _ => none
  | n + 1, l, some pi, w => do
    let item ← l.heap pi
    let l := { l with head := item.next }
    let w := match freefunc, item.data with
      | some free, some data => free data w
      | _, _ => w
    let l := { l with heap := Function.update l.heap pi none, size := l.size - 1 }
    -- `pi = l->head->next`
    let head ← l.head
    let item ← l.heap head
    destroyLoop freefunc n l item.next w

/-- `list_destroy`, with the node that it allocates and the contents of that node. -/
def listDestroy (rounds : ℕ) (l : StList N (Option D)) (pi : N) (raw : ListItem N (Option D))
    (freefunc : Option (D → W → W)) (w : W) : Option (StList N (Option D) × W) :=
  if (l.heap pi).isSome then none
  else do
    let l := { l with heap := Function.update l.heap pi (some raw) }
    let (l, w) ← destroyLoop freefunc rounds l l.head w
    let l := { l with tail := l.head }
    if l.size = 0 ∧ l.tail = none then some (l, w) else none

def lockqueueDestroy (rounds : ℕ) (l : StList N (Option D)) (pi : N)
    (raw : ListItem N (Option D)) (freeElem : Option (D → W → W)) (w : W) :
    Option (StList N (Option D) × W) :=
  l.listDestroy rounds pi raw freeElem w

/-- The list after its release, with none of its nodes left. -/
structure Released (l : StList N (Option D)) (nodes : List N) : Prop where
  freed : ∀ p ∈ nodes, l.heap p = none
  head : l.head = none
  tail : l.tail = none
  size : l.size = 0

variable {l l' : StList N (Option D)} {pi p : N} {raw : ListItem N (Option D)} {rounds : ℕ}
  {freefunc : Option (D → W → W)} {w w' : W}

theorem destroyLoop_head (h : destroyLoop freefunc rounds l (some p) w = some (l', w')) :
    l'.head ≠ none := by
  induction rounds generalizing l p w with
  | zero => cases h
  | succ rounds ih =>
    rw [destroyLoop] at h
    obtain ⟨item, -, h⟩ := Option.bind_eq_some_iff.mp h
    obtain ⟨head, hhead, h⟩ := Option.bind_eq_some_iff.mp h
    obtain ⟨next, -, h⟩ := Option.bind_eq_some_iff.mp h
    cases hn : next.next with
    | none =>
      rw [hn, destroyLoop] at h
      cases h
      rw [hhead]
      simp
    | some q =>
      rw [hn] at h
      exact ih h

theorem listDestroy_head (h : l.listDestroy rounds pi raw freefunc w = some (l', w')) :
    l.head = none := by
  unfold listDestroy at h
  split at h
  · cases h
  · obtain ⟨⟨m, v⟩, hloop, h⟩ := Option.bind_eq_some_iff.mp h
    dsimp only at hloop h
    cases hhead : l.head with
    | none => rfl
    | some p =>
      rw [hhead] at hloop
      have hm := destroyLoop_head hloop
      rw [if_neg fun hc => hm hc.2] at h
      cases h

variable (raw rounds freefunc w) in
theorem listDestroy_nil (hhead : l.head = none) (hsize : l.size = 0) (hpi : l.heap pi = none) :
    l.listDestroy rounds pi raw freefunc w =
      some ({ l with heap := Function.update l.heap pi (some raw), tail := l.head }, w) := by
  have hloop : destroyLoop freefunc rounds
      { l with heap := Function.update l.heap pi (some raw) } none w =
      some ({ l with heap := Function.update l.heap pi (some raw) }, w) := by
    cases rounds <;> rfl
  unfold listDestroy
  rw [hpi, if_neg (by simp)]
  dsimp only
  rw [hhead] at hloop ⊢
  rw [hloop, Option.bind_eq_bind, Option.bind_some]
  dsimp only
  rw [if_pos ⟨hsize, rfl⟩]

end StList

namespace Deque

variable {N E W : Type} [DecidableEq N] {D : Deque N (Option E)} {pi : N}

/-- Whatever list pushes and pops have built, `list_destroy` calls `freefunc` on its elements that
are not null in order, releases all its nodes and leaves the empty list exactly if the list is empty
already, and so does `lockqueue_destroy`. -/
theorem listDestroy_iff (hD : Reachable step Fresh init D) (hpi : D.list.heap pi = none)
    (raw : ListItem N (Option E)) (freefunc : E → W → W) (w : W) :
    ∃ nodes, D.list.Represents nodes D.queue ∧
    ((∃ rounds l, D.list.listDestroy rounds pi raw (some freefunc) w =
        some (l, D.queue.reduceOption.foldl (fun w data => freefunc data w) w) ∧
        l.Released nodes) ↔ D.queue = []) ∧
    ((∃ rounds l, D.list.lockqueueDestroy rounds pi raw (some freefunc) w =
        some (l, D.queue.reduceOption.foldl (fun w data => freefunc data w) w) ∧
        l.Released nodes) ↔ D.queue = []) := by
  obtain ⟨nodes, h⟩ := represents hD
  have hnodes : D.queue = [] ↔ nodes = [] := by
    rw [← List.length_eq_zero_iff, ← h.length_eq, List.length_eq_zero_iff]
  have hiff : (∃ rounds l, D.list.listDestroy rounds pi raw (some freefunc) w =
      some (l, D.queue.reduceOption.foldl (fun w data => freefunc data w) w) ∧
      l.Released nodes) ↔ D.queue = [] := by
    constructor
    · rintro ⟨rounds, l, hl, -⟩
      have hhead := StList.listDestroy_head hl
      rw [h.links.head_eq, List.head?_eq_none_iff] at hhead
      exact hnodes.mpr hhead
    · intro hq
      obtain rfl := hnodes.mp hq
      have hsize : D.list.size = 0 := h.size
      have hhead : D.list.head = none := h.links.head_eq
      have hl := StList.listDestroy_nil raw 0 (some freefunc) w hhead hsize hpi
      rw [hq]
      exact ⟨0, _, hl, by simp, hhead, hhead, hsize⟩
  exact ⟨nodes, h, hiff, hiff⟩

theorem listDestroy_iff_popped : ∃ D : Deque ℕ (Option ℕ),
    run step init [.pushBack 1 (some 7), .pushFront 2 none, .popBack, .popFront] = some D ∧
    ∃ rounds l, D.list.listDestroy rounds 0 ⟨some 7, some 3, none⟩ (some List.cons) [] =
      some (l, []) ∧ l.Released [] := by
  have hback : (init : Deque ℕ (Option ℕ)).Fresh (.pushBack 1 (some 7)) := rfl
  obtain ⟨D₁, hD₁⟩ : ∃ D, (init : Deque ℕ (Option ℕ)).step (.pushBack 1 (some 7)) = some D :=
    ⟨_, rfl⟩
  have hfront : D₁.Fresh (.pushFront 2 none) := by cases hD₁; rfl
  obtain ⟨D₂, hD₂⟩ : ∃ D, D₁.step (.pushFront 2 none) = some D := by cases hD₁; exact ⟨_, rfl⟩
  have hpop (D : Deque ℕ (Option ℕ)) : D.Fresh .popBack ∧ D.Fresh .popFront := ⟨trivial, trivial⟩
  obtain ⟨D₃, hD₃⟩ : ∃ D, D₂.step .popBack = some D := by cases hD₁; cases hD₂; exact ⟨_, rfl⟩
  obtain ⟨D₄, hD₄, hqueue, hheap⟩ :
      ∃ D, D₃.step .popFront = some D ∧ D.queue = [] ∧ D.list.heap 0 = none := by
    cases hD₁; cases hD₂; cases hD₃; exact ⟨_, rfl, rfl, rfl⟩
  have hD := (((Reachable.start.next hback hD₁).next hfront hD₂).next (hpop D₂).1 hD₃).next
    (hpop D₃).2 hD₄
  refine ⟨D₄, by simp only [run, hD₁, hD₂, hD₃, hD₄, Option.bind_some], ?_⟩
  obtain ⟨nodes, h, hiff, -⟩ := listDestroy_iff hD hheap ⟨some 7, some 3, none⟩ List.cons []
  obtain rfl : nodes = [] := List.eq_nil_of_length_eq_zero (by rw [h.length_eq, hqueue]; rfl)
  obtain ⟨rounds, l, hl, hreleased⟩ := hiff.mpr hqueue
  rw [hqueue] at hl
  exact ⟨rounds, l, hl, hreleased⟩

/-- A list of one element: the loop reads through the null pointer behind it. -/
theorem listDestroy_one : ∃ D : Deque ℕ (Option ℕ), Reachable step Fresh init D ∧
    D.queue = [some 7] ∧
    ∀ rounds raw, D.list.listDestroy rounds 0 raw (some List.cons) [] = none := by
  have hfresh : (init : Deque ℕ (Option ℕ)).Fresh (.pushFront 1 (some 7)) := rfl
  refine ⟨_, Reachable.start.next hfresh rfl, rfl, ?_⟩
  intro rounds raw
  rw [Option.eq_none_iff_forall_ne_some]
  rintro ⟨l, w⟩ h
  exact absurd (StList.listDestroy_head h) (by simp)

end Deque

end Afly
