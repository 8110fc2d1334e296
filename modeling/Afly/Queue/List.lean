import Mathlib.Logic.Function.Basic
import Mathlib.Tactic
import Afly.Lib.TwoWay

/-! # Message queues

The doubly linked list of `list.c` as the queues of `lockqueue.c` use it: pushed
at the front and popped at the back. The nodes lie in a heap that knows which
addresses are allocated, `malloc` returns an address that is not, and a function
is undefined where the code reads through a null or dangling pointer or leaves
the program by a failed assertion. A list that represents a sequence of elements
is a first-in first-out queue.
-/

namespace Afly

open Chain

structure ListItem (N T : Type*) where
  prev : Option N
  next : Option N
  data : T

/-- `stList_t`, with the heap of its nodes. -/
structure StList (N T : Type*) where
  heap : N → Option (ListItem N T)
  head : Option N
  tail : Option N
  size : ℤ

namespace StList

variable {N T : Type}

/-- `list_init` on a heap without nodes. -/
def init : StList N T := ⟨fun _ => none, none, none, 0⟩

def next (l : StList N T) (p : N) : Option N := (l.heap p).bind (·.next)

def prev (l : StList N T) (p : N) : Option N := (l.heap p).bind (·.prev)

def data (l : StList N T) (p : N) : Option T := (l.heap p).map (·.data)

section Operations

variable [DecidableEq N]

def storeAt (l : StList N T) (f : ListItem N T → ListItem N T) : Option N → Option (StList N T)
  | none => some l
  | some p => (l.heap p).map fun item => { l with heap := Function.update l.heap p (some (f item)) }

/-- `list_push_front`, with the address `pi` that `malloc` returns. -/
def listPushFront (l : StList N T) (pi : N) (data : T) : Option (StList N T) :=
  if (l.heap pi).isSome then none
  else
    let l := { l with heap := Function.update l.heap pi (some ⟨none, l.head, data⟩) }
    (l.storeAt (fun item => { item with prev := some pi }) l.head).map fun (l : StList N T) =>
      { l with
        head := some pi
        tail := if l.tail.isNone then some pi else l.tail
        size := l.size + 1 }

/-- `list_pop_back`: the list, and the element when it returns true. -/
def listPopBack (l : StList N T) : Option (StList N T × Option T) :=
  if l.size > 0 then do
    let pi ← l.tail
    let item ← l.heap pi
    let l := { l with tail := item.prev }
    let l ← l.storeAt (fun item => { item with next := none }) l.tail
    let l := { l with
      size := l.size - 1
      head := if l.size - 1 = 0 then none else l.head
      heap := Function.update l.heap pi none }
    some (l, some item.data)
  else some (l, none)

def lockqueuePush (l : StList N T) (pi : N) (elem : T) : Option (StList N T) :=
  l.listPushFront pi elem

def lockqueuePop (l : StList N T) : Option (StList N T × Option T) :=
  if l.size = 0 then some (l, none) else l.listPopBack

end Operations

/-- The list holds the elements `items`, from the head to the tail, in the nodes `nodes`. -/
structure Represents (l : StList N T) (nodes : List N) (items : List T) : Prop where
  links : TwoWay l.next l.prev l.head l.tail nodes
  data : nodes.map l.data = items.map some
  size : l.size = nodes.length

theorem represents_init : (init : StList N T).Represents [] [] := ⟨⟨rfl, rfl⟩, rfl, rfl⟩

section Spec

variable [DecidableEq N] {l : StList N T} {nodes : List N} {items : List T} {p pi : N} {d : T}

omit [DecidableEq N] in
theorem Represents.length_eq (h : l.Represents nodes items) : nodes.length = items.length := by
  simpa using congrArg List.length h.data

omit [DecidableEq N] in
theorem Represents.allocated (h : l.Represents nodes items) (hp : p ∈ nodes) :
    ∃ item, l.heap p = some item := by
  have hm : l.data p ∈ items.map some := by
    rw [← h.data]
    exact List.mem_map.mpr ⟨p, hp, rfl⟩
  obtain ⟨d, -, hd⟩ := List.mem_map.mp hm
  obtain ⟨item, hitem, -⟩ := Option.map_eq_some_iff.mp hd.symm
  exact ⟨item, hitem⟩

theorem storeAt_eq {q : Option N} {f : ListItem N T → ListItem N T}
    (hq : ∀ p, q = some p → ∃ item, l.heap p = some item) : l.storeAt f q =
      some { l with heap := fun p => if q = some p then (l.heap p).map f else l.heap p } := by
  cases q with
  | none => simp [storeAt]
  | some p =>
    obtain ⟨item, hitem⟩ := hq p rfl
    rw [storeAt, hitem, Option.map_some]
    congr 2
    funext r
    by_cases hr : p = r
    · subst hr
      simp [hitem]
    · simp [hr, Ne.symm hr]

theorem listPushFront_spec (h : l.Represents nodes items) (hpi : l.heap pi = none) (d : T) :
    ∃ l', l.listPushFront pi d = some l' ∧ l'.Represents (pi :: nodes) (d :: items) := by
  have hne {p : N} (hp : p ∈ nodes) : p ≠ pi := by
    rintro rfl
    obtain ⟨item, hitem⟩ := h.allocated hp
    exact absurd (hitem.symm.trans hpi) (by simp)
  have hhead : ∀ p, l.head = some p → p ∈ nodes := by
    intro p hp
    rw [h.links.head_eq] at hp
    exact List.mem_of_head? hp
  have hstore := storeAt_eq
    (l := { l with heap := Function.update l.heap pi (some ⟨none, l.head, d⟩) }) (q := l.head)
    (f := fun item => { item with prev := some pi }) (by
      intro p hp
      obtain ⟨item, hitem⟩ := h.allocated (hhead p hp)
      exact ⟨item, by simp [hne (hhead p hp), hitem]⟩)
  have hpihead : l.head ≠ some pi := fun hp => hne (hhead pi hp) rfl
  unfold listPushFront
  rw [hpi, if_neg (by simp)]
  dsimp only
  rw [hstore, Option.map_some]
  refine ⟨_, rfl, ?_, ?_, ?_⟩
  · apply h.links.pushFront (fun hm => hne hm rfl)
    · simp [next, hpihead]
    · simp [prev, hpihead]
    · intro p hp
      by_cases hph : l.head = some p
      · simp [next, hph, hne hp, Option.bind_map]
      · simp [next, hph, hne hp]
    · intro p hp
      obtain ⟨item, hitem⟩ := h.allocated (hhead p hp)
      simp [prev, hp, hne (hhead p hp), hitem]
    · intro p hp hph
      simp [prev, hph, hne hp]
  · rw [List.map_cons, List.map_cons, ← h.data]
    congr 1
    · simp [data, hpihead]
    · apply List.map_congr_left
      intro p hp
      by_cases hph : l.head = some p
      · simp [data, hph, hne hp, Function.comp_def]
      · simp [data, hph, hne hp]
  · simp [h.size]

theorem lockqueuePush_spec (h : l.Represents nodes items) (hpi : l.heap pi = none) (d : T) :
    ∃ l', l.lockqueuePush pi d = some l' ∧ l'.Represents (pi :: nodes) (d :: items) :=
  listPushFront_spec h hpi d

omit [DecidableEq N] in
theorem Represents.concat (h : l.Represents nodes (items ++ [d])) :
    ∃ nodes' p item, nodes = nodes' ++ [p] ∧ l.heap p = some item ∧ item.data = d ∧
      nodes'.map l.data = items.map some := by
  have hlen := h.length_eq
  cases nodes using List.reverseRecOn with
  | nil => simp at hlen
  | append_singleton nodes' p =>
    have hdata := h.data
    rw [List.map_append, List.map_append] at hdata
    obtain ⟨hfront, hlast⟩ := List.append_inj' hdata rfl
    obtain ⟨item, hitem, hd⟩ := Option.map_eq_some_iff.mp (List.cons.inj hlast).1
    exact ⟨nodes', p, item, rfl, hitem, hd, hfront⟩

omit [DecidableEq N] in
theorem Represents.size_pos (h : l.Represents nodes (items ++ [d])) : 0 < l.size := by
  rw [h.size, h.length_eq]
  simp

theorem listPopBack_spec (h : l.Represents nodes (items ++ [d])) :
    ∃ l' nodes', l.listPopBack = some (l', some d) ∧ l'.Represents nodes' items := by
  obtain ⟨nodes', q, item, rfl, hitem, hd, hdata⟩ := h.concat
  have htail : l.tail = some q := by
    rw [h.links.tail_eq]
    simp
  have hprev : l.prev q = item.prev := by simp [StList.prev, hitem]
  have hbefore : ∀ p, item.prev = some p → p ∈ nodes' := by
    intro p hp
    have hb := h.links.backward
    rw [List.reverse_append, List.reverse_singleton, List.singleton_append] at hb
    rw [← List.nil_append (q :: nodes'.reverse)] at hb
    have hhead : l.prev q = nodes'.reverse.head? := hb.next_eq_head
    rw [hprev, hp, List.head?_reverse] at hhead
    exact List.mem_of_getLast? hhead.symm
  have hne {p : N} (hp : p ∈ nodes') : p ≠ q := by
    rintro rfl
    exact (List.nodup_append.mp h.links.forward.nodup).2.2 p hp p (by simp) rfl
  have hstore := storeAt_eq (l := { l with tail := item.prev }) (q := item.prev)
    (f := fun item => { item with next := none }) (by
      intro p hp
      exact h.allocated (List.mem_append_left _ (hbefore p hp)))
  have hsize : l.size - 1 = nodes'.length := by
    rw [h.size]
    simp
  unfold listPopBack
  rw [if_pos h.size_pos, htail]
  simp only [Option.bind_eq_bind, Option.bind_some, hitem, hstore, hd]
  refine ⟨_, nodes', rfl, ?_, ?_, hsize⟩
  · have hif : (if l.size - 1 = 0 then none else l.head) =
        if nodes' = [] then none else l.head := by
      rw [hsize]
      simp
    rw [hif, ← hprev]
    apply h.links.popBack
    · intro p hp
      by_cases hph : item.prev = some p
      · simp [prev, hitem, hph, hne hp, Option.bind_map]
      · simp [prev, hitem, hph, hne hp]
    · intro p hp
      rw [hprev] at hp
      obtain ⟨item', hitem'⟩ := h.allocated (List.mem_append_left _ (hbefore p hp))
      simp [next, prev, hitem, hp, hne (hbefore p hp), hitem']
    · intro p hp hph
      rw [hprev] at hph
      simp [next, prev, hitem, hph, hne hp]
  · rw [← hdata]
    apply List.map_congr_left
    intro p hp
    by_cases hph : item.prev = some p
    · simp [data, hph, hne hp, Function.comp_def]
    · simp [data, hph, hne hp]

theorem lockqueuePop_spec (h : l.Represents nodes (items ++ [d])) :
    ∃ l' nodes', l.lockqueuePop = some (l', some d) ∧ l'.Represents nodes' items := by
  rw [lockqueuePop, if_neg h.size_pos.ne']
  exact listPopBack_spec h

theorem lockqueuePop_nil (h : l.Represents nodes []) : l.lockqueuePop = some (l, none) := by
  have hlen := h.length_eq
  rw [lockqueuePop, if_pos (by rw [h.size, hlen]; rfl)]

end Spec

end StList

end Afly
