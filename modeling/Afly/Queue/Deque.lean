import Afly.Lib.Reach
import Afly.Queue.List

/-! # The list as a double-ended queue

The other operations of `list.c`. Every operation at the tail is the one at the
head with the two links and the two ends of the list exchanged, so what holds at
one end holds at the other. In every run of pushes, pops and peeks the list
represents the double-ended queue that has seen the same operations.
-/

namespace Afly

open Chain Reach

/-- One operation on a list, with the address that `malloc` returns for a push. -/
inductive DequeOp (N T : Type*) where
  | pushFront (pi : N) (data : T)
  | pushBack (pi : N) (data : T)
  | popFront
  | popBack
  | peekFront
  | peekBack

/-- A double-ended queue, its front first: the elements after an operation, and the element that
the operation returns. -/
def DequeOp.on {N T : Type*} (queue : List T) : DequeOp N T → List T × Option T
  | .pushFront _ data => (data :: queue, none)
  | .pushBack _ data => (queue ++ [data], none)
  | .popFront => (queue.tail, queue.head?)
  | .popBack => (queue.dropLast, queue.getLast?)
  | .peekFront => (queue, queue.head?)
  | .peekBack => (queue, queue.getLast?)

def ListItem.mirror {N T : Type*} (item : ListItem N T) : ListItem N T :=
  ⟨item.next, item.prev, item.data⟩

namespace StList

variable {N T : Type}

section Operations

variable [DecidableEq N]

/-- `list_push_back`, with the address `pi` that `malloc` returns. -/
def listPushBack (l : StList N T) (pi : N) (data : T) : Option (StList N T) :=
  if (l.heap pi).isSome then none
  else
    let l := { l with heap := Function.update l.heap pi (some ⟨l.tail, none, data⟩) }
    (l.storeAt (fun item => { item with next := some pi }) l.tail).map fun (l : StList N T) =>
      { l with
        head := if l.head.isNone then some pi else l.head
        tail := some pi
        size := l.size + 1 }

/-- `list_pop_front`: the list, and the element when it returns true. -/
def listPopFront (l : StList N T) : Option (StList N T × Option T) :=
  if l.size > 0 then do
    let pi ← l.head
    let item ← l.heap pi
    let l := { l with head := item.next }
    let l ← l.storeAt (fun item => { item with prev := none }) l.head
    let l := { l with
      size := l.size - 1
      tail := if l.size - 1 = 0 then none else l.tail
      heap := Function.update l.heap pi none }
    some (l, some item.data)
  else some (l, none)

omit [DecidableEq N] in
/-- `list_peek_front`: the element when it returns true. -/
def listPeekFront (l : StList N T) : Option (Option T) :=
  if l.size > 0 then do
    let pi ← l.head
    let item ← l.heap pi
    some (some item.data)
  else some none

omit [DecidableEq N] in
def listPeekBack (l : StList N T) : Option (Option T) :=
  if l.size > 0 then do
    let pi ← l.tail
    let item ← l.heap pi
    some (some item.data)
  else some none

/-- The list after an operation, and the element that the operation returns. -/
def serve (l : StList N T) : DequeOp N T → Option (StList N T × Option T)
  | .pushFront pi data => (l.listPushFront pi data).map (·, none)
  | .pushBack pi data => (l.listPushBack pi data).map (·, none)
  | .popFront => l.listPopFront
  | .popBack => l.listPopBack
  | .peekFront => l.listPeekFront.map (l, ·)
  | .peekBack => l.listPeekBack.map (l, ·)

end Operations

/-- The list with the two links of every node and its two ends exchanged. -/
def mirror (l : StList N T) : StList N T :=
  ⟨Option.map ListItem.mirror ∘ l.heap, l.tail, l.head, l.size⟩

section Mirror

variable {l : StList N T} {nodes : List N} {items : List T}

@[simp] theorem next_mirror : l.mirror.next = l.prev := by
  ext p : 1
  simp [next, prev, mirror, Option.bind_map, Function.comp_def, ListItem.mirror]

@[simp] theorem prev_mirror : l.mirror.prev = l.next := by
  ext p : 1
  simp [next, prev, mirror, Option.bind_map, Function.comp_def, ListItem.mirror]

@[simp] theorem data_mirror : l.mirror.data = l.data := by
  ext p : 1
  simp [data, mirror, Function.comp_def, ListItem.mirror]

@[simp] theorem mirror_mirror : l.mirror.mirror = l := by
  simp [mirror, Function.comp_def, ListItem.mirror]

theorem Represents.mirror (h : l.Represents nodes items) :
    l.mirror.Represents nodes.reverse items.reverse where
  links := by
    rw [next_mirror, prev_mirror]
    exact h.links.symm
  data := by rw [data_mirror, List.map_reverse, List.map_reverse, h.data]
  size := by
    rw [List.length_reverse]
    exact h.size

variable [DecidableEq N]

theorem mirror_storeAt {f g : ListItem N T → ListItem N T} (q : Option N)
    (hfg : ∀ item, (f item).mirror = g item.mirror) :
    (l.storeAt f q).map mirror = l.mirror.storeAt g q := by
  cases q with
  | none => rfl
  | some p =>
    cases hp : l.heap p with
    | none => simp [storeAt, mirror, hp]
    | some item => simp [storeAt, mirror, hp, Function.comp_update, hfg]

theorem listPushFront_mirror (pi : N) (d : T) :
    l.mirror.listPushFront pi d = (l.listPushBack pi d).map mirror := by
  unfold listPushFront listPushBack
  cases hpi : l.heap pi with
  | some item => simp [mirror, hpi]
  | none =>
    have hstore := mirror_storeAt
      (l := { l with heap := Function.update l.heap pi (some ⟨l.tail, none, d⟩) })
      (f := fun item => { item with next := some pi })
      (g := fun item => { item with prev := some pi }) l.tail fun _ => rfl
    simp only [mirror, Function.comp_update, Function.comp_apply, hpi, Option.map_none,
      Option.isSome_none, Bool.false_eq_true, if_false, Option.map_some,
      ListItem.mirror] at hstore ⊢
    rw [← hstore, Option.map_map, Option.map_map]
    rfl

theorem listPopBack_mirror :
    l.mirror.listPopBack = l.listPopFront.map fun r => (r.1.mirror, r.2) := by
  unfold listPopBack listPopFront
  change (if l.size > 0 then _ else _) = _
  split
  · cases hhead : l.head with
    | none => simp [mirror, hhead]
    | some pi =>
      cases hitem : l.heap pi with
      | none => simp [mirror, hhead, hitem]
      | some item =>
        have hstore := mirror_storeAt (l := { l with head := item.next })
          (f := fun item => { item with prev := none })
          (g := fun item => { item with next := none }) item.next fun _ => rfl
        simp only [mirror, hhead, hitem, Function.comp_apply, Option.map_some,
          Option.bind_eq_bind, Option.bind_some, ListItem.mirror] at hstore ⊢
        rw [← hstore, Option.bind_map, Option.map_bind]
        refine Option.bind_congr fun a _ => ?_
        simp only [Function.comp_apply, Option.map_some, mirror, Function.comp_update,
          Option.map_none]
        rfl
  · rfl

omit [DecidableEq N] in
theorem listPeekBack_mirror : l.mirror.listPeekBack = l.listPeekFront := by
  unfold listPeekBack listPeekFront
  change (if l.size > 0 then _ else _) = _
  split
  · cases hhead : l.head with
    | none => simp [mirror, hhead]
    | some pi => cases hitem : l.heap pi <;> simp [mirror, hhead, hitem, ListItem.mirror]
  · rfl

end Mirror

section Spec

variable {l : StList N T} {nodes : List N} {items : List T} {pi : N} {d : T}

theorem Represents.size_nil (h : l.Represents nodes []) : ¬ l.size > 0 := by
  rw [h.size, h.length_eq]
  simp

theorem listPeekBack_spec (h : l.Represents nodes items) :
    l.listPeekBack = some items.getLast? := by
  unfold listPeekBack
  cases items using List.reverseRecOn with
  | nil => rw [if_neg h.size_nil]; rfl
  | append_singleton items d =>
    obtain ⟨nodes', p, item, rfl, hitem, rfl, -⟩ := h.concat
    have htail : l.tail = some p := by
      rw [h.links.tail_eq]
      simp
    rw [if_pos h.size_pos, htail, List.getLast?_concat]
    simp only [Option.bind_eq_bind, Option.bind_some, hitem]

theorem listPeekFront_spec (h : l.Represents nodes items) :
    l.listPeekFront = some items.head? := by
  rw [← listPeekBack_mirror, listPeekBack_spec h.mirror, List.getLast?_reverse]

variable [DecidableEq N]

theorem listPushBack_spec (h : l.Represents nodes items) (hpi : l.heap pi = none) (d : T) :
    ∃ l', l.listPushBack pi d = some l' ∧ l'.Represents (nodes ++ [pi]) (items ++ [d]) := by
  have hpi' : l.mirror.heap pi = none := by simp [mirror, hpi]
  obtain ⟨m, hm, hr⟩ := listPushFront_spec h.mirror hpi' d
  rw [listPushFront_mirror] at hm
  obtain ⟨l', hl', rfl⟩ := Option.map_eq_some_iff.mp hm
  refine ⟨l', hl', ?_⟩
  simpa using hr.mirror

theorem listPopFront_spec (h : l.Represents nodes (d :: items)) :
    ∃ l' nodes', l.listPopFront = some (l', some d) ∧ l'.Represents nodes' items := by
  have hm := h.mirror
  rw [List.reverse_cons] at hm
  obtain ⟨m, nodes', hpop, hr⟩ := listPopBack_spec hm
  rw [listPopBack_mirror] at hpop
  obtain ⟨⟨l', answer⟩, hl', he⟩ := Option.map_eq_some_iff.mp hpop
  cases he
  refine ⟨l', nodes'.reverse, hl', ?_⟩
  simpa using hr.mirror

theorem listPopBack_nil (h : l.Represents nodes []) : l.listPopBack = some (l, none) := by
  rw [listPopBack, if_neg h.size_nil]

theorem listPopFront_nil (h : l.Represents nodes []) : l.listPopFront = some (l, none) := by
  rw [listPopFront, if_neg h.size_nil]

end Spec

/-- The address that `malloc` returns is not in use. -/
def Fresh (l : StList N T) : DequeOp N T → Prop
  | .pushFront pi _ => l.heap pi = none
  | .pushBack pi _ => l.heap pi = none
  | _ => True

theorem serve_spec [DecidableEq N] {l : StList N T} {nodes : List N} {queue : List T}
    {op : DequeOp N T} (h : l.Represents nodes queue) (hop : l.Fresh op) :
    ∃ l' nodes', l.serve op = some (l', (op.on queue).2) ∧
      l'.Represents nodes' (op.on queue).1 := by
  cases op with
  | pushFront pi d =>
    obtain ⟨l', hl', hr⟩ := listPushFront_spec h hop d
    exact ⟨l', pi :: nodes, by rw [serve, hl']; rfl, hr⟩
  | pushBack pi d =>
    obtain ⟨l', hl', hr⟩ := listPushBack_spec h hop d
    exact ⟨l', nodes ++ [pi], by rw [serve, hl']; rfl, hr⟩
  | popFront =>
    cases queue with
    | nil => exact ⟨l, nodes, listPopFront_nil h, h⟩
    | cons d queue => exact listPopFront_spec h
  | popBack =>
    cases queue using List.reverseRecOn with
    | nil => exact ⟨l, nodes, listPopBack_nil h, h⟩
    | append_singleton queue d =>
      unfold DequeOp.on
      rw [List.getLast?_concat, List.dropLast_concat]
      exact listPopBack_spec h
  | peekFront => exact ⟨l, nodes, by rw [serve, listPeekFront_spec h]; rfl, h⟩
  | peekBack => exact ⟨l, nodes, by rw [serve, listPeekBack_spec h]; rfl, h⟩

end StList

/-- A list and the double-ended queue that has seen the same operations. -/
structure Deque (N T : Type) where
  list : StList N T
  queue : List T

namespace Deque

variable {N T : Type} [DecidableEq N]

def init : Deque N T := ⟨StList.init, []⟩

def step (D : Deque N T) (op : DequeOp N T) : Option (Deque N T) :=
  (D.list.serve op).map fun r => ⟨r.1, (op.on D.queue).1⟩

/-- `malloc` never returns an address in use. -/
def Fresh (D : Deque N T) (op : DequeOp N T) : Prop := D.list.Fresh op

theorem represents {D : Deque N T} (hD : Reachable step Fresh init D) :
    ∃ nodes, D.list.Represents nodes D.queue := by
  refine hD.invariant (I := fun D => ∃ nodes, D.list.Represents nodes D.queue) ?_ ?_
  · exact ⟨[], StList.represents_init⟩
  · rintro D op D' ⟨nodes, h⟩ hop hs
    obtain ⟨l', nodes', hl', hr⟩ := StList.serve_spec h hop
    rw [step, hl'] at hs
    cases hs
    exact ⟨nodes', hr⟩

/-- After every sequence of operations the links from the head and the links from the tail visit
the same nodes in opposite order, `size` is their number, they hold the elements of the double-ended
queue, the two ends are null exactly for the empty list, and the next operation is defined and
returns what the queue returns. -/
theorem list_refines_deque {D : Deque N T} (hD : Reachable step Fresh init D) :
    (∃ nodes, Linked D.list.next D.list.head nodes ∧ Linked D.list.prev D.list.tail nodes.reverse ∧
      D.list.size = nodes.length ∧ nodes.map D.list.data = D.queue.map some) ∧
    (D.list.head = none ↔ D.list.size = 0) ∧ (D.list.tail = none ↔ D.list.size = 0) ∧
    (D.list.size = 0 ↔ D.queue = []) ∧
    ∀ op, D.Fresh op → ∃ l, D.list.serve op = some (l, (op.on D.queue).2) := by
  obtain ⟨nodes, h⟩ := represents hD
  have hsize : D.list.size = 0 ↔ nodes = [] := by
    rw [h.size]
    simp
  refine ⟨⟨nodes, h.links.forward, h.links.backward, h.size, h.data⟩, ?_, ?_, ?_, ?_⟩
  · rw [h.links.head_eq, hsize, List.head?_eq_none_iff]
  · rw [h.links.tail_eq, hsize, List.getLast?_eq_none_iff]
  · rw [h.size, h.length_eq]
    simp
  · intro op hop
    obtain ⟨l, -, hl, -⟩ := StList.serve_spec h hop
    exact ⟨l, hl⟩

theorem list_refines_deque_ends : ∃ D : Deque ℕ ℕ, D.queue = [7, 8] ∧ D.list.size = 2 ∧
    ∀ op, D.Fresh op → ∃ l, D.list.serve op = some (l, (op.on [7, 8]).2) := by
  have hback : (init : Deque ℕ ℕ).Fresh (.pushBack 1 8) := rfl
  obtain ⟨D₁, hD₁⟩ : ∃ D, (init : Deque ℕ ℕ).step (.pushBack 1 8) = some D := ⟨_, rfl⟩
  have hfront : D₁.Fresh (.pushFront 0 7) := by cases hD₁; rfl
  obtain ⟨D₂, hD₂⟩ : ∃ D, D₁.step (.pushFront 0 7) = some D := by cases hD₁; exact ⟨_, rfl⟩
  have hD := (Reachable.start.next hback hD₁).next hfront hD₂
  cases hD₁
  cases hD₂
  exact ⟨_, rfl, rfl, (list_refines_deque hD).2.2.2.2⟩

end Deque

end Afly
