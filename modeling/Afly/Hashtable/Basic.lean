import Mathlib.Algebra.Group.Nat.Defs
import Mathlib.Data.Fin.Basic
import Mathlib.Logic.Function.Basic

/-! # The table of an object's members

`hashtable.c` keeps the members of an object as pairs in two rings. One ring has
the pairs in the order in which they came in. In the other one the pairs of each
bucket stand together, and the bucket has the first and the last of them. The
heads of the rings lie in the table: a link to a head is `none`.
-/

namespace Afly

structure Links (P : Type*) where
  next : Option P → Option P
  prev : Option P → Option P

namespace Links

variable {P : Type*} [DecidableEq P] (m : Links P)

def listInit (list : Option P) : Links P where
  next := Function.update m.next list list
  prev := Function.update m.prev list list

def listInsert (list node : Option P) : Links P :=
  let m := { m with next := Function.update m.next node list }
  let m := { m with prev := Function.update m.prev node (m.prev list) }
  let m := { m with next := Function.update m.next (m.prev list) node }
  { m with prev := Function.update m.prev list node }

def listRemove (list : Option P) : Links P :=
  let m := { m with next := Function.update m.next (m.prev list) (m.next list) }
  { m with prev := Function.update m.prev (m.next list) (m.prev list) }

end Links

/-- A `hashtable_pair` without its links. -/
structure Pair (K V : Type*) where
  key : K
  hash : ℕ
  value : V

structure Bucket (P : Type*) where
  first : Option P
  last : Option P

namespace Bucket

variable {P : Type*} [DecidableEq P]

def isEmpty (bucket : Bucket P) : Bool := bucket.first = none && bucket.first = bucket.last

end Bucket

/-- A `hashtable_t` and the pairs that are allocated. -/
structure Hashtable (P K V : Type*) where
  size : ℕ
  order : ℕ
  buckets : Fin (2 ^ order) → Bucket P
  list : Links P
  orderedList : Links P
  pairs : P → Option (Pair K V)

namespace Hashtable

variable {P K V : Type*} [DecidableEq P] [DecidableEq K]

/-- The bucket of a hash: the same for the mask of `hashmask` and for the remainder. -/
def bucketOf (order hash : ℕ) : Fin (2 ^ order) :=
  ⟨hash % 2 ^ order, Nat.mod_lt _ (Nat.two_pow_pos order)⟩

def initialOrder : ℕ := 3

/-- The table after `hashtable_init`, in memory with any links. -/
def hashtableInit (list orderedList : Links P) : Hashtable P K V where
  size := 0
  order := initialOrder
  buckets := fun _ => ⟨none, none⟩
  list := list.listInit none
  orderedList := orderedList.listInit none
  pairs := fun _ => none

variable (t : Hashtable P K V)

def insertToBucket (index : Fin (2 ^ t.order)) (list : P) : Hashtable P K V :=
  let bucket := t.buckets index
  { t with
    list := t.list.listInsert (if bucket.isEmpty then none else bucket.first) (some list)
    buckets := Function.update t.buckets index
      (if bucket.isEmpty then ⟨some list, some list⟩ else { bucket with first := some list }) }

/-- The loop of `hashtable_find_pair`. It has no result where it comes to the head of the ring, to
a pair that is not allocated, or to no end. -/
def findLoop (bucket : Bucket P) (key : K) (hash : ℕ) : ℕ → Option P → Option (Option P)
  | 0, _ => none
  | _, none => none
  | rounds + 1, some p => (t.pairs p).bind fun pair =>
    if pair.hash = hash ∧ pair.key = key then some (some p)
    else if some p = bucket.last then some none
    else findLoop bucket key hash rounds (t.list.next (some p))

def findPair (rounds : ℕ) (bucket : Bucket P) (key : K) (hash : ℕ) : Option (Option P) :=
  if bucket.isEmpty then some none else t.findLoop bucket key hash rounds bucket.first

/-- What `hashtable_do_del` does with the pair that it finds. -/
def delPair (index : Fin (2 ^ t.order)) (p : P) : Hashtable P K V :=
  let bucket := t.buckets index
  { t with
    buckets := Function.update t.buckets index
      (if bucket.first = some p ∧ bucket.last = some p then ⟨none, none⟩
      else if bucket.first = some p then { bucket with first := t.list.next (some p) }
      else if bucket.last = some p then { bucket with last := t.list.prev (some p) }
      else bucket)
    list := t.list.listRemove (some p)
    orderedList := t.orderedList.listRemove (some p)
    pairs := Function.update t.pairs p none
    size := t.size - 1 }

/-- The loop of `hashtable_do_rehash`. -/
def rehashLoop : ℕ → Option P → Hashtable P K V → Option (Hashtable P K V)
  | _, none, t => some t
  | 0, some _, _ => none
  | rounds + 1, some p, t => (t.pairs p).bind fun pair =>
    let next := t.list.next (some p)
    rehashLoop rounds next (t.insertToBucket (bucketOf t.order pair.hash) p)

/-- `hashtable_do_rehash`, where there is memory for the new buckets or none. -/
def doRehash (rounds : ℕ) (malloc : Bool) : Option (Hashtable P K V × ℤ) :=
  if malloc then
    let list := t.list.next none
    (rehashLoop rounds list { t with
      order := t.order + 1
      buckets := fun _ => ⟨none, none⟩
      list := t.list.listInit none }).map fun t => (t, 0)
  else some (t, -1)

/-- The loop of `hashtable_do_clear`, which releases the pairs. -/
def clearLoop : ℕ → Option P → Hashtable P K V → Option (Hashtable P K V)
  | _, none, t => some t
  | 0, some _, _ => none
  | rounds + 1, some p, t => (t.pairs p).bind fun _ =>
    let next := t.list.next (some p)
    clearLoop rounds next { t with pairs := Function.update t.pairs p none }

def hashtableClear (rounds : ℕ) : Option (Hashtable P K V) :=
  (clearLoop rounds (t.list.next none) t).map fun t =>
    { t with
      buckets := fun _ => ⟨none, none⟩
      list := t.list.listInit none
      orderedList := t.orderedList.listInit none
      size := 0 }

/-- `hashtable_iter_next`, also from the head. -/
def iterNext (iter : Option P) : Option P := t.orderedList.next iter

def hashtableIter : Option P := t.iterNext none

-- The hash of a key, with the seed of the process.
variable (hashStr : K → ℕ)

/-- What `hashtable_set` does with the pair that is allocated. -/
def addPair (p : P) (key : K) (value : V) : Hashtable P K V :=
  let t := { t with pairs := Function.update t.pairs p (some ⟨key, hashStr key, value⟩) }
  let t := { t with
    list := t.list.listInit (some p)
    orderedList := t.orderedList.listInit (some p) }
  let t := t.insertToBucket (bucketOf t.order (hashStr key)) p
  { t with orderedList := t.orderedList.listInsert none (some p), size := t.size + 1 }

/-- `hashtable_set` behind the rehash. The new pair is missing where the key is too long or there is
no memory. -/
def setPair (rounds : ℕ) (new : Option P) (key : K) (value : V) :
    Option (Hashtable P K V × ℤ) :=
  let hash := hashStr key
  (t.findPair rounds (t.buckets (bucketOf t.order hash)) key hash).bind fun found =>
    match found, new with
    | some p, _ => (t.pairs p).map fun pair =>
      ({ t with pairs := Function.update t.pairs p (some { pair with value := value }) }, 0)
    | none, none => some (t, -1)
    | none, some p => some (t.addPair hashStr p key value, 0)

def hashtableSet (rounds : ℕ) (malloc : Bool) (new : Option P) (key : K) (value : V) :
    Option (Hashtable P K V × ℤ) :=
  if t.size ≥ 2 ^ t.order then
    (t.doRehash rounds malloc).bind fun (t, ret) =>
      if ret ≠ 0 then some (t, -1) else t.setPair hashStr rounds new key value
  else t.setPair hashStr rounds new key value

def hashtableGet (rounds : ℕ) (key : K) : Option (Option V) :=
  let hash := hashStr key
  (t.findPair rounds (t.buckets (bucketOf t.order hash)) key hash).bind fun found =>
    match found with
    | none => some none
    | some p => (t.pairs p).map fun pair => some pair.value

def hashtableDel (rounds : ℕ) (key : K) : Option (Hashtable P K V × ℤ) :=
  let hash := hashStr key
  let index := bucketOf t.order hash
  (t.findPair rounds (t.buckets index) key hash).map fun found =>
    match found with
    | none => (t, -1)
    | some p => (t.delPair index p, 0)

end Hashtable

end Afly
