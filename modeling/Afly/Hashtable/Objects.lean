import Afly.C.Utf8
import Afly.Hashtable.Refinement

/-! # The members of an object over a run

An object serves any sequence of operations, in a process with any seed of the
hash function, and `malloc` may fail at any of them. Members are found, dropped
and listed as in a map in order of entry, which is what the rest of the program
takes an object for.
-/

namespace Afly

open Chain Reach

/-- An operation, with what the allocations in it return. -/
inductive MemberOp (P K V : Type*) where
  | set (malloc : Bool) (new : Option P) (key : K) (value : V)
  | get (key : K)
  | del (key : K)
  | clear

inductive MemberAnswer (V : Type*) where
  | code (ret : ℤ)
  | value (value : Option V)
  | done

namespace MemberOp

variable {P K V : Type*} [DecidableEq K]

/-- The map after an operation that returned an answer. -/
def on (table : List (K × V)) : MemberOp P K V → MemberAnswer V → List (K × V)
  | .set _ _ key value, .code ret => if ret = 0 then Keyed.put key value table else table
  | .del key, _ => Keyed.drop key table
  | .clear, _ => []
  | _, _ => table

/-- The answers of a map: a member stays unset only where there is no memory for more buckets, or
none for the pair of a new key. -/
def Answers (table : List (K × V)) : MemberOp P K V → MemberAnswer V → Prop
  | .set malloc new key _, a => a = .code 0 ∨
    a = .code (-1) ∧ (malloc = false ∨ new = none ∧ key ∉ table.map Prod.fst)
  | .get key, a => a = .value (table.lookup key)
  | .del key, a => a = .code (if key ∈ table.map Prod.fst then 0 else -1)
  | .clear, a => a = .done

end MemberOp

namespace Hashtable

variable {P K V : Type*} [DecidableEq P] [DecidableEq K] (hashStr : K → ℕ)

def serve (rounds : ℕ) (t : Hashtable P K V) :
    MemberOp P K V → Option (Hashtable P K V × MemberAnswer V)
  | .set malloc new key value =>
    (t.hashtableSet hashStr rounds malloc new key value).map fun (t, ret) => (t, .code ret)
  | .get key => (t.hashtableGet hashStr rounds key).map fun value => (t, .value value)
  | .del key => (t.hashtableDel hashStr rounds key).map fun (t, ret) => (t, .code ret)
  | .clear => (t.hashtableClear rounds).map fun t => (t, .done)

/-- `malloc` returns a pair that is not in use. -/
def Fresh (t : Hashtable P K V) : MemberOp P K V → Prop
  | .set _ new _ _ => ∀ p, new = some p → t.pairs p = none
  | _ => True

/-- The loop of `json_object_foreach` from a pair on: the members in the order of the loop. -/
def foreachLoop (t : Hashtable P K V) : ℕ → Option P → Option (List (K × V))
  | _, none => some []
  | 0, some _ => none
  | rounds + 1, some p => (t.pairs p).bind fun pair =>
    (foreachLoop t rounds (t.iterNext (some p))).map fun members =>
      (pair.key, pair.value) :: members

def jsonObjectForeach (t : Hashtable P K V) (rounds : ℕ) : Option (List (K × V)) :=
  t.foreachLoop rounds t.hashtableIter

variable {hashStr} {t : Hashtable P K V} {nodes : List P} {table : List (K × V)} {rounds : ℕ}

theorem serve_spec {op : MemberOp P K V} (h : t.Represents hashStr nodes table)
    (hrounds : t.size ≤ rounds) (hop : t.Fresh op) : ∃ t' nodes' a,
      t.serve hashStr rounds op = some (t', a) ∧ op.Answers table a ∧
      t'.Represents hashStr nodes' (op.on table a) := by
  cases op with
  | set malloc new key value =>
    obtain ⟨t', nodes', ret, hset, hret, hr⟩ := h.hashtableSet_spec hrounds hop
    refine ⟨t', nodes', .code ret, by rw [serve, hset, Option.map_some], ?_, hr⟩
    rcases hret with rfl | ⟨rfl, hmemory⟩
    · exact Or.inl rfl
    · exact Or.inr ⟨rfl, hmemory⟩
  | get key => exact ⟨t, nodes, _, by rw [serve, h.hashtableGet_eq hrounds]; rfl, rfl, h⟩
  | del key =>
    obtain ⟨t', nodes', hdel, hr⟩ := h.hashtableDel_spec hrounds key
    exact ⟨t', nodes', _, by rw [serve, hdel]; rfl, rfl, hr⟩
  | clear =>
    obtain ⟨t', hclear, hr, -⟩ := h.hashtableClear_spec hrounds
    exact ⟨t', [], .done, by rw [serve, hclear]; rfl, rfl, hr⟩

omit [DecidableEq P] [DecidableEq K] in
theorem foreachLoop_eq {iter : Option P} (h : Linked (t.orderedList.next ∘ some) iter nodes)
    (hpairs : nodes.map t.pairs = table.map (pairOf hashStr)) (hrounds : nodes.length ≤ rounds) :
    t.foreachLoop rounds iter = some table := by
  induction nodes generalizing iter table rounds with
  | nil =>
    obtain rfl := linked_nil.mp h
    obtain rfl := List.map_eq_nil_iff.mp hpairs.symm
    cases rounds <;> rfl
  | cons p nodes ih =>
    obtain ⟨rounds, rfl⟩ : ∃ k, rounds = k + 1 := ⟨rounds - 1, by
      simp only [List.length_cons] at hrounds
      omega⟩
    obtain ⟨rfl, hnext⟩ := h
    obtain ⟨e, table, rfl, hp, hrest⟩ := List.map_eq_cons_iff.mp hpairs.symm
    rw [foreachLoop, ← hp]
    change Option.map _ (t.foreachLoop rounds (t.orderedList.next (some p))) = _
    have hloop := ih hnext hrest.symm (by simpa using hrounds)
    rw [show t.orderedList.next (some p) = (t.orderedList.next ∘ some) p from rfl, hloop]
    rfl

end Hashtable

/-- A table and the map that has seen the same operations. -/
structure Members (P K V : Type) where
  table : Hashtable P K V
  map : List (K × V)

namespace Members

variable {P K V : Type} [DecidableEq P] [DecidableEq K] (hashStr : K → ℕ)

def init (list orderedList : Links P) : Members P K V := ⟨.hashtableInit list orderedList, []⟩

def step (M : Members P K V) (op : MemberOp P K V) : Option (Members P K V) :=
  (M.table.serve hashStr M.table.size op).map fun (t, a) => ⟨t, op.on M.map a⟩

def Fresh (M : Members P K V) (op : MemberOp P K V) : Prop := M.table.Fresh op

variable {hashStr} {list orderedList : Links P}

theorem represents {M : Members P K V}
    (hM : Reachable (step hashStr) Fresh (init list orderedList) M) :
    ∃ nodes, M.table.Represents hashStr nodes M.map := by
  refine hM.invariant (I := fun M => ∃ nodes, M.table.Represents hashStr nodes M.map) ?_ ?_
  · exact ⟨[], Hashtable.represents_init list orderedList⟩
  · rintro M op M' ⟨nodes, h⟩ hop hs
    obtain ⟨t', nodes', a, hserve, -, hr⟩ := Hashtable.serve_spec h le_rfl hop
    rw [step, hserve] at hs
    cases hs
    exact ⟨nodes', hr⟩

/-- For every hash function and every sequence of operations, with allocations that fail or not: the
keys of the map are distinct, `json_object_foreach` goes through its members in their order of
entry, `size` is their number and never exceeds the number of buckets, and the next operation comes
to its end within as many rounds of its loops and answers as the map does. -/
theorem hashtable_refines_map {M : Members P K V}
    (hM : Reachable (step hashStr) Fresh (init list orderedList) M) :
    (M.map.map Prod.fst).Nodup ∧ M.table.jsonObjectForeach M.table.size = some M.map ∧
    M.table.size = M.map.length ∧ M.table.size ≤ 2 ^ M.table.order ∧
    ∀ op, M.Fresh op → ∀ rounds ≥ M.table.size, ∃ t a,
      M.table.serve hashStr rounds op = some (t, a) ∧ op.Answers M.map a := by
  obtain ⟨nodes, h⟩ := represents hM
  have hlength : nodes.length = M.map.length := by
    simpa using congrArg List.length h.pairs
  refine ⟨h.keys, ?_, h.size.trans hlength, h.load, fun op hop rounds hrounds => ?_⟩
  · exact Hashtable.foreachLoop_eq h.ordered.forward h.pairs h.size.ge
  · obtain ⟨t, -, a, hserve, ha, -⟩ := Hashtable.serve_spec h hrounds hop
    exact ⟨t, a, hserve, ha⟩

/-- Two keys in one bucket, one of which is dropped. -/
theorem hashtable_refines_map_collision : ∃ M : Members ℕ ℕ ℕ, M.map = [(8, 80)] ∧
    M.table.jsonObjectForeach M.table.size = some [(8, 80)] ∧
    ∃ t a, M.table.serve (fun _ => 5) 3 (.get 8) = some (t, a) ∧
      (MemberOp.get 8 : MemberOp ℕ ℕ ℕ).Answers [(8, 80)] a := by
  let links : Links ℕ := ⟨id, id⟩
  have h₁ : (init links links : Members ℕ ℕ ℕ).Fresh (.set true (some 0) 7 70) := fun _ _ => rfl
  obtain ⟨M₁, hM₁⟩ : ∃ M, (init links links).step (fun _ => 5) (.set true (some 0) 7 70) = some M :=
    ⟨_, rfl⟩
  have h₂ : M₁.Fresh (.set true (some 1) 8 80) := by
    cases hM₁
    rintro _ ⟨⟩
    rfl
  obtain ⟨M₂, hM₂⟩ : ∃ M, M₁.step (fun _ => 5) (.set true (some 1) 8 80) = some M := by
    cases hM₁
    exact ⟨_, rfl⟩
  obtain ⟨M₃, hM₃⟩ : ∃ M, M₂.step (fun _ => 5) (.del 7) = some M := by
    cases hM₁
    cases hM₂
    exact ⟨_, rfl⟩
  have h₃ : M₂.Fresh (.del 7) := trivial
  have hM := ((Reachable.start.next h₁ hM₁).next h₂ hM₂).next h₃ hM₃
  cases hM₁
  cases hM₂
  cases hM₃
  have h := hashtable_refines_map hM
  exact ⟨_, rfl, h.2.1, h.2.2.2.2 (.get 8) trivial 3 (by decide)⟩

end Members

end Afly
