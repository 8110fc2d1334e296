import Afly.Hashtable.Basic
import Afly.Lib.Ring

/-! # The pairs of a bucket stand together

The ring that the buckets point into has the pairs of one bucket after those of
another, in the order in which the buckets came to have pairs. A new pair goes in
front of those of its bucket, or to the end of the ring where the bucket is
empty. The loop over a bucket stays among its pairs.
-/

namespace Afly

open Chain

namespace Links

variable {P : Type*} [DecidableEq P] {m : Links P} {l l₁ l₂ : List P} {p q : P}

theorem listInit_ring (m : Links P) : Ring (m.listInit none).next (m.listInit none).prev [] := by
  constructor
  · exact Function.update_self none none m.next
  · exact Function.update_self none none m.prev

theorem listInit_ring_of_notMem (h : Ring m.next m.prev l) (hq : q ∉ l) :
    Ring (m.listInit (some q)).next (m.listInit (some q)).prev l := by
  have hne {x : Option P} (hx : ∀ p, x = some p → p ∈ l) : x ≠ some q := fun he => hq (hx q he)
  exact h.congr (fun x hx => Function.update_of_ne (hne hx) ..)
    fun x hx => Function.update_of_ne (hne hx) ..

theorem listInsert_eq {list node : Option P} (hne : list ≠ node) : m.listInsert list node =
    ⟨Function.update (Function.update m.next node list) (m.prev list) node,
      Function.update (Function.update m.prev node (m.prev list)) list node⟩ := by
  unfold listInsert
  dsimp only
  rw [Function.update_of_ne hne]

theorem listInsert_ring (h : Ring m.next m.prev (l₁ ++ l₂)) (hq : q ∉ l₁ ++ l₂) :
    Ring (m.listInsert l₂.head? (some q)).next (m.listInsert l₂.head? (some q)).prev
      (l₁ ++ q :: l₂) := by
  have hne : l₂.head? ≠ some q := fun he => hq (List.mem_append_right _ (List.mem_of_head? he))
  rw [listInsert_eq hne, h.prev_place]
  exact h.insert hq

theorem listInsert_next (h : Ring m.next m.prev (l₁ ++ l₂)) (hq : q ∉ l₁ ++ l₂) (hpq : p ≠ q)
    (hp : p ∉ l₁ ++ l₂) : (m.listInsert l₂.head? (some q)).next (some p) = m.next (some p) := by
  have hne : l₂.head? ≠ some q := fun he => hq (List.mem_append_right _ (List.mem_of_head? he))
  rw [listInsert_eq hne, h.prev_place]
  dsimp only
  rw [Function.update_of_ne, Function.update_of_ne (by simpa using hpq)]
  intro he
  exact hp (List.mem_append_left _ (List.mem_of_getLast? he.symm))

theorem listRemove_ring (h : Ring m.next m.prev (l₁ ++ p :: l₂)) :
    Ring (m.listRemove (some p)).next (m.listRemove (some p)).prev (l₁ ++ l₂) := by
  have hprev : m.prev (some p) = l₁.getLast? := h.prev_place
  have hne : some p ≠ m.prev (some p) := by
    rw [hprev]
    intro he
    exact (List.nodup_append.mp h.nodup).2.2 p (List.mem_of_getLast? he.symm) p
      List.mem_cons_self rfl
  unfold listRemove
  dsimp only
  rw [Function.update_of_ne hne]
  exact h.remove

end Links

namespace Hashtable

variable {P K V : Type*} {t : Hashtable P K V}

def index (t : Hashtable P K V) (p : P) : Option (Fin (2 ^ t.order)) :=
  (t.pairs p).map fun pair => bucketOf t.order pair.hash

/-- The ring has the pairs of the buckets that are in use, one bucket after the other. -/
structure Grouped (t : Hashtable P K V) (group : Fin (2 ^ t.order) → List P)
    (used : List (Fin (2 ^ t.order))) : Prop where
  nodup : used.Nodup
  mem : ∀ i, i ∈ used ↔ group i ≠ []
  index : ∀ i, ∀ p ∈ group i, t.index p = some i
  buckets : ∀ i, t.buckets i = ⟨(group i).head?, (group i).getLast?⟩
  ring : Ring t.list.next t.list.prev (used.flatMap group)

variable {group : Fin (2 ^ t.order) → List P} {used : List (Fin (2 ^ t.order))}
  {i : Fin (2 ^ t.order)} {p q : P} {l : List P}

theorem flatMap_update (h : i ∉ used) :
    used.flatMap (Function.update group i l) = used.flatMap group := by
  refine List.flatMap_congr fun j hj => Function.update_of_ne ?_ ..
  rintro rfl
  exact h hj

theorem Bucket.isEmpty_iff [DecidableEq P] (l : List P) :
    (Bucket.mk l.head? l.getLast?).isEmpty = true ↔ l = [] := by
  cases l with
  | nil => simp [Bucket.isEmpty]
  | cons p l => simp [Bucket.isEmpty]

namespace Grouped

theorem split (h : t.Grouped group used) (hi : group i ≠ []) : ∃ u₁ u₂, used = u₁ ++ i :: u₂ ∧
    i ∉ u₁ ∧ i ∉ u₂ ∧
    used.flatMap group = u₁.flatMap group ++ (group i ++ u₂.flatMap group) := by
  obtain ⟨u₁, u₂, rfl⟩ := List.append_of_mem ((h.mem i).mpr hi)
  have hd := List.nodup_append.mp h.nodup
  refine ⟨u₁, u₂, rfl, fun hu => ?_, (List.nodup_cons.mp hd.2.1).1, ?_⟩
  · exact hd.2.2 i hu i List.mem_cons_self rfl
  · rw [List.flatMap_append, List.flatMap_cons]

theorem mem_flatMap (h : t.Grouped group used) : p ∈ used.flatMap group ↔ ∃ i, p ∈ group i := by
  rw [List.mem_flatMap]
  constructor
  · rintro ⟨i, -, hp⟩
    exact ⟨i, hp⟩
  · rintro ⟨i, hp⟩
    exact ⟨i, (h.mem i).mpr (List.ne_nil_of_mem hp), hp⟩

theorem mem_group (h : t.Grouped group used) (hi : t.index p = some i) :
    p ∈ used.flatMap group ↔ p ∈ group i := by
  rw [h.mem_flatMap]
  constructor
  · rintro ⟨j, hp⟩
    cases (h.index j p hp).symm.trans hi
    exact hp
  · intro hp
    exact ⟨i, hp⟩

theorem change (h : t.Grouped group used) {used' : List (Fin (2 ^ t.order))} {size : ℕ}
    {b : Bucket P} {m ordered : Links P} {pairs : P → Option (Pair K V)} (hnodup : used'.Nodup)
    (hused : ∀ j, j ≠ i → (j ∈ used' ↔ j ∈ used)) (hi : i ∈ used' ↔ l ≠ [])
    (hindex : ∀ q ∈ l, t.index q = some i ∧ pairs q = t.pairs q)
    (hkept : ∀ q, t.index q ≠ some i → pairs q = t.pairs q) (hb : b = ⟨l.head?, l.getLast?⟩)
    (hring : Ring m.next m.prev (used'.flatMap (Function.update group i l))) :
    Grouped ⟨size, t.order, Function.update t.buckets i b, m, ordered, pairs⟩
      (Function.update group i l) used' where
  nodup := hnodup
  mem j := by
    by_cases hj : j = i
    · rw [hj, Function.update_self]
      exact hi
    · rw [Function.update_of_ne hj, ← h.mem]
      exact hused j hj
  index j q hq := by
    have hpair : t.index q = some j ∧ pairs q = t.pairs q := by
      by_cases hj : j = i
      · rw [hj, Function.update_self] at hq
        rw [hj]
        exact hindex q hq
      · rw [Function.update_of_ne hj] at hq
        have hq := h.index j q hq
        refine ⟨hq, hkept q fun he => hj ?_⟩
        exact Option.some.inj (hq.symm.trans he)
    exact (congrArg (Option.map _) hpair.2).trans hpair.1
  buckets j := by
    by_cases hj : j = i
    · rw [hj, Function.update_self]
      exact (Function.update_self ..).trans hb
    · rw [Function.update_of_ne hj]
      exact (Function.update_of_ne hj ..).trans (h.buckets j)
  ring := hring

variable [DecidableEq P]

theorem place (h : t.Grouped group used) (i : Fin (2 ^ t.order)) : ∃ l₁ l₂,
    used.flatMap group = l₁ ++ l₂ ∧
    (if (t.buckets i).isEmpty then none else (t.buckets i).first) = l₂.head? ∧
    ∀ p, (if group i = [] then used ++ [i] else used).flatMap
      (Function.update group i (p :: group i)) = l₁ ++ p :: l₂ := by
  rw [h.buckets]
  simp only [Bucket.isEmpty_iff]
  by_cases hi : group i = []
  · refine ⟨used.flatMap group, [], (List.append_nil _).symm, by rw [if_pos hi]; rfl, fun p => ?_⟩
    have hnot : i ∉ used := fun hu => (h.mem i).mp hu hi
    rw [if_pos hi, List.flatMap_append, flatMap_update hnot, List.flatMap_singleton,
      Function.update_self, hi]
  · obtain ⟨u₁, u₂, hu, hi₁, hi₂, hsplit⟩ := h.split hi
    refine ⟨u₁.flatMap group, group i ++ u₂.flatMap group, hsplit, ?_, fun p => ?_⟩
    · rw [if_neg hi, List.head?_append_of_ne_nil _ hi]
    · rw [if_neg hi, hu, List.flatMap_append, List.flatMap_cons, flatMap_update hi₁,
        flatMap_update hi₂, Function.update_self, List.cons_append]

theorem insertToBucket (h : t.Grouped group used) (hp : p ∉ used.flatMap group)
    (hi : t.index p = some i) : (t.insertToBucket i p).Grouped
      (Function.update group i (p :: group i)) (if group i = [] then used ++ [i] else used) := by
  obtain ⟨l₁, l₂, hsplit, hplace, hflat⟩ := h.place i
  have hring := h.ring
  rw [hsplit] at hring hp
  have hlist := Links.listInsert_ring hring hp
  rw [← hplace, ← hflat] at hlist
  have hnodup : (if group i = [] then used ++ [i] else used).Nodup := by
    split_ifs with hnil
    · refine h.nodup.append (List.nodup_singleton i) ?_
      rw [List.disjoint_singleton]
      exact fun hu => (h.mem i).mp hu hnil
    · exact h.nodup
  have hused (j : Fin (2 ^ t.order)) (hj : j ≠ i) :
      j ∈ (if group i = [] then used ++ [i] else used) ↔ j ∈ used := by
    split_ifs
    · simp [hj]
    · rfl
  have hself : i ∈ if group i = [] then used ++ [i] else used := by
    split_ifs with hnil
    · simp
    · exact (h.mem i).mpr hnil
  refine h.change hnodup hused (iff_of_true hself (List.cons_ne_nil _ _))
    (fun q hq => ⟨?_, rfl⟩) (fun q _ => rfl) ?_ hlist
  · rcases List.mem_cons.mp hq with rfl | hq
    · exact hi
    · exact h.index i q hq
  · rw [h.buckets]
    simp only [Bucket.isEmpty_iff]
    by_cases hnil : group i = []
    · rw [if_pos hnil, hnil]
      rfl
    · rw [if_neg hnil, List.head?_cons, List.getLast?_cons_of_ne_nil hnil]

theorem insertToBucket_next (h : t.Grouped group used) (i : Fin (2 ^ t.order))
    (hp : p ∉ used.flatMap group) (hqp : q ≠ p) (hq : q ∉ used.flatMap group) :
    (t.insertToBucket i p).list.next (some q) = t.list.next (some q) := by
  obtain ⟨l₁, l₂, hsplit, hplace, -⟩ := h.place i
  unfold Hashtable.insertToBucket
  dsimp only
  rw [hplace]
  have hring := h.ring
  rw [hsplit] at hring hp hq
  exact Links.listInsert_next hring hp hqp hq

omit [DecidableEq P] in
theorem around (h : t.Grouped group used) (hp : p ∈ used.flatMap group) (hi : t.index p = some i) :
    ∃ u₁ a b u₂, used = u₁ ++ i :: u₂ ∧ i ∉ u₁ ∧ i ∉ u₂ ∧ group i = a ++ p :: b ∧
      used.flatMap group = (u₁.flatMap group ++ a) ++ p :: (b ++ u₂.flatMap group) ∧
      (u₁.flatMap group ++ a ++ p :: (b ++ u₂.flatMap group)).Nodup := by
  have hmem := (h.mem_group hi).mp hp
  obtain ⟨u₁, u₂, hu, hi₁, hi₂, hsplit⟩ := h.split (List.ne_nil_of_mem hmem)
  obtain ⟨a, b, hab⟩ := List.append_of_mem hmem
  have hflat : used.flatMap group =
      (u₁.flatMap group ++ a) ++ p :: (b ++ u₂.flatMap group) := by
    rw [hsplit, hab]
    simp
  exact ⟨u₁, a, b, u₂, hu, hi₁, hi₂, hab, hflat, hflat ▸ h.ring.nodup⟩

theorem delPair_bucket {a b l₁ l₂ : List P} {m : Links P}
    (h : Ring m.next m.prev (l₁ ++ a ++ p :: (b ++ l₂))) :
    (if (a ++ p :: b).head? = some p ∧ (a ++ p :: b).getLast? = some p then ⟨none, none⟩
      else if (a ++ p :: b).head? = some p then ⟨m.next (some p), (a ++ p :: b).getLast?⟩
      else if (a ++ p :: b).getLast? = some p then ⟨(a ++ p :: b).head?, m.prev (some p)⟩
      else Bucket.mk (a ++ p :: b).head? (a ++ p :: b).getLast?) =
    ⟨(a ++ b).head?, (a ++ b).getLast?⟩ := by
  have hd := h.nodup
  have hprev : m.prev (some p) = (l₁ ++ a).getLast? := h.prev_place
  have hnext : m.next (some p) = (b ++ l₂).head? := by
    have hs : Ring m.next m.prev ((l₁ ++ a ++ [p]) ++ (b ++ l₂)) := by simpa using h
    have hn := hs.next_place
    rwa [List.getLast?_concat] at hn
  have ha : p ∉ a := fun hp => (List.nodup_append.mp hd).2.2 p (List.mem_append_right _ hp) p
    List.mem_cons_self rfl
  have hb : p ∉ b := fun hp =>
    (List.nodup_cons.mp (List.nodup_append.mp hd).2.1).1 (List.mem_append_left _ hp)
  have hfirst : (a ++ p :: b).head? = some p ↔ a = [] := by
    cases a with
    | nil => simp
    | cons q a =>
      have hq : q ≠ p := fun he => ha (he ▸ List.mem_cons_self)
      simp [hq]
  have hlast : (a ++ p :: b).getLast? = some p ↔ b = [] := by
    constructor
    · intro he
      by_contra hne
      rw [List.getLast?_append_of_ne_nil _ (List.cons_ne_nil _ _),
        List.getLast?_cons_of_ne_nil hne] at he
      exact hb (List.mem_of_getLast? he)
    · rintro rfl
      exact List.getLast?_concat
  simp only [hfirst, hlast]
  by_cases hanil : a = []
  · subst hanil
    by_cases hbnil : b = []
    · subst hbnil
      rfl
    · rw [if_neg (by simp [hbnil]), if_pos rfl, hnext, List.head?_append_of_ne_nil _ hbnil,
        List.nil_append, List.nil_append, List.getLast?_cons_of_ne_nil hbnil]
  · rw [if_neg (by simp [hanil]), if_neg hanil, List.head?_append_of_ne_nil _ hanil,
      List.head?_append_of_ne_nil _ hanil]
    by_cases hbnil : b = []
    · subst hbnil
      rw [if_pos rfl, hprev, List.getLast?_append_of_ne_nil _ hanil, List.append_nil]
    · rw [if_neg hbnil, List.getLast?_append_of_ne_nil _ (List.cons_ne_nil _ _),
        List.getLast?_cons_of_ne_nil hbnil, List.getLast?_append_of_ne_nil _ hbnil]

theorem delPair (h : t.Grouped group used) (hp : p ∈ used.flatMap group)
    (hi : t.index p = some i) : ∃ group' used', (t.delPair i p).Grouped group' used' ∧
      used'.flatMap group' = (used.flatMap group).erase p := by
  obtain ⟨u₁, a, b, u₂, rfl, hi₁, hi₂, hab, hflat, hd⟩ := h.around hp hi
  have hring := h.ring
  rw [hflat] at hring
  have hremove := Links.listRemove_ring hring
  have hpa : p ∉ u₁.flatMap group ++ a := fun hp =>
    (List.nodup_append.mp hd).2.2 p hp p List.mem_cons_self rfl
  have hpb : p ∉ b ++ u₂.flatMap group :=
    (List.nodup_cons.mp (List.nodup_append.mp hd).2.1).1
  have herase : ((u₁ ++ i :: u₂).flatMap group).erase p =
      u₁.flatMap group ++ a ++ (b ++ u₂.flatMap group) := by
    rw [hflat, List.erase_append_right _ hpa, List.erase_cons_head]
  -- a bucket without pairs is no longer in use
  let used' := if a ++ b = [] then u₁ ++ u₂ else u₁ ++ i :: u₂
  have hflat' : used'.flatMap (Function.update group i (a ++ b)) =
      u₁.flatMap group ++ a ++ (b ++ u₂.flatMap group) := by
    by_cases hnil : a ++ b = []
    · obtain ⟨rfl, rfl⟩ := List.append_eq_nil_iff.mp hnil
      simp [used', flatMap_update hi₁, flatMap_update hi₂]
    · simp [used', hnil, flatMap_update hi₁, flatMap_update hi₂, Function.update_self]
  have hkept (q : P) (hq : q ≠ p) : (t.delPair i p).pairs q = t.pairs q :=
    Function.update_of_ne hq ..
  rw [herase, ← hflat']
  rw [← hflat'] at hremove
  refine ⟨_, used', h.change ?_ (fun j hj => ?_) ?_ (fun q hq => ?_) (fun q hq => hkept q ?_) ?_
    hremove, rfl⟩
  · unfold used'
    split_ifs
    · exact h.nodup.sublist ((List.sublist_cons_self i u₂).append_left u₁)
    · exact h.nodup
  · unfold used'
    split_ifs <;> simp [hj]
  · unfold used'
    split_ifs with hnil
    · simp [hnil, hi₁, hi₂]
    · simp [hnil]
  · have hgroup : q ∈ group i := by
      rw [hab]
      rcases List.mem_append.mp hq with hq | hq
      · exact List.mem_append_left _ hq
      · exact List.mem_append_right _ (List.mem_cons_of_mem _ hq)
    refine ⟨h.index i q hgroup, hkept q ?_⟩
    rintro rfl
    rcases List.mem_append.mp hq with hq | hq
    · exact hpa (List.mem_append_right _ hq)
    · exact hpb (List.mem_append_left _ hq)
  · rintro rfl
    exact hq hi
  · rw [h.buckets, hab]
    exact delPair_bucket hring

end Grouped

end Hashtable

end Afly
