import Afly.Hashtable.Walks
import Afly.Lib.Keyed
import Afly.Lib.Reach

/-! # The table is a map in order of entry

Whatever the hash function is and whenever memory runs out, the two rings and the
buckets keep the members of an object as a map that remembers the order in which
its keys came in.
-/

namespace Afly

open Chain Reach

namespace Hashtable

variable {P K V : Type*} [DecidableEq P] [DecidableEq K] {hashStr : K → ℕ}
  {t t' : Hashtable P K V} {nodes : List P} {table : List (K × V)} {key : K} {value : V} {p : P}
  {rounds : ℕ}

def pairOf (hashStr : K → ℕ) (e : K × V) : Option (Pair K V) := some ⟨e.1, hashStr e.1, e.2⟩

/-- The pairs in order of entry hold the members, and a bucket has its own among them. -/
structure Represents (hashStr : K → ℕ) (t : Hashtable P K V) (nodes : List P)
    (table : List (K × V)) : Prop where
  ordered : Ring t.orderedList.next t.orderedList.prev nodes
  pairs : nodes.map t.pairs = table.map (pairOf hashStr)
  keys : (table.map Prod.fst).Nodup
  size : t.size = nodes.length
  load : t.size ≤ 2 ^ t.order
  grouped : ∃ group used, t.Grouped group used ∧ (used.flatMap group).Perm nodes

omit [DecidableEq K] in
theorem represents_init (list orderedList : Links P) :
    (hashtableInit list orderedList : Hashtable P K V).Represents hashStr [] [] where
  ordered := Links.listInit_ring orderedList
  pairs := rfl
  keys := .nil
  size := rfl
  load := Nat.zero_le _
  grouped := ⟨fun _ => [], [], ⟨.nil, fun _ => by simp, fun _ _ hp => absurd hp List.not_mem_nil,
    fun _ => rfl, Links.listInit_ring list⟩, .refl _⟩

namespace Represents

omit [DecidableEq P] [DecidableEq K] in
theorem allocated (h : t.Represents hashStr nodes table) (hp : p ∈ nodes) :
    ∃ e ∈ table, t.pairs p = pairOf hashStr e := by
  have hmem : t.pairs p ∈ table.map (pairOf hashStr) := h.pairs ▸ List.mem_map_of_mem hp
  obtain ⟨e, he, hpair⟩ := List.mem_map.mp hmem
  exact ⟨e, he, hpair.symm⟩

omit [DecidableEq P] [DecidableEq K] in
theorem notMem_of_fresh (h : t.Represents hashStr nodes table) (hp : t.pairs p = none) :
    p ∉ nodes := by
  intro hmem
  obtain ⟨e, -, he⟩ := h.allocated hmem
  exact Option.some_ne_none _ (he.symm.trans hp)

omit [DecidableEq P] [DecidableEq K] in
theorem around (h : t.Represents hashStr nodes table) (hk : key ∈ table.map Prod.fst) :
    ∃ t₁ v t₂ n₁ p n₂, table = t₁ ++ (key, v) :: t₂ ∧ nodes = n₁ ++ p :: n₂ ∧
      key ∉ t₁.map Prod.fst ∧ key ∉ t₂.map Prod.fst ∧ t.pairs p = pairOf hashStr (key, v) ∧
      n₁.map t.pairs = t₁.map (pairOf hashStr) ∧ n₂.map t.pairs = t₂.map (pairOf hashStr) ∧
      p ∉ n₁ ∧ p ∉ n₂ := by
  obtain ⟨⟨_, v⟩, hmem, rfl⟩ := List.mem_map.mp hk
  obtain ⟨t₁, t₂, rfl⟩ := List.append_of_mem hmem
  have hkeys := h.keys
  rw [List.map_append, List.map_cons, List.nodup_append, List.nodup_cons] at hkeys
  have hpairs := h.pairs
  rw [List.map_append, List.map_cons] at hpairs
  obtain ⟨n₁, rest, rfl, h₁, hrest⟩ := List.map_eq_append_iff.mp hpairs
  obtain ⟨p, n₂, rfl, hp, h₂⟩ := List.map_eq_cons_iff.mp hrest
  have hd := List.nodup_append.mp h.ordered.nodup
  exact ⟨t₁, v, t₂, n₁, p, n₂, rfl, rfl, fun hk => hkeys.2.2 _ hk _ List.mem_cons_self rfl,
    hkeys.2.1.1, hp, h₁, h₂, fun hp => hd.2.2 p hp p List.mem_cons_self rfl,
    (List.nodup_cons.mp hd.2.1).1⟩

omit [DecidableEq P] in
theorem holds_iff {e : K × V} (hp : t.pairs p = pairOf hashStr e) :
    t.holds key (hashStr key) p = true ↔ e.1 = key := by
  rw [holds, hp]
  simp only [pairOf, Option.any_some, decide_eq_true_iff]
  constructor
  · exact And.right
  · rintro rfl
    exact ⟨rfl, rfl⟩

theorem findPair_eq (h : t.Represents hashStr nodes table) (hrounds : t.size ≤ rounds) (key : K) :
    ∃ found, t.findPair rounds (t.buckets (bucketOf t.order (hashStr key))) key (hashStr key) =
        some found ∧ (∀ p, found = some p → p ∈ nodes ∧ t.holds key (hashStr key) p = true ∧
          t.index p = some (bucketOf t.order (hashStr key))) ∧
      (found = none → ∀ p ∈ nodes, t.holds key (hashStr key) p = false) := by
  obtain ⟨group, used, hgrouped, hperm⟩ := h.grouped
  have hsub {i : Fin (2 ^ t.order)} {p : P} (hp : p ∈ group i) : p ∈ nodes :=
    hperm.mem_iff.mp (hgrouped.mem_flatMap.mpr ⟨i, hp⟩)
  have hlength : (group (bucketOf t.order (hashStr key))).length ≤ rounds := by
    refine le_trans ?_ hrounds
    rw [h.size, ← hperm.length_eq]
    by_cases hnil : group (bucketOf t.order (hashStr key)) = []
    · rw [hnil]
      exact Nat.zero_le _
    · obtain ⟨u₁, u₂, -, -, -, hflat⟩ := hgrouped.split hnil
      rw [hflat, List.length_append, List.length_append]
      omega
  refine ⟨_, hgrouped.findPair_eq hlength, fun p hp => ?_, fun hnone p hp => ?_⟩
  · have hmem := List.mem_of_find?_eq_some hp
    exact ⟨hsub hmem, List.find?_some hp, hgrouped.index _ p hmem⟩
  · by_contra hholds
    rw [Bool.not_eq_false] at hholds
    obtain ⟨e, -, he⟩ := h.allocated hp
    have hindex : t.index p = some (bucketOf t.order (hashStr key)) := by
      rw [← (holds_iff he).mp hholds, Hashtable.index, he]
      rfl
    have hmem := (hgrouped.mem_group hindex).mp (hperm.mem_iff.mpr hp)
    exact absurd hholds (List.find?_eq_none.mp hnone p hmem)

theorem findPair_none (h : t.Represents hashStr nodes table) (hrounds : t.size ≤ rounds)
    (hk : key ∉ table.map Prod.fst) :
    t.findPair rounds (t.buckets (bucketOf t.order (hashStr key))) key (hashStr key) =
      some none := by
  obtain ⟨found, hfound, hsome, -⟩ := h.findPair_eq hrounds key
  cases found with
  | none => exact hfound
  | some p =>
    obtain ⟨hp, hholds, -⟩ := hsome p rfl
    obtain ⟨e, he, hpair⟩ := h.allocated hp
    exact absurd (List.mem_map_of_mem he) ((holds_iff hpair).mp hholds ▸ hk)

theorem findPair_some (h : t.Represents hashStr nodes table) (hrounds : t.size ≤ rounds)
    (hk : key ∈ table.map Prod.fst) : ∃ t₁ v t₂ n₁ p n₂, table = t₁ ++ (key, v) :: t₂ ∧
      nodes = n₁ ++ p :: n₂ ∧ key ∉ t₁.map Prod.fst ∧ key ∉ t₂.map Prod.fst ∧
      t.pairs p = pairOf hashStr (key, v) ∧ n₁.map t.pairs = t₁.map (pairOf hashStr) ∧
      n₂.map t.pairs = t₂.map (pairOf hashStr) ∧ p ∉ n₁ ∧ p ∉ n₂ ∧
      t.findPair rounds (t.buckets (bucketOf t.order (hashStr key))) key (hashStr key) =
        some (some p) := by
  obtain ⟨t₁, v, t₂, n₁, p, n₂, rfl, rfl, hk₁, hk₂, hp, h₁, h₂, hp₁, hp₂⟩ := h.around hk
  refine ⟨t₁, v, t₂, n₁, p, n₂, rfl, rfl, hk₁, hk₂, hp, h₁, h₂, hp₁, hp₂, ?_⟩
  obtain ⟨found, hfound, hsome, hnone⟩ := h.findPair_eq hrounds key
  have hother {n : List P} {s : List (K × V)} {q : P} (hn : n.map t.pairs = s.map (pairOf hashStr))
      (hs : key ∉ s.map Prod.fst) (hq : q ∈ n) : t.holds key (hashStr key) q ≠ true := by
    have hmem : t.pairs q ∈ s.map (pairOf hashStr) := hn ▸ List.mem_map_of_mem hq
    obtain ⟨e, he, hpair⟩ := List.mem_map.mp hmem
    intro hholds
    exact hs ((holds_iff hpair.symm).mp hholds ▸ List.mem_map_of_mem he)
  cases found with
  | none =>
    have hfalse := hnone rfl p (by simp)
    rw [(holds_iff hp).mpr rfl] at hfalse
    cases hfalse
  | some q =>
    obtain ⟨hq, hholds, -⟩ := hsome q rfl
    rcases List.mem_append.mp hq with hq | hq
    · exact absurd hholds (hother h₁ hk₁ hq)
    · rcases List.mem_cons.mp hq with rfl | hq
      · exact hfound
      · exact absurd hholds (hother h₂ hk₂ hq)

theorem hashtableGet_eq (h : t.Represents hashStr nodes table) (hrounds : t.size ≤ rounds) :
    t.hashtableGet hashStr rounds key = some (table.lookup key) := by
  unfold hashtableGet
  by_cases hk : key ∈ table.map Prod.fst
  · obtain ⟨t₁, v, t₂, n₁, p, n₂, rfl, -, hk₁, -, hp, -, -, -, -, hfind⟩ :=
      h.findPair_some hrounds hk
    dsimp only
    rw [hfind, Option.bind_some, Keyed.lookup_around hk₁]
    dsimp only
    rw [hp]
    rfl
  · dsimp only
    rw [h.findPair_none hrounds hk, Option.bind_some]
    refine congrArg some (List.lookup_eq_none_iff.mpr fun e he => ?_).symm
    rw [bne_iff_ne]
    rintro rfl
    exact hk (List.mem_map_of_mem he)

theorem hashtableDel_spec (h : t.Represents hashStr nodes table) (hrounds : t.size ≤ rounds)
    (key : K) :
    ∃ t' nodes', t.hashtableDel hashStr rounds key =
        some (t', if key ∈ table.map Prod.fst then 0 else -1) ∧
      t'.Represents hashStr nodes' (Keyed.drop key table) := by
  unfold hashtableDel
  by_cases hk : key ∈ table.map Prod.fst
  · obtain ⟨t₁, v, t₂, n₁, p, n₂, rfl, rfl, hk₁, hk₂, hp, h₁, h₂, hp₁, hp₂, hfind⟩ :=
      h.findPair_some hrounds hk
    obtain ⟨group, used, hgrouped, hperm⟩ := h.grouped
    have hindex : t.index p = some (bucketOf t.order (hashStr key)) := by
      rw [Hashtable.index, hp]
      rfl
    obtain ⟨group', used', hgrouped', herase⟩ :=
      hgrouped.delPair (hperm.mem_iff.mpr (by simp)) hindex
    have hkeep {n : List P} (hn : p ∉ n) :
        n.map (t.delPair (bucketOf t.order (hashStr key)) p).pairs = n.map t.pairs := by
      refine List.map_congr_left fun q hq => Function.update_of_ne ?_ ..
      rintro rfl
      exact hn hq
    refine ⟨t.delPair (bucketOf t.order (hashStr key)) p, n₁ ++ n₂, ?_, ?_⟩
    · dsimp only
      rw [hfind, Option.map_some, if_pos hk]
    · rw [Keyed.drop_around hk₁ hk₂]
      refine ⟨Links.listRemove_ring h.ordered, ?_, ?_, ?_, ?_, group', used', hgrouped', ?_⟩
      · rw [List.map_append, hkeep hp₁, hkeep hp₂, h₁, h₂, List.map_append]
      · refine h.keys.sublist (List.Sublist.map _ ?_)
        exact (List.sublist_cons_self _ t₂).append_left t₁
      · have hsize := h.size
        simp only [delPair, List.length_append, List.length_cons] at hsize ⊢
        omega
      · exact (Nat.sub_le ..).trans h.load
      · rw [herase]
        refine (hperm.erase p).trans ?_
        rw [List.erase_append_right _ hp₁, List.erase_cons_head]
  · refine ⟨t, nodes, ?_, ?_⟩
    · dsimp only
      rw [h.findPair_none hrounds hk, Option.map_some, if_neg hk]
    · rwa [Keyed.drop_of_notMem hk]

omit [DecidableEq K] in
theorem replace {t₁ t₂ : List (K × V)} {n₁ n₂ : List P} {v : V}
    (h : t.Represents hashStr (n₁ ++ p :: n₂) (t₁ ++ (key, v) :: t₂))
    (hp : t.pairs p = pairOf hashStr (key, v)) (h₁ : n₁.map t.pairs = t₁.map (pairOf hashStr))
    (h₂ : n₂.map t.pairs = t₂.map (pairOf hashStr)) (hp₁ : p ∉ n₁) (hp₂ : p ∉ n₂) :
    Represents hashStr { t with pairs := Function.update t.pairs p (pairOf hashStr (key, value)) }
      (n₁ ++ p :: n₂) (t₁ ++ (key, value) :: t₂) := by
  obtain ⟨group, used, hgrouped, hperm⟩ := h.grouped
  have hkeep {n : List P} (hn : p ∉ n) :
      n.map (Function.update t.pairs p (pairOf hashStr (key, value))) = n.map t.pairs := by
    refine List.map_congr_left fun q hq => Function.update_of_ne ?_ ..
    rintro rfl
    exact hn hq
  have hindex (q : P) : (Function.update t.pairs p (pairOf hashStr (key, value)) q).map
      (fun pair => bucketOf t.order pair.hash) = t.index q := by
    by_cases hq : q = p
    · subst hq
      rw [Function.update_self, Hashtable.index, hp]
      rfl
    · rw [Function.update_of_ne hq, Hashtable.index]
  refine ⟨h.ordered, ?_, ?_, h.size, h.load, group, used, ⟨hgrouped.nodup, hgrouped.mem,
    fun i q hq => (hindex q).trans (hgrouped.index i q hq), hgrouped.buckets, hgrouped.ring⟩, hperm⟩
  · dsimp only
    rw [List.map_append, List.map_cons, hkeep hp₁, hkeep hp₂, Function.update_self, h₁, h₂,
      List.map_append, List.map_cons]
  · have hkeys := h.keys
    rwa [List.map_append, List.map_cons] at hkeys ⊢

omit [DecidableEq K] in
theorem addPair (h : t.Represents hashStr nodes table) (hp : t.pairs p = none)
    (hk : key ∉ table.map Prod.fst) (hload : t.size < 2 ^ t.order) :
    (t.addPair hashStr p key value).Represents hashStr (nodes ++ [p])
      (table ++ [(key, value)]) := by
  obtain ⟨group, used, hgrouped, hperm⟩ := h.grouped
  have hpn := h.notMem_of_fresh hp
  have hpg : p ∉ used.flatMap group := fun hmem => hpn (hperm.mem_iff.mp hmem)
  let t₁ : Hashtable P K V := { t with
    pairs := Function.update t.pairs p (pairOf hashStr (key, value))
    list := t.list.listInit (some p)
    orderedList := t.orderedList.listInit (some p) }
  have hindex {i : Fin (2 ^ t.order)} {q : P} (hq : q ∈ group i) : t₁.index q = some i := by
    rw [← hgrouped.index i q hq]
    refine congrArg (Option.map _) (Function.update_of_ne ?_ ..)
    rintro rfl
    exact hpg (hgrouped.mem_flatMap.mpr ⟨i, hq⟩)
  have h₁ : t₁.Grouped group used := ⟨hgrouped.nodup, hgrouped.mem, fun i q hq => hindex hq,
    hgrouped.buckets, Links.listInit_ring_of_notMem hgrouped.ring hpg⟩
  have hi : t₁.index p = some (bucketOf t.order (hashStr key)) :=
    congrArg (Option.map _) (Function.update_self p _ t.pairs)
  have hinsert := h₁.insertToBucket hpg hi
  obtain ⟨l₁, l₂, hflat, -, hflat'⟩ := h₁.place (bucketOf t.order (hashStr key))
  have hring : Ring t₁.orderedList.next t₁.orderedList.prev (nodes ++ []) := by
    rw [List.append_nil]
    exact Links.listInit_ring_of_notMem h.ordered hpn
  refine ⟨Links.listInsert_ring hring (by simpa using hpn), ?_, ?_, ?_, ?_, _, _,
    ⟨hinsert.nodup, hinsert.mem, hinsert.index, hinsert.buckets, hinsert.ring⟩, ?_⟩
  · have hkeep : nodes.map (Function.update t.pairs p (pairOf hashStr (key, value))) =
        nodes.map t.pairs := by
      refine List.map_congr_left fun q hq => Function.update_of_ne ?_ ..
      rintro rfl
      exact hpn hq
    have hpairs : (t.addPair hashStr p key value).pairs =
        Function.update t.pairs p (pairOf hashStr (key, value)) := rfl
    rw [hpairs, List.map_append, hkeep, List.map_singleton, Function.update_self, h.pairs,
      List.map_append, List.map_singleton]
  · rw [List.map_append]
    exact h.keys.append (List.nodup_singleton key) (List.disjoint_singleton.mpr hk)
  · rw [List.length_append, ← h.size]
    rfl
  · exact hload
  · refine (hflat' p ▸ List.perm_middle : List.Perm _ (p :: (l₁ ++ l₂))).trans ?_
    rw [← hflat]
    exact (hperm.cons p).trans (List.perm_append_singleton p nodes).symm

theorem setPair_spec (h : t.Represents hashStr nodes table) (hrounds : t.size ≤ rounds) (value : V)
    {new : Option P} (hnew : ∀ p, new = some p → t.pairs p = none)
    (hload : t.size < 2 ^ t.order) : ∃ t' nodes',
      t.setPair hashStr rounds new key value =
        some (t', if key ∈ table.map Prod.fst ∨ new.isSome then 0 else -1) ∧
      t'.Represents hashStr nodes' (if key ∈ table.map Prod.fst ∨ new.isSome
        then Keyed.put key value table else table) := by
  unfold setPair
  by_cases hk : key ∈ table.map Prod.fst
  · obtain ⟨t₁, v, t₂, n₁, p, n₂, rfl, rfl, hk₁, hk₂, hp, h₁, h₂, hp₁, hp₂, hfind⟩ :=
      h.findPair_some hrounds hk
    dsimp only
    rw [hfind, Option.bind_some, if_pos (Or.inl hk), if_pos (Or.inl hk), Keyed.put_around hk₁ hk₂]
    refine ⟨_, _, ?_, h.replace hp h₁ h₂ hp₁ hp₂⟩
    dsimp only
    rw [hp]
    rfl
  · dsimp only
    rw [h.findPair_none hrounds hk, Option.bind_some]
    cases new with
    | none => exact ⟨t, nodes, by simp [hk], by simpa [hk] using h⟩
    | some p =>
      have hor : key ∈ table.map Prod.fst ∨ (some p).isSome = true := Or.inr rfl
      rw [Keyed.put_of_notMem hk, if_pos hor, if_pos hor]
      exact ⟨_, _, rfl, h.addPair (hnew p rfl) hk hload⟩

omit [DecidableEq K] in
theorem doRehash_spec (h : t.Represents hashStr nodes table) (hrounds : t.size ≤ rounds)
    (malloc : Bool) : ∃ t', t.doRehash rounds malloc = some (t', if malloc then 0 else -1) ∧
      t'.Represents hashStr nodes table ∧ t'.size = t.size ∧ t'.pairs = t.pairs ∧
      (malloc = true → t'.order = t.order + 1) := by
  cases malloc with
  | false => exact ⟨t, rfl, h, rfl, rfl, nofun⟩
  | true =>
    obtain ⟨group, used, hgrouped, hperm⟩ := h.grouped
    have hlength : (used.flatMap group).length ≤ rounds := by
      rw [hperm.length_eq, ← h.size]
      exact hrounds
    obtain ⟨t', group', used', hrehash, horder, hkept, hgrouped', hperm'⟩ :=
      Hashtable.doRehash_spec hgrouped hlength
    refine ⟨t', hrehash, ⟨?_, ?_, h.keys, hkept.size.trans h.size, ?_, group', used', hgrouped',
      hperm'.trans hperm⟩, hkept.size, hkept.pairs, fun _ => horder⟩
    · rw [hkept.orderedList]
      exact h.ordered
    · rw [hkept.pairs]
      exact h.pairs
    · rw [hkept.size, horder, Nat.pow_succ]
      have := h.load
      omega

theorem hashtableSet_spec (h : t.Represents hashStr nodes table) (hrounds : t.size ≤ rounds)
    {malloc : Bool} {new : Option P} (hnew : ∀ p, new = some p → t.pairs p = none) :
    ∃ t' nodes' ret, t.hashtableSet hashStr rounds malloc new key value = some (t', ret) ∧
      (ret = 0 ∨ ret = -1 ∧ (malloc = false ∨ new = none ∧ key ∉ table.map Prod.fst)) ∧
      t'.Represents hashStr nodes' (if ret = 0 then Keyed.put key value table else table) := by
  have hset {t : Hashtable P K V} (h : t.Represents hashStr nodes table) (hrounds : t.size ≤ rounds)
      (hnew : ∀ p, new = some p → t.pairs p = none) (hload : t.size < 2 ^ t.order) :
      ∃ t' nodes' ret, t.setPair hashStr rounds new key value = some (t', ret) ∧
        (ret = 0 ∨ ret = -1 ∧ (malloc = false ∨ new = none ∧ key ∉ table.map Prod.fst)) ∧
        t'.Represents hashStr nodes' (if ret = 0 then Keyed.put key value table else table) := by
    obtain ⟨t', nodes', hset, hr⟩ := setPair_spec h hrounds value hnew hload
    refine ⟨t', nodes', _, hset, ?_⟩
    by_cases hor : key ∈ table.map Prod.fst ∨ new.isSome
    · rw [if_pos hor] at hr ⊢
      exact ⟨Or.inl rfl, hr⟩
    · rw [if_neg hor] at hr ⊢
      rw [not_or, Bool.not_eq_true, Option.isSome_eq_false_iff, Option.isNone_iff_eq_none] at hor
      exact ⟨Or.inr ⟨rfl, Or.inr hor.symm⟩, hr⟩
  unfold hashtableSet
  by_cases hfull : t.size ≥ 2 ^ t.order
  · obtain ⟨t₁, hrehash, hr, hsize, hpairs, horder⟩ := h.doRehash_spec hrounds malloc
    rw [if_pos hfull, hrehash, Option.bind_some]
    dsimp only
    cases malloc with
    | false => exact ⟨t₁, nodes, -1, rfl, Or.inr ⟨rfl, Or.inl rfl⟩, hr⟩
    | true =>
      have hload := h.load
      rw [if_neg (by simp)]
      refine hset hr (hsize ▸ hrounds) (fun p hp => hpairs ▸ hnew p hp) ?_
      rw [hsize, horder rfl, Nat.pow_succ]
      have := Nat.two_pow_pos t.order
      omega
  · rw [if_neg hfull]
    exact hset h hrounds hnew (by omega)

omit [DecidableEq K] in
theorem hashtableClear_spec (h : t.Represents hashStr nodes table) (hrounds : t.size ≤ rounds) :
    ∃ t', t.hashtableClear rounds = some t' ∧ t'.Represents hashStr [] [] ∧
      ∀ p, t'.pairs p = if p ∈ nodes then none else t.pairs p := by
  obtain ⟨group, used, hgrouped, hperm⟩ := h.grouped
  obtain ⟨t', hloop, hpairs⟩ := clearLoop_spec hgrouped.ring.forward (fun p hp => by
    obtain ⟨e, -, he⟩ := h.allocated (hperm.mem_iff.mp hp)
    rw [he]
    rfl) (show _ ≤ rounds by rwa [hperm.length_eq, ← h.size])
  refine ⟨_, by rw [hashtableClear, hloop, Option.map_some], ⟨Links.listInit_ring t'.orderedList,
    rfl, .nil, rfl, Nat.zero_le _, fun _ => [], [], ⟨.nil, fun _ => by simp,
      fun _ _ hp => absurd hp List.not_mem_nil, fun _ => rfl, Links.listInit_ring t'.list⟩,
    .refl _⟩, fun p => ?_⟩
  dsimp only
  rw [hpairs]
  exact if_congr hperm.mem_iff rfl rfl

end Represents

end Hashtable

end Afly
