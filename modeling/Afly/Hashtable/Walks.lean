import Afly.Hashtable.Buckets

/-! # Loops over the pairs

A search goes through the pairs of one bucket and stops at the last of them. The
rehash walks over the old ring while it builds the new one from the same pairs,
whose links it needs until it has come to them.
-/

namespace Afly

open Chain

namespace Hashtable

variable {P K V : Type*} {t : Hashtable P K V} {group : Fin (2 ^ t.order) → List P}
  {used : List (Fin (2 ^ t.order))} {i : Fin (2 ^ t.order)} {p : P} {a b : List P} {rounds : ℕ}

section Search

variable [DecidableEq K] {key : K} {hash : ℕ}

def holds (t : Hashtable P K V) (key : K) (hash : ℕ) (p : P) : Bool :=
  (t.pairs p).any fun pair => pair.hash = hash ∧ pair.key = key

namespace Grouped

omit [DecidableEq K] in
theorem next_eq (h : t.Grouped group used) (hi : group i = a ++ p :: b) (hb : b ≠ []) :
    t.list.next (some p) = b.head? := by
  obtain ⟨u₁, u₂, -, -, -, hflat⟩ := h.split (i := i) (by simp [hi])
  have hring := h.ring
  rw [hflat, hi] at hring
  have hsplit : Ring t.list.next t.list.prev
      ((u₁.flatMap group ++ a ++ [p]) ++ (b ++ u₂.flatMap group)) := by
    simpa using hring
  have hn := hsplit.next_place
  rwa [List.getLast?_concat, List.head?_append_of_ne_nil _ hb] at hn

omit [DecidableEq K] in
theorem last_iff (h : t.Grouped group used) (hi : group i = a ++ p :: b) :
    some p = (t.buckets i).last ↔ b = [] := by
  rw [h.buckets, hi]
  constructor
  · intro he
    by_contra hb
    have hgroup : (group i).Nodup := by
      obtain ⟨u₁, u₂, -, -, -, hflat⟩ := h.split (i := i) (by simp [hi])
      have hd := h.ring.nodup
      rw [hflat] at hd
      exact (List.nodup_append.mp (List.nodup_append.mp hd).2.1).1
    rw [hi] at hgroup
    dsimp only at he
    rw [List.getLast?_append_of_ne_nil _ (List.cons_ne_nil _ _),
      List.getLast?_cons_of_ne_nil hb] at he
    exact (List.nodup_cons.mp (List.nodup_append.mp hgroup).2.1).1
      (List.mem_of_getLast? he.symm)
  · rintro rfl
    exact List.getLast?_concat.symm

omit [DecidableEq K] in
theorem allocated (h : t.Grouped group used) (hp : p ∈ group i) :
    ∃ pair, t.pairs p = some pair := by
  obtain ⟨pair, hpair, -⟩ := Option.map_eq_some_iff.mp (h.index i p hp)
  exact ⟨pair, hpair⟩

variable [DecidableEq P]

theorem findLoop_eq (h : t.Grouped group used) (hi : group i = a ++ b) (hb : b ≠ [])
    (hrounds : b.length ≤ rounds) : t.findLoop (t.buckets i) key hash rounds b.head? =
      some (b.find? (t.holds key hash)) := by
  induction b generalizing a rounds with
  | nil => exact absurd rfl hb
  | cons p b ih =>
    obtain ⟨rounds, rfl⟩ : ∃ k, rounds = k + 1 := ⟨rounds - 1, by
      simp only [List.length_cons] at hrounds
      omega⟩
    obtain ⟨pair, hpair⟩ := h.allocated (i := i) (p := p) (by simp [hi])
    have hholds : t.holds key hash p = decide (pair.hash = hash ∧ pair.key = key) := by
      rw [holds, hpair, Option.any_some]
    rw [List.head?_cons, findLoop, hpair, Option.bind_some, List.find?_cons, hholds]
    by_cases hfound : pair.hash = hash ∧ pair.key = key
    · rw [if_pos hfound, decide_eq_true hfound]
    · rw [if_neg hfound, decide_eq_false hfound]
      dsimp only
      by_cases hnil : b = []
      · rw [if_pos ((h.last_iff hi).mpr hnil), hnil, List.find?_nil]
      · rw [if_neg fun he => hnil ((h.last_iff hi).mp he), h.next_eq hi hnil]
        refine ih (a := a ++ [p]) (by simp [hi]) hnil ?_
        simpa using hrounds

theorem findPair_eq (h : t.Grouped group used) (hrounds : (group i).length ≤ rounds) :
    t.findPair rounds (t.buckets i) key hash = some ((group i).find? (t.holds key hash)) := by
  have hempty : (t.buckets i).isEmpty = true ↔ group i = [] := by
    rw [h.buckets, Bucket.isEmpty_iff]
  have hfirst : (t.buckets i).first = (group i).head? := congrArg Bucket.first (h.buckets i)
  unfold findPair
  by_cases hnil : group i = []
  · rw [if_pos (hempty.mpr hnil), hnil, List.find?_nil]
  · rw [if_neg fun he => hnil (hempty.mp he), hfirst]
    exact h.findLoop_eq (a := []) rfl hnil hrounds

end Grouped

end Search

section Rehash

variable [DecidableEq P] {t' : Hashtable P K V} {rest : List P} {x : Option P}

/-- All but the buckets and their ring is the same. -/
structure Kept (t t' : Hashtable P K V) : Prop where
  size : t'.size = t.size
  orderedList : t'.orderedList = t.orderedList
  pairs : t'.pairs = t.pairs

theorem rehashLoop_spec (h : t.Grouped group used) (hx : Linked (t.list.next ∘ some) x rest)
    (hrest : ∀ p ∈ rest, p ∉ used.flatMap group) (halloc : ∀ p ∈ rest, (t.pairs p).isSome)
    (hrounds : rest.length ≤ rounds) : ∃ t' group' used', rehashLoop rounds x t = some t' ∧
      t'.order = t.order ∧ Kept t t' ∧ t'.Grouped group' used' ∧
      (used'.flatMap group').Perm (rest ++ used.flatMap group) := by
  induction rest generalizing t rounds x with
  | nil =>
    obtain rfl := linked_nil.mp hx
    refine ⟨t, group, used, ?_, rfl, ⟨rfl, rfl, rfl⟩, h, .refl _⟩
    cases rounds <;> rfl
  | cons p rest ih =>
    obtain ⟨rounds, rfl⟩ : ∃ k, rounds = k + 1 := ⟨rounds - 1, by
      simp only [List.length_cons] at hrounds
      omega⟩
    have hd := (List.nodup_cons.mp hx.nodup).1
    obtain ⟨rfl, hnext⟩ := hx
    obtain ⟨pair, hpair⟩ := Option.isSome_iff_exists.mp (halloc p List.mem_cons_self)
    have hp := hrest p List.mem_cons_self
    have hi : t.index p = some (bucketOf t.order pair.hash) := by
      rw [Hashtable.index, hpair, Option.map_some]
    have hinsert := h.insertToBucket hp hi
    obtain ⟨l₁, l₂, hflat, -, hflat'⟩ := h.place (bucketOf t.order pair.hash)
    have hperm : ((if group (bucketOf t.order pair.hash) = [] then
        used ++ [bucketOf t.order pair.hash] else used).flatMap
        (Function.update group (bucketOf t.order pair.hash)
          (p :: group (bucketOf t.order pair.hash)))).Perm (p :: used.flatMap group) := by
      rw [hflat', hflat]
      exact List.perm_middle
    have hlinked : Linked ((t.insertToBucket (bucketOf t.order pair.hash) p).list.next ∘ some)
        (t.list.next (some p)) rest := by
      refine hnext.congr fun q hq => ?_
      have hqp : q ≠ p := by
        rintro rfl
        exact hd hq
      exact (h.insertToBucket_next _ hp hqp (hrest q (List.mem_cons_of_mem _ hq))).symm
    obtain ⟨t', group', used', hloop, horder, hkept, hgrouped, hperm'⟩ := ih hinsert hlinked
      (fun q hq hmem => by
        rcases List.mem_cons.mp (hperm.mem_iff.mp hmem) with rfl | hmem
        · exact hd hq
        · exact hrest q (List.mem_cons_of_mem _ hq) hmem)
      (fun q hq => halloc q (List.mem_cons_of_mem _ hq)) (by simpa using hrounds)
    refine ⟨t', group', used', ?_, horder, ⟨hkept.size, hkept.orderedList, hkept.pairs⟩, hgrouped,
      ?_⟩
    · rw [rehashLoop, hpair]
      exact hloop
    · refine hperm'.trans ?_
      exact (hperm.append_left rest).trans List.perm_middle

theorem doRehash_spec (h : t.Grouped group used)
    (hrounds : (used.flatMap group).length ≤ rounds) : ∃ t' group' used',
      t.doRehash rounds true = some (t', 0) ∧ t'.order = t.order + 1 ∧ Kept t t' ∧
      t'.Grouped group' used' ∧ (used'.flatMap group').Perm (used.flatMap group) := by
  let t₀ : Hashtable P K V := { t with
    order := t.order + 1
    buckets := fun _ => ⟨none, none⟩
    list := t.list.listInit none }
  have h₀ : t₀.Grouped (fun _ => []) [] :=
    ⟨.nil, fun _ => by simp, fun _ _ hp => absurd hp List.not_mem_nil, fun _ => rfl,
      Links.listInit_ring t.list⟩
  have hlinked : Linked (t₀.list.next ∘ some) (t.list.next none) (used.flatMap group) := by
    refine h.ring.forward.congr fun p _ => ?_
    exact (Function.update_of_ne (Option.some_ne_none p) none t.list.next).symm
  have halloc : ∀ p ∈ used.flatMap group, (t₀.pairs p).isSome := by
    intro p hp
    obtain ⟨i, hp⟩ := h.mem_flatMap.mp hp
    obtain ⟨pair, hpair⟩ := h.allocated hp
    exact Option.isSome_iff_exists.mpr ⟨pair, hpair⟩
  obtain ⟨t', group', used', hloop, horder, hkept, hgrouped, hperm⟩ :=
    rehashLoop_spec h₀ hlinked (fun _ _ => List.not_mem_nil) halloc hrounds
  refine ⟨t', group', used', ?_, horder, ⟨hkept.size, hkept.orderedList, hkept.pairs⟩, hgrouped, ?_⟩
  · rw [doRehash, if_pos rfl]
    dsimp only
    rw [hloop, Option.map_some]
  · simpa using hperm

end Rehash

theorem clearLoop_spec [DecidableEq P] {rest : List P} {x : Option P}
    (hx : Linked (t.list.next ∘ some) x rest) (halloc : ∀ p ∈ rest, (t.pairs p).isSome)
    (hrounds : rest.length ≤ rounds) : ∃ t', clearLoop rounds x t = some t' ∧
      ∀ p, t'.pairs p = if p ∈ rest then none else t.pairs p := by
  induction rest generalizing t rounds x with
  | nil =>
    obtain rfl := linked_nil.mp hx
    refine ⟨t, ?_, fun p => by simp⟩
    cases rounds <;> rfl
  | cons p rest ih =>
    obtain ⟨rounds, rfl⟩ : ∃ k, rounds = k + 1 := ⟨rounds - 1, by
      simp only [List.length_cons] at hrounds
      omega⟩
    have hd := (List.nodup_cons.mp hx.nodup).1
    obtain ⟨rfl, hnext⟩ := hx
    obtain ⟨pair, hpair⟩ := Option.isSome_iff_exists.mp (halloc p List.mem_cons_self)
    have halloc' : ∀ q ∈ rest, (Function.update t.pairs p none q).isSome := by
      intro q hq
      rw [Function.update_of_ne]
      · exact halloc q (List.mem_cons_of_mem _ hq)
      · rintro rfl
        exact hd hq
    obtain ⟨t', hloop, hpairs⟩ := ih (t := { t with pairs := Function.update t.pairs p none }) hnext
      halloc' (by simpa using hrounds)
    refine ⟨t', ?_, fun q => ?_⟩
    · rw [clearLoop, hpair]
      exact hloop
    · rw [hpairs]
      by_cases hq : q = p
      · subst hq
        simp
      · simp [hq]

end Hashtable

end Afly
