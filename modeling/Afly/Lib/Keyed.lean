import Mathlib.Data.List.Nodup
import Mathlib.Logic.Function.Basic

/-! # Tables in order of entry

A finite map that remembers the order in which its keys came in: writing a key
that is there replaces its value in place, a new one goes to the end, and
dropping a key leaves the others in their order.
-/

namespace Keyed

variable {K V : Type*} [DecidableEq K] {t : List (K × V)} {l : List K} {f : K → V} {k : K} {v : V}

/-- Replace the value of a key in place, or append the key. -/
def put (k : K) (v : V) (t : List (K × V)) : List (K × V) :=
  if k ∈ t.map Prod.fst then t.map fun e => if e.1 = k then (k, v) else e else t ++ [(k, v)]

def drop (k : K) (t : List (K × V)) : List (K × V) := t.filter fun e => e.1 ≠ k

def graph (f : K → V) (l : List K) : List (K × V) := l.map fun k => (k, f k)

omit [DecidableEq K] in
@[simp] theorem keys_graph : (graph f l).map Prod.fst = l := by
  simp [graph, Function.comp_def]

theorem put_graph : put k v (graph f l) =
    graph (Function.update f k v) (if k ∈ l then l else l ++ [k]) := by
  unfold put
  rw [keys_graph]
  split
  · unfold graph
    rw [List.map_map]
    apply List.map_congr_left
    intro k' _
    by_cases hk : k' = k
    · subst hk
      simp
    · simp [hk]
  · rename_i hk
    have hl : graph f l = graph (Function.update f k v) l := by
      apply List.map_congr_left
      intro k' hk'
      rw [Function.update_of_ne]
      rintro rfl
      exact hk hk'
    rw [hl]
    simp [graph]

theorem drop_graph (hl : l.Nodup) : drop k (graph f l) = graph f (l.erase k) := by
  rw [hl.erase_eq_filter]
  unfold drop graph
  rw [List.filter_map]
  congr 1
  apply List.filter_congr
  intro k' _
  by_cases hk : k' = k <;> simp [hk]

section Around

variable {t₁ t₂ : List (K × V)} {v' : V}

theorem map_of_notMem (f : K × V → K × V) (hk : k ∉ t.map Prod.fst) :
    (t.map fun e => if e.1 = k then f e else e) = t := by
  refine (List.map_congr_left fun e he => if_neg ?_).trans (List.map_id t)
  rintro rfl
  exact hk (List.mem_map_of_mem he)

theorem put_of_notMem (hk : k ∉ t.map Prod.fst) : put k v t = t ++ [(k, v)] := if_neg hk

theorem put_around (h₁ : k ∉ t₁.map Prod.fst) (h₂ : k ∉ t₂.map Prod.fst) :
    put k v (t₁ ++ (k, v') :: t₂) = t₁ ++ (k, v) :: t₂ := by
  rw [put, if_pos (by simp), List.map_append, List.map_cons, if_pos rfl,
    map_of_notMem (fun _ => (k, v)) h₁, map_of_notMem (fun _ => (k, v)) h₂]

theorem drop_of_notMem (hk : k ∉ t.map Prod.fst) : drop k t = t := by
  refine List.filter_eq_self.mpr fun e he => ?_
  simp only [ne_eq, decide_not, Bool.not_eq_true', decide_eq_false_iff_not]
  rintro rfl
  exact hk (List.mem_map_of_mem he)

theorem drop_around (h₁ : k ∉ t₁.map Prod.fst) (h₂ : k ∉ t₂.map Prod.fst) :
    drop k (t₁ ++ (k, v) :: t₂) = t₁ ++ t₂ := by
  have hmid : drop k ((k, v) :: t₂) = drop k t₂ := List.filter_cons_of_neg (by simp)
  rw [drop, List.filter_append]
  exact congrArg₂ _ (drop_of_notMem h₁) (hmid.trans (drop_of_notMem h₂))

theorem lookup_around (h₁ : k ∉ t₁.map Prod.fst) : (t₁ ++ (k, v) :: t₂).lookup k = some v := by
  rw [List.lookup_append, List.lookup_eq_none_iff.mpr, Option.none_or, List.lookup_cons_self]
  intro e he
  rw [bne_iff_ne]
  rintro rfl
  exact h₁ (List.mem_map_of_mem he)

end Around

section Folded

variable {F : Type*} [DecidableEq F] {fold : K → F} {a : F}

variable (fold) in
/-- The map of a table whose keys are compared through a function. -/
def view (t : List (K × V)) (a : F) : Option V := (t.find? fun e => fold e.1 = a).map Prod.snd

omit [DecidableEq K] in
theorem view_concat (hk : fold k ∉ t.map (fold ∘ Prod.fst)) :
    view fold (t ++ [(k, v)]) = Function.update (view fold t) (fold k) (some v) := by
  funext a
  rw [view, List.find?_append]
  by_cases ha : a = fold k
  · subst ha
    have hnone : t.find? (fun e => fold e.1 = fold k) = none := by
      refine List.find?_eq_none.mpr fun e he => ?_
      rw [decide_eq_true_eq]
      intro heq
      exact hk (List.mem_map.mpr ⟨e, he, heq⟩)
    rw [hnone, Function.update_self]
    simp
  · rw [Function.update_of_ne ha, view]
    simp [Ne.symm ha]

omit [DecidableEq K] in
theorem view_eraseP (h : (t.map (fold ∘ Prod.fst)).Nodup) (a : F) :
    view fold (t.eraseP fun e => fold e.1 = a) = Function.update (view fold t) a none ∧
      a ∉ (t.eraseP fun e => fold e.1 = a).map (fold ∘ Prod.fst) := by
  induction t with
  | nil =>
    refine ⟨funext fun b => ?_, List.not_mem_nil⟩
    by_cases hb : b = a
    · rw [hb, Function.update_self]
      rfl
    · rw [Function.update_of_ne hb]
      rfl
  | cons e t ih =>
    obtain ⟨hnotin, hnodup⟩ := List.nodup_cons.mp h
    obtain ⟨hview, hmem⟩ := ih hnodup
    by_cases he : fold e.1 = a
    · rw [List.eraseP_cons_of_pos (by simpa using he)]
      refine ⟨funext fun b => ?_, he ▸ hnotin⟩
      by_cases hb : b = a
      · subst hb
        rw [Function.update_self, view, List.find?_eq_none.mpr, Option.map_none]
        intro e' he'
        rw [decide_eq_true_eq]
        intro heq
        exact hnotin (List.mem_map.mpr ⟨e', he', heq.trans he.symm⟩)
      · rw [Function.update_of_ne hb, view, view,
          List.find?_cons_of_neg (by simpa [he] using Ne.symm hb)]
    · rw [List.eraseP_cons_of_neg (by simpa using he)]
      refine ⟨funext fun b => ?_, ?_⟩
      · by_cases hb : fold e.1 = b
        · subst hb
          rw [Function.update_of_ne he, view, view, List.find?_cons_of_pos (by simp),
            List.find?_cons_of_pos (by simp)]
        · have hrest := congrFun hview b
          rw [view, List.find?_cons_of_neg (by simpa using hb), ← view, hrest]
          by_cases hba : b = a
          · rw [hba, Function.update_self, Function.update_self]
          · rw [Function.update_of_ne hba, Function.update_of_ne hba, view, view,
              List.find?_cons_of_neg (by simpa using hb)]
      · rw [List.map_cons, List.mem_cons, not_or]
        exact ⟨Ne.symm he, hmem⟩

end Folded

end Keyed
