import Afly.C.Json

/-! # Strings as JSON values

The JSON library takes a C string as a value only when its bytes are UTF-8, by
the checks of `utf.c`, and storing a missing value leaves an object as it is.
-/

namespace Afly

/-- `utf8_check_first`: the length of the sequence that a byte starts, or 0. -/
def utf8CheckFirst (byte : Char) : ℕ :=
  let u := byte.toNat
  if u < 0x80 then 1
  else if u ≤ 0xBF then 0
  else if u = 0xC0 ∨ u = 0xC1 then 0
  else if u ≤ 0xDF then 2
  else if u ≤ 0xEF then 3
  else if u ≤ 0xF4 then 4
  else 0

/-- The value of a sequence, from the bits of its first byte and its continuation bytes. -/
def utf8Value : ℕ → CStr → Option ℕ
  | value, [] => some value
  | value, c :: s =>
    if c.toNat < 0x80 ∨ 0xBF < c.toNat then none else utf8Value (value * 64 + c.toNat % 64) s

/-- `utf8_check_full` on a sequence of its length. -/
def utf8CheckFull : CStr → Bool
  | [] => false
  | c :: s =>
    let size := s.length + 1
    let bits := if size = 2 then c.toNat % 32 else if size = 3 then c.toNat % 16 else c.toNat % 8
    match utf8Value bits s with
    | none => false
    | some value =>
      !(size < 2 || 4 < size) && !(0x10FFFF < value) && !(0xD800 ≤ value && value ≤ 0xDFFF) &&
        !((size = 2 && value < 0x80) || (size = 3 && value < 0x800) ||
          (size = 4 && value < 0x10000))

/-- The loop of `utf8_check_string`, with the number of bytes still to skip. -/
def utf8CheckLoop : ℕ → CStr → Bool
  | _, [] => true
  | n + 1, _ :: s => utf8CheckLoop n s
  | 0, c :: s =>
    let count := utf8CheckFirst c
    if count = 0 then false
    else if count = 1 then utf8CheckLoop 0 s
    else decide (count ≤ s.length + 1) && utf8CheckFull ((c :: s).take count) &&
      utf8CheckLoop (count - 1) s

def utf8CheckString (string : CStr) : Bool := utf8CheckLoop 0 string

def jsonString (value : CStr) : Option Json :=
  if utf8CheckString value then some (.str value) else none

/-- `json_object_set_new`: a stored value takes the place of the one of the same name, or comes
after all others. -/
def jsonObjectSetNew (obj : List (String × Json)) (key : String) (value : Option Json) :
    List (String × Json) :=
  match value with
  | none => obj
  | some v =>
    if key ∈ obj.map Prod.fst then obj.map fun p => if p.1 = key then (key, v) else p
    else obj ++ [(key, v)]

def jsonStringValue : Json → Option CStr
  | .str s => some s
  | _ => none

theorem jsonString_ascii {s : CStr} (h : ∀ c ∈ s, c.toNat < 0x80) :
    jsonString s = some (.str s) := by
  have hcheck : utf8CheckString s = true := by
    unfold utf8CheckString
    induction s with
    | nil => rfl
    | cons c s ih =>
      have hfirst : utf8CheckFirst c = 1 := by
        rw [utf8CheckFirst, if_pos (h c List.mem_cons_self)]
      rw [utf8CheckLoop, hfirst, if_neg (by decide), if_pos rfl]
      exact ih fun c hc => h c (List.mem_cons_of_mem _ hc)
  rw [jsonString, if_pos hcheck]

section Lookup

variable {obj : List (String × Json)} {key name : String} {value : Option Json} {v : Json}

theorem lookup_replace : (obj.map fun p => if p.1 = key then (key, v) else p).lookup name =
    if name = key then (obj.lookup key).map fun _ => v else obj.lookup name := by
  induction obj with
  | nil => simp
  | cons p obj ih =>
    obtain ⟨k, v'⟩ := p
    rw [List.map_cons, List.lookup_cons, List.lookup_cons]
    by_cases hk : k = key
    · subst hk
      rw [if_pos rfl, List.lookup_cons, beq_self_eq_true]
      by_cases hn : name = k
      · rw [if_pos hn, hn, beq_self_eq_true, Option.map_some]
      · rw [if_neg hn, beq_false_of_ne hn, ih, if_neg hn]
    · have hkey : (key == k) = false := beq_false_of_ne (Ne.symm hk)
      rw [if_neg hk, List.lookup_cons, hkey, ih]
      by_cases hn : name = k
      · simp [hn, hk]
      · rw [beq_false_of_ne hn]

theorem lookup_eq_none_iff {α : Type*} {l : List (String × α)} :
    l.lookup key = none ↔ key ∉ l.map Prod.fst := by
  rw [List.lookup_eq_none_iff]
  constructor
  · intro h hmem
    obtain ⟨p, hp, rfl⟩ := List.mem_map.mp hmem
    exact bne_iff_ne.mp (h p hp) rfl
  · intro h p hp
    apply bne_iff_ne.mpr
    rintro rfl
    exact h (List.mem_map_of_mem hp)

theorem lookup_jsonObjectSetNew : (jsonObjectSetNew obj key value).lookup name =
    if name = key then value.or (obj.lookup name) else obj.lookup name := by
  unfold jsonObjectSetNew
  cases value with
  | none => simp
  | some v =>
    dsimp only
    split
    · rename_i hmem
      obtain ⟨v', hv'⟩ := Option.ne_none_iff_exists'.mp fun h => lookup_eq_none_iff.mp h hmem
      rw [lookup_replace, hv', Option.map_some, Option.some_or]
    · rename_i hmem
      rw [List.lookup_append, List.lookup_cons, List.lookup_nil]
      by_cases hn : name = key
      · subst hn
        rw [lookup_eq_none_iff.mpr hmem, if_pos rfl, beq_self_eq_true]
        rfl
      · rw [if_neg hn, beq_false_of_ne hn]
        exact Option.or_none

theorem jsonObjectSetNew_nodup (h : (obj.map Prod.fst).Nodup) :
    ((jsonObjectSetNew obj key value).map Prod.fst).Nodup := by
  unfold jsonObjectSetNew
  cases value with
  | none => exact h
  | some v =>
    dsimp only
    split
    · have hnames : (obj.map fun p => if p.1 = key then (key, v) else p).map Prod.fst =
          obj.map Prod.fst := by
        rw [List.map_map]
        apply List.map_congr_left
        intro p _
        rw [Function.comp_apply]
        split
        · rename_i hp
          exact hp.symm
        · rfl
      rw [hnames]
      exact h
    · rename_i hmem
      rw [List.map_append]
      refine h.append (List.nodup_singleton key) ?_
      exact List.disjoint_singleton.mpr hmem

end Lookup

end Afly
