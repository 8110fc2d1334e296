import Afly.C.Utf8

/-! # Texts in UTF-8

What the check of the JSON library accepts, as a grammar: bytes of ASCII and
sequences that pass on their own. Texts can be put together, and taken apart
where a byte of ASCII starts.
-/

namespace Afly

/-- A sequence of more than one byte that the library takes. -/
structure Utf8Sequence (c : Char) (t : CStr) : Prop where
  first : 2 ≤ utf8CheckFirst c
  length : (c :: t).length = utf8CheckFirst c
  full : utf8CheckFull (c :: t) = true

inductive Utf8Text : CStr → Prop where
  | nil : Utf8Text []
  | ascii {c : Char} {s : CStr} : c.toNat < 0x80 → Utf8Text s → Utf8Text (c :: s)
  | sequence {c : Char} {t s : CStr} : Utf8Sequence c t → Utf8Text s → Utf8Text (c :: t ++ s)

variable {c : Char} {s t a b : CStr}

theorem utf8CheckFirst_eq_one_iff : utf8CheckFirst c = 1 ↔ ¬ 0x80 ≤ c.toNat := by
  unfold utf8CheckFirst
  dsimp only
  constructor
  · intro h
    split_ifs at h <;> omega
  · intro h
    rw [if_pos (by omega)]

theorem utf8CheckLoop_skip (n : ℕ) (s : CStr) :
    utf8CheckLoop n s = utf8CheckLoop 0 (s.drop n) := by
  induction n generalizing s with
  | zero => rfl
  | succ n ih =>
    cases s with
    | nil => rfl
    | cons c s => rw [utf8CheckLoop, ih, List.drop_succ_cons]

theorem utf8CheckString_iff : utf8CheckString s = true ↔ Utf8Text s := by
  unfold utf8CheckString
  constructor
  · intro h
    induction hlen : s.length using Nat.strong_induction_on generalizing s with
    | _ n ih =>
      cases s with
      | nil => exact .nil
      | cons c s =>
        rw [utf8CheckLoop] at h
        split_ifs at h with hzero hone
        · refine .ascii (by simpa using utf8CheckFirst_eq_one_iff.mp hone) (ih _ ?_ h rfl)
          rw [← hlen, List.length_cons]
          omega
        · simp only [Bool.and_eq_true, decide_eq_true_eq] at h
          obtain ⟨⟨hle, hfull⟩, hrest⟩ := h
          obtain ⟨n, hn⟩ : ∃ n, utf8CheckFirst c = n + 1 + 1 := ⟨utf8CheckFirst c - 2, by omega⟩
          rw [hn] at hle hfull hrest
          rw [utf8CheckLoop_skip] at hrest
          have hsplit : c :: s = c :: s.take (n + 1) ++ s.drop (n + 1) := by
            rw [List.cons_append, List.take_append_drop]
          rw [hsplit]
          refine .sequence ⟨by omega, ?_, hfull⟩ (ih _ ?_ hrest rfl)
          · rw [hn, List.length_cons, List.length_take, Nat.min_eq_left (by omega)]
          · rw [← hlen, List.length_drop, List.length_cons]
            omega
  · intro h
    induction h with
    | nil => rfl
    | ascii hc _ ih =>
      rw [utf8CheckLoop, utf8CheckFirst_eq_one_iff.mpr (by omega)]
      exact ih
    | sequence hseq _ ih =>
      rename_i c t s _
      obtain ⟨hfirst, hlength, hfull⟩ := hseq
      have hdrop : (t ++ s).drop (utf8CheckFirst c - 1) = s := by
        rw [← hlength, List.length_cons, Nat.add_sub_cancel, List.drop_left]
      have htake : (c :: (t ++ s)).take (utf8CheckFirst c) = c :: t := by
        rw [← hlength, ← List.cons_append, List.take_left]
      have hle : utf8CheckFirst c ≤ (t ++ s).length + 1 := by
        rw [← hlength, List.length_append, List.length_cons]
        omega
      rw [List.cons_append, utf8CheckLoop, if_neg (by omega), if_neg (by omega), htake, hfull,
        utf8CheckLoop_skip, hdrop, ih, decide_eq_true hle]
      rfl

theorem utf8Value_bytes {value n : ℕ} (h : utf8Value value t = some n) :
    ∀ b ∈ t, 0x80 ≤ b.toNat ∧ b.toNat ≤ 0xbf := by
  induction t generalizing value with
  | nil => simp
  | cons c t ih =>
    rw [utf8Value] at h
    split_ifs at h with hc
    rintro b hb
    rcases List.mem_cons.mp hb with rfl | hb
    · omega
    · exact ih h b hb

theorem Utf8Sequence.bytes (h : Utf8Sequence c t) : ∀ b ∈ c :: t, 0x80 ≤ b.toNat := by
  obtain ⟨hfirst, -, hfull⟩ := h
  rintro b hb
  rcases List.mem_cons.mp hb with rfl | hb
  · by_contra hlt
    rw [utf8CheckFirst_eq_one_iff.mpr hlt] at hfirst
    omega
  · rw [utf8CheckFull] at hfull
    split at hfull
    · cases hfull
    · rename_i hvalue
      exact (utf8Value_bytes hvalue b hb).1

theorem Utf8Sequence.text (h : Utf8Sequence c t) : Utf8Text (c :: t) := by
  have htext := Utf8Text.sequence h .nil
  rwa [List.append_nil] at htext

theorem Utf8Text.append (ha : Utf8Text a) (hb : Utf8Text b) : Utf8Text (a ++ b) := by
  induction ha with
  | nil => exact hb
  | ascii hc _ ih => exact .ascii hc ih
  | sequence hseq _ ih =>
    rw [List.append_assoc]
    exact .sequence hseq ih

theorem utf8Text_of_ascii (h : ∀ c ∈ s, c.toNat < 0x80) : Utf8Text s := by
  induction s with
  | nil => exact .nil
  | cons c s ih =>
    exact .ascii (h c List.mem_cons_self) (ih fun d hd => h d (List.mem_cons_of_mem _ hd))

theorem Utf8Text.tail (h : Utf8Text (c :: s)) (hc : c.toNat < 0x80) : Utf8Text s := by
  generalize htext : c :: s = text at h
  cases h with
  | nil => cases htext
  | ascii _ hs =>
    cases htext
    exact hs
  | sequence hseq _ =>
    cases htext
    have := hseq.bytes c List.mem_cons_self
    omega

theorem Utf8Text.of_ascii_append (h : Utf8Text (a ++ b)) (ha : ∀ c ∈ a, c.toNat < 0x80) :
    Utf8Text b := by
  induction a with
  | nil => exact h
  | cons c a ih =>
    exact ih (h.tail (ha c List.mem_cons_self)) fun d hd => ha d (List.mem_cons_of_mem _ hd)

theorem Utf8Text.split (h : Utf8Text (a ++ b)) (hb : ∀ c ∈ b.head?, c.toNat < 0x80) :
    Utf8Text a ∧ Utf8Text b := by
  induction hlen : a.length using Nat.strong_induction_on generalizing a with
  | _ n ih =>
    cases a with
    | nil => exact ⟨.nil, h⟩
    | cons c a =>
      generalize htext : c :: a ++ b = text at h
      cases h with
      | nil => cases htext
      | ascii hc hs =>
        cases htext
        obtain ⟨ha, hb⟩ := ih _ (by rw [← hlen, List.length_cons]; omega) hs rfl
        exact ⟨.ascii hc ha, hb⟩
      | sequence hseq hs =>
        rename_i c t s
        obtain ⟨rfl, hts⟩ := List.cons.inj htext
        rcases List.append_eq_append_iff.mp hts with ⟨m, rfl, rfl⟩ | ⟨m, rfl, rfl⟩
        · -- the cut is not inside of the sequence
          cases m with
          | nil =>
            rw [List.append_nil] at hseq
            exact ⟨hseq.text, hs⟩
          | cons d m =>
            have hlow := hb d rfl
            have hhigh := hseq.bytes d (by simp)
            omega
        · obtain ⟨hm, hb⟩ := ih _ (by rw [← hlen]; simp) hs rfl
          exact ⟨.sequence hseq hm, hb⟩

end Afly
