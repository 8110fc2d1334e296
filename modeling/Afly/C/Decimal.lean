import Afly.C.Text

/-! # Decimal numerals

A numeral is a nonempty list of digits. Its value is that of the numeral without
leading zeros, and two numerals without leading zeros and with one value are the
same. The conversions of the C library read a numeral up to the next byte that
is not a digit, and clamp its value.
-/

namespace Afly

/-- A list of digits, and not the empty one. -/
def IsNumeral (s : CStr) : Prop := s ≠ [] ∧ ∀ c ∈ s, c.isDigit = true

instance (s : CStr) : Decidable (IsNumeral s) :=
  decidable_of_iff (s ≠ [] ∧ s.all Char.isDigit = true) (and_congr_right' List.all_eq_true)

def decimal (s : CStr) : ℕ := Nat.ofDigitChars 10 s 0

def significant (s : CStr) : CStr := s.dropWhile (· = '0')

theorem decimal_zero_cons (s : CStr) : decimal ('0' :: s) = decimal s := by
  rw [decimal, Nat.ofDigitChars_cons]
  rfl

theorem decimal_concat (s : CStr) (c : Char) :
    decimal (s ++ [c]) = 10 * decimal s + (c.toNat - 48) := by
  rw [decimal, Nat.ofDigitChars_append, Nat.ofDigitChars_cons, Nat.ofDigitChars_nil]
  rfl

theorem decimal_significant (s : CStr) : decimal (significant s) = decimal s := by
  induction s with
  | nil => rfl
  | cons c s ih =>
    by_cases hc : c = '0'
    · subst hc
      rwa [significant, List.dropWhile_cons_of_pos (by simp), decimal_zero_cons]
    · rw [significant, List.dropWhile_cons_of_neg (by simpa using hc)]

theorem toNat_of_isDigit {c : Char} (h : c.isDigit = true) : 48 ≤ c.toNat ∧ c.toNat ≤ 57 := by
  simp only [Char.isDigit, Bool.and_eq_true, decide_eq_true_eq] at h
  exact h

theorem digitChar_of_isDigit {c : Char} (h : c.isDigit = true) :
    c.toNat - 48 < 10 ∧ Nat.digitChar (c.toNat - 48) = c := by
  obtain ⟨hl, hu⟩ := toNat_of_isDigit h
  refine ⟨by omega, Char.toNat_inj.mp ?_⟩
  rw [Nat.toNat_digitChar_of_lt_ten (by omega)]
  omega

theorem toDigits_decimal {s : CStr} {c : Char} (hs : IsNumeral (c :: s)) (hc : c ≠ '0') :
    0 < decimal (c :: s) ∧ Nat.toDigits 10 (decimal (c :: s)) = c :: s := by
  obtain ⟨-, hdigits⟩ := hs
  induction s using List.reverseRecOn with
  | nil =>
    obtain ⟨hlt, he⟩ := digitChar_of_isDigit (hdigits c (by simp))
    have hval : decimal [c] = c.toNat - 48 := (decimal_concat [] c).trans (Nat.zero_add _)
    rw [hval, Nat.toDigits_of_lt_base hlt, he]
    refine ⟨Nat.pos_of_ne_zero fun h0 => hc ?_, rfl⟩
    rw [← he, h0]
    rfl
  | append_singleton s d ih =>
    rw [← List.cons_append] at hdigits ⊢
    obtain ⟨hpos, hs⟩ := ih fun b hb => hdigits b (List.mem_append_left _ hb)
    obtain ⟨hlt, he⟩ := digitChar_of_isDigit (hdigits d (by simp))
    rw [decimal_concat]
    refine ⟨by omega, ?_⟩
    rw [← Nat.toDigits_append_toDigits (by decide) hpos hlt, hs, Nat.toDigits_of_lt_base hlt, he]

theorem significant_cases {s : CStr} (h : ∀ c ∈ s, c.isDigit = true) :
    significant s = [] ∨ ∃ c t, significant s = c :: t ∧ c ≠ '0' ∧ IsNumeral (c :: t) := by
  cases hs : significant s with
  | nil => exact Or.inl rfl
  | cons c t =>
    refine Or.inr ⟨c, t, rfl, ?_, by simp, ?_⟩
    · have hc := List.head?_dropWhile_not (fun b => decide (b = '0')) s
      rw [← significant, hs] at hc
      simpa using hc
    · intro b hb
      rw [← hs] at hb
      exact h b (List.dropWhile_subset _ hb)

/-- Numerals have the same value exactly if they differ in leading zeros at most. -/
theorem decimal_eq_iff {s t : CStr} (hs : ∀ c ∈ s, c.isDigit = true)
    (ht : ∀ c ∈ t, c.isDigit = true) : decimal s = decimal t ↔ significant s = significant t := by
  constructor
  · intro h
    rw [← decimal_significant s, ← decimal_significant t] at h
    rcases significant_cases hs with hs' | ⟨c, s', hs', hc, hnum⟩ <;>
      rcases significant_cases ht with ht' | ⟨d, t', ht', hd, hnum'⟩
    · rw [hs', ht']
    · rw [hs', ht'] at h
      exact absurd h (toDigits_decimal hnum' hd).1.ne
    · rw [hs', ht'] at h
      exact absurd h (toDigits_decimal hnum hc).1.ne'
    · rw [hs', ht'] at h ⊢
      rw [← (toDigits_decimal hnum hc).2, h, (toDigits_decimal hnum' hd).2]
  · intro h
    rw [← decimal_significant s, h, decimal_significant]

theorem mem_sprintfInt {n : ℤ} {c : Char} (h : c ∈ sprintfInt n) : c.isDigit = true ∨ c = '-' := by
  have hdigit (hc : c ∈ Nat.toDigits 10 n.natAbs) : c.isDigit = true :=
    Nat.isDigit_of_mem_toDigits (by decide) (by decide) hc
  unfold sprintfInt at h
  split_ifs at h
  · rcases List.mem_cons.mp h with rfl | hc
    · exact Or.inr rfl
    · exact Or.inl (hdigit hc)
  · exact Or.inl (hdigit h)

theorem ascii_sprintfInt {n : ℤ} {c : Char} (h : c ∈ sprintfInt n) : c.toNat < 0x80 := by
  rcases mem_sprintfInt h with hd | rfl
  · exact (toNat_of_isDigit hd).2.trans_lt (by decide)
  · decide

theorem sprintfInt_inj {n m : ℤ} (h : sprintfInt n = sprintfInt m) : n = m := by
  have hval (k : ℕ) : Nat.ofDigitChars 10 (Nat.toDigits 10 k) 0 = k :=
    Nat.ofDigitChars_toDigits (by decide) (by decide)
  have hsign (k : ℕ) (s : CStr) : Nat.toDigits 10 k ≠ '-' :: s := by
    intro hk
    have hd : '-' ∈ Nat.toDigits 10 k := hk ▸ List.mem_cons_self
    exact absurd (Nat.isDigit_of_mem_toDigits (by decide) (by decide) hd) (by decide)
  have habs (hd : Nat.toDigits 10 n.natAbs = Nat.toDigits 10 m.natAbs) : n.natAbs = m.natAbs := by
    rw [← hval n.natAbs, hd, hval]
  unfold sprintfInt at h
  split_ifs at h with hn hm hm
  · have := habs (List.cons.inj h).2
    omega
  · exact absurd h.symm (hsign _ _)
  · exact absurd h (hsign _ _)
  · have := habs h
    omega

section Conversions

variable {code rest : CStr}

theorem scanInt_numeral (h : IsNumeral code) (hrest : ∀ c ∈ rest.head?, c.isDigit = false) :
    scanInt (code ++ rest) = some (clampInt (decimal code), rest) := by
  obtain ⟨hne, hdigits⟩ := h
  have htake : (code ++ rest).takeWhile Char.isDigit = code := by
    rw [List.takeWhile_append_of_pos hdigits]
    cases rest with
    | nil => simp
    | cons c t => rw [List.takeWhile_cons_of_neg (by simp [hrest c rfl]), List.append_nil]
  have hdrop : (code ++ rest).dropWhile Char.isDigit = rest := by
    rw [List.dropWhile_append_of_pos hdigits]
    cases rest with
    | nil => rfl
    | cons c t => rw [List.dropWhile_cons_of_neg (by simp [hrest c rfl])]
  cases code with
  | nil => exact absurd rfl hne
  | cons c t =>
    rw [List.cons_append, scanInt_of_digit (hdigits c (by simp)), ← List.cons_append, scanDigits,
      htake, hdrop]
    rfl

theorem scanInt_nil : scanInt [] = none := rfl

theorem scanInt_comma (t : CStr) : scanInt (',' :: t) = none := rfl

end Conversions

end Afly
