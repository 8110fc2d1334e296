import Afly.Load.Grammar

/-! # The lexer and the lexemes

The lexer finds a lexeme behind the blanks when what comes next cannot be taken
for a part of it, and what it finds is a lexeme.
-/

namespace Afly.Load

-- Facts about all characters of a text are decided over the text, not over the type.
attribute [local instance (high)] List.decidableBAll

section Span

variable {p : Char → Bool} {s t l rest : CStr}

theorem span_append (h : ∀ c ∈ l, p c = true) (hrest : ∀ c ∈ rest.head?, p c = false) :
    (l ++ rest).span p = (l, rest) := by
  induction l with
  | nil =>
    cases rest with
    | nil => rfl
    | cons c rest => simp [List.span_eq_takeWhile_dropWhile, hrest c rfl]
  | cons c l ih =>
    have := ih fun c hc => h c (List.mem_cons_of_mem _ hc)
    simp [List.span_eq_takeWhile_dropWhile, h c List.mem_cons_self] at this ⊢
    exact this

theorem span_spec (h : s.span p = (l, rest)) : s = l ++ rest ∧ (∀ c ∈ l, p c = true) := by
  rw [List.span_eq_takeWhile_dropWhile, Prod.mk.injEq] at h
  obtain ⟨rfl, rfl⟩ := h
  exact ⟨List.takeWhile_append_dropWhile.symm, fun c hc => List.mem_takeWhile_imp hc⟩

end Span

section Strings

variable {s saved val rest : CStr}

/-- What the first scan saves: its units, with escapes that it has looked at. -/
inductive Scanned : CStr → Prop where
  | nil : Scanned []
  | plain {c : Char} {saved : CStr} : c ≠ quote → c ≠ backslash → 0x1f < c.toNat →
      Scanned saved → Scanned (c :: saved)
  | short {e : Char} {saved : CStr} : e ∈ [quote, backslash, '/', 'b', 'f', 'n', 'r', 't'] →
      Scanned saved → Scanned (backslash :: e :: saved)
  | unicode {h saved : CStr} : HexFour h → Scanned saved →
      Scanned (backslash :: 'u' :: (h ++ saved))

theorem hexFour_iff {h : CStr} : HexFour h ↔
    ∃ h₁ h₂ h₃ h₄, h = [h₁, h₂, h₃, h₄] ∧ [h₁, h₂, h₃, h₄].all isXdigit = true := by
  constructor
  · rintro ⟨hlen, hdigits⟩
    match h, hlen with
    | [h₁, h₂, h₃, h₄], _ => exact ⟨h₁, h₂, h₃, h₄, rfl, List.all_eq_true.mpr hdigits⟩
  · rintro ⟨h₁, h₂, h₃, h₄, rfl, hdigits⟩
    exact ⟨rfl, List.all_eq_true.mp hdigits⟩

theorem Quoted.scanned (h : Quoted saved val) : Scanned saved := by
  induction h with
  | nil => exact .nil
  | plain hq hb hc _ ih => exact .plain hq hb hc ih
  | short he _ ih => exact .short he ih
  | unicode hh _ _ _ ih => exact .unicode hh ih
  | pair hh hl _ _ _ ih => exact .unicode hh (.unicode hl ih)

theorem scanQuoted_plain {c : Char} (hq : c ≠ quote) (hb : c ≠ backslash) (hc : 0x1f < c.toNat) :
    scanQuoted (c :: s) = (scanQuoted s).map fun r => (c :: r.1, r.2) := by
  rw [scanQuoted.eq_def]
  dsimp only
  rw [if_neg hq, if_neg (by omega), if_neg hb]

theorem scanQuoted_short {e : Char} (he : e ∈ [quote, backslash, '/', 'b', 'f', 'n', 'r', 't']) :
    scanQuoted (backslash :: e :: s) =
      (scanQuoted s).map fun r => (backslash :: e :: r.1, r.2) := by
  have hu : e ≠ 'u' := by
    rintro rfl
    exact absurd he (by decide)
  rw [scanQuoted.eq_def]
  dsimp only
  rw [if_neg (by decide), if_neg (by decide), if_pos rfl, if_neg hu, if_pos he]

theorem scanQuoted_unicode {h : CStr} (hh : HexFour h) : scanQuoted (backslash :: 'u' :: (h ++ s)) =
    (scanQuoted s).map fun r => (backslash :: 'u' :: (h ++ r.1), r.2) := by
  obtain ⟨h₁, h₂, h₃, h₄, rfl, hdigits⟩ := hexFour_iff.mp hh
  rw [List.cons_append, List.cons_append, List.cons_append, List.cons_append, List.nil_append,
    scanQuoted.eq_def]
  dsimp only
  rw [if_neg (by decide), if_neg (by decide), if_pos rfl, if_pos rfl, if_pos hdigits]
  rfl

theorem scanQuoted_append (h : Scanned saved) (rest : CStr) :
    scanQuoted (saved ++ quote :: rest) = some (saved, rest) := by
  induction h with
  | nil =>
    rw [List.nil_append, scanQuoted.eq_def]
    exact if_pos rfl
  | plain hq hb hc _ ih =>
    rw [List.cons_append, scanQuoted_plain hq hb hc, ih]
    rfl
  | short he _ ih =>
    rw [List.cons_append, List.cons_append, scanQuoted_short he, ih]
    rfl
  | unicode hh _ ih =>
    rw [List.cons_append, List.cons_append, List.append_assoc, scanQuoted_unicode hh, ih]
    rfl

theorem scanQuoted_spec (h : scanQuoted s = some (saved, rest)) :
    s = saved ++ quote :: rest ∧ Scanned saved := by
  fun_induction scanQuoted s generalizing saved with
  | case2 s =>
    cases h
    exact ⟨rfl, .nil⟩
  | case5 h₁ h₂ h₃ h₄ s hdigits _ _ ih =>
    obtain ⟨⟨saved, rest⟩, hs, he⟩ := Option.map_eq_some_iff.mp h
    cases he
    obtain ⟨rfl, hsaved⟩ := ih hs
    exact ⟨rfl, .unicode (h := [h₁, h₂, h₃, h₄])
      (hexFour_iff.mpr ⟨h₁, h₂, h₃, h₄, rfl, hdigits⟩) hsaved⟩
  | case8 e s _ he _ _ ih =>
    obtain ⟨⟨saved, rest⟩, hs, he⟩ := Option.map_eq_some_iff.mp h
    cases he
    obtain ⟨rfl, hsaved⟩ := ih hs
    exact ⟨rfl, .short ‹_› hsaved⟩
  | case10 c s hq hc hb ih =>
    obtain ⟨⟨saved, rest⟩, hs, he⟩ := Option.map_eq_some_iff.mp h
    cases he
    obtain ⟨rfl, hsaved⟩ := ih hs
    exact ⟨rfl, .plain hq hb (by omega) hsaved⟩
  | _ => cases h

theorem decodeQuoted_plain {c : Char} (hb : c ≠ backslash) :
    decodeQuoted (c :: s) = (decodeQuoted s).map fun t => c :: t := by
  rw [decodeQuoted.eq_def]
  exact if_neg hb

theorem decodeQuoted_short {e : Char} (hu : e ≠ 'u') :
    decodeQuoted (backslash :: e :: s) = (decodeQuoted s).map fun t => unescape e :: t := by
  rw [decodeQuoted.eq_def]
  dsimp only
  rw [if_pos rfl, if_neg hu]

theorem decodeQuoted_unicode {h : CStr} (hh : HexFour h) :
    decodeQuoted (backslash :: 'u' :: (h ++ s)) =
      if IsHigh (decodeUnicodeEscape h) then
        match s with
        | b :: u :: l₁ :: l₂ :: l₃ :: l₄ :: p =>
          if b = backslash ∧ u = 'u' then
            if IsLow (decodeUnicodeEscape [l₁, l₂, l₃, l₄]) then
              (decodeQuoted p).map fun t => utf8Encode ((decodeUnicodeEscape h - 0xd800) <<< 10 +
                (decodeUnicodeEscape [l₁, l₂, l₃, l₄] - 0xdc00) + 0x10000) ++ t
            else none
          else none
        | _ => none
      else if IsLow (decodeUnicodeEscape h) then none
      else (decodeQuoted s).map fun t => utf8Encode (decodeUnicodeEscape h) ++ t := by
  obtain ⟨h₁, h₂, h₃, h₄, rfl, hdigits⟩ := hexFour_iff.mp hh
  rw [List.cons_append, List.cons_append, List.cons_append, List.cons_append, List.nil_append,
    decodeQuoted.eq_def]
  dsimp only
  rw [if_pos rfl, if_pos rfl]
  rfl

theorem decodeQuoted_eq (h : Quoted saved val) : decodeQuoted saved = some val := by
  induction h with
  | nil => rfl
  | plain _ hb _ _ ih =>
    rw [decodeQuoted_plain hb, ih]
    rfl
  | short he _ ih =>
    rename_i e saved val _
    have hu : e ≠ 'u' := by
      rintro rfl
      exact absurd he (by decide)
    rw [decodeQuoted_short hu, ih]
    rfl
  | unicode hh hhigh hlow _ ih =>
    rw [decodeQuoted_unicode hh, if_neg hhigh, if_neg hlow, ih]
    rfl
  | pair hh hl hhigh hlow _ ih =>
    obtain ⟨l₁, l₂, l₃, l₄, rfl, -⟩ := hexFour_iff.mp hl
    rw [decodeQuoted_unicode hh, if_pos hhigh]
    simp only [List.cons_append, List.nil_append, and_self, if_true, if_pos hlow, ih]
    rfl

theorem scanned_unicode (h : Scanned (backslash :: 'u' :: s)) :
    ∃ l p, HexFour l ∧ Scanned p ∧ s = l ++ p := by
  generalize hs : backslash :: 'u' :: s = saved at h
  cases h with
  | nil => cases hs
  | plain _ hb _ _ => exact absurd (List.cons.inj hs).1.symm hb
  | short he _ =>
    cases hs
    exact absurd he (by decide)
  | unicode hh hp =>
    cases hs
    exact ⟨_, _, hh, hp, rfl⟩

theorem quoted_of_scanned (h : Scanned saved) (hval : decodeQuoted saved = some val) :
    Quoted saved val := by
  induction hlen : saved.length using Nat.strong_induction_on generalizing saved val with
  | _ n ih =>
    cases h with
    | nil =>
      cases hval
      exact .nil
    | plain hq hb hc hsaved =>
      rw [decodeQuoted_plain hb] at hval
      obtain ⟨t, ht, rfl⟩ := Option.map_eq_some_iff.mp hval
      exact .plain hq hb hc (ih _ (by rw [← hlen]; simp) hsaved ht rfl)
    | short he hsaved =>
      rename_i e saved
      have hu : e ≠ 'u' := by
        rintro rfl
        exact absurd he (by decide)
      rw [decodeQuoted_short hu] at hval
      obtain ⟨t, ht, rfl⟩ := Option.map_eq_some_iff.mp hval
      exact .short he (ih _ (by rw [← hlen]; simp) hsaved ht rfl)
    | unicode hh hsaved =>
      rename_i h saved
      rw [decodeQuoted_unicode hh] at hval
      split_ifs at hval with hhigh hlow
      · -- a high surrogate takes the escape behind it
        split at hval
        · rename_i b u l₁ l₂ l₃ l₄ p
          split_ifs at hval with hpair hlow
          obtain ⟨rfl, rfl⟩ := hpair
          obtain ⟨t, ht, rfl⟩ := Option.map_eq_some_iff.mp hval
          obtain ⟨l, _, hl, hp, hsplit⟩ := scanned_unicode hsaved
          obtain ⟨l₁', l₂', l₃', l₄', rfl, -⟩ := hexFour_iff.mp hl
          cases hsplit
          exact .pair (l := [l₁, l₂, l₃, l₄]) hh hl hhigh hlow
            (ih _ (by rw [← hlen]; simp; omega) hp ht rfl)
        · cases hval
      · obtain ⟨t, ht, rfl⟩ := Option.map_eq_some_iff.mp hval
        exact .unicode hh hhigh hlow (ih _ (by rw [← hlen]; simp; omega) hsaved ht rfl)

end Strings

section Numbers

variable {strtod : CStr → Option Double} {saved sgn digits fraction exponent s rest : CStr}
  {token : Token}

/-- What cannot go on with a number or a word. -/
def Stops (s : CStr) : Prop := ∀ c ∈ s.head?, c.isAlphanum = false ∧ c ≠ '.'

theorem Stops.digit (h : Stops s) : ∀ c ∈ s.head?, c.isDigit = false := by
  intro c hc
  have := (h c hc).1
  rw [Char.isAlphanum, Bool.or_eq_false_iff] at this
  exact this.2

theorem Stops.alpha (h : Stops s) : ∀ c ∈ s.head?, c.isAlpha = false := by
  intro c hc
  have := (h c hc).1
  rw [Char.isAlphanum, Bool.or_eq_false_iff] at this
  exact this.1

theorem isNumeral_ne_nil (h : IsNumeral digits) : digits.isEmpty = false := by
  rw [List.isEmpty_eq_false_iff]
  exact h.1

theorem scanExponent_append (strtod : CStr → Option Double) (h : Exponent exponent)
    (hrest : Stops rest) (saved : CStr) : scanExponent strtod saved (exponent ++ rest) =
      (realToken strtod (saved ++ exponent), rest) := by
  cases h with
  | none =>
    cases rest with
    | nil => simp [scanExponent]
    | cons c rest =>
      have hc := hrest.alpha c rfl
      have he : ¬ (c = 'E' ∨ c = 'e') := by
        rintro (rfl | rfl) <;> exact absurd hc (by decide)
      simp only [List.nil_append, scanExponent, if_neg he, List.append_nil]
  | plain he hdigits =>
    rename_i e digits
    obtain ⟨d, ds, rfl⟩ := List.exists_cons_of_ne_nil hdigits.1
    have hd : ¬ (d = '+' ∨ d = '-') := by
      have := hdigits.2 d List.mem_cons_self
      rintro (rfl | rfl) <;> exact absurd this (by decide)
    have hspan := span_append hdigits.2 hrest.digit
    simp only [List.cons_append] at hspan ⊢
    simp only [scanExponent, if_pos he, if_neg hd, hspan]
    simp
  | signed he hsgn hdigits =>
    have hspan := span_append hdigits.2 hrest.digit
    have hne := isNumeral_ne_nil hdigits
    simp only [List.cons_append, scanExponent, if_pos he, if_pos hsgn, hspan, hne]
    simp

theorem exponent_cons (h : Exponent exponent) (hne : exponent ≠ []) :
    ∃ e t, exponent = e :: t ∧ (e = 'E' ∨ e = 'e') := by
  cases h with
  | none => exact absurd rfl hne
  | plain he _ => exact ⟨_, _, rfl, he⟩
  | signed he _ _ => exact ⟨_, _, rfl, he⟩

theorem exponent_digit (h : Exponent exponent) (hrest : Stops rest) :
    ∀ c ∈ (exponent ++ rest).head?, c.isDigit = false := by
  cases h with
  | none => exact hrest.digit
  | plain he _ =>
    rintro c ⟨⟩
    rcases he with rfl | rfl <;> rfl
  | signed he _ _ =>
    rintro c ⟨⟩
    rcases he with rfl | rfl <;> rfl

theorem fraction_digit (hf : Fraction fraction) (he : Exponent exponent) (hrest : Stops rest) :
    ∀ c ∈ (fraction ++ exponent ++ rest).head?, c.isDigit = false := by
  cases hf with
  | none => exact exponent_digit he hrest
  | point _ =>
    rintro c ⟨⟩
    rfl

theorem scanFraction_real (hf : Fraction fraction) (he : Exponent exponent)
    (hne : fraction ++ exponent ≠ []) (hrest : Stops rest) (saved : CStr) :
    scanFraction strtod saved (fraction ++ exponent ++ rest) =
      (realToken strtod (saved ++ fraction ++ exponent), rest) := by
  cases hf with
  | none =>
    have hexp := scanExponent_append strtod he hrest saved
    obtain ⟨e, t, rfl, hE⟩ := exponent_cons he hne
    have hp : ¬ e = '.' := by
      rcases hE with rfl | rfl <;> decide
    simp only [List.nil_append, List.cons_append, List.append_nil, scanFraction, if_neg hp,
      if_pos hE] at hexp ⊢
    exact hexp
  | point hdigits =>
    rename_i digits
    have hspan := span_append hdigits.2 (exponent_digit he hrest)
    have hexp := scanExponent_append strtod he hrest (saved ++ '.' :: digits)
    simp only [List.cons_append, List.append_assoc, scanFraction, if_pos, hspan,
      isNumeral_ne_nil hdigits] at hexp ⊢
    exact hexp

theorem scanFraction_integer (hrest : Stops rest) (saved : CStr) :
    scanFraction strtod saved rest = (integerToken saved, rest) := by
  cases rest with
  | nil => rfl
  | cons c rest =>
    have hp : ¬ c = '.' := (hrest c rfl).2
    have he : ¬ (c = 'E' ∨ c = 'e') := by
      have hc := hrest.alpha c rfl
      rintro (rfl | rfl) <;> exact absurd hc (by decide)
    simp only [scanFraction, if_neg hp, if_neg he]

theorem scanInteger_append (h : IsInteger digits) (hrest : ∀ c ∈ rest.head?, c.isDigit = false)
    (sgn : CStr) : scanInteger strtod sgn (digits ++ rest) =
      scanFraction strtod (sgn ++ digits) rest := by
  obtain ⟨⟨hne, hdigits⟩, hzero⟩ := h
  obtain ⟨d, ds, rfl⟩ := List.exists_cons_of_ne_nil hne
  by_cases hd : d = '0'
  · subst hd
    obtain rfl : ds = [] := (List.cons.inj (hzero rfl)).2
    have hany : rest.head?.any Char.isDigit = false := by
      cases rest with
      | nil => rfl
      | cons c rest => exact hrest c rfl
    simp only [List.cons_append, List.nil_append, scanInteger, if_pos, hany]
    simp
  · have hspan := span_append (fun c hc => hdigits c (List.mem_cons_of_mem _ hc)) hrest
    simp only [List.cons_append, scanInteger, if_neg hd, if_pos (hdigits d List.mem_cons_self),
      hspan]

theorem isNumeral_of_span (h : s.span Char.isDigit = (digits, rest))
    (hne : ¬ digits.isEmpty = true) : s = digits ++ rest ∧ IsNumeral digits := by
  obtain ⟨hs, hdigits⟩ := span_spec h
  exact ⟨hs, fun hnil => hne (List.isEmpty_iff.mpr hnil), hdigits⟩

theorem scanExponent_spec (h : scanExponent strtod saved s = (token, rest))
    (htoken : token ≠ .invalid) : ∃ exponent, Exponent exponent ∧ s = exponent ++ rest ∧
      token = realToken strtod (saved ++ exponent) ∧
      (exponent = [] → ∀ c ∈ s.head?, ¬ (c = 'E' ∨ c = 'e')) := by
  cases s with
  | nil =>
    cases h
    exact ⟨[], .none, rfl, by rw [List.append_nil], by simp⟩
  | cons c s =>
    by_cases he : c = 'E' ∨ c = 'e'
    · cases s with
      | nil =>
        simp only [scanExponent, if_pos he] at h
        exact absurd (Prod.ext_iff.mp h).1.symm htoken
      | cons d s =>
        by_cases hd : d = '+' ∨ d = '-'
        · cases hspan : s.span Char.isDigit with
          | mk digits tail =>
          simp only [scanExponent, if_pos he, if_pos hd, hspan] at h
          split_ifs at h with hempty
          · exact absurd (Prod.ext_iff.mp h).1.symm htoken
          · obtain ⟨rfl, hdigits⟩ := isNumeral_of_span hspan hempty
            obtain ⟨rfl, rfl⟩ := Prod.mk.inj h
            exact ⟨_, .signed he hd hdigits, rfl, by simp, by simp⟩
        · cases hspan : (d :: s).span Char.isDigit with
          | mk digits tail =>
          simp only [scanExponent, if_pos he, if_neg hd, hspan] at h
          split_ifs at h with hempty
          · exact absurd (Prod.ext_iff.mp h).1.symm htoken
          · obtain ⟨hs, hdigits⟩ := isNumeral_of_span hspan hempty
            obtain ⟨rfl, rfl⟩ := Prod.mk.inj h
            exact ⟨_, .plain he hdigits, by rw [hs, List.cons_append], by simp, by simp⟩
    · simp only [scanExponent, if_neg he] at h
      obtain ⟨rfl, rfl⟩ := Prod.mk.inj h
      exact ⟨[], .none, rfl, by rw [List.append_nil], by rintro - c ⟨⟩; exact he⟩

theorem scanFraction_spec (h : scanFraction strtod saved s = (token, rest))
    (htoken : token ≠ .invalid) : s = rest ∧ token = integerToken saved ∨
      ∃ fraction exponent, Fraction fraction ∧ Exponent exponent ∧ fraction ++ exponent ≠ [] ∧
        s = fraction ++ exponent ++ rest ∧
          token = realToken strtod (saved ++ fraction ++ exponent) := by
  cases s with
  | nil =>
    cases h
    exact Or.inl ⟨rfl, rfl⟩
  | cons c s =>
    by_cases hp : c = '.'
    · cases hspan : s.span Char.isDigit with
      | mk digits tail =>
      simp only [scanFraction, if_pos hp, hspan] at h
      split_ifs at h with hempty
      · exact absurd (Prod.ext_iff.mp h).1.symm htoken
      · obtain ⟨rfl, hdigits⟩ := isNumeral_of_span hspan hempty
        obtain ⟨exponent, he, rfl, rfl, -⟩ := scanExponent_spec h htoken
        subst hp
        exact Or.inr ⟨_, _, .point hdigits, he, by simp, by simp, rfl⟩
    · by_cases he : c = 'E' ∨ c = 'e'
      · simp only [scanFraction, if_neg hp, if_pos he] at h
        obtain ⟨exponent, hexp, hrest, rfl, hstart⟩ := scanExponent_spec h htoken
        refine Or.inr ⟨[], exponent, .none, hexp, ?_, hrest, by rw [List.append_nil]⟩
        intro hnil
        exact hstart hnil c rfl he
      · simp only [scanFraction, if_neg hp, if_neg he] at h
        obtain ⟨rfl, rfl⟩ := Prod.mk.inj h
        exact Or.inl ⟨rfl, rfl⟩

theorem scanInteger_spec (h : scanInteger strtod sgn s = (token, rest))
    (htoken : token ≠ .invalid) : ∃ digits tail, IsInteger digits ∧ s = digits ++ tail ∧
      scanFraction strtod (sgn ++ digits) tail = (token, rest) := by
  cases s with
  | nil => exact absurd (Prod.ext_iff.mp h).1.symm htoken
  | cons c s =>
    by_cases hc : c = '0'
    · subst hc
      simp only [scanInteger, if_true] at h
      split_ifs at h
      · exact absurd (Prod.ext_iff.mp h).1.symm htoken
      · refine ⟨['0'], s, ⟨⟨by simp, ?_⟩, fun _ => rfl⟩, rfl, h⟩
        intro d hd
        obtain rfl := List.mem_singleton.mp hd
        rfl
    · by_cases hd : c.isDigit = true
      · cases hspan : s.span Char.isDigit with
        | mk digits tail =>
        simp only [scanInteger, if_neg hc, if_pos hd, hspan] at h
        obtain ⟨rfl, hdigits⟩ := span_spec hspan
        refine ⟨_, _, ⟨⟨by simp, ?_⟩, ?_⟩, rfl, h⟩
        · intro d hmem
          rcases List.mem_cons.mp hmem with rfl | hmem
          · exact hd
          · exact hdigits d hmem
        · intro hzero
          exact absurd (Option.some.inj hzero) hc
      · simp only [scanInteger, if_neg hc, if_neg hd] at h
        exact absurd (Prod.ext_iff.mp h).1.symm htoken

end Numbers

section Scan

variable {strtod : CStr → Option Double} {valid : Bool} {w s lexeme digits rest : CStr}
  {token : Token}

theorem integerToken_positive (h : IsInteger digits) :
    integerToken digits =
      if decimal digits < 2 ^ 63 then .integer (decimal digits) else .invalid := by
  obtain ⟨d, ds, rfl⟩ := List.exists_cons_of_ne_nil h.1.1
  have hd : ¬ d = '-' := by
    rintro rfl
    exact absurd (h.1.2 _ List.mem_cons_self) (by decide)
  simp only [integerToken, if_neg hd]
  split_ifs with h₁ h₂ <;> first | rfl | omega

theorem integerToken_negative (digits : CStr) : integerToken ('-' :: digits) =
    if decimal digits ≤ 2 ^ 63 then .integer (-decimal digits) else .invalid := by
  simp only [integerToken, if_true]
  split_ifs with h₁ h₂ <;> first | rfl | omega

theorem lexScan_blanks (hw : Blanks w) (s : CStr) :
    lexScan strtod valid (w ++ s) = lexScan strtod valid s := by
  rw [lexScan, lexScan, List.dropWhile_append_of_pos hw]

theorem lexScan_cons {c : Char} (hc : isBlank c = false) : lexScan strtod valid (c :: s) =
    if c ∈ ['\x7b', '\x7d', '[', ']', ':', ','] then (.sign c, s)
    else if c = quote then lexScanString s
    else if c.isDigit ∨ c = '-' then lexScanNumber strtod c s
    else if c.isAlpha then
      (if ((c :: s).span Char.isAlpha).1 = "true".toList then .true
        else if ((c :: s).span Char.isAlpha).1 = "false".toList then .false
        else if ((c :: s).span Char.isAlpha).1 = "null".toList then .null
        else .invalid, ((c :: s).span Char.isAlpha).2)
    else (.invalid, s) := by
  rw [lexScan, List.dropWhile_cons_of_neg (by simp [hc])]

theorem lexScan_sign {c : Char} (hc : c ∈ ['\x7b', '\x7d', '[', ']', ':', ',']) (s : CStr) :
    lexScan strtod valid (c :: s) = (.sign c, s) := by
  have hblank : isBlank c = false := by
    simp only [List.mem_cons, List.not_mem_nil, or_false] at hc
    rcases hc with rfl | rfl | rfl | rfl | rfl | rfl <;> rfl
  rw [lexScan_cons hblank, if_pos hc]

theorem lexScan_string {saved val : CStr} (h : Quoted saved val) (s : CStr) :
    lexScan strtod valid (quote :: saved ++ [quote] ++ s) = (.string val, s) := by
  rw [List.cons_append, List.cons_append, lexScan_cons (by decide), if_neg (by decide), if_pos rfl,
    List.append_assoc, List.singleton_append, lexScanString, scanQuoted_append h.scanned]
  dsimp only
  rw [decodeQuoted_eq h]

theorem lexScan_number {c : Char} (hc : c.isDigit = true ∨ c = '-') (s : CStr) :
    lexScan strtod valid (c :: s) = lexScanNumber strtod c s := by
  have hne {d : Char} (hd : ¬ (d.isDigit = true ∨ d = '-')) : c ≠ d := by
    rintro rfl
    exact hd hc
  have hblank : isBlank c = false := by
    simp [isBlank, hne (d := ' ') (by decide), hne (d := '\t') (by decide),
      hne (d := '\n') (by decide), hne (d := '\r') (by decide)]
  have hsign : c ∉ ['\x7b', '\x7d', '[', ']', ':', ','] := by
    simp [hne (d := '\x7b') (by decide), hne (d := '\x7d') (by decide),
      hne (d := '[') (by decide), hne (d := ']') (by decide), hne (d := ':') (by decide),
      hne (d := ',') (by decide)]
  rw [lexScan_cons hblank, if_neg hsign, if_neg (hne (by decide)), if_pos hc]

theorem lexScan_signed {sgn : CStr} (hsgn : Minus sgn) (hs : IsInteger digits) (s : CStr) :
    lexScan strtod valid (sgn ++ digits ++ s) = scanInteger strtod sgn (digits ++ s) := by
  cases hsgn with
  | none =>
    obtain ⟨d, ds, rfl⟩ := List.exists_cons_of_ne_nil hs.1.1
    have hdigit := hs.1.2 d List.mem_cons_self
    have hd : ¬ d = '-' := by
      rintro rfl
      exact absurd hdigit (by decide)
    rw [List.nil_append, List.cons_append, lexScan_number (Or.inl hdigit), lexScanNumber, if_neg hd]
  | minus =>
    rw [List.append_assoc, List.singleton_append, lexScan_number (Or.inr rfl), lexScanNumber,
      if_pos rfl]

theorem lexScan_word {c : Char} {word : CStr} (hword : ∀ d ∈ c :: word, d.isAlpha = true)
    (hc : ¬ (c.isDigit = true ∨ c = '-')) (hblank : isBlank c = false)
    (hsign : c ∉ ['\x7b', '\x7d', '[', ']', ':', ',', quote]) (hrest : Stops rest) :
    lexScan strtod valid (c :: word ++ rest) =
      (if c :: word = "true".toList then .true
        else if c :: word = "false".toList then .false
        else if c :: word = "null".toList then .null
        else .invalid, rest) := by
  have hspan := span_append hword hrest.alpha
  have hquote : c ≠ quote := by
    rintro rfl
    exact hsign (by decide)
  have hbracket : c ∉ ['\x7b', '\x7d', '[', ']', ':', ','] := fun h =>
    hsign (List.mem_append_left [quote] h)
  rw [List.cons_append] at hspan ⊢
  rw [lexScan_cons hblank, if_neg hbracket, if_neg hquote, if_neg hc,
    if_pos (hword c List.mem_cons_self), hspan]

theorem lexScan_lexeme (h : Lexeme strtod token lexeme) (hrest : Stops rest) :
    lexScan strtod valid (lexeme ++ rest) = (token, rest) := by
  cases h with
  | sign hc => exact lexScan_sign hc rest
  | string hq => exact lexScan_string hq rest
  | positive hs hlt =>
    rw [← List.nil_append (_ ++ rest), ← List.append_assoc, lexScan_signed .none hs,
      scanInteger_append hs hrest.digit, scanFraction_integer hrest, List.nil_append,
      integerToken_positive hs, if_pos hlt]
  | negative hs hle =>
    rw [← List.singleton_append, lexScan_signed .minus hs, scanInteger_append hs hrest.digit,
      scanFraction_integer hrest, List.singleton_append,
      integerToken_negative, if_pos hle]
  | real hsgn hs hf he hne hvalue =>
    rename_i sgn digits fraction exponent value
    have hassoc : sgn ++ digits ++ fraction ++ exponent ++ rest =
        sgn ++ digits ++ (fraction ++ exponent ++ rest) := by
      simp only [List.append_assoc]
    rw [hassoc, lexScan_signed hsgn hs, scanInteger_append hs (fraction_digit hf he hrest),
      scanFraction_real hf he hne hrest, realToken, hvalue]
    rfl
  | true => exact lexScan_word (by decide) (by decide) (by decide) (by decide) hrest
  | false => exact lexScan_word (by decide) (by decide) (by decide) (by decide) hrest
  | null => exact lexScan_word (by decide) (by decide) (by decide) (by decide) hrest

theorem lexScan_end (hw : Blanks w) : lexScan strtod true w = (.eof, []) := by
  rw [← List.append_nil w, lexScan_blanks hw]
  rfl

theorem lexScanNumber_spec {c : Char} (h : lexScanNumber strtod c s = (token, rest))
    (htoken : token ≠ .invalid) :
    ∃ lexeme, Lexeme strtod token lexeme ∧ c :: s = lexeme ++ rest := by
  obtain ⟨sgn, t, hsgn, hlex, hscan⟩ : ∃ sgn t, Minus sgn ∧ c :: s = sgn ++ t ∧
      scanInteger strtod sgn t = (token, rest) := by
    unfold lexScanNumber at h
    split_ifs at h with hc
    · subst hc
      exact ⟨['-'], s, .minus, rfl, h⟩
    · exact ⟨[], c :: s, .none, rfl, h⟩
  obtain ⟨digits, tail, hs, rfl, hfraction⟩ := scanInteger_spec hscan htoken
  rcases scanFraction_spec hfraction htoken with ⟨rfl, rfl⟩ |
      ⟨fraction, exponent, hf, he, hne, rfl, rfl⟩
  · cases hsgn with
    | none =>
      rw [List.nil_append, integerToken_positive hs] at htoken ⊢
      split_ifs at htoken ⊢ with hlt
      · exact ⟨digits, .positive hs hlt, hlex⟩
      · exact absurd rfl htoken
    | minus =>
      rw [List.singleton_append, integerToken_negative] at htoken ⊢
      split_ifs at htoken ⊢ with hle
      · exact ⟨'-' :: digits, .negative hs hle, hlex⟩
      · exact absurd rfl htoken
  · rw [realToken] at htoken ⊢
    cases hvalue : strtod (sgn ++ digits ++ fraction ++ exponent) with
    | none =>
      rw [hvalue] at htoken
      exact absurd rfl htoken
    | some value => exact ⟨_, .real hsgn hs hf he hne hvalue, by rw [hlex]; simp⟩

theorem lexScan_found {c : Char} {t : CStr} (hdrop : s.dropWhile isBlank = c :: t)
    (h : lexScan strtod valid s = (token, rest)) (htoken : token ≠ .invalid) :
    ∃ lexeme, Lexeme strtod token lexeme ∧ c :: t = lexeme ++ rest := by
  unfold lexScan at h
  rw [hdrop] at h
  dsimp only at h
  have hspan {word : CStr} (hword : ((c :: t).span Char.isAlpha).1 = word) :
      c :: t = word ++ ((c :: t).span Char.isAlpha).2 := by
    rw [← hword]
    exact (span_spec (p := Char.isAlpha) rfl).1
  split_ifs at h with hsign hquote hnumber _ htrue hfalse hnull
  · obtain ⟨rfl, rfl⟩ := Prod.mk.inj h
    exact ⟨[c], .sign hsign, rfl⟩
  · subst hquote
    unfold lexScanString at h
    split at h
    · exact absurd (Prod.ext_iff.mp h).1.symm htoken
    · rename_i saved rest' hscan
      obtain ⟨rfl, hscanned⟩ := scanQuoted_spec hscan
      split at h
      · exact absurd (Prod.ext_iff.mp h).1.symm htoken
      · rename_i val hdecode
        obtain ⟨rfl, rfl⟩ := Prod.mk.inj h
        exact ⟨_, .string (quoted_of_scanned hscanned hdecode), by simp⟩
  · exact lexScanNumber_spec h htoken
  · obtain ⟨rfl, rfl⟩ := Prod.mk.inj h
    exact ⟨_, .true, hspan htrue⟩
  · obtain ⟨rfl, rfl⟩ := Prod.mk.inj h
    exact ⟨_, .false, hspan hfalse⟩
  · obtain ⟨rfl, rfl⟩ := Prod.mk.inj h
    exact ⟨_, .null, hspan hnull⟩
  · exact absurd (Prod.ext_iff.mp h).1.symm htoken
  · exact absurd (Prod.ext_iff.mp h).1.symm htoken

theorem blanks_takeWhile (s : CStr) : Blanks (s.takeWhile isBlank) :=
  fun _ hc => List.mem_takeWhile_imp hc

theorem lexScan_spec (h : lexScan strtod valid s = (token, rest)) (htoken : token ≠ .invalid)
    (heof : token ≠ .eof) : ∃ w lexeme, Blanks w ∧ Lexeme strtod token lexeme ∧
      s = w ++ lexeme ++ rest := by
  have hs : s.takeWhile isBlank ++ s.dropWhile isBlank = s := List.takeWhile_append_dropWhile
  cases hdrop : s.dropWhile isBlank with
  | nil =>
    unfold lexScan at h
    rw [hdrop] at h
    obtain ⟨rfl, -⟩ := Prod.mk.inj h
    split_ifs at heof htoken
    · exact absurd rfl heof
    · exact absurd rfl htoken
  | cons c t =>
    obtain ⟨lexeme, hlexeme, ht⟩ := lexScan_found hdrop h htoken
    exact ⟨_, lexeme, blanks_takeWhile s, hlexeme, by rw [List.append_assoc, ← ht, ← hdrop, hs]⟩

theorem lexScan_eof (h : lexScan strtod valid s = (.eof, rest)) : valid = true ∧ Blanks s := by
  cases hdrop : s.dropWhile isBlank with
  | nil =>
    have hs : s.takeWhile isBlank ++ s.dropWhile isBlank = s := List.takeWhile_append_dropWhile
    rw [hdrop, List.append_nil] at hs
    unfold lexScan at h
    rw [hdrop] at h
    cases valid with
    | false => cases h
    | true => exact ⟨rfl, hs ▸ blanks_takeWhile s⟩
  | cons c t =>
    obtain ⟨_, hlexeme, -⟩ := lexScan_found hdrop h (by simp)
    cases hlexeme

end Scan

end Afly.Load
