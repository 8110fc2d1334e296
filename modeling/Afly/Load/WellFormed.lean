import Afly.Load.Accepted

/-! # What a parsed value is like

A value from a text has strings and keys in UTF-8 without terminators, integers
of 64 bits, one member for each key, and no more depth than the parser allows.
-/

namespace Afly.Load

section Encode

variable {n : ℕ} {h l : CStr}

theorem toNat_charOfNat (h : n < 0xd800) : (Char.ofNat n).toNat = n := by
  have hvalid : n.isValidChar := Or.inl h
  rw [Char.ofNat, dif_pos hvalid]
  rfl

theorem utf8Value_cons {value b : ℕ} (hb : b < 2 ^ 6) (t : CStr) :
    utf8Value value (Char.ofNat (0x80 + b) :: t) = utf8Value (value * 64 + b) t := by
  rw [utf8Value, toNat_charOfNat (by omega), if_neg (by omega)]
  congr 2
  omega

theorem and_shift (n mask k s : ℕ) (hmask : mask = (2 ^ k - 1) <<< s) :
    (n &&& mask) >>> s = n / 2 ^ s % 2 ^ k := by
  rw [hmask, Nat.shiftRight_and_distrib, Nat.shiftLeft_shiftRight, Nat.shiftRight_eq_div_pow,
    Nat.and_two_pow_sub_one_eq_mod]

theorem utf8CheckFirst_charOfNat (hn : n < 0xf5) : utf8CheckFirst (Char.ofNat n) =
    if n < 0x80 then 1 else if n < 0xc2 then 0 else if n < 0xe0 then 2 else if n < 0xf0 then 3
    else 4 := by
  unfold utf8CheckFirst
  rw [toNat_charOfNat (by omega)]
  dsimp only
  split_ifs <;> first | rfl | omega

theorem utf8Sequence_of {first : ℕ} {t : CStr} {bits : ℕ} (hfirst : first < 0xf5)
    (hcount : utf8CheckFirst (Char.ofNat first) = t.length + 1) (htwo : 2 ≤ t.length + 1)
    (hbits : (if t.length + 1 = 2 then first % 32 else if t.length + 1 = 3 then first % 16
      else first % 8) = bits) (hvalue : utf8Value bits t = some n) (hn : n < 0x110000)
    (hsurrogate : ¬ (0xd800 ≤ n ∧ n ≤ 0xdfff))
    (hlong : if t.length + 1 = 2 then 0x80 ≤ n else if t.length + 1 = 3 then 0x800 ≤ n
      else 0x10000 ≤ n) : Utf8Sequence (Char.ofNat first) t := by
  have hfour : t.length + 1 ≤ 4 := by
    rw [← hcount, utf8CheckFirst_charOfNat hfirst]
    split_ifs <;> omega
  refine ⟨by omega, hcount.symm, ?_⟩
  rw [utf8CheckFull, toNat_charOfNat (by omega), hbits, hvalue]
  simp only [Bool.and_eq_true, Bool.not_eq_true', Bool.or_eq_false_iff, Bool.and_eq_false_iff,
    decide_eq_false_iff_not]
  split_ifs at hlong <;> omega

theorem utf8Text_utf8Encode (hn : n < 0x110000) (hhigh : ¬ IsHigh n) (hlow : ¬ IsLow n) :
    Utf8Text (utf8Encode n) := by
  have hsurrogate : ¬ (0xd800 ≤ n ∧ n ≤ 0xdfff) := by
    unfold IsHigh at hhigh
    unfold IsLow at hlow
    omega
  unfold utf8Encode
  rw [and_shift n 0x7c0 5 6 rfl, and_shift n 0xf000 4 12 rfl, and_shift n 0xfc0 6 6 rfl,
    and_shift n 0x1c0000 3 18 rfl, and_shift n 0x3f000 6 12 rfl,
    show n &&& 0x3f = n % 2 ^ 6 from Nat.and_two_pow_sub_one_eq_mod n 6]
  split_ifs with h₁ h₂ h₃
  · exact .ascii (by rw [toNat_charOfNat (by omega)]; exact h₁) .nil
  · apply Utf8Sequence.text
    refine utf8Sequence_of (n := n) ?_ ?_ ?_ rfl ?_ hn hsurrogate ?_
    · omega
    · rw [utf8CheckFirst_charOfNat (by omega), if_neg (by omega), if_neg (by omega),
        if_pos (by omega)]
      rfl
    · simp
    · rw [utf8Value_cons (Nat.mod_lt _ (by decide)), utf8Value]
      simp
      omega
    · simp
      omega
  · apply Utf8Sequence.text
    refine utf8Sequence_of (n := n) ?_ ?_ ?_ rfl ?_ hn hsurrogate ?_
    · omega
    · rw [utf8CheckFirst_charOfNat (by omega), if_neg (by omega), if_neg (by omega),
        if_neg (by omega), if_pos (by omega)]
      rfl
    · simp
    · rw [utf8Value_cons (Nat.mod_lt _ (by decide)), utf8Value_cons (Nat.mod_lt _ (by decide)),
        utf8Value]
      simp
      omega
    · simp
      omega
  · apply Utf8Sequence.text
    refine utf8Sequence_of (n := n) ?_ ?_ ?_ rfl ?_ hn hsurrogate ?_
    · omega
    · rw [utf8CheckFirst_charOfNat (by omega), if_neg (by omega), if_neg (by omega),
        if_neg (by omega), if_neg (by omega)]
      rfl
    · simp
    · rw [utf8Value_cons (Nat.mod_lt _ (by decide)), utf8Value_cons (Nat.mod_lt _ (by decide)),
        utf8Value_cons (Nat.mod_lt _ (by decide)), utf8Value]
      simp
      omega
    · simp
      omega

theorem isLower_iff {c : Char} : c.isLower = true ↔ 97 ≤ c.toNat ∧ c.toNat ≤ 122 := by
  change (decide (97 ≤ c.toNat) && decide (c.toNat ≤ 122)) = true ↔ _
  rw [Bool.and_eq_true, decide_eq_true_eq, decide_eq_true_eq]

theorem isXdigit_range {c : Char} (h : isXdigit c = true) :
    c.toNat < 0x80 ∧ escapeDigit c < 16 := by
  have hle (a b : Char) : a ≤ b ↔ a.toNat ≤ b.toNat := Iff.rfl
  have hnotDigit (hc : 58 ≤ c.toNat) : ¬ c.isDigit = true := by
    intro hd
    have := toNat_of_isDigit hd
    omega
  simp only [isXdigit, Bool.or_eq_true, Bool.and_eq_true, decide_eq_true_eq, hle] at h
  unfold escapeDigit
  rcases h with (h | h) | h
  · have := toNat_of_isDigit h
    rw [if_pos h]
    change _ ∧ c.toNat - 48 < 16
    omega
  · change 65 ≤ c.toNat ∧ c.toNat ≤ 70 at h
    have hlower : ¬ c.isLower = true := by
      rw [isLower_iff]
      omega
    rw [if_neg (hnotDigit (by omega)), if_neg hlower]
    change _ ∧ c.toNat - 65 + 10 < 16
    omega
  · change 97 ≤ c.toNat ∧ c.toNat ≤ 102 at h
    rw [if_neg (hnotDigit (by omega)), if_pos (isLower_iff.mpr (by omega))]
    change _ ∧ c.toNat - 97 + 10 < 16
    omega

theorem decodeUnicodeEscape_lt (hh : HexFour h) : decodeUnicodeEscape h < 0x10000 := by
  obtain ⟨h₁, h₂, h₃, h₄, rfl, -⟩ := hexFour_iff.mp hh
  have hdigit (c : Char) (hc : c ∈ [h₁, h₂, h₃, h₄]) := (isXdigit_range (hh.digits c hc)).2
  have hd₁ := hdigit h₁ (by simp)
  have hd₂ := hdigit h₂ (by simp)
  have hd₃ := hdigit h₃ (by simp)
  have hd₄ := hdigit h₄ (by simp)
  simp only [decodeUnicodeEscape, List.foldl_cons, List.foldl_nil, Nat.shiftLeft_eq]
  omega

end Encode

section Strings

variable {saved val a s : CStr}

theorem quoted_high (ha : ∀ b ∈ a, 0x80 ≤ b.toNat) (h : Quoted (a ++ s) val) :
    ∃ val', val = a ++ val' ∧ Quoted s val' := by
  induction a generalizing val with
  | nil => exact ⟨val, rfl, h⟩
  | cons c a ih =>
    have hc : c ≠ backslash := by
      rintro rfl
      exact absurd (ha _ List.mem_cons_self) (by decide)
    generalize htext : c :: a ++ s = text at h
    cases h with
    | nil => cases htext
    | plain _ _ _ hq =>
      cases htext
      obtain ⟨val', rfl, hrest⟩ := ih (fun b hb => ha b (List.mem_cons_of_mem _ hb)) hq
      exact ⟨val', rfl, hrest⟩
    | short => exact absurd (List.cons.inj htext).1 hc
    | unicode => exact absurd (List.cons.inj htext).1 hc
    | pair => exact absurd (List.cons.inj htext).1 hc

theorem HexFour.ascii {h : CStr} (hh : HexFour h) : ∀ c ∈ h, c.toNat < 0x80 :=
  fun c hc => (isXdigit_range (hh.digits c hc)).1

theorem utf8Text_of_quoted (h : Quoted saved val) (ht : Utf8Text saved) : Utf8Text val := by
  induction hlen : saved.length using Nat.strong_induction_on generalizing saved val with
  | _ n ih =>
    cases ht with
    | nil =>
      cases h
      exact .nil
    | sequence hseq hs =>
      obtain ⟨val', rfl, hq⟩ := quoted_high hseq.bytes h
      refine .sequence hseq (ih _ ?_ hq hs rfl)
      rw [← hlen]
      simp
    | ascii hc hs =>
      cases h with
      | plain _ _ _ hq => exact .ascii hc (ih _ (by rw [← hlen]; simp) hq hs rfl)
      | short he hq =>
        rename_i e saved val
        have hascii : e.toNat < 0x80 ∧ (unescape e).toNat < 0x80 := by
          simp only [List.mem_cons, List.not_mem_nil, or_false] at he
          rcases he with rfl | rfl | rfl | rfl | rfl | rfl | rfl | rfl <;> decide
        exact .ascii hascii.2 (ih _ (by rw [← hlen]; simp) hq (hs.tail hascii.1) rfl)
      | unicode hh hhigh hlow hq =>
        have hrest := (hs.tail (by decide)).of_ascii_append hh.ascii
        refine (utf8Text_utf8Encode ?_ hhigh hlow).append (ih _ ?_ hq hrest rfl)
        · exact (decodeUnicodeEscape_lt hh).trans (by decide)
        · rw [← hlen]
          simp
          omega
      | pair hh hl hhigh hlow hq =>
        have hlow' := (hs.tail (by decide)).of_ascii_append hh.ascii
        have hrest := ((hlow'.tail (by decide)).tail (by decide)).of_ascii_append hl.ascii
        unfold IsHigh at hhigh
        unfold IsLow at hlow
        refine (utf8Text_utf8Encode ?_ ?_ ?_).append (ih _ ?_ hq hrest rfl)
        · rw [Nat.shiftLeft_eq]
          omega
        · unfold IsHigh
          omega
        · unfold IsLow
          omega
        · rw [← hlen]
          simp
          omega

end Strings

def PlainText (s : CStr) : Prop := Utf8Text s ∧ nul ∉ s

/-- A value that a text can have, with real numbers of a kind, nested to the depth given. -/
inductive Storable (real : Double → Prop) : ℕ → Json → Prop where
  | null {depth : ℕ} : Storable real (depth + 1) .null
  | bool {depth : ℕ} {b : Bool} : Storable real (depth + 1) (.bool b)
  | int {depth : ℕ} {n : ℤ} : -2 ^ 63 ≤ n → n < 2 ^ 63 → Storable real (depth + 1) (.int n)
  | real {depth : ℕ} {value : Double} : real value → Storable real (depth + 1) (.real value)
  | str {depth : ℕ} {s : CStr} : PlainText s → Storable real (depth + 1) (.str s)
  | arr {depth : ℕ} {l : List Json} : (∀ j ∈ l, Storable real depth j) →
      Storable real (depth + 1) (.arr l)
  | obj {depth : ℕ} {m : List (String × Json)} : (m.map Prod.fst).Nodup →
      (∀ p ∈ m, PlainText p.1.toList) → (∀ p ∈ m, Storable real depth p.2) →
      Storable real (depth + 1) (.obj m)

section Parsed

variable {strtod : CStr → Option Double} {d : ℕ} {part : Part} {text w s : CStr}
  {m obj : List (String × Json)}

theorem mem_jsonObjectSetNew {key : String} {j : Json} {p : String × Json}
    (h : p ∈ jsonObjectSetNew obj key (some j)) : p ∈ obj ∨ p = (key, j) := by
  unfold jsonObjectSetNew at h
  dsimp only at h
  split_ifs at h with hkey
  · obtain ⟨q, hq, rfl⟩ := List.mem_map.mp h
    split_ifs
    · exact Or.inr rfl
    · exact Or.inl hq
  · simpa using h

theorem object_spec (obj m : List (String × Json)) (hobj : (obj.map Prod.fst).Nodup) :
    ((m.foldl (fun obj p => jsonObjectSetNew obj p.1 (some p.2)) obj).map Prod.fst).Nodup ∧
      ∀ p ∈ m.foldl (fun obj p => jsonObjectSetNew obj p.1 (some p.2)) obj, p ∈ obj ∨ p ∈ m := by
  induction m generalizing obj with
  | nil => exact ⟨hobj, fun p hp => Or.inl hp⟩
  | cons q m ih =>
    obtain ⟨hnodup, hmem⟩ := ih _ (jsonObjectSetNew_nodup hobj)
    refine ⟨hnodup, fun p hp => ?_⟩
    rcases hmem p hp with hp | hp
    · rcases mem_jsonObjectSetNew hp with hp | rfl
      · exact Or.inl hp
      · exact Or.inr List.mem_cons_self
    · exact Or.inr (List.mem_cons_of_mem _ hp)

/-- What the parts of a text in UTF-8 denote. -/
def Part.Storable (real : Double → Prop) (d : ℕ) : Part → Prop
  | .value j | .padded j => Load.Storable real d j
  | .items l => ∀ j ∈ l, Load.Storable real d j
  | .member p => PlainText p.1.toList ∧ Load.Storable real d p.2
  | .members m => ∀ p ∈ m, PlainText p.1.toList ∧ Load.Storable real d p.2

/-- The value is read of the text of a number. -/
def ReadAs (strtod : CStr → Option Double) (value : Double) : Prop :=
  ∃ s, NumberText s ∧ strtod s = some value

theorem Blanks.ascii (hw : Blanks w) : ∀ c ∈ w, c.toNat < 0x80 := by
  intro c hc
  have h := hw c hc
  simp only [isBlank, Bool.or_eq_true, decide_eq_true_eq] at h
  rcases h with ((rfl | rfl) | rfl) | rfl <;> decide

theorem head_ascii {c : Char} (hw : Blanks w) (hc : c.toNat < 0x80) (s : CStr) :
    ∀ b ∈ (w ++ c :: s).head?, b.toNat < 0x80 := by
  cases w with
  | nil =>
    rintro b ⟨⟩
    exact hc
  | cons d w =>
    rintro b ⟨⟩
    exact hw.ascii d List.mem_cons_self

theorem plainText_of_quoted {saved val : CStr} (hq : Quoted saved val) (hnul : nul ∉ val)
    (ht : Utf8Text (quote :: saved ++ [quote] ++ s)) : PlainText val := by
  rw [List.cons_append, List.cons_append, List.append_assoc] at ht
  have hsaved := (ht.tail (by decide)).split (by rintro b ⟨⟩; decide)
  exact ⟨utf8Text_of_quoted hq hsaved.1, hnul⟩

theorem storable_of_denotes (h : Denotes strtod d part text) (ht : Utf8Text text) :
    part.Storable (ReadAs strtod) d := by
  induction h with
  | scalar hlex hscalar =>
    cases hscalar with
    | string hnul =>
      cases hlex with
      | string hq =>
        rw [← List.append_nil (quote :: _ ++ [quote])] at ht
        exact .str (plainText_of_quoted hq hnul ht)
    | integer =>
      cases hlex with
      | positive _ hlt => exact .int (by omega) (by exact_mod_cast hlt)
      | negative _ hle => exact .int (by omega) (by omega)
    | real =>
      cases hlex with
      | real hsgn hinteger hf he _ hvalue =>
        exact .real ⟨_, .mk hsgn hinteger.1 hf he, hvalue⟩
    | true => exact .bool
    | false => exact .bool
    | null => exact .null
  | emptyArray => exact .arr (by simp)
  | array _ ih => exact .arr (ih ((ht.tail (by decide)).split (by rintro b ⟨⟩; decide)).1)
  | emptyObject => exact .obj List.nodup_nil (by simp) (by simp)
  | object _ ih =>
    have hm := ih ((ht.tail (by decide)).split (by rintro b ⟨⟩; decide)).1
    obtain ⟨hnodup, hmem⟩ := object_spec [] _ List.nodup_nil
    refine .obj hnodup (fun p hp => ?_) fun p hp => ?_
    · exact (hm p ((hmem p hp).resolve_left List.not_mem_nil)).1
    · exact (hm p ((hmem p hp).resolve_left List.not_mem_nil)).2
  | padded hw _ hw' ih =>
    rw [List.append_assoc] at ht
    exact ih ((ht.of_ascii_append hw.ascii).split fun b hb =>
      hw'.ascii b (List.mem_of_mem_head? hb)).1
  | item _ ih =>
    intro j hj
    obtain rfl := List.mem_singleton.mp hj
    exact ih ht
  | items _ _ ih ihl =>
    obtain ⟨hs, hl⟩ := ht.split (by rintro b ⟨⟩; decide)
    intro j hj
    rcases List.mem_cons.mp hj with rfl | hj
    · exact ih hs
    · exact ihl (hl.tail (by decide)) j hj
  | keyed hw hk hw' _ ih =>
    obtain ⟨hq, hnul⟩ := hk
    rw [List.append_assoc, List.append_assoc] at ht
    have hkey := ht.of_ascii_append hw.ascii
    refine ⟨?_, ih ?_⟩
    · rw [String.toList_ofList]
      exact plainText_of_quoted hq hnul hkey
    · have hvalue := (hkey.split (head_ascii hw' (by decide) _)).2
      exact (hvalue.of_ascii_append hw'.ascii).tail (by decide)
  | member _ ih =>
    intro p hp
    obtain rfl := List.mem_singleton.mp hp
    exact ih ht
  | members _ _ ih ihm =>
    obtain ⟨hs, hm⟩ := ht.split (by rintro b ⟨⟩; decide)
    intro p hp
    rcases List.mem_cons.mp hp with rfl | hp
    · exact ih hs
    · exact ihm (hm.tail (by decide)) p hp

end Parsed

end Afly.Load
