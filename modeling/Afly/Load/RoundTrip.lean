import Afly.Load.WellFormed

/-! # Texts that are read back

What the library prints of a value that it can store is a document, which it
reads as that value; and all it reads it can store.
-/

namespace Afly.Load

-- Facts about all characters of a text are decided over the text, not over the type.
attribute [local instance (high)] List.decidableBAll

section Lexemes

variable {strtod : CStr → Option Double} {s : CStr}

theorem isInteger_toDigits (n : ℕ) : IsInteger (Nat.toDigits 10 n) := by
  refine ⟨⟨Nat.toDigits_ne_nil, fun c hc =>
    Nat.isDigit_of_mem_toDigits (by decide) (by decide) hc⟩, ?_⟩
  induction n using Nat.strong_induction_on with
  | _ n ih =>
    intro hzero
    rcases Nat.lt_or_ge n 10 with hn | hn
    · rw [Nat.toDigits_of_lt_base hn] at hzero ⊢
      rw [Option.some.inj hzero]
    · exfalso
      rw [Nat.toDigits_of_base_le (by decide) hn,
        List.head?_append_of_ne_nil _ Nat.toDigits_ne_nil] at hzero
      have hvalue : n / 10 = 0 := by
        rw [← Nat.ofDigitChars_ten_toDigits (n := n / 10), ih (n / 10) (by omega) hzero]
        rfl
      omega

theorem decimal_toDigits (n : ℕ) : decimal (Nat.toDigits 10 n) = n :=
  Nat.ofDigitChars_ten_toDigits

theorem lexeme_sprintfInt {n : ℤ} (hl : -2 ^ 63 ≤ n) (hu : n < 2 ^ 63) :
    Lexeme strtod (.integer n) (sprintfInt n) := by
  have hdecimal := decimal_toDigits n.natAbs
  unfold sprintfInt
  split_ifs with hneg
  · have hn : n = -(decimal (Nat.toDigits 10 n.natAbs) : ℤ) := by
      rw [hdecimal]
      omega
    nth_rewrite 1 [hn]
    exact .negative (isInteger_toDigits _) (by rw [hdecimal]; omega)
  · have hn : n = (decimal (Nat.toDigits 10 n.natAbs) : ℤ) := by
      rw [hdecimal]
      omega
    nth_rewrite 1 [hn]
    exact .positive (isInteger_toDigits _) (by rw [hdecimal]; omega)

theorem decode_control : ∀ n < 0x20,
    let h := ['0', '0', Nat.digitChar (n / 16), (Nat.digitChar (n % 16)).toUpper]
    h.all isXdigit = true ∧ decodeUnicodeEscape h = n := by
  decide

theorem quoted_dumpByte (c : Char) {saved val : CStr} (h : Quoted saved val) :
    Quoted (dumpByte c ++ saved) (c :: val) := by
  unfold dumpByte
  split_ifs with h₁ h₂ h₃ h₄ h₅ h₆ h₇ h₈
  · subst h₁
    exact .short (by decide) h
  · subst h₂
    exact .short (by decide) h
  · subst h₃
    exact .short (e := 'b') (by decide) h
  · subst h₄
    exact .short (e := 'f') (by decide) h
  · subst h₅
    exact .short (e := 'n') (by decide) h
  · subst h₆
    exact .short (e := 'r') (by decide) h
  · subst h₇
    exact .short (e := 't') (by decide) h
  · obtain ⟨hdigits, hvalue⟩ := decode_control c.toNat h₈
    have hq := Quoted.unicode (hexFour_iff.mpr ⟨_, _, _, _, rfl, hdigits⟩) (by
      rw [hvalue, IsHigh]; omega) (by rw [hvalue, IsLow]; omega) h
    rw [hvalue, utf8Encode, if_pos (by omega), Char.ofNat_toNat] at hq
    exact hq
  · exact .plain h₂ h₁ (by omega) h

theorem quoted_flatMap (s : CStr) : Quoted (s.flatMap dumpByte) s := by
  induction s with
  | nil => exact .nil
  | cons c s ih => exact quoted_dumpByte c ih

theorem dumpByte_ascii {c : Char} (hc : c.toNat < 0x80) : ∀ b ∈ dumpByte c, b.toNat < 0x80 := by
  have hcontrol : ∀ n < 0x20, ∀ b ∈ [backslash, 'u', '0', '0', Nat.digitChar (n / 16),
      (Nat.digitChar (n % 16)).toUpper], b.toNat < 0x80 := by
    decide
  unfold dumpByte
  split_ifs with _ _ _ _ _ _ _ hlow
  iterate 7 decide
  · exact hcontrol c.toNat hlow
  · rintro b hb
    obtain rfl := List.mem_singleton.mp hb
    exact hc

theorem dumpByte_high {c : Char} (hc : 0x80 ≤ c.toNat) : dumpByte c = [c] := by
  have hne {d : Char} (hd : d.toNat < 0x80) : c ≠ d := by
    rintro rfl
    omega
  rw [dumpByte, if_neg (hne (by decide)), if_neg (hne (by decide)), if_neg (hne (by decide)),
    if_neg (hne (by decide)), if_neg (hne (by decide)), if_neg (hne (by decide)),
    if_neg (hne (by decide)), if_neg (by omega)]

theorem utf8Text_flatMap (h : Utf8Text s) : Utf8Text (s.flatMap dumpByte) := by
  induction h with
  | nil => exact .nil
  | ascii hc _ ih =>
    rw [List.flatMap_cons]
    exact (utf8Text_of_ascii (dumpByte_ascii hc)).append ih
  | sequence hseq _ ih =>
    rename_i c t s _
    have hplain : (c :: t).flatMap dumpByte = c :: t := by
      rw [List.flatMap_def, List.map_congr_left fun b hb => dumpByte_high (hseq.bytes b hb),
        ← List.flatMap_def, List.flatMap_singleton']
    rw [List.flatMap_append, hplain]
    exact .sequence hseq ih

theorem utf8Text_dumpQuoted (h : Utf8Text s) : Utf8Text (dumpQuoted s) :=
  .ascii (by decide) ((utf8Text_flatMap h).append (.ascii (by decide) .nil))

theorem keyText_dumpQuoted {key : String} (h : PlainText key.toList) :
    KeyText key (dumpQuoted key.toList) := by
  have hkey := KeyText.mk (quoted_flatMap key.toList) h.2
  rwa [String.ofList_toList] at hkey

theorem sprintfInt_utf8 (n : ℤ) : Utf8Text (sprintfInt n) :=
  utf8Text_of_ascii fun _ hc => ascii_sprintfInt hc

end Lexemes

section Dump

variable {strtod : CStr → Option Double} {dtostr : Double → CStr} {t : CStr} {d : ℕ}

theorem foldl_set {obj m : List (String × Json)} (h : ((obj ++ m).map Prod.fst).Nodup) :
    m.foldl (fun obj p => jsonObjectSetNew obj p.1 (some p.2)) obj = obj ++ m := by
  induction m generalizing obj with
  | nil => rw [List.foldl_nil, List.append_nil]
  | cons p m ih =>
    have hnew : p.1 ∉ obj.map Prod.fst := by
      rw [List.map_append, List.nodup_append] at h
      intro hmem
      exact h.2.2 _ hmem _ List.mem_cons_self rfl
    have hset : jsonObjectSetNew obj p.1 (some p.2) = obj ++ [p] := by
      rw [jsonObjectSetNew, if_neg hnew]
    rw [List.foldl_cons, hset, ih (by rwa [List.append_assoc]), List.append_assoc]
    rfl

def Printed (strtod : CStr → Option Double) (dtostr : Double → CStr) (d : ℕ) (j : Json) : Prop :=
  ∃ t, doDump dtostr j = some t ∧ Utf8Text t ∧ Denotes strtod d (.value j) t

theorem blanks_nil : Blanks [] := by simp [Blanks]

theorem blanks_space : Blanks [' '] := by
  intro c hc
  obtain rfl := List.mem_singleton.mp hc
  rfl

theorem dumpItems_cons {j : Json} {l : List Json} (hl : l ≠ []) {rest : CStr}
    (hj : doDump dtostr j = some t) (hrest : dumpItems dtostr l = some rest) :
    dumpItems dtostr (j :: l) = some (t ++ ',' :: ' ' :: rest) := by
  obtain ⟨j', l, rfl⟩ := List.exists_cons_of_ne_nil hl
  rw [dumpItems, hj, hrest]
  · simp
  · simp

theorem dumpMembers_cons {key : String} {j : Json} {m : List (String × Json)} (hm : m ≠ [])
    {rest : CStr} (hj : doDump dtostr j = some t) (hrest : dumpMembers dtostr m = some rest) :
    dumpMembers dtostr ((key, j) :: m) =
      some (dumpQuoted key.toList ++ ':' :: ' ' :: t ++ ',' :: ' ' :: rest) := by
  obtain ⟨p, m, rfl⟩ := List.exists_cons_of_ne_nil hm
  rw [dumpMembers, hj, hrest]
  · simp
  · simp

theorem denotes_dumpItems {l : List Json} (hl : l ≠ [])
    (h : ∀ j ∈ l, Printed strtod dtostr d j) : ∃ t, dumpItems dtostr l = some t ∧ Utf8Text t ∧
      ∀ w, Blanks w → Denotes strtod d (.items l) (w ++ t) := by
  induction l with
  | nil => exact absurd rfl hl
  | cons j l ih =>
    obtain ⟨t, ht, hutf8, hdenotes⟩ := h j List.mem_cons_self
    by_cases hnil : l = []
    · subst hnil
      refine ⟨t, ht, hutf8, fun w hw => ?_⟩
      have hitem := Denotes.item (.padded hw hdenotes blanks_nil)
      rwa [List.append_nil] at hitem
    · obtain ⟨rest, hrest, hutf8', hitems⟩ := ih hnil fun j hj => h j (List.mem_cons_of_mem _ hj)
      refine ⟨_, dumpItems_cons hnil ht hrest, ?_, fun w hw => ?_⟩
      · exact hutf8.append (.ascii (by decide) (.ascii (by decide) hutf8'))
      · have hcons := Denotes.items (.padded hw hdenotes blanks_nil) (hitems [' '] blanks_space)
        rwa [List.append_nil, List.append_assoc] at hcons

theorem denotes_dumpMembers {m : List (String × Json)} (hm : m ≠ [])
    (hkeys : ∀ p ∈ m, PlainText p.1.toList) (h : ∀ p ∈ m, Printed strtod dtostr d p.2) :
    ∃ t, dumpMembers dtostr m = some t ∧ Utf8Text t ∧
      ∀ w, Blanks w → Denotes strtod d (.members m) (w ++ t) := by
  induction m with
  | nil => exact absurd rfl hm
  | cons p m ih =>
    obtain ⟨key, j⟩ := p
    obtain ⟨t, ht, hutf8, hdenotes⟩ := h (key, j) List.mem_cons_self
    have hkey := hkeys (key, j) List.mem_cons_self
    have hmember {w : CStr} (hw : Blanks w) := Denotes.keyed hw (keyText_dumpQuoted hkey) blanks_nil
      (.padded blanks_space hdenotes blanks_nil)
    have hutf8Key := (utf8Text_dumpQuoted hkey.1).append
      (.ascii (c := ':') (by decide) (.ascii (c := ' ') (by decide) hutf8))
    by_cases hnil : m = []
    · subst hnil
      refine ⟨dumpQuoted key.toList ++ ':' :: ' ' :: t, by simp [dumpMembers, ht], hutf8Key,
        fun w hw => ?_⟩
      simpa using Denotes.member (hmember hw)
    · obtain ⟨rest, hrest, hutf8', hmembers⟩ := ih hnil
        (fun p hp => hkeys p (List.mem_cons_of_mem _ hp))
        fun p hp => h p (List.mem_cons_of_mem _ hp)
      refine ⟨_, dumpMembers_cons hnil ht hrest, ?_, fun w hw => ?_⟩
      · exact hutf8Key.append (.ascii (by decide) (.ascii (by decide) hutf8'))
      · simpa using Denotes.members (hmember hw) (hmembers [' '] blanks_space)

theorem ascii_real {s : CStr} {value : Double} (h : Lexeme strtod (.real value) s) :
    ∀ c ∈ s, c.toNat < 0x80 := by
  have hdigits {l : CStr} (hl : IsNumeral l) : ∀ c ∈ l, c.toNat < 0x80 := by
    intro c hc
    have := toNat_of_isDigit (hl.2 c hc)
    omega
  cases h with
  | real hsgn hs hf he =>
    simp only [List.forall_mem_append]
    refine ⟨⟨⟨?_, hdigits hs.1⟩, ?_⟩, ?_⟩
    · cases hsgn <;> decide
    · cases hf with
      | none => simp
      | point hl => exact List.forall_mem_cons.mpr ⟨by decide, hdigits hl⟩
    · cases he with
      | none => simp
      | plain hE hl =>
        refine List.forall_mem_cons.mpr ⟨?_, hdigits hl⟩
        rcases hE with rfl | rfl <;> decide
      | signed hE hsgn hl =>
        refine List.forall_mem_cons.mpr ⟨?_, List.forall_mem_cons.mpr ⟨?_, hdigits hl⟩⟩
        · rcases hE with rfl | rfl <;> decide
        · rcases hsgn with rfl | rfl <;> decide

theorem printed_of_storable {real : Double → Prop}
    (hreal : ∀ value, real value → Lexeme strtod (.real value) (dtostr value)) {j : Json}
    (h : Storable real d j) : Printed strtod dtostr d j := by
  induction h with
  | null => exact ⟨_, rfl, utf8Text_of_ascii (by decide), .scalar .null .null⟩
  | bool =>
    rename_i b
    cases b with
    | false => exact ⟨_, rfl, utf8Text_of_ascii (by decide), .scalar .false .false⟩
    | true => exact ⟨_, rfl, utf8Text_of_ascii (by decide), .scalar .true .true⟩
  | int hl hu => exact ⟨_, rfl, sprintfInt_utf8 _, .scalar (lexeme_sprintfInt hl hu) .integer⟩
  | real hvalue =>
    have hlexeme := hreal _ hvalue
    exact ⟨_, rfl, utf8Text_of_ascii (ascii_real hlexeme), .scalar hlexeme .real⟩
  | str hs =>
    refine ⟨_, if_pos (utf8CheckString_iff.mpr hs.1), utf8Text_dumpQuoted hs.1, ?_⟩
    exact .scalar (.string (quoted_flatMap _)) (.string hs.2)
  | arr _ ih =>
    rename_i l _
    by_cases hl : l = []
    · subst hl
      exact ⟨_, rfl, utf8Text_of_ascii (by decide), .emptyArray blanks_nil⟩
    · obtain ⟨t, ht, hutf8, hitems⟩ := denotes_dumpItems hl ih
      refine ⟨'[' :: t ++ [']'], by rw [doDump, ht]; rfl, ?_, .array (hitems [] blanks_nil)⟩
      exact .ascii (by decide) (hutf8.append (.ascii (by decide) .nil))
  | obj hnodup hkeys _ ih =>
    rename_i m _
    by_cases hm : m = []
    · subst hm
      exact ⟨_, rfl, utf8Text_of_ascii (by decide), .emptyObject blanks_nil⟩
    · obtain ⟨t, ht, hutf8, hmembers⟩ := denotes_dumpMembers hm hkeys ih
      refine ⟨'\x7b' :: t ++ ['\x7d'], by rw [doDump, ht]; rfl, ?_, ?_⟩
      · exact .ascii (by decide) (hutf8.append (.ascii (by decide) .nil))
      · have hobj := Denotes.object (hmembers [] blanks_nil)
        have hm : object m = m := foldl_set hnodup
        rwa [hm] at hobj

end Dump

section Loads

variable {strtod : CStr → Option Double} {dtostr : Double → CStr} {j : Json}

theorem jsonLoads_of_document {s : CStr} (hs : Utf8Text s) (h : Document strtod j s) :
    jsonLoads strtod s = some j := by
  unfold jsonLoads
  rw [utf8CheckString_iff.mpr hs, streamBytes_eq (utf8CheckString_iff.mpr hs)]
  exact parseJson_of_document h

theorem storable_of_jsonLoads {s : CStr} (h : jsonLoads strtod s = some j) :
    Storable (ReadAs strtod) maxDepth j ∧ ((∃ l, j = .arr l) ∨ ∃ m, j = .obj m) := by
  unfold jsonLoads at h
  obtain ⟨hvalid, hcontainer, w, text, w', hs, hw, hw', hdenotes⟩ := document_of_parseJson h
  rw [streamBytes_eq hvalid] at hs
  have hutf8 := utf8CheckString_iff.mp hvalid
  rw [hs, List.append_assoc] at hutf8
  have htext := (hutf8.of_ascii_append hw.ascii).split fun b hb =>
    hw'.ascii b (List.mem_of_mem_head? hb)
  exact ⟨storable_of_denotes hdenotes htext.1, hcontainer⟩

theorem loads_dumps {real : Double → Prop}
    (hreal : ∀ value, real value → Lexeme strtod (.real value) (dtostr value))
    (h : Storable real maxDepth j) (hj : (∃ l, j = .arr l) ∨ ∃ m, j = .obj m) :
    ∃ t, jsonDumps dtostr j = some t ∧ jsonLoads strtod t = some j := by
  obtain ⟨t, ht, hutf8, hdenotes⟩ := printed_of_storable hreal h
  refine ⟨t, ?_, jsonLoads_of_document hutf8 ⟨hj, [], t, [], by simp, blanks_nil, blanks_nil,
    hdenotes⟩⟩
  rcases hj with ⟨l, rfl⟩ | ⟨m, rfl⟩ <;> exact ht

end Loads

end Afly.Load
