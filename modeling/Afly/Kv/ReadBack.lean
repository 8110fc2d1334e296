import Afly.C.Decimal
import Afly.Kv.Items

/-! # Texts that are read back

What is printed of an item is read as that item, whatever the bytes of its strings
are. Of the numbers it is only asked that the C library reads what it printed.
-/

namespace Afly.Kv

section Strings

variable {s rest : CStr} {c : Char}

theorem printStringPtr_eq (s : CStr) :
    printStringPtr s = '"' :: s.flatMap printChar ++ ['"'] := by
  unfold printStringPtr
  split_ifs with h
  · have hplain : ∀ c ∈ s, printChar c = [c] := by
      intro c hc
      have hzero : escapeCharacters c = 0 :=
        List.sum_eq_zero_iff.mp h _ (List.mem_map_of_mem hc)
      unfold escapeCharacters at hzero
      split_ifs at hzero with hshort hlow
      simp only [List.mem_cons, List.not_mem_nil, or_false, not_or] at hshort
      exact if_pos ⟨by omega, hshort.1, hshort.2.1⟩
    rw [List.flatMap_congr hplain, List.flatMap_singleton']
  · rfl

def Unmarked (c : Char) : Prop := (c ≠ '"' ∧ c ≠ '\\') ∧ c ≠ nul

theorem printChar_cases (hc : c ≠ nul) :
    printChar c = [c] ∧ c ≠ '"' ∧ c ≠ '\\' ∨
    (∃ e, printChar c = ['\\', e] ∧ e ≠ 'u' ∧ unescaped e = some c) ∨
    ∃ h l, printChar c = ['\\', 'u', '0', '0', h, l] ∧ Unmarked h ∧ Unmarked l ∧
      parseHex4 ['0', '0', h, l] = c.toNat ∧ c.toNat < 32 := by
  have hdigits : ∀ n < 32, Unmarked (Nat.digitChar (n / 16)) ∧
      Unmarked (Nat.digitChar (n % 16)) ∧
      parseHex4 ['0', '0', Nat.digitChar (n / 16), Nat.digitChar (n % 16)] = n := by
    unfold Unmarked
    decide +kernel
  unfold printChar
  split_ifs with hplain
  · exact Or.inl ⟨rfl, hplain.2⟩
  · right
    unfold escaped
    split_ifs with h₁ h₂ h₃ h₄ h₅ h₆ h₇
    iterate 7
      left
      subst c
      exact ⟨_, rfl, by decide, by decide⟩
    right
    have hlow : c.toNat < 32 := by
      by_contra hge
      exact hplain ⟨by omega, h₂, h₁⟩
    obtain ⟨hh, hl, hhex⟩ := hdigits _ hlow
    exact ⟨_, _, rfl, hh, hl, hhex, hlow⟩

theorem scanString_plain (h : c ≠ '"' ∧ c ≠ '\\') : scanString (c :: s) =
    (scanString s).map fun (text, rest) => (c :: text, rest) := by
  rw [scanString.eq_def]
  dsimp only
  rw [if_neg h.1, if_neg h.2]

theorem scanString_escape (e : Char) : scanString ('\\' :: e :: s) =
    (scanString s).map fun (text, rest) => ('\\' :: e :: text, rest) := by
  rw [scanString.eq_def]
  rfl

theorem scanString_quote (rest : CStr) : scanString ('"' :: rest) = some ([], rest) := by
  rw [scanString.eq_def]
  rfl

theorem scanString_printChar (hc : c ≠ nul) : scanString (printChar c ++ s) =
    (scanString s).map fun (text, rest) => (printChar c ++ text, rest) := by
  rcases printChar_cases hc with ⟨hp, h⟩ | ⟨e, hp, -⟩ | ⟨h, l, hp, hh, hl, -⟩
  · rw [hp]
    exact scanString_plain h
  · rw [hp]
    exact scanString_escape e
  · rw [hp]
    simp only [List.cons_append, List.nil_append]
    rw [scanString_escape, scanString_plain (by decide), scanString_plain (by decide),
      scanString_plain hh.1, scanString_plain hl.1]
    simp only [Option.map_map]
    rfl

theorem unescape_printChar (hc : c ≠ nul) (p : CStr) :
    unescape (printChar c ++ p) = (unescape p).map (c :: ·) := by
  rcases printChar_cases hc with ⟨hp, h⟩ | ⟨e, hp, hu, he⟩ | ⟨h, l, hp, -, -, hhex, hlow⟩
  · rw [hp, List.singleton_append, unescape.eq_def]
    exact if_neg h.2
  · rw [hp, List.cons_append, List.singleton_append, unescape.eq_def]
    dsimp only
    rw [if_pos rfl, if_neg hu, he, Option.bind_some]
  · have hbyte : utf8Sequence c.toNat = [c] := by
      have hand : c.toNat &&& 0x7f = c.toNat := by
        rw [Nat.and_two_pow_sub_one_eq_mod c.toNat 7, Nat.mod_eq_of_lt (by omega)]
      rw [utf8Sequence, if_pos (by omega), hand, Char.ofNat_toNat]
    rw [hp]
    simp only [List.cons_append, List.nil_append]
    rw [unescape.eq_def]
    dsimp only
    rw [if_pos rfl, if_pos rfl, hhex, if_neg (by omega), if_neg (by omega), hbyte]
    rfl

theorem scanString_flatMap (hs : nul ∉ s) :
    scanString (s.flatMap printChar ++ '"' :: rest) = some (s.flatMap printChar, rest) := by
  induction s with
  | nil => exact scanString_quote rest
  | cons c s ih =>
    have hc : c ≠ nul := fun h => hs (h ▸ List.mem_cons_self)
    rw [List.flatMap_cons, List.append_assoc, scanString_printChar hc,
      ih fun h => hs (List.mem_cons_of_mem _ h)]
    rfl

theorem unescape_flatMap (hs : nul ∉ s) : unescape (s.flatMap printChar) = some s := by
  induction s with
  | nil => rw [List.flatMap_nil, unescape.eq_def]
  | cons c s ih =>
    have hc : c ≠ nul := fun h => hs (h ▸ List.mem_cons_self)
    rw [List.flatMap_cons, unescape_printChar hc, ih fun h => hs (List.mem_cons_of_mem _ h)]
    rfl

theorem parseString_printStringPtr (hs : nul ∉ s) (rest : CStr) :
    parseString (printStringPtr s ++ rest) = some (s, rest) := by
  have hcstr : cstr s = s := by
    have h := cstr_append (l := []) fun c hc (he : c = nul) => hs (he ▸ hc)
    rwa [List.append_nil, show cstr [] = [] from rfl, List.append_nil] at h
  rw [printStringPtr_eq, List.cons_append, List.cons_append, List.append_assoc]
  simp only [parseString, List.singleton_append, scanString_flatMap hs, Option.bind_some,
    unescape_flatMap hs, Option.map_some, hcstr]

end Strings

section Blanks

variable {s : CStr} {c : Char}

theorem bufferSkipWhitespace_cons (hc : 32 < c.toNat) (s : CStr) :
    bufferSkipWhitespace (c :: s) = c :: s := by
  rw [bufferSkipWhitespace, List.dropWhile_cons_of_neg (by simpa using hc)]

theorem bufferSkipWhitespace_blank (hc : c.toNat ≤ 32) (s : CStr) :
    bufferSkipWhitespace (c :: s) = bufferSkipWhitespace s := by
  rw [bufferSkipWhitespace, List.dropWhile_cons_of_pos (by simpa using hc), bufferSkipWhitespace]

theorem bufferSkipWhitespace_tabs (n : ℕ) (s : CStr) :
    bufferSkipWhitespace (List.replicate n '\t' ++ s) = bufferSkipWhitespace s := by
  induction n with
  | zero => rfl
  | succ n ih =>
    rw [List.replicate_succ, List.cons_append, bufferSkipWhitespace_blank (by decide), ih]

end Blanks

section Values

variable {N : Type} (printNumber : N → CStr) (strtod : CStr → Option (N × ℕ))

/-- The C library reads the number that it printed. -/
structure ReadsBack (n : N) : Prop where
  start : ∃ c t, printNumber n = c :: t ∧ (c = '-' ∨ c.isDigit = true)
  chars : ∀ c ∈ printNumber n, isNumberChar c = true
  length : (printNumber n).length ≤ 63
  reads : strtod (printNumber n) = some (n, (printNumber n).length)

/-- The items that are C values of a bounded depth. -/
inductive Printable : ℕ → CJson N → Prop where
  | null {d : ℕ} : Printable d .null
  | false {d : ℕ} : Printable d .false
  | true {d : ℕ} : Printable d .true
  | number {d : ℕ} {n : N} : ReadsBack printNumber strtod n → Printable d (.number n)
  | string {d : ℕ} {s : CStr} : nul ∉ s → Printable d (.string s)
  | array {d : ℕ} {child : List (CJson N)} : (∀ v ∈ child, Printable d v) →
      Printable (d + 1) (.array child)
  | object {d : ℕ} {child : List (CStr × CJson N)} : (∀ p ∈ child, nul ∉ p.1) →
      (∀ p ∈ child, Printable d p.2) → Printable (d + 1) (.object child)

/-- What follows a value in a text: it does not go on with a number. -/
def Stops (rest : CStr) : Prop := ∃ c t, rest = c :: t ∧ isNumberChar c = false

variable {printNumber strtod} {d : ℕ} {v : CJson N}

theorem printValue_head (h : Printable printNumber strtod d v) (k : ℕ) : ∃ c t,
    printValue printNumber k v = c :: t ∧ 32 < c.toNat ∧ c ≠ ']' := by
  cases h with
  | null => exact ⟨_, _, rfl, by decide, by decide⟩
  | false => exact ⟨_, _, rfl, by decide, by decide⟩
  | true => exact ⟨_, _, rfl, by decide, by decide⟩
  | number h =>
    obtain ⟨c, t, ht, hc⟩ := h.start
    refine ⟨c, t, by rw [printValue, ht], ?_⟩
    rcases hc with rfl | hc
    · decide
    · have := toNat_of_isDigit hc
      exact ⟨by omega, by rintro rfl; cases hc⟩
  | string => exact ⟨_, _, by rw [printValue, printStringPtr_eq]; rfl, by decide, by decide⟩
  | array => exact ⟨_, _, by rw [printValue]; rfl, by decide, by decide⟩
  | object => exact ⟨_, _, by rw [printValue]; rfl, by decide, by decide⟩

theorem bufferSkipWhitespace_printValue (h : Printable printNumber strtod d v) (k : ℕ) (s : CStr) :
    bufferSkipWhitespace (printValue printNumber k v ++ s) = printValue printNumber k v ++ s := by
  obtain ⟨c, t, ht, hc, -⟩ := printValue_head h k
  rw [ht]
  exact bufferSkipWhitespace_cons hc _

variable {fuel depth : ℕ} {s rest : CStr} {c : Char}

theorem parseValue_cons (hn : 'n' ≠ c) (hf : 'f' ≠ c) (ht : 't' ≠ c) :
    parseValue strtod (fuel + 1) depth (c :: s) =
      if c = '"' then (parseString (c :: s)).map fun (valuestring, s) => (.string valuestring, s)
      else if c = '-' ∨ c.isDigit then parseNumber strtod (c :: s)
      else if c = '[' then
        if nestingLimit ≤ depth then none
        else if (bufferSkipWhitespace s).head? = some ']' then
          some (.array [], (bufferSkipWhitespace s).tail)
        else (parseElements strtod fuel (depth + 1) s).map fun (child, s) => (.array child, s)
      else if c = '\x7b' then
        if nestingLimit ≤ depth then none
        else if (bufferSkipWhitespace s).head? = some '\x7d' then
          some (.object [], (bufferSkipWhitespace s).tail)
        else (parseItems strtod fuel (depth + 1) s).map fun (child, s) => (.object child, s)
      else none := by
  have hword {x : Char} {w : CStr} (hx : x ≠ c) : ¬ x :: w <+: c :: s :=
    fun h => hx (List.cons_prefix_cons.mp h).1
  have hnull : ¬ "null".toList <+: c :: s := hword hn
  have hfalse : ¬ "false".toList <+: c :: s := hword hf
  have htrue : ¬ "true".toList <+: c :: s := hword ht
  rw [parseValue.eq_def]
  dsimp only
  rw [if_neg hnull, if_neg hfalse, if_neg htrue]

theorem parseNumber_printNumber {n : N} (h : ReadsBack printNumber strtod n) (hrest : Stops rest) :
    parseNumber strtod (printNumber n ++ rest) = some (.number n, rest) := by
  obtain ⟨c, t, rfl, hc⟩ := hrest
  have hspan : ((printNumber n ++ c :: t).take 63).takeWhile isNumberChar = printNumber n := by
    rw [List.take_append, List.take_of_length_le h.length,
      List.takeWhile_append_of_pos fun c hc => h.chars c hc]
    cases 63 - (printNumber n).length with
    | zero => simp
    | succ k => rw [List.take_succ_cons, List.takeWhile_cons_of_neg (by simp [hc]), List.append_nil]
  rw [parseNumber, hspan, h.reads, Option.map_some]
  exact congrArg (fun rest => some (CJson.number n, rest)) (List.drop_left ..)

theorem parseElements_congr {s s' : CStr} (h : bufferSkipWhitespace s = bufferSkipWhitespace s') :
    parseElements strtod fuel depth s = parseElements strtod fuel depth s' := by
  cases fuel with
  | zero => simp only [parseElements]
  | succ fuel => rw [parseElements, parseElements, h]

theorem parseItems_congr {s s' : CStr} (h : bufferSkipWhitespace s = bufferSkipWhitespace s') :
    parseItems strtod fuel depth s = parseItems strtod fuel depth s' := by
  cases fuel with
  | zero => simp only [parseItems]
  | succ fuel => rw [parseItems, parseItems, h]

variable (printNumber strtod) in
def Reads (d : ℕ) (v : CJson N) : Prop := ∀ depth fuel k rest, depth + d ≤ nestingLimit →
  2 * (printValue printNumber k v).length ≤ fuel + 1 → Stops rest →
  parseValue strtod (fuel + 1) depth (printValue printNumber k v ++ rest) = some (v, rest)

theorem exists_fuel (h : Printable printNumber strtod d v) {k : ℕ}
    (hfuel : 2 * (printValue printNumber k v).length ≤ fuel) : ∃ n, fuel = n + 1 := by
  obtain ⟨c, t, ht, -⟩ := printValue_head h k
  rw [ht, List.length_cons] at hfuel
  exact ⟨fuel - 1, by omega⟩

theorem parseElements_printElements {child : List (CJson N)} (hne : child ≠ [])
    (hprint : ∀ v ∈ child, Printable printNumber strtod d v)
    (h : ∀ v ∈ child, Reads printNumber strtod d v) {k : ℕ} (hdepth : depth + d ≤ nestingLimit)
    (hfuel : 2 * (printElements printNumber k child).length + 1 ≤ fuel) (rest : CStr) :
    parseElements strtod fuel depth (printElements printNumber k child ++ ']' :: rest) =
      some (child, rest) := by
  induction child generalizing fuel with
  | nil => exact absurd rfl hne
  | cons v child ih =>
    obtain ⟨fuel, rfl⟩ : ∃ n, fuel = n + 1 := ⟨fuel - 1, by omega⟩
    have hv := h v List.mem_cons_self
    rw [printElements, List.length_append, List.length_append] at hfuel
    have hroom : 2 * (printValue printNumber k v).length ≤ fuel := by omega
    obtain ⟨fuel, rfl⟩ := exists_fuel (hprint v List.mem_cons_self) hroom
    cases child with
    | nil =>
      have hread := hv depth fuel k (']' :: rest) hdepth (by omega) ⟨_, _, rfl, by decide⟩
      simp only [printElements, List.isEmpty_nil, if_true, List.append_nil]
      rw [parseElements, bufferSkipWhitespace_printValue (hprint v List.mem_cons_self), hread,
        Option.bind_some]
      simp only [bufferSkipWhitespace_cons (c := ']') (by decide)]
      rfl
    | cons w child =>
      have hread := hv depth fuel k (',' :: ' ' :: (printElements printNumber k (w :: child) ++
        ']' :: rest)) hdepth (by omega) ⟨_, _, rfl, by decide⟩
      have htail : parseElements strtod (fuel + 1) depth
          (printElements printNumber k (w :: child) ++ ']' :: rest) = some (w :: child, rest) :=
        ih (List.cons_ne_nil _ _) (fun v hv => hprint v (List.mem_cons_of_mem _ hv))
          (fun v hv => h v (List.mem_cons_of_mem _ hv)) (by
            simp only [List.isEmpty_cons, Bool.false_eq_true, if_false, List.length_cons] at hfuel
            omega)
      rw [printElements]
      simp only [List.isEmpty_cons, Bool.false_eq_true, if_false, List.append_assoc,
        List.cons_append, List.nil_append]
      rw [parseElements, bufferSkipWhitespace_printValue (hprint v List.mem_cons_self), hread,
        Option.bind_some]
      simp only [bufferSkipWhitespace_cons (c := ',') (by decide), if_true]
      rw [parseElements_congr (bufferSkipWhitespace_blank (by decide) _), htail]
      rfl

theorem parseItems_printItems {child : List (CStr × CJson N)} (hne : child ≠ [])
    (hkeys : ∀ p ∈ child, nul ∉ p.1) (hprint : ∀ p ∈ child, Printable printNumber strtod d p.2)
    (h : ∀ p ∈ child, Reads printNumber strtod d p.2) {k : ℕ} (hdepth : depth + d ≤ nestingLimit)
    (hfuel : 2 * (printItems printNumber k child).length + 1 ≤ fuel) {last : CStr}
    (hlast : bufferSkipWhitespace last = '\x7d' :: rest) :
    parseItems strtod fuel depth (printItems printNumber k child ++ last) =
      some (child, rest) := by
  induction child generalizing fuel with
  | nil => exact absurd rfl hne
  | cons p child ih =>
    obtain ⟨string, v⟩ := p
    obtain ⟨fuel, rfl⟩ : ∃ n, fuel = n + 1 := ⟨fuel - 1, by omega⟩
    have hv : Reads printNumber strtod d v := h _ List.mem_cons_self
    have hkey (s : CStr) : bufferSkipWhitespace (List.replicate k '\t' ++
        (printStringPtr string ++ s)) = printStringPtr string ++ s := by
      rw [bufferSkipWhitespace_tabs, printStringPtr_eq]
      exact bufferSkipWhitespace_cons (by decide) _
    have hvalue (s : CStr) : bufferSkipWhitespace ('\t' :: (printValue printNumber k v ++ s)) =
        printValue printNumber k v ++ s := by
      rw [bufferSkipWhitespace_blank (by decide),
        bufferSkipWhitespace_printValue (hprint _ List.mem_cons_self)]
    rw [printItems] at hfuel ⊢
    simp only [List.length_append, List.length_cons, List.length_nil] at hfuel
    simp only [List.append_assoc, List.cons_append, List.nil_append]
    have hroom : 2 * (printValue printNumber k v).length ≤ fuel := by omega
    obtain ⟨fuel, rfl⟩ := exists_fuel (hprint _ List.mem_cons_self) hroom
    rw [parseItems, hkey, parseString_printStringPtr (hkeys _ List.mem_cons_self),
      Option.bind_some]
    simp only [bufferSkipWhitespace_cons (c := ':') (by decide), if_true, hvalue]
    cases child with
    | nil =>
      have hread := hv depth fuel k ('\n' :: last) hdepth (by omega) ⟨_, _, rfl, by decide⟩
      simp only [List.isEmpty_nil, if_true, List.nil_append, printItems]
      rw [hread, Option.bind_some]
      simp only [bufferSkipWhitespace_blank (c := '\n') (by decide), hlast]
      rfl
    | cons w child =>
      have hread := hv depth fuel k (',' :: '\n' :: (printItems printNumber k (w :: child) ++ last))
        hdepth (by omega) ⟨_, _, rfl, by decide⟩
      have htail : parseItems strtod (fuel + 1) depth
          (printItems printNumber k (w :: child) ++ last) = some (w :: child, rest) :=
        ih (List.cons_ne_nil _ _) (fun p hp => hkeys p (List.mem_cons_of_mem _ hp))
          (fun p hp => hprint p (List.mem_cons_of_mem _ hp))
          (fun p hp => h p (List.mem_cons_of_mem _ hp)) (by omega)
      simp only [List.isEmpty_cons, Bool.false_eq_true, if_false, List.cons_append,
        List.nil_append]
      rw [hread, Option.bind_some]
      simp only [bufferSkipWhitespace_cons (c := ',') (by decide), if_true]
      rw [parseItems_congr (bufferSkipWhitespace_blank (by decide) _), htail]
      rfl

theorem parseValue_word (rest : CStr) :
    parseValue strtod (fuel + 1) depth ("null".toList ++ rest) = some (.null, rest) ∧
      parseValue strtod (fuel + 1) depth ("false".toList ++ rest) = some (.false, rest) ∧
      parseValue strtod (fuel + 1) depth ("true".toList ++ rest) = some (.true, rest) := by
  have hword {x c : Char} {w s : CStr} (hx : x ≠ c) : ¬ x :: w <+: c :: s :=
    fun h => hx (List.cons_prefix_cons.mp h).1
  have hfalse : ¬ "null".toList <+: "false".toList ++ rest := hword (by decide)
  have htrue : ¬ "null".toList <+: "true".toList ++ rest := hword (by decide)
  have htrue' : ¬ "false".toList <+: "true".toList ++ rest := hword (by decide)
  refine ⟨?_, ?_, ?_⟩
  · rw [parseValue.eq_def]
    dsimp only
    rw [if_pos (List.prefix_append _ _)]
    rfl
  · rw [parseValue.eq_def]
    dsimp only
    rw [if_neg hfalse, if_pos (List.prefix_append _ _)]
    rfl
  · rw [parseValue.eq_def]
    dsimp only
    rw [if_neg htrue, if_neg htrue', if_pos (List.prefix_append _ _)]
    rfl

theorem parseValue_number {n : N} (hn : ReadsBack printNumber strtod n) (hrest : Stops rest) :
    parseValue strtod (fuel + 1) depth (printNumber n ++ rest) = some (.number n, rest) := by
  obtain ⟨c, t, ht, hc⟩ := hn.start
  have hread := parseNumber_printNumber hn hrest
  have hword {x : Char} (hx : 57 < x.toNat) : x ≠ c := by
    rintro rfl
    rcases hc with rfl | hc
    · exact absurd hx (by decide)
    · have := toNat_of_isDigit hc
      omega
  have hquote : c ≠ '"' := by
    rintro rfl
    rcases hc with hc | hc <;> cases hc
  rw [ht, List.cons_append] at hread ⊢
  rw [parseValue_cons (hword (by decide)) (hword (by decide)) (hword (by decide)),
    if_neg hquote, if_pos hc, hread]

theorem parseValue_string (hs : nul ∉ s) (rest : CStr) :
    parseValue strtod (fuel + 1) depth (printStringPtr s ++ rest) = some (.string s, rest) := by
  have hread := parseString_printStringPtr hs rest
  rw [printStringPtr_eq, List.cons_append, List.cons_append] at hread ⊢
  rw [parseValue_cons (by decide) (by decide) (by decide), if_pos rfl, hread]
  rfl

theorem head?_printElements_ne {child : List (CJson N)} (hne : child ≠ [])
    (hprint : ∀ v ∈ child, Printable printNumber strtod d v) (k : ℕ) (rest : CStr) :
    (bufferSkipWhitespace (printElements printNumber k child ++ rest)).head? ≠ some ']' := by
  obtain ⟨w, child, rfl⟩ := List.exists_cons_of_ne_nil hne
  obtain ⟨c, t, ht, hc, hend⟩ := printValue_head (hprint w List.mem_cons_self) k
  rw [printElements, ht]
  simp only [List.cons_append, bufferSkipWhitespace_cons hc]
  simpa using hend

theorem head?_printItems_ne {child : List (CStr × CJson N)} (hne : child ≠ []) (k : ℕ)
    (rest : CStr) :
    (bufferSkipWhitespace (printItems printNumber k child ++ rest)).head? ≠ some '\x7d' := by
  obtain ⟨⟨string, w⟩, child, rfl⟩ := List.exists_cons_of_ne_nil hne
  rw [printItems]
  simp only [List.append_assoc]
  rw [bufferSkipWhitespace_tabs, printStringPtr_eq, List.cons_append, List.cons_append,
    bufferSkipWhitespace_cons (by decide)]
  simp

theorem reads_array {child : List (CJson N)}
    (hprint : ∀ v ∈ child, Printable printNumber strtod d v)
    (h : ∀ v ∈ child, Reads printNumber strtod d v) :
    Reads printNumber strtod (d + 1) (.array child) := by
  intro depth fuel k rest hdepth hfuel _
  rw [printValue] at hfuel ⊢
  simp only [List.cons_append, List.length_cons, List.length_append, List.append_assoc,
    List.nil_append] at hfuel ⊢
  rw [parseValue_cons (by decide) (by decide) (by decide), if_neg (by decide),
    if_neg (by decide), if_pos rfl, if_neg (by omega)]
  by_cases hne : child = []
  · subst hne
    rw [printElements, List.nil_append, bufferSkipWhitespace_cons (by decide)]
    exact if_pos rfl
  · rw [if_neg (head?_printElements_ne hne hprint _ _),
      parseElements_printElements hne hprint h (by omega) (by omega)]
    rfl

theorem reads_object {child : List (CStr × CJson N)} (hkeys : ∀ p ∈ child, nul ∉ p.1)
    (hprint : ∀ p ∈ child, Printable printNumber strtod d p.2)
    (h : ∀ p ∈ child, Reads printNumber strtod d p.2) :
    Reads printNumber strtod (d + 1) (.object child) := by
  intro depth fuel k rest hdepth hfuel _
  rw [printValue] at hfuel ⊢
  simp only [List.cons_append, List.length_cons, List.length_append, List.append_assoc,
    List.nil_append] at hfuel ⊢
  rw [parseValue_cons (by decide) (by decide) (by decide), if_neg (by decide),
    if_neg (by decide), if_neg (by decide), if_pos rfl, if_neg (by omega)]
  have hlast : bufferSkipWhitespace (List.replicate k '\t' ++ '\x7d' :: rest) =
      '\x7d' :: rest := by
    rw [bufferSkipWhitespace_tabs, bufferSkipWhitespace_cons (by decide)]
  rw [bufferSkipWhitespace_blank (by decide)]
  by_cases hne : child = []
  · subst hne
    rw [printItems, List.nil_append, hlast]
    exact if_pos rfl
  · rw [if_neg (head?_printItems_ne hne _ _), parseItems_congr (bufferSkipWhitespace_blank
      (by decide) _), parseItems_printItems hne hkeys hprint h (by omega) (by omega) hlast]
    rfl

theorem Printable.reads (h : Printable printNumber strtod d v) : Reads printNumber strtod d v := by
  induction h with
  | null =>
    intro depth fuel k rest _ _ _
    rw [printValue]
    exact (parseValue_word rest).1
  | false =>
    intro depth fuel k rest _ _ _
    rw [printValue]
    exact (parseValue_word rest).2.1
  | true =>
    intro depth fuel k rest _ _ _
    rw [printValue]
    exact (parseValue_word rest).2.2
  | number hn =>
    intro depth fuel k rest _ _ hrest
    rw [printValue]
    exact parseValue_number hn hrest
  | string hs =>
    intro depth fuel k rest _ _ _
    rw [printValue]
    exact parseValue_string hs rest
  | array hprint ih => exact reads_array hprint ih
  | object hkeys hprint ih => exact reads_object hkeys hprint ih

theorem Printable.parse (h : Printable printNumber strtod nestingLimit v) {rest : CStr}
    (hrest : rest = [] ∨ Stops rest) :
    cJsonParse strtod (cJsonPrint printNumber v ++ rest) = some v := by
  have hstops : Stops (rest ++ [nul]) := by
    rcases hrest with rfl | ⟨c, t, rfl, hc⟩
    · exact ⟨nul, [], rfl, by decide⟩
    · exact ⟨c, t ++ [nul], rfl, hc⟩
  have hread := h.reads 0 (2 * (cJsonPrint printNumber v ++ rest).length + 1) 0 (rest ++ [nul])
    (Nat.zero_add _).le (by rw [cJsonPrint, List.length_append]; omega) hstops
  rw [cJsonParse, List.append_assoc]
  rw [← cJsonPrint] at hread
  have hskip := bufferSkipWhitespace_printValue h 0 (rest ++ [nul])
  rw [← cJsonPrint] at hskip
  rw [hskip, Nat.mul_succ, hread]
  rfl

theorem nul_notMem_printStringPtr {s : CStr} (hs : nul ∉ s) : nul ∉ printStringPtr s := by
  have hchar : nul ∉ s.flatMap printChar := by
    intro h
    obtain ⟨c, hc, hmem⟩ := List.mem_flatMap.mp h
    have hcn : c ≠ nul := fun h => hs (h ▸ hc)
    rcases printChar_cases hcn with ⟨hp, -⟩ | ⟨e, hp, -, he⟩ | ⟨h, l, hp, hh, hl, -⟩
    · rw [hp, List.mem_singleton] at hmem
      exact hcn hmem.symm
    · rw [hp, List.mem_pair] at hmem
      rcases hmem with hmem | rfl
      · cases hmem
      · cases he
    · rw [hp] at hmem
      simp only [List.mem_cons, List.not_mem_nil, or_false] at hmem
      rcases hmem with hmem | hmem | hmem | hmem | hmem | hmem
      iterate 4 cases hmem
      · exact hh.2 hmem.symm
      · exact hl.2 hmem.symm
  rw [printStringPtr_eq, List.mem_append, List.mem_cons, List.mem_singleton]
  rintro ((h | h) | h)
  · cases h
  · exact hchar h
  · cases h

theorem nul_notMem_printElements {child : List (CJson N)}
    (h : ∀ v ∈ child, ∀ k, nul ∉ printValue printNumber k v) (k : ℕ) :
    nul ∉ printElements printNumber k child := by
  induction child with
  | nil =>
    rw [printElements]
    exact List.not_mem_nil
  | cons v child ih =>
    have hsep : nul ∉ (if child.isEmpty then [] else [',', ' ']) := by
      split_ifs <;> decide
    rw [printElements, List.mem_append, List.mem_append]
    rintro ((hmem | hmem) | hmem)
    · exact h v List.mem_cons_self k hmem
    · exact hsep hmem
    · exact ih (fun v hv => h v (List.mem_cons_of_mem _ hv)) hmem

theorem nul_notMem_printItems {child : List (CStr × CJson N)} (hkeys : ∀ p ∈ child, nul ∉ p.1)
    (h : ∀ p ∈ child, ∀ k, nul ∉ printValue printNumber k p.2) (k : ℕ) :
    nul ∉ printItems printNumber k child := by
  induction child with
  | nil =>
    rw [printItems]
    exact List.not_mem_nil
  | cons p child ih =>
    have hsep : nul ∉ (if child.isEmpty then [] else [',']) := by
      split_ifs <;> decide
    have htabs : nul ∉ List.replicate k '\t' := fun h =>
      absurd (List.eq_of_mem_replicate h) (by decide)
    have hrest := ih (fun p hp => hkeys p (List.mem_cons_of_mem _ hp))
      fun p hp => h p (List.mem_cons_of_mem _ hp)
    have hkey := nul_notMem_printStringPtr (hkeys p List.mem_cons_self)
    have hvalue := h p List.mem_cons_self k
    rw [printItems]
    simp only [List.mem_append, not_or]
    exact ⟨⟨⟨⟨⟨⟨htabs, hkey⟩, by decide⟩, hvalue⟩, hsep⟩, by decide⟩, hrest⟩

theorem nul_notMem_printValue (h : Printable printNumber strtod d v) (k : ℕ) :
    nul ∉ printValue printNumber k v := by
  induction h generalizing k with
  | null =>
    rw [printValue]
    decide
  | false =>
    rw [printValue]
    decide
  | true =>
    rw [printValue]
    decide
  | number hn =>
    rw [printValue]
    intro hmem
    exact absurd (hn.chars nul hmem) (by decide)
  | string hs =>
    rw [printValue]
    exact nul_notMem_printStringPtr hs
  | array hprint ih =>
    have hchild := nul_notMem_printElements ih (k + 1)
    rw [printValue]
    simp only [List.mem_append, List.mem_cons, not_or]
    exact ⟨⟨by decide, hchild⟩, by decide, List.not_mem_nil⟩
  | object hkeys hprint ih =>
    have hchild := nul_notMem_printItems hkeys ih (k + 1)
    have htabs : nul ∉ List.replicate k '\t' := fun h =>
      absurd (List.eq_of_mem_replicate h) (by decide)
    rw [printValue]
    simp only [List.mem_append, List.mem_cons, not_or]
    exact ⟨⟨⟨by decide, by decide, hchild⟩, htabs⟩, by decide, List.not_mem_nil⟩

/-- What the library prints of an item of C strings with no more levels than it reads is a C string,
and it is read as that item, whatever bytes the strings have (quotes, control characters and bytes
that are no text) and whatever follows that does not go on with a number. -/
theorem cJsonParse_cJsonPrint (h : Printable printNumber strtod nestingLimit v) :
    nul ∉ cJsonPrint printNumber v ∧ ∀ rest, rest = [] ∨ Stops rest →
      cJsonParse strtod (cJsonPrint printNumber v ++ rest) = some v :=
  ⟨nul_notMem_printValue h 0, fun _ hrest => h.parse hrest⟩

/-- A tab, a byte of no text, a quote and a nested list, with a number. -/
theorem cJsonParse_nested :
    cJsonParse (fun s => if s = ['-', '1'] then some ((), 2) else none)
      (cJsonPrint (fun _ => ['-', '1']) (.object [(['\t', '\xff'], .array [.string ['"'],
        .number (), .array []]), (['k'], .object [])]) ++ ['\x7d']) =
      some (.object [(['\t', '\xff'], .array [.string ['"'], .number (), .array []]),
        (['k'], .object [])]) := by
  have hnumber : ReadsBack (fun _ : Unit => ['-', '1'])
      (fun s => if s = ['-', '1'] then some ((), 2) else none) () :=
    ⟨⟨'-', ['1'], rfl, Or.inl rfl⟩, by simp [isNumberChar], by decide, rfl⟩
  refine (cJsonParse_cJsonPrint (.object (d := 999) (by decide) fun p hp => ?_)).2 ['\x7d']
    (Or.inr ⟨_, _, rfl, by decide⟩)
  rcases List.mem_pair.mp hp with rfl | rfl
  · refine .array (d := 998) fun v hv => ?_
    simp only [List.mem_cons, List.not_mem_nil, or_false] at hv
    rcases hv with rfl | rfl | rfl
    · exact .string (by decide)
    · exact .number hnumber
    · exact .array (d := 997) nofun
  · exact .object (d := 998) nofun nofun

end Values

end Afly.Kv
