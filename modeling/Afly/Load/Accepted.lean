import Afly.Load.Lexemes

/-! # The parser and the grammar

The parser accepts exactly the texts of the grammar. One direction is an
induction on the derivation, which gives every function enough of its measure;
the other one is on the measure.
-/

namespace Afly.Load

section Complete

variable {strtod : CStr → Option Double} {valid : Bool} {limit : ℕ} {w s rest : CStr} {c : Char}

theorem Blanks.stops (hw : Blanks w) : Stops w := by
  cases w with
  | nil => rintro c ⟨⟩
  | cons d w =>
    rintro c ⟨⟩
    have hd := hw d List.mem_cons_self
    simp only [isBlank, Bool.or_eq_true, decide_eq_true_eq] at hd
    rcases hd with ((rfl | rfl) | rfl) | rfl <;> decide

theorem Blanks.stops_append (hw : Blanks w) (h : Stops rest) : Stops (w ++ rest) := by
  cases w with
  | nil => exact h
  | cons d w =>
    rintro d ⟨⟩
    exact hw.stops d rfl

theorem stops_sign (hc : c ∈ [',', ']', '\x7d']) (s : CStr) : Stops (c :: s) := by
  rintro d ⟨⟩
  simp only [List.mem_cons, List.not_mem_nil, or_false] at hc
  rcases hc with rfl | rfl | rfl <;> decide

section Next

variable (strtod valid limit)

/-- The functions of the parser with the token that comes next. -/
def nextValue (fuel depth : ℕ) (s : CStr) : Option (Json × CStr) :=
  let (token, s) := lexScan strtod valid s
  parseValue strtod valid limit fuel depth token s

def nextItems (fuel depth : ℕ) (array : List Json) (s : CStr) : Option (Json × CStr) :=
  let (token, s) := lexScan strtod valid s
  parseItems strtod valid limit fuel depth array token s

def nextMembers (fuel depth : ℕ) (object : List (String × Json)) (s : CStr) :
    Option (Json × CStr) :=
  let (token, s) := lexScan strtod valid s
  parseMembers strtod valid limit fuel depth object token s

/-- What the parser makes of a text that denotes a part, with what must follow it. -/
def Parses (d : ℕ) (part : Part) (text : CStr) : Prop :=
  ∀ fuel depth rest, depth + d ≤ limit →
    match part with
    | .value j => 2 * text.length ≤ fuel + 1 → Stops rest →
        nextValue strtod valid limit fuel depth (text ++ rest) = some (j, rest)
    | .padded j => 2 * text.length ≤ fuel + 1 → Stops rest → ∃ w, Blanks w ∧
        nextValue strtod valid limit fuel depth (text ++ rest) = some (j, w ++ rest)
    | .items l => 2 * text.length < fuel → ∀ array,
        nextItems strtod valid limit fuel depth array (text ++ ']' :: rest) =
          some (.arr (array ++ l), rest)
    | .member p => 2 * text.length ≤ fuel → ∀ object,
        nextMembers strtod valid limit (fuel + 1) depth object (text ++ ',' :: rest) =
            nextMembers strtod valid limit fuel depth
              (jsonObjectSetNew object p.1 (some p.2)) rest ∧
          nextMembers strtod valid limit (fuel + 1) depth object (text ++ '\x7d' :: rest) =
            some (.obj (jsonObjectSetNew object p.1 (some p.2)), rest)
    | .members m => 2 * text.length < fuel → ∀ object,
        nextMembers strtod valid limit fuel depth object (text ++ '\x7d' :: rest) =
          some (.obj (m.foldl (fun obj p => jsonObjectSetNew obj p.1 (some p.2)) object), rest)

end Next

theorem lexScan_blanks_sign (hw : Blanks w) (hc : c ∈ ['\x7b', '\x7d', '[', ']', ':', ','])
    (s : CStr) : lexScan strtod valid (w ++ c :: s) = (.sign c, s) := by
  rw [lexScan_blanks hw, lexScan_sign hc]

theorem nextValue_scalar {token : Token} {j : Json} {fuel depth : ℕ}
    (hlex : Lexeme strtod token s) (h : Scalar token j) (hdepth : depth + 1 ≤ limit)
    (hrest : Stops rest) :
    nextValue strtod valid limit (fuel + 1) depth (s ++ rest) = some (j, rest) := by
  have hdeep : ¬ limit < depth + 1 := by omega
  rw [nextValue, lexScan_lexeme hlex hrest]
  cases h with
  | string hnul => simp only [parseValue, if_neg hdeep, if_neg hnul]
  | integer => simp only [parseValue, if_neg hdeep]
  | real => simp only [parseValue, if_neg hdeep]
  | true => simp only [parseValue, if_neg hdeep]
  | false => simp only [parseValue, if_neg hdeep]
  | null => simp only [parseValue, if_neg hdeep]

theorem nextValue_array {fuel depth : ℕ} (hdepth : depth + 1 ≤ limit) (s : CStr) :
    nextValue strtod valid limit (fuel + 1) depth ('[' :: s) =
      parseArray strtod valid limit fuel (depth + 1) s := by
  have hdeep : ¬ limit < depth + 1 := by omega
  rw [nextValue, lexScan_sign (by decide)]
  simp only [parseValue, if_neg hdeep, if_neg (show ¬ '[' = '\x7b' by decide), if_true]

theorem nextValue_object {fuel depth : ℕ} (hdepth : depth + 1 ≤ limit) (s : CStr) :
    nextValue strtod valid limit (fuel + 1) depth ('\x7b' :: s) =
      parseObject strtod valid limit fuel (depth + 1) s := by
  have hdeep : ¬ limit < depth + 1 := by omega
  rw [nextValue, lexScan_sign (by decide)]
  simp only [parseValue, if_neg hdeep, if_true]

theorem parseItems_close (fuel depth : ℕ) (array : List Json) (s : CStr) :
    parseItems strtod valid limit fuel depth array (.sign ']') s = none := by
  have hvalue : ∀ fuel, parseValue strtod valid limit fuel depth (.sign ']') s = none
    | 0 => by rw [parseValue]
    | fuel + 1 => by simp [parseValue]
  cases fuel with
  | zero => rw [parseItems]
  | succ fuel => simp [parseItems, hvalue]

theorem parseMembers_close (fuel depth : ℕ) (object : List (String × Json)) (s : CStr) :
    parseMembers strtod valid limit fuel depth object (.sign '\x7d') s = none := by
  cases fuel with
  | zero => rw [parseMembers]
  | succ fuel => simp [parseMembers]

theorem parseArray_of_items {fuel depth : ℕ} {r : Json × CStr}
    (h : nextItems strtod valid limit fuel depth [] s = some r) :
    parseArray strtod valid limit (fuel + 1) depth s = some r := by
  unfold nextItems at h
  rw [parseArray]
  generalize lexScan strtod valid s = next at h ⊢
  dsimp only at h ⊢
  split_ifs with hclose
  · rw [hclose, parseItems_close] at h
    cases h
  · exact h

theorem parseObject_of_members {fuel depth : ℕ} {r : Json × CStr}
    (h : nextMembers strtod valid limit fuel depth [] s = some r) :
    parseObject strtod valid limit (fuel + 1) depth s = some r := by
  unfold nextMembers at h
  rw [parseObject]
  generalize lexScan strtod valid s = next at h ⊢
  dsimp only at h ⊢
  split_ifs with hclose
  · rw [hclose, parseMembers_close] at h
    cases h
  · exact h

theorem nextItems_succ {fuel depth : ℕ} {array : List Json} {j : Json} {s' : CStr}
    (h : nextValue strtod valid limit fuel depth s = some (j, s')) :
    nextItems strtod valid limit (fuel + 1) depth array s =
      if (lexScan strtod valid s').1 = .sign ',' then
        nextItems strtod valid limit fuel depth (array ++ [j]) (lexScan strtod valid s').2
      else if (lexScan strtod valid s').1 = .sign ']' then
        some (.arr (array ++ [j]), (lexScan strtod valid s').2)
      else none := by
  unfold nextValue at h
  rw [nextItems]
  generalize lexScan strtod valid s = next at h ⊢
  dsimp only at h ⊢
  have heof : next.1 ≠ .eof := by
    intro heof
    rw [heof] at h
    cases fuel <;> simp [parseValue] at h
  simp only [parseItems, if_neg heof, h]
  rfl

theorem nextMembers_succ {fuel depth : ℕ} {object : List (String × Json)} {key : String} {j : Json}
    {k w' s' : CStr} (hw : Blanks w) (hk : KeyText key k) (hw' : Blanks w')
    (h : nextValue strtod valid limit fuel depth s = some (j, s')) :
    nextMembers strtod valid limit (fuel + 1) depth object (w ++ k ++ w' ++ ':' :: s) =
      if (lexScan strtod valid s').1 = .sign ',' then
        nextMembers strtod valid limit fuel depth (jsonObjectSetNew object key (some j))
          (lexScan strtod valid s').2
      else if (lexScan strtod valid s').1 = .sign '\x7d' then
        some (.obj (jsonObjectSetNew object key (some j)), (lexScan strtod valid s').2)
      else none := by
  obtain ⟨hq, hnul⟩ := hk
  rename_i saved key
  have hkey : lexScan strtod valid (w ++ (quote :: saved ++ [quote]) ++ w' ++ ':' :: s) =
      (.string key, w' ++ ':' :: s) := by
    rw [List.append_assoc, List.append_assoc, lexScan_blanks hw, lexScan_string hq]
  have hcolon : lexScan strtod valid (w' ++ ':' :: s) = (.sign ':', s) := by
    rw [lexScan_blanks hw', lexScan_sign (by decide)]
  unfold nextValue at h
  rw [nextMembers, hkey]
  dsimp only at h ⊢
  simp only [parseMembers, if_neg hnul, hcolon, ne_eq, not_true_eq_false, if_false, h]
  rfl

theorem length_lexeme_pos {token : Token} (h : Lexeme strtod token s) : 0 < s.length := by
  cases h with
  | sign => exact Nat.zero_lt_one
  | string => simp
  | positive hs => exact List.length_pos_of_ne_nil hs.1.1
  | negative => simp
  | real _ hs =>
    have := List.length_pos_of_ne_nil hs.1.1
    simp only [List.length_append]
    omega
  | true | false | null => decide

theorem Denotes.parses {d : ℕ} {part : Part} (h : Denotes strtod d part s) (valid : Bool)
    (limit : ℕ) : Parses strtod valid limit d part s := by
  induction h with
  | scalar hlex hscalar =>
    intro fuel depth rest hdepth hfuel hrest
    have := length_lexeme_pos hlex
    obtain ⟨fuel, rfl⟩ : ∃ n, fuel = n + 1 := ⟨fuel - 1, by omega⟩
    exact nextValue_scalar hlex hscalar (by omega) hrest
  | emptyArray hw =>
    intro fuel depth rest hdepth hfuel hrest
    simp only [List.length_append, List.length_cons, List.length_nil] at hfuel
    obtain ⟨fuel, rfl⟩ : ∃ n, fuel = n + 1 + 1 := ⟨fuel - 2, by omega⟩
    rw [List.cons_append, List.cons_append, List.append_assoc, List.singleton_append,
      nextValue_array (by omega), parseArray, lexScan_blanks hw, lexScan_sign (by decide)]
    rfl
  | array _ ih =>
    intro fuel depth rest hdepth hfuel hrest
    simp only [List.length_append, List.length_cons, List.length_nil] at hfuel
    obtain ⟨fuel, rfl⟩ : ∃ n, fuel = n + 1 + 1 := ⟨fuel - 2, by omega⟩
    rw [List.cons_append, List.cons_append, List.append_assoc, List.singleton_append,
      nextValue_array (by omega)]
    exact parseArray_of_items (ih fuel (depth + 1) rest (by omega) (by omega) [])
  | emptyObject hw =>
    intro fuel depth rest hdepth hfuel hrest
    simp only [List.length_append, List.length_cons, List.length_nil] at hfuel
    obtain ⟨fuel, rfl⟩ : ∃ n, fuel = n + 1 + 1 := ⟨fuel - 2, by omega⟩
    rw [List.cons_append, List.cons_append, List.append_assoc, List.singleton_append,
      nextValue_object (by omega), parseObject, lexScan_blanks hw, lexScan_sign (by decide)]
    rfl
  | object _ ih =>
    intro fuel depth rest hdepth hfuel hrest
    simp only [List.length_append, List.length_cons, List.length_nil] at hfuel
    obtain ⟨fuel, rfl⟩ : ∃ n, fuel = n + 1 + 1 := ⟨fuel - 2, by omega⟩
    rw [List.cons_append, List.cons_append, List.append_assoc, List.singleton_append,
      nextValue_object (by omega)]
    exact parseObject_of_members (ih fuel (depth + 1) rest (by omega) (by omega) [])
  | padded hw _ hw' ih =>
    intro fuel depth rest hdepth hfuel hrest
    simp only [List.length_append] at hfuel
    refine ⟨_, hw', ?_⟩
    rw [List.append_assoc, List.append_assoc, nextValue, lexScan_blanks hw]
    exact ih fuel depth _ hdepth (by omega) (hw'.stops_append hrest)
  | item _ ih =>
    intro fuel depth rest hdepth hfuel array
    obtain ⟨fuel, rfl⟩ : ∃ n, fuel = n + 1 := ⟨fuel - 1, by omega⟩
    obtain ⟨w, hw, hvalue⟩ := ih fuel depth (']' :: rest) hdepth (by omega)
      (stops_sign (by decide) _)
    rw [nextItems_succ hvalue, lexScan_blanks_sign hw (by decide)]
    rfl
  | items _ _ ih ihl =>
    intro fuel depth rest hdepth hfuel array
    simp only [List.length_append, List.length_cons] at hfuel
    obtain ⟨fuel, rfl⟩ : ∃ n, fuel = n + 1 := ⟨fuel - 1, by omega⟩
    rw [List.append_assoc, List.cons_append]
    obtain ⟨w, hw, hvalue⟩ := ih fuel depth (',' :: _) hdepth (by omega) (stops_sign (by decide) _)
    rw [nextItems_succ hvalue, lexScan_blanks_sign hw (by decide), if_pos rfl,
      ihl fuel depth rest hdepth (by omega) (array ++ [_])]
    simp
  | keyed hw hk hw' _ ih =>
    intro fuel depth rest hdepth hfuel object
    simp only [List.length_append, List.length_cons] at hfuel
    constructor
    · rw [List.append_assoc, List.cons_append]
      obtain ⟨v, hv, hvalue⟩ := ih fuel depth (',' :: rest) hdepth (by omega)
        (stops_sign (by decide) _)
      rw [nextMembers_succ hw hk hw' hvalue, lexScan_blanks_sign hv (by decide), if_pos rfl]
    · rw [List.append_assoc, List.cons_append]
      obtain ⟨v, hv, hvalue⟩ := ih fuel depth ('\x7d' :: rest) hdepth (by omega)
        (stops_sign (by decide) _)
      rw [nextMembers_succ hw hk hw' hvalue, lexScan_blanks_sign hv (by decide)]
      rfl
  | member _ ih =>
    intro fuel depth rest hdepth hfuel object
    obtain ⟨fuel, rfl⟩ : ∃ n, fuel = n + 1 := ⟨fuel - 1, by omega⟩
    exact (ih fuel depth rest hdepth (by omega) object).2
  | members _ _ ih ihl =>
    intro fuel depth rest hdepth hfuel object
    simp only [List.length_append, List.length_cons] at hfuel
    obtain ⟨fuel, rfl⟩ : ∃ n, fuel = n + 1 := ⟨fuel - 1, by omega⟩
    rw [List.append_assoc, List.cons_append, (ih fuel depth _ hdepth (by omega) object).1]
    exact ihl fuel depth rest hdepth (by omega) _

theorem Denotes.unique {d d' : ℕ} {j j' : Json} (h : Denotes strtod d (.padded j) s)
    (h' : Denotes strtod d' (.padded j') s) : j = j' := by
  have hstops : Stops [] := by rintro c ⟨⟩
  obtain ⟨w, -, hvalue⟩ := h.parses true (max d d') (2 * s.length) 0 [] (by omega) (by omega) hstops
  obtain ⟨w', -, hvalue'⟩ :=
    h'.parses true (max d d') (2 * s.length) 0 [] (by omega) (by omega) hstops
  exact congrArg Prod.fst (Option.some.inj (hvalue.symm.trans hvalue'))

theorem container_start {d : ℕ} {j : Json} (h : Denotes strtod d (.value j) s)
    (hj : (∃ l, j = .arr l) ∨ ∃ m, j = .obj m) : ∃ t, s = '[' :: t ∨ s = '\x7b' :: t := by
  cases h with
  | scalar _ hscalar => cases hscalar <;> simp at hj
  | emptyArray | array => exact ⟨_, Or.inl rfl⟩
  | emptyObject | object => exact ⟨_, Or.inr rfl⟩

theorem parseJson_of_document {j : Json} (h : Document strtod j s) :
    parseJson strtod true maxDepth s = some j := by
  obtain ⟨hj, w, text, w', rfl, hw, hw', hdenotes⟩ := h
  have hvalue := hdenotes.parses true maxDepth (2 * (w ++ text ++ w').length + 1) 0 w'
    (Nat.zero_add _).le (by simp only [List.length_append]; omega) hw'.stops
  have hstart : (lexScan strtod true (text ++ w')).1 = .sign '[' ∨
      (lexScan strtod true (text ++ w')).1 = .sign '\x7b' := by
    obtain ⟨t, rfl | rfl⟩ := container_start hdenotes hj
    · rw [List.cons_append, lexScan_sign (by decide)]
      exact Or.inl rfl
    · rw [List.cons_append, lexScan_sign (by decide)]
      exact Or.inr rfl
  unfold nextValue at hvalue
  rw [parseJson, List.append_assoc, lexScan_blanks hw]
  rw [List.append_assoc] at hvalue
  generalize lexScan strtod true (text ++ w') = next at hstart hvalue ⊢
  dsimp only at hvalue ⊢
  rw [hvalue, if_neg (by tauto)]
  simp [lexScan_end hw']

end Complete

section Sound

variable {strtod : CStr → Option Double} {valid : Bool} {limit : ℕ} {s : CStr}

/-- What the parser has read when it returns: a lexeme and the text behind it. -/
structure Reads (strtod : CStr → Option Double) (valid : Bool) (limit fuel : ℕ) : Prop where
  value : ∀ {depth token s j rest lexeme d}, parseValue strtod valid limit fuel depth token s =
    some (j, rest) → Lexeme strtod token lexeme → depth + d = limit →
      ∃ t, s = t ++ rest ∧ Denotes strtod d (.value j) (lexeme ++ t)
  object : ∀ {depth s j rest d}, parseObject strtod valid limit fuel depth s = some (j, rest) →
    depth + d = limit → ∃ t, s = t ++ rest ∧ Denotes strtod (d + 1) (.value j) ('\x7b' :: t)
  members : ∀ {depth obj token s j rest lexeme d},
    parseMembers strtod valid limit fuel depth obj token s = some (j, rest) →
      Lexeme strtod token lexeme → depth + d = limit → ∃ m t, s = t ++ '\x7d' :: rest ∧
        j = .obj (m.foldl (fun obj p => jsonObjectSetNew obj p.1 (some p.2)) obj) ∧
          ∀ w, Blanks w → Denotes strtod d (.members m) (w ++ lexeme ++ t)
  array : ∀ {depth s j rest d}, parseArray strtod valid limit fuel depth s = some (j, rest) →
    depth + d = limit → ∃ t, s = t ++ rest ∧ Denotes strtod (d + 1) (.value j) ('[' :: t)
  items : ∀ {depth array token s j rest lexeme d},
    parseItems strtod valid limit fuel depth array token s = some (j, rest) →
      Lexeme strtod token lexeme → depth + d = limit → ∃ l t, s = t ++ ']' :: rest ∧
        j = .arr (array ++ l) ∧
          ∀ w, Blanks w → Denotes strtod d (.items l) (w ++ lexeme ++ t)

theorem reads_zero : Reads strtod valid limit 0 where
  value h := by simp [parseValue] at h
  object h := by simp [parseObject] at h
  members h := by simp [parseMembers] at h
  array h := by simp [parseArray] at h
  items h := by simp [parseItems] at h

theorem lexScan_split (hinvalid : (lexScan strtod valid s).1 ≠ .invalid)
    (heof : (lexScan strtod valid s).1 ≠ .eof) : ∃ w lexeme, Blanks w ∧
      Lexeme strtod (lexScan strtod valid s).1 lexeme ∧
        s = w ++ lexeme ++ (lexScan strtod valid s).2 :=
  lexScan_spec rfl hinvalid heof

theorem lexScan_is_sign {c : Char} (hc : (lexScan strtod valid s).1 = .sign c) :
    ∃ w, Blanks w ∧ s = w ++ c :: (lexScan strtod valid s).2 := by
  obtain ⟨w, lexeme, hw, hlex, hs⟩ := lexScan_split (by rw [hc]; simp) (by rw [hc]; simp)
  rw [hc] at hlex
  cases hlex
  exact ⟨w, hw, by simpa using hs⟩

theorem parseValue_token {fuel depth : ℕ} {token : Token} {r : Json × CStr}
    (h : parseValue strtod valid limit fuel depth token s = some r) :
    token ≠ .invalid ∧ token ≠ .eof := by
  constructor <;> rintro rfl <;> cases fuel <;> simp [parseValue] at h

theorem parseItems_token {fuel depth : ℕ} {array : List Json} {token : Token} {r : Json × CStr}
    (h : parseItems strtod valid limit fuel depth array token s = some r) :
    token ≠ .invalid ∧ token ≠ .eof := by
  cases fuel with
  | zero => simp [parseItems] at h
  | succ fuel =>
    cases hvalue : parseValue strtod valid limit fuel depth token s with
    | none => simp [parseItems, hvalue] at h
    | some r => exact parseValue_token hvalue

theorem parseMembers_token {fuel depth : ℕ} {object : List (String × Json)} {token : Token}
    {r : Json × CStr} (h : parseMembers strtod valid limit fuel depth object token s = some r) :
    token ≠ .invalid ∧ token ≠ .eof := by
  constructor <;> rintro rfl <;> cases fuel <;> simp [parseMembers] at h

theorem parseValue_cases {fuel depth : ℕ} {token : Token} {j : Json} {rest : CStr}
    (h : parseValue strtod valid limit (fuel + 1) depth token s = some (j, rest)) :
    depth + 1 ≤ limit ∧ (Scalar token j ∧ s = rest ∨
      token = .sign '\x7b' ∧ parseObject strtod valid limit fuel (depth + 1) s = some (j, rest) ∨
      token = .sign '[' ∧ parseArray strtod valid limit fuel (depth + 1) s = some (j, rest)) := by
  by_cases hdeep : limit < depth + 1
  · cases token <;> simp [parseValue, hdeep] at h
  refine ⟨by omega, ?_⟩
  cases token with
  | invalid => simp [parseValue] at h
  | eof => simp [parseValue] at h
  | string val =>
    simp only [parseValue, if_neg hdeep] at h
    split_ifs at h with hnul
    cases h
    exact Or.inl ⟨.string hnul, rfl⟩
  | sign c =>
    simp only [parseValue, if_neg hdeep] at h
    split_ifs at h with hbrace hbracket
    · exact Or.inr (Or.inl ⟨congrArg _ hbrace, h⟩)
    · exact Or.inr (Or.inr ⟨congrArg _ hbracket, h⟩)
  | integer n =>
    simp only [parseValue, if_neg hdeep] at h
    cases h
    exact Or.inl ⟨.integer, rfl⟩
  | real =>
    simp only [parseValue, if_neg hdeep] at h
    cases h
    exact Or.inl ⟨.real, rfl⟩
  | true =>
    simp only [parseValue, if_neg hdeep] at h
    cases h
    exact Or.inl ⟨.true, rfl⟩
  | false =>
    simp only [parseValue, if_neg hdeep] at h
    cases h
    exact Or.inl ⟨.false, rfl⟩
  | null =>
    simp only [parseValue, if_neg hdeep] at h
    cases h
    exact Or.inl ⟨.null, rfl⟩

theorem parseArray_cases {fuel depth : ℕ} {j : Json} {rest : CStr}
    (h : parseArray strtod valid limit (fuel + 1) depth s = some (j, rest)) :
    (∃ w, Blanks w ∧ s = w ++ ']' :: rest ∧ j = .arr []) ∨
      ∃ w lexeme token s', Blanks w ∧ Lexeme strtod token lexeme ∧ s = w ++ lexeme ++ s' ∧
        parseItems strtod valid limit fuel depth [] token s' = some (j, rest) := by
  simp only [parseArray] at h
  split_ifs at h with hclose
  · obtain ⟨w, hw, hs⟩ := lexScan_is_sign hclose
    cases h
    exact Or.inl ⟨w, hw, hs, rfl⟩
  · obtain ⟨hinvalid, heof⟩ := parseItems_token h
    obtain ⟨w, lexeme, hw, hlex, hs⟩ := lexScan_split hinvalid heof
    exact Or.inr ⟨w, lexeme, _, _, hw, hlex, hs, h⟩

theorem parseObject_cases {fuel depth : ℕ} {j : Json} {rest : CStr}
    (h : parseObject strtod valid limit (fuel + 1) depth s = some (j, rest)) :
    (∃ w, Blanks w ∧ s = w ++ '\x7d' :: rest ∧ j = .obj []) ∨
      ∃ w lexeme token s', Blanks w ∧ Lexeme strtod token lexeme ∧ s = w ++ lexeme ++ s' ∧
        parseMembers strtod valid limit fuel depth [] token s' = some (j, rest) := by
  simp only [parseObject] at h
  split_ifs at h with hclose
  · obtain ⟨w, hw, hs⟩ := lexScan_is_sign hclose
    cases h
    exact Or.inl ⟨w, hw, hs, rfl⟩
  · obtain ⟨hinvalid, heof⟩ := parseMembers_token h
    obtain ⟨w, lexeme, hw, hlex, hs⟩ := lexScan_split hinvalid heof
    exact Or.inr ⟨w, lexeme, _, _, hw, hlex, hs, h⟩

theorem parseItems_cases {fuel depth : ℕ} {array : List Json} {token : Token} {j : Json}
    {rest : CStr}
    (h : parseItems strtod valid limit (fuel + 1) depth array token s = some (j, rest)) :
    ∃ elem s₁, parseValue strtod valid limit fuel depth token s = some (elem, s₁) ∧
      ((∃ w, Blanks w ∧ s₁ = w ++ ']' :: rest ∧ j = .arr (array ++ [elem])) ∨
        ∃ w w' lexeme token' s₂, Blanks w ∧ Blanks w' ∧ Lexeme strtod token' lexeme ∧
          s₁ = w ++ ',' :: (w' ++ lexeme ++ s₂) ∧
            parseItems strtod valid limit fuel depth (array ++ [elem]) token' s₂ =
              some (j, rest)) := by
  have heof := (parseItems_token h).2
  cases hvalue : parseValue strtod valid limit fuel depth token s with
  | none => simp [parseItems, hvalue] at h
  | some r =>
    obtain ⟨elem, s₁⟩ := r
    refine ⟨elem, s₁, rfl, ?_⟩
    simp only [parseItems, if_neg heof, hvalue] at h
    split_ifs at h with hcomma hclose
    · obtain ⟨w, hw, hs⟩ := lexScan_is_sign hcomma
      obtain ⟨hinvalid, heof⟩ := parseItems_token h
      obtain ⟨w', lexeme, hw', hlex, hs'⟩ := lexScan_split hinvalid heof
      exact Or.inr ⟨w, w', lexeme, _, _, hw, hw', hlex, by rw [← hs', ← hs], h⟩
    · obtain ⟨w, hw, hs⟩ := lexScan_is_sign hclose
      cases h
      exact Or.inl ⟨w, hw, hs, rfl⟩

theorem parseMembers_cases {fuel depth : ℕ} {object : List (String × Json)} {token : Token}
    {j : Json} {rest : CStr}
    (h : parseMembers strtod valid limit (fuel + 1) depth object token s = some (j, rest)) :
    ∃ key w₁ w₂ lexeme token₂ s₂ value s₁, token = .string key ∧ nul ∉ key ∧ Blanks w₁ ∧ Blanks w₂ ∧
      Lexeme strtod token₂ lexeme ∧ s = w₁ ++ ':' :: (w₂ ++ lexeme ++ s₂) ∧
      parseValue strtod valid limit fuel depth token₂ s₂ = some (value, s₁) ∧
      ((∃ w, Blanks w ∧ s₁ = w ++ '\x7d' :: rest ∧
          j = .obj (jsonObjectSetNew object (String.ofList key) (some value))) ∨
        ∃ w w' lexeme token' s₃, Blanks w ∧ Blanks w' ∧ Lexeme strtod token' lexeme ∧
          s₁ = w ++ ',' :: (w' ++ lexeme ++ s₃) ∧ parseMembers strtod valid limit fuel depth
            (jsonObjectSetNew object (String.ofList key) (some value)) token' s₃ =
              some (j, rest)) := by
  cases token with
  | string key =>
    simp only [parseMembers] at h
    split_ifs at h with hnul hcolon
    obtain ⟨w₁, hw₁, hs⟩ := lexScan_is_sign (not_not.mp hcolon)
    generalize (lexScan strtod valid s).2 = s' at hs h
    cases hvalue : parseValue strtod valid limit fuel depth (lexScan strtod valid s').1
        (lexScan strtod valid s').2 with
    | none => simp [hvalue] at h
    | some r =>
      obtain ⟨value, s₁⟩ := r
      obtain ⟨hinvalid, heof⟩ := parseValue_token hvalue
      obtain ⟨w₂, lexeme, hw₂, hlex, hs'⟩ := lexScan_split hinvalid heof
      refine ⟨key, w₁, w₂, lexeme, _, _, value, s₁, rfl, hnul, hw₁, hw₂, hlex, by rw [← hs', ← hs],
        hvalue, ?_⟩
      simp only [hvalue] at h
      split_ifs at h with hcomma hclose
      · obtain ⟨w, hw, hs⟩ := lexScan_is_sign hcomma
        obtain ⟨hinvalid, heof⟩ := parseMembers_token h
        obtain ⟨w', lexeme, hw', hlex, hs'⟩ := lexScan_split hinvalid heof
        exact Or.inr ⟨w, w', lexeme, _, _, hw, hw', hlex, by rw [← hs', ← hs], h⟩
      · obtain ⟨w, hw, hs⟩ := lexScan_is_sign hclose
        cases h
        exact Or.inl ⟨w, hw, hs, rfl⟩
  | _ => simp [parseMembers] at h

theorem reads_succ {fuel : ℕ} (ih : Reads strtod valid limit fuel) :
    Reads strtod valid limit (fuel + 1) where
  value := by
    intro depth token s j rest lexeme d h hlex hd
    obtain ⟨hdeep, hcases⟩ := parseValue_cases h
    obtain ⟨d, rfl⟩ : ∃ n, d = n + 1 := ⟨d - 1, by omega⟩
    rcases hcases with ⟨hscalar, rfl⟩ | ⟨rfl, hobject⟩ | ⟨rfl, harray⟩
    · exact ⟨[], rfl, by rw [List.append_nil]; exact .scalar hlex hscalar⟩
    · cases hlex
      exact ih.object hobject (by omega)
    · cases hlex
      exact ih.array harray (by omega)
  object := by
    intro depth s j rest d h hd
    rcases parseObject_cases h with ⟨w, hw, rfl, rfl⟩ | ⟨w, lexeme, token, s', hw, hlex, rfl, hread⟩
    · exact ⟨w ++ ['\x7d'], by simp, .emptyObject hw⟩
    · obtain ⟨m, t, rfl, rfl, hm⟩ := ih.members hread hlex hd
      refine ⟨w ++ lexeme ++ t ++ ['\x7d'], by simp, ?_⟩
      exact .object (hm w hw)
  members := by
    intro depth obj token s j rest lexeme d h hlex hd
    obtain ⟨key, w₁, w₂, lexeme₂, token₂, s₂, value, s₁, rfl, hnul, hw₁, hw₂, hlex₂, rfl, hvalue,
      hnext⟩ := parseMembers_cases h
    cases hlex with
    | string hq =>
    have hkey := KeyText.mk hq hnul
    obtain ⟨t, rfl, ht⟩ := ih.value hvalue hlex₂ hd
    rcases hnext with
      ⟨w', hw', rfl, rfl⟩ | ⟨w', w₃, lexeme₃, token₃, s₃, hw', hw₃, hlex₃, rfl, hread⟩
    · refine ⟨[(String.ofList key, value)], w₁ ++ ':' :: (w₂ ++ lexeme₂ ++ t ++ w'), by simp, rfl,
        fun w hw => ?_⟩
      have h := Denotes.member (.keyed hw hkey hw₁ (.padded hw₂ ht hw'))
      simpa only [List.append_assoc] using h
    · obtain ⟨m, t₃, rfl, rfl, hm⟩ := ih.members hread hlex₃ hd
      refine ⟨(String.ofList key, value) :: m, w₁ ++ ':' :: (w₂ ++ lexeme₂ ++ t ++ w' ++
        ',' :: (w₃ ++ lexeme₃ ++ t₃)), by simp, rfl, fun w hw => ?_⟩
      have h := Denotes.members (.keyed hw hkey hw₁ (.padded hw₂ ht hw')) (hm w₃ hw₃)
      simpa only [List.append_assoc, List.cons_append] using h
  array := by
    intro depth s j rest d h hd
    rcases parseArray_cases h with ⟨w, hw, rfl, rfl⟩ | ⟨w, lexeme, token, s', hw, hlex, rfl, hread⟩
    · exact ⟨w ++ [']'], by simp, .emptyArray hw⟩
    · obtain ⟨l, t, rfl, rfl, hl⟩ := ih.items hread hlex hd
      refine ⟨w ++ lexeme ++ t ++ [']'], by simp, ?_⟩
      exact .array (hl w hw)
  items := by
    intro depth array token s j rest lexeme d h hlex hd
    obtain ⟨elem, s₁, hvalue, hnext⟩ := parseItems_cases h
    obtain ⟨t, rfl, ht⟩ := ih.value hvalue hlex hd
    rcases hnext with
      ⟨w', hw', rfl, rfl⟩ | ⟨w', w₂, lexeme₂, token₂, s₂, hw', hw₂, hlex₂, rfl, hread⟩
    · refine ⟨[elem], t ++ w', by simp, rfl, fun w hw => ?_⟩
      have h := Denotes.item (.padded hw ht hw')
      simpa only [List.append_assoc] using h
    · obtain ⟨l, t₂, rfl, rfl, hl⟩ := ih.items hread hlex₂ hd
      refine ⟨elem :: l, t ++ w' ++ ',' :: (w₂ ++ lexeme₂ ++ t₂), by simp, by simp,
        fun w hw => ?_⟩
      have h := Denotes.items (.padded hw ht hw') (hl w₂ hw₂)
      simpa only [List.append_assoc] using h

theorem reads (fuel : ℕ) : Reads strtod valid limit fuel := by
  induction fuel with
  | zero => exact reads_zero
  | succ fuel ih => exact reads_succ ih

theorem container_of_start {d : ℕ} {j : Json} {c : Char}
    (h : Denotes strtod d (.value j) (c :: s))
    (hc : c = '[' ∨ c = '\x7b') : (∃ l, j = .arr l) ∨ ∃ m, j = .obj m := by
  have hsign : c ∈ ['\x7b', '\x7d', '[', ']', ':', ','] := by
    rcases hc with rfl | rfl <;> decide
  generalize htext : c :: s = text at h
  cases h with
  | scalar hlex hscalar =>
    exfalso
    subst htext
    have hscan : lexScan strtod true (c :: s ++ []) = (_, []) :=
      lexScan_lexeme hlex (by rintro d ⟨⟩)
    rw [List.append_nil, lexScan_sign hsign] at hscan
    obtain ⟨rfl, -⟩ := Prod.mk.inj hscan
    cases hscalar
  | emptyArray => exact Or.inl ⟨_, rfl⟩
  | array => exact Or.inl ⟨_, rfl⟩
  | emptyObject => exact Or.inr ⟨_, rfl⟩
  | object => exact Or.inr ⟨_, rfl⟩

theorem document_of_parseJson {j : Json} (h : parseJson strtod valid maxDepth s = some j) :
    valid = true ∧ Document strtod j s := by
  simp only [parseJson] at h
  split_ifs at h with hstart
  cases hvalue : parseValue strtod valid maxDepth (2 * s.length + 1) 0 (lexScan strtod valid s).1
      (lexScan strtod valid s).2 with
  | none => simp [hvalue] at h
  | some r =>
    obtain ⟨result, s'⟩ := r
    simp only [hvalue] at h
    split_ifs at h with hend
    cases h
    obtain ⟨rfl, hw'⟩ := lexScan_eof (Prod.ext (not_not.mp hend) rfl)
    obtain ⟨c, hc, hsign⟩ :
        ∃ c, (c = '[' ∨ c = '\x7b') ∧ (lexScan strtod true s).1 = .sign c := by
      by_cases hbracket : (lexScan strtod true s).1 = .sign '['
      · exact ⟨_, Or.inl rfl, hbracket⟩
      · by_cases hbrace : (lexScan strtod true s).1 = .sign '\x7b'
        · exact ⟨_, Or.inr rfl, hbrace⟩
        · exact absurd ⟨hbracket, hbrace⟩ hstart
    obtain ⟨w, hw, hs⟩ := lexScan_is_sign hsign
    rw [hsign] at hvalue
    obtain ⟨t, ht, hdenotes⟩ := (reads _).value hvalue (.sign (c := c) (by
      rcases hc with rfl | rfl <;> decide)) (Nat.zero_add maxDepth)
    refine ⟨rfl, container_of_start hdenotes hc, w, _, s', ?_, hw, hw', hdenotes⟩
    rw [hs, ht]
    simp

end Sound

/-- The library accepts the documents of the grammar and no other text, each as its value. -/
theorem jsonLoads_eq_some_iff (strtod : CStr → Option Double) (string : CStr) (j : Json) :
    jsonLoads strtod string = some j ↔
      utf8CheckString string = true ∧ Document strtod j string := by
  unfold jsonLoads
  constructor
  · intro h
    obtain ⟨hvalid, hdoc⟩ := document_of_parseJson h
    rw [streamBytes_eq hvalid] at hdoc
    exact ⟨hvalid, hdoc⟩
  · rintro ⟨hvalid, hdoc⟩
    rw [hvalid, streamBytes_eq hvalid]
    exact parseJson_of_document hdoc

end Afly.Load
