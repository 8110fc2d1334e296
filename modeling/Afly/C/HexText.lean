import Afly.C.Hex

/-! # What hex strings denote

The strings that denote some bytes, and the bytes that `hex_parse` has written
when it returns. It accepts exactly the strings that denote bytes its array has
room for. Where it fails, the bytes read so far are in the array all the same.
-/

namespace Afly

/-- The string denotes the bytes, with the delimiter, if any, after each byte but the last. -/
inductive HexText (delim : Option Char) : CStr → List ℕ → Prop
  | last {high low : Char} {h l : ℕ} (hh : hexAsciiToNibble high = some h)
      (hl : hexAsciiToNibble low = some l) : HexText delim [high, low] [16 * h + l]
  | more {high low : Char} {h l : ℕ} {str : CStr} {bytes : List ℕ}
      (hh : hexAsciiToNibble high = some h) (hl : hexAsciiToNibble low = some l)
      (hs : HexText delim str bytes) :
      HexText delim (high :: low :: (delim.toList ++ str)) ((16 * h + l) :: bytes)

/-- The string denotes the bytes, with some delimiter that is no hex digit or with none. -/
def HexDenotes (str : CStr) (bytes : List ℕ) : Prop :=
  ∃ delim : Option Char, (∀ d ∈ delim, hexAsciiToNibble d = none) ∧ HexText delim str bytes

/-- The checks of `hex_parse_n` in front of its loop: the delimiter, or nothing where it returns. -/
def hexShape (size : ℕ) (str : CStr) : Option (Option Char) :=
  if str.length < 2 then none
  else
    let delim :=
      if str.length > 4 then str[2]?.filter fun c => (hexAsciiToNibble c).isNone else none
    let misfit : Bool := match delim with
      | some _ => (str.length - 2) % 3 ≠ 0 ∨ size < (str.length - 2) / 3 + 1
      | none => str.length % 2 ≠ 0 ∨ size < str.length / 2
    if misfit then none else some delim

/-- The bytes that the loop of `hex_parse_n` writes before it ends, well or not. -/
def hexLoopWritten (delim : Option Char) : ℕ → CStr → List ℕ
  | 0, _ => []
  | room + 1, str =>
    match hexParseByte str with
    | none => []
    | some (byte, str) =>
      byte :: if str = [] then []
        else match delim with
          | none => hexLoopWritten delim room str
          | some d => if str.head? = some d then hexLoopWritten delim room str.tail else []

/-- The bytes that `hex_parse` writes to the front of an array. -/
def hexWritten (size : ℕ) (str : CStr) : List ℕ :=
  match hexShape size str with
  | none => []
  | some delim => hexLoopWritten delim size str

section Spec

variable {delim : Option Char} {size room : ℕ} {str : CStr} {bytes : List ℕ}

theorem hexParse_eq : hexParse size str =
    (hexShape size str).bind fun delim => hexLoop delim size str := by
  unfold hexParse hexShape
  dsimp only
  split
  · rfl
  · generalize (if str.length > 4 then
      str[2]?.filter fun c => (hexAsciiToNibble c).isNone else none) = delim
    cases delim <;> (dsimp only; split <;> rfl)

theorem hexParseByte_eq_some_iff {byte : ℕ} {rest : CStr} :
    hexParseByte str = some (byte, rest) ↔ ∃ high low h l, str = high :: low :: rest ∧
      hexAsciiToNibble high = some h ∧ hexAsciiToNibble low = some l ∧ byte = 16 * h + l := by
  constructor
  · intro hb
    match str with
    | [] | [_] => cases hb
    | high :: low :: rest' =>
      obtain ⟨h, hh, hb⟩ := Option.bind_eq_some_iff.mp hb
      obtain ⟨l, hl, hb⟩ := Option.bind_eq_some_iff.mp hb
      cases hb
      exact ⟨high, low, h, l, rfl, hh, hl, rfl⟩
  · rintro ⟨high, low, h, l, rfl, hh, hl, rfl⟩
    simp [hexParseByte, hh, hl]

theorem HexText.ne_nil (h : HexText delim str bytes) : str ≠ [] := by
  cases h <;> simp

theorem HexText.length_pos (h : HexText delim str bytes) : 0 < bytes.length := by
  cases h <;> simp

theorem HexText.length_eq (h : HexText delim str bytes) :
    str.length = 2 * bytes.length + delim.toList.length * (bytes.length - 1) := by
  induction h with
  | last => simp
  | more _ _ hs ih =>
    have hpos := hs.length_pos
    obtain ⟨n, hn⟩ := Nat.exists_eq_add_of_lt hpos
    simp only [List.length_cons, List.length_append, ih]
    rw [hn]
    simp only [Nat.zero_add, Nat.add_sub_cancel]
    ring

theorem hexLoop_eq_some_iff : hexLoop delim room str = some bytes ↔
    HexText delim str bytes ∧ bytes.length ≤ room := by
  induction room generalizing str bytes with
  | zero =>
    refine iff_of_false (by rintro ⟨⟩) ?_
    rintro ⟨h, hle⟩
    exact absurd h.length_pos (by omega)
  | succ room ih =>
    constructor
    · intro h
      rw [hexLoop] at h
      obtain ⟨⟨byte, rest⟩, hb, h⟩ := Option.bind_eq_some_iff.mp h
      obtain ⟨high, low, x, l, rfl, hh, hl, rfl⟩ := hexParseByte_eq_some_iff.mp hb
      dsimp only at h
      split_ifs at h with hnil
      · cases h
        subst hnil
        exact ⟨.last hh hl, Nat.succ_le_succ (Nat.zero_le _)⟩
      · cases delim with
        | none =>
          obtain ⟨bytes', h', rfl⟩ := Option.map_eq_some_iff.mp h
          obtain ⟨ht, hle⟩ := ih.mp h'
          exact ⟨.more hh hl ht, Nat.succ_le_succ hle⟩
        | some d =>
          dsimp only at h
          split_ifs at h with hd
          obtain ⟨bytes', h', rfl⟩ := Option.map_eq_some_iff.mp h
          obtain ⟨ht, hle⟩ := ih.mp h'
          obtain ⟨rest', rfl⟩ := List.head?_eq_some_iff.mp hd
          exact ⟨.more hh hl ht, Nat.succ_le_succ hle⟩
    · rintro ⟨ht, hle⟩
      rw [hexLoop]
      cases ht with
      | last hh hl =>
        rw [hexParseByte_eq_some_iff.mpr ⟨_, _, _, _, rfl, hh, hl, rfl⟩]
        rfl
      | @more _ _ _ _ rest bytes' hh hl hs =>
        have hrec := ih.mpr ⟨hs, Nat.le_of_succ_le_succ hle⟩
        rw [hexParseByte_eq_some_iff.mpr ⟨_, _, _, _, rfl, hh, hl, rfl⟩]
        simp only [Option.bind_eq_bind, Option.bind_some]
        have hne : delim.toList ++ rest ≠ [] := by simp [hs.ne_nil]
        rw [if_neg hne]
        cases delim <;> simp [hrec]

theorem hexLoopWritten_of_hexLoop (h : hexLoop delim room str = some bytes) :
    hexLoopWritten delim room str = bytes := by
  induction room generalizing str bytes with
  | zero => cases h
  | succ room ih =>
    rw [hexLoop] at h
    obtain ⟨⟨byte, rest⟩, hb, h⟩ := Option.bind_eq_some_iff.mp h
    rw [hexLoopWritten, hb]
    dsimp only at h ⊢
    split_ifs at h ⊢
    · cases h
      rfl
    · cases delim with
      | none =>
        obtain ⟨bytes', h', rfl⟩ := Option.map_eq_some_iff.mp h
        exact congrArg _ (ih h')
      | some d =>
        dsimp only at h ⊢
        split_ifs at h ⊢
        obtain ⟨bytes', h', rfl⟩ := Option.map_eq_some_iff.mp h
        exact congrArg _ (ih h')

theorem hexWritten_of_hexParse (h : hexParse size str = some bytes) :
    hexWritten size str = bytes := by
  rw [hexParse_eq] at h
  obtain ⟨delim, hs, hl⟩ := Option.bind_eq_some_iff.mp h
  rw [hexWritten, hs]
  exact hexLoopWritten_of_hexLoop hl

theorem hexShape_delim (h : hexShape size str = some delim) :
    ∀ d ∈ delim, hexAsciiToNibble d = none := by
  unfold hexShape at h
  dsimp only at h
  intro d hd
  split_ifs at h with hlen hlong <;> cases h
  · exact Option.isNone_iff_eq_none.mp (Option.mem_filter_iff.mp hd).2
  · cases hd

theorem hexShape_of_hexText (hdelim : ∀ d ∈ delim, hexAsciiToNibble d = none)
    (ht : HexText delim str bytes) (hle : bytes.length ≤ size) (hmany : 3 ≤ bytes.length) :
    hexShape size str = some delim := by
  have hlen := ht.length_eq
  have hdelim' : str[2]?.filter (fun c => (hexAsciiToNibble c).isNone) = delim := by
    cases ht with
    | last => simp at hmany
    | more hh hl hs =>
      cases delim with
      | none => cases hs <;> simp [Option.filter, *]
      | some d => simp [Option.filter, hdelim d rfl]
  have hge : ¬ str.length < 2 := by omega
  have hgt : str.length > 4 := by omega
  unfold hexShape
  rw [if_neg hge]
  dsimp only
  rw [if_pos hgt, hdelim', if_neg]
  cases delim with
  | none =>
    simp only [Option.toList_none, List.length_nil, Nat.zero_mul] at hlen
    simp only [ne_eq, decide_eq_true_eq, not_or]
    omega
  | some d =>
    simp only [Option.toList_some, List.length_singleton, Nat.one_mul] at hlen
    simp only [ne_eq, decide_eq_true_eq, not_or]
    omega

theorem hexParse_eq_some_iff (hle : bytes.length ≤ size) (hmany : 3 ≤ bytes.length) :
    hexParse size str = some bytes ↔ HexDenotes str bytes := by
  rw [hexParse_eq]
  constructor
  · intro h
    obtain ⟨delim, hs, hl⟩ := Option.bind_eq_some_iff.mp h
    exact ⟨delim, hexShape_delim hs, (hexLoop_eq_some_iff.mp hl).1⟩
  · rintro ⟨delim, hd, ht⟩
    rw [hexShape_of_hexText hd ht hle hmany, Option.bind_some]
    exact hexLoop_eq_some_iff.mpr ⟨ht, hle⟩

end Spec

end Afly
