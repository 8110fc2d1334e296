import Mathlib.Data.List.TakeWhile
import Mathlib.Tactic

/-! # C integers and strings

An `int` is an integer kept in 32 bits; a C string is the list of its bytes
before the terminator, one `Char` a byte. `atoi` and the `%d` conversion follow
`strtol` with base ten, which on the target clamps to the range of `int`.
-/

namespace Afly

/-- The bytes of a C string before its terminator. -/
abbrev CStr := List Char

abbrev nul : Char := '\x00'

def intMax : ℤ := 2147483647
def intMin : ℤ := -2147483648

/-- The value a 32-bit `int` keeps of an integer. -/
def int32 (n : ℤ) : ℤ := Int.bmod n (2 ^ 32)

theorem int32_eq_self {n : ℤ} (hl : intMin ≤ n) (hu : n ≤ intMax) : int32 n = n := by
  unfold intMin at hl
  unfold intMax at hu
  rw [int32, Int.bmod_eq_emod]
  split <;> omega

theorem int32_range (n : ℤ) : intMin ≤ int32 n ∧ int32 n ≤ intMax := by
  rw [int32, Int.bmod_eq_emod, intMin, intMax]
  split <;> omega

def cstr (buf : List Char) : CStr := buf.takeWhile (· ≠ nul)

theorem mem_cstr {l : List Char} {c : Char} (h : c ∈ cstr l) : c ≠ nul := by
  have hc := List.mem_takeWhile_imp h
  exact of_decide_eq_true hc

theorem cstr_append {s : CStr} {l : List Char} (hs : ∀ c ∈ s, c ≠ nul) :
    cstr (s ++ l) = s ++ cstr l := by
  induction s with
  | nil => rfl
  | cons c s ih =>
    have hc := hs c List.mem_cons_self
    rw [List.cons_append, cstr, List.takeWhile_cons_of_pos (by simpa using hc), ← cstr,
      ih fun c hc => hs c (List.mem_cons_of_mem _ hc), List.cons_append]

theorem cstr_append_nul {s : CStr} (h : nul ∉ s) (rest : List Char) :
    cstr (s ++ nul :: rest) = s := by
  rw [cstr_append fun c hc he => h (he ▸ hc)]
  simp [cstr]

def isspace (c : Char) : Bool := c = ' ' || ('\t' ≤ c && c ≤ '\r')

/-- Clamp to the range of `int`, as `strtol` does where `long` has 32 bits. -/
def clampInt (n : ℤ) : ℤ := max intMin (min intMax n)

theorem clampInt_eq_self {n : ℤ} (hl : intMin ≤ n) (hu : n ≤ intMax) : clampInt n = n := by
  rw [clampInt, min_eq_right hu, max_eq_right hl]

theorem clampInt_natCast {n : ℕ} (hu : (n : ℤ) ≤ intMax) : clampInt n = n :=
  clampInt_eq_self (le_trans (by decide) n.cast_nonneg) hu

/-- The digits of a `%d` conversion, with the sign already read. -/
def scanDigits (neg : Bool) (s : CStr) : Option (ℤ × CStr) :=
  match s.takeWhile Char.isDigit with
  | [] => none
  | d :: ds =>
    let n : ℤ := Nat.ofDigitChars 10 (d :: ds) 0
    some (clampInt (if neg then -n else n), s.dropWhile Char.isDigit)

/-- One `%d` conversion: the value and the rest of the input, or no match. -/
def scanInt (s : CStr) : Option (ℤ × CStr) :=
  match s.dropWhile isspace with
  | '-' :: t => scanDigits true t
  | '+' :: t => scanDigits false t
  | t => scanDigits false t

def atoi (s : CStr) : ℤ :=
  match scanInt s with
  | some (n, _) => n
  | none => 0

/-- `sscanf(s, "%d,%d", &a, &b)` with `a` and `b` zero before: the result, `a` and `b`. -/
def sscanfPair (s : CStr) : ℤ × ℤ × ℤ :=
  if s.dropWhile isspace = [] then (-1, 0, 0)
  else match scanInt s with
    | none => (0, 0, 0)
    | some (a, ',' :: t) =>
      match scanInt t with
      | none => (1, a, 0)
      | some (b, _) => (2, a, b)
    | some (a, _) => (1, a, 0)

/-- `sprintf(buf, "%d", n)`. -/
def sprintfInt (n : ℤ) : CStr :=
  if n < 0 then '-' :: Nat.toDigits 10 n.natAbs else Nat.toDigits 10 n.natAbs

/-- `snprintf(buf, len + 1, "%s", s)`: at most `len` bytes, a negative length being a huge size. -/
def snprintfStr (len : ℤ) (s : CStr) : CStr :=
  if 0 ≤ len then s.take len.toNat else s

theorem clampInt_range (n : ℤ) : intMin ≤ clampInt n ∧ clampInt n ≤ intMax := by
  rw [clampInt, intMin, intMax]
  omega

theorem scanDigits_range {neg : Bool} {s t : CStr} {n : ℤ} (h : scanDigits neg s = some (n, t)) :
    intMin ≤ n ∧ n ≤ intMax := by
  unfold scanDigits at h
  split at h
  · cases h
  · cases h; exact clampInt_range _

theorem scanInt_range {s t : CStr} {n : ℤ} (h : scanInt s = some (n, t)) :
    intMin ≤ n ∧ n ≤ intMax := by
  unfold scanInt at h
  split at h <;> exact scanDigits_range h

theorem atoi_range (s : CStr) : intMin ≤ atoi s ∧ atoi s ≤ intMax := by
  unfold atoi
  split
  · rename_i h; exact scanInt_range h
  · decide

theorem takeWhile_toDigits (n : ℕ) :
    (Nat.toDigits 10 n).takeWhile Char.isDigit = Nat.toDigits 10 n :=
  List.takeWhile_eq_self_iff.mpr fun _ hc =>
    Nat.isDigit_of_mem_toDigits (by decide) (by decide) hc

theorem scanDigits_toDigits (neg : Bool) (n : ℕ) :
    ∃ t, scanDigits neg (Nat.toDigits 10 n) =
      some (clampInt (if neg then -(n : ℤ) else n), t) := by
  unfold scanDigits
  rw [takeWhile_toDigits]
  have hn := Nat.ofDigitChars_ten_toDigits (n := n)
  cases hd : Nat.toDigits 10 n with
  | nil => exact absurd hd Nat.toDigits_ne_nil
  | cons d ds =>
    rw [hd] at hn
    exact ⟨_, by simp only [hn]; rfl⟩

theorem isspace_of_isDigit {c : Char} (hc : c.isDigit = true) : isspace c = false := by
  simp only [Char.isDigit, Bool.and_eq_true, decide_eq_true_eq] at hc
  simp only [isspace, Bool.or_eq_false_iff, Bool.and_eq_false_imp, decide_eq_true_eq,
    decide_eq_false_iff_not]
  constructor
  · rintro rfl; exact absurd hc.1 (by decide)
  · intro _ h
    exact absurd (UInt32.le_trans hc.1 h) (by decide)

theorem scanInt_of_digit {c : Char} {s : CStr} (hc : c.isDigit = true) :
    scanInt (c :: s) = scanDigits false (c :: s) := by
  have hs := isspace_of_isDigit hc
  have hm : c ≠ '-' := by rintro rfl; exact absurd hc (by decide)
  have hp : c ≠ '+' := by rintro rfl; exact absurd hc (by decide)
  unfold scanInt
  rw [List.dropWhile_cons_of_neg (by simp [hs])]
  split
  · rename_i h; exact absurd (List.cons.inj h).1 hm
  · rename_i h; exact absurd (List.cons.inj h).1 hp
  · rfl

theorem atoi_eq {s t : CStr} {n : ℤ} (h : scanInt s = some (n, t)) : atoi s = n := by
  rw [atoi, h]

theorem atoi_sprintfInt {n : ℤ} (hl : intMin ≤ n) (hu : n ≤ intMax) : atoi (sprintfInt n) = n := by
  rcases lt_or_ge n 0 with hneg | hpos
  · obtain ⟨t, ht⟩ := scanDigits_toDigits true n.natAbs
    have hn : -(n.natAbs : ℤ) = n := by omega
    rw [if_pos rfl, hn, clampInt_eq_self hl hu] at ht
    rw [sprintfInt, if_pos hneg]
    exact atoi_eq (s := '-' :: Nat.toDigits 10 n.natAbs) ht
  · obtain ⟨t, ht⟩ := scanDigits_toDigits false n.natAbs
    have hn : (n.natAbs : ℤ) = n := by omega
    rw [if_neg (by simp), hn, clampInt_eq_self hl hu] at ht
    rw [sprintfInt, if_neg (by omega)]
    cases hd : Nat.toDigits 10 n.natAbs with
    | nil => exact absurd hd Nat.toDigits_ne_nil
    | cons d ds =>
      have hdig : d.isDigit = true :=
        Nat.isDigit_of_mem_toDigits (b := 10) (n := n.natAbs) (by decide) (by decide)
          (by rw [hd]; exact List.mem_cons_self)
      rw [hd] at ht
      exact atoi_eq (scanInt_of_digit hdig ▸ ht)

end Afly
