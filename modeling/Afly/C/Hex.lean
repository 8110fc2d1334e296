import Afly.C.Text

/-! # Hex strings

`hex_parse` reads the bytes of a hex string, with or without a delimiter after
each byte, into an array of a given size. It reads no character behind the end
of the string and writes no byte behind the end of the array. `hex_string`
writes bytes as such a string.
-/

namespace Afly

def hexAsciiToNibble (c : Char) : Option ℕ :=
  if '0' ≤ c ∧ c ≤ '9' then some (c.toNat - '0'.toNat)
  else if 'A' ≤ c ∧ c ≤ 'F' then some (c.toNat - 'A'.toNat + 10)
  else if 'a' ≤ c ∧ c ≤ 'f' then some (c.toNat - 'a'.toNat + 10)
  else none

/-- The byte of the first two characters, and the rest of the string. -/
def hexParseByte : CStr → Option (ℕ × CStr)
  | high :: low :: str => do
    let h ← hexAsciiToNibble high
    let l ← hexAsciiToNibble low
    some (16 * h + l, str)
  | _ => none

/-- The loop of `hex_parse_n` with room for some more bytes. -/
def hexLoop (delim : Option Char) : ℕ → CStr → Option (List ℕ)
  | 0, _ => none
  | room + 1, str => do
    let (byte, str) ← hexParseByte str
    if str = [] then some [byte]
    else match delim with
      | none => (hexLoop delim room str).map (byte :: ·)
      | some d =>
        if str.head? = some d then (hexLoop delim room str.tail).map (byte :: ·) else none

/-- `hex_parse`: the bytes, or nothing where it returns -1. -/
def hexParse (size : ℕ) (str : CStr) : Option (List ℕ) :=
  if str.length < 2 then none
  else
    let delim :=
      if str.length > 4 then str[2]?.filter fun c => (hexAsciiToNibble c).isNone else none
    let misfit : Bool := match delim with
      | some _ => (str.length - 2) % 3 ≠ 0 ∨ size < (str.length - 2) / 3 + 1
      | none => str.length % 2 ≠ 0 ∨ size < str.length / 2
    if misfit then none else hexLoop delim size str

def hexNibbleToAscii (nibble : ℕ) (upper : Bool) : Char :=
  if nibble % 16 < 10 then Char.ofNat (nibble % 16 + '0'.toNat)
  else Char.ofNat (nibble % 16 - 10 + (if upper then 'A' else 'a').toNat)

def hexByte (upper : Bool) (byte : ℕ) : CStr :=
  [hexNibbleToAscii (byte / 16) upper, hexNibbleToAscii byte upper]

/-- The loop of `hex_string`. -/
def hexBytes (upper : Bool) (delim : Option Char) : List ℕ → CStr
  | [] => []
  | byte :: data =>
    hexByte upper byte ++ (if data = [] then [] else delim.toList) ++ hexBytes upper delim data

/-- `hex_string`: the string, or nothing where it returns -1. The length of no bytes with a
delimiter wraps around. -/
def hexString (size : ℕ) (data : List ℕ) (upper : Bool) (delim : Option Char) : Option CStr :=
  let len := data.length * 2 + if delim.isSome then data.length - 1 else 0
  if size ≤ len ∨ (delim.isSome ∧ data = []) then none else some (hexBytes upper delim data)

theorem hexAsciiToNibble_hexNibbleToAscii (nibble : ℕ) (upper : Bool) :
    hexAsciiToNibble (hexNibbleToAscii nibble upper) = some (nibble % 16) := by
  have hall : ∀ n : Fin 16, ∀ u : Bool, hexAsciiToNibble (hexNibbleToAscii n u) = some n.val := by
    decide
  have hn := hall ⟨nibble % 16, Nat.mod_lt _ (by decide)⟩ upper
  rwa [hexNibbleToAscii, Nat.mod_mod] at hn

theorem hexBytes_cons (upper : Bool) (byte : ℕ) (data : List ℕ) :
    hexBytes upper none (byte :: data) = hexByte upper byte ++ hexBytes upper none data := by
  rw [hexBytes, Option.toList_none, ite_self, List.append_nil]

theorem isSome_of_mem_hexBytes {data : List ℕ} {upper : Bool} {c : Char}
    (h : c ∈ hexBytes upper none data) : (hexAsciiToNibble c).isSome := by
  have hbyte {byte : ℕ} (h : c ∈ hexByte upper byte) : (hexAsciiToNibble c).isSome := by
    simp only [hexByte, List.mem_cons, List.not_mem_nil, or_false] at h
    rcases h with rfl | rfl <;> (rw [hexAsciiToNibble_hexNibbleToAscii]; rfl)
  induction data with
  | nil => cases h
  | cons byte data ih =>
    rw [hexBytes_cons] at h
    rcases List.mem_append.mp h with h | h
    · exact hbyte h
    · exact ih h

theorem hexParseByte_hexByte {byte : ℕ} (h : byte < 256) (upper : Bool) (str : CStr) :
    hexParseByte (hexByte upper byte ++ str) = some (byte, str) := by
  have hbyte : 16 * (byte / 16 % 16) + byte % 16 = byte := by omega
  simp only [hexByte, List.cons_append, List.nil_append, hexParseByte,
    hexAsciiToNibble_hexNibbleToAscii, Option.bind_eq_bind, Option.bind_some, hbyte]

theorem hexLoop_hexBytes {data : List ℕ} (upper : Bool) (hne : data ≠ [])
    (h : ∀ byte ∈ data, byte < 256) :
    hexLoop none data.length (hexBytes upper none data) = some data := by
  induction data with
  | nil => exact absurd rfl hne
  | cons byte data ih =>
    have hbyte := hexParseByte_hexByte (h byte List.mem_cons_self) upper
    rw [hexBytes_cons, List.length_cons, hexLoop, hbyte]
    simp only [Option.bind_eq_bind, Option.bind_some]
    cases data with
    | nil => rfl
    | cons next data =>
      have hrest := ih (by simp) (fun b hb => h b (List.mem_cons_of_mem _ hb))
      have hnil : hexBytes upper none (next :: data) ≠ [] := by simp [hexBytes, hexByte]
      rw [if_neg hnil, hrest, Option.map_some]

theorem hexBytes_inj {data data' : List ℕ} {upper : Bool} (hlen : data.length = data'.length)
    (h : ∀ byte ∈ data, byte < 256) (h' : ∀ byte ∈ data', byte < 256)
    (he : hexBytes upper none data = hexBytes upper none data') : data = data' := by
  by_cases hne : data = []
  · subst hne
    exact (List.length_eq_zero_iff.mp hlen.symm).symm
  · have hne' : data' ≠ [] := by
      rintro rfl
      exact hne (List.length_eq_zero_iff.mp hlen)
    have hr := hexLoop_hexBytes upper hne h
    have hr' := hexLoop_hexBytes upper hne' h'
    rw [he, hlen, hr'] at hr
    exact (Option.some.inj hr).symm

example : hexParse 64 "2a:0B:ff".toList = some [42, 11, 255] := by decide

end Afly
