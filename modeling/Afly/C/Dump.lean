import Afly.C.Utf8

/-! # JSON values as texts

`json_dumps` without flags, as `dump.c` has it: a blank after every comma and
colon, and escapes for quotes, backslashes and control characters only. The
length of the text is a sum over the value.
-/

namespace Afly

def quote : Char := '\x22'
def backslash : Char := '\x5C'

/-- What `dump_string` writes for a byte. Of UTF-8, only single bytes are escaped. -/
def dumpByte (c : Char) : CStr :=
  if c = backslash then [backslash, backslash]
  else if c = quote then [backslash, quote]
  else if c = '\x08' then [backslash, 'b']
  else if c = '\x0C' then [backslash, 'f']
  else if c = '\n' then [backslash, 'n']
  else if c = '\r' then [backslash, 'r']
  else if c = '\t' then [backslash, 't']
  else if c.toNat < 0x20 then
    [backslash, 'u', '0', '0', Nat.digitChar (c.toNat / 16), (Nat.digitChar (c.toNat % 16)).toUpper]
  else [c]

def dumpQuoted (s : CStr) : CStr := quote :: s.flatMap dumpByte ++ [quote]

/-- `dump_string`, which fails on bytes that are not UTF-8. -/
def dumpString (s : CStr) : Option CStr :=
  if utf8CheckString s then some (dumpQuoted s) else none

section Dump

-- What `jsonp_dtostr` makes of a real number. The buffer of `do_dump` is long enough for each.
variable (dtostr : Double → CStr)

mutual

/-- `do_dump`. The keys of an object are UTF-8. -/
def doDump : Json → Option CStr
  | .null => some "null".toList
  | .bool b => some (if b then "true".toList else "false".toList)
  | .int n => some (sprintfInt n)
  | .real value => some (dtostr value)
  | .str s => dumpString s
  | .arr l => (dumpItems l).map fun t => '[' :: t ++ [']']
  | .obj m => (dumpMembers m).map fun t => '\x7b' :: t ++ ['\x7d']

def dumpItems : List Json → Option CStr
  | [] => some []
  | [j] => doDump j
  | j :: l => do
    let t ← doDump j
    let rest ← dumpItems l
    some (t ++ ", ".toList ++ rest)

def dumpMembers : List (String × Json) → Option CStr
  | [] => some []
  | [(key, value)] => (doDump value).map fun t => dumpQuoted key.toList ++ ": ".toList ++ t
  | (key, value) :: m => do
    let t ← doDump value
    let rest ← dumpMembers m
    some (dumpQuoted key.toList ++ ": ".toList ++ t ++ ", ".toList ++ rest)

end

/-- `json_dumps(json, 0)`, which takes arrays and objects only. -/
def jsonDumps : Json → Option CStr
  | .arr l => doDump dtostr (.arr l)
  | .obj m => doDump dtostr (.obj m)
  | _ => none

/-- How many bytes `dump_string` writes for a byte. -/
def byteWidth (c : Char) : ℕ :=
  if c ∈ [backslash, quote, '\x08', '\x0C', '\n', '\r', '\t'] then 2
  else if c.toNat < 0x20 then 6 else 1

def quotedWidth (s : CStr) : ℕ := (s.map byteWidth).sum + 2

mutual

/-- How many bytes the text of a value has. -/
def Json.width : Json → ℕ
  | .null => 4
  | .bool b => if b then 4 else 5
  | .int n => (sprintfInt n).length
  | .real value => (dtostr value).length
  | .str s => quotedWidth s
  | .arr l => itemsWidth l + 2 * (l.length - 1) + 2
  | .obj m => membersWidth m + 2 * (m.length - 1) + 2

/-- The items of an array without what is between them. -/
def itemsWidth : List Json → ℕ
  | [] => 0
  | j :: l => j.width + itemsWidth l

def membersWidth : List (String × Json) → ℕ
  | [] => 0
  | (key, value) :: m => quotedWidth key.toList + 2 + value.width + membersWidth m

end

mutual

/-- All strings inside are UTF-8. -/
def Json.Utf8 : Json → Prop
  | .str s => utf8CheckString s = true
  | .arr l => ItemsUtf8 l
  | .obj m => MembersUtf8 m
  | .null | .bool _ | .int _ | .real _ => True

def ItemsUtf8 : List Json → Prop
  | [] => True
  | j :: l => j.Utf8 ∧ ItemsUtf8 l

def MembersUtf8 : List (String × Json) → Prop
  | [] => True
  | (_, value) :: m => value.Utf8 ∧ MembersUtf8 m

end

theorem dumpByte_length (c : Char) : (dumpByte c).length = byteWidth c := by
  unfold dumpByte byteWidth
  simp only [List.mem_cons, List.not_mem_nil, or_false]
  split_ifs <;> simp_all

theorem dumpQuoted_length (s : CStr) : (dumpQuoted s).length = quotedWidth s := by
  have hbytes : (s.flatMap dumpByte).length = (s.map byteWidth).sum := by
    rw [List.length_flatMap]
    exact congrArg List.sum (List.map_congr_left fun c _ => dumpByte_length c)
  rw [dumpQuoted, List.cons_append, List.length_cons, List.length_append, hbytes, quotedWidth]
  rfl

mutual

theorem doDump_length : ∀ {j : Json}, j.Utf8 →
    ∃ t, doDump dtostr j = some t ∧ t.length = j.width dtostr
  | .null, _ => ⟨_, rfl, rfl⟩
  | .bool b, _ => ⟨_, rfl, by cases b <;> rfl⟩
  | .int n, _ => ⟨_, rfl, rfl⟩
  | .real _, _ => ⟨_, rfl, rfl⟩
  | .str s, h => ⟨dumpQuoted s, if_pos h, dumpQuoted_length s⟩
  | .arr l, h => by
    obtain ⟨t, ht, hlen⟩ := dumpItems_length h
    refine ⟨_, by rw [doDump, ht, Option.map_some], ?_⟩
    simp [Json.width, hlen]
  | .obj m, h => by
    obtain ⟨t, ht, hlen⟩ := dumpMembers_length h
    refine ⟨_, by rw [doDump, ht, Option.map_some], ?_⟩
    simp [Json.width, hlen]

theorem dumpItems_length : ∀ {l : List Json}, ItemsUtf8 l →
    ∃ t, dumpItems dtostr l = some t ∧ t.length = itemsWidth dtostr l + 2 * (l.length - 1)
  | [], _ => ⟨[], rfl, rfl⟩
  | [j], h => by
    obtain ⟨t, ht, hlen⟩ := doDump_length h.1
    exact ⟨t, ht, by simp [itemsWidth, hlen]⟩
  | j :: j' :: l, h => by
    obtain ⟨t, ht, hlen⟩ := doDump_length h.1
    obtain ⟨rest, hrest, hlen'⟩ := dumpItems_length h.2
    refine ⟨t ++ ", ".toList ++ rest, by simp [dumpItems, ht, hrest], ?_⟩
    simp [hlen, hlen', itemsWidth]
    omega

theorem dumpMembers_length : ∀ {m : List (String × Json)}, MembersUtf8 m →
    ∃ t, dumpMembers dtostr m = some t ∧ t.length = membersWidth dtostr m + 2 * (m.length - 1)
  | [], _ => ⟨[], rfl, rfl⟩
  | [(key, value)], h => by
    obtain ⟨t, ht, hlen⟩ := doDump_length h.1
    refine ⟨_, by rw [dumpMembers, ht, Option.map_some], ?_⟩
    simp [membersWidth, hlen, dumpQuoted_length]
    omega
  | (key, value) :: p :: m, h => by
    obtain ⟨t, ht, hlen⟩ := doDump_length h.1
    obtain ⟨rest, hrest, hlen'⟩ := dumpMembers_length h.2
    refine ⟨dumpQuoted key.toList ++ ": ".toList ++ t ++ ", ".toList ++ rest,
      by simp [dumpMembers, ht, hrest], ?_⟩
    simp [hlen, hlen', membersWidth, dumpQuoted_length]
    omega

end

theorem membersWidth_perm {m m' : List (String × Json)} (h : m.Perm m') :
    membersWidth dtostr m = membersWidth dtostr m' := by
  have hsum (m : List (String × Json)) : membersWidth dtostr m =
      (m.map fun p => quotedWidth p.1.toList + 2 + p.2.width dtostr).sum := by
    induction m with
    | nil => rfl
    | cons p m ih => rw [membersWidth, ih, List.map_cons, List.sum_cons]
  rw [hsum, hsum]
  exact (h.map _).sum_eq

theorem Json.width_obj_perm {m m' : List (String × Json)} (h : m.Perm m') :
    (Json.obj m).width dtostr = (Json.obj m').width dtostr := by
  rw [Json.width, Json.width, membersWidth_perm dtostr h, h.length_eq]

theorem jsonDumps_length {j : Json} (h : j.Utf8)
    (hj : (∃ l, j = .arr l) ∨ ∃ m, j = .obj m) :
    ∃ t, jsonDumps dtostr j = some t ∧ t.length = j.width dtostr := by
  rcases hj with ⟨l, rfl⟩ | ⟨m, rfl⟩
  · exact doDump_length dtostr h
  · exact doDump_length dtostr h

end Dump

section Utf8

variable {m : List (String × Json)} {key : String} {s : CStr} {j : Json}

theorem membersUtf8_iff : MembersUtf8 m ↔ ∀ p ∈ m, p.2.Utf8 := by
  induction m with
  | nil => simp [MembersUtf8]
  | cons p m ih => rw [MembersUtf8, ih, List.forall_mem_cons]

theorem itemsUtf8_iff {l : List Json} : ItemsUtf8 l ↔ ∀ j ∈ l, j.Utf8 := by
  induction l with
  | nil => simp [ItemsUtf8]
  | cons j l ih => rw [ItemsUtf8, ih, List.forall_mem_cons]

theorem utf8_of_jsonString (h : jsonString s = some j) : j.Utf8 := by
  unfold jsonString at h
  split at h
  · cases h
    assumption
  · cases h

theorem membersUtf8_jsonObjectSetNew {value : Option Json} (hm : MembersUtf8 m)
    (hvalue : ∀ j, value = some j → j.Utf8) : MembersUtf8 (jsonObjectSetNew m key value) := by
  rw [membersUtf8_iff] at hm ⊢
  unfold jsonObjectSetNew
  cases value with
  | none => exact hm
  | some v =>
    dsimp only
    split
    · intro p hp
      obtain ⟨p', hp', rfl⟩ := List.mem_map.mp hp
      split
      · exact hvalue v rfl
      · exact hm p' hp'
    · intro p hp
      rcases List.mem_append.mp hp with hp | hp
      · exact hm p hp
      · obtain rfl := List.mem_singleton.mp hp
        exact hvalue v rfl

end Utf8

end Afly
