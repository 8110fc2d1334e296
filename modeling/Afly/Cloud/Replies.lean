import Mathlib.Data.List.Dedup
import Afly.C.Dump
import Afly.Cloud.Handlers
import Afly.Provision.Hotp

/-! # Replies in a buffer of the caller

Four callbacks answer with a text, in a buffer whose length they are told. The
list of keys is measured before it is copied. The other three texts are copied
as they are, and stay in the buffer exactly when the request, the stored strings
and the password leave them short enough.
-/

namespace Afly

open World Reach

/-- The bytes that `strcpy` writes. -/
def strcpy (s : CStr) : List Char := s ++ [nul]

@[simp] theorem strcpy_length (s : CStr) : (strcpy s).length = s.length + 1 := List.length_append

/-- The requests that are answered with a text. The input for a password is not read. -/
inductive Query where
  | gatewayGetProperty (input : CStr)
  | subdevGetProperty (i : Slot) (input : CStr)
  | subdevGetDynamic (i : Slot)
  | subdevGetKeyList (i : Slot) (input : CStr)

/-- What a request is answered with: the surroundings, the state, the digest, the array for the
address as it is found, the text of a real number, and the length of the output. -/
structure Responder where
  env : Env
  gw : Gateway
  world : World
  hmacSha1 : List ℕ → List ℕ → Fin 20 → Fin 256
  mac : Fin 32 → ℕ
  dtostr : Double → CStr
  outLen : ℕ

namespace Responder

def hotp (s : Responder) : Hotp where
  hmacSha1 := s.hmacSha1
  dumps := jsonDumps s.dtostr
  mac := s.mac

/-- The end of both property handlers: the code, and the text that is copied to the output. -/
def copyProperties (s : Responder) : ℤ × List (String × Json) → ℤ × Option CStr
  | (0, jret) =>
    match jsonDumps s.dtostr (.obj jret) with
    | none => (-1, none)
    | some sret => (0, some sret)
  | (ret, _) => (ret, none)

def objectReply : Option (ℤ × List (String × Json)) → Option Json
  | some (0, jret) => some (.obj jret)
  | _ => none

/-- The code, and the text that is copied to the output. -/
def respond (s : Responder) : Query → Option (ℤ × Option CStr)
  | .gatewayGetProperty input =>
    (Afly.gatewayGetProperty s.env s.gw s.world input).map s.copyProperties
  | .subdevGetProperty i input =>
    (Afly.subdevGetProperty s.env s.gw (s.world.subdevs i) input).map s.copyProperties
  | .subdevGetDynamic i => (s.world.subdevGetDynamicReply s.env s.hotp i).map Prod.snd
  | .subdevGetKeyList i input => some
      (Afly.subdevGetKeyList (jsonDumps s.dtostr) s.outLen s.env (s.world.subdevs i) input)

def pass (s : Responder) (i : Slot) : ℕ :=
  let sd := s.world.subdevs i
  getHotp s.hmacSha1 (uint32 sd.seed) (uint32 ((s.env.time 0).tdiv sd.interval))
    (s.hotp.address sd.deviceName)

/-- The value that a request asks for, unless it is refused. -/
def reply (s : Responder) : Query → Option Json
  | .gatewayGetProperty input => objectReply (Afly.gatewayGetProperty s.env s.gw s.world input)
  | .subdevGetProperty i input =>
    objectReply (Afly.subdevGetProperty s.env s.gw (s.world.subdevs i) input)
  | .subdevGetDynamic i =>
    if (s.world.subdevs i).dynamic = 0 ∨ (s.world.subdevs i).interval = 0 then none
    else some (dynamicPass (s.pass i))
  | .subdevGetKeyList i input =>
    match s.env.jsonLoads input with
    | none => none
    | some jin =>
      let lockType := jsonGetInt jin "LockType" (-1)
      if lockType ≠ 2 ∧ lockType ≠ 5 then none
      else some (keyList (s.world.subdevs i) lockType)

/-- No more is written than the output has room for, and a reply without room is refused. -/
structure KeepsOutput (s : Responder) (q : Query) : Prop where
  bounded : ∀ ret sout, s.respond q = some (ret, some sout) → (strcpy sout).length ≤ s.outLen
  refused : ∀ jret sret, s.reply q = some jret → jsonDumps s.dtostr jret = some sret →
    s.outLen < (strcpy sret).length → ∃ ret < 0, s.respond q = some (ret, none)

end Responder

def Properties.requested (cases : Properties) (names : List CStr) : List (String × Json) :=
  (cases.map Prod.fst).dedup.filterMap fun name =>
    if name.toList ∈ names then (cases.lookup name).join.map fun value => (name, value) else none

namespace Responder

/-- All that a property request asks for is shorter than the output. -/
def PropertiesFit (s : Responder) (cases : Properties) (input : CStr) : Prop :=
  ∀ names, names ≠ [] → s.env.jsonLoads input = some (.arr (names.map Json.str)) →
    (Json.obj (cases.requested names)).width s.dtostr < s.outLen

/-- The request is refused, or what it asks for is shorter than the output, or it asks for keys. -/
def Fits (s : Responder) : Query → Prop
  | .gatewayGetProperty input => s.PropertiesFit (gatewayProperties s.gw s.world) input
  | .subdevGetProperty i input => s.PropertiesFit (subdevProperties s.gw (s.world.subdevs i)) input
  | .subdevGetDynamic i =>
    (s.world.subdevs i).dynamic ≠ 0 → (s.world.subdevs i).interval ≠ 0 →
      (sprintfInt (s.pass i)).length + 19 < s.outLen
  | .subdevGetKeyList _ _ => True

end Responder

section Requested

variable {cases : Properties} {names : List CStr} {obj jret : List (String × Json)} {name : String}

theorem find?_eq_lookup : cases.find? (fun p => name.toList = p.1.toList) =
    (cases.lookup name).map fun value => (name, value) := by
  induction cases with
  | nil => rfl
  | cons p cases ih =>
    rw [List.lookup_cons]
    by_cases hp : name = p.1
    · rw [List.find?_cons_of_pos (by simp [hp]), hp, beq_self_eq_true]
      rfl
    · rw [List.find?_cons_of_neg (by simpa [String.toList_inj] using hp), ih, beq_false_of_ne hp]

theorem serveProperty_str (cases : Properties) (obj : List (String × Json)) (sv : CStr) :
    ∃ jret, serveProperty cases obj (.str sv) = some jret ∧
      ((obj.map Prod.fst).Nodup → (jret.map Prod.fst).Nodup) ∧
      ∀ name, jret.lookup name =
        if name.toList = sv then (cases.lookup name).join.or (obj.lookup name)
        else obj.lookup name := by
  unfold serveProperty jsonStringValue
  rw [Option.map_some]
  cases hfind : cases.find? fun p => sv = p.1.toList with
  | none =>
    refine ⟨obj, rfl, id, ?_⟩
    intro name
    split
    · rename_i hname
      rw [← hname, find?_eq_lookup, Option.map_eq_none_iff] at hfind
      rw [hfind]
      rfl
    · rfl
  | some p =>
    obtain ⟨key, value⟩ := p
    have hkey : sv = key.toList := by simpa using List.find?_some hfind
    subst hkey
    rw [find?_eq_lookup] at hfind
    obtain ⟨_, hvalue, ⟨⟩⟩ := Option.map_eq_some_iff.mp hfind
    refine ⟨_, rfl, jsonObjectSetNew_nodup, ?_⟩
    intro name
    rw [lookup_jsonObjectSetNew]
    by_cases hname : name = key
    · rw [if_pos hname, if_pos (congrArg String.toList hname), hname, hvalue, Option.join_some]
    · rw [if_neg hname, if_neg fun h => hname (String.toList_inj.mp h)]

theorem foldlM_serveProperty_str (cases : Properties) (names : List CStr)
    (obj : List (String × Json)) : ∃ jret,
    (names.map Json.str).foldlM (serveProperty cases) obj = some jret ∧
      ((obj.map Prod.fst).Nodup → (jret.map Prod.fst).Nodup) ∧
      ∀ name, jret.lookup name =
        if name.toList ∈ names then (cases.lookup name).join.or (obj.lookup name)
        else obj.lookup name := by
  induction names generalizing obj with
  | nil => exact ⟨obj, rfl, id, fun name => (if_neg List.not_mem_nil).symm⟩
  | cons sv names ih =>
    obtain ⟨obj', hobj', hnodup, hlookup⟩ := serveProperty_str cases obj sv
    obtain ⟨jret, hjret, hnodup', hlookup'⟩ := ih obj'
    refine ⟨jret, ?_, fun h => hnodup' (hnodup h), ?_⟩
    · rw [List.map_cons, List.foldlM_cons, hobj']
      exact hjret
    · intro name
      rw [hlookup', hlookup]
      by_cases hsv : name.toList = sv <;> by_cases hmem : name.toList ∈ names
      · rw [if_pos hmem, if_pos hsv, if_pos (List.mem_cons_of_mem _ hmem), ← Option.or_assoc,
          Option.or_self]
      · rw [if_neg hmem, if_pos hsv, if_pos (hsv ▸ List.mem_cons_self)]
      · rw [if_pos hmem, if_neg hsv, if_pos (List.mem_cons_of_mem _ hmem)]
      · rw [if_neg hmem, if_neg hsv, if_neg (by simp [hsv, hmem])]

theorem mem_iff_lookup (h : (obj.map Prod.fst).Nodup) {value : Json} :
    (name, value) ∈ obj ↔ obj.lookup name = some value := by
  induction obj with
  | nil => simp
  | cons p obj ih =>
    obtain ⟨key, value'⟩ := p
    rw [List.map_cons, List.nodup_cons] at h
    rw [List.mem_cons, List.lookup_cons, ih h.2]
    by_cases hname : name = key
    · subst hname
      rw [beq_self_eq_true, lookup_eq_none_iff.mpr h.1]
      simp [eq_comm]
    · rw [beq_false_of_ne hname]
      simp [hname]

theorem named_eq_some {c : Prop} [Decidable c] {v : Option Json} {p : String × Json} :
    (if c then v.map fun value => (name, value) else none) = some p ↔
      p.1 = name ∧ (if c then v else none) = some p.2 := by
  split
  · rw [Option.map_eq_some_iff]
    constructor
    · rintro ⟨value, hvalue, rfl⟩
      exact ⟨rfl, hvalue⟩
    · rintro ⟨rfl, hvalue⟩
      exact ⟨p.2, hvalue, rfl⟩
  · simp

theorem requested_perm (hnodup : (jret.map Prod.fst).Nodup)
    (hlookup : ∀ name, jret.lookup name =
      if name.toList ∈ names then (cases.lookup name).join else none) :
    jret.Perm (cases.requested names) := by
  unfold Properties.requested
  refine (List.perm_ext_iff_of_nodup hnodup.of_map ?_).mpr ?_
  · refine (List.nodup_dedup _).filterMap ?_
    intro name name' p hp hp'
    exact (named_eq_some.mp hp).1.symm.trans (named_eq_some.mp hp').1
  · rintro ⟨name, value⟩
    rw [mem_iff_lookup hnodup, hlookup, List.mem_filterMap]
    constructor
    · intro h
      refine ⟨name, ?_, named_eq_some.mpr ⟨rfl, h⟩⟩
      rw [List.mem_dedup]
      by_contra hno
      rw [lookup_eq_none_iff.mpr hno] at h
      simp at h
    · rintro ⟨name', -, h⟩
      obtain ⟨rfl, h⟩ := named_eq_some.mp h
      exact h

end Requested

section Texts

variable {cases : Properties} {names : List CStr} {s : Responder} {q : Query} {i : Slot}
  {input sret : CStr} {jret : Json}

def OptionUtf8 (value : Option Json) : Prop := ∀ j, value = some j → j.Utf8

theorem optionUtf8_int {n : ℤ} : OptionUtf8 (some (.int n)) := by
  rintro _ ⟨⟩
  trivial

theorem optionUtf8_jsonString {s : CStr} : OptionUtf8 (jsonString s) := fun _ => utf8_of_jsonString

theorem optionUtf8_subDevList (w : World) : OptionUtf8 (w.subDevList.lookup "SubDevList") := by
  rintro _ ⟨⟩
  refine itemsUtf8_iff.mpr ?_
  intro j hj
  obtain ⟨i, -, hi⟩ := List.mem_filterMap.mp hj
  obtain ⟨k, -, rfl⟩ := Option.map_eq_some_iff.mp hi
  apply membersUtf8_jsonObjectSetNew _ optionUtf8_jsonString
  apply membersUtf8_jsonObjectSetNew _ optionUtf8_jsonString
  exact membersUtf8_jsonObjectSetNew trivial optionUtf8_jsonString

theorem gatewayProperties_utf8 (gw : Gateway) (w : World) :
    ∀ p ∈ gatewayProperties gw w, OptionUtf8 p.2 := by
  simp [gatewayProperties, optionUtf8_int, optionUtf8_jsonString, optionUtf8_subDevList]

theorem subdevProperties_utf8 (gw : Gateway) (sd : SubDev) :
    ∀ p ∈ subdevProperties gw sd, OptionUtf8 p.2 := by
  simp [subdevProperties, optionUtf8_int, optionUtf8_jsonString]

theorem requested_utf8 (hcases : ∀ p ∈ cases, OptionUtf8 p.2) :
    MembersUtf8 (cases.requested names) := by
  refine membersUtf8_iff.mpr ?_
  intro p hp
  obtain ⟨name, -, hname⟩ := List.mem_filterMap.mp hp
  obtain ⟨rfl, hvalue⟩ := named_eq_some.mp hname
  split at hvalue
  · obtain ⟨l, l', rfl, -⟩ := List.lookup_eq_some_iff.mp (Option.join_eq_some_iff.mp hvalue)
    exact hcases (p.1, some p.2) (by simp) p.2 rfl
  · cases hvalue

theorem getProperty_text {env : Env} (dtostr : Double → CStr) (hcases : ∀ p ∈ cases, OptionUtf8 p.2)
    (hne : names ≠ []) (hin : env.jsonLoads input = some (.arr (names.map Json.str))) :
    ∃ jret sret, getProperty env cases input = some (0, jret) ∧
      jsonDumps dtostr (.obj jret) = some sret ∧
      sret.length = (Json.obj (cases.requested names)).width dtostr := by
  obtain ⟨jret, hjret, hnodup, hlookup⟩ := foldlM_serveProperty_str cases names []
  have hperm : jret.Perm (cases.requested names) := by
    refine requested_perm (hnodup List.nodup_nil) ?_
    intro name
    rw [hlookup, List.lookup_nil, Option.or_none]
  have hutf8 : MembersUtf8 jret := membersUtf8_iff.mpr fun p hp =>
    membersUtf8_iff.mp (requested_utf8 hcases) p (hperm.subset hp)
  obtain ⟨sret, hsret, hlen⟩ := jsonDumps_length dtostr (j := .obj jret) hutf8 (Or.inr ⟨jret, rfl⟩)
  refine ⟨jret, sret, ?_, hsret, hlen.trans (Json.width_obj_perm dtostr hperm)⟩
  obtain ⟨name, names, rfl⟩ := List.exists_cons_of_ne_nil hne
  rw [List.map_cons] at hin hjret
  unfold getProperty
  simp only [hin, hjret, Option.map_some]

theorem exists_names {l : List Json} (h : ∀ jv ∈ l, (jsonStringValue jv).isSome) :
    ∃ names : List CStr, l = names.map Json.str := by
  induction l with
  | nil => exact ⟨[], rfl⟩
  | cons jv l ih =>
    rw [List.forall_mem_cons] at h
    obtain ⟨names, rfl⟩ := ih h.2
    cases jv with
    | str sv => exact ⟨sv :: names, rfl⟩
    | null | bool | int | real | arr | obj => cases h.1

variable (cases) in
theorem getProperty_refused {env : Env}
    (h : ¬ ∃ names : List CStr, names ≠ [] ∧
      env.jsonLoads input = some (.arr (names.map Json.str))) :
    getProperty env cases input = none ∨ getProperty env cases input = some (-1, []) := by
  unfold getProperty
  split
  · rename_i jv l hin
    left
    rw [Option.map_eq_none_iff, foldlM_serveProperty]
    intro hall
    obtain ⟨names, hnames⟩ := exists_names hall
    refine h ⟨names, ?_, hnames ▸ hin⟩
    rintro rfl
    cases hnames
  · exact Or.inr rfl

end Texts

section Outputs

variable {s : Responder} {q : Query} {sret : CStr} {jret : Json}

theorem copied_keepsOutput_iff (hreply : s.reply q = some jret)
    (hsret : jsonDumps s.dtostr jret = some sret) (hrespond : s.respond q = some (0, some sret)) :
    s.KeepsOutput q ↔ sret.length < s.outLen := by
  constructor
  · intro h
    have hlen := h.bounded 0 sret hrespond
    rw [strcpy_length] at hlen
    exact hlen
  · intro hlen
    constructor
    · intro ret sout h
      obtain ⟨rfl, rfl⟩ : 0 = ret ∧ sret = sout := by simpa using hrespond.symm.trans h
      rw [strcpy_length]
      exact hlen
    · intro jret' sret' hreply' hsret' hlong
      obtain rfl : jret = jret' := Option.some.inj (hreply.symm.trans hreply')
      obtain rfl : sret = sret' := Option.some.inj (hsret.symm.trans hsret')
      rw [strcpy_length] at hlong
      omega

theorem refused_keepsOutput (hreply : s.reply q = none)
    (hrespond : ∀ ret sout, s.respond q ≠ some (ret, some sout)) : s.KeepsOutput q where
  bounded ret sout h := absurd h (hrespond ret sout)
  refused jret sret h := by simp [hreply] at h

theorem properties_keepOutput_iff {cases : Properties} {input : CStr}
    (hcases : ∀ p ∈ cases, OptionUtf8 p.2)
    (hrespond : s.respond q = (getProperty s.env cases input).map s.copyProperties)
    (hreply : s.reply q = Responder.objectReply (getProperty s.env cases input)) :
    s.KeepsOutput q ↔ s.PropertiesFit cases input := by
  by_cases h : ∃ names : List CStr, names ≠ [] ∧
    s.env.jsonLoads input = some (.arr (names.map Json.str))
  · obtain ⟨names, hne, hin⟩ := h
    obtain ⟨jret, sret, hget, hsret, hlen⟩ := getProperty_text s.dtostr hcases hne hin
    rw [hget] at hrespond hreply
    have hcopied : s.respond q = some (0, some sret) := by
      rw [hrespond, Option.map_some, Responder.copyProperties, hsret]
    rw [copied_keepsOutput_iff hreply hsret hcopied, hlen]
    constructor
    · intro hshort names' _ hin'
      have hnames : names.map Json.str = names'.map Json.str := by
        simpa using hin.symm.trans hin'
      have hinj : Function.Injective Json.str := fun _ _ => Json.str.inj
      rw [← List.map_injective_iff.mpr hinj hnames]
      exact hshort
    · exact fun hfit => hfit names hne hin
  · refine iff_of_true ?_ fun names hne hin => absurd ⟨names, hne, hin⟩ h
    rcases getProperty_refused cases h with hget | hget
    · rw [hget] at hrespond hreply
      apply refused_keepsOutput hreply
      simp [hrespond]
    · rw [hget] at hrespond hreply
      apply refused_keepsOutput hreply
      simp [hrespond, Responder.copyProperties]

theorem keyList_keepsOutput (i : Slot) (input : CStr) :
    s.KeepsOutput (.subdevGetKeyList i input) := by
  constructor
  · intro ret sout h
    have hcopied : subdevGetKeyList (jsonDumps s.dtostr) s.outLen s.env (s.world.subdevs i) input =
        (ret, some sout) := Option.some.inj h
    unfold subdevGetKeyList at hcopied
    dsimp only at hcopied
    split at hcopied
    · cases hcopied
    split at hcopied
    · cases hcopied
    split at hcopied
    · cases hcopied
    split at hcopied
    · cases hcopied
    · rename_i hshort
      cases hcopied
      rw [strcpy_length]
      exact not_le.mp hshort
  · intro jret sret hreply hsret hlong
    rw [strcpy_length] at hlong
    unfold Responder.reply at hreply
    dsimp only at hreply
    split at hreply
    · cases hreply
    rename_i jin hin
    split at hreply
    · cases hreply
    rename_i htype
    obtain rfl := Option.some.inj hreply
    refine ⟨-4, by decide, congrArg some ?_⟩
    unfold subdevGetKeyList
    rw [hin]
    dsimp only
    rw [if_neg htype, hsret]
    exact if_pos (Nat.lt_succ_iff.mp hlong)

end Outputs

section Password

theorem byteWidth_of_isDigit {c : Char} (h : c.isDigit = true) : byteWidth c = 1 := by
  obtain ⟨hl, hu⟩ := toNat_of_isDigit h
  have hspecial : c ∉ [backslash, quote, '\x08', '\x0C', '\n', '\r', '\t'] := by
    intro hc
    revert h
    fin_cases hc <;> decide
  rw [byteWidth, if_neg hspecial, if_neg (by omega)]

theorem dynamicPass_text (dtostr : Double → CStr) (n : ℕ) : ∃ sret,
    jsonDumps dtostr (dynamicPass n) = some sret ∧
      sret.length = (sprintfInt n).length + 19 := by
  have hutf8 : (Json.str (sprintfInt n)).Utf8 :=
    utf8_of_jsonString (jsonString_ascii fun _ => ascii_sprintfInt)
  have hdigits : quotedWidth (sprintfInt n) = (sprintfInt n).length + 2 := by
    have hone : (sprintfInt n).map byteWidth = List.replicate (sprintfInt n).length 1 := by
      refine List.map_eq_replicate_iff.mpr fun c hc => byteWidth_of_isDigit ?_
      rw [sprintfInt, if_neg (by omega)] at hc
      exact Nat.isDigit_of_mem_toDigits (by decide) (by decide) hc
    rw [quotedWidth, hone, List.sum_replicate, smul_eq_mul, mul_one]
  rw [dynamicPass_eq]
  obtain ⟨sret, hsret, hlen⟩ := jsonDumps_length dtostr
    (j := .obj [("DynamicPass", .str (sprintfInt n))]) ⟨hutf8, trivial⟩ (Or.inr ⟨_, rfl⟩)
  refine ⟨sret, hsret, hlen.trans ?_⟩
  have hname : quotedWidth "DynamicPass".toList = 13 := by decide
  simp only [Json.width, membersWidth, hname, hdigits, List.length_singleton]
  omega

theorem dynamic_keepsOutput_iff (s : Responder) (i : Slot) :
    s.KeepsOutput (.subdevGetDynamic i) ↔ s.Fits (.subdevGetDynamic i) := by
  obtain ⟨sret, hsret, hlen⟩ := dynamicPass_text s.dtostr (s.pass i)
  by_cases hdynamic : (s.world.subdevs i).dynamic = 0
  · refine iff_of_true (refused_keepsOutput (if_pos (Or.inl hdynamic)) ?_) (absurd hdynamic)
    intro ret sout
    simp [Responder.respond, subdevGetDynamicReply, hdynamic]
  by_cases hinterval : (s.world.subdevs i).interval = 0
  · refine iff_of_true (refused_keepsOutput (if_pos (Or.inr hinterval)) ?_)
      (fun _ => absurd hinterval)
    intro ret sout
    simp [Responder.respond, subdevGetDynamicReply, hdynamic, hinterval]
  have hreply : s.reply (.subdevGetDynamic i) = some (dynamicPass (s.pass i)) :=
    if_neg (not_or.mpr ⟨hdynamic, hinterval⟩)
  have hrespond : s.respond (.subdevGetDynamic i) = some (0, some sret) := by
    rw [Responder.respond, subdevGetDynamicReply]
    dsimp only
    rw [if_neg hdynamic, if_neg hinterval, Option.map_some]
    exact congrArg (fun sout => some ((0 : ℤ), sout)) hsret
  rw [copied_keepsOutput_iff hreply hsret hrespond, hlen]
  constructor
  · exact fun hshort _ _ => hshort
  · exact fun hfits => hfits hdynamic hinterval

end Password

/-- Every callback writes no more than its output has room for, and refuses a reply without room,
exactly when it refuses the request, or the reply is shorter than the output, or the reply is a
list of keys. -/
theorem keepsOutput_iff (s : Responder) (q : Query) : s.KeepsOutput q ↔ s.Fits q := by
  cases q with
  | gatewayGetProperty input =>
    exact properties_keepOutput_iff (gatewayProperties_utf8 s.gw s.world) rfl rfl
  | subdevGetProperty i input =>
    exact properties_keepOutput_iff (subdevProperties_utf8 s.gw (s.world.subdevs i)) rfl rfl
  | subdevGetDynamic i => exact dynamic_keepsOutput_iff s i
  | subdevGetKeyList i input => exact iff_of_true (keyList_keepsOutput i input) trivial

/-- The gateway after its start, asked with an output of 32 bytes. -/
def startedResponder : Responder where
  env := .asking "NETWORK_KEY"
  gw := defaultGateway
  world := boot
  hmacSha1 := fun _ _ _ => ⟨0, by decide⟩
  mac := fun _ => 0
  dtostr := fun _ => []
  outLen := 32

/-- The network key that the gateway starts with does not fit. -/
theorem network_key_overruns : ¬ ∀ (s : Responder) (q : Query), 0 < s.outLen →
    Reachable World.step (fun _ _ => True) boot s.world → s.KeepsOutput q := by
  intro h
  have hkeeps := h startedResponder (.gatewayGetProperty "[\"NETWORK_KEY\"]".toList) (by decide)
    .start
  have hfit : startedResponder.PropertiesFit (gatewayProperties defaultGateway boot)
      "[\"NETWORK_KEY\"]".toList :=
    (properties_keepOutput_iff (gatewayProperties_utf8 _ _) rfl rfl).mp hkeeps
  have hshort := hfit ["NETWORK_KEY".toList] (by simp) rfl
  exact absurd hshort (by decide +kernel)

end Afly
