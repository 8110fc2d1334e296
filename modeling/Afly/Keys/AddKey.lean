import Afly.C.Decimal
import Afly.Gateway.Requests
import Afly.Gateway.Step

/-! # What an `AddKey` request does

A request is refused without a trace, or takes the first free slot of the bank
and sends one command. The command carries the numbers that the C library reads
from the key string. The check of the string looks at its length and its bytes
only, so that these numbers are a passcode and a count for some strings, and for
others not.
-/

namespace Afly

open World

section Outcome

/-- The checks that a request with this key string passes. -/
structure ValidKey (jin : Json) (keyStr : CStr) : Prop where
  lockType : jsonGetInt jin "LockType" (-1) = 2
  userLimit : jsonGetInt jin "UserLimit" (-1) = 1
  valid : productValidPasswordString keyStr = true
  scans : (sscanfPair keyStr).1 ≠ 0

/-- The key waits in the first free slot of the bank, one command names it, and nothing else is
changed. -/
structure KeyAdded (w : World) (i : Slot) (jin : Json) (keyStr : CStr) (j : Fin 128) (key : LockKey)
    (cmd : NxpCmd) (w' : World) : Prop where
  free : ((w.subdevs i).bank 2 j).keyState = keyStateNone
  first : ∀ k < j, ((w.subdevs i).bank 2 k).keyState ≠ keyStateNone
  adding : key.keyState = keyStateAdding
  type : key.type = jsonGetInt jin "LockType" (-1)
  limit : key.limit = jsonGetInt jin "UserLimit" (-1)
  len : key.len = keyStr.length
  str : (List.ofFn key.buf).take keyStr.length = keyStr
  names : ∃ passType start stop val₁ val₂, cmd =
    .addPassword (w.subdevs i).deviceName key.id passType 0 start stop val₁ val₂
  world : w' = { w with
    subdevs := Function.update w.subdevs i ((w.subdevs i).setBankKey 2 j key)
    sent := w.sent ++ [cmd] }

variable {env : Env} {w : World} {i : Slot} {input keyStr : CStr} {jin : Json}

theorem addKeyRequest_cases (hin : env.jsonLoads input = some jin)
    (hkey : jsonGetString jin "KeyStr" = some keyStr) :
    (∃ ret, addKeyRequest env input = some (.error ret) ∧ ¬ ValidKey jin keyStr) ∨
    ∃ req, addKeyRequest env input = some (.ok req) ∧ req.keyStr = keyStr ∧
      ValidKey jin keyStr := by
  unfold addKeyRequest
  rw [hin]
  dsimp only
  rw [hkey]
  by_cases hl : jsonGetInt jin "LockType" (-1) = 2
  · rw [dif_pos hl]
    by_cases hu : jsonGetInt jin "UserLimit" (-1) = 1
    · rw [dif_pos hu, Option.map_some]
      by_cases hv : productValidPasswordString keyStr = true
      · rw [dif_pos hv]
        by_cases hs : (sscanfPair keyStr).1 = 0
        · rw [dif_pos hs]; exact Or.inl ⟨_, rfl, fun h => h.scans hs⟩
        · rw [dif_neg hs]; exact Or.inr ⟨_, rfl, rfl, hl, hu, hv, hs⟩
      · rw [dif_neg hv]; exact Or.inl ⟨_, rfl, fun h => hv h.valid⟩
    · rw [dif_neg hu]; exact Or.inl ⟨_, rfl, fun h => hu h.userLimit⟩
  · rw [dif_neg hl]; exact Or.inl ⟨_, rfl, fun h => hl h.lockType⟩

theorem addKeyRequest_ok {req : AddKeyReq} (h : addKeyRequest env input = some (.ok req)) :
    ∃ jin, env.jsonLoads input = some jin ∧ jsonGetString jin "KeyStr" = some req.keyStr := by
  cases hin : env.jsonLoads input with
  | none => rw [addKeyRequest, hin] at h; cases h
  | some jin =>
    cases hkey : jsonGetString jin "KeyStr" with
    | none =>
      rw [addKeyRequest, hin] at h
      dsimp only at h
      rw [hkey] at h
      simp only [Option.map_none] at h
      split_ifs at h <;> cases h
    | some keyStr =>
      rcases addKeyRequest_cases hin hkey with ⟨ret, hr, -⟩ | ⟨req', hr, rfl, -⟩
      · cases h.symm.trans hr
      · cases h.symm.trans hr; exact ⟨jin, rfl, hkey⟩

theorem length_le_of_valid (h : productValidPasswordString keyStr = true) :
    6 ≤ keyStr.length ∧ keyStr.length ≤ 15 := by
  simp only [productValidPasswordString, Bool.and_eq_true, decide_eq_true_eq] at h
  exact h.1

theorem fillKey_str {old : LockKey} {time type limit : ℤ} (h : keyStr.length ≤ 32) :
    (List.ofFn (fillKey old time type limit keyStr).buf).take keyStr.length = keyStr := by
  apply List.ext_getElem
  · rw [List.length_take, List.length_ofFn, min_eq_left h]
  · intro n hn hn'
    rw [List.getElem_take, List.getElem_ofFn]
    refine (if_pos hn').trans ?_
    rw [List.getD_eq_getElem?_getD, List.getElem?_eq_getElem hn', Option.getD_some]

variable (env w i) in
/-- A request is refused and nothing changes, or its key takes the first free slot and one command
is sent. The code −6 is that of a valid request for which no slot is free. -/
theorem add_key_all_or_nothing (hin : env.jsonLoads input = some jin)
    (hkey : jsonGetString jin "KeyStr" = some keyStr) :
    ∃ w' ret, w.subdevAddKey env i input = some (w', ret) ∧
      ((ret < 0 ∧ w' = w) ∨ (ret = 0 ∧ ∃ j key cmd, KeyAdded w i jin keyStr j key cmd w')) ∧
      (ret = -6 ↔ ValidKey jin keyStr ∧
        ∀ k, ((w.subdevs i).bank 2 k).keyState ≠ keyStateNone) := by
  rcases addKeyRequest_cases hin hkey with ⟨ret, hr, hbad⟩ | ⟨req, hr, rfl, hgood⟩
  · obtain ⟨hge, hneg⟩ := addKeyRequest_error hr
    refine ⟨w, ret, subdevAddKey_refused hr, Or.inl ⟨hneg, rfl⟩, ?_⟩
    exact ⟨fun h => absurd hge (by omega), fun h => absurd h.1 hbad⟩
  · cases hj : firstNone (w.subdevs i) 2 with
    | none =>
      refine ⟨w, -6, subdevAddKey_noRoom hr hj, Or.inl ⟨by decide, rfl⟩, ?_⟩
      exact ⟨fun _ => ⟨hgood, firstNone_eq_none_iff.mp hj⟩, fun _ => rfl⟩
    | some j =>
      obtain ⟨hfree, hfirst⟩ := firstNone_eq_some_iff.mp hj
      have hlen := length_le_of_valid req.valid
      refine ⟨_, 0, subdevAddKey_fills hr hj, Or.inr ⟨rfl, j, _, _, hfree, hfirst, rfl,
        hgood.lockType.symm, hgood.userLimit.symm, rfl, fillKey_str (by omega), ?_, rfl⟩, ?_⟩
      · unfold addKeyCommand
        split <;> exact ⟨_, _, _, _, _, rfl⟩
      · exact ⟨fun h => absurd h (by decide), fun h => absurd hfree (h.2 j)⟩

end Outcome

def addKeyJson (keyStr : CStr) : Json :=
  .obj [("LockType", .int 2), ("UserLimit", .int 1), ("KeyStr", .str keyStr)]

theorem parsing_loads (keyStr : CStr) :
    (Env.parsing keyStr).jsonLoads (addKeyText keyStr) = some (addKeyJson keyStr) := if_pos rfl

/-- A request for the password of a lock with an empty bank. -/
theorem add_key_all_or_nothing_first : ∃ w' ret,
    (single firstDevice).subdevAddKey (.parsing "123456".toList) 0
      (addKeyText "123456".toList) = some (w', ret) ∧ ret = 0 ∧ w'.sent.length = 1 := by
  obtain ⟨w', ret, h, hout, -⟩ := add_key_all_or_nothing (.parsing "123456".toList)
    (single firstDevice) 0 (parsing_loads "123456".toList) rfl
  refine ⟨w', ret, h, ?_⟩
  rcases hout with ⟨hneg, -⟩ | ⟨rfl, j, key, cmd, hadd⟩
  · have hret : ((single firstDevice).subdevAddKey (.parsing "123456".toList) 0
        (addKeyText "123456".toList)).map (·.2) = some 0 := by decide +kernel
    rw [h] at hret
    exact absurd (Option.some.inj hret) hneg.ne
  · exact ⟨rfl, by rw [hadd.world]; rfl⟩

section Strings

def KeyChars (s : CStr) : Prop := ∀ c ∈ s, c.isDigit = true ∨ c = ','

def passcode (s : CStr) : CStr := s.takeWhile (· ≠ ',')

/-- The bytes behind the first comma, up to the next one. -/
def keyCount (s : CStr) : CStr := passcode (s.dropWhile (· ≠ ',')).tail

variable {s t : CStr}

theorem keyChars_of_valid (h : productValidPasswordString s = true) : KeyChars s := by
  simp only [productValidPasswordString, Bool.and_eq_true, List.all_eq_true, Bool.or_eq_true,
    decide_eq_true_eq] at h
  exact h.2

theorem KeyChars.passcode_digits (h : KeyChars s) : ∀ c ∈ passcode s, c.isDigit = true := by
  intro c hc
  have hne := List.mem_takeWhile_imp hc
  exact (h c (List.takeWhile_subset _ hc)).resolve_right (by simpa using hne)

theorem passcode_cases (s : CStr) :
    (s = passcode s ∧ s.dropWhile (· ≠ ',') = []) ∨
    ∃ t, s = passcode s ++ ',' :: t ∧ s.dropWhile (· ≠ ',') = ',' :: t := by
  have hs : passcode s ++ s.dropWhile (· ≠ ',') = s := List.takeWhile_append_dropWhile
  cases hd : s.dropWhile (· ≠ ',') with
  | nil => rw [hd, List.append_nil] at hs; exact Or.inl ⟨hs.symm, rfl⟩
  | cons c t =>
    have hc := List.head?_dropWhile_not (fun b : Char => decide (b ≠ ',')) s
    rw [hd] at hc
    obtain rfl : c = ',' := by simpa using hc
    rw [hd] at hs
    exact Or.inr ⟨t, hs.symm, rfl⟩

theorem passcode_eq_self (h : ',' ∉ s) : passcode s = s := by
  apply List.takeWhile_eq_self_iff.mpr
  intro c hc
  simpa using fun he : c = ',' => h (he ▸ hc)

theorem passcode_append (h : ',' ∉ s) : passcode (s ++ ',' :: t) = s := by
  have hs : ∀ c ∈ s, decide (c ≠ ',') = true := fun c hc => by
    simpa using fun he : c = ',' => h (he ▸ hc)
  rw [passcode, List.takeWhile_append_of_pos hs]
  simp

theorem scanInt_passcode (h : KeyChars s) (hne : passcode s ≠ []) :
    scanInt s = some (clampInt (decimal (passcode s)), s.dropWhile (· ≠ ',')) := by
  rcases passcode_cases s with ⟨hs, hd⟩ | ⟨t, hs, hd⟩
  · rw [hd]
    conv_lhs => rw [hs, ← List.append_nil (passcode s)]
    exact scanInt_numeral ⟨hne, h.passcode_digits⟩ (by simp)
  · rw [hd]
    conv_lhs => rw [hs]
    exact scanInt_numeral ⟨hne, h.passcode_digits⟩ (by simp)

theorem scanInt_of_passcode_nil (h : passcode s = []) : scanInt s = none := by
  rcases passcode_cases s with ⟨hs, -⟩ | ⟨t, hs, -⟩
  · rw [hs, h, scanInt_nil]
  · rw [hs, h, List.nil_append, scanInt_comma]

theorem dropWhile_isspace_ne_nil (h : KeyChars s) (hs : s ≠ []) : s.dropWhile isspace ≠ [] := by
  cases s with
  | nil => exact absurd rfl hs
  | cons c t =>
    have hc : isspace c = false := by
      rcases h c (by simp) with hdigit | rfl
      · exact isspace_of_isDigit hdigit
      · decide
    rw [List.dropWhile_cons_of_neg (by simp [hc])]
    simp

theorem sscanfPair_eq (h : KeyChars s) (hne : passcode s ≠ []) :
    sscanfPair s = (if keyCount s = [] then 1 else 2, clampInt (decimal (passcode s)),
      clampInt (decimal (keyCount s))) := by
  have hs : s ≠ [] := by rintro rfl; exact hne rfl
  rw [sscanfPair, if_neg (dropWhile_isspace_ne_nil h hs), scanInt_passcode h hne]
  rcases passcode_cases s with ⟨-, hd⟩ | ⟨t, hst, hd⟩
  · rw [keyCount, hd]
    rfl
  · rw [keyCount, hd, List.tail_cons]
    have ht : KeyChars t := fun c hc => h c (by rw [hst]; simp [hc])
    by_cases hcount : passcode t = []
    · have hzero : clampInt (decimal []) = 0 := by decide
      simp [scanInt_of_passcode_nil hcount, hcount, hzero]
    · simp [scanInt_passcode ht hcount, hcount]

theorem passcode_ne_nil (h : KeyChars s) (hscan : (sscanfPair s).1 ≠ 0) (hs : s ≠ []) :
    passcode s ≠ [] := by
  intro hnil
  apply hscan
  rw [sscanfPair, if_neg (dropWhile_isspace_ne_nil h hs), scanInt_of_passcode_nil hnil]

end Strings

section Passcodes

/-- An accepted request with this key string, and the one command it sends. -/
def Accepts (s : CStr) (cmd : NxpCmd) : Prop :=
  ∃ (env : Env) (w w' : World) (i : Slot) (input : CStr) (jin : Json),
    env.jsonLoads input = some jin ∧ jsonGetString jin "KeyStr" = some s ∧
    w.subdevAddKey env i input = some (w', 0) ∧ w'.sent = w.sent ++ [cmd]

/-- The string is a passcode of six digits at least, alone or with a count behind one comma, and
the command carries both without overflow. -/
def Carries (s : CStr) (cmd : NxpCmd) : Prop :=
  ∃ mac id passType start stop val₁ val₂ code,
    cmd = .addPassword mac id passType 0 start stop val₁ val₂ ∧
    IsNumeral code ∧ 6 ≤ code.length ∧ val₁ = decimal code ∧ (decimal code : ℤ) ≤ intMax ∧
    ((s = code ∧ passType ≠ 5 ∧ val₂ = 0) ∨
      ∃ count, IsNumeral count ∧ s = code ++ ',' :: count ∧ passType = 5 ∧
        val₂ = decimal count ∧ (decimal count : ℤ) ≤ intMax)

/-- The password that a command asks the lock to add. -/
def NxpCmd.passVal1 : NxpCmd → Option ℤ
  | .addPassword _ _ _ _ _ _ passVal1 _ => some passVal1
  | _ => none

/-- Six digits stand before every comma and digits without another comma behind it, and the numbers
are in the range of `int`. -/
def PlainKey (s : CStr) : Prop :=
  (decimal (passcode s) : ℤ) ≤ intMax ∧ ∀ pre post, s = pre ++ ',' :: post →
    6 ≤ pre.length ∧ post ≠ [] ∧ ',' ∉ post ∧ (decimal post : ℤ) ≤ intMax

variable {s s' : CStr} {cmd cmd' : NxpCmd}

theorem Accepts.command (h : Accepts s cmd) :
    productValidPasswordString s = true ∧ passcode s ≠ [] ∧ ∃ mac id start stop,
      cmd = .addPassword mac id (if keyCount s = [] then 0 else 5) 0 start stop
        (clampInt (decimal (passcode s))) (clampInt (decimal (keyCount s))) := by
  obtain ⟨env, w, w', i, input, jin, hin, hkey, hrun, hsent⟩ := h
  rcases addKeyRequest_cases hin hkey with ⟨ret, hr, -⟩ | ⟨req, hr, rfl, -⟩
  · cases hrun.symm.trans (subdevAddKey_refused hr)
    exact absurd (addKeyRequest_error hr).2 (by decide)
  cases hj : firstNone (w.subdevs i) 2 with
  | none => cases hrun.symm.trans (subdevAddKey_noRoom hr hj)
  | some j =>
    cases hrun.symm.trans (subdevAddKey_fills hr hj)
    rw [send_sent] at hsent
    obtain rfl := List.singleton_inj.mp (List.append_cancel_left hsent)
    have hchars := keyChars_of_valid req.valid
    have hlen := (length_le_of_valid req.valid).1
    have hne : req.keyStr ≠ [] := by
      intro h0
      rw [h0] at hlen
      exact absurd hlen (by decide)
    have hcode := passcode_ne_nil hchars req.scans hne
    refine ⟨req.valid, hcode, (w.subdevs i).deviceName, keyId 2 req.keyStr, req.start, req.stop, ?_⟩
    unfold addKeyCommand
    rw [sscanfPair_eq hchars hcode]
    by_cases hcount : keyCount req.keyStr = []
    · rw [if_pos hcount, if_pos rfl, if_pos hcount, atoi_eq (scanInt_passcode hchars hcode), hcount]
      rfl
    · rw [if_neg hcount, if_neg (show (2 : ℤ) ≠ 1 by decide),
        if_neg hcount]

theorem IsNumeral.comma_not_mem (h : IsNumeral s) : ',' ∉ s :=
  fun hc => absurd (h.2 _ hc) (by decide)

theorem Carries.value (h : Carries s cmd) : cmd.passVal1 = some (decimal (passcode s) : ℤ) := by
  obtain ⟨mac, id, passType, start, stop, val₁, val₂, code, rfl, hcode, -, rfl, -, hs⟩ := h
  rcases hs with ⟨rfl, -⟩ | ⟨count, -, rfl, -⟩
  · rw [passcode_eq_self hcode.comma_not_mem]; rfl
  · rw [passcode_append hcode.comma_not_mem]; rfl

theorem plainKey_of_numeral (h : IsNumeral s) (hmax : (decimal s : ℤ) ≤ intMax) : PlainKey s := by
  refine ⟨by rwa [passcode_eq_self h.comma_not_mem], ?_⟩
  intro pre post hpp
  exact absurd (by rw [hpp]; simp) h.comma_not_mem

theorem plainKey_of_pair (h : IsNumeral s) (hlen : 6 ≤ s.length) (hmax : (decimal s : ℤ) ≤ intMax)
    (h' : IsNumeral s') (hmax' : (decimal s' : ℤ) ≤ intMax) : PlainKey (s ++ ',' :: s') := by
  refine ⟨by rwa [passcode_append h.comma_not_mem], ?_⟩
  intro pre post hpp
  obtain ⟨rfl, -, rfl⟩ :=
    (List.append_cons_inj_of_notMem h.comma_not_mem h'.comma_not_mem).mp hpp
  exact ⟨hlen, h'.1, h'.comma_not_mem, hmax'⟩

/-- One accepted string carries a passcode and a count exactly if it is plain. -/
theorem Accepts.carries_iff (h : Accepts s cmd) : Carries s cmd ↔ PlainKey s := by
  obtain ⟨hvalid, hne, mac, id, start, stop, rfl⟩ := h.command
  have hchars := keyChars_of_valid hvalid
  constructor
  · rintro ⟨_, _, _, _, _, _, _, code, -, hcode, hlen, -, hmax, hs⟩
    rcases hs with ⟨rfl, -⟩ | ⟨count, hcount, rfl, -, -, hmax'⟩
    · exact plainKey_of_numeral hcode hmax
    · exact plainKey_of_pair hcode hlen hmax hcount hmax'
  · rintro ⟨hmax, hpairs⟩
    have hnum : IsNumeral (passcode s) := ⟨hne, hchars.passcode_digits⟩
    have hcast := clampInt_natCast hmax
    rcases passcode_cases s with ⟨hs, hd⟩ | ⟨t, hs, hd⟩
    · have hcount : keyCount s = [] := by rw [keyCount, hd]; rfl
      refine ⟨_, _, _, _, _, _, _, passcode s, rfl, hnum, ?_, hcast, hmax, Or.inl ⟨hs, ?_, ?_⟩⟩
      · rw [← hs]; exact (length_le_of_valid hvalid).1
      · rw [if_pos hcount]; decide
      · rw [hcount]; rfl
    · obtain ⟨hlen, htne, htcomma, htmax⟩ := hpairs _ _ hs
      have hcount : keyCount s = t := by rw [keyCount, hd, List.tail_cons, passcode_eq_self htcomma]
      have ht : IsNumeral t := by
        refine ⟨htne, fun c hc => ?_⟩
        have hmem : c ∈ s := by rw [hs]; simp [hc]
        exact (hchars c hmem).resolve_right fun he => htcomma (he ▸ hc)
      refine ⟨_, _, _, _, _, _, _, passcode s, rfl, hnum, hlen, hcast, hmax,
        Or.inr ⟨t, ht, hs, ?_, ?_, htmax⟩⟩
      · rw [hcount, if_neg htne]
      · rw [hcount]; exact clampInt_natCast htmax

/-- Accepted requests carry their passcodes, and different ones for different passcodes, exactly if
their strings are plain and the passcodes do not differ in leading zeros only. -/
theorem passcodes_iff (h : Accepts s cmd) (h' : Accepts s' cmd') :
    (Carries s cmd ∧ Carries s' cmd' ∧ (passcode s ≠ passcode s' → cmd.passVal1 ≠ cmd'.passVal1)) ↔
      PlainKey s ∧ PlainKey s' ∧
        (significant (passcode s) = significant (passcode s') → passcode s = passcode s') := by
  have hdigits := (keyChars_of_valid h.command.1).passcode_digits
  have hdigits' := (keyChars_of_valid h'.command.1).passcode_digits
  have hval : Carries s cmd → Carries s' cmd' → (cmd.passVal1 = cmd'.passVal1 ↔
      significant (passcode s) = significant (passcode s')) := by
    intro hc hc'
    rw [hc.value, hc'.value, ← decimal_eq_iff hdigits hdigits']
    simp
  rw [← h.carries_iff, ← h'.carries_iff]
  constructor
  · rintro ⟨hc, hc', hd⟩
    exact ⟨hc, hc', fun he => not_not.mp fun hne => hd hne ((hval hc hc').mpr he)⟩
  · rintro ⟨hc, hc', hd⟩
    exact ⟨hc, hc', fun hne he => hne (hd ((hval hc hc').mp he))⟩

theorem accepts_of_valid (hv : productValidPasswordString s = true) (hs : (sscanfPair s).1 ≠ 0) :
    ∃ cmd, Accepts s cmd := by
  have hgood : ValidKey (addKeyJson s) s := ⟨rfl, rfl, hv, hs⟩
  rcases addKeyRequest_cases (parsing_loads s) rfl with ⟨ret, -, hbad⟩ | ⟨req, hr, rfl, -⟩
  · exact absurd hgood hbad
  · have hj : firstNone ((single firstDevice).subdevs 0) 2 = some 0 := by decide +kernel
    exact ⟨_, _, single firstDevice, _, 0, _, _, parsing_loads _, rfl, subdevAddKey_fills hr hj,
      rfl⟩

end Passcodes

/-- Two requests for a password with and without a count. -/
theorem passcodes_iff_two : ∃ cmd cmd', Accepts "123456".toList cmd ∧
    Accepts "654321,10".toList cmd' ∧ cmd.passVal1 ≠ cmd'.passVal1 := by
  obtain ⟨cmd, h⟩ := accepts_of_valid (s := "123456".toList) (by decide) (by decide)
  obtain ⟨cmd', h'⟩ := accepts_of_valid (s := "654321,10".toList) (by decide) (by decide)
  have hplain : PlainKey "123456".toList := plainKey_of_numeral (by decide) (by decide)
  have hplain' : PlainKey ("654321".toList ++ ',' :: "10".toList) :=
    plainKey_of_pair (by decide) (by decide) (by decide) (by decide) (by decide)
  obtain ⟨-, -, hne⟩ := (passcodes_iff h h').mpr ⟨hplain, hplain', by decide⟩
  exact ⟨cmd, cmd', h, h', hne (by decide)⟩

/-- A passcode of one digit is accepted when a count fills the string up to six bytes. -/
theorem short_passcode_accepted : ¬ ∀ s s' cmd cmd', Accepts s cmd → Accepts s' cmd' →
    Carries s cmd ∧ Carries s' cmd' ∧
      (passcode s ≠ passcode s' → cmd.passVal1 ≠ cmd'.passVal1) := by
  intro hall
  obtain ⟨cmd, h⟩ := accepts_of_valid (s := "1,23456".toList) (by decide) (by decide)
  have hplain := h.carries_iff.mp (hall _ _ _ _ h h).1
  exact absurd (hplain.2 "1".toList "23456".toList rfl).1 (by decide)

end Afly
