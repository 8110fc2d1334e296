import Afly.Platform.NetInfo

/-! # The identities of the gateway

`getLinkkitHalConf` looks a key up in a file of pairs of keys and values. It takes
the first place at which the bytes of the key occur in the text, be it in a value
or in a longer key, and where it finds none it copies the default over the key
and not into the output buffer.
-/

namespace Afly

/-- The distance of a byte from the start of a string, as `strchr` finds it. -/
def strchr (c : Char) (s : CStr) : Option ℕ :=
  if c ∈ s then some (s.takeWhile (· ≠ c)).length else none

/-- `getLinkkitHalConf`: the output buffer, and the string written over the key, if any. -/
def getLinkkitHalConf (out : List Char) (key dflt : CStr) (file : Option (List Char)) :
    Option (List Char × Option CStr) :=
  match file with
  | none => some (out, some dflt)
  | some text =>
    let configStr := text ++ List.replicate (1024 - text.length) nul
    if 1024 < text.length ∨ nul ∉ configStr then none
    else match strstrEnd key (cstr configStr) with
      | none => some (out, some dflt)
      | some pEnd =>
        -- behind the key, one byte is skipped
        let pStr := configStr.drop ((cstr configStr).length - pEnd.length + 1)
        if nul ∉ pStr then none
        else
          let length := (strchr ';' (cstr pStr)).getD dflt.length
          if out.length < length then none
          else some (overlay out (strncpy length (cstr pStr)), none)

/-- A zeroed array for an identity, its contents and the length of its string. The key is a string
literal, which cannot be written. -/
def halGet (maxLen : ℕ) (key dflt : CStr) (file : Option (List Char)) :
    Option (List Char × ℕ) :=
  (getLinkkitHalConf (List.replicate maxLen nul) key dflt file).bind fun r =>
    if r.2 = none ∧ nul ∈ r.1 then some (r.1, (cstr r.1).length) else none

def halGetProductKey : CStr → Option (List Char) → Option (List Char × ℕ) :=
  halGet 21 "product_key".toList

def halGetDeviceName : CStr → Option (List Char) → Option (List Char × ℕ) :=
  halGet 33 "device_name".toList

def halGetDeviceSecret : CStr → Option (List Char) → Option (List Char × ℕ) :=
  halGet 65 "device_secret".toList

def halGetProductSecret : CStr → Option (List Char) → Option (List Char × ℕ) :=
  halGet 65 "product_secret".toList

/-- A getter, the size of its array and its key. -/
structure HalIdentity where
  get : CStr → Option (List Char) → Option (List Char × ℕ)
  maxLen : ℕ
  key : CStr

def halIdentities : List HalIdentity :=
  [⟨halGetProductKey, 21, "product_key".toList⟩, ⟨halGetDeviceName, 33, "device_name".toList⟩,
    ⟨halGetDeviceSecret, 65, "device_secret".toList⟩,
    ⟨halGetProductSecret, 65, "product_secret".toList⟩]

def confPair (p : CStr × CStr) : CStr := p.1 ++ ':' :: (p.2 ++ [';'])

structure LinkkitConf where
  pairs : List (CStr × CStr)
  distinct : (pairs.map Prod.fst).Nodup
  values : ∀ p ∈ pairs, ';' ∉ p.2
  strings : ∀ p ∈ pairs, nul ∉ confPair p
  short : (pairs.flatMap confPair).length < 1024

def LinkkitConf.text (conf : LinkkitConf) : CStr := conf.pairs.flatMap confPair

/-- The value bound to a key, or the default. -/
def configured (file : Option LinkkitConf) (key dflt : CStr) : CStr :=
  (file.bind fun conf => conf.pairs.lookup key).getD dflt

/-- The zeroed array of `n` bytes comes to hold the configured value, and the key stays. -/
def Configures (file : Option LinkkitConf) (n : ℕ) (key dflt : CStr) : Prop :=
  ∃ out, getLinkkitHalConf (List.replicate n nul) key dflt (file.map LinkkitConf.text) =
    some (out, none) ∧ nul ∈ out ∧ cstr out = configured file key dflt

/-- The first occurrence of a pattern in a string. -/
structure FirstAt (pat s pre post : CStr) : Prop where
  eq : s = pre ++ pat ++ post
  first : ∀ pre' post', s = pre' ++ pat ++ post' → pre.length ≤ pre'.length

/-- When a key is looked up right: the file opens, the key occurs in the text, and behind its first
occurrence stand one byte, the configured value and a semicolon. An empty value is also found at the
end of the text, with at most one byte behind the key. -/
def LookupFits (file : Option LinkkitConf) (n : ℕ) (key dflt : CStr) : Prop :=
  ∃ conf, file = some conf ∧ ∃ pre post, FirstAt key conf.text pre post ∧
    ((∃ c rest, post = c :: (configured file key dflt ++ ';' :: rest) ∧
        ';' ∉ configured file key dflt ∧ (configured file key dflt).length < n) ∨
      (post.length ≤ 1 ∧ configured file key dflt = [] ∧ dflt.length ≤ n ∧ 0 < n ∧
        ¬ (post = [] ∧ conf.text.length = 1023)))

section Search

variable {pat s pre post : CStr}

theorem strstrEnd_none (h : strstrEnd pat s = none) (pre post : CStr) : s ≠ pre ++ pat ++ post := by
  induction s generalizing pre with
  | nil =>
    rintro he
    obtain ⟨rfl, rfl, rfl⟩ := by simpa using he
    cases h
  | cons c s ih =>
    rw [strstrEnd] at h
    split_ifs at h with hpre
    rintro he
    cases pre with
    | nil => exact hpre (List.isPrefixOf_iff_prefix.mpr ⟨post, he.symm⟩)
    | cons c' pre => exact ih h pre (List.cons.inj he).2

theorem strstrEnd_first (h : strstrEnd pat s = some post) : ∃ pre, FirstAt pat s pre post := by
  induction s with
  | nil =>
    rw [strstrEnd] at h
    split_ifs at h with hpat
    cases h
    subst hpat
    exact ⟨[], rfl, fun _ _ _ => Nat.zero_le _⟩
  | cons c s ih =>
    rw [strstrEnd] at h
    split_ifs at h with hpre
    · cases h
      obtain ⟨post, he⟩ := List.isPrefixOf_iff_prefix.mp hpre
      refine ⟨[], ?_, fun _ _ _ => Nat.zero_le _⟩
      rw [← he, List.drop_left, List.nil_append]
    · obtain ⟨pre, he, hfirst⟩ := ih h
      refine ⟨c :: pre, by rw [he]; rfl, ?_⟩
      intro pre' post' he'
      cases pre' with
      | nil => exact absurd (List.isPrefixOf_iff_prefix.mpr ⟨post', he'.symm⟩) hpre
      | cons c' pre' => exact Nat.succ_le_succ (hfirst pre' post' (List.cons.inj he').2)

theorem strstrEnd_eq (h : FirstAt pat s pre post) : strstrEnd pat s = some post := by
  cases hs : strstrEnd pat s with
  | none => exact absurd h.eq (strstrEnd_none hs pre post)
  | some post' =>
    obtain ⟨pre', h'⟩ := strstrEnd_first hs
    have hlen : pre.length = pre'.length :=
      (h.first pre' post' h'.eq).antisymm (h'.first pre post h.eq)
    have he := h.eq.symm.trans h'.eq
    rw [List.append_assoc, List.append_assoc] at he
    obtain ⟨-, he⟩ := List.append_inj he hlen
    rw [List.append_cancel_left he]

end Search

section Text

variable {conf : LinkkitConf}

theorem LinkkitConf.nul_not_mem (conf : LinkkitConf) : nul ∉ conf.text := by
  intro h
  obtain ⟨p, hp, hm⟩ := List.mem_flatMap.mp h
  exact conf.strings p hp hm

theorem LinkkitConf.getLast (conf : LinkkitConf) (h : conf.text ≠ []) :
    conf.text.getLast h = ';' := by
  unfold text at h ⊢
  generalize conf.pairs = pairs at h
  induction pairs using List.reverseRecOn with
  | nil => exact absurd rfl h
  | append_singleton pairs p _ => simp [confPair]

theorem LinkkitConf.semicolon_mem {pre rest : CStr} (h : conf.text = pre ++ rest)
    (hne : rest ≠ []) : ';' ∈ rest := by
  have hne' : conf.text ≠ [] := by
    rw [h]
    simp [hne]
  have hlast := conf.getLast hne'
  simp only [h, List.getLast_append_of_ne_nil _ hne] at hlast
  rw [← hlast]
  exact List.getLast_mem hne

end Text

section Lookup

variable {conf : LinkkitConf} {n : ℕ} {key dflt pre post : CStr}

/-- What is copied to the output buffer from the string behind the key. -/
def copyValue (n : ℕ) (dflt rest : CStr) : Option (List Char × Option CStr) :=
  let length := (strchr ';' rest).getD dflt.length
  if n < length then none
  else some (overlay (List.replicate n nul) (strncpy length rest), none)

theorem getLinkkitHalConf_found (h : FirstAt key conf.text pre post) :
    getLinkkitHalConf (List.replicate n nul) key dflt (some conf.text) =
      if post = [] ∧ conf.text.length = 1023 then none else copyValue n dflt post.tail := by
  have hshort : conf.text.length < 1024 := conf.short
  have hnul := conf.nul_not_mem
  generalize conf.text = text at h hshort hnul
  obtain ⟨k, hk⟩ : ∃ k, 1024 - text.length = k + 1 := ⟨1023 - text.length, by omega⟩
  have hcstr (s : CStr) (hs : nul ∉ s) (k : ℕ) : cstr (s ++ List.replicate (k + 1) nul) = s := by
    rw [List.replicate_succ]
    exact cstr_append_nul hs _
  have hlen := congrArg List.length h.eq
  simp only [List.length_append] at hlen
  unfold getLinkkitHalConf
  dsimp only
  rw [hk, hcstr text hnul, strstrEnd_eq h, if_neg (by simp [List.mem_replicate]; omega)]
  dsimp only
  cases post with
  | nil =>
    have hdrop : (text ++ List.replicate (k + 1) nul).drop (text.length - 0 + 1) =
        List.replicate k nul := by
      rw [Nat.sub_zero, List.drop_append]
      simp
    rw [List.length_nil, hdrop]
    cases k with
    | zero =>
      have hcond : ([] : CStr) = [] ∧ text.length = 1023 := ⟨rfl, by omega⟩
      rw [if_pos hcond]
      rfl
    | succ k =>
      have hcond : ¬ (([] : CStr) = [] ∧ text.length = 1023) := fun hc => by omega
      have hmem : nul ∈ List.replicate (k + 1) nul := List.mem_cons_self
      have hnil : cstr (List.replicate (k + 1) nul) = [] := hcstr [] (by simp) k
      rw [if_neg (not_not.mpr hmem), if_neg hcond, hnil, copyValue, List.length_replicate]
      rfl
  | cons c rest =>
    have hsplit : text ++ List.replicate (k + 1) nul =
        (pre ++ key ++ [c]) ++ (rest ++ List.replicate (k + 1) nul) := by simp [h.eq]
    have hpos : text.length - (c :: rest).length + 1 = (pre ++ key ++ [c]).length := by
      simp only [List.length_append, List.length_cons, List.length_nil] at hlen ⊢
      omega
    have hrest : nul ∉ rest := by
      rw [h.eq] at hnul
      exact fun hm => hnul (List.mem_append_right _ (List.mem_cons_of_mem _ hm))
    have hcond : ¬ (c :: rest = [] ∧ text.length = 1023) := by simp
    have hmem : nul ∈ rest ++ List.replicate (k + 1) nul :=
      List.mem_append_right _ List.mem_cons_self
    rw [hsplit, hpos, List.drop_left, if_neg (not_not.mpr hmem), if_neg hcond, hcstr rest hrest,
      copyValue, List.length_replicate]
    rfl

variable (dflt) in
theorem getLinkkitHalConf_absent (h : strstrEnd key conf.text = none) (out : List Char) :
    getLinkkitHalConf out key dflt (some conf.text) = some (out, some dflt) := by
  have hshort : conf.text.length < 1024 := conf.short
  have hnul := conf.nul_not_mem
  generalize conf.text = text at h hshort hnul
  obtain ⟨k, hk⟩ : ∃ k, 1024 - text.length = k + 1 := ⟨1023 - text.length, by omega⟩
  unfold getLinkkitHalConf
  dsimp only
  rw [hk, List.replicate_succ, cstr_append_nul hnul, h, if_neg (by simp; omega)]

theorem takeWhile_ne_eq_iff {c : Char} {s v : CStr} (hs : c ∈ s) :
    s.takeWhile (· ≠ c) = v ↔ c ∉ v ∧ ∃ rest, s = v ++ c :: rest := by
  constructor
  · rintro rfl
    refine ⟨fun hm => by simpa using List.mem_takeWhile_imp hm, ?_⟩
    have hsplit := List.takeWhile_append_dropWhile (p := (· ≠ c)) (l := s)
    cases hd : s.dropWhile (· ≠ c) with
    | nil =>
      rw [hd, List.append_nil] at hsplit
      rw [← hsplit] at hs
      simpa using List.mem_takeWhile_imp hs
    | cons b rest =>
      have hb := List.head?_dropWhile_not (fun b => decide (b ≠ c)) s
      rw [hd] at hb hsplit
      obtain rfl : b = c := by simpa using hb
      exact ⟨rest, hsplit.symm⟩
  · rintro ⟨hv, rest, rfl⟩
    rw [List.takeWhile_append_of_pos, List.takeWhile_cons_of_neg (by simp), List.append_nil]
    intro b hb
    simpa using fun he : b = c => hv (he ▸ hb)

theorem cstr_append_zeros {v : CStr} (hv : nul ∉ v) (m : ℕ) :
    cstr (v ++ List.replicate m nul) = v := by
  rw [cstr_append fun c hc he => hv (he ▸ hc), cstr, List.takeWhile_replicate, if_neg (by simp),
    List.append_nil]

theorem copyValue_semicolon {rest : CStr} (h : ';' ∈ rest) : copyValue n dflt rest =
    if n < (rest.takeWhile (· ≠ ';')).length then none
    else some (rest.takeWhile (· ≠ ';') ++
      List.replicate (n - (rest.takeWhile (· ≠ ';')).length) nul, none) := by
  have hle := (List.takeWhile_sublist (· ≠ ';') (l := rest)).length_le
  have htake : rest.take (rest.takeWhile (· ≠ ';')).length = rest.takeWhile (· ≠ ';') :=
    (List.prefix_iff_eq_take.mp (List.takeWhile_prefix _)).symm
  rw [copyValue, strchr, if_pos h, Option.getD_some, overlay, strncpy, htake,
    Nat.sub_eq_zero_of_le hle, List.replicate_zero, List.append_nil, List.drop_replicate]

theorem copyValue_nil : copyValue n dflt [] =
    if n < dflt.length then none else some (List.replicate n nul, none) := by
  have hchr : strchr ';' [] = none := rfl
  rw [copyValue, hchr, Option.getD_none]
  split
  · rfl
  · rename_i hle
    rw [overlay, strncpy, List.take_nil, List.nil_append, List.length_nil, Nat.sub_zero,
      List.length_replicate, List.drop_replicate, ← List.replicate_add]
    congr 3
    omega

theorem copyValue_nil_iff (v : CStr) :
    (∃ out, copyValue n dflt [] = some (out, none) ∧ nul ∈ out ∧ cstr out = v) ↔
      v = [] ∧ dflt.length ≤ n ∧ 0 < n := by
  have hzeros : cstr (List.replicate n nul) = [] := cstr_append_zeros (v := []) (by simp) n
  rw [copyValue_nil]
  constructor
  · rintro ⟨out, hout, hmem, rfl⟩
    split_ifs at hout with hlt
    cases hout
    have hn : n ≠ 0 := (List.mem_replicate.mp hmem).1
    exact ⟨hzeros, by omega, by omega⟩
  · rintro ⟨rfl, hle, hn⟩
    rw [if_neg (by omega)]
    exact ⟨_, rfl, List.mem_replicate.mpr ⟨by omega, rfl⟩, hzeros⟩

theorem copyValue_semicolon_iff {rest : CStr} (h : ';' ∈ rest) (hnul : nul ∉ rest) (v : CStr) :
    (∃ out, copyValue n dflt rest = some (out, none) ∧ nul ∈ out ∧ cstr out = v) ↔
      (∃ post, rest = v ++ ';' :: post) ∧ ';' ∉ v ∧ v.length < n := by
  have hvalue : nul ∉ rest.takeWhile (· ≠ ';') := fun hm => hnul (List.takeWhile_subset _ hm)
  have hiff := takeWhile_ne_eq_iff (v := v) h
  rw [copyValue_semicolon h]
  constructor
  · rintro ⟨out, hout, hmem, rfl⟩
    split_ifs at hout with hlt
    cases hout
    rw [cstr_append_zeros hvalue] at hiff ⊢
    obtain ⟨hv, hrest⟩ := hiff.mp rfl
    refine ⟨hrest, hv, ?_⟩
    rcases List.mem_append.mp hmem with hm | hm
    · exact absurd hm hvalue
    · have hn := (List.mem_replicate.mp hm).1
      omega
  · rintro ⟨hrest, hv, hlen⟩
    obtain rfl := hiff.mpr ⟨hv, hrest⟩
    rw [if_neg (by omega)]
    refine ⟨_, rfl, ?_, cstr_append_zeros hvalue _⟩
    exact List.mem_append_right _ (List.mem_replicate.mpr ⟨by omega, rfl⟩)

theorem copyValue_iff (h : FirstAt key conf.text pre post) (v : CStr) :
    (∃ out, (if post = [] ∧ conf.text.length = 1023 then none else copyValue n dflt post.tail) =
      some (out, none) ∧ nul ∈ out ∧ cstr out = v) ↔
    (∃ c rest, post = c :: (v ++ ';' :: rest) ∧ ';' ∉ v ∧ v.length < n) ∨
      (post.length ≤ 1 ∧ v = [] ∧ dflt.length ≤ n ∧ 0 < n ∧
        ¬ (post = [] ∧ conf.text.length = 1023)) := by
  have hempty (hlen : post.length ≤ 1) : ¬ ∃ c rest, post = c :: (v ++ ';' :: rest) ∧ ';' ∉ v ∧
      v.length < n := by
    rintro ⟨c, rest, rfl, -⟩
    simp at hlen
  split_ifs with hend
  · constructor
    · rintro ⟨out, hout, -⟩
      cases hout
    · rintro (hcopy | ⟨-, -, -, -, hn⟩)
      · exact absurd hcopy (hempty (by simp [hend.1]))
      · exact absurd hend hn
  · by_cases htail : post.tail = []
    · have hlen : post.length ≤ 1 := by
        have ht := congrArg List.length htail
        rw [List.length_tail, List.length_nil] at ht
        omega
      rw [htail, copyValue_nil_iff]
      constructor
      · rintro ⟨hv, hd, hn⟩
        exact Or.inr ⟨hlen, hv, hd, hn, hend⟩
      · rintro (hcopy | ⟨-, hv, hd, hn, -⟩)
        · exact absurd hcopy (hempty hlen)
        · exact ⟨hv, hd, hn⟩
    · have hpost : post ≠ [] := by
        rintro rfl
        exact htail rfl
      obtain ⟨c, rest, rfl⟩ := List.exists_cons_of_ne_nil hpost
      rw [List.tail_cons] at htail ⊢
      have htext : conf.text = (pre ++ key ++ [c]) ++ rest := by simp [h.eq]
      have hnul : nul ∉ rest := by
        have hn := conf.nul_not_mem
        rw [htext] at hn
        exact fun hm => hn (List.mem_append_right _ hm)
      rw [copyValue_semicolon_iff (conf.semicolon_mem htext htail) hnul]
      constructor
      · rintro ⟨⟨rest', rfl⟩, hv, hlen⟩
        exact Or.inl ⟨c, rest', rfl, hv, hlen⟩
      · rintro (⟨c', rest', he, hv, hlen⟩ | ⟨hlen, -⟩)
        · exact ⟨⟨rest', (List.cons.inj he).2⟩, hv, hlen⟩
        · rw [List.length_cons] at hlen
          exact absurd (List.length_eq_zero_iff.mp (by omega)) htail

end Lookup

section Claim

variable {file : Option LinkkitConf} {n : ℕ} {key dflt : CStr}

theorem configures_iff : Configures file n key dflt ↔ LookupFits file n key dflt := by
  unfold Configures LookupFits
  cases file with
  | none =>
    constructor
    · rintro ⟨out, hout, -⟩
      cases hout
    · rintro ⟨conf, h, -⟩
      cases h
  | some conf =>
    rw [Option.map_some]
    cases hsearch : strstrEnd key conf.text with
    | none =>
      rw [getLinkkitHalConf_absent dflt hsearch]
      constructor
      · rintro ⟨out, hout, -⟩
        cases hout
      · rintro ⟨_, ⟨⟩, pre, post, h, -⟩
        rw [strstrEnd_eq h] at hsearch
        cases hsearch
    | some post =>
      obtain ⟨pre, h⟩ := strstrEnd_first hsearch
      rw [getLinkkitHalConf_found h, copyValue_iff h]
      constructor
      · intro hcopy
        exact ⟨conf, rfl, pre, post, h, hcopy⟩
      · rintro ⟨_, ⟨⟩, pre', post', h', hcopy⟩
        obtain rfl : post = post' := by
          rw [strstrEnd_eq h'] at hsearch
          exact (Option.some.inj hsearch).symm
        exact hcopy

theorem halGet_iff : (∃ out, halGet n key dflt (file.map LinkkitConf.text) =
      some (out, (configured file key dflt).length) ∧ nul ∈ out ∧
        cstr out = configured file key dflt) ↔ Configures file n key dflt := by
  constructor
  · rintro ⟨out, hget, hmem, hout⟩
    obtain ⟨⟨out', written⟩, hconf, hr⟩ := Option.bind_eq_some_iff.mp hget
    split_ifs at hr with hok
    obtain ⟨rfl, -⟩ := hok
    obtain rfl : out' = out := (Prod.mk.inj (Option.some.inj hr)).1
    exact ⟨out', hconf, hmem, hout⟩
  · rintro ⟨out, hconf, hmem, hout⟩
    refine ⟨out, ?_, hmem, hout⟩
    rw [halGet, hconf, Option.bind_some, if_pos ⟨rfl, hmem⟩, hout]

/-- For every configuration text, key and default a zeroed buffer comes to hold the value of the key
or the default, with the key as it was, exactly if the lookup fits, and the same holds of the getter
of each identity. -/
theorem getLinkkitHalConf_iff (file : Option LinkkitConf) (n : ℕ) (key dflt : CStr) :
    (Configures file n key dflt ↔ LookupFits file n key dflt) ∧
    ∀ id ∈ halIdentities, (∃ out, id.get dflt (file.map LinkkitConf.text) =
        some (out, (configured file id.key dflt).length) ∧ nul ∈ out ∧
          cstr out = configured file id.key dflt) ↔ LookupFits file id.maxLen id.key dflt := by
  refine ⟨configures_iff, ?_⟩
  have hget (n : ℕ) (key : CStr) : (∃ out, halGet n key dflt (file.map LinkkitConf.text) =
      some (out, (configured file key dflt).length) ∧ nul ∈ out ∧
        cstr out = configured file key dflt) ↔ LookupFits file n key dflt :=
    halGet_iff.trans configures_iff
  intro id hid
  simp only [halIdentities, List.mem_cons, List.not_mem_nil, or_false] at hid
  rcases hid with rfl | rfl | rfl | rfl
  · exact hget _ _
  · exact hget _ _
  · exact hget _ _
  · exact hget _ _

/-- The configuration that the gateway comes with, which has no product secret. -/
def shippedConf : LinkkitConf where
  pairs := [("product_key".toList, "a16jEJYhBrU".toList),
    ("device_name".toList, "dyxTestGateway_2b42aa".toList),
    ("device_secret".toList, "pCzVIDn9Qkvff5bdwtGFuFIuW8KyZFPd".toList)]
  distinct := by decide
  values := by decide
  strings := by decide
  short := by decide

/-- The default is written over the key. -/
theorem getLinkkitHalConf_product_secret :
    ¬ Configures (some shippedConf) 65 "product_secret".toList "a1q89CnOyZM".toList ∧
    halGetProductSecret "a1q89CnOyZM".toList (some shippedConf.text) = none := by
  have hsearch : strstrEnd "product_secret".toList shippedConf.text = none := by decide
  have hconf := getLinkkitHalConf_absent "a1q89CnOyZM".toList hsearch
    (List.replicate 65 nul)
  constructor
  · rintro ⟨out, hout, -⟩
    rw [Option.map_some, hconf] at hout
    cases hout
  · rw [halGetProductSecret, halGet, hconf]
    rfl

end Claim

end Afly
