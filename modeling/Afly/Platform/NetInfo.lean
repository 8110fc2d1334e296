import Afly.C.Decimal
import Afly.Platform.Mac

/-! # The network settings

`product_init` reads the short network identifier and the channel from a line of
a log. It copies five characters of the identifier and three of the channel and
writes no terminator behind them. The fifth character is the blank behind the
four digits, so that a line that is read whole never sets the identifier to
these four.
-/

namespace Afly

/-- The fields of `stGateway_t` that `product_init` uses, the identifier byte by byte. Its last byte
is never written. -/
structure NetGateway where
  panId : List Char
  channel : ℤ
  length_eq : panId.length = 32
  terminated : panId.getLast? = some nul

/-- The bytes found on the stack from the two arrays of 16 bytes on. -/
structure NetStack where
  pan : List Char
  channel : List Char
  pan_length : 16 ≤ pan.length
  channel_length : 16 ≤ channel.length

def NetStack.zero : NetStack :=
  ⟨List.replicate 16 nul, List.replicate 16 nul, by simp, by simp⟩

theorem forall_of_all {q : Char → Prop} [DecidablePred q] {s : CStr}
    (h : s.all (fun c => decide (q c)) = true) : ∀ c ∈ s, q c := by
  simpa using h

/-- The string behind the first occurrence of a pattern, as `strstr` and `strlen` find it. -/
def strstrEnd (pat : CStr) : CStr → Option CStr
  | [] => if pat = [] then some [] else none
  | c :: s => if pat.isPrefixOf (c :: s) then some ((c :: s).drop pat.length) else strstrEnd pat s

/-- The bytes that `strncpy` writes. -/
def strncpy (n : ℕ) (s : CStr) : List Char := s.take n ++ List.replicate (n - s.length) nul

def overlay (old new : List Char) : List Char := new ++ old.drop new.length

theorem length_strncpy (n : ℕ) (s : CStr) : (strncpy n s).length = n := by
  rw [strncpy, List.length_append, List.length_take, List.length_replicate]
  omega

/-- What stands in front of the identifier, and of the channel. -/
def panMark : CStr := "pan_id: ".toList
def channelMark : CStr := "channel:".toList

namespace NetGateway

def pan (gw : NetGateway) : CStr := cstr gw.panId

def setPanId (gw : NetGateway) (p : CStr) : NetGateway where
  panId := overlay gw.panId (strncpy 5 p)
  channel := gw.channel
  length_eq := by
    rw [overlay, List.length_append, List.length_drop, length_strncpy, gw.length_eq]
  terminated := by
    have hne : gw.panId.drop 5 ≠ [] := by
      rw [ne_eq, List.drop_eq_nil_iff, gw.length_eq]
      decide
    rw [overlay, length_strncpy, List.getLast?_append_of_ne_nil _ hne, List.getLast?_drop,
      if_neg (by rw [gw.length_eq]; decide), gw.terminated]

/-- The identifier that is compared with the old one. -/
def scannedPan (m : NetStack) (p : CStr) : CStr := cstr (overlay m.pan (strncpy 5 p))

def scannedChannel (m : NetStack) (p : CStr) : ℤ :=
  atoi (cstr (overlay m.channel (strncpy 3 p)))

def initPan (m : NetStack) (gw : NetGateway) (line : CStr) : NetGateway × ℤ :=
  match strstrEnd panMark line with
  | none => (gw, 0)
  | some p => if gw.pan ≠ scannedPan m p then (gw.setPanId p, 1) else (gw, 0)

def initChannel (m : NetStack) (gw : NetGateway) (line : CStr) : NetGateway × ℤ :=
  match strstrEnd channelMark line with
  | none => (gw, 0)
  | some p =>
    let ch := scannedChannel m p
    if ch ≠ gw.channel then ({ gw with channel := ch }, 1) else (gw, 0)

/-- `product_init`: the code and the new settings. -/
def productInit (m : NetStack) (gw : NetGateway) (netfile : Option (List Char)) :
    ℤ × NetGateway :=
  match netfile with
  | none => (-1, gw)
  | some [] => (-2, gw)
  | some (c :: file) =>
    let line := cstr (fgetsLoop 1023 (c :: file))
    let (gw₁, flag₁) := initPan m gw line
    let (gw₂, flag₂) := initChannel m gw₁ line
    (flag₁ + flag₂, gw₂)

def changes (gw gw' : NetGateway) : ℤ :=
  (if gw.pan = gw'.pan then 0 else 1) + if gw.channel = gw'.channel then 0 else 1

end NetGateway

/-- A line of the log with an identifier and a channel, and what follows it. -/
structure NetLine where
  head : CStr
  pan : CStr
  coor : CStr
  digits : CStr
  tail : List Char
  head_line : ∀ c ∈ head, c ≠ '\n' ∧ c ≠ nul
  pan_hex : ∀ c ∈ pan, (hexAsciiToNibble c).isSome
  pan_length : pan.length = 4
  coor_hex : ∀ c ∈ coor, (hexAsciiToNibble c).isSome
  coor_length : coor.length = 4
  digits_numeral : IsNumeral digits
  digits_length : digits.length ≤ 2

namespace NetLine

open NetGateway

/-- The line up to the identifier and the blank behind it. -/
def front (n : NetLine) : CStr := n.head ++ panMark ++ n.pan ++ [' ']

/-- The rest of the line, and of the file. -/
def back (n : NetLine) : List Char :=
  "coor_addr:".toList ++ n.coor ++ [' '] ++ channelMark ++ n.digits ++ [' '] ++ n.tail

def content (n : NetLine) : List Char := n.front ++ n.back

/-- The part of the line that `fgets` reads into 1024 bytes. -/
def read (n : NetLine) : CStr := cstr (fgetsLoop 1023 n.content)

/-- Whatever the stack holds, the line sets the identifier and the channel that it shows, the code
is the number of changes, and a second reading changes nothing. -/
structure Sets (n : NetLine) (gw : NetGateway) : Prop where
  pan : ∀ m, (productInit m gw (some n.content)).2.pan = n.pan
  channel : ∀ m, (productInit m gw (some n.content)).2.channel = decimal n.digits
  code : ∀ m, (productInit m gw (some n.content)).1 =
    gw.changes (productInit m gw (some n.content)).2
  again : ∀ m m', productInit m' (productInit m gw (some n.content)).2 (some n.content) =
    (0, (productInit m gw (some n.content)).2)

/-- The part that is read ends right behind the identifier where it has one, and has a channel of
three characters at most; what it does not have is set already. -/
structure Cut (n : NetLine) (gw : NetGateway) : Prop where
  pan_some : ∀ p, strstrEnd panMark n.read = some p → p = n.pan
  pan_none : strstrEnd panMark n.read = none → gw.pan = n.pan
  channel_some : ∀ p, strstrEnd channelMark n.read = some p →
    ∀ m, scannedChannel m p = decimal n.digits
  channel_none : strstrEnd channelMark n.read = none → gw.channel = decimal n.digits

end NetLine

section Strings

variable {pat s t p : CStr} {l : List Char} {n : ℕ}

theorem cstr_overwrite_strncpy (hs : ∀ c ∈ s, c ≠ nul) : cstr (overlay l (strncpy n s)) =
    if s.length < n then s else s.take n ++ cstr (l.drop n) := by
  rw [overlay, length_strncpy, strncpy, List.append_assoc,
    cstr_append fun c hc => hs c (List.mem_of_mem_take hc)]
  split
  · rename_i hlt
    obtain ⟨k, hk⟩ : ∃ k, n - s.length = k + 1 := ⟨n - s.length - 1, by omega⟩
    rw [hk, List.replicate_succ, List.cons_append, cstr, List.takeWhile_cons_of_neg (by simp),
      List.append_nil, List.take_of_length_le hlt.le]
  · rename_i hge
    rw [Nat.sub_eq_zero_of_le (not_lt.mp hge), List.replicate_zero, List.nil_append]

theorem strstrEnd_suffix (h : strstrEnd pat s = some p) : p <:+ s := by
  induction s with
  | nil =>
    rw [strstrEnd] at h
    split_ifs at h
    cases h
    exact List.suffix_rfl
  | cons c s ih =>
    rw [strstrEnd] at h
    split_ifs at h
    · cases h
      exact List.drop_suffix _ _
    · exact (ih h).trans (List.suffix_cons _ _)

theorem strstrEnd_append (hpat : pat ≠ []) :
    ∃ p, strstrEnd pat (s ++ pat ++ t) = some p ∧ t.length ≤ p.length := by
  induction s with
  | nil =>
    obtain ⟨c, pat, rfl⟩ := List.exists_cons_of_ne_nil hpat
    refine ⟨t, ?_, le_rfl⟩
    rw [List.nil_append, List.cons_append, strstrEnd, ← List.cons_append, if_pos, List.drop_left]
    exact List.isPrefixOf_iff_prefix.mpr (List.prefix_append _ _)
  | cons c s ih =>
    rw [List.cons_append, List.cons_append, strstrEnd]
    split
    · refine ⟨_, rfl, ?_⟩
      simp only [List.length_drop, List.length_cons, List.length_append]
      omega
    · exact ih

end Strings

namespace NetGateway

variable {m m' : NetStack} {gw : NetGateway} {line p P : CStr}

theorem cstr_pan_eq_iff {old : List Char} (hp : ∀ c ∈ p, c ≠ nul) (hP : P.length = 4) :
    cstr (overlay old (strncpy 5 p)) = P ↔ p = P := by
  rw [cstr_overwrite_strncpy hp]
  split
  · rfl
  · rename_i hlong
    refine iff_of_false ?_ ?_
    · intro he
      have hlen := congrArg List.length he
      rw [List.length_append, List.length_take] at hlen
      omega
    · rintro rfl
      omega

@[simp] theorem setPanId_channel : (gw.setPanId p).channel = gw.channel := rfl

theorem initPan_channel : (initPan m gw line).1.channel = gw.channel := by
  unfold initPan
  split
  · rfl
  · split <;> rfl

theorem initChannel_pan : (initChannel m gw line).1.pan = gw.pan := by
  unfold initChannel
  split
  · rfl
  · dsimp only
    split <;> rfl

variable (m gw) in
theorem initPan_pan_iff (hline : ∀ c ∈ line, c ≠ nul) (hP : P.length = 4) :
    (initPan m gw line).1.pan = P ↔
      (∀ p, strstrEnd panMark line = some p → p = P) ∧
        (strstrEnd panMark line = none → gw.pan = P) := by
  unfold initPan
  cases h : strstrEnd panMark line with
  | none => simp
  | some p =>
    have hnul : ∀ c ∈ p, c ≠ nul := fun c hc => hline c ((strstrEnd_suffix h).subset hc)
    have hiff : (if gw.pan ≠ scannedPan m p then (gw.setPanId p, (1 : ℤ)) else (gw, 0)).1.pan = P ↔
        p = P := by
      split
      · exact cstr_pan_eq_iff hnul hP
      · rename_i hsame
        rw [not_not.mp hsame]
        exact cstr_pan_eq_iff hnul hP
    dsimp only
    rw [hiff]
    simp

theorem initPan_of_pan (hline : ∀ c ∈ line, c ≠ nul) (hP : P.length = 4)
    (hp : ∀ p, strstrEnd panMark line = some p → p = P)
    (hnone : strstrEnd panMark line = none → gw.pan = P) :
    (initPan m gw line).2 = if gw.pan = P then 0 else 1 := by
  unfold initPan
  split
  · rename_i h
    rw [if_pos (hnone h)]
  · rename_i p h
    obtain rfl := hp p h
    have hscan : scannedPan m p = p :=
      (cstr_pan_eq_iff (fun c hc => hline c ((strstrEnd_suffix h).subset hc)) hP).mpr rfl
    rw [hscan]
    by_cases hsame : gw.pan = p
    · rw [if_pos hsame, if_neg (not_not.mpr hsame)]
    · rw [if_neg hsame, if_pos hsame]

theorem initPan_idle (hline : ∀ c ∈ line, c ≠ nul)
    (hlen : gw.pan.length = 4) (hp : ∀ p, strstrEnd panMark line = some p → p = gw.pan) :
    initPan m gw line = (gw, 0) := by
  unfold initPan
  split
  · rfl
  · rename_i p h
    have hscan : scannedPan m p = gw.pan :=
      (cstr_pan_eq_iff (fun c hc => hline c ((strstrEnd_suffix h).subset hc)) hlen).mpr (hp p h)
    rw [hscan, if_neg (not_not.mpr rfl)]

theorem initChannel_channel : (initChannel m gw line).1.channel =
    (strstrEnd channelMark line).elim gw.channel (scannedChannel m) := by
  unfold initChannel
  cases strstrEnd channelMark line with
  | none => rfl
  | some p =>
    dsimp only [Option.elim]
    split
    · rfl
    · rename_i hsame
      exact (not_not.mp hsame).symm

theorem initChannel_of_channel {C : ℤ}
    (hp : ∀ p, strstrEnd channelMark line = some p → ∀ m, scannedChannel m p = C)
    (hnone : strstrEnd channelMark line = none → gw.channel = C) :
    (initChannel m gw line).2 = if gw.channel = C then 0 else 1 := by
  unfold initChannel
  split
  · rename_i h
    rw [if_pos (hnone h)]
  · rename_i p h
    dsimp only
    rw [hp p h m]
    by_cases hc : gw.channel = C
    · rw [if_pos hc, if_neg (not_not.mpr hc.symm)]
    · rw [if_neg hc, if_pos (Ne.symm hc)]

theorem initChannel_idle (hp : ∀ p, strstrEnd channelMark line = some p →
    ∀ m, scannedChannel m p = gw.channel) : initChannel m gw line = (gw, 0) := by
  unfold initChannel
  split
  · rfl
  · rename_i p h
    dsimp only
    rw [hp p h m, if_neg (not_not.mpr rfl)]

end NetGateway

namespace NetLine

open NetGateway

variable {n : NetLine} {gw : NetGateway} {m : NetStack}

theorem read_nul (n : NetLine) : ∀ c ∈ n.read, c ≠ nul := fun _ hc => mem_cstr hc

theorem content_ne_nil (n : NetLine) : n.content ≠ [] := by
  simp [content, front]

theorem productInit_content (n : NetLine) (m : NetStack) (gw : NetGateway) :
    productInit m gw (some n.content) =
      ((initPan m gw n.read).2 + (initChannel m (initPan m gw n.read).1 n.read).2,
        (initChannel m (initPan m gw n.read).1 n.read).1) := by
  obtain ⟨c, file, h⟩ := List.exists_cons_of_ne_nil n.content_ne_nil
  rw [read, h]
  rfl

theorem Sets.cut {n : NetLine} {gw : NetGateway} (h : n.Sets gw) : n.Cut gw := by
  have hp := h.pan NetStack.zero
  rw [productInit_content, initChannel_pan, initPan_pan_iff _ _ n.read_nul n.pan_length] at hp
  have hc (m : NetStack) : (strstrEnd channelMark n.read).elim gw.channel (scannedChannel m) =
      decimal n.digits := by
    have hm := h.channel m
    rwa [productInit_content, initChannel_channel, initPan_channel] at hm
  constructor
  · exact hp.1
  · exact hp.2
  · intro p hsome m
    simpa [hsome] using hc m
  · intro hnone
    simpa [hnone] using hc NetStack.zero

theorem Cut.sets {n : NetLine} {gw : NetGateway} (h : n.Cut gw) : n.Sets gw := by
  have hp (m : NetStack) : (initPan m gw n.read).1.pan = n.pan :=
    (initPan_pan_iff m gw n.read_nul n.pan_length).mpr ⟨h.pan_some, h.pan_none⟩
  have hpan' (m : NetStack) : (productInit m gw (some n.content)).2.pan = n.pan := by
    rw [productInit_content, initChannel_pan, hp]
  have hchannel' (m : NetStack) :
      (productInit m gw (some n.content)).2.channel = decimal n.digits := by
    rw [productInit_content, initChannel_channel, initPan_channel]
    cases hc : strstrEnd channelMark n.read with
    | none => exact h.channel_none hc
    | some p => exact h.channel_some p hc m
  constructor
  · exact hpan'
  · exact hchannel'
  · intro m
    rw [changes, hpan', hchannel', productInit_content,
      initPan_of_pan n.read_nul n.pan_length h.pan_some h.pan_none,
      initChannel_of_channel (C := decimal n.digits) h.channel_some
        (initPan_channel.trans ∘ h.channel_none), initPan_channel]
  · intro m m'
    generalize hgw : (productInit m gw (some n.content)).2 = gw'
    have hp' : gw'.pan = n.pan := by rw [← hgw, hpan']
    have hc' : gw'.channel = decimal n.digits := by rw [← hgw, hchannel']
    rw [productInit_content, initPan_idle n.read_nul (by rw [hp', n.pan_length])
      (by rw [hp']; exact h.pan_some), initChannel_idle (by rw [hc']; exact h.channel_some)]
    rfl

/-- A line sets what it shows exactly when the part of it that is read is cut off right behind the
identifier. -/
theorem sets_iff (n : NetLine) (gw : NetGateway) : n.Sets gw ↔ n.Cut gw := ⟨Sets.cut, Cut.sets⟩

theorem not_sets (n : NetLine) (gw : NetGateway) (hlen : n.head.length + 13 ≤ 1023) :
    ¬ n.Sets gw := by
  intro hsets
  have h := hsets.cut
  have hpan (c : Char) (hc : c ∈ n.pan) : c ≠ '\n' ∧ c ≠ nul := by
    have hr := hexDigit_range (n.pan_hex c hc)
    constructor
    · rintro rfl
      exact absurd hr (by decide)
    · rintro rfl
      exact absurd hr (by decide)
  have hfront : ∀ c ∈ n.front, c ≠ '\n' ∧ c ≠ nul := by
    intro c hc
    simp only [front, List.mem_append] at hc
    have hmark : ∀ c ∈ panMark, c ≠ '\n' ∧ c ≠ nul := forall_of_all (by decide)
    rcases hc with ((hc | hc) | hc) | hc
    · exact n.head_line c hc
    · exact hmark c hc
    · exact hpan c hc
    · rw [List.mem_singleton.mp hc]
      decide
  have hfrontlen : n.front.length = n.head.length + 13 := by
    simp only [front, List.length_append, n.pan_length]
    rfl
  have hread : n.read =
      n.head ++ panMark ++ (n.pan ++ ' ' :: cstr (fgetsLoop (1023 - n.front.length) n.back)) := by
    rw [read, content, fgetsLoop_append (fun c hc => (hfront c hc).1) (by omega),
      cstr_append fun c hc => (hfront c hc).2]
    simp [front]
  have hmark : panMark ≠ [] := by decide
  obtain ⟨p, hp, hle⟩ := strstrEnd_append (s := n.head)
    (t := n.pan ++ ' ' :: cstr (fgetsLoop (1023 - n.front.length) n.back)) hmark
  rw [← hread] at hp
  obtain rfl := h.pan_some p hp
  rw [List.length_append, List.length_cons] at hle
  omega

def quoted : NetLine where
  head := "[Wed Sep 26 01:27:20 2018]: E_MSG_START_IND: ".toList
  pan := "40d2".toList
  coor := "30ae".toList
  digits := "15".toList
  tail := "status: 0\n".toList
  head_line := forall_of_all (by decide)
  pan_hex := forall_of_all (by decide)
  pan_length := rfl
  coor_hex := forall_of_all (by decide)
  coor_length := rfl
  digits_numeral := ⟨by decide, forall_of_all (by decide)⟩
  digits_length := by decide

def bootNet : NetGateway where
  panId := "30ae".toList ++ List.replicate 28 nul
  channel := 11
  length_eq := rfl
  terminated := by decide

/-- The quoted line does not set the identifier that it shows. -/
theorem quoted_not_sets : ¬ quoted.Sets bootNet := quoted.not_sets bootNet (by decide)

/-- The quoted line behind some blanks. -/
def shifted (k : ℕ) : NetLine :=
  { quoted with
    head := List.replicate k ' '
    head_line := by
      intro c hc
      rw [List.eq_of_mem_replicate hc]
      decide }

theorem strstrEnd_blanks {pat : CStr} {c : Char} (hc : c ≠ ' ') (k : ℕ) (s : CStr) :
    strstrEnd (c :: pat) (List.replicate k ' ' ++ s) = strstrEnd (c :: pat) s := by
  induction k with
  | zero => rfl
  | succ k ih =>
    rw [List.replicate_succ, List.cons_append, strstrEnd, if_neg, ih]
    simp [hc]

theorem shifted_sets (k : ℕ) (gw : NetGateway) (hk : k + 12 = 1023) (hch : gw.channel = 15) :
    (shifted k).Sets gw := by
  have hpart : ∀ c ∈ "pan_id: 40d2".toList, c ≠ '\n' ∧ c ≠ nul :=
    forall_of_all (by decide)
  have hline : ∀ c ∈ List.replicate k ' ' ++ "pan_id: 40d2".toList, c ≠ '\n' ∧ c ≠ nul := by
    intro c hc
    rcases List.mem_append.mp hc with hc | hc
    · rw [List.eq_of_mem_replicate hc]
      decide
    · exact hpart c hc
  have hread : (shifted k).read = List.replicate k ' ' ++ "pan_id: 40d2".toList := by
    have hcontent : (shifted k).content =
        (List.replicate k ' ' ++ "pan_id: 40d2".toList) ++ ' ' :: (shifted k).back := by
      rw [content, front, List.append_assoc _ [' '], List.append_assoc (shifted k).head]
      rfl
    have hlen : (List.replicate k ' ' ++ "pan_id: 40d2".toList).length = 1023 := by
      rw [List.length_append, List.length_replicate]
      exact hk
    rw [read, hcontent, fgetsLoop_append (fun c hc => (hline c hc).1) hlen.le, hlen, Nat.sub_self,
      cstr_append fun c hc => (hline c hc).2]
    simp [fgetsLoop, cstr]
  have hpan : strstrEnd panMark (shifted k).read = some "40d2".toList := by
    rw [hread]
    exact strstrEnd_blanks (by decide) k _
  have hchannel : strstrEnd channelMark (shifted k).read = none := by
    rw [hread]
    exact strstrEnd_blanks (by decide) k _
  refine Cut.sets ⟨?_, ?_, ?_, ?_⟩
  · intro p hp
    exact (Option.some.inj (hpan.symm.trans hp)).symm
  · intro hnone
    exact absurd (hpan.symm.trans hnone) (by simp)
  · intro p hp
    exact absurd (hchannel.symm.trans hp) (by simp)
  · intro _
    rw [hch]
    rfl

end NetLine

end Afly
