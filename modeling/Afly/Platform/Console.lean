import Afly.C.Argv
import Afly.Platform.NetInfo

/-! # The console

`cmd_in` reads a line from the console into a buffer of 1024 bytes, moves it to
the front of the buffer without its leading blanks, and runs the command that the
first word names on the words of the line. The terminator of a full read, the
pointers to twenty words or more, and the search for a command in a line of tabs
leave the buffer, the array, or the program.
-/

namespace Afly

/-- `memcpy` inside one buffer. What it does to regions that overlap is left open. -/
structure Memcpy where
  copy : List Char → ℕ → ℕ → ℕ → List Char
  spec : ∀ buf dst src n, dst + n ≤ buf.length → src + n ≤ buf.length →
    dst = src ∨ dst + n ≤ src ∨ src + n ≤ dst →
    copy buf dst src n = buf.take dst ++ (buf.drop src).take n ++ buf.drop (dst + n)

/-- The bytes found in the two arrays of `cmd_in`. -/
structure ConsoleStack where
  buf : List Char
  argv : List (Option ℕ)
  buf_length : buf.length = 1024
  argv_length : argv.length = 20

/-- The names of `cmds`. -/
def cmds : List CStr :=
  ["exit".toList, "help".toList, "list".toList, "add".toList, "del".toList, "xdel".toList,
    "glist".toList, "clr".toList, "back".toList, "dynamic".toList, "addpass".toList,
    "delpass".toList, "onekey".toList, "viewpass".toList, "reset".toList]

def cmdSearch (cmd : CStr) : Option CStr := cmds.find? (· = cmd)

/-- What `cmd_in` does with a line: nothing, a search without success, or a call of a command. -/
inductive ConsoleRun where
  | idle
  | unknown (cmd : CStr)
  | call (cmd : CStr) (argv : List (Option CStr))
  deriving DecidableEq

/-- `sizeof` of a pointer on the target. -/
def sizeofPtr : ℕ := 4

/-- The part of `cmd_in` that has a line in the buffer. -/
def cmdLine (argv : List (Option ℕ)) (buf : List Char) : Option ConsoleRun :=
  (buf[0]?).bind fun c =>
    if c = nul then some .idle
    else do
      let (buf, argv, argc) ← parseArgv argv (20 * sizeofPtr) buf
      let arg ← argv[0]?
      -- `strcmp` reads through the pointer
      let off ← arg
      match cmdSearch (cstr (buf.drop off)) with
      | none => some (.unknown (cstr (buf.drop off)))
      | some cmd => some (.call cmd
          ((argv.take argc).map fun arg => arg.map fun off => cstr (buf.drop off)))

/-- The part of `cmd_in` that moves the line to the front of the buffer. -/
def moveLine (m : Memcpy) (argv : List (Option ℕ)) (buf : List Char) (size : ℕ) :
    Option ConsoleRun :=
  let p := (buf.takeWhile (· = ' ')).length
  let size := size - p
  (if size > 0 then store (m.copy buf 0 p size) size nul else store buf 0 nul).bind (cmdLine argv)

/-- `cmd_in`, with the bytes that `read` delivers, or nothing where it fails. -/
def cmdIn (m : Memcpy) (st : ConsoleStack) : Option (List Char) → Option ConsoleRun
  | none => some .idle
  | some [] => some .idle
  | some (b :: bytes) => do
    let size := (b :: bytes).length
    let buf ← store (overlay st.buf (b :: bytes)) size nul
    if buf[size - 1]? = some '\n' then
      (store buf (size - 1) nul).bind fun buf => moveLine m st.argv buf (size - 1)
    else moveLine m st.argv buf size

def chomp (bytes : List Char) : List Char :=
  if bytes.getLast? = some '\n' then bytes.dropLast else bytes

def line (bytes : List Char) : CStr := (cstr (chomp bytes)).dropWhile (· = ' ')

/-- What should be done with the words of a line. -/
def ConsoleRun.of : List CStr → ConsoleRun
  | [] => .idle
  | w :: ws => if cmds.contains w then .call w ((w :: ws).map some) else .unknown w

/-- Whatever the stack holds and `memcpy` does with regions that overlap, no access leaves its array
and the words of the line are handed to their command. -/
def LineHandled (bytes : List Char) : Prop :=
  ∀ m st, cmdIn m st (some bytes) = some (.of (words (line bytes)))

/-- The reads that are handled: not of full length, with a word unless the line is empty, with fewer
than twenty words, and with the line no longer than the blanks in front of it, if there are any. -/
structure LineFits (bytes : List Char) : Prop where
  short : bytes.length < 1024
  word : line bytes ≠ [] → words (line bytes) ≠ []
  few : (words (line bytes)).length < 20
  apart : ((chomp bytes).takeWhile (· = ' ')).length = 0 ∨
    (chomp bytes).length ≤ 2 * ((chomp bytes).takeWhile (· = ' ')).length

section Line

variable {m : Memcpy} {argv : List (Option ℕ)} {s : CStr} {buf bytes : List Char}

theorem cmdSearch_eq (cmd : CStr) : cmdSearch cmd = if cmd ∈ cmds then some cmd else none := by
  unfold cmdSearch
  cases hf : cmds.find? (· = cmd) with
  | none =>
    rw [List.find?_eq_none] at hf
    rw [if_neg fun h => hf cmd h (by simp)]
  | some c =>
    obtain rfl : c = cmd := by simpa using List.find?_some hf
    rw [if_pos (List.mem_of_find?_eq_some hf)]

/-- A line with a word and fewer than twenty of them is handed to its command, and any other but
the empty one takes the program out of its arrays. -/
theorem cmdLine_eq (hs : nul ∉ s) (rest : List Char) (hargv : argv.length = 20) :
    cmdLine argv (s ++ nul :: rest) =
      if (s ≠ [] → words s ≠ []) ∧ (words s).length < 20 then some (.of (words s)) else none := by
  cases s with
  | nil => rfl
  | cons c t =>
    have hc : c ≠ nul := by
      rintro rfl
      exact hs List.mem_cons_self
    unfold cmdLine
    rw [List.cons_append, List.getElem?_cons_zero, Option.bind_some, if_neg hc, ← List.cons_append]
    have hne : c :: t ≠ [] := by simp
    generalize c :: t = s at hs hne
    by_cases hfew : (words s).length < 20
    · obtain ⟨buf, offs, hparse, hoffs⟩ := parseArgv_spec hs rest
        (hargv ▸ hfew) (hfew.trans (by decide) : (words s).length < 20 * sizeofPtr)
      rw [hparse, ← hoffs]
      simp only [Option.bind_eq_bind, Option.bind_some]
      cases offs with
      | nil => simp [hne]
      | cons off offs =>
        rw [← hoffs, List.length_map, List.length_cons] at hfew
        replace hfew : offs.length < 19 := by omega
        by_cases hmem : cstr (buf.drop off) ∈ cmds
        · simpa [cmdSearch_eq, ConsoleRun.of, hmem] using hfew
        · simpa [cmdSearch_eq, ConsoleRun.of, hmem] using hfew
    · rw [parseArgv_none hs rest (by omega) (by rw [hargv]; decide), if_neg fun h => hfew h.2]
      rfl

theorem cmdIn_short (hshort : bytes.length < 1024) (hne : bytes ≠ []) (m : Memcpy)
    (st : ConsoleStack) : ∃ rest, cmdIn m st (some bytes) =
      moveLine m st.argv (chomp bytes ++ nul :: rest) (chomp bytes).length := by
  obtain ⟨b, bytes, rfl⟩ := List.exists_cons_of_ne_nil hne
  generalize hs : b :: bytes = s at hshort hne
  have hbuf : overlay st.buf s = s ++ st.buf.drop s.length := rfl
  have hlen : (st.buf.drop s.length).length = 1024 - s.length := by
    rw [List.length_drop, st.buf_length]
  obtain ⟨x, rest, hrest⟩ := List.exists_cons_of_length_pos
    (show 0 < (st.buf.drop s.length).length by omega)
  rw [hrest, List.length_cons] at hlen
  have hread : (s ++ nul :: rest)[s.length - 1]? = s.getLast? := by
    have hpos := List.length_pos_iff.mpr hne
    rw [List.getElem?_append_left (by omega), List.getLast?_eq_getElem?]
  have hrun : cmdIn m st (some s) = (if s.getLast? = some '\n' then
      (store (s ++ nul :: rest) (s.length - 1) nul).bind fun buf =>
        moveLine m st.argv buf (s.length - 1)
      else moveLine m st.argv (s ++ nul :: rest) s.length) := by
    rw [← hread, ← hs, cmdIn, hs, hbuf, hrest, store_append]
    rfl
  rw [hrun]
  unfold chomp
  split
  · rename_i hlast
    have hsplit := List.dropLast_append_getLast? '\n' hlast
    refine ⟨nul :: rest, ?_⟩
    conv_lhs => rw [← hsplit]
    rw [List.append_assoc, List.length_append, List.length_singleton, Nat.add_sub_cancel,
      List.singleton_append, store_append, Option.bind_some]
  · exact ⟨rest, rfl⟩

variable (m argv) in
theorem moveLine_copy {s data : List Char} (rest : List Char)
    (hne : s.dropWhile (· = ' ') ≠ [])
    (hdata : data.length = (s.dropWhile (· = ' ')).length)
    (hcopy : m.copy (s ++ nul :: rest) 0 (s.takeWhile (· = ' ')).length data.length =
      data ++ (s ++ nul :: rest).drop data.length) : ∃ rest',
    moveLine m argv (s ++ nul :: rest) s.length = cmdLine argv (data ++ nul :: rest') := by
  have hlen := congrArg List.length (List.takeWhile_append_dropWhile (p := (· = ' ')) (l := s))
  rw [List.length_append] at hlen
  have hsize : s.length - (s.takeWhile (· = ' ')).length = data.length := by omega
  have hpos := List.length_pos_iff.mpr hne
  obtain ⟨x, rest', hx⟩ := List.exists_cons_of_length_pos
    (show 0 < ((s ++ nul :: rest).drop data.length).length by simp; omega)
  refine ⟨rest', ?_⟩
  unfold moveLine
  rw [takeWhile_append_nul (by decide)]
  dsimp only
  rw [hsize, if_pos (by omega), hcopy, hx, store_append, Option.bind_some]

variable (m argv) in
theorem moveLine_apart (s rest : List Char) (hapart : (s.takeWhile (· = ' ')).length = 0 ∨
    s.length ≤ 2 * (s.takeWhile (· = ' ')).length) : ∃ rest',
    moveLine m argv (s ++ nul :: rest) s.length =
      cmdLine argv (s.dropWhile (· = ' ') ++ nul :: rest') := by
  have hlen := congrArg List.length (List.takeWhile_append_dropWhile (p := (· = ' ')) (l := s))
  rw [List.length_append] at hlen
  by_cases hne : s.dropWhile (· = ' ') = []
  · rw [hne, List.length_nil] at hlen
    obtain ⟨x, rest', hx⟩ : ∃ x rest', s ++ nul :: rest = x :: rest' :=
      List.exists_cons_of_ne_nil (by simp)
    refine ⟨rest', ?_⟩
    unfold moveLine
    rw [takeWhile_append_nul (by decide), hne, ← hlen]
    dsimp only
    rw [if_neg (by omega), hx]
    rfl
  · refine moveLine_copy m argv rest hne rfl ?_
    rw [m.spec _ _ _ _ (by simp; omega) (by simp; omega) (by omega)]
    have hdrop : (s ++ nul :: rest).drop (s.takeWhile (· = ' ')).length =
        s.dropWhile (· = ' ') ++ nul :: rest := by
      have hd : (s.takeWhile (· = ' ') ++ (s.dropWhile (· = ' ') ++ nul :: rest)).drop
          (s.takeWhile (· = ' ')).length = s.dropWhile (· = ' ') ++ nul :: rest := List.drop_left
      rwa [← List.append_assoc, List.takeWhile_append_dropWhile] at hd
    rw [hdrop, List.take_left, List.take_zero, List.nil_append, Nat.zero_add]

theorem cstr_dropWhile_blank (s : List Char) :
    cstr (s.dropWhile (· = ' ')) = (cstr s).dropWhile (· = ' ') := by
  induction s with
  | nil => rfl
  | cons c s ih =>
    by_cases hc : c = ' '
    · subst hc
      rw [List.dropWhile_cons_of_pos (by simp), ih, cstr, cstr,
        List.takeWhile_cons_of_pos (by decide), List.dropWhile_cons_of_pos (by simp)]
    · rw [List.dropWhile_cons_of_neg (by simpa using hc)]
      by_cases hnul : c = nul
      · subst hnul
        rfl
      · rw [cstr, List.takeWhile_cons_of_pos (by simpa using hnul),
          List.dropWhile_cons_of_neg (by simpa using hc)]

theorem exists_cstr_append (s rest : List Char) :
    ∃ rest', s ++ nul :: rest = cstr s ++ nul :: rest' := by
  have hs := List.takeWhile_append_dropWhile (p := (· ≠ nul)) (l := s)
  cases hd : s.dropWhile (· ≠ nul) with
  | nil =>
    rw [hd, List.append_nil] at hs
    exact ⟨rest, by rw [cstr, hs]⟩
  | cons c more =>
    have hc := List.head?_dropWhile_not (fun b => decide (b ≠ nul)) s
    rw [hd] at hc hs
    obtain rfl : c = nul := by simpa using hc
    refine ⟨more ++ nul :: rest, ?_⟩
    conv_lhs => rw [← hs]
    rw [cstr, List.append_assoc, List.cons_append]

theorem cmdLine_cstr (s rest : List Char) (hargv : argv.length = 20) :
    cmdLine argv (s ++ nul :: rest) = if (cstr s ≠ [] → words (cstr s) ≠ []) ∧
      (words (cstr s)).length < 20 then some (.of (words (cstr s))) else none := by
  obtain ⟨rest', he⟩ := exists_cstr_append s rest
  rw [he]
  exact cmdLine_eq (fun hm => mem_cstr hm rfl) rest' hargv

end Line

/-- A `memcpy` that fills its destination with one byte when the regions overlap. -/
def Memcpy.fill (c : Char) : Memcpy where
  copy buf dst src n :=
    if dst = src ∨ dst + n ≤ src ∨ src + n ≤ dst then
      buf.take dst ++ (buf.drop src).take n ++ buf.drop (dst + n)
    else buf.take dst ++ List.replicate n c ++ buf.drop (dst + n)
  spec _ _ _ _ _ _ h := if_pos h

theorem Memcpy.fill_copy (c : Char) (buf : List Char) {dst src n : ℕ}
    (h : ¬ (dst = src ∨ dst + n ≤ src ∨ src + n ≤ dst)) : (Memcpy.fill c).copy buf dst src n =
      buf.take dst ++ List.replicate n c ++ buf.drop (dst + n) :=
  if_neg h

def ConsoleStack.zero : ConsoleStack :=
  ⟨List.replicate 1024 nul, List.replicate 20 none, List.length_replicate, List.length_replicate⟩

section Reads

variable {bytes : List Char}

theorem words_replicate_tab (n : ℕ) : words (List.replicate n '\t') = [] := by
  rw [words_eq_nil_iff, List.dropWhile_eq_nil_iff]
  intro c hc
  rw [List.eq_of_mem_replicate hc]
  decide

theorem moveLine_overlap (s rest : List Char) (hblank : (s.takeWhile (· = ' ')).length ≠ 0)
    (hlong : 2 * (s.takeWhile (· = ' ')).length < s.length) :
    moveLine (.fill '\t') ConsoleStack.zero.argv (s ++ nul :: rest) s.length = none := by
  have hlen := congrArg List.length (List.takeWhile_append_dropWhile (p := (· = ' ')) (l := s))
  rw [List.length_append] at hlen
  have hne : s.dropWhile (· = ' ') ≠ [] := by
    intro h
    rw [h, List.length_nil] at hlen
    omega
  have hover : ¬ (0 = (s.takeWhile (· = ' ')).length ∨
      0 + (s.dropWhile (· = ' ')).length ≤ (s.takeWhile (· = ' ')).length ∨
      (s.takeWhile (· = ' ')).length + (s.dropWhile (· = ' ')).length ≤ 0) := by omega
  have hcopy := Memcpy.fill_copy '\t' (s ++ nul :: rest) hover
  obtain ⟨rest', he⟩ := moveLine_copy (.fill '\t') ConsoleStack.zero.argv rest hne
    (List.length_replicate (a := '\t')) (by rw [List.length_replicate, hcopy]; simp)
  have hcstr : cstr (List.replicate (s.dropWhile (· = ' ')).length '\t') =
      List.replicate (s.dropWhile (· = ' ')).length '\t' := by
    rw [cstr, List.takeWhile_replicate, if_pos (by decide)]
  rw [he, cmdLine_cstr _ _ ConsoleStack.zero.argv_length, hcstr, words_replicate_tab]
  rw [if_neg]
  exact fun h => h.1 (by simpa using hne) rfl

theorem cmdIn_full (hfull : 1024 ≤ bytes.length) (m : Memcpy) (st : ConsoleStack) :
    cmdIn m st (some bytes) = none := by
  obtain ⟨b, bytes, rfl⟩ := List.exists_cons_of_length_pos (by omega : 0 < bytes.length)
  have hlen : (overlay st.buf (b :: bytes)).length ≤ (b :: bytes).length := by
    rw [overlay, List.length_append, List.length_drop, st.buf_length]
    omega
  rw [cmdIn, store_eq_none_iff.mpr hlen]
  rfl

theorem cmdIn_apart (hshort : bytes.length < 1024)
    (hapart : ((chomp bytes).takeWhile (· = ' ')).length = 0 ∨
      (chomp bytes).length ≤ 2 * ((chomp bytes).takeWhile (· = ' ')).length)
    (m : Memcpy) (st : ConsoleStack) : cmdIn m st (some bytes) =
      if (line bytes ≠ [] → words (line bytes) ≠ []) ∧ (words (line bytes)).length < 20 then
        some (.of (words (line bytes))) else none := by
  by_cases hne : bytes = []
  · subst hne
    rfl
  · obtain ⟨rest, hrun⟩ := cmdIn_short hshort hne m st
    obtain ⟨rest', hmove⟩ := moveLine_apart m st.argv (chomp bytes) rest hapart
    rw [hrun, hmove, cmdLine_cstr _ _ st.argv_length, cstr_dropWhile_blank]
    rfl

/-- Whatever the stack holds, a read of the console is handled exactly if it is not of full length,
its line is empty or has between one and nineteen words, and the line does not overlap the place
that it is moved to. -/
theorem cmdIn_iff (bytes : List Char) : LineHandled bytes ↔ LineFits bytes := by
  constructor
  · intro h
    have hrun := h (.fill '\t') .zero
    have hshort : bytes.length < 1024 := by
      by_contra hfull
      rw [cmdIn_full (by omega)] at hrun
      cases hrun
    have hapart : ((chomp bytes).takeWhile (· = ' ')).length = 0 ∨
        (chomp bytes).length ≤ 2 * ((chomp bytes).takeWhile (· = ' ')).length := by
      by_contra hover
      rw [not_or, not_le] at hover
      have hne : bytes ≠ [] := by
        rintro rfl
        exact hover.1 rfl
      obtain ⟨rest, hmove⟩ := cmdIn_short hshort hne (.fill '\t') .zero
      rw [hmove, moveLine_overlap _ _ hover.1 hover.2] at hrun
      cases hrun
    rw [cmdIn_apart hshort hapart] at hrun
    split at hrun
    · rename_i hwords
      exact ⟨hshort, hwords.1, hwords.2, hapart⟩
    · cases hrun
  · rintro ⟨hshort, hword, hfew, hapart⟩ m st
    rw [cmdIn_apart hshort hapart, if_pos ⟨hword, hfew⟩]

/-- A tab and a newline: the search for a command reads through the null pointer. -/
theorem cmdIn_tab : ¬ LineHandled "\t\n".toList := by
  intro h
  have hrun := h (.fill '\t') .zero
  rw [cmdIn_apart (by decide) (by decide)] at hrun
  exact absurd hrun (by decide)

end Reads

end Afly
