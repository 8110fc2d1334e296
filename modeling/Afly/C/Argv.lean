import Afly.C.Text

/-! # Words of a command line

`parse_argv` takes a line apart in place: it stores a pointer to the start of
each word, moves the bytes of the word together where it leaves out quotes, and
ends each word with a zero byte. The bytes it writes lie behind those it has
still to read. What it finds are the words of the line.
-/

namespace Afly

def store {α : Type*} (l : List α) (i : ℕ) (x : α) : Option (List α) :=
  if i < l.length then some (l.set i x) else none

def isBlank (c : Char) : Bool := c = ' ' || c = '\t'

/-- The loop that moves a word together, with `quote`, `dest` and `cp`: the buffer, `dest`, `cp`
and `c` where it stops. -/
def copyWord : ℕ → List Char → Char → ℕ → ℕ → Option (List Char × ℕ × ℕ × Char)
  | 0, _, _, _, _ => none
  | n + 1, buf, quote, dest, cp =>
    (buf[cp]?).bind fun c =>
      if c = nul then some (buf, dest, cp, c)
      else if quote ≠ nul ∧ c = quote then copyWord n buf nul dest (cp + 1)
      else if quote = nul ∧ (c = '\'' ∨ c = '"') then copyWord n buf c dest (cp + 1)
      else if quote = nul ∧ isBlank c then some (buf, dest, cp, c)
      else (store buf dest c).bind fun buf => copyWord n buf quote (dest + 1) (cp + 1)

/-- The end of `parse_argv`. -/
def endArgv (argvLen : ℕ) (buf : List Char) (argv : List (Option ℕ)) (argc : ℕ) :
    Option (List Char × List (Option ℕ) × ℕ) :=
  if argc < argvLen then (store argv argc none).map fun argv => (buf, argv, argc)
  else some (buf, argv, argc)

/-- The outer loop of `parse_argv`. A pointer into the buffer is an offset. -/
def argvLoop (argvLen : ℕ) : ℕ → List Char → List (Option ℕ) → ℕ → ℕ →
    Option (List Char × List (Option ℕ) × ℕ)
  | 0, _, _, _, _ => none
  | n + 1, buf, argv, argc, cp =>
    if argvLen ≤ argc then endArgv argvLen buf argv argc
    else
      let cp := cp + ((buf.drop cp).takeWhile isBlank).length
      (buf[cp]?).bind fun c =>
        if c = nul then endArgv argvLen buf argv argc
        else do
          let argv ← store argv argc (some cp)
          let (buf, dest, cp, c) ← copyWord (buf.length + 1) buf nul cp cp
          let buf ← store buf dest nul
          if c = nul then endArgv argvLen buf argv (argc + 1)
          else argvLoop argvLen n buf argv (argc + 1) (cp + 1)

/-- `parse_argv`: the buffer, the array of pointers and the number of words. -/
def parseArgv (argv : List (Option ℕ)) (argvLen : ℕ) (buf : List Char) :
    Option (List Char × List (Option ℕ) × ℕ) :=
  argvLoop argvLen (buf.length + 1) buf argv 0 0

/-- The rest of a word, with the quote that is open in it, and the text behind it. -/
def wordFrom (quote : Char) : CStr → CStr × CStr
  | [] => ([], [])
  | c :: s =>
    if quote ≠ nul ∧ c = quote then wordFrom nul s
    else if quote = nul ∧ (c = '\'' ∨ c = '"') then wordFrom c s
    else if quote = nul ∧ isBlank c then ([], c :: s)
    else (c :: (wordFrom quote s).1, (wordFrom quote s).2)

def wordsLoop : ℕ → CStr → List CStr
  | 0, _ => []
  | n + 1, s =>
    match s.dropWhile isBlank with
    | [] => []
    | c :: s => (wordFrom nul (c :: s)).1 :: wordsLoop n (wordFrom nul (c :: s)).2.tail

def words (s : CStr) : List CStr := wordsLoop s.length s

example : words " test 1 \"2 3\" 4\"56\"".toList =
    ["test".toList, "1".toList, "2 3".toList, "456".toList] := by decide

section Arrays

variable {α : Type*} {l : List α} {x y : α}

theorem store_append (pre post : List α) : store (pre ++ x :: post) pre.length y =
    some (pre ++ y :: post) := by
  rw [store, if_pos (by simp)]
  simp

theorem store_eq_none_iff {i : ℕ} : store l i x = none ↔ l.length ≤ i := by
  simp [store]

theorem getElem?_append_append (pre mid post : List α) :
    (pre ++ (mid ++ post))[pre.length + mid.length]? = post.head? := by
  rw [← List.append_assoc, ← List.length_append, List.getElem?_append_right le_rfl, Nat.sub_self,
    List.head?_eq_getElem?]

theorem gap_shift (gap : List α) (x : α) (post : List α) : ∃ y gap', gap'.length = gap.length ∧
    gap ++ x :: post = y :: (gap' ++ post) := by
  cases gap with
  | nil => exact ⟨x, [], rfl, rfl⟩
  | cons y gap => exact ⟨y, gap ++ [x], by simp, by simp⟩

end Arrays

theorem takeWhile_append_nul {p : Char → Bool} (hp : p nul = false) (s post : List Char) :
    (s ++ nul :: post).takeWhile p = s.takeWhile p := by
  induction s with
  | nil => rw [List.nil_append, List.takeWhile_cons_of_neg (by simp [hp]), List.takeWhile_nil]
  | cons c s ih => rw [List.cons_append, List.takeWhile_cons, List.takeWhile_cons, ih]

section Words

variable {s s' : CStr} {c : Char} {n : ℕ}

theorem wordFrom_length (quote : Char) (s : CStr) :
    (wordFrom quote s).1.length + (wordFrom quote s).2.length ≤ s.length := by
  induction s generalizing quote with
  | nil => simp [wordFrom]
  | cons c s ih =>
    have hnul := ih nul
    have hc := ih c
    have hq := ih quote
    unfold wordFrom
    split_ifs <;> simp only [List.length_cons, List.length_nil] <;> omega

theorem wordFrom_rest (quote : Char) (s : CStr) :
    (wordFrom quote s).2 = [] ∨ ∃ c r, (wordFrom quote s).2 = c :: r ∧ isBlank c := by
  induction s generalizing quote with
  | nil => exact Or.inl rfl
  | cons c s ih =>
    unfold wordFrom
    split_ifs with h₁ h₂ h₃
    · exact ih nul
    · exact ih c
    · exact Or.inr ⟨c, s, rfl, h₃.2⟩
    · exact ih quote

theorem wordFrom_subset (quote : Char) (s : CStr) :
    (wordFrom quote s).1 ⊆ s ∧ (wordFrom quote s).2 ⊆ s := by
  induction s generalizing quote with
  | nil => simp [wordFrom]
  | cons c s ih =>
    unfold wordFrom
    split_ifs
    · exact ⟨List.subset_cons_of_subset _ (ih nul).1, List.subset_cons_of_subset _ (ih nul).2⟩
    · exact ⟨List.subset_cons_of_subset _ (ih c).1, List.subset_cons_of_subset _ (ih c).2⟩
    · exact ⟨List.nil_subset _, List.Subset.refl _⟩
    · exact ⟨List.cons_subset_cons _ (ih quote).1, List.subset_cons_of_subset _ (ih quote).2⟩

theorem length_wordFrom_tail (h : s.dropWhile isBlank = c :: s') :
    (wordFrom nul (c :: s')).2.tail.length < s.length := by
  have hword := wordFrom_length nul (c :: s')
  have hdrop := (List.dropWhile_sublist isBlank (l := s)).length_le
  rw [h] at hdrop
  rw [List.length_tail]
  simp only [List.length_cons] at hword hdrop
  omega

theorem wordsLoop_eq (hn : s.length ≤ n) : wordsLoop n s = words s := by
  unfold words
  generalize hm : s.length = m at hn
  replace hm := hm.le
  induction n generalizing s m with
  | zero =>
    obtain rfl : m = 0 := by omega
    rfl
  | succ n ih =>
    cases m with
    | zero =>
      obtain rfl := List.length_eq_zero_iff.mp (Nat.le_zero.mp hm)
      rfl
    | succ m =>
      unfold wordsLoop
      split
      · rfl
      · rename_i c s' h
        have hlt := length_wordFrom_tail h
        rw [ih m (by omega) (by omega)]

theorem words_eq_nil_iff : words s = [] ↔ s.dropWhile isBlank = [] := by
  cases s with
  | nil => simp [words, wordsLoop]
  | cons c s =>
    unfold words
    rw [List.length_cons, wordsLoop]
    split
    · rename_i h
      simp [h]
    · rename_i h
      simp [h]

theorem words_eq_cons (h : s.dropWhile isBlank = c :: s') :
    words s = (wordFrom nul (c :: s')).1 :: words (wordFrom nul (c :: s')).2.tail := by
  have hlt := length_wordFrom_tail h
  rw [← wordsLoop_eq (Nat.le_succ s.length), wordsLoop, h]
  dsimp only
  rw [wordsLoop_eq (by omega)]

theorem words_cases (hs : nul ∉ s) : (s.dropWhile isBlank = [] ∧ words s = []) ∨
    ∃ c s' w r, s.dropWhile isBlank = c :: s' ∧ wordFrom nul (c :: s') = (w, r) ∧
      words s = w :: words r.tail ∧ r.tail.length < s.length ∧ nul ∉ w ∧ nul ∉ r.tail := by
  cases hword : s.dropWhile isBlank with
  | nil => exact Or.inl ⟨rfl, words_eq_nil_iff.mpr hword⟩
  | cons c s' =>
    obtain ⟨hw, hr⟩ := wordFrom_subset nul (c :: s')
    have hs' : nul ∉ c :: s' := by
      rw [← hword]
      exact fun hm => hs (List.dropWhile_subset _ hm)
    exact Or.inr ⟨c, s', _, _, rfl, rfl, words_eq_cons hword, length_wordFrom_tail hword,
      fun hm => hs' (hw hm), fun hm => hs' (hr (List.mem_of_mem_tail hm))⟩

end Words

theorem copyWord_spec {s : CStr} (hs : nul ∉ s) (quote : Char) (pre gap post : List Char) {n : ℕ}
    (hn : s.length < n) : ∃ gap', copyWord n (pre ++ (gap ++ (s ++ nul :: post))) quote pre.length
      (pre.length + gap.length) =
        some (pre ++ ((wordFrom quote s).1 ++ (gap' ++ ((wordFrom quote s).2 ++ nul :: post))),
          pre.length + (wordFrom quote s).1.length,
          pre.length + (wordFrom quote s).1.length + gap'.length,
          (wordFrom quote s).2.headD nul) := by
  induction s generalizing quote pre gap n with
  | nil =>
    obtain ⟨n, rfl⟩ : ∃ m, n = m + 1 := ⟨n - 1, by omega⟩
    refine ⟨gap, ?_⟩
    rw [copyWord, getElem?_append_append]
    simp [wordFrom]
  | cons c s ih =>
    obtain ⟨n, rfl⟩ : ∃ m, n = m + 1 := ⟨n - 1, by omega⟩
    have hc : c ≠ nul := by
      rintro rfl
      exact hs List.mem_cons_self
    have hs' : nul ∉ s := fun h => hs (List.mem_cons_of_mem _ h)
    have hn' : s.length < n := by simpa using hn
    -- leaving out the byte at `cp` makes the gap one longer
    have hskip (quote : Char) := ih hs' quote pre (gap ++ [c]) hn'
    rw [copyWord, getElem?_append_append]
    simp only [List.cons_append, List.head?_cons, Option.bind_some, if_neg hc]
    simp only [List.append_assoc, List.cons_append, List.nil_append, List.length_append,
      List.length_cons, List.length_nil, Nat.zero_add, ← Nat.add_assoc] at hskip
    unfold wordFrom
    split_ifs with h₁ h₂ h₃
    · exact hskip nul
    · exact hskip c
    · exact ⟨gap, by simp⟩
    · -- the byte is written to the front of the gap, which then ends where the byte was read
      obtain ⟨x, gap', hlen, hgap⟩ := gap_shift gap c (s ++ nul :: post)
      obtain ⟨gap'', h⟩ := ih hs' quote (pre ++ [c]) gap' hn'
      refine ⟨gap'', ?_⟩
      rw [hgap, store_append, Option.bind_some, ← hlen]
      simp only [List.append_assoc, List.cons_append, List.nil_append, List.length_append,
        List.length_cons, List.length_nil, Nat.zero_add] at h ⊢
      have hpos : pre.length + gap'.length + 1 = pre.length + 1 + gap'.length := by omega
      rw [hpos, h]
      simp only [Option.some.injEq, Prod.mk.injEq, and_true, true_and]
      omega

section Loop

variable {s s' : CStr} {c : Char} {n argvLen argc : ℕ} {argv : List (Option ℕ)}

theorem argvLoop_end (hs : s.dropWhile isBlank = []) (pre post : List Char)
    (hargc : argc < argvLen) :
    argvLoop argvLen (n + 1) (pre ++ (s ++ nul :: post)) argv argc pre.length =
      endArgv argvLen (pre ++ (s ++ nul :: post)) argv argc := by
  have hall : s.takeWhile isBlank = s := by
    have h := List.takeWhile_append_dropWhile (p := isBlank) (l := s)
    rwa [hs, List.append_nil] at h
  rw [argvLoop, if_neg (by omega), List.drop_left, takeWhile_append_nul (p := isBlank) rfl, hall]
  dsimp only
  rw [getElem?_append_append, List.head?_cons, Option.bind_some, if_pos rfl]

variable (n argv) in
/-- A round at a line with a word: a pointer to its start is stored and the word is moved together,
with a zero byte behind it. -/
theorem argvLoop_word (hs : nul ∉ s) (h : s.dropWhile isBlank = c :: s') (pre post : List Char)
    (hargc : argc < argvLen) {start : List Char} (hstart : start = pre ++ s.takeWhile isBlank)
    {w r : CStr} (hw : wordFrom nul (c :: s') = (w, r)) :
    (r = [] ∧ ∃ rest, argvLoop argvLen (n + 1) (pre ++ (s ++ nul :: post)) argv argc pre.length =
      (store argv argc (some start.length)).bind fun argv =>
        endArgv argvLen (start ++ (w ++ nul :: rest)) argv (argc + 1)) ∨
    ∃ gap, argvLoop argvLen (n + 1) (pre ++ (s ++ nul :: post)) argv argc pre.length =
      (store argv argc (some start.length)).bind fun argv =>
        argvLoop argvLen n ((start ++ (w ++ nul :: gap)) ++ (r.tail ++ nul :: post)) argv
          (argc + 1) (start ++ (w ++ nul :: gap)).length := by
  have hsplit : s = s.takeWhile isBlank ++ c :: s' := by
    rw [← h, List.takeWhile_append_dropWhile]
  have hbuf : pre ++ (s ++ nul :: post) = start ++ ([] ++ ((c :: s') ++ nul :: post)) := by
    rw [hstart]
    conv_lhs => rw [hsplit]
    simp
  have hs' : nul ∉ c :: s' := by
    rw [hsplit] at hs
    exact fun hm => hs (List.mem_append_right _ hm)
  have hc : c ≠ nul := by
    rintro rfl
    exact hs' List.mem_cons_self
  have hcp : pre.length + (s.takeWhile isBlank).length = start.length := by
    rw [hstart, List.length_append]
  obtain ⟨gap, hcopy⟩ := copyWord_spec hs' nul start [] post
    (n := (start ++ ([] ++ ((c :: s') ++ nul :: post))).length + 1) (by simp; omega)
  have hrest := wordFrom_rest nul (c :: s')
  rw [hw] at hcopy hrest
  dsimp only at hcopy hrest
  have hread : (start ++ ([] ++ ((c :: s') ++ nul :: post)))[start.length]? = some c :=
    getElem?_append_append start [] ((c :: s') ++ nul :: post)
  rw [argvLoop, if_neg (by omega), List.drop_left, takeWhile_append_nul (p := isBlank) rfl]
  dsimp only
  rw [hcp, hbuf]
  generalize start ++ ([] ++ ((c :: s') ++ nul :: post)) = buf at hcopy hread
  simp only [List.length_nil, Nat.add_zero] at hcopy
  simp only [hread, Option.bind_some, if_neg hc, Option.bind_eq_bind, hcopy]
  have hstore (x : Char) (rest : List Char) :
      store (start ++ (w ++ x :: rest)) (start.length + w.length) nul =
        some (start ++ (w ++ nul :: rest)) := by
    rw [← List.append_assoc, ← List.length_append, store_append, List.append_assoc]
  rcases hrest with rfl | ⟨b, r, rfl, hb⟩
  · left
    refine ⟨rfl, ?_⟩
    obtain ⟨x, rest, hx⟩ : ∃ x rest, gap ++ ([] ++ nul :: post) = x :: rest :=
      List.exists_cons_of_ne_nil (by simp)
    refine ⟨rest, ?_⟩
    simp only [hx, hstore, Option.bind_some, List.headD_nil, if_true]
  · right
    have hbn : b ≠ nul := by
      rintro rfl
      exact absurd hb (by decide)
    obtain ⟨x, gap', hlen, hx⟩ := gap_shift gap b (r ++ nul :: post)
    refine ⟨gap', ?_⟩
    have hpos : (start ++ (w ++ nul :: gap')).length =
        start.length + w.length + gap.length + 1 := by
      simp only [List.length_append, List.length_cons, hlen]
      omega
    simp only [List.cons_append, hx, hstore, Option.bind_some, List.headD_cons, hbn, if_false,
      hpos, List.tail_cons, List.append_assoc]

theorem argvLoop_spec (hs : nul ∉ s) (hn : s.length < n) (pre post : List Char)
    (front slots : List (Option ℕ)) (hroom : (words s).length < slots.length)
    (hlen : front.length + (words s).length < argvLen) :
    ∃ tail, ∃ offs : List ℕ,
      argvLoop argvLen n (pre ++ (s ++ nul :: post)) (front ++ slots) front.length
        pre.length = some (pre ++ tail, front ++ (offs.map some ++ none ::
          slots.drop ((words s).length + 1)), front.length + (words s).length) ∧
      offs.map (fun off => cstr ((pre ++ tail).drop off)) = words s := by
  induction n generalizing s pre front slots with
  | zero => omega
  | succ n ih =>
    have hargc : front.length < argvLen := by omega
    rcases words_cases hs with ⟨hword, hnil⟩ | ⟨c, s', w, r, hword, hw, hwords, hlt, hn', htail⟩
    · rw [hnil] at hroom ⊢
      rw [argvLoop_end hword pre post hargc, endArgv, if_pos hargc]
      obtain ⟨x, slots, rfl⟩ := List.exists_cons_of_length_pos hroom
      refine ⟨s ++ nul :: post, [], ?_, rfl⟩
      rw [store_append]
      rfl
    · have hcstr := cstr_append_nul hn'
      rw [hwords, List.length_cons] at hroom hlen ⊢
      obtain ⟨x, slots, rfl⟩ := List.exists_cons_of_length_pos (Nat.zero_lt_of_lt hroom)
      rw [List.length_cons] at hroom
      obtain ⟨start, hstart⟩ : ∃ start, start = pre ++ s.takeWhile isBlank := ⟨_, rfl⟩
      rcases argvLoop_word n (front ++ x :: slots) hs hword pre post hargc hstart hw with
        ⟨rfl, rest, he⟩ | ⟨gap, he⟩
      · have hnil : words [].tail = [] := rfl
        rw [hnil, List.length_nil] at hroom hlen ⊢
        obtain ⟨y, slots, rfl⟩ := List.exists_cons_of_length_pos (show 0 < slots.length by omega)
        refine ⟨s.takeWhile isBlank ++ (w ++ nul :: rest), [start.length], ?_, ?_⟩
        · have hstore := store_append (x := y) (y := none) (front ++ [some start.length]) slots
          simp only [List.append_assoc, List.singleton_append, List.length_append,
            List.length_singleton] at hstore
          rw [he, store_append, Option.bind_some, endArgv, if_pos (by omega), hstore, hstart]
          simp
        · rw [← List.append_assoc, ← hstart]
          simp [hcstr]
      · rw [store_append, Option.bind_some] at he
        obtain ⟨tail, offs, hloop, hoffs⟩ := ih htail (by omega) (start ++ (w ++ nul :: gap))
          (front ++ [some start.length]) slots (by omega)
          (by rw [List.length_append, List.length_singleton]; omega)
        have hbuf : pre ++ (s.takeWhile isBlank ++ (w ++ nul :: (gap ++ tail))) =
            start ++ (w ++ nul :: gap) ++ tail := by simp [hstart]
        refine ⟨s.takeWhile isBlank ++ (w ++ nul :: (gap ++ tail)), start.length :: offs, ?_, ?_⟩
        · simp only [List.append_assoc, List.singleton_append, List.length_append,
            List.length_singleton] at hloop he ⊢
          rw [he, hloop, hstart]
          simp
          omega
        · rw [hbuf, List.map_cons, hoffs]
          congr 1
          rw [List.append_assoc, List.append_assoc, List.drop_left, List.cons_append, hcstr]

theorem argvLoop_none (hs : nul ∉ s) (hn : s.length < n) (pre post : List Char)
    (front slots : List (Option ℕ)) (hroom : slots.length ≤ (words s).length)
    (hlen : front.length + slots.length < argvLen) :
    argvLoop argvLen n (pre ++ (s ++ nul :: post)) (front ++ slots) front.length pre.length =
      none := by
  have hfull (argv : List (Option ℕ)) (x : Option ℕ) : store argv argv.length x = none :=
    store_eq_none_iff.mpr le_rfl
  induction n generalizing s pre front slots with
  | zero => omega
  | succ n ih =>
    have hargc : front.length < argvLen := by omega
    rcases words_cases hs with ⟨hword, hnil⟩ | ⟨c, s', w, r, hword, hw, hwords, hlt, -, htail⟩
    · rw [hnil] at hroom
      obtain rfl := List.length_eq_zero_iff.mp (Nat.le_zero.mp hroom)
      rw [argvLoop_end hword pre post hargc, endArgv, if_pos hargc, List.append_nil, hfull]
      rfl
    · rw [hwords, List.length_cons] at hroom
      have hround := argvLoop_word n (front ++ slots) hs hword pre post hargc rfl hw
      cases slots with
      | nil =>
        rw [List.append_nil, hfull] at hround
        rw [List.append_nil]
        rcases hround with ⟨-, rest, he⟩ | ⟨gap, he⟩
        · exact he
        · exact he
      | cons x slots =>
        rw [List.length_cons] at hroom hlen
        rcases hround with ⟨rfl, rest, he⟩ | ⟨gap, he⟩
        · have hnil : words [].tail = [] := rfl
          rw [hnil, List.length_nil] at hroom
          obtain rfl := List.length_eq_zero_iff.mp (Nat.le_zero.mp (Nat.le_of_succ_le_succ hroom))
          have hstore (off : ℕ) : store (front ++ [some off]) (front.length + 1) none = none :=
            store_eq_none_iff.mpr (by simp)
          rw [he, store_append, Option.bind_some, endArgv, if_pos (by omega), hstore]
          rfl
        · rw [he, store_append, Option.bind_some]
          have hloop := ih htail (by omega) (pre ++ s.takeWhile isBlank ++ (w ++ nul :: gap))
            (front ++ [some (pre ++ s.takeWhile isBlank).length]) slots (by omega)
            (by rw [List.length_append, List.length_singleton]; omega)
          simpa using hloop

end Loop

section Parse

variable {s : CStr} {argvLen : ℕ} {argv : List (Option ℕ)}

theorem parseArgv_spec (hs : nul ∉ s) (post : List Char) (hroom : (words s).length < argv.length)
    (hlen : (words s).length < argvLen) : ∃ buf, ∃ offs : List ℕ,
      parseArgv argv argvLen (s ++ nul :: post) = some (buf,
        offs.map some ++ none :: argv.drop ((words s).length + 1), (words s).length) ∧
      offs.map (fun off => cstr (buf.drop off)) = words s := by
  have hn : s.length < (s ++ nul :: post).length + 1 := by simp
  obtain ⟨buf, offs, hloop, hoffs⟩ :=
    argvLoop_spec hs hn [] post [] argv hroom (by simpa using hlen)
  refine ⟨buf, offs, ?_, hoffs⟩
  simpa [parseArgv] using hloop

theorem parseArgv_none (hs : nul ∉ s) (post : List Char) (hroom : argv.length ≤ (words s).length)
    (hlen : argv.length < argvLen) : parseArgv argv argvLen (s ++ nul :: post) = none := by
  have hn : s.length < (s ++ nul :: post).length + 1 := by simp
  exact argvLoop_none hs hn [] post [] argv hroom (by simpa using hlen)

end Parse

end Afly
