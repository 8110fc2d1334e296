import Mathlib.Data.Fintype.Card
import Mathlib.Tactic

/-! # Buffered streams

A process holds at most `n` streams open. What is written to a stream is in its
file for sure only once the stream is flushed or closed: how many cells a write
hands on at once, and what the system refuses, is told by an `Answer`. Every
operation has a rule for the set of open handles and one for the file behind a
handle.
-/

/-- An open stream: the file, the position of its first kept cell, and the cells written to it
that are not yet in the file. -/
structure Stdio.Stream (Path α : Type*) where
  path : Path
  base : ℕ
  pending : List α

/-- The files, and the streams that a process holds open. -/
structure Stdio (Path α : Type*) (n : ℕ) where
  files : Path → Option (List α)
  streams : Fin n → Option (Stdio.Stream Path α)

namespace Stdio

/-- The modes `r`, `r+` and `w`. -/
inductive Mode where
  | read
  | update
  | write

/-- How the system answers one use of a stream: whether it lets the file be opened, how many cells
a write takes when it is refused, how many of them go to the file at once, and whether the close
can hand on the rest. -/
structure Answer where
  grants : Bool
  accepts : Option ℕ
  out : ℕ
  flushes : Bool

structure Answer.Willing (a : Answer) : Prop where
  grants : a.grants = true
  accepts : a.accepts = none
  flushes : a.flushes = true

/-- The cells that a write takes. -/
def Answer.taken {α : Type*} (a : Answer) (data : List α) : List α :=
  match a.accepts with
  | none => data
  | some m => data.take m

theorem Answer.Willing.taken {α : Type*} {a : Answer} (h : a.Willing) (data : List α) :
    a.taken data = data := by
  rw [Answer.taken, h.accepts]

section Cells

variable {α : Type*}

/-- The cells from a position on. -/
def slice (pos size : ℕ) (l : List α) : List α := (l.drop pos).take size

theorem slice_flatMap {β : Type*} {f : β → List α} {m : ℕ} (hf : ∀ b, (f b).length = m)
    (l : List β) (i : ℕ) (hi : i < l.length) : slice (i * m) m (l.flatMap f) = f l[i] := by
  induction l generalizing i with
  | nil => simp at hi
  | cons b l ih =>
    rw [List.flatMap_cons, slice]
    cases i with
    | zero => rw [Nat.zero_mul, List.drop_zero, List.take_left' (hf b), List.getElem_cons_zero]
    | succ i =>
      have hlen := hf b
      rw [Nat.succ_mul, List.drop_append, List.drop_of_length_le (by omega), List.nil_append,
        hlen, Nat.add_sub_cancel, List.getElem_cons_succ]
      exact ih i (Nat.lt_of_succ_lt_succ hi)

theorem length_flatMap_rows {β : Type*} {f : β → List α} {m : ℕ} (hf : ∀ b, (f b).length = m)
    (l : List β) : (l.flatMap f).length = l.length * m := by
  rw [List.length_flatMap, List.map_congr_left fun b _ => hf b, List.map_const', List.sum_replicate,
    smul_eq_mul]

variable [Inhabited α] {l data data' : List α} {pos pos' size k : ℕ}

/-- Write cells over a file. A hole behind its end is filled. -/
def overwrite (l : List α) (pos : ℕ) (data : List α) : List α :=
  if data.isEmpty then l
  else l.take pos ++ List.replicate (pos - l.length) default ++ (data ++ l.drop (pos + data.length))

@[simp] theorem overwrite_nil (l : List α) (pos : ℕ) : overwrite l pos [] = l := rfl

theorem overwrite_empty (data : List α) : overwrite [] 0 data = data := by
  cases data <;> simp [overwrite]

theorem overwrite_of_ne_nil (h : data ≠ []) : overwrite l pos data =
    l.take pos ++ List.replicate (pos - l.length) default ++
      (data ++ l.drop (pos + data.length)) := by
  rw [overwrite, if_neg]
  rwa [List.isEmpty_iff]

theorem overwrite_of_le (h : pos ≤ l.length) :
    overwrite l pos data = l.take pos ++ (data ++ l.drop (pos + data.length)) := by
  by_cases hnil : data = []
  · subst hnil
    simp
  · rw [overwrite_of_ne_nil hnil, Nat.sub_eq_zero_of_le h, List.replicate_zero, List.append_nil]

/-- A write up to the end of a file. -/
theorem overwrite_to_end (h : pos + data.length = l.length) :
    overwrite l pos data = l.take pos ++ data := by
  rw [overwrite_of_le (by omega), List.drop_of_length_le (by omega), List.append_nil]

theorem length_front (l : List α) (pos : ℕ) :
    (l.take pos ++ List.replicate (pos - l.length) default).length = pos := by
  rw [List.length_append, List.length_take, List.length_replicate]
  omega

@[simp] theorem drop_overwrite (h : data ≠ []) :
    (overwrite l pos data).drop pos = data ++ l.drop (pos + data.length) := by
  rw [overwrite_of_ne_nil h, List.drop_append_of_le_length (length_front l pos).ge,
    List.drop_of_length_le (length_front l pos).le, List.nil_append]

/-- The part that a write goes to holds the cells written and, behind them, what it held. -/
theorem slice_overwrite (h : data.length ≤ size) : slice pos size (overwrite l pos data) =
    data ++ (slice pos size l).drop data.length := by
  by_cases hnil : data = []
  · subst hnil
    rfl
  · unfold slice
    rw [drop_overwrite hnil, List.take_append, List.take_of_length_le h, List.drop_take,
      List.drop_drop]

theorem le_length_overwrite (h : data ≠ []) :
    pos + data.length ≤ (overwrite l pos data).length := by
  rw [overwrite_of_ne_nil h, List.length_append, length_front, List.length_append]
  omega

theorem overwrite_overwrite : overwrite (overwrite l pos data) (pos + data.length) data' =
    overwrite l pos (data ++ data') := by
  by_cases hnil : data = []
  · subst hnil
    rfl
  by_cases hnil' : data' = []
  · subst hnil'
    rw [overwrite_nil, List.append_nil]
  have hboth : data ++ data' ≠ [] := List.append_ne_nil_of_left_ne_nil hnil data'
  have hlong : pos + data.length - (overwrite l pos data).length = 0 :=
    Nat.sub_eq_zero_of_le (le_length_overwrite hnil)
  have hfront := length_front l pos
  rw [overwrite_of_ne_nil hnil', hlong, overwrite_of_ne_nil hnil, overwrite_of_ne_nil hboth,
    List.replicate_zero, List.append_nil]
  generalize l.take pos ++ List.replicate (pos - l.length) default = front at hfront
  have hdrop : (front ++ (data ++ l.drop (pos + data.length))).drop
      (pos + data.length + data'.length) = l.drop (pos + (data ++ data').length) := by
    rw [← List.append_assoc, List.drop_append, List.drop_of_length_le, List.nil_append,
      List.drop_drop, List.length_append, List.length_append, hfront]
    · congr 1
      omega
    · rw [List.length_append, hfront]
      omega
  have htake : (front ++ (data ++ l.drop (pos + data.length))).take (pos + data.length) =
      front ++ data := by
    rw [← List.append_assoc, ← hfront, ← List.length_append, List.take_left]
  rw [hdrop, htake]
  simp only [List.append_assoc]

/-- A write where another one ended. -/
theorem overwrite_next (h : pos' = pos + data.length) :
    overwrite (overwrite l pos data) pos' data' = overwrite l pos (data ++ data') := by
  rw [h, overwrite_overwrite]

/-- A write inside a file leaves the cells outside of it alone. -/
theorem getElem?_overwrite (hpos : pos ≤ l.length) (h : k < pos ∨ pos + data.length ≤ k) :
    (overwrite l pos data)[k]? = l[k]? := by
  by_cases hnil : data = []
  · subst hnil
    rfl
  rw [overwrite_of_ne_nil hnil]
  have hfront := length_front l pos
  rw [Nat.sub_eq_zero_of_le hpos, List.replicate_zero, List.append_nil] at hfront ⊢
  rcases h with h | h
  · rw [List.getElem?_append_left (by omega), List.getElem?_take, if_pos h]
  · rw [List.getElem?_append_right (by omega), hfront, List.getElem?_append_right (by omega),
      List.getElem?_drop]
    congr 1
    omega

omit [Inhabited α] in
theorem getElem?_slice (pos size : ℕ) (l : List α) (k : ℕ) :
    (slice pos size l)[k]? = if k < size then l[pos + k]? else none := by
  rw [slice, List.getElem?_take, List.getElem?_drop]

/-- The cells of a file after a write inside of it. -/
theorem getElem?_overwrite_inside (h : pos + data.length ≤ l.length) (k : ℕ) :
    (overwrite l pos data)[k]? =
      if pos ≤ k ∧ k < pos + data.length then data[k - pos]? else l[k]? := by
  split
  · rename_i hk
    have hne : data ≠ [] := by
      rintro rfl
      rw [List.length_nil] at hk
      omega
    have hat : (overwrite l pos data)[k]? = ((overwrite l pos data).drop pos)[k - pos]? := by
      rw [List.getElem?_drop]
      congr 1
      omega
    rw [hat, drop_overwrite hne, List.getElem?_append_left (by omega)]
  · rename_i hk
    exact getElem?_overwrite (by omega) (by omega)

theorem slice_overwrite_inside (hpart : pos + data.length ≤ size)
    (hl : pos' + size ≤ l.length) : slice pos' size (overwrite l (pos' + pos) data) =
      overwrite (slice pos' size l) pos data := by
  have hlen : (slice pos' size l).length = size := by
    rw [slice, List.length_take, List.length_drop]
    omega
  ext1 k
  rw [getElem?_slice, getElem?_overwrite_inside (by omega), getElem?_overwrite_inside (by omega),
    getElem?_slice]
  have hsub : pos' + k - (pos' + pos) = k - pos := by omega
  rw [hsub]
  split_ifs <;> first | rfl | omega

theorem overwrite_inside_iff {pos₁ pos₂ : ℕ} (h₁ : pos₁ + data.length ≤ size)
    (h₂ : pos₂ + data'.length ≤ size) (hl : pos' + size ≤ l.length) :
    overwrite l (pos' + pos₁) data = overwrite l (pos' + pos₂) data' ↔
      overwrite (slice pos' size l) pos₁ data = overwrite (slice pos' size l) pos₂ data' := by
  rw [← slice_overwrite_inside h₁ hl, ← slice_overwrite_inside h₂ hl]
  constructor
  · intro h
    rw [h]
  · intro h
    ext1 k
    by_cases hk : pos' ≤ k ∧ k < pos' + size
    · have hat := congrArg (fun part : List α => part[k - pos']?) h
      rwa [getElem?_slice, getElem?_slice, if_pos (by omega), if_pos (by omega),
        Nat.add_sub_cancel' hk.1] at hat
    · rw [getElem?_overwrite (by omega) (by omega), getElem?_overwrite (by omega) (by omega)]

theorem slice_overwrite_other (hpos : pos ≤ l.length)
    (h : pos' + size ≤ pos ∨ pos + data.length ≤ pos') :
    slice pos' size (overwrite l pos data) = slice pos' size l := by
  ext1 k
  rw [slice, slice, List.getElem?_take, List.getElem?_take]
  split
  · rw [List.getElem?_drop, List.getElem?_drop, getElem?_overwrite hpos (by omega)]
  · rfl

theorem length_overwrite (hpos : pos + data.length ≤ l.length) :
    (overwrite l pos data).length = l.length := by
  by_cases hnil : data = []
  · subst hnil
    rfl
  rw [overwrite_of_ne_nil hnil, List.length_append, length_front, List.length_append,
    List.length_drop]
  omega

end Cells

variable {Path α : Type*} {n : ℕ}

def handles (io : Stdio Path α n) : Finset (Fin n) :=
  Finset.univ.filter fun fp => (io.streams fp).isSome

/-- The number of open streams. -/
def opened (io : Stdio Path α n) : ℕ := io.handles.card

def free (io : Stdio Path α n) : Option (Fin n) := Fin.find? fun fp => (io.streams fp).isNone

def setStream (io : Stdio Path α n) (fp : Fin n) (st : Option (Stream Path α)) :
    Stdio Path α n :=
  { io with streams := Function.update io.streams fp st }

section Handles

variable {io : Stdio Path α n} {fp : Fin n} {path : Path} {base size : ℕ} {pending l : List α}
  {st : Option (Stream Path α)}

@[simp] theorem setStream_streams :
    (io.setStream fp st).streams = Function.update io.streams fp st := rfl
@[simp] theorem setStream_files : (io.setStream fp st).files = io.files := rfl

@[simp] theorem mem_handles : fp ∈ io.handles ↔ (io.streams fp).isSome := by simp [handles]

theorem opened_le (io : Stdio Path α n) : io.opened ≤ n := by
  have h := Finset.card_le_univ io.handles
  rwa [Fintype.card_fin] at h

theorem streams_of_free (h : io.free = some fp) : io.streams fp = none :=
  Option.isNone_iff_eq_none.mp (Fin.eq_true_of_find?_eq_some h)

theorem free_eq_none_iff : io.free = none ↔ io.opened = n := by
  rw [free, Fin.find?_eq_none_iff]
  constructor
  · intro h
    have hall : io.handles = Finset.univ := by
      ext fp
      simpa using h fp
    rw [opened, hall, Finset.card_univ, Fintype.card_fin]
  · intro h fp
    have hall : io.handles = Finset.univ := by
      apply Finset.eq_univ_of_card
      rw [Fintype.card_fin]
      exact h
    have hfp : fp ∈ io.handles := by
      rw [hall]
      exact Finset.mem_univ fp
    simpa using hfp

theorem free_isSome_iff : io.free.isSome ↔ io.opened < n := by
  have hle := opened_le io
  rw [← not_iff_not, Option.not_isSome_iff_eq_none, free_eq_none_iff]
  omega

theorem handles_setStream : (io.setStream fp st).handles =
    if st.isSome then insert fp io.handles else io.handles.erase fp := by
  ext fp'
  by_cases hfp : fp' = fp
  · subst hfp
    cases st <;> simp
  · cases st <;> simp [hfp]

theorem handles_setStream_map {f : Stream Path α → Stream Path α} :
    (io.setStream fp ((io.streams fp).map f)).handles = io.handles := by
  rw [handles_setStream]
  cases h : io.streams fp with
  | none =>
    rw [Option.map_none, if_neg (by simp), Finset.erase_eq_of_notMem]
    simp [h]
  | some st =>
    rw [Option.map_some, Option.isSome_some, if_pos rfl, Finset.insert_eq_of_mem]
    simp [h]

/-- Read one item of `size` cells: the cells that were there, and how many items these are. -/
def fread (io : Stdio Path α n) (fp : Fin n) (size : ℕ) : Stdio Path α n × List α × ℤ :=
  match io.streams fp with
  | none => (io, [], 0)
  | some st =>
    let got := slice st.base size ((io.files st.path).getD [])
    (io.setStream fp (some { st with base := st.base + got.length }), got,
      if size = 0 ∨ got.length < size then 0 else 1)

@[simp] theorem handles_fread : (io.fread fp size).1.handles = io.handles := by
  unfold fread
  split
  · rfl
  · rename_i st hst
    rw [handles_setStream, Option.isSome_some, if_pos rfl, Finset.insert_eq_of_mem]
    rw [mem_handles, hst]
    rfl

/-- A handle has a stream whose kept cells belong behind a position of a file. -/
structure At (io : Stdio Path α n) (fp : Fin n) (path : Path) (base : ℕ) (pending l : List α) :
    Prop where
  stream : io.streams fp = some ⟨path, base, pending⟩
  file : io.files path = some l

theorem At.fread (h : io.At fp path base pending l) :
    (io.fread fp size).1.At fp path (base + (slice base size l).length) pending l ∧
      (io.fread fp size).2 = (slice base size l,
        if size = 0 ∨ (slice base size l).length < size then 0 else 1) := by
  unfold Stdio.fread
  rw [h.stream]
  dsimp only
  rw [h.file]
  exact ⟨⟨by simp, h.file⟩, rfl⟩

/-- A read finds its item when the cells are there. -/
theorem At.fread_eq_one_iff (h : io.At fp path base pending l) (size : ℕ) :
    (io.fread fp size).2.2 = 1 ↔ 0 < size ∧ base + size ≤ l.length := by
  have hlen : (slice base size l).length = min size (l.length - base) := by
    rw [slice, List.length_take, List.length_drop]
  rw [h.fread.2]
  dsimp only
  split_ifs <;> omega

end Handles

section Opening

variable [DecidableEq Path]

def setFile (io : Stdio Path α n) (path : Path) (l : Option (List α)) : Stdio Path α n :=
  { io with files := Function.update io.files path l }

/-- Open a stream. `r` and `r+` need the file, `w` empties it. -/
def fopen (a : Answer) (io : Stdio Path α n) (path : Path) (mode : Mode) :
    Option (Fin n × Stdio Path α n) :=
  if a.grants then
    io.free.bind fun fp =>
      match mode with
      | .write => some (fp, (io.setFile path (some [])).setStream fp (some ⟨path, 0, []⟩))
      | _ => (io.files path).map fun _ => (fp, io.setStream fp (some ⟨path, 0, []⟩))
  else none

variable {io io' : Stdio Path α n} {a : Answer} {fp : Fin n} {path : Path} {mode : Mode}

theorem handles_fopen (h : io.fopen a path mode = some (fp, io')) :
    fp ∉ io.handles ∧ io'.handles = insert fp io.handles := by
  unfold fopen at h
  split_ifs at h
  obtain ⟨fp', hfree, h⟩ := Option.bind_eq_some_iff.mp h
  have hnone : fp' ∉ io.handles := by
    rw [mem_handles, streams_of_free hfree]
    simp
  cases mode with
  | write =>
    cases h
    exact ⟨hnone, handles_setStream⟩
  | read =>
    obtain ⟨l, -, h⟩ := Option.map_eq_some_iff.mp h
    cases h
    exact ⟨hnone, handles_setStream⟩
  | update =>
    obtain ⟨l, -, h⟩ := Option.map_eq_some_iff.mp h
    cases h
    exact ⟨hnone, handles_setStream⟩

/-- A stream that is opened and used leaves one more stream open. -/
theorem opened_of_fopen {io₁ io₂ : Stdio Path α n} (h : io.fopen a path mode = some (fp, io₁))
    (huse : io₂.handles = io₁.handles) : io₂.opened = io.opened + 1 := by
  obtain ⟨hfree, hopen⟩ := handles_fopen h
  rw [opened, huse, hopen, Finset.card_insert_of_notMem hfree]
  rfl

/-- A file opens as long as it is not refused, a handle is free and it is there or made. -/
theorem fopen_isSome_iff (mode : Mode) : (io.fopen a path mode).isSome ↔
    a.grants = true ∧ io.opened < n ∧ (mode = .write ∨ (io.files path).isSome) := by
  unfold fopen
  split_ifs with ha
  · rw [Option.isSome_bind, ← free_isSome_iff, and_iff_right ha]
    cases io.free with
    | none => simp
    | some fp => cases mode <;> simp
  · simp [ha]

theorem at_of_fopen (hmode : mode ≠ .write) (h : io.fopen a path mode = some (fp, io')) :
    ∃ l, io.files path = some l ∧ io'.At fp path 0 [] l := by
  unfold fopen at h
  split_ifs at h
  obtain ⟨fp', -, h⟩ := Option.bind_eq_some_iff.mp h
  cases mode with
  | write => exact (hmode rfl).elim
  | read =>
    obtain ⟨l, hl, h⟩ := Option.map_eq_some_iff.mp h
    cases h
    exact ⟨l, hl, by simp, hl⟩
  | update =>
    obtain ⟨l, hl, h⟩ := Option.map_eq_some_iff.mp h
    cases h
    exact ⟨l, hl, by simp, hl⟩

theorem at_of_fopen_write (h : io.fopen a path .write = some (fp, io')) :
    io'.At fp path 0 [] [] := by
  unfold fopen at h
  split_ifs at h
  obtain ⟨fp', -, h⟩ := Option.bind_eq_some_iff.mp h
  cases h
  exact ⟨by simp, by simp [setFile]⟩

end Opening

section Writing

variable [DecidableEq Path] [Inhabited α]

/-- Put the first `k` kept cells into the file. -/
def handOn (io : Stdio Path α n) (fp : Fin n) (k : ℕ) : Stdio Path α n :=
  match io.streams fp with
  | none => io
  | some st =>
    (io.setFile st.path ((io.files st.path).map fun l =>
        overwrite l st.base (st.pending.take k))).setStream fp
      (some ⟨st.path, st.base + (st.pending.take k).length, st.pending.drop k⟩)

def fflush (io : Stdio Path α n) (fp : Fin n) : Stdio Path α n :=
  match io.streams fp with
  | none => io
  | some st => io.handOn fp st.pending.length

def fseek (io : Stdio Path α n) (fp : Fin n) (pos : ℕ) : Stdio Path α n :=
  (io.fflush fp).setStream fp (((io.fflush fp).streams fp).map fun st => { st with base := pos })

/-- Write one item, and return how many were written. -/
def fwrite (a : Answer) (io : Stdio Path α n) (fp : Fin n) (data : List α) :
    Stdio Path α n × ℤ :=
  ((io.setStream fp ((io.streams fp).map fun st =>
      { st with pending := st.pending ++ a.taken data })).handOn fp a.out,
    if data = [] ∨ (a.taken data).length < data.length then 0 else 1)

def fclose (a : Answer) (io : Stdio Path α n) (fp : Fin n) : Stdio Path α n :=
  (if a.flushes then io.fflush fp else io).setStream fp none

variable {io : Stdio Path α n} {a : Answer} {fp : Fin n} {path : Path} {base pos k size : ℕ}
  {pending l data : List α}

@[simp] theorem handles_handOn : (io.handOn fp k).handles = io.handles := by
  unfold handOn
  split
  · rfl
  · rename_i st hst
    have hmem : fp ∈ (io.setFile st.path ((io.files st.path).map fun l =>
        overwrite l st.base (st.pending.take k))).handles := by
      rw [mem_handles]
      exact Option.isSome_iff_exists.mpr ⟨st, hst⟩
    rw [handles_setStream, Option.isSome_some, if_pos rfl, Finset.insert_eq_of_mem hmem]
    rfl

@[simp] theorem handles_fflush : (io.fflush fp).handles = io.handles := by
  unfold fflush
  split
  · rfl
  · exact handles_handOn

@[simp] theorem handles_fseek : (io.fseek fp pos).handles = io.handles := by
  rw [fseek, handles_setStream_map, handles_fflush]

@[simp] theorem handles_fwrite : (io.fwrite a fp data).1.handles = io.handles := by
  rw [fwrite, handles_handOn, handles_setStream_map]

/-- A write of cells that are all taken writes the item. -/
theorem fwrite_eq_one_iff : (io.fwrite a fp data).2 = 1 ↔
    data ≠ [] ∧ data.length ≤ (a.taken data).length := by
  unfold fwrite
  dsimp only
  split_ifs with h
  · rw [or_iff_not_imp_left] at h
    simp only [zero_ne_one, false_iff, not_and, not_le]
    exact h
  · simpa [not_or] using h

@[simp] theorem handles_fclose : (io.fclose a fp).handles = io.handles.erase fp := by
  unfold fclose
  rw [handles_setStream, Option.isSome_none, if_neg (by simp)]
  split
  · rw [handles_fflush]
  · rfl

/-- A stream that is opened, used and closed leaves the streams as they were. -/
theorem opened_of_fclose {io₁ io₂ : Stdio Path α n} {mode : Mode}
    (h : io.fopen a path mode = some (fp, io₁)) (huse : io₂.handles = io₁.handles) :
    (io₂.fclose a fp).opened = io.opened := by
  obtain ⟨hfree, hopen⟩ := handles_fopen h
  rw [opened, handles_fclose, huse, hopen, Finset.erase_insert hfree]
  rfl

theorem At.handOn (h : io.At fp path base pending l) :
    (io.handOn fp k).At fp path (base + (pending.take k).length) (pending.drop k)
      (overwrite l base (pending.take k)) := by
  unfold Stdio.handOn
  rw [h.stream]
  exact ⟨by simp, by simp [setFile, h.file]⟩

theorem At.fflush (h : io.At fp path base pending l) :
    (io.fflush fp).At fp path (base + pending.length) [] (overwrite l base pending) := by
  unfold Stdio.fflush
  rw [h.stream]
  have hall := h.handOn (k := pending.length)
  rwa [List.take_length, List.drop_length] at hall

theorem At.fseek (h : io.At fp path base [] l) (pos : ℕ) :
    (io.fseek fp pos).At fp path pos [] l := by
  have hflush := h.fflush
  unfold Stdio.fseek
  rw [hflush.stream]
  exact ⟨by simp, hflush.file⟩

theorem At.fwrite (h : io.At fp path base [] l) :
    (io.fwrite a fp data).1.At fp path (base + ((a.taken data).take a.out).length)
      ((a.taken data).drop a.out) (overwrite l base ((a.taken data).take a.out)) := by
  unfold Stdio.fwrite
  rw [h.stream]
  exact At.handOn ⟨by simp, h.file⟩

theorem At.fclose (h : io.At fp path base pending l) : (io.fclose a fp).files path =
    some (if a.flushes then overwrite l base pending else l) := by
  unfold Stdio.fclose
  split
  · exact h.fflush.file
  · exact h.file

/-- A write that is followed by a close has all cells that it took in the file, unless the close is
refused. -/
theorem At.fwrite_fclose (h : io.At fp path base [] l) (a : Answer) (data : List α) :
    ((io.fwrite a fp data).1.fclose a fp).files path = some (overwrite l base
      (if a.flushes then a.taken data else (a.taken data).take a.out)) := by
  rw [h.fwrite.fclose, overwrite_overwrite, List.take_append_drop]
  split <;> rfl

end Writing

end Stdio
