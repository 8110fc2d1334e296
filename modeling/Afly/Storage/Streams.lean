import Afly.Storage.Files

/-! # Streams that stay open

Which calls return with the streams they started with. `product_sub_save` and
`product_sub_load` close their stream only where the transfer fails, so a call
that succeeds keeps one open for good, and what it wrote may stay in there.
-/

namespace Afly

open Stdio Reach

section Runs

variable {α : Type*} {L : Layout α} {n : ℕ}

/-- A save has a record, a stream, a file, and cells to write. -/
def SaveRuns (io : Stdio CStr α n) (subdevFile : CStr) (sd : Option Slot)
    (part : Part L.sizeof) : Prop :=
  sd.isSome ∧ io.opened < n ∧ (io.files subdevFile).isSome ∧ 0 < part.size

/-- A load has a record, a stream, a file, and all the cells to read. -/
def LoadRuns (io : Stdio CStr α n) (subdevFile : CStr) (sd : Option Slot)
    (part : Part L.sizeof) : Prop :=
  ∃ i l, sd = some i ∧ io.opened < n ∧ io.files subdevFile = some l ∧ 0 < part.size ∧
    i.val * L.sizeof + part.size ≤ l.length

end Runs

namespace FileReport

variable {α : Type*} {L : Layout α} {n : ℕ}

/-- The call transfers all it is asked for, through a stream that it opens. -/
def Leaks (r : FileReport L n) : Prop :=
  match r.call with
  | .save sd part => SaveRuns r.before r.subdevFile sd part
  | .load sd part => LoadRuns r.before r.subdevFile sd part
  | .saveAll | .loadAll => False

/-- The call returns with as many open streams as it started with. -/
def Balanced (r : FileReport L n) : Prop := r.after.opened = r.before.opened

/-- A save of a whole record that returns 0 has the record in the file. -/
def Durable (r : FileReport L n) : Prop :=
  ∀ i, r.call = .save (some i) (.whole _) → r.ret = 0 →
    ∃ l, r.after.files r.subdevFile = some l ∧
      slice (i.val * L.sizeof) L.sizeof l = L.cells (r.subdevs i)

end FileReport

/-- Every call of a run is balanced and durable, and finds as many free streams as the first. -/
structure Store.Sound {α : Type*} {L : Layout α} {n : ℕ} (s₀ s : Store L n) : Prop where
  balanced : ∀ r ∈ s.log, r.Balanced
  durable : ∀ r ∈ s.log, r.Durable
  steady : ∀ r ∈ s.log, r.before.opened = s₀.io.opened

section Calls

variable {α : Type*} {n : ℕ} {L : Layout α} {a : Answer} {io io₁ io' : Stdio CStr α n}
  {subdevFile : CStr} {subdevs subdevs' : Slot → SubDev} {sd : Option Slot} {i : Slot}
  {part : Part L.sizeof} {ret : ℤ} {fp : Fin n}

theorem length_slice_cells (part : Part L.sizeof) (sd : SubDev) :
    (slice part.off part.size (L.cells sd)).length = part.size := by
  have hfits := part.fits
  rw [slice, List.length_take, List.length_drop, L.length_cells]
  omega

theorem slice_cells_ne_nil (part : Part L.sizeof) (sd : SubDev) :
    slice part.off part.size (L.cells sd) ≠ [] ↔ 0 < part.size := by
  rw [← List.length_pos_iff, length_slice_cells]

variable [Inhabited α]

theorem fileSave_opened (hopen : io.fopen a subdevFile .update = some (fp, io₁)) :
    fileSave L a io subdevFile subdevs (some i) part =
      let w := ((io₁.fseek fp 0).fseek fp (i.val * L.sizeof)).fwrite a fp
        (slice part.off part.size (L.cells (subdevs i)))
      if w.2 ≠ 1 then (w.1.fclose a fp, -3) else (w.1, 0) := by
  unfold fileSave
  dsimp only
  rw [hopen]

theorem fileSave_cases (ha : a.Willing)
    (h : fileSave L a io subdevFile subdevs sd part = (io', ret)) :
    (SaveRuns io subdevFile sd part ∧ io'.opened = io.opened + 1 ∧ ret = 0) ∨
      (¬ SaveRuns io subdevFile sd part ∧ io'.opened = io.opened ∧ ret ≠ 0) := by
  cases sd with
  | none =>
    cases h
    right
    refine ⟨?_, rfl, by decide⟩
    rintro ⟨hsd, -⟩
    cases hsd
  | some i =>
    cases hopen : io.fopen a subdevFile .update with
    | none =>
      unfold fileSave at h
      dsimp only at h
      rw [hopen] at h
      cases h
      right
      refine ⟨?_, rfl, by decide⟩
      rintro ⟨-, hlt, hfile, -⟩
      have hsome := (fopen_isSome_iff .update).mpr ⟨ha.grants, hlt, Or.inr hfile⟩
      rw [hopen] at hsome
      cases hsome
    | some r =>
      obtain ⟨fp, io₁⟩ := r
      have hstart := ((fopen_isSome_iff _).mp (Option.isSome_iff_exists.mpr ⟨_, hopen⟩)).2
      rw [fileSave_opened hopen] at h
      dsimp only at h
      split_ifs at h with hw
      · cases h
        right
        refine ⟨?_, opened_of_fclose hopen (by simp), by decide⟩
        rintro ⟨-, -, -, hpos⟩
        exact hw (fwrite_eq_one_iff.mpr ⟨(slice_cells_ne_nil part _).mpr hpos, by rw [ha.taken]⟩)
      · cases h
        left
        have hpos := (slice_cells_ne_nil part _).mp (fwrite_eq_one_iff.mp (not_not.mp hw)).1
        exact ⟨⟨rfl, hstart.1, hstart.2.resolve_left (by simp), hpos⟩,
          opened_of_fopen hopen (by simp), rfl⟩

theorem fileLoad_opened (hopen : io.fopen a subdevFile .read = some (fp, io₁)) :
    fileLoad L a io subdevFile subdevs (some i) part =
      let r := (io₁.fseek fp (i.val * L.sizeof)).fread fp part.size
      let subdevs := Function.update subdevs i (readOver L (subdevs i) part.off r.2.1)
      if r.2.2 ≠ 1 then (r.1.fclose a fp, subdevs, -3) else (r.1, subdevs, 0) := by
  unfold fileLoad
  dsimp only
  rw [hopen]

theorem fileLoad_cases (ha : a.Willing)
    (h : fileLoad L a io subdevFile subdevs sd part = (io', subdevs', ret)) :
    (LoadRuns io subdevFile sd part ∧ io'.opened = io.opened + 1) ∨
      (¬ LoadRuns io subdevFile sd part ∧ io'.opened = io.opened) := by
  cases sd with
  | none =>
    cases h
    right
    refine ⟨?_, rfl⟩
    rintro ⟨i, l, hsd, -⟩
    cases hsd
  | some i =>
    cases hopen : io.fopen a subdevFile .read with
    | none =>
      unfold fileLoad at h
      dsimp only at h
      rw [hopen] at h
      cases h
      right
      refine ⟨?_, rfl⟩
      rintro ⟨j, l, -, hlt, hfile, -⟩
      have hsome := (fopen_isSome_iff .read).mpr
        ⟨ha.grants, hlt, Or.inr (by rw [hfile]; rfl)⟩
      rw [hopen] at hsome
      cases hsome
    | some r =>
      obtain ⟨fp, io₁⟩ := r
      have hstart := ((fopen_isSome_iff _).mp (Option.isSome_iff_exists.mpr ⟨_, hopen⟩)).2
      obtain ⟨l, hl, hat⟩ := at_of_fopen (by simp) hopen
      have hread := (hat.fseek (i.val * L.sizeof)).fread_eq_one_iff part.size
      rw [fileLoad_opened hopen] at h
      dsimp only at h
      split_ifs at h with hr
      · cases h
        right
        refine ⟨?_, opened_of_fclose hopen (by simp)⟩
        rintro ⟨j, l', hj, -, hl', hpos, hlen⟩
        cases hj
        cases hl.symm.trans hl'
        exact hr (hread.mpr ⟨hpos, hlen⟩)
      · cases h
        left
        obtain ⟨hpos, hlen⟩ := hread.mp (not_not.mp hr)
        exact ⟨⟨i, l, rfl, hstart.1, hl, hpos, hlen⟩, opened_of_fopen hopen (by simp)⟩

theorem fileSaveAll_opened : (fileSaveAll L a io subdevFile subdevs).1.opened = io.opened := by
  unfold fileSaveAll
  split
  · rfl
  · rename_i fp io₁ hopen
    dsimp only
    split_ifs
    · exact opened_of_fclose hopen (by simp)
    · exact opened_of_fclose hopen (by simp)

theorem fileLoadAll_opened : (fileLoadAll L a io subdevFile subdevs).1.opened = io.opened := by
  unfold fileLoadAll
  split
  · rfl
  · rename_i fp io₁ hopen
    dsimp only
    split_ifs
    · exact opened_of_fclose hopen (by simp)
    · exact opened_of_fclose hopen (by simp)

end Calls

/-- What every call does with the streams that it finds. -/
structure FileReport.Genuine {α : Type*} {L : Layout α} {n : ℕ} (r : FileReport L n) : Prop where
  leaks : r.Leaks → r.after.opened = r.before.opened + 1
  closes : ¬ r.Leaks → r.after.opened = r.before.opened
  returns : r.ret = 0 → (∃ sd part, r.call = .save sd part) → r.Leaks

/-- The reports so far are genuine, and without a leak no call has changed the number of open
streams. -/
structure Store.Tracked {α : Type*} {L : Layout α} {n : ℕ} (m : ℕ) (s : Store L n) : Prop where
  genuine : ∀ r ∈ s.log, r.Genuine
  steady : (∀ r ∈ s.log, ¬ r.Leaks) → s.io.opened = m ∧ ∀ r ∈ s.log, r.before.opened = m

namespace Store

variable {α : Type*} {L : Layout α} {n m : ℕ} {s s' : Store L n} {a : Answer}

theorem Tracked.leave {before : Stdio CStr α n} {call : FileCall L.sizeof} {ret : ℤ}
    {subdevFile : CStr} {subdevs : Slot → SubDev} (h : Tracked m s)
    (hbefore : before.opened = s.io.opened) {io : Stdio CStr α n}
    (hr : FileReport.Genuine ⟨call, subdevFile, before, io, subdevs, ret⟩) :
    Tracked m (Store.leave ⟨subdevs, subdevFile, io, s.log⟩ call before ret).1 := by
  constructor
  · intro r hmem
    rcases List.mem_append.mp hmem with hmem | hmem
    · exact h.genuine r hmem
    · rw [List.mem_singleton.mp hmem]
      exact hr
  · intro hno
    obtain ⟨hm, hall⟩ := h.steady fun r hmem => hno r (List.mem_append_left _ hmem)
    have hclose := hr.closes (hno _ (List.mem_append_right _ (List.mem_singleton_self _)))
    refine ⟨hclose.trans (hbefore.trans hm), ?_⟩
    intro r hmem
    rcases List.mem_append.mp hmem with hmem | hmem
    · exact hall r hmem
    · rw [List.mem_singleton.mp hmem]
      exact hbefore.trans hm

theorem Tracked.of_memory (h : Tracked m s) (hlog : s'.log = s.log) (hio : s'.io = s.io) :
    Tracked m s' := by
  constructor
  · rw [hlog]
    exact h.genuine
  · rw [hlog, hio]
    exact h.steady

variable [Inhabited α]

theorem Tracked.productSubSave (ha : a.Willing) (h : Tracked m s) (sd : Option Slot)
    (part : Part L.sizeof) : Tracked m (s.productSubSave a sd part).1 := by
  unfold Store.productSubSave
  apply h.leave rfl
  rcases fileSave_cases ha (Prod.eta (fileSave L a s.io s.subdevFile s.subdevs sd part)).symm with
    ⟨hruns, hopened, hret⟩ | ⟨hruns, hopened, hret⟩
  · constructor
    · intro _
      exact hopened
    · intro hno
      exact (hno hruns).elim
    · intro _ _
      exact hruns
  · constructor
    · intro hleak
      exact (hruns hleak).elim
    · intro _
      exact hopened
    · intro hzero
      exact (hret hzero).elim

theorem Tracked.productSubLoad (ha : a.Willing) (h : Tracked m s) (sd : Option Slot)
    (part : Part L.sizeof) : Tracked m (s.productSubLoad a sd part).1 := by
  unfold Store.productSubLoad
  apply h.leave rfl
  rcases fileLoad_cases ha (Prod.eta (fileLoad L a s.io s.subdevFile s.subdevs sd part)).symm with
    ⟨hruns, hopened⟩ | ⟨hruns, hopened⟩
  · constructor
    · intro _
      exact hopened
    · intro hno
      exact (hno hruns).elim
    · rintro - ⟨sd, part, ⟨⟩⟩
  · constructor
    · intro hleak
      exact (hruns hleak).elim
    · intro _
      exact hopened
    · rintro - ⟨sd, part, ⟨⟩⟩

theorem Tracked.productSubSaveAll (h : Tracked m s) : Tracked m (s.productSubSaveAll a).1 := by
  unfold Store.productSubSaveAll
  apply h.leave rfl
  constructor
  · rintro ⟨⟩
  · intro _
    exact fileSaveAll_opened
  · rintro - ⟨sd, part, ⟨⟩⟩

theorem productSubSaveAll_opened : (s.productSubSaveAll a).1.io.opened = s.io.opened :=
  fileSaveAll_opened

theorem Tracked.productSubLoadAll (h : Tracked m s) (db : CStr) :
    Tracked m (s.productSubLoadAll a db).1 := by
  unfold Store.productSubLoadAll
  dsimp only
  split
  · apply h.leave rfl
    constructor
    · rintro ⟨⟩
    · intro _
      exact fileLoadAll_opened
    · rintro - ⟨sd, part, ⟨⟩⟩
  · have hclear : Tracked m { s with subdevFile := db, subdevs := fun _ => .zero } :=
      h.of_memory rfl rfl
    apply hclear.productSubSaveAll.leave productSubSaveAll_opened.symm
    constructor
    · rintro ⟨⟩
    · intro _
      exact productSubSaveAll_opened
    · rintro - ⟨sd, part, ⟨⟩⟩

theorem Tracked.saveRecord (ha : a.Willing) (h : Tracked m s) (i : Slot) (sd : SubDev) :
    Tracked m ((s.setDev i sd).saveRecord a i).1 :=
  Tracked.productSubSave (s := s.setDev i sd) ha (h.of_memory rfl rfl) (some i) (.whole _)

theorem Tracked.productSubAdd (ha : a.Willing) (h : Tracked m s) {name key : CStr}
    {secret : Option CStr} {ret : ℤ} (hadd : s.productSubAdd a name key secret = some (s', ret)) :
    Tracked m s' := by
  unfold Store.productSubAdd at hadd
  split at hadd
  · obtain ⟨sd, -, he⟩ := Option.map_eq_some_iff.mp hadd
    cases he
    exact h.of_memory rfl rfl
  · split at hadd
    · cases hadd
      exact h
    · rename_i i _
      obtain ⟨sd, -, he⟩ := Option.map_eq_some_iff.mp hadd
      have hsave := h.saveRecord ha i sd
      rwa [he] at hsave

theorem Tracked.productSubDel (ha : a.Willing) (h : Tracked m s) (name : CStr) :
    Tracked m (s.productSubDel a name).1 := by
  unfold Store.productSubDel
  split
  · exact h
  · exact h.saveRecord ha _ _

theorem Tracked.productSubLockClrKey {answers : ℕ → Answer} (ha : ∀ k, (answers k).Willing)
    (h : Tracked m s) (i : Slot) (type : ℤ) :
    Tracked m (s.productSubLockClrKey answers i type).1 := by
  unfold Store.productSubLockClrKey
  dsimp only
  induction List.finRange 128 generalizing s with
  | nil => exact h
  | cons j l ih =>
    rw [List.foldl_cons]
    apply ih
    unfold clrKeyRound
    dsimp only
    split
    · exact h
    · exact h.saveRecord (ha _) _ _

theorem Tracked.deviceOp {answers : ℕ → Answer} (ha : ∀ k, (answers k).Willing)
    (h : Tracked m s) (i : Slot) (op : DeviceOp) : Tracked m (s.deviceOp answers i op) := by
  cases op with
  | addKeyWaitAck time type limit buf =>
    dsimp only [Store.deviceOp]
    split
    · exact h
    · exact h.of_memory rfl rfl
  | addKeyComplete type id =>
    dsimp only [Store.deviceOp, Store.productSubLockAddKeyComplete]
    split
    · exact h
    · exact h.saveRecord (ha 0) _ _
  | delKey type id =>
    dsimp only [Store.deviceOp, Store.productSubLockDelKey]
    split
    · exact h
    · exact h.saveRecord (ha 0) _ _
  | clrKey type => exact h.productSubLockClrKey ha i type
  | addDynamicWaitAck seed interval => exact h.of_memory rfl rfl
  | addDynamicComplete => exact h.saveRecord (ha 0) _ _

theorem Tracked.step {answers : ℕ → Answer} (ha : ∀ k, (answers k).Willing) (h : Tracked m s)
    {op : StoreOp L.sizeof} (hs : s.step (answers, op) = some s') : Tracked m s' := by
  cases op with
  | table op =>
    cases op with
    | add name key secret =>
      obtain ⟨⟨s₁, ret⟩, hadd, he⟩ := Option.map_eq_some_iff.mp hs
      cases he
      exact h.productSubAdd (ha 0) hadd
    | del name =>
      cases hs
      exact h.productSubDel (ha 0) name
    | clr =>
      cases hs
      exact Tracked.productSubSaveAll (h.of_memory rfl rfl)
    | device i op =>
      cases hs
      exact h.deviceOp ha i op
  | save sd part =>
    cases hs
    exact h.productSubSave (ha 0) sd part
  | load sd part =>
    cases hs
    exact h.productSubLoad (ha 0) sd part
  | saveAll =>
    cases hs
    exact h.productSubSaveAll
  | loadAll db =>
    cases hs
    exact h.productSubLoadAll db
  | assign i sd =>
    cases hs
    exact h.of_memory rfl rfl

/-- The answers of a run in which the file system refuses nothing. -/
def Grants (_ : Store L n) (e : (ℕ → Answer) × StoreOp L.sizeof) : Prop :=
  ∀ k, (e.1 k).Willing

theorem tracked_of_reachable {s₀ : Store L n} (h₀ : s₀.log = [])
    (h : Reachable Store.step Grants s₀ s) : Tracked s₀.io.opened s := by
  refine h.invariant ?_ fun s e s' hs hok hstep => hs.step hok hstep
  constructor
  · rw [h₀]
    intro r hmem
    cases hmem
  · rw [h₀]
    intro _
    refine ⟨rfl, ?_⟩
    intro r hmem
    cases hmem

/-- The calls of a run are sound exactly when none of them transfers all it is asked for through a
stream of its own. -/
theorem sound_iff {s₀ : Store L n} (h₀ : s₀.log = []) (h : Reachable Store.step Grants s₀ s) :
    Sound s₀ s ↔ ∀ r ∈ s.log, ¬ r.Leaks := by
  have ht := tracked_of_reachable h₀ h
  constructor
  · intro hs r hmem hleak
    have hopened := (ht.genuine r hmem).leaks hleak
    have hbalanced : r.after.opened = r.before.opened := hs.balanced r hmem
    omega
  · intro hno
    constructor
    · intro r hmem
      exact (ht.genuine r hmem).closes (hno r hmem)
    · intro r hmem i hcall hret
      exact (hno r hmem ((ht.genuine r hmem).returns hret ⟨_, _, hcall⟩)).elim
    · exact (ht.steady hno).2

end Store

instance : Inhabited SubDev := ⟨.zero⟩

def Layout.row : Layout SubDev :=
  ⟨1, fun sd => [sd], fun l => l.headD .zero, fun _ => rfl, Nat.one_pos⟩

/-- A new process that may hold 16 streams open, without a db file. -/
def Store.start : Store Layout.row 16 :=
  ⟨fun _ => .zero, "/etc/config/dusun/afly/subdev.db".toList, ⟨fun _ => none, fun _ => none⟩, []⟩

/-- Answers that refuse nothing, and hand on a write only when its stream is closed. -/
def bufferedAnswer : Answer := ⟨true, none, 0, true⟩

theorem bufferedAnswer_willing : bufferedAnswer.Willing := ⟨rfl, rfl, rfl⟩

/-- The run that makes the db file and clears the table. -/
theorem sound_cleared : ∃ s, Reachable Store.step Store.Grants Store.start s ∧
    s.log.length = 3 ∧ Store.Sound Store.start s := by
  have hgrants (s : Store Layout.row 16) (op : StoreOp Layout.row.sizeof) :
      Store.Grants s (fun _ => bufferedAnswer, op) := fun _ => bufferedAnswer_willing
  have hstart : Reachable Store.step Store.Grants Store.start Store.start := .start
  have hrun := (hstart.next (hgrants _ (.loadAll Store.start.subdevFile)) rfl).next
    (hgrants _ (.table .clr)) rfl
  refine ⟨_, hrun, rfl, (Store.sound_iff rfl hrun).mpr ?_⟩
  intro r hmem hleak
  have hcall : r.call ∈ [.saveAll, .loadAll, .saveAll] := List.mem_map_of_mem hmem
  unfold FileReport.Leaks at hleak
  simp only [List.mem_cons, List.not_mem_nil, or_false] at hcall
  rcases hcall with h | h | h
  · rw [h] at hleak
    exact hleak
  · rw [h] at hleak
    exact hleak
  · rw [h] at hleak
    exact hleak

/-- The first device that is added keeps the stream of its save open. -/
theorem added_device_keeps_stream : ¬ ∀ s, Reachable Store.step Store.Grants Store.start s →
    Store.Sound Store.start s := by
  intro hall
  obtain ⟨s, hs, ho⟩ : ∃ s, Reach.run Store.step Store.start
        [(fun _ => bufferedAnswer, .loadAll Store.start.subdevFile),
          (fun _ => bufferedAnswer, .table (.add newLock.name "a1pqkio7cMk".toList none))] =
        some s ∧ s.log.map (fun r => (r.ret, r.before.opened, r.after.opened)) =
      [(0, 0, 0), (0, 0, 0), (0, 0, 1)] :=
    Option.map_eq_some_iff.mp (by decide +kernel)
  have hreach : Reachable Store.step Store.Grants Store.start s :=
    reachable_of_run hs (by simp [Store.Grants, bufferedAnswer_willing]) .start
  obtain ⟨r, hmem, hr⟩ : ∃ r ∈ s.log, (r.ret, r.before.opened, r.after.opened) = (0, 0, 1) := by
    rw [← List.mem_map, ho]
    simp
  have hbalanced : r.after.opened = r.before.opened := (hall s hreach).balanced r hmem
  simp only [Prod.mk.injEq] at hr
  omega

end Afly
