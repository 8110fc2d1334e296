import Afly.Storage.Streams

/-! # What the file holds after a device was added or deleted

A restart reads the record of a device from the db file, up to the handle and
the login state. `product_sub_add` and `product_sub_del` tell their callers that
it is there, whatever the save behind them does.
-/

namespace Afly

open Stdio

/-- A device to bind, with strings that fit their arrays. -/
structure Binding where
  name : CStr
  key : CStr
  secret : Option CStr
  fits : FitsRecord name key secret

/-- A record with the key and the secret of a device. -/
def Binding.rebind (b : Binding) (sd : SubDev) : SubDev :=
  { sd with productKey := b.key, deviceSecret := b.secret.getD [] }

/-- A free record that the device is bound in. -/
def Binding.enter (b : Binding) (sd : SubDev) : SubDev := sd.enter b.name b.key b.secret

/-- The two operations that bind and unbind a device. -/
inductive BindOp where
  | add (b : Binding)
  | del (name : CStr)

section Whole

variable {α : Type*} {L : Layout α}

theorem slice_whole (sd : SubDev) :
    slice (Part.whole L.sizeof).off (Part.whole L.sizeof).size (L.cells sd) = L.cells sd := by
  have hlen := L.length_cells sd
  rw [slice, Part.whole, List.drop_zero, List.take_of_length_le hlen.le]

theorem cells_ne_nil (sd : SubDev) : L.cells sd ≠ [] := by
  rw [← List.length_pos_iff, L.length_cells]
  exact L.sizeof_pos

end Whole

section Records

variable {α : Type*} [Inhabited α] {L : Layout α} {n : ℕ}

/-- The cells of a record, up to the handle and the login state that a restart clears. -/
def Agrees (L : Layout α) (cells : List α) (sd : SubDev) : Prop :=
  ∃ devid login, cells = L.cells { sd with devid := devid, login := login }

/-- How many cells of a write are in the file when `product_sub_save` returns: a complete write
stays in its stream, a cut one is followed by a close. -/
def reached (a : Answer) (size : ℕ) : ℕ :=
  match a.accepts with
  | none => min size a.out
  | some m => if size ≤ m then min size a.out else if a.flushes then m else min m a.out

namespace Store

/-- The part of the file that belongs to a record. -/
def fileRecord (s : Store L n) (i : Slot) : List α :=
  slice (i.val * L.sizeof) L.sizeof ((s.io.files s.subdevFile).getD [])

def Opens (a : Answer) (s : Store L n) : Prop :=
  a.grants = true ∧ s.io.opened < n ∧ (s.io.files s.subdevFile).isSome

instance (a : Answer) (s : Store L n) : Decidable (s.Opens a) := inferInstanceAs (Decidable (_ ∧ _))

/-- A save of a whole record is taken completely. -/
def Completes (a : Answer) (s : Store L n) : Prop :=
  s.Opens a ∧ ∀ m, a.accepts = some m → L.sizeof ≤ m

/-- What the file holds for a record after a save of `sd`. -/
def landed (a : Answer) (s : Store L n) (i : Slot) (sd : SubDev) : List α :=
  if s.Opens a then (L.cells sd).take (reached a L.sizeof) ++
    (s.fileRecord i).drop (reached a L.sizeof)
  else s.fileRecord i

/-- What the caller is told holds: an operation that fails leaves the table alone, and after one
that returns 0 the file agrees with the table about the device. -/
def Kept (a : Answer) (s : Store L n) : BindOp → Prop
  | .add b => ∃ s' ret, s.productSubAdd a b.name b.key b.secret = some (s', ret) ∧
      (ret ≠ 0 → s'.subdevs = s.subdevs) ∧
      (ret = 0 → ∀ i, searchByName s'.subdevs b.name = some i →
        Agrees L (s'.fileRecord i) (s'.subdevs i))
  | .del name => ∃ s' ret, s.productSubDel a name = (s', ret) ∧
      (ret ≠ 0 → s'.subdevs = s.subdevs) ∧
      (ret = 0 → ∀ i, searchByName s.subdevs name = some i →
        Agrees L (s'.fileRecord i) (s'.subdevs i))

/-- A bound name: the file has the new key and secret already. A new name: the table is full, or
the save is taken completely and what it leaves in its stream is in the file already. A deletion:
the name is not bound, or what the save does not hand on is in the file already. -/
def KeepsTogether (a : Answer) (s : Store L n) : BindOp → Prop
  | .add b =>
    match searchByName s.subdevs b.name with
    | some i => Agrees L (s.fileRecord i) (b.rebind (s.subdevs i))
    | none =>
      match malloc s.subdevs with
      | none => True
      | some i => s.Completes a ∧
          Agrees L (s.landed a i (b.enter (s.subdevs i))) (b.enter (s.subdevs i))
  | .del name =>
    match searchByName s.subdevs name with
    | none => True
    | some i => Agrees L (s.landed a i .zero) .zero

variable {a : Answer} {s s' : Store L n} {i : Slot} {sd : SubDev} {ret : ℤ}

theorem saveRecord_of_not_opens (h : ¬ s.Opens a) :
    (s.saveRecord a i).1.io = s.io ∧ (s.saveRecord a i).2 = -2 := by
  have hopen : s.io.fopen a s.subdevFile .update = none := by
    rw [← Option.not_isSome_iff_eq_none, fopen_isSome_iff]
    simpa [Opens] using h
  unfold saveRecord productSubSave fileSave
  dsimp only
  rw [hopen]
  exact ⟨rfl, rfl⟩

theorem slice_overwrite_take {pos k : ℕ} {l : List α} (sd : SubDev) (hk : k ≤ L.sizeof) :
    slice pos L.sizeof (overwrite l pos ((L.cells sd).take k)) =
      (L.cells sd).take k ++ (slice pos L.sizeof l).drop k := by
  have hlen : ((L.cells sd).take k).length = k := by
    rw [List.length_take, L.length_cells, min_eq_left hk]
  rw [slice_overwrite (hlen.trans_le hk), hlen]

theorem exists_stream {l : List α} (h : s.Opens a) (hl : s.io.files s.subdevFile = some l)
    (i : Slot) : ∃ fp io₁, s.io.fopen a s.subdevFile .update = some (fp, io₁) ∧
      ((io₁.fseek fp 0).fseek fp (i.val * L.sizeof)).At fp s.subdevFile
        (i.val * L.sizeof) [] l := by
  obtain ⟨⟨fp, io₁⟩, hopen⟩ := Option.isSome_iff_exists.mp
    ((fopen_isSome_iff .update).mpr ⟨h.1, h.2.1, Or.inr h.2.2⟩)
  obtain ⟨l', hl', hat⟩ := at_of_fopen (by simp) hopen
  obtain rfl : l = l' := Option.some.inj (hl.symm.trans hl')
  exact ⟨fp, io₁, hopen, (hat.fseek _).fseek _⟩

theorem saveRecord_opened {fp : Fin n} {io₁ : Stdio CStr α n}
    (hopen : s.io.fopen a s.subdevFile .update = some (fp, io₁)) (i : Slot) :
    ((s.saveRecord a i).1.io, (s.saveRecord a i).2) =
      let w := ((io₁.fseek fp 0).fseek fp (i.val * L.sizeof)).fwrite a fp (L.cells (s.subdevs i))
      if w.2 ≠ 1 then (w.1.fclose a fp, -3) else (w.1, 0) := by
  unfold saveRecord productSubSave
  dsimp only
  rw [fileSave_opened hopen, slice_whole]
  rfl

theorem saveRecord_completes {l : List α} (h : s.Completes a)
    (hl : s.io.files s.subdevFile = some l) (i : Slot) :
    (s.saveRecord a i).1.io.files s.subdevFile = some (overwrite l (i.val * L.sizeof)
      ((L.cells (s.subdevs i)).take (reached a L.sizeof))) ∧ (s.saveRecord a i).2 = 0 := by
  obtain ⟨fp, io₁, hopen, hat⟩ := exists_stream h.1 hl i
  have htaken : a.taken (L.cells (s.subdevs i)) = L.cells (s.subdevs i) := by
    unfold Answer.taken
    split
    · rfl
    · rename_i m hm
      rw [List.take_of_length_le ((L.length_cells _).trans_le (h.2 m hm))]
  have hsave := saveRecord_opened hopen i
  dsimp only at hsave
  rw [if_neg (not_not.mpr (fwrite_eq_one_iff.mpr ⟨cells_ne_nil _, by rw [htaken]⟩))] at hsave
  obtain ⟨hio, hret⟩ := Prod.mk.inj hsave
  have hreached : reached a L.sizeof = min L.sizeof a.out := by
    unfold reached
    split
    · rfl
    · rename_i m hm
      rw [if_pos (h.2 m hm)]
  refine ⟨?_, hret⟩
  rw [hio, hat.fwrite.file, htaken, hreached, ← L.length_cells (s.subdevs i), min_comm,
    ← List.take_take, List.take_length]

theorem saveRecord_cut {m : ℕ} {l : List α} (h : s.Opens a) (hm : a.accepts = some m)
    (hcut : m < L.sizeof) (hl : s.io.files s.subdevFile = some l) (i : Slot) :
    (s.saveRecord a i).1.io.files s.subdevFile = some (overwrite l (i.val * L.sizeof)
      ((L.cells (s.subdevs i)).take (reached a L.sizeof))) ∧ (s.saveRecord a i).2 = -3 := by
  obtain ⟨fp, io₁, hopen, hat⟩ := exists_stream h hl i
  have htaken : a.taken (L.cells (s.subdevs i)) = (L.cells (s.subdevs i)).take m := by
    rw [Answer.taken, hm]
  have hret : (((io₁.fseek fp 0).fseek fp (i.val * L.sizeof)).fwrite a fp
      (L.cells (s.subdevs i))).2 ≠ 1 := by
    rw [ne_eq, fwrite_eq_one_iff, htaken, List.length_take, L.length_cells]
    omega
  have hsave := saveRecord_opened hopen i
  dsimp only at hsave
  rw [if_pos hret] at hsave
  obtain ⟨hio, hret⟩ := Prod.mk.inj hsave
  have hreached : reached a L.sizeof = if a.flushes then m else min m a.out := by
    unfold reached
    rw [hm]
    exact if_neg (by omega)
  refine ⟨?_, hret⟩
  rw [hio, hat.fwrite_fclose, htaken, hreached]
  split
  · rfl
  · rw [List.take_take, min_comm]

theorem reached_le (a : Answer) (size : ℕ) : reached a size ≤ size := by
  unfold reached
  split
  · exact min_le_left _ _
  · split_ifs <;> omega

theorem saveRecord_files {l : List α} (h : s.Opens a) (hl : s.io.files s.subdevFile = some l)
    (i : Slot) : (s.saveRecord a i).1.io.files s.subdevFile = some (overwrite l (i.val * L.sizeof)
      ((L.cells (s.subdevs i)).take (reached a L.sizeof))) ∧
    ((s.saveRecord a i).2 = 0 ↔ s.Completes a) := by
  by_cases hcut : ∃ m, a.accepts = some m ∧ m < L.sizeof
  · obtain ⟨m, hm, hlt⟩ := hcut
    obtain ⟨hfile, hret⟩ := saveRecord_cut h hm hlt hl i
    refine ⟨hfile, ?_⟩
    rw [hret]
    constructor
    · intro hzero
      cases hzero
    · intro hcomplete
      exact absurd (hcomplete.2 m hm) (not_le.mpr hlt)
  · have hcomplete : s.Completes a := by
      refine ⟨h, ?_⟩
      intro m hm
      by_contra hlt
      exact hcut ⟨m, hm, not_le.mp hlt⟩
    obtain ⟨hfile, hret⟩ := saveRecord_completes hcomplete hl i
    exact ⟨hfile, iff_of_true hret hcomplete⟩

/-- A save leaves the table alone, puts into the record's part of the file what it hands on, and
returns 0 exactly when it is taken completely. -/
theorem saveRecord_spec (h : s.saveRecord a i = (s', ret)) : s'.subdevs = s.subdevs ∧
    s'.fileRecord i = s.landed a i (s.subdevs i) ∧ (ret = 0 ↔ s.Completes a) := by
  obtain rfl : (s.saveRecord a i).1 = s' := by rw [h]
  obtain rfl : (s.saveRecord a i).2 = ret := by rw [h]
  have hname : (s.saveRecord a i).1.subdevFile = s.subdevFile := rfl
  refine ⟨rfl, ?_⟩
  by_cases hopens : s.Opens a
  · obtain ⟨l, hl⟩ := Option.isSome_iff_exists.mp hopens.2.2
    obtain ⟨hfile, hret⟩ := saveRecord_files hopens hl i
    refine ⟨?_, hret⟩
    rw [fileRecord, hname, hfile, landed, if_pos hopens, fileRecord, hl, Option.getD_some,
      Option.getD_some, slice_overwrite_take _ (reached_le a _)]
  · obtain ⟨hio, hret⟩ := saveRecord_of_not_opens (i := i) hopens
    constructor
    · rw [landed, if_neg hopens, fileRecord, hio, hname, fileRecord]
    · rw [hret]
      constructor
      · intro hzero
        cases hzero
      · intro hcomplete
        exact (hopens hcomplete.1).elim

end Store

end Records

section Search

variable {subdevs : Slot → SubDev} {name : CStr} {i : Slot}

theorem searchByName_eq_some_iff : searchByName subdevs name = some i ↔
    ((subdevs i).use ≠ 0 ∧ name = (subdevs i).deviceName) ∧
      ∀ k < i, ¬ ((subdevs k).use ≠ 0 ∧ name = (subdevs k).deviceName) :=
  World.productSubSearchByName_eq_some_iff (w := { World.boot with subdevs := subdevs })

theorem searchByName_eq_none_iff : searchByName subdevs name = none ↔
    ∀ k, ¬ ((subdevs k).use ≠ 0 ∧ name = (subdevs k).deviceName) := by
  simp only [searchByName, Fin.find?_eq_none_iff, decide_eq_false_iff_not]

theorem searchByName_update {sd : SubDev} (h : searchByName subdevs name = some i)
    (huse : sd.use = (subdevs i).use) (hname : sd.deviceName = (subdevs i).deviceName) :
    searchByName (Function.update subdevs i sd) name = some i := by
  rw [searchByName_eq_some_iff] at h ⊢
  obtain ⟨hi, hlt⟩ := h
  constructor
  · rwa [Function.update_self, huse, hname]
  · intro k hk
    rw [Function.update_of_ne hk.ne]
    exact hlt k hk

theorem searchByName_enter {sd : SubDev} (h : searchByName subdevs name = none)
    (huse : sd.use ≠ 0) (hname : sd.deviceName = name) :
    searchByName (Function.update subdevs i sd) name = some i := by
  rw [searchByName_eq_some_iff]
  rw [searchByName_eq_none_iff] at h
  constructor
  · rw [Function.update_self]
    exact ⟨huse, hname.symm⟩
  · intro k hk
    rw [Function.update_of_ne hk.ne]
    exact h k

theorem use_of_malloc_eq (h : malloc subdevs = some i) : (subdevs i).use = 0 :=
  World.use_of_malloc (w := { World.boot with subdevs := subdevs }) h

end Search

namespace Store

variable {α : Type*} {L : Layout α} {n : ℕ} {a : Answer} {s : Store L n} {b : Binding} {i : Slot}
  {name : CStr}

theorem setDev_self (s : Store L n) (i : Slot) (sd : SubDev) :
    (s.setDev i sd).subdevs i = sd := by simp [setDev]

variable [Inhabited α]

theorem kept_add_bound (h : searchByName s.subdevs b.name = some i) :
    s.Kept a (.add b) ↔ Agrees L (s.fileRecord i) (b.rebind (s.subdevs i)) := by
  have hadd : s.productSubAdd a b.name b.key b.secret =
      some (s.setDev i (b.rebind (s.subdevs i)), 0) := by
    unfold productSubAdd
    rw [h]
    dsimp only
    rw [SubDev.assign_of_fits b.fits, Option.map_some]
    rfl
  have hfound : searchByName (s.setDev i (b.rebind (s.subdevs i))).subdevs b.name = some i :=
    searchByName_update h rfl rfl
  constructor
  · rintro ⟨s', ret, he, -, hagrees⟩
    cases hadd.symm.trans he
    have hi := hagrees rfl i hfound
    rwa [setDev_self] at hi
  · intro hagrees
    refine ⟨_, _, hadd, fun hne => (hne rfl).elim, ?_⟩
    intro _ j hj
    obtain rfl : i = j := Option.some.inj (hfound.symm.trans hj)
    rw [setDev_self]
    exact hagrees

theorem kept_add_free (h : searchByName s.subdevs b.name = none)
    (hfree : malloc s.subdevs = some i) : s.Kept a (.add b) ↔ s.Completes a ∧
      Agrees L (s.landed a i (b.enter (s.subdevs i))) (b.enter (s.subdevs i)) := by
  have hadd : s.productSubAdd a b.name b.key b.secret =
      some ((s.setDev i (b.enter (s.subdevs i))).saveRecord a i) := by
    unfold productSubAdd
    rw [h]
    dsimp only
    rw [hfree]
    dsimp only
    rw [SubDev.occupy_eq_enter b.fits, Option.map_some]
    rfl
  have hfound : searchByName (s.setDev i (b.enter (s.subdevs i))).subdevs b.name = some i :=
    searchByName_enter h (by simp [Binding.enter, SubDev.enter]) rfl
  generalize hsave : (s.setDev i (b.enter (s.subdevs i))).saveRecord a i = r at hadd
  obtain ⟨s₁, ret₁⟩ := r
  obtain ⟨hsub, hfile, hret⟩ := saveRecord_spec hsave
  rw [setDev_self] at hfile
  have hchanged : (s.setDev i (b.enter (s.subdevs i))).subdevs ≠ s.subdevs := by
    intro he
    have huse := congrArg SubDev.use (congrFun he i)
    rw [setDev_self, use_of_malloc_eq hfree] at huse
    cases huse
  constructor
  · rintro ⟨s', ret, he, hfail, hagrees⟩
    cases hadd.symm.trans he
    have hzero : ret₁ = 0 := by
      by_contra hne
      exact hchanged (hsub.symm.trans (hfail hne))
    have hi := hagrees hzero i (by rw [hsub]; exact hfound)
    rw [hfile, hsub, setDev_self] at hi
    exact ⟨hret.mp hzero, hi⟩
  · rintro ⟨hcomplete, hagrees⟩
    refine ⟨_, _, hadd, fun hne => (hne (hret.mpr hcomplete)).elim, ?_⟩
    intro _ j hj
    rw [hsub] at hj
    obtain rfl : i = j := Option.some.inj (hfound.symm.trans hj)
    rw [hfile, hsub, setDev_self]
    exact hagrees

theorem kept_add_full (h : searchByName s.subdevs b.name = none)
    (hfree : malloc s.subdevs = none) : s.Kept a (.add b) := by
  have hadd : s.productSubAdd a b.name b.key b.secret = some (s, -1) := by
    unfold productSubAdd
    rw [h]
    dsimp only
    rw [hfree]
  refine ⟨_, _, hadd, fun _ => rfl, ?_⟩
  intro hret
  cases hret

theorem kept_del_bound (h : searchByName s.subdevs name = some i) :
    s.Kept a (.del name) ↔ Agrees L (s.landed a i .zero) .zero := by
  have hdel : s.productSubDel a name = (((s.setDev i .zero).saveRecord a i).1, 0) := by
    unfold productSubDel
    rw [h]
  generalize hsave : (s.setDev i .zero).saveRecord a i = r at hdel
  obtain ⟨s₁, ret₁⟩ := r
  obtain ⟨hsub, hfile, -⟩ := saveRecord_spec hsave
  rw [setDev_self] at hfile
  constructor
  · rintro ⟨s', ret, he, -, hagrees⟩
    cases hdel.symm.trans he
    have hi := hagrees rfl i h
    rwa [hfile, hsub, setDev_self] at hi
  · intro hagrees
    refine ⟨_, _, hdel, fun hne => (hne rfl).elim, ?_⟩
    intro _ j hj
    obtain rfl : i = j := Option.some.inj (h.symm.trans hj)
    rw [hfile, hsub, setDev_self]
    exact hagrees

theorem kept_del_unbound (h : searchByName s.subdevs name = none) : s.Kept a (.del name) := by
  have hdel : s.productSubDel a name = (s, 0) := by
    unfold productSubDel
    rw [h]
  refine ⟨_, _, hdel, fun hne => (hne rfl).elim, ?_⟩
  intro _ i hi
  cases h.symm.trans hi

/-- Memory and file move together exactly when the file has what is not saved. -/
theorem kept_iff (a : Answer) (s : Store L n) (op : BindOp) :
    s.Kept a op ↔ s.KeepsTogether a op := by
  cases op with
  | add b =>
    unfold KeepsTogether
    dsimp only
    cases h : searchByName s.subdevs b.name with
    | some i => exact kept_add_bound h
    | none =>
      dsimp only
      cases hfree : malloc s.subdevs with
      | some i => exact kept_add_free h hfree
      | none => exact iff_of_true (kept_add_full h hfree) trivial
  | del name =>
    unfold KeepsTogether
    dsimp only
    cases h : searchByName s.subdevs name with
    | some i => exact kept_del_bound h
    | none => exact iff_of_true (kept_del_unbound h) trivial

end Store

def refusal : Answer := ⟨false, none, 0, false⟩

/-- The device of the first record of the program, as a binding. -/
def firstBinding : Binding :=
  ⟨firstDevice.deviceName, firstDevice.productKey, some firstDevice.deviceSecret,
    ⟨by decide, by decide, by decide⟩⟩

/-- A device whose save is refused is in the table, and its addition has failed. -/
theorem failed_add_stays : ¬ ∀ (a : Answer) (s : Store Layout.row 16) (op : BindOp),
    s.Kept a op := by
  intro hall
  have hsearch : searchByName Store.start.subdevs firstBinding.name = none := by decide +kernel
  have hmalloc : malloc Store.start.subdevs = some 0 := by decide +kernel
  have hkept := (Store.kept_add_free hsearch hmalloc).mp (hall refusal _ _)
  exact absurd hkept.1.1.1 (by decide)

end Afly
