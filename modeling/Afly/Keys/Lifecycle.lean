import Afly.Keys.Edits

/-! # The life of a key slot

A slot is filled by a request, confirmed by the lock, and emptied by an
acknowledged deletion, a clear or the removal of its device. No other step moves
it, as long as no registration carries a string that runs into the key table:
the copies of `afly_nxp_reg` are unbounded, and a long version string alone can
mark a slot as added.
-/

namespace Afly

open World Reach

/-- An empty slot is all zero bytes, and so is every slot of a free record. -/
structure CleanKeys (w : World) : Prop where
  none : ∀ i adx j, ((w.subdevs i).lock.keys adx j).keyState = keyStateNone →
    (w.subdevs i).lock.keys adx j = .zero
  free : ∀ i, (w.subdevs i).use = 0 → (w.subdevs i).lock.keys = Lock.zero.keys

/-- The move of one slot of the record `i`, with its cause. -/
inductive KeyMove (w : World) (e : Env × Op) (i : Slot) (key : LockKey) : LockKey → Prop where
  | stay : KeyMove w e i key key
  | fill {input : CStr} {key' : LockKey} (hop : e.2 = .addKey i input)
      (hs : key.keyState = keyStateNone) (hs' : key'.keyState = keyStateAdding) :
      KeyMove w e i key key'
  | confirm {name : CStr} {buf : ℕ → ℤ} (hop : e.2 = .rptEvent name eventNxpAddDelPassRet buf)
      (hname : w.productSubSearchByName name = some i) (hack : buf 0 = 1 ∧ buf 2 = 0)
      (hid : buf 1 = key.id) (hs : key.keyState = keyStateAdding) :
      KeyMove w e i key { key with keyState := keyStateAdded }
  | delete {name : CStr} {buf : ℕ → ℤ} (hop : e.2 = .rptEvent name eventNxpAddDelPassRet buf)
      (hname : w.productSubSearchByName name = some i) (hack : buf 0 = 0 ∧ buf 2 = 0)
      (hid : buf 1 = key.id) (hs : key.keyState = keyStateAdded) : KeyMove w e i key .zero
  | clear {name : CStr} {buf : ℕ → ℤ} (hop : e.2 = .rptEvent name eventNxpAddDelPassRet buf)
      (hname : w.productSubSearchByName name = some i) (hid : buf 1 = 0) : KeyMove w e i key .zero
  | erase (hop : e.2.Removes) : KeyMove w e i key .zero

/-- An `AddKey` request, or an acknowledgement other than that of a clear. -/
def Op.OneKey : Op → Prop
  | .addKey _ _ => True
  | .rptEvent _ eid buf => eid = eventNxpAddDelPassRet ∧ buf 1 ≠ 0
  | _ => False

structure KeyLifecycle (w : World) (e : Env × Op) (w' : World) : Prop where
  moves : ∀ i adx j, KeyMove w e i ((w.subdevs i).lock.keys adx j) ((w'.subdevs i).lock.keys adx j)
  single : e.2.OneKey → ∀ i adx j i' adx' j',
    (w'.subdevs i).lock.keys adx j ≠ (w.subdevs i).lock.keys adx j →
    (w'.subdevs i').lock.keys adx' j' ≠ (w.subdevs i').lock.keys adx' j' →
    i = i' ∧ adx = adx' ∧ j = j'

/-- Any event but a restart, with registration strings that end before the key table. -/
def Op.Harmless : Op → Prop
  | .loadAll => False
  | .nxpReg r => r.Bounded
  | _ => True

section Moves

variable {env : Env} {w w' : World} {e : Env × Op} {op : Op} {i : Slot}
  {keys' : Fin 4 → KeyBank} {adx : Fin 4} {j : Fin 128}

theorem setBankKey_move {type : ℤ} {k : Fin 128} {key : LockKey}
    (h : KeyMove w e i ((w.subdevs i).bank type k) key) :
    KeyMove w e i ((w.subdevs i).lock.keys adx j)
      (((w.subdevs i).setBankKey type k key).lock.keys adx j) := by
  rw [SubDev.setBankKey, setKey_keys]
  by_cases hadx : adx = productSubConvetType2idx type
  · subst hadx
    rw [Function.update_self]
    by_cases hj : j = k
    · subst hj; rw [Function.update_self]; exact h
    · rw [Function.update_of_ne hj]; exact .stay
  · rw [Function.update_of_ne hadx]; exact .stay

theorem KeyEdit.move (hclean : CleanKeys w) (h : KeyEdit env w op i keys') (adx : Fin 4)
    (j : Fin 128) : KeyMove w (env, op) i ((w.subdevs i).lock.keys adx j) (keys' adx j) := by
  cases h with
  | same => exact .stay
  | fill hop _ _ hj => exact setBankKey_move (.fill hop (firstNone_eq_some_iff.mp hj).1 rfl)
  | complete hop hname _ hack hj =>
    obtain ⟨⟨hs, hid⟩, -⟩ := firstAdding_eq_some_iff.mp hj
    exact setBankKey_move (.confirm hop hname hack hid.symm hs)
  | remove hop hname _ hack hj =>
    obtain ⟨⟨hs, hid⟩, -⟩ := firstAdded_eq_some_iff.mp hj
    exact setBankKey_move (.delete hop hname hack hid.symm hs)
  | clear hop hname hid =>
    unfold eraseBank
    by_cases hadx : adx = 0
    · subst hadx
      rw [Function.update_self]
      split
      · exact .stay
      · exact .clear hop hname hid
    · rw [Function.update_of_ne hadx]; exact .stay
  | erase hop => exact .erase hop
  | occupy hfree => rw [hclean.free i hfree]; exact .stay

theorem KeyEdit.target (hclean : CleanKeys w) (h : KeyEdit env w op i keys') (hone : op.OneKey)
    (hne : keys' adx j ≠ (w.subdevs i).lock.keys adx j) :
    (∃ input, op = .addKey i input ∧ adx = 1 ∧ firstNone (w.subdevs i) 2 = some j) ∨
    ∃ name buf type, op = .rptEvent name eventNxpAddDelPassRet buf ∧
      w.productSubSearchByName name = some i ∧ passIdType (buf 1) = some type ∧
      adx = productSubConvetType2idx type ∧
      ((buf 0 = 1 ∧ firstAdding (w.subdevs i) type (buf 1) = some j) ∨
        (buf 0 = 0 ∧ firstAdded (w.subdevs i) type (buf 1) = some j)) := by
  cases h with
  | same => exact absurd rfl hne
  | fill hop _ _ hj =>
    obtain ⟨hadx, rfl⟩ := eq_of_setBankKey_ne hne
    exact Or.inl ⟨_, hop, hadx, hj⟩
  | complete hop hname htype hack hj =>
    obtain ⟨hadx, rfl⟩ := eq_of_setBankKey_ne hne
    exact Or.inr ⟨_, _, _, hop, hname, htype, hadx, Or.inl ⟨hack.1, hj⟩⟩
  | remove hop hname htype hack hj =>
    obtain ⟨hadx, rfl⟩ := eq_of_setBankKey_ne hne
    exact Or.inr ⟨_, _, _, hop, hname, htype, hadx, Or.inr ⟨hack.1, hj⟩⟩
  | clear hop _ hid => subst hop; exact absurd hid hone.2
  | erase hop => cases op <;> first | exact hop.elim | exact hone.elim
  | occupy hfree => exact absurd (by rw [hclean.free i hfree]) hne

theorem Op.Harmless.ne_loadAll (h : op.Harmless) : op ≠ .loadAll := by
  rintro rfl; exact h

theorem Op.Harmless.bounded (h : op.Harmless) (r : NxpReg) (he : op = .nxpReg r) : r.Bounded := by
  subst he; exact h

/-- A step from clean key tables moves every slot along its life. -/
theorem keyLifecycle_of_step (hclean : CleanKeys w) (hop : e.2.Harmless)
    (h : w.step e = some w') : KeyLifecycle w e w' := by
  obtain ⟨env, op⟩ := e
  have hedit := step_keyEdit hop.ne_loadAll hop.bounded h
  refine ⟨fun i adx j => (hedit i).move hclean adx j, ?_⟩
  intro hone i adx j i' adx' j' hne hne'
  rcases (hedit i).target hclean hone hne with ⟨input, hop₁, hadx, hj⟩ |
      ⟨name, buf, type, hop₁, hname, htype, hadx, hj⟩ <;>
    rcases (hedit i').target hclean hone hne' with ⟨input', hop₂, hadx', hj'⟩ |
      ⟨name', buf', type', hop₂, hname', htype', hadx', hj'⟩
  · cases hop₁.symm.trans hop₂
    exact ⟨rfl, hadx.trans hadx'.symm, Option.some.inj (hj.symm.trans hj')⟩
  · cases hop₁.symm.trans hop₂
  · cases hop₁.symm.trans hop₂
  · cases hop₁.symm.trans hop₂
    obtain rfl : i = i' := Option.some.inj (hname.symm.trans hname')
    obtain rfl : type = type' := Option.some.inj (htype.symm.trans htype')
    refine ⟨rfl, hadx.trans hadx'.symm, ?_⟩
    rcases hj with ⟨hop, hj⟩ | ⟨hop, hj⟩ <;> rcases hj' with ⟨hop', hj'⟩ | ⟨hop', hj'⟩
    · exact Option.some.inj (hj.symm.trans hj')
    · exact absurd (hop.symm.trans hop') (by decide)
    · exact absurd (hop.symm.trans hop') (by decide)
    · exact Option.some.inj (hj.symm.trans hj')

theorem KeyMove.clean {key key' : LockKey} (h : KeyMove w e i key key')
    (hclean : key.keyState = keyStateNone → key = .zero) (hs : key'.keyState = keyStateNone) :
    key' = .zero := by
  cases h with
  | stay => exact hclean hs
  | fill _ _ hs' => exact absurd (hs'.symm.trans hs) (by decide)
  | confirm => exact absurd (show keyStateAdded = keyStateNone from hs) (by decide)
  | delete => rfl
  | clear => rfl
  | erase => rfl

theorem KeyEdit.free (hclean : CleanKeys w) (h : KeyEdit env w op i keys')
    (hfree : (w.subdevs i).use = 0) : keys' = Lock.zero.keys := by
  cases h with
  | same => exact hclean.free i hfree
  | fill _ huse => exact absurd hfree huse
  | complete _ hname => exact absurd hfree (use_of_search hname)
  | remove _ hname => exact absurd hfree (use_of_search hname)
  | clear _ hname => exact absurd hfree (use_of_search hname)
  | erase => rfl
  | occupy => rfl

theorem cleanKeys_of_step (hclean : CleanKeys w) (hop : e.2.Harmless)
    (h : w.step e = some w') : CleanKeys w' where
  none i adx j hs :=
    ((keyLifecycle_of_step hclean hop h).moves i adx j).clean (hclean.none i adx j) hs
  free i hfree := by
    rcases (step_recordEdit hop.ne_loadAll hop.bounded h i).use with hu | hu | hu
    · exact (step_keyEdit hop.ne_loadAll hop.bounded h i).free hclean (hu.symm.trans hfree)
    · exact absurd (hu.symm.trans hfree) (by decide)
    · rw [hu]; rfl

/-- In every run whose registrations carry strings that end before the key table, empty slots are
all zero bytes and every step moves the slots along their life. -/
theorem key_lifecycle {w₀ : World} (h₀ : ∀ i, (w₀.subdevs i).lock.keys = Lock.zero.keys)
    (hr : Reachable step (fun _ e => e.2.Harmless) w₀ w) :
    (∀ i adx j, ((w.subdevs i).lock.keys adx j).keyState = keyStateNone →
      (w.subdevs i).lock.keys adx j = .zero) ∧
    ∀ e w', e.2.Harmless → w.step e = some w' → KeyLifecycle w e w' := by
  have hclean : CleanKeys w :=
    hr.invariant ⟨fun i adx j _ => by rw [h₀ i]; rfl, fun i _ => h₀ i⟩
      fun _ _ _ hI hok hs => cleanKeys_of_step hI hok hs
  exact ⟨hclean.none, fun _ _ hop hs => keyLifecycle_of_step hclean hop hs⟩

end Moves

theorem key_lifecycle_confirmed : ∃ w, run step boot
      [(.quiet, .nxpReg newLock), addKeyOp "123456", ackOp 1 2123456 0] = some w ∧
    ((w.subdevs 0).bank 2 0).keyState = keyStateAdded ∧
    ∀ e w', e.2.Harmless → w.step e = some w' → KeyLifecycle w e w' := by
  obtain ⟨w, hw, hstate⟩ : ∃ w, run step boot
      [(.quiet, .nxpReg newLock), addKeyOp "123456", ackOp 1 2123456 0] = some w ∧
      ((w.subdevs 0).bank 2 0).keyState = keyStateAdded :=
    Option.map_eq_some_iff.mp (by decide +kernel)
  refine ⟨w, hw, hstate, (key_lifecycle (fun _ => rfl) (reachable_of_run hw ?_ .start)).2⟩
  simp only [List.forall_mem_cons, List.not_mem_nil, false_implies, implies_true, and_true]
  exact ⟨fun _ => ⟨by decide, by decide, by decide⟩, fun _ => trivial, fun _ => trivial⟩

/-- A registration whose version runs over the state of the first key slot. -/
def longVersion : NxpReg :=
  { newLock with version := List.replicate 144 'v' ++ ['\x02'] }

/-- The registration of a lock with a long version marks an empty slot as added. -/
theorem registration_adds_key :
    ¬ ∀ w₀ : World, (∀ i, (w₀.subdevs i).lock.keys = Lock.zero.keys) →
      ∀ w, Reachable step (fun _ e => e.2 ≠ .loadAll) w₀ w →
      ∀ e w', e.2 ≠ .loadAll → w.step e = some w' → KeyLifecycle w e w' := by
  intro h
  obtain ⟨w', hw', hs⟩ : ∃ w', boot.step (.quiet, .nxpReg longVersion) = some w' ∧
      ((w'.subdevs 0).lock.keys 0 0).keyState = keyStateAdded :=
    Option.map_eq_some_iff.mp (by decide +kernel)
  have hl := h boot (fun _ => rfl) boot .start (.quiet, .nxpReg longVersion) w' (by simp) hw'
  have hmove := hl.moves 0 0 0
  generalize (w'.subdevs 0).lock.keys 0 0 = key' at hs hmove
  cases hmove with
  | stay => exact absurd hs (by decide)
  | fill hop => cases hop
  | confirm hop => cases hop
  | delete hop => cases hop
  | clear hop => cases hop
  | erase hop => exact hop

end Afly
