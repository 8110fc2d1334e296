import Afly.Keys.Edits

/-! # One id, one key

Ids are taken from passwords and no step looks for an earlier key with the same
id. Two live keys of a bank therefore share an id as soon as a request repeats a
password that parses to the same number, and at no other moment of a run.
-/

namespace Afly

open World Reach

/-- No two live slots of a bank have the same id. -/
def DistinctKeys (keys : Fin 4 → KeyBank) : Prop :=
  ∀ adx j k, (keys adx j).keyState ≠ keyStateNone → (keys adx k).keyState ≠ keyStateNone →
    (keys adx j).id = (keys adx k).id → j = k

/-- An id names at most one key of a bank of a lock. -/
def DistinctIds (w : World) : Prop := ∀ i, DistinctKeys (w.subdevs i).lock.keys

/-- The events of a run of key and device operations: all but restarts and registrations. -/
def Op.OnKeys : Op → Prop
  | .loadAll | .nxpReg _ => False
  | _ => True

/-- An `AddKey` request that is accepted has an id that no live key of the bank has. -/
def AddsFreshId (w : World) (e : Env × Op) : Prop :=
  ∀ i input req, e.2 = .addKey i input → (w.subdevs i).use ≠ 0 →
    addKeyRequest e.1 input = some (.ok req) → (firstNone (w.subdevs i) 2).isSome →
    ∀ k, ((w.subdevs i).bank 2 k).keyState ≠ keyStateNone →
      ((w.subdevs i).bank 2 k).id ≠ keyId 2 req.keyStr

section Edits

variable {keys keys' : Fin 4 → KeyBank}

theorem DistinctKeys.of_le (h : DistinctKeys keys)
    (hle : ∀ adx j, (keys' adx j).keyState ≠ keyStateNone →
      (keys adx j).keyState ≠ keyStateNone ∧ (keys' adx j).id = (keys adx j).id) :
    DistinctKeys keys' := by
  intro adx j k hj hk hid
  obtain ⟨hj', hij⟩ := hle adx j hj
  obtain ⟨hk', hik⟩ := hle adx k hk
  exact h adx j k hj' hk' (hij.symm.trans (hid.trans hik))

theorem distinctKeys_zero : DistinctKeys Lock.zero.keys := fun _ _ _ h => absurd rfl h

theorem DistinctKeys.update (h : DistinctKeys keys) {adx : Fin 4} {j : Fin 128} {key : LockKey}
    (hkey : key.keyState ≠ keyStateNone →
      (keys adx j).keyState ≠ keyStateNone ∧ key.id = (keys adx j).id) :
    DistinctKeys (Function.update keys adx (Function.update (keys adx) j key)) := by
  apply h.of_le
  intro bdx k hk
  by_cases hb : bdx = adx
  · subst hb
    rw [Function.update_self] at hk ⊢
    by_cases hkj : k = j
    · subst hkj
      rw [Function.update_self] at hk ⊢
      exact hkey hk
    · rw [Function.update_of_ne hkj] at hk ⊢
      exact ⟨hk, rfl⟩
  · rw [Function.update_of_ne hb] at hk ⊢
    exact ⟨hk, rfl⟩

theorem DistinctKeys.eraseBank (h : DistinctKeys keys) (adx : Fin 4) :
    DistinctKeys (eraseBank keys adx) := by
  apply h.of_le
  intro bdx k hk
  unfold Afly.eraseBank at hk ⊢
  by_cases hb : bdx = adx
  · subst hb
    rw [Function.update_self] at hk ⊢
    split_ifs at hk ⊢ with hs
    · exact ⟨hk, rfl⟩
    · exact absurd rfl hk
  · rw [Function.update_of_ne hb] at hk ⊢
    exact ⟨hk, rfl⟩

theorem DistinctKeys.fill (h : DistinctKeys keys) {adx : Fin 4} {j : Fin 128} {key : LockKey}
    (hfresh : ∀ k, (keys adx k).keyState ≠ keyStateNone → (keys adx k).id ≠ key.id) :
    DistinctKeys (Function.update keys adx (Function.update (keys adx) j key)) := by
  intro bdx k l hk hl hid
  by_cases hb : bdx = adx
  · subst hb
    rw [Function.update_self] at hk hl hid
    by_cases hkj : k = j
    · subst hkj
      rw [Function.update_self] at hk hid
      by_contra hne
      rw [Function.update_of_ne (Ne.symm hne)] at hl hid
      exact hfresh l hl hid.symm
    · rw [Function.update_of_ne hkj] at hk hid
      by_cases hlj : l = j
      · subst hlj
        rw [Function.update_self] at hid
        exact absurd hid (hfresh k hk)
      · rw [Function.update_of_ne hlj] at hl hid
        exact h bdx k l hk hl hid
  · rw [Function.update_of_ne hb] at hk hl hid
    exact h bdx k l hk hl hid

end Edits

section Run

variable {w w' : World} {e : Env × Op}

theorem Op.OnKeys.ne_loadAll {op : Op} (h : op.OnKeys) : op ≠ .loadAll := by
  rintro rfl; exact h

theorem Op.OnKeys.bounded {op : Op} (h : op.OnKeys) (r : NxpReg) (he : op = .nxpReg r) :
    r.Bounded := by
  subst he; exact h.elim

theorem bank_two (sd : SubDev) : sd.bank 2 = sd.lock.keys 1 := rfl

/-- A step with fresh ids keeps the ids of every record distinct. -/
theorem distinctIds_of_step (h : DistinctIds w) (hop : e.2.OnKeys) (hf : AddsFreshId w e)
    (hs : w.step e = some w') : DistinctIds w' := by
  intro i
  obtain ⟨env, op⟩ := e
  have hk := step_keyEdit hop.ne_loadAll hop.bounded hs i
  generalize (w'.subdevs i).lock.keys = keys' at hk
  cases hk with
  | same => exact h i
  | fill hop huse hreq hj =>
    apply (h i).fill
    intro k hk
    exact hf i _ _ hop huse hreq (by rw [hj]; rfl) k hk
  | complete _ _ _ _ hj =>
    refine (h i).update fun _ => ⟨?_, rfl⟩
    have hst := (firstAdding_eq_some_iff.mp hj).1.1
    rw [SubDev.bank] at hst
    rw [hst]
    decide
  | remove => exact (h i).update fun hne => absurd rfl hne
  | clear => exact (h i).eraseBank 0
  | erase => exact distinctKeys_zero
  | occupy => exact distinctKeys_zero

theorem addsFreshId_of_distinct (hs : w.step e = some w') (h' : DistinctIds w') :
    AddsFreshId w e := by
  intro i input req hop huse hreq hsome k hk hid
  obtain ⟨env, op⟩ := e
  obtain rfl : op = .addKey i input := hop
  obtain ⟨j, hj⟩ := Option.isSome_iff_exists.mp hsome
  obtain ⟨w₁, h₁⟩ := subdevAddKey_accepts env hreq hj
  have hw : w' = w₁ := by
    change w.request i ((w.subdevAddKey env i input).map (·.1)) = some w' at hs
    rw [request, if_neg huse, h₁] at hs
    exact (Option.some.inj hs).symm
  subst hw
  rcases subdevAddKey_cases h₁ with ⟨hne, -⟩ | ⟨req', j', hreq', -, hj', -, -, hw'⟩
  · exact absurd rfl hne
  · obtain rfl : req' = req := by
      have he := hreq'.symm.trans hreq
      exact Except.ok.inj (Option.some.inj he)
    have hkeys := h' i
    rw [hw', Function.update_self] at hkeys
    have hkj : k ≠ j' := by rintro rfl; exact hk (firstNone_eq_some_iff.mp hj').1
    apply hkj
    apply hkeys 1 k j'
    · rw [← bank_two, setBankKey_bank, Function.update_of_ne hkj]; exact hk
    · rw [← bank_two, setBankKey_bank, Function.update_self]; exact (by decide : (1 : ℤ) ≠ 0)
    · rw [← bank_two, setBankKey_bank, Function.update_of_ne hkj, Function.update_self]; exact hid

/-- In every run of key and device operations whose `AddKey` requests bring fresh ids, all ids
are distinct, and the first request that repeats a live id ends this. -/
theorem distinct_ids_iff {w₀ : World} (h₀ : DistinctIds w₀)
    (hr : Reachable step (fun w e => e.2.OnKeys ∧ AddsFreshId w e) w₀ w) :
    DistinctIds w ∧ ∀ e w', e.2.OnKeys → w.step e = some w' →
      (DistinctIds w' ↔ AddsFreshId w e) := by
  have h : DistinctIds w :=
    hr.invariant h₀ fun _ _ _ hI hok hs => distinctIds_of_step hI hok.1 hok.2 hs
  refine ⟨h, ?_⟩
  intro e w' hop hs
  constructor
  · intro h'
    exact addsFreshId_of_distinct hs h'
  · intro hf
    exact distinctIds_of_step h hop hf hs

end Run

theorem distinctIds_single : DistinctIds (single firstDevice) := by
  intro i
  by_cases hi : i = 0
  · subst hi; exact distinctKeys_zero
  · rw [single, setDev_subdevs, Function.update_of_ne hi]; exact distinctKeys_zero

theorem addsFreshId_addKeyOp {w : World} {keyStr : String} {id id' : ℤ}
    (hid : ∀ req, addKeyRequest (addKeyOp keyStr).1 (addKeyText keyStr.toList) = some (.ok req) →
      keyId 2 req.keyStr = id)
    (h : ∀ k, ((w.subdevs 0).bank 2 k).keyState ≠ keyStateNone →
      ((w.subdevs 0).bank 2 k).id = id') (hne : id' ≠ id) : AddsFreshId w (addKeyOp keyStr) := by
  rintro i input req hop - hreq - k hk
  cases hop
  rw [h k hk, hid req hreq]
  exact hne

theorem distinct_ids_iff_confirmed : ∃ w, run step (single firstDevice)
      [addKeyOp "123456", ackOp 1 2123456 0, addKeyOp "654321"] = some w ∧ DistinctIds w ∧
    ∀ e w', e.2.OnKeys → w.step e = some w' → (DistinctIds w' ↔ AddsFreshId w e) := by
  obtain ⟨w₁, hw₁⟩ : ∃ w, (single firstDevice).step (addKeyOp "123456") = some w := ⟨_, rfl⟩
  obtain ⟨w₂, hw₂, hids⟩ : ∃ w, run step (single firstDevice)
      [addKeyOp "123456", ackOp 1 2123456 0] = some w ∧
      ∀ k, ((w.subdevs 0).bank 2 k).keyState ≠ keyStateNone →
        ((w.subdevs 0).bank 2 k).id = 2123456 := by
    obtain ⟨w, hw, h⟩ := Option.map_eq_some_iff.mp (show (run step (single firstDevice)
      [addKeyOp "123456", ackOp 1 2123456 0]).map (fun w => decide
        (∀ k, ((w.subdevs 0).bank 2 k).keyState ≠ keyStateNone →
          ((w.subdevs 0).bank 2 k).id = 2123456)) = some true by decide +kernel)
    exact ⟨w, hw, of_decide_eq_true h⟩
  obtain ⟨w₃, hw₃⟩ : ∃ w, run step (single firstDevice)
      [addKeyOp "123456", ackOp 1 2123456 0, addKeyOp "654321"] = some w :=
    Option.isSome_iff_exists.mp (by decide +kernel)
  have hone (w : World) (e : Env × Op) : run step w [e] = w.step e := Option.bind_fun_some _
  have hadd : w₂.step (addKeyOp "654321") = some w₃ := by
    have h : run step (single firstDevice)
        ([addKeyOp "123456", ackOp 1 2123456 0] ++ [addKeyOp "654321"]) = _ := run_append _ _
    rw [hw₂, Option.bind_some, hone] at h
    exact h.symm.trans hw₃
  have hack : w₁.step (ackOp 1 2123456 0) = some w₂ := by
    rw [run, hw₁, Option.bind_some, hone] at hw₂
    exact hw₂
  have hfresh₀ : AddsFreshId (single firstDevice) (addKeyOp "123456") := by
    rintro i input req hop - - - k hk
    cases hop
    exact absurd rfl hk
  have hfresh₁ : AddsFreshId w₁ (ackOp 1 2123456 0) := by rintro i input req ⟨⟩
  have hfresh₂ : AddsFreshId w₂ (addKeyOp "654321") :=
    addsFreshId_addKeyOp (by rintro req h; cases h; decide) hids
      (show (2123456 : ℤ) ≠ 2654321 by decide)
  have hkeys (keyStr : String) : (addKeyOp keyStr).2.OnKeys := trivial
  have hreach : Reachable step (fun w e => e.2.OnKeys ∧ AddsFreshId w e) (single firstDevice) w₃ :=
    ((Reachable.start.next ⟨hkeys _, hfresh₀⟩ hw₁).next ⟨trivial, hfresh₁⟩ hack).next
      ⟨hkeys _, hfresh₂⟩ hadd
  exact ⟨w₃, hw₃, distinct_ids_iff distinctIds_single hreach⟩

/-- Asking twice for one password gives two live keys with one id. -/
theorem same_password_same_id :
    ¬ ∀ w, Reachable step (fun _ e => e.2.OnKeys) (single firstDevice) w → DistinctIds w := by
  intro h
  obtain ⟨w, hw, hobs⟩ : ∃ w, run step (single firstDevice)
      [addKeyOp "123456", addKeyOp "123456"] = some w ∧
      (((w.subdevs 0).bank 2 0).keyState, ((w.subdevs 0).bank 2 0).id,
        ((w.subdevs 0).bank 2 1).keyState, ((w.subdevs 0).bank 2 1).id) =
        (keyStateAdding, 2123456, keyStateAdding, 2123456) :=
    Option.map_eq_some_iff.mp (by decide +kernel)
  simp only [Prod.mk.injEq] at hobs
  obtain ⟨hs₀, hid₀, hs₁, hid₁⟩ := hobs
  have hreach : Reachable step (fun _ e => e.2.OnKeys) (single firstDevice) w := by
    apply reachable_of_run hw _ .start
    intro e he _
    simp only [List.mem_cons, List.not_mem_nil, or_false, or_self] at he
    subst he
    trivial
  have h01 := h w hreach 0 1 0 1 (by rw [← bank_two, hs₀]; decide) (by rw [← bank_two, hs₁]; decide)
    (by rw [← bank_two, hid₀, hid₁])
  exact absurd h01 (by decide)

end Afly
