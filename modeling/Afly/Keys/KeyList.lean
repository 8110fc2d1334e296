import Afly.Cloud.Handlers
import Afly.Keys.AddKey
import Afly.Keys.Lifecycle

/-! # The list of keys

The lookup by rank counts the confirmed slots of a bank, so that the ranks below
their number give each of them once. A slot keeps the bytes of the request that
filled it and their number for as long as it is in use, and the list prints that
many bytes: what a former key left behind them is never read.
-/

namespace Afly

open World Reach

/-- The confirmed slots of a bank, in the order of the bank. -/
def SubDev.added (sd : SubDev) (type : ℤ) : List (Fin 128) :=
  (List.finRange 128).filter fun j => (sd.bank type j).keyState = keyStateAdded

def LockKey.text (key : LockKey) : CStr := snprintfStr key.len (cstr (List.ofFn key.buf))

section Ranks

variable {sd : SubDev} {type : ℤ}

theorem getKeyLoop_eq (l : List (Fin 128)) {i idx : ℕ} (h : idx ≤ i) :
    getKeyLoop sd type i l idx =
      (l.filter fun j => (sd.bank type j).keyState = keyStateAdded)[i - idx]? := by
  induction l generalizing idx with
  | nil => rfl
  | cons j l ih =>
    rw [getKeyLoop]
    by_cases hj : (sd.bank type j).keyState = keyStateAdded
    · rw [if_neg (not_not.mpr hj), List.filter_cons_of_pos (by simpa using hj)]
      by_cases hidx : idx = i
      · subst hidx
        rw [if_neg (not_not.mpr rfl), Nat.sub_self, List.getElem?_cons_zero]
      · obtain ⟨n, hn⟩ : ∃ n, i - idx = n + 1 := ⟨i - idx - 1, by omega⟩
        have hrest : i - (idx + 1) = n := by omega
        rw [if_pos hidx, ih (by omega), hn, List.getElem?_cons_succ, hrest]
    · rw [if_pos hj, List.filter_cons_of_neg (by simpa using hj), ih h]

theorem getKeyNum_eq_length : productSubLockGetKeyNum sd type = (sd.added type).length := rfl

theorem getKeyI_eq {i : ℕ} (h : i < productSubLockGetKeyNum sd type) :
    productSubLockGetKeyI sd i type = (sd.added type)[i]? := by
  rw [productSubLockGetKeyI, if_pos h, getKeyLoop_eq _ i.zero_le, Nat.sub_zero]
  rfl

theorem filterMap_range_getElem? {α β : Type*} (l : List α) (f : α → β) :
    ((List.range l.length).filterMap fun i => (l[i]?).map f) = l.map f := by
  induction l with
  | nil => rfl
  | cons a l ih =>
    rw [List.length_cons, List.range_succ_eq_map, List.filterMap_cons, List.filterMap_map]
    simp only [List.getElem?_cons_zero, Option.map_some, List.map_cons]
    congr 1

theorem keyList_eq : keyList sd type =
    .arr ((sd.added type).map fun j => .obj (keyProperties (sd.bank type j)).object) := by
  rw [keyList, ← filterMap_range_getElem?, ← getKeyNum_eq_length]
  congr 1
  apply List.filterMap_congr
  intro i hi
  rw [getKeyI_eq (List.mem_range.mp hi)]

end Ranks

section Text

variable {keyStr : CStr}

theorem ascii_of_valid (hv : productValidPasswordString keyStr = true) :
    ∀ c ∈ keyStr, c.toNat < 0x80 ∧ c ≠ nul := by
  intro c hc
  rcases keyChars_of_valid hv c hc with hdigit | rfl
  · refine ⟨(toNat_of_isDigit hdigit).2.trans_lt (by decide), ?_⟩
    rintro rfl
    exact absurd hdigit (by decide)
  · decide

theorem fillKey_text {old : LockKey} {time type limit : ℤ}
    (hv : productValidPasswordString keyStr = true) :
    (fillKey old time type limit keyStr).text = keyStr := by
  have hlen := length_le_of_valid hv
  have hstr : (List.ofFn (fillKey old time type limit keyStr).buf).take keyStr.length = keyStr :=
    fillKey_str (by omega)
  generalize hb : List.ofFn (fillKey old time type limit keyStr).buf = buf at hstr
  obtain ⟨rest, rfl⟩ : ∃ rest, buf = keyStr ++ rest :=
    ⟨_, (List.take_append_drop keyStr.length buf).symm.trans (by rw [hstr])⟩
  have hnul : ∀ c ∈ keyStr, decide (c ≠ nul) = true := fun c hc =>
    decide_eq_true (ascii_of_valid hv c hc).2
  calc (fillKey old time type limit keyStr).text
      = snprintfStr keyStr.length (cstr (keyStr ++ rest)) := by rw [← hb]; rfl
    _ = (cstr (keyStr ++ rest)).take keyStr.length := by
      rw [snprintfStr, if_pos (by omega), Int.toNat_natCast]
    _ = keyStr := by
      rw [cstr, List.takeWhile_append_of_pos hnul, List.take_left]

theorem keyProperties_object {key : LockKey} (h : key.text = keyStr)
    (hv : productValidPasswordString keyStr = true) :
    (keyProperties key).object = [("LockType", .int key.type), ("UserLimit", .int key.limit),
      ("KeyStr", .str keyStr), ("KeyID", .str (sprintfInt key.id))] := by
  have hkey : jsonString (snprintfStr key.len (cstr (List.ofFn key.buf))) = some (.str keyStr) := by
    rw [← h]
    exact jsonString_ascii fun c hc => (ascii_of_valid hv c (h ▸ hc)).1
  have hid : jsonString (sprintfInt key.id) = some (.str (sprintfInt key.id)) :=
    jsonString_ascii fun c hc => ascii_sprintfInt hc
  rw [keyProperties, hkey, hid]
  rfl

end Text

/-- A state, with the string of the request that last filled each slot of a password bank. -/
structure Filled where
  world : World
  keyStr : Slot → Fin 128 → CStr

/-- The slot that an accepted request takes, and the string that it submits. -/
def World.takes (w : World) : Env × Op → Option (Slot × Fin 128 × CStr)
  | (env, .addKey i input) =>
    if (w.subdevs i).use ≠ 0 ∧ (w.subdevAddKey env i input).map (·.2) = some 0 then do
      let jin ← env.jsonLoads input
      let keyStr ← jsonGetString jin "KeyStr"
      let j ← firstNone (w.subdevs i) 2
      some (i, j, keyStr)
    else none
  | _ => none

/-- Handle one event, and note the string where it fills a slot. -/
def Filled.step (T : Filled) (e : Env × Op) : Option Filled :=
  (T.world.step e).map fun w =>
    ⟨w, match T.world.takes e with
      | none => T.keyStr
      | some (i, j, keyStr) => Function.update T.keyStr i (Function.update (T.keyStr i) j keyStr)⟩

/-- The passwords of a lock, with the strings that were submitted for them. -/
def Filled.passwords (T : Filled) (i : Slot) : Json :=
  .arr (((T.world.subdevs i).added 2).map fun j =>
    let key := (T.world.subdevs i).bank 2 j
    .obj [("LockType", .int key.type), ("UserLimit", .int key.limit),
      ("KeyStr", .str (T.keyStr i j)), ("KeyID", .str (sprintfInt key.id))])

section Steps

variable {T T' : Filled} {w w' : World} {e : Env × Op} {i : Slot} {j : Fin 128}

theorem takes_free {keyStr : CStr} (h : w.takes e = some (i, j, keyStr)) :
    ((w.subdevs i).bank 2 j).keyState = keyStateNone := by
  obtain ⟨env, op⟩ := e
  cases op with
  | addKey i' input =>
    rw [takes] at h
    split_ifs at h
    obtain ⟨jin, -, h₁⟩ := Option.bind_eq_some_iff.mp h
    obtain ⟨s, -, h₂⟩ := Option.bind_eq_some_iff.mp h₁
    obtain ⟨k, hk, h₃⟩ := Option.bind_eq_some_iff.mp h₂
    cases h₃
    exact (firstNone_eq_some_iff.mp hk).1
  | _ => cases h

theorem takes_of_fill {env : Env} {input : CStr} {req : AddKeyReq} (huse : (w.subdevs i).use ≠ 0)
    (hreq : addKeyRequest env input = some (.ok req)) (hj : firstNone (w.subdevs i) 2 = some j) :
    w.takes (env, .addKey i input) = some (i, j, req.keyStr) := by
  obtain ⟨jin, hin, hkey⟩ := addKeyRequest_ok hreq
  have hret : (w.subdevAddKey env i input).map (·.2) = some 0 := by
    rw [subdevAddKey_fills hreq hj, Option.map_some]
  rw [takes, if_pos ⟨huse, hret⟩, hin]
  dsimp only [Option.bind_eq_bind, Option.bind_some]
  rw [hkey, Option.bind_some, hj, Option.bind_some]

theorem Filled.step_keyStr (h : T.step e = some T')
    (hs : ((T.world.subdevs i).bank 2 j).keyState ≠ keyStateNone) :
    T'.keyStr i j = T.keyStr i j := by
  obtain ⟨w', -, rfl⟩ := Option.map_eq_some_iff.mp h
  cases ht : T.world.takes e with
  | none => rfl
  | some r =>
    obtain ⟨k, l, keyStr⟩ := r
    dsimp only
    by_cases hik : i = k
    · subst hik
      by_cases hjl : j = l
      · subst hjl; exact absurd (takes_free ht) hs
      · rw [Function.update_self, Function.update_of_ne hjl]
    · rw [Function.update_of_ne hik]


theorem password_setBankKey (sd : SubDev) (type : ℤ) (k j : Fin 128) (key : LockKey) :
    (sd.setBankKey type k key).lock.keys 1 j = sd.bank 2 j ∨
      (productSubConvetType2idx type = 1 ∧ k = j ∧
        (sd.setBankKey type k key).lock.keys 1 j = key) := by
  by_cases hne : (sd.setBankKey type k key).lock.keys 1 j = sd.bank 2 j
  · exact Or.inl hne
  · obtain ⟨hadx, rfl⟩ := eq_of_setBankKey_ne hne
    refine Or.inr ⟨hadx.symm, rfl, ?_⟩
    rw [SubDev.setBankKey, setKey_keys, ← hadx, Function.update_self, Function.update_self]

/-- A password in use after an edit was in use before it and prints the same, or a request has just
filled its slot. -/
theorem KeyEdit.password {env : Env} {op : Op} {keys' : Fin 4 → KeyBank}
    (h : KeyEdit env w op i keys') (hs : (keys' 1 j).keyState ≠ keyStateNone) :
    (((w.subdevs i).bank 2 j).keyState ≠ keyStateNone ∧
      (keys' 1 j).text = ((w.subdevs i).bank 2 j).text) ∨
    ∃ input req old time, op = .addKey i input ∧ (w.subdevs i).use ≠ 0 ∧
      addKeyRequest env input = some (.ok req) ∧ firstNone (w.subdevs i) 2 = some j ∧
      keys' 1 j = fillKey old time 2 1 req.keyStr := by
  cases h with
  | same => exact Or.inl ⟨hs, rfl⟩
  | @fill input req k hop huse hreq hk =>
    rcases password_setBankKey (w.subdevs i) 2 k j (fillKey ((w.subdevs i).bank 2 k) (env.time 2)
      2 1 req.keyStr) with he | ⟨-, rfl, hkey⟩
    · rw [he] at hs ⊢; exact Or.inl ⟨hs, rfl⟩
    · exact Or.inr ⟨_, _, _, _, hop, huse, hreq, hk, hkey⟩
  | @complete name buf type k hop hname htype hack hk =>
    rcases password_setBankKey (w.subdevs i) type k j
      { (w.subdevs i).bank type k with keyState := keyStateAdded } with he | ⟨hadx, rfl, hkey⟩
    · rw [he] at hs ⊢; exact Or.inl ⟨hs, rfl⟩
    · have hold := (firstAdding_eq_some_iff.mp hk).1.1
      rw [SubDev.bank, hadx] at hold
      refine Or.inl ⟨fun hnone => absurd (hold.symm.trans hnone) (by decide), ?_⟩
      rw [hkey, SubDev.bank, hadx]
      rfl
  | @remove name buf type k hop hname htype hack hk =>
    rcases password_setBankKey (w.subdevs i) type k j .zero with he | ⟨-, rfl, hkey⟩
    · rw [he] at hs ⊢; exact Or.inl ⟨hs, rfl⟩
    · rw [hkey] at hs
      exact absurd rfl hs
  | clear => exact Or.inl ⟨hs, rfl⟩
  | erase => exact absurd rfl hs
  | occupy => exact absurd rfl hs

/-- Every key in use prints as the string that was submitted for it, and that one is valid. -/
def Filled.Kept (T : Filled) : Prop :=
  ∀ i j, ((T.world.subdevs i).bank 2 j).keyState ≠ keyStateNone →
    ((T.world.subdevs i).bank 2 j).text = T.keyStr i j ∧
      productValidPasswordString (T.keyStr i j) = true

theorem Filled.kept_of_step (hT : T.Kept) (hop : e.2.Harmless) (h : T.step e = some T') :
    T'.Kept := by
  obtain ⟨env, op⟩ := e
  intro i j hs
  obtain ⟨w', hw, hT'⟩ := Option.map_eq_some_iff.mp h
  have hworld : T'.world = w' := by rw [← hT']
  rw [hworld] at hs ⊢
  rcases (step_keyEdit hop.ne_loadAll hop.bounded hw i).password hs with
    ⟨hold, htext⟩ | ⟨input, req, old, time, rfl, huse, hreq, hj, hkey⟩
  · rw [T.step_keyStr h hold]
    obtain ⟨hprint, hvalid⟩ := hT i j hold
    exact ⟨htext.trans hprint, hvalid⟩
  · have hnote : T'.keyStr i j = req.keyStr := by
      rw [← hT', takes_of_fill huse hreq hj]
      simp
    rw [hnote]
    exact ⟨(congrArg LockKey.text hkey).trans (fillKey_text req.valid), req.valid⟩

theorem Filled.Kept.keyList (hT : T.Kept) (i : Slot) :
    keyList (T.world.subdevs i) 2 = T.passwords i := by
  rw [keyList_eq, Filled.passwords]
  congr 1
  apply List.map_congr_left
  intro j hj
  have hadded := of_decide_eq_true (List.mem_filter.mp hj).2
  obtain ⟨htext, hvalid⟩ := hT i j (by rw [hadded]; decide)
  rw [keyProperties_object htext hvalid]

/-- In every run of key and device operations, a request for the passwords of a lock fails and
leaves the output alone, or puts the list of its confirmed passwords there, as submitted. -/
theorem key_list_faithful {T₀ : Filled}
    (h₀ : ∀ i, (T₀.world.subdevs i).lock.keys = Lock.zero.keys)
    (hr : Reachable Filled.step (fun _ e => e.2.Harmless) T₀ T) {env : Env} {input : CStr}
    {jin : Json} (hin : env.jsonLoads input = some jin)
    (htype : jsonGetInt jin "LockType" (-1) = 2) (i : Slot) (dumps : Json → Option CStr)
    (outLen : ℕ) :
    (∃ ret < 0, subdevGetKeyList dumps outLen env (T.world.subdevs i) input = (ret, none)) ∨
    ∃ sout, subdevGetKeyList dumps outLen env (T.world.subdevs i) input = (0, some sout) ∧
      dumps (T.passwords i) = some sout ∧ sout.length < outLen := by
  have hT : T.Kept := by
    refine hr.invariant (I := Filled.Kept) ?_ fun _ _ _ hI hop hs => Filled.kept_of_step hI hop hs
    intro i j hs
    rw [SubDev.bank, h₀ i] at hs
    exact absurd rfl hs
  rw [subdevGetKeyList, hin]
  dsimp only
  rw [htype, if_neg (by decide), hT.keyList]
  cases hd : dumps (T.passwords i) with
  | none => exact Or.inl ⟨-3, by decide, rfl⟩
  | some sout =>
    dsimp only
    by_cases hlen : sout.length ≥ outLen
    · rw [if_pos hlen]; exact Or.inl ⟨-4, by decide, rfl⟩
    · rw [if_neg hlen]; exact Or.inr ⟨sout, rfl, rfl, not_le.mp hlen⟩

end Steps

/-- Surroundings where every text is a request for the passwords. -/
def Env.listing : Env :=
  { Env.quiet with jsonLoads := fun _ => some (.obj [("LockType", .int 2)]) }

def onePassword : CStr := ("[\x7b\"LockType\": 2, \"UserLimit\": 1, \"KeyStr\": \"123456\", " ++
  "\"KeyID\": \"2123456\"\x7d]").toList

/-- A password is added, confirmed and listed. -/
theorem key_list_faithful_one : ∃ T sout, run Filled.step ⟨single firstDevice, fun _ _ => []⟩
      [addKeyOp "123456", ackOp 1 2123456 0] = some T ∧
    subdevGetKeyList (fun _ => some onePassword) 256 .listing (T.world.subdevs 0) [] =
      (0, some sout) ∧ T.keyStr 0 0 = "123456".toList := by
  obtain ⟨T, hT, hobs⟩ : ∃ T, run Filled.step ⟨single firstDevice, fun _ _ => []⟩
      [addKeyOp "123456", ackOp 1 2123456 0] = some T ∧ T.keyStr 0 0 = "123456".toList :=
    Option.map_eq_some_iff.mp (by decide +kernel)
  have h₀ : ∀ i, ((single firstDevice).subdevs i).lock.keys = Lock.zero.keys := by
    intro i
    by_cases hi : i = 0
    · subst hi; rfl
    · rw [single, setDev_subdevs, Function.update_of_ne hi]; rfl
  have hreach : Reachable Filled.step (fun _ e => e.2.Harmless)
      ⟨single firstDevice, fun _ _ => []⟩ T := by
    apply reachable_of_run hT _ .start
    intro e he _
    simp only [List.mem_cons, List.not_mem_nil, or_false] at he
    rcases he with rfl | rfl <;> trivial
  refine ⟨T, onePassword, hT, ?_, hobs⟩
  rcases key_list_faithful h₀ hreach (show Env.listing.jsonLoads [] = some _ from rfl) rfl 0
    (fun _ => some onePassword) 256 with ⟨ret, hneg, h⟩ | ⟨sout, h, hd, -⟩
  · have hret : (subdevGetKeyList (fun _ => some onePassword) 256 .listing (T.world.subdevs 0)
        []).1 = 0 := rfl
    rw [h] at hret
    exact absurd hret hneg.ne
  · rw [h, Option.some.inj hd]

end Afly
