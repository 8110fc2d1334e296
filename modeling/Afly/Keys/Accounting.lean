import Afly.Keys.Acknowledge
import Afly.Lib.Tally

/-! # Accounting for the slots of a lock

Beside the gateway runs a ledger that only sees accepted requests and answers of
the lock: the ids that wait for an answer and the ids that the lock confirmed and
has not deleted. The live slots of the password bank are exactly these ids in
every run without three things: a refused add, whose slot nothing frees, an
acknowledged deletion that does not reach its key, and a restart from a file that
lacks the last requests.
-/

namespace Afly

open World Reach Tally

/-- What the lock owes and holds: the ids it has not answered yet and the ids it confirmed. -/
structure Ledger where
  waiting : Multiset ℤ
  confirmed : Multiset ℤ

def Ledger.answer (L : Ledger) (op passId code : ℤ) : Ledger :=
  if passId = 0 then if code = 0 then { L with confirmed := 0 } else L
  else if op = 1 then
    if passId ∈ L.waiting then
      { waiting := L.waiting.erase passId
        confirmed := if code = 0 then passId ::ₘ L.confirmed else L.confirmed }
    else L
  else if op = 0 ∧ code = 0 then { L with confirmed := L.confirmed.erase passId }
  else L

/-- The id of an `AddKey` request that is answered with zero. -/
def acceptedId (env : Env) (w : World) (i : Slot) (input : CStr) : Option ℤ :=
  match addKeyRequest env input with
  | some (.ok req) =>
    if (w.subdevAddKey env i input).map (·.2) = some 0 then some (keyId req.lockType req.keyStr)
    else none
  | _ => none

structure Account where
  world : World
  ledger : Ledger

/-- The ledger of the lock `name`, the record `i`, after an event. -/
def Ledger.after (L : Ledger) (name : CStr) (i : Slot) (w : World) : Env × Op → Ledger
  | (env, .addKey i' input) =>
    if i' = i then
      match acceptedId env w i input with
      | some id => { L with waiting := id ::ₘ L.waiting }
      | none => L
    else L
  | (_, .rptEvent name' _ buf) => if name' = name then L.answer (buf 0) (buf 1) (buf 2) else L
  | _ => L

def Account.step (name : CStr) (i : Slot) (A : Account) (e : Env × Op) : Option Account :=
  (A.world.step e).map fun w => ⟨w, A.ledger.after name i A.world e⟩

def Op.OnBank : Op → Prop
  | .addKey _ _ | .delKey _ _ | .loadAll => True
  | .rptEvent _ eid _ => eid = eventNxpAddDelPassRet
  | _ => False

/-- An event after which the slots still match the ledger: no refused add, no clear while keys are
confirmed, a deletion that reaches its key, and a restart from an up-to-date file. -/
def Account.Balanced (name : CStr) (i : Slot) (A : Account) : Env × Op → Prop
  | (_, .rptEvent name' _ buf) => name' = name →
    (buf 0 = 1 → buf 1 ∈ A.ledger.waiting → buf 2 = 0) ∧
    (buf 1 = 0 → buf 2 = 0 → A.ledger.confirmed = 0) ∧
    (buf 0 = 0 → buf 2 = 0 → buf 1 ∈ A.ledger.confirmed → passIdType (buf 1) = some 2 ∧
      ∃ j, productSubLockGetKeyById (A.world.subdevs i) 2 (buf 1) = some j ∧
        ((A.world.subdevs i).bank 2 j).keyState = keyStateAdded)
  | (env, .loadAll) => env.opens = true ∧ ∃ t, A.world.db = .whole t ∧
    ({ A.world with subdevs := t } : World).productSubSearchByName name = some i ∧
    (t i).bank 2 = (A.world.subdevs i).bank 2
  | _ => True

/-- The ids of the live slots of the password bank. -/
def liveIds (sd : SubDev) : Multiset ℤ :=
  tally (fun key : LockKey => key.keyState ≠ keyStateNone) LockKey.id (sd.bank 2)

/-- The ids of the added slots of the password bank. -/
def addedIds (sd : SubDev) : Multiset ℤ :=
  tally (fun key : LockKey => key.keyState = keyStateAdded) LockKey.id (sd.bank 2)

/-- The number of slots of the password bank that are not empty. -/
def liveCount (sd : SubDev) : ℕ :=
  (Finset.univ.filter fun j => (sd.bank 2 j).keyState ≠ keyStateNone).card

/-- The ledger of a lock that confirmed its added keys and owes an answer for the others. -/
def Ledger.ofBank (sd : SubDev) : Ledger := ⟨liveIds sd - addedIds sd, addedIds sd⟩

/-- The live slots are the ids of the ledger, and the added ones are confirmed. -/
structure Account.Invariant (name : CStr) (i : Slot) (A : Account) : Prop where
  found : A.world.productSubSearchByName name = some i
  live : liveIds (A.world.subdevs i) = A.ledger.waiting + A.ledger.confirmed
  added : addedIds (A.world.subdevs i) ≤ A.ledger.confirmed

section Ids

variable {sd sd' : SubDev} {j : Fin 128} {key : LockKey}

theorem card_liveIds : (liveIds sd).card = liveCount sd := card_tally

theorem liveIds_congr (h : sd'.bank 2 = sd.bank 2) : liveIds sd' = liveIds sd := by
  rw [liveIds, h, liveIds]

theorem addedIds_congr (h : sd'.bank 2 = sd.bank 2) : addedIds sd' = addedIds sd := by
  rw [addedIds, h, addedIds]

variable (sd) in
theorem addedIds_le_liveIds : addedIds sd ≤ liveIds sd :=
  tally_le fun _ h => by rw [h]; decide

theorem mem_addedIds {id : ℤ} (hs : (sd.bank 2 j).keyState = keyStateAdded)
    (hid : (sd.bank 2 j).id = id) : id ∈ addedIds sd := mem_tally.mpr ⟨j, hs, hid⟩

theorem liveIds_fill (hold : (sd.bank 2 j).keyState = keyStateNone)
    (hnew : key.keyState = keyStateAdding) (h : sd'.bank 2 = Function.update (sd.bank 2) j key) :
    liveIds sd' = key.id ::ₘ liveIds sd ∧ addedIds sd' = addedIds sd := by
  constructor
  · rw [liveIds, h]
    exact tally_update_add (by rw [hold]; simp) (by rw [hnew]; decide)
  · rw [addedIds, h]
    exact tally_update_of_not (by rw [hold]; decide) (by rw [hnew]; decide)

theorem liveIds_complete (hold : (sd.bank 2 j).keyState = keyStateAdding)
    (h : sd'.bank 2 = Function.update (sd.bank 2) j
      { sd.bank 2 j with keyState := keyStateAdded }) :
    liveIds sd' = liveIds sd ∧ addedIds sd' = (sd.bank 2 j).id ::ₘ addedIds sd := by
  constructor
  · rw [liveIds, h]
    have hold' : (sd.bank 2 j).keyState ≠ keyStateNone := by rw [hold]; decide
    have hnew : keyStateAdded ≠ keyStateNone := by decide
    exact tally_update_same (iff_of_true hold' hnew) rfl
  · rw [addedIds, h]
    exact tally_update_add (by rw [hold]; decide) rfl

theorem liveIds_delete (hold : (sd.bank 2 j).keyState = keyStateAdded)
    (h : sd'.bank 2 = Function.update (sd.bank 2) j .zero) :
    liveIds sd' = (liveIds sd).erase (sd.bank 2 j).id ∧
      addedIds sd' = (addedIds sd).erase (sd.bank 2 j).id := by
  constructor
  · rw [liveIds, h]
    exact tally_update_erase (by rw [hold]; decide) (by simp)
  · rw [addedIds, h]
    exact tally_update_erase hold (by decide)

end Ids

section Steps

variable {env : Env} {w w' : World} {name : CStr} {i : Slot} {A A' : Account}

theorem acceptedId_none {input : CStr} {ret : ℤ}
    (h : w.subdevAddKey env i input = some (w', ret)) (hret : ret ≠ 0) :
    acceptedId env w i input = none := by
  unfold acceptedId
  split
  · rw [h, if_neg (by simpa using hret)]
  · rfl

theorem acceptedId_some {input : CStr} {req : AddKeyReq}
    (h : w.subdevAddKey env i input = some (w', 0))
    (hreq : addKeyRequest env input = some (.ok req)) :
    acceptedId env w i input = some (keyId 2 req.keyStr) := by
  unfold acceptedId
  rw [hreq]
  dsimp only
  rw [h, if_pos (by rfl), req.lockType_eq]

theorem Account.Invariant.congr (hI : A.Invariant name i)
    (hdev : ∀ k, SameDevice (A.world.subdevs k) (w'.subdevs k))
    (hbank : (w'.subdevs i).bank 2 = (A.world.subdevs i).bank 2) :
    Account.Invariant name i ⟨w', A.ledger⟩ where
  found := (productSubSearchByName_of_sameDevice hdev).trans hI.found
  live := (liveIds_congr hbank).trans hI.live
  added := (addedIds_congr hbank).trans_le hI.added

theorem Account.invariant_addKey (hI : A.Invariant name i) {i' : Slot} {input : CStr}
    (hs : A.step name i (env, .addKey i' input) = some A') : A'.Invariant name i := by
  obtain ⟨w', hw', rfl⟩ := Option.map_eq_some_iff.mp hs
  rw [Ledger.after]
  rcases request_cases hw' with ⟨hu, rfl⟩ | ⟨-, h⟩
  · have hii : i' ≠ i := by rintro rfl; exact use_of_search hI.found hu
    rw [if_neg hii]
    exact hI
  · obtain ⟨⟨w₁, ret⟩, h₁, rfl⟩ := Option.map_eq_some_iff.mp h
    rcases subdevAddKey_cases h₁ with ⟨hret, rfl⟩ | ⟨req, j, hreq, rfl, hj, -, -, hw₁⟩
    · by_cases hii : i' = i
      · subst hii
        rw [if_pos rfl, acceptedId_none h₁ hret]
        exact hI
      · rw [if_neg hii]
        exact hI
    · have hdev (k : Slot) : SameDevice (A.world.subdevs k) (w₁.subdevs k) := by
        rw [hw₁]
        exact rel_update .refl ⟨rfl, rfl, rfl, rfl⟩ k
      by_cases hii : i' = i
      · subst hii
        rw [if_pos rfl, acceptedId_some h₁ hreq]
        have hb : (w₁.subdevs i').bank 2 = Function.update ((A.world.subdevs i').bank 2) j
            (fillKey ((A.world.subdevs i').bank 2 j) (env.time 2) 2 1 req.keyStr) := by
          rw [hw₁, Function.update_self, setBankKey_bank]
        obtain ⟨hlive, hadded⟩ := liveIds_fill (firstNone_eq_some_iff.mp hj).1 (by rfl) hb
        refine ⟨(productSubSearchByName_of_sameDevice hdev).trans hI.found, ?_, ?_⟩
        · rw [hlive, hI.live, Multiset.cons_add]
          rfl
        · exact hadded.trans_le hI.added
      · rw [if_neg hii]
        refine hI.congr hdev ?_
        rw [hw₁, Function.update_of_ne (Ne.symm hii)]

theorem Account.invariant_loadAll (hI : A.Invariant name i)
    (hb : A.Balanced name i (env, .loadAll)) (hs : A.step name i (env, .loadAll) = some A') :
    A'.Invariant name i := by
  obtain ⟨w', hw', rfl⟩ := Option.map_eq_some_iff.mp hs
  obtain ⟨hopen, t, ht, hfound, hbank⟩ := hb
  have hw : w' = ({ A.world with subdevs := t } : World).productSubClrIdAfterLoad := by
    have hl : (A.world.productSubLoadAll env).1 = w' := Option.some.inj hw'
    rw [← hl, productSubLoadAll, ht]
    dsimp only
    rw [if_pos hopen, ← ht]
  have hdev (k : Slot) : SameDevice (t k) (w'.subdevs k) := by
    rw [hw, productSubClrIdAfterLoad]
    dsimp only
    split
    · exact .refl _
    · exact ⟨rfl, rfl, rfl, rfl⟩
  have hbank' : (w'.subdevs i).bank 2 = (A.world.subdevs i).bank 2 := by
    rw [← hbank, hw, productSubClrIdAfterLoad]
    dsimp only
    split <;> rfl
  exact ⟨(productSubSearchByName_of_sameDevice hdev).trans hfound,
    (liveIds_congr hbank').trans hI.live, (addedIds_congr hbank').trans_le hI.added⟩

theorem Account.invariant_deleted (hI : A.Invariant name i) {buf : ℕ → ℤ} {j : Fin 128}
    (hop : buf 0 = 0) (hcode : buf 2 = 0) (hmem : buf 1 ∈ A.ledger.confirmed)
    (htype : passIdType (buf 1) = some 2)
    (hj : productSubLockGetKeyById (A.world.subdevs i) 2 (buf 1) = some j)
    (hst : ((A.world.subdevs i).bank 2 j).keyState = keyStateAdded)
    (hw' : A.world.aflyNxpRptEvent env name eventNxpAddDelPassRet buf = some w') :
    Account.Invariant name i ⟨w', A.ledger.answer (buf 0) (buf 1) (buf 2)⟩ := by
  have hpos := (passIdType_key htype (by decide)).1
  have hL : A.ledger.answer (buf 0) (buf 1) (buf 2) =
      { A.ledger with confirmed := A.ledger.confirmed.erase (buf 1) } := by
    rw [Ledger.answer, if_neg (by omega), if_neg (by omega), if_pos ⟨hop, hcode⟩]
  obtain ⟨w'', hw'', hcases⟩ := keyAckEvent_cases env buf hI.found htype (by decide)
  obtain rfl : w'' = w' := Option.some.inj (hw''.symm.trans hw')
  rcases hcases with ⟨-, hidle⟩ | ⟨-, -, -, -, hop', -⟩ | ⟨-, k, -, -, -, -, hk, hkeys, -⟩
  · exact absurd (Or.inr ⟨hst, hop⟩) (hidle j hj hcode)
  · omega
  · obtain ⟨⟨hks, hkid⟩, -⟩ := firstAdded_eq_some_iff.mp hk
    obtain ⟨hlive, hadded⟩ := liveIds_delete hks (bank_of_keys hkeys)
    rw [hL]
    refine ⟨(productSubSearchByName_of_sameDevice (aflyNxpRptEvent_sameDevice hw')).trans hI.found,
      ?_, ?_⟩
    · rw [hlive, hkid, hI.live, Multiset.erase_add_right_pos _ hmem]
    · rw [hadded, hkid]
      exact Multiset.erase_le_erase _ hI.added

theorem Ledger.answer_keeps {L : Ledger} {op passId code : ℤ}
    (hnack : op = 1 → passId ∈ L.waiting → code = 0)
    (hclear : passId = 0 → code = 0 → L.confirmed = 0)
    (hmiss : ¬ (op = 0 ∧ code = 0 ∧ passId ∈ L.confirmed)) :
    (L.answer op passId code).waiting + (L.answer op passId code).confirmed =
        L.waiting + L.confirmed ∧
      L.confirmed ≤ (L.answer op passId code).confirmed := by
  unfold Ledger.answer
  by_cases h₀ : passId = 0
  · rw [if_pos h₀]
    split_ifs with hc
    · rw [hclear h₀ hc]
      exact ⟨rfl, le_rfl⟩
    · exact ⟨rfl, le_rfl⟩
  rw [if_neg h₀]
  by_cases hop : op = 1
  · rw [if_pos hop]
    by_cases hmem : passId ∈ L.waiting
    · rw [if_pos hmem, if_pos (hnack hop hmem)]
      refine ⟨?_, Multiset.le_cons_self _ _⟩
      rw [Multiset.add_cons, ← Multiset.cons_add, Multiset.cons_erase hmem]
    · rw [if_neg hmem]
      exact ⟨rfl, le_rfl⟩
  rw [if_neg hop]
  split_ifs with hdel
  · rw [Multiset.erase_of_notMem fun h => hmiss ⟨hdel.1, hdel.2, h⟩]
    exact ⟨rfl, le_rfl⟩
  · exact ⟨rfl, le_rfl⟩

theorem Account.Invariant.completed_le (hI : A.Invariant name i) {passId : ℤ}
    (hpos : passId ≠ 0) {sd : SubDev} (hlive : liveIds sd = liveIds (A.world.subdevs i))
    (hadded : addedIds sd = passId ::ₘ addedIds (A.world.subdevs i)) :
    addedIds sd ≤ (A.ledger.answer 1 passId 0).confirmed := by
  rw [Ledger.answer, if_neg hpos, if_pos rfl]
  by_cases hmem : passId ∈ A.ledger.waiting
  · rw [if_pos hmem, if_pos rfl, hadded]
    exact Multiset.cons_le_cons _ hI.added
  · rw [if_neg hmem]
    apply Multiset.le_iff_count.mpr
    intro q
    by_cases hq : q = passId
    · -- no request for the id waits, so its live slots are the confirmed ones
      subst hq
      have hle := Multiset.le_iff_count.mp (addedIds_le_liveIds sd) q
      rw [hlive, hI.live, Multiset.count_add, Multiset.count_eq_zero_of_notMem hmem,
        zero_add] at hle
      exact hle
    · rw [hadded, Multiset.count_cons_of_ne hq]
      exact Multiset.le_iff_count.mp hI.added q

theorem rptEvent_keyEdit {buf : ℕ → ℤ} {name' : CStr} (huse : (w.subdevs i).use ≠ 0)
    (h : w.aflyNxpRptEvent env name' eventNxpAddDelPassRet buf = some w') :
    (w'.subdevs i).lock.keys = (w.subdevs i).lock.keys ∨
    w.productSubSearchByName name' = some i ∧
      ((w'.subdevs i).lock.keys = eraseBank (w.subdevs i).lock.keys 0 ∨
      ∃ type j, passIdType (buf 1) = some type ∧
        ((buf 0 = 1 ∧ buf 2 = 0 ∧ firstAdding (w.subdevs i) type (buf 1) = some j ∧
          (w'.subdevs i).lock.keys = ((w.subdevs i).setBankKey type j
            { (w.subdevs i).bank type j with keyState := keyStateAdded }).lock.keys) ∨
        (buf 0 = 0 ∧ buf 2 = 0 ∧ firstAdded (w.subdevs i) type (buf 1) = some j ∧
          (w'.subdevs i).lock.keys = ((w.subdevs i).setBankKey type j .zero).lock.keys))) := by
  have hs : w.step (env, .rptEvent name' eventNxpAddDelPassRet buf) = some w' := h
  have hedit := step_keyEdit (by simp) (fun r hr => by cases hr) hs i
  generalize (w'.subdevs i).lock.keys = keys at hedit ⊢
  cases hedit with
  | same => exact Or.inl rfl
  | fill hop => cases hop
  | complete hop hname htype hack hj =>
    cases hop
    exact Or.inr ⟨hname, Or.inr ⟨_, _, htype, Or.inl ⟨hack.1, hack.2, hj, rfl⟩⟩⟩
  | remove hop hname htype hack hj =>
    cases hop
    exact Or.inr ⟨hname, Or.inr ⟨_, _, htype, Or.inr ⟨hack.1, hack.2, hj, rfl⟩⟩⟩
  | clear hop hname => cases hop; exact Or.inr ⟨hname, Or.inl rfl⟩
  | erase hop => exact hop.elim
  | occupy hfree => exact absurd hfree huse

theorem bank_two_of_keys {type passId : ℤ} {sd sd' : SubDev} {j : Fin 128} {key : LockKey}
    (htype : passIdType passId = some type) (h2 : type ≠ 2)
    (h : sd'.lock.keys = (sd.setBankKey type j key).lock.keys) : sd'.bank 2 = sd.bank 2 := by
  rw [SubDev.bank, h, setBankKey_keys_of_ne, SubDev.bank]
  exact fun he => h2 ((convetType2idx_eq_two_iff htype).mp he.symm)

theorem Account.invariant_rptEvent (hI : A.Invariant name i) {name' : CStr} {buf : ℕ → ℤ}
    (hb : A.Balanced name i (env, .rptEvent name' eventNxpAddDelPassRet buf))
    (hs : A.step name i (env, .rptEvent name' eventNxpAddDelPassRet buf) = some A') :
    A'.Invariant name i := by
  obtain ⟨w', hw', rfl⟩ := Option.map_eq_some_iff.mp hs
  have hdev := aflyNxpRptEvent_sameDevice (w := A.world) hw'
  have hedit := rptEvent_keyEdit (use_of_search hI.found) hw'
  rw [Ledger.after]
  by_cases hn : name' = name
  · subst hn
    rw [if_pos rfl]
    obtain ⟨hnack, hclear, hdel⟩ := hb rfl
    by_cases hhit : buf 0 = 0 ∧ buf 2 = 0 ∧ buf 1 ∈ A.ledger.confirmed
    · obtain ⟨hop, hcode, hmem⟩ := hhit
      obtain ⟨htype, j, hj, hst⟩ := hdel hop hcode hmem
      exact Account.invariant_deleted hI hop hcode hmem htype hj hst hw'
    · obtain ⟨hsum, hle⟩ := Ledger.answer_keeps hnack hclear hhit
      have hfound := (productSubSearchByName_of_sameDevice hdev).trans hI.found
      -- without a change of the bank the ledger may still confirm more
      have hsame (hbank : (w'.subdevs i).bank 2 = (A.world.subdevs i).bank 2) :
          Account.Invariant name' i ⟨w', A.ledger.answer (buf 0) (buf 1) (buf 2)⟩ :=
        ⟨hfound, (liveIds_congr hbank).trans (hI.live.trans hsum.symm),
          (addedIds_congr hbank).trans_le (hI.added.trans hle)⟩
      rcases hedit with hkeys | ⟨-, hkeys | ⟨type, j, htype, hedit⟩⟩
      · exact hsame (by rw [SubDev.bank, hkeys, SubDev.bank])
      · refine hsame ?_
        rw [SubDev.bank, hkeys, eraseBank, Function.update_of_ne (by decide), SubDev.bank]
      by_cases h2 : type = 2
      · subst h2
        rcases hedit with ⟨hop, hcode, hj, hkeys⟩ | ⟨hop, hcode, hj, hkeys⟩
        · obtain ⟨⟨hst, hid⟩, -⟩ := firstAdding_eq_some_iff.mp hj
          obtain ⟨hlive, hadded⟩ := liveIds_complete hst (bank_of_keys hkeys)
          have hpos := (passIdType_key htype (by decide)).1
          rw [hid] at hadded
          refine ⟨hfound, hlive.trans (hI.live.trans hsum.symm), ?_⟩
          rw [hop, hcode]
          exact hI.completed_le (by omega) hlive hadded
        · -- an added key is confirmed, so this deletion was an acknowledged one
          obtain ⟨⟨hst, hid⟩, -⟩ := firstAdded_eq_some_iff.mp hj
          exact absurd ⟨hop, hcode, Multiset.mem_of_le hI.added (mem_addedIds hst hid)⟩ hhit
      · rcases hedit with ⟨-, -, -, hkeys⟩ | ⟨-, -, -, hkeys⟩
        · exact hsame (bank_two_of_keys htype h2 hkeys)
        · exact hsame (bank_two_of_keys htype h2 hkeys)
  · rw [if_neg hn]
    refine hI.congr hdev ?_
    have hkeys := hedit.resolve_right fun h =>
      hn ((name_of_search h.1).symm.trans (name_of_search hI.found))
    rw [SubDev.bank, hkeys, SubDev.bank]

theorem Account.invariant_delKey (hI : A.Invariant name i) {i' : Slot} {input : CStr}
    (hs : A.step name i (env, .delKey i' input) = some A') : A'.Invariant name i := by
  obtain ⟨w', hw', rfl⟩ := Option.map_eq_some_iff.mp hs
  rcases request_cases hw' with ⟨-, rfl⟩ | ⟨-, h⟩
  · exact hI
  · obtain ⟨⟨w₁, ret⟩, h₁, rfl⟩ := Option.map_eq_some_iff.mp h
    have hsub := subdevDelKey_subdevs h₁
    exact hI.congr (fun k => by rw [hsub]; exact .refl _) (by rw [hsub])

theorem Account.invariant_step (hI : A.Invariant name i) {e : Env × Op} (hop : e.2.OnBank)
    (hb : A.Balanced name i e) (hs : A.step name i e = some A') : A'.Invariant name i := by
  obtain ⟨env, op⟩ := e
  cases op with
  | addKey => exact Account.invariant_addKey hI hs
  | delKey => exact Account.invariant_delKey hI hs
  | loadAll => exact Account.invariant_loadAll hI hb hs
  | rptEvent name' eid buf =>
    obtain rfl : eid = eventNxpAddDelPassRet := hop
    exact Account.invariant_rptEvent hI hb hs
  | _ => exact hop.elim

theorem card_of_invariant (hI : A.Invariant name i) :
    liveCount (A.world.subdevs i) = A.ledger.confirmed.card + A.ledger.waiting.card := by
  rw [← card_liveIds, hI.live, Multiset.card_add, Nat.add_comm]

theorem liveCount_of_full {sd : SubDev} (h : firstNone sd 2 = none) : liveCount sd = 128 := by
  rw [liveCount, Finset.filter_true_of_mem fun j _ => firstNone_eq_none_iff.mp h j,
    Finset.card_univ, Fintype.card_fin]

/-- In every balanced run the live slots are the confirmed keys and the ones that wait for an
answer, and a bank is reported full only when these are 128. -/
theorem live_keys_accounted {w₀ : World} (hname : w₀.productSubSearchByName name = some i)
    (hr : Reachable (Account.step name i) (fun A e => e.2.OnBank ∧ A.Balanced name i e)
      ⟨w₀, .ofBank (w₀.subdevs i)⟩ A) :
    liveCount (A.world.subdevs i) = A.ledger.confirmed.card + A.ledger.waiting.card ∧
      ∀ env input w', A.world.subdevAddKey env i input = some (w', -6) →
        A.ledger.confirmed.card + A.ledger.waiting.card = 128 := by
  have h₀ : Account.Invariant name i ⟨w₀, .ofBank (w₀.subdevs i)⟩ :=
    ⟨hname, (tsub_add_cancel_of_le (addedIds_le_liveIds _)).symm, le_rfl⟩
  have hI : A.Invariant name i :=
    hr.invariant h₀ fun _ _ _ hI hok hs => Account.invariant_step hI hok.1 hok.2 hs
  refine ⟨card_of_invariant hI, ?_⟩
  intro env input w' h
  rw [← card_of_invariant hI, liveCount_of_full (subdevAddKey_full h)]

end Steps

/-- A password that the lock confirms is balanced and accounted for. -/
theorem live_keys_accounted_confirmed : ∃ A, run (Account.step firstDevice.deviceName 0)
      ⟨single firstDevice, .ofBank firstDevice⟩ [addKeyOp "123456", ackOp 1 2123456 0] = some A ∧
    liveCount (A.world.subdevs 0) = 1 ∧
    liveCount (A.world.subdevs 0) = A.ledger.confirmed.card + A.ledger.waiting.card := by
  obtain ⟨A, hA, ho⟩ : ∃ A, run (Account.step firstDevice.deviceName 0)
      ⟨single firstDevice, .ofBank firstDevice⟩ [addKeyOp "123456", ackOp 1 2123456 0] = some A ∧
      liveCount (A.world.subdevs 0) = 1 := Option.map_eq_some_iff.mp (by decide +kernel)
  have hname : (single firstDevice).productSubSearchByName firstDevice.deviceName = some 0 := by
    decide +kernel
  refine ⟨A, hA, ho, (live_keys_accounted hname (reachable_of_run hA ?_ .start)).1⟩
  simp only [List.forall_mem_cons, List.not_mem_nil, false_implies, implies_true, and_true]
  refine ⟨fun _ => ⟨trivial, trivial⟩, fun A => ⟨rfl, fun _ => ⟨fun _ _ => rfl, ?_, ?_⟩⟩⟩
  · exact fun h => absurd h (by decide)
  · exact fun h => absurd h (by decide)

/-- A refused password keeps its slot. -/
theorem refused_add_keeps_slot :
    ¬ ∀ (w₀ : World) (name : CStr) (i : Slot) (A : Account),
      w₀.productSubSearchByName name = some i →
      Reachable (Account.step name i) (fun _ e => e.2.OnBank) ⟨w₀, .ofBank (w₀.subdevs i)⟩ A →
      liveCount (A.world.subdevs i) = A.ledger.confirmed.card + A.ledger.waiting.card := by
  intro h
  obtain ⟨A, hA, ho⟩ : ∃ A, run (Account.step firstDevice.deviceName 0)
      ⟨single firstDevice, .ofBank firstDevice⟩ [addKeyOp "123456", ackOp 1 2123456 1] = some A ∧
      (liveCount (A.world.subdevs 0), A.ledger.confirmed.card, A.ledger.waiting.card) =
        (1, 0, 0) :=
    Option.map_eq_some_iff.mp (by decide +kernel)
  simp only [Prod.mk.injEq] at ho
  have hc := h (single firstDevice) firstDevice.deviceName 0 A (by decide +kernel)
    (reachable_of_run hA (by simp [Op.OnBank, addKeyOp, ackOp]) .start)
  omega

end Afly
