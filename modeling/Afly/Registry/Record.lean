import Afly.C.Text
import Afly.Schedule.Basic

/-! # Device records

The records of `product_sub.h`. A character array that holds a string is kept
as that string. The four strings `type`, `version`, `model` and `app` lie next
to each other in front of the numbers and the key table, so that a string
longer than its array continues over the members behind it: `spill` writes
those bytes one by one, at their offsets on the 32-bit little-endian target.
-/

namespace Afly

/-- An index of the table `subdevs`, of `MAX_SUB_DEV` records. -/
abbrev Slot := Fin 40

instance slotNeZero : NeZero 40 := ⟨by decide⟩

abbrev keyStateNone : ℤ := 0
abbrev keyStateAdding : ℤ := 1
abbrev keyStateAdded : ℤ := 2

@[ext]
structure LockKey where
  last : ℤ
  keyState : ℤ
  id : ℤ
  type : ℤ
  limit : ℤ
  len : ℤ
  buf : Fin 32 → Char
  deriving DecidableEq

def LockKey.zero : LockKey := ⟨0, 0, 0, 0, 0, 0, fun _ => nul⟩

@[simp] theorem LockKey.zero_keyState : LockKey.zero.keyState = keyStateNone := rfl

abbrev KeyBank := Fin 128 → LockKey

/-- The `lock` member of the union `aset`. -/
structure Lock where
  lockStatus : ℤ
  passNum : ℤ
  passAll : ℤ
  cardNum : ℤ
  cardAll : ℤ
  fingNum : ℤ
  fingAll : ℤ
  keys : Fin 4 → KeyBank

def Lock.zero : Lock := ⟨0, 0, 0, 0, 0, 0, 0, fun _ _ => .zero⟩

/-- The addresses of task records: the gateway's own, and the one inside each device record. -/
inductive TaskRef where
  | gwInfoTask
  | sub (i : Slot)
  deriving DecidableEq, Fintype

inductive TaskFunc where
  | gwInfoFunc
  | subdevTimeoutFunc
  deriving DecidableEq

abbrev Task := SchduleTask TaskRef TaskFunc Slot

structure SubDev where
  use : ℤ
  devid : ℤ
  login : ℤ
  productKey : CStr
  deviceName : CStr
  deviceSecret : CStr
  battery : ℤ
  online : ℤ
  type : CStr
  version : CStr
  model : CStr
  app : CStr
  rssi : ℤ
  dynamic : ℤ
  seed : ℤ
  interval : ℤ
  lock : Lock
  task : Task

def SubDev.zero : SubDev :=
  ⟨0, 0, 0, [], [], [], 0, 0, [], [], [], [], 0, 0, 0, 0, .zero, .zero⟩

/-- Overwrite byte `k` of an `int`. -/
def pokeInt (v : ℤ) (k : ℕ) (c : Char) : ℤ :=
  let u := v % 2 ^ 32
  int32 (u + ((c.toNat % 256 : ℕ) - u / 256 ^ k % 256) * 256 ^ k)

/-- Overwrite byte `o` of a key slot. -/
def LockKey.poke (key : LockKey) (o : ℕ) (c : Char) : LockKey :=
  if o < 4 then { key with last := pokeInt key.last o c }
  else if o < 8 then { key with keyState := pokeInt key.keyState (o - 4) c }
  else if o < 12 then { key with id := pokeInt key.id (o - 8) c }
  else if o < 16 then { key with type := pokeInt key.type (o - 12) c }
  else if o < 20 then { key with limit := pokeInt key.limit (o - 16) c }
  else if o < 24 then { key with len := pokeInt key.len (o - 20) c }
  else { key with buf := fun i => if i.val = o - 24 then c else key.buf i }

def Lock.setKey (lock : Lock) (adx : Fin 4) (j : Fin 128) (key : LockKey) : Lock :=
  { lock with keys := Function.update lock.keys adx (Function.update (lock.keys adx) j key) }

/-- Overwrite byte `o` of the lock's members. Behind the key table there is no result. -/
def Lock.poke (lock : Lock) (o : ℕ) (c : Char) : Option Lock :=
  if o < 4 then some { lock with lockStatus := pokeInt lock.lockStatus o c }
  else if o < 8 then some { lock with passNum := pokeInt lock.passNum (o - 4) c }
  else if o < 12 then some { lock with passAll := pokeInt lock.passAll (o - 8) c }
  else if o < 16 then some { lock with cardNum := pokeInt lock.cardNum (o - 12) c }
  else if o < 20 then some { lock with cardAll := pokeInt lock.cardAll (o - 16) c }
  else if o < 24 then some { lock with fingNum := pokeInt lock.fingNum (o - 20) c }
  else if o < 28 then some { lock with fingAll := pokeInt lock.fingAll (o - 24) c }
  else
    let n := (o - 28) / 56
    if h : n / 128 < 4 then
      let adx : Fin 4 := ⟨n / 128, h⟩
      let j : Fin 128 := ⟨n % 128, Nat.mod_lt _ (by decide)⟩
      some (lock.setKey adx j ((lock.keys adx j).poke ((o - 28) % 56) c))
    else none

namespace SubDev

def setKey (sd : SubDev) (adx : Fin 4) (j : Fin 128) (key : LockKey) : SubDev :=
  { sd with lock := sd.lock.setKey adx j key }

/-- Overwrite the byte `k` bytes behind `app`. -/
def poke (sd : SubDev) (k : ℕ) (c : Char) : Option SubDev :=
  if k < 4 then some { sd with rssi := pokeInt sd.rssi k c }
  else if k < 8 then some { sd with dynamic := pokeInt sd.dynamic (k - 4) c }
  else if k < 12 then some { sd with seed := pokeInt sd.seed (k - 8) c }
  else if k < 16 then some { sd with interval := pokeInt sd.interval (k - 12) c }
  else (sd.lock.poke (k - 16) c).map fun lock => { sd with lock := lock }

/-- Write bytes over the members behind `app`. -/
def spill (sd : SubDev) (bytes : CStr) : Option SubDev :=
  bytes.zipIdx.foldlM (fun sd b => sd.poke b.2 b.1) sd

end SubDev

/-- The bytes of a `strcpy` that land behind `app`, from an array that starts `room` before it. -/
def overrun (room : ℕ) (s : CStr) : CStr :=
  if s.length < room then [] else s.drop room ++ [nul]

theorem length_overrun (room : ℕ) (s : CStr) : (overrun room s).length ≤ s.length + 1 - room := by
  unfold overrun
  split <;> simp
  omega

theorem Lock.poke_slot {lock lock' : Lock} {o : ℕ} {c : Char} {adx : Fin 4} {j : Fin 128}
    (h : lock.poke o c = some lock') (ho : o < 28 + 56 * (128 * adx + j)) :
    lock'.keys adx j = lock.keys adx j := by
  unfold Lock.poke at h
  dsimp only at h
  split_ifs at h <;> cases h <;> try rfl
  rename_i hn
  have hslot : ¬ (adx.val = (o - 28) / 56 / 128 ∧ j.val = (o - 28) / 56 % 128) := by omega
  unfold Lock.setKey
  dsimp only
  by_cases hadx : adx = ⟨(o - 28) / 56 / 128, hn⟩
  · rw [hadx, Function.update_self, Function.update_of_ne]
    intro hj
    exact hslot ⟨congrArg Fin.val hadx, congrArg Fin.val hj⟩
  · rw [Function.update_of_ne hadx]

namespace SubDev

structure SpillsTo (sd sd' : SubDev) : Prop where
  eq : sd' = { sd with rssi := sd'.rssi, dynamic := sd'.dynamic, seed := sd'.seed,
                       interval := sd'.interval, lock := sd'.lock }

theorem SpillsTo.refl (sd : SubDev) : SpillsTo sd sd := ⟨rfl⟩

theorem SpillsTo.trans {a b c : SubDev} (h : SpillsTo a b) (h' : SpillsTo b c) : SpillsTo a c :=
  ⟨by rw [h'.eq, h.eq]⟩

theorem poke_spillsTo {sd sd' : SubDev} {k : ℕ} {c : Char} (h : sd.poke k c = some sd') :
    SpillsTo sd sd' := by
  unfold poke at h
  split_ifs at h
  · cases h; exact ⟨rfl⟩
  · cases h; exact ⟨rfl⟩
  · cases h; exact ⟨rfl⟩
  · cases h; exact ⟨rfl⟩
  · obtain ⟨lock, -, rfl⟩ := Option.map_eq_some_iff.mp h
    exact ⟨rfl⟩

theorem poke_slot {sd sd' : SubDev} {k : ℕ} {c : Char} {adx : Fin 4} {j : Fin 128}
    (h : sd.poke k c = some sd') (hk : k < 44 + 56 * (128 * adx + j)) :
    sd'.lock.keys adx j = sd.lock.keys adx j := by
  unfold poke at h
  split_ifs at h
  · cases h; rfl
  · cases h; rfl
  · cases h; rfl
  · cases h; rfl
  · obtain ⟨lock, hl, rfl⟩ := Option.map_eq_some_iff.mp h
    exact Lock.poke_slot hl (by omega)

theorem poke_dynamic {sd sd' : SubDev} {k : ℕ} {c : Char} (h : sd.poke k c = some sd')
    (hk : k < 4) : sd'.dynamic = sd.dynamic ∧ sd'.seed = sd.seed ∧ sd'.interval = sd.interval := by
  rw [poke, if_pos hk] at h
  cases h
  exact ⟨rfl, rfl, rfl⟩

theorem spill_induct {R : SubDev → SubDev → Prop} (hrefl : ∀ sd, R sd sd)
    (htrans : ∀ {a b c}, R a b → R b c → R a c) {bytes : CStr} {sd sd' : SubDev}
    (hpoke : ∀ sd sd' k c, k < bytes.length → sd.poke k c = some sd' → R sd sd')
    (h : sd.spill bytes = some sd') : R sd sd' := by
  unfold spill at h
  have hk : ∀ b ∈ bytes.zipIdx, b.2 < bytes.length := by
    intro b hb
    have := List.snd_lt_of_mem_zipIdx hb
    omega
  generalize bytes.zipIdx = bs at h hk
  induction bs generalizing sd with
  | nil => cases h; exact hrefl _
  | cons b bs ih =>
    rw [List.foldlM_cons] at h
    obtain ⟨sd₁, h₁, h₂⟩ := Option.bind_eq_some_iff.mp h
    exact htrans (hpoke _ _ _ _ (hk b List.mem_cons_self) h₁)
      (ih h₂ fun b hb => hk b (List.mem_cons_of_mem _ hb))

theorem spill_spillsTo {sd sd' : SubDev} {bytes : CStr} (h : sd.spill bytes = some sd') :
    SpillsTo sd sd' :=
  spill_induct .refl .trans (fun _ _ _ _ _ h => poke_spillsTo h) h

theorem spill_slot {sd sd' : SubDev} {bytes : CStr} {adx : Fin 4} {j : Fin 128}
    (h : sd.spill bytes = some sd') (hlen : bytes.length ≤ 44 + 56 * (128 * adx + j)) :
    sd'.lock.keys adx j = sd.lock.keys adx j :=
  spill_induct (R := fun a b => b.lock.keys adx j = a.lock.keys adx j) (fun _ => rfl)
    (fun h h' => h'.trans h) (fun _ _ _ _ hk h => poke_slot h (by omega)) h

theorem spill_dynamic {sd sd' : SubDev} {bytes : CStr} (h : sd.spill bytes = some sd')
    (hlen : bytes.length ≤ 4) :
    sd'.dynamic = sd.dynamic ∧ sd'.seed = sd.seed ∧ sd'.interval = sd.interval :=
  spill_induct
    (R := fun a b => b.dynamic = a.dynamic ∧ b.seed = a.seed ∧ b.interval = a.interval)
    (fun _ => ⟨rfl, rfl, rfl⟩)
    (fun h h' => ⟨h'.1.trans h.1, h'.2.1.trans h.2.1, h'.2.2.trans h.2.2⟩)
    (fun _ _ _ _ hk h => poke_dynamic h (by omega)) h

end SubDev

end Afly
