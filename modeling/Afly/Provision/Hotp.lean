import Afly.C.Decimal
import Afly.C.HexText
import Afly.Cloud.Properties

/-! # The value of a dynamic password

A lock and the gateway compute the same password from the seed, the number of
the interval and the address of the lock. `get_hotp` swaps the bytes of both
numbers in memory, and takes the address from an array that `hex_parse` fills.
Nobody looks at what `hex_parse` returns: for a name that denotes no address the
password depends on what the array held before.
-/

namespace Afly

open World

/-- The bytes of a 32-bit number in the memory of the little-endian target. -/
def memory32 (n : ℕ) : List ℕ := [n % 256, n / 2 ^ 8 % 256, n / 2 ^ 16 % 256, n / 2 ^ 24 % 256]

/-- The number that `get_hotp` makes of the bytes of another. -/
def swap32 (n : ℕ) : ℕ :=
  let p := memory32 n
  (p.getD 0 0 &&& 0xff) <<< 24 ||| (p.getD 1 0 &&& 0xff) <<< 16 ||| (p.getD 2 0 &&& 0xff) <<< 8 |||
    (p.getD 3 0 &&& 0xff)

/-- An `int` as `uint32`. -/
def uint32 (n : ℤ) : ℕ := (n % 2 ^ 32).toNat

/-- `get_hotp`, where `hmacSha1` makes 20 bytes of a key and a message. -/
def getHotp (hmacSha1 : List ℕ → List ℕ → Fin 20 → Fin 256) (seed cnt : ℕ) (mac : List ℕ) : ℕ :=
  let key := memory32 (swap32 seed) ++ mac.take 8
  let d := hmacSha1 key (memory32 (swap32 cnt))
  let pass := [d 0, d 1, d 2, d 3].foldl (fun pass b => (pass <<< 8) % 2 ^ 32 ||| b.val) 0
  (pass &&& 0x7fffffff) % 1000000

/-- The object that `subdev_get_dynamic` answers with. -/
def dynamicPass (val : ℤ) : Json :=
  .obj (Properties.object [("DynamicPass", jsonString (sprintfInt val))])

/-- What the answer is made with: the digest, what the JSON library makes of a value, and the
array for the address as the function finds it. -/
structure Hotp where
  hmacSha1 : List ℕ → List ℕ → Fin 20 → Fin 256
  dumps : Json → Option CStr
  mac : Fin 32 → ℕ

/-- The array after `hex_parse`. -/
def Hotp.address (m : Hotp) (deviceName : CStr) : List ℕ :=
  let written := hexWritten 32 deviceName
  written ++ (List.ofFn m.mac).drop written.length

/-- `subdev_get_dynamic` with the text that it copies to the output. There is no result for an
interval of zero. -/
def World.subdevGetDynamicReply (env : Env) (m : Hotp) (w : World) (i : Slot) :
    Option (World × ℤ × Option CStr) :=
  let sd := w.subdevs i
  if sd.dynamic = 0 then some (w.provision env i, -1, none)
  else if sd.interval = 0 then none
  else
    let val := getHotp m.hmacSha1 (uint32 sd.seed) (uint32 ((env.time 0).tdiv sd.interval))
      (m.address sd.deviceName)
    some (w, 0, m.dumps (dynamicPass val))

def bigEndian32 (n : ℤ) : List ℕ :=
  [(n / 2 ^ 24 % 256).toNat, (n / 2 ^ 16 % 256).toNat, (n / 2 ^ 8 % 256).toNat, (n % 256).toNat]

/-- The password that a lock with this address computes. -/
def lockPass (hmacSha1 : List ℕ → List ℕ → Fin 20 → Fin 256) (seed interval t : ℤ)
    (address : List ℕ) : ℕ :=
  let d := hmacSha1 (bigEndian32 seed ++ address) (bigEndian32 (t.fdiv interval))
  (d 0 * 2 ^ 24 + d 1 * 2 ^ 16 + d 2 * 2 ^ 8 + d 3) % 2 ^ 31 % 1000000

def AddressOf (deviceName : CStr) (address : List ℕ) : Prop :=
  address.length = 8 ∧ HexDenotes deviceName address

/-- The answer for a confirmed password: the password of the lock, a refusal where the name denotes
no address, and the same answer whatever the array held before. -/
structure AnswersAsLock (env : Env) (w : World) (i : Slot) : Prop where
  answers : ∀ address, AddressOf (w.subdevs i).deviceName address → ∀ m : Hotp,
    w.subdevGetDynamicReply env m i = some (w, 0, m.dumps (dynamicPass
      (lockPass m.hmacSha1 (w.subdevs i).seed (w.subdevs i).interval (env.time 0) address)))
  refuses : (¬ ∃ address, AddressOf (w.subdevs i).deviceName address) → ∀ m : Hotp,
    ∃ ret, w.subdevGetDynamicReply env m i = some (w, ret, none) ∧ ret < 0
  determined : ∀ (m : Hotp) (mac : Fin 32 → ℕ),
    w.subdevGetDynamicReply env { m with mac := mac } i = w.subdevGetDynamicReply env m i

section Bytes

variable {hmacSha1 : List ℕ → List ℕ → Fin 20 → Fin 256} {deviceName : CStr} {address : List ℕ}

theorem or_eq_add {a b : ℕ} (k : ℕ) (hb : b < 2 ^ k) : a <<< k ||| b = a * 2 ^ k + b := by
  rw [← Nat.shiftLeft_add_eq_or_of_lt hb, Nat.shiftLeft_eq]

theorem swap32_eq (n : ℕ) : swap32 n =
    n % 256 * 2 ^ 24 + n / 2 ^ 8 % 256 * 2 ^ 16 + n / 2 ^ 16 % 256 * 2 ^ 8 + n / 2 ^ 24 % 256 := by
  have hbyte (b : ℕ) : b % 256 &&& 0xff = b % 256 := by
    rw [Nat.and_two_pow_sub_one_eq_mod _ 8]
    omega
  have hshift (a b : ℕ) (k : ℕ) : a <<< (k + 8) ||| b <<< k = (a <<< 8 ||| b) <<< k := by
    rw [Nat.shiftLeft_or_distrib, ← Nat.shiftLeft_add, Nat.add_comm]
  simp only [swap32, memory32, List.getD_cons_zero, List.getD_cons_succ, hbyte]
  rw [hshift _ _ 16, hshift _ _ 8, or_eq_add 8 (by omega), or_eq_add 8 (by omega),
    or_eq_add 8 (by omega)]
  ring

theorem memory32_swap32 (n : ℤ) : memory32 (swap32 (uint32 n)) = bigEndian32 n := by
  have hbytes (b₀ b₁ b₂ b₃ : ℕ) (h₀ : b₀ < 256) (h₁ : b₁ < 256) (h₂ : b₂ < 256) (h₃ : b₃ < 256) :
      memory32 (b₀ * 2 ^ 24 + b₁ * 2 ^ 16 + b₂ * 2 ^ 8 + b₃) = [b₃, b₂, b₁, b₀] := by
    simp only [memory32, List.cons.injEq, and_true]
    omega
  have hn : ((n % 2 ^ 32).toNat : ℤ) = n % 2 ^ 32 :=
    Int.toNat_of_nonneg (Int.emod_nonneg _ (by decide))
  rw [swap32_eq, hbytes _ _ _ _ (by omega) (by omega) (by omega) (by omega), uint32, bigEndian32]
  generalize (n % 2 ^ 32).toNat = u at hn
  simp only [List.cons.injEq, and_true]
  omega

theorem pass_eq (d : Fin 20 → Fin 256) :
    [d 0, d 1, d 2, d 3].foldl (fun pass b => (pass <<< 8) % 2 ^ 32 ||| b.val) 0 =
      d 0 * 2 ^ 24 + d 1 * 2 ^ 16 + d 2 * 2 ^ 8 + d 3 := by
  have hstep (pass : ℕ) (b : Fin 256) (hp : pass < 2 ^ 24) :
      (pass <<< 8) % 2 ^ 32 ||| b.val = pass * 2 ^ 8 + b := by
    have hsmall : pass <<< 8 < 2 ^ 32 := by
      rw [Nat.shiftLeft_eq]
      omega
    rw [Nat.mod_eq_of_lt hsmall, or_eq_add 8 b.isLt]
  rw [List.foldl_cons, hstep _ _ (by omega), List.foldl_cons, hstep _ _ (by omega), List.foldl_cons,
    hstep _ _ (by omega), List.foldl_cons, hstep _ _ (by omega), List.foldl_nil]
  ring

theorem getHotp_eq (seed cnt : ℤ) (hlen : address.length = 8) (rest : List ℕ) :
    getHotp hmacSha1 (uint32 seed) (uint32 cnt) (address ++ rest) =
      lockPass hmacSha1 seed 1 cnt address := by
  unfold getHotp lockPass
  dsimp only
  rw [pass_eq, memory32_swap32, memory32_swap32, ← hlen, List.take_left, Int.fdiv_one,
    Nat.and_two_pow_sub_one_eq_mod _ 31]

theorem addressOf_iff : AddressOf deviceName address ↔
    address.length = 8 ∧ hexParse 32 deviceName = some address :=
  and_congr_right fun hlen => (hexParse_eq_some_iff (by omega) (by omega)).symm

theorem address_eq (m : Hotp) (h : AddressOf deviceName address) :
    m.address deviceName = address ++ (List.ofFn m.mac).drop 8 := by
  obtain ⟨hlen, hp⟩ := addressOf_iff.mp h
  rw [Hotp.address, hexWritten_of_hexParse hp, hlen]

theorem dynamicPass_eq (val : ℤ) :
    dynamicPass val = .obj [("DynamicPass", .str (sprintfInt val))] := by
  rw [dynamicPass, jsonString_ascii fun _ => ascii_sprintfInt]
  rfl

theorem tdiv_cases {t interval : ℤ} (hi : interval ≠ 0) :
    (interval ∣ t ∨ 0 ≤ t * interval) ∧ t.tdiv interval = t.fdiv interval ∨
      ¬ (interval ∣ t ∨ 0 ≤ t * interval) ∧ t.tdiv interval = t.fdiv interval + 1 := by
  rw [Int.tdiv_eq_fdiv]
  by_cases hd : interval ∣ t
  · simp [hd]
  · have ht : t ≠ 0 := by
      rintro rfl
      exact hd (dvd_zero _)
    rcases lt_or_gt_of_ne ht with ht | ht <;> rcases lt_or_gt_of_ne hi with hi | hi
    · have := Int.mul_pos_of_neg_of_neg ht hi
      simp [hd, this.le, ht.not_ge, hi.not_ge, Int.sign_eq_neg_one_of_neg hi]
    · have := Int.mul_neg_of_neg_of_pos ht hi
      simp [hd, this.not_ge, ht.not_ge, hi.le, Int.sign_eq_one_of_pos hi]
    · have := Int.mul_neg_of_pos_of_neg ht hi
      simp [hd, this.not_ge, ht.le, hi.not_ge]
    · have := Int.mul_pos ht hi
      simp [hd, this.le, ht.le, hi.le]

end Bytes

section Answer

variable {env : Env} {w : World} {i : Slot}

theorem subdevGetDynamicReply_confirmed (m : Hotp) (hd : (w.subdevs i).dynamic ≠ 0)
    (hi : (w.subdevs i).interval ≠ 0) :
    w.subdevGetDynamicReply env m i = some (w, 0, m.dumps (dynamicPass
      (getHotp m.hmacSha1 (uint32 (w.subdevs i).seed)
        (uint32 ((env.time 0).tdiv (w.subdevs i).interval))
        (m.address (w.subdevs i).deviceName)))) := by
  unfold subdevGetDynamicReply
  dsimp only
  rw [if_neg hd, if_neg hi]

theorem subdevGetDynamicReply_address {address : List ℕ} (m : Hotp)
    (hd : (w.subdevs i).dynamic ≠ 0) (hi : (w.subdevs i).interval ≠ 0)
    (ha : AddressOf (w.subdevs i).deviceName address) :
    w.subdevGetDynamicReply env m i = some (w, 0, m.dumps (dynamicPass
      (lockPass m.hmacSha1 (w.subdevs i).seed 1
        ((env.time 0).tdiv (w.subdevs i).interval) address))) := by
  rw [subdevGetDynamicReply_confirmed m hd hi, address_eq m ha, getHotp_eq _ _ ha.1]

/-- A digest that tells one message from the others by the last bytes it gives a password. -/
def tellingHotp (message : List ℕ) : Hotp where
  hmacSha1 := fun _ msg j => if msg ≠ message ∧ j = 3 then 1 else 0
  dumps := fun j => jsonGetString j "DynamicPass"
  mac := fun _ => 0

theorem lockPass_telling (seed n : ℤ) (address : List ℕ) :
    lockPass (tellingHotp (bigEndian32 n)).hmacSha1 seed 1 n address = 0 ∧
      lockPass (tellingHotp (bigEndian32 n)).hmacSha1 seed 1 (n - 1) address = 1 := by
  have hne : bigEndian32 (n - 1) ≠ bigEndian32 n := by
    simp only [bigEndian32, ne_eq, List.cons.injEq, and_true, not_and]
    omega
  constructor
  · simp [lockPass, tellingHotp]
  · simp [lockPass, tellingHotp, hne]

theorem lockPass_fdiv (hmacSha1 : List ℕ → List ℕ → Fin 20 → Fin 256) (seed interval t : ℤ)
    (address : List ℕ) : lockPass hmacSha1 seed interval t address =
      lockPass hmacSha1 seed 1 (t.fdiv interval) address := by
  simp [lockPass]

/-- The gateway answers as the lock does exactly when the name denotes an address and the number
of the interval is rounded down. -/
theorem answersAsLock_iff (env : Env) (w : World) (i : Slot) (hd : (w.subdevs i).dynamic ≠ 0)
    (hi : (w.subdevs i).interval ≠ 0) : AnswersAsLock env w i ↔
      (∃ address, AddressOf (w.subdevs i).deviceName address) ∧
        ((w.subdevs i).interval ∣ env.time 0 ∨ 0 ≤ env.time 0 * (w.subdevs i).interval) := by
  constructor
  · intro h
    have hname : ∃ address, AddressOf (w.subdevs i).deviceName address := by
      by_contra hno
      obtain ⟨ret, hr, hneg⟩ := h.refuses hno (tellingHotp [])
      rw [subdevGetDynamicReply_confirmed _ hd hi] at hr
      have hret : 0 = ret := congrArg (·.2.1) (Option.some.inj hr)
      exact absurd hneg (by omega)
    refine ⟨hname, ?_⟩
    obtain ⟨address, ha⟩ := hname
    rcases tdiv_cases hi with ⟨hok, -⟩ | ⟨-, hup⟩
    · exact hok
    · exfalso
      -- the lock is one interval behind, and some digest tells the two apart
      have hr := h.answers address ha
        (tellingHotp (bigEndian32 ((env.time 0).tdiv (w.subdevs i).interval)))
      rw [subdevGetDynamicReply_address _ hd hi ha, lockPass_fdiv _ _ (w.subdevs i).interval,
        eq_sub_of_add_eq hup.symm, (lockPass_telling _ _ _).1, (lockPass_telling _ _ _).2,
        dynamicPass_eq, dynamicPass_eq] at hr
      have hs : some (sprintfInt ((0 : ℕ) : ℤ)) = some (sprintfInt ((1 : ℕ) : ℤ)) :=
        congrArg (fun r : World × ℤ × Option CStr => r.2.2) (Option.some.inj hr)
      exact absurd (sprintfInt_inj (Option.some.inj hs)) (by decide)
  · rintro ⟨⟨address, ha⟩, hok⟩
    have hdiv : (env.time 0).tdiv (w.subdevs i).interval =
        (env.time 0).fdiv (w.subdevs i).interval := by
      rcases tdiv_cases hi with ⟨-, h⟩ | ⟨hno, -⟩
      · exact h
      · exact absurd hok hno
    have hanswer (m : Hotp) : w.subdevGetDynamicReply env m i = _ :=
      subdevGetDynamicReply_address m hd hi ha
    constructor
    · intro address' ha' m
      rw [subdevGetDynamicReply_address m hd hi ha', hdiv, ← lockPass_fdiv]
    · intro hno
      exact absurd ⟨address, ha⟩ hno
    · intro m mac
      rw [hanswer, hanswer]

end Answer

def confirmedDevice (name : CStr) : SubDev :=
  { firstDevice with deviceName := name, dynamic := 1, seed := 1500000000, interval := 1800 }

/-- A device that is named by its address has the password of its lock. -/
theorem addressed_answers :
    AnswersAsLock .quiet (single (confirmedDevice "00158d00026c5415".toList)) 0 := by
  refine (answersAsLock_iff _ _ _ (by decide) (by decide)).mpr ⟨?_, Or.inr (by decide)⟩
  exact ⟨[0, 21, 141, 0, 2, 108, 84, 21], addressOf_iff.mpr (by decide)⟩

/-- A device with another name is given a password all the same. -/
theorem named_is_not_refused :
    ¬ AnswersAsLock .quiet (single (confirmedDevice "lock1".toList)) 0 := by
  intro h
  have hno : ¬ ∃ address, AddressOf "lock1".toList address := by
    rintro ⟨address, ha⟩
    have hnone : hexParse 32 "lock1".toList = none := by decide
    exact absurd ((addressOf_iff.mp ha).2.symm.trans hnone) (by simp)
  obtain ⟨ret, hr, hneg⟩ := h.refuses hno (tellingHotp [])
  rw [subdevGetDynamicReply_confirmed _ (by decide) (by decide)] at hr
  have hret : 0 = ret := congrArg (·.2.1) (Option.some.inj hr)
  omega

end Afly
