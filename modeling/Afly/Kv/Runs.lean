import Afly.Kv.File
import Afly.Kv.ReadBack
import Afly.Lib.Keyed
import Afly.Lib.Reach

/-! # The store over whole runs

What the file is for: two maps from names, in which capitals do not count, to
data, one in the process and one that outlives it. The code refines them over any
run in which calls of the system fail and the process is restarted.
-/

namespace Afly.Kv

open Digest (U8)
open Reach

/-- The part of a key that counts. -/
def fold (key : CStr) : CStr := key.map Char.toLower

theorem caseInsensitiveEq_eq (s t : CStr) : caseInsensitiveEq s t = decide (fold s = fold t) := by
  induction s generalizing t with
  | nil => cases t <;> simp [caseInsensitiveEq, fold]
  | cons c s ih =>
    cases t with
    | nil => simp [caseInsensitiveEq, fold]
    | cons d t =>
      rw [caseInsensitiveEq, ih, ← Bool.decide_and]
      exact decide_eq_decide.mpr (by simp [fold])

inductive KvOp where
  | set (key : CStr) (val : List U8)
  | get (key : CStr) (bufferLen : ℕ)
  | del (key : CStr)
  | restart

inductive KvAnswer where
  | code (ret : ℤ)
  | value (found : Option (List U8 × List U8))
  | done

section

variable {N : Type} (printNumber : N → CStr) (strtod : CStr → Option (N × ℕ))

def KvFile.serve (kv : KvFile N) (e : KvEnv) : KvOp → Option (KvFile N × KvAnswer)
  | .set key val => (kv.halKvSet printNumber strtod e key val).map fun (kv, ret) => (kv, .code ret)
  | .get key bufferLen =>
    (kv.halKvGet strtod e key bufferLen).map fun (kv, found) => (kv, .value found)
  | .del key => (kv.halKvDel printNumber strtod e key).map fun (kv, ret) => (kv, .code ret)
  | .restart => some (kv.restart, .done)

end

abbrev KvMap := CStr → Option (List U8)

/-- The data that the process has, and those that are kept for the next one. -/
structure Vault where
  cached : Option KvMap
  saved : Option KvMap

namespace Vault

/-- The vault is opened with the data that were kept, or with none at all. -/
def opened (V : Vault) (e : KvEnv) : Vault :=
  match V.cached with
  | some _ => V
  | none =>
    if e.malloc then
      match V.saved with
      | some m => if e.readFile then ⟨some m, some m⟩ else V
      | none =>
        if e.create.isNone then V
        else if e.fsync && e.readFile then ⟨some fun _ => none, some fun _ => none⟩
        else ⟨none, some fun _ => none⟩
    else V

/-- A change is seen from then on, whether or not it can be kept. -/
def change (V : Vault) (e : KvEnv) (f : KvMap → KvMap) : Vault :=
  match V.cached with
  | none => V
  | some m => ⟨some (f m), if e.replace then some (f m) else V.saved⟩

def on (V : Vault) (e : KvEnv) : KvOp → Vault
  | .set key val =>
    if e.mallocValue then (V.opened e).change e fun m => Function.update m (fold key) (some val)
    else V.opened e
  | .get _ _ => V.opened e
  | .del key => (V.opened e).change e fun m => Function.update m (fold key) none
  | .restart => { V with cached := none }

/-- The answers to a request for data with a buffer of some length: it has to be longer than their
text without fill characters. In a shorter one they are cut off, or the request fails. -/
def Found (data : List U8) (bufferLen : ℕ) (memory : Bool) (a : KvAnswer) : Prop :=
  if data ≠ [] ∧ (4 * data.length + 2) / 3 < bufferLen then
    a = .value (if memory then
      some (data, data ++ List.replicate (bufferLen - data.length) 0) else none)
  else a = .value none ∨ ∃ out buffer, a = .value (some (out, buffer)) ∧
    out.length ≤ data.length ∧ (data ≠ [] → out.length < data.length)

def Answers (V : Vault) (e : KvEnv) : KvOp → KvAnswer → Prop
  | .set _ _, a =>
    a = .code (if (V.opened e).cached.isSome ∧ e.mallocValue ∧ e.replace then 0 else -1)
  | .get key bufferLen, a =>
    match (V.opened e).cached.bind fun m => m (fold key) with
    | none => a = .value none
    | some data => Found data bufferLen e.mallocValue a
  | .del _, a => a = .code (if (V.opened e).cached.isSome ∧ e.replace then 0 else -1)
  | .restart, a => a = .done

end Vault

theorem decodeValue_whole {data : List U8} (hne : data ≠ []) {bufferLen : ℕ}
    (hroom : (4 * data.length + 2) / 3 < bufferLen) (e : KvEnv) :
    decodeValue e bufferLen ((aBase64Encode data).take (bufferLen - 1)) =
      if e.mallocValue then
        some (data, data ++ List.replicate (bufferLen - data.length) 0) else none := by
  have hletters : (letters data).length ≤ bufferLen - 1 := by
    rw [length_letters]
    omega
  obtain ⟨fill, hfill, htake⟩ := take_aBase64Encode hletters
  have hdecode (k : ℕ) : aBase64Decode e.wild data.length
      (letters data ++ List.replicate fill '=').length (letters data ++ List.replicate fill '=' ++
        (List.replicate k nul ++ [e.beyond.1, e.beyond.2])) = data :=
    aBase64Decode_fill rfl (by simp)
  rw [htake, decodeValue, aBase64DecodeLen_fill e.below hne hfill]
  simp only [hdecode, Int.toNat_natCast]
  split_ifs with hlen hmemory hmemory
  · rfl
  · exact absurd hlen.2.1 hmemory
  · exact absurd ⟨by omega, hmemory, by omega⟩ hlen
  · rfl

theorem decodeValue_length {e : KvEnv} {bufferLen : ℕ} {text : CStr} {out buffer : List U8}
    (h : decodeValue e bufferLen text = some (out, buffer)) :
    (out.length : ℤ) ≤ aBase64DecodeLen e.below text := by
  simp only [decodeValue] at h
  split_ifs at h with hlen
  cases h
  have hout := List.length_take_le (aBase64DecodeLen e.below text).toNat (decodeLoop e.wild
    ((text.length + 3) / 4) (text ++ (List.replicate (bufferLen - text.length) nul ++
      [e.beyond.1, e.beyond.2])))
  rw [aBase64Decode]
  omega

theorem decodeValue_short {data : List U8} {bufferLen : ℕ}
    (hroom : data = [] ∨ bufferLen ≤ (4 * data.length + 2) / 3) {e : KvEnv} {out buffer : List U8}
    (h : decodeValue e bufferLen ((aBase64Encode data).take (bufferLen - 1)) =
      some (out, buffer)) : out.length ≤ data.length ∧ (data ≠ [] → out.length < data.length) := by
  have hout := decodeValue_length h
  by_cases hempty : data = []
  · subst hempty
    have htext : (aBase64Encode []).take (bufferLen - 1) = [] := List.take_nil
    have hzero : aBase64DecodeLen e.below [] ≤ 0 := by
      simp only [aBase64DecodeLen, List.length_nil]
      omega
    rw [htext] at hout
    exact ⟨by simp only [List.length_nil]; omega, fun h => absurd rfl h⟩
  · have hpos := List.length_pos_iff.mpr hempty
    have hroom := hroom.resolve_left hempty
    have hcut : ((aBase64Encode data).take (bufferLen - 1)).length < (letters data).length := by
      rw [List.length_take, length_letters]
      omega
    have hshort := aBase64DecodeLen_short e.below hcut
    exact ⟨by omega, fun _ => by omega⟩

section Represents

variable {N : Type} {printNumber : N → CStr} {strtod : CStr → Option (N × ℕ)}

def root (items : List (CStr × List U8)) : CJson N :=
  .object (items.map fun p => (p.1, .string (aBase64Encode p.2)))

/-- The items hold a map: no two of them have the same name. -/
structure Holds (items : List (CStr × List U8)) (m : KvMap) : Prop where
  names : (items.map (fold ∘ Prod.fst)).Nodup
  keys : ∀ p ∈ items, nul ∉ p.1
  view : Keyed.view fold items = m

variable (strtod) in
/-- The text of the file is complete, and what is read of it is the map. -/
def Keeps (disk : Option (List Char)) (m : KvMap) : Prop :=
  ∃ text items, disk = some (text ++ [nul]) ∧ nul ∉ text ∧
    cJsonParse strtod text = some (root items) ∧ Holds items m

variable (strtod) in
structure Represents (kv : KvFile N) (V : Vault) : Prop where
  missing : V.saved = none → kv.disk = none ∧ kv.kvfile = none
  saved : ∀ m, V.saved = some m → Keeps strtod kv.disk m
  closed : V.cached = none → kv.kvfile = none
  cached : ∀ m, V.cached = some m → ∃ items, kv.kvfile = some (root items) ∧ Holds items m

theorem holds_nil : Holds [] fun _ => none := ⟨List.nodup_nil, nofun, rfl⟩

theorem Holds.put {items : List (CStr × List U8)} {m : KvMap} (h : Holds items m) {key : CStr}
    (hkey : nul ∉ key) (val : List U8) :
    Holds ((items.eraseP fun p => fold p.1 = fold key) ++ [(key, val)])
      (Function.update m (fold key) (some val)) := by
  obtain ⟨hview, hnotin⟩ := Keyed.view_eraseP h.names (fold key)
  refine ⟨?_, fun p hp => ?_, ?_⟩
  · rw [List.map_append, List.nodup_append]
    refine ⟨h.names.sublist (List.eraseP_sublist.map _), by simp, ?_⟩
    rintro a ha b hb rfl
    simp only [List.map_cons, List.map_nil, List.mem_singleton, Function.comp_apply] at hb
    exact hnotin (hb ▸ ha)
  · rcases List.mem_append.mp hp with hp | hp
    · exact h.keys p (List.mem_of_mem_eraseP hp)
    · exact List.mem_singleton.mp hp ▸ hkey
  · rw [Keyed.view_concat hnotin, hview, h.view, Function.update_idem]

theorem Holds.drop {items : List (CStr × List U8)} {m : KvMap} (h : Holds items m) (key : CStr) :
    Holds (items.eraseP fun p => fold p.1 = fold key) (Function.update m (fold key) none) :=
  ⟨h.names.sublist (List.eraseP_sublist.map _), fun p hp => h.keys p (List.mem_of_mem_eraseP hp),
    (Keyed.view_eraseP h.names (fold key)).1.trans (by rw [h.view])⟩

theorem caseInsensitiveEq_item (key : CStr) :
    ((fun p : CStr × CJson N => caseInsensitiveEq key p.1) ∘
      fun p : CStr × List U8 => (p.1, CJson.string (aBase64Encode p.2))) =
      fun p => decide (fold p.1 = fold key) := by
  funext p
  rw [Function.comp_apply, caseInsensitiveEq_eq]
  exact decide_eq_decide.mpr eq_comm

theorem root_drop (items : List (CStr × List U8)) (key : CStr) :
    (root items : CJson N).deleteItemFromObject key =
      root (items.eraseP fun p => fold p.1 = fold key) := by
  rw [root, CJson.deleteItemFromObject, List.eraseP_map, caseInsensitiveEq_item, root]

theorem root_put (items : List (CStr × List U8)) (key : CStr) (val : List U8) :
    ((root items : CJson N).deleteItemFromObject key).addItemToObject key
      (.string (aBase64Encode val)) =
      some (root ((items.eraseP fun p => fold p.1 = fold key) ++ [(key, val)])) := by
  rw [root_drop, root, root, List.map_append]
  rfl

theorem Holds.getObjectItem {items : List (CStr × List U8)} {m : KvMap} (h : Holds items m)
    (key : CStr) : (root items : CJson N).getObjectItem key =
      (m (fold key)).map fun data => .string (aBase64Encode data) := by
  rw [root, CJson.getObjectItem, List.find?_map, caseInsensitiveEq_item, ← h.view, Keyed.view,
    Option.map_map, Option.map_map]
  rfl

theorem Holds.printable {items : List (CStr × List U8)} {m : KvMap} (h : Holds items m) :
    Printable printNumber strtod nestingLimit (root items) := by
  refine .object (d := 999) (fun p hp => ?_) fun p hp => ?_
  · obtain ⟨q, hq, rfl⟩ := List.mem_map.mp hp
    exact h.keys q hq
  · obtain ⟨q, hq, rfl⟩ := List.mem_map.mp hp
    exact .string (nul_notMem_aBase64Encode q.2)

theorem keeps_print {items : List (CStr × List U8)} {m : KvMap} (h : Holds items m)
    (printNumber : N → CStr) :
    Keeps strtod (some (cJsonPrint printNumber (root items) ++ [nul])) m := by
  have hprint : Printable printNumber strtod nestingLimit (root items) := h.printable
  have hparse := hprint.parse (Or.inl rfl)
  rw [List.append_nil] at hparse
  exact ⟨_, items, rfl, nul_notMem_printValue hprint 0, hparse, h⟩

theorem cJsonParse_new : cJsonParse strtod "\x7b\x7d".toList = some (root []) := by
  have hskip (s : CStr) : bufferSkipWhitespace ('\x7d' :: s) = '\x7d' :: s :=
    bufferSkipWhitespace_cons (by decide) s
  rw [cJsonParse]
  change (parseValue strtod (5 + 1) 0 (bufferSkipWhitespace ('\x7b' :: '\x7d' :: [nul]))).map
    Prod.fst = _
  rw [bufferSkipWhitespace_cons (by decide), parseValue_cons (by decide) (by decide) (by decide),
    hskip]
  rfl

theorem keeps_new : Keeps strtod (some ("\x7b\x7d".toList ++ [nul])) fun _ => none :=
  ⟨_, [], rfl, by decide, cJsonParse_new, holds_nil⟩

theorem Represents.opened {kv : KvFile N} {V : Vault} (h : Represents strtod kv V) {e : KvEnv}
    (he : e.create = none ∨ ∃ n ≥ 3, e.create = some n) :
    ∃ kv', kv.opened strtod e = some kv' ∧ Represents strtod kv' (V.opened e) := by
  obtain ⟨disk, kvfile⟩ := kv
  obtain ⟨cached, saved⟩ := V
  cases cached with
  | some m =>
    obtain ⟨items, rfl, hitems⟩ := h.cached m rfl
    exact ⟨_, rfl, h⟩
  | none =>
    obtain rfl : kvfile = none := h.closed rfl
    by_cases hmalloc : e.malloc = true
    · cases saved with
      | some m =>
        obtain ⟨text, items, rfl, hnul, hparse, hitems⟩ := h.saved m rfl
        simp only [KvFile.opened, Vault.opened, kvOpen, hmalloc, if_true, Bool.true_and]
        by_cases hread : e.readFile = true
        · rw [if_pos hread, if_pos hread, if_pos (by simp), cstr_append_nul hnul, hparse]
          refine ⟨_, rfl, nofun, h.saved, nofun, ?_⟩
          rintro _ ⟨⟩
          exact ⟨items, rfl, hitems⟩
        · rw [if_neg hread, if_neg hread]
          exact ⟨_, rfl, h⟩
      | none =>
        obtain ⟨rfl, -⟩ := h.missing rfl
        simp only [KvFile.opened, Vault.opened, kvOpen, hmalloc, if_true, createJsonFile]
        rcases he with hnone | ⟨n, hn, hsome⟩
        · simp only [hnone, Option.isNone_none, if_true]
          exact ⟨_, rfl, h⟩
        · have hwhole : ("\x7b\x7d".toList ++ [nul]).take n = "\x7b\x7d".toList ++ [nul] :=
            List.take_of_length_le hn
          simp only [hsome, hwhole, Option.isNone_some, decide_eq_true hn, Bool.true_and,
            Bool.false_eq_true, if_false]
          have hsaved : ∀ m, (some fun _ => none : Option KvMap) = some m →
              Keeps strtod (some ("\x7b\x7d".toList ++ [nul])) m := by
            rintro _ ⟨⟩
            exact keeps_new
          by_cases hread : (e.fsync && e.readFile) = true
          · rw [if_pos hread, if_pos hread, if_pos (by decide), cstr_append_nul (by decide),
              cJsonParse_new]
            refine ⟨_, rfl, nofun, hsaved, nofun, ?_⟩
            rintro _ ⟨⟩
            exact ⟨[], rfl, holds_nil⟩
          · rw [if_neg hread, if_neg hread]
            exact ⟨_, rfl, nofun, hsaved, fun _ => rfl, nofun⟩
    · simp only [KvFile.opened, Vault.opened, kvOpen, hmalloc, Bool.false_eq_true, if_false]
      exact ⟨_, rfl, h⟩

theorem Represents.change (printNumber : N → CStr) {kv : KvFile N} {V : Vault}
    (h : Represents strtod kv V) {m : KvMap} (hm : V.cached = some m) (f : KvMap → KvMap)
    {items : List (CStr × List U8)} (hitems : Holds items (f m)) (e : KvEnv) :
    ∃ kv', kvSync printNumber e (root items) kv.disk = (kv', if e.replace then 0 else -1) ∧
      Represents strtod kv' (V.change e f) := by
  obtain ⟨cached, saved⟩ := V
  obtain rfl : cached = some m := hm
  rw [Vault.change, kvSync]
  dsimp only
  split_ifs with hreplace
  · refine ⟨_, rfl, nofun, ?_, nofun, ?_⟩
    · rintro _ ⟨⟩
      exact keeps_print hitems printNumber
    · rintro _ ⟨⟩
      exact ⟨items, rfl, hitems⟩
  · refine ⟨_, rfl, fun hnone => ?_, h.saved, nofun, ?_⟩
    · obtain ⟨-, hclosed⟩ := h.missing hnone
      obtain ⟨_, hopened, -⟩ := h.cached m rfl
      cases hclosed.symm.trans hopened
    · rintro _ ⟨⟩
      exact ⟨items, rfl, hitems⟩

theorem found_kvGetBlob {items : List (CStr × List U8)} {m : KvMap} (h : Holds items m)
    {key : CStr} {data : List U8} (hdata : m (fold key) = some data) (bufferLen : ℕ) (e : KvEnv) :
    ∃ found, kvGetBlob e (root items : CJson N) key bufferLen = some found ∧
      Vault.Found data bufferLen e.mallocValue (.value found) := by
  have hitem : (root items : CJson N).getObjectItem key = some (.string (aBase64Encode data)) := by
    rw [h.getObjectItem, hdata]
    rfl
  by_cases hzero : bufferLen = 0
  · refine ⟨none, by rw [kvGetBlob, kvGet, if_pos hzero]; rfl, ?_⟩
    rw [Vault.Found, if_neg (by omega)]
    exact Or.inl rfl
  · refine ⟨_, by rw [kvGetBlob, kvGet, if_neg hzero, hitem]; rfl, ?_⟩
    change Vault.Found data bufferLen e.mallocValue
      (.value (decodeValue e bufferLen ((aBase64Encode data).take (bufferLen - 1))))
    rw [Vault.Found]
    split_ifs with hwhole hmemory
    · rw [decodeValue_whole hwhole.1 hwhole.2, if_pos hmemory]
    · rw [decodeValue_whole hwhole.1 hwhole.2, if_neg hmemory]
    · have hroom : data = [] ∨ bufferLen ≤ (4 * data.length + 2) / 3 := by
        by_contra h
        rw [not_or] at h
        exact hwhole ⟨h.1, by omega⟩
      cases hvalue : decodeValue e bufferLen ((aBase64Encode data).take (bufferLen - 1)) with
      | none => exact Or.inl rfl
      | some found =>
        exact Or.inr ⟨found.1, found.2, rfl, decodeValue_short hroom hvalue⟩

variable (N) in
theorem represents_start : Represents strtod (⟨none, none⟩ : KvFile N) ⟨none, none⟩ :=
  ⟨fun _ => ⟨rfl, rfl⟩, nofun, fun _ => rfl, nofun⟩

end Represents

/-- A new file gets all of its first bytes, or none. A key has no terminator, and data are no more
than an `int` counts bytes of their text. -/
def KvOp.Allowed (e : KvEnv) : KvOp → Prop
  | .set key val => (e.create = none ∨ ∃ n ≥ 3, e.create = some n) ∧ nul ∉ key ∧
    (base64EncodeSize val.length : ℤ) ≤ intMax
  | _ => e.create = none ∨ ∃ n ≥ 3, e.create = some n

section Serve

variable {N : Type} {printNumber : N → CStr} {strtod : CStr → Option (N × ℕ)} {kv : KvFile N}
  {V : Vault} {e : KvEnv}

theorem change_of_closed (h : V.cached = none) (f : KvMap → KvMap) : V.change e f = V := by
  rw [Vault.change, h]

theorem serve_set (h : Represents strtod kv V) {key : CStr} {val : List U8}
    (hop : (KvOp.set key val).Allowed e) : ∃ kv' a,
      kv.serve printNumber strtod e (.set key val) = some (kv', a) ∧
      V.Answers e (.set key val) a ∧ Represents strtod kv' (V.on e (.set key val)) := by
  obtain ⟨hcreate, hkey, hsize⟩ := hop
  obtain ⟨⟨disk, kvfile⟩, hopened, hr⟩ := h.opened hcreate
  simp only [KvFile.serve, KvFile.halKvSet, hopened, Option.bind_some, Vault.Answers, Vault.on]
  cases hcached : (V.opened e).cached with
  | none =>
    obtain rfl : kvfile = none := hr.closed hcached
    refine ⟨_, .code (-1), rfl, by simp, ?_⟩
    rw [change_of_closed hcached, ite_self]
    exact hr
  | some m =>
    obtain ⟨items, rfl, hitems⟩ := hr.cached m hcached
    by_cases hmalloc : e.mallocValue = true
    · obtain ⟨kv', hsync, hr'⟩ := hr.change printNumber hcached
        (fun m => Function.update m (fold key) (some val)) (hitems.put hkey val) e
      refine ⟨kv', .code (if e.replace then 0 else -1), ?_, by simp [hmalloc], ?_⟩
      · simp only [kvSetBlob, if_pos hsize, hmalloc, if_true, kvSet, root_put, Option.map_some,
          hsync]
      · rw [if_pos hmalloc]
        exact hr'
    · refine ⟨⟨disk, some (root items)⟩, .code (-1), ?_, by simp [hmalloc], ?_⟩
      · simp only [kvSetBlob, if_pos hsize, if_neg hmalloc, Option.map_some]
      · rw [if_neg hmalloc]
        exact hr

theorem serve_del (h : Represents strtod kv V) {key : CStr}
    (hcreate : e.create = none ∨ ∃ n ≥ 3, e.create = some n) : ∃ kv' a,
      kv.serve printNumber strtod e (.del key) = some (kv', a) ∧
      V.Answers e (.del key) a ∧ Represents strtod kv' (V.on e (.del key)) := by
  obtain ⟨⟨disk, kvfile⟩, hopened, hr⟩ := h.opened hcreate
  simp only [KvFile.serve, KvFile.halKvDel, hopened, Option.map_some, Vault.Answers, Vault.on]
  cases hcached : (V.opened e).cached with
  | none =>
    obtain rfl : kvfile = none := hr.closed hcached
    refine ⟨_, .code (-1), rfl, by simp, ?_⟩
    rw [change_of_closed hcached]
    exact hr
  | some m =>
    obtain ⟨items, rfl, hitems⟩ := hr.cached m hcached
    obtain ⟨kv', hsync, hr'⟩ := hr.change printNumber hcached
      (fun m => Function.update m (fold key) none) (hitems.drop key) e
    refine ⟨kv', .code (if e.replace then 0 else -1), ?_, by simp, hr'⟩
    simp only [kvDel, root_drop, hsync]

theorem serve_get (h : Represents strtod kv V) {key : CStr} {bufferLen : ℕ}
    (hcreate : e.create = none ∨ ∃ n ≥ 3, e.create = some n) : ∃ kv' a,
      kv.serve printNumber strtod e (.get key bufferLen) = some (kv', a) ∧
      V.Answers e (.get key bufferLen) a ∧
      Represents strtod kv' (V.on e (.get key bufferLen)) := by
  obtain ⟨⟨disk, kvfile⟩, hopened, hr⟩ := h.opened hcreate
  simp only [KvFile.serve, KvFile.halKvGet, hopened, Option.bind_some, Vault.Answers, Vault.on]
  cases hcached : (V.opened e).cached with
  | none =>
    obtain rfl : kvfile = none := hr.closed hcached
    exact ⟨_, .value none, rfl, rfl, hr⟩
  | some m =>
    obtain ⟨items, rfl, hitems⟩ := hr.cached m hcached
    rw [Option.bind_some]
    cases hdata : m (fold key) with
    | none =>
      have hget : kvGetBlob e (root items : CJson N) key bufferLen = some none := by
        rw [kvGetBlob, kvGet, hitems.getObjectItem, hdata]
        split_ifs <;> rfl
      exact ⟨_, .value none, by simp only [hget, Option.map_some], rfl, hr⟩
    | some data =>
      obtain ⟨found, hget, hfound⟩ := found_kvGetBlob (N := N) hitems hdata bufferLen e
      exact ⟨_, .value found, by simp only [hget, Option.map_some], hfound, hr⟩

theorem serve_spec (h : Represents strtod kv V) {op : KvOp} (hop : op.Allowed e) : ∃ kv' a,
    kv.serve printNumber strtod e op = some (kv', a) ∧ V.Answers e op a ∧
      Represents strtod kv' (V.on e op) := by
  cases op with
  | set key val => exact serve_set h hop
  | get key bufferLen => exact serve_get h hop
  | del key => exact serve_del h hop
  | restart =>
    refine ⟨_, .done, rfl, rfl, fun hnone => ?_, h.saved, fun _ => rfl, nofun⟩
    exact ⟨(h.missing hnone).1, rfl⟩

end Serve

/-- The file and the vault that have seen the same operations. -/
structure Store (N : Type) where
  file : KvFile N
  vault : Vault

namespace Store

variable {N : Type} {printNumber : N → CStr} {strtod : CStr → Option (N × ℕ)}

/-- A system on which the process was never run. -/
def empty : Store N := ⟨⟨none, none⟩, ⟨none, none⟩⟩

variable (printNumber strtod) in
def step (S : Store N) (call : KvOp × KvEnv) : Option (Store N) :=
  (S.file.serve printNumber strtod call.2 call.1).map fun (file, _) =>
    ⟨file, S.vault.on call.2 call.1⟩

def Allowed (_ : Store N) (call : KvOp × KvEnv) : Prop := call.1.Allowed call.2

theorem represents {S : Store N} (hS : Reachable (step printNumber strtod) Allowed empty S) :
    Represents strtod S.file S.vault := by
  refine hS.invariant (I := fun S => Represents strtod S.file S.vault) (represents_start N) ?_
  rintro S ⟨op, e⟩ S' h hop hs
  obtain ⟨file, a, hserve, -, hr⟩ := serve_spec h hop
  rw [step, hserve] at hs
  cases hs
  exact hr

/-- Any allowed call goes on with a run. -/
theorem exists_step {S : Store N} (hS : Reachable (step printNumber strtod) Allowed empty S)
    {op : KvOp} {e : KvEnv} (hop : op.Allowed e) :
    ∃ S', Reachable (step printNumber strtod) Allowed empty S' ∧ S'.vault = S.vault.on e op := by
  obtain ⟨file, a, hserve, -⟩ := serve_spec (represents hS) hop
  have hs : S.step printNumber strtod (op, e) = some ⟨file, S.vault.on e op⟩ := by
    rw [step, hserve]
    rfl
  have hallowed : S.Allowed (op, e) := hop
  exact ⟨_, hS.next hallowed hs, rfl⟩

/-- Over every run of requests, failures of the system and restarts: a file that was kept is
complete and holds the data of the vault, and the next request is never stuck with a text without
end or an item that it cannot use, and is answered as the vault answers. -/
theorem kv_refines_vault {S : Store N}
    (hS : Reachable (step printNumber strtod) Allowed empty S) :
    (∀ m, S.vault.saved = some m → Keeps strtod S.file.disk m) ∧
    ∀ op e, op.Allowed e → ∃ file a,
      S.file.serve printNumber strtod e op = some (file, a) ∧ S.vault.Answers e op a := by
  have h := represents hS
  refine ⟨h.saved, fun op e hop => ?_⟩
  obtain ⟨file, a, hserve, ha, -⟩ := serve_spec h hop
  exact ⟨file, a, hserve, ha⟩

/-- A system that grants everything, and one that cannot replace the file. -/
def granting : KvEnv where
  malloc := true
  create := some 3
  fsync := true
  readFile := true
  mallocValue := true
  replace := true
  below := ('=', '=')
  beyond := ('\xff', 'x')
  wild := fun _ => 255

/-- What could not be kept is lost with the process, and the data that were kept come back under a
name in capitals. -/
theorem kv_refines_vault_restart : ∃ S : Store Unit,
    S.vault = (((Vault.mk none none).on granting (.set "pin".toList [1, 2])).on
      { granting with replace := false } (.set "Pin".toList [9])).on granting .restart ∧
    ∃ file, S.file.serve (fun _ => []) (fun _ => none) granting (.get "PIN".toList 4) =
      some (file, .value (some ([1, 2], [1, 2, 0, 0]))) := by
  have hcreate : granting.create = none ∨ ∃ n ≥ 3, granting.create = some n :=
    Or.inr ⟨3, le_rfl, rfl⟩
  have hpin : (KvOp.set "pin".toList [1, 2]).Allowed granting :=
    ⟨hcreate, by decide, by decide⟩
  have hcap : (KvOp.set "Pin".toList [9]).Allowed { granting with replace := false } :=
    ⟨hcreate, by decide, by decide⟩
  have hrestart : KvOp.restart.Allowed granting := hcreate
  have hstart : Reachable (step (fun _ : Unit => []) fun _ => none) Allowed empty empty := .start
  obtain ⟨S₁, hS₁, hvault₁⟩ := exists_step hstart hpin
  obtain ⟨S₂, hS₂, hvault₂⟩ := exists_step hS₁ hcap
  obtain ⟨S₃, hS₃, hvault₃⟩ := exists_step hS₂ hrestart
  have hvault := hvault₃.trans (congrArg (Vault.on · granting .restart)
    (hvault₂.trans (congrArg (Vault.on · _ _) hvault₁)))
  obtain ⟨file, a, hserve, ha⟩ := (kv_refines_vault hS₃).2 (.get "PIN".toList 4) granting hcreate
  refine ⟨S₃, hvault, file, hserve.trans ?_⟩
  rw [hvault] at ha
  have hanswer : a = .value (some ([1, 2], [1, 2, 0, 0])) := ha
  rw [hanswer]

end Store

end Afly.Kv
