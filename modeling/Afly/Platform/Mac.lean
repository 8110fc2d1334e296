import Afly.C.Hex
import Afly.Cloud.Properties

/-! # The hardware address

The address is read from a file as text, `30:ae:7b:29:6d:2f`. The decoder of
`platform.c` misses the last digit of each of its three ranges, and the messages
of `uproto.c` carry the hex codes of the first eight characters of the text, so
of three of the six bytes.
-/

namespace Afly

/-- The loop of `fgets`: at most some characters, and none behind a line feed. -/
def fgetsLoop : ℕ → List Char → List Char
  | 0, _ | _, [] => []
  | n + 1, c :: file => if c = '\n' then [c] else c :: fgetsLoop n file

/-- What `fgets` leaves in a buffer, which it does not touch at the end of the file. -/
def fgets (buf : List Char) (size : ℕ) (file : List Char) : List Char :=
  if file = [] then buf else fgetsLoop (size - 1) file

def hexValue (x : Char) : ℕ :=
  if '0' ≤ x ∧ x < '9' then x.toNat - '0'.toNat
  else if 'a' ≤ x ∧ x < 'f' then x.toNat - 'a'.toNat + 10
  else if 'A' ≤ x ∧ x < 'F' then x.toNat - 'A'.toNat + 10
  else 0

/-- `get_mac_addr`: the string in the buffer, or nothing where it returns -1. -/
def getMacAddr (buf : List Char) (size : ℕ) (file : Option (List Char)) : Option CStr :=
  if size < 20 then none
  else file.bind fun file =>
    let mac := cstr (fgets buf 20 file)
    if mac.length < 17 then none
    else if mac.getLast? = some '\n' then some mac.dropLast
    else some mac

/-- `platform_get_mac_addr`: the octets, or nothing where it returns -1. -/
def platformGetMacAddr (buf : List Char) (file : Option (List Char)) : Option (Fin 6 → ℕ) :=
  (getMacAddr buf 32 file).map fun mac i =>
    (hexValue (mac.getD (i * 3 + 0) nul) * 16 + hexValue (mac.getD (i * 3 + 1) nul)) % 256

/-- `platform_get_hw_id`: what it leaves in the caller's buffer. -/
def platformGetHwId (buf : List Char) (file : Option (List Char)) (id : List Char) (size : ℕ) :
    List Char :=
  match getMacAddr buf 32 file with
  | none => id
  | some mac => if size < mac.length + 1 then id else mac ++ nul :: id.drop (mac.length + 1)

section Messages

/-- The hex string of the first eight bytes of the hardware id. -/
def macstr (buf : List Char) (file : Option (List Char)) (mac : List Char) : CStr :=
  (hexString 32 (((platformGetHwId buf file mac 32).take 8).map Char.toNat) false none).getD []

def messageHead (mac type : CStr) (ctime : ℤ) : Properties :=
  [("from", jsonString "CLOUD".toList), ("to", jsonString "ZB3".toList),
   ("deviceCode", jsonString "00000".toList), ("mac", jsonString mac), ("type", jsonString type),
   ("time", some (.int ctime))]

def uprotoResponseUcmd (mac : CStr) (ctime : ℤ) (uuid : CStr) (retval : ℤ) : Properties :=
  messageHead mac "cmdResult".toList ctime ++
    [("data", some (.obj (Properties.object
      [("id", jsonString uuid), ("code", some (.int retval))])))]

def uprotoReportUmsg (mac : CStr) (ctime : ℤ) (submac attr : CStr) (jret : Option Json) :
    Properties :=
  messageHead mac "reportAttribute".toList ctime ++
    [("data", some (.obj (Properties.object
      [("attribute", jsonString attr), ("mac", jsonString submac), ("value", jret)])))]

def uprotoMakeMsg (mac : CStr) (ctime : ℤ) (submac : Option CStr) (attr operation : CStr)
    (jvalue : Option Json) : Properties :=
  messageHead mac "cmd".toList ctime ++
    [("data", some (.obj (Properties.object
      [("id", jsonString attr), ("command", jsonString operation),
       ("arguments", some (.obj (Properties.object
         [("mac", jsonString (submac.getD mac)), ("attribute", jsonString attr),
          ("value", jvalue)])))])))]

end Messages

/-- A file that holds an address: twelve hex digits with colons between the bytes, and nothing or a
new line behind them. -/
structure MacFile where
  digits : Fin 6 → Char × Char
  hex : ∀ i, (hexAsciiToNibble (digits i).1).isSome ∧ (hexAsciiToNibble (digits i).2).isSome
  tail : List Char
  ends : tail = [] ∨ tail.head? = some '\n'

namespace MacFile

variable (m : MacFile)

def text : CStr :=
  [(m.digits 0).1, (m.digits 0).2, ':', (m.digits 1).1, (m.digits 1).2, ':',
   (m.digits 2).1, (m.digits 2).2, ':', (m.digits 3).1, (m.digits 3).2, ':',
   (m.digits 4).1, (m.digits 4).2, ':', (m.digits 5).1, (m.digits 5).2]

def content : List Char := m.text ++ m.tail

def address (i : Fin 6) : ℕ :=
  16 * (hexAsciiToNibble (m.digits i).1).getD 0 + (hexAsciiToNibble (m.digits i).2).getD 0

inductive Sends : Properties → Prop where
  | response (buf mac : List Char) (ctime : ℤ) (uuid : CStr) (retval : ℤ) :
      Sends (uprotoResponseUcmd (macstr buf (some m.content) mac) ctime uuid retval)
  | report (buf mac : List Char) (ctime : ℤ) (submac attr : CStr) (jret : Option Json) :
      Sends (uprotoReportUmsg (macstr buf (some m.content) mac) ctime submac attr jret)
  | command (buf mac : List Char) (ctime : ℤ) (submac : Option CStr) (attr operation : CStr)
      (jvalue : Option Json) :
      Sends (uprotoMakeMsg (macstr buf (some m.content) mac) ctime submac attr operation jvalue)

def Decodes : Prop := ∀ buf, platformGetMacAddr buf (some m.content) = some m.address

/-- No digit is the last one of its range. -/
def Plain : Prop :=
  ∀ i, ∀ c ∈ [(m.digits i).1, (m.digits i).2], c ≠ '9' ∧ c ≠ 'f' ∧ c ≠ 'F'

/-- Messages of the two gateways never carry the same address. -/
def Differs (m m' : MacFile) : Prop :=
  ∀ msg msg', m.Sends msg → m'.Sends msg' → msg.object.lookup "mac" ≠ msg'.object.lookup "mac"

end MacFile

section Digits

variable {c : Char}

theorem char_le_iff {a b : Char} : a ≤ b ↔ a.toNat ≤ b.toNat := UInt32.le_iff_toNat_le

theorem char_lt_iff {a b : Char} : a < b ↔ a.toNat < b.toNat := UInt32.lt_iff_toNat_lt

theorem hexDigit_range (h : (hexAsciiToNibble c).isSome) : 48 ≤ c.toNat ∧ c.toNat ≤ 102 := by
  unfold hexAsciiToNibble at h
  simp only [char_le_iff, Char.reduceToNat] at h
  split_ifs at h
  · omega
  · omega
  · omega
  · cases h

variable (c) in
theorem hexNibble_lt : (hexAsciiToNibble c).getD 0 < 16 := by
  unfold hexAsciiToNibble
  simp only [char_le_iff, Char.reduceToNat]
  split_ifs <;> simp only [Option.getD_some, Option.getD_none] <;> omega

variable (c) in
theorem hexValue_lt : hexValue c < 16 := by
  unfold hexValue
  simp only [char_le_iff, char_lt_iff, Char.reduceToNat]
  split_ifs <;> omega

theorem hexValue_eq_iff :
    hexValue c = (hexAsciiToNibble c).getD 0 ↔ c ≠ '9' ∧ c ≠ 'f' ∧ c ≠ 'F' := by
  unfold hexAsciiToNibble hexValue
  simp only [ne_eq, ← Char.toNat_inj, char_le_iff, char_lt_iff, Char.reduceToNat]
  split_ifs <;> simp only [Option.getD_some, Option.getD_none, true_iff] <;> omega

end Digits

section Reading

variable {m m' : MacFile}

theorem fgetsLoop_append {l tail : List Char} {n : ℕ} (hl : ∀ c ∈ l, c ≠ '\n') (hn : l.length ≤ n) :
    fgetsLoop n (l ++ tail) = l ++ fgetsLoop (n - l.length) tail := by
  induction l generalizing n with
  | nil => rfl
  | cons c l ih =>
    obtain ⟨n, rfl⟩ : ∃ k, n = k + 1 := ⟨n - 1, by simp only [List.length_cons] at hn; omega⟩
    have hc := hl c List.mem_cons_self
    have hrest := ih (fun c hc => hl c (List.mem_cons_of_mem _ hc)) (Nat.le_of_succ_le_succ hn)
    rw [List.cons_append, fgetsLoop, if_neg hc, hrest, List.length_cons, Nat.add_sub_add_right,
      List.cons_append]

namespace MacFile

theorem isSome_of_mem_text {c : Char} (hc : c ∈ m.text) :
    c = ':' ∨ (hexAsciiToNibble c).isSome := by
  simp only [text, List.mem_cons, List.not_mem_nil, or_false] at hc
  rcases hc with rfl | rfl | rfl | rfl | rfl | rfl | rfl | rfl | rfl | rfl | rfl | rfl | rfl |
    rfl | rfl | rfl | rfl
  all_goals first | exact Or.inl rfl | exact Or.inr (m.hex _).1 | exact Or.inr (m.hex _).2

theorem text_range {c : Char} (hc : c ∈ m.text) : 48 ≤ c.toNat ∧ c.toNat ≤ 102 := by
  rcases isSome_of_mem_text hc with rfl | h
  · decide
  · exact hexDigit_range h

theorem text_ne {c : Char} (hc : c ∈ m.text) : c ≠ '\n' ∧ c ≠ nul := by
  have hr := text_range hc
  constructor
  · rintro rfl
    exact absurd hr (by decide)
  · rintro rfl
    exact absurd hr (by decide)

theorem getMacAddr_content (m : MacFile) (buf : List Char) :
    getMacAddr buf 32 (some m.content) = some m.text := by
  have hne : m.content ≠ [] := by simp [content, text]
  have hread : fgets buf 20 m.content = m.text ++ fgetsLoop 2 m.tail := by
    rw [fgets, if_neg hne, content]
    exact fgetsLoop_append (n := 19) (fun c hc => (text_ne hc).1) (by simp [text])
  have hnul : ∀ c ∈ m.text, decide (c ≠ nul) = true := fun c hc => decide_eq_true (text_ne hc).2
  rw [getMacAddr, if_neg (by decide), Option.bind_some, hread]
  rcases m.ends with htail | htail
  · have hmac : cstr (m.text ++ fgetsLoop 2 m.tail) = m.text := by
      rw [htail, show fgetsLoop 2 [] = [] from rfl, List.append_nil]
      exact List.takeWhile_eq_self_iff.mpr hnul
    dsimp only
    rw [hmac, if_neg (by simp [text]), if_neg]
    intro hlast
    exact (text_ne (List.mem_of_getLast? hlast)).1 rfl
  · obtain ⟨rest, hrest⟩ := List.head?_eq_some_iff.mp htail
    have hmac : cstr (m.text ++ fgetsLoop 2 m.tail) = m.text ++ ['\n'] := by
      rw [hrest]
      refine List.takeWhile_eq_self_iff.mpr ?_
      intro c hc
      rcases List.mem_append.mp hc with hc | hc
      · exact hnul c hc
      · rw [List.mem_singleton.mp hc]
        decide
    dsimp only
    rw [hmac, if_neg (by simp [text]), if_pos List.getLast?_concat, List.dropLast_concat]

theorem decodes_iff_plain : m.Decodes ↔ m.Plain := by
  have hread (buf : List Char) : platformGetMacAddr buf (some m.content) = some fun i =>
      (hexValue (m.digits i).1 * 16 + hexValue (m.digits i).2) % 256 := by
    rw [platformGetMacAddr, getMacAddr_content, Option.map_some]
    congr 1
    funext i
    fin_cases i <;> rfl
  have hbyte (i : Fin 6) : (hexValue (m.digits i).1 * 16 + hexValue (m.digits i).2) % 256 =
      m.address i ↔ ∀ c ∈ [(m.digits i).1, (m.digits i).2], c ≠ '9' ∧ c ≠ 'f' ∧ c ≠ 'F' := by
    have hv := hexValue_lt (m.digits i).1
    have hv' := hexValue_lt (m.digits i).2
    have hn := hexNibble_lt (m.digits i).1
    have hn' := hexNibble_lt (m.digits i).2
    rw [List.forall_mem_cons, List.forall_mem_singleton, ← hexValue_eq_iff, ← hexValue_eq_iff,
      address]
    omega
  constructor
  · intro h i
    rw [← hbyte]
    exact congrFun (Option.some.inj ((hread []).symm.trans (h []))) i
  · intro h buf
    rw [hread]
    congr 1
    funext i
    exact (hbyte i).mpr (h i)

theorem macstr_content (m : MacFile) (buf mac : List Char) :
    macstr buf (some m.content) mac = hexBytes false none ((m.text.take 8).map Char.toNat) := by
  have hid : platformGetHwId buf (some m.content) mac 32 = m.text ++ nul :: mac.drop 18 := by
    rw [platformGetHwId, getMacAddr_content]
    rfl
  have htake : (m.text ++ nul :: mac.drop 18).take 8 = m.text.take 8 := rfl
  rw [macstr, hid, htake]
  rfl

theorem take_bytes {byte : ℕ} (h : byte ∈ (m.text.take 8).map Char.toNat) : byte < 256 := by
  obtain ⟨c, hc, rfl⟩ := List.mem_map.mp h
  have := text_range (List.mem_of_mem_take hc)
  omega

theorem lookup_mac (mac type : CStr) (ctime : ℤ) (data : Option Json) :
    (messageHead mac type ctime ++ [("data", data)] : Properties).object.lookup "mac" =
      jsonString mac := by
  have hnames : ((messageHead mac type ctime ++ [("data", data)]).map Prod.fst).Nodup :=
    show ["from", "to", "deviceCode", "mac", "type", "time", "data"].Nodup by decide
  exact Properties.lookup_object hnames (by simp [messageHead])

theorem Sends.carries {msg : Properties} (h : m.Sends msg) : msg.object.lookup "mac" =
    some (.str (hexBytes false none ((m.text.take 8).map Char.toNat))) := by
  have hascii : jsonString (hexBytes false none ((m.text.take 8).map Char.toNat)) =
      some (.str (hexBytes false none ((m.text.take 8).map Char.toNat))) := by
    apply jsonString_ascii
    intro c hc
    have := hexDigit_range (isSome_of_mem_hexBytes hc)
    omega
  cases h with
  | response => rw [← hascii, uprotoResponseUcmd, lookup_mac, macstr_content]
  | report => rw [← hascii, uprotoReportUmsg, lookup_mac, macstr_content]
  | command => rw [← hascii, uprotoMakeMsg, lookup_mac, macstr_content]

theorem differs_iff : m.Differs m' ↔ m.text.take 8 ≠ m'.text.take 8 := by
  constructor
  · intro h he
    have hs := Sends.response (m := m) [] [] 0 [] 0
    have hs' := Sends.response (m := m') [] [] 0 [] 0
    refine h _ _ hs hs' ?_
    rw [hs.carries, hs'.carries, he]
  · intro h msg msg' hs hs' he
    rw [hs.carries, hs'.carries] at he
    have hbytes := hexBytes_inj (by simp [text]) (fun _ => take_bytes) (fun _ => take_bytes)
      (Json.str.inj (Option.some.inj he))
    refine h (List.map_injective_iff.mpr ?_ hbytes)
    intro a b hab
    exact Char.toNat_inj.mp hab

end MacFile

end Reading

/-- Both encodings are faithful for two gateways exactly when no digit of their addresses is the
last one of its range, and their texts do not agree in the first eight characters unless the
addresses are the same. -/
theorem mac_faithful_iff (m m' : MacFile) :
    (m.Decodes ∧ m'.Decodes ∧ (m.address ≠ m'.address → m.Differs m')) ↔
      m.Plain ∧ m'.Plain ∧ (m.text.take 8 = m'.text.take 8 → m.address = m'.address) := by
  rw [MacFile.decodes_iff_plain, MacFile.decodes_iff_plain, MacFile.differs_iff]
  constructor
  · rintro ⟨h, h', hd⟩
    exact ⟨h, h', fun he => not_not.mp fun hne => hd hne he⟩
  · rintro ⟨h, h', hd⟩
    exact ⟨h, h', fun hne he => hne (hd he)⟩

/-- The address in the comment of `get_mac_addr`. -/
def exampleMac : MacFile where
  digits := ![('3', '0'), ('a', 'e'), ('7', 'b'), ('2', '9'), ('6', 'd'), ('2', 'f')]
  hex := by decide
  tail := ['\n']
  ends := by decide

/-- It is read as `30:ae:7b:20:6d:20`. -/
theorem exampleMac_misread : ¬ ∀ m m' : MacFile,
    m.Decodes ∧ m'.Decodes ∧ (m.address ≠ m'.address → m.Differs m') := by
  intro h
  have hmac := congrFun (Option.some.inj ((h exampleMac exampleMac).1 [])) 3
  exact absurd hmac (by decide)

end Afly
