import Esp32Base.Lib.CText
import Esp32Base.Cfg.Setters

/-!
# Cfg.Factory — the factory settings (cfg.c)

`initFactoryCfgFlash` reads the default settings as JSON text and builds a record of them. One buffer
`ssbuf` takes each string in turn, cut by `strncpy` at the limit of that string.

* `factoryCfg_eq`: the writes to the record, with what `ssbuf` holds at each of them.
* `factory_fields_iff`: every field is determined by its own value iff the strings fit their fields and
  nothing of the network name is left behind the password.
-/

namespace Esp32Base

open Lib Lib.Buf Lib.CText

/-! ## The code -/

/-- `SECTOR_CFG_JSON`. -/
def SECTOR_CFG_JSON : ℕ := 511

/-- An item of a JSON object; `valuestring` is `NULL` in a number. -/
structure CJson where
  valueint : ℤ
  valuestring : Option Bytes

/-- `TagCfgData cfgdata={0}`. -/
def zeroCfg : TagCfgData := ⟨List.replicate cfgSize 0, List.length_replicate⟩

/-- `%02x` of the last three bytes of the address. -/
def macTail (mac_addr : Bytes) : Bytes :=
  printHex hexLower (mac_addr.getD 3 0) ++ printHex hexLower (mac_addr.getD 4 0) ++
    printHex hexLower (mac_addr.getD 5 0)

/-- `HXK`, `%02X` of the whole address and `rand()%1000`. -/
def devuuidText (mac_addr : Bytes) (rand : ℕ) : Bytes :=
  ascii "HXK" ++ printHex hexUpper (mac_addr.getD 0 0) ++ printHex hexUpper (mac_addr.getD 1 0) ++
    printHex hexUpper (mac_addr.getD 2 0) ++ printHex hexUpper (mac_addr.getD 3 0) ++
    printHex hexUpper (mac_addr.getD 4 0) ++ printHex hexUpper (mac_addr.getD 5 0) ++
    printInt ((rand % 1000 : ℕ) : ℤ)

section Code

variable {J σ : Type} (cJSON_Parse : Bytes → Option J) (cJSON_GetObjectItem : J → Bytes → Option CJson)
  (spi : SpiFlash σ)

/-- `jsonVal->valueint`; a missing key is a null pointer. -/
def valueint (json : J) (key : String) : Option ℤ :=
  (cJSON_GetObjectItem json (ascii key)).map CJson.valueint

/-- `jsonVal->valuestring`. -/
def valuestring (json : J) (key : String) : Option Bytes :=
  (cJSON_GetObjectItem json (ascii key)).bind CJson.valuestring

/-- `strncpy(ssbuf, value, n)`: the buffer, and the string it holds then. -/
def copyText (json : J) (key : String) (n : ℕ) (ssbuf : Bytes) : Option (Bytes × Bytes) := do
  let v ← valuestring cJSON_GetObjectItem json key
  let ssbuf ← strncpy ssbuf v n
  let text ← cstr ssbuf
  some (ssbuf, text)

/-- The record built of a JSON object. -/
def factoryCfg (mac_addr : Bytes) (rand : ℕ) (json : J) : Option TagCfgData := do
  let ssbuf := List.replicate 255 0
  let cfgdata ← zeroCfg.setInt .devInitFlag INIT_HARDWARE_FLAG
  let v ← valueint cJSON_GetObjectItem json "uart1_baudRate"
  let cfgdata ← cfgdata.setInt .uart1_baudRate v
  let v ← valueint cJSON_GetObjectItem json "is_wifi_start"
  let cfgdata ← cfgdata.setInt .mode (if v ≠ 0 then EzhWifiMode.ap else EzhWifiMode.undo).toInt
  let (ssbuf, text) ← copyText cJSON_GetObjectItem json "apssid" 64 ssbuf
  let cfgdata ← cfgdata.strcpy .apSSID (text ++ macTail mac_addr)
  let (ssbuf, text) ← copyText cJSON_GetObjectItem json "apssid_password" 30 ssbuf
  let cfgdata ← cfgdata.strcpy .apPassword text
  let cfgdata ← cfgdata.strcpy .devuuid (devuuidText mac_addr rand)
  let (ssbuf, text) ← copyText cJSON_GetObjectItem json "devname" 64 ssbuf
  let cfgdata ← cfgdata.strcpy .devname (text ++ macTail mac_addr)
  let (ssbuf, text) ← copyText cJSON_GetObjectItem json "devflag" 64 ssbuf
  let cfgdata ← cfgdata.strcpy .devflag text
  let (_, text) ← copyText cJSON_GetObjectItem json "mqtt_host" 200 ssbuf
  let cfgdata ← cfgdata.strcpy .mqtt_host text
  let v ← valueint cJSON_GetObjectItem json "mqtt_port"
  let cfgdata ← cfgdata.setInt .mqtt_port v
  let v ← valueint cJSON_GetObjectItem json "is_mqtt_start"
  let cfgdata ← cfgdata.setInt .is_mqtt_start v
  let v ← valueint cJSON_GetObjectItem json "tcpserv1_port"
  cfgdata.setInt .tcpserv1_port v

/-- The characters of the JSON text: up to a NUL or a byte of erased flash. -/
def isJsonChar (c : UInt8) : Bool := c != 0x00 && c != 0xFF

/-- The record that was written, if the text is JSON, and the chip. -/
def initFactoryCfgFlash (mac_addr : Bytes) (rand : ℕ) (s : σ) : Option (Option TagCfgData × σ) := do
  let pdefjson ← get_spi_flash_binary_data spi 4095 SECTOR_CFG_JSON s
  -- the terminator, behind the block when none of its bytes ends the text
  let pdefjson ← store pdefjson (pdefjson.takeWhile isJsonChar).length [0]
  let text ← cstr pdefjson
  match cJSON_Parse text with
  | none => some (none, s)
  | some json =>
    let cfgdata ← factoryCfg cJSON_GetObjectItem mac_addr rand json
    some (some cfgdata, (write_spi_flash_data spi cfgdata.bytes SECTOR_CFG_DATA s).2)

end Code

/-! ## The values and the record they are meant to give -/

/-- The values of the expected keys. -/
structure DefJson where
  apssid : Bytes
  apssid_password : Bytes
  is_wifi_start : ℤ
  devname : Bytes
  devflag : Bytes
  uart1_baudRate : ℤ
  tcpserv1_port : ℤ
  mqtt_host : Bytes
  mqtt_port : ℤ
  is_mqtt_start : ℤ

/-- The object has all expected keys with values of the expected types. -/
structure HasKeys {J : Type} (cJSON_GetObjectItem : J → Bytes → Option CJson) (json : J) (j : DefJson) :
    Prop where
  apssid : valuestring cJSON_GetObjectItem json "apssid" = some j.apssid
  apssid_password : valuestring cJSON_GetObjectItem json "apssid_password" = some j.apssid_password
  is_wifi_start : valueint cJSON_GetObjectItem json "is_wifi_start" = some j.is_wifi_start
  devname : valuestring cJSON_GetObjectItem json "devname" = some j.devname
  devflag : valuestring cJSON_GetObjectItem json "devflag" = some j.devflag
  uart1_baudRate : valueint cJSON_GetObjectItem json "uart1_baudRate" = some j.uart1_baudRate
  tcpserv1_port : valueint cJSON_GetObjectItem json "tcpserv1_port" = some j.tcpserv1_port
  mqtt_host : valuestring cJSON_GetObjectItem json "mqtt_host" = some j.mqtt_host
  mqtt_port : valueint cJSON_GetObjectItem json "mqtt_port" = some j.mqtt_port
  is_mqtt_start : valueint cJSON_GetObjectItem json "is_mqtt_start" = some j.is_mqtt_start

/-- The strings are C strings. -/
def DefJson.NoNul (j : DefJson) : Prop :=
  0 ∉ j.apssid ∧ 0 ∉ j.apssid_password ∧ 0 ∉ j.devname ∧ 0 ∉ j.devflag ∧ 0 ∉ j.mqtt_host

def DefJson.mode (j : DefJson) : EzhWifiMode := if j.is_wifi_start ≠ 0 then .ap else .undo

/-- Every field is its own value, cut to its limit or to what fits; the other fields are zero. -/
structure FactoryFields (j : DefJson) (mac_addr : Bytes) (rand : ℕ) (r : TagCfgData) : Prop where
  apSSID : r.str .apSSID = some (j.apssid.take 64 ++ macTail mac_addr)
  apPassword : r.str .apPassword = some (j.apssid_password.take 33)
  devuuid : r.str .devuuid = some (devuuidText mac_addr rand)
  devname : r.str .devname = some (j.devname.take 25 ++ macTail mac_addr)
  devflag : r.str .devflag = some (j.devflag.take 15)
  mqtt_host : r.str .mqtt_host = some (j.mqtt_host.take 127)
  ints : ∀ p ∈ [(CfgField.devInitFlag, INIT_HARDWARE_FLAG), (.uart1_baudRate, j.uart1_baudRate),
    (.mode, j.mode.toInt), (.mqtt_port, j.mqtt_port), (.is_mqtt_start, j.is_mqtt_start),
    (.tcpserv1_port, j.tcpserv1_port)], r.get p.1 = le32 p.2
  others : ∀ f ∈ [CfgField.staSSID, .staPassword, .mqtt_clientid, .mqtt_username, .mqtt_password],
    r.get f = List.replicate f.size 0

/-! ## The buffer -/

section Buffer

variable {J : Type} {cJSON_GetObjectItem : J → Bytes → Option CJson} {json : J} {key : String}

/-- A copy to `ssbuf`: behind the `n` bytes the buffer stays, and a value that fills them all runs on
into the string `u` that stands there. -/
theorem copyText_eq {v u ssbuf : Bytes} {n : ℕ} (hv : valuestring cJSON_GetObjectItem json key = some v)
    (h0 : 0 ∉ v) (hn : n ≤ ssbuf.length) (hu : cstr (ssbuf.drop n) = some u) :
    copyText cJSON_GetObjectItem json key n ssbuf =
      some (v.take n ++ List.replicate (n - v.length) 0 ++ ssbuf.drop n,
        if v.length < n then v else v.take n ++ u) := by
  rw [copyText, hv]
  simp only [bind, Option.bind_some]
  rw [strncpy_eq ssbuf v hn]
  simp only [Option.bind_some]
  rw [cstr_strncpy h0, hu]
  by_cases hlt : v.length < n
  · rw [if_pos hlt, if_pos hlt]
    rfl
  · rw [if_neg hlt, if_neg hlt]
    rfl

/-- A copy to a buffer that is clean behind the `n` bytes cuts the value there. -/
theorem copyText_clean {v ssbuf : Bytes} {n k : ℕ} (hv : valuestring cJSON_GetObjectItem json key = some v)
    (h0 : 0 ∉ v) (hn : n ≤ ssbuf.length) (hclean : ssbuf.drop n = List.replicate k 0) (hk : 0 < k) :
    copyText cJSON_GetObjectItem json key n ssbuf =
      some (v.take n ++ List.replicate (n - v.length) 0 ++ List.replicate k 0, v.take n) := by
  rw [copyText_eq hv h0 hn (hclean ▸ cstr_append_zeros List.not_mem_nil hk), hclean, List.append_nil]
  by_cases hlt : v.length < n
  · rw [if_pos hlt, List.take_of_length_le (Nat.le_of_lt hlt)]
  · rw [if_neg hlt]

/-- What lies behind a cut value and its padding. -/
theorem drop_padded (v rest : Bytes) (n m : ℕ) :
    (v.take n ++ List.replicate (n - v.length) (0 : UInt8) ++ rest).drop (n + m) = rest.drop m := by
  have hlen : (v.take n ++ List.replicate (n - v.length) (0 : UInt8)).length = n := by
    rw [List.length_append, List.length_take, List.length_replicate]
    omega
  rw [← List.drop_drop, List.drop_left' hlen]

end Buffer

/-! ## The writes to the record -/

/-- What `ssbuf` holds after the copy of the password: a password of 30 characters or more runs on into
what the network name left there. -/
def DefJson.passwordText (j : DefJson) : Bytes :=
  if j.apssid_password.length < 30 then j.apssid_password
  else j.apssid_password.take 30 ++ (j.apssid.take 64).drop 30

/-- Writes one after the other, each from the start of a field on. -/
def putAll : List (CfgField × Bytes) → TagCfgData → Option TagCfgData
  | [], r => some r
  | p :: l, r => (r.put p.1 p.2).bind (putAll l)

theorem putAll_nil : putAll [] = some := rfl

theorem putAll_cons (p : CfgField × Bytes) (l : List (CfgField × Bytes)) :
    putAll (p :: l) = fun r => (r.put p.1 p.2).bind (putAll l) := rfl

/-- All writes of `initFactoryCfgFlash`, in order. -/
def factoryWrites (j : DefJson) (mac_addr : Bytes) (rand : ℕ) : List (CfgField × Bytes) :=
  [(.devInitFlag, le32 INIT_HARDWARE_FLAG), (.uart1_baudRate, le32 j.uart1_baudRate),
    (.mode, le32 j.mode.toInt), (.apSSID, j.apssid.take 64 ++ macTail mac_addr ++ [0]),
    (.apPassword, j.passwordText ++ [0]), (.devuuid, devuuidText mac_addr rand ++ [0]),
    (.devname, j.devname.take 64 ++ macTail mac_addr ++ [0]), (.devflag, j.devflag.take 64 ++ [0]),
    (.mqtt_host, j.mqtt_host.take 200 ++ [0]), (.mqtt_port, le32 j.mqtt_port),
    (.is_mqtt_start, le32 j.is_mqtt_start), (.tcpserv1_port, le32 j.tcpserv1_port)]

/-- `ssbuf` after a copy cut at 64: zero from there on. -/
def ssbufOf (v : Bytes) : Bytes := v.take 64 ++ List.replicate (64 - v.length) 0 ++ List.replicate 191 0

theorem ssbufOf_length (v : Bytes) : (ssbufOf v).length = 255 := by
  rw [ssbufOf, List.length_append, List.length_append, List.length_take, List.length_replicate,
    List.length_replicate]
  omega

theorem ssbufOf_drop (v : Bytes) : (ssbufOf v).drop 64 = List.replicate 191 0 := drop_padded v _ 64 0

/-- What stands behind the first 30 bytes when the network name has been copied. -/
theorem ssbufOf_rest {v : Bytes} (h0 : 0 ∉ v) : cstr ((ssbufOf v).drop 30) = some ((v.take 64).drop 30) := by
  obtain ⟨k, hk, hzeros⟩ : ∃ k, 0 < k ∧
      (List.replicate (64 - v.length) (0 : UInt8) ++ List.replicate 191 0).drop (30 - (v.take 64).length) =
        List.replicate k 0 := by
    refine ⟨64 - v.length + 191 - (30 - (v.take 64).length), by rw [List.length_take]; omega, ?_⟩
    rw [List.replicate_append_replicate, List.drop_replicate]
  have hdrop : (0 : UInt8) ∉ (v.take 64).drop 30 := fun h => h0 (List.mem_of_mem_take (List.mem_of_mem_drop h))
  rw [ssbufOf, List.append_assoc, List.drop_append, hzeros]
  exact cstr_append_zeros hdrop hk

section Eq

variable {J : Type} {cJSON_GetObjectItem : J → Bytes → Option CJson} {json : J}

/-- A copy cut at 64 to a buffer that is clean from there on. -/
theorem copyText_64 {key : String} {v ssbuf : Bytes}
    (hv : valuestring cJSON_GetObjectItem json key = some v) (h0 : 0 ∉ v) (hlen : ssbuf.length = 255)
    (hclean : ssbuf.drop 64 = List.replicate 191 0) :
    copyText cJSON_GetObjectItem json key 64 ssbuf = some (ssbufOf v, v.take 64) :=
  copyText_clean hv h0 (by omega) hclean (by decide)

/-- The record is built by these writes. -/
theorem factoryCfg_eq {j : DefJson} (h : HasKeys cJSON_GetObjectItem json j) (h0 : j.NoNul)
    (mac_addr : Bytes) (rand : ℕ) :
    factoryCfg cJSON_GetObjectItem mac_addr rand json = putAll (factoryWrites j mac_addr rand) zeroCfg := by
  obtain ⟨hap, hpass, hname, hflag, hhost⟩ := h0
  have c1 : copyText cJSON_GetObjectItem json "apssid" 64 (List.replicate 255 0) =
      some (ssbufOf j.apssid, j.apssid.take 64) :=
    copyText_64 h.apssid hap List.length_replicate List.drop_replicate
  obtain ⟨b, hb⟩ : ∃ b, b = j.apssid_password.take 30 ++
      List.replicate (30 - j.apssid_password.length) 0 ++ (ssbufOf j.apssid).drop 30 := ⟨_, rfl⟩
  have c2 : copyText cJSON_GetObjectItem json "apssid_password" 30 (ssbufOf j.apssid) =
      some (b, j.passwordText) := by
    rw [copyText_eq h.apssid_password hpass (by rw [ssbufOf_length]; decide) (ssbufOf_rest hap), hb]
    rfl
  have hblen : b.length = 255 := by
    rw [hb, List.length_append, List.length_append, List.length_take, List.length_replicate,
      List.length_drop, ssbufOf_length]
    omega
  have hbdrop : b.drop 64 = List.replicate 191 0 := by
    rw [hb, show 64 = 30 + 34 from rfl, drop_padded, List.drop_drop]
    exact ssbufOf_drop _
  have c3 : copyText cJSON_GetObjectItem json "devname" 64 b = some (ssbufOf j.devname, j.devname.take 64) :=
    copyText_64 h.devname hname hblen hbdrop
  have c4 : copyText cJSON_GetObjectItem json "devflag" 64 (ssbufOf j.devname) =
      some (ssbufOf j.devflag, j.devflag.take 64) :=
    copyText_64 h.devflag hflag (ssbufOf_length _) (ssbufOf_drop _)
  have hclean : (ssbufOf j.devflag).drop 200 = List.replicate 55 0 := by
    rw [show 200 = 64 + 136 from rfl, ← List.drop_drop, ssbufOf_drop, List.drop_replicate]
  have c5 := copyText_clean h.mqtt_host hhost (by rw [ssbufOf_length]; decide) hclean (by decide)
  simp only [factoryCfg, bind, h.uart1_baudRate, h.is_wifi_start, h.mqtt_port, h.is_mqtt_start,
    h.tcpserv1_port, c1, c2, c3, c4, c5, Option.bind_some]
  simp only [factoryWrites, putAll_cons, putAll_nil, Option.bind_fun_some]
  rfl

end Eq

/-! ## Reading the record -/

/-- A write that cannot change the field `f`: it starts behind the field, or it stays in another one. -/
def Spares (f : CfgField) (p : CfgField × Bytes) : Prop :=
  f.off + f.size ≤ p.1.off ∨ p.1 ≠ f ∧ p.2.length ≤ p.1.size

section Reading

variable {l : List (CfgField × Bytes)} {r r' : TagCfgData} {f : CfgField} {t : Bytes}

theorem putAll_spared (h : putAll l r = some r') (hl : ∀ p ∈ l, Spares f p) : r'.get f = r.get f := by
  induction l generalizing r with
  | nil => rw [Option.some.inj h]
  | cons p l ih =>
    obtain ⟨r1, h1, h2⟩ := Option.bind_eq_some_iff.mp h
    rw [ih h2 fun q hq => hl q (List.mem_cons_of_mem p hq)]
    rcases hl p List.mem_cons_self with hbehind | ⟨hne, hfit⟩
    · exact TagCfgData.get_put_before h1 hbehind
    · exact TagCfgData.get_put_of_ne h1 hfit hne

theorem putAll_append (l l' : List (CfgField × Bytes)) (r : TagCfgData) :
    putAll (l ++ l') r = (putAll l r).bind (putAll l') := by
  induction l generalizing r with
  | nil => rfl
  | cons p l ih =>
    rw [List.cons_append, putAll, putAll, Option.bind_assoc]
    exact Option.bind_congr fun r1 _ => ih r1

/-- The string of a field whose text is written once and spared from then on. -/
theorem putAll_str (l l' : List (CfgField × Bytes)) (h : putAll (l ++ (f, t ++ [0]) :: l') r = some r')
    (h0 : 0 ∉ t) (hl : ∀ p ∈ l', Spares f p) : r'.str f = if t.length < f.size then some t else none := by
  rw [putAll_append] at h
  obtain ⟨r1, -, h⟩ := Option.bind_eq_some_iff.mp h
  obtain ⟨r2, h2, h3⟩ := Option.bind_eq_some_iff.mp h
  rw [← TagCfgData.str_strcpy h2 h0]
  exact congrArg cstr (putAll_spared h3 hl)

/-- Writes that stay in their fields succeed; a field written once holds what was written. -/
theorem putAll_fits (h : ∀ p ∈ l, p.2.length ≤ p.1.size) (hd : (l.map Prod.fst).Nodup) (r : TagCfgData) :
    ∃ r', putAll l r = some r' ∧ (∀ p ∈ l, ∃ rest, r'.get p.1 = (p.2 ++ rest).take p.1.size) ∧
      ∀ g, g ∉ l.map Prod.fst → r'.get g = r.get g := by
  induction l generalizing r with
  | nil => exact ⟨r, rfl, fun p hp => absurd hp List.not_mem_nil, fun _ _ => rfl⟩
  | cons p l ih =>
    have hp := h p List.mem_cons_self
    rw [List.map_cons, List.nodup_cons] at hd
    obtain ⟨r1, h1⟩ := r.put_of_le hp
    obtain ⟨r', h2, hin, hout⟩ := ih (fun q hq => h q (List.mem_cons_of_mem p hq)) hd.2 r1
    refine ⟨r', by rw [putAll, h1, Option.bind_some, h2], fun q hq => ?_, fun g hg => ?_⟩
    · rcases List.mem_cons.mp hq with rfl | hq
      · exact ⟨_, (hout _ hd.1).trans (TagCfgData.get_put_self h1)⟩
      · exact hin q hq
    · rw [List.map_cons, List.mem_cons, not_or] at hg
      rw [hout g hg.2]
      exact TagCfgData.get_put_of_ne h1 hp (Ne.symm hg.1)

/-- The string of a field in which its text fits. -/
theorem str_of_fit {rest : Bytes} (hget : r.get f = (t ++ [0] ++ rest).take f.size) (hfit : (t ++ [0]).length ≤ f.size)
    (h0 : 0 ∉ t) : r.str f = some t := by
  rw [List.length_append, List.length_singleton] at hfit
  rw [TagCfgData.str, hget, List.append_assoc, List.singleton_append, cstr_take_append h0]
  exact if_pos hfit

end Reading

/-! ## When every field is its own value -/

/-- The strings fit, and a password that fills its copy is followed by its own characters. -/
def DefJson.Fits (j : DefJson) : Prop :=
  (j.apssid_password.length < 30 ∨
    (j.apssid.take 64).drop 30 = (j.apssid_password.take 33).drop 30) ∧
  j.devname.length ≤ 25 ∧ j.devflag.length ≤ 15 ∧ j.mqtt_host.length ≤ 127

section Fields

variable {j : DefJson} {mac_addr : Bytes} {rand : ℕ} {r : TagCfgData}

theorem zero_notMem_macTail (mac_addr : Bytes) : 0 ∉ macTail mac_addr := by
  unfold macTail
  simp only [List.mem_append, not_or]
  exact ⟨⟨(zero_notMem_printHex _).1, (zero_notMem_printHex _).1⟩, (zero_notMem_printHex _).1⟩

theorem zero_notMem_take {v : Bytes} (n : ℕ) (h : 0 ∉ v) : 0 ∉ v.take n := fun hm => h (List.mem_of_mem_take hm)

/-- A name with the end of the address behind it. -/
theorem zero_notMem_tagged {v : Bytes} (mac_addr : Bytes) (h : 0 ∉ v) : 0 ∉ v.take 64 ++ macTail mac_addr := by
  rw [List.mem_append, not_or]
  exact ⟨zero_notMem_take 64 h, zero_notMem_macTail mac_addr⟩

theorem macTail_length (mac_addr : Bytes) : (macTail mac_addr).length = 6 := rfl

theorem zero_notMem_devuuidText (mac_addr : Bytes) (rand : ℕ) : 0 ∉ devuuidText mac_addr rand := by
  unfold devuuidText
  simp only [List.mem_append, not_or]
  have hex := fun c => (zero_notMem_printHex c).2
  exact ⟨⟨⟨⟨⟨⟨⟨by decide, hex _⟩, hex _⟩, hex _⟩, hex _⟩, hex _⟩, hex _⟩, zero_notMem_printInt _⟩

theorem devuuidText_length_le (mac_addr : Bytes) (rand : ℕ) : (devuuidText mac_addr rand).length ≤ 18 := by
  have hdigits : (Nat.toDigits 10 (rand % 1000)).length ≤ 3 :=
    (Nat.length_toDigits_le_iff (by decide) (by decide)).mpr (Nat.mod_lt _ (by decide))
  have hint : (printInt ((rand % 1000 : ℕ) : ℤ)).length ≤ 3 := by
    rw [printInt, if_neg (by omega), List.nil_append, List.length_map]
    exact hdigits
  have hxk : (ascii "HXK").length = 3 := by decide
  simp only [devuuidText, List.length_append, hxk, printHex, List.length_cons, List.length_nil]
  omega

theorem zero_notMem_passwordText (h0 : j.NoNul) : 0 ∉ j.passwordText := by
  obtain ⟨hap, hpass, -⟩ := h0
  unfold DefJson.passwordText
  split_ifs
  · exact hpass
  · rw [List.mem_append, not_or]
    exact ⟨fun h => hpass (List.mem_of_mem_take h), fun h => hap (List.mem_of_mem_take (List.mem_of_mem_drop h))⟩

theorem passwordText_of_fits (h : j.Fits) : j.passwordText = j.apssid_password.take 33 := by
  unfold DefJson.passwordText
  split_ifs with hlt
  · rw [List.take_of_length_le (by omega)]
  · rw [h.1.resolve_left hlt]
    conv_rhs => rw [← List.take_append_drop 30 (j.apssid_password.take 33), List.take_take]
    rfl

/-- A string read back from a field shows that its text was shorter than the field. -/
theorem text_of_str {o : Option Bytes} {t u : Bytes} {n : ℕ} (h : o = if t.length < n then some t else none)
    (hu : o = some u) : t.length < n ∧ t = u := by
  rw [hu] at h
  split_ifs at h with hlt
  exact ⟨hlt, (Option.some.inj h).symm⟩

/-- Fields that are their own values have been written with strings that fit. -/
theorem fits_of_fields (h0 : j.NoNul) (h : putAll (factoryWrites j mac_addr rand) zeroCfg = some r)
    (hr : FactoryFields j mac_addr rand r) : j.Fits := by
  have hpass0 := zero_notMem_passwordText h0
  obtain ⟨-, -, hname, hflag, hhost⟩ := h0
  have hname0 := zero_notMem_tagged mac_addr hname
  let w := factoryWrites j mac_addr rand
  have hspare : (∀ p ∈ w.drop 5, Spares .apPassword p) ∧ (∀ p ∈ w.drop 7, Spares .devname p) ∧
      (∀ p ∈ w.drop 8, Spares .devflag p) ∧ ∀ p ∈ w.drop 9, Spares .mqtt_host p := by
    have hint : ∀ v, (le32 v).length = 4 := fun _ => rfl
    simp [w, factoryWrites, Spares, CfgField.off, CfgField.size, hint]
  obtain ⟨-, hp⟩ := text_of_str (putAll_str (w.take 4) (w.drop 5) h hpass0 hspare.1) hr.apPassword
  obtain ⟨hn, -⟩ := text_of_str (putAll_str (w.take 6) (w.drop 7) h hname0 hspare.2.1) hr.devname
  obtain ⟨hf, -⟩ := text_of_str (putAll_str (w.take 7) (w.drop 8) h (zero_notMem_take 64 hflag) hspare.2.2.1) hr.devflag
  obtain ⟨hh, -⟩ := text_of_str (putAll_str (w.take 8) (w.drop 9) h (zero_notMem_take 200 hhost) hspare.2.2.2) hr.mqtt_host
  simp only [CfgField.size, List.length_append, List.length_take, macTail_length] at hn hf hh
  refine ⟨?_, by omega, by omega, by omega⟩
  by_cases hlt : j.apssid_password.length < 30
  · exact Or.inl hlt
  · right
    rw [DefJson.passwordText, if_neg hlt] at hp
    have hlen : (j.apssid_password.take 30).length = 30 := by
      rw [List.length_take]
      omega
    rw [← hp, List.drop_left' hlen]

/-- The strings that fit are written inside their fields. -/
theorem factoryWrites_fit (h : j.Fits) (mac_addr : Bytes) (rand : ℕ) :
    ∀ p ∈ factoryWrites j mac_addr rand, p.2.length ≤ p.1.size := by
  have huuid := devuuidText_length_le mac_addr rand
  have hplen : j.passwordText.length ≤ 33 := by
    rw [passwordText_of_fits h, List.length_take]
    omega
  obtain ⟨-, hn, hf, hh⟩ := h
  simp only [factoryWrites, List.forall_mem_cons, CfgField.size, List.length_append, List.length_take,
    macTail_length, le32, List.length_cons, List.length_nil]
  refine ⟨by omega, by omega, by omega, by omega, by omega, by omega, by omega, by omega, by omega,
    by omega, by omega, by omega, fun p hp => absurd hp List.not_mem_nil⟩

/-- Strings that fit give the record that is meant. -/
theorem fields_of_fits (h0 : j.NoNul) (h : j.Fits) (mac_addr : Bytes) (rand : ℕ) :
    ∃ r, putAll (factoryWrites j mac_addr rand) zeroCfg = some r ∧ FactoryFields j mac_addr rand r := by
  have hpass0 := zero_notMem_passwordText h0
  have hpt := passwordText_of_fits h
  have hfit := factoryWrites_fit h mac_addr rand
  obtain ⟨hap, -, hname, hflag, hhost⟩ := h0
  obtain ⟨-, hn, hf, hh⟩ := h
  obtain ⟨r, hr, hin, hout⟩ := putAll_fits hfit (by simp [factoryWrites]) zeroCfg
  have hstr : ∀ {f : CfgField} {t : Bytes}, (f, t ++ [0]) ∈ factoryWrites j mac_addr rand → 0 ∉ t →
      r.str f = some t := by
    intro f t hmem ht
    obtain ⟨rest, hget⟩ := hin _ hmem
    exact str_of_fit hget (hfit _ hmem) ht
  have hint : ∀ {f : CfgField} {v : ℤ}, (f, le32 v) ∈ factoryWrites j mac_addr rand → f.size = 4 →
      r.get f = le32 v := by
    intro f v hmem hsize
    obtain ⟨rest, hget⟩ := hin _ hmem
    rw [hget]
    exact List.take_left' hsize.symm
  refine ⟨r, hr, ?_, ?_, ?_, ?_, ?_, ?_, ?_, ?_⟩
  · exact hstr (by simp [factoryWrites]) (zero_notMem_tagged mac_addr hap)
  · rw [← hpt]
    exact hstr (by simp [factoryWrites]) hpass0
  · exact hstr (by simp [factoryWrites]) (zero_notMem_devuuidText mac_addr rand)
  · rw [List.take_of_length_le hn, ← List.take_of_length_le (show j.devname.length ≤ 64 by omega)]
    exact hstr (by simp [factoryWrites]) (zero_notMem_tagged mac_addr hname)
  · rw [List.take_of_length_le hf, ← List.take_of_length_le (show j.devflag.length ≤ 64 by omega)]
    exact hstr (by simp [factoryWrites]) (zero_notMem_take 64 hflag)
  · rw [List.take_of_length_le hh, ← List.take_of_length_le (show j.mqtt_host.length ≤ 200 by omega)]
    exact hstr (by simp [factoryWrites]) (zero_notMem_take 200 hhost)
  · simp only [List.forall_mem_cons]
    refine ⟨?_, ?_, ?_, ?_, ?_, ?_, fun p hp => absurd hp List.not_mem_nil⟩ <;>
      exact hint (by simp [factoryWrites]) rfl
  · intro f hf
    have hzero : zeroCfg.get f = List.replicate f.size 0 := by
      have := f.off_add_size
      rw [TagCfgData.get, zeroCfg, List.drop_replicate, List.take_replicate, Nat.min_eq_left (by omega)]
    rw [hout f ?_, hzero]
    simp only [List.mem_cons, List.not_mem_nil, or_false] at hf
    rcases hf with rfl | rfl | rfl | rfl | rfl <;> simp [factoryWrites]

end Fields

/-! ## From the sector to the record -/

section Sector

variable {J σ : Type} {cJSON_Parse : Bytes → Option J} {cJSON_GetObjectItem : J → Bytes → Option CJson}
  {spi : SpiFlash σ} {s : σ} {sec : Bytes} {json : J} (mac_addr : Bytes) (rand : ℕ)

/-- A text that ends inside the block read is parsed, and the record built of it is written. -/
theorem initFactoryCfgFlash_eq (hsec : sec.length = secSize)
    (hread : get_spi_flash_binary_data spi 4095 SECTOR_CFG_JSON s = some (sec.take 4095))
    (hparse : cJSON_Parse (sec.takeWhile isJsonChar) = some json)
    (hlt : (sec.takeWhile isJsonChar).length < 4095) :
    initFactoryCfgFlash cJSON_Parse cJSON_GetObjectItem spi mac_addr rand s =
      (factoryCfg cJSON_GetObjectItem mac_addr rand json).map fun cfgdata =>
        (some cfgdata, (write_spi_flash_data spi cfgdata.bytes SECTOR_CFG_DATA s).2) := by
  obtain ⟨text, htext⟩ : ∃ text, text = sec.takeWhile isJsonChar := ⟨_, rfl⟩
  obtain ⟨c, rest, hrest, hc⟩ : ∃ c rest, sec = text ++ c :: rest ∧ ¬ isJsonChar c := by
    have hsplit : text ++ sec.dropWhile isJsonChar = sec := by rw [htext, List.takeWhile_append_dropWhile]
    have hne : sec.dropWhile isJsonChar ≠ [] := by
      intro h
      rw [h, List.append_nil] at hsplit
      rw [← htext, hsplit, hsec] at hlt
      exact absurd hlt (by decide)
    refine ⟨(sec.dropWhile isJsonChar).head hne, (sec.dropWhile isJsonChar).tail, ?_, ?_⟩
    · rw [List.cons_head_tail, hsplit]
    · rw [List.head_dropWhile_not isJsonChar hne]
      decide
  rw [← htext] at hparse hlt
  have hchars : ∀ x ∈ text, isJsonChar x := fun x hx => List.mem_takeWhile_imp (htext ▸ hx)
  have h0 : (0 : UInt8) ∉ text := fun h => absurd (hchars 0 h) (by decide)
  obtain ⟨k, hk⟩ : ∃ k, 4095 - text.length = k + 1 := ⟨4095 - text.length - 1, by omega⟩
  have hblock : sec.take 4095 = text ++ c :: rest.take k := by
    rw [hrest, List.take_append, List.take_of_length_le (Nat.le_of_lt hlt), hk, List.take_succ_cons]
  have hwhile : (sec.take 4095).takeWhile isJsonChar = text := by
    rw [hblock, takeWhile_before hchars hc]
  have hstore : store (sec.take 4095) text.length [0] = some (text ++ 0 :: rest.take k) := by
    have hnul : ([0] : Bytes).length ≤ (c :: rest.take k).length := by simp
    rw [hblock, store_append hnul, List.append_assoc]
    rfl
  rw [initFactoryCfgFlash, hread]
  simp only [bind, Option.bind_some]
  rw [hwhile, hstore]
  simp only [Option.bind_some]
  rw [cstr_of_append h0]
  simp only [Option.bind_some]
  rw [hparse, Option.map_eq_bind]
  rfl

/-- A text that does not end inside the block is terminated behind it. -/
theorem initFactoryCfgFlash_overrun (hsec : sec.length = secSize)
    (hread : get_spi_flash_binary_data spi 4095 SECTOR_CFG_JSON s = some (sec.take 4095))
    (hge : 4095 ≤ (sec.takeWhile isJsonChar).length) :
    initFactoryCfgFlash cJSON_Parse cJSON_GetObjectItem spi mac_addr rand s = none := by
  have hlen : (sec.take 4095).length = 4095 := by
    rw [List.length_take, hsec]
    decide
  have hpre : sec.take 4095 <+: sec.takeWhile isJsonChar :=
    List.prefix_of_prefix_length_le (List.take_prefix _ _) (List.takeWhile_prefix _) (by rw [hlen]; exact hge)
  have hwhile : (sec.take 4095).takeWhile isJsonChar = sec.take 4095 :=
    List.takeWhile_eq_self_iff.mpr fun x hx => List.mem_takeWhile_imp (hpre.subset hx)
  have hstore : store (sec.take 4095) 4095 [0] = none := by
    rw [store, if_neg (by rw [hlen]; decide)]
  rw [initFactoryCfgFlash, hread]
  simp only [bind, Option.bind_some]
  rw [hwhile, hlen, hstore]
  rfl

/-- The record written for a JSON text with all keys has every field determined by its own value exactly
when the text ends in the first 4095 bytes of its sector, the strings fit, and a password of 30
characters or more is followed by its own characters. -/
theorem factory_fields_iff {j : DefJson} (hsec : sec.length = secSize)
    (hread : get_spi_flash_binary_data spi 4095 SECTOR_CFG_JSON s = some (sec.take 4095))
    (hparse : cJSON_Parse (sec.takeWhile isJsonChar) = some json)
    (hkeys : HasKeys cJSON_GetObjectItem json j) (h0 : j.NoNul) :
    (∃ r s', initFactoryCfgFlash cJSON_Parse cJSON_GetObjectItem spi mac_addr rand s = some (some r, s') ∧
        FactoryFields j mac_addr rand r) ↔
      (sec.takeWhile isJsonChar).length < 4095 ∧ j.Fits := by
  by_cases hlt : (sec.takeWhile isJsonChar).length < 4095
  · rw [initFactoryCfgFlash_eq mac_addr rand hsec hread hparse hlt, factoryCfg_eq hkeys h0]
    constructor
    · rintro ⟨r, s', hrun, hr⟩
      obtain ⟨r1, h1, h2⟩ := Option.map_eq_some_iff.mp hrun
      obtain rfl := Option.some.inj (Prod.mk.inj h2).1
      exact ⟨hlt, fits_of_fields h0 h1 hr⟩
    · rintro ⟨-, hfits⟩
      obtain ⟨r, h1, hr⟩ := fields_of_fits h0 hfits mac_addr rand
      exact ⟨r, _, by rw [h1, Option.map_some], hr⟩
  · refine iff_of_false ?_ fun h => hlt h.1
    rintro ⟨r, s', hrun, -⟩
    rw [initFactoryCfgFlash_overrun mac_addr rand hsec hread (Nat.le_of_not_lt hlt)] at hrun
    cases hrun

end Sector

/-! ## Two sectors -/

/-- The settings of `cfg.json`. -/
def defaultJson : DefJson where
  apssid := ascii "Hx-KongKG_"
  apssid_password := []
  is_wifi_start := 0
  devname := ascii "KT485-"
  devflag := ascii "KT485"
  uart1_baudRate := 9600
  tcpserv1_port := 1001
  mqtt_host := ascii "192.168.100.1"
  mqtt_port := 1883
  is_mqtt_start := 0

/-- A network name of 33 and a password of 30 characters. -/
def longJson : DefJson :=
  { defaultJson with apssid := List.replicate 33 97, apssid_password := List.replicate 30 112 }

/-- The text of an object, without white space. -/
def DefJson.text (j : DefJson) : Bytes :=
  ascii "\x7b\"apssid\":\"" ++ j.apssid ++ ascii "\",\"apssid_password\":\"" ++ j.apssid_password ++
    ascii "\",\"is_wifi_start\":" ++ printInt j.is_wifi_start ++ ascii ",\"devname\":\"" ++ j.devname ++
    ascii "\",\"devflag\":\"" ++ j.devflag ++ ascii "\",\"uart1_baudRate\":" ++ printInt j.uart1_baudRate ++
    ascii ",\"tcpserv1_port\":" ++ printInt j.tcpserv1_port ++ ascii ",\"mqtt_host\":\"" ++ j.mqtt_host ++
    ascii "\",\"mqtt_port\":" ++ printInt j.mqtt_port ++ ascii ",\"is_mqtt_start\":" ++
    printInt j.is_mqtt_start ++ ascii "\x7d"

/-- The items of the parsed object, and a parser that knows this text. -/
def DefJson.items (j : DefJson) : List (Bytes × CJson) :=
  [(ascii "apssid", ⟨0, some j.apssid⟩), (ascii "apssid_password", ⟨0, some j.apssid_password⟩),
    (ascii "is_wifi_start", ⟨j.is_wifi_start, none⟩), (ascii "devname", ⟨0, some j.devname⟩),
    (ascii "devflag", ⟨0, some j.devflag⟩), (ascii "uart1_baudRate", ⟨j.uart1_baudRate, none⟩),
    (ascii "tcpserv1_port", ⟨j.tcpserv1_port, none⟩), (ascii "mqtt_host", ⟨0, some j.mqtt_host⟩),
    (ascii "mqtt_port", ⟨j.mqtt_port, none⟩), (ascii "is_mqtt_start", ⟨j.is_mqtt_start, none⟩)]

def DefJson.parse (j : DefJson) (text : Bytes) : Option (List (Bytes × CJson)) :=
  if text = j.text then some j.items else none

def getItem (json : List (Bytes × CJson)) (key : Bytes) : Option CJson := json.lookup key

theorem DefJson.hasKeys (j : DefJson) : HasKeys getItem j.items j where
  apssid := rfl
  apssid_password := rfl
  is_wifi_start := rfl
  devname := rfl
  devflag := rfl
  uart1_baudRate := rfl
  tcpserv1_port := rfl
  mqtt_host := rfl
  mqtt_port := rfl
  is_mqtt_start := rfl

/-- The sector with the text, erased behind it. -/
def jsonSector (text : Bytes) : Bytes := text ++ List.replicate (secSize - text.length) 0xFF

def jsonChip (text : Bytes) : ℕ → UInt8 :=
  fun a => (jsonSector text).getD (a - SECTOR_CFG_JSON * secSize) 0xFF

section Sectors

variable {text : Bytes}

theorem jsonSector_length (h : text.length ≤ secSize) : (jsonSector text).length = secSize := by
  rw [jsonSector, List.length_append, List.length_replicate]
  omega

theorem jsonChip_read (h : text.length ≤ secSize) {n : ℕ} (hn : n ≤ secSize) :
    get_spi_flash_binary_data norFlash n SECTOR_CFG_JSON (jsonChip text) =
      some ((jsonSector text).take n) := by
  have hlen : ((jsonSector text).take n).length = n := by
    rw [List.length_take, jsonSector_length h, Nat.min_eq_left hn]
  refine congrArg some (List.ext_getElem (by rw [hlen, List.length_map, List.length_range]) fun i h1 h2 => ?_)
  rw [List.getElem_map, List.getElem_range, List.getElem_take, jsonChip, Nat.add_sub_cancel_left]
  exact List.getD_eq_getElem _ _ _

theorem jsonSector_text (h : text.all isJsonChar) : (jsonSector text).takeWhile isJsonChar = text := by
  rw [jsonSector, List.takeWhile_append_of_pos (List.all_eq_true.mp h)]
  cases secSize - text.length with
  | zero => rw [List.replicate_zero, List.takeWhile_nil, List.append_nil]
  | succ k => rw [List.replicate_succ, List.takeWhile_cons_of_neg (by decide), List.append_nil]

end Sectors

/-- The settings that are delivered are stored as they are. -/
theorem factory_fields_default :
    ∃ r s', initFactoryCfgFlash defaultJson.parse getItem norFlash [0xA4, 0xCF, 0x12, 0x0B, 0x1C, 0x2D] 7
        (jsonChip defaultJson.text) = some (some r, s') ∧
      FactoryFields defaultJson [0xA4, 0xCF, 0x12, 0x0B, 0x1C, 0x2D] 7 r := by
  have hlen : defaultJson.text.length ≤ secSize := by decide +kernel
  have htext := jsonSector_text (show defaultJson.text.all isJsonChar by decide +kernel)
  have hparse : defaultJson.parse ((jsonSector defaultJson.text).takeWhile isJsonChar) =
      some defaultJson.items := by
    rw [htext, DefJson.parse, if_pos rfl]
  have hno : defaultJson.NoNul := by
    unfold DefJson.NoNul
    decide +kernel
  refine (factory_fields_iff _ 7 (jsonSector_length hlen) (jsonChip_read hlen (by decide)) hparse defaultJson.hasKeys
    hno).mpr ⟨?_, Or.inl (by decide), by decide +kernel, by decide +kernel, by decide +kernel⟩
  rw [htext]
  decide +kernel

/-- The password is stored with the last three characters of the network name behind it. -/
theorem factory_password_leaks :
    ∃ r s', initFactoryCfgFlash longJson.parse getItem norFlash [0xA4, 0xCF, 0x12, 0x0B, 0x1C, 0x2D] 7
        (jsonChip longJson.text) = some (some r, s') ∧
      r.str .apPassword = some (longJson.apssid_password ++ [97, 97, 97]) ∧
      ¬ FactoryFields longJson [0xA4, 0xCF, 0x12, 0x0B, 0x1C, 0x2D] 7 r := by
  have hlen : longJson.text.length ≤ secSize := by decide +kernel
  have htext := jsonSector_text (show longJson.text.all isJsonChar by decide +kernel)
  have hparse : longJson.parse ((jsonSector longJson.text).takeWhile isJsonChar) = some longJson.items := by
    rw [htext, DefJson.parse, if_pos rfl]
  have hno : longJson.NoNul := by
    unfold DefJson.NoNul
    decide +kernel
  have hstr : ((putAll (factoryWrites longJson [0xA4, 0xCF, 0x12, 0x0B, 0x1C, 0x2D] 7) zeroCfg).bind fun r =>
      r.str .apPassword) = some (longJson.apssid_password ++ [97, 97, 97]) := by
    decide +kernel
  obtain ⟨r, hr, hpass⟩ := Option.bind_eq_some_iff.mp hstr
  have hrun : initFactoryCfgFlash longJson.parse getItem norFlash _ 7 (jsonChip longJson.text) = _ :=
    initFactoryCfgFlash_eq [0xA4, 0xCF, 0x12, 0x0B, 0x1C, 0x2D] 7 (jsonSector_length hlen)
      (jsonChip_read hlen (by decide)) hparse (by rw [htext]; decide +kernel)
  rw [factoryCfg_eq longJson.hasKeys hno, hr, Option.map_some] at hrun
  refine ⟨r, _, hrun, hpass, fun h => ?_⟩
  exact absurd (hpass.symm.trans h.apPassword) (by decide +kernel)

end Esp32Base
