import Mathlib.Algebra.Order.Ring.Int
import Esp32Base.Cfg.Flash

/-!
# Cfg.Record — the configuration record and its setters (cfg.h, trans_data_a.c)

`TagCfgData` as it lies in memory and in its flash sector. Every setter reads the record, edits it and
writes it back.

* `str_strcpy`: the string a field holds after a `strcpy` to it.
* `setCfg_stored`: what a setter leaves in the flash.
* `setWifi_fits`, `setMqtt_fits`: with arguments that fit, exactly the fields meant are changed.
* `setWifi_stored`, `setMqtt_stored`: with any arguments, the first field is what `strcpy` made of it.
-/

namespace Esp32Base

open Lib Lib.Buf

/-! ## The record -/

inductive CfgField
  | devInitFlag | mode | apSSID | apPassword | staSSID | staPassword | uart1_baudRate | tcpserv1_port
  | devuuid | devname | devflag | is_mqtt_start | mqtt_host | mqtt_port | mqtt_clientid | mqtt_username
  | mqtt_password
  deriving DecidableEq

def CfgField.off : CfgField → ℕ
  | devInitFlag => 0
  | mode => 4
  | apSSID => 8
  | apPassword => 104
  | staSSID => 138
  | staPassword => 234
  | uart1_baudRate => 268
  | tcpserv1_port => 272
  | devuuid => 276
  | devname => 340
  | devflag => 372
  | is_mqtt_start => 388
  | mqtt_host => 392
  | mqtt_port => 520
  | mqtt_clientid => 524
  | mqtt_username => 588
  | mqtt_password => 652

def CfgField.size : CfgField → ℕ
  | apSSID | staSSID => 96
  | apPassword | staPassword => 34
  | devname => 32
  | devflag => 16
  | devuuid | mqtt_clientid | mqtt_username | mqtt_password => 64
  | mqtt_host => 128
  | devInitFlag | mode | uart1_baudRate | tcpserv1_port | is_mqtt_start | mqtt_port => 4

/-- `sizeof(TagCfgData)`. -/
def cfgSize : ℕ := 716

structure TagCfgData where
  bytes : Bytes
  length_eq : bytes.length = cfgSize

theorem CfgField.off_add_size (f : CfgField) : f.off + f.size ≤ cfgSize := by
  cases f <;> decide

/-- Two fields do not overlap. -/
theorem CfgField.disjoint {f g : CfgField} (h : f ≠ g) : f.off + f.size ≤ g.off ∨ g.off + g.size ≤ f.off := by
  cases f <;> cases g <;> first | exact absurd rfl h | decide

namespace TagCfgData

/-- The bytes of a field. -/
def get (r : TagCfgData) (f : CfgField) : Bytes := (r.bytes.drop f.off).take f.size

/-- The string in a field, when it ends there. -/
def str (r : TagCfgData) (f : CfgField) : Option Bytes := cstr (r.get f)

/-- Bytes written from the start of a field on; they may run into the fields behind it. -/
def put (r : TagCfgData) (f : CfgField) (src : Bytes) : Option TagCfgData :=
  match h : store r.bytes f.off src with
  | some m => some ⟨m, by rw [store_length h, r.length_eq]⟩
  | none => none

/-- `strcpy` to a field. -/
def strcpy (r : TagCfgData) (f : CfgField) (t : Bytes) : Option TagCfgData := r.put f (t ++ [0])

end TagCfgData

/-- An `int` as it lies in memory. -/
def le32 (v : ℤ) : Bytes :=
  let n := (v % 2 ^ 32).toNat
  [UInt8.ofNat n, UInt8.ofNat (n / 2 ^ 8), UInt8.ofNat (n / 2 ^ 16), UInt8.ofNat (n / 2 ^ 24)]

/-- Assignment to an `int` field. -/
def TagCfgData.setInt (r : TagCfgData) (f : CfgField) (v : ℤ) : Option TagCfgData := r.put f (le32 v)

section Fields

variable {r r' : TagCfgData} {f g : CfgField} {src t : Bytes}

theorem TagCfgData.put_eq_some (h : r.put f src = some r') : store r.bytes f.off src = some r'.bytes := by
  unfold TagCfgData.put at h
  split at h
  · next m hm =>
    obtain rfl := Option.some.inj h
    exact hm
  · cases h

/-- A write from the start of a field on leaves the fields in front of it alone. -/
theorem TagCfgData.get_put_before (h : r.put f src = some r') (hg : g.off + g.size ≤ f.off) :
    r'.get g = r.get g := by
  have hst := r.put_eq_some h
  unfold TagCfgData.get
  rw [List.take_drop, List.take_drop, store_take_le hst hg]

/-- A write leaves the fields behind its end alone. -/
theorem TagCfgData.get_put_behind (h : r.put f src = some r') (hg : f.off + src.length ≤ g.off) :
    r'.get g = r.get g := by
  unfold TagCfgData.get
  rw [store_drop (r.put_eq_some h) hg]

/-- A write that stays inside its field leaves every other field alone. -/
theorem TagCfgData.get_put_of_ne (h : r.put f src = some r') (hlen : src.length ≤ f.size) (hfg : f ≠ g) :
    r'.get g = r.get g := by
  rcases CfgField.disjoint hfg with hd | hd
  · exact get_put_behind h (by omega)
  · exact get_put_before h hd

/-- The field written to starts with what was written. -/
theorem TagCfgData.get_put_self (h : r.put f src = some r') :
    r'.get f = (src ++ r.bytes.drop (f.off + src.length)).take f.size := by
  obtain ⟨hle, heq⟩ := store_eq_some (r.put_eq_some h)
  have htake : (r.bytes.take f.off).length = f.off := by
    rw [List.length_take]
    omega
  unfold TagCfgData.get
  rw [heq, List.append_assoc, List.drop_left' htake]

/-- The string in the field after a `strcpy`: the text when there is room for its NUL, and otherwise
none that ends in the field. -/
theorem TagCfgData.str_strcpy (h : r.strcpy f t = some r') (h0 : 0 ∉ t) :
    r'.str f = if t.length < f.size then some t else none := by
  have hget : r'.get f = (t ++ 0 :: r.bytes.drop (f.off + (t ++ [0]).length)).take f.size := by
    rw [get_put_self h, List.append_assoc]
    rfl
  rw [TagCfgData.str, hget, cstr_take_append h0]

theorem TagCfgData.put_of_le (r : TagCfgData) (h : src.length ≤ f.size) : ∃ r', r.put f src = some r' := by
  have hle : f.off + src.length ≤ r.bytes.length := by
    have := f.off_add_size
    rw [r.length_eq]
    omega
  have hst := store_of_le hle
  unfold TagCfgData.put
  split
  · exact ⟨_, rfl⟩
  · next hno =>
    rw [hst] at hno
    cases hno

/-- A text that fits becomes the string of its field, and no other field changes. -/
theorem TagCfgData.strcpy_fits (r : TagCfgData) (h0 : 0 ∉ t) (h : t.length < f.size) :
    ∃ r', r.strcpy f t = some r' ∧ r'.str f = some t ∧ ∀ g, f ≠ g → r'.get g = r.get g := by
  have hlen : (t ++ [0]).length ≤ f.size := by
    rw [List.length_append, List.length_singleton]
    omega
  obtain ⟨r', hr'⟩ := r.put_of_le hlen
  refine ⟨r', hr', ?_, fun g hg => get_put_of_ne hr' hlen hg⟩
  rw [str_strcpy hr' h0, if_pos h]

theorem TagCfgData.setInt_spec (r : TagCfgData) (hf : f.size = 4) (v : ℤ) :
    ∃ r', r.setInt f v = some r' ∧ r'.get f = le32 v ∧ ∀ g, f ≠ g → r'.get g = r.get g := by
  have hlen : (le32 v).length = f.size := hf.symm
  obtain ⟨r', hr'⟩ := r.put_of_le hlen.le
  refine ⟨r', hr', ?_, fun g hg => get_put_of_ne hr' hlen.le hg⟩
  rw [get_put_self hr', List.take_left' hlen]

end Fields

/-! ## The setters -/

/-- `SECTOR_CFG_DATA`. -/
def SECTOR_CFG_DATA : ℕ := 400

/-- `EzhWifiMode`. -/
inductive EzhWifiMode
  | undo
  | ap
  | sta

def EzhWifiMode.toInt : EzhWifiMode → ℤ
  | undo => 0
  | ap => 1
  | sta => 2

section Setters

variable {σ : Type} (spi : SpiFlash σ)

/-- The record in its sector; `none` stands for `NULL`. -/
def readCfg (s : σ) : Option TagCfgData :=
  (get_spi_flash_binary_data spi cfgSize SECTOR_CFG_DATA s).bind fun b =>
    if h : b.length = cfgSize then some ⟨b, h⟩ else none

/-- What the setters share: read, edit, write back. `none` when the read failed, which no setter checks,
or when the edit leaves the record. -/
def setCfg (edit : TagCfgData → Option TagCfgData) (s : σ) : Option (ℕ × σ) :=
  (readCfg spi s).bind fun pCfgdata =>
    (edit pCfgdata).map fun pCfgdata => write_spi_flash_data spi pCfgdata.bytes SECTOR_CFG_DATA s

def setMqtt (host : Bytes) (port : ℤ) : σ → Option (ℕ × σ) :=
  setCfg spi fun pCfgdata => (pCfgdata.strcpy .mqtt_host host).bind fun pCfgdata => pCfgdata.setInt .mqtt_port port

def setMqttInfo (client_id username password : Bytes) : σ → Option (ℕ × σ) :=
  setCfg spi fun pCfgdata =>
    (pCfgdata.strcpy .mqtt_clientid client_id).bind fun pCfgdata =>
      (pCfgdata.strcpy .mqtt_username username).bind fun pCfgdata => pCfgdata.strcpy .mqtt_password password

/-- The two setters of a network: its name, its password and the mode. -/
def setWifi (ssidField passwordField : CfgField) (mode : EzhWifiMode) (ssid password : Bytes) :
    σ → Option (ℕ × σ) :=
  setCfg spi fun pCfgdata =>
    (pCfgdata.strcpy ssidField ssid).bind fun pCfgdata =>
      (pCfgdata.strcpy passwordField password).bind fun pCfgdata => pCfgdata.setInt .mode mode.toInt

/-- Up to `esp_restart`. -/
def setConnectWifi : Bytes → Bytes → σ → Option (ℕ × σ) := setWifi spi .staSSID .staPassword .sta

/-- Up to `esp_restart`. -/
def setOpenWifi : Bytes → Bytes → σ → Option (ℕ × σ) := setWifi spi .apSSID .apPassword .ap

/-- Up to `esp_restart`. -/
def setCloseWifi : σ → Option (ℕ × σ) :=
  setCfg spi fun pCfgdata =>
    (pCfgdata.strcpy .apSSID []).bind fun pCfgdata =>
      (pCfgdata.strcpy .apPassword []).bind fun pCfgdata =>
        (pCfgdata.strcpy .staSSID []).bind fun pCfgdata =>
          (pCfgdata.strcpy .staPassword []).bind fun pCfgdata => pCfgdata.setInt .mode EzhWifiMode.undo.toInt

def setMqttStartAndStop (b : ℤ) : σ → Option (ℕ × σ) :=
  setCfg spi fun pCfgdata => pCfgdata.setInt .is_mqtt_start b

variable {spi}

/-- A record that was written is read. -/
theorem readCfg_write (hspi : spi.Succeeds) (r : TagCfgData) (s : σ) :
    (write_spi_flash_data spi r.bytes SECTOR_CFG_DATA s).1 = 0 ∧
      readCfg spi (write_spi_flash_data spi r.bytes SECTOR_CFG_DATA s).2 = some r := by
  have hsize : r.bytes.length ≤ secSize := by
    rw [r.length_eq]
    decide
  obtain ⟨h0, hread⟩ := write_read hspi hsize SECTOR_CFG_DATA s
  rw [r.length_eq] at hread
  refine ⟨h0, ?_⟩
  unfold readCfg
  rw [hread, Option.bind_some, dif_pos r.length_eq]

/-- A setter leaves the edited record in the flash. -/
theorem setCfg_stored (hspi : spi.Succeeds) {edit : TagCfgData → Option TagCfgData} {s s' : σ} {ret : ℕ}
    (h : setCfg spi edit s = some (ret, s')) :
    ret = 0 ∧ ∃ r r', readCfg spi s = some r ∧ edit r = some r' ∧ readCfg spi s' = some r' := by
  obtain ⟨r, hr, h⟩ := Option.bind_eq_some_iff.mp h
  obtain ⟨r', hr', h⟩ := Option.map_eq_some_iff.mp h
  obtain ⟨h0, hread⟩ := readCfg_write hspi r' s
  rw [h] at h0 hread
  exact ⟨h0, r, r', hr, hr', hread⟩

/-- The other direction: with a record to read and an edit that stays in it the setter succeeds. -/
theorem setCfg_of_edit (hspi : spi.Succeeds) (edit : TagCfgData → Option TagCfgData) {s : σ} {r r' : TagCfgData}
    (hr : readCfg spi s = some r) (hedit : edit r = some r') :
    ∃ s', setCfg spi edit s = some (0, s') ∧ readCfg spi s' = some r' := by
  obtain ⟨h0, hread⟩ := readCfg_write hspi r' s
  refine ⟨_, ?_, hread⟩
  rw [setCfg, hr, Option.bind_some, hedit, Option.map_some, ← h0]

/-- Arguments that fit: each in its field, the mode set, every other field as it was. -/
theorem setWifi_fits (hspi : spi.Succeeds) {f g : CfgField} (mode : EzhWifiMode) {ssid password : Bytes} {s : σ}
    {r : TagCfgData} (hfg : f ≠ g) (hf : f ≠ .mode) (hg : g ≠ .mode) (hr : readCfg spi s = some r)
    (h1 : 0 ∉ ssid) (h2 : 0 ∉ password) (hssid : ssid.length < f.size) (hpass : password.length < g.size) :
    ∃ s' r', setWifi spi f g mode ssid password s = some (0, s') ∧ readCfg spi s' = some r' ∧
      r'.str f = some ssid ∧ r'.str g = some password ∧ r'.get .mode = le32 mode.toInt ∧
      ∀ k, k ∉ [f, g, .mode] → r'.get k = r.get k := by
  obtain ⟨ra, ha, hstra, hothera⟩ := r.strcpy_fits h1 hssid
  obtain ⟨rb, hb, hstrb, hotherb⟩ := ra.strcpy_fits h2 hpass
  obtain ⟨r', hc, hmode, hotherc⟩ := rb.setInt_spec (f := .mode) rfl mode.toInt
  have hedit : ((r.strcpy f ssid).bind fun pCfgdata =>
      (pCfgdata.strcpy g password).bind fun pCfgdata => pCfgdata.setInt .mode mode.toInt) = some r' := by
    rw [ha, Option.bind_some, hb, Option.bind_some, hc]
  obtain ⟨s', hset, hread⟩ : ∃ s', setWifi spi f g mode ssid password s = some (0, s') ∧
      readCfg spi s' = some r' := setCfg_of_edit hspi _ hr hedit
  refine ⟨s', r', hset, hread, ?_, ?_, hmode, fun k hk => ?_⟩
  · rw [TagCfgData.str, hotherc f hf.symm, hotherb f hfg.symm]
    exact hstra
  · rw [TagCfgData.str, hotherc g hg.symm]
    exact hstrb
  · simp only [List.mem_cons, List.not_mem_nil, or_false, not_or] at hk
    rw [hotherc k (Ne.symm hk.2.2), hotherb k (Ne.symm hk.2.1), hothera k (Ne.symm hk.1)]

theorem setMqtt_fits (hspi : spi.Succeeds) {host : Bytes} (port : ℤ) {s : σ} {r : TagCfgData}
    (hr : readCfg spi s = some r) (h0 : 0 ∉ host) (hhost : host.length < CfgField.mqtt_host.size) :
    ∃ s' r', setMqtt spi host port s = some (0, s') ∧ readCfg spi s' = some r' ∧
      r'.str .mqtt_host = some host ∧ r'.get .mqtt_port = le32 port ∧
      ∀ k, k ∉ [CfgField.mqtt_host, .mqtt_port] → r'.get k = r.get k := by
  obtain ⟨ra, ha, hstr, hothera⟩ := r.strcpy_fits h0 hhost
  obtain ⟨r', hb, hport, hotherb⟩ := ra.setInt_spec (f := .mqtt_port) rfl port
  have hedit : ((r.strcpy .mqtt_host host).bind fun pCfgdata => pCfgdata.setInt .mqtt_port port) = some r' := by
    rw [ha, Option.bind_some, hb]
  obtain ⟨s', hset, hread⟩ : ∃ s', setMqtt spi host port s = some (0, s') ∧ readCfg spi s' = some r' :=
    setCfg_of_edit hspi _ hr hedit
  refine ⟨s', r', hset, hread, ?_, hport, fun k hk => ?_⟩
  · rw [TagCfgData.str, hotherb .mqtt_host (by decide)]
    exact hstr
  · simp only [List.mem_cons, List.not_mem_nil, or_false, not_or] at hk
    rw [hotherb k (Ne.symm hk.2), hothera k (Ne.symm hk.1)]

/-- What is read back in a network's name is what `strcpy` left there, overflow included. -/
theorem setWifi_stored (hspi : spi.Succeeds) {f g : CfgField} {mode : EzhWifiMode} {ssid password : Bytes}
    {s s' : σ} {ret : ℕ} (hfg : f.off + f.size ≤ g.off) (hmode : CfgField.mode.off + CfgField.mode.size ≤ f.off)
    (h : setWifi spi f g mode ssid password s = some (ret, s')) :
    ∃ r r1 r' : TagCfgData, r.strcpy f ssid = some r1 ∧ readCfg spi s' = some r' ∧ r'.get f = r1.get f := by
  obtain ⟨-, r, r', -, hedit, hread⟩ := setCfg_stored hspi h
  obtain ⟨r1, h1, hedit⟩ := Option.bind_eq_some_iff.mp hedit
  obtain ⟨r2, h2, h3⟩ := Option.bind_eq_some_iff.mp hedit
  refine ⟨r, r1, r', h1, hread, ?_⟩
  exact (TagCfgData.get_put_behind h3 hmode).trans (TagCfgData.get_put_before h2 hfg)

theorem setMqtt_stored (hspi : spi.Succeeds) {host : Bytes} {port : ℤ} {s s' : σ} {ret : ℕ}
    (h : setMqtt spi host port s = some (ret, s')) :
    ∃ r r1 r' : TagCfgData, r.strcpy .mqtt_host host = some r1 ∧ readCfg spi s' = some r' ∧
      r'.get .mqtt_host = r1.get .mqtt_host := by
  obtain ⟨-, r, r', -, hedit, hread⟩ := setCfg_stored hspi h
  obtain ⟨r1, h1, h2⟩ := Option.bind_eq_some_iff.mp hedit
  exact ⟨r, r1, r', h1, hread, TagCfgData.get_put_before h2 (by decide)⟩

end Setters

end Esp32Base
