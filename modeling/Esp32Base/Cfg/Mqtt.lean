import Mathlib.Data.List.Induction
import Esp32Base.Lib.CText
import Esp32Base.Cfg.Setters

/-!
# Cfg.Mqtt — starting the MQTT client (trans_data.c, mqtt_client.h)

`mqtt_app_start` reads the record and hands a configuration to `esp_mqtt_client_init`, of which it fills
in the `uri` and the event handler only.

* `runSetters_mqtt`: over any run of setters the record holds the host and the port of the last `setMqtt`.
* `mqtt_config_iff`: the configuration is the one that was set iff the `uri` fits its 64 bytes and the
  three fields of `setMqttInfo` are empty.
-/

namespace Esp32Base

open Lib Lib.Buf Lib.CText

/-! ## The client configuration -/

/-- The fields of `esp_mqtt_client_config_t` up to the password; what follows stays zero. -/
inductive MqttField
  | event_handle | host | uri | port | client_id | username | password

def MqttField.off : MqttField → ℕ
  | event_handle => 0
  | host => 4
  | uri => 68
  | port => 132
  | client_id => 136
  | username => 168
  | password => 200

def MqttField.size : MqttField → ℕ
  | event_handle | port => 4
  | host | uri => 64
  | client_id | username | password => 32

/-- `sizeof(esp_mqtt_client_config_t)`. -/
def mqttCfgSize : ℕ := 336

/-- The string in a field of the configuration, when it ends there. -/
def mqttStr (mqtt_cfg : Bytes) (f : MqttField) : Option Bytes := cstr ((mqtt_cfg.drop f.off).take f.size)

/-- The text `mqtt://%s:%d`. -/
def mqttUri (host : Bytes) (port : ℤ) : Bytes := ascii "mqtt://" ++ host ++ ascii ":" ++ printInt port

/-- An `int` read from memory. -/
def int32 (b : Bytes) : ℤ :=
  ((b.getD 0 0).toNat + 2 ^ 8 * (b.getD 1 0).toNat + 2 ^ 16 * (b.getD 2 0).toNat +
    2 ^ 24 * (b.getD 3 0).toNat : ℤ).bmod (2 ^ 32)

def TagCfgData.getInt (r : TagCfgData) (f : CfgField) : ℤ := int32 (r.get f)

/-- What `mqtt_app_start` calls. -/
inductive MqttCall
  | esp_mqtt_client_stop
  | esp_restart
  | esp_mqtt_client_init (mqtt_cfg : Bytes)
  | esp_mqtt_client_start

section Start

variable {σ : Type} (spi : SpiFlash σ) (mqtt_event_handler : ℤ)

/-- Whether a client runs afterwards, and the calls; nothing follows a restart. -/
def mqtt_app_start (g_mqttClient : Bool) (s : σ) : Option (Bool × List MqttCall) :=
  let stopped := if g_mqttClient then [.esp_mqtt_client_stop] else []
  match readCfg spi s with
  | none => some (false, stopped ++ [.esp_restart])
  | some pCfgdata =>
    if pCfgdata.getInt .is_mqtt_start ≠ 0 then
      if pCfgdata.getInt .mqtt_port = 0 then some (false, stopped)
      else
        (cstr (pCfgdata.bytes.drop CfgField.mqtt_host.off)).bind fun mqtt_host =>
          (strcpy (List.replicate mqttCfgSize 0) MqttField.uri.off
              (mqttUri mqtt_host (pCfgdata.getInt .mqtt_port))).bind fun mqtt_cfg =>
            (store mqtt_cfg MqttField.event_handle.off (le32 mqtt_event_handler)).map fun mqtt_cfg =>
              (true, stopped ++ [.esp_mqtt_client_init mqtt_cfg, .esp_mqtt_client_start])
    else some (false, stopped)

end Start

/-! ## Runs of setters -/

section Runs

variable {σ : Type} (spi : SpiFlash σ)

/-- A run of setter calls, whatever they return. -/
def runSetters : List Setter → σ → Option σ
  | [], s => some s
  | x :: xs, s => (x.run spi s).bind fun p => runSetters xs p.2

/-- The arguments of a `setMqtt`. -/
def Setter.mqttOf : Setter → Option (Bytes × ℤ)
  | setMqtt host port => some (host, port)
  | _ => none

/-- The arguments of a `setMqttInfo`. -/
def Setter.infoOf : Setter → Option (Bytes × Bytes × Bytes)
  | setMqttInfo client_id username password => some (client_id, username, password)
  | _ => none

/-- The last arguments of one kind in a run. -/
def lastOf {α : Type} (f : Setter → Option α) (xs : List Setter) : Option α := (xs.filterMap f).getLast?

/-- The record holds the arguments of the last `setMqtt`, if there was one. -/
def HoldsMqtt (xs : List Setter) (r : TagCfgData) : Prop :=
  ∀ q ∈ lastOf Setter.mqttOf xs, r.str .mqtt_host = some q.1 ∧ r.get .mqtt_port = le32 q.2

variable {spi}

theorem lastOf_concat {α : Type} (f : Setter → Option α) (xs : List Setter) (x : Setter) :
    lastOf f (xs ++ [x]) = (f x).or (lastOf f xs) := by
  rw [lastOf, List.filterMap_append, List.getLast?_append]
  cases hx : f x with
  | none => rw [List.filterMap_cons_none hx]; rfl
  | some q => rw [List.filterMap_cons_some hx]; rfl

/-- One more setter: `setMqtt` replaces what is held, every other setter leaves it alone. -/
theorem HoldsMqtt.concat {xs : List Setter} {x : Setter} {r r' : TagCfgData} (h : HoldsMqtt xs r)
    (hx : x.Stores r r') : HoldsMqtt (xs ++ [x]) r' := by
  obtain ⟨hstr, hint, hother⟩ := hx
  intro q hq
  rw [lastOf_concat] at hq
  cases x with
  | setMqtt host port =>
    obtain rfl : (host, port) = q := by simpa [Setter.mqttOf] using hq
    exact ⟨hstr (.mqtt_host, host) List.mem_cons_self, hint (.mqtt_port, port) rfl⟩
  | _ =>
    obtain ⟨h1, h2⟩ := h q (by simpa [Setter.mqttOf] using hq)
    refine ⟨?_, ?_⟩
    · rw [TagCfgData.str, hother .mqtt_host (by simp [Setter.fields, Setter.strs, Setter.int])]
      exact h1
    · rw [hother .mqtt_port (by simp [Setter.fields, Setter.strs, Setter.int])]
      exact h2

theorem runSetters_concat (xs : List Setter) (x : Setter) (s : σ) :
    runSetters spi (xs ++ [x]) s = (runSetters spi xs s).bind fun s => (x.run spi s).map Prod.snd := by
  induction xs generalizing s with
  | nil =>
    rw [List.nil_append, runSetters, runSetters, Option.bind_some]
    cases x.run spi s <;> rfl
  | cons y xs ih =>
    rw [List.cons_append, runSetters, runSetters, Option.bind_assoc]
    exact Option.bind_congr fun p _ => ih p.2

/-- **Every run** of setters whose strings fit leaves the last host and port in the record. -/
theorem runSetters_mqtt (hspi : spi.Succeeds) {xs : List Setter} (hx : ∀ x ∈ xs, x.Args ∧ x.Fits) {s : σ}
    {r : TagCfgData} (hr : readCfg spi s = some r) :
    ∃ s' r', runSetters spi xs s = some s' ∧ readCfg spi s' = some r' ∧ HoldsMqtt xs r' := by
  induction xs using List.reverseRecOn with
  | nil => exact ⟨s, r, rfl, hr, fun q hq => absurd hq (Option.not_mem_none q)⟩
  | append_singleton xs x ih =>
    obtain ⟨s1, r1, hrun, hread, hholds⟩ := ih fun y hy => hx y (List.mem_append_left [x] hy)
    obtain ⟨h0, hfits⟩ := hx x (List.mem_append_right xs (List.mem_singleton_self x))
    obtain ⟨s', r', hrun', hread', hstores⟩ := Setter.run_fits hspi h0 hfits hread
    refine ⟨s', r', ?_, hread', hholds.concat hstores⟩
    rw [runSetters_concat, hrun, Option.bind_some, hrun']
    rfl

end Runs

/-! ## The configuration that is passed on -/

theorem int32_le32 {v : ℤ} (h1 : -2 ^ 31 ≤ v) (h2 : v < 2 ^ 31) : int32 (le32 v) = v := by
  have hn : (((v % 2 ^ 32).toNat : ℕ) : ℤ) = v % 2 ^ 32 := Int.toNat_of_nonneg (by omega)
  have hsum : int32 (le32 v) = (((v % 2 ^ 32).toNat : ℕ) : ℤ).bmod (2 ^ 32) := by
    have hlt : (v % 2 ^ 32).toNat < 2 ^ 32 := by omega
    unfold int32 le32
    simp only [List.getD_cons_zero, List.getD_cons_succ, UInt8.toNat_ofNat']
    congr 1
    omega
  rw [hsum, hn]
  rw [show ((2 : ℤ) ^ 32) = ((2 ^ 32 : ℕ) : ℤ) from rfl, Int.emod_bmod]
  exact Int.bmod_eq_of_le (by omega) (by omega)

theorem zero_notMem_mqttUri {host : Bytes} (h : 0 ∉ host) (port : ℤ) : 0 ∉ mqttUri host port := by
  unfold mqttUri
  simp only [List.mem_append, not_or]
  exact ⟨⟨⟨by decide, h⟩, by decide⟩, zero_notMem_printInt port⟩

section Config

variable {u cfg cfg' : Bytes} {handler : ℤ}

/-- The `uri` of the configuration: the text, when it ends in the field. -/
theorem mqttStr_uri (h0 : 0 ∉ u) (h1 : strcpy (List.replicate mqttCfgSize 0) MqttField.uri.off u = some cfg)
    (h2 : store cfg MqttField.event_handle.off (le32 handler) = some cfg') :
    mqttStr cfg' .uri = if u.length < 64 then some u else none := by
  obtain ⟨hle, heq⟩ := store_eq_some h1
  have hdrop : cfg'.drop MqttField.uri.off = cfg.drop MqttField.uri.off := store_drop h2 (show 0 + 4 ≤ 68 by decide)
  have htake : ((List.replicate mqttCfgSize (0 : UInt8)).take MqttField.uri.off).length =
      MqttField.uri.off := by
    rw [List.length_take, List.length_replicate]
    decide
  rw [mqttStr, hdrop, heq, List.append_assoc, List.drop_left' htake, List.append_assoc,
    List.singleton_append, cstr_take_append h0]
  rfl

/-- With a text that ends in its field, the fields behind it are empty. -/
theorem mqttStr_behind (hu : u.length < 64)
    (h1 : strcpy (List.replicate mqttCfgSize 0) MqttField.uri.off u = some cfg)
    (h2 : store cfg MqttField.event_handle.off (le32 handler) = some cfg') {f : MqttField}
    (hf : 132 ≤ f.off) (hend : f.off + f.size ≤ mqttCfgSize) (hsize : 0 < f.size) :
    mqttStr cfg' f = some [] := by
  have hle : (le32 handler).length = 4 := rfl
  have hdrop : cfg'.drop f.off = (List.replicate mqttCfgSize 0).drop f.off := by
    have hoff : MqttField.uri.off = 68 := rfl
    rw [store_drop h2 (by rw [hle]; exact Nat.le_trans (by decide) hf), store_drop h1 (by simp; omega)]
  rw [mqttStr, hdrop, List.drop_replicate, List.take_replicate, Nat.min_eq_left (by omega)]
  exact cstr_append_zeros List.not_mem_nil hsize

end Config

section Main

variable {σ : Type} {spi : SpiFlash σ} (mqtt_event_handler : ℤ)

/-- The call passes on a configuration with these values. -/
def PassesConfig (out : Option (Bool × List MqttCall)) (host : Bytes) (port : ℤ)
    (info : Bytes × Bytes × Bytes) : Prop :=
  ∃ g calls mqtt_cfg, out = some (g, calls) ∧ .esp_mqtt_client_init mqtt_cfg ∈ calls ∧
    mqttStr mqtt_cfg .uri = some (mqttUri host port) ∧ mqttStr mqtt_cfg .client_id = some info.1 ∧
    mqttStr mqtt_cfg .username = some info.2.1 ∧ mqttStr mqtt_cfg .password = some info.2.2

/-- The branch of a start that reaches `esp_mqtt_client_init`. -/
theorem mqtt_app_start_eq {s : σ} {r : TagCfgData} {host : Bytes} {port : ℤ} (g : Bool)
    (hr : readCfg spi s = some r) (hhost : r.str .mqtt_host = some host) (hport : r.getInt .mqtt_port = port)
    (hstart : r.getInt .is_mqtt_start ≠ 0) (h0 : port ≠ 0) :
    mqtt_app_start spi mqtt_event_handler g s =
      (strcpy (List.replicate mqttCfgSize 0) MqttField.uri.off (mqttUri host port)).bind fun mqtt_cfg =>
        (store mqtt_cfg MqttField.event_handle.off (le32 mqtt_event_handler)).map fun mqtt_cfg =>
          (true, (if g then [.esp_mqtt_client_stop] else []) ++
            [.esp_mqtt_client_init mqtt_cfg, .esp_mqtt_client_start]) := by
  rw [mqtt_app_start, hr]
  simp only
  rw [if_pos hstart, hport, if_neg h0, cstr_of_take hhost, Option.bind_some]

/-- A start with a host and a port in the record passes on these and no other value. -/
theorem passesConfig_iff {s : σ} {r : TagCfgData} {host : Bytes} {port : ℤ} (g : Bool)
    (hr : readCfg spi s = some r) (hhost : r.str .mqtt_host = some host) (hport : r.getInt .mqtt_port = port)
    (hstart : r.getInt .is_mqtt_start ≠ 0) (hne : port ≠ 0) (info : Bytes × Bytes × Bytes) :
    PassesConfig (mqtt_app_start spi mqtt_event_handler g s) host port info ↔
      (mqttUri host port).length < 64 ∧ info = ([], [], []) := by
  have h0 : 0 ∉ mqttUri host port := zero_notMem_mqttUri (cstr_eq_some.mp hhost).choose_spec.2 port
  rw [mqtt_app_start_eq mqtt_event_handler g hr hhost hport hstart hne]
  constructor
  · rintro ⟨g', calls, cfg', hout, hmem, huri, hid, huser, hpass⟩
    obtain ⟨cfg, h1, hout⟩ := Option.bind_eq_some_iff.mp hout
    obtain ⟨cfg₂, h2, hout⟩ := Option.map_eq_some_iff.mp hout
    obtain ⟨-, rfl⟩ := Prod.mk.inj hout
    obtain rfl : cfg' = cfg₂ := by cases g <;> simpa using hmem
    have hlen : (mqttUri host port).length < 64 := by
      rw [mqttStr_uri h0 h1 h2] at huri
      by_contra hlong
      rw [if_neg hlong] at huri
      cases huri
    rw [mqttStr_behind hlen h1 h2 (by decide) (by decide) (by decide), Option.some.injEq] at hid huser hpass
    exact ⟨hlen, Prod.ext hid.symm (Prod.ext huser.symm hpass.symm)⟩
  · rintro ⟨hlen, rfl⟩
    obtain ⟨cfg, h1⟩ : ∃ cfg,
        strcpy (List.replicate mqttCfgSize 0) MqttField.uri.off (mqttUri host port) = some cfg :=
      ⟨_, store_of_le (by
        rw [List.length_append, List.length_replicate, List.length_singleton]
        exact Nat.le_trans (by rw [MqttField.off]; omega) (show 132 + 1 ≤ mqttCfgSize by decide))⟩
    have hcfg := store_length h1
    rw [List.length_replicate] at hcfg
    obtain ⟨cfg', h2⟩ : ∃ cfg', store cfg MqttField.event_handle.off (le32 mqtt_event_handler) = some cfg' :=
      ⟨_, store_of_le (by rw [hcfg]; exact (show 0 + 4 ≤ mqttCfgSize by decide))⟩
    refine ⟨true, _, cfg', by rw [h1, Option.bind_some, h2, Option.map_some], ?_, ?_, ?_, ?_, ?_⟩
    · exact List.mem_append_right _ List.mem_cons_self
    · rw [mqttStr_uri h0 h1 h2, if_pos hlen]
    · exact mqttStr_behind hlen h1 h2 (by decide) (by decide) (by decide)
    · exact mqttStr_behind hlen h1 h2 (by decide) (by decide) (by decide)
    · exact mqttStr_behind hlen h1 h2 (by decide) (by decide) (by decide)

/-- The call passes on what the last `setMqtt` and the last `setMqttInfo` of a run were given. -/
def PassesLast (xs : List Setter) (out : Option (Bool × List MqttCall)) : Prop :=
  ∃ host port info, lastOf Setter.mqttOf xs = some (host, port) ∧ lastOf Setter.infoOf xs = some info ∧
    PassesConfig out host port info

/-- After any run of setters the next start passes on the last host and port and the last client id, user
name and password exactly when the `uri` fits its field and the three strings are empty. -/
theorem mqtt_config_iff (hspi : spi.Succeeds) {xs : List Setter} (hx : ∀ x ∈ xs, x.Args ∧ x.Fits) {s s' : σ}
    {r r' : TagCfgData} (hr : readCfg spi s = some r) (hrun : runSetters spi xs s = some s') {host : Bytes}
    {port : ℤ} (hmqtt : lastOf Setter.mqttOf xs = some (host, port)) (hlow : -2 ^ 31 ≤ port)
    (hhigh : port < 2 ^ 31) (hr' : readCfg spi s' = some r') (hstart : r'.getInt .is_mqtt_start ≠ 0)
    (hport : r'.getInt .mqtt_port ≠ 0) (g : Bool) :
    PassesLast xs (mqtt_app_start spi mqtt_event_handler g s') ↔
      (mqttUri host port).length < 64 ∧ lastOf Setter.infoOf xs = some ([], [], []) := by
  obtain ⟨s₁, r₁, hrun₁, hread₁, hholds⟩ := runSetters_mqtt hspi hx hr
  obtain rfl := Option.some.inj (hrun.symm.trans hrun₁)
  obtain rfl := Option.some.inj (hr'.symm.trans hread₁)
  obtain ⟨hhost, hget⟩ := hholds _ hmqtt
  have hval : r'.getInt .mqtt_port = port := by rw [TagCfgData.getInt, hget, int32_le32 hlow hhigh]
  have hiff := passesConfig_iff mqtt_event_handler g hr' hhost hval hstart (hval ▸ hport)
  constructor
  · rintro ⟨host', port', info, hm, hi, hpass⟩
    obtain ⟨rfl, rfl⟩ := Prod.mk.inj (Option.some.inj (hmqtt.symm.trans hm))
    obtain ⟨hlen, rfl⟩ := (hiff info).mp hpass
    exact ⟨hlen, hi⟩
  · rintro ⟨hlen, hi⟩
    exact ⟨host, port, _, hmqtt, hi, (hiff _).mpr ⟨hlen, rfl⟩⟩

end Main

/-- A broker is set, credentials are set, the service is started. -/
def brokerRun (client_id username password : Bytes) : List Setter :=
  [.setMqtt (ascii "10.0.0.2") 1883, .setMqttInfo client_id username password, .setMqttStartAndStop 1]

/-- The state such a run ends in. -/
theorem brokerRun_started {client_id username password : Bytes}
    (hx : ∀ x ∈ brokerRun client_id username password, x.Args ∧ x.Fits) :
    ∃ s' r', runSetters norFlash (brokerRun client_id username password) bootChip = some s' ∧
      readCfg norFlash s' = some r' ∧ r'.str .mqtt_host = some (ascii "10.0.0.2") ∧
      r'.getInt .mqtt_port = 1883 ∧ r'.getInt .is_mqtt_start = 1 := by
  have hsplit : brokerRun client_id username password =
      [.setMqtt (ascii "10.0.0.2") 1883, .setMqttInfo client_id username password] ++
        [.setMqttStartAndStop 1] := rfl
  rw [hsplit] at hx ⊢
  obtain ⟨s1, r1, hrun, hread, hholds⟩ := runSetters_mqtt norFlash_succeeds
    (fun x h => hx x (List.mem_append_left _ h)) readCfg_bootChip
  obtain ⟨h0, hfits⟩ := hx _ (List.mem_append_right _ (List.mem_singleton_self _))
  obtain ⟨s', r', hrun', hread', hstores⟩ := Setter.run_fits norFlash_succeeds h0 hfits hread
  obtain ⟨hhost, hport⟩ := (hholds.concat hstores) (ascii "10.0.0.2", 1883) rfl
  have hstart : r'.get .is_mqtt_start = le32 1 := hstores.2.1 (.is_mqtt_start, 1) rfl
  refine ⟨s', r', ?_, hread', hhost, ?_, ?_⟩
  · rw [runSetters_concat, hrun, Option.bind_some, hrun']
    rfl
  · rw [TagCfgData.getInt, hport, int32_le32 (by decide) (by decide)]
  · rw [TagCfgData.getInt, hstart, int32_le32 (by decide) (by decide)]

theorem mqtt_config_anonymous :
    ∃ s', runSetters norFlash (brokerRun [] [] []) bootChip = some s' ∧
      PassesLast (brokerRun [] [] []) (mqtt_app_start norFlash 0 false s') := by
  have hx : ∀ x ∈ brokerRun [] [] [], x.Args ∧ x.Fits := by
    unfold Setter.Args Setter.Fits
    decide
  obtain ⟨s', r', hrun, hread, -, hport, hstart⟩ := brokerRun_started hx
  exact ⟨s', hrun, (mqtt_config_iff 0 norFlash_succeeds hx readCfg_bootChip hrun rfl (by decide) (by decide)
    hread (by rw [hstart]; decide) (by rw [hport]; decide) false).mpr ⟨by decide, rfl⟩⟩

/-- The credentials that were set are not passed on. -/
theorem mqtt_config_drops_credentials :
    ∃ s', runSetters norFlash (brokerRun (ascii "dev1") (ascii "user") (ascii "secret")) bootChip = some s' ∧
      ¬ PassesLast (brokerRun (ascii "dev1") (ascii "user") (ascii "secret"))
        (mqtt_app_start norFlash 0 false s') := by
  have hx : ∀ x ∈ brokerRun (ascii "dev1") (ascii "user") (ascii "secret"), x.Args ∧ x.Fits := by
    unfold Setter.Args Setter.Fits
    decide
  obtain ⟨s', r', hrun, hread, hhost, hport, hstart⟩ := brokerRun_started hx
  refine ⟨s', hrun, ?_⟩
  rintro ⟨host, port, info, hm, hi, hpass⟩
  obtain ⟨rfl, rfl⟩ := Prod.mk.inj (Option.some.inj hm)
  obtain rfl := Option.some.inj hi
  have hfit := (passesConfig_iff 0 false hread hhost hport (by rw [hstart]; decide) (by decide) _).mp hpass
  exact absurd hfit.2 (by decide)

end Esp32Base
