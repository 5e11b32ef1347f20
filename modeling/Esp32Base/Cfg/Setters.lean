import Esp32Base.Cfg.Record

/-!
# Cfg.Setters — what the six setters promise (trans_data_a.c, main.c)

Every setter is a list of `strcpy`s to fields in ascending order and at most one assignment to an `int`
field. The strings a setter leaves are read off this form once, for all of them.

* `setter_obeys_iff`: the arguments are stored, and nothing else changes, iff each string is shorter
  than its field.
* `setter_failure_iff`: a failed write leaves the old record iff it failed in the erase.
-/

namespace Esp32Base

open Lib Lib.Buf

/-- A call of a setter. -/
inductive Setter
  | setMqtt (host : Bytes) (port : ℤ)
  | setMqttInfo (client_id username password : Bytes)
  | setConnectWifi (ssid password : Bytes)
  | setOpenWifi (ssid password : Bytes)
  | setCloseWifi
  | setMqttStartAndStop (b : ℤ)

namespace Setter

/-- The strings the call stores, in the order of its `strcpy`s. -/
def strs : Setter → List (CfgField × Bytes)
  | setMqtt host _ => [(.mqtt_host, host)]
  | setMqttInfo client_id username password =>
    [(.mqtt_clientid, client_id), (.mqtt_username, username), (.mqtt_password, password)]
  | setConnectWifi ssid password => [(.staSSID, ssid), (.staPassword, password)]
  | setOpenWifi ssid password => [(.apSSID, ssid), (.apPassword, password)]
  | setCloseWifi => [(.apSSID, []), (.apPassword, []), (.staSSID, []), (.staPassword, [])]
  | setMqttStartAndStop _ => []

/-- The `int` field the call assigns. -/
def int : Setter → Option (CfgField × ℤ)
  | setMqtt _ port => some (.mqtt_port, port)
  | setMqttInfo _ _ _ => none
  | setConnectWifi _ _ => some (.mode, EzhWifiMode.sta.toInt)
  | setOpenWifi _ _ => some (.mode, EzhWifiMode.ap.toInt)
  | setCloseWifi => some (.mode, EzhWifiMode.undo.toInt)
  | setMqttStartAndStop b => some (.is_mqtt_start, b)

/-- The fields the call names. -/
def fields (x : Setter) : List CfgField := x.strs.map Prod.fst ++ (x.int.map Prod.fst).toList

/-- Every string is shorter than its field. -/
def Fits (x : Setter) : Prop := ∀ p ∈ x.strs, p.2.length < p.1.size

/-- C strings have no NUL inside. -/
def Args (x : Setter) : Prop := ∀ p ∈ x.strs, (0 : UInt8) ∉ p.2

end Setter

/-! ## Strings and integers, one after the other -/

/-- The `strcpy`s in order. -/
def strcpyAll : List (CfgField × Bytes) → TagCfgData → Option TagCfgData
  | [], r => some r
  | p :: l, r => (r.strcpy p.1 p.2).bind (strcpyAll l)

/-- The assignment, if there is one. -/
def setIntOf : Option (CfgField × ℤ) → TagCfgData → Option TagCfgData
  | none, r => some r
  | some p, r => r.setInt p.1 p.2

theorem setIntOf_none : setIntOf none = some := rfl

theorem setIntOf_some (p : CfgField × ℤ) : setIntOf (some p) = fun r => r.setInt p.1 p.2 := rfl

section Writes

variable {l : List (CfgField × Bytes)} {r r' : TagCfgData}

/-- A field in front of all the `strcpy`s keeps its bytes. -/
theorem strcpyAll_before {g : CfgField} (h : strcpyAll l r = some r')
    (hg : ∀ p ∈ l, g.off + g.size ≤ p.1.off) : r'.get g = r.get g := by
  induction l generalizing r with
  | nil =>
    rw [Option.some.inj h]
  | cons p l ih =>
    obtain ⟨r1, h1, h2⟩ := Option.bind_eq_some_iff.mp h
    rw [ih h2 fun q hq => hg q (List.mem_cons_of_mem p hq)]
    exact TagCfgData.get_put_before h1 (hg p List.mem_cons_self)

/-- With the fields in ascending order every string is what its own `strcpy` left, overflow from the
fields in front included. -/
theorem strcpyAll_str (h : strcpyAll l r = some r') (h0 : ∀ p ∈ l, (0 : UInt8) ∉ p.2)
    (hasc : l.Pairwise fun p q => p.1.off + p.1.size ≤ q.1.off) :
    ∀ p ∈ l, r'.str p.1 = if p.2.length < p.1.size then some p.2 else none := by
  induction l generalizing r with
  | nil => exact fun p hp => absurd hp List.not_mem_nil
  | cons p l ih =>
    obtain ⟨r1, h1, h2⟩ := Option.bind_eq_some_iff.mp h
    rw [List.pairwise_cons] at hasc
    intro q hq
    rcases List.mem_cons.mp hq with rfl | hq
    · rw [← TagCfgData.str_strcpy h1 (h0 _ List.mem_cons_self)]
      exact congrArg cstr (strcpyAll_before h2 hasc.1)
    · exact ih h2 (fun q hq => h0 q (List.mem_cons_of_mem p hq)) hasc.2 q hq

/-- Strings that fit can be stored, and they change their fields only. -/
theorem strcpyAll_fits (h : ∀ p ∈ l, p.2.length < p.1.size) (r : TagCfgData) :
    ∃ r', strcpyAll l r = some r' ∧ ∀ g, (∀ p ∈ l, p.1 ≠ g) → r'.get g = r.get g := by
  induction l generalizing r with
  | nil => exact ⟨r, rfl, fun _ _ => rfl⟩
  | cons p l ih =>
    have hlen : (p.2 ++ [0]).length ≤ p.1.size := by
      have hp := h p List.mem_cons_self
      rw [List.length_append, List.length_singleton]
      omega
    obtain ⟨r1, h1⟩ := r.put_of_le hlen
    obtain ⟨r', h2, hother⟩ := ih (fun q hq => h q (List.mem_cons_of_mem p hq)) r1
    refine ⟨r', ?_, fun g hg => ?_⟩
    · rw [strcpyAll, TagCfgData.strcpy, h1, Option.bind_some, h2]
    · rw [hother g fun q hq => hg q (List.mem_cons_of_mem p hq)]
      exact TagCfgData.get_put_of_ne h1 hlen (hg p List.mem_cons_self)

theorem setIntOf_spec {i : Option (CfgField × ℤ)} (hi : ∀ p ∈ i, p.1.size = 4) (r : TagCfgData) :
    ∃ r', setIntOf i r = some r' ∧ (∀ p ∈ i, r'.get p.1 = le32 p.2) ∧
      ∀ g, (∀ p ∈ i, p.1 ≠ g) → r'.get g = r.get g := by
  cases i with
  | none => exact ⟨r, rfl, fun p hp => absurd hp (Option.not_mem_none p), fun _ _ => rfl⟩
  | some p =>
    obtain ⟨r', h, hself, hother⟩ := r.setInt_spec (hi p rfl) p.2
    refine ⟨r', h, fun q hq => ?_, fun g hg => hother g (hg p rfl)⟩
    obtain rfl := Option.some.inj hq
    exact hself

end Writes

/-! ## The calls in this form -/

namespace Setter

/-- What the call does to the record. -/
def edit (x : Setter) (r : TagCfgData) : Option TagCfgData := (strcpyAll x.strs r).bind (setIntOf x.int)

theorem strs_ascending (x : Setter) : x.strs.Pairwise fun p q => p.1.off + p.1.size ≤ q.1.off := by
  cases x <;> simp [strs, CfgField.off, CfgField.size]

theorem int_size (x : Setter) : ∀ p ∈ x.int, p.1.size = 4 := by
  cases x <;> simp [int, CfgField.size]

theorem int_ne (x : Setter) : ∀ p ∈ x.strs, ∀ q ∈ x.int, q.1 ≠ p.1 := by
  cases x <;> simp [strs, int]

variable {σ : Type} (spi : SpiFlash σ)

/-- The call itself. -/
def run : Setter → σ → Option (ℕ × σ)
  | setMqtt host port => Esp32Base.setMqtt spi host port
  | setMqttInfo client_id username password => Esp32Base.setMqttInfo spi client_id username password
  | setConnectWifi ssid password => Esp32Base.setConnectWifi spi ssid password
  | setOpenWifi ssid password => Esp32Base.setOpenWifi spi ssid password
  | setCloseWifi => Esp32Base.setCloseWifi spi
  | setMqttStartAndStop b => Esp32Base.setMqttStartAndStop spi b

/-- Every setter reads the record, makes its edit and writes it back. -/
theorem run_eq (x : Setter) : x.run spi = setCfg spi x.edit := by
  cases x <;>
    (refine congrArg (setCfg spi) (funext fun r => ?_)
     simp only [edit, strs, int, strcpyAll, setIntOf_none, setIntOf_some, Option.bind_assoc,
       Option.bind_some, Option.bind_fun_some])

/-- What the call is meant to leave: its strings and its integer in their fields, everything else as it
was. -/
def Stores (x : Setter) (r r' : TagCfgData) : Prop :=
  (∀ p ∈ x.strs, r'.str p.1 = some p.2) ∧ (∀ p ∈ x.int, r'.get p.1 = le32 p.2) ∧
    ∀ k, k ∉ x.fields → r'.get k = r.get k

/-- The call either reports that it rejects the arguments and leaves the record, or stores them. -/
def Obeys (x : Setter) (s : σ) (r : TagCfgData) : Prop :=
  ∃ ret s', x.run spi s = some (ret, s') ∧
    ((ret ≠ 0 ∧ readCfg spi s' = some r) ∨ ∃ r', readCfg spi s' = some r' ∧ x.Stores r r')

variable {spi} {x : Setter} {r r' : TagCfgData} {s : σ}

/-- The strings after an edit that stayed in the record. -/
theorem edit_str (h0 : x.Args) (h : x.edit r = some r') :
    ∀ p ∈ x.strs, r'.str p.1 = if p.2.length < p.1.size then some p.2 else none := by
  obtain ⟨r1, h1, h2⟩ := Option.bind_eq_some_iff.mp h
  obtain ⟨r2, h2', -, hother⟩ := setIntOf_spec x.int_size r1
  obtain rfl := Option.some.inj (h2.symm.trans h2')
  intro p hp
  rw [← strcpyAll_str h1 h0 x.strs_ascending p hp]
  exact congrArg cstr (hother p.1 fun q hq => x.int_ne p hp q hq)

/-- Arguments that fit are stored. -/
theorem edit_fits (h0 : x.Args) (hx : x.Fits) (r : TagCfgData) :
    ∃ r', x.edit r = some r' ∧ x.Stores r r' := by
  obtain ⟨r1, h1, hother1⟩ := strcpyAll_fits hx r
  obtain ⟨r', h2, hint, hother2⟩ := setIntOf_spec x.int_size r1
  have hedit : x.edit r = some r' := by rw [edit, h1, Option.bind_some, h2]
  refine ⟨r', hedit, fun p hp => ?_, hint, fun k hk => ?_⟩
  · rw [edit_str h0 hedit p hp, if_pos (hx p hp)]
  · rw [fields, List.mem_append, not_or] at hk
    rw [hother2 k fun q hq e => hk.2 (by rw [hq]; simp [e]),
      hother1 k fun q hq e => hk.1 (List.mem_map.mpr ⟨q, hq, e⟩)]

/-- A run that fits succeeds and leaves the record it is meant to leave. -/
theorem run_fits (hspi : spi.Succeeds) (h0 : x.Args) (hx : x.Fits) (hr : readCfg spi s = some r) :
    ∃ s' r', x.run spi s = some (0, s') ∧ readCfg spi s' = some r' ∧ x.Stores r r' := by
  obtain ⟨r', hedit, hstores⟩ := edit_fits h0 hx r
  obtain ⟨s', hset, hread⟩ := setCfg_of_edit hspi x.edit hr hedit
  exact ⟨s', r', by rw [run_eq, hset], hread, hstores⟩

end Setter

/-! ## Which arguments are stored -/

section Args

variable {σ : Type} {spi : SpiFlash σ} {x : Setter} {s : σ} {r : TagCfgData}

/-- A setter never rejects, so what it keeps its promise on are strings that it has read back. -/
theorem Setter.fits_of_obeys (hspi : spi.Succeeds) (h0 : x.Args) (h : x.Obeys spi s r) : x.Fits := by
  intro p hp
  obtain ⟨ret, s', hrun, hcase⟩ := h
  rw [run_eq] at hrun
  obtain ⟨hret, ra, rb, -, hedit, hread⟩ := setCfg_stored hspi hrun
  rcases hcase with ⟨hne, -⟩ | ⟨r', hread', hstr, -⟩
  · exact absurd hret hne
  · obtain rfl := Option.some.inj (hread.symm.trans hread')
    have hself := (edit_str h0 hedit p hp).symm.trans (hstr p hp)
    by_contra hlong
    rw [if_neg hlong] at hself
    cases hself

/-- A setter keeps its promise exactly on strings shorter than their fields. -/
theorem setter_obeys_iff (hspi : spi.Succeeds) (h0 : x.Args) (hr : readCfg spi s = some r) :
    x.Obeys spi s r ↔ x.Fits := by
  constructor
  · exact Setter.fits_of_obeys hspi h0
  · intro hx
    obtain ⟨s', r', hrun, hread, hstores⟩ := Setter.run_fits hspi h0 hx hr
    exact ⟨0, s', hrun, Or.inr ⟨r', hread, hstores⟩⟩

end Args

/-- `INIT_HARDWARE_FLAG`. -/
def INIT_HARDWARE_FLAG : ℤ := 1111112

/-- A record that passes the check at boot. -/
def bootRecord : TagCfgData := ⟨le32 INIT_HARDWARE_FLAG ++ List.replicate 712 0, by decide +kernel⟩

/-- A chip that holds it. -/
def bootChip : ℕ → UInt8 :=
  (write_spi_flash_data norFlash bootRecord.bytes SECTOR_CFG_DATA fun _ => 0xFF).2

theorem readCfg_bootChip : readCfg norFlash bootChip = some bootRecord :=
  (readCfg_write norFlash_succeeds bootRecord _).2

theorem setter_obeys_info :
    (Setter.setMqttInfo (ascii "dev1") (ascii "user") (ascii "secret")).Obeys norFlash bootChip bootRecord :=
  (setter_obeys_iff norFlash_succeeds (by unfold Setter.Args; decide) readCfg_bootChip).mpr
    (by unfold Setter.Fits; decide)

/-- A client id of 64 characters loses its terminator to the user name. -/
theorem setter_disobeys_info :
    ¬ (Setter.setMqttInfo (List.replicate 64 97) (ascii "user") (ascii "secret")).Obeys norFlash bootChip
      bootRecord := by
  intro h
  have hfits := Setter.fits_of_obeys norFlash_succeeds (by unfold Setter.Args; decide) h
  exact absurd (hfits _ List.mem_cons_self) (by decide)

/-! ## A write that fails -/

/-- What `app_main` does after it has read the record. -/
inductive BootCheck
  | esp_restart
  | initFactoryCfgFlash
  | boots
  deriving DecidableEq

section Failure

variable {σ : Type} (spi : SpiFlash σ)

/-- The check of `app_main`. -/
def app_main_check (s : σ) : BootCheck :=
  match readCfg spi s with
  | none => .esp_restart
  | some pCfgdata =>
    if pCfgdata.get .devInitFlag ≠ le32 INIT_HARDWARE_FLAG then .initFactoryCfgFlash else .boots

variable {spi}

/-- The record after a setter whose write failed. -/
theorem readCfg_failed (hspi : spi.FailsClean) {x : Setter} {s s' : σ} (hrun : x.run spi s = some (1, s')) :
    readCfg spi s' =
      if (spi.spi_flash_erase_sector SECTOR_CFG_DATA s).1 then
        some ⟨List.replicate cfgSize 0xFF, List.length_replicate⟩
      else readCfg spi s := by
  rw [Setter.run_eq] at hrun
  obtain ⟨r, -, hrun⟩ := Option.bind_eq_some_iff.mp hrun
  obtain ⟨r', -, hw⟩ := Option.map_eq_some_iff.mp hrun
  have hread := read_write_failed hspi (congrArg Prod.fst hw) (n := cfgSize) (by decide)
  rw [hw] at hread
  rw [readCfg, hread]
  split_ifs
  · rw [Option.bind_some, dif_pos List.length_replicate]
  · rfl

/-- A setter that reports failure has left the old record, and with it what the next boot finds, exactly
when the erase was what failed (or the record was an erased sector anyway). -/
theorem setter_failure_iff (hspi : spi.FailsClean) {x : Setter} {s s' : σ} {r : TagCfgData}
    (hr : readCfg spi s = some r) (hrun : x.run spi s = some (1, s')) :
    (readCfg spi s' = some r ∧ (app_main_check spi s = .boots → app_main_check spi s' = .boots)) ↔
      (spi.spi_flash_erase_sector SECTOR_CFG_DATA s).1 = false ∨ r.bytes = List.replicate cfgSize 0xFF := by
  have hread := readCfg_failed hspi hrun
  have hboot : readCfg spi s' = some r → app_main_check spi s' = app_main_check spi s := fun h => by
    rw [app_main_check, app_main_check, h, hr]
  rw [and_iff_left_of_imp fun h hb => (hboot h).trans hb, hread]
  by_cases he : (spi.spi_flash_erase_sector SECTOR_CFG_DATA s).1 = true
  · rw [if_pos he, he, Option.some.injEq]
    constructor
    · rintro rfl
      exact Or.inr rfl
    · rintro (h | h)
      · cases h
      · obtain ⟨b, hb⟩ := r
        subst h
        rfl
  · rw [if_neg he]
    exact iff_of_true hr (Or.inl (Bool.eq_false_iff.mpr he))

end Failure

theorem bootRecord_edit : ∃ r', (Setter.setMqttStartAndStop 1).edit bootRecord = some r' := by
  obtain ⟨r', hedit, -⟩ := Setter.edit_fits (x := .setMqttStartAndStop 1) (by unfold Setter.Args; decide)
    (by unfold Setter.Fits; decide) bootRecord
  exact ⟨r', hedit⟩

/-- A call whose erase failed. -/
theorem setter_failure_erase :
    ∃ s', (Setter.setMqttStartAndStop 1).run (faultyFlash false true) bootChip = some (1, s') ∧
      readCfg (faultyFlash false true) s' = some bootRecord := by
  have hr : readCfg (faultyFlash false true) bootChip = some bootRecord := readCfg_bootChip
  obtain ⟨r', hedit⟩ := bootRecord_edit
  have hrun : (Setter.setMqttStartAndStop 1).run (faultyFlash false true) bootChip = some (1, bootChip) := by
    rw [Setter.run_eq, setCfg, hr, Option.bind_some, hedit]
    rfl
  exact ⟨_, hrun, ((setter_failure_iff (faultyFlash_failsClean false true) hr hrun).mpr (Or.inl rfl)).1⟩

/-- A call whose erase succeeded and whose write failed: the next boot goes to the factory settings. -/
theorem setter_failure_erases_record :
    ∃ s', (Setter.setMqttStartAndStop 1).run (faultyFlash true false) bootChip = some (1, s') ∧
      app_main_check (faultyFlash true false) bootChip = .boots ∧
      app_main_check (faultyFlash true false) s' = .initFactoryCfgFlash ∧
      readCfg (faultyFlash true false) s' ≠ some bootRecord := by
  have hr : readCfg (faultyFlash true false) bootChip = some bootRecord := readCfg_bootChip
  obtain ⟨r', hedit⟩ := bootRecord_edit
  obtain ⟨s', hrun⟩ : ∃ s', (Setter.setMqttStartAndStop 1).run (faultyFlash true false) bootChip =
      some (1, s') := by
    rw [Setter.run_eq, setCfg, hr, Option.bind_some, hedit]
    exact ⟨_, rfl⟩
  have hread := readCfg_failed (faultyFlash_failsClean true false) hrun
  have he : ((faultyFlash true false).spi_flash_erase_sector SECTOR_CFG_DATA bootChip).1 = true := rfl
  rw [if_pos he] at hread
  refine ⟨s', hrun, ?_, ?_, ?_⟩
  · rw [app_main_check, hr]
    decide +kernel
  · rw [app_main_check, hread]
    decide +kernel
  · rw [hread, Ne, Option.some.injEq]
    intro h
    exact absurd (congrArg TagCfgData.bytes h) (by decide +kernel)

end Esp32Base
