import Mathlib.Algebra.Order.Ring.Int
import Mathlib.Data.List.DropRight
import Esp32Base.Lib.CText
import Esp32Base.Cfg.Record

/-!
# Cfg.Command — the command line (cfg.c, trans_data.c, url_parser.c)

`do_command` takes the first word of the line as the command and calls its handler; the handlers with
parameters split the line at its commas and trim the parts.

* `trim_line`: the text before the comma, when the command word is still in front of it.
* `do_command_params`: what reaches the setters.
* `do_command_stores`: what `setmqtt`, `openwifi` and `connectwifi` store when it fits.
* `do_command_never_stores`: it is never the documented value.
-/

namespace Esp32Base

open Lib Lib.Buf Lib.CText

/-! ## Trimming -/

/-- What `ltrim` and `rtrim` remove. -/
def isBlank (c : UInt8) : Bool := c == 32 || c == 9 || c == 10

def ltrim (str : Bytes) : Bytes := str.dropWhile isBlank
def rtrim (str : Bytes) : Bytes := str.rdropWhile isBlank
def trim (str : Bytes) : Bytes := rtrim (ltrim str)

/-! ## The handlers -/

/-- How a command ends. -/
inductive After
  | returns
  | mqtt_app_start
  | esp_restart
  deriving DecidableEq

/-- `sscanf` with `%s` into the zeroed `command[196]`. -/
def scanCommand (line : Bytes) : Option Bytes :=
  let word := (line.dropWhile isspace).takeWhile fun c => !isspace c
  if word.length < 196 then some word else none

/-- `strchr(pstr, ',')` and `*pstr = 0`: the text in front of the comma and the text behind it. -/
def splitComma : Bytes → Option (Bytes × Bytes)
  | [] => none
  | c :: t => if c = 44 then some ([], t) else (splitComma t).map fun r => (c :: r.1, r.2)

/-- `strcpy` into a `param[150]` and `trim`. -/
def param (str : Bytes) : Option Bytes := if str.length < 150 then some (trim str) else none

/-- The two parameters; the inner `none` is `parameter1 error`. -/
def twoParams (commandline : Bytes) : Option (Option (Bytes × Bytes)) :=
  (cstr commandline).bind fun text =>
    match splitComma text with
    | none => some none
    | some (str1, str2) => (param str1).bind fun param1 => (param str2).map fun param2 => some (param1, param2)

section Handlers

variable {σ : Type} (spi : SpiFlash σ)

/-- A handler with two parameters. -/
def withParams (set : Bytes → Bytes → σ → Option (σ × After)) (commandline : Bytes) (s : σ) : Option (σ × After) :=
  (twoParams commandline).bind fun ps =>
    match ps with
    | none => some (s, .returns)
    | some (param1, param2) => set param1 param2 s

/-- Behind a setter that returns: the MQTT client is started over when it succeeded. -/
def startMqtt (r : ℕ × σ) : σ × After := (r.2, if r.1 = 0 then .mqtt_app_start else .returns)

/-- Behind a setter that ends in `esp_restart`. -/
def restart (r : ℕ × σ) : σ × After := (r.2, .esp_restart)

def cmd_setmqtt : Bytes → σ → Option (σ × After) :=
  withParams fun param1 param2 s => (setMqtt spi param1 (atoi param2) s).map startMqtt

def cmd_open_wifi : Bytes → σ → Option (σ × After) :=
  withParams fun param1 param2 s => (setOpenWifi spi param1 param2 s).map restart

def cmd_connect_wifi : Bytes → σ → Option (σ × After) :=
  withParams fun param1 param2 s => (setConnectWifi spi param1 param2 s).map restart

def cmd_setmqttinfo (commandline : Bytes) (s : σ) : Option (σ × After) :=
  (cstr commandline).bind fun text =>
    match splitComma text with
    | none => some (s, .returns)
    | some (str1, text) =>
      (param str1).bind fun param1 =>
        match splitComma text with
        | none => some (s, .returns)
        | some (str2, str3) =>
          (param str2).bind fun param2 => (param str3).bind fun param3 =>
            (setMqttInfo spi param1 param2 param3 s).map startMqtt

def cmd_setuart1 (commandline : Bytes) (s : σ) : Option (σ × After) :=
  (cstr commandline).bind fun text =>
    (param text).bind fun param1 =>
      if 0 < atoi param1 then
        match readCfg spi s with
        | none => some (s, .returns)
        | some pCfgdata =>
          (pCfgdata.setInt .uart1_baudRate (atoi param1)).map fun pCfgdata =>
            let r := write_spi_flash_data spi pCfgdata.bytes SECTOR_CFG_DATA s
            (r.2, if r.1 = 0 then .esp_restart else .returns)
      else some (s, .returns)

def cmd_close_wifi (s : σ) : Option (σ × After) := (setCloseWifi spi s).map restart

def cmd_mqtt_start (s : σ) : Option (σ × After) := (setMqttStartAndStop spi 1 s).map restart

def cmd_mqtt_stop (s : σ) : Option (σ × After) := (setMqttStartAndStop spi 0 s).map restart

/-- Prints the record; a failed read is not checked for. -/
def showmqtt (s : σ) : Option (σ × After) := (readCfg spi s).map fun _ => (s, .returns)

variable (initFactoryCfgFlash : σ → Option σ)

/-- The handler of a command word. -/
def dispatch (command Cmdline : Bytes) (s : σ) : Option (σ × After) :=
  if command = ascii "help" then some (s, .returns)
  else if command = ascii "factory" then (initFactoryCfgFlash s).map fun s => (s, .esp_restart)
  else if command = ascii "restart" then some (s, .esp_restart)
  else if command = ascii "openwifi" then cmd_open_wifi spi Cmdline s
  else if command = ascii "connectwifi" then cmd_connect_wifi spi Cmdline s
  else if command = ascii "closewifi" then cmd_close_wifi spi s
  else if command = ascii "showuart" then some (s, .returns)
  else if command = ascii "setuart1" then cmd_setuart1 spi (Cmdline.drop (command.length + 1)) s
  else if command = ascii "showmqtt" then showmqtt spi s
  else if command = ascii "mqttstart" then cmd_mqtt_start spi s
  else if command = ascii "mqttstop" then cmd_mqtt_stop spi s
  else if command = ascii "setmqtt" then cmd_setmqtt spi Cmdline s
  else if command = ascii "setmqttinfo" then cmd_setmqttinfo spi Cmdline s
  else some (s, .returns)

def do_command (Cmdline : Bytes) (s : σ) : Option (σ × After) :=
  (cstr Cmdline).bind fun line =>
    (scanCommand line).bind fun command => dispatch spi initFactoryCfgFlash (trim command) Cmdline s

end Handlers

/-! ## The documented lines -/

/-- The commands that take two parameters. -/
inductive DocCmd
  | setmqtt
  | openwifi
  | connectwifi

def DocCmd.word : DocCmd → Bytes
  | setmqtt => ascii "setmqtt"
  | openwifi => ascii "openwifi"
  | connectwifi => ascii "connectwifi"

/-- The field of the first parameter. -/
def DocCmd.field1 : DocCmd → CfgField
  | setmqtt => .mqtt_host
  | openwifi => .apSSID
  | connectwifi => .staSSID

/-- The line of the help text with `a` and `b` for its parameters. -/
def DocCmd.line (cmd : DocCmd) (a b : Bytes) : Bytes := cmd.word ++ 32 :: a ++ 44 :: b

/-- Two parameters that fit their fields. -/
def DocCmd.Fits (cmd : DocCmd) (param1 param2 : Bytes) : Prop :=
  param1.length < cmd.field1.size ∧
    match cmd with
    | .setmqtt => True
    | .openwifi => param2.length < CfgField.apPassword.size
    | .connectwifi => param2.length < CfgField.staPassword.size

/-- Parameters that a line can hold and whose trimmed forms fit their fields. -/
structure DocCmd.Args (cmd : DocCmd) (a b : Bytes) : Prop where
  chars : ∀ c ∈ a ++ b, c ≠ 44 ∧ c ≠ 13 ∧ c ≠ 0
  fits : cmd.Fits (trim a) (trim b)

/-- The record `r'` is `r` with the parameters in their fields, and with the mode of the command. -/
def DocCmd.Stored (cmd : DocCmd) (param1 param2 : Bytes) (r r' : TagCfgData) : Prop :=
  match cmd with
  | .setmqtt => r'.str .mqtt_host = some param1 ∧ r'.get .mqtt_port = le32 (atoi param2) ∧
      ∀ f, f ∉ [CfgField.mqtt_host, .mqtt_port] → r'.get f = r.get f
  | .openwifi => r'.str .apSSID = some param1 ∧ r'.str .apPassword = some param2 ∧
      r'.get .mode = le32 EzhWifiMode.ap.toInt ∧
      ∀ f, f ∉ [CfgField.apSSID, .apPassword, .mode] → r'.get f = r.get f
  | .connectwifi => r'.str .staSSID = some param1 ∧ r'.str .staPassword = some param2 ∧
      r'.get .mode = le32 EzhWifiMode.sta.toInt ∧
      ∀ f, f ∉ [CfgField.staSSID, .staPassword, .mode] → r'.get f = r.get f

theorem DocCmd.Stored.field1 {cmd : DocCmd} {param1 param2 : Bytes} {r r' : TagCfgData}
    (h : cmd.Stored param1 param2 r r') : r'.str cmd.field1 = some param1 := by
  cases cmd <;> exact h.1

theorem rtrim_append (x y : Bytes) : rtrim (x ++ y) = if rtrim y = [] then rtrim x else x ++ rtrim y := by
  unfold rtrim List.rdropWhile
  rw [List.reverse_append, List.dropWhile_append]
  by_cases h : y.reverse.dropWhile isBlank = []
  · rw [h, if_pos List.isEmpty_nil, if_pos List.reverse_nil]
  · rw [if_neg (fun h' => h (List.isEmpty_iff.mp h')), if_neg (fun h' => h (List.reverse_eq_nil_iff.mp h')),
      List.reverse_append, List.reverse_reverse]

theorem mem_of_mem_trim {c : UInt8} {str : Bytes} (h : c ∈ trim str) : c ∈ str := by
  have hr : trim str <+: ltrim str := List.rdropWhile_prefix _ _
  have hl : ltrim str <:+ str := List.dropWhile_suffix _
  exact hl.subset (hr.subset h)

/-- The command word in front makes the trimmed text longer than the trimmed parameter. -/
theorem trim_line (cmd : DocCmd) (a : Bytes) : (trim a).length < (trim (cmd.word ++ 32 :: a)).length := by
  have hl : ltrim (cmd.word ++ 32 :: a) = cmd.word ++ 32 :: a := by cases cmd <;> rfl
  have hsplit : cmd.word ++ 32 :: a = (cmd.word ++ 32 :: a.takeWhile isBlank) ++ ltrim a := by
    rw [List.append_assoc, List.cons_append, ltrim, List.takeWhile_append_dropWhile]
  unfold trim
  rw [hl, hsplit, rtrim_append]
  by_cases ha : rtrim (ltrim a) = []
  · -- nothing but blanks: the word itself is left
    rw [if_pos ha, ha, List.length_nil, List.length_pos_iff]
    intro hnil
    have hblank := List.rdropWhile_eq_nil_iff.mp hnil
    have hword : ∃ c ∈ cmd.word, isBlank c = false := by cases cmd <;> decide
    obtain ⟨c, hc, hno⟩ := hword
    rw [hblank c (List.mem_append_left _ hc)] at hno
    cases hno
  · rw [if_neg ha, List.length_append, List.length_append, List.length_cons]
    omega

theorem DocCmd.noNul_line (cmd : DocCmd) {a : Bytes} (h0 : 0 ∉ a) : 0 ∉ trim (cmd.word ++ 32 :: a) := by
  intro h
  rcases List.mem_append.mp (mem_of_mem_trim h) with h | h
  · exact absurd h (by cases cmd <;> decide)
  · rcases List.mem_cons.mp h with h | h
    · exact absurd h (by decide)
    · exact h0 h

theorem splitComma_append {x : Bytes} (y : Bytes) (h : 44 ∉ x) : splitComma (x ++ 44 :: y) = some (x, y) := by
  induction x with
  | nil => rw [List.nil_append, splitComma, if_pos rfl]
  | cons c x ih =>
    rw [List.mem_cons, not_or] at h
    rw [List.cons_append, splitComma, if_neg (fun hc => h.1 hc.symm), ih h.2]
    rfl

theorem param_eq_some {str p : Bytes} (h : param str = some p) : p = trim str := by
  unfold param at h
  split_ifs at h
  exact (Option.some.inj h).symm

section Lines

variable {σ : Type} (spi : SpiFlash σ) (initFactoryCfgFlash : σ → Option σ)

/-- What a documented command does with its parameters. -/
def DocCmd.set (cmd : DocCmd) (param1 param2 : Bytes) (s : σ) : Option (σ × After) :=
  match cmd with
  | .setmqtt => (setMqtt spi param1 (atoi param2) s).map startMqtt
  | .openwifi => (setOpenWifi spi param1 param2 s).map restart
  | .connectwifi => (setConnectWifi spi param1 param2 s).map restart

theorem dispatch_doc (cmd : DocCmd) (Cmdline : Bytes) (s : σ) :
    dispatch spi initFactoryCfgFlash cmd.word Cmdline s = withParams (cmd.set spi) Cmdline s := by
  cases cmd <;> rfl

/-- **What reaches the setters**: the parameters are cut out of the whole line, so the first one starts
with the command word. -/
theorem do_command_params (cmd : DocCmd) {a b : Bytes} (hab : ∀ c ∈ a ++ b, c ≠ 44 ∧ c ≠ 13 ∧ c ≠ 0)
    (rest : Bytes) (s : σ) :
    do_command spi initFactoryCfgFlash (cmd.line a b ++ 0 :: rest) s =
      (param (cmd.word ++ 32 :: a)).bind fun param1 => (param b).bind fun param2 => cmd.set spi param1 param2 s := by
  have hword : 0 ∉ cmd.word ∧ 44 ∉ cmd.word := by cases cmd <;> decide
  have h0 : 0 ∉ cmd.line a b := by
    intro h
    rcases List.mem_append.mp h with h | h
    · rcases List.mem_append.mp h with h | h
      · exact hword.1 h
      · rcases List.mem_cons.mp h with h | h
        · exact absurd h (by decide)
        · exact (hab 0 (List.mem_append_left _ h)).2.2 rfl
    · rcases List.mem_cons.mp h with h | h
      · exact absurd h (by decide)
      · exact (hab 0 (List.mem_append_right _ h)).2.2 rfl
  have hcomma : 44 ∉ cmd.word ++ 32 :: a := by
    intro h
    rcases List.mem_append.mp h with h | h
    · exact hword.2 h
    · rcases List.mem_cons.mp h with h | h
      · exact absurd h (by decide)
      · exact (hab 44 (List.mem_append_left _ h)).1 rfl
  have hscan : scanCommand (cmd.line a b) = some cmd.word := by cases cmd <;> rfl
  have htrim : trim cmd.word = cmd.word := by cases cmd <;> rfl
  have hsplit : splitComma (cmd.line a b) = some (cmd.word ++ 32 :: a, b) := splitComma_append b hcomma
  rw [do_command, cstr_of_append h0, Option.bind_some, hscan, Option.bind_some, htrim, dispatch_doc, withParams,
    twoParams, cstr_of_append h0, Option.bind_some, hsplit]
  show ((param (cmd.word ++ 32 :: a)).bind fun param1 => (param b).map fun param2 => some (param1, param2)).bind _ = _
  cases param (cmd.word ++ 32 :: a) with
  | none => rfl
  | some param1 => cases param b <;> rfl

variable {spi}

theorem DocCmd.set_fits (hspi : spi.Succeeds) (cmd : DocCmd) {param1 param2 : Bytes} {s : σ} {r : TagCfgData}
    (hr : readCfg spi s = some r) (h1 : 0 ∉ param1) (h2 : 0 ∉ param2) (hfits : cmd.Fits param1 param2) :
    ∃ s' t r', cmd.set spi param1 param2 s = some (s', t) ∧ readCfg spi s' = some r' ∧
      cmd.Stored param1 param2 r r' := by
  cases cmd with
  | setmqtt =>
    obtain ⟨s', r', hset, hread, hstored⟩ := setMqtt_fits hspi (atoi param2) hr h1 hfits.1
    exact ⟨s', _, r', by rw [DocCmd.set, hset]; rfl, hread, hstored⟩
  | openwifi =>
    obtain ⟨s', r', hset, hread, hstored⟩ := setWifi_fits hspi (f := .apSSID) (g := .apPassword) .ap (by decide) (by decide)
      (by decide) hr h1 h2 hfits.1 hfits.2
    exact ⟨s', _, r', by rw [DocCmd.set, setOpenWifi, hset]; rfl, hread, hstored⟩
  | connectwifi =>
    obtain ⟨s', r', hset, hread, hstored⟩ := setWifi_fits hspi (f := .staSSID) (g := .staPassword) .sta (by decide) (by decide)
      (by decide) hr h1 h2 hfits.1 hfits.2
    exact ⟨s', _, r', by rw [DocCmd.set, setConnectWifi, hset]; rfl, hread, hstored⟩

/-- A documented command leaves in its first field what its `strcpy` left there. -/
theorem DocCmd.set_stored (hspi : spi.Succeeds) (cmd : DocCmd) {param1 param2 : Bytes} {s s' : σ} {t : After}
    (h : cmd.set spi param1 param2 s = some (s', t)) :
    ∃ r r1 r' : TagCfgData, r.strcpy cmd.field1 param1 = some r1 ∧ readCfg spi s' = some r' ∧
      r'.get cmd.field1 = r1.get cmd.field1 := by
  cases cmd with
  | setmqtt =>
    obtain ⟨⟨ret, s''⟩, hset, hout⟩ := Option.map_eq_some_iff.mp h
    obtain rfl : s'' = s' := congrArg Prod.fst hout
    exact setMqtt_stored hspi hset
  | openwifi =>
    obtain ⟨⟨ret, s''⟩, hset, hout⟩ := Option.map_eq_some_iff.mp h
    obtain rfl : s'' = s' := congrArg Prod.fst hout
    exact setWifi_stored hspi (by decide) (by decide) hset
  | connectwifi =>
    obtain ⟨⟨ret, s''⟩, hset, hout⟩ := Option.map_eq_some_iff.mp h
    obtain rfl : s'' = s' := congrArg Prod.fst hout
    exact setWifi_stored hspi (by decide) (by decide) hset

/-- **What the documented lines store**: the whole text in front of the comma, trimmed, in the place of the
first parameter, and otherwise what they should. -/
theorem do_command_stores (hspi : spi.Succeeds) (cmd : DocCmd) {a b : Bytes}
    (hab : ∀ c ∈ a ++ b, c ≠ 44 ∧ c ≠ 13 ∧ c ≠ 0) (ha : (cmd.word ++ 32 :: a).length < 150) (hb : b.length < 150)
    (hfits : cmd.Fits (trim (cmd.word ++ 32 :: a)) (trim b)) (rest : Bytes) {s : σ} {r : TagCfgData}
    (hr : readCfg spi s = some r) :
    ∃ s' t r', do_command spi initFactoryCfgFlash (cmd.line a b ++ 0 :: rest) s = some (s', t) ∧
      readCfg spi s' = some r' ∧ cmd.Stored (trim (cmd.word ++ 32 :: a)) (trim b) r r' := by
  have h1 := cmd.noNul_line fun h => (hab 0 (List.mem_append_left _ h)).2.2 rfl
  have h2 : 0 ∉ trim b := fun h => (hab 0 (List.mem_append_right _ (mem_of_mem_trim h))).2.2 rfl
  obtain ⟨s', t, r', hset, hread, hstored⟩ := cmd.set_fits hspi hr h1 h2 hfits
  refine ⟨s', t, r', ?_, hread, hstored⟩
  rw [do_command_params spi initFactoryCfgFlash cmd hab, param, if_pos ha, Option.bind_some, param, if_pos hb,
    Option.bind_some, hset]

/-- **The documented lines never store the documented value**, whatever record was there before: the
handlers get the line from its start on, and the first field is left with the command word in it. -/
theorem do_command_never_stores (hspi : spi.Succeeds) (cmd : DocCmd) {a b : Bytes} (hargs : cmd.Args a b)
    (rest : Bytes) (s : σ) (r : TagCfgData) :
    ¬ ∃ s' t r', do_command spi initFactoryCfgFlash (cmd.line a b ++ 0 :: rest) s = some (s', t) ∧
      readCfg spi s' = some r' ∧ cmd.Stored (trim a) (trim b) r r' := by
  rintro ⟨s', t, r', hrun, hread, hstored⟩
  rw [do_command_params spi initFactoryCfgFlash cmd hargs.chars] at hrun
  obtain ⟨param1, hp1, hrun⟩ := Option.bind_eq_some_iff.mp hrun
  obtain ⟨param2, -, hrun⟩ := Option.bind_eq_some_iff.mp hrun
  obtain rfl := param_eq_some hp1
  obtain ⟨r0, r1, r'', hcpy, hread', hget⟩ := cmd.set_stored hspi hrun
  obtain rfl := Option.some.inj (hread.symm.trans hread')
  have h0 := cmd.noNul_line fun h => (hargs.chars 0 (List.mem_append_left _ h)).2.2 rfl
  have hstr : r'.str cmd.field1 = r1.str cmd.field1 := congrArg cstr hget
  have hval := hstr.symm.trans hstored.field1
  rw [TagCfgData.str_strcpy hcpy h0] at hval
  split_ifs at hval
  have hlen := congrArg List.length (Option.some.inj hval)
  have hlong := trim_line cmd a
  omega

end Lines

/-- A chip with zeros in it. -/
def zeroFlash : ℕ → UInt8 := fun _ => 0

theorem setmqtt_args : DocCmd.Args .setmqtt (ascii "1.2.3.4") (ascii "1883") where
  chars := by decide +kernel
  fits := ⟨by decide +kernel, trivial⟩

theorem do_command_never_stores_nor :
    ¬ ∃ s' t r', do_command norFlash some (DocCmd.line .setmqtt (ascii "1.2.3.4") (ascii "1883") ++ 0 :: [])
        zeroFlash = some (s', t) ∧
      readCfg norFlash s' = some r' ∧ DocCmd.Stored .setmqtt (trim (ascii "1.2.3.4")) (trim (ascii "1883"))
        ⟨List.replicate cfgSize 0, List.length_replicate⟩ r' :=
  do_command_never_stores some norFlash_succeeds .setmqtt setmqtt_args [] zeroFlash _

/-- `setmqtt 1.2.3.4,1883` stores the host `setmqtt 1.2.3.4`. -/
theorem setmqtt_stores_line :
    ¬ ∀ (σ : Type) (spi : SpiFlash σ) (initFactoryCfgFlash : σ → Option σ) (cmd : DocCmd) (a b rest : Bytes) (s : σ)
        (r : TagCfgData), spi.Succeeds → cmd.Args a b → readCfg spi s = some r →
      ∃ s' t r', do_command spi initFactoryCfgFlash (cmd.line a b ++ 0 :: rest) s = some (s', t) ∧
        readCfg spi s' = some r' ∧ cmd.Stored (trim a) (trim b) r r' := by
  intro h
  obtain ⟨r, hcfg⟩ : ∃ r, readCfg norFlash zeroFlash = some r :=
    Option.isSome_iff_exists.mp (by decide +kernel)
  obtain ⟨s', t, r', hrun, hread, hstr, -⟩ :=
    h _ norFlash some .setmqtt (ascii "1.2.3.4") (ascii "1883") [] zeroFlash _ norFlash_succeeds setmqtt_args hcfg
  have hhost : ((do_command norFlash some (DocCmd.line .setmqtt (ascii "1.2.3.4") (ascii "1883") ++ 0 :: [])
      zeroFlash).bind fun out => (readCfg norFlash out.1).bind fun r => r.str .mqtt_host) =
        some (ascii "setmqtt 1.2.3.4") := by
    decide +kernel
  rw [hrun, Option.bind_some, hread, Option.bind_some] at hhost
  have hne : trim (ascii "1.2.3.4") ≠ ascii "setmqtt 1.2.3.4" := by decide +kernel
  exact hne (Option.some.inj (hstr.symm.trans hhost))

end Esp32Base
