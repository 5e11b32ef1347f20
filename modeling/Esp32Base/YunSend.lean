import Esp32Base.MiniData

/-!
# YunSend — the senders of the DTRS connection (hxkong_yun.c)

`iotYunSend`, `actionSignIn`, `actionSetDevInfo` and `actionKeep` pack a parameter and hand
`miniDataCreate` its length through a `uchar`.

* `miniDataCreate_wrap`: the frame holds the first `n % 256` of `n` parameter bytes.
* `senders_decode`: what `miniDataGet` reads back is the packed parameter exactly up to 255 bytes.
-/

namespace Esp32Base

open Lib Lib.Buf

/-! ## EzhTransDevNetProtocol -/

def ezhDNProl_Data : UInt8 := 0
def ezhDNProl_Keep : UInt8 := 2
def ezhDNProl_SignInDev : UInt8 := 4
def ezhDNProl_SetDevInfo : UInt8 := 6

/-! ## The senders -/

/-- `miniDataCreate(n, parm, dst)` with an `int` length, then `hxtcp_send(dst, …)`: the bytes sent from
a destination of `cap` bytes. -/
def createAndSend (n : ℕ) (parm : Bytes) (cap : ℕ) : Option Bytes :=
  (miniDataCreate (UInt8.ofNat n) parm).bind fun f => if f.length ≤ cap then some f else none

/-- A block from `malloc`; its bytes are written before they are read. -/
def malloc (n : ℕ) : Bytes := List.replicate n 0

def iotYunSend (buf : Bytes) (len : ℕ) : Option Bytes :=
  (store (malloc (len + 2)) 0 [ezhDNProl_Data]).bind fun tmpBuf =>
    (load buf 0 len).bind fun b =>
      (store tmpBuf 1 b).bind fun tmpBuf => createAndSend (len + 1) tmpBuf (len + 10)

/-- `memcpy(&param[pos], s, strlen(s)+1); pos += …` for each string in turn. -/
def packStrings : Bytes → ℕ → List Bytes → Option (Bytes × ℕ)
  | param, pos, [] => some (param, pos)
  | param, pos, s :: ss =>
    (store param pos (s ++ [0])).bind fun param => packStrings param (pos + (s.length + 1)) ss

/-- The common body of the senders of strings: `param[500]`, `sendBuf[600]`. -/
def sendStrings (cmd : UInt8) (ss : List Bytes) : Option Bytes :=
  (store (List.replicate 500 0) 0 [cmd]).bind fun param =>
    (packStrings param 1 ss).bind fun (param, pos) => createAndSend pos param 600

def actionSignIn (DPID devUUID : Bytes) : Option Bytes :=
  sendStrings ezhDNProl_SignInDev [DPID, devUUID]

def actionSetDevInfo (CAID devflag devName : Bytes) : Option Bytes :=
  sendStrings ezhDNProl_SetDevInfo [CAID, devflag, devName]

def actionKeep : Option Bytes :=
  (store (List.replicate 10 0) 0 [ezhDNProl_Keep]).bind fun param => createAndSend 1 param 20

/-! ## What arrives -/

/-- `miniDataGet` on the bytes sent reports success with this parameter. -/
def Decodes (sent : Option Bytes) (parameter : Bytes) : Prop :=
  ∃ f r cmd, sent = some f ∧ miniDataGet f f.length = some (r, some cmd) ∧ cmd.parameter = parameter

/-- A command byte and its NUL-terminated strings. -/
def packed (cmd : UInt8) (ss : List Bytes) : Bytes := cmd :: (ss.map (· ++ [0])).flatten

theorem miniDataGet_miniFrame {p : Bytes} (h1 : 1 ≤ p.length) (h2 : p.length < 65536) :
    ∃ cmd, miniDataGet (miniFrame p) (miniFrame p).length = some ((miniFrame p).length, some cmd) ∧
      cmd.parameter = p := by
  have hstep := miniStep_miniFrame h1 h2 []
  rw [List.append_nil] at hstep
  have hlen : 4 ≤ (miniFrame p).length := by
    rw [miniFrame, List.length_append, List.length_append, miniHead, List.length_cons]
    split_ifs <;> simp only [List.length_cons, List.length_nil] <;> omega
  obtain ⟨r, hr, hcase⟩ := miniDataGet_cases (miniFrame p) [] (by rw [List.append_nil]; exact hlen)
  rw [List.append_nil] at hr
  have hhead : ∃ q, miniFrame p = 0xAF :: q := ⟨_, by rw [miniFrame, miniHead, List.cons_append, List.cons_append]⟩
  cases hcase with
  | wait h =>
    rcases h with h | h
    · omega
    · rw [hstep] at h; cases h
  | @noise n h0 hn h =>
    obtain ⟨q, hq⟩ := hhead
    obtain ⟨n, rfl⟩ : ∃ k, n = k + 1 := ⟨n - 1, by omega⟩
    rw [hq, List.take_succ_cons] at h
    exact absurd (List.mem_cons_self ..) h
  | skip h _ => rw [hstep] at h; simp at h
  | early hx _ => rw [hx] at hlen; simp at hlen
  | @frame n cmd h0 hn hp h =>
    rw [hstep] at h
    simp only [Option.some.injEq, Prod.mk.injEq] at h
    have hge : (miniFrame p).length ≤ n := List.drop_eq_nil_iff.mp h.2.symm
    refine ⟨cmd, ?_, h.1.symm⟩
    rw [hr, show n = (miniFrame p).length by omega]

/-- The length passes through a `uchar`: only `n % 256` of the `n` parameter bytes are framed. -/
theorem miniDataCreate_wrap {p : Bytes} (rest : Bytes) :
    miniDataCreate (UInt8.ofNat p.length) (p ++ rest) =
      some (if p.length % 256 = 0 then [] else miniFrame (p.take (p.length % 256))) := by
  have hof : UInt8.ofNat p.length = UInt8.ofNat (p.length % 256) := by
    rw [← UInt8.toNat_inj, UInt8.toNat_ofNat', UInt8.toNat_ofNat']
    omega
  by_cases h0 : p.length % 256 = 0
  · rw [if_pos h0, hof, h0]
    rfl
  · have hk : (p.take (p.length % 256)).length = p.length % 256 := by
      rw [List.length_take]
      omega
    have hcreate := miniDataCreate_eq (p := p.take (p.length % 256)) (by omega) (by omega)
    have hn : (UInt8.ofNat (p.length % 256)).toNat = p.length % 256 := by
      rw [UInt8.toNat_ofNat']
      omega
    rw [if_neg h0, hof, ← hcreate, hk]
    unfold miniDataCreate
    rw [hn, load_append rest (by omega), load_of_le (by omega), load_of_le (by omega)]
    simp only [List.drop_zero, List.take_take, Nat.min_self]

/-- **The wrap decides**: the frame of a packed parameter of `n ≥ 1` bytes decodes to it iff `n ≤ 255`. -/
theorem decodes_createAndSend {p : Bytes} (rest : Bytes) (cap : ℕ) (h1 : 1 ≤ p.length)
    (hcap : min p.length 255 + 5 ≤ cap) :
    Decodes (createAndSend p.length (p ++ rest) cap) p ↔ p.length ≤ 255 := by
  unfold createAndSend
  rw [miniDataCreate_wrap, Option.bind_some]
  by_cases h0 : p.length % 256 = 0
  · rw [if_pos h0, if_pos (show ([] : Bytes).length ≤ cap from Nat.zero_le _)]
    refine ⟨?_, fun h => by omega⟩
    rintro ⟨f, r, cmd, hf, hget, -⟩
    obtain rfl := Option.some.inj hf
    simp [miniDataGet] at hget
  · have hk : (p.take (p.length % 256)).length = p.length % 256 := by
      rw [List.length_take]
      omega
    have hfit := miniFrame_length (p.take (p.length % 256))
    rw [if_neg h0, if_pos (by omega)]
    obtain ⟨cmd, hget, hcmd⟩ := miniDataGet_miniFrame (p := p.take (p.length % 256)) (by omega) (by omega)
    constructor
    · rintro ⟨f, r, cmd', hf, hget', hp⟩
      obtain rfl := Option.some.inj hf
      rw [hget] at hget'
      simp only [Option.some.injEq, Prod.mk.injEq] at hget'
      rw [← hget'.2, hcmd] at hp
      have := congrArg List.length hp
      rw [hk] at this
      omega
    · intro h
      refine ⟨_, _, cmd, rfl, hget, ?_⟩
      rw [hcmd, Nat.mod_eq_of_lt (by omega), List.take_length]

/-! ## The three senders -/

/-- Strings are packed one behind the other while they fit. -/
theorem packStrings_eq : ∀ (ss : List Bytes) (pre rest : Bytes),
    (ss.map (· ++ [0])).flatten.length ≤ rest.length →
    packStrings (pre ++ rest) pre.length ss =
      some (pre ++ (ss.map (· ++ [0])).flatten ++ rest.drop (ss.map (· ++ [0])).flatten.length,
        (pre ++ (ss.map (· ++ [0])).flatten).length)
  | [], pre, rest, _ => by simp [packStrings]
  | s :: ss, pre, rest, h => by
    rw [List.map_cons, List.flatten_cons, List.length_append] at h
    have hrec := packStrings_eq ss (pre ++ (s ++ [0])) (rest.drop (s ++ [0]).length)
      (by rw [List.length_drop]; omega)
    rw [packStrings, store_append (by omega), Option.bind_some,
      show pre.length + (s.length + 1) = (pre ++ (s ++ [0])).length by simp, hrec]
    simp [List.append_assoc, Nat.add_assoc, Nat.add_comm 1]

/-- A sender of strings is `miniDataCreate` on the packed parameter. -/
theorem sendStrings_eq (cmd : UInt8) (ss : List Bytes) (h : (packed cmd ss).length ≤ 500) :
    ∃ rest, sendStrings cmd ss = createAndSend (packed cmd ss).length (packed cmd ss ++ rest) 600 := by
  rw [packed, List.length_cons] at h
  have hz : (List.replicate 500 (0 : UInt8)) = [0] ++ List.replicate 499 0 := rfl
  have hst : store (List.replicate 500 0) 0 [cmd] = some ([cmd] ++ List.replicate 499 0) := by
    rw [store_of_le (by rw [List.length_replicate]; simp), hz]
    rfl
  have hpack := packStrings_eq ss [cmd] (List.replicate 499 0) (by rw [List.length_replicate]; omega)
  refine ⟨(List.replicate 499 0).drop (ss.map (· ++ [0])).flatten.length, ?_⟩
  unfold sendStrings
  rw [hst, Option.bind_some, show 1 = [cmd].length from rfl, hpack]
  rfl

theorem decodes_sendStrings {cmd : UInt8} {ss : List Bytes} (h : (packed cmd ss).length ≤ 500) :
    Decodes (sendStrings cmd ss) (packed cmd ss) ↔ (packed cmd ss).length ≤ 255 := by
  obtain ⟨rest, hrest⟩ := sendStrings_eq cmd ss h
  rw [hrest]
  exact decodes_createAndSend rest 600 (by simp [packed]) (by omega)

theorem decodes_iotYunSend {buf : Bytes} {len : ℕ} (h : len ≤ buf.length) :
    Decodes (iotYunSend buf len) (ezhDNProl_Data :: buf.take len) ↔ len ≤ 254 := by
  have hl : (ezhDNProl_Data :: buf.take len).length = len + 1 := by
    rw [List.length_cons, List.length_take]
    omega
  have hst : store (malloc (len + 2)) 0 [ezhDNProl_Data] =
      some ([ezhDNProl_Data] ++ malloc (len + 1)) := by
    rw [store_of_le (by simp [malloc])]
    rfl
  have hload : load buf 0 len = some (buf.take len) := load_of_le (by omega)
  have hlen : (buf.take len).length = len := by
    rw [List.length_take]
    omega
  have hst' : store ([ezhDNProl_Data] ++ malloc (len + 1)) 1 (buf.take len) =
      some ([ezhDNProl_Data] ++ buf.take len ++ (malloc (len + 1)).drop (buf.take len).length) :=
    store_append (p := [ezhDNProl_Data]) (by rw [malloc, List.length_replicate]; omega)
  have hdec := decodes_createAndSend (p := ezhDNProl_Data :: buf.take len)
    ((malloc (len + 1)).drop (buf.take len).length) (len + 10) (by omega) (by omega)
  unfold iotYunSend
  rw [hst, Option.bind_some, hload, Option.bind_some]
  rw [hl] at hdec
  rw [hst', Option.bind_some]
  exact hdec.trans ⟨fun _ => by omega, fun _ => by omega⟩

/-- **What the server decodes is what was packed** exactly while the packed parameter, counted with
its command byte, has at most 255 bytes. -/
theorem senders_decode {buf : Bytes} {len : ℕ} (hbuf : len ≤ buf.length) {DPID devUUID : Bytes}
    (hsign : (packed ezhDNProl_SignInDev [DPID, devUUID]).length ≤ 500) {CAID devflag devName : Bytes}
    (hinfo : (packed ezhDNProl_SetDevInfo [CAID, devflag, devName]).length ≤ 500) :
    (Decodes (iotYunSend buf len) (ezhDNProl_Data :: buf.take len) ↔ len ≤ 254) ∧
    (Decodes (actionSignIn DPID devUUID) (packed ezhDNProl_SignInDev [DPID, devUUID]) ↔
      (packed ezhDNProl_SignInDev [DPID, devUUID]).length ≤ 255) ∧
    (Decodes (actionSetDevInfo CAID devflag devName)
        (packed ezhDNProl_SetDevInfo [CAID, devflag, devName]) ↔
      (packed ezhDNProl_SetDevInfo [CAID, devflag, devName]).length ≤ 255) :=
  ⟨decodes_iotYunSend hbuf, decodes_sendStrings hsign, decodes_sendStrings hinfo⟩

theorem senders_decode_hello :
    (Decodes (iotYunSend (ascii "hello") 5) (ezhDNProl_Data :: (ascii "hello").take 5) ↔ 5 ≤ 254) ∧
    (Decodes (actionSignIn (ascii "dp") (ascii "u")) (packed ezhDNProl_SignInDev [ascii "dp", ascii "u"]) ↔
      (packed ezhDNProl_SignInDev [ascii "dp", ascii "u"]).length ≤ 255) ∧
    (Decodes (actionSetDevInfo (ascii "ca") (ascii "f") (ascii "n"))
        (packed ezhDNProl_SetDevInfo [ascii "ca", ascii "f", ascii "n"]) ↔
      (packed ezhDNProl_SetDevInfo [ascii "ca", ascii "f", ascii "n"]).length ≤ 255) :=
  senders_decode (by decide) (by decide) (by decide)

/-- 255 bytes of data make 256 parameter bytes: the length wraps to zero and nothing is sent. -/
theorem iotYunSend_wraps :
    ¬ ∀ (buf : Bytes) (len : ℕ), len ≤ buf.length → len ≤ 65534 →
      Decodes (iotYunSend buf len) (ezhDNProl_Data :: buf.take len) := by
  intro h
  obtain ⟨f, r, cmd, hf, hget, -⟩ := h (List.replicate 255 7) 255 (by decide +kernel) (by decide)
  have hsent : iotYunSend (List.replicate 255 7) 255 = some [] := by decide +kernel
  rw [hsent] at hf
  obtain rfl := Option.some.inj hf
  simp [miniDataGet] at hget

end Esp32Base
