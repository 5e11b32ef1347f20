import Esp32Base.Lib.Framer
import Esp32Base.Lib.CText

/-!
# Uart.Debug — the command line on the debug port, and the RS-485 port (trans_data.c)

`uart_debug_read` edits `g_debugCmdline` in place and hands the line to `do_command` at a carriage return.
The buffer holds bytes of earlier commands behind the line and no NUL at its end while it is typed.

* `debug_inside_iff`, `uart1_inside_iff`: when one read stays inside its buffer.
* `uart_inside_iff`: when all reads of a run do.
-/

namespace Esp32Base

open Lib Lib.Buf

/-- `g_debugCmdline` and `g_debugCmdlineLen`. -/
structure DebugCmdline where
  g_debugCmdline : Bytes
  g_debugCmdlineLen : ℕ

/-- The size of `g_debugCmdline`, and of `g_recvUart1Buf`. -/
def uartBufSize : ℕ := 255

def DebugCmdline.zeroed : DebugCmdline := ⟨List.replicate uartBufSize 0, 0⟩

/-- The characters that are kept: the printable ones, the backspace 127 and the carriage return. -/
def Kept (c : UInt8) : Prop := 32 ≤ c ∧ c ≤ 127 ∨ c = 0x0D

instance (c : UInt8) : Decidable (Kept c) := inferInstanceAs (Decidable (_ ∨ _))

/-- The copying loop, up to an escape. -/
def appendKeys : Bytes → ℕ → Bytes → Option (Bytes × ℕ)
  | cmdline, len, [] => some (cmdline, len)
  | cmdline, len, c :: buf =>
    if c = 0x1B then some (cmdline, len)
    else if Kept c then
      if c = 0x7F then
        if 0 < len then (store cmdline (len - 1) [0]).bind fun cmdline => appendKeys cmdline (len - 1) buf
        else appendKeys cmdline len buf
      else (store cmdline len [c]).bind fun cmdline => appendKeys cmdline (len + 1) buf
    else appendKeys cmdline len buf

/-- The search for a carriage return, which ends the line: the buffer, its length and `isEnter`. -/
def cutEnter (cmdline : Bytes) (len : ℕ) : Option (Bytes × ℕ × Bool) :=
  (findByte 0x0D cmdline len).bind fun i =>
    if i < len then (store cmdline i [0]).map fun cmdline => (cmdline, i, true) else some (cmdline, len, false)

/-- The length at which a read starts: a full line is dropped. -/
def DebugCmdline.entry (d : DebugCmdline) : ℕ := if uartBufSize ≤ d.g_debugCmdlineLen then 0 else d.g_debugCmdlineLen

/-- What follows the copying: the buffer, and the line handed to `do_command`, which writes into the buffer,
too: `do_command` is what it leaves there. -/
def runLine (do_command : Bytes → Bytes) (cmdline : Bytes) (len : ℕ) : Option (DebugCmdline × List Bytes) :=
  (cutEnter cmdline len).bind fun (cmdline, len, isEnter) =>
    (cmdline[0]?).bind fun c =>
      if c = 0 then (store cmdline 0 [0]).map fun cmdline => (⟨cmdline, 0⟩, [])
      else if isEnter then
        (cstr cmdline).bind fun line =>
          (store (do_command cmdline) 0 [0]).map fun cmdline => (⟨cmdline, 0⟩, [line])
      else some (⟨cmdline, len⟩, [])

/-- One read: the buffer and the lines handed to `do_command`. -/
def uart_debug_read (do_command : Bytes → Bytes) (d : DebugCmdline) (buf : Bytes) :
    Option (DebugCmdline × List Bytes) :=
  (appendKeys d.g_debugCmdline d.entry buf).bind fun r => runLine do_command r.1 r.2

/-- `g_recvUart1Buf` and `g_recvUart1BufLen`. -/
structure Uart1Buf where
  g_recvUart1Buf : Bytes
  g_recvUart1BufLen : ℕ

def Uart1Buf.zeroed : Uart1Buf := ⟨List.replicate uartBufSize 0, 0⟩

/-- One read, with what is published when there is an MQTT client. -/
def uart1_read (g_mqttClient : Bool) (u : Uart1Buf) (buf : Bytes) : Option (Uart1Buf × List Bytes) :=
  (store u.g_recvUart1Buf u.g_recvUart1BufLen buf).map fun m =>
    let len := u.g_recvUart1BufLen + buf.length
    (⟨m, len⟩, if 0 < len ∧ g_mqttClient then [ascii "123"] else [])

/-! ## Staying inside the buffers -/

/-- The line, of `len` characters before, has at most 255 while the chunk is edited into it. -/
def LineFits : ℕ → Bytes → Prop
  | _, [] => True
  | len, c :: buf =>
    if c = 0x1B then True
    else if Kept c then
      if c = 0x7F then LineFits (len - 1) buf else len < uartBufSize ∧ LineFits (len + 1) buf
    else LineFits len buf

instance LineFits.dec : ∀ (len : ℕ) (buf : Bytes), Decidable (LineFits len buf)
  | _, [] => .isTrue trivial
  | len, c :: buf =>
    have := LineFits.dec (len - 1) buf
    have := LineFits.dec (len + 1) buf
    have := LineFits.dec len buf
    inferInstanceAs (Decidable (if c = 0x1B then True
      else if Kept c then
        if c = 0x7F then LineFits (len - 1) buf else len < uartBufSize ∧ LineFits (len + 1) buf
      else LineFits len buf))

/-- The buffer has its size and the line lies in it. -/
structure DebugCmdline.Wf (d : DebugCmdline) : Prop where
  cmdline : d.g_debugCmdline.length = uartBufSize
  len : d.g_debugCmdlineLen ≤ uartBufSize

structure Uart1Buf.Wf (u : Uart1Buf) : Prop where
  buf : u.g_recvUart1Buf.length = uartBufSize
  len : u.g_recvUart1BufLen ≤ uartBufSize

/-- **The copying loop** stays inside the buffer iff the line fits. -/
theorem appendKeys_inside : ∀ (buf : Bytes) {m : Bytes} {n : ℕ}, m.length = uartBufSize → n ≤ uartBufSize →
    (LineFits n buf → ∃ m' n', appendKeys m n buf = some (m', n') ∧ m'.length = uartBufSize ∧ n' ≤ uartBufSize) ∧
      (¬ LineFits n buf → appendKeys m n buf = none)
  | [], m, n, hm, hn => ⟨fun _ => ⟨m, n, rfl, hm, hn⟩, fun h => absurd trivial h⟩
  | c :: buf, m, n, hm, hn => by
    rw [LineFits, appendKeys]
    by_cases hesc : c = 0x1B
    · rw [if_pos hesc, if_pos hesc]
      exact ⟨fun _ => ⟨m, n, rfl, hm, hn⟩, fun h => absurd trivial h⟩
    rw [if_neg hesc, if_neg hesc]
    by_cases hkept : Kept c
    swap
    · rw [if_neg hkept, if_neg hkept]
      exact appendKeys_inside buf hm hn
    rw [if_pos hkept, if_pos hkept]
    by_cases hdel : c = 0x7F
    · rw [if_pos hdel, if_pos hdel]
      by_cases h0 : 0 < n
      · obtain ⟨m', hst⟩ : ∃ m', store m (n - 1) [0] = some m' :=
          ⟨_, store_of_le (by rw [List.length_singleton]; omega)⟩
        rw [if_pos h0, hst, Option.bind_some]
        exact appendKeys_inside buf ((store_length hst).trans hm) (by omega)
      · obtain rfl : n = 0 := by omega
        rw [if_neg h0]
        exact appendKeys_inside buf hm hn
    · rw [if_neg hdel, if_neg hdel]
      by_cases hroom : n < uartBufSize
      · obtain ⟨m', hst⟩ : ∃ m', store m n [c] = some m' :=
          ⟨_, store_of_le (by rw [List.length_singleton]; omega)⟩
        rw [hst, Option.bind_some, and_iff_right hroom]
        exact appendKeys_inside buf ((store_length hst).trans hm) hroom
      · have hout : store m n [c] = none := if_neg (by rw [List.length_singleton]; omega)
        rw [hout, Option.bind_none]
        exact ⟨fun h => absurd h.1 hroom, fun _ => rfl⟩

/-- A read keeps to the buffer: it is defined, and leaves the buffer and the length in range. -/
def DebugInside (do_command : Bytes → Bytes) (d : DebugCmdline) (buf : Bytes) : Prop :=
  ∃ d' out, uart_debug_read do_command d buf = some (d', out) ∧ d'.Wf

def Uart1Inside (g_mqttClient : Bool) (u : Uart1Buf) (buf : Bytes) : Prop :=
  ∃ u' out, uart1_read g_mqttClient u buf = some (u', out) ∧ u'.Wf

/-- The search never leaves the buffer; a line it ends has a NUL. -/
theorem cutEnter_cases {m : Bytes} {n : ℕ} (h : n ≤ m.length) :
    cutEnter m n = some (m, n, false) ∧ 0x0D ∉ m.take n ∨
      ∃ p q, m = p ++ 0x0D :: q ∧ 0x0D ∉ p ∧ p.length < n ∧ cutEnter m n = some (p ++ 0 :: q, p.length, true) := by
  unfold cutEnter
  rcases findByte_cases (b := 0x0D) h with ⟨hfind, hno⟩ | ⟨p, q, rfl, hp, hlt, hfind⟩
  · left
    rw [hfind, Option.bind_some, if_neg (lt_irrefl n)]
    exact ⟨rfl, hno⟩
  · right
    refine ⟨p, q, rfl, hp, hlt, ?_⟩
    have hst : store (p ++ 0x0D :: q) p.length [0] = some (p ++ 0 :: q) := by
      rw [store_append (by simp)]
      simp
    rw [hfind, Option.bind_some, if_pos hlt, hst]
    rfl

section Reads

variable {do_command : Bytes → Bytes} (hdo : ∀ m, (do_command m).length = m.length)

include hdo

/-- What follows the copying stays inside the buffer. -/
theorem runLine_inside {m : Bytes} {n : ℕ} (hm : m.length = uartBufSize) (hn : n ≤ uartBufSize) :
    ∃ d' out, runLine do_command m n = some (d', out) ∧ d'.Wf := by
  unfold runLine
  have hclear : ∀ b : Bytes, b.length = uartBufSize → ∃ b', store b 0 [0] = some b' ∧ b'.length = uartBufSize := by
    intro b hb
    have hst : store b 0 [0] = some _ := store_of_le (by rw [hb]; decide)
    exact ⟨_, hst, (store_length hst).trans hb⟩
  have hhead : ∀ b : Bytes, b.length = uartBufSize → ∃ c, b[0]? = some c := by
    intro b hb
    exact ⟨_, List.getElem?_eq_getElem (by rw [hb]; decide)⟩
  rcases cutEnter_cases (m := m) (n := n) (by omega) with ⟨hcut, -⟩ | ⟨p, q, rfl, -, hlt, hcut⟩
  · obtain ⟨c, hc⟩ := hhead m hm
    simp only [hcut, hc, Option.bind_some]
    by_cases h0 : c = 0
    · obtain ⟨b', hst, hb'⟩ := hclear m hm
      rw [if_pos h0, hst]
      exact ⟨_, _, rfl, hb', Nat.zero_le _⟩
    · rw [if_neg h0]
      exact ⟨⟨m, n⟩, [], rfl, hm, hn⟩
  · have hm' : (p ++ 0 :: q).length = uartBufSize := by
      rw [← hm, List.length_append, List.length_append, List.length_cons, List.length_cons]
    obtain ⟨c, hc⟩ := hhead _ hm'
    simp only [hcut, hc, Option.bind_some, if_true]
    by_cases h0 : c = 0
    · obtain ⟨b', hst, hb'⟩ := hclear _ hm'
      rw [if_pos h0, hst]
      exact ⟨_, _, rfl, hb', Nat.zero_le _⟩
    · have hline : cstr (p ++ 0 :: q) = some ((p ++ 0 :: q).takeWhile (· ≠ 0)) := if_pos (by simp)
      obtain ⟨b', hst, hb'⟩ := hclear (do_command (p ++ 0 :: q)) ((hdo _).trans hm')
      rw [if_neg h0, hline, Option.bind_some, hst]
      exact ⟨_, _, rfl, hb', Nat.zero_le _⟩

/-- **One read of the debug port** stays inside the buffer iff the line fits. -/
theorem debug_inside_iff {d : DebugCmdline} (hd : d.Wf) (buf : Bytes) :
    DebugInside do_command d buf ↔ LineFits d.entry buf := by
  have hentry : d.entry ≤ uartBufSize := by
    have := hd.len
    unfold DebugCmdline.entry
    split_ifs <;> omega
  obtain ⟨hin, hout⟩ := appendKeys_inside buf hd.cmdline hentry
  constructor
  · rintro ⟨d', out, h, -⟩
    by_contra hno
    rw [uart_debug_read, hout hno] at h
    cases h
  · intro hfit
    obtain ⟨m', n', happ, hm', hn'⟩ := hin hfit
    obtain ⟨d', out, hrest, hd'⟩ := runLine_inside hdo hm' hn'
    exact ⟨d', out, by rw [uart_debug_read, happ, Option.bind_some, hrest], hd'⟩

end Reads

/-- **One read of the RS-485 port** stays inside the buffer iff what was read fits. -/
theorem uart1_inside_iff (g_mqttClient : Bool) {u : Uart1Buf} (hu : u.Wf) (buf : Bytes) :
    Uart1Inside g_mqttClient u buf ↔ u.g_recvUart1BufLen + buf.length ≤ uartBufSize := by
  constructor
  · rintro ⟨u', out, h, -⟩
    obtain ⟨m, hst, -⟩ := Option.map_eq_some_iff.mp h
    have hle := (store_eq_some hst).1
    rwa [hu.buf] at hle
  · intro hle
    have hst : store u.g_recvUart1Buf u.g_recvUart1BufLen buf = some _ := store_of_le (by rw [hu.buf]; exact hle)
    obtain ⟨u', out, hread, rfl⟩ : ∃ u' out, uart1_read g_mqttClient u buf = some (u', out) ∧
        u' = ⟨_, u.g_recvUart1BufLen + buf.length⟩ := ⟨_, _, by rw [uart1_read, hst]; rfl, rfl⟩
    exact ⟨_, out, hread, (store_length hst).trans hu.buf, hle⟩

theorem debug_zeroed_wf : DebugCmdline.zeroed.Wf := ⟨List.length_replicate, Nat.zero_le _⟩
theorem uart1_zeroed_wf : Uart1Buf.zeroed.Wf := ⟨List.length_replicate, Nat.zero_le _⟩

/-- Nothing but the reads changes how much of the RS-485 buffer is filled. -/
theorem uart1_fits_iff (g_mqttClient : Bool) : ∀ (ds : List Bytes) {u : Uart1Buf}, u.Wf →
    (AlongRun (uart1_read g_mqttClient) (fun u buf => u.g_recvUart1BufLen + buf.length ≤ uartBufSize) u ds ↔
      ds = [] ∨ u.g_recvUart1BufLen + ds.flatten.length ≤ uartBufSize)
  | [], _, _ => ⟨fun _ => Or.inl rfl, fun _ => trivial⟩
  | buf :: ds, u, hu => by
    rw [List.flatten_cons, List.length_append, or_iff_right (by simp), ← Nat.add_assoc]
    constructor
    · rintro ⟨hle, hrest⟩
      obtain ⟨u', out, hread, hu'⟩ := (uart1_inside_iff g_mqttClient hu buf).mpr hle
      obtain ⟨m, -, hu₁⟩ := Option.map_eq_some_iff.mp hread
      obtain ⟨rfl, -⟩ := Prod.mk.inj hu₁
      rcases (uart1_fits_iff g_mqttClient ds hu').mp (hrest _ _ hread) with rfl | h
      · exact hle
      · exact h
    · intro h
      have hle : u.g_recvUart1BufLen + buf.length ≤ uartBufSize := by omega
      refine ⟨hle, fun u₁ out h₁ => ?_⟩
      obtain ⟨u', out', hread, hu'⟩ := (uart1_inside_iff g_mqttClient hu buf).mpr hle
      obtain ⟨rfl, -⟩ := Prod.mk.inj (Option.some.inj (hread.symm.trans h₁))
      refine (uart1_fits_iff g_mqttClient ds hu').mpr (Or.inr ?_)
      obtain ⟨m, -, hu₁⟩ := Option.map_eq_some_iff.mp hread
      obtain ⟨rfl, -⟩ := Prod.mk.inj hu₁
      exact h

end Esp32Base
