import Esp32Base.Lib.Mealy
import Esp32Base.Uart.Debug

/-!
# Uart.LineEdit — the debug port as a line editor (trans_data.c)

`editLine` is what the command line is for: characters append, the backspace takes the last one away, the
carriage return submits a line that is not empty.

* `appendKeys_edits`: the copying loop edits the line at the front of the buffer, whatever lies behind it.
* `read_edits`: one read carries out the line editor on its chunk.
* `debug_refines`: the commands of a run are those of the line editor.
-/

namespace Esp32Base

open Lib Lib.Buf

/-- The characters of a line. -/
def Printable (c : UInt8) : Prop := 0x20 ≤ c ∧ c ≤ 0x7E

instance (c : UInt8) : Decidable (Printable c) := inferInstanceAs (Decidable (_ ∧ _))

/-- The reference line editor: the line behind a key, and the lines submitted. -/
def editLine (line : Bytes) (c : UInt8) : Bytes × List Bytes :=
  if c = 0x0D then ([], if line = [] then [] else [line])
  else if c = 0x7F then (line.dropLast, [])
  else if Printable c then (line ++ [c], [])
  else (line, [])

/-- The line lies at the front of the buffer; the bytes behind it are stale. -/
structure Edits (d : DebugCmdline) (line : Bytes) : Prop where
  cmdline : d.g_debugCmdline.length = uartBufSize
  len : d.g_debugCmdlineLen = line.length
  live : d.g_debugCmdline.take line.length = line
  chars : ∀ c ∈ line, Printable c
  fits : line.length < uartBufSize

/-- What is promised of a chunk: no escape, a carriage return at most at its end, and a line that never has more
than 254 characters. -/
structure KeyChunk (line : Bytes) (buf : Bytes) : Prop where
  noEsc : 0x1B ∉ buf
  enter : 0x0D ∉ buf.dropLast
  fits : ∀ keys, keys <+: buf → (mealyRun editLine line keys).1.length < uartBufSize

/-! ## The copying loop -/

/-- What the copying loop keeps, apart from the two control characters, is what the editor appends. -/
theorem printable_iff_kept (c : UInt8) (hcr : c ≠ 0x0D) (hdel : c ≠ 0x7F) : Printable c ↔ Kept c :=
  forall_byte (p := fun c => c ≠ 0x0D → c ≠ 0x7F → (Printable c ↔ Kept c)) (by decide +kernel) c hcr hdel

theorem editLine_plain {line : Bytes} {c : UInt8} (hc : c ≠ 0x0D) : (editLine line c).2 = [] := by
  unfold editLine
  rw [if_neg hc]
  split_ifs <;> rfl

theorem editLine_chars {line : Bytes} (h : ∀ b ∈ line, Printable b) (c : UInt8) :
    ∀ b ∈ (editLine line c).1, Printable b := by
  unfold editLine
  intro b hb
  by_cases hcr : c = 0x0D
  · rw [if_pos hcr] at hb
    exact absurd hb List.not_mem_nil
  rw [if_neg hcr] at hb
  by_cases hdel : c = 0x7F
  · rw [if_pos hdel] at hb
    exact h b (line.dropLast_sublist.subset hb)
  rw [if_neg hdel] at hb
  by_cases hc : Printable c
  · rw [if_pos hc] at hb
    rcases List.mem_append.mp hb with hb | hb
    · exact h b hb
    · rw [List.mem_singleton.mp hb]
      exact hc
  · rw [if_neg hc] at hb
    exact h b hb

theorem mealyRun_chars (keys : Bytes) : ∀ {line : Bytes}, (∀ b ∈ line, Printable b) →
    ∀ b ∈ (mealyRun editLine line keys).1, Printable b := by
  induction keys with
  | nil => exact fun h => h
  | cons c keys ih => exact fun h => ih (editLine_chars h c)

/-- Up to an escape the loop takes the keys one by one. -/
theorem appendKeys_append (b : Bytes) : ∀ (a : Bytes) {m : Bytes} {n : ℕ}, 0x1B ∉ a →
    appendKeys m n (a ++ b) = (appendKeys m n a).bind fun r => appendKeys r.1 r.2 b
  | [], _, _, _ => rfl
  | c :: a, m, n, ha => by
    rw [List.mem_cons, not_or] at ha
    have hesc : c ≠ 0x1B := fun h => ha.1 h.symm
    have hrest : ∀ (m : Bytes) (n : ℕ), appendKeys m n (a ++ b) =
        (appendKeys m n a).bind fun r => appendKeys r.1 r.2 b := fun m n => appendKeys_append b a ha.2
    -- a store that leaves the buffer ends both sides
    have hput : ∀ (o : Option Bytes) (n : ℕ), (o.bind fun m => appendKeys m n (a ++ b)) =
        (o.bind fun m => appendKeys m n a).bind fun r => appendKeys r.1 r.2 b := by
      intro o n
      cases o with
      | none => rfl
      | some m => exact hrest m n
    simp only [List.cons_append, appendKeys, if_neg hesc]
    by_cases hkept : Kept c
    · simp only [if_pos hkept]
      by_cases hdel : c = 0x7F
      · simp only [if_pos hdel]
        by_cases h0 : 0 < n
        · simp only [if_pos h0]
          exact hput _ _
        · simp only [if_neg h0]
          exact hrest m n
      · simp only [if_neg hdel]
        exact hput _ _
    · simp only [if_neg hkept]
      exact hrest m n

/-- **One key** of the loop is one key of the editor. -/
theorem appendKey_edits {line m : Bytes} {c : UInt8} (keys : Bytes) (hm : m.length = uartBufSize)
    (hlive : m.take line.length = line) (hesc : c ≠ 0x1B) (hc : c ≠ 0x0D) (hnow : line.length < uartBufSize) :
    ∃ m₁, appendKeys m line.length (c :: keys) = appendKeys m₁ (editLine line c).1.length keys ∧
      m₁.length = uartBufSize ∧ m₁.take (editLine line c).1.length = (editLine line c).1 := by
  rw [appendKeys, if_neg hesc, editLine, if_neg hc]
  by_cases hdel : c = 0x7F
  · rw [if_pos hdel, if_pos hdel, if_pos (hdel ▸ (by decide : Kept 0x7F))]
    by_cases h0 : 0 < line.length
    · have hst : store m (line.length - 1) [0] = some _ :=
        store_of_le (by rw [List.length_singleton]; omega)
      have htake := store_take_le hst le_rfl
      have hlast : m.take (line.length - 1) = line.dropLast := by
        rw [List.dropLast_eq_take, ← hlive, List.take_take, List.length_take, hm]
        congr 1
        omega
      rw [if_pos h0, hst, Option.bind_some]
      refine ⟨_, by rw [List.length_dropLast], (store_length hst).trans hm, ?_⟩
      rw [List.length_dropLast, htake, hlast]
    · obtain rfl : line = [] := List.eq_nil_of_length_eq_zero (by omega)
      rw [if_neg h0]
      exact ⟨m, rfl, hm, hlive⟩
  · rw [if_neg hdel, if_neg hdel]
    have hprint := printable_iff_kept c hc hdel
    by_cases hk : Kept c
    · have hst : store m line.length [c] = some _ :=
        store_of_le (by rw [List.length_singleton]; omega)
      have htake := store_take hst
      rw [List.length_singleton] at htake
      rw [if_pos hk, if_pos (hprint.mpr hk), hst, Option.bind_some]
      refine ⟨_, by rw [List.length_append, List.length_singleton], (store_length hst).trans hm, ?_⟩
      rw [List.length_append, List.length_singleton, htake, hlive]
    · rw [if_neg hk, if_neg (fun h => hk (hprint.mp h))]
      exact ⟨m, rfl, hm, hlive⟩

/-- **The copying loop** on keys without control characters other than the backspace. -/
theorem appendKeys_edits : ∀ (keys : Bytes) {line m : Bytes}, m.length = uartBufSize → m.take line.length = line →
    0x1B ∉ keys → 0x0D ∉ keys → (∀ k, k <+: keys → (mealyRun editLine line k).1.length < uartBufSize) →
    ∃ m', appendKeys m line.length keys = some (m', (mealyRun editLine line keys).1.length) ∧
      m'.length = uartBufSize ∧
      m'.take (mealyRun editLine line keys).1.length = (mealyRun editLine line keys).1 ∧
      (mealyRun editLine line keys).2 = []
  | [], line, m, hm, hlive, _, _, _ => ⟨m, rfl, hm, hlive, rfl⟩
  | c :: keys, line, m, hm, hlive, hesc, hcr, hfit => by
    rw [List.mem_cons, not_or] at hesc hcr
    have hc : c ≠ 0x0D := fun h => hcr.1 h.symm
    have hnow : line.length < uartBufSize := hfit [] List.nil_prefix
    have hrest : ∀ k, k <+: keys → (mealyRun editLine (editLine line c).1 k).1.length < uartBufSize :=
      fun k hk => hfit (c :: k) (List.cons_prefix_cons.mpr ⟨rfl, hk⟩)
    obtain ⟨m₁, hkey, hm₁, hlive₁⟩ := appendKey_edits keys hm hlive (fun h => hesc.1 h.symm) hc hnow
    obtain ⟨m', happ, hm', hlive', hout⟩ := appendKeys_edits keys hm₁ hlive₁ hesc.2 hcr.2 hrest
    refine ⟨m', by rw [hkey, happ]; rfl, hm', hlive', ?_⟩
    rw [mealyRun, editLine_plain hc, hout]
    rfl

/-! ## One read -/

/-- The buffer without the carriage return that ends the line. -/
theorem cutEnter_enter {line q : Bytes} (h : 0x0D ∉ line) :
    cutEnter (line ++ 0x0D :: q) (line.length + 1) = some (line ++ 0 :: q, line.length, true) := by
  have hst : store (line ++ 0x0D :: q) line.length [0] = some (line ++ 0 :: q) := by
    rw [store_append (by simp)]
    simp
  rw [cutEnter, findByte_of_append q h (Nat.lt_succ_self _), Option.bind_some, if_pos (Nat.lt_succ_self _), hst]
  rfl

section Read

variable {do_command : Bytes → Bytes} (hdo : ∀ m, (do_command m).length = m.length)

/-- A cleared buffer holds the empty line. -/
theorem edits_nil {m m' : Bytes} (hm : m.length = uartBufSize) (h : store m 0 [0] = some m') : Edits ⟨m', 0⟩ [] where
  cmdline := (store_length h).trans hm
  len := rfl
  live := rfl
  chars := fun c hc => absurd hc List.not_mem_nil
  fits := by decide

/-- A line that is typed on: the buffer is left alone, up to a NUL in front of no line. -/
theorem runLine_typing {m line : Bytes} (hm : m.length = uartBufSize) (hlive : m.take line.length = line)
    (hchars : ∀ c ∈ line, Printable c) (hfits : line.length < uartBufSize) :
    ∃ d', runLine do_command m line.length = some (d', []) ∧ Edits d' line := by
  have hno : 0x0D ∉ m.take line.length := by
    rw [hlive]
    exact fun h => absurd (hchars _ h) (by decide)
  have hcut : cutEnter m line.length = some (m, line.length, false) := by
    rw [cutEnter, findByte_of_notMem (by omega) hno, Option.bind_some, if_neg (lt_irrefl _)]
  obtain ⟨c, hc⟩ : ∃ c, m[0]? = some c := ⟨_, List.getElem?_eq_getElem (by rw [hm]; decide)⟩
  unfold runLine
  simp only [hcut, hc, Option.bind_some]
  by_cases h0 : c = 0
  · have hempty : line = [] := by
      cases line with
      | nil => rfl
      | cons b t =>
        have hb : m[0]? = some b := by
          have := congrArg (·[0]?) hlive
          rwa [List.getElem?_take_of_lt (by simp)] at this
        rw [hc, h0, Option.some.injEq] at hb
        exact absurd (hchars b List.mem_cons_self) (by rw [← hb]; decide)
    subst hempty
    have hst : store m 0 [0] = some _ := store_of_le (by rw [hm]; decide)
    rw [if_pos h0, hst]
    exact ⟨_, rfl, edits_nil hm hst⟩
  · rw [if_neg h0]
    exact ⟨⟨m, line.length⟩, rfl, hm, rfl, hlive, hchars, hfits⟩

include hdo

/-- A line that is submitted: the command is the line, whatever lies behind it in the buffer. -/
theorem runLine_enter {line q : Bytes} (hm : (line ++ 0x0D :: q).length = uartBufSize)
    (hchars : ∀ c ∈ line, Printable c) :
    ∃ d', runLine do_command (line ++ 0x0D :: q) (line.length + 1) =
      some (d', if line = [] then [] else [line]) ∧ Edits d' [] := by
  have hno : ∀ b : UInt8, ¬ Printable b → b ∉ line := fun b hb h => hb (hchars b h)
  have hm' : (line ++ 0 :: q).length = uartBufSize := by
    rw [← hm, List.length_append, List.length_append, List.length_cons, List.length_cons]
  unfold runLine
  rw [cutEnter_enter (hno _ (by decide)), Option.bind_some]
  cases line with
  | nil =>
    have hst : store ([] ++ 0 :: q) 0 [0] = some _ := store_of_le (by rw [hm']; decide)
    simp only [List.nil_append, List.getElem?_cons_zero, Option.bind_some, if_true]
    rw [List.nil_append] at hst hm'
    rw [hst]
    exact ⟨_, rfl, edits_nil hm' hst⟩
  | cons b t =>
    have hb : b ≠ 0 := fun h => hno 0 (by decide) (h ▸ List.mem_cons_self)
    have hline : cstr (b :: t ++ 0 :: q) = some (b :: t) := cstr_of_append (hno 0 (by decide)) q
    have hst : store (do_command (b :: t ++ 0 :: q)) 0 [0] = some _ :=
      store_of_le (by rw [hdo, hm']; decide)
    have hhead : (b :: t ++ 0 :: q)[0]? = some b := rfl
    simp only [hhead, Option.bind_some, if_neg hb, if_true, hline, hst, if_neg (List.cons_ne_nil b t)]
    exact ⟨_, rfl, edits_nil ((hdo _).trans hm') hst⟩

/-- **One read** carries out the line editor on its chunk. -/
theorem read_edits {d : DebugCmdline} {line buf : Bytes} (hd : Edits d line) (hb : KeyChunk line buf) :
    ∃ d', uart_debug_read do_command d buf = some (d', (mealyRun editLine line buf).2) ∧
      Edits d' (mealyRun editLine line buf).1 := by
  have hentry : d.entry = line.length := by
    rw [DebugCmdline.entry, hd.len, if_neg (not_le.mpr hd.fits)]
  unfold uart_debug_read
  rw [hentry]
  by_cases hcr : 0x0D ∈ buf
  · -- the carriage return is the last key
    obtain ⟨keys, rfl⟩ : ∃ keys, buf = keys ++ [0x0D] := by
      have hne := List.ne_nil_of_mem hcr
      refine ⟨buf.dropLast, ?_⟩
      rw [← List.dropLast_append_getLast hne, List.mem_append] at hcr
      have hlast := List.mem_singleton.mp (hcr.resolve_left hb.enter)
      rw [hlast, List.dropLast_append_getLast hne]
    have hesc : 0x1B ∉ keys := fun h => hb.noEsc (List.mem_append_left _ h)
    have henter := hb.enter
    rw [List.dropLast_concat] at henter
    have hfits : ∀ k, k <+: keys → (mealyRun editLine line k).1.length < uartBufSize :=
      fun k hk => hb.fits k (hk.trans (List.prefix_append _ _))
    obtain ⟨m, happ, hm, hlive, hquiet⟩ := appendKeys_edits keys hd.cmdline hd.live hesc henter hfits
    have hchars := mealyRun_chars keys hd.chars
    have hroom := hfits keys (List.prefix_refl _)
    rw [mealyRun_append, hquiet]
    set line' := (mealyRun editLine line keys).1
    obtain ⟨q, hq⟩ : ∃ q, store m line'.length [0x0D] = some (line' ++ 0x0D :: q) := by
      have hsplit : m = line' ++ m.drop line'.length := by
        conv_lhs => rw [← List.take_append_drop line'.length m, hlive]
      refine ⟨(m.drop line'.length).drop 1, ?_⟩
      conv_lhs => rw [hsplit]
      rw [store_append (by rw [List.length_singleton, List.length_drop, hm]; omega)]
      simp
    have hlast : appendKeys m line'.length [0x0D] = some (line' ++ 0x0D :: q, line'.length + 1) := by
      rw [appendKeys, if_neg (by decide), if_pos (by decide), if_neg (by decide), hq]
      rfl
    obtain ⟨d', hrun, hd'⟩ := runLine_enter hdo ((store_length hq).trans hm) hchars
    have hsubmit : (mealyRun editLine line' [0x0D]).2 = if line' = [] then [] else [line'] :=
      List.append_nil _
    rw [appendKeys_append _ keys hesc, happ, Option.bind_some, hlast, Option.bind_some, hrun, hsubmit]
    exact ⟨d', rfl, hd'⟩
  · obtain ⟨m, happ, hm, hlive, hquiet⟩ := appendKeys_edits buf hd.cmdline hd.live hb.noEsc hcr hb.fits
    obtain ⟨d', hrun, hd'⟩ := @runLine_typing do_command _ _ hm hlive (mealyRun_chars buf hd.chars)
      (hb.fits buf (List.prefix_refl _))
    rw [happ, Option.bind_some, hrun, hquiet]
    exact ⟨d', rfl, hd'⟩

end Read

/-! ## Runs -/

theorem edits_zeroed : Edits .zeroed [] :=
  ⟨List.length_replicate, rfl, rfl, fun c hc => absurd hc List.not_mem_nil, by decide⟩

/-- **The debug port is a line editor**: for keys without an escape, in chunks with a carriage return at most at
their end, and a line that never has more than 254 characters, the commands are the lines submitted. -/
theorem debug_refines {do_command : Bytes → Bytes} (hdo : ∀ m, (do_command m).length = m.length) {cs : List Bytes}
    (hesc : 0x1B ∉ cs.flatten) (henter : ∀ c ∈ cs, 0x0D ∉ c.dropLast)
    (hfits : ∀ keys, keys <+: cs.flatten → (mealyRun editLine [] keys).1.length ≤ 254) :
    ∃ d', runChunks (uart_debug_read do_command) .zeroed cs = some (d', (mealyRun editLine [] cs.flatten).2) := by
  have hread : ∀ d line buf, Edits d line → KeyChunk line buf →
      ∃ d', uart_debug_read do_command d buf = some (d', (mealyRun editLine line buf).2) ∧
        Edits d' (mealyRun editLine line buf).1 := fun _ _ _ hd hb => read_edits hdo hd hb
  obtain ⟨d', hrun, -⟩ := runChunks_simulates Edits KeyChunk hread cs edits_zeroed (fun pre c post hcs => by
      subst hcs
      rw [List.flatten_append, List.flatten_cons] at hesc hfits
      refine ⟨fun h => hesc ?_, henter c (by simp), fun keys hk => ?_⟩
      · exact List.mem_append_right _ (List.mem_append_left _ h)
      · have h := hfits (pre.flatten ++ keys)
          ((List.prefix_append_right_inj _).mpr (hk.trans (List.prefix_append _ _)))
        rw [mealyRun_append] at h
        exact Nat.lt_succ_of_le h)
  exact ⟨d', hrun⟩

/-- A typing error in the second command. -/
theorem debug_refines_twice :
    ∃ d', runChunks (uart_debug_read fun m => m.map fun _ => 42) .zeroed
        [ascii "restart\r", ascii "hx", [0x7F], ascii "elp", [0x0D]] =
      some (d', (mealyRun editLine [] [ascii "restart\r", ascii "hx", [0x7F], ascii "elp", [0x0D]].flatten).2) :=
  debug_refines (fun m => List.length_map ..) (by decide +kernel) (by decide +kernel) (fun keys hk => by
    have hall : ∀ n < 16, (mealyRun editLine []
        (([ascii "restart\r", ascii "hx", [0x7F], ascii "elp", [0x0D]].flatten).take n)).1.length ≤ 254 := by
      decide +kernel
    have hlen := hk.length_le
    rw [List.prefix_iff_eq_take.mp hk]
    exact hall _ (by
      have h15 : [ascii "restart\r", ascii "hx", [0x7F], ascii "elp", [0x0D]].flatten.length = 15 := by decide +kernel
      omega))

end Esp32Base
