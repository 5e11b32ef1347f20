import Esp32Base.Lib.Carries
import Esp32Base.YunConn

/-!
# Uart.Mini — the frames of the second UART (trans_data.c)

`uart2_read` stores every byte and parses at `0xFA` bytes only; at 254 bytes the buffer is emptied, whatever
waits in it.

* `uart2_kept`: whatever arrives, the buffer and the subtraction stay in range.
* `read_item`: a frame that is not cut by the emptying is reported.
* `not_carries_behind`: what is left of a frame that was cut cannot make up for it.
* `uart2_frames_iff`: the frames of a stream are reported, all of them and once each, iff none is cut.
-/

namespace Esp32Base

open Lib Lib.Buf

/-- `g_cache` and `g_len`. -/
structure MiniPort where
  g_cache : Bytes
  g_len : ℕ

def MiniPort.zeroed : MiniPort := ⟨List.replicate 255 0, 0⟩

/-- The conversion to `unsigned short`. -/
def ushort (n : ℤ) : ℕ := (n % 65536).toNat

/-- The loop at `_nnc`; one unit of fuel an iteration. The parameters of the frames that are reported. -/
def uart2Nnc : ℕ → Bytes → ℕ → Option (MiniPort × List Bytes)
  | 0, _, _ => none
  | fuel + 1, g_cache, g_len =>
    (miniDataGet g_cache g_len).bind fun (tmp, cmd) =>
      let out := (cmd.map TzhMiniData.parameter).toList
      if 0 < tmp then
        let g_len := ushort (g_len - tmp)
        (moveDown g_cache 0 tmp g_len).bind fun g_cache =>
          (uart2Nnc fuel g_cache g_len).map fun r => (r.1, out ++ r.2)
      else some (⟨g_cache, g_len⟩, out)

/-- The index at which a byte is stored: a full buffer is emptied. -/
def MiniPort.storeAt (s : MiniPort) : ℕ := if 254 < s.g_len + 1 then 0 else s.g_len

/-- The body of the loop over `buf`. -/
def uart2Byte (s : MiniPort) (c : UInt8) : Option (MiniPort × List Bytes) :=
  (store s.g_cache s.storeAt [c]).bind fun g_cache =>
    let g_len := ushort (s.storeAt + 1)
    if c = 0xFA then uart2Nnc (g_len + 1) g_cache g_len else some (⟨g_cache, g_len⟩, [])

def uart2_read : MiniPort → Bytes → Option (MiniPort × List Bytes)
  | s, [] => some (s, [])
  | s, c :: buf => (uart2Byte s c).bind fun p => (uart2_read p.1 buf).map fun q => (q.1, p.2 ++ q.2)

/-! ## What is claimed of a run, and when -/

/-- A byte keeps the buffer in range: at most 254 bytes wait before and after the parsing, and no subtraction
wraps. -/
structure ByteKept (s : MiniPort) (c : UInt8) : Prop where
  len : s.storeAt + 1 ≤ 254
  takes : c = 0xFA → ∀ g_cache, store s.g_cache s.storeAt [c] = some g_cache →
    NncTakes (s.storeAt + 2) g_cache (s.storeAt + 1)
  kept : ∀ s' out, uart2Byte s c = some (s', out) → s'.g_len ≤ 254

/-- All bytes do. -/
def Uart2Kept : MiniPort → Bytes → Prop
  | _, [] => True
  | s, c :: buf => ByteKept s c ∧ ∀ s' out, uart2Byte s c = some (s', out) → Uart2Kept s' buf

/-- What the sender promises: noise without head and end bytes, and a frame of at most 254 bytes. -/
structure QuietItem (it : Bytes × Bytes) : Prop extends NoisyItem it where
  noEnd : 0xFA ∉ it.1
  short : (miniFrame it.2).length ≤ 254

/-- The buffer is not emptied between the head of the frame and its first `0xFA`, which makes room: the noise in
front leaves the head at its length modulo 254. -/
def HeadKept (it : Bytes × Bytes) : Prop :=
  it.1.length % 254 + ((miniFrame it.2).takeWhile (· ≠ 0xFA)).length + 1 ≤ 254

instance (it : Bytes × Bytes) : Decidable (HeadKept it) := inferInstanceAs (Decidable (_ ≤ _))

/-! ## The loop -/

theorem ushort_of_lt {n : ℕ} (h : n < 65536) : ushort n = n := by
  unfold ushort
  omega

theorem ushort_sub {a b : ℕ} (h : b ≤ a) (ha : a < 65536) : ushort ((a : ℤ) - b) = a - b := by
  unfold ushort
  omega

/-- A piece that stands for a reported parameter. -/
def FramePiece (p f : Bytes) : Prop := ∃ f₀, f = f₀ ++ [0xFA] ∧ p.length + 2 ≤ f₀.length

/-- A step with a message takes a piece that stands for it. -/
theorem framePiece_of_step {x r p : Bytes} (h : miniStep x = some (some p, r)) : ∃ f, x = f ++ r ∧ FramePiece p f := by
  cases x with
  | nil => cases h
  | cons b t =>
    rw [miniStep] at h
    by_cases hb : b ≠ 0xAF
    · rw [if_pos hb] at h
      cases h
    rw [if_neg hb] at h
    obtain ⟨⟨len, n, base⟩, hl, h⟩ := Option.bind_eq_some_iff.mp h
    obtain ⟨hbase, hn, -⟩ := miniLength_base hl
    dsimp only at h
    by_cases h0 : len = 0
    · rw [if_pos h0] at h
      cases h
    rw [if_neg h0] at h
    by_cases hw : (b :: t).length < len + base
    · rw [if_pos hw] at h
      cases h
    rw [if_neg hw] at h
    by_cases hend : (b :: t)[n + len]? = some 0xFA
    swap
    · rw [if_neg hend] at h
      cases h
    rw [if_pos hend] at h
    obtain ⟨hp, rfl⟩ := Prod.mk.inj (Option.some.inj h)
    obtain rfl := Option.some.inj hp
    have hlt : n + len < (b :: t).length := by omega
    refine ⟨(b :: t).take (n + len + 1), (List.take_append_drop _ _).symm, (b :: t).take (n + len), ?_, ?_⟩
    · rw [List.getElem?_eq_getElem hlt, Option.some.injEq] at hend
      rw [← hend]
      exact List.take_succ_eq_append_getElem hlt
    · rw [List.length_take, List.length_take, List.length_drop]
      omega

/-- **The loop**, whatever is in the buffer: it ends, and what it reports and keeps is carried by what was there. -/
theorem uart2Nnc_spec : ∀ (fuel : ℕ) (x rest : Bytes), x.length < fuel → 4 ≤ (x ++ rest).length → x.length < 65536 →
    ∃ x' rest' out, uart2Nnc fuel (x ++ rest) x.length = some (⟨x' ++ rest', x'.length⟩, out) ∧
      (x' ++ rest').length = (x ++ rest).length ∧ x'.length ≤ x.length ∧
      ∀ y ms, Carries FramePiece (x' ++ y) ms → Carries FramePiece (x ++ y) (out ++ ms)
  | 0, _, _, h, _, _ => absurd h (by omega)
  | fuel + 1, x, rest, hf, h4, hmax => by
    obtain ⟨⟨tmp, cmd⟩, hget, hcase⟩ := miniDataGet_cases x rest h4
    have hle := hcase.le
    dsimp only at hle
    -- what this iteration reports is carried by what it takes
    have hpiece : ∀ y ms, Carries FramePiece (x.drop tmp ++ y) ms →
        Carries FramePiece (x ++ y) ((cmd.map TzhMiniData.parameter).toList ++ ms) := by
      have hskip : ∀ y ms, Carries FramePiece (x.drop tmp ++ y) ms → Carries FramePiece (x ++ y) ms := by
        intro y ms h
        have := h.prepend (x.take tmp)
        rwa [← List.append_assoc, List.take_append_drop] at this
      cases hcase with
      | wait => exact hskip
      | noise => exact hskip
      | skip => exact hskip
      | early => exact hskip
      | frame h0 hn hp hstep =>
        intro y ms h
        obtain ⟨f, hx, hf⟩ := framePiece_of_step hstep
        rw [hx, List.append_assoc]
        exact .piece [] hf h
    by_cases h0 : 0 < tmp
    · have hsub := ushort_sub hle hmax
      have hmove := moveDown_drop rest hle
      have hlen : (x.drop tmp).length = x.length - tmp := List.length_drop
      have hsize := moveDown_length hmove
      obtain ⟨x', rest', out, hrun, hl, hx', hcarry⟩ := uart2Nnc_spec fuel (x.drop tmp)
        ((x ++ rest).drop (x.length - tmp)) (by omega) (by rw [hsize]; exact h4) (by omega)
      rw [hlen] at hrun hx'
      refine ⟨x', rest', (cmd.map TzhMiniData.parameter).toList ++ out, ?_, hl.trans hsize, by omega, ?_⟩
      · rw [uart2Nnc, hget, Option.bind_some]
        simp only [if_pos h0, hsub, hmove, Option.bind_some, hrun, Option.map_some]
      · intro y ms h
        rw [List.append_assoc]
        exact hpiece y _ (hcarry y ms h)
    · obtain rfl : tmp = 0 := by omega
      refine ⟨x, rest, (cmd.map TzhMiniData.parameter).toList, ?_, rfl, le_rfl, hpiece⟩
      rw [uart2Nnc, hget, Option.bind_some]
      exact if_neg h0

section Frame

variable {p : Bytes} (h1 : 1 ≤ p.length) (h2 : p.length ≤ 255)

theorem miniFrame_cons (p : Bytes) : ∃ r, miniFrame p = 0xAF :: r := ⟨_, rfl⟩

theorem mem_of_prefix_miniFrame {t : Bytes} (ht : t <+: miniFrame p) (hne : t ≠ []) : ∃ r, t = 0xAF :: r := by
  obtain ⟨b, r, rfl⟩ := List.exists_cons_of_ne_nil hne
  obtain ⟨r', hr'⟩ := miniFrame_cons p
  rw [hr'] at ht
  exact ⟨r, by rw [(List.cons_prefix_cons.mp ht).1]⟩

include h1 h2

/-- A frame cut short is waited for. -/
theorem miniDataGet_cut {t rest : Bytes} (ht : t <+: miniFrame p) (hne : t ≠ []) (hcut : t ≠ miniFrame p)
    (h4 : 4 ≤ (t ++ rest).length) : miniDataGet (t ++ rest) t.length = some (0, none) := by
  obtain ⟨r, hget, hcase⟩ := miniDataGet_cases t rest h4
  have hwait := miniStep_cut h1 (by omega) ht hcut
  rw [hget]
  cases hcase with
  | wait => rfl
  | @noise n h0 _ hno =>
    obtain ⟨t', rfl⟩ := mem_of_prefix_miniFrame ht hne
    rw [show n = (n - 1) + 1 by omega, List.take_succ_cons] at hno
    exact absurd List.mem_cons_self hno
  | skip hstep =>
    rw [hwait] at hstep
    cases hstep
  | early hx =>
    rw [hx] at ht
    exact absurd ht (miniFrame_not_early h2)
  | frame _ _ _ hstep =>
    rw [hwait] at hstep
    cases hstep

/-- A whole frame is reported. -/
theorem miniDataGet_whole {rest : Bytes} (h4 : 4 ≤ (miniFrame p ++ rest).length) :
    ∃ cmd, miniDataGet (miniFrame p ++ rest) (miniFrame p).length = some ((miniFrame p).length, some cmd) ∧
      cmd.parameter = p := by
  obtain ⟨r, hget, hcase⟩ := miniDataGet_cases (miniFrame p) rest h4
  have hfull := miniStep_miniFrame h1 (by omega : p.length < 65536) []
  rw [List.append_nil] at hfull
  rw [hget]
  cases hcase with
  | wait h =>
    rcases h with h | h
    · have : 3 ≤ (miniFrame p).length := by
        unfold miniFrame miniHead
        split_ifs <;> simp only [List.length_append, List.length_cons, List.length_nil] <;> omega
      omega
    · rw [hfull] at h
      cases h
  | @noise n h0 _ hno =>
    obtain ⟨t', ht'⟩ := miniFrame_cons p
    rw [ht', show n = (n - 1) + 1 by omega, List.take_succ_cons] at hno
    exact absurd List.mem_cons_self hno
  | skip hstep =>
    rw [hfull] at hstep
    cases hstep
  | early hx => exact absurd (hx ▸ List.prefix_refl _) (miniFrame_not_early h2)
  | @frame n cmd _ hn _ hstep =>
    rw [hfull] at hstep
    obtain ⟨hp, hr⟩ := Prod.mk.inj (Option.some.inj hstep)
    have hle := List.drop_eq_nil_iff.mp hr.symm
    refine ⟨cmd, by rw [Nat.le_antisymm hn hle], (Option.some.inj hp).symm⟩

end Frame

/-- The noise in front of a frame head is taken first. -/
theorem uart2Nnc_noise {u q : Bytes} (rest : Bytes) {fuel : ℕ} (hu : 0xAF ∉ u) (hne : u ≠ [])
    (h3 : 3 ≤ (u ++ 0xAF :: q).length) (hmax : (u ++ 0xAF :: q).length < 65536) :
    ∃ rest', (0xAF :: q ++ rest').length = (u ++ 0xAF :: q ++ rest).length ∧
      uart2Nnc (fuel + 1) (u ++ 0xAF :: q ++ rest) (u ++ 0xAF :: q).length =
        uart2Nnc fuel (0xAF :: q ++ rest') (0xAF :: q).length := by
  have h0 : 0 < u.length := List.length_pos_iff.mpr hne
  have hfind : findByte 0xAF (u ++ 0xAF :: q ++ rest) (u ++ 0xAF :: q).length = some u.length := by
    rw [List.append_assoc]
    exact findByte_of_append (q ++ rest) hu (by simp)
  have hget : miniDataGet (u ++ 0xAF :: q ++ rest) (u ++ 0xAF :: q).length = some (u.length, none) := by
    rw [miniDataGet, if_neg (by omega), hfind, Option.bind_some, if_pos h0]
  have hle : u.length ≤ (u ++ 0xAF :: q).length := by
    rw [List.length_append]
    omega
  have hmove := moveDown_drop rest hle
  have hsize := moveDown_length hmove
  have hlen : (u ++ 0xAF :: q).length - u.length = (0xAF :: q).length := by
    rw [List.length_append, Nat.add_sub_cancel_left]
  rw [List.drop_left] at hmove hsize
  refine ⟨_, hsize, ?_⟩
  rw [hlen] at hmove
  rw [uart2Nnc, hget, Option.bind_some]
  simp only [if_pos h0, ushort_sub hle hmax, hlen, hmove, Option.bind_some]
  exact Option.map_id'

/-! ## Bytes -/

/-- The live bytes, in a cache of its size. -/
structure Waiting (s : MiniPort) (x : Bytes) : Prop where
  cache : ∃ rest, s.g_cache = x ++ rest ∧ (x ++ rest).length = 255
  len : s.g_len = x.length
  le : x.length ≤ 254

/-- What is left of the live bytes when the next one is stored. -/
def keepLive (x : Bytes) : Bytes := if 254 ≤ x.length then [] else x

theorem keepLive_length {x : Bytes} (h : x.length ≤ 254) : (keepLive x).length = x.length % 254 := by
  unfold keepLive
  split_ifs with hfull
  · rw [Nat.le_antisymm h hfull]
    rfl
  · rw [Nat.mod_eq_of_lt (by omega)]

theorem keepLive_suffix (x : Bytes) : ∃ g, x = g ++ keepLive x := by
  unfold keepLive
  split_ifs
  · exact ⟨x, (List.append_nil x).symm⟩
  · exact ⟨[], rfl⟩

theorem keepLive_of_lt {x : Bytes} (h : x.length < 254) : keepLive x = x := if_neg (by omega)

variable {s : MiniPort} {x : Bytes}

/-- A byte is stored behind what is kept. -/
theorem Waiting.stored (h : Waiting s x) (c : UInt8) :
    s.storeAt = (keepLive x).length ∧ s.storeAt + 1 ≤ 254 ∧
    ∃ rest, store s.g_cache s.storeAt [c] = some (keepLive x ++ [c] ++ rest) ∧
      (keepLive x ++ [c] ++ rest).length = 255 := by
  obtain ⟨⟨rest, hcache, hsize⟩, hlen, hle⟩ := h
  have hat : s.storeAt = (keepLive x).length := by
    rw [MiniPort.storeAt, keepLive, hlen]
    split_ifs <;> first | rfl | omega
  have hle' : (keepLive x).length + 1 ≤ 254 := by
    rw [keepLive_length hle]
    omega
  have htake : s.g_cache.take (keepLive x).length = keepLive x := by
    rw [hcache]
    unfold keepLive
    split_ifs
    · rfl
    · exact List.take_left
  have hst : store s.g_cache (keepLive x).length [c] = some _ :=
    store_of_le (by rw [hcache, hsize, List.length_singleton]; omega)
  have hout := store_length hst
  rw [htake] at hst hout
  rw [hat]
  exact ⟨rfl, hle', _, hst, by rw [hout, hcache, hsize]⟩

theorem ushort_storeAt (h : s.storeAt + 1 ≤ 254) : ushort ((s.storeAt : ℤ) + 1) = s.storeAt + 1 := by
  exact_mod_cast ushort_of_lt (by omega)

/-- A byte that is not an end byte is only stored. -/
theorem byte_plain (h : Waiting s x) {c : UInt8} (hc : c ≠ 0xFA) :
    ∃ s', uart2Byte s c = some (s', []) ∧ Waiting s' (keepLive x ++ [c]) := by
  obtain ⟨hat, hle, rest, hst, hsize⟩ := h.stored c
  have hlen : s.storeAt + 1 = (keepLive x ++ [c]).length := by rw [hat, List.length_append, List.length_singleton]
  refine ⟨⟨keepLive x ++ [c] ++ rest, s.storeAt + 1⟩, ?_, ⟨rest, rfl, hsize⟩, hlen, by omega⟩
  rw [uart2Byte, hst, Option.bind_some]
  simp only [if_neg hc, ushort_storeAt hle]

/-- An end byte starts the loop on what is kept and itself. -/
theorem byte_end (h : Waiting s x) :
    ∃ rest, (keepLive x ++ [0xFA] ++ rest).length = 255 ∧ (keepLive x ++ [0xFA]).length ≤ 254 ∧
      uart2Byte s 0xFA =
        uart2Nnc ((keepLive x ++ [0xFA]).length + 1) (keepLive x ++ [0xFA] ++ rest) (keepLive x ++ [0xFA]).length := by
  obtain ⟨hat, hle, rest, hst, hsize⟩ := h.stored 0xFA
  have hlen : s.storeAt + 1 = (keepLive x ++ [0xFA]).length := by rw [hat, List.length_append, List.length_singleton]
  refine ⟨rest, hsize, hlen ▸ hle, ?_⟩
  rw [uart2Byte, hst, Option.bind_some]
  simp only [if_true, ushort_storeAt hle, hlen]

/-- **One byte**, whatever it is: what is reported and kept is carried by what was there. -/
theorem byte_carries (h : Waiting s x) (c : UInt8) :
    ∃ s' x' out, uart2Byte s c = some (s', out) ∧ Waiting s' x' ∧
      ∀ y ms, Carries FramePiece (x' ++ y) ms → Carries FramePiece (keepLive x ++ ([c] ++ y)) (out ++ ms) := by
  by_cases hc : c = 0xFA
  · subst hc
    obtain ⟨rest, hsize, hle, hbyte⟩ := byte_end h
    obtain ⟨x', rest', out, hrun, hl, hx', hcarry⟩ := uart2Nnc_spec _ (keepLive x ++ [0xFA]) rest (Nat.lt_succ_self _)
      (by omega) (by omega)
    refine ⟨_, x', out, hbyte.trans hrun, ⟨⟨rest', rfl, hl.trans hsize⟩, rfl, hx'.trans hle⟩, fun y ms hy => ?_⟩
    rw [← List.append_assoc]
    exact hcarry y ms hy
  · obtain ⟨s', hbyte, hs'⟩ := byte_plain h hc
    refine ⟨s', _, [], hbyte, hs', fun y ms hy => ?_⟩
    rwa [← List.append_assoc]

/-- **Whatever arrives**, the buffer and the subtraction stay in range. -/
theorem uart2_kept : ∀ (buf : Bytes) {s : MiniPort} {x : Bytes}, Waiting s x → Uart2Kept s buf
  | [], _, _, _ => trivial
  | c :: buf, s, x, h => by
    obtain ⟨s', x', out, hbyte, hs', -⟩ := byte_carries h c
    have hsame : ∀ s₁ out₁, uart2Byte s c = some (s₁, out₁) → s₁ = s' := fun s₁ out₁ h₁ =>
      (Prod.mk.inj (Option.some.inj (h₁.symm.trans hbyte))).1
    obtain ⟨hat, hle, rest, hst, hsize⟩ := h.stored c
    have hlen : s.storeAt + 1 = (keepLive x ++ [c]).length := by rw [hat, List.length_append, List.length_singleton]
    refine ⟨⟨hle, fun _ g_cache hg => ?_, fun s₁ out₁ h₁ => ?_⟩, fun s₁ out₁ h₁ => ?_⟩
    · obtain rfl := Option.some.inj (hst.symm.trans hg)
      rw [hlen]
      exact (nnc_takes _ (keepLive x ++ [c]) rest (by omega) (by omega)).1
    · rw [hsame s₁ out₁ h₁, hs'.len]
      exact hs'.le
    · rw [hsame s₁ out₁ h₁]
      exact uart2_kept buf hs'

/-! ## Streams -/

theorem uart2_read_append (b : Bytes) : ∀ (a : Bytes) (s : MiniPort), uart2_read s (a ++ b) =
    (uart2_read s a).bind fun p => (uart2_read p.1 b).map fun q => (q.1, p.2 ++ q.2)
  | [], s => by
    rw [List.nil_append, uart2_read, Option.bind_some]
    exact Option.map_id'.symm
  | c :: a, s => by
    rw [List.cons_append, uart2_read, uart2_read]
    cases uart2Byte s c with
    | none => rfl
    | some p =>
      rw [Option.bind_some, Option.bind_some, uart2_read_append b a]
      cases uart2_read p.1 a with
      | none => rfl
      | some q =>
        rw [Option.bind_some, Option.map_some, Option.bind_some, Option.map_map]
        simp only [Function.comp_def, List.append_assoc]

/-- The chunks make no difference. -/
theorem runChunks_uart2_read : ∀ (cs : List Bytes) (s : MiniPort), runChunks uart2_read s cs = uart2_read s cs.flatten
  | [], _ => rfl
  | c :: cs, s => by
    rw [List.flatten_cons, uart2_read_append, runChunks]
    refine Option.bind_congr fun p _ => ?_
    rw [runChunks_uart2_read cs]

/-- What a stream makes the port report is carried by what waits and the stream. -/
theorem read_carries : ∀ (buf : Bytes) {s : MiniPort} {x : Bytes}, Waiting s x →
    ∃ s' x' out, uart2_read s buf = some (s', out) ∧ Waiting s' x' ∧ Carries FramePiece (keepLive x ++ buf) out
  | [], s, x, h => ⟨s, x, [], rfl, h, .none _⟩
  | c :: buf, s, x, h => by
    obtain ⟨s₁, x₁, out, hbyte, hs₁, hcarry⟩ := byte_carries h c
    obtain ⟨s', x', out', hread, hs', hrest⟩ := read_carries buf hs₁
    refine ⟨s', x', out ++ out', by rw [uart2_read, hbyte, Option.bind_some, hread]; rfl, hs', ?_⟩
    obtain ⟨g, hg⟩ := keepLive_suffix x₁
    refine hcarry buf out' ?_
    rw [hg, List.append_assoc]
    exact hrest.prepend g

/-- Bytes without an end byte that fit behind what is kept wait there. -/
theorem read_plain : ∀ (buf : Bytes) {s : MiniPort} {x : Bytes}, Waiting s x → 0xFA ∉ buf → buf ≠ [] →
    (keepLive x).length + buf.length ≤ 254 →
    ∃ s', uart2_read s buf = some (s', []) ∧ Waiting s' (keepLive x ++ buf)
  | [], _, _, _, _, hne, _ => absurd rfl hne
  | [c], s, x, h, hno, _, _ => by
    obtain ⟨s₁, hbyte, hs₁⟩ := byte_plain h (fun hc => hno (List.mem_singleton.mpr hc.symm))
    exact ⟨s₁, by rw [uart2_read, hbyte]; rfl, hs₁⟩
  | c :: d :: buf, s, x, h, hno, _, hfit => by
    rw [List.mem_cons, not_or] at hno
    rw [List.length_cons] at hfit
    obtain ⟨s₁, hbyte, hs₁⟩ := byte_plain h (fun hc => hno.1 hc.symm)
    have hkeep : keepLive (keepLive x ++ [c]) = keepLive x ++ [c] :=
      keepLive_of_lt (by rw [List.length_append, List.length_singleton]; rw [List.length_cons] at hfit; omega)
    obtain ⟨s', hread, hs'⟩ := read_plain (d :: buf) hs₁ hno.2 (List.cons_ne_nil d buf)
      (by rw [hkeep, List.length_append, List.length_singleton]; omega)
    rw [hkeep, List.append_assoc] at hs'
    exact ⟨s', by rw [uart2_read, hbyte, Option.bind_some, hread]; rfl, hs'⟩

/-- Noise waits, too; how much of it is its length modulo 254. -/
theorem read_noise : ∀ (noise : Bytes) {s : MiniPort} {x : Bytes}, Waiting s x → 0xAF ∉ x → 0xAF ∉ noise →
    0xFA ∉ noise → ∃ s' x', uart2_read s noise = some (s', []) ∧ Waiting s' x' ∧ 0xAF ∉ x' ∧
      (keepLive x').length = ((keepLive x).length + noise.length) % 254
  | [], s, x, h, hx, _, _ => by
    refine ⟨s, x, rfl, h, hx, ?_⟩
    rw [keepLive_length h.le, List.length_nil, Nat.add_zero, Nat.mod_mod]
  | c :: noise, s, x, h, hx, haf, hfa => by
    rw [List.mem_cons, not_or] at haf hfa
    obtain ⟨s₁, hbyte, hs₁⟩ := byte_plain h (fun hc => hfa.1 hc.symm)
    have hx₁ : 0xAF ∉ keepLive x ++ [c] := by
      obtain ⟨g, hg⟩ := keepLive_suffix x
      rw [List.mem_append, not_or, List.mem_singleton]
      exact ⟨fun hm => hx (hg ▸ List.mem_append_right g hm), haf.1⟩
    obtain ⟨s', x', hread, hs', hx', hlen⟩ := read_noise noise hs₁ hx₁ haf.2 hfa.2
    refine ⟨s', x', by rw [uart2_read, hbyte, Option.bind_some, hread]; rfl, hs', hx', ?_⟩
    rw [hlen, keepLive_length hs₁.le, List.length_append, List.length_singleton, List.length_cons, Nat.mod_add_mod]
    congr 1
    omega

/-! ## Frames -/

section Frame

variable {p : Bytes} (h1 : 1 ≤ p.length) (h2 : p.length ≤ 255)

include h1 h2

/-- An end byte inside a frame: the noise in front of the frame is taken, the frame waits. -/
theorem byte_cut {u t : Bytes} (h : Waiting s x) (hx : keepLive x ++ [0xFA] = u ++ t) (hu : 0xAF ∉ u)
    (ht : t <+: miniFrame p) (hne : 2 ≤ t.length) (hcut : t ≠ miniFrame p) :
    ∃ s', uart2Byte s 0xFA = some (s', []) ∧ Waiting s' t := by
  obtain ⟨rest, hsize, hle, hbyte⟩ := byte_end h
  rw [hx] at hsize hle hbyte
  have htne : t ≠ [] := List.ne_nil_of_length_pos (by omega)
  obtain ⟨t', rfl⟩ := mem_of_prefix_miniFrame ht htne
  rw [List.length_append] at hle
  by_cases hu0 : u = []
  · subst hu0
    have h4 : 4 ≤ (0xAF :: t' ++ rest).length := by
      rw [List.nil_append] at hsize
      omega
    have hget := miniDataGet_cut h1 h2 ht htne hcut h4
    refine ⟨⟨0xAF :: t' ++ rest, (0xAF :: t').length⟩, hbyte.trans ?_, ⟨rest, rfl, hsize⟩, rfl, by omega⟩
    rw [List.nil_append, uart2Nnc, hget]
    rfl
  · have hupos := List.length_pos_iff.mpr hu0
    obtain ⟨rest', hsize', hnnc⟩ := @uart2Nnc_noise u t' rest (u ++ 0xAF :: t').length hu hu0
      (by rw [List.length_append]; omega) (by rw [List.length_append]; omega)
    have h4 : 4 ≤ (0xAF :: t' ++ rest').length := by omega
    have hget := miniDataGet_cut h1 h2 ht htne hcut h4
    refine ⟨⟨0xAF :: t' ++ rest', (0xAF :: t').length⟩, (hbyte.trans hnnc).trans ?_, ⟨rest', rfl, by omega⟩, rfl,
      by omega⟩
    rw [List.length_append, show u.length + (0xAF :: t').length = (u.length + t'.length) + 1 by
      rw [List.length_cons]; omega, uart2Nnc, hget]
    rfl

/-- The last end byte of a frame: it is reported, and nothing waits. -/
theorem byte_whole {u : Bytes} (h : Waiting s x) (hx : keepLive x ++ [0xFA] = u ++ miniFrame p) (hu : 0xAF ∉ u) :
    ∃ s', uart2Byte s 0xFA = some (s', [p]) ∧ Waiting s' [] := by
  obtain ⟨rest, hsize, hle, hbyte⟩ := byte_end h
  rw [hx] at hsize hle hbyte
  have hlen : 4 ≤ (miniFrame p).length := by
    unfold miniFrame miniHead
    split_ifs <;> simp only [List.length_append, List.length_cons, List.length_nil] <;> omega
  -- the frame in front of the buffer
  have hfront : ∀ (rest : Bytes) (fuel : ℕ), (miniFrame p ++ rest).length = 255 → 2 ≤ fuel →
      ∃ s', uart2Nnc fuel (miniFrame p ++ rest) (miniFrame p).length = some (s', [p]) ∧ Waiting s' [] := by
    intro rest fuel hsz hfuel
    obtain ⟨fuel, rfl⟩ : ∃ n, fuel = n + 1 + 1 := ⟨fuel - 2, by omega⟩
    have h4 : 4 ≤ (miniFrame p ++ rest).length := by omega
    obtain ⟨cmd, hget, hparam⟩ := miniDataGet_whole h1 h2 h4
    have hmove := moveDown_drop (x := miniFrame p) rest le_rfl
    have hlen' := moveDown_length hmove
    rw [Nat.sub_self, List.drop_length, List.nil_append, List.drop_zero] at hmove hlen'
    refine ⟨⟨miniFrame p ++ rest, 0⟩, ?_, ⟨miniFrame p ++ rest, rfl, hsz⟩, rfl, Nat.zero_le _⟩
    have hidle : uart2Nnc (fuel + 1) (miniFrame p ++ rest) 0 = some (⟨miniFrame p ++ rest, 0⟩, []) := by
      rw [uart2Nnc, miniDataGet, if_pos (by decide)]
      rfl
    rw [List.length_append] at hsz
    rw [uart2Nnc, hget, Option.bind_some]
    simp only [if_pos (show 0 < (miniFrame p).length by omega), ushort_sub (le_refl (miniFrame p).length) (by omega),
      Nat.sub_self, hmove, Option.bind_some, hidle, Option.map_some, hparam]
    rfl
  by_cases hu0 : u = []
  · subst hu0
    obtain ⟨s', hrun, hs'⟩ := hfront rest _ hsize (by omega : 2 ≤ (miniFrame p).length + 1)
    exact ⟨s', hbyte.trans hrun, hs'⟩
  · obtain ⟨t', ht'⟩ := miniFrame_cons p
    have hupos := List.length_pos_iff.mpr hu0
    rw [List.length_append] at hle
    obtain ⟨rest', hsize', hnnc⟩ := @uart2Nnc_noise u t' rest (u ++ 0xAF :: t').length hu hu0
      (by rw [← ht', List.length_append]; omega) (by rw [← ht', List.length_append]; omega)
    rw [← ht'] at hsize' hnnc
    obtain ⟨s', hrun, hs'⟩ := hfront rest' (u ++ miniFrame p).length (by omega)
      (by rw [List.length_append]; omega)
    exact ⟨s', (hbyte.trans hnnc).trans hrun, hs'⟩

/-- The rest of a frame, behind its part `t` and the noise `u` still in front of it. The induction is on the rest;
at the first end byte the noise goes. -/
theorem read_rest (hshort : (miniFrame p).length ≤ 254) : ∀ (rem : Bytes) {s : MiniPort} {u t : Bytes},
    miniFrame p = t ++ rem → t ≠ [] → rem ≠ [] → 0xAF ∉ u →
    (u = [] ∨ u.length + t.length + (rem.takeWhile (· ≠ 0xFA)).length + 1 ≤ 254) → Waiting s (u ++ t) →
    ∃ s', uart2_read s rem = some (s', [p]) ∧ Waiting s' []
  | [], _, _, _, _, _, hne, _, _, _ => absurd rfl hne
  | c :: rem, s, u, t, hsplit, htne, _, hu, hroom, h => by
    have htlen := List.length_pos_iff.mpr htne
    have hlen := congrArg List.length hsplit
    rw [List.length_append, List.length_cons] at hlen
    have hkeep : keepLive (u ++ t) = u ++ t := by
      refine keepLive_of_lt ?_
      rw [List.length_append]
      rcases hroom with rfl | hroom
      · rw [List.length_nil]
        omega
      · omega
    have hsplit' : miniFrame p = (t ++ [c]) ++ rem := by rw [hsplit, List.append_assoc]; rfl
    by_cases hc : c = 0xFA
    · subst hc
      have hx : keepLive (u ++ t) ++ [0xFA] = u ++ (t ++ [0xFA]) := by rw [hkeep, List.append_assoc]
      by_cases hrem : rem = []
      · subst hrem
        rw [List.append_nil] at hsplit'
        obtain ⟨s', hbyte, hs'⟩ := byte_whole h1 h2 h (hsplit' ▸ hx) hu
        exact ⟨s', by rw [uart2_read, hbyte]; rfl, hs'⟩
      · have hcut : t ++ [0xFA] ≠ miniFrame p := fun he => hrem (List.append_right_eq_self.mp (he ▸ hsplit').symm)
        obtain ⟨s₁, hbyte, hs₁⟩ := byte_cut h1 h2 h hx hu ⟨rem, hsplit'.symm⟩
          (by rw [List.length_append, List.length_singleton]; omega) hcut
        obtain ⟨s', hread, hs'⟩ := read_rest hshort rem (u := []) hsplit' (by simp) hrem List.not_mem_nil (Or.inl rfl) hs₁
        exact ⟨s', by rw [uart2_read, hbyte, Option.bind_some, hread]; rfl, hs'⟩
    · have hrem : rem ≠ [] := by
        rintro rfl
        have hlast := congrArg List.getLast? hsplit'
        rw [List.append_nil, miniFrame, List.getLast?_concat, List.getLast?_concat, Option.some.injEq] at hlast
        exact hc hlast.symm
      obtain ⟨s₁, hbyte, hs₁⟩ := byte_plain h hc
      rw [hkeep, List.append_assoc] at hs₁
      have hroom' : u = [] ∨ u.length + (t ++ [c]).length + (rem.takeWhile (· ≠ 0xFA)).length + 1 ≤ 254 := by
        refine hroom.imp_right fun hroom => ?_
        rw [List.takeWhile_cons, if_pos (by simpa using hc), List.length_cons] at hroom
        rw [List.length_append, List.length_singleton]
        omega
      obtain ⟨s', hread, hs'⟩ := read_rest hshort rem hsplit' (by simp) hrem hu hroom' hs₁
      exact ⟨s', by rw [uart2_read, hbyte, Option.bind_some, hread]; rfl, hs'⟩

end Frame

variable {it : Bytes × Bytes}

/-- **A frame that is not cut** is reported, and nothing waits behind it. -/
theorem read_item (h : Waiting s []) (hit : QuietItem it) (hkept : HeadKept it) :
    ∃ s', uart2_read s (it.1 ++ miniFrame it.2) = some (s', [it.2]) ∧ Waiting s' [] := by
  obtain ⟨s₁, x, hnoise, hs₁, hx, hxlen⟩ := read_noise it.1 h List.not_mem_nil hit.noise hit.noEnd
  obtain ⟨t, ht⟩ := miniFrame_cons it.2
  -- the head of the frame
  obtain ⟨s₂, hhead, hs₂⟩ := byte_plain hs₁ (show (0xAF : UInt8) ≠ 0xFA by decide)
  have hu : 0xAF ∉ keepLive x := by
    obtain ⟨g, hg⟩ := keepLive_suffix x
    exact fun hm => hx (hg ▸ List.mem_append_right g hm)
  have htne : t ≠ [] := by
    rintro rfl
    have h3 : 3 ≤ (miniFrame it.2).length := by
      unfold miniFrame miniHead
      split_ifs <;> simp only [List.length_append, List.length_cons, List.length_nil] <;> omega
    rw [ht, List.length_singleton] at h3
    omega
  have hroom : (keepLive x).length + [(0xAF : UInt8)].length + (t.takeWhile (· ≠ 0xFA)).length + 1 ≤ 254 := by
    have h := hkept
    rw [HeadKept, ht, List.takeWhile_cons, if_pos (by decide), List.length_cons] at h
    rw [hxlen, List.length_singleton, show (keepLive []).length = 0 from rfl, Nat.zero_add]
    omega
  obtain ⟨s', hrest, hs'⟩ := read_rest hit.pos hit.le hit.short t ht (List.cons_ne_nil _ _) htne hu (Or.inr hroom) hs₂
  refine ⟨s', ?_, hs'⟩
  rw [uart2_read_append, hnoise, Option.bind_some, ht, uart2_read, hhead, Option.bind_some, hrest]
  rfl

/-- A frame that is cut: what is reported from there on is carried by what is behind the cut. -/
theorem read_cut (h : Waiting s []) (hit : QuietItem it) (hcut : ¬ HeadKept it) (S : Bytes) :
    ∃ s' out y w, uart2_read s (it.1 ++ (miniFrame it.2 ++ S)) = some (s', out) ∧ y ≠ [] ∧ miniFrame it.2 ++ S = y ++ w ∧
      Carries FramePiece w out := by
  obtain ⟨s₁, x, hnoise, hs₁, -, hxlen⟩ := read_noise it.1 h List.not_mem_nil hit.noise hit.noEnd
  rw [show (keepLive []).length = 0 from rfl, Nat.zero_add] at hxlen
  have hlong : 254 ≤ (keepLive x).length + ((miniFrame it.2).takeWhile (· ≠ 0xFA)).length := by
    rw [HeadKept] at hcut
    omega
  have hlt : (keepLive x).length < 254 := hxlen ▸ Nat.mod_lt _ (by decide)
  -- the part of the frame that fills the buffer has no end byte
  set a := ((miniFrame it.2).takeWhile (· ≠ 0xFA)).take (254 - (keepLive x).length) with ha
  obtain ⟨b, hb⟩ : ∃ b, miniFrame it.2 = a ++ b := by
    obtain ⟨b, hb⟩ := (List.take_prefix _ _).trans (List.takeWhile_prefix (p := (· ≠ 0xFA)) (l := miniFrame it.2))
    exact ⟨b, hb.symm⟩
  have halen : a.length = 254 - (keepLive x).length := by
    rw [ha, List.length_take]
    omega
  have hno : 0xFA ∉ a := fun hm => by
    have := List.mem_takeWhile_imp (List.mem_of_mem_take hm)
    simp at this
  have hne : a ≠ [] := List.ne_nil_of_length_pos (by omega)
  obtain ⟨s₂, hfill, hs₂⟩ := read_plain a hs₁ hno hne (by omega)
  have hfull : keepLive (keepLive x ++ a) = [] := if_pos (by rw [List.length_append]; omega)
  obtain ⟨s', x', out, hread, -, hcarry⟩ := read_carries (b ++ S) hs₂
  rw [hfull, List.nil_append] at hcarry
  refine ⟨s', out, a, b ++ S, ?_, hne, by rw [hb, List.append_assoc], hcarry⟩
  rw [uart2_read_append, hnoise, Option.bind_some, hb, List.append_assoc, uart2_read_append, hfill, Option.bind_some,
    hread]
  rfl

theorem QuietItem.length_le (hit : QuietItem it) : (miniFrame it.2).length ≤ it.2.length + 3 := by
  have hshort := hit.short
  unfold miniFrame miniHead at hshort ⊢
  split_ifs at hshort ⊢ <;> simp only [List.length_append, List.length_cons, List.length_nil] at hshort ⊢ <;> omega

/-- A piece as long as the frame, begun inside it, ends behind it. -/
theorem piece_behind {S y g f₀ w : Bytes} (hit : QuietItem it)
    (hsplit : miniFrame it.2 ++ S = y ++ (g ++ (f₀ ++ [0xFA] ++ w))) (hy : y ≠ []) (hf₀ : it.2.length + 2 ≤ f₀.length) :
    ∃ z, S = z ++ 0xFA :: w := by
  have hend : miniFrame it.2 ++ S = (y ++ g ++ f₀) ++ 0xFA :: w := by rw [hsplit]; simp
  have hylen := List.length_pos_iff.mpr hy
  have hle := hit.length_le
  obtain ⟨z, -, hz⟩ | ⟨z, hz, hz'⟩ := List.append_eq_append_iff.mp hend
  · exact ⟨z, hz⟩
  · have hl := congrArg List.length hz
    have h0 : z = [] := List.eq_nil_of_length_eq_zero (by simp only [List.length_append] at hl; omega)
    subst h0
    exact ⟨[], hz'.symm⟩

/-- **What is left of a frame that was cut** carries this and all later frames no more: a piece as long as this frame
ends inside a later one, as there are no end bytes between the frames, and so on to the end of the stream. -/
theorem not_carries_behind : ∀ {items : List (Bytes × Bytes)} {it : Bytes × Bytes} {tail S y w : Bytes}, QuietItem it →
    (∀ it ∈ items, QuietItem it) → 0xFA ∉ tail → noisyStream items tail = some S → miniFrame it.2 ++ S = y ++ w → y ≠ [] →
    ¬ Carries FramePiece w (it.2 :: items.map Prod.snd) := by
  intro items
  induction items with
  | nil =>
    intro it tail S y w hit _ htail hS hsplit hy hcarry
    obtain rfl := Option.some.inj hS
    obtain ⟨g, f, w', rfl, ⟨f₀, rfl, hf₀⟩, -⟩ := Carries.cons_iff.mp hcarry
    obtain ⟨z, rfl⟩ := piece_behind hit hsplit hy hf₀
    exact htail (List.mem_append_right z List.mem_cons_self)
  | cons it' items ih =>
    intro it tail S y w hit hitems htail hS hsplit hy hcarry
    have hit' := hitems it' List.mem_cons_self
    obtain ⟨S', hS', rfl⟩ := noisyStream_cons hit'.toNoisyItem hS
    obtain ⟨g, f, w', rfl, ⟨f₀, rfl, hf₀⟩, hw'⟩ := Carries.cons_iff.mp hcarry
    obtain ⟨z, hz⟩ := piece_behind hit hsplit hy hf₀
    -- and behind the noise
    obtain ⟨z', -, hz'⟩ | ⟨z', hz', hz''⟩ := List.append_eq_append_iff.mp hz
    · refine ih hit' (fun i hi => hitems i (List.mem_cons_of_mem _ hi)) htail hS' (y := z' ++ [0xFA]) (w := w') ?_ (by simp) hw'
      rw [hz', List.append_assoc]
      rfl
    · cases z' with
      | nil =>
        obtain ⟨t, ht⟩ := miniFrame_cons it'.2
        rw [List.nil_append, ht, List.cons_append] at hz''
        exact absurd (List.cons.inj hz'').1 (by decide)
      | cons b z' =>
        obtain ⟨rfl, -⟩ := List.cons.inj hz''
        exact hit'.noEnd (hz' ▸ List.mem_append_right z List.mem_cons_self)

/-- A stream is reported frame by frame iff no frame is cut. -/
theorem read_stream_iff : ∀ (items : List (Bytes × Bytes)) {tail S : Bytes} {s : MiniPort}, Waiting s [] →
    (∀ it ∈ items, QuietItem it) → 0xAF ∉ tail → 0xFA ∉ tail → noisyStream items tail = some S →
    ((∃ s', uart2_read s S = some (s', items.map Prod.snd)) ↔ ∀ it ∈ items, HeadKept it)
  | [], tail, S, s, h, _, haf, hfa, hS => by
    obtain rfl := Option.some.inj hS
    obtain ⟨s', x', hread, -⟩ := read_noise tail h List.not_mem_nil haf hfa
    exact ⟨fun _ it hit => absurd hit List.not_mem_nil, fun _ => ⟨s', hread⟩⟩
  | it :: items, tail, S, s, h, hitems, haf, hfa, hS => by
    have hit := hitems it List.mem_cons_self
    have hrest : ∀ it ∈ items, QuietItem it := fun i hi => hitems i (List.mem_cons_of_mem _ hi)
    obtain ⟨S', hS', rfl⟩ := noisyStream_cons hit.toNoisyItem hS
    by_cases hkept : HeadKept it
    · obtain ⟨s₁, hread, hs₁⟩ := read_item h hit hkept
      have hrun : uart2_read s (it.1 ++ (miniFrame it.2 ++ S')) =
          (uart2_read s₁ S').map fun q => (q.1, it.2 :: q.2) := by
        rw [← List.append_assoc, uart2_read_append, hread, Option.bind_some]
        rfl
      rw [List.forall_mem_cons, and_iff_right hkept, ← read_stream_iff items hs₁ hrest haf hfa hS', hrun]
      constructor
      · rintro ⟨s', hs'⟩
        obtain ⟨⟨s'', out⟩, hout, he⟩ := Option.map_eq_some_iff.mp hs'
        obtain ⟨rfl, ho⟩ := Prod.mk.inj he
        obtain ⟨-, rfl⟩ := List.cons.inj ho
        exact ⟨s'', hout⟩
      · rintro ⟨s', hs'⟩
        exact ⟨s', by rw [hs']; rfl⟩
    · refine ⟨?_, fun hall => absurd (hall it List.mem_cons_self) hkept⟩
      rintro ⟨s', hs'⟩
      obtain ⟨s'', out, y, w, hread, hy, hsplit, hcarry⟩ := read_cut h hit hkept S'
      obtain ⟨-, rfl⟩ := Prod.mk.inj (Option.some.inj (hs'.symm.trans hread))
      exact absurd hcarry (not_carries_behind hit hrest hfa hS' hsplit hy)

theorem mini_zeroed_waiting : Waiting .zeroed [] where
  cache := ⟨List.replicate 255 0, rfl, by rw [List.nil_append, List.length_replicate]⟩
  len := rfl
  le := Nat.zero_le _

/-- **The second UART**: for created frames of at most 254 bytes and noise without head and end bytes, in any chunks,
the buffer and the subtraction stay in range and the frames are reported once each and in order, iff no frame is
cut by the emptying of the buffer. -/
theorem uart2_frames_iff {items : List (Bytes × Bytes)} {tail S : Bytes} (hitems : ∀ it ∈ items, QuietItem it)
    (haf : 0xAF ∉ tail) (hfa : 0xFA ∉ tail) (hS : noisyStream items tail = some S) {cs : List Bytes}
    (hcs : cs.flatten = S) :
    Uart2Kept .zeroed S ∧ (∃ s', runChunks uart2_read .zeroed cs = some (s', items.map Prod.snd)) ↔
      ∀ it ∈ items, HeadKept it := by
  rw [runChunks_uart2_read, hcs, and_iff_right (uart2_kept S mini_zeroed_waiting)]
  exact read_stream_iff items mini_zeroed_waiting hitems haf hfa hS

theorem uart2_frames_noisy :
    Uart2Kept .zeroed [1, 0xAF, 2, 0xFA, 7, 0xFA, 9] ∧ (∃ s', runChunks uart2_read .zeroed
        [[1, 0xAF, 2], [0xFA, 7, 0xFA, 9]] = some (s', [([1], [(0xFA : UInt8), 7])].map Prod.snd)) ↔
      ∀ it ∈ [([1], [(0xFA : UInt8), 7])], HeadKept it :=
  @uart2_frames_iff [([1], [0xFA, 7])] [9] [1, 0xAF, 2, 0xFA, 7, 0xFA, 9]
    (fun it hit => by
      obtain rfl := List.mem_singleton.mp hit
      exact ⟨⟨by decide, by decide, by decide⟩, by decide, by decide⟩)
    (by decide) (by decide) (by decide +kernel) _ rfl

/-- 251 noise bytes in front of the shortest frame. -/
theorem uart2_loses_frame :
    ¬ ∀ (items : List (Bytes × Bytes)) (tail S : Bytes) (cs : List Bytes), (∀ it ∈ items, QuietItem it) →
      0xAF ∉ tail → 0xFA ∉ tail → noisyStream items tail = some S → cs.flatten = S →
      Uart2Kept .zeroed S ∧ ∃ s', runChunks uart2_read .zeroed cs = some (s', items.map Prod.snd) := by
  intro h
  have hitem : ∀ it ∈ [(List.replicate 251 (0 : UInt8), [(7 : UInt8)])], QuietItem it := by
    intro it hit
    obtain rfl := List.mem_singleton.mp hit
    refine ⟨⟨?_, by decide, by decide⟩, ?_, by decide⟩ <;> exact fun hm => absurd (List.eq_of_mem_replicate hm) (by decide)
  have hS : ∀ noise : Bytes, noisyStream [(noise, [7])] [] = some (noise ++ [0xAF, 1, 7, 0xFA] ++ []) := by
    intro noise
    have hframe : miniDataCreate (UInt8.ofNat [(7 : UInt8)].length) [7] = some [0xAF, 1, 7, 0xFA] := by decide +kernel
    rw [noisyStream, hframe]
    rfl
  obtain ⟨-, s', hrun⟩ := h _ [] _ [_] hitem List.not_mem_nil List.not_mem_nil (hS _) (List.append_nil _)
  rw [runChunks_uart2_read, List.flatten_singleton] at hrun
  have hkept := (read_stream_iff _ mini_zeroed_waiting hitem List.not_mem_nil List.not_mem_nil (hS _)).mp ⟨s', hrun⟩
  exact absurd (hkept _ List.mem_cons_self) (by decide +kernel)

end Esp32Base
