import Esp32Base.Lib.Buf
import Esp32Base.Lib.Framer

/-!
# MiniData — the `0xAF … 0xFA` frames of mini-data.c

`miniDataCreate` and `miniDataGet` as the source computes them, and over them the framer
`miniFramer`: what the frame format means for a buffer that is still growing.

* `miniDataGet_cases`: everything one call can do, in terms of `miniFramer`.  The one call that is not
  a step of the framer is `EarlyDrop`: with exactly `AF FF 00` buffered the source reads the high
  length byte behind the buffer, and a zero there makes it drop the header.
* `miniStep_miniFrame`: a created frame in front of a buffer is one step of the framer.
-/

namespace Esp32Base

open Lib Lib.Buf

/-- The parts of a decoded frame; `frame_head` is an index into the cache. -/
structure TzhMiniData where
  head : UInt8
  parameter_len : ℕ
  parameter : Bytes
  end_ : UInt8
  frame_head : ℕ
  frame_len : ℕ

/-- The bytes stored from `dst_buf[0]` on; their number is the return value. -/
def miniDataCreate (parm_len : UInt8) (parm : Bytes) : Option Bytes :=
  if parm_len = 0 then some []
  else
    let lenBytes : Bytes :=
      if parm_len < 0xFF then [parm_len]
      else [0xFF, parm_len &&& 0xFF, UInt8.ofNat ((parm_len.toNat &&& 0xFF00) >>> 8)]
    (load parm 0 parm_len.toNat).map fun p => [0xAF] ++ lenBytes ++ p ++ [0xFA]

/-- `cache[n+1] | cache[n+2] << 8`. -/
def le16 (lo hi : UInt8) : ℕ := lo.toNat ||| hi.toNat <<< 8

/-- The length field behind the frame head: `parameter_len`, the index of the parameter and
`tmp_frame_base`. -/
def miniLength (cache : Bytes) : Option (ℕ × ℕ × ℕ) :=
  (cache[1]?).bind fun c =>
    if c = 0xFF then
      (cache[2]?).bind fun lo => (cache[3]?).map fun hi => (le16 lo hi, 4, 5)
    else some (c.toNat, 2, 3)

/-- The return value, and the frame when `*is_get_cmd_success` is set. -/
def miniDataGet (cache : Bytes) (cache_len : ℕ) : Option (ℕ × Option TzhMiniData) :=
  if cache_len < 3 then some (0, none)
  else
    (findByte 0xAF cache cache_len).bind fun n =>
      if 0 < n then some (n, none)
      else
        (miniLength cache).bind fun (parameter_len, n, tmp_frame_base) =>
          if parameter_len = 0 then some (1, none)
          else if cache_len < parameter_len + tmp_frame_base then some (0, none)
          else
            (load cache n parameter_len).bind fun parameter =>
              (cache[n + parameter_len]?).map fun e =>
                if e ≠ 0xFA then (1, none)
                else
                  (n + parameter_len + 1,
                    some ⟨0xAF, parameter_len, parameter, 0xFA, 0, n + parameter_len + 1⟩)

/-! ## The framer -/

/-- One step of the frame format on a growing buffer: skip what is not a frame head, wait until the
announced frame is there, accept it when it ends in `0xFA`, else skip its head. -/
def miniStep : Bytes → Option (Option Bytes × Bytes)
  | [] => none
  | b :: r =>
    if b ≠ 0xAF then some (none, r)
    else
      (miniLength (b :: r)).bind fun (len, n, base) =>
        if len = 0 then some (none, r)
        else if (b :: r).length < len + base then none
        else if (b :: r)[n + len]? = some 0xFA then
          some (some (((b :: r).drop n).take len), (b :: r).drop (n + len + 1))
        else some (none, r)

theorem miniLength_append {x : Bytes} {len n base : ℕ} (y : Bytes)
    (h : miniLength x = some (len, n, base)) : miniLength (x ++ y) = some (len, n, base) := by
  have get : ∀ {i : ℕ} {b : UInt8}, x[i]? = some b → (x ++ y)[i]? = some b := fun hb =>
    (List.getElem?_append_left (List.getElem?_eq_some_iff.mp hb).1).trans hb
  obtain ⟨c, hc, h⟩ := Option.bind_eq_some_iff.mp h
  unfold miniLength
  rw [get hc, Option.bind_some]
  split_ifs at h ⊢ with hff
  · obtain ⟨lo, hlo, h⟩ := Option.bind_eq_some_iff.mp h
    obtain ⟨hi, hhi, h⟩ := Option.map_eq_some_iff.mp h
    rw [get hlo, get hhi, Option.bind_some, Option.map_some, h]
  · exact h

theorem miniLength_base {x : Bytes} {len n base : ℕ} (h : miniLength x = some (len, n, base)) :
    base = n + 1 ∧ 2 ≤ n ∧ n ≤ 4 := by
  obtain ⟨c, -, h⟩ := Option.bind_eq_some_iff.mp h
  split_ifs at h with hff
  · obtain ⟨lo, -, h⟩ := Option.bind_eq_some_iff.mp h
    obtain ⟨hi, -, h⟩ := Option.map_eq_some_iff.mp h
    simp only [Prod.mk.injEq] at h
    omega
  · simp only [Option.some.injEq, Prod.mk.injEq] at h
    omega

theorem miniStep_shrink {x r : Bytes} {o : Option Bytes} (h : miniStep x = some (o, r)) :
    r.length < x.length := by
  cases x with
  | nil => simp [miniStep] at h
  | cons b t =>
    simp only [miniStep] at h
    split_ifs at h with hb
    · simp only [Option.some.injEq, Prod.mk.injEq] at h
      simp [← h.2]
    · obtain ⟨⟨len, n, base⟩, -, h⟩ := Option.bind_eq_some_iff.mp h
      dsimp only at h
      split_ifs at h <;> simp only [Option.some.injEq, Prod.mk.injEq] at h <;> rw [← h.2] <;>
        simp only [List.length_cons, List.length_drop] <;> omega

theorem miniStep_stable {x r : Bytes} {o : Option Bytes} (y : Bytes) (h : miniStep x = some (o, r)) :
    miniStep (x ++ y) = some (o, r ++ y) := by
  cases x with
  | nil => simp [miniStep] at h
  | cons b t =>
    simp only [miniStep, List.cons_append] at h ⊢
    by_cases hb : b ≠ 0xAF
    · rw [if_pos hb] at h ⊢
      simp only [Option.some.injEq, Prod.mk.injEq] at h ⊢
      exact ⟨h.1, by rw [h.2]⟩
    · rw [if_neg hb] at h ⊢
      obtain ⟨⟨len, n, base⟩, hl, h⟩ := Option.bind_eq_some_iff.mp h
      obtain ⟨hbase, -, -⟩ := miniLength_base hl
      rw [← List.cons_append, miniLength_append y hl, Option.bind_some]
      dsimp only at h ⊢
      by_cases h0 : len = 0
      · rw [if_pos h0] at h ⊢
        simp only [Option.some.injEq, Prod.mk.injEq] at h ⊢
        exact ⟨h.1, by rw [h.2]⟩
      rw [if_neg h0] at h ⊢
      by_cases hw : (b :: t).length < len + base
      · rw [if_pos hw] at h; cases h
      -- the whole frame lies in `b :: t`, so the end check reads the same byte
      rw [if_neg hw] at h
      rw [if_neg (by rw [List.length_append]; omega), List.getElem?_append_left (by omega),
        List.drop_append_of_le_length (by omega), List.drop_append_of_le_length (by omega),
        List.take_append_of_le_length (by rw [List.length_drop]; omega)]
      split_ifs at h ⊢ <;> simp only [Option.some.injEq, Prod.mk.injEq] at h ⊢ <;>
        exact ⟨h.1, by rw [h.2]⟩

def miniFramer : Framer UInt8 Bytes := ⟨miniStep, miniStep_shrink, miniStep_stable⟩

/-! ### Steps of the framer -/

theorem le16_eq (lo hi : UInt8) : le16 lo hi = lo.toNat + 256 * hi.toNat := by
  have h := Nat.shiftLeft_add_eq_or_of_lt (b := lo.toNat) (i := 8) lo.toNat_lt hi.toNat
  unfold le16
  rw [Nat.or_comm, ← h, Nat.shiftLeft_eq]
  omega

theorem le16_eq_zero {lo hi : UInt8} : le16 lo hi = 0 ↔ lo = 0 ∧ hi = 0 := by
  rw [le16_eq, ← UInt8.toNat_inj, ← UInt8.toNat_inj]
  simp only [UInt8.toNat_zero]
  omega

theorem miniStep_noise {b : UInt8} (hb : b ≠ 0xAF) (r : Bytes) : miniStep (b :: r) = some (none, r) := by
  rw [miniStep, if_pos hb]

theorem miniStep_head (r : Bytes) :
    miniStep (0xAF :: r) = (miniLength (0xAF :: r)).bind fun (len, n, base) =>
      if len = 0 then some (none, r)
      else if (0xAF :: r).length < len + base then none
      else if (0xAF :: r)[n + len]? = some 0xFA then
        some (some (((0xAF :: r).drop n).take len), (0xAF :: r).drop (n + len + 1))
      else some (none, r) := by
  rw [miniStep, if_neg (by simp)]

theorem eats_of_miniStep {x r : Bytes} {o : Option Bytes} (h : miniStep x = some (o, r)) :
    miniFramer.Eats x o.toList r := Framer.eats_of_step (F := miniFramer) (x := x) (r := r) (o := o) h

/-- Bytes other than the frame head are skipped without a message. -/
theorem eats_noise : ∀ {p : Bytes} (q : Bytes), 0xAF ∉ p → miniFramer.Eats (p ++ q) [] q
  | [], q, _ => Framer.Eats.refl q
  | b :: p, q, h => by
    rw [List.mem_cons, not_or] at h
    have h1 : miniFramer.Eats (b :: (p ++ q)) [] (p ++ q) :=
      eats_of_miniStep (miniStep_noise (fun hb => h.1 hb.symm) (p ++ q))
    exact h1.trans (eats_noise q h.2)

/-! ## What one call does -/

/-- A result of `miniDataGet` on the live bytes `x` with `rest` behind them in the cache. -/
inductive GetCase (x rest : Bytes) : ℕ × Option TzhMiniData → Prop
  | wait (h : x.length < 3 ∨ miniStep x = none) : GetCase x rest (0, none)
  | noise {n : ℕ} (h0 : 0 < n) (hn : n ≤ x.length) (h : 0xAF ∉ x.take n) : GetCase x rest (n, none)
  | skip (h : miniStep x = some (none, x.drop 1)) (h0 : x ≠ []) : GetCase x rest (1, none)
  | early (hx : x = [0xAF, 0xFF, 0]) (hr : rest.head? = some 0) : GetCase x rest (1, none)
  | frame {n : ℕ} {cmd : TzhMiniData} (h0 : 0 < n) (hn : n ≤ x.length) (hp : cmd.parameter ≠ [])
      (h : miniStep x = some (some cmd.parameter, x.drop n)) : GetCase x rest (n, some cmd)

/-- The header is dropped on a length byte that has not arrived. -/
def EarlyDrop (x rest : Bytes) : Prop := x = [0xAF, 0xFF, 0] ∧ rest.head? = some 0

instance (x rest : Bytes) : Decidable (EarlyDrop x rest) := inferInstanceAs (Decidable (_ ∧ _))

/-- Only a long header whose high length byte has not arrived leaves the length open. -/
theorem miniLength_none {q : Bytes} (hq : 2 ≤ q.length) (h : miniLength (0xAF :: q) = none) :
    ∃ lo, q = [0xFF, lo] := by
  match q, hq with
  | c :: lo :: t, _ =>
    cases t with
    | nil =>
      by_cases hc : c = 0xFF
      · exact ⟨lo, by rw [hc]⟩
      · simp [miniLength, hc] at h
    | cons hi t => by_cases hc : c = 0xFF <;> simp [miniLength, hc] at h

/-- The call on a buffer that starts with the frame head. -/
theorem miniDataGet_front (q rest : Bytes) (hq : 2 ≤ q.length) :
    miniDataGet (0xAF :: (q ++ rest)) (q.length + 1) =
      (miniLength (0xAF :: (q ++ rest))).bind fun (parameter_len, n, tmp_frame_base) =>
        if parameter_len = 0 then some (1, none)
        else if q.length + 1 < parameter_len + tmp_frame_base then some (0, none)
        else
          (load (0xAF :: (q ++ rest)) n parameter_len).bind fun parameter =>
            ((0xAF :: (q ++ rest))[n + parameter_len]?).map fun e =>
              if e ≠ 0xFA then (1, none)
              else
                (n + parameter_len + 1,
                  some ⟨0xAF, parameter_len, parameter, 0xFA, 0, n + parameter_len + 1⟩) := by
  have hfind : findByte 0xAF (0xAF :: (q ++ rest)) (q.length + 1) = some 0 := by simp [findByte]
  unfold miniDataGet
  rw [if_neg (by omega), hfind, Option.bind_some, if_neg (by omega)]

/-- The length is still open: the call reads its high byte behind the buffer. -/
theorem miniDataGet_open (lo hi : UInt8) (t : Bytes) (hl : miniLength [0xAF, 0xFF, lo] = none) :
    ∃ r, miniDataGet (0xAF :: ([0xFF, lo] ++ hi :: t)) 3 = some r ∧ GetCase [0xAF, 0xFF, lo] (hi :: t) r := by
  have hl' : miniLength (0xAF :: ([0xFF, lo] ++ hi :: t)) = some (le16 lo hi, 4, 5) := by simp [miniLength]
  have hget := miniDataGet_front [0xFF, lo] (hi :: t) le_rfl
  rw [hl', Option.bind_some] at hget
  dsimp only at hget
  rw [show [0xFF, lo].length + 1 = 3 from rfl] at hget
  rw [hget]
  by_cases h0 : le16 lo hi = 0
  · obtain ⟨rfl, rfl⟩ := le16_eq_zero.mp h0
    exact ⟨_, if_pos h0, GetCase.early rfl rfl⟩
  · refine ⟨_, by rw [if_neg h0, if_pos (by omega)], GetCase.wait (Or.inr ?_)⟩
    rw [miniStep_head, hl, Option.bind_none]

/-- What the call does to a buffer that starts with the frame head. -/
theorem miniDataGet_head (q rest : Bytes) (hq : 2 ≤ q.length) (hr : 3 ≤ (q ++ rest).length) :
    ∃ r, miniDataGet (0xAF :: (q ++ rest)) (q.length + 1) = some r ∧ GetCase (0xAF :: q) rest r := by
  cases hl : miniLength (0xAF :: q) with
  | none =>
    obtain ⟨lo, rfl⟩ := miniLength_none hq hl
    obtain ⟨hi, t, rfl⟩ : ∃ hi t, rest = hi :: t := List.exists_cons_of_ne_nil (by rintro rfl; simp at hr)
    exact miniDataGet_open lo hi t hl
  | some p =>
    rw [miniDataGet_front q rest hq]
    obtain ⟨len, n, base⟩ := p
    obtain ⟨hbase, hn2, -⟩ := miniLength_base hl
    have hstep := miniStep_head q
    rw [hl, Option.bind_some] at hstep
    have hl' := miniLength_append rest hl
    rw [List.cons_append] at hl'
    rw [hl', Option.bind_some]
    dsimp only at hstep ⊢
    by_cases h0 : len = 0
    · rw [if_pos h0] at hstep
      exact ⟨_, if_pos h0, GetCase.skip hstep (by simp)⟩
    rw [if_neg h0] at hstep ⊢
    by_cases hw : q.length + 1 < len + base
    · rw [if_pos (by simpa using hw)] at hstep
      exact ⟨_, if_pos hw, GetCase.wait (Or.inr hstep)⟩
    rw [if_neg (by simpa using hw)] at hstep
    rw [if_neg hw]
    -- the whole frame is in the buffer
    have hload : load (0xAF :: (q ++ rest)) n len = some (((0xAF :: q).drop n).take len) := by
      rw [← List.cons_append, load_append rest (by simp; omega), load_of_le (by simp; omega)]
    have hlt : n + len < (0xAF :: q).length := by simp; omega
    have hend : (0xAF :: (q ++ rest))[n + len]? = some (0xAF :: q)[n + len] := by
      rw [← List.cons_append, List.getElem?_append_left hlt, List.getElem?_eq_getElem hlt]
    rw [hload, Option.bind_some, hend, Option.map_some]
    rw [List.getElem?_eq_getElem hlt] at hstep
    by_cases hfa : (0xAF :: q)[n + len] = 0xFA
    · rw [if_pos (by rw [hfa])] at hstep
      rw [if_neg (by simpa using hfa)]
      refine ⟨_, rfl, GetCase.frame (by omega) (by simp; omega) ?_ hstep⟩
      intro hnil
      have := congrArg List.length hnil
      simp only [List.length_take, List.length_drop, List.length_cons, List.length_nil] at this
      omega
    · rw [if_neg (by simpa using hfa)] at hstep
      rw [if_pos hfa]
      exact ⟨_, rfl, GetCase.skip hstep (by simp)⟩

/-- **Everything a call can do**, on live bytes `x` in a cache of at least four readable bytes. -/
theorem miniDataGet_cases (x rest : Bytes) (hr : 4 ≤ (x ++ rest).length) :
    ∃ r, miniDataGet (x ++ rest) x.length = some r ∧ GetCase x rest r := by
  by_cases h3 : x.length < 3
  · exact ⟨_, if_pos h3, GetCase.wait (Or.inl h3)⟩
  rcases exists_first (b := 0xAF) x x.length with hno | ⟨p, q, hx, hp, -⟩
  · rw [List.take_length] at hno
    have hfind : findByte 0xAF (x ++ rest) x.length = some x.length :=
      findByte_of_notMem (by simp) (by rwa [List.take_left])
    refine ⟨(x.length, none), ?_, GetCase.noise (by omega) le_rfl (by rwa [List.take_length])⟩
    unfold miniDataGet
    rw [if_neg h3, hfind, Option.bind_some, if_pos (by omega)]
  · subst hx
    cases p with
    | nil => simpa using miniDataGet_head q rest (by simp at h3; omega) (by simpa using hr)
    | cons b p =>
      have hfind : findByte 0xAF ((b :: p) ++ 0xAF :: q ++ rest) ((b :: p) ++ 0xAF :: q).length =
          some (b :: p).length := by
        rw [List.append_assoc]
        exact findByte_of_append (q ++ rest) hp (by simp)
      refine ⟨((b :: p).length, none), ?_, GetCase.noise (by simp) (by simp) (by rwa [List.take_left])⟩
      unfold miniDataGet
      rw [if_neg h3, hfind, Option.bind_some, if_pos (by simp)]

theorem GetCase.le {x rest : Bytes} {r : ℕ × Option TzhMiniData} (h : GetCase x rest r) :
    r.1 ≤ x.length := by
  cases h with
  | wait => exact Nat.zero_le _
  | noise _ hn _ => exact hn
  | skip _ h0 => exact List.length_pos_iff.mpr h0
  | early hx _ => rw [hx]; simp
  | frame _ hn _ _ => exact hn

/-- Up to the early drop, a call is a run of framer steps. -/
theorem GetCase.eats {x rest : Bytes} {r : ℕ × Option TzhMiniData} (h : GetCase x rest r)
    (hE : ¬ EarlyDrop x rest) :
    miniFramer.Eats x (r.2.map TzhMiniData.parameter).toList (x.drop r.1) := by
  cases h with
  | wait => exact Framer.Eats.refl x
  | @noise n _ _ h =>
    have := eats_noise (x.drop n) h
    rwa [List.take_append_drop] at this
  | skip h _ => exact eats_of_miniStep h
  | early hx hr => exact absurd ⟨hx, hr⟩ hE
  | frame _ _ _ h => exact eats_of_miniStep h

/-! ## Created frames -/

/-- The bytes in front of a parameter of `n` bytes: short form below 255, long form from 255 on. -/
def miniHead (n : ℕ) : Bytes :=
  0xAF :: if n < 0xFF then [UInt8.ofNat n] else [0xFF, UInt8.ofNat n, UInt8.ofNat (n >>> 8)]

def miniFrame (p : Bytes) : Bytes := miniHead p.length ++ p ++ [0xFA]

theorem miniDataCreate_eq {p : Bytes} (h1 : 1 ≤ p.length) (h2 : p.length ≤ 255) :
    miniDataCreate (UInt8.ofNat p.length) p = some (miniFrame p) := by
  have hn : (UInt8.ofNat p.length).toNat = p.length := by
    rw [UInt8.toNat_ofNat']
    omega
  have h0 : UInt8.ofNat p.length ≠ 0 := by
    intro h
    have := congrArg UInt8.toNat h
    rw [hn, UInt8.toNat_zero] at this
    omega
  unfold miniDataCreate miniFrame miniHead
  rw [if_neg h0, hn, load_of_le (by omega), List.drop_zero, List.take_length, Option.map_some]
  by_cases hlt : p.length < 255
  · have : UInt8.ofNat p.length < 0xFF := by
      rw [UInt8.lt_iff_toNat_lt, hn]
      exact hlt
    rw [if_pos this, if_pos hlt]
    rfl
  · have h255 : p.length = 255 := by omega
    rw [h255]
    rfl

theorem miniLength_miniHead {n : ℕ} (h : n < 65536) (y : Bytes) :
    miniLength (miniHead n ++ y) = some (n, (miniHead n).length, (miniHead n).length + 1) := by
  unfold miniHead
  by_cases hlt : n < 0xFF
  · have hn : (UInt8.ofNat n).toNat = n := by
      rw [UInt8.toNat_ofNat']
      omega
    have hne : UInt8.ofNat n ≠ 0xFF := by
      intro h
      have := congrArg UInt8.toNat h
      rw [hn] at this
      simp at this
      omega
    simp [miniLength, hlt, hne, hn]
  · have hle : le16 (UInt8.ofNat n) (UInt8.ofNat (n >>> 8)) = n := by
      rw [le16_eq, UInt8.toNat_ofNat', UInt8.toNat_ofNat', Nat.shiftRight_eq_div_pow]
      omega
    simp [miniLength, hlt, hle]

/-- **A frame in front of the buffer is one step**: it is accepted with its own parameter. -/
theorem miniStep_miniFrame {p : Bytes} (h1 : 1 ≤ p.length) (h2 : p.length < 65536) (y : Bytes) :
    miniStep (miniFrame p ++ y) = some (some p, y) := by
  have hl := miniLength_miniHead h2 (p ++ ([0xFA] ++ y))
  have hf : miniFrame p ++ y = miniHead p.length ++ (p ++ ([0xFA] ++ y)) := by simp [miniFrame]
  obtain ⟨q, hq⟩ : ∃ q, miniFrame p ++ y = 0xAF :: q := ⟨_, by rw [hf, miniHead, List.cons_append]⟩
  rw [← hf, hq] at hl
  rw [hq, miniStep_head, hl, Option.bind_some]
  dsimp only
  rw [← hq, hf]
  have hend : (miniHead p.length ++ (p ++ ([0xFA] ++ y)))[(miniHead p.length).length + p.length]? =
      some 0xFA := by
    rw [List.getElem?_append_right (by omega), Nat.add_sub_cancel_left,
      List.getElem?_append_right le_rfl]
    simp
  have h4 : (miniHead p.length ++ (p ++ ([0xFA] ++ y))).drop ((miniHead p.length).length + p.length + 1) =
      y := by
    rw [← List.append_assoc, ← List.append_assoc]
    exact List.drop_left' (by simp; omega)
  rw [if_neg (by omega), if_neg (by simp; omega), if_pos hend, List.drop_left, List.take_left, h4]

theorem miniFrame_length (p : Bytes) : (miniFrame p).length ≤ p.length + 5 := by
  unfold miniFrame miniHead
  split_ifs <;> simp

end Esp32Base
