import Esp32Base.WebSock.Accept

/-!
# SbufHex — bytes as hexadecimal text (sbufhex.c)

`sbufEncode` prints two digits a byte into a block of its own. `sbufDecode` first turns the text into capitals where it
stands, then reads it in pairs; its nibbles are those of `ChangeCharToArray`, whatever the sign of a plain `char`.

* `sbufEncode_spec`: the text, and that it stays inside the block.
* `sbufDecode_spec`: the decoder on a text of whole pairs.
* `sbuf_roundtrip`: what was encoded is read back, in capitals or not.
* `conversions_stop_iff`: the texts at whose NUL the loops stop.
-/

namespace Esp32Base

open Lib Lib.Buf Lib.CText

/-! ## Encoding -/

/-- `sprintf(ssbuf + i * 2, "%02X", p_pBuff[i])` for the bytes from index `i` on. -/
def sbufEncodeLoop : Bytes → ℕ → Bytes → Option Bytes
  | [], _, ssbuf => some ssbuf
  | c :: p_pBuff, i, ssbuf => (strcpy ssbuf (i * 2) (printHex hexUpper c)).bind (sbufEncodeLoop p_pBuff (i + 1))

/-- The block and `*dstLen`; `some none` is the NULL that is returned without a buffer or without memory. -/
def sbufEncode (p_pBuff : Option Bytes) (malloc : Option (ℕ → UInt8)) : Option (Option (Bytes × ℕ)) :=
  match p_pBuff, malloc with
  | some p_pBuff, some garbage =>
    (sbufEncodeLoop p_pBuff 0 (alloc garbage (p_pBuff.length * 2 + 10))).bind fun ssbuf =>
      (store ssbuf (p_pBuff.length * 2) [0]).map fun ssbuf => some (ssbuf, p_pBuff.length * 2)
  | _, _ => some none

/-- The text of bytes. -/
def sbufText (b : Bytes) : Bytes := b.flatMap (printHex hexUpper)

@[simp] theorem sbufText_cons (c : UInt8) (b : Bytes) : sbufText (c :: b) = printHex hexUpper c ++ sbufText b := rfl

theorem sbufText_length (b : Bytes) : (sbufText b).length = b.length * 2 := by
  induction b with
  | nil => rfl
  | cons c b ih =>
    rw [sbufText_cons, List.length_append, ih, List.length_cons]
    show 2 + b.length * 2 = _
    omega

theorem zero_notMem_sbufText (b : Bytes) : 0 ∉ sbufText b := by
  intro h
  obtain ⟨c, -, hc⟩ := List.mem_flatMap.mp h
  exact (zero_notMem_printHex c).2 hc

/-- **The loop**: every pair goes behind the text so far, and its NUL is overwritten by the next one. -/
theorem sbufEncodeLoop_eq (b : Bytes) : ∀ (pre rest : Bytes) (i : ℕ), pre.length = i * 2 →
    b.length * 2 + 1 ≤ rest.length →
      ∃ tail, sbufEncodeLoop b i (pre ++ rest) = some (pre ++ sbufText b ++ tail) ∧
        tail.length + b.length * 2 = rest.length := by
  induction b with
  | nil =>
    intro pre rest i _ _
    exact ⟨rest, by simp [sbufEncodeLoop, sbufText], rfl⟩
  | cons c b ih =>
    intro pre rest i hpre hrest
    have hlen : (printHex hexUpper c ++ [0]).length = 3 := rfl
    rw [List.length_cons] at hrest
    have hstep : strcpy (pre ++ rest) (i * 2) (printHex hexUpper c) =
        some ((pre ++ printHex hexUpper c) ++ (0 :: rest.drop 3)) := by
      rw [strcpy, ← hpre, store_append (by omega), hlen]
      simp only [List.append_assoc, List.singleton_append]
    obtain ⟨tail, hloop, htail⟩ := ih (pre ++ printHex hexUpper c) (0 :: rest.drop 3) (i + 1)
      (by rw [List.length_append, hpre]; show i * 2 + 2 = _; omega)
      (by rw [List.length_cons, List.length_drop]; omega)
    refine ⟨tail, ?_, ?_⟩
    · rw [sbufEncodeLoop, hstep, Option.bind_some, hloop, sbufText_cons]
      simp only [List.append_assoc]
    · rw [List.length_cons, List.length_drop] at htail
      rw [List.length_cons]
      omega

/-- **The encoder** stays inside its block and leaves the text there. -/
theorem sbufEncode_spec (b : Bytes) (garbage : ℕ → UInt8) : ∃ ssbuf,
    sbufEncode (some b) (some garbage) = some (some (ssbuf, b.length * 2)) ∧ cstr ssbuf = some (sbufText b) := by
  obtain ⟨tail, hloop, htail⟩ := sbufEncodeLoop_eq b [] (alloc garbage (b.length * 2 + 10)) 0 rfl
    (by rw [alloc_length]; omega)
  rw [alloc_length] at htail
  refine ⟨sbufText b ++ 0 :: tail.drop 1, ?_, cstr_of_append (zero_notMem_sbufText b) _⟩
  simp only [List.nil_append] at hloop
  rw [sbufEncode, hloop, Option.bind_some, ← sbufText_length b,
    store_append (by rw [List.length_singleton]; omega)]
  simp only [Option.map_some, List.append_assoc, List.singleton_append, List.length_singleton]

/-! ## Decoding -/

section Decode

variable (signed : Bool)

/-- The first loop, on the memory from `src[i]` on. -/
def sbufUpper : Bytes → Option Bytes
  | [] => none
  | c :: src => if c = 0 then some (c :: src) else (sbufUpper src).map (toupper c :: ·)

/-- `src[i] - 'A' + 10` or `src[i] - '0'`, in `int`. -/
def sbufNibble (c : UInt8) : BitVec 32 :=
  if 65 ≤ (plainChar signed c).toInt ∧ (plainChar signed c).toInt ≤ 70 then plainChar signed c - 65 + 10
  else plainChar signed c - 48

/-- An `int` stored in a `char`. -/
def toChar (v : BitVec 32) : UInt8 := ⟨v.setWidth 8⟩

/-- What `hex[n]` gets from a pair. -/
def sbufPair (c d : UInt8) : UInt8 :=
  toChar ((plainChar signed (toChar (sbufNibble signed c)) <<< 4) ||| sbufNibble signed d)

/-- The second loop, on the memory from `src[i]` on; a text that ends inside a pair does not stop it. -/
def sbufPairs : Bytes → Option Bytes
  | [] => none
  | [c] => if c = 0 then some [] else none
  | c :: d :: src => if c = 0 then some [] else (sbufPairs src).map (sbufPair signed c d :: ·)

/-- The number of bytes, the bytes of `hex`, and what `src` holds behind it. -/
def sbufDecode (src : Bytes) : Option (ℕ × Bytes × Bytes) :=
  (sbufUpper src).bind fun src => (sbufPairs signed src).map fun hex => (hex.length, hex, src)

theorem toChar_or (v w : BitVec 32) : toChar (v ||| w) = toChar v ||| toChar w := by
  unfold toChar
  rw [BitVec.setWidth_or]
  rfl

/-- The low bits of a shifted `char` do not depend on its sign. -/
theorem toChar_shift (c : UInt8) : toChar (plainChar signed c <<< 4) = c <<< 4 := by
  revert c
  apply forall_byte
  cases signed with
  | false => decide +kernel
  | true => decide +kernel

theorem toChar_nibble (c : UInt8) : toChar (sbufNibble signed c) = hexNibble c := by
  revert c
  apply forall_byte
  cases signed with
  | false => decide +kernel
  | true => decide +kernel

/-- A pair is that of `ChangeCharToArray`. -/
theorem sbufPair_eq (c d : UInt8) : sbufPair signed c d = (hexNibble c <<< 4) ||| hexNibble d := by
  rw [sbufPair, toChar_or, toChar_shift, toChar_nibble, toChar_nibble]

theorem sbufUpper_eq {t : Bytes} (ht : 0 ∉ t) (rest : Bytes) :
    sbufUpper (t ++ 0 :: rest) = some (t.map toupper ++ 0 :: rest) := by
  induction t with
  | nil => rfl
  | cons c t ih =>
    rw [List.mem_cons, not_or] at ht
    rw [List.cons_append, sbufUpper, if_neg (fun h => ht.1 h.symm), ih ht.2]
    rfl

/-- **The pairs of a text** are those of `ChangeCharToArray`. -/
theorem sbufPairs_eq {t hex : Bytes} (h : ChangeCharToArray t = some hex) (ht : 0 ∉ t) (rest : Bytes) :
    sbufPairs signed (t ++ 0 :: rest) = some hex := by
  induction t using ChangeCharToArray.induct generalizing hex with
  | case1 =>
    obtain rfl := Option.some.inj h
    cases rest with
    | nil => rfl
    | cons d rest => rfl
  | case2 c => exact nomatch h
  | case3 c d t ih =>
    simp only [List.mem_cons, not_or] at ht
    obtain ⟨hex', hrec, rfl⟩ := Option.map_eq_some_iff.mp h
    rw [List.cons_append, List.cons_append, sbufPairs, if_neg (fun h => ht.1 h.symm), ih hrec ht.2.2, sbufPair_eq]
    rfl

/-- **The decoder** on a text whose capitals are whole pairs. -/
theorem sbufDecode_spec {src s hex : Bytes} (hsrc : cstr src = some s)
    (h : ChangeCharToArray (s.map toupper) = some hex) (h0 : 0 ∉ s.map toupper) :
    ∃ src', sbufDecode signed src = some (hex.length, hex, src') ∧ cstr src' = some (s.map toupper) := by
  obtain ⟨rest, rfl, hs⟩ := cstr_eq_some.mp hsrc
  refine ⟨_, ?_, cstr_of_append h0 rest⟩
  rw [sbufDecode, sbufUpper_eq hs, Option.bind_some, sbufPairs_eq signed h h0]
  rfl

end Decode

/-! ## Reading back -/

/-- The digits of the encoder are capitals. -/
theorem sbufText_toupper (b : Bytes) : (sbufText b).map toupper = sbufText b := by
  have hbyte : ∀ c : UInt8, (printHex hexUpper c).map toupper = printHex hexUpper c :=
    forall_byte (by decide +kernel)
  induction b with
  | nil => rfl
  | cons c b ih => rw [sbufText_cons, List.map_append, hbyte, ih]

/-- **What was encoded is read back**: by `sbufDecode` in any case of its letters, and by `ChangeCharToArray` as it
is. -/
theorem sbuf_roundtrip (signed : Bool) (b : Bytes) (garbage : ℕ → UInt8) : ∃ ssbuf text,
    sbufEncode (some b) (some garbage) = some (some (ssbuf, b.length * 2)) ∧ cstr ssbuf = some text ∧
      (∀ src s, cstr src = some s → SameNoCase s text →
        ∃ src', sbufDecode signed src = some (b.length, b, src')) ∧
      ChangeCharToArray text = some b := by
  obtain ⟨ssbuf, henc, htext⟩ := sbufEncode_spec b garbage
  refine ⟨ssbuf, sbufText b, henc, htext, ?_, changeChar_bytes b⟩
  intro src s hsrc hs
  have hup : s.map toupper = sbufText b := by rw [hs.toupper, sbufText_toupper]
  obtain ⟨src', hdec, -⟩ := sbufDecode_spec signed hsrc (by rw [hup]; exact changeChar_bytes b)
    (by rw [hup]; exact zero_notMem_sbufText b)
  exact ⟨src', hdec⟩

/-! ## Where the loops stop -/

section Reads

/-- The first loop with the indices it reads, on the memory from `src[i]` on. -/
def upperReads (i : ℕ) : Bytes → List ℕ × Option Bytes
  | [] => ([i], none)
  | c :: src =>
    if c = 0 then ([i], some (c :: src))
    else (i :: (upperReads (i + 1) src).1, (upperReads (i + 1) src).2.map (toupper c :: ·))

variable (signed : Bool)

/-- The second loop with the indices it reads: only the first byte of a pair is tested. -/
def pairReads (i : ℕ) : Bytes → List ℕ × Option Bytes
  | [] => ([i], none)
  | [c] => if c = 0 then ([i], some []) else ([i, i + 1], none)
  | c :: d :: src =>
    if c = 0 then ([i], some [])
    else (i :: (i + 1) :: (pairReads (i + 2) src).1, (pairReads (i + 2) src).2.map (sbufPair signed c d :: ·))

/-- `sbufDecode` with the indices of `src` it reads. -/
def sbufDecodeReads (src : Bytes) : List ℕ × Option (ℕ × Bytes × Bytes) :=
  match upperReads 0 src with
  | (reads, none) => (reads, none)
  | (reads, some src) =>
    (reads ++ (pairReads signed 0 src).1, (pairReads signed 0 src).2.map fun hex => (hex.length, hex, src))

/-- `ChangeCharToArray` on memory, with the indices of `s` it reads: its loop is the second one of `sbufDecode`. -/
def changeCharReads (s : Bytes) : List ℕ × Option Bytes := pairReads signed 0 s

/-- The run ends, having read the byte at `nul` and none behind it. -/
def StopsAtNul {β : Type} (run : List ℕ × Option β) (nul : ℕ) : Prop :=
  run.2.isSome = true ∧ nul ∈ run.1 ∧ ∀ k ∈ run.1, k ≤ nul

instance {β : Type} (run : List ℕ × Option β) (nul : ℕ) : Decidable (StopsAtNul run nul) :=
  inferInstanceAs (Decidable (_ ∧ _))

theorem upperReads_snd (src : Bytes) (i : ℕ) : (upperReads i src).2 = sbufUpper src := by
  induction src generalizing i with
  | nil => rfl
  | cons c src ih =>
    rw [upperReads, sbufUpper]
    by_cases hc : c = 0
    · rw [if_pos hc, if_pos hc]
    · rw [if_neg hc, if_neg hc, ih]

theorem pairReads_snd (src : Bytes) (i : ℕ) : (pairReads signed i src).2 = sbufPairs signed src := by
  induction src using sbufPairs.induct generalizing i with
  | case1 => rfl
  | case2 => rfl
  | case3 c hc => rw [pairReads, sbufPairs, if_neg hc, if_neg hc]
  | case4 d src => rfl
  | case5 c d src hc ih => rw [pairReads, sbufPairs, if_neg hc, if_neg hc, ih]

/-- The logs belong to the functions. -/
theorem sbufDecodeReads_snd (src : Bytes) : (sbufDecodeReads signed src).2 = sbufDecode signed src := by
  rw [sbufDecode, ← upperReads_snd src 0, sbufDecodeReads]
  cases h : upperReads 0 src with
  | mk reads res =>
    cases res with
    | none => rfl
    | some src => rw [Option.bind_some, ← pairReads_snd signed src 0]

/-- On a text that `ChangeCharToArray` turns into bytes, these are the bytes, whatever stands behind the text. -/
theorem changeCharReads_snd {t hex : Bytes} (h : ChangeCharToArray t = some hex) (ht : 0 ∉ t) (rest : Bytes) :
    (changeCharReads signed (t ++ 0 :: rest)).2 = some hex :=
  (pairReads_snd signed _ 0).trans (sbufPairs_eq signed h ht rest)

/-- A text of whole pairs is turned into bytes. -/
theorem exists_changeChar {t : Bytes} (h : 2 ∣ t.length) : ∃ hex, ChangeCharToArray t = some hex := by
  induction t using ChangeCharToArray.induct with
  | case1 => exact ⟨[], rfl⟩
  | case2 c =>
    rw [List.length_singleton] at h
    omega
  | case3 c d t ih =>
    obtain ⟨hex, hrec⟩ := ih (by simp only [List.length_cons] at h; omega)
    exact ⟨_, by rw [ChangeCharToArray, hrec, Option.map_some]⟩

/-- **The first loop** reads up to the NUL. -/
theorem upperReads_fst {t : Bytes} (ht : 0 ∉ t) (rest : Bytes) (i : ℕ) :
    (upperReads i (t ++ 0 :: rest)).1 = List.range' i (t.length + 1) := by
  induction t generalizing i with
  | nil => rfl
  | cons c t ih =>
    rw [List.mem_cons, not_or] at ht
    rw [List.cons_append, upperReads, if_neg (fun h => ht.1 h.symm), ih ht.2]
    rfl

/-- **The second loop on whole pairs** reads up to the NUL. -/
theorem pairReads_fst {t : Bytes} (ht : 0 ∉ t) (h : 2 ∣ t.length) (rest : Bytes) (i : ℕ) :
    (pairReads signed i (t ++ 0 :: rest)).1 = List.range' i (t.length + 1) := by
  induction t using ChangeCharToArray.induct generalizing i with
  | case1 => cases rest <;> rfl
  | case2 c =>
    rw [List.length_singleton] at h
    omega
  | case3 c d t ih =>
    simp only [List.mem_cons, not_or] at ht
    rw [List.cons_append, List.cons_append, pairReads, if_neg (fun h => ht.1 h.symm),
      ih ht.2.2 (by simp only [List.length_cons] at h; omega)]
    rfl

theorem mem_pairReads_first (src : Bytes) (i : ℕ) : i ∈ (pairReads signed i src).1 := by
  match src with
  | [] => exact List.mem_cons_self
  | [c] =>
    rw [pairReads]
    split_ifs <;> exact List.mem_cons_self
  | c :: d :: src =>
    rw [pairReads]
    split_ifs <;> exact List.mem_cons_self

/-- **The second loop inside a pair**: the NUL is the second byte of it, and the byte behind the NUL is read. -/
theorem pairReads_passes {t : Bytes} (ht : 0 ∉ t) (h : ¬ 2 ∣ t.length) (rest : Bytes) (i : ℕ) :
    i + t.length + 1 ∈ (pairReads signed i (t ++ 0 :: rest)).1 := by
  induction t using ChangeCharToArray.induct generalizing i with
  | case1 => exact absurd (Nat.dvd_zero 2) h
  | case2 c =>
    rw [List.mem_singleton] at ht
    rw [List.singleton_append, pairReads, if_neg (fun h => ht h.symm)]
    exact List.mem_cons_of_mem _ (List.mem_cons_of_mem _ (mem_pairReads_first signed rest (i + 2)))
  | case3 c d t ih =>
    simp only [List.mem_cons, not_or] at ht
    have hrec := ih ht.2.2 (by simp only [List.length_cons] at h; omega) (i + 2)
    rw [List.cons_append, List.cons_append, pairReads, if_neg (fun h => ht.1 h.symm)]
    refine List.mem_cons_of_mem _ (List.mem_cons_of_mem _ ?_)
    rw [List.length_cons, List.length_cons, show i + (t.length + 1 + 1) + 1 = i + 2 + t.length + 1 by omega]
    exact hrec

theorem range_stops {k n : ℕ} (hk : k ∈ List.range' 0 (n + 1)) : k ≤ n := by
  rw [List.mem_range'_1] at hk
  omega

/-- **`ChangeCharToArray` stops at the NUL** of texts of whole pairs. -/
theorem changeCharReads_stops_iff {t : Bytes} (ht : 0 ∉ t) (rest : Bytes) :
    StopsAtNul (changeCharReads signed (t ++ 0 :: rest)) t.length ↔ 2 ∣ t.length := by
  constructor
  · rintro ⟨-, -, hle⟩
    by_contra h
    have hread := hle _ (pairReads_passes signed ht h rest 0)
    omega
  · intro h
    obtain ⟨hex, hhex⟩ := exists_changeChar h
    have hfst : (changeCharReads signed (t ++ 0 :: rest)).1 = List.range' 0 (t.length + 1) :=
      pairReads_fst signed ht h rest 0
    refine ⟨by rw [changeCharReads_snd signed hhex ht, Option.isSome_some], ?_, ?_⟩
    · rw [hfst, List.mem_range'_1]
      omega
    · intro k hk
      rw [hfst] at hk
      exact range_stops hk

/-- The first loop leaves a text of the same length, with its NUL in the same place. -/
theorem sbufDecodeReads_eq {t : Bytes} (ht : 0 ∉ t) (rest : Bytes) :
    sbufDecodeReads signed (t ++ 0 :: rest) =
      (List.range' 0 (t.length + 1) ++ (pairReads signed 0 (t.map toupper ++ 0 :: rest)).1,
        (pairReads signed 0 (t.map toupper ++ 0 :: rest)).2.map fun hex =>
          (hex.length, hex, t.map toupper ++ 0 :: rest)) := by
  have hpair : upperReads 0 (t ++ 0 :: rest) =
      (List.range' 0 (t.length + 1), some (t.map toupper ++ 0 :: rest)) :=
    Prod.ext (upperReads_fst ht rest 0) ((upperReads_snd _ 0).trans (sbufUpper_eq ht rest))
  rw [sbufDecodeReads, hpair]

theorem zero_notMem_toupper {t : Bytes} (ht : 0 ∉ t) : 0 ∉ t.map toupper := by
  have hzero : ∀ c : UInt8, toupper c = 0 → c = 0 := forall_byte (by decide +kernel)
  intro h
  obtain ⟨c, hc, h0⟩ := List.mem_map.mp h
  exact ht (hzero c h0 ▸ hc)

/-- **`sbufDecode` stops at the NUL** of the same texts. -/
theorem sbufDecodeReads_stops_iff {t : Bytes} (ht : 0 ∉ t) (rest : Bytes) :
    StopsAtNul (sbufDecodeReads signed (t ++ 0 :: rest)) t.length ↔ 2 ∣ t.length := by
  have hup := zero_notMem_toupper ht
  have hlen : (t.map toupper).length = t.length := List.length_map ..
  constructor
  · rintro ⟨-, -, hle⟩
    rw [sbufDecodeReads_eq signed ht] at hle
    by_contra h
    have hread := hle _ (List.mem_append_right _ (pairReads_passes signed hup (hlen ▸ h) rest 0))
    omega
  · intro h
    -- it ends as `sbufDecode` does
    obtain ⟨hex, hhex⟩ := exists_changeChar (hlen ▸ h)
    obtain ⟨src', hdec, -⟩ := sbufDecode_spec signed (cstr_of_append ht rest) hhex hup
    refine ⟨by rw [sbufDecodeReads_snd, hdec, Option.isSome_some], ?_⟩
    obtain ⟨-, hnul, hle⟩ := (changeCharReads_stops_iff signed hup rest).mpr (hlen ▸ h)
    rw [hlen] at hnul hle
    rw [sbufDecodeReads_eq signed ht]
    refine ⟨List.mem_append_right _ hnul, ?_⟩
    intro k hk
    rcases List.mem_append.mp hk with hk | hk
    · exact range_stops hk
    · exact hle k hk

end Reads

/-- **The conversion loops stop at the NUL of a string** exactly when its length is even, whatever stands behind it. -/
theorem conversions_stop_iff (signed : Bool) (src s : Bytes) (h : cstr src = some s) :
    (StopsAtNul (sbufDecodeReads signed src) s.length ↔ 2 ∣ s.length) ∧
      (StopsAtNul (changeCharReads signed src) s.length ↔ 2 ∣ s.length) := by
  obtain ⟨rest, rfl, hs⟩ := cstr_eq_some.mp h
  exact ⟨sbufDecodeReads_stops_iff signed hs rest, changeCharReads_stops_iff signed hs rest⟩

theorem conversions_stop_pair : StopsAtNul (sbufDecodeReads false (ascii "a5" ++ [0, 48])) 2 ∧
    StopsAtNul (changeCharReads false (ascii "a5" ++ [0, 48])) 2 := by
  obtain ⟨hdec, hchange⟩ := conversions_stop_iff false (ascii "a5" ++ [0, 48]) (ascii "a5") (by decide +kernel)
  exact ⟨hdec.mpr (by decide), hchange.mpr (by decide)⟩

/-- The string `A`: both loops go on behind its NUL. -/
theorem conversions_pass : cstr [65, 0, 0] = some [65] ∧ ¬ StopsAtNul (sbufDecodeReads false [65, 0, 0]) 1 ∧
    ¬ StopsAtNul (changeCharReads false [65, 0, 0]) 1 := by
  refine ⟨by decide, ?_, ?_⟩
  · rintro ⟨-, -, hle⟩
    exact absurd (hle 2 (by decide)) (by decide)
  · rintro ⟨-, -, hle⟩
    exact absurd (hle 2 (by decide)) (by decide)

end Esp32Base
