import Esp32Base.WebSock.Accept

/-!
# WebSock.Base64Decode — the base64 decoder (c_base64.h)

`base64_encode` takes plain `char`s, which the target may promote with or without their sign. `_base64Decode` adds up
four characters in `bits` and treats what is left in front of a `=` behind its loop.

* `base64_encode_int_eq`: the encoder with the promotions, for either signedness.
* `loop_four`: four characters through the loop.
* `base64_roundtrip`: the decoder reads back what the encoder wrote.
-/

namespace Esp32Base

open Lib Lib.Buf Lib.CText

/-- `base64_map` and `alphabet`: 64 characters and a NUL. -/
def base64Alphabet : Bytes := ascii "ABCDEFGHIJKLMNOPQRSTUVWXYZabcdefghijklmnopqrstuvwxyz0123456789+/" ++ [0]

/-! ## The encoder, in `int` -/

section Encoder

variable (signed : Bool)

def base64_mapAt (i : BitVec 32) : UInt8 := base64Alphabet.getD i.toNat 0

/-- `base64_encode` with the promotions of its `char`s. -/
def base64_encode_int : Bytes → Bytes
  | a :: b :: c :: src =>
    [base64_mapAt ((plainChar signed a).sshiftRight 2 &&& 0x3F),
      base64_mapAt (((plainChar signed a <<< 4) &&& 0x30#32) + ((plainChar signed b).sshiftRight 4 &&& 0xF)),
      base64_mapAt (((plainChar signed b <<< 2) &&& 0x3C#32) + ((plainChar signed c).sshiftRight 6 &&& 0x3)),
      base64_mapAt (plainChar signed c &&& 0x3F)] ++ base64_encode_int src
  | [a, b] =>
    [base64_mapAt ((plainChar signed a).sshiftRight 2 &&& 0x3F),
      base64_mapAt (((plainChar signed a <<< 4) &&& 0x30#32) + ((plainChar signed b).sshiftRight 4 &&& 0xF)),
      base64_mapAt ((plainChar signed b <<< 2) &&& 0x3C#32), 61]
  | [a] =>
    [base64_mapAt ((plainChar signed a).sshiftRight 2 &&& 0x3F), base64_mapAt ((plainChar signed a <<< 4) &&& 0x30#32),
      61, 61]
  | [] => []

/-- The parts of a byte that the encoder takes: its masks cut the sign off. -/
theorem plainChar_parts (a : UInt8) :
    (((plainChar signed a).sshiftRight 2 &&& 0x3F).toNat = a.toNat / 4 ∧
        ((plainChar signed a <<< 4) &&& 0x30#32).toNat = a.toNat % 4 * 16) ∧
      (((plainChar signed a).sshiftRight 4 &&& 0xF).toNat = a.toNat / 16 ∧
        ((plainChar signed a <<< 2) &&& 0x3C#32).toNat = a.toNat % 16 * 4) ∧
      ((plainChar signed a).sshiftRight 6 &&& 0x3).toNat = a.toNat / 64 ∧
        (plainChar signed a &&& 0x3F).toNat = a.toNat % 64 := by
  revert a
  apply forall_byte
  cases signed with
  | false => decide +kernel
  | true => decide +kernel

theorem base64_mapAt_eq {i : BitVec 32} {n : ℕ} (hi : i.toNat = n) (hn : n < 64) :
    base64_mapAt i = Base64.char n := by
  have hlen : Base64.alphabet.length = 64 := by decide +kernel
  subst hi
  unfold base64_mapAt Base64.char
  exact List.getD_append Base64.alphabet _ _ _ (by omega)

theorem plainChar_second (a b : UInt8) :
    (((plainChar signed a <<< 4) &&& 0x30#32) + ((plainChar signed b).sshiftRight 4 &&& 0xF)).toNat =
      a.toNat % 4 * 16 + b.toNat / 16 := by
  rw [BitVec.toNat_add, (plainChar_parts signed a).1.2, (plainChar_parts signed b).2.1.1]
  have hb := b.toNat_lt
  omega

theorem plainChar_third (b c : UInt8) :
    (((plainChar signed b <<< 2) &&& 0x3C#32) + ((plainChar signed c).sshiftRight 6 &&& 0x3)).toNat =
      b.toNat % 16 * 4 + c.toNat / 64 := by
  rw [BitVec.toNat_add, (plainChar_parts signed b).2.1.2, (plainChar_parts signed c).2.2.1]
  have hc := c.toNat_lt
  omega

/-- The sign of a `char` does not matter. -/
theorem base64_encode_int_eq (src : Bytes) : base64_encode_int signed src = Base64.encode src := by
  have hlt : ∀ b : UInt8, b.toNat < 256 := fun b => b.toNat_lt
  induction src using base64_encode_int.induct with
  | case1 a b c src ih =>
    have ha := hlt a
    have hb := hlt b
    have hc := hlt c
    rw [base64_encode_int, Base64.encode_three, ih, base64_mapAt_eq (plainChar_parts signed a).1.1 (by omega),
      base64_mapAt_eq (plainChar_second signed a b) (by omega), base64_mapAt_eq (plainChar_third signed b c) (by omega),
      base64_mapAt_eq (plainChar_parts signed c).2.2.2 (by omega)]
  | case2 a b =>
    have ha := hlt a
    have hb := hlt b
    rw [base64_encode_int, Base64.encode_two, base64_mapAt_eq (plainChar_parts signed a).1.1 (by omega),
      base64_mapAt_eq (plainChar_second signed a b) (by omega),
      base64_mapAt_eq (plainChar_parts signed b).2.1.2 (by omega)]
  | case3 a =>
    have ha := hlt a
    rw [base64_encode_int, Base64.encode_one, base64_mapAt_eq (plainChar_parts signed a).1.1 (by omega),
      base64_mapAt_eq (plainChar_parts signed a).1.2 (by omega)]
  | case4 => exact Base64.encode_nil.symm

end Encoder

/-! ## The decoder -/

/-- The table of the characters that count: its loop reaches the NUL as well. -/
def inalphabet (c : UInt8) : Bool := c ∈ base64Alphabet

/-- The loop runs down, so every character keeps its first index. -/
def decoder (c : UInt8) : ℕ := base64Alphabet.idxOf c

/-- The variables of the loop; `c` has no value in front of the first character. -/
structure Base64Loop where
  bits : ℕ
  char_count : ℕ
  output : Bytes
  c : Option UInt8

/-- A character of the alphabet. -/
def Base64Loop.add (s : Base64Loop) (c : UInt8) : Base64Loop :=
  let bits := s.bits + decoder c
  let char_count := s.char_count + 1
  if char_count = 4 then
    ⟨0, 0, s.output ++ [UInt8.ofNat (bits >>> 16), UInt8.ofNat ((bits >>> 8) &&& 0xff), UInt8.ofNat (bits &&& 0xff)],
      some c⟩
  else ⟨bits <<< 6, char_count, s.output, some c⟩

/-- The loop, and what it leaves unread. -/
def base64Loop : Bytes → Base64Loop → Base64Loop × Bytes
  | [], s => (s, [])
  | c :: input, s =>
    if c = 61 then ({ s with c := some c }, c :: input)
    else if inalphabet c then base64Loop input (s.add c)
    else base64Loop input { s with c := some c }

/-- Behind the loop: the number of errors and the bytes. -/
def base64End (r : Base64Loop × Bytes) : Option (ℕ × Bytes) :=
  r.1.c.map fun c : UInt8 =>
    if c = 61 then
      match r.1.char_count with
      | 1 => (1, r.1.output)
      | 2 => (0, r.1.output ++ [UInt8.ofNat (r.1.bits >>> 10)])
      | 3 => (0, r.1.output ++ [UInt8.ofNat (r.1.bits >>> 16), UInt8.ofNat ((r.1.bits >>> 8) &&& 0xff)])
      | _ => (0, r.1.output)
    else if r.2 ≠ [] then (if r.1.char_count ≠ 0 then 1 else 0, r.1.output)
    else (0, r.1.output)

/-- `none` when the input is empty and `c` is read without a value. -/
def _base64Decode (input : Bytes) : Option (ℕ × Bytes) := base64End (base64Loop input ⟨0, 0, [], none⟩)

/-! ## Characters of the alphabet -/

theorem decoder_char {n : ℕ} (hn : n < 64) :
    Base64.char n ≠ 61 ∧ inalphabet (Base64.char n) = true ∧ decoder (Base64.char n) = n := by
  revert n
  decide +kernel

/-- A character in front of the fourth. -/
theorem loop_char {n count : ℕ} (hn : n < 64) (hcount : count < 3) (input output : Bytes) (bits : ℕ)
    (last : Option UInt8) : base64Loop (Base64.char n :: input) ⟨bits, count, output, last⟩ =
      base64Loop input ⟨(bits + n) * 64, count + 1, output, some (Base64.char n)⟩ := by
  obtain ⟨h61, hin, hdec⟩ := decoder_char hn
  rw [base64Loop, if_neg h61, if_pos hin, Base64Loop.add, hdec]
  simp only [if_neg (show count + 1 ≠ 4 by omega), Nat.shiftLeft_eq]

/-- The fourth character. -/
theorem loop_fourth {n : ℕ} (hn : n < 64) (input output : Bytes) (bits : ℕ) (last : Option UInt8) :
    base64Loop (Base64.char n :: input) ⟨bits, 3, output, last⟩ =
      base64Loop input ⟨0, 0, output ++ [UInt8.ofNat ((bits + n) >>> 16), UInt8.ofNat (((bits + n) >>> 8) &&& 0xff),
        UInt8.ofNat ((bits + n) &&& 0xff)], some (Base64.char n)⟩ := by
  obtain ⟨h61, hin, hdec⟩ := decoder_char hn
  rw [base64Loop, if_neg h61, if_pos hin, Base64Loop.add, hdec]
  rfl

/-- The bytes of a number. -/
theorem ofNat_bytes (a b c : UInt8) {n : ℕ} (h : n = (a.toNat * 256 + b.toNat) * 256 + c.toNat) :
    UInt8.ofNat (n >>> 16) = a ∧ UInt8.ofNat ((n >>> 8) &&& 0xff) = b ∧ UInt8.ofNat (n &&& 0xff) = c := by
  have hb := b.toNat_lt
  have hc := c.toNat_lt
  have hmask : ∀ m : ℕ, m &&& 0xff = m % 256 := fun m => Nat.and_two_pow_sub_one_eq_mod m 8
  rw [hmask, hmask, Nat.shiftRight_eq_div_pow, Nat.shiftRight_eq_div_pow, show n / 2 ^ 16 = a.toNat by omega,
    show n / 2 ^ 8 % 256 = b.toNat by omega, show n % 256 = c.toNat by omega]
  exact ⟨UInt8.ofNat_toNat, UInt8.ofNat_toNat, UInt8.ofNat_toNat⟩

/-- **Four characters** give three bytes. -/
theorem loop_four (a b c : UInt8) (input output : Bytes) (last : Option UInt8) :
    base64Loop ([Base64.char (a.toNat / 4), Base64.char (a.toNat % 4 * 16 + b.toNat / 16),
        Base64.char (b.toNat % 16 * 4 + c.toNat / 64), Base64.char (c.toNat % 64)] ++ input) ⟨0, 0, output, last⟩ =
      base64Loop input ⟨0, 0, output ++ [a, b, c], some (Base64.char (c.toNat % 64))⟩ := by
  have ha := a.toNat_lt
  have hb := b.toNat_lt
  have hc := c.toNat_lt
  simp only [List.cons_append, List.nil_append]
  rw [loop_char (by omega) (by omega), loop_char (by omega) (by omega), loop_char (by omega) (by omega),
    loop_fourth (by omega)]
  obtain ⟨h0, h1, h2⟩ := ofNat_bytes a b c (n := (((0 + a.toNat / 4) * 64 + (a.toNat % 4 * 16 + b.toNat / 16)) * 64 +
    (b.toNat % 16 * 4 + c.toNat / 64)) * 64 + c.toNat % 64) (by omega)
  rw [h0, h1, h2]

/-- Three characters and a `=`: 24 bits, of which the last eight are not taken. -/
theorem loop_two (a b : UInt8) (output : Bytes) (last : Option UInt8) :
    base64End (base64Loop [Base64.char (a.toNat / 4), Base64.char (a.toNat % 4 * 16 + b.toNat / 16),
      Base64.char (b.toNat % 16 * 4), 61] ⟨0, 0, output, last⟩) = some (0, output ++ [a, b]) := by
  have ha := a.toNat_lt
  have hb := b.toNat_lt
  rw [loop_char (by omega) (by omega), loop_char (by omega) (by omega), loop_char (by omega) (by omega), base64Loop,
    if_pos rfl]
  obtain ⟨h0, h1, -⟩ := ofNat_bytes a b 0 (n := (((0 + a.toNat / 4) * 64 + (a.toNat % 4 * 16 + b.toNat / 16)) * 64 +
    b.toNat % 16 * 4) * 64) (by
      have hzero : (0 : UInt8).toNat = 0 := rfl
      omega)
  simp only [base64End, Option.map_some, if_true, h0, h1]

/-- Two characters and two `=`: 18 bits, of which the last ten are not taken. -/
theorem loop_one (a : UInt8) (output : Bytes) (last : Option UInt8) :
    base64End (base64Loop [Base64.char (a.toNat / 4), Base64.char (a.toNat % 4 * 16), 61, 61] ⟨0, 0, output, last⟩) =
      some (0, output ++ [a]) := by
  have ha := a.toNat_lt
  rw [loop_char (by omega) (by omega), loop_char (by omega) (by omega), base64Loop, if_pos rfl]
  have hbyte : UInt8.ofNat ((((0 + a.toNat / 4) * 64 + a.toNat % 4 * 16) * 64) >>> 10) = a := by
    rw [Nat.shiftRight_eq_div_pow, show ((0 + a.toNat / 4) * 64 + a.toNat % 4 * 16) * 64 / 2 ^ 10 = a.toNat by omega]
    exact UInt8.ofNat_toNat
  simp only [base64End, Option.map_some, if_true, hbyte]

/-! ## Reading back -/

/-- Group by group: behind the last group of three, `c` is a character of the alphabet. -/
theorem loop_encode : ∀ (src output : Bytes) (last : Option UInt8), src ≠ [] ∨ (∃ c, last = some c ∧ c ≠ 61) →
    base64End (base64Loop (Base64.encode src) ⟨0, 0, output, last⟩) = some (0, output ++ src)
  | [], output, last, h => by
    obtain ⟨c, rfl, hc⟩ := h.resolve_left (fun hne => hne rfl)
    rw [Base64.encode_nil, base64Loop, List.append_nil]
    simp only [base64End, Option.map_some, if_neg hc]
    rfl
  | [a], output, last, _ => by rw [Base64.encode_one, loop_one]
  | [a, b], output, last, _ => by rw [Base64.encode_two, loop_two]
  | a :: b :: c :: src, output, last, _ => by
    have hc := decoder_char (show c.toNat % 64 < 64 by omega)
    rw [Base64.encode_three, loop_four, loop_encode src _ _ (Or.inr ⟨_, rfl, hc.1⟩), List.append_assoc]
    rfl

/-- **The decoder reads back what the encoder wrote**, whatever the sign of a plain `char`. -/
theorem base64_roundtrip (signed : Bool) (b : Bytes) (hb : b ≠ []) :
    _base64Decode (base64_encode_int signed b) = some (0, b) := by
  rw [_base64Decode, base64_encode_int_eq, loop_encode b [] none (Or.inl hb), List.nil_append]

theorem base64_roundtrip_two : _base64Decode (base64_encode_int true [0xFF, 0x80]) = some (0, [0xFF, 0x80]) :=
  base64_roundtrip true [0xFF, 0x80] (by decide)

/-- The decoder does not look for `=` in front of an incomplete group. -/
example : _base64Decode (ascii "QUJDRA") = some (0, ascii "ABC") := by decide +kernel

end Esp32Base
