import Mathlib.Tactic.Ring
import Esp32Base.Lib.Buf

/-!
# Lib.Base64 — the base64 encoding of RFC 4648

The input is one string of bits, read six at a time; a last group that is too short is filled with zero bits, and the
text is filled with `=` to a multiple of four characters.

* `encode_three`, `encode_two`, `encode_one`: the text by groups of three bytes, in numbers.
* `mem_encode`: its characters.
-/

namespace Lib.Base64

/-- The eight bits of a byte, the most significant one first. -/
def bits (b : UInt8) : List Bool := (List.range 8).map fun i => b.toNat.testBit (7 - i)

/-- The number that bits spell, the most significant one first. -/
def value (bs : List Bool) : ℕ := bs.foldl (fun n b => 2 * n + b.toNat) 0

/-- The groups of six bits as numbers. -/
def sextets : List Bool → List ℕ
  | [] => []
  | b0 :: b1 :: b2 :: b3 :: b4 :: b5 :: bs => value [b0, b1, b2, b3, b4, b5] :: sextets bs
  | bs => [value (bs ++ List.replicate (6 - bs.length) false)]

def alphabet : Bytes := ascii "ABCDEFGHIJKLMNOPQRSTUVWXYZabcdefghijklmnopqrstuvwxyz0123456789+/"

/-- The character of a number below 64. -/
def char (n : ℕ) : UInt8 := alphabet.getD n 0

/-- The characters and their `=`. -/
def pad (chars : Bytes) : Bytes := chars ++ List.replicate ((4 - chars.length % 4) % 4) 61

def encode (src : Bytes) : Bytes := pad ((sextets (src.flatMap bits)).map char)

/-! ## Bits -/

theorem bits_length (b : UInt8) : (bits b).length = 8 := by
  rw [bits, List.length_map, List.length_range]

/-- The parts of a byte that its bits spell. -/
theorem value_bits (b : UInt8) :
    (value ((bits b).take 6) = b.toNat / 4 ∧ value ((bits b).drop 6) = b.toNat % 4) ∧
      (value ((bits b).take 4) = b.toNat / 16 ∧ value ((bits b).drop 4) = b.toNat % 16) ∧
      value ((bits b).take 2) = b.toNat / 64 ∧ value ((bits b).drop 2) = b.toNat % 64 := by
  revert b
  apply forall_byte
  decide +kernel

theorem value_foldl (bs : List Bool) (n : ℕ) :
    bs.foldl (fun n b => 2 * n + b.toNat) n = n * 2 ^ bs.length + value bs := by
  induction bs generalizing n with
  | nil => simp [value]
  | cons b bs ih =>
    have h0 : value (b :: bs) = (2 * 0 + b.toNat) * 2 ^ bs.length + value bs := ih _
    rw [List.foldl_cons, ih, h0, List.length_cons, Nat.pow_succ]
    ring

theorem value_append (bs cs : List Bool) : value (bs ++ cs) = value bs * 2 ^ cs.length + value cs := by
  rw [value, List.foldl_append, value_foldl cs]
  rfl

/-- Zero bits behind a number. -/
theorem value_zeros (bs : List Bool) (k : ℕ) : value (bs ++ List.replicate k false) = value bs * 2 ^ k := by
  have hzero : value (List.replicate k false) = 0 := by
    induction k with
    | zero => rfl
    | succ k ih =>
      rw [List.replicate_succ, value, List.foldl_cons]
      exact ih
  rw [value_append, hzero, List.length_replicate, Nat.add_zero]

/-! ## Groups -/

theorem sextets_append {g : List Bool} (hg : g.length = 6) (bs : List Bool) :
    sextets (g ++ bs) = value g :: sextets bs := by
  match g, hg with
  | [_, _, _, _, _, _], _ => rfl

theorem sextets_short {g : List Bool} (h0 : 0 < g.length) (h6 : g.length < 6) :
    sextets g = [value g * 2 ^ (6 - g.length)] := by
  rw [← value_zeros]
  match g, h0, h6 with
  | [_], _, _ => rfl
  | [_, _], _, _ => rfl
  | [_, _, _], _, _ => rfl
  | [_, _, _, _], _, _ => rfl
  | [_, _, _, _, _], _, _ => rfl

/-- Four characters in front do not change the filling. -/
theorem pad_four (c0 c1 c2 c3 : UInt8) (chars : Bytes) :
    pad (c0 :: c1 :: c2 :: c3 :: chars) = c0 :: c1 :: c2 :: c3 :: pad chars := by
  have hmod : (c0 :: c1 :: c2 :: c3 :: chars).length % 4 = chars.length % 4 := by
    simp only [List.length_cons]
    omega
  rw [pad, hmod]
  rfl

section Encode

variable (a b c : UInt8) (src : Bytes)

/-- The group that ends in the second byte. -/
theorem value_second (a b : UInt8) :
    value ((bits a).drop 6 ++ (bits b).take 4) = a.toNat % 4 * 16 + b.toNat / 16 := by
  rw [value_append, (value_bits a).1.2, (value_bits b).2.1.1, List.length_take, bits_length]
  rfl

/-- The group that ends in the third byte. -/
theorem value_third (b c : UInt8) :
    value ((bits b).drop 4 ++ (bits c).take 2) = b.toNat % 16 * 4 + c.toNat / 64 := by
  rw [value_append, (value_bits b).2.1.2, (value_bits c).2.2.1, List.length_take, bits_length]
  rfl

theorem encode_nil : encode [] = [] := rfl

/-- **Three bytes** are four characters. -/
theorem encode_three : encode (a :: b :: c :: src) =
    [char (a.toNat / 4), char (a.toNat % 4 * 16 + b.toNat / 16), char (b.toNat % 16 * 4 + c.toNat / 64),
      char (c.toNat % 64)] ++ encode src := by
  have hsplit : (a :: b :: c :: src).flatMap bits = (bits a).take 6 ++ (((bits a).drop 6 ++ (bits b).take 4) ++
      (((bits b).drop 4 ++ (bits c).take 2) ++ ((bits c).drop 2 ++ src.flatMap bits))) := by
    rw [List.flatMap_cons, List.flatMap_cons, List.flatMap_cons]
    conv_lhs => rw [← List.take_append_drop 6 (bits a), ← List.take_append_drop 4 (bits b),
      ← List.take_append_drop 2 (bits c)]
    simp only [List.append_assoc]
  have hlen : ∀ b : UInt8, ((bits b).take 6).length = 6 ∧ ((bits b).drop 2).length = 6 := fun b => by
    simp [bits_length]
  rw [encode, hsplit, sextets_append (hlen a).1, sextets_append (by simp [bits_length]),
    sextets_append (by simp [bits_length]), sextets_append (hlen c).2, (value_bits a).1.1, value_second, value_third,
    (value_bits c).2.2.2]
  exact pad_four _ _ _ _ _

/-- Two bytes are three characters and a `=`. -/
theorem encode_two : encode [a, b] =
    [char (a.toNat / 4), char (a.toNat % 4 * 16 + b.toNat / 16), char (b.toNat % 16 * 4), 61] := by
  have hsplit : [a, b].flatMap bits = (bits a).take 6 ++ (((bits a).drop 6 ++ (bits b).take 4) ++ (bits b).drop 4) := by
    rw [List.flatMap_cons, List.flatMap_cons, List.flatMap_nil, List.append_nil]
    conv_lhs => rw [← List.take_append_drop 6 (bits a), ← List.take_append_drop 4 (bits b)]
    simp only [List.append_assoc]
  have h4 : ((bits b).drop 4).length = 4 := by simp [bits_length]
  rw [encode, hsplit, sextets_append (by simp [bits_length]), sextets_append (by simp [bits_length]),
    sextets_short (by omega) (by omega), (value_bits a).1.1, value_second, (value_bits b).2.1.2, h4]
  rfl

/-- One byte is two characters and two `=`. -/
theorem encode_one : encode [a] = [char (a.toNat / 4), char (a.toNat % 4 * 16), 61, 61] := by
  have hsplit : [a].flatMap bits = (bits a).take 6 ++ (bits a).drop 6 := by
    simp only [List.flatMap_cons, List.flatMap_nil, List.append_nil, List.take_append_drop]
  have h2 : ((bits a).drop 6).length = 2 := by simp [bits_length]
  rw [encode, hsplit, sextets_append (by simp [bits_length]), sextets_short (by omega) (by omega),
    (value_bits a).1.1, (value_bits a).1.2, h2]
  rfl

end Encode

example : encode (ascii "fo") = ascii "Zm8=" ∧ encode (ascii "foobar") = ascii "Zm9vYmFy" := by decide +kernel

/-! ## Characters -/

theorem value_lt (bs : List Bool) : value bs < 2 ^ bs.length := by
  induction bs with
  | nil => exact Nat.one_pos
  | cons b bs ih =>
    have hcons : value (b :: bs) = b.toNat * 2 ^ bs.length + value bs := by
      rw [value, List.foldl_cons, value_foldl, Nat.mul_zero, Nat.zero_add]
    have hb : b.toNat * 2 ^ bs.length ≤ 1 * 2 ^ bs.length := Nat.mul_le_mul_right _ (Bool.toNat_le b)
    rw [hcons, List.length_cons, Nat.pow_succ]
    omega

theorem sextets_lt (bs : List Bool) : ∀ n ∈ sextets bs, n < 64 := by
  induction bs using sextets.induct with
  | case1 => simp [sextets]
  | case2 b0 b1 b2 b3 b4 b5 bs ih =>
    intro n hn
    rcases List.mem_cons.mp hn with rfl | hn
    · exact value_lt [b0, b1, b2, b3, b4, b5]
    · exact ih n hn
  | case3 bs h0 h6 =>
    intro n hn
    have hlen : 0 < bs.length ∧ bs.length < 6 := by
      match bs with
      | [] => exact absurd rfl h0
      | [_] => simp
      | [_, _] => simp
      | [_, _, _] => simp
      | [_, _, _, _] => simp
      | [_, _, _, _, _] => simp
      | b0 :: b1 :: b2 :: b3 :: b4 :: b5 :: bs => exact absurd rfl (h6 b0 b1 b2 b3 b4 b5 bs)
    rw [sextets_short hlen.1 hlen.2, List.mem_singleton, ← value_zeros] at hn
    have hlt := value_lt (bs ++ List.replicate (6 - bs.length) false)
    rw [List.length_append, List.length_replicate, show bs.length + (6 - bs.length) = 6 by omega] at hlt
    omega

theorem char_mem {n : ℕ} (h : n < 64) : char n ∈ alphabet := by
  have hlen : alphabet.length = 64 := by decide +kernel
  rw [char, List.getD_eq_getElem?_getD, List.getElem?_eq_getElem (by omega), Option.getD_some]
  exact List.getElem_mem _

/-- The text has characters of the alphabet and `=`. -/
theorem mem_encode {src : Bytes} {c : UInt8} (h : c ∈ encode src) : c ∈ alphabet ∨ c = 61 := by
  rcases List.mem_append.mp h with h | h
  · obtain ⟨n, hn, rfl⟩ := List.mem_map.mp h
    exact Or.inl (char_mem (sextets_lt _ n hn))
  · exact Or.inr (List.eq_of_mem_replicate h)

end Lib.Base64
