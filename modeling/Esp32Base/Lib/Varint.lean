import Mathlib.Algebra.Order.Ring.Nat
import Mathlib.Data.Nat.Log
import Mathlib.Data.List.Basic

/-!
# Lib.Varint — numbers in bytes of seven bits

The low seven bits first; every byte but the last has its high bit set.

* `decode_encode`: a number is read back from in front of anything.
* `encode_eq`: an encoding is bytes that continue and one that does not, which is all that a loop needs that looks for
  its end.
-/

namespace Lib.Varint

def encode (n : ℕ) : List UInt8 :=
  if n < 128 then [UInt8.ofNat n] else UInt8.ofNat (128 + n % 128) :: encode (n / 128)

/-- The number in front and what is behind it. -/
def decode : List UInt8 → Option (ℕ × List UInt8)
  | [] => none
  | c :: rest =>
    if c.toNat < 128 then some (c.toNat, rest)
    else (decode rest).map fun r => (c.toNat - 128 + 128 * r.1, r.2)

theorem encode_short {n : ℕ} (h : n < 128) : encode n = [UInt8.ofNat n] := by rw [encode, if_pos h]

theorem encode_long {n : ℕ} (h : 128 ≤ n) : encode n = UInt8.ofNat (128 + n % 128) :: encode (n / 128) := by
  rw [encode, if_neg (Nat.not_lt_of_le h)]

/-- A byte with its high bit. -/
theorem high_toNat (n : ℕ) : (UInt8.ofNat (128 + n % 128)).toNat = 128 + n % 128 := by
  have hmod := Nat.mod_lt n (show 0 < 128 by decide)
  rw [UInt8.toNat_ofNat', Nat.mod_eq_of_lt (by omega)]

theorem low_toNat {n : ℕ} (h : n < 128) : (UInt8.ofNat n).toNat = n := by
  rw [UInt8.toNat_ofNat', Nat.mod_eq_of_lt (by omega)]

/-- **Round trip**, whatever follows. -/
theorem decode_encode (n : ℕ) (rest : List UInt8) : decode (encode n ++ rest) = some (n, rest) := by
  induction n using Nat.strongRecOn with
  | _ n ih =>
    by_cases h : n < 128
    · rw [encode_short h, List.singleton_append, decode, low_toNat h, if_pos h]
    · have hlt : n / 128 < n := Nat.div_lt_self (by omega) (by decide)
      rw [encode_long (by omega), List.cons_append, decode, high_toNat, if_neg (by omega), ih _ hlt, Option.map_some]
      simp only [Option.some.injEq, Prod.mk.injEq, and_true]
      omega

/-- The bytes of an encoding. -/
theorem encode_eq (n : ℕ) : ∃ front last, encode n = front ++ [last] ∧ (∀ c ∈ front, 128 ≤ c.toNat) ∧
    last.toNat < 128 := by
  induction n using Nat.strongRecOn with
  | _ n ih =>
    by_cases h : n < 128
    · exact ⟨[], UInt8.ofNat n, encode_short h, by simp, by rwa [low_toNat h]⟩
    · obtain ⟨front, last, heq, hfront, hlast⟩ := ih (n / 128) (Nat.div_lt_self (by omega) (by decide))
      refine ⟨UInt8.ofNat (128 + n % 128) :: front, last, ?_, ?_, hlast⟩
      · rw [encode_long (by omega), heq, List.cons_append]
      · intro c hc
        rcases List.mem_cons.mp hc with rfl | hc
        · rw [high_toNat]
          omega
        · exact hfront c hc

/-- As many bytes as the number has groups of seven bits. -/
theorem encode_length_le (k : ℕ) : ∀ {n : ℕ}, n < 128 ^ (k + 1) → (encode n).length ≤ k + 1 := by
  induction k with
  | zero =>
    intro n h
    rw [encode_short (by simpa using h), List.length_singleton]
  | succ k ih =>
    intro n h
    by_cases hn : n < 128
    · rw [encode_short hn, List.length_singleton]
      omega
    · rw [encode_long (by omega), List.length_cons]
      have hdiv : n / 128 < 128 ^ (k + 1) := (Nat.div_lt_iff_lt_mul (by decide)).mpr (by rwa [← Nat.pow_succ])
      exact Nat.succ_le_succ (ih hdiv)

theorem encode_length_pos (n : ℕ) : 0 < (encode n).length := by
  obtain ⟨front, last, heq, -, -⟩ := encode_eq n
  rw [heq, List.length_append, List.length_singleton]
  omega

end Lib.Varint
