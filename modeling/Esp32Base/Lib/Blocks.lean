import Mathlib.Data.List.Basic
import Esp32Base.Lib.Calls

/-!
# Lib.Blocks — messages compressed block by block

A compression function takes a state and a block of `size` letters. `absorb` runs it over the whole blocks of a
message and keeps what is left over.

* `absorb_append`: a message in two parts is absorbed part by part.
* `absorb_padded_short`, `absorb_padded_long`: the one or two blocks that padding adds to what is left over.
* `digestStep`: what an object that takes a message in pieces and is asked for its digest should answer.
-/

namespace Lib.Blocks

variable {α σ : Type} (size : ℕ) (compress : σ → List α → σ)

/-- The state behind the whole blocks, and the letters behind them. -/
def absorb (s : σ) (x : List α) : σ × List α :=
  if 0 < size ∧ size ≤ x.length then absorb (compress s (x.take size)) (x.drop size) else (s, x)
termination_by x.length
decreasing_by
  rw [List.length_drop]
  omega

/-- The zeros that fill the last block of `n` letters. -/
def fill (n : ℕ) : ℕ := (size - n % size) % size

/-- A mark behind the message, zeros, and the length field at the end of a block. -/
def blockPadded (mark zero : α) (len x : List α) : List α :=
  x ++ mark :: (List.replicate (fill size (x.length + 1 + len.length)) zero ++ len)

variable {size compress}

theorem absorb_short (s : σ) {x : List α} (h : x.length < size) : absorb size compress s x = (s, x) := by
  rw [absorb, if_neg (by omega)]

theorem absorb_block (hsize : 0 < size) (s : σ) {b : List α} (hb : b.length = size) (y : List α) :
    absorb size compress s (b ++ y) = absorb size compress (compress s b) y := by
  rw [absorb, if_pos ⟨hsize, by rw [List.length_append]; omega⟩, ← hb, List.take_left, List.drop_left]

/-- A block that is whole at last. -/
theorem absorb_one (hsize : 0 < size) (s : σ) {b : List α} (hb : b.length = size) :
    absorb size compress s b = (compress s b, []) := by
  have h : absorb size compress s (b ++ []) = absorb size compress (compress s b) [] := absorb_block hsize s hb []
  rwa [List.append_nil, absorb_short (compress s b) (show [].length < size from hsize)] at h

/-- **Part by part**: what is left over of the first part is met by the second. -/
theorem absorb_append (hsize : 0 < size) (x y : List α) : ∀ s : σ, absorb size compress s (x ++ y) =
    absorb size compress (absorb size compress s x).1 ((absorb size compress s x).2 ++ y) := by
  induction h : x.length using Nat.strongRecOn generalizing x with
  | _ n ih =>
    intro s
    by_cases hle : size ≤ x.length
    · have hb : (x.take size).length = size := List.length_take_of_le hle
      have hx : x = x.take size ++ x.drop size := (List.take_append_drop size x).symm
      have hshrink : (x.drop size).length < n := by
        rw [List.length_drop]
        omega
      rw [hx, List.append_assoc, absorb_block hsize s hb, absorb_block hsize s hb]
      exact ih _ hshrink (x.drop size) rfl _
    · rw [absorb_short s (Nat.lt_of_not_le hle)]

theorem absorb_rest_length (hsize : 0 < size) (x : List α) : ∀ s : σ,
    (absorb size compress s x).2.length = x.length % size := by
  induction h : x.length using Nat.strongRecOn generalizing x with
  | _ n ih =>
    intro s
    by_cases hle : size ≤ x.length
    · have hb : (x.take size).length = size := List.length_take_of_le hle
      have hdrop : (x.drop size).length = n - size := by rw [List.length_drop, h]
      have hshrink : n - size < n := by omega
      rw [← List.take_append_drop size x, absorb_block hsize s hb, ih _ hshrink _ hdrop _]
      exact (Nat.mod_eq_sub_mod (h ▸ hle)).symm
    · rw [absorb_short s (Nat.lt_of_not_le hle), h, Nat.mod_eq_of_lt (by omega)]

theorem absorb_rest_lt (hsize : 0 < size) (s : σ) (x : List α) : (absorb size compress s x).2.length < size := by
  rw [absorb_rest_length hsize]
  exact Nat.mod_lt _ hsize

/-- One letter more completes the block or waits. -/
theorem absorb_concat (hsize : 0 < size) (s : σ) (x : List α) (a : α) :
    absorb size compress s (x ++ [a]) =
      if (absorb size compress s x).2.length + 1 = size then
        (compress (absorb size compress s x).1 ((absorb size compress s x).2 ++ [a]), [])
      else ((absorb size compress s x).1, (absorb size compress s x).2 ++ [a]) := by
  have hrest : (absorb size compress s x).2.length < size := absorb_rest_lt hsize s x
  have hlen : ((absorb size compress s x).2 ++ [a]).length = (absorb size compress s x).2.length + 1 := by
    rw [List.length_append, List.length_singleton]
  rw [absorb_append hsize]
  by_cases hfull : (absorb size compress s x).2.length + 1 = size
  · rw [if_pos hfull, absorb_one hsize _ (hlen.trans hfull)]
  · rw [if_neg hfull, absorb_short _ (by omega)]

/-! ## Padding -/

section Padding

variable (mark zero : α) {len : List α}

/-- The zeros in terms of what is left over. -/
theorem fill_eq (hlen : len.length < size) (x : List α) : fill size (x.length + 1 + len.length) =
    if x.length % size + 1 + len.length ≤ size then size - 1 - len.length - x.length % size
    else 2 * size - 1 - len.length - x.length % size := by
  have hmod := Nat.mod_lt x.length (show 0 < size by omega)
  have hsum : (x.length + 1 + len.length) % size = (x.length % size + 1 + len.length) % size := by
    rw [Nat.add_assoc, Nat.add_assoc, Nat.mod_add_mod]
  rw [fill, hsum]
  split_ifs with hfit
  · rcases Nat.lt_or_eq_of_le hfit with hlt | heq
    · rw [Nat.mod_eq_of_lt hlt, Nat.mod_eq_of_lt (by omega)]
      omega
    · rw [heq, Nat.mod_self, Nat.sub_zero, Nat.mod_self]
      omega
  · have hover : (x.length % size + 1 + len.length) % size = x.length % size + 1 + len.length - size := by
      rw [Nat.mod_eq_sub_mod (by omega), Nat.mod_eq_of_lt (by omega)]
    rw [hover, Nat.mod_eq_of_lt (by omega)]
    omega

/-- Mark, zeros and length fit behind what is left over. -/
theorem absorb_padded_short (hlen : len.length < size) (s : σ) (x : List α)
    (hfit : (absorb size compress s x).2.length + 1 + len.length ≤ size) :
    (absorb size compress s (blockPadded size mark zero len x)).1 =
      compress (absorb size compress s x).1 ((absorb size compress s x).2 ++ mark ::
        (List.replicate (size - 1 - len.length - (absorb size compress s x).2.length) zero ++ len)) := by
  have hsize : 0 < size := by omega
  have hrest : (absorb size compress s x).2.length = x.length % size := absorb_rest_length hsize x s
  rw [blockPadded, absorb_append hsize, fill_eq hlen, ← hrest, if_pos hfit, absorb_one hsize]
  simp only [List.length_append, List.length_cons, List.length_replicate]
  omega

/-- The mark ends one block, and the length another. -/
theorem absorb_padded_long (hlen : len.length < size) (s : σ) (x : List α)
    (hfit : ¬ (absorb size compress s x).2.length + 1 + len.length ≤ size) :
    (absorb size compress s (blockPadded size mark zero len x)).1 =
      compress (compress (absorb size compress s x).1 ((absorb size compress s x).2 ++ mark ::
        List.replicate (size - 1 - (absorb size compress s x).2.length) zero))
        (List.replicate (size - len.length) zero ++ len) := by
  have hsize : 0 < size := by omega
  have hrest : (absorb size compress s x).2.length = x.length % size := absorb_rest_length hsize x s
  have hlt : (absorb size compress s x).2.length < size := absorb_rest_lt hsize s x
  rw [blockPadded, absorb_append hsize, fill_eq hlen, ← hrest, if_neg hfit]
  -- the zeros are split where the first block ends
  have hsplit : 2 * size - 1 - len.length - (absorb size compress s x).2.length =
      (size - 1 - (absorb size compress s x).2.length) + (size - len.length) := by omega
  rw [hsplit, List.replicate_add, List.append_assoc, ← List.cons_append, ← List.append_assoc,
    absorb_block hsize, absorb_one hsize]
  · rw [List.length_append, List.length_replicate]
    omega
  · rw [List.length_append, List.length_cons, List.length_replicate]
    omega

end Padding

/-! ## Digest objects -/

/-- The calls of such an object. -/
inductive DigestCall (α : Type)
  | reset
  | input (piece : List α)
  | result
  deriving DecidableEq

/-- What it has been given. -/
inductive DigestObject (α : Type)
  | open (message : List α)
  | closed (message : List α)
  | spoiled
  deriving DecidableEq

/-- A digest is given for a message shorter than `limit`, any number of times; a piece behind it spoils the object
up to the next reset, as a message that is too long does. -/
def digestStep {δ : Type} (hash : List α → δ) (limit : ℕ) : DigestObject α → DigestCall α →
    DigestObject α × List (Option δ)
  | _, .reset => (.open [], [])
  | .open x, .input piece =>
    (if (x ++ piece).length < limit then .open (x ++ piece) else .spoiled, [])
  | .closed x, .input piece => (if piece = [] then .closed x else .spoiled, [])
  | .spoiled, .input _ => (.spoiled, [])
  | .open x, .result => (.closed x, [some (hash x)])
  | .closed x, .result => (.closed x, [some (hash x)])
  | .spoiled, .result => (.spoiled, [none])

end Lib.Blocks
