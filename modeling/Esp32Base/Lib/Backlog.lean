import Mathlib.Data.List.Basic
import Mathlib.Algebra.Order.Ring.Nat

/-!
# Lib.Backlog — a consumer that takes at most one item an arrival

Items of known sizes lie end to end in a stream that arrives piece by piece; after every arrival the
consumer takes the first item if all of it is there, and never a second one.

* `taken_eq_length_iff`: everything is taken in the end iff no tail of the arrivals has to take more items
  than it has arrivals.
-/

namespace Lib.Backlog

/-- How many of the items of sizes `ls` lie whole inside the first `n` units. -/
def completed : List ℕ → ℕ → ℕ
  | [], _ => 0
  | l :: ls, n => if l ≤ n then completed ls (n - l) + 1 else 0

/-- How many items are taken when pieces of sizes `ns` arrive on top of a stock of `n` units. -/
def taken : List ℕ → ℕ → List ℕ → ℕ
  | _, _, [] => 0
  | [], _, _ :: _ => 0
  | l :: ls, n, k :: ns => if l ≤ n + k then taken ls (n + k - l) ns + 1 else taken (l :: ls) (n + k) ns

theorem taken_le : ∀ (ls : List ℕ) (n : ℕ) (ns : List ℕ), taken ls n ns ≤ ls.length
  | _, _, [] => by rw [taken]; exact Nat.zero_le _
  | [], _, _ :: _ => le_rfl
  | l :: ls, n, k :: ns => by
    have h1 := taken_le ls (n + k - l) ns
    have h2 := taken_le (l :: ls) (n + k) ns
    rw [taken]
    split_ifs
    · rw [List.length_cons]
      omega
    · exact h2

/-- The first of the numbers from 1 on, and the others one lower. -/
theorem forall_one_le_succ_iff {p : ℕ → Prop} {m : ℕ} :
    (∀ j, 1 ≤ j → j ≤ m + 1 → p j) ↔ p 1 ∧ ∀ i, 1 ≤ i → i ≤ m → p (i + 1) := by
  constructor
  · exact fun h => ⟨h 1 le_rfl (by omega), fun i h1 h2 => h (i + 1) (by omega) (by omega)⟩
  · rintro ⟨hone, h⟩ j h1 h2
    obtain ⟨i, rfl⟩ : ∃ i, j = i + 1 := ⟨j - 1, by omega⟩
    by_cases hi : 1 ≤ i
    · exact h i hi (by omega)
    · rwa [show i + 1 = 1 by omega]

/-- The arrivals behind the first `j` can take what the first `j` left. -/
theorem taken_eq_length_iff : ∀ (ls : List ℕ) (n : ℕ) (ns : List ℕ),
    taken ls n ns = ls.length ↔ ls.length ≤ ns.length ∧
      ∀ j, 1 ≤ j → j ≤ ns.length →
        ls.length ≤ completed ls (n + (ns.take j).sum) + (ns.length - j)
  | ls, n, [] => by
    simp only [taken, List.length_nil]
    constructor
    · exact fun h => ⟨Nat.le_of_eq h.symm, fun j h1 h2 => absurd h1 (by omega)⟩
    · exact fun h => (Nat.le_zero.mp h.1).symm
  | [], n, k :: ns => by simp [taken]
  | l :: ls, n, k :: ns => by
    have hsum : ∀ j, n + ((k :: ns).take (j + 1)).sum = n + k + (ns.take j).sum := fun j => by
      rw [List.take_succ_cons, List.sum_cons]
      omega
    have hone : n + ((k :: ns).take 1).sum = n + k := hsum 0
    rw [List.length_cons, List.length_cons, forall_one_le_succ_iff, hone]
    simp only [hsum]
    by_cases h : l ≤ n + k
    · -- the item is taken: it counts as complete from here on
      have hdone : ∀ j, completed (l :: ls) (n + k + (ns.take j).sum) =
          completed ls (n + k - l + (ns.take j).sum) + 1 := fun j => by
        rw [completed, if_pos (by omega), show n + k + (ns.take j).sum - l =
          n + k - l + (ns.take j).sum by omega]
      have hfirst : completed (l :: ls) (n + k) = completed ls (n + k - l) + 1 := hdone 0
      simp only [hdone, hfirst]
      rw [taken, if_pos h, Nat.add_right_cancel_iff, taken_eq_length_iff ls _ ns]
      constructor
      · rintro ⟨h0, hj⟩
        refine ⟨by omega, by omega, fun j h1 h2 => ?_⟩
        have := hj j h1 h2
        omega
      · rintro ⟨h0, -, hj⟩
        refine ⟨by omega, fun j h1 h2 => ?_⟩
        have := hj j h1 h2
        omega
    · -- nothing is complete after this arrival
      have hnone : completed (l :: ls) (n + k) = 0 := by rw [completed, if_neg h]
      rw [taken, if_neg h, ← List.length_cons, taken_eq_length_iff (l :: ls) _ ns, List.length_cons, hnone]
      constructor
      · rintro ⟨h0, hj⟩
        refine ⟨by omega, by omega, fun j h1 h2 => ?_⟩
        have := hj j h1 h2
        omega
      · rintro ⟨-, h0, hj⟩
        refine ⟨by omega, fun j h1 h2 => ?_⟩
        have := hj j h1 h2
        omega

/-- From an empty stock. -/
theorem taken_all_iff {ls : List ℕ} (ns : List ℕ) (hpos : ∀ l ∈ ls, 0 < l) :
    taken ls 0 ns = ls.length ↔
      ∀ j, j ≤ ns.length → ls.length ≤ completed ls (ns.take j).sum + (ns.length - j) := by
  have h0 : completed ls 0 = 0 := by
    cases ls with
    | nil => rfl
    | cons l ls =>
      have := hpos l (List.mem_cons_self ..)
      rw [completed, if_neg (by omega)]
  rw [taken_eq_length_iff]
  constructor
  · rintro ⟨hlen, hj⟩ j hle
    by_cases h1 : 1 ≤ j
    · have := hj j h1 hle
      rwa [Nat.zero_add] at this
    · obtain rfl : j = 0 := by omega
      rw [List.take_zero, List.sum_nil, h0]
      omega
  · intro h
    refine ⟨?_, fun j _ hle => by rw [Nat.zero_add]; exact h j hle⟩
    have := h 0 (Nat.zero_le _)
    rw [List.take_zero, List.sum_nil, h0] at this
    omega

end Lib.Backlog
