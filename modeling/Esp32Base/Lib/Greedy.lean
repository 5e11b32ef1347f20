import Mathlib.Data.List.Infix

/-!
# Lib.Greedy — searching for a pattern without going back

A matcher compares a text with its pattern from the front. At a letter that does not go on with the pattern it starts
over, behind this letter. What a failed attempt consumes is a *block*, and only the occurrences behind whole blocks are
seen.

* `attempt_cases`: one attempt.
* `scan_cases`: a whole text.
-/

namespace Lib.Greedy

variable {α : Type} (p : List α)

/-- What a failed attempt consumes: a proper beginning of the pattern, and a letter that does not go on with it. -/
def Block (b : List α) : Prop := ∃ k c, k < p.length ∧ p[k]? ≠ some c ∧ b = p.take k ++ [c]

/-- The matcher starts an attempt behind `pre`. -/
def Reached (pre : List α) : Prop := ∃ bs : List (List α), (∀ b ∈ bs, Block p b) ∧ pre = bs.flatten

variable {p}

theorem Block.ne_nil {b : List α} (h : Block p b) : b ≠ [] := by
  obtain ⟨k, c, -, -, rfl⟩ := h
  exact List.append_ne_nil_of_right_ne_nil _ (List.cons_ne_nil _ _)

theorem reached_nil : Reached p [] := ⟨[], fun _ hb => absurd hb List.not_mem_nil, rfl⟩

theorem Reached.cons {b pre : List α} (hb : Block p b) (h : Reached p pre) : Reached p (b ++ pre) := by
  obtain ⟨bs, hbs, rfl⟩ := h
  exact ⟨b :: bs, List.forall_mem_cons.mpr ⟨hb, hbs⟩, rfl⟩

/-- What holds in front of the text and goes on over a block holds behind every text that is reached. -/
theorem Reached.induction {motive : (pre : List α) → Reached p pre → Prop} (nil : motive [] reached_nil)
    (cons : ∀ b pre (hb : Block p b) (h : Reached p pre), motive pre h → motive (b ++ pre) (h.cons hb))
    {pre : List α} (h : Reached p pre) : motive pre h := by
  obtain ⟨bs, hbs, rfl⟩ := h
  induction bs with
  | nil => exact nil
  | cons b bs ih =>
    rw [List.forall_mem_cons] at hbs
    exact cons b bs.flatten hbs.1 ⟨bs, hbs.2, rfl⟩ (ih hbs.2)

/-- A letter behind a block that begins with the same letter. -/
theorem Block.grow {a : α} {b : List α} (h : Block p b) : Block (a :: p) (a :: b) := by
  obtain ⟨k, c, hk, hc, rfl⟩ := h
  exact ⟨k + 1, c, Nat.succ_lt_succ hk, hc, rfl⟩

/-- **One attempt**: the pattern is there, the text ends inside it, or a block is consumed. -/
theorem attempt_cases (p s : List α) : (∃ post, s = p ++ post) ∨ (∃ k, k < p.length ∧ s = p.take k) ∨
    ∃ b rest, Block p b ∧ s = b ++ rest := by
  induction p generalizing s with
  | nil => exact Or.inl ⟨s, rfl⟩
  | cons a p ih =>
    cases s with
    | nil => exact Or.inr (Or.inl ⟨0, Nat.succ_pos _, rfl⟩)
    | cons c s =>
      by_cases hc : a = c
      · subst hc
        rcases ih s with ⟨post, rfl⟩ | ⟨k, hk, rfl⟩ | ⟨b, rest, hb, rfl⟩
        · exact Or.inl ⟨post, rfl⟩
        · exact Or.inr (Or.inl ⟨k + 1, Nat.succ_lt_succ hk, rfl⟩)
        · exact Or.inr (Or.inr ⟨a :: b, rest, hb.grow, rfl⟩)
      · refine Or.inr (Or.inr ⟨[c], s, ⟨0, c, Nat.succ_pos _, ?_, rfl⟩, rfl⟩)
        intro h
        exact hc (Option.some.inj h)

/-- **A whole text**: an occurrence is reached, or the text ends in an attempt. -/
theorem scan_cases (p s : List α) : (∃ pre post, Reached p pre ∧ s = pre ++ (p ++ post)) ∨
    ∃ pre k, Reached p pre ∧ k < p.length ∧ s = pre ++ p.take k := by
  induction hn : s.length using Nat.strong_induction_on generalizing s with
  | _ n ih =>
    rcases attempt_cases p s with ⟨post, hs⟩ | ⟨k, hk, hs⟩ | ⟨b, rest, hb, rfl⟩
    · exact Or.inl ⟨[], post, reached_nil, hs⟩
    · exact Or.inr ⟨[], k, reached_nil, hk, hs⟩
    · have hpos := List.length_pos_iff.mpr hb.ne_nil
      rw [List.length_append] at hn
      rcases ih rest.length (by omega) rest rfl with ⟨pre, post, hpre, hrest⟩ | ⟨pre, k, hpre, hk, hrest⟩
      · exact Or.inl ⟨b ++ pre, post, hpre.cons hb, by rw [hrest, List.append_assoc]⟩
      · exact Or.inr ⟨b ++ pre, k, hpre.cons hb, hk, by rw [hrest, List.append_assoc]⟩

end Lib.Greedy
