import Mathlib.Data.List.TakeWhile
import Mathlib.Data.List.TakeDrop

/-!
# Lib.Tok — texts cut at a delimiter, and the scanner that keeps its place

`strtok_r` gives the tokens of a text one call after the other. A save pointer is NULL behind the last token, and
otherwise the text behind the delimiter that ended the token.

* `next_cases`: one call gives the first token and saves the place of the others.
* `tokens_eq_nil`: a text without tokens has delimiters only.
-/

namespace Lib.Tok

variable {α : Type}

/-- How much text there is behind a save pointer, its NUL included. -/
def ahead (save : Option (List α)) : ℕ := save.elim 0 fun s => s.length + 1

@[simp] theorem ahead_none : ahead (none : Option (List α)) = 0 := rfl

@[simp] theorem ahead_some (s : List α) : ahead (some s) = s.length + 1 := rfl

variable [DecidableEq α] (d : α)

/-- The first token, and the save pointer behind it. -/
def next (s : List α) : Option (List α) × Option (List α) :=
  match s.dropWhile (· = d) with
  | [] => (none, none)
  | c :: t => (some ((c :: t).takeWhile (· ≠ d)), ((c :: t).dropWhile (· ≠ d)).tail?)

/-- `strtok_r(s, d, &save)`; with NULL for `s` it goes on behind the save pointer. -/
def strtok_r (s save : Option (List α)) : Option (List α) × Option (List α) :=
  match s with
  | some s => next d s
  | none =>
    match save with
    | some s => next d s
    | none => (none, none)

/-- The runs between delimiters. -/
def tokens (s : List α) : List (List α) := (s.splitOn d).filter (· ≠ [])

/-- The tokens behind a save pointer. -/
def saved (save : Option (List α)) : List (List α) := save.elim [] (tokens d)

variable {d}

@[simp] theorem saved_none : saved d none = [] := rfl

@[simp] theorem saved_some (s : List α) : saved d (some s) = tokens d s := rfl

/-! ## Tokens -/

@[simp] theorem tokens_nil : tokens d [] = [] := rfl

theorem tokens_append_cons (s t : List α) : tokens d (s ++ d :: t) = tokens d s ++ tokens d t := by
  unfold tokens
  rw [List.splitOn_append_cons_self, List.filter_append]

@[simp] theorem tokens_cons_self (t : List α) : tokens d (d :: t) = tokens d t := tokens_append_cons [] t

theorem tokens_of_notMem {s : List α} (h : d ∉ s) (hs : s ≠ []) : tokens d s = [s] := by
  unfold tokens
  rw [List.splitOn_eq_singleton h, List.filter_cons_of_pos (by simpa using hs), List.filter_nil]

/-- Texts without the delimiter, joined by it. -/
theorem tokens_intercalate {ss : List (List α)} (h : ∀ s ∈ ss, d ∉ s ∧ s ≠ []) :
    tokens d ([d].intercalate ss) = ss := by
  cases ss with
  | nil => rfl
  | cons s ss =>
    unfold tokens
    rw [List.splitOn_intercalate d (fun s hs => (h s hs).1) (List.cons_ne_nil _ _), List.filter_eq_self]
    intro s hs
    simpa using (h s hs).2

/-- A piece is part of the text and has no delimiter. -/
theorem mem_splitOn {s w : List α} (h : w ∈ s.splitOn d) : d ∉ w ∧ w <:+: s := by
  induction hn : s.length using Nat.strong_induction_on generalizing s with
  | _ n ih =>
    by_cases hd : d ∈ s
    · obtain ⟨p, t, rfl, hp⟩ := List.eq_append_cons_of_mem hd
      rw [List.splitOn_append_cons_self_of_not_mem hp] at h
      rw [List.length_append, List.length_cons] at hn
      rcases List.mem_cons.mp h with rfl | h
      · exact ⟨hp, (List.prefix_append _ _).isInfix⟩
      · obtain ⟨hw, hin⟩ := ih t.length (by omega) h rfl
        exact ⟨hw, hin.trans ⟨p ++ [d], [], by simp⟩⟩
    · rw [List.splitOn_eq_singleton hd, List.mem_singleton] at h
      rw [h]
      exact ⟨hd, List.infix_refl s⟩

/-- A token is not empty, has no delimiter and is part of the text. -/
theorem mem_tokens {s w : List α} (h : w ∈ tokens d s) : w ≠ [] ∧ d ∉ w ∧ w <:+: s := by
  obtain ⟨hsplit, hne⟩ := List.mem_filter.mp h
  exact ⟨by simpa using hne, mem_splitOn hsplit⟩

/-! ## One call -/

/-- A token in front of a delimiter. -/
theorem next_append {w : List α} (hd : d ∉ w) (hw : w ≠ []) (t : List α) :
    next d (w ++ d :: t) = (some w, some t) := by
  obtain ⟨c, w, rfl⟩ := List.exists_cons_of_ne_nil hw
  have hall : ∀ x ∈ c :: w, decide (x ≠ d) = true :=
    fun x hx => decide_eq_true (ne_of_mem_of_not_mem hx hd)
  have hdrop : ((c :: w) ++ d :: t).dropWhile (· = d) = (c :: w) ++ d :: t :=
    List.dropWhile_cons_of_neg (by simpa using hall c (List.mem_cons_self ..))
  unfold next
  rw [hdrop, List.cons_append]
  simp only
  rw [← List.cons_append, List.takeWhile_append_of_pos hall, List.dropWhile_append_of_pos hall,
    List.takeWhile_cons_of_neg (by simp), List.dropWhile_cons_of_neg (by simp), List.append_nil]
  rfl

/-- A token at the end. -/
theorem next_last {w : List α} (hd : d ∉ w) (hw : w ≠ []) : next d w = (some w, none) := by
  obtain ⟨c, w, rfl⟩ := List.exists_cons_of_ne_nil hw
  have hall : ∀ x ∈ c :: w, decide (x ≠ d) = true :=
    fun x hx => decide_eq_true (ne_of_mem_of_not_mem hx hd)
  have hdrop : (c :: w).dropWhile (· = d) = c :: w :=
    List.dropWhile_cons_of_neg (by simpa using hall c (List.mem_cons_self ..))
  unfold next
  rw [hdrop]
  simp only
  rw [List.takeWhile_eq_self_iff.mpr hall, List.dropWhile_eq_nil_iff.mpr hall]
  rfl

theorem next_cons_self (t : List α) : next d (d :: t) = next d t := by
  unfold next
  rw [List.dropWhile_cons_of_pos (by simp)]

/-- **One call**: no token, or the first one, with the others behind the save pointer. -/
theorem next_cases (s : List α) : (next d s = (none, none) ∧ tokens d s = []) ∨
    ∃ w save, next d s = (some w, save) ∧ tokens d s = w :: saved d save ∧ ahead save ≤ s.length := by
  induction s with
  | nil => exact Or.inl ⟨rfl, rfl⟩
  | cons c s ih =>
    by_cases hc : c = d
    · subst hc
      rw [next_cons_self, tokens_cons_self]
      rcases ih with h | ⟨w, save, hnext, htok, hlen⟩
      · exact Or.inl h
      · exact Or.inr ⟨w, save, hnext, htok, hlen.trans (Nat.le_succ _)⟩
    · right
      by_cases hd : d ∈ c :: s
      · obtain ⟨w, t, hsplit, hw⟩ := List.eq_append_cons_of_mem hd
        have hne : w ≠ [] := by
          rintro rfl
          exact hc (List.cons.inj hsplit).1
        rw [hsplit, next_append hw hne, tokens_append_cons, tokens_of_notMem hw hne]
        exact ⟨w, some t, rfl, rfl, by simp⟩
      · rw [next_last hd (List.cons_ne_nil _ _), tokens_of_notMem hd (List.cons_ne_nil _ _)]
        exact ⟨c :: s, none, rfl, rfl, Nat.zero_le _⟩

@[simp] theorem strtok_r_some (s : List α) (save : Option (List α)) : strtok_r d (some s) save = next d s := rfl

/-- A call that goes on behind the save pointer. -/
theorem strtok_r_none (save : Option (List α)) :
    (strtok_r d none save = (none, none) ∧ saved d save = []) ∨
      ∃ w save', strtok_r d none save = (some w, save') ∧ saved d save = w :: saved d save' ∧
        ahead save' < ahead save := by
  cases save with
  | none => exact Or.inl ⟨rfl, rfl⟩
  | some s =>
    rcases next_cases (d := d) s with h | ⟨w, save', hnext, htok, hlen⟩
    · exact Or.inl h
    · exact Or.inr ⟨w, save', hnext, htok, Nat.lt_succ_of_le hlen⟩

theorem strtok_r_ahead {save save' : Option (List α)} {w : List α} (h : strtok_r d none save = (some w, save')) :
    ahead save' < ahead save := by
  rcases strtok_r_none (d := d) save with ⟨hnone, -⟩ | ⟨w', save'', hsome, -, hlen⟩
  · exact nomatch h.symm.trans hnone
  · obtain ⟨-, rfl⟩ := Prod.mk.inj (h.symm.trans hsome)
    exact hlen

/-- A text without tokens has delimiters only. -/
theorem tokens_eq_nil {s : List α} : tokens d s = [] ↔ ∀ c ∈ s, c = d := by
  induction s with
  | nil => simp
  | cons c s ih =>
    by_cases hc : c = d
    · subst hc
      rw [tokens_cons_self, ih]
      simp
    · have hne : tokens d (c :: s) ≠ [] := by
        rcases next_cases (d := d) (c :: s) with ⟨hnext, -⟩ | ⟨w, save, -, htok, -⟩
        · unfold next at hnext
          rw [List.dropWhile_cons_of_neg (by simpa using hc)] at hnext
          cases hnext
        · rw [htok]
          exact List.cons_ne_nil _ _
      constructor
      · intro h
        exact absurd h hne
      · intro h
        exact absurd (h c (List.mem_cons_self ..)) hc

end Lib.Tok
