import Mathlib.Data.List.Induction
import Esp32Base.Http.Serv

/-!
# Http.Match — the matcher of `zhMatchString` over lines

The loop of `zhMatchString`, which `zhWebSockMatchString` repeats, keeps one number between two characters. On a
mismatch it starts over behind the character, so not every occurrence of the pattern is seen.

* `matchLoop_append`: what is copied out of two texts, by the number between them.
* `matchLoop_first`: the first occurrence is seen when it starts a line.
* `matchLoop_headers_length_lt_iff`: how much is copied out of header lines.
-/

namespace Esp32Base

open Lib Lib.Buf Lib.CText

section Match

variable (pattern : Bytes) (end_ : UInt8)

/-- The number of matched characters behind one more character. -/
def matchStep (p : ℕ) (c : UInt8) : ℕ :=
  if p = pattern.length then if EndsCopy end_ c then p + 1 else p
  else if p < pattern.length then if pattern[p]? = some c then p + 1 else 0
  else p

/-- The same behind a text. -/
def matched (p : ℕ) (src : Bytes) : ℕ := src.foldl (matchStep pattern end_) p

/-- What one character adds to the copy. -/
theorem matchLoop_cons (p : ℕ) (c : UInt8) (src : Bytes) : matchLoop pattern end_ p (c :: src) =
    (if p = pattern.length ∧ ¬ EndsCopy end_ c then [c] else []) ++
      matchLoop pattern end_ (matchStep pattern end_ p c) src := by
  by_cases hp : p = pattern.length
  · by_cases hc : c = 13 ∨ c = 10 ∨ end_ ≠ 0 ∧ c = end_
    · have hends : EndsCopy end_ c := hc
      rw [matchLoop, if_pos hp, if_pos hc, matchStep, if_pos hp, if_pos hends, if_neg (fun h => h.2 hends)]
      rfl
    · have hends : ¬ EndsCopy end_ c := hc
      rw [matchLoop, if_pos hp, if_neg hc, matchStep, if_pos hp, if_neg hends, if_pos ⟨hp, hends⟩]
      rfl
  · have hno : ¬ (p = pattern.length ∧ ¬ EndsCopy end_ c) := fun h => hp h.1
    rw [matchLoop, if_neg hp, matchStep, if_neg hp, if_neg hno, List.nil_append]
    split_ifs <;> rfl

theorem matchLoop_append (p : ℕ) (a b : Bytes) : matchLoop pattern end_ p (a ++ b) =
    matchLoop pattern end_ p a ++ matchLoop pattern end_ (matched pattern end_ p a) b := by
  induction a generalizing p with
  | nil => rfl
  | cons c a ih =>
    rw [List.cons_append, matchLoop_cons, matchLoop_cons, ih, List.append_assoc]
    rfl

theorem matched_append (p : ℕ) (a b : Bytes) :
    matched pattern end_ p (a ++ b) = matched pattern end_ (matched pattern end_ p a) b :=
  List.foldl_append

theorem matchLoop_length_le (p : ℕ) (src : Bytes) : (matchLoop pattern end_ p src).length ≤ src.length := by
  induction src generalizing p with
  | nil => exact le_refl 0
  | cons c src ih =>
    have hsrc := ih (matchStep pattern end_ p c)
    rw [matchLoop_cons, List.length_append, List.length_cons]
    split_ifs
    · rw [List.length_singleton]
      omega
    · rw [List.length_nil]
      omega

/-! ## In front of a match -/

variable {pattern} {end_} {p : ℕ}

/-- A matcher that has the whole pattern keeps it. -/
theorem matched_ge (hp : pattern.length ≤ p) (src : Bytes) : pattern.length ≤ matched pattern end_ p src := by
  induction src generalizing p with
  | nil => exact hp
  | cons c src ih =>
    apply ih
    unfold matchStep
    split_ifs <;> omega

/-- Nothing is copied in front of a match. -/
theorem matchLoop_eq_nil {src : Bytes} (h : matched pattern end_ p src < pattern.length) :
    matchLoop pattern end_ p src = [] := by
  induction src generalizing p with
  | nil => rfl
  | cons c src ih =>
    have hp : ¬ pattern.length ≤ p := fun hp => absurd h (not_lt.mpr (matched_ge hp (c :: src)))
    rw [matchLoop_cons, if_neg (by omega), List.nil_append]
    exact ih h

/-- A character that the pattern does not have makes the matcher start over. -/
theorem matchStep_other (hp : p < pattern.length) {c : UInt8} (hc : c ∉ pattern) :
    matchStep pattern end_ p c = 0 := by
  have hne : pattern[p]? ≠ some c := fun h => hc (List.mem_of_getElem? h)
  rw [matchStep, if_neg (by omega), if_pos hp, if_neg hne]

/-- Without its last character a pattern is not matched. -/
theorem matched_lt_of_last {q : Bytes} {c : UInt8} {src : Bytes} (hc : c ∉ src) (hp : p < (q ++ [c]).length) :
    matched (q ++ [c]) end_ p src < (q ++ [c]).length := by
  induction src generalizing p with
  | nil => exact hp
  | cons x src ih =>
    rw [List.mem_cons, not_or] at hc
    apply ih hc.2
    rw [matchStep, if_neg (by omega), if_pos hp]
    by_cases hx : (q ++ [c])[p]? = some x
    · have hlast : p ≠ q.length := by
        rintro rfl
        rw [List.getElem?_concat_length] at hx
        exact hc.1 (Option.some.inj hx)
      rw [if_pos hx]
      rw [List.length_append, List.length_singleton] at hp ⊢
      omega
    · rw [if_neg hx]
      omega

/-- The matched characters are the last ones, until the pattern is there. -/
theorem matched_suffix (h0 : pattern ≠ []) (src : Bytes) :
    (matched pattern end_ 0 src < pattern.length ∧ pattern.take (matched pattern end_ 0 src) <:+ src) ∨
      pattern <:+: src := by
  induction src using List.reverseRecOn with
  | nil => exact Or.inl ⟨List.length_pos_iff.mpr h0, by simp [matched]⟩
  | append_singleton src c ih =>
    rcases ih with ⟨hlt, hsuf⟩ | hin
    · rw [matched_append]
      by_cases hc : pattern[matched pattern end_ 0 src]? = some c
      · have hstep : matched pattern end_ (matched pattern end_ 0 src) [c] = matched pattern end_ 0 src + 1 := by
          change matchStep pattern end_ (matched pattern end_ 0 src) c = _
          rw [matchStep, if_neg (by omega), if_pos hlt, if_pos hc]
        have htake : pattern.take (matched pattern end_ 0 src + 1) <:+ src ++ [c] := by
          obtain ⟨front, hfront⟩ := hsuf
          refine ⟨front, ?_⟩
          rw [List.take_add_one, hc, ← List.append_assoc, hfront]
          rfl
        rw [hstep]
        by_cases hall : matched pattern end_ 0 src + 1 = pattern.length
        · rw [hall, List.take_length] at htake
          exact Or.inr htake.isInfix
        · exact Or.inl ⟨by omega, htake⟩
      · have hstep : matched pattern end_ (matched pattern end_ 0 src) [c] = 0 := by
          change matchStep pattern end_ (matched pattern end_ 0 src) c = _
          rw [matchStep, if_neg (by omega), if_pos hlt, if_neg hc]
        rw [hstep]
        exact Or.inl ⟨by omega, List.nil_suffix⟩
    · exact Or.inr (hin.trans (List.prefix_append src [c]).isInfix)

/-- **The first occurrence** of the pattern is seen when the character in front of it is none of the pattern's. -/
theorem matchLoop_first {front : Bytes} {c : UInt8} (h0 : pattern ≠ []) (hc : c ∉ pattern)
    (hno : ¬ pattern <:+: front) (rest : Bytes) :
    matchLoop pattern end_ 0 (front ++ c :: (pattern ++ rest)) = matchLoop pattern end_ pattern.length rest := by
  have hlt : matched pattern end_ 0 front < pattern.length := by
    rcases matched_suffix h0 front with h | h
    · exact h.1
    · exact absurd h hno
  have hself := matchLoop_self pattern end_ rest pattern.length 0 (Nat.zero_add _)
  rw [List.drop_zero] at hself
  rw [matchLoop_append, matchLoop_eq_nil hlt, List.nil_append, matchLoop_cons, if_neg (by omega), List.nil_append,
    matchStep_other hlt hc, hself]

/-! ## Lines -/

/-- A copy that has begun ends with the line. -/
theorem matchLoop_cr (hp : pattern.length ≤ p) (src : Bytes) : matchLoop pattern end_ p (13 :: src) = [] := by
  rw [matchLoop_cons, if_neg (fun h => h.2 (Or.inl rfl)), List.nil_append]
  have hends : EndsCopy end_ 13 := Or.inl rfl
  apply matchLoop_done
  unfold matchStep
  rw [if_pos hends]
  split_ifs <;> omega

/-- A header line, with the line end in front of it. -/
def headerLine (h : Bytes × Bytes) : Bytes := 13 :: 10 :: (h.1 ++ 58 :: h.2)

/-- In front of header lines a copy ends. -/
theorem headers_endsCopy {headers : List (Bytes × Bytes)} {c : UInt8}
    (h : (headers.flatMap headerLine).head? = some c) : EndsCopy end_ c := by
  cases headers with
  | nil => cases h
  | cons h' headers => exact Or.inl (Option.some.inj h).symm

theorem matchLoop_headers_nil (hp : pattern.length ≤ p) (headers : List (Bytes × Bytes)) :
    matchLoop pattern end_ p (headers.flatMap headerLine) = [] := by
  cases headers with
  | nil => rfl
  | cons h headers => exact matchLoop_cr hp _

end Match

section Headers

variable {q : Bytes} (hcr : 13 ∉ q) (hlf : 10 ∉ q)

include hcr hlf

/-- Out of header lines at most one value is copied. -/
theorem matchLoop_headers_length_lt {k p : ℕ} (hk : 0 < k) (hp : p < (q ++ [58]).length)
    {headers : List (Bytes × Bytes)} (hh : ∀ h ∈ headers, 58 ∉ h.1 ∧ h.2.length < k) :
    (matchLoop (q ++ [58]) 0 p (headers.flatMap headerLine)).length < k := by
  induction headers generalizing p with
  | nil => exact hk
  | cons h headers ih =>
    obtain ⟨hname, hvalue⟩ := hh h List.mem_cons_self
    have hrest : ∀ h' ∈ headers, 58 ∉ h'.1 ∧ h'.2.length < k := fun h' hm => hh h' (List.mem_cons_of_mem _ hm)
    have hcr' : 13 ∉ q ++ [58] := by simp [hcr]
    have hlf' : 10 ∉ q ++ [58] := by simp [hlf]
    -- the line end and the name: the matcher is in front of a match at the colon
    have hlt : matched (q ++ [58]) 0 p (13 :: 10 :: h.1) < (q ++ [58]).length := by
      change matched (q ++ [58]) 0 (matchStep (q ++ [58]) 0 (matchStep (q ++ [58]) 0 p 13) 10) h.1 < _
      rw [matchStep_other hp hcr', matchStep_other (by simp) hlf']
      exact matched_lt_of_last hname (by simp)
    have hsplit : (h :: headers).flatMap headerLine =
        (13 :: 10 :: h.1) ++ ([58] ++ (h.2 ++ headers.flatMap headerLine)) := by
      simp [headerLine]
    rw [hsplit, matchLoop_append, matchLoop_eq_nil hlt, List.nil_append, matchLoop_append]
    generalize matched (q ++ [58]) 0 p (13 :: 10 :: h.1) = p1 at hlt
    have hcolon : matchLoop (q ++ [58]) 0 p1 [58] = [] := by
      rw [matchLoop_cons, if_neg (by omega)]
      rfl
    rw [hcolon, List.nil_append, matchLoop_append]
    generalize matched (q ++ [58]) 0 p1 [58] = p2
    by_cases hin : matched (q ++ [58]) 0 p2 h.2 < (q ++ [58]).length
    · rw [matchLoop_eq_nil hin, List.nil_append]
      exact ih hin hrest
    · -- the copy has begun in the value, and ends with it
      rw [matchLoop_headers_nil (not_lt.mp hin), List.append_nil]
      exact (matchLoop_length_le _ _ _ _).trans_lt hvalue

/-- Behind a first line, header lines with short values only matter where nothing is copied out of the line. -/
theorem matchLoop_headers_length_lt_iff {k : ℕ} (hk : 0 < k) (line : Bytes) {headers : List (Bytes × Bytes)}
    (hh : ∀ h ∈ headers, 58 ∉ h.1 ∧ h.2.length < k) :
    (matchLoop (q ++ [58]) 0 0 (line ++ headers.flatMap headerLine)).length < k ↔
      (matchLoop (q ++ [58]) 0 0 line).length < k := by
  rw [matchLoop_append]
  by_cases hin : matched (q ++ [58]) 0 0 line < (q ++ [58]).length
  · rw [matchLoop_eq_nil hin, List.nil_append]
    exact iff_of_true (matchLoop_headers_length_lt hcr hlf hk hin hh) hk
  · rw [matchLoop_headers_nil (not_lt.mp hin), List.append_nil]

end Headers

end Esp32Base
