import Esp32Base.Lib.CText

/-!
# Http.Strstri — searching without regard to case (zhHttp.c)

`zhHttpStrstri` looks for the first two characters of its needle in turn, with jumps into its loops, and compares the
rest of the needle where it finds them. A pointer into a string is the text from there on, so that the pointer at the
NUL is the empty text and cannot be moved.

* `strstriCompare_spec`: the comparison of the rest.
* `strstriLoop_spec`: the two points at which the outer loop is entered.
* `zhHttpStrstri_eq`: the whole is the search from left to right.
* `zhHttpStrstri_first`: it gives the first occurrence, as the naive search does.
-/

namespace Esp32Base

open Lib Lib.Buf Lib.CText

/-- `*p`. -/
def deref (p : Bytes) : UInt8 := p.headD 0

/-- `++p`; `none` behind the NUL. -/
def incr : Bytes → Option Bytes
  | [] => none
  | _ :: p => some p

/-- The `do` loop that compares the rest of the needle, two characters a round: the last `a`. It is entered with
`tolower(*rhaystack) == a`, and `a == '\0'` at the end of the needle. -/
def strstriRest : Bytes → Bytes → Option UInt8
  | _, [] => some 0
  | rhaystack, _ :: needle =>
    (incr rhaystack).bind fun rhaystack =>
      if tolower (deref rhaystack) ≠ tolower (deref needle) then some (tolower (deref needle))
      else
        match needle with
        | [] => some 0
        | _ :: needle =>
          (incr rhaystack).bind fun rhaystack =>
            if tolower (deref rhaystack) = tolower (deref needle) then strstriRest rhaystack needle
            else some (tolower (deref needle))

def strstriCompare (rhaystack needle : Bytes) : Option UInt8 :=
  if tolower (deref rhaystack) = tolower (deref needle) then strstriRest rhaystack needle
  else some (tolower (deref needle))

/-- Where the `for` loop goes on: at its beginning, or at the label `jin`. -/
inductive StrstriPoint
  | top
  | jin

section Loop

variable (bl bu cl cu : UInt8) (needle : Bytes)

/-- The first loop, from the character at `haystack` on. -/
def strstriFirst : Bytes → Option Bytes
  | [] => none
  | c :: haystack => if c ≠ bl ∧ c ≠ bu then strstriFirst haystack else some (c :: haystack)

/-- The `for` loop. At `top` the `do` loop reads up to two characters; `goto shloop` checks its condition for the
character that was read last. -/
def strstriLoop : StrstriPoint → Bytes → Option (Option Bytes)
  | _, [] => none
  | .top, [_] => some none
  | .top, [_, a] => if a = bl ∨ a = bu then strstriLoop .jin [a] else some none
  | .top, _ :: a :: a' :: rest =>
    if a = bl ∨ a = bu then strstriLoop .jin (a :: a' :: rest)
    else if a' ≠ bl ∧ a' ≠ bu then strstriLoop .top (a' :: rest)
    else strstriLoop .jin (a' :: rest)
  | .jin, [_] => some none
  | .jin, c :: a :: rest =>
    if a ≠ cl ∧ a ≠ cu then
      if a ≠ bl ∧ a ≠ bu then strstriLoop .top (a :: rest) else strstriLoop .jin (a :: rest)
    else
      (strstriCompare rest needle).bind fun a' =>
        if a' = 0 then some (some (c :: a :: rest)) else strstriLoop .top (c :: a :: rest)
termination_by pt haystack => 2 * haystack.length + match pt with | .top => 0 | .jin => 1

end Loop

/-- The pointer returned; `some none` is NULL. -/
def zhHttpStrstri (phaystack pneedle : Bytes) : Option (Option Bytes) :=
  match pneedle with
  | [] => some (some phaystack)
  | n :: needle =>
    match strstriFirst (tolower n) (toupper (tolower n)) phaystack with
    | none => some none
    | some haystack =>
      match needle with
      | [] => some (some haystack)
      | n' :: needle =>
        strstriLoop (tolower n) (toupper (tolower n)) (tolower n') (toupper (tolower n')) needle .jin haystack

/-! ## The search from left to right -/

/-- `needle` stands at the beginning of `s`, in any case. -/
def PrefixNoCase (needle s : Bytes) : Prop := needle.map tolower <+: s.map tolower

instance (needle s : Bytes) : Decidable (PrefixNoCase needle s) := inferInstanceAs (Decidable (_ <+: _))

/-- The text from the first occurrence on. -/
def findNoCase (needle : Bytes) : Bytes → Option Bytes
  | [] => if needle = [] then some [] else none
  | c :: s => if PrefixNoCase needle (c :: s) then some (c :: s) else findNoCase needle s

theorem prefixNoCase_nil (s : Bytes) : PrefixNoCase [] s := List.nil_prefix

theorem prefixNoCase_cons {n c : UInt8} {needle s : Bytes} :
    PrefixNoCase (n :: needle) (c :: s) ↔ tolower c = tolower n ∧ PrefixNoCase needle s := by
  unfold PrefixNoCase
  rw [List.map_cons, List.map_cons, List.cons_prefix_cons, eq_comm]

theorem not_prefixNoCase_nil {n : UInt8} {needle : Bytes} : ¬ PrefixNoCase (n :: needle) [] := by
  intro h
  have hlen := h.length_le
  simp at hlen

theorem findNoCase_isSome {needle s : Bytes} :
    (findNoCase needle s).isSome = true ↔ needle.map tolower <:+: s.map tolower := by
  induction s with
  | nil =>
    rw [findNoCase, List.map_nil, List.infix_nil, List.map_eq_nil_iff]
    split_ifs with h
    · exact iff_of_true rfl h
    · exact iff_of_false (by decide) h
  | cons c s ih =>
    rw [findNoCase, List.map_cons, List.infix_cons_iff, ← List.map_cons]
    split_ifs with h
    · exact iff_of_true rfl (Or.inl h)
    · rw [ih]
      exact ⟨Or.inr, fun hor => hor.resolve_left h⟩

/-! ## Characters -/

/-- The two forms of a character are those that are equal to it in any case. -/
theorem letter_iff {n c : UInt8} : (c = tolower n ∨ c = toupper (tolower n)) ↔ tolower c = tolower n := by
  have hlow : ∀ c : UInt8, tolower (tolower c) = tolower c := forall_byte (by decide +kernel)
  have hup : ∀ c : UInt8, tolower (toupper (tolower c)) = tolower c := forall_byte (by decide +kernel)
  have hform : ∀ c : UInt8, c = tolower c ∨ c = toupper (tolower c) :=
    forall_byte (p := fun c => c = tolower c ∨ c = toupper (tolower c)) (by decide +kernel)
  constructor
  · rintro (rfl | rfl)
    · exact hlow n
    · exact hup n
  · intro h
    rw [← h]
    exact hform c

theorem not_letter_iff {n c : UInt8} : (c ≠ tolower n ∧ c ≠ toupper (tolower n)) ↔ tolower c ≠ tolower n := by
  rw [← not_or, letter_iff]

theorem tolower_ne_zero {n : UInt8} (h : n ≠ 0) : tolower n ≠ 0 := by
  have hzero : ∀ n : UInt8, tolower n = 0 → n = 0 := forall_byte (by decide +kernel)
  exact fun h0 => h (hzero n h0)

/-! ## The rest of the needle -/

/-- A round is two equal steps. -/
theorem strstriRest_cons (n : UInt8) : ∀ needle rhaystack : Bytes, strstriRest rhaystack (n :: needle) =
    (incr rhaystack).bind fun rhaystack => strstriCompare rhaystack needle
  | [], rhaystack => by
    rw [strstriRest]
    congr 1
    ext1 r
    unfold strstriCompare
    by_cases h : tolower (deref r) = tolower (deref [])
    · rw [if_neg (not_not.mpr h), if_pos h, strstriRest]
    · rw [if_pos h, if_neg h]
  | n' :: needle, rhaystack => by
    rw [strstriRest]
    congr 1
    ext1 r
    by_cases h : tolower (deref r) = tolower (deref (n' :: needle))
    · rw [if_neg (not_not.mpr h), strstriCompare, if_pos h, strstriRest_cons n' needle r]
      rfl
    · rw [if_pos h, strstriCompare, if_neg h]

/-- **The comparison**: the last `a` is the NUL of the needle when the rest is there. -/
theorem strstriCompare_spec {needle : Bytes} (h0 : 0 ∉ needle) (rhaystack : Bytes) :
    ∃ a, strstriCompare rhaystack needle = some a ∧ (a = 0 ↔ PrefixNoCase needle rhaystack) := by
  induction needle generalizing rhaystack with
  | nil =>
    refine ⟨0, ?_, iff_of_true rfl (prefixNoCase_nil rhaystack)⟩
    unfold strstriCompare
    split_ifs
    · rw [strstriRest]
    · rfl
  | cons n needle ih =>
    rw [List.mem_cons, not_or] at h0
    have hn : tolower n ≠ 0 := tolower_ne_zero (fun h => h0.1 h.symm)
    rw [strstriCompare, strstriRest_cons]
    cases rhaystack with
    | nil =>
      rw [if_neg (show tolower (deref []) ≠ tolower (deref (n :: needle)) from hn.symm)]
      exact ⟨tolower n, rfl, iff_of_false hn not_prefixNoCase_nil⟩
    | cons c s =>
      rw [prefixNoCase_cons]
      by_cases hc : tolower c = tolower n
      · obtain ⟨a, ha, hiff⟩ := ih h0.2 s
        rw [if_pos (show tolower (deref (c :: s)) = tolower (deref (n :: needle)) from hc)]
        exact ⟨a, ha, by rw [hiff, and_iff_right hc]⟩
      · rw [if_neg (show tolower (deref (c :: s)) ≠ tolower (deref (n :: needle)) from hc)]
        exact ⟨tolower n, rfl, iff_of_false hn (fun h => hc h.1)⟩

/-! ## The loops -/

section Loops

variable {n n' : UInt8} {needle : Bytes}

theorem findNoCase_of_not {needle s : Bytes} {c : UInt8} (h : ¬ PrefixNoCase needle (c :: s)) :
    findNoCase needle (c :: s) = findNoCase needle s := if_neg h

/-- A character that is not the first of the needle. -/
theorem findNoCase_skip {c : UInt8} {s : Bytes} (h : tolower c ≠ tolower n) :
    findNoCase (n :: needle) (c :: s) = findNoCase (n :: needle) s :=
  findNoCase_of_not fun hpre => h (prefixNoCase_cons.mp hpre).1

/-- **The first loop** stops where the needle may begin. -/
theorem strstriFirst_eq (s : Bytes) :
    (strstriFirst (tolower n) (toupper (tolower n)) s = none ∧ findNoCase (n :: needle) s = none) ∨
      ∃ c t, strstriFirst (tolower n) (toupper (tolower n)) s = some (c :: t) ∧ tolower c = tolower n ∧
        findNoCase (n :: needle) s = findNoCase (n :: needle) (c :: t) := by
  induction s with
  | nil => exact Or.inl ⟨rfl, rfl⟩
  | cons c s ih =>
    rw [strstriFirst]
    by_cases hc : tolower c = tolower n
    · rw [if_neg (fun h => not_letter_iff.mp h hc)]
      exact Or.inr ⟨c, s, rfl, hc, rfl⟩
    · rw [if_pos (not_letter_iff.mpr hc), findNoCase_skip hc]
      exact ih

/-- What the `for` loop gives for texts of fewer than `k` characters behind `haystack`: at `jin` the needle may begin at
`haystack`, at `top` behind it. -/
def LoopFinds (n n' : UInt8) (needle : Bytes) (k : ℕ) : Prop :=
  ∀ (c : UInt8) (t : Bytes), t.length < k →
    (tolower c = tolower n →
      strstriLoop (tolower n) (toupper (tolower n)) (tolower n') (toupper (tolower n')) needle .jin (c :: t) =
        some (findNoCase (n :: n' :: needle) (c :: t))) ∧
    strstriLoop (tolower n) (toupper (tolower n)) (tolower n') (toupper (tolower n')) needle .top (c :: t) =
      some (findNoCase (n :: n' :: needle) t)

/-- Up to two characters are read at `top`. -/
theorem LoopFinds.top {k : ℕ} (ih : LoopFinds n n' needle k) (c : UInt8) {t : Bytes} (ht : t.length < k + 1) :
    strstriLoop (tolower n) (toupper (tolower n)) (tolower n') (toupper (tolower n')) needle .top (c :: t) =
      some (findNoCase (n :: n' :: needle) t) := by
  match t, ht with
  | [], _ => rw [strstriLoop]; rfl
  | [a], ht =>
    rw [strstriLoop]
    by_cases ha : tolower a = tolower n
    · rw [if_pos (letter_iff.mpr ha)]
      exact (ih a [] (by simpa using ht)).1 ha
    · rw [if_neg (fun h => ha (letter_iff.mp h)), findNoCase_skip ha]
      rfl
  | a :: a' :: rest, ht =>
    rw [strstriLoop]
    simp only [List.length_cons] at ht
    by_cases ha : tolower a = tolower n
    · rw [if_pos (letter_iff.mpr ha)]
      exact (ih a (a' :: rest) (by rw [List.length_cons]; omega)).1 ha
    · rw [if_neg (fun h => ha (letter_iff.mp h)), findNoCase_skip ha]
      by_cases ha' : tolower a' = tolower n
      · rw [if_neg (fun h => not_letter_iff.mp h ha')]
        exact (ih a' rest (by omega)).1 ha'
      · rw [if_pos (not_letter_iff.mpr ha'), findNoCase_skip ha']
        exact (ih a' rest (by omega)).2

/-- At `jin` the next character decides whether the rest is compared. -/
theorem LoopFinds.jin {k : ℕ} (ih : LoopFinds n n' needle k) (h0 : 0 ∉ needle) {c : UInt8} {t : Bytes}
    (ht : t.length < k + 1) (hc : tolower c = tolower n) :
    strstriLoop (tolower n) (toupper (tolower n)) (tolower n') (toupper (tolower n')) needle .jin (c :: t) =
      some (findNoCase (n :: n' :: needle) (c :: t)) := by
  have htop := ih.top c ht
  match t, ht, htop with
  | [], _, _ =>
    rw [strstriLoop, findNoCase_of_not (fun h => not_prefixNoCase_nil (prefixNoCase_cons.mp h).2)]
    rfl
  | a :: rest, ht, htop =>
    rw [List.length_cons] at ht
    rw [strstriLoop]
    by_cases ha : tolower a = tolower n'
    · obtain ⟨x, hx, hiff⟩ := strstriCompare_spec h0 rest
      rw [if_neg (fun h => not_letter_iff.mp h ha), hx, Option.bind_some]
      have hpre : PrefixNoCase (n :: n' :: needle) (c :: a :: rest) ↔ x = 0 := by
        rw [prefixNoCase_cons, prefixNoCase_cons, and_iff_right hc, and_iff_right ha, hiff]
      by_cases hx0 : x = 0
      · rw [if_pos hx0, findNoCase, if_pos (hpre.mpr hx0)]
      · rw [if_neg hx0, htop, findNoCase_of_not (fun h => hx0 (hpre.mp h))]
    · have hno : ¬ PrefixNoCase (n :: n' :: needle) (c :: a :: rest) :=
        fun h => ha (prefixNoCase_cons.mp (prefixNoCase_cons.mp h).2).1
      rw [if_pos (not_letter_iff.mpr ha), findNoCase_of_not hno]
      by_cases hn : tolower a = tolower n
      · rw [if_neg (fun h => not_letter_iff.mp h hn)]
        exact (ih a rest (by omega)).1 hn
      · rw [if_pos (not_letter_iff.mpr hn), findNoCase_skip hn]
        exact (ih a rest (by omega)).2

/-- **The `for` loop**, entered at either of its two points. -/
theorem strstriLoop_spec (h0 : 0 ∉ needle) (k : ℕ) : LoopFinds n n' needle k := by
  induction k with
  | zero => exact fun c t h => absurd h (Nat.not_lt_zero _)
  | succ k ih => exact fun c t ht => ⟨ih.jin h0 ht, ih.top c ht⟩

end Loops

/-- **The search** is that from left to right, and reads neither string behind its NUL. -/
theorem zhHttpStrstri_eq (phaystack : Bytes) {pneedle : Bytes} (h0 : 0 ∉ pneedle) :
    zhHttpStrstri phaystack pneedle = some (findNoCase pneedle phaystack) := by
  match pneedle, h0 with
  | [], _ =>
    cases phaystack with
    | nil => rfl
    | cons c s =>
      rw [findNoCase, if_pos (prefixNoCase_nil _)]
      rfl
  | [n], _ =>
    rcases @strstriFirst_eq n [] phaystack with ⟨hnone, hfind⟩ | ⟨c, t, hsome, hc, hfind⟩
    · rw [zhHttpStrstri, hnone, hfind]
    · rw [zhHttpStrstri, hsome, hfind, findNoCase, if_pos (prefixNoCase_cons.mpr ⟨hc, prefixNoCase_nil t⟩)]
  | n :: n' :: needle, h0 =>
    simp only [List.mem_cons, not_or] at h0
    rcases @strstriFirst_eq n (n' :: needle) phaystack with ⟨hnone, hfind⟩ | ⟨c, t, hsome, hc, hfind⟩
    · rw [zhHttpStrstri, hnone, hfind]
    · rw [zhHttpStrstri, hsome, hfind]
      exact (strstriLoop_spec h0.2.2 (t.length + 1) c t (Nat.lt_succ_self _)).1 hc

/-! ## The first occurrence -/

/-- The inner loop of the naive search: the needle, character by character. -/
def sameHere : Bytes → Bytes → Bool
  | [], _ => true
  | _ :: _, [] => false
  | n :: needle, c :: s => tolower c == tolower n && sameHere needle s

/-- The naive search: the needle at one place after the other. -/
def naiveStrstri (needle : Bytes) : Bytes → Option Bytes
  | [] => if sameHere needle [] then some [] else none
  | c :: s => if sameHere needle (c :: s) then some (c :: s) else naiveStrstri needle s

theorem sameHere_iff (needle : Bytes) : ∀ s : Bytes, sameHere needle s = true ↔ PrefixNoCase needle s := by
  induction needle with
  | nil => exact fun s => iff_of_true rfl (prefixNoCase_nil s)
  | cons n needle ih =>
    intro s
    cases s with
    | nil => exact iff_of_false (by rw [sameHere]; decide) not_prefixNoCase_nil
    | cons c s => rw [sameHere, Bool.and_eq_true, beq_iff_eq, ih, prefixNoCase_cons]

theorem naiveStrstri_eq (needle s : Bytes) : naiveStrstri needle s = findNoCase needle s := by
  induction s with
  | nil =>
    have hnil : sameHere needle [] = true ↔ needle = [] := by
      cases needle with
      | nil => exact iff_of_true rfl rfl
      | cons n needle => exact iff_of_false (by rw [sameHere]; decide) (List.cons_ne_nil _ _)
    simp only [naiveStrstri, findNoCase, hnil]
  | cons c s ih => simp only [naiveStrstri, findNoCase, sameHere_iff, ih]

/-- What a search gives for `s`: the text from the first place on at which the needle stands. -/
structure FirstNoCase (needle s : Bytes) (result : Option Bytes) : Prop where
  empty : needle = [] → result = some s
  absent : result = none ↔ ¬ ∃ pre t, s = pre ++ t ∧ PrefixNoCase needle t
  first : ∀ t, result = some t → ∃ pre, s = pre ++ t ∧ PrefixNoCase needle t ∧
    ∀ pre' t', s = pre' ++ t' → PrefixNoCase needle t' → pre.length ≤ pre'.length

/-- Behind a place at which the needle does not stand. -/
theorem FirstNoCase.cons {needle s : Bytes} {c : UInt8} {result : Option Bytes} (h : FirstNoCase needle s result)
    (hc : ¬ PrefixNoCase needle (c :: s)) : FirstNoCase needle (c :: s) result := by
  -- an occurrence does not begin at the first place
  have hbehind : ∀ pre t, c :: s = pre ++ t → PrefixNoCase needle t → ∃ pre', pre = c :: pre' ∧ s = pre' ++ t := by
    intro pre t hs ht
    cases pre with
    | nil => exact absurd (hs ▸ ht) hc
    | cons c' pre' =>
      obtain ⟨rfl, htail⟩ := List.cons.inj hs
      exact ⟨pre', rfl, htail⟩
  refine ⟨fun hnil => absurd (hnil ▸ prefixNoCase_nil _) hc, ?_, ?_⟩
  · rw [h.absent, not_iff_not]
    constructor
    · rintro ⟨pre, t, rfl, ht⟩
      exact ⟨c :: pre, t, rfl, ht⟩
    · rintro ⟨pre, t, hs, ht⟩
      obtain ⟨pre', -, hs'⟩ := hbehind pre t hs ht
      exact ⟨pre', t, hs', ht⟩
  · intro t hres
    obtain ⟨pre, rfl, ht, hleast⟩ := h.first t hres
    refine ⟨c :: pre, rfl, ht, ?_⟩
    intro pre' t' hs' ht'
    obtain ⟨pre'', rfl, hs''⟩ := hbehind pre' t' hs' ht'
    exact Nat.succ_le_succ (hleast pre'' t' hs'' ht')

/-- A place at which the needle stands is the first one of the text from there on. -/
theorem firstNoCase_here {needle s : Bytes} (h : PrefixNoCase needle s) : FirstNoCase needle s (some s) := by
  refine ⟨fun _ => rfl, iff_of_false (Option.some_ne_none s) (fun hno => hno ⟨[], s, rfl, h⟩), ?_⟩
  intro t ht
  obtain rfl := Option.some.inj ht
  exact ⟨[], rfl, h, fun _ _ _ _ => Nat.zero_le _⟩

theorem findNoCase_first (needle s : Bytes) : FirstNoCase needle s (findNoCase needle s) := by
  induction s with
  | nil =>
    rw [findNoCase]
    by_cases hn : needle = []
    · rw [if_pos hn, hn]
      exact firstNoCase_here (prefixNoCase_nil [])
    · rw [if_neg hn]
      obtain ⟨n, needle, rfl⟩ := List.exists_cons_of_ne_nil hn
      refine ⟨fun h => absurd h hn, iff_of_true rfl ?_, fun t ht => by cases ht⟩
      rintro ⟨pre, t, hs, ht⟩
      obtain ⟨-, rfl⟩ := List.append_eq_nil_iff.mp hs.symm
      exact not_prefixNoCase_nil ht
  | cons c s ih =>
    rw [findNoCase]
    by_cases h : PrefixNoCase needle (c :: s)
    · rw [if_pos h]
      exact firstNoCase_here h
    · rw [if_neg h]
      exact ih.cons h

/-- **The first occurrence**: for every two strings the search ends without reading behind a NUL, and its result is the
first occurrence in any case, the one of the naive search. -/
theorem zhHttpStrstri_first (phaystack pneedle : Bytes) (h0 : 0 ∉ pneedle) : ∃ result,
    zhHttpStrstri phaystack pneedle = some result ∧ FirstNoCase pneedle phaystack result ∧
      result = naiveStrstri pneedle phaystack :=
  ⟨findNoCase pneedle phaystack, zhHttpStrstri_eq phaystack h0, findNoCase_first pneedle phaystack,
    (naiveStrstri_eq pneedle phaystack).symm⟩

/-- The failed match at the first `a` goes over the beginning of the next one. -/
theorem zhHttpStrstri_first_overlap :
    zhHttpStrstri (ascii "xaAab") (ascii "aab") = some (some (ascii "Aab")) := by
  obtain ⟨result, hcall, -, hnaive⟩ := zhHttpStrstri_first (ascii "xaAab") (ascii "aab") (by decide)
  rw [hcall, hnaive]
  decide +kernel

end Esp32Base
