import Mathlib.Data.List.Find
import Mathlib.Data.List.Pairwise
import Esp32Base.Lib.CText

/-!
# Lib.Subst — replacing first occurrences in texts

* `replaceFirst_append`, `substitute_append`: behind a character that no pattern has, a text is on its own.
* `notMem_substitute_iff`: where a character that no pattern has comes from.
* `substitute_eq`: one pattern after the other is the same as all of them in one pass, when no text that is put in makes
  up a pattern that is still to come.
-/

namespace Lib.CText

/-- The first occurrence of `pSrc` replaced. -/
def replaceFirst (pSrc pDst text : Bytes) : Bytes :=
  match strstr pSrc text with
  | none => text
  | some p => text.take (text.length - p.length) ++ pDst ++ p.drop pSrc.length

/-- One pair after the other. -/
def substitute : List (Bytes × Bytes) → Bytes → Bytes
  | [], text => text
  | (pSrc, pDst) :: l, text => substitute l (replaceFirst pSrc pDst text)

/-- A pattern without `c` that starts in front of a `c` ends in front of it. -/
theorem prefix_before {c : UInt8} {pattern a b : Bytes} (hc : c ∉ pattern) (h : pattern <+: a ++ c :: b) :
    pattern <+: a := by
  rcases List.prefix_or_prefix_of_prefix h (List.prefix_append a (c :: b)) with hp | ⟨p', rfl⟩
  · exact hp
  · have hp' := (List.prefix_append_right_inj a).mp h
    cases p' with
    | nil => exact ⟨[], by rw [List.append_nil, List.append_nil]⟩
    | cons x p' =>
      obtain ⟨t, ht⟩ := hp'
      obtain rfl := (List.cons.inj ht).1
      exact absurd (List.mem_append_right a List.mem_cons_self) hc

/-- A pattern that is not in the text in front of a `c` is not found there. -/
theorem strstr_behind {c : UInt8} {pSrc a b x : Bytes} (hc : c ∉ pSrc) (ha : strstr pSrc a = none)
    (hx : strstr pSrc (a ++ c :: b) = some x) : ∃ g, b = g ++ x := by
  obtain ⟨hpre, hsuf⟩ := strstr_eq_some hx
  have hno : ¬ pSrc <:+: a := by
    intro h
    obtain ⟨s, hs⟩ := strstr_of_infix h
    rw [ha] at hs
    cases hs
  rcases List.suffix_or_suffix_of_suffix hsuf (List.suffix_append a (c :: b)) with h | ⟨a', rfl⟩
  · rcases List.suffix_cons_iff.mp h with rfl | ⟨g, hg⟩
    · cases pSrc with
      | nil => exact absurd (List.nil_infix) hno
      | cons d pSrc => exact absurd (List.cons_prefix_cons.mp hpre).1 (fun h => hc (h ▸ List.mem_cons_self))
    · exact ⟨g, hg.symm⟩
  · obtain ⟨g, hg⟩ := hsuf
    rw [← List.append_assoc] at hg
    exact absurd ((prefix_before hc hpre).isInfix.trans ⟨g, [], by
      rw [List.append_nil]; exact List.append_cancel_right hg⟩) hno

/-- What stands behind a character the pattern does not have makes no difference in front of it. -/
theorem replaceFirst_append {c : UInt8} {pSrc : Bytes} (hc : c ∉ pSrc) (pDst a b : Bytes) :
    ∃ b', replaceFirst pSrc pDst (a ++ c :: b) = replaceFirst pSrc pDst a ++ c :: b' := by
  unfold replaceFirst
  cases ha : strstr pSrc a with
  | some s =>
    refine ⟨b, ?_⟩
    obtain ⟨hpre, hsuf⟩ := strstr_eq_some ha
    rw [strstr_append (c :: b) ha]
    dsimp only
    rw [List.length_append, List.length_append, Nat.add_sub_add_right,
      List.take_append_of_le_length (Nat.sub_le _ _), List.drop_append_of_le_length hpre.length_le]
    simp only [List.append_assoc]
  | none =>
    cases hx : strstr pSrc (a ++ c :: b) with
    | none => exact ⟨b, rfl⟩
    | some x =>
      obtain ⟨g, rfl⟩ := strstr_behind hc ha hx
      refine ⟨g ++ pDst ++ x.drop pSrc.length, ?_⟩
      have htake : (a ++ c :: (g ++ x)).take ((a ++ c :: (g ++ x)).length - x.length) = a ++ c :: g := by
        rw [← List.cons_append, ← List.append_assoc]
        exact List.take_left' (by rw [@List.length_append _ (a ++ c :: g) x, Nat.add_sub_cancel])
      dsimp only
      rw [htake]
      simp only [List.append_assoc, List.cons_append]

theorem substitute_append {c : UInt8} : ∀ {l : List (Bytes × Bytes)}, (∀ p ∈ l, c ∉ p.1) → ∀ a b : Bytes,
    ∃ b', substitute l (a ++ c :: b) = substitute l a ++ c :: b'
  | [], _, _, b => ⟨b, rfl⟩
  | (pSrc, pDst) :: l, hl, a, b => by
    rw [List.forall_mem_cons] at hl
    obtain ⟨b₁, h₁⟩ := replaceFirst_append hl.1 pDst a b
    obtain ⟨b', h'⟩ := substitute_append hl.2 (replaceFirst pSrc pDst a) b₁
    refine ⟨b', ?_⟩
    rw [substitute, h₁, h']
    rfl

/-- No character is made up. -/
theorem replaceFirst_notMem {c : UInt8} {pSrc pDst text : Bytes} (ht : c ∉ text) (hd : c ∉ pDst) :
    c ∉ replaceFirst pSrc pDst text := by
  unfold replaceFirst
  cases hs : strstr pSrc text with
  | none => exact ht
  | some s =>
    have hsuf := (strstr_eq_some hs).2
    simp only [List.mem_append, not_or]
    exact ⟨⟨fun h => ht (List.mem_of_mem_take h), hd⟩, fun h => ht (hsuf.subset (List.mem_of_mem_drop h))⟩

theorem replaceFirst_mem {c : UInt8} {pSrc pDst text : Bytes} (h : pSrc <:+: text) (hd : c ∈ pDst) :
    c ∈ replaceFirst pSrc pDst text := by
  obtain ⟨s, hs⟩ := strstr_of_infix h
  rw [replaceFirst, hs]
  exact List.mem_append_left _ (List.mem_append_right _ hd)

theorem replaceFirst_absent {pSrc pDst text : Bytes} (h : ¬ pSrc <:+: text) :
    replaceFirst pSrc pDst text = text := by
  unfold replaceFirst
  cases hs : strstr pSrc text with
  | none => rfl
  | some s =>
    obtain ⟨hpre, hsuf⟩ := strstr_eq_some hs
    exact absurd (hpre.isInfix.trans hsuf.isInfix) h

/-- No text with `c` is put in for a pattern. -/
def BringsNo (c : UInt8) : List (Bytes × Bytes) → Bytes → Prop
  | [], _ => True
  | (pSrc, pDst) :: l, text => (pSrc <:+: text → c ∉ pDst) ∧ BringsNo c l (replaceFirst pSrc pDst text)

instance BringsNo.decidable (c : UInt8) : ∀ (l : List (Bytes × Bytes)) (text : Bytes), Decidable (BringsNo c l text)
  | [], _ => isTrue trivial
  | (pSrc, pDst) :: l, text =>
    haveI := BringsNo.decidable c l (replaceFirst pSrc pDst text)
    inferInstanceAs (Decidable ((pSrc <:+: text → c ∉ pDst) ∧ _))

theorem mem_substitute {c : UInt8} {l : List (Bytes × Bytes)} (hl : ∀ p ∈ l, c ∉ p.1) {text : Bytes}
    (h : c ∈ text) : c ∈ substitute l text := by
  obtain ⟨a, b, rfl, -⟩ := List.eq_append_cons_of_mem h
  obtain ⟨b', hb'⟩ := substitute_append hl a b
  rw [hb']
  exact List.mem_append_right _ List.mem_cons_self

theorem notMem_substitute_iff {c : UInt8} : ∀ {l : List (Bytes × Bytes)}, (∀ p ∈ l, c ∉ p.1) → ∀ {text : Bytes},
    c ∉ text → (c ∉ substitute l text ↔ BringsNo c l text)
  | [], _, _, ht => ⟨fun _ => trivial, fun _ => ht⟩
  | (pSrc, pDst) :: l, hl, text, ht => by
    rw [List.forall_mem_cons] at hl
    have hstep : c ∉ replaceFirst pSrc pDst text ↔ (pSrc <:+: text → c ∉ pDst) := by
      constructor
      · intro h hin hd
        exact h (replaceFirst_mem hin hd)
      · intro h
        by_cases hin : pSrc <:+: text
        · exact replaceFirst_notMem ht (h hin)
        · rw [replaceFirst_absent hin]
          exact ht
    rw [substitute, BringsNo, ← hstep]
    constructor
    · intro h
      have hfirst : c ∉ replaceFirst pSrc pDst text := fun hmem => h (mem_substitute hl.2 hmem)
      exact ⟨hfirst, (notMem_substitute_iff hl.2 hfirst).mp h⟩
    · rintro ⟨hfirst, hrest⟩
      exact (notMem_substitute_iff hl.2 hfirst).mpr hrest

/-! ## One pass -/

/-- The first occurrence of each pattern replaced, in one pass over the text: what is put in is not looked at. The next
`skip` characters belong to a pattern that was found. -/
def replaceEach : List (Bytes × Bytes) → ℕ → Bytes → Bytes
  | _, _, [] => []
  | l, skip + 1, _ :: text => replaceEach l skip text
  | l, 0, c :: text =>
    match l.find? fun p => p.1.isPrefixOf (c :: text) with
    | some p => p.2 ++ replaceEach (l.erase p) (p.1.length - 1) text
    | none => c :: replaceEach l 0 text

/-- Patterns that cannot overlap: each starts with a mark and has no other one, and none starts with another. -/
structure Apart (mark : UInt8) (l : List (Bytes × Bytes)) : Prop where
  marked : ∀ p ∈ l, ∃ w, p.1 = mark :: w ∧ mark ∉ w
  unlike : l.Pairwise fun p q => ¬ p.1 <+: q.1 ∧ ¬ q.1 <+: p.1

/-- What is put in makes up no pattern that is still to come: unless such a pattern is in front of it, it is found first
where it is found behind it. -/
def MakesNone : List (Bytes × Bytes) → Bytes → Prop
  | [], _ => True
  | (pSrc, pDst) :: l, text =>
    (∀ x, strstr pSrc text = some x → ∀ q ∈ l, ¬ q.1 <:+: text.take (text.length - x.length) →
      strstr q.1 (replaceFirst pSrc pDst text) = strstr q.1 (x.drop pSrc.length)) ∧
      MakesNone l (replaceFirst pSrc pDst text)

instance MakesNone.decidable : ∀ (l : List (Bytes × Bytes)) (text : Bytes), Decidable (MakesNone l text)
  | [], _ => isTrue trivial
  | (pSrc, pDst) :: l, text =>
    haveI := MakesNone.decidable l (replaceFirst pSrc pDst text)
    inferInstanceAs (Decidable ((∀ x ∈ strstr pSrc text, ∀ q ∈ l, ¬ q.1 <:+: text.take (text.length - x.length) →
      strstr q.1 (replaceFirst pSrc pDst text) = strstr q.1 (x.drop pSrc.length)) ∧ _))

/-- Every occurrence lies behind the first one. -/
theorem strstr_longest {pattern z : Bytes} (hz : pattern <+: z) : ∀ {t : Bytes}, z <:+ t →
    ∃ s, strstr pattern t = some s ∧ z <:+ s
  | [], h => by
    obtain rfl := List.suffix_nil.mp h
    obtain rfl := List.prefix_nil.mp hz
    exact ⟨[], rfl, h⟩
  | c :: t, h => by
    rw [strstr]
    split_ifs with hp
    · exact ⟨c :: t, rfl, h⟩
    · rcases List.suffix_cons_iff.mp h with rfl | h
      · exact absurd (List.isPrefixOf_iff_prefix.mpr hz) hp
      · exact strstr_longest hz h

theorem replaceEach_nil : ∀ text : Bytes, replaceEach [] 0 text = text
  | [] => rfl
  | c :: text => by rw [replaceEach, List.find?_nil, replaceEach_nil text]

theorem replaceEach_skip (l : List (Bytes × Bytes)) (y : Bytes) : ∀ x : Bytes,
    replaceEach l x.length (x ++ y) = replaceEach l 0 y
  | [] => rfl
  | _ :: x => replaceEach_skip l y x

theorem replaceEach_none {l : List (Bytes × Bytes)} {c : UInt8} {text : Bytes}
    (h : (l.find? fun p => p.1.isPrefixOf (c :: text)) = none) : replaceEach l 0 (c :: text) = c :: replaceEach l 0 text := by
  rw [replaceEach, h]

theorem replaceEach_found {l : List (Bytes × Bytes)} {q : Bytes × Bytes} {text : Bytes} (hq : q.1 ≠ [])
    (h : (l.find? fun p => p.1.isPrefixOf (q.1 ++ text)) = some q) :
    replaceEach l 0 (q.1 ++ text) = q.2 ++ replaceEach (l.erase q) 0 text := by
  obtain ⟨c, w, hw⟩ := List.exists_cons_of_ne_nil hq
  rw [hw, List.cons_append] at h ⊢
  rw [replaceEach, h]
  dsimp only
  rw [hw, List.length_cons, Nat.add_sub_cancel, replaceEach_skip]

/-- A pattern that does not occur makes no difference. -/
theorem replaceEach_absent {pSrc : Bytes} (pDst : Bytes) : ∀ (text : Bytes) (l : List (Bytes × Bytes)) (skip : ℕ),
    ¬ pSrc <:+: text → replaceEach ((pSrc, pDst) :: l) skip text = replaceEach l skip text
  | [], _, _, _ => by rw [replaceEach, replaceEach]
  | c :: text, l, skip, h => by
    have hnot : pSrc.isPrefixOf (c :: text) = false :=
      Bool.eq_false_iff.mpr fun hp => h (List.isPrefixOf_iff_prefix.mp hp).isInfix
    have htail : ¬ pSrc <:+: text := fun hin => h (List.infix_cons hin)
    cases skip with
    | succ skip => exact replaceEach_absent pDst text l skip htail
    | zero =>
      rw [replaceEach, replaceEach, List.find?_cons_of_neg (by rw [hnot]; decide)]
      cases hfind : l.find? fun p => p.1.isPrefixOf (c :: text) with
      | none => exact congrArg (c :: ·) (replaceEach_absent pDst text l 0 htail)
      | some q =>
        have hne : (pSrc, pDst) ≠ q := by
          rintro rfl
          have hq := List.find?_some hfind
          rw [hnot] at hq
          cases hq
        dsimp only
        rw [List.erase_cons_tail (by simpa using hne), replaceEach_absent pDst text _ _ htail]

/-- A text in which no pattern starts is kept. -/
theorem replaceEach_front {l : List (Bytes × Bytes)} (b : Bytes) : ∀ {d : Bytes},
    (∀ q ∈ l, ∀ y, y <:+ d → y ≠ [] → ¬ q.1 <+: y ++ b) → replaceEach l 0 (d ++ b) = d ++ replaceEach l 0 b
  | [], _ => rfl
  | c :: d, h => by
    have hnone : (l.find? fun p => p.1.isPrefixOf (c :: (d ++ b))) = none :=
      List.find?_eq_none.mpr fun q hq hp =>
        h q hq (c :: d) (List.suffix_refl _) (List.cons_ne_nil _ _) (List.isPrefixOf_iff_prefix.mp hp)
    rw [List.cons_append, replaceEach_none hnone,
      replaceEach_front b fun q hq y hy => h q hq y (hy.trans (List.suffix_cons c d)), List.cons_append]

section Pass

variable {mark : UInt8} {l : List (Bytes × Bytes)} {q r : Bytes × Bytes}

theorem Apart.sublist {l' : List (Bytes × Bytes)} (h : Apart mark l) (hl : List.Sublist l' l) : Apart mark l' :=
  ⟨fun p hp => h.marked p (hl.subset hp), h.unlike.sublist hl⟩

theorem Apart.of_ne (h : Apart mark l) (hq : q ∈ l) (hr : r ∈ l) (hne : q ≠ r) : ¬ q.1 <+: r.1 ∧ ¬ r.1 <+: q.1 := by
  have hsymm : Std.Symm fun p q : Bytes × Bytes => ¬ p.1 <+: q.1 ∧ ¬ q.1 <+: p.1 := ⟨fun _ _ h => h.symm⟩
  exact h.unlike.forall hq hr hne

theorem Apart.nodup (h : Apart mark l) : l.Nodup := by
  refine List.Pairwise.imp ?_ h.unlike
  rintro p q hne rfl
  exact hne.1 (List.prefix_refl _)

theorem Apart.ne_nil (h : Apart mark l) (hq : q ∈ l) : q.1 ≠ [] := by
  obtain ⟨w, hw, -⟩ := h.marked q hq
  rw [hw]
  exact List.cons_ne_nil _ _

/-- A marked pattern that starts in front of a mark ends in front of it. -/
theorem prefix_of_marked {pattern a x : Bytes} (hpat : ∃ w, pattern = mark :: w ∧ mark ∉ w) (ha : a ≠ [])
    (h : pattern <+: a ++ mark :: x) : pattern <+: a := by
  obtain ⟨w, rfl, hw⟩ := hpat
  obtain ⟨c, a, rfl⟩ := List.exists_cons_of_ne_nil ha
  rw [List.cons_append, List.cons_prefix_cons] at h
  exact List.cons_prefix_cons.mpr ⟨h.1, prefix_before hw h.2⟩

/-- Behind a pattern another one starts anew. -/
theorem Apart.infix_behind (h : Apart mark l) (hq : q ∈ l) (hr : r ∈ l) (hne : q ≠ r) {x : Bytes}
    (hin : r.1 <:+: q.1 ++ x) : r.1 <:+: x := by
  obtain ⟨s, t, hst⟩ := hin
  rw [List.append_assoc] at hst
  rcases List.append_eq_append_iff.mp hst with ⟨u, hqu, hrt⟩ | ⟨u, rfl, hx⟩
  · -- it starts inside of the first one, or with it
    obtain ⟨w, hw, -⟩ := h.marked r hr
    cases s with
    | nil =>
      obtain rfl : q.1 = u := hqu
      have hboth := List.prefix_or_prefix_of_prefix (List.prefix_append q.1 x) ⟨t, hrt⟩
      exact absurd hboth (not_or.mpr (h.of_ne hq hr hne))
    | cons c s =>
      cases u with
      | nil => exact ⟨[], t, hrt⟩
      | cons b u =>
        rw [hw, List.cons_append] at hrt
        obtain ⟨v, hv, hmark⟩ := h.marked q hq
        rw [hv, List.cons_append] at hqu
        obtain rfl := (List.cons.inj hrt).1
        rw [(List.cons.inj hqu).2] at hmark
        exact absurd (List.mem_append_right s List.mem_cons_self) hmark
  · exact ⟨u, t, by rw [List.append_assoc]; exact hx.symm⟩

theorem isPrefixOf_front {pattern a x : Bytes} (h : pattern <+: a ++ x → pattern <+: a) :
    pattern.isPrefixOf (a ++ x) = pattern.isPrefixOf a := by
  rw [Bool.eq_iff_iff, List.isPrefixOf_iff_prefix, List.isPrefixOf_iff_prefix]
  exact ⟨h, fun hp => hp.trans (List.prefix_append a x)⟩

/-- In `a ++ p.1 ++ b` the pattern of `p` is found behind `a` first, and of the others each is in `a`, or none starts in
front of `b` when `p` is replaced. -/
structure Clear (p : Bytes × Bytes) (l : List (Bytes × Bytes)) (a b : Bytes) : Prop where
  first : ∀ y, y <:+ a → y ≠ [] → ¬ p.1 <+: y ++ (p.1 ++ b)
  others : ∀ q ∈ l, q.1 <:+: a ∨ ∀ y, y <:+ a ++ p.2 → y ≠ [] → ¬ q.1 <+: y ++ b

section Around

variable {p : Bytes × Bytes} {a b : Bytes}

/-- In front of the pattern the pass goes on without a difference. -/
theorem Clear.same_head {c : UInt8} (h : Clear p l (c :: a) b) (hap : Apart mark (p :: l)) (hq : q ∈ l) :
    q.1.isPrefixOf (c :: a ++ (p.2 ++ b)) = q.1.isPrefixOf (c :: a) ∧
      q.1.isPrefixOf (c :: a ++ (p.1 ++ b)) = q.1.isPrefixOf (c :: a) := by
  refine ⟨isPrefixOf_front fun hp => ?_, isPrefixOf_front fun hp => ?_⟩
  · rcases h.others q hq with hin | hno
    · exact List.prefix_of_prefix_length_le hp (List.prefix_append (c :: a) _) hin.length_le
    · refine absurd ?_ (hno (c :: a ++ p.2) (List.suffix_refl _) (List.cons_ne_nil _ _))
      rw [List.append_assoc]
      exact hp
  · obtain ⟨w, hw, -⟩ := hap.marked p List.mem_cons_self
    rw [hw] at hp
    exact prefix_of_marked (hap.marked q (List.mem_cons_of_mem p hq)) (List.cons_ne_nil c a) hp

/-- The pass keeps a character. -/
theorem Clear.tail {c : UInt8} (h : Clear p l (c :: a) b) (hnone : ∀ q ∈ l, ¬ q.1 <+: c :: a) : Clear p l a b where
  first y hy := h.first y (hy.trans (List.suffix_cons c a))
  others q hq := by
    rcases h.others q hq with hin | hno
    · exact Or.inl ((List.infix_cons_iff.mp hin).resolve_left (hnone q hq))
    · exact Or.inr fun y hy => hno y (hy.trans (List.suffix_cons c _))

/-- The pass replaces another pattern. -/
theorem Clear.behind (h : Clear p l (q.1 ++ a) b) (hap : Apart mark l) (hq : q ∈ l) : Clear p (l.erase q) a b where
  first y hy := h.first y (hy.trans (List.suffix_append q.1 a))
  others r hr := by
    obtain ⟨hrq, hrl⟩ := hap.nodup.mem_erase_iff.mp hr
    rcases h.others r hrl with hin | hno
    · exact Or.inl (hap.infix_behind hq hrl hrq.symm hin)
    · refine Or.inr fun y hy => hno y (hy.trans ?_)
      rw [List.append_assoc]
      exact List.suffix_append q.1 _

/-- **The first pattern** may be replaced before the pass. -/
theorem replaceEach_around : ∀ (n : ℕ) {a : Bytes} {l : List (Bytes × Bytes)}, a.length ≤ n → Apart mark (p :: l) →
    Clear p l a b → replaceEach l 0 (a ++ (p.2 ++ b)) = replaceEach (p :: l) 0 (a ++ (p.1 ++ b)) := by
  have hhead {l : List (Bytes × Bytes)} (hap : Apart mark (p :: l)) (h : Clear p l [] b) :
      replaceEach l 0 ([] ++ (p.2 ++ b)) = replaceEach (p :: l) 0 ([] ++ (p.1 ++ b)) := by
    have hfind : ((p :: l).find? fun q => q.1.isPrefixOf (p.1 ++ b)) = some p :=
      List.find?_cons_of_pos (List.isPrefixOf_iff_prefix.mpr (List.prefix_append p.1 b))
    rw [List.nil_append, List.nil_append, replaceEach_found (hap.ne_nil List.mem_cons_self) hfind, List.erase_cons_head]
    refine replaceEach_front b fun q hq => ?_
    rcases h.others q hq with hin | hno
    · exact absurd (List.infix_nil.mp hin) (hap.ne_nil (List.mem_cons_of_mem p hq))
    · exact hno
  intro n
  induction n with
  | zero =>
    intro a l hn hap h
    obtain rfl := List.eq_nil_of_length_eq_zero (Nat.le_zero.mp hn)
    exact hhead hap h
  | succ n ih =>
    intro a l hn hap h
    cases a with
    | nil => exact hhead hap h
    | cons c a =>
      have hnot : ¬ p.1.isPrefixOf (c :: a ++ (p.1 ++ b)) := fun hp =>
        h.first (c :: a) (List.suffix_refl _) (List.cons_ne_nil _ _) (List.isPrefixOf_iff_prefix.mp hp)
      -- the pass finds the same in both texts
      have hleft : (l.find? fun q => q.1.isPrefixOf (c :: a ++ (p.2 ++ b))) = l.find? fun q => q.1.isPrefixOf (c :: a) :=
        List.find?_congr fun q hq => (h.same_head hap hq).1
      have hright : ((p :: l).find? fun q => q.1.isPrefixOf (c :: a ++ (p.1 ++ b))) =
          l.find? fun q => q.1.isPrefixOf (c :: a) := by
        rw [List.find?_cons_of_neg (a := p) hnot]
        exact List.find?_congr fun q hq => (h.same_head hap hq).2
      cases hfind : l.find? fun q => q.1.isPrefixOf (c :: a) with
      | none =>
        rw [hfind] at hleft hright
        have hnone : ∀ q ∈ l, ¬ q.1 <+: c :: a := fun q hq hp =>
          List.find?_eq_none.mp hfind q hq (List.isPrefixOf_iff_prefix.mpr hp)
        rw [List.cons_append] at hleft hright ⊢
        rw [List.cons_append, replaceEach_none hleft, replaceEach_none hright,
          ih (Nat.le_of_succ_le_succ hn) hap (h.tail hnone)]
      | some q =>
        have hq := List.mem_of_find?_eq_some hfind
        have hqne := hap.ne_nil (List.mem_cons_of_mem p hq)
        have hstarts : q.1 <+: c :: a := List.isPrefixOf_iff_prefix.mp (List.find?_some hfind :)
        obtain ⟨a', ha⟩ := hstarts
        have hne : p ≠ q := by
          rintro rfl
          exact hnot (List.isPrefixOf_iff_prefix.mpr ⟨a' ++ (p.1 ++ b), by rw [← List.append_assoc, ha]⟩)
        rw [hfind, ← ha, List.append_assoc] at hleft hright
        rw [← ha] at h hn ⊢
        rw [List.append_assoc, List.append_assoc, replaceEach_found hqne hleft, replaceEach_found hqne hright,
          List.erase_cons_tail (by simpa using hne)]
        have hshorter : a'.length ≤ n := by
          have hpos := List.length_pos_iff.mpr hqne
          rw [List.length_append] at hn
          omega
        rw [ih hshorter (hap.sublist (List.erase_sublist.cons_cons p))
          (h.behind (hap.sublist (List.sublist_cons_self p l)) hq)]

end Around

/-- **One after the other is one pass**, when what is put in makes up no pattern. -/
theorem substitute_eq : ∀ {l : List (Bytes × Bytes)} {text : Bytes}, Apart mark l → MakesNone l text →
    substitute l text = replaceEach l 0 text
  | [], text, _, _ => (replaceEach_nil text).symm
  | (pSrc, pDst) :: l, text, hap, hmakes => by
    rw [substitute, substitute_eq (hap.sublist (List.sublist_cons_self _ l)) hmakes.2]
    by_cases hin : pSrc <:+: text
    · obtain ⟨x, hx⟩ := strstr_of_infix hin
      obtain ⟨⟨b, rfl⟩, ⟨a, rfl⟩⟩ := strstr_eq_some hx
      have htake : (a ++ (pSrc ++ b)).take ((a ++ (pSrc ++ b)).length - (pSrc ++ b).length) = a := by
        rw [@List.length_append _ a, Nat.add_sub_cancel, List.take_left]
      have hreplaced : replaceFirst pSrc pDst (a ++ (pSrc ++ b)) = a ++ (pDst ++ b) := by
        rw [replaceFirst, hx]
        dsimp only
        rw [htake, List.drop_left, List.append_assoc]
      rw [hreplaced]
      refine replaceEach_around a.length le_rfl hap ⟨?_, fun q hq => ?_⟩
      · -- the first occurrence
        rintro y ⟨z, rfl⟩ hne (hy : pSrc <+: y ++ (pSrc ++ b))
        obtain ⟨s, hs, hle⟩ := strstr_longest hy (t := z ++ y ++ (pSrc ++ b)) ⟨z, by rw [List.append_assoc]⟩
        obtain rfl := Option.some.inj (hx.symm.trans hs)
        have hlen := hle.length_le
        rw [@List.length_append _ y] at hlen
        exact hne (List.eq_nil_of_length_eq_zero (by omega))
      · by_cases hfront : q.1 <:+: a
        · exact Or.inl hfront
        · refine Or.inr fun y hy hne hpre => ?_
          have hsame := hmakes.1 _ hx q hq (by rwa [htake])
          rw [hreplaced, List.drop_left] at hsame
          obtain ⟨z, hz⟩ := hy
          obtain ⟨s, hs, hle⟩ := strstr_longest hpre (t := a ++ (pDst ++ b))
            ⟨z, by rw [← List.append_assoc, hz, List.append_assoc]⟩
          have hlen := hle.length_le.trans (strstr_eq_some (hsame.symm.trans hs)).2.length_le
          rw [List.length_append] at hlen
          exact hne (List.eq_nil_of_length_eq_zero (by omega))
    · rw [replaceFirst_absent hin, replaceEach_absent pDst text l 0 hin]

example : substitute [(ascii "\x7ba\x7d", ascii "b\x7d"), (ascii "\x7bb\x7d", ascii "1")] (ascii "\x7b\x7ba\x7d") = ascii "1" ∧
    replaceEach [(ascii "\x7ba\x7d", ascii "b\x7d"), (ascii "\x7bb\x7d", ascii "1")] 0 (ascii "\x7b\x7ba\x7d") =
      ascii "\x7bb\x7d" := by decide +kernel

end Pass

end Lib.CText
