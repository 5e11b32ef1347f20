import Mathlib.Algebra.Order.Ring.Int
import Mathlib.Data.List.Induction
import Esp32Base.Lib.Buf

/-!
# Lib.CText — text functions of the C library

Character classes of the C locale, `atoi` and `strstr` on the text of a C string, and the search that
walks a pointer through memory up to the NUL.

* `strstr_append`: text behind a text that has an occurrence does not move the first one.
* `scan_absent`, `scan_present`: a search for a pattern, decided on the text in front of the NUL.
-/

namespace Lib.CText

def isupper (c : UInt8) : Bool := 65 ≤ c && c ≤ 90
def isdigit (c : UInt8) : Bool := 48 ≤ c && c ≤ 57
def isxdigit (c : UInt8) : Bool := isdigit c || (65 ≤ c && c ≤ 70) || (97 ≤ c && c ≤ 102)
def isspace (c : UInt8) : Bool := c == 32 || (9 ≤ c && c ≤ 13)
def tolower (c : UInt8) : UInt8 := if isupper c then c + 32 else c
def islower (c : UInt8) : Bool := 97 ≤ c && c ≤ 122
def toupper (c : UInt8) : UInt8 := if islower c then c - 32 else c

theorem toupper_tolower (c : UInt8) : toupper (tolower c) = toupper c :=
  forall_byte (p := fun c => toupper (tolower c) = toupper c) (by decide +kernel) c

/-- Two texts that differ in the case of letters only. -/
def SameNoCase (s t : Bytes) : Prop := s.map tolower = t.map tolower

instance (s t : Bytes) : Decidable (SameNoCase s t) := inferInstanceAs (Decidable (_ = _))

theorem SameNoCase.toupper {s t : Bytes} (h : SameNoCase s t) : s.map toupper = t.map toupper := by
  have hmap : ∀ u : Bytes, u.map CText.toupper = (u.map tolower).map CText.toupper := by
    intro u
    rw [List.map_map]
    exact List.map_congr_left (fun c _ => (toupper_tolower c).symm)
  rw [hmap s, hmap t, h]

/-- The number in front, on top of the digits already read. -/
def decimal : ℕ → Bytes → ℕ
  | n, [] => n
  | n, c :: t => if isdigit c then decimal (10 * n + (c.toNat - 48)) t else n

/-- `atoi` as `strtol` computes it for a 32-bit `long`: white space, a sign, digits; out of range it
clamps. -/
def atoi (s : Bytes) : ℤ :=
  let v : ℤ :=
    match s.dropWhile isspace with
    | [] => 0
    | c :: t => if c = 45 then -decimal 0 t else if c = 43 then decimal 0 t else decimal 0 (c :: t)
  max (-2 ^ 31) (min (2 ^ 31 - 1) v)

/-- The result is an `int`. -/
theorem atoi_range (s : Bytes) : -2 ^ 31 ≤ atoi s ∧ atoi s < 2 ^ 31 := by
  unfold atoi
  dsimp only
  omega

/-- The value of a hexadecimal digit. -/
def xdigitValue (c : UInt8) : ℕ :=
  if isdigit c then c.toNat - 48 else if c ≤ 70 then c.toNat - 55 else c.toNat - 87

/-- The number that hexadecimal digits spell. -/
def hexValue (digits : Bytes) : ℕ := digits.foldl (fun n c => 16 * n + xdigitValue c) 0

/-- The text behind white space and a sign. -/
def unsignedPart (s : Bytes) : Bytes :=
  let t := s.dropWhile isspace
  if t.head? = some 43 ∨ t.head? = some 45 then t.tail else t

/-- `%x` finds a number: behind white space and a sign there is a hexadecimal digit, if only that of `0x`. -/
def StartsHex (s : Bytes) : Prop := ∃ c ∈ (unsignedPart s).head?, isxdigit c = true

instance (s : Bytes) : Decidable (StartsHex s) :=
  decidable_of_iff ((unsignedPart s).head?.any isxdigit = true)
    (by cases h : (unsignedPart s).head? <;> simp [StartsHex, h])

/-- `sscanf` with `%x`, as `strtoul` computes it for a 32-bit `long`: out of range it clamps, and a number with a
minus sign is taken from 2 ^ 32. -/
def scanHex (s : Bytes) : Option ℕ :=
  if StartsHex s then
    let u := unsignedPart s
    let v := hexValue ((if u.take 2 = ascii "0x" ∨ u.take 2 = ascii "0X" then u.drop 2 else u).takeWhile isxdigit)
    some (if 2 ^ 32 ≤ v then 2 ^ 32 - 1 else if (s.dropWhile isspace).head? = some 45 then (2 ^ 32 - v) % 2 ^ 32 else v)
  else none

theorem scanHex_isSome {s : Bytes} : (scanHex s).isSome = true ↔ StartsHex s := by
  unfold scanHex
  by_cases h : StartsHex s
  · rw [if_pos h]
    exact iff_of_true rfl h
  · rw [if_neg h]
    exact iff_of_false (by decide) h

/-- A text that is a hexadecimal numeral, with `0x` or without it, and its value. -/
def HexNumeral (s : Bytes) (v : ℕ) : Prop :=
  ∃ pre digits, pre ∈ [[], ascii "0x", ascii "0X"] ∧ digits ≠ [] ∧ (∀ c ∈ digits, isxdigit c = true) ∧
    s = pre ++ digits ∧ v = hexValue digits

theorem xdigitValue_lt {c : UInt8} (h : isxdigit c = true) : xdigitValue c < 16 := by
  revert c
  apply forall_byte
  decide +kernel

theorem hexValue_concat (digits : Bytes) (c : UInt8) :
    hexValue (digits ++ [c]) = 16 * hexValue digits + xdigitValue c := by
  simp [hexValue, List.foldl_append]

theorem hexValue_lt {digits : Bytes} (h : ∀ c ∈ digits, isxdigit c = true) : hexValue digits < 16 ^ digits.length := by
  induction digits using List.reverseRecOn with
  | nil => exact Nat.one_pos
  | append_singleton digits c ih =>
    have hc := xdigitValue_lt (h c (by simp))
    have hlt := ih (fun x hx => h x (List.mem_append_left _ hx))
    rw [hexValue_concat, List.length_append, List.length_singleton, Nat.pow_succ]
    omega

/-- A numeral of eight characters or less is a 32-bit number. -/
theorem HexNumeral.lt {s : Bytes} {v : ℕ} (h : HexNumeral s v) (hlen : s.length ≤ 8) : v < 2 ^ 32 := by
  obtain ⟨pre, digits, -, -, hdigits, rfl, rfl⟩ := h
  rw [List.length_append] at hlen
  calc hexValue digits < 16 ^ digits.length := hexValue_lt hdigits
    _ ≤ 16 ^ 8 := Nat.pow_le_pow_right (by decide) (by omega)
    _ = 2 ^ 32 := by decide

theorem isxdigit_plain {c : UInt8} (h : isxdigit c = true) : isspace c = false ∧ c ≠ 43 ∧ c ≠ 45 ∧ c ≠ 120 ∧ c ≠ 88 := by
  revert c
  apply forall_byte
  decide +kernel

/-- **A numeral is read as its value**, clamped to 32 bits. -/
theorem scanHex_numeral {s : Bytes} {v : ℕ} (h : HexNumeral s v) : scanHex s = some (min v (2 ^ 32 - 1)) := by
  obtain ⟨pre, digits, hpre, hne, hdigits, rfl, rfl⟩ := h
  have hfirst : ∃ c t, pre ++ digits = c :: t ∧ isxdigit c = true ∧
      (if (pre ++ digits).take 2 = ascii "0x" ∨ (pre ++ digits).take 2 = ascii "0X" then (pre ++ digits).drop 2
        else pre ++ digits) = digits := by
    simp only [List.mem_cons, List.not_mem_nil, or_false] at hpre
    rcases hpre with rfl | rfl | rfl
    · obtain ⟨c, t, rfl⟩ := List.exists_cons_of_ne_nil hne
      refine ⟨c, t, rfl, hdigits c (List.mem_cons_self ..), if_neg ?_⟩
      cases t with
      | nil => exact fun h => h.elim (fun h => by cases h) (fun h => by cases h)
      | cons d t =>
        have hd := isxdigit_plain (hdigits d (by simp))
        rintro (h | h)
        · exact hd.2.2.2.1 (List.cons.inj (List.cons.inj h).2).1
        · exact hd.2.2.2.2 (List.cons.inj (List.cons.inj h).2).1
    · exact ⟨48, 120 :: digits, rfl, by decide, if_pos (Or.inl rfl)⟩
    · exact ⟨48, 88 :: digits, rfl, by decide, if_pos (Or.inr rfl)⟩
  obtain ⟨c, t, hcons, hc, hdrop⟩ := hfirst
  obtain ⟨hspace, hplus, hminus, -⟩ := isxdigit_plain hc
  have hws : (pre ++ digits).dropWhile isspace = pre ++ digits := by
    rw [hcons, List.dropWhile_cons_of_neg (by simp [hspace])]
  have hpart : unsignedPart (pre ++ digits) = pre ++ digits := by
    unfold unsignedPart
    rw [hws, hcons]
    simp [hplus, hminus]
  have hstart : StartsHex (pre ++ digits) := by
    unfold StartsHex
    rw [hpart, hcons]
    exact ⟨c, rfl, hc⟩
  have hall : digits.takeWhile isxdigit = digits := List.takeWhile_eq_self_iff.mpr hdigits
  unfold scanHex
  rw [if_pos hstart]
  simp only [hpart, hdrop, hall, hws]
  rw [hcons]
  simp only [List.head?_cons, Option.some.injEq, hminus, if_false]
  split_ifs with hle
  · rw [Nat.min_eq_right (by omega)]
  · rw [Nat.min_eq_left (by omega)]

/-- `%d`. -/
def printInt (v : ℤ) : Bytes :=
  (if v < 0 then [45] else []) ++ (Nat.toDigits 10 v.natAbs).map fun c => UInt8.ofNat c.toNat

theorem isdigit_of_mem_toDigits {n : ℕ} {b : UInt8}
    (h : b ∈ (Nat.toDigits 10 n).map fun c => UInt8.ofNat c.toNat) : isdigit b = true := by
  obtain ⟨c, hc, rfl⟩ := List.mem_map.mp h
  have hd : c.isDigit := Nat.isDigit_of_mem_toDigits (by decide) (by decide) hc
  rw [Char.isDigit_iff_toNat, show '0'.toNat = 48 from rfl, show '9'.toNat = 57 from rfl] at hd
  rw [isdigit, Bool.and_eq_true, decide_eq_true_eq, decide_eq_true_eq, UInt8.le_iff_toNat_le,
    UInt8.le_iff_toNat_le, UInt8.toNat_ofNat', Nat.mod_eq_of_lt (by omega)]
  exact hd

/-- Digits are read as they are printed. -/
theorem decimal_digits {l : List Char} (h : ∀ c ∈ l, c.isDigit) (n : ℕ) :
    decimal n (l.map fun c => UInt8.ofNat c.toNat) = Nat.ofDigitChars 10 l n := by
  induction l generalizing n with
  | nil => rfl
  | cons c l ih =>
    have hd := h c List.mem_cons_self
    rw [Char.isDigit_iff_toNat, show '0'.toNat = 48 from rfl, show '9'.toNat = 57 from rfl] at hd
    have hc : (UInt8.ofNat c.toNat).toNat = c.toNat := by rw [UInt8.toNat_ofNat', Nat.mod_eq_of_lt (by omega)]
    have hdigit : isdigit (UInt8.ofNat c.toNat) = true := by
      rw [isdigit, Bool.and_eq_true, decide_eq_true_eq, decide_eq_true_eq, UInt8.le_iff_toNat_le,
        UInt8.le_iff_toNat_le, hc]
      exact hd
    rw [List.map_cons, decimal, if_pos hdigit, hc, ih (fun c hc => h c (List.mem_cons_of_mem _ hc)),
      Nat.ofDigitChars_cons]
    rfl

theorem printInt_natCast (n : ℕ) : printInt n = ascii (toString n) := by
  have hneg : ¬ (n : ℤ) < 0 := by omega
  rw [printInt, if_neg hneg, List.nil_append, ascii, Nat.toString_eq_ofList_toDigits, String.toList_ofList,
    Int.natAbs_natCast]

/-- So a printed number is read back. -/
theorem decimal_toString (n : ℕ) : decimal 0 (ascii (toString n)) = n := by
  rw [ascii, Nat.toString_eq_ofList_toDigits, String.toList_ofList,
    decimal_digits fun c hc => Nat.isDigit_of_mem_toDigits (by decide) (by decide) hc, Nat.ofDigitChars_ten_toDigits]

/-- A printed number is a sign and digits. -/
theorem mem_printInt {v : ℤ} {b : UInt8} (h : b ∈ printInt v) : b = 45 ∨ isdigit b = true := by
  unfold printInt at h
  rcases List.mem_append.mp h with h | h
  · split_ifs at h
    · exact Or.inl (List.mem_singleton.mp h)
    · cases h
  · exact Or.inr (isdigit_of_mem_toDigits h)

/-- A minus sign is only printed for a negative number. -/
theorem minus_mem_printInt (v : ℤ) : 45 ∈ printInt v ↔ v < 0 := by
  constructor
  · intro h
    by_contra hv
    rw [printInt, if_neg hv, List.nil_append] at h
    exact absurd (isdigit_of_mem_toDigits h) (by decide)
  · intro h
    rw [printInt, if_pos h]
    exact List.mem_append_left _ (List.mem_singleton_self _)

theorem zero_notMem_printInt (v : ℤ) : 0 ∉ printInt v := by
  intro h
  rcases mem_printInt h with h | h <;> revert h <;> decide

/-- A number of at most ten digits. -/
theorem printInt_length_le_of_natAbs {v : ℤ} (h : v.natAbs < 10 ^ 10) : (printInt v).length ≤ 11 := by
  have hdigits : (Nat.toDigits 10 v.natAbs).length ≤ 10 :=
    (Nat.length_toDigits_le_iff (by decide) (by decide)).mpr h
  rw [printInt, List.length_append, List.length_map]
  split_ifs
  · rw [List.length_singleton]
    omega
  · rw [List.length_nil]
    omega

/-- A 32-bit number takes at most eleven characters. -/
theorem printInt_length_le {v : ℤ} (h : -2 ^ 31 ≤ v) (h' : v < 2 ^ 31) : (printInt v).length ≤ 11 :=
  printInt_length_le_of_natAbs (by omega)

def hexLower : Bytes := ascii "0123456789abcdef"
def hexUpper : Bytes := ascii "0123456789ABCDEF"

/-- `%02x` or `%02X` of a byte, by its digits. -/
def printHex (digits : Bytes) (c : UInt8) : Bytes :=
  [digits.getD (c >>> 4).toNat 0, digits.getD (c &&& 15).toNat 0]

theorem zero_notMem_printHex (c : UInt8) : 0 ∉ printHex hexLower c ∧ 0 ∉ printHex hexUpper c :=
  forall_byte (p := fun c => 0 ∉ printHex hexLower c ∧ 0 ∉ printHex hexUpper c) (by decide +kernel) c

/-- A plain `char` as an `int`, on a target where it is signed or not. -/
def plainChar (signed : Bool) (c : UInt8) : BitVec 32 :=
  if signed then c.toBitVec.signExtend 32 else c.toBitVec.setWidth 32

/-- The text from the first occurrence of `pattern` on. -/
def strstr (pattern : Bytes) : Bytes → Option Bytes
  | [] => if pattern = [] then some [] else none
  | c :: t => if pattern.isPrefixOf (c :: t) then some (c :: t) else strstr pattern t

theorem strstr_eq_some {pattern : Bytes} : ∀ {t s : Bytes}, strstr pattern t = some s →
    pattern <+: s ∧ s <:+ t
  | [], s, h => by
    unfold strstr at h
    split_ifs at h with hp
    obtain rfl := Option.some.inj h
    exact ⟨hp ▸ List.nil_prefix, List.suffix_refl _⟩
  | c :: t, s, h => by
    unfold strstr at h
    split_ifs at h with hp
    · obtain rfl := Option.some.inj h
      exact ⟨List.isPrefixOf_iff_prefix.mp hp, List.suffix_refl _⟩
    · obtain ⟨h1, h2⟩ := strstr_eq_some h
      exact ⟨h1, h2.trans (List.suffix_cons c t)⟩

/-- A text that contains the pattern has a first occurrence. -/
theorem strstr_of_infix {pattern : Bytes} : ∀ {t : Bytes}, pattern <:+: t → ∃ s, strstr pattern t = some s
  | [], h => by
    refine ⟨[], ?_⟩
    rw [strstr, if_pos (List.infix_nil.mp h)]
  | c :: t, h => by
    unfold strstr
    by_cases hp : pattern.isPrefixOf (c :: t)
    · exact ⟨c :: t, if_pos hp⟩
    · rw [if_neg hp]
      rcases List.infix_cons_iff.mp h with h | h
      · exact absurd (List.isPrefixOf_iff_prefix.mpr h) hp
      · exact strstr_of_infix h

theorem strstr_append {pattern : Bytes} (y : Bytes) : ∀ {t s : Bytes}, strstr pattern t = some s →
    strstr pattern (t ++ y) = some (s ++ y)
  | [], s, h => by
    unfold strstr at h
    split_ifs at h with hp
    obtain rfl := Option.some.inj h
    rw [List.nil_append, hp]
    cases y <;> rfl
  | c :: t, s, h => by
    have hs := strstr_eq_some h
    rw [List.cons_append]
    rw [strstr] at h ⊢
    split_ifs at h with hp
    · obtain rfl := Option.some.inj h
      have : pattern.isPrefixOf (c :: (t ++ y)) :=
        List.isPrefixOf_iff_prefix.mpr ((List.isPrefixOf_iff_prefix.mp hp).trans (List.prefix_append _ y))
      rw [if_pos this, List.cons_append]
    · -- the rest still holds a whole occurrence, so none starts here that ends in `y`
      have hlen : pattern.length ≤ (c :: t).length := hs.1.length_le.trans (by
        have hsuf := (strstr_eq_some h).2.length_le
        rw [List.length_cons]
        omega)
      have : ¬ pattern.isPrefixOf (c :: (t ++ y)) := by
        intro h'
        refine hp (List.isPrefixOf_iff_prefix.mpr ?_)
        exact List.prefix_of_prefix_length_le (List.isPrefixOf_iff_prefix.mp h')
          (List.prefix_append (c :: t) y) hlen
      rw [if_neg this]
      exact strstr_append y h

/-! ## Walking a pointer -/

section Scan

variable {p : Bytes → Bool}

/-- `while (*p != 0) { if (here) return p; p++; } return NULL;` on memory that ends with its object:
`none` when no NUL stops the walk. -/
def scan (p : Bytes → Bool) : Bytes → Option (Option Bytes)
  | [] => none
  | c :: m => if c = 0 then some none else if p (c :: m) then some (some (c :: m)) else scan p m

theorem scan_here {c : UInt8} {m : Bytes} (hc : c ≠ 0) (hp : p (c :: m) = true) :
    scan p (c :: m) = some (some (c :: m)) := by
  rw [scan, if_neg hc, if_pos hp]

theorem scan_eq_some : ∀ {m hd : Bytes}, scan p m = some (some hd) → p hd = true ∧ hd <:+ m
  | c :: m, hd, h => by
    unfold scan at h
    split_ifs at h with h0 hp
    · cases h
    · obtain rfl := Option.some.inj (Option.some.inj h)
      exact ⟨hp, List.suffix_refl _⟩
    · obtain ⟨h1, h2⟩ := scan_eq_some h
      exact ⟨h1, h2.trans (List.suffix_cons c m)⟩

theorem scan_none : ∀ (u z : Bytes), 0 ∉ u → (∀ b, b ≠ [] → b <:+ u → p (b ++ 0 :: z) = false) →
    scan p (u ++ 0 :: z) = some none
  | [], z, _, _ => by rw [List.nil_append, scan, if_pos rfl]
  | c :: u, z, h0, hno => by
    rw [List.mem_cons, not_or] at h0
    have hc : p (c :: (u ++ 0 :: z)) = false := hno (c :: u) (by simp) (List.suffix_refl _)
    rw [List.cons_append, scan, if_neg (fun h => h0.1 h.symm), hc, if_neg (by decide)]
    exact scan_none u z h0.2 fun b hb hs => hno b hb (hs.trans (List.suffix_cons c u))

theorem scan_some : ∀ (u : Bytes) {c : UInt8} {hd : Bytes}, 0 ∉ u → c ≠ 0 → p (c :: hd) = true →
    ∃ t, scan p (u ++ c :: hd) = some (some t)
  | [], c, hd, _, hc, hp => ⟨c :: hd, scan_here hc hp⟩
  | b :: u, c, hd, h0, hc, hp => by
    rw [List.mem_cons, not_or] at h0
    rw [List.cons_append, scan, if_neg (fun h => h0.1 h.symm)]
    by_cases hb : p (b :: (u ++ c :: hd))
    · exact ⟨_, if_pos hb⟩
    · rw [if_neg hb]
      exact scan_some u h0.2 hc hp

/-- A pattern without NUL that starts in front of the NUL ends in front of it. -/
theorem prefix_before_nul {pattern b z : Bytes} (h0 : 0 ∉ pattern) (h : pattern <+: b ++ 0 :: z) :
    pattern <+: b := by
  rcases List.prefix_or_prefix_of_prefix h (List.prefix_append b (0 :: z)) with hp | ⟨p', rfl⟩
  · exact hp
  · have hp' := (List.prefix_append_right_inj b).mp h
    cases p' with
    | nil => exact ⟨[], by rw [List.append_nil, List.append_nil]⟩
    | cons a p' =>
      obtain ⟨t, ht⟩ := hp'
      obtain rfl := (List.cons.inj ht).1
      exact absurd (List.mem_append_right b (List.mem_cons_self ..)) h0

/-- A pattern that is not in the text is not found. -/
theorem scan_absent {pattern u z : Bytes} (hu : 0 ∉ u) (h0 : 0 ∉ pattern) (hno : ¬ pattern <:+: u) :
    scan pattern.isPrefixOf (u ++ 0 :: z) = some none := by
  refine scan_none u z hu fun b _ hb => ?_
  rw [Bool.eq_false_iff]
  intro h
  exact hno ((prefix_before_nul h0 (List.isPrefixOf_iff_prefix.mp h)).isInfix.trans hb.isInfix)

/-- A pattern that is in the text is found. -/
theorem scan_present {pattern u z : Bytes} (hu : 0 ∉ u) (hne : pattern ≠ []) (h : pattern <:+: u) :
    ∃ t, scan pattern.isPrefixOf (u ++ 0 :: z) = some (some t) := by
  obtain ⟨a, b, rfl⟩ := h
  obtain ⟨c, pattern, rfl⟩ := List.exists_cons_of_ne_nil hne
  rw [List.mem_append, List.mem_append, not_or, not_or] at hu
  have hc : c ≠ 0 := fun h => hu.1.2 (h ▸ List.mem_cons_self ..)
  have hpre : (c :: pattern).isPrefixOf (c :: (pattern ++ (b ++ 0 :: z))) :=
    List.isPrefixOf_iff_prefix.mpr ⟨b ++ 0 :: z, rfl⟩
  obtain ⟨t, ht⟩ := scan_some (p := (c :: pattern).isPrefixOf) a hu.1.1 hc hpre
  refine ⟨t, ?_⟩
  rw [← ht]
  simp only [List.append_assoc, List.cons_append]

end Scan

end Lib.CText
