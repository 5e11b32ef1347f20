import Esp32Base.UrlCode

/-!
# WebSock.Page — the page's half of the serial bridge (websocket.htm)

The page sends `escape(ret)` and shows `unescape(event.data)`; the device decodes with
`zhHttpUrlDecode` and sends `zhHttpUrlEncode`.  Both script functions are the ones of ECMAScript
Annex B.

* `urlDecode_escape`, `unescape_urlEncode`: what arrives in either direction.
* `page_codecs_agree_iff`: the text arrives in both directions iff it has neither `+` nor a space.
-/

namespace Esp32Base

open Lib Lib.Buf Lib.CText

/-! ## The script functions -/

/-- The characters `escape` leaves alone. -/
def isUnescaped (c : UInt8) : Bool :=
  isupper c || (97 ≤ c && c ≤ 122) || isdigit c || (ascii "@*_+-./").contains c

/-- `escape` on a string whose code units are below 256. -/
def escape (b : Bytes) : Bytes := b.flatMap fun c => if isUnescaped c then [c] else percent c

/-- The value of a hexadecimal digit of either case. -/
def hexDigit (u : UInt16) : Option UInt16 :=
  if 48 ≤ u ∧ u ≤ 57 then some (u - 48)
  else if 65 ≤ u ∧ u ≤ 70 then some (u - 55)
  else if 97 ≤ u ∧ u ≤ 102 then some (u - 87)
  else none

/-- The code unit that `n` hexadecimal digits at the front of `t` stand for. -/
def hexUnits (n : ℕ) (t : List UInt16) : Option UInt16 :=
  if n ≤ t.length then ((t.take n).mapM hexDigit).map fun ds => ds.foldl (fun v d => v * 16 + d) 0
  else none

/-- Behind a `%`: the code unit of `uXXXX` or of `XX`, with the number of characters of either. -/
def escapeAt (t : List UInt16) : Option (UInt16 × ℕ) :=
  match (if t.head? = some 117 then hexUnits 4 (t.drop 1) else none) with
  | some v => some (v, 5)
  | none => (hexUnits 2 t).map fun v => (v, 2)

/-- `unescape` with `k` characters left that are part of the escape before. -/
def unescapeLoop : ℕ → List UInt16 → List UInt16
  | _, [] => []
  | k + 1, _ :: t => unescapeLoop k t
  | 0, c :: t =>
    if c = 37 then
      match escapeAt t with
      | some (v, k) => v :: unescapeLoop k t
      | none => c :: unescapeLoop 0 t
    else c :: unescapeLoop 0 t

def unescape (t : List UInt16) : List UInt16 := unescapeLoop 0 t

/-- The code units of the characters with codes `b`. -/
def codeUnits (b : Bytes) : List UInt16 := b.map UInt8.toUInt16

@[simp] theorem codeUnits_cons (c : UInt8) (b : Bytes) :
    codeUnits (c :: b) = c.toUInt16 :: codeUnits b := rfl

theorem codeUnits_append (a b : Bytes) : codeUnits (a ++ b) = codeUnits a ++ codeUnits b :=
  List.map_append

theorem codeUnits_injective : Function.Injective codeUnits :=
  List.map_injective_iff.mpr fun _ _ => UInt8.toUInt16_inj.mp

/-! ## From the page to the device -/

theorem urlDecode_escape (b : Bytes) :
    urlDecode (escape b) = b.map fun c => if c = 43 then 32 else c := by
  induction b with
  | nil => rfl
  | cons c b ih =>
    rw [escape, List.flatMap_cons, ← escape, List.map_cons, ← ih]
    by_cases hc : isUnescaped c
    · rw [if_pos hc, List.singleton_append]
      by_cases h43 : c = 43
      · rw [h43, if_pos rfl, urlDecode_plus]
      · rw [if_neg h43, urlDecode_literal h43 (fun h => by simp [h] at hc; revert hc; decide)]
    · rw [if_neg hc, urlDecode_percent, if_neg (fun h => hc (by rw [h]; decide))]

/-! ## From the device to the page -/

theorem unescape_literal {c : UInt16} (hc : c ≠ 37) (t : List UInt16) :
    unescape (c :: t) = c :: unescape t := by
  rw [unescape, unescapeLoop, if_neg hc]
  rfl

/-- The two digits of `percent` are read back, and its first digit is not the `u` of `%uXXXX`. -/
theorem unescape_percent (c : UInt8) (t : List UInt16) :
    unescape (codeUnits (percent c) ++ t) = c.toUInt16 :: unescape t := by
  have hx : ∀ c : UInt8, (hexchars.getD (c >>> 4).toNat 0).toUInt16 ≠ 117 ∧
      hexUnits 2 (codeUnits ((percent c).drop 1)) = some c.toUInt16 :=
    forall_byte (by decide +kernel)
  obtain ⟨hu, hv⟩ := hx c
  have hat : escapeAt (codeUnits ((percent c).drop 1) ++ t) = some (c.toUInt16, 2) := by
    have h2 : hexUnits 2 (codeUnits ((percent c).drop 1) ++ t) = some c.toUInt16 := by
      rw [← hv]
      simp [hexUnits, codeUnits, percent]
    have hne : (codeUnits ((percent c).drop 1) ++ t).head? ≠ some 117 := by
      simpa [codeUnits, percent] using hu
    rw [escapeAt, if_neg hne, h2]
    rfl
  show unescapeLoop 0 (37 :: (codeUnits ((percent c).drop 1) ++ t)) = _
  rw [unescapeLoop, if_pos rfl, hat]
  rfl

theorem unescape_urlEncode (b : Bytes) :
    unescape (codeUnits (urlEncode b)) = codeUnits (b.map fun c => if c = 32 then 43 else c) := by
  induction b with
  | nil => rfl
  | cons c b ih =>
    rw [urlEncode_cons, codeUnits_append, List.map_cons, codeUnits_cons, ← ih, encodeChar]
    split_ifs with h32 he
    · exact unescape_literal (by decide) _
    · exact unescape_percent c _
    · refine unescape_literal (fun h => he ?_) _
      rw [show c = 37 from UInt8.toUInt16_inj.mp h]
      decide

/-! ## Both directions -/

/-- A replacement of one character changes a text iff the character is in it. -/
theorem map_replace_eq_self {x y : UInt8} (hxy : y ≠ x) (b : Bytes) :
    (b.map fun c => if c = x then y else c) = b ↔ x ∉ b := by
  nth_rewrite 2 [← List.map_id b]
  rw [List.map_inj_left]
  constructor
  · intro h hx
    have hself := h x hx
    rw [if_pos rfl] at hself
    exact hxy hself
  · intro h c hc
    exact if_neg fun e : c = x => h (e ▸ hc)

/-- The device gets `b` when the page sends the characters with codes `b`, whatever stands in the
buffer behind the text. -/
def PageToDevice (b : Bytes) : Prop :=
  ∀ rest ≠ [], ∃ str n, zhHttpUrlDecode (escape b ++ rest) (escape b).length = some (str, n) ∧
    str.take n = b

/-- The page gets the characters with codes `b` when the device encodes `b`. -/
def DeviceToPage (b : Bytes) : Prop :=
  ∀ garbage, ∃ start n, zhHttpUrlEncode garbage b = some (start, n) ∧
    unescape (codeUnits (start.take n)) = codeUnits b

theorem pageToDevice_iff (b : Bytes) : PageToDevice b ↔ 43 ∉ b := by
  rw [← map_replace_eq_self (show (32 : UInt8) ≠ 43 by decide), ← urlDecode_escape]
  constructor
  · intro h
    obtain ⟨str, n, hd, ht⟩ := h [0] (by simp)
    obtain ⟨str', hd', ht'⟩ := zhHttpUrlDecode_spec (escape b) (List.cons_ne_nil 0 [])
    rw [hd, Option.some.injEq, Prod.mk.injEq] at hd'
    obtain ⟨rfl, rfl⟩ := hd'
    rw [← ht', ht]
  · intro h rest hr
    obtain ⟨str, hd, ht⟩ := zhHttpUrlDecode_spec (escape b) hr
    exact ⟨str, _, hd, ht.trans h⟩

theorem deviceToPage_iff (b : Bytes) : DeviceToPage b ↔ 32 ∉ b := by
  rw [← map_replace_eq_self (show (43 : UInt8) ≠ 32 by decide), ← codeUnits_injective.eq_iff,
    ← unescape_urlEncode]
  constructor
  · intro h
    obtain ⟨start, n, he, hu⟩ := h fun _ => 0
    obtain ⟨rest, hs⟩ := zhHttpUrlEncode_spec (fun _ => 0) b
    rw [he, Option.some.injEq, Prod.mk.injEq] at hs
    obtain ⟨rfl, rfl⟩ := hs
    rwa [List.take_left] at hu
  · intro h garbage
    obtain ⟨rest, hs⟩ := zhHttpUrlEncode_spec garbage b
    exact ⟨_, _, hs, by rw [List.take_left, h]⟩

/-- The codecs agree in both directions exactly on the texts without `+` and without a space. -/
theorem page_codecs_agree_iff (b : Bytes) :
    PageToDevice b ∧ DeviceToPage b ↔ 43 ∉ b ∧ 32 ∉ b := by
  rw [pageToDevice_iff, deviceToPage_iff]

/-- A sent `+` arrives as a space, a space sent back arrives as a `+`. -/
theorem page_codecs_disagree :
    (∃ str, zhHttpUrlDecode (escape [43] ++ [0]) 1 = some (str, 1) ∧ str.take 1 = [32]) ∧
      (∃ start, zhHttpUrlEncode (fun _ => 0) [32] = some (start, 1) ∧
        unescape (codeUnits (start.take 1)) = [43]) ∧
      ¬∀ b, PageToDevice b ∧ DeviceToPage b := by
  refine ⟨⟨[32, 0], by decide, rfl⟩, ⟨[43, 0, 0, 0], by decide, by decide⟩, fun h => ?_⟩
  exact (pageToDevice_iff [43]).mp (h [43]).1 List.mem_cons_self

end Esp32Base
