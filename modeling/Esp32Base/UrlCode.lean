import Esp32Base.Lib.CText

/-!
# UrlCode — URL encoding and decoding (zhHttp.c)

* `zhHttpUrlDecode_in_place`: decoding in place is the left-to-right decoder `urlDecode`, and nothing behind the
  text is looked at.
* `zhHttpUrlEncode_spec`: the encoder writes the encoded characters one after the other.
* `urlDecode_urlEncode`: what the encoder writes decodes to the text it was given.
-/

namespace Esp32Base

open Lib Lib.Buf Lib.CText

/-- The value of one hex digit, as the source computes it from the lower-case digit. -/
def hexValue (c : UInt8) : UInt8 :=
  let c := tolower c
  if 48 ≤ c && c ≤ 57 then c - 48 else c - 97 + 10

/-- The loop of `zhHttpUrlDecode`: `len` characters are left at `data`. -/
def urlDecodeLoop : ℕ → Bytes → ℕ → ℕ → Option (Bytes × ℕ)
  | 0, str, dest, _ => (store str dest [0]).map fun str => (str, dest)
  | len + 1, str, dest, data =>
    (str[data]?).bind fun c =>
      if c = 43 then (store str dest [32]).bind fun str => urlDecodeLoop len str (dest + 1) (data + 1)
      else
        match len with
        | n + 2 =>
          (if c = 37 then load str (data + 1) 2 else some []).bind fun h =>
            if c = 37 ∧ isxdigit (h.getD 0 0) ∧ isxdigit (h.getD 1 0) then
              (store str dest [hexValue (h.getD 0 0) * 16 + hexValue (h.getD 1 0)]).bind fun str =>
                urlDecodeLoop n str (dest + 1) (data + 3)
            else (store str dest [c]).bind fun str => urlDecodeLoop (n + 2) str (dest + 1) (data + 1)
        | len => (store str dest [c]).bind fun str => urlDecodeLoop len str (dest + 1) (data + 1)

/-- The buffer after decoding `len` characters in place, and the return value. -/
def zhHttpUrlDecode (str : Bytes) (len : ℕ) : Option (Bytes × ℕ) := urlDecodeLoop len str 0 0

/-- The left-to-right decoder: `+` is a space, `%` and two hex digits inside the text are their byte,
everything else is itself. -/
def urlDecode : Bytes → Bytes
  | [] => []
  | c :: h :: l :: t =>
    if c = 43 then 32 :: urlDecode (h :: l :: t)
    else if c = 37 ∧ isxdigit h ∧ isxdigit l then (hexValue h * 16 + hexValue l) :: urlDecode t
    else c :: urlDecode (h :: l :: t)
  | c :: t => (if c = 43 then 32 else c) :: urlDecode t

/-- The write of one decoded character: behind the character just read nothing changes. -/
theorem store_decoded {str l : Bytes} {dest data : ℕ} {c : UInt8} (v : UInt8)
    (h : str.drop data = c :: l) (hle : dest ≤ data) :
    ∃ str', store str dest [v] = some str' ∧ str'.length = str.length ∧
      str'.take (dest + 1) = str.take dest ++ [v] ∧ ∀ k, data + 1 ≤ k → str'.drop k = str.drop k := by
  have hl := congrArg List.length h
  rw [List.length_drop, List.length_cons] at hl
  have hst : ∃ str', store str dest [v] = some str' :=
    ⟨_, store_of_le (by rw [List.length_singleton]; omega)⟩
  obtain ⟨str', hst⟩ := hst
  exact ⟨str', hst, store_length hst, store_take hst, fun k hk => store_drop hst (by
    rw [List.length_singleton]
    omega)⟩

/-- A result of the loop from `dest` on: the bytes `out` and the terminator, the rest of the buffer in
front of `dest` as it was. -/
def Decoded (str : Bytes) (dest : ℕ) (out : Bytes) (r : Option (Bytes × ℕ)) : Prop :=
  ∃ str', r = some (str', dest + out.length) ∧ str'.length = str.length ∧
    str'.take (dest + out.length) = str.take dest ++ out ∧ str'[dest + out.length]? = some 0

theorem Decoded.cons {str str' out : Bytes} {dest : ℕ} {v : UInt8} {r : Option (Bytes × ℕ)}
    (hlen : str'.length = str.length) (htake : str'.take (dest + 1) = str.take dest ++ [v])
    (h : Decoded str' (dest + 1) out r) : Decoded str dest (v :: out) r := by
  obtain ⟨str₂, hr, hlen₂, htake₂, hend⟩ := h
  have hd : dest + (v :: out).length = dest + 1 + out.length := by
    rw [List.length_cons]
    omega
  refine ⟨str₂, by rw [hd, hr], hlen₂.trans hlen, ?_, by rw [hd, hend]⟩
  rw [hd, htake₂, htake, List.append_assoc]
  rfl

/-- The loop with at least two characters behind the one it reads, which is not a `+`. -/
theorem urlDecodeLoop_long {str l : Bytes} {dest data : ℕ} {c : UInt8} (n : ℕ)
    (hd : str.drop data = c :: l) (hc : c ≠ 43) :
    urlDecodeLoop (n + 3) str dest data =
      (if c = 37 then load str (data + 1) 2 else some []).bind fun h =>
        if c = 37 ∧ isxdigit (h.getD 0 0) ∧ isxdigit (h.getD 1 0) then
          (store str dest [hexValue (h.getD 0 0) * 16 + hexValue (h.getD 1 0)]).bind fun str =>
            urlDecodeLoop n str (dest + 1) (data + 3)
        else (store str dest [c]).bind fun str => urlDecodeLoop (n + 2) str (dest + 1) (data + 1) := by
  rw [urlDecodeLoop, getElem?_of_drop hd, Option.bind_some, if_neg hc]

/-- A `%` with two hex digits behind it. -/
theorem urlDecodeLoop_escape {str x : Bytes} {dest data : ℕ} {h l : UInt8} (n : ℕ)
    (hd : str.drop data = 37 :: h :: l :: x) (hh : isxdigit h) (hl : isxdigit l) :
    urlDecodeLoop (n + 3) str dest data =
      (store str dest [hexValue h * 16 + hexValue l]).bind fun str => urlDecodeLoop n str (dest + 1) (data + 3) := by
  have hd1 : str.drop (data + 1) = [h, l] ++ x := by
    rw [← List.drop_drop, hd]
    rfl
  have hload : load str (data + 1) 2 = some [h, l] := load_of_drop hd1 (by simp)
  rw [urlDecodeLoop_long _ hd (by decide), if_pos rfl, hload, Option.bind_some, List.getD_cons_zero,
    List.getD_cons_succ, List.getD_cons_zero, if_pos ⟨rfl, hh, hl⟩]

/-- Any other character, with at least two behind it. -/
theorem urlDecodeLoop_plain {str x : Bytes} {dest data : ℕ} {c h l : UInt8} (n : ℕ)
    (hd : str.drop data = c :: h :: l :: x) (hc : c ≠ 43) (hx : ¬ (c = 37 ∧ isxdigit h ∧ isxdigit l)) :
    urlDecodeLoop (n + 3) str dest data =
      (store str dest [c]).bind fun str => urlDecodeLoop (n + 2) str (dest + 1) (data + 1) := by
  have hd1 : str.drop (data + 1) = [h, l] ++ x := by
    rw [← List.drop_drop, hd]
    rfl
  have hload : load str (data + 1) 2 = some [h, l] := load_of_drop hd1 (by simp)
  rw [urlDecodeLoop_long _ hd hc]
  by_cases h37 : c = 37
  · rw [if_pos h37, hload, Option.bind_some, List.getD_cons_zero, List.getD_cons_succ, List.getD_cons_zero, if_neg hx]
  · rw [if_neg h37, Option.bind_some, if_neg (fun hn => h37 hn.1)]

/-- Fewer than two characters follow. -/
theorem urlDecodeLoop_short {str x : Bytes} {dest data : ℕ} {c : UInt8} {n : ℕ} (hd : str.drop data = c :: x)
    (hn : n < 2) :
    urlDecodeLoop (n + 1) str dest data =
      (store str dest [if c = 43 then 32 else c]).bind fun str => urlDecodeLoop n str (dest + 1) (data + 1) := by
  rw [urlDecodeLoop, getElem?_of_drop hd, Option.bind_some]
  by_cases h43 : c = 43
  · rw [if_pos h43, if_pos h43]
  · rw [if_neg h43, if_neg h43]
    match n, hn with
    | 0, _ => rfl
    | 1, _ => rfl

/-- The terminator. -/
theorem urlDecodeLoop_end {str x : Bytes} {dest data : ℕ} {b : UInt8} (hd : str.drop data = b :: x)
    (hle : dest ≤ data) : Decoded str dest [] (urlDecodeLoop 0 str dest data) := by
  obtain ⟨str', hst, hlen, htake, -⟩ := store_decoded 0 hd hle
  have hfit := (store_eq_some hst).1
  rw [List.length_singleton] at hfit
  have hget : str'[dest]? = some 0 := by
    rw [← List.getElem?_take_of_lt (Nat.lt_succ_self dest), htake,
      List.getElem?_append_right (by rw [List.length_take]; omega), List.length_take,
      Nat.min_eq_left (by omega), Nat.sub_self]
    rfl
  refine ⟨str', ?_, hlen, ?_, hget⟩
  · rw [urlDecodeLoop, hst]
    rfl
  · simpa using store_take_le hst le_rfl

/-- One character `v` is stored for the characters `pre`; the loop does the rest behind both. -/
theorem urlDecodeLoop_step {t : Bytes} (ih : ∀ (str rest : Bytes) (dest data : ℕ),
      str.drop data = t ++ rest → rest ≠ [] → dest ≤ data →
      Decoded str dest (urlDecode t) (urlDecodeLoop t.length str dest data))
    {str pre rest : Bytes} {dest data : ℕ} (v : UInt8) (hd : str.drop data = pre ++ (t ++ rest)) (hpre : pre ≠ [])
    (hr : rest ≠ []) (hle : dest ≤ data) :
    Decoded str dest (v :: urlDecode t)
      ((store str dest [v]).bind fun str => urlDecodeLoop t.length str (dest + 1) (data + pre.length)) := by
  obtain ⟨b, pre, rfl⟩ := List.exists_cons_of_ne_nil hpre
  obtain ⟨str', hst, hlen, htake, hdrop⟩ := store_decoded v hd hle
  have hd' : str'.drop (data + (b :: pre).length) = t ++ rest := by
    rw [hdrop _ (by rw [List.length_cons]; omega), ← List.drop_drop, hd, List.drop_left]
  have hrec := ih str' rest (dest + 1) (data + (b :: pre).length) hd' hr (by rw [List.length_cons]; omega)
  rw [hst, Option.bind_some]
  exact hrec.cons hlen htake

/-- **Decoding in place** of the text `t` at `data`, with room for the terminator behind it: `dest`
never passes `data`, so no character is overwritten before it is read. -/
theorem urlDecodeLoop_spec (t : Bytes) : ∀ (str rest : Bytes) (dest data : ℕ),
    str.drop data = t ++ rest → rest ≠ [] → dest ≤ data →
    Decoded str dest (urlDecode t) (urlDecodeLoop t.length str dest data) := by
  induction t using urlDecode.induct with
  | case1 =>
    intro str rest dest data hd hr hle
    obtain ⟨b, rest, rfl⟩ := List.exists_cons_of_ne_nil hr
    rw [urlDecode]
    exact urlDecodeLoop_end hd hle
  | case2 h l t ih =>
    intro str rest dest data hd hr hle
    have hstep := urlDecodeLoop_step ih 32 (show str.drop data = [43] ++ (h :: l :: t ++ rest) from hd)
      (List.cons_ne_nil _ _) hr hle
    rw [urlDecode, if_pos rfl, List.length_cons, urlDecodeLoop, getElem?_of_drop hd, Option.bind_some, if_pos rfl]
    exact hstep
  | case3 c h l t hc hx ih =>
    intro str rest dest data hd hr hle
    obtain ⟨rfl, hh, hl⟩ := hx
    have hstep := urlDecodeLoop_step ih (hexValue h * 16 + hexValue l)
      (show str.drop data = [37, h, l] ++ (t ++ rest) from hd) (List.cons_ne_nil _ _) hr hle
    rw [urlDecode, if_neg hc, if_pos ⟨rfl, hh, hl⟩, List.length_cons, List.length_cons, List.length_cons,
      urlDecodeLoop_escape _ hd hh hl]
    exact hstep
  | case4 c h l t hc hx ih =>
    intro str rest dest data hd hr hle
    have hstep := urlDecodeLoop_step ih c (show str.drop data = [c] ++ (h :: l :: t ++ rest) from hd)
      (List.cons_ne_nil _ _) hr hle
    rw [urlDecode, if_neg hc, if_neg hx, List.length_cons, List.length_cons, List.length_cons,
      urlDecodeLoop_plain _ hd hc hx]
    exact hstep
  | case5 c t hne ih =>
    intro str rest dest data hd hr hle
    have hstep := urlDecodeLoop_step ih (if c = 43 then 32 else c) (show str.drop data = [c] ++ (t ++ rest) from hd)
      (List.cons_ne_nil _ _) hr hle
    have hdec : urlDecode (c :: t) = (if c = 43 then 32 else c) :: urlDecode t := by
      rw [urlDecode]
      exact hne
    have hshort : t.length < 2 := by
      match t, hne with
      | [], _ => exact Nat.zero_lt_two
      | [_], _ => exact Nat.one_lt_two
      | _ :: _ :: _, hne => exact absurd rfl (hne _ _ _)
    rw [hdec, List.length_cons, urlDecodeLoop_short hd hshort]
    exact hstep

/-! ### What the decoder looks at -/

/-- A loop that works on the text `x` alone: whatever lies behind `x`, it leaves the same bytes in its place and
writes its terminator at the same index, at most `bound`. -/
def Confines (x : Bytes) (bound : ℕ) (f : Bytes → Option (Bytes × ℕ)) : Prop :=
  ∃ mid k, mid.length = x.length ∧ k ≤ bound ∧
    ∀ b rest, f (x ++ b :: rest) = some ((mid ++ b :: rest).set k 0, k)

/-- The write of one byte inside the text, in front of such a loop. -/
theorem Confines.write {x : Bytes} {bound dest : ℕ} {v : UInt8} {f g : Bytes → Option (Bytes × ℕ)}
    (hd : dest < x.length) (h : Confines (x.set dest v) bound f)
    (hg : ∀ b rest, g (x ++ b :: rest) = (store (x ++ b :: rest) dest [v]).bind f) : Confines x bound g := by
  obtain ⟨mid, k, hlen, hk, hall⟩ := h
  refine ⟨mid, k, by rw [hlen, List.length_set], hk, fun b rest => ?_⟩
  have hst : store (x ++ b :: rest) dest [v] = some (x.set dest v ++ b :: rest) := by
    rw [store_byte (by rw [List.length_append]; omega), List.set_append_left _ _ hd]
  rw [hg, hst, Option.bind_some, hall]

/-- The loop over `n` characters of `x` is confined to `x`, and `dest` moves by at most `n`. -/
theorem urlDecodeLoop_confines : ∀ (n : ℕ) (x : Bytes) (dest data : ℕ), dest ≤ data → data + n = x.length →
    Confines x (dest + n) fun str => urlDecodeLoop n str dest data
  | 0, x, dest, data, hle, hx => by
    refine ⟨x, dest, rfl, le_rfl, fun b rest => ?_⟩
    dsimp only
    rw [urlDecodeLoop, store_byte (by rw [List.length_append, List.length_cons]; omega), Option.map_some]
  | n + 1, x, dest, data, hle, hx => by
    obtain ⟨c, l, hc⟩ : ∃ c l, x.drop data = c :: l :=
      List.exists_cons_of_ne_nil (List.ne_nil_of_length_pos (by rw [List.length_drop]; omega))
    have hl : l.length = n := by
      have h := congrArg List.length hc
      rw [List.length_drop, List.length_cons] at h
      omega
    have hstr : ∀ b rest, (x ++ b :: rest).drop data = c :: (l ++ b :: rest) := fun b rest => by
      rw [List.drop_append_of_le_length (by omega), hc, List.cons_append]
    have hnext : ∀ (v : UInt8) (k m : ℕ), data + k + m = x.length → 1 ≤ k → m ≤ n →
        Confines (x.set dest v) (dest + (n + 1)) fun str => urlDecodeLoop m str (dest + 1) (data + k) := by
      intro v k m hm hk hmn
      obtain ⟨mid, e, hmid, he, hall⟩ := urlDecodeLoop_confines m (x.set dest v) (dest + 1) (data + k) (by omega)
        (by rw [List.length_set]; exact hm)
      exact ⟨mid, e, hmid, by omega, hall⟩
    by_cases hshort : n < 2
    · exact (hnext _ 1 n (by omega) le_rfl le_rfl).write (by omega) fun b rest =>
        urlDecodeLoop_short (hstr b rest) hshort
    obtain ⟨n, rfl⟩ : ∃ k, n = k + 2 := ⟨n - 2, by omega⟩
    obtain ⟨h, l', t, rfl⟩ : ∃ h l' t, l = h :: l' :: t := by
      match l, hl with
      | h :: l' :: t, _ => exact ⟨h, l', t, rfl⟩
    by_cases hplus : c = 43
    · refine (hnext 32 1 (n + 2) (by omega) le_rfl le_rfl).write (by omega) fun b rest => ?_
      rw [urlDecodeLoop, getElem?_of_drop (hstr b rest), Option.bind_some, if_pos hplus]
    by_cases hx : c = 37 ∧ isxdigit h ∧ isxdigit l'
    · obtain ⟨rfl, hh, hl'⟩ := hx
      exact (hnext _ 3 n (by omega) (by decide) (by omega)).write (by omega) fun b rest =>
        urlDecodeLoop_escape n (hstr b rest) hh hl'
    · exact (hnext c 1 (n + 2) (by omega) le_rfl le_rfl).write (by omega) fun b rest =>
        urlDecodeLoop_plain n (hstr b rest) hplus hx

/-- The text in front of at least one more byte is decoded where it stands. -/
theorem zhHttpUrlDecode_spec (t : Bytes) {rest : Bytes} (hr : rest ≠ []) :
    ∃ str', zhHttpUrlDecode (t ++ rest) t.length = some (str', (urlDecode t).length) ∧
      str'.take (urlDecode t).length = urlDecode t := by
  obtain ⟨str', h, -, htake, -⟩ := urlDecodeLoop_spec t (t ++ rest) rest 0 0 rfl hr le_rfl
  rw [Nat.zero_add] at h htake
  exact ⟨str', h, by simpa using htake⟩

/-- **In place is left to right**: for every text there are bytes `mid`, found without the cells behind it, that
start with the decoded text; whatever these cells hold, they and `mid` with a NUL behind the decoded text are what
is left. -/
theorem zhHttpUrlDecode_in_place (t : Bytes) :
    ∃ mid, mid.length = t.length ∧ (urlDecode t).length ≤ t.length ∧
      mid.take (urlDecode t).length = urlDecode t ∧
      ∀ b rest, zhHttpUrlDecode (t ++ b :: rest) t.length =
        some ((mid ++ b :: rest).set (urlDecode t).length 0, (urlDecode t).length) := by
  obtain ⟨mid, k, hmid, hk, hall⟩ := urlDecodeLoop_confines t.length t 0 0 le_rfl (Nat.zero_add _)
  rw [Nat.zero_add] at hk
  obtain ⟨str', hdec, htake⟩ := zhHttpUrlDecode_spec t (List.cons_ne_nil 0 [])
  have hcall := hall 0 []
  dsimp only at hcall
  rw [← zhHttpUrlDecode, hdec] at hcall
  simp only [Option.some.injEq, Prod.mk.injEq] at hcall
  obtain ⟨rfl, rfl⟩ := hcall
  refine ⟨mid, hmid, hk, ?_, hall⟩
  rw [List.take_set_of_le le_rfl, List.take_append_of_le_length (by omega)] at htake
  exact htake

example : zhHttpUrlDecode (ascii "a%4b+%4" ++ [0]) 7 = some (ascii "aK %4" ++ [0, 52, 0], 5) := by decide

example : hexLower.map hexValue = (List.range 16).map UInt8.ofNat ∧ hexUpper.map hexValue = hexLower.map hexValue := by
  decide

/-! ## Encoding -/

def hexchars : Bytes := ascii "0123456789ABCDEF"

/-- The two characters the source takes from `hexchars`, behind a `%`. -/
def percent (c : UInt8) : Bytes :=
  [37, hexchars.getD (c >>> 4).toNat 0, hexchars.getD (c &&& 15).toNat 0]

/-- The characters that are sent as `%XX`. -/
def isEscaped (c : UInt8) : Bool :=
  (c < 48 && c != 45 && c != 46) || (c < 65 && c > 57) || (c > 90 && c < 97 && c != 95) || c > 122

/-- The loop of `zhHttpUrlEncode`: the characters still to be read, the block and the index `to_`. -/
def urlEncodeLoop : Bytes → Bytes → ℕ → Option (Bytes × ℕ)
  | [], start, to_ => (store start to_ [0]).map fun start => (start, to_)
  | c :: rest, start, to_ =>
    if c = 32 then (store start to_ [43]).bind fun start => urlEncodeLoop rest start (to_ + 1)
    else if isEscaped c then
      (store start to_ (percent c)).bind fun start => urlEncodeLoop rest start (to_ + 3)
    else (store start to_ [c]).bind fun start => urlEncodeLoop rest start (to_ + 1)

/-- The block that `malloc(3 * len + 1)` gave, after encoding, and `new_length`. -/
def zhHttpUrlEncode (garbage : ℕ → UInt8) (s : Bytes) : Option (Bytes × ℕ) :=
  urlEncodeLoop s (alloc garbage (3 * s.length + 1)) 0

/-- What the encoder writes for one character. -/
def encodeChar (c : UInt8) : Bytes := if c = 32 then [43] else if isEscaped c then percent c else [c]

/-- The encoded text. -/
def urlEncode (b : Bytes) : Bytes := b.flatMap encodeChar

@[simp] theorem urlEncode_nil : urlEncode [] = [] := rfl

@[simp] theorem urlEncode_cons (c : UInt8) (b : Bytes) :
    urlEncode (c :: b) = encodeChar c ++ urlEncode b := rfl

theorem encodeChar_length_le (c : UInt8) : (encodeChar c).length ≤ 3 := by
  unfold encodeChar percent
  split_ifs <;> simp

theorem urlEncode_length_le (b : Bytes) : (urlEncode b).length ≤ 3 * b.length := by
  induction b with
  | nil => exact le_rfl
  | cons c b ih =>
    have hc := encodeChar_length_le c
    rw [urlEncode_cons, List.length_append, List.length_cons]
    omega

/-- One round of the loop, whichever branch it takes. -/
theorem urlEncodeLoop_cons (c : UInt8) (rest start : Bytes) (to_ : ℕ) :
    urlEncodeLoop (c :: rest) start to_ =
      (store start to_ (encodeChar c)).bind fun start =>
        urlEncodeLoop rest start (to_ + (encodeChar c).length) := by
  rw [urlEncodeLoop, encodeChar]
  split_ifs <;> rfl

/-- The loop behind `p`: room for three bytes a character and the NUL is enough. -/
theorem urlEncodeLoop_spec (b : Bytes) : ∀ (p room : Bytes), 3 * b.length + 1 ≤ room.length →
    ∃ rest, urlEncodeLoop b (p ++ room) p.length =
      some (p ++ urlEncode b ++ 0 :: rest, (p ++ urlEncode b).length) := by
  induction b with
  | nil =>
    intro p room hr
    refine ⟨room.drop 1, ?_⟩
    have h0 : store (p ++ room) p.length [0] = some (p ++ [0] ++ room.drop 1) := store_append hr
    rw [urlEncodeLoop, h0, urlEncode_nil, List.append_nil, Option.map_some,
      List.append_assoc]
    rfl
  | cons c b ih =>
    intro p room hr
    have hc := encodeChar_length_le c
    rw [List.length_cons] at hr
    have hroom : 3 * b.length + 1 ≤ (room.drop (encodeChar c).length).length := by
      rw [List.length_drop]
      omega
    obtain ⟨rest, h⟩ := ih (p ++ encodeChar c) _ hroom
    refine ⟨rest, ?_⟩
    rw [urlEncodeLoop_cons, store_append (by omega), Option.bind_some, ← List.length_append, h,
      urlEncode_cons, List.append_assoc p]

/-- The encoder never leaves its block and ends it with a NUL. -/
theorem zhHttpUrlEncode_spec (garbage : ℕ → UInt8) (s : Bytes) :
    ∃ rest, zhHttpUrlEncode garbage s = some (urlEncode s ++ 0 :: rest, (urlEncode s).length) :=
  urlEncodeLoop_spec s [] (alloc garbage (3 * s.length + 1)) (by rw [alloc_length])

/-! ## Decoding what was encoded -/

theorem urlDecode_plus (t : Bytes) : urlDecode (43 :: t) = 32 :: urlDecode t := by
  match t with
  | [] => rfl
  | [_] => rfl
  | _ :: _ :: _ => rw [urlDecode, if_pos rfl]

theorem urlDecode_literal {c : UInt8} (h43 : c ≠ 43) (h37 : c ≠ 37) (t : Bytes) :
    urlDecode (c :: t) = c :: urlDecode t := by
  match t with
  | [] => simp [urlDecode, h43]
  | [_] => simp [urlDecode, h43]
  | _ :: _ :: _ => rw [urlDecode, if_neg h43, if_neg fun h => h37 h.1]

theorem urlDecode_percent (c : UInt8) (t : Bytes) : urlDecode (percent c ++ t) = c :: urlDecode t := by
  have hx : ∀ c : UInt8, isxdigit (hexchars.getD (c >>> 4).toNat 0) ∧
      isxdigit (hexchars.getD (c &&& 15).toNat 0) ∧
      hexValue (hexchars.getD (c >>> 4).toNat 0) * 16 + hexValue (hexchars.getD (c &&& 15).toNat 0) = c :=
    forall_byte (by decide +kernel)
  obtain ⟨h, l, hv⟩ := hx c
  show urlDecode (37 :: _ :: _ :: t) = _
  rw [urlDecode, if_neg (by decide), if_pos ⟨rfl, h, l⟩, hv]

theorem urlDecode_encodeChar (c : UInt8) (t : Bytes) :
    urlDecode (encodeChar c ++ t) = c :: urlDecode t := by
  unfold encodeChar
  split_ifs with h32 he
  · rw [h32]
    exact urlDecode_plus t
  · exact urlDecode_percent c t
  · refine urlDecode_literal (fun h => he ?_) (fun h => he ?_) t <;> (subst h; decide)

/-- **The codec's round trip.** -/
theorem urlDecode_urlEncode (b : Bytes) : urlDecode (urlEncode b) = b := by
  induction b with
  | nil => rfl
  | cons c b ih => rw [urlEncode_cons, urlDecode_encodeChar, ih]

/-- The characters the encoder can write. -/
def isUrlSafe (c : UInt8) : Bool := c == 37 || c == 43 || !isEscaped c

theorem percent_safe (c : UInt8) : ∀ x ∈ percent c, isUrlSafe x := by
  have hx : ∀ c : UInt8, (percent c).all isUrlSafe :=
    forall_byte (by decide +kernel)
  exact List.all_eq_true.mp (hx c)

theorem urlEncode_safe (b : Bytes) : ∀ x ∈ urlEncode b, isUrlSafe x := by
  intro x hx
  obtain ⟨c, -, hx⟩ := List.mem_flatMap.mp hx
  unfold encodeChar at hx
  split_ifs at hx with h32 he
  · rw [List.mem_singleton.mp hx]
    decide
  · exact percent_safe c x hx
  · rw [List.mem_singleton.mp hx]
    simp [isUrlSafe, he]

/-- A character the encoder cannot write is in no encoded text. -/
theorem notMem_urlEncode {x : UInt8} (h : isUrlSafe x = false) (b : Bytes) : x ∉ urlEncode b :=
  fun hx => by simp [urlEncode_safe b x hx] at h

end Esp32Base
