import Mathlib.Data.List.Infix
import Esp32Base.Http.Strstri
import Esp32Base.Lib.Tok

/-!
# Http.Param — parameters of a query (http_serv.c, zhHttp.c)

`urlGetParameter` and `zhHttpGetParameter` cut a query at `&` and each piece at `=`, with two nested `strtok_r`. They
differ in how a key is compared with the name.

* `getParamLoop_eq`: the loop, segment by segment.
* `getParameter_iff`: when `zhHttpGetParameter` gives the value of the key it is asked for.
* `urlGetParameter_iff`: when `urlGetParameter` gives the value of the first segment with the key.
-/

namespace Esp32Base

open Lib Lib.Buf Lib.CText Lib.Tok

/-! ## The code -/

section Code

variable (compare : Bytes → Option Bool)

/-- `strtok_r(s, "=", &pSplit2)`; `none` when it goes on with a `pSplit2` that has no value yet. -/
def splitKey (s : Option Bytes) (pSplit2 : Option (Option Bytes)) : Option (Option Bytes × Option Bytes) :=
  match s, pSplit2 with
  | some s, _ => some (strtok_r 61 (some s) none)
  | none, some pSplit2 => some (strtok_r 61 none pSplit2)
  | none, none => none

/-- The `do` loop. `compare` is the comparison with the key, `none` where it fails on its arguments. The result is the
return value and what `value` holds. -/
def getParamLoop (pPara pSplit : Option Bytes) (pSplit2 : Option (Option Bytes)) (value : Bytes) :
    Option (Bool × Bytes) :=
  (splitKey pPara pSplit2).bind fun first =>
    (splitKey none (some first.2)).bind fun second =>
      match first.1 with
      | none => none
      | some p1 =>
        (compare p1).bind fun same =>
          if same then
            match second.1 with
            | some p2 => (strcpy value 0 p2).map fun value => (true, value)
            | none => some (false, value)
          else
            match _h : strtok_r 38 none pSplit with
            | (some pPara, pSplit) => getParamLoop (some pPara) pSplit (some second.2) value
            | (none, _) => some (false, value)
termination_by ahead pSplit
decreasing_by exact strtok_r_ahead _h

/-- From the first call of `strtok_r` on. -/
def getParam (str value : Bytes) : Option (Bool × Bytes) :=
  getParamLoop compare (strtok_r 38 (some str) none).1 (strtok_r 38 (some str) none).2 none value

end Code

/-- `strcmp(parameter, p1)`; the result is 1 or 0. -/
def urlGetParameter (str parameter value : Bytes) : Option (ℕ × Bytes) :=
  if 2048 < str.length then some (0, value)
  else if str.length = 0 then some (0, value)
  else (getParam (fun p1 => some (parameter = p1)) str value).map fun r => (r.1.toNat, r.2)

/-- `zhHttpStrstri(parameter, p1)`. -/
def zhHttpGetParameter (str parameter value : Bytes) : Option (Bool × Bytes) :=
  if str.length = 0 then some (false, value)
  else getParam (fun p1 => (zhHttpStrstri parameter p1).map Option.isSome) str value

/-! ## Segment by segment -/

/-- The first two runs of a segment. -/
def firstRun (seg : Bytes) : Option Bytes := (tokens 61 seg)[0]?

def secondRun (seg : Bytes) : Option Bytes := (tokens 61 seg)[1]?

/-- The loop over the segments. -/
def segmentLoop (compare : Bytes → Option Bool) (value : Bytes) : List Bytes → Option (Bool × Bytes)
  | [] => some (false, value)
  | seg :: segs =>
    match firstRun seg with
    | none => none
    | some p1 =>
      (compare p1).bind fun same =>
        if same then
          match secondRun seg with
          | some p2 => (strcpy value 0 p2).map fun value => (true, value)
          | none => some (false, value)
        else segmentLoop compare value segs

section Loop

variable {compare : Bytes → Option Bool}

/-- Two calls give the first two runs, whatever the save pointer held. -/
theorem splitKey_some (seg : Bytes) (pSplit2 : Option (Option Bytes)) : ∃ save save',
    splitKey (some seg) pSplit2 = some (firstRun seg, save) ∧
      splitKey none (some save) = some (secondRun seg, save') := by
  rcases next_cases (d := (61 : UInt8)) seg with ⟨hnext, htok⟩ | ⟨w, save, hnext, htok, -⟩
  · refine ⟨none, none, ?_, ?_⟩
    · rw [splitKey, strtok_r_some, hnext, firstRun, htok]
      rfl
    · rw [secondRun, htok]
      rfl
  · rcases strtok_r_none (d := (61 : UInt8)) save with ⟨hnone, hsaved⟩ | ⟨w', save', hsome, hsaved, -⟩
    · refine ⟨save, none, ?_, ?_⟩
      · rw [splitKey, strtok_r_some, hnext, firstRun, htok]
        rfl
      · rw [splitKey, hnone, secondRun, htok, hsaved]
        rfl
    · refine ⟨save, save', ?_, ?_⟩
      · rw [splitKey, strtok_r_some, hnext, firstRun, htok]
        rfl
      · rw [splitKey, hsome, secondRun, htok, hsaved]
        rfl

/-- **The loop**, segment by segment. -/
theorem getParamLoop_eq (seg : Bytes) (pSplit : Option Bytes) (pSplit2 : Option (Option Bytes)) (value : Bytes) :
    getParamLoop compare (some seg) pSplit pSplit2 value = segmentLoop compare value (seg :: saved 38 pSplit) := by
  obtain ⟨save, save', hfirst, hsecond⟩ := splitKey_some seg pSplit2
  rw [getParamLoop, hfirst, Option.bind_some, hsecond, Option.bind_some, segmentLoop]
  cases firstRun seg with
  | none => rfl
  | some p1 =>
    simp only
    congr 1
    ext1 same
    cases same with
    | true => rfl
    | false =>
      simp only [Bool.false_eq_true, if_false]
      rcases strtok_r_none (d := (38 : UInt8)) pSplit with ⟨hnone, hsaved⟩ | ⟨w, pSplit', hsome, hsaved, hahead⟩
      · rw [hsaved]
        split
        · next heq => exact nomatch hnone.symm.trans heq
        · rfl
      · rw [hsaved]
        split
        · next w' pSplit'' heq =>
          obtain ⟨hw, hsplit⟩ := Prod.mk.inj (hsome.symm.trans heq)
          obtain rfl := Option.some.inj hw
          subst hsplit
          exact getParamLoop_eq w pSplit' (some save') value
        · next heq => exact nomatch hsome.symm.trans heq
termination_by ahead pSplit
decreasing_by exact hahead

/-- A query without a segment passes an uninitialised `pSplit2`. -/
theorem getParam_eq (str value : Bytes) : getParam compare str value =
    if tokens 38 str = [] then none else segmentLoop compare value (tokens 38 str) := by
  rw [getParam, strtok_r_some]
  rcases next_cases (d := (38 : UInt8)) str with ⟨hnext, htok⟩ | ⟨w, save, hnext, htok, -⟩
  · rw [hnext, htok, if_pos rfl, getParamLoop]
    rfl
  · rw [hnext, htok, if_neg (List.cons_ne_nil _ _)]
    exact getParamLoop_eq w save none value

end Loop

/-! ## Queries of pairs -/

/-- A key or a value of a query. -/
def PlainPart (t : Bytes) : Prop := t ≠ [] ∧ 0 ∉ t ∧ 38 ∉ t ∧ 61 ∉ t

instance (t : Bytes) : Decidable (PlainPart t) := inferInstanceAs (Decidable (_ ∧ _))

structure QueryPair where
  key : Bytes
  val : Bytes
  key_plain : PlainPart key
  val_plain : PlainPart val

/-- `key=val` -/
def QueryPair.text (p : QueryPair) : Bytes := p.key ++ 61 :: p.val

/-- `k1=v1&...&kn=vn` -/
def queryText (pairs : List QueryPair) : Bytes := [38].intercalate (pairs.map QueryPair.text)

/-- The first pair whose key is the name, in any case. -/
def pairOf (pairs : List QueryPair) (parameter : Bytes) : Option QueryPair :=
  pairs.find? fun p => SameNoCase p.key parameter

/-- The first pair whose key occurs in the name, in any case. -/
def pairIn (pairs : List QueryPair) (parameter : Bytes) : Option QueryPair :=
  pairs.find? fun p => p.key.map tolower <:+: parameter.map tolower

/-- The keys and the name have no capitals. -/
def LowerCase (pairs : List QueryPair) (parameter : Bytes) : Prop :=
  (∀ p ∈ pairs, p.key.map tolower = p.key) ∧ parameter.map tolower = parameter

/-- What is promised of a query and a name: the value of the first pair with this key, and the same as from
`urlGetParameter` without capitals. -/
structure GetsParameter (pairs : List QueryPair) (parameter value : Bytes) : Prop where
  found : ∀ p, pairOf pairs parameter = some p → ∃ value',
    zhHttpGetParameter (queryText pairs) parameter value = some (true, value') ∧ cstr value' = some p.val
  absent : pairOf pairs parameter = none →
    zhHttpGetParameter (queryText pairs) parameter value = some (false, value)
  agrees : LowerCase pairs parameter → urlGetParameter (queryText pairs) parameter value =
    (zhHttpGetParameter (queryText pairs) parameter value).map fun r => (r.1.toNat, r.2)

/-- The first key that occurs in the name has the value of the first key that is the name. -/
structure KeysApart (pairs : List QueryPair) (parameter : Bytes) : Prop where
  part : ∀ p, pairIn pairs parameter = some p → ∃ q, pairOf pairs parameter = some q ∧ q.val = p.val
  /-- A query that `urlGetParameter` does not look at has no such key, if there are no capitals. -/
  short : LowerCase pairs parameter → 2048 < (queryText pairs).length → pairOf pairs parameter = none

section Pairs

variable {pairs : List QueryPair} {parameter value : Bytes}

theorem QueryPair.runs (p : QueryPair) : firstRun p.text = some p.key ∧ secondRun p.text = some p.val := by
  have htok : tokens 61 p.text = [p.key, p.val] := by
    rw [QueryPair.text, tokens_append_cons, tokens_of_notMem p.key_plain.2.2.2 p.key_plain.1,
      tokens_of_notMem p.val_plain.2.2.2 p.val_plain.1]
    rfl
  rw [firstRun, secondRun, htok]
  exact ⟨rfl, rfl⟩

theorem tokens_queryText (pairs : List QueryPair) : tokens 38 (queryText pairs) = pairs.map QueryPair.text := by
  apply tokens_intercalate
  intro s hs
  obtain ⟨p, -, rfl⟩ := List.mem_map.mp hs
  refine ⟨?_, List.append_ne_nil_of_left_ne_nil p.key_plain.1 _⟩
  simp only [QueryPair.text, List.mem_append, List.mem_cons, not_or]
  exact ⟨p.key_plain.2.2.1, by decide, p.val_plain.2.2.1⟩

/-- The loop stops at the first key that the comparison takes. -/
theorem segmentLoop_pairs {compare : Bytes → Option Bool} {f : QueryPair → Bool}
    (hcompare : ∀ p ∈ pairs, compare p.key = some (f p)) :
    segmentLoop compare value (pairs.map QueryPair.text) =
      match pairs.find? f with
      | some p => (strcpy value 0 p.val).map fun value => (true, value)
      | none => some (false, value) := by
  induction pairs with
  | nil => rfl
  | cons p pairs ih =>
    obtain ⟨hfirst, hsecond⟩ := p.runs
    rw [List.map_cons, segmentLoop, hfirst]
    simp only
    rw [hcompare p (List.mem_cons_self ..), Option.bind_some]
    cases hf : f p with
    | true =>
      rw [List.find?_cons_of_pos hf, hsecond]
      rfl
    | false =>
      rw [List.find?_cons_of_neg (by rw [hf]; decide), if_neg (by decide)]
      exact ih (fun q hq => hcompare q (List.mem_cons_of_mem _ hq))

theorem queryText_eq_nil (h : (queryText pairs).length = 0) : pairs = [] := by
  have htok := tokens_queryText pairs
  rw [List.length_eq_zero_iff.mp h, tokens_nil] at htok
  exact List.map_eq_nil_iff.mp htok.symm

/-- The call for a query of pairs. -/
theorem getParam_pairs {compare : Bytes → Option Bool} {f : QueryPair → Bool}
    (hcompare : ∀ p ∈ pairs, compare p.key = some (f p)) :
    (if (queryText pairs).length = 0 then some (false, value) else getParam compare (queryText pairs) value) =
      match pairs.find? f with
      | some p => (strcpy value 0 p.val).map fun value => (true, value)
      | none => some (false, value) := by
  by_cases hlen : (queryText pairs).length = 0
  · rw [if_pos hlen, queryText_eq_nil hlen]
    rfl
  · have hne : pairs.map QueryPair.text ≠ [] := by
      intro hnil
      obtain rfl := List.map_eq_nil_iff.mp hnil
      exact hlen rfl
    rw [if_neg hlen, getParam_eq, tokens_queryText, if_neg hne]
    exact segmentLoop_pairs hcompare

theorem zhHttpGetParameter_eq : zhHttpGetParameter (queryText pairs) parameter value =
    match pairIn pairs parameter with
    | some p => (strcpy value 0 p.val).map fun value => (true, value)
    | none => some (false, value) := by
  apply getParam_pairs
  intro p _
  rw [zhHttpStrstri_eq parameter p.key_plain.2.1, Option.map_some]
  congr 1
  rw [Bool.eq_iff_iff, findNoCase_isSome, decide_eq_true_eq]

/-- Without capitals, a query that is not too long is searched for the key itself. -/
theorem urlGetParameter_eq (hlower : LowerCase pairs parameter) (hlen : (queryText pairs).length ≤ 2048) :
    urlGetParameter (queryText pairs) parameter value =
      match pairOf pairs parameter with
      | some p => (strcpy value 0 p.val).map fun value => (1, value)
      | none => some (0, value) := by
  have hcall := @getParam_pairs pairs value (fun p1 => some (decide (parameter = p1)))
    (fun p => decide (SameNoCase p.key parameter)) (by
      intro p hp
      simp only [Option.some.injEq, decide_eq_decide]
      rw [SameNoCase, hlower.1 p hp, hlower.2, eq_comm])
  rw [urlGetParameter, if_neg (by omega)]
  unfold pairOf
  by_cases h0 : (queryText pairs).length = 0
  · rw [if_pos h0, queryText_eq_nil h0]
    rfl
  · rw [if_neg h0] at hcall ⊢
    rw [hcall]
    cases pairs.find? fun p => decide (SameNoCase p.key parameter) with
    | none => rfl
    | some p => simp only [Option.map_map]; rfl

/-- A key that is the name occurs in it. -/
theorem pairIn_eq_none (h : pairIn pairs parameter = none) : pairOf pairs parameter = none := by
  unfold pairIn at h
  unfold pairOf
  rw [List.find?_eq_none] at h ⊢
  intro p hp hsame
  refine h p hp ?_
  rw [decide_eq_true_eq] at hsame ⊢
  exact ⟨[], [], by rw [List.nil_append, List.append_nil]; exact hsame⟩

theorem pairIn_mem {p : QueryPair} (h : pairIn pairs parameter = some p) : p ∈ pairs := List.mem_of_find?_eq_some h

/-- A value that has room is copied. -/
theorem copy_val (p : QueryPair) (h : p.val.length < value.length) :
    ∃ value', strcpy value 0 p.val = some value' ∧ cstr value' = some p.val := exists_strcpy p.val_plain.2.1 h

/-- The call when a key occurs in the name, and when none does. -/
theorem zhHttpGetParameter_some {p : QueryPair} (hp : pairIn pairs parameter = some p)
    (hroom : ∀ p ∈ pairs, p.val.length < value.length) : ∃ value',
    zhHttpGetParameter (queryText pairs) parameter value = some (true, value') ∧ cstr value' = some p.val := by
  obtain ⟨v, hcopy, hv⟩ := copy_val p (hroom p (pairIn_mem hp))
  refine ⟨v, ?_, hv⟩
  rw [zhHttpGetParameter_eq, hp]
  simp only [hcopy, Option.map_some]

theorem zhHttpGetParameter_none (hp : pairIn pairs parameter = none) :
    zhHttpGetParameter (queryText pairs) parameter value = some (false, value) := by
  rw [zhHttpGetParameter_eq, hp]

theorem GetsParameter.keysApart (h : GetsParameter pairs parameter value)
    (hroom : ∀ p ∈ pairs, p.val.length < value.length) : KeysApart pairs parameter := by
  constructor
  · intro p hp
    obtain ⟨v, hzh, hv⟩ := zhHttpGetParameter_some hp hroom
    cases hq : pairOf pairs parameter with
    | none => exact nomatch hzh.symm.trans (h.absent hq)
    | some q =>
      obtain ⟨v', hv', hstr⟩ := h.found q hq
      obtain ⟨-, rfl⟩ := Prod.mk.inj (Option.some.inj (hzh.symm.trans hv'))
      exact ⟨q, rfl, Option.some.inj (hstr.symm.trans hv)⟩
  · intro hlower hlong
    apply pairIn_eq_none
    cases hp : pairIn pairs parameter with
    | none => rfl
    | some p =>
      obtain ⟨v, hzh, -⟩ := zhHttpGetParameter_some hp hroom
      have hagree := h.agrees hlower
      rw [urlGetParameter, if_pos hlong, hzh] at hagree
      exact nomatch hagree

/-- The first key that is the name comes with the first that occurs in it, and neither or both are there. -/
theorem KeysApart.of_some (h : KeysApart pairs parameter) {q : QueryPair} (hq : pairOf pairs parameter = some q) :
    ∃ p, pairIn pairs parameter = some p ∧ q.val = p.val := by
  cases hp : pairIn pairs parameter with
  | none => exact nomatch (pairIn_eq_none hp).symm.trans hq
  | some p =>
    obtain ⟨q', hq', hval⟩ := h.part p hp
    obtain rfl := Option.some.inj (hq.symm.trans hq')
    exact ⟨p, rfl, hval⟩

theorem KeysApart.of_none (h : KeysApart pairs parameter) (hq : pairOf pairs parameter = none) :
    pairIn pairs parameter = none := by
  cases hp : pairIn pairs parameter with
  | none => rfl
  | some p =>
    obtain ⟨q, hsome, -⟩ := h.part p hp
    exact nomatch hq.symm.trans hsome

/-- Without capitals the two functions agree. -/
theorem KeysApart.agrees (h : KeysApart pairs parameter) (hlower : LowerCase pairs parameter) :
    urlGetParameter (queryText pairs) parameter value =
      (zhHttpGetParameter (queryText pairs) parameter value).map fun r => (r.1.toNat, r.2) := by
  by_cases hlong : 2048 < (queryText pairs).length
  · rw [urlGetParameter, if_pos hlong, zhHttpGetParameter_none (h.of_none (h.short hlower hlong))]
    rfl
  · rw [urlGetParameter_eq hlower (by omega), zhHttpGetParameter_eq]
    cases hq : pairOf pairs parameter with
    | none =>
      rw [h.of_none hq]
      rfl
    | some q =>
      obtain ⟨p, hp, hval⟩ := h.of_some hq
      rw [hp]
      simp only [hval, Option.map_map]
      rfl

theorem KeysApart.getsParameter (h : KeysApart pairs parameter)
    (hroom : ∀ p ∈ pairs, p.val.length < value.length) : GetsParameter pairs parameter value where
  found := by
    intro q hq
    obtain ⟨p, hp, hval⟩ := h.of_some hq
    rw [hval]
    exact zhHttpGetParameter_some hp hroom
  absent := fun hq => zhHttpGetParameter_none (h.of_none hq)
  agrees := h.agrees

end Pairs

/-- **`zhHttpGetParameter` gives the value of the key it is asked for** exactly when no key that is only a part of the
name comes first with another value. -/
theorem getParameter_iff (pairs : List QueryPair) (parameter value : Bytes)
    (hroom : ∀ p ∈ pairs, p.val.length < value.length) :
    GetsParameter pairs parameter value ↔ KeysApart pairs parameter :=
  ⟨fun h => h.keysApart hroom, fun h => h.getsParameter hroom⟩

/-- `q=1` and `qq=2` -/
def pairQ : QueryPair := ⟨ascii "q", ascii "1", by decide, by decide⟩

def pairQQ : QueryPair := ⟨ascii "qq", ascii "2", by decide, by decide⟩

theorem getParameter_long_first : GetsParameter [pairQQ, pairQ] (ascii "QQ") (List.replicate 8 0) := by
  refine (getParameter_iff [pairQQ, pairQ] (ascii "QQ") (List.replicate 8 0) (by decide +kernel)).mpr ⟨?_, ?_⟩
  · intro p hp
    obtain rfl : pairQQ = p := Option.some.inj hp
    exact ⟨pairQQ, rfl, rfl⟩
  · rintro ⟨-, hlower⟩
    exact absurd hlower (by decide +kernel)

/-- The key `q` occurs in the name `qq`. -/
theorem getParameter_part_first : ¬ GetsParameter [pairQ, pairQQ] (ascii "qq") (List.replicate 8 0) := by
  intro h
  obtain ⟨value', hcall, hstr⟩ := h.found pairQQ rfl
  have hcall' : zhHttpGetParameter (queryText [pairQ, pairQQ]) (ascii "qq") (List.replicate 8 0) =
      some (true, ascii "1" ++ List.replicate 7 0) := by
    rw [zhHttpGetParameter_eq, show pairIn [pairQ, pairQQ] (ascii "qq") = some pairQ from rfl]
    rfl
  rw [hcall'] at hcall
  obtain ⟨-, rfl⟩ := Prod.mk.inj (Option.some.inj hcall)
  exact absurd hstr (by decide +kernel)

/-! ## Queries of any shape -/

/-- The key and the value of a segment: the texts in front of its first `=` and behind it. -/
def segKey (seg : Bytes) : Bytes := seg.takeWhile (· ≠ 61)

def segValue (seg : Bytes) : Bytes := (seg.dropWhile (· ≠ 61)).tail

/-- The value, if it is not empty, of the first segment that has a key and whose key is the name. -/
def lookup (parameter : Bytes) (segs : List Bytes) : Option Bytes :=
  (segs.find? fun seg => segKey seg ≠ [] ∧ segKey seg = parameter).bind fun seg =>
    if segValue seg = [] then none else some (segValue seg)

/-- The call ends, and its result is the text that was looked up. -/
def Gives (result : Option (ℕ × Bytes)) (value : Bytes) (found : Option Bytes) : Prop :=
  match found with
  | some v => ∃ value', result = some (1, value') ∧ cstr value' = some v
  | none => result = some (0, value)

/-- What is promised of a query: the call ends without touching what has no value, and gives the looked-up value. -/
def ParamExact (str parameter value : Bytes) : Prop :=
  Gives (urlGetParameter str parameter value) value (lookup parameter (str.splitOn 38))

/-- The loop does not go on behind this segment: it has no character but `=`, or its first run is the name. -/
def StopsAt (parameter seg : Bytes) : Prop := (∀ c ∈ seg, c = 61) ∨ firstRun seg = some parameter

/-- The segment at which the loop stops is right for the name: it is not all `=`; if it begins with its key, its value
has no `=`; and if it begins with `=`, the segments behind it give what its second run is. -/
def RightStop (parameter seg : Bytes) (post : List Bytes) : Prop :=
  (∃ c ∈ seg, c ≠ 61) ∧ (seg.head? ≠ some 61 → 61 ∉ segValue seg) ∧
    (seg.head? = some 61 → lookup parameter post = secondRun seg)

/-- What the query has to be. -/
def WellCut (str parameter : Bytes) : Prop :=
  (str = [] ∨ ∃ c ∈ str, c ≠ 38) ∧
    ∀ pre seg post, tokens 38 str = pre ++ seg :: post → (∀ s ∈ pre, ¬ StopsAt parameter s) →
      StopsAt parameter seg → RightStop parameter seg post

section Segments

variable {parameter value seg : Bytes} {post : List Bytes}

instance (parameter seg : Bytes) : Decidable (StopsAt parameter seg) := inferInstanceAs (Decidable (_ ∨ _))

/-- A segment without `=`, or cut at its first. -/
theorem seg_cases (seg : Bytes) : (61 ∉ seg ∧ segKey seg = seg ∧ segValue seg = []) ∨
    (61 ∉ segKey seg ∧ seg = segKey seg ++ 61 :: segValue seg) := by
  by_cases h : 61 ∈ seg
  · right
    obtain ⟨k, v, rfl, hk⟩ := List.eq_append_cons_of_mem h
    have hkey : segKey (k ++ 61 :: v) = k := takeWhile_ne hk v
    have hval : segValue (k ++ 61 :: v) = v := by
      rw [segValue, List.dropWhile_append_of_pos (fun c hc => decide_eq_true (ne_of_mem_of_not_mem hc hk)),
        List.dropWhile_cons_of_neg (by simp)]
      rfl
    rw [hkey, hval]
    exact ⟨hk, rfl⟩
  · refine Or.inl ⟨h, takeWhile_self h, ?_⟩
    rw [segValue, List.dropWhile_eq_nil_iff.mpr fun c hc => decide_eq_true (ne_of_mem_of_not_mem hc h)]
    rfl

/-- The runs of a segment with a key. -/
theorem runs_of_key (h : segKey seg ≠ []) :
    firstRun seg = some (segKey seg) ∧ secondRun seg = firstRun (segValue seg) := by
  unfold firstRun secondRun
  rcases seg_cases seg with ⟨hno, hkey, hval⟩ | ⟨hno, hsplit⟩
  · rw [hkey] at h ⊢
    rw [hval, tokens_of_notMem hno h]
    exact ⟨rfl, rfl⟩
  · have htok : tokens 61 seg = segKey seg :: tokens 61 (segValue seg) := by
      conv_lhs => rw [hsplit]
      rw [tokens_append_cons, tokens_of_notMem hno h]
      rfl
    rw [htok]
    exact ⟨rfl, rfl⟩

theorem segKey_eq_nil : segKey seg = [] ↔ seg = [] ∨ seg.head? = some 61 := by
  cases seg with
  | nil => simp [segKey]
  | cons c seg =>
    by_cases hc : c = 61
    · simp [segKey, hc]
    · simp [segKey, hc]

/-- A first run that is the whole value. -/
theorem firstRun_self (v : Bytes) : firstRun v = (if v = [] then none else some v) ↔ 61 ∉ v := by
  by_cases hv : v = []
  · subst hv
    simp [firstRun]
  · rw [if_neg hv]
    constructor
    · intro h
      exact (mem_tokens (List.mem_of_getElem? h)).2.1
    · intro h
      rw [firstRun, tokens_of_notMem h hv]
      rfl

/-! ## Where the loop stops -/

/-- A segment that has the name for its key stops the loop. -/
theorem stopsAt_of_key (hkey : segKey seg ≠ []) (h : segKey seg = parameter) : StopsAt parameter seg :=
  Or.inr (h ▸ (runs_of_key hkey).1)

theorem lookup_cons_of_ne (h : ¬ (segKey seg ≠ [] ∧ segKey seg = parameter)) :
    lookup parameter (seg :: post) = lookup parameter post := by
  unfold lookup
  rw [List.find?_cons_of_neg (by simpa using h)]

theorem lookup_cons_self (hkey : segKey seg ≠ []) (h : segKey seg = parameter) :
    lookup parameter (seg :: post) = if segValue seg = [] then none else some (segValue seg) := by
  unfold lookup
  rw [List.find?_cons_of_pos (by simpa using ⟨hkey, h⟩), Option.bind_some]

/-- Empty segments do not matter. -/
theorem lookup_tokens (parameter str : Bytes) : lookup parameter (str.splitOn 38) = lookup parameter (tokens 38 str) := by
  unfold lookup tokens
  rw [List.find?_filter]
  congr 2
  ext1 seg
  cases seg with
  | nil => simp [segKey]
  | cons c seg => simp

/-- In front of the stop nothing happens, and nothing is found. -/
theorem segmentLoop_stop {pre : List Bytes} (hpre : ∀ s ∈ pre, ¬ StopsAt parameter s) (segs : List Bytes) :
    segmentLoop (fun p1 => some (decide (parameter = p1))) value (pre ++ segs) =
        segmentLoop (fun p1 => some (decide (parameter = p1))) value segs ∧
      lookup parameter (pre ++ segs) = lookup parameter segs := by
  induction pre with
  | nil => exact ⟨rfl, rfl⟩
  | cons s pre ih =>
    rw [List.forall_mem_cons] at hpre
    obtain ⟨hloop, hlook⟩ := ih hpre.2
    have hno := hpre.1
    rw [StopsAt, not_or] at hno
    constructor
    · cases hrun : firstRun s with
      | none =>
        rw [firstRun, List.getElem?_eq_none_iff, Nat.le_zero, List.length_eq_zero_iff, tokens_eq_nil] at hrun
        exact absurd hrun hno.1
      | some p1 =>
        have hne : parameter ≠ p1 := by
          rintro rfl
          exact hno.2 hrun
        rw [List.cons_append, segmentLoop, hrun]
        simp only [Option.bind_some, decide_eq_false hne, Bool.false_eq_true, if_false]
        exact hloop
    · rw [List.cons_append, lookup_cons_of_ne, hlook]
      exact fun h => hpre.1 (stopsAt_of_key h.1 h.2)

/-- What a loop that found its key gives for the second run. -/
def runResult (value : Bytes) (run : Option Bytes) : Option (ℕ × Bytes) :=
  match run with
  | some p2 => (strcpy value 0 p2).map fun value => (1, value)
  | none => some (0, value)

theorem not_gives_none (found : Option Bytes) : ¬ Gives none value found := by
  unfold Gives
  split
  · rintro ⟨value', h, -⟩
    cases h
  · intro h
    cases h

theorem gives_iff {run found : Option Bytes} (hrun : ∀ w ∈ run, 0 ∉ w ∧ w.length < value.length) :
    Gives (runResult value run) value found ↔ found = run := by
  cases run with
  | none =>
    cases found with
    | none => exact iff_of_true rfl rfl
    | some v =>
      refine iff_of_false ?_ (by simp)
      rintro ⟨value', h, -⟩
      cases h
  | some w =>
    obtain ⟨h0, hlen⟩ := hrun w rfl
    obtain ⟨value', hcopy, hstr⟩ := exists_strcpy h0 hlen
    have hresult : runResult value (some w) = some (1, value') := by
      simp only [runResult, hcopy, Option.map_some]
    rw [hresult]
    cases found with
    | none =>
      refine iff_of_false ?_ (by simp)
      intro h
      cases h
    | some v =>
      constructor
      · rintro ⟨value'', h, hv⟩
        obtain ⟨-, rfl⟩ := Prod.mk.inj (Option.some.inj h)
        exact hv.symm.trans hstr
      · intro h
        exact ⟨value', rfl, by rw [hstr, h]⟩

/-- **The stop**: what the loop gives there is what is looked up exactly when the segment is right. -/
theorem stop_iff (hseg : ∀ w ∈ secondRun seg, 0 ∉ w ∧ w.length < value.length) (hstop : StopsAt parameter seg) :
    Gives ((segmentLoop (fun p1 => some (decide (parameter = p1))) value (seg :: post)).map fun r => (r.1.toNat, r.2))
      value (lookup parameter (seg :: post)) ↔ RightStop parameter seg post := by
  unfold RightStop
  by_cases hall : ∀ c ∈ seg, c = 61
  · have hrun : firstRun seg = none := by
      rw [firstRun, tokens_eq_nil.mpr hall]
      rfl
    refine iff_of_false ?_ (fun h => ?_)
    · rw [segmentLoop, hrun]
      exact not_gives_none _
    · obtain ⟨c, hc, hne⟩ := h.1
      exact hne (hall c hc)
  · have hrun : firstRun seg = some parameter := hstop.resolve_left hall
    have hloop : (segmentLoop (fun p1 => some (decide (parameter = p1))) value (seg :: post)).map
        (fun r => (r.1.toNat, r.2)) = runResult value (secondRun seg) := by
      rw [segmentLoop, hrun]
      simp only [Option.bind_some, decide_true, if_true]
      cases secondRun seg with
      | none => rfl
      | some p2 =>
        simp only [runResult, Option.map_map]
        rfl
    have hex : ∃ c ∈ seg, c ≠ 61 := by
      simpa using hall
    rw [hloop, gives_iff hseg, and_iff_right hex]
    by_cases hhead : seg.head? = some 61
    · have hkey : segKey seg = [] := segKey_eq_nil.mpr (Or.inr hhead)
      rw [lookup_cons_of_ne (fun h => h.1 hkey)]
      simp only [hhead, ne_eq, not_true, false_implies, true_and, true_implies]
    · have hkey : segKey seg ≠ [] := by
        rw [Ne, segKey_eq_nil, not_or]
        refine ⟨?_, hhead⟩
        rintro rfl
        obtain ⟨c, hc, -⟩ := hex
        exact absurd hc List.not_mem_nil
      obtain ⟨hfirst, hsecond⟩ := runs_of_key hkey
      have hname : segKey seg = parameter := Option.some.inj (hfirst.symm.trans hrun)
      rw [lookup_cons_self hkey hname, hsecond, eq_comm, firstRun_self]
      simp only [hhead, ne_eq, not_false_eq_true, true_implies, false_implies, and_true]

/-- A first stop, or none. -/
theorem exists_stop (parameter : Bytes) (segs : List Bytes) : (∀ s ∈ segs, ¬ StopsAt parameter s) ∨
    ∃ pre seg post, segs = pre ++ seg :: post ∧ (∀ s ∈ pre, ¬ StopsAt parameter s) ∧ StopsAt parameter seg := by
  cases hfind : segs.find? fun s => StopsAt parameter s with
  | none =>
    rw [List.find?_eq_none] at hfind
    exact Or.inl (by simpa using hfind)
  | some seg =>
    obtain ⟨hstop, pre, post, hsplit, hpre⟩ := List.find?_eq_some_iff_append.mp hfind
    exact Or.inr ⟨pre, seg, post, hsplit, by simpa using hpre, by simpa using hstop⟩

/-- The runs of a segment are shorter than the query and have no NUL. -/
theorem secondRun_fits {str : Bytes} (h0 : 0 ∉ str) (hroom : str.length < value.length) {pre : List Bytes}
    (hsplit : tokens 38 str = pre ++ seg :: post) : ∀ w ∈ secondRun seg, 0 ∉ w ∧ w.length < value.length := by
  have hseg : seg ∈ tokens 38 str := by
    rw [hsplit]
    exact List.mem_append_right _ (List.mem_cons_self ..)
  intro w hw
  have hin : w <:+: str := (mem_tokens (List.mem_of_getElem? hw)).2.2.trans (mem_tokens hseg).2.2
  exact ⟨fun h => h0 (hin.subset h), hin.length_le.trans_lt hroom⟩

end Segments

/-- **`urlGetParameter` gives the value of the first segment with the key** exactly when the query is cut well for the
name. -/
theorem urlGetParameter_iff (str parameter value : Bytes) (h0 : 0 ∉ str) (hlen : str.length ≤ 2048)
    (hroom : str.length < value.length) : ParamExact str parameter value ↔ WellCut str parameter := by
  unfold ParamExact WellCut
  rw [lookup_tokens, urlGetParameter, if_neg (by omega)]
  by_cases hnil : str = []
  · subst hnil
    refine iff_of_true rfl ⟨Or.inl rfl, ?_⟩
    intro pre seg post hsplit
    exact absurd hsplit (by simp)
  · rw [if_neg (by simpa using hnil), getParam_eq]
    by_cases htok : tokens 38 str = []
    · have hall := tokens_eq_nil.mp htok
      rw [if_pos htok, htok]
      refine iff_of_false (not_gives_none _) ?_
      rintro ⟨h | ⟨c, hc, hne⟩, -⟩
      · exact hnil h
      · exact hne (hall c hc)
    · have hex : ∃ c ∈ str, c ≠ 38 := by
        by_contra hno
        push Not at hno
        exact htok (tokens_eq_nil.mpr hno)
      rw [if_neg htok, and_iff_right (Or.inr hex)]
      have hat : ∀ pre seg post, tokens 38 str = pre ++ seg :: post → (∀ s ∈ pre, ¬ StopsAt parameter s) →
          StopsAt parameter seg → (Gives ((segmentLoop (fun p1 => some (decide (parameter = p1))) value
            (tokens 38 str)).map fun r => (r.1.toNat, r.2)) value (lookup parameter (tokens 38 str)) ↔
              RightStop parameter seg post) := by
        intro pre seg post hsplit hpre hstop
        have hfits := secondRun_fits h0 hroom hsplit
        obtain ⟨hloop, hlook⟩ := @segmentLoop_stop parameter value pre hpre (seg :: post)
        rw [hsplit, hloop, hlook]
        exact stop_iff hfits hstop
      constructor
      · intro h pre seg post hsplit hpre hstop
        exact (hat pre seg post hsplit hpre hstop).mp h
      · intro h
        rcases exists_stop parameter (tokens 38 str) with hnone | ⟨pre, seg, post, hsplit, hpre, hstop⟩
        · obtain ⟨hloop, hlook⟩ := @segmentLoop_stop parameter value (tokens 38 str) hnone []
          rw [List.append_nil] at hloop hlook
          rw [hloop, hlook]
          rfl
        · exact (hat pre seg post hsplit hpre hstop).mpr (h pre seg post hsplit hpre hstop)

theorem urlGetParameter_one : ParamExact (ascii "b=2") (ascii "b") (List.replicate 8 0) := by
  refine (urlGetParameter_iff (ascii "b=2") (ascii "b") (List.replicate 8 0) (by decide +kernel) (by decide +kernel)
    (by decide +kernel)).mpr ⟨Or.inr ⟨98, by decide +kernel, by decide⟩, ?_⟩
  intro pre seg post hsplit _ _
  have htok : tokens 38 (ascii "b=2") = [ascii "b=2"] := by decide +kernel
  rw [htok] at hsplit
  cases pre with
  | nil =>
    obtain ⟨rfl, rfl⟩ := List.cons.inj hsplit
    exact ⟨⟨98, by decide +kernel, by decide⟩, fun _ => by decide +kernel, fun h => absurd h (by decide +kernel)⟩
  | cons s pre => simp at hsplit

/-- A query of separators only, and a segment of `=` only. -/
theorem urlGetParameter_loose : ¬ ParamExact (ascii "&") (ascii "a") (List.replicate 8 0) ∧
    ¬ ParamExact (ascii "=") (ascii "a") (List.replicate 8 0) := by
  have hnone : ∀ str ∈ [ascii "&", ascii "="],
      urlGetParameter str (ascii "a") (List.replicate 8 0) = none := by
    intro str hstr
    rw [urlGetParameter, getParam_eq]
    revert str
    decide +kernel
  constructor
  · rw [ParamExact, hnone (ascii "&") (by decide)]
    exact not_gives_none _
  · rw [ParamExact, hnone (ascii "=") (by decide)]
    exact not_gives_none _

end Esp32Base
