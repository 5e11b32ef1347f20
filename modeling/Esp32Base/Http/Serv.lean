import Esp32Base.Lib.CText

/-!
# Http.Serv — finding the request target (http_serv.c)

`httpServReslovURL` collects what TCP delivers in `cacheBuf` until there is a method token and a blank
line, and copies the target to the caller's buffer.

* `reslovURL_target_iff`: when the string left in `dstURL` is the target of the request.
* `reslovURL_split_iff`: when every way of receiving the rest of a request gives its target.
-/

namespace Esp32Base

open Lib Lib.Buf Lib.CText

structure TzhHttpServ where
  cacheBuf : Bytes
  cacheLen : ℕ
  deriving DecidableEq

/-- The size of `cacheBuf`. -/
def servCacheSize : ℕ := 3000

/-- After the `memset` of a new connection. -/
def TzhHttpServ.zeroed : TzhHttpServ := ⟨List.replicate servCacheSize 0, 0⟩

/-! ## The functions -/

/-- `G E T` in either case and a space. -/
def beginsGet : Bytes → Bool
  | a :: b :: c :: d :: _ => (a == 71 || a == 103) && (b == 69 || b == 101) && (c == 84 || c == 116) && d == 32
  | _ => false

/-- `P O S T` and a space; for the `T` the source looks at the wrong byte for the lower case. -/
def beginsPost : Bytes → Bool
  | a :: b :: c :: d :: e :: _ =>
    (a == 80 || a == 112) && (b == 79 || b == 111) && (c == 83 || c == 115) && (d == 84 || c == 116) &&
      e == 32
  | _ => false

/-- What lies from the returned pointer on. -/
def getbegnstr (buf : Bytes) : Option (Option Bytes) := scan (fun p => beginsGet p || beginsPost p) buf

def rnrnstr (buf : Bytes) : Option (Option Bytes) := scan [13, 10, 13, 10].isPrefixOf buf

/-- The loop of `zhMatchString` with `p` characters of the pattern matched: what is copied. Its index is an
`unsigned short`, so the text is one of fewer than 65536 bytes. -/
def matchLoop (pattern : Bytes) (end_ : UInt8) : ℕ → Bytes → Bytes
  | _, [] => []
  | p, c :: src =>
    if p = pattern.length then
      if c = 13 ∨ c = 10 ∨ end_ ≠ 0 ∧ c = end_ then matchLoop pattern end_ (p + 1) src
      else c :: matchLoop pattern end_ p src
    else if p < pattern.length then
      if pattern[p]? = some c then matchLoop pattern end_ (p + 1) src else matchLoop pattern end_ 0 src
    else matchLoop pattern end_ p src

/-- `dstBuf` after the call. -/
def zhMatchString (src pattern : Bytes) (end_ : UInt8) (dstBuf : Bytes) : Option Bytes :=
  (cstr src).bind fun text => strcpy dstBuf 0 (matchLoop pattern end_ 0 text)

/-- The return value, the state and `dstURL`. -/
def httpServReslovURL (serv : TzhHttpServ) (recvbuf dstURL : Bytes) : Option (ℕ × TzhHttpServ × Bytes) :=
  if serv.cacheLen + recvbuf.length < servCacheSize then
    (store serv.cacheBuf serv.cacheLen recvbuf).bind fun cacheBuf =>
      (getbegnstr cacheBuf).bind fun found =>
        match found with
        | none => some (2, ⟨cacheBuf, 0⟩, dstURL)
        | some pheadstr =>
          (rnrnstr cacheBuf).bind fun pstr =>
            if pstr.isNone then some (3, ⟨cacheBuf, serv.cacheLen + recvbuf.length⟩, dstURL)
            else
              (if (ascii "GET").isPrefixOf pheadstr then zhMatchString pheadstr (ascii "GET ") 32 dstURL
                else if (ascii "POST").isPrefixOf pheadstr then
                  zhMatchString pheadstr (ascii "POST ") 32 dstURL
                else some dstURL).map fun dstURL => (0, ⟨cacheBuf, 0⟩, dstURL)
  else some (1, ⟨serv.cacheBuf, 0⟩, dstURL)

/-! ## Targets -/

/-- A character that ends a target. -/
def EndsTarget (c : UInt8) : Prop := c = 32 ∨ c = 13 ∨ c = 10

instance (c : UInt8) : Decidable (EndsTarget c) := inferInstanceAs (Decidable (_ ∨ _))

/-- The length of the method token at the front. -/
def tokenLen (pheadstr : Bytes) : ℕ := if beginsGet pheadstr then 4 else 5

/-- The text between the method token and the next space, CR or LF. -/
def IsTarget (pheadstr url : Bytes) : Prop :=
  ∃ sep rest, pheadstr.drop (tokenLen pheadstr) = url ++ sep :: rest ∧ EndsTarget sep ∧
    ∀ c ∈ url, ¬ EndsTarget c ∧ c ≠ 0

/-- The string in the buffer is that text. -/
def HoldsTarget (pheadstr dstURL : Bytes) : Prop :=
  ∃ url, cstr dstURL = some url ∧ IsTarget pheadstr url

/-- The token is one that the second classification, by `memcmp`, knows. -/
def UpperToken (pheadstr : Bytes) : Prop := ascii "GET" <+: pheadstr ∨ ascii "POST" <+: pheadstr

/-- Once the target has ended nothing more is copied. -/
theorem matchLoop_done {pattern : Bytes} (end_ : UInt8) {p : ℕ} (hp : pattern.length < p) (src : Bytes) :
    matchLoop pattern end_ p src = [] := by
  induction src with
  | nil => rfl
  | cons c src ih =>
    rw [matchLoop, if_neg (by omega), if_neg (by omega)]
    exact ih

/-- The characters that end a copy. -/
def EndsCopy (end_ c : UInt8) : Prop := c = 13 ∨ c = 10 ∨ end_ ≠ 0 ∧ c = end_

instance (end_ c : UInt8) : Decidable (EndsCopy end_ c) := inferInstanceAs (Decidable (_ ∨ _))

/-- Behind the pattern the copy runs to the next of these characters, or to the end of the text. -/
theorem matchLoop_copies (pattern : Bytes) (end_ : UInt8) {v rest : Bytes} (hv : ∀ c ∈ v, ¬ EndsCopy end_ c)
    (hr : ∀ c, rest.head? = some c → EndsCopy end_ c) :
    matchLoop pattern end_ pattern.length (v ++ rest) = v := by
  induction v with
  | nil =>
    cases rest with
    | nil => rfl
    | cons c rest =>
      have hc : c = 13 ∨ c = 10 ∨ end_ ≠ 0 ∧ c = end_ := hr c rfl
      rw [List.nil_append, matchLoop, if_pos rfl, if_pos hc]
      exact matchLoop_done end_ (Nat.lt_succ_self _) rest
  | cons c v ih =>
    have hc : ¬ (c = 13 ∨ c = 10 ∨ end_ ≠ 0 ∧ c = end_) := hv c List.mem_cons_self
    rw [List.cons_append, matchLoop, if_pos rfl, if_neg hc, ih fun c' h' => hv c' (List.mem_cons_of_mem _ h')]

theorem endsCopy_space (c : UInt8) : EndsCopy 32 c ↔ EndsTarget c := by
  unfold EndsCopy EndsTarget
  constructor
  · rintro (h | h | ⟨-, h⟩)
    · exact Or.inr (Or.inl h)
    · exact Or.inr (Or.inr h)
    · exact Or.inl h
  · rintro (h | h | h)
    · exact Or.inr (Or.inr ⟨by decide, h⟩)
    · exact Or.inl h
    · exact Or.inr (Or.inl h)

theorem matchLoop_target (pattern url : Bytes) {rest : Bytes} (hu : ∀ c ∈ url, ¬ EndsTarget c)
    (hr : ∀ c, rest.head? = some c → EndsTarget c) : matchLoop pattern 32 pattern.length (url ++ rest) = url :=
  matchLoop_copies pattern 32 (fun c hc h => hu c hc ((endsCopy_space c).mp h))
    fun c hc => (endsCopy_space c).mpr (hr c hc)

/-- The pattern matches itself from any of its own positions. -/
theorem matchLoop_self (pattern : Bytes) (end_ : UInt8) (s : Bytes) : ∀ (n k : ℕ), k + n = pattern.length →
    matchLoop pattern end_ k (pattern.drop k ++ s) = matchLoop pattern end_ pattern.length s
  | 0, k, h => by
    obtain rfl : k = pattern.length := by omega
    rw [List.drop_length, List.nil_append]
  | n + 1, k, h => by
    have hk : k < pattern.length := by omega
    rw [List.drop_eq_getElem_cons hk, List.cons_append, matchLoop, if_neg (by omega), if_pos hk,
      if_pos (List.getElem?_eq_getElem hk)]
    exact matchLoop_self pattern end_ s n (k + 1) (by omega)

theorem matchLoop_noNul (pattern : Bytes) (end_ : UInt8) (p : ℕ) {src : Bytes} (h : 0 ∉ src) :
    0 ∉ matchLoop pattern end_ p src := by
  induction src generalizing p with
  | nil => simp [matchLoop]
  | cons c src ih =>
    rw [List.mem_cons, not_or] at h
    rw [matchLoop]
    split_ifs
    · exact ih _ h.2
    · rw [List.mem_cons, not_or]
      exact ⟨h.1, ih _ h.2⟩
    · exact ih _ h.2
    · exact ih _ h.2
    · exact ih _ h.2

/-- The target is unique, and it is what the copy behind the token yields. -/
theorem IsTarget.eq_match {hd text z url : Bytes} (pattern : Bytes) (h0 : 0 ∉ text)
    (hd' : hd.drop (tokenLen hd) = text ++ 0 :: z) (h : IsTarget hd url) :
    matchLoop pattern 32 pattern.length text = url := by
  obtain ⟨sep, rest, hsplit, hsep, hurl⟩ := h
  rw [hd'] at hsplit
  obtain ⟨a, rfl, ha⟩ : ∃ a, text = url ++ a ∧ a.head? = some sep := by
    rcases List.append_eq_append_iff.mp hsplit with ⟨c, hc, hz⟩ | ⟨a, ha, hz⟩
    · cases c with
      | nil =>
        rw [List.nil_append] at hz
        obtain ⟨rfl, -⟩ := List.cons.inj hz
        exact absurd hsep (by decide)
      | cons b c =>
        obtain ⟨rfl, -⟩ := List.cons.inj hz
        exact absurd rfl (hurl 0 (by rw [hc]; simp)).2
    · refine ⟨a, ha, ?_⟩
      cases a with
      | nil =>
        rw [List.nil_append] at hz
        obtain ⟨rfl, -⟩ := List.cons.inj hz
        exact absurd hsep (by decide)
      | cons b a =>
        obtain ⟨rfl, -⟩ := List.cons.inj hz
        rfl
  refine matchLoop_target pattern url (fun c hc => (hurl c hc).1) fun c hc => ?_
  rw [ha] at hc
  obtain rfl := Option.some.inj hc
  exact hsep

/-- A token the second classification knows: the copy leaves the target whenever there is one. -/
theorem matchString_holds {hd rest pattern dst dst' : Bytes} (hpat : hd = pattern ++ rest) (hnul : 0 ∉ pattern)
    (htok : tokenLen hd = pattern.length) (h : zhMatchString hd pattern 32 dst = some dst') :
    HoldsTarget hd dst' ↔ ∃ url, IsTarget hd url := by
  obtain ⟨text, htext, hcpy⟩ := Option.bind_eq_some_iff.mp h
  obtain ⟨z, hz, h0⟩ := cstr_eq_some.mp htext
  -- the text starts with the pattern, too
  obtain ⟨t, rfl⟩ : ∃ t, text = pattern ++ t := by
    obtain ⟨t, ht⟩ := prefix_before_nul hnul (b := text) (z := z) (by rw [← hz, hpat]; exact ⟨rest, rfl⟩)
    exact ⟨t, ht.symm⟩
  have ht0 : 0 ∉ t := fun hm => h0 (List.mem_append_right _ hm)
  have hself := matchLoop_self pattern 32 t pattern.length 0 (by omega)
  rw [List.drop_zero] at hself
  rw [hself] at hcpy
  have hstr := cstr_strcpy (matchLoop_noNul pattern 32 _ ht0) hcpy
  have hdrop : hd.drop (tokenLen hd) = t ++ 0 :: z := by
    rw [htok, hz, List.append_assoc, List.drop_left]
  constructor
  · rintro ⟨url, -, h⟩
    exact ⟨url, h⟩
  · rintro ⟨url, h⟩
    rw [h.eq_match pattern ht0 hdrop] at hstr
    exact ⟨url, hstr, h⟩

theorem token_get {hd : Bytes} (hb : (beginsGet hd || beginsPost hd) = true) (h : ascii "GET" <+: hd) :
    ∃ rest, hd = ascii "GET " ++ rest ∧ tokenLen hd = (ascii "GET ").length := by
  obtain ⟨t, rfl⟩ := h
  have hpost : beginsPost (ascii "GET" ++ t) = false := by
    match t with
    | [] => rfl
    | [_] => rfl
    | _ :: _ :: _ => rfl
  rw [hpost, Bool.or_false] at hb
  match t with
  | [] => cases hb
  | d :: t =>
    have hd : (d == 32) = true := hb
    obtain rfl := eq_of_beq hd
    exact ⟨t, rfl, rfl⟩

theorem token_post {hd : Bytes} (hb : (beginsGet hd || beginsPost hd) = true) (h : ascii "POST" <+: hd) :
    ∃ rest, hd = ascii "POST " ++ rest ∧ tokenLen hd = (ascii "POST ").length := by
  obtain ⟨t, rfl⟩ := h
  have hget : beginsGet (ascii "POST" ++ t) = false := rfl
  rw [hget, Bool.false_or] at hb
  match t with
  | [] => cases hb
  | d :: t =>
    have hd : (d == 32) = true := hb
    obtain rfl := eq_of_beq hd
    exact ⟨t, rfl, rfl⟩

/-- **The target of the request just completed** is what the buffer holds after a return of 0, exactly
when the token found is one the `memcmp` branches know and the target is terminated, or the buffer held
that target before. -/
theorem reslovURL_target_iff {serv serv' : TzhHttpServ} {recvbuf dstURL dstURL' : Bytes}
    (h : httpServReslovURL serv recvbuf dstURL = some (0, serv', dstURL')) :
    ∃ cacheBuf pheadstr, store serv.cacheBuf serv.cacheLen recvbuf = some cacheBuf ∧
      getbegnstr cacheBuf = some (some pheadstr) ∧
      (HoldsTarget pheadstr dstURL' ↔
        UpperToken pheadstr ∧ (∃ url, IsTarget pheadstr url) ∨ HoldsTarget pheadstr dstURL) := by
  unfold httpServReslovURL at h
  split_ifs at h with hlen
  · obtain ⟨cacheBuf, hst, h⟩ := Option.bind_eq_some_iff.mp h
    obtain ⟨found, hfound, h⟩ := Option.bind_eq_some_iff.mp h
    cases found with
    | none => simp at h
    | some hd =>
      refine ⟨cacheBuf, hd, hst, hfound, ?_⟩
      obtain ⟨pstr, -, h⟩ := Option.bind_eq_some_iff.mp h
      have hb := (scan_eq_some hfound).1
      have hold : HoldsTarget hd dstURL → ∃ url, IsTarget hd url := fun ⟨url, _, hurl⟩ => ⟨url, hurl⟩
      split_ifs at h with hp hget hpost
      · simp at h
      · obtain ⟨d, hm, hd'⟩ := Option.map_eq_some_iff.mp h
        simp only [Prod.mk.injEq] at hd'
        obtain ⟨-, -, rfl⟩ := hd'
        have hpre := List.isPrefixOf_iff_prefix.mp hget
        obtain ⟨rest, hrest, htok⟩ := token_get hb hpre
        rw [matchString_holds hrest (by decide) htok hm]
        exact ⟨fun hu => Or.inl ⟨Or.inl hpre, hu⟩, fun hu => hu.elim (fun hu => hu.2) hold⟩
      · obtain ⟨d, hm, hd'⟩ := Option.map_eq_some_iff.mp h
        simp only [Prod.mk.injEq] at hd'
        obtain ⟨-, -, rfl⟩ := hd'
        have hpre := List.isPrefixOf_iff_prefix.mp hpost
        obtain ⟨rest, hrest, htok⟩ := token_post hb hpre
        rw [matchString_holds hrest (by decide) htok hm]
        exact ⟨fun hu => Or.inl ⟨Or.inr hpre, hu⟩, fun hu => hu.elim (fun hu => hu.2) hold⟩
      · simp only [Option.map_some, Option.some.injEq, Prod.mk.injEq] at h
        obtain ⟨-, -, rfl⟩ := h
        refine ⟨Or.inr, fun hu => hu.elim (fun hu => ?_) id⟩
        rcases hu.1 with hu | hu
        · exact absurd (List.isPrefixOf_iff_prefix.mpr hu) hget
        · exact absurd (List.isPrefixOf_iff_prefix.mpr hu) hpost
  · simp at h

theorem reslovURL_target_get :
    ∃ cacheBuf pheadstr,
      store TzhHttpServ.zeroed.cacheBuf 0 (ascii "GET /a HTTP/1.1\r\n\r\n") = some cacheBuf ∧
      getbegnstr cacheBuf = some (some pheadstr) ∧
      (HoldsTarget pheadstr (ascii "/a" ++ List.replicate 1122 0) ↔
        UpperToken pheadstr ∧ (∃ url, IsTarget pheadstr url) ∨
          HoldsTarget pheadstr (List.replicate 1124 0)) := by
  have hrun : httpServReslovURL TzhHttpServ.zeroed (ascii "GET /a HTTP/1.1\r\n\r\n") (List.replicate 1124 0) =
      some (0, ⟨ascii "GET /a HTTP/1.1\r\n\r\n" ++ List.replicate 2981 0, 0⟩,
        ascii "/a" ++ List.replicate 1122 0) := by decide +kernel
  exact reslovURL_target_iff hrun

/-- A request with a lower-case method behind one for `/command?restart`: the old target stands. -/
theorem reslovURL_replays :
    ¬ ∀ (serv serv' : TzhHttpServ) (recvbuf dstURL dstURL' : Bytes),
      httpServReslovURL serv recvbuf dstURL = some (0, serv', dstURL') →
      ∃ cacheBuf pheadstr, store serv.cacheBuf serv.cacheLen recvbuf = some cacheBuf ∧
        getbegnstr cacheBuf = some (some pheadstr) ∧ HoldsTarget pheadstr dstURL' := by
  intro h
  have hlow : getbegnstr (ascii "get /x HTTP/1.1\r\n\r\n" ++ List.replicate 2981 0) =
      some (some (ascii "get /x HTTP/1.1\r\n\r\n" ++ List.replicate 2981 0)) := by decide +kernel
  obtain ⟨cacheBuf, hd, hst, hfound, url, hstr, sep, rest, hsplit, hsep, -⟩ :=
    h TzhHttpServ.zeroed ⟨ascii "get /x HTTP/1.1\r\n\r\n" ++ List.replicate 2981 0, 0⟩
      (ascii "get /x HTTP/1.1\r\n\r\n") (ascii "/command?restart" ++ List.replicate 1108 0)
      (ascii "/command?restart" ++ List.replicate 1108 0) (by decide +kernel)
  have hst' : store TzhHttpServ.zeroed.cacheBuf TzhHttpServ.zeroed.cacheLen
      (ascii "get /x HTTP/1.1\r\n\r\n") =
        some (ascii "get /x HTTP/1.1\r\n\r\n" ++ List.replicate 2981 0) := by decide +kernel
  obtain rfl := Option.some.inj (hst'.symm.trans hst)
  obtain rfl := Option.some.inj (Option.some.inj (hlow.symm.trans hfound))
  have hold : cstr (ascii "/command?restart" ++ List.replicate 1108 0) = some (ascii "/command?restart") :=
    by decide +kernel
  obtain rfl := Option.some.inj (hold.symm.trans hstr)
  -- the text behind the token does not even start like the old target
  have hne : ((ascii "get /x HTTP/1.1\r\n\r\n" ++ List.replicate 2981 0).drop
      (tokenLen (ascii "get /x HTTP/1.1\r\n\r\n" ++ List.replicate 2981 0))).take 2 ≠ ascii "/c" := by
    decide +kernel
  refine hne ?_
  rw [hsplit]
  rfl

/-! ## Requests in pieces -/

/-- A request: a method token, a target, its end, and the rest up to the first blank line. -/
structure Request (R tok target : Bytes) : Prop where
  method : tok = ascii "GET " ∨ tok = ascii "POST "
  line : ∃ sep tail, R = tok ++ target ++ sep :: tail ∧ EndsTarget sep
  target_chars : ∀ c ∈ target, ¬ EndsTarget c
  ends : [13, 10, 13, 10] <:+ R
  first : ¬ [13, 10, 13, 10] <:+: R.dropLast
  length_lt : R.length < servCacheSize

/-- The connection with the bytes `x` received and kept. -/
def TzhHttpServ.cached (x : Bytes) : TzhHttpServ :=
  ⟨x ++ List.replicate (servCacheSize - x.length) 0, x.length⟩

/-- The calls for the chunks: the return values and `dstURL` in the end. -/
def feed : TzhHttpServ → Bytes → List Bytes → Option (List ℕ × Bytes)
  | _, dstURL, [] => some ([], dstURL)
  | serv, dstURL, c :: cs =>
    (httpServReslovURL serv c dstURL).bind fun r =>
      (feed r.2.1 r.2.2 cs).map fun q => (r.1 :: q.1, q.2)

/-- Only the last call returns 0, and it leaves the target. -/
def SplitOutcome (target dstURL : Bytes) (cs : List Bytes) : Prop :=
  ∃ rets dstURL', feed TzhHttpServ.zeroed dstURL cs = some (rets ++ [0], dstURL') ∧ (∀ r ∈ rets, r ≠ 0) ∧
    cstr dstURL' = some target

/-- More bytes behind the ones that are kept. -/
theorem store_cached {x c : Bytes} (h : (x ++ c).length < servCacheSize) :
    store (TzhHttpServ.cached x).cacheBuf (TzhHttpServ.cached x).cacheLen c =
      some (TzhHttpServ.cached (x ++ c)).cacheBuf := by
  rw [List.length_append] at h
  show store (x ++ List.replicate _ 0) x.length c = _
  rw [store_append (by rw [List.length_replicate]; omega), List.drop_replicate]
  show some _ = some (x ++ c ++ List.replicate _ 0)
  rw [List.length_append, Nat.sub_sub]

/-- What is kept is a C string in the cleared buffer. -/
theorem cached_eq {y : Bytes} (hy : y.length < servCacheSize) :
    ∃ z, (TzhHttpServ.cached y).cacheBuf = y ++ 0 :: z := by
  obtain ⟨n, hn⟩ : ∃ n, servCacheSize - y.length = n + 1 := ⟨servCacheSize - y.length - 1, by omega⟩
  refine ⟨List.replicate n 0, ?_⟩
  rw [TzhHttpServ.cached, hn, List.replicate_succ]

/-- What the copy yields on a text with a target in front. -/
theorem matchString_cached {tok target y tail : Bytes} {sep : UInt8} (hlen : y.length < servCacheSize) (h0 : 0 ∉ y)
    (hline : y = tok ++ target ++ sep :: tail) (hsep : EndsTarget sep) (ht : ∀ b ∈ target, ¬ EndsTarget b)
    (dstURL : Bytes) : zhMatchString (TzhHttpServ.cached y).cacheBuf tok 32 dstURL = strcpy dstURL 0 target := by
  obtain ⟨z, hz⟩ := cached_eq hlen
  have hself := matchLoop_self tok 32 (target ++ sep :: tail) tok.length 0 (by omega)
  rw [List.drop_zero, ← List.append_assoc, ← hline] at hself
  rw [zhMatchString, hz, cstr_of_append h0, Option.bind_some, hself, matchLoop_target tok target ht]
  intro b hb
  obtain rfl := Option.some.inj hb
  exact hsep

section Calls

variable {tok x c : Bytes} (hm : tok = ascii "GET " ∨ tok = ascii "POST ")

include hm

/-- The token is found at the front of what is kept. -/
theorem getbegnstr_cached {y : Bytes} (hy : tok <+: y) :
    getbegnstr (TzhHttpServ.cached y).cacheBuf = some (some (TzhHttpServ.cached y).cacheBuf) := by
  obtain ⟨t, rfl⟩ := hy
  rcases hm with rfl | rfl
  · exact scan_here (c := 71) (by decide) rfl
  · exact scan_here (c := 80) (by decide) rfl

/-- **A call without the blank line** waits. -/
theorem reslovURL_wait (hlen : (x ++ c).length < servCacheSize) (htok : tok <+: x ++ c)
    (hno : rnrnstr (TzhHttpServ.cached (x ++ c)).cacheBuf = some none) (dstURL : Bytes) :
    httpServReslovURL (.cached x) c dstURL = some (3, .cached (x ++ c), dstURL) := by
  have hsum : (TzhHttpServ.cached x).cacheLen + c.length = (x ++ c).length := List.length_append.symm
  rw [httpServReslovURL, hsum, if_pos hlen, store_cached hlen, Option.bind_some, getbegnstr_cached hm htok,
    Option.bind_some]
  simp only [hno, Option.bind_some, Option.isNone_none, if_true]
  rfl

/-- **A call that has the blank line** copies the target. -/
theorem reslovURL_done {target tail : Bytes} {sep : UInt8} (hlen : (x ++ c).length < servCacheSize)
    (h0 : 0 ∉ x ++ c) (hline : x ++ c = tok ++ target ++ sep :: tail) (hsep : EndsTarget sep)
    (ht : ∀ b ∈ target, ¬ EndsTarget b) (hblank : [13, 10, 13, 10] <:+: x ++ c) (dstURL : Bytes) :
    httpServReslovURL (.cached x) c dstURL =
      (strcpy dstURL 0 target).map fun d => (0, ⟨(TzhHttpServ.cached (x ++ c)).cacheBuf, 0⟩, d) := by
  have hsum : (TzhHttpServ.cached x).cacheLen + c.length = (x ++ c).length := List.length_append.symm
  have htok : tok <+: x ++ c := ⟨target ++ sep :: tail, by rw [hline, List.append_assoc]⟩
  obtain ⟨pstr, hp⟩ : ∃ pstr, rnrnstr (TzhHttpServ.cached (x ++ c)).cacheBuf = some (some pstr) := by
    obtain ⟨z, hz⟩ := cached_eq hlen
    rw [hz]
    exact scan_present h0 (by decide) hblank
  rw [httpServReslovURL, hsum, if_pos hlen, store_cached hlen, Option.bind_some, getbegnstr_cached hm htok,
    Option.bind_some]
  simp only [hp, Option.bind_some, Option.isNone_some, Bool.false_eq_true, if_false]
  rw [← matchString_cached hlen h0 hline hsep ht]
  obtain ⟨t, ht⟩ := htok.trans (List.prefix_append _ (List.replicate (servCacheSize - (x ++ c).length) 0))
  have hcache : (TzhHttpServ.cached (x ++ c)).cacheBuf = tok ++ t := ht.symm
  rw [hcache]
  rcases hm with rfl | rfl
  · have hget : (ascii "GET").isPrefixOf (ascii "GET " ++ t) = true := rfl
    rw [if_pos hget]
  · have hget : (ascii "GET").isPrefixOf (ascii "POST " ++ t) = false := rfl
    have hpost : (ascii "POST").isPrefixOf (ascii "POST " ++ t) = true := rfl
    rw [hget, if_neg Bool.false_ne_true, if_pos hpost]

end Calls

section Pieces

variable {R tok target : Bytes}

/-- The blank line is not found before the last byte of the request, nor behind a NUL. -/
theorem Request.rnrnstr_none (hR : Request R tok target) {y : Bytes} (hy : y <+: R) (hno : y ≠ R ∨ 0 ∈ R) :
    rnrnstr (TzhHttpServ.cached y).cacheBuf = some none := by
  obtain ⟨w, hw⟩ := cached_eq (hy.length_le.trans_lt hR.length_lt)
  rw [rnrnstr, hw]
  -- the text in front of the first NUL is a proper prefix of the request
  obtain ⟨u, z, hu, h0, hpre, hne⟩ : ∃ u z, y ++ 0 :: w = u ++ 0 :: z ∧ 0 ∉ u ∧ u <+: R ∧ u ≠ R := by
    by_cases hm : 0 ∈ y
    · obtain ⟨u, z, rfl, hu⟩ := List.eq_append_cons_of_mem hm
      refine ⟨u, z ++ 0 :: w, by simp, hu, (List.prefix_append u _).trans hy, ?_⟩
      rintro rfl
      exact hu (hy.subset hm)
    · refine ⟨y, w, rfl, hm, hy, ?_⟩
      rcases hno with h | h
      · exact h
      · rintro rfl
        exact hm h
  have hdrop : u <+: R.dropLast := by
    obtain ⟨t, rfl⟩ := hpre
    rcases List.eq_nil_or_concat t with rfl | ⟨t, b, rfl⟩
    · exact absurd (List.append_nil u).symm hne
    · rw [List.concat_eq_append, ← List.append_assoc, List.dropLast_concat]
      exact List.prefix_append u t
  rw [hu]
  exact scan_absent h0 (by decide) fun h => hR.first (h.trans hdrop.isInfix)

/-- The call that brings the received part to `x ++ c`: it waits, unless that is the whole request. -/
theorem Request.reslovURL_wait (hR : Request R tok target) (dstURL : Bytes) {x c : Bytes} (hy : x ++ c <+: R)
    (htok : tok <+: x ++ c) (hno : x ++ c ≠ R ∨ 0 ∈ R) :
    httpServReslovURL (.cached x) c dstURL = some (3, .cached (x ++ c), dstURL) :=
  Esp32Base.reslovURL_wait hR.method (hy.length_le.trans_lt hR.length_lt) htok (hR.rnrnstr_none hy hno) dstURL

theorem Request.reslovURL_done (hR : Request R tok target) (dstURL : Bytes) {x c : Bytes} (hy : x ++ c = R)
    (h0 : 0 ∉ R) : httpServReslovURL (.cached x) c dstURL =
      (strcpy dstURL 0 target).map fun d => (0, ⟨(TzhHttpServ.cached R).cacheBuf, 0⟩, d) := by
  subst hy
  obtain ⟨sep, tail, hline, hsep⟩ := hR.line
  exact Esp32Base.reslovURL_done hR.method hR.length_lt h0 hline hsep hR.target_chars hR.ends.isInfix dstURL

/-- The calls for the rest of a request whose token is there: nothing but waiting up to the last one. -/
theorem Request.feed_rest (hR : Request R tok target) (dstURL : Bytes) : ∀ (cs : List Bytes) {x c : Bytes},
    x ++ c ++ cs.flatten = R → (∀ d ∈ cs, d ≠ []) → tok <+: x ++ c → feed (.cached x) dstURL (c :: cs) =
      if 0 ∈ R then some (List.replicate (cs.length + 1) 3, dstURL)
      else (strcpy dstURL 0 target).map fun d => (List.replicate cs.length 3 ++ [0], d)
  | [], x, c, hx, _, htok => by
    rw [List.flatten_nil, List.append_nil] at hx
    by_cases h0 : 0 ∈ R
    · rw [if_pos h0, feed, hR.reslovURL_wait dstURL (hx ▸ List.prefix_refl _) htok (Or.inr h0)]
      rfl
    · rw [if_neg h0, feed, hR.reslovURL_done dstURL hx h0]
      cases strcpy dstURL 0 target <;> rfl
  | d :: cs, x, c, hx, hne, htok => by
    have hpre : x ++ c <+: R := ⟨(d :: cs).flatten, hx⟩
    have hlt : x ++ c ≠ R := by
      intro h
      have hl := congrArg List.length hx
      have hd := List.length_pos_iff.mpr (hne d (List.mem_cons_self ..))
      rw [h, List.length_append, List.flatten_cons, List.length_append] at hl
      omega
    rw [List.flatten_cons, ← List.append_assoc] at hx
    have hrest := hR.feed_rest dstURL cs hx (fun e he => hne e (List.mem_cons_of_mem _ he))
      (htok.trans (List.prefix_append _ d))
    rw [feed, hR.reslovURL_wait dstURL hpre htok (Or.inl hlt), Option.bind_some, hrest]
    by_cases h0 : 0 ∈ R
    · rw [if_pos h0, if_pos h0]
      rfl
    · rw [if_neg h0, if_neg h0]
      cases strcpy dstURL 0 target <;> rfl

/-- With the token in the first chunk, the outcome is the same for every split. -/
theorem Request.outcome_of_token (hR : Request R tok target) (dstURL : Bytes) {c : Bytes} {cs : List Bytes}
    (hs : c ++ cs.flatten = R) (hne : ∀ d ∈ cs, d ≠ []) (hc : tok.length ≤ c.length) :
    SplitOutcome target dstURL (c :: cs) ↔ 0 ∉ R ∧ target.length < dstURL.length := by
  obtain ⟨sep, tail, hline, -⟩ := hR.line
  have hfront : tok <+: R := ⟨target ++ sep :: tail, by rw [hline, List.append_assoc]⟩
  have htok : tok <+: c := List.prefix_of_prefix_length_le hfront ⟨cs.flatten, hs⟩ hc
  have hrun := hR.feed_rest dstURL cs (x := []) (c := c) hs hne htok
  rw [show TzhHttpServ.cached [] = TzhHttpServ.zeroed from rfl] at hrun
  by_cases h0 : 0 ∈ R
  · rw [if_pos h0] at hrun
    refine ⟨fun ⟨rets, d, h, _⟩ => ?_, fun h => absurd h0 h.1⟩
    -- a request with a NUL is waited for for ever
    rw [hrun] at h
    have hlist := (Prod.mk.inj (Option.some.inj h)).1
    have hmem : 0 ∈ List.replicate (cs.length + 1) 3 := by
      rw [hlist]
      exact List.mem_append_right _ (List.mem_singleton_self 0)
    exact absurd (List.eq_of_mem_replicate hmem) (by decide)
  · rw [if_neg h0] at hrun
    have ht : 0 ∉ target := fun h => h0 (by rw [hline]; simp [h])
    constructor
    · rintro ⟨rets, d, h, -, -⟩
      rw [hrun] at h
      obtain ⟨d', hcpy, -⟩ := Option.map_eq_some_iff.mp h
      exact ⟨h0, strcpy_lt hcpy⟩
    · rintro ⟨-, hlen⟩
      obtain ⟨d, hd, hstr⟩ := exists_strcpy ht hlen
      refine ⟨List.replicate cs.length 3, d, by rw [hrun, hd]; rfl, fun r hr => ?_, hstr⟩
      rw [List.eq_of_mem_replicate hr]
      decide

theorem begins_space {hd : Bytes} (h : (beginsGet hd || beginsPost hd) = true) : 32 ∈ hd.tail := by
  rcases Bool.or_eq_true_iff.mp h with h | h
  · unfold beginsGet at h
    split at h
    · simp only [Bool.and_eq_true, beq_iff_eq] at h
      simp [h.2]
    · cases h
  · unfold beginsPost at h
    split at h
    · simp only [Bool.and_eq_true, beq_iff_eq] at h
      simp [h.2]
    · cases h

/-- There is no token where no space follows the first byte. -/
theorem getbegnstr_noSpace {b : UInt8} {w : Bytes} (hw : 32 ∉ w) (h0 : 0 ∈ w) :
    getbegnstr (b :: w) = some none := by
  obtain ⟨u, z, hu, hz⟩ := List.eq_append_cons_of_mem (List.mem_cons_of_mem b h0)
  rw [hu]
  refine scan_none u z hz fun v hv hs => ?_
  rw [Bool.eq_false_iff]
  intro hb
  have hmem := begins_space hb
  obtain ⟨a, ha⟩ := hs
  have hsub : (v ++ 0 :: z).tail <:+ w := by
    obtain ⟨e, v, rfl⟩ := List.exists_cons_of_ne_nil hv
    cases a with
    | nil =>
      rw [← ha] at hu
      exact (List.cons.inj hu).2 ▸ List.suffix_refl _
    | cons f a =>
      rw [← ha] at hu
      exact ⟨a ++ [e], by rw [(List.cons.inj hu).2]; simp⟩
  exact hw (hsub.subset hmem)

/-- A call that finds no token starts the buffer over. -/
theorem reslovURL_noToken {cacheBuf buf c : Bytes} {cacheLen : ℕ} (hlen : cacheLen + c.length < servCacheSize)
    (hst : store cacheBuf cacheLen c = some buf) (hno : getbegnstr buf = some none) (dstURL : Bytes) :
    httpServReslovURL ⟨cacheBuf, cacheLen⟩ c dstURL = some (2, ⟨buf, 0⟩, dstURL) := by
  unfold httpServReslovURL
  rw [if_pos hlen]
  simp only [hst, hno, Option.bind_some]

/-- Byte by byte nothing is ever found, once the buffer has been started over without a space in it. -/
theorem feed_bytes {w : Bytes} (hw : 32 ∉ w) (h0 : 0 ∈ w) (dstURL l : Bytes) (a : UInt8) :
    feed ⟨a :: w, 0⟩ dstURL (l.map fun b => [b]) = some (List.replicate l.length 2, dstURL) := by
  induction l generalizing a with
  | nil => rfl
  | cons b l ih =>
    have hst : store (a :: w) 0 [b] = some (b :: w) := by
      rw [store_of_le (by simp)]
      rfl
    have hcall := reslovURL_noToken (show 0 + 1 < servCacheSize by decide) hst (getbegnstr_noSpace hw h0) dstURL
    rw [List.map_cons, feed, hcall, Option.bind_some, ih b]
    rfl

/-- A first chunk that ends inside the token is thrown away; byte by byte the rest then yields nothing. -/
theorem Request.feed_short (hR : Request R tok target) (dstURL : Bytes) {c : Bytes} (hc : c ≠ []) (hpre : c <+: tok)
    (hlt : c.length < tok.length) (l : Bytes) :
    feed .zeroed dstURL (c :: l.map fun b => [b]) = some (List.replicate (l.length + 1) 2, dstURL) := by
  obtain ⟨a, t, rfl⟩ := List.exists_cons_of_ne_nil hc
  have htl : tok.length ≤ 5 := by rcases hR.method with rfl | rfl <;> decide
  have hsp : 32 ∉ t := by
    -- the only space of a token is its last character
    have hlast : 32 ∉ tok.dropLast := by rcases hR.method with rfl | rfl <;> decide
    obtain ⟨r, hr⟩ := hpre
    intro hm
    refine hlast ?_
    have hr' : r ≠ [] := by
      rintro rfl
      rw [List.append_nil] at hr
      rw [hr] at hlt
      exact lt_irrefl _ hlt
    rw [← hr, List.dropLast_append_of_ne_nil hr']
    exact List.mem_append_left _ (List.mem_cons_of_mem a hm)
  have hlen : (a :: t).length < servCacheSize := hlt.trans (htl.trans_lt (by decide))
  have hst : store (List.replicate servCacheSize 0) 0 (a :: t) =
      some (a :: (t ++ List.replicate (servCacheSize - (a :: t).length) 0)) := store_cached (x := []) hlen
  have hw : 32 ∉ t ++ List.replicate (servCacheSize - (a :: t).length) 0 := by
    rw [List.mem_append, not_or]
    exact ⟨hsp, fun h => absurd (List.eq_of_mem_replicate h) (by decide)⟩
  have h0 : 0 ∈ t ++ List.replicate (servCacheSize - (a :: t).length) 0 :=
    List.mem_append_right _ (List.mem_replicate.mpr ⟨by omega, rfl⟩)
  have hcall := reslovURL_noToken (show 0 + (a :: t).length < servCacheSize by omega) hst
    (getbegnstr_noSpace hw h0) dstURL
  rw [feed, TzhHttpServ.zeroed, hcall, Option.bind_some, feed_bytes hw h0 dstURL l a]
  rfl

/-- The chunks that a `recv` on the 128-byte buffer can return. -/
def RecvChunks (cs : List Bytes) : Prop := ∀ c ∈ cs, c ≠ [] ∧ c.length ≤ 128

/-- **Receiving a request in pieces**: with the first chunk `c` given, every way of receiving the rest leads
to the target in the last call exactly when `c` holds the whole method token, the request has no NUL, and the
target fits `dstURL`. -/
theorem reslovURL_split_iff (hR : Request R tok target) (dstURL : Bytes) {c rest : Bytes} (hs : c ++ rest = R)
    (hc : RecvChunks [c]) :
    (∀ cs, cs.flatten = rest → RecvChunks cs → SplitOutcome target dstURL (c :: cs)) ↔
      tok.length ≤ c.length ∧ 0 ∉ R ∧ target.length < dstURL.length := by
  have hbytes : (rest.map fun b => [b]).flatten = rest := by
    rw [← List.flatMap_def, List.flatMap_singleton']
  have hne : ∀ d ∈ rest.map fun b => [b], d ≠ [] ∧ d.length ≤ 128 := by
    intro d hd
    obtain ⟨b, -, rfl⟩ := List.mem_map.mp hd
    exact ⟨by simp, by simp⟩
  constructor
  · intro h
    have hsplit := h _ hbytes hne
    by_cases hlt : c.length < tok.length
    · obtain ⟨rets, d, hrun, -, -⟩ := hsplit
      have hpre : c <+: tok := by
        obtain ⟨sep, tail, hline, -⟩ := hR.line
        refine List.prefix_of_prefix_length_le ⟨rest, hs⟩ ?_ hlt.le
        exact ⟨target ++ sep :: tail, by rw [hline, List.append_assoc]⟩
      rw [hR.feed_short dstURL (hc c (List.mem_singleton_self c)).1 hpre hlt] at hrun
      have hlist := (Prod.mk.inj (Option.some.inj hrun)).1
      have hmem : 0 ∈ List.replicate (rest.length + 1) 2 := by
        rw [hlist]
        exact List.mem_append_right _ (List.mem_singleton_self 0)
      exact absurd (List.eq_of_mem_replicate hmem) (by decide)
    · rw [not_lt] at hlt
      have hout := hR.outcome_of_token dstURL (by rw [hbytes, hs]) (fun d hd => (hne d hd).1) hlt
      exact ⟨hlt, hout.mp hsplit⟩
  · rintro ⟨hlen, h⟩ cs hcs hchunks
    have hout := hR.outcome_of_token dstURL (by rw [hcs, hs]) (fun d hd => (hchunks d hd).1) hlen
    exact hout.mpr h

end Pieces

theorem get_request : Request (ascii "GET /a HTTP/1.1\r\n\r\n") (ascii "GET ") (ascii "/a") where
  method := Or.inl rfl
  line := ⟨32, ascii "HTTP/1.1\r\n\r\n", by decide +kernel, Or.inl rfl⟩
  target_chars := by decide +kernel
  ends := ⟨ascii "GET /a HTTP/1.1", by decide +kernel⟩
  first := by decide +kernel
  length_lt := by decide +kernel

theorem reslovURL_split_get :
    (∀ cs, cs.flatten = ascii "/a HTTP/1.1\r\n\r\n" → RecvChunks cs →
        SplitOutcome (ascii "/a") (List.replicate 1124 0) (ascii "GET " :: cs)) ↔
      (ascii "GET ").length ≤ (ascii "GET ").length ∧ 0 ∉ ascii "GET /a HTTP/1.1\r\n\r\n" ∧
        (ascii "/a").length < (List.replicate 1124 (0 : UInt8)).length :=
  reslovURL_split_iff get_request (List.replicate 1124 0) (by decide +kernel)
    (fun c hc => by rw [List.mem_singleton.mp hc]; decide +kernel)

/-- A first chunk of one byte, `G`: it is thrown away, and no later call finds the token. -/
theorem reslovURL_split_fails :
    ¬ ∀ (R tok target dstURL : Bytes) (cs : List Bytes), Request R tok target → target.length < dstURL.length →
      cs.flatten = R → RecvChunks cs → SplitOutcome target dstURL cs := by
  intro h
  have hchunks : RecvChunks [ascii "G", ascii "ET /a HTTP/1.1\r\n\r\n"] := by
    intro c hc
    rcases List.mem_pair.mp hc with rfl | rfl <;> decide +kernel
  obtain ⟨rets, d, hrun, -, -⟩ := h _ _ _ (List.replicate 1124 0) [ascii "G", ascii "ET /a HTTP/1.1\r\n\r\n"]
    get_request (by decide +kernel) (by decide +kernel) hchunks
  have htwo : (feed .zeroed (List.replicate 1124 0) [ascii "G", ascii "ET /a HTTP/1.1\r\n\r\n"]).map
      (fun r => r.1) = some [2, 2] := by decide +kernel
  rw [hrun, Option.map_some] at htwo
  have hmem : 0 ∈ [2, 2] := by
    rw [← Option.some.inj htwo]
    exact List.mem_append_right _ (List.mem_singleton_self 0)
  revert hmem
  decide

end Esp32Base
