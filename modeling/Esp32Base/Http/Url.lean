import Esp32Base.Lib.CText

/-!
# Http.Url — splitting a URL (zhHttp.c)

`zhHttpUrlSplit` runs four loops over one index: up to the end of the host, of the port, of the path and of the text.

* `exists_urlText`: every text behind the scheme is host, port, path and query in one way the loops see.
* `zhHttpUrlSplit_eq`, `exists_accepted`: what a call stores, and what it accepts.
* `zhHttpUrlSplit_text`: a URL printed from its parts is split into these parts.
-/

namespace Esp32Base

open Lib Lib.Buf Lib.CText

/-! ## The function -/

/-- A copying loop: the bytes in front of the first one with `stop`, and the memory from there on. -/
def copyUntil (stop : UInt8 → Bool) : Bytes → Option (Bytes × Bytes)
  | [] => none
  | c :: m => if stop c then some ([], c :: m) else (copyUntil stop m).map fun r => (c :: r.1, r.2)

def isHostEnd (c : UInt8) : Bool := c == 58 || c == 47 || c == 92 || c == 63 || c == 0
def isPortEnd (c : UInt8) : Bool := c == 63 || c == 47 || c == 92 || c == 0
def isFileEnd (c : UInt8) : Bool := c == 63 || c == 0

/-- The loop over the parameter: what is copied. A `?` is skipped as long as `n` is 0. -/
def parmLoop : ℕ → Bytes → Option Bytes
  | _, [] => none
  | n, c :: m =>
    if c = 0 then some []
    else if n = 0 ∧ c = 63 then parmLoop (n + 1) m
    else (parmLoop n m).map (c :: ·)

/-- The port and the memory behind it. -/
def splitPort (m : Bytes) : Option (ℤ × Bytes) :=
  (m[0]?).bind fun c =>
    if c = 58 then
      (copyUntil isPortEnd m.tail).bind fun (text, m) =>
        (strcpy (List.replicate 32 0) 0 text).bind fun buf => (cstr buf).map fun text => (atoi text, m)
    else some (80, m)

/-- What the pointers of the call point to. -/
structure UrlDst where
  dst_host : Bytes
  dst_port : ℤ
  dst_file : Bytes
  dst_parm : Bytes
  deriving DecidableEq

def zhHttpUrlSplit (szUrl : Bytes) (d : UrlDst) : Option (Bool × UrlDst) :=
  let refused := (strcpy d.dst_host 0 []).bind fun dst_host =>
    (strcpy d.dst_parm 0 []).map fun dst_parm => (false, ⟨dst_host, 0, d.dst_file, dst_parm⟩)
  (load szUrl 0 5).bind fun scheme =>
    if scheme ≠ ascii "http:" then refused
    else
      (load szUrl 5 2).bind fun slashes =>
        if slashes = ascii "//" ∨ slashes = ascii "\\\\" then
          (copyUntil isHostEnd (szUrl.drop 7)).bind fun (host, m) =>
            (strcpy d.dst_host 0 host).bind fun dst_host =>
              (splitPort m).bind fun (dst_port, m) =>
                (copyUntil isFileEnd m).bind fun (file, m) =>
                  (strcpy d.dst_file 0 file).bind fun dst_file =>
                    (parmLoop 0 m).bind fun parm =>
                      (strcpy d.dst_parm 0 parm).map fun dst_parm => (true, ⟨dst_host, dst_port, dst_file, dst_parm⟩)
        else refused

/-! ## The text of a URL -/

/-- The parts of a URL behind its scheme: the port and the query are there with their `:` and `?` or not at all. -/
structure UrlText where
  host : Bytes
  port : Option Bytes
  file : Bytes
  query : Option Bytes
  host_plain : ∀ c ∈ host, isHostEnd c = false
  port_plain : ∀ t ∈ port, ∀ c ∈ t, isPortEnd c = false
  file_start : file = [] ∨ ∃ c t, file = c :: t ∧ (c = 47 ∨ c = 92)
  file_plain : ∀ c ∈ file, isFileEnd c = false
  query_noNul : ∀ t ∈ query, 0 ∉ t

/-- An optional part with its mark. -/
def marked (c : UInt8) : Option Bytes → Bytes
  | none => []
  | some t => c :: t

def UrlText.text (u : UrlText) : Bytes := u.host ++ (marked 58 u.port ++ (u.file ++ marked 63 u.query))

/-- `http:` and two slashes of either kind. -/
def IsScheme (scheme : Bytes) : Prop := scheme = ascii "http://" ∨ scheme = ascii "http:\\\\"

/-! ## The loops -/

section Loops

variable {stop : UInt8 → Bool}

theorem copyUntil_append {c : UInt8} (hc : stop c = true) (m : Bytes) : ∀ {t : Bytes}, (∀ b ∈ t, stop b = false) →
    copyUntil stop (t ++ c :: m) = some (t, c :: m)
  | [], _ => if_pos hc
  | b :: t, ht => by
    rw [List.forall_mem_cons] at ht
    rw [List.cons_append, copyUntil, ht.1, copyUntil_append hc m ht.2]
    rfl

/-- A text has a longest part in front without `stop`. -/
theorem exists_until (stop : UInt8 → Bool) (t : Bytes) :
    ∃ a r, t = a ++ r ∧ (∀ c ∈ a, stop c = false) ∧ (r = [] ∨ ∃ c r', r = c :: r' ∧ stop c = true) := by
  refine ⟨t.takeWhile (!stop ·), t.dropWhile (!stop ·), List.takeWhile_append_dropWhile.symm, fun c hc => ?_, ?_⟩
  · simpa using List.mem_takeWhile_imp hc
  · cases hr : t.dropWhile (!stop ·) with
    | nil => exact Or.inl rfl
    | cons c r' =>
      have h := List.head?_dropWhile_not (!stop ·) t
      rw [hr] at h
      exact Or.inr ⟨c, r', rfl, by simpa using h⟩

end Loops

theorem parmLoop_text (rest : Bytes) : ∀ {t : Bytes}, 0 ∉ t → parmLoop 1 (t ++ 0 :: rest) = some t
  | [], _ => rfl
  | c :: t, h => by
    rw [List.mem_cons, not_or] at h
    rw [List.cons_append, parmLoop, if_neg (fun hc => h.1 hc.symm), if_neg (fun hc => by omega), parmLoop_text rest h.2]
    rfl

theorem parmLoop_query (rest : Bytes) {query : Option Bytes} (h : ∀ t ∈ query, 0 ∉ t) :
    parmLoop 0 (marked 63 query ++ 0 :: rest) = some (query.getD []) := by
  cases query with
  | none => rfl
  | some t =>
    rw [marked, List.cons_append, parmLoop, if_neg (by decide), if_pos ⟨rfl, rfl⟩]
    exact parmLoop_text rest (h t rfl)

/-! ## The parts of a text -/

/-- Path and query of what lies behind host and port. -/
theorem exists_fileQuery {r : Bytes} (h0 : 0 ∉ r) (hr : r = [] ∨ ∃ c t, r = c :: t ∧ isPortEnd c = true) :
    ∃ file query, r = file ++ marked 63 query ∧ (file = [] ∨ ∃ c t, file = c :: t ∧ (c = 47 ∨ c = 92)) ∧
      (∀ c ∈ file, isFileEnd c = false) ∧ ∀ t ∈ query, 0 ∉ t := by
  obtain ⟨file, q, rfl, hfile, hq⟩ := exists_until isFileEnd r
  rw [List.mem_append, not_or] at h0
  have hstart : file = [] ∨ ∃ c t, file = c :: t ∧ (c = 47 ∨ c = 92) := by
    cases file with
    | nil => exact Or.inl rfl
    | cons c t =>
      rcases hr with hnil | ⟨c', t', heq, hc⟩
      · cases hnil
      · obtain ⟨rfl, -⟩ := List.cons.inj heq
        have hno := hfile c (List.mem_cons_self ..)
        simp only [isFileEnd, isPortEnd, Bool.or_eq_true, Bool.or_eq_false_iff, beq_iff_eq, beq_eq_false_iff_ne] at hno hc
        exact Or.inr ⟨c, t, rfl, by tauto⟩
  rcases hq with rfl | ⟨c, q, rfl, hc⟩
  · exact ⟨file, none, rfl, hstart, hfile, by simp⟩
  · rw [List.mem_cons, not_or] at h0
    simp only [isFileEnd, Bool.or_eq_true, beq_iff_eq] at hc
    obtain rfl : c = 63 := hc.resolve_right fun h => h0.2.1 h.symm
    exact ⟨file, some q, rfl, hstart, hfile, fun t ht => Option.some.inj ht ▸ h0.2.2⟩

/-- The port, when there is one, and what lies behind it. -/
theorem exists_port {r : Bytes} (hr : r = [] ∨ ∃ c t, r = c :: t ∧ isHostEnd c = true) :
    ∃ port r', r = marked 58 port ++ r' ∧ (∀ t ∈ port, ∀ c ∈ t, isPortEnd c = false) ∧
      (r' = [] ∨ ∃ c t, r' = c :: t ∧ isPortEnd c = true) := by
  rcases hr with rfl | ⟨c, r, rfl, hc⟩
  · exact ⟨none, [], rfl, by simp, Or.inl rfl⟩
  · by_cases h58 : c = 58
    · subst h58
      obtain ⟨t, r', rfl, ht, hr'⟩ := exists_until isPortEnd r
      exact ⟨some t, r', rfl, fun t' ht' => Option.some.inj ht' ▸ ht, hr'⟩
    · refine ⟨none, c :: r, rfl, by simp, Or.inr ⟨c, r, rfl, ?_⟩⟩
      simp only [isHostEnd, isPortEnd, Bool.or_eq_true, beq_iff_eq] at hc ⊢
      tauto

/-- **Every text has its parts.** -/
theorem exists_urlText {s : Bytes} (h0 : 0 ∉ s) : ∃ u : UrlText, u.text = s := by
  obtain ⟨host, r, rfl, hhost, hr⟩ := exists_until isHostEnd s
  obtain ⟨port, r', rfl, hport, hr'⟩ := exists_port hr
  simp only [List.mem_append, not_or] at h0
  obtain ⟨file, query, rfl, hstart, hfile, hquery⟩ := exists_fileQuery h0.2.2 hr'
  exact ⟨⟨host, port, file, query, hhost, hport, hstart, hfile, hquery⟩, rfl⟩

/-! ## Splitting -/

/-- What `dst_port` becomes: the text goes through `buf[32]`. -/
def portValue : Option Bytes → Option ℤ
  | none => some 80
  | some t => if t.length < 32 then some (atoi t) else none

namespace UrlText

variable (u : UrlText) (rest : Bytes)

theorem host_noNul : 0 ∉ u.host := fun h => Bool.noConfusion (u.host_plain 0 h)

theorem file_noNul : 0 ∉ u.file := fun h => Bool.noConfusion (u.file_plain 0 h)

theorem parm_noNul : 0 ∉ u.query.getD [] := by
  cases hq : u.query with
  | none => exact List.not_mem_nil
  | some q => exact u.query_noNul q hq

/-- The byte that ends the host or the port. -/
theorem file_stops : ∃ c m, u.file ++ marked 63 u.query ++ 0 :: rest = c :: m ∧ isPortEnd c = true := by
  rcases u.file_start with hfile | ⟨c, t, hfile, hc⟩
  · rw [hfile, List.nil_append]
    cases u.query with
    | none => exact ⟨0, rest, rfl, rfl⟩
    | some q => exact ⟨63, q ++ 0 :: rest, rfl, rfl⟩
  · refine ⟨c, t ++ marked 63 u.query ++ 0 :: rest, by rw [hfile]; rfl, ?_⟩
    rcases hc with rfl | rfl <;> rfl

/-- The byte that ends the host. -/
theorem port_stops : ∃ c m, marked 58 u.port ++ (u.file ++ marked 63 u.query) ++ 0 :: rest = c :: m ∧
    isHostEnd c = true := by
  obtain ⟨c, m, heq, hc⟩ := u.file_stops rest
  cases u.port with
  | none =>
    refine ⟨c, m, heq, ?_⟩
    simp only [isHostEnd, isPortEnd, Bool.or_eq_true, beq_iff_eq] at hc ⊢
    tauto
  | some t => exact ⟨58, _, rfl, rfl⟩

theorem copy_host : copyUntil isHostEnd (u.text ++ 0 :: rest) =
    some (u.host, marked 58 u.port ++ (u.file ++ marked 63 u.query) ++ 0 :: rest) := by
  obtain ⟨c, m, heq, hc⟩ := u.port_stops rest
  rw [text, List.append_assoc, heq, copyUntil_append hc m u.host_plain]

theorem split_port : splitPort (marked 58 u.port ++ (u.file ++ marked 63 u.query) ++ 0 :: rest) =
    (portValue u.port).map fun dst_port => (dst_port, u.file ++ marked 63 u.query ++ 0 :: rest) := by
  obtain ⟨c, m, heq, hc⟩ := u.file_stops rest
  have hplain := u.port_plain
  cases hport : u.port with
  | none =>
    rw [marked, List.nil_append, heq, splitPort, List.getElem?_cons_zero, Option.bind_some,
      if_neg (by rintro rfl; cases hc)]
    rfl
  | some t =>
    rw [hport] at hplain
    have ht := hplain t rfl
    have h0 : 0 ∉ t := fun h => Bool.noConfusion (ht 0 h)
    rw [marked, List.append_assoc, heq, splitPort, List.cons_append, List.getElem?_cons_zero, Option.bind_some,
      if_pos rfl, List.tail_cons, copyUntil_append hc m ht, Option.bind_some]
    dsimp only
    rw [portValue]
    by_cases hlt : t.length < 32
    · obtain ⟨buf, hbuf, hcstr⟩ := @exists_strcpy (List.replicate 32 0) t h0 (by rw [List.length_replicate]; exact hlt)
      rw [hbuf, Option.bind_some, hcstr, if_pos hlt]
      rfl
    · rw [strcpy_eq_none (by rw [List.length_replicate]; omega), if_neg hlt]
      rfl

theorem copy_file : copyUntil isFileEnd (u.file ++ marked 63 u.query ++ 0 :: rest) =
    some (u.file, marked 63 u.query ++ 0 :: rest) := by
  rw [List.append_assoc]
  cases u.query with
  | none => exact copyUntil_append rfl rest u.file_plain
  | some q => exact copyUntil_append rfl (q ++ 0 :: rest) u.file_plain

end UrlText

/-- **What a call stores**: the four parts, each through `strcpy` to its buffer. -/
theorem zhHttpUrlSplit_eq {scheme : Bytes} (hs : IsScheme scheme) (u : UrlText) (rest : Bytes) (d : UrlDst) :
    zhHttpUrlSplit (scheme ++ (u.text ++ 0 :: rest)) d =
      (strcpy d.dst_host 0 u.host).bind fun dst_host =>
        (portValue u.port).bind fun dst_port =>
          (strcpy d.dst_file 0 u.file).bind fun dst_file =>
            (strcpy d.dst_parm 0 (u.query.getD [])).map fun dst_parm =>
              (true, ⟨dst_host, dst_port, dst_file, dst_parm⟩) := by
  obtain ⟨slashes, hslashes, hsl⟩ : ∃ slashes, scheme = ascii "http:" ++ slashes ∧
      (slashes = ascii "//" ∨ slashes = ascii "\\\\") := by
    rcases hs with rfl | rfl
    · exact ⟨ascii "//", rfl, Or.inl rfl⟩
    · exact ⟨ascii "\\\\", rfl, Or.inr rfl⟩
  have h2 : slashes.length = 2 := by rcases hsl with rfl | rfl <;> rfl
  have h5 : load (scheme ++ (u.text ++ 0 :: rest)) 0 5 = some (ascii "http:") := by
    rw [hslashes, List.append_assoc]
    exact load_mid [] (ascii "http:") (slashes ++ (u.text ++ 0 :: rest))
  have h7 : load (scheme ++ (u.text ++ 0 :: rest)) 5 2 = some slashes := by
    rw [hslashes, ← h2]
    exact load_mid (ascii "http:") slashes (u.text ++ 0 :: rest)
  have hdrop : (scheme ++ (u.text ++ 0 :: rest)).drop 7 = u.text ++ 0 :: rest := by
    refine List.drop_left' ?_
    rw [hslashes, List.length_append, h2]
    rfl
  unfold zhHttpUrlSplit
  rw [h5, Option.bind_some, if_neg (by simp), h7, Option.bind_some, if_pos hsl, hdrop, u.copy_host, Option.bind_some]
  refine Option.bind_congr fun dst_host _ => ?_
  rw [u.split_port, Option.bind_map]
  refine Option.bind_congr fun dst_port _ => ?_
  dsimp only [Function.comp]
  rw [u.copy_file, Option.bind_some]
  refine Option.bind_congr fun dst_file _ => ?_
  rw [parmLoop_query rest u.query_noNul, Option.bind_some]

/-! ### What is accepted -/

theorem copyUntil_eq_some {stop : UInt8 → Bool} : ∀ {m a r : Bytes}, copyUntil stop m = some (a, r) → m = a ++ r
  | c :: m, a, r, h => by
    unfold copyUntil at h
    split_ifs at h
    · obtain ⟨rfl, rfl⟩ := Prod.mk.inj (Option.some.inj h)
      rfl
    · obtain ⟨⟨a', r'⟩, hrec, h⟩ := Option.map_eq_some_iff.mp h
      obtain ⟨rfl, rfl⟩ := Prod.mk.inj h
      rw [copyUntil_eq_some hrec, List.cons_append]

theorem splitPort_suffix {m r : Bytes} {port : ℤ} (h : splitPort m = some (port, r)) : r <:+ m := by
  obtain ⟨c, -, h⟩ := Option.bind_eq_some_iff.mp h
  split_ifs at h
  · obtain ⟨⟨text, m'⟩, hcopy, h⟩ := Option.bind_eq_some_iff.mp h
    obtain ⟨_, -, h⟩ := Option.bind_eq_some_iff.mp h
    obtain ⟨_, -, h⟩ := Option.map_eq_some_iff.mp h
    obtain ⟨-, rfl⟩ := Prod.mk.inj h
    exact (List.IsSuffix.trans ⟨text, (copyUntil_eq_some hcopy).symm⟩ (List.tail_suffix m))
  · obtain ⟨-, rfl⟩ := Prod.mk.inj (Option.some.inj h)
    exact List.suffix_refl _

theorem parmLoop_ends : ∀ {n : ℕ} {m t : Bytes}, parmLoop n m = some t → 0 ∈ m
  | n, c :: m, t, h => by
    unfold parmLoop at h
    split_ifs at h with h0
    · exact h0 ▸ List.mem_cons_self ..
    · exact List.mem_cons_of_mem c (parmLoop_ends h)
    · obtain ⟨t', hrec, -⟩ := Option.map_eq_some_iff.mp h
      exact List.mem_cons_of_mem c (parmLoop_ends hrec)

/-- **An accepted URL** is a scheme and a text with its parts. -/
theorem exists_accepted {szUrl : Bytes} {d d' : UrlDst} (h : zhHttpUrlSplit szUrl d = some (true, d')) :
    ∃ (scheme : Bytes) (u : UrlText) (rest : Bytes), IsScheme scheme ∧ szUrl = scheme ++ (u.text ++ 0 :: rest) := by
  have hrefused : ∀ {b : Bool} {e : UrlDst}, ((strcpy d.dst_host 0 []).bind fun dst_host =>
      (strcpy d.dst_parm 0 []).map fun dst_parm => (false, (⟨dst_host, 0, d.dst_file, dst_parm⟩ : UrlDst))) =
        some (b, e) → b = false := by
    intro b e h
    obtain ⟨_, -, h⟩ := Option.bind_eq_some_iff.mp h
    obtain ⟨_, -, h⟩ := Option.map_eq_some_iff.mp h
    exact (Prod.mk.inj h).1.symm
  unfold zhHttpUrlSplit at h
  obtain ⟨five, hfive, h⟩ := Option.bind_eq_some_iff.mp h
  split_ifs at h with hhttp
  · exact Bool.noConfusion (hrefused h)
  obtain ⟨slashes, htwo, h⟩ := Option.bind_eq_some_iff.mp h
  split_ifs at h with hslashes
  · obtain ⟨⟨host, m1⟩, hcopy, h⟩ := Option.bind_eq_some_iff.mp h
    obtain ⟨_, -, h⟩ := Option.bind_eq_some_iff.mp h
    obtain ⟨⟨port, m2⟩, hport, h⟩ := Option.bind_eq_some_iff.mp h
    obtain ⟨⟨file, m3⟩, hfile, h⟩ := Option.bind_eq_some_iff.mp h
    obtain ⟨_, -, h⟩ := Option.bind_eq_some_iff.mp h
    obtain ⟨parm, hparm, -⟩ := Option.bind_eq_some_iff.mp h
    have hmem : 0 ∈ szUrl.drop 7 := by
      rw [copyUntil_eq_some hcopy]
      refine List.mem_append_right _ ((splitPort_suffix hport).subset ?_)
      rw [copyUntil_eq_some hfile]
      exact List.mem_append_right _ (parmLoop_ends hparm)
    obtain ⟨s, rest, hs, hs0⟩ := List.eq_append_cons_of_mem hmem
    obtain ⟨u, rfl⟩ := exists_urlText hs0
    refine ⟨szUrl.take 7, u, rest, ?_, by rw [← hs, List.take_append_drop]⟩
    have h7 : szUrl.take 7 = ascii "http:" ++ slashes := by
      rw [show 7 = 5 + 2 from rfl, List.take_add, ← (load_eq_some htwo).2, ← not_not.mp hhttp, (load_eq_some hfive).2,
        List.drop_zero]
    rcases hslashes with rfl | rfl
    · exact Or.inl h7
    · exact Or.inr h7
  · exact Bool.noConfusion (hrefused h)

/-! ### URLs with a decimal port -/

/-- A port in decimal. -/
theorem atoi_decimal {ds : Bytes} (hd : ∀ c ∈ ds, isdigit c = true) (hlt : decimal 0 ds < 2 ^ 31) :
    atoi ds = decimal 0 ds := by
  have hspace : ∀ c ∈ ds, isspace c = false ∧ c ≠ 45 ∧ c ≠ 43 := by
    have hall : ∀ c : UInt8, isdigit c = true → isspace c = false ∧ c ≠ 45 ∧ c ≠ 43 :=
      forall_byte (by decide +kernel)
    exact fun c hc => hall c (hd c hc)
  cases ds with
  | nil => rfl
  | cons c ds =>
    obtain ⟨hsp, h45, h43⟩ := hspace c (List.mem_cons_self ..)
    unfold atoi
    rw [List.dropWhile_cons_of_neg (by simp [hsp])]
    dsimp only
    rw [if_neg h45, if_neg h43]
    omega

/-- The parts fit their buffers, `buf[32]` and the `int` of the port included. -/
structure UrlText.Fits (u : UrlText) (d : UrlDst) : Prop where
  host : u.host.length < d.dst_host.length
  port : ∀ ds ∈ u.port, ds.length < 32 ∧ decimal 0 ds < 2 ^ 31
  file : u.file.length < d.dst_file.length
  parm : (u.query.getD []).length < d.dst_parm.length

/-- **Splitting undoes printing**: a URL whose port is in decimal and whose parts fit. -/
theorem zhHttpUrlSplit_text {scheme : Bytes} (hs : IsScheme scheme) (u : UrlText)
    (hport : ∀ ds ∈ u.port, ∀ c ∈ ds, isdigit c = true) (rest : Bytes) {d : UrlDst} (hfit : u.Fits d) :
    ∃ d', zhHttpUrlSplit (scheme ++ (u.text ++ 0 :: rest)) d = some (true, d') ∧
      cstr d'.dst_host = some u.host ∧ d'.dst_port = (u.port.map (decimal 0)).getD 80 ∧
      cstr d'.dst_file = some u.file ∧ cstr d'.dst_parm = some (u.query.getD []) := by
  obtain ⟨dst_host, hh, hhost⟩ := exists_strcpy u.host_noNul hfit.host
  obtain ⟨dst_file, hf, hfile⟩ := exists_strcpy u.file_noNul hfit.file
  obtain ⟨dst_parm, hp, hparm⟩ := exists_strcpy u.parm_noNul hfit.parm
  have hvalue : portValue u.port = some (((u.port.map (decimal 0)).getD 80 : ℕ) : ℤ) := by
    cases hq : u.port with
    | none => rfl
    | some ds =>
      obtain ⟨hlt, hint⟩ := hfit.port ds hq
      rw [portValue, if_pos hlt, atoi_decimal (hport ds hq) hint]
      rfl
  refine ⟨⟨dst_host, _, dst_file, dst_parm⟩, ?_, hhost, rfl, hfile, hparm⟩
  rw [zhHttpUrlSplit_eq hs, hh, Option.bind_some, hvalue, Option.bind_some, hf, Option.bind_some, hp]
  rfl

/-- `a.cn:88/ddd?q=1?2` -/
def portUrl : UrlText where
  host := ascii "a.cn"
  port := some (ascii "88")
  file := ascii "/ddd"
  query := some (ascii "q=1?2")
  host_plain := by decide +kernel
  port_plain := by decide +kernel
  file_start := Or.inr ⟨47, ascii "ddd", rfl, Or.inl rfl⟩
  file_plain := by decide +kernel
  query_noNul := by decide +kernel

theorem portUrl_fits : portUrl.Fits ⟨List.replicate 512 0, 0, List.replicate 512 0, List.replicate 1024 0⟩ where
  host := by decide +kernel
  port := by decide +kernel
  file := by decide +kernel
  parm := by decide +kernel

theorem zhHttpUrlSplit_text_port :
    ∃ d', zhHttpUrlSplit (ascii "http://" ++ (portUrl.text ++ 0 :: []))
        ⟨List.replicate 512 0, 0, List.replicate 512 0, List.replicate 1024 0⟩ = some (true, d') ∧
      cstr d'.dst_host = some (ascii "a.cn") ∧ d'.dst_port = 88 ∧ cstr d'.dst_file = some (ascii "/ddd") ∧
      cstr d'.dst_parm = some (ascii "q=1?2") :=
  zhHttpUrlSplit_text (Or.inl rfl) portUrl (by decide +kernel) [] portUrl_fits

end Esp32Base
