import Esp32Base.Lib.Greedy
import Esp32Base.Http.Match
import Esp32Base.WebSock.Handshake

/-!
# Http.Extract — the text behind a pattern (http_serv.c, websocket.c)

`zhMatchString` and `zhWebSockMatchString` are two copies of one matcher, which does not go back after a failed
attempt.

* `matchLoop_scan`: what is copied, by the occurrence at which the matcher arrives.
* `extract_iff`: when both copies give the text behind the first occurrence.
-/

namespace Esp32Base

open Lib Lib.Buf Lib.CText Lib.Greedy

section Extract

variable (pattern : Bytes) (end_ : UInt8)

/-- The text up to a line end or the end character. -/
def cutText (post : Bytes) : Bytes := post.takeWhile fun c => ¬ EndsCopy end_ c

/-- The text behind the first occurrence of the pattern; empty without an occurrence. -/
def extracted (src : Bytes) : Bytes :=
  match strstr pattern src with
  | none => []
  | some s => cutText end_ (s.drop pattern.length)

/-- What is promised of both matchers, for the string of `m`. -/
def Extracts (m src dstBuf : Bytes) : Prop :=
  (∃ dst, zhMatchString m pattern end_ dstBuf = some dst ∧ cstr dst = some (extracted pattern end_ src)) ∧
    zhWebSockMatchString src pattern end_ =
      some (if extracted pattern end_ src = [] then none else some (extracted pattern end_ src))

/-- The matcher arrives at an occurrence, the first one or another behind which the same text stands; or it arrives at
none, and there is none or no text behind the first. -/
def ArrivesRight (src : Bytes) : Prop :=
  (∃ pre post, Reached pattern pre ∧ src = pre ++ (pattern ++ post) ∧
    cutText end_ post = extracted pattern end_ src) ∨
  ((∀ pre post, Reached pattern pre → src ≠ pre ++ (pattern ++ post)) ∧ extracted pattern end_ src = [])

variable {pattern} {end_}

/-- Characters of the pattern, from any of its positions on. -/
theorem matchLoop_take (q t s : Bytes) : ∀ front : Bytes, pattern = front ++ (q ++ t) →
    matchLoop pattern end_ front.length (q ++ s) = matchLoop pattern end_ (front.length + q.length) s := by
  induction q with
  | nil => exact fun _ _ => rfl
  | cons c q ih =>
    intro front hpat
    have hlen : front.length < pattern.length := by
      rw [hpat]
      simp
    have hget : pattern[front.length]? = some c := by
      rw [hpat, List.getElem?_append_right (le_refl _), Nat.sub_self]
      rfl
    have hrec := ih (front ++ [c]) (by rw [hpat]; simp)
    rw [List.length_append, List.length_singleton] at hrec
    rw [List.cons_append, matchLoop, if_neg (by omega), if_pos hlen, if_pos hget, hrec, List.length_cons,
      Nat.add_assoc, Nat.add_comm 1]

/-- A failed attempt copies nothing. -/
theorem matchLoop_block {b : Bytes} (hb : Block pattern b) (s : Bytes) :
    matchLoop pattern end_ 0 (b ++ s) = matchLoop pattern end_ 0 s := by
  obtain ⟨k, c, hk, hc, rfl⟩ := hb
  have htake := @matchLoop_take pattern end_ (pattern.take k) (pattern.drop k) ([c] ++ s) []
    (List.take_append_drop k pattern).symm
  rw [List.length_nil, Nat.zero_add, List.length_take, Nat.min_eq_left (Nat.le_of_lt hk)] at htake
  rw [List.append_assoc, htake, List.singleton_append, matchLoop, if_neg (by omega), if_pos hk, if_neg hc]

theorem matchLoop_reached {pre : Bytes} (hpre : Reached pattern pre) (s : Bytes) :
    matchLoop pattern end_ 0 (pre ++ s) = matchLoop pattern end_ 0 s := by
  induction hpre using Reached.induction with
  | nil => rfl
  | cons b pre hb _ ih => rw [List.append_assoc, matchLoop_block hb, ih]

/-- Behind the pattern the text is copied up to its end. -/
theorem matchLoop_cut (post : Bytes) : matchLoop pattern end_ pattern.length post = cutText end_ post := by
  have hcopy := @matchLoop_copies pattern end_ (post.takeWhile fun c => ¬ EndsCopy end_ c)
    (post.dropWhile fun c => ¬ EndsCopy end_ c) (fun c hc => by simpa using List.mem_takeWhile_imp hc)
    (fun c hc => by
      have hend := List.head?_dropWhile_not (fun c => decide (¬ EndsCopy end_ c)) post
      rw [hc] at hend
      simpa using hend)
  rwa [List.takeWhile_append_dropWhile] at hcopy

/-- **What is copied** behind an occurrence at which the matcher arrives. -/
theorem matchLoop_found {pre : Bytes} (hpre : Reached pattern pre) (post : Bytes) :
    matchLoop pattern end_ 0 (pre ++ (pattern ++ post)) = cutText end_ post := by
  have hself := matchLoop_self pattern end_ post pattern.length 0 (Nat.zero_add _)
  rw [List.drop_zero] at hself
  rw [matchLoop_reached hpre, hself, matchLoop_cut]

/-- **What is copied** when the text ends in an attempt: nothing. -/
theorem matchLoop_ends {pre : Bytes} (hpre : Reached pattern pre) (k : ℕ) :
    matchLoop pattern end_ 0 (pre ++ pattern.take k) = [] := by
  have htake := @matchLoop_take pattern end_ (pattern.take k) (pattern.drop k) [] []
    (List.take_append_drop k pattern).symm
  rw [List.append_nil] at htake
  rw [matchLoop_reached hpre]
  exact htake

/-- The matcher copies the text behind the first occurrence exactly when it arrives right. -/
theorem matchLoop_eq_iff (src : Bytes) :
    matchLoop pattern end_ 0 src = extracted pattern end_ src ↔ ArrivesRight pattern end_ src := by
  constructor
  · intro h
    rcases scan_cases pattern src with ⟨pre, post, hpre, hsrc⟩ | ⟨pre, k, hpre, -, hsrc⟩
    · refine Or.inl ⟨pre, post, hpre, hsrc, ?_⟩
      rw [← h, hsrc, matchLoop_found hpre]
    · by_cases hany : ∃ pre' post', Reached pattern pre' ∧ src = pre' ++ (pattern ++ post')
      · obtain ⟨pre', post', hpre', hsrc'⟩ := hany
        refine Or.inl ⟨pre', post', hpre', hsrc', ?_⟩
        rw [← h, hsrc', matchLoop_found hpre']
      · refine Or.inr ⟨fun pre' post' hpre' hsrc' => hany ⟨pre', post', hpre', hsrc'⟩, ?_⟩
        rw [← h, hsrc, matchLoop_ends hpre k]
  · rintro (⟨pre, post, hpre, hsrc, hcut⟩ | ⟨hno, hempty⟩)
    · rw [← hcut, hsrc, matchLoop_found hpre]
    · rcases scan_cases pattern src with ⟨pre, post, hpre, hsrc⟩ | ⟨pre, k, hpre, -, hsrc⟩
      · exact absurd hsrc (hno pre post hpre)
      · rw [hempty, hsrc, matchLoop_ends hpre k]

/-- The spec's text is part of the source text. -/
theorem extracted_noNul {src : Bytes} (h0 : 0 ∉ src) : 0 ∉ extracted pattern end_ src := by
  unfold extracted
  split
  · exact List.not_mem_nil
  · next s hs =>
    intro hmem
    exact h0 ((strstr_eq_some hs).2.subset (List.mem_of_mem_drop ((List.takeWhile_prefix _).subset hmem)))

end Extract

/-- **Both matchers give the text behind the first occurrence** exactly when the matcher arrives right. -/
theorem extract_iff (m src pattern dstBuf : Bytes) (end_ : UInt8) (hm : cstr m = some src)
    (hresult : (extracted pattern end_ src).length ≤ 1023)
    (hdst : (extracted pattern end_ src).length < dstBuf.length) :
    Extracts pattern end_ m src dstBuf ↔ ArrivesRight pattern end_ src := by
  obtain ⟨-, -, h0⟩ := cstr_eq_some.mp hm
  rw [← matchLoop_eq_iff]
  constructor
  · rintro ⟨⟨dst, hcopy, hdst⟩, -⟩
    rw [zhMatchString, hm, Option.bind_some] at hcopy
    exact Option.some.inj ((cstr_strcpy (matchLoop_noNul pattern end_ 0 h0) hcopy).symm.trans hdst)
  · intro heq
    obtain ⟨dst, hcopy, hstr⟩ := exists_strcpy (extracted_noNul h0) hdst
    refine ⟨⟨dst, ?_, hstr⟩, ?_⟩
    · rw [zhMatchString, hm, Option.bind_some, heq, hcopy]
    · rw [zhWebSockMatchString, heq, if_neg (by omega)]

theorem extract_host : Extracts (ascii "Host:") 0 (ascii "\nHost:a\r\n" ++ [0]) (ascii "\nHost:a\r\n")
    (List.replicate 64 0) :=
  (extract_iff (ascii "\nHost:a\r\n" ++ [0]) (ascii "\nHost:a\r\n") (ascii "Host:") (List.replicate 64 0) 0
    (by decide +kernel) (by decide +kernel) (by decide +kernel)).mpr
    (Or.inl ⟨[10], ascii "a\r\n", ⟨[[10]], by simpa using ⟨0, 10, by decide +kernel, by decide +kernel, rfl⟩, rfl⟩,
      rfl, by decide +kernel⟩)

/-- The second `H` ends the first attempt. -/
theorem extract_misses : ¬ Extracts (ascii "Host:") 0 (ascii "HHost:a" ++ [0]) (ascii "HHost:a")
    (List.replicate 64 0) := by
  rintro ⟨-, hsock⟩
  exact absurd hsock (by decide +kernel)

end Esp32Base
