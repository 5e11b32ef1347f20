import Esp32Base.Lib.CText
import Esp32Base.Lib.Framer

/-!
# Http.Recv — receiving a response (zhHttp.c)

The receive part of `_zhHttpThread_Data`: the header is collected in `cache_buf` until its blank line is
found, what follows it is passed on, and from then on every `recv` is passed on as it comes.

* `recv_split_iff`: exactly which splits of a response are received as the whole body, once.
-/

namespace Esp32Base

open Lib Lib.Buf Lib.CText

/-! ## The header value -/

/-- Up to the colon, or to the end of the line. -/
def skipToColon : Bytes → Bytes
  | [] => []
  | c :: t => if c = 58 ∨ c = 10 ∨ c = 13 ∧ t.head? = some 10 then c :: t else skipToColon t

/-- What is left of the line. -/
def restOfLine : Bytes → Bytes
  | [] => []
  | c :: t => if c = 10 ∨ c = 13 ∧ t.head? = some 10 then [] else c :: restOfLine t

/-- The text of the value behind an occurrence of the name. -/
def protocolText (pSearch : Bytes) : Bytes :=
  let s := skipToColon pSearch
  let s := if s.head? = some 58 then s.tail else s
  restOfLine (s.dropWhile (· = 32))

/-- `value` after the call. -/
def zhHttpGetProtocolValue (buf name value : Bytes) : Option Bytes :=
  (cstr buf).bind fun text =>
    match strstr name text with
    | none => some value
    | some pSearch => strcpy value 0 (protocolText pSearch)

/-! ## The receive loops -/

/-- A result of `zhSockRecv`. -/
inductive RecvRes
  | data (b : Bytes)
  | zero
  | err

/-- The operations reported through `pfCallback` from here on. -/
inductive EzhHttpOperat
  | getData (data : Bytes)
  | finish
  | recviceFail
  deriving DecidableEq

/-- `doc_total_len` for the header in `cache_buf`. -/
def docTotalLen (cache_buf : Bytes) : Option ℤ :=
  (zhHttpGetProtocolValue cache_buf (ascii "Content-Length") (List.replicate 32 0)).bind fun value =>
    (cstr value).map atoi

/-- The loop over the body: what is reported, and whether the loop has ended. -/
def recvData (doc_total_len : ℤ) : ℕ → List RecvRes → Option (List EzhHttpOperat × Bool)
  | _, [] => some ([], false)
  | recv_total_len, .data recv_buf :: rs =>
    if 2047 < recv_buf.length ∨ 2 ^ 31 ≤ recv_total_len + recv_buf.length then none
    else if 0 < doc_total_len ∧ doc_total_len ≤ (recv_total_len + recv_buf.length : ℕ) then
      some ([.getData recv_buf, .finish], true)
    else
      (recvData doc_total_len (recv_total_len + recv_buf.length) rs).map fun r =>
        (.getData recv_buf :: r.1, r.2)
  | recv_total_len, .zero :: rs =>
    if 0 < doc_total_len ∧ doc_total_len ≤ recv_total_len then some ([.finish], true)
    else recvData doc_total_len recv_total_len rs
  | _, .err :: _ => some ([.finish], true)

/-- At `_data_ok`: the part of the body that came with the header, then the loop. -/
def dataOk (cache_buf : Bytes) (cache_len search_len : ℕ) (rs : List RecvRes) :
    Option (List EzhHttpOperat × Bool) :=
  (docTotalLen cache_buf).bind fun doc_total_len =>
    if 0 < cache_len - search_len then
      (load cache_buf search_len (cache_len - search_len)).bind fun data =>
        (recvData doc_total_len (cache_len - search_len) rs).map fun r => (.getData data :: r.1, r.2)
    else recvData doc_total_len 0 rs

/-- The blank line at the front of the text, in either form. -/
def blankLine (t : Bytes) : Option ℕ :=
  if [13, 10, 13, 10].isPrefixOf t then some 4 else if [10, 10].isPrefixOf t then some 2 else none

/-- The search from `pSearch` on: `search_len` behind the blank line when there is one before the NUL.
The character under `pSearch` is stepped over before the first comparison. -/
def searchBlank : Bytes → ℕ → Option (Option ℕ)
  | [], _ => none
  | c :: pSearch, search_len =>
    if c = 0 then some none
    else
      match blankLine pSearch with
      | some k => some (some (search_len + 1 + k))
      | none => searchBlank pSearch (search_len + 1)

/-- The loop over the header, `cache_len` bytes of which are in `cache_buf`. -/
def recvHeader : Bytes → ℕ → List RecvRes → Option (List EzhHttpOperat × Bool)
  | _, _, [] => some ([], false)
  | cache_buf, cache_len, .data recv_buf :: rs =>
    if 2048 < recv_buf.length then none
    else if 2050 ≤ cache_len + recv_buf.length then some ([.recviceFail], true)
    else
      (store cache_buf cache_len recv_buf).bind fun cache_buf =>
        (searchBlank cache_buf 0).bind fun found =>
          match found with
          | some search_len => dataOk cache_buf (cache_len + recv_buf.length) search_len rs
          | none => recvHeader cache_buf (cache_len + recv_buf.length) rs
  | cache_buf, cache_len, .zero :: rs => recvHeader cache_buf cache_len rs
  | _, _, .err :: _ => some ([.finish], true)

/-- From the request on, with `cache_buf` cleared. -/
def recvResponse (rs : List RecvRes) : Option (List EzhHttpOperat × Bool) :=
  recvHeader (List.replicate 2050 0) 0 rs

/-! ## What is reported -/

/-- The data of the `ezhHttpOperatGetData` callbacks, concatenated. -/
def bodyOf (events : List EzhHttpOperat) : Bytes :=
  events.flatMap fun e =>
    match e with
    | .getData b => b
    | _ => []

/-- The loops have ended, `b` was passed on, the end was reported once and no failure was. -/
def Whole (r : Option (List EzhHttpOperat × Bool)) (b : Bytes) : Prop :=
  ∃ events, r = some (events, true) ∧ bodyOf events = b ∧ events.count .finish = 1 ∧
    .recviceFail ∉ events

theorem Whole.cons {r : Option (List EzhHttpOperat × Bool)} {c b : Bytes} :
    Whole (r.map fun q => (.getData c :: q.1, q.2)) (c ++ b) ↔ Whole r b := by
  constructor
  · rintro ⟨events, h, hb, hf, hno⟩
    obtain ⟨⟨ev, ok⟩, rfl, heq⟩ := Option.map_eq_some_iff.mp h
    obtain ⟨rfl, rfl⟩ := Prod.mk.inj heq
    refine ⟨ev, rfl, List.append_cancel_left hb, ?_, fun h => hno (List.mem_cons_of_mem _ h)⟩
    rwa [List.count_cons_of_ne (by simp)] at hf
  · rintro ⟨events, rfl, hb, hf, hno⟩
    refine ⟨.getData c :: events, rfl, ?_, ?_, ?_⟩
    · rw [← hb]
      rfl
    · rwa [List.count_cons_of_ne (by simp)]
    · rw [List.mem_cons, not_or]
      exact ⟨by simp, hno⟩

theorem whole_finish : Whole (some ([.finish], true)) [] :=
  ⟨_, rfl, rfl, rfl, by simp⟩

/-! ## The body -/

/-- The results once all bytes are delivered: 0 or -1. -/
def Delivered (tail : ℕ → RecvRes) : Prop := ∀ n, tail n = .zero ∨ tail n = .err

theorem recvData_tail {D : ℤ} {t : ℕ} : ∀ {rs : List RecvRes}, (∀ r ∈ rs, r = .zero ∨ r = .err) →
    (((rs ≠ [] ∧ 0 < D ∧ D ≤ t) ∨ .err ∈ rs) ∧ recvData D t rs = some ([.finish], true)) ∨
      (¬ ((rs ≠ [] ∧ 0 < D ∧ D ≤ t) ∨ .err ∈ rs) ∧ recvData D t rs = some ([], false))
  | [], _ => Or.inr ⟨by simp, rfl⟩
  | r :: rs, h => by
    rcases h r (List.mem_cons_self ..) with rfl | rfl
    · by_cases hD : 0 < D ∧ D ≤ t
      · exact Or.inl ⟨Or.inl ⟨by simp, hD⟩, by rw [recvData, if_pos hD]⟩
      · rw [recvData, if_neg hD]
        rcases recvData_tail (fun r' h' => h r' (List.mem_cons_of_mem _ h')) with ⟨hc, hr⟩ | ⟨hc, hr⟩
        · refine Or.inl ⟨Or.inr ?_, hr⟩
          rcases hc with ⟨-, hD'⟩ | hc
          · exact absurd hD' hD
          · exact List.mem_cons_of_mem _ hc
        · refine Or.inr ⟨?_, hr⟩
          rintro (⟨-, hD'⟩ | hc')
          · exact hD hD'
          · rcases List.mem_cons.mp hc' with hc' | hc'
            · cases hc'
            · exact hc (Or.inr hc')
    · exact Or.inl ⟨Or.inr (List.mem_cons_self ..), rfl⟩

/-- The loop with all chunks behind it. -/
theorem recvData_whole_nil (D : ℤ) {tail : ℕ → RecvRes} (htail : Delivered tail) (t : ℕ) :
    (∃ m, Whole (recvData D t ((List.range m).map tail)) []) ↔ 0 < D ∧ D ≤ t ∨ ∃ n, tail n = .err := by
  have hmem : ∀ {m : ℕ}, ∀ r ∈ (List.range m).map tail, r = .zero ∨ r = .err := by
    intro m r hr
    obtain ⟨n, -, rfl⟩ := List.mem_map.mp hr
    exact htail n
  constructor
  · rintro ⟨m, events, hr, -⟩
    rcases recvData_tail (D := D) (t := t) (hmem (m := m)) with ⟨hc, -⟩ | ⟨-, hr'⟩
    · rcases hc with ⟨-, hD⟩ | hc
      · exact Or.inl hD
      · obtain ⟨n, -, hn⟩ := List.mem_map.mp hc
        exact Or.inr ⟨n, hn⟩
    · rw [hr'] at hr
      cases hr
  · intro h
    -- one more result is enough for the first reason, the break itself for the second
    have hfin : ∃ m, ((List.range m).map tail ≠ [] ∧ 0 < D ∧ D ≤ t) ∨ .err ∈ (List.range m).map tail := by
      rcases h with hD | ⟨n, hn⟩
      · exact ⟨1, Or.inl ⟨by simp, hD⟩⟩
      · exact ⟨n + 1, Or.inr (List.mem_map.mpr ⟨n, List.mem_range.mpr (Nat.lt_succ_self n), hn⟩)⟩
    obtain ⟨m, hm⟩ := hfin
    refine ⟨m, ?_⟩
    rcases recvData_tail (D := D) (t := t) (hmem (m := m)) with ⟨-, hr⟩ | ⟨hc, -⟩
    · rw [hr]
      exact whole_finish
    · exact absurd hm hc

/-- A chunk that reaches the announced length has to be the last one. -/
theorem recvData_whole_last {D : ℤ} {t : ℕ} {c : Bytes} {s : List Bytes} (rs : List RecvRes)
    (hc : c.length ≤ 2047) (hs : ∀ c' ∈ s, 1 ≤ c'.length) (hov : t + c.length < 2 ^ 31)
    (hD : 0 < D ∧ D ≤ (t + c.length : ℕ)) :
    Whole (recvData D t (.data c :: rs)) (c ++ s.flatten) ↔ s = [] := by
  rw [recvData, if_neg (by omega), if_pos hD]
  constructor
  · rintro ⟨events, hr, hb, -⟩
    obtain ⟨rfl, -⟩ := Prod.mk.inj (Option.some.inj hr)
    have hnil : [] = s.flatten := List.append_cancel_left (show c ++ [] = c ++ s.flatten from hb)
    cases s with
    | nil => rfl
    | cons c' s =>
      have := hs c' (List.mem_cons_self ..)
      have hl := congrArg List.length hnil
      rw [List.flatten_cons, List.length_append, List.length_nil] at hl
      omega
  · rintro rfl
    exact ⟨[.getData c, .finish], rfl, rfl, rfl, by simp⟩

/-- No total before the last one reaches the announced length: the first chunk, and the others. -/
theorem noneEarly_cons {D : ℤ} {t : ℕ} {c : Bytes} {s : List Bytes} :
    (∀ p d s', c :: s = p ++ d :: s' → s' ≠ [] → ¬ (0 < D ∧ D ≤ (t + (p ++ [d]).flatten.length : ℕ))) ↔
      (s ≠ [] → ¬ (0 < D ∧ D ≤ (t + c.length : ℕ))) ∧
      ∀ p d s', s = p ++ d :: s' → s' ≠ [] →
        ¬ (0 < D ∧ D ≤ (t + c.length + (p ++ [d]).flatten.length : ℕ)) := by
  have hone : ([] ++ [c]).flatten.length = c.length := by simp
  constructor
  · intro h
    refine ⟨fun hne => hone ▸ h [] c s rfl hne, fun p d s' heq hs' => ?_⟩
    have := h (c :: p) d s' (by rw [heq]; rfl) hs'
    rwa [List.cons_append, List.flatten_cons, List.length_append, ← Nat.add_assoc] at this
  · rintro ⟨h1, h2⟩ p d s' heq hs'
    cases p with
    | nil =>
      obtain ⟨rfl, rfl⟩ := List.cons.inj heq
      rw [hone]
      exact h1 hs'
    | cons a p =>
      obtain ⟨rfl, hrest⟩ := List.cons.inj heq
      have := h2 p d s' hrest hs'
      rwa [Nat.add_assoc, ← List.length_append, ← List.flatten_cons, ← List.cons_append] at this

/-- **The loop over the body**, from `t` bytes on: it passes on all the chunks exactly when no total
reaches the announced length before the last chunk, and the end is reported when the announced length
is reached in the end, or else when the connection breaks. -/
theorem recvData_whole (D : ℤ) {tail : ℕ → RecvRes} (htail : Delivered tail) :
    ∀ (s : List Bytes) (t : ℕ), (∀ c ∈ s, 1 ≤ c.length ∧ c.length ≤ 2047) →
      ((∃ m, Whole (recvData D t (s.map .data ++ (List.range m).map tail)) s.flatten) ↔
        (s ≠ [] → t + s.flatten.length < 2 ^ 31) ∧
        (∀ p c s', s = p ++ c :: s' → s' ≠ [] → ¬ (0 < D ∧ D ≤ (t + (p ++ [c]).flatten.length : ℕ))) ∧
        (0 < D ∧ D ≤ (t + s.flatten.length : ℕ) ∨ ∃ n, tail n = .err))
  | [], t, _ => by
    refine (recvData_whole_nil D htail t).trans ⟨fun h => ⟨fun h' => absurd rfl h', ?_, h⟩, fun h => h.2.2⟩
    intro p c s' h
    exact absurd h (by simp)
  | c :: s, t, hsize => by
    have hc := hsize c (List.mem_cons_self ..)
    have hs : ∀ c' ∈ s, 1 ≤ c'.length ∧ c'.length ≤ 2047 := fun c' h' => hsize c' (List.mem_cons_of_mem _ h')
    rw [noneEarly_cons, List.map_cons, List.flatten_cons, List.length_append, ← Nat.add_assoc]
    by_cases hov : 2 ^ 31 ≤ t + c.length
    · -- the total overflows
      constructor
      · rintro ⟨m, events, hr, -⟩
        rw [List.cons_append, recvData, if_pos (Or.inr hov)] at hr
        cases hr
      · rintro ⟨h, -, -⟩
        have := h (by simp)
        omega
    by_cases hD : 0 < D ∧ D ≤ (t + c.length : ℕ)
    · have hlast := fun m => recvData_whole_last (s.map .data ++ (List.range m).map tail) hc.2
        (fun c' h' => (hs c' h').1) (not_le.mp hov) hD
      constructor
      · rintro ⟨m, h⟩
        obtain rfl := (hlast m).mp h
        refine ⟨fun _ => ?_, ⟨fun h' => absurd rfl h', fun p d s' h' => absurd h' (by simp)⟩, Or.inl hD⟩
        rw [List.flatten_nil, List.length_nil]
        omega
      · rintro ⟨-, ⟨h, -⟩, -⟩
        have hnil : s = [] := by
          by_contra hne
          exact h hne hD
        exact ⟨0, (hlast 0).mpr hnil⟩
    · have hstep : ∀ m, Whole (recvData D t (.data c :: s.map .data ++ (List.range m).map tail))
          (c ++ s.flatten) ↔
          Whole (recvData D (t + c.length) (s.map .data ++ (List.range m).map tail)) s.flatten := by
        intro m
        rw [List.cons_append, recvData, if_neg (by omega), if_neg hD]
        exact Whole.cons
      rw [exists_congr hstep, recvData_whole D htail s (t + c.length) hs]
      refine and_congr ⟨fun h _ => ?_, fun h _ => h (by simp)⟩ (and_congr ?_ Iff.rfl)
      · by_cases hnil : s = []
        · rw [hnil, List.flatten_nil, List.length_nil]
          omega
        · exact h hnil
      · exact ⟨fun h => ⟨fun _ => hD, h⟩, fun h => h.2⟩

/-! ## The blank line -/

theorem blankLine_eq_none {t : Bytes} (h4 : ¬ [13, 10, 13, 10] <+: t) (h2 : ¬ [10, 10] <+: t) :
    blankLine t = none := by
  rw [blankLine, if_neg (fun h => h4 (List.isPrefixOf_iff_prefix.mp h)),
    if_neg (fun h => h2 (List.isPrefixOf_iff_prefix.mp h))]

/-- The header ends with a blank line and has none in front of its last byte. -/
structure EndsAtBlank (H : Bytes) : Prop where
  ends : ∃ h, H = h ++ [13, 10, 13, 10] ∨ H = h ++ [10, 10]
  crlf : ¬ [13, 10, 13, 10] <:+: H.dropLast
  lf : ¬ [10, 10] <:+: H.dropLast

theorem EndsAtBlank.split {H : Bytes} (hH : EndsAtBlank H) :
    ∃ h e, (e = [13, 10, 13, 10] ∨ e = [10, 10]) ∧ H = h ++ e := by
  obtain ⟨h, hh | hh⟩ := hH.ends
  · exact ⟨h, _, Or.inl rfl, hh⟩
  · exact ⟨h, _, Or.inr rfl, hh⟩

/-- A pattern that starts at `i` and ends at `k` or before lies in the first `k` bytes. -/
theorem infix_take {pat l : Bytes} {i k : ℕ} (h : pat <+: l.drop i) (hk : i + pat.length ≤ k) :
    pat <:+: l.take k := by
  have hpre : pat <+: (l.take k).drop i := by
    rw [List.drop_take]
    exact List.prefix_take_iff.mpr ⟨h, by omega⟩
  exact hpre.isInfix.trans (List.drop_suffix i _).isInfix

/-- A pattern without NUL does not reach into the zeros behind a text. -/
theorem prefix_drop_zeros {pat x : Bytes} {n i : ℕ} (h0 : 0 ∉ pat)
    (h : pat <+: (x ++ List.replicate n 0).drop i) : pat <+: x.drop i := by
  rw [List.drop_append, List.drop_replicate] at h
  rcases prefix_append_cases h with h | ⟨p', rfl, hp'⟩
  · exact h
  · have hnil : p' = [] := by
      refine List.eq_nil_iff_forall_not_mem.mpr fun b hb => h0 (List.mem_append_right _ ?_)
      rwa [List.eq_of_mem_replicate (hp'.subset hb)] at hb
    exact ⟨[], by rw [hnil, List.append_nil, List.append_nil]⟩

/-- While the header is not complete, there is no blank line anywhere. -/
theorem no_blank_in_part {H x : Bytes} (hH : EndsAtBlank H) (hx : x <+: H) (hlt : x.length < H.length)
    (n i : ℕ) : blankLine ((x ++ List.replicate n 0).drop i) = none := by
  have hpart : x <+: H.dropLast :=
    List.prefix_of_prefix_length_le hx (List.dropLast_prefix H) (by rw [List.length_dropLast]; omega)
  have hno : ∀ pat : Bytes, 0 ∉ pat → pat <+: (x ++ List.replicate n 0).drop i → pat <:+: H.dropLast :=
    fun pat h0 h => (prefix_drop_zeros h0 h).isInfix.trans
      ((List.drop_suffix i x).isInfix.trans hpart.isInfix)
  exact blankLine_eq_none (fun h => hH.crlf (hno _ (by decide) h)) (fun h => hH.lf (hno _ (by decide) h))

/-- Behind a complete header nothing changes in front of its blank line. -/
theorem no_blank_before {H h e : Bytes} (hH : EndsAtBlank H) (he : e = [13, 10, 13, 10] ∨ e = [10, 10])
    (hHe : H = h ++ e) (y : Bytes) {i : ℕ} (hi : i < h.length) :
    blankLine ((h ++ (e ++ y)).drop i) = none := by
  have hlen : H.length = h.length + e.length := by rw [hHe, List.length_append]
  have htake : (h ++ (e ++ y)).take (H.length - 1) = H.dropLast := by
    rw [← List.append_assoc, ← hHe, List.dropLast_eq_take, List.take_append_of_le_length (by omega)]
  have hin : ∀ pat : Bytes, pat <+: (h ++ (e ++ y)).drop i → i + pat.length ≤ H.length - 1 →
      pat <:+: H.dropLast := by
    intro pat hpat hle
    rw [← htake]
    exact infix_take hpat hle
  have helen : e.length = 4 ∨ e = [10, 10] := by
    rcases he with rfl | rfl
    · exact Or.inl rfl
    · exact Or.inr rfl
  refine blankLine_eq_none (fun hp => ?_) (fun hp => hH.lf (hin _ hp ?_))
  · by_cases hle : i + 4 ≤ H.length - 1
    · exact hH.crlf (hin _ hp hle)
    · -- the pattern would need a CR where the header ends in two LF
      rcases helen with h4 | rfl
      · omega
      · have hget : ((h ++ ([10, 10] ++ y)).drop i)[2]? = some 13 := by
          obtain ⟨t, ht⟩ := hp
          rw [← ht]
          rfl
        rw [List.length_cons, List.length_singleton] at hlen
        rw [List.getElem?_drop, List.getElem?_append_right (by omega)] at hget
        have hj : i + 2 - h.length = 0 ∨ i + 2 - h.length = 1 := by omega
        rcases hj with hj | hj <;> rw [hj] at hget <;> cases hget
  · rcases helen with h4 | rfl
    · simp only [List.length_cons, List.length_nil]
      omega
    · simp only [List.length_cons, List.length_nil] at hlen ⊢
      omega

theorem searchBlank_none : ∀ (u z : Bytes) (n : ℕ), 0 ∉ u →
    (∀ i, i ≤ u.length → blankLine ((u ++ 0 :: z).drop i) = none) → searchBlank (u ++ 0 :: z) n = some none
  | [], z, n, _, _ => by rw [List.nil_append, searchBlank, if_pos rfl]
  | c :: u, z, n, h0, hno => by
    rw [List.mem_cons, not_or] at h0
    have h1 : blankLine (u ++ 0 :: z) = none := hno 1 (by rw [List.length_cons]; omega)
    rw [List.cons_append, searchBlank, if_neg (fun h => h0.1 h.symm), h1]
    exact searchBlank_none u z (n + 1) h0.2 fun i hi => hno (i + 1) (by rw [List.length_cons]; omega)

theorem searchBlank_found : ∀ (u v : Bytes) (n : ℕ) {k : ℕ}, u ≠ [] → 0 ∉ u → blankLine v = some k →
    (∀ i, i < u.length → blankLine ((u ++ v).drop i) = none) →
    searchBlank (u ++ v) n = some (some (n + u.length + k))
  | [], _, _, _, hne, _, _, _ => absurd rfl hne
  | [c], v, n, k, _, h0, hv, _ => by
    rw [List.mem_singleton] at h0
    rw [List.cons_append, List.nil_append, searchBlank, if_neg (fun h => h0 h.symm), hv]
    rfl
  | c :: d :: u, v, n, k, _, h0, hv, hno => by
    rw [List.mem_cons, not_or] at h0
    have h1 : blankLine (d :: u ++ v) = none := hno 1 (by rw [List.length_cons, List.length_cons]; omega)
    rw [List.cons_append, searchBlank, if_neg (fun h => h0.1 h.symm), h1]
    have := searchBlank_found (d :: u) v (n + 1) (by simp) h0.2 hv
      (fun i hi => hno (i + 1) (by rw [List.length_cons]; omega))
    have hlen : n + 1 + (d :: u).length + k = n + (c :: d :: u).length + k := by
      simp only [List.length_cons]
      omega
    rw [this, hlen]

/-! ## The header -/

/-- `cache_buf` with the bytes `x` received. -/
def cacheOf (x : Bytes) : Bytes := x ++ List.replicate (2050 - x.length) 0

theorem store_cacheOf {x c : Bytes} (h : x.length + c.length ≤ 2050) :
    store (cacheOf x) x.length c = some (cacheOf (x ++ c)) := by
  unfold cacheOf
  rw [store_append (by rw [List.length_replicate]; omega), List.drop_replicate, List.length_append,
    Nat.sub_sub]

/-- The text in front of the first NUL of the cache. -/
theorem cacheOf_text {x : Bytes} (hx : x.length < 2050) :
    ∃ u z, cacheOf x = u ++ 0 :: z ∧ 0 ∉ u ∧ u.length ≤ x.length := by
  have hmem : (0 : UInt8) ∈ cacheOf x :=
    List.mem_append_right _ (List.mem_replicate.mpr ⟨by omega, rfl⟩)
  obtain ⟨u, z, hu, h0⟩ := List.eq_append_cons_of_mem hmem
  refine ⟨u, z, hu, h0, ?_⟩
  by_contra hlt
  have hget : u[x.length]? = some 0 := by
    have h1 : (cacheOf x)[x.length]? = some 0 := by
      unfold cacheOf
      rw [List.getElem?_append_right le_rfl, Nat.sub_self, List.getElem?_replicate, if_pos (by omega)]
    rwa [hu, List.getElem?_append_left (by omega)] at h1
  exact h0 (List.mem_of_getElem? hget)

/-- One `recv` that leaves the cache with the bytes `x`. -/
theorem recvHeader_data {q c x : Bytes} (hx : q ++ c = x) (hc : c.length ≤ 2048) (hlt : x.length < 2050)
    (rs : List RecvRes) : recvHeader (cacheOf q) q.length (.data c :: rs) =
      (searchBlank (cacheOf x) 0).bind fun found =>
        match found with
        | some search_len => dataOk (cacheOf x) x.length search_len rs
        | none => recvHeader (cacheOf x) x.length rs := by
  have hlen : q.length + c.length = x.length := by rw [← hx, List.length_append]
  rw [recvHeader, if_neg (by omega), if_neg (by omega), store_cacheOf (by omega), Option.bind_some, hx, hlen]

section Header

variable {H : Bytes} (hH : EndsAtBlank H)

include hH

/-- Chunks that leave the header incomplete are only stored. -/
theorem recvHeader_wait (hle : H.length ≤ 1500) (rs : List RecvRes) : ∀ (p : List Bytes) (x : Bytes),
    (∀ c ∈ p, c.length ≤ 2048) →
    x ++ p.flatten <+: H → (x ++ p.flatten).length < H.length →
    recvHeader (cacheOf x) x.length (p.map .data ++ rs) =
      recvHeader (cacheOf (x ++ p.flatten)) (x ++ p.flatten).length rs
  | [], x, _, _, _ => by rw [List.flatten_nil, List.append_nil]; rfl
  | c :: p, x, hsize, hpre, hlt => by
    have hc := hsize c (List.mem_cons_self ..)
    rw [List.flatten_cons, ← List.append_assoc] at hpre hlt ⊢
    have hxc : x ++ c <+: H := (List.prefix_append _ _).trans hpre
    have hlen : (x ++ c).length ≤ (x ++ c ++ p.flatten).length := (List.prefix_append _ _).length_le
    obtain ⟨u, z, hu, h0, -⟩ := cacheOf_text (x := x ++ c) (by omega)
    have hsearch : searchBlank (cacheOf (x ++ c)) 0 = some none := by
      rw [hu]
      refine searchBlank_none u z 0 h0 fun i _ => ?_
      rw [← hu]
      exact no_blank_in_part hH hxc (by omega) _ i
    rw [List.map_cons, List.cons_append, recvHeader_data rfl hc (by omega), hsearch, Option.bind_some]
    exact recvHeader_wait hle rs p (x ++ c) (fun c' h' => hsize c' (List.mem_cons_of_mem _ h')) hpre hlt

/-- With a NUL in the header the blank line is never found. -/
theorem searchBlank_nul (h0 : 0 ∈ H) {b : Bytes} (hb : (H ++ b).length < 2050) :
    searchBlank (cacheOf (H ++ b)) 0 = some none := by
  obtain ⟨h, e, he, hHe⟩ := hH.split
  have hh0 : (0 : UInt8) ∈ h := by
    rw [hHe] at h0
    rcases List.mem_append.mp h0 with h0 | h0
    · exact h0
    · rcases he with rfl | rfl <;> exact absurd h0 (by decide)
  obtain ⟨u, z, hu, hu0, -⟩ := cacheOf_text hb
  have hcache : cacheOf (H ++ b) = h ++ (e ++ (b ++ List.replicate (2050 - (H ++ b).length) 0)) := by
    unfold cacheOf
    rw [hHe]
    simp only [List.append_assoc]
  have hlt : u.length < h.length := by
    by_contra hge
    have hh : h <+: cacheOf (H ++ b) := by
      rw [hcache]
      exact List.prefix_append _ _
    have hup : u <+: cacheOf (H ++ b) := by
      rw [hu]
      exact List.prefix_append _ _
    exact hu0 ((List.prefix_of_prefix_length_le hh hup (by omega)).subset hh0)
  rw [hu]
  refine searchBlank_none u z 0 hu0 fun i hi => ?_
  rw [← hu, hcache]
  exact no_blank_before hH he hHe _ (by omega)

/-- Then nothing is ever passed on. -/
theorem recvHeader_nul (h0 : 0 ∈ H) : ∀ (rs : List RecvRes) (b : Bytes) {events : List EzhHttpOperat}
    {ok : Bool}, recvHeader (cacheOf (H ++ b)) (H ++ b).length rs = some (events, ok) → bodyOf events = []
  | [], _, _, _, h => by
    obtain ⟨rfl, -⟩ := Prod.mk.inj (Option.some.inj h)
    rfl
  | .zero :: rs, b, _, _, h => recvHeader_nul h0 rs b h
  | .err :: _, _, _, _, h => by
    obtain ⟨rfl, -⟩ := Prod.mk.inj (Option.some.inj h)
    rfl
  | .data c :: rs, b, events, ok, h => by
    have hadd : (H ++ (b ++ c)).length = (H ++ b).length + c.length := by
      rw [← List.append_assoc, List.length_append]
    by_cases hfit : c.length ≤ 2048 ∧ (H ++ (b ++ c)).length < 2050
    · rw [recvHeader_data (List.append_assoc H b c) hfit.1 hfit.2, searchBlank_nul hH h0 hfit.2,
        Option.bind_some] at h
      exact recvHeader_nul h0 rs (b ++ c) h
    · rw [recvHeader] at h
      split_ifs at h with hbig hover
      · obtain ⟨rfl, -⟩ := Prod.mk.inj (Option.some.inj h)
        rfl
      · omega

end Header

/-! ## The announced length -/

theorem skipToColon_append (y : Bytes) : ∀ {s : Bytes}, 10 ∈ s →
    skipToColon (s ++ y) = skipToColon s ++ y ∧ 10 ∈ skipToColon s
  | c :: t, h => by
    rw [List.cons_append]
    by_cases hc : c = 58 ∨ c = 10 ∨ c = 13 ∧ t.head? = some 10
    · have hc' : c = 58 ∨ c = 10 ∨ c = 13 ∧ (t ++ y).head? = some 10 := by
        rcases hc with hc | hc | ⟨hc, ht⟩
        · exact Or.inl hc
        · exact Or.inr (Or.inl hc)
        · exact Or.inr (Or.inr ⟨hc, by rw [List.head?_append, ht]; rfl⟩)
      rw [skipToColon, skipToColon, if_pos hc, if_pos hc']
      exact ⟨rfl, h⟩
    · rw [not_or, not_or] at hc
      have ht : 10 ∈ t := (List.mem_cons.mp h).resolve_left fun h => hc.2.1 h.symm
      have hhead : (t ++ y).head? = t.head? := List.head?_append_of_ne_nil _ (List.ne_nil_of_mem ht)
      have hno : ¬ (c = 58 ∨ c = 10 ∨ c = 13 ∧ t.head? = some 10) := by
        rw [not_or, not_or]
        exact hc
      rw [skipToColon, skipToColon, hhead, if_neg hno, if_neg hno]
      exact skipToColon_append y ht

theorem restOfLine_append (y : Bytes) : ∀ {s : Bytes}, 10 ∈ s → restOfLine (s ++ y) = restOfLine s
  | c :: t, h => by
    rw [List.cons_append, restOfLine, restOfLine]
    by_cases h10 : c = 10
    · rw [if_pos (Or.inl h10), if_pos (Or.inl h10)]
    · have ht : 10 ∈ t := (List.mem_cons.mp h).resolve_left fun h => h10 h.symm
      have hhead : (t ++ y).head? = t.head? := List.head?_append_of_ne_nil _ (List.ne_nil_of_mem ht)
      rw [hhead, restOfLine_append y ht]

theorem dropWhile_append_mem {p : UInt8 → Bool} {b : UInt8} (hb : p b = false) (y : Bytes) {s : Bytes}
    (h : b ∈ s) : (s ++ y).dropWhile p = s.dropWhile p ++ y ∧ b ∈ s.dropWhile p := by
  have hmem : b ∈ s.dropWhile p := by
    rw [← List.takeWhile_append_dropWhile (p := p) (l := s)] at h
    rcases List.mem_append.mp h with h | h
    · have := List.mem_takeWhile_imp h
      rw [hb] at this
      cases this
    · exact h
  refine ⟨?_, hmem⟩
  rw [List.dropWhile_append]
  cases hd : s.dropWhile p with
  | nil =>
    rw [hd] at hmem
    cases hmem
  | cons a l => rfl

/-- The value ends with its line. -/
theorem protocolText_append (y : Bytes) {s : Bytes} (h : 10 ∈ s) :
    protocolText (s ++ y) = protocolText s := by
  obtain ⟨hskip, hmem⟩ := skipToColon_append y h
  have hne := List.ne_nil_of_mem hmem
  unfold protocolText
  dsimp only
  rw [hskip, List.head?_append_of_ne_nil _ hne]
  by_cases h58 : (skipToColon s).head? = some 58
  · obtain ⟨t, ht⟩ : ∃ t, skipToColon s = 58 :: t := by
      cases hs : skipToColon s with
      | nil => exact absurd hs hne
      | cons a t =>
        rw [hs] at h58
        exact ⟨t, by rw [Option.some.inj h58]⟩
    have ht10 : 10 ∈ t := by
      rw [ht] at hmem
      exact (List.mem_cons.mp hmem).resolve_left (by decide)
    obtain ⟨hd, hd10⟩ := dropWhile_append_mem (p := fun c => decide (c = 32)) (by decide) y ht10
    rw [if_pos h58, if_pos h58, ht, List.cons_append, List.tail_cons, List.tail_cons, hd]
    exact restOfLine_append y hd10
  · obtain ⟨hd, hd10⟩ := dropWhile_append_mem (p := fun c => decide (c = 32)) (by decide) y hmem
    rw [if_neg h58, if_neg h58, hd]
    exact restOfLine_append y hd10

/-- The length announced by a header: the number behind its first `Content-Length`. -/
def contentLength (H : Bytes) : Option ℤ := docTotalLen (H ++ [0])

/-- What the client reads off the cache is what the header announces. -/
theorem docTotalLen_cacheOf {H : Bytes} (hH : EndsAtBlank H) (h0 : 0 ∉ H)
    (hname : ascii "Content-Length" <:+: H) {b : Bytes} (hb : (H ++ b).length < 2050) :
    docTotalLen (cacheOf (H ++ b)) = contentLength H := by
  obtain ⟨s, hs⟩ := strstr_of_infix hname
  obtain ⟨hpre, q, hq⟩ := strstr_eq_some hs
  have hne : s ≠ [] := by
    rintro rfl
    exact absurd (List.prefix_nil.mp hpre) (by decide)
  have hlast : H.getLast? = some 10 := by
    obtain ⟨h, hh | hh⟩ := hH.ends <;> rw [hh, List.getLast?_append_of_ne_nil _ (by simp)] <;> rfl
  have h10 : 10 ∈ s := by
    rw [← hq, List.getLast?_append_of_ne_nil _ hne] at hlast
    exact List.mem_of_getLast? hlast
  -- the text in the cache is the header and some of what follows it
  obtain ⟨y, z, hyz, hy0⟩ : ∃ y z, b ++ List.replicate (2050 - (H ++ b).length) 0 = y ++ 0 :: z ∧
      (0 : UInt8) ∉ y :=
    List.eq_append_cons_of_mem (List.mem_append_right _ (List.mem_replicate.mpr ⟨by omega, rfl⟩))
  have htext : cstr (cacheOf (H ++ b)) = some (H ++ y) := by
    unfold cacheOf
    rw [List.append_assoc, hyz, ← List.append_assoc]
    refine cstr_of_append ?_ z
    rw [List.mem_append, not_or]
    exact ⟨h0, hy0⟩
  unfold contentLength docTotalLen zhHttpGetProtocolValue
  rw [htext, cstr_of_append h0, Option.bind_some, Option.bind_some, hs, strstr_append y hs]
  dsimp only
  rw [protocolText_append y h10]

/-! ## The response -/

/-- A line `Content-Length: N`. -/
def CarriesLength (H : Bytes) (N : ℕ) : Prop :=
  ∃ pre eol post, H = pre ++ (ascii "Content-Length: " ++ ascii (toString N) ++ eol) ++ post ∧
    (pre = [] ∨ pre.getLast? = some 10) ∧ (eol = [13, 10] ∨ eol = [10])

/-- A header of at most 1500 bytes up to its first blank line with a length line, and a body of that
length. -/
structure Response (H B : Bytes) (N : ℕ) : Prop where
  head_le : H.length ≤ 1500
  blank : EndsAtBlank H
  line : CarriesLength H N
  pos : 1 ≤ N
  body : B.length = N

/-- From `t` bytes on, every `recv` returns at least one byte and at most what is asked for: 2048 bytes
until the header of `n` bytes is complete, then 2047. -/
def RecvSizes (n : ℕ) : ℕ → List Bytes → Prop
  | _, [] => True
  | t, c :: cs =>
    (1 ≤ c.length ∧ c.length ≤ if n ≤ t then 2047 else 2048) ∧ RecvSizes n (t + c.length) cs

theorem RecvSizes.split {n : ℕ} {c : Bytes} {s : List Bytes} : ∀ {p : List Bytes} {t : ℕ},
    RecvSizes n t (p ++ c :: s) →
    1 ≤ c.length ∧ c.length ≤ if n ≤ t + p.flatten.length then 2047 else 2048
  | [], _, h => h.1
  | a :: p, t, h => by
    have := RecvSizes.split (p := p) h.2
    rwa [List.flatten_cons, List.length_append, ← Nat.add_assoc]

/-- The chunks in front of the one that completes the header, and those behind it. -/
theorem RecvSizes.front {n : ℕ} {c : Bytes} {s p : List Bytes} (h : RecvSizes n 0 (p ++ c :: s)) :
    ∀ c' ∈ p, c'.length ≤ 2048 := by
  intro c' hc'
  obtain ⟨p₁, p₂, rfl⟩ := List.append_of_mem hc'
  rw [List.append_assoc, List.cons_append] at h
  have hle := h.split.2
  split_ifs at hle <;> omega

theorem RecvSizes.back {n : ℕ} {c : Bytes} {s p : List Bytes} (h : RecvSizes n 0 (p ++ c :: s))
    (hn : n ≤ (p.flatten ++ c).length) : ∀ c' ∈ s, 1 ≤ c'.length ∧ c'.length ≤ 2047 := by
  intro c' hc'
  obtain ⟨s₁, s₂, rfl⟩ := List.append_of_mem hc'
  rw [← List.cons_append, ← List.append_assoc] at h
  have hle := h.split
  rw [List.flatten_append, List.flatten_cons, ← List.append_assoc, List.length_append, if_pos (by omega)] at hle
  exact hle

theorem infix_of_line {H : Bytes} {N : ℕ} (h : CarriesLength H N) : ascii "Content-Length" <:+: H := by
  obtain ⟨pre, eol, post, rfl, -, -⟩ := h
  refine ⟨pre, ascii ": " ++ ascii (toString N) ++ eol ++ post, ?_⟩
  rw [show ascii "Content-Length: " = ascii "Content-Length" ++ ascii ": " from rfl]
  simp only [List.append_assoc]

/-- Some chunk brings the total to `n`. -/
theorem exists_crossing {n : ℕ} : ∀ (cs : List Bytes) (t : ℕ), t < n → n ≤ t + cs.flatten.length →
    ∃ p c s, cs = p ++ c :: s ∧ t + p.flatten.length < n ∧ n ≤ t + (p.flatten ++ c).length
  | [], t, h, h' => by
    rw [List.flatten_nil, List.length_nil] at h'
    omega
  | c :: cs, t, h, h' => by
    by_cases hc : n ≤ t + c.length
    · exact ⟨[], c, cs, rfl, by simpa using h, by simpa using hc⟩
    · rw [List.flatten_cons, List.length_append, ← Nat.add_assoc] at h'
      obtain ⟨p, d, s, rfl, h1, h2⟩ := exists_crossing cs (t + c.length) (by omega) h'
      refine ⟨c :: p, d, s, rfl, ?_, ?_⟩
      · rw [List.flatten_cons, List.length_append, ← Nat.add_assoc]
        exact h1
      · rw [List.flatten_cons, List.append_assoc, List.length_append, ← Nat.add_assoc]
        exact h2

/-- The chunk that completes the header: the rest of the cache is passed on with what follows. -/
theorem recvHeader_complete {H q c b : Bytes} (hH : EndsAtBlank H) (h0 : 0 ∉ H)
    (hname : ascii "Content-Length" <:+: H) (hqc : q ++ c = H ++ b) (hc : c.length ≤ 2048)
    (hb : (H ++ b).length < 2050) (rs : List RecvRes) :
    recvHeader (cacheOf q) q.length (.data c :: rs) =
      dataOk (cacheOf (H ++ b)) (H ++ b).length H.length rs := by
  obtain ⟨h, e, he, hHe⟩ := hH.split
  have hcache : cacheOf (H ++ b) = h ++ (e ++ (b ++ List.replicate (2050 - (H ++ b).length) 0)) := by
    unfold cacheOf
    rw [hHe]
    simp only [List.append_assoc]
  have hblank : ∀ y, blankLine (e ++ y) = some e.length := by
    intro y
    rcases he with rfl | rfl <;> rfl
  have hne : h ≠ [] := by
    rintro rfl
    have h14 := hname.length_le
    rw [hHe, List.nil_append] at h14
    rcases he with rfl | rfl <;> exact absurd h14 (by decide)
  have hsearch : searchBlank (cacheOf (H ++ b)) 0 = some (some H.length) := by
    rw [hcache, searchBlank_found h _ 0 hne (fun hm => h0 (by rw [hHe]; exact List.mem_append_left _ hm))
      (hblank _) (fun i hi => no_blank_before hH he hHe _ hi), hHe, List.length_append, Nat.zero_add]
  rw [recvHeader_data hqc hc hb, hsearch, Option.bind_some]

/-- Behind the header the body is whole iff the loop over the rest is. -/
theorem dataOk_whole {H b body : Bytes} {D : ℤ} (hD : docTotalLen (cacheOf (H ++ b)) = some D)
    (rs : List RecvRes) :
    Whole (dataOk (cacheOf (H ++ b)) (H ++ b).length H.length rs) (b ++ body) ↔
      Whole (recvData D b.length rs) body := by
  have hsub : (H ++ b).length - H.length = b.length := by
    rw [List.length_append, Nat.add_sub_cancel_left]
  unfold dataOk
  rw [hD, Option.bind_some, hsub]
  cases b with
  | nil =>
    rw [List.length_nil, if_neg (Nat.lt_irrefl 0)]
    rfl
  | cons a l =>
    have hload : load (cacheOf (H ++ a :: l)) H.length (a :: l).length = some (a :: l) := by
      unfold cacheOf
      exact load_mid H (a :: l) _
    rw [if_pos (by rw [List.length_cons]; omega), hload, Option.bind_some]
    exact Whole.cons

/-- From a header without NUL on, completed by the chunk `c` with the bytes `b` of the body behind it. -/
theorem recvHeader_whole {H q c b : Bytes} (hH : EndsAtBlank H) (h0 : 0 ∉ H)
    (hname : ascii "Content-Length" <:+: H) (hqc : q ++ c = H ++ b) (hc : c.length ≤ 2048)
    (hb : (H ++ b).length < 2050) {s : List Bytes} (hs : ∀ c' ∈ s, 1 ≤ c'.length ∧ c'.length ≤ 2047)
    {tail : ℕ → RecvRes} (htail : Delivered tail) :
    (∃ m, Whole (recvHeader (cacheOf q) q.length (.data c :: (s.map .data ++ (List.range m).map tail)))
        (b ++ s.flatten)) ↔
      ∃ D, contentLength H = some D ∧ (s ≠ [] → b.length + s.flatten.length < 2 ^ 31) ∧
        (∀ p d r, s = p ++ d :: r → r ≠ [] → ¬ (0 < D ∧ D ≤ (b.length + (p ++ [d]).flatten.length : ℕ))) ∧
        (0 < D ∧ D ≤ (b.length + s.flatten.length : ℕ) ∨ ∃ n, tail n = .err) := by
  have hdone := fun m => recvHeader_complete hH h0 hname hqc hc hb (s.map .data ++ (List.range m).map tail)
  have hdoc := docTotalLen_cacheOf hH h0 hname hb
  rw [exists_congr fun m => by rw [hdone m]]
  cases hD : contentLength H with
  | none =>
    constructor
    · rintro ⟨m, events, hr, -⟩
      rw [dataOk, hdoc, hD] at hr
      cases hr
    · rintro ⟨D, h, -⟩
      cases h
  | some D =>
    rw [hD] at hdoc
    rw [exists_congr fun m => dataOk_whole hdoc _, recvData_whole D htail s b.length hs]
    constructor
    · exact fun h => ⟨D, rfl, h⟩
    · rintro ⟨D', h, hrest⟩
      obtain rfl := Option.some.inj h
      exact hrest

/-- The chunk that completes the header: what it has of the body, and what the chunks behind it have. -/
theorem split_head {H B : Bytes} {p s : List Bytes} {c : Bytes} (hS : (p ++ c :: s).flatten = H ++ B)
    (hlt : p.flatten.length < H.length) (hge : H.length ≤ (p.flatten ++ c).length) :
    p.flatten <+: H ∧ ∃ b, p.flatten ++ c = H ++ b ∧ B = b ++ s.flatten := by
  rw [List.flatten_append, List.flatten_cons, ← List.append_assoc] at hS
  have hpH : p.flatten <+: H := List.prefix_of_prefix_length_le
    ⟨c ++ s.flatten, by rw [← List.append_assoc, hS]⟩ (List.prefix_append H B) (by omega)
  obtain ⟨b, hb⟩ := List.prefix_of_prefix_length_le (List.prefix_append H B)
    (by rw [← hS]; exact List.prefix_append _ _) hge
  rw [← hb, List.append_assoc] at hS
  exact ⟨hpH, b, hb.symm, (List.append_cancel_left hS).symm⟩

/-- Up to the header nothing is reported. -/
theorem recvResponse_wait {H B : Bytes} {N : ℕ} (hR : Response H B N) {p : List Bytes} (c : Bytes)
    (s : List Bytes) (rs : List RecvRes) (hsize : ∀ c' ∈ p, c'.length ≤ 2048) (hpH : p.flatten <+: H)
    (hlt : p.flatten.length < H.length) :
    recvResponse ((p ++ c :: s).map .data ++ rs) =
      recvHeader (cacheOf p.flatten) p.flatten.length (.data c :: (s.map .data ++ rs)) := by
  have hwait := recvHeader_wait hR.blank hR.head_le (.data c :: (s.map .data ++ rs)) p [] hsize hpH hlt
  rw [List.nil_append] at hwait
  rw [← hwait, List.map_append, List.map_cons, List.append_assoc]
  rfl

/-- The decision for a split whose chunk `c` completes the header. -/
theorem recv_split_at {H B : Bytes} {N : ℕ} (hR : Response H B N) {p s : List Bytes} {c : Bytes}
    (hS : (p ++ c :: s).flatten = H ++ B) (hsize : RecvSizes H.length 0 (p ++ c :: s))
    (hlt : p.flatten.length < H.length) (hge : H.length ≤ (p.flatten ++ c).length) {tail : ℕ → RecvRes}
    (htail : Delivered tail) :
    (∃ m, Whole (recvResponse ((p ++ c :: s).map .data ++ (List.range m).map tail)) B) ↔
      0 ∉ H ∧ N < 2 ^ 31 ∧ (p.flatten ++ c).length ≤ 2049 ∧ ∃ D, contentLength H = some D ∧
        (∀ q d r, s = q ++ d :: r → r ≠ [] →
          ¬ (0 < D ∧ D + H.length ≤ (p.flatten ++ c ++ (q ++ [d]).flatten).length)) ∧
        (0 < D ∧ D ≤ N ∨ ∃ n, tail n = .err) := by
  obtain ⟨hpH, b, hb, hB⟩ := split_head hS hlt hge
  have hBne : B ≠ [] := List.ne_nil_of_length_pos (by rw [hR.body]; exact hR.pos)
  have hc := hsize.split.2
  rw [if_neg (by omega)] at hc
  have hrest := hsize.back hge
  rw [exists_congr fun m => by
    rw [recvResponse_wait hR c s ((List.range m).map tail) hsize.front hpH hlt]]
  have hlen := congrArg List.length hb
  have hpc : (p.flatten ++ c).length = p.flatten.length + c.length := List.length_append
  rw [hpc] at hlen hge ⊢
  by_cases hover : 2050 ≤ p.flatten.length + c.length
  · constructor
    · rintro ⟨m, events, hr, -, -, hno⟩
      rw [recvHeader, if_neg (by omega), if_pos hover] at hr
      obtain ⟨rfl, -⟩ := Prod.mk.inj (Option.some.inj hr)
      exact absurd (List.mem_singleton_self _) hno
    · rintro ⟨-, -, h, -⟩
      omega
  have hfit : (H ++ b).length < 2050 := by omega
  by_cases h0 : 0 ∈ H
  · constructor
    · rintro ⟨m, events, hr, hbody, -⟩
      rw [recvHeader_data hb hc hfit, searchBlank_nul hR.blank h0 hfit, Option.bind_some] at hr
      exact absurd (hbody.symm.trans (recvHeader_nul hR.blank h0 _ b hr)) hBne
    · exact fun h => absurd h0 h.1
  have hNlen : N = b.length + s.flatten.length := by rw [← hR.body, hB, List.length_append]
  have hHb : (H ++ b).length = H.length + b.length := List.length_append
  have htot : ∀ q d, (p.flatten ++ c ++ (q ++ [d]).flatten).length =
      H.length + b.length + (q ++ [d]).flatten.length := by
    intro q d
    rw [hb, List.length_append, hHb]
  rw [hB, recvHeader_whole hR.blank h0 (infix_of_line hR.line) hb hc hfit hrest htail]
  constructor
  · rintro ⟨D, hD, hov, hmid, hend⟩
    refine ⟨h0, ?_, by omega, D, hD, fun q d r hs hr => ?_, by rw [hNlen]; exact hend⟩
    · by_cases hnil : s = []
      · rw [hnil, List.flatten_nil, List.length_nil] at hNlen
        omega
      · rw [hNlen]
        exact hov hnil
    · have := hmid q d r hs hr
      rw [htot]
      omega
  · rintro ⟨-, hN, -, D, hD, hmid, hend⟩
    refine ⟨D, hD, fun _ => by omega, fun q d r hs hr => ?_, by rw [← hNlen]; exact hend⟩
    have := hmid q d r hs hr
    rw [htot] at this
    omega

/-- **Which splits of a response are received whole**: the chunk that completes the header brings the
total to at most 2049 bytes, the number `D` behind the first `Content-Length` of the header fits its
buffer, no total behind that chunk and before the last one reaches `D`, and in the end `D` is reached or
the connection breaks. -/
theorem recv_split_iff {H B : Bytes} {N : ℕ} (hR : Response H B N) (cs : List Bytes)
    (hS : cs.flatten = H ++ B) (hsize : RecvSizes H.length 0 cs) {tail : ℕ → RecvRes} (htail : Delivered tail) :
    (∃ m, Whole (recvResponse (cs.map .data ++ (List.range m).map tail)) B) ↔
      ∃ p c s, cs = p ++ c :: s ∧ p.flatten.length < H.length ∧ H.length ≤ (p.flatten ++ c).length ∧
        0 ∉ H ∧ N < 2 ^ 31 ∧ (p.flatten ++ c).length ≤ 2049 ∧ ∃ D, contentLength H = some D ∧
          (∀ q d r, s = q ++ d :: r → r ≠ [] →
            ¬ (0 < D ∧ D + H.length ≤ (p.flatten ++ c ++ (q ++ [d]).flatten).length)) ∧
          (0 < D ∧ D ≤ N ∨ ∃ n, tail n = .err) := by
  constructor
  · intro h
    have hpos : 0 < H.length := by
      have := (infix_of_line hR.line).length_le
      rw [show (ascii "Content-Length").length = 14 from rfl] at this
      omega
    obtain ⟨p, c, s, rfl, hlt, hge⟩ := exists_crossing (n := H.length) cs 0 hpos (by
      rw [hS, List.length_append]
      omega)
    rw [Nat.zero_add] at hlt hge
    exact ⟨p, c, s, rfl, hlt, hge, (recv_split_at hR hS hsize hlt hge htail).mp h⟩
  · rintro ⟨p, c, s, rfl, hlt, hge, h⟩
    exact (recv_split_at hR hS hsize hlt hge htail).mpr h

/-- The header of a response with `n` body bytes. -/
def okHeader (n : ℕ) : Bytes :=
  ascii "HTTP/1.1 200 OK\r\nContent-Length: " ++ ascii (toString n) ++ [13, 10, 13, 10]

/-- The header is a response header for its number. -/
theorem okHeader_response {n : ℕ} (hlen : (okHeader n).length ≤ 1500)
    (hcrlf : ¬ [13, 10, 13, 10] <:+: (okHeader n).dropLast) (hlf : ¬ [10, 10] <:+: (okHeader n).dropLast)
    (hn : 1 ≤ n) : Response (okHeader n) (List.replicate n 120) n where
  head_le := hlen
  blank := ⟨⟨_, Or.inl rfl⟩, hcrlf, hlf⟩
  line := ⟨ascii "HTTP/1.1 200 OK\r\n", [13, 10], [13, 10], by
    unfold okHeader
    rw [show ascii "HTTP/1.1 200 OK\r\nContent-Length: " =
      ascii "HTTP/1.1 200 OK\r\n" ++ ascii "Content-Length: " by decide +kernel]
    simp only [List.append_assoc, List.cons_append, List.nil_append], Or.inr (by decide +kernel), Or.inl rfl⟩
  pos := hn
  body := List.length_replicate

/-- A response with three bytes of body, received in four chunks. -/
def okChunks : List Bytes := [(okHeader 3).take 10, (okHeader 3).drop 10 ++ [120], [120], [120]]

theorem recv_split_chunks :
    (∃ m, Whole (recvResponse (okChunks.map .data ++ (List.range m).map fun _ => .err)) (List.replicate 3 120)) ↔
      ∃ p c s, okChunks = p ++ c :: s ∧ p.flatten.length < (okHeader 3).length ∧
        (okHeader 3).length ≤ (p.flatten ++ c).length ∧ 0 ∉ okHeader 3 ∧ 3 < 2 ^ 31 ∧
        (p.flatten ++ c).length ≤ 2049 ∧ ∃ D, contentLength (okHeader 3) = some D ∧
          (∀ q d r, s = q ++ d :: r → r ≠ [] →
            ¬ (0 < D ∧ D + (okHeader 3).length ≤ (p.flatten ++ c ++ (q ++ [d]).flatten).length)) ∧
          (0 < D ∧ D ≤ (3 : ℕ) ∨ ∃ _ : ℕ, RecvRes.err = .err) :=
  recv_split_iff (okHeader_response (by decide +kernel) (by decide +kernel) (by decide +kernel) (by decide))
    okChunks (by decide +kernel) ⟨by decide +kernel, by decide +kernel, by decide +kernel, by decide +kernel, trivial⟩
    fun _ => Or.inr rfl

/-- A response whose header is cut behind 10 bytes: the next 2048 bytes do not fit the cache. -/
theorem recv_split_fails :
    ¬ ∀ (H B : Bytes) (N : ℕ) (cs : List Bytes) (tail : ℕ → RecvRes), Response H B N → cs.flatten = H ++ B →
      RecvSizes H.length 0 cs → Delivered tail →
      ∃ m, Whole (recvResponse (cs.map .data ++ (List.range m).map tail)) B := by
  intro h
  have hR : Response (okHeader 2100) (List.replicate 2100 120) 2100 :=
    okHeader_response (by decide +kernel) (by decide +kernel) (by decide +kernel) (by decide)
  have hS : ([(okHeader 2100).take 10] ++ ((okHeader 2100).drop 10 ++ List.replicate 2017 120) ::
      [List.replicate 83 120]).flatten = okHeader 2100 ++ List.replicate 2100 120 := by
    decide +kernel
  have hsize : RecvSizes (okHeader 2100).length 0 ([(okHeader 2100).take 10] ++
      ((okHeader 2100).drop 10 ++ List.replicate 2017 120) :: [List.replicate 83 120]) :=
    ⟨by decide +kernel, by decide +kernel, by decide +kernel, trivial⟩
  have hdone := h _ _ _ _ (fun _ => .err) hR hS hsize (fun _ => Or.inr rfl)
  have hat := recv_split_at hR hS hsize (by decide +kernel) (by decide +kernel) fun _ => Or.inr rfl
  have hle := (hat.mp hdone).2.2.1
  revert hle
  decide +kernel

end Esp32Base
