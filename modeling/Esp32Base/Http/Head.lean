import Esp32Base.Lib.Subst
import Esp32Base.Http.Recv
import Esp32Base.Http.Request
import Esp32Base.YunTask

/-!
# Http.Head — the size of a document (zhHttp.c, zhsock.c)

`_zhHttpThread_Head` connects, asks with HEAD and looks for the blank line in what it has received so far, from the
beginning and behind every `recv`.

* `contentLength_line`: what is read off a line `Content-Length: N`.
* `headHeader_eq`: what is reported of a header, however it is received.
* `head_reports`: so the thread as a whole.
-/

namespace Esp32Base

open Lib Lib.Buf Lib.CText

/-- The operations that this thread reports through `pfCallback`. -/
inductive HeadOperat
  | connectFail
  | connected
  | recviceFail
  | getSize (doc_total_len : ℤ)
  | finish
  deriving DecidableEq

inductive HeadOut
  | opened (fd : ℕ)
  | zhSockSend (buf : Bytes)
  | callback (op : HeadOperat)
  | closed (fd : ℕ)

/-- A copy of `create_tcp_client` with its own socket. -/
def zhSockConnect (SERVER_HOST : Bytes) (SERVER_PORT : ℤ) (hf_conn_sock : Option ℕ) (answer : ClientAnswer) :
    Option (Option ℕ × Bool × List HeadOut) :=
  (create_tcp_client SERVER_HOST SERVER_PORT hf_conn_sock answer).map fun (sock, ok, out) =>
    (sock, ok, out.filterMap fun o => match o with | .opened fd => some (.opened fd) | _ => none)

def zhSockClose (hf_conn_sock : Option ℕ) : List HeadOut := (hf_conn_sock.map .closed).toList

/-- The loop over the header, `cache_len` bytes of which are in `cache_buf`: what is reported, and whether the loop has
ended. -/
def headHeader : Bytes → ℕ → List RecvRes → Option (List HeadOperat × Bool)
  | _, _, [] => some ([], false)
  | cache_buf, cache_len, .data recv_buf :: rs =>
    if 1024 < recv_buf.length then none
    else if 1040 ≤ cache_len + recv_buf.length then some ([.recviceFail], true)
    else
      (store cache_buf cache_len recv_buf).bind fun cache_buf =>
        (searchBlank cache_buf 0).bind fun found =>
          match found with
          | some _ => (docTotalLen cache_buf).map fun doc_total_len => ([.getSize doc_total_len, .finish], true)
          | none => headHeader cache_buf (cache_len + recv_buf.length) rs
  | _, _, .zero :: _ | _, _, .err :: _ => some ([.finish], true)

/-- The `switch` on the method. -/
def headSend (p : TzhHttpThread) : Option (List HeadOut) :=
  match p.method with
  | .head => (headRequest p).map fun buf => [.zhSockSend buf]
  | _ => some []

/-- The thread up to the end of the results; it closes its socket when it ends. -/
def _zhHttpThread_Head (p : TzhHttpThread) (hf_conn_sock : Option ℕ) (answer : ClientAnswer) (rs : List RecvRes) :
    Option (Option ℕ × List HeadOut) :=
  (cstr p.host).bind fun host =>
    (zhSockConnect host p.port hf_conn_sock answer).bind fun (sock, ok, out) =>
      if ok then
        (headSend p).bind fun sent =>
          (headHeader (List.replicate 1040 0) 0 rs).map fun r : List HeadOperat × Bool =>
            (sock, out ++ .callback .connected :: (sent ++ r.1.map .callback ++ if r.2 then zhSockClose sock else []))
      else some (sock, out ++ .callback .connectFail :: zhSockClose sock)

/-! ## The header -/

/-- `cache_buf` with the bytes `x` received. -/
def headCache (x : Bytes) : Bytes := x ++ List.replicate (1040 - x.length) 0

/-- One `recv` that leaves the cache with the bytes `x`. -/
theorem headHeader_data {q c x : Bytes} (hx : q ++ c = x) (hc : c.length ≤ 1024) (hlt : x.length < 1040) (rs : List RecvRes) :
    headHeader (headCache q) q.length (.data c :: rs) =
      (searchBlank (headCache x) 0).bind fun found =>
        match found with
        | some _ => (docTotalLen (headCache x)).map fun doc_total_len => ([.getSize doc_total_len, .finish], true)
        | none => headHeader (headCache x) x.length rs := by
  have hlen : q.length + c.length = x.length := by rw [← hx, List.length_append]
  have hst : store (headCache q) q.length c = some (headCache x) := by
    unfold headCache
    rw [store_append (by rw [List.length_replicate]; omega), List.drop_replicate, hx, Nat.sub_sub, hlen]
  rw [headHeader, if_neg (by omega), if_neg (by omega), hst, Option.bind_some, hlen]

section Header

variable {H : Bytes} (hH : EndsAtBlank H) (h0 : 0 ∉ H)

include hH h0

/-- A header that is not complete. -/
theorem searchBlank_part {x : Bytes} (hx : x <+: H) (hlt : x.length < H.length) (hfit : x.length < 1040) :
    searchBlank (headCache x) 0 = some none := by
  obtain ⟨k, hk⟩ := Nat.exists_eq_add_of_lt hfit
  have hcache : headCache x = x ++ 0 :: List.replicate k 0 := by
    rw [headCache, show 1040 - x.length = k + 1 by omega, List.replicate_succ]
  rw [hcache]
  refine searchBlank_none x _ 0 (fun h => h0 (hx.subset h)) fun i _ => ?_
  rw [← List.replicate_succ]
  exact no_blank_in_part hH hx hlt _ i

/-- A complete one, with something in front of its blank line. -/
theorem searchBlank_whole {h e : Bytes} (he : e = [13, 10, 13, 10] ∨ e = [10, 10]) (hHe : H = h ++ e) (hne : h ≠ []) :
    ∃ n, searchBlank (headCache H) 0 = some (some n) := by
  obtain ⟨k, hk⟩ : ∃ k, blankLine (e ++ List.replicate (1040 - H.length) 0) = some k := by
    rcases he with rfl | rfl
    · exact ⟨4, rfl⟩
    · exact ⟨2, rfl⟩
  have hcache : headCache H = h ++ (e ++ List.replicate (1040 - H.length) 0) := by
    rw [← List.append_assoc, ← hHe]
    rfl
  rw [hcache, searchBlank_found h _ 0 hne (fun hmem => h0 (by rw [hHe]; exact List.mem_append_left _ hmem)) hk
    fun i hi => no_blank_before hH he hHe _ hi]
  exact ⟨_, rfl⟩

omit hH in
theorem docTotalLen_headCache (hfit : H.length < 1040) : docTotalLen (headCache H) = contentLength H := by
  have htext : cstr (headCache H) = some H := cstr_append_zeros h0 (Nat.sub_pos_of_lt hfit)
  unfold contentLength docTotalLen zhHttpGetProtocolValue
  rw [htext, cstr_of_append h0]

/-- **However the header is received**, with `x` in the cache: its length is reported if it fits, and a failure if it
does not. -/
theorem headHeader_eq (hne : ∃ h e, (e = [13, 10, 13, 10] ∨ e = [10, 10]) ∧ H = h ++ e ∧ h ≠ []) (rs : List RecvRes) :
    ∀ (s : List Bytes) (x : Bytes), (∀ c ∈ s, 1 ≤ c.length ∧ c.length ≤ 1024) → x ++ s.flatten = H →
      x.length < H.length → x.length < 1040 →
      headHeader (headCache x) x.length (s.map .data ++ rs) =
        if H.length < 1040 then (contentLength H).map fun doc_total_len => ([.getSize doc_total_len, .finish], true)
        else some ([.recviceFail], true)
  | [], x, _, hx, hlt, _ => by
    rw [List.flatten_nil, List.append_nil] at hx
    exact absurd hlt (by rw [hx]; exact Nat.lt_irrefl _)
  | c :: s, x, hsize, hx, hlt, hfit => by
    obtain ⟨hc, hc'⟩ := hsize c List.mem_cons_self
    have hsize' : ∀ c' ∈ s, 1 ≤ c'.length ∧ c'.length ≤ 1024 := fun c' h' => hsize c' (List.mem_cons_of_mem _ h')
    rw [List.flatten_cons, ← List.append_assoc] at hx
    have hlen : (x ++ c).length = x.length + c.length := List.length_append
    have hpre : x ++ c <+: H := ⟨s.flatten, hx⟩
    rw [List.map_cons, List.cons_append]
    by_cases hover : 1040 ≤ (x ++ c).length
    · -- the cache is full in front of the end of the header
      rw [headHeader, if_neg (by omega), if_pos (by omega), if_neg (by have := hpre.length_le; omega)]
    · rw [headHeader_data rfl hc' (by omega)]
      by_cases hwhole : (x ++ c).length < H.length
      · rw [searchBlank_part hH h0 hpre hwhole (by omega), Option.bind_some]
        exact headHeader_eq hne rs s (x ++ c) hsize' hx hwhole (by omega)
      · have hall : x ++ c = H := hpre.eq_of_length_le (Nat.le_of_not_lt hwhole)
        obtain ⟨h, e, he, hHe, hfront⟩ := hne
        rw [hall] at hover ⊢
        obtain ⟨n, hn⟩ := searchBlank_whole hH h0 he hHe hfront
        rw [hn, Option.bind_some, if_pos (by omega), docTotalLen_headCache h0 (by omega)]

end Header

/-! ## The size -/

/-- The first `Content-Length` of a header stands in a line `Content-Length: N`. -/
def AnnouncesLength (H : Bytes) (N : ℕ) : Prop :=
  ∃ pre eol post, H = pre ++ (ascii "Content-Length: " ++ ascii (toString N) ++ eol) ++ post ∧
    (pre = [] ∨ pre.getLast? = some 10) ∧ (eol = [13, 10] ∨ eol = [10]) ∧ ¬ ascii "Content-Length" <:+: pre

section Size

variable {H : Bytes} {N : ℕ}

theorem AnnouncesLength.carries (h : AnnouncesLength H N) : CarriesLength H N := by
  obtain ⟨pre, eol, post, hH, hpre, heol, -⟩ := h
  exact ⟨pre, eol, post, hH, hpre, heol⟩

/-- Nothing in front of the line is taken for its name. -/
theorem strstr_sizeLine {pattern pre y : Bytes} (hlf : 10 ∉ pattern) (hpre : pre = [] ∨ pre.getLast? = some 10)
    (hfirst : ¬ pattern <:+: pre) : strstr pattern (pre ++ (pattern ++ y)) = some (pattern ++ y) := by
  obtain ⟨s, hs, hlong⟩ := strstr_longest (List.prefix_append pattern y) (List.suffix_append pre (pattern ++ y))
  have hsuf : s <:+ pattern ++ y := by
    rcases List.eq_nil_or_concat' pre with rfl | ⟨p, c, rfl⟩
    · exact (strstr_eq_some hs).2
    · have hc : c = 10 := by
        rcases hpre with hp | hp
        · exact absurd hp (by simp)
        · rw [List.getLast?_append_of_ne_nil _ (List.cons_ne_nil c []), List.getLast?_singleton] at hp
          exact Option.some.inj hp
      subst hc
      have hnone : strstr pattern p = none := by
        cases hp : strstr pattern p with
        | none => rfl
        | some x =>
          obtain ⟨hx, hxs⟩ := strstr_eq_some hp
          exact absurd ((hx.isInfix.trans hxs.isInfix).trans (List.prefix_append p [10]).isInfix) hfirst
      rw [List.append_assoc] at hs
      obtain ⟨g, hg⟩ := strstr_behind hlf hnone hs
      exact ⟨g, hg.symm⟩
  rw [hs, hsuf.eq_of_length_le hlong.length_le]

/-- The digits behind the name, up to the end of the line. -/
theorem protocolText_line {ds eol : Bytes} (hds : ∀ c ∈ ds, isdigit c = true) (heol : eol = [13, 10] ∨ eol = [10])
    (y : Bytes) : protocolText (ascii "Content-Length" ++ (ascii ": " ++ ds ++ eol ++ y)) = ds := by
  have hskip : skipToColon (ascii "Content-Length" ++ (ascii ": " ++ ds ++ eol ++ y)) = 58 :: 32 :: (ds ++ eol ++ y) := rfl
  have hdigit : ∀ c : UInt8, isdigit c = true → c ≠ 10 ∧ c ≠ 13 ∧ c ≠ 32 := forall_byte (by decide +kernel)
  -- the line ends behind the digits
  have hrest : ∀ {ds : Bytes}, (∀ c ∈ ds, isdigit c = true) → restOfLine (ds ++ (eol ++ y)) = ds := by
    intro ds hds
    induction ds with
    | nil => rcases heol with rfl | rfl <;> rfl
    | cons c ds ih =>
      obtain ⟨h10, h13, -⟩ := hdigit c (hds c List.mem_cons_self)
      rw [List.cons_append, restOfLine, if_neg fun h => h.elim h10 fun h => h13 h.1,
        ih fun c hc => hds c (List.mem_cons_of_mem _ hc)]
  have hblank : (ds ++ (eol ++ y)).dropWhile (fun c => decide (c = 32)) = ds ++ (eol ++ y) := by
    cases ds with
    | nil => rcases heol with rfl | rfl <;> rfl
    | cons c ds => exact List.dropWhile_cons_of_neg (by simpa using (hdigit c (hds c List.mem_cons_self)).2.2)
  have hcolon : (58 :: 32 :: (ds ++ eol ++ y) : Bytes).head? = some 58 := rfl
  unfold protocolText
  rw [hskip]
  dsimp only
  rw [if_pos hcolon, List.tail_cons, List.dropWhile_cons_of_pos (by decide), List.append_assoc, hblank, hrest hds]

/-- **The number of the line** is what is read. -/
theorem contentLength_line (h0 : 0 ∉ H) (hN : N < 2 ^ 31) (h : AnnouncesLength H N) : contentLength H = some (N : ℤ) := by
  obtain ⟨pre, eol, post, hH, hpre, heol, hfirst⟩ := h
  have hds : ∀ c ∈ ascii (toString N), isdigit c = true := by
    intro c hc
    rw [ascii, Nat.toString_eq_ofList_toDigits, String.toList_ofList] at hc
    exact isdigit_of_mem_toDigits hc
  have hfound : strstr (ascii "Content-Length") H =
      some (ascii "Content-Length" ++ (ascii ": " ++ ascii (toString N) ++ eol ++ post)) := by
    have hsplit : H = pre ++ (ascii "Content-Length" ++ (ascii ": " ++ ascii (toString N) ++ eol ++ post)) := by
      rw [hH, show ascii "Content-Length: " = ascii "Content-Length" ++ ascii ": " from rfl]
      simp only [List.append_assoc]
    rw [hsplit]
    exact strstr_sizeLine (by decide +kernel) hpre hfirst
  have hlen : (ascii (toString N)).length < (List.replicate 32 (0 : UInt8)).length := by
    rw [← printInt_natCast, List.length_replicate]
    have := printInt_length_le (v := N) (by omega) (by omega)
    omega
  rw [contentLength, docTotalLen, zhHttpGetProtocolValue, cstr_of_append h0, Option.bind_some, hfound]
  dsimp only
  rw [protocolText_line hds heol, strcpy_of_lt hlen, Option.bind_some,
    cstr_of_append fun hmem => absurd (hds 0 hmem) (by decide), Option.map_some,
    atoi_decimal hds (by rw [decimal_toString]; exact hN), decimal_toString]

end Size

/-! ## The thread -/

/-- **The size of a document**: over any split of a header, the thread asks once, reports the size of the header's first
length line and closes its socket, or reports a failure when the header is longer than its cache. -/
theorem head_reports {p : TzhHttpThread} {host request : Bytes} (hhost : cstr p.host = some host)
    (husable : Usable (host, p.port)) (hmethod : p.method = .head) (hrequest : headRequest p = some request)
    {H : Bytes} {N : ℕ} (hH : EndsAtBlank H) (h0 : 0 ∉ H) (hN : N < 2 ^ 31) (hline : AnnouncesLength H N)
    {s : List Bytes} (hs : s.flatten = H) (hsize : ∀ c ∈ s, 1 ≤ c.length ∧ c.length ≤ 1024)
    (hf_conn_sock : Option ℕ) (fd : ℕ) (rs : List RecvRes) :
    _zhHttpThread_Head p hf_conn_sock (.connected fd) (s.map .data ++ rs) =
      if H.length < 1040 then
        some (some fd, [.opened fd, .callback .connected, .zhSockSend request, .callback (.getSize N), .callback .finish,
          .closed fd])
      else some (some fd, [.opened fd, .callback .connected, .zhSockSend request, .callback .recviceFail, .closed fd]) := by
  have hname := infix_of_line hline.carries
  have hpos : 0 < H.length := Nat.lt_of_lt_of_le (by decide) hname.length_le
  have hfront : ∃ h e, (e = [13, 10, 13, 10] ∨ e = [10, 10]) ∧ H = h ++ e ∧ h ≠ [] := by
    obtain ⟨h, e, he, hHe⟩ := hH.split
    refine ⟨h, e, he, hHe, ?_⟩
    rintro rfl
    rw [hHe, List.nil_append] at hname
    rcases he with rfl | rfl <;> exact absurd hname.length_le (by decide)
  have hloop : headHeader (List.replicate 1040 0) 0 (s.map .data ++ rs) = _ :=
    headHeader_eq hH h0 hfront rs s [] hsize (by rw [List.nil_append, hs]) hpos (by decide)
  have hconnect : zhSockConnect host p.port hf_conn_sock (.connected fd) = some (some fd, true, [.opened fd]) := by
    rw [zhSockConnect, create_usable husable]
    rfl
  have hsend : headSend p = some [.zhSockSend request] := by
    rw [headSend, hmethod]
    dsimp only
    rw [hrequest]
    rfl
  rw [_zhHttpThread_Head, hhost, Option.bind_some, hconnect, Option.bind_some]
  dsimp only
  rw [if_pos rfl, hsend, Option.bind_some, hloop, contentLength_line h0 hN hline]
  by_cases hfit : H.length < 1040
  · rw [if_pos hfit, if_pos hfit]
    rfl
  · rw [if_neg hfit, if_neg hfit]
    rfl

/-- `zhHttpSize` for a document on a port. -/
def sampleSize : TzhHttpThread := ⟨.head, ascii "files" ++ [0], 80, ascii "/fw" ++ [0], [0], 0, 0⟩

def sampleSizeRequest : Bytes :=
  ascii "HEAD /fw HTTP/1.1\r\nAccept: */*\r\nUser-Agent: zhHttp/1.0\r\nAccept-Encoding: gzip, deflate\r\n" ++
    ascii "Host: files:80\r\nConnection: Keep-Alive\r\n\r\n"

/-- A header of which the second half of the blank line comes last. -/
theorem head_reports_sample : _zhHttpThread_Head sampleSize (some 0) (.connected 3)
      ([ascii "HTTP/1.1 200 OK\r\nContent-Length: 42\r\n", ascii "\r", ascii "\n"].map .data ++ []) =
    some (some 3, [.opened 3, .callback .connected, .zhSockSend sampleSizeRequest, .callback (.getSize 42),
      .callback .finish, .closed 3]) := by
  have hH : EndsAtBlank (ascii "HTTP/1.1 200 OK\r\nContent-Length: 42" ++ [13, 10, 13, 10]) :=
    ⟨⟨_, Or.inl rfl⟩, by decide +kernel, by decide +kernel⟩
  have hhost : cstr sampleSize.host = some (ascii "files") := by decide
  have hrequest : headRequest sampleSize = some sampleSizeRequest := by decide +kernel
  have hline : AnnouncesLength (ascii "HTTP/1.1 200 OK\r\nContent-Length: 42" ++ [13, 10, 13, 10]) 42 :=
    ⟨ascii "HTTP/1.1 200 OK\r\n", [13, 10], [13, 10], by decide +kernel, Or.inr (by decide +kernel), Or.inl rfl,
      by decide +kernel⟩
  rw [head_reports hhost (by decide) rfl hrequest hH (by decide +kernel) (by decide) hline (by decide +kernel)
    (by decide +kernel), if_pos (by decide +kernel)]
  rfl

/-- The name is found inside of another line. -/
example : contentLength (ascii "HTTP/1.1 200 OK\r\nX-Content-Length-Info: abc\r\nContent-Length: 42\r\n\r\n") = some 0 := by
  decide +kernel

end Esp32Base
