import Mathlib.Data.List.Infix
import Esp32Base.WebSock.Accept
import Esp32Base.WebSock.Isolation
import Esp32Base.WebSock.Md5
import Esp32Base.WebSock.Sha1

/-!
# WebSock.Digests — the handshakes with the digests of the device (websocket.c, websocket_serv.c)

The digests that the handshakes take as parameters are those of sha1.c and wsock_md5.c.

* `websock_answers_iff`: a request of the new protocol, cut anywhere, gets one answer, with the encoded SHA-1 of its
  key, behind its last chunk.
* `websock_answers_old`: of the answer of the old protocol the MD5 is cut at its first zero byte.
-/

namespace Esp32Base

open Lib Lib.Buf Lib.CText Lib.Blocks

/-- The calls in the two handshakes; the contexts are what their stacks hold. -/
def deviceDigests (sha : SHA1Context) (context : MD5_CTX) : Digests where
  WsockMDData data := (WsockMDData context data).getD (Vector.replicate 16 0)
  SHA1Result msg := ((SHA1Input (SHA1Reset sha) msg).bind SHA1Result).bind fun r =>
    if r.1 ≠ 0 then some r.2.Message_Digest else none

section Digests

variable {sha : SHA1Context} (hsha : sha.Message_Block.length = 64) {context : MD5_CTX}

include hsha in
theorem device_sha1 {msg : Bytes} (hmsg : msg.length < 2 ^ 61) :
    (deviceDigests sha context).SHA1Result msg = some (sha1 msg) := by
  have hreset : Stands (SHA1Reset sha) (.open []) := ⟨absorbs_reset hsha, by decide⟩
  obtain ⟨context₁, hinput, h₁⟩ := shaCall_stands hreset (.input msg)
  obtain ⟨context₂, hresult, -⟩ := shaCall_stands h₁ .result
  rw [digestStep, List.nil_append, if_pos hmsg] at hinput hresult
  obtain ⟨context', hin, hpair⟩ := Option.map_eq_some_iff.mp hinput
  obtain ⟨rfl, -⟩ := Prod.mk.inj hpair
  obtain ⟨r, hres, hpair⟩ := Option.map_eq_some_iff.mp hresult
  have hone : r.1 = 1 ∧ r.2.Message_Digest = sha1 msg := by
    have hdigest := (Prod.mk.inj hpair).2
    rw [digestStep] at hdigest
    by_cases h1 : r.1 = 1
    · rw [if_pos h1] at hdigest
      exact ⟨h1, Option.some.inj (List.cons.inj hdigest).1⟩
    · rw [if_neg h1] at hdigest
      cases (List.cons.inj hdigest).1
  rw [deviceDigests]
  dsimp only
  rw [hin, Option.bind_some, hres, Option.bind_some, hone.1, if_pos (by decide), hone.2]

theorem device_md5 (hcontext : context.buffer.length = 64) {data : Bytes} (hdata : data.length + 64 ≤ 2 ^ 32) :
    (deviceDigests sha context).WsockMDData data = md5 data := by
  rw [deviceDigests]
  dsimp only
  rw [wsockMDData_eq hcontext hdata, Option.getD_some]

end Digests

/-! ## Requests that have not come to their end -/

/-- A client that has not shaken hands, with `x` received into a cache that was clear, as it is at boot; a new connection
does not clear it. -/
structure AwaitsRequest (g : WSockServ) (x : Bytes) : Prop where
  method : g.wsclient.hs.method = .unknow
  cache : g.wsclient.recvCache = x ++ List.replicate (recvCacheSize - x.length) 0
  len : g.wsclient.recvLen = x.length
  accept : g.wssocket_acceptBuf.length = acceptBufSize

section AwaitsRequest

variable {d : Digests} {sock_fd : ℕ} {g : WSockServ} {x c : Bytes}

/-- Without a blank line nothing is answered. -/
theorem handshake_pending (buflen : ℕ) {h : Handshake} {src : Bytes} (hm : h.hs.method = .unknow)
    (hsrc : cstr h.recvbuf = some src) (hq : requestText src = none) :
    zhWebSockHandshake (zhWebSockHandshake_1 d) (zhWebSockHandshake_2 d) buflen h = some (-1, h) := by
  obtain ⟨m, hid⟩ := identify_defined hsrc buflen
  have h1 : zhWebSockHandshake_1 d h = some (1, h) := by
    rw [zhWebSockHandshake_1, hsrc, Option.bind_some, hq]
  have h2 : zhWebSockHandshake_2 d h = some (1, h) := by
    rw [zhWebSockHandshake_2, hsrc, Option.bind_some, hq]
  rw [zhWebSockHandshake, if_neg (not_not_intro hm), hid, Option.bind_some]
  cases m with
  | unknow => rfl
  | method_1 =>
    dsimp only
    rw [h1]
    rfl
  | method_2 =>
    dsimp only
    rw [h2]
    rfl

/-- The cache with the chunk behind what was received. -/
theorem AwaitsRequest.store (hg : AwaitsRequest g x) (hfit : (x ++ c).length ≤ recvCacheSize) :
    store g.wsclient.recvCache g.wsclient.recvLen c =
      some ((x ++ c) ++ List.replicate (recvCacheSize - (x ++ c).length) 0) := by
  rw [List.length_append] at hfit
  rw [hg.cache, hg.len, store_append (by rw [List.length_replicate]; omega), List.drop_replicate, List.length_append,
    Nat.sub_sub]

/-- **A call** before the end of the request keeps what it is given. -/
theorem recv_cb_waits (hg : AwaitsRequest g x) (h0 : 0 ∉ x ++ c) (hfit : (x ++ c).length < recvCacheSize)
    (hq : requestText (x ++ c) = none) :
    ∃ g', websock_recv_cb (zhWebSockHandshake_1 d) (zhWebSockHandshake_2 d) sock_fd g c = some (g', []) ∧
      AwaitsRequest g' (x ++ c) := by
  have hst := hg.store (c := c) hfit.le
  have hsrc : cstr ((x ++ c) ++ List.replicate (recvCacheSize - (x ++ c).length) 0) = some (x ++ c) :=
    cstr_append_zeros h0 (by omega)
  have hlen : g.wsclient.recvLen + c.length = (x ++ c).length := by rw [hg.len, List.length_append]
  refine ⟨⟨⟨g.wsclient.pespconn, g.wsclient.hs, (x ++ c) ++ List.replicate (recvCacheSize - (x ++ c).length) 0,
    g.wsclient.recvLen + c.length⟩, g.wssocket_acceptBuf⟩, ?_, hg.method, rfl, hlen, hg.accept⟩
  have hshake := handshake_pending (d := d) (g.wsclient.recvLen + c.length)
    (h := ⟨_, g.wsclient.hs, g.wssocket_acceptBuf⟩) hg.method hsrc hq
  rw [recv_cb_unfold, if_neg (by omega), hst, Option.bind_some]
  dsimp only
  rw [hshake, Option.bind_some]
  rfl

/-- The call that completes a request, by what its handshake does. -/
theorem recv_cb_ends {h' : Handshake} {text : Bytes} (hg : AwaitsRequest g x) (hfit : (x ++ c).length ≤ recvCacheSize)
    (hshake : zhWebSockHandshake (zhWebSockHandshake_1 d) (zhWebSockHandshake_2 d) (x ++ c).length
      ⟨(x ++ c) ++ List.replicate (recvCacheSize - (x ++ c).length) 0, g.wsclient.hs, g.wssocket_acceptBuf⟩ =
        some (0, h')) (htext : cstr h'.acceptBuf = some text) :
    websock_recv_cb (zhWebSockHandshake_1 d) (zhWebSockHandshake_2 d) sock_fd g c =
      some (⟨⟨g.wsclient.pespconn, h'.hs, h'.recvbuf, 0⟩, h'.acceptBuf⟩, [.write sock_fd text]) := by
  have hlen : g.wsclient.recvLen + c.length = (x ++ c).length := by rw [hg.len, List.length_append]
  rw [recv_cb_unfold, if_neg (by omega), hg.store hfit, Option.bind_some]
  dsimp only
  rw [hlen, hshake, Option.bind_some, if_pos rfl, htext]
  rfl

end AwaitsRequest

/-! ## The new protocol -/

namespace KeyRequest

variable (r : KeyRequest)

theorem zero_notMem_text : 0 ∉ r.text := by
  intro h0
  rw [RequestLines.text, RequestLines.lines] at h0
  simp only [List.mem_append, List.mem_flatMap] at h0
  rcases h0 with ((h0 | h0) | ⟨h, hm, h0⟩) | h0
  · exact absurd h0 (by decide)
  · exact (r.getLine_text 0 h0).2.2 rfl
  · have hline := r.headers_text h hm
    rw [headerLine] at h0
    simp only [List.mem_cons, List.mem_append] at h0
    rcases h0 with h0 | h0 | h0 | h0 | h0
    · cases h0
    · cases h0
    · exact (hline.1 0 h0).2.2 rfl
    · cases h0
    · exact (hline.2 0 h0).2.2 rfl
  · exact absurd h0 (by decide)

/-- The blank line ends the text. -/
theorem requestText_pending {x y : Bytes} (hxy : x ++ y = r.text) (hy : y ≠ []) : requestText x = none := by
  cases hq : requestText x with
  | none => rfl
  | some t =>
    have hall := requestText_append hq y
    rw [hxy, r.requestText_eq] at hall
    obtain ⟨pstr, hp, ht⟩ := Option.map_eq_some_iff.mp hq
    have hpstr := (strstr_eq_some hp).1.length_le
    have hle := (strstr_eq_some hp).2.length_le
    have hx : x.length = t.length + pstr.length := by
      rw [← ht, List.length_take]
      omega
    have hlen := congrArg List.length hxy
    rw [RequestLines.text, Option.some.inj hall, List.length_append, List.length_append, hx] at hlen
    have hblank : (ascii "\r\n\r\n").length = 4 := by decide
    have hpos := List.length_pos_iff.mpr hy
    omega

/-- The text is that of a request of the new protocol. -/
theorem identify_text {n : ℕ} (hn : 0 < n) :
    zhWebSockIdentify (r.text ++ List.replicate n 0) r.text.length = some .method_2 := by
  have hkey : ascii "Sec-WebSocket-Key:" <:+: r.text := by
    refine ⟨ascii "GET " ++ r.getLine ++ r.before.flatMap headerLine ++ [13, 10],
      r.value ++ r.after.flatMap headerLine ++ ascii "\r\n\r\n", ?_⟩
    have hname : ascii "Sec-WebSocket-Key:" = ascii "Sec-WebSocket-Key" ++ [58] := rfl
    rw [RequestLines.text, RequestLines.lines, RequestLines.headers, List.flatMap_append, List.flatMap_cons, headerLine,
      hname]
    simp only [List.append_assoc, List.cons_append, List.nil_append]
  have hkey1 : strstr (ascii "Sec-WebSocket-Key1:") r.text = none := by
    cases hs : strstr (ascii "Sec-WebSocket-Key1:") r.text with
    | none => rfl
    | some s => exact absurd ((strstr_eq_some hs).1.isInfix.trans (strstr_eq_some hs).2.isInfix) r.noKey1
  obtain ⟨s, hs⟩ := strstr_of_infix hkey
  have hlong := hkey.length_le
  have h18 : (ascii "Sec-WebSocket-Key:").length = 18 := by decide +kernel
  rw [zhWebSockIdentify, if_neg (by omega), cstr_append_zeros r.zero_notMem_text hn, Option.map_some, hkey1, hs]
  rfl

end KeyRequest

section Answers

variable {sha : SHA1Context} (hsha : sha.Message_Block.length = 64) (context : MD5_CTX)

include hsha

/-- The answer to a key that fits `msg[256]`. -/
theorem accept_2_device {hs : TzhWebSocket} {key : Bytes} (hk : hs.key = some key) (hlen : key.length < 220) :
    accept_2 (deviceDigests sha context) hs =
      some (some (acceptText (sha1 (key ++ ascii "258EAFA5-E914-47DA-95CA-C5AB0DC85B11")))) := by
  rw [← accept_2_key (d := ⟨(deviceDigests sha context).WsockMDData, fun msg => some (sha1 msg)⟩) (fun _ => rfl) hk hlen]
  have hguid : (ascii "258EAFA5-E914-47DA-95CA-C5AB0DC85B11").length = 36 := by decide +kernel
  have hmsg : (key ++ ascii "258EAFA5-E914-47DA-95CA-C5AB0DC85B11").length < 2 ^ 61 := by
    rw [List.length_append, hguid]
    omega
  simp only [accept_2, hk, printStr, device_sha1 hsha hmsg]

variable (r : KeyRequest) {sock_fd : ℕ} {g : WSockServ} {x : Bytes}

/-- What the client is sent. -/
def KeyRequest.answer : Bytes := acceptText (sha1 (trimSpaces r.value ++ ascii "258EAFA5-E914-47DA-95CA-C5AB0DC85B11"))

omit hsha in
/-- The handshake of the last call. -/
theorem handshake_text {h : Handshake} (hm : h.hs.method = .unknow)
    (hbuf : h.recvbuf = r.text ++ List.replicate (recvCacheSize - r.text.length) 0)
    (hacc : h.acceptBuf.length = acceptBufSize) (hsize : r.text.length < recvCacheSize) :
    (∃ p, zhWebSockHandshake (zhWebSockHandshake_1 (deviceDigests sha context))
      (zhWebSockHandshake_2 (deviceDigests sha context)) r.text.length h = some p) ↔ r.CopiesFit := by
  have hsrc : cstr h.recvbuf = some r.text := by
    rw [hbuf]
    exact cstr_append_zeros r.zero_notMem_text (Nat.sub_pos_of_lt hsize)
  have hdefined := handshake_2_defined_iff (deviceDigests sha context) hsrc r.requestText_eq hacc
  rw [r.headerText_key, r.valuesFit_iff, printStr, and_iff_left (Nat.lt_succ_of_le r.trimmed.2)] at hdefined
  rw [← hdefined, zhWebSockHandshake, if_neg (not_not_intro hm), hbuf, r.identify_text (Nat.sub_pos_of_lt hsize),
    Option.bind_some]
  constructor
  · rintro ⟨p, hp⟩
    obtain ⟨q, hq, -⟩ := Option.map_eq_some_iff.mp hp
    exact ⟨q, hq⟩
  · rintro ⟨q, hq⟩
    exact ⟨_, Option.map_eq_some_iff.mpr ⟨q, hq, rfl⟩⟩

/-- What it leaves. -/
theorem handshake_text_accepts {h : Handshake} (hm : h.hs.method = .unknow)
    (hbuf : h.recvbuf = r.text ++ List.replicate (recvCacheSize - r.text.length) 0)
    (hsize : r.text.length < recvCacheSize) {p : ℤ × Handshake}
    (hp : zhWebSockHandshake (zhWebSockHandshake_1 (deviceDigests sha context))
      (zhWebSockHandshake_2 (deviceDigests sha context)) r.text.length h = some p) :
    p.1 = 0 ∧ cstr p.2.acceptBuf = some r.answer := by
  have hsrc : cstr h.recvbuf = some r.text := by
    rw [hbuf]
    exact cstr_append_zeros r.zero_notMem_text (Nat.sub_pos_of_lt hsize)
  rw [zhWebSockHandshake, if_neg (not_not_intro hm), hbuf, r.identify_text (Nat.sub_pos_of_lt hsize),
    Option.bind_some] at hp
  obtain ⟨q, hq, rfl⟩ := Option.map_eq_some_iff.mp hp
  obtain ⟨text, -, htext, hcpy, h0, -⟩ := handshake_2_eq_some (deviceDigests sha context) hsrc r.requestText_eq hq
  rw [accept_2_device hsha context r.headerText_key (Nat.lt_succ_of_le r.trimmed.2)] at htext
  obtain rfl := Option.some.inj htext
  exact ⟨if_pos h0, cstr_strcpy (zero_notMem_acceptText _) (hcpy _ rfl)⟩

/-- **The last call** answers iff what is copied fits and a byte of the cache is left. -/
theorem recv_cb_answers (hg : AwaitsRequest g x) {c : Bytes} (hxc : x ++ c = r.text) :
    (∃ g', websock_recv_cb (zhWebSockHandshake_1 (deviceDigests sha context))
      (zhWebSockHandshake_2 (deviceDigests sha context)) sock_fd g c = some (g', [.write sock_fd r.answer])) ↔
      r.text.length < recvCacheSize ∧ r.CopiesFit := by
  have hle : (x ++ c).length ≤ recvCacheSize := hxc ▸ r.size
  constructor
  · rintro ⟨g', hrun⟩
    rw [recv_cb_unfold, hg.store hle, Option.bind_some] at hrun
    obtain ⟨p, hp, -⟩ := Option.bind_eq_some_iff.mp hrun
    rw [hg.len, ← List.length_append, hxc] at hp
    by_cases hsize : r.text.length < recvCacheSize
    · exact ⟨hsize, (handshake_text context r hg.method rfl hg.accept hsize).mp ⟨p, hp⟩⟩
    · -- no NUL is left in the cache
      rw [Nat.sub_eq_zero_of_le (Nat.le_of_not_lt hsize), List.replicate_zero, List.append_nil, zhWebSockHandshake,
        if_neg (not_not_intro hg.method)] at hp
      obtain ⟨m, hm, -⟩ := Option.bind_eq_some_iff.mp hp
      have hlong : ¬ r.text.length ≤ 4 := fun h => hsize (h.trans_lt (by decide))
      rw [zhWebSockIdentify, if_neg hlong] at hm
      obtain ⟨t, ht, -⟩ := Option.map_eq_some_iff.mp hm
      obtain ⟨rest, htext, -⟩ := cstr_eq_some.mp ht
      have hmem : 0 ∈ r.text := by
        rw [show r.text = t ++ 0 :: rest from htext]
        exact List.mem_append_right _ List.mem_cons_self
      exact absurd hmem r.zero_notMem_text
  · rintro ⟨hsize, hfit⟩
    obtain ⟨p, hp⟩ := (handshake_text context r
      (h := ⟨_, g.wsclient.hs, g.wssocket_acceptBuf⟩) hg.method rfl hg.accept hsize).mpr hfit
    obtain ⟨h0, htext⟩ := handshake_text_accepts hsha context r
      (h := ⟨_, g.wsclient.hs, g.wssocket_acceptBuf⟩) hg.method rfl hsize hp
    obtain ⟨ret, h'⟩ := p
    obtain rfl : ret = 0 := h0
    rw [← hxc] at hp
    exact ⟨_, recv_cb_ends hg hle hp htext⟩

/-- **A request of the new protocol**, however it is cut: the only thing written is the answer, behind the last chunk,
iff what is copied out of the request fits and the request leaves a byte of the cache. -/
theorem websock_answers_iff : ∀ {x : Bytes} {g : WSockServ} (cs : List Bytes), AwaitsRequest g x → (∀ c ∈ cs, c ≠ []) →
    cs ≠ [] → x ++ cs.flatten = r.text →
    ((∃ g', runChunks (websock_recv_cb (zhWebSockHandshake_1 (deviceDigests sha context))
      (zhWebSockHandshake_2 (deviceDigests sha context)) sock_fd) g cs = some (g', [.write sock_fd r.answer])) ↔
      r.text.length < recvCacheSize ∧ r.CopiesFit)
  | _, _, [], _, _, hne, _ => absurd rfl hne
  | x, g, [c], hg, _, _, hxc => by
    rw [List.flatten_singleton] at hxc
    rw [← recv_cb_answers hsha context r hg hxc]
    constructor
    · rintro ⟨g', hrun⟩
      obtain ⟨g₁, ms, ms', hcb, hrest, hout⟩ := runChunks_cons_eq_some.mp hrun
      obtain ⟨-, rfl⟩ := Prod.mk.inj (Option.some.inj hrest)
      rw [List.append_nil] at hout
      exact ⟨g₁, hout ▸ hcb⟩
    · rintro ⟨g', hcb⟩
      refine ⟨g', ?_⟩
      rw [runChunks_cons hcb]
      rfl
  | x, g, c :: c' :: cs, hg, hcs, _, hxc => by
    have hsplit : (x ++ c) ++ (c' :: cs).flatten = r.text := by
      rw [List.append_assoc, ← List.flatten_cons, hxc]
    have hmore : (c' :: cs).flatten ≠ [] := by
      rw [List.flatten_cons]
      exact List.append_ne_nil_of_left_ne_nil (hcs c' (List.mem_cons_of_mem c List.mem_cons_self)) _
    have hshort : (x ++ c).length < recvCacheSize := by
      have hlen := congrArg List.length hsplit
      rw [List.length_append] at hlen
      exact (Nat.lt_add_of_pos_right (List.length_pos_iff.mpr hmore)).trans_le (hlen.le.trans r.size)
    have h0 : 0 ∉ x ++ c := fun h => r.zero_notMem_text (hsplit ▸ List.mem_append_left _ h)
    obtain ⟨g₁, hcb, hg₁⟩ := recv_cb_waits (d := deviceDigests sha context) hg h0 hshort
      (r.requestText_pending hsplit hmore)
    have ih := websock_answers_iff (c' :: cs) hg₁ (fun b hb => hcs b (List.mem_cons_of_mem c hb)) (by simp) hsplit
    rw [← ih, runChunks_cons hcb]
    simp

end Answers

/-- **The first connection** awaits its request. -/
theorem accept_awaits (fd : ℕ) : AwaitsRequest (app_websocket_task_accept wsockBoot fd).1.serv [] :=
  ⟨rfl, by rw [List.nil_append, List.length_nil, Nat.sub_zero]; rfl, rfl, List.length_replicate⟩

/-- The sample request in three pieces. -/
theorem websock_answers_sample :
    (∃ g', runChunks (websock_recv_cb (zhWebSockHandshake_1 (deviceDigests freshContext stackContext))
      (zhWebSockHandshake_2 (deviceDigests freshContext stackContext)) 3) (app_websocket_task_accept wsockBoot 3).1.serv
        [sampleRequest.text.take 30, (sampleRequest.text.drop 30).take 50, sampleRequest.text.drop 80] =
          some (g', [.write 3 sampleRequest.answer])) ↔
      sampleRequest.text.length < recvCacheSize ∧ sampleRequest.CopiesFit :=
  websock_answers_iff rfl stackContext sampleRequest _ (accept_awaits 3) (by decide +kernel) (by decide)
    (by decide +kernel)

/-! ## The old protocol -/

/-- The header of the answer to the text `t`. -/
def oldHeader (t : Bytes) : Bytes :=
  ascii "HTTP/1.1 101 WebSocket Protocol Handshake\r\nUpgrade: WebSocket\r\nConnection: Upgrade\r\n" ++
    ascii "Sec-WebSocket-Origin: " ++ printStr (headerText t "Origin:") ++ ascii "\r\nSec-WebSocket-Location: ws://" ++
    printStr (headerText t "Host:") ++ printStr (resourceText t) ++ ascii "\r\nSec-WebSocket-Protocol: sample\r\n\r\n"

theorem zero_notMem_headerText {t : Bytes} (h0 : 0 ∉ t) (name : String) : 0 ∉ printStr (headerText t name) := by
  unfold headerText
  by_cases hnil : matchLoop (ascii name) 0 0 t = []
  · rw [if_pos hnil]
    decide
  · rw [if_neg hnil]
    intro hm
    have hl := List.dropWhile_suffix (p := isBlank) |>.subset (List.rdropWhile_prefix _ _ |>.subset hm)
    exact matchLoop_noNul _ _ _ h0 hl

theorem zero_notMem_oldHeader {t : Bytes} (h0 : 0 ∉ t) : 0 ∉ oldHeader t := by
  have hres : 0 ∉ printStr (resourceText t) := by
    unfold resourceText
    by_cases hnil : matchLoop (ascii "GET ") 32 0 t = []
    · rw [if_pos hnil]
      decide
    · rw [if_neg hnil]
      exact matchLoop_noNul _ _ _ h0
  have horigin := zero_notMem_headerText h0 "Origin:"
  have hhost := zero_notMem_headerText h0 "Host:"
  have h1 : 0 ∉ ascii "HTTP/1.1 101 WebSocket Protocol Handshake\r\nUpgrade: WebSocket\r\nConnection: Upgrade\r\n" := by
    decide +kernel
  have h2 : 0 ∉ ascii "Sec-WebSocket-Origin: " := by decide +kernel
  have h3 : 0 ∉ ascii "\r\nSec-WebSocket-Location: ws://" := by decide +kernel
  have h4 : 0 ∉ ascii "\r\nSec-WebSocket-Protocol: sample\r\n\r\n" := by decide +kernel
  rw [oldHeader]
  simp only [List.mem_append, not_or]
  exact ⟨⟨⟨⟨⟨⟨h1, h2⟩, horigin⟩, h3⟩, hhost⟩, hres⟩, h4⟩

/-- What is read back of a copy. -/
theorem cstr_strcpy_cut {m text m' : Bytes} (h : strcpy m 0 text = some m') :
    cstr m' = some (text.takeWhile (· ≠ 0)) := by
  have hst : m' = text ++ 0 :: m.drop (text.length + 1) :=
    Option.some.inj (h.symm.trans (strcpy_of_lt (strcpy_lt h)))
  by_cases hmem : 0 ∈ text
  · obtain ⟨a, b, rfl, ha⟩ := List.eq_append_cons_of_mem hmem
    rw [takeWhile_ne ha, hst, List.append_assoc]
    exact cstr_of_append ha _
  · rw [takeWhile_self hmem, hst]
    exact cstr_of_append hmem _

section Old

variable {sha : SHA1Context} {context : MD5_CTX} (hcontext : context.buffer.length = 64) {sock_fd : ℕ} {g : WSockServ}
  {x c t key3 rest : Bytes} (hxc : x ++ c = t ++ ascii "\r\n\r\n" ++ key3 ++ rest) (hkey3 : key3.length = 8)
  (hq : requestText (t ++ ascii "\r\n\r\n") = some t) (h0 : 0 ∉ t)

/-- The string in the cache starts with the request. -/
theorem cstr_cache {n : ℕ} (h0 : 0 ∉ t) (hn : 0 < n) :
    ∃ y, cstr (t ++ ascii "\r\n\r\n" ++ rest ++ List.replicate n 0) = some (t ++ ascii "\r\n\r\n" ++ y) := by
  have hhead : 0 ∉ t ++ ascii "\r\n\r\n" := by
    rw [List.mem_append, not_or]
    exact ⟨h0, by decide⟩
  obtain ⟨k, rfl⟩ := Nat.exists_eq_add_one_of_ne_zero (Nat.ne_of_gt hn)
  have hmem : 0 ∈ rest ++ List.replicate (k + 1) 0 := List.mem_append_right _ (by simp)
  obtain ⟨y, z, hyz, hy⟩ := List.eq_append_cons_of_mem hmem
  refine ⟨y, ?_⟩
  rw [List.append_assoc, hyz, ← List.append_assoc]
  exact cstr_of_append (fun hm => (List.mem_append.mp hm).elim hhead hy) z

include hcontext hxc hkey3 hq h0

/-- **A request of the old protocol** whose last chunk has all of `key3` is answered with the header and the digest of
the keys, as far as its first zero byte. -/
theorem websock_answers_old (hg : AwaitsRequest g x) (hsize : (x ++ c).length < recvCacheSize)
    (hid : ascii "Sec-WebSocket-Key1:" <:+: t) (hfit : Request1Fits t) :
    ∃ g' n1 n2, (headerText t "Sec-WebSocket-Key1:").bind keyNumber = some n1 ∧
      (headerText t "Sec-WebSocket-Key2:").bind keyNumber = some n2 ∧
      websock_recv_cb (zhWebSockHandshake_1 (deviceDigests sha context))
        (zhWebSockHandshake_2 (deviceDigests sha context)) sock_fd g c =
          some (g', [.write sock_fd (oldHeader t ++ (md5 (be32 n1 ++ be32 n2 ++ key3)).toList.takeWhile (· ≠ 0))]) := by
  have hmem : (x ++ c) ++ List.replicate (recvCacheSize - (x ++ c).length) 0 =
      t ++ ascii "\r\n\r\n" ++ (key3 ++ rest) ++ List.replicate (recvCacheSize - (x ++ c).length) 0 := by
    rw [hxc]
    simp only [List.append_assoc]
  obtain ⟨y, hsrc⟩ := cstr_cache h0 (Nat.sub_pos_of_lt hsize)
  rw [← hmem] at hsrc
  have hall : requestText (t ++ ascii "\r\n\r\n" ++ y) = some t := requestText_append hq y
  have hbuf : ((x ++ c) ++ List.replicate (recvCacheSize - (x ++ c).length) 0).length = recvCacheSize := by
    rw [List.length_append, List.length_replicate]
    omega
  obtain ⟨⟨ret, h'⟩, hr⟩ := (handshake_1_defined_iff (deviceDigests sha context)
    (h := ⟨_, g.wsclient.hs, g.wssocket_acceptBuf⟩) hsrc hall hbuf hg.accept).mpr hfit
  obtain ⟨recvbuf, k3, text, hst, hk3, -, htext, hcpy, hret, -⟩ := handshake_1_eq_some (deviceDigests sha context)
    (h := ⟨_, g.wsclient.hs, g.wssocket_acceptBuf⟩) hsrc hall hr
  obtain rfl : ret = 0 := hret
  -- the eight bytes lie behind the NUL that was put into the blank line
  have hkey : k3 = key3 := by
    have hmid := load_mid (t ++ ascii "\r\n\r\n") key3 (rest ++ List.replicate (recvCacheSize - (x ++ c).length) 0)
    have hfour : (t ++ ascii "\r\n\r\n").length = t.length + 4 := List.length_append
    have hbehind := load_store_behind (k := t.length + 4) hst (by rw [List.length_singleton]; omega) 8
    rw [hk3, hmem, ← hkey3, ← hfour] at hbehind
    simp only [List.append_assoc] at hbehind hmid
    exact Option.some.inj (hbehind.trans hmid)
  obtain rfl := hkey
  simp only [accept_1, Option.bind_eq_bind, Option.bind_eq_some_iff, Option.ite_none_right_eq_some,
    Option.some.injEq] at htext
  obtain ⟨k1, hk1, n1, hn1, k2, hk2, n2, hn2, -, rfl⟩ := htext
  have hraw : (be32 n1 ++ be32 n2 ++ k3).length = 16 := by
    rw [List.length_append, hkey3]
    rfl
  rw [device_md5 hcontext (by rw [hraw]; decide)] at hcpy
  have hcut : cstr h'.acceptBuf =
      some ((oldHeader t ++ (md5 (be32 n1 ++ be32 n2 ++ k3)).toList).takeWhile (· ≠ 0)) := cstr_strcpy_cut hcpy
  rw [List.takeWhile_append_of_pos fun b hb =>
    decide_eq_true (ne_of_mem_of_not_mem hb (zero_notMem_oldHeader h0))] at hcut
  have hshake : zhWebSockHandshake (zhWebSockHandshake_1 (deviceDigests sha context))
      (zhWebSockHandshake_2 (deviceDigests sha context)) (x ++ c).length
      ⟨(x ++ c) ++ List.replicate (recvCacheSize - (x ++ c).length) 0, g.wsclient.hs, g.wssocket_acceptBuf⟩ =
        some (0, h') := by
    have hlong : ¬ (x ++ c).length ≤ 4 := by
      rw [hxc]
      simp only [List.length_append, hkey3]
      omega
    obtain ⟨s, hs⟩ := strstr_of_infix hid
    have hfound := strstr_append (ascii "\r\n\r\n" ++ y) hs
    rw [← List.append_assoc] at hfound
    rw [zhWebSockHandshake, if_neg (not_not_intro hg.method), zhWebSockIdentify, if_neg hlong, hsrc, Option.map_some,
      hfound, Option.isSome_some, if_pos rfl, Option.bind_some]
    dsimp only
    rw [hr]
    rfl
  refine ⟨_, n1, n2, ?_, ?_, recv_cb_ends hg hsize.le hshake hcut⟩
  · rw [← hn1, show headerText t "Sec-WebSocket-Key1:" = some k1 from hk1, Option.bind_some]
  · rw [← hn2, show headerText t "Sec-WebSocket-Key2:" = some k2 from hk2, Option.bind_some]

end Old

/-- A request of the old protocol in front of its blank line. -/
def oldText : Bytes := ascii "GET / HTTP/1.1\r\nSec-WebSocket-Key1: 1 2\r\nSec-WebSocket-Key2: 3 4"

theorem oldText_fits : Request1Fits oldText where
  values := ⟨by decide +kernel, by decide +kernel⟩
  key1 := ⟨ascii "1 2", by decide +kernel, by decide, by decide⟩
  key2 := ⟨ascii "3 4", by decide +kernel, by decide, by decide⟩
  key3 := by decide +kernel
  answer := by decide +kernel

/-- In one piece, with a byte behind the eight. -/
theorem websock_answers_old_text :
    ∃ g' n1 n2, (headerText oldText "Sec-WebSocket-Key1:").bind keyNumber = some n1 ∧
      (headerText oldText "Sec-WebSocket-Key2:").bind keyNumber = some n2 ∧
      websock_recv_cb (zhWebSockHandshake_1 (deviceDigests freshContext stackContext))
        (zhWebSockHandshake_2 (deviceDigests freshContext stackContext)) 3 (app_websocket_task_accept wsockBoot 3).1.serv
        (oldText ++ ascii "\r\n\r\n" ++ ascii "12345678" ++ [33]) =
          some (g', [.write 3 (oldHeader oldText ++
            (md5 (be32 n1 ++ be32 n2 ++ ascii "12345678")).toList.takeWhile (· ≠ 0))]) :=
  websock_answers_old (x := []) rfl rfl rfl (by decide +kernel) (by decide +kernel) (accept_awaits 3)
    (by decide +kernel) ⟨ascii "GET / HTTP/1.1\r\n", ascii " 1 2\r\nSec-WebSocket-Key2: 3 4", by decide +kernel⟩
    oldText_fits

end Esp32Base
