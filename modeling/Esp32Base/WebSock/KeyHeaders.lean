import Esp32Base.WebSock.Conn
import Esp32Base.WebSock.Handshake

/-!
# WebSock.KeyHeaders — the key headers of a handshake request (websocket.c)

`zhWebSockHandshake_1` divides by the number of spaces in `Sec-WebSocket-Key1` and `Sec-WebSocket-Key2`, and
`zhWebSockHandshake_2` prints `Sec-WebSocket-Key`, without a look at whether the header is there.

* `handshake_1_defined_iff`, `handshake_2_defined_iff`: the requests each of the two can answer.
* `handshake_safe_iff`: the requests on which `zhWebSockHandshake` returns and uses no absent or empty key.
-/

namespace Esp32Base

open Lib Lib.Buf Lib.CText

/-- The size of `acceptBuf`. -/
def acceptBufSize : ℕ := 512

/-! ## What is required of a request -/

/-- The trimmed text behind a header's name in the text of a request, NULL when nothing was copied. -/
def headerText (t : Bytes) (name : String) : Option Bytes :=
  zhWebSockTrim (if matchLoop (ascii name) 0 0 t = [] then none else some (matchLoop (ascii name) 0 0 t))

/-- The same of the target, which ends at a space and is not trimmed. -/
def resourceText (t : Bytes) : Option Bytes :=
  if matchLoop (ascii "GET ") 32 0 t = [] then none else some (matchLoop (ascii "GET ") 32 0 t)

/-- Everything that `zhWebSockMatchString` copies out of the text fits its `buf[1024]`. -/
def ValuesFit (t : Bytes) (names : List String) : Prop :=
  (matchLoop (ascii "GET ") 32 0 t).length < 1024 ∧ ∀ name ∈ names, (matchLoop (ascii name) 0 0 t).length < 1024

def names_1 : List String := ["Host:", "Origin:", "Sec-WebSocket-Protocol:", "Sec-WebSocket-Key1:", "Sec-WebSocket-Key2:"]

def names_2 : List String := ["Host:", "Origin:", "Sec-WebSocket-Key:", "Sec-WebSocket-Version:"]

/-- A key of the old protocol that can be used: it is there, it has a space, and its digits and a NUL fit the 64
bytes. -/
def KeyUsable (key : Option Bytes) : Prop := ∃ k, key = some k ∧ 32 ∈ k ∧ (k.filter isdigit).length < 64

/-- The characters of the three fields that are printed in the answer of the old protocol. -/
def printedLength (origin host resource : Option Bytes) : ℕ :=
  (printStr origin).length + (printStr host).length + (printStr resource).length

/-- The old protocol, `t` in front of the blank line: usable keys, eight bytes behind the blank line, and an answer
that fits. -/
structure Request1Fits (t : Bytes) : Prop where
  values : ValuesFit t names_1
  key1 : KeyUsable (headerText t "Sec-WebSocket-Key1:")
  key2 : KeyUsable (headerText t "Sec-WebSocket-Key2:")
  key3 : t.length + 12 ≤ recvCacheSize
  answer : printedLength (headerText t "Origin:") (headerText t "Host:") (resourceText t) < 323

/-- The new protocol: a key that is there, is not empty and fits `msg[256]`. -/
structure Request2Fits (t : Bytes) : Prop where
  values : ValuesFit t names_2
  key : ∃ k, headerText t "Sec-WebSocket-Key:" = some k ∧ k ≠ [] ∧ k.length < 220

/-- The request text `src` is not identified, or has no blank line, or is one that can be answered. -/
def KeysFit (recvbuf src : Bytes) (buflen : ℕ) : Prop :=
  ∀ t, requestText src = some t →
    (zhWebSockIdentify recvbuf buflen = some .method_1 → Request1Fits t) ∧
    (zhWebSockIdentify recvbuf buflen = some .method_2 → Request2Fits t)

/-! ## What a call should do -/

/-- The keys that the answer of a handshake is computed from. -/
def keysUsed (hs : TzhWebSocket) : List (Option Bytes) :=
  match hs.method with
  | .unknow => []
  | .method_1 => [hs.key1, hs.key2]
  | .method_2 => [hs.key]

/-- A key that is missing, is empty or has no space. -/
def KeyBad (key : Option Bytes) : Prop := ∀ k, key = some k → 32 ∉ k

/-- The call returns; an answer comes from keys that are there and not empty; a request of the old protocol with a
bad key is answered with -1. -/
def HandshakeSafe (d : Digests) (src : Bytes) (buflen : ℕ) (h : Handshake) : Prop :=
  ∃ r h', zhWebSockHandshake (zhWebSockHandshake_1 d) (zhWebSockHandshake_2 d) buflen h = some (r, h') ∧
    (r = 0 → ∀ key ∈ keysUsed h'.hs, ∃ k, key = some k ∧ k ≠ []) ∧
    (zhWebSockIdentify h.recvbuf buflen = some .method_1 → ∀ t, requestText src = some t →
      KeyBad (headerText t "Sec-WebSocket-Key1:") ∨ KeyBad (headerText t "Sec-WebSocket-Key2:") → r = -1)

/-! ## The fields -/

theorem headerValue_eq (t : Bytes) (name : String) : headerValue t name =
    if (matchLoop (ascii name) 0 0 t).length < 1024 then some (headerText t name) else none := by
  unfold headerValue zhWebSockMatchString
  by_cases hlt : (matchLoop (ascii name) 0 0 t).length < 1024
  · simp only [if_neg (not_le.mpr hlt), if_pos hlt, Option.map_some]
    rfl
  · simp only [if_pos (not_lt.mp hlt), if_neg hlt, Option.map_none]

theorem matchString_eq (t : Bytes) : zhWebSockMatchString t (ascii "GET ") 32 =
    if (matchLoop (ascii "GET ") 32 0 t).length < 1024 then some (resourceText t) else none := by
  unfold zhWebSockMatchString
  by_cases hlt : (matchLoop (ascii "GET ") 32 0 t).length < 1024
  · simp only [if_neg (not_le.mpr hlt), if_pos hlt]
    rfl
  · simp only [if_pos (not_lt.mp hlt), if_neg hlt]

/-- The fields after each handshake. -/
def filled_1 (t : Bytes) (hs : TzhWebSocket) : TzhWebSocket :=
  ⟨.method_1, resourceText t, headerText t "Host:", headerText t "Origin:", headerText t "Sec-WebSocket-Protocol:",
    hs.key, headerText t "Sec-WebSocket-Key1:", headerText t "Sec-WebSocket-Key2:", hs.version⟩

def filled_2 (t : Bytes) (hs : TzhWebSocket) : TzhWebSocket :=
  ⟨.method_2, resourceText t, headerText t "Host:", headerText t "Origin:", hs.protocol,
    headerText t "Sec-WebSocket-Key:", hs.key1, hs.key2, headerText t "Sec-WebSocket-Version:"⟩

theorem fields_1_eq_some {t : Bytes} {hs hs' : TzhWebSocket} :
    fields_1 t hs = some hs' ↔ ValuesFit t names_1 ∧ filled_1 t hs = hs' := by
  simp only [fields_1, headerValue_eq, matchString_eq, Option.bind_eq_bind, Option.bind_eq_some_iff, Option.pure_def,
    Option.some.injEq, Option.ite_none_right_eq_some, ValuesFit, names_1, List.forall_mem_cons, List.not_mem_nil]
  constructor
  · rintro ⟨_, ⟨h1, rfl⟩, _, ⟨h2, rfl⟩, _, ⟨h3, rfl⟩, _, ⟨h4, rfl⟩, _, ⟨h5, rfl⟩, _, ⟨h6, rfl⟩, rfl⟩
    exact ⟨⟨h1, h2, h3, h4, h5, h6, by simp⟩, rfl⟩
  · rintro ⟨⟨h1, h2, h3, h4, h5, h6, -⟩, rfl⟩
    exact ⟨_, ⟨h1, rfl⟩, _, ⟨h2, rfl⟩, _, ⟨h3, rfl⟩, _, ⟨h4, rfl⟩, _, ⟨h5, rfl⟩, _, ⟨h6, rfl⟩, rfl⟩

theorem fields_2_eq_some {t : Bytes} {hs hs' : TzhWebSocket} :
    fields_2 t hs = some hs' ↔ ValuesFit t names_2 ∧ filled_2 t hs = hs' := by
  simp only [fields_2, headerValue_eq, matchString_eq, Option.bind_eq_bind, Option.bind_eq_some_iff, Option.pure_def,
    Option.some.injEq, Option.ite_none_right_eq_some, ValuesFit, names_2, List.forall_mem_cons, List.not_mem_nil]
  constructor
  · rintro ⟨_, ⟨h1, rfl⟩, _, ⟨h2, rfl⟩, _, ⟨h3, rfl⟩, _, ⟨h4, rfl⟩, _, ⟨h5, rfl⟩, rfl⟩
    exact ⟨⟨h1, h2, h3, h4, h5, by simp⟩, rfl⟩
  · rintro ⟨⟨h1, h2, h3, h4, h5, -⟩, rfl⟩
    exact ⟨_, ⟨h1, rfl⟩, _, ⟨h2, rfl⟩, _, ⟨h3, rfl⟩, _, ⟨h4, rfl⟩, _, ⟨h5, rfl⟩, rfl⟩

/-! ## The answers -/

/-- A key gives a number iff it can be used. -/
theorem keyNumber_defined_iff (key : Option Bytes) : (∃ n, key.bind keyNumber = some n) ↔ KeyUsable key := by
  cases key with
  | none => simp [KeyUsable]
  | some k =>
    simp only [Option.bind_some, keyNumber, KeyUsable, Option.ite_none_right_eq_some, Option.some.injEq, ne_eq,
      List.count_eq_zero, not_not]
    constructor
    · rintro ⟨n, ⟨hdigits, hspace⟩, -⟩
      exact ⟨k, rfl, hspace, hdigits⟩
    · rintro ⟨k', rfl, hspace, hdigits⟩
      exact ⟨_, ⟨hdigits, hspace⟩, rfl⟩

/-- The answer of the old protocol, with its digest and NUL, fits `acceptBuf`. -/
theorem accept_1_defined_iff (d : Digests) (hs : TzhWebSocket) (key3 : Bytes) :
    (∃ text, accept_1 d hs key3 = some text ∧ text.length < acceptBufSize) ↔
      KeyUsable hs.key1 ∧ KeyUsable hs.key2 ∧ printedLength hs.origin hs.host hs.resource < 323 := by
  rw [← keyNumber_defined_iff, ← keyNumber_defined_iff]
  have hparts : (ascii "HTTP/1.1 101 WebSocket Protocol Handshake\r\nUpgrade: WebSocket\r\nConnection: Upgrade\r\n" ++
      ascii "Sec-WebSocket-Origin: " ++ printStr hs.origin ++ ascii "\r\nSec-WebSocket-Location: ws://" ++
      printStr hs.host ++ printStr hs.resource ++ ascii "\r\nSec-WebSocket-Protocol: sample\r\n\r\n").length =
        printedLength hs.origin hs.host hs.resource + 173 := by
    have h1 : (ascii "HTTP/1.1 101 WebSocket Protocol Handshake\r\nUpgrade: WebSocket\r\nConnection: Upgrade\r\n").length =
        84 := by decide +kernel
    have h2 : (ascii "Sec-WebSocket-Origin: ").length = 22 := by decide +kernel
    have h3 : (ascii "\r\nSec-WebSocket-Location: ws://").length = 31 := by decide +kernel
    have h4 : (ascii "\r\nSec-WebSocket-Protocol: sample\r\n\r\n").length = 36 := by decide +kernel
    simp only [List.length_append, h1, h2, h3, h4, printedLength]
    omega
  constructor
  · rintro ⟨text, htext, hlen⟩
    simp only [accept_1, Option.bind_eq_bind, Option.bind_eq_some_iff, Option.ite_none_right_eq_some,
      Option.some.injEq] at htext
    obtain ⟨k1, hk1, n1, hn1, k2, hk2, n2, hn2, -, rfl⟩ := htext
    rw [hk1, hk2]
    refine ⟨⟨n1, hn1⟩, ⟨n2, hn2⟩, ?_⟩
    rw [List.length_append, hparts, Vector.length_toList] at hlen
    unfold acceptBufSize at hlen
    omega
  · rintro ⟨⟨n1, hn1⟩, ⟨n2, hn2⟩, hfit⟩
    obtain ⟨k1, hk1, hn1⟩ := Option.bind_eq_some_iff.mp hn1
    obtain ⟨k2, hk2, hn2⟩ := Option.bind_eq_some_iff.mp hn2
    simp only [accept_1, hk1, hk2, hn1, hn2, Option.bind_eq_bind, Option.bind_some]
    refine ⟨_, if_pos (by rw [hparts]; omega), ?_⟩
    rw [List.length_append, hparts, Vector.length_toList]
    unfold acceptBufSize
    omega

theorem changeChar_flatMap (ws : List UInt32) : ∃ e, ChangeCharToArray (ws.flatMap printWord) = some e ∧
    e.length = 4 * ws.length := by
  induction ws with
  | nil => exact ⟨[], rfl, rfl⟩
  | cons w ws ih =>
    obtain ⟨e, he, hlen⟩ := ih
    rw [List.flatMap_cons]
    simp only [printWord, printHex, List.cons_append, List.nil_append, ChangeCharToArray, he, Option.map_some]
    refine ⟨_, rfl, ?_⟩
    simp only [List.length_cons]
    omega

theorem base64_encode_length : ∀ src : Bytes, (base64_encode src).length = 4 * ((src.length + 2) / 3)
  | [] => rfl
  | [_] => by simp [base64_encode]
  | [_, _] => by simp [base64_encode]
  | a :: b :: c :: src => by
    rw [base64_encode, List.length_append, base64_encode_length src]
    simp only [List.length_cons, List.length_nil]
    omega

/-- The answer of the new protocol always fits; its key has to be there for `msg`. -/
theorem accept_2_defined_iff (d : Digests) (hs : TzhWebSocket) :
    (∃ text, accept_2 d hs = some text ∧ ∀ t ∈ text, t.length < acceptBufSize) ↔ (printStr hs.key).length < 220 := by
  have hmsg : (printStr hs.key ++ ascii "258EAFA5-E914-47DA-95CA-C5AB0DC85B11").length = (printStr hs.key).length + 36 := by
    rw [List.length_append]
    rfl
  unfold accept_2
  simp only [hmsg]
  constructor
  · rintro ⟨text, htext, -⟩
    split_ifs at htext with hlt
    omega
  · intro hlt
    rw [if_pos (by omega)]
    cases d.SHA1Result (printStr hs.key ++ ascii "258EAFA5-E914-47DA-95CA-C5AB0DC85B11") with
    | none => exact ⟨none, rfl, by simp⟩
    | some digest =>
      obtain ⟨e, he, helen⟩ := changeChar_flatMap digest.toList
      simp only [he, Option.map_some]
      refine ⟨_, rfl, fun t ht => ?_⟩
      obtain rfl := Option.some.inj ht
      have h1 : (ascii "HTTP/1.1 101 Switching Protocols\r\nUpgrade: WebSocket\r\nConnection: Upgrade\r\n").length = 75 := by
        decide +kernel
      have h2 : (ascii "Sec-WebSocket-Accept: ").length = 22 := by decide +kernel
      have h3 : (ascii "\r\n\r\n").length = 4 := by decide +kernel
      rw [Vector.length_toList] at helen
      simp only [List.length_append, h1, h2, h3, base64_encode_length, helen, acceptBufSize]
      decide

/-! ## The two handshakes -/

section Defined

variable (d : Digests) {h : Handshake} {src t : Bytes} (hsrc : cstr h.recvbuf = some src)
  (hq : requestText src = some t) (hbuf : h.recvbuf.length = recvCacheSize)
  (hacc : h.acceptBuf.length = acceptBufSize)

include hsrc hq in
/-- The NUL in place of the blank line. -/
theorem store_blank : ∃ recvbuf, store h.recvbuf t.length [0] = some recvbuf := by
  obtain ⟨rest, hmem, -⟩ := cstr_eq_some.mp hsrc
  obtain ⟨p, hp, ht⟩ := Option.map_eq_some_iff.mp hq
  have hlt : t.length ≤ src.length := by
    rw [← ht, List.length_take]
    omega
  refine ⟨_, store_of_le ?_⟩
  rw [hmem, List.length_singleton, List.length_append, List.length_cons]
  omega

include hsrc hq in
/-- What a call that returns has done. -/
theorem handshake_1_eq_some {r : ℤ × Handshake} (hr : zhWebSockHandshake_1 d h = some r) :
    ∃ recvbuf key3 text, store h.recvbuf t.length [0] = some recvbuf ∧ load recvbuf (t.length + 4) 8 = some key3 ∧
      ValuesFit t names_1 ∧ accept_1 d (filled_1 t h.hs) key3 = some text ∧
      strcpy h.acceptBuf 0 text = some r.2.acceptBuf ∧ r.1 = 0 ∧ r.2.hs = filled_1 t h.hs := by
  rw [zhWebSockHandshake_1, hsrc, Option.bind_some, hq] at hr
  obtain ⟨recvbuf, hst, hr⟩ := Option.bind_eq_some_iff.mp hr
  obtain ⟨key3, hkey3, hr⟩ := Option.bind_eq_some_iff.mp hr
  obtain ⟨hs, hf, hr⟩ := Option.bind_eq_some_iff.mp hr
  obtain ⟨text, htext, hr⟩ := Option.bind_eq_some_iff.mp hr
  obtain ⟨acceptBuf, hcpy, rfl⟩ := Option.map_eq_some_iff.mp hr
  obtain ⟨hvalues, rfl⟩ := fields_1_eq_some.mp hf
  exact ⟨recvbuf, key3, text, hst, hkey3, hvalues, htext, hcpy, rfl, rfl⟩

include hsrc hq in
/-- The same for the new protocol; without a digest there is no text to copy. -/
theorem handshake_2_eq_some {r : ℤ × Handshake} (hr : zhWebSockHandshake_2 d h = some r) :
    ∃ text, ValuesFit t names_2 ∧ accept_2 d (filled_2 t h.hs) = some text ∧
      (∀ s ∈ text, strcpy h.acceptBuf 0 s = some r.2.acceptBuf) ∧ r.1 = 0 ∧ r.2.hs = filled_2 t h.hs := by
  rw [zhWebSockHandshake_2, hsrc, Option.bind_some, hq] at hr
  obtain ⟨recvbuf, -, hr⟩ := Option.bind_eq_some_iff.mp hr
  obtain ⟨hs, hf, hr⟩ := Option.bind_eq_some_iff.mp hr
  obtain ⟨text, htext, hr⟩ := Option.bind_eq_some_iff.mp hr
  obtain ⟨hvalues, rfl⟩ := fields_2_eq_some.mp hf
  refine ⟨text, hvalues, htext, ?_⟩
  cases text with
  | none =>
    obtain rfl := Option.some.inj hr
    exact ⟨(fun s hs => by cases hs), rfl, rfl⟩
  | some text =>
    obtain ⟨acceptBuf, hcpy, rfl⟩ := Option.map_eq_some_iff.mp hr
    refine ⟨fun s hs => ?_, rfl, rfl⟩
    obtain rfl := Option.some.inj hs
    exact hcpy

include hsrc hq hbuf hacc

/-- **The old protocol**: an answer is computed iff both keys can be used and everything fits. -/
theorem handshake_1_defined_iff : (∃ r, zhWebSockHandshake_1 d h = some r) ↔ Request1Fits t := by
  constructor
  · rintro ⟨r, hr⟩
    obtain ⟨recvbuf, key3, text, hst, hkey3, hvalues, htext, hcpy, -, -⟩ := handshake_1_eq_some d hsrc hq hr
    have hfit := strcpy_lt hcpy
    rw [hacc] at hfit
    obtain ⟨h1, h2, h3⟩ := (accept_1_defined_iff d _ key3).mp ⟨text, htext, hfit⟩
    have hlen := store_length hst
    have hload := (load_eq_some hkey3).1
    exact ⟨hvalues, h1, h2, by omega, h3⟩
  · rintro ⟨hvalues, h1, h2, h3, h4⟩
    obtain ⟨recvbuf, hst⟩ := store_blank hsrc hq
    have hlen := store_length hst
    have hkey3 : load recvbuf (t.length + 4) 8 = some _ := load_of_le (by omega)
    have hf := (@fields_1_eq_some t h.hs (filled_1 t h.hs)).mpr ⟨hvalues, rfl⟩
    obtain ⟨text, htext, hfit⟩ := (accept_1_defined_iff d (filled_1 t h.hs) _).mpr ⟨h1, h2, h4⟩
    have hcpy := strcpy_of_lt (hfit.trans_eq hacc.symm)
    rw [zhWebSockHandshake_1, hsrc, Option.bind_some, hq]
    simp only [hst, Option.bind_some]
    rw [hkey3, Option.bind_some, hf, Option.bind_some, htext, Option.bind_some, hcpy]
    exact ⟨_, rfl⟩

omit hbuf in
/-- **The new protocol**: an answer is computed, with or without a key. -/
theorem handshake_2_defined_iff : (∃ r, zhWebSockHandshake_2 d h = some r) ↔
    ValuesFit t names_2 ∧ (printStr (headerText t "Sec-WebSocket-Key:")).length < 220 := by
  constructor
  · rintro ⟨r, hr⟩
    obtain ⟨text, hvalues, htext, hcpy, -, -⟩ := handshake_2_eq_some d hsrc hq hr
    refine ⟨hvalues, (accept_2_defined_iff d _).mp ⟨text, htext, fun s hs => ?_⟩⟩
    have hfit := strcpy_lt (hcpy s hs)
    rwa [hacc] at hfit
  · rintro ⟨hvalues, hkey⟩
    obtain ⟨recvbuf, hst⟩ := store_blank hsrc hq
    have hf := (@fields_2_eq_some t h.hs (filled_2 t h.hs)).mpr ⟨hvalues, rfl⟩
    obtain ⟨text, htext, hfit⟩ := (accept_2_defined_iff d (filled_2 t h.hs)).mpr hkey
    rw [zhWebSockHandshake_2, hsrc, Option.bind_some, hq]
    simp only [hst, Option.bind_some]
    rw [hf, Option.bind_some, htext, Option.bind_some]
    cases text with
    | none => exact ⟨_, rfl⟩
    | some text =>
      simp only [strcpy_of_lt ((hfit text rfl).trans_eq hacc.symm)]
      exact ⟨_, rfl⟩

end Defined

/-! ## The call -/

theorem identify_defined {recvbuf src : Bytes} (hsrc : cstr recvbuf = some src) (buflen : ℕ) :
    ∃ m, zhWebSockIdentify recvbuf buflen = some m := by
  unfold zhWebSockIdentify
  rw [hsrc]
  split_ifs
  · exact ⟨_, rfl⟩
  · exact ⟨_, rfl⟩

/-- A usable key is not a bad one. -/
theorem KeyUsable.not_bad {key : Option Bytes} (h : KeyUsable key) : ¬ KeyBad key := by
  obtain ⟨k, rfl, hspace, -⟩ := h
  exact fun hbad => hbad k rfl hspace

theorem KeyUsable.present {key : Option Bytes} (h : KeyUsable key) : ∃ k, key = some k ∧ k ≠ [] := by
  obtain ⟨k, rfl, hspace, -⟩ := h
  exact ⟨k, rfl, List.ne_nil_of_mem hspace⟩

section Safe

variable (d : Digests) (buflen : ℕ) {h : Handshake} {src : Bytes} (hsrc : cstr h.recvbuf = some src)
  (hnew : h.hs.method = .unknow) (hacc : h.acceptBuf.length = acceptBufSize)

include hsrc hnew

/-- Without a blank line the call waits. -/
theorem handshake_safe_of_noBlank (hq : requestText src = none) : HandshakeSafe d src buflen h := by
  obtain ⟨m, hm⟩ := identify_defined hsrc buflen
  refine ⟨-1, h, ?_, fun h0 => absurd h0 (by decide), fun _ _ _ _ => rfl⟩
  have h1 : zhWebSockHandshake_1 d h = some (1, h) := by
    rw [zhWebSockHandshake_1, hsrc, Option.bind_some, hq]
  have h2 : zhWebSockHandshake_2 d h = some (1, h) := by
    rw [zhWebSockHandshake_2, hsrc, Option.bind_some, hq]
  rw [zhWebSockHandshake, if_neg (not_not.mpr hnew), hm, Option.bind_some]
  cases m with
  | unknow => rfl
  | method_1 => simp [h1]
  | method_2 => simp [h2]

include hacc

theorem handshake_safe_1 {t : Bytes} (hq : requestText src = some t)
    (hm : zhWebSockIdentify h.recvbuf buflen = some .method_1) (hbuf : h.recvbuf.length = recvCacheSize) :
    HandshakeSafe d src buflen h ↔ Request1Fits t := by
  unfold HandshakeSafe zhWebSockHandshake
  rw [if_neg (not_not.mpr hnew), hm, Option.bind_some]
  simp only
  constructor
  · rintro ⟨r, h', hr, -⟩
    obtain ⟨r', hr', -⟩ := Option.map_eq_some_iff.mp hr
    exact (handshake_1_defined_iff d hsrc hq hbuf hacc).mp ⟨r', hr'⟩
  · intro hfits
    obtain ⟨⟨r, h'⟩, hr⟩ := (handshake_1_defined_iff d hsrc hq hbuf hacc).mpr hfits
    obtain ⟨-, -, -, -, -, -, -, -, h0, hfields⟩ := handshake_1_eq_some d hsrc hq hr
    dsimp only at h0 hfields
    refine ⟨0, h', by rw [hr, Option.map_some, h0, if_pos rfl], fun _ key hkey => ?_, fun _ t' ht' hbad => ?_⟩
    · rw [hfields] at hkey
      simp only [keysUsed, filled_1, List.mem_cons, List.not_mem_nil, or_false] at hkey
      rcases hkey with rfl | rfl
      · exact hfits.key1.present
      · exact hfits.key2.present
    · rw [hq] at ht'
      obtain rfl := Option.some.inj ht'
      exact absurd hbad (not_or.mpr ⟨hfits.key1.not_bad, hfits.key2.not_bad⟩)

theorem handshake_safe_2 {t : Bytes} (hq : requestText src = some t)
    (hm : zhWebSockIdentify h.recvbuf buflen = some .method_2) :
    HandshakeSafe d src buflen h ↔ Request2Fits t := by
  unfold HandshakeSafe zhWebSockHandshake
  rw [if_neg (not_not.mpr hnew), hm, Option.bind_some]
  simp only
  constructor
  · rintro ⟨r, h', hr, hkeys, -⟩
    obtain ⟨⟨r', h''⟩, hr', hret⟩ := Option.map_eq_some_iff.mp hr
    obtain ⟨-, -, -, -, h0, hfields⟩ := handshake_2_eq_some d hsrc hq hr'
    obtain ⟨hvalues, hlen⟩ := (handshake_2_defined_iff d hsrc hq hacc).mp ⟨_, hr'⟩
    dsimp only at h0 hfields
    simp only [h0, if_true, Prod.mk.injEq] at hret
    obtain ⟨rfl, rfl⟩ := hret
    obtain ⟨k, hk, hne⟩ := hkeys rfl (headerText t "Sec-WebSocket-Key:") (by rw [hfields]; exact List.mem_singleton_self _)
    rw [hk] at hlen
    exact ⟨hvalues, k, hk, hne, hlen⟩
  · rintro ⟨hvalues, k, hk, hne, hlen⟩
    obtain ⟨⟨r, h'⟩, hr⟩ := (handshake_2_defined_iff d hsrc hq hacc).mpr ⟨hvalues, by rw [hk]; exact hlen⟩
    obtain ⟨-, -, -, -, h0, hfields⟩ := handshake_2_eq_some d hsrc hq hr
    dsimp only at h0 hfields
    refine ⟨0, h', by rw [hr, Option.map_some, h0, if_pos rfl], fun _ key hkey => ?_, fun h1 => by cases h1⟩
    rw [hfields] at hkey
    obtain rfl := List.mem_singleton.mp hkey
    exact ⟨k, hk, hne⟩

/-- **A handshake is safe** iff the request is not identified, or has no blank line, or has the keys of its protocol,
usable, and everything that is copied fits. -/
theorem handshake_safe_iff (hbuf : h.recvbuf.length = recvCacheSize) :
    HandshakeSafe d src buflen h ↔ KeysFit h.recvbuf src buflen := by
  unfold KeysFit
  cases hq : requestText src with
  | none => exact iff_of_true (handshake_safe_of_noBlank d buflen hsrc hnew hq) (by simp)
  | some t =>
    obtain ⟨m, hm⟩ := identify_defined hsrc buflen
    simp only [Option.some.injEq, forall_eq', hm]
    cases m with
    | unknow =>
      refine iff_of_true ⟨-1, h, ?_, fun h0 => absurd h0 (by decide), fun h1 => ?_⟩ (by simp)
      · rw [zhWebSockHandshake, if_neg (not_not.mpr hnew), hm]
        rfl
      · rw [hm] at h1
        cases h1
    | method_1 => simp [handshake_safe_1 d buflen hsrc hnew hacc hq hm hbuf]
    | method_2 => simp [handshake_safe_2 d buflen hsrc hnew hacc hq hm]

end Safe

/-- The call of `websock_recv_cb` on a request text in a cache that was zeroed. -/
def handedText (text : Bytes) : Handshake :=
  ⟨text ++ List.replicate (recvCacheSize - text.length) 0, zhWebSockInit, List.replicate acceptBufSize 0⟩

def zeroDigests : Digests := ⟨fun _ => Vector.replicate 16 0, fun _ => some (Vector.replicate 5 0)⟩

/-- A request of the old protocol. -/
def twoKeys : Bytes :=
  ascii "GET / HTTP/1.1\r\nSec-WebSocket-Key1: 1 2\r\nSec-WebSocket-Key2: 3 4\r\n\r\n12345678"

theorem handshake_safe_two_keys :
    HandshakeSafe zeroDigests twoKeys 76 (handedText twoKeys) ↔ KeysFit (handedText twoKeys).recvbuf twoKeys 76 :=
  handshake_safe_iff zeroDigests 76 (cstr_append_zeros (by decide +kernel) (by decide +kernel)) rfl
    List.length_replicate (by decide +kernel)

/-- The same without the second key: `strlen` is called with NULL. -/
def oneKey : Bytes := ascii "GET / HTTP/1.1\r\nSec-WebSocket-Key1: 1 2\r\n\r\n12345678"

theorem handshake_missing_key :
    zhWebSockHandshake (zhWebSockHandshake_1 zeroDigests) (zhWebSockHandshake_2 zeroDigests) 51 (handedText oneKey) = none ∧
      ¬ HandshakeSafe zeroDigests oneKey 51 (handedText oneKey) := by
  have hnone : (zhWebSockHandshake (zhWebSockHandshake_1 zeroDigests) (zhWebSockHandshake_2 zeroDigests) 51
      (handedText oneKey)).isNone = true := by decide +kernel
  rw [Option.isNone_iff_eq_none] at hnone
  refine ⟨hnone, ?_⟩
  rintro ⟨r, h', hr, -⟩
  rw [hnone] at hr
  cases hr

end Esp32Base
