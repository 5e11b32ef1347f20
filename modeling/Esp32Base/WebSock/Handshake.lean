import Esp32Base.Cfg.Command
import Esp32Base.Http.Serv
import Esp32Base.WebSock.Serv

/-!
# WebSock.Handshake — the two handshakes (websocket.c, c_base64.h)

Each takes the request text up to the first blank line apart and writes its answer to `acceptBuf`. The
digests of wsock_md5.c and sha1.c are parameters.

* `handshake_1_congr`, `handshake_2_congr`: what is seen of a handshake is determined by the text in front
  of the blank line, for the old protocol also by the eight bytes behind it.
-/

namespace Esp32Base

open Lib Lib.Buf Lib.CText

/-- The digests: `WsockMDData`, and what `SHA1Input` and `SHA1Result` leave in `Message_Digest`, `none` when
the latter answers 0. -/
structure Digests where
  WsockMDData : Bytes → Vector UInt8 16
  SHA1Result : Bytes → Option (Vector UInt32 5)

/-! ## Header fields -/

def zhWebSockLTrim : Option Bytes → Option Bytes := Option.map ltrim
def zhWebSockRTrim : Option Bytes → Option Bytes := Option.map rtrim
def zhWebSockTrim (str : Option Bytes) : Option Bytes := zhWebSockRTrim (zhWebSockLTrim str)

/-- The loop is that of `zhMatchString`. NULL when nothing was copied; the buffer has 1024 bytes, with the
NUL. -/
def zhWebSockMatchString (src pattern : Bytes) (end_ : UInt8) : Option (Option Bytes) :=
  let buf := matchLoop pattern end_ 0 src
  if 1024 ≤ buf.length then none else some (if buf = [] then none else some buf)

/-- The trimmed text behind a header's name. -/
def headerValue (src : Bytes) (name : String) : Option (Option Bytes) :=
  (zhWebSockMatchString src (ascii name) 0).map zhWebSockTrim

/-- `%s`; NULL as newlib prints it. -/
def printStr : Option Bytes → Bytes
  | none => ascii "(null)"
  | some s => s

/-- The text in front of the first blank line, where the handshakes put a NUL. -/
def requestText (src : Bytes) : Option Bytes :=
  (strstr (ascii "\r\n\r\n") src).map fun pstr => src.take (src.length - pstr.length)

/-! ## The old protocol -/

def fields_1 (src : Bytes) (hs : TzhWebSocket) : Option TzhWebSocket := do
  let resource ← zhWebSockMatchString src (ascii "GET ") 32
  let host ← headerValue src "Host:"
  let origin ← headerValue src "Origin:"
  let protocol ← headerValue src "Sec-WebSocket-Protocol:"
  let key1 ← headerValue src "Sec-WebSocket-Key1:"
  let key2 ← headerValue src "Sec-WebSocket-Key2:"
  return ⟨.method_1, resource, host, origin, protocol, hs.key, key1, key2, hs.version⟩

/-- The digits of a key as a number (`strtoul` clamps), divided by its spaces. The digits have 64 bytes, and
there is no check for a key without spaces. -/
def keyNumber (key : Bytes) : Option ℕ :=
  let digits := key.filter isdigit
  let spaces := key.count 32
  if digits.length < 64 ∧ spaces ≠ 0 then some (min (decimal 0 digits) (2 ^ 32 - 1) / spaces) else none

def be32 (n : ℕ) : Bytes :=
  [UInt8.ofNat (n / 2 ^ 24), UInt8.ofNat (n / 2 ^ 16), UInt8.ofNat (n / 2 ^ 8), UInt8.ofNat n]

section Handshakes

variable (d : Digests)

/-- What is copied to `acceptBuf`: the header in `handshake_str[1024]` and the digest. -/
def accept_1 (hs : TzhWebSocket) (key3 : Bytes) : Option Bytes := do
  let result1 ← keyNumber (← hs.key1)
  let result2 ← keyNumber (← hs.key2)
  let dig := d.WsockMDData (be32 result1 ++ be32 result2 ++ key3)
  let handshake_str :=
    ascii "HTTP/1.1 101 WebSocket Protocol Handshake\r\nUpgrade: WebSocket\r\nConnection: Upgrade\r\n" ++
      ascii "Sec-WebSocket-Origin: " ++ printStr hs.origin ++ ascii "\r\nSec-WebSocket-Location: ws://" ++
      printStr hs.host ++ printStr hs.resource ++ ascii "\r\nSec-WebSocket-Protocol: sample\r\n\r\n"
  if handshake_str.length < 1024 then some (handshake_str ++ dig.toList) else none

def zhWebSockHandshake_1 (h : Handshake) : Option (ℤ × Handshake) :=
  (cstr h.recvbuf).bind fun src =>
    match requestText src with
    | none => some (1, h)
    | some src =>
      (store h.recvbuf src.length [0]).bind fun recvbuf =>
        (load recvbuf (src.length + 4) 8).bind fun key3 =>
          (fields_1 src h.hs).bind fun hs =>
            (accept_1 d hs key3).bind fun text =>
              (strcpy h.acceptBuf 0 text).map fun acceptBuf => (0, ⟨recvbuf, hs, acceptBuf⟩)

/-! ## The new protocol -/

def fields_2 (src : Bytes) (hs : TzhWebSocket) : Option TzhWebSocket := do
  let resource ← zhWebSockMatchString src (ascii "GET ") 32
  let host ← headerValue src "Host:"
  let origin ← headerValue src "Origin:"
  let key ← headerValue src "Sec-WebSocket-Key:"
  let version ← headerValue src "Sec-WebSocket-Version:"
  return ⟨.method_2, resource, host, origin, hs.protocol, key, hs.key1, hs.key2, version⟩

/-- `%08X`. -/
def printWord (w : UInt32) : Bytes :=
  printHex hexUpper (w >>> 24).toUInt8 ++ printHex hexUpper (w >>> 16).toUInt8 ++
    printHex hexUpper (w >>> 8).toUInt8 ++ printHex hexUpper w.toUInt8

def hexNibble (c : UInt8) : UInt8 := if 65 ≤ c ∧ c ≤ 70 then c - 65 + 10 else c - 48

/-- Two characters a byte; `none` when the text ends inside a pair and the loop passes its NUL. -/
def ChangeCharToArray : Bytes → Option Bytes
  | [] => some []
  | [_] => none
  | a :: b :: s => (ChangeCharToArray s).map fun bits => ((hexNibble a <<< 4) ||| hexNibble b) :: bits

def base64_map (b : UInt8) : UInt8 :=
  (ascii "ABCDEFGHIJKLMNOPQRSTUVWXYZabcdefghijklmnopqrstuvwxyz0123456789+/").getD b.toNat 0

def base64_encode : Bytes → Bytes
  | a :: b :: c :: src =>
    [base64_map ((a >>> 2) &&& 0x3F), base64_map (((a <<< 4) &&& (0x30 : UInt8)) + ((b >>> 4) &&& 0xF)),
      base64_map (((b <<< 2) &&& (0x3C : UInt8)) + ((c >>> 6) &&& 0x3)), base64_map (c &&& 0x3F)] ++ base64_encode src
  | [a, b] =>
    [base64_map ((a >>> 2) &&& 0x3F), base64_map (((a <<< 4) &&& (0x30 : UInt8)) + ((b >>> 4) &&& 0xF)),
      base64_map ((b <<< 2) &&& (0x3C : UInt8)), 61]
  | [a] => [base64_map ((a >>> 2) &&& 0x3F), base64_map ((a <<< 4) &&& (0x30 : UInt8)), 61, 61]
  | [] => []

/-- What `sprintf` writes to `acceptBuf`, nothing without a digest. `msg` has 256 bytes. -/
def accept_2 (hs : TzhWebSocket) : Option (Option Bytes) :=
  let msg := printStr hs.key ++ ascii "258EAFA5-E914-47DA-95CA-C5AB0DC85B11"
  if msg.length < 256 then
    match d.SHA1Result msg with
    | none => some none
    | some digest =>
      (ChangeCharToArray (digest.toList.flatMap printWord)).map fun e =>
        some (ascii "HTTP/1.1 101 Switching Protocols\r\nUpgrade: WebSocket\r\nConnection: Upgrade\r\n" ++
          ascii "Sec-WebSocket-Accept: " ++ base64_encode e ++ ascii "\r\n\r\n")
  else none

def zhWebSockHandshake_2 (h : Handshake) : Option (ℤ × Handshake) :=
  (cstr h.recvbuf).bind fun src =>
    match requestText src with
    | none => some (1, h)
    | some src =>
      (store h.recvbuf src.length [0]).bind fun recvbuf =>
        (fields_2 src h.hs).bind fun hs =>
          (accept_2 d hs).bind fun text =>
            match text with
            | none => some (0, ⟨recvbuf, hs, h.acceptBuf⟩)
            | some text => (strcpy h.acceptBuf 0 text).map fun acceptBuf => (0, ⟨recvbuf, hs, acceptBuf⟩)

end Handshakes

example : (ChangeCharToArray (printWord 0xB37A4F2C)).map base64_encode = some (ascii "s3pPLA==") := by decide

/-! ## What is seen of a handshake -/

/-- The return value, the fields, and the text that is written behind a 0. -/
def seen (r : ℤ × Handshake) : ℤ × TzhWebSocket × Option Bytes :=
  (r.1, r.2.hs, if r.1 = 0 then cstr r.2.acceptBuf else none)

/-- A handshake that does not find the end of a request changes nothing; one that does sets the method. -/
def HandshakeCase (m : EzhWebSocketMethod) (h : Handshake) (r : ℤ × Handshake) : Prop :=
  r = (1, h) ∧ (∀ src, cstr h.recvbuf = some src → requestText src = none) ∨
    r.1 = 0 ∧ r.2.hs.method = m ∧ r.2.recvbuf.length = h.recvbuf.length ∧
      r.2.acceptBuf.length = h.acceptBuf.length

section Spec

variable {d : Digests} {h h' : Handshake} {r : ℤ × Handshake}

theorem fields_1_method {src : Bytes} {hs hs' : TzhWebSocket} (hf : fields_1 src hs = some hs') :
    hs'.method = .method_1 := by
  simp only [fields_1, Option.bind_eq_bind, Option.bind_eq_some_iff, Option.pure_def, Option.some.injEq] at hf
  obtain ⟨_, -, _, -, _, -, _, -, _, -, _, -, rfl⟩ := hf
  rfl

theorem fields_2_method {src : Bytes} {hs hs' : TzhWebSocket} (hf : fields_2 src hs = some hs') :
    hs'.method = .method_2 := by
  simp only [fields_2, Option.bind_eq_bind, Option.bind_eq_some_iff, Option.pure_def, Option.some.injEq] at hf
  obtain ⟨_, -, _, -, _, -, _, -, _, -, rfl⟩ := hf
  rfl

theorem handshake_1_case (hrun : zhWebSockHandshake_1 d h = some r) : HandshakeCase .method_1 h r := by
  obtain ⟨src, hsrc, hrun⟩ := Option.bind_eq_some_iff.mp hrun
  cases hq : requestText src with
  | none =>
    rw [hq] at hrun
    exact Or.inl ⟨(Option.some.inj hrun).symm, fun s hs => Option.some.inj (hsrc.symm.trans hs) ▸ hq⟩
  | some t =>
    rw [hq] at hrun
    obtain ⟨recvbuf, hst, hrun⟩ := Option.bind_eq_some_iff.mp hrun
    obtain ⟨key3, -, hrun⟩ := Option.bind_eq_some_iff.mp hrun
    obtain ⟨hs, hf, hrun⟩ := Option.bind_eq_some_iff.mp hrun
    obtain ⟨text, -, hrun⟩ := Option.bind_eq_some_iff.mp hrun
    obtain ⟨acceptBuf, hcpy, rfl⟩ := Option.map_eq_some_iff.mp hrun
    exact Or.inr ⟨rfl, fields_1_method hf, store_length hst, store_length hcpy⟩

theorem handshake_2_case (hrun : zhWebSockHandshake_2 d h = some r) : HandshakeCase .method_2 h r := by
  obtain ⟨src, hsrc, hrun⟩ := Option.bind_eq_some_iff.mp hrun
  cases hq : requestText src with
  | none =>
    rw [hq] at hrun
    exact Or.inl ⟨(Option.some.inj hrun).symm, fun s hs => Option.some.inj (hsrc.symm.trans hs) ▸ hq⟩
  | some t =>
    rw [hq] at hrun
    obtain ⟨recvbuf, hst, hrun⟩ := Option.bind_eq_some_iff.mp hrun
    obtain ⟨hs, hf, hrun⟩ := Option.bind_eq_some_iff.mp hrun
    obtain ⟨text, -, hrun⟩ := Option.bind_eq_some_iff.mp hrun
    cases text with
    | none =>
      obtain rfl := Option.some.inj hrun
      exact Or.inr ⟨rfl, fields_2_method hf, store_length hst, rfl⟩
    | some text =>
      obtain ⟨acceptBuf, hcpy, rfl⟩ := Option.map_eq_some_iff.mp hrun
      exact Or.inr ⟨rfl, fields_2_method hf, store_length hst, store_length hcpy⟩

/-- What is seen of an answer in a buffer does not depend on what the buffers held. -/
theorem seen_strcpy (text : Bytes) (hs : TzhWebSocket) (b b' : Bytes) {a a' : Bytes} (ha : a.length = a'.length) :
    ((strcpy a 0 text).map fun acceptBuf => seen (0, ⟨b, hs, acceptBuf⟩)) =
      (strcpy a' 0 text).map fun acceptBuf => seen (0, ⟨b', hs, acceptBuf⟩) := by
  have htext : ∀ rest, cstr (text ++ 0 :: rest) = some (text.takeWhile (· ≠ 0)) := by
    intro rest
    rw [cstr, if_pos (by simp)]
    congr 1
    by_cases h0 : 0 ∈ text
    · obtain ⟨p, q, rfl, hp⟩ := List.eq_append_cons_of_mem h0
      rw [List.append_assoc, List.cons_append, takeWhile_ne hp, takeWhile_ne hp]
    · rw [takeWhile_ne h0, takeWhile_self h0]
  unfold strcpy
  by_cases hlen : 0 + (text ++ [0]).length ≤ a.length
  · rw [store_of_le hlen, store_of_le (ha ▸ hlen), Option.map_some, Option.map_some]
    simp only [seen, if_true, List.take_zero, List.nil_append, List.append_assoc, List.singleton_append, htext]
  · have hno : ∀ m : Bytes, m.length = a.length → store m 0 (text ++ [0]) = none :=
      fun m hm => if_neg (by rw [hm]; exact hlen)
    rw [hno a rfl, hno a' ha.symm]
    rfl

/-- With a digest there is a text to write. -/
theorem accept_2_ne_none (hsha : ∀ msg, msg.length < 256 → (d.SHA1Result msg).isSome) (hs : TzhWebSocket) :
    accept_2 d hs ≠ some none := by
  intro h
  unfold accept_2 at h
  simp only at h
  split_ifs at h with hlen
  obtain ⟨digest, hd⟩ := Option.isSome_iff_exists.mp (hsha _ hlen)
  rw [hd] at h
  obtain ⟨e, -, he⟩ := Option.map_eq_some_iff.mp h
  cases he

/-- The NUL at the end of the request fits in both buffers or in none. -/
theorem store_congr {m m' : Bytes} (off : ℕ) (src : Bytes) (hl : m.length = m'.length) :
    store m off src = none ∧ store m' off src = none ∨
      ∃ b b', store m off src = some b ∧ store m' off src = some b' := by
  by_cases hfit : off + src.length ≤ m.length
  · exact Or.inr ⟨_, _, store_of_le hfit, store_of_le (hl ▸ hfit)⟩
  · exact Or.inl ⟨if_neg hfit, if_neg (hl ▸ hfit)⟩

section Congr

variable {src src' : Bytes} (hsrc : cstr h.recvbuf = some src) (hsrc' : cstr h'.recvbuf = some src')
  (hreq : requestText src = requestText src') (hhs : h.hs = h'.hs)
  (hlen : h.recvbuf.length = h'.recvbuf.length) (hacc : h.acceptBuf.length = h'.acceptBuf.length)

include hsrc hsrc' hreq hhs hlen hacc

theorem handshake_1_congr (hkey : ∀ t, requestText src = some t →
    load h.recvbuf (t.length + 4) 8 = load h'.recvbuf (t.length + 4) 8) :
    (zhWebSockHandshake_1 d h).map seen = (zhWebSockHandshake_1 d h').map seen := by
  rw [zhWebSockHandshake_1, zhWebSockHandshake_1, hsrc, hsrc', Option.bind_some, Option.bind_some, ← hreq, hhs]
  cases hq : requestText src with
  | none =>
    simp only [Option.map_some, seen, hhs]
    rfl
  | some t =>
    simp only
    rcases store_congr t.length [0] hlen with ⟨hn, hn'⟩ | ⟨b, b', hst, hst'⟩
    · rw [hn, hn']
      rfl
    have hk : load b (t.length + 4) 8 = load b' (t.length + 4) 8 := by
      rw [load_store_behind hst (by simp), load_store_behind hst' (by simp), hkey t hq]
    rw [hst, hst', Option.bind_some, Option.bind_some, hk]
    cases load b' (t.length + 4) 8 with
    | none => rfl
    | some key3 =>
      cases hf : fields_1 t h'.hs with
      | none => simp
      | some hs =>
        cases ht : accept_1 d hs key3 with
        | none => simp [ht]
        | some text =>
          simp only [ht, Option.bind_some, Option.map_map]
          exact seen_strcpy text hs b b' hacc

theorem handshake_2_congr (hsha : ∀ msg, msg.length < 256 → (d.SHA1Result msg).isSome) :
    (zhWebSockHandshake_2 d h).map seen = (zhWebSockHandshake_2 d h').map seen := by
  rw [zhWebSockHandshake_2, zhWebSockHandshake_2, hsrc, hsrc', Option.bind_some, Option.bind_some, ← hreq, hhs]
  cases hq : requestText src with
  | none =>
    simp only [Option.map_some, seen, hhs]
    rfl
  | some t =>
    simp only
    rcases store_congr t.length [0] hlen with ⟨hn, hn'⟩ | ⟨b, b', hst, hst'⟩
    · rw [hn, hn']
      rfl
    rw [hst, hst', Option.bind_some, Option.bind_some]
    cases hf : fields_2 t h'.hs with
    | none => simp
    | some hs =>
      cases ht : accept_2 d hs with
      | none => simp [ht]
      | some text =>
        cases text with
        | none => exact absurd ht (accept_2_ne_none hsha hs)
        | some text =>
          simp only [ht, Option.bind_some, Option.map_map]
          exact seen_strcpy text hs b b' hacc

end Congr

end Spec

end Esp32Base
