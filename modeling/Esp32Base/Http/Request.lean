import Esp32Base.Http.Url

/-!
# Http.Request — the requests the client sends (zhHttp.c)

`zhHttpGet`, `zhHttpPost` and `zhHttpSize` split the URL into the fields of a thread; the thread formats its request
line by line in `tmp[256]` and collects it in `buf[2048]`.

* `formatLines_eq`: when the lines fit, and what is collected.
* `request_ok_iff`: when the request has the target of the URL.
-/

namespace Esp32Base

open Lib Lib.Buf Lib.CText

/-! ## The threads -/

/-- `p->method`: 1, 2 and 4. -/
inductive HttpMethod
  | get
  | post
  | head
  deriving DecidableEq

structure TzhHttpThread where
  method : HttpMethod
  host : Bytes
  port : ℤ
  file : Bytes
  parameter : Bytes
  body_len : BitVec 32
  beginByte : BitVec 32
  deriving DecidableEq

/-- The common part of the three calls: the result of the split and the thread, which is started in any case. -/
def httpThread (method : HttpMethod) (szUrl : Bytes) (body_len beginByte : BitVec 32) : Option (Bool × TzhHttpThread) :=
  (zhHttpUrlSplit szUrl ⟨List.replicate 512 0, 0, List.replicate 512 0, List.replicate 1024 0⟩).map fun (ret, d) =>
    (ret, ⟨method, d.dst_host, d.dst_port, d.dst_file, d.dst_parm, body_len, beginByte⟩)

def zhHttpGet (szUrl : Bytes) (begin_byte : BitVec 32) : Option (Bool × TzhHttpThread) :=
  httpThread .get szUrl 0 begin_byte

def zhHttpPost (szUrl : Bytes) (body_len begin_byte : BitVec 32) : Option (Bool × TzhHttpThread) :=
  httpThread .post szUrl body_len begin_byte

def zhHttpSize (szUrl : Bytes) : Option (Bool × TzhHttpThread) := httpThread .head szUrl 0 0

/-! ## The requests -/

/-- `sprintf(tmp, …); strcat(buf, tmp);` -/
def addLine (buf line : Bytes) : Option Bytes :=
  (strcpy (List.replicate 256 0) 0 line).bind fun tmp =>
    (cstr tmp).bind fun tmp => (cstr buf).bind fun text => strcpy buf text.length tmp

def formatLines : Bytes → List Bytes → Option Bytes
  | buf, [] => some buf
  | buf, line :: lines => (addLine buf line).bind fun buf => formatLines buf lines

/-- The lines collected in `buf`, as `zhSockSend` is given them. -/
def sendLines (lines : List Bytes) : Option Bytes := (formatLines (List.replicate 2048 0) lines).bind cstr

/-- `"%s %s?%s HTTP/1.1\\r\\n"` -/
def requestLine (name file parameter : Bytes) : Bytes :=
  name ++ ascii " " ++ file ++ ascii "?" ++ parameter ++ ascii " HTTP/1.1\r\n"

def rangeLine (beginByte : BitVec 32) : Bytes := ascii "Range: bytes=" ++ printInt beginByte.toNat ++ ascii "-\r\n"

def hostLine (host : Bytes) (port : ℤ) : Bytes :=
  ascii "Host: " ++ host ++ ascii ":" ++ printInt port ++ ascii "\r\n"

def getRequest (p : TzhHttpThread) : Option Bytes :=
  (cstr p.file).bind fun file =>
    (cstr p.parameter).bind fun parameter =>
      (cstr p.host).bind fun host =>
        sendLines
          [requestLine (ascii "GET") file parameter,
            ascii "Accept: */*\r\n",
            ascii "User-Agent: zhHttp/1.0\r\n",
            rangeLine p.beginByte,
            ascii "Accept-Encoding: gzip, deflate\r\n",
            hostLine host p.port,
            ascii "Connection: Keep-Alive\r\n",
            ascii "\r\n"]

def postRequest (p : TzhHttpThread) : Option Bytes :=
  (cstr p.file).bind fun file =>
    (cstr p.parameter).bind fun parameter =>
      (cstr p.host).bind fun host =>
        sendLines
          [requestLine (ascii "POST") file parameter,
            ascii "Accept: */*\r\n",
            ascii "Content-Type: application/x-www-form-urlencoded\r\n",
            ascii "User-Agent: zhHttp/1.0\r\n",
            rangeLine p.beginByte,
            ascii "Accept-Encoding: gzip, deflate\r\n",
            ascii "Referer: http://" ++ host ++ file ++ ascii " \r\n",
            hostLine host p.port,
            ascii "Content-Length: " ++ printInt p.body_len.toInt ++ ascii "\r\n",
            ascii "Connection: Keep-Alive\r\n",
            ascii "Cache-Control: no-cache\r\n",
            ascii "\r\n"]

def headRequest (p : TzhHttpThread) : Option Bytes :=
  (cstr p.file).bind fun file =>
    (cstr p.host).bind fun host =>
      sendLines
        [ascii "HEAD " ++ file ++ ascii " HTTP/1.1\r\n",
          ascii "Accept: */*\r\n",
          ascii "User-Agent: zhHttp/1.0\r\n",
          ascii "Accept-Encoding: gzip, deflate\r\n",
          hostLine host p.port,
          ascii "Connection: Keep-Alive\r\n",
          ascii "\r\n"]

/-- The `switch` on the method, in `_zhHttpThread_Data` and `_zhHttpThread_Head`. -/
def threadRequest (p : TzhHttpThread) : Option Bytes :=
  match p.method with
  | .get => getRequest p
  | .post => postRequest p
  | .head => headRequest p

/-! ## What a request should be -/

def HttpMethod.name : HttpMethod → Bytes
  | .get => ascii "GET"
  | .post => ascii "POST"
  | .head => ascii "HEAD"

/-- The target of the URL: its path, and for GET and POST its query when it has one. -/
def HttpMethod.target (m : HttpMethod) (u : UrlText) : Bytes :=
  match m with
  | .head => u.file
  | _ => u.file ++ marked 63 u.query

/-- Every line and the request fit their buffers, and the request line has the target of the URL, which starts with
a `/`. -/
def RequestOk (u : UrlText) (p : TzhHttpThread) : Prop :=
  (p.method.target u).head? = some 47 ∧
    ∃ rest, threadRequest p =
      some (p.method.name ++ ascii " " ++ p.method.target u ++ ascii " HTTP/1.1\r\n" ++ rest)

/-- The path starts with a `/`, for GET and POST there is a query, and the lines with parts of the URL have at most
255 characters. -/
def LinesFit (m : HttpMethod) (u : UrlText) (port : ℤ) : Prop :=
  u.file.head? = some 47 ∧ u.host.length + (printInt port).length < 247 ∧
    match m with
    | .get => u.query.isSome ∧ u.file.length + (u.query.getD []).length < 240
    | .post => u.query.isSome ∧ u.file.length + (u.query.getD []).length < 239 ∧ u.host.length + u.file.length < 237
    | .head => u.file.length < 240

/-! ## Collecting lines -/

/-- One line: it fits `tmp`, and `buf` behind what is there. -/
theorem addLine_eq {buf t line : Bytes} (hbuf : cstr buf = some t) (h0 : 0 ∉ line) :
    (line.length < 256 ∧ t.length + line.length < buf.length →
      ∃ buf', addLine buf line = some buf' ∧ buf'.length = buf.length ∧ cstr buf' = some (t ++ line)) ∧
    (¬ (line.length < 256 ∧ t.length + line.length < buf.length) → addLine buf line = none) := by
  unfold addLine
  by_cases hlt : line.length < 256
  · obtain ⟨tmp, htmp, hcstr⟩ := @exists_strcpy (List.replicate 256 0) line h0 (by rw [List.length_replicate]; exact hlt)
    rw [htmp, Option.bind_some, hcstr, Option.bind_some, hbuf, Option.bind_some]
    obtain ⟨rest, rfl, ht⟩ := cstr_eq_some.mp hbuf
    refine ⟨fun h => ?_, fun h => if_neg ?_⟩
    · have hst : strcpy (t ++ 0 :: rest) t.length line = some (t ++ (line ++ [0]) ++ (0 :: rest).drop (line ++ [0]).length) :=
        store_append (by simp only [List.length_append, List.length_cons, List.length_nil] at h ⊢; omega)
      refine ⟨_, hst, store_length hst, ?_⟩
      rw [List.append_assoc, List.append_assoc, ← List.append_assoc]
      exact cstr_of_append (fun hm => (List.mem_append.mp hm).elim ht h0) _
    · rw [List.length_append, List.length_singleton]
      omega
  · refine ⟨fun h => absurd h.1 hlt, fun _ => ?_⟩
    rw [strcpy_eq_none (by rw [List.length_replicate]; omega)]
    rfl

/-- **Collecting** works iff every line fits `tmp` and all of them fit `buf`. -/
theorem formatLines_eq : ∀ {lines : List Bytes} {buf t : Bytes}, cstr buf = some t → (∀ l ∈ lines, 0 ∉ l) →
    (formatLines buf lines).bind cstr =
      if (∀ l ∈ lines, l.length < 256) ∧ (t ++ lines.flatten).length < buf.length then some (t ++ lines.flatten)
      else none
  | [], buf, t, hbuf, _ => by
    rw [formatLines, Option.bind_some, hbuf, List.flatten_nil, List.append_nil, if_pos]
    exact ⟨fun l hl => absurd hl List.not_mem_nil, cstr_length_lt hbuf⟩
  | line :: lines, buf, t, hbuf, h0 => by
    rw [List.forall_mem_cons] at h0
    obtain ⟨hyes, hno⟩ := addLine_eq hbuf h0.1
    rw [formatLines]
    by_cases hfit : line.length < 256 ∧ t.length + line.length < buf.length
    · obtain ⟨buf', hadd, hlen, hcstr⟩ := hyes hfit
      rw [hadd, Option.bind_some, formatLines_eq hcstr h0.2, hlen, List.flatten_cons, List.append_assoc]
      refine if_congr (and_congr_left' ?_) rfl rfl
      rw [List.forall_mem_cons]
      exact (and_iff_right hfit.1).symm
    · rw [hno hfit, if_neg]
      · rfl
      · rintro ⟨hall, htotal⟩
        rw [List.flatten_cons, List.length_append, List.length_append] at htotal
        exact hfit ⟨hall line (List.mem_cons_self ..), by omega⟩

theorem sendLines_eq {lines : List Bytes} (h0 : ∀ l ∈ lines, 0 ∉ l) :
    sendLines lines =
      if (∀ l ∈ lines, l.length < 256) ∧ lines.flatten.length < 2048 then some lines.flatten else none := by
  have hbuf : cstr (List.replicate 2048 (0 : UInt8)) = some [] :=
    @cstr_append_zeros [] List.not_mem_nil 2048 (by decide)
  rw [sendLines, formatLines_eq hbuf h0, List.nil_append, List.length_replicate]

/-! ## The fields of a thread -/

/-- The fields hold the parts of the URL. -/
structure Fields (u : UrlText) (p : TzhHttpThread) : Prop where
  host : cstr p.host = some u.host
  file : cstr p.file = some u.file
  parameter : cstr p.parameter = some (u.query.getD [])
  port : -2 ^ 31 ≤ p.port ∧ p.port < 2 ^ 31

theorem httpThread_fields {m : HttpMethod} {scheme rest : Bytes} (hs : IsScheme scheme) {u : UrlText}
    {body_len beginByte : BitVec 32} {r : Bool} {p : TzhHttpThread}
    (hacc : httpThread m (scheme ++ (u.text ++ 0 :: rest)) body_len beginByte = some (r, p)) :
    p.method = m ∧ Fields u p := by
  obtain ⟨⟨r', d⟩, hsplit, hp⟩ := Option.map_eq_some_iff.mp hacc
  obtain ⟨rfl, rfl⟩ := Prod.mk.inj hp
  rw [zhHttpUrlSplit_eq hs] at hsplit
  obtain ⟨dst_host, hhost, hsplit⟩ := Option.bind_eq_some_iff.mp hsplit
  obtain ⟨dst_port, hport, hsplit⟩ := Option.bind_eq_some_iff.mp hsplit
  obtain ⟨dst_file, hfile, hsplit⟩ := Option.bind_eq_some_iff.mp hsplit
  obtain ⟨dst_parm, hparm, hsplit⟩ := Option.map_eq_some_iff.mp hsplit
  obtain ⟨-, rfl⟩ := Prod.mk.inj hsplit
  refine ⟨rfl, cstr_strcpy u.host_noNul hhost, cstr_strcpy u.file_noNul hfile, cstr_strcpy u.parm_noNul hparm, ?_⟩
  cases hq : u.port with
  | none =>
    rw [hq] at hport
    obtain rfl := Option.some.inj hport
    exact (by decide : -2 ^ 31 ≤ (80 : ℤ) ∧ (80 : ℤ) < 2 ^ 31)
  | some t =>
    rw [hq, portValue] at hport
    split_ifs at hport
    obtain rfl := Option.some.inj hport
    exact atoi_range t

/-! ## The lines -/

theorem requestLine_length (name file parameter : Bytes) :
    (requestLine name file parameter).length = name.length + file.length + parameter.length + 13 := by
  simp only [requestLine, List.length_append, show (ascii " ").length = 1 from rfl, show (ascii "?").length = 1 from rfl,
    show (ascii " HTTP/1.1\r\n").length = 11 from rfl]
  omega

theorem hostLine_length (host : Bytes) (port : ℤ) :
    (hostLine host port).length = host.length + (printInt port).length + 9 := by
  simp only [hostLine, List.length_append, show (ascii "Host: ").length = 6 from rfl,
    show (ascii ":").length = 1 from rfl, show (ascii "\r\n").length = 2 from rfl]
  omega

theorem rangeLine_length_le (beginByte : BitVec 32) : (rangeLine beginByte).length ≤ 27 := by
  have h := printInt_length_le_of_natAbs (v := beginByte.toNat) (by have := beginByte.isLt; omega)
  simp only [rangeLine, List.length_append, show (ascii "Range: bytes=").length = 13 from rfl,
    show (ascii "-\r\n").length = 3 from rfl]
  omega

theorem requestLine_noNul {name file parameter : Bytes} (hn : 0 ∉ name) (hf : 0 ∉ file) (hp : 0 ∉ parameter) :
    0 ∉ requestLine name file parameter := by
  simp only [requestLine, List.mem_append, hn, hf, hp, or_false, false_or]
  decide

theorem hostLine_noNul {host : Bytes} (hh : 0 ∉ host) (port : ℤ) : 0 ∉ hostLine host port := by
  simp only [hostLine, List.mem_append, hh, zero_notMem_printInt, or_false]
  decide

theorem rangeLine_noNul (beginByte : BitVec 32) : 0 ∉ rangeLine beginByte := by
  simp only [rangeLine, List.mem_append, zero_notMem_printInt, or_false]
  decide

/-- The lines that are the same for every URL. -/
theorem fixedLine_length :
    (ascii "Accept: */*\r\n").length = 13 ∧ (ascii "User-Agent: zhHttp/1.0\r\n").length = 24 ∧
      (ascii "Accept-Encoding: gzip, deflate\r\n").length = 32 ∧ (ascii "Connection: Keep-Alive\r\n").length = 24 ∧
      (ascii "Content-Type: application/x-www-form-urlencoded\r\n").length = 49 ∧
      (ascii "Cache-Control: no-cache\r\n").length = 25 ∧ (ascii "\r\n").length = 2 := by
  decide +kernel

section Builders

variable {u : UrlText} {p : TzhHttpThread} (hp : Fields u p)

include hp

theorem getRequest_eq : ∃ rest, getRequest p =
    if u.host.length + (printInt p.port).length < 247 ∧ u.file.length + (u.query.getD []).length < 240 then
      some (requestLine (ascii "GET") u.file (u.query.getD []) ++ rest) else none := by
  have hrange := rangeLine_length_le p.beginByte
  have hport := printInt_length_le hp.port.1 hp.port.2
  have hfixed := fixedLine_length
  rw [getRequest, hp.file, Option.bind_some, hp.parameter, Option.bind_some, hp.host, Option.bind_some, sendLines_eq]
  · rw [List.flatten_cons]
    refine ⟨_, if_congr ?_ rfl rfl⟩
    simp only [List.forall_mem_cons, List.flatten_cons, List.flatten_nil, List.length_append, List.length_nil,
      requestLine_length, hostLine_length, show (ascii "GET").length = 3 from rfl]
    refine ⟨fun h => ?_, fun h => ⟨?_, ?_⟩⟩
    · omega
    · refine ⟨?_, ?_, ?_, ?_, ?_, ?_, ?_, ?_, by simp⟩ <;> omega
    · omega
  · simp only [List.forall_mem_cons, requestLine_noNul (show 0 ∉ ascii "GET" by decide) u.file_noNul u.parm_noNul,
      rangeLine_noNul, hostLine_noNul u.host_noNul]
    decide +kernel

theorem postRequest_eq : ∃ rest, postRequest p =
    if u.host.length + (printInt p.port).length < 247 ∧ u.file.length + (u.query.getD []).length < 239 ∧
        u.host.length + u.file.length < 237 then
      some (requestLine (ascii "POST") u.file (u.query.getD []) ++ rest) else none := by
  have hrange := rangeLine_length_le p.beginByte
  have hport := printInt_length_le hp.port.1 hp.port.2
  have hbody := printInt_length_le (v := p.body_len.toInt) (by have := p.body_len.le_toInt; omega)
    (by have := p.body_len.toInt_lt; omega)
  have hfixed := fixedLine_length
  rw [postRequest, hp.file, Option.bind_some, hp.parameter, Option.bind_some, hp.host, Option.bind_some, sendLines_eq]
  · rw [List.flatten_cons]
    refine ⟨_, if_congr ?_ rfl rfl⟩
    simp only [List.forall_mem_cons, List.flatten_cons, List.flatten_nil, List.length_append, List.length_nil,
      requestLine_length, hostLine_length, show (ascii "POST").length = 4 from rfl,
      show (ascii "Referer: http://").length = 16 from rfl, show (ascii " \r\n").length = 3 from rfl,
      show (ascii "Content-Length: ").length = 16 from rfl]
    refine ⟨fun h => ?_, fun h => ⟨?_, ?_⟩⟩
    · omega
    · refine ⟨?_, ?_, ?_, ?_, ?_, ?_, ?_, ?_, ?_, ?_, ?_, ?_, by simp⟩ <;> omega
    · omega
  · simp only [List.forall_mem_cons, requestLine_noNul (show 0 ∉ ascii "POST" by decide) u.file_noNul u.parm_noNul,
      rangeLine_noNul, hostLine_noNul u.host_noNul, List.mem_append, u.host_noNul, u.file_noNul, zero_notMem_printInt]
    decide +kernel

theorem headRequest_eq : ∃ rest, headRequest p =
    if u.host.length + (printInt p.port).length < 247 ∧ u.file.length < 240 then
      some (ascii "HEAD " ++ u.file ++ ascii " HTTP/1.1\r\n" ++ rest) else none := by
  have hport := printInt_length_le hp.port.1 hp.port.2
  have hfixed := fixedLine_length
  rw [headRequest, hp.file, Option.bind_some, hp.host, Option.bind_some, sendLines_eq]
  · rw [List.flatten_cons]
    refine ⟨_, if_congr ?_ rfl rfl⟩
    simp only [List.forall_mem_cons, List.flatten_cons, List.flatten_nil, List.length_append, List.length_nil,
      hostLine_length, show (ascii "HEAD ").length = 5 from rfl, show (ascii " HTTP/1.1\r\n").length = 11 from rfl]
    refine ⟨fun h => ?_, fun h => ⟨?_, ?_⟩⟩
    · omega
    · refine ⟨?_, ?_, ?_, ?_, ?_, ?_, ?_, by simp⟩ <;> omega
    · omega
  · simp only [List.forall_mem_cons, hostLine_noNul u.host_noNul, List.mem_append, u.file_noNul]
    decide +kernel

end Builders

/-! ## The request line -/

/-- The line with a `?` has the target of the URL iff the URL has a query. -/
theorem requestLine_target (u : UrlText) (name rest : Bytes) :
    ((u.file ++ marked 63 u.query).head? = some 47 ∧
      ∃ rest', requestLine name u.file (u.query.getD []) ++ rest =
        name ++ ascii " " ++ (u.file ++ marked 63 u.query) ++ ascii " HTTP/1.1\r\n" ++ rest') ↔
    u.file.head? = some 47 ∧ u.query.isSome := by
  have hline : requestLine name u.file (u.query.getD []) ++ rest =
      (name ++ ascii " " ++ u.file) ++ 63 :: (u.query.getD [] ++ ascii " HTTP/1.1\r\n" ++ rest) := by
    simp only [requestLine, show ascii "?" = [63] from rfl, List.append_assoc, List.cons_append, List.nil_append]
  rw [hline]
  cases hq : u.query with
  | none =>
    refine iff_of_false ?_ (by simp)
    rintro ⟨-, rest', h⟩
    simp only [marked, List.append_nil, List.append_assoc, List.append_cancel_left_eq] at h
    exact absurd (List.cons.inj h).1 (by decide)
  | some q =>
    have hhead : (u.file ++ marked 63 (some q)).head? = some 47 ↔ u.file.head? = some 47 := by
      cases u.file with
      | nil => simp [marked]
      | cons c t => simp
    rw [hhead]
    refine and_congr_right fun _ => iff_of_true ⟨rest, ?_⟩ rfl
    simp only [marked, Option.getD_some, List.append_assoc, List.cons_append]

/-- A request that is there when it fits is right when it fits and its text is right. -/
theorem ok_iff_of_fits {fits start right : Prop} [Decidable fits] {request : Option Bytes} {text : Bytes}
    {line : Bytes → Bytes} (heq : request = if fits then some text else none)
    (htext : (start ∧ ∃ rest, text = line rest) ↔ right) :
    (start ∧ ∃ rest, request = some (line rest)) ↔ right ∧ fits := by
  rw [heq]
  by_cases hfits : fits
  · simp only [if_pos hfits, Option.some.injEq]
    rw [htext, and_iff_left hfits]
  · simp [hfits]

/-- The request of a thread whose fields hold the parts of a URL. -/
theorem threadRequest_ok_iff {u : UrlText} {p : TzhHttpThread} (hp : Fields u p) :
    RequestOk u p ↔ LinesFit p.method u p.port := by
  unfold RequestOk LinesFit threadRequest
  cases hm : p.method with
  | get =>
    obtain ⟨rest, heq⟩ := getRequest_eq hp
    have hok := ok_iff_of_fits heq (requestLine_target u (ascii "GET") rest)
    refine hok.trans ?_
    dsimp only
    tauto
  | post =>
    obtain ⟨rest, heq⟩ := postRequest_eq hp
    have hok := ok_iff_of_fits heq (requestLine_target u (ascii "POST") rest)
    refine hok.trans ?_
    dsimp only
    tauto
  | head =>
    obtain ⟨rest, heq⟩ := headRequest_eq hp
    have htext : (u.file.head? = some 47 ∧ ∃ rest', ascii "HEAD " ++ u.file ++ ascii " HTTP/1.1\r\n" ++ rest =
        ascii "HEAD" ++ ascii " " ++ u.file ++ ascii " HTTP/1.1\r\n" ++ rest') ↔ u.file.head? = some 47 :=
      and_iff_left ⟨rest, rfl⟩
    have hok := ok_iff_of_fits heq htext
    refine hok.trans ?_
    dsimp only
    tauto

/-- **The request of an accepted URL** fits its buffers and asks for the path and query of the URL iff the path
starts with a `/`, GET and POST have a query, and the lines with parts of the URL fit `tmp`. -/
theorem request_ok_iff {m : HttpMethod} {szUrl : Bytes} {body_len begin_byte : BitVec 32} {p : TzhHttpThread}
    (hacc : httpThread m szUrl body_len begin_byte = some (true, p)) :
    (∃ (scheme : Bytes) (u : UrlText) (rest : Bytes), IsScheme scheme ∧ szUrl = scheme ++ (u.text ++ 0 :: rest)) ∧
      ∀ (scheme : Bytes) (u : UrlText) (rest : Bytes), IsScheme scheme → szUrl = scheme ++ (u.text ++ 0 :: rest) →
        (RequestOk u p ↔ LinesFit m u p.port) := by
  constructor
  · obtain ⟨⟨r, d⟩, hsplit, hp⟩ := Option.map_eq_some_iff.mp hacc
    obtain ⟨rfl, -⟩ := Prod.mk.inj hp
    exact exists_accepted hsplit
  · rintro scheme u rest hs rfl
    obtain ⟨rfl, hfields⟩ := httpThread_fields hs hacc
    exact threadRequest_ok_iff hfields

/-- The thread of `zhHttpGet("http://a.cn:88/ddd?q=1?2", 0, …)`. -/
def portThread : TzhHttpThread :=
  ⟨.get, ascii "a.cn" ++ List.replicate 508 0, 88, ascii "/ddd" ++ List.replicate 508 0,
    ascii "q=1?2" ++ List.replicate 1019 0, 0, 0⟩

theorem request_ok_port :
    (∃ (scheme : Bytes) (u : UrlText) (rest : Bytes), IsScheme scheme ∧
      ascii "http://a.cn:88/ddd?q=1?2" ++ [0] = scheme ++ (u.text ++ 0 :: rest)) ∧
      ∀ (scheme : Bytes) (u : UrlText) (rest : Bytes), IsScheme scheme →
        ascii "http://a.cn:88/ddd?q=1?2" ++ [0] = scheme ++ (u.text ++ 0 :: rest) →
        (RequestOk u portThread ↔ LinesFit .get u 88) :=
  @request_ok_iff .get (ascii "http://a.cn:88/ddd?q=1?2" ++ [0]) 0 0 portThread (by decide +kernel)

/-- `a.cn` -/
def bareUrl : UrlText where
  host := ascii "a.cn"
  port := none
  file := []
  query := none
  host_plain := portUrl.host_plain
  port_plain := by decide +kernel
  file_start := Or.inl rfl
  file_plain := by decide +kernel
  query_noNul := by decide +kernel

/-- A bare host is asked for `?`. -/
theorem request_bare_host :
    ∃ p, zhHttpGet (ascii "http://" ++ (bareUrl.text ++ [0])) 0 = some (true, p) ∧
      (threadRequest p).map (List.take 16) = some (ascii "GET ? HTTP/1.1\r\n") ∧ ¬ RequestOk bareUrl p := by
  refine ⟨⟨.get, ascii "a.cn" ++ List.replicate 508 0, 80, List.replicate 512 0, List.replicate 1024 0, 0, 0⟩,
    by decide +kernel, by decide +kernel, fun h => ?_⟩
  exact absurd h.1 (by decide)

end Esp32Base
