import Esp32Base.Cfg.Mqtt
import Esp32Base.Http.Serv
import Esp32Base.UrlCode

/-!
# Http.Web — the web server (webserver.c and its callbacks in trans_data.c)

One connection at a time: `app_webserver_task_recv` feeds the chunks to `httpServReslovURL`, splits the
target of a complete request, lets `pfWebServ_Callback` answer and closes the connection; a command is run
by `pfWebServ_Done` behind that.

* `recv_command`: the call that completes a request for `/command` runs the decoded parameter.
* `web_command_once`: a command sent through the URL encoder is run once, whatever the chunks are.
-/

namespace Esp32Base

open Lib Lib.Buf Lib.CText

/-! ## The target -/

/-- The size of `url`. -/
def urlSize : ℕ := 1124

/-- `while (szUrl[i] != '?' && szUrl[i] != 0)`: what is copied, and the memory from the byte on that stops
the loop. -/
def untilMark : Bytes → Option (Bytes × Bytes)
  | [] => none
  | c :: m => if c = 63 ∨ c = 0 then some ([], c :: m) else (untilMark m).map fun r => (c :: r.1, r.2)

/-- `dst_file` and `dst_parm` after the call; the byte that stopped the first loop is skipped, be it a `?`
or the NUL. -/
def urlSplit (szUrl dst_file dst_parm : Bytes) : Option (Bytes × Bytes) :=
  (untilMark szUrl).bind fun r =>
    (strcpy dst_file 0 r.1).bind fun dst_file =>
      (cstr r.2.tail).bind fun parm => (strcpy dst_parm 0 parm).map fun dst_parm => (dst_file, dst_parm)

/-! ## The pages -/

/-- What the server does to the outside. -/
inductive WebOut
  | webSendHeader (len : ℕ)
  | webSendClient (data : Bytes)
  | webSendClientNotFoundPage
  | close (fd : ℕ)
  | do_command (Cmdline : Bytes)
  deriving DecidableEq

/-- `replace_str` with one buffer for input and output: the first occurrence of `pSrc` is replaced. The
return value and the buffer. -/
def replace_str (buf pSrc pDst : Bytes) : Option (ℕ × Bytes) :=
  (cstr buf).bind fun text =>
    match strstr pSrc text with
    | none => some (0, buf)
    | some p =>
      (strcpy buf 0 (text.take (text.length - p.length) ++ pDst ++ p.drop pSrc.length)).map fun buf => (1, buf)

/-- The pairs of `replace_str` calls, one after the other. -/
def replaceAll : List (Bytes × Option Bytes) → Bytes → Option Bytes
  | [], htmldata => some htmldata
  | (pSrc, pDst) :: l, htmldata =>
    pDst.bind fun pDst => (replace_str htmldata pSrc pDst).bind fun r => replaceAll l r.2

/-- `char *` to a string of the record: it ends at the first NUL, in the field or behind it. -/
def TagCfgData.text (r : TagCfgData) (f : CfgField) : Option Bytes := cstr (r.bytes.drop f.off)

/-- `itoa` of a number of the record. -/
def TagCfgData.itoa (r : TagCfgData) (f : CfgField) : Option Bytes := some (printInt (r.getInt f))

/-- The placeholders of the info page. -/
def placeholders (r : TagCfgData) : List (Bytes × Option Bytes) :=
  [(ascii "\x7bmqttip\x7d", r.text .mqtt_host), (ascii "\x7bmqttport\x7d", r.itoa .mqtt_port),
    (ascii "\x7bmqttcid\x7d", r.text .mqtt_clientid), (ascii "\x7bmqttuser\x7d", r.text .mqtt_username),
    (ascii "\x7bmqttpasswd\x7d", r.text .mqtt_password), (ascii "\x7buart1brt\x7d", r.itoa .uart1_baudRate),
    (ascii "\x7bdevuuid\x7d", r.text .devuuid), (ascii "\x7bdevname\x7d", r.text .devname),
    (ascii "\x7bdevflag\x7d", r.text .devflag), (ascii "\x7btcpserv1\x7d", r.itoa .tcpserv1_port)]

def SECTOR_WEBPAGE_1 : ℕ := 512
def SECTOR_WEBPAGE_2 : ℕ := 514

/-- The size of a page in the flash. -/
def webPageSize : ℕ := 1024 * 8

/-- The page up to the first `0x00` or `0xFF`, where a NUL is written. -/
def sendPage (htmldata : Bytes) : Option (List WebOut) :=
  let i := htmldata.findIdx fun c => c == 0x00 || c == 0xFF
  (store htmldata i [0]).map fun htmldata => [.webSendHeader i, .webSendClient (htmldata.take i)]

/-- The answer to favicon.ico. -/
def rebuf : Bytes := [0xBA, 0xAB, 0xD1, 0xB6, 0xC1, 0xAA, 0xBF, 0xD8, 0xBC, 0xD3, 0xD3, 0xCD, 33, 33]

section Server

variable {σ : Type} (spi : SpiFlash σ)

def indexPage (s : σ) : Option (List WebOut) :=
  match get_spi_flash_binary_data spi webPageSize SECTOR_WEBPAGE_1 s with
  | none => some []
  | some htmldata => sendPage htmldata

def infoPage (s : σ) : Option (List WebOut) :=
  match get_spi_flash_binary_data spi webPageSize SECTOR_WEBPAGE_2 s with
  | none => some []
  | some htmldata =>
    match readCfg spi s with
    | none => some []
    | some pCfgdata => (replaceAll (placeholders pCfgdata) htmldata).bind sendPage

/-- What `g_webParameter` points to afterwards, `none` for NULL, and what was sent. -/
def pfWebServ_Callback (page parameter : Bytes) (s : σ) : Option (Option Bytes × List WebOut) :=
  (cstr page).bind fun name =>
    if name = ascii "/" ∨ name = ascii "/index.htm" then (indexPage spi s).map fun out => (none, out)
    else if name = ascii "/info.htm" then (infoPage spi s).map fun out => (none, out)
    else if name = ascii "/command" then
      (cstr parameter).bind fun text =>
        (zhHttpUrlDecode parameter text.length).bind fun r =>
          (cstr r.1).map fun text => (some r.1, [.webSendHeader text.length, .webSendClient text])
    else if name = ascii "/favicon.ico" then
      some (none, [.webSendHeader rebuf.length, .webSendClient rebuf])
    else some (none, [.webSendClientNotFoundPage])

def pfWebServ_Done (g_webParameter : Option Bytes) : Option (List WebOut) :=
  match g_webParameter with
  | none => some []
  | some parameter => (cstr parameter).map fun Cmdline => [.do_command Cmdline]

/-! ## The tasks -/

/-- The globals of both tasks and the buffer of the receiving one. `closed`: it has closed the socket
itself, and `recv` will answer -1. -/
structure WebTask where
  g_web_use_client_fd : ℕ
  closed : Bool
  g_httpServ : TzhHttpServ
  url : Bytes

/-- What the two tasks wait for: `accept` returns a socket, `recv` returns bytes, with the flash as it is
then, or 0 or -1. -/
inductive WebEvent (σ : Type)
  | accept (fd : ℕ)
  | recv (recv_buf : Bytes) (chip : σ)
  | gone

/-- The body of `app_webserver_task_accept` for a socket that was accepted. -/
def app_webserver_task_accept (w : WebTask) (fd : ℕ) : WebTask × List WebOut :=
  (⟨fd, false, .zeroed, w.url⟩, if w.g_web_use_client_fd ≠ 0 then [.close w.g_web_use_client_fd] else [])

/-- One round of `app_webserver_task_recv` with bytes received. -/
def app_webserver_task_recv (w : WebTask) (recv_buf : Bytes) (s : σ) : Option (WebTask × List WebOut) :=
  (httpServReslovURL w.g_httpServ recv_buf w.url).bind fun (httpret, g_httpServ, url) =>
    if httpret = 0 then
      (urlSplit url (List.replicate 64 0) (List.replicate 1024 0)).bind fun (page, parameter) =>
        (pfWebServ_Callback spi page parameter s).bind fun (g_webParameter, sent) =>
          (pfWebServ_Done g_webParameter).map fun done =>
            (⟨w.g_web_use_client_fd, true, g_httpServ, url⟩, sent ++ .close w.g_web_use_client_fd :: done)
    else if httpret = 1 then
      some (⟨w.g_web_use_client_fd, true, g_httpServ, url⟩, [.close w.g_web_use_client_fd])
    else some ({ w with g_httpServ := g_httpServ, url := url }, [])

/-- One event. Nothing is received without a client, nor on a socket that is closed. -/
def webStep (w : WebTask) : WebEvent σ → Option (WebTask × List WebOut)
  | .accept fd => some (app_webserver_task_accept w fd)
  | .recv recv_buf s =>
    if 0 < w.g_web_use_client_fd ∧ w.closed = false then app_webserver_task_recv spi w recv_buf s
    else some ({ w with g_web_use_client_fd := 0 }, [])
  | .gone => some ({ w with g_web_use_client_fd := 0 }, [])

/-- A run, with everything that is done in order. -/
def webRun : WebTask → List (WebEvent σ) → Option (WebTask × List WebOut)
  | w, [] => some (w, [])
  | w, e :: es => (webStep spi w e).bind fun p => (webRun p.1 es).map fun q => (q.1, p.2 ++ q.2)

end Server

/-- The texts that `do_command` was called with. -/
def commands (out : List WebOut) : List Bytes :=
  out.filterMap fun o => match o with
    | .do_command Cmdline => some Cmdline
    | _ => none

/-! ## Splitting and answering -/

theorem untilMark_append {c : UInt8} (hc : c = 63 ∨ c = 0) (m : Bytes) : ∀ {u : Bytes}, 63 ∉ u → 0 ∉ u →
    untilMark (u ++ c :: m) = some (u, c :: m)
  | [], _, _ => if_pos hc
  | b :: u, h63, h0 => by
    rw [List.mem_cons, not_or] at h63 h0
    have hb : ¬ (b = 63 ∨ b = 0) := by
      rintro (rfl | rfl)
      · exact h63.1 rfl
      · exact h0.1 rfl
    rw [List.cons_append, untilMark, if_neg hb, untilMark_append hc m h63.2 h0.2]
    rfl

/-- A target with a `?` is split there, when both parts fit. -/
theorem urlSplit_mark (file : Bytes) {parm rest dst_file dst_parm : Bytes} (h63 : 63 ∉ file) (h0 : 0 ∉ file)
    (hp : 0 ∉ parm) (hfile : file.length < dst_file.length) (hparm : parm.length < dst_parm.length) :
    ∃ page parameter, urlSplit (file ++ 63 :: (parm ++ 0 :: rest)) dst_file dst_parm = some (page, parameter) ∧
      cstr page = some file ∧ cstr parameter = some parm := by
  obtain ⟨page, hpage, hfile'⟩ := exists_strcpy h0 hfile
  obtain ⟨parameter, hparameter, hparm'⟩ := exists_strcpy hp hparm
  refine ⟨page, parameter, ?_, hfile', hparm'⟩
  rw [urlSplit, untilMark_append (Or.inl rfl) _ h63 h0, Option.bind_some, hpage, Option.bind_some,
    List.tail_cons, cstr_of_append hp, Option.bind_some, hparameter]
  rfl

/-- Decoding in place leaves the decoded text as a C string. -/
theorem zhHttpUrlDecode_cstr {t str : Bytes} (h : cstr str = some t) (h0 : 0 ∉ urlDecode t) :
    ∃ str' n, zhHttpUrlDecode str t.length = some (str', n) ∧ cstr str' = some (urlDecode t) := by
  obtain ⟨rest, rfl, -⟩ := cstr_eq_some.mp h
  obtain ⟨str', hrun, -, htake, hend⟩ :=
    urlDecodeLoop_spec t (t ++ 0 :: rest) (0 :: rest) 0 0 rfl (by simp) le_rfl
  rw [Nat.zero_add, List.take_zero, List.nil_append] at htake
  rw [Nat.zero_add] at hend
  obtain ⟨hlt, hget⟩ := List.getElem?_eq_some_iff.mp hend
  refine ⟨str', _, hrun, ?_⟩
  have hsplit := List.take_append_drop (urlDecode t).length str'
  rw [htake, List.drop_eq_getElem_cons hlt, hget] at hsplit
  rw [← hsplit]
  exact cstr_of_append h0 _

section Command

variable {σ : Type} (spi : SpiFlash σ)

/-- The answer to the page of commands: the decoded parameter is sent, and kept for later. -/
theorem callback_command {page parameter t : Bytes} (hpage : cstr page = some (ascii "/command"))
    (hparm : cstr parameter = some t) (h0 : 0 ∉ urlDecode t) (s : σ) :
    ∃ p, pfWebServ_Callback spi page parameter s =
      some (some p, [.webSendHeader (urlDecode t).length, .webSendClient (urlDecode t)]) ∧
      cstr p = some (urlDecode t) := by
  obtain ⟨p, n, hdec, hp⟩ := zhHttpUrlDecode_cstr hparm h0
  refine ⟨p, ?_, hp⟩
  rw [pfWebServ_Callback, hpage, Option.bind_some, if_neg (by decide), if_neg (by decide), if_pos rfl, hparm,
    Option.bind_some, hdec, Option.bind_some, hp]
  rfl

/-- **The call that completes a request for `/command`**: the socket is closed and the decoded parameter
is run. -/
theorem recv_command {w : WebTask} {recv_buf url t : Bytes} {g : TzhHttpServ}
    (hurl : httpServReslovURL w.g_httpServ recv_buf w.url = some (0, g, url))
    (htarget : cstr url = some (ascii "/command?" ++ t)) (hlen : t.length < 1024) (h0 : 0 ∉ urlDecode t) (s : σ) :
    app_webserver_task_recv spi w recv_buf s = some (⟨w.g_web_use_client_fd, true, g, url⟩,
      [.webSendHeader (urlDecode t).length, .webSendClient (urlDecode t), .close w.g_web_use_client_fd,
        .do_command (urlDecode t)]) := by
  obtain ⟨rest, hmem, hnul⟩ := cstr_eq_some.mp htarget
  have ht : 0 ∉ t := fun h => hnul (List.mem_append_right _ h)
  obtain ⟨page, parameter, hsplit, hpage, hparm⟩ :
      ∃ page parameter, urlSplit url (List.replicate 64 0) (List.replicate 1024 0) = some (page, parameter) ∧
        cstr page = some (ascii "/command") ∧ cstr parameter = some t := by
    rw [hmem, List.append_assoc]
    refine urlSplit_mark (ascii "/command") (by decide) (by decide) ht (by decide) ?_
    rw [List.length_replicate]
    exact hlen
  obtain ⟨p, hcb, hp⟩ := callback_command spi hpage hparm h0 s
  rw [app_webserver_task_recv, hurl, Option.bind_some]
  simp only [if_true]
  rw [hsplit, Option.bind_some]
  simp only [hcb, Option.bind_some, pfWebServ_Done, hp, Option.map_some]
  rfl

/-! ## Requests for a command -/

/-- A request for `/command` with the parameter `e`: the request line, header text without NUL, and a
blank line at the end. -/
structure CommandRequest (e headers R : Bytes) : Prop where
  text : R = ascii "GET /command?" ++ e ++ ascii " HTTP/1.1\r\n" ++ headers
  headers_noNul : 0 ∉ headers
  ends : [13, 10, 13, 10] <:+ R
  length_lt : R.length < servCacheSize

/-- A parameter that no stage in front of the decoder cuts. -/
structure CleanParm (e : Bytes) : Prop where
  chars : ∀ b ∈ e, ¬ EndsTarget b
  noNul : 0 ∉ e
  length_lt : e.length < 1024

variable {e headers R : Bytes}

theorem CommandRequest.noNul (hR : CommandRequest e headers R) (he : CleanParm e) : 0 ∉ R := by
  rw [hR.text]
  simp only [List.mem_append, not_or]
  exact ⟨⟨⟨by decide, he.noNul⟩, by decide⟩, hR.headers_noNul⟩

theorem CommandRequest.line (hR : CommandRequest e headers R) :
    ∃ tail, R = ascii "GET " ++ (ascii "/command?" ++ e) ++ 32 :: tail := by
  refine ⟨ascii "HTTP/1.1\r\n" ++ headers, ?_⟩
  rw [hR.text]
  simp only [List.append_assoc]
  rfl

/-- A part of the request that holds a blank line holds the whole target. -/
theorem CommandRequest.line_of_blank (hR : CommandRequest e headers R) (he : CleanParm e) {y : Bytes}
    (hy : y <+: R) (hblank : [13, 10, 13, 10] <:+: y) :
    ∃ rest, y = ascii "GET " ++ (ascii "/command?" ++ e) ++ 32 :: rest := by
  obtain ⟨tail, hline⟩ := hR.line
  have hcr : (13 : UInt8) ∉ ascii "GET " ++ (ascii "/command?" ++ e) := by
    simp only [List.mem_append, not_or]
    exact ⟨by decide, by decide, fun h => he.chars 13 h (Or.inr (Or.inl rfl))⟩
  have h13 : (13 : UInt8) ∈ y := hblank.subset (by decide)
  have hreq : ascii "GET " ++ (ascii "/command?" ++ e) <+: R := ⟨32 :: tail, hline.symm⟩
  rcases List.prefix_or_prefix_of_prefix hy hreq with h | ⟨t, rfl⟩
  · exact absurd (h.subset h13) hcr
  · have ht : t ≠ [] := by
      rintro rfl
      rw [List.append_nil] at h13
      exact hcr h13
    obtain ⟨b, t, rfl⟩ := List.exists_cons_of_ne_nil ht
    rw [hline, List.prefix_append_right_inj, List.cons_prefix_cons] at hy
    exact ⟨t, by rw [hy.1]⟩

/-- On a socket the server has closed nothing more happens. -/
theorem webRun_closed (cs : List (Bytes × σ)) : ∀ {w : WebTask},
    ¬ (0 < w.g_web_use_client_fd ∧ w.closed = false) →
    ∃ w', webRun spi w (cs.map fun p => .recv p.1 p.2) = some (w', []) := by
  induction cs with
  | nil => exact fun {w} _ => ⟨w, rfl⟩
  | cons p cs ih =>
    intro w hw
    obtain ⟨w', hrun⟩ := ih (w := { w with g_web_use_client_fd := 0 }) (by simp)
    refine ⟨w', ?_⟩
    rw [List.map_cons, webRun, webStep, if_neg hw, Option.bind_some, hrun]
    rfl

variable {w : WebTask} {x c : Bytes}

/-- A chunk that leaves the blank line out is kept. -/
theorem CommandRequest.step_wait (hR : CommandRequest e headers R) (he : CleanParm e) (hpre : x ++ c <+: R)
    (htok : ascii "GET " <+: x ++ c) (hno : ¬ [13, 10, 13, 10] <:+: x ++ c) (hfd : 0 < w.g_web_use_client_fd)
    (hopen : w.closed = false) (hw : w.g_httpServ = .cached x) (s : σ) :
    webStep spi w (.recv c s) = some ({ w with g_httpServ := .cached (x ++ c) }, []) := by
  have hlen : (x ++ c).length < servCacheSize := hpre.length_le.trans_lt hR.length_lt
  have h0 : 0 ∉ x ++ c := fun h => hR.noNul he (hpre.subset h)
  obtain ⟨z, hz⟩ := cached_eq hlen
  have hend : rnrnstr (TzhHttpServ.cached (x ++ c)).cacheBuf = some none := by
    rw [hz]
    exact scan_absent h0 (by decide) hno
  have hwait := reslovURL_wait (Or.inl rfl) hlen htok hend w.url
  rw [webStep, if_pos ⟨hfd, hopen⟩, app_webserver_task_recv, hw, hwait]
  rfl

/-- The chunk that brings the blank line runs the command and closes the socket. -/
theorem CommandRequest.step_done (hR : CommandRequest e headers R) (he : CleanParm e) (hdec : 0 ∉ urlDecode e)
    (hpre : x ++ c <+: R) (hblank : [13, 10, 13, 10] <:+: x ++ c) (hfd : 0 < w.g_web_use_client_fd)
    (hopen : w.closed = false) (hw : w.g_httpServ = .cached x) (hurl : w.url.length = urlSize) (s : σ) :
    ∃ w' out, webStep spi w (.recv c s) = some (w', out) ∧ w'.closed = true ∧ commands out = [urlDecode e] := by
  have hlen : (x ++ c).length < servCacheSize := hpre.length_le.trans_lt hR.length_lt
  have h0 : 0 ∉ x ++ c := fun h => hR.noNul he (hpre.subset h)
  obtain ⟨t, hline⟩ := hR.line_of_blank he hpre hblank
  have htarget : ∀ b ∈ ascii "/command?" ++ e, ¬ EndsTarget b := by
    intro b hb
    rcases List.mem_append.mp hb with h | h
    · exact (show ∀ b ∈ ascii "/command?", ¬ EndsTarget b by decide +kernel) b h
    · exact he.chars b h
  have hnul : 0 ∉ ascii "/command?" ++ e := by
    rw [List.mem_append, not_or]
    exact ⟨by decide, he.noNul⟩
  -- the url buffer takes every target of this length, whatever it held
  obtain ⟨url, hcpy⟩ : ∃ url, strcpy w.url 0 (ascii "/command?" ++ e) = some url := by
    refine ⟨_, store_of_le ?_⟩
    have := he.length_lt
    rw [List.length_append, List.length_append, List.length_singleton, hurl, urlSize,
      show (ascii "/command?").length = 9 from rfl]
    omega
  have hcall := reslovURL_done (Or.inl rfl) hlen h0 hline (Or.inl rfl) htarget hblank w.url
  rw [← hw, hcpy, Option.map_some] at hcall
  have hrecv := recv_command spi hcall (cstr_strcpy hnul hcpy) he.length_lt hdec s
  rw [webStep, if_pos ⟨hfd, hopen⟩, hrecv]
  exact ⟨_, _, rfl, rfl, rfl⟩

/-- **The rest of a request**: with the bytes `x` kept and the method token there after the next chunk, the
command is run once, in the call that brings the blank line. -/
theorem CommandRequest.run_rest (hR : CommandRequest e headers R) (he : CleanParm e) (hdec : 0 ∉ urlDecode e)
    (cs : List (Bytes × σ)) : ∀ (p : Bytes × σ) {x : Bytes} {w : WebTask},
    x ++ p.1 ++ (cs.map Prod.fst).flatten = R → ascii "GET " <+: x ++ p.1 → 0 < w.g_web_use_client_fd →
    w.closed = false → w.g_httpServ = .cached x → w.url.length = urlSize →
    ∃ w' out, webRun spi w ((p :: cs).map fun p => .recv p.1 p.2) = some (w', out) ∧
      commands out = [urlDecode e] := by
  induction cs with
  | nil =>
    intro p x w hs htok hfd hopen hw hurl
    rw [List.map_nil, List.flatten_nil, List.append_nil] at hs
    have hblank : [13, 10, 13, 10] <:+: x ++ p.1 := hs ▸ hR.ends.isInfix
    obtain ⟨w', out, hstep, -, hout⟩ :=
      hR.step_done spi he hdec (hs ▸ List.prefix_refl _) hblank hfd hopen hw hurl p.2
    refine ⟨w', out ++ [], ?_, by rw [List.append_nil]; exact hout⟩
    rw [List.map_cons, webRun, hstep]
    rfl
  | cons q cs ih =>
    intro p x w hs htok hfd hopen hw hurl
    have hpre : x ++ p.1 <+: R := ⟨((q :: cs).map Prod.fst).flatten, hs⟩
    by_cases hblank : [13, 10, 13, 10] <:+: x ++ p.1
    · obtain ⟨w₁, out, hstep, hclosed, hout⟩ := hR.step_done spi he hdec hpre hblank hfd hopen hw hurl p.2
      obtain ⟨w', hrest⟩ := webRun_closed spi (q :: cs) (w := w₁) (by simp [hclosed])
      refine ⟨w', out ++ [], ?_, by rw [List.append_nil]; exact hout⟩
      rw [List.map_cons, webRun, hstep, Option.bind_some, hrest]
      rfl
    · have hstep := hR.step_wait spi he hpre htok hblank hfd hopen hw p.2
      rw [List.map_cons, List.flatten_cons, ← List.append_assoc] at hs
      obtain ⟨w', out, hrun, hout⟩ := ih q (w := { w with g_httpServ := .cached (x ++ p.1) }) hs
        (htok.trans (List.prefix_append _ _)) hfd hopen rfl hurl
      refine ⟨w', out, ?_, hout⟩
      rw [List.map_cons, webRun, hstep, Option.bind_some, hrun]
      rfl

/-- An encoded text reaches the decoder uncut. -/
theorem cleanParm_urlEncode {c : Bytes} (hlen : c.length ≤ 254) : CleanParm (urlEncode c) where
  chars b hb := by
    rintro (rfl | rfl | rfl)
    · exact notMem_urlEncode (x := 32) (by decide) c hb
    · exact notMem_urlEncode (x := 13) (by decide) c hb
    · exact notMem_urlEncode (x := 10) (by decide) c hb
  noNul := notMem_urlEncode (by decide) c
  length_lt := by
    have := urlEncode_length_le c
    omega

/-- **A command over the web**: whatever the URL encoder made of a text of at most 254 characters, sent as
the parameter of `/command` on a fresh connection, runs `do_command` once and with that text, in any chunks
of which the first holds the method token. -/
theorem web_command_once (garbage : ℕ → UInt8) {c block : Bytes} {n : ℕ} (hlen : c.length ≤ 254) (h0 : 0 ∉ c)
    (henc : zhHttpUrlEncode garbage c = some (block, n)) (hR : CommandRequest (block.take n) headers R)
    (hurl : w.url.length = urlSize) {fd : ℕ} (hfd : 0 < fd) {chunks : List (Bytes × σ)}
    (hs : (chunks.map Prod.fst).flatten = R) (hfirst : ∀ p ∈ chunks.head?, 4 ≤ p.1.length) :
    ∃ w' out, webRun spi w (.accept fd :: chunks.map fun p => .recv p.1 p.2) = some (w', out) ∧
      commands out = [c] := by
  obtain ⟨rest, hspec⟩ := zhHttpUrlEncode_spec garbage c
  have hblock : block.take n = urlEncode c := by
    rw [henc, Option.some.injEq, Prod.mk.injEq] at hspec
    rw [hspec.1, hspec.2, List.take_left]
  rw [hblock] at hR
  obtain ⟨tail, hline⟩ := hR.line
  cases chunks with
  | nil =>
    rw [hline] at hs
    cases hs
  | cons p cs =>
    rw [List.map_cons, List.flatten_cons] at hs
    have hget : ascii "GET " <+: R :=
      ⟨ascii "/command?" ++ urlEncode c ++ 32 :: tail, by rw [hline]; simp only [List.append_assoc]⟩
    have htok : ascii "GET " <+: [] ++ p.1 :=
      List.prefix_of_prefix_length_le hget ⟨(cs.map Prod.fst).flatten, hs⟩ (hfirst p rfl)
    have hdec : urlDecode (urlEncode c) = c := urlDecode_urlEncode c
    obtain ⟨w', out, hrun, hout⟩ := hR.run_rest spi (cleanParm_urlEncode hlen) (hdec.symm ▸ h0) cs p
      (w := (app_webserver_task_accept w fd).1) hs htok hfd rfl rfl hurl
    rw [hdec] at hout
    refine ⟨w', (app_webserver_task_accept w fd).2 ++ out, ?_, ?_⟩
    · rw [webRun, webStep, Option.bind_some, hrun]
      rfl
    · have hacc : commands (app_webserver_task_accept w fd).2 = [] := by
        unfold app_webserver_task_accept
        split_ifs <;> rfl
      rw [commands, List.filterMap_append]
      show commands _ ++ commands out = _
      rw [hacc, hout]
      rfl

end Command

theorem stop_request : CommandRequest ((ascii "mqtt+stop" ++ List.replicate 19 0).take 9) (ascii "Host: a\r\n\r\n")
    (ascii "GET /command?mqtt+stop HTTP/1.1\r\nHost: a\r\n\r\n") where
  text := rfl
  headers_noNul := by decide
  ends := ⟨ascii "GET /command?mqtt+stop HTTP/1.1\r\nHost: a", rfl⟩
  length_lt := by decide +kernel

/-- The old target in `url` is a command, too. -/
theorem web_command_mqtt_stop :
    ∃ w' out, webRun norFlash ⟨0, false, .zeroed, ascii "/command?factory" ++ List.replicate 1108 0⟩
        (.accept 5 :: [(ascii "GET /comm", bootChip), (ascii "and?mqtt+stop HTTP/1.1\r\nHost: a\r\n\r", bootChip),
          (ascii "\n", bootChip)].map fun p => .recv p.1 p.2) = some (w', out) ∧
      commands out = [ascii "mqtt stop"] :=
  web_command_once norFlash (fun _ => 0) (by decide) (by decide) (by decide +kernel) stop_request
    (by decide +kernel) (by decide) rfl (by decide)

/-- A header line with a NUL, behind which the blank line is not looked for. -/
def nulRequest : Bytes := ascii "GET /command?help HTTP/1.1\r\nHost: a" ++ 0 :: ascii "\r\n\r\n"

theorem nulRequest_waits : rnrnstr (TzhHttpServ.cached nulRequest).cacheBuf = some none := by
  obtain ⟨z, hz⟩ := cached_eq (show nulRequest.length < servCacheSize by decide +kernel)
  rw [hz, nulRequest, List.append_assoc, List.cons_append]
  exact scan_absent (by decide) (by decide) (by decide +kernel)

/-- A request with a NUL among its headers runs nothing. -/
theorem web_command_nul :
    ¬ ∀ (garbage : ℕ → UInt8) (c block headers R : Bytes) (n : ℕ), c.length ≤ 254 → 0 ∉ c → c ≠ [] →
      zhHttpUrlEncode garbage c = some (block, n) →
      R = ascii "GET /command?" ++ block.take n ++ ascii " HTTP/1.1\r\n" ++ headers → [13, 10, 13, 10] <:+ R →
      R.length < servCacheSize → ∀ (w : WebTask), w.url.length = urlSize → ∀ (fd : ℕ), 0 < fd →
      ∀ (chunks : List (Bytes × (ℕ → UInt8))), (chunks.map Prod.fst).flatten = R →
      (∀ p ∈ chunks.head?, 4 ≤ p.1.length) →
      ∃ w' out, webRun norFlash w (.accept fd :: chunks.map fun p => .recv p.1 p.2) = some (w', out) ∧
        commands out = [c] := by
  intro h
  obtain ⟨w', out, hrun, hout⟩ := h (fun _ => 0) (ascii "help") (ascii "help" ++ List.replicate 9 0)
    (ascii "Host: a" ++ 0 :: ascii "\r\n\r\n") nulRequest 4 (by decide) (by decide) (by decide) (by decide +kernel)
    (by decide +kernel) ⟨ascii "GET /command?help HTTP/1.1\r\nHost: a" ++ [0], by decide +kernel⟩ (by decide +kernel)
    ⟨0, false, .zeroed, List.replicate urlSize 0⟩ List.length_replicate 5 (by decide) [(nulRequest, bootChip)] rfl
    (by decide +kernel)
  have hwait : httpServReslovURL (.cached []) nulRequest (List.replicate urlSize 0) =
      some (3, .cached nulRequest, List.replicate urlSize 0) :=
    reslovURL_wait (Or.inl rfl) (show ([] ++ nulRequest).length < servCacheSize by decide +kernel)
      ⟨ascii "/command?help HTTP/1.1\r\nHost: a" ++ 0 :: ascii "\r\n\r\n", by decide +kernel⟩ nulRequest_waits _
  have hstep : webStep norFlash ⟨5, false, .cached [], List.replicate urlSize 0⟩ (.recv nulRequest bootChip) =
      some (⟨5, false, .cached nulRequest, List.replicate urlSize 0⟩, []) := by
    rw [webStep, if_pos ⟨by decide, rfl⟩, app_webserver_task_recv, hwait]
    rfl
  have hall : webRun norFlash ⟨0, false, .zeroed, List.replicate urlSize 0⟩ [.accept 5, .recv nulRequest bootChip] =
      some (⟨5, false, .cached nulRequest, List.replicate urlSize 0⟩, []) := by
    rw [webRun, webStep, Option.bind_some, webRun]
    change ((webStep norFlash ⟨5, false, .cached [], List.replicate urlSize 0⟩ (.recv nulRequest bootChip)).bind _).map _ = _
    rw [hstep]
    rfl
  obtain ⟨-, rfl⟩ := Prod.mk.inj (Option.some.inj (hall.symm.trans hrun))
  cases hout

end Esp32Base
