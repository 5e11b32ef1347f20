import Esp32Base.Http.Recv
import Esp32Base.Http.Serv

/-!
# Http.Response — the headers the server sends (http_serv.c)

The header lines of `httpServResponeOK` and `httpServResponeNoFound`, against what `zhHttpGetProtocolValue` of
the client looks for. Three of the lines have the colon of the Chinese character set, two bytes none of
which is the ASCII colon.

* `protocolValue_respone`: the client finds the name and reads an empty value behind it.
* `respones_disagree`: no response, whatever its length, is one the client can read.
-/

namespace Esp32Base

open Lib Lib.Buf Lib.CText

/-- The colon of the source file, as its two bytes. -/
def fullColon : Bytes := [0xA3, 0xBA]

/-- The text up to the number. -/
def responeHead (status : Bytes) : Bytes :=
  ascii "HTTP/1.1 " ++ status ++ ascii "\r\nServer" ++ fullColon ++ ascii "hx-httpd (hx-mcu)\r\nContent-Length" ++
    fullColon

/-- The text behind the number. -/
def responeTail (content : Bytes) : Bytes :=
  ascii "\r\nContent-Type: text/html\r\nKeep-Alive: timeout=5, max=100\r\nConnection" ++ fullColon ++
    ascii "Close\r\n\r\n" ++ content

/-- `sprintf` into the block of 500 bytes. -/
def respone (garbage : ℕ → UInt8) (status : Bytes) (len : ℤ) (content : Bytes) : Option Bytes :=
  strcpy (alloc garbage 500) 0 (responeHead status ++ printInt len ++ responeTail content)

def httpServResponeOK (garbage : ℕ → UInt8) (content_len : ℤ) : Option Bytes :=
  respone garbage (ascii "200 OK") content_len []

def httpServResponeNoFound (garbage : ℕ → UInt8) : Option Bytes :=
  respone garbage (ascii "404 Not Found") (ascii "404 not found").length (ascii "404 not found")

/-! ## What the client expects -/

/-- A line between the status line and the blank line. -/
def IsHeaderLine (text line : Bytes) : Prop :=
  ∃ pre post, text = pre ++ [13, 10] ++ line ++ [13, 10] ++ post ∧ line ≠ [] ∧ ¬ [13, 10] <:+: line ∧
    ¬ [13, 10, 13, 10] <:+: pre ++ [13, 10] ++ line

/-- A name of visible characters, and a colon. -/
def IsField (line : Bytes) : Prop :=
  ∃ name value, line = name ++ 58 :: value ∧ name ≠ [] ∧ ∀ b ∈ name, 33 ≤ b ∧ b ≤ 126

/-- Every header line is a field. -/
def FieldLines (rsp : Bytes) : Prop :=
  ∀ text, cstr rsp = some text → ∀ line, IsHeaderLine text line → IsField line

/-- The client reads the length `len` off the response, into whatever `value` of its size. -/
def ReadsLength (rsp : Bytes) (len : ℤ) : Prop :=
  ∀ value : Bytes, value.length = 32 →
    ∃ value', zhHttpGetProtocolValue rsp (ascii "Content-Length") value = some value' ∧
      cstr value' = some (printInt len)

/-! ## The responses -/

/-- The characters of a text that neither end a line nor are a colon. -/
def InLine (c : UInt8) : Prop := c ≠ 58 ∧ c ≠ 10 ∧ c ≠ 13

instance (c : UInt8) : Decidable (InLine c) := inferInstanceAs (Decidable (_ ∧ _))

/-- A line without a colon is skipped to its end. -/
theorem skipToColon_line (y : Bytes) : ∀ {u : Bytes}, (∀ c ∈ u, InLine c) →
    skipToColon (u ++ 13 :: 10 :: y) = 13 :: 10 :: y
  | [], _ => if_pos (Or.inr (Or.inr ⟨rfl, rfl⟩))
  | c :: u, h => by
    obtain ⟨h58, h10, h13⟩ := h c List.mem_cons_self
    have hgo : ¬ (c = 58 ∨ c = 10 ∨ c = 13 ∧ (u ++ 13 :: 10 :: y).head? = some 10) := by
      rintro (hc | hc | ⟨hc, -⟩)
      · exact h58 hc
      · exact h10 hc
      · exact h13 hc
    rw [List.cons_append, skipToColon, if_neg hgo]
    exact skipToColon_line y fun b hb => h b (List.mem_cons_of_mem c hb)

theorem inLine_printInt (v : ℤ) : ∀ c ∈ printInt v, InLine c := by
  intro c hc
  rcases mem_printInt hc with rfl | hd
  · decide
  · refine ⟨?_, ?_, ?_⟩ <;> rintro rfl <;> exact absurd hd (by decide)

/-- What the client makes of the line. -/
theorem protocolText_respone (v : ℤ) (y : Bytes) :
    protocolText (ascii "Content-Length" ++ fullColon ++ printInt v ++ 13 :: 10 :: y) = [] := by
  have hname : ∀ c ∈ ascii "Content-Length" ++ fullColon, InLine c := by decide +kernel
  have hline : ∀ c ∈ ascii "Content-Length" ++ fullColon ++ printInt v, InLine c := by
    intro c hc
    rcases List.mem_append.mp hc with hc | hc
    · exact hname c hc
    · exact inLine_printInt v c hc
  unfold protocolText
  rw [skipToColon_line y hline]
  rfl

/-- A status that leaves the lines behind it alone. -/
structure PlainStatus (status : Bytes) : Prop where
  noNul : 0 ∉ responeHead status
  length_le : (responeHead status).length ≤ 200
  name : strstr (ascii "Content-Length") (responeHead status) = some (ascii "Content-Length" ++ fullColon)
  noBlank : ¬ [13, 10, 13, 10] <:+:
    ascii "HTTP/1.1 " ++ status ++ [13, 10] ++ (ascii "Server" ++ fullColon ++ ascii "hx-httpd (hx-mcu)")

section Respone

variable {garbage : ℕ → UInt8} {status content : Bytes} {len : ℤ}

/-- The response is built, and it is a C string. -/
theorem respone_text (hs : PlainStatus status) (hc : 0 ∉ content) (hlen : content.length ≤ 100) (h : -2 ^ 31 ≤ len)
    (h' : len < 2 ^ 31) :
    ∃ rsp, respone garbage status len content = some rsp ∧
      cstr rsp = some (responeHead status ++ printInt len ++ responeTail content) := by
  have hint := printInt_length_le h h'
  have htail : (responeTail content).length ≤ 100 + content.length := by
    unfold responeTail
    rw [List.length_append]
    exact Nat.add_le_add_right (by decide +kernel) _
  have htail0 : 0 ∉ responeTail content := by
    unfold responeTail
    rw [List.mem_append, not_or]
    exact ⟨by decide +kernel, hc⟩
  have hfit : 0 + (responeHead status ++ printInt len ++ responeTail content ++ [0]).length ≤
      (alloc garbage 500).length := by
    have := hs.length_le
    simp only [List.length_append, List.length_singleton, alloc_length]
    omega
  obtain ⟨rsp, hrsp⟩ : ∃ rsp, respone garbage status len content = some rsp := by
    unfold respone strcpy
    rw [store_of_le hfit]
    exact ⟨_, rfl⟩
  refine ⟨rsp, hrsp, cstr_strcpy ?_ hrsp⟩
  rw [List.mem_append, List.mem_append, not_or, not_or]
  exact ⟨⟨hs.noNul, zero_notMem_printInt len⟩, htail0⟩

/-- **The client reads nothing**: it finds the name, and no colon on its line. -/
theorem protocolValue_respone (hs : PlainStatus status) {rsp : Bytes}
    (hrsp : cstr rsp = some (responeHead status ++ printInt len ++ responeTail content)) (value : Bytes) :
    zhHttpGetProtocolValue rsp (ascii "Content-Length") value = strcpy value 0 [] := by
  obtain ⟨y, hy⟩ : ∃ y, responeTail content = 13 :: 10 :: y := ⟨_, rfl⟩
  have hfound := strstr_append (printInt len ++ responeTail content) hs.name
  rw [← List.append_assoc, ← List.append_assoc, hy] at hfound
  rw [zhHttpGetProtocolValue, hrsp, Option.bind_some, hy, hfound]
  show strcpy value 0 (protocolText _) = _
  rw [protocolText_respone]

/-- The second line has no colon. -/
theorem not_fieldLines (hs : PlainStatus status) {rsp : Bytes}
    (hrsp : cstr rsp = some (responeHead status ++ printInt len ++ responeTail content)) : ¬ FieldLines rsp := by
  intro h
  have hline : IsHeaderLine (responeHead status ++ printInt len ++ responeTail content)
      (ascii "Server" ++ fullColon ++ ascii "hx-httpd (hx-mcu)") := by
    refine ⟨ascii "HTTP/1.1 " ++ status,
      ascii "Content-Length" ++ fullColon ++ printInt len ++ responeTail content, ?_, by decide +kernel,
      by decide +kernel, hs.noBlank⟩
    have hserver : ascii "\r\nServer" = [13, 10] ++ ascii "Server" := by decide +kernel
    have hlength : ascii "hx-httpd (hx-mcu)\r\nContent-Length" =
        ascii "hx-httpd (hx-mcu)" ++ ([13, 10] ++ ascii "Content-Length") := by decide +kernel
    simp only [responeHead, hserver, hlength, List.append_assoc]
  obtain ⟨name, value, hsplit, -, -⟩ := h _ hrsp _ hline
  have hcolon : (58 : UInt8) ∈ ascii "Server" ++ fullColon ++ ascii "hx-httpd (hx-mcu)" := by
    rw [hsplit]
    exact List.mem_append_right name List.mem_cons_self
  exact absurd hcolon (by decide +kernel)

theorem not_readsLength (hs : PlainStatus status) {rsp : Bytes}
    (hrsp : cstr rsp = some (responeHead status ++ printInt len ++ responeTail content)) :
    ¬ ReadsLength rsp len := by
  intro h
  obtain ⟨value', hget, hval⟩ := h (List.replicate 32 0) List.length_replicate
  rw [protocolValue_respone hs hrsp] at hget
  rw [cstr_strcpy List.not_mem_nil hget, Option.some.injEq] at hval
  have hpos : 0 < (printInt len).length := by
    rw [printInt, List.length_append, List.length_map]
    have := Nat.length_toDigits_pos (b := 10) (n := len.natAbs)
    omega
  rw [← hval] at hpos
  exact absurd hpos (lt_irrefl 0)

end Respone

theorem plainStatus_ok : PlainStatus (ascii "200 OK") where
  noNul := by decide +kernel
  length_le := by decide +kernel
  name := by decide +kernel
  noBlank := by decide +kernel

theorem plainStatus_notFound : PlainStatus (ascii "404 Not Found") where
  noNul := by decide +kernel
  length_le := by decide +kernel
  name := by decide +kernel
  noBlank := by decide +kernel

/-- **No response is one the client can read**: whatever the length is, a header line of each response is no
field, and the value read for `Content-Length` is not the length. -/
theorem respones_disagree (garbage : ℕ → UInt8) {content_len : ℤ} (h0 : 0 ≤ content_len) (h : content_len < 2 ^ 31) :
    ∃ ok notFound, httpServResponeOK garbage content_len = some ok ∧
      httpServResponeNoFound garbage = some notFound ∧ ¬ FieldLines ok ∧ ¬ ReadsLength ok content_len ∧
      ¬ FieldLines notFound ∧ ¬ ReadsLength notFound (ascii "404 not found").length := by
  obtain ⟨ok, hok, htext⟩ : ∃ ok, httpServResponeOK garbage content_len = some ok ∧ _ :=
    respone_text plainStatus_ok List.not_mem_nil (Nat.zero_le 100) (by omega) h
  have h13 : ((ascii "404 not found").length : ℤ) = 13 := rfl
  obtain ⟨nf, hnf, htext'⟩ : ∃ nf, httpServResponeNoFound garbage = some nf ∧ _ :=
    respone_text plainStatus_notFound (by decide +kernel) (by decide +kernel) (by omega) (by omega)
  exact ⟨ok, nf, hok, hnf, not_fieldLines plainStatus_ok htext, not_readsLength plainStatus_ok htext,
    not_fieldLines plainStatus_notFound htext', not_readsLength plainStatus_notFound htext'⟩

theorem respones_disagree_five :
    ∃ ok notFound, httpServResponeOK (fun _ => 0) 5 = some ok ∧
      httpServResponeNoFound (fun _ => 0) = some notFound ∧ ¬ FieldLines ok ∧ ¬ ReadsLength ok 5 ∧
      ¬ FieldLines notFound ∧ ¬ ReadsLength notFound (ascii "404 not found").length :=
  respones_disagree (fun _ => 0) (by omega) (by omega)

/-- The response to a page of five bytes. -/
theorem respone_unread :
    ¬ ∀ (garbage : ℕ → UInt8) (content_len : ℤ) (rsp : Bytes), 0 ≤ content_len → content_len < 2 ^ 31 →
      httpServResponeOK garbage content_len = some rsp → FieldLines rsp ∧ ReadsLength rsp content_len := by
  intro h
  obtain ⟨ok, hok, htext⟩ : ∃ ok, httpServResponeOK (fun _ => 0) 5 = some ok ∧ _ :=
    respone_text plainStatus_ok List.not_mem_nil (Nat.zero_le 100) (by omega) (by omega)
  exact not_readsLength plainStatus_ok htext (h _ 5 ok (by omega) (by omega) hok).2

end Esp32Base
