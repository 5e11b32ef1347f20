import Mathlib.Data.List.Basic
import Esp32Base.Lib.Base64
import Esp32Base.Http.Match
import Esp32Base.WebSock.KeyHeaders

/-!
# WebSock.Accept — the answer to a request of the new protocol (websocket.c, c_base64.h)

The key goes through the matcher, the trimming, the digest, its hexadecimal text, `ChangeCharToArray` and
`base64_encode` into `Sec-WebSocket-Accept`.

* `base64_encode_eq`, `changeChar_words`: the encoder is that of RFC 4648, and the digest is read back in big-endian
  order.
* `handshake_2_accepts_iff`: a well-formed request is answered with the encoded digest iff what is copied fits.
-/

namespace Esp32Base

open Lib Lib.Buf Lib.CText

/-! ## Requests -/

/-- The characters of a line. -/
def LineText (s : Bytes) : Prop := ∀ c ∈ s, c ≠ 13 ∧ c ≠ 10 ∧ c ≠ 0

instance (s : Bytes) : Decidable (LineText s) := inferInstanceAs (Decidable (∀ c ∈ s, _))

def spaceOrTab (c : UInt8) : Bool := c == 32 || c == 9

/-- A value without the spaces and tabs at its ends. -/
def trimSpaces (value : Bytes) : Bytes := (value.dropWhile spaceOrTab).rdropWhile spaceOrTab

/-- A GET line, what is behind `GET `, and header lines, names and values, around the one with the key. -/
structure RequestLines where
  getLine : Bytes
  before : List (Bytes × Bytes)
  value : Bytes
  after : List (Bytes × Bytes)

namespace RequestLines

variable (r : RequestLines)

def headers : List (Bytes × Bytes) := r.before ++ (ascii "Sec-WebSocket-Key", r.value) :: r.after

/-- The lines in front of the one with the key, and all of them. -/
def front : Bytes := ascii "GET " ++ r.getLine ++ r.before.flatMap headerLine ++ [13, 10]
def lines : Bytes := ascii "GET " ++ r.getLine ++ r.headers.flatMap headerLine

def text : Bytes := r.lines ++ ascii "\r\n\r\n"

end RequestLines

/-- A request text with one key. -/
structure KeyRequest extends RequestLines where
  getLine_text : LineText getLine
  value_text : LineText value
  other : ∀ h ∈ before ++ after, (LineText h.1 ∧ 58 ∉ h.1) ∧ LineText h.2 ∧ h.2.length ≤ 1000
  once : ∀ a b, toRequestLines.text = a ++ ascii "Sec-WebSocket-Key:" ++ b → a = toRequestLines.front
  trimmed : 1 ≤ (trimSpaces value).length ∧ (trimSpaces value).length ≤ 219
  noKey1 : ¬ ascii "Sec-WebSocket-Key1:" <:+: toRequestLines.text
  size : toRequestLines.text.length ≤ 2000

/-- Nothing that is copied out of the key's line or of the GET line overflows `buf[1024]`. -/
structure RequestLines.CopiesFit (r : RequestLines) : Prop where
  value : r.value.length < 1024
  target : (r.getLine.takeWhile (· ≠ 32)).length < 1024
  inTarget : ∀ name ∈ ["Host:", "Origin:", "Sec-WebSocket-Version:"],
    (matchLoop (ascii name) 0 0 (ascii "GET " ++ r.getLine)).length < 1024

/-- The digest as 20 bytes. -/
def digestBytes (digest : Vector UInt32 5) : Bytes := digest.toList.flatMap fun w => be32 w.toNat

/-- The answer, with the encoded digest. -/
def acceptText (digest : Vector UInt32 5) : Bytes :=
  ascii "HTTP/1.1 101 Switching Protocols\r\nUpgrade: WebSocket\r\nConnection: Upgrade\r\n" ++
    ascii "Sec-WebSocket-Accept: " ++ Base64.encode (digestBytes digest) ++ ascii "\r\n\r\n"

/-- The call returns 0 and leaves the answer to the digest. -/
def Accepts (d : Digests) (digest : Vector UInt32 5) (h : Handshake) : Prop :=
  ∃ h', zhWebSockHandshake_2 d h = some (0, h') ∧ cstr h'.acceptBuf = some (acceptText digest)

/-! ## The encoder -/

/-- The parts of a byte that the encoder takes, in numbers. -/
theorem base64_parts (a : UInt8) :
    (((a >>> 2) &&& 0x3F).toNat = a.toNat / 4 ∧ ((a <<< 4) &&& (0x30 : UInt8)).toNat = a.toNat % 4 * 16) ∧
      (((a >>> 4) &&& 0xF).toNat = a.toNat / 16 ∧ ((a <<< 2) &&& (0x3C : UInt8)).toNat = a.toNat % 16 * 4) ∧
      ((a >>> 6) &&& 0x3).toNat = a.toNat / 64 ∧ (a &&& 0x3F).toNat = a.toNat % 64 := by
  revert a
  apply forall_byte
  decide +kernel

theorem base64_map_eq (b : UInt8) : base64_map b = Base64.char b.toNat := rfl

/-- The sums of two parts stay below 64. -/
theorem base64_second (a b : UInt8) : (((a <<< 4) &&& (0x30 : UInt8)) + ((b >>> 4) &&& 0xF)).toNat =
    a.toNat % 4 * 16 + b.toNat / 16 := by
  rw [UInt8.toNat_add, (base64_parts a).1.2, (base64_parts b).2.1.1]
  have hb := b.toNat_lt
  omega

theorem base64_third (b c : UInt8) : (((b <<< 2) &&& (0x3C : UInt8)) + ((c >>> 6) &&& 0x3)).toNat =
    b.toNat % 16 * 4 + c.toNat / 64 := by
  rw [UInt8.toNat_add, (base64_parts b).2.1.2, (base64_parts c).2.2.1]
  have hc := c.toNat_lt
  omega

/-- **`base64_encode`** is the encoding of RFC 4648. -/
theorem base64_encode_eq (src : Bytes) : base64_encode src = Base64.encode src := by
  induction src using base64_encode.induct with
  | case1 a b c src ih =>
    rw [base64_encode, Base64.encode_three, ih]
    simp only [base64_map_eq, base64_second, base64_third, (base64_parts a).1.1, (base64_parts c).2.2.2]
  | case2 a b =>
    rw [base64_encode, Base64.encode_two]
    simp only [base64_map_eq, base64_second, (base64_parts a).1.1, (base64_parts b).2.1.2]
  | case3 a =>
    rw [base64_encode, Base64.encode_one]
    simp only [base64_map_eq, (base64_parts a).1.1, (base64_parts a).1.2]
  | case4 => exact Base64.encode_nil.symm

/-! ## The digest's text -/

theorem hexNibble_printHex (c : UInt8) : ((hexNibble (hexUpper.getD (c >>> 4).toNat 0) <<< 4) |||
    hexNibble (hexUpper.getD (c &&& 15).toNat 0)) = c := by
  revert c
  apply forall_byte
  decide +kernel

/-- A byte that was printed is read back. -/
theorem changeChar_printHex (c : UInt8) (s : Bytes) :
    ChangeCharToArray (printHex hexUpper c ++ s) = (ChangeCharToArray s).map (c :: ·) := by
  rw [printHex, List.cons_append, List.cons_append, List.nil_append, ChangeCharToArray, hexNibble_printHex]

/-- The bytes of a word that are printed. -/
theorem printWord_eq (w : UInt32) : printWord w = (be32 w.toNat).flatMap (printHex hexUpper) := by
  have h24 : (w >>> 24).toUInt8 = UInt8.ofNat (w.toNat / 2 ^ 24) := by
    apply UInt8.toNat.inj
    simp [Nat.shiftRight_eq_div_pow]
  have h16 : (w >>> 16).toUInt8 = UInt8.ofNat (w.toNat / 2 ^ 16) := by
    apply UInt8.toNat.inj
    simp [Nat.shiftRight_eq_div_pow]
  have h8 : (w >>> 8).toUInt8 = UInt8.ofNat (w.toNat / 2 ^ 8) := by
    apply UInt8.toNat.inj
    simp [Nat.shiftRight_eq_div_pow]
  have h0 : w.toUInt8 = UInt8.ofNat w.toNat := by
    apply UInt8.toNat.inj
    simp
  rw [printWord, h24, h16, h8, h0, be32]
  simp only [List.flatMap_cons, List.flatMap_nil, List.append_nil, List.append_assoc]

theorem changeChar_bytes (b : Bytes) : ChangeCharToArray (b.flatMap (printHex hexUpper)) = some b := by
  induction b with
  | nil => rfl
  | cons c b ih => rw [List.flatMap_cons, changeChar_printHex, ih, Option.map_some]

/-- **The hexadecimal text** of the digest is read back as its bytes, leading zeros and all. -/
theorem changeChar_words (digest : Vector UInt32 5) :
    ChangeCharToArray (digest.toList.flatMap printWord) = some (digestBytes digest) := by
  rw [← changeChar_bytes, digestBytes, List.flatMap_assoc]
  simp only [← printWord_eq]

section Answer

variable {d : Digests} {sha1 : Bytes → Vector UInt32 5} (hsha : ∀ msg, d.SHA1Result msg = some (sha1 msg))

include hsha

/-- The answer to a key that fits `msg[256]`. -/
theorem accept_2_key {hs : TzhWebSocket} {key : Bytes} (hk : hs.key = some key) (hlen : key.length < 220) :
    accept_2 d hs = some (some (acceptText (sha1 (key ++ ascii "258EAFA5-E914-47DA-95CA-C5AB0DC85B11")))) := by
  have hguid : (ascii "258EAFA5-E914-47DA-95CA-C5AB0DC85B11").length = 36 := by decide +kernel
  have hmsg : (printStr hs.key ++ ascii "258EAFA5-E914-47DA-95CA-C5AB0DC85B11").length < 256 := by
    rw [hk, printStr, List.length_append, hguid]
    omega
  simp only [accept_2, if_pos hmsg]
  rw [hk, printStr, hsha]
  simp only [changeChar_words, Option.map_some, base64_encode_eq, acceptText]

end Answer

/-- The answer is a string. -/
theorem zero_notMem_acceptText (digest : Vector UInt32 5) : 0 ∉ acceptText digest := by
  have hhead : 0 ∉ ascii "HTTP/1.1 101 Switching Protocols\r\nUpgrade: WebSocket\r\nConnection: Upgrade\r\n" ++
      ascii "Sec-WebSocket-Accept: " := by decide +kernel
  have halpha : 0 ∉ Base64.alphabet := by decide +kernel
  intro h0
  rcases List.mem_append.mp h0 with h0 | h0
  · rcases List.mem_append.mp h0 with h0 | h0
    · exact hhead h0
    · rcases Base64.mem_encode h0 with h0 | h0
      · exact halpha h0
      · cases h0
  · exact absurd h0 (by decide)

/-! ## Trimming -/

theorem dropWhile_congr {p q : UInt8 → Bool} {l : Bytes} (h : ∀ c ∈ l, p c = q c) :
    l.dropWhile p = l.dropWhile q := by
  induction l with
  | nil => rfl
  | cons c l ih =>
    rw [List.dropWhile_cons, List.dropWhile_cons, h c List.mem_cons_self,
      ih fun c' h' => h c' (List.mem_cons_of_mem c h')]

/-- On a line the trimming, which also takes line feeds, takes spaces and tabs. -/
theorem trim_line_eq {value : Bytes} (hv : LineText value) : rtrim (ltrim value) = trimSpaces value := by
  have hblank : ∀ c ∈ value, isBlank c = spaceOrTab c := by
    intro c hc
    have hlf : (c == 10) = false := beq_eq_false_iff_ne.mpr (hv c hc).2.1
    rw [isBlank, hlf, Bool.or_false, spaceOrTab]
  have hl : ltrim value = value.dropWhile spaceOrTab := dropWhile_congr hblank
  rw [hl, trimSpaces, rtrim, List.rdropWhile, List.rdropWhile]
  congr 1
  apply dropWhile_congr
  intro c hc
  exact hblank c ((List.dropWhile_suffix _).subset (List.mem_reverse.mp hc))

/-! ## The text in front of the blank line -/

theorem strstr_line {line : Bytes} (h13 : 13 ∉ line) (rest : Bytes) :
    strstr (ascii "\r\n\r\n") (line ++ 13 :: rest) = strstr (ascii "\r\n\r\n") (13 :: rest) := by
  induction line with
  | nil => rfl
  | cons c line ih =>
    rw [List.mem_cons, not_or] at h13
    have hno : ¬ (ascii "\r\n\r\n").isPrefixOf (c :: (line ++ 13 :: rest)) := by
      intro hp
      exact h13.1 (List.cons_prefix_cons.mp (List.isPrefixOf_iff_prefix.mp hp)).1
    rw [List.cons_append, strstr, if_neg hno, ih h13.2]

/-- A line end with a line behind it is none of the blank line's. -/
theorem strstr_lineEnd {line : Bytes} (hne : line ≠ []) (h13 : 13 ∉ line) (rest : Bytes) :
    strstr (ascii "\r\n\r\n") (13 :: 10 :: (line ++ 13 :: rest)) = strstr (ascii "\r\n\r\n") (13 :: rest) := by
  have hno : ¬ (ascii "\r\n\r\n").isPrefixOf (13 :: 10 :: (line ++ 13 :: rest)) := by
    intro hp
    have h2 := (List.cons_prefix_cons.mp (List.isPrefixOf_iff_prefix.mp hp)).2
    have h3 := (List.cons_prefix_cons.mp h2).2
    cases line with
    | nil => exact hne rfl
    | cons c line => exact h13 ((List.cons_prefix_cons.mp h3).1 ▸ List.mem_cons_self)
  have hno' : ¬ (ascii "\r\n\r\n").isPrefixOf (10 :: (line ++ 13 :: rest)) := by
    intro hp
    exact absurd (List.cons_prefix_cons.mp (List.isPrefixOf_iff_prefix.mp hp)).1 (by decide)
  rw [strstr, if_neg hno, strstr, if_neg hno', strstr_line h13]

/-- What follows a line starts with a CR. -/
theorem exists_cr (headers : List (Bytes × Bytes)) :
    ∃ rest, headers.flatMap headerLine ++ ascii "\r\n\r\n" = 13 :: rest := by
  cases headers with
  | nil => exact ⟨_, rfl⟩
  | cons h headers => exact ⟨_, rfl⟩

theorem strstr_headers {headers : List (Bytes × Bytes)} (hh : ∀ h ∈ headers, LineText h.1 ∧ LineText h.2) :
    strstr (ascii "\r\n\r\n") (headers.flatMap headerLine ++ ascii "\r\n\r\n") = some (ascii "\r\n\r\n") := by
  induction headers with
  | nil => decide
  | cons h headers ih =>
    obtain ⟨hname, hvalue⟩ := hh h List.mem_cons_self
    obtain ⟨rest, hrest⟩ := exists_cr headers
    have h13 : 13 ∉ h.1 ++ 58 :: h.2 := by
      intro hm
      rcases List.mem_append.mp hm with hm | hm
      · exact (hname 13 hm).1 rfl
      · rcases List.mem_cons.mp hm with hm | hm
        · cases hm
        · exact (hvalue 13 hm).1 rfl
    have hsplit : (h :: headers).flatMap headerLine ++ ascii "\r\n\r\n" =
        13 :: 10 :: ((h.1 ++ 58 :: h.2) ++ 13 :: rest) := by
      rw [← hrest]
      simp [headerLine]
    rw [hsplit, strstr_lineEnd (by simp) h13, ← hrest]
    exact ih fun h' hm => hh h' (List.mem_cons_of_mem _ hm)

namespace KeyRequest

variable (r : KeyRequest)

/-- The key's line has one colon in front of the value. -/
theorem key_name : LineText (ascii "Sec-WebSocket-Key") ∧ 58 ∉ ascii "Sec-WebSocket-Key" := by decide +kernel

/-- A header is the key's or one of the others. -/
theorem mem_headers {h : Bytes × Bytes} (hm : h ∈ r.headers) :
    h = (ascii "Sec-WebSocket-Key", r.value) ∨ h ∈ r.before ++ r.after := by
  rcases List.mem_append.mp hm with hm | hm
  · exact Or.inr (List.mem_append_left _ hm)
  · rcases List.mem_cons.mp hm with rfl | hm
    · exact Or.inl rfl
    · exact Or.inr (List.mem_append_right _ hm)

theorem headers_text : ∀ h ∈ r.headers, LineText h.1 ∧ LineText h.2 := by
  intro h hm
  rcases r.mem_headers hm with rfl | hm
  · exact ⟨key_name.1, r.value_text⟩
  · exact ⟨(r.other h hm).1.1, (r.other h hm).2.1⟩

/-- The blank line is the one at the end. -/
theorem requestText_eq : requestText r.text = some r.lines := by
  have h13 : 13 ∉ ascii "GET " ++ r.getLine := by
    intro hm
    rcases List.mem_append.mp hm with hm | hm
    · exact absurd hm (by decide)
    · exact (r.getLine_text 13 hm).1 rfl
  obtain ⟨rest, hrest⟩ := exists_cr r.headers
  have hsplit : r.text = (ascii "GET " ++ r.getLine) ++ 13 :: rest := by
    rw [← hrest, RequestLines.text, RequestLines.lines, List.append_assoc]
  have hfound : strstr (ascii "\r\n\r\n") r.text = some (ascii "\r\n\r\n") := by
    rw [hsplit, strstr_line h13, ← hrest]
    exact strstr_headers r.headers_text
  rw [requestText, hfound, Option.map_some, RequestLines.text, List.length_append, Nat.add_sub_cancel,
    List.take_left]

/-! ## What is copied -/

/-- The key's value. -/
theorem matchLoop_key : matchLoop (ascii "Sec-WebSocket-Key:") 0 0 r.lines = r.value := by
  have hlines : r.lines = (ascii "GET " ++ r.getLine ++ r.before.flatMap headerLine ++ [13]) ++
      10 :: (ascii "Sec-WebSocket-Key:" ++ (r.value ++ r.after.flatMap headerLine)) := by
    have hkey : ascii "Sec-WebSocket-Key:" = ascii "Sec-WebSocket-Key" ++ [58] := rfl
    rw [RequestLines.lines, RequestLines.headers, List.flatMap_append, List.flatMap_cons, headerLine, hkey]
    simp only [List.append_assoc, List.cons_append, List.nil_append]
  have hno : ¬ ascii "Sec-WebSocket-Key:" <:+: ascii "GET " ++ r.getLine ++ r.before.flatMap headerLine ++ [13] := by
    rintro ⟨a, b, hab⟩
    have hat : r.text = a ++ ascii "Sec-WebSocket-Key:" ++ (b ++ 10 :: (ascii "Sec-WebSocket-Key:" ++
        (r.value ++ r.after.flatMap headerLine) ++ ascii "\r\n\r\n")) := by
      rw [RequestLines.text, hlines, ← hab]
      simp only [List.append_assoc, List.cons_append]
    have hlen := congrArg List.length hab
    rw [r.once a _ hat, RequestLines.front] at hlen
    simp only [List.length_append, List.length_cons, List.length_nil] at hlen
    omega
  rw [hlines, matchLoop_first (by decide +kernel) (by decide +kernel) hno]
  refine matchLoop_copies _ 0 (fun c hc => ?_) fun c hc => headers_endsCopy hc
  rintro (h | h | ⟨h, -⟩)
  · exact (r.value_text c hc).1 h
  · exact (r.value_text c hc).2.1 h
  · exact h rfl

/-- The target. -/
theorem matchLoop_get : matchLoop (ascii "GET ") 32 0 r.lines = r.getLine.takeWhile (· ≠ 32) := by
  have hself := matchLoop_self (ascii "GET ") 32 (r.getLine ++ r.headers.flatMap headerLine) 4 0 rfl
  rw [List.drop_zero] at hself
  have hsplit : r.getLine ++ r.headers.flatMap headerLine = r.getLine.takeWhile (· ≠ 32) ++
      (r.getLine.dropWhile (· ≠ 32) ++ r.headers.flatMap headerLine) := by
    rw [← List.append_assoc, List.takeWhile_append_dropWhile]
  rw [RequestLines.lines, List.append_assoc, hself, hsplit]
  refine matchLoop_copies _ 32 (fun c hc => ?_) fun c hc => ?_
  · have hget := r.getLine_text c ((List.takeWhile_prefix _).subset hc)
    have hne : c ≠ 32 := by simpa using List.mem_takeWhile_imp hc
    rintro (h | h | ⟨-, h⟩)
    · exact hget.1 h
    · exact hget.2.1 h
    · exact hne h
  · cases hdrop : r.getLine.dropWhile (· ≠ 32) with
    | nil =>
      rw [hdrop, List.nil_append] at hc
      exact headers_endsCopy hc
    | cons x rest =>
      have hx : x = 32 := by
        have hhead := List.head?_dropWhile_not (fun c : UInt8 => decide (c ≠ 32)) r.getLine
        rw [hdrop] at hhead
        simpa using hhead
      rw [hdrop] at hc
      exact Or.inr (Or.inr ⟨by decide, (Option.some.inj hc).symm.trans hx⟩)

/-- Out of the other values nothing too long is copied. -/
theorem matchLoop_other_lt_iff {q : Bytes} (hcr : 13 ∉ q) (hlf : 10 ∉ q) (hv : r.value.length < 1024) :
    (matchLoop (q ++ [58]) 0 0 r.lines).length < 1024 ↔
      (matchLoop (q ++ [58]) 0 0 (ascii "GET " ++ r.getLine)).length < 1024 := by
  refine matchLoop_headers_length_lt_iff hcr hlf (by omega) _ fun h hm => ?_
  rcases r.mem_headers hm with rfl | hm
  · exact ⟨key_name.2, hv⟩
  · exact ⟨(r.other h hm).1.2, (r.other h hm).2.2.trans_lt (by decide)⟩

theorem valuesFit_iff : ValuesFit r.lines names_2 ↔ r.CopiesFit := by
  have hother : ∀ name ∈ ["Host:", "Origin:", "Sec-WebSocket-Version:"], r.value.length < 1024 →
      ((matchLoop (ascii name) 0 0 r.lines).length < 1024 ↔
        (matchLoop (ascii name) 0 0 (ascii "GET " ++ r.getLine)).length < 1024) := by
    simp only [List.forall_mem_cons]
    refine ⟨?_, ?_, ?_, by simp⟩
    · exact r.matchLoop_other_lt_iff (q := ascii "Host") (by decide) (by decide)
    · exact r.matchLoop_other_lt_iff (q := ascii "Origin") (by decide) (by decide)
    · exact r.matchLoop_other_lt_iff (q := ascii "Sec-WebSocket-Version") (by decide +kernel) (by decide +kernel)
  unfold ValuesFit names_2
  rw [r.matchLoop_get]
  constructor
  · rintro ⟨htarget, hnames⟩
    have hv := hnames "Sec-WebSocket-Key:" (by simp)
    rw [r.matchLoop_key] at hv
    refine ⟨hv, htarget, fun name hn => (hother name hn hv).mp (hnames name ?_)⟩
    simp only [List.mem_cons, List.not_mem_nil, or_false] at hn ⊢
    tauto
  · rintro ⟨hv, htarget, hnames⟩
    refine ⟨htarget, fun name hn => ?_⟩
    by_cases hkey : name = "Sec-WebSocket-Key:"
    · rw [hkey, r.matchLoop_key]
      exact hv
    · have hn' : name ∈ ["Host:", "Origin:", "Sec-WebSocket-Version:"] := by
        simp only [List.mem_cons, List.not_mem_nil, or_false] at hn ⊢
        tauto
      exact (hother name hn' hv).mpr (hnames name hn')

/-- The key. -/
theorem headerText_key : headerText r.lines "Sec-WebSocket-Key:" = some (trimSpaces r.value) := by
  have hne : r.value ≠ [] := by
    intro hnil
    have htrim := r.trimmed.1
    rw [hnil] at htrim
    exact absurd htrim (by decide)
  rw [headerText, r.matchLoop_key, if_neg hne]
  exact congrArg some (trim_line_eq r.value_text)

end KeyRequest

/-! ## The call -/

section Accept

variable {d : Digests} {sha1 : Bytes → Vector UInt32 5} (hsha : ∀ msg, d.SHA1Result msg = some (sha1 msg))
  (r : KeyRequest) {h : Handshake} (hsrc : cstr h.recvbuf = some r.text) (hacc : h.acceptBuf.length = acceptBufSize)

include hsrc hsha hacc

/-- **The answer** carries the digest of the key, encoded, iff the value of the key, the target and what is found in
the target fit the matcher's buffer. -/
theorem handshake_2_accepts_iff :
    Accepts d (sha1 (trimSpaces r.value ++ ascii "258EAFA5-E914-47DA-95CA-C5AB0DC85B11")) h ↔ r.CopiesFit := by
  have hdefined := handshake_2_defined_iff d hsrc r.requestText_eq hacc
  rw [r.headerText_key, r.valuesFit_iff] at hdefined
  have hlen : (trimSpaces r.value).length < 220 := Nat.lt_succ_of_le r.trimmed.2
  constructor
  · rintro ⟨h', hr, -⟩
    exact (hdefined.mp ⟨_, hr⟩).1
  · intro hfit
    obtain ⟨⟨ret, h'⟩, hr⟩ := hdefined.mpr ⟨hfit, hlen⟩
    obtain ⟨text, -, htext, hcpy, h0, -⟩ := handshake_2_eq_some d hsrc r.requestText_eq hr
    rw [accept_2_key hsha r.headerText_key hlen] at htext
    obtain rfl := Option.some.inj htext
    dsimp only at h0 hcpy
    rw [h0] at hr
    exact ⟨h', hr, cstr_strcpy (zero_notMem_acceptText _) (hcpy _ rfl)⟩

end Accept

/-- A text with one `K` has the key's name at one place. -/
theorem once_of_K {text front rest a b : Bytes} (htext : text = front ++ ascii "Sec-WebSocket-" ++ 75 :: rest)
    (hfront : 75 ∉ front ++ ascii "Sec-WebSocket-") (hrest : 75 ∉ rest)
    (hab : text = a ++ ascii "Sec-WebSocket-Key:" ++ b) : a = front := by
  have hkey : ascii "Sec-WebSocket-Key:" = ascii "Sec-WebSocket-" ++ 75 :: ascii "ey:" := by decide +kernel
  rw [htext, hkey, ← List.append_assoc, List.append_assoc (a ++ _), List.cons_append] at hab
  exact (List.append_cancel_right ((List.append_cons_inj_of_notMem hfront hrest).mp hab).1).symm

/-- The request that is usually shown, and its digest. -/
def sampleLines : RequestLines where
  getLine := ascii "/chat HTTP/1.1"
  before := [(ascii "Host", ascii " a.cn"), (ascii "Upgrade", ascii " websocket")]
  value := ascii " dGhlIHNhbXBsZSBub25jZQ== "
  after := [(ascii "Sec-WebSocket-Version", ascii " 13")]

def sampleRequest : KeyRequest where
  toRequestLines := sampleLines
  getLine_text := by decide +kernel
  value_text := by decide +kernel
  other := by decide +kernel
  once := fun _ _ hab => once_of_K rfl (by decide +kernel) (by decide +kernel) hab
  trimmed := by decide +kernel
  noKey1 := by decide +kernel
  size := by decide +kernel

def digestWords (w0 w1 w2 w3 w4 : UInt32) : Vector UInt32 5 := #v[w0, w1, w2, w3, w4]

def sampleDigest : Vector UInt32 5 := digestWords 0xB37A4F2C 0xC0624F16 0x90F64606 0xCF385945 0xB2BEC4EA

/-- Digests with one value. -/
def digestsOf (digest : Vector UInt32 5) : Digests := ⟨fun _ => Vector.replicate 16 0, fun _ => some digest⟩

example : Base64.encode (digestBytes sampleDigest) = ascii "s3pPLMBiTxaQ9kYGzzhZRbK+xOo=" := by decide +kernel

theorem handshake_2_accepts_sample :
    Accepts (digestsOf sampleDigest) sampleDigest (handedText sampleRequest.text) ↔ sampleRequest.CopiesFit :=
  @handshake_2_accepts_iff (digestsOf sampleDigest) (fun _ => sampleDigest) (fun _ => rfl) sampleRequest
    (handedText sampleRequest.text) (cstr_append_zeros (by decide +kernel) (by decide +kernel)) List.length_replicate

/-- A key of one character behind 1100 spaces. -/
def paddedLines : RequestLines where
  getLine := ascii "/ HTTP/1.1"
  before := []
  value := List.replicate 1100 32 ++ [97]
  after := []

def paddedRequest : KeyRequest where
  toRequestLines := paddedLines
  getLine_text := by decide +kernel
  value_text := by decide +kernel
  other := fun _ hm => absurd hm List.not_mem_nil
  once := fun _ _ hab => once_of_K rfl (by decide +kernel) (by decide +kernel) hab
  trimmed := by decide +kernel
  noKey1 := by decide +kernel
  size := by decide +kernel

def paddedDigest : Vector UInt32 5 := digestWords 0x16D807F2 0xAA9F10A1 0xEF64A119 0x6045A460 0x38655CD6

theorem handshake_2_padded_key :
    zhWebSockHandshake_2 (digestsOf paddedDigest) (handedText paddedRequest.text) = none ∧
      ¬ Accepts (digestsOf paddedDigest) paddedDigest (handedText paddedRequest.text) := by
  have hno : ¬ paddedRequest.CopiesFit := fun hfit => absurd hfit.value (by decide +kernel)
  have hnone : zhWebSockHandshake_2 (digestsOf paddedDigest) (handedText paddedRequest.text) = none := by
    refine Option.eq_none_iff_forall_ne_some.mpr fun res hres => hno ?_
    rw [← paddedRequest.valuesFit_iff]
    exact ((handshake_2_defined_iff (digestsOf paddedDigest) (cstr_append_zeros (by decide +kernel) (by decide +kernel))
      paddedRequest.requestText_eq List.length_replicate).mp ⟨res, hres⟩).1
  refine ⟨hnone, ?_⟩
  rintro ⟨h', hr, -⟩
  rw [hnone] at hr
  cases hr

end Esp32Base
