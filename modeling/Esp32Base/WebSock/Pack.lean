import Mathlib.Algebra.Order.Ring.Int
import Mathlib.Data.Int.ModEq
import Esp32Base.Lib.Buf

/-!
# WebSock.Pack — extracting one websocket frame (websocket.c)

`zhWebSockRecvPack` looks for the start marker of the negotiated method and hands the rest of the
cache to `zhWebSockPackMethod_1` or `zhWebSockPackMethod_2`, together with the length of the whole
cache.

* `method_1_confined`, `method_2_confined`: when the parser of a method stays inside the live bytes.
* `recvPack_confined`: a call consumes live bytes only, and looks at live bytes only, exactly when the
  frame behind the marker is whole or does not even fit the length it is compared with.
-/

namespace Esp32Base

open Lib Lib.Buf

inductive EzhWebSocketMethod
  | unknow
  | method_1
  | method_2
  deriving DecidableEq

/-- What the parsers report through their pointers: the bytes written from `packet[0]` on and
`*nPacket`. -/
structure Packet where
  bytes : Bytes
  nPacket : ℕ
  deriving DecidableEq

/-- Nothing has been written. -/
def Packet.empty : Packet := ⟨[], 0⟩

/-! ## The parsers -/

/-- The `while` loop: `cache` is what lies from `cache[i]` on and `packet` what has been copied. The
return value and the packet. -/
def method1Loop (cache_len : ℕ) : Bytes → ℕ → Bytes → Option (ℕ × Packet)
  | [], _, _ => none
  | c :: cache, i, packet =>
    if c = 0xFF then
      -- the copy of the 0xFF itself is overwritten by the terminator
      some (i + 1, ⟨packet.take (i - 1) ++ [0], i - 1⟩)
    else
      (cache[0]?).bind fun c' =>
        if cache_len < i + 1 then some (0, ⟨List.replicate (packet.length + 1) 0, 0⟩)
        else method1Loop cache_len cache (i + 1) (packet ++ [c'])

def zhWebSockPackMethod_1 (cache : Bytes) (cache_len : ℕ) : Option (ℕ × Packet) :=
  (cache[0]?).bind fun c =>
    if c ≠ 0x00 then some (0, .empty) else method1Loop cache_len cache 0 []

/-- `packet[i]=packet[i]^masks[i%4]` for every `i`. -/
def unmask (masks packet : Bytes) : Bytes := packet.mapIdx fun i b => b ^^^ masks.getD (i % 4) 0

/-- The length check, the copy and the unmasking, common to the three length forms: `long int` has 32
bits, and a negative count given to `memcpy` is undefined. -/
def takePayload (cache : Bytes) (cache_len nHead : ℕ) (masks : Bytes) (nData : ℤ) :
    Option (ℕ × Packet) :=
  if 2 ^ 31 ≤ nData + nHead then none
  else if (cache_len : ℤ) < nData + nHead then some (0, .empty)
  else if nData < 0 then none
  else
    (load cache nHead nData.toNat).map fun packet =>
      (nData.toNat + nHead, ⟨unmask masks packet, nData.toNat⟩)

/-- `cache[2] << 8 | cache[3]` on the two bytes. -/
def be16 (b : Bytes) : ℕ := (b.getD 0 0).toNat <<< 8 ||| (b.getD 1 0).toNat

/-- A `long int` copied from four bytes. -/
def int32LE (b : Bytes) : ℤ :=
  ((b.getD 0 0).toNat + 2 ^ 8 * (b.getD 1 0).toNat + 2 ^ 16 * (b.getD 2 0).toNat +
    2 ^ 24 * (b.getD 3 0).toNat : ℤ).bmod (2 ^ 32)

def zhWebSockPackMethod_2 (cache : Bytes) (cache_len : ℕ) : Option (ℕ × Packet) :=
  (cache[0]?).bind fun c =>
    if c ≠ 0x81 then some (0, .empty)
    else
      (cache[1]?).bind fun c1 =>
        let nCode := c1 &&& 0x7f
        if nCode = 126 then
          (load cache 4 4).bind fun masks =>
            (load cache 2 2).bind fun tmp => takePayload cache cache_len 8 masks (be16 tmp)
        else if nCode = 127 then
          (load cache 10 4).bind fun masks =>
            (load cache 2 4).bind fun tmp => takePayload cache cache_len 14 masks (int32LE tmp)
        else
          (load cache 2 4).bind fun masks => takePayload cache cache_len 6 masks nCode.toNat

/-- `*frame_begin_pos`, `*frame_len` and the packet. -/
structure RecvPack where
  frame_begin_pos : ℕ
  frame_len : ℕ
  packet : Packet

def RecvPack.empty : RecvPack := ⟨0, 0, .empty⟩

/-- The search for the marker and the call of the parser on what follows it. -/
def packAt (marker : UInt8) (parse : Bytes → ℕ → Option (ℕ × Packet)) (cache : Bytes)
    (cache_len : ℕ) : Option (ℕ × RecvPack) :=
  (findByte marker cache cache_len).bind fun i =>
    if i = cache_len then some (0, .empty)
    else (parse (cache.drop i) cache_len).map fun (frame_len, p) => (i + frame_len, ⟨i, frame_len, p⟩)

/-- The return value and what is stored through the pointers. -/
def zhWebSockRecvPack (method : EzhWebSocketMethod) (cache : Bytes) (cache_len : ℕ) :
    Option (ℕ × RecvPack) :=
  match method with
  | .unknow => some (0, .empty)
  | .method_1 => packAt 0x00 zhWebSockPackMethod_1 cache cache_len
  | .method_2 => packAt 0x81 zhWebSockPackMethod_2 cache cache_len

/-! ## The length forms of `METHOD_2` -/

/-- The header size and the payload length that `cache[1]` and the bytes `t` behind it announce; length
bytes that `t` does not have count as zero. -/
def header (c1 : UInt8) (t : Bytes) : ℕ × ℤ :=
  if c1 &&& 0x7f = 126 then (8, be16 t)
  else if c1 &&& 0x7f = 127 then (14, int32LE t)
  else (6, (c1 &&& 0x7f).toNat)

/-- The 64-bit form. -/
theorem header_long {c1 : UInt8} (h127 : c1 &&& 0x7f = 127) (t : Bytes) : header c1 t = (14, int32LE t) := by
  have h126 : ¬ c1 &&& 0x7f = 126 := by
    rw [h127]
    decide
  rw [header, if_neg h126, if_pos h127]

theorem nCode_le (c1 : UInt8) : (c1 &&& 0x7f).toNat ≤ 127 := by
  rw [UInt8.toNat_and]
  exact Nat.and_le_right

theorem be16_eq (b : Bytes) : be16 b = 256 * (b.getD 0 0).toNat + (b.getD 1 0).toNat := by
  have h := Nat.shiftLeft_add_eq_or_of_lt (b := (b.getD 1 0).toNat) (i := 8) (b.getD 1 0).toNat_lt
    (b.getD 0 0).toNat
  unfold be16
  rw [← h, Nat.shiftLeft_eq]
  omega

theorem be16_lt (b : Bytes) : be16 b < 65536 := by
  have h0 := (b.getD 0 0).toNat_lt
  have h1 := (b.getD 1 0).toNat_lt
  rw [be16_eq]
  omega

/-- Only the first `n` elements matter to a reader of the indices below `n`. -/
theorem getD_take {l : Bytes} {n i : ℕ} (h : i < n) : (l.take n).getD i 0 = l.getD i 0 := by
  rw [List.getD_eq_getElem?_getD, List.getD_eq_getElem?_getD, List.getElem?_take_of_lt h]

theorem getD_append {t : Bytes} (y : Bytes) {i : ℕ} (h : i < t.length) :
    (t ++ y).getD i 0 = t.getD i 0 := by
  rw [List.getD_eq_getElem?_getD, List.getD_eq_getElem?_getD, List.getElem?_append_left h]

theorem getD_ge {t : Bytes} {i : ℕ} (h : t.length ≤ i) : t.getD i 0 = 0 := by
  rw [List.getD_eq_getElem?_getD, List.getElem?_eq_none h]
  rfl

theorem be16_take (l : Bytes) : be16 (l.take 2) = be16 l := by
  rw [be16_eq, be16_eq, getD_take (by omega), getD_take (by omega)]

theorem int32LE_take (l : Bytes) : int32LE (l.take 4) = int32LE l := by
  unfold int32LE
  rw [getD_take (by omega), getD_take (by omega), getD_take (by omega), getD_take (by omega)]

/-- Bytes that arrive can only raise the announced length of the 16-bit form, zeros leave it alone. -/
theorem be16_le_append (t y : Bytes) : be16 t ≤ be16 (t ++ y) := by
  rw [be16_eq, be16_eq]
  by_cases h1 : 1 < t.length
  · rw [getD_append y h1, getD_append y (by omega)]
  · rw [getD_ge (i := 1) (by omega), UInt8.toNat_zero]
    by_cases h0 : 0 < t.length
    · rw [getD_append y h0]
      omega
    · rw [getD_ge (by omega), UInt8.toNat_zero]
      omega

theorem header_append {c1 : UInt8} {t : Bytes} (y : Bytes)
    (h : (header c1 t).1 ≤ t.length + 2) : header c1 (t ++ y) = header c1 t := by
  unfold header at h ⊢
  split_ifs at h ⊢ with h126 h127
  · dsimp only at h
    rw [be16_eq, be16_eq, getD_append y (by omega), getD_append y (by omega)]
  · dsimp only at h
    unfold int32LE
    rw [getD_append y (by omega), getD_append y (by omega), getD_append y (by omega),
      getD_append y (by omega)]
  · rfl

/-- The parser on a cache that starts with the marker: the masks are the last header bytes. -/
theorem method_2_eq (c1 : UInt8) (l : Bytes) (cache_len : ℕ) :
    zhWebSockPackMethod_2 (0x81 :: c1 :: l) cache_len =
      (load (0x81 :: c1 :: l) ((header c1 l).1 - 4) 4).bind fun masks =>
        takePayload (0x81 :: c1 :: l) cache_len (header c1 l).1 masks (header c1 l).2 := by
  have hload : ∀ {n k : ℕ} {b : Bytes}, load (0x81 :: c1 :: l) k 4 = some b → n + 2 ≤ k →
      load (0x81 :: c1 :: l) 2 n = some (l.take n) := by
    intro n k b h hk
    have hle := (load_eq_some h).1
    rw [load_of_le (by omega)]
    rfl
  unfold zhWebSockPackMethod_2 header
  rw [List.getElem?_cons_zero, Option.bind_some, if_neg (by decide), List.getElem?_cons_succ,
    List.getElem?_cons_zero, Option.bind_some]
  dsimp only
  split_ifs with h126 h127
  · refine Option.bind_congr fun masks hm => ?_
    rw [hload hm le_rfl, Option.bind_some, be16_take]
  · refine Option.bind_congr fun masks hm => ?_
    rw [hload hm (by omega), Option.bind_some, int32LE_take]
  · rfl

/-! ## The payload -/

section Payload

variable {cache : Bytes} {cache_len nHead : ℕ} {nData : ℤ} (masks : Bytes)

/-- An announced frame longer than `cache_len` is waited for. -/
theorem takePayload_wait (h : (cache_len : ℤ) < nData + nHead) (hov : nData + nHead < 2 ^ 31) :
    takePayload cache cache_len nHead masks nData = some (0, .empty) := by
  rw [takePayload, if_neg (by omega), if_pos h]

/-- A frame inside the first part of the cache is taken from there. -/
theorem takePayload_whole {x : Bytes} (y : Bytes) {n : ℕ} (h : nHead + n ≤ x.length)
    (hl : nHead + n ≤ cache_len) (hov : nHead + n < 2 ^ 31) :
    takePayload (x ++ y) cache_len nHead masks n =
      some (n + nHead, ⟨unmask masks ((x.drop nHead).take n), n⟩) := by
  rw [takePayload, if_neg (by omega), if_neg (by omega), if_neg (by omega), Int.toNat_natCast,
    load_append y h, load_of_le h]
  rfl

theorem takePayload_eq_some {r : ℕ} {p : Packet}
    (h : takePayload cache cache_len nHead masks nData = some (r, p)) :
    nData + nHead < 2 ^ 31 ∧ ((cache_len : ℤ) < nData + nHead ∨ 0 ≤ nData ∧ (r : ℤ) = nData + nHead) := by
  unfold takePayload at h
  split_ifs at h with hov hw hneg
  · omega
  · obtain ⟨_, -, h⟩ := Option.map_eq_some_iff.mp h
    simp only [Prod.mk.injEq] at h
    omega

end Payload

/-! ## Frames cut by the end of the live bytes -/

/-- The size of `recvCache`. -/
def recvCacheSize : ℕ := 2000

/-- `METHOD_2`, with the marker at index `i` of `len` live bytes and the live bytes `q` behind it: the
frame lies inside the live bytes, or it is longer than all of them; in the 64-bit form the length has
arrived. -/
def Method2Whole (len i : ℕ) : Bytes → Prop
  | [] => False
  | c1 :: t =>
    (c1 &&& 0x7f = 127 → 4 ≤ t.length) ∧
      (0 ≤ (header c1 t).2 ∧ i + (header c1 t).1 + (header c1 t).2 ≤ len ∨
        (len : ℤ) < (header c1 t).2 + (header c1 t).1 ∧ (header c1 t).2 + (header c1 t).1 < 2 ^ 31 ∧
          i + (header c1 t).1 ≤ recvCacheSize)

/-- The condition on the live bytes `x` of each method. -/
def FrameWhole (method : EzhWebSocketMethod) (x : Bytes) : Prop :=
  match method with
  | .unknow => True
  | .method_1 => ∀ p q, x = p ++ 0x00 :: q → 0x00 ∉ p → 0xFF ∈ q
  | .method_2 => ∀ p q, x = p ++ 0x81 :: q → 0x81 ∉ p → Method2Whole x.length p.length q

/-- A parser whose result, on a marker, live bytes `q` behind it and `n` more bytes in the cache, is
defined, ends inside the live bytes and is the same for all these `n` bytes. -/
def ParseConfined (marker : UInt8) (parse : Bytes → ℕ → Option (ℕ × Packet)) (len i : ℕ) (q : Bytes)
    (n : ℕ) : Prop :=
  ∃ r p, i + r ≤ len ∧ ∀ y : Bytes, y.length = n → parse (marker :: q ++ y) len = some (r, p)

/-- The call is defined, consumes live bytes only, and no byte behind them has a say in what it
reports. -/
def Confined (method : EzhWebSocketMethod) (cache : Bytes) (cache_len : ℕ) : Prop :=
  ∃ r p, zhWebSockRecvPack method cache cache_len = some (r, p) ∧ r ≤ cache_len ∧
    ∀ cache' : Bytes, cache'.length = cache.length →
      cache'.take cache_len = cache.take cache_len →
      zhWebSockRecvPack method cache' cache_len = some (r, p)

section PackAt

variable {marker : UInt8} {parse : Bytes → ℕ → Option (ℕ × Packet)}

/-- No marker among the live bytes. -/
theorem packAt_none {x : Bytes} (y : Bytes) (h : marker ∉ x) :
    packAt marker parse (x ++ y) x.length = some (0, .empty) := by
  have hfind : findByte marker (x ++ y) x.length = some x.length :=
    findByte_of_notMem (by simp) (by rwa [List.take_left])
  rw [packAt, hfind, Option.bind_some, if_pos rfl]

/-- The first marker is where the parser is called, with the length of the whole cache. -/
theorem packAt_marker {p : Bytes} (parse : Bytes → ℕ → Option (ℕ × Packet)) (q y : Bytes) (h : marker ∉ p) :
    packAt marker parse (p ++ marker :: q ++ y) (p ++ marker :: q).length =
      (parse (marker :: q ++ y) (p ++ marker :: q).length).map fun r =>
        (p.length + r.1, ⟨p.length, r.1, r.2⟩) := by
  have hfind : findByte marker (p ++ marker :: q ++ y) (p ++ marker :: q).length = some p.length := by
    rw [List.append_assoc]
    exact findByte_of_append (q ++ y) h (by simp)
  rw [packAt, hfind, Option.bind_some, if_neg (by simp), List.append_assoc, List.drop_left]

/-- **The search adds nothing**: the call is confined iff the parser is confined at the first marker. -/
theorem packAt_confined (marker : UInt8) (parse : Bytes → ℕ → Option (ℕ × Packet)) (x y : Bytes) :
    (∃ r p, packAt marker parse (x ++ y) x.length = some (r, p) ∧ r ≤ x.length ∧
      ∀ y' : Bytes, y'.length = y.length → packAt marker parse (x ++ y') x.length = some (r, p)) ↔
    ∀ p q, x = p ++ marker :: q → marker ∉ p → ParseConfined marker parse x.length p.length q y.length := by
  constructor
  · rintro ⟨r, pk, -, hle, hall⟩ p q rfl hp
    have hall' : ∀ y' : Bytes, y'.length = y.length → ∃ a b, parse (marker :: q ++ y')
        (p ++ marker :: q).length = some (a, b) ∧ r = p.length + a ∧ pk = ⟨p.length, a, b⟩ := by
      intro y' hy'
      have h := hall y' hy'
      rw [packAt_marker parse q y' hp] at h
      obtain ⟨⟨a, b⟩, hab, h⟩ := Option.map_eq_some_iff.mp h
      simp only [Prod.mk.injEq] at h
      exact ⟨a, b, hab, h.1.symm, h.2.symm⟩
    obtain ⟨a, b, -, ha, hb⟩ := hall' y rfl
    refine ⟨a, b, by omega, fun y' hy' => ?_⟩
    obtain ⟨a', b', hab, ha', hb'⟩ := hall' y' hy'
    rw [hb] at hb'
    simp only [RecvPack.mk.injEq, true_and] at hb'
    rw [hab, hb'.1, hb'.2]
  · intro h
    rcases exists_first (b := marker) x x.length with hno | ⟨p, q, rfl, hp, -⟩
    · rw [List.take_length] at hno
      exact ⟨0, .empty, packAt_none y hno, Nat.zero_le _, fun y' _ => packAt_none y' hno⟩
    · obtain ⟨a, b, hle, hall⟩ := h p q rfl hp
      refine ⟨p.length + a, ⟨p.length, a, b⟩, ?_, hle, fun y' hy' => ?_⟩
      · rw [packAt_marker parse q y hp, hall y rfl]
        rfl
      · rw [packAt_marker parse q y' hp, hall y' hy']
        rfl

end PackAt

/-! ### The two parsers at a marker -/

/-- The loop of `METHOD_1` up to the first `0xFF`. -/
theorem method1Loop_found (len : ℕ) : ∀ (a b : Bytes) (c : UInt8) (i : ℕ) (packet : Bytes), c ≠ 0xFF →
    0xFF ∉ a → i + a.length + 1 ≤ len →
    method1Loop len (c :: a ++ 0xFF :: b) i packet =
      some (i + a.length + 2, ⟨(packet ++ a ++ [0xFF]).take (i + a.length) ++ [0], i + a.length⟩)
  | [], b, c, i, packet, hc, _, hi => by
    rw [List.cons_append, method1Loop, if_neg hc, List.nil_append, List.getElem?_cons_zero,
      Option.bind_some, if_neg (by simpa using hi), method1Loop, if_pos rfl]
    simp
  | d :: a, b, c, i, packet, hc, ha, hi => by
    rw [List.mem_cons, not_or] at ha
    rw [List.length_cons] at hi
    have hrec := method1Loop_found len a b d (i + 1) (packet ++ [d]) (fun h => ha.1 h.symm) ha.2 (by omega)
    rw [List.cons_append, method1Loop, if_neg hc, List.cons_append, List.getElem?_cons_zero,
      Option.bind_some, if_neg (show ¬ len < i + 1 by omega), ← List.cons_append, hrec, List.length_cons,
      show i + 1 + a.length = i + (a.length + 1) by omega]
    simp [Nat.add_assoc]

/-- A loop that meets no `0xFF` runs off the cache. -/
theorem method1Loop_none {len : ℕ} : ∀ (w : Bytes) (i : ℕ) (packet : Bytes), 0xFF ∉ w →
    i + w.length ≤ len → method1Loop len w i packet = none
  | [], _, _, _, _ => rfl
  | [c], i, packet, h, _ => by
    rw [List.mem_singleton] at h
    rw [method1Loop, if_neg (fun hc => h hc.symm)]
    rfl
  | c :: d :: w, i, packet, h, hi => by
    rw [List.mem_cons, not_or] at h
    rw [List.length_cons] at hi
    rw [method1Loop, if_neg (fun hc => h.1 hc.symm), List.getElem?_cons_zero, Option.bind_some,
      if_neg (by rw [List.length_cons] at hi; omega)]
    exact method1Loop_none (d :: w) (i + 1) _ h.2 (by omega)

theorem method_1_found {len : ℕ} {a : Bytes} (b : Bytes) (ha : 0xFF ∉ a) (hl : a.length + 1 ≤ len) :
    zhWebSockPackMethod_1 (0x00 :: a ++ 0xFF :: b) len = some (a.length + 2, ⟨a ++ [0], a.length⟩) := by
  have h := method1Loop_found len a b 0 0 [] (by decide) ha (by omega)
  rw [Nat.zero_add] at h
  rw [zhWebSockPackMethod_1, List.cons_append, List.getElem?_cons_zero, Option.bind_some,
    if_neg (by simp), ← List.cons_append, h]
  simp

/-- `METHOD_1` is confined iff its end marker has arrived: one byte behind the live bytes is a `0xFF`
the loop would still accept. -/
theorem method_1_confined {len i n : ℕ} {q : Bytes} (hlen : len = i + (q.length + 1)) :
    ParseConfined 0x00 zhWebSockPackMethod_1 len i q n ↔ 0xFF ∈ q := by
  constructor
  · rintro ⟨r, p, hr, hall⟩
    by_contra hq
    cases n with
    | zero =>
      have h := hall [] rfl
      have hnone : method1Loop len (0x00 :: q) 0 [] = none :=
        method1Loop_none _ 0 [] (by simpa using hq) (by rw [List.length_cons]; omega)
      rw [List.append_nil, zhWebSockPackMethod_1, List.getElem?_cons_zero, Option.bind_some,
        if_neg (by simp), hnone] at h
      cases h
    | succ n =>
      have h := hall (0xFF :: List.replicate n 0) (by rw [List.length_cons, List.length_replicate])
      rw [method_1_found _ hq (by omega)] at h
      simp only [Option.some.injEq, Prod.mk.injEq] at h
      omega
  · intro hq
    obtain ⟨a, b, rfl, ha⟩ := List.eq_append_cons_of_mem hq
    rw [List.length_append, List.length_cons] at hlen
    refine ⟨a.length + 2, ⟨a ++ [0], a.length⟩, by omega, fun y _ => ?_⟩
    rw [← List.cons_append, List.append_assoc, List.cons_append]
    exact method_1_found (b ++ y) ha (by omega)

theorem be16_append_zeros (t : Bytes) (n : ℕ) : be16 (t ++ List.replicate n 0) = be16 t := by
  have h : ∀ i, (t ++ List.replicate n 0).getD i 0 = t.getD i 0 := by
    intro i
    by_cases hi : i < t.length
    · exact getD_append _ hi
    · rw [getD_ge (t := t) (by omega), List.getD_eq_getElem?_getD,
        List.getElem?_append_right (by omega), List.getElem?_replicate]
      split_ifs <;> rfl
  rw [be16_eq, be16_eq, h, h]

/-- The announced header with zeros behind the live bytes. -/
theorem header_append_zeros {c1 : UInt8} {t : Bytes} (n : ℕ) (h : c1 &&& 0x7f = 127 → 4 ≤ t.length) :
    header c1 (t ++ List.replicate n 0) = header c1 t := by
  unfold header
  split_ifs with h126 h127
  · rw [be16_append_zeros]
  · have := h h127
    unfold int32LE
    rw [getD_append _ (by omega), getD_append _ (by omega), getD_append _ (by omega),
      getD_append _ (by omega)]
  · rfl

theorem header_fst (c1 : UInt8) (t y : Bytes) : (header c1 (t ++ y)).1 = (header c1 t).1 := by
  unfold header
  split_ifs <;> rfl

theorem header_fst_le (c1 : UInt8) (t : Bytes) : 6 ≤ (header c1 t).1 ∧ (header c1 t).1 ≤ 14 := by
  unfold header
  split_ifs <;> exact ⟨by simp, by simp⟩

/-- A length whose top byte is `0x80` is far below zero. -/
theorem int32LE_neg {l : Bytes} (h : l.getD 3 0 = 0x80) : int32LE l < -14 := by
  have h0 := (l.getD 0 0).toNat_lt
  have h1 := (l.getD 1 0).toNat_lt
  have h2 := (l.getD 2 0).toNat_lt
  unfold int32LE
  rw [h, show (0x80 : UInt8).toNat = 128 from rfl, Int.bmod_def]
  split_ifs <;> omega

/-- In the 64-bit form a length far below zero reaches `memcpy`. -/
theorem method_2_negative {c1 : UInt8} {l : Bytes} {len : ℕ} (hc : c1 &&& 0x7f = 127)
    (h : int32LE l < -14) : zhWebSockPackMethod_2 (0x81 :: c1 :: l) len = none := by
  rw [method_2_eq, header_long hc]
  cases hm : load (0x81 :: c1 :: l) (14 - 4) 4 with
  | none => rfl
  | some masks =>
    rw [Option.bind_some, takePayload, if_neg (by dsimp only; omega), if_neg (by dsimp only; omega),
      if_pos (by dsimp only; omega)]

/-- What `METHOD_2` reports is in range. -/
theorem method_2_eq_some {c1 : UInt8} {l : Bytes} {len r : ℕ} {p : Packet}
    (h : zhWebSockPackMethod_2 (0x81 :: c1 :: l) len = some (r, p)) :
    (header c1 l).1 ≤ l.length + 2 ∧ (header c1 l).2 + (header c1 l).1 < 2 ^ 31 ∧
      ((len : ℤ) < (header c1 l).2 + (header c1 l).1 ∨
        0 ≤ (header c1 l).2 ∧ (r : ℤ) = (header c1 l).2 + (header c1 l).1) := by
  rw [method_2_eq] at h
  obtain ⟨masks, hm, h⟩ := Option.bind_eq_some_iff.mp h
  have hle := (load_eq_some hm).1
  have h6 := (header_fst_le c1 l).1
  rw [List.length_cons, List.length_cons] at hle
  exact ⟨by omega, takePayload_eq_some masks h⟩

/-- Without the second byte the call looks behind the live bytes: a negative 64-bit length there is
undefined. -/
theorem method_2_nil {len i n : ℕ} : ¬ ParseConfined 0x81 zhWebSockPackMethod_2 len i [] n := by
  rintro ⟨r, p, hr, hall⟩
  cases n with
  | zero =>
    have h := hall [] rfl
    simp [zhWebSockPackMethod_2] at h
  | succ n =>
    have h := hall (0xFF :: List.replicate n 0x80) (by rw [List.length_cons, List.length_replicate])
    by_cases hn4 : 3 < n
    · have hneg : int32LE (List.replicate n 0x80) < -14 := int32LE_neg (by
        rw [List.getD_eq_getElem?_getD, List.getElem?_replicate, if_pos hn4]
        rfl)
      rw [List.cons_append, List.nil_append, method_2_negative (by decide) hneg] at h
      cases h
    · -- then the masks are not there
      have hfit := (method_2_eq_some h).1
      have h14 : (header 0xFF (List.replicate n 0x80)).1 = 14 := by
        rw [header, if_neg (by decide), if_pos (by decide)]
      rw [List.length_replicate] at hfit
      omega

/-- The same when a byte of a 64-bit length is missing: the top one decides its sign. -/
theorem method_2_lengthCut {len i n : ℕ} {c1 : UInt8} {t : Bytes} (hc : c1 &&& 0x7f = 127) (ht : t.length < 4) :
    ¬ ParseConfined 0x81 zhWebSockPackMethod_2 len i (c1 :: t) n := by
  rintro ⟨r, p, hr, hall⟩
  have h := hall (List.replicate n 0x80) List.length_replicate
  rw [List.cons_append, List.cons_append] at h
  have h14 : (header c1 (t ++ List.replicate n 0x80)).1 = 14 := by
    rw [header, if_neg (by rw [hc]; decide), if_pos hc]
  have hfit := (method_2_eq_some h).1
  rw [List.length_append, List.length_replicate] at hfit
  have hneg : int32LE (t ++ List.replicate n 0x80) < -14 := int32LE_neg (by
    rw [List.getD_eq_getElem?_getD, List.getElem?_append_right (by omega), List.getElem?_replicate,
      if_pos (by omega)]
    rfl)
  rw [method_2_negative hc hneg] at h
  cases h

/-- More length bytes can only raise the announced length. -/
theorem header_mono {c1 : UInt8} {t : Bytes} (y : Bytes) (h127 : c1 &&& 0x7f = 127 → 4 ≤ t.length)
    (hov : (header c1 t).2 + (header c1 t).1 < 2 ^ 31) :
    (header c1 t).2 ≤ (header c1 (t ++ y)).2 ∧ (header c1 (t ++ y)).2 + (header c1 t).1 < 2 ^ 31 := by
  unfold header at hov ⊢
  split_ifs at hov ⊢ with h126 h127'
  · have := be16_le_append t y
    have := be16_lt (t ++ y)
    dsimp only
    omega
  · have := h127 h127'
    have heq : int32LE (t ++ y) = int32LE t := by
      unfold int32LE
      rw [getD_append y (by omega), getD_append y (by omega), getD_append y (by omega), getD_append y (by omega)]
    rw [heq]
    exact ⟨le_rfl, hov⟩
  · exact ⟨le_rfl, hov⟩

/-- A whole frame is taken, and a frame that does not fit the length it is compared with is waited for,
whatever lies behind the live bytes. -/
theorem method_2_of_whole {len i n : ℕ} {c1 : UInt8} {t : Bytes} (hlen : len = i + (t.length + 2))
    (hn : len + n = recvCacheSize) (h : Method2Whole len i (c1 :: t)) :
    ParseConfined 0x81 zhWebSockPackMethod_2 len i (c1 :: t) n := by
  unfold recvCacheSize at hn
  obtain ⟨h127, hcase⟩ := h
  have h6 := header_fst_le c1 t
  rcases hcase with ⟨h0, hfit⟩ | ⟨hw, hov, hsize⟩
  · obtain ⟨d, hd⟩ := Int.eq_ofNat_of_zero_le h0
    rw [hd] at hfit
    refine ⟨d + (header c1 t).1, ⟨unmask ((((0x81 :: c1 :: t).drop ((header c1 t).1 - 4)).take 4))
      (((0x81 :: c1 :: t).drop (header c1 t).1).take d), d⟩, by omega, fun y _ => ?_⟩
    rw [List.cons_append, List.cons_append, method_2_eq, header_append y (by omega), hd,
      ← List.cons_append, ← List.cons_append,
      load_append y (by rw [List.length_cons, List.length_cons]; omega),
      load_of_le (by rw [List.length_cons, List.length_cons]; omega), Option.bind_some]
    exact takePayload_whole _ y (by rw [List.length_cons, List.length_cons]; omega) (by omega) (by omega)
  · refine ⟨0, .empty, by omega, fun y hy => ?_⟩
    unfold recvCacheSize at hsize
    rw [List.cons_append, List.cons_append, method_2_eq, header_fst,
      load_of_le (by simp only [List.length_cons, List.length_append]; omega), Option.bind_some]
    have hmono := header_mono y h127 hov
    exact takePayload_wait _ (by omega) hmono.2

/-- **The parser of `METHOD_2`** is confined iff the frame is whole. -/
theorem method_2_confined {len i n : ℕ} {q : Bytes} (hlen : len = i + (q.length + 1))
    (hn : len + n = recvCacheSize) :
    ParseConfined 0x81 zhWebSockPackMethod_2 len i q n ↔ Method2Whole len i q := by
  cases q with
  | nil => exact ⟨fun h => absurd h method_2_nil, fun h => absurd h id⟩
  | cons c1 t =>
    rw [List.length_cons] at hlen
    refine ⟨fun hconf => ?_, method_2_of_whole hlen hn⟩
    have h127 : c1 &&& 0x7f = 127 → 4 ≤ t.length := fun hc => by
      by_contra hlt
      exact method_2_lengthCut hc (by omega) hconf
    -- zeros leave the announced length what the live bytes make it
    obtain ⟨r, p, hr, hall⟩ := hconf
    have h := hall (List.replicate n 0) List.length_replicate
    rw [List.cons_append, List.cons_append] at h
    obtain ⟨hfit, hov, hcase⟩ := method_2_eq_some h
    rw [header_append_zeros n h127] at hfit hov hcase
    rw [List.length_append, List.length_replicate] at hfit
    unfold recvCacheSize at hn
    refine ⟨h127, ?_⟩
    unfold recvCacheSize
    rcases hcase with hw | ⟨h0, hr'⟩
    · exact Or.inr ⟨hw, hov, by omega⟩
    · exact Or.inl ⟨h0, by omega⟩

/-- **Staying inside the live bytes**: for a full-size cache, a call consumes at most the `cache_len` live
bytes and reports the same whatever lies behind them, exactly when the frame at the marker is whole. -/
theorem recvPack_confined (method : EzhWebSocketMethod) {cache : Bytes} {cache_len : ℕ}
    (hcache : cache.length = recvCacheSize) (hlen : cache_len ≤ recvCacheSize) :
    Confined method cache cache_len ↔ FrameWhole method (cache.take cache_len) := by
  have hx : (cache.take cache_len).length = cache_len := by
    rw [List.length_take]
    omega
  have hy : (cache.drop cache_len).length = cache.length - cache_len := List.length_drop
  -- a cache with the same live bytes is the live bytes and other bytes behind them
  have hpack : ∀ (marker : UInt8) (parse : Bytes → ℕ → Option (ℕ × Packet)),
      (∃ r p, packAt marker parse cache cache_len = some (r, p) ∧ r ≤ cache_len ∧
        ∀ cache' : Bytes, cache'.length = cache.length → cache'.take cache_len = cache.take cache_len →
          packAt marker parse cache' cache_len = some (r, p)) ↔
      ∀ p q, cache.take cache_len = p ++ marker :: q → marker ∉ p →
        ParseConfined marker parse cache_len p.length q (cache.length - cache_len) := by
    intro marker parse
    have h := packAt_confined marker parse (cache.take cache_len)
      (cache.drop cache_len)
    rw [hx, hy, List.take_append_drop] at h
    rw [← h]
    refine exists_congr fun r => exists_congr fun p => and_congr_right fun _ => and_congr_right fun _ => ?_
    constructor
    · intro hall y' hy'
      refine hall _ ?_ ?_
      · rw [List.length_append, hx, hy', Nat.add_sub_cancel' (hcache ▸ hlen)]
      · rw [List.take_left' hx]
    · intro hall cache' hl ht
      have := hall (cache'.drop cache_len) (by rw [List.length_drop, hl])
      rwa [← ht, List.take_append_drop] at this
  cases method with
  | unknow => exact ⟨fun _ => trivial, fun _ => ⟨0, .empty, rfl, Nat.zero_le _, fun _ _ _ => rfl⟩⟩
  | method_1 =>
    refine (hpack 0x00 zhWebSockPackMethod_1).trans ?_
    refine forall_congr' fun p => forall_congr' fun q => forall_congr' fun he => forall_congr' fun _ => ?_
    have hl := congrArg List.length he
    rw [hx, List.length_append, List.length_cons] at hl
    exact method_1_confined hl
  | method_2 =>
    refine (hpack 0x81 zhWebSockPackMethod_2).trans ?_
    refine forall_congr' fun p => forall_congr' fun q => forall_congr' fun he => forall_congr' fun _ => ?_
    have hl := congrArg List.length he
    rw [hx, List.length_append, List.length_cons] at hl
    rw [hx]
    exact method_2_confined hl (by omega)

/-- A frame of one character, two bytes of the next one, and old bytes behind them. -/
def frameCache : Bytes := [0x81, 0x81, 1, 2, 3, 4, 0x60, 0x81, 0x05] ++ List.replicate 1991 0xA5

theorem frameCache_whole : FrameWhole .method_2 (frameCache.take 9) := by
  intro p q hsplit hp
  cases p with
  | nil =>
    obtain rfl := (List.cons.inj hsplit).2
    exact ⟨fun h => absurd h (by decide), Or.inl ⟨by decide +kernel, by decide +kernel⟩⟩
  | cons b p =>
    obtain rfl := (List.cons.inj hsplit).1
    exact absurd List.mem_cons_self hp

theorem recvPack_confined_frame : Confined .method_2 frameCache 9 :=
  (recvPack_confined .method_2 (by rw [frameCache, List.length_append, List.length_replicate]; rfl) (by decide)).mpr
    frameCache_whole

/-- A marker at index 1 of six live bytes: the length check is made against all six, and seven are
consumed. -/
theorem recvPack_beyond :
    ¬ ∀ (method : EzhWebSocketMethod) (cache : Bytes) (cache_len : ℕ), cache.length = recvCacheSize →
      cache_len ≤ recvCacheSize → Confined method cache cache_len := by
  intro h
  obtain ⟨r, p, hr, hle, -⟩ := h .method_2 ([0x00, 0x81, 0x80, 1, 2, 3, 4] ++ List.replicate 1993 0) 6
    (by rw [List.length_append, List.length_replicate]; rfl) (by decide)
  have hseven : (zhWebSockRecvPack .method_2 ([0x00, 0x81, 0x80, 1, 2, 3, 4] ++ List.replicate 1993 0)
      6).map Prod.fst = some 7 := by decide +kernel
  rw [hr] at hseven
  obtain rfl := Option.some.inj hseven
  omega

end Esp32Base
