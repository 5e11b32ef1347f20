import Esp32Base.WebSock.Serv

/-!
# WebSock.Frame — the frame parser against RFC 6455 (websocket.c)

`zhWebSockPackMethod_2` on its own, with the lengths as the protocol defines them: 7 bits, two bytes or eight
bytes, the first byte the most significant.

* `method_2_decodes`: a client text frame in the 7-bit or the 16-bit form is decoded, and waited for as long as
  it is cut short.
* `method_2_sound_iff`: when the parser accepts what was announced.
-/

namespace Esp32Base

open Lib Lib.Buf

/-- **Decoding undoes encoding**: the whole frame in front of anything gives its length and its payload; from its
first `cache_len` bytes on, the parser waits, whatever the cells behind them hold. -/
theorem method_2_decodes {masks p : Bytes} (hm : masks.length = 4) (hp : p.length ≤ 65535) :
    (∀ y cache_len, (clientFrame masks p).length ≤ cache_len →
      zhWebSockPackMethod_2 (clientFrame masks p ++ y) cache_len =
        some ((clientFrame masks p).length, ⟨p, p.length⟩)) ∧
    ∀ rest cache_len, 2 ≤ cache_len → cache_len < (clientFrame masks p).length →
      headSize p.length ≤ cache_len + rest.length →
      zhWebSockPackMethod_2 ((clientFrame masks p).take cache_len ++ rest) cache_len = some (0, .empty) := by
  refine ⟨fun y cache_len hl => method_2_frame hm hp y hl, fun rest cache_len h2 hlt hsize => ?_⟩
  have hlen : ((clientFrame masks p).take cache_len).length = cache_len := by
    rw [List.length_take]
    omega
  have hne : (clientFrame masks p).take cache_len ≠ clientFrame masks p := by
    intro h
    rw [h] at hlen
    omega
  have hbuf : headSize p.length ≤ ((clientFrame masks p).take cache_len ++ rest).length := by
    rw [List.length_append, hlen]
    exact hsize
  have h := method_2_frame_cut hm hp (List.take_prefix cache_len _) hne (by rw [hlen]; exact h2) hbuf
  rwa [hlen] at h

theorem method_2_decodes_hi :
    zhWebSockPackMethod_2 (clientFrame [1, 2, 3, 4] (ascii "hi") ++ [0x81]) 9 = some (8, ⟨ascii "hi", 2⟩) ∧
      zhWebSockPackMethod_2 ((clientFrame [1, 2, 3, 4] (ascii "hi")).take 2 ++ [0, 0, 0, 0]) 2 = some (0, .empty) :=
  ⟨(method_2_decodes (by decide) (by decide)).1 [0x81] 9 (by decide),
    (method_2_decodes (by decide) (by decide)).2 [0, 0, 0, 0] 2 (by decide) (by decide) (by decide)⟩

/-! ## The announced length -/

/-- The number that bytes spell, the first byte the most significant. -/
def bigEndian (b : Bytes) : ℕ := b.foldl (fun n c => 256 * n + c.toNat) 0

/-- The payload length that RFC 6455 gives to the byte `c1` and the bytes `t` behind it, and the size of the header with
a mask; every frame is taken as masked here, whatever the mask bit of `c1` is. -/
def rfcHeader (c1 : UInt8) (t : Bytes) : ℕ × ℕ :=
  if c1 &&& 0x7f = 126 then (8, bigEndian (t.take 2))
  else if c1 &&& 0x7f = 127 then (14, bigEndian (t.take 8))
  else (6, (c1 &&& 0x7f).toNat)

/-- The call is defined, and what it accepts lies inside `cache_len` and is as long as the header says. -/
def Method2Sound (cache : Bytes) (cache_len : ℕ) : Prop :=
  ∃ r p, zhWebSockPackMethod_2 cache cache_len = some (r, p) ∧
    (0 < r → ∃ c1 t, cache = 0x81 :: c1 :: t ∧ p.nPacket = (rfcHeader c1 t).2 ∧
      r = (rfcHeader c1 t).2 + (rfcHeader c1 t).1 ∧ r ≤ cache_len)

/-- What a frame needs is in the object: its header, and the announced payload when `cache_len` covers it. -/
def FrameReadable (cache : Bytes) (cache_len : ℕ) : Prop :=
  cache ≠ [] ∧ (cache.head? = some 0x81 → ∃ c1 t, cache = 0x81 :: c1 :: t ∧ (rfcHeader c1 t).1 ≤ cache.length ∧
    ((rfcHeader c1 t).2 + (rfcHeader c1 t).1 ≤ cache_len → (rfcHeader c1 t).2 + (rfcHeader c1 t).1 ≤ cache.length))

/-- A frame in the 64-bit form has the length zero, or its first four length bytes, the other way round and
signed, are a number that lets the parser wait. -/
def LongWaits (cache : Bytes) (cache_len : ℕ) : Prop :=
  ∀ c1 t, cache = 0x81 :: c1 :: t → c1 &&& 0x7f = 127 →
    t.take 8 = List.replicate 8 0 ∨ (cache_len : ℤ) < int32LE t + 14 ∧ int32LE t + 14 < 2 ^ 31

/-- The size of the header is read as the protocol has it. -/
theorem header_fst_eq (c1 : UInt8) (t : Bytes) : (header c1 t).1 = (rfcHeader c1 t).1 := by
  unfold header rfcHeader
  split_ifs <;> rfl

theorem rfcHeader_long {c1 : UInt8} (h127 : c1 &&& 0x7f = 127) (t : Bytes) :
    rfcHeader c1 t = (14, bigEndian (t.take 8)) := by
  have h126 : ¬ c1 &&& 0x7f = 126 := by
    rw [h127]
    decide
  rw [rfcHeader, if_neg h126, if_pos h127]

/-- The other two forms are read as the protocol has them. -/
theorem header_eq_rfc {c1 : UInt8} {t : Bytes} (h127 : c1 &&& 0x7f ≠ 127)
    (hhead : (rfcHeader c1 t).1 ≤ (0x81 :: c1 :: t).length) :
    header c1 t = ((rfcHeader c1 t).1, ((rfcHeader c1 t).2 : ℤ)) := by
  unfold header rfcHeader at *
  by_cases h126 : c1 &&& 0x7f = 126
  · rw [if_pos h126] at hhead
    simp only [List.length_cons] at hhead
    rw [if_pos h126, if_pos h126, be16_eq]
    match t, hhead with
    | a :: b :: t, _ => simp [bigEndian]
  · rw [if_neg h126, if_neg h127, if_neg h126, if_neg h127]

theorem rfcHeader_le {c1 : UInt8} {t : Bytes} (h127 : c1 &&& 0x7f ≠ 127)
    (hhead : (rfcHeader c1 t).1 ≤ (0x81 :: c1 :: t).length) :
    (rfcHeader c1 t).1 ≤ 8 ∧ (rfcHeader c1 t).2 < 65536 := by
  have heq := header_eq_rfc h127 hhead
  have h16 := be16_lt t
  have h7 := nCode_le c1
  unfold header at heq
  rw [if_neg h127] at heq
  split_ifs at heq <;> simp only [Prod.mk.injEq, Nat.cast_inj] at heq <;> omega

/-- A byte that is no digit of a number is zero. -/
theorem byte_eq_zero (b : UInt8) : b = 0 ↔ b.toNat = 0 := by
  rw [← UInt8.toNat_inj, UInt8.toNat_zero]

theorem eight_bytes {l : Bytes} (h8 : l.length = 8) :
    ∃ b0 b1 b2 b3 b4 b5 b6 b7, l = [b0, b1, b2, b3, b4, b5, b6, b7] := by
  match l, h8 with
  | [b0, b1, b2, b3, b4, b5, b6, b7], _ => exact ⟨b0, b1, b2, b3, b4, b5, b6, b7, rfl⟩

/-- The four bytes as a signed number, and the eight bytes as the protocol reads them, agree only at zero. -/
theorem int32LE_eq_bigEndian {l : Bytes} (h8 : l.length = 8) (hpos : 0 ≤ int32LE l) :
    int32LE l = bigEndian l ↔ l = List.replicate 8 0 := by
  obtain ⟨b0, b1, b2, b3, b4, b5, b6, b7, rfl⟩ := eight_bytes h8
  have h0 := b0.toNat_lt
  have h1 := b1.toNat_lt
  have h2 := b2.toNat_lt
  have h3 := b3.toNat_lt
  have hle : int32LE [b0, b1, b2, b3, b4, b5, b6, b7] =
      b0.toNat + 2 ^ 8 * b1.toNat + 2 ^ 16 * b2.toNat + 2 ^ 24 * b3.toNat := by
    unfold int32LE at hpos ⊢
    rw [Int.bmod_def] at hpos ⊢
    simp only [List.getD_cons_zero, List.getD_cons_succ] at hpos ⊢
    split_ifs at hpos ⊢ <;> omega
  rw [hle]
  simp only [bigEndian, List.foldl_cons, List.foldl_nil, List.replicate_succ, List.replicate_zero,
    List.cons.injEq, and_true, byte_eq_zero]
  push_cast
  omega

/-- Only the first four of the eight bytes are read. -/
theorem int32LE_take_eight (t : Bytes) : int32LE (t.take 8) = int32LE t := by
  rw [← int32LE_take, List.take_take, Nat.min_eq_left (by decide), int32LE_take]

/-- As a signed number the four bytes are at most what the protocol reads. -/
theorem int32LE_le_bigEndian {l : Bytes} (h8 : l.length = 8) : int32LE l ≤ bigEndian l := by
  obtain ⟨b0, b1, b2, b3, b4, b5, b6, b7, rfl⟩ := eight_bytes h8
  have h0 := b0.toNat_lt
  have h1 := b1.toNat_lt
  have h2 := b2.toNat_lt
  have h3 := b3.toNat_lt
  have hle : int32LE [b0, b1, b2, b3, b4, b5, b6, b7] ≤
      (b0.toNat + 2 ^ 8 * b1.toNat + 2 ^ 16 * b2.toNat + 2 ^ 24 * b3.toNat : ℕ) := by
    unfold int32LE
    rw [Int.bmod_def]
    simp only [List.getD_cons_zero, List.getD_cons_succ]
    push_cast
    split_ifs <;> omega
  have hbig : b0.toNat + 2 ^ 8 * b1.toNat + 2 ^ 16 * b2.toNat + 2 ^ 24 * b3.toNat ≤
      bigEndian [b0, b1, b2, b3, b4, b5, b6, b7] := by
    simp only [bigEndian, List.foldl_cons, List.foldl_nil]
    omega
  exact hle.trans (Int.ofNat_le.mpr hbig)

section Sound

variable {c1 : UInt8} {t : Bytes} {cache_len : ℕ}

/-- A call that returns has read the header. -/
theorem header_of_some {r : ℕ} {p : Packet} (h : zhWebSockPackMethod_2 (0x81 :: c1 :: t) cache_len = some (r, p)) :
    (rfcHeader c1 t).1 ≤ (0x81 :: c1 :: t).length ∧
      ((header c1 t).2 + (rfcHeader c1 t).1 ≤ cache_len →
        (header c1 t).2 + (rfcHeader c1 t).1 ≤ (0x81 :: c1 :: t).length) := by
  rw [method_2_eq, header_fst_eq] at h
  obtain ⟨masks, hmasks, h⟩ := Option.bind_eq_some_iff.mp h
  have hload := (load_eq_some hmasks).1
  have h6 := header_fst_le c1 t
  rw [header_fst_eq] at h6
  refine ⟨by omega, fun hle => ?_⟩
  unfold takePayload at h
  split_ifs at h with hov hwait hneg
  · omega
  · obtain ⟨packet, hpacket, -⟩ := Option.map_eq_some_iff.mp h
    have hpay := (load_eq_some hpacket).1
    omega

/-- Where the header is read as the protocol has it, the call is sound. -/
theorem sound_of_header (heq : header c1 t = ((rfcHeader c1 t).1, ((rfcHeader c1 t).2 : ℤ)))
    (hov : (rfcHeader c1 t).2 + (rfcHeader c1 t).1 < 2 ^ 31)
    (hhead : (rfcHeader c1 t).1 ≤ (0x81 :: c1 :: t).length)
    (hfit : (rfcHeader c1 t).2 + (rfcHeader c1 t).1 ≤ cache_len →
      (rfcHeader c1 t).2 + (rfcHeader c1 t).1 ≤ (0x81 :: c1 :: t).length) :
    Method2Sound (0x81 :: c1 :: t) cache_len := by
  have h6 := header_fst_le c1 t
  rw [header_fst_eq] at h6
  unfold Method2Sound
  rw [method_2_eq, header_fst_eq, load_of_le (by omega), Option.bind_some, heq]
  by_cases hwait : cache_len < (rfcHeader c1 t).2 + (rfcHeader c1 t).1
  · exact ⟨0, .empty, takePayload_wait _ (by dsimp only; omega) (by dsimp only; omega),
      fun h => absurd h (Nat.lt_irrefl 0)⟩
  · have hcover := hfit (not_lt.mp hwait)
    have hwhole := @takePayload_whole cache_len (rfcHeader c1 t).1
      (((0x81 :: c1 :: t).drop ((rfcHeader c1 t).1 - 4)).take 4) (0x81 :: c1 :: t) [] (rfcHeader c1 t).2
      (by omega) (by omega) (by omega)
    rw [List.append_nil] at hwhole
    exact ⟨_, _, hwhole, fun _ => ⟨c1, t, rfl, rfl, rfl, by omega⟩⟩

/-- The 64-bit form is sound iff it announces nothing or is waited for. -/
theorem long_sound_iff (h127 : c1 &&& 0x7f = 127) (hhead : 14 ≤ (0x81 :: c1 :: t).length) :
    Method2Sound (0x81 :: c1 :: t) cache_len ↔
      t.take 8 = List.replicate 8 0 ∨ (cache_len : ℤ) < int32LE t + 14 ∧ int32LE t + 14 < 2 ^ 31 := by
  have h8 : (t.take 8).length = 8 := by
    rw [List.length_take]
    simp only [List.length_cons] at hhead
    omega
  have h32 := int32LE_take_eight t
  have hh := header_long h127 t
  have hr := rfcHeader_long h127 t
  have hcall : zhWebSockPackMethod_2 (0x81 :: c1 :: t) cache_len = takePayload (0x81 :: c1 :: t) cache_len 14
      (((0x81 :: c1 :: t).drop 10).take 4) (int32LE t) := by
    rw [method_2_eq, hh]
    dsimp only
    rw [load_of_le (by omega), Option.bind_some]
  constructor
  · rintro ⟨r, p, hcb, hsound⟩
    rw [hcall] at hcb
    obtain ⟨hov, hwait | ⟨hpos, hret⟩⟩ := takePayload_eq_some _ hcb
    · exact Or.inr ⟨hwait, hov⟩
    · -- accepted: the two readings of the length agree
      obtain ⟨c1', t', hcons, -, hlength, -⟩ := hsound (by omega)
      simp only [List.cons.injEq, true_and] at hcons
      obtain ⟨rfl, rfl⟩ := hcons
      rw [hr] at hlength
      rw [← h32] at hpos hret
      refine Or.inl ((int32LE_eq_bigEndian h8 hpos).mp ?_)
      dsimp only at hlength
      omega
  · rintro (hzero | ⟨hwait, hov⟩)
    · have hval : int32LE t = 0 ∧ bigEndian (t.take 8) = 0 := by
        rw [← h32, hzero]
        decide
      apply sound_of_header
      · rw [hh, hr, hval.1, hval.2]
        rfl
      · rw [hr, hval.2]
        decide
      · rw [hr]
        exact hhead
      · rw [hr, hval.2]
        exact fun _ => hhead
    · refine ⟨0, .empty, ?_, fun h => absurd h (Nat.lt_irrefl 0)⟩
      rw [hcall]
      exact takePayload_wait _ hwait hov

/-- A frame in the 64-bit form that is waited for is not covered by `cache_len`. -/
theorem long_readable (h127 : c1 &&& 0x7f = 127) (hhead : 14 ≤ (0x81 :: c1 :: t).length)
    (hlong : t.take 8 = List.replicate 8 0 ∨ (cache_len : ℤ) < int32LE t + 14 ∧ int32LE t + 14 < 2 ^ 31) :
    (rfcHeader c1 t).2 + (rfcHeader c1 t).1 ≤ cache_len →
      (rfcHeader c1 t).2 + (rfcHeader c1 t).1 ≤ (0x81 :: c1 :: t).length := by
  rw [rfcHeader_long h127]
  intro hle
  rcases hlong with hzero | ⟨hwait, -⟩
  · rw [hzero]
    exact hhead
  · have h8 : (t.take 8).length = 8 := by
      rw [List.length_take]
      simp only [List.length_cons] at hhead
      omega
    have hread := int32LE_le_bigEndian h8
    rw [int32LE_take_eight] at hread
    dsimp only at hle
    omega

end Sound

/-- A cache that starts with the marker and a length byte. -/
theorem frameReadable_cons (c1 : UInt8) (t : Bytes) (cache_len : ℕ) : FrameReadable (0x81 :: c1 :: t) cache_len ↔
    (rfcHeader c1 t).1 ≤ (0x81 :: c1 :: t).length ∧
      ((rfcHeader c1 t).2 + (rfcHeader c1 t).1 ≤ cache_len →
        (rfcHeader c1 t).2 + (rfcHeader c1 t).1 ≤ (0x81 :: c1 :: t).length) := by
  unfold FrameReadable
  simp

/-- **What is accepted is what was announced** exactly when the frame can be read and none in the 64-bit form is
taken. -/
theorem method_2_sound_iff (cache : Bytes) (cache_len : ℕ) :
    Method2Sound cache cache_len ↔ FrameReadable cache cache_len ∧ LongWaits cache cache_len := by
  cases cache with
  | nil => exact iff_of_false (fun ⟨_, _, h, _⟩ => by cases h) fun h => h.1.1 rfl
  | cons c l =>
    by_cases hc : c = 0x81
    · subst hc
      cases l with
      | nil =>
        refine iff_of_false (fun ⟨_, _, h, _⟩ => by cases h) fun h => ?_
        obtain ⟨c1, t, hcons, -⟩ := h.1.2 rfl
        cases hcons
      | cons c1 t =>
        have hlong : LongWaits (0x81 :: c1 :: t) cache_len ↔ (c1 &&& 0x7f = 127 →
            t.take 8 = List.replicate 8 0 ∨ (cache_len : ℤ) < int32LE t + 14 ∧ int32LE t + 14 < 2 ^ 31) := by
          unfold LongWaits
          simp
        rw [frameReadable_cons, hlong]
        by_cases h127 : c1 &&& 0x7f = 127
        · have h14 : (rfcHeader c1 t).1 = 14 := congrArg Prod.fst (rfcHeader_long h127 t)
          constructor
          · intro hsound
            obtain ⟨r, p, hcall, -⟩ := id hsound
            have hhead := (header_of_some hcall).1
            rw [h14] at hhead
            have hwaits := (long_sound_iff h127 hhead).mp hsound
            exact ⟨⟨by rw [h14]; exact hhead, long_readable h127 hhead hwaits⟩, fun _ => hwaits⟩
          · rintro ⟨⟨hhead, -⟩, hwaits⟩
            rw [h14] at hhead
            exact (long_sound_iff h127 hhead).mpr (hwaits h127)
        · constructor
          · rintro ⟨r, p, hcall, -⟩
            obtain ⟨hhead, hpay⟩ := header_of_some hcall
            rw [header_eq_rfc h127 hhead] at hpay
            dsimp only at hpay
            refine ⟨⟨hhead, fun hle => ?_⟩, fun h => absurd h h127⟩
            exact_mod_cast hpay (by exact_mod_cast hle)
          · rintro ⟨⟨hhead, hfit⟩, -⟩
            have hle := rfcHeader_le h127 hhead
            exact sound_of_header (header_eq_rfc h127 hhead) (by omega) hhead hfit
    · refine iff_of_true ⟨0, .empty, ?_, fun h => absurd h (Nat.lt_irrefl 0)⟩ ⟨⟨List.cons_ne_nil _ _, fun h => ?_⟩, ?_⟩
      · rw [zhWebSockPackMethod_2, List.getElem?_cons_zero, Option.bind_some, if_pos hc]
      · exact absurd (Option.some.inj h) hc
      · exact fun c1 t h => absurd (List.cons.inj h).1 hc

/-- The announced 2^57 bytes are accepted as two. -/
theorem method_2_accepts_two :
    zhWebSockPackMethod_2 ([0x81, 0xFF, 2, 0, 0, 0, 0, 0, 0, 0] ++ [0, 0, 0, 0] ++ ascii "hi") 16 =
        some (16, ⟨ascii "hi", 2⟩) ∧
      bigEndian [2, 0, 0, 0, 0, 0, 0, 0] = 2 ^ 57 ∧
      ¬ Method2Sound ([0x81, 0xFF, 2, 0, 0, 0, 0, 0, 0, 0] ++ [0, 0, 0, 0] ++ ascii "hi") 16 := by
  have hcall : zhWebSockPackMethod_2 ([0x81, 0xFF, 2, 0, 0, 0, 0, 0, 0, 0] ++ [0, 0, 0, 0] ++ ascii "hi") 16 =
      some (16, ⟨ascii "hi", 2⟩) := by decide +kernel
  have hlen : bigEndian [2, 0, 0, 0, 0, 0, 0, 0] = 2 ^ 57 := by simp [bigEndian]
  refine ⟨hcall, hlen, ?_⟩
  rintro ⟨r, p, hcb, hsound⟩
  rw [hcall] at hcb
  simp only [Option.some.injEq, Prod.mk.injEq] at hcb
  obtain ⟨rfl, rfl⟩ := hcb
  obtain ⟨c1, t, hcons, hlength, -, -⟩ := hsound (by decide)
  simp only [List.cons_append, List.nil_append, List.cons.injEq, true_and] at hcons
  obtain ⟨rfl, rfl⟩ := hcons
  have hr : (rfcHeader 0xFF ([2, 0, 0, 0, 0, 0, 0, 0] ++ ([0, 0, 0, 0] ++ ascii "hi"))).2 =
      bigEndian [2, 0, 0, 0, 0, 0, 0, 0] := rfl
  exact absurd (hlength.trans (hr.trans hlen)) (by decide)

end Esp32Base
