import Esp32Base.WebSock.Isolation

/-!
# WebSock.Bounds — staying inside `recvCache` and `str` (websocket_serv.c)

A client that would overflow `recvCache` is closed, but its chunk is copied all the same, and the parsers of
`zhWebSockRecvPack` are not told that their packet goes to `str[1000]`.

* `method_1_inside_iff`, `method_2_inside_iff`: when the parser of a method keeps to `str` and to the live bytes.
* `recv_cb_inside_iff`: when one callback stays inside.
* `wsock_inside_iff`: when all callbacks of a connection do.
-/

namespace Esp32Base

open Lib Lib.Buf

/-- The size of `str`. -/
def strSize : ℕ := 1000

/-- A parser's result for a marker at index `i` of `len` live bytes: what it writes keeps to `str`, the packet and
its NUL fit, and what is consumed is live. -/
def ParseInside (parse : Bytes → ℕ → Option (ℕ × Packet)) (len i : ℕ) (w : Bytes) : Prop :=
  ∃ r p, parse w len = some (r, p) ∧ p.bytes.length ≤ strSize ∧ p.nPacket < strSize ∧ i + r ≤ len

/-- The same of the call of `zhWebSockRecvPack`. -/
def PackInside (method : EzhWebSocketMethod) (cache : Bytes) (cache_len : ℕ) : Prop :=
  ∃ r p, zhWebSockRecvPack method cache cache_len = some (r, p) ∧ p.packet.bytes.length ≤ strSize ∧
    p.packet.nPacket < strSize ∧ r ≤ cache_len

/-- `METHOD_1`, with `q` behind the marker: a packet of at most 999 bytes whose end is live, or no end in reach and
at most 999 live bytes, which are copied until that is known. -/
def Method1Fits (len i : ℕ) (q : Bytes) : Prop :=
  0xFF ∈ q.take len ∧ (q.takeWhile (· ≠ 0xFF)).length < strSize ∧ i + (q.takeWhile (· ≠ 0xFF)).length + 2 ≤ len ∨
    0xFF ∉ q.take len ∧ len < strSize

/-- `METHOD_2`: the header lies in the cache, and it announces more than the bytes it is compared with, or a live
frame of at most 999 bytes. -/
def Method2Fits (len i : ℕ) : Bytes → Prop
  | [] => False
  | c1 :: t =>
    (header c1 t).1 ≤ t.length + 2 ∧
      ((len : ℤ) < (header c1 t).2 + (header c1 t).1 ∧ (header c1 t).2 + (header c1 t).1 < 2 ^ 31 ∨
        0 ≤ (header c1 t).2 ∧ (header c1 t).2 < strSize ∧ i + (header c1 t).1 + (header c1 t).2 ≤ len)

/-- The condition at the first marker among the live bytes. -/
def AtMarker (marker : UInt8) (fits : ℕ → ℕ → Bytes → Prop) (cache : Bytes) (cache_len : ℕ) : Prop :=
  ∀ p q, cache = p ++ marker :: q → marker ∉ p → p.length < cache_len → fits cache_len p.length q

/-- The condition on the cache of each method. -/
def FrameFits (method : EzhWebSocketMethod) (cache : Bytes) (cache_len : ℕ) : Prop :=
  match method with
  | .unknow => True
  | .method_1 => AtMarker 0x00 Method1Fits cache cache_len
  | .method_2 => AtMarker 0x81 Method2Fits cache cache_len

/-! ## The parsers -/

/-- The loop of `METHOD_1` without an end in reach: it copies one byte more than there are live ones. -/
theorem method1Loop_wait (len : ℕ) : ∀ (w : Bytes) (i : ℕ) (packet : Bytes), i ≤ len → 0xFF ∉ w.take (len + 1 - i) →
    method1Loop len w i packet =
      if len + 2 - i ≤ w.length then some (0, ⟨List.replicate (packet.length + (len + 1 - i)) 0, 0⟩) else none
  | [], i, packet, hi, _ => by
    rw [if_neg (by rw [List.length_nil]; omega)]
    rfl
  | c :: w, i, packet, hi, hno => by
    rw [show len + 1 - i = (len - i) + 1 by omega, List.take_succ_cons, List.mem_cons, not_or] at hno
    rw [method1Loop, if_neg (fun hc => hno.1 hc.symm)]
    cases w with
    | nil =>
      rw [if_neg (by rw [List.length_singleton]; omega)]
      rfl
    | cons d w =>
      rw [List.getElem?_cons_zero, Option.bind_some]
      by_cases hlast : len < i + 1
      · obtain rfl : i = len := by omega
        rw [if_pos hlast, if_pos (by rw [List.length_cons, List.length_cons]; omega), Nat.add_sub_cancel_left]
      · have hrec := method1Loop_wait len (d :: w) (i + 1) (packet ++ [d]) (by omega)
          (by rw [show len + 1 - (i + 1) = len - i by omega]; exact hno.2)
        rw [if_neg hlast, hrec, List.length_append, List.length_singleton, List.length_cons, List.length_cons,
          show packet.length + 1 + (len + 1 - (i + 1)) = packet.length + (len + 1 - i) by omega]
        exact if_congr (by rw [List.length_cons]; omega) rfl rfl

/-- **`METHOD_1`** keeps to `str` and to the live bytes iff its frame fits. -/
theorem method_1_inside_iff {len i : ℕ} {q : Bytes} (hi : i < len) (hsize : i + (q.length + 1) = recvCacheSize) :
    ParseInside zhWebSockPackMethod_1 len i (0x00 :: q) ↔ Method1Fits len i q := by
  rcases exists_first (b := 0xFF) q len with hno | ⟨a, b, rfl, ha, hlen⟩
  · -- no end in reach
    have hwait := method1Loop_wait len (0x00 :: q) 0 [] (Nat.zero_le _)
      (by rw [Nat.sub_zero, List.take_succ_cons, List.mem_cons, not_or]; exact ⟨by decide, hno⟩)
    have hparse : zhWebSockPackMethod_1 (0x00 :: q) len = method1Loop len (0x00 :: q) 0 [] := by
      rw [zhWebSockPackMethod_1, List.getElem?_cons_zero, Option.bind_some, if_neg (by simp)]
    unfold ParseInside Method1Fits
    rw [hparse, hwait, List.length_cons, List.length_nil]
    constructor
    · rintro ⟨r, p, hr, hbytes, -, -⟩
      split_ifs at hr
      obtain ⟨-, rfl⟩ := Prod.mk.inj (Option.some.inj hr)
      rw [List.length_replicate] at hbytes
      exact Or.inr ⟨hno, by omega⟩
    · rintro (⟨hmem, -⟩ | ⟨-, hlt⟩)
      · exact absurd hmem hno
      · unfold strSize at hlt
        unfold recvCacheSize at hsize
        rw [if_pos (by omega)]
        refine ⟨_, _, rfl, ?_, Nat.zero_lt_succ 999, by omega⟩
        rw [List.length_replicate]
        exact (by omega : 0 + (len + 1 - 0) ≤ 1000)
  · -- the end is the first 0xFF
    have htake : (a ++ 0xFF :: b).takeWhile (· ≠ 0xFF) = a := takeWhile_ne ha b
    have hmem : (0xFF : UInt8) ∈ (a ++ 0xFF :: b).take len := by
      rw [List.take_append, show len - a.length = (len - a.length - 1) + 1 by omega, List.take_succ_cons]
      exact List.mem_append_right _ List.mem_cons_self
    unfold ParseInside Method1Fits
    rw [← List.cons_append, method_1_found b ha (by omega), htake]
    constructor
    · rintro ⟨r, p, hr, -, hn, hle⟩
      obtain ⟨rfl, rfl⟩ := Prod.mk.inj (Option.some.inj hr)
      exact Or.inl ⟨hmem, hn, hle⟩
    · rintro (⟨-, hn, hle⟩ | ⟨hno, -⟩)
      · refine ⟨_, _, rfl, ?_, hn, hle⟩
        rw [List.length_append]
        exact hn
      · exact absurd hmem hno

/-- **`METHOD_2`** keeps to `str` and to the live bytes iff its frame fits. -/
theorem method_2_inside_iff {len i : ℕ} {q : Bytes} (hi : i < len) (hlen : len ≤ recvCacheSize)
    (hsize : i + (q.length + 1) = recvCacheSize) :
    ParseInside zhWebSockPackMethod_2 len i (0x81 :: q) ↔ Method2Fits len i q := by
  unfold recvCacheSize at hlen hsize
  cases q with
  | nil =>
    refine ⟨?_, fun h => absurd h id⟩
    rintro ⟨r, p, hr, -⟩
    cases hr
  | cons c1 t =>
    rw [List.length_cons] at hsize
    have h6 := header_fst_le c1 t
    constructor
    · rintro ⟨r, p, hr, -, hn, hle⟩
      obtain ⟨hhead, hov, hcase⟩ := method_2_eq_some hr
      refine ⟨hhead, ?_⟩
      rcases hcase with hwait | ⟨h0, hr'⟩
      · exact Or.inl ⟨hwait, hov⟩
      by_cases hwait : (len : ℤ) < (header c1 t).2 + (header c1 t).1
      · exact Or.inl ⟨hwait, hov⟩
      · -- then the payload was taken, and is as long as announced
        obtain ⟨d, hd⟩ := Int.eq_ofNat_of_zero_le h0
        have hp : p.nPacket = d := by
          rw [method_2_eq, hd] at hr
          obtain ⟨masks, -, hr⟩ := Option.bind_eq_some_iff.mp hr
          rw [hd] at hwait
          rw [takePayload, if_neg (by omega), if_neg (by omega), if_neg (by omega)] at hr
          obtain ⟨packet, -, hr⟩ := Option.map_eq_some_iff.mp hr
          obtain ⟨-, rfl⟩ := Prod.mk.inj hr
          rfl
        rw [hp] at hn
        exact Or.inr ⟨h0, by rw [hd]; exact Int.ofNat_lt.mpr hn, by omega⟩
    · rintro ⟨hhead, hcase⟩
      have hmasks : load (0x81 :: c1 :: t) ((header c1 t).1 - 4) 4 = some _ :=
        load_of_le (by rw [List.length_cons, List.length_cons]; omega)
      unfold ParseInside
      rw [method_2_eq, hmasks, Option.bind_some]
      rcases hcase with ⟨hwait, hov⟩ | ⟨h0, hn, hle⟩
      · exact ⟨0, .empty, takePayload_wait _ hwait hov, by decide, by decide, by omega⟩
      · obtain ⟨d, hd⟩ := Int.eq_ofNat_of_zero_le h0
        rw [hd] at hn hle ⊢
        have hfit : (header c1 t).1 + d ≤ (0x81 :: c1 :: t).length := by
          rw [List.length_cons, List.length_cons]
          omega
        have hlive : (header c1 t).1 + d ≤ len := by omega
        have htake := takePayload_whole (((0x81 :: c1 :: t).drop ((header c1 t).1 - 4)).take 4) [] hfit hlive (by omega)
        rw [List.append_nil] at htake
        have hd' : d < strSize := Int.ofNat_lt.mp hn
        refine ⟨_, _, htake, ?_, hd', by omega⟩
        rw [unmask_length, List.length_take]
        exact (Nat.min_le_left _ _).trans hd'.le

/-- The search for the marker writes nothing. -/
theorem packAt_inside_iff (marker : UInt8) (parse : Bytes → ℕ → Option (ℕ × Packet)) {cache : Bytes} {len : ℕ}
    (hlen : len ≤ cache.length) :
    (∃ r p, packAt marker parse cache len = some (r, p) ∧ p.packet.bytes.length ≤ strSize ∧
      p.packet.nPacket < strSize ∧ r ≤ len) ↔
    AtMarker marker (fun len i q => ParseInside parse len i (marker :: q)) cache len := by
  have hfirst : ∀ {p q : Bytes}, marker ∉ p → p.length < len → findByte marker (p ++ marker :: q) len = some p.length :=
    fun hp hlt => findByte_of_append _ hp hlt
  rcases findByte_cases (b := marker) hlen with ⟨hfind, hno⟩ | ⟨p, q, rfl, hp, hlt, hfind⟩
  · rw [packAt, hfind, Option.bind_some, if_pos rfl]
    refine ⟨fun _ p q hcache _ hlt => absurd ?_ hno, fun _ => ⟨0, .empty, rfl, by decide, by decide, Nat.zero_le _⟩⟩
    rw [hcache, List.take_append, show len - p.length = (len - p.length - 1) + 1 by omega, List.take_succ_cons]
    exact List.mem_append_right _ List.mem_cons_self
  · rw [packAt, hfind, Option.bind_some, if_neg hlt.ne, List.drop_left]
    constructor
    · rintro ⟨r, pk, hpack, hbytes, hn, hle⟩ p' q' hcache hp' hlt'
      obtain ⟨⟨a, b⟩, hab, h⟩ := Option.map_eq_some_iff.mp hpack
      obtain ⟨rfl, rfl⟩ := Prod.mk.inj h
      have hpos := hfirst (q := q') hp' hlt'
      rw [← hcache, hfind] at hpos
      obtain ⟨rfl, hq⟩ := List.append_inj hcache (Option.some.inj hpos)
      obtain ⟨-, rfl⟩ := List.cons.inj hq
      exact ⟨a, b, hab, hbytes, hn, hle⟩
    · intro h
      obtain ⟨r, pk, hr, hbytes, hn, hle⟩ := h p q rfl hp hlt
      exact ⟨_, _, by rw [hr]; rfl, hbytes, hn, hle⟩

/-- **`zhWebSockRecvPack`** keeps to `str` and to the live bytes iff the frame fits. -/
theorem recvPack_inside_iff (method : EzhWebSocketMethod) {cache : Bytes} {len : ℕ}
    (hcache : cache.length = recvCacheSize) (hlen : len ≤ recvCacheSize) :
    PackInside method cache len ↔ FrameFits method cache len := by
  have hat : ∀ {marker : UInt8} {P Q : ℕ → ℕ → Bytes → Prop},
      (∀ i q, i < len → i + (q.length + 1) = recvCacheSize → (P len i q ↔ Q len i q)) →
      (AtMarker marker P cache len ↔ AtMarker marker Q cache len) := by
    intro marker P Q hPQ
    refine forall_congr' fun p => forall_congr' fun q => forall_congr' fun he => forall_congr' fun _ =>
      forall_congr' fun hi => hPQ p.length q hi ?_
    rw [← hcache, he, List.length_append, List.length_cons]
  cases method with
  | unknow => exact ⟨fun _ => trivial, fun _ => ⟨0, .empty, rfl, by decide, by decide, Nat.zero_le _⟩⟩
  | method_1 =>
    refine (packAt_inside_iff 0x00 zhWebSockPackMethod_1 (hcache ▸ hlen)).trans (hat fun i q hi hq => ?_)
    exact method_1_inside_iff hi hq
  | method_2 =>
    refine (packAt_inside_iff 0x81 zhWebSockPackMethod_2 (hcache ▸ hlen)).trans (hat fun i q hi hq => ?_)
    exact method_2_inside_iff hi hlen hq

/-! ## One callback -/

/-- What is asked of a callback: the chunk is stored inside `recvCache`, a call of `zhWebSockRecvPack` on what is there
keeps its packet to `str`, and `recvLen` is in range afterwards. -/
structure RecvInside (d : Digests) (sock_fd : ℕ) (g : WSockServ) (c : Bytes) : Prop where
  stored : (g.wsclient.cached c).isSome
  packet : ∀ g₁, g.shaken (zhWebSockHandshake_1 d) (zhWebSockHandshake_2 d) c = some (1, g₁) →
    PackInside g₁.wsclient.hs.method g₁.wsclient.recvCache g₁.wsclient.recvLen
  after : ∀ g₁ out, websock_recv_cb (zhWebSockHandshake_1 d) (zhWebSockHandshake_2 d) sock_fd g c = some (g₁, out) →
    g₁.wsclient.recvLen ≤ recvCacheSize

/-- The condition: the chunk fits behind the bytes not consumed yet, and the first frame of a client past its
handshake fits `str`. -/
structure RecvFits (g : WSockServ) (c : Bytes) : Prop where
  chunk : g.wsclient.recvLen + c.length ≤ recvCacheSize
  frame : g.wsclient.hs.method ≠ .unknow → ∀ recvCache, store g.wsclient.recvCache g.wsclient.recvLen c = some recvCache →
    FrameFits g.wsclient.hs.method recvCache (g.wsclient.recvLen + c.length)

section Callback

variable {d : Digests} {sock_fd : ℕ} {g : WSockServ} {c : Bytes}

theorem extract_recvLen {w w' : TzhWSockClient} {out : List WSockOut} (h : extract w = some (w', out)) :
    w'.recvLen ≤ w.recvLen := by
  obtain ⟨⟨totle, p⟩, -, h⟩ := Option.bind_eq_some_iff.mp h
  obtain ⟨o, -, h⟩ := Option.bind_eq_some_iff.mp h
  split_ifs at h
  obtain ⟨recvCache, -, h⟩ := Option.map_eq_some_iff.mp h
  obtain ⟨rfl, -⟩ := Prod.mk.inj h
  exact Nat.sub_le _ _

/-- The frame is looked for when the client is past its handshake, in what it has received. -/
theorem shaken_one_iff {g₁ : WSockServ} :
    g.shaken (zhWebSockHandshake_1 d) (zhWebSockHandshake_2 d) c = some (1, g₁) ↔
      g.wsclient.hs.method ≠ .unknow ∧ ∃ recvCache, store g.wsclient.recvCache g.wsclient.recvLen c = some recvCache ∧
        g₁ = ⟨{ g.wsclient with recvCache := recvCache, recvLen := g.wsclient.recvLen + c.length },
          g.wssocket_acceptBuf⟩ := by
  unfold WSockServ.shaken TzhWSockClient.cached
  constructor
  · intro h
    obtain ⟨w, hw, h⟩ := Option.bind_eq_some_iff.mp h
    obtain ⟨recvCache, hst, rfl⟩ := Option.map_eq_some_iff.mp hw
    obtain ⟨⟨r, h'⟩, hshake, heq⟩ := Option.map_eq_some_iff.mp h
    obtain ⟨rfl, rfl⟩ := Prod.mk.inj heq
    dsimp only at hshake
    by_cases hm : g.wsclient.hs.method = .unknow
    · -- a handshake that is tried answers 0 or -1
      rw [zhWebSockHandshake, if_neg (not_not.mpr hm)] at hshake
      obtain ⟨m, -, hshake⟩ := Option.bind_eq_some_iff.mp hshake
      cases m with
      | unknow =>
        obtain ⟨hr, -⟩ := Prod.mk.inj (Option.some.inj hshake)
        exact absurd hr (by decide)
      | method_1 | method_2 =>
        obtain ⟨p, -, heq⟩ := Option.map_eq_some_iff.mp hshake
        obtain ⟨hr, -⟩ := Prod.mk.inj heq
        split_ifs at hr <;> exact absurd hr (by decide)
    · rw [zhWebSockHandshake, if_pos hm] at hshake
      obtain ⟨-, rfl⟩ := Prod.mk.inj (Option.some.inj hshake)
      exact ⟨hm, recvCache, hst, rfl⟩
  · rintro ⟨hm, recvCache, hst, rfl⟩
    rw [hst, Option.map_some, Option.bind_some, zhWebSockHandshake, if_pos hm]
    rfl

/-- A callback adds at most its chunk to the live bytes. -/
theorem recv_cb_recvLen {g₁ : WSockServ} {out : List WSockOut}
    (h : websock_recv_cb (zhWebSockHandshake_1 d) (zhWebSockHandshake_2 d) sock_fd g c = some (g₁, out)) :
    g₁.wsclient.recvLen ≤ g.wsclient.recvLen + c.length := by
  obtain ⟨⟨r, g₂⟩, hshaken, h⟩ := Option.bind_eq_some_iff.mp h
  have hlen : g₂.wsclient.recvLen = g.wsclient.recvLen + c.length := by
    obtain ⟨w, hw, hmap⟩ := Option.bind_eq_some_iff.mp hshaken
    obtain ⟨recvCache, -, rfl⟩ := Option.map_eq_some_iff.mp hw
    obtain ⟨q, -, heq⟩ := Option.map_eq_some_iff.mp hmap
    obtain ⟨-, rfl⟩ := Prod.mk.inj heq
    rfl
  dsimp only at h
  by_cases h0 : r = 0
  · rw [if_pos h0] at h
    obtain ⟨text, -, h⟩ := Option.map_eq_some_iff.mp h
    obtain ⟨rfl, -⟩ := Prod.mk.inj h
    exact Nat.zero_le _
  rw [if_neg h0] at h
  by_cases h1 : r = 1
  · rw [if_pos h1] at h
    obtain ⟨q, hext, h⟩ := Option.map_eq_some_iff.mp h
    obtain ⟨rfl, -⟩ := Prod.mk.inj h
    exact (extract_recvLen hext).trans hlen.le
  · rw [if_neg h1] at h
    obtain ⟨rfl, -⟩ := Prod.mk.inj (Option.some.inj h)
    exact hlen.le

/-- **One callback** stays inside its buffers iff the chunk and the frame fit. -/
theorem recv_cb_inside_iff (hg : Sized g) : RecvInside d sock_fd g c ↔ RecvFits g c := by
  have hpack : g.wsclient.recvLen + c.length ≤ recvCacheSize → ∀ recvCache,
      store g.wsclient.recvCache g.wsclient.recvLen c = some recvCache →
      (PackInside g.wsclient.hs.method recvCache (g.wsclient.recvLen + c.length) ↔
        FrameFits g.wsclient.hs.method recvCache (g.wsclient.recvLen + c.length)) :=
    fun hle recvCache hst => recvPack_inside_iff _ ((store_length hst).trans hg.recvCache) hle
  constructor
  · intro h
    have hstored := h.stored
    rw [TzhWSockClient.cached, Option.isSome_map] at hstored
    obtain ⟨recvCache, hst⟩ := Option.isSome_iff_exists.mp hstored
    have hle := (store_eq_some hst).1
    rw [hg.recvCache] at hle
    exact ⟨hle, fun hm b hb => (hpack hle b hb).mp (h.packet _ (shaken_one_iff.mpr ⟨hm, b, hb, rfl⟩))⟩
  · intro h
    refine ⟨?_, fun g₁ hshaken => ?_, fun g₁ out hcb => ?_⟩
    · rw [TzhWSockClient.cached, store_of_le (by rw [hg.recvCache]; exact h.chunk)]
      rfl
    · obtain ⟨hm, b, hb, rfl⟩ := shaken_one_iff.mp hshaken
      exact (hpack h.chunk b hb).mpr (h.frame hm b hb)
    · exact (recv_cb_recvLen hcb).trans h.chunk

end Callback

/-! ## Connections -/

/-- **All callbacks of a connection**, accepted after any history, stay inside their buffers iff every chunk and
every frame fits. -/
theorem wsock_inside_iff {d : Digests} {es : List WSockEvent} {g : WSockTasks}
    (hes : wsockRun (zhWebSockHandshake_1 d) (zhWebSockHandshake_2 d) wsockBoot es = some g) (fd : ℕ) (cs : List Bytes) :
    AlongRun (websock_recv_cb (zhWebSockHandshake_1 d) (zhWebSockHandshake_2 d) fd) (RecvInside d fd)
        (app_websocket_task_accept g fd).1.serv cs ↔
      AlongRun (websock_recv_cb (zhWebSockHandshake_1 d) (zhWebSockHandshake_2 d) fd) RecvFits
        (app_websocket_task_accept g fd).1.serv cs := by
  have hg := wsockRun_sized wsockBoot_sized hes
  refine AlongRun.congr Sized (fun g c hg => recv_cb_inside_iff hg) ?_ ⟨hg.recvCache, hg.acceptBuf⟩
  exact fun g c g₁ out hg _ hcb => recv_cb_sized hg hcb

/-- The first connection, with a request in two chunks. -/
theorem wsock_inside_first :
    AlongRun (websock_recv_cb (zhWebSockHandshake_1 wholeDigests) (zhWebSockHandshake_2 wholeDigests) 3)
        (RecvInside wholeDigests 3) (app_websocket_task_accept wsockBoot 3).1.serv
        [wholeRequest.take 20, wholeRequest.drop 20] ↔
      AlongRun (websock_recv_cb (zhWebSockHandshake_1 wholeDigests) (zhWebSockHandshake_2 wholeDigests) 3) RecvFits
        (app_websocket_task_accept wsockBoot 3).1.serv [wholeRequest.take 20, wholeRequest.drop 20] :=
  @wsock_inside_iff wholeDigests [] wsockBoot rfl 3 _

/-- The globals behind `n` zeros from a client that never shakes hands. -/
def zerosReceived (n : ℕ) : WSockServ :=
  ⟨⟨3, zhWebSockInit, List.replicate recvCacheSize 0, n⟩, List.replicate 512 0⟩

theorem recv_cb_zeros (d : Digests) {n k : ℕ} (h : n + k ≤ recvCacheSize) :
    websock_recv_cb (zhWebSockHandshake_1 d) (zhWebSockHandshake_2 d) 3 (zerosReceived n) (List.replicate k 0) =
      some (zerosReceived (n + k), []) := by
  have hst : store (List.replicate recvCacheSize 0) n (List.replicate k 0) =
      some (List.replicate recvCacheSize 0) := by
    rw [store_of_le (by rw [List.length_replicate, List.length_replicate]; exact h), List.take_replicate,
      List.drop_replicate, List.length_replicate, ← List.replicate_add, ← List.replicate_add]
    congr 2
    omega
  have hhand : zhWebSockHandshake (zhWebSockHandshake_1 d) (zhWebSockHandshake_2 d) (n + k)
      ⟨List.replicate recvCacheSize 0, zhWebSockInit, List.replicate 512 0⟩ =
        some (-1, ⟨List.replicate recvCacheSize 0, zhWebSockInit, List.replicate 512 0⟩) := by
    by_cases h4 : 4 < n + k
    · have hempty : cstr (List.replicate recvCacheSize 0) = some [] :=
        @cstr_append_zeros [] List.not_mem_nil recvCacheSize (by decide)
      rw [handshake_eq rfl h4, hempty]
      rfl
    · exact handshake_short rfl (by omega)
  rw [recv_cb_unfold]
  unfold zerosReceived
  dsimp only
  rw [List.length_replicate, hst, Option.bind_some, hhand, Option.bind_some, if_neg (by decide), if_neg (by decide),
    if_neg (by omega)]

/-- Zeros that never complete a handshake stay in the cache. -/
theorem zeros_inside_le (d : Digests) {k : ℕ} : ∀ {m n : ℕ}, n ≤ recvCacheSize →
    AlongRun (websock_recv_cb (zhWebSockHandshake_1 d) (zhWebSockHandshake_2 d) 3) (RecvInside d 3) (zerosReceived n)
      (List.replicate m (List.replicate k 0)) → n + m * k ≤ recvCacheSize
  | 0, n, hn, _ => by omega
  | m + 1, n, _, h => by
    obtain ⟨hhead, hrest⟩ := h
    have hfit : n + (List.replicate k (0 : UInt8)).length ≤ recvCacheSize :=
      ((recv_cb_inside_iff ⟨List.length_replicate, List.length_replicate⟩).mp hhead).chunk
    rw [List.length_replicate] at hfit
    have := zeros_inside_le d hfit (hrest _ _ (recv_cb_zeros d hfit))
    rw [Nat.succ_mul]
    omega

/-- 2048 zeros in chunks of 128, on the first connection. -/
theorem wsock_overruns :
    ¬ ∀ cs : List Bytes, (∀ c ∈ cs, 1 ≤ c.length ∧ c.length ≤ 128) →
      AlongRun (websock_recv_cb (zhWebSockHandshake_1 wholeDigests) (zhWebSockHandshake_2 wholeDigests) 3)
        (RecvInside wholeDigests 3) (app_websocket_task_accept wsockBoot 3).1.serv cs := by
  intro h
  have hlen : ∀ c ∈ List.replicate 16 (List.replicate 128 (0 : UInt8)), 1 ≤ c.length ∧ c.length ≤ 128 := by
    intro c hc
    rw [List.eq_of_mem_replicate hc, List.length_replicate]
    decide
  exact absurd (zeros_inside_le wholeDigests (Nat.zero_le _) (h _ hlen)) (by decide)

end Esp32Base
