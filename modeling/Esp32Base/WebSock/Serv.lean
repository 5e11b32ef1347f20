import Esp32Base.Lib.Backlog
import Esp32Base.Lib.Framer
import Esp32Base.UrlCode
import Esp32Base.WebSock.Pack

/-!
# WebSock.Serv — the receive buffer of the websocket server (websocket_serv.c)

`websock_recv_cb` appends what TCP delivers to `recvCache`, extracts at most one frame and hands its
decoded payload to `g_trans_websocket_recv`.

* `recv_cb_frame`, `recv_cb_cut`: one call, on a whole frame or on a frame cut short.
* `websock_delivers_iff`: the payloads of a run of text frames are delivered, all of them and once each,
  iff no more frames end in the last `m` chunks than there are calls to take them.
-/

namespace Esp32Base

open Lib Lib.Buf Lib.Backlog Lib.CText

/-- The parts of `TzhWebSocket`; NULL is `none`. -/
structure TzhWebSocket where
  method : EzhWebSocketMethod
  resource : Option Bytes
  host : Option Bytes
  origin : Option Bytes
  protocol : Option Bytes
  key : Option Bytes
  key1 : Option Bytes
  key2 : Option Bytes
  version : Option Bytes

structure TzhWSockClient where
  pespconn : ℕ
  hs : TzhWebSocket
  recvCache : Bytes
  recvLen : ℕ

/-- The globals of the server that the callback reads and writes. -/
structure WSockServ where
  wsclient : TzhWSockClient
  wssocket_acceptBuf : Bytes

/-- What the callback does to the outside. -/
inductive WSockOut
  | close (fd : ℕ)
  | write (sock_fd : ℕ) (buf : Bytes)
  | recv (msg : Bytes)
  deriving DecidableEq

/-- What a handshake works on: the request text, the fields and `acceptBuf`. -/
structure Handshake where
  recvbuf : Bytes
  hs : TzhWebSocket
  acceptBuf : Bytes

section Callback

-- `zhWebSockHandshake_1` and `zhWebSockHandshake_2`, with their return value
variable (handshake_1 handshake_2 : Handshake → Option (ℤ × Handshake))

def zhWebSockIdentify (buf : Bytes) (buflen : ℕ) : Option EzhWebSocketMethod :=
  if buflen ≤ 4 then some .unknow
  else
    (cstr buf).map fun text =>
      if (strstr (ascii "Sec-WebSocket-Key1:") text).isSome then .method_1
      else if (strstr (ascii "Sec-WebSocket-Key:") text).isSome then .method_2
      else .unknow

def zhWebSockHandshake (buflen : ℕ) (h : Handshake) : Option (ℤ × Handshake) :=
  if h.hs.method ≠ .unknow then some (1, h)
  else
    (zhWebSockIdentify h.recvbuf buflen).bind fun ret =>
      match ret with
      | .unknow => some (-1, h)
      | .method_1 => (handshake_1 h).map fun (r, h) => (if r = 0 then 0 else -1, h)
      | .method_2 => (handshake_2 h).map fun (r, h) => (if r = 0 then 0 else -1, h)

/-- The packet in `str[1000]`, decoded and handed on when a frame was extracted. -/
def received (totle : ℕ) (packet : Packet) : Option (List WSockOut) :=
  (store (List.replicate 1000 0) 0 packet.bytes).bind fun str =>
    if 0 < totle then
      (zhHttpUrlDecode str packet.nPacket).map fun (str, recv_len) => [.recv (str.take recv_len)]
    else some []

/-- The branch of a client that is past its handshake: one frame is taken out of the cache. -/
def extract (wsclient : TzhWSockClient) : Option (TzhWSockClient × List WSockOut) :=
  (zhWebSockRecvPack wsclient.hs.method wsclient.recvCache wsclient.recvLen).bind fun (totle, p) =>
    (received totle p.packet).bind fun out =>
      if wsclient.recvLen < totle then none
      else
        (moveDown wsclient.recvCache 0 totle (wsclient.recvLen - totle)).map fun recvCache =>
          ({ wsclient with recvCache := recvCache, recvLen := wsclient.recvLen - totle }, out)

/-- The chunk behind what is in the cache. -/
def TzhWSockClient.cached (wsclient : TzhWSockClient) (pusrdata : Bytes) : Option TzhWSockClient :=
  (store wsclient.recvCache wsclient.recvLen pusrdata).map fun recvCache =>
    { wsclient with recvCache := recvCache, recvLen := wsclient.recvLen + pusrdata.length }

/-- The globals behind `zhWebSockHandshake`, with `wssocket_ret`. -/
def WSockServ.shaken (g : WSockServ) (pusrdata : Bytes) : Option (ℤ × WSockServ) :=
  (g.wsclient.cached pusrdata).bind fun wsclient =>
    (zhWebSockHandshake handshake_1 handshake_2 wsclient.recvLen
        ⟨wsclient.recvCache, wsclient.hs, g.wssocket_acceptBuf⟩).map fun (wssocket_ret, h) =>
      (wssocket_ret, ⟨{ wsclient with hs := h.hs, recvCache := h.recvbuf }, h.acceptBuf⟩)

/-- One callback: the new globals and what was done, in order. -/
def websock_recv_cb (sock_fd : ℕ) (g : WSockServ) (pusrdata : Bytes) :
    Option (WSockServ × List WSockOut) :=
  -- a client that would overflow the cache is closed, and its data copied all the same
  let closed :=
    if recvCacheSize < g.wsclient.recvLen + pusrdata.length then [.close g.wsclient.pespconn] else []
  (g.shaken handshake_1 handshake_2 pusrdata).bind fun (wssocket_ret, g) =>
    if wssocket_ret = 0 then
      (cstr g.wssocket_acceptBuf).map fun text =>
        ({ g with wsclient := { g.wsclient with recvLen := 0 } }, closed ++ [.write sock_fd text])
    else if wssocket_ret = 1 then
      (extract g.wsclient).map fun (wsclient, out) => ({ g with wsclient := wsclient }, closed ++ out)
    else some (g, closed)

/-- The callback in one piece. -/
theorem recv_cb_unfold (sock_fd : ℕ) (g : WSockServ) (pusrdata : Bytes) :
    websock_recv_cb handshake_1 handshake_2 sock_fd g pusrdata =
      let closed :=
        if recvCacheSize < g.wsclient.recvLen + pusrdata.length then [.close g.wsclient.pespconn] else []
      (store g.wsclient.recvCache g.wsclient.recvLen pusrdata).bind fun recvCache =>
        let recvLen := g.wsclient.recvLen + pusrdata.length
        (zhWebSockHandshake handshake_1 handshake_2 recvLen
            ⟨recvCache, g.wsclient.hs, g.wssocket_acceptBuf⟩).bind fun (wssocket_ret, h) =>
          if wssocket_ret = 0 then
            (cstr h.acceptBuf).map fun text =>
              (⟨⟨g.wsclient.pespconn, h.hs, h.recvbuf, 0⟩, h.acceptBuf⟩, closed ++ [.write sock_fd text])
          else if wssocket_ret = 1 then
            (extract ⟨g.wsclient.pespconn, h.hs, h.recvbuf, recvLen⟩).map fun (wsclient, out) =>
              (⟨wsclient, h.acceptBuf⟩, closed ++ out)
          else some (⟨⟨g.wsclient.pespconn, h.hs, h.recvbuf, recvLen⟩, h.acceptBuf⟩, closed) := by
  unfold websock_recv_cb WSockServ.shaken TzhWSockClient.cached
  cases store g.wsclient.recvCache g.wsclient.recvLen pusrdata with
  | none => rfl
  | some recvCache =>
    rw [Option.map_some, Option.bind_some, Option.bind_some, Option.bind_map]
    rfl

end Callback

/-! ## Text frames -/

/-- A masked client text frame in the minimal length form. -/
structure TextFrame where
  masks : Bytes
  payload : Bytes
  masks_length : masks.length = 4
  pos : 1 ≤ payload.length
  le : payload.length ≤ 900

/-- The length byte with the mask bit, and the two bytes of the 16-bit form. -/
def lengthForm (n : ℕ) : Bytes :=
  if n < 126 then [UInt8.ofNat (0x80 + n)] else [0x80 + 126, UInt8.ofNat (n / 256), UInt8.ofNat n]

def TextFrame.wire (f : TextFrame) : Bytes :=
  0x81 :: (lengthForm f.payload.length ++ f.masks ++ unmask f.masks f.payload)

/-- The message of a frame. -/
def TextFrame.message (f : TextFrame) : WSockOut := .recv (urlDecode f.payload)

theorem unmask_length (masks p : Bytes) : (unmask masks p).length = p.length := by
  rw [unmask, List.length_mapIdx]

/-- Masking twice is no masking. -/
theorem unmask_unmask (masks p : Bytes) : unmask masks (unmask masks p) = p := by
  refine List.ext_getElem? fun i => ?_
  unfold unmask
  rw [List.getElem?_mapIdx, List.getElem?_mapIdx]
  cases p[i]? with
  | none => rfl
  | some b => simp only [Option.map_some, UInt8.xor_assoc, UInt8.xor_self, UInt8.xor_zero]

/-- The size of the header in front of `n` payload bytes. -/
def headSize (n : ℕ) : ℕ := if n < 126 then 6 else 8

/-- The frame of any payload. -/
def clientFrame (masks p : Bytes) : Bytes := 0x81 :: (lengthForm p.length ++ masks ++ unmask masks p)

section ClientFrame

variable {masks p : Bytes}

/-- The frame is the header up to the masks, the masks and the masked payload. -/
theorem clientFrame_split : ∃ pre, clientFrame masks p = pre ++ (masks ++ unmask masks p) ∧
    pre.length + 4 = headSize p.length := by
  refine ⟨0x81 :: lengthForm p.length, ?_, ?_⟩
  · unfold clientFrame
    simp
  · unfold lengthForm headSize
    split_ifs <;> rfl

/-- The second byte of a frame never announces the 64-bit form, and what it announces is the payload
length, once the length bytes are there. -/
theorem clientFrame_header (hle : p.length ≤ 65535) :
    ∃ c1 t, clientFrame masks p = 0x81 :: c1 :: t ∧ c1 &&& 0x7f ≠ 127 ∧
      (∀ l, (header c1 l).1 = headSize p.length) ∧
      ∀ t' y, t' <+: t → (p.length < 126 ∨ 2 ≤ t'.length) → (header c1 (t' ++ y)).2 = p.length := by
  unfold clientFrame lengthForm headSize
  by_cases h : p.length < 126
  · have hcode : UInt8.ofNat (0x80 + p.length) &&& 0x7f = UInt8.ofNat p.length := by
      rw [← UInt8.toNat_inj, UInt8.toNat_and, UInt8.toNat_ofNat', UInt8.toNat_ofNat',
        show (0x7f : UInt8).toNat = 2 ^ 7 - 1 from rfl, Nat.and_two_pow_sub_one_eq_mod]
      omega
    have hn : (UInt8.ofNat p.length).toNat = p.length := by
      rw [UInt8.toNat_ofNat']
      omega
    have hne : ∀ k : UInt8, 126 ≤ k.toNat → UInt8.ofNat p.length ≠ k := by
      rintro k hk rfl
      omega
    refine ⟨_, masks ++ unmask masks p, by rw [if_pos h]; rfl, ?_, fun l => ?_, fun t' y _ _ => ?_⟩
    · rw [hcode]
      exact hne 127 (by decide)
    · rw [header, hcode, if_neg (hne 126 (by decide)), if_neg (hne 127 (by decide)), if_pos h]
    · rw [header, hcode, if_neg (hne 126 (by decide)), if_neg (hne 127 (by decide)), hn]
  · refine ⟨0x80 + 126, [UInt8.ofNat (p.length / 256), UInt8.ofNat p.length] ++ (masks ++ unmask masks p),
      by rw [if_neg h]; rfl, by decide, fun l => ?_, fun t' y ht' hlen => ?_⟩
    · rw [header, if_pos (by decide), if_neg h]
    · have h2 : 2 ≤ t'.length := by omega
      obtain ⟨s, hs⟩ := ht'
      have ha : ∀ i, i < 2 → (t' ++ y).getD i 0 =
          [UInt8.ofNat (p.length / 256), UInt8.ofNat p.length].getD i 0 := fun i hi => by
        rw [getD_append y (by omega), ← getD_append s (by omega), hs, getD_append _ hi]
      rw [header, if_pos (by decide)]
      dsimp only
      rw [be16_eq, ha 0 (by omega), ha 1 (by omega), List.getD_cons_zero, List.getD_cons_succ,
        List.getD_cons_zero, UInt8.toNat_ofNat', UInt8.toNat_ofNat']
      omega

variable (hm : masks.length = 4)

include hm

theorem clientFrame_length : (clientFrame masks p).length = headSize p.length + p.length := by
  unfold clientFrame lengthForm headSize
  rw [List.length_cons, List.length_append, List.length_append, hm, unmask_length]
  split_ifs <;> simp only [List.length_cons, List.length_nil] <;> omega

/-- The parser on a whole frame takes exactly this frame and unmasks its payload. -/
theorem method_2_frame (hle : p.length ≤ 65535) (y : Bytes) {len : ℕ} (hl : (clientFrame masks p).length ≤ len) :
    zhWebSockPackMethod_2 (clientFrame masks p ++ y) len =
      some ((clientFrame masks p).length, ⟨p, p.length⟩) := by
  have hlen := @clientFrame_length masks p hm
  have h8 : headSize p.length ≤ 8 ∧ (126 ≤ p.length → headSize p.length = 8) := by
    unfold headSize
    split_ifs <;> omega
  obtain ⟨pre, hpre, hprelen⟩ := @clientFrame_split masks p
  have hmasks : load (clientFrame masks p ++ y) (headSize p.length - 4) 4 = some masks := by
    have hdrop : (clientFrame masks p ++ y).drop pre.length = masks ++ (unmask masks p ++ y) := by
      rw [hpre, List.append_assoc, List.drop_left, List.append_assoc]
    rw [← hprelen, Nat.add_sub_cancel, ← hm]
    exact load_of_drop hdrop (List.ne_nil_of_length_pos (by rw [hm]; decide))
  have hbody : ((clientFrame masks p).drop (headSize p.length)).take p.length = unmask masks p := by
    rw [hpre, ← hprelen, ← hm, ← List.append_assoc, ← List.length_append, List.drop_left,
      ← unmask_length masks p, List.take_length]
  obtain ⟨c1, t, hw, -, h1, h2⟩ := @clientFrame_header masks p hle
  have hfit : 2 + t.length = (clientFrame masks p).length := by
    rw [hw, List.length_cons, List.length_cons]
    omega
  have hdata := h2 t y (List.prefix_refl t) (by omega)
  have hz : clientFrame masks p ++ y = 0x81 :: c1 :: (t ++ y) := by
    rw [hw]
    rfl
  have htake : takePayload (clientFrame masks p ++ y) len (headSize p.length) masks p.length =
      some (p.length + headSize p.length,
        ⟨unmask masks (((clientFrame masks p).drop (headSize p.length)).take p.length), p.length⟩) :=
    takePayload_whole masks y (by omega) (by omega) (by omega)
  rw [hbody, unmask_unmask] at htake
  rw [hz, method_2_eq, h1, hdata, ← hz, hmasks, Option.bind_some, htake, hlen, Nat.add_comm]

/-- A frame cut behind its second byte is waited for, whatever lies behind. -/
theorem method_2_frame_cut (hle : p.length ≤ 65535) {x : Bytes} (hx : x <+: clientFrame masks p)
    (hne : x ≠ clientFrame masks p) (h2 : 2 ≤ x.length) {rest : Bytes}
    (hsize : headSize p.length ≤ (x ++ rest).length) :
    zhWebSockPackMethod_2 (x ++ rest) x.length = some (0, .empty) := by
  have hlt : x.length < (clientFrame masks p).length :=
    lt_of_le_of_ne hx.length_le (fun h => hne (hx.eq_of_length h))
  have hlen := @clientFrame_length masks p hm
  obtain ⟨c1, t, hw, -, hh1, hh2⟩ := @clientFrame_header masks p hle
  obtain ⟨t', rfl, ht'⟩ : ∃ t', x = 0x81 :: c1 :: t' ∧ t' <+: t := by
    match x, h2 with
    | a :: b :: t', _ =>
      obtain ⟨s, hs⟩ := hx
      rw [hw] at hs
      simp only [List.cons_append, List.cons.injEq] at hs
      obtain ⟨rfl, rfl, hs⟩ := hs
      exact ⟨t', rfl, s, hs⟩
  simp only [List.length_cons, List.length_append] at hlt hsize ⊢
  have hhead : headSize p.length = 6 ∧ p.length < 126 ∨ headSize p.length = 8 ∧ 126 ≤ p.length := by
    unfold headSize
    split_ifs <;> omega
  rw [List.cons_append, List.cons_append, method_2_eq, hh1,
    load_of_le (by simp only [List.length_cons, List.length_append]; omega), Option.bind_some]
  by_cases hknown : p.length < 126 ∨ 2 ≤ t'.length
  · rw [hh2 t' rest ht' hknown]
    exact takePayload_wait _ (by omega) (by omega)
  · -- the length bytes are not there; the header alone is longer than what is
    have hb : (header c1 (t' ++ rest)).1 = 8 := by rw [hh1]; omega
    have hn : 0 ≤ (header c1 (t' ++ rest)).2 ∧ (header c1 (t' ++ rest)).2 < 65536 := by
      unfold header at hb ⊢
      split_ifs at hb ⊢
      · have := be16_lt (t' ++ rest)
        dsimp only
        omega
      · simp at hb
      · simp at hb
    exact takePayload_wait _ (by omega) (by omega)

end ClientFrame

theorem wire_pos (f : TextFrame) : 0 < f.wire.length := by
  unfold TextFrame.wire
  rw [List.length_cons]
  exact Nat.succ_pos _

theorem wire_header (f : TextFrame) :
    ∃ c1 t, f.wire = 0x81 :: c1 :: t ∧ c1 &&& 0x7f ≠ 127 ∧
      (∀ l, (header c1 l).1 = headSize f.payload.length) ∧
      ∀ t' y, t' <+: t → (f.payload.length < 126 ∨ 2 ≤ t'.length) →
        (header c1 (t' ++ y)).2 = f.payload.length :=
  clientFrame_header (f.le.trans (by decide))

theorem method_2_wire (f : TextFrame) (y : Bytes) {len : ℕ} (hl : f.wire.length ≤ len) :
    zhWebSockPackMethod_2 (f.wire ++ y) len = some (f.wire.length, ⟨f.payload, f.payload.length⟩) :=
  method_2_frame f.masks_length (f.le.trans (by decide)) y hl

theorem method_2_cut {f : TextFrame} {x : Bytes} (hx : x <+: f.wire) (hne : x ≠ f.wire) (h2 : 2 ≤ x.length)
    {rest : Bytes} (hsize : 8 ≤ (x ++ rest).length) :
    zhWebSockPackMethod_2 (x ++ rest) x.length = some (0, .empty) := by
  have h8 : headSize f.payload.length ≤ 8 := by
    unfold headSize
    split_ifs <;> omega
  exact method_2_frame_cut f.masks_length (f.le.trans (by decide)) hx hne h2 (h8.trans hsize)

/-- What is left in the cells behind a single first byte lets the parser wait. -/
def StaleSafe (recvCache : Bytes) : Prop :=
  recvCache.getD 1 0 &&& 0x7f = 127 →
    -13 < int32LE (recvCache.drop 2) ∧ int32LE (recvCache.drop 2) + 14 < 2 ^ 31

instance (recvCache : Bytes) : Decidable (StaleSafe recvCache) := inferInstanceAs (Decidable (_ → _))

/-- The parser on a single first byte reads a stale second byte: it waits, or the call is undefined. -/
theorem method_2_stale {rest : Bytes} (hsize : 14 ≤ (0x81 :: rest).length) :
    (StaleSafe (0x81 :: rest) → zhWebSockPackMethod_2 (0x81 :: rest) 1 = some (0, .empty)) ∧
    (¬ StaleSafe (0x81 :: rest) → zhWebSockPackMethod_2 (0x81 :: rest) 1 = none) := by
  obtain ⟨c1, l, rfl⟩ : ∃ c1 l, rest = c1 :: l :=
    List.exists_cons_of_ne_nil (by rintro rfl; simp at hsize)
  have h6 := header_fst_le c1 l
  have hdrop : (0x81 :: c1 :: l).drop 2 = l := rfl
  unfold StaleSafe
  rw [hdrop, List.getD_cons_succ, List.getD_cons_zero, method_2_eq,
    load_of_le (by omega), Option.bind_some]
  by_cases h127 : c1 &&& 0x7f = 127
  · rw [header_long h127]
    refine ⟨fun h => takePayload_wait _ ?_ ?_, fun h => ?_⟩
    · have := (h h127).1
      dsimp only
      omega
    · have := (h h127).2
      dsimp only
      omega
    · unfold takePayload
      by_cases hov : 2 ^ 31 ≤ int32LE l + (14 : ℕ)
      · rw [if_pos hov]
      · rw [if_neg hov]
        have hneg : int32LE l ≤ -13 := by
          by_contra hgt
          exact h (fun _ => ⟨by omega, by omega⟩)
        rw [if_neg (by dsimp only; omega), if_pos (by dsimp only; omega)]
  · refine ⟨fun _ => takePayload_wait _ ?_ ?_, fun h => absurd (fun hc => absurd hc h127) h⟩
    · unfold header
      split_ifs <;> (dsimp only; omega)
    · unfold header
      have := be16_lt l
      have := nCode_le c1
      split_ifs <;> (dsimp only; omega)

/-! ## One call -/

/-- What `extract` does with the result of the parser on the live bytes `x`. -/
theorem extract_eq {hs : TzhWebSocket} (hm : hs.method = .method_2) (fd : ℕ) (p q y rest : Bytes)
    {out : List WSockOut} {r : ℕ} {pk : Packet} (hx : p ++ q = 0x81 :: y)
    (hparse : zhWebSockPackMethod_2 (p ++ q ++ rest) (p ++ q).length = some (r, pk))
    (hout : received r pk = some out) (hr : r = p.length) :
    extract ⟨fd, hs, p ++ q ++ rest, (p ++ q).length⟩ =
      some (⟨fd, hs, q ++ (p ++ q ++ rest).drop q.length, q.length⟩, out) := by
  have hmark := packAt_marker (p := []) zhWebSockPackMethod_2 y rest
    (List.not_mem_nil (a := (0x81 : UInt8)))
  rw [List.nil_append, ← hx, hparse, Option.map_some] at hmark
  have hmove := moveDown_drop (x := p ++ q) rest (k := p.length)
    (by rw [List.length_append]; exact Nat.le_add_right _ _)
  have hq : (p ++ q).length - p.length = q.length := by
    rw [List.length_append, Nat.add_sub_cancel_left]
  rw [List.drop_left, hq] at hmove
  unfold extract
  dsimp only
  rw [hm]
  unfold zhWebSockRecvPack
  dsimp only
  rw [hmark, Option.bind_some]
  dsimp only
  rw [List.length_nil, Nat.zero_add, hout, Option.bind_some, hr,
    if_neg (by rw [List.length_append]; omega), hq, hmove]
  rfl

/-- Nothing extracted, nothing handed on. -/
theorem received_empty : received 0 .empty = some [] := by
  unfold received
  rw [store_of_le (Nat.zero_le _), Option.bind_some, if_neg (Nat.lt_irrefl 0)]

theorem received_frame (f : TextFrame) :
    received f.wire.length ⟨f.payload, f.payload.length⟩ = some [f.message] := by
  have hle := f.le
  have hst : store (List.replicate 1000 0) 0 f.payload =
      some ([] ++ f.payload ++ (List.replicate 1000 0).drop f.payload.length) :=
    @store_append [] (List.replicate 1000 0) f.payload (by rw [List.length_replicate]; omega)
  have hroom : (List.replicate 1000 (0 : UInt8)).drop f.payload.length ≠ [] := by
    refine List.ne_nil_of_length_pos ?_
    rw [List.length_drop, List.length_replicate]
    omega
  obtain ⟨str', hdec, htake⟩ := zhHttpUrlDecode_spec f.payload hroom
  unfold received
  dsimp only
  rw [hst, Option.bind_some, if_pos (wire_pos f), List.nil_append, hdec, Option.map_some]
  dsimp only
  rw [htake]
  rfl

/-- A whole frame in front: its message, and the cache starts with what followed it. -/
theorem extract_frame {hs : TzhWebSocket} (hm : hs.method = .method_2) (fd : ℕ) (f : TextFrame)
    (y rest : Bytes) :
    extract ⟨fd, hs, f.wire ++ y ++ rest, (f.wire ++ y).length⟩ =
      some (⟨fd, hs, y ++ (f.wire ++ y ++ rest).drop y.length, y.length⟩, [f.message]) := by
  obtain ⟨t, ht⟩ : ∃ t, f.wire ++ y = 0x81 :: t := ⟨_, rfl⟩
  refine extract_eq hm fd f.wire y t rest ht ?_ (received_frame f) rfl
  rw [List.append_assoc]
  exact method_2_wire f (y ++ rest) (by rw [List.length_append]; omega)

/-- A frame cut short stays where it is. -/
theorem extract_cut {hs : TzhWebSocket} (hm : hs.method = .method_2) (fd : ℕ) {f : TextFrame} {x : Bytes}
    (hx : x <+: f.wire) (hne : x ≠ f.wire) (hnil : x ≠ []) (rest : Bytes)
    (hsize : 14 ≤ (x ++ rest).length) (hstale : x.length = 1 → StaleSafe (x ++ rest)) :
    extract ⟨fd, hs, x ++ rest, x.length⟩ = some (⟨fd, hs, x ++ rest, x.length⟩, []) := by
  obtain ⟨b, t, rfl⟩ := List.exists_cons_of_ne_nil hnil
  obtain rfl : b = 0x81 := by
    obtain ⟨s, hs⟩ := hx
    unfold TextFrame.wire at hs
    rw [List.cons_append] at hs
    exact (List.cons.inj hs).1
  have hparse : zhWebSockPackMethod_2 (0x81 :: t ++ rest) (0x81 :: t).length = some (0, .empty) := by
    by_cases h2 : 2 ≤ (0x81 :: t).length
    · exact method_2_cut hx hne h2 (by omega)
    · obtain rfl : t = [] := List.eq_nil_of_length_eq_zero (by rw [List.length_cons] at h2; omega)
      exact (method_2_stale hsize).1 (hstale rfl)
  have := extract_eq hm fd [] (0x81 :: t) t rest rfl hparse received_empty rfl
  simpa using this

/-- What a callback needs of the globals on a connection past its handshake. -/
structure WSockServ.Ready (g : WSockServ) : Prop where
  method : g.wsclient.hs.method = .method_2
  cache : g.wsclient.recvCache.length = recvCacheSize

/-- The bytes that wait in the cache. -/
def WSockServ.live (g : WSockServ) : Bytes := g.wsclient.recvCache.take g.wsclient.recvLen

/-- The chunk fits behind the waiting bytes. -/
def Fits (g : WSockServ) (c : Bytes) : Prop := g.wsclient.recvLen + c.length ≤ recvCacheSize

instance (g : WSockServ) (c : Bytes) : Decidable (Fits g c) := inferInstanceAs (Decidable (_ ≤ _))

section Run

variable (handshake_1 handshake_2 : Handshake → Option (ℤ × Handshake)) (sock_fd : ℕ)

/-- Past the handshake a call stores the chunk and extracts. -/
theorem recv_cb_eq {g : WSockServ} (hg : g.Ready) {c : Bytes} (hc : Fits g c) :
    websock_recv_cb handshake_1 handshake_2 sock_fd g c =
      (extract ⟨g.wsclient.pespconn, g.wsclient.hs,
          g.live ++ c ++ g.wsclient.recvCache.drop (g.wsclient.recvLen + c.length),
          (g.live ++ c).length⟩).map fun r => (⟨r.1, g.wssocket_acceptBuf⟩, r.2) := by
  have hfit : g.wsclient.recvLen + c.length ≤ g.wsclient.recvCache.length := by
    rw [hg.cache]
    exact hc
  have hlen : (g.live ++ c).length = g.wsclient.recvLen + c.length := by
    rw [List.length_append, WSockServ.live, List.length_take, Nat.min_eq_left (by omega)]
  rw [recv_cb_unfold, if_neg (not_lt.mpr hc), store_of_le hfit, Option.bind_some]
  dsimp only
  unfold zhWebSockHandshake
  rw [if_pos (by rw [hg.method]; decide), Option.bind_some, hlen]
  rfl

/-- A call that is defined had room for its chunk and leaves the connection ready. -/
theorem recv_cb_ready {g g' : WSockServ} {c : Bytes} {out : List WSockOut} (hg : g.Ready)
    (h : websock_recv_cb handshake_1 handshake_2 sock_fd g c = some (g', out)) : g'.Ready ∧ Fits g c := by
  have hc : Fits g c := by
    rw [recv_cb_unfold] at h
    obtain ⟨m, hst, -⟩ := Option.bind_eq_some_iff.mp h
    have := (store_eq_some hst).1
    rwa [hg.cache] at this
  rw [recv_cb_eq handshake_1 handshake_2 sock_fd hg hc] at h
  obtain ⟨⟨w, o⟩, hext, h⟩ := Option.map_eq_some_iff.mp h
  simp only [Prod.mk.injEq] at h
  obtain ⟨rfl, rfl⟩ := h
  obtain ⟨⟨totle, p⟩, -, hext⟩ := Option.bind_eq_some_iff.mp hext
  obtain ⟨o', -, hext⟩ := Option.bind_eq_some_iff.mp hext
  dsimp only at hext
  split_ifs at hext
  obtain ⟨m, hm, hext⟩ := Option.map_eq_some_iff.mp hext
  simp only [Prod.mk.injEq] at hext
  obtain ⟨rfl, rfl⟩ := hext
  refine ⟨⟨hg.method, ?_⟩, hc⟩
  show m.length = recvCacheSize
  have := hg.cache
  have hcfit : g.wsclient.recvLen + c.length ≤ recvCacheSize := hc
  rw [moveDown_length hm, List.length_append, List.length_append, WSockServ.live, List.length_take,
    List.length_drop]
  omega

theorem live_append_length {g : WSockServ} (hg : g.Ready) {c : Bytes} (hc : Fits g c) :
    (g.live ++ c).length = g.wsclient.recvLen + c.length := by
  have hfit : g.wsclient.recvLen + c.length ≤ recvCacheSize := hc
  rw [List.length_append, WSockServ.live, List.length_take, hg.cache]
  omega

/-- The cache of the call: the waiting bytes, the chunk and old bytes, in the size of the cache. -/
theorem live_append_rest {g : WSockServ} (hg : g.Ready) {c : Bytes} (hc : Fits g c) :
    (g.live ++ c ++ g.wsclient.recvCache.drop (g.wsclient.recvLen + c.length)).length =
      recvCacheSize := by
  have hfit : g.wsclient.recvLen + c.length ≤ recvCacheSize := hc
  rw [List.length_append, live_append_length hg hc, List.length_drop, hg.cache]
  omega

/-- **A whole frame** in front of the waiting bytes and the chunk: one message; the rest waits. -/
theorem recv_cb_frame {g : WSockServ} (hg : g.Ready) {c : Bytes} (hc : Fits g c) {f : TextFrame} {y : Bytes}
    (hx : g.live ++ c = f.wire ++ y) :
    ∃ g', websock_recv_cb handshake_1 handshake_2 sock_fd g c = some (g', [f.message]) ∧ g'.Ready ∧
      g'.live = y ∧ g'.wsclient.recvLen = y.length ∧ (y = [] → StaleSafe g'.wsclient.recvCache) := by
  have hfit : g.wsclient.recvLen + c.length ≤ recvCacheSize := hc
  have hcb := recv_cb_eq handshake_1 handshake_2 sock_fd hg hc
  rw [hx, extract_frame hg.method _ f y, Option.map_some] at hcb
  refine ⟨_, hcb, (recv_cb_ready _ _ _ hg hcb).1, List.take_left, rfl, ?_⟩
  rintro rfl h127
  obtain ⟨c1, t, hw, hc1, -, -⟩ := wire_header f
  dsimp only at h127
  rw [List.append_nil, List.nil_append, List.length_nil, List.drop_zero, hw] at h127
  exact absurd h127 hc1

/-- **A frame cut short**: nothing happens but the storing, unless a single byte meets stale cells that
announce a 64-bit length out of range. -/
theorem recv_cb_cut {g : WSockServ} (hg : g.Ready) {c : Bytes} (hc : Fits g c) {f : TextFrame}
    (hx : g.live ++ c <+: f.wire) (hne : g.live ++ c ≠ f.wire) (hnil : c ≠ [])
    (hstale : g.wsclient.recvLen = 0 → c.length = 1 → StaleSafe g.wsclient.recvCache) :
    ∃ g', websock_recv_cb handshake_1 handshake_2 sock_fd g c = some (g', []) ∧ g'.Ready ∧
      g'.live = g.live ++ c ∧ g'.wsclient.recvLen = (g.live ++ c).length := by
  have hcb := recv_cb_eq handshake_1 handshake_2 sock_fd hg hc
  have hrest := live_append_rest hg hc
  have hone : (g.live ++ c).length = 1 →
      StaleSafe (g.live ++ c ++ g.wsclient.recvCache.drop (g.wsclient.recvLen + c.length)) := by
    intro h1
    have hpos := List.length_pos_iff.mpr hnil
    rw [live_append_length hg hc] at h1
    obtain ⟨h0, hc1⟩ : g.wsclient.recvLen = 0 ∧ c.length = 1 := by omega
    obtain ⟨b, rfl⟩ := List.length_eq_one_iff.mp hc1
    obtain ⟨a, l, hcache⟩ : ∃ a l, g.wsclient.recvCache = a :: l :=
      List.exists_cons_of_ne_nil (List.ne_nil_of_length_pos (by rw [hg.cache]; decide))
    have hsafe := hstale h0 rfl
    rw [hcache] at hsafe
    rw [WSockServ.live, h0, hcache]
    exact hsafe
  rw [extract_cut hg.method _ hx hne (by simp [hnil]) _ (by rw [hrest]; decide) hone,
    Option.map_some] at hcb
  exact ⟨_, hcb, (recv_cb_ready _ _ _ hg hcb).1, List.take_left, rfl⟩

/-- A single first byte that meets such cells makes the call undefined. -/
theorem recv_cb_stale {g g' : WSockServ} (hg : g.Ready) (h0 : g.wsclient.recvLen = 0) {out : List WSockOut}
    (h : websock_recv_cb handshake_1 handshake_2 sock_fd g [0x81] = some (g', out)) :
    StaleSafe g.wsclient.recvCache := by
  have hc := (recv_cb_ready _ _ _ hg h).2
  rw [recv_cb_eq handshake_1 handshake_2 sock_fd hg hc] at h
  obtain ⟨⟨w, o⟩, hext, -⟩ := Option.map_eq_some_iff.mp h
  obtain ⟨r, hr, -⟩ := Option.bind_eq_some_iff.mp hext
  obtain ⟨a, l, hcache⟩ : ∃ a l, g.wsclient.recvCache = a :: l :=
    List.exists_cons_of_ne_nil (List.ne_nil_of_length_pos (by rw [hg.cache]; decide))
  have hl : 14 ≤ (0x81 :: l).length := by
    have := hg.cache
    rw [hcache, List.length_cons] at this
    rw [List.length_cons, this]
    decide
  dsimp only at hr
  rw [hg.method, WSockServ.live, h0, hcache, List.take_zero, List.nil_append] at hr
  by_contra hunsafe
  have hmark := packAt_marker (p := []) zhWebSockPackMethod_2 [] l
    (List.not_mem_nil (a := (0x81 : UInt8)))
  rw [List.nil_append, show [(0x81 : UInt8)] ++ l = 0x81 :: l from rfl, List.length_singleton,
    (method_2_stale hl).2 (by rw [hcache] at hunsafe; exact hunsafe)] at hmark
  rw [zhWebSockRecvPack] at hr
  have : packAt 0x81 zhWebSockPackMethod_2 (0x81 :: l) 1 = some r := hr
  rw [hmark] at this
  cases this

/-- **A run** on the stream of the frames `fs`, of which `live` has arrived: each call takes at most one
frame. -/
theorem run_taken : ∀ (cs : List Bytes) (fs : List TextFrame) {g : WSockServ}, g.Ready →
    g.live.length = g.wsclient.recvLen → (∀ c ∈ cs, c ≠ []) →
    g.live ++ cs.flatten = (fs.map TextFrame.wire).flatten →
    (g.wsclient.recvLen = 0 → cs.head?.map List.length = some 1 → StaleSafe g.wsclient.recvCache) →
    AlongRun (websock_recv_cb handshake_1 handshake_2 sock_fd) Fits g cs →
    ∃ g', runChunks (websock_recv_cb handshake_1 handshake_2 sock_fd) g cs =
      some (g', (fs.take (taken (fs.map fun f => f.wire.length) g.wsclient.recvLen
        (cs.map List.length))).map TextFrame.message)
  | [], fs, g, _, _, _, _, _, _ => ⟨g, by simp [taken]⟩
  | c :: cs, [], g, _, _, hne, hS, _, _ => by
    simp only [List.map_nil, List.flatten_nil, List.flatten_cons, List.append_eq_nil_iff] at hS
    exact absurd hS.2.1 (hne c (List.mem_cons_self ..))
  | c :: cs, f :: fs, g, hg, hlive, hne, hS, hstale, hP => by
    have hc := hP.1
    have hnil := hne c (List.mem_cons_self ..)
    have hlen := live_append_length hg hc
    have hne' : ∀ c' ∈ cs, c' ≠ [] := fun c' h' => hne c' (List.mem_cons_of_mem _ h')
    rw [List.flatten_cons, List.map_cons, List.flatten_cons, ← List.append_assoc] at hS
    rw [List.map_cons, List.map_cons, taken]
    by_cases hle : f.wire.length ≤ g.wsclient.recvLen + c.length
    · obtain ⟨y, hy⟩ : ∃ y, g.live ++ c = f.wire ++ y := by
        have hpre := List.prefix_of_prefix_length_le (List.prefix_append f.wire _)
          (hS ▸ List.prefix_append (g.live ++ c) _) (by rw [hlen]; exact hle)
        obtain ⟨y, hy⟩ := hpre
        exact ⟨y, hy.symm⟩
      obtain ⟨g₁, hcb, hg₁, hl₁, hr₁, hs₁⟩ := recv_cb_frame handshake_1 handshake_2 sock_fd hg hc hy
      rw [hy, List.append_assoc] at hS
      have hylen : y.length = g.wsclient.recvLen + c.length - f.wire.length := by
        have := congrArg List.length hy
        rw [hlen, List.length_append] at this
        omega
      obtain ⟨g', hrun⟩ := run_taken cs fs hg₁ (by rw [hl₁, hr₁]) hne'
        (by rw [hl₁]; exact List.append_cancel_left hS)
        (fun h0 _ => hs₁ (List.eq_nil_of_length_eq_zero (hr₁ ▸ h0))) (hP.2 g₁ _ hcb)
      refine ⟨g', ?_⟩
      rw [runChunks_cons hcb, hrun, if_pos hle, List.take_succ_cons, List.map_cons, hr₁, hylen]
      rfl
    · have hpre := List.prefix_of_prefix_length_le (hS ▸ List.prefix_append (g.live ++ c) _)
        (List.prefix_append f.wire _) (by rw [hlen]; omega)
      have hcut : g.live ++ c ≠ f.wire := by
        intro h
        rw [← hlen, h] at hle
        exact hle le_rfl
      obtain ⟨g₁, hcb, hg₁, hl₁, hr₁⟩ := recv_cb_cut handshake_1 handshake_2 sock_fd hg hc hpre hcut hnil
        (fun h0 h1 => hstale h0 (by rw [List.head?_cons, Option.map_some, h1]))
      have hpos := List.length_pos_iff.mpr hnil
      obtain ⟨g', hrun⟩ := run_taken cs (f :: fs) hg₁ (by rw [hl₁, hr₁]) hne' (by rw [hl₁]; exact hS)
        (fun h0 _ => absurd h0 (by rw [hr₁, hlen]; omega)) (hP.2 g₁ _ hcb)
      refine ⟨g', ?_⟩
      rw [runChunks_cons hcb, hrun, if_neg hle, hr₁, hlen]
      rfl

omit handshake_1 handshake_2 sock_fd in
/-- All frames are taken iff the chunks behind any first ones suffice for the rest: the backlog lemma for the sizes of
frames. -/
theorem frames_taken_iff (fs : List TextFrame) (cs : List Bytes) :
    taken (fs.map fun f => f.wire.length) 0 (cs.map List.length) = fs.length ↔
      ∀ j, j ≤ cs.length → fs.length ≤
        completed (fs.map fun f => f.wire.length) (cs.take j).flatten.length + (cs.length - j) := by
  have hpos : ∀ l ∈ fs.map (fun f => f.wire.length), 0 < l := by
    intro l hl
    obtain ⟨f, -, rfl⟩ := List.mem_map.mp hl
    exact wire_pos f
  have h := taken_all_iff (cs.map List.length) hpos
  simp only [List.length_map] at h
  rw [h]
  refine forall_congr' fun j => imp_congr_right fun _ => ?_
  rw [← List.map_take, List.length_flatten]

/-- A run that starts with the marker alone has met harmless cells behind it. -/
theorem stale_of_run {g g' : WSockServ} {ms : List WSockOut} (hg : g.Ready) (h0 : g.wsclient.recvLen = 0)
    {fs : List TextFrame} {cs : List Bytes} (hS : cs.flatten = (fs.map TextFrame.wire).flatten)
    (hrun : runChunks (websock_recv_cb handshake_1 handshake_2 sock_fd) g cs = some (g', ms))
    (h1 : cs.head?.map List.length = some 1) : StaleSafe g.wsclient.recvCache := by
  cases cs with
  | nil => cases h1
  | cons c cs =>
    obtain ⟨b, rfl⟩ := List.length_eq_one_iff.mp (Option.some.inj h1)
    obtain rfl : b = 0x81 := by
      cases fs with
      | nil => cases hS
      | cons f fs => exact (List.cons.inj hS).1
    obtain ⟨g₁, ms₁, _, hcb, -, -⟩ := runChunks_cons_eq_some.mp hrun
    exact recv_cb_stale _ _ _ hg h0 hcb

/-- **Delivery of text frames**, past the handshake and from an empty cache: the messages are the decoded
payloads, each once and in order, exactly when every chunk fits into the cache, a lone first byte does
not meet stale cells that announce a 64-bit length out of range, and for every `j` the chunks behind the
first `j` are at least as many as the frames that do not lie whole inside these `j`. -/
theorem websock_delivers_iff {g : WSockServ} (hm : g.wsclient.hs.method = .method_2)
    (hcache : g.wsclient.recvCache.length = recvCacheSize) (h0 : g.wsclient.recvLen = 0)
    (fs : List TextFrame) (cs : List Bytes) (hS : cs.flatten = (fs.map TextFrame.wire).flatten)
    (hcs : ∀ c ∈ cs, 1 ≤ c.length ∧ c.length ≤ 128) :
    (∃ g', runChunks (websock_recv_cb handshake_1 handshake_2 sock_fd) g cs =
      some (g', fs.map TextFrame.message)) ↔
    (cs.head?.map List.length = some 1 → StaleSafe g.wsclient.recvCache) ∧
      AlongRun (websock_recv_cb handshake_1 handshake_2 sock_fd) Fits g cs ∧
      ∀ j, j ≤ cs.length → fs.length ≤
        completed (fs.map fun f => f.wire.length) (cs.take j).flatten.length + (cs.length - j) := by
  have hg : g.Ready := ⟨hm, hcache⟩
  have hlive : g.live = [] := by rw [WSockServ.live, h0, List.take_zero]
  have hne : ∀ c ∈ cs, c ≠ [] := fun c h => List.ne_nil_of_length_pos (hcs c h).1
  have hrun := fun hst hP => run_taken handshake_1 handshake_2 sock_fd cs fs hg
    (by rw [hlive, h0]; rfl) hne (by rw [hlive, List.nil_append]; exact hS) (fun _ => hst) hP
  have htake := taken_le (fs.map fun f => f.wire.length) 0 (cs.map List.length)
  rw [List.length_map] at htake
  constructor
  · rintro ⟨g', hdone⟩
    have hP : AlongRun (websock_recv_cb handshake_1 handshake_2 sock_fd) Fits g cs :=
      alongRun_of_run WSockServ.Ready (fun _ _ _ _ hI h => recv_cb_ready _ _ _ hI h) hg hdone
    have hst := stale_of_run handshake_1 handshake_2 sock_fd hg h0 hS hdone
    refine ⟨hst, hP, (frames_taken_iff fs cs).mp ?_⟩
    -- as many frames are taken as there are messages
    obtain ⟨g'', hrun'⟩ := hrun hst hP
    rw [hdone, h0] at hrun'
    simp only [Option.some.injEq, Prod.mk.injEq] at hrun'
    have hlength := congrArg List.length hrun'.2
    rw [List.length_map, List.length_map, List.length_take] at hlength
    omega
  · rintro ⟨hst, hP, hj⟩
    obtain ⟨g', hrun'⟩ := hrun hst hP
    rw [h0, (frames_taken_iff fs cs).mpr hj, List.take_length] at hrun'
    exact ⟨g', hrun'⟩

end Run

/-- A client right after its `METHOD_2` handshake. -/
def afterHandshake : WSockServ :=
  ⟨⟨3, ⟨.method_2, none, none, none, none, none, none, none, none⟩, List.replicate 2000 0, 0⟩, []⟩

/-- A frame with the payload `a`. -/
def frameA : TextFrame := ⟨[1, 2, 3, 4], [97], rfl, by decide, by decide⟩

theorem websock_delivers_one :
    (∃ g', runChunks (websock_recv_cb (fun _ => none) (fun _ => none) 3) afterHandshake
        [[0x81], [0x81, 1, 2, 3, 4, 96]] = some (g', [frameA].map TextFrame.message)) ↔
      ([[0x81], [0x81, 1, 2, 3, 4, 96]].head?.map List.length = some 1 →
        StaleSafe afterHandshake.wsclient.recvCache) ∧
      AlongRun (websock_recv_cb (fun _ => none) (fun _ => none) 3) Fits afterHandshake
        [[0x81], [0x81, 1, 2, 3, 4, 96]] ∧
      ∀ j, j ≤ [[0x81], [0x81, 1, 2, 3, 4, 96]].length → [frameA].length ≤
        completed ([frameA].map fun f => f.wire.length)
          (([[0x81], [0x81, 1, 2, 3, 4, 96]] : List Bytes).take j).flatten.length +
          ([[0x81], [0x81, 1, 2, 3, 4, 96]].length - j) :=
  websock_delivers_iff (fun _ => none) (fun _ => none) 3 rfl List.length_replicate rfl [frameA]
    [[0x81], [0x81, 1, 2, 3, 4, 96]] (by decide) (by decide)

/-- Two frames in one chunk: the second is left in the cache. -/
theorem websock_keeps_back :
    ¬ ∀ (g : WSockServ) (fs : List TextFrame) (cs : List Bytes), g.wsclient.hs.method = .method_2 →
      g.wsclient.recvCache.length = recvCacheSize → g.wsclient.recvLen = 0 →
      cs.flatten = (fs.map TextFrame.wire).flatten → (∀ c ∈ cs, 1 ≤ c.length ∧ c.length ≤ 128) →
      ∃ g', runChunks (websock_recv_cb (fun _ => none) (fun _ => none) 3) g cs =
        some (g', fs.map TextFrame.message) := by
  intro h
  obtain ⟨g', hrun⟩ := h afterHandshake [frameA, frameA] [frameA.wire ++ frameA.wire] rfl
    List.length_replicate rfl (by decide) (by decide)
  have hone : (runChunks (websock_recv_cb (fun _ => none) (fun _ => none) 3) afterHandshake
      [frameA.wire ++ frameA.wire]).map (fun r => r.2.length) = some 1 := by decide +kernel
  rw [hrun] at hone
  cases hone

end Esp32Base
