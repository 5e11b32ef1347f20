import Esp32Base.WebSock.Conn

/-!
# WebSock.Send — frames to the client (websocket.c, websocket_serv.c)

`zhWebSockSendData` frames a payload for the negotiated method, `websocket_send` encodes a message,
frames it and writes the frame.

* `zhWebSockSendData_frame`: where the length is set, the frame of the method is what was written.
* `method_1_round_trip`: an encoded message, framed, extracted and decoded, is the message.
* `websocket_send_frame_iff`: what is written is one frame iff the method has a length for it.
-/

namespace Esp32Base

open Lib Lib.Buf

/-! ## The code -/

/-- The memory of an `unsigned short`, low byte first. -/
def shortBytes (v : UInt16) : Bytes := [v.toUInt8, (v >>> 8).toUInt8]

/-- The block `sendData` after the call and `*dataLen`, which is `none` when it is not set. -/
def zhWebSockSendData (method : EzhWebSocketMethod) (sendBuf : Bytes) (sendLen : ℕ) (sendData : Bytes) :
    Option (Bytes × Option ℕ) :=
  match method with
  | .unknow => some (sendData, none)
  | .method_1 =>
    (store sendData 0 [0x00]).bind fun sendData =>
      (load sendBuf 0 sendLen).bind fun src =>
        (store sendData 1 src).bind fun sendData =>
          (store sendData (sendLen + 1) [0xFF]).map fun sendData => (sendData, some (sendLen + 2))
  | .method_2 =>
    if sendLen < 126 then
      (store sendData 0 [0x81]).bind fun sendData =>
        (store sendData 1 [UInt8.ofNat sendLen]).bind fun sendData =>
          (load sendBuf 0 sendLen).bind fun src =>
            (store sendData 2 src).map fun sendData => (sendData, some (sendLen + 2))
    else if sendLen ≤ 0xFFFF then
      let short_len := UInt16.ofNat sendLen
      let short_buf := shortBytes short_len
      let short_len := short_len <<< 8 ||| (short_buf.getD 1 0).toUInt16
      (store sendData 0 [0x81]).bind fun sendData =>
        (store sendData 1 [126]).bind fun sendData =>
          (store sendData 2 (shortBytes short_len)).bind fun sendData =>
            (load sendBuf 0 sendLen).bind fun src =>
              (store sendData 4 src).map fun sendData => (sendData, some (sendLen + 4))
    -- the 64-bit form is commented out
    else some (sendData, none)

/-- What `websocket_send` hands to `write`: the block and `sendDataLen`, `none` when it was never set.
The first `none` is an overflow of `len*3+255`, the second one a call that does not write. -/
def websocket_send (garbage garbage' : ℕ → UInt8) (isOpenWebsocketFunc : Bool) (g : WSockTasks)
    (buf : Bytes) : Option (Option (Bytes × Option ℕ)) :=
  if isOpenWebsocketFunc ∧ 0 < g.g_wsk_client_fd then
    if 2 ^ 31 ≤ buf.length * 3 + 255 then none
    else
      (zhHttpUrlEncode garbage buf).bind fun (pBuf, new_len) =>
        (zhWebSockSendData g.serv.wsclient.hs.method pBuf new_len
          (alloc garbage' (buf.length * 3 + 255))).map some
  else some none

/-! ## Frames -/

/-- The payload length of a server frame, in network byte order. -/
def rfcLength (n : ℕ) : Bytes :=
  if n < 126 then [UInt8.ofNat n]
  else if n < 2 ^ 16 then [126, UInt8.ofNat (n / 256), UInt8.ofNat n]
  else 127 :: (List.range 8).map fun i => UInt8.ofNat (n / 256 ^ (7 - i))

/-- The frame a server sends under a method; without a method there is none. -/
def serverFrame (method : EzhWebSocketMethod) (payload : Bytes) : Option Bytes :=
  match method with
  | .unknow => none
  | .method_1 => some (0x00 :: payload ++ [0xFF])
  | .method_2 => some (0x81 :: rfcLength payload.length ++ payload)

/-- The methods and payload lengths that `zhWebSockSendData` has a length for. -/
def HasLength (method : EzhWebSocketMethod) (n : ℕ) : Prop :=
  method ≠ .unknow ∧ (method = .method_2 → n ≤ 0xFFFF)

theorem shortBytes_ofNat {n : ℕ} (h : n < 2 ^ 16) :
    shortBytes (UInt16.ofNat n) = [UInt8.ofNat n, UInt8.ofNat (n / 256)] := by
  have hv : (UInt16.ofNat n).toNat = n := UInt16.toNat_ofNat_of_lt' h
  refine congrArg₂ (fun a b => [a, b]) ?_ ?_
  · rw [← UInt8.toNat_inj, UInt16.toNat_toUInt8, hv, UInt8.toNat_ofNat']
  · rw [← UInt8.toNat_inj, UInt16.toNat_toUInt8, UInt16.toNat_shiftRight, hv, UInt8.toNat_ofNat']
    rw [show (8 : UInt16).toNat % 16 = 8 from rfl, Nat.shiftRight_eq_div_pow]

/-- The source's byte swap, on numbers. -/
theorem swap_eq {n : ℕ} (h : n < 2 ^ 16) :
    UInt16.ofNat n <<< 8 ||| ((shortBytes (UInt16.ofNat n)).getD 1 0).toUInt16 =
      UInt16.ofNat (n % 256 * 256 + n / 256) := by
  have hq : n / 256 < 2 ^ 8 := by omega
  rw [shortBytes_ofNat h, ← UInt16.toNat_inj, UInt16.toNat_or, UInt16.toNat_shiftLeft,
    UInt16.toNat_ofNat_of_lt' h, UInt16.toNat_ofNat']
  rw [show (8 : UInt16).toNat % 16 = 8 from rfl]
  show n <<< 8 % 2 ^ 16 ||| (UInt8.ofNat (n / 256)).toUInt16.toNat = _
  rw [UInt8.toNat_toUInt16, UInt8.toNat_ofNat_of_lt' hq, Nat.shiftLeft_eq,
    show n * 2 ^ 8 % 2 ^ 16 = (n % 256) <<< 8 by rw [Nat.shiftLeft_eq]; omega,
    ← Nat.shiftLeft_add_eq_or_of_lt hq, Nat.shiftLeft_eq]
  omega

/-- The swapped length lies in memory with its high byte first. -/
theorem shortBytes_swap {n : ℕ} (h : n < 2 ^ 16) :
    shortBytes (UInt16.ofNat n <<< 8 ||| ((shortBytes (UInt16.ofNat n)).getD 1 0).toUInt16) =
      [UInt8.ofNat (n / 256), UInt8.ofNat n] := by
  rw [swap_eq h, shortBytes_ofNat (by omega), ← UInt8.ofNat_mod_size (x := n)]
  have h1 : (n % 256 * 256 + n / 256) / 256 = n % 256 := by omega
  have h2 : UInt8.ofNat (n % 256 * 256 + n / 256) = UInt8.ofNat (n / 256) := by
    rw [← UInt8.toNat_inj, UInt8.toNat_ofNat', UInt8.toNat_ofNat']
    omega
  rw [h1, h2]

/-- The next write behind what has been written. -/
theorem store_next (p : Bytes) (off : ℕ) {rest src : Bytes} (ho : off = p.length) (h : src.length ≤ rest.length) :
    store (p ++ rest) off src = some (p ++ src ++ rest.drop src.length) :=
  ho ▸ store_append h

/-- Where there is a length for it, the frame of the method is written and its length set. -/
theorem zhWebSockSendData_frame {method : EzhWebSocketMethod} {payload room : Bytes} (behind : Bytes)
    (h : HasLength method payload.length) (hr : payload.length + 4 ≤ room.length) :
    ∃ frame tail, serverFrame method payload = some frame ∧
      zhWebSockSendData method (payload ++ behind) payload.length room =
        some (frame ++ tail, some frame.length) := by
  have hload : load (payload ++ behind) 0 payload.length = some payload := by
    rw [load_append behind (by omega), load_of_le (by omega), List.drop_zero, List.take_length]
  have h0 : ∀ c : UInt8, store room 0 [c] = some ([c] ++ room.drop 1) := fun c =>
    store_next [] 0 rfl (by rw [List.length_singleton]; omega)
  cases method with
  | unknow => exact absurd rfl h.1
  | method_1 =>
    refine ⟨0x00 :: payload ++ [0xFF], ((room.drop 1).drop payload.length).drop 1, rfl, ?_⟩
    rw [zhWebSockSendData, h0, Option.bind_some, hload, Option.bind_some,
      store_next [0x00] 1 rfl (by rw [List.length_drop]; omega), Option.bind_some,
      store_next ([0x00] ++ payload) (payload.length + 1) (by simp) (by simp; omega)]
    simp
  | method_2 =>
    rw [zhWebSockSendData, serverFrame]
    by_cases h126 : payload.length < 126
    · refine ⟨_, ((room.drop 1).drop 1).drop payload.length, rfl, ?_⟩
      rw [if_pos h126, h0, Option.bind_some, store_next [0x81] 1 rfl (by simp; omega),
        Option.bind_some, hload, Option.bind_some,
        store_next ([0x81] ++ [UInt8.ofNat payload.length]) 2 rfl (by simp; omega), rfcLength,
        if_pos h126]
      simp
    · have h16 : payload.length < 2 ^ 16 := Nat.lt_succ_of_le (h.2 rfl)
      refine ⟨_, (((room.drop 1).drop 1).drop 2).drop payload.length, rfl, ?_⟩
      rw [if_neg h126, if_pos (h.2 rfl)]
      simp only [shortBytes_swap h16]
      rw [h0, Option.bind_some, store_next [0x81] 1 rfl (by simp; omega), Option.bind_some,
        store_next ([0x81] ++ [126]) 2 rfl (by simp; omega), Option.bind_some, hload,
        Option.bind_some,
        store_next ([0x81] ++ [126] ++ [UInt8.ofNat (payload.length / 256), UInt8.ofNat payload.length])
          4 rfl (by simp; omega), rfcLength, if_neg h126, if_pos h16]
      simp

/-- Elsewhere nothing is written and the length is not set. -/
theorem zhWebSockSendData_unset {method : EzhWebSocketMethod} {n : ℕ} (sendBuf sendData : Bytes)
    (h : ¬ HasLength method n) : zhWebSockSendData method sendBuf n sendData = some (sendData, none) := by
  cases method with
  | unknow => rfl
  | method_1 => exact absurd ⟨by simp, by simp⟩ h
  | method_2 =>
    have hn : ¬ n ≤ 0xFFFF := fun hn => h ⟨by simp, fun _ => hn⟩
    rw [zhWebSockSendData, if_neg (by omega), if_neg hn]

/-! ## Sending and receiving -/

/-- **The `METHOD_1` round trip.** The encoded message, framed and followed by anything, is extracted
as one packet that takes the frame and nothing else, and decodes to the message. -/
theorem method_1_round_trip (garbage garbage' : ℕ → UInt8) (m rest : Bytes) :
    ∃ pBuf new_len sendData dataLen packet str,
      zhHttpUrlEncode garbage m = some (pBuf, new_len) ∧
      zhWebSockSendData .method_1 pBuf new_len (alloc garbage' (m.length * 3 + 255)) =
        some (sendData, some dataLen) ∧
      zhWebSockRecvPack .method_1 (sendData.take dataLen ++ rest) (dataLen + rest.length) =
        some (dataLen, ⟨0, dataLen, packet⟩) ∧
      zhHttpUrlDecode packet.bytes packet.nPacket = some (str, m.length) ∧ str.take m.length = m := by
  have hle := urlEncode_length_le m
  obtain ⟨behind, henc⟩ := zhHttpUrlEncode_spec garbage m
  have hl : HasLength .method_1 (urlEncode m).length := ⟨by simp, by simp⟩
  have hroom : (urlEncode m).length + 4 ≤ (alloc garbage' (m.length * 3 + 255)).length := by
    rw [alloc_length]
    omega
  obtain ⟨frame, tail, hf, hsend⟩ := zhWebSockSendData_frame (0 :: behind) hl hroom
  obtain rfl := Option.some.inj hf
  obtain ⟨str, hdec, htake⟩ := zhHttpUrlDecode_spec (urlEncode m) (List.cons_ne_nil 0 [])
  rw [urlDecode_urlEncode] at hdec htake
  refine ⟨_, _, _, _, ⟨urlEncode m ++ [0], (urlEncode m).length⟩, str, henc, hsend, ?_, hdec, htake⟩
  have hlen : (0x00 :: urlEncode m ++ [0xFF]).length = (urlEncode m).length + 2 := by simp
  have hpack : zhWebSockPackMethod_1 (0x00 :: urlEncode m ++ 0xFF :: rest)
      ((urlEncode m).length + 2 + rest.length) =
        some ((urlEncode m).length + 2, ⟨urlEncode m ++ [0], (urlEncode m).length⟩) :=
    method_1_found rest (notMem_urlEncode (by decide) m) (by omega)
  rw [List.take_left, hlen, zhWebSockRecvPack, packAt]
  have hcache : 0x00 :: urlEncode m ++ [0xFF] ++ rest = 0x00 :: urlEncode m ++ 0xFF :: rest := by simp
  have hfind : findByte 0x00 (0x00 :: urlEncode m ++ 0xFF :: rest)
      ((urlEncode m).length + 2 + rest.length) = some 0 :=
    findByte_of_append (p := []) (urlEncode m ++ 0xFF :: rest) (by simp) (by rw [List.length_nil]; omega)
  rw [hcache, hfind, Option.bind_some, if_neg (by omega), List.drop_zero, hpack]
  simp

/-! ## Writing to the client -/

/-- The call writes one whole frame of the client's method around the encoded message. -/
def FrameSent (garbage garbage' : ℕ → UInt8) (g : WSockTasks) (buf : Bytes) : Prop :=
  ∃ sendData n frame, websocket_send garbage garbage' true g buf = some (some (sendData, some n)) ∧
    serverFrame g.serv.wsclient.hs.method (urlEncode buf) = some frame ∧ sendData.take n = frame ∧
    n = frame.length

/-- A message is sent as one frame exactly when the client has completed a handshake, `len*3+255` fits
an `int`, and under `METHOD_2` the encoded message has at most 65535 bytes. -/
theorem websocket_send_frame_iff (garbage garbage' : ℕ → UInt8) {g : WSockTasks}
    (hfd : 0 < g.g_wsk_client_fd) (buf : Bytes) :
    FrameSent garbage garbage' g buf ↔
      buf.length * 3 + 255 < 2 ^ 31 ∧ g.serv.wsclient.hs.method ≠ .unknow ∧
        (g.serv.wsclient.hs.method = .method_2 → (urlEncode buf).length ≤ 0xFFFF) := by
  have hle := urlEncode_length_le buf
  obtain ⟨behind, henc⟩ := zhHttpUrlEncode_spec garbage buf
  unfold FrameSent
  rw [websocket_send, if_pos ⟨rfl, hfd⟩]
  by_cases hov : buf.length * 3 + 255 < 2 ^ 31
  · rw [if_neg (by omega), henc]
    simp only [Option.bind_some]
    by_cases hl : HasLength g.serv.wsclient.hs.method (urlEncode buf).length
    · have hroom : (urlEncode buf).length + 4 ≤ (alloc garbage' (buf.length * 3 + 255)).length := by
        rw [alloc_length]
        omega
      obtain ⟨frame, tail, hf, hsend⟩ := zhWebSockSendData_frame (0 :: behind) hl hroom
      refine iff_of_true ⟨frame ++ tail, frame.length, frame, ?_, hf, List.take_left, rfl⟩ ⟨hov, hl⟩
      rw [hsend]
      rfl
    · refine iff_of_false ?_ fun h => hl h.2
      rintro ⟨sendData, n, frame, h, -⟩
      rw [zhWebSockSendData_unset _ _ hl] at h
      simp at h
  · refine iff_of_false ?_ fun h => hov h.1
    rintro ⟨sendData, n, frame, h, -⟩
    rw [if_pos (by omega)] at h
    cases h

theorem websocket_send_frame_handshaken :
    FrameSent (fun _ => 0) (fun _ => 0)
      ⟨3, ⟨⟨3, { zhWebSockInit with method := .method_2 }, [], 0⟩, []⟩⟩ [97] :=
  (websocket_send_frame_iff _ _ (by decide) [97]).mpr ⟨by decide, by decide, fun _ => by decide⟩

/-- A client that has only connected: the length handed to `write` was never set. -/
theorem websocket_send_unset :
    ∃ g, wsockRun (fun _ => none) (fun _ => none) wsockBoot [.accept 3] = some g ∧
      (∃ sendData, websocket_send (fun _ => 0) (fun _ => 0) true g [97] = some (some (sendData, none))) ∧
      ¬ FrameSent (fun _ => 0) (fun _ => 0) g [97] := by
  refine ⟨_, rfl, ⟨_, rfl⟩, ?_⟩
  rintro ⟨sendData, n, frame, h, -⟩
  cases h

end Esp32Base
