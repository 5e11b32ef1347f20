import Esp32Base.Lib.CText
import Esp32Base.Lib.Varint
import Esp32Base.WebSock.Pack

/-!
# Mqtt.Msg — messages in a buffer (mqtt_msg.c)

A message is put together behind three bytes that are kept for its header, in the one buffer of a connection; what
arrives is taken apart where it was read.

* `Building`: what stands in the buffer while a message is put together.
* `append_building`, `fini_building`: a part that is appended, and the header in front of all of them.
-/

namespace Esp32Base

open Lib Lib.Buf Lib.CText

/-! ## Building -/

/-- `enum mqtt_message_type`. -/
inductive MqttType
  | connect | connack | publish | puback | pubrec | pubrel | pubcomp | subscribe | suback | unsubscribe | unsuback
  | pingreq | pingresp | disconnect
  deriving DecidableEq

def MqttType.code : MqttType → ℕ
  | .connect => 1 | .connack => 2 | .publish => 3 | .puback => 4 | .pubrec => 5 | .pubrel => 6 | .pubcomp => 7
  | .subscribe => 8 | .suback => 9 | .unsubscribe => 10 | .unsuback => 11 | .pingreq => 12 | .pingresp => 13
  | .disconnect => 14

/-- The types in the order of their numbers. -/
def mqttTypes : List MqttType :=
  [.connect, .connack, .publish, .puback, .pubrec, .pubrel, .pubcomp, .subscribe, .suback, .unsubscribe, .unsuback,
    .pingreq, .pingresp, .disconnect]

/-- The type of a number, none for 0 and 15. -/
def MqttType.ofCode (n : ℕ) : Option MqttType := mqttTypes.find? fun t => t.code = n

/-- `mqtt_connection_t`; `data` is where `message.data` points to in the buffer, `length` is `message.length`. -/
structure MqttConnection where
  buffer : Bytes
  buffer_length : ℕ
  data : ℕ
  length : ℕ

/-- The bytes of the message. -/
def MqttConnection.message (connection : MqttConnection) : Bytes :=
  (connection.buffer.drop connection.data).take connection.length

def mqtt_msg_init (buffer : Bytes) (buffer_length : ℕ) : MqttConnection := ⟨buffer, buffer_length, 0, 0⟩

/-- The high byte in front. -/
def word16 (n : ℕ) : Bytes := [UInt8.ofNat (n / 256), UInt8.ofNat n]

/-- The check for room, which is the same in front of whatever is appended; the inner `none` is a failure. -/
def append (connection : MqttConnection) (part : Bytes) : Option (Option MqttConnection) :=
  if connection.buffer_length < connection.length + part.length then some none
  else (store connection.buffer connection.length part).map fun buffer =>
    some { connection with buffer := buffer, length := connection.length + part.length }

def append_string (connection : MqttConnection) (string : Bytes) : Option (Option MqttConnection) :=
  append connection (word16 string.length ++ string)

/-- `drawn` is the first value of `platform_random` that is not 0. -/
def append_message_id (connection : MqttConnection) (message_id drawn : ℕ) : Option (Option (ℕ × MqttConnection)) :=
  let message_id := if message_id = 0 then drawn else message_id
  (append connection (word16 message_id)).map fun r => r.map fun connection => (message_id, connection)

def init_message (connection : MqttConnection) : MqttConnection := { connection with length := 3 }

def fail_message (connection : MqttConnection) : MqttConnection := { connection with data := 0, length := 0 }

/-- The first byte of a message. -/
def headerByte (type dup qos retain : ℕ) : UInt8 :=
  ((UInt8.ofNat type &&& (0x0f : UInt8)) <<< 4) ||| ((UInt8.ofNat dup &&& (1 : UInt8)) <<< 3) |||
    ((UInt8.ofNat qos &&& (3 : UInt8)) <<< 1) ||| (UInt8.ofNat retain &&& (1 : UInt8))

def fini_message (connection : MqttConnection) (type : MqttType) (dup qos retain : ℕ) :
    Option MqttConnection :=
  let remaining_length := connection.length - 3
  if 127 < remaining_length then
    (store connection.buffer 0 [headerByte type.code dup qos retain, 0x80 ||| UInt8.ofNat (remaining_length % 128),
        UInt8.ofNat (remaining_length / 128)]).map fun buffer =>
      { connection with buffer := buffer, length := remaining_length + 3, data := 0 }
  else
    (store connection.buffer 1 [headerByte type.code dup qos retain, UInt8.ofNat remaining_length]).map fun buffer =>
      { connection with buffer := buffer, length := remaining_length + 2, data := 1 }

/-- `if (append(..) fails) return fail_message(connection)`. -/
def orFail (connection : MqttConnection) (r : Option (Option MqttConnection))
    (k : MqttConnection → Option MqttConnection) : Option MqttConnection :=
  r.bind fun r =>
    match r with
    | none => some (fail_message connection)
    | some connection => k connection

/-- `mqtt_connect_info_t`; NULL is `none`, and the will's message has `will_length` bytes. -/
structure MqttConnectInfo where
  client_id : Option Bytes
  username : Option Bytes
  password : Option Bytes
  will_topic : Option Bytes
  will_message : Bytes
  keepalive : ℕ
  will_qos : ℕ
  will_retain : Bool
  clean_session : Bool
  deriving DecidableEq

/-- A string that is not NULL and not empty. -/
def present : Option Bytes → Option Bytes
  | some (c :: s) => some (c :: s)
  | _ => none

/-- `variable_header->flags |= flag`, behind the nine bytes of the protocol's name and version. -/
def orFlags (connection : MqttConnection) (flag : UInt8) : Option MqttConnection :=
  (connection.buffer[12]?).bind fun flags =>
    (store connection.buffer 12 [flags ||| flag]).map fun buffer => { connection with buffer := buffer }

/-- A field of the payload and its flag. -/
def appendField (connection : MqttConnection) (field : Option Bytes) (flag : UInt8)
    (k : MqttConnection → Option MqttConnection) : Option MqttConnection :=
  match present field with
  | none => k connection
  | some s => orFail connection (append_string connection s) fun connection => (orFlags connection flag).bind k

/-- The will's flags; its two strings are appended without a check that the message is there. -/
def appendWill (connection : MqttConnection) (info : MqttConnectInfo) (k : MqttConnection → Option MqttConnection) :
    Option MqttConnection :=
  match present info.will_topic with
  | none => k connection
  | some s =>
    orFail connection (append_string connection s) fun connection =>
      orFail connection (append_string connection info.will_message) fun connection =>
        (orFlags connection 0x04).bind fun connection =>
          (if info.will_retain then orFlags connection 0x20 else some connection).bind fun connection =>
            (orFlags connection ((UInt8.ofNat info.will_qos &&& (3 : UInt8)) <<< 3)).bind k

/-- `CONFIG_MQTT_PROTOCOL_311` is not defined (`mqtt_config.h` has `MQTT_PROTOCOL_311`). -/
def mqtt_msg_connect (connection : MqttConnection) (info : MqttConnectInfo) : Option MqttConnection :=
  let connection := init_message connection
  orFail connection (append connection
      ([0, 6] ++ ascii "MQIsdp" ++ [3, if info.clean_session then 0x02 else 0] ++ word16 info.keepalive))
    fun connection =>
      match present info.client_id with
      | none => some (fail_message connection)
      | some client_id =>
        orFail connection (append_string connection client_id) fun connection =>
          appendWill connection info fun connection =>
            appendField connection info.username 0x80 fun connection =>
              appendField connection info.password 0x40 fun connection =>
                fini_message connection .connect 0 0 0

/-- What `*message_id` is set to, and the message. -/
def mqtt_msg_publish (connection : MqttConnection) (topic : Option Bytes) (data : Bytes)
    (qos retain message_id drawn : ℕ) : Option (ℕ × MqttConnection) :=
  let connection := init_message connection
  match present topic with
  | none => some (message_id, fail_message connection)
  | some topic =>
    (append_string connection topic).bind fun r =>
      match r with
      | none => some (message_id, fail_message connection)
      | some connection =>
        if 0 < qos then
          (append_message_id connection 0 drawn).bind fun r =>
            match r with
            | none => some (0, fail_message connection)
            | some (message_id, connection) =>
              (orFail connection (append connection data) fun connection =>
                fini_message connection .publish 0 qos retain).map fun connection => (message_id, connection)
        else
          (orFail connection (append connection data) fun connection =>
            fini_message connection .publish 0 qos retain).map fun connection => (0, connection)

/-- The four acknowledgements. -/
def mqtt_msg_ack (type : MqttType) (qos : ℕ) (connection : MqttConnection) (message_id drawn : ℕ) :
    Option MqttConnection :=
  let connection := init_message connection
  (append_message_id connection message_id drawn).bind fun r =>
    match r with
    | none => some (fail_message connection)
    | some (_, connection) => fini_message connection type 0 qos 0

def mqtt_msg_puback := mqtt_msg_ack .puback 0
def mqtt_msg_pubrec := mqtt_msg_ack .pubrec 0
def mqtt_msg_pubrel := mqtt_msg_ack .pubrel 1
def mqtt_msg_pubcomp := mqtt_msg_ack .pubcomp 0

def mqtt_msg_subscribe (connection : MqttConnection) (topic : Option Bytes) (qos : ℕ) (message_id drawn : ℕ) :
    Option (ℕ × MqttConnection) :=
  let connection := init_message connection
  match present topic with
  | none => some (message_id, fail_message connection)
  | some topic =>
    (append_message_id connection 0 drawn).bind fun r =>
      match r with
      | none => some (0, fail_message connection)
      | some (message_id, connection) =>
        (orFail connection (append_string connection topic) fun connection =>
          orFail connection (append connection [UInt8.ofNat qos]) fun connection =>
            fini_message connection .subscribe 0 1 0).map fun connection => (message_id, connection)

def mqtt_msg_unsubscribe (connection : MqttConnection) (topic : Option Bytes) (message_id drawn : ℕ) :
    Option (ℕ × MqttConnection) :=
  let connection := init_message connection
  match present topic with
  | none => some (message_id, fail_message connection)
  | some topic =>
    (append_message_id connection 0 drawn).bind fun r =>
      match r with
      | none => some (0, fail_message connection)
      | some (message_id, connection) =>
        (orFail connection (append_string connection topic) fun connection =>
          fini_message connection .unsubscribe 0 1 0).map fun connection => (message_id, connection)

/-- The messages without a body. -/
def mqtt_msg_bare (type : MqttType) (connection : MqttConnection) : Option MqttConnection :=
  fini_message (init_message connection) type 0 0 0

def mqtt_msg_pingreq := mqtt_msg_bare .pingreq
def mqtt_msg_pingresp := mqtt_msg_bare .pingresp
def mqtt_msg_disconnect := mqtt_msg_bare .disconnect

/-! ## Taking apart -/

def mqtt_get_type (buffer : Bytes) : Option ℕ := buffer[0]?.map fun c => ((c &&& (0xf0 : UInt8)) >>> 4).toNat
def mqtt_get_connect_return_code (buffer : Bytes) : Option ℕ := buffer[3]?.map fun c => c.toNat
def mqtt_get_dup (buffer : Bytes) : Option ℕ := buffer[0]?.map fun c => ((c &&& (0x08 : UInt8)) >>> 3).toNat
def mqtt_get_qos (buffer : Bytes) : Option ℕ := buffer[0]?.map fun c => ((c &&& (0x06 : UInt8)) >>> 1).toNat
def mqtt_get_retain (buffer : Bytes) : Option ℕ := buffer[0]?.map fun c => (c &&& (0x01 : UInt8)).toNat

/-- The loop over the bytes of the length: `totlen` and `i` behind it. A shift by 32 or more and a sum that an `int`
cannot hold are undefined. -/
def lengthLoop : Bytes → ℕ → ℕ → Option (ℕ × ℕ)
  | [], k, totlen => some (totlen, k + 1)
  | c :: rest, k, totlen =>
    if 5 ≤ k ∨ 2 ^ 31 ≤ totlen + (c &&& 0x7f).toNat <<< (7 * k) then none
    else if c &&& 0x80 = 0 then some (totlen + (c &&& 0x7f).toNat <<< (7 * k), k + 2)
    else lengthLoop rest (k + 1) (totlen + (c &&& 0x7f).toNat <<< (7 * k))

/-- The length of the message as it is announced, and where its body starts. -/
def announced (buffer : Bytes) (length : ℕ) : Option (ℕ × ℕ) :=
  (load buffer 0 length).bind fun b =>
    (lengthLoop (b.drop 1) 0 0).bind fun (totlen, i) => if totlen + i < 2 ^ 31 then some (totlen + i, i) else none

def mqtt_get_total_length (buffer : Bytes) (length : ℕ) : Option ℕ := (announced buffer length).map (·.1)

/-- Where the topic stands and what `*length` is set to; NULL leaves `*length`. -/
def mqtt_get_publish_topic (buffer : Bytes) (length : ℕ) : Option (Option ℕ × ℕ) :=
  (announced buffer length).bind fun (_, i) =>
    if length ≤ i + 2 then some (none, length)
    else
      (load buffer i 2).map fun b =>
        if length < i + 2 + be16 b then (none, length) else (some (i + 2), be16 b)

def mqtt_get_publish_data (buffer : Bytes) (length : ℕ) : Option (Option ℕ × ℕ) :=
  (announced buffer length).bind fun (totlen, i) =>
    if length ≤ i + 2 then some (none, 0)
    else
      (load buffer i 2).bind fun b =>
        let i := i + 2 + be16 b
        if length ≤ i then some (none, 0)
        else
          (mqtt_get_qos buffer).map fun qos =>
            if 0 < qos ∧ length ≤ i + 2 then (none, 0)
            else
              let i := if 0 < qos then i + 2 else i
              if totlen < i then (none, 0)
              else (some i, if totlen ≤ length then totlen - i else length - i)

/-- The loop that only looks for the end of the length. -/
def skipLoop : Bytes → ℕ → ℕ
  | [], i => i
  | c :: rest, i => if c &&& 0x80 = 0 then i + 1 else skipLoop rest (i + 1)

/-- The identifier of a PUBLISH. -/
def publishId (buffer : Bytes) (length : ℕ) : Option ℕ :=
  (load buffer 0 length).bind fun b =>
    let i := skipLoop (b.drop 1) 1
    if length ≤ i + 2 then some 0
    else
      (load buffer i 2).bind fun t =>
        let i := i + 2 + be16 t
        if length ≤ i then some 0
        else
          (mqtt_get_qos buffer).bind fun qos =>
            if qos = 0 ∨ length ≤ i + 2 then some 0 else (load buffer i 2).map be16

/-- SUBSCRIBE is among the types with an identifier, UNSUBSCRIBE is not. -/
def mqtt_get_id (buffer : Bytes) (length : ℕ) : Option ℕ :=
  if length < 1 then some 0
  else
    (mqtt_get_type buffer).bind fun type =>
      match MqttType.ofCode type with
      | some .publish => publishId buffer length
      | some .puback | some .pubrec | some .pubrel | some .pubcomp | some .suback | some .unsuback
      | some .subscribe =>
        if 4 ≤ length then
          (load buffer 0 4).map fun b => if b.getD 1 0 &&& 0x80 = 0 then be16 (b.drop 2) else 0
        else some 0
      | _ => some 0

/-! ## What stands in the buffer -/

/-- A connection with a buffer of `n` bytes whose messages have at most two bytes of length. -/
structure Roomy (connection : MqttConnection) (n : ℕ) : Prop where
  limit : connection.buffer_length = n
  header : 3 ≤ n
  small : n ≤ 16386
  size : n ≤ connection.buffer.length

/-- The parts appended so far, behind the bytes for the header. -/
structure Building (connection : MqttConnection) (n : ℕ) (body : Bytes) : Prop extends Roomy connection n where
  length : connection.length = 3 + body.length
  fits : 3 + body.length ≤ n
  body : (connection.buffer.drop 3).take body.length = body

section Building

variable {connection : MqttConnection} {n : ℕ} {body : Bytes}

theorem init_building (h : Roomy connection n) : Building (init_message connection) n [] :=
  { h with length := rfl, fits := h.header, body := List.take_zero }

theorem fail_roomy (h : Roomy connection n) : Roomy (fail_message connection) n ∧ (fail_message connection).message = [] :=
  ⟨{ h with }, List.take_zero⟩

/-- **A part** is appended behind the others, or there is no room. -/
theorem append_building (h : Building connection n body) (part : Bytes) :
    if 3 + (body ++ part).length ≤ n then
      ∃ connection', append connection part = some (some connection') ∧ Building connection' n (body ++ part)
    else append connection part = some none := by
  rw [List.length_append]
  by_cases hfit : 3 + (body.length + part.length) ≤ n
  · rw [if_pos hfit]
    obtain ⟨buffer, hst⟩ : ∃ buffer, store connection.buffer connection.length part = some buffer :=
      ⟨_, store_of_le (by have := h.size; rw [h.length]; omega)⟩
    have htake := store_take hst
    refine ⟨{ connection with buffer := buffer, length := connection.length + part.length }, ?_, ?_⟩
    · rw [append, if_neg (by rw [h.limit, h.length]; omega), hst, Option.map_some]
    · refine ⟨⟨h.limit, h.header, h.small, by rw [store_length hst]; exact h.size⟩, ?_, ?_, ?_⟩
      · rw [h.length, List.length_append, Nat.add_assoc]
      · rwa [List.length_append]
      · have hdrop := congrArg (List.drop 3) htake
        rw [h.length, List.drop_take, List.drop_append_of_le_length (by
          rw [List.length_take]
          have := h.size
          omega), List.drop_take, show 3 + body.length - 3 = body.length by omega, h.body] at hdrop
        rw [List.length_append, ← hdrop]
        congr 1
        omega
  · rw [if_neg hfit, append, if_pos (by rw [h.limit, h.length]; omega)]

/-- The bytes of the length. -/
theorem length_two {k : ℕ} (h : 127 < k) (hk : k < 16384) :
    [0x80 ||| UInt8.ofNat (k % 128), UInt8.ofNat (k / 128)] = Varint.encode k := by
  have hor : ∀ b < 128, 0x80 ||| UInt8.ofNat b = UInt8.ofNat (128 + b) := by decide +kernel
  rw [Varint.encode_long h, Varint.encode_short (by omega), hor _ (Nat.mod_lt k (by decide))]

/-- **The header** is put in front of the parts. -/
theorem fini_building (h : Building connection n body) (type : MqttType) (dup qos retain : ℕ) :
    ∃ connection', fini_message connection type dup qos retain = some connection' ∧ Roomy connection' n ∧
      connection'.message = headerByte type.code dup qos retain :: (Varint.encode body.length ++ body) := by
  have hlen : connection.length - 3 = body.length := by
    rw [h.length]
    omega
  have hsize := h.size
  have hfits := h.fits
  have hsmall := h.small
  rw [fini_message, hlen]
  by_cases hlong : 127 < body.length
  · rw [if_pos hlong]
    obtain ⟨buffer, hst⟩ : ∃ buffer, store connection.buffer 0 [headerByte type.code dup qos retain,
        0x80 ||| UInt8.ofNat (body.length % 128), UInt8.ofNat (body.length / 128)] = some buffer :=
      ⟨_, store_of_le (by simp only [List.length_cons, List.length_nil]; omega)⟩
    refine ⟨{ connection with buffer := buffer, length := body.length + 3, data := 0 }, ?_,
      ⟨h.limit, h.header, h.small, by rw [store_length hst]; exact h.size⟩, ?_⟩
    · rw [hst, Option.map_some]
    · have htake := store_take hst
      have hdrop := store_drop (k := 3) hst (Nat.le_refl 3)
      rw [List.take_zero, List.nil_append] at htake
      rw [MqttConnection.message, List.drop_zero, Nat.add_comm, List.take_add, hdrop, h.body,
        ← length_two hlong (by omega)]
      exact congrArg (· ++ body) htake
  · rw [if_neg hlong]
    obtain ⟨buffer, hst⟩ : ∃ buffer, store connection.buffer 1 [headerByte type.code dup qos retain,
        UInt8.ofNat body.length] = some buffer :=
      ⟨_, store_of_le (by simp only [List.length_cons, List.length_nil]; omega)⟩
    refine ⟨{ connection with buffer := buffer, length := body.length + 2, data := 1 }, ?_,
      ⟨h.limit, h.header, h.small, by rw [store_length hst]; exact h.size⟩, ?_⟩
    · rw [hst, Option.map_some]
    · have htake := congrArg (List.drop 1) (store_take hst)
      have hdrop := store_drop (k := 3) hst (Nat.le_refl 3)
      rw [List.drop_take, List.drop_append_of_le_length (by rw [List.length_take]; omega),
        List.drop_take, Nat.sub_self, List.take_zero, List.nil_append] at htake
      rw [MqttConnection.message, Nat.add_comm, List.take_add, List.drop_drop, hdrop, h.body,
        Varint.encode_short (by omega)]
      exact congrArg (· ++ body) htake

/-- A flag that is set later. -/
theorem orFlags_building {flags : UInt8} {name rest : Bytes} (h : Building connection n (name ++ flags :: rest))
    (hname : name.length = 9) (flag : UInt8) : ∃ connection', orFlags connection flag = some connection' ∧
      Building connection' n (name ++ (flags ||| flag) :: rest) := by
  have hbody := h.body
  have hlen : (name ++ flags :: rest).length = 9 + (rest.length + 1) := by
    rw [List.length_append, hname, List.length_cons]
  have hfits := h.fits
  have hsize := h.size
  rw [hlen] at hbody hfits
  have hget : connection.buffer[12]? = some flags := by
    have hat : ((connection.buffer.drop 3).take (9 + (rest.length + 1)))[9]? = (name ++ flags :: rest)[9]? := by
      rw [hbody]
    rw [List.getElem?_take_of_lt (by omega), List.getElem?_drop, List.getElem?_append_right (by omega), hname] at hat
    exact hat
  obtain ⟨buffer, hst⟩ : ∃ buffer, store connection.buffer 12 [flags ||| flag] = some buffer :=
    ⟨_, store_of_le (by rw [List.length_singleton]; omega)⟩
  have hfront := store_take hst
  have hdrop := store_drop (k := 13) hst (Nat.le_refl 13)
  refine ⟨{ connection with buffer := buffer }, ?_, ⟨h.limit, h.header, h.small, by rw [store_length hst]; exact hsize⟩,
    ?_, ?_, ?_⟩
  · rw [orFlags, hget, Option.bind_some, hst, Option.map_some]
  · rw [h.length, hlen, List.length_append, hname, List.length_cons]
  · rw [List.length_append, hname, List.length_cons]
    exact hfits
  · have hmid : (buffer.drop 3).take 10 = name ++ [flags ||| flag] := by
      have hd := congrArg (List.drop 3) hfront
      have hn : (connection.buffer.drop 3).take 9 = name := by
        have ht := congrArg (List.take 9) hbody
        rwa [List.take_take, Nat.min_eq_left (by omega), ← hname, List.take_left, hname] at ht
      rw [List.length_singleton, List.drop_take, List.drop_append_of_le_length (by rw [List.length_take]; omega),
        List.drop_take, hn] at hd
      exact hd
    have hrest : (buffer.drop 13).take rest.length = rest := by
      have hd := congrArg (List.drop 10) hbody
      have hname10 : name.drop 10 = [] := List.drop_of_length_le (by omega)
      rw [List.drop_take, List.drop_drop, List.drop_append, hname, hname10,
        show 9 + (rest.length + 1) - 10 = rest.length by omega] at hd
      rw [hdrop]
      exact hd
    rw [List.length_append, hname, List.length_cons, show 9 + (rest.length + 1) = 10 + rest.length by omega,
      List.take_add, hmid, List.drop_drop, hrest, List.append_assoc]
    rfl

end Building

end Esp32Base
