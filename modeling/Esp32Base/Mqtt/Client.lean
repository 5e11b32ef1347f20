import Esp32Base.Lib.Calls
import Esp32Base.Lib.Inflight
import Esp32Base.Mqtt.Outbox
import Esp32Base.Mqtt.Parse

/-!
# Mqtt.Client — the calls of a connected client (mqtt_client.c)

One buffer is read into, one is written from; of the request sent last the identifier and the type are remembered, the
ones before it wait in the outbox.

* `clientCall`: the functions that an application calls, and one round of reading.
-/

namespace Esp32Base

open Lib Lib.Buf Lib.CText

inductive MqttClientState
  | unknow | init | connected | waitTimeout
  deriving DecidableEq

/-- `mqtt_state_t`, with the outbox; `outbound_message` is that of the connection, and `in_buffer_length` the length of
`in_buffer`. -/
structure MqttClient where
  state : MqttClientState
  in_buffer : Bytes
  mqtt_connection : MqttConnection
  pending_msg_id : ℕ
  pending_msg_type : ℕ
  pending_msg_count : ℕ
  outbox : List OutboxItem

/-- `MQTT_EVENT_DATA`; NULL is `none`, and so is what lies outside of the buffer. -/
structure DataEvent where
  msg_id : ℕ
  topic : Option Bytes
  topic_len : ℕ
  data : Option Bytes
  data_len : ℕ
  total_data_len : ℕ
  current_data_offset : ℕ
  deriving DecidableEq

inductive MqttEvent
  | connected
  | disconnected
  | subscribed (msg_id : ℕ)
  | unsubscribed (msg_id : ℕ)
  | data (event : DataEvent)
  deriving DecidableEq

/-- What goes to the transport, to the handler and back to the caller. -/
inductive MqttOut
  | wrote (message : Bytes)
  | event (event : MqttEvent)
  | returned (r : ℤ)
  deriving DecidableEq

namespace MqttClient

/-! ## Writing -/

/-- `written` is what `transport_write` answers. -/
def mqtt_write_data (client : MqttClient) (written : ℤ) : Option (Bool × MqttClient × List MqttOut) :=
  (mqtt_get_type (client.mqtt_connection.buffer.drop client.mqtt_connection.data)).map fun type =>
    (0 < written, { client with pending_msg_type := type }, [.wrote client.mqtt_connection.message])

def mqtt_enqueue (client : MqttClient) (tick : ℤ) : MqttClient :=
  if 0 < client.pending_msg_count then
    { client with
      outbox := outbox_enqueue client.outbox client.mqtt_connection.message client.pending_msg_id client.pending_msg_type
        tick }
  else client

/-- A request that was put together is remembered and written; `-1` when the write fails. -/
def sendTracked (client : MqttClient) (message_id : ℕ) (connection : MqttConnection) (written : ℤ) :
    Option (MqttClient × List MqttOut) :=
  (mqtt_get_type (connection.buffer.drop connection.data)).bind fun type =>
    let client := { client with
      mqtt_connection := connection
      pending_msg_id := message_id
      pending_msg_type := type
      pending_msg_count := client.pending_msg_count + 1 }
    (client.mqtt_write_data written).map fun (ok, client, out) =>
      (client, out ++ [.returned (if ok then message_id else -1)])

def esp_mqtt_client_subscribe (client : MqttClient) (topic : Option Bytes) (qos drawn : ℕ) (tick written : ℤ) :
    Option (MqttClient × List MqttOut) :=
  if client.state ≠ .connected then some (client, [.returned (-1)])
  else
    let client := client.mqtt_enqueue tick
    (mqtt_msg_subscribe client.mqtt_connection topic qos client.pending_msg_id drawn).bind fun (id, connection) =>
      client.sendTracked id connection written

def esp_mqtt_client_unsubscribe (client : MqttClient) (topic : Option Bytes) (drawn : ℕ) (tick written : ℤ) :
    Option (MqttClient × List MqttOut) :=
  if client.state ≠ .connected then some (client, [.returned (-1)])
  else
    let client := client.mqtt_enqueue tick
    (mqtt_msg_unsubscribe client.mqtt_connection topic client.pending_msg_id drawn).bind fun (id, connection) =>
      client.sendTracked id connection written

/-- `len` of 0 and less asks for the length of the string. -/
def esp_mqtt_client_publish (client : MqttClient) (topic : Option Bytes) (data : Bytes) (len : ℤ) (qos retain drawn : ℕ)
    (tick written : ℤ) : Option (MqttClient × List MqttOut) :=
  if client.state ≠ .connected then some (client, [.returned (-1)])
  else
    (if len ≤ 0 then cstr data else load data 0 len.toNat).bind fun data =>
      if 0 < qos then
        let client := client.mqtt_enqueue tick
        (mqtt_msg_publish client.mqtt_connection topic data qos retain 0 drawn).bind fun (id, connection) =>
          client.sendTracked id connection written
      else
        (mqtt_msg_publish client.mqtt_connection topic data qos retain 0 drawn).bind fun (id, connection) =>
          (mqtt_write_data { client with mqtt_connection := connection } written).map fun (ok, client, out) =>
            (client, out ++ [.returned (if ok then id else -1)])

/-- What is written without being remembered; the answer of the transport is not looked at. -/
def respond (client : MqttClient) (connection : Option MqttConnection) (written : ℤ) :
    Option (MqttClient × List MqttOut) :=
  connection.bind fun connection =>
    (mqtt_write_data { client with mqtt_connection := connection } written).map fun (_, client, out) => (client, out)

def esp_mqtt_client_ping (client : MqttClient) (written : ℤ) : Option (MqttClient × List MqttOut) :=
  if client.state ≠ .connected then some (client, [])
  else client.respond (mqtt_msg_pingreq client.mqtt_connection) written

/-! ## Reading -/

def is_valid_mqtt_msg (client : MqttClient) (msg_type : MqttType) (msg_id : ℕ) : Bool × MqttClient :=
  if client.pending_msg_count = 0 then (false, client)
  else
    match outbox_delete client.outbox msg_id msg_type.code with
    | some outbox => (true, { client with outbox := outbox, pending_msg_count := client.pending_msg_count - 1 })
    | none =>
      if client.pending_msg_type = msg_type.code ∧ client.pending_msg_id = msg_id then
        (true, { client with pending_msg_count := client.pending_msg_count - 1 })
      else (false, client)

/-- The rounds of `deliver_publish`: `more` is what the following reads give, nothing when they fail. The sums are kept
in 16 bits, and every round takes the buffer for the start of a message of `length` bytes. -/
def deliver_publish (length message_length : ℕ) : List Bytes → Bytes → ℕ → ℕ → ℕ → ℕ → Option (Bytes × List DataEvent)
  | more, in_buffer, read, total_mqtt_len, mqtt_offset, len_read => do
    let (topic, topic_len) ← mqtt_get_publish_topic in_buffer length
    let (data, data_length) ← mqtt_get_publish_data in_buffer length
    let msg_id ← mqtt_get_id in_buffer in_buffer.length
    let mqtt_len := if total_mqtt_len = 0 then data_length else len_read
    let total := if total_mqtt_len = 0 then (((message_length : ℤ) - read + data_length) % 2 ^ 16).toNat
      else total_mqtt_len
    let event : DataEvent := ⟨msg_id, topic.bind fun at_ => load in_buffer at_ topic_len, topic_len,
      data.bind fun at_ => load in_buffer at_ mqtt_len, mqtt_len, total, mqtt_offset⟩
    if message_length ≤ read then return (in_buffer, [event])
    match more with
    | [] => return (in_buffer, [event])
    | bytes :: more =>
      if bytes = [] then return (in_buffer, [event])
      let in_buffer ← store in_buffer 0 bytes
      let (in_buffer, events) ← deliver_publish length message_length more in_buffer ((read + bytes.length) % 2 ^ 16) total
        ((mqtt_offset + mqtt_len) % 2 ^ 16) bytes.length
      return (in_buffer, event :: events)

/-- An acknowledgement, and what is told when it is valid. -/
def acknowledged (client : MqttClient) (msg_type : MqttType) (msg_id : ℕ) (events : List MqttEvent) :
    Option (MqttClient × List MqttOut) :=
  let r := client.is_valid_mqtt_msg msg_type msg_id
  some (r.2, if r.1 then events.map .event else [])

/-- A PUBLISH, behind the answer to it; `message_length_read` and `message_length` have 16 bits. -/
def delivered (client : MqttClient) (read_len : ℕ) (more : List Bytes) : Option (MqttClient × List MqttOut) :=
  let message_length_read := read_len % 2 ^ 16
  (mqtt_get_total_length client.in_buffer message_length_read).bind fun message_length =>
    (deliver_publish message_length_read (message_length % 2 ^ 16) more client.in_buffer message_length_read 0 0 0).map
      fun (in_buffer, events) => ({ client with in_buffer := in_buffer }, events.map fun event => .event (.data event))

/-- What is done with the first message of a read. -/
def process (client : MqttClient) (read_len msg_type msg_qos msg_id drawn : ℕ) (written : ℤ) (more : List Bytes) :
    Option (MqttClient × List MqttOut) :=
  match MqttType.ofCode msg_type with
  | some .suback => client.acknowledged .subscribe msg_id [.subscribed msg_id]
  | some .unsuback => client.acknowledged .unsubscribe msg_id [.unsubscribed msg_id]
  | some .publish =>
    (if msg_qos = 1 then client.respond (mqtt_msg_puback client.mqtt_connection msg_id drawn) written
      else if msg_qos = 2 then client.respond (mqtt_msg_pubrec client.mqtt_connection msg_id drawn) written
      else some (client, [])).bind fun (client, out) =>
        (client.delivered read_len more).map fun (client, out') => (client, out ++ out')
  | some .puback => client.acknowledged .publish msg_id []
  | some .pubrec => client.respond (mqtt_msg_pubrel client.mqtt_connection msg_id drawn) written
  | some .pubrel => client.respond (mqtt_msg_pubcomp client.mqtt_connection msg_id drawn) written
  | some .pubcomp => client.acknowledged .pubrel msg_id []
  | some .pingreq => client.respond (mqtt_msg_pingresp client.mqtt_connection) written
  | _ => some (client, [])

/-- `false` is `ESP_FAIL`; what `transport_read` gives is `none` when it is negative. -/
def mqtt_process_receive (client : MqttClient) (read : Option Bytes) (drawn : ℕ) (written : ℤ) (more : List Bytes) :
    Option (Bool × MqttClient × List MqttOut) :=
  match read with
  | none => some (false, client, [])
  | some [] => some (true, client, [])
  | some bytes =>
    (store client.in_buffer 0 bytes).bind fun in_buffer =>
      (mqtt_get_type in_buffer).bind fun msg_type =>
        (mqtt_get_qos in_buffer).bind fun msg_qos =>
          (mqtt_get_id in_buffer in_buffer.length).bind fun msg_id =>
            ({ client with in_buffer := in_buffer }.process bytes.length msg_type msg_qos msg_id drawn written more).map
              fun (client, out) => (true, client, out)

end MqttClient

/-! ## Calls -/

/-- A call of the application or a round of the task, with what the transport answers. -/
inductive ClientCall
  | publish (topic : Option Bytes) (data : Bytes) (len : ℤ) (qos retain drawn : ℕ) (tick written : ℤ)
  | subscribe (topic : Option Bytes) (qos drawn : ℕ) (tick written : ℤ)
  | unsubscribe (topic : Option Bytes) (drawn : ℕ) (tick written : ℤ)
  | ping (written : ℤ)
  | receive (read : Option Bytes) (drawn : ℕ) (written : ℤ) (more : List Bytes)

def clientCall (client : MqttClient) : ClientCall → Option (MqttClient × List MqttOut)
  | .publish topic data len qos retain drawn tick written =>
    client.esp_mqtt_client_publish topic data len qos retain drawn tick written
  | .subscribe topic qos drawn tick written => client.esp_mqtt_client_subscribe topic qos drawn tick written
  | .unsubscribe topic drawn tick written => client.esp_mqtt_client_unsubscribe topic drawn tick written
  | .ping written => client.esp_mqtt_client_ping written
  | .receive read drawn written more =>
    (client.mqtt_process_receive read drawn written more).map fun r => (r.2.1, r.2.2)

end Esp32Base
