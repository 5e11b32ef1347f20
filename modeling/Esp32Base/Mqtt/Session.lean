import Esp32Base.Mqtt.Client

/-!
# Mqtt.Session — a session packet by packet (mqtt_client.c)

What the calls do to buffers and counters, said with packets: a machine whose only state are the requests in flight.

* `session_refines`: over any calls and reads the client writes, tells and answers what the machine does; whatever
  follows the first packet of a read is lost.
* `subscribed_iff`: a SUBACK is told iff no packet of another type was written last while the request was the newest.
-/

namespace Esp32Base

open Lib Lib.Buf Lib.CText

/-! ## The machine -/

/-- The packets that a broker sends on. -/
inductive Incoming
  | ack (type : MqttType) (id : ℕ) (codes : Bytes)
  | publish (p : MqttPublish)
  | ping (type : MqttType)

def Incoming.packet : Incoming → MqttPacket
  | .ack type id codes => ⟨type, 0, if type = .pubrel then 1 else 0, 0, word16 id ++ codes⟩
  | .publish p => p.packet
  | .ping type => ⟨type, 0, 0, 0, []⟩

/-- A call, or a read that starts with a packet; `written` is the answer of the transport. -/
inductive MqttOp
  | publish (topic data : Bytes) (qos retain drawn : ℕ) (tick written : ℤ)
  | subscribe (topic : Bytes) (qos drawn : ℕ) (tick written : ℤ)
  | unsubscribe (topic : Bytes) (drawn : ℕ) (tick written : ℤ)
  | ping (written : ℤ)
  | receive (p : Incoming) (rest : Bytes) (drawn : ℕ) (written : ℤ) (more : List Bytes)

namespace MqttOp

def call : MqttOp → ClientCall
  | .publish topic data qos retain drawn tick written =>
    .publish (some topic) data data.length qos retain drawn tick written
  | .subscribe topic qos drawn tick written => .subscribe (some topic) qos drawn tick written
  | .unsubscribe topic drawn tick written => .unsubscribe (some topic) drawn tick written
  | .ping written => .ping written
  | .receive p rest drawn written more => .receive (some (p.packet.wire ++ rest)) drawn written more

/-- The packet that is sent. -/
def sent : MqttOp → Option MqttRequest
  | .publish topic data qos retain drawn _ _ => some (.publish (some topic) data qos retain drawn)
  | .subscribe topic qos drawn _ _ => some (.subscribe (some topic) qos drawn)
  | .unsubscribe topic drawn _ _ => some (.unsubscribe (some topic) drawn)
  | .ping _ => some .pingreq
  | .receive (.publish p) _ drawn _ _ =>
    if p.qos = 1 then some (.puback p.id drawn) else if p.qos = 2 then some (.pubrec p.id drawn) else none
  | .receive (.ack .pubrec id _) _ drawn _ _ => some (.pubrel id drawn)
  | .receive (.ack .pubrel id _) _ drawn _ _ => some (.pubcomp id drawn)
  | .receive (.ping .pingreq) _ _ _ _ => some .pingresp
  | _ => none

/-- What it is for the requests in flight. -/
def ev : MqttOp → Option (Inflight.Ev ℕ ℕ)
  | .publish _ _ qos _ drawn _ _ =>
    some (if 0 < qos then .track MqttType.publish.code drawn else .write MqttType.publish.code)
  | .subscribe _ _ drawn _ _ => some (.track MqttType.subscribe.code drawn)
  | .unsubscribe _ drawn _ _ => some (.track MqttType.unsubscribe.code drawn)
  | .ping _ => some (.write MqttType.pingreq.code)
  | .receive (.ack .suback id _) _ _ _ _ => some (.ack MqttType.subscribe.code id)
  | .receive (.ack .unsuback id _) _ _ _ _ => some (.ack MqttType.unsubscribe.code id)
  | .receive (.ack .puback id _) _ _ _ _ => some (.ack MqttType.publish.code id)
  | .receive (.ack .pubcomp id _) _ _ _ _ => some (.ack MqttType.pubrel.code id)
  | .receive (.ack .pubrec _ _) _ _ _ _ => some (.write MqttType.pubrel.code)
  | .receive (.ack .pubrel _ _) _ _ _ _ => some (.write MqttType.pubcomp.code)
  | .receive (.publish p) _ _ _ _ =>
    if p.qos = 1 then some (.write MqttType.puback.code) else if p.qos = 2 then some (.write MqttType.pubrec.code) else none
  | .receive (.ping .pingreq) _ _ _ _ => some (.write MqttType.pingresp.code)
  | _ => none

/-- What is told, given whether an acknowledgement was accepted. The total length of a payload is that of the payload
less what follows the packet. -/
def told (accepted : Bool) : MqttOp → List MqttEvent
  | .receive (.ack .suback id _) _ _ _ _ => if accepted then [.subscribed id] else []
  | .receive (.ack .unsuback id _) _ _ _ _ => if accepted then [.unsubscribed id] else []
  | .receive (.publish p) rest _ _ _ =>
    [.data ⟨if 0 < p.qos then p.id else 0, some p.topic, p.topic.length, some p.payload, p.payload.length,
      (((p.payload.length : ℤ) - rest.length) % 2 ^ 16).toNat, 0⟩]
  | _ => []

/-- What an application is answered. -/
def answered : MqttOp → List ℤ
  | .publish _ _ qos _ drawn _ written => [if 0 < written then (if 0 < qos then drawn else 0 : ℕ) else -1]
  | .subscribe _ _ drawn _ written | .unsubscribe _ drawn _ written => [if 0 < written then drawn else -1]
  | _ => []

/-- All outputs, in their order; `n` is the size of the buffer for writing. -/
def outs (n : ℕ) (accepted : Bool) (op : MqttOp) : List MqttOut :=
  (op.sent.map fun r => .wrote (r.message n)).toList ++ (op.told accepted).map .event ++ op.answered.map .returned

/-- A request that fits and has an identifier; a read that holds all of its first packet. `n` is the size of both
buffers. -/
def Regular (n : ℕ) : MqttOp → Prop
  | .publish topic data qos retain drawn _ _ =>
    data ≠ [] ∧ qos < 3 ∧ (MqttRequest.publish (some topic) data qos retain drawn).message n ≠ []
  | .subscribe topic qos drawn _ _ => (MqttRequest.subscribe (some topic) qos drawn).message n ≠ []
  | .unsubscribe topic drawn _ _ => (MqttRequest.unsubscribe (some topic) drawn).message n ≠ []
  | .ping _ => True
  | .receive p rest _ _ _ => (p.packet.wire ++ rest).length ≤ n ∧
    match p with
    | .ack type id codes => type ∈ answerTypes ∧ id < 2 ^ 16 ∧ codes.length < 126
    | .publish p => p.Valid ∧ p.qos < 3 ∧ p.payload ≠ []
    | .ping type => type = .pingreq ∨ type = .pingresp

end MqttOp

/-- One operation of the machine. -/
def sessionStep (n : ℕ) (s : Inflight ℕ ℕ) (op : MqttOp) : Inflight ℕ ℕ × List MqttOut :=
  match op.ev with
  | none => (s, op.outs n false)
  | some e => ((Inflight.step s e).1, op.outs n (Inflight.step s e).2)

/-- The requests in flight of a client. -/
def MqttClient.inflight (client : MqttClient) : Inflight ℕ ℕ :=
  ⟨client.pending_msg_count, client.pending_msg_type, client.pending_msg_id,
    client.outbox.map fun item => (item.msg_id, item.msg_type)⟩

/-- A connected client with these requests in flight, and two buffers of `n` bytes, which an answer fits. -/
structure InSession (n : ℕ) (client : MqttClient) (s : Inflight ℕ ℕ) : Prop where
  state : client.state = .connected
  inflight : client.inflight = s
  room : Roomy client.mqtt_connection n
  size : client.in_buffer.length = n
  answers : 5 ≤ n

section Writing

variable {n : ℕ} {client : MqttClient} {s : Inflight ℕ ℕ}

/-- The type of a packet that was put together. -/
theorem built_type {connection : MqttConnection} {p : MqttPacket} (hd : p.dup < 2) (hq : p.qos < 4) (hr : p.retain < 2)
    (h : connection.message = p.wire) : mqtt_get_type (connection.buffer.drop connection.data) = some p.type.code := by
  have hhead : (connection.buffer.drop connection.data)[0]? =
      some (UInt8.ofNat (16 * p.type.code + 8 * p.dup + 2 * p.qos + p.retain)) := by
    have hget : connection.message[0]? = p.wire[0]? := by rw [h]
    have hpos : 0 < connection.length := by
      by_contra hzero
      rw [MqttConnection.message, Nat.eq_zero_of_not_pos hzero, List.take_zero] at h
      exact absurd h.symm (List.cons_ne_nil _ _)
    rw [MqttConnection.message, List.getElem?_take_of_lt hpos] at hget
    exact hget
  rw [mqtt_get_type, hhead, Option.map_some, (firstByte_read hd hq hr).1]

/-- A request that became a message became its packet. -/
theorem message_eq_wire {r : MqttRequest} (h : r.message n ≠ []) : ∃ p, r.packet = some p ∧ r.message n = p.wire := by
  unfold MqttRequest.message at h ⊢
  cases hp : r.packet with
  | none =>
    rw [hp] at h
    exact absurd rfl h
  | some p =>
    rw [hp, Option.map_some, Option.getD_some, fitting] at h
    rw [Option.map_some, Option.getD_some, fitting]
    split_ifs at h with hfit
    · exact ⟨p, rfl, if_pos hfit⟩
    · exact absurd rfl h

/-- What goes into the outbox is the slot. -/
theorem enqueue_inflight (h : InSession n client s) (tick : ℤ) :
    (client.mqtt_enqueue tick).inflight = { s with queue := if 0 < s.count then s.queue ++ [(s.id, s.type)] else s.queue } ∧
      (client.mqtt_enqueue tick).mqtt_connection = client.mqtt_connection ∧
      (client.mqtt_enqueue tick).in_buffer = client.in_buffer ∧ (client.mqtt_enqueue tick).state = client.state ∧
      (client.mqtt_enqueue tick).pending_msg_id = client.pending_msg_id := by
  obtain rfl := h.inflight
  rw [MqttClient.mqtt_enqueue]
  by_cases hpos : 0 < client.pending_msg_count
  · rw [if_pos hpos]
    refine ⟨?_, rfl, rfl, rfl, rfl⟩
    rw [if_pos (show 0 < client.inflight.count from hpos)]
    simp only [MqttClient.inflight, outbox_enqueue, List.map_append, List.map_singleton]
  · rw [if_neg hpos, if_neg (show ¬ 0 < client.inflight.count from hpos)]
    exact ⟨rfl, rfl, rfl, rfl, rfl⟩

/-- **A request** that fits is tracked. -/
theorem sendTracked_session (h : InSession n client s) (tick : ℤ) {connection : MqttConnection} {p : MqttPacket}
    (hroom : Roomy connection n) (hd : p.dup < 2) (hq : p.qos < 4) (hr : p.retain < 2) (hm : connection.message = p.wire)
    (id : ℕ) (written : ℤ) : ∃ client', (client.mqtt_enqueue tick).sendTracked id connection written =
      some (client', [.wrote p.wire, .returned (if 0 < written then id else -1)]) ∧
      InSession n client' (Inflight.step s (.track p.type.code id)).1 := by
  obtain ⟨hin, -, hbuf, hstate, -⟩ := enqueue_inflight h tick
  have htype := built_type hd hq hr hm
  refine ⟨{ client.mqtt_enqueue tick with
    mqtt_connection := connection
    pending_msg_id := id
    pending_msg_type := p.type.code
    pending_msg_count := (client.mqtt_enqueue tick).pending_msg_count + 1 }, ?_, ?_⟩
  · rw [MqttClient.sendTracked, htype, Option.bind_some]
    dsimp only
    rw [MqttClient.mqtt_write_data]
    dsimp only
    rw [htype, Option.map_some, Option.map_some, hm]
    by_cases hw : 0 < written <;> simp [hw]
  · refine ⟨hstate.trans h.state, ?_, hroom, by rw [← h.size, ← hbuf], h.answers⟩
    have hcount := congrArg Inflight.count hin
    have hqueue := congrArg Inflight.queue hin
    rw [Inflight.step]
    simp only [MqttClient.inflight] at hcount hqueue ⊢
    rw [hcount, hqueue]

/-- **A response** only leaves its type. -/
theorem respond_session (h : InSession n client s) {built : Option MqttConnection} {p : MqttPacket}
    (hb : Leaves n p.wire built) (hd : p.dup < 2) (hq : p.qos < 4) (hr : p.retain < 2) (written : ℤ) :
    ∃ client', client.respond built written = some (client', [.wrote p.wire]) ∧
      InSession n client' (Inflight.step s (.write p.type.code)).1 ∧ client'.in_buffer = client.in_buffer := by
  obtain ⟨connection, rfl, hroom, hm⟩ := hb
  have htype := built_type hd hq hr hm
  refine ⟨{ client with mqtt_connection := connection, pending_msg_type := p.type.code }, ?_, ⟨h.state, ?_, hroom, h.size,
    h.answers⟩, rfl⟩
  · rw [MqttClient.respond, Option.bind_some, MqttClient.mqtt_write_data]
    dsimp only
    rw [htype, Option.map_some, Option.map_some, hm]
  · obtain rfl := h.inflight
    rfl

/-- **The outbox** as a list of identifiers and types. -/
theorem outbox_delete_eq (outbox : List OutboxItem) (id type : ℕ) :
    (outbox_delete outbox id type).map (List.map fun item => (item.msg_id, item.msg_type)) =
      if (id, type) ∈ outbox.map (fun item => (item.msg_id, item.msg_type)) then
        some ((outbox.map fun item => (item.msg_id, item.msg_type)).erase (id, type)) else none := by
  have hiff : (outbox.any fun item => item.msg_id = id ∧ item.msg_type = type) = true ↔
      (id, type) ∈ outbox.map fun item => (item.msg_id, item.msg_type) := by
    simp only [List.any_eq_true, decide_eq_true_eq, List.mem_map, Prod.mk.injEq]
  have herase : (outbox.eraseP fun item => item.msg_id = id ∧ item.msg_type = type).map
      (fun item => (item.msg_id, item.msg_type)) =
        (outbox.map fun item => (item.msg_id, item.msg_type)).erase (id, type) := by
    induction outbox with
    | nil => rfl
    | cons item outbox ih =>
      by_cases heq : item.msg_id = id ∧ item.msg_type = type
      · rw [List.eraseP_cons_of_pos (by exact decide_eq_true heq), List.map_cons, heq.1, heq.2, List.erase_cons_head]
      · have hne : ((item.msg_id, item.msg_type) == (id, type)) = false :=
          beq_eq_false_iff_ne.mpr fun h => heq (Prod.mk.injEq .. ▸ h)
        rw [List.eraseP_cons_of_neg (by rw [decide_eq_false heq]; exact Bool.false_ne_true), List.map_cons, List.map_cons,
          List.erase_cons_tail (by rw [hne]; exact Bool.false_ne_true), ih]
        · simp only [List.any_eq_true, decide_eq_true_eq, List.mem_map, Prod.mk.injEq]
  unfold outbox_delete
  by_cases hmem : (id, type) ∈ outbox.map fun item => (item.msg_id, item.msg_type)
  · rw [if_pos (hiff.mpr hmem), if_pos hmem, Option.map_some, herase]
  · rw [if_neg fun h => hmem (hiff.mp h), if_neg hmem, Option.map_none]

/-- **An acknowledgement** -/
theorem acknowledged_session (h : InSession n client s) (type : MqttType) (id : ℕ) (events : List MqttEvent) :
    ∃ client', client.acknowledged type id events =
      some (client', if (Inflight.step s (.ack type.code id)).2 then events.map .event else []) ∧
      InSession n client' (Inflight.step s (.ack type.code id)).1 := by
  obtain rfl := h.inflight
  have hdelete := outbox_delete_eq client.outbox id type.code
  rw [MqttClient.acknowledged, MqttClient.is_valid_mqtt_msg, Inflight.step]
  by_cases hzero : client.pending_msg_count = 0
  · rw [if_pos hzero, if_pos (show client.inflight.count = 0 from hzero)]
    exact ⟨client, rfl, h⟩
  · rw [if_neg hzero, if_neg (show ¬ client.inflight.count = 0 from hzero)]
    by_cases hmem : (id, type.code) ∈ client.inflight.queue
    · rw [if_pos (show (id, type.code) ∈ client.outbox.map (fun item => (item.msg_id, item.msg_type)) from hmem)] at hdelete
      rw [if_pos hmem]
      obtain ⟨outbox, hout, hqueue⟩ := Option.map_eq_some_iff.mp hdelete
      rw [hout]
      refine ⟨_, rfl, h.state, ?_, h.room, h.size, h.answers⟩
      simp only [MqttClient.inflight, hqueue]
    · rw [if_neg (show (id, type.code) ∉ client.outbox.map (fun item => (item.msg_id, item.msg_type)) from hmem)] at hdelete
      rw [if_neg hmem, Option.map_eq_none_iff.mp hdelete]
      by_cases hslot : client.pending_msg_type = type.code ∧ client.pending_msg_id = id
      · rw [if_pos (show client.inflight.type = type.code ∧ client.inflight.id = id from hslot)]
        dsimp only
        rw [if_pos hslot]
        exact ⟨_, rfl, h.state, rfl, h.room, h.size, h.answers⟩
      · rw [if_neg (show ¬ (client.inflight.type = type.code ∧ client.inflight.id = id) from hslot)]
        dsimp only
        rw [if_neg hslot]
        exact ⟨client, rfl, h⟩

end Writing

section Reading

variable {n : ℕ} {client : MqttClient} {s : Inflight ℕ ℕ}

/-- The buffer behind a read. -/
theorem store_readInto {buffer : Bytes} {p : MqttPacket} {rest : Bytes} (h : (p.wire ++ rest).length ≤ buffer.length) :
    ∃ m, store buffer 0 (p.wire ++ rest) = some m ∧ m.length = buffer.length ∧
      ReadInto m (p.wire ++ rest).length p rest := by
  obtain ⟨m, hst⟩ : ∃ m, store buffer 0 (p.wire ++ rest) = some m := ⟨_, store_of_le (by omega)⟩
  have htake := store_take hst
  have hlen := store_length hst
  rw [List.take_zero, List.nil_append, Nat.zero_add] at htake
  exact ⟨m, hst, hlen, by rw [htake, List.take_length], by rw [hlen]; exact h, le_rfl⟩

/-- What is looked up of the packet before it is worked on. -/
structure Looked (m : Bytes) (type : MqttType) (qos id : ℕ) : Prop where
  type : mqtt_get_type m = some type.code
  qos : mqtt_get_qos m = some qos
  id : mqtt_get_id m m.length = some id

/-- **A read** of a packet. -/
theorem receive_eq {p : MqttPacket} {rest m : Bytes} {id : ℕ}
    (hst : store client.in_buffer 0 (p.wire ++ rest) = some m) (hl : Looked m p.type p.qos id) (drawn : ℕ) (written : ℤ)
    (more : List Bytes) : clientCall client (.receive (some (p.wire ++ rest)) drawn written more) =
      MqttClient.process { client with in_buffer := m } (p.wire ++ rest).length p.type.code p.qos id drawn written
        more := by
  have hne : ∃ c tail, p.wire ++ rest = c :: tail := ⟨_, _, rfl⟩
  obtain ⟨c, tail, hcons⟩ := hne
  rw [hcons] at hst
  rw [clientCall, hcons]
  dsimp only [MqttClient.mqtt_process_receive]
  rw [hst, Option.bind_some, hl.type, Option.bind_some, hl.qos, Option.bind_some, hl.id, Option.bind_some,
    Option.map_map]
  exact Option.map_id'

theorem InSession.reads (h : InSession n client s) {m : Bytes} (hm : m.length = client.in_buffer.length) :
    InSession n { client with in_buffer := m } s := ⟨h.state, h.inflight, h.room, hm.trans h.size, h.answers⟩

/-- An answer fits. -/
theorem message_answer (hn : 5 ≤ n) (type : MqttType) (qos id drawn : ℕ) :
    fitting n ⟨type, 0, qos, 0, idOr id drawn⟩ = MqttPacket.wire ⟨type, 0, qos, 0, idOr id drawn⟩ :=
  if_pos (show 3 + (idOr id drawn).length ≤ n from hn)

theorem answer_leaves (h : InSession n client s) (type : MqttType) {qos : ℕ} (hqos : qos < 4) (id drawn : ℕ) :
    Leaves n (MqttPacket.wire ⟨type, 0, qos, 0, idOr id drawn⟩) (mqtt_msg_ack type qos client.mqtt_connection id drawn) := by
  have hleaves := ack_leaves h.room type hqos id drawn
  rwa [message_answer h.answers] at hleaves

theorem message_bare (hn : 3 ≤ n) (type : MqttType) :
    fitting n ⟨type, 0, 0, 0, []⟩ = MqttPacket.wire ⟨type, 0, 0, 0, []⟩ := if_pos hn

theorem bare_session (h : InSession n client s) (type : MqttType) :
    Leaves n (MqttPacket.wire ⟨type, 0, 0, 0, []⟩) (mqtt_msg_bare type client.mqtt_connection) := by
  have hleaves := bare_leaves h.room type
  rwa [message_bare h.room.header] at hleaves

/-- **A payload** that was read with its packet is told at once. -/
theorem delivered_session (h : InSession n client s) {p : MqttPublish} {rest : Bytes}
    (hread : ReadInto client.in_buffer (p.packet.wire ++ rest).length p.packet rest) (hv : p.Valid) (hne : p.payload ≠ [])
    (more : List Bytes) : client.delivered (p.packet.wire ++ rest).length more = some (client,
      [.event (.data ⟨if 0 < p.qos then p.id else 0, some p.topic, p.topic.length, some p.payload, p.payload.length,
        (((p.payload.length : ℤ) - rest.length) % 2 ^ 16).toNat, 0⟩)]) := by
  have hend := dataAt_eq p
  have hpos : 0 < p.payload.length := List.length_pos_iff.mpr hne
  have hdata : p.dataAt = p.topicAt + p.topic.length + p.idPart.length := rfl
  have hat : p.topicAt = p.packet.bodyAt + 2 := rfl
  have hlen : (p.packet.wire ++ rest).length = p.packet.wire.length + rest.length := List.length_append
  have hsize := hread.size
  have hsmall := h.room.small
  have hn := h.size
  have htotal : mqtt_get_total_length client.in_buffer (p.packet.wire ++ rest).length = some p.packet.wire.length := by
    rw [mqtt_get_total_length, announced_eq hread (by omega) hv.small]
    rfl
  have htake := publish_data hread hv (by omega)
  rw [Nat.min_eq_left (by omega)] at htake
  rw [MqttClient.delivered]
  dsimp only
  rw [Nat.mod_eq_of_lt (show (p.packet.wire ++ rest).length < 2 ^ 16 by omega), htotal, Option.bind_some,
    Nat.mod_eq_of_lt (show p.packet.wire.length < 2 ^ 16 by omega), MqttClient.deliver_publish]
  dsimp only [bind, pure]
  rw [publish_topic hread hv (by omega) (by omega), Option.bind_some]
  dsimp only
  rw [htake, Option.bind_some]
  dsimp only
  rw [publish_id hread hv (by omega) hsize le_rfl, Option.bind_some, if_pos (by omega), if_pos rfl, if_pos rfl]
  dsimp only [Option.bind_some]
  rw [load_topic hread (by omega), load_payload hread le_rfl (by omega), List.take_length]
  simp only [Option.map_some, List.map_cons, List.map_nil, Option.some.injEq, Prod.mk.injEq, and_true, true_and,
    List.cons.injEq, MqttOut.event.injEq, MqttEvent.data.injEq, DataEvent.mk.injEq]
  congr 2
  omega

end Reading

/-! ## The session -/

section Session

variable {n : ℕ} {client : MqttClient} {s : Inflight ℕ ℕ}

theorem incoming_looked {m : Bytes} {k : ℕ} {p : MqttPacket} {rest : Bytes} {id : ℕ} (hread : ReadInto m k p rest)
    (hk : 0 < k) (hd : p.dup < 2) (hq : p.qos < 4) (hr : p.retain < 2) (hid : mqtt_get_id m m.length = some id) :
    Looked m p.type p.qos id := by
  obtain ⟨htype, -, hqos, -⟩ := firstByte_read hd hq hr
  refine ⟨?_, ?_, hid⟩
  · rw [mqtt_get_type, hread.head hk, Option.map_some, htype]
  · rw [mqtt_get_qos, hread.head hk, Option.map_some, hqos]

/-- What an acknowledgement is for the machine. -/
theorem sessionStep_ack {op : MqttOp} {type id : ℕ} {events : List MqttEvent} (hev : op.ev = some (.ack type id))
    (hsent : op.sent = none) (hanswered : op.answered = []) (htold : ∀ b, op.told b = if b then events else []) :
    sessionStep n s op = ((Inflight.step s (.ack type id)).1,
      if (Inflight.step s (.ack type id)).2 then events.map .event else []) := by
  have houts : ∀ b, op.outs n b = if b then events.map .event else [] := by
    intro b
    rw [MqttOp.outs, hsent, hanswered, htold, Option.map_none, Option.toList_none, List.nil_append, List.map_nil,
      List.append_nil]
    cases b <;> rfl
  rw [sessionStep, hev]
  dsimp only
  rw [houts]

/-- What an answer is for the machine. -/
theorem sessionStep_write {op : MqttOp} {r : MqttRequest} {type : ℕ} {message : Bytes} (hev : op.ev = some (.write type))
    (hsent : op.sent = some r) (hmessage : r.message n = message) (hanswered : op.answered = [])
    (htold : op.told false = []) :
    sessionStep n s op = ((Inflight.step s (.write type)).1, [.wrote message]) := by
  rw [sessionStep, hev]
  dsimp only
  rw [show (Inflight.step s (.write type)).2 = false from rfl, MqttOp.outs, hsent, hanswered, htold, Option.map_some,
    hmessage]
  rfl

/-- An acknowledgement of the broker. -/
theorem ack_session (h : InSession n client s) {type : MqttType} {id : ℕ} {codes rest : Bytes} {drawn : ℕ} {written : ℤ}
    {more : List Bytes} (hr : (MqttOp.receive (.ack type id codes) rest drawn written more).Regular n) :
    ∃ client', clientCall client (MqttOp.receive (.ack type id codes) rest drawn written more).call =
        some (client', (sessionStep n s (.receive (.ack type id codes) rest drawn written more)).2) ∧
      InSession n client' (sessionStep n s (.receive (.ack type id codes) rest drawn written more)).1 := by
  obtain ⟨hlong, htype, hid, hcodes⟩ := hr
  rw [← h.size] at hlong
  obtain ⟨m, hst, hm, hread⟩ := store_readInto hlong
  have hbody : (Incoming.ack type id codes).packet.body.length = 2 + codes.length := List.length_append
  have hfour : 4 ≤ ((Incoming.ack type id codes).packet.wire ++ rest).length := by
    rw [List.length_append, wire_length, hbody, MqttPacket.bodyAt]
    have := Varint.encode_length_pos (Incoming.ack type id codes).packet.body.length
    omega
  have hqos : (Incoming.ack type id codes).packet.qos < 4 := by
    change (if type = .pubrel then 1 else 0) < 4
    split_ifs <;> decide
  have hlooked := incoming_looked hread (by omega) (show 0 < 2 by decide) hqos (show 0 < 2 by decide)
    (answer_id hread htype (show 0 < 2 by decide) hqos (show 0 < 2 by decide) hid rfl (by omega) hfour hread.size)
  have hcall := receive_eq hst hlooked drawn written more
  have hin := h.reads hm
  rw [MqttOp.call, hcall]
  unfold MqttClient.process
  rw [ofCode_code]
  cases type with
  | suback =>
    rw [@sessionStep_ack n s (.receive (.ack .suback id codes) rest drawn written more) _ _ _ rfl rfl rfl fun _ => rfl]
    exact acknowledged_session hin .subscribe id [.subscribed id]
  | unsuback =>
    rw [@sessionStep_ack n s (.receive (.ack .unsuback id codes) rest drawn written more) _ _ _ rfl rfl rfl fun _ => rfl]
    exact acknowledged_session hin .unsubscribe id [.unsubscribed id]
  | puback =>
    rw [@sessionStep_ack n s (.receive (.ack .puback id codes) rest drawn written more) _ _ [] rfl rfl rfl
      fun b => (ite_self _).symm]
    exact acknowledged_session hin .publish id []
  | pubcomp =>
    rw [@sessionStep_ack n s (.receive (.ack .pubcomp id codes) rest drawn written more) _ _ [] rfl rfl rfl
      fun b => (ite_self _).symm]
    exact acknowledged_session hin .pubrel id []
  | pubrec =>
    rw [@sessionStep_write n s (.receive (.ack .pubrec id codes) rest drawn written more) _ _ _ rfl rfl
      (message_answer h.answers .pubrel 1 id drawn) rfl rfl]
    obtain ⟨client', hrun, hin', -⟩ := respond_session hin (answer_leaves hin .pubrel (by decide) id drawn)
      (show 0 < 2 by decide) (show 1 < 4 by decide) (show 0 < 2 by decide) written
    exact ⟨client', hrun, hin'⟩
  | pubrel =>
    rw [@sessionStep_write n s (.receive (.ack .pubrel id codes) rest drawn written more) _ _ _ rfl rfl
      (message_answer h.answers .pubcomp 0 id drawn) rfl rfl]
    obtain ⟨client', hrun, hin', -⟩ := respond_session hin (answer_leaves hin .pubcomp (by decide) id drawn)
      (show 0 < 2 by decide) (show 0 < 4 by decide) (show 0 < 2 by decide) written
    exact ⟨client', hrun, hin'⟩
  | subscribe => exact ⟨_, rfl, hin⟩
  | connect | connack | publish | unsubscribe | pingreq | pingresp | disconnect => exact absurd htype (by decide)

/-- A PUBLISH of the broker: the answer to it, then what is told. -/
theorem publish_session (h : InSession n client s) {p : MqttPublish} {rest : Bytes} {drawn : ℕ} {written : ℤ}
    {more : List Bytes} (hr : (MqttOp.receive (.publish p) rest drawn written more).Regular n) :
    ∃ client', clientCall client (MqttOp.receive (.publish p) rest drawn written more).call =
        some (client', (sessionStep n s (.receive (.publish p) rest drawn written more)).2) ∧
      InSession n client' (sessionStep n s (.receive (.publish p) rest drawn written more)).1 := by
  obtain ⟨hlong, hv, hthree, hne⟩ := hr
  change (p.packet.wire ++ rest).length ≤ n at hlong
  rw [← h.size] at hlong
  obtain ⟨m, hst, hm, hread⟩ := store_readInto hlong
  have hend := dataAt_eq p
  have hpos : 0 < p.payload.length := List.length_pos_iff.mpr hne
  have hlen : (p.packet.wire ++ rest).length = p.packet.wire.length + rest.length := List.length_append
  have hat : p.dataAt < (p.packet.wire ++ rest).length := by omega
  have hlooked := incoming_looked hread (by omega) hv.dup hv.qos hv.retain (publish_id hread hv hat hread.size le_rfl)
  have hin := h.reads hm
  rw [MqttOp.call, show (Incoming.publish p).packet = p.packet from rfl, receive_eq hst hlooked drawn written more]
  unfold MqttClient.process
  rw [show p.packet.type = .publish from rfl, ofCode_code]
  dsimp only
  rw [show p.packet.qos = p.qos from rfl]
  by_cases hone : p.qos = 1
  · -- the identifier is answered
    have hid : (if 0 < p.qos then p.id else 0) = p.id := if_pos (by omega)
    obtain ⟨client', hrun, hin', hbuf⟩ := respond_session hin
      (answer_leaves hin .puback (by decide) p.id drawn) (show 0 < 2 by decide) (show 0 < 4 by decide)
      (show 0 < 2 by decide) written
    rw [if_pos hone, hid, show mqtt_msg_puback = mqtt_msg_ack .puback 0 from rfl, hrun, Option.bind_some]
    dsimp only at hbuf ⊢
    rw [delivered_session hin' (hbuf ▸ hread) hv hne]
    refine ⟨client', ?_, ?_⟩
    · rw [sessionStep, MqttOp.ev, if_pos hone]
      dsimp only
      rw [MqttOp.outs, MqttOp.sent, if_pos hone, Option.map_some, Option.map_some,
        show (MqttRequest.puback p.id drawn).message n = _ from message_answer h.answers .puback 0 p.id drawn]
      rfl
    · rw [sessionStep, MqttOp.ev, if_pos hone]
      exact hin'
  rw [if_neg hone]
  by_cases htwo : p.qos = 2
  · have hid : (if 0 < p.qos then p.id else 0) = p.id := if_pos (by omega)
    obtain ⟨client', hrun, hin', hbuf⟩ := respond_session hin
      (answer_leaves hin .pubrec (by decide) p.id drawn) (show 0 < 2 by decide) (show 0 < 4 by decide)
      (show 0 < 2 by decide) written
    rw [if_pos htwo, hid, show mqtt_msg_pubrec = mqtt_msg_ack .pubrec 0 from rfl, hrun, Option.bind_some]
    dsimp only at hbuf ⊢
    rw [delivered_session hin' (hbuf ▸ hread) hv hne]
    refine ⟨client', ?_, ?_⟩
    · rw [sessionStep, MqttOp.ev, if_neg hone, if_pos htwo]
      dsimp only
      rw [MqttOp.outs, MqttOp.sent, if_neg hone, if_pos htwo, Option.map_some, Option.map_some,
        show (MqttRequest.pubrec p.id drawn).message n = _ from message_answer h.answers .pubrec 0 p.id drawn]
      rfl
    · rw [sessionStep, MqttOp.ev, if_neg hone, if_pos htwo]
      exact hin'
  · rw [if_neg htwo, Option.bind_some]
    dsimp only
    rw [delivered_session hin hread hv hne]
    refine ⟨{ client with in_buffer := m }, ?_, ?_⟩
    · rw [sessionStep, MqttOp.ev, if_neg hone, if_neg htwo]
      dsimp only
      rw [MqttOp.outs, MqttOp.sent, if_neg hone, if_neg htwo]
      rfl
    · rw [sessionStep, MqttOp.ev, if_neg hone, if_neg htwo]
      exact hin

/-- A PINGREQ or a PINGRESP of the broker. -/
theorem ping_session (h : InSession n client s) {type : MqttType} {rest : Bytes} {drawn : ℕ} {written : ℤ}
    {more : List Bytes} (hr : (MqttOp.receive (.ping type) rest drawn written more).Regular n) :
    ∃ client', clientCall client (MqttOp.receive (.ping type) rest drawn written more).call =
        some (client', (sessionStep n s (.receive (.ping type) rest drawn written more)).2) ∧
      InSession n client' (sessionStep n s (.receive (.ping type) rest drawn written more)).1 := by
  obtain ⟨hlong, htype⟩ := hr
  rw [← h.size] at hlong
  obtain ⟨m, hst, hm, hread⟩ := store_readInto hlong
  have hpos : 0 < ((Incoming.ping type).packet.wire ++ rest).length := by
    rw [List.length_append, wire_length, MqttPacket.bodyAt]
    omega
  have hmpos := hread.size
  have hcode : mqtt_get_type m = some type.code := by
    rw [mqtt_get_type, hread.head hpos, Option.map_some]
    exact congrArg some (firstByte_read (show 0 < 2 by decide) (show 0 < 4 by decide) (show 0 < 2 by decide)).1
  have hid : mqtt_get_id m m.length = some 0 := by
    rw [mqtt_get_id, if_neg (by omega), hcode, Option.bind_some, ofCode_code]
    rcases htype with rfl | rfl <;> rfl
  have hlooked := incoming_looked hread hpos (show 0 < 2 by decide) (show 0 < 4 by decide) (show 0 < 2 by decide) hid
  have hin := h.reads hm
  rw [MqttOp.call, receive_eq hst hlooked drawn written more]
  unfold MqttClient.process
  rw [ofCode_code]
  rcases htype with rfl | rfl
  · rw [@sessionStep_write n s (.receive (.ping .pingreq) rest drawn written more) _ _ _ rfl rfl
      (message_bare h.room.header .pingresp) rfl rfl]
    obtain ⟨client', hrun, hin', -⟩ := respond_session hin (bare_session hin .pingresp) (show 0 < 2 by decide)
      (show 0 < 4 by decide) (show 0 < 2 by decide) written
    exact ⟨client', hrun, hin'⟩
  · exact ⟨_, rfl, hin⟩

theorem packet_flags {r : MqttRequest} {p : MqttPacket} (h : r.packet = some p) : p.dup < 2 ∧ p.qos < 4 ∧ p.retain < 2 := by
  cases r with
  | publish topic data qos retain drawn =>
    obtain ⟨topic', -, rfl⟩ := Option.map_eq_some_iff.mp h
    exact ⟨show 0 < 2 by decide, Nat.mod_lt _ (by decide), Nat.mod_lt _ (by decide)⟩
  | connect | subscribe | unsubscribe =>
    obtain ⟨topic', -, rfl⟩ := Option.map_eq_some_iff.mp h
    refine ⟨?_, ?_, ?_⟩ <;> dsimp only <;> decide
  | puback | pubrec | pubrel | pubcomp | pingreq | pingresp | disconnect =>
    obtain rfl := Option.some.inj h
    refine ⟨?_, ?_, ?_⟩ <;> dsimp only <;> decide

/-- **A request** of the application that was put together behind `mqtt_enqueue`. -/
theorem request_session (h : InSession n client s) (tick : ℤ) {op : MqttOp} {r : MqttRequest} {id type : ℕ}
    {written : ℤ} {built : Option (ℕ × MqttConnection)} (hm : r.message n ≠ []) (hb : LeavesId n (r.message n) id built)
    (htype : ∀ p, r.packet = some p → p.type.code = type) (hsent : op.sent = some r) (hev : op.ev = some (.track type id))
    (htold : op.told false = []) (hanswered : op.answered = [if 0 < written then (id : ℤ) else -1]) :
    ∃ client', (built.bind fun (id, connection) => (client.mqtt_enqueue tick).sendTracked id connection written) =
        some (client', (sessionStep n s op).2) ∧ InSession n client' (sessionStep n s op).1 := by
  obtain ⟨p, hp, hwire⟩ := message_eq_wire hm
  obtain ⟨id', connection, rfl, hroom, hmessage, hid⟩ := hb
  obtain rfl := hid hm
  obtain rfl := htype p hp
  obtain ⟨hd, hq, hr⟩ := packet_flags hp
  obtain ⟨client', hrun, hin⟩ := sendTracked_session h tick hroom hd hq hr (hmessage.trans hwire) id' written
  have hstep : sessionStep n s op = ((Inflight.step s (.track p.type.code id')).1,
      [.wrote p.wire, .returned (if 0 < written then (id' : ℤ) else -1)]) := by
    rw [sessionStep, hev]
    dsimp only
    rw [show (Inflight.step s (.track p.type.code id')).2 = false from rfl, MqttOp.outs, hsent, htold, hanswered,
      Option.map_some, hwire]
    rfl
  rw [hstep]
  exact ⟨client', hrun, hin⟩

/-- **A call**. -/
theorem op_session (h : InSession n client s) {op : MqttOp} (hr : op.Regular n) :
    ∃ client', clientCall client op.call = some (client', (sessionStep n s op).2) ∧
      InSession n client' (sessionStep n s op).1 := by
  have hstate : ¬ client.state ≠ .connected := not_not.mpr h.state
  cases op with
  | publish topic data qos retain drawn tick written =>
    obtain ⟨hne, hqos, hm⟩ := hr
    have hpos : 0 < data.length := List.length_pos_iff.mpr hne
    have hload : load data 0 data.length = some data := by
      rw [load_of_le (by omega), List.drop_zero, List.take_length]
    rw [MqttOp.call, clientCall, MqttClient.esp_mqtt_client_publish, if_neg hstate, if_neg (by omega), Int.toNat_natCast,
      hload, Option.bind_some]
    obtain ⟨p, hp, hwire⟩ := message_eq_wire hm
    by_cases hzero : 0 < qos
    · have hleaves := publish_leaves h.room (some topic) data qos retain 0 drawn
      rw [if_pos hzero] at hleaves
      rw [if_pos hzero]
      dsimp only
      rw [(enqueue_inflight h tick).2.1]
      refine request_session h tick hm hleaves (show ∀ p : MqttPacket, _ → p.type.code = MqttType.publish.code from fun p hp => ?_)
        rfl ?_ rfl ?_
      · obtain ⟨topic', -, rfl⟩ := Option.map_eq_some_iff.mp hp
        rfl
      · rw [MqttOp.ev, if_pos hzero]
      · rw [MqttOp.answered, if_pos hzero]
    · obtain ⟨id', connection, hbuilt, hroom, hmessage, hid⟩ := publish_leaves h.room (some topic) data qos retain 0 drawn
      obtain ⟨hd, hq, hret⟩ := packet_flags hp
      have hcode := built_type hd hq hret (hmessage.trans hwire)
      obtain ⟨topic', -, hpt⟩ := Option.map_eq_some_iff.mp hp
      have htype : p.type = .publish := by rw [← hpt]
      have hz := hid hm
      rw [if_neg hzero] at hz
      rw [if_neg hzero, hbuilt, Option.bind_some]
      dsimp only [MqttClient.mqtt_write_data]
      rw [hcode, Option.map_some, Option.map_some, hmessage, hz]
      refine ⟨{ client with mqtt_connection := connection, pending_msg_type := p.type.code }, ?_, ?_⟩
      · rw [sessionStep, MqttOp.ev, if_neg hzero]
        dsimp only
        rw [MqttOp.outs, MqttOp.sent, MqttOp.answered, if_neg hzero, Option.map_some]
        by_cases hw : 0 < written <;> simp [hw, MqttOp.told]
      · rw [sessionStep, MqttOp.ev, if_neg hzero, htype]
        obtain rfl := h.inflight
        exact ⟨h.state, rfl, hroom, h.size, h.answers⟩
  | subscribe topic qos drawn tick written =>
    rw [MqttOp.call, clientCall, MqttClient.esp_mqtt_client_subscribe, if_neg hstate]
    dsimp only
    rw [(enqueue_inflight h tick).2.1]
    refine request_session h tick hr (subscribe_leaves h.room (some topic) qos _ drawn)
      (fun p hp => ?_) rfl rfl rfl rfl
    obtain ⟨topic', -, rfl⟩ := Option.map_eq_some_iff.mp hp
    rfl
  | unsubscribe topic drawn tick written =>
    rw [MqttOp.call, clientCall, MqttClient.esp_mqtt_client_unsubscribe, if_neg hstate]
    dsimp only
    rw [(enqueue_inflight h tick).2.1]
    refine request_session h tick hr (unsubscribe_leaves h.room (some topic) _ drawn)
      (fun p hp => ?_) rfl rfl rfl rfl
    obtain ⟨topic', -, rfl⟩ := Option.map_eq_some_iff.mp hp
    rfl
  | ping written =>
    rw [MqttOp.call, clientCall, MqttClient.esp_mqtt_client_ping, if_neg hstate,
      @sessionStep_write n s (.ping written) _ _ _ rfl rfl (message_bare h.room.header .pingreq) rfl rfl]
    obtain ⟨client', hrun, hin', -⟩ := respond_session h (bare_session h .pingreq) (show 0 < 2 by decide)
      (show 0 < 4 by decide) (show 0 < 2 by decide) written
    exact ⟨client', hrun, hin'⟩
  | receive p rest drawn written more =>
    cases p with
    | ack => exact ack_session h hr
    | publish => exact publish_session h hr
    | ping => exact ping_session h hr

/-- The machine on the requests in flight alone. -/
theorem mealyRun_session (ops : List MqttOp) : ∀ s : Inflight ℕ ℕ,
    (mealyRun (sessionStep n) s ops).1 = Inflight.run s (ops.filterMap MqttOp.ev) := by
  induction ops with
  | nil => exact fun _ => rfl
  | cons op ops ih =>
    intro s
    rw [mealyRun, ih]
    cases hev : op.ev with
    | none => rw [List.filterMap_cons_none hev, sessionStep, hev]
    | some e => rw [List.filterMap_cons_some hev, sessionStep, hev, Inflight.run_cons]

theorem ops_session (h : InSession n client s) {ops : List MqttOp} (hr : ∀ op ∈ ops, op.Regular n) :
    ∃ client', runCalls clientCall client (ops.map MqttOp.call) = some (client', (mealyRun (sessionStep n) s ops).2) ∧
      InSession n client' (mealyRun (sessionStep n) s ops).1 := by
  rw [← runCalls_map]
  refine runCalls_simulates (InSession n) (fun _ op => op.Regular n) (fun _ _ op h (hr : op.Regular n) => @op_session _ _ _ h op hr)
    ops h ?_
  exact fun pre op post hops => hr op (hops ▸ List.mem_append_right _ List.mem_cons_self)

end Session

/-- **Sessions** of a connected client, packet by packet: whatever is called and whatever is read, it writes, tells and
answers what the machine of the requests in flight does, and is undefined nowhere. -/
theorem session_refines {n : ℕ} {client : MqttClient} {s : Inflight ℕ ℕ} (h : InSession n client s) {ops : List MqttOp}
    (hr : ∀ op ∈ ops, op.Regular n) :
    ∃ client', runCalls clientCall client (ops.map MqttOp.call) = some (client', (mealyRun (sessionStep n) s ops).2) ∧
      InSession n client' (Inflight.run s (ops.filterMap MqttOp.ev)) := by
  rw [← mealyRun_session (n := n)]
  exact ops_session h hr

/-- A client with buffers of 40 bytes. -/
def sampleClient : MqttClient :=
  ⟨.connected, List.replicate 40 0, mqtt_msg_init (List.replicate 40 0) 40, 0, 0, 0, []⟩

theorem sampleClient_session : InSession 40 sampleClient ⟨0, 0, 0, []⟩ :=
  ⟨rfl, rfl, roomy_init (by decide) (by decide) (by decide), by decide, by decide⟩

/-- Two topics, a message on one of them with the SUBACK behind it, a PING and the other SUBACK. -/
def sampleOps : List MqttOp :=
  [.subscribe (ascii "a/b") 0 5 0 1, .subscribe (ascii "c") 0 6 0 1, .receive (.publish samplePublish) [0x90] 0 1 [],
    .ping 1, .receive (.ack .suback 5 [0]) [] 0 1 [], .receive (.ack .suback 6 [0]) [] 0 1 []]

theorem sampleOps_regular : ∀ op ∈ sampleOps, op.Regular 40 := by
  intro op hop
  have hv : samplePublish.Valid := ⟨by decide, by decide, by decide, by decide, by decide, by decide +kernel⟩
  rcases hop with _ | ⟨_, _ | ⟨_, _ | ⟨_, _ | ⟨_, _ | ⟨_, _ | ⟨_, hop⟩⟩⟩⟩⟩⟩
  · exact show _ ≠ _ by decide +kernel
  · exact show _ ≠ _ by decide +kernel
  · exact ⟨by decide +kernel, hv, by decide, by decide +kernel⟩
  · trivial
  · exact ⟨by decide +kernel, by decide, by decide, by decide⟩
  · exact ⟨by decide +kernel, by decide, by decide, by decide⟩
  · cases hop

theorem session_refines_sample : ∃ client', runCalls clientCall sampleClient (sampleOps.map MqttOp.call) =
      some (client', (mealyRun (sessionStep 40) ⟨0, 0, 0, []⟩ sampleOps).2) ∧
    InSession 40 client' (Inflight.run ⟨0, 0, 0, []⟩ (sampleOps.filterMap MqttOp.ev)) :=
  session_refines sampleClient_session sampleOps_regular

/-- **A SUBACK is told iff** the type written last, from the subscription to the next request, is that of SUBSCRIBE;
`seg` are the calls and reads in between, and no identifier is used or acknowledged twice. -/
theorem subscribed_iff {n : ℕ} {client : MqttClient} {s : Inflight ℕ ℕ} (h : InSession n client s) (hs : Inflight.Idle s)
    {pre seg rest : List MqttOp} {topic : Bytes} {qos id : ℕ} {tick written : ℤ} {codes after : Bytes} {drawn : ℕ}
    {written' : ℤ} {more : List Bytes}
    (hr : ∀ op ∈ pre ++ MqttOp.subscribe topic qos id tick written :: (seg ++ rest) ++
      [MqttOp.receive (.ack .suback id codes) after drawn written' more], op.Regular n)
    (hseg : ∀ op ∈ seg, ∀ t j, op.ev ≠ some (.track t j))
    (hrest : rest = [] ∨ ∃ op rest' t j, rest = op :: rest' ∧ op.ev = some (.track t j))
    (hT : (Inflight.tracked ((pre ++ MqttOp.subscribe topic qos id tick written :: (seg ++ rest)).filterMap MqttOp.ev)).Nodup)
    (hK : (Inflight.acked ((pre ++ MqttOp.subscribe topic qos id tick written :: (seg ++ rest) ++
      [MqttOp.receive (.ack .suback id codes) after drawn written' more]).filterMap MqttOp.ev)).Nodup) :
    ∃ client₁ out client₂ told,
      runCalls clientCall client ((pre ++ MqttOp.subscribe topic qos id tick written :: (seg ++ rest)).map MqttOp.call) =
        some (client₁, out) ∧
      clientCall client₁ (MqttOp.receive (.ack .suback id codes) after drawn written' more).call = some (client₂, told) ∧
      (told = [.event (.subscribed id)] ↔
        Inflight.lastType MqttType.subscribe.code (seg.filterMap MqttOp.ev) = MqttType.subscribe.code) := by
  obtain ⟨client₁, hrun, hin⟩ := ops_session h fun op hop => hr op (List.mem_append_left _ hop)
  obtain ⟨client₂, hlast, -⟩ := op_session hin (hr _ (List.mem_append_right _ (List.mem_singleton_self _)))
  refine ⟨client₁, _, client₂, _, hrun, hlast, ?_⟩
  rw [mealyRun_session, @sessionStep_ack n _ (.receive (.ack .suback id codes) after drawn written' more)
    MqttType.subscribe.code id [.subscribed id] rfl rfl rfl fun _ => rfl]
  have hmap : (pre ++ MqttOp.subscribe topic qos id tick written :: (seg ++ rest)).filterMap MqttOp.ev =
      pre.filterMap MqttOp.ev ++ .track MqttType.subscribe.code id ::
        (seg.filterMap MqttOp.ev ++ rest.filterMap MqttOp.ev) := by
    rw [List.filterMap_append, List.filterMap_cons_some (show (MqttOp.subscribe topic qos id tick written).ev = some _ from rfl),
      List.filterMap_append]
  rw [List.filterMap_append] at hK
  rw [hmap] at hT hK ⊢
  have hiff := Inflight.ack_accepted_iff hs (a := MqttType.subscribe.code)
    (fun e he t j heq => by
      obtain ⟨op, hop, hev⟩ := List.mem_filterMap.mp he
      exact hseg op hop t j (heq ▸ hev))
    (by
      rcases hrest with rfl | ⟨op, rest', t, j, rfl, hev⟩
      · exact Or.inl rfl
      · exact Or.inr ⟨t, j, rest'.filterMap MqttOp.ev, List.filterMap_cons_some hev⟩) hT hK
  rw [← hiff]
  dsimp only
  split_ifs with hacc
  · exact iff_of_true rfl hacc
  · exact iff_of_false (by decide) hacc

/-- The second SUBACK of the sample is not told: an answer and a PING were written behind its subscription. -/
theorem subscribed_iff_sample : ∃ client₁ out client₂ told,
    runCalls clientCall sampleClient (([MqttOp.subscribe (ascii "a/b") 0 5 0 1] ++ MqttOp.subscribe (ascii "c") 0 6 0 1 ::
      ([MqttOp.receive (.publish samplePublish) [0x90] 0 1 [], .ping 1, .receive (.ack .suback 5 [0]) [] 0 1 []] ++ [])).map
        MqttOp.call) = some (client₁, out) ∧
    clientCall client₁ (MqttOp.receive (.ack .suback 6 [0]) [] 0 1 []).call = some (client₂, told) ∧
    (told = [.event (.subscribed 6)] ↔ Inflight.lastType MqttType.subscribe.code
      ([MqttOp.receive (.publish samplePublish) [0x90] 0 1 [], .ping 1, .receive (.ack .suback 5 [0]) [] 0 1 []].filterMap
        MqttOp.ev) = MqttType.subscribe.code) :=
  subscribed_iff sampleClient_session ⟨rfl, rfl⟩ sampleOps_regular
    (by
      intro op hop t j
      rcases hop with _ | ⟨_, _ | ⟨_, _ | ⟨_, hop⟩⟩⟩
      · exact fun h => by cases h
      · exact fun h => by cases h
      · exact fun h => by cases h
      · cases hop)
    (Or.inl rfl) (by decide +kernel) (by decide +kernel)

example : Inflight.lastType MqttType.subscribe.code
    ([MqttOp.receive (.publish samplePublish) [0x90] 0 1 [], .ping 1, .receive (.ack .suback 5 [0]) [] 0 1 []].filterMap
      MqttOp.ev) = MqttType.pingreq.code := by decide +kernel

end Esp32Base
