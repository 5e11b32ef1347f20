import Esp32Base.Mqtt.Discovery

/-!
# Mqtt.Reconnect — what one connection leaves for the next (mqtt_client.c, trans_data.c)

A connection that fails is followed by another one with the same buffers, the same outbox and the same count of requests.

* `stale_connack`: while nothing is read, the CONNACK of the last connection is taken for that of the next.
* `connects_strand`: every connection that finds a request without its acknowledgement leaves an item in the outbox that
  nothing removes.
-/

namespace Esp32Base

open Lib Lib.Buf Lib.CText

/-! ## What is never removed -/

/-- The types that `is_valid_mqtt_msg` is called with. -/
def awaitedTypes : List MqttType := [.subscribe, .unsubscribe, .publish, .pubrel]

/-- The items that no acknowledgement is looked up for. -/
def MqttClient.stuck (client : MqttClient) : List OutboxItem :=
  client.outbox.filter fun item => item.msg_type ∉ awaitedTypes.map MqttType.code

/-- What every call does to them, and to the buffer for writing. -/
structure ClientKeeps (client client' : MqttClient) : Prop where
  stuck : client.stuck <+: client'.stuck
  room : ∀ n, Roomy client.mqtt_connection n → Roomy client'.mqtt_connection n

section ClientKeeps

variable {client client' : MqttClient} {out : List MqttOut}

theorem ClientKeeps.refl (client : MqttClient) : ClientKeeps client client := ⟨List.prefix_refl _, fun _ h => h⟩

theorem ClientKeeps.trans {client'' : MqttClient} (h : ClientKeeps client client') (h' : ClientKeeps client' client'') :
    ClientKeeps client client'' := ⟨h.stuck.trans h'.stuck, fun n hn => h'.room n (h.room n hn)⟩

theorem write_keeps {ok : Bool} {written : ℤ} (h : client.mqtt_write_data written = some (ok, client', out)) :
    ClientKeeps client client' ∧ client'.in_buffer = client.in_buffer := by
  obtain ⟨type, -, heq⟩ := Option.map_eq_some_iff.mp h
  obtain ⟨-, heq⟩ := Prod.mk.inj heq
  obtain ⟨rfl, rfl⟩ := Prod.mk.inj heq
  exact ⟨⟨List.prefix_refl _, fun _ h => h⟩, rfl⟩

theorem respond_keeps {built : Option MqttConnection} {written : ℤ}
    (hb : ∀ n, Roomy client.mqtt_connection n → ∃ m, Leaves n m built)
    (h : client.respond built written = some (client', out)) :
    ClientKeeps client client' ∧ client'.in_buffer = client.in_buffer := by
  obtain ⟨connection, rfl, h⟩ := Option.bind_eq_some_iff.mp h
  obtain ⟨⟨ok, c, o⟩, hwrite, heq⟩ := Option.map_eq_some_iff.mp h
  obtain ⟨rfl, rfl⟩ := Prod.mk.inj heq
  obtain ⟨hkeeps, hsame⟩ := write_keeps hwrite
  refine ⟨⟨hkeeps.stuck, fun n hn => hkeeps.room n ?_⟩, hsame⟩
  obtain ⟨m, connection', heq, hroomy, -⟩ := hb n hn
  obtain rfl := Option.some.inj heq
  exact hroomy

theorem bare_keeps {type : MqttType} {written : ℤ}
    (h : client.respond (mqtt_msg_bare type client.mqtt_connection) written = some (client', out)) :
    ClientKeeps client client' ∧ client'.in_buffer = client.in_buffer :=
  respond_keeps (fun _ hn => ⟨_, bare_leaves hn type⟩) h

theorem ack_keeps {type : MqttType} {qos id drawn : ℕ} {written : ℤ} (hqos : qos < 4)
    (h : client.respond (mqtt_msg_ack type qos client.mqtt_connection id drawn) written = some (client', out)) :
    ClientKeeps client client' ∧ client'.in_buffer = client.in_buffer :=
  respond_keeps (fun _ hn => ⟨_, ack_leaves hn type hqos id drawn⟩) h

theorem enqueue_keeps (client : MqttClient) (tick : ℤ) :
    ClientKeeps client (client.mqtt_enqueue tick) ∧ (client.mqtt_enqueue tick).in_buffer = client.in_buffer := by
  rw [MqttClient.mqtt_enqueue]
  split_ifs
  · refine ⟨⟨?_, fun _ h => h⟩, rfl⟩
    rw [MqttClient.stuck, MqttClient.stuck, outbox_enqueue, List.filter_append]
    exact List.prefix_append _ _
  · exact ⟨ClientKeeps.refl client, rfl⟩

/-- A request, put together from what the client has. -/
theorem tracked_keeps {built : Option (ℕ × MqttConnection)} {written : ℤ}
    (hb : ∀ n, Roomy client.mqtt_connection n → ∃ m id, LeavesId n m id built)
    (h : (built.bind fun (id, connection) => client.sendTracked id connection written) = some (client', out)) :
    ClientKeeps client client' ∧ client'.in_buffer = client.in_buffer := by
  obtain ⟨⟨id, connection⟩, rfl, h⟩ := Option.bind_eq_some_iff.mp h
  change client.sendTracked id connection written = some (client', out) at h
  obtain ⟨type, -, h⟩ := Option.bind_eq_some_iff.mp h
  obtain ⟨⟨ok, c, o⟩, hwrite, heq⟩ := Option.map_eq_some_iff.mp h
  obtain ⟨rfl, rfl⟩ := Prod.mk.inj heq
  obtain ⟨hkeeps, hsame⟩ := write_keeps hwrite
  refine ⟨⟨hkeeps.stuck, fun n hn => hkeeps.room n ?_⟩, hsame⟩
  obtain ⟨m, id', id'', connection', heq, hroomy, -⟩ := hb n hn
  obtain ⟨rfl, rfl⟩ := Prod.mk.inj (Option.some.inj heq)
  exact hroomy

/-- **A request**. -/
theorem app_keeps {c : MqttAppCall} (h : clientCall client c.call = some (client', out)) :
    ClientKeeps client client' ∧ client'.in_buffer = client.in_buffer := by
  by_cases hstate : client.state = .connected
  · have hnot : ¬ client.state ≠ .connected := not_not.mpr hstate
    cases c with
    | publish topic data len qos retain a =>
      rw [MqttAppCall.call, clientCall, MqttClient.esp_mqtt_client_publish, if_neg hnot] at h
      obtain ⟨data, -, h⟩ := Option.bind_eq_some_iff.mp h
      split_ifs at h with hqos
      · obtain ⟨he, hs⟩ := enqueue_keeps client a.tick
        obtain ⟨hk, hs'⟩ := tracked_keeps (fun n hn => ⟨_, _, publish_leaves hn topic data qos retain 0 a.drawn⟩) h
        exact ⟨he.trans hk, hs'.trans hs⟩
      · obtain ⟨⟨id, connection⟩, hbuild, h⟩ := Option.bind_eq_some_iff.mp h
        obtain ⟨⟨ok, c, o⟩, hwrite, heq⟩ := Option.map_eq_some_iff.mp h
        obtain ⟨rfl, rfl⟩ := Prod.mk.inj heq
        obtain ⟨hkeeps, hsame⟩ := write_keeps hwrite
        refine ⟨⟨hkeeps.stuck, fun n hn => hkeeps.room n ?_⟩, hsame⟩
        obtain ⟨id', connection', heq, hroomy, -⟩ := publish_leaves hn topic data qos retain 0 a.drawn
        obtain ⟨rfl, rfl⟩ := Prod.mk.inj (Option.some.inj (hbuild.symm.trans heq))
        exact hroomy
    | subscribe topic qos a =>
      rw [MqttAppCall.call, clientCall, MqttClient.esp_mqtt_client_subscribe, if_neg hnot] at h
      obtain ⟨he, hs⟩ := enqueue_keeps client a.tick
      obtain ⟨hk, hs'⟩ := tracked_keeps (fun n hn => ⟨_, _, subscribe_leaves hn topic qos _ a.drawn⟩) h
      exact ⟨he.trans hk, hs'.trans hs⟩
    | unsubscribe topic a =>
      rw [MqttAppCall.call, clientCall, MqttClient.esp_mqtt_client_unsubscribe, if_neg hnot] at h
      obtain ⟨he, hs⟩ := enqueue_keeps client a.tick
      obtain ⟨hk, hs'⟩ := tracked_keeps (fun n hn => ⟨_, _, unsubscribe_leaves hn topic _ a.drawn⟩) h
      exact ⟨he.trans hk, hs'.trans hs⟩
  · have hnone : clientCall client c.call = some (client, [.returned (-1)]) := by
      cases c <;> exact if_pos hstate
    obtain ⟨rfl, rfl⟩ := Prod.mk.inj (Option.some.inj (hnone.symm.trans h))
    exact ⟨ClientKeeps.refl client, rfl⟩

/-- Requests one after the other. -/
theorem calls_keep {calls : List MqttAppCall}
    (h : runCalls clientCall client (calls.map MqttAppCall.call) = some (client', out)) :
    ClientKeeps client client' ∧ client'.in_buffer = client.in_buffer := by
  rw [← runCalls_map] at h
  refine runCalls_invariant (fun c => ClientKeeps client c ∧ c.in_buffer = client.in_buffer) ?_ ⟨ClientKeeps.refl client, rfl⟩ h
  rintro c k c' o ⟨hk, hs⟩ hcall
  obtain ⟨hk', hs'⟩ := app_keeps hcall
  exact ⟨hk.trans hk', hs'.trans hs⟩

/-- **What is told**, and what the application does on it. -/
theorem dispatch_keeps {handler : EventHandler} (out : List MqttOut) : ∀ {answers : ℕ → SendAnswer}
    {client client' : MqttClient} {out' : List MqttOut}, dispatchEvents handler answers client out = some (client', out') →
      ClientKeeps client client' ∧ client'.in_buffer = client.in_buffer := by
  induction out with
  | nil =>
    intro answers client client' out' h
    obtain ⟨rfl, rfl⟩ := Prod.mk.inj (Option.some.inj h)
    exact ⟨ClientKeeps.refl _, rfl⟩
  | cons o out ih =>
    intro answers client client' out' h
    cases o with
    | event e =>
      obtain ⟨calls, -, hrun⟩ := Option.bind_eq_some_iff.mp h
      obtain ⟨⟨client₁, out₁⟩, hcalls, hlast⟩ := Option.bind_eq_some_iff.mp hrun
      obtain ⟨⟨client₂, out₂⟩, hdispatch, heq⟩ := Option.map_eq_some_iff.mp hlast
      obtain ⟨rfl, rfl⟩ := Prod.mk.inj heq
      obtain ⟨hk, hs⟩ := calls_keep hcalls
      obtain ⟨hk', hs'⟩ := ih hdispatch
      exact ⟨hk.trans hk', hs'.trans hs⟩
    | wrote m =>
      obtain ⟨⟨client₁, out₁⟩, hdispatch, heq⟩ := Option.map_eq_some_iff.mp h
      obtain ⟨rfl, rfl⟩ := Prod.mk.inj heq
      exact ih hdispatch
    | returned r =>
      obtain ⟨⟨client₁, out₁⟩, hdispatch, heq⟩ := Option.map_eq_some_iff.mp h
      obtain ⟨rfl, rfl⟩ := Prod.mk.inj heq
      exact ih hdispatch

theorem filter_eraseP {α : Type} {p q : α → Bool} (h : ∀ a, p a → q a = false) (l : List α) :
    (l.eraseP p).filter q = l.filter q := by
  induction l with
  | nil => rfl
  | cons a l ih =>
    by_cases hp : p a
    · rw [List.eraseP_cons_of_pos hp, List.filter_cons_of_neg (by rw [h a hp]; decide)]
    · rw [List.eraseP_cons_of_neg hp, List.filter_cons, List.filter_cons, ih]

/-- An acknowledgement removes nothing else. -/
theorem acknowledged_keeps {type : MqttType} (ht : type ∈ awaitedTypes) {id : ℕ} {events : List MqttEvent}
    (h : client.acknowledged type id events = some (client', out)) : ClientKeeps client client' := by
  obtain ⟨rfl, rfl⟩ := Prod.mk.inj (Option.some.inj h)
  rw [MqttClient.is_valid_mqtt_msg]
  by_cases hzero : client.pending_msg_count = 0
  · rw [if_pos hzero]
    exact ClientKeeps.refl client
  rw [if_neg hzero]
  split
  · next outbox hdelete =>
    rw [outbox_delete] at hdelete
    split_ifs at hdelete
    obtain rfl := Option.some.inj hdelete
    refine ⟨?_, fun _ h => h⟩
    have hstuck : client.stuck =
        (client.outbox.eraseP fun item => item.msg_id = id ∧ item.msg_type = type.code).filter
          fun item => item.msg_type ∉ awaitedTypes.map MqttType.code := by
      refine (filter_eraseP (fun item hitem => ?_) client.outbox).symm
      rw [(of_decide_eq_true hitem).2]
      exact decide_eq_false (not_not.mpr (List.mem_map_of_mem ht))
    rw [hstuck]
    exact List.prefix_refl _
  · by_cases hslot : client.pending_msg_type = type.code ∧ client.pending_msg_id = id
    · rw [if_pos hslot]
      exact ⟨List.prefix_refl _, fun _ h => h⟩
    · rw [if_neg hslot]
      exact ClientKeeps.refl client

theorem delivered_keeps {read_len : ℕ} {more : List Bytes} (h : client.delivered read_len more = some (client', out)) :
    ClientKeeps client client' := by
  obtain ⟨length, -, h⟩ := Option.bind_eq_some_iff.mp h
  obtain ⟨⟨buffer, events⟩, -, heq⟩ := Option.map_eq_some_iff.mp h
  obtain ⟨rfl, rfl⟩ := Prod.mk.inj heq
  exact ⟨List.prefix_refl _, fun _ h => h⟩

theorem process_keeps {read_len type qos id drawn : ℕ} {written : ℤ} {more : List Bytes}
    (h : client.process read_len type qos id drawn written more = some (client', out)) : ClientKeeps client client' := by
  unfold MqttClient.process at h
  split at h
  · exact acknowledged_keeps (by decide) h
  · exact acknowledged_keeps (by decide) h
  · obtain ⟨⟨c₁, o₁⟩, hanswer, h⟩ := Option.bind_eq_some_iff.mp h
    obtain ⟨⟨c₂, o₂⟩, hdeliver, heq⟩ := Option.map_eq_some_iff.mp h
    obtain ⟨rfl, rfl⟩ := Prod.mk.inj heq
    refine ClientKeeps.trans ?_ (delivered_keeps hdeliver)
    split_ifs at hanswer
    · exact (ack_keeps (by decide) hanswer).1
    · exact (ack_keeps (by decide) hanswer).1
    · obtain ⟨rfl, rfl⟩ := Prod.mk.inj (Option.some.inj hanswer)
      exact ClientKeeps.refl _
  · exact acknowledged_keeps (by decide) h
  · exact (ack_keeps (by decide) h).1
  · exact (ack_keeps (by decide) h).1
  · exact acknowledged_keeps (by decide) h
  · exact (bare_keeps h).1
  · obtain ⟨rfl, rfl⟩ := Prod.mk.inj (Option.some.inj h)
    exact ClientKeeps.refl _

/-- **A read**; without bytes it leaves all as it is. -/
theorem receive_keeps {read : Option Bytes} {drawn : ℕ} {written : ℤ} {more : List Bytes} {ok : Bool}
    (h : client.mqtt_process_receive read drawn written more = some (ok, client', out)) :
    ClientKeeps client client' ∧ (read = none ∨ read = some [] → client'.in_buffer = client.in_buffer) := by
  match read, h with
  | none, h | some [], h =>
    obtain ⟨-, heq⟩ := Prod.mk.inj (Option.some.inj h)
    obtain ⟨rfl, rfl⟩ := Prod.mk.inj heq
    exact ⟨ClientKeeps.refl _, fun _ => rfl⟩
  | some (c :: bytes), h =>
    obtain ⟨buffer, -, htype⟩ := Option.bind_eq_some_iff.mp h
    obtain ⟨type, -, hqos⟩ := Option.bind_eq_some_iff.mp htype
    obtain ⟨qos, -, hid⟩ := Option.bind_eq_some_iff.mp hqos
    obtain ⟨id, -, hrun⟩ := Option.bind_eq_some_iff.mp hid
    obtain ⟨⟨c', o'⟩, hprocess, heq⟩ := Option.map_eq_some_iff.mp hrun
    obtain ⟨-, heq⟩ := Prod.mk.inj heq
    obtain ⟨rfl, rfl⟩ := Prod.mk.inj heq
    obtain ⟨hstuck, hroom⟩ := process_keeps hprocess
    exact ⟨⟨hstuck, hroom⟩, fun hread => by rcases hread with hread | hread <;> cases hread⟩

end ClientKeeps

/-! ## What CONNECT leaves -/

/-- A CONNACK with the code 0 at the start of a buffer. -/
def Accepting (m : Bytes) : Prop :=
  mqtt_get_type m = some MqttType.connack.code ∧ mqtt_get_connect_return_code m = some 0

/-- What `esp_mqtt_connect` leaves of the client; without anything read the answer lies in the buffer already. -/
theorem connect_leaves_client {client client' : MqttClient} {info : MqttConnectInfo} {written : ℤ} {read : Option Bytes}
    {ok : Bool} {out : List MqttOut} (h : esp_mqtt_connect client info written read = some (ok, client', out)) :
    ∃ connection type id m,
      mqtt_msg_connect (mqtt_msg_init client.mqtt_connection.buffer client.mqtt_connection.buffer_length) info =
        some connection ∧
      mqtt_get_type (connection.buffer.drop connection.data) = some type ∧
      client' = { client with
        mqtt_connection := connection, pending_msg_type := type, pending_msg_id := id, in_buffer := m } ∧
      (read = none ∨ read = some [] →
        m = client.in_buffer ∧ (ok = true ↔ 0 ≤ written ∧ read = some [] ∧ Accepting client.in_buffer)) := by
  obtain ⟨connection, hconnect, htype⟩ := Option.bind_eq_some_iff.mp h
  obtain ⟨type, htype, hid⟩ := Option.bind_eq_some_iff.mp htype
  obtain ⟨id, -, hwrite⟩ := Option.bind_eq_some_iff.mp hid
  refine ⟨connection, type, id, client'.in_buffer, hconnect, htype, ?_⟩
  dsimp only at hwrite
  split_ifs at hwrite with hfail
  · obtain ⟨rfl, heq⟩ := Prod.mk.inj (Option.some.inj hwrite)
    obtain ⟨rfl, rfl⟩ := Prod.mk.inj heq
    exact ⟨rfl, fun _ => ⟨rfl, iff_of_false Bool.false_ne_true fun hc => absurd hc.1 (by omega)⟩⟩
  · cases read with
    | none =>
      obtain ⟨rfl, heq⟩ := Prod.mk.inj (Option.some.inj hwrite)
      obtain ⟨rfl, rfl⟩ := Prod.mk.inj heq
      exact ⟨rfl, fun _ => ⟨rfl, iff_of_false Bool.false_ne_true fun hc => by cases hc.2.1⟩⟩
    | some bytes =>
      obtain ⟨buffer, hst, hread⟩ := Option.bind_eq_some_iff.mp hwrite
      obtain ⟨type', htype', hcode⟩ := Option.bind_eq_some_iff.mp hread
      have hsame : (some bytes = none ∨ some bytes = some []) → buffer = client.in_buffer := by
        rintro (hc | hc)
        · cases hc
        · obtain rfl := Option.some.inj hc
          rw [store_of_le (Nat.zero_le _)] at hst
          rw [← Option.some.inj hst, List.take_zero, List.nil_append, List.nil_append]
          exact List.drop_zero
      split_ifs at hcode with hack
      · obtain ⟨rfl, heq⟩ := Prod.mk.inj (Option.some.inj hcode)
        obtain ⟨rfl, rfl⟩ := Prod.mk.inj heq
        refine ⟨rfl, fun hunread => ⟨hsame hunread, iff_of_false Bool.false_ne_true fun hc => hack ?_⟩⟩
        rw [hsame hunread, hc.2.2.1] at htype'
        exact (Option.some.inj htype').symm
      · obtain ⟨code, hget, hlast⟩ := Option.map_eq_some_iff.mp hcode
        obtain ⟨rfl, heq⟩ := Prod.mk.inj hlast
        obtain ⟨rfl, rfl⟩ := Prod.mk.inj heq
        refine ⟨rfl, fun hunread => ⟨hsame hunread, ?_⟩⟩
        obtain rfl := Option.some.inj (hunread.resolve_left fun hc => by cases hc)
        rw [hsame hunread, not_not.mp hack] at htype'
        rw [hsame hunread] at hget
        rw [decide_eq_true_iff]
        constructor
        · rintro rfl
          exact ⟨by omega, rfl, htype', hget⟩
        · exact fun hc => Option.some.inj (hget.symm.trans hc.2.2.2)

/-! ## Rounds -/

section Rounds

variable {handler : EventHandler} {task task' : MqttTask} {out : List TaskOut}

theorem connections_cons (o : TaskOut) (log : List TaskOut) : connections (o :: log) = connections [o] + connections log :=
  connections_append [o] log

theorem connections_disconnected {out : List MqttOut} (hsilent : ∀ o ∈ out, o.Silent) :
    connections (.mqtt (.event .disconnected) :: out.map .mqtt) = 0 := by
  rw [connections_cons, connections_plain fun o ho => (hsilent o ho).plain]
  rfl

theorem connections_connected (log : List TaskOut) : 0 < connections (.mqtt (.event .connected) :: log) := by
  rw [connections_cons]
  exact Nat.lt_of_lt_of_le Nat.one_pos (Nat.le_add_right 1 _)

/-- A step from anywhere else tells no connection. -/
theorem TaskStep.connected_init (h : TaskStep task task' out) (hinit : task.client.state ≠ .init) : connections out = 0 := by
  cases h with
  | stays o client => exact connections_plain client.plain
  | resumes => rfl
  | fails o o' plain silent =>
    rw [connections_append, connections_plain plain, connections_disconnected silent]
  | refused _ _ _ _ _ _ init | connects _ _ _ _ _ _ init | restarts _ init => exact absurd init hinit
  | ends =>
    rw [tcp_close]
    cases task.sock <;> rfl

/-- A log in which no connection is told. -/
theorem connections_failed (now : ℕ) {sock : Option ℕ} {log : List TaskOut} (h : Attempted task sock false log)
    {out : List MqttOut} (hsilent : ∀ o ∈ out, o.Silent) :
    connections (.attempt now :: log ++ .mqtt (.event .disconnected) :: out.map .mqtt) = 0 := by
  rw [connections_append, connections_disconnected hsilent]
  cases h <;> rfl

/-- **A connection is told iff** CONNECT was asked over a socket and taken to be accepted; the handler is called behind
it. -/
theorem connectRound_told {r : TaskRound} (h : task.connectRound handler r = some (task', out)) :
    (connections out = 0 ∧ ∀ fd client msg, r.tcp = .connected fd →
      esp_mqtt_connect task.client task.connect_info r.written r.read ≠ some (true, client, msg)) ∨
    (0 < connections out ∧ ∃ fd client msg out', r.tcp = .connected fd ∧
      esp_mqtt_connect task.client task.connect_info r.written r.read = some (true, client, msg) ∧
      dispatchEvents handler r.answers { client with state := .connected } [.event .connected] =
        some (task'.client, out')) := by
  unfold MqttTask.connectRound at h
  cases htcp : r.tcp with
  | unresolved =>
    rw [htcp] at h
    obtain ⟨⟨t, o⟩, habort, heq⟩ := Option.map_eq_some_iff.mp h
    obtain ⟨rfl, rfl⟩ := Prod.mk.inj heq
    obtain ⟨o, rfl, hsilent, -⟩ := abort_step habort
    exact Or.inl ⟨connections_failed _ (@Attempted.unresolved task) hsilent, fun _ _ _ hc => by cases hc⟩
  | noSocket =>
    rw [htcp] at h
    obtain ⟨rfl, rfl⟩ := Prod.mk.inj (Option.some.inj h)
    exact Or.inl ⟨rfl, fun _ _ _ hc => by cases hc⟩
  | refused fd =>
    rw [htcp] at h
    obtain ⟨⟨t, o⟩, habort, heq⟩ := Option.map_eq_some_iff.mp h
    obtain ⟨rfl, rfl⟩ := Prod.mk.inj heq
    obtain ⟨o, rfl, hsilent, -⟩ := abort_step habort
    exact Or.inl ⟨connections_failed _ (@Attempted.refused task fd) hsilent, fun _ _ _ hc => by cases hc⟩
  | connected fd =>
    rw [htcp] at h
    obtain ⟨⟨ok, client, o⟩, hconnect, hrest⟩ := Option.bind_eq_some_iff.mp h
    obtain ⟨-, connection, hbuilt, rfl⟩ := connect_client hconnect
    dsimp only at hrest
    split_ifs at hrest with hok
    · obtain ⟨⟨client', o'⟩, hdispatch, heq⟩ := Option.map_eq_some_iff.mp hrest
      obtain ⟨rfl, rfl⟩ := Prod.mk.inj heq
      obtain ⟨o'', rfl, -⟩ := dispatch_event hdispatch
      obtain rfl := hok
      refine Or.inr ⟨?_, fd, client, _, _, rfl, hconnect, hdispatch⟩
      rw [connections_append]
      exact Nat.lt_of_lt_of_le (connections_connected (o''.map .mqtt)) (Nat.le_add_left _ _)
    · obtain ⟨⟨t, o'⟩, habort, heq⟩ := Option.map_eq_some_iff.mp hrest
      obtain ⟨rfl, rfl⟩ := Prod.mk.inj heq
      obtain ⟨o'', rfl, hsilent, -⟩ := abort_step habort
      refine Or.inl ⟨connections_failed _ (@Attempted.asked task fd false connection hbuilt) hsilent, fun _ _ _ _ hc => ?_⟩
      obtain ⟨rfl, -⟩ := Prod.mk.inj (Option.some.inj (hconnect.symm.trans hc))
      exact hok rfl

/-- What the end of a connection, or of an attempt, keeps. -/
theorem abort_keeps {answers : ℕ → SendAnswer} (h : task.esp_mqtt_abort_connection handler answers = some (task', out)) :
    ClientKeeps task.client task'.client ∧ task'.client.in_buffer = task.client.in_buffer ∧
      task'.connect_info = task.connect_info := by
  obtain ⟨⟨client, out₁⟩, hdispatch, heq⟩ := Option.map_eq_some_iff.mp h
  obtain ⟨rfl, rfl⟩ := Prod.mk.inj heq
  obtain ⟨⟨hstuck, hroom⟩, hsame⟩ := dispatch_keeps _ hdispatch
  exact ⟨⟨hstuck, hroom⟩, hsame, rfl⟩

theorem connect_keeps {client client' : MqttClient} {info : MqttConnectInfo} {written : ℤ} {read : Option Bytes}
    {ok : Bool} {out : List MqttOut} (h : esp_mqtt_connect client info written read = some (ok, client', out)) :
    ClientKeeps client client' ∧ (read = none ∨ read = some [] → client'.in_buffer = client.in_buffer) := by
  obtain ⟨connection, type, id, m, hconnect, -, rfl, hsame⟩ := connect_leaves_client h
  refine ⟨⟨List.prefix_refl _, fun n hn => ?_⟩, fun hunread => (hsame hunread).1⟩
  have hinit : Roomy (mqtt_msg_init client.mqtt_connection.buffer client.mqtt_connection.buffer_length) n :=
    ⟨hn.limit, hn.header, hn.small, hn.size⟩
  obtain ⟨connection', heq, hroomy, -⟩ := connect_leaves hinit info
  obtain rfl := Option.some.inj (hconnect.symm.trans heq)
  exact hroomy

/-- A call that reads nothing. -/
def TaskCall.Unread : TaskCall → Prop
  | .round r => r.read = none ∨ r.read = some []
  | .app _ | .stop => True

/-- What a call keeps. -/
structure TaskKeeps (task task' : MqttTask) (unread : Prop) : Prop where
  client : ClientKeeps task.client task'.client
  connect_info : task'.connect_info = task.connect_info
  in_buffer : unread → task'.client.in_buffer = task.client.in_buffer

theorem connectRound_keeps {r : TaskRound} (h : task.connectRound handler r = some (task', out)) :
    TaskKeeps task task' (r.read = none ∨ r.read = some []) := by
  unfold MqttTask.connectRound at h
  cases htcp : r.tcp with
  | unresolved | refused =>
    rw [htcp] at h
    obtain ⟨⟨t, o⟩, habort, heq⟩ := Option.map_eq_some_iff.mp h
    obtain ⟨rfl, rfl⟩ := Prod.mk.inj heq
    obtain ⟨hk, hs, hi⟩ := abort_keeps habort
    exact ⟨hk, hi, fun _ => hs⟩
  | noSocket =>
    rw [htcp] at h
    obtain ⟨rfl, rfl⟩ := Prod.mk.inj (Option.some.inj h)
    exact ⟨ClientKeeps.refl _, rfl, fun _ => rfl⟩
  | connected fd =>
    rw [htcp] at h
    obtain ⟨⟨ok, client, o⟩, hconnect, hrest⟩ := Option.bind_eq_some_iff.mp h
    obtain ⟨hk, hs⟩ := connect_keeps hconnect
    dsimp only at hrest
    split_ifs at hrest with hok
    · obtain ⟨⟨client', o'⟩, hdispatch, heq⟩ := Option.map_eq_some_iff.mp hrest
      obtain ⟨rfl, rfl⟩ := Prod.mk.inj heq
      obtain ⟨⟨hstuck, hroom⟩, hsame⟩ := dispatch_keeps _ hdispatch
      exact ⟨hk.trans ⟨hstuck, hroom⟩, rfl, fun hunread => hsame.trans (hs hunread)⟩
    · obtain ⟨⟨t, o'⟩, habort, heq⟩ := Option.map_eq_some_iff.mp hrest
      obtain ⟨rfl, rfl⟩ := Prod.mk.inj heq
      obtain ⟨hk', hs', hi⟩ := abort_keeps habort
      exact ⟨hk.trans hk', hi, fun hunread => hs'.trans (hs hunread)⟩

theorem receiveRound_keeps {r : TaskRound} (h : task.receiveRound handler r = some (task', out)) :
    TaskKeeps task task' (r.read = none ∨ r.read = some []) := by
  obtain ⟨⟨ok, client₁, out₁⟩, hreceive, hrest⟩ := Option.bind_eq_some_iff.mp h
  obtain ⟨⟨client₂, out₂⟩, hdispatch, hlast⟩ := Option.bind_eq_some_iff.mp hrest
  obtain ⟨hk₁, hs₁⟩ := receive_keeps hreceive
  obtain ⟨hk₂, hs₂⟩ := dispatch_keeps _ hdispatch
  have hk := hk₁.trans hk₂
  dsimp only at hlast
  split_ifs at hlast with hok
  · obtain ⟨since, -, hping⟩ := Option.bind_eq_some_iff.mp hlast
    split_ifs at hping with hlate
    · obtain ⟨⟨client₃, out₃⟩, hpinged, heq⟩ := Option.map_eq_some_iff.mp hping
      obtain ⟨rfl, rfl⟩ := Prod.mk.inj heq
      rw [MqttClient.esp_mqtt_client_ping] at hpinged
      split_ifs at hpinged with hstate
      · obtain ⟨rfl, rfl⟩ := Prod.mk.inj (Option.some.inj hpinged)
        exact ⟨hk, rfl, fun hunread => hs₂.trans (hs₁ hunread)⟩
      · obtain ⟨hk₃, hs₃⟩ := bare_keeps hpinged
        exact ⟨hk.trans hk₃, rfl, fun hunread => hs₃.trans (hs₂.trans (hs₁ hunread))⟩
    · obtain ⟨rfl, rfl⟩ := Prod.mk.inj (Option.some.inj hping)
      exact ⟨hk, rfl, fun hunread => hs₂.trans (hs₁ hunread)⟩
  · obtain ⟨⟨t, o⟩, habort, heq⟩ := Option.map_eq_some_iff.mp hlast
    obtain ⟨rfl, rfl⟩ := Prod.mk.inj heq
    obtain ⟨hk₃, hs₃, hi⟩ := abort_keeps habort
    exact ⟨hk.trans hk₃, hi, fun hunread => hs₃.trans (hs₂.trans (hs₁ hunread))⟩

theorem waitRound_keeps {r : TaskRound} (h : task.waitRound r = some (task', out)) (p : Prop) : TaskKeeps task task' p := by
  unfold MqttTask.waitRound at h
  by_cases hauto : ¬ task.auto_reconnect
  · rw [if_pos hauto] at h
    obtain ⟨rfl, rfl⟩ := Prod.mk.inj (Option.some.inj h)
    exact ⟨ClientKeeps.refl _, rfl, fun _ => rfl⟩
  · rw [if_neg hauto] at h
    obtain ⟨d, -, heq⟩ := Option.map_eq_some_iff.mp h
    split_ifs at heq
    · obtain ⟨rfl, rfl⟩ := Prod.mk.inj heq
      exact ⟨⟨List.prefix_refl _, fun _ h => h⟩, rfl, fun _ => rfl⟩
    · obtain ⟨rfl, rfl⟩ := Prod.mk.inj heq
      exact ⟨ClientKeeps.refl _, rfl, fun _ => rfl⟩

/-- **Every call**. -/
theorem taskCall_keeps {c : TaskCall} (h : taskCall handler task c = some (task', out)) :
    TaskKeeps task task' c.Unread := by
  cases c with
  | round r =>
    change task.round handler r = some (task', out) at h
    unfold MqttTask.round at h
    by_cases hphase : task.phase ≠ .running
    · rw [if_pos hphase] at h
      obtain ⟨rfl, rfl⟩ := Prod.mk.inj (Option.some.inj h)
      exact ⟨ClientKeeps.refl _, rfl, fun _ => rfl⟩
    rw [if_neg hphase] at h
    by_cases hrun : ¬ task.run
    · rw [if_pos hrun] at h
      obtain ⟨rfl, rfl⟩ := Prod.mk.inj (Option.some.inj h)
      exact ⟨ClientKeeps.refl _, rfl, fun _ => rfl⟩
    · rw [if_neg hrun] at h
      split at h
      · exact connectRound_keeps h
      · exact receiveRound_keeps h
      · exact waitRound_keeps h _
      · obtain ⟨rfl, rfl⟩ := Prod.mk.inj (Option.some.inj h)
        exact ⟨ClientKeeps.refl _, rfl, fun _ => rfl⟩
  | app c =>
    unfold taskCall at h
    dsimp only at h
    split_ifs at h with hphase
    · obtain ⟨rfl, rfl⟩ := Prod.mk.inj (Option.some.inj h)
      exact ⟨ClientKeeps.refl _, rfl, fun _ => rfl⟩
    · obtain ⟨⟨client, o⟩, hcall, heq⟩ := Option.map_eq_some_iff.mp h
      obtain ⟨rfl, rfl⟩ := Prod.mk.inj heq
      obtain ⟨hk, hs⟩ := app_keeps hcall
      exact ⟨hk, rfl, fun _ => hs⟩
  | stop =>
    obtain ⟨rfl, rfl⟩ := Prod.mk.inj (Option.some.inj h)
    exact ⟨ClientKeeps.refl _, rfl, fun _ => rfl⟩

/-- Only a round that connects tells a connection. -/
theorem told_connects {c : TaskCall} (h : taskCall handler task c = some (task', out)) (htold : 0 < connections out) :
    ∃ r, c = .round r ∧ task.phase = .running ∧ task.run = true ∧ task.client.state = .init ∧
      task.connectRound handler r = some (task', out) := by
  have hnone : ∀ {t : MqttTask} {o : List TaskOut}, some (task, []) = some (t, o) → ¬ 0 < connections o := by
    intro t o heq
    obtain ⟨-, rfl⟩ := Prod.mk.inj (Option.some.inj heq)
    exact Nat.lt_irrefl 0
  cases c with
  | round r =>
    change task.round handler r = some (task', out) at h
    unfold MqttTask.round at h
    by_cases hphase : task.phase ≠ .running
    · rw [if_pos hphase] at h
      exact absurd htold (hnone h)
    rw [if_neg hphase] at h
    by_cases hrun : ¬ task.run
    · rw [if_pos hrun] at h
      obtain ⟨-, rfl⟩ := Prod.mk.inj (Option.some.inj h)
      rw [tcp_close] at htold
      cases hsock : task.sock <;> rw [hsock] at htold <;> exact absurd htold (Nat.lt_irrefl 0)
    · rw [if_neg hrun] at h
      split at h
      · next hstate => exact ⟨r, rfl, not_not.mp hphase, not_not.mp hrun, hstate, h⟩
      · next hstate =>
        have hstep := receiveRound_step hstate h
        exact absurd htold (by rw [hstep.connected_init (by rw [hstate]; decide)]; exact Nat.lt_irrefl 0)
      · next hstate =>
        have hstep := waitRound_step hstate h
        exact absurd htold (by rw [hstep.connected_init (by rw [hstate]; decide)]; exact Nat.lt_irrefl 0)
      · exact absurd htold (hnone h)
  | app c =>
    unfold taskCall at h
    dsimp only at h
    split_ifs at h with hphase
    · exact absurd htold (hnone h)
    · obtain ⟨⟨client, o⟩, hcall, heq⟩ := Option.map_eq_some_iff.mp h
      obtain ⟨rfl, rfl⟩ := Prod.mk.inj heq
      rw [connections_plain (app_stays hcall).1.plain] at htold
      exact absurd htold (Nat.lt_irrefl 0)
  | stop =>
    obtain ⟨rfl, rfl⟩ := Prod.mk.inj (Option.some.inj h)
    exact absurd htold (Nat.lt_irrefl 0)

end Rounds

/-! ## A run in which nothing is read -/

/-- A round that writes CONNECT to a socket and gets nothing back. -/
structure AsksSilent (task : MqttTask) (r : TaskRound) : Prop where
  running : task.phase = .running ∧ task.run = true
  init : task.client.state = .init
  up : ∃ fd, r.tcp = .connected fd
  written : 0 ≤ r.written
  read : r.read = some []

section Runs

variable {handler : EventHandler} {task task₁ task₂ : MqttTask} {calls : List TaskCall} {out out' : List TaskOut}

theorem run_unread (hunread : ∀ c ∈ calls, c.Unread) (h : runCalls (taskCall handler) task calls = some (task₁, out)) :
    task₁.client.in_buffer = task.client.in_buffer := by
  induction calls generalizing task out with
  | nil =>
    obtain ⟨rfl, -⟩ := Prod.mk.inj (Option.some.inj h)
    rfl
  | cons c calls ih =>
    obtain ⟨task₂, out₁, out₂, hcall, hrest, -⟩ := runCalls_cons_eq_some.mp h
    exact (ih (fun c hc => hunread c (List.mem_cons_of_mem _ hc)) hrest).trans
      ((taskCall_keeps hcall).in_buffer (hunread c List.mem_cons_self))

/-- **A silent server** is told to be connected iff the buffer starts with an accepting CONNACK, over any run in which
nothing is read: the buffer is that of the start of the run. -/
theorem stale_connack (hunread : ∀ c ∈ calls, c.Unread) (h : runCalls (taskCall handler) task calls = some (task₁, out))
    {r : TaskRound} (hr : (TaskCall.round r).Unread) (hround : taskCall handler task₁ (.round r) = some (task₂, out')) :
    0 < connections out' ↔ AsksSilent task₁ r ∧ Accepting task.client.in_buffer := by
  have hbuffer := run_unread hunread h
  constructor
  · intro htold
    obtain ⟨r', heq, hphase, hrun, hinit, hconnect⟩ := told_connects hround htold
    obtain rfl := TaskCall.round.inj heq
    rcases connectRound_told hconnect with ⟨hzero, -⟩ | ⟨-, fd, client, msg, out₁, htcp, hask, -⟩
    · exact absurd hzero (Nat.ne_of_gt htold)
    · obtain ⟨_, _, _, _, _, _, _, hsame⟩ := connect_leaves_client hask
      obtain ⟨hwritten, hread, haccept⟩ := (hsame hr).2.mp rfl
      exact ⟨⟨⟨hphase, hrun⟩, hinit, ⟨fd, htcp⟩, hwritten, hread⟩, hbuffer ▸ haccept⟩
  · rintro ⟨⟨⟨hphase, hrun⟩, hinit, ⟨fd, htcp⟩, hwritten, hread⟩, haccept⟩
    rw [← hbuffer] at haccept
    change task₁.round handler r = some (task₂, out') at hround
    rw [MqttTask.round, if_neg (not_not.mpr hphase), if_neg (not_not.mpr hrun), hinit] at hround
    rcases connectRound_told hround with ⟨-, hnot⟩ | ⟨htold, -⟩
    · exfalso
      unfold MqttTask.connectRound at hround
      rw [htcp] at hround
      obtain ⟨⟨ok, client, o⟩, hask, -⟩ := Option.bind_eq_some_iff.mp hround
      obtain ⟨_, _, _, _, _, _, _, hsame⟩ := connect_leaves_client hask
      obtain rfl := (hsame hr).2.mpr ⟨hwritten, hread, haccept⟩
      exact hnot fd client o htcp hask
    · exact htold

end Runs

/-! ## What connections leave in the outbox -/

/-- How many connections are told while a request has not been acknowledged. -/
def strandings (handler : EventHandler) : MqttTask → List TaskCall → ℕ
  | _, [] => 0
  | task, c :: calls =>
    match taskCall handler task c with
    | none => 0
    | some (task', out) =>
      (if 0 < connections out ∧ 0 < task.client.pending_msg_count then 1 else 0) + strandings handler task' calls

section Strand

variable {n : ℕ} {names : DeviceNames} {task task' : MqttTask} {out : List TaskOut}

/-- A subscription behind CONNECT. -/
theorem subscribe_strands {client client' : MqttClient} {out : List MqttOut} {topic : Option Bytes} {qos : ℕ}
    {a : SendAnswer} (hstate : client.state = .connected) (hcount : 0 < client.pending_msg_count)
    (htype : client.pending_msg_type = MqttType.connect.code)
    (h : clientCall client (MqttAppCall.subscribe topic qos a).call = some (client', out)) :
    client.stuck.length + 1 ≤ client'.stuck.length := by
  rw [MqttAppCall.call, clientCall, MqttClient.esp_mqtt_client_subscribe, if_neg (not_not.mpr hstate)] at h
  have hlast := (tracked_keeps (fun n hn => ⟨_, _, subscribe_leaves hn topic qos _ a.drawn⟩) h).1.stuck.length_le
  refine le_trans (le_of_eq ?_) hlast
  rw [MqttClient.mqtt_enqueue, if_pos hcount, MqttClient.stuck, MqttClient.stuck, outbox_enqueue, List.filter_append,
    List.length_append, htype]
  rfl

/-- **One connection**: the handler's first subscription finds the request of before, and CONNECT in its place. -/
theorem connect_strands (hroom : Roomy task.client.mqtt_connection n)
    (hfits : (MqttRequest.connect task.connect_info).message n ≠ []) (hcount : 0 < task.client.pending_msg_count)
    {r : TaskRound} (h : task.connectRound (mqtt_event_handler names) r = some (task', out)) (htold : 0 < connections out) :
    task.client.stuck.length + 1 ≤ task'.client.stuck.length := by
  rcases connectRound_told h with ⟨hzero, -⟩ | ⟨-, fd, client, msg, out₁, -, hask, hdispatch⟩
  · exact absurd hzero (Nat.ne_of_gt htold)
  obtain ⟨connection, type, id, m, hconnect, htype, rfl, -⟩ := connect_leaves_client hask
  -- the type that is remembered is that of CONNECT
  obtain ⟨p, hp, hwire⟩ := message_eq_wire hfits
  obtain ⟨hd, hq, hr⟩ := packet_flags hp
  have hinit : Roomy (mqtt_msg_init task.client.mqtt_connection.buffer task.client.mqtt_connection.buffer_length) n :=
    ⟨hroom.limit, hroom.header, hroom.small, hroom.size⟩
  obtain ⟨connection', heq, -, hmessage⟩ := connect_leaves hinit task.connect_info
  obtain rfl := Option.some.inj (hconnect.symm.trans heq)
  obtain rfl := Option.some.inj (htype.symm.trans (built_type hd hq hr (hmessage.trans hwire)))
  obtain ⟨client_id, -, rfl⟩ := Option.map_eq_some_iff.mp hp
  -- the first subscription
  obtain ⟨calls, hcalls, hrun⟩ := Option.bind_eq_some_iff.mp hdispatch
  obtain rfl := Option.some.inj hcalls
  obtain ⟨⟨client₂, out₂⟩, hruns, hlast⟩ := Option.bind_eq_some_iff.mp hrun
  obtain ⟨⟨client₃, out₃⟩, hnil, heq⟩ := Option.map_eq_some_iff.mp hlast
  obtain ⟨rfl, rfl⟩ := Prod.mk.inj (Option.some.inj hnil)
  obtain ⟨heq, -⟩ := Prod.mk.inj heq
  obtain ⟨client₄, out₄, out₅, hfirst, hrest, -⟩ := runCalls_cons_eq_some.mp hruns
  have hsecond := (calls_keep hrest).1.stuck.length_le
  have hone := subscribe_strands (by rfl) (by exact hcount) (by rfl) hfirst
  rw [← heq]
  exact hone.trans hsecond

/-- **The outbox grows** with every connection that is told while a request has not been acknowledged, and what it got
so no call removes; whatever the application requests, and whatever is read. -/
theorem connects_strand {calls : List TaskCall} (hroom : Roomy task.client.mqtt_connection n)
    (hfits : (MqttRequest.connect task.connect_info).message n ≠ [])
    (h : runCalls (taskCall (mqtt_event_handler names)) task calls = some (task', out)) :
    task.client.stuck <+: task'.client.stuck ∧
      task.client.stuck.length + strandings (mqtt_event_handler names) task calls ≤ task'.client.stuck.length := by
  induction calls generalizing task out with
  | nil =>
    obtain ⟨rfl, -⟩ := Prod.mk.inj (Option.some.inj h)
    exact ⟨List.prefix_refl _, le_rfl⟩
  | cons c calls ih =>
    obtain ⟨task₁, out₁, out₂, hcall, hrest, -⟩ := runCalls_cons_eq_some.mp h
    obtain ⟨hkeeps, hinfo, -⟩ := taskCall_keeps hcall
    obtain ⟨hfront, hlen⟩ := ih (hkeeps.room n hroom) (hinfo ▸ hfits) hrest
    refine ⟨hkeeps.stuck.trans hfront, ?_⟩
    have hone := hkeeps.stuck.length_le
    rw [strandings, hcall]
    dsimp only
    split_ifs with hcond
    · obtain ⟨r, rfl, -, -, -, hconnect⟩ := told_connects hcall hcond.1
      have hgrows := connect_strands hroom hfits hcond.2 hconnect hcond.1
      omega
    · omega

end Strand

/-- A connection. -/
def sampleFirstRound : TaskCall := sampleRound (.connected 3) (some [0x20, 2, 0, 0]) 5

/-- Its end, and the time in front of the next; nothing is read any more. -/
def sampleGap : List TaskCall := [sampleRound .unresolved none 5, sampleRound .unresolved none 10001]

theorem sampleHeld_defined : (taskCall (mqtt_event_handler sampleDevice) (MqttTask.started sampleIdle sampleInfo true 100)
    sampleFirstRound).isSome := by decide +kernel

/-- The task behind the first connection. -/
def sampleHeld : MqttTask :=
  ((taskCall (mqtt_event_handler sampleDevice) (MqttTask.started sampleIdle sampleInfo true 100) sampleFirstRound).get
    sampleHeld_defined).1

theorem sampleBehind_defined : (runCalls (taskCall (mqtt_event_handler sampleDevice)) sampleHeld sampleGap).isSome := by
  decide +kernel

/-- The task in front of the second. -/
def sampleBehind : MqttTask × List TaskOut :=
  (runCalls (taskCall (mqtt_event_handler sampleDevice)) sampleHeld sampleGap).get sampleBehind_defined

theorem sampleAgain_defined : (taskCall (mqtt_event_handler sampleDevice) sampleBehind.1
    (sampleRound (.connected 4) (some []) 5)).isSome := by decide +kernel

/-- The connection to a server that answers nothing. -/
theorem stale_connack_sample : 0 < connections ((taskCall (mqtt_event_handler sampleDevice) sampleBehind.1
      (sampleRound (.connected 4) (some []) 5)).get sampleAgain_defined).2 ↔
    AsksSilent sampleBehind.1 ⟨.connected 4, 1, some [], [], 0, 5, 0, fun _ => ⟨1, 0, 1⟩⟩ ∧
      Accepting sampleHeld.client.in_buffer :=
  stale_connack
    (by
      intro c hc
      rcases hc with _ | ⟨_, _ | ⟨_, hc⟩⟩
      · exact Or.inl rfl
      · exact Or.inl rfl
      · cases hc)
    (Option.some_get sampleBehind_defined).symm (Or.inr rfl) (Option.some_get sampleAgain_defined).symm

example : AsksSilent sampleBehind.1 ⟨.connected 4, 1, some [], [], 0, 5, 0, fun _ => ⟨1, 0, 1⟩⟩ ∧
    Accepting sampleHeld.client.in_buffer := by
  refine ⟨⟨⟨?_, ?_⟩, ?_, ⟨4, rfl⟩, Int.one_nonneg, rfl⟩, ?_, ?_⟩ <;> decide +kernel

theorem sampleStrand_defined : (runCalls (taskCall (mqtt_event_handler sampleDevice))
    (MqttTask.started sampleIdle sampleInfo true 100) (sampleFirstRound :: sampleGap ++ [sampleRound (.connected 4) (some []) 5])).isSome := by
  decide +kernel

theorem connects_strand_sample :
    (MqttTask.started sampleIdle sampleInfo true 100).client.stuck <+: ((runCalls (taskCall (mqtt_event_handler sampleDevice))
      (MqttTask.started sampleIdle sampleInfo true 100) (sampleFirstRound :: sampleGap ++ [sampleRound (.connected 4) (some []) 5])).get
        sampleStrand_defined).1.client.stuck ∧
    (MqttTask.started sampleIdle sampleInfo true 100).client.stuck.length +
        strandings (mqtt_event_handler sampleDevice) (MqttTask.started sampleIdle sampleInfo true 100)
          (sampleFirstRound :: sampleGap ++ [sampleRound (.connected 4) (some []) 5]) ≤
      ((runCalls (taskCall (mqtt_event_handler sampleDevice)) (MqttTask.started sampleIdle sampleInfo true 100)
        (sampleFirstRound :: sampleGap ++ [sampleRound (.connected 4) (some []) 5])).get sampleStrand_defined).1.client.stuck.length :=
  connects_strand (roomy_init (n := 40) (by decide) (by decide) List.length_replicate.ge) (by decide +kernel)
    (Option.some_get sampleStrand_defined).symm

example : strandings (mqtt_event_handler sampleDevice) (MqttTask.started sampleIdle sampleInfo true 100)
    (sampleFirstRound :: sampleGap ++ [sampleRound (.connected 4) (some []) 5]) = 1 := by decide +kernel

end Esp32Base
