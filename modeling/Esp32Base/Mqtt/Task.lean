import Esp32Base.Mqtt.Client

/-!
# Mqtt.Task — the task of the client (mqtt_client.c, transport_tcp.c)

Round by round the task connects, reads and waits; the application calls in between, and its handler is called in the
middle of a round.

* `taskCall`: a round with what the network and the clock answer, a call of the application, or `esp_mqtt_client_stop`.
* `task_waits`: the time between two attempts.
* `task_sockets`: what becomes of the sockets.
-/

namespace Esp32Base

open Lib Lib.Buf Lib.CText

/-! ## The transport -/

/-- What the system answers `tcp_connect`; sockets are numbered from 0 on. -/
inductive TcpAnswer
  | unresolved
  | noSocket
  | refused (fd : ℕ)
  | connected (fd : ℕ)

/-- The log of a task: attempts to connect, with the time, sockets and what the client does. -/
inductive TaskOut
  | attempt (now : ℕ)
  | opened (fd : ℕ)
  | closed (fd : ℕ)
  | restarted
  | mqtt (out : MqttOut)

/-- `tcp->sock`, none for -1, and whether it is connected; a failure to create a socket is a restart. -/
def tcp_connect (sock : Option ℕ) : TcpAnswer → Option ℕ × Bool × List TaskOut
  | .unresolved => (sock, false, [])
  | .noSocket => (none, false, [.restarted])
  | .refused fd => (none, false, [.opened fd, .closed fd])
  | .connected fd => (some fd, true, [.opened fd])

def tcp_close (sock : Option ℕ) : List TaskOut := (sock.map .closed).toList

/-- The clock as an `int`. -/
def platform_tick_get_ms (now : ℕ) : ℤ := Int.bmod now (2 ^ 32)

/-- The difference of two of them, undefined when an `int` cannot hold it. -/
def tickSince (tick since : ℤ) : Option ℤ :=
  if -2 ^ 31 ≤ tick - since ∧ tick - since < 2 ^ 31 then some (tick - since) else none

theorem tickSince_le {now past : ℕ} (h : past ≤ now) {d : ℤ}
    (hd : tickSince (platform_tick_get_ms now) (platform_tick_get_ms past) = some d) : d ≤ now - past := by
  unfold tickSince at hd
  split_ifs at hd with hrange
  obtain rfl := Option.some.inj hd
  have hnow := Int.bmod_add_bdiv now (2 ^ 32)
  have hpast := Int.bmod_add_bdiv past (2 ^ 32)
  unfold platform_tick_get_ms at *
  generalize Int.bmod now (2 ^ 32) = a at *
  generalize Int.bmod past (2 ^ 32) = b at *
  push_cast at hnow hpast
  omega

/-! ## The application -/

/-- What `platform_random`, the clock and the transport answer a request. -/
structure SendAnswer where
  drawn : ℕ
  tick : ℤ
  written : ℤ

/-- A request of the application. -/
inductive MqttAppCall
  | publish (topic : Option Bytes) (data : Bytes) (len : ℤ) (qos retain : ℕ) (answer : SendAnswer)
  | subscribe (topic : Option Bytes) (qos : ℕ) (answer : SendAnswer)
  | unsubscribe (topic : Option Bytes) (answer : SendAnswer)

def MqttAppCall.call : MqttAppCall → ClientCall
  | .publish topic data len qos retain a => .publish topic data len qos retain a.drawn a.tick a.written
  | .subscribe topic qos a => .subscribe topic qos a.drawn a.tick a.written
  | .unsubscribe topic a => .unsubscribe topic a.drawn a.tick a.written

/-- `event_handle`: what it requests on an event, given the answers to it. -/
abbrev EventHandler := MqttEvent → (ℕ → SendAnswer) → Option (List MqttAppCall)

/-- `esp_mqtt_dispatch_event` for the events of some outputs; the answers are used up in their order. -/
def dispatchEvents (handler : EventHandler) :
    (ℕ → SendAnswer) → MqttClient → List MqttOut → Option (MqttClient × List MqttOut)
  | _, client, [] => some (client, [])
  | answers, client, .event e :: out =>
    (handler e answers).bind fun calls =>
      (runCalls clientCall client (calls.map MqttAppCall.call)).bind fun (client, out') =>
        (dispatchEvents handler (fun i => answers (i + calls.length)) client out).map fun (client, out) =>
          (client, .event e :: (out' ++ out))
  | answers, client, o :: out => (dispatchEvents handler answers client out).map fun (client, out) => (client, o :: out)

/-! ## The task -/

/-- Whether the task still runs; it does not after a restart. -/
inductive TaskPhase
  | running | ended | restarted
  deriving DecidableEq

/-- The client and what the task keeps with it; `now` is the clock of the system. -/
structure MqttTask where
  client : MqttClient
  connect_info : MqttConnectInfo
  auto_reconnect : Bool
  run : Bool
  keepalive_tick : ℤ
  reconnect_tick : ℤ
  wait_timeout_ms : ℤ
  sock : Option ℕ
  phase : TaskPhase
  now : ℕ

/-- What the network answers in a round, and how much time goes by in front of the first and the second look at the
clock; `read` is none when the transport fails. -/
structure TaskRound where
  tcp : TcpAnswer
  written : ℤ
  read : Option Bytes
  more : List Bytes
  drawn : ℕ
  before : ℕ
  between : ℕ
  answers : ℕ → SendAnswer

/-- CONNECT and the answer to it, which is looked for in the buffer even when nothing was read. -/
def esp_mqtt_connect (client : MqttClient) (info : MqttConnectInfo) (written : ℤ) (read : Option Bytes) :
    Option (Bool × MqttClient × List MqttOut) :=
  (mqtt_msg_connect (mqtt_msg_init client.mqtt_connection.buffer client.mqtt_connection.buffer_length) info).bind
    fun connection =>
      (mqtt_get_type (connection.buffer.drop connection.data)).bind fun type =>
        (mqtt_get_id (connection.buffer.drop connection.data) connection.length).bind fun id =>
          let client := { client with mqtt_connection := connection, pending_msg_type := type, pending_msg_id := id }
          let out := [.wrote connection.message]
          if written < 0 then some (false, client, out)
          else
            match read with
            | none => some (false, client, out)
            | some bytes =>
              (store client.in_buffer 0 bytes).bind fun in_buffer =>
                let client := { client with in_buffer := in_buffer }
                (mqtt_get_type in_buffer).bind fun type =>
                  if type ≠ MqttType.connack.code then some (false, client, out)
                  else (mqtt_get_connect_return_code in_buffer).map fun code => (code = 0, client, out)

namespace MqttTask

variable (handler : EventHandler)

def esp_mqtt_abort_connection (task : MqttTask) (answers : ℕ → SendAnswer) : Option (MqttTask × List TaskOut) :=
  let client := { task.client with state := .waitTimeout }
  (dispatchEvents handler answers client [.event .disconnected]).map fun (client, out) =>
    ({ task with
      client := client
      wait_timeout_ms := 10000
      reconnect_tick := platform_tick_get_ms task.now }, out.map .mqtt)

/-- `MQTT_STATE_INIT`. -/
def connectRound (task : MqttTask) (r : TaskRound) : Option (MqttTask × List TaskOut) :=
  let (sock, ok, out) := tcp_connect task.sock r.tcp
  let out := .attempt task.now :: out
  let task := { task with sock := sock, now := task.now + r.before }
  match r.tcp, ok with
  | .noSocket, _ => some ({ task with phase := .restarted }, out)
  | _, false => (task.esp_mqtt_abort_connection handler r.answers).map fun (task, out') => (task, out ++ out')
  | _, true =>
    (esp_mqtt_connect task.client task.connect_info r.written r.read).bind fun (ok, client, out') =>
      let out := out ++ out'.map .mqtt
      if ok then
        (dispatchEvents handler r.answers { client with state := .connected } [.event .connected]).map fun (client, out') =>
          ({ task with client := client }, out ++ out'.map .mqtt)
      else
        ({ task with client := client }.esp_mqtt_abort_connection handler r.answers).map fun (task, out') =>
          (task, out ++ out')

/-- `MQTT_STATE_CONNECTED`. -/
def receiveRound (task : MqttTask) (r : TaskRound) : Option (MqttTask × List TaskOut) :=
  (task.client.mqtt_process_receive r.read r.drawn r.written r.more).bind fun (ok, client, out) =>
    (dispatchEvents handler r.answers client out).bind fun (client, out) =>
      let task := { task with client := client, now := task.now + r.before }
      let out := out.map .mqtt
      if ok then
        (tickSince (platform_tick_get_ms task.now) task.keepalive_tick).bind fun since =>
          if (task.connect_info.keepalive : ℤ) * 1000 / 2 < since then
            (client.esp_mqtt_client_ping r.written).map fun (client, out') =>
              ({ task with
                client := client
                now := task.now + r.between
                keepalive_tick := platform_tick_get_ms (task.now + r.between) }, out ++ out'.map .mqtt)
          else some (task, out)
      else (task.esp_mqtt_abort_connection handler r.answers).map fun (task, out') => (task, out ++ out')

/-- `MQTT_STATE_WAIT_TIMEOUT`. -/
def waitRound (task : MqttTask) (r : TaskRound) : Option (MqttTask × List TaskOut) :=
  if ¬ task.auto_reconnect then some ({ task with run := false }, [])
  else
    let task := { task with now := task.now + r.before }
    (tickSince (platform_tick_get_ms task.now) task.reconnect_tick).map fun since =>
      if task.wait_timeout_ms < since then
        ({ task with
          client := { task.client with state := .init }
          now := task.now + r.between
          reconnect_tick := platform_tick_get_ms (task.now + r.between) }, [])
      else (task, [])

/-- One round of the loop of `esp_mqtt_task`, or what is behind the loop. -/
def round (task : MqttTask) (r : TaskRound) : Option (MqttTask × List TaskOut) :=
  if task.phase ≠ .running then some (task, [])
  else if ¬ task.run then some ({ task with sock := none, phase := .ended }, tcp_close task.sock)
  else
    match task.client.state with
    | .init => task.connectRound handler r
    | .connected => task.receiveRound handler r
    | .waitTimeout => task.waitRound r
    | .unknow => some (task, [])

/-- What the loop of `esp_mqtt_task` starts with. -/
def started (client : MqttClient) (info : MqttConnectInfo) (auto_reconnect : Bool) (now : ℕ) : MqttTask :=
  ⟨{ client with state := .init }, info, auto_reconnect, true, 0, 0, 0, none, .running, now⟩

end MqttTask

/-- A round, a request of the application, or `esp_mqtt_client_stop`. -/
inductive TaskCall
  | round (r : TaskRound)
  | app (c : MqttAppCall)
  | stop

def taskCall (handler : EventHandler) (task : MqttTask) : TaskCall → Option (MqttTask × List TaskOut)
  | .round r => task.round handler r
  | .app c =>
    if task.phase = .restarted then some (task, [])
    else (clientCall task.client c.call).map fun (client, out) => ({ task with client := client }, out.map .mqtt)
  | .stop => some ({ task with run := false }, [])

/-! ## What the client does in between -/

/-- No event of a connection that starts or ends. -/
def MqttOut.Plain : MqttOut → Prop
  | .event .connected | .event .disconnected => False
  | _ => True

/-- Nothing but an answer to the application. -/
def MqttOut.Silent : MqttOut → Prop
  | .returned _ => True
  | _ => False

/-- What the client does between the events of its connection; `b` is whether it is connected. -/
structure Stays (client client' : MqttClient) (out : List MqttOut) : Prop where
  state : client'.state = client.state
  plain : ∀ o ∈ out, o.Plain

section Stays

variable {client client' : MqttClient} {out : List MqttOut}

theorem write_stays {ok : Bool} {written : ℤ} (h : client.mqtt_write_data written = some (ok, client', out)) :
    Stays client client' out := by
  obtain ⟨type, -, heq⟩ := Option.map_eq_some_iff.mp h
  obtain ⟨-, heq⟩ := Prod.mk.inj heq
  obtain ⟨rfl, rfl⟩ := Prod.mk.inj heq
  refine ⟨rfl, fun o ho => ?_⟩
  rw [List.mem_singleton.mp ho]
  trivial

theorem respond_stays {built : Option MqttConnection} {written : ℤ} (h : client.respond built written = some (client', out)) :
    Stays client client' out := by
  obtain ⟨connection, -, h⟩ := Option.bind_eq_some_iff.mp h
  obtain ⟨⟨ok, c, o⟩, hwrite, heq⟩ := Option.map_eq_some_iff.mp h
  obtain ⟨rfl, rfl⟩ := Prod.mk.inj heq
  obtain ⟨hstate, hplain⟩ := write_stays hwrite
  exact ⟨hstate, hplain⟩

theorem sendTracked_stays {id : ℕ} {connection : MqttConnection} {written : ℤ}
    (h : client.sendTracked id connection written = some (client', out)) : Stays client client' out := by
  obtain ⟨type, -, h⟩ := Option.bind_eq_some_iff.mp h
  obtain ⟨⟨ok, c, o⟩, hwrite, heq⟩ := Option.map_eq_some_iff.mp h
  obtain ⟨rfl, rfl⟩ := Prod.mk.inj heq
  obtain ⟨hstate, hplain⟩ := write_stays hwrite
  refine ⟨hstate, fun o ho => ?_⟩
  rcases List.mem_append.mp ho with ho | ho
  · exact hplain o ho
  · rw [List.mem_singleton.mp ho]
    trivial

theorem mqtt_enqueue_state (client : MqttClient) (tick : ℤ) : (client.mqtt_enqueue tick).state = client.state := by
  rw [MqttClient.mqtt_enqueue]
  split_ifs <;> rfl

/-- **A request**; one that is made without a connection is only answered. -/
theorem app_stays {c : MqttAppCall} (h : clientCall client c.call = some (client', out)) :
    Stays client client' out ∧ (client.state ≠ .connected → ∀ o ∈ out, o.Silent) := by
  by_cases hstate : client.state = .connected
  · refine ⟨?_, fun hne => absurd hstate hne⟩
    have hnot : ¬ client.state ≠ .connected := not_not.mpr hstate
    cases c with
    | publish topic data len qos retain a =>
      rw [MqttAppCall.call, clientCall, MqttClient.esp_mqtt_client_publish, if_neg hnot] at h
      obtain ⟨data, -, h⟩ := Option.bind_eq_some_iff.mp h
      split_ifs at h with hqos
      · obtain ⟨⟨id, connection⟩, -, h⟩ := Option.bind_eq_some_iff.mp h
        obtain ⟨hs, hp⟩ := sendTracked_stays h
        exact ⟨hs.trans (mqtt_enqueue_state client a.tick), hp⟩
      · obtain ⟨⟨id, connection⟩, -, h⟩ := Option.bind_eq_some_iff.mp h
        obtain ⟨⟨ok, c, o⟩, hwrite, heq⟩ := Option.map_eq_some_iff.mp h
        obtain ⟨rfl, rfl⟩ := Prod.mk.inj heq
        obtain ⟨hs, hp⟩ := write_stays hwrite
        refine ⟨hs, fun o ho => ?_⟩
        rcases List.mem_append.mp ho with ho | ho
        · exact hp o ho
        · rw [List.mem_singleton.mp ho]
          trivial
    | subscribe topic qos a =>
      rw [MqttAppCall.call, clientCall, MqttClient.esp_mqtt_client_subscribe, if_neg hnot] at h
      obtain ⟨⟨id, connection⟩, -, h⟩ := Option.bind_eq_some_iff.mp h
      obtain ⟨hs, hp⟩ := sendTracked_stays h
      exact ⟨hs.trans (mqtt_enqueue_state client a.tick), hp⟩
    | unsubscribe topic a =>
      rw [MqttAppCall.call, clientCall, MqttClient.esp_mqtt_client_unsubscribe, if_neg hnot] at h
      obtain ⟨⟨id, connection⟩, -, h⟩ := Option.bind_eq_some_iff.mp h
      obtain ⟨hs, hp⟩ := sendTracked_stays h
      exact ⟨hs.trans (mqtt_enqueue_state client a.tick), hp⟩
  · have hnone : clientCall client c.call = some (client, [.returned (-1)]) := by
      cases c <;> exact if_pos hstate
    obtain ⟨rfl, rfl⟩ := Prod.mk.inj (Option.some.inj (hnone.symm.trans h))
    refine ⟨⟨rfl, fun o ho => ?_⟩, fun _ o ho => ?_⟩ <;>
    · rw [List.mem_singleton.mp ho]
      trivial

theorem acknowledged_stays {type : MqttType} {id : ℕ} {events : List MqttEvent}
    (hevents : ∀ e ∈ events, (MqttOut.event e).Plain) (h : client.acknowledged type id events = some (client', out)) :
    Stays client client' out := by
  obtain ⟨rfl, rfl⟩ := Prod.mk.inj (Option.some.inj h)
  constructor
  · rw [MqttClient.is_valid_mqtt_msg]
    by_cases hzero : client.pending_msg_count = 0
    · rw [if_pos hzero]
    rw [if_neg hzero]
    split
    · rfl
    · by_cases hslot : client.pending_msg_type = type.code ∧ client.pending_msg_id = id
      · rw [if_pos hslot]
      · rw [if_neg hslot]
  · intro o ho
    split_ifs at ho
    · obtain ⟨e, he, rfl⟩ := List.mem_map.mp ho
      exact hevents e he
    · exact absurd ho List.not_mem_nil

theorem delivered_stays {read_len : ℕ} {more : List Bytes} (h : client.delivered read_len more = some (client', out)) :
    Stays client client' out := by
  obtain ⟨length, -, h⟩ := Option.bind_eq_some_iff.mp h
  obtain ⟨⟨buffer, events⟩, -, heq⟩ := Option.map_eq_some_iff.mp h
  obtain ⟨rfl, rfl⟩ := Prod.mk.inj heq
  refine ⟨rfl, fun o ho => ?_⟩
  obtain ⟨e, -, rfl⟩ := List.mem_map.mp ho
  trivial

theorem Stays.trans {client'' : MqttClient} {out' : List MqttOut} (h : Stays client client' out)
    (h' : Stays client' client'' out') : Stays client client'' (out ++ out') := by
  refine ⟨h'.state.trans h.state, fun o ho => ?_⟩
  rcases List.mem_append.mp ho with ho | ho
  · exact h.plain o ho
  · exact h'.plain o ho

theorem Stays.refl (client : MqttClient) : Stays client client [] := ⟨rfl, fun _ ho => absurd ho List.not_mem_nil⟩

theorem process_stays {read_len type qos id drawn : ℕ} {written : ℤ} {more : List Bytes}
    (h : client.process read_len type qos id drawn written more = some (client', out)) : Stays client client' out := by
  unfold MqttClient.process at h
  split at h
  · exact acknowledged_stays (by simp [MqttOut.Plain]) h
  · exact acknowledged_stays (by simp [MqttOut.Plain]) h
  · obtain ⟨⟨c₁, o₁⟩, hanswer, h⟩ := Option.bind_eq_some_iff.mp h
    obtain ⟨⟨c₂, o₂⟩, hdeliver, heq⟩ := Option.map_eq_some_iff.mp h
    obtain ⟨rfl, rfl⟩ := Prod.mk.inj heq
    refine Stays.trans ?_ (delivered_stays hdeliver)
    split_ifs at hanswer
    · exact respond_stays hanswer
    · exact respond_stays hanswer
    · obtain ⟨rfl, rfl⟩ := Prod.mk.inj (Option.some.inj hanswer)
      exact Stays.refl _
  · exact acknowledged_stays (fun _ he => absurd he List.not_mem_nil) h
  · exact respond_stays h
  · exact respond_stays h
  · exact acknowledged_stays (fun _ he => absurd he List.not_mem_nil) h
  · exact respond_stays h
  · obtain ⟨rfl, rfl⟩ := Prod.mk.inj (Option.some.inj h)
    exact Stays.refl _

/-- **A read**. -/
theorem receive_stays {read : Option Bytes} {drawn : ℕ} {written : ℤ} {more : List Bytes} {ok : Bool}
    (h : client.mqtt_process_receive read drawn written more = some (ok, client', out)) : Stays client client' out := by
  match read, h with
  | none, h | some [], h =>
    obtain ⟨-, heq⟩ := Prod.mk.inj (Option.some.inj h)
    obtain ⟨rfl, rfl⟩ := Prod.mk.inj heq
    exact Stays.refl _
  | some (c :: bytes), h =>
    obtain ⟨buffer, -, htype⟩ := Option.bind_eq_some_iff.mp h
    obtain ⟨type, -, hqos⟩ := Option.bind_eq_some_iff.mp htype
    obtain ⟨qos, -, hid⟩ := Option.bind_eq_some_iff.mp hqos
    obtain ⟨id, -, hrun⟩ := Option.bind_eq_some_iff.mp hid
    obtain ⟨⟨c', o'⟩, hprocess, heq⟩ := Option.map_eq_some_iff.mp hrun
    obtain ⟨-, heq⟩ := Prod.mk.inj heq
    obtain ⟨rfl, rfl⟩ := Prod.mk.inj heq
    obtain ⟨hstate, hplain⟩ := process_stays hprocess
    exact ⟨hstate, hplain⟩

/-- Requests one after the other. -/
theorem calls_stay (calls : List MqttAppCall) : ∀ {client client' : MqttClient} {out : List MqttOut},
    runCalls clientCall client (calls.map MqttAppCall.call) = some (client', out) →
      Stays client client' out ∧ (client.state ≠ .connected → ∀ o ∈ out, o.Silent) := by
  induction calls with
  | nil =>
    intro client client' out h
    obtain ⟨rfl, rfl⟩ := Prod.mk.inj (Option.some.inj h)
    exact ⟨Stays.refl _, fun _ _ ho => absurd ho List.not_mem_nil⟩
  | cons c calls ih =>
    intro client client' out h
    obtain ⟨client₁, out₁, out₂, hcall, hrest, rfl⟩ := runCalls_cons_eq_some.mp h
    obtain ⟨hs₁, hq₁⟩ := app_stays hcall
    obtain ⟨hs₂, hq₂⟩ := ih hrest
    refine ⟨hs₁.trans hs₂, fun hne o ho => ?_⟩
    rcases List.mem_append.mp ho with ho | ho
    · exact hq₁ hne o ho
    · exact hq₂ (by rwa [hs₁.state]) o ho

section Dispatch

variable {handler : EventHandler}

/-- **One event**, and what the application does on it. -/
theorem dispatch_event {answers : ℕ → SendAnswer} {e : MqttEvent}
    (h : dispatchEvents handler answers client [.event e] = some (client', out)) :
    ∃ out', out = .event e :: out' ∧ Stays client client' out' ∧
      (client.state ≠ .connected → ∀ o ∈ out', o.Silent) := by
  obtain ⟨calls, -, hrun⟩ := Option.bind_eq_some_iff.mp h
  obtain ⟨⟨client₁, out₁⟩, hcalls, hrest⟩ := Option.bind_eq_some_iff.mp hrun
  obtain ⟨⟨client₂, out₂⟩, hnil, heq⟩ := Option.map_eq_some_iff.mp hrest
  obtain ⟨rfl, rfl⟩ := Prod.mk.inj (Option.some.inj hnil)
  obtain ⟨rfl, rfl⟩ := Prod.mk.inj heq
  refine ⟨_, rfl, ?_⟩
  rw [List.append_nil]
  exact calls_stay calls hcalls

/-- **The events of a read**. -/
theorem dispatch_plain (out : List MqttOut) : ∀ {answers : ℕ → SendAnswer} {client client' : MqttClient}
    {out' : List MqttOut}, (∀ o ∈ out, o.Plain) → dispatchEvents handler answers client out = some (client', out') →
      Stays client client' out' := by
  induction out with
  | nil =>
    intro answers client client' out' _ h
    obtain ⟨rfl, rfl⟩ := Prod.mk.inj (Option.some.inj h)
    exact Stays.refl _
  | cons o out ih =>
    intro answers client client' out' hplain h
    have hrest := fun o ho => hplain o (List.mem_cons_of_mem _ ho)
    have hone : Stays client client [o] := ⟨rfl, fun o' ho => by
      rw [List.mem_singleton.mp ho]
      exact hplain o List.mem_cons_self⟩
    cases o with
    | event e =>
      obtain ⟨calls, -, hrun⟩ := Option.bind_eq_some_iff.mp h
      obtain ⟨⟨client₁, out₁⟩, hcalls, hlast⟩ := Option.bind_eq_some_iff.mp hrun
      obtain ⟨⟨client₂, out₂⟩, hdispatch, heq⟩ := Option.map_eq_some_iff.mp hlast
      obtain ⟨rfl, rfl⟩ := Prod.mk.inj heq
      exact hone.trans ((calls_stay calls hcalls).1.trans (ih hrest hdispatch))
    | wrote m =>
      obtain ⟨⟨client₁, out₁⟩, hdispatch, heq⟩ := Option.map_eq_some_iff.mp h
      obtain ⟨rfl, rfl⟩ := Prod.mk.inj heq
      exact hone.trans (ih hrest hdispatch)
    | returned r =>
      obtain ⟨⟨client₁, out₁⟩, hdispatch, heq⟩ := Option.map_eq_some_iff.mp h
      obtain ⟨rfl, rfl⟩ := Prod.mk.inj heq
      exact hone.trans (ih hrest hdispatch)

end Dispatch

end Stays

/-! ## The steps of a task -/

/-- What an attempt to connect leaves in the log before the handler is called: the socket behind it, whether there is a
connection, and CONNECT as it is put together. -/
inductive Attempted (task : MqttTask) : Option ℕ → Bool → List TaskOut → Prop
  | unresolved : Attempted task task.sock false []
  | refused (fd : ℕ) : Attempted task none false [.opened fd, .closed fd]
  | asked (fd : ℕ) (accepted : Bool) (connection : MqttConnection)
      (built : mqtt_msg_connect (mqtt_msg_init task.client.mqtt_connection.buffer
        task.client.mqtt_connection.buffer_length) task.connect_info = some connection) :
      Attempted task (some fd) accepted [.opened fd, .mqtt (.wrote connection.message)]

/-- The task waits from now on. -/
structure AwaitsTimeout (task : MqttTask) : Prop where
  state : task.client.state = .waitTimeout
  timeout : task.wait_timeout_ms = 10000
  since : task.reconnect_tick = platform_tick_get_ms task.now

/-- **What a call can do** to a task, and what it adds to the log. -/
inductive TaskStep (task task' : MqttTask) : List TaskOut → Prop
  /-- the connection stays, or there is none -/
  | stays (out : List MqttOut) (client : Stays task.client task'.client out)
      (silent : task.client.state ≠ .connected → ∀ o ∈ out, o.Silent) (phase : task'.phase = task.phase)
      (sock : task'.sock = task.sock) (now : task.now ≤ task'.now) (timeout : task'.wait_timeout_ms = task.wait_timeout_ms)
      (since : task'.reconnect_tick = task.reconnect_tick) : TaskStep task task' (out.map .mqtt)
  | resumes (phase : task'.phase = task.phase) (sock : task'.sock = task.sock) (wait : task.client.state = .waitTimeout)
      (init : task'.client.state = .init) (now : ℕ) (after : task.now ≤ now ∧ now ≤ task'.now) (d : ℤ)
      (since : tickSince (platform_tick_get_ms now) task.reconnect_tick = some d) (late : task.wait_timeout_ms < d) :
      TaskStep task task' []
  | fails (out out' : List MqttOut) (plain : ∀ o ∈ out, o.Plain) (silent : ∀ o ∈ out', o.Silent)
      (phase : task'.phase = task.phase) (sock : task'.sock = task.sock) (now : task.now ≤ task'.now)
      (connected : task.client.state = .connected) (waiting : AwaitsTimeout task') :
      TaskStep task task' (out.map .mqtt ++ .mqtt (.event .disconnected) :: out'.map .mqtt)
  | refused (log : List TaskOut) (out : List MqttOut) (silent : ∀ o ∈ out, o.Silent)
      (attempted : Attempted task task'.sock false log) (phase : task.phase = .running ∧ task'.phase = .running)
      (now : task.now ≤ task'.now) (init : task.client.state = .init) (waiting : AwaitsTimeout task') :
      TaskStep task task' (.attempt task.now :: log ++ .mqtt (.event .disconnected) :: out.map .mqtt)
  | connects (log : List TaskOut) (out : List MqttOut) (plain : ∀ o ∈ out, o.Plain)
      (attempted : Attempted task task'.sock true log) (phase : task.phase = .running ∧ task'.phase = .running)
      (now : task.now ≤ task'.now) (init : task.client.state = .init) (connected : task'.client.state = .connected) :
      TaskStep task task' (.attempt task.now :: log ++ .mqtt (.event .connected) :: out.map .mqtt)
  | restarts (phase : task.phase = .running ∧ task'.phase = .restarted) (init : task.client.state = .init)
      (now : task.now ≤ task'.now) : TaskStep task task' [.attempt task.now, .restarted]
  | ends (phase : task.phase = .running ∧ task'.phase = .ended) (state : task'.client.state = task.client.state)
      (now : task'.now = task.now) : TaskStep task task' (tcp_close task.sock)

section Steps

variable {handler : EventHandler} {task task' : MqttTask} {out : List TaskOut}

/-- The end of a connection, or of an attempt. -/
theorem abort_step {answers : ℕ → SendAnswer}
    (h : task.esp_mqtt_abort_connection handler answers = some (task', out)) :
    ∃ out' : List MqttOut, out = .mqtt (.event .disconnected) :: out'.map .mqtt ∧ (∀ o ∈ out', o.Silent) ∧ AwaitsTimeout task' ∧
      task'.phase = task.phase ∧ task'.sock = task.sock ∧ task'.now = task.now := by
  obtain ⟨⟨client, out₁⟩, hdispatch, heq⟩ := Option.map_eq_some_iff.mp h
  obtain ⟨rfl, rfl⟩ := Prod.mk.inj heq
  obtain ⟨out', rfl, hstays, hsilent⟩ := dispatch_event hdispatch
  refine ⟨out', rfl, hsilent (by simp), ⟨hstays.state, rfl, ?_⟩, rfl, rfl, rfl⟩
  dsimp only

theorem connect_client {client client' : MqttClient} {info : MqttConnectInfo} {written : ℤ} {read : Option Bytes}
    {ok : Bool} {out : List MqttOut} (h : esp_mqtt_connect client info written read = some (ok, client', out)) :
    client'.state = client.state ∧ ∃ connection,
      mqtt_msg_connect (mqtt_msg_init client.mqtt_connection.buffer client.mqtt_connection.buffer_length) info =
        some connection ∧ out = [.wrote connection.message] := by
  obtain ⟨connection, hbuilt, htype⟩ := Option.bind_eq_some_iff.mp h
  obtain ⟨type, -, hid⟩ := Option.bind_eq_some_iff.mp htype
  obtain ⟨id, -, hwrite⟩ := Option.bind_eq_some_iff.mp hid
  dsimp only at hwrite
  split_ifs at hwrite with hfail
  · obtain ⟨-, heq⟩ := Prod.mk.inj (Option.some.inj hwrite)
    obtain ⟨rfl, rfl⟩ := Prod.mk.inj heq
    exact ⟨rfl, connection, hbuilt, rfl⟩
  · cases read with
    | none =>
      obtain ⟨-, heq⟩ := Prod.mk.inj (Option.some.inj hwrite)
      obtain ⟨rfl, rfl⟩ := Prod.mk.inj heq
      exact ⟨rfl, connection, hbuilt, rfl⟩
    | some bytes =>
      obtain ⟨buffer, -, hread⟩ := Option.bind_eq_some_iff.mp hwrite
      obtain ⟨type', -, hcode⟩ := Option.bind_eq_some_iff.mp hread
      split_ifs at hcode with hack
      · obtain ⟨-, heq⟩ := Prod.mk.inj (Option.some.inj hcode)
        obtain ⟨rfl, rfl⟩ := Prod.mk.inj heq
        exact ⟨rfl, connection, hbuilt, rfl⟩
      · obtain ⟨code, -, heq⟩ := Option.map_eq_some_iff.mp hcode
        obtain ⟨-, heq⟩ := Prod.mk.inj heq
        obtain ⟨rfl, rfl⟩ := Prod.mk.inj heq
        exact ⟨rfl, connection, hbuilt, rfl⟩

/-- `MQTT_STATE_INIT`. -/
theorem connectRound_step {r : TaskRound} (hphase : task.phase = .running) (hinit : task.client.state = .init)
    (h : task.connectRound handler r = some (task', out)) : TaskStep task task' out := by
  -- an attempt that fails, after whatever it left in the log
  have hfail : ∀ {t : MqttTask} {log : List TaskOut} {out' : List TaskOut},
      t.esp_mqtt_abort_connection handler r.answers = some (task', out') → Attempted task t.sock false log →
      t.phase = .running → task.now ≤ t.now → TaskStep task task' (.attempt task.now :: log ++ out') := by
    intro t log out' habort hatt hp hnow
    obtain ⟨o, rfl, hsilent, hwait, hphase', hsock, hnow'⟩ := abort_step habort
    exact .refused log o hsilent (hsock ▸ hatt) ⟨hphase, hphase'.trans hp⟩ (hnow'.symm ▸ hnow) hinit hwait
  unfold MqttTask.connectRound at h
  cases htcp : r.tcp with
  | unresolved =>
    rw [htcp] at h
    obtain ⟨⟨t, o⟩, habort, heq⟩ := Option.map_eq_some_iff.mp h
    obtain ⟨rfl, rfl⟩ := Prod.mk.inj heq
    exact hfail habort .unresolved hphase (Nat.le_add_right _ _)
  | noSocket =>
    rw [htcp] at h
    obtain ⟨rfl, rfl⟩ := Prod.mk.inj (Option.some.inj h)
    exact .restarts ⟨hphase, rfl⟩ hinit (Nat.le_add_right _ _)
  | refused fd =>
    rw [htcp] at h
    obtain ⟨⟨t, o⟩, habort, heq⟩ := Option.map_eq_some_iff.mp h
    obtain ⟨rfl, rfl⟩ := Prod.mk.inj heq
    exact hfail habort (.refused fd) hphase (Nat.le_add_right _ _)
  | connected fd =>
    rw [htcp] at h
    obtain ⟨⟨ok, client, o⟩, hconnect, hrest⟩ := Option.bind_eq_some_iff.mp h
    obtain ⟨hstate, connection, hbuilt, rfl⟩ := connect_client hconnect
    dsimp only at hrest
    split_ifs at hrest with hok
    · obtain ⟨⟨client', o'⟩, hdispatch, heq⟩ := Option.map_eq_some_iff.mp hrest
      obtain ⟨rfl, rfl⟩ := Prod.mk.inj heq
      obtain ⟨o'', rfl, hstays, -⟩ := dispatch_event hdispatch
      exact .connects [.opened fd, .mqtt (.wrote connection.message)] o'' hstays.plain (.asked fd true connection hbuilt)
        ⟨hphase, hphase⟩ (Nat.le_add_right _ _) hinit hstays.state
    · obtain ⟨⟨t, o'⟩, habort, heq⟩ := Option.map_eq_some_iff.mp hrest
      obtain ⟨rfl, rfl⟩ := Prod.mk.inj heq
      exact hfail habort (.asked fd false connection hbuilt) hphase (Nat.le_add_right _ _)

/-- `MQTT_STATE_CONNECTED`. -/
theorem receiveRound_step {r : TaskRound} (hstate : task.client.state = .connected)
    (h : task.receiveRound handler r = some (task', out)) : TaskStep task task' out := by
  obtain ⟨⟨ok, client₁, out₁⟩, hreceive, hrest⟩ := Option.bind_eq_some_iff.mp h
  obtain ⟨⟨client₂, out₂⟩, hdispatch, hlast⟩ := Option.bind_eq_some_iff.mp hrest
  have h₁ := receive_stays hreceive
  have h₂ := dispatch_plain out₁ h₁.plain hdispatch
  have hstays : Stays task.client client₂ out₂ := ⟨h₂.state.trans h₁.state, h₂.plain⟩
  have hsilent : ∀ o : List MqttOut, task.client.state ≠ .connected → ∀ x ∈ o, x.Silent := fun _ hne => absurd hstate hne
  dsimp only at hlast
  split_ifs at hlast with hok
  · obtain ⟨since, -, hping⟩ := Option.bind_eq_some_iff.mp hlast
    split_ifs at hping with hlate
    · obtain ⟨⟨client₃, out₃⟩, hpinged, heq⟩ := Option.map_eq_some_iff.mp hping
      obtain ⟨rfl, rfl⟩ := Prod.mk.inj heq
      have hconn : ¬ client₂.state ≠ .connected := not_not.mpr (hstays.state.trans hstate)
      rw [MqttClient.esp_mqtt_client_ping, if_neg hconn] at hpinged
      rw [← List.map_append]
      exact .stays _ (hstays.trans (respond_stays hpinged)) (hsilent _) rfl rfl (by dsimp only; omega) rfl rfl
    · obtain ⟨rfl, rfl⟩ := Prod.mk.inj (Option.some.inj hping)
      exact .stays _ hstays (hsilent _) rfl rfl (Nat.le_add_right _ _) rfl rfl
  · obtain ⟨⟨t, o⟩, habort, heq⟩ := Option.map_eq_some_iff.mp hlast
    obtain ⟨rfl, rfl⟩ := Prod.mk.inj heq
    obtain ⟨o', rfl, hquiet, hwait, hphase, hsock, hnow⟩ := abort_step habort
    exact .fails out₂ o' hstays.plain hquiet hphase hsock (by rw [hnow]; exact Nat.le_add_right _ _) hstate hwait

/-- `MQTT_STATE_WAIT_TIMEOUT`. -/
theorem waitRound_step {r : TaskRound} (hstate : task.client.state = .waitTimeout)
    (h : task.waitRound r = some (task', out)) : TaskStep task task' out := by
  have hnothing : ∀ o ∈ ([] : List MqttOut), o.Silent := fun _ ho => absurd ho List.not_mem_nil
  unfold MqttTask.waitRound at h
  by_cases hauto : ¬ task.auto_reconnect
  · rw [if_pos hauto] at h
    obtain ⟨rfl, rfl⟩ := Prod.mk.inj (Option.some.inj h)
    exact .stays [] (Stays.refl _) (fun _ => hnothing) rfl rfl le_rfl rfl rfl
  · rw [if_neg hauto] at h
    obtain ⟨d, hsince, heq⟩ := Option.map_eq_some_iff.mp h
    split_ifs at heq with hlate
    · obtain ⟨rfl, rfl⟩ := Prod.mk.inj heq
      exact .resumes rfl rfl hstate rfl (task.now + r.before) ⟨Nat.le_add_right _ _, Nat.le_add_right _ _⟩ d hsince hlate
    · obtain ⟨rfl, rfl⟩ := Prod.mk.inj heq
      exact .stays [] (Stays.refl _) (fun _ => hnothing) rfl rfl (Nat.le_add_right _ _) rfl rfl

/-- **Every call** is a step. -/
theorem taskCall_step {c : TaskCall} (h : taskCall handler task c = some (task', out)) : TaskStep task task' out := by
  have hnothing : ∀ o ∈ ([] : List MqttOut), o.Silent := fun _ ho => absurd ho List.not_mem_nil
  have hsame : ∀ {t : MqttTask} {o : List TaskOut}, some (task, []) = some (t, o) → TaskStep task t o := by
    intro t o heq
    obtain ⟨rfl, rfl⟩ := Prod.mk.inj (Option.some.inj heq)
    exact .stays [] (Stays.refl _) (fun _ => hnothing) rfl rfl le_rfl rfl rfl
  cases c with
  | round r =>
    change task.round handler r = some (task', out) at h
    unfold MqttTask.round at h
    by_cases hphase : task.phase ≠ .running
    · rw [if_pos hphase] at h
      exact hsame h
    rw [if_neg hphase] at h
    by_cases hrun : ¬ task.run
    · rw [if_pos hrun] at h
      obtain ⟨rfl, rfl⟩ := Prod.mk.inj (Option.some.inj h)
      exact .ends ⟨not_not.mp hphase, rfl⟩ rfl rfl
    · rw [if_neg hrun] at h
      split at h
      · next hstate => exact connectRound_step (not_not.mp hphase) hstate h
      · next hstate => exact receiveRound_step hstate h
      · next hstate => exact waitRound_step hstate h
      · exact hsame h
  | app c =>
    change (if task.phase = .restarted then some (task, [])
      else (clientCall task.client c.call).map fun (client, out) => ({ task with client := client }, out.map .mqtt)) =
        some (task', out) at h
    split_ifs at h with hphase
    · exact hsame h
    · obtain ⟨⟨client, o⟩, hcall, heq⟩ := Option.map_eq_some_iff.mp h
      obtain ⟨rfl, rfl⟩ := Prod.mk.inj heq
      obtain ⟨hstays, hsilent⟩ := app_stays hcall
      exact .stays o hstays hsilent rfl rfl le_rfl rfl rfl
  | stop =>
    obtain ⟨rfl, rfl⟩ := Prod.mk.inj (Option.some.inj h)
    exact .stays [] (Stays.refl _) (fun _ => hnothing) rfl rfl le_rfl rfl rfl

end Steps

/-! ## Attempts and sockets -/

/-- When the attempts were made. -/
def attempts (log : List TaskOut) : List ℕ := log.filterMap fun o => match o with | .attempt now => some now | _ => none

/-- How often a connection was told. -/
def connections (log : List TaskOut) : ℕ :=
  log.countP fun o => match o with | .mqtt (.event .connected) => true | _ => false

/-- The sockets that are open behind a log. -/
def openFds (log : List TaskOut) : List ℕ :=
  log.foldl (fun fds o => match o with | .opened fd => fd :: fds | .closed fd => fds.erase fd | _ => fds) []

theorem attempts_append (log log' : List TaskOut) : attempts (log ++ log') = attempts log ++ attempts log' :=
  List.filterMap_append

theorem attempts_mqtt (out : List MqttOut) : attempts (out.map .mqtt) = [] := by
  rw [attempts, List.filterMap_map]
  exact List.filterMap_eq_nil_iff.mpr fun _ _ => rfl

theorem connections_append (log log' : List TaskOut) :
    connections (log ++ log') = connections log + connections log' := List.countP_append

theorem connections_plain {out : List MqttOut} (h : ∀ o ∈ out, o.Plain) : connections (out.map .mqtt) = 0 := by
  rw [connections, List.countP_map]
  refine List.countP_eq_zero.mpr fun o ho hc => ?_
  cases o with
  | wrote | returned => exact absurd hc Bool.false_ne_true
  | event e => cases e <;> first | exact absurd hc Bool.false_ne_true | exact h _ ho

theorem MqttOut.Silent.plain {o : MqttOut} (h : o.Silent) : o.Plain := by
  cases o with
  | returned => trivial
  | wrote | event => exact absurd h id

theorem openFds_mqtt (log : List TaskOut) (out : List MqttOut) : openFds (log ++ out.map .mqtt) = openFds log := by
  induction out using List.reverseRecOn with
  | nil => rw [List.map_nil, List.append_nil]
  | append_singleton out o ih =>
    rw [List.map_append, ← List.append_assoc, openFds, List.foldl_append]
    exact ih

/-- What an attempt adds to the log. -/
theorem Attempted.attempts_nil {task : MqttTask} {sock' : Option ℕ} {accepted : Bool} {log : List TaskOut}
    (h : Attempted task sock' accepted log) : attempts log = [] ∧ connections log = 0 := by
  cases h <;> exact ⟨rfl, rfl⟩

theorem Attempted.sockets {task : MqttTask} {sock' : Option ℕ} {accepted : Bool} {log past : List TaskOut} {now : ℕ}
    (h : Attempted task sock' accepted log) (hsock : ∀ fd ∈ task.sock, fd ∈ openFds past) :
    (openFds past).length + (if accepted then 1 else 0) ≤ (openFds (past ++ .attempt now :: log)).length ∧
      ∀ fd ∈ sock', fd ∈ openFds (past ++ .attempt now :: log) := by
  unfold openFds at *
  rw [List.foldl_append]
  cases h with
  | unresolved => exact ⟨le_rfl, hsock⟩
  | refused fd =>
    simp only [List.foldl_cons, List.foldl_nil, List.erase_cons_head]
    exact ⟨le_rfl, fun _ hfd => by cases hfd⟩
  | asked fd accepted connection =>
    simp only [List.foldl_cons, List.foldl_nil, List.length_cons]
    refine ⟨by split_ifs <;> omega, fun fd' hfd => ?_⟩
    obtain rfl := Option.some.inj hfd
    exact List.mem_cons_self

/-- The time of a task that runs, against the attempts so far. -/
structure Waits (task : MqttTask) (log : List TaskOut) : Prop where
  apart : (attempts log).Pairwise fun a b => a + 10000 < b
  past : ∀ a ∈ attempts log, a ≤ task.now
  init : task.phase = .running → task.client.state = .init → ∀ a ∈ attempts log, a + 10000 < task.now
  wait : task.phase = .running → task.client.state = .waitTimeout → task.wait_timeout_ms = 10000 ∧
    ∃ t, task.reconnect_tick = platform_tick_get_ms t ∧ t ≤ task.now ∧ ∀ a ∈ attempts log, a ≤ t

section Waits

variable {task task' : MqttTask} {past out : List TaskOut}

/-- A task that waits from now on. -/
theorem AwaitsTimeout.waits (h : AwaitsTimeout task) (happart : (attempts past).Pairwise fun a b => a + 10000 < b)
    (hpast : ∀ a ∈ attempts past, a ≤ task.now) : Waits task past where
  apart := happart
  past := hpast
  init := fun _ hinit => by rw [h.state] at hinit; cases hinit
  wait := fun _ _ => ⟨h.timeout, task.now, h.since, le_rfl, hpast⟩

theorem TaskStep.waits (h : TaskStep task task' out) (hpast : Waits task past) : Waits task' (past ++ out) := by
  -- the attempt of this step, if there is one
  have hnew : task.phase = .running → task.client.state = .init →
      (attempts past ++ [task.now]).Pairwise (fun a b => a + 10000 < b) ∧ ∀ a ∈ attempts past ++ [task.now], a ≤ task.now := by
    intro hrunning hinit
    refine ⟨List.pairwise_append.mpr ⟨hpast.apart, List.pairwise_singleton _ _, fun a ha b hb => ?_⟩, fun a ha => ?_⟩
    · rw [List.mem_singleton.mp hb]
      exact hpast.init hrunning hinit a ha
    · rcases List.mem_append.mp ha with ha | ha
      · exact hpast.past a ha
      · exact (List.mem_singleton.mp ha).le
  cases h with
  | stays o client silent phase sock now timeout since =>
    have hlog : attempts (past ++ o.map .mqtt) = attempts past := by
      rw [attempts_append, attempts_mqtt, List.append_nil]
    refine ⟨hlog ▸ hpast.apart, fun a ha => (hpast.past a (hlog ▸ ha)).trans now, ?_, ?_⟩
    · intro hrunning hinit a ha
      exact (hpast.init (phase ▸ hrunning) (client.state ▸ hinit) a (hlog ▸ ha)).trans_le now
    · intro hrunning hwait
      obtain ⟨ht, t, hsince, hle, hall⟩ := hpast.wait (phase ▸ hrunning) (client.state ▸ hwait)
      exact ⟨timeout.trans ht, t, since.trans hsince, hle.trans now, fun a ha => hall a (hlog ▸ ha)⟩
  | resumes phase sock wait init now after d since late =>
    rw [List.append_nil]
    refine ⟨hpast.apart, fun a ha => ((hpast.past a ha).trans after.1).trans after.2, ?_, ?_⟩
    · intro hrunning _ a ha
      obtain ⟨ht, t, hsince, hle, hall⟩ := hpast.wait (phase ▸ hrunning) wait
      rw [hsince] at since
      have hd := tickSince_le (hle.trans after.1) since
      have hat := hall a ha
      rw [ht] at late
      omega
    · intro _ hwait
      rw [init] at hwait
      cases hwait
  | fails o o' plain silent phase sock now connected waiting =>
    have hlog : attempts (past ++ (o.map .mqtt ++ .mqtt (.event .disconnected) :: o'.map .mqtt)) = attempts past := by
      rw [← List.map_cons, ← List.map_append, attempts_append, attempts_mqtt, List.append_nil]
    exact waiting.waits (hlog ▸ hpast.apart) fun a ha => (hpast.past a (hlog ▸ ha)).trans now
  | refused log o silent attempted phase now init waiting =>
    have hlog : attempts (past ++ (.attempt task.now :: log ++ .mqtt (.event .disconnected) :: o.map .mqtt)) =
        attempts past ++ [task.now] := by
      rw [← List.map_cons, attempts_append, attempts_append, attempts_mqtt, List.append_nil]
      exact congrArg (attempts past ++ task.now :: ·) attempted.attempts_nil.1
    obtain ⟨happart, hle⟩ := hnew phase.1 init
    exact waiting.waits (hlog ▸ happart) fun a ha => (hle a (hlog ▸ ha)).trans now
  | connects log o plain attempted phase now init connected =>
    have hlog : attempts (past ++ (.attempt task.now :: log ++ .mqtt (.event .connected) :: o.map .mqtt)) =
        attempts past ++ [task.now] := by
      rw [← List.map_cons, attempts_append, attempts_append, attempts_mqtt, List.append_nil]
      exact congrArg (attempts past ++ task.now :: ·) attempted.attempts_nil.1
    obtain ⟨happart, hle⟩ := hnew phase.1 init
    refine ⟨hlog ▸ happart, fun a ha => (hle a (hlog ▸ ha)).trans now, ?_, ?_⟩ <;>
    · intro _ hstate
      rw [connected] at hstate
      cases hstate
  | restarts phase init now =>
    have hlog : attempts (past ++ [.attempt task.now, .restarted]) = attempts past ++ [task.now] := by
      rw [attempts_append]
      rfl
    obtain ⟨happart, hle⟩ := hnew phase.1 init
    refine ⟨hlog ▸ happart, fun a ha => (hle a (hlog ▸ ha)).trans now, ?_, ?_⟩ <;>
    · intro hrunning
      rw [phase.2] at hrunning
      cases hrunning
  | ends phase state now =>
    have hlog : attempts (past ++ tcp_close task.sock) = attempts past := by
      rw [attempts_append]
      cases task.sock <;> exact List.append_nil _
    refine ⟨hlog ▸ hpast.apart, fun a ha => (hpast.past a (hlog ▸ ha)).trans now.ge, ?_, ?_⟩ <;>
    · intro hrunning
      rw [phase.2] at hrunning
      cases hrunning

end Waits

/-- The sockets, against the connections that were told. -/
structure Sockets (task : MqttTask) (log : List TaskOut) : Prop where
  running : task.phase = .running → connections log ≤ (openFds log).length ∧ ∀ fd ∈ task.sock, fd ∈ openFds log
  surplus : connections log ≤ (openFds log).length + 1

section Sockets

variable {task task' : MqttTask} {past out : List TaskOut}

theorem TaskStep.sockets (h : TaskStep task task' out) (hpast : Sockets task past) : Sockets task' (past ++ out) := by
  cases h with
  | stays o client silent phase sock =>
    have hcount : connections (past ++ o.map .mqtt) = connections past := by
      rw [connections_append, connections_plain client.plain, Nat.add_zero]
    refine ⟨fun hrunning => ?_, ?_⟩
    · rw [hcount, openFds_mqtt, sock]
      exact hpast.running (phase ▸ hrunning)
    · rw [hcount, openFds_mqtt]
      exact hpast.surplus
  | resumes phase sock =>
    rw [List.append_nil]
    exact ⟨fun hrunning => sock.symm ▸ hpast.running (phase ▸ hrunning), hpast.surplus⟩
  | fails o o' plain silent phase sock =>
    have hcount : connections (past ++ (o.map .mqtt ++ .mqtt (.event .disconnected) :: o'.map .mqtt)) =
        connections past := by
      rw [connections_append, connections_append, connections_plain plain, Nat.zero_add]
      exact congrArg (connections past + ·) (connections_plain fun x hx => (silent x hx).plain)
    rw [← List.map_cons, ← List.map_append] at hcount ⊢
    refine ⟨fun hrunning => ?_, ?_⟩
    · rw [hcount, openFds_mqtt, sock]
      exact hpast.running (phase ▸ hrunning)
    · rw [hcount, openFds_mqtt]
      exact hpast.surplus
  | refused log o silent attempted phase =>
    obtain ⟨hle, hin⟩ := hpast.running phase.1
    obtain ⟨hgrow, hsock⟩ := attempted.sockets hin
    have hcount : connections (past ++ (.attempt task.now :: log ++ .mqtt (.event .disconnected) :: o.map .mqtt)) =
        connections past := by
      rw [connections_append, connections_append]
      have hlog : connections (.attempt task.now :: log) = 0 := attempted.attempts_nil.2
      rw [hlog, Nat.zero_add]
      exact congrArg (connections past + ·) (connections_plain fun x hx => (silent x hx).plain)
    rw [if_neg (by decide), Nat.add_zero] at hgrow
    rw [← List.map_cons, ← List.append_assoc] at hcount ⊢
    refine ⟨fun _ => ?_, ?_⟩
    · rw [hcount, openFds_mqtt]
      exact ⟨hle.trans hgrow, hsock⟩
    · rw [hcount, openFds_mqtt]
      omega
  | connects log o plain attempted phase =>
    obtain ⟨hle, hin⟩ := hpast.running phase.1
    obtain ⟨hgrow, hsock⟩ := attempted.sockets hin
    have hcount : connections (past ++ (.attempt task.now :: log ++ .mqtt (.event .connected) :: o.map .mqtt)) =
        connections past + 1 := by
      rw [connections_append, connections_append]
      have hlog : connections (.attempt task.now :: log) = 0 := attempted.attempts_nil.2
      have hone : connections (.mqtt (.event .connected) :: o.map .mqtt) = 1 := by
        rw [← List.singleton_append, connections_append, connections_plain plain]
        rfl
      rw [hlog, hone, Nat.zero_add]
    rw [if_pos rfl] at hgrow
    rw [← List.map_cons, ← List.append_assoc] at hcount ⊢
    refine ⟨fun _ => ?_, ?_⟩
    · rw [hcount, openFds_mqtt]
      exact ⟨by omega, hsock⟩
    · rw [hcount, openFds_mqtt]
      omega
  | restarts phase =>
    refine ⟨fun hrunning => ?_, ?_⟩
    · rw [phase.2] at hrunning
      cases hrunning
    · have hcount : connections (past ++ [.attempt task.now, .restarted]) = connections past := by
        rw [connections_append]
        rfl
      have hfds : openFds (past ++ [.attempt task.now, .restarted]) = openFds past := by
        rw [openFds, List.foldl_append]
        rfl
      rw [hcount, hfds]
      exact hpast.surplus
  | ends phase =>
    obtain ⟨hle, hin⟩ := hpast.running phase.1
    refine ⟨fun hrunning => ?_, ?_⟩
    · rw [phase.2] at hrunning
      cases hrunning
    · rw [connections_append, openFds, List.foldl_append]
      cases hsock : task.sock with
      | none => exact hpast.surplus
      | some fd =>
        change connections past + 0 ≤ ((openFds past).erase fd).length + 1
        rw [List.length_erase_of_mem (hin fd hsock)]
        omega

end Sockets

section Runs

variable {handler : EventHandler} {client : MqttClient} {info : MqttConnectInfo} {auto : Bool} {now : ℕ}
  {calls : List TaskCall} {task : MqttTask} {out : List TaskOut}

/-- **Two attempts** to connect are more than ten seconds apart; no run goes on behind a difference of two times that the
clock's `int` cannot hold. -/
theorem task_waits (h : runCalls (taskCall handler) (MqttTask.started client info auto now) calls = some (task, out)) :
    (attempts out).Pairwise fun a b => a + 10000 < b := by
  have hstart : Waits (MqttTask.started client info auto now) [] :=
    ⟨List.Pairwise.nil, fun _ ha => absurd ha List.not_mem_nil, fun _ _ _ ha => absurd ha List.not_mem_nil,
      fun _ hwait => by cases hwait⟩
  exact (runCalls_history Waits (fun _ _ _ _ _ hpast hcall => (taskCall_step hcall).waits hpast) hstart h).apart

/-- **Sockets are lost**: every connection that was told keeps its socket open, and the end of the task closes the last
one only. -/
theorem task_sockets (h : runCalls (taskCall handler) (MqttTask.started client info auto now) calls = some (task, out)) :
    (task.phase = .running → connections out ≤ (openFds out).length) ∧ connections out ≤ (openFds out).length + 1 := by
  have hstart : Sockets (MqttTask.started client info auto now) [] :=
    ⟨fun _ => ⟨le_rfl, fun _ hfd => by cases hfd⟩, Nat.zero_le _⟩
  have hend := runCalls_history Sockets (fun _ _ _ _ _ hpast hcall => (taskCall_step hcall).sockets hpast) hstart h
  exact ⟨fun hrunning => (hend.running hrunning).1, hend.surplus⟩

end Runs

/-- A round with what the network answers, `ms` behind the one before. -/
def sampleRound (tcp : TcpAnswer) (read : Option Bytes) (ms : ℕ) : TaskCall :=
  .round ⟨tcp, 1, read, [], 0, ms, 0, fun _ => ⟨1, 0, 1⟩⟩

/-- A connection, its end, the time in between and another connection, on which nothing was read. -/
def sampleTaskCalls : List TaskCall :=
  [sampleRound (.connected 3) (some [0x20, 2, 0, 0]) 5, .app (.publish (some (ascii "a")) (ascii "on") 2 0 0 ⟨1, 0, 1⟩),
    sampleRound .unresolved none 5, sampleRound .unresolved none 10001, sampleRound (.connected 4) (some []) 5]

def sampleIdle : MqttClient :=
  ⟨.unknow, List.replicate 40 0, mqtt_msg_init (List.replicate 40 0) 40, 0, 0, 0, []⟩

theorem sampleTask_defined : (runCalls (taskCall fun _ _ => some [])
    (MqttTask.started sampleIdle sampleInfo true 100) sampleTaskCalls).isSome := by decide +kernel

def sampleTask : MqttTask × List TaskOut :=
  (runCalls (taskCall fun _ _ => some []) (MqttTask.started sampleIdle sampleInfo true 100) sampleTaskCalls).get
    sampleTask_defined

theorem sampleTask_run : runCalls (taskCall fun _ _ => some []) (MqttTask.started sampleIdle sampleInfo true 100)
    sampleTaskCalls = some (sampleTask.1, sampleTask.2) := (Option.some_get sampleTask_defined).symm

theorem task_waits_sample : (attempts sampleTask.2).Pairwise fun a b => a + 10000 < b :=
  task_waits sampleTask_run

theorem task_sockets_sample :
    (sampleTask.1.phase = .running → connections sampleTask.2 ≤ (openFds sampleTask.2).length) ∧
      connections sampleTask.2 ≤ (openFds sampleTask.2).length + 1 :=
  task_sockets sampleTask_run

example : connections sampleTask.2 = 2 ∧ openFds sampleTask.2 = [4, 3] ∧ attempts sampleTask.2 = [100, 10111] := by
  decide +kernel

end Esp32Base
