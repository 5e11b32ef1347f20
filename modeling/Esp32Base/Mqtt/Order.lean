import Esp32Base.Mqtt.Reconnect

/-!
# Mqtt.Order — the order of what the task does (mqtt_client.c)

The log of a run is read by an automaton: attempt, socket, CONNECT, connection, and back.

* `task_obeys`: the log of every run is read to its end.
-/

namespace Esp32Base

open Lib Lib.Buf Lib.CText

/-- How far a connection is. -/
inductive Link
  | down | tried | opened | asked | up
  deriving DecidableEq

/-- The order that a log keeps; `connect` is the message that asks for a connection. -/
def Link.next (connect : Bytes) : Link → TaskOut → Option Link
  | .down, .attempt _ => some .tried
  | .down, .mqtt (.returned _) => some .down
  | .tried, .opened _ => some .opened
  | .tried, .mqtt (.event .disconnected) => some .down
  | .opened, .closed _ => some .tried
  | .opened, .mqtt (.wrote m) => if m = connect then some .asked else none
  | .asked, .mqtt (.event .connected) => some .up
  | .asked, .mqtt (.event .disconnected) => some .down
  | .up, .mqtt (.event .disconnected) => some .down
  | .up, .mqtt (.event .connected) => none
  | .up, .mqtt _ => some .up
  | _, _ => none

section Next

variable {connect : Bytes} {out : List MqttOut}

theorem next_plain (h : ∀ o ∈ out, o.Plain) : (out.map TaskOut.mqtt).foldlM (Link.next connect) .up = some .up := by
  induction out with
  | nil => rfl
  | cons o out ih =>
    have hone : Link.next connect .up (.mqtt o) = some .up := by
      have hplain := h o List.mem_cons_self
      cases o with
      | wrote | returned => rfl
      | event e => cases e <;> first | rfl | exact absurd hplain id
    rw [List.map_cons, List.foldlM_cons, hone]
    exact ih fun o ho => h o (List.mem_cons_of_mem _ ho)

theorem next_silent (h : ∀ o ∈ out, o.Silent) :
    (out.map TaskOut.mqtt).foldlM (Link.next connect) .down = some .down := by
  induction out with
  | nil => rfl
  | cons o out ih =>
    have hone : Link.next connect .down (.mqtt o) = some .down := by
      have hsilent := h o List.mem_cons_self
      cases o with
      | returned => rfl
      | wrote | event => exact absurd hsilent id
    rw [List.map_cons, List.foldlM_cons, hone]
    exact ih fun o ho => h o (List.mem_cons_of_mem _ ho)

end Next

/-! ## Steps -/

/-- The task of a device that connects with `info` over a buffer of `n` bytes. -/
structure Connects (info : MqttConnectInfo) (n : ℕ) (task : MqttTask) : Prop where
  room : Roomy task.client.mqtt_connection n
  connect_info : task.connect_info = info

section Steps

variable {info : MqttConnectInfo} {n : ℕ} {handler : EventHandler} {task task' : MqttTask} {past out log : List TaskOut}

theorem Connects.taskCall (h : Connects info n task) {c : TaskCall}
    (hcall : taskCall handler task c = some (task', out)) : Connects info n task' := by
  obtain ⟨hclient, hinfo, -⟩ := taskCall_keeps hcall
  exact ⟨hclient.room n h.room, hinfo.trans h.connect_info⟩

/-- An attempt; what it writes to a socket is CONNECT. -/
theorem Connects.attempted (h : Connects info n task) {sock : Option ℕ} {accepted : Bool} (now : ℕ)
    (hatt : Attempted task sock accepted log) :
    (.attempt now :: log).foldlM (Link.next ((MqttRequest.connect info).message n)) .down = some .tried ∧
        accepted = false ∨
      (.attempt now :: log).foldlM (Link.next ((MqttRequest.connect info).message n)) .down = some .asked := by
  cases hatt with
  | unresolved | refused => exact Or.inl ⟨rfl, rfl⟩
  | asked fd accepted connection built =>
    have hinit : Roomy (mqtt_msg_init task.client.mqtt_connection.buffer task.client.mqtt_connection.buffer_length) n :=
      ⟨h.room.limit, h.room.header, h.room.small, h.room.size⟩
    obtain ⟨connection', heq, -, hmessage⟩ := connect_leaves hinit task.connect_info
    obtain rfl := Option.some.inj (built.symm.trans heq)
    rw [h.connect_info] at hmessage
    have hnext : Link.next ((MqttRequest.connect info).message n) .opened (.mqtt (.wrote connection.message)) =
        some .asked := if_pos hmessage
    refine Or.inr ?_
    change [TaskOut.mqtt (.wrote connection.message)].foldlM (Link.next _) .opened = _
    rw [List.foldlM_cons, hnext]
    rfl

/-- The log so far, while the task runs. -/
def KeepsOrder (connect : Bytes) (task : MqttTask) (log : List TaskOut) : Prop :=
  task.phase = .running →
    log.foldlM (Link.next connect) .down = some (if task.client.state = .connected then .up else .down)

theorem TaskStep.keepsOrder (h : TaskStep task task' out) (hconn : Connects info n task)
    (hpast : KeepsOrder ((MqttRequest.connect info).message n) task past) :
    KeepsOrder ((MqttRequest.connect info).message n) task' (past ++ out) := by
  intro hrunning
  -- what is behind the log so far
  have hgo : ∀ {l l' : Link}, past.foldlM (Link.next ((MqttRequest.connect info).message n)) .down = some l →
      out.foldlM (Link.next ((MqttRequest.connect info).message n)) l = some l' →
      (past ++ out).foldlM (Link.next ((MqttRequest.connect info).message n)) .down = some l' := by
    intro l l' hl hl'
    rw [List.foldlM_append, hl]
    exact hl'
  cases h with
  | stays o client silent phase =>
    have hlog := hpast (phase ▸ hrunning)
    rw [client.state]
    by_cases hup : task.client.state = .connected
    · rw [if_pos hup] at hlog ⊢
      exact hgo hlog (next_plain client.plain)
    · rw [if_neg hup] at hlog ⊢
      exact hgo hlog (next_silent (silent hup))
  | resumes phase sock wait init =>
    have hlog := hpast (phase ▸ hrunning)
    rw [wait, if_neg (by decide)] at hlog
    rw [init, if_neg (by decide)]
    exact hgo hlog rfl
  | fails o o' plain silent phase sock now connected waiting =>
    have hlog := hpast (phase ▸ hrunning)
    rw [connected, if_pos rfl] at hlog
    rw [waiting.state, if_neg (by decide)]
    refine hgo hlog ?_
    rw [List.foldlM_append, next_plain plain]
    exact next_silent silent
  | refused log o silent attempted phase now init waiting =>
    have hlog := hpast phase.1
    rw [init, if_neg (by decide)] at hlog
    rw [waiting.state, if_neg (by decide)]
    refine hgo hlog ?_
    rw [List.foldlM_append]
    rcases hconn.attempted task.now attempted with ⟨hl, -⟩ | hl
    · rw [hl]
      exact next_silent silent
    · rw [hl]
      exact next_silent silent
  | connects log o plain attempted phase now init connected =>
    have hlog := hpast phase.1
    rw [init, if_neg (by decide)] at hlog
    rw [connected, if_pos rfl]
    refine hgo hlog ?_
    rw [List.foldlM_append]
    rcases hconn.attempted task.now attempted with ⟨-, hfalse⟩ | hl
    · cases hfalse
    · rw [hl]
      exact next_plain plain
  | restarts phase => exact absurd (phase.2.symm.trans hrunning) (by decide)
  | ends phase => exact absurd (phase.2.symm.trans hrunning) (by decide)

end Steps

section Runs

variable {handler : EventHandler} {client : MqttClient} {info : MqttConnectInfo} {auto : Bool} {n now : ℕ}
  {calls : List TaskCall} {task : MqttTask} {out : List TaskOut}

/-- **The log of a run**: as long as the task runs, CONNECT is written to every socket first, connections are told behind
it, in turn with their ends, and nothing else is written or told without a connection. -/
theorem task_obeys (hroom : Roomy client.mqtt_connection n)
    (h : runCalls (taskCall handler) (MqttTask.started client info auto now) calls = some (task, out))
    (hrunning : task.phase = .running) :
    out.foldlM (Link.next ((MqttRequest.connect info).message n)) .down =
      some (if task.client.state = .connected then .up else .down) := by
  have hstart : Connects info n (MqttTask.started client info auto now) ∧
      KeepsOrder ((MqttRequest.connect info).message n) (MqttTask.started client info auto now) [] :=
    ⟨⟨hroom, rfl⟩, fun _ => rfl⟩
  have hend := runCalls_history
    (fun task log => Connects info n task ∧ KeepsOrder ((MqttRequest.connect info).message n) task log)
    (fun _ _ _ _ _ ⟨hconn, hpast⟩ hcall => ⟨hconn.taskCall hcall, (taskCall_step hcall).keepsOrder hconn hpast⟩) hstart h
  exact hend.2 hrunning

end Runs

theorem task_obeys_sample : sampleTask.2.foldlM (Link.next ((MqttRequest.connect sampleInfo).message 40)) .down =
    some (if sampleTask.1.client.state = .connected then .up else .down) :=
  task_obeys (roomy_init (n := 40) (by decide) (by decide) List.length_replicate.ge) sampleTask_run (by decide +kernel)

end Esp32Base
