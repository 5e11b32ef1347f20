import Esp32Base.Mqtt.Start

/-!
# Mqtt.Peer — a server that is gone (mqtt_client.c, transport_tcp.c)

The client writes a PINGREQ every now and then, and looks neither at what became of it nor for the answer.

* `only_reads_end`: a connection ends with a round whose first read fails, and with nothing else.
-/

namespace Esp32Base

open Lib

/-- `select`, and `read` behind it: `poll` is what the one answers, and none stands for -1 of the other. The end of the
stream is a failure, that nothing arrived is not. -/
def tcp_read (poll : ℤ) (read : Option Bytes) : Option Bytes :=
  if 0 < poll then (if read = some [] then none else read) else if poll < 0 then none else some []

/-- A connection that is up, of a task that nobody stopped. -/
structure Up (task : MqttTask) : Prop where
  state : task.client.state = .connected
  phase : task.phase = .running
  run : task.run = true

/-- A round whose first read fails; `deliver_publish` only leaves its loop when one of its further reads does. -/
def TaskCall.Fails : TaskCall → Prop
  | .round r => r.read = none
  | .app _ | .stop => False

section Up

variable {handler : EventHandler} {task task' : MqttTask} {out : List TaskOut}

theorem receive_ok {client client' : MqttClient} {read : Option Bytes} {drawn : ℕ} {written : ℤ} {more : List Bytes}
    {ok : Bool} {o : List MqttOut} (h : client.mqtt_process_receive read drawn written more = some (ok, client', o)) :
    ok = true ↔ read ≠ none := by
  match read, h with
  | none, h =>
    obtain ⟨rfl, -⟩ := Prod.mk.inj (Option.some.inj h)
    exact iff_of_false Bool.false_ne_true fun hne => hne rfl
  | some [], h =>
    obtain ⟨rfl, -⟩ := Prod.mk.inj (Option.some.inj h)
    exact iff_of_true rfl fun heq => by cases heq
  | some (c :: bytes), h =>
    obtain ⟨buffer, -, htype⟩ := Option.bind_eq_some_iff.mp h
    obtain ⟨type, -, hqos⟩ := Option.bind_eq_some_iff.mp htype
    obtain ⟨qos, -, hid⟩ := Option.bind_eq_some_iff.mp hqos
    obtain ⟨id, -, hrun⟩ := Option.bind_eq_some_iff.mp hid
    obtain ⟨⟨c', o'⟩, -, heq⟩ := Option.map_eq_some_iff.mp hrun
    obtain ⟨rfl, -⟩ := Prod.mk.inj heq
    exact iff_of_true rfl fun heq => by cases heq

/-- What is told without a connection that ends. -/
theorem plain_quiet {o : List MqttOut} (h : ∀ x ∈ o, x.Plain) :
    TaskOut.mqtt (.event .disconnected) ∉ o.map .mqtt ∧ attempts (o.map .mqtt) = [] := by
  refine ⟨fun hmem => ?_, attempts_mqtt o⟩
  obtain ⟨x, hx, heq⟩ := List.mem_map.mp hmem
  obtain rfl := TaskOut.mqtt.inj heq
  exact h _ hx

/-- **A round** of a connection that is up. -/
theorem up_round {r : TaskRound} (hup : Up task) (h : task.receiveRound handler r = some (task', out)) :
    (r.read = none → TaskOut.mqtt (.event .disconnected) ∈ out) ∧
    (r.read ≠ none → Up task' ∧ TaskOut.mqtt (.event .disconnected) ∉ out ∧ attempts out = []) := by
  have hgoes := receiveRound_goes h
  obtain ⟨⟨ok, client₁, out₁⟩, hreceive, hrest⟩ := Option.bind_eq_some_iff.mp h
  obtain ⟨⟨client₂, out₂⟩, hdispatch, hlast⟩ := Option.bind_eq_some_iff.mp hrest
  have hok := receive_ok hreceive
  have h₁ := receive_stays hreceive
  have h₂ := dispatch_plain out₁ h₁.plain hdispatch
  have hstays : Stays task.client client₂ out₂ := ⟨h₂.state.trans h₁.state, h₂.plain⟩
  dsimp only at hlast
  by_cases hcase : ok = true
  · refine ⟨fun hnone => absurd hnone (hok.mp hcase), fun _ => ?_⟩
    rw [if_pos hcase] at hlast
    obtain ⟨since, -, hping⟩ := Option.bind_eq_some_iff.mp hlast
    split_ifs at hping
    · obtain ⟨⟨client₃, out₃⟩, hpinged, heq⟩ := Option.map_eq_some_iff.mp hping
      obtain ⟨rfl, rfl⟩ := Prod.mk.inj heq
      rw [MqttClient.esp_mqtt_client_ping, if_neg (not_not.mpr (hstays.state.trans hup.state))] at hpinged
      have hall := hstays.trans (respond_stays hpinged)
      rw [← List.map_append]
      exact ⟨⟨hall.state.trans hup.state, hup.phase, hgoes.run.trans hup.run⟩, plain_quiet hall.plain⟩
    · obtain ⟨rfl, rfl⟩ := Prod.mk.inj (Option.some.inj hping)
      exact ⟨⟨hstays.state.trans hup.state, hup.phase, hgoes.run.trans hup.run⟩, plain_quiet hstays.plain⟩
  · refine ⟨fun _ => ?_, fun hne => absurd (hok.mpr hne) hcase⟩
    rw [if_neg hcase] at hlast
    obtain ⟨⟨t, o⟩, habort, heq⟩ := Option.map_eq_some_iff.mp hlast
    obtain ⟨rfl, rfl⟩ := Prod.mk.inj heq
    obtain ⟨o', rfl, -⟩ := abort_step habort
    exact List.mem_append_right _ List.mem_cons_self

/-- **Any call** but `esp_mqtt_client_stop`. -/
theorem up_step {c : TaskCall} (hup : Up task) (hstop : c ≠ .stop) (h : taskCall handler task c = some (task', out)) :
    (c.Fails → TaskOut.mqtt (.event .disconnected) ∈ out) ∧
    (¬ c.Fails → Up task' ∧ TaskOut.mqtt (.event .disconnected) ∉ out ∧ attempts out = []) := by
  cases c with
  | stop => exact absurd rfl hstop
  | app c =>
    refine ⟨False.elim, fun _ => ?_⟩
    rw [taskCall, if_neg (by rw [hup.phase]; exact TaskPhase.noConfusion)] at h
    obtain ⟨⟨client, o⟩, hcall, heq⟩ := Option.map_eq_some_iff.mp h
    obtain ⟨rfl, rfl⟩ := Prod.mk.inj heq
    have hstays := (app_stays hcall).1
    exact ⟨⟨hstays.state.trans hup.state, hup.phase, hup.run⟩, plain_quiet hstays.plain⟩
  | round r =>
    rw [taskCall, MqttTask.round, if_neg (not_not.mpr hup.phase), if_neg (not_not.mpr hup.run), hup.state] at h
    exact up_round hup h

/-- **A dead server goes unnoticed**: a connection that is up ends iff the first read of a round fails, over any run without
a stop, whatever becomes of what is written and of the rest of a message, and as long as nothing arrives; until then the
task attempts no other. -/
theorem only_reads_end {calls : List TaskCall} (hup : Up task) (hstop : ∀ c ∈ calls, c ≠ .stop)
    (h : runCalls (taskCall handler) task calls = some (task', out)) :
    (TaskOut.mqtt (.event .disconnected) ∈ out ↔ ∃ c ∈ calls, c.Fails) ∧
      ((∀ c ∈ calls, ¬ c.Fails) → Up task' ∧ attempts out = []) := by
  induction calls generalizing task out with
  | nil =>
    obtain ⟨rfl, rfl⟩ := Prod.mk.inj (Option.some.inj h)
    refine ⟨iff_of_false List.not_mem_nil ?_, fun _ => ⟨hup, rfl⟩⟩
    rintro ⟨c, hc, -⟩
    exact absurd hc List.not_mem_nil
  | cons c calls ih =>
    obtain ⟨task₁, out₁, out₂, hcall, hrest, rfl⟩ := runCalls_cons_eq_some.mp h
    obtain ⟨hfails, hquiet⟩ := up_step hup (hstop c List.mem_cons_self) hcall
    by_cases hcase : c.Fails
    · exact ⟨iff_of_true (List.mem_append_left _ (hfails hcase)) ⟨c, List.mem_cons_self, hcase⟩,
        fun hnone => absurd hcase (hnone c List.mem_cons_self)⟩
    · obtain ⟨hup₁, hnot, hnone⟩ := hquiet hcase
      obtain ⟨hiff, hmore⟩ := ih hup₁ (fun c hc => hstop c (List.mem_cons_of_mem _ hc)) hrest
      constructor
      · rw [List.mem_append, or_iff_right hnot, hiff]
        constructor
        · rintro ⟨c', hc', hf⟩
          exact ⟨c', List.mem_cons_of_mem _ hc', hf⟩
        · rintro ⟨c', hc', hf⟩
          rcases List.mem_cons.mp hc' with rfl | hc'
          · exact absurd hf hcase
          · exact ⟨c', hc', hf⟩
      · intro hall
        obtain ⟨hup', hattempts⟩ := hmore fun c hc => hall c (List.mem_cons_of_mem _ hc)
        rw [attempts_append, hnone, hattempts]
        exact ⟨hup', rfl⟩

end Up

/-- A connection that is up. -/
def sampleUp : MqttTask :=
  { MqttTask.started sampleIdle sampleInfo true 100 with client := { sampleIdle with state := .connected } }

/-- Nothing arrives, a write fails, and the rest of a message of 22 bytes does not arrive. -/
def sampleSilence : List TaskCall :=
  [sampleRound .unresolved (tcp_read 0 none) 1000, .app (.publish (some (ascii "a")) (ascii "on") 2 0 0 ⟨1, 0, -1⟩),
    sampleRound .unresolved (tcp_read 1 (some [0x30, 20, 0, 1, 97, 120])) 1000]

theorem sampleSilence_defined : (runCalls (taskCall fun _ _ => some []) sampleUp sampleSilence).isSome := by
  decide +kernel

theorem only_reads_end_sample :
    (TaskOut.mqtt (.event .disconnected) ∈
        ((runCalls (taskCall fun _ _ => some []) sampleUp sampleSilence).get sampleSilence_defined).2 ↔
      ∃ c ∈ sampleSilence, c.Fails) ∧
    ((∀ c ∈ sampleSilence, ¬ c.Fails) →
      Up ((runCalls (taskCall fun _ _ => some []) sampleUp sampleSilence).get sampleSilence_defined).1 ∧
      attempts ((runCalls (taskCall fun _ _ => some []) sampleUp sampleSilence).get sampleSilence_defined).2 = []) :=
  only_reads_end ⟨rfl, rfl, rfl⟩
    (by
      intro c hc
      rcases hc with _ | ⟨_, _ | ⟨_, _ | ⟨_, hc⟩⟩⟩
      · exact fun h => by cases h
      · exact fun h => by cases h
      · exact fun h => by cases h
      · cases hc)
    (Option.some_get sampleSilence_defined).symm

end Esp32Base
