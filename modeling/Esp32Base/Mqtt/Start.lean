import Esp32Base.Mqtt.Task

/-!
# Mqtt.Start — starting and stopping a client (mqtt_client.c)

`esp_mqtt_client_start` creates the task and clears `STOPPED_BIT`; the task sets `run` before anything else, and clears the
bit itself; `esp_mqtt_client_stop` clears `run` and waits for the bit. The statements of the caller and of the task are
interleaved, with the requests of other tasks in between.

* `stop_returns`: whether `esp_mqtt_client_stop` returns depends on the first statement of the task.
-/

namespace Esp32Base

open Lib

/-- The next statement of `esp_mqtt_task`: `run`, `state`, `STOPPED_BIT`, the loop, the bit again. -/
inductive TaskAt
  | absent | created | begun | clearing | looping | closed | deleted
  deriving DecidableEq

/-- The next statement of a caller that starts the client and stops it later; `waiting` is in
`esp_mqtt_client_stop`. -/
inductive CallerAt
  | start | clear | started | waiting | returned | refused
  deriving DecidableEq

/-- A client with its task and its caller. -/
structure MqttLife where
  task : MqttTask
  taskAt : TaskAt
  callerAt : CallerAt
  stopped : Bool

inductive LifeStep
  | caller
  | task (r : TaskRound)
  | request (c : MqttAppCall)

section Steps

variable (handler : EventHandler)

/-- The caller; a client whose state is not that of `calloc` has been started already. -/
def MqttLife.callerStep (s : MqttLife) : MqttLife :=
  match s.callerAt with
  | .start =>
    if s.task.client.state ≠ .unknow then { s with callerAt := .refused }
    else { s with taskAt := .created, callerAt := .clear }
  | .clear => { s with stopped := false, callerAt := .started }
  | .started => { s with task := { s.task with run := false }, callerAt := .waiting }
  | .waiting => if s.stopped then { s with callerAt := .returned } else s
  | .returned | .refused => s

/-- The task; behind a restart there is none. -/
def MqttLife.taskStep (s : MqttLife) (r : TaskRound) : Option (MqttLife × List TaskOut) :=
  match s.taskAt with
  | .absent | .deleted => some (s, [])
  | .created => some ({ s with task := { s.task with run := true }, taskAt := .begun }, [])
  | .begun =>
    some ({ s with task := { s.task with client := { s.task.client with state := .init } }, taskAt := .clearing }, [])
  | .clearing => some ({ s with stopped := false, taskAt := .looping }, [])
  | .looping =>
    (s.task.round handler r).map fun (task, out) =>
      ({ s with task := task, taskAt := if task.phase = .ended then .closed else .looping }, out)
  | .closed => some ({ s with stopped := true, taskAt := .deleted }, [])

def lifeStep (s : MqttLife) : LifeStep → Option (MqttLife × List TaskOut)
  | .caller => some (s.callerStep, [])
  | .task r => s.taskStep handler r
  | .request c =>
    (clientCall s.task.client c.call).map fun (client, out) =>
      ({ s with task := { s.task with client := client } }, out.map .mqtt)

end Steps

/-- A client behind `esp_mqtt_client_init`. -/
structure MqttLife.Fresh (s : MqttLife) : Prop where
  state : s.task.client.state = .unknow
  phase : s.task.phase = .running
  auto_reconnect : s.task.auto_reconnect = true
  taskAt : s.taskAt = .absent
  callerAt : s.callerAt = .start
  stopped : s.stopped = false

/-! ## Rounds -/

/-- The task does not end by itself. -/
structure GoesOn (task task' : MqttTask) : Prop where
  run : task'.run = task.run
  auto_reconnect : task'.auto_reconnect = task.auto_reconnect
  phase : task'.phase = .ended → task.phase = .ended

section Rounds

variable {handler : EventHandler} {task task' : MqttTask} {r : TaskRound} {out : List TaskOut}

theorem abort_goes {answers : ℕ → SendAnswer} (h : task.esp_mqtt_abort_connection handler answers = some (task', out)) :
    GoesOn task task' := by
  obtain ⟨⟨client, out₁⟩, -, heq⟩ := Option.map_eq_some_iff.mp h
  obtain ⟨rfl, rfl⟩ := Prod.mk.inj heq
  exact ⟨rfl, rfl, id⟩

theorem connectRound_goes (h : task.connectRound handler r = some (task', out)) : GoesOn task task' := by
  unfold MqttTask.connectRound at h
  cases htcp : r.tcp with
  | unresolved | refused =>
    rw [htcp] at h
    obtain ⟨⟨t, o⟩, habort, heq⟩ := Option.map_eq_some_iff.mp h
    obtain ⟨rfl, rfl⟩ := Prod.mk.inj heq
    obtain ⟨hrun, hauto, hphase⟩ := abort_goes habort
    exact ⟨hrun, hauto, hphase⟩
  | noSocket =>
    rw [htcp] at h
    obtain ⟨rfl, rfl⟩ := Prod.mk.inj (Option.some.inj h)
    exact ⟨rfl, rfl, fun hended => by cases hended⟩
  | connected fd =>
    rw [htcp] at h
    obtain ⟨⟨ok, client, o⟩, -, hrest⟩ := Option.bind_eq_some_iff.mp h
    dsimp only at hrest
    split_ifs at hrest with hok
    · obtain ⟨⟨client', o'⟩, -, heq⟩ := Option.map_eq_some_iff.mp hrest
      obtain ⟨rfl, rfl⟩ := Prod.mk.inj heq
      exact ⟨rfl, rfl, id⟩
    · obtain ⟨⟨t, o'⟩, habort, heq⟩ := Option.map_eq_some_iff.mp hrest
      obtain ⟨rfl, rfl⟩ := Prod.mk.inj heq
      obtain ⟨hrun, hauto, hphase⟩ := abort_goes habort
      exact ⟨hrun, hauto, hphase⟩

theorem receiveRound_goes (h : task.receiveRound handler r = some (task', out)) : GoesOn task task' := by
  obtain ⟨⟨ok, client₁, out₁⟩, -, hrest⟩ := Option.bind_eq_some_iff.mp h
  obtain ⟨⟨client₂, out₂⟩, -, hlast⟩ := Option.bind_eq_some_iff.mp hrest
  dsimp only at hlast
  split_ifs at hlast with hok
  · obtain ⟨since, -, hping⟩ := Option.bind_eq_some_iff.mp hlast
    split_ifs at hping
    · obtain ⟨⟨client₃, out₃⟩, -, heq⟩ := Option.map_eq_some_iff.mp hping
      obtain ⟨rfl, rfl⟩ := Prod.mk.inj heq
      exact ⟨rfl, rfl, id⟩
    · obtain ⟨rfl, rfl⟩ := Prod.mk.inj (Option.some.inj hping)
      exact ⟨rfl, rfl, id⟩
  · obtain ⟨⟨t, o⟩, habort, heq⟩ := Option.map_eq_some_iff.mp hlast
    obtain ⟨rfl, rfl⟩ := Prod.mk.inj heq
    obtain ⟨hrun, hauto, hphase⟩ := abort_goes habort
    exact ⟨hrun, hauto, hphase⟩

theorem waitRound_goes (hauto : task.auto_reconnect = true) (h : task.waitRound r = some (task', out)) :
    GoesOn task task' := by
  unfold MqttTask.waitRound at h
  rw [if_neg (not_not.mpr hauto)] at h
  obtain ⟨d, -, heq⟩ := Option.map_eq_some_iff.mp h
  split_ifs at heq <;>
  · obtain ⟨rfl, rfl⟩ := Prod.mk.inj heq
    exact ⟨rfl, rfl, id⟩

/-- **A task that runs** and connects again goes on. -/
theorem round_goes (hrun : task.run = true) (hauto : task.auto_reconnect = true)
    (h : task.round handler r = some (task', out)) : GoesOn task task' := by
  have hsame : ∀ {t : MqttTask} {o : List TaskOut}, some (task, []) = some (t, o) → GoesOn task t := by
    intro t o heq
    obtain ⟨rfl, rfl⟩ := Prod.mk.inj (Option.some.inj heq)
    exact ⟨rfl, rfl, id⟩
  unfold MqttTask.round at h
  by_cases hrunning : task.phase ≠ .running
  · rw [if_pos hrunning] at h
    exact hsame h
  rw [if_neg hrunning, if_neg (not_not.mpr hrun)] at h
  split at h
  · exact connectRound_goes h
  · exact receiveRound_goes h
  · exact waitRound_goes hauto h
  · exact hsame h

/-- One that does not run ends. -/
theorem round_ends (hrun : task.run = false) (hphase : task.phase = .running) :
    task.round handler r = some ({ task with sock := none, phase := .ended }, tcp_close task.sock) := by
  rw [MqttTask.round, if_neg (not_not.mpr hphase), if_pos (by rw [hrun]; exact Bool.false_ne_true)]

end Rounds

/-! ## Stopping -/

/-- The task exists and does not end by itself: it has still to set `run`, or has set it. -/
structure Busy (s : MqttLife) : Prop where
  taskAt : s.taskAt = .created ∨ (s.taskAt = .begun ∨ s.taskAt = .clearing ∨ s.taskAt = .looping) ∧ s.task.run = true
  phase : s.task.phase ≠ .ended
  auto_reconnect : s.task.auto_reconnect = true
  stopped : s.stopped = false

/-- What holds in front of the start, and from there to the stop. -/
structure BeforeStop (s : MqttLife) : Prop where
  start : s.callerAt = .start → s.Fresh
  started : s.callerAt = .clear ∨ s.callerAt = .started → Busy s

/-- The task leaves its loop at the next look at `run`; the number of its statements until the bit is set. -/
def stepsLeft : TaskAt → ℕ
  | .begun => 4
  | .clearing => 3
  | .looping => 2
  | .closed => 1
  | .absent | .created | .deleted => 0

/-- The stop is under way. -/
structure Ending (s : MqttLife) : Prop where
  callerAt : s.callerAt = .waiting ∨ s.callerAt = .returned
  taskAt : s.taskAt ≠ .absent ∧ s.taskAt ≠ .created
  run : s.task.run = false
  phase : s.task.phase = if s.taskAt = .closed ∨ s.taskAt = .deleted then .ended else .running
  stopped : s.taskAt = .deleted → s.stopped = true

section Stopping

variable {handler : EventHandler} {s s' : MqttLife} {out : List TaskOut}

/-- A task that is busy stays so, whatever itself and others do. -/
theorem busy_step {e : LifeStep} (hs : Busy s) (he : e ≠ .caller) (h : lifeStep handler s e = some (s', out)) :
    Busy s' ∧ s'.callerAt = s.callerAt := by
  cases e with
  | caller => exact absurd rfl he
  | request c =>
    obtain ⟨⟨client, o⟩, -, heq⟩ := Option.map_eq_some_iff.mp h
    obtain ⟨rfl, rfl⟩ := Prod.mk.inj heq
    exact ⟨⟨hs.taskAt, hs.phase, hs.auto_reconnect, hs.stopped⟩, rfl⟩
  | task r =>
    change s.taskStep handler r = some (s', out) at h
    unfold MqttLife.taskStep at h
    rcases hs.taskAt with hat | ⟨hat | hat | hat, hrun⟩
    · rw [hat] at h
      obtain ⟨rfl, rfl⟩ := Prod.mk.inj (Option.some.inj h)
      exact ⟨⟨Or.inr ⟨Or.inl rfl, rfl⟩, hs.phase, hs.auto_reconnect, hs.stopped⟩, rfl⟩
    · rw [hat] at h
      obtain ⟨rfl, rfl⟩ := Prod.mk.inj (Option.some.inj h)
      exact ⟨⟨Or.inr ⟨Or.inr (Or.inl rfl), hrun⟩, hs.phase, hs.auto_reconnect, hs.stopped⟩, rfl⟩
    · rw [hat] at h
      obtain ⟨rfl, rfl⟩ := Prod.mk.inj (Option.some.inj h)
      exact ⟨⟨Or.inr ⟨Or.inr (Or.inr rfl), hrun⟩, hs.phase, hs.auto_reconnect, rfl⟩, rfl⟩
    · rw [hat] at h
      obtain ⟨⟨task, o⟩, hround, heq⟩ := Option.map_eq_some_iff.mp h
      obtain ⟨rfl, rfl⟩ := Prod.mk.inj heq
      obtain ⟨hrun', hauto, hphase⟩ := round_goes hrun hs.auto_reconnect hround
      have hended : task.phase ≠ .ended := fun hended => hs.phase (hphase hended)
      exact ⟨⟨Or.inr ⟨Or.inr (Or.inr (if_neg hended)), hrun'.trans hrun⟩, hended, hauto.trans hs.auto_reconnect, hs.stopped⟩,
        rfl⟩

/-- In front of the start there is no task. -/
theorem fresh_step {e : LifeStep} (hs : s.Fresh) (he : e ≠ .caller) (h : lifeStep handler s e = some (s', out)) :
    s'.Fresh := by
  cases e with
  | caller => exact absurd rfl he
  | request c =>
    obtain ⟨⟨client, o⟩, hcall, heq⟩ := Option.map_eq_some_iff.mp h
    obtain ⟨rfl, rfl⟩ := Prod.mk.inj heq
    exact ⟨(app_stays hcall).1.state.trans hs.state, hs.phase, hs.auto_reconnect, hs.taskAt, hs.callerAt, hs.stopped⟩
  | task r =>
    change s.taskStep handler r = some (s', out) at h
    rw [MqttLife.taskStep, hs.taskAt] at h
    obtain ⟨rfl, rfl⟩ := Prod.mk.inj (Option.some.inj h)
    exact hs

theorem other_callerAt {e : LifeStep} (he : e ≠ .caller) (h : lifeStep handler s e = some (s', out)) :
    s'.callerAt = s.callerAt := by
  cases e with
  | caller => exact absurd rfl he
  | request c =>
    obtain ⟨⟨client, o⟩, -, heq⟩ := Option.map_eq_some_iff.mp h
    obtain ⟨rfl, rfl⟩ := Prod.mk.inj heq
    rfl
  | task r =>
    change s.taskStep handler r = some (s', out) at h
    unfold MqttLife.taskStep at h
    split at h
    · obtain ⟨rfl, rfl⟩ := Prod.mk.inj (Option.some.inj h)
      rfl
    · obtain ⟨rfl, rfl⟩ := Prod.mk.inj (Option.some.inj h)
      rfl
    · obtain ⟨rfl, rfl⟩ := Prod.mk.inj (Option.some.inj h)
      rfl
    · obtain ⟨rfl, rfl⟩ := Prod.mk.inj (Option.some.inj h)
      rfl
    · obtain ⟨rfl, rfl⟩ := Prod.mk.inj (Option.some.inj h)
      rfl
    · obtain ⟨⟨task, o⟩, -, heq⟩ := Option.map_eq_some_iff.mp h
      obtain ⟨rfl, rfl⟩ := Prod.mk.inj heq
      rfl
    · obtain ⟨rfl, rfl⟩ := Prod.mk.inj (Option.some.inj h)
      rfl

/-- **Before the stop** the task is there and busy. -/
theorem before_step {e : LifeStep} (hs : BeforeStop s) (h : lifeStep handler s e = some (s', out)) : BeforeStop s' := by
  by_cases he : e = .caller
  · subst he
    obtain ⟨rfl, -⟩ := Prod.mk.inj (Option.some.inj h)
    unfold MqttLife.callerStep
    cases hat : s.callerAt with
    | start =>
      have hfresh := hs.start hat
      dsimp only
      rw [if_neg (not_not.mpr hfresh.state)]
      exact ⟨(fun hstart => by cases hstart), fun _ => ⟨Or.inl rfl, by rw [hfresh.phase]; exact TaskPhase.noConfusion,
        hfresh.auto_reconnect, hfresh.stopped⟩⟩
    | clear =>
      have hbusy := hs.started (Or.inl hat)
      exact ⟨(fun hstart => by cases hstart), fun _ => ⟨hbusy.taskAt, hbusy.phase, hbusy.auto_reconnect, rfl⟩⟩
    | started => exact ⟨(fun hstart => by cases hstart), fun hcases => by rcases hcases with hc | hc <;> cases hc⟩
    | waiting =>
      dsimp only
      split_ifs
      · exact ⟨(fun hstart => by cases hstart), fun hcases => by rcases hcases with hc | hc <;> cases hc⟩
      · exact hs
    | returned => exact hs
    | refused => exact hs
  · have hat := other_callerAt he h
    refine ⟨fun hstart => fresh_step (hs.start (hat ▸ hstart)) he h, fun hcases => ?_⟩
    rw [hat] at hcases
    exact (busy_step (hs.started hcases) he h).1

/-- **A stop that is lost**: the task sets `run` again. -/
theorem lost_step {e : LifeStep} (hs : Busy s ∧ s.callerAt = .waiting) (h : lifeStep handler s e = some (s', out)) :
    Busy s' ∧ s'.callerAt = .waiting := by
  by_cases he : e = .caller
  · subst he
    obtain ⟨rfl, -⟩ := Prod.mk.inj (Option.some.inj h)
    rw [MqttLife.callerStep, hs.2]
    dsimp only
    rw [if_neg (by rw [hs.1.stopped]; exact Bool.false_ne_true)]
    exact hs
  · obtain ⟨hbusy, hat⟩ := busy_step hs.1 he h
    exact ⟨hbusy, hat.trans hs.2⟩

def LifeStep.isTask : LifeStep → Bool
  | .task _ => true
  | .caller | .request _ => false

/-- **A stop that is seen**: every statement of the task brings the bit nearer. -/
theorem ending_step {e : LifeStep} (hs : Ending s) (h : lifeStep handler s e = some (s', out)) :
    Ending s' ∧ stepsLeft s'.taskAt ≤ stepsLeft s.taskAt - if e.isTask then 1 else 0 := by
  cases e with
  | caller =>
    obtain ⟨rfl, -⟩ := Prod.mk.inj (Option.some.inj h)
    rw [MqttLife.callerStep]
    rcases hs.callerAt with hat | hat
    · rw [hat]
      dsimp only
      by_cases hset : s.stopped
      · rw [if_pos hset]
        exact ⟨⟨Or.inr rfl, hs.taskAt, hs.run, hs.phase, hs.stopped⟩, le_rfl⟩
      · rw [if_neg hset]
        exact ⟨hs, le_rfl⟩
    · rw [hat]
      exact ⟨hs, le_rfl⟩
  | request c =>
    obtain ⟨⟨client, o⟩, -, heq⟩ := Option.map_eq_some_iff.mp h
    obtain ⟨rfl, rfl⟩ := Prod.mk.inj heq
    exact ⟨⟨hs.callerAt, hs.taskAt, hs.run, hs.phase, hs.stopped⟩, le_rfl⟩
  | task r =>
    change s.taskStep handler r = some (s', out) at h
    unfold MqttLife.taskStep at h
    have hphase := hs.phase
    cases hat : s.taskAt with
    | absent => exact absurd hat hs.taskAt.1
    | created => exact absurd hat hs.taskAt.2
    | begun =>
      rw [hat] at h hphase
      obtain ⟨rfl, rfl⟩ := Prod.mk.inj (Option.some.inj h)
      exact ⟨⟨hs.callerAt, ⟨TaskAt.noConfusion, TaskAt.noConfusion⟩, hs.run, hphase, fun hdel => by cases hdel⟩, le_rfl⟩
    | clearing =>
      rw [hat] at h hphase
      obtain ⟨rfl, rfl⟩ := Prod.mk.inj (Option.some.inj h)
      exact ⟨⟨hs.callerAt, ⟨TaskAt.noConfusion, TaskAt.noConfusion⟩, hs.run, hphase, fun hdel => by cases hdel⟩, le_rfl⟩
    | looping =>
      rw [hat] at h hphase
      dsimp only at h
      rw [round_ends hs.run hphase] at h
      obtain ⟨rfl, rfl⟩ := Prod.mk.inj (Option.some.inj h)
      exact ⟨⟨hs.callerAt, ⟨TaskAt.noConfusion, TaskAt.noConfusion⟩, hs.run, rfl, fun hdel => by cases hdel⟩, le_rfl⟩
    | closed =>
      rw [hat] at h hphase
      obtain ⟨rfl, rfl⟩ := Prod.mk.inj (Option.some.inj h)
      exact ⟨⟨hs.callerAt, ⟨TaskAt.noConfusion, TaskAt.noConfusion⟩, hs.run, hphase, fun _ => rfl⟩, le_rfl⟩
    | deleted =>
      rw [hat] at h
      obtain ⟨rfl, rfl⟩ := Prod.mk.inj (Option.some.inj h)
      rw [hat]
      exact ⟨hs, Nat.zero_le _⟩

theorem ending_run {es : List LifeStep} (hs : Ending s) (h : runCalls (lifeStep handler) s es = some (s', out)) :
    Ending s' ∧ stepsLeft s'.taskAt ≤ stepsLeft s.taskAt - es.countP LifeStep.isTask := by
  induction es generalizing s out with
  | nil =>
    obtain ⟨rfl, -⟩ := Prod.mk.inj (Option.some.inj h)
    exact ⟨hs, le_rfl⟩
  | cons e es ih =>
    obtain ⟨s₁, out₁, out₂, hstep, hrest, -⟩ := runCalls_cons_eq_some.mp h
    obtain ⟨hending, hone⟩ := ending_step hs hstep
    obtain ⟨hlast, hmore⟩ := ih hending hrest
    refine ⟨hlast, ?_⟩
    rw [List.countP_cons]
    omega

/-- **`esp_mqtt_client_stop`** never returns when the task has not got to its first statement, whatever happens behind
the call; otherwise it returns as soon as the task got to run four statements. -/
theorem stop_returns {s₀ : MqttLife} {es : List LifeStep} (hfresh : s₀.Fresh)
    (h : runCalls (lifeStep handler) s₀ es = some (s, out)) (hstop : s.callerAt = .started) :
    (s.taskAt = .created → ∀ es' s' out', runCalls (lifeStep handler) s (.caller :: es') = some (s', out') →
      s'.callerAt = .waiting) ∧
    (s.taskAt ≠ .created → s.task.phase = .running →
      ∀ es' s' out', runCalls (lifeStep handler) s (.caller :: es') = some (s', out') →
        4 ≤ es'.countP LifeStep.isTask → s'.callerStep.callerAt = .returned) := by
  have hstart : BeforeStop s₀ := ⟨fun _ => hfresh, fun hcases => by
    rw [hfresh.callerAt] at hcases
    rcases hcases with hc | hc <;> cases hc⟩
  have hbusy := (runCalls_invariant BeforeStop (fun _ _ _ _ hI hcall => before_step hI hcall) hstart h).started
    (Or.inr hstop)
  -- the call itself
  have hcall : s.callerStep = { s with task := { s.task with run := false }, callerAt := .waiting } := by
    rw [MqttLife.callerStep, hstop]
  constructor
  · intro hcreated es' s' out' hrun
    obtain ⟨s₁, out₁, out₂, hfirst, hrest, -⟩ := runCalls_cons_eq_some.mp hrun
    obtain ⟨rfl, -⟩ := Prod.mk.inj (Option.some.inj hfirst)
    have hlost : Busy s.callerStep ∧ s.callerStep.callerAt = .waiting := by
      rw [hcall]
      exact ⟨⟨Or.inl hcreated, hbusy.phase, hbusy.auto_reconnect, hbusy.stopped⟩, rfl⟩
    exact (runCalls_invariant (fun s => Busy s ∧ s.callerAt = .waiting) (fun _ _ _ _ hI hcall => lost_step hI hcall) hlost
      hrest).2
  · intro hcreated hphase es' s' out' hrun hcount
    obtain ⟨s₁, out₁, out₂, hfirst, hrest, -⟩ := runCalls_cons_eq_some.mp hrun
    obtain ⟨rfl, -⟩ := Prod.mk.inj (Option.some.inj hfirst)
    obtain ⟨hat, -⟩ := hbusy.taskAt.resolve_left hcreated
    have hending : Ending s.callerStep := by
      rw [hcall]
      refine ⟨Or.inl rfl, ?_, rfl, ?_, fun hdel => ?_⟩
      · rcases hat with hat | hat | hat <;> exact ⟨by rw [hat]; exact TaskAt.noConfusion, hcreated⟩
      · rcases hat with hat | hat | hat <;> rw [hat] <;> exact hphase
      · rcases hat with hat | hat | hat <;> exact absurd (hat.symm.trans hdel) TaskAt.noConfusion
    obtain ⟨hlast, hleft⟩ := ending_run hending hrest
    have hfour : stepsLeft s.callerStep.taskAt ≤ 4 := by cases s.callerStep.taskAt <;> decide
    have hdeleted : s'.taskAt = .deleted := by
      cases hend : s'.taskAt with
      | absent => exact absurd hend hlast.taskAt.1
      | created => exact absurd hend hlast.taskAt.2
      | deleted => rfl
      | begun | clearing | looping | closed =>
        rw [hend, stepsLeft] at hleft
        omega
    rw [MqttLife.callerStep]
    rcases hlast.callerAt with hc | hc
    · rw [hc]
      exact congrArg MqttLife.callerAt (if_pos (hlast.stopped hdeleted))
    · rw [hc]
      exact hc

end Stopping

/-- A client that was initialised. -/
def sampleLife : MqttLife :=
  ⟨{ MqttTask.started sampleIdle sampleInfo true 100 with client := sampleIdle, run := false }, .absent, .start, false⟩

theorem sampleLife_fresh : sampleLife.Fresh := ⟨rfl, rfl, rfl, rfl, rfl, rfl⟩

/-- The task, which does not get the name of the server resolved. -/
def sampleTaskStep : LifeStep := .task ⟨.unresolved, 1, none, [], 0, 5, 0, fun _ => ⟨1, 0, 1⟩⟩

/-- Started; the task before its first statement, and behind it. -/
def sampleCreated : MqttLife := { sampleLife with taskAt := .created, callerAt := .started }

def sampleBegun : MqttLife := { sampleCreated with task := { sampleLife.task with run := true }, taskAt := .begun }

theorem sampleLost_defined : (runCalls (lifeStep fun _ _ => some []) sampleCreated
    (.caller :: [sampleTaskStep, sampleTaskStep, .caller, sampleTaskStep, sampleTaskStep, .caller])).isSome := by
  decide +kernel

theorem sampleStopped_defined : (runCalls (lifeStep fun _ _ => some []) sampleBegun
    (.caller :: [sampleTaskStep, sampleTaskStep, .caller, sampleTaskStep, sampleTaskStep])).isSome := by
  decide +kernel

theorem stop_returns_sample :
    ((runCalls (lifeStep fun _ _ => some []) sampleCreated
      (.caller :: [sampleTaskStep, sampleTaskStep, .caller, sampleTaskStep, sampleTaskStep, .caller])).get
        sampleLost_defined).1.callerAt = .waiting ∧
    ((runCalls (lifeStep fun _ _ => some []) sampleBegun
      (.caller :: [sampleTaskStep, sampleTaskStep, .caller, sampleTaskStep, sampleTaskStep])).get
        sampleStopped_defined).1.callerStep.callerAt = .returned := by
  have hlost : runCalls (lifeStep fun _ _ => some []) sampleLife [.caller, .caller] = some (sampleCreated, []) := rfl
  have hbegun : runCalls (lifeStep fun _ _ => some []) sampleLife [.caller, .caller, sampleTaskStep] =
      some (sampleBegun, []) := rfl
  constructor
  · exact (stop_returns sampleLife_fresh hlost rfl).1 rfl _ _ _ (Option.some_get sampleLost_defined).symm
  · exact (stop_returns sampleLife_fresh hbegun rfl).2 TaskAt.noConfusion rfl _ _ _
      (Option.some_get sampleStopped_defined).symm (by decide)

end Esp32Base
