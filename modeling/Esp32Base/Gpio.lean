import Mathlib.Computability.Language
import Esp32Base.Lib.Mealy
import Esp32Base.Lib.CText

/-!
# Gpio — the debounced keys (h_gpio.c, main.c)

A key is sampled every 20 ms. `zhSCM_keyState` goes through four states and answers every sample with an event.

* `Emitted`: what the events so far look like in each of the states.
* `key_history`: what holds of the events of every sequence of samples.
* `gpio_thread_key`: the polling thread gives every key its own samples, and prints the events of its own.
-/

open scoped Computability

namespace Esp32Base

open Lib Lib.Buf Lib.CText

inductive EzhKeyState
  | ZH_KEY_STATE_0
  | ZH_KEY_STATE_1
  | ZH_KEY_STATE_2
  | ZH_KEY_STATE_3
  deriving DecidableEq

inductive EzhKeyEvent
  | ZH_KEY_EVENT_NONE
  | ZH_KEY_EVENT_DOWN
  | ZH_KEY_EVENT_PRESS
  | ZH_KEY_EVENT_UP
  deriving DecidableEq

open EzhKeyState EzhKeyEvent

/-- The state `*status` gets; the pin is set up as an input. -/
def zhSCM_initKey : EzhKeyState := ZH_KEY_STATE_0

/-- `keyPort = !gpio_get_level(pin)`: the keys pull their pins down. -/
def KeyPort (level : ℤ) : Prop := level = 0

instance (level : ℤ) : Decidable (KeyPort level) := inferInstanceAs (Decidable (_ = _))

/-- The new `*status` and the event. -/
def zhSCM_keyState (status : EzhKeyState) (level : ℤ) : EzhKeyState × EzhKeyEvent :=
  match status with
  | ZH_KEY_STATE_1 =>
    if KeyPort level then (ZH_KEY_STATE_2, ZH_KEY_EVENT_DOWN) else (ZH_KEY_STATE_0, ZH_KEY_EVENT_NONE)
  | ZH_KEY_STATE_2 =>
    if KeyPort level then (ZH_KEY_STATE_3, ZH_KEY_EVENT_PRESS) else (ZH_KEY_STATE_0, ZH_KEY_EVENT_UP)
  | ZH_KEY_STATE_3 =>
    if KeyPort level then (ZH_KEY_STATE_3, ZH_KEY_EVENT_PRESS) else (ZH_KEY_STATE_0, ZH_KEY_EVENT_UP)
  | ZH_KEY_STATE_0 =>
    if KeyPort level then (ZH_KEY_STATE_1, ZH_KEY_EVENT_NONE) else (ZH_KEY_STATE_0, ZH_KEY_EVENT_NONE)

/-- One sample of a key, as a machine with output. -/
def keyStep (status : EzhKeyState) (level : ℤ) : EzhKeyState × List EzhKeyEvent :=
  ((zhSCM_keyState status level).1, [(zhSCM_keyState status level).2])

/-- The state behind a sequence of samples. -/
def keyStatus (levels : List ℤ) : EzhKeyState := (mealyRun keyStep zhSCM_initKey levels).1

/-- The events of a sequence of samples. -/
def keyEvents (levels : List ℤ) : List EzhKeyEvent := (mealyRun keyStep zhSCM_initKey levels).2

/-! ## Sample by sample -/

@[simp] theorem keyStatus_nil : keyStatus [] = ZH_KEY_STATE_0 := rfl

@[simp] theorem keyEvents_nil : keyEvents [] = [] := rfl

@[simp] theorem keyStatus_concat (pre : List ℤ) (level : ℤ) :
    keyStatus (pre ++ [level]) = (zhSCM_keyState (keyStatus pre) level).1 := by
  unfold keyStatus
  rw [mealyRun_append]
  rfl

@[simp] theorem keyEvents_concat (pre : List ℤ) (level : ℤ) :
    keyEvents (pre ++ [level]) = keyEvents pre ++ [(zhSCM_keyState (keyStatus pre) level).2] := by
  unfold keyEvents keyStatus
  rw [mealyRun_append]
  rfl

/-- One event for every sample. -/
@[simp] theorem keyEvents_length (levels : List ℤ) : (keyEvents levels).length = levels.length := by
  induction levels using List.reverseRecOn with
  | nil => rfl
  | append_singleton pre level ih => simp [ih]

/-- Later samples do not change the events so far. -/
theorem keyEvents_append (pre post : List ℤ) : ∃ later, keyEvents (pre ++ post) = keyEvents pre ++ later := by
  unfold keyEvents
  rw [mealyRun_append]
  exact ⟨_, rfl⟩

/-- The event of the sample behind `pre`. -/
theorem keyEvents_at (pre post : List ℤ) (level : ℤ) :
    (keyEvents (pre ++ level :: post))[pre.length]? = some (zhSCM_keyState (keyStatus pre) level).2 := by
  obtain ⟨later, h⟩ := keyEvents_append (pre ++ [level]) post
  rw [List.append_assoc, List.singleton_append] at h
  rw [h, keyEvents_concat, List.append_assoc, List.getElem?_append_right (by simp)]
  simp

/-- A sample of a key that is not pressed leaves it idle. -/
theorem keyState_released {level : ℤ} (h : ¬ KeyPort level) (status : EzhKeyState) :
    (zhSCM_keyState status level).1 = ZH_KEY_STATE_0 := by
  cases status <;> simp [zhSCM_keyState, h]

/-! ## What has been emitted -/

/-- The events of one stroke. -/
def keyStroke : Language EzhKeyEvent :=
  {[ZH_KEY_EVENT_NONE]}∗ * {[ZH_KEY_EVENT_DOWN]} * {[ZH_KEY_EVENT_PRESS]}∗ * {[ZH_KEY_EVENT_UP]}

/-- (NONE* DOWN PRESS* UP)* -/
def keyWords : Language EzhKeyEvent := keyStroke∗

/-- What the events so far look like: whole strokes, then a part of one. -/
def Emitted (events : List EzhKeyEvent) : EzhKeyState → Prop
  | ZH_KEY_STATE_0 => ∃ w ∈ keyWords, ∃ n, events = w ++ List.replicate n ZH_KEY_EVENT_NONE
  | ZH_KEY_STATE_1 => ∃ w ∈ keyWords, ∃ n, events = w ++ List.replicate n ZH_KEY_EVENT_NONE
  | ZH_KEY_STATE_2 => ∃ w ∈ keyWords, ∃ n,
      events = w ++ List.replicate n ZH_KEY_EVENT_NONE ++ [ZH_KEY_EVENT_DOWN]
  | ZH_KEY_STATE_3 => ∃ w ∈ keyWords, ∃ n m,
      events = w ++ List.replicate n ZH_KEY_EVENT_NONE ++ [ZH_KEY_EVENT_DOWN] ++ List.replicate m ZH_KEY_EVENT_PRESS

theorem replicate_mem_kstar {α : Type} (a : α) (n : ℕ) : List.replicate n a ∈ ({[a]} : Language α)∗ := by
  rw [Language.mem_kstar]
  refine ⟨List.replicate n [a], by simp, ?_⟩
  intro y hy
  exact (List.eq_of_mem_replicate hy : y = [a])

theorem mem_kstar_singleton {α : Type} {a : α} {w : List α} (h : w ∈ ({[a]} : Language α)∗) :
    ∃ n, w = List.replicate n a := by
  obtain ⟨L, rfl, hL⟩ := Language.mem_kstar.mp h
  refine ⟨L.length, ?_⟩
  have hrep : L = List.replicate L.length [a] := List.eq_replicate_of_mem (fun y hy => hL y hy)
  rw [hrep]
  simp

theorem stroke_mem (n m : ℕ) :
    List.replicate n ZH_KEY_EVENT_NONE ++ [ZH_KEY_EVENT_DOWN] ++ List.replicate m ZH_KEY_EVENT_PRESS ++
      [ZH_KEY_EVENT_UP] ∈ keyStroke := by
  unfold keyStroke
  refine Language.append_mem_mul (Language.append_mem_mul (Language.append_mem_mul ?_ rfl) ?_) rfl
  · exact replicate_mem_kstar _ n
  · exact replicate_mem_kstar _ m

/-- Every DOWN of a stroke has its UP. -/
theorem stroke_balanced {w : List EzhKeyEvent} (h : w ∈ keyStroke) :
    w.count ZH_KEY_EVENT_DOWN = w.count ZH_KEY_EVENT_UP := by
  unfold keyStroke at h
  simp only [Language.mem_mul] at h
  obtain ⟨_, ⟨_, ⟨a, ha, b, hb, rfl⟩, c, hc, rfl⟩, d, hd, rfl⟩ := h
  obtain ⟨n, rfl⟩ := mem_kstar_singleton ha
  obtain ⟨m, rfl⟩ := mem_kstar_singleton hc
  obtain rfl : b = [ZH_KEY_EVENT_DOWN] := hb
  obtain rfl : d = [ZH_KEY_EVENT_UP] := hd
  simp [List.count_replicate]

theorem words_balanced {w : List EzhKeyEvent} (h : w ∈ keyWords) :
    w.count ZH_KEY_EVENT_DOWN = w.count ZH_KEY_EVENT_UP := by
  obtain ⟨L, rfl, hL⟩ := Language.mem_kstar.mp h
  rw [List.count_flatten, List.count_flatten]
  congr 1
  exact List.map_congr_left (fun y hy => stroke_balanced (hL y hy))

theorem words_concat {w s : List EzhKeyEvent} (hw : w ∈ keyWords) (hs : s ∈ keyStroke) : w ++ s ∈ keyWords := by
  obtain ⟨L, rfl, hL⟩ := Language.mem_kstar.mp hw
  have h : (L ++ [s]).flatten ∈ keyStroke∗ := by
    apply Language.join_mem_kstar
    intro y hy
    rcases List.mem_append.mp hy with hy | hy
    · exact hL y hy
    · rwa [List.mem_singleton.mp hy]
  rw [List.flatten_append, List.flatten_singleton] at h
  exact h

/-- **One sample**: the event answered keeps the form of the history. -/
theorem emitted_step {events : List EzhKeyEvent} {status : EzhKeyState} (h : Emitted events status) (level : ℤ) :
    Emitted (events ++ [(zhSCM_keyState status level).2]) (zhSCM_keyState status level).1 := by
  cases status with
  | ZH_KEY_STATE_0 =>
    obtain ⟨w, hw, n, rfl⟩ := h
    by_cases hk : KeyPort level
    · simp only [zhSCM_keyState, if_pos hk]
      exact ⟨w, hw, n + 1, by rw [List.replicate_succ', List.append_assoc]⟩
    · simp only [zhSCM_keyState, if_neg hk]
      exact ⟨w, hw, n + 1, by rw [List.replicate_succ', List.append_assoc]⟩
  | ZH_KEY_STATE_1 =>
    obtain ⟨w, hw, n, rfl⟩ := h
    by_cases hk : KeyPort level
    · simp only [zhSCM_keyState, if_pos hk]
      exact ⟨w, hw, n, rfl⟩
    · simp only [zhSCM_keyState, if_neg hk]
      exact ⟨w, hw, n + 1, by rw [List.replicate_succ', List.append_assoc]⟩
  | ZH_KEY_STATE_2 =>
    obtain ⟨w, hw, n, rfl⟩ := h
    by_cases hk : KeyPort level
    · simp only [zhSCM_keyState, if_pos hk]
      exact ⟨w, hw, n, 1, rfl⟩
    · simp only [zhSCM_keyState, if_neg hk]
      refine ⟨_, words_concat hw (stroke_mem n 0), 0, ?_⟩
      simp
  | ZH_KEY_STATE_3 =>
    obtain ⟨w, hw, n, m, rfl⟩ := h
    by_cases hk : KeyPort level
    · simp only [zhSCM_keyState, if_pos hk]
      exact ⟨w, hw, n, m + 1, by rw [List.replicate_succ', ← List.append_assoc]⟩
    · simp only [zhSCM_keyState, if_neg hk]
      refine ⟨_, words_concat hw (stroke_mem n m), 0, ?_⟩
      simp

/-- **Every sequence of samples**: the history has the form of the state. -/
theorem emitted_run (levels : List ℤ) : Emitted (keyEvents levels) (keyStatus levels) := by
  induction levels using List.reverseRecOn with
  | nil => exact ⟨[], Language.nil_mem_kstar _, 0, rfl⟩
  | append_singleton pre level ih =>
    rw [keyEvents_concat, keyStatus_concat]
    exact emitted_step ih level

/-- Whole strokes and the beginning of one more, behind its `NONE`s. -/
theorem part_prefix {w part : List EzhKeyEvent} (hw : w ∈ keyWords) (n m : ℕ)
    (hpart : part <+: [ZH_KEY_EVENT_DOWN] ++ List.replicate m ZH_KEY_EVENT_PRESS ++ [ZH_KEY_EVENT_UP]) :
    ∃ w' ∈ keyWords, w ++ List.replicate n ZH_KEY_EVENT_NONE ++ part <+: w' := by
  refine ⟨_, words_concat hw (stroke_mem n m), ?_⟩
  simp only [List.append_assoc, List.prefix_append_right_inj] at hpart ⊢
  exact hpart

/-- The part of a stroke at the end can be completed. -/
theorem emitted_prefix {events : List EzhKeyEvent} {status : EzhKeyState} (h : Emitted events status) :
    ∃ w ∈ keyWords, events <+: w := by
  cases status with
  | ZH_KEY_STATE_0 =>
    obtain ⟨w, hw, n, rfl⟩ := h
    have hpart := part_prefix hw n 0 List.nil_prefix
    rwa [List.append_nil] at hpart
  | ZH_KEY_STATE_1 =>
    obtain ⟨w, hw, n, rfl⟩ := h
    have hpart := part_prefix hw n 0 List.nil_prefix
    rwa [List.append_nil] at hpart
  | ZH_KEY_STATE_2 =>
    obtain ⟨w, hw, n, rfl⟩ := h
    exact part_prefix hw n 0 (List.prefix_append _ _)
  | ZH_KEY_STATE_3 =>
    obtain ⟨w, hw, n, m, rfl⟩ := h
    rw [List.append_assoc _ [ZH_KEY_EVENT_DOWN]]
    exact part_prefix hw n m (List.prefix_append _ _)

/-- While the key is down, the last DOWN has only been followed by PRESS, and those before it have their UP. -/
theorem emitted_down {events : List EzhKeyEvent} {status : EzhKeyState} (h : Emitted events status)
    (hs : status = ZH_KEY_STATE_2 ∨ status = ZH_KEY_STATE_3) :
    ∃ before m, events = before ++ ZH_KEY_EVENT_DOWN :: List.replicate m ZH_KEY_EVENT_PRESS ∧
      before.count ZH_KEY_EVENT_DOWN = before.count ZH_KEY_EVENT_UP := by
  have hbal : ∀ w ∈ keyWords, ∀ n,
      (w ++ List.replicate n ZH_KEY_EVENT_NONE).count ZH_KEY_EVENT_DOWN =
        (w ++ List.replicate n ZH_KEY_EVENT_NONE).count ZH_KEY_EVENT_UP := by
    intro w hw n
    simp [List.count_append, words_balanced hw, List.count_replicate]
  rcases hs with rfl | rfl
  · obtain ⟨w, hw, n, rfl⟩ := h
    exact ⟨_, 0, rfl, hbal w hw n⟩
  · obtain ⟨w, hw, n, m, rfl⟩ := h
    exact ⟨_, m, by rw [List.append_assoc _ [ZH_KEY_EVENT_DOWN], List.singleton_append], hbal w hw n⟩

/-- The state in front of an event that reports a key held down. -/
theorem keyState_held {status : EzhKeyState} {level : ℤ}
    (h : (zhSCM_keyState status level).2 = ZH_KEY_EVENT_PRESS ∨ (zhSCM_keyState status level).2 = ZH_KEY_EVENT_UP) :
    status = ZH_KEY_STATE_2 ∨ status = ZH_KEY_STATE_3 := by
  cases status with
  | ZH_KEY_STATE_0 => by_cases hk : KeyPort level <;> simp [zhSCM_keyState, hk] at h
  | ZH_KEY_STATE_1 => by_cases hk : KeyPort level <;> simp [zhSCM_keyState, hk] at h
  | ZH_KEY_STATE_2 => exact Or.inl rfl
  | ZH_KEY_STATE_3 => exact Or.inr rfl

theorem keyState_down {status : EzhKeyState} {level : ℤ}
    (h : (zhSCM_keyState status level).2 = ZH_KEY_EVENT_DOWN) : status = ZH_KEY_STATE_1 ∧ KeyPort level := by
  cases status with
  | ZH_KEY_STATE_1 =>
    by_cases hk : KeyPort level
    · exact ⟨rfl, hk⟩
    · simp [zhSCM_keyState, hk] at h
  | ZH_KEY_STATE_0 => by_cases hk : KeyPort level <;> simp [zhSCM_keyState, hk] at h
  | ZH_KEY_STATE_2 => by_cases hk : KeyPort level <;> simp [zhSCM_keyState, hk] at h
  | ZH_KEY_STATE_3 => by_cases hk : KeyPort level <;> simp [zhSCM_keyState, hk] at h

/-- State 1 is entered from the idle state only, by a pressed sample. -/
theorem keyState_first {status : EzhKeyState} {level : ℤ} (h : (zhSCM_keyState status level).1 = ZH_KEY_STATE_1) :
    status = ZH_KEY_STATE_0 ∧ KeyPort level := by
  cases status with
  | ZH_KEY_STATE_0 =>
    by_cases hk : KeyPort level
    · exact ⟨rfl, hk⟩
    · simp [zhSCM_keyState, hk] at h
  | ZH_KEY_STATE_1 => by_cases hk : KeyPort level <;> simp [zhSCM_keyState, hk] at h
  | ZH_KEY_STATE_2 => by_cases hk : KeyPort level <;> simp [zhSCM_keyState, hk] at h
  | ZH_KEY_STATE_3 => by_cases hk : KeyPort level <;> simp [zhSCM_keyState, hk] at h

theorem keyStatus_first {pre : List ℤ} (h : keyStatus pre = ZH_KEY_STATE_1) :
    ∃ before first, pre = before ++ [first] ∧ keyStatus before = ZH_KEY_STATE_0 ∧ KeyPort first := by
  induction pre using List.reverseRecOn with
  | nil => exact nomatch h
  | append_singleton before first =>
    rw [keyStatus_concat] at h
    exact ⟨before, first, rfl, keyState_first h⟩

/-- Behind a sample that is not pressed, and at the start, the key is idle. -/
theorem keyStatus_idle {pre : List ℤ} (h : ∀ level ∈ pre.getLast?, ¬ KeyPort level) :
    keyStatus pre = ZH_KEY_STATE_0 := by
  induction pre using List.reverseRecOn with
  | nil => rfl
  | append_singleton before last =>
    rw [keyStatus_concat]
    exact keyState_released (h last (by simp)) _

/-! ## The history of a key -/

/-- What is promised of the events of a sequence of samples. The event of the sample behind `pre` stands at
`pre.length`. -/
structure KeyHistory (levels : List ℤ) : Prop where
  word : ∃ w ∈ keyWords, keyEvents levels <+: w
  down : ∀ pre level post, levels = pre ++ level :: post →
    (keyEvents levels)[pre.length]? = some ZH_KEY_EVENT_DOWN →
      KeyPort level ∧ ∃ before first, pre = before ++ [first] ∧ keyStatus before = ZH_KEY_STATE_0 ∧ KeyPort first
  press : ∀ pre level post, levels = pre ++ level :: post →
    (keyEvents levels)[pre.length]? = some ZH_KEY_EVENT_PRESS →
      ∃ before held, (keyEvents levels).take pre.length = before ++ ZH_KEY_EVENT_DOWN :: held ∧
        ZH_KEY_EVENT_UP ∉ held
  up : ∀ pre level post, levels = pre ++ level :: post →
    (keyEvents levels)[pre.length]? = some ZH_KEY_EVENT_UP →
      ∃ before held, (keyEvents levels).take pre.length = before ++ ZH_KEY_EVENT_DOWN :: held ∧
        ZH_KEY_EVENT_UP ∉ held ∧ ZH_KEY_EVENT_DOWN ∉ held ∧
        before.count ZH_KEY_EVENT_DOWN = before.count ZH_KEY_EVENT_UP
  isolated : ∀ pre level post, levels = pre ++ level :: post → KeyPort level →
    (∀ l ∈ pre.getLast?, ¬ KeyPort l) → (∀ l ∈ post.head?, ¬ KeyPort l) →
      (keyEvents levels)[pre.length]? = some ZH_KEY_EVENT_NONE ∧
        ∀ ev ∈ (keyEvents levels)[pre.length + 1]?, ev = ZH_KEY_EVENT_NONE

theorem keyEvents_take (pre post : List ℤ) : (keyEvents (pre ++ post)).take pre.length = keyEvents pre := by
  obtain ⟨later, h⟩ := keyEvents_append pre post
  rw [h, List.take_left' (keyEvents_length pre)]

/-- In front of a PRESS or an UP, the key is down. -/
theorem keyEvents_held {pre post : List ℤ} {level : ℤ}
    (h : (keyEvents (pre ++ level :: post))[pre.length]? = some ZH_KEY_EVENT_PRESS ∨
      (keyEvents (pre ++ level :: post))[pre.length]? = some ZH_KEY_EVENT_UP) :
    ∃ before m, (keyEvents (pre ++ level :: post)).take pre.length =
        before ++ ZH_KEY_EVENT_DOWN :: List.replicate m ZH_KEY_EVENT_PRESS ∧
      before.count ZH_KEY_EVENT_DOWN = before.count ZH_KEY_EVENT_UP := by
  simp only [keyEvents_at, Option.some.injEq] at h
  rw [keyEvents_take]
  exact emitted_down (emitted_run pre) (keyState_held h)

/-- **The events of a key**, for every sequence of samples. -/
theorem key_history (levels : List ℤ) : KeyHistory levels where
  word := emitted_prefix (emitted_run levels)
  down := by
    rintro pre level post rfl h
    rw [keyEvents_at, Option.some.injEq] at h
    obtain ⟨hstate, hk⟩ := keyState_down h
    exact ⟨hk, keyStatus_first hstate⟩
  press := by
    rintro pre level post rfl h
    obtain ⟨before, m, hsplit, -⟩ := keyEvents_held (Or.inl h)
    exact ⟨before, _, hsplit, by simp⟩
  up := by
    rintro pre level post rfl h
    obtain ⟨before, m, hsplit, hcount⟩ := keyEvents_held (Or.inr h)
    exact ⟨before, _, hsplit, by simp, by simp, hcount⟩
  isolated := by
    rintro pre level post rfl hk hpre hpost
    have hidle := keyStatus_idle hpre
    refine ⟨by rw [keyEvents_at, hidle]; simp [zhSCM_keyState, hk], ?_⟩
    cases post with
    | nil =>
      intro ev hev
      rw [List.getElem?_eq_none (by simp)] at hev
      exact nomatch hev
    | cons next post =>
      have hnext : ¬ KeyPort next := hpost next rfl
      have hat := keyEvents_at (pre ++ [level]) post next
      rw [List.append_assoc, List.singleton_append, List.length_append, List.length_singleton] at hat
      intro ev hev
      rw [hat, keyStatus_concat, hidle] at hev
      simpa [zhSCM_keyState, hk, hnext, eq_comm] using hev

example : keyEvents [1, 0, 1, 0, 0, 0, 0, 1] =
    [ZH_KEY_EVENT_NONE, ZH_KEY_EVENT_NONE, ZH_KEY_EVENT_NONE, ZH_KEY_EVENT_NONE, ZH_KEY_EVENT_DOWN,
      ZH_KEY_EVENT_PRESS, ZH_KEY_EVENT_PRESS, ZH_KEY_EVENT_UP] := by decide

/-! ## The polling thread -/

structure GpioKeys where
  btnFactory : EzhKeyState
  btn1 : EzhKeyState
  btn2 : EzhKeyState
  btn3 : EzhKeyState

/-- `app_main` sets the keys up. -/
def initKeys : GpioKeys := ⟨zhSCM_initKey, zhSCM_initKey, zhSCM_initKey, zhSCM_initKey⟩

/-- The `switch` on an event: one line with the pin and the event, and none for `ZH_KEY_EVENT_NONE`. -/
def printEvent (pin : ℕ) (ev : EzhKeyEvent) : List (ℕ × EzhKeyEvent) :=
  match ev with
  | ZH_KEY_EVENT_NONE => []
  | ZH_KEY_EVENT_DOWN => [(pin, ZH_KEY_EVENT_DOWN)]
  | ZH_KEY_EVENT_PRESS => [(pin, ZH_KEY_EVENT_PRESS)]
  | ZH_KEY_EVENT_UP => [(pin, ZH_KEY_EVENT_UP)]

/-- One pass of `while (1)`: the keys behind it, and the lines printed. -/
def task_gpio_thread (k : GpioKeys) (gpio_get_level : ℕ → ℤ) : GpioKeys × List (ℕ × EzhKeyEvent) :=
  let f := zhSCM_keyState k.btnFactory (gpio_get_level 39)
  let b1 := zhSCM_keyState k.btn1 (gpio_get_level 34)
  let b2 := zhSCM_keyState k.btn2 (gpio_get_level 35)
  let b3 := zhSCM_keyState k.btn3 (gpio_get_level 13)
  (⟨f.1, b1.1, b2.1, b3.1⟩, printEvent 39 f.2 ++ printEvent 34 b1.2 ++ printEvent 35 b2.2 ++ printEvent 13 b3.2)

/-- The samples a pin has given. -/
def samples (pin : ℕ) (rounds : List (ℕ → ℤ)) : List ℤ := rounds.map fun gpio_get_level => gpio_get_level pin

@[simp] theorem samples_concat (pin : ℕ) (rounds : List (ℕ → ℤ)) (gpio_get_level : ℕ → ℤ) :
    samples pin (rounds ++ [gpio_get_level]) = samples pin rounds ++ [gpio_get_level pin] := by
  simp [samples]

/-- The lines of one pin. -/
def linesOf (pin : ℕ) (lines : List (ℕ × EzhKeyEvent)) : List EzhKeyEvent :=
  (lines.filter fun line => line.1 = pin).map Prod.snd

theorem linesOf_append (pin : ℕ) (l l' : List (ℕ × EzhKeyEvent)) :
    linesOf pin (l ++ l') = linesOf pin l ++ linesOf pin l' := by
  simp [linesOf]

theorem linesOf_printEvent (pin other : ℕ) (ev : EzhKeyEvent) : linesOf pin (printEvent other ev) =
    if other = pin then [ev].filter (· ≠ ZH_KEY_EVENT_NONE) else [] := by
  by_cases h : other = pin <;> cases ev <;> simp [linesOf, printEvent, h]

/-- Every key has seen the samples of its own pin. -/
theorem gpio_thread_status (rounds : List (ℕ → ℤ)) : (mealyRun task_gpio_thread initKeys rounds).1 =
    ⟨keyStatus (samples 39 rounds), keyStatus (samples 34 rounds), keyStatus (samples 35 rounds),
      keyStatus (samples 13 rounds)⟩ := by
  induction rounds using List.reverseRecOn with
  | nil => rfl
  | append_singleton rounds gpio_get_level ih =>
    simp only [mealyRun_append, ih, samples_concat, keyStatus_concat]
    rfl

/-- **What the thread prints for a pin**: the events of its samples that are not `ZH_KEY_EVENT_NONE`. -/
theorem gpio_thread_key (rounds : List (ℕ → ℤ)) {pin : ℕ} (hpin : pin ∈ [39, 34, 35, 13]) :
    linesOf pin (mealyRun task_gpio_thread initKeys rounds).2 =
      (keyEvents (samples pin rounds)).filter (· ≠ ZH_KEY_EVENT_NONE) := by
  induction rounds using List.reverseRecOn with
  | nil => rfl
  | append_singleton rounds gpio_get_level ih =>
    rw [mealyRun_append, linesOf_append, ih, samples_concat, keyEvents_concat, List.filter_append]
    congr 1
    rw [gpio_thread_status, mealyRun, mealyRun_nil, List.append_nil]
    simp only [task_gpio_thread, linesOf_append, linesOf_printEvent]
    simp only [List.mem_cons, List.not_mem_nil, or_false] at hpin
    rcases hpin with rfl | rfl | rfl | rfl <;> simp

end Esp32Base
