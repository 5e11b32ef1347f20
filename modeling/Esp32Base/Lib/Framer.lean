import Mathlib.Data.List.Basic

/-!
# Lib.Framer — incremental framers and what a split of their input cannot change

A framer looks at the front of a buffer and either waits for more input or drops a non-empty piece,
with or without a message.  Its decisions are stable: a piece that is dropped from `x` is dropped
from `x ++ y`.  `drain` repeats the step until the framer waits.

* `Eats`: from here on one buffer is as good as some messages and another buffer.
* `runChunks_eats`: a receiver that keeps a live buffer, appends every chunk to it and lets the framer
  eat, has over any list of chunks eaten their concatenation.
-/

namespace Lib

/-- An incremental framer over the alphabet `α` with messages in `β`. -/
structure Framer (α β : Type) where
  /-- `none` waits; `some (m?, r)` drops everything in front of `r`. -/
  step : List α → Option (Option β × List α)
  shrink : ∀ {x o r}, step x = some (o, r) → r.length < x.length
  stable : ∀ {x o r} (y : List α), step x = some (o, r) → step (x ++ y) = some (o, r ++ y)

namespace Framer

variable {α β : Type} (F : Framer α β)

/-- Step until the framer waits: the messages and the rest. -/
def drain (x : List α) : List β × List α :=
  match h : F.step x with
  | none => ([], x)
  | some (o, r) =>
    have := F.shrink h
    (o.toList ++ (drain r).1, (drain r).2)
termination_by x.length

variable {F}

theorem drain_of_wait {x : List α} (h : F.step x = none) : F.drain x = ([], x) := by
  rw [drain]
  split
  · rfl
  · next o r heq => rw [h] at heq; cases heq

theorem drain_of_step {x r : List α} {o : Option β} (h : F.step x = some (o, r)) :
    F.drain x = (o.toList ++ (F.drain r).1, (F.drain r).2) := by
  rw [drain]
  split
  · next heq => rw [h] at heq; cases heq
  · next o' r' heq =>
    rw [h] at heq
    simp only [Option.some.injEq, Prod.mk.injEq] at heq
    obtain ⟨rfl, rfl⟩ := heq
    rfl

/-! ## Eating a prefix of the buffer -/

/-- Whatever follows, the buffer `x` yields the messages `ms` and then behaves as the buffer `x'`. -/
def Eats (F : Framer α β) (x : List α) (ms : List β) (x' : List α) : Prop :=
  ∀ y, F.drain (x ++ y) = (ms ++ (F.drain (x' ++ y)).1, (F.drain (x' ++ y)).2)

theorem Eats.refl (x : List α) : F.Eats x [] x := fun _ => rfl

theorem Eats.trans {x x' x'' : List α} {ms ms' : List β} (h : F.Eats x ms x')
    (h' : F.Eats x' ms' x'') : F.Eats x (ms ++ ms') x'' := by
  intro y
  rw [h y, h' y, List.append_assoc]

theorem Eats.append {x x' : List α} {ms : List β} (h : F.Eats x ms x') (z : List α) :
    F.Eats (x ++ z) ms (x' ++ z) := by
  intro y
  rw [List.append_assoc, List.append_assoc]
  exact h (z ++ y)

theorem eats_of_step {x r : List α} {o : Option β} (h : F.step x = some (o, r)) :
    F.Eats x o.toList r := fun y => drain_of_step (F.stable y h)

/-- The messages and the rest of what has been eaten so far, read off at an empty continuation. -/
theorem Eats.drain {x x' : List α} {ms : List β} (h : F.Eats x ms x') :
    F.drain x = (ms ++ (F.drain x').1, (F.drain x').2) := by
  simpa using h []

/-- What holds of a buffer, passes to the rest of every step and never yields a message, stays silent. -/
theorem drain_silent {P : List α → Prop}
    (hP : ∀ {x r : List α} {o : Option β}, P x → F.step x = some (o, r) → o = none ∧ P r) :
    ∀ {x : List α}, P x → (F.drain x).1 = [] := by
  intro x hx
  induction h : x.length using Nat.strongRecOn generalizing x with
  | _ n ih =>
    cases hs : F.step x with
    | none => rw [drain_of_wait hs]
    | some p =>
      obtain ⟨o, r⟩ := p
      obtain ⟨rfl, hr⟩ := hP hx hs
      rw [drain_of_step hs, ih r.length (h ▸ F.shrink hs) hr rfl]
      rfl

end Framer

/-- A prefix of `a ++ b` ends inside `a` or has all of `a` and ends inside `b`. -/
theorem prefix_append_cases {α : Type} {p a b : List α} (h : p <+: a ++ b) :
    p <+: a ∨ ∃ p', p = a ++ p' ∧ p' <+: b := by
  rcases List.prefix_or_prefix_of_prefix h (List.prefix_append a b) with hp | ⟨p', rfl⟩
  · exact Or.inl hp
  · exact Or.inr ⟨p', rfl, (List.prefix_append_right_inj a).mp h⟩

/-! ## Receivers fed chunk by chunk -/

section Run

variable {σ α β : Type} (cb : σ → List α → Option (σ × List β))

/-- Feed the chunks one by one and collect the messages; `none` as soon as one call is undefined. -/
def runChunks : σ → List (List α) → Option (σ × List β)
  | s, [] => some (s, [])
  | s, c :: cs =>
    (cb s c).bind fun p => (runChunks p.1 cs).map fun q => (q.1, p.2 ++ q.2)

variable {cb}

@[simp] theorem runChunks_nil (s : σ) : runChunks cb s [] = some (s, []) := rfl

theorem runChunks_cons {s s₁ : σ} {c : List α} {ms : List β} (h : cb s c = some (s₁, ms))
    (cs : List (List α)) :
    runChunks cb s (c :: cs) = (runChunks cb s₁ cs).map fun q => (q.1, ms ++ q.2) := by
  simp [runChunks, h]

theorem runChunks_cons_eq_some {s s₂ : σ} {c : List α} {cs : List (List α)} {out : List β} :
    runChunks cb s (c :: cs) = some (s₂, out) ↔
      ∃ s₁ ms ms', cb s c = some (s₁, ms) ∧ runChunks cb s₁ cs = some (s₂, ms') ∧
        out = ms ++ ms' := by
  constructor
  · intro h
    obtain ⟨⟨s₁, ms⟩, h₁, h⟩ := Option.bind_eq_some_iff.mp h
    obtain ⟨⟨s₃, ms'⟩, h₂, h⟩ := Option.map_eq_some_iff.mp h
    simp only [Prod.mk.injEq] at h
    obtain ⟨rfl, rfl⟩ := h
    exact ⟨s₁, ms, ms', h₁, h₂, rfl⟩
  · rintro ⟨s₁, ms, ms', h₁, h₂, rfl⟩
    rw [runChunks_cons h₁, h₂]
    rfl

/-- A predicate on the state before every call and the chunk it is given, along a run. -/
def AlongRun (cb : σ → List α → Option (σ × List β)) (P : σ → List α → Prop) :
    σ → List (List α) → Prop
  | _, [] => True
  | s, c :: cs => P s c ∧ ∀ s₁ ms, cb s c = some (s₁, ms) → AlongRun cb P s₁ cs

/-- A decidable predicate is decidable along a run. -/
instance AlongRun.dec (P : σ → List α → Prop) [∀ s c, Decidable (P s c)] :
    ∀ (cs : List (List α)) (s : σ), Decidable (AlongRun cb P s cs)
  | [], _ => .isTrue trivial
  | c :: cs, s =>
    match h : cb s c with
    | none => decidable_of_iff (P s c)
        ⟨fun hP => ⟨hP, fun s₁ ms h₁ => by rw [h] at h₁; cases h₁⟩, fun hP => hP.1⟩
    | some (s₁, ms) =>
      have := AlongRun.dec P cs s₁
      decidable_of_iff (P s c ∧ AlongRun cb P s₁ cs)
        ⟨fun hP => ⟨hP.1, fun s₂ ms₂ h₂ => by rw [h] at h₂; cases h₂; exact hP.2⟩,
          fun hP => ⟨hP.1, hP.2 s₁ ms h⟩⟩

theorem AlongRun.mono {P Q : σ → List α → Prop} (hPQ : ∀ s c, P s c → Q s c) :
    ∀ {cs : List (List α)} {s : σ}, AlongRun cb P s cs → AlongRun cb Q s cs
  | [], _, _ => trivial
  | _ :: _, _, h => ⟨hPQ _ _ h.1, fun s₁ ms h₁ => AlongRun.mono hPQ (h.2 s₁ ms h₁)⟩

theorem AlongRun.and {P Q : σ → List α → Prop} : ∀ {cs : List (List α)} {s : σ},
    AlongRun cb P s cs → AlongRun cb Q s cs → AlongRun cb (fun s c => P s c ∧ Q s c) s cs
  | [], _, _, _ => trivial
  | _ :: _, _, h, h' => ⟨⟨h.1, h'.1⟩, fun s₁ ms h₁ => AlongRun.and (h.2 s₁ ms h₁) (h'.2 s₁ ms h₁)⟩

theorem AlongRun.take {P : σ → List α → Prop} : ∀ {cs : List (List α)} {s : σ} (k : ℕ),
    AlongRun cb P s cs → AlongRun cb P s (cs.take k)
  | _, _, 0, _ => trivial
  | [], _, _ + 1, _ => trivial
  | _ :: _, _, k + 1, h => ⟨h.1, fun s₁ ms h₁ => AlongRun.take k (h.2 s₁ ms h₁)⟩

/-- Two predicates that agree on an invariant agree along a run, when the calls that satisfy the first keep the
invariant. -/
theorem AlongRun.congr {P Q : σ → List α → Prop} (I : σ → Prop) (hPQ : ∀ s c, I s → (P s c ↔ Q s c))
    (hstep : ∀ s c s₁ ms, I s → P s c → cb s c = some (s₁, ms) → I s₁) :
    ∀ {cs : List (List α)} {s : σ}, I s → (AlongRun cb P s cs ↔ AlongRun cb Q s cs)
  | [], _, _ => Iff.rfl
  | c :: cs, s, hI => by
    have hhead := hPQ s c hI
    constructor
    · rintro ⟨hP, hrest⟩
      refine ⟨hhead.mp hP, fun s₁ ms h₁ => ?_⟩
      exact (AlongRun.congr I hPQ hstep (hstep s c s₁ ms hI hP h₁)).mp (hrest s₁ ms h₁)
    · rintro ⟨hQ, hrest⟩
      have hP := hhead.mpr hQ
      refine ⟨hP, fun s₁ ms h₁ => ?_⟩
      exact (AlongRun.congr I hPQ hstep (hstep s c s₁ ms hI hP h₁)).mpr (hrest s₁ ms h₁)

/-- In a run that is defined to its end, an invariant holds before every call. -/
theorem alongRun_of_run {P : σ → List α → Prop} (I : σ → Prop)
    (hstep : ∀ s c s₁ ms, I s → cb s c = some (s₁, ms) → I s₁ ∧ P s c) :
    ∀ {cs : List (List α)} {s s' : σ} {out : List β}, I s → runChunks cb s cs = some (s', out) →
      AlongRun cb P s cs
  | [], _, _, _, _, _ => trivial
  | c :: cs, s, s', out, hI, h => by
    obtain ⟨s₁, ms, ms', h₁, h₂, -⟩ := runChunks_cons_eq_some.mp h
    refine ⟨(hstep s c s₁ ms hI h₁).2, fun s₂ ms₂ h₂' => ?_⟩
    rw [h₁] at h₂'
    simp only [Option.some.injEq, Prod.mk.injEq] at h₂'
    obtain ⟨rfl, rfl⟩ := h₂'
    exact alongRun_of_run I hstep (hstep s c s₁ ms hI h₁).1 h₂

/-- **Refinement of a framer by a chunk receiver.**  Every call from a state in `Inv`, reached with
the history `hist` of the stream `S`, lets the framer eat from the live bytes and the chunk until no
message is left in front, and hands out the messages through `f`.  Then so does a run. -/
theorem runChunks_eats {γ : Type} (F : Framer α γ) (f : γ → β) (live : σ → List α)
    (Inv : σ → Prop) (P : σ → List α → Prop) (S : List α)
    (hstep : ∀ s c hist out, Inv s → P s c → F.Eats hist out (live s) → hist ++ c <+: S →
      ∃ s₁ ms, cb s c = some (s₁, ms.map f) ∧ Inv s₁ ∧ F.Eats (live s ++ c) ms (live s₁) ∧
        (F.drain (live s₁)).1 = []) :
    ∀ (cs : List (List α)) (s : σ) (hist : List α) (out : List γ), Inv s →
      F.Eats hist out (live s) → (F.drain (live s)).1 = [] → hist ++ cs.flatten <+: S →
      AlongRun cb P s cs →
      ∃ s' ms, runChunks cb s cs = some (s', ms.map f) ∧ Inv s' ∧
        F.Eats (hist ++ cs.flatten) (out ++ ms) (live s') ∧ (F.drain (live s')).1 = []
  | [], s, hist, out, hI, heat, h0, _, _ => ⟨s, [], rfl, hI, by simpa using heat, h0⟩
  | c :: cs, s, hist, out, hI, heat, _, hS, hP => by
    rw [List.flatten_cons, ← List.append_assoc] at hS
    obtain ⟨s₁, ms, h₁, hI₁, heat₁, h0₁⟩ :=
      hstep s c hist out hI hP.1 heat ((List.prefix_append _ _).trans hS)
    obtain ⟨s', ms', hrun, hI', heat', h0'⟩ := runChunks_eats F f live Inv P S hstep cs s₁
      (hist ++ c) (out ++ ms) hI₁ ((heat.append c).trans heat₁) h0₁ hS (hP.2 s₁ _ h₁)
    refine ⟨s', ms ++ ms', ?_, hI', ?_, h0'⟩
    · rw [runChunks_cons h₁, hrun, List.map_append]
      rfl
    · rw [List.flatten_cons, ← List.append_assoc, ← List.append_assoc]
      exact heat'

end Run

end Lib
