import Esp32Base.Lib.Mealy

/-!
# Lib.Calls — runs of calls that may be undefined

An object answers every call with some outputs, or the call is undefined.

* `runCalls_invariant`: what every call keeps holds at the end of a run.
* `runCalls_simulates`: an object whose calls follow a machine answers every run as the machine does.
* `runCalls_refines`: when a run is defined, and what is observed of it.
-/

namespace Lib

variable {σ τ κ β : Type} (call : σ → κ → Option (σ × List β))

/-- The calls one after the other, with all outputs. -/
def runCalls : σ → List κ → Option (σ × List β)
  | s, [] => some (s, [])
  | s, k :: ks => (call s k).bind fun p => (runCalls p.1 ks).map fun q => (q.1, p.2 ++ q.2)

variable {call}

@[simp] theorem runCalls_nil (s : σ) : runCalls call s [] = some (s, []) := rfl

theorem runCalls_cons {s s₁ : σ} {k : κ} {out : List β} (h : call s k = some (s₁, out)) (ks : List κ) :
    runCalls call s (k :: ks) = (runCalls call s₁ ks).map fun q => (q.1, out ++ q.2) := by
  rw [runCalls, h, Option.bind_some]

theorem runCalls_cons_eq_some {s s₂ : σ} {k : κ} {ks : List κ} {out : List β} :
    runCalls call s (k :: ks) = some (s₂, out) ↔
      ∃ s₁ out₁ out₂, call s k = some (s₁, out₁) ∧ runCalls call s₁ ks = some (s₂, out₂) ∧ out = out₁ ++ out₂ := by
  constructor
  · intro h
    obtain ⟨⟨s₁, out₁⟩, h₁, h⟩ := Option.bind_eq_some_iff.mp h
    obtain ⟨⟨s₃, out₂⟩, h₂, h⟩ := Option.map_eq_some_iff.mp h
    obtain ⟨rfl, rfl⟩ := Prod.mk.inj h
    exact ⟨s₁, out₁, out₂, h₁, h₂, rfl⟩
  · rintro ⟨s₁, out₁, out₂, h₁, h₂, rfl⟩
    rw [runCalls_cons h₁, h₂]
    rfl

/-- Calls that are said in other words. -/
theorem runCalls_map {γ : Type} (f : γ → κ) (ks : List γ) (s : σ) :
    runCalls (fun s k => call s (f k)) s ks = runCalls call s (ks.map f) := by
  induction ks generalizing s with
  | nil => rfl
  | cons k ks ih =>
    rw [runCalls, List.map_cons, runCalls]
    simp only [ih]

/-- **Invariants** of the calls are invariants of runs. -/
theorem runCalls_invariant (I : σ → Prop) (hstep : ∀ s k s' out, I s → call s k = some (s', out) → I s') :
    ∀ {ks : List κ} {s s' : σ} {out : List β}, I s → runCalls call s ks = some (s', out) → I s'
  | [], s, s', out, hI, h => (Prod.mk.inj (Option.some.inj h)).1 ▸ hI
  | k :: ks, s, s', out, hI, h => by
    obtain ⟨s₁, out₁, out₂, h₁, h₂, -⟩ := runCalls_cons_eq_some.mp h
    exact runCalls_invariant I hstep (hstep s k s₁ out₁ hI h₁) h₂

/-- The same with all outputs so far. -/
theorem runCalls_history (I : σ → List β → Prop)
    (hstep : ∀ s past k s' out, I s past → call s k = some (s', out) → I s' (past ++ out)) :
    ∀ {ks : List κ} {s s' : σ} {past out : List β}, I s past → runCalls call s ks = some (s', out) → I s' (past ++ out)
  | [], s, s', past, out, hI, h => by
    obtain ⟨rfl, rfl⟩ := Prod.mk.inj (Option.some.inj h)
    rwa [List.append_nil]
  | k :: ks, s, s', past, out, hI, h => by
    obtain ⟨s₁, out₁, out₂, h₁, h₂, rfl⟩ := runCalls_cons_eq_some.mp h
    rw [← List.append_assoc]
    exact runCalls_history I hstep (hstep s past k s₁ out₁ hI h₁) h₂

/-- No call of a run is made in a state in which `P` holds of it. -/
def Avoids (call : σ → κ → Option (σ × List β)) (P : σ → κ → Prop) : σ → List κ → Prop
  | _, [] => True
  | s, k :: ks => ¬ P s k ∧ ∀ s' out, call s k = some (s', out) → Avoids call P s' ks

theorem avoids_cons {P : σ → κ → Prop} {s s₁ : σ} {k : κ} {ks : List κ} {out : List β} (hnot : ¬ P s k)
    (h : call s k = some (s₁, out)) (hrest : Avoids call P s₁ ks) : Avoids call P s (k :: ks) := by
  refine ⟨hnot, fun s' out' h' => ?_⟩
  obtain ⟨rfl, rfl⟩ := Prod.mk.inj (Option.some.inj (h.symm.trans h'))
  exact hrest

instance Avoids.decidable {P : σ → κ → Prop} [∀ s k, Decidable (P s k)] : ∀ s ks, Decidable (Avoids call P s ks)
  | _, [] => isTrue trivial
  | s, k :: ks =>
    match h : call s k with
    | none => decidable_of_iff (¬ P s k) ⟨fun hnot => ⟨hnot, fun _ _ h' => by rw [h] at h'; cases h'⟩, fun h' => h'.1⟩
    | some (s', _) =>
      haveI := Avoids.decidable (P := P) s' ks
      decidable_of_iff (¬ P s k ∧ Avoids call P s' ks) ⟨fun h' => avoids_cons h'.1 h h'.2, fun h' => ⟨h'.1, h'.2 _ _ h⟩⟩

/-- **Simulation**: `R` relates the states of object and machine, and `P` is what is promised of a call in the
machine's state. -/
theorem runCalls_simulates {step : τ → κ → τ × List β} (R : σ → τ → Prop) (P : τ → κ → Prop)
    (hstep : ∀ s t k, R s t → P t k → ∃ s', call s k = some (s', (step t k).2) ∧ R s' (step t k).1) :
    ∀ (ks : List κ) {s : σ} {t : τ}, R s t →
      (∀ pre k post, ks = pre ++ k :: post → P (mealyRun step t pre).1 k) →
      ∃ s', runCalls call s ks = some (s', (mealyRun step t ks).2) ∧ R s' (mealyRun step t ks).1
  | [], s, _, hR, _ => ⟨s, rfl, hR⟩
  | k :: ks, s, t, hR, hP => by
    obtain ⟨s₁, hcall, hR₁⟩ := hstep s t k hR (hP [] k ks rfl)
    have hP₁ : ∀ pre k' post, ks = pre ++ k' :: post → P (mealyRun step (step t k).1 pre).1 k' := by
      intro pre k' post hks
      have h := hP (k :: pre) k' post (by rw [hks]; rfl)
      rwa [mealyRun] at h
    obtain ⟨s', hrun, hR'⟩ := runCalls_simulates R P hstep ks hR₁ hP₁
    refine ⟨s', ?_, hR'⟩
    rw [runCalls_cons hcall, hrun]
    rfl

/-- **Refinement**: a call is defined iff `P` holds of it in the machine's state, and what is observed of its outputs is
what the machine puts out. -/
theorem runCalls_refines {γ : Type} {step : τ → κ → τ × List γ} (obs : β → Option γ) (R : σ → τ → Prop) (P : τ → κ → Prop)
    (hdef : ∀ s t k, R s t → ((∃ q, call s k = some q) ↔ P t k))
    (hstep : ∀ s t k s' out, R s t → call s k = some (s', out) → out.filterMap obs = (step t k).2 ∧ R s' (step t k).1) :
    ∀ (ks : List κ) {s : σ} {t : τ}, R s t →
      ((∃ q, runCalls call s ks = some q) ↔ ∀ pre k post, ks = pre ++ k :: post → P (mealyRun step t pre).1 k) ∧
      ∀ s' out, runCalls call s ks = some (s', out) →
        out.filterMap obs = (mealyRun step t ks).2 ∧ R s' (mealyRun step t ks).1
  | [], s, t, hR => by
    refine ⟨iff_of_true ⟨_, rfl⟩ fun pre k post h => absurd h (by simp), fun s' out h => ?_⟩
    obtain ⟨rfl, rfl⟩ := Prod.mk.inj (Option.some.inj h)
    exact ⟨rfl, hR⟩
  | k :: ks, s, t, hR => by
    have hrest : ∀ s₁ out₁, call s k = some (s₁, out₁) → R s₁ (step t k).1 := fun s₁ out₁ h => (hstep s t k s₁ out₁ hR h).2
    refine ⟨⟨?_, ?_⟩, fun s' out h => ?_⟩
    · rintro ⟨⟨s', out⟩, h⟩ pre k' post hks
      obtain ⟨s₁, out₁, out₂, h₁, h₂, -⟩ := runCalls_cons_eq_some.mp h
      cases pre with
      | nil =>
        obtain ⟨rfl, -⟩ := List.cons.inj hks
        exact (hdef s t k hR).mp ⟨_, h₁⟩
      | cons k'' pre =>
        obtain ⟨rfl, hks'⟩ := List.cons.inj hks
        exact (runCalls_refines obs R P hdef hstep ks (hrest s₁ out₁ h₁)).1.mp ⟨_, h₂⟩ pre k' post hks'
    · intro hP
      obtain ⟨⟨s₁, out₁⟩, h₁⟩ := (hdef s t k hR).mpr (hP [] k ks rfl)
      obtain ⟨⟨s', out₂⟩, h₂⟩ := (runCalls_refines obs R P hdef hstep ks (hrest s₁ out₁ h₁)).1.mpr
        fun pre k' post hks => hP (k :: pre) k' post (by rw [hks]; rfl)
      exact ⟨_, runCalls_cons_eq_some.mpr ⟨s₁, out₁, out₂, h₁, h₂, rfl⟩⟩
    · obtain ⟨s₁, out₁, out₂, h₁, h₂, rfl⟩ := runCalls_cons_eq_some.mp h
      obtain ⟨hout, hR₁⟩ := hstep s t k s₁ out₁ hR h₁
      obtain ⟨hout', hR'⟩ := (runCalls_refines obs R P hdef hstep ks hR₁).2 s' out₂ h₂
      rw [List.filterMap_append, hout, hout']
      exact ⟨rfl, hR'⟩

end Lib
