import Esp32Base.Lib.Framer

/-!
# Lib.Mealy — machines with output, and receivers that carry them out chunk by chunk

* `mealyRun`: the run of a machine that answers every letter with some outputs.
* `runChunks_simulates`: a receiver that carries out the machine on every chunk it is given does so on a whole
  stream, however it is cut.
-/

namespace Lib

variable {τ α β : Type} (step : τ → α → τ × List β)

/-- The state behind the letters, and the outputs. -/
def mealyRun : τ → List α → τ × List β
  | t, [] => (t, [])
  | t, a :: l => ((mealyRun (step t a).1 l).1, (step t a).2 ++ (mealyRun (step t a).1 l).2)

variable {step}

@[simp] theorem mealyRun_nil (t : τ) : mealyRun step t [] = (t, []) := rfl

theorem mealyRun_append (l l' : List α) : ∀ t : τ, mealyRun step t (l ++ l') =
    ((mealyRun step (mealyRun step t l).1 l').1, (mealyRun step t l).2 ++ (mealyRun step (mealyRun step t l).1 l').2) := by
  induction l with
  | nil => exact fun _ => rfl
  | cons a l ih =>
    intro t
    rw [List.cons_append, mealyRun, ih, mealyRun, List.append_assoc]

/-- **Chunk by chunk**: `R` relates the states of receiver and machine, and `P` is what is promised of a chunk in
the state the machine is in. -/
theorem runChunks_simulates {σ : Type} {cb : σ → List α → Option (σ × List β)} (R : σ → τ → Prop)
    (P : τ → List α → Prop)
    (hstep : ∀ s t c, R s t → P t c →
      ∃ s', cb s c = some (s', (mealyRun step t c).2) ∧ R s' (mealyRun step t c).1) :
    ∀ (cs : List (List α)) {s : σ} {t : τ}, R s t →
      (∀ pre c post, cs = pre ++ c :: post → P (mealyRun step t pre.flatten).1 c) →
      ∃ s', runChunks cb s cs = some (s', (mealyRun step t cs.flatten).2) ∧ R s' (mealyRun step t cs.flatten).1
  | [], s, _, hR, _ => ⟨s, rfl, hR⟩
  | c :: cs, s, t, hR, hP => by
    obtain ⟨s₁, hcb, hR₁⟩ := hstep s t c hR (hP [] c cs rfl)
    obtain ⟨s', hrun, hR'⟩ := runChunks_simulates R P hstep cs hR₁ (fun pre d post hcs => by
      have h := hP (c :: pre) d post (by rw [hcs]; rfl)
      rwa [List.flatten_cons, mealyRun_append] at h)
    rw [List.flatten_cons, mealyRun_append]
    refine ⟨s', ?_, hR'⟩
    rw [runChunks_cons hcb, hrun]
    rfl

end Lib
