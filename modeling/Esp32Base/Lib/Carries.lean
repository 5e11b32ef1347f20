import Mathlib.Data.List.Basic

/-!
# Lib.Carries — what a stream carries in disjoint pieces

* `Carries`: the stream has a piece for every message, one behind another, with anything between them.
-/

namespace Lib

variable {α β : Type} {R : β → List α → Prop}

/-- `R m f`: the piece `f` stands for the message `m`. -/
inductive Carries (R : β → List α → Prop) : List α → List β → Prop
  | none (w : List α) : Carries R w []
  | piece (g : List α) {f w : List α} {m : β} {ms : List β} (hf : R m f) (hw : Carries R w ms) :
      Carries R (g ++ (f ++ w)) (m :: ms)

/-- What stands in front carries nothing away. -/
theorem Carries.prepend {w : List α} {ms : List β} (h : Carries R w ms) (g : List α) : Carries R (g ++ w) ms := by
  cases h with
  | none => exact .none _
  | piece g' hf hw =>
    rw [← List.append_assoc]
    exact .piece (g ++ g') hf hw

/-- A message more has a piece that lies in front of the pieces of the others. -/
theorem Carries.cons_iff {w : List α} {m : β} {ms : List β} :
    Carries R w (m :: ms) ↔ ∃ g f w', w = g ++ (f ++ w') ∧ R m f ∧ Carries R w' ms := by
  constructor
  · intro h
    cases h with
    | piece g hf hw => exact ⟨g, _, _, rfl, hf, hw⟩
  · rintro ⟨g, f, w', rfl, hf, hw⟩
    exact .piece g hf hw

end Lib
