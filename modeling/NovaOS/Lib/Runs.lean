import Mathlib.Data.List.Basic
import Mathlib.Tactic.Ring

/-!
# Runs of a state machine

`Along step P` says that `P` holds of every step of a run: of the state before it and of the event.
`run_invariant` is the rule for invariants that a step keeps under such a condition.
-/

namespace NovaOS

variable {σ ε : Type*} {step : σ → ε → σ} {P : σ → ε → Prop} {I : σ → Prop}

/-- Every step of the run meets the condition `P`. -/
def Along (step : σ → ε → σ) (P : σ → ε → Prop) : σ → List ε → Prop
  | _, [] => True
  | s, e :: es => P s e ∧ Along step P (step s e) es

instance Along.decidable (step : σ → ε → σ) (P : σ → ε → Prop) [∀ s e, Decidable (P s e)] :
    ∀ s es, Decidable (Along step P s es)
  | _, [] => isTrue trivial
  | s, e :: es => @instDecidableAnd _ _ _ (Along.decidable step P (step s e) es)

/-- A run whose steps all meet the condition keeps what one such step keeps. -/
theorem run_invariant (hstep : ∀ s e, I s → P s e → I (step s e)) {s : σ} {es : List ε}
    (hs : I s) (hes : Along step P s es) : I (es.foldl step s) := by
  induction es generalizing s with
  | nil => exact hs
  | cons e es ih => exact ih (hstep s e hs hes.1) hes.2

/-- What every step from an invariant gives, every step of a run gives. -/
theorem Along.of_invariant (hstep : ∀ s e, I s → I (step s e)) (hP : ∀ s e, I s → P s e) {s : σ}
    (hs : I s) (es : List ε) : Along step P s es := by
  induction es generalizing s with
  | nil => trivial
  | cons e es ih => exact ⟨hP s e hs, ih (hstep s e hs)⟩

/-- What every step that meets the condition gives from an invariant, every such run gives. -/
theorem Along.imp_of_invariant {Q : σ → ε → Prop} (hstep : ∀ s e, I s → P s e → I (step s e))
    (hQ : ∀ s e, I s → P s e → Q s e) {s : σ} (hs : I s) {es : List ε} (hP : Along step P s es) :
    Along step Q s es := by
  induction es generalizing s with
  | nil => trivial
  | cons e es ih => exact ⟨hQ s e hs hP.1, ih (hstep s e hs hP.1) hP.2⟩

theorem Along.and {Q : σ → ε → Prop} {s : σ} {es : List ε} (hP : Along step P s es)
    (hQ : Along step Q s es) : Along step (fun s e => P s e ∧ Q s e) s es := by
  induction es generalizing s with
  | nil => trivial
  | cons e es ih => exact ⟨⟨hP.1, hQ.1⟩, ih hP.2 hQ.2⟩

end NovaOS
