import Mathlib.Logic.Basic
import Mathlib.Tactic.Ring

/-!
# Computations on a state that may fail

`Fallible σ α` takes a state to a result, or to none when it fails, and a state.  A failing
computation keeps what it had already done to the state, as a C function that returns `false` half
way does; the rest of the sequence is skipped.

`bind_some`, `pure_some`, `check_some`, `onlyIf_some` and `reads_some` say how a computation that
succeeded came about, one lemma per building block.
-/

namespace NovaOS

/-- A computation on a state that may fail. -/
def Fallible (σ α : Type) : Type := σ → Option α × σ

namespace Fallible

variable {σ α β : Type}

instance : Monad (Fallible σ) where
  pure a := fun s => (some a, s)
  bind x f := fun s =>
    match x s with
    | (none, s) => (none, s)
    | (some a, s) => f a s

/-- Go on only if `p` holds. -/
def check (p : Prop) [Decidable p] : Fallible σ Unit := fun s => (if p then some () else none, s)

/-- Do `x` only if `p` holds. -/
def onlyIf (p : Prop) [Decidable p] (x : Fallible σ Unit) : Fallible σ Unit :=
  if p then x else pure ()

/-- Something the state determines, or none. -/
def reads (f : σ → Option α) : Fallible σ α := fun s => (f s, s)

/-! ### How a success came about -/

variable {x : Fallible σ α} {f : α → Fallible σ β} {s s' : σ} {a : α} {b : β} {p : Prop} [Decidable p]

theorem bind_some : (x >>= f) s = (some b, s') ↔
    ∃ a s₁, x s = (some a, s₁) ∧ f a s₁ = (some b, s') := by
  show (match x s with | (none, s) => (none, s) | (some a, s) => f a s) = (some b, s') ↔ _
  rcases x s with ⟨_ | a, s₁⟩
  · constructor
    · intro h
      cases h
    · intro h
      obtain ⟨a, s₂, h, _⟩ := h
      cases h
  · constructor
    · intro h
      exact ⟨a, s₁, rfl, h⟩
    · intro h
      obtain ⟨a', s₂, h, hf⟩ := h
      cases h
      exact hf

theorem pure_some {c : α} : (pure c : Fallible σ α) s = (some a, s') ↔ c = a ∧ s = s' := by
  show (some c, s) = (some a, s') ↔ _
  rw [Prod.mk.injEq, Option.some.injEq]

theorem check_some {u : Unit} : (check p : Fallible σ Unit) s = (some u, s') ↔ p ∧ s = s' := by
  show ((if p then some () else none), s) = (some u, s') ↔ _
  by_cases hp : p
  · simp [hp]
  · simp [hp]

theorem onlyIf_some {x : Fallible σ Unit} {u : Unit} :
    onlyIf p x s = (some u, s') ↔ (p ∧ x s = (some u, s')) ∨ (¬ p ∧ s = s') := by
  rw [onlyIf]
  by_cases hp : p
  · simp [hp]
  · rw [if_neg hp, pure_some]
    simp [hp]

theorem reads_some {g : σ → Option α} : reads g s = (some a, s') ↔ g s = some a ∧ s = s' := by
  show (g s, s) = (some a, s') ↔ _
  rw [Prod.mk.injEq]

end Fallible

end NovaOS
