import Mathlib.Algebra.BigOperators.Group.List.Basic
import Mathlib.Data.Finset.Card
import Mathlib.Data.Finset.Range
import Mathlib.Logic.Function.Basic
import Mathlib.Tactic.Ring

/-!
# Tables: functions changed at one place, and how often a value is used

Arrays and partial maps are functions on `ℕ` updated with `Function.update`.  This file has the
case analysis for reading an updated partial map (`update_some_cases`, `update_none_cases`) and a
count of the indices below a bound that satisfy a test (`countBelow`), with what one update does
to it.
-/

namespace NovaOS

open Function

variable {α : Type*}

theorem update_some_cases {F : ℕ → Option α} {f g : ℕ} {v r : α}
    (h : update F f (some v) g = some r) : (g = f ∧ r = v) ∨ (g ≠ f ∧ F g = some r) := by
  by_cases hg : g = f
  · subst hg
    rw [update_self, Option.some.injEq] at h
    exact .inl ⟨rfl, h.symm⟩
  · rw [update_of_ne hg] at h
    exact .inr ⟨hg, h⟩

theorem update_none_cases {F : ℕ → Option α} {f g : ℕ} {r : α}
    (h : update F f none g = some r) : g ≠ f ∧ F g = some r := by
  by_cases hg : g = f
  · subst hg
    simp at h
  · rw [update_of_ne hg] at h
    exact ⟨hg, h⟩

/-! ### Counting -/

/-- How many indices below `n` satisfy `p`. -/
def countBelow (n : ℕ) (p : ℕ → Bool) : ℕ := ((Finset.range n).filter fun i => p i = true).card

variable {n i : ℕ} {p : ℕ → Bool}

theorem countBelow_eq_zero (h : ∀ i, i < n → p i = false) : countBelow n p = 0 := by
  rw [countBelow, Finset.card_eq_zero, Finset.filter_eq_empty_iff]
  intro i hi
  rw [h i (Finset.mem_range.1 hi)]
  simp

theorem countBelow_pos (hi : i < n) (h : p i = true) : 0 < countBelow n p := by
  rw [countBelow, Finset.card_pos]
  exact ⟨i, Finset.mem_filter.2 ⟨Finset.mem_range.2 hi, h⟩⟩

theorem exists_of_countBelow_pos (h : 0 < countBelow n p) : ∃ i, i < n ∧ p i = true := by
  rw [countBelow, Finset.card_pos] at h
  obtain ⟨i, hi⟩ := h
  rw [Finset.mem_filter, Finset.mem_range] at hi
  exact ⟨i, hi⟩

theorem exists_of_countBelow_lt (h : countBelow n p < n) : ∃ i, i < n ∧ p i = false := by
  by_contra hall
  push Not at hall
  have hfull : countBelow n p = n := by
    rw [countBelow, Finset.filter_true_of_mem, Finset.card_range]
    intro i hi
    exact Bool.of_not_eq_false (hall i (Finset.mem_range.1 hi))
  omega

theorem countBelow_lt (hi : i < n) (h : p i = false) : countBelow n p < n := by
  have hsub : (Finset.range n).filter (fun j => p j = true) ⊆ (Finset.range n).erase i := by
    intro j hj
    obtain ⟨hrange, htest⟩ := Finset.mem_filter.1 hj
    refine Finset.mem_erase.2 ⟨?_, hrange⟩
    rintro rfl
    rw [h] at htest
    cases htest
  have hle := Finset.card_le_card hsub
  rw [Finset.card_erase_of_mem (Finset.mem_range.2 hi), Finset.card_range] at hle
  rw [countBelow]
  omega

theorem countBelow_congr {q : ℕ → Bool} (h : ∀ i, i < n → p i = q i) :
    countBelow n p = countBelow n q := by
  unfold countBelow
  congr 1
  apply Finset.filter_congr
  intro i hi
  rw [h i (Finset.mem_range.1 hi)]

theorem countBelow_add {q : ℕ → Bool} (hi : i < n) (hp : p i = false)
    (hq : q i = true) (h : ∀ j, j ≠ i → q j = p j) : countBelow n q = countBelow n p + 1 := by
  have hset : (Finset.range n).filter (fun j => q j = true)
      = insert i ((Finset.range n).filter fun j => p j = true) := by
    ext j
    by_cases hj : j = i
    · subst hj; simp [hi, hq]
    · simp [hj, h j hj]
  unfold countBelow
  rw [hset, Finset.card_insert_of_notMem]
  simp [hp]

/-- Two different indices give a count of at least two. -/
theorem eq_of_countBelow_le_one (h : countBelow n p ≤ 1) {j : ℕ}
    (hi : i < n) (hj : j < n) (hpi : p i = true) (hpj : p j = true) : i = j :=
  Finset.card_le_one.1 h i (Finset.mem_filter.2 ⟨Finset.mem_range.2 hi, hpi⟩) j
    (Finset.mem_filter.2 ⟨Finset.mem_range.2 hj, hpj⟩)

end NovaOS
