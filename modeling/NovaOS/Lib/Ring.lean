import Mathlib.Data.List.Basic
import Mathlib.Logic.Function.Basic
import Mathlib.Tactic.Ring

/-!
# Circular buffers

A buffer of `C` cells is a function on cell numbers.  `ringList` is the sequence of `n` elements that
starts at a cell and wraps at the end, `ringWrite` stores elements one after the other from a cell
on.  Storing behind a sequence appends to it as long as it does not run into its own start
(`ringList_ringWrite`), and a sequence splits into what is in front and what follows
(`ringList_add`).
-/

namespace NovaOS

open Function List Nat

variable {α : Type*}

/-- The `n` elements from cell `start` on. -/
def ringList (C : ℕ) (data : ℕ → α) (start n : ℕ) : List α :=
  (List.range n).map fun i => data ((start + i) % C)

/-- The cells after `xs` was stored from cell `w` on. -/
def ringWrite (C : ℕ) (data : ℕ → α) (w : ℕ) : List α → ℕ → α
  | [] => data
  | x :: xs => ringWrite C (update data w x) ((w + 1) % C) xs

section

variable {C : ℕ} {data : ℕ → α} {start n m : ℕ}

@[simp] theorem length_ringList : (ringList C data start n).length = n := by
  rw [ringList, length_map, length_range]

theorem ringList_add :
    ringList C data start (n + m) =
      ringList C data start n ++ ringList C data ((start + n) % C) m := by
  rw [ringList, range_add, map_append, map_map]
  congr 1
  apply map_congr_left
  intro i _
  show data ((start + (n + i)) % C) = data (((start + n) % C + i) % C)
  rw [mod_add_mod, add_assoc]

theorem ringList_congr {d : ℕ → α}
    (h : ∀ i, i < n → data ((start + i) % C) = d ((start + i) % C)) :
    ringList C data start n = ringList C d start n := by
  apply map_congr_left
  intro i hi
  exact h i (mem_range.1 hi)

/-- Two cells of one turn around the buffer are different cells. -/
theorem ring_index_ne {i j : ℕ} (hij : i < j) (hj : j < C) : (start + i) % C ≠ (start + j) % C := by
  intro h
  have hdiff := Nat.sub_mod_eq_zero_of_mod_eq h.symm
  rw [Nat.add_sub_add_left, Nat.mod_eq_of_lt (by omega)] at hdiff
  omega

/-- **Storing behind a sequence appends to it.** -/
theorem ringList_ringWrite (xs : List α) (h : n + xs.length ≤ C) :
    ringList C (ringWrite C data ((start + n) % C) xs) start (n + xs.length) =
      ringList C data start n ++ xs := by
  induction xs generalizing data n with
  | nil => rw [ringWrite, length_nil, add_zero, append_nil]
  | cons x xs ih =>
    rw [length_cons] at h ⊢
    rw [ringWrite, mod_add_mod, add_assoc start n 1,
      show n + (xs.length + 1) = n + 1 + xs.length by omega, ih (by omega), ringList_add,
      append_assoc]
    congr 1
    · apply ringList_congr
      intro i hi
      exact update_of_ne (ring_index_ne hi (by omega)) ..
    · show update data _ x (((start + n) % C + 0) % C) :: xs = x :: xs
      rw [add_zero, mod_mod, update_self]

end

end NovaOS
