import Mathlib.Data.Nat.Bitwise
import Mathlib.Tactic.Ring

/-!
# Machine words: page arithmetic and tagged addresses

Addresses and 64-bit words are naturals below `2 ^ 64`; an operation that can wrap takes the
remainder explicitly.  `alignDown` and `alignUp` round to 4096-byte pages the way the masks
`x & ~4095` and `(x + 4095) & ~4095` do, the second one wrapping at the top of the word.

A tagged address is a page-aligned address with flag bits in its low twelve bits and in bit 63.
`addressBits` takes the address out again (`addressBits_or`), and the flag bits read back as they
were put in (`testBit_or_of_aligned`, `testBit_or_high`).
-/

namespace NovaOS

open Nat

/-- `value & ~(4096 - 1)`. -/
def alignDown (value : ℕ) : ℕ := value - value % 4096

/-- `(value + 4096 - 1) & ~(4096 - 1)` on a 64-bit word. -/
def alignUp (value : ℕ) : ℕ := alignDown ((value + 4095) % 2 ^ 64)

theorem alignDown_le (v : ℕ) : alignDown v ≤ v := by unfold alignDown; omega

theorem alignDown_mod (v : ℕ) : alignDown v % 4096 = 0 := by unfold alignDown; omega

theorem alignDown_eq {v : ℕ} (h : v % 4096 = 0) : alignDown v = v := by unfold alignDown; omega

@[simp] theorem alignDown_alignDown (v : ℕ) : alignDown (alignDown v) = alignDown v :=
  alignDown_eq (alignDown_mod v)

theorem alignDown_add_mod (v : ℕ) : alignDown v + v % 4096 = v := by unfold alignDown; omega

theorem lt_alignDown_add (v : ℕ) : v < alignDown v + 4096 := by unfold alignDown; omega

theorem alignUp_mod (v : ℕ) : alignUp v % 4096 = 0 := alignDown_mod _

/-- Away from the top of the word `alignUp` rounds up. -/
theorem alignUp_spec {v : ℕ} (h : v + 4095 < 2 ^ 64) : v ≤ alignUp v ∧ alignUp v < v + 4096 := by
  unfold alignUp alignDown
  omega

theorem alignUp_lt (v : ℕ) : alignUp v < 2 ^ 64 := by
  unfold alignUp alignDown
  omega

theorem alignUp_eq {v : ℕ} (h : v % 4096 = 0) (hv : v < 2 ^ 64) : alignUp v = v := by
  unfold alignUp alignDown
  omega

/-! ### Tagged addresses -/

/-- `word & 0x000FFFFFFFFFF000`: the address part of a tagged word. -/
def addressBits (word : ℕ) : ℕ := word &&& 0x000FFFFFFFFFF000

theorem addressMask_testBit (i : ℕ) :
    (0x000FFFFFFFFFF000 : ℕ).testBit i = (decide (12 ≤ i) && decide (i < 52)) := by
  rw [show (0x000FFFFFFFFFF000 : ℕ) = (2 ^ 40 - 1) <<< 12 by decide, testBit_shiftLeft,
    testBit_two_pow_sub_one]
  by_cases h : 12 ≤ i
  · simp only [ge_iff_le, h, decide_true, Bool.true_and]
    congr 1
    exact propext ⟨fun h => by omega, fun h => by omega⟩
  · simp [h]

theorem testBit_of_aligned {a i : ℕ} (h : a % 4096 = 0) (hi : i < 12) : a.testBit i = false := by
  obtain ⟨k, rfl⟩ := dvd_of_mod_eq_zero h
  rw [show 4096 * k = k <<< 12 by rw [shiftLeft_eq]; ring, testBit_shiftLeft]
  simp only [ge_iff_le, show ¬ 12 ≤ i by omega, decide_false, Bool.false_and]

/-- Low flag bits of a tagged word are the flag's. -/
theorem testBit_or_of_aligned {a flags i : ℕ} (h : a % 4096 = 0) (hi : i < 12) :
    (a ||| flags).testBit i = flags.testBit i := by
  rw [testBit_or, testBit_of_aligned h hi, Bool.false_or]

/-- High flag bits of a tagged word are the flag's. -/
theorem testBit_or_high {a flags i : ℕ} (h : a < 2 ^ 52) (hi : 52 ≤ i) :
    (a ||| flags).testBit i = flags.testBit i := by
  rw [Nat.testBit_or, Nat.testBit_lt_two_pow (lt_of_lt_of_le h (Nat.pow_le_pow_right (by omega) hi)),
    Bool.false_or]

/-- **The address comes back out.**  Flags that live outside bits 12 to 51 do not disturb it. -/
theorem addressBits_or {a flags : ℕ} (h : a % 4096 = 0) (ha : a < 2 ^ 52)
    (hf : ∀ i, 12 ≤ i → i < 52 → flags.testBit i = false) : addressBits (a ||| flags) = a := by
  apply eq_of_testBit_eq
  intro i
  rw [addressBits, testBit_and, addressMask_testBit]
  by_cases h1 : 12 ≤ i
  · by_cases h2 : i < 52
    · simp [Nat.testBit_or, h1, h2, hf i h1 h2]
    · rw [Nat.testBit_lt_two_pow (lt_of_lt_of_le ha (Nat.pow_le_pow_right (by omega) (by omega)))]
      simp [h2]
  · rw [testBit_of_aligned h (by omega)]
    simp [h1]

end NovaOS
