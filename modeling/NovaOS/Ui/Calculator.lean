import Mathlib.Data.Int.Notation
import Mathlib.Tactic.Ring

/-!
# The calculator

The numbers are 32 bits wide and wrap; only a division can stop the processor, by zero or when the
quotient does not fit.  The code tests for zero.

* `calculatorApply`, `calculatorDigit`, `calculatorPress`, `calculatorKey` — the calculator, in which a
  division that faults gives `none`;
* `CalculatorOk` — a number that was typed is not negative, and behind an operator that was just pressed
  stands what is left of the accumulator when digits are dropped;
* `calculator_never_faults` — **no sequence of keys and buttons divides out of range**.
-/

namespace NovaOS.Ui

/-- A value of type `int`. -/
def int32 (n : ℤ) : ℤ := n.bmod (2 ^ 32)

/-- A division of values of type `int`: none is the divide error. -/
def int32Div (a b : ℤ) : Option ℤ :=
  if b = 0 ∨ a = -2 ^ 31 ∧ b = -1 then none else some (a.tdiv b)

inductive Operator
  | add
  | subtract
  | multiply
  | divide

structure Calculator where
  value : ℤ
  accumulator : ℤ
  operator : Option Operator
  newValue : Bool
  error : Bool

/-- The calculator at the start, and after `C`. -/
def Calculator.clear : Calculator := ⟨0, 0, none, true, false⟩

/-- The switch of `calculator_apply`. -/
def operate (c : Calculator) : Operator → Option Calculator
  | .add => some { c with accumulator := int32 (c.accumulator + c.value) }
  | .subtract => some { c with accumulator := int32 (c.accumulator - c.value) }
  | .multiply => some { c with accumulator := int32 (c.accumulator * c.value) }
  | .divide =>
    if c.value = 0 then some { c with error := true }
    else (int32Div c.accumulator c.value).map fun quotient => { c with accumulator := quotient }

def calculatorApply (c : Calculator) : Option Calculator :=
  match c.operator with
  | none => some c
  | some operator => (operate c operator).map fun c =>
    { c with value := c.accumulator, operator := none, newValue := true }

def calculatorDigit (digit : ℕ) (c : Calculator) : Calculator :=
  if c.error then c
  else
    let c := if c.newValue then { c with value := 0, newValue := false } else c
    if c.value < 100000000 ∧ -100000000 < c.value then
      { c with value := int32 (c.value * 10 + digit) }
    else c

def operatorOf (key : Char) : Option Operator :=
  if key = '+' then some .add
  else if key = '-' then some .subtract
  else if key = '*' then some .multiply
  else if key = '/' then some .divide
  else none

def calculatorPress (key : Char) (c : Calculator) : Option Calculator :=
  if '0' ≤ key ∧ key ≤ '9' then some (calculatorDigit (key.toNat - 48) c)
  else if key = 'C' then some .clear
  else if key = '=' then calculatorApply c
  else
    match operatorOf key with
    | none => some c
    | some operator =>
      (if c.operator.isSome && !c.newValue then calculatorApply c else some c).map fun c =>
        { c with accumulator := c.value, operator := some operator, newValue := true }

inductive SpecialKey
  | backspace
  | enter
  | other

/-- A key of the keyboard: its character, and the key if it has none. -/
def calculatorKey (character : Char) (key : SpecialKey) (c : Calculator) : Option Calculator :=
  if ('0' ≤ character ∧ character ≤ '9') ∨ (operatorOf character).isSome then
    calculatorPress character c
  else if character = 'c' ∨ character = 'C' then calculatorPress 'C' c
  else
    match key with
    | .enter => calculatorPress '=' c
    | .backspace => some { c with value := c.value.tdiv 10 }
    | .other => some c

inductive CalculatorEvent
  | button (key : Char)
  | key (character : Char) (key : SpecialKey)

def calculatorStep (c : Calculator) : CalculatorEvent → Option Calculator
  | .button key => calculatorPress key c
  | .key character key => calculatorKey character key c

/-! ### What can stand behind an operator -/

/-- What is left of the least number when digits are dropped. -/
def leastDropped : List ℤ :=
  [-2147483648, -214748364, -21474836, -2147483, -214748, -21474, -2147, -214, -21, -2, 0]

theorem leastDropped_step : ∀ n ∈ leastDropped, n.tdiv 10 ∈ leastDropped ∧ n ≠ -1 := by decide

structure CalculatorOk (c : Calculator) : Prop where
  typed : c.newValue = false → 0 ≤ c.value
  pressed : c.newValue = true → c.operator.isSome = true → c.accumulator = -2 ^ 31 →
    c.value ∈ leastDropped

variable {c : Calculator}

theorem CalculatorOk.of_new (hnew : c.newValue = true) (hoperator : c.operator = none) :
    CalculatorOk c := by
  constructor
  · intro hold
    rw [hnew] at hold
    cases hold
  · intro _ hsome
    rw [hoperator] at hsome
    cases hsome

theorem CalculatorOk.of_typed (hold : c.newValue = false) (hvalue : 0 ≤ c.value) : CalculatorOk c := by
  refine ⟨fun _ => hvalue, fun hnew => ?_⟩
  rw [hold] at hnew
  cases hnew

section

variable (h : CalculatorOk c)

include h

/-- **The division of `calculator_apply`** is in range. -/
theorem CalculatorOk.int32Div (hoperator : c.operator.isSome = true)
    (hvalue : c.value ≠ 0) : ∃ quotient, Ui.int32Div c.accumulator c.value = some quotient := by
  refine ⟨_, if_neg ?_⟩
  rintro (hzero | ⟨hleast, hone⟩)
  · exact hvalue hzero
  cases hnew : c.newValue with
  | false =>
    have htyped := h.typed hnew
    omega
  | true =>
    exact (leastDropped_step _ (h.pressed hnew hoperator hleast)).2 hone

theorem CalculatorOk.calculatorApply : ∃ c', Ui.calculatorApply c = some c' ∧ CalculatorOk c' := by
  rw [Ui.calculatorApply]
  split
  · exact ⟨c, rfl, h⟩
  · next operator hoperator =>
    have hdone : ∃ c', operate c operator = some c' := by
      cases operator with
      | add => exact ⟨_, rfl⟩
      | subtract => exact ⟨_, rfl⟩
      | multiply => exact ⟨_, rfl⟩
      | divide =>
        rw [operate]
        split
        · exact ⟨_, rfl⟩
        · next hvalue =>
          obtain ⟨quotient, hquotient⟩ := h.int32Div (by rw [hoperator]; rfl) hvalue
          rw [hquotient]
          exact ⟨_, rfl⟩
    obtain ⟨c', hc'⟩ := hdone
    rw [hc']
    exact ⟨_, rfl, .of_new rfl rfl⟩

theorem CalculatorOk.calculatorDigit (digit : ℕ) (hdigit : digit < 10) :
    CalculatorOk (Ui.calculatorDigit digit c) := by
  have hnext : ∀ c : Calculator, c.newValue = false → 0 ≤ c.value →
      CalculatorOk (if c.value < 100000000 ∧ -100000000 < c.value then
        { c with value := int32 (c.value * 10 + digit) } else c) := by
    intro c hold hvalue
    split
    · refine .of_typed hold ?_
      show 0 ≤ int32 (c.value * 10 + digit)
      rw [int32, Int.bmod_eq_of_le (by omega) (by omega)]
      omega
    · exact .of_typed hold hvalue
  rw [Ui.calculatorDigit]
  split
  · exact h
  cases hnew : c.newValue with
  | true => exact hnext _ rfl (Int.le_refl 0)
  | false => exact hnext c hnew (h.typed hnew)

theorem CalculatorOk.calculatorPress (key : Char) :
    ∃ c', Ui.calculatorPress key c = some c' ∧ CalculatorOk c' := by
  rw [Ui.calculatorPress]
  split
  · next hkey =>
    have hdigit : key.toNat ≤ '9'.toNat := hkey.2
    exact ⟨_, rfl, h.calculatorDigit _ (by have : '9'.toNat = 57 := rfl; omega)⟩
  split
  · exact ⟨_, rfl, .of_new rfl rfl⟩
  split
  · exact h.calculatorApply
  split
  · exact ⟨c, rfl, h⟩
  · next operator _ =>
    have hbefore : ∃ c', (if c.operator.isSome && !c.newValue then Ui.calculatorApply c else some c) =
        some c' := by
      split
      · obtain ⟨c', hc', -⟩ := h.calculatorApply
        exact ⟨c', hc'⟩
      · exact ⟨c, rfl⟩
    obtain ⟨c', hc'⟩ := hbefore
    rw [hc']
    refine ⟨_, rfl, (fun hno => by cases hno), fun _ _ hleast => ?_⟩
    rw [show c'.value = -2 ^ 31 from hleast]
    decide

/-- Backspace drops the last digit, also of a number that was not typed. -/
theorem CalculatorOk.backspace : CalculatorOk { c with value := c.value.tdiv 10 } := by
  constructor
  · intro hnew
    exact Int.tdiv_nonneg (h.typed hnew) (by decide)
  · intro hnew hoperator hleast
    exact (leastDropped_step _ (h.pressed hnew hoperator hleast)).1

theorem CalculatorOk.calculatorStep (event : CalculatorEvent) :
    ∃ c', Ui.calculatorStep c event = some c' ∧ CalculatorOk c' := by
  cases event with
  | button key => exact h.calculatorPress key
  | key character key =>
    show ∃ c', calculatorKey character key c = some c' ∧ CalculatorOk c'
    unfold calculatorKey
    split
    · exact h.calculatorPress character
    split
    · exact h.calculatorPress 'C'
    cases key with
    | enter => exact h.calculatorPress '='
    | backspace => exact ⟨_, rfl, h.backspace⟩
    | other => exact ⟨c, rfl, h⟩

end

/-- **The calculator never faults**, whatever keys and buttons are pressed. -/
theorem calculator_never_faults (events : List CalculatorEvent) :
    ∃ c, events.foldlM calculatorStep Calculator.clear = some c := by
  have hrun : ∀ c, CalculatorOk c → ∃ c', events.foldlM calculatorStep c = some c' := by
    induction events with
    | nil => exact fun c _ => ⟨c, rfl⟩
    | cons event events ih =>
      intro c h
      obtain ⟨c', hstep, hok⟩ := h.calculatorStep event
      obtain ⟨last, hlast⟩ := ih c' hok
      refine ⟨last, ?_⟩
      rw [List.foldlM_cons, hstep]
      exact hlast
  exact hrun _ (.of_new rfl rfl)

end NovaOS.Ui
