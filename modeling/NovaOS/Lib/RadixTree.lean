import Mathlib.Data.Nat.Basic
import Mathlib.Logic.Function.Basic
import Mathlib.Tactic.Ring
import Mathlib.Tactic.Tauto

/-!
# Radix trees made of word tables

A multi-level table in flat memory: `tables t i` is word `i` of the table at address `t`, and
`next` decodes a word into the address of the table below it, if it points at one.  A key is read
`width` at a time, most significant digit first, one digit per level; `descend` follows it.

Nothing stops a table from being reached on two paths, so the shape is stated by a placement:
`place t = some (l, p)` says that the table at `t` sits `l` levels above the leaves, below prefix
`p` of the keys.  `Tree` says that the pointers agree with it.  Because a table has one place,

* `descend` ends in a table placed at the digits it read (`Tree.descend_place`);
* a change that keeps the pointers of the inner tables keeps every descent (`Tree.descend_mono`);
* hanging an empty table below a word without a pointer gives a tree again (`Tree.attach`), as
  does any change below the inner tables (`Tree.congr`).
-/

namespace NovaOS.RadixTree

open Function Nat

variable {width : ℕ} {next : ℕ → Option ℕ} {tables tables' : ℕ → ℕ → ℕ}
  {place : ℕ → Option (ℕ × ℕ)} {depth root : ℕ}

/-- Follow `key` from the table at `t` down `l` levels. -/
def descend (width : ℕ) (next : ℕ → Option ℕ) (tables : ℕ → ℕ → ℕ) : ℕ → ℕ → ℕ → Option ℕ
  | 0, t, _ => some t
  | l + 1, t, key =>
    match next (tables t (key / width ^ l % width)) with
    | none => none
    | some t' => descend width next tables l t' key

/-- The pointers agree with the placement. -/
structure Tree (width : ℕ) (next : ℕ → Option ℕ) (depth root : ℕ) (tables : ℕ → ℕ → ℕ)
    (place : ℕ → Option (ℕ × ℕ)) : Prop where
  root : place root = some (depth, 0)
  child : ∀ t l p i t', place t = some (l + 1, p) → i < width → next (tables t i) = some t' →
    place t' = some (l, p * width + i)

theorem digit_append (width key l : ℕ) :
    key / width ^ (l + 1) * width + key / width ^ l % width = key / width ^ l := by
  rw [Nat.pow_succ, ← Nat.div_div_eq_div_mul, Nat.mul_comm]
  exact Nat.div_add_mod _ _

theorem descend_succ (l t key : ℕ) :
    descend width next tables (l + 1) t key =
      (descend width next tables l t (key / width)).bind fun t' =>
        next (tables t' (key % width)) := by
  induction l generalizing t with
  | zero =>
    simp only [descend, Nat.pow_zero, Nat.div_one, Option.bind_some]
    cases next (tables t (key % width)) <;> rfl
  | succ l ih =>
    have hdigit : key / width ^ (l + 1) % width = key / width / width ^ l % width := by
      rw [Nat.div_div_eq_div_mul, Nat.pow_succ']
    rw [descend, hdigit, descend.eq_2 width next tables t (key / width) l]
    cases next (tables t (key / width / width ^ l % width)) with
    | none => rfl
    | some c => exact ih c

section

variable (h : Tree width next depth root tables place)

include h

/-- A descent of `l` levels ends in a table placed at the digits it read. -/
theorem Tree.descend_place (hw : 0 < width)
    {key k : ℕ} :
    ∀ (l t t' : ℕ), place t = some (l + k, key / width ^ l) →
      descend width next tables l t key = some t' → place t' = some (k, key) := by
  intro l
  induction l with
  | zero =>
    intro t t' ht hd
    simp only [descend, Option.some.injEq] at hd
    rw [← hd, ht, Nat.pow_zero, Nat.div_one, Nat.zero_add]
  | succ l ih =>
    intro t t' ht hd
    rw [show l + 1 + k = l + k + 1 by omega] at ht
    rw [descend] at hd
    split at hd
    · simp at hd
    · rename_i c hc
      have hplace := h.child t (l + k) _ _ c ht (mod_lt _ hw) hc
      rw [digit_append] at hplace
      exact ih c t' hplace hd

/-- Keeping the pointers of the inner tables keeps every descent. -/
theorem Tree.descend_mono (hw : 0 < width)
    (hkeep : ∀ t l p i c, place t = some (l + 1, p) → i < width → next (tables t i) = some c →
      next (tables' t i) = some c) {key k : ℕ} :
    ∀ (l t p t' : ℕ), place t = some (l + k, p) → descend width next tables l t key = some t' →
      descend width next tables' l t key = some t' := by
  intro l
  induction l with
  | zero => intro t p t' _ hd; exact hd
  | succ l ih =>
    intro t p t' ht hd
    rw [show l + 1 + k = l + k + 1 by omega] at ht
    rw [descend] at hd
    split at hd
    · simp at hd
    · rename_i c hc
      have hi : key / width ^ l % width < width := mod_lt _ hw
      rw [descend, hkeep t (l + k) p _ c ht hi hc]
      exact ih c _ t' (h.child t (l + k) p _ c ht hi hc) hd

/-- Leaving the pointers of the inner tables alone leaves every descent alone. -/
theorem Tree.descend_congr (hw : 0 < width)
    (hsame : ∀ t l p i, place t = some (l + 1, p) → i < width →
      next (tables' t i) = next (tables t i)) {key k : ℕ} :
    ∀ (l t p : ℕ), place t = some (l + k, p) →
      descend width next tables' l t key = descend width next tables l t key := by
  intro l
  induction l with
  | zero => exact fun _ _ _ => rfl
  | succ l ih =>
    intro t p ht
    rw [show l + 1 + k = l + k + 1 by omega] at ht
    have hi : key / width ^ l % width < width := mod_lt _ hw
    rw [descend, descend, hsame t (l + k) p _ ht hi]
    cases hc : next (tables t (key / width ^ l % width)) with
    | none => rfl
    | some c => exact ih c _ (h.child t (l + k) p _ c ht hi hc)

/-- A change that leaves the pointers of the inner tables alone gives a tree again. -/
theorem Tree.congr
    (hsame : ∀ t l p i, place t = some (l + 1, p) → i < width →
      next (tables' t i) = next (tables t i)) :
    Tree width next depth root tables' place :=
  ⟨h.root, fun t l p i t' ht hi hn => h.child t l p i t' ht hi (by rwa [← hsame t l p i ht hi])⟩

/-- **Hanging a new table** `c` below word `i` of `t`, when `c` was nowhere in the tree. -/
theorem Tree.attach (tables' : ℕ → ℕ → ℕ) {t l p i c : ℕ}
    (ht : place t = some (l + 1, p)) (hfresh : place c = none)
    (hword : next (tables' t i) = some c)
    (hempty : ∀ j, j < width → next (tables' c j) = none)
    (hsame : ∀ t' j, t' ≠ c → (t' ≠ t ∨ j ≠ i) → next (tables' t' j) = next (tables t' j)) :
    Tree width next depth root tables' (update place c (some (l, p * width + i))) := by
  have hne : ∀ t' q, place t' = some q → t' ≠ c := by
    rintro t' q hq rfl
    rw [hfresh] at hq
    simp at hq
  refine ⟨?_, ?_⟩
  · rw [update_of_ne (hne _ _ h.root)]
    exact h.root
  · intro t' l' p' j d ht' hj hd
    by_cases hc : t' = c
    · rw [hc, hempty j hj] at hd
      simp at hd
    rw [update_of_ne hc] at ht'
    by_cases hword' : t' = t ∧ j = i
    · obtain ⟨rfl, rfl⟩ := hword'
      rw [ht, Option.some.injEq, Prod.mk.injEq] at ht'
      obtain ⟨hl, rfl⟩ := ht'
      obtain rfl : l = l' := by omega
      rw [hword, Option.some.injEq] at hd
      rw [← hd, update_self]
    · have hd' : next (tables t' j) = some d := by
        rw [← hsame t' j hc (by tauto)]
        exact hd
      have hplace := h.child t' l' p' j d ht' hj hd'
      rw [update_of_ne (hne _ _ hplace)]
      exact hplace

end

/-- After hanging an empty table `c`, a descent ends in `c` or was there before. -/
theorem descend_of_attach (hw : 0 < width) {t i c : ℕ} (hword : next (tables' t i) = some c)
    (hempty : ∀ j, j < width → next (tables' c j) = none)
    (hsame : ∀ t' j, t' ≠ c → (t' ≠ t ∨ j ≠ i) → next (tables' t' j) = next (tables t' j))
    {key : ℕ} :
    ∀ (l t₀ t' : ℕ), t₀ ≠ c → descend width next tables' l t₀ key = some t' →
      t' = c ∨ descend width next tables l t₀ key = some t' := by
  -- from the empty table there is no way further down
  have hstop : ∀ l t', descend width next tables' l c key = some t' → t' = c := by
    intro l t' hd
    cases l with
    | zero => simpa [descend] using hd.symm
    | succ l =>
      rw [descend, hempty _ (mod_lt _ hw)] at hd
      simp at hd
  intro l
  induction l with
  | zero => intro t₀ t' _ hd; exact .inr hd
  | succ l ih =>
    intro t₀ t' hne hd
    rw [descend] at hd
    split at hd
    · simp at hd
    · rename_i d hn
      by_cases hdc : d = c
      · exact .inl (hstop l t' (hdc ▸ hd))
      · have hold : next (tables t₀ (key / width ^ l % width)) = some d := by
          rw [← hsame t₀ _ hne, hn]
          by_contra hcon
          obtain ⟨h1, h2⟩ : t₀ = t ∧ key / width ^ l % width = i := by tauto
          rw [h1, h2, hword, Option.some.injEq] at hn
          exact hdc hn.symm
        rw [descend, hold]
        exact ih d t' hdc hd

end NovaOS.RadixTree
