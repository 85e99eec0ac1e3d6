import Mathlib.Data.Nat.ModEq
import Mathlib.Tactic.Push
import Mathlib.Tactic.Ring

/-!
# Linear probing with deletion marks

An open-addressing index over `size` slots.  A slot holds `0` when it was never used, `-1` when
its entry was deleted, and `e + 1` when it points at entry number `e`.  The table does not know
the keys: a search is given the home slot of the key and a test `hit` on entry numbers.

* `probe` — the search: stop at the first never-used slot, skip deleted slots and misses;
* `insertSlot` — the slot an insertion writes: the first deleted slot passed on the way to the
  first never-used one, or that one;
* `findSlot` — the slot that holds a given entry.

`Indexed home slots` is the representation invariant: the positive slots are exactly the entries
with a home, each once, and each is reachable from its home without crossing a never-used slot.
Under it a search returns the entry it should (`probe_eq_some`), and insertion
and deletion keep it (`Indexed.insert`, `Indexed.erase`).
-/

namespace NovaOS.ProbeTable

open Function Nat

/-! ### The three loops -/

/-- Search from `slot` through at most `fuel` slots for an entry that passes `hit`. -/
def probe (size : ℕ) (slots : ℕ → ℤ) (hit : ℕ → Bool) : ℕ → ℕ → Option ℕ
  | 0, _ => none
  | fuel + 1, slot =>
    if slots slot = 0 then none
    else if 0 < slots slot ∧ hit ((slots slot).toNat - 1) = true then
      some ((slots slot).toNat - 1)
    else probe size slots hit fuel ((slot + 1) % size)

/-- The slot an insertion writes, looking from `slot` through at most `fuel` slots; `tombstone` is
the first deleted slot passed so far. -/
def insertSlot (size : ℕ) (slots : ℕ → ℤ) : ℕ → ℕ → Option ℕ → Option ℕ
  | 0, _, _ => none
  | fuel + 1, slot, tombstone =>
    let tombstone := if slots slot = -1 ∧ tombstone = none then some slot else tombstone
    if slots slot = 0 then some (tombstone.getD slot)
    else insertSlot size slots fuel ((slot + 1) % size) tombstone

/-- An insertion sees only which slots were never used and which were deleted. -/
theorem insertSlot_congr {size : ℕ} {slots slots' : ℕ → ℤ} (hzero : ∀ i, slots' i = 0 ↔ slots i = 0)
    (hdeleted : ∀ i, slots' i = -1 ↔ slots i = -1) (fuel slot : ℕ) (tombstone : Option ℕ) :
    insertSlot size slots' fuel slot tombstone = insertSlot size slots fuel slot tombstone := by
  induction fuel generalizing slot tombstone with
  | zero => rfl
  | succ fuel ih => simp only [insertSlot, hzero, hdeleted, ih]

/-- The slot that points at `entry`, looking from `slot` through at most `fuel` slots. -/
def findSlot (size : ℕ) (slots : ℕ → ℤ) (entry : ℕ) : ℕ → ℕ → Option ℕ
  | 0, _ => none
  | fuel + 1, slot =>
    if slots slot = 0 then none
    else if slots slot = entry + 1 then some slot
    else findSlot size slots entry fuel ((slot + 1) % size)

/-! ### The representation invariant -/

/-- Slot `j` is reached from `start` in `d` steps without crossing a never-used slot. -/
def Reaches (size : ℕ) (slots : ℕ → ℤ) (start d : ℕ) : Prop :=
  ∀ i, i < d → slots ((start + i) % size) ≠ 0

/-- The positive slots are exactly the entries with a home, each once, each reachable from its
home. -/
structure Indexed (size : ℕ) (home : ℕ → Option ℕ) (slots : ℕ → ℤ) : Prop where
  reach : ∀ e h : ℕ, home e = some h →
    ∃ d, d < size ∧ slots ((h + d) % size) = e + 1 ∧ Reaches size slots h d
  owned : ∀ j e : ℕ, j < size → slots j = (e : ℤ) + 1 → (home e).isSome
  once : ∀ i j e : ℕ, i < size → j < size → slots i = (e : ℤ) + 1 → slots j = (e : ℤ) + 1 → i = j
  mark : ∀ j, j < size → slots j < 0 → slots j = -1
  homeLt : ∀ e h, home e = some h → h < size

variable {size start e j entry : ℕ} {slots : ℕ → ℤ} {home : ℕ → Option ℕ} {hit : ℕ → Bool}

theorem add_one_mod (start d : ℕ) : ((start + d) % size + 1) % size = (start + (d + 1)) % size := by
  rw [mod_add_mod, add_assoc]

/-! ### Searching -/

/-- A search that starts `k` steps before a hit, crossing only misses, returns the hit. -/
theorem probe_hit :
    ∀ (k fuel i : ℕ), k < fuel →
      slots ((start + (i + k)) % size) = (e : ℤ) + 1 → hit e = true →
      (∀ j, i ≤ j → j < i + k → slots ((start + j) % size) ≠ 0) →
      (∀ j e' : ℕ, i ≤ j → j < i + k → slots ((start + j) % size) = (e' : ℤ) + 1 → hit e' = false) →
      probe size slots hit fuel ((start + i) % size) = some e := by
  intro k
  induction k with
  | zero =>
    intro fuel i hk hs he _ _
    obtain ⟨fuel, rfl⟩ := exists_eq_succ_of_ne_zero (by omega : fuel ≠ 0)
    have hs' : slots ((start + i) % size) = (e : ℤ) + 1 := by simpa using hs
    have hto : (slots ((start + i) % size)).toNat - 1 = e := by omega
    rw [probe, if_neg (by omega), if_pos ⟨by omega, by rw [hto]; exact he⟩, hto]
  | succ k ih =>
    intro fuel i hk hs he hne hmiss
    obtain ⟨fuel, rfl⟩ := exists_eq_succ_of_ne_zero (by omega : fuel ≠ 0)
    have hi : slots ((start + i) % size) ≠ 0 := hne i (by omega) (by omega)
    have hnot : ¬(0 < slots ((start + i) % size) ∧
        hit ((slots ((start + i) % size)).toNat - 1) = true) := by
      rintro ⟨hpos, hh⟩
      have := hmiss i ((slots ((start + i) % size)).toNat - 1) (by omega) (by omega) (by omega)
      rw [this] at hh
      exact Bool.noConfusion hh
    rw [probe, if_neg hi, if_neg hnot, add_one_mod]
    refine ih fuel (i + 1) (by omega) ?_ he (fun j h1 h2 => hne j (by omega) (by omega))
      (fun j e' h1 h2 => hmiss j e' (by omega) (by omega))
    rw [show i + 1 + k = i + (k + 1) by omega]
    exact hs

/-- What a search returns sits in some slot and passes the test. -/
theorem probe_sound (hsize : 0 < size) :
    ∀ (fuel slot : ℕ), slot < size → probe size slots hit fuel slot = some e →
      hit e = true ∧ ∃ j, j < size ∧ slots j = (e : ℤ) + 1 := by
  intro fuel
  induction fuel with
  | zero => intro slot _ h; simp [probe] at h
  | succ fuel ih =>
    intro slot hslot h
    rw [probe] at h
    split at h
    · simp at h
    · split at h
      · rename_i hp
        simp only [Option.some.injEq] at h
        refine ⟨h ▸ hp.2, slot, hslot, by omega⟩
      · exact ih _ (mod_lt _ hsize) h

/-- **Search is complete.**  If `hit` accepts exactly one entry with a home, and that home is
`start`, the search from `start` returns it. -/
theorem probe_eq_some (hix : Indexed size home slots)
    (hhome : home e = some start) (he : hit e = true)
    (huniq : ∀ e', (home e').isSome → hit e' = true → e' = e) :
    probe size slots hit size start = some e := by
  obtain ⟨d, hd, hs, hr⟩ := hix.reach e start hhome
  have hlt := hix.homeLt e start hhome
  have hother : ∀ j e' : ℕ, 0 ≤ j → j < 0 + d →
      slots ((start + j) % size) = (e' : ℤ) + 1 → hit e' = false := by
    intro j e' _ hj hs'
    by_contra hne
    have hjs : (start + j) % size < size := mod_lt _ (by omega)
    have hds : (start + d) % size < size := mod_lt _ (by omega)
    have heq := huniq e' (hix.owned _ _ hjs hs') (by simpa using hne)
    subst heq
    have hsame := hix.once _ _ _ hjs hds hs' hs
    -- two distances below `size` from one start cannot land on one slot
    have : j = d := by
      have h1 : start + j ≡ start + d [MOD size] := hsame
      have h2 : j ≡ d [MOD size] := Nat.ModEq.add_left_cancel' _ h1
      exact Nat.ModEq.eq_of_lt_of_lt h2 (by omega) hd
    omega
  have h : probe size slots hit size ((start + 0) % size) = some e :=
    probe_hit d size 0 hd (by simpa using hs) he (fun j _ hj => hr j (by omega)) hother
  rwa [add_zero, mod_eq_of_lt hlt] at h

/-! ### Insertion -/

/-- What an insertion may write: a slot that is never-used or deleted, reached from the start
without crossing a never-used slot. -/
theorem insertSlot_sound :
    ∀ (fuel i : ℕ) (tombstone : Option ℕ) (j : ℕ),
      insertSlot size slots fuel ((start + i) % size) tombstone = some j →
      i + fuel ≤ size →
      Reaches size slots start i →
      (∀ t, tombstone = some t → ∃ d, d < size ∧ t = (start + d) % size ∧ slots t = -1 ∧
        Reaches size slots start d) →
      ∃ d, d < size ∧ j = (start + d) % size ∧ (slots j = 0 ∨ slots j = -1) ∧
        Reaches size slots start d := by
  intro fuel
  induction fuel with
  | zero => intro i t j h _ _ _; simp [insertSlot] at h
  | succ fuel ih =>
    intro i t j h hfuel hr ht
    rw [insertSlot] at h
    -- the mark carried on satisfies the same description
    have ht' : ∀ t', (if slots ((start + i) % size) = -1 ∧ t = none then
        some ((start + i) % size) else t) = some t' →
        ∃ d, d < size ∧ t' = (start + d) % size ∧ slots t' = -1 ∧ Reaches size slots start d := by
      intro t' h'
      split at h'
      · rename_i hm
        simp only [Option.some.injEq] at h'
        exact ⟨i, by omega, h'.symm, by rw [← h']; exact hm.1, hr⟩
      · exact ht t' h'
    split at h
    · rename_i hz
      simp only [Option.some.injEq] at h
      cases hc : (if slots ((start + i) % size) = -1 ∧ t = none then
          some ((start + i) % size) else t) with
      | none =>
        rw [hc] at h
        exact ⟨i, by omega, h.symm, by rw [← h]; exact .inl hz, hr⟩
      | some t' =>
        rw [hc] at h
        obtain ⟨d, hd, h1, h2, h3⟩ := ht' t' hc
        exact ⟨d, hd, h ▸ h1, by rw [← h]; exact .inr h2, h3⟩
    · rename_i hz
      rw [add_one_mod] at h
      refine ih (i + 1) _ j h (by omega) ?_ ht'
      intro k hk
      rcases lt_or_ge k i with hlt | hge
      · exact hr k hlt
      · have hki : k = i := by omega
        rw [hki]
        exact hz

/-- An insertion succeeds when it comes to a never-used slot. -/
theorem insertSlot_isSome (fuel i : ℕ) (tombstone : Option ℕ) :
    (insertSlot size slots fuel ((start + i) % size) tombstone).isSome = true ↔
      ∃ k, i ≤ k ∧ k < i + fuel ∧ slots ((start + k) % size) = 0 := by
  induction fuel generalizing i tombstone with
  | zero =>
    constructor
    · intro h
      cases h
    · rintro ⟨k, hlow, hhigh, -⟩
      omega
  | succ fuel ih =>
    rw [insertSlot]
    by_cases hzero : slots ((start + i) % size) = 0
    · simp only [if_pos hzero]
      exact ⟨fun _ => ⟨i, le_rfl, by omega, hzero⟩, fun _ => rfl⟩
    · simp only [if_neg hzero]
      rw [add_one_mod, ih]
      constructor
      · rintro ⟨k, hlow, hhigh, hk⟩
        exact ⟨k, by omega, by omega, hk⟩
      · rintro ⟨k, hlow, hhigh, hk⟩
        have hne : k ≠ i := by
          intro heq
          rw [heq] at hk
          exact hzero hk
        exact ⟨k, by omega, by omega, hk⟩

/-- **Insertion needs a never-used slot**, and any one will do: deleted slots are not enough. -/
theorem insertSlot_isSome_iff (hstart : start < size) :
    (insertSlot size slots size start none).isSome = true ↔ ∃ j, j < size ∧ slots j = 0 := by
  have h : (insertSlot size slots size ((start + 0) % size) none).isSome = true ↔ _ :=
    insertSlot_isSome size 0 none
  rw [add_zero, mod_eq_of_lt hstart, zero_add] at h
  rw [h]
  constructor
  · rintro ⟨k, -, -, hk⟩
    exact ⟨_, mod_lt _ (by omega), hk⟩
  · rintro ⟨j, hj, hzero⟩
    refine ⟨(j + (size - start)) % size, zero_le _, mod_lt _ (by omega), ?_⟩
    have hback : (start + (j + (size - start)) % size) % size = j := by
      rw [add_mod_mod, show start + (j + (size - start)) = j + size by omega, add_mod_right,
        mod_eq_of_lt hj]
    rw [hback]
    exact hzero

/-- After an insertion the home slot is not a never-used one. -/
theorem insertSlot_home (hstart : start < size)
    (hj : insertSlot size slots size start none = some j) : slots start ≠ 0 ∨ j = start := by
  have hj' : insertSlot size slots size ((start + 0) % size) none = some j := by
    rwa [add_zero, mod_eq_of_lt hstart]
  obtain ⟨d, hd, hjd, -, hreach⟩ := insertSlot_sound size 0 none j hj' (by omega)
    (fun i hi => absurd hi (by omega)) (fun t h => by simp at h)
  rcases Nat.eq_zero_or_pos d with rfl | hpos
  · right
    rw [hjd, Nat.add_zero, Nat.mod_eq_of_lt hstart]
  · left
    have hfirst := hreach 0 hpos
    rwa [add_zero, mod_eq_of_lt hstart] at hfirst

/-- **Insertion keeps the index.**  Writing a new entry with home `start` at the slot
`insertSlot` chose. -/
theorem Indexed.insert (hix : Indexed size home slots) (hstart : start < size)
    (hnew : home e = none) (hj : insertSlot size slots size start none = some j) :
    Indexed size (update home e (some start)) (update slots j ((e : ℤ) + 1)) := by
  have hj' : insertSlot size slots size ((start + 0) % size) none = some j := by
    rwa [add_zero, mod_eq_of_lt hstart]
  obtain ⟨d, hd, hjd, hfree, hreach⟩ := insertSlot_sound size 0 none j hj' (by omega)
    (fun i hi => absurd hi (by omega)) (fun t h => by simp at h)
  have hkeep : ∀ h k, Reaches size slots h k → Reaches size (update slots j ((e : ℤ) + 1)) h k := by
    intro h k hr i hi
    by_cases hc : (h + i) % size = j
    · rw [hc, update_self]; omega
    · rw [update_of_ne hc]; exact hr i hi
  have hpos : ∀ i e' : ℕ, slots i = (e' : ℤ) + 1 → i ≠ j := by
    intro i e' hi hc
    subst hc
    rcases hfree with h | h <;> omega
  have hno : ∀ i, i < size → slots i ≠ (e : ℤ) + 1 := by
    intro i hi hs
    have := hix.owned i e hi hs
    rw [hnew] at this
    simp at this
  refine ⟨?_, ?_, ?_, ?_, ?_⟩
  · intro e' h' hh
    by_cases hc : e' = e
    · subst hc
      rw [update_self, Option.some.injEq] at hh
      subst hh
      exact ⟨d, hd, by rw [← hjd, update_self], hkeep _ _ hreach⟩
    · rw [update_of_ne hc] at hh
      obtain ⟨d', hd', hs', hr'⟩ := hix.reach e' h' hh
      exact ⟨d', hd', by rw [update_of_ne (hpos _ _ hs')]; exact hs', hkeep _ _ hr'⟩
  · intro i e' hi hs
    by_cases hc : i = j
    · subst hc
      rw [update_self] at hs
      have : e' = e := by omega
      subst this
      simp
    · rw [update_of_ne hc] at hs
      by_cases he : e' = e
      · subst he; simp
      · rw [update_of_ne he]; exact hix.owned i e' hi hs
  · intro i k e' hi hk h1 h2
    by_cases hci : i = j <;> by_cases hck : k = j
    · rw [hci, hck]
    · subst hci
      rw [update_self] at h1
      rw [update_of_ne hck] at h2
      have : e' = e := by omega
      subst this
      exact absurd h2 (hno k hk)
    · subst hck
      rw [update_self] at h2
      rw [update_of_ne hci] at h1
      have : e' = e := by omega
      subst this
      exact absurd h1 (hno i hi)
    · rw [update_of_ne hci] at h1
      rw [update_of_ne hck] at h2
      exact hix.once i k e' hi hk h1 h2
  · intro i hi hs
    by_cases hc : i = j
    · rw [hc, update_self] at hs; omega
    · rw [update_of_ne hc] at hs ⊢; exact hix.mark i hi hs
  · intro e' h' hh
    by_cases hc : e' = e
    · subst hc
      rw [update_self, Option.some.injEq] at hh
      omega
    · rw [update_of_ne hc] at hh
      exact hix.homeLt e' h' hh

/-! ### Deletion -/

theorem findSlot_sound (hsize : 0 < size) :
    ∀ (fuel slot : ℕ), slot < size → findSlot size slots entry fuel slot = some j →
      j < size ∧ slots j = (entry : ℤ) + 1 := by
  intro fuel
  induction fuel with
  | zero => intro slot _ h; simp [findSlot] at h
  | succ fuel ih =>
    intro slot hslot h
    rw [findSlot] at h
    split at h
    · simp at h
    · split at h
      · rename_i hs
        simp only [Option.some.injEq] at h
        exact ⟨h ▸ hslot, h ▸ hs⟩
      · exact ih _ (mod_lt _ hsize) h

/-- The slot of an entry is found from its home. -/
theorem findSlot_hit :
    ∀ (k fuel i : ℕ), k < fuel →
      slots ((start + (i + k)) % size) = (entry : ℤ) + 1 →
      (∀ j, i ≤ j → j < i + k → slots ((start + j) % size) ≠ 0) →
      ∃ j, findSlot size slots entry fuel ((start + i) % size) = some j := by
  intro k
  induction k with
  | zero =>
    intro fuel i hk hs _
    obtain ⟨fuel, rfl⟩ := exists_eq_succ_of_ne_zero (by omega : fuel ≠ 0)
    have hs' : slots ((start + i) % size) = (entry : ℤ) + 1 := by simpa using hs
    exact ⟨_, by rw [findSlot, if_neg (by omega), if_pos hs']⟩
  | succ k ih =>
    intro fuel i hk hs hne
    obtain ⟨fuel, rfl⟩ := exists_eq_succ_of_ne_zero (by omega : fuel ≠ 0)
    rw [findSlot, if_neg (hne i (by omega) (by omega))]
    split
    · exact ⟨_, rfl⟩
    · rw [add_one_mod]
      refine ih fuel (i + 1) (by omega) ?_ (fun j h1 h2 => hne j (by omega) (by omega))
      rw [show i + 1 + k = i + (k + 1) by omega]
      exact hs

theorem findSlot_of_home (hix : Indexed size home slots)
    (hhome : home entry = some start) :
    ∃ j, findSlot size slots entry size start = some j ∧ j < size ∧ slots j = (entry : ℤ) + 1 := by
  obtain ⟨d, hd, hs, hr⟩ := hix.reach entry start hhome
  have hlt := hix.homeLt entry start hhome
  obtain ⟨j, hj⟩ : ∃ j, findSlot size slots entry size ((start + 0) % size) = some j :=
    findSlot_hit d size 0 hd (by simpa using hs) (fun i _ hi => hr i (by omega))
  rw [add_zero, mod_eq_of_lt hlt] at hj
  exact ⟨j, hj, findSlot_sound (by omega) size start hlt hj⟩

/-- **Deletion keeps the index.**  Marking the slot of an entry as deleted. -/
theorem Indexed.erase (hix : Indexed size home slots) (hj : j < size)
    (hs : slots j = (e : ℤ) + 1) :
    Indexed size (update home e none) (update slots j (-1)) := by
  have hkeep : ∀ h k, Reaches size slots h k → Reaches size (update slots j (-1)) h k := by
    intro h k hr i hi
    by_cases hc : (h + i) % size = j
    · rw [hc, update_self]; omega
    · rw [update_of_ne hc]; exact hr i hi
  refine ⟨?_, ?_, ?_, ?_, ?_⟩
  · intro e' h' hh
    by_cases hc : e' = e
    · subst hc; simp at hh
    · rw [update_of_ne hc] at hh
      obtain ⟨d, hd, hs', hr⟩ := hix.reach e' h' hh
      have hne : (h' + d) % size ≠ j := by
        intro h
        rw [h] at hs'
        omega
      exact ⟨d, hd, by rw [update_of_ne hne]; exact hs', hkeep _ _ hr⟩
  · intro i e' hi h
    by_cases hc : i = j
    · subst hc; rw [update_self] at h; omega
    · rw [update_of_ne hc] at h
      have hne : e' ≠ e := fun he => hc (hix.once i j e hi hj (he ▸ h) hs)
      rw [update_of_ne hne]
      exact hix.owned i e' hi h
  · intro i k e' hi hk h1 h2
    have hi' : i ≠ j := by rintro rfl; rw [update_self] at h1; omega
    have hk' : k ≠ j := by rintro rfl; rw [update_self] at h2; omega
    rw [update_of_ne hi'] at h1
    rw [update_of_ne hk'] at h2
    exact hix.once i k e' hi hk h1 h2
  · intro i hi h
    by_cases hc : i = j
    · rw [hc, update_self]
    · rw [update_of_ne hc] at h ⊢; exact hix.mark i hi h
  · intro e' h' hh
    by_cases hc : e' = e
    · subst hc; simp at hh
    · rw [update_of_ne hc] at hh; exact hix.homeLt e' h' hh

theorem indexed_empty : Indexed size (fun _ => none) (fun _ => 0) :=
  ⟨fun _ _ h => by simp at h, fun _ _ _ h => by omega, fun _ _ _ _ _ h => by omega,
    fun _ _ h => by omega, fun _ _ h => by simp at h⟩

end NovaOS.ProbeTable
