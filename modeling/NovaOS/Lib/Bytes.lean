import Mathlib.Data.List.GetD
import Mathlib.Logic.Function.Basic
import Mathlib.Tactic.Ring

/-!
# Byte buffers, and a block device as one flat buffer

A buffer is a function from positions to bytes.  `splice` replaces a range of it by the first bytes
of another buffer: `memset` splices a constant, `memcpy` of a list is `writeBytes`.  Two
splices of one source that lie one behind the other are one splice (`splice_add`).  `readBytes` takes
a range out as a list.

A block device holds one buffer per block.  `flat` lays the blocks of `B` bytes out one behind the
other: replacing a block, or patching a part of it, is a `splice` of the flat buffer
(`flat_update_block`, `flat_update_patch`), so a loop over blocks is one `splice` over the range it
covers.

`overwrite` is the content of a file after a positioned write, as a list.
-/

namespace NovaOS

open Function List Nat

/-- The buffer `contents` with the `n` bytes from `a` on taken from the start of `source`. -/
def splice (contents : ℕ → UInt8) (a n : ℕ) (source : ℕ → UInt8) : ℕ → UInt8 :=
  fun i => if a ≤ i ∧ i < a + n then source (i - a) else contents i

/-- `memcpy` of `input` into a buffer, from `offset` on. -/
def writeBytes (contents : ℕ → UInt8) (offset : ℕ) (input : List UInt8) : ℕ → UInt8 :=
  fun i => if offset ≤ i ∧ i < offset + input.length then input.getD (i - offset) 0 else contents i

/-- `size` bytes of a buffer from `offset` on. -/
def readBytes (contents : ℕ → UInt8) (offset size : ℕ) : List UInt8 :=
  (List.range size).map fun i => contents (offset + i)

section Buffers

variable {contents contents' source source' : ℕ → UInt8} {a b n m i : ℕ} {x y : List UInt8}

theorem writeBytes_eq_splice :
    writeBytes contents a x = splice contents a x.length fun i => x.getD i 0 := rfl

theorem splice_of_outside (h : i < a ∨ a + n ≤ i) : splice contents a n source i = contents i := by
  rw [splice, if_neg (by omega)]

theorem splice_of_inside (h : a ≤ i) (h' : i < a + n) :
    splice contents a n source i = source (i - a) := by
  rw [splice, if_pos ⟨h, h'⟩]

theorem splice_zero : splice contents a 0 source = contents := by
  funext i
  exact splice_of_outside (by omega)

theorem splice_congr (h : ∀ i, i < n → source i = source' i) :
    splice contents a n source = splice contents a n source' := by
  funext i
  by_cases hi : a ≤ i ∧ i < a + n
  · rw [splice_of_inside hi.1 hi.2, splice_of_inside hi.1 hi.2, h _ (by omega)]
  · rw [splice_of_outside (by omega), splice_of_outside (by omega)]

/-- Two splices of one source, the second where the first one ended. -/
theorem splice_add :
    splice (splice contents a n source) (a + n) m (fun i => source (n + i)) =
      splice contents a (n + m) source := by
  funext i
  by_cases hm : a + n ≤ i ∧ i < a + n + m
  · rw [splice_of_inside hm.1 hm.2, splice_of_inside (by omega) (by omega)]
    congr 1
    omega
  · rw [splice_of_outside (by omega)]
    by_cases hn : a ≤ i ∧ i < a + n
    · rw [splice_of_inside hn.1 hn.2, splice_of_inside (by omega) (by omega)]
    · rw [splice_of_outside (by omega), splice_of_outside (by omega)]

theorem writeBytes_append :
    writeBytes (writeBytes contents a x) (a + x.length) y = writeBytes contents a (x ++ y) := by
  have hx : ∀ i, i < x.length → x.getD i 0 = (x ++ y).getD i 0 :=
    fun i hi => (getD_append _ _ _ _ hi).symm
  have hy : ∀ i, i < y.length → y.getD i 0 = (x ++ y).getD (x.length + i) 0 := by
    intro i _
    rw [getD_append_right _ _ _ _ (by omega), Nat.add_sub_cancel_left]
  simp only [writeBytes_eq_splice]
  rw [splice_congr hx, splice_congr hy, splice_add, length_append]

@[simp] theorem length_readBytes : (readBytes contents a n).length = n := by
  rw [readBytes, length_map, length_range]

theorem getD_readBytes (h : i < n) : (readBytes contents a n).getD i 0 = contents (a + i) := by
  rw [readBytes, getD_eq_getElem _ _ (by simpa using h), getElem_map, getElem_range]

theorem readBytes_congr (h : ∀ i, i < n → contents (a + i) = contents' (b + i)) :
    readBytes contents a n = readBytes contents' b n := by
  apply map_congr_left
  intro i hi
  exact h i (mem_range.1 hi)

theorem readBytes_add :
    readBytes contents a (n + m) = readBytes contents a n ++ readBytes contents (a + n) m := by
  rw [readBytes, range_add, map_append, map_map]
  congr 1
  apply map_congr_left
  intro i _
  show contents (a + (n + i)) = contents (a + n + i)
  rw [add_assoc]

/-- Two lists of one length with the same bytes are the same list. -/
theorem ext_getD (h : x.length = y.length) (hi : ∀ i, i < y.length → x.getD i 0 = y.getD i 0) :
    x = y := by
  apply ext_getElem h
  intro i hx hy
  have hxy := hi i hy
  rwa [getD_eq_getElem _ _ hx, getD_eq_getElem _ _ hy] at hxy

/-- A part of a range that was read is the range read from there. -/
theorem take_drop_readBytes (h : b + m ≤ n) :
    ((readBytes contents a n).drop b).take m = readBytes contents (a + b) m := by
  apply ext_getD (by simp only [length_take, length_drop, length_readBytes]; omega)
  intro i hi
  rw [length_readBytes] at hi
  rw [getD_readBytes hi, getD_eq_getElem?_getD, List.getElem?_take_of_lt hi,
    List.getElem?_drop, ← getD_eq_getElem?_getD, getD_readBytes (by omega), add_assoc]

end Buffers

/-! ### Block devices -/

/-- The blocks of a device laid out one behind the other. -/
def flat (B : ℕ) (disk : ℕ → ℕ → UInt8) : ℕ → UInt8 := fun i => disk (i / B) (i % B)

section Flat

variable {B : ℕ} {disk : ℕ → ℕ → UInt8} {lba within n : ℕ} {source : ℕ → UInt8}

theorem flat_apply (h : within < B) : flat B disk (lba * B + within) = disk lba within := by
  have hB : 0 < B := by omega
  rw [flat, mul_comm lba B, mul_add_div hB, div_eq_of_lt h, mul_add_mod, mod_eq_of_lt h, add_zero]

/-- A position of the flat buffer is a place in a block. -/
theorem exists_place (hB : 0 < B) (i : ℕ) : ∃ b j, j < B ∧ i = b * B + j :=
  ⟨i / B, i % B, mod_lt _ hB, (div_add_mod' i B).symm⟩

theorem block_le_of_lt {b : ℕ} (h : b < lba) : b * B + B ≤ lba * B := by
  have := mul_le_mul_right B (succ_le_of_lt h)
  rwa [succ_mul] at this

/-- A buffer that agrees with the new block inside it and with the old device outside it is the
flat buffer after the block was replaced. -/
theorem flat_update (hB : 0 < B) {block contents : ℕ → UInt8}
    (hin : ∀ j, j < B → contents (lba * B + j) = block j)
    (hout : ∀ i, i < lba * B ∨ lba * B + B ≤ i → contents i = flat B disk i) :
    flat B (update disk lba block) = contents := by
  funext i
  obtain ⟨b, j, hj, rfl⟩ := exists_place hB i
  rw [flat_apply hj]
  by_cases hb : b = lba
  · rw [hb, update_self, hin j hj]
  · have hout' : b * B + j < lba * B ∨ lba * B + B ≤ b * B + j := by
      rcases lt_or_gt_of_ne hb with hlt | hgt
      · have := block_le_of_lt (B := B) hlt
        omega
      · have := block_le_of_lt (B := B) hgt
        omega
    rw [update_of_ne hb, hout _ hout', flat_apply hj]

/-- Patching a part of one block patches the flat buffer. -/
theorem flat_update_patch (hB : 0 < B) (h : within + n ≤ B) :
    flat B (update disk lba (splice (disk lba) within n source)) =
      splice (flat B disk) (lba * B + within) n source := by
  apply flat_update hB
  · intro j hj
    by_cases hin : within ≤ j ∧ j < within + n
    · rw [splice_of_inside hin.1 hin.2, splice_of_inside (by omega) (by omega), Nat.add_sub_add_left]
    · rw [splice_of_outside (by omega), splice_of_outside (by omega), flat_apply hj]
  · intro i hi
    exact splice_of_outside (by omega)

/-- Replacing one block splices it into the flat buffer. -/
theorem flat_update_block (hB : 0 < B) (block : ℕ → UInt8) :
    flat B (update disk lba block) = splice (flat B disk) (lba * B) B block := by
  apply flat_update hB
  · intro j hj
    rw [splice_of_inside (by omega) (by omega), Nat.add_sub_cancel_left]
  · intro i hi
    exact splice_of_outside hi

end Flat

/-! ### Files -/

/-- The content of a file after a write of `data` at `offset`: the old content, zero-extended to
`offset`, with `data` over it. -/
def overwrite (old : List UInt8) (offset : ℕ) (data : List UInt8) : List UInt8 :=
  (old ++ List.replicate (offset - old.length) 0).take offset ++ data ++
    old.drop (offset + data.length)

section Overwrite

variable {old data : List UInt8} {offset i : ℕ}

theorem length_overwrite :
    (overwrite old offset data).length = max (offset + data.length) old.length := by
  simp only [overwrite, length_append, length_take, length_replicate, length_drop]
  omega

theorem getD_overwrite :
    (overwrite old offset data).getD i 0 =
      if offset ≤ i ∧ i < offset + data.length then data.getD (i - offset) 0
      else old.getD i 0 := by
  have hfront : ((old ++ List.replicate (offset - old.length) 0).take offset).length = offset := by
    simp only [length_take, length_append, length_replicate]
    omega
  rw [overwrite]
  by_cases hlt : i < offset
  · rw [if_neg (by omega), append_assoc, getD_append _ _ _ _ (by omega)]
    rw [getD_eq_getElem _ _ (by omega), getElem_take]
    by_cases hold : i < old.length
    · rw [getElem_append_left hold, getD_eq_getElem _ _ hold]
    · rw [getElem_append_right (by omega), getElem_replicate, getD_eq_default _ _ (by omega)]
  · by_cases hin : i < offset + data.length
    · rw [if_pos ⟨by omega, hin⟩, getD_append _ _ _ _ (by rw [length_append]; omega),
        getD_append_right _ _ _ _ (by omega), hfront]
    · rw [if_neg (by omega), getD_append_right _ _ _ _ (by rw [length_append]; omega),
        length_append, hfront]
      simp only [getD_eq_getElem?_getD, List.getElem?_drop]
      congr 2
      omega

end Overwrite

end NovaOS
