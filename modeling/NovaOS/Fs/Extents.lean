import NovaOS.Fs.Operations

/-!
# What the byte loops of NovaFS do to the disk

Seen as one flat buffer of bytes, every loop over an extent is a single `splice`, and the reading
loop is a single `readBytes`, as long as the extent lies on the disk:

* `readRawData_eq`: a read returns the bytes asked for that the file has;
* `writeBlocks_eq`: the data from the start of the extent on, zero-padded to whole sectors;
* `relocateBlocks_eq`: the old extent's bytes in the new one, zero past them;
* `zeroGap_eq`: zeros from the old end of the file to the offset;
* `copyData_eq`: the data at the offset, nothing else.
-/

namespace NovaOS.Fs

open Function List Nat

section Sectors

variable {total lba : ℕ} {disk : ℕ → ℕ → UInt8}

theorem ataReadSector_some {sector : ℕ → UInt8} :
    ataReadSector total disk lba = some sector ↔
      (lba < total ∧ lba < 0x10000000) ∧ disk lba = sector := by
  simp only [ataReadSector, Option.ite_none_left_eq_some, Bool.or_eq_true, decide_eq_true_eq, ge_iff_le,
    not_or, not_le, Option.some.injEq]

theorem ataWriteSector_some {buffer : ℕ → UInt8} {disk' : ℕ → ℕ → UInt8} :
    ataWriteSector total disk lba buffer = some disk' ↔
      (lba < total ∧ lba < 0x10000000) ∧ update disk lba buffer = disk' := by
  simp only [ataWriteSector, Option.ite_none_left_eq_some, Bool.or_eq_true, decide_eq_true_eq, ge_iff_le,
    not_or, not_le, Option.some.injEq]

theorem ataReadSector_eq (h : lba < total) (hT : total ≤ 0x10000000) :
    ataReadSector total disk lba = some (disk lba) :=
  ataReadSector_some.2 ⟨by omega, rfl⟩

theorem ataWriteSector_eq (h : lba < total) (hT : total ≤ 0x10000000) (buffer : ℕ → UInt8) :
    ataWriteSector total disk lba buffer = some (update disk lba buffer) :=
  ataWriteSector_some.2 ⟨by omega, rfl⟩

end Sectors

theorem extent_place (start position : ℕ) :
    start * 512 + position = (start + position / 512) * 512 + position % 512 := by omega

/-! ### How much is read -/

theorem length_readLoop {total : ℕ} {disk : ℕ → ℕ → UInt8} {startLba : ℕ} {fuel position remaining : ℕ}
    {bytes : List UInt8} (h : readLoop total disk startLba fuel position remaining = some bytes) :
    bytes.length = remaining := by
  induction fuel generalizing position remaining bytes with
  | zero =>
    rw [readLoop] at h
    split at h
    · cases h
      rename_i hzero
      rw [hzero]
      rfl
    · cases h
  | succ fuel ih =>
    rw [readLoop] at h
    split at h
    · cases h
      rename_i hzero
      rw [hzero]
      rfl
    · split at h
      · cases h
      · simp only at h
        split at h
        · cases h
        · rename_i hrest
          cases h
          rw [length_append, length_readBytes, ih hrest]
          omega

/-- `fs_read_at` never delivers more than it was asked for. -/
theorem length_fsReadAt_le {v : Volume} {name : Name} {offset capacity : ℕ} {bytes : List UInt8}
    (h : fsReadAt v name offset capacity = some bytes) : bytes.length ≤ capacity := by
  rw [fsReadAt] at h
  split at h
  · cases h
  split at h
  · cases h
  split at h
  · cases h
  rw [readEntryData, readRawData] at h
  split at h
  · cases h
    exact zero_le _
  · simp only at h
    split at h
    · cases h
    · rename_i hloop
      split at h
      · cases h
      · cases h
        have := length_readLoop hloop
        split at this
        · omega
        · omega

/-! ### Loops over an extent -/

section Loops

variable {total : ℕ} (start : ℕ) (hT : total ≤ 0x10000000)

include hT

theorem readLoop_eq (disk : ℕ → ℕ → UInt8) (fuel position remaining : ℕ)
    (hfuel : remaining ≤ fuel) (hin : start * 512 + position + remaining ≤ total * 512) :
    readLoop total disk start fuel position remaining =
      some (readBytes (flat 512 disk) (start * 512 + position) remaining) := by
  induction fuel generalizing position remaining with
  | zero =>
    obtain rfl : remaining = 0 := by omega
    rfl
  | succ fuel ih =>
    rw [readLoop]
    by_cases hr : remaining = 0
    · rw [if_pos hr, hr]
      rfl
    · have hlba : (start + position / 512) % 2 ^ 32 = start + position / 512 := by omega
      rw [if_neg hr, hlba, ataReadSector_eq (by omega) hT]
      simp only
      have hchunk : 0 < min remaining (512 - position % 512) ∧
          position % 512 + min remaining (512 - position % 512) ≤ 512 ∧
          min remaining (512 - position % 512) ≤ remaining := by omega
      generalize min remaining (512 - position % 512) = chunk at hchunk ⊢
      rw [ih (position + chunk) (remaining - chunk) (by omega) (by omega)]
      obtain ⟨rest, rfl⟩ := Nat.exists_eq_add_of_le hchunk.2.2
      have hsector : readBytes (disk (start + position / 512)) (position % 512) chunk =
          readBytes (flat 512 disk) (start * 512 + position) chunk := by
        apply readBytes_congr
        intro i hi
        rw [extent_place, add_assoc, flat_apply (by omega)]
      simp only [hsector]
      rw [Nat.add_sub_cancel_left, readBytes_add, Nat.add_assoc]

/-- **A read of an extent returns the bytes of the file.** -/
theorem readRawData_eq (disk : ℕ → ℕ → UInt8) {size : ℕ} (offset capacity : ℕ)
    (hin : start * 512 + size ≤ total * 512)
    (hsize : min capacity (size - offset) ≤ 0x7FFFFFFF) :
    readRawData total disk start size offset capacity =
      some (((readBytes (flat 512 disk) (start * 512) size).drop offset).take capacity) := by
  rw [readRawData]
  by_cases hoff : offset ≥ size
  · rw [if_pos hoff, drop_eq_nil_of_le (by rw [length_readBytes]; exact hoff), take_nil]
  · have hlen : offset + min capacity (size - offset) ≤ size := by omega
    have hin' : start * 512 + offset + min capacity (size - offset) ≤ total * 512 := by
      rw [Nat.add_assoc]
      exact Nat.le_trans (Nat.add_le_add_left hlen _) hin
    have hcap : (if capacity > size - offset then size - offset else capacity) =
        min capacity (size - offset) := by
      split <;> omega
    have hread := readLoop_eq start hT disk _ offset _ (le_refl _) hin'
    have htake : ((readBytes (flat 512 disk) (start * 512) size).drop offset).take capacity =
        readBytes (flat 512 disk) (start * 512 + offset) (min capacity (size - offset)) := by
      rw [← take_drop_readBytes (n := size) (by omega), take_eq_take_min, length_drop,
        length_readBytes]
    rw [if_neg hoff, hcap, htake]
    simp only [hread, length_readBytes]
    rw [if_neg (by omega)]

/-- The sectors `write_entry_data` writes hold the data, zero-padded. -/
theorem writeBlocks_eq (count block : ℕ) (data : List UInt8) (disk : ℕ → ℕ → UInt8)
    (hin : start + block + count ≤ total) :
    ∃ disk', writeBlocks total start count block data disk = (true, disk') ∧
      flat 512 disk' =
        splice (flat 512 disk) ((start + block) * 512) (count * 512) fun i => data.getD i 0 := by
  induction count generalizing block data disk with
  | zero =>
    refine ⟨disk, rfl, ?_⟩
    rw [zero_mul, splice_zero]
  | succ count ih =>
    have hlba : (start + block) % 2 ^ 32 = start + block := by omega
    rw [writeBlocks, hlba, ataWriteSector_eq (by omega) hT]
    obtain ⟨disk', hrun, hflat⟩ := ih (block + 1) (data.drop 512)
      (update disk (start + block) (writeBytes (fun _ => 0) 0 (data.take 512))) (by omega)
    refine ⟨disk', hrun, ?_⟩
    rw [hflat, flat_update_block (by omega),
      show (count + 1) * 512 = 512 + count * 512 by omega, ← splice_add,
      show (start + (block + 1)) * 512 = (start + block) * 512 + 512 by omega]
    have hfirst : ∀ i, i < 512 → writeBytes (fun _ => 0) 0 (data.take 512) i = data.getD i 0 := by
      intro i hi
      simp only [writeBytes_eq_splice, splice, getD_eq_getElem?_getD, zero_add,
        Nat.sub_zero, List.getElem?_take_of_lt hi]
      by_cases hlen : i < (data.take 512).length
      · rw [if_pos ⟨Nat.zero_le i, hlen⟩]
      · rw [if_neg (by omega), List.getElem?_eq_none (by rw [length_take] at hlen; omega)]
        rfl
    rw [splice_congr hfirst]
    apply splice_congr
    intro i _
    rw [getD_eq_getElem?_getD, List.getElem?_drop, ← getD_eq_getElem?_getD]

/-- What a moved file's new extent holds: the old extent, zero past it. -/
def relocated (contents : ℕ → UInt8) (oldStart oldCapacity : ℕ) : ℕ → UInt8 :=
  fun i => if i < oldCapacity * 512 then contents (oldStart * 512 + i) else 0

theorem relocateBlocks_eq {oldStart oldCapacity replacement : ℕ} {contents : ℕ → UInt8}
    (hold : 0 < oldCapacity → oldStart ≠ 0) (hapart : oldStart + oldCapacity ≤ replacement)
    (count block : ℕ) (disk : ℕ → ℕ → UInt8) (hin : replacement + block + count ≤ total)
    (hsame : ∀ i, i < oldCapacity * 512 →
      flat 512 disk (oldStart * 512 + i) = contents (oldStart * 512 + i)) :
    ∃ disk', relocateBlocks total oldStart oldCapacity replacement count block disk =
        (true, disk') ∧
      flat 512 disk' = splice (flat 512 disk) ((replacement + block) * 512) (count * 512)
        fun i => relocated contents oldStart oldCapacity (block * 512 + i) := by
  induction count generalizing block disk with
  | zero =>
    refine ⟨disk, rfl, ?_⟩
    rw [zero_mul, splice_zero]
  | succ count ih =>
    have hlba : (replacement + block) % 2 ^ 32 = replacement + block := by omega
    have holdLba : block < oldCapacity → (oldStart + block) % 2 ^ 32 = oldStart + block := by omega
    -- the sector buffer holds the old block, or zeros past the old extent
    obtain ⟨sector, hread, hsector⟩ : ∃ sector,
        (if block < oldCapacity ∧ oldStart ≠ 0 then
          ataReadSector total disk ((oldStart + block) % 2 ^ 32) else some fun _ => 0) =
          some sector ∧
        ∀ i, i < 512 → sector i = relocated contents oldStart oldCapacity (block * 512 + i) := by
      by_cases hb : block < oldCapacity
      · refine ⟨disk (oldStart + block), ?_, ?_⟩
        · rw [if_pos ⟨hb, hold (by omega)⟩, holdLba hb, ataReadSector_eq (by omega) hT]
        · intro i hi
          rw [relocated, if_pos (by omega), ← hsame _ (by omega),
            show oldStart * 512 + (block * 512 + i) = (oldStart + block) * 512 + i by omega,
            flat_apply hi]
      · refine ⟨fun _ => 0, by rw [if_neg (by omega)], ?_⟩
        intro i hi
        rw [relocated, if_neg (by omega)]
    rw [relocateBlocks, hread]
    simp only
    rw [hlba, ataWriteSector_eq (by omega) hT]
    have hflat' : flat 512 (update disk (replacement + block) sector) =
        splice (flat 512 disk) ((replacement + block) * 512) 512 sector :=
      flat_update_block (by omega) sector
    obtain ⟨disk', hrun, hflat⟩ := ih (block + 1)
      (update disk (replacement + block) sector) (by omega) (by
        intro i hi
        rw [hflat', splice_of_outside (by omega)]
        exact hsame i hi)
    refine ⟨disk', hrun, ?_⟩
    rw [hflat, hflat', splice_congr hsector,
      show (count + 1) * 512 = 512 + count * 512 by omega, ← splice_add,
      show (replacement + (block + 1)) * 512 = (replacement + block) * 512 + 512 by omega]
    apply splice_congr
    intro i _
    rw [show (block + 1) * 512 + i = block * 512 + (512 + i) by omega]

theorem zeroGap_eq (offset fuel gap : ℕ) (disk : ℕ → ℕ → UInt8) (hfuel : offset - gap ≤ fuel)
    (hin : start * 512 + offset ≤ total * 512) :
    ∃ disk', zeroGap total start offset fuel gap disk = (true, disk') ∧
      flat 512 disk' = splice (flat 512 disk) (start * 512 + gap) (offset - gap) fun _ => 0 := by
  induction fuel generalizing gap disk with
  | zero =>
    refine ⟨disk, ?_, ?_⟩
    · rw [zeroGap, decide_eq_false (by omega), Bool.not_false]
    · rw [show offset - gap = 0 by omega, splice_zero]
  | succ fuel ih =>
    rw [zeroGap]
    by_cases hgap : gap < offset
    · have hlba : (start + gap / 512) % 2 ^ 32 = start + gap / 512 := by omega
      rw [if_pos hgap]
      simp only [hlba]
      rw [ataReadSector_eq (by omega) hT]
      simp only
      rw [ataWriteSector_eq (by omega) hT]
      have hchunk : 0 < min (offset - gap) (512 - gap % 512) ∧
          gap % 512 + min (offset - gap) (512 - gap % 512) ≤ 512 ∧
          min (offset - gap) (512 - gap % 512) ≤ offset - gap := by omega
      generalize min (offset - gap) (512 - gap % 512) = chunk at hchunk ⊢
      obtain ⟨disk', hrun, hflat⟩ := ih (gap + chunk)
        (update disk (start + gap / 512)
          (splice (disk (start + gap / 512)) (gap % 512) chunk fun _ => 0)) (by omega)
      refine ⟨disk', hrun, ?_⟩
      rw [hflat, flat_update_patch (by omega) hchunk.2.1, ← extent_place,
        show offset - gap = chunk + (offset - (gap + chunk)) by omega, ← splice_add,
        add_assoc]
    · refine ⟨disk, by rw [if_neg hgap], ?_⟩
      rw [show offset - gap = 0 by omega, splice_zero]

omit hT in
/-- The bytes `fs_write_at` clears in front of the data are clear already. -/
theorem clearTail_eq {size position : ℕ} {disk : ℕ → ℕ → UInt8}
    (hclear : position % 512 = 0 ∨ ∀ x, size ≤ x → x < position →
      flat 512 disk (start * 512 + x) = 0) :
    clearTail size position (disk (start + position / 512)) = disk (start + position / 512) := by
  simp only [clearTail]
  by_cases hpos : position > size
  · rw [if_pos hpos]
    generalize hzero : (if size > position - position % 512 then
      size - (position - position % 512) else 0) = zeroFrom
    by_cases hlt : zeroFrom < position % 512
    · rw [if_pos hlt]
      rcases hclear with haligned | hclear
      · omega
      · funext i
        by_cases hi : zeroFrom ≤ i ∧ i < position % 512
        · rw [splice_of_inside hi.1 (by omega)]
          have hx := hclear (position / 512 * 512 + i) (by split at hzero <;> omega) (by omega)
          rw [show start * 512 + (position / 512 * 512 + i) =
            (start + position / 512) * 512 + i from by omega, flat_apply (by omega)] at hx
          exact hx.symm
        · rw [splice_of_outside (by omega)]
    · rw [if_neg hlt]
  · rw [if_neg hpos]

theorem copyData_eq (size fuel position : ℕ) (data : List UInt8) (disk : ℕ → ℕ → UInt8)
    (hfuel : data.length ≤ fuel) (hin : start * 512 + position + data.length ≤ total * 512)
    (hclear : data = [] ∨ position % 512 = 0 ∨ ∀ x, size ≤ x → x < position →
      flat 512 disk (start * 512 + x) = 0) :
    ∃ disk', copyData total start size fuel position data disk = (true, disk') ∧
      flat 512 disk' =
        splice (flat 512 disk) (start * 512 + position) data.length fun i => data.getD i 0 := by
  induction fuel generalizing position data disk with
  | zero =>
    obtain rfl : data = [] := length_eq_zero_iff.1 (by omega)
    exact ⟨disk, rfl, splice_zero.symm⟩
  | succ fuel ih =>
    rw [copyData]
    by_cases hdata : data = []
    · subst hdata
      exact ⟨disk, rfl, splice_zero.symm⟩
    · have hpos : 0 < data.length := length_pos_iff.2 hdata
      have hlba : (start + position / 512) % 2 ^ 32 = start + position / 512 := by omega
      rw [if_neg (by rwa [List.isEmpty_iff])]
      simp only [hlba]
      have hchunk : 0 < min data.length (512 - position % 512) ∧
          position % 512 + min data.length (512 - position % 512) ≤ 512 ∧
          min data.length (512 - position % 512) ≤ data.length ∧
          (min data.length (512 - position % 512) = data.length ∨
            (position + min data.length (512 - position % 512)) % 512 = 0) := by omega
      generalize min data.length (512 - position % 512) = chunk at hchunk ⊢
      obtain ⟨hpos', hfit, hle, hend⟩ := hchunk
      have hlen : (data.take chunk).length = chunk := by rw [length_take]; omega
      have htake : ∀ i, i < chunk → (data.take chunk).getD i 0 = data.getD i 0 := by
        intro i hi
        rw [getD_eq_getElem?_getD, List.getElem?_take_of_lt hi, ← getD_eq_getElem?_getD]
      -- whichever way the sector buffer was filled, the sector written is the old one patched
      obtain ⟨sector, hread, hflat₁⟩ : ∃ sector,
          (if position % 512 ≠ 0 ∨ chunk ≠ 512 then
            (ataReadSector total disk (start + position / 512)).map (clearTail size position)
            else some fun _ => 0) = some sector ∧
          flat 512 (update disk (start + position / 512)
            (writeBytes sector (position % 512) (data.take chunk))) =
            splice (flat 512 disk) (start * 512 + position) chunk fun i => data.getD i 0 := by
        by_cases hpart : position % 512 ≠ 0 ∨ chunk ≠ 512
        · refine ⟨disk (start + position / 512), ?_, ?_⟩
          · rw [if_pos hpart, ataReadSector_eq (by omega) hT, Option.map_some,
              clearTail_eq start (hclear.resolve_left hdata)]
          · rw [writeBytes_eq_splice, hlen, flat_update_patch (by omega) hfit, ← extent_place,
              splice_congr htake]
        · refine ⟨fun _ => 0, by rw [if_neg hpart], ?_⟩
          have hwhole : position % 512 = 0 ∧ chunk = 512 := by omega
          rw [flat_update_block (by omega), extent_place, hwhole.1, add_zero, hwhole.2]
          apply splice_congr
          intro i hi
          rw [hwhole.2] at hlen htake
          rw [writeBytes_eq_splice, splice_of_inside (Nat.zero_le i) (by omega), Nat.sub_zero,
            htake i hi]
      rw [hread]
      simp only
      rw [ataWriteSector_eq (by omega) hT]
      obtain ⟨disk', hrun, hflat⟩ := ih (position + chunk) (data.drop chunk)
        (update disk (start + position / 512) (writeBytes sector (position % 512) (data.take chunk)))
        (by rw [length_drop]; omega) (by rw [length_drop]; omega)
        (by
          rcases hend with hall | haligned
          · exact .inl (drop_eq_nil_of_le (by omega))
          · exact .inr (.inl haligned))
      refine ⟨disk', hrun, ?_⟩
      rw [hflat, hflat₁, ← add_assoc]
      have hdrop : ∀ i, (data.drop chunk).getD i 0 = data.getD (chunk + i) 0 := by
        intro i
        rw [getD_eq_getElem?_getD, List.getElem?_drop, ← getD_eq_getElem?_getD]
      simp only [hdrop]
      rw [splice_add, length_drop, Nat.add_sub_cancel' hle]

end Loops

end NovaOS.Fs
