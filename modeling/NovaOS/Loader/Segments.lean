import NovaOS.Loader.Placement

/-!
# What the segments of an object contain

`map_elf_object` maps a segment page by page and copies its file bytes in chunks of at most 512.  A
page that two segments share is mapped by the first one and kept by the second.

* `fileByte` — a byte of a file, as `fs_read_at` gives it;
* `Loaded` — what has become of the space after some of the headers;
* **`segments_loaded_exactly`** — when the memory ranges of the segments do not meet and their pages
  were free, each segment holds its bytes of the file and zeros behind them, every other page is as it
  was, and all pages lie in the range for loading.
-/

namespace NovaOS.Loader

open NovaOS.Vm NovaOS.Fs NovaOS.Process List Nat Option
open NovaOS.Fallible

/-! ### The bytes of a file -/

/-- The byte of a file at a position. -/
def fileByte (v : Volume) (name : Name) (position : ℕ) : Option UInt8 :=
  (fsReadAt v name position 1).bind List.head?

/-- Every byte of a chunk can be read alone. -/
theorem readLoop_one {total : ℕ} {disk : ℕ → ℕ → UInt8} {startLba fuel position remaining i : ℕ}
    {bytes : List UInt8} (h : readLoop total disk startLba fuel position remaining = some bytes)
    (hi : i < remaining) : readLoop total disk startLba 1 (position + i) 1 = some [bytes.getD i 0] := by
  induction fuel generalizing position remaining bytes i with
  | zero =>
    rw [readLoop, if_neg (by omega)] at h
    cases h
  | succ fuel ih =>
    rw [readLoop, if_neg (by omega)] at h
    cases hsector : ataReadSector total disk ((startLba + position / 512) % 2 ^ 32) with
    | none =>
      rw [hsector] at h
      cases h
    | some sector =>
      rw [hsector] at h
      simp only at h
      generalize hchunk : min remaining (512 - position % 512) = chunk at h
      split at h
      · cases h
      · rename_i rest hrest
        cases h
        have hlength : (readBytes sector (position % 512) chunk).length = chunk := length_readBytes
        by_cases hin : i < chunk
        · have hblock : (position + i) / 512 = position / 512 := by omega
          have hoffset : (position + i) % 512 = position % 512 + i := by omega
          have hone : min 1 (512 - (position + i) % 512) = 1 := by omega
          rw [readLoop, if_neg one_ne_zero, hblock, hsector]
          simp only [hone]
          rw [readLoop, if_pos (Nat.sub_self 1), getD_append _ _ _ _ (by omega), hoffset]
          simp only [readBytes, getD_eq_getElem?_getD, List.getElem?_map,
            List.getElem?_range hin, map_some, getD_some]
          rfl
        · have hnext := ih hrest (show i - chunk < remaining - chunk by omega)
          rw [show position + chunk + (i - chunk) = position + i by omega] at hnext
          rw [hnext, getD_append_right _ _ _ _ (by omega), hlength]

theorem fileByte_of_read {v : Volume} {name : Name} {offset capacity i : ℕ} {bytes : List UInt8}
    (h : fsReadAt v name offset capacity = some bytes) (hi : i < bytes.length) :
    fileByte v name (offset + i) = some (bytes.getD i 0) := by
  have hone : fsReadAt v name (offset + i) 1 = some [bytes.getD i 0] := by
    rw [fsReadAt] at h ⊢
    split at h
    · cases h
    next hready =>
    rw [if_neg hready]
    split at h
    · cases h
    next index hindex =>
    split at h
    · cases h
    next hfile =>
    rw [if_neg hfile]
    rw [readEntryData, readRawData] at h ⊢
    split at h
    · cases h
      exact absurd hi (not_lt_zero i)
    next hsize =>
    simp only at h
    split at h
    · cases h
    next loaded hloop =>
    split at h
    · cases h
    · cases h
      have hlength := length_readLoop hloop
      have hbound : i < (v.entries index).size - offset := by
        split at hlength
        · omega
        · omega
      have hcapacity : (if 1 > (v.entries index).size - (offset + i) then
          (v.entries index).size - (offset + i) else 1) = 1 := if_neg (by omega)
      rw [if_neg (by omega)]
      simp only [hcapacity]
      rw [readLoop_one hloop (hlength ▸ hi)]
      exact if_neg (by rw [length_singleton]; decide)
  rw [fileByte, hone]
  rfl

/-! ### Mapping the pages and copying the bytes -/

/-- A page with the bytes of its frame in the space being filled. -/
def Target.page (t : Target) (a : ℕ) : Option (VmPage × (ℕ → UInt8)) :=
  pageState t.space.vm t.memory a

section

variable {ext : ℕ → ℕ} {E : ℕ → Prop} {sh : ℕ → Prop} {t t' t₀ : Target} {u : Unit} {v : Volume}
  {b size bias : ℕ} {segment : Elf64ProgramHeader} {p p' : Mapping} {done : List Elf64ProgramHeader}
  {name : Name}

/-- New pages are zero, old ones stay. -/
theorem mapEach_view {protection : ℕ} {pages : List ℕ} (hr : Ready ext E sh t)
    (h : mapEach protection pages t = (some u, t')) :
    (∀ b, t'.view b = if alignDown b ∈ pages then some ((t.view b).getD .zero) else t.view b) ∧
      ∀ b, alignDown b ∉ pages → t'.page b = t.page b := by
  induction pages generalizing t with
  | nil =>
    obtain ⟨_, rfl⟩ := pure_some.1 h
    exact ⟨fun b => (if_neg not_mem_nil).symm, fun b _ => rfl⟩
  | cons page pages ih =>
    obtain ⟨_, t₁, hpage, hrest⟩ := bind_some.1 h
    obtain ⟨hc, hv⟩ := mapPage_some hr hpage
    obtain ⟨hview, hothers⟩ := ih hc.ready hrest
    refine ⟨fun b => ?_, fun b hb => ?_⟩
    · rw [hview, hv, SpaceView.map]
      by_cases hfirst : alignDown b = page
      · rw [if_pos hfirst, if_pos (mem_cons.2 (.inl hfirst))]
        split
        · rfl
        · rfl
      · rw [if_neg hfirst]
        simp only [mem_cons, hfirst, false_or]
    · rw [mem_cons, not_or] at hb
      obtain ⟨s, m, hf, rfl⟩ := onVm_some.1 hpage
      exact (hothers b hb.2).trans (vmMapPage_pageState hr.ok hf hb.1)

/-- A page of one's own shows its bytes. -/
theorem byte_isSome_of_own {w : SpaceView} (hsome : (w b).isSome) (hown : w b ≠ some .shared) :
    ∃ x, w.byte b = some x := by
  obtain ⟨p, hp⟩ := isSome_iff_exists.1 hsome
  cases p with
  | shared => exact absurd hp hown
  | own bytes => exact ⟨bytes (b % 4096), by rw [SpaceView.byte, hp]; rfl⟩

theorem write_shared_iff {w : SpaceView} {a : ℕ} {input : List UInt8} :
    w.write a input b = some .shared ↔ w b = some .shared := by
  rw [SpaceView.write]
  cases hw : w b with
  | none => exact ⟨fun hno => (by cases hno), fun hno => by cases hno⟩
  | some p =>
    cases p with
    | shared => exact Iff.rfl
    | own bytes => exact ⟨fun hno => (by cases hno), fun hno => by cases hno⟩

/-- **The copy loop** puts the bytes of the file in their place. -/
theorem copySegment_view {offset start fileSize fuel copied : ℕ} (hr : Ready ext E sh t)
    (hstart : start + fileSize < 2 ^ 64) (hoffset : offset + fileSize < 2 ^ 64)
    (hown : ∀ i, i < fileSize → t.view (start + i) ≠ some .shared)
    (h : copySegment v name offset start fileSize fuel copied t = (some u, t')) :
    (∀ b, start + copied ≤ b → b < start + fileSize →
        ∃ x, t'.view.byte b = some x ∧ fileByte v name (offset + (b - start)) = some x) ∧
      (∀ b, ¬(start + copied ≤ b ∧ b < start + fileSize) → t'.view.byte b = t.view.byte b) ∧
      ∀ b, (∀ i, i < fileSize → alignDown b ≠ alignDown (start + i)) → t'.page b = t.page b := by
  induction fuel generalizing copied t with
  | zero =>
    obtain ⟨hdone, rfl⟩ := check_some.1 h
    exact ⟨fun b hlow hhigh => absurd hdone (by omega), fun _ _ => rfl, fun _ _ => rfl⟩
  | succ fuel ih =>
    rw [copySegment] at h
    split at h
    · next hdone =>
      obtain ⟨_, rfl⟩ := pure_some.1 h
      exact ⟨fun b hlow hhigh => absurd hdone (by omega), fun _ _ => rfl, fun _ _ => rfl⟩
    · next hmore =>
      obtain ⟨contents, t₁, hread, h⟩ := bind_some.1 h
      obtain ⟨hfile, rfl⟩ := reads_some.1 hread
      obtain ⟨_, t₁, hcheck, h⟩ := bind_some.1 h
      obtain ⟨_, rfl⟩ := check_some.1 hcheck
      obtain ⟨_, t₂, hcopy, h⟩ := bind_some.1 h
      have hlength := length_fsReadAt_le hfile
      rw [mod_eq_of_lt (show start + copied < 2 ^ 64 by omega)] at hcopy
      rw [mod_eq_of_lt (show offset + copied < 2 ^ 64 by omega)] at hfile
      obtain ⟨hc, hv, hmapped⟩ := copyTo_some hr hcopy
      have hown₂ : ∀ i, i < fileSize → t₂.view (start + i) ≠ some .shared := by
        intro i hi
        rw [hv, ne_eq, write_shared_iff]
        exact hown i hi
      obtain ⟨hbytes, hkept, hpages⟩ := ih hc.ready hown₂ h
      refine ⟨fun b hlow hhigh => ?_, fun b hout => ?_, fun b hb => ?_⟩
      · by_cases hlater : start + (copied + contents.length) ≤ b
        · exact hbytes b hlater hhigh
        · -- a byte of this chunk
          have hindex : start + copied + (b - (start + copied)) = b := by omega
          have hsome := (hmapped (b - (start + copied)) (by omega)).1
          have hprivate := hown (b - start) (by omega)
          rw [hindex] at hsome
          rw [show start + (b - start) = b by omega] at hprivate
          obtain ⟨x, hx⟩ := byte_isSome_of_own hsome hprivate
          refine ⟨contents.getD (b - (start + copied)) 0, ?_, ?_⟩
          · rw [hkept b (by omega), hv, SpaceView.byte_write, if_pos ⟨hlow, by omega⟩, hx]
            rfl
          · have hbyte := fileByte_of_read hfile (show b - (start + copied) < contents.length by omega)
            rw [show offset + copied + (b - (start + copied)) = offset + (b - start) by omega] at hbyte
            exact hbyte
      · rw [hkept b (by omega), hv, SpaceView.byte_write, if_neg (by omega)]
      · obtain ⟨s, m, hf, rfl⟩ := onVm_some.1 hcopy
        refine (hpages b hb).trans (vmCopyToUser_pageState hr.ok hr.iso ?_ hf ?_)
        · intro i hi
          have hprivate := hown (copied + i) (by omega)
          rwa [← add_assoc] at hprivate
        · intro i hi
          rw [add_assoc]
          exact hb (copied + i) (by omega)

/-! ### One header -/

/-- **One `PT_LOAD` header**: its file bytes are copied, its other pages are zero or as they were. -/
theorem mapLoad_view (hr : Ready ext E sh t)
    (hsize : segment.memorySize < 2 ^ 64) (hfile : size < 2 ^ 64)
    (hown : ∀ b, (placedSegment p.object.bias segment).Covers (alignDown b) → t.view b ≠ some .shared)
    (h : mapLoad v name size segment p t = (some p', t')) :
    SegmentFits p.object.bias segment ∧
      (∀ b, InFile p.object.bias segment b → ∃ x, t'.view.byte b = some x ∧
        fileByte v name (segment.offset + (b - segmentStart p.object.bias segment)) = some x) ∧
      (∀ b, ¬InFile p.object.bias segment b →
        (placedSegment p.object.bias segment).Covers (alignDown b) →
          t'.view.byte b = some ((t.view.byte b).getD 0)) ∧
      ∀ b, ¬(placedSegment p.object.bias segment).Covers (alignDown b) → t'.page b = t.page b := by
  obtain ⟨t₁, hfits, hcovers, hend, hinside, hmap, hcopy, -⟩ := mapLoad_run hsize h
  have hsmall := hfits.file
  have hc := (mapEach_some _ hr hmap).1
  obtain ⟨hview, hothers⟩ := mapEach_view hr hmap
  -- the pages are there now, and those of the segment are its own
  have hpage : ∀ b, (placedSegment p.object.bias segment).Covers (alignDown b) →
      ∃ bytes, t₁.view b = some (.own bytes) ∧ t₁.view.byte b = some ((t.view.byte b).getD 0) := by
    intro b hb
    have hnew := hview b
    rw [if_pos ((hcovers b).1 hb)] at hnew
    rw [SpaceView.byte, SpaceView.byte, hnew]
    cases hold : t.view b with
    | none => exact ⟨_, rfl, rfl⟩
    | some q =>
      cases q with
      | shared => exact absurd hold (hown b hb)
      | own bytes => exact ⟨bytes, rfl, rfl⟩
  have hown₁ : ∀ i, i < segment.fileSize →
      t₁.view (segmentStart p.object.bias segment + i) ≠ some .shared := by
    intro i hi hshared
    obtain ⟨bytes, hbytes, -⟩ := hpage _ (hfits.covers _ ⟨le_add_right _ i, by omega⟩)
    cases hshared.symm.trans hbytes
  obtain ⟨hcopied, hkept, hrest⟩ := copySegment_view hc.ready (by omega) (by omega) hown₁ hcopy
  refine ⟨hfits, fun b hb => hcopied b hb.1 hb.2, fun b hout hb => ?_, fun b hb => ?_⟩
  · obtain ⟨bytes, -, hbyte⟩ := hpage b hb
    rw [hkept b hout, hbyte]
  · refine (hrest b fun i hi heq => hb ?_).trans (hothers b fun hmem => hb ((hcovers b).2 hmem))
    rw [heq]
    exact hfits.covers _ ⟨le_add_right _ i, by omega⟩

/-! ### All headers -/

/-- The memory ranges of two segments do not meet. -/
def MemoryApart (bias : ℕ) (x y : Elf64ProgramHeader) : Prop :=
  ∀ b, ¬(InMemory bias x b ∧ InMemory bias y b)

instance (bias : ℕ) : Std.Symm (MemoryApart bias) := ⟨fun _ _ h b hb => h b hb.symm⟩

/-- What has become of the space `t₀` when the headers `done` were loaded. -/
structure Loaded (v : Volume) (name : Name) (bias : ℕ) (t₀ : Target) (done : List Elf64ProgramHeader)
    (t : Target) : Prop where
  fits : ∀ segment ∈ done, SegmentFits bias segment
  file : ∀ segment ∈ done, ∀ b, InFile bias segment b → ∃ x, t.view.byte b = some x ∧
    fileByte v name (segment.offset + (b - segmentStart bias segment)) = some x
  zero : ∀ b, InRanges (done.map (placedSegment bias)) (alignDown b) →
    (∀ segment ∈ done, ¬InFile bias segment b) → t.view.byte b = some 0
  others : ∀ b, ¬InRanges (done.map (placedSegment bias)) (alignDown b) → t.page b = t₀.page b

theorem inRanges_concat {a : ℕ} :
    InRanges ((done ++ [segment]).map (placedSegment bias)) a ↔
      InRanges (done.map (placedSegment bias)) a ∨ (placedSegment bias segment).Covers a := by
  simp only [InRanges, map_append, map_cons, map_nil, mem_append,
    mem_singleton, or_and_right, exists_or, exists_eq_left]

/-- Every page of a segment that was loaded is there, with bytes of its own. -/
theorem Loaded.byte_isSome
    (h : Loaded v name bias t₀ done t)
    (hb : InRanges (done.map (placedSegment bias)) (alignDown b)) : ∃ x, t.view.byte b = some x := by
  by_cases hfile : ∃ segment ∈ done, InFile bias segment b
  · obtain ⟨segment, hsegment, hin⟩ := hfile
    obtain ⟨x, hx, -⟩ := h.file segment hsegment b hin
    exact ⟨x, hx⟩
  · exact ⟨0, h.zero b hb fun segment hsegment hin => hfile ⟨segment, hsegment, hin⟩⟩

/-- **One more header**: its pages were free or belong to an earlier segment, and its memory meets no
other. -/
theorem Loaded.mapLoad
    (h : Loaded v name p.object.bias t₀ done t) (hr : Ready ext E sh t)
    (hsize : segment.memorySize < 2 ^ 64) (hfile : size < 2 ^ 64)
    (hfree : ∀ b, (placedSegment p.object.bias segment).Covers (alignDown b) → t₀.page b = none)
    (hapart : ∀ other ∈ done, MemoryApart p.object.bias other segment)
    (hmap : mapLoad v name size segment p t = (some p', t')) :
    Loaded v name p.object.bias t₀ (done ++ [segment]) t' := by
  -- a page of the segment that no earlier one has is still free
  have hnew : ∀ b, (placedSegment p.object.bias segment).Covers (alignDown b) →
      ¬InRanges (done.map (placedSegment p.object.bias)) (alignDown b) → t.view b = none := by
    intro b hb hnot
    have hpage : pageState t.space.vm t.memory b = none := (h.others b hnot).trans (hfree b hb)
    rw [pageState, map_eq_none_iff] at hpage
    rw [Target.view, view, hpage]
    rfl
  have hown : ∀ b, (placedSegment p.object.bias segment).Covers (alignDown b) →
      t.view b ≠ some .shared := by
    intro b hb hshared
    by_cases hold : InRanges (done.map (placedSegment p.object.bias)) (alignDown b)
    · obtain ⟨x, hx⟩ := h.byte_isSome hold
      rw [SpaceView.byte, hshared] at hx
      cases hx
    · cases hshared.symm.trans (hnew b hb hold)
  obtain ⟨hfits, hcopied, hkept, hothers⟩ := mapLoad_view hr hsize hfile hown hmap
  -- what an earlier segment has outside the new file part is still there
  have hstays : ∀ b x, ¬InFile p.object.bias segment b → t.view.byte b = some x →
      t'.view.byte b = some x := by
    intro b x hout hx
    by_cases hb : (placedSegment p.object.bias segment).Covers (alignDown b)
    · rw [hkept b hout hb, hx]
      rfl
    · rw [SpaceView.byte, Target.view, view_of_pageState (hothers b hb)]
      exact hx
  refine ⟨?_, ?_, ?_, ?_⟩
  · intro other hother
    rcases mem_append.1 hother with hother | hother
    · exact h.fits other hother
    · rw [mem_singleton.1 hother]
      exact hfits
  · intro other hother b hin
    rcases mem_append.1 hother with hother | hother
    · obtain ⟨x, hx, hbyte⟩ := h.file other hother b hin
      refine ⟨x, hstays b x (fun hin' => ?_) hx, hbyte⟩
      exact hapart other hother b ⟨(h.fits other hother).inMemory hin, hfits.inMemory hin'⟩
    · rw [mem_singleton.1 hother] at hin ⊢
      exact hcopied b hin
  · intro b hb hout
    have hlast := hout segment (mem_append_right done mem_cons_self)
    by_cases hold : InRanges (done.map (placedSegment p.object.bias)) (alignDown b)
    · exact hstays b 0 hlast (h.zero b hold fun other hother =>
        hout other (mem_append_left _ hother))
    · have hcovers := (inRanges_concat.1 hb).resolve_left hold
      rw [hkept b hlast hcovers, SpaceView.byte, hnew b hcovers hold]
      rfl
  · intro b hb
    rw [inRanges_concat, not_or] at hb
    exact (hothers b hb.2).trans (h.others b hb.1)

/-- **The pass over the headers.** -/
theorem Loaded.mapSegments (todo : List Elf64ProgramHeader)
    (hbias : p.object.bias = bias) (h : Loaded v name bias t₀ done t)
    (hr : Ready ext E sh t) (hsizes : ∀ segment ∈ todo, segment.memorySize < 2 ^ 64)
    (hfile : size < 2 ^ 64)
    (hfree : ∀ segment ∈ loadHeaders todo, ∀ b, (placedSegment bias segment).Covers (alignDown b) →
      t₀.page b = none)
    (hapart : (done ++ loadHeaders todo).Pairwise (MemoryApart bias))
    (hmap : mapSegments v name size todo p t = (some p', t')) :
    Loaded v name bias t₀ (done ++ loadHeaders todo) t' := by
  induction todo generalizing done p t with
  | nil =>
    obtain ⟨rfl, rfl⟩ := pure_some.1 hmap
    rw [loadHeaders, filter_nil, append_nil]
    exact h
  | cons segment todo ih =>
    obtain ⟨p₁, t₁, hone, hrest⟩ := bind_some.1 hmap
    rw [forall_mem_cons] at hsizes
    by_cases htype : segment.type = elfPtLoad
    · have hload : loadHeaders (segment :: todo) = segment :: loadHeaders todo :=
        filter_cons_of_pos (by rw [htype]; rfl)
      have hsplit : done ++ segment :: loadHeaders todo = done ++ [segment] ++ loadHeaders todo := by
        rw [append_assoc, singleton_append]
      rw [hload] at hfree hapart ⊢
      rw [forall_mem_cons] at hfree
      rw [mapSegment_load htype] at hone
      subst hbias
      obtain ⟨hobject, hchanged⟩ := mapLoad_some hsizes.1 hone
      have hbefore : ∀ other ∈ done, MemoryApart p.object.bias other segment := fun other hother =>
        (pairwise_append.1 hapart).2.2 other hother segment mem_cons_self
      rw [hsplit] at hapart ⊢
      exact ih (by rw [hobject]) (h.mapLoad hr hsizes.1 hfile hfree.1 hbefore hone)
        (hchanged ext E sh hr).1.ready hsizes.2 hfree.2 hapart hrest
    · have hload : loadHeaders (segment :: todo) = loadHeaders todo :=
        filter_cons_of_neg (by simpa using htype)
      obtain ⟨-, hsame, -, rfl⟩ := mapSegment_other htype hone
      rw [hload] at hfree hapart ⊢
      exact ih (hsame.trans hbias) h hr hsizes.2 hfree hapart hrest

/-- **The segments of an object are loaded exactly.**  `size` is the size of the file, a 64-bit word. -/
theorem segments_loaded_exactly {requestedBias maximumEnd size : ℕ} {entryOut interpreterOut : Bool}
    {mapped : Mapped} {header : Elf64Header} {segments : List Elf64ProgramHeader}
    (hr : Ready ext E sh t)
    (h : mapElfObject v name requestedBias entryOut interpreterOut maximumEnd t = (some mapped, t'))
    (hheaders : readHeaders v name = some (size, header, segments)) (hsize : size < 2 ^ 64)
    (hfree : ∀ b, InRanges (fileSegments v name requestedBias) (alignDown b) →
      pageAt t.space.vm b = none)
    (hapart : (loadHeaders segments).Pairwise (MemoryApart (objectBias header requestedBias))) :
    (∀ segment ∈ loadHeaders segments,
      (∀ i, i < segment.fileSize → ∃ x,
        userByte t'.space.vm t'.memory
          (segmentStart (objectBias header requestedBias) segment + i) = some x ∧
        fileByte v name (segment.offset + i) = some x) ∧
      ∀ i, segment.fileSize ≤ i → i < segment.memorySize →
        userByte t'.space.vm t'.memory
          (segmentStart (objectBias header requestedBias) segment + i) = some 0) ∧
    (∀ b, ¬InRanges (fileSegments v name requestedBias) (alignDown b) →
      pageState t'.space.vm t'.memory b = pageState t.space.vm t.memory b) ∧
    ∀ b, InRanges (fileSegments v name requestedBias) (alignDown b) →
      vmUserBase ≤ alignDown b ∧ alignDown b + 4096 ≤ vmUserLoadLimit := by
  obtain ⟨size', header', segments', p, hheaders', -, hmap, -⟩ := mapElfObject_run h
  cases hheaders.symm.trans hheaders'
  have hranges : fileSegments v name requestedBias =
      (loadHeaders segments).map (placedSegment (objectBias header requestedBias)) := by
    rw [fileSegments, hheaders]
    rfl
  rw [hranges] at hfree ⊢
  have hpages : ∀ segment ∈ loadHeaders segments, ∀ b,
      (placedSegment (objectBias header requestedBias) segment).Covers (alignDown b) →
        t.page b = none := by
    intro segment hsegment b hb
    rw [Target.page, pageState, hfree b ⟨_, mem_map_of_mem hsegment, hb⟩]
    rfl
  have hstart : Loaded v name (objectBias header requestedBias) t [] t :=
    ⟨fun _ hno => (by cases hno), fun _ hno => (by cases hno), fun _ hb => (by cases hb.choose_spec.1), fun _ _ => rfl⟩
  have hloaded := hstart.mapSegments segments rfl hr (readHeaders_sizes hheaders) hsize hpages hapart
    hmap
  refine ⟨fun segment hsegment => ⟨fun i hi => ?_, fun i hfile hi => ?_⟩, hloaded.others, ?_⟩
  · obtain ⟨x, hx, hbyte⟩ := hloaded.file segment hsegment _
      ⟨Nat.le_add_right _ i, Nat.add_lt_add_left hi _⟩
    rw [Nat.add_sub_cancel_left] at hbyte
    exact ⟨x, hx, hbyte⟩
  · -- the rest of a segment is in no file part: not its own, and not that of another one
    have hmem : InMemory (objectBias header requestedBias) segment
        (segmentStart (objectBias header requestedBias) segment + i) :=
      ⟨Nat.le_add_right _ i, Nat.add_lt_add_left hi _⟩
    have hcovers := (hloaded.fits segment hsegment).covers _ hmem
    refine hloaded.zero _ ⟨_, mem_map_of_mem hsegment, hcovers⟩ fun other hother hin => ?_
    by_cases heq : other = segment
    · rw [heq] at hin
      exact absurd (lt_of_add_lt_add_left hin.2) (not_lt.2 hfile)
    · exact hapart.forall hother hsegment heq _ ⟨(hloaded.fits other hother).inMemory hin, hmem⟩
  · rintro b ⟨range, hrange, hcovers⟩
    obtain ⟨segment, hsegment, rfl⟩ := mem_map.1 hrange
    obtain ⟨-, hlow, hhigh, -⟩ := hloaded.fits segment hsegment
    have hbelow : alignDown b < 0xE00000000 := lt_of_lt_of_le hcovers.2 hhigh
    have hmod := alignDown_mod b
    refine ⟨le_trans hlow hcovers.1, ?_⟩
    show alignDown b + 4096 ≤ 0xE00000000
    omega

end

/-- The bytes of a program header. -/
def Elf64ProgramHeader.bytes (segment : Elf64ProgramHeader) : List UInt8 :=
  leBytes 4 segment.type ++ leBytes 4 segment.flags ++ leBytes 8 segment.offset ++
    leBytes 8 segment.virtualAddress ++ leBytes 8 segment.virtualAddress ++ leBytes 8 segment.fileSize ++
    leBytes 8 segment.memorySize ++ leBytes 8 segment.alignment

/-- An ELF file with some program headers right behind the file header. -/
def elfFile (type entry : ℕ) (segments : List Elf64ProgramHeader) (contents : List UInt8) :
    List UInt8 :=
  [0x7F, 69, 76, 70, 2, 1, 1, 0, 0, 0, 0, 0, 0, 0, 0, 0] ++ leBytes 2 type ++ leBytes 2 0x3E ++
    leBytes 4 1 ++ leBytes 8 entry ++ leBytes 8 64 ++ leBytes 8 0 ++ leBytes 4 0 ++ leBytes 2 64 ++
    leBytes 2 56 ++ leBytes 2 segments.length ++ leBytes 6 0 ++
    segments.flatMap Elf64ProgramHeader.bytes ++ contents

/-- A volume with some files of at most 32 KiB, one after the other. -/
def filesVolume (files : List (Name × List UInt8)) : Volume where
  entries index := match files[index]? with
    | none => FsEntry.zero
    | some (name, bytes) => ⟨true, .file, 0o644, 0, name, 1024 + index * 64, bytes.length, 64, 0⟩
  disk lba offset := match files[(lba - 1024) / 64]? with
    | none => 0
    | some (_, bytes) => bytes.getD ((lba - 1024) % 64 * 512 + offset) 0
  totalSectors := 1024 + files.length * 64
  mounted := true
  currentUid := 0
  currentPrivileged := true

/-- A fresh address space. -/
def freshTarget : Target :=
  match addressSpaceCreate ⟨[], stridedChoices, 0, fun _ => none, fun _ _ => 0⟩ with
  | (some space, m) => ⟨space, m⟩
  | (none, m) => ⟨⟨VmSpace.zero, 0, [], 0, 0, 0, 0⟩, m⟩

/-- A program with two segments in one page: its whole file, and its last two bytes a second time
with six zeros behind them. -/
def sharedPageProgram : List UInt8 :=
  elfFile 2 0x40001000 [⟨elfPtLoad, 5, 0, 0x40001000, 178, 178, 4096⟩,
    ⟨elfPtLoad, 6, 176, 0x40001800, 2, 8, 4096⟩] [7, 9]

theorem freshTarget_ready : Ready (fun _ => 0) (fun _ => False) (fun _ => False) freshTarget ∧
    ∀ a, pageAt freshTarget.space.vm a = none := by
  have hsome : (addressSpaceCreate ⟨[], stridedChoices, 0, fun _ => none, fun _ _ => 0⟩).1.isSome = true := by
    decide +kernel
  cases hcreate : addressSpaceCreate ⟨[], stridedChoices, 0, fun _ => none, fun _ _ => 0⟩ with
  | mk created m =>
    rw [hcreate] at hsome
    obtain ⟨space, rfl⟩ := isSome_iff_exists.1 hsome
    rw [freshTarget, hcreate]
    exact addressSpaceCreate_some (MemoryOk.initial _ _) hcreate _

/-- The two segments of one page. -/
theorem segments_loaded_exactly_shared_page : ∃ mapped t',
    mapElfObject (filesVolume [([112], sharedPageProgram)]) [112] 0 true true 0 freshTarget =
      (some mapped, t') ∧
    userByte t'.space.vm t'.memory 0x40001801 = some 9 ∧
    userByte t'.space.vm t'.memory 0x40001802 = some 0 := by
  have hsome : (mapElfObject (filesVolume [([112], sharedPageProgram)]) [112] 0 true true 0
      freshTarget).1.isSome = true := by decide +kernel
  cases hmap : mapElfObject (filesVolume [([112], sharedPageProgram)]) [112] 0 true true 0
      freshTarget with
  | mk result t' =>
    rw [hmap] at hsome
    obtain ⟨mapped, rfl⟩ := isSome_iff_exists.1 hsome
    have hheaders : readHeaders (filesVolume [([112], sharedPageProgram)]) [112] =
        some (178, Elf64Header.ofBytes (sharedPageProgram.take 64),
          [⟨elfPtLoad, 5, 0, 0x40001000, 178, 178, 4096⟩,
            ⟨elfPtLoad, 6, 176, 0x40001800, 2, 8, 4096⟩]) := by decide +kernel
    have hbias : objectBias (Elf64Header.ofBytes (sharedPageProgram.take 64)) 0 = 0 := by
      decide +kernel
    obtain ⟨hsegments, -, -⟩ := segments_loaded_exactly freshTarget_ready.1 hmap hheaders (by decide)
      (fun b _ => freshTarget_ready.2 b) (by
        rw [hbias]
        refine pairwise_pair.2 fun b hb => ?_
        simp only [InMemory, segmentStart] at hb
        omega)
    obtain ⟨hfile, hzero⟩ := hsegments ⟨elfPtLoad, 6, 176, 0x40001800, 2, 8, 4096⟩ (by decide)
    obtain ⟨x, hx, hbyte⟩ := hfile 1 (by decide)
    have hnine : fileByte (filesVolume [([112], sharedPageProgram)]) [112] 177 = some 9 := by
      decide +kernel
    exact ⟨mapped, t', rfl, hx.trans (hbyte.symm.trans hnine), hzero 2 (by decide) (by decide)⟩

end NovaOS.Loader
