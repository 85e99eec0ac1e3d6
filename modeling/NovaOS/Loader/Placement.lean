import NovaOS.Fs.Extents
import NovaOS.Loader.Memory

/-!
# Where the segments of an object lie

`map_elf_object` places the segments of a file at the addresses of its program headers, shifted by the
bias it was asked to use when the file is position independent and not at all when it is not.

* `fileSegments` — the page ranges the headers of a file ask for at a bias;
* `SegmentFits` — the checks on one segment, and `mapLoad_some` — what mapping it does to user memory;
* `mapElfObject_run` — the stages of a call that succeeded.
-/

namespace NovaOS.Loader

open NovaOS.Vm NovaOS.Fs NovaOS.Process List
open NovaOS.Fallible

/-! ### Segments and headers -/

/-- The page range a header asks for at a bias. -/
def placedSegment (bias : ℕ) (segment : Elf64ProgramHeader) : ElfMappedSegment :=
  let start := (segment.virtualAddress + bias) % 2 ^ 64
  let finish := (start + segment.memorySize) % 2 ^ 64
  ⟨alignDown start, alignUp finish - alignDown start, elfSegmentProtection segment.flags⟩

/-- The bias a file gets: none unless it is position independent. -/
def objectBias (header : Elf64Header) (requestedBias : ℕ) : ℕ :=
  if header.type = 3 then requestedBias else 0

/-- The `PT_LOAD` headers. -/
def loadHeaders (segments : List Elf64ProgramHeader) : List Elf64ProgramHeader :=
  segments.filter fun segment => segment.type == elfPtLoad

/-- Their page ranges at a bias. -/
def loadSegments (bias : ℕ) (segments : List Elf64ProgramHeader) : List ElfMappedSegment :=
  (loadHeaders segments).map (placedSegment bias)

/-- The page ranges the headers of a file ask for. -/
def fileSegments (v : Volume) (name : Name) (requestedBias : ℕ) : List ElfMappedSegment :=
  match readHeaders v name with
  | none => []
  | some (_, header, segments) => loadSegments (objectBias header requestedBias) segments

/-- Whether a segment covers an address. -/
def ElfMappedSegment.Covers (segment : ElfMappedSegment) (a : ℕ) : Prop :=
  segment.start ≤ a ∧ a < segment.start + segment.size

/-! ### Mapping one object -/

section MapObject

variable {ext : ℕ → ℕ} {E : ℕ → Prop} {sh : ℕ → Prop} {t t' : Target} {u : Unit} {v : Volume}
  {segment : Elf64ProgramHeader} {size : ℕ} {p p' : Mapping} {object object' : ElfLoadedObject}
  {name : Name}

theorem copySegment_some {pages : ℕ → Prop} {offset start fileSize fuel copied : ℕ}
    (hr : Ready ext E sh t) (hend : start + fileSize < 2 ^ 64)
    (hpages : ∀ i, i < fileSize → pages (alignDown (start + i)))
    (h : copySegment v name offset start fileSize fuel copied t = (some u, t')) :
    Changed ext E sh t t' ∧ SameOutside pages t.view t'.view := by
  induction fuel generalizing copied t with
  | zero =>
    obtain ⟨_, rfl⟩ := check_some.1 h
    exact ⟨Changed.refl hr, SameOutside.refl _ _⟩
  | succ fuel ih =>
    rw [copySegment] at h
    split at h
    · obtain ⟨_, rfl⟩ := pure_some.1 h
      exact ⟨Changed.refl hr, SameOutside.refl _ _⟩
    · rename_i hmore
      obtain ⟨contents, t₁, hread, h⟩ := bind_some.1 h
      obtain ⟨hfile, rfl⟩ := reads_some.1 hread
      obtain ⟨_, t₁, hcheck, h⟩ := bind_some.1 h
      obtain ⟨_, rfl⟩ := check_some.1 hcheck
      obtain ⟨_, t₂, hcopy, h⟩ := bind_some.1 h
      have hlen := length_fsReadAt_le hfile
      rw [show (start + copied) % 2 ^ 64 = start + copied from Nat.mod_eq_of_lt (by omega)] at hcopy
      obtain ⟨hc, hv, _⟩ := copyTo_some hr hcopy
      obtain ⟨hc', hv'⟩ := ih hc.ready h
      have hwrite : SameOutside pages t.view t₂.view := by
        rw [hv]
        refine sameOutside_write _ _ _ fun i hi => ?_
        rw [add_assoc]
        exact hpages _ (by omega)
      exact ⟨hc.trans hc', hwrite.trans hv'⟩

/-- A page of one of some ranges. -/
def InRanges (ranges : List ElfMappedSegment) (page : ℕ) : Prop :=
  ∃ range ∈ ranges, range.Covers page

/-- Where the memory of a segment begins. -/
def segmentStart (bias : ℕ) (segment : Elf64ProgramHeader) : ℕ :=
  (segment.virtualAddress + bias) % 2 ^ 64

/-- Whether an address is in the part of a segment that comes from the file. -/
def InFile (bias : ℕ) (segment : Elf64ProgramHeader) (b : ℕ) : Prop :=
  segmentStart bias segment ≤ b ∧ b < segmentStart bias segment + segment.fileSize

/-- Whether an address is in the memory of a segment. -/
def InMemory (bias : ℕ) (segment : Elf64ProgramHeader) (b : ℕ) : Prop :=
  segmentStart bias segment ≤ b ∧ b < segmentStart bias segment + segment.memorySize

/-- The pages of a segment lie in the range for loading. -/
structure SegmentFits (bias : ℕ) (segment : Elf64ProgramHeader) : Prop where
  file : segment.fileSize ≤ segment.memorySize
  low : vmUserBase ≤ (placedSegment bias segment).start
  high : (placedSegment bias segment).start + (placedSegment bias segment).size ≤ vmUserLoadLimit
  covers : ∀ b, InMemory bias segment b → (placedSegment bias segment).Covers (alignDown b)

theorem SegmentFits.inMemory {bias b : ℕ} (h : SegmentFits bias segment)
    (hb : InFile bias segment b) : InMemory bias segment b :=
  ⟨hb.1, Nat.lt_of_lt_of_le hb.2 (Nat.add_le_add_left h.file _)⟩

/-- The checks of a `PT_LOAD` header keep its pages in the range for loading. -/
theorem fits_of_checks {bias : ℕ}
    (hbase : vmUserBase ≤ segmentStart bias segment) (hfile : segment.fileSize ≤ segment.memorySize)
    (hend : (segmentStart bias segment + segment.memorySize) % 2 ^ 64 =
      segmentStart bias segment + segment.memorySize)
    (hlimit : segmentStart bias segment + segment.memorySize ≤ vmUserLoadLimit) :
    SegmentFits bias segment ∧ ∀ b, (placedSegment bias segment).Covers (alignDown b) ↔
      alignDown b ∈ pageRange (alignDown (segmentStart bias segment))
        (alignUp (segmentStart bias segment + segment.memorySize)) := by
  have hplaced : placedSegment bias segment =
      ⟨alignDown (segmentStart bias segment),
        alignUp ((segmentStart bias segment + segment.memorySize) % 2 ^ 64) -
          alignDown (segmentStart bias segment), elfSegmentProtection segment.flags⟩ := rfl
  have hmem : ∀ b, InMemory bias segment b ↔ segmentStart bias segment ≤ b ∧
      b < segmentStart bias segment + segment.memorySize := fun _ => Iff.rfl
  rw [hend] at hplaced
  generalize segmentStart bias segment = start at *
  have hload : vmUserLoadLimit = 0xE00000000 := rfl
  have hlow : vmUserBase = 0x40000000 := rfl
  obtain ⟨hup, hnext⟩ := alignUp_spec (show start + segment.memorySize + 4095 < 2 ^ 64 by omega)
  have hupmod := alignUp_mod (start + segment.memorySize)
  have hdown := alignDown_le start
  have hdownmod := alignDown_mod start
  have hdownnext := lt_alignDown_add start
  have hcovers : ∀ b, (placedSegment bias segment).Covers (alignDown b) ↔
      alignDown start ≤ alignDown b ∧ alignDown b < alignUp (start + segment.memorySize) := by
    intro b
    rw [hplaced]
    simp only [ElfMappedSegment.Covers]
    omega
  refine ⟨⟨hfile, ?_, ?_, fun b hb => (hcovers b).2 ?_⟩, fun b => ?_⟩
  · rw [hplaced]
    simp only
    omega
  · rw [hplaced]
    simp only
    omega
  · rw [hmem] at hb
    have hb' := alignDown_le b
    have := alignDown_mod b
    have := lt_alignDown_add b
    omega
  · rw [mem_pageRange_iff hdownmod, hcovers]
    exact ⟨fun h => ⟨alignDown_mod b, h⟩, fun h => h.2⟩

/-- What a `PT_LOAD` header that was loaded has done. -/
theorem mapLoad_run
    (hsize : segment.memorySize < 2 ^ 64) (h : mapLoad v name size segment p t = (some p', t')) :
    ∃ t₁, SegmentFits p.object.bias segment ∧
      (∀ b, (placedSegment p.object.bias segment).Covers (alignDown b) ↔
        alignDown b ∈ pageRange (alignDown (segmentStart p.object.bias segment))
          (alignUp (segmentStart p.object.bias segment + segment.memorySize))) ∧
      segmentStart p.object.bias segment + segment.memorySize ≤ 0xE00000000 ∧
      segment.offset + segment.fileSize ≤ size ∧
      mapEach (vmProtRead ||| vmProtWrite ||| vmProtExec)
        (pageRange (alignDown (segmentStart p.object.bias segment))
          (alignUp (segmentStart p.object.bias segment + segment.memorySize))) t = (some (), t₁) ∧
      copySegment v name segment.offset (segmentStart p.object.bias segment) segment.fileSize
        segment.fileSize 0 t₁ = (some (), t') ∧
      p'.object = { p.object with
        segments := p.object.segments ++ [placedSegment p.object.bias segment] } := by
  obtain ⟨_, t₁, hcount, h⟩ := bind_some.1 h
  obtain ⟨_, rfl⟩ := check_some.1 hcount
  obtain ⟨_, t₁, hchecks, h⟩ := bind_some.1 h
  obtain ⟨⟨hle, hbase, hlimit, hsmall, hoffset, hinside⟩, rfl⟩ := check_some.1 hchecks
  obtain ⟨_, t₁, hmap, h⟩ := bind_some.1 h
  obtain ⟨_, t₂, hcopy, h⟩ := bind_some.1 h
  obtain ⟨rfl, rfl⟩ := pure_some.1 h
  rw [show (segment.virtualAddress + p.object.bias) % 2 ^ 64 = segmentStart p.object.bias segment
    from rfl] at hle hbase hlimit hmap hcopy
  have hend : (segmentStart p.object.bias segment + segment.memorySize) % 2 ^ 64 =
      segmentStart p.object.bias segment + segment.memorySize := by omega
  rw [hend] at hlimit hmap
  obtain ⟨hfits, hcovers⟩ := fits_of_checks hbase hsmall hend hlimit
  exact ⟨t₁, hfits, hcovers, hlimit, by omega, hmap, hcopy, rfl⟩

/-- **One `PT_LOAD` header.** -/
theorem mapLoad_some
    (hsize : segment.memorySize < 2 ^ 64) (h : mapLoad v name size segment p t = (some p', t')) :
    p'.object = { p.object with
      segments := p.object.segments ++ [placedSegment p.object.bias segment] } ∧
    (∀ ext E sh, Ready ext E sh t → Changed ext E sh t t' ∧
      SameOutside (InRanges [placedSegment p.object.bias segment]) t.view t'.view) := by
  obtain ⟨t₁, hfits, hcovers, hend, -, hmap, hcopy, hobject⟩ := mapLoad_run hsize h
  refine ⟨hobject, fun ext E sh hr => ?_⟩
  have hfile := hfits.file
  obtain ⟨hc, hv⟩ := mapEach_some _ hr hmap
  have hinside : ∀ i, i < segment.fileSize → InRanges [placedSegment p.object.bias segment]
      (alignDown (segmentStart p.object.bias segment + i)) := fun i hi =>
    ⟨_, mem_singleton_self _, hfits.covers _ ⟨Nat.le_add_right _ i, by omega⟩⟩
  obtain ⟨hc', hv'⟩ := copySegment_some hc.ready (by omega) hinside hcopy
  refine ⟨hc.trans hc', (hv.mono fun page hpage => ⟨_, mem_singleton_self _, ?_⟩).trans hv'⟩
  have hself : alignDown page = page := alignDown_eq (mem_pageRange hpage (alignDown_mod _)).1
  rw [← hself] at hpage ⊢
  exact (hcovers page).2 hpage

/-- A header of another type adds no range and changes no memory. -/
theorem mapSegment_other
    (htype : segment.type ≠ elfPtLoad) (h : mapSegment v name size segment p t = (some p', t')) :
    p'.object.name = p.object.name ∧ p'.object.bias = p.object.bias ∧
      p'.object.segments = p.object.segments ∧ t' = t := by
  rw [mapSegment] at h
  split at h
  · obtain ⟨rfl, rfl⟩ := pure_some.1 h
    exact ⟨rfl, rfl, rfl, rfl⟩
  split at h
  · obtain ⟨_, t₂, hcheck, hpure⟩ := bind_some.1 h
    obtain ⟨_, rfl⟩ := check_some.1 hcheck
    obtain ⟨rfl, rfl⟩ := pure_some.1 hpure
    exact ⟨rfl, rfl, rfl, rfl⟩
  split at h
  · obtain ⟨rfl, rfl⟩ := pure_some.1 h
    exact ⟨rfl, rfl, rfl, rfl⟩
  · obtain ⟨rfl, rfl⟩ := pure_some.1 h
    exact ⟨rfl, rfl, rfl, rfl⟩

theorem mapSegment_load
    (htype : segment.type = elfPtLoad) :
    mapSegment v name size segment p = mapLoad v name size segment p := by
  rw [mapSegment, if_neg (by rw [htype]; decide), if_neg (by rw [htype]; decide),
    if_neg (by rw [htype]; decide), if_neg (not_not.2 htype)]

/-! ### The object -/

theorem field_lt (bytes : List UInt8) (offset width : ℕ) : field bytes offset width < 256 ^ width := by
  have hlen : ((bytes.drop offset).take width).length ≤ width := by
    rw [length_take]
    omega
  exact lt_of_lt_of_le (leValue_lt _) (Nat.pow_le_pow_right (by decide) hlen)

/-- The fields of a program header are words. -/
theorem readHeaders_sizes {header : Elf64Header} {segments : List Elf64ProgramHeader}
    (h : readHeaders v name = some (size, header, segments)) :
    ∀ segment ∈ segments, segment.memorySize < 2 ^ 64 := by
  rw [readHeaders] at h
  split at h
  · cases h
  split at h
  · cases h
  split at h
  · cases h
  simp only at h
  split at h
  · cases h
  split at h
  · cases h
  · cases h
    intro segment hsegment
    obtain ⟨index, _, rfl⟩ := mem_map.1 hsegment
    exact field_lt _ 40 8

/-- What a call of `map_elf_object` that succeeded has done: it read the headers, mapped the segments
and read the dynamic section. -/
theorem mapElfObject_run {requestedBias maximumEnd : ℕ} {entryOut interpreterOut : Bool}
    {mapped : Mapped}
    (h : mapElfObject v name requestedBias entryOut interpreterOut maximumEnd t = (some mapped, t')) :
    ∃ size header segments p, readHeaders v name = some (size, header, segments) ∧
      findInterpreter v name size interpreterOut segments [] = some mapped.interpreter ∧
      mapSegments v name size segments ⟨{ ElfLoadedObject.zero with
        name := name.take 95, bias := objectBias header requestedBias }, maximumEnd, false⟩ t =
          (some p, t') ∧
      parseDynamicObject t' p.object = some mapped.object := by
  obtain ⟨⟨size, header, segments⟩, t₁, hread, h⟩ := bind_some.1 h
  obtain ⟨hheaders, rfl⟩ := reads_some.1 hread
  obtain ⟨interpreter, t₁, hfind, h⟩ := bind_some.1 h
  obtain ⟨hinterpreter, rfl⟩ := reads_some.1 hfind
  obtain ⟨_, t₁, hexists, h⟩ := bind_some.1 h
  obtain ⟨_, rfl⟩ := check_some.1 hexists
  obtain ⟨p, t₁, hsegments, h⟩ := bind_some.1 h
  obtain ⟨_, t₂, htls, h⟩ := bind_some.1 h
  obtain rfl : t₁ = t₂ := by
    rcases onlyIf_some.1 htls with ⟨_, hmapped⟩ | ⟨_, hsame⟩
    · exact (reads_some.1 hmapped).2
    · exact hsame
  obtain ⟨_, t₂, hhas, h⟩ := bind_some.1 h
  obtain ⟨_, rfl⟩ := check_some.1 hhas
  obtain ⟨object, t₂, hparse, h⟩ := bind_some.1 h
  obtain ⟨hdynamic, rfl⟩ := reads_some.1 hparse
  obtain ⟨_, t₂, hentry, h⟩ := bind_some.1 h
  obtain ⟨_, rfl⟩ := check_some.1 hentry
  obtain ⟨rfl, rfl⟩ := pure_some.1 h
  exact ⟨size, header, segments, p, hheaders, hinterpreter, hsegments, hdynamic⟩

end MapObject

end NovaOS.Loader
