import NovaOS.Fs.Users

/-!
# Writes on a table whose extents are apart

What a write does to the table and to the disk when its extent lies on the disk, as equations: the
entry that results is a function of the table alone (`placed`, `written`), and the disk changes inside
that entry's extent only.

* `PlaceOk` and `ExtentsOk.placed` — a good place for a file of some sectors;
* `ExtentsOk.writeEntryData` — a whole file;
* `FitsAt`, `writeEntryAt_refused`, `ExtentsOk.writeEntryAt` — a positioned write;
* `writeEntryData_cases`, `writeEntryAt_cases` — the outcomes of both on a volume that meets `VolumeOk`:
  the file is too large or does not fit, or it holds what was written;
* `writeEntryData_entries`, `fsWrite_created` — the header is kept, in every case.
-/

-- `omega` multiplies constraints by the sector size
set_option maxRecDepth 2000

namespace NovaOS.Fs

open Function Nat

/-- The entry with an extent of at least `required` sectors. -/
def placed (v : Volume) (index required : ℕ) : FsEntry :=
  if (v.entries index).capacitySectors < required then
    { v.entries index with startLba := nextDataLba v, capacitySectors := required }
  else v.entries index

/-- A good place for an entry. -/
structure PlaceOk (v : Volume) (index required : ℕ) (e : FsEntry) : Prop where
  low : 4608 ≤ e.startLba
  inside : e.startLba + e.capacitySectors ≤ v.totalSectors
  size : e.size ≤ e.capacitySectors * 512
  covers : required ≤ e.capacitySectors
  apart : ∀ j, j < 1024 → j ≠ index → (v.entries j).used = true → Apart e (v.entries j)

section Writes

variable {v : Volume} {index required : ℕ} {disk : ℕ → ℕ → UInt8}

theorem ExtentsOk.nextDataLba_spec (h : ExtentsOk v) :
    4608 ≤ nextDataLba v ∧ ∀ i, i < 1024 → (v.entries i).used = true →
      (v.entries i).startLba + (v.entries i).capacitySectors ≤ nextDataLba v := by
  obtain ⟨hle, hall⟩ := foldl_next v (List.range' 0 1024) 4608
  refine ⟨hle, fun i hi hu => hall i (List.mem_range'_1.2 ⟨zero_le i, by omega⟩) hu ?_⟩
  have hin := h.inside i hi hu
  have htotal := h.total
  omega

theorem ExtentsOk.placed (h : ExtentsOk v) (hindex : index < 1024)
    (hused : (v.entries index).used = true) (hpos : 1 ≤ required)
    (hfit : (v.entries index).capacitySectors < required →
      nextDataLba v + required ≤ v.totalSectors) :
    PlaceOk v index required (placed v index required) := by
  obtain ⟨hlow, hnext⟩ := h.nextDataLba_spec
  have hsize := h.size index hindex hused
  rw [Fs.placed]
  generalize nextDataLba v = next at hlow hnext hfit ⊢
  split
  · next hcap =>
    exact ⟨hlow, hfit hcap, Nat.le_trans hsize (mul_le_mul_right _ (le_of_lt hcap)),
      le_refl _, fun j hj _ hu _ _ => .inr (hnext j hj hu)⟩
  · next hcap =>
    exact ⟨h.low index hindex hused (by omega), h.inside index hindex hused, hsize,
      Nat.le_of_not_lt hcap,
      fun j hj hne hu => h.apart index j hindex hj (Ne.symm hne) hused hu⟩

/-- Saving an entry leaves the data area. -/
theorem saveEntry_outside (hlarge : 4608 + 128 < v.totalSectors)
    (hsmall : v.totalSectors ≤ 0x10000000) (hindex : index < 1024) {start disk₀ : _} {e : FsEntry}
    (hstart : 4608 ≤ start) (hout : VolumeOk.Outside disk₀ v.disk e) (size : ℕ) :
    ∃ disk', saveEntry v index = (true, { v with disk := disk' }) ∧
      VolumeOk.Outside disk₀ disk' e ∧
      readBytes (flat 512 disk') (start * 512) size = readBytes (flat 512 v.disk) (start * 512) size := by
  obtain ⟨disk', hsave, hsame⟩ := saveEntry_eq v hlarge hsmall hindex
  refine ⟨disk', hsave, fun i hi hi' => (hsame i hi).trans (hout i hi hi'), ?_⟩
  apply readBytes_congr
  intro i _
  exact hsame _ (by omega)

/-- **`write_entry_data`** with room for the data. -/
theorem ExtentsOk.writeEntryData (h : ExtentsOk v) (hlarge : 4608 + 128 < v.totalSectors)
    (hsmall : v.totalSectors ≤ 0x10000000) (hindex : index < 1024)
    (hused : (v.entries index).used = true) (data : List UInt8)
    (hlen : data.length + 511 < 2 ^ 64) (hcount : requiredSectors data.length ≤ 0xFFFFFFFF)
    (hfit : (v.entries index).capacitySectors < requiredSectors data.length →
      nextDataLba v + requiredSectors data.length ≤ v.totalSectors) :
    ∃ disk', writeEntryData v index data = (true, { v.setEntry index
        (written (Fs.placed v index (requiredSectors data.length)) data.length) with
          disk := disk' }) ∧
      VolumeOk.Outside v.disk disk' (Fs.placed v index (requiredSectors data.length)) ∧
      readBytes (flat 512 disk')
        ((Fs.placed v index (requiredSectors data.length)).startLba * 512) data.length = data := by
  obtain ⟨hpos, hle, -⟩ := requiredSectors_spec hlen
  have hplace := h.placed hindex hused hpos hfit
  rw [Fs.writeEntryData, if_neg (Nat.not_lt_of_le hcount)]
  rw [show (if (v.entries index).capacitySectors < requiredSectors data.length then
      { v.entries index with
        startLba := nextDataLba v, capacitySectors := requiredSectors data.length }
      else v.entries index) = Fs.placed v index (requiredSectors data.length) from rfl]
  generalize Fs.placed v index (requiredSectors data.length) = e at hplace ⊢
  generalize requiredSectors data.length = required at hle hplace ⊢
  have hcovers := hplace.covers
  have hinside := hplace.inside
  obtain ⟨disk₁, hrun, hflat⟩ := writeBlocks_eq e.startLba hsmall required 0 data v.disk (by omega)
  rw [if_neg (show ¬e.startLba + required > (v.setEntry index e).totalSectors from
    Nat.not_lt_of_le (Nat.le_trans (Nat.add_le_add_left hcovers _) hinside))]
  rw [show writeBlocks (v.setEntry index e).totalSectors e.startLba required 0 data
    (v.setEntry index e).disk = (true, disk₁) from hrun]
  simp only
  rw [Volume.setEntry_setEntry]
  have hout : VolumeOk.Outside v.disk disk₁ e := by
    intro i _ hi
    rw [hflat, add_zero, splice_of_outside (by omega)]
  obtain ⟨disk', hsave, hout', hbytes⟩ := saveEntry_outside
    (v := { v.setEntry index (written e data.length) with disk := disk₁ }) hlarge hsmall hindex
    hplace.low hout data.length
  refine ⟨disk', hsave, hout', hbytes.trans ?_⟩
  apply ext_getD length_readBytes
  intro i hi
  rw [getD_readBytes hi, hflat, add_zero, splice_of_inside (by omega) (by omega),
    Nat.add_sub_cancel_left]

/-- **Growing an extent** keeps the file. -/
theorem ExtentsOk.growExtent (h : ExtentsOk v) (hsmall : v.totalSectors ≤ 0x10000000)
    (hindex : index < 1024) (hused : (v.entries index).used = true)
    (hfit : (v.entries index).capacitySectors < required →
      nextDataLba v + required ≤ v.totalSectors) :
    ∃ disk', growExtent v index required =
        (true, { v.setEntry index (Fs.placed v index required) with disk := disk' }) ∧
      VolumeOk.Outside v.disk disk' (Fs.placed v index required) ∧
      fileBytes disk' (Fs.placed v index required) = fileBytes v.disk (v.entries index) := by
  obtain ⟨hlow, hnext⟩ := h.nextDataLba_spec
  have hend := hnext index hindex hused
  have hsize := h.size index hindex hused
  rw [Fs.growExtent, Fs.placed]
  by_cases hcap : (v.entries index).capacitySectors < required
  · have hroom := hfit hcap
    simp only [if_pos hcap]
    generalize nextDataLba v = next at hlow hnext hend hroom ⊢
    have hstart : 0 < (v.entries index).capacitySectors → (v.entries index).startLba ≠ 0 := by
      intro hpos
      have := h.low index hindex hused hpos
      omega
    obtain ⟨disk', hrun, hflat⟩ := relocateBlocks_eq hsmall hstart hend required 0 v.disk
      (by omega) (fun i _ => rfl)
    simp only [add_zero, zero_mul, zero_add] at hflat
    rw [if_neg (by omega), hrun]
    refine ⟨disk', rfl, fun i _ hi => ?_, ?_⟩
    · have hi' : i < next * 512 ∨ (next + required) * 512 ≤ i := hi
      rw [hflat, splice_of_outside (by omega)]
    · apply readBytes_congr
      intro i hi
      have hi' : i < (v.entries index).size := hi
      show flat 512 disk' (next * 512 + i) = _
      rw [hflat, splice_of_inside (by omega) (by omega), Nat.add_sub_cancel_left, relocated,
        if_pos (by omega)]
  · simp only [if_neg hcap]
    refine ⟨v.disk, ?_, fun _ _ _ => rfl, rfl⟩
    rw [Volume.setEntry, update_eq_self]

/-- A file of `size` bytes fits at an entry, where it is or at the free tail of the disk. -/
def FitsAt (v : Volume) (index size : ℕ) : Prop :=
  requiredSectors size ≤ 0xFFFFFFFF ∧
    ((v.entries index).capacitySectors < requiredSectors size →
      nextDataLba v + requiredSectors size ≤ v.totalSectors)

theorem writeEntryAt_refused {offset : ℕ} {data : List UInt8}
    (h : ¬FitsAt v index (max (offset + data.length) (v.entries index).size)) :
    writeEntryAt v index offset data = (false, v) := by
  rw [Fs.writeEntryAt]
  split
  · rfl
  · next hcount =>
    have hroom : (v.entries index).capacitySectors <
          requiredSectors (max (offset + data.length) (v.entries index).size) ∧
        nextDataLba v + requiredSectors (max (offset + data.length) (v.entries index).size) >
          v.totalSectors := by
      rw [FitsAt] at h
      constructor
      · apply Nat.lt_of_not_le
        intro hle
        exact h ⟨Nat.le_of_not_lt hcount, fun hcap => absurd hle (Nat.not_le_of_lt hcap)⟩
      · apply Nat.lt_of_not_le
        intro hle
        exact h ⟨Nat.le_of_not_lt hcount, fun _ => hle⟩
    rw [Fs.growExtent]
    simp only [if_pos hroom.1, if_pos hroom.2]

/-- **`fs_write_at`** on an entry, with room: the old bytes have the data over them. -/
theorem ExtentsOk.writeEntryAt (h : ExtentsOk v) (hlarge : 4608 + 128 < v.totalSectors)
    (hsmall : v.totalSectors ≤ 0x10000000) (hindex : index < 1024)
    (hused : (v.entries index).used = true) (offset : ℕ) (data : List UInt8)
    (hlen : offset + data.length + 511 < 2 ^ 64) {newSize : ℕ}
    (hnew : newSize = max (offset + data.length) (v.entries index).size)
    (hfits : FitsAt v index newSize) :
    ∃ disk', writeEntryAt v index offset data = (true, { v.setEntry index
        (written (Fs.placed v index (requiredSectors newSize)) newSize) with disk := disk' }) ∧
      VolumeOk.Outside v.disk disk' (Fs.placed v index (requiredSectors newSize)) ∧
      readBytes (flat 512 disk') ((Fs.placed v index (requiredSectors newSize)).startLba * 512)
        newSize = overwrite (fileBytes v.disk (v.entries index)) offset data := by
  have hinside := h.inside index hindex hused
  have hsize := h.size index hindex hused
  have hround : newSize + 511 < 2 ^ 64 := by omega
  obtain ⟨hpos, hcovers, -⟩ := requiredSectors_spec hround
  have hplace := h.placed hindex hused hpos hfits.2
  obtain ⟨disk₁, hgrow, hout₁, hbytes₁⟩ := h.growExtent hsmall hindex hused hfits.2
  have hkept : (Fs.placed v index (requiredSectors newSize)).size = (v.entries index).size := by
    rw [Fs.placed]
    split
    · rfl
    · rfl
  rw [Fs.writeEntryAt, ← hnew]
  rw [if_neg (Nat.not_lt_of_le hfits.1), hgrow]
  generalize Fs.placed v index (requiredSectors newSize) = e at hplace hout₁ hbytes₁ hkept ⊢
  generalize requiredSectors newSize = required at hcovers hplace
  simp only
  have hself : (v.setEntry index e).entries index = e := v.setEntry_self index e
  have hroom := hplace.covers
  have hin : ((v.setEntry index e).entries index).startLba +
      ((v.setEntry index e).entries index).capacitySectors ≤ v.totalSectors := by
    rw [hself]
    exact hplace.inside
  have hfit : offset + data.length ≤ ((v.setEntry index e).entries index).capacitySectors * 512 := by
    rw [hself]
    omega
  obtain ⟨disk₂, hfill, hout₂, hcontent⟩ := fillExtent_eq
    (v := { v.setEntry index e with disk := disk₁ }) hsmall hin offset data hfit
  simp only [hself] at hout₂ hcontent
  rw [hfill]
  simp only [hself]
  have hset := Volume.setEntry_setEntry v index e (written e newSize) disk₂
  rw [written] at hset
  rw [hset]
  have hout : VolumeOk.Outside v.disk disk₂ e := fun i hi hi' =>
    (hout₂ i hi hi').trans (hout₁ i hi hi')
  obtain ⟨disk', hsave, hout', hbytes⟩ := saveEntry_outside
    (v := { v.setEntry index (written e newSize) with disk := disk₂ }) hlarge hsmall hindex
    hplace.low hout newSize
  refine ⟨disk', hsave, hout', hbytes.trans ?_⟩
  rw [hkept, ← hnew, hbytes₁] at hcontent
  exact hcontent

section

variable (h : VolumeOk v) (hindex : index < 1024) (hused : (v.entries index).used = true)

include h hindex hused

/-- The sectors of an entry changed: it holds `bytes`, and the rest is what it was. -/
theorem VolumeOk.rewritten {size : ℕ} {bytes : List UInt8}
    (hplace : PlaceOk v index required (Fs.placed v index required)) (hsize : size ≤ required * 512)
    (hout : Outside v.disk disk (Fs.placed v index required))
    (hbytes : readBytes (flat 512 disk) ((Fs.placed v index required).startLba * 512) size = bytes) :
    Becomes v { v.setEntry index (written (Fs.placed v index required) size) with disk := disk } index
      (some ((v.entries index).name, { nodeOf v.disk (v.entries index) with bytes := bytes })) := by
  obtain ⟨start, capacity, he⟩ : ∃ start capacity, Fs.placed v index required =
      { v.entries index with startLba := start, capacitySectors := capacity } := by
    rw [Fs.placed]
    split
    · exact ⟨_, _, rfl⟩
    · exact ⟨_, _, rfl⟩
  rw [he] at hplace hout hbytes ⊢
  have hold := h.entry index hindex hused
  rw [← hbytes]
  exact h.becomes (written { v.entries index with startLba := start, capacitySectors := capacity } size)
    disk hindex hused ⟨hold.name, hold.flags, fun _ => hplace.low, hplace.inside,
      le_trans hsize (mul_le_mul_right _ hplace.covers)⟩ (h.name_ne hindex hused) hplace.apart
    hout

theorem writeEntryData_cases (data : List UInt8)
    (hlen : data.length + 511 < 2 ^ 64) :
    (0xFFFFFFFF < requiredSectors data.length ∧ writeEntryData v index data = (false, v)) ∨
    ((v.entries index).capacitySectors < requiredSectors data.length ∧
      v.totalSectors < nextDataLba v + requiredSectors data.length ∧
      (writeEntryData v index data).1 = false) ∨
    ∃ v', writeEntryData v index data = (true, v') ∧
      Becomes v v' index (some ((v.entries index).name,
        { nodeOf v.disk (v.entries index) with bytes := data })) := by
  obtain ⟨hpos, hle, -⟩ := requiredSectors_spec hlen
  by_cases hbig : requiredSectors data.length > 0xFFFFFFFF
  · exact .inl ⟨hbig, if_pos hbig⟩
  right
  by_cases hfull : (v.entries index).capacitySectors < requiredSectors data.length ∧
      v.totalSectors < nextDataLba v + requiredSectors data.length
  · refine .inl ⟨hfull.1, hfull.2, ?_⟩
    rw [writeEntryData, if_neg hbig]
    simp only [if_pos hfull.1]
    rw [if_pos (show nextDataLba v + requiredSectors data.length >
      (v.setEntry index _).totalSectors from hfull.2)]
  · have hfit : (v.entries index).capacitySectors < requiredSectors data.length →
        nextDataLba v + requiredSectors data.length ≤ v.totalSectors := fun hcap =>
      Nat.le_of_not_lt fun hroom => hfull ⟨hcap, hroom⟩
    obtain ⟨disk', hwrite, hout, hbytes⟩ := h.extentsOk.writeEntryData h.large h.small hindex hused data
      hlen (Nat.le_of_not_lt hbig) hfit
    exact .inr ⟨_, hwrite, h.rewritten hindex hused (h.extentsOk.placed hindex hused hpos hfit) hle hout
      hbytes⟩

theorem writeEntryAt_cases (offset : ℕ) (data : List UInt8)
    (hlen : max (offset + data.length) (v.entries index).size + 511 < 2 ^ 64) :
    let required := requiredSectors (max (offset + data.length) (v.entries index).size)
    ((0xFFFFFFFF < required ∨ (v.entries index).capacitySectors < required ∧
        v.totalSectors < nextDataLba v + required) ∧
      writeEntryAt v index offset data = (false, v)) ∨
    ∃ v', writeEntryAt v index offset data = (true, v') ∧
      Becomes v v' index (some ((v.entries index).name,
        { nodeOf v.disk (v.entries index) with
          bytes := overwrite (fileBytes v.disk (v.entries index)) offset data })) := by
  obtain ⟨hpos, hle, -⟩ := requiredSectors_spec hlen
  by_cases hfits : FitsAt v index (max (offset + data.length) (v.entries index).size)
  · obtain ⟨disk', hwrite, hout, hbytes⟩ := h.extentsOk.writeEntryAt h.large h.small hindex hused offset
      data (by omega) rfl hfits
    exact .inr ⟨_, hwrite, h.rewritten hindex hused (h.extentsOk.placed hindex hused hpos hfits.2) hle
      hout hbytes⟩
  · refine .inl ⟨?_, writeEntryAt_refused hfits⟩
    rw [FitsAt, not_and_or, Classical.not_imp] at hfits
    exact hfits.imp Nat.lt_of_not_le fun hfull => ⟨hfull.1, Nat.lt_of_not_le hfull.2⟩

end

end Writes

/-- `write_entry_data` changes one entry, and not its header. -/
theorem writeEntryData_entries (v : Volume) (index : ℕ) (data : List UInt8) :
    ∃ e, (e.used = (v.entries index).used ∧ e.name = (v.entries index).name ∧
        e.type = (v.entries index).type ∧ e.owner = (v.entries index).owner) ∧
      (writeEntryData v index data).2.entries = update v.entries index e := by
  rw [writeEntryData]
  split
  · exact ⟨v.entries index, ⟨rfl, rfl, rfl, rfl⟩, (update_eq_self index v.entries).symm⟩
  simp only
  obtain ⟨e, he⟩ : ∃ e, e = placed v index (requiredSectors data.length) := ⟨_, rfl⟩
  have hheader : e.used = (v.entries index).used ∧ e.name = (v.entries index).name ∧
      e.type = (v.entries index).type ∧ e.owner = (v.entries index).owner := by
    rw [he, placed]
    split
    · exact ⟨rfl, rfl, rfl, rfl⟩
    · exact ⟨rfl, rfl, rfl, rfl⟩
  rw [placed] at he
  rw [← he]
  split
  · exact ⟨e, hheader, rfl⟩
  · split
    · exact ⟨e, hheader, rfl⟩
    · rw [saveEntry_entries]
      exact ⟨written e data.length, hheader, update_idem ..⟩

/-- An entry that `fs_write` has made is a file of its caller. -/
theorem fsWrite_created {v : Volume} {index : ℕ} {name : Name} {data : List UInt8}
    (hnone : findEntry v name = none)
    (hfind : findEntry (fsWrite v name data).2 name = some index) :
    ((fsWrite v name data).2.entries index).type = .file ∧
      ((fsWrite v name data).2.entries index).owner = v.currentUid := by
  have hcases : (fsWrite v name data).2 = v ∨
      ∃ i e, (fsWrite v name data).2.entries = update v.entries i e ∧ e.type = .file ∧
        e.owner = v.currentUid := by
    rw [fsWrite]
    split
    · exact .inl rfl
    rw [openWrite, hnone]
    obtain hrefused | ⟨i, -, -, -, -, -, hmade⟩ := allocateEntry_outcome v name .file 0o660
    · simp only [hrefused]
      exact .inl trivial
    · simp only [hmade]
      right
      split
      · exact ⟨i, _, rfl, rfl, rfl⟩
      · obtain ⟨e, ⟨-, -, htype, howner⟩, hentries⟩ :=
          writeEntryData_entries (v.setEntry i (newEntry v name .file 0o660)) i data
        rw [v.setEntry_self] at htype howner
        exact ⟨i, e, hentries.trans (update_idem ..), htype, howner⟩
  obtain hsame | ⟨i, e, hentries, htype, howner⟩ := hcases
  · rw [hsame, hnone] at hfind
    cases hfind
  · obtain ⟨hindex, hused, hname⟩ := findEntry_some hfind
    rw [hentries] at hused hname ⊢
    by_cases hi : index = i
    · rw [hi, update_self]
      exact ⟨htype, howner⟩
    · -- no other entry has the name
      rw [update_of_ne hi] at hused hname
      exact absurd hname (findEntry_none hnone hindex hused)

end NovaOS.Fs
