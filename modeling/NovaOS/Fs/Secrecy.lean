import NovaOS.Fs.Placement
import NovaOS.Lib.Runs

/-!
# What an unprivileged user cannot learn

Two volumes with one entry table look alike to a user who makes the same calls on both, whatever the
sectors hold that the user may not read.

* `Visible u e` — a link, or a file that `u` owns or that others may read;
* `Alike u v w` — one table, and the bytes of what is visible agree;
* `Alike.call` — a call whose new extent ends on the disk gives the same reply on both and leaves them
  alike;
* **`replies_alike`** — so does every run of such calls;
* `failed_write_shows_free_sector` — a write that does not fit moves the file to sectors that were
  never written for it, and the next read returns what they held.
-/

-- `omega` multiplies constraints by the sector size
set_option maxRecDepth 2000

namespace NovaOS.Fs

open Nat

/-! ### Reading one table on two disks -/

section Reading

variable {total start : ℕ} {disk disk' : ℕ → ℕ → UInt8}

/-- The bytes of a sector that a round of the reading loop copies. -/
theorem readBytes_sector {position remaining : ℕ}
    (hin : start * 512 + position + remaining ≤ 2 ^ 32 * 512)
    (hsame : ∀ i, i < remaining →
      flat 512 disk' (start * 512 + position + i) = flat 512 disk (start * 512 + position + i))
    {chunk : ℕ} (hchunk : chunk ≤ remaining) (hsector : position % 512 + chunk ≤ 512)
    (hpos : 0 < chunk) :
    readBytes (disk' ((start + position / 512) % 2 ^ 32)) (position % 512) chunk =
      readBytes (disk ((start + position / 512) % 2 ^ 32)) (position % 512) chunk := by
  rw [mod_eq_of_lt (by omega)]
  apply readBytes_congr
  intro i hi
  have hi' := hsame i (by omega)
  rw [extent_place, add_assoc, flat_apply (by omega), flat_apply (by omega)] at hi'
  exact hi'

theorem ataReadSector_cases (total lba : ℕ) :
    (∀ disk, ataReadSector total disk lba = none) ∨
      ∀ disk : ℕ → ℕ → UInt8, ataReadSector total disk lba = some (disk lba) := by
  by_cases h : (lba ≥ total || lba ≥ 0x10000000) = true
  · exact .inl fun disk => if_pos h
  · exact .inr fun disk => if_neg h

theorem readLoop_congr (total start fuel position remaining : ℕ)
    (hin : start * 512 + position + remaining ≤ 2 ^ 32 * 512)
    (hsame : ∀ i, i < remaining →
      flat 512 disk' (start * 512 + position + i) = flat 512 disk (start * 512 + position + i)) :
    readLoop total disk' start fuel position remaining =
        readLoop total disk start fuel position remaining ∧
      copiedBytes total disk' start fuel position remaining =
        copiedBytes total disk start fuel position remaining := by
  induction fuel generalizing position remaining with
  | zero => exact ⟨rfl, rfl⟩
  | succ fuel ih =>
    rw [readLoop, readLoop, copiedBytes, copiedBytes]
    by_cases hr : remaining = 0
    · simp only [if_pos hr, and_self]
    · obtain hnone | hsome := ataReadSector_cases total ((start + position / 512) % 2 ^ 32)
      · simp only [hnone, and_self]
      · have hchunk : 0 < min remaining (512 - position % 512) ∧
            position % 512 + min remaining (512 - position % 512) ≤ 512 ∧
            min remaining (512 - position % 512) ≤ remaining := by omega
        have hbytes := readBytes_sector hin hsame hchunk.2.2 hchunk.2.1 hchunk.1
        obtain ⟨hloop, hcopied⟩ := ih (position + min remaining (512 - position % 512))
          (remaining - min remaining (512 - position % 512)) (by omega) (by
            intro i hi
            have hi' := hsame (min remaining (512 - position % 512) + i) (by omega)
            simpa only [add_assoc] using hi')
        simp only [hsome, hbytes, hloop, hcopied, and_self]

end Reading

/-! ### Volumes that look alike -/

/-- A link, or a file that `u` owns or that others may read. -/
def Visible (u : ℕ) (e : FsEntry) : Prop :=
  e.type = .symlink ∨ e.type = .file ∧ (e.owner = u ∨ entryMode e &&& 0o004 ≠ 0)

/-- One entry table on two disks that agree on what `u` may see. -/
structure Alike (u : ℕ) (v w : Volume) : Prop where
  extents : ExtentsOk v
  large : 4608 + 128 < v.totalSectors
  small : v.totalSectors ≤ 0x10000000
  acts : ActsAs u v
  acts' : ActsAs u w
  mounted : w.mounted = v.mounted
  total : w.totalSectors = v.totalSectors
  entries : w.entries = v.entries
  bytes : ∀ i, i < 1024 → (v.entries i).used = true → Visible u (v.entries i) →
    fileBytes w.disk (v.entries i) = fileBytes v.disk (v.entries i)

section Alike

variable {u index : ℕ} {v w : Volume} {e : FsEntry} {name : Name} {data : List UInt8}
  {disk disk' : ℕ → ℕ → UInt8}

theorem ActsAs.visible (h : ActsAs u v) (htype : e.type = .file) (hread : mayRead v e = true) :
    Visible u e := by
  rw [mayRead, h.unprivileged, if_neg Bool.false_ne_true, h.uid] at hread
  refine .inr ⟨htype, ?_⟩
  split at hread
  · next howner => exact .inl howner.symm
  · exact .inr (bne_iff_ne.1 hread)

section

variable (h : Alike u v w)

include h

theorem Alike.findEntry (name : Name) : findEntry w name = findEntry v name := by
  rw [Fs.findEntry, Fs.findEntry, h.entries]

theorem Alike.nextDataLba : nextDataLba w = nextDataLba v := by
  rw [Fs.nextDataLba, Fs.nextDataLba, h.entries]

theorem Alike.mayRead (e : FsEntry) : mayRead w e = mayRead v e := by
  rw [Fs.mayRead, Fs.mayRead, h.acts.unprivileged, h.acts'.unprivileged, h.acts.uid, h.acts'.uid]

theorem Alike.mayWrite (e : FsEntry) : mayWrite w e = mayWrite v e := by
  rw [Fs.mayWrite, Fs.mayWrite, h.acts.unprivileged, h.acts'.unprivileged, h.acts.uid, h.acts'.uid]

theorem Alike.readEntryData (hindex : index < 1024)
    (hused : (v.entries index).used = true) (hvisible : Visible u (v.entries index))
    (offset capacity : ℕ) :
    readEntryData w (v.entries index) offset capacity =
        readEntryData v (v.entries index) offset capacity ∧
      entryBuffer w (v.entries index) offset capacity =
        entryBuffer v (v.entries index) offset capacity := by
  have hsame : ∀ i, i < (v.entries index).size →
      flat 512 w.disk ((v.entries index).startLba * 512 + i) =
        flat 512 v.disk ((v.entries index).startLba * 512 + i) := by
    intro i hi
    have hbytes := congrArg (fun bytes => bytes.getD i 0) (h.bytes index hindex hused hvisible)
    simp only [fileBytes, getD_readBytes hi] at hbytes
    exact hbytes
  have hinside := h.extents.inside index hindex hused
  have hsize := h.extents.size index hindex hused
  have hsmall := h.small
  rw [Fs.readEntryData, Fs.readEntryData, readRawData, readRawData, entryBuffer, entryBuffer, h.total]
  by_cases hoff : offset ≥ (v.entries index).size
  · simp only [if_pos hoff, and_self]
  · have hcap : offset + (if capacity > (v.entries index).size - offset then
        (v.entries index).size - offset else capacity) ≤ (v.entries index).size := by
      split
      · omega
      · omega
    simp only [if_neg hoff]
    generalize (if capacity > (v.entries index).size - offset then (v.entries index).size - offset
      else capacity) = count at hcap ⊢
    have hbytes : ∀ i, i < count →
        flat 512 w.disk ((v.entries index).startLba * 512 + offset + i) =
          flat 512 v.disk ((v.entries index).startLba * 512 + offset + i) := by
      intro i hi
      have hi' := hsame (offset + i) (by omega)
      rwa [← add_assoc] at hi'
    obtain ⟨hloop, hcopied⟩ := readLoop_congr v.totalSectors (v.entries index).startLba count
      offset count (by omega) hbytes
    rw [hloop, hcopied]
    exact ⟨rfl, rfl⟩

theorem Alike.resolveLoop (depth : ℕ) (path : Name) :
    resolveLoop w depth path = resolveLoop v depth path := by
  induction depth generalizing path with
  | zero => rfl
  | succ depth ih =>
    rw [Fs.resolveLoop, Fs.resolveLoop, h.findEntry]
    cases hfind : Fs.findEntry v path with
    | none => rfl
    | some i =>
      obtain ⟨hi, hused, -⟩ := findEntry_some hfind
      simp only [h.entries]
      by_cases htype : (v.entries i).type = .symlink
      · rw [if_neg (not_not_intro htype), if_neg (not_not_intro htype),
          (h.readEntryData hi hused (.inl htype) 0 _).1]
        simp only [ih]
      · rw [if_pos htype, if_pos htype]

theorem Alike.resolveEntry (name : Name) :
    resolveEntry w name = resolveEntry v name := h.resolveLoop 8 name

/-- One entry is replaced on both, and the disks change outside the directory only in its extent. -/
theorem Alike.replace {e : FsEntry}
    (hlow : e.used = true → 0 < e.capacitySectors → 4608 ≤ e.startLba)
    (hinside : e.used = true → e.startLba + e.capacitySectors ≤ v.totalSectors)
    (hsize : e.used = true → e.size ≤ e.capacitySectors * 512)
    (hapart : e.used = true → ∀ j, j < 1024 → j ≠ index → (v.entries j).used = true →
      Apart e (v.entries j))
    (hdisk : ∀ j, j < 1024 → j ≠ index → (v.entries j).used = true →
      fileBytes disk (v.entries j) = fileBytes v.disk (v.entries j))
    (hdisk' : ∀ j, j < 1024 → j ≠ index → (v.entries j).used = true →
      fileBytes disk' (v.entries j) = fileBytes w.disk (v.entries j))
    (hbytes : e.used = true → Visible u e → fileBytes disk' e = fileBytes disk e) :
    Alike u { v.setEntry index e with disk := disk } { w.setEntry index e with disk := disk' } := by
  refine ⟨⟨h.extents.mounted, h.extents.total, ?_, ?_, ?_, ?_⟩, h.large, h.small,
    ⟨h.acts.uid, h.acts.unprivileged⟩, ⟨h.acts'.uid, h.acts'.unprivileged⟩, h.mounted, h.total, ?_, ?_⟩
  · exact Volume.forall_setEntry (P := fun i e => i < 1024 → e.used = true → 0 < e.capacitySectors →
      4608 ≤ e.startLba) (fun _ => hlow) fun i _ => h.extents.low i
  · exact Volume.forall_setEntry (P := fun i e => i < 1024 → e.used = true →
      e.startLba + e.capacitySectors ≤ v.totalSectors) (fun _ => hinside) fun i _ => h.extents.inside i
  · exact Volume.forall_setEntry (P := fun i e => i < 1024 → e.used = true →
      e.size ≤ e.capacitySectors * 512) (fun _ => hsize) fun i _ => h.extents.size i
  · exact Volume.pairs_setEntry Apart.symm hapart h.extents.apart
  · simp only [Volume.setEntry, h.entries]
  · refine Volume.forall_setEntry (P := fun i e => i < 1024 → e.used = true → Visible u e →
      fileBytes disk' e = fileBytes disk e) (fun _ => hbytes) fun i hii hi hused hvisible => ?_
    rw [hdisk i hi hii hused, hdisk' i hi hii hused]
    exact h.bytes i hi hused hvisible

theorem Alike.extents' : ExtentsOk w := by
  refine ⟨h.mounted.trans h.extents.mounted, ?_, ?_, ?_, ?_, ?_⟩
  · rw [h.total]
    exact h.extents.total
  · rw [h.entries]
    exact h.extents.low
  · rw [h.entries, h.total]
    exact h.extents.inside
  · rw [h.entries]
    exact h.extents.size
  · rw [h.entries]
    exact h.extents.apart

theorem Alike.setEntry
    (hlow : e.used = true → 0 < e.capacitySectors → 4608 ≤ e.startLba)
    (hinside : e.used = true → e.startLba + e.capacitySectors ≤ v.totalSectors)
    (hsize : e.used = true → e.size ≤ e.capacitySectors * 512)
    (hapart : e.used = true → ∀ j, j < 1024 → j ≠ index → (v.entries j).used = true →
      Apart e (v.entries j))
    (hbytes : e.used = true → Visible u e → fileBytes w.disk e = fileBytes v.disk e) :
    Alike u (v.setEntry index e) (w.setEntry index e) := by
  exact h.replace hlow hinside hsize hapart (fun _ _ _ _ => rfl) (fun _ _ _ _ => rfl) hbytes

/-- The header of an entry changes, and not to something visible that was not visible before. -/
theorem Alike.setHeader (hindex : index < 1024)
    (hused : (v.entries index).used = true) (hstart : e.startLba = (v.entries index).startLba)
    (hcap : e.capacitySectors = (v.entries index).capacitySectors)
    (hsize : e.size = (v.entries index).size)
    (hvisible : Visible u e → Visible u (v.entries index)) :
    Alike u (v.setEntry index e) (w.setEntry index e) := by
  refine h.setEntry ?_ ?_ ?_ ?_ ?_
  · rw [hcap, hstart]
    exact fun _ => h.extents.low index hindex hused
  · rw [hcap, hstart]
    exact fun _ => h.extents.inside index hindex hused
  · rw [hcap, hsize]
    exact fun _ => h.extents.size index hindex hused
  · intro _ j hj hne hu
    have hapart := h.extents.apart index j hindex hj (Ne.symm hne) hused hu
    rw [Apart, ← hcap, ← hstart] at hapart
    exact hapart
  · intro _ hv
    rw [fileBytes, fileBytes, hstart, hsize]
    exact h.bytes index hindex hused (hvisible hv)

/-- The disks change below the data area only. -/
theorem Alike.directory
    (hdisk : ∀ i, 4608 * 512 ≤ i → flat 512 disk i = flat 512 v.disk i)
    (hdisk' : ∀ i, 4608 * 512 ≤ i → flat 512 disk' i = flat 512 w.disk i) :
    Alike u { v with disk := disk } { w with disk := disk' } := by
  refine ⟨⟨h.extents.mounted, h.extents.total, h.extents.low, h.extents.inside, h.extents.size,
    h.extents.apart⟩, h.large, h.small, ⟨h.acts.uid, h.acts.unprivileged⟩,
    ⟨h.acts'.uid, h.acts'.unprivileged⟩, h.mounted, h.total, h.entries, fun i hi hused hvisible => ?_⟩
  have hsize := h.extents.size i hi hused
  have hplace : ∀ k, k < (v.entries i).size → 4608 * 512 ≤ (v.entries i).startLba * 512 + k := by
    intro k hk
    have hlow := h.extents.low i hi hused (by omega)
    omega
  have hleft : fileBytes disk (v.entries i) = fileBytes v.disk (v.entries i) :=
    readBytes_congr fun k hk => hdisk _ (hplace k hk)
  have hright : fileBytes disk' (v.entries i) = fileBytes w.disk (v.entries i) :=
    readBytes_congr fun k hk => hdisk' _ (hplace k hk)
  rw [hleft, hright]
  exact h.bytes i hi hused hvisible

end

/-- Two results of one call. -/
def Both (u : ℕ) (r s : Bool × Volume) : Prop := s.1 = r.1 ∧ Alike u r.2 s.2

theorem Alike.saveEntry (h : Alike u v w) (hindex : index < 1024) :
    Both u (saveEntry v index) (saveEntry w index) := by
  obtain ⟨disk, hsave, hsame⟩ := saveEntry_eq v h.large h.small hindex
  obtain ⟨disk', hsave', hsame'⟩ := saveEntry_eq w (by rw [h.total]; exact h.large)
    (by rw [h.total]; exact h.small) hindex
  rw [hsave, hsave']
  exact ⟨rfl, h.directory hsame hsame'⟩

/-! ### Writes -/

theorem Alike.placed (h : Alike u v w) (index required : ℕ) :
    placed w index required = placed v index required := by
  rw [Fs.placed, Fs.placed, h.nextDataLba, h.entries]

/-- Both disks got the file `bytes` at a good place. -/
theorem Alike.written (h : Alike u v w) {required size : ℕ}
    (hplace : PlaceOk v index required (Fs.placed v index required))
    (hsize : size ≤ required * 512)
    (hout : VolumeOk.Outside v.disk disk (Fs.placed v index required))
    (hout' : VolumeOk.Outside w.disk disk' (Fs.placed v index required))
    (hbytes : Visible u (written (Fs.placed v index required) size) →
      readBytes (flat 512 disk') ((Fs.placed v index required).startLba * 512) size =
        readBytes (flat 512 disk) ((Fs.placed v index required).startLba * 512) size) :
    Alike u { v.setEntry index (written (Fs.placed v index required) size) with disk := disk }
      { w.setEntry index (written (Fs.placed v index required) size) with disk := disk' } := by
  generalize Fs.placed v index required = e at hplace hout hout' hbytes ⊢
  refine h.replace (fun _ _ => hplace.low) (fun _ => hplace.inside) (fun _ => ?_)
    (fun _ => hplace.apart) (fun j hj hne hu => ?_) (fun j hj hne hu => ?_) fun _ hv => hbytes hv
  · exact le_trans hsize (mul_le_mul_right _ hplace.covers)
  · exact h.extents.fileBytes_other hj hu hout (hplace.apart j hj hne hu)
  · have hother : (w.entries j).used = true → Apart e (w.entries j) →
        fileBytes disk' (w.entries j) = fileBytes w.disk (w.entries j) := fun hused hapart =>
      h.extents'.fileBytes_other hj hused hout' hapart
    rw [h.entries] at hother
    exact hother hu (hplace.apart j hj hne hu)

theorem Alike.writeEntryData (h : Alike u v w) (hindex : index < 1024)
    (hused : (v.entries index).used = true)
    (hlen : data.length + 511 < 2 ^ 64)
    (hfit : (v.entries index).capacitySectors < requiredSectors data.length →
      Fs.nextDataLba v + requiredSectors data.length ≤ v.totalSectors) :
    Both u (writeEntryData v index data) (writeEntryData w index data) := by
  obtain ⟨hpos, hle, -⟩ := requiredSectors_spec hlen
  by_cases hcount : requiredSectors data.length > 0xFFFFFFFF
  · rw [Fs.writeEntryData, Fs.writeEntryData, if_pos hcount, if_pos hcount]
    exact ⟨rfl, h⟩
  · have hcount' := Nat.le_of_not_lt hcount
    obtain ⟨disk, hwrite, hout, hcontent⟩ := h.extents.writeEntryData h.large h.small hindex hused
      data hlen hcount' hfit
    obtain ⟨disk', hwrite', hout', hcontent'⟩ := h.extents'.writeEntryData
      (by rw [h.total]; exact h.large) (by rw [h.total]; exact h.small) hindex
      (by rw [h.entries]; exact hused) data hlen hcount'
      (by rw [h.entries, h.nextDataLba, h.total]; exact hfit)
    rw [h.placed] at hwrite' hout' hcontent'
    rw [hwrite, hwrite']
    refine ⟨rfl, h.written (h.extents.placed hindex hused hpos hfit) hle hout hout' fun _ => ?_⟩
    rw [hcontent, hcontent']

theorem visible_written {size required : ℕ} :
    Visible u (written (placed v index required) size) ↔ Visible u (v.entries index) := by
  rw [placed]
  split
  · exact Iff.rfl
  · exact Iff.rfl

theorem Alike.writeEntryAt (h : Alike u v w) (hindex : index < 1024)
    (hused : (v.entries index).used = true) {offset : ℕ}
    (hlen : offset + data.length + 511 < 2 ^ 64) :
    Both u (writeEntryAt v index offset data) (writeEntryAt w index offset data) := by
  obtain ⟨newSize, hnew⟩ : ∃ newSize, newSize = max (offset + data.length) (v.entries index).size :=
    ⟨_, rfl⟩
  have hinside := h.extents.inside index hindex hused
  have hsize := h.extents.size index hindex hused
  have hsmall := h.small
  have hround : newSize + 511 < 2 ^ 64 := by omega
  obtain ⟨hpos, hcovers, -⟩ := requiredSectors_spec hround
  have hnew' : newSize = max (offset + data.length) (w.entries index).size := by rw [h.entries, hnew]
  have hfits' : FitsAt w index newSize ↔ FitsAt v index newSize := by
    rw [FitsAt, FitsAt, h.entries, h.nextDataLba, h.total]
  by_cases hfits : FitsAt v index newSize
  · obtain ⟨disk, hwrite, hout, hcontent⟩ := h.extents.writeEntryAt h.large h.small hindex hused
      offset data hlen hnew hfits
    obtain ⟨disk', hwrite', hout', hcontent'⟩ := h.extents'.writeEntryAt
      (by rw [h.total]; exact h.large) (by rw [h.total]; exact h.small) hindex
      (by rw [h.entries]; exact hused) offset data hlen hnew' (hfits'.2 hfits)
    rw [h.placed] at hwrite' hout' hcontent'
    rw [hwrite, hwrite']
    refine ⟨rfl, h.written (h.extents.placed hindex hused hpos hfits.2) hcovers hout hout'
      fun hv => ?_⟩
    rw [hcontent, hcontent', h.entries, h.bytes index hindex hused (visible_written.1 hv)]
  · rw [writeEntryAt_refused (hnew ▸ hfits),
      writeEntryAt_refused (hnew' ▸ fun hw => hfits (hfits'.1 hw))]
    exact ⟨rfl, h⟩

/-! ### The calls -/

section

variable (h : Alike u v w) (name : Name)

include h

theorem Alike.parentDirectoryExists :
    parentDirectoryExists w name = parentDirectoryExists v name := by
  rw [Fs.parentDirectoryExists, Fs.parentDirectoryExists]
  simp only [h.findEntry, h.entries]

/-- A new entry is the same on both, and empty. -/
theorem Alike.allocateEntry (type : FsType) (mode : ℕ) :
    (allocateEntry v name type mode = (none, v) ∧ allocateEntry w name type mode = (none, w)) ∨
      ∃ index, index < 1024 ∧ (v.entries index).used = false ∧
        allocateEntry v name type mode = (some index, v.setEntry index (newEntry v name type mode)) ∧
        allocateEntry w name type mode = (some index, w.setEntry index (newEntry v name type mode)) ∧
        Alike u (v.setEntry index (newEntry v name type mode))
          (w.setEntry index (newEntry v name type mode)) := by
  have hnewEntry : newEntry w name type mode = newEntry v name type mode := by
    rw [newEntry, newEntry, h.acts.uid, h.acts'.uid]
  rw [Fs.allocateEntry, Fs.allocateEntry, h.findEntry, h.parentDirectoryExists, h.entries, hnewEntry]
  split
  · exact .inl ⟨rfl, rfl⟩
  cases hfree : (List.range' 0 1024).find? fun index => !(v.entries index).used with
  | none => exact .inl ⟨rfl, rfl⟩
  | some index =>
    have hindex := (List.mem_range'_1.1 (List.mem_of_find?_eq_some hfree)).2
    have hunused := List.find?_some hfree
    rw [Bool.not_eq_true'] at hunused
    refine .inr ⟨index, by omega, hunused, rfl, rfl, h.setEntry ?_ ?_ ?_ ?_ ?_⟩
    · exact fun _ hpos => absurd hpos (lt_irrefl 0)
    · exact fun _ => zero_le _
    · exact fun _ => zero_le _
    · exact fun _ j _ _ _ hpos => absurd hpos (lt_irrefl 0)
    · exact fun _ _ => rfl

theorem Alike.openWrite :
    ∃ found v₁ w₁, openWrite v name = (found, v₁) ∧ openWrite w name = (found, w₁) ∧
      Alike u v₁ w₁ ∧
      ∀ index, found = some index → index < 1024 ∧ (v₁.entries index).used = true := by
  rw [Fs.openWrite, Fs.openWrite, h.findEntry]
  cases hfind : Fs.findEntry v name with
  | none =>
    obtain ⟨hnone, hnone'⟩ | ⟨index, hindex, -, hsome, hsome', halike⟩ :=
      h.allocateEntry name .file 0o660
    · exact ⟨none, v, w, hnone, hnone', h, (fun _ hno => by cases hno)⟩
    · refine ⟨some index, _, _, hsome, hsome', halike, fun i hi => ?_⟩
      cases hi
      rw [Volume.setEntry_self]
      exact ⟨hindex, rfl⟩
  | some i =>
    refine ⟨if (v.entries i).type = .symlink then Fs.resolveEntry v name else some i, v, w, ?_, ?_, h,
      fun index hindex => existing_some hfind hindex⟩
    · simp only
      split
      · rfl
      · rfl
    · simp only [h.entries, h.resolveEntry]
      split
      · rfl
      · rfl

theorem Alike.openWriteAt :
    ∃ found v₁ w₁, openWriteAt v name = (found, v₁) ∧ openWriteAt w name = (found, w₁) ∧
      Alike u v₁ w₁ ∧
      ∀ index, found = some index → index < 1024 ∧ (v₁.entries index).used = true := by
  obtain ⟨found, v₁, w₁, hopen, hopen', halike, hfound⟩ := h.openWrite name
  rw [openWriteAt_eq, openWriteAt_eq, h.findEntry, hopen, hopen']
  split
  · cases found with
    | none => exact ⟨none, v₁, w₁, rfl, rfl, halike, hfound⟩
    | some index =>
      obtain ⟨hindex, hused⟩ := hfound index rfl
      obtain ⟨hdone, hsaved⟩ := halike.saveEntry hindex
      rw [saveOpened, saveOpened, hdone]
      refine ⟨_, _, _, rfl, rfl, hsaved, fun i hi => ?_⟩
      rw [saveEntry_entries]
      split at hi
      · cases hi
        exact ⟨hindex, hused⟩
      · cases hi
  · exact ⟨found, v₁, w₁, rfl, rfl, halike, hfound⟩

end

theorem openWrite_total {found : Option ℕ} {v₁ : Volume} (h : Fs.openWrite v name = (found, v₁)) :
    v₁.totalSectors = v.totalSectors := by
  obtain ⟨_, hsame, -⟩ | ⟨index, -, -, -, -, -, hmade⟩ := openWrite_outcome v name
  · cases h.symm.trans hsame
    rfl
  · cases h.symm.trans hmade
    rfl

section

variable (h : Alike u v w)

include h

theorem Alike.fsWrite (hlen : data.length + 511 < 2 ^ 64)
    (hnew : NewExtentWithin v.totalSectors v name data.length) :
    Both u (fsWrite v name data) (fsWrite w name data) := by
  rw [Fs.fsWrite, Fs.fsWrite, h.mounted]
  split
  · exact ⟨rfl, h⟩
  obtain ⟨found, v₁, w₁, hopen, hopen', halike, hfound⟩ := h.openWrite name
  have htotal : v₁.totalSectors = v.totalSectors := openWrite_total hopen
  rw [NewExtentWithin, hopen] at hnew
  rw [hopen, hopen']
  cases found with
  | none => exact ⟨rfl, halike⟩
  | some index =>
    obtain ⟨hindex, hused⟩ := hfound index rfl
    simp only at hnew ⊢
    rw [halike.entries, halike.mayWrite]
    split
    · exact ⟨rfl, halike⟩
    · next hmay =>
      obtain ⟨htype, hwrite⟩ := writable_of hmay
      rw [← htotal] at hnew
      exact halike.writeEntryData hindex hused hlen (hnew htype hwrite)

theorem Alike.fsWriteAt {offset : ℕ}
    (hdata : data.length < 2 ^ 64)
    (hlen : offset + data.length < 2 ^ 64 → offset + data.length + 511 < 2 ^ 64) :
    Both u (fsWriteAt v name offset data) (fsWriteAt w name offset data) := by
  rw [Fs.fsWriteAt, Fs.fsWriteAt, h.mounted]
  split
  · exact ⟨rfl, h⟩
  · next hcheck =>
    have hfits : offset + data.length < 2 ^ 64 := by
      simp only [Bool.or_eq_true, decide_eq_true_eq, not_or] at hcheck
      omega
    obtain ⟨found, v₁, w₁, hopen, hopen', halike, hfound⟩ := h.openWriteAt name
    rw [hopen, hopen']
    cases found with
    | none => exact ⟨rfl, halike⟩
    | some index =>
      obtain ⟨hindex, hused⟩ := hfound index rfl
      simp only
      rw [halike.entries, halike.mayWrite]
      split
      · exact ⟨rfl, halike⟩
      · exact halike.writeEntryAt hindex hused (hlen hfits)

theorem Alike.fsDelete (name : Name) : Both u (fsDelete v name) (fsDelete w name) := by
  rw [Fs.fsDelete, Fs.fsDelete, h.mounted, h.findEntry]
  split
  · exact ⟨rfl, h⟩
  cases hfind : Fs.findEntry v name with
  | none => exact ⟨rfl, h⟩
  | some index =>
    obtain ⟨hindex, -, -⟩ := findEntry_some hfind
    simp only [h.entries, h.mayWrite]
    split
    · exact ⟨rfl, h⟩
    · split
      · exact ⟨rfl, h⟩
      · have hunused : ∀ p : Prop, FsEntry.zero.used = true → p :=
          fun p hused => absurd hused Bool.false_ne_true
        exact (h.setEntry (hunused _) (hunused _) (hunused _) (hunused _)
          (hunused _)).saveEntry hindex

theorem Alike.fsMkdir (name : Name) (mode : ℕ) :
    Both u (fsMkdir v name mode) (fsMkdir w name mode) := by
  rw [Fs.fsMkdir, Fs.fsMkdir, h.mounted]
  split
  · exact ⟨rfl, h⟩
  obtain ⟨hnone, hnone'⟩ | ⟨index, hindex, -, hsome, hsome', halike⟩ :=
    h.allocateEntry name .directory (if mode ≠ 0 then mode else 0o777)
  · rw [hnone, hnone']
    exact ⟨rfl, h⟩
  · rw [hsome, hsome']
    exact halike.saveEntry hindex

theorem Alike.fsChmod (name : Name) (mode : ℕ) :
    Both u (fsChmod v name mode) (fsChmod w name mode) := by
  rw [Fs.fsChmod, Fs.fsChmod, h.mounted, h.findEntry]
  split
  · exact ⟨rfl, h⟩
  cases hfind : Fs.findEntry v name with
  | none => exact ⟨rfl, h⟩
  | some index =>
    obtain ⟨hindex, hused, -⟩ := findEntry_some hfind
    simp only [h.entries, h.acts.unprivileged, h.acts'.unprivileged, h.acts.uid, h.acts'.uid]
    split
    · exact ⟨rfl, h⟩
    · next hmay =>
      have howner : (v.entries index).owner = u := by
        simp only [Bool.not_false, Bool.true_and, decide_eq_true_eq, ne_eq, not_not] at hmay
        exact hmay.symm
      have hset := h.setHeader (e := { v.entries index with
        flags := (v.entries index).flags &&& 0xFE00 ||| mode }) hindex hused rfl rfl rfl fun hv =>
          hv.imp_right fun hfile => ⟨hfile.1, .inl howner⟩
      exact hset.saveEntry hindex

theorem Alike.fsChown (name : Name) (owner : ℕ) :
    Both u (fsChown v name owner) (fsChown w name owner) := by
  rw [Fs.fsChown, Fs.fsChown, h.acts.unprivileged, h.acts'.unprivileged, if_pos (by simp),
    if_pos (by simp)]
  exact ⟨rfl, h⟩

theorem Alike.fsSymlink {target : Name}
    (hnew : validSymlinkTarget target = true → NewExtentWithin v.totalSectors v name target.length) :
    Both u (fsSymlink v target name) (fsSymlink w target name) := by
  rw [Fs.fsSymlink, Fs.fsSymlink, h.mounted, h.findEntry]
  split
  · exact ⟨rfl, h⟩
  · next hcheck =>
    simp only [Bool.or_eq_true, Bool.not_eq_true', not_or, Bool.not_eq_false] at hcheck
    obtain ⟨⟨⟨-, htarget⟩, -⟩, hnone⟩ := hcheck
    rw [Bool.not_eq_true, Option.isSome_eq_false_iff, Option.isNone_iff_eq_none] at hnone
    have hlength := validSymlinkTarget_length htarget
    have hlen : target.length + 511 < 2 ^ 64 := by omega
    have hwritten := h.fsWrite hlen (hnew htarget)
    have hcreated : ∀ index, Fs.findEntry (Fs.fsWrite v name target).2 name = some index →
        ((Fs.fsWrite v name target).2.entries index).type = .file ∧
          ((Fs.fsWrite v name target).2.entries index).owner = v.currentUid := fun index =>
      fsWrite_created hnone
    generalize Fs.fsWrite v name target = r at hwritten hcreated ⊢
    generalize Fs.fsWrite w name target = s at hwritten ⊢
    obtain ⟨done, v₁⟩ := r
    obtain ⟨done', w₁⟩ := s
    obtain ⟨hdone, halike⟩ := hwritten
    simp only at hdone halike hcreated
    subst hdone
    cases done' with
    | false => exact ⟨rfl, halike⟩
    | true =>
      simp only
      rw [halike.findEntry]
      cases hfind : Fs.findEntry v₁ name with
      | none => exact ⟨rfl, halike⟩
      | some index =>
        obtain ⟨hindex, hused, -⟩ := findEntry_some hfind
        obtain ⟨htype, howner⟩ := hcreated index hfind
        simp only [halike.entries]
        have hset := halike.setHeader (e := { v₁.entries index with
          type := .symlink, flags := 0o777 }) hindex hused rfl rfl rfl fun _ =>
            .inr ⟨htype, .inl (howner.trans h.acts.uid)⟩
        exact hset.saveEntry hindex

theorem Alike.readAt (name : Name) (offset capacity : ℕ) :
    fsReadAt w name offset capacity = fsReadAt v name offset capacity ∧
      readAtBuffer w name offset capacity = readAtBuffer v name offset capacity := by
  rw [fsReadAt, fsReadAt, readAtBuffer, readAtBuffer, h.mounted, h.resolveEntry]
  split
  · exact ⟨rfl, rfl⟩
  cases hresolve : Fs.resolveEntry v name with
  | none => exact ⟨rfl, rfl⟩
  | some index =>
    obtain ⟨hindex, hused⟩ := resolveLoop_some 8 hresolve
    simp only [h.entries, h.mayRead]
    split
    · exact ⟨rfl, rfl⟩
    · next hmay =>
      have hchecks : (v.entries index).type = .file ∧ Fs.mayRead v (v.entries index) = true := by
        simpa using hmay
      exact h.readEntryData hindex hused (h.acts.visible hchecks.1 hchecks.2) offset capacity

theorem Alike.readlink (name : Name) (capacity : ℕ) :
    fsReadlink w name capacity = fsReadlink v name capacity ∧
      readlinkBuffer w name capacity = readlinkBuffer v name capacity := by
  have hlink : linkEntry w name capacity = linkEntry v name capacity := by
    rw [linkEntry, linkEntry, h.mounted, h.findEntry]
    simp only [h.entries, h.mayRead]
  rw [fsReadlink, fsReadlink, readlinkBuffer, readlinkBuffer, hlink]
  cases hentry : linkEntry v name capacity with
  | none => exact ⟨rfl, rfl⟩
  | some entry =>
    rw [linkEntry] at hentry
    split at hentry
    · cases hentry
    cases hfind : Fs.findEntry v name with
    | none =>
      rw [hfind] at hentry
      cases hentry
    | some index =>
      obtain ⟨hindex, hused, -⟩ := findEntry_some hfind
      rw [hfind] at hentry
      simp only at hentry
      split at hentry
      · cases hentry
      · next hmay =>
        have htype : (v.entries index).type = .symlink := by
          simp only [Bool.or_eq_true, not_or, decide_eq_true_eq, not_not] at hmay
          exact hmay.1
        rw [← Option.some.inj hentry]
        exact h.readEntryData hindex hused (.inl htype) 0 capacity

theorem Alike.pathInfo (name : Name) (followSymlink : Bool) :
    fsPathInfo w name followSymlink = fsPathInfo v name followSymlink := by
  rw [fsPathInfo, fsPathInfo, h.mounted, h.findEntry, h.resolveEntry]
  simp only [h.entries]

/-- **One call on both.** -/
theorem Alike.call {c : UserCall} (hc : Bounded v.totalSectors v c) :
    (w.call c).1 = (v.call c).1 ∧ Alike u (v.after c) (w.after c) := by
  have hdone : ∀ {r s : Bool × Volume}, Both u r s →
      (Reply.ofStep s).1 = (Reply.ofStep r).1 ∧ Alike u (Reply.ofStep r).2 (Reply.ofStep s).2 :=
    fun hboth => ⟨congrArg Reply.done hboth.1, hboth.2⟩
  cases c with
  | readAt name offset capacity =>
    obtain ⟨hresult, hbuffer⟩ := h.readAt name offset capacity
    exact ⟨by simp only [Volume.call, hresult, hbuffer], h⟩
  | readlink name capacity =>
    obtain ⟨hresult, hbuffer⟩ := h.readlink name capacity
    exact ⟨by simp only [Volume.call, hresult, hbuffer], h⟩
  | pathInfo name followSymlink =>
    exact ⟨by simp only [Volume.call, h.pathInfo], h⟩
  | write name data => exact hdone (h.fsWrite hc.1 hc.2)
  | writeAt name offset data => exact hdone (h.fsWriteAt hc.1 hc.2)
  | delete name => exact hdone (h.fsDelete name)
  | mkdir name mode => exact hdone (h.fsMkdir name mode)
  | symlink target name => exact hdone (h.fsSymlink hc)
  | chmod name mode => exact hdone (h.fsChmod name mode)
  | chown name owner => exact hdone (h.fsChown name owner)

end

theorem Alike.replies (calls : List UserCall) {v w : Volume} (h : Alike u v w)
    (hcalls : Along Volume.after (fun v c => Bounded v.totalSectors v c) v calls) :
    w.replies calls = v.replies calls := by
  induction calls generalizing v w with
  | nil => rfl
  | cons c calls ih =>
    obtain ⟨hreply, halike⟩ := h.call hcalls.1
    rw [Volume.replies, Volume.replies, hreply, ih halike hcalls.2]

end Alike

/-! ### Every run -/

/-- **Unreadable files do not leak.**  Two volumes with one table, whose disks agree on every link and on
every file that `u` owns or may read, give the same replies to the same calls of `u`, as long as every
new extent that a write takes ends on the disk and no size wraps. -/
theorem replies_alike (u : ℕ) (v w : Volume) (hok : ExtentsOk v)
    (hlarge : 4608 + 128 < v.totalSectors) (hsmall : v.totalSectors ≤ 0x10000000)
    (hu : ActsAs u v) (hu' : ActsAs u w) (hmounted : w.mounted = true)
    (htotal : w.totalSectors = v.totalSectors) (hentries : w.entries = v.entries)
    (hbytes : ∀ i, i < 1024 → (v.entries i).used = true → Visible u (v.entries i) →
      fileBytes w.disk (v.entries i) = fileBytes v.disk (v.entries i))
    (calls : List UserCall)
    (hcalls : Along Volume.after (fun v c => Bounded v.totalSectors v c) v calls) :
    w.replies calls = v.replies calls :=
  Alike.replies calls ⟨hok, hlarge, hsmall, hu, hu', hmounted.trans hok.mounted.symm, htotal, hentries,
    hbytes⟩ hcalls

/-- A volume of user 1 with a file of one byte in front of a file that leaves one sector of the disk
free, which holds `byte`. -/
def nearlyFull (byte : UInt8) : Volume where
  entries := fun i =>
    if i = 0 then ⟨true, .file, 0o600, 1, [97], 4608, 1, 1, 0⟩
    else if i = 1 then ⟨true, .file, 0o600, 2, [98], 4609, 1, 127, 0⟩
    else FsEntry.zero
  disk := fun lba _ => if lba = 4736 then byte else if lba = 4609 then byte else 7
  totalSectors := 4737
  mounted := true
  currentUid := 1
  currentPrivileged := false

theorem nearlyFull_ok (byte : UInt8) : ExtentsOk (nearlyFull byte) :=
  extentsOk_of_two rfl rfl (by show 4737 < 2 ^ 32; decide) (by decide) (by decide)
    (by show 4609 + 127 ≤ 4737; decide) (by decide)

/-- The disks differ in the file of user 2 and in the free sector, and not in what user 1 may see. -/
theorem nearlyFull_bytes (byte byte' : UInt8) (i : ℕ)
    (hused : ((nearlyFull byte).entries i).used = true)
    (hvisible : Visible 1 ((nearlyFull byte).entries i)) :
    fileBytes (nearlyFull byte').disk ((nearlyFull byte).entries i) =
      fileBytes (nearlyFull byte).disk ((nearlyFull byte).entries i) := by
  obtain ⟨-, he⟩ | ⟨-, he⟩ := entries_of_two rfl hused
  · rw [he]
    rfl
  · rw [he] at hvisible
    exact absurd hvisible (by simp [Visible, entryMode])

/-- User 1 writes the file, tries the one that is not readable, and reads back. -/
theorem replies_alike_nearlyFull :
    let calls : List UserCall :=
      [.write [97] [1, 2, 3], .readAt [98] 0 1, .writeAt [97] 5 [9], .readAt [97] 0 8]
    Along Volume.after (fun v c => Bounded v.totalSectors v c) (nearlyFull 1) calls ∧
      (nearlyFull 2).replies calls = (nearlyFull 1).replies calls := by
  intro calls
  have hcalls : Along Volume.after (fun v c => Bounded v.totalSectors v c) (nearlyFull 1) calls := by
    decide +kernel
  exact ⟨hcalls, replies_alike 1 (nearlyFull 1) (nearlyFull 2) (nearlyFull_ok 1) (by decide)
    (by decide) ⟨rfl, rfl⟩ ⟨rfl, rfl⟩ rfl rfl rfl (fun i _ => nearlyFull_bytes 1 2 i) calls hcalls⟩

/-- **A write that does not fit shows a free sector.**  User 1 writes 513 bytes over the file of one
byte: two sectors are not left, the call fails, but the table already names the free sector as the
place of the file.  The read that follows returns what that sector held. -/
theorem failed_write_shows_free_sector :
    let calls : List UserCall := [.write [97] (List.replicate 513 0), .readAt [97] 0 1]
    (∀ byte, ExtentsOk (nearlyFull byte) ∧ ActsAs 1 (nearlyFull byte)) ∧
      (nearlyFull 2).entries = (nearlyFull 1).entries ∧
      (∀ i, ((nearlyFull 1).entries i).used = true → Visible 1 ((nearlyFull 1).entries i) →
        fileBytes (nearlyFull 2).disk ((nearlyFull 1).entries i) =
          fileBytes (nearlyFull 1).disk ((nearlyFull 1).entries i)) ∧
      (nearlyFull 1).replies calls = [.done false, .bytes (some [1]) [1]] ∧
      (nearlyFull 2).replies calls = [.done false, .bytes (some [2]) [2]] := by
  refine ⟨fun byte => ⟨nearlyFull_ok byte, ⟨rfl, rfl⟩⟩, rfl, fun i => nearlyFull_bytes 1 2 i, ?_, ?_⟩
  · decide +kernel
  · decide +kernel

end NovaOS.Fs
