import NovaOS.Fs.Refinement
import Mathlib.Data.Finset.Card

/-!
# Calls that have room

A call that makes a new entry succeeds when its name is valid and new, its parent is a directory, a
slot is free, and the disk has the sectors behind all extents.  `Room v slots sectors` says how much
is left, `Consumes v v' slots sectors` how much a call took, so that a caller who makes many entries
only has to count.

* `VolumeOk.fsMkdir_new`, `VolumeOk.fsWrite_new`, `VolumeOk.fsSymlink_new` — the calls that make an
  entry;
* `VolumeOk.fsChmod_found`, `VolumeOk.fsChown_found` — the calls that change the header of one.
-/

namespace NovaOS.Fs

open Nat

/-- The slots in use. -/
def usedSlots (v : Volume) : Finset ℕ :=
  (Finset.range 1024).filter fun i => (v.entries i).used = true

/-- There are free slots, and free sectors behind all extents. -/
structure Room (v : Volume) (slots sectors : ℕ) : Prop where
  slots : (usedSlots v).card + slots ≤ 1024
  sectors : nextDataLba v + sectors ≤ v.totalSectors

/-- At most so many slots were taken, and so many sectors. -/
structure Consumes (v v' : Volume) (slots sectors : ℕ) : Prop where
  total : v'.totalSectors = v.totalSectors
  slots : (usedSlots v').card ≤ (usedSlots v).card + slots
  sectors : nextDataLba v' = nextDataLba v + sectors

/-- The parent of a path is a directory; a path without a slash has none. -/
def Files.hasParent (files : Files) (name : Name) : Bool :=
  match lastSlash name with
  | none => true
  | some length =>
    if length = 0 || length > 95 then false
    else
      match files (name.take length) with
      | none => false
      | some node => node.type = .directory

section

variable {v v' v'' : Volume} {index slots sectors slots' sectors' : ℕ} {name : Name}

theorem Room.after (h : Room v (slots + slots') (sectors + sectors'))
    (hc : Consumes v v' slots' sectors') : Room v' slots sectors := by
  have h₁ := h.slots
  have h₂ := h.sectors
  have h₃ := hc.slots
  have h₄ := hc.sectors
  refine ⟨by omega, ?_⟩
  rw [hc.total]
  omega

theorem Consumes.trans (h : Consumes v v' slots sectors) (h' : Consumes v' v'' slots' sectors') :
    Consumes v v'' (slots + slots') (sectors + sectors') := by
  have h₁ := h.slots
  have h₂ := h.sectors
  have h₃ := h'.slots
  have h₄ := h'.sectors
  exact ⟨h'.total.trans h.total, by omega, by omega⟩

theorem Room.exists_unused (h : Room v (slots + 1) sectors) :
    ∃ index, index < 1024 ∧ (v.entries index).used = false := by
  by_contra hnone
  have hfull : usedSlots v = Finset.range 1024 := by
    apply Finset.filter_true_of_mem
    intro i hi
    cases hu : (v.entries i).used with
    | true => rfl
    | false => exact absurd ⟨i, Finset.mem_range.1 hi, hu⟩ hnone
  have hslots := h.slots
  rw [hfull, Finset.card_range] at hslots
  omega

theorem nextDataLba_le_of {bound : ℕ} (hbound : 4608 ≤ bound)
    (h : ∀ i, i < 1024 → (v.entries i).used = true →
      (v.entries i).startLba + (v.entries i).capacitySectors ≤ bound) : nextDataLba v ≤ bound := by
  apply List.foldlRecOn (motive := fun next => next ≤ bound) (List.range' 0 1024)
  · exact hbound
  · intro next hnext i hi
    have hi' : i < 1024 := by
      have := (List.mem_range'_1.1 hi).2
      omega
    cases hu : (v.entries i).used with
    | false => exact hnext
    | true =>
      have hend := h i hi' hu
      simp only [Bool.not_true, Bool.false_eq_true, if_false]
      split
      · exact hend
      · exact hnext

/-- One slot changed, to an entry whose extent lies behind all others or where it was. -/
theorem VolumeOk.consumes (h : VolumeOk v) (sectors : ℕ) (h' : VolumeOk v')
    (hindex : index < 1024) (htotal : v'.totalSectors = v.totalSectors)
    (hothers : ∀ j, j < 1024 → j ≠ index → v'.entries j = v.entries j)
    (hused : (v'.entries index).used = true)
    (hend : (v'.entries index).startLba + (v'.entries index).capacitySectors ≤
      nextDataLba v + sectors)
    (hkept : (v.entries index).used = true →
      (v.entries index).startLba + (v.entries index).capacitySectors ≤
        (v'.entries index).startLba + (v'.entries index).capacitySectors)
    (hreach : sectors ≠ 0 → nextDataLba v + sectors =
      (v'.entries index).startLba + (v'.entries index).capacitySectors) :
    Consumes v v' (if (v.entries index).used then 0 else 1) sectors := by
  obtain ⟨hlow, hall⟩ := h.extentsOk.nextDataLba_spec
  obtain ⟨hlow', hall'⟩ := h'.extentsOk.nextDataLba_spec
  refine ⟨htotal, ?_, le_antisymm ?_ ?_⟩
  · have hsub : usedSlots v' ⊆ insert index (usedSlots v) := by
      intro i hi
      obtain ⟨hi', hu⟩ := Finset.mem_filter.1 hi
      by_cases hii : i = index
      · rw [hii]
        exact Finset.mem_insert_self ..
      · apply Finset.mem_insert_of_mem
        rw [hothers i (Finset.mem_range.1 hi') hii] at hu
        exact Finset.mem_filter.2 ⟨hi', hu⟩
    have hcard := Finset.card_le_card hsub
    split
    · next hold =>
      have hmem : index ∈ usedSlots v := Finset.mem_filter.2 ⟨Finset.mem_range.2 hindex, hold⟩
      rw [Finset.insert_eq_of_mem hmem] at hcard
      exact Nat.le_trans hcard (Nat.le_add_right ..)
    · exact Nat.le_trans hcard (Finset.card_insert_le ..)
  · apply nextDataLba_le_of (Nat.le_trans hlow (Nat.le_add_right ..))
    intro i hi hu
    by_cases hii : i = index
    · rwa [hii]
    · rw [hothers i hi hii] at hu ⊢
      exact Nat.le_trans (hall i hi hu) (Nat.le_add_right ..)
  · by_cases hzero : sectors = 0
    · -- the extents there were are still there
      rw [hzero, add_zero]
      apply nextDataLba_le_of hlow'
      intro i hi hu
      by_cases hii : i = index
      · rw [hii] at hu ⊢
        exact le_trans (hkept hu) (hall' index hindex hused)
      · rw [← hothers i hi hii] at hu ⊢
        exact hall' i hi hu
    · rw [hreach hzero]
      exact hall' index hindex hused

theorem VolumeOk.consumes_header (h : VolumeOk v) (h' : VolumeOk v') (hindex : index < 1024)
    (hused : (v.entries index).used = true) {e : FsEntry}
    (heq : saveEntry (v.setEntry index e) index = (true, v')) (heused : e.used = true)
    (hstart : e.startLba = (v.entries index).startLba)
    (hcap : e.capacitySectors = (v.entries index).capacitySectors) : Consumes v v' 0 0 := by
  have hentries : v'.entries = (v.setEntry index e).entries := by
    rw [← saveEntry_entries (v.setEntry index e) index, heq]
  have hself : v'.entries index = e := by rw [hentries, Volume.setEntry_self]
  have htotal : v'.totalSectors = v.totalSectors := by
    obtain ⟨disk, hsave, -⟩ := saveEntry_eq (v.setEntry index e) h.large h.small hindex
    rw [(Prod.mk.inj (heq.symm.trans hsave)).2]
    rfl
  have hc := h.consumes 0 h' hindex htotal ?_ ?_ ?_ ?_ ?_
  · rwa [if_pos hused] at hc
  · intro j _ hj
    rw [hentries, Volume.setEntry_of_ne _ _ hj]
  · rw [hself]
    exact heused
  · rw [hself, hstart, hcap]
    exact Nat.le_trans (h.extentsOk.nextDataLba_spec.2 index hindex hused) (Nat.le_add_right ..)
  · intro _
    rw [hself, hstart, hcap]
  · exact fun hne => absurd rfl hne

/-! ### Calls that make an entry -/

theorem parentDirectoryExists_eq (v : Volume) (name : Name) :
    parentDirectoryExists v name = (filesOf v).hasParent name := by
  rw [parentDirectoryExists, Files.hasParent]
  cases lastSlash name with
  | none => rfl
  | some length =>
    simp only
    cases hf : findEntry v (name.take length) with
    | none => rw [filesOf_eq_none.2 hf]
    | some index => rw [filesOf_of_findEntry hf]; rfl

theorem Room.allocateEntry (hroom : Room v (slots + 1) sectors) (hname : validName name = true)
    (hnew : filesOf v name = none) (hparent : (filesOf v).hasParent name = true) (type : FsType)
    (mode : ℕ) :
    ∃ index, allocateEntry v name type mode =
        (some index, v.setEntry index (newEntry v name type mode)) ∧ index < 1024 ∧
      (v.entries index).used = false := by
  obtain ⟨i, hi, hunused⟩ := hroom.exists_unused
  rw [Fs.allocateEntry, parentDirectoryExists_eq, hparent, hname, filesOf_eq_none.1 hnew]
  cases hfree : (List.range' 0 1024).find? fun index => !(v.entries index).used with
  | none =>
    have hall := List.find?_eq_none.1 hfree i (List.mem_range'_1.2 ⟨zero_le i, by omega⟩)
    rw [hunused] at hall
    exact absurd rfl hall
  | some index =>
    have hindex := (List.mem_range'_1.1 (List.mem_of_find?_eq_some hfree)).2
    have hfound := List.find?_some hfree
    rw [Bool.not_eq_true'] at hfound
    exact ⟨index, rfl, by omega, hfound⟩

/-- **`fs_mkdir`** under a new name. -/
theorem VolumeOk.fsMkdir_new (h : VolumeOk v) (hroom : Room v (slots + 1) sectors)
    (hname : validName name = true) (hnew : filesOf v name = none)
    (hparent : (filesOf v).hasParent name = true) {mode : ℕ} (hmode : mode ≤ 0o777) :
    ∃ v', fsMkdir v name mode = (true, v') ∧ Refines v v' ((filesOf v).set name
        (some ⟨.directory, if mode ≠ 0 then mode else 0o777, v.currentUid, []⟩)) ∧
      Consumes v v' 1 0 := by
  obtain ⟨index, halloc, hindex, hunused⟩ := hroom.allocateEntry hname hnew hparent .directory
    (if mode ≠ 0 then mode else 0o777)
  obtain ⟨disk, hsave, -⟩ := saveEntry_eq (v.setEntry index (newEntry v name .directory
    (if mode ≠ 0 then mode else 0o777))) h.large h.small hindex
  have hcall : fsMkdir v name mode = (true, { v.setEntry index (newEntry v name .directory
      (if mode ≠ 0 then mode else 0o777)) with disk := disk }) := by
    rw [fsMkdir, h.mounted, hname, if_neg (by simpa using hmode), halloc]
    exact hsave
  rcases fsMkdir_cases h name mode with hfalse | ⟨v', htrue, hrefines⟩
  · cases hcall.symm.trans hfalse
  · have hv' := (Prod.mk.inj (hcall.symm.trans htrue)).2
    have hself : v'.entries index = newEntry v name .directory (if mode ≠ 0 then mode else 0o777) := by
      rw [← hv']
      exact Volume.setEntry_self ..
    refine ⟨v', htrue, hrefines, ?_⟩
    have hc := h.consumes 0 hrefines.ok hindex ?_ ?_ ?_ ?_ ?_ ?_
    · rwa [hunused, if_neg Bool.false_ne_true] at hc
    · rw [← hv']
      rfl
    · intro j _ hj
      rw [← hv']
      exact Volume.setEntry_of_ne _ _ hj
    · rw [hself]
      rfl
    · rw [hself]
      exact zero_le _
    · exact fun hu => absurd (hunused.symm.trans hu) Bool.false_ne_true
    · exact fun hne => absurd rfl hne

/-- A new file may be written by the one who made it. -/
theorem mayWrite_newEntry (v : Volume) (index : ℕ) (name : Name) :
    mayWrite (v.setEntry index (newEntry v name .file 0o660)) (newEntry v name .file 0o660) =
      true := by
  have hflags : (newEntry v name .file 0o660).flags = 0o660 := rfl
  have hmode : entryMode (newEntry v name .file 0o660) = 0o660 := by
    rw [entryMode, hflags]
    rfl
  rw [mayWrite, hmode]
  split
  · rfl
  · rw [if_pos (show (v.setEntry index (newEntry v name .file 0o660)).currentUid =
      (newEntry v name .file 0o660).owner from rfl)]
    rfl

/-- **`fs_write`** under a new name. -/
theorem VolumeOk.fsWrite_new (h : VolumeOk v) {data : List UInt8}
    (hroom : Room v (slots + 1) (sectors + sectorsOf data.length)) (hname : validName name = true)
    (hnew : filesOf v name = none) (hparent : (filesOf v).hasParent name = true) :
    ∃ v', fsWrite v name data = (true, v') ∧ Refines v v' ((filesOf v).set name
        (some ⟨.file, 0o660, v.currentUid, data⟩)) ∧
      Consumes v v' 1 (sectorsOf data.length) := by
  obtain ⟨index, halloc, hindex, hunused⟩ := hroom.allocateEntry hname hnew hparent .file 0o660
  obtain ⟨v₁, hv₁⟩ : ∃ v₁, v₁ = v.setEntry index (newEntry v name .file 0o660) := ⟨_, rfl⟩
  have hok : VolumeOk v₁ := by
    rcases allocateEntry_cases h name .file 0o660 with hnone | ⟨i, heq, -, -, hb⟩
    · cases halloc.symm.trans hnone
    · obtain rfl := Option.some.inj (Prod.mk.inj (halloc.symm.trans heq)).1
      rw [hv₁]
      exact (hb v.disk fun _ _ => rfl).ok
  rw [← hv₁] at halloc
  have hself : v₁.entries index = newEntry v name .file 0o660 := by
    rw [hv₁, Volume.setEntry_self]
  have hnext : nextDataLba v₁ = nextDataLba v := by
    rw [hv₁]
    exact nextDataLba_newEntry hunused _ _
  have htotal : v₁.totalSectors = v.totalSectors := by rw [hv₁]; rfl
  have hsectors := hroom.sectors
  have hsmall := h.small
  have hlen : data.length + 511 < 2 ^ 64 := by
    have hsize : data.length ≤ sectorsOf data.length * 512 := by
      rw [sectorsOf]
      omega
    omega
  obtain ⟨-, -, hrequired⟩ := requiredSectors_spec hlen
  rw [← sectorsOf] at hrequired
  obtain ⟨disk, hwrite, -, -⟩ := hok.extentsOk.writeEntryData hok.large hok.small hindex
    (by rw [hself]; rfl) data hlen (by omega) (by omega)
  have hcall : fsWrite v name data = (true, { v₁.setEntry index
      (written (placed v₁ index (requiredSectors data.length)) data.length) with disk := disk }) := by
    rw [fsWrite, h.mounted, hname, if_neg (by decide), openWrite, filesOf_eq_none.1 hnew, halloc]
    simp only
    rw [if_neg, hwrite]
    rw [hself, hv₁, mayWrite_newEntry]
    exact Bool.false_ne_true
  rcases fsWrite_cases h name data hlen with hfalse | ⟨-, hfalse⟩ | ⟨v', htrue, hrefines⟩
  · cases hcall.symm.trans hfalse
  · rw [hcall] at hfalse
    cases hfalse
  · have hv' := (Prod.mk.inj (hcall.symm.trans htrue)).2
    rw [Files.write, hnew] at hrefines
    refine ⟨v', htrue, hrefines, ?_⟩
    have hplaced : placed v₁ index (requiredSectors data.length) =
        { newEntry v name .file 0o660 with
          startLba := nextDataLba v, capacitySectors := sectorsOf data.length } := by
      have hpos : (newEntry v name .file 0o660).capacitySectors < sectorsOf data.length :=
        lt_of_lt_of_le one_pos (le_max_left ..)
      rw [placed, hself, hrequired, if_pos hpos, hnext]
    have hfinal : v'.entries index = written { newEntry v name .file 0o660 with
        startLba := nextDataLba v, capacitySectors := sectorsOf data.length } data.length := by
      rw [← hv', ← hplaced]
      exact Volume.setEntry_self ..
    have hextent : (v'.entries index).startLba + (v'.entries index).capacitySectors =
        nextDataLba v + sectorsOf data.length := by
      rw [hfinal]
      generalize nextDataLba v = next
      rfl
    have hc := h.consumes (sectorsOf data.length) hrefines.ok hindex ?_ ?_ ?_ ?_ ?_ ?_
    · rwa [hunused, if_neg Bool.false_ne_true] at hc
    · rw [← hv', ← htotal]
      rfl
    · intro j _ hj
      rw [← hv']
      rw [Volume.setEntry_of_ne _ _ hj, hv₁, Volume.setEntry_of_ne _ _ hj]
    · rw [hfinal]
      rfl
    · exact le_of_eq hextent
    · exact fun hu => absurd (hunused.symm.trans hu) Bool.false_ne_true
    · exact fun _ => hextent.symm

/-- **`fs_symlink`** under a new name. -/
theorem VolumeOk.fsSymlink_new (h : VolumeOk v) {target : Name}
    (hroom : Room v (slots + 1) (sectors + sectorsOf target.length))
    (htarget : validSymlinkTarget target = true) (hname : validName name = true)
    (hnew : filesOf v name = none) (hparent : (filesOf v).hasParent name = true) :
    ∃ v', fsSymlink v target name = (true, v') ∧ Refines v v' ((filesOf v).set name
        (some ⟨.symlink, 0o777, v.currentUid, target⟩)) ∧
      Consumes v v' 1 (sectorsOf target.length) := by
  obtain ⟨v₁, hwrite, hrefines₁, hconsumes₁⟩ := h.fsWrite_new hroom hname hnew hparent
  have hnode : filesOf v₁ name = some ⟨.file, 0o660, v.currentUid, target⟩ := by
    rw [hrefines₁.files, Files.set, Function.update_self]
  obtain ⟨index, hf, -⟩ := findEntry_of_filesOf hnode
  obtain ⟨hindex, hused, -⟩ := findEntry_some hf
  obtain ⟨v₂, hsave, -⟩ := hrefines₁.ok.savedHeader
    (e := { v₁.entries index with type := .symlink, flags := 0o777 }) hindex hused hused rfl
    (show 0o777 < 512 by decide) rfl rfl rfl
  have hcall : fsSymlink v target name = (true, v₂) := by
    rw [fsSymlink, h.mounted, htarget, hname, filesOf_eq_none.1 hnew, if_neg (by decide), hwrite]
    simp only
    rw [hf]
    exact hsave
  have hlen : target.length + 511 < 2 ^ 64 := by
    have hsectors := hroom.sectors
    have hsmall := h.small
    have hsize : target.length ≤ sectorsOf target.length * 512 := by
      rw [sectorsOf]
      omega
    omega
  rcases fsSymlink_cases h target name hlen with hfalse | ⟨-, hfalse⟩ | ⟨v', htrue, hrefines⟩
  · cases hcall.symm.trans hfalse
  · rw [hcall] at hfalse
    cases hfalse
  · have hv' := (Prod.mk.inj (hcall.symm.trans htrue)).2
    rw [hv'] at hsave
    have hconsumes₂ := hrefines₁.ok.consumes_header hrefines.ok hindex hused hsave hused rfl rfl
    exact ⟨v', htrue, hrefines, hconsumes₁.trans hconsumes₂⟩

/-! ### Calls that change a header -/

section

variable (h : VolumeOk v) (hpriv : v.currentPrivileged = true) (hname : validName name = true)
  (hfound : filesOf v name ≠ none)

include h hpriv hname hfound

/-- **`fs_chmod`** by a privileged user. -/
theorem VolumeOk.fsChmod_found {mode : ℕ}
    (hmode : mode ≤ 0o777) :
    ∃ v', fsChmod v name mode = (true, v') ∧
      Refines v v' ((filesOf v).modify name fun node => { node with mode := mode }) ∧
      Consumes v v' 0 0 := by
  cases hf : findEntry v name with
  | none => exact absurd (filesOf_eq_none.2 hf) hfound
  | some index =>
    obtain ⟨hindex, hused, -⟩ := findEntry_some hf
    have hcall : fsChmod v name mode = saveEntry (v.setEntry index
        { v.entries index with flags := (v.entries index).flags &&& 0xFE00 ||| mode }) index := by
      rw [fsChmod, h.mounted, hname, if_neg (by simpa using hmode), hf]
      simp only
      rw [hpriv, if_neg (by simp)]
    rcases fsChmod_cases h name mode with hfalse | ⟨v', htrue, hrefines⟩
    · obtain ⟨disk, hsave, -⟩ := saveEntry_eq (v.setEntry index
        { v.entries index with flags := (v.entries index).flags &&& 0xFE00 ||| mode }) h.large
        h.small hindex
      cases (hsave.symm.trans hcall.symm).trans hfalse
    · exact ⟨v', htrue, hrefines,
        h.consumes_header hrefines.ok hindex hused (hcall.symm.trans htrue) hused rfl rfl⟩

/-- **`fs_chown`** by a privileged user. -/
theorem VolumeOk.fsChown_found (owner : ℕ) :
    ∃ v', fsChown v name owner = (true, v') ∧
      Refines v v' ((filesOf v).modify name fun node => { node with owner := owner }) ∧
      Consumes v v' 0 0 := by
  cases hf : findEntry v name with
  | none => exact absurd (filesOf_eq_none.2 hf) hfound
  | some index =>
    obtain ⟨hindex, hused, -⟩ := findEntry_some hf
    have hcall : fsChown v name owner =
        saveEntry (v.setEntry index { v.entries index with owner := owner }) index := by
      rw [fsChown, h.mounted, hname, hpriv, if_neg (by decide), hf]
    rcases fsChown_cases h name owner with hfalse | ⟨v', htrue, hrefines⟩
    · obtain ⟨disk, hsave, -⟩ := saveEntry_eq
        (v.setEntry index { v.entries index with owner := owner }) h.large h.small hindex
      cases (hsave.symm.trans hcall.symm).trans hfalse
    · exact ⟨v', htrue, hrefines,
        h.consumes_header hrefines.ok hindex hused (hcall.symm.trans htrue) hused rfl rfl⟩

end

end

/-! ### A formatted volume -/

/-- No slot of a formatted volume is in use, and no sector of its data area. -/
theorem formatted_unused {total : ℕ} (disk : ℕ → ℕ → UInt8) (hlarge : 4608 + 128 < total)
    (hsmall : total ≤ 0x10000000) :
    (usedSlots (formatted total disk)).card = 0 ∧ nextDataLba (formatted total disk) = 4608 := by
  have hunused : ∀ i, ((formatted total disk).entries i).used = false := by
    intro i
    obtain ⟨disk', heq⟩ := formatted_eq disk hlarge hsmall
    rw [heq]
    rfl
  refine ⟨?_, le_antisymm ?_ ?_⟩
  · rw [usedSlots, Finset.filter_false_of_mem]
    · rfl
    · intro i _
      rw [hunused i]
      exact Bool.false_ne_true
  · exact nextDataLba_le_of (le_refl _) fun i _ hu =>
      absurd ((hunused i).symm.trans hu) Bool.false_ne_true
  · exact (foldl_next (formatted total disk) (List.range' 0 1024) 4608).1

theorem formatted_room {total slots sectors : ℕ} (disk : ℕ → ℕ → UInt8) (hlarge : 4608 + 128 < total)
    (hsmall : total ≤ 0x10000000) (hslots : slots ≤ 1024) (hsectors : 4608 + sectors ≤ total) :
    Room (formatted total disk) slots sectors := by
  obtain ⟨hused, hnext⟩ := formatted_unused disk hlarge hsmall
  obtain ⟨disk', heq⟩ := formatted_eq disk hlarge hsmall
  have htotal : (formatted total disk).totalSectors = total := by rw [heq]
  refine ⟨?_, ?_⟩
  · rw [hused, zero_add]
    exact hslots
  · rw [hnext, htotal]
    exact hsectors

end NovaOS.Fs
