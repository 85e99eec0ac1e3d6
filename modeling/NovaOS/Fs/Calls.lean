import NovaOS.Fs.Files
import NovaOS.Fs.Placement

/-!
# What each call of NovaFS does to the files

For every mutating call there is one theorem `…_cases` that lists its outcomes on a volume that meets
`VolumeOk`: it was refused and the volume is as before, or it succeeded and the files are those the
abstract filesystem has after the same call.  Only the calls that need new sectors have a third
outcome, a write that does not fit (`FitsWrite`, `FitsWriteAt`).

`fs_write` and `fs_write_at` open the entry they write to in the same way, up to an extra save;
`Opened` says what opening can lead to, and `Opened.refines` what a write behind it means.
-/

set_option maxRecDepth 2000

namespace NovaOS.Fs

/-- A call that succeeded: the invariant holds again and the files are `files`. -/
structure Refines (v v' : Volume) (files : Files) : Prop where
  ok : VolumeOk v'
  files : filesOf v' = files
  uid : v'.currentUid = v.currentUid
  privileged : v'.currentPrivileged = v.currentPrivileged

/-- The sectors a file of `size` bytes takes. -/
def sectorsOf (size : ℕ) : ℕ := max 1 ((size + 511) / 512)

/-- The existing entry a write to `name` goes to. -/
def writeTarget (v : Volume) (name : Name) : Option ℕ :=
  match findEntry v name with
  | none => none
  | some index =>
    if (v.entries index).type = .symlink then resolveEntry v name else some index

/-- The sectors of the extent a write to `name` finds. -/
def extentSectors (v : Volume) (name : Name) : ℕ :=
  match writeTarget v name with
  | none => 0
  | some index => (v.entries index).capacitySectors

/-- A file of `size` bytes fits where `fs_write` would put it: in the extent there is, or in the free
tail of the disk. -/
def FitsWrite (v : Volume) (name : Name) (size : ℕ) : Prop :=
  sectorsOf size ≤ extentSectors v name ∨ nextDataLba v + sectorsOf size ≤ v.totalSectors

/-- A new file that ends at `finish` fits in the free tail of the disk. -/
def FitsWriteAt (v : Volume) (name : Name) (finish : ℕ) : Prop :=
  findEntry v name = none → nextDataLba v + sectorsOf finish ≤ v.totalSectors

section

variable {v v₁ v' : Volume} {name : Name} {index : ℕ}

/-! ### Opening an entry for a write -/

/-- What opening `name` for a write leads to. -/
inductive Opened (v : Volume) (name : Name) : Option ℕ × Volume → Prop
  | refused : Opened v name (none, v)
  | existing {index : ℕ} (hindex : index < 1024) (hused : (v.entries index).used = true)
      (hfound : findEntry v name ≠ none) (htarget : writeTarget v name = some index)
      (hpath : (filesOf v).target name = some (v.entries index).name) :
      Opened v name (some index, v)
  | created {index : ℕ} {v₁ : Volume} (hnone : findEntry v name = none)
      (hunused : slot v index = none)
      (hbecomes : Becomes v v₁ index (some (name, ⟨.file, 0o660, v.currentUid, []⟩)))
      (hcapacity : (v₁.entries index).capacitySectors = 0)
      (hnext : nextDataLba v₁ = nextDataLba v) (htotal : v₁.totalSectors = v.totalSectors) :
      Opened v name (some index, v₁)

theorem VolumeOk.opened_existing (h : VolumeOk v) (hf : findEntry v name = some index) :
    Opened v name
      (if (v.entries index).type = .symlink then (resolveEntry v name, v) else (some index, v)) := by
  obtain ⟨hindex, hused, hname⟩ := findEntry_some hf
  have hfound : findEntry v name ≠ none := by rw [hf]; nofun
  have htarget : writeTarget v name =
      if (v.entries index).type = .symlink then resolveEntry v name else some index := by
    rw [writeTarget, hf]
  have hpath : (filesOf v).target name =
      if (v.entries index).type = .symlink then (filesOf v).resolve 8 name else some name := by
    rw [Files.target, filesOf_of_findEntry hf]
    rfl
  by_cases htype : (v.entries index).type = .symlink
  · rw [if_pos htype] at htarget hpath ⊢
    cases hr : resolveEntry v name with
    | none => exact .refused
    | some i =>
      have hres := h.resolveLoop_eq 8 name
      rw [show resolveLoop v 8 name = some i from hr] at hres
      obtain ⟨path, hpath', hi⟩ := Option.bind_eq_some_iff.1 hres.symm
      obtain ⟨hi', hu, hn⟩ := findEntry_some hi
      exact .existing hi' hu hfound (htarget.trans hr) (by rw [hpath, hpath', hn])
  · rw [if_neg htype] at htarget hpath ⊢
    exact .existing hindex hused hfound htarget (by rw [hpath, hname])

/-- A new entry has no extent, so it does not move the free tail. -/
theorem nextDataLba_newEntry (hunused : (v.entries index).used = false) (type : FsType)
    (mode : ℕ) : nextDataLba (v.setEntry index (newEntry v name type mode)) = nextDataLba v := by
  rw [nextDataLba, nextDataLba]
  congr 1
  funext next i
  by_cases hi : i = index
  · subst hi
    rw [Volume.setEntry_self, hunused]
    rfl
  · rw [Volume.setEntry_of_ne _ _ hi]

/-- `allocate_entry` for a file that does not exist. -/
theorem VolumeOk.opened_allocate (h : VolumeOk v) (hf : findEntry v name = none) :
    Opened v name (allocateEntry v name .file 0o660) := by
  rcases allocateEntry_cases h name .file 0o660 with hnone | ⟨index, heq, -, hunused, hb⟩
  · rw [hnone]
    exact .refused
  · rw [heq]
    refine .created hf (slot_of_unused hunused) (hb v.disk fun _ _ => rfl) ?_
      (nextDataLba_newEntry hunused _ _) rfl
    rw [Volume.setEntry_self]
    rfl

theorem VolumeOk.openWrite_opened (h : VolumeOk v) (name : Name) :
    Opened v name (openWrite v name) := by
  rw [openWrite]
  cases hf : findEntry v name with
  | none => exact h.opened_allocate hf
  | some index => exact h.opened_existing hf

theorem VolumeOk.openWriteAt_opened (h : VolumeOk v) (name : Name) :
    Opened v name (openWriteAt v name) := by
  rw [openWriteAt]
  cases hf : findEntry v name with
  | some index => exact h.opened_existing hf
  | none =>
    rcases allocateEntry_cases h name .file 0o660 with hnone | ⟨index, heq, hindex, hunused, hb⟩
    · rw [hnone]
      exact .refused
    · rw [heq]
      obtain ⟨disk', hsave, hsame⟩ := saveEntry_eq (v.setEntry index (newEntry v name .file 0o660))
        h.large h.small hindex
      simp only [hsave]
      refine .created hf (slot_of_unused hunused) (hb disk' hsame) ?_
        (nextDataLba_newEntry hunused _ _) rfl
      rw [Volume.setEntry_self]
      rfl

/-! ### Writing behind an opened entry -/

namespace Opened

theorem ok (h : VolumeOk v) (ho : Opened v name (some index, v₁)) :
    VolumeOk v₁ ∧ index < 1024 ∧ (v₁.entries index).used = true := by
  cases ho with
  | existing hindex hused _ _ _ => exact ⟨h, hindex, hused⟩
  | created _ _ hb _ _ _ => exact ⟨hb.ok, hb.inTable, (slot_eq_some hb.self).1⟩

/-- A created file may be written by the one who created it. -/
theorem eq_of_rejected (ho : Opened v name (some index, v₁))
    (hr : ((v₁.entries index).type ≠ .file || !mayWrite v₁ (v₁.entries index)) = true) :
    v₁ = v := by
  cases ho with
  | existing _ _ _ _ _ => rfl
  | created _ _ hb _ _ _ =>
    obtain ⟨-, -, hnode⟩ := slot_eq_some hb.self
    have htype : (v₁.entries index).type = .file := congrArg Node.type hnode
    have hflags : (v₁.entries index).flags = 0o660 := congrArg Node.mode hnode
    have howner : (v₁.entries index).owner = v₁.currentUid :=
      (congrArg Node.owner hnode).trans hb.uid.symm
    have hmode : entryMode (v₁.entries index) = 0o660 := by
      rw [entryMode, hflags]
      rfl
    have hwrite : mayWrite v₁ (v₁.entries index) = true := by
      rw [mayWrite, if_pos howner.symm, hmode]
      cases v₁.currentPrivileged with
      | true => rfl
      | false => rfl
    rw [htype, hwrite] at hr
    exact absurd hr (by decide)

/-- **The file behind an opened entry was changed by `f`.** -/
theorem refines (h : VolumeOk v) (ho : Opened v name (some index, v₁))
    {f : List UInt8 → List UInt8}
    (hb : Becomes v₁ v' index (some ((v₁.entries index).name,
      { nodeOf v₁.disk (v₁.entries index) with
        bytes := f (fileBytes v₁.disk (v₁.entries index)) }))) :
    Refines v v' ((filesOf v).write v.currentUid name f) := by
  cases ho with
  | existing hindex hused hfound _ hpath =>
    refine ⟨hb.ok, ?_, hb.uid, hb.privileged⟩
    have hslot := slot_of_used hused
    have hnode := filesOf_of_findEntry (h.findEntry_eq hindex hused)
    cases hfile : filesOf v name with
    | none => exact absurd (filesOf_eq_none.1 hfile) hfound
    | some node =>
      rw [Files.write, hfile, hpath]
      simp only
      rw [Files.modify, hnode, Option.map_some]
      apply Becomes.filesOf_eq h (some _) hb
      · intro q n hq
        rw [hslot, Option.some.injEq, Prod.mk.injEq] at hq
        exact hq.1.symm
      · exact nofun
  | created hnone hunused hb₁ _ _ _ =>
    obtain ⟨-, hname, hnode⟩ := slot_eq_some hb₁.self
    have hbytes : fileBytes v₁.disk (v₁.entries index) = [] := congrArg Node.bytes hnode
    rw [hname, hnode, hbytes] at hb
    have hb₂ := hb₁.trans hb
    refine ⟨hb.ok, ?_, hb₂.uid, hb₂.privileged⟩
    rw [Files.write, filesOf_eq_none.2 hnone]
    apply Becomes.filesOf_eq h (some _) hb₂
    · intro q n hq
      rw [hunused] at hq
      exact absurd hq nofun
    · exact nofun

end Opened

theorem fsWrite_cases (h : VolumeOk v) (name : Name) (data : List UInt8)
    (hlen : data.length + 511 < 2 ^ 64) :
    fsWrite v name data = (false, v) ∨
    (¬ FitsWrite v name data.length ∧ (fsWrite v name data).1 = false) ∨
    ∃ v', fsWrite v name data = (true, v') ∧
      Refines v v' ((filesOf v).write v.currentUid name fun _ => data) := by
  obtain ⟨-, -, hsectors⟩ := requiredSectors_spec hlen
  have ho := h.openWrite_opened name
  rw [fsWrite]
  split
  · exact .inl rfl
  generalize openWrite v name = r at ho ⊢
  obtain ⟨found, v₁⟩ := r
  cases found with
  | none =>
    cases ho
    exact .inl rfl
  | some index =>
    simp only
    split
    · rename_i hr
      rw [ho.eq_of_rejected hr]
      exact .inl rfl
    obtain ⟨hok₁, hindex, hused⟩ := ho.ok h
    rcases writeEntryData_cases hok₁ hindex hused data hlen with
      ⟨hbig, heq⟩ | ⟨hcap, hroom, heq⟩ | ⟨v', heq, hb⟩
    · rw [heq]
      cases ho with
      | existing => exact .inl rfl
      | created hnone _ _ _ _ _ =>
        refine .inr (.inl ⟨?_, rfl⟩)
        have hsmall := h.small
        rw [FitsWrite, extentSectors, writeTarget, hnone, sectorsOf]
        simp only
        omega
    · refine .inr (.inl ⟨?_, heq⟩)
      rw [FitsWrite, sectorsOf, ← hsectors]
      cases ho with
      | existing _ _ _ htarget _ =>
        rw [extentSectors, htarget]
        simp only
        omega
      | created hnone _ _ hcap₁ hnext htotal =>
        rw [extentSectors, writeTarget, hnone]
        simp only
        omega
    · exact .inr (.inr ⟨v', heq, ho.refines h hb⟩)

theorem fsWriteAt_cases (h : VolumeOk v) (name : Name) (offset : ℕ) (data : List UInt8)
    (hlen : offset + data.length + 511 < 2 ^ 64) :
    fsWriteAt v name offset data = (false, v) ∨
    (¬ FitsWriteAt v name (offset + data.length) ∧ (fsWriteAt v name offset data).1 = false) ∨
    ∃ v', fsWriteAt v name offset data = (true, v') ∧
      Refines v v' ((filesOf v).write v.currentUid name fun old => overwrite old offset data) := by
  have ho := h.openWriteAt_opened name
  rw [fsWriteAt]
  split
  · exact .inl rfl
  generalize openWriteAt v name = r at ho ⊢
  obtain ⟨found, v₁⟩ := r
  cases found with
  | none =>
    cases ho
    exact .inl rfl
  | some index =>
    simp only
    split
    · rename_i hr
      rw [ho.eq_of_rejected hr]
      exact .inl rfl
    obtain ⟨hok₁, hindex, hused⟩ := ho.ok h
    have hentry := hok₁.entry index hindex hused
    have hsize : max (offset + data.length) (v₁.entries index).size + 511 < 2 ^ 64 := by
      have hfit := hentry.size
      have hin := hentry.inside
      have hsmall := hok₁.small
      omega
    rcases writeEntryAt_cases hok₁ hindex hused offset data hsize with ⟨hwhy, heq⟩ | ⟨v', heq, hb⟩
    · rw [heq]
      cases ho with
      | existing => exact .inl rfl
      | created hnone _ hb₁ hcap hnext htotal =>
        refine .inr (.inl ⟨?_, rfl⟩)
        intro hfits
        have hroom := hfits hnone
        have hsmall := h.small
        have hzero : (v₁.entries index).size = 0 := by
          have hfit := hentry.size
          omega
        rw [hzero, max_zero, hnext, htotal, (requiredSectors_spec hlen).2.2] at hwhy
        rw [sectorsOf] at hroom
        omega
    · exact .inr (.inr ⟨v', heq, ho.refines h hb⟩)

/-! ### The directory calls -/

section

variable (h : VolumeOk v)

include h

/-- A call that changed the node at a path that is there. -/
theorem VolumeOk.refines_modify (hf : findEntry v name = some index)
    {f : Node → Node}
    (hb : Becomes v v' index (some (name, f (nodeOf v.disk (v.entries index))))) :
    Refines v v' ((filesOf v).modify name f) := by
  obtain ⟨-, hused, hname⟩ := findEntry_some hf
  refine ⟨hb.ok, ?_, hb.uid, hb.privileged⟩
  rw [Files.modify, filesOf_of_findEntry hf, Option.map_some]
  apply Becomes.filesOf_eq h (some _) hb
  · intro q n hq
    rw [slot_of_used hused, Option.some.injEq, Prod.mk.injEq, hname] at hq
    exact hq.1.symm
  · exact nofun

theorem fsDelete_cases (name : Name) :
    fsDelete v name = (false, v) ∨
    ∃ v', fsDelete v name = (true, v') ∧ Refines v v' ((filesOf v).set name none) := by
  rw [fsDelete]
  split
  · exact .inl rfl
  cases hf : findEntry v name with
  | none => exact .inl rfl
  | some index =>
    obtain ⟨hindex, hused, hname⟩ := findEntry_some hf
    simp only
    generalize mayWrite v (v.entries index) = may
    generalize ((v.entries index).type = .directory && _ : Bool) = busy
    cases may with
    | false => exact .inl rfl
    | true =>
      cases busy with
      | true => exact .inl rfl
      | false =>
        right
        obtain ⟨disk', hsave, hsame⟩ := saveEntry_eq (v.setEntry index FsEntry.zero) h.large h.small
          hindex
        have hb := h.clears FsEntry.zero disk' hindex rfl hsame
        refine ⟨_, hsave, hb.ok, ?_, hb.uid, hb.privileged⟩
        have hslot := slot_of_used hused
        rw [hname] at hslot
        apply Becomes.filesOf_eq h none hb
        · intro q n hq
          rw [hslot, Option.some.injEq, Prod.mk.injEq] at hq
          exact hq.1.symm
        · exact fun _ => ⟨_, hslot⟩

/-- A call that put a node at a path where nothing was. -/
theorem VolumeOk.refines_create (hunused : slot v index = none) {node : Node}
    (hb : Becomes v v' index (some (name, node))) :
    Refines v v' ((filesOf v).set name (some node)) := by
  refine ⟨hb.ok, ?_, hb.uid, hb.privileged⟩
  apply Becomes.filesOf_eq h (some node) hb
  · intro q n hq
    rw [hunused] at hq
    exact absurd hq nofun
  · exact nofun

theorem fsMkdir_cases (name : Name) (mode : ℕ) :
    fsMkdir v name mode = (false, v) ∨
    ∃ v', fsMkdir v name mode = (true, v') ∧ Refines v v' ((filesOf v).set name
      (some ⟨.directory, if mode ≠ 0 then mode else 0o777, v.currentUid, []⟩)) := by
  rw [fsMkdir]
  split
  · exact .inl rfl
  rename_i hc
  have hmode : mode ≤ 0o777 := by
    simp only [Bool.or_eq_true, decide_eq_true_eq, not_or] at hc
    omega
  have hbits : (if mode ≠ 0 then mode else 0o777) &&& 0o777 =
      if mode ≠ 0 then mode else 0o777 := by
    rw [show (0o777 : ℕ) = 2 ^ 9 - 1 from rfl, Nat.and_two_pow_sub_one_eq_mod]
    split <;> omega
  rcases allocateEntry_cases h name .directory (if mode ≠ 0 then mode else 0o777) with
    hnone | ⟨index, heq, hindex, hunused, hb⟩
  · rw [hnone]
    exact .inl rfl
  · obtain ⟨disk', hsave, hsame⟩ := saveEntry_eq (v.setEntry index (newEntry v name .directory
      (if mode ≠ 0 then mode else 0o777))) h.large h.small hindex
    rw [heq]
    simp only [hsave]
    rw [hbits] at hb
    exact .inr ⟨_, rfl, h.refines_create (slot_of_unused hunused) (hb disk' hsame)⟩

theorem fsSymlink_cases (target name : Name)
    (hlen : target.length + 511 < 2 ^ 64) :
    fsSymlink v target name = (false, v) ∨
    (¬ FitsWrite v name target.length ∧ (fsSymlink v target name).1 = false) ∨
    ∃ v', fsSymlink v target name = (true, v') ∧
      Refines v v' ((filesOf v).set name (some ⟨.symlink, 0o777, v.currentUid, target⟩)) := by
  rw [fsSymlink]
  split
  · exact .inl rfl
  rename_i hc
  have hnone : filesOf v name = none := by
    rw [filesOf_eq_none]
    simp only [Bool.or_eq_true, not_or, Option.isSome_iff_ne_none, ne_eq, not_not] at hc
    exact hc.2
  rcases fsWrite_cases h name target hlen with heq | ⟨hfits, heq⟩ | ⟨v₁, heq, hr⟩
  · rw [heq]
    exact .inl rfl
  · refine .inr (.inl ⟨hfits, ?_⟩)
    generalize fsWrite v name target = r at heq ⊢
    obtain ⟨result, v₁⟩ := r
    obtain rfl : result = false := heq
    rfl
  · right; right
    have hfiles := hr.files
    rw [Files.write, hnone] at hfiles
    simp only at hfiles
    rw [heq]
    simp only
    -- the new file is there, and turns into the link
    have hnode : filesOf v₁ name = some ⟨.file, 0o660, v.currentUid, target⟩ := by
      rw [hfiles, Files.set, Function.update_self]
    obtain ⟨index, hf, hnode⟩ := findEntry_of_filesOf hnode
    obtain ⟨hindex, hused, hname⟩ := findEntry_some hf
    rw [hf]
    obtain ⟨v', hsave, hb⟩ := hr.ok.savedHeader
      (e := { v₁.entries index with type := .symlink, flags := 0o777 }) hindex hused hused rfl
      (show 0o777 < 512 by decide) rfl rfl rfl
    refine ⟨v', hsave, hb.ok, ?_, hb.uid.trans hr.uid, hb.privileged.trans hr.privileged⟩
    have hmod := hr.ok.refines_modify (f := fun node => { node with
      type := .symlink, mode := 0o777 }) hf (by rw [← hname]; exact hb)
    rw [hmod.files, Files.modify, filesOf_of_findEntry hf, hnode, hfiles, Files.set, Files.set,
      Files.set, Function.update_idem]
    rfl

theorem fsChmod_cases (name : Name) (mode : ℕ) :
    fsChmod v name mode = (false, v) ∨
    ∃ v', fsChmod v name mode = (true, v') ∧
      Refines v v' ((filesOf v).modify name fun node => { node with mode := mode }) := by
  rw [fsChmod]
  split
  · exact .inl rfl
  rename_i hc
  cases hf : findEntry v name with
  | none => exact .inl rfl
  | some index =>
    obtain ⟨hindex, hused, hname⟩ := findEntry_some hf
    simp only
    split
    · exact .inl rfl
    right
    have hbits : (v.entries index).flags &&& 0xFE00 ||| mode = mode := by
      have hzero : ∀ flags, flags < 512 → flags &&& 0xFE00 = 0 := by decide
      rw [hzero _ (h.entry index hindex hused).flags, Nat.zero_or]
    rw [hbits]
    obtain ⟨v', hsave, hb⟩ := h.savedHeader (e := { v.entries index with flags := mode }) hindex
      hused hused rfl (by
        simp only [Bool.or_eq_true, decide_eq_true_eq, not_or] at hc
        show mode < 512
        omega) rfl rfl rfl
    exact ⟨v', hsave, h.refines_modify hf (by rw [← hname]; exact hb)⟩

theorem fsChown_cases (name : Name) (owner : ℕ) :
    fsChown v name owner = (false, v) ∨
    ∃ v', fsChown v name owner = (true, v') ∧
      Refines v v' ((filesOf v).modify name fun node => { node with owner := owner }) := by
  rw [fsChown]
  split
  · exact .inl rfl
  cases hf : findEntry v name with
  | none => exact .inl rfl
  | some index =>
    obtain ⟨hindex, hused, hname⟩ := findEntry_some hf
    right
    obtain ⟨v', hsave, hb⟩ := h.savedHeader (e := { v.entries index with owner := owner }) hindex
      hused hused rfl (h.entry index hindex hused).flags rfl rfl rfl
    exact ⟨v', hsave, h.refines_modify hf (by rw [← hname]; exact hb)⟩

end

end

end NovaOS.Fs
