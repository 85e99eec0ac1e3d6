import NovaOS.Fs.Mount
import NovaOS.Fs.Paths

/-!
# Making the entries of a version 1 volume again

The loops of `migrate_legacy` make one entry after the other on a formatted disk.  What has been made
so far is a map of files and a number of sectors, and whether the next entry can be made is a question
about those two alone (`Rebuildable`).

* `Holds v files next` — the volume holds these files, and its free sectors start at `next`;
* `rebuildOne_true` — an entry that can be made again is made;
* `rebuildOne_false` — an entry that cannot be made stops the migration; what is left of it, if
  anything, is an empty file (`Leaves`);
* `Leaves.fsRead_file` — every file made before can still be read.
-/

namespace NovaOS.Fs

open Function Nat

/-! ### What an entry becomes -/

/-- The target that the migration gives a link. -/
def LegacyBackup.target (old : LegacyBackup) : Name := cString (slash :: old.data)

/-- The file an entry becomes. -/
def LegacyBackup.node (old : LegacyBackup) : Node :=
  match old.entry.type with
  | .directory => ⟨.directory, old.entry.flags &&& 0o777, old.entry.owner, []⟩
  | .symlink => ⟨.symlink, old.entry.flags &&& 0o777, old.entry.owner, old.target⟩
  | _ => ⟨.file, old.entry.flags &&& 0o777, old.entry.owner, old.data⟩

/-- The sectors an entry takes. -/
def LegacyBackup.sectors (old : LegacyBackup) : ℕ :=
  match old.entry.type with
  | .directory => 0
  | .symlink => sectorsOf old.target.length
  | _ => sectorsOf old.data.length

/-- The name is valid and its parent is there. -/
def Placeable (files : Files) (old : LegacyBackup) : Prop :=
  validName old.entry.name = true ∧ files.hasParent old.entry.name = true

/-- The entry can be made when `files` are there and the free sectors start at `next`. -/
def Rebuildable (total : ℕ) (files : Files) (next : ℕ) (old : LegacyBackup) : Prop :=
  Placeable files old ∧
    match old.entry.type with
    | .directory => old.entry.flags ≤ 0o777
    | .symlink => 0 < old.entry.size ∧ old.entry.size ≤ 95 ∧
      validSymlinkTarget old.target = true ∧ next + old.sectors ≤ total
    | _ => next + old.sectors ≤ total

instance (files : Files) (old : LegacyBackup) : Decidable (Placeable files old) :=
  inferInstanceAs (Decidable (_ ∧ _))

instance (total : ℕ) (files : Files) (next : ℕ) (old : LegacyBackup) :
    Decidable (Rebuildable total files next old) := by
  unfold Rebuildable
  cases old.entry.type <;> infer_instance

/-- The two loops of the migration as one. -/
def rebuildOne (v : Volume) (old : LegacyBackup) : Bool × Volume :=
  if old.entry.type = .directory then rebuildDirectory v old else rebuildFile v old

/-- The volume of a migration that has made `files`. -/
structure Holds (total : ℕ) (v : Volume) (files : Files) (next count : ℕ) : Prop where
  ok : VolumeOk v
  files : filesOf v = files
  total : v.totalSectors = total
  next : nextDataLba v = next
  slots : (usedSlots v).card ≤ count
  privileged : v.currentPrivileged = true

section

variable {v v' : Volume} {total next count index : ℕ} {files : Files} {old : LegacyBackup} {name : Name}

section

variable (h : Holds total v files next count)

include h

theorem Holds.of_refines {files' : Files} {slots sectors : ℕ}
    (hrefines : Refines v v' files') (hconsumes : Consumes v v' slots sectors) :
    Holds total v' files' (next + sectors) (count + slots) where
  ok := hrefines.ok
  files := hrefines.files
  total := hconsumes.total.trans h.total
  next := hconsumes.sectors.trans (congrArg (· + sectors) h.next)
  slots := Nat.le_trans hconsumes.slots (Nat.add_le_add_right h.slots slots)
  privileged := hrefines.privileged.trans h.privileged

theorem Holds.room {slots sectors : ℕ}
    (hslots : count + slots ≤ 1024) (hsectors : next + sectors ≤ total) : Room v slots sectors := by
  refine ⟨Nat.le_trans (Nat.add_le_add_right h.slots slots) hslots, ?_⟩
  rw [h.next, h.total]
  exact hsectors

/-- The free sectors never start behind the disk. -/
theorem Holds.next_le : next ≤ total := by
  rw [← h.next, ← h.total]
  apply nextDataLba_le_of
  · have := h.ok.large
    omega
  · exact fun i hi hu => (h.ok.entry i hi hu).inside

theorem Holds.restoreOwner (node : Node)
    (hname : validName old.entry.name = true) (hfound : files old.entry.name = some node) :
    Holds total (restoreOwner v old.entry) (files.set old.entry.name (some { node with
      mode := old.entry.flags &&& 0o777, owner := old.entry.owner })) next count := by
  have hbits : old.entry.flags &&& 0o777 ≤ 0o777 := and_le_right
  have hthere : filesOf v old.entry.name ≠ none := by
    rw [h.files, hfound]
    exact fun hno => by cases hno
  obtain ⟨v₁, hchmod, hrefines₁, hconsumes₁⟩ := h.ok.fsChmod_found h.privileged hname hthere hbits
  have h₁ := h.of_refines hrefines₁ hconsumes₁
  have hthere₁ : filesOf v₁ old.entry.name ≠ none := by
    rw [hrefines₁.files, Files.modify, Files.set, update_self, h.files, hfound]
    exact fun hno => by cases hno
  obtain ⟨v₂, hchown, hrefines₂, hconsumes₂⟩ :=
    h₁.ok.fsChown_found h₁.privileged hname hthere₁ old.entry.owner
  have h₂ := h₁.of_refines hrefines₂ hconsumes₂
  rw [Fs.restoreOwner, hchmod, hchown]
  have hfiles : (filesOf v₁).modify old.entry.name (fun node => { node with
      owner := old.entry.owner }) = files.set old.entry.name (some { node with
      mode := old.entry.flags &&& 0o777, owner := old.entry.owner }) := by
    rw [hrefines₁.files, h.files]
    simp only [Files.modify, Files.set, update_self, hfound, Option.map_some, update_idem]
  rw [hfiles] at h₂
  exact h₂

end

/-! ### One entry -/

/-- Neither a directory nor a link. -/
def LegacyBackup.Regular (old : LegacyBackup) : Prop :=
  old.entry.type ≠ .directory ∧ old.entry.type ≠ .symlink

instance (old : LegacyBackup) : Decidable old.Regular := inferInstanceAs (Decidable (_ ∧ _))

theorem LegacyBackup.Regular.node (h : old.Regular) :
    old.node = ⟨.file, old.entry.flags &&& 0o777, old.entry.owner, old.data⟩ := by
  rw [LegacyBackup.node]
  cases htype : old.entry.type with
  | directory => exact absurd htype h.1
  | symlink => exact absurd htype h.2
  | none => rfl
  | file => rfl

theorem LegacyBackup.Regular.sectors (h : old.Regular) : old.sectors = sectorsOf old.data.length := by
  rw [LegacyBackup.sectors]
  cases htype : old.entry.type with
  | directory => exact absurd htype h.1
  | symlink => exact absurd htype h.2
  | none => rfl
  | file => rfl

theorem LegacyBackup.Regular.rebuildable_iff (h : old.Regular) :
    Rebuildable total files next old ↔ Placeable files old ∧ next + old.sectors ≤ total := by
  rw [Rebuildable]
  cases htype : old.entry.type with
  | directory => exact absurd htype h.1
  | symlink => exact absurd htype h.2
  | none => exact Iff.rfl
  | file => exact Iff.rfl

theorem rebuildOne_regular (h : old.Regular) (v : Volume) :
    rebuildOne v old =
      match fsWrite v old.entry.name old.data with
      | (false, v) => (false, v)
      | (true, v) => (true, restoreOwner v old.entry) := by
  have hfile : rebuildOne v old = rebuildFile v old := if_neg h.1
  have hcall : (if old.entry.type = .symlink then
      if old.entry.size = 0 || old.entry.size > 95 then (false, v)
      else fsSymlink v (cString (slash :: old.data)) old.entry.name
    else fsWrite v old.entry.name old.data) = fsWrite v old.entry.name old.data := if_neg h.2
  rw [hfile]
  exact congrArg (fun written : Bool × Volume => match written with
    | (false, v) => (false, v)
    | (true, v) => (true, restoreOwner v old.entry)) hcall

/-- What the call that makes an entry leaves, with the mode and owner restored. -/
theorem Holds.made (h : Holds total v files next count) (hname : validName old.entry.name = true)
    {node : Node} {sectors : ℕ} (hrefines : Refines v v' (files.set old.entry.name (some node)))
    (hconsumes : Consumes v v' 1 sectors) :
    Holds total (Fs.restoreOwner v' old.entry) (files.set old.entry.name (some { node with
      mode := old.entry.flags &&& 0o777, owner := old.entry.owner })) (next + sectors)
      (count + 1) := by
  have h₁ := (h.of_refines hrefines hconsumes).restoreOwner node hname
    (by rw [Files.set, update_self])
  rwa [Files.set, Files.set, update_idem] at h₁

/-- **An entry that can be made again is made.** -/
theorem rebuildOne_true (h : Holds total v files next count) (hcount : count + 1 ≤ 1024)
    (hnew : files old.entry.name = none) (hold : Rebuildable total files next old) :
    ∃ v', rebuildOne v old = (true, v') ∧
      Holds total v' (files.set old.entry.name (some old.node)) (next + old.sectors)
        (count + 1) := by
  have hname := hold.1.1
  have hnone : filesOf v old.entry.name = none := by rw [h.files, hnew]
  have hparent : (filesOf v).hasParent old.entry.name = true := by rw [h.files, hold.1.2]
  by_cases hdir : old.entry.type = .directory
  · have hflags : old.entry.flags ≤ 0o777 := by
      have hrest := hold.2
      rwa [hdir] at hrest
    have hroom : Room v (0 + 1) 0 := h.room (by omega) h.next_le
    obtain ⟨v₁, hcall, hrefines, hconsumes⟩ := h.ok.fsMkdir_new hroom hname hnone hparent hflags
    rw [h.files] at hrefines
    have hinfo : fsPathInfo v old.entry.name false = none := by
      rw [fsPathInfo, h.ok.mounted, hname, if_neg (by decide)]
      simp only [Bool.false_eq_true, if_false, filesOf_eq_none.1 hnone]
    refine ⟨restoreOwner v₁ old.entry, ?_, ?_⟩
    · rw [rebuildOne, if_pos hdir, rebuildDirectory, hinfo, if_neg (by decide), hcall]
    · rw [LegacyBackup.node, LegacyBackup.sectors, hdir]
      exact h.made hname hrefines hconsumes
  by_cases hlink : old.entry.type = .symlink
  · have hrest := hold.2
    rw [hlink] at hrest
    obtain ⟨hpos, hmax, htarget, hfits⟩ := hrest
    rw [LegacyBackup.sectors, hlink] at hfits
    have hroom : Room v (0 + 1) (0 + sectorsOf old.target.length) :=
      h.room (by omega) (by rwa [zero_add])
    obtain ⟨v₁, hcall, hrefines, hconsumes⟩ := h.ok.fsSymlink_new hroom htarget hname hnone hparent
    rw [h.files] at hrefines
    refine ⟨restoreOwner v₁ old.entry, ?_, ?_⟩
    · rw [rebuildOne, if_neg hdir, rebuildFile, if_pos hlink, if_neg, ← LegacyBackup.target, hcall]
      simp only [Bool.or_eq_true, decide_eq_true_eq]
      omega
    · rw [LegacyBackup.node, LegacyBackup.sectors, hlink]
      exact h.made hname hrefines hconsumes
  · have hregular : old.Regular := ⟨hdir, hlink⟩
    have hfits := (hregular.rebuildable_iff.1 hold).2
    rw [hregular.sectors] at hfits
    have hroom : Room v (0 + 1) (0 + sectorsOf old.data.length) :=
      h.room (by omega) (by rwa [zero_add])
    obtain ⟨v₁, hcall, hrefines, hconsumes⟩ := h.ok.fsWrite_new hroom hname hnone hparent
    rw [h.files] at hrefines
    refine ⟨restoreOwner v₁ old.entry, ?_, ?_⟩
    · rw [rebuildOne_regular hregular, hcall]
    · rw [hregular.node, hregular.sectors]
      exact h.made hname hrefines hconsumes

/-! ### An entry that cannot be made -/

/-- An empty file to be entered in a free slot. -/
structure EmptyFile (v : Volume) (name : Name) (index : ℕ) (e : FsEntry) : Prop where
  inTable : index < 1024
  unused : (v.entries index).used = false
  used : e.used = true
  name : e.name = name
  type : e.type = .file
  size : e.size = 0

/-- What a failed attempt to make an entry leaves: nothing, or an empty file under its name. -/
inductive Leaves (v : Volume) (name : Name) : Volume → Prop
  | nothing : Leaves v name v
  | empty {index : ℕ} {e : FsEntry} (h : EmptyFile v name index e) :
    Leaves v name (v.setEntry index e)

theorem fsWrite_refused {data : List UInt8} (hnew : filesOf v name = none)
    (h : ¬(validName name = true ∧ (filesOf v).hasParent name = true)) :
    fsWrite v name data = (false, v) := by
  rw [fsWrite]
  split
  · rfl
  · next hcheck =>
    simp only [Bool.or_eq_true, Bool.not_eq_true', not_or, Bool.not_eq_false] at hcheck
    have hparent : parentDirectoryExists v name = false := by
      rw [parentDirectoryExists_eq, ← Bool.not_eq_true]
      exact fun hp => h ⟨hcheck.2, hp⟩
    rw [openWrite, filesOf_eq_none.1 hnew, allocateEntry, hparent]
    simp only [Bool.not_false, Bool.or_true, if_true]

/-- `fs_write` of a new file that does not fit leaves it empty. -/
theorem VolumeOk.fsWrite_full (h : VolumeOk v) (data : List UInt8)
    (hroom : Room v (0 + 1) 0) (hname : validName name = true) (hnew : filesOf v name = none)
    (hparent : (filesOf v).hasParent name = true) (hlen : data.length + 511 < 2 ^ 64)
    (hfull : v.totalSectors < nextDataLba v + sectorsOf data.length) :
    ∃ index e, fsWrite v name data = (false, v.setEntry index e) ∧ EmptyFile v name index e := by
  obtain ⟨index, halloc, hindex, hunused⟩ := hroom.allocateEntry hname hnew hparent .file 0o660
  have hnewName : (newEntry v name .file 0o660).name = name :=
    List.take_of_length_le (validName_length hname)
  have hself := v.setEntry_self index (newEntry v name .file 0o660)
  have hnext : nextDataLba (v.setEntry index (newEntry v name .file 0o660)) = nextDataLba v :=
    nextDataLba_newEntry hunused .file 0o660
  obtain ⟨hpos, -, hrequired⟩ := requiredSectors_spec hlen
  rw [← sectorsOf] at hrequired
  have hwrite : fsWrite v name data =
      writeEntryData (v.setEntry index (newEntry v name .file 0o660)) index data := by
    rw [fsWrite, h.mounted, hname, if_neg (by decide), openWrite, filesOf_eq_none.1 hnew, halloc]
    simp only
    rw [if_neg]
    rw [hself, mayWrite_newEntry]
    exact Bool.false_ne_true
  rw [hwrite, writeEntryData]
  split
  · exact ⟨index, _, rfl, hindex, hunused, rfl, hnewName, rfl, rfl⟩
  · rw [hself, hnext, hrequired]
    rw [hrequired] at hpos
    rw [if_pos (show (newEntry v name .file 0o660).capacitySectors < sectorsOf data.length from hpos)]
    obtain ⟨e, he⟩ : ∃ e : FsEntry, e = { newEntry v name .file 0o660 with
      startLba := nextDataLba v, capacitySectors := sectorsOf data.length } := ⟨_, rfl⟩
    have hend : e.startLba + sectorsOf data.length >
        ((v.setEntry index (newEntry v name .file 0o660)).setEntry index e).totalSectors := by
      rw [he]
      generalize nextDataLba v = next at hfull
      exact hfull
    rw [← he, if_pos hend]
    refine ⟨index, e, ?_, hindex, hunused, by rw [he]; rfl, by rw [he]; exact hnewName,
      by rw [he]; rfl, by rw [he]; rfl⟩
    rw [Prod.mk.injEq]
    exact ⟨rfl, v.setEntry_setEntry index _ _ v.disk⟩

section

variable (h : Holds total v files next count) (hcount : count + 1 ≤ 1024)
  (hnew : files old.entry.name = none) (hsize : old.data.length < 2 ^ 62)

include h hcount hnew hsize

/-- The volume was left alone, or has an empty file more. -/
theorem fsSymlink_false (hnot : ¬(Placeable files old ∧ validSymlinkTarget old.target = true ∧
      next + sectorsOf old.target.length ≤ total)) :
    ∃ w, fsSymlink v old.target old.entry.name = (false, w) ∧ Leaves v old.entry.name w ∧
      (¬Placeable files old → w = v) := by
  have hnone : filesOf v old.entry.name = none := by rw [h.files, hnew]
  rw [fsSymlink]
  split
  · exact ⟨v, rfl, .nothing, fun _ => rfl⟩
  next hcheck =>
  simp only [Bool.or_eq_true, Bool.not_eq_true', not_or, Bool.not_eq_false] at hcheck
  by_cases hplace : Placeable files old
  · have hlength : old.target.length ≤ old.data.length + 1 := (List.takeWhile_sublist _).length_le
    obtain ⟨index, e, hwrite, hempty⟩ := h.ok.fsWrite_full old.target
      (h.room (by omega) h.next_le) hplace.1 hnone (by rw [h.files]; exact hplace.2) (by omega)
      (by
        rw [h.next, h.total]
        exact Nat.lt_of_not_le fun hfits => hnot ⟨hplace, hcheck.1.1.2, hfits⟩)
    rw [hwrite]
    exact ⟨_, rfl, .empty hempty, fun hp => absurd hplace hp⟩
  · rw [fsWrite_refused hnone (by rw [h.files]; exact hplace)]
    exact ⟨v, rfl, .nothing, fun _ => rfl⟩

/-- **An entry that cannot be made stops the migration.** -/
theorem rebuildOne_false (hnot : ¬Rebuildable total files next old) :
    ∃ w, rebuildOne v old = (false, w) ∧ Leaves v old.entry.name w ∧
      (¬Placeable files old → w = v) ∧
      (old.Regular → Placeable files old →
        ∃ index e, w = v.setEntry index e ∧ EmptyFile v old.entry.name index e) := by
  have hnone : filesOf v old.entry.name = none := by rw [h.files, hnew]
  by_cases hdir : old.entry.type = .directory
  · refine ⟨v, ?_, .nothing, fun _ => rfl, fun hr => absurd hdir hr.1⟩
    have hinfo : fsPathInfo v old.entry.name false = none := by
      rw [fsPathInfo]
      split
      · rfl
      · simp only [Bool.false_eq_true, if_false, filesOf_eq_none.1 hnone]
    have hmkdir : fsMkdir v old.entry.name old.entry.flags = (false, v) := by
      rw [fsMkdir]
      split
      · rfl
      next hcheck =>
      simp only [Bool.or_eq_true, Bool.not_eq_true', decide_eq_true_eq, not_or,
        Bool.not_eq_false, not_lt] at hcheck
      have hparent : parentDirectoryExists v old.entry.name = false := by
        rw [parentDirectoryExists_eq, h.files, ← Bool.not_eq_true]
        intro hp
        apply hnot
        rw [Rebuildable, hdir]
        exact ⟨⟨hcheck.1.2, hp⟩, hcheck.2⟩
      rw [allocateEntry, hparent]
      simp only [Bool.not_false, Bool.or_true, if_true]
    rw [rebuildOne, if_pos hdir, rebuildDirectory, hinfo, if_neg (by decide), hmkdir]
  by_cases hlink : old.entry.type = .symlink
  · have hnotLink : ∀ w, (old.Regular → Placeable files old →
        ∃ index e, w = v.setEntry index e ∧ EmptyFile v old.entry.name index e) :=
      fun w hr => absurd hlink hr.2
    by_cases hlength : old.entry.size = 0 ∨ old.entry.size > 95
    · refine ⟨v, ?_, .nothing, fun _ => rfl, hnotLink v⟩
      rw [rebuildOne, if_neg hdir, rebuildFile, if_pos hlink, if_pos]
      simp only [Bool.or_eq_true, decide_eq_true_eq]
      exact hlength
    · obtain ⟨w, hcall, hleaves, hsame⟩ := fsSymlink_false h hcount hnew hsize (by
        intro hall
        obtain ⟨hplace, htarget, hfits⟩ := hall
        apply hnot
        rw [Rebuildable, LegacyBackup.sectors, hlink]
        exact ⟨hplace, by omega, by omega, htarget, hfits⟩)
      refine ⟨w, ?_, hleaves, hsame, hnotLink w⟩
      rw [rebuildOne, if_neg hdir, rebuildFile, if_pos hlink, if_neg, ← LegacyBackup.target, hcall]
      simp only [Bool.or_eq_true, decide_eq_true_eq]
      exact hlength
  · have hregular : old.Regular := ⟨hdir, hlink⟩
    rw [rebuildOne_regular hregular]
    by_cases hplace : Placeable files old
    · have hfits : ¬next + sectorsOf old.data.length ≤ total := by
        intro hfits
        rw [← hregular.sectors] at hfits
        exact hnot (hregular.rebuildable_iff.2 ⟨hplace, hfits⟩)
      obtain ⟨index, e, hwrite, hempty⟩ := h.ok.fsWrite_full old.data
        (h.room (by omega) h.next_le) hplace.1 hnone (by rw [h.files]; exact hplace.2) (by omega)
        (by rw [h.next, h.total]; exact Nat.lt_of_not_le hfits)
      rw [hwrite]
      exact ⟨_, rfl, .empty hempty, fun hp => absurd hplace hp, fun _ _ => ⟨index, e, rfl, hempty⟩⟩
    · rw [fsWrite_refused hnone (by rw [h.files]; exact hplace)]
      exact ⟨v, rfl, .nothing, fun _ => rfl, fun _ hp => absurd hp hplace⟩

end

/-! ### Reading what was made -/

theorem fsRead_of_findEntry_none (h : findEntry v name = none) (capacity : ℕ) :
    fsRead v name capacity = none := by
  rw [fsRead, fsReadAt]
  split
  · rfl
  · rw [resolveEntry, resolveLoop, h]

theorem fsRead_of_file (hmounted : v.mounted = true)
    (hpriv : v.currentPrivileged = true) (hname : validName name = true)
    (hfind : findEntry v name = some index) (htype : (v.entries index).type = .file)
    (capacity : ℕ) : fsRead v name capacity = readEntryData v (v.entries index) 0 capacity := by
  have hresolve : resolveEntry v name = some index := by
    rw [resolveEntry, resolveLoop, hfind]
    simp only
    rw [if_pos (by rw [htype]; decide)]
  rw [fsRead, fsReadAt, hmounted, hname, if_neg (by decide), hresolve]
  simp only
  rw [if_neg]
  rw [htype, mayRead, hpriv, if_pos rfl]
  decide

/-- An extent on the disk is read back as it is. -/
theorem VolumeOk.readEntryData_eq (h : VolumeOk v) (hindex : index < 1024)
    (hused : (v.entries index).used = true) (hsize : (v.entries index).size ≤ 0x7FFFFFFF)
    (capacity : ℕ) : readEntryData v (v.entries index) 0 capacity =
      some ((fileBytes v.disk (v.entries index)).take capacity) := by
  have hentry := h.entry index hindex hused
  have hinside := hentry.inside
  have hfit := hentry.size
  rw [readEntryData, readRawData_eq _ h.small _ _ _ (by omega) (by omega), List.drop_zero]
  rfl

theorem VolumeOk.fsReadlink_eq (h : VolumeOk v) (hindex : index < 1024)
    (hused : (v.entries index).used = true) (hread : mayRead v (v.entries index) = true)
    (htype : (v.entries index).type = .symlink) (hsize : (v.entries index).size ≤ 0x7FFFFFFF)
    {capacity : ℕ} (hcapacity : 0 < capacity) :
    fsReadlink v (v.entries index).name capacity =
      some ((fileBytes v.disk (v.entries index)).take capacity) := by
  have hlink : linkEntry v (v.entries index).name capacity = some (v.entries index) := by
    rw [linkEntry, h.mounted, (h.entry index hindex hused).name, if_neg (by simp; omega),
      h.findEntry_eq hindex hused]
    simp only
    rw [if_neg]
    rw [htype, hread]
    decide
  rw [fsReadlink, hlink, Option.bind_some, h.readEntryData_eq hindex hused hsize]

theorem EmptyFile.findEntry_of_ne {path : Name} {e : FsEntry}
    (h : EmptyFile v name index e) (hne : path ≠ name) :
    findEntry (v.setEntry index e) path = findEntry v path := by
  apply List.find?_congr
  intro i _
  by_cases hi : i = index
  · rw [hi, Volume.setEntry_self, h.unused, h.name, beq_eq_false_iff_ne.2 (Ne.symm hne),
      Bool.and_false, Bool.false_and]
  · rw [Volume.setEntry_of_ne _ _ hi]

variable {w : Volume} {name path : Name}

/-- **What was made before can still be read.** -/
theorem Leaves.fsRead_file (hleaves : Leaves v name w) (h : VolumeOk v)
    (hpriv : v.currentPrivileged = true) (hne : path ≠ name) {node : Node}
    (hfile : filesOf v path = some node) (htype : node.type = .file)
    (hshort : node.bytes.length ≤ 0x7FFFFFFF) (capacity : ℕ) :
    fsRead w path capacity = some (node.bytes.take capacity) := by
  obtain ⟨index, hfind, hnode⟩ := findEntry_of_filesOf hfile
  obtain ⟨hindex, hused, hpath⟩ := findEntry_some hfind
  have hsize : (v.entries index).size ≤ 0x7FFFFFFF := by
    rwa [← hnode, nodeOf, fileBytes, length_readBytes] at hshort
  have hread : readEntryData v (v.entries index) 0 capacity = some (node.bytes.take capacity) := by
    rw [h.readEntryData_eq hindex hused hsize, ← hnode]
    rfl
  have hfileType : (v.entries index).type = .file := (congrArg Node.type hnode).trans htype
  have hvalid : validName path = true := hpath ▸ (h.entry index hindex hused).name
  cases hleaves with
  | nothing => rw [fsRead_of_file h.mounted hpriv hvalid hfind hfileType, hread]
  | empty hempty =>
    next i e =>
    have hother : (v.setEntry i e).entries index = v.entries index := by
      apply Volume.setEntry_of_ne
      rintro rfl
      exact absurd (hused.symm.trans hempty.unused) (by decide)
    have hfind' := (hempty.findEntry_of_ne hne).trans hfind
    rw [fsRead_of_file (v := v.setEntry i e) h.mounted hpriv hvalid hfind'
      (by rw [hother]; exact hfileType), hother]
    exact hread

theorem Leaves.fsRead_none (hleaves : Leaves v name w) (hne : path ≠ name)
    (hnone : filesOf v path = none) (capacity : ℕ) : fsRead w path capacity = none := by
  apply fsRead_of_findEntry_none
  cases hleaves with
  | nothing => exact filesOf_eq_none.1 hnone
  | empty hempty => exact (hempty.findEntry_of_ne hne).trans (filesOf_eq_none.1 hnone)

theorem EmptyFile.fsRead {e : FsEntry} (he : EmptyFile v name index e)
    (h : VolumeOk v) (hpriv : v.currentPrivileged = true) (hname : validName name = true)
    (hnew : filesOf v name = none) (capacity : ℕ) :
    fsRead (v.setEntry index e) name capacity = some [] := by
  have hself := v.setEntry_self index e
  have hfind : findEntry (v.setEntry index e) name = some index := by
    cases hf : findEntry (v.setEntry index e) name with
    | none =>
      refine absurd ?_ (findEntry_none hf he.inTable (by rw [hself]; exact he.used))
      rw [hself, he.name]
    | some i =>
      by_cases hi : i = index
      · rw [hi]
      · obtain ⟨hi', hused, hiname⟩ := findEntry_some hf
        rw [Volume.setEntry_of_ne _ _ hi] at hused hiname
        exact absurd hiname (findEntry_none (filesOf_eq_none.1 hnew) hi' hused)
  rw [fsRead_of_file (v := v.setEntry index e) h.mounted hpriv hname hfind
    (by rw [hself]; exact he.type), hself, readEntryData, readRawData, he.size,
    if_pos (zero_le _)]

end

end NovaOS.Fs
