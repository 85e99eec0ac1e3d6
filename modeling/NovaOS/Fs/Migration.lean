import NovaOS.Fs.Rebuild
import NovaOS.Fs.Reboot
import Mathlib.Algebra.Order.BigOperators.Group.List
import Mathlib.Algebra.Order.Group.Nat

/-!
# Migrating a version 1 volume

`migrate_legacy` makes the entries of a version 1 volume again, directories by depth and then the
rest.

* **`migration_keeps_everything`** — a well-formed version 1 volume that fits becomes a version 2
  volume with the same files and no others;
* **`failed_migration_harmless_iff`** — when the migration fails, the files are still there if and
  only if it failed before the disk was touched, or there were none, or the disk was formatted and
  every file comes before the entry that could not be made;
* `failed_migration_loses_file` — a directory with a mode above `0777` costs a file.
-/

namespace NovaOS.Fs

open Function List Nat

/-! ### Lists of entries -/

/-- A regular file whose bytes `read_raw_data` can give back. -/
def LegacyBackup.ReadableFile (old : LegacyBackup) : Prop := old.Regular ∧ old.entry.size < 2 ^ 31

instance (old : LegacyBackup) : Decidable old.ReadableFile := inferInstanceAs (Decidable (_ ∧ _))

/-- Every entry of the list can be made when its turn comes. -/
def RebuildableAll (total : ℕ) : List LegacyBackup → Files → ℕ → Prop
  | [], _, _ => True
  | old :: rest, files, next =>
    Rebuildable total files next old ∧
      RebuildableAll total rest (files.set old.entry.name (some old.node)) (next + old.sectors)

/-- No readable file is lost: the first entry that cannot be made has none behind it, and is none
itself, unless it is an empty file for which there is no sector left. -/
def Kept (total : ℕ) : List LegacyBackup → Files → ℕ → Prop
  | [], _, _ => True
  | old :: rest, files, next =>
    if Rebuildable total files next old then
      Kept total rest (files.set old.entry.name (some old.node)) (next + old.sectors)
    else
      (old.ReadableFile → Placeable files old ∧ old.data = []) ∧ ∀ other ∈ rest, ¬other.ReadableFile

instance Kept.decidable (total : ℕ) :
    ∀ backup files next, Decidable (Kept total backup files next)
  | [], _, _ => isTrue trivial
  | old :: rest, files, next =>
    if h : Rebuildable total files next old then
      @decidable_of_iff _ _ (by rw [Kept, if_pos h])
        (Kept.decidable total rest (files.set old.entry.name (some old.node)) (next + old.sectors))
    else
      decidable_of_iff ((old.ReadableFile → Placeable files old ∧ old.data = []) ∧
        ∀ other ∈ rest, ¬other.ReadableFile) (by rw [Kept, if_neg h])

/-- The names of the list are its own and new. -/
structure Fresh (backup : List LegacyBackup) (files : Files) : Prop where
  distinct : backup.Pairwise fun old old' => old.entry.name ≠ old'.entry.name
  new : ∀ old ∈ backup, files old.entry.name = none

section

variable {v w : Volume} {total next count : ℕ} {files : Files} {old : LegacyBackup}
  {backup : List LegacyBackup}

theorem Fresh.head (h : Fresh (old :: backup) files) : files old.entry.name = none :=
  h.new old mem_cons_self

theorem Fresh.tail (h : Fresh (old :: backup) files) (node : Option Node) :
    Fresh backup (files.set old.entry.name node) := by
  obtain ⟨hold, hrest⟩ := pairwise_cons.1 h.distinct
  refine ⟨hrest, fun other hother => ?_⟩
  rw [Files.set, update_of_ne (Ne.symm (hold other hother))]
  exact h.new other (mem_cons_of_mem _ hother)

/-- Names and files of a list of entries. -/
def nodesOf (backup : List LegacyBackup) : List (Name × Node) :=
  backup.map fun old => (old.entry.name, old.node)

theorem rebuildableAll_iff :
    RebuildableAll total backup files next ↔ ∀ before old after, backup = before ++ old :: after →
      Rebuildable total (Files.addAll (nodesOf before) files)
        (next + (before.map LegacyBackup.sectors).sum) old := by
  induction backup generalizing files next with
  | nil =>
    refine ⟨fun _ before old after hsplit => ?_, fun _ => trivial⟩
    exact absurd hsplit.symm (append_ne_nil_of_right_ne_nil before (cons_ne_nil old after))
  | cons first rest ih =>
    rw [RebuildableAll, ih]
    constructor
    · rintro ⟨hfirst, hrest⟩ before old after hsplit
      cases before with
      | nil =>
        obtain ⟨rfl, -⟩ := cons.inj hsplit
        exact hfirst
      | cons other before =>
        obtain ⟨rfl, htail⟩ := cons.inj hsplit
        rw [map_cons, sum_cons, ← add_assoc]
        exact hrest before old after htail
    · refine fun hall => ⟨hall [] first rest rfl, fun before old after hsplit => ?_⟩
      have hold := hall (first :: before) old after (congrArg (cons first) hsplit)
      rwa [map_cons, sum_cons, ← add_assoc] at hold

/-- The fate of a file is decided by the entries before it. -/
theorem kept_iff :
    Kept total backup files next ↔ ∀ before old after, backup = before ++ old :: after →
      old.ReadableFile → RebuildableAll total before files next ∧
        (Rebuildable total (Files.addAll (nodesOf before) files)
            (next + (before.map LegacyBackup.sectors).sum) old ∨
          Placeable (Files.addAll (nodesOf before) files) old ∧ old.data = []) := by
  induction backup generalizing files next with
  | nil =>
    refine ⟨fun _ before old after hsplit => ?_, fun _ => trivial⟩
    exact absurd hsplit.symm (append_ne_nil_of_right_ne_nil before (cons_ne_nil old after))
  | cons first rest ih =>
    rw [Kept]
    split
    · next hfirst =>
      rw [ih]
      constructor
      · intro hrest before old after hsplit hfile
        cases before with
        | nil =>
          obtain ⟨rfl, -⟩ := cons.inj hsplit
          exact ⟨trivial, .inl hfirst⟩
        | cons other before =>
          obtain ⟨rfl, htail⟩ := cons.inj hsplit
          obtain ⟨hbefore, hold⟩ := hrest before old after htail hfile
          rw [map_cons, sum_cons, ← add_assoc]
          exact ⟨⟨hfirst, hbefore⟩, hold⟩
      · intro hall before old after hsplit hfile
        obtain ⟨hbefore, hold⟩ := hall (first :: before) old after (congrArg (cons first) hsplit) hfile
        rw [map_cons, sum_cons, ← add_assoc] at hold
        exact ⟨hbefore.2, hold⟩
    · next hfirst =>
      constructor
      · rintro ⟨hself, hrest⟩ before old after hsplit hfile
        cases before with
        | nil =>
          obtain ⟨rfl, -⟩ := cons.inj hsplit
          exact ⟨trivial, .inr (hself hfile)⟩
        | cons other before =>
          obtain ⟨-, rfl⟩ := cons.inj hsplit
          exact absurd hfile (hrest old (mem_append_right _ mem_cons_self))
      · refine fun hall => ⟨fun hfile => (hall [] first rest rfl hfile).2.resolve_left hfirst, ?_⟩
        intro other hother hfile
        obtain ⟨before, after, rfl⟩ := append_of_mem hother
        exact hfirst (hall (first :: before) other after rfl hfile).1.1

/-- The entry can be made behind those before it: its name is valid and its parent a directory among
them, its mode or its target is accepted, and they leave it the sectors it needs. -/
def Makeable (total : ℕ) (before : List LegacyBackup) (old : LegacyBackup) : Prop :=
  Rebuildable total (Files.addAll (nodesOf before) fun _ => none)
    (4608 + (before.map LegacyBackup.sectors).sum) old

/-- No readable file is lost: every entry before it can be made, and so can the file, unless it is
empty and all it lacks is a sector. -/
def KeepsFiles (total : ℕ) (backup : List LegacyBackup) : Prop :=
  ∀ before old after, backup = before ++ old :: after → old.ReadableFile →
    (∀ ahead other behind, before = ahead ++ other :: behind → Makeable total ahead other) ∧
      (Makeable total before old ∨
        Placeable (Files.addAll (nodesOf before) fun _ => none) old ∧ old.data = [])

theorem keepsFiles_iff : KeepsFiles total backup ↔ Kept total backup (fun _ => none) 4608 := by
  rw [kept_iff]
  simp only [rebuildableAll_iff]
  rfl

/-- **Entries that can all be made are made.** -/
theorem rebuildEach_true (h : Holds total v files next count)
    (hcount : count + backup.length ≤ 1024) (hfresh : Fresh backup files)
    (hall : RebuildableAll total backup files next) :
    ∃ v', rebuildEach rebuildOne backup v = (true, v') ∧
      ∃ next', Holds total v' (Files.addAll (nodesOf backup) files) next'
        (count + backup.length) := by
  induction backup generalizing v files next count with
  | nil => exact ⟨v, rfl, next, h⟩
  | cons old rest ih =>
    rw [length_cons] at hcount
    obtain ⟨v₁, hone, h₁⟩ := rebuildOne_true h (by omega) hfresh.head hall.1
    obtain ⟨v', hrest, next', h'⟩ := ih h₁ (by omega) (hfresh.tail _) hall.2
    refine ⟨v', ?_, next', ?_⟩
    · rw [rebuildEach, hone]
      exact hrest
    · rw [length_cons, add_comm rest.length 1, ← add_assoc]
      exact h'

theorem Saved.rebuildOne {v' : Volume} (h : Saved total v) (hfits : old.Fits)
    (heq : rebuildOne v old = (true, v')) : Saved total v' := by
  rw [Fs.rebuildOne] at heq
  split at heq
  · exact h.rebuildDirectory hfits heq
  · exact h.rebuildFile hfits heq

/-- The entries of a list whose making failed: what was there before can be read, and what of the
list can be read is decided by `Kept`. -/
theorem rebuildEach_false (h : Holds total v files next count) (hsaved : Saved total v)
    (hcount : count + backup.length ≤ 1024) (hfresh : Fresh backup files)
    (hdata : ∀ old ∈ backup, old.Fits ∧ (old.ReadableFile → old.data.length ≤ 0x7FFFFFFF))
    (hfalse : rebuildEach rebuildOne backup v = (false, w)) :
    (w.mounted = true ∧ isCurrent (w.disk 4096) = true) ∧
    (∀ path node, files path = some node → node.type = .file → node.bytes.length ≤ 0x7FFFFFFF →
      ∀ capacity, fsRead w path capacity = some (node.bytes.take capacity)) ∧
    (Kept total backup files next ↔ ∀ old ∈ backup, old.ReadableFile →
      fsRead w old.entry.name old.data.length = some old.data) := by
  induction backup generalizing v files next count with
  | nil => cases hfalse
  | cons old rest ih =>
    rw [length_cons] at hcount
    obtain ⟨hfits, hshort⟩ := hdata old mem_cons_self
    rw [rebuildEach] at hfalse
    by_cases hold : Rebuildable total files next old
    · obtain ⟨v₁, hone, h₁⟩ := rebuildOne_true h (by omega) hfresh.head hold
      rw [hone] at hfalse
      obtain ⟨hsuper, hbefore, hkept⟩ := ih h₁ (hsaved.rebuildOne hfits hone) (by omega)
        (hfresh.tail _) (fun other hother => hdata other (mem_cons_of_mem _ hother)) hfalse
      refine ⟨hsuper, fun path node hpath => hbefore path node ?_, ?_⟩
      · rwa [Files.set, update_of_ne]
        rintro rfl
        cases hfresh.head.symm.trans hpath
      · rw [Kept, if_pos hold, hkept, forall_mem_cons]
        refine ⟨fun hrest => ⟨fun hfile => ?_, hrest⟩, fun hall => hall.2⟩
        have hread := hbefore old.entry.name old.node (by rw [Files.set, update_self])
          (by rw [hfile.1.node]) (by rw [hfile.1.node]; exact hshort hfile) old.data.length
        rw [hread, hfile.1.node, take_length]
    · obtain ⟨w', hone, hleaves, hsame, hempty⟩ :=
        rebuildOne_false h (by omega) hfresh.head hfits.2 hold
      rw [hone] at hfalse
      obtain rfl : w' = w := (Prod.mk.inj hfalse).2
      have hfiles : ∀ path, filesOf v path = files path := fun path => by rw [h.files]
      obtain ⟨hdistinct, -⟩ := pairwise_cons.1 hfresh.distinct
      refine ⟨?_, fun path node hpath htype hlength => ?_, ?_⟩
      · cases hleaves with
        | nothing => exact ⟨hsaved.mounted, hsaved.layout⟩
        | empty _ => exact ⟨hsaved.mounted, hsaved.layout⟩
      · refine hleaves.fsRead_file h.ok h.privileged ?_ ((hfiles path).trans hpath) htype hlength
        rintro rfl
        cases hfresh.head.symm.trans hpath
      · rw [Kept, if_neg hold, forall_mem_cons]
        refine and_congr ⟨fun hkept hfile => ?_, fun hread hfile => ?_⟩
          (forall₂_congr fun other hother => ⟨fun hnot hfile => absurd hfile hnot, ?_⟩)
        · obtain ⟨hplace, hdata⟩ := hkept hfile
          obtain ⟨index, e, rfl, he⟩ := hempty hfile.1 hplace
          rw [hdata]
          exact he.fsRead h.ok h.privileged hplace.1 ((hfiles _).trans hfresh.head) _
        · by_cases hplace : Placeable files old
          · obtain ⟨index, e, rfl, he⟩ := hempty hfile.1 hplace
            have hnil := he.fsRead h.ok h.privileged hplace.1 ((hfiles _).trans hfresh.head)
              old.data.length
            rw [hread hfile] at hnil
            exact ⟨hplace, Option.some.inj hnil⟩
          · have hnone := fsRead_of_findEntry_none
              (filesOf_eq_none.1 ((hfiles _).trans hfresh.head)) old.data.length
            rw [← hsame hplace, hread hfile] at hnone
            cases hnone
        · -- a file behind the entry that failed is not there
          intro hread hfile
          have hnone := hleaves.fsRead_none (Ne.symm (hdistinct other hother))
            ((hfiles _).trans (hfresh.new other (mem_cons_of_mem _ hother))) other.data.length
          rw [hread hfile] at hnone
          cases hnone

/-! ### The loops of the migration -/

theorem rebuildEach_congr {rebuild rebuild' : Volume → LegacyBackup → Bool × Volume}
    (h : ∀ old ∈ backup, ∀ v, rebuild v old = rebuild' v old) (v : Volume) :
    rebuildEach rebuild backup v = rebuildEach rebuild' backup v := by
  induction backup generalizing v with
  | nil => rfl
  | cons old rest ih =>
    rw [rebuildEach, rebuildEach, h old mem_cons_self]
    split
    · rfl
    · exact ih (fun other hother => h other (mem_cons_of_mem _ hother)) _

theorem rebuildEach_append (rebuild : Volume → LegacyBackup → Bool × Volume)
    (backup backup' : List LegacyBackup) (v : Volume) :
    rebuildEach rebuild (backup ++ backup') v =
      match rebuildEach rebuild backup v with
      | (false, v) => (false, v)
      | (true, v) => rebuildEach rebuild backup' v := by
  induction backup generalizing v with
  | nil => rfl
  | cons old rest ih =>
    rw [cons_append, rebuildEach, rebuildEach]
    split
    · rfl
    · exact ih _

/-- The entries in the order in which the migration makes them. -/
def legacyOrder (backup : List LegacyBackup) : List LegacyBackup :=
  directoriesByDepth backup ++ otherEntries backup

theorem mem_filter_depth {depth : ℕ} :
    old ∈ backup.filter (fun old => old.entry.used && decide (old.entry.type = .directory) &&
      pathDepth old.entry.name == depth) ↔
    old ∈ backup ∧ old.entry.used = true ∧ old.entry.type = .directory ∧
      pathDepth old.entry.name = depth := by
  rw [mem_filter, Bool.and_eq_true, Bool.and_eq_true, decide_eq_true_eq, beq_iff_eq, and_assoc]

theorem mem_directoriesBelow {n : ℕ} :
    old ∈ directoriesBelow backup n ↔ old ∈ backup ∧ old.entry.used = true ∧
      old.entry.type = .directory ∧ pathDepth old.entry.name < n := by
  rw [directoriesBelow, mem_flatMap]
  constructor
  · rintro ⟨depth, hdepth, hold⟩
    obtain ⟨hmem, hused, htype, rfl⟩ := mem_filter_depth.1 hold
    exact ⟨hmem, hused, htype, mem_range.1 hdepth⟩
  · rintro ⟨hmem, hused, htype, hdepth⟩
    exact ⟨_, mem_range.2 hdepth, mem_filter_depth.2 ⟨hmem, hused, htype, rfl⟩⟩

theorem mem_directoriesByDepth :
    old ∈ directoriesByDepth backup ↔ old ∈ backup ∧ old.entry.used = true ∧
      old.entry.type = .directory ∧ pathDepth old.entry.name < 95 :=
  mem_directoriesBelow

theorem mem_otherEntries :
    old ∈ otherEntries backup ↔ old ∈ backup ∧ old.entry.used = true ∧
      old.entry.type ≠ .directory := by
  rw [otherEntries, mem_filter, Bool.and_eq_true, Bool.not_eq_true', decide_eq_false_iff_not]

theorem mem_of_mem_legacyOrder (h : old ∈ legacyOrder backup) :
    old ∈ backup ∧ old.entry.used = true := by
  rcases mem_append.1 h with hdir | hother
  · exact ⟨(mem_directoriesByDepth.1 hdir).1, (mem_directoriesByDepth.1 hdir).2.1⟩
  · exact ⟨(mem_otherEntries.1 hother).1, (mem_otherEntries.1 hother).2.1⟩

/-- The used entries of a backup have names of their own. -/
def DistinctNames (backup : List LegacyBackup) : Prop :=
  backup.Pairwise fun old old' => old.entry.used = true → old'.entry.used = true →
    old.entry.name ≠ old'.entry.name

section

variable (h : DistinctNames backup)

include h

theorem DistinctNames.filter_depth (depth : ℕ) :
    (backup.filter fun old => old.entry.used && decide (old.entry.type = .directory) &&
      pathDepth old.entry.name == depth).Pairwise fun old old' => old.entry.name ≠ old'.entry.name :=
  (List.Pairwise.filter _ h).imp_of_mem fun hold hold' hne =>
    hne (mem_filter_depth.1 hold).2.1 (mem_filter_depth.1 hold').2.1

theorem DistinctNames.directories (n : ℕ) :
    (directoriesBelow backup n).Pairwise fun old old' => old.entry.name ≠ old'.entry.name := by
  rw [directoriesBelow, pairwise_flatMap]
  refine ⟨fun depth _ => h.filter_depth depth, ?_⟩
  refine nodup_range.imp fun hne old hold old' hold' heq => hne ?_
  rw [← (mem_filter_depth.1 hold).2.2.2, ← (mem_filter_depth.1 hold').2.2.2, heq]

theorem DistinctNames.legacyOrder :
    (legacyOrder backup).Pairwise fun old old' => old.entry.name ≠ old'.entry.name := by
  rw [Fs.legacyOrder, pairwise_append]
  refine ⟨h.directories 95, ?_, ?_⟩
  · refine (List.Pairwise.filter _ h).imp_of_mem fun hold hold' hne => hne ?_ ?_
    · exact (mem_otherEntries.1 hold).2.1
    · exact (mem_otherEntries.1 hold').2.1
  · intro old hold old' hold' heq
    obtain ⟨hmem, hused, htype, -⟩ := mem_directoriesByDepth.1 hold
    obtain ⟨hmem', hused', htype'⟩ := mem_otherEntries.1 hold'
    -- two entries of the backup with one name are one entry
    have hsame : old = old' := by
      by_contra hne
      have : Std.Symm fun old old' : LegacyBackup => old.entry.used = true →
          old'.entry.used = true → old.entry.name ≠ old'.entry.name :=
        ⟨fun _ _ hR hu hu' => Ne.symm (hR hu' hu)⟩
      exact h.forall hmem hmem' hne hused hused' heq
    exact htype' (hsame ▸ htype)

theorem DistinctNames.fresh :
    Fresh (Fs.legacyOrder backup) fun _ => none :=
  ⟨h.legacyOrder, fun _ _ => rfl⟩

theorem DistinctNames.length_le : (Fs.legacyOrder backup).length ≤ backup.length := by
  have hnodup : (Fs.legacyOrder backup).Nodup := h.legacyOrder.imp fun hne heq => hne (congrArg (·.entry.name) heq)
  exact (hnodup.subperm fun old hold => (mem_of_mem_legacyOrder hold).1).length_le

end

/-! ### Formatting -/

/-- The volume of `fs_init` before anything is read. -/
def unmounted (total : ℕ) (disk : ℕ → ℕ → UInt8) : Volume :=
  ⟨fun _ => FsEntry.zero, disk, total, false, 0, true⟩

variable {disk : ℕ → ℕ → UInt8} {allocated : MigrationRequest → Bool}

theorem formatV2_holds (disk : ℕ → ℕ → UInt8) (hlarge : 4608 + 128 < total) (hsmall : total ≤ 0x10000000) :
    ∃ v, formatV2 true (unmounted total disk) = (true, v) ∧ Saved total v ∧
      Holds total v (fun _ => none) 4608 0 := by
  obtain ⟨hok, -, hpriv⟩ := formatted_ok disk hlarge hsmall
  have hsecond : (formatV2 true (unmounted total disk)).2 = formatted total disk := rfl
  have hfirst : (formatV2 true (unmounted total disk)).1 = true := by
    obtain ⟨disk', hclear⟩ := clearSectors_eq hsmall 256 4097
      (update disk 4096 (writeBytes (fun _ => 0) 0 (superblockBytes total))) (by omega)
    rw [formatV2, unmounted]
    simp only
    rw [if_neg (by omega), ataWriteSector_eq (by omega) hsmall]
    simp only [Bool.not_true, Bool.false_eq_true, if_false, hclear]
  have hformat : formatV2 true (unmounted total disk) = (true, formatted total disk) :=
    Prod.ext hfirst hsecond
  have hsaved : Saved total (formatted total disk) :=
    formatV2_saved (v := unmounted total disk)
      (show total < 2 ^ 32 by omega) (Nat.two_pow_pos 32) hformat
  obtain ⟨hslots, hnext⟩ := formatted_unused disk hlarge hsmall
  exact ⟨_, hformat, hsaved, hok, filesOf_formatted disk hlarge hsmall, hsaved.sectors, hnext,
    hslots.le, hpriv⟩

/-- Without the sector of zeros the superblock is written, and the volume is not mounted. -/
theorem formatV2_unserved (disk : ℕ → ℕ → UInt8) (hlarge : 4608 + 128 < total)
    (hsmall : total ≤ 0x10000000) :
    formatV2 false (unmounted total disk) = (false, unmounted total
      (update disk 4096 (writeBytes (fun _ => 0) 0 (superblockBytes total)))) := by
  rw [formatV2, unmounted]
  simp only
  rw [if_neg (by omega), ataWriteSector_eq (by omega) hsmall]
  rfl

/-! ### The version 1 volume -/

section

variable (h : legacyBackup allocated total disk = some backup)

include h

theorem legacyBackup_some :
    backup = (List.range 64).map (legacyCopy total disk) ∧
      ∀ i, i < 64 → copyMade allocated total disk i = true := by
  rw [legacyBackup] at h
  split at h
  · next hall =>
    rw [Bool.and_eq_true, all_eq_true] at hall
    exact ⟨(Option.some.inj h).symm, fun i hi => hall.2 i (mem_range.2 hi)⟩
  · cases h

theorem mem_legacyBackup :
    old ∈ backup ↔ ∃ i, i < 64 ∧ legacyCopy total disk i = old := by
  rw [(legacyBackup_some h).1, mem_map]
  simp only [mem_range]

theorem length_legacyBackup : backup.length = 64 := by
  rw [(legacyBackup_some h).1, length_map, length_range]

end

/-- The used entries of the version 1 directory have names of their own. -/
def LegacyDistinct (disk : ℕ → ℕ → UInt8) : Prop :=
  ∀ i j, i < 64 → j < 64 → (legacyEntry disk i).used = true → (legacyEntry disk j).used = true →
    (legacyEntry disk i).name = (legacyEntry disk j).name → i = j

theorem LegacyDistinct.distinctNames (h : LegacyDistinct disk)
    (hbackup : legacyBackup allocated total disk = some backup) : DistinctNames backup := by
  rw [(legacyBackup_some hbackup).1, DistinctNames, pairwise_map]
  refine List.Pairwise.imp_of_mem ?_ pairwise_lt_range
  intro i j hi hj hlt hused hused' hname
  exact Nat.ne_of_lt hlt (h i j (mem_range.1 hi) (mem_range.1 hj) hused hused' hname)

/-- The migration, once the copies are made and the disk is formatted. -/
theorem migrateLegacy_eq (hbackup : legacyBackup allocated total disk = some backup) {v : Volume}
    (hempty : allocated .empty = true) (hformat : formatV2 true (unmounted total disk) = (true, v)) :
    migrateLegacy allocated (unmounted total disk) =
      rebuildEach rebuildOne (legacyOrder backup) v := by
  rw [migrateLegacy]
  have hbackup' : legacyBackup allocated (unmounted total disk).totalSectors
    (unmounted total disk).disk = some backup := hbackup
  rw [hbackup', hempty, hformat, legacyOrder, rebuildEach_append]
  simp only
  have hdirs : ∀ v, rebuildEach rebuildOne (directoriesByDepth backup) v =
      rebuildEach rebuildDirectory (directoriesByDepth backup) v :=
    rebuildEach_congr fun old hold v => if_pos (mem_directoriesByDepth.1 hold).2.2.1
  have hothers : ∀ v, rebuildEach rebuildOne (otherEntries backup) v =
      rebuildEach rebuildFile (otherEntries backup) v :=
    rebuildEach_congr fun old hold v => if_neg (mem_otherEntries.1 hold).2.2
  rw [hdirs]
  cases rebuildEach rebuildDirectory (directoriesByDepth backup) v with
  | mk done v₁ =>
    cases done with
    | false => rfl
    | true => exact (hothers v₁).symm

/-! ### Reading the version 1 volume -/

/-- The bytes of a file of the version 1 volume, found as `find_entry` finds it. -/
def legacyRead (total : ℕ) (disk : ℕ → ℕ → UInt8) (name : Name) : Option (List UInt8) :=
  match (List.range 64).find? fun i =>
      (legacyEntry disk i).used && (legacyEntry disk i).name == name with
  | none => none
  | some i =>
    let old := legacyEntry disk i
    if old.type = .directory || old.type = .symlink then none
    else readRawData total disk old.startLba old.size 0 old.size

theorem readLoop_copied {start fuel position remaining : ℕ} {bytes : List UInt8}
    (h : readLoop total disk start fuel position remaining = some bytes) :
    copiedBytes total disk start fuel position remaining = bytes ∧ bytes.length = remaining := by
  induction fuel generalizing position remaining bytes with
  | zero =>
    rw [readLoop] at h
    split at h
    · next hzero =>
      cases h
      exact ⟨rfl, hzero.symm⟩
    · cases h
  | succ fuel ih =>
    rw [readLoop] at h
    rw [copiedBytes]
    split at h
    · next hzero =>
      cases h
      rw [if_pos hzero]
      exact ⟨rfl, hzero.symm⟩
    · next hpos =>
      rw [if_neg hpos]
      cases hread : ataReadSector total disk ((start + position / 512) % 2 ^ 32) with
      | none =>
        rw [hread] at h
        cases h
      | some sector =>
        rw [hread] at h
        simp only at h ⊢
        split at h
        · cases h
        · next rest hrest =>
          cases h
          obtain ⟨hcopied, hlength⟩ := ih hrest
          rw [hcopied, length_append, hlength, length_readBytes]
          exact ⟨rfl, by omega⟩

/-- The copy of a file is what a read of it gives; a file of 2 GiB or more cannot be read. -/
theorem legacyCopy_read {i : ℕ} (h : copyMade allocated total disk i = true)
    (hused : (legacyEntry disk i).used = true) :
    readRawData total disk (legacyEntry disk i).startLba (legacyEntry disk i).size 0
        (legacyEntry disk i).size =
      if (legacyEntry disk i).size < 2 ^ 31 then some (legacyCopy total disk i).data else none := by
  by_cases hzero : (legacyEntry disk i).size = 0
  · rw [legacyCopy, hzero, readRawData, if_pos (le_refl 0)]
    simp
  have hdata : (legacyCopy total disk i).data = copiedBytes total disk (legacyEntry disk i).startLba
      (legacyEntry disk i).size 0 (legacyEntry disk i).size := by
    rw [legacyCopy]
    exact if_neg (by simp [hused, hzero])
  cases hread : readRawData total disk (legacyEntry disk i).startLba (legacyEntry disk i).size 0
      (legacyEntry disk i).size with
  | none =>
    rw [copyMade] at h
    simp only [hused, hzero, hread, ite_self, readResult, toInt, Bool.not_true, decide_false,
      Bool.or_self, Bool.false_or, Bool.and_eq_true, decide_eq_true_eq] at h
    rw [if_neg]
    intro hshort
    rw [if_pos hshort] at h
    omega
  | some bytes =>
    rw [readRawData, if_neg (by omega)] at hread
    simp only [Nat.sub_zero, gt_iff_lt, lt_self_iff_false, if_false] at hread
    split at hread
    · cases hread
    · next copied hcopied =>
      split at hread
      · cases hread
      · next hshort =>
        cases hread
        obtain ⟨heq, hlength⟩ := readLoop_copied hcopied
        rw [if_pos (by omega), hdata, heq]

theorem legacyRead_some {name : Name} {bytes : List UInt8}
    (h : legacyRead total disk name = some bytes) :
    ∃ i, i < 64 ∧ (legacyEntry disk i).used = true ∧ (legacyEntry disk i).name = name := by
  rw [legacyRead] at h
  split at h
  · cases h
  · next i hfind =>
    have hi := List.find?_some hfind
    rw [Bool.and_eq_true, beq_iff_eq] at hi
    exact ⟨i, mem_range.1 (mem_of_find?_eq_some hfind), hi.1, hi.2⟩

/-- Under its own name an entry is found, and read if it is a file. -/
theorem LegacyDistinct.legacyRead (h : LegacyDistinct disk) {i : ℕ} (hi : i < 64)
    (hmade : copyMade allocated total disk i = true) (hused : (legacyEntry disk i).used = true) :
    Fs.legacyRead total disk (legacyEntry disk i).name =
      if (legacyCopy total disk i).ReadableFile then some (legacyCopy total disk i).data
      else none := by
  have hfind : ((List.range 64).find? fun j =>
      (legacyEntry disk j).used && (legacyEntry disk j).name == (legacyEntry disk i).name) =
      some i := by
    cases hf : (List.range 64).find? fun j =>
        (legacyEntry disk j).used && (legacyEntry disk j).name == (legacyEntry disk i).name with
    | none =>
      refine absurd ?_ (List.find?_eq_none.1 hf i (mem_range.2 hi))
      rw [hused, beq_self_eq_true]
      rfl
    | some j =>
      have hj := List.find?_some hf
      rw [Bool.and_eq_true, beq_iff_eq] at hj
      rw [h j i (mem_range.1 (mem_of_find?_eq_some hf)) hi hj.1 hused hj.2]
  rw [Fs.legacyRead, hfind]
  simp only
  rw [legacyCopy_read hmade hused]
  have hentry : (legacyCopy total disk i).entry = legacyEntry disk i := rfl
  by_cases hregular : (legacyCopy total disk i).Regular
  · rw [if_neg (by simpa [LegacyBackup.Regular, hentry] using hregular)]
    split
    · rename_i hsize
      rw [if_pos ⟨hregular, hsize⟩]
    · rename_i hsize
      rw [if_neg fun hfile => hsize hfile.2]
  · rw [if_pos, if_neg fun hfile => hregular hfile.1]
    rw [LegacyBackup.Regular, not_and_or, not_not, not_not] at hregular
    simpa [hentry] using hregular

/-! ### A migration that fails -/

/-- Every file that could be read from the version 1 volume can be read: the disk is as it was, or the
volume is mounted and gives the same bytes. -/
def StillReadable (total : ℕ) (disk : ℕ → ℕ → UInt8) (w : Volume) : Prop :=
  ∀ name bytes, Fs.legacyRead total disk name = some bytes →
    w.disk = disk ∨ w.mounted = true ∧ fsRead w name bytes.length = some bytes

/-- The entries of a version 1 volume in the order in which the migration makes them. -/
def legacyEntries (total : ℕ) (disk : ℕ → ℕ → UInt8) : List LegacyBackup :=
  legacyOrder ((List.range 64).map (legacyCopy total disk))

/-- A failure comes before the disk is touched, because a table or a copy is not made or the disk is
too small; or there is no file to lose; or the disk is formatted, and every file is made. -/
def SafeToFail (allocated : MigrationRequest → Bool) (total : ℕ) (disk : ℕ → ℕ → UInt8) : Prop :=
  (allocated .backup = false ∨ allocated .legacy = false ∨
      ∃ i, i < 64 ∧ copyMade allocated total disk i = false) ∨
    total ≤ 4608 + 128 ∨ (∀ name, legacyRead total disk name = none) ∨
    allocated .empty = true ∧ LegacyDistinct disk ∧ KeepsFiles total (legacyEntries total disk)

theorem SafeToFail.of_kept (hempty : allocated .empty = true) (hdistinct : LegacyDistinct disk)
    (hkept : decide (Kept total (legacyEntries total disk) (fun _ => none) 4608) = true) :
    SafeToFail allocated total disk :=
  .inr (.inr (.inr ⟨hempty, hdistinct, keepsFiles_iff.2 (of_decide_eq_true hkept)⟩))

theorem legacyBackup_none (hlarge : 4608 + 128 < total) :
    legacyBackup allocated total disk = none ↔
      allocated .backup = false ∨ allocated .legacy = false ∨
        ∃ i, i < 64 ∧ copyMade allocated total disk i = false := by
  rw [legacyBackup, (directoryReadable_iff (by decide)).2 (.inr (by omega)), ite_eq_right_iff,
    imp_iff_not (Option.some_ne_none _)]
  simp only [Bool.and_true, Bool.and_eq_true, all_eq_true, mem_range, not_and_or,
    Bool.not_eq_true, not_forall, exists_prop, or_assoc]

theorem rebuild_stillReadable (hdistinct : LegacyDistinct disk) (hlegacy : isLegacy (disk 4096) = true)
    (hlarge : 4608 + 128 < total) (hsmall : total ≤ 0x10000000) (hempty : allocated .empty = true)
    (hbackup : legacyBackup allocated total disk = some backup)
    (hfalse : migrateLegacy allocated (unmounted total disk) = (false, w)) :
    Kept total (legacyOrder backup) (fun _ => none) 4608 ↔ StillReadable total disk w := by
  obtain ⟨v, hformat, hsaved, hholds⟩ := formatV2_holds disk hlarge hsmall
  have hnames := hdistinct.distinctNames hbackup
  have hlength := hnames.length_le
  rw [length_legacyBackup hbackup] at hlength
  have hdata : ∀ old ∈ legacyOrder backup,
      old.Fits ∧ (old.ReadableFile → old.data.length ≤ 0x7FFFFFFF) := by
    intro old hold
    obtain ⟨hmem, -⟩ := mem_of_mem_legacyOrder hold
    obtain ⟨i, -, rfl⟩ := (mem_legacyBackup hbackup).1 hmem
    refine ⟨legacyCopy_fits, fun hfile => ?_⟩
    have hsize : (legacyEntry disk i).size < 2 ^ 31 := hfile.2
    exact le_trans length_legacyCopy (by omega)
  rw [migrateLegacy_eq hbackup hempty hformat] at hfalse
  obtain ⟨⟨hmounted, hsuper⟩, -, hkept⟩ := rebuildEach_false hholds hsaved (by omega) hnames.fresh
    hdata hfalse
  rw [hkept]
  constructor
  · intro hall name bytes hread
    obtain ⟨i, hi, hused, rfl⟩ := legacyRead_some hread
    rw [hdistinct.legacyRead hi ((legacyBackup_some hbackup).2 i hi) hused] at hread
    split at hread
    · next hfile =>
      cases hread
      refine .inr ⟨hmounted, hall _ (mem_append_right _ (mem_otherEntries.2
        ⟨(mem_legacyBackup hbackup).2 ⟨i, hi, rfl⟩, hused, hfile.1.1⟩)) hfile⟩
    · cases hread
  · intro hstill old hmem hfile
    obtain ⟨hmem', hused⟩ := mem_of_mem_legacyOrder hmem
    obtain ⟨i, hi, rfl⟩ := (mem_legacyBackup hbackup).1 hmem'
    have hread := hdistinct.legacyRead hi ((legacyBackup_some hbackup).2 i hi) hused
    rw [if_pos hfile] at hread
    rcases hstill _ _ hread with hsame | ⟨-, hread'⟩
    · rw [hsame] at hsuper
      exact absurd (hlegacy.symm.trans (isLegacy_of_isCurrent hsuper)) (by decide)
    · exact hread'

theorem StillReadable.of_none (h : ∀ name, legacyRead total disk name = none) :
    StillReadable total disk w :=
  fun name _ hread => absurd ((h name).symm.trans hread) (Option.some_ne_none _).symm

/-- Without the sector of zeros every file is lost. -/
theorem unserved_stillReadable (hlegacy : isLegacy (disk 4096) = true) (hlarge : 4608 + 128 < total)
    (hsmall : total ≤ 0x10000000) (hempty : allocated .empty = false)
    (hbackup : legacyBackup allocated total disk = some backup) :
    StillReadable total disk (migrateLegacy allocated (unmounted total disk)).2 ↔
      ∀ name, legacyRead total disk name = none := by
  rw [migrateLegacy, show legacyBackup allocated (unmounted total disk).totalSectors
    (unmounted total disk).disk = some backup from hbackup, hempty,
    formatV2_unserved disk hlarge hsmall]
  refine ⟨fun hstill name => ?_, StillReadable.of_none⟩
  rw [Option.eq_none_iff_forall_not_mem]
  intro bytes hread
  rcases hstill name bytes hread with hsame | ⟨hmounted, -⟩
  · have hsame' : update disk 4096 (writeBytes (fun _ => 0) 0 (superblockBytes total)) = disk := hsame
    have hblock := congrFun hsame' 4096
    rw [update_self] at hblock
    have hcurrent := (superblock_layout (fun _ => 0) (show total < 2 ^ 32 by omega)).2.1
    rw [hblock] at hcurrent
    exact absurd (hlegacy.symm.trans (isLegacy_of_isCurrent hcurrent)) (by decide)
  · cases hmounted

/-- **A migration that fails costs no file exactly when it may fail.**  The condition is enough for
every disk and every answer of the heap.  It is also necessary, unless the disk was formatted and two
entries of the version 1 volume have one name. -/
theorem failed_migration_harmless_iff (allocated : MigrationRequest → Bool) (total : ℕ)
    (disk : ℕ → ℕ → UInt8) (hsmall : total ≤ 0x10000000) (hlegacy : isLegacy (disk 4096) = true)
    (hfalse : (migrateLegacy allocated (unmounted total disk)).1 = false) :
    (SafeToFail allocated total disk →
      StillReadable total disk (migrateLegacy allocated (unmounted total disk)).2) ∧
    (LegacyDistinct disk ∨ allocated .empty = false →
      StillReadable total disk (migrateLegacy allocated (unmounted total disk)).2 →
      SafeToFail allocated total disk) := by
  have hpair : migrateLegacy allocated (unmounted total disk) =
      (false, (migrateLegacy allocated (unmounted total disk)).2) := Prod.ext hfalse rfl
  by_cases hlarge : total ≤ 4608 + 128
  · refine ⟨fun _ _ _ _ => .inl ?_, fun _ _ => .inr (.inl hlarge)⟩
    rw [migrateLegacy]
    split
    · rfl
    · rw [show formatV2 (allocated .empty) (unmounted total disk) = (false, unmounted total disk) from
        if_pos hlarge]
      rfl
  rw [Nat.not_le] at hlarge
  cases hbackup : legacyBackup allocated total disk with
  | none =>
    refine ⟨fun _ _ _ _ => .inl ?_, fun _ _ => .inl ((legacyBackup_none hlarge).1 hbackup)⟩
    rw [migrateLegacy, show legacyBackup allocated (unmounted total disk).totalSectors
      (unmounted total disk).disk = none from hbackup]
    rfl
  | some backup =>
    obtain ⟨rfl, hmade⟩ := legacyBackup_some hbackup
    -- the copies are made and the disk is large enough
    have hlate : SafeToFail allocated total disk → (∀ name, legacyRead total disk name = none) ∨
        allocated .empty = true ∧ LegacyDistinct disk ∧
          KeepsFiles total (legacyEntries total disk) := by
      rintro (hearly | hsmall | hrest)
      · cases hbackup.symm.trans ((legacyBackup_none hlarge).2 hearly)
      · omega
      · exact hrest
    cases hempty : allocated .empty with
    | false =>
      rw [unserved_stillReadable hlegacy hlarge hsmall hempty hbackup]
      refine ⟨fun hsafe => ?_, fun _ hnone => .inr (.inr (.inl hnone))⟩
      rcases hlate hsafe with hnone | ⟨hserved, -⟩
      · exact hnone
      · cases hempty.symm.trans hserved
    | true =>
      have hiff := fun hdistinct => keepsFiles_iff.trans
        (rebuild_stillReadable hdistinct hlegacy hlarge hsmall hempty hbackup hpair)
      constructor
      · intro hsafe
        rcases hlate hsafe with hnone | ⟨-, hdistinct, hkeeps⟩
        · exact .of_none hnone
        · exact (hiff hdistinct).1 hkeeps
      · rintro (hdistinct | hno) hstill
        · exact .inr (.inr (.inr ⟨hempty, hdistinct, (hiff hdistinct).2 hstill⟩))
        · cases hno

/-! ### A well-formed version 1 volume -/

/-- The bytes of an entry of the version 1 volume. -/
def legacyBytes (disk : ℕ → ℕ → UInt8) (old : LegacyFsEntry) : List UInt8 :=
  readBytes (flat 512 disk) (old.startLba * 512) old.size

/-- The sectors the entry takes on a version 2 volume. -/
def legacySectors (old : LegacyFsEntry) : ℕ :=
  match old.type with
  | .directory => 0
  | .symlink => sectorsOf (old.size + 1)
  | _ => sectorsOf old.size

/-- A version 1 volume whose used entries have distinct valid names below directories of the volume,
modes within `0777`, extents on the disk and links to valid names, and that fits a version 2
volume. -/
structure LegacyVolume (total : ℕ) (disk : ℕ → ℕ → UInt8) : Prop where
  magic : magicMatches (disk 4096) = true
  layout : isLegacy (disk 4096) = true
  large : 4608 + 128 < total
  small : total ≤ 0x10000000
  names : ∀ i, i < 64 → (legacyEntry disk i).used = true → validName (legacyEntry disk i).name = true
  distinct : LegacyDistinct disk
  parents : ∀ i, i < 64 → (legacyEntry disk i).used = true → ∀ parent base,
    (legacyEntry disk i).name = parent ++ slash :: base → slash ∉ base →
    ∃ j, j < 64 ∧ (legacyEntry disk j).used = true ∧ (legacyEntry disk j).type = .directory ∧
      (legacyEntry disk j).name = parent
  flags : ∀ i, i < 64 → (legacyEntry disk i).used = true → (legacyEntry disk i).flags ≤ 0o777
  sizes : ∀ i, i < 64 → (legacyEntry disk i).used = true → (legacyEntry disk i).size < 2 ^ 31
  inside : ∀ i, i < 64 → (legacyEntry disk i).used = true →
    (legacyEntry disk i).startLba + ((legacyEntry disk i).size + 511) / 512 ≤ total
  links : ∀ i, i < 64 → (legacyEntry disk i).used = true → (legacyEntry disk i).type = .symlink →
    validName (legacyBytes disk (legacyEntry disk i)) = true
  fits : 4608 + (((List.range 64).filter fun i => (legacyEntry disk i).used).map fun i =>
    legacySectors (legacyEntry disk i)).sum ≤ total

theorem LegacyVolume.readRawData (h : LegacyVolume total disk) {i : ℕ} (hi : i < 64)
    (hused : (legacyEntry disk i).used = true) :
    readRawData total disk (legacyEntry disk i).startLba (legacyEntry disk i).size 0
      (legacyEntry disk i).size = some (legacyBytes disk (legacyEntry disk i)) := by
  have hsize := h.sizes i hi hused
  have hinside := h.inside i hi hused
  rw [readRawData_eq _ h.small _ _ _ (by omega) (by omega), drop_zero, take_of_length_le]
  · rfl
  · rw [length_readBytes]

theorem LegacyVolume.copyMade (h : LegacyVolume total disk) (hheap : ∀ request, allocated request = true)
    {i : ℕ} (hi : i < 64) : copyMade allocated total disk i = true := by
  rw [Fs.copyMade]
  cases hused : (legacyEntry disk i).used with
  | false => rfl
  | true =>
    have hsize := h.sizes i hi hused
    have hresult : readResult (some (legacyBytes disk (legacyEntry disk i))) =
        toInt (legacyEntry disk i).size := by
      rw [readResult, legacyBytes, length_readBytes, toInt, if_pos hsize]
    simp only [hheap, if_true, h.readRawData hi hused, hresult, decide_true, Bool.and_self,
      Bool.or_true]

/-- The copy of a used entry has the bytes of its file. -/
theorem LegacyVolume.legacyCopy (h : LegacyVolume total disk) {i : ℕ} (hi : i < 64)
    (hused : (legacyEntry disk i).used = true) :
    (legacyCopy total disk i).data = legacyBytes disk (legacyEntry disk i) := by
  have hmade : Fs.copyMade (fun _ => true) total disk i = true := h.copyMade (fun _ => rfl) hi
  have hread := legacyCopy_read hmade hused
  rw [h.readRawData hi hused, if_pos (h.sizes i hi hused)] at hread
  exact (Option.some.inj hread).symm

theorem LegacyVolume.legacyBackup (h : LegacyVolume total disk)
    (hheap : ∀ request, allocated request = true) :
    legacyBackup allocated total disk = some ((List.range 64).map (Fs.legacyCopy total disk)) := by
  have hlarge := h.large
  have hall : (List.range 64).all (Fs.copyMade allocated total disk) = true :=
    all_eq_true.2 fun i hi => h.copyMade hheap (mem_range.1 hi)
  rw [Fs.legacyBackup, hheap, hheap, (directoryReadable_iff (by decide)).2 (.inr (by omega)), hall]
  rfl

/-- What the migration needs of an entry, apart from its parent and the room. -/
structure LegacyBackup.WellFormed (old : LegacyBackup) : Prop where
  name : validName old.entry.name = true
  flags : old.entry.flags ≤ 0o777
  link : old.entry.type = .symlink → 0 < old.entry.size ∧ old.entry.size ≤ 95 ∧
    validSymlinkTarget old.target = true

theorem rebuildableAll_of {next : ℕ} (hparented : Files.Parented (nodesOf backup) files)
    (hformed : ∀ old ∈ backup, old.WellFormed)
    (hfits : next + (backup.map LegacyBackup.sectors).sum ≤ total) :
    RebuildableAll total backup files next := by
  induction backup generalizing files next with
  | nil => trivial
  | cons old rest ih =>
    obtain ⟨-, hparent, hrest⟩ := hparented
    have hold := hformed old mem_cons_self
    rw [map_cons, sum_cons] at hfits
    refine ⟨⟨⟨hold.name, hparent⟩, ?_⟩, ih hrest
      (fun other hother => hformed other (mem_cons_of_mem _ hother)) (by omega)⟩
    cases htype : old.entry.type with
    | directory => exact hold.flags
    | symlink =>
      obtain ⟨hpos, hmax, htarget⟩ := hold.link htype
      exact ⟨hpos, hmax, htarget, by omega⟩
    | none => exact le_trans (by omega) hfits
    | file => exact le_trans (by omega) hfits

theorem pathDepth_lt {name : Name} (h : validName name = true) : pathDepth name < 95 := by
  have hlength := validName_length h
  cases name with
  | nil => cases h
  | cons c rest =>
    have hc : c ≠ slash := fun heq => validName_head h (congrArg some heq)
    rw [pathDepth, count_cons_of_ne hc]
    rw [length_cons] at hlength
    have := count_le_length (a := slash) (l := rest)
    omega

theorem pathDepth_split (parent : Name) {base : Name} (h : slash ∉ base) :
    pathDepth (parent ++ slash :: base) = pathDepth parent + 1 := by
  rw [pathDepth, count_append, count_cons_self, count_eq_zero_of_not_mem h, pathDepth]

/-- Every used entry of the backup lies in a directory of the backup. -/
def ParentsIn (backup : List LegacyBackup) : Prop :=
  ∀ old ∈ backup, old.entry.used = true → ∀ parent base, old.entry.name = parent ++ slash :: base →
    slash ∉ base → ∃ dir ∈ backup, dir.entry.used = true ∧ dir.entry.type = .directory ∧
      dir.entry.name = parent

theorem mem_nodesOf (h : old ∈ backup) : (old.entry.name, old.node) ∈ nodesOf backup :=
  mem_map.2 ⟨old, h, rfl⟩

theorem pairwise_nodesOf
    (h : backup.Pairwise fun old old' => old.entry.name ≠ old'.entry.name) :
    (nodesOf backup).Pairwise fun p q => p.1 ≠ q.1 :=
  pairwise_map.2 h

section

variable (h : ParentsIn backup) (hdistinct : DistinctNames backup)

include h hdistinct

/-- An entry finds its parent among the directories of a smaller depth. -/
theorem ParentsIn.hasParent
    (hold : old ∈ backup) (hused : old.entry.used = true) (hname : validName old.entry.name = true)
    {n : ℕ} (hdepth : pathDepth old.entry.name ≤ n) :
    (Files.addAll (nodesOf (directoriesBelow backup n)) fun _ => none).hasParent old.entry.name =
      true := by
  cases hslash : lastSlash old.entry.name with
  | none => exact hasParent_of_no_slash _ (lastSlash_eq_none.1 hslash)
  | some k =>
    obtain ⟨base, hbase, hsplit⟩ := lastSlash_eq_some hslash
    obtain ⟨dir, hdir, hdirUsed, hdirType, hdirName⟩ := h old hold hused _ base hsplit hbase
    rw [hsplit] at hname hdepth ⊢
    rw [pathDepth_split _ hbase, ← hdirName] at hdepth
    rw [hasParent_split hbase hname]
    refine ⟨dir.node, ?_, ?_⟩
    · rw [← hdirName]
      exact Files.addAll_of_mem (pairwise_nodesOf (hdistinct.directories n))
        (mem_nodesOf (mem_directoriesBelow.2 ⟨hdir, hdirUsed, hdirType, by omega⟩))
    · rw [LegacyBackup.node, hdirType]

/-- The directories are made after their parents. -/
theorem ParentsIn.parented_directories
    (hnames : ∀ old ∈ backup, old.entry.used = true → validName old.entry.name = true) (n : ℕ) :
    Files.Parented (nodesOf (directoriesBelow backup n)) fun _ => none := by
  induction n with
  | zero => trivial
  | succ n ih =>
    have hsucc : nodesOf (directoriesBelow backup (n + 1)) = nodesOf (directoriesBelow backup n) ++
        nodesOf (backup.filter fun old => old.entry.used && decide (old.entry.type = .directory) &&
          pathDepth old.entry.name == n) := by
      rw [directoriesBelow, range_succ, flatMap_append, flatMap_singleton, nodesOf, map_append]
      rfl
    rw [hsucc, Files.parented_append]
    refine ⟨ih, Files.parented_of (pairwise_nodesOf (hdistinct.filter_depth n)) ?_ ?_⟩
    · intro p hp
      obtain ⟨old, hold, rfl⟩ := mem_map.1 hp
      obtain ⟨-, -, -, hdepth⟩ := mem_filter_depth.1 hold
      refine Files.addAll_of_notMem fun q hq heq => ?_
      obtain ⟨old', hold', rfl⟩ := mem_map.1 hq
      have hdepth' := (mem_directoriesBelow.1 hold').2.2.2
      rw [show old'.entry.name = old.entry.name from heq] at hdepth'
      omega
    · intro p hp
      obtain ⟨old, hold, rfl⟩ := mem_map.1 hp
      obtain ⟨hmem, hused, -, hdepth⟩ := mem_filter_depth.1 hold
      exact h.hasParent hdistinct hmem hused (hnames old hmem hused) (le_of_eq hdepth)

theorem ParentsIn.parented
    (hnames : ∀ old ∈ backup, old.entry.used = true → validName old.entry.name = true) :
    Files.Parented (nodesOf (legacyOrder backup)) fun _ => none := by
  rw [legacyOrder, nodesOf, map_append]
  have hpairs := pairwise_nodesOf hdistinct.legacyOrder
  rw [legacyOrder, nodesOf, map_append, pairwise_append] at hpairs
  refine Files.parented_append.2 ⟨h.parented_directories hdistinct hnames 95, ?_⟩
  refine Files.parented_of hpairs.2.1 ?_ ?_
  · intro p hp
    exact Files.addAll_of_notMem fun q hq => hpairs.2.2 q hq p hp
  · intro p hp
    obtain ⟨old, hold, rfl⟩ := mem_map.1 hp
    obtain ⟨hmem, hused, -⟩ := mem_otherEntries.1 hold
    have hname := hnames old hmem hused
    exact h.hasParent hdistinct hmem hused hname (le_of_lt (pathDepth_lt hname))

end

/-- The content of a link is a valid name, so the target is that name behind a slash. -/
theorem target_eq (h : validName old.data = true) : old.target = slash :: old.data := by
  rw [LegacyBackup.target, cString, takeWhile_eq_self_iff]
  intro byte hbyte
  rw [bne_iff_ne]
  rcases mem_cons.1 hbyte with rfl | hmem
  · decide
  · rintro rfl
    exact absurd (validName_printable h 0 hmem).1 (by decide)

section

variable {i : ℕ} (h : LegacyVolume total disk) (hi : i < 64) (hused : (legacyEntry disk i).used = true)

include h hi hused

theorem LegacyVolume.link (htype : (legacyEntry disk i).type = .symlink) :
    validName (Fs.legacyCopy total disk i).data = true := by
  rw [h.legacyCopy hi hused]
  exact h.links i hi hused htype

/-- The copies of a well-formed volume can all be made again. -/
theorem LegacyVolume.wellFormed : (Fs.legacyCopy total disk i).WellFormed := by
  refine ⟨h.names i hi hused, h.flags i hi hused, fun htype => ?_⟩
  have hvalid := h.link hi hused htype
  have hmax := validName_length hvalid
  have hpos := length_pos_of_ne_nil (validName_ne_nil hvalid)
  have hlength : (Fs.legacyCopy total disk i).data.length = (legacyEntry disk i).size := by
    rw [h.legacyCopy hi hused, legacyBytes, length_readBytes]
  have hsize : (Fs.legacyCopy total disk i).entry.size = (legacyEntry disk i).size := rfl
  refine ⟨by omega, by omega, ?_⟩
  rw [target_eq hvalid]
  exact (if_pos rfl).trans hvalid

theorem LegacyVolume.sectors :
    (Fs.legacyCopy total disk i).sectors = legacySectors (legacyEntry disk i) := by
  have hentry : (Fs.legacyCopy total disk i).entry = legacyEntry disk i := rfl
  have hlength : (Fs.legacyCopy total disk i).data.length = (legacyEntry disk i).size := by
    rw [h.legacyCopy hi hused, legacyBytes, length_readBytes]
  rw [LegacyBackup.sectors, legacySectors, hentry]
  cases htype : (legacyEntry disk i).type with
  | directory => rfl
  | symlink => rw [target_eq (h.link hi hused htype), length_cons, hlength]
  | none => rw [hlength]
  | file => rw [hlength]

end

/-- What becomes of the entries of a version 1 volume: the type, with `0` as a regular file. -/
def LegacyFsEntry.fileType (old : LegacyFsEntry) : FsType :=
  match old.type with
  | .directory => .directory
  | .symlink => .symlink
  | _ => .file

/-- What becomes of the entries of a version 1 volume: the bytes. -/
def migratedBytes (disk : ℕ → ℕ → UInt8) (old : LegacyFsEntry) : List UInt8 :=
  match old.type with
  | .directory => []
  | .symlink => slash :: legacyBytes disk old
  | _ => legacyBytes disk old

theorem LegacyVolume.node_eq (h : LegacyVolume total disk) {i : ℕ} (hi : i < 64)
    (hused : (legacyEntry disk i).used = true) :
    (Fs.legacyCopy total disk i).node = ⟨(legacyEntry disk i).fileType, (legacyEntry disk i).flags,
      (legacyEntry disk i).owner, migratedBytes disk (legacyEntry disk i)⟩ := by
  have hflags : (legacyEntry disk i).flags &&& 0o777 = (legacyEntry disk i).flags := by
    have hmax := h.flags i hi hused
    rw [show (0o777 : ℕ) = 2 ^ 9 - 1 from rfl, and_two_pow_sub_one_eq_mod]
    exact mod_eq_of_lt (by omega)
  have hentry : (Fs.legacyCopy total disk i).entry = legacyEntry disk i := rfl
  have hdata := h.legacyCopy hi hused
  rw [LegacyBackup.node, LegacyFsEntry.fileType, migratedBytes, hentry, hflags]
  cases htype : (legacyEntry disk i).type with
  | directory => rfl
  | symlink => rw [target_eq (h.link hi hused htype), hdata]
  | none => rw [hdata]
  | file => rw [hdata]

/-- The migration of a well-formed volume succeeds, and its files are those of the version 1
volume. -/
theorem LegacyVolume.migrateLegacy (h : LegacyVolume total disk)
    (hheap : ∀ request, allocated request = true) :
    ∃ w, fsInit allocated total disk = (true, w) ∧ VolumeOk w ∧ w.currentPrivileged = true ∧
      (∀ i, i < 64 → (legacyEntry disk i).used = true →
        filesOf w (legacyEntry disk i).name = some ⟨(legacyEntry disk i).fileType,
          (legacyEntry disk i).flags, (legacyEntry disk i).owner,
          migratedBytes disk (legacyEntry disk i)⟩) ∧
      ∀ name, filesOf w name ≠ none →
        ∃ i, i < 64 ∧ (legacyEntry disk i).used = true ∧ (legacyEntry disk i).name = name := by
  have hlarge := h.large
  have hbackup := h.legacyBackup hheap
  have hmem : ∀ old ∈ (List.range 64).map (Fs.legacyCopy total disk), old.entry.used = true →
      ∃ i, i < 64 ∧ (legacyEntry disk i).used = true ∧ Fs.legacyCopy total disk i = old := by
    intro old hold hused
    obtain ⟨i, hi, rfl⟩ := (mem_legacyBackup hbackup).1 hold
    exact ⟨i, hi, hused, rfl⟩
  have hdistinct := h.distinct.distinctNames hbackup
  have hformed : ∀ old ∈ (List.range 64).map (Fs.legacyCopy total disk), old.entry.used = true →
      old.WellFormed := by
    intro old hold hused
    obtain ⟨i, hi, hused', rfl⟩ := hmem old hold hused
    exact h.wellFormed hi hused'
  have hparents : ParentsIn ((List.range 64).map (Fs.legacyCopy total disk)) := by
    intro old hold hused parent base hname hbase
    obtain ⟨i, hi, hused', rfl⟩ := hmem old hold hused
    obtain ⟨j, hj, hjused, hjtype, hjname⟩ := h.parents i hi hused' parent base hname hbase
    exact ⟨Fs.legacyCopy total disk j, (mem_legacyBackup hbackup).2 ⟨j, hj, rfl⟩, hjused, hjtype, hjname⟩
  have hfits : 4608 + ((legacyEntries total disk).map LegacyBackup.sectors).sum ≤ total := by
    have hnodup : (legacyEntries total disk).Nodup :=
      hdistinct.legacyOrder.imp fun hne heq => hne (congrArg (·.entry.name) heq)
    have hsubset : legacyEntries total disk ⊆
        ((List.range 64).map (Fs.legacyCopy total disk)).filter fun old => old.entry.used :=
      fun old hold => mem_filter.2 (mem_of_mem_legacyOrder hold)
    obtain ⟨l, hperm, hsub⟩ := hnodup.subperm hsubset
    have hsum : ((((List.range 64).map (Fs.legacyCopy total disk)).filter
          fun old => old.entry.used).map LegacyBackup.sectors) =
        ((List.range 64).filter fun i => (legacyEntry disk i).used).map fun i =>
          legacySectors (legacyEntry disk i) := by
      rw [filter_map, map_map]
      refine map_congr_left fun i hi => ?_
      obtain ⟨hi, hused⟩ := mem_filter.1 hi
      exact h.sectors (mem_range.1 hi) hused
    have hle := (hsub.map LegacyBackup.sectors).sum_le_sum fun _ _ => zero_le _
    have hfits := h.fits
    rw [← hsum] at hfits
    rw [← (hperm.map LegacyBackup.sectors).sum_eq]
    omega
  obtain ⟨v, hformat, -, hholds⟩ := formatV2_holds disk h.large h.small
  obtain ⟨w, hrebuild, next, hw⟩ := rebuildEach_true hholds
    (by have := hdistinct.length_le; have := length_legacyBackup hbackup; omega) hdistinct.fresh
    (rebuildableAll_of (hparents.parented hdistinct fun old hold hused => (hformed old hold hused).name)
      (fun old hold => hformed old (mem_of_mem_legacyOrder hold).1 (mem_of_mem_legacyOrder hold).2)
      hfits)
  have hinit : fsInit allocated total disk = (true, w) := by
    rw [fsInit, ataReadSector_some.2 ⟨by omega, rfl⟩]
    simp only
    rw [h.magic, h.layout, if_neg (by decide), if_pos rfl]
    exact (migrateLegacy_eq hbackup (hheap _) hformat).trans hrebuild
  refine ⟨w, hinit, hw.ok, hw.privileged, ?_, ?_⟩
  · intro i hi hused
    have hbackupMem := (mem_legacyBackup hbackup).2 ⟨i, hi, rfl⟩
    have hold : Fs.legacyCopy total disk i ∈ legacyEntries total disk := by
      by_cases htype : (legacyEntry disk i).type = .directory
      · exact mem_append_left _ (mem_directoriesByDepth.2 ⟨hbackupMem, hused, htype,
          pathDepth_lt (h.names i hi hused)⟩)
      · exact mem_append_right _ (mem_otherEntries.2 ⟨hbackupMem, hused, htype⟩)
    rw [hw.files, ← h.node_eq hi hused]
    exact Files.addAll_of_mem (pairwise_nodesOf hdistinct.legacyOrder) (mem_nodesOf hold)
  · intro name hname
    obtain ⟨node, hnode⟩ := Option.ne_none_iff_exists'.1 hname
    rw [hw.files] at hnode
    rcases Files.addAll_some hnode with hnodeMem | hnone
    · obtain ⟨old, hold, heq⟩ := mem_map.1 hnodeMem
      obtain ⟨hbackupMem, hused⟩ := mem_of_mem_legacyOrder hold
      obtain ⟨i, hi, hused', rfl⟩ := hmem old hbackupMem hused
      exact ⟨i, hi, hused', (Prod.mk.inj heq).1⟩
    · cases hnone

/-- **The migration keeps everything.**  A well-formed version 1 volume becomes a version 2 volume:
every entry is there under its name with its type, mode and owner, files have their bytes, the target
of a link is its old content behind a slash, and there are no other entries. -/
theorem migration_keeps_everything (allocated : MigrationRequest → Bool) (total : ℕ)
    (disk : ℕ → ℕ → UInt8) (h : LegacyVolume total disk)
    (hheap : ∀ request, allocated request = true) :
    ∃ w, fsInit allocated total disk = (true, w) ∧
      (∀ i, i < 64 → (legacyEntry disk i).used = true → ∃ j, j < 1024 ∧
        (w.entries j).used = true ∧ (w.entries j).name = (legacyEntry disk i).name ∧
        (w.entries j).type = (legacyEntry disk i).fileType ∧
        (w.entries j).flags = (legacyEntry disk i).flags ∧
        (w.entries j).owner = (legacyEntry disk i).owner ∧
        fileBytes w.disk (w.entries j) = migratedBytes disk (legacyEntry disk i)) ∧
      (∀ i, i < 64 → (legacyEntry disk i).used = true → (legacyEntry disk i).fileType = .file →
        ∀ capacity, fsRead w (legacyEntry disk i).name capacity =
          some ((legacyBytes disk (legacyEntry disk i)).take capacity)) ∧
      (∀ i, i < 64 → (legacyEntry disk i).used = true → (legacyEntry disk i).type = .symlink →
        ∀ capacity, 0 < capacity → fsReadlink w (legacyEntry disk i).name capacity =
          some ((slash :: legacyBytes disk (legacyEntry disk i)).take capacity)) ∧
      ∀ j, j < 1024 → (w.entries j).used = true →
        ∃ i, i < 64 ∧ (legacyEntry disk i).used = true ∧
          (w.entries j).name = (legacyEntry disk i).name := by
  obtain ⟨w, hinit, hok, hpriv, hfiles, honly⟩ := h.migrateLegacy hheap
  have hentry : ∀ i, i < 64 → (legacyEntry disk i).used = true → ∃ j,
      findEntry w (legacyEntry disk i).name = some j ∧
      nodeOf w.disk (w.entries j) = ⟨(legacyEntry disk i).fileType, (legacyEntry disk i).flags,
        (legacyEntry disk i).owner, migratedBytes disk (legacyEntry disk i)⟩ :=
    fun i hi hused => findEntry_of_filesOf (hfiles i hi hused)
  refine ⟨w, hinit, ?_, ?_, ?_, ?_⟩
  · intro i hi hused
    obtain ⟨j, hfind, hnode⟩ := hentry i hi hused
    obtain ⟨hj, hjused, hjname⟩ := findEntry_some hfind
    exact ⟨j, hj, hjused, hjname, congrArg Node.type hnode, congrArg Node.mode hnode,
      congrArg Node.owner hnode, congrArg Node.bytes hnode⟩
  · intro i hi hused htype capacity
    have hbytes : migratedBytes disk (legacyEntry disk i) = legacyBytes disk (legacyEntry disk i) := by
      rw [migratedBytes]
      rw [LegacyFsEntry.fileType] at htype
      cases hcase : (legacyEntry disk i).type with
      | directory => rw [hcase] at htype; cases htype
      | symlink => rw [hcase] at htype; cases htype
      | none => rfl
      | file => rfl
    have hsize := h.sizes i hi hused
    have hread := (Leaves.nothing : Leaves w [] w).fsRead_file hok hpriv
      (validName_ne_nil (h.names i hi hused)) (hfiles i hi hused) htype
      (by rw [hbytes, legacyBytes, length_readBytes]; omega) capacity
    rw [hread, hbytes]
  · intro i hi hused htype capacity hcapacity
    obtain ⟨j, hfind, hnode⟩ := hentry i hi hused
    obtain ⟨hj, hjused, hjname⟩ := findEntry_some hfind
    have hbytes : fileBytes w.disk (w.entries j) = slash :: legacyBytes disk (legacyEntry disk i) := by
      have hbytes := congrArg Node.bytes hnode
      rw [migratedBytes, htype] at hbytes
      exact hbytes
    have hjtype : (w.entries j).type = .symlink := by
      have hjtype := congrArg Node.type hnode
      rw [LegacyFsEntry.fileType, htype] at hjtype
      exact hjtype
    have hsize : (w.entries j).size ≤ 0x7FFFFFFF := by
      have hlength := congrArg List.length hbytes
      have hmax := validName_length (h.links i hi hused htype)
      rw [fileBytes, length_readBytes, length_cons] at hlength
      omega
    rw [← hjname, hok.fsReadlink_eq hj hjused (if_pos hpriv) hjtype hsize hcapacity, hbytes]
  · intro j hj hused
    obtain ⟨i, hi, hiused, hname⟩ := honly (w.entries j).name (by
      rw [filesOf_of_findEntry (hok.findEntry_eq hj hused)]
      exact fun hno => by cases hno)
    exact ⟨i, hi, hiused, hname.symm⟩

end

/-! ### Sample volumes -/

/-- A packed `LegacyFsEntry`. -/
def legacyEntryBytes (type flags : ℕ) (name : Name) (startLba size owner : ℕ) : List UInt8 :=
  leBytes 1 1 ++ leBytes 1 type ++ leBytes 2 flags ++
    (name ++ List.replicate (40 - name.length) 0) ++ leBytes 4 startLba ++
    leBytes 4 size ++ leBytes 4 1 ++ leBytes 4 0 ++ leBytes 4 owner

/-- A version 1 disk with up to eight entries, and a sector of data for each from 4128 on. -/
def legacyDisk (entries contents : List (List UInt8)) (lba : ℕ) : ℕ → UInt8 :=
  if lba = 4096 then writeBytes (fun _ => 0) 0 ([78, 79, 86, 65, 54, 52, 70, 83] ++
    leBytes 4 1 ++ leBytes 4 4097 ++ leBytes 4 8 ++ leBytes 4 4128 ++
    leBytes 4 64 ++ leBytes 4 5000)
  else if lba = 4097 then writeBytes (fun _ => 0) 0 entries.flatten
  else if lba < 4128 then fun _ => 0
  else writeBytes (fun _ => 0) 0 (contents.getD (lba - 4128) [])

theorem legacyDistinct_of {disk : ℕ → ℕ → UInt8}
    (h : ∀ i, i < 64 → (legacyEntry disk i).used = true → ∀ j, j < 64 →
      (legacyEntry disk j).used = true →
      (legacyEntry disk i).name = (legacyEntry disk j).name → i = j) : LegacyDistinct disk :=
  fun i j hi hj hused hused' => h i hi hused j hj hused'

theorem legacyParents_of {disk : ℕ → ℕ → UInt8} {i : ℕ}
    (h : (lastSlash (legacyEntry disk i).name).all (fun k => (List.range 64).any fun j =>
      (legacyEntry disk j).used && decide ((legacyEntry disk j).type = .directory) &&
        (legacyEntry disk j).name == (legacyEntry disk i).name.take k) = true)
    (parent base : Name) (hname : (legacyEntry disk i).name = parent ++ slash :: base)
    (hbase : slash ∉ base) :
    ∃ j, j < 64 ∧ (legacyEntry disk j).used = true ∧ (legacyEntry disk j).type = .directory ∧
      (legacyEntry disk j).name = parent := by
  rw [hname, lastSlash_split parent hbase, Option.all_some, any_eq_true] at h
  obtain ⟨j, hj, hjd⟩ := h
  rw [Bool.and_eq_true, Bool.and_eq_true, decide_eq_true_eq, beq_iff_eq, take_left] at hjd
  exact ⟨j, mem_range.1 hj, hjd.1.1, hjd.1.2, hjd.2⟩

/-- A link `l`, a file `d/a` of type 0 and their directory `d`, in this order. -/
def treeDisk : ℕ → ℕ → UInt8 :=
  legacyDisk [legacyEntryBytes 3 0o777 [108] 4128 3 0, legacyEntryBytes 0 0o644 [100, 47, 97] 4129 2 7,
    legacyEntryBytes 2 0o755 [100] 0 0 7] [[100, 47, 97], [65, 66]]

/-- The tree is migrated, and read through the version 2 calls. -/
theorem migration_keeps_everything_tree :
    ∃ w, fsInit (fun _ => true) 5000 treeDisk = (true, w) ∧
      fsRead w [100, 47, 97] 9 = some [65, 66] ∧ fsReadlink w [108] 9 = some [47, 100, 47, 97] := by
  have hvolume : LegacyVolume 5000 treeDisk := by
    refine ⟨by decide +kernel, by decide +kernel, by decide, by decide, by decide +kernel,
      legacyDistinct_of (by decide +kernel), fun i hi hused => legacyParents_of ?_,
      by decide +kernel, by decide +kernel, by decide +kernel, by decide +kernel, by decide +kernel⟩
    revert i
    decide +kernel
  obtain ⟨w, hinit, -, hread, hlink, -⟩ :=
    migration_keeps_everything (fun _ => true) 5000 treeDisk hvolume fun _ => rfl
  refine ⟨w, hinit, ?_, ?_⟩
  · have hfile := hread 1 (by decide) (by decide +kernel) (by decide +kernel) 9
    have hname : (legacyEntry treeDisk 1).name = [100, 47, 97] := by decide +kernel
    have hbytes : (legacyBytes treeDisk (legacyEntry treeDisk 1)).take 9 = [65, 66] := by
      decide +kernel
    rw [hname, hbytes] at hfile
    exact hfile
  · have htarget := hlink 0 (by decide) (by decide +kernel) (by decide +kernel) 9 (by decide)
    have hname : (legacyEntry treeDisk 0).name = [108] := by decide +kernel
    have hbytes : (slash :: legacyBytes treeDisk (legacyEntry treeDisk 0)).take 9 =
        [47, 100, 47, 97] := by
      decide +kernel
    rw [hname, hbytes] at htarget
    exact htarget

/-- A file `a` and a link `l` to nothing. -/
def emptyLinkDisk : ℕ → ℕ → UInt8 :=
  legacyDisk [legacyEntryBytes 1 0o644 [97] 4128 1 0, legacyEntryBytes 3 0o777 [108] 4129 0 0] [[65]]

/-- The migration fails at the link, which comes last: the file has been made again. -/
theorem failed_migration_harmless_iff_link :
    (migrateLegacy (fun _ => true) (unmounted 5000 emptyLinkDisk)).1 = false ∧
      legacyRead 5000 emptyLinkDisk [97] = some [65] ∧
      StillReadable 5000 emptyLinkDisk
        (migrateLegacy (fun _ => true) (unmounted 5000 emptyLinkDisk)).2 := by
  have hfalse : (migrateLegacy (fun _ => true) (unmounted 5000 emptyLinkDisk)).1 = false := by
    decide +kernel
  have hsafe : SafeToFail (fun _ => true) 5000 emptyLinkDisk := by
    have hkept : decide (Kept 5000 (legacyEntries 5000 emptyLinkDisk) (fun _ => none) 4608) = true := by
      decide +kernel
    exact .of_kept rfl (legacyDistinct_of (by decide +kernel)) hkept
  have hlegacy : isLegacy (emptyLinkDisk 4096) = true := by decide +kernel
  have hread : legacyRead 5000 emptyLinkDisk [97] = some [65] := by decide +kernel
  obtain ⟨hstill, -⟩ := failed_migration_harmless_iff (fun _ => true) 5000 emptyLinkDisk (by decide)
    hlegacy hfalse
  exact ⟨hfalse, hread, hstill hsafe⟩

/-- A file `a` and a directory `d` of mode `01755`. -/
def stickyDisk : ℕ → ℕ → UInt8 :=
  legacyDisk [legacyEntryBytes 1 0o644 [97] 4128 1 0, legacyEntryBytes 2 0o1755 [100] 0 0 0] [[65]]

/-- **A directory of mode `01755` costs the volume its file.**  The file could be read, the directory
is refused by `fs_mkdir` after the disk has been formatted, and then neither the version 1 volume nor
the new one has the file. -/
theorem failed_migration_loses_file :
    isLegacy (stickyDisk 4096) = true ∧
      (migrateLegacy (fun _ => true) (unmounted 5000 stickyDisk)).1 = false ∧
      legacyRead 5000 stickyDisk [97] = some [65] ∧
      ¬StillReadable 5000 stickyDisk
        (migrateLegacy (fun _ => true) (unmounted 5000 stickyDisk)).2 := by
  have hread : legacyRead 5000 stickyDisk [97] = some [65] := by decide +kernel
  refine ⟨by decide +kernel, by decide +kernel, hread, fun hstill => ?_⟩
  rcases hstill [97] [65] hread with hdisk | ⟨-, hmigrated⟩
  · -- the version in the superblock
    have hversion := congrFun (congrFun hdisk 4096) 8
    revert hversion
    decide +kernel
  · revert hmigrated
    decide +kernel

end NovaOS.Fs
