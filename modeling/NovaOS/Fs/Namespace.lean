import NovaOS.Fs.Paths

/-!
# The names of a volume

The table of NovaFS is flat: the tree of directories is in the names.  A call creates an entry only
below a directory, deletes a directory only when no name continues its own, and turns an entry into a
link only when it has just created it.

* `Namespace` — used entries have valid names, no two the same, and what comes before the last slash
  of a name is the name of a directory;
* `SameHeaders`, `NameStep` — what a call can do to the names: keep them, add one, remove one, or make
  a link of a file;
* `Namespace.nameStep`, `nameSteps_step` — such steps keep the namespace, and calls are such steps;
* `namespace_reachable` — **the namespace is kept by every run of calls**, whatever they return.
-/

namespace NovaOS.Fs

/-- The names of a volume are the paths of a tree. -/
structure Namespace (v : Volume) : Prop where
  distinct : ∀ i j, i < 1024 → j < 1024 → (v.entries i).used = true → (v.entries j).used = true →
    (v.entries i).name = (v.entries j).name → i = j
  valid : ∀ i, i < 1024 → (v.entries i).used = true → validName (v.entries i).name = true
  parent : ∀ i, i < 1024 → (v.entries i).used = true → ∀ parent base,
    (v.entries i).name = parent ++ slash :: base → slash ∉ base →
    ∃ j, j < 1024 ∧ (v.entries j).used = true ∧ (v.entries j).name = parent ∧
      (v.entries j).type = .directory

/-! ### Steps -/

/-- The entries have the same names and types. -/
def SameHeaders (v v' : Volume) : Prop :=
  ∀ j, (v'.entries j).used = (v.entries j).used ∧ (v'.entries j).name = (v.entries j).name ∧
    (v'.entries j).type = (v.entries j).type

/-- What can happen to the names. -/
inductive NameStep (v : Volume) : Volume → Prop
  | kept {v' : Volume} (same : SameHeaders v v') : NameStep v v'
  | added {v' : Volume} {index mode : ℕ} {name : Name} {type : FsType} (bound : index < 1024)
      (unused : (v.entries index).used = false) (valid : validName name = true)
      (fresh : findEntry v name = none) (below : parentDirectoryExists v name = true)
      (same : SameHeaders (v.setEntry index (newEntry v name type mode)) v') : NameStep v v'
  | removed {v' : Volume} {index : ℕ}
      (leaf : (v.entries index).type = .directory → ∀ candidate, candidate < 1024 →
        (v.entries candidate).used = true → candidate ≠ index →
        isBelow (v.entries index).name (v.entries candidate) = false)
      (same : SameHeaders (v.setEntry index FsEntry.zero) v') : NameStep v v'
  | linked {v' : Volume} {index flags : ℕ} (file : (v.entries index).type = .file)
      (same : SameHeaders
        (v.setEntry index { v.entries index with type := .symlink, flags := flags }) v') : NameStep v v'

section Steps

variable {v v' : Volume} {index : ℕ} {name : Name} {entry : FsEntry}

theorem SameHeaders.refl (v : Volume) : SameHeaders v v := fun _ => ⟨rfl, rfl, rfl⟩

theorem SameHeaders.trans {v'' : Volume} (h : SameHeaders v v') (h' : SameHeaders v' v'') :
    SameHeaders v v'' := by
  intro j
  obtain ⟨hused, hname, htype⟩ := h j
  obtain ⟨hused', hname', htype'⟩ := h' j
  exact ⟨hused'.trans hused, hname'.trans hname, htype'.trans htype⟩

theorem Namespace.congr (h : Namespace v) (hsame : SameHeaders v v') : Namespace v' := by
  constructor
  · intro i j hi hj hused hused' hname
    rw [(hsame i).1] at hused
    rw [(hsame j).1] at hused'
    rw [(hsame i).2.1, (hsame j).2.1] at hname
    exact h.distinct i j hi hj hused hused' hname
  · intro i hi hused
    rw [(hsame i).1] at hused
    rw [(hsame i).2.1]
    exact h.valid i hi hused
  · intro i hi hused parent base hname hbase
    rw [(hsame i).1] at hused
    rw [(hsame i).2.1] at hname
    obtain ⟨j, hj, hjused, hjname, hjtype⟩ := h.parent i hi hused parent base hname hbase
    exact ⟨j, hj, (hsame j).1.trans hjused, (hsame j).2.1.trans hjname, (hsame j).2.2.trans hjtype⟩

/-- What `parent_directory_exists` has found. -/
theorem parent_of_exists {parent base : Name} (hbase : slash ∉ base)
    (h : parentDirectoryExists v (parent ++ slash :: base) = true) :
    ∃ j, j < 1024 ∧ (v.entries j).used = true ∧ (v.entries j).name = parent ∧
      (v.entries j).type = .directory := by
  rw [parentDirectoryExists, lastSlash_split parent hbase] at h
  simp only at h
  split at h
  · cases h
  rw [List.take_left] at h
  split at h
  · cases h
  · rename_i j hfind
    obtain ⟨hj, hused, hname⟩ := findEntry_some hfind
    exact ⟨j, hj, hused, hname, of_decide_eq_true h⟩

theorem Namespace.added (h : Namespace v) (hunused : (v.entries index).used = false)
    (hvalid : validName name = true) (hfresh : findEntry v name = none)
    (hbelow : parentDirectoryExists v name = true) (type : FsType) (mode : ℕ) :
    Namespace (v.setEntry index (newEntry v name type mode)) := by
  have hself := v.setEntry_self index (newEntry v name type mode)
  have hother := fun j (hj : j ≠ index) => v.setEntry_of_ne (newEntry v name type mode) hj
  have hnew : (newEntry v name type mode).name = name :=
    List.take_of_length_le (validName_length hvalid)
  -- an entry that was there is not the new one
  have hne : ∀ j, (v.entries j).used = true → j ≠ index := by
    rintro j hused rfl
    rw [hunused] at hused
    cases hused
  have hnames := @Volume.pairs_setEntry v index (newEntry v name type mode)
    (fun a b => a.name ≠ b.name) Ne.symm
    (fun _ j hj _ hused => by rw [hnew]; exact (findEntry_none hfresh hj hused).symm)
    fun i j hi hj hij hused hused' heq => hij (h.distinct i j hi hj hused hused' heq)
  constructor
  · intro i j hi hj hused hused' hname
    by_contra hij
    exact hnames i j hi hj hij hused hused' hname
  · refine Volume.forall_setEntry (P := fun i e => i < 1024 → e.used = true → validName e.name = true)
      (fun _ _ => ?_) fun i _ => h.valid i
    rw [hnew]
    exact hvalid
  · intro i hi hused parent base hname hbase
    have hfound : ∃ j, j < 1024 ∧ (v.entries j).used = true ∧ (v.entries j).name = parent ∧
        (v.entries j).type = .directory := by
      by_cases hii : i = index
      · rw [hii, hself, hnew] at hname
        rw [hname] at hbelow
        exact parent_of_exists hbase hbelow
      · rw [hother i hii] at hused hname
        exact h.parent i hi hused parent base hname hbase
    obtain ⟨j, hj, hjused, hjname, hjtype⟩ := hfound
    refine ⟨j, hj, ?_⟩
    rw [hother j (hne j hjused)]
    exact ⟨hjused, hjname, hjtype⟩

/-- A name continues the name of its directory. -/
theorem isBelow_of_name {parent base : Name} (h : entry.name = parent ++ slash :: base) :
    isBelow parent entry = true := by
  rw [isBelow, h, List.take_left, beq_self_eq_true, Bool.true_and]
  simp

/-- An entry that no name continues goes. -/
theorem Namespace.removed (h : Namespace v)
    (hleaf : (v.entries index).type = .directory → ∀ candidate, candidate < 1024 →
      (v.entries candidate).used = true → candidate ≠ index →
      isBelow (v.entries index).name (v.entries candidate) = false) :
    Namespace (v.setEntry index FsEntry.zero) := by
  have hother := fun j (hj : j ≠ index) => v.setEntry_of_ne FsEntry.zero hj
  have hne : ∀ j, ((v.setEntry index FsEntry.zero).entries j).used = true → j ≠ index := by
    rintro j hused rfl
    rw [v.setEntry_self] at hused
    cases hused
  constructor
  · intro i j hi hj hused hused' hname
    have hii := hne i hused
    have hjj := hne j hused'
    rw [hother i hii] at hused hname
    rw [hother j hjj] at hused' hname
    exact h.distinct i j hi hj hused hused' hname
  · intro i hi hused
    have hii := hne i hused
    rw [hother i hii] at hused ⊢
    exact h.valid i hi hused
  · intro i hi hused parent base hname hbase
    have hii := hne i hused
    rw [hother i hii] at hused hname
    obtain ⟨j, hj, hjused, hjname, hjtype⟩ := h.parent i hi hused parent base hname hbase
    have hjj : j ≠ index := by
      rintro rfl
      have hbelow := isBelow_of_name hname
      rw [← hjname, hleaf hjtype i hi hused hii] at hbelow
      cases hbelow
    refine ⟨j, hj, ?_⟩
    rw [hother j hjj]
    exact ⟨hjused, hjname, hjtype⟩

/-- A file becomes a link: it was nobody's directory. -/
theorem Namespace.linked (h : Namespace v) (hfile : (v.entries index).type = .file) (flags : ℕ) :
    Namespace (v.setEntry index { v.entries index with type := .symlink, flags := flags }) := by
  generalize hentry : { v.entries index with type := FsType.symlink, flags := flags } = entry
  have hsame : ∀ j, ((v.setEntry index entry).entries j).used = (v.entries j).used ∧
      ((v.setEntry index entry).entries j).name = (v.entries j).name := by
    intro j
    by_cases hj : j = index
    · rw [hj, v.setEntry_self, ← hentry]
      exact ⟨rfl, rfl⟩
    · rw [v.setEntry_of_ne entry hj]
      exact ⟨rfl, rfl⟩
  constructor
  · intro i j hi hj hused hused' hname
    rw [(hsame i).1] at hused
    rw [(hsame j).1] at hused'
    rw [(hsame i).2, (hsame j).2] at hname
    exact h.distinct i j hi hj hused hused' hname
  · intro i hi hused
    rw [(hsame i).1] at hused
    rw [(hsame i).2]
    exact h.valid i hi hused
  · intro i hi hused parent base hname hbase
    rw [(hsame i).1] at hused
    rw [(hsame i).2] at hname
    obtain ⟨j, hj, hjused, hjname, hjtype⟩ := h.parent i hi hused parent base hname hbase
    have hjj : j ≠ index := by
      rintro rfl
      rw [hfile] at hjtype
      cases hjtype
    refine ⟨j, hj, ?_⟩
    rw [v.setEntry_of_ne entry hjj]
    exact ⟨hjused, hjname, hjtype⟩

/-- **A step keeps the namespace.** -/
theorem Namespace.nameStep (h : Namespace v) (hstep : NameStep v v') : Namespace v' := by
  cases hstep with
  | kept same => exact h.congr same
  | added bound unused valid fresh below same =>
    exact (h.added unused valid fresh below _ _).congr same
  | removed leaf same => exact (h.removed leaf).congr same
  | linked file same => exact (h.linked file _).congr same

end Steps

/-! ### What the calls do to the names -/

section Calls

variable {v v' v₁ : Volume} {index : ℕ} {name : Name} {entry : FsEntry} {found : Option ℕ}

/-- A change of one entry that keeps its name and type. -/
theorem sameHeaders_setEntry (v : Volume) (hused : entry.used = (v.entries index).used)
    (hname : entry.name = (v.entries index).name) (htype : entry.type = (v.entries index).type) :
    SameHeaders v (v.setEntry index entry) := by
  intro j
  by_cases hj : j = index
  · rw [hj, v.setEntry_self]
    exact ⟨hused, hname, htype⟩
  · rw [v.setEntry_of_ne entry hj]
    exact ⟨rfl, rfl, rfl⟩

theorem sameHeaders_saveEntry (v : Volume) (index : ℕ) : SameHeaders v (saveEntry v index).2 := by
  rw [saveEntry]
  split
  · exact .refl v
  · split
    · exact .refl v
    · exact .refl v

theorem sameHeaders_writeEntryData (v : Volume) (index : ℕ) (data : List UInt8) :
    SameHeaders v (writeEntryData v index data).2 := by
  obtain ⟨e, ⟨hused, hname, htype, -⟩, hentries⟩ := writeEntryData_entries v index data
  intro j
  rw [hentries]
  exact sameHeaders_setEntry v hused hname htype j

theorem sameHeaders_growExtent (v : Volume) (index required : ℕ) :
    SameHeaders v (growExtent v index required).2 := by
  rw [growExtent]
  simp only
  split
  · split
    · exact .refl v
    · split
      · exact .refl v
      · rename_i disk _
        exact sameHeaders_setEntry { v with disk := disk } rfl rfl rfl
  · exact .refl v

theorem sameHeaders_fillExtent (v : Volume) (index offset : ℕ) (data : List UInt8) :
    SameHeaders v (fillExtent v index offset data).2 := by
  rw [fillExtent]
  split
  · exact .refl v
  · exact .refl v

theorem sameHeaders_writeEntryAt (v : Volume) (index offset : ℕ) (data : List UInt8) :
    SameHeaders v (writeEntryAt v index offset data).2 := by
  rw [writeEntryAt]
  split
  · exact .refl v
  generalize requiredSectors (max (offset + data.length) (v.entries index).size) = required
  have hgrown := sameHeaders_growExtent v index required
  rcases hg : growExtent v index required with ⟨_ | _, v₁⟩
  · rw [hg] at hgrown
    exact hgrown
  rw [hg] at hgrown
  have hfilled := sameHeaders_fillExtent v₁ index offset data
  simp only
  rcases hf : fillExtent v₁ index offset data with ⟨_ | _, v₂⟩
  · rw [hf] at hfilled
    exact hgrown.trans hfilled
  rw [hf] at hfilled
  refine (hgrown.trans hfilled).trans (.trans ?_ (sameHeaders_saveEntry _ index))
  exact sameHeaders_setEntry v₂ rfl rfl rfl

/-- What follows the allocation of an entry and keeps the names leaves one more name. -/
theorem nameStep_allocate {type : FsType} {mode : ℕ}
    (h : allocateEntry v name type mode = (found, v₁)) (hsame : SameHeaders v₁ v') : NameStep v v' := by
  rcases allocateEntry_outcome v name type mode with he | ⟨index, hb, hunused, hvalid, hfresh, hbelow, he⟩
  · cases h.symm.trans he
    exact .kept hsame
  · cases h.symm.trans he
    exact .added hb hunused hvalid hfresh hbelow hsame

/-- The entry a write goes to, and the names until then. -/
theorem nameStep_openWrite
    (h : openWrite v name = (found, v₁)) (hsame : SameHeaders v₁ v') : NameStep v v' := by
  obtain ⟨_, hopen, -⟩ | ⟨index, hb, hunused, hvalid, hfresh, hbelow, hopen⟩ := openWrite_outcome v name
  · cases h.symm.trans hopen
    exact .kept hsame
  · cases h.symm.trans hopen
    exact .added hb hunused hvalid hfresh hbelow hsame

theorem nameStep_openWriteAt
    (h : openWriteAt v name = (found, v₁)) (hsame : SameHeaders v₁ v') : NameStep v v' := by
  rw [openWriteAt_eq] at h
  split at h
  · rcases he : openWrite v name with ⟨_ | index, v₂⟩
    · rw [he] at h
      cases h
      exact nameStep_openWrite he hsame
    · rw [he] at h
      cases h
      exact nameStep_openWrite he ((sameHeaders_saveEntry v₂ index).trans hsame)
  · exact nameStep_openWrite h hsame

section

variable (v : Volume)

theorem nameStep_fsWrite (name : Name) (data : List UInt8) : NameStep v (fsWrite v name data).2 := by
  rw [fsWrite]
  split
  · exact .kept (.refl v)
  rcases he : openWrite v name with ⟨_ | index, v₁⟩
  · exact nameStep_openWrite he (.refl v₁)
  · simp only
    split
    · exact nameStep_openWrite he (.refl v₁)
    · exact nameStep_openWrite he (sameHeaders_writeEntryData v₁ index data)

theorem nameStep_fsWriteAt (name : Name) (offset : ℕ) (data : List UInt8) :
    NameStep v (fsWriteAt v name offset data).2 := by
  rw [fsWriteAt]
  split
  · exact .kept (.refl v)
  rcases he : openWriteAt v name with ⟨_ | index, v₁⟩
  · exact nameStep_openWriteAt he (.refl v₁)
  · simp only
    split
    · exact nameStep_openWriteAt he (.refl v₁)
    · exact nameStep_openWriteAt he (sameHeaders_writeEntryAt v₁ index offset data)

theorem nameStep_fsDelete (name : Name) : NameStep v (fsDelete v name).2 := by
  rw [fsDelete]
  split
  · exact .kept (.refl v)
  cases hfind : findEntry v name with
  | none => exact .kept (.refl v)
  | some index =>
    simp only
    split
    · exact .kept (.refl v)
    split
    · exact .kept (.refl v)
    rename_i hscan
    refine .removed (fun hdirectory candidate hbound hused hne => ?_) (sameHeaders_saveEntry _ index)
    rw [(findEntry_some hfind).2.2]
    by_contra hbelow
    refine hscan ?_
    rw [decide_eq_true hdirectory, Bool.true_and, List.any_eq_true]
    refine ⟨candidate, List.mem_range'_1.2 ⟨Nat.zero_le _, by omega⟩, ?_⟩
    rw [hused, Bool.of_not_eq_false hbelow]
    simpa using hne

theorem nameStep_fsMkdir (name : Name) (mode : ℕ) : NameStep v (fsMkdir v name mode).2 := by
  rw [fsMkdir]
  split
  · exact .kept (.refl v)
  rcases he : allocateEntry v name .directory (if mode ≠ 0 then mode else 0o777) with ⟨_ | index, v₁⟩
  · exact nameStep_allocate he (.refl v₁)
  · exact nameStep_allocate he (sameHeaders_saveEntry v₁ index)

/-- `fs_symlink` writes a file and makes it a link. -/
theorem nameSteps_fsSymlink (target name : Name) :
    ∃ v₁, NameStep v v₁ ∧ NameStep v₁ (fsSymlink v target name).2 := by
  rw [fsSymlink]
  split
  · exact ⟨v, .kept (.refl v), .kept (.refl v)⟩
  rename_i hguard
  have hnew : findEntry v name = none := by
    rw [Bool.or_eq_true, not_or, Option.not_isSome_iff_eq_none] at hguard
    exact hguard.2
  have hwritten := nameStep_fsWrite v name target
  rcases he : fsWrite v name target with ⟨_ | _, v₁⟩
  · rw [he] at hwritten
    exact ⟨v₁, hwritten, .kept (.refl v₁)⟩
  rw [he] at hwritten
  refine ⟨v₁, hwritten, ?_⟩
  simp only
  cases hfind : findEntry v₁ name with
  | none => exact .kept (.refl v₁)
  | some index =>
    have hfile : ((fsWrite v name target).2.entries index).type = .file :=
      (fsWrite_created hnew (by rw [he]; exact hfind)).1
    rw [he] at hfile
    exact .linked hfile (sameHeaders_saveEntry _ index)

/-- A change of one entry's flags or owner keeps the names. -/
theorem nameStep_setEntry (hused : entry.used = (v.entries index).used)
    (hname : entry.name = (v.entries index).name) (htype : entry.type = (v.entries index).type) :
    NameStep v (saveEntry (v.setEntry index entry) index).2 :=
  .kept ((sameHeaders_setEntry v hused hname htype).trans (sameHeaders_saveEntry _ index))

theorem nameStep_fsChmod (name : Name) (mode : ℕ) : NameStep v (fsChmod v name mode).2 := by
  rw [fsChmod]
  split
  · exact .kept (.refl v)
  split
  · exact .kept (.refl v)
  · split
    · exact .kept (.refl v)
    · exact nameStep_setEntry v rfl rfl rfl

theorem nameStep_fsChown (name : Name) (owner : ℕ) : NameStep v (fsChown v name owner).2 := by
  rw [fsChown]
  split
  · exact .kept (.refl v)
  split
  · exact .kept (.refl v)
  · exact nameStep_setEntry v rfl rfl rfl

/-- **Every call takes at most two steps.** -/
theorem nameSteps_step (op : FsOp) : ∃ v₁, NameStep v v₁ ∧ NameStep v₁ (v.step op).2 := by
  have hsingle : ∀ {v' : Volume}, NameStep v v' → ∃ v₁, NameStep v v₁ ∧ NameStep v₁ v' :=
    fun hstep => ⟨v, .kept (.refl v), hstep⟩
  cases op with
  | write name data => exact hsingle (nameStep_fsWrite v name data)
  | writeAt name offset data => exact hsingle (nameStep_fsWriteAt v name offset data)
  | delete name => exact hsingle (nameStep_fsDelete v name)
  | mkdir name mode => exact hsingle (nameStep_fsMkdir v name mode)
  | symlink target name => exact nameSteps_fsSymlink v target name
  | chmod name mode => exact hsingle (nameStep_fsChmod v name mode)
  | chown name owner => exact hsingle (nameStep_fsChown v name owner)
  | setIdentity uid privileged => exact hsingle (.kept (.refl v))

end

end Calls

/-! ### Runs -/

theorem Namespace.run {v : Volume} (h : Namespace v) (ops : List FsOp) : Namespace (v.run ops) := by
  induction ops generalizing v with
  | nil => exact h
  | cons op ops ih =>
    obtain ⟨v₁, hfirst, hsecond⟩ := nameSteps_step v op
    exact ih ((h.nameStep hfirst).nameStep hsecond)

theorem Namespace.of_unused {v : Volume} (h : ∀ i, (v.entries i).used = false) : Namespace v := by
  have hno : ∀ i, (v.entries i).used ≠ true := fun i hused => by
    rw [h i] at hused
    cases hused
  exact ⟨fun i _ _ _ hused => absurd hused (hno i), fun i _ hused => absurd hused (hno i),
    fun i _ hused => absurd hused (hno i)⟩

/-- Formatting clears the table, on whatever disk. -/
theorem formatted_entries (total : ℕ) (disk : ℕ → ℕ → UInt8) (i : ℕ) :
    (formatted total disk).entries i = FsEntry.zero := by
  rw [formatted, formatV2]
  split
  · rfl
  simp only
  split
  · rfl
  · rfl

/-- **The namespace of every reachable table**: after any calls, with any results, under any
identities, the names are valid and distinct, and every path leads through directories. -/
theorem namespace_reachable (total : ℕ) (disk : ℕ → ℕ → UInt8) (ops : List FsOp) :
    Namespace ((formatted total disk).run ops) := by
  refine Namespace.run (.of_unused fun i => ?_) ops
  rw [formatted_entries]
  rfl

end NovaOS.Fs
