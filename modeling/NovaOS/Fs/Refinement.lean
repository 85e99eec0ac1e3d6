import NovaOS.Fs.Calls

/-!
# NovaFS refines a map from paths to files

`step_cases` puts the outcomes of the calls together: on a volume that meets `VolumeOk` a call is
refused and changes nothing, or does not fit, or takes the files where the abstract filesystem goes.
A volume formatted by `format_v2` meets the invariant and has no files (`formatted_ok`), so after any
run of successful calls the volume holds exactly the abstract files (`run_refines`), and reading it
is reading them (`fsReadAt_eq`, `fsPathInfo_eq`).

The bound on the sizes is the one that `read_raw_data` puts on its result; the bound on the disk is
the 28-bit sector address of the driver.
-/

set_option maxRecDepth 2000

namespace NovaOS.Fs

open List Option Bool

/-! ### One call -/

/-- The end of the data a call writes. -/
def FsOp.finish : FsOp → ℕ
  | .write _ data => data.length
  | .writeAt _ offset data => offset + data.length
  | .symlink target _ => target.length
  | _ => 0

/-- Whether the caller is privileged after the call. -/
def FsOp.privileged (before : Bool) : FsOp → Bool
  | .setIdentity _ privileged => privileged
  | _ => before

/-- What a call writes fits where the call puts it. -/
def Fits (v : Volume) : FsOp → Prop
  | .write name data => FitsWrite v name data.length
  | .writeAt name offset data => FitsWriteAt v name (offset + data.length)
  | .symlink target name => FitsWrite v name target.length
  | _ => True

/-- The abstract filesystem of a volume. -/
def Volume.fileSystem (v : Volume) : FileSystem := ⟨filesOf v, v.currentUid⟩

/-- A call that succeeded. -/
structure StepRefines (v v' : Volume) (op : FsOp) : Prop where
  ok : VolumeOk v'
  fileSystem : v'.fileSystem = v.fileSystem.step op
  privileged : v'.currentPrivileged = op.privileged v.currentPrivileged

theorem Refines.stepRefines {v v' : Volume} {op : FsOp} {files : Files} (h : Refines v v' files)
    (hstep : v.fileSystem.step op = ⟨files, v.currentUid⟩)
    (hpriv : op.privileged v.currentPrivileged = v.currentPrivileged) : StepRefines v v' op where
  ok := h.ok
  fileSystem := by rw [hstep, Volume.fileSystem, h.files, h.uid]
  privileged := by rw [hpriv, h.privileged]

theorem stepRefines_of_cases {v : Volume} {op : FsOp} {files : Files} {r : Bool × Volume}
    (h : r = (false, v) ∨ (¬ Fits v op ∧ r.1 = false) ∨ ∃ v', r = (true, v') ∧ Refines v v' files)
    (hstep : v.fileSystem.step op = ⟨files, v.currentUid⟩)
    (hpriv : op.privileged v.currentPrivileged = v.currentPrivileged) :
    r = (false, v) ∨ (¬ Fits v op ∧ r.1 = false) ∨ ∃ v', r = (true, v') ∧ StepRefines v v' op := by
  rcases h with hf | hfits | ⟨v', ht, hr⟩
  · exact .inl hf
  · exact .inr (.inl hfits)
  · exact .inr (.inr ⟨v', ht, hr.stepRefines hstep hpriv⟩)

theorem step_cases {v : Volume} (h : VolumeOk v) (op : FsOp) (hlen : op.finish + 511 < 2 ^ 64) :
    v.step op = (false, v) ∨ (¬ Fits v op ∧ (v.step op).1 = false) ∨
      ∃ v', v.step op = (true, v') ∧ StepRefines v v' op := by
  cases op with
  | write name data => exact stepRefines_of_cases (fsWrite_cases h name data hlen) rfl rfl
  | writeAt name offset data =>
    exact stepRefines_of_cases (fsWriteAt_cases h name offset data hlen) rfl rfl
  | delete name => exact stepRefines_of_cases ((fsDelete_cases h name).imp_right .inr) rfl rfl
  | mkdir name mode => exact stepRefines_of_cases ((fsMkdir_cases h name mode).imp_right .inr) rfl rfl
  | symlink target name =>
    exact stepRefines_of_cases (fsSymlink_cases h target name hlen) rfl rfl
  | chmod name mode => exact stepRefines_of_cases ((fsChmod_cases h name mode).imp_right .inr) rfl rfl
  | chown name owner => exact stepRefines_of_cases ((fsChown_cases h name owner).imp_right .inr) rfl rfl
  | setIdentity uid privileged =>
    have hok : VolumeOk (fsSetIdentity v uid privileged) :=
      ⟨h.mounted, h.large, h.small, h.entry, h.names, h.apart⟩
    exact .inr (.inr ⟨_, rfl, hok, rfl, rfl⟩)

/-! ### The formatted volume -/

theorem clearSectors_eq {total : ℕ} (hT : total ≤ 0x10000000) (count lba : ℕ)
    (disk : ℕ → ℕ → UInt8) (h : lba + count ≤ total) :
    ∃ disk', clearSectors total count lba disk = (true, disk') := by
  induction count generalizing lba disk with
  | zero => exact ⟨disk, rfl⟩
  | succ count ih =>
    rw [clearSectors, ataWriteSector_eq (by omega) hT]
    exact ih (lba + 1) _ (by omega)

section

variable {total : ℕ} (disk : ℕ → ℕ → UInt8) (hlarge : 4608 + 128 < total) (hsmall : total ≤ 0x10000000)

include hlarge hsmall

theorem formatted_eq :
    ∃ disk', formatted total disk = ⟨fun _ => FsEntry.zero, disk', total, true, 0, true⟩ := by
  obtain ⟨disk', hclear⟩ := clearSectors_eq hsmall 256 4097
    (Function.update disk 4096 (writeBytes (fun _ => 0) 0 (superblockBytes total))) (by omega)
  refine ⟨disk', ?_⟩
  rw [formatted, formatV2]
  simp only
  rw [if_neg (by omega), ataWriteSector_eq (by omega) hsmall]
  simp only [Bool.not_true, Bool.false_eq_true, if_false, hclear]

/-- **A formatted volume meets the invariant and has no files.** -/
theorem formatted_ok :
    VolumeOk (formatted total disk) ∧ (formatted total disk).fileSystem = FileSystem.empty ∧
      (formatted total disk).currentPrivileged = true := by
  obtain ⟨disk', heq⟩ := formatted_eq disk hlarge hsmall
  rw [heq]
  have hfiles : filesOf ⟨fun _ => FsEntry.zero, disk', total, true, 0, true⟩ = fun _ => none := by
    funext name
    rw [filesOf_eq_none]
    cases hf : findEntry _ name with
    | none => rfl
    | some index => exact absurd (findEntry_some hf).2.1 nofun
  refine ⟨⟨rfl, hlarge, hsmall, nofun, nofun, nofun⟩, ?_, rfl⟩
  rw [Volume.fileSystem, hfiles, FileSystem.empty]

theorem filesOf_formatted : filesOf (formatted total disk) = fun _ => none :=
  congrArg FileSystem.files (formatted_ok disk hlarge hsmall).2.1

end

/-! ### Runs -/

section

variable (h : VolumeOk v) (ops : List FsOp) (hlen : ∀ op ∈ ops, op.finish + 511 < 2 ^ 64)
  (htrue : v.allTrue ops = true)

include h hlen htrue

/-- **After any run of successful calls the volume holds the abstract files.** -/
theorem run_refines :
    VolumeOk (v.run ops) ∧ (v.run ops).fileSystem = v.fileSystem.run ops := by
  induction ops generalizing v with
  | nil => exact ⟨h, rfl⟩
  | cons op ops ih =>
    rw [Volume.allTrue, and_eq_true] at htrue
    rw [Volume.run, FileSystem.run]
    rcases step_cases h op (hlen op mem_cons_self) with hf | ⟨-, hf⟩ | ⟨v', ht, hr⟩
    · rw [hf] at htrue
      exact absurd htrue.1 false_ne_true
    · rw [hf] at htrue
      exact absurd htrue.1 false_ne_true
    · rw [ht] at htrue ⊢
      rw [← hr.fileSystem]
      exact ih hr.ok (fun op' hop => hlen op' (mem_cons_of_mem _ hop)) htrue.2

/-- Only `fs_set_identity` changes the privilege. -/
theorem run_privileged
    (hpriv : v.currentPrivileged = true) (hops : ∀ op ∈ ops, op.privileged true = true) :
    (v.run ops).currentPrivileged = true := by
  induction ops generalizing v with
  | nil => exact hpriv
  | cons op ops ih =>
    rw [Volume.allTrue, and_eq_true] at htrue
    rw [Volume.run]
    rcases step_cases h op (hlen op mem_cons_self) with hf | ⟨-, hf⟩ | ⟨v', ht, hr⟩
    · rw [hf] at htrue
      exact absurd htrue.1 false_ne_true
    · rw [hf] at htrue
      exact absurd htrue.1 false_ne_true
    · rw [ht] at htrue ⊢
      apply ih hr.ok (fun op' hop => hlen op' (mem_cons_of_mem _ hop)) htrue.2
      · rw [hr.privileged, hpriv]
        exact hops op mem_cons_self
      · exact fun op' hop => hops op' (mem_cons_of_mem _ hop)

end

/-! ### Reading -/

/-- No file is too long for the result of a read. -/
def Files.Short (files : Files) : Prop :=
  ∀ path node, files path = some node → node.bytes.length ≤ 0x7FFFFFFF

theorem Files.Short.set {files : Files} (h : files.Short) (path : Name) {node : Option Node}
    (hnode : ∀ n, node = some n → n.bytes.length ≤ 0x7FFFFFFF) : (files.set path node).Short := by
  intro q n hq
  rw [Files.set] at hq
  by_cases hqp : q = path
  · rw [hqp, Function.update_self] at hq
    exact hnode n hq
  · rw [Function.update_of_ne hqp] at hq
    exact h q n hq

theorem Files.Short.modify {files : Files} (h : files.Short) (path : Name) {f : Node → Node}
    (hf : ∀ n, files path = some n → (f n).bytes.length ≤ 0x7FFFFFFF) :
    (files.modify path f).Short := by
  apply h.set
  intro n hn
  obtain ⟨n', hn', rfl⟩ := map_eq_some_iff.1 hn
  exact hf n' hn'

theorem Files.Short.write {files : Files} (h : files.Short) (uid : ℕ) (name : Name)
    (f : List UInt8 → List UInt8)
    (hf : ∀ old : List UInt8, old.length ≤ 0x7FFFFFFF → (f old).length ≤ 0x7FFFFFFF) :
    (files.write uid name f).Short := by
  rw [Files.write]
  cases files name with
  | none =>
    apply h.set
    intro n hn
    rw [← some.inj hn]
    exact hf [] (Nat.zero_le _)
  | some node =>
    cases files.target name with
    | none => exact h
    | some path => exact h.modify path fun n hn => hf n.bytes (h path n hn)

theorem FileSystem.step_short {s : FileSystem} (h : s.files.Short) {op : FsOp}
    (hop : op.finish < 2 ^ 31) : (s.step op).files.Short := by
  cases op with
  | write name data =>
    have hdata : data.length < 2 ^ 31 := hop
    apply h.write s.uid name fun _ => data
    intro old _
    omega
  | writeAt name offset data =>
    have hdata : offset + data.length < 2 ^ 31 := hop
    apply h.write s.uid name fun old => overwrite old offset data
    intro old hold
    rw [length_overwrite]
    omega
  | delete name => exact h.set name nofun
  | mkdir name mode =>
    apply h.set name
    intro n hn
    rw [← some.inj hn]
    exact Nat.zero_le _
  | symlink target name =>
    have htarget : target.length < 2 ^ 31 := hop
    apply h.set name
    intro n hn
    rw [← some.inj hn]
    show target.length ≤ 0x7FFFFFFF
    omega
  | chmod name mode => exact h.modify name fun n hn => h name n hn
  | chown name owner => exact h.modify name fun n hn => h name n hn
  | setIdentity uid privileged => exact h

theorem FileSystem.run_short {s : FileSystem} (h : s.files.Short) (ops : List FsOp)
    (hops : ∀ op ∈ ops, op.finish < 2 ^ 31) : (s.run ops).files.Short := by
  induction ops generalizing s with
  | nil => exact h
  | cons op ops ih =>
    exact ih (step_short h (hops op mem_cons_self)) fun op' hop => hops op' (mem_cons_of_mem _ hop)

theorem FileSystem.empty_short : FileSystem.empty.files.Short := by
  intro path node h
  cases h

/-- The entry a name leads to is the node it leads to. -/
theorem VolumeOk.resolveEntry_cases {v : Volume} (h : VolumeOk v) (name : Name) :
    (resolveEntry v name = none ∧ ((filesOf v).resolve 8 name).bind (filesOf v) = none) ∨
    ∃ index, resolveEntry v name = some index ∧ index < 1024 ∧ (v.entries index).used = true ∧
      (filesOf v).resolve 8 name = some (v.entries index).name ∧
      ((filesOf v).resolve 8 name).bind (filesOf v) = some (nodeOf v.disk (v.entries index)) := by
  have hres := h.resolveLoop_eq 8 name
  rw [resolveEntry, hres]
  cases (filesOf v).resolve 8 name with
  | none => exact .inl ⟨rfl, rfl⟩
  | some path =>
    simp only [bind_some]
    cases hf : findEntry v path with
    | none => exact .inl ⟨rfl, filesOf_eq_none.2 hf⟩
    | some index =>
      obtain ⟨hindex, hused, hname⟩ := findEntry_some hf
      exact .inr ⟨index, rfl, hindex, hused, by rw [hname], filesOf_of_findEntry hf⟩

/-- **Reading the volume is reading the map.** -/
theorem VolumeOk.fsReadAt_eq {v : Volume} (h : VolumeOk v) (hpriv : v.currentPrivileged = true)
    (hshort : (filesOf v).Short) (name : Name) (offset capacity : ℕ) :
    fsReadAt v name offset capacity = (filesOf v).readAt name offset capacity := by
  rw [fsReadAt, Files.readAt, h.mounted, Bool.not_true, Bool.false_or]
  by_cases hvalid : (!validName name) = true
  · rw [if_pos hvalid, if_pos hvalid]
  rw [if_neg hvalid, if_neg hvalid]
  rcases h.resolveEntry_cases name with ⟨hnone, hbind⟩ | ⟨index, hsome, hindex, hused, hpath, hbind⟩
  · rw [hnone, hbind]
  · rw [hsome, hbind]
    have hmay : mayRead v (v.entries index) = true := by rw [mayRead, hpriv, if_pos rfl]
    have hentry := h.entry index hindex hused
    have hin := hentry.inside
    have hfit := hentry.size
    have hsize : (v.entries index).size ≤ 0x7FFFFFFF := by
      have hnode := hshort _ _ (filesOf_of_findEntry (h.findEntry_eq hindex hused))
      rwa [nodeOf, fileBytes, length_readBytes] at hnode
    simp only [hmay, Bool.not_true, Bool.or_false, decide_eq_true_eq]
    show _ = if (v.entries index).type = .file then _ else _
    by_cases htype : (v.entries index).type = .file
    · rw [if_neg (fun hne => hne htype), if_pos htype, readEntryData,
        readRawData_eq _ h.small _ _ _ (by omega) (by omega)]
      rfl
    · rw [if_pos htype, if_neg htype]

/-- The mode `fs_path_info` shows for a node. -/
def Node.shownMode (node : Node) : ℕ :=
  let mode := node.mode &&& 0o777
  if mode ≠ 0 then mode
  else if node.type = .directory || node.type = .symlink then 0o777 else 0o666

/-- What `fs_path_info` shows of a path. -/
def Files.pathInfo (files : Files) (name : Name) (followSymlink : Bool) : Option FsFileInfo :=
  if !validName name then none
  else
    match if followSymlink then files.resolve 8 name else some name with
    | none => none
    | some path => (files path).map fun node =>
      ⟨path, node.bytes.length, node.shownMode, node.owner, node.type⟩

theorem VolumeOk.fsPathInfo_eq {v : Volume} (h : VolumeOk v) (name : Name)
    (followSymlink : Bool) :
    fsPathInfo v name followSymlink = (filesOf v).pathInfo name followSymlink := by
  have hinfo : ∀ index,
      FsFileInfo.mk (v.entries index).name (v.entries index).size (entryMode (v.entries index))
        (v.entries index).owner (v.entries index).type =
      ⟨(v.entries index).name, (nodeOf v.disk (v.entries index)).bytes.length,
        (nodeOf v.disk (v.entries index)).shownMode, (v.entries index).owner,
        (v.entries index).type⟩ := by
    intro index
    rw [show (nodeOf v.disk (v.entries index)).bytes.length = (v.entries index).size from
      length_readBytes]
    rfl
  rw [fsPathInfo, Files.pathInfo, h.mounted, Bool.not_true, Bool.false_or]
  by_cases hvalid : (!validName name) = true
  · rw [if_pos hvalid, if_pos hvalid]
  cases followSymlink with
  | true =>
    simp only [if_true]
    rcases h.resolveEntry_cases name with
      ⟨hnone, hbind⟩ | ⟨index, hsome, hindex, hused, hpath, hbind⟩
    · rw [hnone]
      cases hp : (filesOf v).resolve 8 name with
      | none => rfl
      | some path =>
        rw [hp, bind_some] at hbind
        simp only [hbind, map_none]
    · rw [hsome, hpath]
      simp only [filesOf_of_findEntry (h.findEntry_eq hindex hused), map_some]
      rw [hinfo index]
      rfl
  | false =>
    simp only [false_eq_true, if_false]
    cases hf : findEntry v name with
    | none => rw [filesOf_eq_none.2 hf, map_none]
    | some index =>
      rw [filesOf_of_findEntry hf, map_some, ← (findEntry_some hf).2.2]
      simp only
      rw [hinfo index]
      rfl

/-! ### The refinement -/

/-- **NovaFS refines a map from paths to files.**  From a freshly formatted volume, after any run of
successful calls by privileged users that writes no file to 2 GiB or more, every read returns the
bytes of the abstract file, `fs_path_info` shows its type, mode, owner and size, and the extents of
the used entries are pairwise disjoint and lie in the data area. -/
theorem fs_refines_files (total : ℕ) (disk : ℕ → ℕ → UInt8) (hlarge : 4608 + 128 < total)
    (hsmall : total ≤ 0x10000000) (ops : List FsOp) (hsize : ∀ op ∈ ops, op.finish < 2 ^ 31)
    (hpriv : ∀ op ∈ ops, op.privileged true = true)
    (htrue : (formatted total disk).allTrue ops = true) :
    let v := (formatted total disk).run ops
    let files := (FileSystem.empty.run ops).files
    (∀ name offset capacity, fsReadAt v name offset capacity = files.readAt name offset capacity) ∧
    (∀ name follow, fsPathInfo v name follow = files.pathInfo name follow) ∧
    (∀ i, i < 1024 → (v.entries i).used = true → 0 < (v.entries i).capacitySectors →
      4608 ≤ (v.entries i).startLba ∧
        (v.entries i).startLba + (v.entries i).capacitySectors ≤ v.totalSectors) ∧
    (∀ i j, i < 1024 → j < 1024 → i ≠ j → (v.entries i).used = true →
      (v.entries j).used = true → 0 < (v.entries i).capacitySectors →
      0 < (v.entries j).capacitySectors →
      (v.entries i).startLba + (v.entries i).capacitySectors ≤ (v.entries j).startLba ∨
        (v.entries j).startLba + (v.entries j).capacitySectors ≤ (v.entries i).startLba) := by
  obtain ⟨hok, hempty, hprivileged⟩ := formatted_ok disk hlarge hsmall
  have hlen : ∀ op ∈ ops, op.finish + 511 < 2 ^ 64 := by
    intro op hop
    have := hsize op hop
    omega
  obtain ⟨hrun, hfiles⟩ := run_refines hok ops hlen htrue
  have hfinal := run_privileged hok ops hlen htrue hprivileged hpriv
  rw [hempty] at hfiles
  have hfiles' := congrArg FileSystem.files hfiles
  have hshort : (FileSystem.empty.run ops).files.Short :=
    FileSystem.run_short FileSystem.empty_short ops hsize
  rw [← hfiles'] at hshort ⊢
  refine ⟨hrun.fsReadAt_eq hfinal hshort, hrun.fsPathInfo_eq, ?_, hrun.apart⟩
  intro i hi hu hcap
  exact ⟨(hrun.entry i hi hu).low hcap, (hrun.entry i hi hu).inside⟩

/-- A directory `d`, a file `d/a` written twice, a link `l` to it, and a read through the link. -/
theorem fs_refines_files_link :
    let ops : List FsOp := [.mkdir [100] 0, .write [100, 47, 97] [1, 2, 3],
      .writeAt [100, 47, 97] 5 [9], .symlink [47, 100, 47, 97] [108]]
    (formatted 5000 fun _ _ => 7).allTrue ops = true ∧
      fsReadAt ((formatted 5000 fun _ _ => 7).run ops) [108] 1 9 = some [2, 3, 0, 0, 9] := by
  intro ops
  have htrue : (formatted 5000 fun _ _ => 7).allTrue ops = true := by decide +kernel
  refine ⟨htrue, ?_⟩
  rw [(fs_refines_files 5000 (fun _ _ => 7) (by decide) (by decide) ops (by decide) (by decide)
    htrue).1]
  decide +kernel

end NovaOS.Fs
