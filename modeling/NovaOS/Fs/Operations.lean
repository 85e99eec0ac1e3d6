import NovaOS.Fs.Volume

/-!
# NovaFS: the calls

The public calls of the filesystem over the volume of `NovaOS.Fs.Volume`, each with its checks in
the order of the source.  A mutating call returns its Boolean and the volume it leaves, also when it
fails; a reading call returns `none` where the source returns `-1` or `false`.  `FsOp` lists the
mutating calls and `fs_set_identity`, and `Volume.run` makes them one after the other.

Buffers are lists, so a null buffer does not arise.  That the heap has no sector buffer for
`saveEntry`, `writeEntryData`, `readRawData` or `fsWriteAt` is not modelled: all results about the
calls are for a heap that has one.
-/

namespace NovaOS.Fs

/-! ### Resolving links -/

/-- The loop of `resolve_entry`, `depth` rounds before it gives up. -/
def resolveLoop (v : Volume) : ℕ → Name → Option ℕ
  | 0, _ => none
  | depth + 1, resolved =>
    match findEntry v resolved with
    | none => none
    | some index =>
      let entry := v.entries index
      if entry.type ≠ .symlink then some index
      else if entry.size = 0 || entry.size > 96 then none
      else
        match readEntryData v entry 0 entry.size with
        | none => none
        | some bytes =>
          if bytes.length ≠ entry.size then none
          else if !validSymlinkTarget (cString bytes) then none
          else
            match followTarget resolved (cString bytes) with
            | none => none
            | some next => if !validName next then none else resolveLoop v depth next

/-- `resolve_entry`. -/
def resolveEntry (v : Volume) (name : Name) : Option ℕ := resolveLoop v 8 name

/-! ### Reading -/

/-- `fs_read_at`. -/
def fsReadAt (v : Volume) (name : Name) (offset capacity : ℕ) : Option (List UInt8) :=
  if !v.mounted || !validName name then none
  else
    match resolveEntry v name with
    | none => none
    | some index =>
      if (v.entries index).type ≠ .file || !mayRead v (v.entries index) then none
      else readEntryData v (v.entries index) offset capacity

/-- `fs_read`. -/
def fsRead (v : Volume) (name : Name) (capacity : ℕ) : Option (List UInt8) :=
  fsReadAt v name 0 capacity

structure FsFileInfo where
  name : Name
  size : ℕ
  flags : ℕ
  owner : ℕ
  type : FsType
  deriving DecidableEq, Repr

/-- `fs_path_info`. -/
def fsPathInfo (v : Volume) (name : Name) (followSymlink : Bool) : Option FsFileInfo :=
  if !v.mounted || !validName name then none
  else
    match if followSymlink then resolveEntry v name else findEntry v name with
    | none => none
    | some index =>
      let entry := v.entries index
      some ⟨entry.name, entry.size, entryMode entry, entry.owner, entry.type⟩

/-! ### Writing -/

/-- `write_entry_data`.  The new extent is entered in the table before it is compared with the end
of the disk. -/
def writeEntryData (v : Volume) (index : ℕ) (data : List UInt8) : Bool × Volume :=
  let required := requiredSectors data.length
  if required > 0xFFFFFFFF then (false, v)
  else
    let entry :=
      if (v.entries index).capacitySectors < required then
        { v.entries index with startLba := nextDataLba v, capacitySectors := required }
      else v.entries index
    let v := v.setEntry index entry
    if entry.startLba + required > v.totalSectors then (false, v)
    else
      match writeBlocks v.totalSectors entry.startLba required 0 data v.disk with
      | (false, disk) => (false, { v with disk := disk })
      | (true, disk) =>
        saveEntry ({ v with disk := disk }.setEntry index
          { entry with size := data.length, modified := (entry.modified + 1) % 2 ^ 32 }) index

/-- The entry `fs_write` writes to. -/
def openWrite (v : Volume) (name : Name) : Option ℕ × Volume :=
  match findEntry v name with
  | none => allocateEntry v name .file 0o660
  | some index =>
    if (v.entries index).type = .symlink then (resolveEntry v name, v) else (some index, v)

/-- `fs_write`. -/
def fsWrite (v : Volume) (name : Name) (data : List UInt8) : Bool × Volume :=
  if !v.mounted || !validName name then (false, v)
  else
    match openWrite v name with
    | (none, v) => (false, v)
    | (some index, v) =>
      if (v.entries index).type ≠ .file || !mayWrite v (v.entries index) then (false, v)
      else writeEntryData v index data

/-- The entry `fs_write_at` writes to; a new one is saved at once. -/
def openWriteAt (v : Volume) (name : Name) : Option ℕ × Volume :=
  match findEntry v name with
  | none =>
    match allocateEntry v name .file 0o660 with
    | (none, v) => (none, v)
    | (some index, v) =>
      match saveEntry v index with
      | (false, v) => (none, v)
      | (true, v) => (some index, v)
  | some index =>
    if (v.entries index).type = .symlink then (resolveEntry v name, v) else (some index, v)

/-- The part of `fs_write_at` that moves a file which has outgrown its extent. -/
def growExtent (v : Volume) (index required : ℕ) : Bool × Volume :=
  let entry := v.entries index
  if entry.capacitySectors < required then
    let replacement := nextDataLba v
    if replacement + required > v.totalSectors then (false, v)
    else
      match relocateBlocks v.totalSectors entry.startLba entry.capacitySectors replacement required 0
          v.disk with
      | (false, disk) => (false, { v with disk := disk })
      | (true, disk) =>
        (true, { v with disk := disk }.setEntry index
          { entry with startLba := replacement, capacitySectors := required })
  else (true, v)

/-- The part of `fs_write_at` that clears the gap and copies the data into the extent. -/
def fillExtent (v : Volume) (index offset : ℕ) (data : List UInt8) : Bool × Volume :=
  let entry := v.entries index
  match zeroGap v.totalSectors entry.startLba offset (offset - entry.size) entry.size v.disk with
  | (false, disk) => (false, { v with disk := disk })
  | (true, disk) =>
    match copyData v.totalSectors entry.startLba entry.size data.length offset data disk with
    | (success, disk) => (success, { v with disk := disk })

/-- The rest of `fs_write_at` once the entry is found. -/
def writeEntryAt (v : Volume) (index offset : ℕ) (data : List UInt8) : Bool × Volume :=
  let newSize := max (offset + data.length) (v.entries index).size
  let required := requiredSectors newSize
  if required > 0xFFFFFFFF then (false, v)
  else
    match growExtent v index required with
    | (false, v) => (false, v)
    | (true, v) =>
      match fillExtent v index offset data with
      | (false, v) => (false, v)
      | (true, v) =>
        let entry := v.entries index
        saveEntry (v.setEntry index
          { entry with size := newSize, modified := (entry.modified + 1) % 2 ^ 32 }) index

/-- `fs_write_at`. -/
def fsWriteAt (v : Volume) (name : Name) (offset : ℕ) (data : List UInt8) : Bool × Volume :=
  if !v.mounted || !validName name || (offset + data.length) % 2 ^ 64 < offset then (false, v)
  else
    match openWriteAt v name with
    | (none, v) => (false, v)
    | (some index, v) =>
      if (v.entries index).type ≠ .file || !mayWrite v (v.entries index) then (false, v)
      else writeEntryAt v index offset data

/-! ### The directory calls -/

/-- Whether an entry lies below the directory `name`. -/
def isBelow (name : Name) (entry : FsEntry) : Bool :=
  entry.name.take name.length == name && entry.name.getD name.length 0 == slash

/-- `fs_delete`. -/
def fsDelete (v : Volume) (name : Name) : Bool × Volume :=
  if !v.mounted || !validName name then (false, v)
  else
    match findEntry v name with
    | none => (false, v)
    | some index =>
      if !mayWrite v (v.entries index) then (false, v)
      else if (v.entries index).type = .directory && (List.range' 0 1024).any fun candidate =>
          (v.entries candidate).used && candidate != index && isBelow name (v.entries candidate)
      then (false, v)
      else saveEntry (v.setEntry index FsEntry.zero) index

/-- `fs_mkdir`. -/
def fsMkdir (v : Volume) (name : Name) (mode : ℕ) : Bool × Volume :=
  if !v.mounted || !validName name || mode > 0o777 then (false, v)
  else
    match allocateEntry v name .directory (if mode ≠ 0 then mode else 0o777) with
    | (none, v) => (false, v)
    | (some index, v) => saveEntry v index

/-- `fs_symlink`. -/
def fsSymlink (v : Volume) (target name : Name) : Bool × Volume :=
  if !v.mounted || !validSymlinkTarget target || !validName name || (findEntry v name).isSome then
    (false, v)
  else
    match fsWrite v name target with
    | (false, v) => (false, v)
    | (true, v) =>
      match findEntry v name with
      | none => (false, v)
      | some index =>
        saveEntry (v.setEntry index { v.entries index with type := .symlink, flags := 0o777 }) index

/-- `fs_chmod`. -/
def fsChmod (v : Volume) (name : Name) (mode : ℕ) : Bool × Volume :=
  if !v.mounted || !validName name || mode > 0o777 then (false, v)
  else
    match findEntry v name with
    | none => (false, v)
    | some index =>
      if !v.currentPrivileged && v.currentUid ≠ (v.entries index).owner then (false, v)
      else saveEntry (v.setEntry index
        { v.entries index with flags := (v.entries index).flags &&& 0xFE00 ||| mode }) index

/-- `fs_chown`. -/
def fsChown (v : Volume) (name : Name) (owner : ℕ) : Bool × Volume :=
  if !v.mounted || !v.currentPrivileged || !validName name then (false, v)
  else
    match findEntry v name with
    | none => (false, v)
    | some index =>
      saveEntry (v.setEntry index { v.entries index with owner := owner }) index

/-- `fs_set_identity`. -/
def fsSetIdentity (v : Volume) (uid : ℕ) (privileged : Bool) : Volume :=
  { v with currentUid := uid, currentPrivileged := privileged }

/-! ### Runs -/

inductive FsOp
  | write (name : Name) (data : List UInt8)
  | writeAt (name : Name) (offset : ℕ) (data : List UInt8)
  | delete (name : Name)
  | mkdir (name : Name) (mode : ℕ)
  | symlink (target name : Name)
  | chmod (name : Name) (mode : ℕ)
  | chown (name : Name) (owner : ℕ)
  | setIdentity (uid : ℕ) (privileged : Bool)
  deriving DecidableEq, Repr

/-- One call: its result and the volume it leaves. -/
def Volume.step (v : Volume) : FsOp → Bool × Volume
  | .write name data => fsWrite v name data
  | .writeAt name offset data => fsWriteAt v name offset data
  | .delete name => fsDelete v name
  | .mkdir name mode => fsMkdir v name mode
  | .symlink target name => fsSymlink v target name
  | .chmod name mode => fsChmod v name mode
  | .chown name owner => fsChown v name owner
  | .setIdentity uid privileged => (true, fsSetIdentity v uid privileged)

/-- The volume after a list of calls, whatever they returned. -/
def Volume.run (v : Volume) : List FsOp → Volume
  | [] => v
  | op :: ops => (v.step op).2.run ops

/-- Whether every call of the list returns `true`. -/
def Volume.allTrue (v : Volume) : List FsOp → Bool
  | [] => true
  | op :: ops => (v.step op).1 && (v.step op).2.allTrue ops

/-- `fs_init` on a disk without a superblock, then `format_v2`: `disk` is what the disk held. -/
def formatted (total : ℕ) (disk : ℕ → ℕ → UInt8) : Volume :=
  (formatV2 true ⟨fun _ => FsEntry.zero, disk, total, false, 0, true⟩).2

end NovaOS.Fs
