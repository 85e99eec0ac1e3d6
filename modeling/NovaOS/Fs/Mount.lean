import NovaOS.Fs.Users

/-!
# NovaFS: mounting a disk

`fs_init` looks at the superblock of a disk.  A disk without one is formatted, a version 2 volume is
mounted as it stands, and a version 1 volume is migrated: `migrate_legacy` copies every file of it to
the heap, formats the disk and makes the entries again with the calls of `NovaOS.Fs.Operations`,
directories first and by depth.

The packed structures of the disk are read field by field (`readEntry`, `readLegacyEntry`).  A type
byte without a meaning is read as `none`, and the name of an entry is the C string in its field.  The
name of a version 1 entry without a terminating zero runs on into the fields behind it, as it does in
the source.

The heap gives `fs_init` its table.  Which of the other requests on the way it can serve is the
parameter `allocated`, up to the sector of zeros of `format_v2`.  From there on the calls only ask for
one sector at a time and give it back before they ask again, and the heap has what it was given back
(`Heap.Tiled.heapAlloc_again`).
-/

namespace NovaOS.Fs

/-! ### Packed structures -/

def FsType.ofCode : ℕ → FsType
  | 1 => .file
  | 2 => .directory
  | 3 => .symlink
  | _ => .none

/-- The packed `FsEntry` at `offset` of a directory sector. -/
def readEntry (sector : ℕ → UInt8) (offset : ℕ) : FsEntry where
  used := sector offset != 0
  type := FsType.ofCode (loadWord 1 sector (offset + 1))
  flags := loadWord 2 sector (offset + 2)
  owner := loadWord 4 sector (offset + 4)
  name := cString (readBytes sector (offset + 8) 96)
  startLba := loadWord 4 sector (offset + 104)
  size := loadWord 8 sector (offset + 108)
  capacitySectors := loadWord 4 sector (offset + 116)
  modified := loadWord 4 sector (offset + 120)

/-- The entry in slot `index` of the directory on the disk. -/
def entryOnDisk (disk : ℕ → ℕ → UInt8) (index : ℕ) : FsEntry :=
  readEntry (disk (4097 + index / 4)) (index % 4 * 128)

/-- The table of 1024 entries that the directory sectors hold. -/
def tableOnDisk (disk : ℕ → ℕ → UInt8) (index : ℕ) : FsEntry :=
  if index < 1024 then entryOnDisk disk index else FsEntry.zero

/-- `magic_matches`. -/
def magicMatches (block : ℕ → UInt8) : Bool :=
  readBytes block 0 8 == [78, 79, 86, 65, 54, 52, 70, 83]

/-- The superblock describes this layout. -/
def layoutMatches (block : ℕ → UInt8) (version directoryLba directorySectors dataLba maxEntries : ℕ) :
    Bool :=
  loadWord 4 block 8 == version && loadWord 4 block 12 == directoryLba &&
    loadWord 4 block 16 == directorySectors && loadWord 4 block 20 == dataLba &&
    loadWord 4 block 24 == maxEntries

/-! ### Version 1 volumes -/

/-- The fields of a `LegacyFsEntry` that the migration reads. -/
structure LegacyFsEntry where
  used : Bool
  type : FsType
  flags : ℕ
  name : Name
  startLba : ℕ
  size : ℕ
  owner : ℕ
  deriving DecidableEq, Repr

/-- The packed `LegacyFsEntry` at `offset` of a directory sector. -/
def readLegacyEntry (sector : ℕ → UInt8) (offset : ℕ) : LegacyFsEntry where
  used := sector offset != 0
  type := FsType.ofCode (loadWord 1 sector (offset + 1))
  flags := loadWord 2 sector (offset + 2)
  name := cString (readBytes sector (offset + 4) 60)
  startLba := loadWord 4 sector (offset + 44)
  size := loadWord 4 sector (offset + 48)
  owner := loadWord 4 sector (offset + 60)

/-- The entry in slot `index` of the version 1 directory. -/
def legacyEntry (disk : ℕ → ℕ → UInt8) (index : ℕ) : LegacyFsEntry :=
  readLegacyEntry (disk (4097 + index / 8)) (index % 8 * 64)

structure LegacyBackup where
  entry : LegacyFsEntry
  data : List UInt8
  deriving DecidableEq, Repr

/-- A word as a C `int`. -/
def toInt (word : ℕ) : Int := if word < 2 ^ 31 then (word : Int) else (word : Int) - 2 ^ 32

/-- The result of `read_raw_data` as the C `int` it is. -/
def readResult : Option (List UInt8) → Int
  | none => -1
  | some bytes => bytes.length

/-- What mounting a disk asks the heap for: the two tables of the migration, for a file its copy and
the sector through which it is read, and the sector of zeros of `format_v2`. -/
inductive MigrationRequest
  | backup
  | legacy
  | copy (index : ℕ)
  | sector (index : ℕ)
  | empty

/-- The entry in slot `index` with the bytes of its file. -/
def legacyCopy (total : ℕ) (disk : ℕ → ℕ → UInt8) (index : ℕ) : LegacyBackup :=
  let old := legacyEntry disk index
  ⟨old, if !old.used || old.size = 0 then []
    else copiedBytes total disk old.startLba old.size 0 old.size⟩

/-- Whether the file in slot `index` is copied; if not, the migration stops.  The length of the
largest file, `0xFFFFFFFF` bytes, is compared with the result as the `int` `-1`. -/
def copyMade (allocated : MigrationRequest → Bool) (total : ℕ) (disk : ℕ → ℕ → UInt8) (index : ℕ) :
    Bool :=
  let old := legacyEntry disk index
  !old.used || old.size = 0 || allocated (.copy index) &&
    readResult (if allocated (.sector index) then
      readRawData total disk old.startLba old.size 0 old.size else none) = toInt old.size

/-- `path_depth`. -/
def pathDepth (path : Name) : ℕ := path.count slash

/-- The directories of a depth below `n`, in the order in which they are made. -/
def directoriesBelow (backup : List LegacyBackup) (n : ℕ) : List LegacyBackup :=
  (List.range n).flatMap fun depth => backup.filter fun old =>
    old.entry.used && decide (old.entry.type = .directory) && pathDepth old.entry.name == depth

/-- The directories of the backup that are made. -/
def directoriesByDepth (backup : List LegacyBackup) : List LegacyBackup := directoriesBelow backup 95

/-- The other entries of the backup. -/
def otherEntries (backup : List LegacyBackup) : List LegacyBackup :=
  backup.filter fun old => old.entry.used && !decide (old.entry.type = .directory)

/-- The mode and the owner of an entry that has been made again; the results are not looked at. -/
def restoreOwner (v : Volume) (old : LegacyFsEntry) : Volume :=
  (fsChown (fsChmod v old.name (old.flags &&& 0o777)).2 old.name old.owner).2

def rebuildDirectory (v : Volume) (old : LegacyBackup) : Bool × Volume :=
  match if (fsPathInfo v old.entry.name false).isSome then (true, v)
    else fsMkdir v old.entry.name old.entry.flags with
  | (false, v) => (false, v)
  | (true, v) => (true, restoreOwner v old.entry)

def rebuildFile (v : Volume) (old : LegacyBackup) : Bool × Volume :=
  match if old.entry.type = .symlink then
      if old.entry.size = 0 || old.entry.size > 95 then (false, v)
      else fsSymlink v (cString (slash :: old.data)) old.entry.name
    else fsWrite v old.entry.name old.data with
  | (false, v) => (false, v)
  | (true, v) => (true, restoreOwner v old.entry)

/-- A loop of `migrate_legacy`, which stops at the first entry that cannot be made. -/
def rebuildEach (rebuild : Volume → LegacyBackup → Bool × Volume) :
    List LegacyBackup → Volume → Bool × Volume
  | [], v => (true, v)
  | old :: rest, v =>
    match rebuild v old with
    | (false, v) => (false, v)
    | (true, v) => rebuildEach rebuild rest v

/-- Whether the disk gives all of the `count` directory sectors. -/
def directoryReadable (total : ℕ) (disk : ℕ → ℕ → UInt8) (count : ℕ) : Bool :=
  (List.range count).all fun sector => (ataReadSector total disk (4097 + sector)).isSome

/-- The copies `migrate_legacy` makes before it formats the disk. -/
def legacyBackup (allocated : MigrationRequest → Bool) (total : ℕ) (disk : ℕ → ℕ → UInt8) :
    Option (List LegacyBackup) :=
  if allocated .backup && allocated .legacy && directoryReadable total disk 8 &&
      (List.range 64).all (copyMade allocated total disk) then
    some ((List.range 64).map (legacyCopy total disk))
  else none

/-- `migrate_legacy`. -/
def migrateLegacy (allocated : MigrationRequest → Bool) (v : Volume) : Bool × Volume :=
  match legacyBackup allocated v.totalSectors v.disk with
  | none => (false, v)
  | some backup =>
    match formatV2 (allocated .empty) v with
    | (false, v) => (false, v)
    | (true, v) =>
      match rebuildEach rebuildDirectory (directoriesByDepth backup) v with
      | (false, v) => (false, v)
      | (true, v) => rebuildEach rebuildFile (otherEntries backup) v

/-! ### Mounting -/

/-- The superblock is that of a version 1 volume. -/
def isLegacy (block : ℕ → UInt8) : Bool := layoutMatches block 1 4097 8 4128 64

/-- The superblock is that of a version 2 volume. -/
def isCurrent (block : ℕ → UInt8) : Bool := layoutMatches block 2 4097 256 4608 1024

/-- `fs_init` on a disk of `total` sectors.  Where the directory cannot be read the volume is not
mounted, and no call looks at its table. -/
def fsInit (allocated : MigrationRequest → Bool) (total : ℕ) (disk : ℕ → ℕ → UInt8) :
    Bool × Volume :=
  let v : Volume := ⟨fun _ => FsEntry.zero, disk, total, false, 0, true⟩
  match ataReadSector total disk 4096 with
  | none => formatV2 (allocated .empty) v
  | some superblock =>
    if !magicMatches superblock then formatV2 (allocated .empty) v
    else if isLegacy superblock then migrateLegacy allocated v
    else if !isCurrent superblock || !directoryReadable total disk 256 then (false, v)
    else
      -- the result of writing the superblock back is not looked at
      let disk' := (ataWriteSector total disk 4096 (storeWord 4 superblock 28 total)).getD disk
      (true, ⟨tableOnDisk disk, disk', total, true, 0, true⟩)

end NovaOS.Fs
