import NovaOS.Lib.LittleEndian

/-!
# NovaFS: the mounted volume and its disk

The filesystem keeps its directory table `entries` in memory and writes every changed entry through
to the directory sectors of the disk; a file's bytes lie in one extent of `capacitySectors` sectors
from `startLba` on.  This file holds the data of a mounted volume and the helpers under the calls:

* the ATA driver's sector access, which refuses a sector at or past the end of the disk or past the
  28-bit address range (`ataReadSector`, `ataWriteSector`);
* names (`validName`, `followTarget`) and the directory table (`findEntry`, `allocateEntry`,
  `saveEntry`, `formatV2`);
* the byte loops over an extent (`readRawData`, `writeBlocks`, `relocateBlocks`, `zeroGap`,
  `copyData`).

Names are C strings, so lists of bytes without a zero.  Sector numbers are 32-bit and sizes 64-bit
words; where the source's arithmetic can wrap, the remainder is written out.
-/

namespace NovaOS.Fs

open Function

abbrev Name := List UInt8

/-- The byte of a slash. -/
def slash : UInt8 := 47

/-- The byte of a dot. -/
def dot : UInt8 := 46

/-- The type byte of an entry; a cleared entry has none. -/
inductive FsType
  | none
  | file
  | directory
  | symlink
  deriving DecidableEq, Repr

def FsType.code : FsType → ℕ
  | none => 0
  | file => 1
  | directory => 2
  | symlink => 3

structure FsEntry where
  used : Bool
  type : FsType
  flags : ℕ
  owner : ℕ
  name : Name
  startLba : ℕ
  size : ℕ
  capacitySectors : ℕ
  modified : ℕ
  deriving DecidableEq, Repr

/-- An entry after `memset(entry, 0, sizeof(FsEntry))`. -/
def FsEntry.zero : FsEntry := ⟨false, .none, 0, 0, [], 0, 0, 0, 0⟩

structure Volume where
  entries : ℕ → FsEntry
  disk : ℕ → ℕ → UInt8
  totalSectors : ℕ
  mounted : Bool
  currentUid : ℕ
  currentPrivileged : Bool

def Volume.setEntry (v : Volume) (index : ℕ) (entry : FsEntry) : Volume :=
  { v with entries := update v.entries index entry }

theorem Volume.setEntry_self (v : Volume) (index : ℕ) (entry : FsEntry) :
    (v.setEntry index entry).entries index = entry := update_self ..

theorem Volume.setEntry_of_ne (v : Volume) {index j : ℕ} (entry : FsEntry) (h : j ≠ index) :
    (v.setEntry index entry).entries j = v.entries j := update_of_ne h ..

/-- What holds of the new entry and of the others holds of all. -/
theorem Volume.forall_setEntry {v : Volume} {index : ℕ} {e : FsEntry} {P : ℕ → FsEntry → Prop}
    (he : P index e) (h : ∀ i, i ≠ index → P i (v.entries i)) (i : ℕ) :
    P i ((v.setEntry index e).entries i) := by
  by_cases hi : i = index
  · rw [hi, v.setEntry_self]
    exact he
  · rw [v.setEntry_of_ne e hi]
    exact h i hi

/-- What holds between the new entry and the other used ones, and between those, holds of all. -/
theorem Volume.pairs_setEntry {v : Volume} {index : ℕ} {e : FsEntry} {R : FsEntry → FsEntry → Prop}
    (hsymm : ∀ {a b}, R a b → R b a)
    (he : e.used = true → ∀ j, j < 1024 → j ≠ index → (v.entries j).used = true → R e (v.entries j))
    (h : ∀ i j, i < 1024 → j < 1024 → i ≠ j → (v.entries i).used = true →
      (v.entries j).used = true → R (v.entries i) (v.entries j)) :
    ∀ i j, i < 1024 → j < 1024 → i ≠ j → ((v.setEntry index e).entries i).used = true →
      ((v.setEntry index e).entries j).used = true →
      R ((v.setEntry index e).entries i) ((v.setEntry index e).entries j) := by
  intro i j hi hj hne
  by_cases hii : i = index
  · have hjj : j ≠ index := fun hjj => hne (hii.trans hjj.symm)
    rw [hii, v.setEntry_self, v.setEntry_of_ne e hjj]
    exact fun hu hu' => he hu j hj hjj hu'
  · rw [v.setEntry_of_ne e hii]
    by_cases hjj : j = index
    · rw [hjj, v.setEntry_self]
      exact fun hu hu' => hsymm (he hu' i hi hii hu)
    · rw [v.setEntry_of_ne e hjj]
      exact h i j hi hj hne

/-! ### Sectors -/

/-- `ata_read_sector` on a ready drive that reports no error: `select_lba` refuses a sector outside
the disk or the 28-bit address range. -/
def ataReadSector (total : ℕ) (disk : ℕ → ℕ → UInt8) (lba : ℕ) : Option (ℕ → UInt8) :=
  if lba ≥ total || lba ≥ 0x10000000 then none else some (disk lba)

/-- `ata_write_sector`, with the same refusal. -/
def ataWriteSector (total : ℕ) (disk : ℕ → ℕ → UInt8) (lba : ℕ) (buffer : ℕ → UInt8) :
    Option (ℕ → ℕ → UInt8) :=
  if lba ≥ total || lba ≥ 0x10000000 then none else some (update disk lba buffer)

/-! ### Permissions -/

/-- `entry_mode`. -/
def entryMode (entry : FsEntry) : ℕ :=
  let mode := entry.flags &&& 0o777
  if mode ≠ 0 then mode
  else if entry.type = .directory || entry.type = .symlink then 0o777 else 0o666

/-- `may_read`. -/
def mayRead (v : Volume) (entry : FsEntry) : Bool :=
  if v.currentPrivileged then true
  else if v.currentUid = entry.owner then entryMode entry &&& 0o400 != 0
  else entryMode entry &&& 0o004 != 0

/-- `may_write`. -/
def mayWrite (v : Volume) (entry : FsEntry) : Bool :=
  if v.currentPrivileged then true
  else if v.currentUid = entry.owner then entryMode entry &&& 0o200 != 0
  else entryMode entry &&& 0o002 != 0

/-! ### Names -/

/-- The loop of `valid_name`; `segment` is the part of the name since the last slash. -/
def validSegments : List UInt8 → List UInt8 → Bool
  | [], segment => !segment.isEmpty && segment != [dot, dot]
  | character :: rest, segment =>
    if character < 32 || character > 126 then false
    else if character = slash then
      if segment.isEmpty || segment = [dot, dot] then false else validSegments rest []
    else validSegments rest (segment ++ [character])

/-- `valid_name`. -/
def validName (name : Name) : Bool :=
  if name.length = 0 || name.length > 95 then false else validSegments name []

/-- `valid_symlink_target`. -/
def validSymlinkTarget (target : Name) : Bool :=
  if target.head? = some slash then validName target.tail else validName target

/-- The index of the last slash of a name. -/
def lastSlash (name : Name) : Option ℕ :=
  (List.range name.length).reverse.find? fun index => name.getD index 0 == slash

/-- One step of `resolve_entry`: where the target of the link `resolved` leads. -/
def followTarget (resolved target : Name) : Option Name :=
  if target.head? = some slash then some target.tail
  else
    let directoryLength := (lastSlash resolved).getD 0
    if directoryLength ≠ 0 then
      if directoryLength + 1 + target.length > 95 then none
      else some (resolved.take directoryLength ++ slash :: target)
    else some target

/-- The C string at the start of a buffer. -/
def cString (bytes : List UInt8) : Name := bytes.takeWhile (· != 0)

/-! ### The directory table -/

/-- `find_entry`. -/
def findEntry (v : Volume) (name : Name) : Option ℕ :=
  (List.range' 0 1024).find? fun index => (v.entries index).used && (v.entries index).name == name

/-- `parent_directory_exists`. -/
def parentDirectoryExists (v : Volume) (name : Name) : Bool :=
  match lastSlash name with
  | none => true
  | some length =>
    if length = 0 || length > 95 then false
    else
      match findEntry v (name.take length) with
      | none => false
      | some index => (v.entries index).type = .directory

/-- The entry `allocate_entry` fills in. -/
def newEntry (v : Volume) (name : Name) (type : FsType) (mode : ℕ) : FsEntry :=
  { FsEntry.zero with
    used := true, type := type, flags := mode &&& 0o777, owner := v.currentUid
    name := name.take 95 }

/-- `allocate_entry`. -/
def allocateEntry (v : Volume) (name : Name) (type : FsType) (mode : ℕ) : Option ℕ × Volume :=
  if !validName name || (findEntry v name).isSome || !parentDirectoryExists v name then (none, v)
  else
    match (List.range' 0 1024).find? fun index => !(v.entries index).used with
    | none => (none, v)
    | some index => (some index, v.setEntry index (newEntry v name type mode))

/-- The packed 128-byte `FsEntry`. -/
def entryBytes (entry : FsEntry) : List UInt8 :=
  leBytes 1 entry.used.toNat ++ leBytes 1 entry.type.code ++
    leBytes 2 entry.flags ++ leBytes 4 entry.owner ++
    (entry.name ++ List.replicate (96 - entry.name.length) 0) ++
    leBytes 4 entry.startLba ++ leBytes 8 entry.size ++
    leBytes 4 entry.capacitySectors ++ leBytes 4 entry.modified ++ leBytes 4 0

/-- `save_entry`. -/
def saveEntry (v : Volume) (index : ℕ) : Bool × Volume :=
  let sectorLba := 4097 + index / 4
  match ataReadSector v.totalSectors v.disk sectorLba with
  | none => (false, v)
  | some sector =>
    match ataWriteSector v.totalSectors v.disk sectorLba
        (writeBytes sector (index % 4 * 128) (entryBytes (v.entries index))) with
    | none => (false, v)
    | some disk => (true, { v with disk := disk })

/-- The first bytes of the version 2 superblock; the others are zero. -/
def superblockBytes (total : ℕ) : List UInt8 :=
  [78, 79, 86, 65, 54, 52, 70, 83] ++ leBytes 4 2 ++ leBytes 4 4097 ++
    leBytes 4 256 ++ leBytes 4 4608 ++ leBytes 4 1024 ++ leBytes 4 total

/-- The loop of `format_v2` that clears `count` directory sectors from `lba` on. -/
def clearSectors (total : ℕ) : ℕ → ℕ → (ℕ → ℕ → UInt8) → Bool × (ℕ → ℕ → UInt8)
  | 0, _, disk => (true, disk)
  | count + 1, lba, disk =>
    match ataWriteSector total disk lba fun _ => 0 with
    | none => (false, disk)
    | some disk => clearSectors total count (lba + 1) disk

/-- `format_v2`; `allocated` says whether it gets its sector of zeros, which it asks for once the
superblock is written. -/
def formatV2 (allocated : Bool) (v : Volume) : Bool × Volume :=
  if v.totalSectors ≤ 4608 + 128 then (false, v)
  else
    let v := { v with entries := fun _ => FsEntry.zero }
    match ataWriteSector v.totalSectors v.disk 4096
        (writeBytes (fun _ => 0) 0 (superblockBytes v.totalSectors)) with
    | none => (false, v)
    | some disk =>
      if !allocated then (false, { v with disk := disk })
      else
        match clearSectors v.totalSectors 256 4097 disk with
        | (success, disk) => (success, { v with disk := disk, mounted := success })

/-- `next_data_lba`. -/
def nextDataLba (v : Volume) : ℕ :=
  (List.range' 0 1024).foldl (fun next index =>
    if !(v.entries index).used then next
    else
      let finish := (v.entries index).startLba + (v.entries index).capacitySectors
      if finish > next && finish ≤ 0xFFFFFFFF then finish else next) 4608

/-! ### Loops over an extent -/

/-- The loop of `read_raw_data`; every round copies at least one byte, so `fuel` is the count. -/
def readLoop (total : ℕ) (disk : ℕ → ℕ → UInt8) (startLba : ℕ) :
    ℕ → ℕ → ℕ → Option (List UInt8)
  | 0, _, remaining => if remaining = 0 then some [] else none
  | fuel + 1, position, remaining =>
    if remaining = 0 then some []
    else
      match ataReadSector total disk ((startLba + position / 512) % 2 ^ 32) with
      | none => none
      | some sector =>
        let chunk := min remaining (512 - position % 512)
        match readLoop total disk startLba fuel (position + chunk) (remaining - chunk) with
        | none => none
        | some bytes => some (readBytes sector (position % 512) chunk ++ bytes)

/-- `read_raw_data`: the bytes copied, or `none` for the result `-1`. -/
def readRawData (total : ℕ) (disk : ℕ → ℕ → UInt8) (startLba size offset capacity : ℕ) :
    Option (List UInt8) :=
  if offset ≥ size then some []
  else
    let capacity := if capacity > size - offset then size - offset else capacity
    match readLoop total disk startLba capacity offset capacity with
    | none => none
    | some bytes => if bytes.length > 0x7FFFFFFF then none else some bytes

/-- `read_entry_data`. -/
def readEntryData (v : Volume) (entry : FsEntry) (offset capacity : ℕ) : Option (List UInt8) :=
  readRawData v.totalSectors v.disk entry.startLba entry.size offset capacity

/-- The sectors a file of `size` bytes needs, in 64-bit arithmetic. -/
def requiredSectors (size : ℕ) : ℕ :=
  let required := (size + 511) % 2 ^ 64 / 512
  if required = 0 then 1 else required

/-- The loop of `write_entry_data` over the last `count` sectors of the write. -/
def writeBlocks (total startLba : ℕ) :
    ℕ → ℕ → List UInt8 → (ℕ → ℕ → UInt8) → Bool × (ℕ → ℕ → UInt8)
  | 0, _, _, disk => (true, disk)
  | count + 1, block, data, disk =>
    match ataWriteSector total disk ((startLba + block) % 2 ^ 32)
        (writeBytes (fun _ => 0) 0 (data.take 512)) with
    | none => (false, disk)
    | some disk => writeBlocks total startLba count (block + 1) (data.drop 512) disk

/-- The loop of `fs_write_at` that copies the old extent to its replacement. -/
def relocateBlocks (total oldStart oldCapacity replacement : ℕ) :
    ℕ → ℕ → (ℕ → ℕ → UInt8) → Bool × (ℕ → ℕ → UInt8)
  | 0, _, disk => (true, disk)
  | count + 1, block, disk =>
    match (if block < oldCapacity ∧ oldStart ≠ 0 then
        ataReadSector total disk ((oldStart + block) % 2 ^ 32) else some fun _ => 0) with
    | none => (false, disk)
    | some sector =>
      match ataWriteSector total disk ((replacement + block) % 2 ^ 32) sector with
      | none => (false, disk)
      | some disk => relocateBlocks total oldStart oldCapacity replacement count (block + 1) disk

/-- The loop of `fs_write_at` that clears the bytes between the old end of the file and the
offset. -/
def zeroGap (total startLba offset : ℕ) :
    ℕ → ℕ → (ℕ → ℕ → UInt8) → Bool × (ℕ → ℕ → UInt8)
  | 0, gap, disk => (!decide (gap < offset), disk)
  | fuel + 1, gap, disk =>
    if gap < offset then
      let lba := (startLba + gap / 512) % 2 ^ 32
      let chunk := min (offset - gap) (512 - gap % 512)
      match ataReadSector total disk lba with
      | none => (false, disk)
      | some sector =>
        match ataWriteSector total disk lba (splice sector (gap % 512) chunk fun _ => 0) with
        | none => (false, disk)
        | some disk => zeroGap total startLba offset fuel (gap + chunk) disk
    else (true, disk)

/-- The part of a sector before `within` that lies past the old end of the file, cleared. -/
def clearTail (size position : ℕ) (sector : ℕ → UInt8) : ℕ → UInt8 :=
  let within := position % 512
  if position > size then
    let sectorStart := position - within
    let zeroFrom := if size > sectorStart then size - sectorStart else 0
    if zeroFrom < within then splice sector zeroFrom (within - zeroFrom) fun _ => 0 else sector
  else sector

/-- The loop of `fs_write_at` that copies the data in, over whole sectors or into a part of one. -/
def copyData (total startLba size : ℕ) :
    ℕ → ℕ → List UInt8 → (ℕ → ℕ → UInt8) → Bool × (ℕ → ℕ → UInt8)
  | 0, _, data, disk => (data.isEmpty, disk)
  | fuel + 1, position, data, disk =>
    if data.isEmpty then (true, disk)
    else
      let lba := (startLba + position / 512) % 2 ^ 32
      let chunk := min data.length (512 - position % 512)
      match (if position % 512 ≠ 0 ∨ chunk ≠ 512 then
          (ataReadSector total disk lba).map (clearTail size position) else some fun _ => 0) with
      | none => (false, disk)
      | some sector =>
        match ataWriteSector total disk lba
            (writeBytes sector (position % 512) (data.take chunk)) with
        | none => (false, disk)
        | some disk => copyData total startLba size fuel (position + chunk) (data.drop chunk) disk

end NovaOS.Fs
