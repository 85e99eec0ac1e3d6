import NovaOS.Fs.Integrity
import NovaOS.Fs.Mount
import Mathlib.Data.List.TakeWhile

/-!
# What a reboot finds on the disk

Every call that changes an entry writes its directory sector, so after a run of successful calls the
disk holds the table.  A call works on one slot at a time:

* `Mounted v` — the superblock is that of the volume, and the table fits the packed entries and keeps
  clear of both;
* `SavedBut index v` — moreover the disk holds every entry but the one in slot `index`;
* `Saved v` — the disk holds every entry;
* `Saved.step` — a call that succeeds keeps `Saved`;
* **`committed_survives_reboot`** — `fs_init` gives back the volume.

The extents of the files have to keep clear of the superblock and the directory: `fs_init` does not look
at them, and a file whose extent covers the superblock overwrites it (`superblock_overwritten`).
-/

namespace NovaOS.Fs

open Function List Nat

/-! ### Packed entries -/

/-- The entry fits the fields of the packed structure. -/
structure FsEntry.Packable (e : FsEntry) : Prop where
  flags : e.flags < 2 ^ 16
  owner : e.owner < 2 ^ 32
  length : e.name.length ≤ 96
  name : ∀ byte ∈ e.name, byte ≠ 0
  startLba : e.startLba < 2 ^ 32
  size : e.size < 2 ^ 64
  capacitySectors : e.capacitySectors < 2 ^ 32
  modified : e.modified < 2 ^ 32

/-- The extent keeps clear of the superblock and the directory, its sector numbers do not wrap, and the
size is not so near to 2⁶⁴ that a write behind it wraps. -/
structure FsEntry.WellPlaced (e : FsEntry) : Prop where
  clear : 0 < e.capacitySectors → 4353 ≤ e.startLba ∨ e.startLba + e.capacitySectors ≤ 4096
  finish : e.startLba + e.capacitySectors ≤ 2 ^ 32
  size : e.size + 2 ^ 41 ≤ 2 ^ 64

theorem FsEntry.WellPlaced.of_extent {e e' : FsEntry} (h : e.WellPlaced) (hstart : e'.startLba = e.startLba)
    (hcapacity : e'.capacitySectors = e.capacitySectors) (hsize : e'.size = e.size) : e'.WellPlaced := by
  constructor
  · rw [hstart, hcapacity]
    exact h.clear
  · rw [hstart, hcapacity]
    exact h.finish
  · rw [hsize]
    exact h.size

theorem FsEntry.zero_packable : FsEntry.zero.Packable where
  flags := Nat.two_pow_pos 16
  owner := Nat.two_pow_pos 32
  length := Nat.zero_le 96
  name := nofun
  startLba := Nat.two_pow_pos 32
  size := Nat.two_pow_pos 64
  capacitySectors := Nat.two_pow_pos 32
  modified := Nat.two_pow_pos 32

theorem FsType.ofCode_code (type : FsType) : FsType.ofCode type.code = type := by
  cases type <;> rfl

theorem FsType.code_lt (type : FsType) : type.code < 256 ^ 1 := by
  cases type <;> decide

theorem cString_append_zeros {name : Name} (h : ∀ byte ∈ name, byte ≠ 0) (n : ℕ) :
    cString (name ++ List.replicate n 0) = name := by
  rw [cString, takeWhile_append_of_pos (fun byte hbyte => bne_iff_ne.2 (h byte hbyte))]
  cases n with
  | zero => exact append_nil name
  | succ n => exact append_nil name

/-- A packed entry is read back as it was written. -/
theorem readEntry_writeBytes {e : FsEntry} (h : e.Packable) (sector : ℕ → UInt8) (offset : ℕ) :
    readEntry (writeBytes sector offset (entryBytes e)) offset = e := by
  obtain ⟨nameBytes, hbytes⟩ : ∃ bytes, bytes = e.name ++ List.replicate (96 - e.name.length) 0 :=
    ⟨_, rfl⟩
  have hname : nameBytes.length = 96 := by
    have := h.length
    rw [hbytes, length_append, length_replicate]
    omega
  obtain ⟨front, hfront⟩ : ∃ bytes, bytes = leBytes 1 e.used.toNat ++ leBytes 1 e.type.code ++
    leBytes 2 e.flags ++ leBytes 4 e.owner := ⟨_, rfl⟩
  obtain ⟨behind, hbehind⟩ : ∃ bytes, bytes = leBytes 4 e.startLba ++ leBytes 8 e.size ++
    leBytes 4 e.capacitySectors ++ leBytes 4 e.modified ++ leBytes 4 0 := ⟨_, rfl⟩
  have hfields : entryBytes e = front ++ (nameBytes ++ behind) := by
    simp only [entryBytes, hbytes, hfront, hbehind, append_assoc]
  have hlength : front.length = 8 := by rw [hfront]; rfl
  have hdrop : ∀ i, (entryBytes e).drop (104 + i) = behind.drop i := by
    intro i
    rw [hfields, ← append_assoc, ← drop_drop, drop_left' (by rw [length_append, hlength, hname])]
  have hused : (writeBytes sector offset (entryBytes e) offset != 0) = e.used := by
    have hinside : offset < offset + (entryBytes e).length := by
      rw [hfields, length_append]
      omega
    rw [writeBytes, if_pos ⟨Nat.le_refl _, hinside⟩, Nat.sub_self, hfields, hfront]
    cases e.used <;> rfl
  have htype : loadWord 1 (writeBytes sector offset (entryBytes e)) (offset + 1) = e.type.code :=
    loadWord_of_drop (by rw [hfields, hfront]; rfl) e.type.code_lt
  have hflags : loadWord 2 (writeBytes sector offset (entryBytes e)) (offset + 2) = e.flags :=
    loadWord_of_drop (by rw [hfields, hfront]; rfl) h.flags
  have howner : loadWord 4 (writeBytes sector offset (entryBytes e)) (offset + 4) = e.owner :=
    loadWord_of_drop (by rw [hfields, hfront]; rfl) h.owner
  have hcString : cString (readBytes (writeBytes sector offset (entryBytes e)) (offset + 8) 96) =
      e.name := by
    rw [← hname, readBytes_of_drop (by rw [hfields, drop_left' hlength]), hbytes,
      cString_append_zeros h.name]
  have hstart : loadWord 4 (writeBytes sector offset (entryBytes e)) (offset + 104) = e.startLba :=
    loadWord_of_drop (by rw [hdrop 0, hbehind]; rfl) h.startLba
  have hsize : loadWord 8 (writeBytes sector offset (entryBytes e)) (offset + 108) = e.size :=
    loadWord_of_drop (by rw [hdrop 4, hbehind]; rfl) h.size
  have hcapacity : loadWord 4 (writeBytes sector offset (entryBytes e)) (offset + 116) =
      e.capacitySectors := loadWord_of_drop (by rw [hdrop 12, hbehind]; rfl) h.capacitySectors
  have hmodified : loadWord 4 (writeBytes sector offset (entryBytes e)) (offset + 120) =
      e.modified := loadWord_of_drop (by rw [hdrop 16, hbehind]; rfl) h.modified
  rw [readEntry, hused, htype, FsType.ofCode_code, hflags, howner, hcString, hstart, hsize,
    hcapacity, hmodified]

/-- An entry read from a sector fits the packed structure. -/
theorem readEntry_packable (sector : ℕ → UInt8) (offset : ℕ) :
    (readEntry sector offset).Packable where
  flags := loadWord_lt
  owner := loadWord_lt
  length := by
    refine le_trans (takeWhile_sublist _).length_le ?_
    rw [length_readBytes]
  name := by
    intro byte hbyte
    have hne : (byte != 0) = true := mem_takeWhile_imp (p := (· != 0)) hbyte
    exact bne_iff_ne.1 hne
  startLba := loadWord_lt
  size := loadWord_lt
  capacitySectors := loadWord_lt
  modified := loadWord_lt

/-- An entry is read from the 128 bytes of its slot. -/
theorem readEntry_congr {sector sector' : ℕ → UInt8} {offset offset' : ℕ}
    (h : ∀ i, i < 128 → sector (offset + i) = sector' (offset' + i)) :
    readEntry sector offset = readEntry sector' offset' := by
  have hbytes : ∀ i n, i + n ≤ 128 →
      readBytes sector (offset + i) n = readBytes sector' (offset' + i) n := by
    intro i n hi
    apply readBytes_congr
    intro j hj
    rw [add_assoc, add_assoc]
    exact h (i + j) (by omega)
  have hused : sector offset = sector' offset' := h 0 (by decide)
  simp only [readEntry, loadWord, hused, hbytes _ _ (show 1 + 1 ≤ 128 by decide),
    hbytes _ _ (show 2 + 2 ≤ 128 by decide), hbytes _ _ (show 4 + 4 ≤ 128 by decide),
    hbytes _ _ (show 8 + 96 ≤ 128 by decide), hbytes _ _ (show 104 + 4 ≤ 128 by decide),
    hbytes _ _ (show 108 + 8 ≤ 128 by decide), hbytes _ _ (show 116 + 4 ≤ 128 by decide),
    hbytes _ _ (show 120 + 4 ≤ 128 by decide)]

theorem entryOnDisk_congr {disk disk' : ℕ → ℕ → UInt8} {index : ℕ}
    (h : disk' (4097 + index / 4) = disk (4097 + index / 4)) :
    entryOnDisk disk' index = entryOnDisk disk index := by
  rw [entryOnDisk, h, entryOnDisk]

theorem entryOnDisk_update (disk : ℕ → ℕ → UInt8) {index : ℕ} {e : FsEntry} (h : e.Packable)
    (i : ℕ) :
    entryOnDisk (update disk (4097 + index / 4)
      (writeBytes (disk (4097 + index / 4)) (index % 4 * 128) (entryBytes e))) i =
      if i = index then e else entryOnDisk disk i := by
  split
  · rename_i hi
    rw [hi, entryOnDisk, update_self]
    exact readEntry_writeBytes h _ _
  rw [entryOnDisk]
  by_cases hsector : i / 4 = index / 4
  · -- the other slots of the sector lie before or behind the one written
    rw [hsector, update_self, entryOnDisk, hsector]
    apply readEntry_congr
    intro j hj
    apply writeBytes_of_outside
    have hlength : (entryBytes e).length = 128 := by
      have := h.length
      simp only [entryBytes, length_append, length_leBytes,
        length_replicate]
      omega
    omega
  · rw [update_of_ne (by omega), entryOnDisk]

/-! ### The volume and its disk -/

/-- A mounted volume with its superblock on the disk, and a table that fits the directory and has all
files well placed. -/
structure Mounted (total : ℕ) (v : Volume) : Prop where
  mounted : v.mounted = true
  sectors : v.totalSectors = total
  large : 4353 ≤ v.totalSectors
  small : v.totalSectors < 2 ^ 32
  uid : v.currentUid < 2 ^ 32
  magic : magicMatches (v.disk 4096) = true
  layout : isCurrent (v.disk 4096) = true
  total : loadWord 4 (v.disk 4096) 28 = v.totalSectors
  beyond : ∀ i, 1024 ≤ i → v.entries i = FsEntry.zero
  packable : ∀ i, (v.entries i).Packable
  placed : ∀ i, (v.entries i).used = true → (v.entries i).type = .file → (v.entries i).WellPlaced

/-- The disk holds every entry but the one in slot `index`. -/
structure SavedBut (total index : ℕ) (v : Volume) : Prop extends Mounted total v where
  entries : ∀ i, i < 1024 → i ≠ index → entryOnDisk v.disk i = v.entries i

/-- The disk holds every entry. -/
structure Saved (total : ℕ) (v : Volume) : Prop extends Mounted total v where
  entries : ∀ i, i < 1024 → entryOnDisk v.disk i = v.entries i

section

variable {v v' : Volume} {total index n offset : ℕ} {e : FsEntry} {disk disk' : ℕ → ℕ → UInt8}
  {name : Name} {data : List UInt8} {old : LegacyBackup} {backup : List LegacyBackup}
  {allocated : MigrationRequest → Bool} {served : Bool}

theorem Saved.savedBut (h : Saved total v) (index : ℕ) : SavedBut total index v :=
  ⟨h.toMounted, fun i hi _ => h.entries i hi⟩

theorem Mounted.setEntry (h : Mounted total v) (hindex : index < 1024) (hp : e.Packable)
    (he : e.used = true → e.type = .file → e.WellPlaced) : Mounted total (v.setEntry index e) := by
  refine ⟨h.mounted, h.sectors, h.large, h.small, h.uid, h.magic, h.layout, h.total, ?_, ?_, ?_⟩
  · intro i hi
    rw [v.setEntry_of_ne e (by omega)]
    exact h.beyond i hi
  · exact Volume.forall_setEntry (P := fun _ e => e.Packable) hp fun i _ => h.packable i
  · exact Volume.forall_setEntry (P := fun _ e => e.used = true → e.type = .file → e.WellPlaced) he
      fun i _ => h.placed i

/-- The entry in a slot that is not on the disk yet is replaced. -/
theorem SavedBut.setEntry (h : SavedBut total index v) (hindex : index < 1024) (hp : e.Packable)
    (he : e.used = true → e.type = .file → e.WellPlaced) : SavedBut total index (v.setEntry index e) := by
  refine ⟨h.toMounted.setEntry hindex hp he, fun i hi hne => ?_⟩
  rw [Volume.setEntry_of_ne _ _ hne]
  exact h.entries i hi hne

/-- The disk changed outside of the superblock and the directory. -/
theorem SavedBut.onData (h : SavedBut total index v) {lo hi : ℕ} (hclear : 4353 ≤ lo ∨ hi ≤ 4096)
    (hdisk : Within v.disk disk lo hi) : SavedBut total index { v with disk := disk } := by
  have hsuper : disk 4096 = v.disk 4096 := hdisk 4096 (by omega)
  refine ⟨⟨h.mounted, h.sectors, h.large, h.small, h.uid, ?_, ?_, ?_, h.beyond, h.packable, h.placed⟩, ?_⟩
  · exact (congrArg magicMatches hsuper).trans h.magic
  · exact (congrArg isCurrent hsuper).trans h.layout
  · exact (congrArg (loadWord 4 · 28) hsuper).trans h.total
  · intro i hi hne
    have hentry := h.entries i hi hne
    rwa [← entryOnDisk_congr (hdisk (4097 + i / 4) (by omega))] at hentry

/-- `save_entry` puts the last entry on the disk. -/
theorem SavedBut.saveEntry (h : SavedBut total index v) (hindex : index < 1024) :
    ∃ v', saveEntry v index = (true, v') ∧ Saved total v' := by
  have hlarge := h.large
  have hread : ataReadSector v.totalSectors v.disk (4097 + index / 4) =
      some (v.disk (4097 + index / 4)) := ataReadSector_some.2 ⟨by omega, rfl⟩
  have hwrite : ∀ buffer, ataWriteSector v.totalSectors v.disk (4097 + index / 4) buffer =
      some (update v.disk (4097 + index / 4) buffer) := fun _ => ataWriteSector_some.2 ⟨by omega, rfl⟩
  rw [Fs.saveEntry]
  simp only [hread, hwrite]
  refine ⟨_, rfl, ?_⟩
  have hsuper : ∀ buffer, update v.disk (4097 + index / 4) buffer 4096 = v.disk 4096 :=
    fun buffer => update_of_ne (by omega) ..
  refine ⟨⟨h.mounted, h.sectors, h.large, h.small, h.uid, ?_, ?_, ?_, h.beyond, h.packable, h.placed⟩, ?_⟩
  · exact (congrArg magicMatches (hsuper _)).trans h.magic
  · exact (congrArg isCurrent (hsuper _)).trans h.layout
  · exact (congrArg (loadWord 4 · 28) (hsuper _)).trans h.total
  · intro i hi
    rw [entryOnDisk_update v.disk (h.packable index)]
    split
    · next heq => rw [heq]
    · next hne => exact h.entries i hi hne

/-! ### Opening and writing -/

theorem validSegments_printable {name segment : List UInt8}
    (h : validSegments name segment = true) : ∀ byte ∈ name, 32 ≤ byte ∧ byte ≤ 126 := by
  induction name generalizing segment with
  | nil => nofun
  | cons character rest ih =>
    rw [validSegments] at h
    split at h
    · cases h
    · next hchar =>
      simp only [Bool.or_eq_true, decide_eq_true_eq, not_or, UInt8.not_lt] at hchar
      have hrest : ∀ byte ∈ rest, 32 ≤ byte ∧ byte ≤ 126 := by
        split at h
        · split at h
          · cases h
          · exact ih h
        · exact ih h
      intro byte hbyte
      rcases mem_cons.1 hbyte with rfl | hmem
      · exact hchar
      · exact hrest byte hmem

theorem validName_printable (h : validName name = true) : ∀ byte ∈ name, 32 ≤ byte ∧ byte ≤ 126 := by
  rw [validName] at h
  split at h
  · cases h
  · exact validSegments_printable h

theorem newEntry_packable (h : Mounted total v) (hname : validName name = true)
    (type : FsType) (mode : ℕ) : (newEntry v name type mode).Packable where
  flags := lt_of_le_of_lt (and_le_right (m := 0o777)) (by decide)
  owner := h.uid
  length := le_trans (length_take_le ..) (by decide)
  name := by
    intro byte hbyte hzero
    have hprint := (validName_printable hname byte (mem_of_mem_take hbyte)).1
    rw [hzero] at hprint
    exact absurd hprint (by decide)
  startLba := Nat.two_pow_pos 32
  size := Nat.two_pow_pos 64
  capacitySectors := Nat.two_pow_pos 32
  modified := Nat.two_pow_pos 32

theorem newEntry_wellPlaced (name : Name) (type : FsType) (mode : ℕ) :
    (newEntry v name type mode).WellPlaced := by
  have hstart : (newEntry v name type mode).startLba = 0 := rfl
  have hcapacity : (newEntry v name type mode).capacitySectors = 0 := rfl
  have hsize : (newEntry v name type mode).size = 0 := rfl
  constructor <;> omega

/-- What `fs_write` opens is saved but for an entry that it has made. -/
theorem Saved.openWrite (h : Saved total v) {v₁ : Volume}
    (heq : openWrite v name = (some index, v₁)) :
    SavedBut total index v₁ ∧ index < 1024 ∧ (v₁.entries index).used = true := by
  obtain ⟨found, hsame, hfound⟩ | ⟨i, hi, -, hvalid, -, -, hmade⟩ := openWrite_outcome v name
  · cases heq.symm.trans hsame
    exact ⟨h.savedBut index, hfound index rfl⟩
  · cases heq.symm.trans hmade
    refine ⟨(h.savedBut index).setEntry hi (newEntry_packable h.toMounted hvalid .file 0o660)
      fun _ _ => newEntry_wellPlaced .., hi, ?_⟩
    rw [Volume.setEntry_self]
    rfl

theorem Saved.openWriteAt (h : Saved total v) {v₁ : Volume}
    (heq : openWriteAt v name = (some index, v₁)) :
    SavedBut total index v₁ ∧ index < 1024 ∧ (v₁.entries index).used = true := by
  rw [openWriteAt_eq] at heq
  split at heq
  · rcases hopen : Fs.openWrite v name with ⟨_ | i, v₂⟩
    · rw [hopen] at heq
      cases heq
    · obtain ⟨hbut, hi, hused⟩ := h.openWrite hopen
      obtain ⟨v₃, hsave, hsaved⟩ := hbut.saveEntry hi
      have hentries := saveEntry_entries v₂ i
      rw [hopen, saveOpened, hsave] at heq
      rw [hsave] at hentries
      cases heq
      rw [hentries]
      exact ⟨hsaved.savedBut index, hi, hused⟩
  · exact h.openWrite heq

/-- Changing the extent and the size of an entry keeps it packable. -/
theorem FsEntry.Packable.moved (h : e.Packable) {start capacity size modified : ℕ}
    (hsize : size < 2 ^ 64) (hstart : start < 2 ^ 32) (hmodified : modified < 2 ^ 32)
    (hcapacity : capacity < 2 ^ 32) :
    FsEntry.Packable
      { e with startLba := start, capacitySectors := capacity, size := size, modified := modified } :=
  ⟨h.flags, h.owner, h.length, h.name, hstart, hsize, hcapacity, hmodified⟩

theorem SavedBut.writing (hindex : index < 1024) :
    Writing index (fun e => e.WellPlaced ∧ e.Packable) (SavedBut total index)
      fun r => ∃ v', r = (true, v') ∧ Saved total v' where
  finish he := he.1.finish
  written he hsize := by
    have hcapacity := he.2.capacitySectors
    exact ⟨⟨he.1.clear, he.1.finish, by dsimp only; omega⟩, he.2.moved (by omega) he.2.startLba
      (mod_lt _ (by decide)) hcapacity⟩
  setEntry h he := h.setEntry hindex he.2 fun _ _ => he.1
  onDisk h he hpos hdisk := h.onData (he.1.clear hpos) hdisk
  saveEntry h := h.saveEntry hindex

theorem SavedBut.moved (h : SavedBut total index v) (he : (v.entries index).WellPlaced)
    {required : ℕ} (hroom : nextDataLba v + required ≤ v.totalSectors) :
    FsEntry.WellPlaced
        { v.entries index with startLba := nextDataLba v, capacitySectors := required } ∧
      FsEntry.Packable
        { v.entries index with startLba := nextDataLba v, capacitySectors := required } := by
  have hsmall := h.small
  have hpack := h.packable index
  have hlow : 4608 ≤ nextDataLba v := (foldl_next v (List.range' 0 1024) 4608).1
  generalize nextDataLba v = next at hroom hlow ⊢
  exact ⟨⟨fun _ => .inl (by dsimp only; omega), by dsimp only; omega, he.size⟩,
    hpack.moved hpack.size (by omega) hpack.modified (by omega)⟩

theorem SavedBut.writeEntryData (h : SavedBut total index v) (hindex : index < 1024)
    (he : (v.entries index).WellPlaced) (hlen : data.length < 2 ^ 63)
    (heq : writeEntryData v index data = (true, v')) : Saved total v' := by
  obtain ⟨-, hfull⟩ | ⟨v₁, hfailed, -⟩ | ⟨v₁, hsave, hsaved⟩ := (SavedBut.writing hindex).writeEntryData h
    ⟨he, h.packable index⟩ (show data.length + 511 < 2 ^ 64 by omega) fun _ => h.moved he
  · cases heq.symm.trans hfull
  · cases heq.symm.trans hfailed
  · cases heq.symm.trans hsave
    exact hsaved

/-- Every whole sector of the gap was written, so it has a number that the driver takes. -/
theorem zeroGap_lba {start fuel gap k : ℕ}
    (h : zeroGap total start offset fuel gap disk = (true, disk')) (hlow : gap ≤ k * 512)
    (hhigh : k * 512 < offset) : (start + k) % 2 ^ 32 < 0x10000000 := by
  induction fuel generalizing gap disk with
  | zero =>
    have hgap : (!decide (gap < offset)) = true := (Prod.mk.inj h).1
    rw [Bool.not_eq_true', decide_eq_false_iff_not] at hgap
    omega
  | succ fuel ih =>
    rw [zeroGap, if_pos (by omega)] at h
    simp only at h
    split at h
    · cases h
    · rename_i sector hread
      by_cases hk : k = gap / 512
      · rw [hk]
        exact (ataReadSector_some.1 hread).1.2
      · split at h
        · cases h
        · exact ih h (by omega)

/-- So has every whole sector of the data. -/
theorem copyData_lba {start size fuel position k : ℕ}
    (h : copyData total start size fuel position data disk = (true, disk'))
    (hlow : position ≤ k * 512) (hhigh : k * 512 < position + data.length) :
    (start + k) % 2 ^ 32 < 0x10000000 := by
  induction fuel generalizing position data disk with
  | zero =>
    have hempty : data = [] := isEmpty_iff.1 (Prod.mk.inj h).1
    rw [hempty, length_nil] at hhigh
    omega
  | succ fuel ih =>
    rw [copyData] at h
    split at h
    · rename_i hempty
      rw [isEmpty_iff.1 hempty, length_nil] at hhigh
      omega
    simp only at h
    split at h
    · cases h
    split at h
    · cases h
    · rename_i disk₁ hwrite
      by_cases hk : k = position / 512
      · rw [hk]
        exact (ataWriteSector_some.1 hwrite).1.2
      · exact ih h (by omega) (by rw [length_drop]; omega)

/-- A positioned write that fills its extent does not end in the last sector of the 64-bit range: on the
way there from the old end of the file it meets a sector number that the driver refuses. -/
theorem fillExtent_end (hsize : (v.entries index).size + 2 ^ 41 ≤ 2 ^ 64)
    (heq : fillExtent v index offset data = (true, v')) :
    max (offset + data.length) (v.entries index).size + 511 < 2 ^ 64 := by
  by_contra hwrap
  obtain ⟨k, hlow, hhigh, hrefused⟩ : ∃ k, (v.entries index).size ≤ k * 512 ∧
      k * 512 < offset + data.length ∧ ¬ ((v.entries index).startLba + k) % 2 ^ 32 < 0x10000000 := by
    by_cases hlast : (v.entries index).startLba % 2 ^ 32 = 2 ^ 32 - 1
    · exact ⟨2 ^ 55 - 2 ^ 32, by omega, by omega, by omega⟩
    · exact ⟨2 ^ 55 - 2 - (v.entries index).startLba % 2 ^ 32, by omega, by omega, by omega⟩
  rw [fillExtent] at heq
  simp only at heq
  split at heq
  · cases heq
  · rename_i disk hgap
    by_cases hk : k * 512 < offset
    · exact hrefused (zeroGap_lba hgap hlow hk)
    · cases hcopy : copyData v.totalSectors (v.entries index).startLba (v.entries index).size
          data.length offset data disk with
      | mk done disk' =>
        rw [hcopy] at heq
        obtain ⟨rfl, -⟩ := Prod.mk.inj heq
        exact hrefused (copyData_lba hcopy (by omega) hhigh)

section

variable (h : SavedBut total index v) (hindex : index < 1024) (he : (v.entries index).WellPlaced)
  (heq : writeEntryAt v index offset data = (true, v'))

include h hindex he heq

/-- A positioned write that succeeds does not end there either. -/
theorem SavedBut.writeEntryAt_end :
    max (offset + data.length) (v.entries index).size + 511 < 2 ^ 64 := by
  rw [writeEntryAt] at heq
  split at heq
  · cases heq
  obtain ⟨done, v₁, hgrow, -, hgrown⟩ := (SavedBut.writing hindex).growExtent h
    ⟨he, h.packable index⟩ (one_le_requiredSectors _) fun _ => h.moved he
  rw [hgrow] at heq
  cases done with
  | false => cases heq
  | true =>
    obtain ⟨he, hsize, -⟩ := hgrown rfl
    simp only at heq
    cases hfill : fillExtent v₁ index offset data with
    | mk done v₂ =>
      rw [hfill] at heq
      cases done with
      | false => cases heq
      | true =>
        rw [← hsize]
        exact fillExtent_end he.1.size hfill

theorem SavedBut.writeEntryAt :
    Saved total v' := by
  obtain ⟨v₁, hfailed, -⟩ | ⟨v₁, hsave, hsaved⟩ := (SavedBut.writing hindex).writeEntryAt h
    ⟨he, h.packable index⟩ (h.writeEntryAt_end hindex he heq) fun _ _ => h.moved he
  · cases heq.symm.trans hfailed
  · cases heq.symm.trans hsave
    exact hsaved

end

/-! ### The calls -/

theorem type_of_writable {a : Bool} (h : ¬ (decide (e.type ≠ .file) || a) = true) : e.type = .file := by
  by_contra hne
  exact h (by rw [decide_eq_true hne, Bool.true_or])

section

variable (h : Saved total v)

include h

theorem Saved.fsWrite (hlen : data.length < 2 ^ 63)
    (heq : fsWrite v name data = (true, v')) : Saved total v' := by
  rw [Fs.fsWrite] at heq
  split at heq
  · cases heq
  cases hopen : Fs.openWrite v name with
  | mk found v₁ =>
    rw [hopen] at heq
    cases found with
    | none => cases heq
    | some index =>
      simp only at heq
      split at heq
      · cases heq
      rename_i hwritable
      obtain ⟨hbut, hindex, hused⟩ := h.openWrite hopen
      exact hbut.writeEntryData hindex (hbut.placed index hused (type_of_writable hwritable)) hlen heq

theorem Saved.fsWriteAt (heq : fsWriteAt v name offset data = (true, v')) : Saved total v' := by
  rw [Fs.fsWriteAt] at heq
  split at heq
  · cases heq
  cases hopen : Fs.openWriteAt v name with
  | mk found v₁ =>
    rw [hopen] at heq
    cases found with
    | none => cases heq
    | some index =>
      simp only at heq
      split at heq
      · cases heq
      rename_i hwritable
      obtain ⟨hbut, hindex, hused⟩ := h.openWriteAt hopen
      exact hbut.writeEntryAt hindex (hbut.placed index hused (type_of_writable hwritable)) heq

/-- A call that changes one entry in memory and saves it. -/
theorem Saved.save (hindex : index < 1024) (hp : e.Packable)
    (he : e.used = true → e.type = .file → e.WellPlaced) : Saved total (saveEntry (v.setEntry index e) index).2 := by
  obtain ⟨v', hsave, hsaved⟩ := ((h.savedBut index).setEntry hindex hp he).saveEntry hindex
  rw [hsave]
  exact hsaved

theorem Saved.fsDelete (name : Name) : Saved total (fsDelete v name).2 := by
  rw [Fs.fsDelete]
  split
  · exact h
  cases hfind : findEntry v name with
  | none => exact h
  | some index =>
    simp only
    split
    · exact h
    · split
      · exact h
      · exact h.save (findEntry_some hfind).1 FsEntry.zero_packable (fun hno _ => by cases hno)

theorem Saved.fsMkdir (name : Name) (mode : ℕ) : Saved total (fsMkdir v name mode).2 := by
  rw [Fs.fsMkdir]
  split
  · exact h
  obtain hrefused | ⟨index, hindex, -, hvalid, -, -, hmade⟩ :=
    allocateEntry_outcome v name .directory (if mode ≠ 0 then mode else 0o777)
  · rw [hrefused]
    exact h
  · rw [hmade]
    exact h.save hindex (newEntry_packable h.toMounted hvalid .directory _) fun _ _ =>
      newEntry_wellPlaced ..

theorem Saved.fsSymlink {target : Name} (hlen : target.length < 2 ^ 63)
    (heq : fsSymlink v target name = (true, v')) : Saved total v' := by
  rw [Fs.fsSymlink] at heq
  split at heq
  · cases heq
  cases hwrite : Fs.fsWrite v name target with
  | mk done v₁ =>
    rw [hwrite] at heq
    cases done with
    | false => cases heq
    | true =>
      have hsaved := h.fsWrite hlen hwrite
      simp only at heq
      split at heq
      · cases heq
      · rename_i index hfind
        obtain ⟨hindex, hused, -⟩ := findEntry_some hfind
        have hp := hsaved.packable index
        have hfinal := hsaved.save hindex (e := { v₁.entries index with
            type := .symlink, flags := 0o777 })
          ⟨(by decide : 0o777 < 2 ^ 16), hp.owner, hp.length, hp.name, hp.startLba, hp.size,
            hp.capacitySectors, hp.modified⟩ fun _ hno => by cases hno
        rw [show v' = _ from (congrArg Prod.snd heq).symm]
        exact hfinal

theorem Saved.fsChmod (name : Name) (mode : ℕ) : Saved total (fsChmod v name mode).2 := by
  rw [Fs.fsChmod]
  split
  · exact h
  next hcheck =>
  cases hfind : findEntry v name with
  | none => exact h
  | some index =>
    simp only
    split
    · exact h
    obtain ⟨hindex, hused, -⟩ := findEntry_some hfind
    have hp := h.packable index
    have hmode : mode < 2 ^ 16 := by
      simp only [Bool.or_eq_true, decide_eq_true_eq, not_or] at hcheck
      omega
    have hflags : (v.entries index).flags &&& 0xFE00 ||| mode < 2 ^ 16 :=
      or_lt_two_pow (and_lt_two_pow _ (by decide)) hmode
    exact h.save hindex ⟨hflags, hp.owner, hp.length, hp.name, hp.startLba, hp.size,
      hp.capacitySectors, hp.modified⟩ fun _ hfile => (h.placed index hused hfile).of_extent rfl rfl rfl

theorem Saved.fsChown (name : Name) {owner : ℕ} (howner : owner < 2 ^ 32) :
    Saved total (fsChown v name owner).2 := by
  rw [Fs.fsChown]
  split
  · exact h
  cases hfind : findEntry v name with
  | none => exact h
  | some index =>
    obtain ⟨hindex, hused, -⟩ := findEntry_some hfind
    have hp := h.packable index
    exact h.save hindex ⟨hp.flags, howner, hp.length, hp.name, hp.startLba, hp.size,
      hp.capacitySectors, hp.modified⟩ fun _ hfile => (h.placed index hused hfile).of_extent rfl rfl rfl

end

/-- The arguments of a call are values of their C types, and a buffer is no longer than an object
can be. -/
def FsOp.Arguments : FsOp → Prop
  | .write _ data => data.length < 2 ^ 63
  | .writeAt _ offset data => offset < 2 ^ 64 ∧ data.length < 2 ^ 63
  | .symlink target _ => target.length < 2 ^ 63
  | .chown _ owner => owner < 2 ^ 32
  | .setIdentity uid _ => uid < 2 ^ 32
  | _ => True

instance : DecidablePred FsOp.Arguments := fun op => by
  cases op <;> unfold FsOp.Arguments <;> infer_instance

/-- **A call that succeeds leaves its changes on the disk.** -/
theorem Saved.step (h : Saved total v) {op : FsOp} (hop : op.Arguments) (htrue : (v.step op).1 = true) :
    Saved total (v.step op).2 := by
  have hpair : v.step op = (true, (v.step op).2) := Prod.ext htrue rfl
  cases op with
  | write name data => exact h.fsWrite hop hpair
  | writeAt name offset data => exact h.fsWriteAt hpair
  | delete name => exact h.fsDelete name
  | mkdir name mode => exact h.fsMkdir name mode
  | symlink target name => exact h.fsSymlink hop hpair
  | chmod name mode => exact h.fsChmod name mode
  | chown name owner => exact h.fsChown name hop
  | setIdentity uid privileged =>
    exact ⟨⟨h.mounted, h.sectors, h.large, h.small, hop, h.magic, h.layout, h.total, h.beyond, h.packable,
      h.placed⟩, h.entries⟩

theorem Saved.run (h : Saved total v) {ops : List FsOp} (hops : ∀ op ∈ ops, op.Arguments)
    (htrue : v.allTrue ops = true) : Saved total (v.run ops) := by
  induction ops generalizing v with
  | nil => exact h
  | cons op ops ih =>
    rw [Volume.allTrue, Bool.and_eq_true] at htrue
    exact ih (h.step (hops op mem_cons_self) htrue.1)
      (fun op' hop' => hops op' (mem_cons_of_mem _ hop')) htrue.2

/-! ### Mounting -/

/-- The directory is cleared and nothing else changes. -/
theorem clearSectors_true {count lba : ℕ}
    (h : clearSectors total count lba disk = (true, disk')) :
    Within disk disk' lba (lba + count) ∧
      ∀ k, lba ≤ k → k < lba + count → k < total ∧ disk' k = fun _ => 0 := by
  induction count generalizing lba disk with
  | zero =>
    cases h
    exact ⟨Within.refl, fun k _ _ => by omega⟩
  | succ count ih =>
    rw [clearSectors] at h
    split at h
    · cases h
    · rename_i disk₁ hwrite
      obtain ⟨hwithin, hzero⟩ := ih h
      have hfirst := ataWriteSector_within hwrite (le_refl lba) (lt_succ_self lba)
      have hdisk : lba < total ∧ disk₁ lba = fun _ => 0 := by
        obtain ⟨hlba, rfl⟩ := ataWriteSector_some.1 hwrite
        exact ⟨hlba.1, update_self ..⟩
      refine ⟨fun k hk => ?_, fun k hlow hhigh => ?_⟩
      · rw [hwithin k (by omega), hfirst k (by omega)]
      · by_cases hk : k = lba
        · rw [hk, hwithin lba (by omega)]
          exact hdisk
        · exact hzero k (by omega) (by omega)

/-- The first seven fields of the superblock are the same for every disk. -/
theorem readBytes_superblock (block : ℕ → UInt8) (total : ℕ) {a n : ℕ} (h : a + n ≤ 28) :
    readBytes (writeBytes block 0 (superblockBytes total)) a n =
      readBytes (writeBytes (fun _ => 0) 0 (superblockBytes 0)) a n := by
  obtain ⟨fields, hlength, hfields⟩ : ∃ fields : List UInt8, fields.length = 28 ∧
      ∀ total, superblockBytes total = fields ++ leBytes 4 total := ⟨_, rfl, fun _ => rfl⟩
  have hbyte : ∀ contents total i, i < 28 →
      writeBytes contents 0 (superblockBytes total) i = fields.getD i 0 := by
    intro contents total i hi
    have hinside : i < 0 + (superblockBytes total).length := by
      rw [hfields, length_append]
      omega
    rw [writeBytes, if_pos ⟨Nat.zero_le i, hinside⟩, Nat.sub_zero, hfields,
      getD_append _ _ _ _ (by omega)]
  apply readBytes_congr
  intro i hi
  rw [hbyte block total _ (by omega), hbyte (fun _ => 0) 0 _ (by omega)]

theorem superblock_layout (block : ℕ → UInt8) (htotal : total < 2 ^ 32) :
    magicMatches (writeBytes block 0 (superblockBytes total)) = true ∧
      isCurrent (writeBytes block 0 (superblockBytes total)) = true ∧
      loadWord 4 (writeBytes block 0 (superblockBytes total)) 28 = total := by
  have hread : ∀ a n, a + n ≤ 28 → readBytes (writeBytes block 0 (superblockBytes total)) a n =
      readBytes (writeBytes (fun _ => 0) 0 (superblockBytes 0)) a n :=
    fun a n h => readBytes_superblock block total h
  refine ⟨?_, ?_, ?_⟩
  · rw [magicMatches, hread 0 8 (by decide)]
    decide
  · simp only [isCurrent, layoutMatches, loadWord, hread 8 4 (by decide), hread 12 4 (by decide),
      hread 16 4 (by decide), hread 20 4 (by decide), hread 24 4 (by decide)]
    decide
  · have hdrop : (superblockBytes total).drop 28 = leBytes 4 total ++ [] := by
      rw [append_nil]
      rfl
    exact loadWord_of_drop (a := 0) hdrop htotal

theorem superblock_mounted (block : ℕ → UInt8) (htotal : total < 2 ^ 32) :
    magicMatches (storeWord 4 block 28 total) = magicMatches block ∧
      isCurrent (storeWord 4 block 28 total) = isCurrent block ∧
      loadWord 4 (storeWord 4 block 28 total) 28 = total := by
  have hread : ∀ a n, a + n ≤ 28 →
      readBytes (storeWord 4 block 28 total) a n = readBytes block a n :=
    fun a n h => readBytes_writeBytes (.inl h)
  refine ⟨?_, ?_, loadWord_storeWord htotal⟩
  · rw [magicMatches, hread 0 8 (by decide), magicMatches]
  · simp only [isCurrent, layoutMatches, loadWord, hread 8 4 (by decide), hread 12 4 (by decide),
      hread 16 4 (by decide), hread 20 4 (by decide), hread 24 4 (by decide)]

theorem entryOnDisk_zero
    (h : disk (4097 + index / 4) = fun _ => 0) : entryOnDisk disk index = FsEntry.zero := by
  rw [entryOnDisk, h]
  show readEntry (fun _ => 0) 0 = FsEntry.zero
  decide +kernel

/-- `format_v2` leaves an empty table in memory and on the disk. -/
theorem formatV2_saved (hsmall : v.totalSectors < 2 ^ 32) (huid : v.currentUid < 2 ^ 32)
    (heq : formatV2 served v = (true, v')) : Saved v.totalSectors v' := by
  rw [formatV2] at heq
  split at heq
  · cases heq
  next hlarge =>
  simp only at heq
  split at heq
  · cases heq
  split at heq
  · cases heq
  · rename_i disk₁ hwrite _
    have hsuper : disk₁ 4096 = writeBytes (fun _ => 0) 0 (superblockBytes v.totalSectors) := by
      obtain ⟨-, rfl⟩ := ataWriteSector_some.1 hwrite
      exact update_self ..
    cases hclear : clearSectors v.totalSectors 256 4097 disk₁ with
    | mk success disk' =>
      rw [hclear] at heq
      obtain ⟨rfl, rfl⟩ := Prod.mk.inj heq
      obtain ⟨hwithin, hzero⟩ := clearSectors_true hclear
      have hsuper' : disk' 4096 = writeBytes (fun _ => 0) 0 (superblockBytes v.totalSectors) :=
        (hwithin 4096 (by omega)).trans hsuper
      obtain ⟨hmagic, hcurrent, htotal⟩ := superblock_layout (fun _ => 0) hsmall
      refine ⟨⟨rfl, rfl, ?_, hsmall, huid, ?_, ?_, ?_, fun _ _ => rfl,
        fun _ => FsEntry.zero_packable, fun _ hno _ => by cases hno⟩, ?_⟩
      · show 4353 ≤ v.totalSectors
        omega
      · exact (congrArg magicMatches hsuper').trans hmagic
      · exact (congrArg isCurrent hsuper').trans hcurrent
      · exact (congrArg (loadWord 4 · 28) hsuper').trans htotal
      · intro i hi
        exact entryOnDisk_zero (hzero (4097 + i / 4) (by omega) (by omega)).2

theorem Saved.restoreOwner (h : Saved total v) {old : LegacyFsEntry} (howner : old.owner < 2 ^ 32) :
    Saved total (restoreOwner v old) :=
  (h.fsChmod old.name _).fsChown old.name howner

/-- An entry of the migration can be made again with the arguments the calls take. -/
def LegacyBackup.Fits (old : LegacyBackup) : Prop :=
  old.entry.owner < 2 ^ 32 ∧ old.data.length < 2 ^ 62

theorem Saved.rebuildDirectory (h : Saved total v) (hfits : old.Fits)
    (heq : rebuildDirectory v old = (true, v')) : Saved total v' := by
  rw [Fs.rebuildDirectory] at heq
  split at heq
  · cases heq
  · next v₁ hmade =>
    cases heq
    apply Saved.restoreOwner _ hfits.1
    split at hmade
    · cases hmade
      exact h
    · have hmkdir := h.fsMkdir old.entry.name old.entry.flags
      rwa [hmade] at hmkdir

theorem Saved.rebuildFile (h : Saved total v) (hfits : old.Fits)
    (heq : rebuildFile v old = (true, v')) : Saved total v' := by
  have hdata := hfits.2
  rw [Fs.rebuildFile] at heq
  split at heq
  · cases heq
  · next v₁ hmade =>
    cases heq
    apply Saved.restoreOwner _ hfits.1
    split at hmade
    · split at hmade
      · cases hmade
      · refine h.fsSymlink ?_ hmade
        refine lt_of_le_of_lt (takeWhile_sublist _).length_le ?_
        rw [length_cons]
        omega
    · exact h.fsWrite (by omega) hmade

theorem Saved.rebuildEach {rebuild : Volume → LegacyBackup → Bool × Volume}
    (hrebuild : ∀ {v v' old}, Saved total v → old.Fits → rebuild v old = (true, v') → Saved total v')
    (h : Saved total v) (hfits : ∀ old ∈ backup, old.Fits)
    (heq : rebuildEach rebuild backup v = (true, v')) : Saved total v' := by
  induction backup generalizing v with
  | nil =>
    cases heq
    exact h
  | cons old rest ih =>
    rw [Fs.rebuildEach] at heq
    cases hold : rebuild v old with
    | mk done v₁ =>
      rw [hold] at heq
      cases done with
      | false => cases heq
      | true =>
        exact ih (hrebuild h (hfits old mem_cons_self) hold)
          (fun old' hmem => hfits old' (mem_cons_of_mem _ hmem)) heq

theorem length_copiedBytes_le (total : ℕ) (disk : ℕ → ℕ → UInt8) (start fuel position remaining : ℕ) :
    (copiedBytes total disk start fuel position remaining).length ≤ remaining := by
  induction fuel generalizing position remaining with
  | zero => exact zero_le _
  | succ fuel ih =>
    rw [copiedBytes]
    split
    · exact zero_le _
    · split
      · exact zero_le _
      · next sector _ =>
        have hrest := ih (position + min remaining (512 - position % 512))
          (remaining - min remaining (512 - position % 512))
        rw [length_append, length_readBytes]
        omega

theorem length_legacyCopy :
    (legacyCopy total disk index).data.length ≤ (legacyEntry disk index).size := by
  rw [legacyCopy]
  split
  · exact zero_le _
  · exact length_copiedBytes_le ..

theorem legacyCopy_fits : (legacyCopy total disk index).Fits := by
  have hsize : (legacyEntry disk index).size < 2 ^ 32 := (loadWord_lt : loadWord 4 _ _ < 256 ^ 4)
  refine ⟨(loadWord_lt : loadWord 4 _ _ < 256 ^ 4), lt_of_le_of_lt length_legacyCopy ?_⟩
  omega

theorem legacyBackup_fits
    (h : legacyBackup allocated total disk = some backup) : ∀ old ∈ backup, old.Fits := by
  rw [legacyBackup] at h
  split at h
  · cases h
    intro old hold
    obtain ⟨i, -, rfl⟩ := mem_map.1 hold
    exact legacyCopy_fits
  · cases h

theorem mem_of_mem_directoriesByDepth (h : old ∈ directoriesByDepth backup) : old ∈ backup := by
  obtain ⟨depth, -, hold⟩ := mem_flatMap.1 h
  exact mem_of_mem_filter hold

theorem migrateLegacy_saved (hsmall : v.totalSectors < 2 ^ 32)
    (huid : v.currentUid < 2 ^ 32) (heq : migrateLegacy allocated v = (true, v')) :
    Saved v.totalSectors v' := by
  rw [migrateLegacy] at heq
  split at heq
  · cases heq
  · rename_i backup hbackup
    have hfits := legacyBackup_fits hbackup
    cases hformat : formatV2 (allocated .empty) v with
    | mk done v₁ =>
      rw [hformat] at heq
      cases done with
      | false => cases heq
      | true =>
        simp only at heq
        have hformatted := formatV2_saved hsmall huid hformat
        cases hdirs : rebuildEach rebuildDirectory (directoriesByDepth backup) v₁ with
        | mk done v₂ =>
          rw [hdirs] at heq
          cases done with
          | false => cases heq
          | true =>
            have hdirectories := hformatted.rebuildEach (fun h hfits heq => h.rebuildDirectory hfits heq)
              (fun old hmem => hfits old (mem_of_mem_directoriesByDepth hmem)) hdirs
            exact hdirectories.rebuildEach (fun h hfits heq => h.rebuildFile hfits heq)
              (fun old hmem => hfits old (mem_of_mem_filter hmem)) heq

theorem directoryReadable_iff {count : ℕ} (hcount : 4097 + count ≤ 0x10000000) :
    directoryReadable total disk count = true ↔ count = 0 ∨ 4097 + count ≤ total := by
  have hread : ∀ sector, sector < count →
      ((ataReadSector total disk (4097 + sector)).isSome = true ↔ 4097 + sector < total) := by
    intro sector hsector
    simp only [Option.isSome_iff_exists, ataReadSector_some, exists_eq_right']
    omega
  rw [directoryReadable, all_eq_true]
  constructor
  · intro h
    by_cases hzero : count = 0
    · exact .inl hzero
    · have hlast := (hread (count - 1) (by omega)).1 (h _ (mem_range.2 (by omega)))
      omega
  · intro h sector hsector
    have hlt := mem_range.1 hsector
    exact (hread sector hlt).2 (by omega)

theorem isLegacy_of_isCurrent {block : ℕ → UInt8} (h : isCurrent block = true) :
    isLegacy block = false := by
  simp only [isCurrent, layoutMatches, Bool.and_eq_true, beq_iff_eq] at h
  rw [isLegacy, layoutMatches, h.1.1.1.1]
  rfl

/-- A disk with a version 2 superblock is mounted with the table it holds. -/
theorem fsInit_current (hmagic : magicMatches (disk 4096) = true)
    (hcurrent : isCurrent (disk 4096) = true) (hlarge : 4353 ≤ total) (allocated : MigrationRequest → Bool) :
    fsInit allocated total disk = (true, ⟨tableOnDisk disk,
      update disk 4096 (storeWord 4 (disk 4096) 28 total), total, true, 0, true⟩) := by
  have hread : ataReadSector total disk 4096 = some (disk 4096) :=
    ataReadSector_some.2 ⟨by omega, rfl⟩
  have hdirectory : directoryReadable total disk 256 = true :=
    (directoryReadable_iff (by decide)).2 (.inr hlarge)
  have hwrite : ataWriteSector total disk 4096 (storeWord 4 (disk 4096) 28 total) =
      some (update disk 4096 (storeWord 4 (disk 4096) 28 total)) :=
    ataWriteSector_some.2 ⟨by omega, rfl⟩
  rw [fsInit, hread]
  simp only
  rw [hmagic, isLegacy_of_isCurrent hcurrent, hcurrent, hdirectory, hwrite]
  simp only [Bool.not_true, Bool.false_eq_true, if_false, Bool.or_self, Option.getD_some]

/-- **A volume that is on its disk is what `fs_init` mounts.** -/
theorem Saved.fsInit_eq (h : Saved total v) (allocated : MigrationRequest → Bool) :
    fsInit allocated total v.disk = (true, fsSetIdentity v 0 true) := by
  have htable : tableOnDisk v.disk = v.entries := by
    funext i
    rw [tableOnDisk]
    split
    · next hi => exact h.entries i hi
    · next hi => exact (h.beyond i (by omega)).symm
  have hstore : storeWord 4 (v.disk 4096) 28 total = v.disk 4096 := by
    have hsame : storeWord 4 (v.disk 4096) 28 (loadWord 4 (v.disk 4096) 28) = v.disk 4096 :=
      storeWord_loadWord
    rwa [h.total, h.sectors] at hsame
  have hlarge : 4353 ≤ total := h.sectors ▸ h.large
  rw [fsInit_current h.magic h.layout hlarge, htable, hstore, update_eq_self, fsSetIdentity,
    h.mounted, h.sectors]

/-- What `fs_init` mounts is on its disk, once the files are well placed. -/
theorem fsInit_saved (hsmall : total < 2 ^ 32)
    (heq : fsInit allocated total disk = (true, v))
    (hplaced : ∀ i, i < 1024 → (v.entries i).used = true → (v.entries i).type = .file →
      (v.entries i).WellPlaced) : Saved total v := by
  rw [fsInit] at heq
  cases hread : ataReadSector total disk 4096 with
  | none =>
    rw [hread] at heq
    exact formatV2_saved hsmall (Nat.two_pow_pos 32) heq
  | some superblock =>
    rw [hread] at heq
    obtain ⟨hlba, rfl⟩ := ataReadSector_some.1 hread
    simp only at heq
    split at heq
    · exact formatV2_saved hsmall (Nat.two_pow_pos 32) heq
    split at heq
    · exact migrateLegacy_saved hsmall (Nat.two_pow_pos 32) heq
    split at heq
    · cases heq
    next hmagic _ hlayout =>
    simp only [Bool.not_eq_true', Bool.not_eq_false] at hmagic
    simp only [Bool.or_eq_true, Bool.not_eq_true', not_or, Bool.not_eq_false] at hlayout
    have hlarge : 4097 + 256 ≤ total := by
      have := (directoryReadable_iff (by decide)).1 hlayout.2
      omega
    have hwrite : ataWriteSector total disk 4096 (storeWord 4 (disk 4096) 28 total) =
        some (update disk 4096 (storeWord 4 (disk 4096) 28 total)) :=
      ataWriteSector_some.2 ⟨by omega, rfl⟩
    rw [hwrite, Option.getD_some] at heq
    obtain ⟨-, rfl⟩ := Prod.mk.inj heq
    have hsuper : update disk 4096 (storeWord 4 (disk 4096) 28 total) 4096 =
        storeWord 4 (disk 4096) 28 total := update_self ..
    obtain ⟨hmagic', hlayout', htotal⟩ := superblock_mounted (disk 4096) hsmall
    refine ⟨⟨rfl, rfl, hlarge, hsmall, Nat.two_pow_pos 32, ?_, ?_, ?_, ?_, ?_, ?_⟩, ?_⟩
    · exact (congrArg magicMatches hsuper).trans (hmagic'.trans hmagic)
    · exact (congrArg isCurrent hsuper).trans (hlayout'.trans hlayout.1)
    · exact (congrArg (loadWord 4 · 28) hsuper).trans htotal
    · intro i hi
      exact if_neg (by omega)
    · intro i
      show (tableOnDisk disk i).Packable
      rw [tableOnDisk]
      split
      · exact readEntry_packable _ _
      · exact FsEntry.zero_packable
    · intro i hused hfile
      by_cases hi : i < 1024
      · exact hplaced i hi hused hfile
      · have hzero : tableOnDisk disk i = FsEntry.zero := if_neg hi
        have hused' : (tableOnDisk disk i).used = true := hused
        rw [hzero] at hused'
        cases hused'
    · intro i hi
      show entryOnDisk (update disk 4096 _) i = tableOnDisk disk i
      rw [tableOnDisk, if_pos hi]
      exact entryOnDisk_congr (update_of_ne (by omega) ..)

/-- **Committed state survives a reboot.**  A volume is mounted, its files are well placed, and a list of
calls all succeed.  Then `fs_init` on the disk they leave mounts a volume with the
same table, and every read gives what it gave before. -/
theorem committed_survives_reboot (allocated allocated' : MigrationRequest → Bool) (total : ℕ)
    (disk : ℕ → ℕ → UInt8) (v : Volume) (htotal : total < 2 ^ 32)
    (hmount : fsInit allocated total disk = (true, v))
    (hplaced : ∀ i, i < 1024 → (v.entries i).used = true → (v.entries i).type = .file →
      (v.entries i).WellPlaced)
    (ops : List FsOp) (hops : ∀ op ∈ ops, op.Arguments) (htrue : v.allTrue ops = true) :
    ∃ w, fsInit allocated' total (v.run ops).disk = (true, w) ∧
      (∀ i, w.entries i = (v.run ops).entries i) ∧
      ∀ uid privileged name offset capacity,
        fsReadAt (fsSetIdentity w uid privileged) name offset capacity =
          fsReadAt (fsSetIdentity (v.run ops) uid privileged) name offset capacity := by
  have hsaved := (fsInit_saved htotal hmount hplaced).run hops htrue
  exact ⟨fsSetIdentity (v.run ops) 0 true, hsaved.fsInit_eq allocated', fun _ => rfl,
    fun _ _ _ _ _ => rfl⟩

end

/-- A blank disk is formatted, a directory and a file are made, and the file is read after a
reboot. -/
theorem committed_survives_reboot_file :
    let v := (fsInit (fun _ => true) 5000 fun _ _ => 0).2
    let ops : List FsOp := [.mkdir [100] 0, .write [100, 47, 97] [1, 2, 3], .chmod [100] 0o700]
    v.allTrue ops = true ∧ ∃ w, fsInit (fun _ => true) 5000 (v.run ops).disk = (true, w) ∧
      fsReadAt (fsSetIdentity w 0 true) [100, 47, 97] 0 9 = some [1, 2, 3] := by
  intro v ops
  have hmount : fsInit (fun _ => true) 5000 (fun _ _ => 0) = (true, v) :=
    Prod.ext (by decide +kernel) rfl
  have hempty : ∀ i, i < 1024 → (v.entries i).used = false := by decide +kernel
  have htrue : v.allTrue ops = true := by decide +kernel
  obtain ⟨w, hw, -, hread⟩ := committed_survives_reboot (fun _ => true) (fun _ => true) 5000
    (fun _ _ => 0) v (by decide) hmount
    (fun i hi hused _ => absurd ((hempty i hi).symm.trans hused) Bool.false_ne_true) ops (by decide)
    htrue
  refine ⟨htrue, w, hw, ?_⟩
  rw [hread]
  decide +kernel

/-- A disk with a version 2 superblock and one entry. -/
def diskWith (e : FsEntry) (lba : ℕ) : ℕ → UInt8 :=
  if lba = 4096 then writeBytes (fun _ => 0) 0 (superblockBytes 5000)
  else if lba = 4097 then writeBytes (fun _ => 0) 0 (entryBytes e)
  else fun _ => 0

/-- The disk is mounted, a call returns true, and the next `fs_init` does not find the table. -/
def LosesTable (e : FsEntry) (op : FsOp) : Prop :=
  let v := (fsInit (fun _ => true) 5000 (diskWith e)).2
  let v' := v.run [op]
  isCurrent (diskWith e 4096) = true ∧ fsInit (fun _ => true) 5000 (diskWith e) = (true, v) ∧
    v.allTrue [op] = true ∧
    ¬∃ w, fsInit (fun _ => true) 5000 v'.disk = (true, w) ∧ ∀ i, i < 1024 → w.entries i = v'.entries i

theorem losesTable_of {e : FsEntry} {op : FsOp} (hcurrent : isCurrent (diskWith e 4096) = true)
    (hmount : (fsInit (fun _ => true) 5000 (diskWith e)).1 = true)
    (htrue : (fsInit (fun _ => true) 5000 (diskWith e)).2.allTrue [op] = true)
    (hused : (((fsInit (fun _ => true) 5000 (diskWith e)).2.run [op]).entries 0).used = true)
    (hunused : ((fsInit (fun _ => true) 5000
      ((fsInit (fun _ => true) 5000 (diskWith e)).2.run [op]).disk).2.entries 0).used = false) :
    LosesTable e op := by
  have hpair : ∀ r : Bool × Volume, r.1 = true → r = (true, r.2) := fun r h => Prod.ext h rfl
  refine ⟨hcurrent, hpair _ hmount, htrue, ?_⟩
  rintro ⟨w, hw, hentries⟩
  rw [hw, hentries 0 (by decide), hused] at hunused
  cases hunused

/-- **Files that are not well placed.**  Writing a file whose extent is the sector of the superblock
destroys it; so does a write whose sector numbers wrap, in an extent that ends behind sector 2³² or in a
file whose size is so large that its count of sectors wraps. -/
theorem superblock_overwritten :
    LosesTable ⟨true, .file, 0o660, 0, [97], 4096, 0, 1, 0⟩ (.write [97] [1]) ∧
      LosesTable ⟨true, .file, 0o660, 0, [97], 2 ^ 32 - 1, 4097 * 512, 4098, 0⟩
        (.writeAt [97] (4097 * 512) [1]) ∧
      LosesTable ⟨true, .file, 0o660, 0, [97], 4608, 2 ^ 64 - 1, 1, 0⟩
        (.writeAt [97] (2 ^ 64 - 512 * 512) [1]) := by
  refine ⟨losesTable_of ?_ ?_ ?_ ?_ ?_, losesTable_of ?_ ?_ ?_ ?_ ?_, losesTable_of ?_ ?_ ?_ ?_ ?_⟩
  all_goals decide +kernel

end NovaOS.Fs
