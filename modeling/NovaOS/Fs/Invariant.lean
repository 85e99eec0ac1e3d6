import NovaOS.Fs.Extents

/-!
# The invariant of a mounted volume

`VolumeOk` says what holds between any two calls: the used entries have valid names, no two the same;
every extent lies in the data area of the disk and no two overlap; no file is longer than its extent.
`ExtentsOk` is what it says of the extents.

A call changes one entry of the table.  What it leaves there is seen through `slot`, the name and the
`Node` (type, mode, owner, bytes) of an entry: `Becomes v v' index s` says that the slot `index` is
now `s`, that every other slot is what it was, and that the invariant holds again.
`VolumeOk.becomes` and `VolumeOk.clears` are the two ways to get there: a new entry whose extent is
apart from all others, on a disk that changed only inside that extent, or a cleared entry.
-/

namespace NovaOS.Fs

/-- What a path names: the abstract content of a directory entry. -/
structure Node where
  type : FsType
  mode : ℕ
  owner : ℕ
  bytes : List UInt8
  deriving DecidableEq, Repr

/-- The bytes of the file of an entry. -/
def fileBytes (disk : ℕ → ℕ → UInt8) (entry : FsEntry) : List UInt8 :=
  readBytes (flat 512 disk) (entry.startLba * 512) entry.size

def nodeOf (disk : ℕ → ℕ → UInt8) (entry : FsEntry) : Node :=
  ⟨entry.type, entry.flags, entry.owner, fileBytes disk entry⟩

/-- What the table says at an index. -/
def slot (v : Volume) (index : ℕ) : Option (Name × Node) :=
  if (v.entries index).used then
    some ((v.entries index).name, nodeOf v.disk (v.entries index))
  else none

/-- A used entry on its own. -/
structure EntryOk (total : ℕ) (e : FsEntry) : Prop where
  name : validName e.name = true
  flags : e.flags < 512
  low : 0 < e.capacitySectors → 4608 ≤ e.startLba
  inside : e.startLba + e.capacitySectors ≤ total
  size : e.size ≤ e.capacitySectors * 512

/-- Two extents without a common sector. -/
def Apart (e e' : FsEntry) : Prop :=
  0 < e.capacitySectors → 0 < e'.capacitySectors →
    e.startLba + e.capacitySectors ≤ e'.startLba ∨ e'.startLba + e'.capacitySectors ≤ e.startLba

structure VolumeOk (v : Volume) : Prop where
  mounted : v.mounted = true
  large : 4608 + 128 < v.totalSectors
  small : v.totalSectors ≤ 0x10000000
  entry : ∀ i, i < 1024 → (v.entries i).used = true → EntryOk v.totalSectors (v.entries i)
  names : ∀ i j, i < 1024 → j < 1024 → (v.entries i).used = true → (v.entries j).used = true →
    (v.entries i).name = (v.entries j).name → i = j
  apart : ∀ i j, i < 1024 → j < 1024 → i ≠ j → (v.entries i).used = true →
    (v.entries j).used = true → Apart (v.entries i) (v.entries j)

/-- The slot `index` is now `s`, every other slot is what it was. -/
structure Becomes (v v' : Volume) (index : ℕ) (s : Option (Name × Node)) : Prop where
  ok : VolumeOk v'
  inTable : index < 1024
  self : slot v' index = s
  others : ∀ j, j < 1024 → j ≠ index → slot v' j = slot v j
  uid : v'.currentUid = v.currentUid
  privileged : v'.currentPrivileged = v.currentPrivileged

theorem Apart.symm {e e' : FsEntry} (h : Apart e e') : Apart e' e := fun he he' => (h he' he).symm

theorem slot_of_used {v : Volume} {index : ℕ} (h : (v.entries index).used = true) :
    slot v index = some ((v.entries index).name, nodeOf v.disk (v.entries index)) := by
  rw [slot, if_pos h]

theorem slot_of_unused {v : Volume} {index : ℕ} (h : (v.entries index).used = false) :
    slot v index = none := by
  rw [slot, h, if_neg Bool.false_ne_true]

/-- The bytes of an entry depend on its extent only. -/
theorem EntryOk.nodeOf_congr {total : ℕ} {e : FsEntry} (h : EntryOk total e)
    {disk disk' : ℕ → ℕ → UInt8}
    (hdisk : ∀ i, i < e.capacitySectors * 512 →
      flat 512 disk' (e.startLba * 512 + i) = flat 512 disk (e.startLba * 512 + i)) :
    nodeOf disk' e = nodeOf disk e := by
  have hbytes : fileBytes disk' e = fileBytes disk e := by
    apply readBytes_congr
    intro i hi
    exact hdisk i (lt_of_lt_of_le hi h.size)
  rw [nodeOf, nodeOf, hbytes]

/-- Extents lie in the data area, apart, and hold their files. -/
structure ExtentsOk (v : Volume) : Prop where
  mounted : v.mounted = true
  total : v.totalSectors < 2 ^ 32
  low : ∀ i, i < 1024 → (v.entries i).used = true → 0 < (v.entries i).capacitySectors →
    4608 ≤ (v.entries i).startLba
  inside : ∀ i, i < 1024 → (v.entries i).used = true →
    (v.entries i).startLba + (v.entries i).capacitySectors ≤ v.totalSectors
  size : ∀ i, i < 1024 → (v.entries i).used = true →
    (v.entries i).size ≤ (v.entries i).capacitySectors * 512
  apart : ∀ i j, i < 1024 → j < 1024 → i ≠ j → (v.entries i).used = true →
    (v.entries j).used = true → Apart (v.entries i) (v.entries j)

theorem VolumeOk.extentsOk {v : Volume} (h : VolumeOk v) : ExtentsOk v where
  mounted := h.mounted
  total := lt_of_le_of_lt h.small (by decide)
  low := fun i hi hu => (h.entry i hi hu).low
  inside := fun i hi hu => (h.entry i hi hu).inside
  size := fun i hi hu => (h.entry i hi hu).size
  apart := h.apart

theorem entries_of_two {v : Volume} {a b : FsEntry} {i : ℕ}
    (hentries : v.entries = fun i => if i = 0 then a else if i = 1 then b else FsEntry.zero)
    (h : (v.entries i).used = true) : i = 0 ∧ v.entries i = a ∨ i = 1 ∧ v.entries i = b := by
  rw [hentries] at h ⊢
  dsimp only at h ⊢
  split at h
  · next h0 => exact .inl ⟨h0, if_pos h0⟩
  · next h0 =>
    rw [if_neg h0]
    split at h
    · next h1 => exact .inr ⟨h1, if_pos h1⟩
    · cases h

theorem extentsOk_of_two {v : Volume} {a b : FsEntry}
    (hentries : v.entries = fun i => if i = 0 then a else if i = 1 then b else FsEntry.zero)
    (hmounted : v.mounted = true) (htotal : v.totalSectors < 2 ^ 32) (hlow : 4608 ≤ a.startLba)
    (hapart : a.startLba + a.capacitySectors ≤ b.startLba)
    (hinside : b.startLba + b.capacitySectors ≤ v.totalSectors)
    (hsize : a.size ≤ a.capacitySectors * 512 ∧ b.size ≤ b.capacitySectors * 512) : ExtentsOk v := by
  refine ⟨hmounted, htotal, fun i _ hi _ => ?_, fun i _ hi => ?_, fun i _ hi => ?_,
    fun i j _ _ hne hi hj _ _ => ?_⟩
  all_goals obtain ⟨hi', he⟩ | ⟨hi', he⟩ := entries_of_two hentries hi
  any_goals
    rw [he]
    omega
  all_goals
    obtain ⟨hj', he'⟩ | ⟨hj', he'⟩ := entries_of_two hentries hj
    all_goals
      rw [he, he']
      omega

/-- The disk as a call that writes inside the extent of `e` leaves it. -/
def VolumeOk.Outside (disk disk' : ℕ → ℕ → UInt8) (e : FsEntry) : Prop :=
  ∀ i, 4608 * 512 ≤ i →
    i < e.startLba * 512 ∨ (e.startLba + e.capacitySectors) * 512 ≤ i →
    flat 512 disk' i = flat 512 disk i

/-- The bytes of an entry that lies apart from where the disk changed. -/
theorem ExtentsOk.fileBytes_other {v : Volume} (h : ExtentsOk v) {j : ℕ} (hj : j < 1024)
    (hused : (v.entries j).used = true) {disk : ℕ → ℕ → UInt8} {e : FsEntry}
    (hdisk : VolumeOk.Outside v.disk disk e) (hapart : Apart e (v.entries j)) :
    fileBytes disk (v.entries j) = fileBytes v.disk (v.entries j) := by
  have hsize := h.size j hj hused
  apply readBytes_congr
  intro i hi
  have hcap : 0 < (v.entries j).capacitySectors := by omega
  have hlow := h.low j hj hused hcap
  apply hdisk _ (by omega)
  by_cases he : 0 < e.capacitySectors
  · have := hapart he hcap
    omega
  · omega

namespace VolumeOk

variable {v : Volume} {index : ℕ} {e : FsEntry} {disk' : ℕ → ℕ → UInt8}

/-- Another file's bytes lie outside the extent written to. -/
theorem nodeOf_other {j : ℕ} (h : VolumeOk v) (hj : j < 1024) (hused : (v.entries j).used = true)
    (hdisk : Outside v.disk disk' e) (hapart : Apart e (v.entries j)) :
    nodeOf disk' (v.entries j) = nodeOf v.disk (v.entries j) := by
  rw [nodeOf, nodeOf, h.extentsOk.fileBytes_other hj hused hdisk hapart]

section

variable (h : VolumeOk v) (e : FsEntry) (disk' : ℕ → ℕ → UInt8) (hindex : index < 1024)

include h hindex

/-- One entry replaced by `e`: what a used entry has to meet is asked of `e` if it is used. -/
theorem replace
    (hentry : e.used = true → EntryOk v.totalSectors e)
    (hname : e.used = true → ∀ j, j < 1024 → j ≠ index → (v.entries j).used = true →
      (v.entries j).name ≠ e.name)
    (hapart : e.used = true → ∀ j, j < 1024 → j ≠ index → (v.entries j).used = true →
      Apart e (v.entries j))
    (hdisk : ∀ j, j < 1024 → j ≠ index → (v.entries j).used = true →
      nodeOf disk' (v.entries j) = nodeOf v.disk (v.entries j)) :
    Becomes v { v.setEntry index e with disk := disk' } index
      (if e.used then some (e.name, nodeOf disk' e) else none) := by
  have hself := v.setEntry_self index e
  have hnames := Volume.pairs_setEntry (v := v) (R := fun a b => a.name ≠ b.name) Ne.symm
    (fun hu j hj hjj hu' => (hname hu j hj hjj hu').symm)
    fun i j hi hj hne hu hu' hij => hne (h.names i j hi hj hu hu' hij)
  refine ⟨⟨h.mounted, h.large, h.small, ?_, ?_, ?_⟩, hindex, ?_, ?_, rfl, rfl⟩
  · exact Volume.forall_setEntry (P := fun i e => i < 1024 → e.used = true → EntryOk _ e)
      (fun _ => hentry) fun i _ => h.entry i
  · intro i j hi hj hui huj hij
    by_contra hne
    exact hnames i j hi hj hne hui huj hij
  · exact Volume.pairs_setEntry Apart.symm hapart h.apart
  · simp only [slot, hself]
  · intro j hj hjj
    simp only [slot, v.setEntry_of_ne e hjj]
    cases hu : (v.entries j).used with
    | false => rfl
    | true => rw [hdisk j hj hjj hu]

/-- **One entry replaced by a used one**, on a disk that changed only inside its extent. -/
theorem becomes
    (hused : e.used = true)
    (hentry : EntryOk v.totalSectors e)
    (hname : ∀ j, j < 1024 → j ≠ index → (v.entries j).used = true → (v.entries j).name ≠ e.name)
    (hapart : ∀ j, j < 1024 → j ≠ index → (v.entries j).used = true → Apart e (v.entries j))
    (hdisk : Outside v.disk disk' e) :
    Becomes v { v.setEntry index e with disk := disk' } index (some (e.name, nodeOf disk' e)) := by
  have hb := h.replace e disk' hindex (fun _ => hentry) (fun _ => hname) (fun _ => hapart)
    fun j hj hjj hu => h.nodeOf_other hj hu hdisk (hapart j hj hjj hu)
  rwa [if_pos hused] at hb

/-- **One entry cleared**, and nothing changed in the data area. -/
theorem clears
    (hused : e.used = false)
    (hdisk : ∀ i, 4608 * 512 ≤ i → flat 512 disk' i = flat 512 v.disk i) :
    Becomes v { v.setEntry index e with disk := disk' } index none := by
  have hunused : ¬ e.used = true := by rw [hused]; exact Bool.false_ne_true
  have hb := h.replace e disk' hindex (fun hu => absurd hu hunused)
    (fun hu => absurd hu hunused) (fun hu => absurd hu hunused) fun j hj hjj hu => by
      have hentry := h.entry j hj hu
      apply hentry.nodeOf_congr
      intro i hi
      have hlow := hentry.low (by omega)
      exact hdisk _ (by omega)
  rwa [if_neg hunused] at hb

end

end VolumeOk

end NovaOS.Fs
