import NovaOS.Fs.Writes

/-!
# NovaFS as a user sees it

The calls a user can make, the reading ones included, with everything they give back: `UserCall`,
`Reply` and `Volume.call`.  A read gives its result and what it left in the caller's buffer, also
when it fails on the way.

`Protected u e` singles out the entries that a user may not change, and `openWrite_outcome` says what
entry a write is for.
-/

namespace NovaOS.Fs

/-! ### Calls and replies -/

/-- What the loop of `read_raw_data` has copied when it ends. -/
def copiedBytes (total : ℕ) (disk : ℕ → ℕ → UInt8) (startLba : ℕ) : ℕ → ℕ → ℕ → List UInt8
  | 0, _, _ => []
  | fuel + 1, position, remaining =>
    if remaining = 0 then []
    else
      match ataReadSector total disk ((startLba + position / 512) % 2 ^ 32) with
      | none => []
      | some sector =>
        let chunk := min remaining (512 - position % 512)
        readBytes sector (position % 512) chunk ++
          copiedBytes total disk startLba fuel (position + chunk) (remaining - chunk)

/-- What `read_entry_data` leaves in the buffer. -/
def entryBuffer (v : Volume) (entry : FsEntry) (offset capacity : ℕ) : List UInt8 :=
  if offset ≥ entry.size then []
  else
    let capacity := if capacity > entry.size - offset then entry.size - offset else capacity
    copiedBytes v.totalSectors v.disk entry.startLba capacity offset capacity

/-- What `fs_read_at` leaves in the buffer. -/
def readAtBuffer (v : Volume) (name : Name) (offset capacity : ℕ) : List UInt8 :=
  if !v.mounted || !validName name then []
  else
    match resolveEntry v name with
    | none => []
    | some index =>
      if (v.entries index).type ≠ .file || !mayRead v (v.entries index) then []
      else entryBuffer v (v.entries index) offset capacity

/-- The entry `fs_readlink` reads. -/
def linkEntry (v : Volume) (name : Name) (capacity : ℕ) : Option FsEntry :=
  if !v.mounted || capacity = 0 || !validName name then none
  else
    match findEntry v name with
    | none => none
    | some index =>
      if (v.entries index).type ≠ .symlink || !mayRead v (v.entries index) then none
      else some (v.entries index)

/-- `fs_readlink`. -/
def fsReadlink (v : Volume) (name : Name) (capacity : ℕ) : Option (List UInt8) :=
  (linkEntry v name capacity).bind fun entry => readEntryData v entry 0 capacity

/-- What `fs_readlink` leaves in the buffer. -/
def readlinkBuffer (v : Volume) (name : Name) (capacity : ℕ) : List UInt8 :=
  match linkEntry v name capacity with
  | none => []
  | some entry => entryBuffer v entry 0 capacity

inductive UserCall
  | readAt (name : Name) (offset capacity : ℕ)
  | readlink (name : Name) (capacity : ℕ)
  | pathInfo (name : Name) (followSymlink : Bool)
  | write (name : Name) (data : List UInt8)
  | writeAt (name : Name) (offset : ℕ) (data : List UInt8)
  | delete (name : Name)
  | mkdir (name : Name) (mode : ℕ)
  | symlink (target name : Name)
  | chmod (name : Name) (mode : ℕ)
  | chown (name : Name) (owner : ℕ)

/-- What a call gives back. -/
inductive Reply
  | bytes (result : Option (List UInt8)) (buffer : List UInt8)
  | info (result : Option FsFileInfo)
  | done (result : Bool)
deriving DecidableEq

/-- A call that changes the volume. -/
def Reply.ofStep (r : Bool × Volume) : Reply × Volume := (.done r.1, r.2)

/-- One call of a user. -/
def Volume.call (v : Volume) : UserCall → Reply × Volume
  | .readAt name offset capacity =>
    (.bytes (fsReadAt v name offset capacity) (readAtBuffer v name offset capacity), v)
  | .readlink name capacity => (.bytes (fsReadlink v name capacity) (readlinkBuffer v name capacity), v)
  | .pathInfo name followSymlink => (.info (fsPathInfo v name followSymlink), v)
  | .write name data => Reply.ofStep (fsWrite v name data)
  | .writeAt name offset data => Reply.ofStep (fsWriteAt v name offset data)
  | .delete name => Reply.ofStep (fsDelete v name)
  | .mkdir name mode => Reply.ofStep (fsMkdir v name mode)
  | .symlink target name => Reply.ofStep (fsSymlink v target name)
  | .chmod name mode => Reply.ofStep (fsChmod v name mode)
  | .chown name owner => Reply.ofStep (fsChown v name owner)

/-- The volume after a call. -/
def Volume.after (v : Volume) (c : UserCall) : Volume := (v.call c).2

/-- The replies of a list of calls. -/
def Volume.replies (v : Volume) : List UserCall → List Reply
  | [] => []
  | c :: cs => (v.call c).1 :: (v.after c).replies cs

/-! ### Users -/

/-- Calls are made by the unprivileged user `u`. -/
structure ActsAs (u : ℕ) (v : Volume) : Prop where
  uid : v.currentUid = u
  unprivileged : v.currentPrivileged = false

/-- An entry that `u` does not own and that others may not write. -/
def Protected (u : ℕ) (e : FsEntry) : Prop := e.used = true ∧ e.owner ≠ u ∧ entryMode e &&& 0o002 = 0

section

variable {u index : ℕ} {v : Volume} {e : FsEntry}

theorem ActsAs.not_protected (h : ActsAs u v) (hwrite : mayWrite v e = true) : ¬Protected u e := by
  intro hprotected
  rw [mayWrite, h.unprivileged, if_neg Bool.false_ne_true, h.uid,
    if_neg (Ne.symm hprotected.2.1), hprotected.2.2] at hwrite
  exact absurd hwrite (by decide)

/-- `resolve_entry` ends at an entry in use. -/
theorem resolveLoop_some (depth : ℕ) {path : Name} (h : resolveLoop v depth path = some index) :
    index < 1024 ∧ (v.entries index).used = true := by
  induction depth generalizing path with
  | zero => cases h
  | succ depth ih =>
    rw [resolveLoop] at h
    cases hfind : findEntry v path with
    | none =>
      rw [hfind] at h
      cases h
    | some i =>
      obtain ⟨hi, hused, -⟩ := findEntry_some hfind
      rw [hfind] at h
      simp only at h
      split at h
      · cases h
        exact ⟨hi, hused⟩
      · split at h
        · cases h
        · split at h
          · cases h
          · split at h
            · cases h
            · split at h
              · cases h
              · split at h
                · cases h
                · split at h
                  · cases h
                  · exact ih h

theorem saveEntry_entries (v : Volume) (index : ℕ) : (saveEntry v index).2.entries = v.entries := by
  rw [saveEntry]
  split
  · rfl
  · split
    · rfl
    · rfl

/-- An entry that was made is saved. -/
def saveOpened : Option ℕ × Volume → Option ℕ × Volume
  | (none, v) => (none, v)
  | (some index, v) =>
    (if (saveEntry v index).1 then some index else none, (saveEntry v index).2)

/-- `fs_write_at` opens as `fs_write` does, and saves an entry that it has made. -/
theorem openWriteAt_eq (v : Volume) (name : Name) : openWriteAt v name =
    if findEntry v name = none then saveOpened (openWrite v name) else openWrite v name := by
  rw [openWriteAt, openWrite]
  cases findEntry v name with
  | some index => exact (if_neg (Option.some_ne_none index)).symm
  | none =>
    rcases allocateEntry v name .file 0o660 with ⟨_ | index, v₁⟩
    · rfl
    · simp only [saveOpened]
      rcases saveEntry v₁ index with ⟨_ | _, v₂⟩
      · rfl
      · rfl

theorem existing_some {name : Name} {i : ℕ} (hfind : findEntry v name = some i)
    (h : (if (v.entries i).type = .symlink then resolveEntry v name else some i) = some index) :
    index < 1024 ∧ (v.entries index).used = true := by
  split at h
  · exact resolveLoop_some 8 h
  · cases h
    obtain ⟨hi, hused, -⟩ := findEntry_some hfind
    exact ⟨hi, hused⟩

/-- A write opens an entry in use, or makes a new one. -/
theorem openWrite_outcome (v : Volume) (name : Name) :
    (∃ found, openWrite v name = (found, v) ∧
      ∀ index, found = some index → index < 1024 ∧ (v.entries index).used = true) ∨
    ∃ index, index < 1024 ∧ (v.entries index).used = false ∧ validName name = true ∧
      findEntry v name = none ∧ parentDirectoryExists v name = true ∧
      openWrite v name = (some index, v.setEntry index (newEntry v name .file 0o660)) := by
  rw [openWrite]
  cases hfind : findEntry v name with
  | none =>
    obtain hrefused | ⟨index, hindex, hunused, hvalid, -, hparent, hmade⟩ :=
      allocateEntry_outcome v name .file 0o660
    · exact .inl ⟨none, hrefused, fun _ hno => by cases hno⟩
    · exact .inr ⟨index, hindex, hunused, hvalid, rfl, hparent, hmade⟩
  | some i =>
    refine .inl ⟨if (v.entries i).type = .symlink then resolveEntry v name else some i, ?_,
      fun index hindex => existing_some hfind hindex⟩
    simp only
    split
    · rfl
    · rfl

theorem writable_of {entry : FsEntry}
    (h : ¬(entry.type ≠ .file || !mayWrite v entry) = true) :
    entry.type = .file ∧ mayWrite v entry = true := by
  simpa using h

theorem validSymlinkTarget_length {target : Name} (h : validSymlinkTarget target = true) :
    target.length ≤ 96 := by
  rw [validSymlinkTarget] at h
  split at h
  · have hlength := validName_length h
    rw [List.length_tail] at hlength
    omega
  · have hlength := validName_length h
    omega

/-- Whether a whole file that is written gets a new extent, and where that ends at the latest. -/
def NewExtentWithin (limit : ℕ) (v : Volume) (name : Name) (size : ℕ) : Prop :=
  match openWrite v name with
  | (none, _) => True
  | (some index, v) =>
    (v.entries index).type = .file → mayWrite v (v.entries index) = true →
      (v.entries index).capacitySectors < requiredSectors size →
      nextDataLba v + requiredSectors size ≤ limit

instance (limit : ℕ) (v : Volume) (name : Name) (size : ℕ) :
    Decidable (NewExtentWithin limit v name size) :=
  match h : openWrite v name with
  | (none, _) => isTrue (by rw [NewExtentWithin, h]; trivial)
  | (some index, v₁) =>
    decidable_of_iff
      ((v₁.entries index).type = .file → mayWrite v₁ (v₁.entries index) = true →
        (v₁.entries index).capacitySectors < requiredSectors size →
        nextDataLba v₁ + requiredSectors size ≤ limit) (by rw [NewExtentWithin, h])

/-- Neither the sectors a write needs nor the address of one wraps: the size of what is written does
not round up past the end of the 64-bit word, and a new extent ends at or below `limit`. -/
def Bounded (limit : ℕ) (v : Volume) : UserCall → Prop
  | .write name data => data.length + 511 < 2 ^ 64 ∧ NewExtentWithin limit v name data.length
  | .writeAt _ offset data =>
    data.length < 2 ^ 64 ∧ (offset + data.length < 2 ^ 64 → offset + data.length + 511 < 2 ^ 64)
  | .symlink target name =>
    validSymlinkTarget target = true → NewExtentWithin limit v name target.length
  | _ => True

instance (limit : ℕ) (v : Volume) : ∀ c, Decidable (Bounded limit v c)
  | .write _ _ => inferInstanceAs (Decidable (_ ∧ _))
  | .writeAt _ _ _ => inferInstanceAs (Decidable (_ ∧ _))
  | .symlink _ _ => inferInstanceAs (Decidable (_ → _))
  | .readAt _ _ _ => isTrue trivial
  | .readlink _ _ => isTrue trivial
  | .pathInfo _ _ => isTrue trivial
  | .delete _ => isTrue trivial
  | .mkdir _ _ => isTrue trivial
  | .chmod _ _ => isTrue trivial
  | .chown _ _ => isTrue trivial

end

end NovaOS.Fs
