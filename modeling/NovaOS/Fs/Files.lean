import NovaOS.Fs.Writes

/-!
# NovaFS as a map from paths to files

The abstract filesystem is a map `Files` from paths to nodes (type, mode, owner, bytes).  A write
replaces the bytes of one node or creates one, links are followed in the map, and nothing has a
size limit or a place on a disk.

`filesOf` reads the map off a volume.  A volume whose slot `index` became something else has the map
changed at one path (`Becomes.filesOf_eq`), and following links in the volume is following links in
the map (`resolveLoop_eq`).
-/

namespace NovaOS.Fs

open Option

abbrev Files := Name → Option Node

namespace Files

/-- Where a path leads, after at most `depth - 1` links. -/
def resolve (files : Files) : ℕ → Name → Option Name
  | 0, _ => none
  | depth + 1, path =>
    match files path with
    | none => none
    | some node =>
      if node.type ≠ .symlink then some path
      else if node.bytes.length = 0 || node.bytes.length > 96 then none
      else if !validSymlinkTarget (cString node.bytes) then none
      else
        match followTarget path (cString node.bytes) with
        | none => none
        | some next => if !validName next then none else resolve files depth next

/-- The map with the node at `path` set. -/
def set (files : Files) (path : Name) (node : Option Node) : Files := Function.update files path node

/-- The map with the node at `path`, if there is one, changed by `f`. -/
def modify (files : Files) (path : Name) (f : Node → Node) : Files :=
  files.set path ((files path).map f)

/-- The path a write to `name` goes to, when something is there. -/
def target (files : Files) (name : Name) : Option Name :=
  match files name with
  | none => none
  | some node => if node.type = .symlink then files.resolve 8 name else some name

/-- A write that turns the content of a file into `f` of it; a new file has no content. -/
def write (files : Files) (uid : ℕ) (name : Name) (f : List UInt8 → List UInt8) : Files :=
  match files name with
  | none => files.set name (some ⟨.file, 0o660, uid, f []⟩)
  | some _ =>
    match files.target name with
    | none => files
    | some path => files.modify path fun node => { node with bytes := f node.bytes }

/-- The bytes of a file from `offset` on, at most `capacity` of them. -/
def readAt (files : Files) (name : Name) (offset capacity : ℕ) : Option (List UInt8) :=
  if !validName name then none
  else
    match (files.resolve 8 name).bind files with
    | none => none
    | some node =>
      if node.type = .file then some ((node.bytes.drop offset).take capacity) else none

end Files

/-- A filesystem and the user who calls it. -/
structure FileSystem where
  files : Files
  uid : ℕ

def FileSystem.step (s : FileSystem) : FsOp → FileSystem
  | .write name data => { s with files := s.files.write s.uid name fun _ => data }
  | .writeAt name offset data =>
    { s with files := s.files.write s.uid name fun old => overwrite old offset data }
  | .delete name => { s with files := s.files.set name none }
  | .mkdir name mode =>
    let node : Node := ⟨.directory, if mode ≠ 0 then mode else 0o777, s.uid, []⟩
    { s with files := s.files.set name (some node) }
  | .symlink target name =>
    { s with files := s.files.set name (some ⟨.symlink, 0o777, s.uid, target⟩) }
  | .chmod name mode => { s with files := s.files.modify name fun node => { node with mode := mode } }
  | .chown name owner =>
    { s with files := s.files.modify name fun node => { node with owner := owner } }
  | .setIdentity uid _ => { s with uid := uid }

def FileSystem.run (s : FileSystem) : List FsOp → FileSystem
  | [] => s
  | op :: ops => (s.step op).run ops

/-- The filesystem after `format`: no files, and user 0. -/
def FileSystem.empty : FileSystem := ⟨fun _ => none, 0⟩

/-! ### The map of a volume -/

/-- The files of a volume. -/
def filesOf (v : Volume) : Files :=
  fun name => (findEntry v name).map fun index => nodeOf v.disk (v.entries index)

section

variable {v v' : Volume} {index : ℕ}

theorem slot_eq_some {p : Name} {n : Node} (h : slot v index = some (p, n)) :
    (v.entries index).used = true ∧ (v.entries index).name = p ∧
      nodeOf v.disk (v.entries index) = n := by
  cases hu : (v.entries index).used with
  | false =>
    rw [slot_of_unused hu] at h
    exact absurd h nofun
  | true =>
    rw [slot_of_used hu, Option.some.injEq, Prod.mk.injEq] at h
    exact ⟨rfl, h.1, h.2⟩

theorem filesOf_of_findEntry {name : Name} (h : findEntry v name = some index) :
    filesOf v name = some (nodeOf v.disk (v.entries index)) := by
  rw [filesOf, h, map_some]

theorem findEntry_of_filesOf {name : Name} {node : Node} (h : filesOf v name = some node) :
    ∃ index, findEntry v name = some index ∧ nodeOf v.disk (v.entries index) = node :=
  map_eq_some_iff.1 h

theorem filesOf_eq_none {name : Name} : filesOf v name = none ↔ findEntry v name = none := by
  rw [filesOf, map_eq_none_iff]

theorem VolumeOk.filesOf_eq_some (h : VolumeOk v) {p : Name} {n : Node} :
    filesOf v p = some n ↔ ∃ i, i < 1024 ∧ slot v i = some (p, n) := by
  rw [filesOf, map_eq_some_iff]
  constructor
  · rintro ⟨i, hi, hn⟩
    obtain ⟨hlt, hu, hname⟩ := findEntry_some hi
    exact ⟨i, hlt, by rw [slot_of_used hu, hname, hn]⟩
  · rintro ⟨i, hlt, hs⟩
    obtain ⟨hu, hname, hn⟩ := slot_eq_some hs
    exact ⟨i, by rw [← hname]; exact h.findEntry_eq hlt hu, hn⟩

theorem VolumeOk.slot_unique (h : VolumeOk v) {i j : ℕ} {p : Name} {n n' : Node} (hi : i < 1024)
    (hj : j < 1024) (hsi : slot v i = some (p, n)) (hsj : slot v j = some (p, n')) : i = j := by
  obtain ⟨hui, hni, -⟩ := slot_eq_some hsi
  obtain ⟨huj, hnj, -⟩ := slot_eq_some hsj
  exact h.names i j hi hj hui huj (hni.trans hnj.symm)

/-- **One slot changed is one path changed.** -/
theorem Becomes.filesOf_eq (h : VolumeOk v) {p : Name} (node : Option Node)
    (hb : Becomes v v' index (node.map fun n => (p, n)))
    (hold : ∀ q n, slot v index = some (q, n) → q = p)
    (hsome : node = none → ∃ n, slot v index = some (p, n)) :
    filesOf v' = (filesOf v).set p node := by
  funext q
  apply Option.ext
  intro n
  rw [hb.ok.filesOf_eq_some, Files.set]
  by_cases hq : q = p
  · subst hq
    rw [Function.update_self]
    constructor
    · rintro ⟨i, hi, hs⟩
      by_cases hii : i = index
      · rw [hii, hb.self, map_eq_some_iff] at hs
        obtain ⟨n', hn', heq⟩ := hs
        rw [hn', (Prod.mk.inj heq).2]
      · -- a second slot with this path: in the new volume, or in the old one if it was cleared
        cases node with
        | none =>
          obtain ⟨n', hn'⟩ := hsome rfl
          rw [hb.others i hi hii] at hs
          exact absurd (h.slot_unique hi hb.inTable hs hn') hii
        | some n' => exact absurd (hb.ok.slot_unique hi hb.inTable hs hb.self) hii
    · intro hn
      exact ⟨index, hb.inTable, by rw [hb.self, hn, map_some]⟩
  · rw [Function.update_of_ne hq, h.filesOf_eq_some]
    constructor
    · rintro ⟨i, hi, hs⟩
      have hii : i ≠ index := by
        intro hii
        rw [hii, hb.self, map_eq_some_iff] at hs
        obtain ⟨n', -, heq⟩ := hs
        exact hq (Prod.mk.inj heq).1.symm
      exact ⟨i, hi, by rwa [← hb.others i hi hii]⟩
    · rintro ⟨i, hi, hs⟩
      have hii : i ≠ index := fun hii => hq (hold q n (by rwa [← hii]))
      exact ⟨i, hi, by rwa [hb.others i hi hii]⟩

/-! ### Following links -/

theorem VolumeOk.resolveLoop_eq (h : VolumeOk v) (depth : ℕ) (path : Name) :
    resolveLoop v depth path = ((filesOf v).resolve depth path).bind (findEntry v) := by
  induction depth generalizing path with
  | zero => rfl
  | succ depth ih =>
    rw [resolveLoop, Files.resolve]
    cases hf : findEntry v path with
    | none =>
      rw [filesOf_eq_none.2 hf]
      rfl
    | some index =>
      obtain ⟨hindex, hused, -⟩ := findEntry_some hf
      have hlength : (nodeOf v.disk (v.entries index)).bytes.length = (v.entries index).size :=
        length_readBytes
      rw [filesOf_of_findEntry hf]
      simp only [hlength]
      show (if (v.entries index).type ≠ .symlink then _ else _) =
        (if (v.entries index).type ≠ .symlink then some path else _ : Option Name).bind _
      by_cases htype : (v.entries index).type ≠ .symlink
      · rw [if_pos htype, if_pos htype, bind_some, hf]
      · rw [if_neg htype, if_neg htype]
        by_cases hsize : ((v.entries index).size = 0 || (v.entries index).size > 96) = true
        · rw [if_pos hsize, if_pos hsize]
          rfl
        · rw [if_neg hsize, if_neg hsize]
          simp only [Bool.or_eq_true, decide_eq_true_eq] at hsize
          -- the target is read in full
          have hread : readEntryData v (v.entries index) 0 (v.entries index).size =
              some (fileBytes v.disk (v.entries index)) := by
            have hin := (h.entry index hindex hused).inside
            have hfit := (h.entry index hindex hused).size
            rw [readEntryData, readRawData_eq _ h.small _ _ _ (by omega) (by omega), List.drop_zero,
              List.take_of_length_le (le_of_eq length_readBytes)]
            rfl
          simp only [hread]
          rw [if_neg (show ¬ (fileBytes v.disk (v.entries index)).length ≠ (v.entries index).size
            from fun hne => hne length_readBytes)]
          show (if (!validSymlinkTarget (cString (fileBytes v.disk (v.entries index)))) = true then
              none else _) =
            (if (!validSymlinkTarget (cString (fileBytes v.disk (v.entries index)))) = true then
              none else _ : Option Name).bind _
          by_cases hvalid :
              (!validSymlinkTarget (cString (fileBytes v.disk (v.entries index)))) = true
          · rw [if_pos hvalid, if_pos hvalid]
            rfl
          · rw [if_neg hvalid, if_neg hvalid]
            show _ = (match followTarget path (cString (fileBytes v.disk (v.entries index))) with
              | none => none
              | some next => _ : Option Name).bind _
            cases followTarget path (cString (fileBytes v.disk (v.entries index))) with
            | none => rfl
            | some next =>
              simp only
              by_cases hnext : (!validName next) = true
              · rw [if_pos hnext, if_pos hnext]
                rfl
              · rw [if_neg hnext, if_neg hnext]
                exact ih next

end

end NovaOS.Fs
