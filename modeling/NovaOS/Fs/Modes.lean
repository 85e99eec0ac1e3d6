import NovaOS.Fs.Writes
import Mathlib.Data.Nat.Bitwise

/-!
# What a mode means

`fs_chmod` and `fs_mkdir` store a mode in the flags of an entry; `entry_mode` reads it back, and takes
a stored zero for "no mode was recorded".

* `MeansMode` — `fs_path_info` reports the mode, and it decides who may read and write;
* `meansMode_iff` — this is so exactly if `entry_mode` gives the mode;
* `mode_means_iff` — **after `fs_chmod` or `fs_mkdir` has succeeded**, it is so exactly if the mode is
  not zero.
-/

namespace NovaOS.Fs

variable {v v' : Volume} {name : Name} {mode index : ℕ}

/-- The mode of the entry `name` is `mode`: it is reported, and an unprivileged user may read and write
as the bits for the owner or for others say. -/
def MeansMode (v : Volume) (name : Name) (mode : ℕ) : Prop :=
  ∃ index, findEntry v name = some index ∧ (fsPathInfo v name false).map FsFileInfo.flags = some mode ∧
    ∀ w, mayRead (fsSetIdentity v w false) (v.entries index) =
        (if w = (v.entries index).owner then mode.testBit 8 else mode.testBit 2) ∧
      mayWrite (fsSetIdentity v w false) (v.entries index) =
        (if w = (v.entries index).owner then mode.testBit 7 else mode.testBit 1)

/-! ### Bits -/

theorem and_two_pow_ne_zero (m i : ℕ) : (m &&& 2 ^ i != 0) = m.testBit i := by
  rw [Nat.and_two_pow]
  cases m.testBit i with
  | false => simp
  | true => simp

/-- A mode is what is left of the flags under the mask. -/
theorem and_mask_of_le (h : mode ≤ 0o777) : mode &&& 0o777 = mode := by
  have hmod : mode &&& (2 ^ 9 - 1) = mode % 2 ^ 9 := Nat.and_two_pow_sub_one_eq_mod mode 9
  rw [show (0o777 : ℕ) = 2 ^ 9 - 1 from rfl, hmod]
  exact Nat.mod_eq_of_lt (by omega)

/-- `(flags & ~0777) | mode` holds the mode. -/
theorem chmod_flags (flags : ℕ) (h : mode ≤ 0o777) : (flags &&& 0xFE00 ||| mode) &&& 0o777 = mode := by
  have hrest : flags &&& 0xFE00 &&& 0o777 = 0 := by
    rw [Nat.and_assoc, show (0xFE00 &&& 0o777 : ℕ) = 0 by decide, Nat.and_zero]
  rw [Nat.and_or_distrib_right, hrest, Nat.zero_or, and_mask_of_le h]

/-- A stored mode of zero is not read back. -/
theorem entryMode_eq_iff {entry : FsEntry} (h : entry.flags &&& 0o777 = mode) :
    entryMode entry = mode ↔ mode ≠ 0 := by
  rw [entryMode, h]
  by_cases hzero : mode = 0
  · subst hzero
    simp only [ne_eq, not_true_eq_false, if_false, iff_false]
    split
    · decide
    · decide
  · simp only [ne_eq, hzero, not_false_eq_true, if_true]

/-! ### The entry of a name -/

/-- **The meaning of a mode** is what `entry_mode` gives. -/
theorem meansMode_iff (hmounted : v.mounted = true) (hvalid : validName name = true)
    (hfind : findEntry v name = some index) :
    MeansMode v name mode ↔ entryMode (v.entries index) = mode := by
  have hinfo : (fsPathInfo v name false).map FsFileInfo.flags = some (entryMode (v.entries index)) := by
    rw [fsPathInfo, hmounted, hvalid, hfind]
    rfl
  constructor
  · rintro ⟨_, -, hreported, -⟩
    rw [hinfo] at hreported
    exact Option.some.inj hreported
  · intro hmode
    refine ⟨index, hfind, by rw [hinfo, hmode], fun w => ?_⟩
    simp only [mayRead, mayWrite, fsSetIdentity, Bool.false_eq_true, if_false, hmode]
    constructor
    · rw [← and_two_pow_ne_zero, ← and_two_pow_ne_zero]
      rfl
    · rw [← and_two_pow_ne_zero, ← and_two_pow_ne_zero]
      rfl

theorem saveEntry_disk (h : saveEntry v index = (true, v')) : ∃ disk, v' = { v with disk := disk } := by
  rw [saveEntry] at h
  split at h
  · cases h
  · split at h
    · cases h
    · cases h
      exact ⟨_, rfl⟩

/-- The entry of a name is found by what is used and by the names. -/
theorem findEntry_congr (h : ∀ j, (v'.entries j).used = (v.entries j).used ∧
    (v'.entries j).name = (v.entries j).name) : findEntry v' name = findEntry v name := by
  have hsame : (fun j => (v'.entries j).used && (v'.entries j).name == name) =
      fun j => (v.entries j).used && (v.entries j).name == name := by
    funext j
    rw [(h j).1, (h j).2]
  rw [findEntry, findEntry, hsame]

theorem findEntry_setEntry {entry : FsEntry} (hnone : findEntry v name = none) (hindex : index < 1024)
    (hused : entry.used = true) (hname : entry.name = name) :
    findEntry (v.setEntry index entry) name = some index := by
  have hself := v.setEntry_self index entry
  cases hfind : findEntry (v.setEntry index entry) name with
  | none =>
    have hne := findEntry_none hfind hindex (by rw [hself, hused])
    rw [hself] at hne
    exact absurd hname hne
  | some j =>
    obtain ⟨hj, hju, hjname⟩ := findEntry_some hfind
    by_cases hji : j = index
    · rw [hji]
    · rw [v.setEntry_of_ne entry hji] at hju hjname
      exact absurd hjname (findEntry_none hnone hj hju)

/-! ### The calls -/

theorem fsChmod_means (h : fsChmod v name mode = (true, v')) : MeansMode v' name mode ↔ mode ≠ 0 := by
  rw [fsChmod] at h
  split at h
  · cases h
  rename_i hguard
  simp only [Bool.or_eq_true, Bool.not_eq_true', decide_eq_true_eq, not_or, Bool.not_eq_false] at hguard
  obtain ⟨⟨hmounted, hvalid⟩, hmode⟩ := hguard
  split at h
  · cases h
  · rename_i index hfind
    split at h
    · cases h
    obtain ⟨disk, rfl⟩ := saveEntry_disk h
    generalize hentry : { v.entries index with flags := (v.entries index).flags &&& 0xFE00 ||| mode } =
      entry
    have hself := v.setEntry_self index entry
    have hfind' : findEntry { v.setEntry index entry with disk := disk } name = some index := by
      rw [← hfind]
      refine findEntry_congr fun j => ?_
      by_cases hj : j = index
      · rw [hj, hself, ← hentry]
        exact ⟨rfl, rfl⟩
      · rw [v.setEntry_of_ne entry hj]
        exact ⟨rfl, rfl⟩
    rw [meansMode_iff (v := { v.setEntry index entry with disk := disk }) hmounted hvalid hfind']
    rw [hself, ← hentry]
    exact entryMode_eq_iff (chmod_flags _ (by omega))

theorem fsMkdir_means (h : fsMkdir v name mode = (true, v')) : MeansMode v' name mode ↔ mode ≠ 0 := by
  rw [fsMkdir] at h
  split at h
  · cases h
  rename_i hguard
  simp only [Bool.or_eq_true, Bool.not_eq_true', decide_eq_true_eq, not_or, Bool.not_eq_false] at hguard
  obtain ⟨⟨hmounted, hvalid⟩, hmode⟩ := hguard
  -- a zero is replaced before it is stored
  generalize hstored : (if mode ≠ 0 then mode else 0o777) = stored at h
  have hbits : stored &&& 0o777 = stored := by
    refine and_mask_of_le ?_
    rw [← hstored]
    split
    · omega
    · decide
  obtain hrefused | ⟨index, hindex, -, -, hnone, -, hmade⟩ :=
    allocateEntry_outcome v name .directory stored
  · rw [hrefused] at h
    cases h
  rw [hmade] at h
  obtain ⟨disk, rfl⟩ := saveEntry_disk h
  have hname : (newEntry v name .directory stored).name = name :=
    List.take_of_length_le (validName_length hvalid)
  have hfind : findEntry { v.setEntry index (newEntry v name .directory stored) with disk := disk }
      name = some index := findEntry_setEntry hnone hindex rfl hname
  rw [meansMode_iff (v := { v.setEntry index (newEntry v name .directory stored) with disk := disk })
    hmounted hvalid hfind]
  rw [v.setEntry_self]
  have hkept : entryMode (newEntry v name .directory stored) = stored := by
    refine (entryMode_eq_iff ?_).2 ?_
    · show stored &&& 0o777 &&& 0o777 = stored
      rw [hbits, hbits]
    · rw [← hstored]
      split
      · assumption
      · decide
  rw [hkept, ← hstored]
  by_cases hzero : mode = 0
  · rw [hzero]
    decide
  · simp only [ne_eq, hzero, not_false_eq_true, if_true]

/-- **`fs_chmod` and `fs_mkdir` mean what they say** exactly for modes other than zero. -/
theorem mode_means_iff (v v' : Volume) (name : Name) (mode : ℕ)
    (h : fsChmod v name mode = (true, v') ∨ fsMkdir v name mode = (true, v')) :
    MeansMode v' name mode ↔ mode ≠ 0 := by
  rcases h with h | h
  · exact fsChmod_means h
  · exact fsMkdir_means h

/-- A directory `a` that its owner may change, on a new volume. -/
def openDirectory : Volume := (fsMkdir (formatted 5000 fun _ _ => 0) [97] 0o755).2

theorem mode_means_private : MeansMode (fsChmod openDirectory [97] 0o700).2 [97] 0o700 := by
  have hdone : (fsChmod openDirectory [97] 0o700).1 = true := by decide +kernel
  have he : fsChmod openDirectory [97] 0o700 = (true, (fsChmod openDirectory [97] 0o700).2) := by
    rw [← hdone]
  exact (mode_means_iff openDirectory _ [97] 0o700 (.inl he)).2 (by decide)

/-- **`chmod 000` opens the directory to everybody.** -/
theorem chmod_zero_opens :
    let call := fsChmod openDirectory [97] 0
    call.1 = true ∧ (fsPathInfo call.2 [97] false).map FsFileInfo.flags = some 0o777 ∧
      (∀ index, findEntry call.2 [97] = some index → (call.2.entries index).owner = 0 ∧
        mayWrite (fsSetIdentity openDirectory 7 false) (openDirectory.entries index) = false ∧
        mayWrite (fsSetIdentity call.2 7 false) (call.2.entries index) = true) ∧
      ¬ MeansMode call.2 [97] 0 := by
  intro call
  have hdone : call.1 = true := by decide +kernel
  have hfind : findEntry call.2 [97] = some 0 := by decide +kernel
  have he : fsChmod openDirectory [97] 0 = (true, call.2) := by rw [← hdone]
  refine ⟨hdone, by decide +kernel, fun index hindex => ?_, fun hmeans => ?_⟩
  · obtain rfl : 0 = index := Option.some.inj (hfind.symm.trans hindex)
    decide +kernel
  · exact (fsChmod_means he).1 hmeans rfl

end NovaOS.Fs
