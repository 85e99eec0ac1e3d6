import NovaOS.Fs.Refinement

/-!
# Failed writes

A write that fails should lose nothing.  `write_entry_data` enters a new extent in the table before
it compares the extent with the end of the disk, and `allocate_entry` leaves a new entry behind when
the write that wanted it does not fit; `fs_write_at`, which tests the fit of a moved file first, has
the same fault for new files, and a size that wraps in `(new_size + 511) / 512` passes for one
sector.

`Safe` excludes exactly these calls: what a call that is not refused at once writes fits where the call
puts it, and the end of a positioned write is not in the last 511 values of the 64-bit word.  In a run of
safe calls every call that fails leaves the volume as it was (`failed_call_keeps`).
-/

set_option maxRecDepth 2000

namespace NovaOS.Fs

/-- The table is unchanged, and every later read returns what it would have returned. -/
def LosesNothing (v v' : Volume) : Prop :=
  v'.entries = v.entries ∧
    ∀ later name capacity, fsRead (v'.run later) name capacity = fsRead (v.run later) name capacity

/-- An entry that the caller may not write. -/
def rejects (v : Volume) (index : ℕ) : Bool :=
  (v.entries index).type ≠ .file || !mayWrite v (v.entries index)

/-- A write to `name` is refused: it cannot be made, or it leads to nothing that may be written. -/
def NameRefused (v : Volume) (name : Name) : Prop :=
  (!v.mounted || !validName name) = true ∨
    match findEntry v name with
    | none => (allocateEntry v name .file 0o660).1 = none
    | some _ => ∀ index, writeTarget v name = some index → rejects v index = true

/-- The call is refused before it changes anything. -/
def Refused (v : Volume) : FsOp → Prop
  | .write name _ => NameRefused v name
  | .writeAt name offset data => NameRefused v name ∨ (offset + data.length) % 2 ^ 64 < offset
  | .symlink target name => NameRefused v name ∨ validSymlinkTarget target = false ∨
      (findEntry v name).isSome = true
  | _ => False

/-- The call is refused, or what it writes fits and does not round up past the end of the 64-bit
word. -/
def Safe (v : Volume) (op : FsOp) : Prop :=
  Refused v op ∨ Fits v op ∧
    match op with
    | .writeAt _ offset data => offset + data.length + 511 < 2 ^ 64
    | _ => True

/-- A run of safe calls. -/
def Volume.AllSafe (v : Volume) : List FsOp → Prop
  | [] => True
  | op :: ops => Safe v op ∧ (v.step op).2.AllSafe ops

section

variable {v : Volume}

theorem VolumeOk.extentSectors_le (h : VolumeOk v) (name : Name) :
    extentSectors v name ≤ v.totalSectors := by
  rw [extentSectors]
  have hentry : ∀ index, index < 1024 → (v.entries index).used = true →
      (v.entries index).capacitySectors ≤ v.totalSectors := by
    intro index hindex hused
    have := (h.entry index hindex hused).inside
    omega
  cases ht : writeTarget v name with
  | none => exact Nat.zero_le _
  | some index =>
    rw [writeTarget] at ht
    split at ht
    · cases ht
    · rename_i i hf
      by_cases htype : (v.entries i).type = .symlink
      · rw [if_pos htype] at ht
        rcases h.resolveEntry_cases name with ⟨hnone, -⟩ | ⟨j, hsome, hj, hused, -, -⟩
        · rw [hnone] at ht
          cases ht
        · rw [hsome, Option.some.injEq] at ht
          rw [← ht]
          exact hentry j hj hused
      · rw [if_neg htype, Option.some.injEq] at ht
        rw [← ht]
        exact hentry i (findEntry_some hf).1 (findEntry_some hf).2.1

theorem VolumeOk.size_of_fits (h : VolumeOk v) {name : Name} {size : ℕ}
    (hfits : FitsWrite v name size) : size + 511 < 2 ^ 64 := by
  have hext := h.extentSectors_le name
  have hsmall := h.small
  rw [FitsWrite, sectorsOf] at hfits
  omega

/-- Opening a refused name changes nothing, and does not lead to a write. -/
theorem NameRefused.opened (h : VolumeOk v) {name : Name} (href : NameRefused v name)
    (hvalid : ¬ (!v.mounted || !validName name) = true) :
    ∃ found, openWrite v name = (found, v) ∧ openWriteAt v name = (found, v) ∧
      ∀ index, found = some index → rejects v index = true := by
  replace href := href.resolve_left hvalid
  rw [openWrite, openWriteAt]
  cases hf : findEntry v name with
  | none =>
    rw [hf] at href
    rcases allocateEntry_cases h name .file 0o660 with hnone | ⟨index, heq, -⟩
    · rw [hnone]
      exact ⟨none, rfl, rfl, fun _ hno => by cases hno⟩
    · rw [heq] at href
      cases href
  | some index =>
    rw [hf] at href
    refine ⟨writeTarget v name, ?_, ?_, href⟩
    · rw [writeTarget, hf]
      exact (apply_ite (·, v) ..).symm
    · rw [writeTarget, hf]
      exact (apply_ite (·, v) ..).symm

theorem NameRefused.fsWrite (h : VolumeOk v) {name : Name} (href : NameRefused v name)
    (data : List UInt8) : fsWrite v name data = (false, v) := by
  rw [Fs.fsWrite]
  split
  · rfl
  next hvalid =>
  obtain ⟨found, hopen, -, hrejects⟩ := href.opened h hvalid
  rw [hopen]
  cases found with
  | none => rfl
  | some index => exact if_pos (hrejects index rfl)

/-- A refused call changes nothing. -/
theorem Refused.step (h : VolumeOk v) {op : FsOp} (href : Refused v op) : v.step op = (false, v) := by
  cases op with
  | write name data => exact NameRefused.fsWrite h href data
  | writeAt name offset data =>
    rw [Volume.step, fsWriteAt]
    split
    · rfl
    next hvalid =>
    simp only [Bool.or_eq_true, decide_eq_true_eq, not_or] at hvalid
    obtain ⟨found, -, hopen, hrejects⟩ := (href.resolve_right hvalid.2).opened h (by simp [hvalid.1])
    rw [hopen]
    cases found with
    | none => rfl
    | some index => exact if_pos (hrejects index rfl)
  | symlink target name =>
    rw [Volume.step, fsSymlink]
    split
    · rfl
    next hvalid =>
    simp only [Bool.or_eq_true, not_or] at hvalid
    rcases href with hname | htarget | hfound
    · rw [hname.fsWrite h]
    · simp [htarget] at hvalid
    · exact absurd hfound hvalid.2
  | delete | mkdir | chmod | chown | setIdentity => exact href.elim

/-- **A safe call fails without a trace or succeeds.** -/
theorem Safe.step_cases (h : VolumeOk v) {op : FsOp} (hs : Safe v op) :
    v.step op = (false, v) ∨ ∃ v', v.step op = (true, v') ∧ VolumeOk v' := by
  rcases hs with href | hs
  · exact .inl (href.step h)
  have hsized : op.finish + 511 < 2 ^ 64 →
      v.step op = (false, v) ∨ ∃ v', v.step op = (true, v') ∧ VolumeOk v' := by
    intro hlen
    rcases NovaOS.Fs.step_cases h op hlen with hf | ⟨hnot, -⟩ | ⟨v', ht, hr⟩
    · exact .inl hf
    · exact absurd hs.1 hnot
    · exact .inr ⟨v', ht, hr.ok⟩
  cases op with
  | write | symlink => exact hsized (h.size_of_fits hs.1)
  | writeAt => exact hsized hs.2
  | delete | mkdir | chmod | chown | setIdentity => exact hsized (show 0 + 511 < 2 ^ 64 by decide)

theorem VolumeOk.run_safe (h : VolumeOk v) (ops : List FsOp) (hs : v.AllSafe ops) :
    VolumeOk (v.run ops) := by
  induction ops generalizing v with
  | nil => exact h
  | cons op ops ih =>
    obtain ⟨hop, hrest⟩ := hs
    rw [Volume.run]
    rcases hop.step_cases h with hf | ⟨v', ht, hok⟩
    · rw [hf] at hrest ⊢
      exact ih h hrest
    · rw [ht] at hrest ⊢
      exact ih hok hrest

end

/-- **In a run of safe calls a call that fails loses nothing.** -/
theorem failed_call_keeps (total : ℕ) (disk : ℕ → ℕ → UInt8) (hlarge : 4608 + 128 < total)
    (hsmall : total ≤ 0x10000000) (ops : List FsOp) (hsafe : (formatted total disk).AllSafe ops)
    (call : FsOp) (hcall : Safe ((formatted total disk).run ops) call)
    (hfalse : (((formatted total disk).run ops).step call).1 = false) :
    LosesNothing ((formatted total disk).run ops)
      (((formatted total disk).run ops).step call).2 := by
  have hok := (formatted_ok disk hlarge hsmall).1.run_safe ops hsafe
  rcases hcall.step_cases hok with hf | ⟨v', ht, -⟩
  · rw [hf]
    exact ⟨rfl, fun _ _ _ => rfl⟩
  · rw [ht] at hfalse
    cases hfalse

/-- A write to a directory is refused, and nothing changed. -/
theorem failed_call_keeps_directory :
    let v := (formatted 5000 fun _ _ => 7).run [.mkdir [100] 0]
    (v.step (.write [100] [1])).1 = false ∧ LosesNothing v (v.step (.write [100] [1])).2 := by
  intro v
  have hfalse : (v.step (.write [100] [1])).1 = false := by decide +kernel
  have hfits : FitsWrite v [100] 1 := by
    right
    decide +kernel
  exact ⟨hfalse, failed_call_keeps 5000 (fun _ _ => 7) (by decide) (by decide) [.mkdir [100] 0]
    ⟨.inr ⟨trivial, trivial⟩, trivial⟩ (.write [100] [1]) (.inr ⟨hfits, trivial⟩) hfalse⟩

/-- **A write that does not fit leaves a new entry behind**: one byte at offset 2 MiB of a new file
on a disk with 392 free sectors. -/
theorem failed_write_leaves_entry :
    let v := formatted 5000 fun _ _ => 7
    let r := v.step (.writeAt [97] 0x200000 [1])
    r.1 = false ∧ ¬ LosesNothing v r.2 := by
  intro v r
  refine ⟨by decide +kernel, ?_⟩
  intro h
  have hbefore : fsRead v [97] 8 = none := by decide +kernel
  have hafter : fsRead r.2 [97] 8 = some [] := by decide +kernel
  have hsame := h.2 [] [97] 8
  rw [Volume.run, Volume.run, hbefore, hafter] at hsame
  cases hsame

end NovaOS.Fs
