import NovaOS.Fs.Invariant

/-!
# Saving, finding and making entries

On a volume that meets `VolumeOk` the sectors of an extent are always on the disk.

* `saveEntry_eq`, `VolumeOk.saved` — a call that changes one entry and writes it to the directory;
* `allocateEntry_outcome`, `allocateEntry_cases` — a new entry;
* `requiredSectors_spec`, `fillExtent_eq` — the sectors of a file, and a positioned write inside them.
-/

-- `omega` multiplies constraints by the sector size
set_option maxRecDepth 2000

namespace NovaOS.Fs

open List Nat

theorem Volume.setEntry_setEntry (v : Volume) (index : ℕ) (e e' : FsEntry)
    (disk : ℕ → ℕ → UInt8) :
    { v.setEntry index e with disk := disk }.setEntry index e' =
      { v.setEntry index e' with disk := disk } := by
  simp only [Volume.setEntry, Function.update_idem]

theorem Becomes.trans {v v₁ v₂ : Volume} {index : ℕ} {s₁ s₂ : Option (Name × Node)}
    (h₁ : Becomes v v₁ index s₁) (h₂ : Becomes v₁ v₂ index s₂) : Becomes v v₂ index s₂ where
  ok := h₂.ok
  inTable := h₂.inTable
  self := h₂.self
  others := fun j hj hjj => (h₂.others j hj hjj).trans (h₁.others j hj hjj)
  uid := h₂.uid.trans h₁.uid
  privileged := h₂.privileged.trans h₁.privileged

/-! ### Saving an entry -/

/-- A directory write succeeds and stays below the data area. -/
theorem saveEntry_eq (v : Volume) {index : ℕ} (hlarge : 4608 + 128 < v.totalSectors)
    (hsmall : v.totalSectors ≤ 0x10000000) (hindex : index < 1024) :
    ∃ disk', saveEntry v index = (true, { v with disk := disk' }) ∧
      ∀ i, 4608 * 512 ≤ i → flat 512 disk' i = flat 512 v.disk i := by
  rw [saveEntry, ataReadSector_eq (by omega) hsmall]
  simp only
  rw [ataWriteSector_eq (by omega) hsmall]
  refine ⟨_, rfl, ?_⟩
  intro i hi
  rw [flat_update_block (by omega), splice_of_outside (by omega)]

namespace VolumeOk

variable {v : Volume} {index : ℕ} {e : FsEntry} {disk' : ℕ → ℕ → UInt8}

theorem saved (h : VolumeOk v) (e : FsEntry) (disk' : ℕ → ℕ → UInt8) (hindex : index < 1024)
    (hused : e.used = true)
    (hentry : EntryOk v.totalSectors e)
    (hname : ∀ j, j < 1024 → j ≠ index → (v.entries j).used = true → (v.entries j).name ≠ e.name)
    (hapart : ∀ j, j < 1024 → j ≠ index → (v.entries j).used = true → Apart e (v.entries j))
    (hdisk : Outside v.disk disk' e) :
    ∃ v', saveEntry { v.setEntry index e with disk := disk' } index = (true, v') ∧
      Becomes v v' index (some (e.name, nodeOf disk' e)) := by
  obtain ⟨disk₂, hsave, hsame⟩ := saveEntry_eq { v.setEntry index e with disk := disk' } h.large
    h.small hindex
  refine ⟨_, hsave, ?_⟩
  have hnode : nodeOf disk₂ e = nodeOf disk' e := by
    apply hentry.nodeOf_congr
    intro i hi
    have hlow := hentry.low (by omega)
    exact hsame _ (by omega)
  rw [← hnode]
  apply h.becomes e disk₂ hindex hused hentry hname hapart
  intro i hi hout
  exact (hsame i hi).trans (hdisk i hi hout)

theorem name_ne (h : VolumeOk v) (hindex : index < 1024) (hused : (v.entries index).used = true)
    (j : ℕ) (hj : j < 1024) (hne : j ≠ index) (hu : (v.entries j).used = true) :
    (v.entries j).name ≠ (v.entries index).name :=
  fun hname => hne (h.names j index hj hindex hu hused hname)

/-- A change to the header of an entry, saved. -/
theorem savedHeader (h : VolumeOk v) (hindex : index < 1024)
    (hused : (v.entries index).used = true) (heused : e.used = true)
    (hname : e.name = (v.entries index).name) (hflags : e.flags < 512)
    (hstart : e.startLba = (v.entries index).startLba)
    (hcap : e.capacitySectors = (v.entries index).capacitySectors)
    (hsize : e.size = (v.entries index).size) :
    ∃ v', saveEntry (v.setEntry index e) index = (true, v') ∧
      Becomes v v' index (some (e.name, nodeOf v.disk e)) := by
  have hold := h.entry index hindex hused
  have hentry : EntryOk v.totalSectors e :=
    ⟨by rw [hname]; exact hold.name, hflags, by rw [hcap, hstart]; exact hold.low,
      by rw [hcap, hstart]; exact hold.inside, by rw [hcap, hsize]; exact hold.size⟩
  apply h.saved e v.disk hindex heused hentry
  · intro j hj hne hu
    rw [hname]
    exact h.name_ne hindex hused j hj hne hu
  · intro j hj hne hu he hj'
    rw [hstart, hcap]
    rw [hcap] at he
    exact h.apart index j hindex hj (Ne.symm hne) hused hu he hj'
  · intro i _ _
    rfl

end VolumeOk

/-! ### Finding entries -/

theorem findEntry_some {v : Volume} {name : Name} {index : ℕ} (h : findEntry v name = some index) :
    index < 1024 ∧ (v.entries index).used = true ∧ (v.entries index).name = name := by
  have hp := List.find?_some h
  have hm := mem_of_find?_eq_some h
  rw [Bool.and_eq_true, beq_iff_eq] at hp
  exact ⟨(mem_range'_1.1 hm).2, hp.1, hp.2⟩

theorem findEntry_none {v : Volume} {name : Name} (h : findEntry v name = none) {j : ℕ}
    (hj : j < 1024) (hu : (v.entries j).used = true) : (v.entries j).name ≠ name := by
  intro hname
  have hp := List.find?_eq_none.1 h j (mem_range'_1.2 ⟨zero_le j, by omega⟩)
  rw [hu, hname, Bool.true_and, beq_self_eq_true] at hp
  exact hp rfl

theorem VolumeOk.findEntry_eq {v : Volume} (h : VolumeOk v) {index : ℕ} (hindex : index < 1024)
    (hused : (v.entries index).used = true) :
    findEntry v (v.entries index).name = some index := by
  cases hf : findEntry v (v.entries index).name with
  | none => exact absurd rfl (findEntry_none hf hindex hused)
  | some i =>
    obtain ⟨hi, hu, hname⟩ := findEntry_some hf
    rw [h.names i index hi hindex hu hused hname]

theorem validName_length {name : Name} (h : validName name = true) : name.length ≤ 95 := by
  rw [validName] at h
  split at h
  · exact absurd h Bool.false_ne_true
  · rename_i hn
    simp only [Bool.or_eq_true, decide_eq_true_eq] at hn
    omega

/-- `allocate_entry` refuses, or adds a name. -/
theorem allocateEntry_outcome (v : Volume) (name : Name) (type : FsType) (mode : ℕ) :
    allocateEntry v name type mode = (none, v) ∨
    ∃ index, index < 1024 ∧ (v.entries index).used = false ∧ validName name = true ∧
      findEntry v name = none ∧ parentDirectoryExists v name = true ∧
      allocateEntry v name type mode = (some index, v.setEntry index (newEntry v name type mode)) := by
  rw [allocateEntry]
  split
  · exact .inl rfl
  rename_i hgood
  simp only [Bool.or_eq_true, not_or, Bool.not_eq_true', Bool.not_eq_false,
    Option.not_isSome_iff_eq_none] at hgood
  split
  · exact .inl rfl
  · rename_i index hslot
    have hunused := List.find?_some hslot
    rw [Bool.not_eq_true'] at hunused
    exact .inr ⟨index, (mem_range'_1.1 (mem_of_find?_eq_some hslot)).2, hunused, hgood.1.1,
      hgood.1.2, hgood.2, rfl⟩

/-- A new entry is empty, under a valid name that no other entry has; so it stays when it is saved. -/
theorem allocateEntry_cases {v : Volume} (h : VolumeOk v) (name : Name) (type : FsType)
    (mode : ℕ) :
    allocateEntry v name type mode = (none, v) ∨
      ∃ index, allocateEntry v name type mode =
          (some index, v.setEntry index (newEntry v name type mode)) ∧ index < 1024 ∧
        (v.entries index).used = false ∧
        ∀ disk, (∀ i, 4608 * 512 ≤ i → flat 512 disk i = flat 512 v.disk i) →
          Becomes v { v.setEntry index (newEntry v name type mode) with disk := disk } index
            (some (name, ⟨type, mode &&& 0o777, v.currentUid, []⟩)) := by
  obtain hrefused | ⟨index, hindex, hunused, hvalid, hnone, -, hmade⟩ :=
    allocateEntry_outcome v name type mode
  · exact .inl hrefused
  have hname : (newEntry v name type mode).name = name := take_of_length_le (validName_length hvalid)
  refine .inr ⟨index, hmade, hindex, hunused, fun disk hdisk => ?_⟩
  have hb := h.becomes (newEntry v name type mode) disk hindex rfl
    ⟨by rw [hname]; exact hvalid, and_lt_two_pow mode (show 0o777 < 2 ^ 9 by decide),
      fun hpos => absurd hpos (lt_irrefl 0), zero_le _, zero_le _⟩
    (fun j hj _ hu => by rw [hname]; exact findEntry_none hnone hj hu)
    (fun j _ _ _ hpos => absurd hpos (lt_irrefl 0)) (fun i hi _ => hdisk i hi)
  rw [hname] at hb
  exact hb

/-! ### Free space -/

theorem foldl_next (v : Volume) (l : List ℕ) (start : ℕ) :
    let next := l.foldl (fun next index =>
      if !(v.entries index).used then next
      else
        let finish := (v.entries index).startLba + (v.entries index).capacitySectors
        if finish > next && finish ≤ 0xFFFFFFFF then finish else next) start
    start ≤ next ∧ ∀ i ∈ l, (v.entries i).used = true →
      (v.entries i).startLba + (v.entries i).capacitySectors ≤ 0xFFFFFFFF →
      (v.entries i).startLba + (v.entries i).capacitySectors ≤ next := by
  induction l generalizing start with
  | nil => exact ⟨le_refl _, nofun⟩
  | cons a l ih =>
    simp only [foldl_cons]
    generalize hnext : (if (!(v.entries a).used) = true then start
      else if (decide ((v.entries a).startLba + (v.entries a).capacitySectors > start) &&
        decide ((v.entries a).startLba + (v.entries a).capacitySectors ≤ 0xFFFFFFFF)) = true then
        (v.entries a).startLba + (v.entries a).capacitySectors else start) = next
    have hstep : start ≤ next ∧ ((v.entries a).used = true →
        (v.entries a).startLba + (v.entries a).capacitySectors ≤ 0xFFFFFFFF →
        (v.entries a).startLba + (v.entries a).capacitySectors ≤ next) := by
      rw [← hnext]
      cases hu : (v.entries a).used with
      | false => exact ⟨le_refl _, nofun⟩
      | true =>
        simp only [Bool.not_true, Bool.false_eq_true, if_false, Bool.and_eq_true, decide_eq_true_eq]
        split <;> omega
    obtain ⟨hle, hall⟩ := ih next
    refine ⟨le_trans hstep.1 hle, ?_⟩
    intro i hi hu hfin
    rcases mem_cons.1 hi with rfl | hi
    · exact le_trans (hstep.2 hu hfin) hle
    · exact hall i hi hu hfin

theorem one_le_requiredSectors (size : ℕ) : 1 ≤ requiredSectors size := by
  rw [requiredSectors]
  split <;> omega

theorem requiredSectors_spec {size : ℕ} (h : size + 511 < 2 ^ 64) :
    1 ≤ requiredSectors size ∧ size ≤ requiredSectors size * 512 ∧
      requiredSectors size = max 1 ((size + 511) / 512) := by
  rw [requiredSectors, mod_eq_of_lt h]
  split <;> omega

/-! ### Whole files -/

section Writes

variable {v : Volume} {index : ℕ}

/-- The entry that a write of `size` bytes leaves. -/
def written (e : FsEntry) (size : ℕ) : FsEntry :=
  { e with size := size, modified := (e.modified + 1) % 2 ^ 32 }

/-- **Inside its extent a positioned write overwrites the content**, and changes nothing else. -/
theorem fillExtent_eq (hsmall : v.totalSectors ≤ 0x10000000)
    (hin : (v.entries index).startLba + (v.entries index).capacitySectors ≤ v.totalSectors)
    (offset : ℕ) (data : List UInt8)
    (hfit : offset + data.length ≤ (v.entries index).capacitySectors * 512) :
    ∃ disk', fillExtent v index offset data = (true, { v with disk := disk' }) ∧
      VolumeOk.Outside v.disk disk' (v.entries index) ∧
      readBytes (flat 512 disk') ((v.entries index).startLba * 512)
        (max (offset + data.length) (v.entries index).size) =
        overwrite (fileBytes v.disk (v.entries index)) offset data := by
  rw [fillExtent, fileBytes]
  unfold VolumeOk.Outside
  generalize (v.entries index).startLba = start at hin ⊢
  generalize (v.entries index).capacitySectors = capacity at hin hfit ⊢
  generalize (v.entries index).size = size
  obtain ⟨disk₁, hgap, hflat₁⟩ := zeroGap_eq start hsmall offset (offset - size) size
    v.disk (le_refl _) (by omega)
  obtain ⟨disk₂, hcopy, hflat₂⟩ := copyData_eq start hsmall size data.length offset
    data disk₁ (le_refl _) (by omega) (by
      right; right
      intro x hx hlt
      rw [hflat₁, splice_of_inside (by omega) (by omega)])
  refine ⟨disk₂, ?_, ?_, ?_⟩
  · simp only [hgap, hcopy]
  · intro i _ hout
    rw [hflat₂, splice_of_outside (by omega), hflat₁, splice_of_outside (by omega)]
  · apply ext_getD
    · rw [length_readBytes, length_overwrite, length_readBytes]
    · intro i hi
      rw [length_overwrite, length_readBytes] at hi
      rw [getD_readBytes hi, getD_overwrite, hflat₂]
      split
      · rw [splice_of_inside (by omega) (by omega),
          show start * 512 + i - (start * 512 + offset) = i - offset by omega]
      · rw [splice_of_outside (by omega), hflat₁]
        by_cases hzero : size ≤ i
        · rw [splice_of_inside (by omega) (by omega),
            getD_eq_default _ _ (by rw [length_readBytes]; exact hzero)]
        · rw [splice_of_outside (by omega), getD_readBytes (by omega)]

end Writes

end NovaOS.Fs
