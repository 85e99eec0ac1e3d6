import NovaOS.Vm.Steps

/-!
# Copy-on-write cloning

`vm_space_clone_cow` works on two spaces at once: it enters a record for every page of the source
into a new space and marks the private writable pages of the source.  `PairOk` is the invariant of
two spaces in one memory, each being part of the other's environment.

The loop invariant `Cloning` says how far it got: records below `k` are marked in the source and
present in the destination, records from `k` on are as they were.

* `vmSpaceCloneCow_spec` — on success both spaces are well formed and the destination has, page by
  page, the clone of the source's record; on failure the destination is gone and the source lost
  nothing.
-/

namespace NovaOS.Vm

open Function

variable {ext : ℕ → ℕ} {E : ℕ → Prop} {d d' s s' s₀ : VmSpace} {m m' : Memory} {e k : ℕ}

/-! ### Two spaces in one memory -/

/-- Both spaces are well formed, each with the other in its environment. -/
structure PairOk (ext : ℕ → ℕ) (E : ℕ → Prop) (d s : VmSpace) (m : Memory) : Prop where
  left : SpaceOk (fun f => refsIn s f + ext f) (fun p => ownsBlock s p ∨ E p) d m
  right : SpaceOk (fun f => refsIn d f + ext f) (fun p => ownsBlock d p ∨ E p) s m

theorem PairOk.symm (h : PairOk ext E d s m) : PairOk ext E s d m := ⟨h.right, h.left⟩

theorem MemoryOk.congr {total total' : ℕ → ℕ} {owned owned' : ℕ → Prop} (h : MemoryOk total owned m)
    (ht : ∀ f, total' f = total f) (ho : ∀ p, owned' p ↔ owned p) : MemoryOk total' owned' m := by
  rw [show total' = total from funext ht, show owned' = owned from funext fun p => propext (ho p)]
  exact h

/-- An operation on the left space that keeps what it owes its environment. -/
theorem PairOk.step (h : PairOk ext E d s m)
    (hok : SpaceOk (fun f => refsIn s f + ext f) (fun p => ownsBlock s p ∨ E p) d' m')
    (hkept : Kept (fun f => refsIn s f + ext f) (fun p => ownsBlock s p ∨ E p) m m') :
    PairOk ext E d' s m' := by
  refine ⟨hok, h.right.transfer ?_ ?_ (fun p n hp => hkept.blocks p n (.inl hp))
    fun f hf => hkept.data f (by omega)⟩
  · exact hok.heap.memory.congr (fun f => by omega) fun p => by tauto
  · rintro p hp (hd | he)
    · exact hok.heap.apart p hd (.inl hp)
    · exact h.right.heap.apart p hp (.inr he)

/-! ### How far the loop got -/

/-- The private writable pages are the ones that become copy-on-write. -/
def becomesCow (page : VmPage) : Bool := !page.shared && canWrite page.protection

/-- The source's record after the loop passed it. -/
def markPage (page : VmPage) : VmPage :=
  if becomesCow page then { page with copyOnWrite := true } else page

/-- The destination's record. -/
def clonePage (page : VmPage) : VmPage := { page with copyOnWrite := becomesCow page }

theorem markPage_virtualAddress (page : VmPage) :
    (markPage page).virtualAddress = page.virtualAddress := by
  unfold markPage; split <;> rfl

theorem markPage_frame (page : VmPage) : (markPage page).frame = page.frame := by
  unfold markPage; split <;> rfl

theorem markPage_used (page : VmPage) : (markPage page).used = page.used := by
  unfold markPage; split <;> rfl

/-- Records below `k` are done. -/
structure Cloning (s₀ : VmSpace) (k : ℕ) (d s : VmSpace) : Prop where
  source : ∀ e, s.pages e = if e < k ∧ UsedRecord s₀ e then markPage (s₀.pages e) else s₀.pages e
  target : ∀ b q, pageAt d b = some q ↔
    ∃ e, e < k ∧ UsedRecord s₀ e ∧ (s₀.pages e).virtualAddress = alignDown b ∧
      q = clonePage (s₀.pages e)

section

variable (h : Cloning s₀ k d s)

include h

theorem Cloning.used (e : ℕ) : UsedRecord s e ↔ UsedRecord s₀ e := by
  unfold UsedRecord
  rw [h.source e]
  split
  · rw [markPage_used]
  · rfl

theorem Cloning.virtualAddress (e : ℕ) :
    (s.pages e).virtualAddress = (s₀.pages e).virtualAddress := by
  rw [h.source e]
  split
  · exact markPage_virtualAddress _
  · rfl

theorem Cloning.frame (e : ℕ) : (s.pages e).frame = (s₀.pages e).frame := by
  rw [h.source e]
  split
  · exact markPage_frame _
  · rfl

theorem Cloning.refs : refsIn s = refsIn s₀ := by
  funext f
  refine countBelow_congr fun i _ => ?_
  have hu : (s.pages i).used = (s₀.pages i).used := by
    rw [h.source i]
    split
    · exact markPage_used _
    · rfl
  rw [pointsAt, pointsAt, hu, h.frame]

/-- The source's map, page by page, as far as the loop got. -/
theorem Cloning.pageAt_source (h₀ : RecordsOk s₀) (hs : RecordsOk s) (b : ℕ) :
    pageAt s b = pageAt s₀ b ∨ pageAt s b = (pageAt s₀ b).map markPage := by
  cases hp : pageAt s₀ b with
  | none =>
    refine .inl ?_
    cases hq : pageAt s b with
    | none => rfl
    | some q =>
      obtain ⟨e, hu, rfl, hva⟩ := (pageAt_iff hs).1 hq
      rw [h.virtualAddress] at hva
      rw [(pageAt_iff h₀).2 ⟨e, (h.used e).1 hu, rfl, hva⟩] at hp
      simp at hp
  | some p =>
    obtain ⟨e, hu, rfl, hva⟩ := (pageAt_iff h₀).1 hp
    have hs' : pageAt s b = some (s.pages e) :=
      (pageAt_iff hs).2 ⟨e, (h.used e).2 hu, rfl, by rw [h.virtualAddress]; exact hva⟩
    rw [hs', h.source e]
    split
    · exact .inr rfl
    · exact .inl rfl

end

/-! ### One round -/

/-- Destroying the left space leaves the right one as it was. -/
theorem PairOk.destroy (h : PairOk ext E d s m) :
    ∃ m', vmSpaceDestroy d m = (VmSpace.zero, m') ∧ SpaceOk ext E s m' ∧
      Quiet (fun f => 0 < refsIn s f + ext f) m m' ∧
      ∀ p n, E p → (p, n) ∈ m.blocks → (p, n) ∈ m'.blocks := by
  obtain ⟨m', hd, hmem, hkept, hbytes⟩ := vmSpaceDestroy_spec h.left
  refine ⟨m', hd, h.right.transfer hmem (fun p hp he => h.right.heap.apart p hp (.inr he))
    (fun p n hp => hkept.blocks p n (.inl hp)) fun f hf => hkept.data f (by omega),
    ⟨hkept.data, fun f _ => by rw [hbytes]⟩, fun p n hp => hkept.blocks p n (.inr hp)⟩

theorem Cloning.free (h : Cloning s₀ k d s) (h₀ : RecordsOk s₀)
    (hu : UsedRecord s₀ k) : findPage d (s₀.pages k).virtualAddress = none := by
  have hnone : pageAt d (s₀.pages k).virtualAddress = none := by
    cases hq : pageAt d (s₀.pages k).virtualAddress with
    | none => rfl
    | some q =>
      obtain ⟨e, he, hue, hva, _⟩ := (h.target _ q).1 hq
      rw [alignDown_eq (h₀.aligned k hu).1] at hva
      have := h₀.distinct e k hue hu hva
      omega
  rwa [pageAt, Option.map_eq_none_iff] at hnone

theorem Cloning.skip (h : Cloning s₀ k d s) (hu : ¬ UsedRecord s₀ k) : Cloning s₀ (k + 1) d s := by
  refine ⟨fun e => ?_, fun b q => ?_⟩
  · rw [h.source e]
    by_cases he : e = k
    · subst he; simp [hu]
    · simp only [show e < k + 1 ↔ e < k by omega]
  · rw [h.target]
    constructor
    · rintro ⟨e, he, hrest⟩
      exact ⟨e, by omega, hrest⟩
    · rintro ⟨e, he, hue, hrest⟩
      refine ⟨e, ?_, hue, hrest⟩
      have : e ≠ k := by rintro rfl; exact hu hue
      omega

theorem Cloning.next (h : Cloning s₀ k d s) (hu : UsedRecord s₀ k)
    (hs' : s'.pages = update s.pages k (markPage (s₀.pages k)))
    (hd' : ∀ b, pageAt d' b = if alignDown b = (s₀.pages k).virtualAddress then
      some (clonePage (s₀.pages k)) else pageAt d b)
    (hfree : ∀ b, alignDown b = (s₀.pages k).virtualAddress → pageAt d b = none) :
    Cloning s₀ (k + 1) d' s' := by
  refine ⟨fun e => ?_, fun b q => ?_⟩
  · rw [hs']
    by_cases he : e = k
    · subst he
      rw [update_self, if_pos ⟨by omega, hu⟩]
    · rw [update_of_ne he, h.source e]
      simp only [show e < k + 1 ↔ e < k by omega]
  · rw [hd']
    constructor
    · intro hq
      split at hq
      · rename_i hb
        exact ⟨k, by omega, hu, hb.symm, (Option.some.inj hq).symm⟩
      · obtain ⟨e, he, hrest⟩ := (h.target b q).1 hq
        exact ⟨e, by omega, hrest⟩
    · rintro ⟨e, he, hue, hva, rfl⟩
      by_cases hek : e = k
      · subst hek
        rw [if_pos hva.symm]
      · have hq := (h.target b _).2 ⟨e, by omega, hue, hva, rfl⟩
        rw [if_neg, hq]
        intro hb
        rw [hfree b hb] at hq
        simp at hq

theorem Cloning.free_page (h : Cloning s₀ k d s) (h₀ : RecordsOk s₀) (hu : UsedRecord s₀ k) (b : ℕ)
    (hb : alignDown b = (s₀.pages k).virtualAddress) : pageAt d b = none := by
  rw [← pageAt_alignDown, hb, pageAt, h.free h₀ hu]
  rfl

/-- What the loop has kept of memory since it started. -/
structure CloneKept (ext : ℕ → ℕ) (E : ℕ → Prop) (s₀ : VmSpace) (m m' : Memory) : Prop where
  quiet : Quiet (fun f => 0 < refsIn s₀ f + ext f) m m'
  blocks : ∀ p n, E p → (p, n) ∈ m.blocks → (p, n) ∈ m'.blocks

theorem CloneKept.refl (ext : ℕ → ℕ) (E : ℕ → Prop) (s₀ : VmSpace) (m : Memory) :
    CloneKept ext E s₀ m m :=
  ⟨Quiet.refl _ m, fun _ _ _ hb => hb⟩

theorem CloneKept.trans {m₁ m₂ m₃ : Memory} (h : CloneKept ext E s₀ m₁ m₂)
    (h' : CloneKept ext E s₀ m₂ m₃) : CloneKept ext E s₀ m₁ m₃ :=
  ⟨h.quiet.trans h'.quiet, fun p n hp hb => h'.blocks p n hp (h.blocks p n hp hb)⟩

/-- Entering the clone of a used record into the destination, or destroying it. -/
theorem cloneInstall_spec (h : PairOk ext E d s m) (hc : Cloning s₀ k d s) (h₀ : RecordsOk s₀)
    (hu : UsedRecord s₀ k) :
    (∃ d' m', installPage d (s₀.pages k).virtualAddress (s₀.pages k).frame (s₀.pages k).protection
        (becomesCow (s₀.pages k)) (s₀.pages k).shared
        (vmFrameRetain (s₀.pages k).frame m) = (true, d', m') ∧
      PairOk ext E d' s m' ∧ CloneKept ext E s₀ m m' ∧
      ∀ b, pageAt d' b = if alignDown b = (s₀.pages k).virtualAddress then
        some (clonePage (s₀.pages k)) else pageAt d b) ∨
    (∃ d' m', installPage d (s₀.pages k).virtualAddress (s₀.pages k).frame (s₀.pages k).protection
        (becomesCow (s₀.pages k)) (s₀.pages k).shared
        (vmFrameRetain (s₀.pages k).frame m) = (false, d', m') ∧
      PairOk ext E d' s (vmFrameRelease (s₀.pages k).frame m') ∧
      CloneKept ext E s₀ m (vmFrameRelease (s₀.pages k).frame m')) := by
  obtain ⟨halign, hcanon⟩ := h₀.aligned k hu
  have hpos : 0 < refsIn s (s₀.pages k).frame := by
    rw [hc.refs]
    exact refsIn_pos hu
  have hret := h.left.retain (f := (s₀.pages k).frame) (by omega)
  have hfree := hc.free h₀ hu
  have hlive : ∀ f, 0 < refsIn s₀ f + ext f → 0 < refsIn d f + (refsIn s f + ext f) := by
    intro f hf
    rw [hc.refs]
    omega
  rcases installPage_spec hret halign hcanon hfree (s₀.pages k).protection
      (becomesCow (s₀.pages k)) (s₀.pages k).shared with
    ⟨d', m2, hin, hok, hsame, hb, hrefs, hat⟩ | ⟨d', m2, hin, hok, hsame, hb, hrefs, hat⟩
  · right
    have hm2 := hok.heap.memory
    rw [plusRef_add] at hm2
    have hq := ((Quiet.retain (fun f => 0 < refsIn d f + (refsIn s f + ext f)) (s₀.pages k).frame
      m).trans (Quiet.of_sameFrames hsame)).trans
        ((Quiet.release hm2.release).mono fun f hf => by rw [hrefs]; exact hf)
    have hblocks : ∀ p n, ownsBlock s p ∨ E p → (p, n) ∈ m.blocks →
        (p, n) ∈ (vmFrameRelease (s₀.pages k).frame m2).blocks := fun p n hp hmem =>
      hm2.release_blocks _ (.inr hp) (hb (by rwa [vmFrameRetain_blocks]))
    exact ⟨d', m2, hin, h.step hok.release (Kept.of_quiet hq hblocks),
      hq.mono hlive, fun p n hp => hblocks p n (.inr hp)⟩
  · left
    have hq := (Quiet.retain (fun f => 0 < refsIn d f + (refsIn s f + ext f)) (s₀.pages k).frame
      m).trans (Quiet.of_sameFrames hsame)
    have hblocks : ∀ p n, ownsBlock s p ∨ E p → (p, n) ∈ m.blocks → (p, n) ∈ m2.blocks :=
      fun p n _ hmem => hb (by rwa [vmFrameRetain_blocks])
    refine ⟨d', m2, hin, h.step hok (Kept.of_quiet hq hblocks),
      ⟨hq.mono hlive, fun p n hp => hblocks p n (.inr hp)⟩, fun b => ?_⟩
    rw [hat, clonePage, ← hu.2]

/-! ### The loop -/

/-- How a clone may end. -/
inductive Cloned (ext : ℕ → ℕ) (E : ℕ → Prop) (s₀ : VmSpace) (m : Memory) :
    Bool × VmSpace × VmSpace × Memory → Prop
  | done {d s : VmSpace} {m' : Memory} (pair : PairOk ext E d s m') (pages : Cloning s₀ vmMaxPages d s)
      (kept : CloneKept ext E s₀ m m') : Cloned ext E s₀ m (true, d, s, m')
  | failed {d s : VmSpace} {k : ℕ} {m' : Memory} (ok : SpaceOk ext E s m') (pages : Cloning s₀ k d s)
      (kept : CloneKept ext E s₀ m m') : Cloned ext E s₀ m (false, VmSpace.zero, s, m')

theorem Cloned.of_kept {r : Bool × VmSpace × VmSpace × Memory} {m₁ m₂ : Memory}
    (h : Cloned ext E s₀ m₂ r) (hk : CloneKept ext E s₀ m₁ m₂) : Cloned ext E s₀ m₁ r := by
  cases h with
  | done pair pages kept => exact .done pair pages (hk.trans kept)
  | failed ok pages kept => exact .failed ok pages (hk.trans kept)

/-- The run of the loop: by induction on the records left, with `Cloning` as invariant. -/
theorem cloneLoop_spec (h₀ : RecordsOk s₀) :
    ∀ (fuel k : ℕ) (d s : VmSpace) (m : Memory), k + fuel = vmMaxPages → PairOk ext E d s m →
      Cloning s₀ k d s → Cloned ext E s₀ m (cloneLoop fuel k d s m) := by
  intro fuel
  induction fuel with
  | zero =>
    intro k d s m hk hpair hc
    obtain rfl : k = vmMaxPages := by omega
    exact .done hpair hc (CloneKept.refl ext E s₀ m)
  | succ fuel ih =>
    intro k d s m hk hpair hc
    have hpage : s.pages k = s₀.pages k := by rw [hc.source, if_neg (by omega)]
    rw [cloneLoop]
    simp only [hpage]
    by_cases hused : (s₀.pages k).used = true
    swap
    · rw [if_pos (by simpa using hused)]
      exact ih (k + 1) d s m (by omega) hpair (hc.skip fun hu => hused hu.2)
    have hu : UsedRecord s₀ k := ⟨by omega, hused⟩
    rw [if_neg (by simp [hused])]
    rw [show (!(s₀.pages k).shared && canWrite (s₀.pages k).protection) =
      becomesCow (s₀.pages k) from rfl]
    rcases cloneInstall_spec hpair hc h₀ hu with
      ⟨d', m1, hin, hpair', hkept, hat⟩ | ⟨d', m1, hin, hpair', hkept⟩
    · simp only [hin]
      have hfree := hc.free_page h₀ hu
      by_cases hcow : becomesCow (s₀.pages k) = true
      · -- the source's record is marked too
        simp only [hcow, Bool.not_true, Bool.false_eq_true, if_false]
        have hus : UsedRecord s k := (hc.used k).2 hu
        obtain ⟨s', hrw, hok, _, hpages, _⟩ := rewritePage_spec
          (markPage (s₀.pages k)) hpair'.right hus
          ((markPage_used _).trans hused) (by rw [markPage_virtualAddress, hpage])
          (by rw [markPage_frame, hpage])
        have hmark : ({ s₀.pages k with copyOnWrite := true } : VmPage) = markPage (s₀.pages k) := by
          rw [markPage, if_pos hcow]
        rw [hpage] at hrw
        rw [hmark, hrw]
        have hpair'' := (hpair'.symm.step hok (Kept.refl _ _ m1)).symm
        exact (ih (k + 1) d' s' m1 (by omega) hpair'' (hc.next hu hpages hat hfree)).of_kept hkept
      · simp only [hcow, Bool.not_false, if_true]
        have hsame : s.pages = update s.pages k (markPage (s₀.pages k)) := by
          rw [markPage, if_neg hcow, ← hpage, update_eq_self]
        exact (ih (k + 1) d' s m1 (by omega) hpair' (hc.next hu hsame hat hfree)).of_kept hkept
    · -- the destination goes, the source stays as far as it was marked
      simp only [hin]
      obtain ⟨m2, hdes, hok, hq, hblocks⟩ := hpair'.destroy
      rw [hdes]
      refine Cloned.of_kept (.failed hok hc ?_) hkept
      exact ⟨hq.mono fun f hf => by rw [hc.refs]; exact hf, hblocks⟩

/-- **`vm_space_clone_cow`.** -/
theorem vmSpaceCloneCow_spec (h : SpaceOk ext E s m) : Cloned ext E s m (vmSpaceCloneCow s m) := by
  have hstart : ∀ d, (∀ a, pageAt d a = none) → Cloning s 0 d s := by
    intro d hd
    refine ⟨fun e => by rw [if_neg (by omega)], fun b q => ?_⟩
    rw [hd]
    simp
  unfold vmSpaceCloneCow
  rcases vmSpaceCreate_spec h.heap.memory with
    ⟨m1, hcr, hmem, hsame, hb⟩ | ⟨d, m1, hcr, hok, hsame, hb, hrefs, hempty⟩
  · rw [hcr]
    refine .failed (d := VmSpace.zero) (k := 0) ?_ (hstart _ fun a => pageAt_empty (fun _ => rfl) rfl a)
      ⟨Quiet.of_sameFrames hsame, fun p n _ hp => hb hp⟩
    exact h.transfer hmem h.heap.apart (fun p n _ hp => hb hp)
      fun f _ => by rw [frameData, frameData, hsame.1]
  · rw [hcr]
    have hpair : PairOk ext E d s m1 := by
      refine ⟨hok, h.transfer (hok.heap.memory.congr (fun f => by omega) fun p => by tauto) ?_
        (fun p n _ hp => hb hp) fun f _ => by rw [frameData, frameData, hsame.1]⟩
      rintro p hp (hd | he)
      · exact hok.heap.apart p hd (.inl hp)
      · exact h.heap.apart p hp he
    exact (cloneLoop_spec h.records vmMaxPages 0 d s m1 (by omega) hpair (hstart d hempty)).of_kept
      ⟨Quiet.of_sameFrames hsame, fun p n _ hp => hb hp⟩

theorem Cloning.pageAt_done (h : Cloning s₀ vmMaxPages d s) (h₀ : RecordsOk s₀) (hs : RecordsOk s)
    (b : ℕ) : pageAt s b = (pageAt s₀ b).map markPage ∧ pageAt d b = (pageAt s₀ b).map clonePage := by
  cases hp : pageAt s₀ b with
  | none =>
    constructor
    · rcases h.pageAt_source h₀ hs b with hq | hq
      · rw [hq, hp, Option.map_none]
      · rw [hq, hp]
    · cases hq : pageAt d b with
      | none => rfl
      | some q =>
        obtain ⟨e, _, hu, hva, _⟩ := (h.target b q).1 hq
        rw [(pageAt_iff h₀).2 ⟨e, hu, rfl, hva⟩] at hp
        simp at hp
  | some p =>
    obtain ⟨e, hu, rfl, hva⟩ := (pageAt_iff h₀).1 hp
    constructor
    · refine (pageAt_iff hs).2 ⟨e, (h.used e).2 hu, ?_, by rw [markPage_virtualAddress]; exact hva⟩
      rw [h.source e, if_pos ⟨hu.1, hu⟩]
    · exact (h.target b _).2 ⟨e, hu.1, hu, hva, rfl⟩

end NovaOS.Vm
