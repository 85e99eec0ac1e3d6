import NovaOS.Vm.Lifecycle

/-!
# What each operation on a space does

One specification per operation of `kernel/vm.c`.  Each says that the space is well formed again,
that references and blocks of others are kept (`Kept`), that no byte of a frame in use changed
(`Quiet`), and what became of the map from page addresses to records.  Callers use these and never
unfold an operation.

* `rewriteRange_spec` — `vm_protect` and `vm_mark_shared`;
* `vmMapPage_spec`, `vmMapSharedFrame_spec`;
* `makePrivate_spec` — the copy behind copy-on-write.
-/

namespace NovaOS.Vm

open Function List

variable {ext : ℕ → ℕ} {E : ℕ → Prop} {s s' : VmSpace} {m m' : Memory} {e a f : ℕ} {page : VmPage}

/-! ### Frames whose bytes stay -/

/-- The frames in `live` keep their page and its bytes. -/
structure Quiet (live : ℕ → Prop) (m m' : Memory) : Prop where
  data : ∀ f, live f → frameData m' f = frameData m f
  bytes : ∀ f, live f → m'.bytes (frameData m f) = m.bytes (frameData m f)

variable {live : ℕ → Prop}

theorem Quiet.refl (live : ℕ → Prop) (m : Memory) : Quiet live m m :=
  ⟨fun _ _ => rfl, fun _ _ => rfl⟩

theorem Quiet.trans {m₁ m₂ m₃ : Memory} (h : Quiet live m₁ m₂) (h' : Quiet live m₂ m₃) :
    Quiet live m₁ m₃ :=
  ⟨fun f hf => (h'.data f hf).trans (h.data f hf), fun f hf => by
    rw [← h.data f hf, h'.bytes f hf, h.data f hf, h.bytes f hf]⟩

theorem Quiet.mono {live' : ℕ → Prop} (h : Quiet live m m') (hsub : ∀ f, live' f → live f) :
    Quiet live' m m' :=
  ⟨fun f hf => h.data f (hsub f hf), fun f hf => h.bytes f (hsub f hf)⟩

theorem Quiet.of_sameFrames (h : SameFrames m m') : Quiet live m m' :=
  ⟨fun f _ => by rw [frameData, frameData, h.1], fun f _ => by rw [h.2]⟩

theorem Quiet.retain (live : ℕ → Prop) (f : ℕ) (m : Memory) : Quiet live m (vmFrameRetain f m) :=
  ⟨fun g _ => frameData_retain f g m, fun g _ => by rw [vmFrameRetain_bytes]⟩

theorem Quiet.release {total : ℕ → ℕ} {owned : ℕ → Prop}
    (h : MemoryOk total owned (vmFrameRelease f m)) :
    Quiet (fun g => 0 < total g) m (vmFrameRelease f m) :=
  ⟨fun _ hg => frameData_release h hg, fun g _ => by rw [vmFrameRelease_bytes]⟩

theorem Quiet.created {total : ℕ → ℕ} {owned : ℕ → Prop} (h : MemoryOk total owned m)
    (hc : Created m f m') : Quiet (fun g => 0 < total g) m m' := by
  have hne : ∀ g, 0 < total g → g ≠ f := by
    rintro g hg rfl
    have := h.frameReferences_of_none hc.fresh
    omega
  refine ⟨fun g hg => hc.frameData (hne g hg), fun g hg => ?_⟩
  obtain ⟨r, hr, _⟩ := h.exists_of_pos hg
  have hdata : frameData m g = r.data := by rw [frameData, hr]; rfl
  rw [hc.bytes, update_of_ne (hdata ▸ hc.data g r hr)]

/-- A reference held outside, or by a record, keeps its frame alive. -/
theorem Kept.of_quiet (h : Quiet (fun f => 0 < refsIn s f + ext f) m m')
    (hb : ∀ p n, E p → (p, n) ∈ m.blocks → (p, n) ∈ m'.blocks) : Kept ext E m m' :=
  ⟨fun f hf => h.data f (by omega), hb⟩

/-! ### Rewriting records in place -/

/-- A change that keeps address, frame and use. -/
structure Retouch (change : VmPage → VmPage) : Prop where
  address : ∀ p, (change p).virtualAddress = p.virtualAddress
  frame : ∀ p, (change p).frame = p.frame
  used : ∀ p, (change p).used = p.used
  idem : ∀ p, change (change p) = change p

theorem retouch_protectPage (m : Memory) (protection : ℕ) : Retouch (protectPage m protection) :=
  ⟨fun _ => rfl, fun _ => rfl, fun _ => rfl, fun _ => rfl⟩

theorem retouch_sharePage : Retouch sharePage :=
  ⟨fun _ => rfl, fun _ => rfl, fun _ => rfl, fun _ => rfl⟩

section

variable (page : VmPage) (h : SpaceOk ext E s m) (hu : UsedRecord s e) (hused : page.used = true)
  (hva : page.virtualAddress = (s.pages e).virtualAddress)

include h hu hused hva

/-- The record step always succeeds on a used record, also with another frame. -/
theorem rewritePage_moved {ext' : ℕ → ℕ}
    (hheap : SpaceHeap (fun f => refsIn (s.setPage e page) f + ext' f) E s m')
    (hdata : ∀ e', UsedRecord s e' → e' ≠ e →
      frameData m' (s.pages e').frame = frameData m (s.pages e').frame) :
    ∃ s', rewritePage s e page (s.pages e).virtualAddress m' = (true, s') ∧ SpaceOk ext' E s' m' ∧
      s'.pages = update s.pages e page ∧
      ∀ b, pageAt s' b =
        if alignDown b = (s.pages e).virtualAddress then some page else pageAt s b := by
  obtain ⟨t, i, hwalk, hok, hat⟩ := h.rewrite hu hused hva hheap hdata
  rw [hva] at hwalk hat
  refine ⟨_, ?_, hok, rfl, hat⟩
  rw [rewritePage, hwalk]

theorem rewritePage_spec (hframe : page.frame = (s.pages e).frame) :
    ∃ s', rewritePage s e page (s.pages e).virtualAddress m = (true, s') ∧ SpaceOk ext E s' m ∧
      refsIn s' = refsIn s ∧ s'.pages = update s.pages e page ∧
      ∀ b, pageAt s' b =
        if alignDown b = (s.pages e).virtualAddress then some page else pageAt s b := by
  have hsame := refsIn_setPage_same (s := s) (e := e) (by rw [hused, hu.2]) hframe
  obtain ⟨s', hrw, hok, hpages, hat⟩ :=
    rewritePage_moved page h hu hused hva (by rw [hsame]; exact h.heap) fun _ _ _ => rfl
  exact ⟨s', hrw, hok, (refsIn_congr (s := s.setPage e page) hpages).trans hsame, hpages, hat⟩

end

theorem rewriteLoop_spec {change : VmPage → VmPage} (hc : Retouch change) :
    ∀ (L : List ℕ) (s : VmSpace), SpaceOk ext E s m →
      (∀ b ∈ L, b % 4096 = 0 ∧ (findPage s b).isSome) →
      ∃ s', rewriteLoop s change m L = (true, s') ∧ SpaceOk ext E s' m ∧ refsIn s' = refsIn s ∧
        ∀ b, pageAt s' b = if alignDown b ∈ L then (pageAt s b).map change else pageAt s b := by
  intro L
  induction L with
  | nil => intro s h _; exact ⟨s, rfl, h, rfl, fun b => by simp⟩
  | cons x L ih =>
    intro s h hL
    obtain ⟨hx, hsome⟩ := hL x (mem_cons_self ..)
    obtain ⟨index, hindex⟩ := Option.isSome_iff_exists.1 hsome
    obtain ⟨hu, hva⟩ := findPage_sound h.records hindex
    rw [alignDown_eq hx] at hva
    obtain ⟨s1, hrw, hok, hrefs, _, hat⟩ := rewritePage_spec _ h hu
      ((hc.used _).trans hu.2) (hc.address _) (hc.frame _)
    rw [hva] at hrw hat
    have hxat : pageAt s x = some (s.pages index) := by rw [pageAt, hindex]; rfl
    -- a page that was mapped still is
    have hkeep : ∀ b ∈ L, b % 4096 = 0 ∧ (findPage s1 b).isSome := by
      intro b hb
      obtain ⟨hb1, hb2⟩ := hL b (mem_cons_of_mem _ hb)
      refine ⟨hb1, ?_⟩
      have hmap : (pageAt s1 b).isSome := by
        rw [hat]
        split
        · rfl
        · rw [pageAt, Option.isSome_map]; exact hb2
      rwa [pageAt, Option.isSome_map] at hmap
    obtain ⟨s2, hloop, hok2, hrefs2, hat2⟩ := ih s1 hok hkeep
    refine ⟨s2, ?_, hok2, hrefs2.trans hrefs, fun b => ?_⟩
    · simp only [rewriteLoop, hindex, hrw]
      exact hloop
    · rw [hat2, hat]
      by_cases hbx : alignDown b = x
      · have hb : pageAt s b = some (s.pages index) := by rw [← pageAt_alignDown, hbx, hxat]
        have hmem : alignDown b ∈ x :: L := by rw [hbx]; exact mem_cons_self ..
        rw [if_pos hbx, if_pos hmem, hb]
        split
        · rw [Option.map_some, Option.map_some, hc.idem]
        · rw [Option.map_some]
      · rw [if_neg hbx]
        simp only [mem_cons, hbx, false_or]

theorem mem_pageRange_iff {first last b : ℕ} (hf : first % 4096 = 0) :
    b ∈ pageRange first last ↔ b % 4096 = 0 ∧ first ≤ b ∧ b < last := by
  rw [pageRange, mem_map]
  constructor
  · rintro ⟨i, hi, rfl⟩
    rw [mem_range] at hi
    omega
  · intro h
    exact ⟨(b - first) / 4096, mem_range.2 (by omega), by omega⟩

theorem mem_pageRange {first last b : ℕ} (hb : b ∈ pageRange first last) (hf : first % 4096 = 0) :
    b % 4096 = 0 ∧ first ≤ b ∧ b < last := (mem_pageRange_iff hf).1 hb

/-- **`vm_protect` and `vm_mark_shared`.**  Nothing, or every record of the range is changed. -/
theorem rewriteRange_spec {change : VmPage → VmPage} (hc : Retouch change) (h : SpaceOk ext E s m)
    (address size : ℕ) :
    rewriteRange s address size change m = (false, s) ∨
    ∃ s', rewriteRange s address size change m = (true, s') ∧ SpaceOk ext E s' m ∧
      refsIn s' = refsIn s ∧ 0 < size ∧ address ≤ (address + size) % 2 ^ 64 ∧
      (∀ b ∈ pageRange (alignDown address) (alignUp ((address + size) % 2 ^ 64)),
        (pageAt s b).isSome) ∧
      ∀ b, pageAt s' b =
        if alignDown b ∈ pageRange (alignDown address) (alignUp ((address + size) % 2 ^ 64)) then
          (pageAt s b).map change else pageAt s b := by
  unfold rewriteRange
  split
  · exact .inl rfl
  rename_i hguard
  simp only
  split
  · exact .inl rfl
  rename_i hany
  right
  have hmapped : ∀ b ∈ pageRange (alignDown address) (alignUp ((address + size) % 2 ^ 64)),
      (findPage s b).isSome := by
    intro b hb
    by_contra hcon
    exact hany (any_eq_true.2 ⟨b, hb, by simpa using hcon⟩)
  obtain ⟨s', hloop, hok, hrefs, hat⟩ := rewriteLoop_spec hc _ s h fun b hb =>
    ⟨(mem_pageRange hb (alignDown_mod _)).1, hmapped b hb⟩
  refine ⟨s', hloop, hok, hrefs, by omega, by omega, fun b hb => ?_, hat⟩
  rw [pageAt, Option.isSome_map]
  exact hmapped b hb

theorem pageRange_one (ha : a % 4096 = 0) (hlt : a < 2 ^ 47) :
    pageRange (alignDown a) (alignUp ((a + 4096) % 2 ^ 64)) = [a] := by
  rw [alignDown_eq ha, Nat.mod_eq_of_lt (by omega), alignUp_eq (by omega) (by omega)]
  simp [pageRange]

/-! ### Copy-on-write -/

theorem plusRef_comm (total : ℕ → ℕ) (f g : ℕ) :
    plusRef (plusRef total f) g = plusRef (plusRef total g) f := by
  by_cases hfg : f = g
  · rw [hfg]
  · unfold plusRef
    rw [update_of_ne (Ne.symm hfg), update_of_ne hfg, update_comm hfg]

/-- A space's heap after a change of memory, whatever is counted. -/
theorem SpaceHeap.transfer {total total' : ℕ → ℕ} (h : SpaceHeap total E s m)
    (hmem : MemoryOk total' (fun p => ownsBlock s p ∨ E p) m')
    (hblocks : ∀ p n, ownsBlock s p → (p, n) ∈ m.blocks → (p, n) ∈ m'.blocks) :
    SpaceHeap total' E s m' :=
  ⟨hmem, h.apart, hblocks _ _ (.inl rfl) h.root, h.pml4, h.pdpt, h.directories, fun x hx =>
    ⟨hblocks _ _ (.inr (mem_map.2 ⟨x, hx, rfl⟩)) (h.tables x hx).1, (h.tables x hx).2⟩⟩

/-- **The copy of `make_private`.**  When others use the frame too, the page gets a frame of its
own with the same bytes, and every frame in use keeps its bytes. -/
theorem copyFrame_spec (h : SpaceOk ext E s m) (hu : UsedRecord s e)
    (hmany : 1 < frameReferences m (s.pages e).frame) {g : ℕ} {m1 : Memory} (hc : Created m g m1)
    (hb : m.blocks ⊆ m1.blocks)
    (hm1 : MemoryOk (plusRef (fun f => refsIn s f + ext f) g) (fun p => ownsBlock s p ∨ E p) m1)
    (hm' : m' = vmFrameRelease (s.pages e).frame (copyPage m1 (frameData m1 g)
      (frameData m1 (s.pages e).frame))) :
    SpaceHeap (fun f => refsIn (s.setPage e (privatePage (s.pages e) g)) f + ext f) E s m' ∧
      Quiet (fun f => 0 < refsIn s f + ext f) m m' ∧
      (∀ p n, E p → (p, n) ∈ m.blocks → (p, n) ∈ m'.blocks) ∧
      m'.bytes (frameData m' g) = m.bytes (frameData m (s.pages e).frame) := by
  have hrefs : refsIn s = plusRef (refsIn (s.setPage e VmPage.zero)) (s.pages e).frame :=
    refsIn_clear rfl hu
  have hset : (s.setPage e (privatePage (s.pages e) g)).pages =
      update (s.setPage e VmPage.zero).pages e (privatePage (s.pages e) g) := by
    simp only [setPage_pages, update_idem]
  have hrefs' := refsIn_set hset hu.1 hu.2 (by simp [VmPage.zero])
  have hcount := h.heap.memory.counts (s.pages e).frame
  rw [hcount] at hmany
  -- the copy only touches the new page
  have hq1 := Quiet.created h.heap.memory hc
  have hq2 : Quiet (fun f => 0 < refsIn s f + ext f) m1 (copyPage m1 (frameData m1 g)
      (frameData m1 (s.pages e).frame)) := by
    refine ⟨fun _ _ => rfl, fun f hf => ?_⟩
    obtain ⟨r, hr, _⟩ := h.heap.memory.exists_of_pos hf
    have hdata : frameData m f = r.data := by rw [frameData, hr]; rfl
    rw [hq1.data f hf]
    exact update_of_ne (hdata ▸ hc.data f r hr) ..
  -- one reference moves from the old frame to the new one
  have hm2 : MemoryOk (plusRef (plusRef (fun f => refsIn (s.setPage e VmPage.zero) f + ext f) g)
      (s.pages e).frame) (fun p => ownsBlock s p ∨ E p) (copyPage m1 (frameData m1 g)
      (frameData m1 (s.pages e).frame)) := by
    rw [plusRef_comm, ← plusRef_add_left, ← hrefs]
    exact ⟨⟨hm1.heap.apart, hm1.heap.bounds⟩, hm1.record, hm1.inj, hm1.apartOwned, hm1.live,
      hm1.counts, hm1.positive⟩
  have hm3 := hm2.release
  rw [← hm'] at hm3
  have hlive : ∀ f, 0 < refsIn s f + ext f →
      0 < plusRef (fun f => refsIn (s.setPage e VmPage.zero) f + ext f) g f := by
    intro f hf
    have hpos : 0 < refsIn (s.setPage e VmPage.zero) f + ext f := by
      by_cases hfe : f = (s.pages e).frame
      · subst hfe
        rw [hrefs, plusRef_self] at hmany
        omega
      · rw [hrefs, plusRef_of_ne hfe] at hf
        exact hf
    by_cases hfg : f = g
    · subst hfg; simp
    · rw [plusRef_of_ne hfg]; exact hpos
  have hq3 := (Quiet.release (hm' ▸ hm3)).mono hlive
  rw [← hm'] at hq3
  have hblocks : ∀ p n, ownsBlock s p ∨ E p → (p, n) ∈ m.blocks → (p, n) ∈ m'.blocks := by
    intro p n hp hmem
    rw [hm']
    exact hm2.release_blocks _ hp (hb hmem)
  refine ⟨?_, (hq1.trans hq2).trans hq3, fun p n hp => hblocks p n (.inr hp), ?_⟩
  · refine h.heap.transfer ?_ fun p n hp => hblocks p n (.inl hp)
    rw [hrefs', plusRef_add_left]
    exact hm3
  · have hg : frameData m' g = frameData m1 g := by
      rw [hm'] at hm3 ⊢
      exact frameData_release hm3 (by simp)
    have hold : 0 < refsIn s (s.pages e).frame + ext (s.pages e).frame := by omega
    rw [hg, hm', vmFrameRelease_bytes]
    simp only [copyPage, update_self]
    rw [hq1.data _ hold, hq1.bytes _ hold]

/-- **`make_private`.**  It fails and the space is as it was; or the page was not copy-on-write; or
the page now has a frame that nobody else refers to, with the bytes it had. -/
theorem makePrivate_spec (h : SpaceOk ext E s m) (hu : UsedRecord s e) :
    ∃ ok s' m', makePrivate s e m = (ok, s', m') ∧ SpaceOk ext E s' m' ∧ Kept ext E m m' ∧
      Quiet (fun f => 0 < refsIn s f + ext f) m m' ∧
      ((ok = false ∧ (s.pages e).copyOnWrite = true ∧ s' = s) ∨
       (ok = true ∧ (s.pages e).copyOnWrite = false ∧ s' = s ∧ m' = m) ∨
       (ok = true ∧ (s.pages e).copyOnWrite = true ∧ canWrite (s.pages e).protection = true ∧
         ∃ g, s'.pages = update s.pages e (privatePage (s.pages e) g) ∧
          (∀ b, pageAt s' b = if alignDown b = (s.pages e).virtualAddress then
            some (privatePage (s.pages e) g) else pageAt s b) ∧
          m'.bytes (frameData m' g) = m.bytes (frameData m (s.pages e).frame) ∧
          refsIn s' g + ext g = 1 ∧ (g = (s.pages e).frame ∨ refsIn s g + ext g = 0) ∧
          ∀ f, f ≠ g → refsIn s' f ≤ refsIn s f)) := by
  unfold makePrivate
  by_cases hcow : (s.pages e).copyOnWrite = true
  swap
  · simp only [hcow, Bool.not_eq_true] at *
    exact ⟨true, s, m, rfl, h, Kept.refl ext E m, Quiet.refl _ m, .inr (.inl ⟨rfl, hcow, rfl, rfl⟩)⟩
  by_cases hw : canWrite (s.pages e).protection = true
  swap
  · simp only [hcow, hw, Bool.not_eq_true, Bool.not_true, Bool.not_false] at *
    exact ⟨false, s, m, by simp, h, Kept.refl ext E m, Quiet.refl _ m, .inl ⟨rfl, trivial, rfl⟩⟩
  simp only [hcow, hw, Bool.not_true, Bool.false_eq_true, if_false]
  have hcount := h.heap.memory.counts (s.pages e).frame
  unfold privateFrame
  by_cases hmany : 1 < frameReferences m (s.pages e).frame
  · rw [if_pos hmany]
    rcases h.create with ⟨m1, hcr, hsame, hb, hok⟩ | ⟨g, m1, hcr, hc, hb, hzero, hok⟩
    · rw [hcr]
      exact ⟨false, s, m1, rfl, hok, Kept.of_sameFrames hsame hb, Quiet.of_sameFrames hsame,
        .inl ⟨rfl, trivial, rfl⟩⟩
    · rw [hcr]
      simp only
      have hm1 := hok.heap.memory
      rw [plusRef_add] at hm1
      generalize hm' : vmFrameRelease (s.pages e).frame (copyPage m1 (frameData m1 g)
        (frameData m1 (s.pages e).frame)) = m'
      obtain ⟨hheap, hq, hblocks, hbytes⟩ := copyFrame_spec h hu hmany hc hb hm1 hm'.symm
      obtain ⟨s', hrw, hok', hpages, hat⟩ := rewritePage_moved
        (privatePage (s.pages e) g) h hu hu.2 rfl hheap
        fun e' hu' _ => hq.data _ (Nat.add_pos_left (refsIn_pos hu') _)
      have hrefs : refsIn s = plusRef (refsIn (s.setPage e VmPage.zero)) (s.pages e).frame :=
        refsIn_clear rfl hu
      have hset : s'.pages =
          update (s.setPage e VmPage.zero).pages e (privatePage (s.pages e) g) := by
        rw [hpages]
        simp only [setPage_pages, update_idem]
      have hrefs' : refsIn s' = plusRef (refsIn (s.setPage e VmPage.zero)) g :=
        refsIn_set hset hu.1 hu.2 (by simp [VmPage.zero])
      have hle : ∀ f, refsIn (s.setPage e VmPage.zero) f ≤ refsIn s f := by
        intro f
        rw [hrefs]
        by_cases hf : f = (s.pages e).frame
        · subst hf; simp
        · rw [plusRef_of_ne hf]
      refine ⟨true, s', m', by rw [hrw], hok', Kept.of_quiet hq hblocks, hq,
        .inr (.inr ⟨rfl, trivial, trivial, g, hpages, hat, hbytes, ?_, .inr hzero, ?_⟩)⟩
      · rw [hrefs', plusRef_self]
        have := hle g
        omega
      · intro f hf
        rw [hrefs', plusRef_of_ne hf]
        exact hle f
  · -- the last reference: the frame is kept
    rw [if_neg hmany]
    simp only
    obtain ⟨s', hrw, hok', hrefs, hpages, hat⟩ := rewritePage_spec
      (privatePage (s.pages e) (s.pages e).frame) h hu hu.2 rfl rfl
    have hpos := refsIn_pos hu
    refine ⟨true, s', m, by rw [hrw], hok', Kept.refl ext E m, Quiet.refl _ m,
      .inr (.inr ⟨rfl, trivial, trivial, (s.pages e).frame, hpages, hat, rfl, ?_, .inl rfl, ?_⟩)⟩
    · rw [hrefs]
      omega
    · intro f _
      rw [hrefs]

/-! ### Mapping -/

/-- What `vm_map_page` does to the map: nothing, a new protection, or a new zeroed page. -/
inductive Mapped (ext : ℕ → ℕ) (va protection : ℕ) (s : VmSpace) (m : Memory) (s' : VmSpace)
    (m' : Memory) : Bool → Prop
  | failed (pages : ∀ b, pageAt s' b = pageAt s b) (refs : refsIn s' = refsIn s) :
      Mapped ext va protection s m s' m' false
  | reprotected (p : VmPage) (old : pageAt s va = some p) (refs : refsIn s' = refsIn s)
      (aligned : va % 4096 = 0)
      (pages : ∀ b, pageAt s' b =
        if alignDown b = va then some (protectPage m protection p) else pageAt s b) :
      Mapped ext va protection s m s' m' true
  | created (f : ℕ) (old : pageAt s va = none) (fresh : refsIn s f + ext f = 0)
      (refs : refsIn s' = plusRef (refsIn s) f) (aligned : va % 4096 = 0)
      (canonical : CanonicalUserAddress va)
      (pages : ∀ b, pageAt s' b =
        if alignDown b = va then some ⟨va, f, protection, false, false, true⟩ else pageAt s b)
      (zero : m'.bytes (frameData m' f) = fun _ => 0) :
      Mapped ext va protection s m s' m' true

/-- **`vm_map_page`.** -/
theorem vmMapPage_spec (h : SpaceOk ext E s m) (va protection : ℕ) :
    ∃ ok s' m', vmMapPage s va protection m = (ok, s', m') ∧ SpaceOk ext E s' m' ∧
      Kept ext E m m' ∧ Quiet (fun f => 0 < refsIn s f + ext f) m m' ∧
      Mapped ext va protection s m s' m' ok := by
  unfold vmMapPage
  split
  · exact ⟨false, s, m, rfl, h, Kept.refl ext E m, Quiet.refl _ m, .failed (fun _ => rfl) rfl⟩
  obtain ⟨_, halign, hcanon⟩ : s.pml4 ≠ 0 ∧ va % 4096 = 0 ∧ CanonicalUserAddress va := by tauto
  cases hf : findPage s va with
  | some index =>
    -- already mapped: only the protection changes
    have hold : pageAt s va = some (s.pages index) := by rw [pageAt, hf]; rfl
    rcases rewriteRange_spec (retouch_protectPage m protection) h va 4096 with
      hfail | ⟨s', hrw, hok, hrefs, _, _, _, hat⟩
    · simp only [vmProtect, hfail]
      exact ⟨false, s, m, rfl, h, Kept.refl ext E m, Quiet.refl _ m, .failed (fun _ => rfl) rfl⟩
    · simp only [vmProtect, hrw]
      refine ⟨true, s', m, rfl, hok, Kept.refl ext E m, Quiet.refl _ m,
        .reprotected (s.pages index) hold hrefs halign fun b => ?_⟩
      rw [hat, pageRange_one halign hcanon.1]
      simp only [mem_singleton]
      split
      · rename_i hb
        rw [← pageAt_alignDown, hb, hold]
        rfl
      · rfl
  | none =>
    have hold : pageAt s va = none := by rw [pageAt, hf]; rfl
    rcases h.create with ⟨m1, hcr, hsame, hb, hok⟩ | ⟨f, m1, hcr, hc, hb, hzero, hok⟩
    · simp only [hcr]
      exact ⟨false, s, m1, rfl, hok, Kept.of_sameFrames hsame hb, Quiet.of_sameFrames hsame,
        .failed (fun _ => rfl) rfl⟩
    simp only [hcr]
    have hq1 := Quiet.created h.heap.memory hc
    rcases installPage_spec hok halign hcanon hf protection false false with
      ⟨s2, m2, hin, hok2, hsame, hb2, hrefs, hat⟩ | ⟨s2, m2, hin, hok2, hsame, hb2, hrefs, hat⟩
    · -- no record, table or index slot: the frame goes again
      rw [hin]
      have hm2 := hok2.heap.memory
      rw [plusRef_add] at hm2
      have hq3 : Quiet (fun g => 0 < refsIn s g + ext g) m2 (vmFrameRelease f m2) :=
        (Quiet.release hm2.release).mono fun g hg => by rw [hrefs]; exact hg
      have hq := (hq1.trans (Quiet.of_sameFrames hsame)).trans hq3
      exact ⟨false, s2, _, rfl, hok2.release,
        Kept.of_quiet hq fun p n hp hmem => hm2.release_blocks f (.inr hp) (hb2 (hb hmem)), hq,
        .failed hat hrefs⟩
    · rw [hin]
      have hq := hq1.trans (Quiet.of_sameFrames hsame)
      refine ⟨true, s2, m2, rfl, hok2, Kept.of_quiet hq fun p n hp hmem => hb2 (hb hmem), hq,
        .created f hold hzero hrefs halign hcanon hat ?_⟩
      rw [hsame.2, frameData, hsame.1, ← frameData, hc.bytes, update_self]

/-- **`vm_map_shared_frame`.**  On success one more record points at the frame. -/
theorem vmMapSharedFrame_spec (h : SpaceOk ext E s m) (va f protection : ℕ) :
    ∃ ok s' m', vmMapSharedFrame s va f protection m = (ok, s', m') ∧ SpaceOk ext E s' m' ∧
      Kept ext E m m' ∧ Quiet (fun f => 0 < refsIn s f + ext f) m m' ∧
      ((ok = false ∧ refsIn s' = refsIn s ∧ ∀ b, pageAt s' b = pageAt s b) ∨
       (ok = true ∧ va % 4096 = 0 ∧ CanonicalUserAddress va ∧ pageAt s va = none ∧
        refsIn s' = plusRef (refsIn s) f ∧
        ∀ b, pageAt s' b =
          if alignDown b = va then some ⟨va, f, protection, false, true, true⟩ else pageAt s b)) := by
  unfold vmMapSharedFrame
  split
  · exact ⟨false, s, m, rfl, h, Kept.refl ext E m, Quiet.refl _ m, .inl ⟨rfl, rfl, fun _ => rfl⟩⟩
  rename_i hguard
  obtain ⟨_, hlive, halign, hcanon, hfree⟩ : s.pml4 ≠ 0 ∧ m.frames f ≠ none ∧ va % 4096 = 0 ∧
      CanonicalUserAddress va ∧ ¬ (findPage s va).isSome := by tauto
  have hnew : findPage s va = none := by simpa using hfree
  have hpos : 0 < refsIn s f + ext f := by
    obtain ⟨r, hr⟩ := Option.ne_none_iff_exists'.1 hlive
    rw [← h.heap.memory.counts f, frameReferences, hr]
    exact h.heap.memory.positive f r hr
  have hok := h.retain hpos
  rcases installPage_spec hok halign hcanon hnew protection false true with
    ⟨s2, m2, hin, hok2, hsame, hb2, hrefs, hat⟩ | ⟨s2, m2, hin, hok2, hsame, hb2, hrefs, hat⟩
  · rw [hin]
    have hm2 := hok2.heap.memory
    rw [plusRef_add] at hm2
    have hq3 : Quiet (fun g => 0 < refsIn s g + ext g) m2 (vmFrameRelease f m2) :=
      (Quiet.release hm2.release).mono fun g hg => by rw [hrefs]; exact hg
    have hq := ((Quiet.retain _ f m).trans (Quiet.of_sameFrames hsame)).trans hq3
    refine ⟨false, s2, _, rfl, hok2.release, Kept.of_quiet hq fun p n hp hmem => ?_, hq,
      .inl ⟨rfl, hrefs, hat⟩⟩
    exact hm2.release_blocks f (.inr hp) (hb2 (by rwa [vmFrameRetain_blocks]))
  · rw [hin]
    have hq := (Quiet.retain (fun g => 0 < refsIn s g + ext g) f m).trans (Quiet.of_sameFrames hsame)
    refine ⟨true, s2, m2, rfl, hok2, Kept.of_quiet hq fun p n hp hmem => ?_, hq,
      .inr ⟨rfl, halign, hcanon, by rw [pageAt, hnew]; rfl, hrefs, hat⟩⟩
    exact hb2 (by rwa [vmFrameRetain_blocks])

end NovaOS.Vm
