import NovaOS.Vm.Operations
import NovaOS.Vm.Records
import NovaOS.Vm.Tables

/-!
# The invariant of one address space among others

`SpaceOk ext E s m` describes a space `s` in memory `m` next to everybody else: `ext f` is the
number of references to frame `f` held outside `s` (other spaces, shared memory objects, a caller
in the middle of an operation) and `E` are the heap blocks that belong to others.  It says that

* the references of every frame are exactly the records of `s` that point at it plus `ext`;
* the records of `s` are a partial map from page addresses;
* the page tables of `s` hold, for each page, the leaf word of its record, and zero without one.

A reference a caller holds for the moment is part of `ext`: `plusRef ext f` is the same
environment with one more reference to `f`.  That makes `install_page` a transfer of that
reference into the records.

* `SpaceOk.transfer` — the only rule for changes of memory, used for the space an operation works
  on and for all the others;
* `SpaceOk.rewrite` — change a record and its leaf entry;
* `installPage_spec`, `SpaceOk.unmap` — enter and clear a record with its leaf entry.
-/

namespace NovaOS.Vm

open NovaOS.ProbeTable Function

/-- The leaf word the records ask for at page number `k`. -/
def wordOf (s : VmSpace) (m : Memory) (k : ℕ) : ℕ := (pageAt s (k * 4096)).elim 0 (leafEntry m)

structure SpaceOk (ext : ℕ → ℕ) (E : ℕ → Prop) (s : VmSpace) (m : Memory) : Prop where
  heap : SpaceHeap (fun f => refsIn s f + ext f) E s m
  records : RecordsOk s
  tables : ∃ place, TablesOk s place (wordOf s m)

variable {ext : ℕ → ℕ} {E : ℕ → Prop} {s s' : VmSpace} {m m' : Memory} {e a f : ℕ} {page : VmPage}

/-! ### Leaf words -/

theorem pageFlags_testBit_zero (page : VmPage) : (pageFlags page).testBit 0 = true := by
  simp [pageFlags, pagePresent]

theorem leafEntry_ne_zero (m : Memory) (page : VmPage) : leafEntry m page ≠ 0 := by
  intro h
  have := pageFlags_testBit_zero page
  have h0 : (leafEntry m page).testBit 0 = true := by
    rw [leafEntry, Nat.testBit_or, this, Bool.or_true]
  rw [h] at h0
  simp at h0

theorem leafEntry_congr (h : frameData m' page.frame = frameData m page.frame) :
    leafEntry m' page = leafEntry m page := by
  rw [leafEntry, leafEntry, h]

/-- Page number and leaf table position of an aligned address. -/
theorem page_split (a : ℕ) : a / 2 ^ 21 * 512 + a / 2 ^ 12 % 512 = a / 4096 := by omega

/-- The words after the page at `va` got record `o`, or lost it. -/
theorem wordOf_set {va : ℕ} {o : Option VmPage} (halign : va % 4096 = 0)
    (hpage : ∀ a, pageAt s' a = if alignDown a = va then o else pageAt s a)
    (hdata : ∀ a p, alignDown a ≠ va → pageAt s a = some p →
      frameData m' p.frame = frameData m p.frame) :
    wordOf s' m' = update (wordOf s m) (va / 4096) (o.elim 0 (leafEntry m')) := by
  funext k
  have hk : alignDown (k * 4096) = k * 4096 := alignDown_eq (by omega)
  rw [wordOf, hpage, hk]
  by_cases heq : k = va / 4096
  · rw [if_pos (by omega), heq, update_self]
  · have hne : k * 4096 ≠ va := by omega
    rw [if_neg hne, update_of_ne heq, wordOf]
    cases hp : pageAt s (k * 4096) with
    | none => rfl
    | some p => exact leafEntry_congr (hdata _ p (by rw [hk]; exact hne) hp)

/-! ### Changes of memory -/

/-- The part of the invariant that does not count references. -/
structure SpaceCore (s : VmSpace) (m : Memory) : Prop where
  root : (s.rootAllocation, 28671) ∈ m.blocks
  pml4 : s.pml4 = pageOf s.rootAllocation
  pdpt : s.bootstrapPdpt = s.pml4 + 4096
  directories : s.bootstrapDirectories = s.pml4 + 2 * 4096
  allocated : ∀ x ∈ s.allocatedTables, (x.2, 8191) ∈ m.blocks ∧ x.1 = pageOf x.2
  records : RecordsOk s
  tables : ∃ place, TablesOk s place (wordOf s m)

theorem SpaceOk.core (h : SpaceOk ext E s m) : SpaceCore s m :=
  ⟨h.heap.root, h.heap.pml4, h.heap.pdpt, h.heap.directories, h.heap.tables, h.records, h.tables⟩

theorem SpaceCore.spaceOk (h : SpaceCore s m)
    (hmem : MemoryOk (fun f => refsIn s f + ext f) (fun p => ownsBlock s p ∨ E p) m)
    (hapart : ∀ p, ownsBlock s p → ¬ E p) : SpaceOk ext E s m :=
  ⟨⟨hmem, hapart, h.root, h.pml4, h.pdpt, h.directories, h.allocated⟩, h.records, h.tables⟩

/-- A change of memory that keeps the blocks of a space and the data pages of its frames. -/
theorem SpaceCore.transfer (h : SpaceCore s m)
    (hblocks : ∀ p n, ownsBlock s p → (p, n) ∈ m.blocks → (p, n) ∈ m'.blocks)
    (hdata : ∀ f, 0 < refsIn s f → frameData m' f = frameData m f) : SpaceCore s m' := by
  have hword : wordOf s m' = wordOf s m := by
    funext k
    rw [wordOf, wordOf]
    cases hp : pageAt s (k * 4096) with
    | none => rfl
    | some p =>
      obtain ⟨e, hu, rfl, _⟩ := (pageAt_iff h.records).1 hp
      exact leafEntry_congr (hdata _ (refsIn_pos hu))
  refine ⟨hblocks _ _ (.inl rfl) h.root, h.pml4, h.pdpt, h.directories, fun x hx => ?_, h.records,
    by rw [hword]; exact h.tables⟩
  exact ⟨hblocks _ _ (.inr (List.mem_map.2 ⟨x, hx, rfl⟩)) (h.allocated x hx).1, (h.allocated x hx).2⟩

/-- **The transfer rule.**  A space survives a change of memory that keeps its blocks and the data
pages of its frames, when the reference counts are right again for the new environment. -/
theorem SpaceOk.transfer (h : SpaceOk ext E s m) {ext' : ℕ → ℕ} {E' : ℕ → Prop}
    (hmem : MemoryOk (fun f => refsIn s f + ext' f) (fun p => ownsBlock s p ∨ E' p) m')
    (hapart : ∀ p, ownsBlock s p → ¬ E' p)
    (hblocks : ∀ p n, ownsBlock s p → (p, n) ∈ m.blocks → (p, n) ∈ m'.blocks)
    (hdata : ∀ f, 0 < refsIn s f → frameData m' f = frameData m f) : SpaceOk ext' E' s m' :=
  (h.core.transfer hblocks hdata).spaceOk hmem hapart

theorem plusRef_add (refs ext : ℕ → ℕ) (f : ℕ) :
    (fun g => refs g + plusRef ext f g) = plusRef (fun g => refs g + ext g) f := by
  funext g
  by_cases hg : g = f
  · subst hg
    simp only [plusRef_self]
    omega
  · simp only [plusRef_of_ne hg]

theorem plusRef_add_left (refs ext : ℕ → ℕ) (f : ℕ) :
    (fun g => plusRef refs f g + ext g) = plusRef (fun g => refs g + ext g) f := by
  funext g
  by_cases hg : g = f
  · subst hg
    simp only [plusRef_self]
    omega
  · simp only [plusRef_of_ne hg]

theorem SpaceOk.bytes (h : SpaceOk ext E s m) (contents : ℕ → ℕ → UInt8) :
    SpaceOk ext E s { m with bytes := contents } :=
  h.transfer ⟨⟨h.heap.memory.heap.apart, h.heap.memory.heap.bounds⟩, h.heap.memory.record,
    h.heap.memory.inj, h.heap.memory.apartOwned, h.heap.memory.live, h.heap.memory.counts,
    h.heap.memory.positive⟩ h.heap.apart (fun _ _ _ hb => hb) fun _ _ => rfl

theorem SpaceOk.retain (h : SpaceOk ext E s m) (hf : 0 < refsIn s f + ext f) :
    SpaceOk (plusRef ext f) E s (vmFrameRetain f m) := by
  refine h.transfer ?_ h.heap.apart (fun p n _ hb => by rwa [vmFrameRetain_blocks])
    fun g _ => frameData_retain f g m
  rw [plusRef_add]
  exact h.heap.memory.retain hf

theorem SpaceOk.release (h : SpaceOk (plusRef ext f) E s m) :
    SpaceOk ext E s (vmFrameRelease f m) := by
  have hmem := h.heap.memory
  rw [plusRef_add] at hmem
  refine h.transfer hmem.release h.heap.apart
    (fun p n hp hb => hmem.release_blocks f (.inl hp) hb) fun g hg => ?_
  exact frameData_release hmem.release (by omega)

/-- **A new frame**, whose one reference the caller holds. -/
theorem SpaceOk.create (h : SpaceOk ext E s m) :
    (∃ m', vmFrameCreate m = (none, m') ∧ SameFrames m m' ∧ m.blocks ⊆ m'.blocks ∧
      SpaceOk ext E s m') ∨
    (∃ f m', vmFrameCreate m = (some f, m') ∧ Created m f m' ∧ m.blocks ⊆ m'.blocks ∧
      refsIn s f + ext f = 0 ∧ SpaceOk (plusRef ext f) E s m') := by
  rcases vmFrameCreate_spec h.heap.memory with ⟨m', he, hs, hb, hm⟩ | ⟨f, m', he, hc, hb, hm⟩
  · refine .inl ⟨m', he, hs, hb, h.transfer hm h.heap.apart (fun p n _ hp => hb hp) ?_⟩
    intro f _
    rw [frameData, frameData, hs.1]
  · have hzero := h.heap.memory.frameReferences_of_none hc.fresh
    refine .inr ⟨f, m', he, hc, hb, hzero,
      h.transfer (by rw [plusRef_add]; exact hm) h.heap.apart (fun p n _ hp => hb hp) ?_⟩
    intro g hg
    refine hc.frameData ?_
    rintro rfl
    omega

/-! ### Records and leaf entries together -/

/-- The heap of a space does not depend on its records. -/
theorem SpaceHeap.congr {total : ℕ → ℕ} (h : SpaceHeap total E s m)
    (hroot : s'.rootAllocation = s.rootAllocation) (hpml4 : s'.pml4 = s.pml4)
    (hpdpt : s'.bootstrapPdpt = s.bootstrapPdpt)
    (hdir : s'.bootstrapDirectories = s.bootstrapDirectories)
    (htables : s'.allocatedTables = s.allocatedTables) : SpaceHeap total E s' m := by
  have howns : ownsBlock s' = ownsBlock s := by
    funext p
    rw [ownsBlock, ownsBlock, hroot, htables]
  exact ⟨howns ▸ h.memory, howns ▸ h.apart, hroot ▸ h.root, by rw [hpml4, hroot, h.pml4],
    by rw [hpdpt, hpml4, h.pdpt], by rw [hdir, hpml4, h.directories], htables ▸ h.tables⟩

theorem RecordsOk.congr (h : RecordsOk s) (hpages : s'.pages = s.pages)
    (hlookup : s'.pageLookup = s.pageLookup) : RecordsOk s' := by
  have hused : ∀ e, UsedRecord s' e ↔ UsedRecord s e := by
    intro e
    rw [UsedRecord, hpages, UsedRecord]
  have hhome : homeOf s' = homeOf s := by
    funext e
    simp only [homeOf, hused, hpages]
  refine ⟨by rw [hhome, hlookup]; exact h.index, ?_, ?_⟩
  · simpa only [UsedRecord, hpages] using h.distinct
  · simpa only [UsedRecord, hpages] using h.aligned

theorem pageAt_congr (hpages : s'.pages = s.pages) (hlookup : s'.pageLookup = s.pageLookup) (a : ℕ) :
    pageAt s' a = pageAt s a := by
  simp only [pageAt, findPage, hpages, hlookup]

theorem SpaceOk.leaf_table (h : SpaceOk ext E s m) {place : ℕ → Option (ℕ × ℕ)}
    (ht : TablesOk s place (wordOf s m)) (hu : UsedRecord s e) :
    ∃ t, tableAt s 3 ((s.pages e).virtualAddress / 2 ^ 21) = some t := by
  have halign := (h.records.aligned e hu).1
  obtain ⟨t, hat⟩ := ht.covered ((s.pages e).virtualAddress / 4096) (by
    rw [wordOf, show (s.pages e).virtualAddress / 4096 * 4096 = (s.pages e).virtualAddress by
      omega, pageAt_used h.records hu]
    exact leafEntry_ne_zero m _)
  refine ⟨t, ?_⟩
  rwa [Nat.div_div_eq_div_mul] at hat

/-- **Rewriting a mapping.**  Replace the record of a mapped page, possibly with another frame, and
write its leaf entry: the walk finds the entry, and the space is well formed again. -/
theorem SpaceOk.rewrite (h : SpaceOk ext E s m) (hu : UsedRecord s e) (hused : page.used = true)
    (hva : page.virtualAddress = (s.pages e).virtualAddress) {ext' : ℕ → ℕ}
    (hheap : SpaceHeap (fun f => refsIn (s.setPage e page) f + ext' f) E s m')
    (hdata : ∀ e', UsedRecord s e' → e' ≠ e →
      frameData m' (s.pages e').frame = frameData m (s.pages e').frame) :
    ∃ t i, walkPageEntry (s.setPage e page) page.virtualAddress false m' =
        (some (t, i), s.setPage e page, m') ∧
      SpaceOk ext' E ((s.setPage e page).setEntry t i (leafEntry m' page)) m' ∧
      ∀ a, pageAt ((s.setPage e page).setEntry t i (leafEntry m' page)) a =
        if alignDown a = page.virtualAddress then some page else pageAt s a := by
  obtain ⟨place, ht⟩ := h.tables
  obtain ⟨t, hat⟩ := h.leaf_table ht hu
  obtain ⟨halign, hcanon⟩ := h.records.aligned e hu
  rw [← hva] at hat halign hcanon
  have hlt : page.virtualAddress < 2 ^ 47 := hcanon.1
  have hrec := h.records.setPage hu hused hva
  have hpage := pageAt_of_set h.records hrec rfl hu.1 hused fun _ => hva.symm
  refine ⟨t, page.virtualAddress / 2 ^ 12 % 512, ?_, ?_, hpage⟩
  · have hat' : tableAt (s.setPage e page) 3 (page.virtualAddress / 2 ^ 21) = some t := hat
    rw [walkPageEntry_read (s := s.setPage e page) h.heap.pml4_pos hcanon, hat']
    rfl
  · refine ⟨hheap.congr rfl rfl rfl rfl rfl, hrec.congr rfl rfl, place, ?_⟩
    have hleaf := ht.setLeaf (i := page.virtualAddress / 2 ^ 12 % 512) (v := leafEntry m' page)
      (by omega) hat (by omega)
    rw [page_split] at hleaf
    have hother : ∀ b p, alignDown b ≠ page.virtualAddress → pageAt s b = some p →
        frameData m' p.frame = frameData m p.frame := by
      intro b p hne hp
      obtain ⟨e', hu', rfl, hpva⟩ := (pageAt_iff h.records).1 hp
      refine hdata e' hu' ?_
      rintro rfl
      exact hne (by rw [hva, hpva])
    have hword : wordOf ((s.setPage e page).setEntry t (page.virtualAddress / 2 ^ 12 % 512)
        (leafEntry m' page)) m' =
        update (wordOf s m) (page.virtualAddress / 4096) (leafEntry m' page) :=
      wordOf_set halign hpage hother
    rw [hword]
    exact ⟨hleaf.tree, hleaf.inner, hleaf.known, hleaf.leaf, hleaf.covered⟩

theorem refsIn_setPage_same (hused : page.used = (s.pages e).used)
    (hframe : page.frame = (s.pages e).frame) : refsIn (s.setPage e page) = refsIn s := by
  funext f
  refine countBelow_congr fun i _ => ?_
  by_cases hi : i = e
  · subst hi
    simp only [pointsAt, setPage_pages, update_self, hused, hframe]
  · simp only [pointsAt, setPage_pages, update_of_ne hi]

/-! ### Installing a page -/

theorem reserveFrom_spec {s : VmSpace} :
    ∀ (fuel offset index : ℕ), reserveFrom s fuel offset = some index →
      index < vmMaxPages ∧ (s.pages index).used = false := by
  intro fuel
  induction fuel with
  | zero => intro offset index h; simp [reserveFrom] at h
  | succ fuel ih =>
    intro offset index h
    rw [reserveFrom] at h
    split at h
    · exact ih _ _ h
    · rename_i hfree
      simp only [Option.some.injEq] at h
      rw [← h]
      exact ⟨Nat.mod_lt _ (by decide), by simpa using hfree⟩

/-- What does not touch records, blocks of others or tables beyond growing them. -/
theorem SpaceOk.grow (h : SpaceOk ext E s m) (ha : CanonicalUserAddress a) :
    ∃ r s' m', walkPageEntry s a true m = (r, s', m') ∧ SpaceOk ext E s' m' ∧ Grown s m s' m' ∧
      Adds (tablesMissing s a) s m (r, s', m') ∧
      ∀ t i, r = some (t, i) → tableAt s' 3 (a / 2 ^ 21) = some t ∧ i = a / 2 ^ 12 % 512 ∧
        GainsTables (fun j key => 0 < j ∧ key = tableKey a j) s s' := by
  obtain ⟨place, ht⟩ := h.tables
  obtain ⟨r, s', m', place', he, hadds, ht', hh', hg, hat⟩ := walkPageEntry_create ht h.heap ha
  have hword : wordOf s' m' = wordOf s m := by
    funext k
    have hleaf : leafEntry m' = leafEntry m := by
      funext p
      exact leafEntry_congr (by rw [frameData, frameData, hg.frames.1])
    rw [wordOf, wordOf, pageAt_congr hg.pages hg.lookup, hleaf]
  refine ⟨r, s', m', he, ⟨?_, h.records.congr hg.pages hg.lookup, place', by rw [hword]; exact ht'⟩,
    hg, hadds, hat⟩
  rw [refsIn_congr hg.pages]
  exact hh'

/-- The free-record hint is only a hint. -/
theorem SpaceOk.hint (h : SpaceOk ext E s m) (k : ℕ) : SpaceOk ext E { s with freePageHint := k } m := by
  obtain ⟨place, ht⟩ := h.tables
  exact ⟨h.heap.congr rfl rfl rfl rfl rfl, h.records.congr rfl rfl, place,
    ⟨ht.tree, ht.inner, ht.known, ht.leaf, ht.covered⟩⟩

/-- Clearing a record that is not in use changes nothing that is read. -/
theorem SpaceOk.clear_unused (h : SpaceOk ext E s m) (hfree : (s.pages e).used = false) :
    SpaceOk ext E (s.setPage e VmPage.zero) m ∧ refsIn (s.setPage e VmPage.zero) = refsIn s ∧
      ∀ b, pageAt (s.setPage e VmPage.zero) b = pageAt s b := by
  have hpages : ∀ e', UsedRecord s e' → (s.setPage e VmPage.zero).pages e' = s.pages e' := by
    intro e' hu
    refine update_of_ne ?_ ..
    rintro rfl
    rw [hu.2] at hfree
    simp at hfree
  have hused : ∀ e', UsedRecord (s.setPage e VmPage.zero) e' ↔ UsedRecord s e' := by
    intro e'
    refine ⟨fun hu => ?_, fun hu => ⟨hu.1, by rw [hpages e' hu]; exact hu.2⟩⟩
    rcases usedRecord_setPage hu with ⟨_, hz⟩ | ⟨_, hu'⟩
    · simp [VmPage.zero] at hz
    · exact hu'
  have hhome : homeOf (s.setPage e VmPage.zero) = homeOf s := by
    funext e'
    unfold homeOf
    by_cases hu : UsedRecord s e'
    · rw [if_pos hu, if_pos ((hused e').2 hu), hpages e' hu]
    · rw [if_neg hu, if_neg (fun hc => hu ((hused e').1 hc))]
  have hrec : RecordsOk (s.setPage e VmPage.zero) := by
    refine ⟨by rw [hhome]; exact h.records.index, fun e₁ e₂ h₁ h₂ heq => ?_, fun e₁ h₁ => ?_⟩
    · rw [hused] at h₁ h₂
      rw [hpages e₁ h₁, hpages e₂ h₂] at heq
      exact h.records.distinct e₁ e₂ h₁ h₂ heq
    · rw [hused] at h₁
      rw [hpages e₁ h₁]
      exact h.records.aligned e₁ h₁
  have hat : ∀ b, pageAt (s.setPage e VmPage.zero) b = pageAt s b := by
    intro b
    apply Option.ext
    intro q
    rw [pageAt_iff hrec, pageAt_iff h.records]
    constructor
    · rintro ⟨e', hu, hq, hva⟩
      rw [hused] at hu
      exact ⟨e', hu, by rw [← hpages e' hu]; exact hq, hva⟩
    · rintro ⟨e', hu, hq, hva⟩
      exact ⟨e', (hused e').2 hu, by rw [hpages e' hu]; exact hq, hva⟩
  have hrefs : refsIn (s.setPage e VmPage.zero) = refsIn s := by
    funext g
    refine countBelow_congr fun i _ => ?_
    by_cases hi : i = e
    · subst hi
      simp [pointsAt, hfree, VmPage.zero]
    · simp only [pointsAt, setPage_pages, update_of_ne hi]
  obtain ⟨place, ht⟩ := h.tables
  have hword : wordOf (s.setPage e VmPage.zero) m = wordOf s m := by
    funext k
    rw [wordOf, wordOf, hat]
  refine ⟨⟨by rw [hrefs]; exact h.heap.congr rfl rfl rfl rfl rfl, hrec, place, ?_⟩, hrefs, hat⟩
  rw [hword]
  exact ⟨ht.tree, ht.inner, ht.known, ht.leaf, ht.covered⟩

/-- Entering a record and its leaf entry: the pending reference becomes the record's. -/
theorem SpaceOk.enter (h : SpaceOk (plusRef ext page.frame) E s m) (hi : e < vmMaxPages)
    (hunused : (s.pages e).used = false) (hused : page.used = true)
    (halign : page.virtualAddress % 4096 = 0) (hcanon : CanonicalUserAddress page.virtualAddress)
    (hnew : findPage s page.virtualAddress = none) {slot t : ℕ}
    (hslot : insertSlot vmPageHashSize s.pageLookup vmPageHashSize
      (hashSlot page.virtualAddress) none = some slot)
    (htable : tableAt s 3 (page.virtualAddress / 2 ^ 21) = some t)
    (hs' : s' = VmSpace.setEntry { s.setPage e page with
      pageLookup := update s.pageLookup slot ((e : ℤ) + 1) }
      t (page.virtualAddress / 2 ^ 12 % 512) (leafEntry m page)) :
    SpaceOk ext E s' m ∧ refsIn s' = plusRef (refsIn s) page.frame ∧
      ∀ b, pageAt s' b = if alignDown b = page.virtualAddress then some page else pageAt s b := by
  have hnot : ¬ UsedRecord s e := fun hu => by rw [hu.2] at hunused; simp at hunused
  have hpages : s'.pages = update s.pages e page := by rw [hs']; rfl
  have hrec : RecordsOk s' := by
    have := h.records.insert hi hnot hused halign hcanon hnew hslot s.freePageHint
    exact this.congr (by rw [hs']; rfl) (by rw [hs']; rfl)
  have hset := pageAt_of_set h.records hrec hpages hi hused fun hu => absurd hu hnot
  have hrefs := refsIn_set hpages hi hused hunused
  refine ⟨⟨?_, hrec, ?_⟩, hrefs, hset⟩
  · have hheap := h.heap
    rw [plusRef_add, ← plusRef_add_left, ← hrefs] at hheap
    exact hheap.congr (by rw [hs']; rfl) (by rw [hs']; rfl) (by rw [hs']; rfl) (by rw [hs']; rfl)
      (by rw [hs']; rfl)
  · obtain ⟨place, ht⟩ := h.tables
    have hlt : page.virtualAddress < 2 ^ 47 := hcanon.1
    have hleaf := ht.setLeaf (i := page.virtualAddress / 2 ^ 12 % 512) (v := leafEntry m page)
      (by omega) htable (by omega)
    have hword : wordOf s' m = _ := wordOf_set (m := m) halign hset fun _ _ _ _ => rfl
    rw [page_split, show leafEntry m page = (some page).elim 0 (leafEntry m) from rfl,
      ← hword] at hleaf
    refine ⟨place, ?_⟩
    subst hs'
    exact ⟨hleaf.tree, hleaf.inner, hleaf.known, hleaf.leaf, hleaf.covered⟩

/-- **`install_page`.**  It fails and nothing that is read changed, or the reference the caller
held is now the one of the new record. -/
theorem installPage_spec (h : SpaceOk (plusRef ext f) E s m) (halign : a % 4096 = 0)
    (hcanon : CanonicalUserAddress a) (hnew : findPage s a = none) (protection : ℕ)
    (copyOnWrite shared : Bool) :
    (∃ s' m', installPage s a f protection copyOnWrite shared m = (false, s', m') ∧
      SpaceOk (plusRef ext f) E s' m' ∧ SameFrames m m' ∧ m.blocks ⊆ m'.blocks ∧
      refsIn s' = refsIn s ∧ ∀ b, pageAt s' b = pageAt s b) ∨
    (∃ s' m', installPage s a f protection copyOnWrite shared m = (true, s', m') ∧
      SpaceOk ext E s' m' ∧ SameFrames m m' ∧ m.blocks ⊆ m'.blocks ∧
      refsIn s' = plusRef (refsIn s) f ∧
      ∀ b, pageAt s' b = if alignDown b = a then
        some ⟨a, f, protection, copyOnWrite, shared, true⟩ else pageAt s b) := by
  -- reserving a record moves the hint only
  obtain ⟨record, s1, hreserve, h1, hp1, hl1, hrecord⟩ : ∃ record s1,
      reservePageRecord s = (record, s1) ∧ SpaceOk (plusRef ext f) E s1 m ∧ s1.pages = s.pages ∧
      s1.pageLookup = s.pageLookup ∧
      ∀ index, record = some index → index < vmMaxPages ∧ (s.pages index).used = false := by
    unfold reservePageRecord
    cases hr : reserveFrom s vmMaxPages 0 with
    | none => exact ⟨none, s, rfl, h, rfl, rfl, fun _ hx => by simp at hx⟩
    | some index =>
      refine ⟨some index, _, rfl, h.hint _, rfl, rfl, fun i hi => ?_⟩
      rw [← Option.some.inj hi]
      exact reserveFrom_spec _ _ _ hr
  obtain ⟨entry, s2, m2, hwalk, h2, hg, -, hat⟩ := h1.grow hcanon
  have hpages : s2.pages = s.pages := hg.pages.trans hp1
  have hlookup : s2.pageLookup = s.pageLookup := hg.lookup.trans hl1
  have hpageAt : ∀ b, pageAt s2 b = pageAt s b := pageAt_congr hpages hlookup
  have hblocks : m.blocks ⊆ m2.blocks := fun b hb => hg.blocks b hb
  unfold installPage
  rw [hreserve]
  simp only
  rw [hwalk]
  rcases record with _ | index
  · exact .inl ⟨s2, m2, rfl, h2, hg.frames, hblocks, refsIn_congr hpages, hpageAt⟩
  rcases entry with _ | ⟨t, i⟩
  · exact .inl ⟨s2, m2, rfl, h2, hg.frames, hblocks, refsIn_congr hpages, hpageAt⟩
  obtain ⟨hindex, hunused⟩ := hrecord index rfl
  rw [← hpages] at hunused
  obtain ⟨htable, hi, -⟩ := hat t i rfl
  generalize hpage : (⟨a, f, protection, copyOnWrite, shared, true⟩ : VmPage) = page
  have hva : page.virtualAddress = a := by rw [← hpage]
  have hused : page.used = true := by rw [← hpage]
  have hframe : page.frame = f := by rw [← hpage]
  have hself : ((s2.setPage index page).pages index).virtualAddress = page.virtualAddress := by simp
  simp only [insertPageLookup, hself]
  rw [show (s2.setPage index page).pageLookup = s2.pageLookup from rfl]
  cases hslot : insertSlot vmPageHashSize s2.pageLookup vmPageHashSize
      (hashSlot page.virtualAddress) none with
  | none =>
    -- the index is full: the record is cleared again
    have hback : (s2.setPage index page).setPage index VmPage.zero =
        s2.setPage index VmPage.zero := by
      simp only [VmSpace.setPage, update_idem]
    obtain ⟨hok, hrefs, hsame⟩ := h2.clear_unused hunused
    refine .inl ⟨_, m2, rfl, by rw [hback]; exact hok, hg.frames, hblocks, ?_, fun b => ?_⟩
    · rw [hback, hrefs, refsIn_congr hpages]
    · rw [hback, hsame, hpageAt]
  | some slot =>
    right
    have hfresh : findPage s2 page.virtualAddress = none := by
      rw [hva]
      simpa only [findPage, hpages, hlookup] using hnew
    subst hi
    rw [← hva] at htable halign hcanon
    rw [← hframe] at h2
    obtain ⟨hok, hrefs, hset⟩ := h2.enter hindex hunused hused halign hcanon hfresh hslot htable rfl
    rw [hva, hframe, refsIn_congr hpages] at *
    exact ⟨_, m2, rfl, hok, hg.frames, hblocks, hrefs, fun b => by rw [← hpageAt]; exact hset b⟩

/-! ### Unmapping a page -/

theorem removePageLookup_eq (s : VmSpace) (e : ℕ) :
    ∃ lookup hint, removePageLookup s e = { s with pageLookup := lookup, freePageHint := hint } := by
  unfold removePageLookup
  split
  · exact ⟨s.pageLookup, s.freePageHint, rfl⟩
  · exact ⟨_, _, rfl⟩

/-- Clearing a record and its leaf entry: the record's reference becomes the caller's. -/
theorem SpaceOk.leave (h : SpaceOk ext E s m) (hu : UsedRecord s e) {t : ℕ}
    (htable : tableAt s 3 ((s.pages e).virtualAddress / 2 ^ 21) = some t)
    (hs' : s' = (removePageLookup (s.setEntry t ((s.pages e).virtualAddress / 2 ^ 12 % 512) 0)
      e).setPage e VmPage.zero) :
    SpaceOk (plusRef ext (s.pages e).frame) E s' m ∧
      refsIn s = plusRef (refsIn s') (s.pages e).frame ∧
      ∀ b, pageAt s' b = if alignDown b = (s.pages e).virtualAddress then none else pageAt s b := by
  obtain ⟨halign, hcanon⟩ := h.records.aligned e hu
  have hlt : (s.pages e).virtualAddress < 2 ^ 47 := hcanon.1
  have hrec : RecordsOk s' := by
    rw [hs']
    have h0 : RecordsOk (s.setEntry t ((s.pages e).virtualAddress / 2 ^ 12 % 512) 0) :=
      h.records.congr rfl rfl
    exact h0.remove hu
  obtain ⟨lookup, hint, hremove⟩ :=
    removePageLookup_eq (s.setEntry t ((s.pages e).virtualAddress / 2 ^ 12 % 512) 0) e
  rw [hremove] at hs'
  have hpages : s'.pages = update s.pages e VmPage.zero := by rw [hs']; rfl
  have hset := pageAt_of_clear h.records hrec hpages hu
  have hrefs := refsIn_clear hpages hu
  refine ⟨⟨?_, hrec, ?_⟩, hrefs, hset⟩
  · have hheap := h.heap
    rw [hrefs, plusRef_add_left, ← plusRef_add] at hheap
    exact hheap.congr (by rw [hs']; rfl) (by rw [hs']; rfl) (by rw [hs']; rfl) (by rw [hs']; rfl)
      (by rw [hs']; rfl)
  · obtain ⟨place, ht⟩ := h.tables
    have hleaf := ht.setLeaf (i := (s.pages e).virtualAddress / 2 ^ 12 % 512) (v := 0)
      (by omega) htable (by omega)
    have hword : wordOf s' m = _ := wordOf_set (m := m) halign hset fun _ _ _ _ => rfl
    rw [page_split, show (0 : ℕ) = (none : Option VmPage).elim 0 (leafEntry m) from rfl,
      ← hword] at hleaf
    refine ⟨place, ?_⟩
    subst hs'
    exact ⟨hleaf.tree, hleaf.inner, hleaf.known, hleaf.leaf, hleaf.covered⟩

/-- **`vm_unmap_page`** removes the page and gives its reference back, or there was none. -/
theorem vmUnmapPage_spec (h : SpaceOk ext E s m) (va : ℕ) :
    (vmUnmapPage s va m = (false, s, m) ∧ pageAt s va = none) ∨
    (∃ p s', pageAt s va = some p ∧
      vmUnmapPage s va m = (true, s', vmFrameRelease p.frame m) ∧
      SpaceOk ext E s' (vmFrameRelease p.frame m) ∧ refsIn s = plusRef (refsIn s') p.frame ∧
      ∀ b, pageAt s' b = if alignDown b = alignDown va then none else pageAt s b) := by
  unfold vmUnmapPage
  cases hf : findPage s (alignDown va) with
  | none =>
    refine .inl ⟨rfl, ?_⟩
    rw [pageAt, ← findPage_alignDown, hf]
    rfl
  | some index =>
    right
    obtain ⟨hu, hva⟩ := findPage_sound h.records hf
    rw [alignDown_alignDown] at hva
    obtain ⟨place, ht⟩ := h.tables
    obtain ⟨t, hat⟩ := h.leaf_table ht hu
    obtain ⟨_, hcanon⟩ := h.records.aligned index hu
    obtain ⟨hok, hrefs, hset⟩ := h.leave hu hat rfl
    rw [← hva]
    simp only [walkPageEntry_read h.heap.pml4_pos hcanon, hat, Option.map_some]
    refine ⟨s.pages index, _, ?_, rfl, hok.release, hrefs, hset⟩
    rw [pageAt, ← findPage_alignDown, hf]
    rfl

end NovaOS.Vm
