import NovaOS.Vm.Growth

/-!
# The capacity of an address space

`vm_map_page` needs a frame, a record, the tables on the way to the page, and a slot of the page index
that was never used.  A page that is unmapped gives back its frame and its record, but its slot is only
marked as deleted, and `insert_page_lookup` takes a deleted slot only when it has come to a never-used
one.

* `Available s a m` — the frame, the record and the tables are to be had;
* `mapping_succeeds_iff` — **then the page is mapped exactly when the index has a never-used slot**;
* `Worn`, `Worn.step` — what a page that comes and goes leaves behind: its tables, and a used slot;
* `worn_index_refuses` — when the pages of one gigabyte have come and gone, nothing can be mapped.
-/

namespace NovaOS.Vm

open NovaOS.ProbeTable Function List Option
open NovaOS.Heap (heapStart heapEnd)

/-! ### A page -/

/-- What a new page takes: a record, tables within the limit, and what the heap has to give. -/
structure Available (s : VmSpace) (a : ℕ) (m : Memory) : Prop where
  record : mappedPages s < vmMaxPages
  limit : s.allocatedTables.length + tablesMissing s a ≤ vmMaxTables
  frame : (vmFrameCreate m).1.isSome = true
  tables : PagesServed (tablesMissing s a) (vmFrameCreate m).2

section Pages

variable {s : VmSpace} {m : Memory} {ext : ℕ → ℕ} {E : ℕ → Prop} {a : ℕ}

/-- **A page that is not mapped can be mapped exactly when the index has a never-used slot**, where
everything else it takes is to be had. -/
theorem vmMapPage_available (h : SpaceOk ext E s m) (halign : a % 4096 = 0)
    (ha : CanonicalUserAddress a) (hnew : findPage s a = none) (hav : Available s a m)
    (protection : ℕ) : (vmMapPage s a protection m).1 = true ↔ IndexOpen s := by
  have hnone : pageAt s a = none := by
    rw [pageAt, hnew]
    rfl
  rw [vmMapPage_iff h halign protection, hnone]
  constructor
  · rintro ⟨-, hthere | hobtain⟩
    · cases hthere
    · exact hobtain.index
  · exact fun hopen => ⟨ha, .inr ⟨hav.frame, hav.record, .inr ⟨hav.limit, hav.tables⟩, hopen⟩⟩

end Pages

/-! ### Pages that come and go

A page of a shared frame takes no frame of its own.  Mapping and unmapping one leaves its home slot
used. -/

section Wear

variable {s s' : VmSpace} {m : Memory} {ext : ℕ → ℕ} {E : ℕ → Prop} {a f : ℕ}

theorem mappedPages_eq_zero (h : SpaceOk ext E s m) (hempty : ∀ b, pageAt s b = none) :
    mappedPages s = 0 := by
  refine countBelow_eq_zero fun e he => ?_
  by_contra hused
  have hpage := pageAt_used h.records ⟨he, Bool.of_not_eq_false hused⟩
  rw [hempty] at hpage
  cases hpage

theorem removePageLookup_wears (s : VmSpace) (e : ℕ) : Wears s (removePageLookup s e) := by
  intro j hj
  unfold removePageLookup
  split
  · exact hj
  · rename_i slot _
    show update s.pageLookup slot (-1) j ≠ 0
    by_cases heq : j = slot
    · rw [heq, update_self]
      decide
    · rwa [update_of_ne heq]

/-- **`vm_unmap_page`** gives back neither slots nor tables. -/
theorem vmUnmapPage_wears (h : SpaceOk ext E s m) (va : ℕ) :
    ∃ ok s' m', vmUnmapPage s va m = (ok, s', m') ∧ Wears s s' ∧
      s'.allocatedTables = s.allocatedTables ∧
      (∀ n, (tableAt s 3 n).isSome = true → (tableAt s' 3 n).isSome = true) ∧
      (m' = m ∨ ∃ g, m' = vmFrameRelease g m) := by
  unfold vmUnmapPage
  cases hf : findPage s (alignDown va) with
  | none => exact ⟨false, s, m, rfl, fun _ hj => hj, rfl, fun _ hn => hn, .inl rfl⟩
  | some index =>
    obtain ⟨hu, hva⟩ := findPage_sound h.records hf
    rw [alignDown_alignDown] at hva
    obtain ⟨place, ht⟩ := h.tables
    obtain ⟨t, hat⟩ := h.leaf_table ht hu
    obtain ⟨-, hcanon⟩ := h.records.aligned index hu
    have hlt : (s.pages index).virtualAddress < 2 ^ 47 := hcanon.1
    rw [← hva]
    simp only [walkPageEntry_read h.heap.pml4_pos hcanon, hat, map_some]
    generalize hs1 : s.setEntry t ((s.pages index).virtualAddress / 2 ^ 12 % 512) 0 = s1
    have hlookup : s1.pageLookup = s.pageLookup := by rw [← hs1]; rfl
    have hwears := removePageLookup_wears s1 index
    obtain ⟨lookup, hint, hremove⟩ := removePageLookup_eq s1 index
    refine ⟨true, _, _, rfl, ?_, ?_, ?_, .inr ⟨_, rfl⟩⟩
    · intro j hj
      exact hwears j (by rwa [hlookup])
    · rw [hremove, ← hs1]
      rfl
    · intro n hn
      obtain ⟨t', ht'⟩ := isSome_iff_exists.1 hn
      have hkept : tableAt s1 3 n = some t' := by
        rw [← hs1]
        exact (ht.tableAt_setLeaf (by omega) hat le_rfl).trans ht'
      rw [hremove]
      exact isSome_iff_exists.2 ⟨t', hkept⟩

/-- **`vm_map_shared_frame`** of a page that is not mapped. -/
theorem vmMapSharedFrame_served (h : SpaceOk ext E s m) (halign : a % 4096 = 0)
    (ha : CanonicalUserAddress a) (hempty : ∀ b, pageAt s b = none) (hlive : 0 < ext f)
    (hroom : TableRoom (tablesMissing s a) s (vmFrameRetain f m)) (protection : ℕ) :
    ∃ ok s' m', vmMapSharedFrame s a f protection m = (ok, s', m') ∧
      s'.allocatedTables.length = s.allocatedTables.length + tablesMissing s a ∧ Marks a s s' ∧
      (m' = takePages (tablesMissing s a) (vmFrameRetain f m) ∨
        m' = vmFrameRelease f (takePages (tablesMissing s a) (vmFrameRetain f m))) := by
  have hframe : m.frames f ≠ none := by
    intro hnone
    have hcount := h.heap.memory.counts f
    rw [frameReferences, hnone] at hcount
    change 0 = refsIn s f + ext f at hcount
    omega
  have hnew : findPage s a = none := by
    have hnone := hempty a
    rwa [pageAt, map_eq_none_iff] at hnone
  have hrecord : mappedPages s < vmMaxPages := by
    rw [mappedPages_eq_zero h hempty]
    decide
  obtain ⟨ok, s1, m1, hinstall, -, htook, -⟩ :=
    installPage_iff (h.retain (f := f) (by omega)) ha f protection false true
  obtain ⟨⟨hlength, hm1⟩, hmarks⟩ := htook hrecord (.inr hroom)
  rw [vmMapSharedFrame, if_neg (by simp [h.heap.pml4_pos, hframe, halign, ha, hnew]), hinstall]
  cases ok with
  | false => exact ⟨false, s1, _, rfl, hlength, hmarks, .inr (by rw [hm1])⟩
  | true => exact ⟨true, s1, m1, rfl, hlength, hmarks, .inl hm1⟩

end Wear

/-! ### A heap that serves -/

/-- The heap hands out blocks 32 KiB apart, and no block is larger. -/
structure Strided (m : Memory) : Prop where
  choices : m.choices = stridedChoices
  blocks : ∀ b ∈ m.blocks, b.2 ≤ 32768 ∧ ∃ c, c < m.calls ∧ b.1 = heapStart + 4096 + c * 32768

section Strided

variable {m : Memory}

section

variable (h : Strided m)

include h

theorem Strided.alloc (size : ℕ) (hpos : 0 < size) (hsize : size ≤ 32768)
    (hcalls : m.calls < 30000) :
    ∃ p m', heapAlloc size m = (some p, m') ∧ Strided m' ∧ m'.calls = m.calls + 1 := by
  have hfits : Fits m.blocks (heapStart + 4096 + m.calls * 32768) size := by
    refine ⟨hpos, by omega, ?_, ?_, ?_⟩
    · simp only [heapStart]
      omega
    · simp only [heapStart, heapEnd]
      omega
    · intro b hb
      obtain ⟨hlarge, c, hc, hplace⟩ := h.blocks b hb
      left
      omega
  have hserved : heapAlloc size m = (some (heapStart + 4096 + m.calls * 32768),
      { m with
        calls := m.calls + 1
        blocks := (heapStart + 4096 + m.calls * 32768, size) :: m.blocks }) := by
    rw [heapAlloc, h.choices, stridedChoices]
    simp only
    rw [if_pos hfits]
  refine ⟨_, _, hserved, ⟨h.choices, ?_⟩, rfl⟩
  intro b hb
  rcases mem_cons.1 hb with rfl | hb
  · exact ⟨hsize, m.calls, Nat.lt_succ_self _, rfl⟩
  · obtain ⟨hlarge, c, hc, hplace⟩ := h.blocks b hb
    exact ⟨hlarge, c, Nat.lt_succ_of_lt hc, hplace⟩

theorem Strided.page (hcalls : m.calls < 30000) :
    ∃ x m', alignedHeapAlloc 4096 4096 m = (some x, m') ∧ Strided m' ∧ m'.calls = m.calls + 1 := by
  obtain ⟨p, m', halloc, hm', hnext⟩ := h.alloc (4096 + 4096 - 1) (by omega) (by omega) hcalls
  refine ⟨(pageOf p, p), m', ?_, hm', hnext⟩
  rw [alignedHeapAlloc_page, halloc]

/-- Any number of tables is served, as long as there are addresses left. -/
theorem Strided.served (n : ℕ) (hcalls : m.calls + n ≤ 30000) :
    PagesServed n m ∧ Strided (takePages n m) ∧ (takePages n m).calls = m.calls + n := by
  induction n generalizing m with
  | zero => exact ⟨trivial, h, rfl⟩
  | succ n ih =>
    obtain ⟨p, m', halloc, hm', hnext⟩ := h.alloc pageRequest (by decide) (by decide) (by omega)
    obtain ⟨hserved, hstrided, hlast⟩ := ih hm' (by omega)
    rw [PagesServed, takePages, replicate_succ, HeapServes, heapAfter, foldl_cons, halloc]
    exact ⟨⟨rfl, hserved⟩, hstrided, hlast.trans (by omega)⟩

theorem Strided.retain (f : ℕ) :
    Strided (vmFrameRetain f m) ∧ (vmFrameRetain f m).calls = m.calls := by
  unfold vmFrameRetain
  split
  · exact ⟨h, rfl⟩
  · exact ⟨⟨h.choices, h.blocks⟩, rfl⟩

theorem Strided.free (p : ℕ) : Strided (heapFree p m) :=
  ⟨h.choices, fun b hb => h.blocks b (mem_filter.1 hb).1⟩

theorem Strided.release (f : ℕ) :
    Strided (vmFrameRelease f m) ∧ (vmFrameRelease f m).calls = m.calls := by
  unfold vmFrameRelease
  split
  · exact ⟨h, rfl⟩
  · split
    · exact ⟨h, rfl⟩
    · split
      · exact ⟨⟨h.choices, h.blocks⟩, rfl⟩
      · rename_i r _ _ _
        have hdropped : Strided { m with frames := update m.frames f none } := ⟨h.choices, h.blocks⟩
        exact ⟨(hdropped.free r.allocation).free f, rfl⟩

theorem Strided.frame (hcalls : m.calls + 2 ≤ 30000) :
    ∃ f m', vmFrameCreate m = (some f, m') ∧ Strided m' ∧ m'.calls = m.calls + 2 := by
  obtain ⟨f, m1, hrecord, h1, hcalls1⟩ := h.alloc frameRecordSize (by decide) (by decide) (by omega)
  obtain ⟨⟨data, allocation⟩, m2, hpage, h2, hcalls2⟩ := h1.page (by omega)
  have hmade : vmFrameCreate m = (some f,
      { m2 with
        bytes := update m2.bytes data fun _ => 0
        frames := update m2.frames f (some ⟨data, allocation, 1⟩) }) := by
    rw [vmFrameCreate, hrecord]
    simp only
    rw [hpage]
  refine ⟨f, _, hmade, ⟨h2.choices, h2.blocks⟩, ?_⟩
  show m2.calls = m.calls + 2
  omega

/-- What is left of the heap is enough for a page. -/
theorem Strided.available {s : VmSpace} {a : ℕ} (hrecord : mappedPages s < vmMaxPages)
    (hlimit : s.allocatedTables.length + tablesMissing s a ≤ vmMaxTables)
    (hcalls : m.calls + 2 + tablesMissing s a ≤ 30000) : Available s a m := by
  obtain ⟨f, m', he, hm', hcalls'⟩ := h.frame (by omega)
  refine ⟨hrecord, hlimit, ?_, ?_⟩
  · rw [he]
    rfl
  · rw [he]
    exact (hm'.served _ (by omega)).1

end

end Strided

/-! ### Wearing out the index -/

/-- The pages of one gigabyte. -/
def wornPage (k : ℕ) : ℕ := vmUserMmapBase + k * 4096

/-- The shared frame. -/
def wornFrame : ℕ := heapStart + 4096 + 32768

/-- Every page of the first `n` is mapped and unmapped, one after the other. -/
def wornOps (n : ℕ) : List VmOp :=
  [.create, .holdFrame] ++ (List.range n).flatMap fun k =>
    [.mapSharedFrame 0 (wornPage k) wornFrame 3, .unmapPage 0 (wornPage k)]

/-- The world after `n` pages have come and gone. -/
def worn (n : ℕ) : World := (World.initial stridedChoices fun _ _ => 0).run (wornOps n)

/-- What `n` pages leave behind: tables, and their home slots. -/
structure Worn (n : ℕ) (w : World) (s : VmSpace) : Prop where
  world : WorldOk w
  space : w.spaces 0 = some s
  held : 0 < w.held wornFrame
  empty : ∀ b, pageAt s b = none
  heap : Strided w.memory
  calls : w.memory.calls = 3 + s.allocatedTables.length
  tables : s.allocatedTables.length ≤ 3 * min n 1 + (n - 1) / 512
  last : ∀ k, k + 1 = n → (tableAt s 3 (wornPage k / 2 ^ 21)).isSome = true
  slots : ∀ k, k < n → s.pageLookup (hashSlot (wornPage k)) ≠ 0

theorem worn_succ (n : ℕ) : worn (n + 1) =
    ((worn n).step (.mapSharedFrame 0 (wornPage n) wornFrame 3)).step (.unmapPage 0 (wornPage n)) := by
  simp only [worn, wornOps, World.run, range_succ, flatMap_append, flatMap_singleton,
    foldl_append, foldl_cons, foldl_nil]

theorem missing_le (table : Option ℕ) : missing table ≤ 1 := by
  unfold missing
  split <;> omega

theorem missing_eq_zero {table : Option ℕ} (h : table.isSome = true) : missing table = 0 := by
  rw [missing, if_pos h]

/-- The way to a page whose leaf table is there is complete. -/
theorem missing_above {s : VmSpace} {a : ℕ} (h : (tableAt s 3 (a / 2 ^ 21)).isSome = true) :
    missing (tableAt s 1 (a / 2 ^ 39)) = 0 ∧ missing (tableAt s 2 (a / 2 ^ 30)) = 0 := by
  rw [tableAt_three] at h
  have h2 : (tableAt s 2 (a / 2 ^ 30)).isSome = true := isSome_of_isSome_bind h
  refine ⟨missing_eq_zero ?_, missing_eq_zero h2⟩
  rw [tableAt_two] at h2
  exact isSome_of_isSome_bind h2

theorem wornPage_ok {k : ℕ} (hk : k < vmPageHashSize) :
    wornPage k % 4096 = 0 ∧ CanonicalUserAddress (wornPage k) := by
  simp only [vmPageHashSize] at hk
  simp only [wornPage, CanonicalUserAddress, vmCanonicalLimit, vmUserMmapBase, vmUserBase,
    vmUserMmapLimit]
  omega

variable {w : World} {s : VmSpace} {n : ℕ}

/-- The tables the next page takes: three for the first page, then one for every 512 pages. -/
theorem Worn.missing (h : Worn n w s) (hn : n < vmPageHashSize) :
    s.allocatedTables.length + tablesMissing s (wornPage n) ≤ 3 * min (n + 1) 1 + n / 512 := by
  have htables := h.tables
  have h1 := missing_le (tableAt s 1 (wornPage n / 2 ^ 39))
  have h2 := missing_le (tableAt s 2 (wornPage n / 2 ^ 30))
  have h3 := missing_le (tableAt s 3 (wornPage n / 2 ^ 21))
  simp only [vmPageHashSize] at hn
  rw [tablesMissing]
  rcases eq_zero_or_pos n with rfl | hpos
  · omega
  have hlast := h.last (n - 1) (by omega)
  obtain ⟨hup1, hup2⟩ := missing_above hlast
  have hsame1 : wornPage n / 2 ^ 39 = wornPage (n - 1) / 2 ^ 39 := by
    simp only [wornPage, vmUserMmapBase]
    omega
  have hsame2 : wornPage n / 2 ^ 30 = wornPage (n - 1) / 2 ^ 30 := by
    simp only [wornPage, vmUserMmapBase]
    omega
  rw [hsame1, hsame2, hup1, hup2]
  by_cases hfirst : n % 512 = 0
  · omega
  · have hsame3 : wornPage n / 2 ^ 21 = wornPage (n - 1) / 2 ^ 21 := by
      simp only [wornPage, vmUserMmapBase]
      omega
    rw [hsame3, missing_eq_zero hlast]
    omega

theorem Worn.others_pos (h : Worn n w s) : 0 < w.others 0 wornFrame := Nat.add_pos_right _ h.held

/-- **One page comes and goes.** -/
theorem Worn.step (h : Worn n w s) (hn : n < vmPageHashSize) :
    ∃ s', Worn (n + 1)
      ((w.step (.mapSharedFrame 0 (wornPage n) wornFrame 3)).step (.unmapPage 0 (wornPage n))) s' := by
  obtain ⟨halign, hcanon⟩ := wornPage_ok hn
  have hok := h.world.spaceOk h.space
  have hmissing := h.missing hn
  have hn' : n < 262144 := hn
  have hcalls := h.calls
  generalize hk : tablesMissing s (wornPage n) = k at hmissing
  obtain ⟨hretained, hretainedCalls⟩ := h.heap.retain wornFrame
  obtain ⟨hserved, htaken, htakenCalls⟩ := hretained.served k (by omega)
  have hroom : TableRoom (tablesMissing s (wornPage n)) s (vmFrameRetain wornFrame w.memory) := by
    rw [hk]
    exact ⟨by simp only [vmMaxTables]; omega, hserved⟩
  -- the page comes
  obtain ⟨ok, s1, m1, hmap, hlength, ⟨hwears, hhome, hleaf⟩, hm1⟩ :=
    vmMapSharedFrame_served hok halign hcanon h.empty h.others_pos hroom 3
  rw [hk] at hlength hm1
  have hstrided1 : Strided m1 ∧ m1.calls = w.memory.calls + k := by
    rcases hm1 with rfl | rfl
    · exact ⟨htaken, by rw [htakenCalls, hretainedCalls]⟩
    · obtain ⟨hreleased, hreleasedCalls⟩ := htaken.release wornFrame
      exact ⟨hreleased, by rw [hreleasedCalls, htakenCalls, hretainedCalls]⟩
  have hstep1 : w.step (.mapSharedFrame 0 (wornPage n) wornFrame 3) = w.put 0 (some s1) m1 := by
    rw [World.step, World.onSpace, h.space]
    simp only
    rw [hmap]
  have hworld1 := h.world.step (.mapSharedFrame 0 (wornPage n) wornFrame 3)
  have hpages1 : ∀ b, alignDown b ≠ wornPage n → pageAt s1 b = none := by
    intro b hb
    obtain ⟨ok', s1', m1', hmap', -, -, -, hcase⟩ := vmMapSharedFrame_spec hok (wornPage n) wornFrame 3
    rw [hmap] at hmap'
    cases hmap'
    rcases hcase with ⟨-, -, hpages⟩ | ⟨-, -, -, -, -, hpages⟩
    · rw [hpages, h.empty]
    · rw [hpages, if_neg hb, h.empty]
  rw [hstep1] at hworld1 ⊢
  -- and goes
  have hok1 := hworld1.spaceOk (w.put_self 0 (some s1) m1)
  obtain ⟨ok2, s2, m2, hunmap, hwears2, htables2, hleaf2, hm2⟩ := vmUnmapPage_wears hok1 (wornPage n)
  have hstep2 : (w.put 0 (some s1) m1).step (.unmapPage 0 (wornPage n)) =
      (w.put 0 (some s1) m1).put 0 (some s2) m2 := by
    rw [World.step, World.onSpace, World.put_self]
    simp only
    rw [hunmap]
  have hworld2 := hworld1.step (.unmapPage 0 (wornPage n))
  rw [hstep2] at hworld2 ⊢
  have hempty : ∀ b, pageAt s2 b = none := by
    intro b
    rcases vmUnmapPage_spec hok1 (wornPage n) with ⟨he, hnone⟩ | ⟨p, s2', -, he, -, -, hpages⟩
    · rw [hunmap] at he
      cases he
      by_cases hb : alignDown b = wornPage n
      · rw [← pageAt_alignDown, hb, hnone]
      · exact hpages1 b hb
    · rw [hunmap] at he
      cases he
      rw [hpages, alignDown_eq halign]
      split
      · rfl
      · rename_i hb
        exact hpages1 b hb
  have hstrided2 : Strided m2 ∧ m2.calls = m1.calls := by
    rcases hm2 with rfl | ⟨g, rfl⟩
    · exact ⟨hstrided1.1, rfl⟩
    · exact hstrided1.1.release g
  refine ⟨s2, hworld2, World.put_self _ _ _ _, h.held, hempty, hstrided2.1, ?_, ?_, ?_, ?_⟩
  · show m2.calls = 3 + s2.allocatedTables.length
    rw [hstrided2.2, hstrided1.2, htables2, hlength, hcalls, add_assoc]
  · rw [htables2, hlength]
    exact hmissing
  · intro k' hk'
    obtain rfl : k' = n := by omega
    exact hleaf2 _ hleaf
  · intro k' hk'
    rcases Nat.lt_succ_iff_lt_or_eq.1 hk' with hlt | rfl
    · exact hwears2 _ (hwears _ (h.slots k' hlt))
    · exact hwears2 _ hhome

theorem worn_zero : ∃ s, Worn 0 (worn 0) s := by
  have hworld : WorldOk (worn 0) := (WorldOk.initial _ _).run _
  have hspace : ((worn 0).spaces 0).isSome = true := by decide +kernel
  obtain ⟨s, hs⟩ := isSome_iff_exists.1 hspace
  have hunused : ∀ e, (s.pages e).used = false := by
    intro e
    obtain rfl : _ = s := some.inj hs
    rfl
  have hblocks : (worn 0).memory.blocks = [(heapStart + 4096 + 2 * 32768, 8191),
      (heapStart + 4096 + 1 * 32768, 24), (heapStart + 4096 + 0 * 32768, 28671)] := by
    decide +kernel
  have hcalls : (worn 0).memory.calls = 3 := by decide +kernel
  have htables : s.allocatedTables = [] := by
    obtain rfl : _ = s := some.inj hs
    rfl
  refine ⟨s, hworld, hs, by decide +kernel, ?_, ⟨rfl, ?_⟩, ?_, ?_, ?_, ?_⟩
  · intro b
    rw [pageAt, map_eq_none_iff, findPage_none_iff (hworld.spaceOk hs).records]
    intro e hu
    rw [UsedRecord, hunused] at hu
    exact absurd hu.2 Bool.false_ne_true
  · rw [hblocks, hcalls]
    simp only [forall_mem_cons, not_mem_nil, false_imp_iff, implies_true, and_true]
    exact ⟨⟨by decide, 2, by decide, rfl⟩, ⟨by decide, 1, by decide, rfl⟩, by decide, 0, by decide, rfl⟩
  · rw [hcalls, htables]
    rfl
  · rw [htables]
    exact Nat.zero_le _
  · intro k hk
    omega
  · intro k hk
    omega

/-- **Pages that come and go leave nothing but tables and used slots.** -/
theorem worn_ok (n : ℕ) (hn : n ≤ vmPageHashSize) : ∃ s, Worn n (worn n) s := by
  induction n with
  | zero => exact worn_zero
  | succ n ih =>
    obtain ⟨s, hs⟩ := ih (by omega)
    rw [worn_succ]
    exact hs.step hn

/-- The multiplier of the hash is odd, so the home slots of the pages of a gigabyte are all slots. -/
theorem hashSlot_wornPage {j : ℕ} (hj : j < vmPageHashSize) :
    ∃ k, k < vmPageHashSize ∧ hashSlot (wornPage k) = j := by
  simp only [vmPageHashSize] at hj ⊢
  refine ⟨j * 208721 % 262144, Nat.mod_lt _ (by omega), ?_⟩
  have hpage : wornPage (j * 208721 % 262144) / 4096 = 16777216 + j * 208721 % 262144 := by
    simp only [wornPage, vmUserMmapBase]
    omega
  rw [hashSlot, hpage]
  simp only [vmPageHashSize]
  omega

/-- What is left after `n` pages is enough for one more page of the first table. -/
theorem Worn.available (h : Worn n w s) (hn : n ≤ vmPageHashSize) :
    mappedPages s = 0 ∧ findPage s (wornPage 0) = none ∧ Available s (wornPage 0) w.memory := by
  have hmapped := mappedPages_eq_zero (h.world.spaceOk h.space) h.empty
  have htables := h.tables
  have hcalls := h.calls
  simp only [vmPageHashSize] at hn
  have hmissing : tablesMissing s (wornPage 0) ≤ 3 := by
    have h1 := missing_le (tableAt s 1 (wornPage 0 / 2 ^ 39))
    have h2 := missing_le (tableAt s 2 (wornPage 0 / 2 ^ 30))
    have h3 := missing_le (tableAt s 3 (wornPage 0 / 2 ^ 21))
    rw [tablesMissing]
    omega
  refine ⟨hmapped, ?_, h.heap.available ?_ ?_ ?_⟩
  · have hnone := h.empty (wornPage 0)
    rwa [pageAt, map_eq_none_iff] at hnone
  · rw [hmapped]
    decide
  · simp only [vmMaxTables]
    omega
  · omega

/-- **Mapping capacity.**  In every space of every run: where fewer than `VM_MAX_PAGES` pages are
mapped, the tables on the way stay within `VM_MAX_TABLES` and the heap serves the request, an aligned
user page that is not mapped can be mapped exactly when a slot of the page index was never used. -/
theorem mapping_succeeds_iff (choices : ℕ → Option ℕ) (bytes : ℕ → ℕ → UInt8) (ops : List VmOp)
    {i : ℕ} {s : VmSpace} (hs : ((World.initial choices bytes).run ops).spaces i = some s) {a : ℕ}
    (halign : a % 4096 = 0) (ha : CanonicalUserAddress a) (hnew : findPage s a = none)
    (hav : Available s a ((World.initial choices bytes).run ops).memory) (protection : ℕ) :
    (vmMapPage s a protection ((World.initial choices bytes).run ops).memory).1 = true ↔
      ∃ j, j < vmPageHashSize ∧ s.pageLookup j = 0 :=
  vmMapPage_available (((WorldOk.initial choices bytes).run ops).spaceOk hs) halign ha hnew hav
    protection

/-- One more page when as many pages have come and gone as the index has slots. -/
theorem mapping_succeeds_iff_worn : ∃ s, (worn vmPageHashSize).spaces 0 = some s ∧
    Available s (wornPage 0) (worn vmPageHashSize).memory ∧
    ((vmMapPage s (wornPage 0) 3 (worn vmPageHashSize).memory).1 = true ↔
      ∃ j, j < vmPageHashSize ∧ s.pageLookup j = 0) := by
  -- for any number of pages, so that the run is not evaluated
  have hworn : ∀ n ≤ vmPageHashSize, ∃ s, (worn n).spaces 0 = some s ∧
      Available s (wornPage 0) (worn n).memory ∧
      ((vmMapPage s (wornPage 0) 3 (worn n).memory).1 = true ↔
        ∃ j, j < vmPageHashSize ∧ s.pageLookup j = 0) := by
    intro n hn
    obtain ⟨s, h⟩ := worn_ok n hn
    obtain ⟨halign, hcanon⟩ := wornPage_ok (k := 0) (by decide)
    obtain ⟨-, hnew, hav⟩ := h.available hn
    exact ⟨s, h.space, hav, mapping_succeeds_iff stridedChoices (fun _ _ => 0) (wornOps n) h.space
      halign hcanon hnew hav 3⟩
  exact hworn vmPageHashSize le_rfl

/-- When the pages of one gigabyte have come and gone, no page is mapped, there are tables and memory
to be had, and yet no page can be mapped. -/
theorem worn_index_refuses : ∃ s, (worn vmPageHashSize).spaces 0 = some s ∧ mappedPages s = 0 ∧
    wornPage 0 % 4096 = 0 ∧ CanonicalUserAddress (wornPage 0) ∧ findPage s (wornPage 0) = none ∧
    Available s (wornPage 0) (worn vmPageHashSize).memory ∧
    (vmMapPage s (wornPage 0) 3 (worn vmPageHashSize).memory).1 = false := by
  obtain ⟨s, h⟩ := worn_ok vmPageHashSize le_rfl
  obtain ⟨halign, hcanon⟩ := wornPage_ok (k := 0) (by decide)
  obtain ⟨hmapped, hnew, hav⟩ := h.available le_rfl
  refine ⟨s, h.space, hmapped, halign, hcanon, hnew, hav, ?_⟩
  have hiff := vmMapPage_available (h.world.spaceOk h.space) halign hcanon hnew hav 3
  have hclosed : ¬ IndexOpen s := by
    rintro ⟨j, hj, hzero⟩
    obtain ⟨k, hk, rfl⟩ := hashSlot_wornPage hj
    exact h.slots k hk hzero
  rw [← hiff] at hclosed
  exact Bool.eq_false_of_not_eq_true hclosed

end NovaOS.Vm
