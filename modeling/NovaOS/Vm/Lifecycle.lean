import NovaOS.Vm.Invariant

/-!
# Creating, resetting and destroying a space

A new space takes six pages for its root tables and maps nothing.  Resetting gives every record's
reference and every table back and leaves that fresh space; destroying gives the root back too.
The loop over the records is the only place where many references go at once: `releaseLoop_ok`
carries the count of the records not yet visited.

* `vmSpaceCreate_spec`, `vmSpaceResetUser_spec`, `vmSpaceDestroy_spec`.
-/

namespace NovaOS.Vm

open NovaOS.ProbeTable List
open NovaOS.Heap (heapStart heapEnd)

variable {ext total : ℕ → ℕ} {E owned : ℕ → Prop} {s : VmSpace} {m m' : Memory}

/-! ### What an operation on one space owes the others -/

/-- References held outside keep their frame's page, and blocks of others stay. -/
structure Kept (ext : ℕ → ℕ) (E : ℕ → Prop) (m m' : Memory) : Prop where
  data : ∀ f, 0 < ext f → frameData m' f = frameData m f
  blocks : ∀ p n, E p → (p, n) ∈ m.blocks → (p, n) ∈ m'.blocks

theorem Kept.refl (ext : ℕ → ℕ) (E : ℕ → Prop) (m : Memory) : Kept ext E m m :=
  ⟨fun _ _ => rfl, fun _ _ _ h => h⟩

theorem Kept.trans {m₁ m₂ m₃ : Memory} (h : Kept ext E m₁ m₂) (h' : Kept ext E m₂ m₃) :
    Kept ext E m₁ m₃ :=
  ⟨fun f hf => (h'.data f hf).trans (h.data f hf),
    fun p n hp hb => h'.blocks p n hp (h.blocks p n hp hb)⟩

theorem Kept.of_sameFrames (h : SameFrames m m') (hb : m.blocks ⊆ m'.blocks) :
    Kept ext E m m' :=
  ⟨fun f _ => by rw [frameData, frameData, h.1], fun _ _ _ hm => hb hm⟩

theorem Kept.release {f : ℕ} (hm : MemoryOk (plusRef total f) owned m)
    (hext : ∀ g, ext g ≤ total g) (hE : ∀ p, E p → owned p) :
    Kept ext E m (vmFrameRelease f m) :=
  ⟨fun g hg => frameData_release hm.release (lt_of_lt_of_le hg (hext g)),
    fun p _ hp hb => hm.release_blocks f (hE p hp) hb⟩

theorem MemoryOk.freeBlock (h : MemoryOk total owned m) {p : ℕ}
    (hp : ∀ f r, m.frames f = some r → f ≠ p ∧ r.allocation ≠ p) :
    MemoryOk total (fun q => owned q ∧ q ≠ p) (heapFree p m) := by
  refine ⟨h.heap.free p, ?_, h.inj, ?_, ?_, h.counts, h.positive⟩
  · intro f r hf
    obtain ⟨h1, h2, h3⟩ := h.record f r hf
    exact ⟨mem_heapFree.2 ⟨h1, (hp f r hf).1⟩, mem_heapFree.2 ⟨h2, (hp f r hf).2⟩, h3⟩
  · intro f r hf
    obtain ⟨h1, h2⟩ := h.apartOwned f r hf
    exact ⟨fun hc => h1 hc.1, fun hc => h2 hc.1⟩
  · rintro q ⟨hq, hne⟩
    obtain ⟨n, hn⟩ := h.live q hq
    exact ⟨n, mem_heapFree.2 ⟨hn, hne⟩⟩

theorem freeTables_ok (L : List (ℕ × ℕ)) :
    ∀ {m : Memory} {owned : ℕ → Prop}, MemoryOk total owned m →
      (∀ x ∈ L, ∀ f r, m.frames f = some r → f ≠ x.2 ∧ r.allocation ≠ x.2) →
      MemoryOk total (fun q => owned q ∧ q ∉ L.map Prod.snd)
        (L.foldl (fun m t => heapFree t.2 m) m) ∧
      (L.foldl (fun m t => heapFree t.2 m) m).frames = m.frames ∧
      (L.foldl (fun m t => heapFree t.2 m) m).bytes = m.bytes ∧
      ∀ b ∈ m.blocks, b.1 ∉ L.map Prod.snd → b ∈ (L.foldl (fun m t => heapFree t.2 m) m).blocks := by
  induction L with
  | nil => intro m owned h _; exact ⟨h.owned_mono fun _ hp => hp.1, rfl, rfl, fun b hb _ => hb⟩
  | cons x L ih =>
    intro m owned h hx
    have hfree := h.freeBlock (p := x.2) (hx x (mem_cons_self ..))
    obtain ⟨h1, h2, h3, h4⟩ := ih hfree fun y hy => hx y (mem_cons_of_mem _ hy)
    refine ⟨h1.owned_mono ?_, h2, h3, ?_⟩
    · rintro p ⟨hp, hnot⟩
      rw [map_cons, mem_cons, not_or] at hnot
      exact ⟨⟨hp, hnot.1⟩, hnot.2⟩
    · intro b hb hnot
      rw [map_cons, mem_cons, not_or] at hnot
      exact h4 b (mem_heapFree.2 ⟨hb, hnot.1⟩) hnot.2

/-! ### A fresh space -/

section

variable (hused : ∀ e, (s.pages e).used = false)

include hused

theorem recordsOk_empty (hlookup : s.pageLookup = fun _ => 0) : RecordsOk s := by
  have hnot : ∀ e, ¬ UsedRecord s e := fun e hu => by
    have := hused e
    rw [hu.2] at this
    simp at this
  have hhome : homeOf s = fun _ => none := funext fun e => if_neg (hnot e)
  exact ⟨by rw [hhome, hlookup]; exact indexed_empty, fun e _ hu => absurd hu (hnot e),
    fun e hu => absurd hu (hnot e)⟩

theorem pageAt_empty (hlookup : s.pageLookup = fun _ => 0) (a : ℕ) : pageAt s a = none := by
  cases hp : pageAt s a with
  | none => rfl
  | some p =>
    obtain ⟨e, hu, _⟩ := (pageAt_iff (recordsOk_empty hused hlookup)).1 hp
    have := hused e
    rw [hu.2] at this
    simp at this

theorem refsIn_empty : refsIn s = fun _ => 0 :=
  funext fun f => countBelow_eq_zero fun i _ => by rw [pointsAt, hused, Bool.false_and]

end

theorem SpaceOk.fresh (hheap : SpaceHeap ext E s m) (hused : ∀ e, (s.pages e).used = false)
    (hlookup : s.pageLookup = fun _ => 0) : SpaceOk ext E (initializeRoot s) m := by
  have hrefs : refsIn (initializeRoot s) = fun _ => 0 := refsIn_empty (s := initializeRoot s) hused
  have hword : wordOf (initializeRoot s) m = fun _ => 0 := by
    funext k
    rw [wordOf, pageAt_empty (s := initializeRoot s) hused hlookup]
    rfl
  refine ⟨?_, recordsOk_empty (s := initializeRoot s) hused hlookup, rootPlace s, ?_⟩
  · rw [hrefs]
    simp only [zero_add]
    exact hheap.congr rfl rfl rfl rfl rfl
  · rw [hword]
    have hb := (hheap.memory.heap.bounds _ hheap.root).2.2
    have hpml4 := hheap.pml4
    simp only [heapEnd] at hb
    have hup : pageOf s.rootAllocation < s.rootAllocation + 4096 := by unfold pageOf; omega
    exact initializeRoot_ok (by rw [hpml4]; exact pageOf_mod _) (by omega) hheap.pdpt
      hheap.directories

/-- **`vm_space_create`.** -/
theorem vmSpaceCreate_spec (h : MemoryOk total E m) :
    (∃ m', vmSpaceCreate m = (false, VmSpace.zero, m') ∧ MemoryOk total E m' ∧ SameFrames m m' ∧
      m.blocks ⊆ m'.blocks) ∨
    (∃ s' m', vmSpaceCreate m = (true, s', m') ∧ SpaceOk total E s' m' ∧ SameFrames m m' ∧
      m.blocks ⊆ m'.blocks ∧ refsIn s' = (fun _ => 0) ∧ ∀ a, pageAt s' a = none) := by
  unfold vmSpaceCreate
  rw [alignedHeapAlloc_page]
  rcases halloc : heapAlloc (6 * 4096 + 4096 - 1) m with ⟨_ | raw, m1⟩
  · obtain rfl := heapAlloc_none halloc
    exact .inl ⟨_, rfl, h.calls _, ⟨rfl, rfl⟩, fun _ hb => hb⟩
  · obtain ⟨hfit, rfl⟩ := heapAlloc_some halloc
    have hown := h.own_alloc hfit (m.calls + 1)
    have hused : ∀ e, (VmSpace.zero.pages e).used = false := fun _ => rfl
    refine .inr ⟨_, _, rfl, SpaceOk.fresh ⟨?_, ?_, mem_cons_self .., rfl, rfl, rfl, ?_⟩ hused rfl,
      ⟨rfl, rfl⟩, fun b hb => mem_cons_of_mem _ hb, refsIn_empty hused,
      pageAt_empty hused rfl⟩
    · refine hown.owned_mono fun p hp => ?_
      rcases hp with (hp | hp) | hp
      · exact .inl hp
      · simp [VmSpace.zero] at hp
      · exact .inr hp
    · rintro p (rfl | hp)
      · exact (h.alloc_fresh hfit).2.2
      · simp [VmSpace.zero] at hp
    · intro x hx
      simp [VmSpace.zero] at hx

/-! ### Giving everything back -/

/-- References of the records from number `n` on. -/
def refsFrom (s : VmSpace) (n f : ℕ) : ℕ :=
  countBelow vmMaxPages fun i => decide (n ≤ i) && pointsAt s f i

theorem refsFrom_used {n : ℕ} (hn : n < vmMaxPages) (hused : (s.pages n).used = true) :
    refsFrom s n = plusRef (refsFrom s (n + 1)) (s.pages n).frame := by
  funext f
  have hnext : (decide (n + 1 ≤ n) && pointsAt s f n) = false := by simp
  have hother : ∀ i, i ≠ n →
      (decide (n ≤ i) && pointsAt s f i) = (decide (n + 1 ≤ i) && pointsAt s f i) := by
    intro i hi
    rw [show decide (n ≤ i) = decide (n + 1 ≤ i) by congr 1; exact propext (by omega)]
  by_cases hf : f = (s.pages n).frame
  · subst hf
    rw [plusRef_self]
    exact countBelow_add hn hnext (by simp [pointsAt, hused]) hother
  · rw [plusRef_of_ne hf]
    refine countBelow_congr fun i _ => ?_
    by_cases hi : i = n
    · subst hi
      have : pointsAt s f i = false := by simp [pointsAt, Ne.symm hf]
      rw [this, Bool.and_false, Bool.and_false]
    · exact hother i hi

theorem refsFrom_unused {n : ℕ} (hused : (s.pages n).used = false) :
    refsFrom s n = refsFrom s (n + 1) := by
  funext f
  refine countBelow_congr fun i _ => ?_
  by_cases hi : i = n
  · subst hi
    have : pointsAt s f i = false := by rw [pointsAt, hused, Bool.false_and]
    rw [this, Bool.and_false, Bool.and_false]
  · rw [show decide (n ≤ i) = decide (n + 1 ≤ i) by congr 1; exact propext (by omega)]

/-- After `n` rounds the references left are those of the records not yet visited. -/
theorem releaseLoop_ok (h : MemoryOk (fun f => refsIn s f + ext f) owned m) :
    ∀ n, n ≤ vmMaxPages →
      MemoryOk (fun f => refsFrom s n f + ext f) owned (releaseLoop s n m) ∧
      Kept ext owned m (releaseLoop s n m) ∧ (releaseLoop s n m).bytes = m.bytes := by
  intro n
  induction n with
  | zero =>
    intro _
    have hall : refsFrom s 0 = refsIn s := by
      funext f
      exact countBelow_congr fun i _ => by simp
    exact ⟨h, Kept.refl ext owned m, rfl⟩
  | succ n ih =>
    intro hn
    obtain ⟨hm, hk, hb⟩ := ih (by omega)
    have hstep : releaseLoop s (n + 1) m = if (s.pages n).used then
        vmFrameRelease (s.pages n).frame (releaseLoop s n m) else releaseLoop s n m := by
      rw [releaseLoop, range_succ, foldl_append]
      rfl
    rw [hstep]
    split
    · rename_i hused
      rw [refsFrom_used (by omega) hused, plusRef_add_left] at hm
      exact ⟨hm.release, hk.trans (Kept.release hm (fun g => by omega) fun _ hp => hp),
        by rw [vmFrameRelease_bytes, hb]⟩
    · rename_i hused
      rw [← refsFrom_unused (by simpa using hused)]
      exact ⟨hm, hk, hb⟩

theorem refsFrom_end (s : VmSpace) : refsFrom s vmMaxPages = fun _ => 0 :=
  funext fun f => countBelow_eq_zero fun i hi => by
    rw [show decide (vmMaxPages ≤ i) = false from decide_eq_false (by omega), Bool.false_and]

/-- **`vm_space_reset_user`** leaves a fresh space on the same root. -/
theorem vmSpaceResetUser_spec (h : SpaceOk ext E s m) :
    ∃ s' m', vmSpaceResetUser s m = (s', m') ∧ SpaceOk ext E s' m' ∧ Kept ext E m m' ∧
      m'.bytes = m.bytes ∧ refsIn s' = (fun _ => 0) ∧ (∀ a, pageAt s' a = none) ∧
      s'.rootAllocation = s.rootAllocation ∧ s'.allocatedTables = [] := by
  obtain ⟨hm, hk, hb⟩ := releaseLoop_ok h.heap.memory vmMaxPages le_rfl
  rw [refsFrom_end] at hm
  simp only [zero_add] at hm
  have htable : ∀ x ∈ s.allocatedTables, ownsBlock s x.2 := fun x hx => .inr (mem_map.2 ⟨x, hx, rfl⟩)
  obtain ⟨hm', hframes, hbytes, hblocks⟩ := freeTables_ok s.allocatedTables hm fun x hx f r hf =>
    ⟨fun heq => (hm.apartOwned f r hf).1 (.inl (heq ▸ htable x hx)),
      fun heq => (hm.apartOwned f r hf).2 (.inl (heq ▸ htable x hx))⟩
  -- the root block is none of the tables: it has another size
  have hroot : s.rootAllocation ∉ s.allocatedTables.map Prod.snd := by
    intro hmem
    obtain ⟨x, hx, hxe⟩ := mem_map.1 hmem
    have h1 := (h.heap.tables x hx).1
    rw [hxe] at h1
    have := h.heap.memory.heap.size_unique h1 h.heap.root
    omega
  have hE : ∀ p, E p → p ∉ s.allocatedTables.map Prod.snd :=
    fun p hp hmem => h.heap.apart p (.inr hmem) hp
  have hused : ∀ e, (if (s.pages e).used = true then VmPage.zero else s.pages e).used = false := by
    intro e
    split
    · rfl
    · rename_i hu
      simpa using hu
  unfold vmSpaceResetUser
  rw [if_neg h.heap.pml4_pos]
  refine ⟨_, _, rfl, SpaceOk.fresh ⟨?_, ?_, ?_, h.heap.pml4, h.heap.pdpt, h.heap.directories, ?_⟩
    hused rfl, ⟨?_, ?_⟩, by rw [hbytes]; exact hb, refsIn_empty hused, pageAt_empty hused rfl, rfl, rfl⟩
  · refine hm'.owned_mono fun p hp => ?_
    rcases hp with (rfl | hp) | hp
    · exact ⟨.inl (.inl rfl), hroot⟩
    · simp at hp
    · exact ⟨.inr hp, hE p hp⟩
  · rintro p (rfl | hp)
    · exact h.heap.apart _ (.inl rfl)
    · simp at hp
  · exact hblocks _ (hk.blocks _ _ (.inl (.inl rfl)) h.heap.root) hroot
  · intro x hx
    simp at hx
  · intro f hf
    rw [frameData, hframes]
    exact hk.data f hf
  · intro p n hp hb'
    exact hblocks _ (hk.blocks p n (.inr hp) hb') (hE p hp)

/-- **`vm_space_destroy`** gives the root back as well. -/
theorem vmSpaceDestroy_spec (h : SpaceOk ext E s m) :
    ∃ m', vmSpaceDestroy s m = (VmSpace.zero, m') ∧ MemoryOk ext E m' ∧ Kept ext E m m' ∧
      m'.bytes = m.bytes := by
  obtain ⟨s', m1, he, hok, hk, hb, hrefs, _, hroot, htables⟩ := vmSpaceResetUser_spec h
  have hm := hok.heap.memory
  rw [hrefs] at hm
  simp only [zero_add] at hm
  have hpos : s'.rootAllocation ≠ 0 := by
    have := (hm.heap.bounds _ hok.heap.root).2.1
    omega
  have hfree := hm.freeBlock (p := s'.rootAllocation) fun f r hf =>
    ⟨fun heq => (hm.apartOwned f r hf).1 (heq ▸ .inl (.inl rfl)),
      fun heq => (hm.apartOwned f r hf).2 (heq ▸ .inl (.inl rfl))⟩
  have hne : ∀ p, E p → p ≠ s'.rootAllocation := fun p hp heq => hok.heap.apart p (.inl heq) hp
  unfold vmSpaceDestroy
  rw [he]
  simp only [if_pos hpos]
  refine ⟨_, rfl, hfree.owned_mono fun p hp => ⟨.inr hp, hne p hp⟩, ⟨hk.data, ?_⟩, hb⟩
  intro p n hp hb'
  exact mem_heapFree.2 ⟨hk.blocks p n hp hb', hne p hp⟩

end NovaOS.Vm
