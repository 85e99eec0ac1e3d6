import Mathlib.Data.List.Pairwise
import NovaOS.Heap.Blocks
import NovaOS.Lib.Table
import NovaOS.Lib.Words

/-!
# Kernel memory as `vm.c` uses it: heap blocks and reference-counted frames

`kernel/vm.c` takes all its memory from `heap_alloc`: a `VmFrame` record, the page of data behind
it and every page table.  The allocator appears here through its contract only.  `choices` is the
stream of pointers it hands out, call by call, `none` meaning a call that returned `NULL`; a
pointer is accepted when it is a 16-byte aligned block of the heap range that overlaps no live
block.  A result proved for every stream holds for every allocator that keeps that contract,
failing calls included.

A frame is known by the address of its `VmFrame` record.  `bytes` is physical memory seen page by
page: the page address, then the offset.

* `vmFrameCreate`, `vmFrameRetain`, `vmFrameRelease` — the three frame operations;
* `MemoryOk total owned m` — the invariant: live blocks are disjoint, each live frame owns its
  record and its data block, its reference count is `total`, and a frame is live exactly when
  that number is positive;
* `vmFrameCreate_spec`, `MemoryOk.retain`, `MemoryOk.release` — what each operation does to it.
-/

namespace NovaOS.Vm

open Function List
open NovaOS.Heap (heapStart heapEnd)

/-- `VmFrame`: the data page, the block it was cut from and the reference count. -/
structure VmFrame where
  data : ℕ
  allocation : ℕ
  references : ℕ
deriving Repr, DecidableEq

/-- The memory `vm.c` works on. -/
structure Memory where
  /-- live heap blocks, pointer and size -/
  blocks : List (ℕ × ℕ)
  /-- what `heap_alloc` hands out, call by call -/
  choices : ℕ → Option ℕ
  calls : ℕ
  /-- live `VmFrame` records by address -/
  frames : ℕ → Option VmFrame
  /-- physical page, offset -/
  bytes : ℕ → ℕ → UInt8

/-! ### The allocator contract -/

/-- Two blocks have no byte in common. -/
def Apart (a b : ℕ × ℕ) : Prop := a.1 + a.2 ≤ b.1 ∨ b.1 + b.2 ≤ a.1

instance (a b : ℕ × ℕ) : Decidable (Apart a b) := inferInstanceAs (Decidable (_ ∨ _))

instance : Std.Symm Apart := ⟨fun _ _ => Or.symm⟩

/-- A pointer the allocator may return for a request of `size` bytes. -/
def Fits (blocks : List (ℕ × ℕ)) (pointer size : ℕ) : Prop :=
  0 < size ∧ heapStart < pointer ∧ pointer % 16 = 0 ∧ pointer + size ≤ heapEnd ∧
    ∀ b ∈ blocks, Apart b (pointer, size)

instance (blocks : List (ℕ × ℕ)) (pointer size : ℕ) : Decidable (Fits blocks pointer size) :=
  inferInstanceAs (Decidable (_ ∧ _ ∧ _ ∧ _ ∧ _))

/-- `heap_alloc`. -/
def heapAlloc (size : ℕ) (m : Memory) : Option ℕ × Memory :=
  match m.choices m.calls with
  | none => (none, { m with calls := m.calls + 1 })
  | some pointer =>
    if Fits m.blocks pointer size then
      (some pointer, { m with calls := m.calls + 1, blocks := (pointer, size) :: m.blocks })
    else (none, { m with calls := m.calls + 1 })

/-- `heap_free`. -/
def heapFree (pointer : ℕ) (m : Memory) : Memory :=
  { m with blocks := m.blocks.filter fun b => b.1 != pointer }

/-- `aligned_heap_alloc`: the aligned address and the block to free later. -/
def alignedHeapAlloc (size alignment : ℕ) (m : Memory) : Option (ℕ × ℕ) × Memory :=
  if alignment = 0 ∨ alignment &&& (alignment - 1) ≠ 0 then (none, m)
  else
    match heapAlloc (size + alignment - 1) m with
    | (none, m) => (none, m)
    | (some raw, m) => (some ((raw + alignment - 1) / alignment * alignment, raw), m)

/-! ### Frames -/

/-- `sizeof(VmFrame)`. -/
def frameRecordSize : ℕ := 24

/-- `vm_frame_create`: a zeroed page with one reference. -/
def vmFrameCreate (m : Memory) : Option ℕ × Memory :=
  match heapAlloc frameRecordSize m with
  | (none, m) => (none, m)
  | (some frame, m) =>
    match alignedHeapAlloc 4096 4096 m with
    | (none, m) => (none, heapFree frame m)
    | (some (data, allocation), m) =>
      (some frame,
        { m with
          bytes := update m.bytes data fun _ => 0
          frames := update m.frames frame (some ⟨data, allocation, 1⟩) })

/-- `vm_frame_retain`. -/
def vmFrameRetain (frame : ℕ) (m : Memory) : Memory :=
  match m.frames frame with
  | none => m
  | some r =>
    { m with
      frames := update m.frames frame (some { r with references := r.references + 1 }) }

/-- `vm_frame_release`: the last reference frees the data block and the record. -/
def vmFrameRelease (frame : ℕ) (m : Memory) : Memory :=
  match m.frames frame with
  | none => m
  | some r =>
    if r.references = 0 then m
    else if r.references - 1 ≠ 0 then
      { m with
        frames := update m.frames frame (some { r with references := r.references - 1 }) }
    else
      heapFree frame (heapFree r.allocation { m with frames := update m.frames frame none })

/-- The data page of a frame, `frame->data`. -/
def frameData (m : Memory) (frame : ℕ) : ℕ := (m.frames frame).elim 0 VmFrame.data

/-- The reference count of a frame, zero when it is not live. -/
def frameReferences (m : Memory) (frame : ℕ) : ℕ := (m.frames frame).elim 0 VmFrame.references

/-! ### The invariant -/

/-- Live blocks lie in the heap and do not overlap. -/
structure HeapOk (m : Memory) : Prop where
  apart : m.blocks.Pairwise Apart
  bounds : ∀ b ∈ m.blocks, 0 < b.2 ∧ heapStart < b.1 ∧ b.1 + b.2 ≤ heapEnd

/-- The page a `size + 4095`-byte block is cut to. -/
def pageOf (raw : ℕ) : ℕ := (raw + 4096 - 1) / 4096 * 4096

/-- `total` counts the references to each frame; `owned` are the blocks that belong to somebody
else than a frame. -/
structure MemoryOk (total : ℕ → ℕ) (owned : ℕ → Prop) (m : Memory) : Prop where
  heap : HeapOk m
  record : ∀ f r, m.frames f = some r →
    (f, frameRecordSize) ∈ m.blocks ∧ (r.allocation, 8191) ∈ m.blocks ∧ r.data = pageOf r.allocation
  inj : ∀ f g r r', m.frames f = some r → m.frames g = some r' → r.allocation = r'.allocation → f = g
  apartOwned : ∀ f r, m.frames f = some r → ¬ owned f ∧ ¬ owned r.allocation
  live : ∀ p, owned p → ∃ n, (p, n) ∈ m.blocks
  counts : ∀ f, frameReferences m f = total f
  positive : ∀ f r, m.frames f = some r → 0 < r.references

variable {m m' : Memory} {total : ℕ → ℕ} {owned : ℕ → Prop} {p n size f g : ℕ}

theorem HeapOk.apart_of_ne (h : HeapOk m) {a b : ℕ × ℕ} (ha : a ∈ m.blocks) (hb : b ∈ m.blocks)
    (hne : a ≠ b) : Apart a b :=
  h.apart.forall ha hb hne

theorem HeapOk.size_unique (h : HeapOk m) {k : ℕ} (hn : (p, n) ∈ m.blocks)
    (hk : (p, k) ∈ m.blocks) : n = k := by
  by_contra hne
  have h1 := h.apart_of_ne hn hk (by simp [hne])
  have h2 := (h.bounds _ hn).1
  have h3 := (h.bounds _ hk).1
  simp only [Apart] at h1
  omega

theorem pageOf_mod (raw : ℕ) : pageOf raw % 4096 = 0 := by unfold pageOf; omega

theorem pageOf_bounds (raw : ℕ) : raw ≤ pageOf raw ∧ pageOf raw + 4096 ≤ raw + 8191 := by
  unfold pageOf; omega

/-- Different page blocks are cut to different pages. -/
theorem HeapOk.pageOf_inj (h : HeapOk m) {q : ℕ} (hp : (p, 8191) ∈ m.blocks)
    (hq : (q, 8191) ∈ m.blocks) (heq : pageOf p = pageOf q) : p = q := by
  by_contra hne
  have h1 := h.apart_of_ne hp hq (by simp [hne])
  have h2 := pageOf_bounds p
  have h3 := pageOf_bounds q
  simp only [Apart] at h1
  omega

/-- A page cut from a live block is an aligned, non-zero physical address below 4 GiB. -/
theorem HeapOk.pageOf_lt (h : HeapOk m) (hp : (p, 8191) ∈ m.blocks) :
    0 < pageOf p ∧ pageOf p < 2 ^ 32 := by
  have h1 := (h.bounds _ hp).2
  have h2 := pageOf_bounds p
  simp only [heapStart, heapEnd] at h1
  omega

/-! ### Allocation -/

theorem heapAlloc_none (h : heapAlloc size m = (none, m')) :
    m' = { m with calls := m.calls + 1 } := by
  unfold heapAlloc at h
  split at h
  · simpa using h.symm
  · split at h <;> simp_all

theorem heapAlloc_some (h : heapAlloc size m = (some p, m')) :
    Fits m.blocks p size ∧
      m' = { m with calls := m.calls + 1, blocks := (p, size) :: m.blocks } := by
  unfold heapAlloc at h
  split at h
  · simp at h
  · split at h
    · rename_i hf
      simp only [Prod.mk.injEq, Option.some.injEq] at h
      exact ⟨h.1 ▸ hf, by rw [← h.2, h.1]⟩
    · simp at h

/-- The pointer of a new block is not the pointer of a live one. -/
theorem Fits.ne {blocks : List (ℕ × ℕ)} (h : Fits blocks p size) {b : ℕ × ℕ}
    (hb : b ∈ blocks) (hpos : 0 < b.2) : b.1 ≠ p := by
  intro heq
  have h1 := h.1
  have h2 := h.2.2.2.2 b hb
  simp only [Apart] at h2
  omega

theorem HeapOk.alloc (h : HeapOk m) (hf : Fits m.blocks p size) (k : ℕ) :
    HeapOk { m with calls := k, blocks := (p, size) :: m.blocks } := by
  refine ⟨pairwise_cons.2 ⟨fun b hb => symm (hf.2.2.2.2 b hb), h.apart⟩, ?_⟩
  intro b hb
  rcases mem_cons.1 hb with rfl | hb
  · exact ⟨hf.1, hf.2.1, hf.2.2.2.1⟩
  · exact h.bounds b hb

theorem HeapOk.free (h : HeapOk m) (p : ℕ) : HeapOk (heapFree p m) :=
  ⟨h.apart.filter _, fun b hb => h.bounds b (mem_filter.1 hb).1⟩

theorem mem_heapFree {b : ℕ × ℕ} : b ∈ (heapFree p m).blocks ↔ b ∈ m.blocks ∧ b.1 ≠ p := by
  simp [heapFree]

/-- Freeing what was just allocated gives the old blocks back. -/
theorem heapFree_alloc (h : HeapOk m) (hf : Fits m.blocks p size) :
    ((p, size) :: m.blocks).filter (fun b => b.1 != p) = m.blocks := by
  rw [filter_cons_of_neg (by simp), filter_eq_self]
  intro b hb
  simpa using hf.ne hb (h.bounds b hb).1

theorem alignedHeapAlloc_page (size : ℕ) (m : Memory) :
    alignedHeapAlloc size 4096 m = match heapAlloc (size + 4096 - 1) m with
      | (none, m) => (none, m)
      | (some raw, m) => (some (pageOf raw, raw), m) := by
  unfold alignedHeapAlloc
  rfl

/-! ### What the frame operations do -/

/-- `f` has one more reference. -/
def plusRef (total : ℕ → ℕ) (f : ℕ) : ℕ → ℕ := update total f (total f + 1)

@[simp] theorem plusRef_self (f : ℕ) : plusRef total f f = total f + 1 := by simp [plusRef]

theorem plusRef_of_ne (h : g ≠ f) : plusRef total f g = total g := by
  simp [plusRef, update_of_ne h]

/-- Everything but the call counter and the blocks. -/
def SameFrames (m m' : Memory) : Prop := m'.frames = m.frames ∧ m'.bytes = m.bytes

/-- The outcome of `vm_frame_create` that returned a frame. -/
structure Created (m : Memory) (f : ℕ) (m' : Memory) : Prop where
  fresh : m.frames f = none
  frames : ∃ a, m'.frames = update m.frames f (some ⟨pageOf a, a, 1⟩)
  bytes : m'.bytes = update m.bytes (frameData m' f) fun _ => 0
  data : ∀ g r, m.frames g = some r → r.data ≠ frameData m' f

section

variable (h : MemoryOk total owned m)

include h

theorem MemoryOk.frameReferences_of_none (hf : m.frames f = none) : total f = 0 := by
  rw [← h.counts f, frameReferences, hf]
  rfl

theorem MemoryOk.exists_of_pos (hf : 0 < total f) :
    ∃ r, m.frames f = some r ∧ r.references = total f := by
  cases hr : m.frames f with
  | none => rw [h.frameReferences_of_none hr] at hf; omega
  | some r =>
    refine ⟨r, rfl, ?_⟩
    rw [← h.counts f, frameReferences, hr]
    rfl

/-- Frames of different records have different pages. -/
theorem MemoryOk.data_inj {r r' : VmFrame}
    (hf : m.frames f = some r) (hg : m.frames g = some r') (heq : r.data = r'.data) : f = g := by
  obtain ⟨_, ha, hd⟩ := h.record f r hf
  obtain ⟨_, ha', hd'⟩ := h.record g r' hg
  rw [hd, hd'] at heq
  exact h.inj f g r r' hf hg (h.heap.pageOf_inj ha ha' heq)

/-- The data page of a live frame is an aligned, non-zero physical address. -/
theorem MemoryOk.data_bounds {r : VmFrame}
    (hf : m.frames f = some r) : r.data % 4096 = 0 ∧ 0 < r.data ∧ r.data < 2 ^ 32 := by
  obtain ⟨_, ha, hd⟩ := h.record f r hf
  rw [hd]
  exact ⟨pageOf_mod _, h.heap.pageOf_lt ha⟩

end

theorem MemoryOk.initial (choices : ℕ → Option ℕ) (bytes : ℕ → ℕ → UInt8) :
    MemoryOk (fun _ => 0) (fun _ => False) ⟨[], choices, 0, fun _ => none, bytes⟩ :=
  ⟨⟨List.Pairwise.nil, nofun⟩, nofun, nofun, nofun, nofun, fun _ => rfl, nofun⟩

section

variable (h : MemoryOk total owned m)

include h

theorem MemoryOk.calls (k : ℕ) :
    MemoryOk total owned { m with calls := k } :=
  ⟨⟨h.heap.apart, h.heap.bounds⟩, h.record, h.inj, h.apartOwned, h.live, h.counts, h.positive⟩

theorem MemoryOk.alloc (hf : Fits m.blocks p size)
    (k : ℕ) : MemoryOk total owned { m with calls := k, blocks := (p, size) :: m.blocks } := by
  refine ⟨h.heap.alloc hf k, ?_, h.inj, h.apartOwned, ?_, h.counts, h.positive⟩
  · intro f r hr
    obtain ⟨h1, h2, h3⟩ := h.record f r hr
    exact ⟨mem_cons_of_mem _ h1, mem_cons_of_mem _ h2, h3⟩
  · intro q hq
    obtain ⟨n, hn⟩ := h.live q hq
    exact ⟨n, mem_cons_of_mem _ hn⟩

/-- A new block is nobody's: no frame and no owner has it. -/
theorem MemoryOk.alloc_fresh
    (hf : Fits m.blocks p size) :
    m.frames p = none ∧ (∀ f r, m.frames f = some r → r.allocation ≠ p) ∧ ¬ owned p := by
  refine ⟨?_, ?_, ?_⟩
  · cases hr : m.frames p with
    | none => rfl
    | some r =>
      have hb := (h.record p r hr).1
      exact absurd rfl (hf.ne hb (h.heap.bounds _ hb).1)
  · intro f r hr
    have hb := (h.record f r hr).2.1
    exact hf.ne hb (h.heap.bounds _ hb).1
  · intro hp
    obtain ⟨n, hn⟩ := h.live p hp
    exact hf.ne hn (h.heap.bounds _ hn).1 rfl

theorem MemoryOk.owned_mono {owned' : ℕ → Prop}
    (hsub : ∀ p, owned' p → owned p) : MemoryOk total owned' m :=
  ⟨h.heap, h.record, h.inj, fun f r hf => ⟨fun hp => (h.apartOwned f r hf).1 (hsub _ hp),
    fun hp => (h.apartOwned f r hf).2 (hsub _ hp)⟩, fun p hp => h.live p (hsub p hp), h.counts,
    h.positive⟩

theorem MemoryOk.own_alloc (hf : Fits m.blocks p size)
    (k : ℕ) :
    MemoryOk total (fun q => q = p ∨ owned q)
      { m with calls := k, blocks := (p, size) :: m.blocks } := by
  obtain ⟨hframe, hdata, _⟩ := h.alloc_fresh hf
  have hm := h.alloc hf k
  refine ⟨hm.heap, hm.record, hm.inj, ?_, ?_, hm.counts, hm.positive⟩
  · intro f r hr
    have hfp : f ≠ p := by
      rintro rfl
      exact absurd (hframe.symm.trans hr) (by simp)
    obtain ⟨h1, h2⟩ := h.apartOwned f r hr
    exact ⟨fun hc => hc.elim hfp h1, fun hc => hc.elim (hdata f r hr) h2⟩
  · rintro q (rfl | hq)
    · exact ⟨size, mem_cons_self ..⟩
    · exact hm.live q hq

/-- A new frame with one reference, made of two blocks that nobody has. -/
theorem MemoryOk.insertFrame {a : ℕ} (hfresh : m.frames f = none)
    (hb1 : (f, frameRecordSize) ∈ m.blocks) (hb2 : (a, 8191) ∈ m.blocks)
    (hnew : ∀ g r, m.frames g = some r → r.allocation ≠ a) (hf : ¬ owned f) (ha : ¬ owned a)
    (contents : ℕ → ℕ → UInt8) :
    MemoryOk (plusRef total f) owned
      { m with
        bytes := contents
        frames := update m.frames f (some ⟨pageOf a, a, 1⟩) } := by
  refine ⟨⟨h.heap.apart, h.heap.bounds⟩, ?_, ?_, ?_, h.live, ?_, ?_⟩
  · intro g r hg
    rcases update_some_cases hg with ⟨rfl, rfl⟩ | ⟨_, hg⟩
    · exact ⟨hb1, hb2, rfl⟩
    · exact h.record g r hg
  · intro g g' r r' hg hg' heq
    rcases update_some_cases hg with ⟨rfl, rfl⟩ | ⟨_, h1⟩ <;>
      rcases update_some_cases hg' with ⟨rfl, rfl⟩ | ⟨_, h2⟩
    · rfl
    · exact absurd heq.symm (hnew g' r' h2)
    · exact absurd heq (hnew g r h1)
    · exact h.inj g g' r r' h1 h2 heq
  · intro g r hg
    rcases update_some_cases hg with ⟨rfl, rfl⟩ | ⟨_, hg⟩
    · exact ⟨hf, ha⟩
    · exact h.apartOwned g r hg
  · intro g
    by_cases hgf : g = f
    · subst hgf
      rw [plusRef_self, h.frameReferences_of_none hfresh]
      simp [frameReferences]
    · rw [plusRef_of_ne hgf, ← h.counts g]
      simp only [frameReferences, update_of_ne hgf]
  · intro g r hg
    rcases update_some_cases hg with ⟨rfl, rfl⟩ | ⟨_, hg⟩
    · exact one_pos
    · exact h.positive g r hg

/-- **`vm_frame_create`.**  Either nothing but the allocator moved, or there is a new zeroed frame
with one reference. -/
theorem vmFrameCreate_spec :
    (∃ m', vmFrameCreate m = (none, m') ∧ SameFrames m m' ∧ m.blocks ⊆ m'.blocks ∧
      MemoryOk total owned m') ∨
    (∃ f m', vmFrameCreate m = (some f, m') ∧ Created m f m' ∧ m.blocks ⊆ m'.blocks ∧
      MemoryOk (plusRef total f) owned m') := by
  unfold vmFrameCreate
  rcases h1 : heapAlloc frameRecordSize m with ⟨_ | f, m1⟩
  · left
    have hm1 := heapAlloc_none h1
    subst hm1
    exact ⟨_, rfl, ⟨rfl, rfl⟩, fun _ hb => hb, h.calls _⟩
  · obtain ⟨hfit, hm1⟩ := heapAlloc_some h1
    have h' := h.alloc hfit (m.calls + 1)
    rw [← hm1] at h'
    obtain ⟨hfresh, hnalloc, hnown⟩ := h.alloc_fresh hfit
    simp only [alignedHeapAlloc_page]
    rcases h2 : heapAlloc (4096 + 4096 - 1) m1 with ⟨_ | raw, m2⟩
    · left
      have hm2 := heapAlloc_none h2
      have hblocks : (heapFree f m2).blocks = m.blocks := by
        rw [hm2, hm1]
        exact heapFree_alloc h.heap hfit
      refine ⟨heapFree f m2, rfl, ⟨?_, ?_⟩, fun b hb => hblocks ▸ hb, ?_⟩
      · rw [hm2, hm1]; rfl
      · rw [hm2, hm1]; rfl
      · have hm : heapFree f m2 = { m with calls := m.calls + 1 + 1 } := by
          rw [hm2, hm1] at hblocks ⊢
          simp only [heapFree] at hblocks ⊢
          rw [hblocks]
        rw [hm]
        exact h.calls _
    · right
      obtain ⟨hfit2, hm2⟩ := heapAlloc_some h2
      have h'' := h'.alloc hfit2 (m1.calls + 1)
      rw [← hm2] at h''
      obtain ⟨hfresh2, hnalloc2, hnown2⟩ := h'.alloc_fresh hfit2
      have hframes : m2.frames = m.frames := by rw [hm2, hm1]
      have hbytes : m2.bytes = m.bytes := by rw [hm2, hm1]
      have hb1 : (f, frameRecordSize) ∈ m2.blocks := by rw [hm2, hm1]; simp
      have hb2 : (raw, 8191) ∈ m2.blocks := by rw [hm2]; simp
      have hsub : m.blocks ⊆ m2.blocks := by
        rw [hm2, hm1]
        exact fun b hb => mem_cons_of_mem _ (mem_cons_of_mem _ hb)
      refine ⟨f, _, rfl, ⟨hfresh, ⟨raw, by rw [hframes]⟩, ?_, ?_⟩, hsub, ?_⟩
      · simp only [frameData, update_self, Option.elim_some, hbytes]
      · intro g r hg
        have hg2 : m2.frames g = some r := by rw [hframes]; exact hg
        simp only [frameData, update_self, Option.elim_some]
        intro heq
        obtain ⟨_, ha, hd⟩ := h''.record g r hg2
        rw [hd] at heq
        exact hnalloc2 g r (by rw [hm1]; exact hg) (h''.heap.pageOf_inj ha hb2 heq)
      · exact h''.insertFrame (by rw [hframes]; exact hfresh) hb1 hb2
          (fun g r hg => hnalloc2 g r (by rw [hm1]; rwa [hframes] at hg)) hnown hnown2 _

theorem MemoryOk.setReferences {r : VmFrame}
    (hf : m.frames f = some r) (hn : 0 < n) :
    MemoryOk (update total f n) owned
      { m with frames := update m.frames f (some { r with references := n }) } := by
  have hcase : ∀ g r', update m.frames f (some { r with references := n }) g = some r' →
      ∃ r₀, m.frames g = some r₀ ∧ r'.data = r₀.data ∧ r'.allocation = r₀.allocation := by
    intro g r' hg
    rcases update_some_cases hg with ⟨rfl, rfl⟩ | ⟨_, hg⟩
    · exact ⟨r, hf, rfl, rfl⟩
    · exact ⟨r', hg, rfl, rfl⟩
  refine ⟨⟨h.heap.apart, h.heap.bounds⟩, ?_, ?_, ?_, h.live, ?_, ?_⟩
  · intro g r' hg
    obtain ⟨r₀, h0, hd, ha⟩ := hcase g r' hg
    rw [hd, ha]
    exact h.record g r₀ h0
  · intro g g' r₁ r₂ hg hg' heq
    obtain ⟨s₁, h1, _, ha1⟩ := hcase g r₁ hg
    obtain ⟨s₂, h2, _, ha2⟩ := hcase g' r₂ hg'
    exact h.inj g g' s₁ s₂ h1 h2 (by rw [← ha1, ← ha2, heq])
  · intro g r' hg
    obtain ⟨r₀, h0, _, ha⟩ := hcase g r' hg
    rw [ha]
    exact h.apartOwned g r₀ h0
  · intro g
    by_cases hgf : g = f
    · subst hgf; simp [frameReferences]
    · rw [update_of_ne hgf, ← h.counts g]
      simp only [frameReferences, update_of_ne hgf]
  · intro g r' hg
    rcases update_some_cases hg with ⟨rfl, rfl⟩ | ⟨_, hg⟩
    · exact hn
    · exact h.positive g r' hg

/-- **`vm_frame_retain`** on a live frame adds one reference. -/
theorem MemoryOk.retain (hf : 0 < total f) :
    MemoryOk (plusRef total f) owned (vmFrameRetain f m) := by
  obtain ⟨r, hr, hn⟩ := h.exists_of_pos hf
  unfold vmFrameRetain
  simp only [hr]
  rw [plusRef, ← hn]
  exact h.setReferences hr (Nat.succ_pos _)

end

/-- **`vm_frame_release`** takes the reference back; the last one frees the frame. -/
theorem MemoryOk.release (h : MemoryOk (plusRef total f) owned m) :
    MemoryOk total owned (vmFrameRelease f m) := by
  obtain ⟨r, hr, hn⟩ := h.exists_of_pos (f := f) (by simp)
  rw [plusRef_self] at hn
  unfold vmFrameRelease
  simp only [hr]
  rw [if_neg (by omega)]
  split
  · have h' := h.setReferences hr (n := r.references - 1) (by omega)
    have htotal : update (plusRef total f) f (r.references - 1) = total := by
      funext g
      by_cases hg : g = f
      · subst hg; rw [update_self]; omega
      · rw [update_of_ne hg, plusRef_of_ne hg]
    rwa [htotal] at h'
  · have hzero : total f = 0 := by omega
    obtain ⟨hb1, hb2, _⟩ := h.record f r hr
    -- a block of somebody else is neither of the two that go
    have hkeep : ∀ b ∈ m.blocks, b.1 ≠ f → b.1 ≠ r.allocation →
        b ∈ (heapFree f (heapFree r.allocation
          { m with frames := update m.frames f none })).blocks :=
      fun b hb h1 h2 => mem_heapFree.2 ⟨mem_heapFree.2 ⟨hb, h2⟩, h1⟩
    have hother : ∀ g r', m.frames g = some r' → g ≠ f →
        g ≠ r.allocation ∧ r'.allocation ≠ f ∧ r'.allocation ≠ r.allocation := by
      intro g r' hg hgf
      obtain ⟨hg1, hg2, _⟩ := h.record g r' hg
      refine ⟨?_, ?_, fun heq => hgf (h.inj g f r' r hg hr heq)⟩
      · intro heq
        rw [heq] at hg1
        have := h.heap.size_unique hg1 hb2
        simp [frameRecordSize] at this
      · intro heq
        rw [heq] at hg2
        have := h.heap.size_unique hb1 hg2
        simp [frameRecordSize] at this
    have hheap : HeapOk { m with frames := update m.frames f none } := ⟨h.heap.apart, h.heap.bounds⟩
    refine ⟨(hheap.free _).free _, ?_, ?_, ?_, ?_, ?_, ?_⟩
    · intro g r' hg
      obtain ⟨hgf, hg⟩ := update_none_cases hg
      obtain ⟨h1, h2, h3⟩ := h.record g r' hg
      obtain ⟨k1, k2, k3⟩ := hother g r' hg hgf
      exact ⟨hkeep _ h1 hgf k1, hkeep _ h2 k2 k3, h3⟩
    · intro g g' r₁ r₂ hg hg' heq
      exact h.inj g g' r₁ r₂ (update_none_cases hg).2 (update_none_cases hg').2 heq
    · intro g r' hg
      exact h.apartOwned g r' (update_none_cases hg).2
    · intro p hp
      obtain ⟨n, hn'⟩ := h.live p hp
      obtain ⟨k1, k2⟩ := h.apartOwned f r hr
      exact ⟨n, hkeep _ hn' (fun heq => k1 (heq ▸ hp)) (fun heq => k2 (heq ▸ hp))⟩
    · intro g
      by_cases hgf : g = f
      · subst hgf
        simp [frameReferences, heapFree, hzero]
      · have := h.counts g
        rw [plusRef_of_ne hgf] at this
        rw [← this]
        simp only [frameReferences, heapFree, update_of_ne hgf]
    · intro g r' hg
      exact h.positive g r' (update_none_cases hg).2

/-! ### What the frame operations leave alone -/

@[simp] theorem vmFrameRetain_bytes (f : ℕ) (m : Memory) : (vmFrameRetain f m).bytes = m.bytes := by
  unfold vmFrameRetain
  split <;> rfl

@[simp] theorem vmFrameRetain_blocks (f : ℕ) (m : Memory) :
    (vmFrameRetain f m).blocks = m.blocks := by
  unfold vmFrameRetain
  split <;> rfl

@[simp] theorem frameData_retain (f g : ℕ) (m : Memory) :
    frameData (vmFrameRetain f m) g = frameData m g := by
  unfold vmFrameRetain
  split
  · rfl
  · rename_i r hr
    by_cases hg : g = f
    · subst hg; simp [frameData, hr]
    · simp [frameData, update_of_ne hg]

@[simp] theorem vmFrameRelease_bytes (f : ℕ) (m : Memory) :
    (vmFrameRelease f m).bytes = m.bytes := by
  unfold vmFrameRelease
  split
  · rfl
  · split
    · rfl
    · split <;> rfl

/-- A frame that is still live after a release has its page as before. -/
theorem frameData_release (h : MemoryOk total owned (vmFrameRelease f m))
    (hg : 0 < total g) : frameData (vmFrameRelease f m) g = frameData m g := by
  obtain ⟨r, hr, _⟩ := h.exists_of_pos hg
  unfold vmFrameRelease at hr ⊢
  split at hr
  · rfl
  · rename_i r₀ hr₀
    split at hr
    · rw [if_pos ‹_›]
    · rw [if_neg ‹_›]
      split at hr
      · rw [if_pos ‹_›]
        by_cases hgf : g = f
        · subst hgf; simp [frameData, hr₀]
        · simp [frameData, update_of_ne hgf]
      · rw [if_neg ‹_›]
        have hgf : g ≠ f := (update_none_cases hr).1
        simp [frameData, heapFree, update_of_ne hgf]

/-- A release never frees a block that belongs to somebody else. -/
theorem MemoryOk.release_blocks (h : MemoryOk total owned m) (f : ℕ) (hp : owned p)
    (hb : (p, n) ∈ m.blocks) : (p, n) ∈ (vmFrameRelease f m).blocks := by
  unfold vmFrameRelease
  split
  · exact hb
  · rename_i r hr
    obtain ⟨h1, h2⟩ := h.apartOwned f r hr
    split
    · exact hb
    · split
      · exact hb
      · exact mem_heapFree.2 ⟨mem_heapFree.2 ⟨hb, fun heq => h2 (heq ▸ hp)⟩, fun heq => h1 (heq ▸ hp)⟩

theorem Created.frameData (h : Created m f m') (hg : g ≠ f) : frameData m' g = frameData m g := by
  obtain ⟨a, ha⟩ := h.frames
  simp only [Vm.frameData, ha, update_of_ne hg]

end NovaOS.Vm
