import NovaOS.Heap.Invariant

/-!
# How much `heap_alloc` hands out

`align_size` adds 15 and masks, modulo `2 ^ 64`: a request of more than `2 ^ 64 - 16` bytes becomes a
request for 0 bytes, and every free block grants that.

* `AllocKept`, `CallocKept` — what a caller relies on: the block has the bytes asked for, in the heap
  range, and `memset` stays in it;
* `SizeOk` — the request does not wrap, or no block is free;
* **`heap_sizes_iff`** — in every run of requests that are `SizeOk`, the next request is kept exactly
  when it is.
-/

namespace NovaOS.Heap

open NovaOS.Tile List

/-- `size` of the block that a returned pointer belongs to. -/
def payloadSize (memory : ℕ → UInt8) (pointer : ℕ) : ℕ := (blockAt memory (pointer - headerSize)).size

/-- The block of the pointer has `n` bytes and lies in the heap range. -/
def Backed (memory : ℕ → UInt8) (pointer n : ℕ) : Prop :=
  n ≤ payloadSize memory pointer ∧ heapStart ≤ pointer ∧ pointer + payloadSize memory pointer ≤ heapEnd

def AllocKept (heap : HeapState) (n : ℕ) : Prop :=
  ∃ pointer heap', heapAlloc heap n = some (pointer, heap') ∧
    (pointer ≠ 0 → Backed heap'.memory pointer n)

/-- What `heap_calloc` changes after its `heap_alloc` lies in the block. -/
def CallocKept (heap : HeapState) (count size : ℕ) : Prop :=
  ∃ pointer heap', heapCalloc heap count size = some (pointer, heap') ∧
    (pointer ≠ 0 → Backed heap'.memory pointer (count * size) ∧
      ∃ allocated, heapAlloc heap (count * size) = some (pointer, allocated) ∧
        ∀ i, i < pointer ∨ pointer + payloadSize heap'.memory pointer ≤ i →
          heap'.memory i = allocated.memory i)

/-- No block of the list is free. -/
def Full (heap : HeapState) : Prop :=
  ∀ blocks, blockList heap = some blocks → ∀ block ∈ blocks, block.2.free = false

/-- The request does not wrap in `align_size`, or nothing is there to be granted. -/
def SizeOk (heap : HeapState) (n : ℕ) : Prop := n ≤ 2 ^ 64 - 16 ∨ Full heap

section Kept

variable {memory : ℕ → UInt8} {tiles : List Tile} {n count size : ℕ}

theorem Linked.free_iff {previous a : ℕ} (h : Linked memory previous a 0 tiles) :
    (∀ b ∈ starts headerSize a tiles, (blockAt memory b).free = false) ↔
      ∀ t ∈ tiles, t.held ≠ none := by
  induction tiles generalizing previous a with
  | nil => simp [starts]
  | cons t tiles ih =>
    rw [starts, forall_mem_cons, forall_mem_cons, ih h.2, h.1]
    cases t.held with
    | none => simp
    | some held => simp

theorem Tiled.full_iff (h : Tiled memory tiles) :
    Full ⟨memory, heapStart⟩ ↔ ∀ t ∈ tiles, t.held ≠ none := by
  rw [← h.linked.free_iff]
  constructor
  · intro hfull b hb
    exact hfull _ h.blockList _ (mem_map_of_mem hb)
  · intro hall blocks hblocks block hblock
    rw [h.blockList] at hblocks
    obtain rfl := Option.some.inj hblocks
    obtain ⟨b, hb, rfl⟩ := mem_map.1 hblock
    exact hall b hb

theorem Tiled.backed (h : Tiled memory tiles) {p : ℕ × ℕ}
    (hp : p ∈ holdings headerSize heapStart tiles) : Backed memory p.1 p.2 := by
  obtain ⟨before, t, after, rfl, hstart, hheld⟩ := exists_tile_of_mem hp
  have hpayload : payloadSize memory p.1 = t.size := by
    rw [payloadSize, hstart, Nat.add_sub_cancel, h.linked.header]
  have hfits := h.fitting t (mem_append_right _ mem_cons_self) _ hheld
  have hends := h.ends
  rw [tilesEnd_append, tilesEnd] at hends
  have hlow := le_tilesEnd headerSize heapStart before
  have hhigh := le_tilesEnd headerSize
    (tilesEnd headerSize heapStart before + headerSize + t.size) after
  rw [Backed, hpayload]
  exact ⟨hfits.2, by omega, by omega⟩

theorem alignSize_wrapped (hn : 2 ^ 64 - 16 < n) (hlt : n < 2 ^ 64) : alignSize n = 0 := by
  simp only [alignSize, heapAlignment]
  omega

/-- **A request that wraps** is granted by the first free block, which keeps fewer bytes. -/
theorem Tiled.heapAlloc_wrapped (h : Tiled memory tiles) (hn : 2 ^ 64 - 16 < n) (hlt : n < 2 ^ 64) :
    (Full ⟨memory, heapStart⟩ ∧
        Heap.heapAlloc ⟨memory, heapStart⟩ n = some (0, ⟨memory, heapStart⟩)) ∨
      (¬Full ⟨memory, heapStart⟩ ∧ ∃ pointer memory',
        Heap.heapAlloc ⟨memory, heapStart⟩ n = some (pointer, ⟨memory', heapStart⟩) ∧
          headerSize < pointer ∧ payloadSize memory' pointer < n) := by
  have hzero : ¬(n = 0 ∨ heapStart = 0) := by
    have := heapStart_pos
    omega
  rw [Heap.heapAlloc, if_neg hzero, alignSize_wrapped hn hlt, h.full_iff]
  obtain ⟨hnone, hsmall⟩ | ⟨before, t, after, rfl, ht, -, hfound⟩ :=
    heapAllocLoop_linked 0 heapStart_pos h.linked h.length_le
  · rw [h.follow] at hnone
    rw [hnone]
    exact .inl ⟨fun t ht hfree => Nat.not_lt_zero _ (hsmall t ht hfree), rfl⟩
  · rw [h.follow] at hfound
    rw [hfound]
    obtain ⟨whole, held⟩ := t
    subst ht
    have hends := h.ends
    have hend := heapEnd_lt
    have hlow := le_tilesEnd headerSize heapStart before
    refine .inr ⟨fun hfull => ?_, _, _, rfl, ?_, ?_⟩
    · exact hfull _ (mem_append_right _ mem_cons_self) rfl
    · omega
    · -- cut to nothing, or whole and still far too small
      rw [payloadSize, Nat.add_sub_cancel, blockAt_setFree]
      by_cases hsplit : whole < 0 + headerSize + heapAlignment
      · rw [splitBlock, h.linked.header, if_pos (by
          rw [Nat.mod_eq_of_lt (by decide)]
          exact hsplit), h.linked.header]
        simp only [headerSize, heapAlignment] at hsplit ⊢
        omega
      · have hlinked := h.linked.splitBlock heapStart_pos (by rw [h.ends]; exact hend)
          (Nat.le_of_not_lt hsplit)
        rw [hlinked.header]
        exact Nat.lt_of_le_of_lt (Nat.zero_le _) hn

/-- **`heap_alloc` is kept** exactly when the request does not wrap or finds no free block. -/
theorem Tiled.allocKept_iff (h : Tiled memory tiles) (hlt : n < 2 ^ 64) :
    AllocKept ⟨memory, heapStart⟩ n ↔ SizeOk ⟨memory, heapStart⟩ n := by
  by_cases hn : n ≤ 2 ^ 64 - 16
  · refine iff_of_true ?_ (.inl hn)
    obtain hnone | ⟨pointer, memory', tiles', hsome, -, -, htiled, hperm⟩ := h.heapAlloc hn
    · exact ⟨_, _, hnone, fun hne => absurd rfl hne⟩
    · exact ⟨_, _, hsome, fun _ => htiled.backed (hperm.mem_iff.2 mem_cons_self)⟩
  · obtain ⟨hfull, hnone⟩ | ⟨hfree, pointer, memory', hsome, hpointer, hpayload⟩ :=
      h.heapAlloc_wrapped (Nat.lt_of_not_le hn) hlt
    · exact iff_of_true ⟨_, _, hnone, fun hne => absurd rfl hne⟩ (.inr hfull)
    · refine iff_of_false ?_ (not_or.2 ⟨hn, hfree⟩)
      rintro ⟨pointer', heap', halloc, hkept⟩
      rw [hsome] at halloc
      cases halloc
      exact Nat.not_le_of_lt hpayload (hkept (by omega)).1

/-- The header in front of a pointer is not reached by what is stored from the pointer on. -/
theorem payloadSize_splice {pointer : ℕ} (hpointer : headerSize < pointer) (length : ℕ)
    (f : ℕ → UInt8) : payloadSize (splice memory pointer length f) pointer = payloadSize memory pointer :=
  congrArg HeapBlock.size (blockAt_congr fun _ _ hi => splice_of_outside (.inl (by omega)))

theorem backed_splice {pointer : ℕ} (length : ℕ) (f : ℕ → UInt8) :
    Backed (splice memory pointer length f) pointer n ↔ Backed memory pointer n := by
  rw [Backed, Backed]
  by_cases hstart : heapStart ≤ pointer
  · rw [payloadSize_splice (lt_of_lt_of_le (by decide) hstart)]
  · exact iff_of_false (fun h => hstart h.2.1) fun h => hstart h.2.1

/-- **`heap_calloc` is kept** exactly when the product overflows or its `heap_alloc` is kept. -/
theorem Tiled.callocKept_iff (h : Tiled memory tiles) :
    CallocKept ⟨memory, heapStart⟩ count size ↔
      2 ^ 64 ≤ count * size ∨ SizeOk ⟨memory, heapStart⟩ (count * size) := by
  by_cases hproduct : 2 ^ 64 ≤ count * size
  · exact iff_of_true ⟨_, _, heapCalloc_of_overflow hproduct, fun hne => absurd rfl hne⟩
      (.inl hproduct)
  · have hlt := Nat.lt_of_not_le hproduct
    rw [or_iff_right hproduct, ← h.allocKept_iff hlt]
    rw [CallocKept, heapCalloc_of_lt hlt]
    constructor
    · rintro ⟨pointer, heap', hcalloc, hkept⟩
      obtain ⟨⟨p, allocated⟩, halloc, hret⟩ := Option.map_eq_some_iff.1 hcalloc
      refine ⟨p, allocated, halloc, fun hp => ?_⟩
      rw [if_pos hp] at hret
      cases hret
      exact (backed_splice _ _).1 (hkept hp).1
    · rintro ⟨p, allocated, halloc, hkept⟩
      rw [halloc, Option.map_some]
      by_cases hp : p = 0
      · exact ⟨p, allocated, congrArg some (if_neg (not_not.2 hp)), fun hne => absurd hp hne⟩
      · have hbacked := (backed_splice (count * size) fun _ => 0).2 (hkept hp)
        refine ⟨p, _, congrArg some (if_pos hp), fun _ => ⟨hbacked, allocated, rfl, ?_⟩⟩
        intro i hi
        show splice allocated.memory p (count * size) (fun _ => 0) i = allocated.memory i
        apply splice_of_outside
        exact hi.imp_right fun hhigh => Nat.le_trans (Nat.add_le_add_left hbacked.1 p) hhigh

end Kept

/-- The requests of a run are `SizeOk`; a freed pointer is held; stores go to what is held. -/
def Sized : Option Client → Call → Prop
  | none, _ => True
  | some client, .alloc size => size < 2 ^ 64 ∧ SizeOk client.heap size
  | some client, .calloc count size =>
    count < 2 ^ 64 ∧ size < 2 ^ 64 ∧ (2 ^ 64 ≤ count * size ∨ SizeOk client.heap (count * size))
  | some client, call => Permitted (some client) call

/-- A request that finds no free block changes nothing. -/
theorem Tiled.heapAlloc_full {memory : ℕ → UInt8} {tiles : List Tile} {n : ℕ}
    (h : Tiled memory tiles) (hn : 2 ^ 64 - 16 < n) (hlt : n < 2 ^ 64)
    (hok : SizeOk ⟨memory, heapStart⟩ n) :
    Heap.heapAlloc ⟨memory, heapStart⟩ n = some (0, ⟨memory, heapStart⟩) := by
  have hfull := hok.resolve_left (Nat.not_le_of_lt hn)
  obtain ⟨-, hnone⟩ | ⟨hfree, -⟩ := h.heapAlloc_wrapped hn hlt
  · exact hnone
  · exact absurd hfull hfree

theorem Ledger.sized {state : Option Client} {call : Call} (h : Ledger state)
    (hcall : Sized state call) : Ledger (Heap.step state call) := by
  obtain ⟨memory, live, tiles, rfl, htiled, hlive⟩ := h
  have hsame : Ledger (some ⟨⟨memory, heapStart⟩, live⟩) := ⟨memory, live, tiles, rfl, htiled, hlive⟩
  cases call with
  | alloc size =>
    by_cases hn : size ≤ 2 ^ 64 - 16
    · exact Ledger.alloc htiled hlive hn
    · rw [Heap.step, htiled.heapAlloc_full (Nat.lt_of_not_le hn) hcall.1 hcall.2]
      exact hsame
  | calloc count size =>
    by_cases hn : count * size ≤ 2 ^ 64 - 16
    · exact Ledger.calloc htiled hlive (.inl hn)
    · by_cases hproduct : 2 ^ 64 ≤ count * size
      · exact Ledger.calloc htiled hlive (.inr hproduct)
      · have hlt := Nat.lt_of_not_le hproduct
        rw [Heap.step, heapCalloc_of_lt hlt, htiled.heapAlloc_full (Nat.lt_of_not_le hn) hlt
          (hcall.2.2.resolve_left hproduct)]
        exact hsame
  | free pointer => exact Ledger.step hsame hcall
  | store address value => exact Ledger.step hsame hcall

/-- **The sizes of `heap_alloc` and `heap_calloc`.**  After any run of such requests, the next one is
kept exactly when it does not wrap or no block is free. -/
theorem heap_sizes_iff (memory : ℕ → UInt8) (calls : List Call)
    (hcalls : Along step Sized (start memory) calls) :
    ∃ client, calls.foldl step (start memory) = some client ∧
      (∀ n < 2 ^ 64, AllocKept client.heap n ↔ SizeOk client.heap n) ∧
      ∀ count < 2 ^ 64, ∀ size < 2 ^ 64, CallocKept client.heap count size ↔
        2 ^ 64 ≤ count * size ∨ SizeOk client.heap (count * size) := by
  obtain ⟨memory', live, tiles, hstate, htiled, -⟩ :=
    run_invariant (I := Ledger) (fun _ _ h hcall => h.sized hcall) (start_ledger memory) hcalls
  exact ⟨_, hstate, fun n hn => htiled.allocKept_iff hn, fun _ _ _ _ => htiled.callocKept_iff⟩

theorem heap_sizes_iff_alloc :
    Along step Sized (start fun _ => 0) [.alloc 100] ∧
      ∃ client, ([.alloc 100] : List Call).foldl step (start fun _ => 0) = some client ∧
        (AllocKept client.heap 4096 ↔ SizeOk client.heap 4096) := by
  have hcalls : Along step Sized (start fun _ => 0) [.alloc 100] :=
    ⟨⟨by decide, .inl (by decide)⟩, trivial⟩
  obtain ⟨client, hrun, halloc, -⟩ := heap_sizes_iff _ _ hcalls
  exact ⟨hcalls, client, hrun, halloc _ (by decide)⟩

/-- A new heap answers a request for `2 ^ 64 - 1` bytes with a block of 0 bytes, and `heap_calloc`
then clears `2 ^ 64 - 1` bytes from there. -/
theorem heapAlloc_grants_nothing :
    ((heapAlloc (heapInit fun _ => 0) (2 ^ 64 - 1)).map fun r =>
        (r.1, payloadSize r.2.memory r.1)) = some (0x02000020, 0) ∧
      ((heapCalloc (heapInit fun _ => 0) 1 (2 ^ 64 - 1)).map fun r =>
        (r.1, payloadSize r.2.memory r.1)) = some (0x02000020, 0) ∧
      ¬AllocKept (heapInit fun _ => 0) (2 ^ 64 - 1) ∧
      ¬CallocKept (heapInit fun _ => 0) 1 (2 ^ 64 - 1) := by
  have htiled := heapInit_tiled fun _ => 0
  have hfree : ¬SizeOk (heapInit fun _ => 0) (2 ^ 64 - 1) := by
    rintro (hle | hfull)
    · exact absurd hle (by decide)
    · exact htiled.full_iff.1 hfull _ mem_cons_self rfl
  refine ⟨by decide +kernel, by decide +kernel, ?_, ?_⟩
  · exact fun hkept => hfree ((htiled.allocKept_iff (by decide)).1 hkept)
  · intro hkept
    obtain hproduct | hok := htiled.callocKept_iff.1 hkept
    · exact absurd hproduct (by decide)
    · exact hfree hok

end NovaOS.Heap
