import NovaOS.Heap.Links
import NovaOS.Lib.Runs
import NovaOS.Vm.Memory

/-!
# The kernel heap in every run

Clients allocate, free what they hold, and store into what they hold.  In every such run the block
list tiles the heap range, no two neighbours are free, and what is held lies apart from everything
else.

* `Tiled memory tiles` — the heap is the tiling `tiles`; `Tiled.heapAlloc`, `Tiled.heapFree` and
  `Tiled.payload` say what a call does to the tiling, and `Tiled.heapAlloc_again` that a request
  which was served and given back is served again;
* `Client`, `step`, `Permitted` — the heap together with the ledger of what was handed out;
* `HeapOk` — what a reader of the block list sees;
* **`heap_invariant`** — `HeapOk` in every run, and every order of freeing what is held leads back to
  the one free block of `heap_init`;
* `heapAlloc_fits` — the contract under which `kernel/vm.c` was modelled;
* `heap_accounted` — `heap_free_bytes` and the blocks account for the heap range.
-/

namespace NovaOS.Heap

open NovaOS.Tile List Option

/-! ### The calls on a tiling -/

/-- The heap range is the tiling `tiles`, free neighbours allowed. -/
structure Framed (memory : ℕ → UInt8) (tiles : List Tile) : Prop where
  linked : Linked memory 0 heapStart 0 tiles
  ends : tilesEnd headerSize heapStart tiles = heapEnd
  aligned : ∀ t ∈ tiles, heapAlignment ∣ t.size
  fitting : Fitting tiles

/-- The heap range is the tiling `tiles`. -/
structure Tiled (memory : ℕ → UInt8) (tiles : List Tile) : Prop extends Framed memory tiles where
  spread : Spread tiles

theorem heapStart_pos : 0 < heapStart := by decide

theorem heapEnd_lt : heapEnd < 2 ^ 64 := by decide

theorem alignment_dvd_header : heapAlignment ∣ headerSize := by decide

section Tiled

variable {memory : ℕ → UInt8} {tiles before after : List Tile} {t : Tile} {size : ℕ}

theorem heapInit_tiled (memory : ℕ → UInt8) :
    Tiled (heapInit memory).memory [⟨heapEnd - heapStart - headerSize, none⟩] where
  linked := by
    refine ⟨?_, trivial⟩
    rw [heapInit, blockAt_stores true (by decide) (by decide) (by decide)]
    rfl
  ends := by decide
  aligned := by
    intro t ht
    rw [mem_singleton] at ht
    rw [ht]
    decide
  fitting := by
    intro t ht size hsize
    rw [mem_singleton] at ht
    rw [ht] at hsize
    cases hsize
  spread := isChain_singleton _

theorem Tiled.length_le (h : Tiled memory tiles) : tiles.length ≤ walkFuel := by
  have hle := le_tilesEnd headerSize heapStart tiles
  rw [h.ends] at hle
  simp only [walkFuel, headerSize, heapStart, heapEnd] at hle ⊢
  omega

theorem Tiled.ne_nil (h : Tiled memory tiles) : tiles ≠ [] := by
  intro hnil
  have hends := h.ends
  rw [hnil] at hends
  exact absurd hends (by decide)

theorem Tiled.follow (h : Tiled memory tiles) : follow 0 heapStart tiles = heapStart := by
  cases tiles with
  | nil => exact absurd rfl h.ne_nil
  | cons t tiles => rfl

theorem alignSize_spec (hsize : size ≤ 2 ^ 64 - 16) :
    size ≤ alignSize size ∧ heapAlignment ∣ alignSize size := by
  rw [alignSize, Nat.mod_eq_of_lt (by simp only [heapAlignment]; omega)]
  refine ⟨?_, Nat.dvd_mul_left 16 _⟩
  simp only [heapAlignment]
  omega

/-- The tiles after an allocation from one of them. -/
theorem Tiled.take (h : Tiled memory (before ++ t :: after)) (ht : t.held = none) (hpos : 0 < size) {n : ℕ}
    (hn : size ≤ n) (hdvd : heapAlignment ∣ n) (hfits : n ≤ t.size) :
    ∃ tiles', Tiled (setFree (splitBlock memory
          (tilesEnd headerSize heapStart before) n) (tilesEnd headerSize heapStart before) false)
        tiles' ∧
      (holdings headerSize heapStart tiles').Perm
        ((tilesEnd headerSize heapStart before + headerSize, size) ::
          holdings headerSize heapStart (before ++ t :: after)) := by
  obtain ⟨whole, held⟩ := t
  subst ht
  have hlt : tilesEnd headerSize heapStart (before ++ ⟨whole, none⟩ :: after) < 2 ^ 64 := by
    rw [h.ends]
    exact heapEnd_lt
  have hbound := le_tilesEnd headerSize (tilesEnd headerSize heapStart before + headerSize + whole) after
  have hends := h.ends
  rw [tilesEnd_append, tilesEnd] at hends
  have haligned := forall_mem_append.1 h.aligned
  rw [forall_mem_cons] at haligned
  have hfitting := (forall_mem_cons.1 h.fitting.right).2
  have hspread : Spread after := h.spread.right.tail
  by_cases hsplit : whole < n + headerSize + heapAlignment
  · -- the block is handed out whole
    have hmemory : splitBlock memory (tilesEnd headerSize heapStart before) n = memory := by
      rw [splitBlock, h.linked.header, if_pos]
      rw [Nat.mod_eq_of_lt]
      · exact hsplit
      · simp only [headerSize, heapAlignment, heapStart, heapEnd] at *
        omega
    rw [hmemory]
    refine ⟨before ++ ⟨whole, some size⟩ :: after, ⟨⟨?_, ?_, ?_, ?_⟩, ?_⟩, ?_⟩
    · exact h.linked.setFree (some size)
    · rw [tilesEnd_append, tilesEnd]
      exact hends
    · exact forall_mem_append.2 ⟨haligned.1, forall_mem_cons.2 haligned.2⟩
    · refine h.fitting.left.append (forall_mem_cons.2 ⟨?_, hfitting⟩)
      intro asked hasked
      cases hasked
      exact ⟨hpos, le_trans hn hfits⟩
    · exact Spread.of_held (some_ne_none size) h.spread.left hspread
    · rw [holdings_append, holdings_append]
      exact perm_middle
  · -- the rest of the block stays free
    have hcut := Nat.le_of_not_lt hsplit
    have hlinked := (h.linked.splitBlock heapStart_pos hlt hcut).setFree (some size)
    refine ⟨before ++ ⟨n, some size⟩ :: ⟨whole - n - headerSize, none⟩ :: after,
      ⟨⟨hlinked, ?_, ?_, ?_⟩, ?_⟩, ?_⟩
    · rw [tilesEnd_append, tilesEnd, tilesEnd, ← hends]
      congr 1
      simp only
      omega
    · refine forall_mem_append.2 ⟨haligned.1, forall_mem_cons.2 ⟨hdvd,
        forall_mem_cons.2 ⟨?_, haligned.2.2⟩⟩⟩
      exact Nat.dvd_sub (Nat.dvd_sub haligned.2.1 hdvd) alignment_dvd_header
    · refine h.fitting.left.append (forall_mem_cons.2 ⟨?_, forall_mem_cons.2
        ⟨fun _ hno => (by cases hno), hfitting⟩⟩)
      intro asked hasked
      cases hasked
      exact ⟨hpos, hn⟩
    · exact Spread.of_held (some_ne_none size) h.spread.left
        (Spread.free_cons (t := ⟨whole, none⟩) rfl h.spread.right)
    · rw [holdings_append, holdings_append]
      have hrest : tilesEnd headerSize heapStart before + headerSize + n + headerSize +
          (whole - n - headerSize) = tilesEnd headerSize heapStart before + headerSize + whole := by
        omega
      simp only [holdings, toList_none, map_nil, nil_append, hrest]
      exact perm_middle

/-- **`heap_alloc`**: it fails and changes nothing, or what it returns is held from then on. -/
theorem Tiled.heapAlloc (h : Tiled memory tiles) (hsize : size ≤ 2 ^ 64 - 16) :
    heapAlloc ⟨memory, heapStart⟩ size = some (0, ⟨memory, heapStart⟩) ∨
      ∃ pointer memory' tiles',
        heapAlloc ⟨memory, heapStart⟩ size = some (pointer, ⟨memory', heapStart⟩) ∧
        0 < pointer ∧ 0 < size ∧ Tiled memory' tiles' ∧
        (holdings headerSize heapStart tiles').Perm
          ((pointer, size) :: holdings headerSize heapStart tiles) := by
  obtain ⟨hle, hdvd⟩ := alignSize_spec hsize
  rw [Heap.heapAlloc]
  split
  · exact .inl rfl
  · next hzero =>
    obtain ⟨hnone, -⟩ | ⟨before, t, after, htiles, ht, hfits, hfound⟩ :=
      heapAllocLoop_linked (alignSize size) heapStart_pos h.linked h.length_le
    · rw [h.follow] at hnone
      rw [hnone]
      exact .inl rfl
    · subst htiles
      rw [h.follow] at hfound
      have hpos : 0 < size := pos_of_ne_zero fun h0 => hzero (.inl h0)
      obtain ⟨tiles', htiled, hperm⟩ := h.take ht hpos hle hdvd hfits
      rw [hfound]
      refine .inr ⟨_, _, tiles', rfl, ?_, hpos, htiled, hperm⟩
      simp only [headerSize]
      omega

theorem Tiled.payload (h : Tiled memory tiles) {p : ℕ × ℕ}
    (hp : p ∈ holdings headerSize heapStart tiles) {memory' : ℕ → UInt8}
    (hmemory : ∀ i, i < p.1 ∨ p.1 + p.2 ≤ i → memory' i = memory i) : Tiled memory' tiles := by
  refine ⟨⟨h.linked.congr fun b hb => blockAt_congr fun i hi hi' => ?_, h.ends, h.aligned,
    h.fitting⟩, h.spread⟩
  obtain hbelow | habove := starts_apart_holdings h.fitting hb hp
  · exact hmemory i (.inr (le_trans hbelow hi))
  · exact hmemory i (.inl (lt_of_lt_of_le hi' habove))

theorem Framed.setFree (h : Framed memory (before ++ t :: after)) :
    Framed (setFree memory (tilesEnd headerSize heapStart before) true)
      (before ++ ⟨t.size, none⟩ :: after) where
  linked := h.linked.setFree none
  ends := by
    have hends := h.ends
    rw [tilesEnd_append, tilesEnd] at hends ⊢
    exact hends
  aligned := by
    have haligned := forall_mem_append.1 h.aligned
    rw [forall_mem_cons] at haligned
    exact forall_mem_append.2 ⟨haligned.1, forall_mem_cons.2 haligned.2⟩
  fitting := h.fitting.left.append (forall_mem_cons.2 ⟨nofun, (forall_mem_cons.1 h.fitting.right).2⟩)

theorem Framed.mergeNext (h : Framed memory (before ++ t :: after)) :
    Framed (mergeNext memory (tilesEnd headerSize heapStart before))
      (before ++ coalesce headerSize t after) where
  linked := by
    refine h.linked.mergeNext heapStart_pos ?_
    rw [h.ends]
    exact heapEnd_lt
  ends := by
    rw [tilesEnd_append, tilesEnd_coalesce, ← tilesEnd_append]
    exact h.ends
  aligned := by
    have haligned := forall_mem_append.1 h.aligned
    exact forall_mem_append.2 ⟨haligned.1, dvd_coalesce alignment_dvd_header haligned.2⟩
  fitting := h.fitting.left.append h.fitting.right.coalesce

/-- What `heap_free` does once the block is free and has taken in the next one. -/
theorem Framed.mergePrevious {whole : ℕ} (h : Framed memory (before ++ ⟨whole, none⟩ :: after))
    (hbefore : Spread before) (hafter : Spread (⟨whole, none⟩ :: after)) :
    ∃ tiles, Tiled (mergePrevious memory (tilesEnd headerSize heapStart before)) tiles ∧
      holdings headerSize heapStart tiles =
        holdings headerSize heapStart (before ++ ⟨whole, none⟩ :: after) ∧
      ∃ u ∈ tiles, u.held = none ∧ whole ≤ u.size := by
  rw [Heap.mergePrevious, h.linked.header]
  rcases eq_nil_or_concat before with hnil | ⟨before', w, hconcat⟩
  · subst hnil
    exact ⟨_, ⟨h, hafter⟩, rfl, _, mem_cons_self, rfl, le_rfl⟩
  · rw [concat_eq_append] at hconcat
    subst hconcat
    rw [append_assoc, singleton_append] at h ⊢
    have hstart := le_tilesEnd headerSize heapStart before'
    have hne : tilesEnd headerSize heapStart before' ≠ 0 := by
      simp only [heapStart] at hstart ⊢
      omega
    rw [lastAt_concat, h.linked.header]
    cases hw : w.held with
    | some size =>
      rw [if_neg fun hfree => Bool.noConfusion hfree.2]
      refine ⟨_, ⟨h, Spread.of_held ?_ hbefore.left hafter⟩, rfl, ⟨whole, none⟩, by simp, rfl, le_rfl⟩
      rw [hw]
      exact some_ne_none size
    | none =>
      obtain ⟨wsize, wheld⟩ := w
      subst hw
      rw [if_pos ⟨hne, rfl⟩]
      refine ⟨_, ⟨h.mergeNext, ?_⟩, ?_, _, mem_append_right _ mem_cons_self, rfl, ?_⟩
      · exact Spread.replace_free (t := ⟨wsize, none⟩) rfl hbefore (Spread.free_cons (t := ⟨whole, none⟩) rfl hafter)
      · rw [holdings_append, holdings_coalesce, ← holdings_append]
      · exact Nat.le_trans (Nat.le_add_left _ _) (Nat.le_add_left _ _)

/-- **`heap_free`** of what is held: it is not held any more. -/
theorem Tiled.heapFree (h : Tiled memory tiles) {p : ℕ × ℕ}
    (hp : p ∈ holdings headerSize heapStart tiles) :
    ∃ memory' tiles', heapFree ⟨memory, heapStart⟩ p.1 = ⟨memory', heapStart⟩ ∧
      Tiled memory' tiles' ∧
      (holdings headerSize heapStart tiles).Perm (p :: holdings headerSize heapStart tiles') ∧
      ∃ u ∈ tiles', u.held = none ∧ p.2 ≤ u.size := by
  have hbounds := holdings_bounds h.fitting hp
  rw [h.ends] at hbounds
  obtain ⟨before, t, after, htiles, hpointer, hheld⟩ := exists_tile_of_mem hp
  subst htiles
  have hrange : ¬(p.1 = 0 ∨ p.1 ≤ heapStart ∨ heapEnd ≤ p.1) := by
    simp only [headerSize] at hbounds
    omega
  have hblock : p.1 - headerSize = tilesEnd headerSize heapStart before := by omega
  have hused : (blockAt memory (tilesEnd headerSize heapStart before)).free = false := by
    rw [h.linked.header, hheld]
    rfl
  -- the block, freed, with the next one taken in
  obtain ⟨whole, after', heq, hwhole, hspread⟩ := coalesce_eq headerSize ⟨t.size, none⟩ after
  have hafter : Spread after := h.spread.right.tail
  have hframed := h.setFree.mergeNext
  rw [heq] at hframed
  obtain ⟨tiles', htiled, hholdings, u, hu, hfree, hle⟩ :=
    hframed.mergePrevious h.spread.left (hspread hafter rfl)
  have hfits := (h.fitting t (mem_append_right _ mem_cons_self) p.2 hheld).2
  refine ⟨_, tiles', ?_, htiled, ?_, u, hu, hfree, (hfits.trans hwhole).trans hle⟩
  · rw [Heap.heapFree, if_neg hrange]
    simp only
    rw [hblock, hused, if_neg Bool.false_ne_true]
  · rw [hholdings, ← heq, holdings_append, holdings_append, holdings_coalesce]
    simp only [holdings, hheld, toList_some, toList_none, map_singleton,
      map_nil, nil_append, cons_append, ← hpointer]
    exact perm_middle

/-- What was given back can be had again. -/
theorem Tiled.heapAlloc_again (h : Tiled memory tiles) {p : ℕ × ℕ}
    (hp : p ∈ holdings headerSize heapStart tiles) (hpos : 0 < size) (hsize : size ≤ p.2) :
    ∃ pointer heap, pointer ≠ 0 ∧
      Heap.heapAlloc (Heap.heapFree ⟨memory, heapStart⟩ p.1) size = some (pointer, heap) := by
  obtain ⟨memory', tiles', hfree, htiled, -, u, hu, hnone, hle⟩ := h.heapFree hp
  rw [hfree, Heap.heapAlloc, if_neg (by simp only [heapStart]; omega)]
  obtain ⟨-, hsmall⟩ | ⟨before, t, after, -, -, -, hfound⟩ :=
    heapAllocLoop_linked (alignSize size) heapStart_pos htiled.linked htiled.length_le
  · -- the tile is a multiple of 16, so the rounded size fits too
    have hlt := hsmall u hu hnone
    obtain ⟨k, hk⟩ := htiled.aligned u hu
    rw [alignSize] at hlt
    simp only [heapAlignment] at hlt hk
    omega
  · rw [htiled.follow] at hfound
    rw [hfound]
    refine ⟨_, _, ?_, rfl⟩
    simp only [headerSize]
    omega

theorem Tiled.blockList (h : Tiled memory tiles) :
    blockList ⟨memory, heapStart⟩ =
      some ((starts headerSize heapStart tiles).map fun b => (b, blockAt memory b)) := by
  have hwalk := blocksFrom_linked heapStart_pos h.linked h.length_le
  rw [h.follow] at hwalk
  exact hwalk

end Tiled

/-! ### Clients -/

/-- The heap, and what its clients hold: pointers with the size they asked for. -/
structure Client where
  heap : HeapState
  live : List (ℕ × ℕ)

inductive Call
  | alloc (size : ℕ)
  | calloc (count size : ℕ)
  | free (pointer : ℕ)
  | store (address : ℕ) (value : UInt8)

/-- What a client holds after an allocation returned. -/
def Client.keep (live : List (ℕ × ℕ)) (size : ℕ) (returned : ℕ × HeapState) : Client :=
  ⟨returned.2, if returned.1 = 0 then live else (returned.1, size) :: live⟩

/-- One call; `none` when a call did not return. -/
def step : Option Client → Call → Option Client
  | none, _ => none
  | some client, .alloc size =>
    (heapAlloc client.heap size).map (Client.keep client.live size)
  | some client, .calloc count size =>
    (heapCalloc client.heap count size).map (Client.keep client.live (count * size))
  | some client, .free pointer =>
    some ⟨heapFree client.heap pointer, client.live.filter fun p => p.1 != pointer⟩
  | some client, .store address value =>
    some { client with
      heap := { client.heap with memory := writeBytes client.heap.memory address [value] } }

/-- Requests up to `2 ^ 63` bytes; a freed pointer was returned and not freed since; stores go to what
is held.  A product that does not fit `size_t` is for `heap_calloc` to refuse. -/
def Permitted : Option Client → Call → Prop
  | none, _ => True
  | some _, .alloc size => size ≤ 2 ^ 63
  | some _, .calloc count size =>
    count < 2 ^ 64 ∧ size < 2 ^ 64 ∧ (count * size ≤ 2 ^ 63 ∨ 2 ^ 64 ≤ count * size)
  | some client, .free pointer => ∃ p ∈ client.live, p.1 = pointer
  | some client, .store address _ => ∃ p ∈ client.live, p.1 ≤ address ∧ address < p.1 + p.2

instance : ∀ state call, Decidable (Permitted state call)
  | none, _ => isTrue trivial
  | some _, .alloc _ => inferInstanceAs (Decidable (_ ≤ _))
  | some _, .calloc _ _ => inferInstanceAs (Decidable (_ ∧ _))
  | some _, .free _ => inferInstanceAs (Decidable (∃ p ∈ _, _))
  | some _, .store _ _ => inferInstanceAs (Decidable (∃ p ∈ _, _))

/-- The start of a run. -/
def start (memory : ℕ → UInt8) : Option Client := some ⟨heapInit memory, []⟩

/-- The run got here and the heap is a tiling whose holdings are the ledger. -/
def Ledger (state : Option Client) : Prop :=
  ∃ memory live tiles, state = some ⟨⟨memory, heapStart⟩, live⟩ ∧ Tiled memory tiles ∧
    live.Perm (holdings headerSize heapStart tiles)

theorem start_ledger (memory : ℕ → UInt8) : Ledger (start memory) :=
  ⟨_, [], _, rfl, heapInit_tiled memory, List.Perm.nil⟩

section Steps

variable {memory : ℕ → UInt8} {live : List (ℕ × ℕ)} {tiles : List Tile}

theorem Ledger.alloc (h : Tiled memory tiles)
    (hlive : live.Perm (holdings headerSize heapStart tiles)) {size : ℕ}
    (hsize : size ≤ 2 ^ 64 - 16) :
    Ledger (step (some ⟨⟨memory, heapStart⟩, live⟩) (.alloc size)) := by
  rw [step]
  obtain hnone | ⟨pointer, memory', tiles', hsome, hpointer, -, htiled, hperm⟩ := h.heapAlloc hsize
  · rw [hnone]
    exact ⟨memory, live, tiles, rfl, h, hlive⟩
  · rw [hsome]
    refine ⟨memory', (pointer, size) :: live, tiles', ?_, htiled, ?_⟩
    · simp only [map_some, Client.keep, if_neg (ne_of_gt hpointer)]
    · exact (hlive.cons _).trans hperm.symm

theorem heapCalloc_of_overflow {heap : HeapState} {count size : ℕ}
    (hproduct : 2 ^ 64 ≤ count * size) : heapCalloc heap count size = some (0, heap) := by
  have hzero : size ≠ 0 := fun hzero => by simp [hzero] at hproduct
  have hcount : (2 ^ 64 - 1) / size < count := by
    rw [Nat.div_lt_iff_lt_mul (Nat.pos_of_ne_zero hzero)]
    omega
  exact if_pos ⟨hzero, hcount⟩

/-- The guard of `heap_calloc` lets every product pass that fits `size_t`. -/
theorem heapCalloc_of_lt {heap : HeapState} {count size : ℕ} (hproduct : count * size < 2 ^ 64) :
    heapCalloc heap count size = (heapAlloc heap (count * size)).map fun r =>
      if r.1 ≠ 0 then
        (r.1, { r.2 with memory := splice r.2.memory r.1 (count * size) fun _ => 0 })
      else r := by
  have hguard : ¬(size ≠ 0 ∧ (2 ^ 64 - 1) / size < count) := by
    rintro ⟨hzero, hcount⟩
    rw [Nat.div_lt_iff_lt_mul (Nat.pos_of_ne_zero hzero)] at hcount
    omega
  rw [heapCalloc, if_neg hguard, Nat.mod_eq_of_lt hproduct]

section

variable (h : Tiled memory tiles) (hlive : live.Perm (holdings headerSize heapStart tiles))

include h hlive

theorem Ledger.calloc {count size : ℕ}
    (hproduct : count * size ≤ 2 ^ 64 - 16 ∨ 2 ^ 64 ≤ count * size) :
    Ledger (step (some ⟨⟨memory, heapStart⟩, live⟩) (.calloc count size)) := by
  rw [step]
  obtain hproduct | hproduct := hproduct
  · rw [heapCalloc_of_lt (by omega)]
    obtain hnone | ⟨pointer, memory', tiles', hsome, hpointer, -, htiled, hperm⟩ :=
      h.heapAlloc hproduct
    · rw [hnone]
      exact ⟨memory, live, tiles, rfl, h, hlive⟩
    · rw [hsome]
      have hpointer' := ne_of_gt hpointer
      refine ⟨splice memory' pointer (count * size) fun _ => 0,
        (pointer, count * size) :: live, tiles', ?_, ?_, ?_⟩
      · simp only [map_some, ne_eq, hpointer', not_false_eq_true, if_true, Client.keep, if_false]
      · refine htiled.payload (p := (pointer, count * size)) ?_ fun i hi => splice_of_outside hi
        exact hperm.mem_iff.2 mem_cons_self
      · exact (hlive.cons _).trans hperm.symm
  · rw [heapCalloc_of_overflow hproduct]
    exact ⟨memory, live, tiles, rfl, h, hlive⟩

theorem Ledger.free {p : ℕ × ℕ} (hp : p ∈ live) :
    Ledger (step (some ⟨⟨memory, heapStart⟩, live⟩) (.free p.1)) := by
  obtain ⟨memory', tiles', hfree, htiled, hperm, -⟩ := h.heapFree (hlive.mem_iff.1 hp)
  refine ⟨memory', live.filter fun q => q.1 != p.1, tiles', ?_, htiled, ?_⟩
  · rw [step, hfree]
  · -- no other holding starts there
    have hdistinct := (holdings_pairwise (a := heapStart) h.fitting (by decide : 0 < headerSize))
    have hnodup : ((holdings headerSize heapStart tiles).map Prod.fst).Nodup :=
      pairwise_map.2 (hdistinct.imp fun hxy => ne_of_lt hxy.1)
    rw [(hperm.map Prod.fst).nodup_iff, map_cons, nodup_cons] at hnodup
    have hall := (hlive.trans hperm).filter fun q => q.1 != p.1
    rw [filter_cons_of_neg (by simp)] at hall
    have hrest : (holdings headerSize heapStart tiles').filter (fun q => q.1 != p.1) =
        holdings headerSize heapStart tiles' := by
      apply filter_eq_self.2
      intro q hq
      rw [bne_iff_ne]
      exact fun heq => hnodup.1 (heq ▸ mem_map_of_mem hq)
    rwa [hrest] at hall

theorem Ledger.store {p : ℕ × ℕ} (hp : p ∈ live)
    {address : ℕ} (hlow : p.1 ≤ address) (hhigh : address < p.1 + p.2) (value : UInt8) :
    Ledger (step (some ⟨⟨memory, heapStart⟩, live⟩) (.store address value)) := by
  refine ⟨_, live, tiles, rfl, h.payload (hlive.mem_iff.1 hp) fun i hi => ?_, hlive⟩
  apply writeBytes_of_outside
  rw [length_singleton]
  omega

end

/-- **A permitted call keeps the ledger.** -/
theorem Ledger.step {state : Option Client} {call : Call} (h : Ledger state)
    (hcall : Permitted state call) : Ledger (step state call) := by
  obtain ⟨memory, live, tiles, rfl, htiled, hlive⟩ := h
  cases call with
  | alloc size => exact Ledger.alloc htiled hlive (le_trans hcall (by decide))
  | calloc count size =>
    exact Ledger.calloc htiled hlive (hcall.2.2.imp_left fun hle => le_trans hle (by decide))
  | free pointer =>
    obtain ⟨p, hp, rfl⟩ := hcall
    exact Ledger.free htiled hlive hp
  | store address value =>
    obtain ⟨p, hp, hlow, hhigh⟩ := hcall
    exact Ledger.store htiled hlive hp hlow hhigh value

end Steps

/-! ### What a reader of the block list sees -/

/-- Two blocks, one behind the other. -/
def Neighbours (x y : ℕ × HeapBlock) : Prop :=
  x.2.next = y.1 ∧ y.2.previous = x.1 ∧ y.1 = x.1 + headerSize + x.2.size ∧
    ¬(x.2.free = true ∧ y.2.free = true)

/-- The blocks from `first_block` on tile the heap range, and what is held lies apart. -/
structure HeapOk (heap : HeapState) (live : List (ℕ × ℕ)) (blocks : List (ℕ × HeapBlock)) : Prop where
  walk : blockList heap = some blocks
  first : ∃ block rest, blocks = (heapStart, block) :: rest ∧ block.previous = 0
  last : ∃ front block, blocks = front ++ [block] ∧ block.2.next = 0 ∧
    block.1 + headerSize + block.2.size = heapEnd
  neighbours : blocks.IsChain Neighbours
  sizes : ∀ block ∈ blocks, 16 ∣ block.2.size
  aligned : ∀ p ∈ live, 16 ∣ p.1
  apart : live.Pairwise RangesApart
  headers : ∀ p ∈ live, ∀ block ∈ blocks, RangesApart p (block.1, headerSize)

section Reading

variable {memory : ℕ → UInt8} {previous a : ℕ} {live : List (ℕ × ℕ)} {tiles : List Tile}

section

variable (h : Linked memory previous a 0 tiles)

include h

/-- Linked headers without free neighbours are neighbours. -/
theorem Linked.neighbours (hspread : Spread tiles) :
    ((starts headerSize a tiles).map fun b => (b, blockAt memory b)).IsChain Neighbours := by
  induction tiles generalizing previous a with
  | nil => exact isChain_nil
  | cons t tiles ih =>
    cases tiles with
    | nil => exact isChain_singleton _
    | cons u tiles =>
      obtain ⟨hheld, hspread'⟩ := isChain_cons_cons.1 hspread
      refine isChain_cons_cons.2 ⟨?_, ih h.2 hspread'⟩
      refine ⟨?_, ?_, ?_, ?_⟩
      · simp only [h.1]
        rfl
      · simp only [h.2.1]
      · simp only [h.1]
      · simp only [h.1, h.2.1, isNone_iff_eq_none]
        exact fun hfree => hheld.elim (fun ht => ht hfree.1) fun hu => hu hfree.2

theorem Linked.last (hne : tiles ≠ []) :
    ∃ front block, (starts headerSize a tiles).map (fun b => (b, blockAt memory b)) =
        front ++ [block] ∧
      block.2.next = 0 ∧ block.1 + headerSize + block.2.size = tilesEnd headerSize a tiles := by
  induction tiles generalizing previous a with
  | nil => exact absurd rfl hne
  | cons t tiles ih =>
    cases tiles with
    | nil =>
      refine ⟨[], (a, blockAt memory a), rfl, ?_, ?_⟩
      · simp only [h.1]
        rfl
      · simp only [h.1]
        rfl
    | cons u tiles =>
      obtain ⟨front, block, hblocks, hnext, hend⟩ := ih h.2 (cons_ne_nil u tiles)
      refine ⟨(a, blockAt memory a) :: front, block, ?_, hnext, hend⟩
      rw [starts, map_cons, hblocks, cons_append]

theorem Linked.sizes {k : ℕ} (hk : ∀ t ∈ tiles, k ∣ t.size) :
    ∀ b ∈ starts headerSize a tiles, k ∣ (blockAt memory b).size := by
  induction tiles generalizing previous a with
  | nil => exact fun b hb => absurd hb not_mem_nil
  | cons t tiles ih =>
    refine forall_mem_cons.2 ⟨?_, ih h.2 fun u hu => hk u (mem_cons_of_mem _ hu)⟩
    rw [h.1]
    exact hk t mem_cons_self

end

/-- A tiling with its ledger looks right. -/
theorem Tiled.heapOk (h : Tiled memory tiles)
    (hlive : live.Perm (holdings headerSize heapStart tiles)) :
    HeapOk ⟨memory, heapStart⟩ live
      ((starts headerSize heapStart tiles).map fun b => (b, blockAt memory b)) where
  walk := h.blockList
  first := by
    have hlinked := h.linked
    have hne := h.ne_nil
    cases tiles with
    | nil => exact absurd rfl hne
    | cons t tiles =>
      refine ⟨_, _, rfl, ?_⟩
      rw [hlinked.1]
  last := by
    obtain ⟨front, block, hblocks, hnext, hend⟩ := h.linked.last h.ne_nil
    exact ⟨front, block, hblocks, hnext, hend.trans h.ends⟩
  neighbours := h.linked.neighbours h.spread
  sizes := by
    intro block hblock
    obtain ⟨b, hb, rfl⟩ := mem_map.1 hblock
    exact h.linked.sizes h.aligned b hb
  aligned := fun p hp =>
    holdings_dvd (by decide) alignment_dvd_header h.aligned (hlive.mem_iff.1 hp)
  apart := by
    have hpairwise := (holdings_pairwise (a := heapStart) h.fitting
      (by decide : 0 < headerSize)).imp fun hxy => hxy.2
    exact (hlive.pairwise_iff fun hxy => Or.symm hxy).2 hpairwise
  headers := by
    intro p hp block hblock
    obtain ⟨b, hb, rfl⟩ := mem_map.1 hblock
    exact starts_apart_holdings h.fitting hb (hlive.mem_iff.1 hp)

/-- What a block keeps from being free: its header, and the payload of a used one. -/
def takenBytes (block : ℕ × HeapBlock) : ℕ := headerSize + if block.2.free then 0 else block.2.size

/-- The loop of `heap_free_bytes`: what it counts and what is taken is all there is. -/
theorem Linked.account (h : Linked memory previous a 0 tiles) (total : ℕ) (htotal : total ≤ a)
    (hend : tilesEnd headerSize a tiles < 2 ^ 64) :
    let blocks := (starts headerSize a tiles).map fun b => (b, blockAt memory b)
    blocks.foldl
        (fun total block => if block.2.free then (total + block.2.size) % 2 ^ 64 else total) total +
      (blocks.map takenBytes).sum + a = total + tilesEnd headerSize a tiles := by
  induction tiles generalizing previous a total with
  | nil => rfl
  | cons t tiles ih =>
    have hle := le_tilesEnd headerSize (a + headerSize + t.size) tiles
    rw [tilesEnd] at hend ⊢
    simp only [starts, map_cons, foldl_cons, sum_cons, h.1, takenBytes]
    cases hheld : t.held with
    | none =>
      have hrest := ih h.2 (total + t.size) (by omega) hend
      simp only [isNone_none, if_true] at hrest ⊢
      rw [Nat.mod_eq_of_lt (by omega)]
      omega
    | some size =>
      have hrest := ih h.2 total (by omega) hend
      simp only [isNone_some, Bool.false_eq_true, if_false] at hrest ⊢
      omega

/-- Freeing all that is held, in any order. -/
theorem Tiled.freeAll (order : List ℕ) {memory : ℕ → UInt8} {tiles : List Tile}
    (h : Tiled memory tiles)
    (horder : order.Perm ((holdings headerSize heapStart tiles).map Prod.fst)) :
    ∃ memory' tiles', order.foldl Heap.heapFree ⟨memory, heapStart⟩ = ⟨memory', heapStart⟩ ∧
      Tiled memory' tiles' ∧ holdings headerSize heapStart tiles' = [] := by
  induction order generalizing memory tiles with
  | nil => exact ⟨memory, tiles, rfl, h, map_eq_nil_iff.1 horder.symm.eq_nil⟩
  | cons pointer order ih =>
    obtain ⟨p, hp, rfl⟩ := mem_map.1 (horder.mem_iff.1 mem_cons_self)
    obtain ⟨memory₁, tiles₁, hfree, htiled, hperm, -⟩ := h.heapFree hp
    have hrest := horder.trans (hperm.map Prod.fst)
    rw [map_cons, perm_cons] at hrest
    obtain ⟨memory', tiles', hfold, htiled', hempty⟩ := ih htiled hrest
    refine ⟨memory', tiles', ?_, htiled', hempty⟩
    rw [foldl_cons, hfree, hfold]

/-- With nothing held, the heap is one free block. -/
theorem Tiled.blockList_of_empty (h : Tiled memory tiles)
    (hempty : holdings headerSize heapStart tiles = []) :
    Heap.blockList ⟨memory, heapStart⟩ =
      some [(heapStart, ⟨heapEnd - heapStart - headerSize, 0, 0, true⟩)] := by
  rw [h.blockList]
  have hlength := h.spread.length_le_one hempty
  have hlinked := h.linked
  have hends := h.ends
  have hne := h.ne_nil
  cases tiles with
  | nil => exact absurd rfl hne
  | cons t tiles =>
    rw [length_cons] at hlength
    have htail : tiles = [] := length_eq_zero_iff.1 (by omega)
    subst htail
    have hsize : t.size = heapEnd - heapStart - headerSize := by
      rw [tilesEnd, tilesEnd] at hends
      omega
    have hfree : t.held = none := by
      rw [holdings, append_eq_nil_iff, map_eq_nil_iff, toList_eq_nil_iff] at hempty
      exact hempty.1
    rw [starts, starts, map_singleton, hlinked.1, hsize, hfree]
    rfl

end Reading

/-! ### Every run -/

/-- **The heap in every run.**  After `heap_init` and any permitted calls, every call has returned, the
block list tiles the heap range without free neighbours, and what is held is aligned and apart; and
freeing all that is held, in any order, leads back to the block list of `heap_init`. -/
theorem heap_invariant (memory : ℕ → UInt8) (calls : List Call)
    (hcalls : Along step Permitted (start memory) calls) :
    blockList (heapInit memory) =
        some [(heapStart, ⟨heapEnd - heapStart - headerSize, 0, 0, true⟩)] ∧
      ∃ client blocks, calls.foldl step (start memory) = some client ∧
        HeapOk client.heap client.live blocks ∧
        ∀ order : List ℕ, order.Perm (client.live.map Prod.fst) →
          blockList (order.foldl heapFree client.heap) = blockList (heapInit memory) := by
  have hledger := run_invariant (I := Ledger) (fun _ _ h hcall => h.step hcall)
    (start_ledger memory) hcalls
  have hinit := (heapInit_tiled memory).blockList_of_empty rfl
  obtain ⟨memory', live, tiles, hstate, htiled, hlive⟩ := hledger
  refine ⟨hinit, _, _, hstate, htiled.heapOk hlive, fun order horder => ?_⟩
  obtain ⟨memory'', tiles', hfold, htiled', hempty⟩ :=
    htiled.freeAll order (horder.trans (hlive.map Prod.fst))
  rw [hfold, htiled'.blockList_of_empty hempty]
  exact hinit.symm

/-- Two requests, a store and a free. -/
def mixedCalls : List Call := [.alloc 100, .calloc 3 7, .store 0x02000040 1, .free 0x02000020]

theorem heap_invariant_run :
    Along step Permitted (start fun _ => 0) mixedCalls ∧
      ∃ client blocks, mixedCalls.foldl step (start fun _ => 0) = some client ∧
        HeapOk client.heap client.live blocks := by
  have hcalls : Along step Permitted (start fun _ => 0) mixedCalls := by decide +kernel
  obtain ⟨-, client, blocks, hrun, hok, -⟩ := heap_invariant _ _ hcalls
  exact ⟨hcalls, client, blocks, hrun, hok⟩

/-- **The contract of `heap_alloc`.**  What it returns is a pointer that the model of `kernel/vm.c`
accepts. -/
theorem heapAlloc_fits {memory : ℕ → UInt8} {live : List (ℕ × ℕ)} {tiles : List Tile}
    (h : Tiled memory tiles) (hlive : live.Perm (holdings headerSize heapStart tiles)) {size : ℕ}
    (hsize : size ≤ 2 ^ 64 - 16) {pointer : ℕ} {heap : HeapState}
    (halloc : heapAlloc ⟨memory, heapStart⟩ size = some (pointer, heap)) (hpointer : pointer ≠ 0) :
    Vm.Fits live pointer size := by
  obtain hnone | ⟨pointer', memory', tiles', hsome, -, hpos, htiled, hperm⟩ := h.heapAlloc hsize
  · rw [halloc] at hnone
    exact absurd (congrArg Prod.fst (some.inj hnone)) hpointer
  · rw [halloc] at hsome
    obtain rfl : pointer = pointer' := congrArg Prod.fst (some.inj hsome)
    have hmem : (pointer, size) ∈ holdings headerSize heapStart tiles' :=
      hperm.mem_iff.2 mem_cons_self
    have hbounds := holdings_bounds htiled.fitting hmem
    rw [htiled.ends] at hbounds
    have hok := htiled.heapOk ((hlive.cons (pointer, size)).trans hperm.symm)
    have hdvd := hok.aligned _ mem_cons_self
    have hapart := (pairwise_cons.1 hok.apart).1
    refine ⟨hpos, ?_, Nat.mod_eq_zero_of_dvd hdvd, hbounds.2.2, fun b hb => (hapart b hb).symm⟩
    exact Nat.lt_of_lt_of_le (Nat.lt_add_of_pos_right (by decide)) hbounds.1

/-- **The heap accounts for its bytes.**  What `heap_free_bytes` counts and what the blocks take is the heap
range; and a pointer that `heap_alloc` then returns is one that the model of `kernel/vm.c` accepts. -/
theorem heap_accounted (memory : ℕ → UInt8) (calls : List Call)
    (hcalls : Along step Permitted (start memory) calls) :
    ∃ client blocks free, calls.foldl step (start memory) = some client ∧
      blockList client.heap = some blocks ∧ heapFreeBytes client.heap = some free ∧
      free + (blocks.map takenBytes).sum = heapEnd - heapStart ∧
      ∀ size pointer heap, size ≤ 2 ^ 64 - 16 → heapAlloc client.heap size = some (pointer, heap) →
        pointer ≠ 0 → Vm.Fits client.live pointer size := by
  obtain ⟨memory', live, tiles, hstate, htiled, hlive⟩ :=
    run_invariant (I := Ledger) (fun _ _ h hcall => h.step hcall) (start_ledger memory) hcalls
  have hsum := htiled.linked.account 0 (Nat.zero_le _) (htiled.ends ▸ heapEnd_lt)
  rw [htiled.ends] at hsum
  exact ⟨_, _, _, hstate, htiled.blockList, congrArg (Option.map _) htiled.blockList,
    Nat.eq_sub_of_add_eq (hsum.trans (Nat.zero_add _)),
    fun size pointer heap hsize => heapAlloc_fits htiled hlive hsize⟩

/-- A freed block is split for a smaller request, and the next free merges what lies on both sides. -/
theorem heap_accounted_run :
    let calls := mixedCalls ++ [.alloc 40, .free 0x020000B0]
    Along step Permitted (start fun _ => 0) calls ∧
      ∃ client blocks free, calls.foldl step (start fun _ => 0) = some client ∧
        blockList client.heap = some blocks ∧ blocks.length = 2 ∧
        heapFreeBytes client.heap = some free ∧
        free + (blocks.map takenBytes).sum = heapEnd - heapStart := by
  intro calls
  have hcalls : Along step Permitted (start fun _ => 0) calls := by decide +kernel
  have hlength : ((calls.foldl step (start fun _ => 0)).bind (blockList ·.heap)).map length =
      some 2 := by
    decide +kernel
  obtain ⟨client, blocks, free, hrun, hblocks, hfree, hsum, -⟩ := heap_accounted _ calls hcalls
  rw [hrun, bind_some, hblocks] at hlength
  exact ⟨hcalls, client, blocks, free, hrun, hblocks, some.inj hlength, hfree, hsum⟩

end NovaOS.Heap
