import NovaOS.Heap.Blocks
import NovaOS.Lib.Tiling

/-!
# The block list as a tiling

`Linked memory previous a next tiles` says that the headers of `tiles` stand in memory from `a` on,
doubly linked, with `previous` in front of the first and `next` behind the last.  The stores of
`splitBlock` and `mergeNext` are followed through it:

* `linked_append` — a list is linked when its two parts are, joined;
* `Linked.setFree`, `Linked.splitBlock`, `Linked.mergeNext` — the block list after each function;
* `blocksFrom_linked` — the walk along `next` meets the headers in order, and ends.
-/

namespace NovaOS.Heap

open NovaOS.Tile Nat

/-- The `next` of a block: the address behind it, unless no block follows. -/
def follow (next behind : ℕ) : List Tile → ℕ
  | [] => next
  | _ :: _ => behind

/-- The headers of `tiles` stand from `a` on and are linked. -/
def Linked (memory : ℕ → UInt8) (previous a next : ℕ) : List Tile → Prop
  | [] => True
  | t :: tiles =>
    blockAt memory a = ⟨t.size, previous, follow next (a + headerSize + t.size) tiles, t.held.isNone⟩ ∧
      Linked memory a (a + headerSize + t.size) next tiles

/-- The address of the last block, `previous` if there is none. -/
def lastAt (previous a : ℕ) : List Tile → ℕ
  | [] => previous
  | t :: tiles => lastAt a (a + headerSize + t.size) tiles

section Linked

variable {memory memory' : ℕ → UInt8} {previous a next b : ℕ} {t u : Tile}
  {tiles tiles' before after : List Tile}

theorem follow_append {behind : ℕ} (h : tilesEnd headerSize behind tiles = b ∨ tiles ≠ []) :
    follow next behind (tiles ++ tiles') = follow (follow next b tiles') behind tiles := by
  cases tiles with
  | nil =>
    have hb : behind = b := h.resolve_right fun hne => hne rfl
    rw [List.nil_append, hb]
    rfl
  | cons t tiles => rfl

/-- A list is linked when its two parts are, joined where they meet. -/
theorem linked_append :
    Linked memory previous a next (tiles ++ tiles') ↔
      Linked memory previous a (follow next (tilesEnd headerSize a tiles) tiles') tiles ∧
        Linked memory (lastAt previous a tiles) (tilesEnd headerSize a tiles) next tiles' := by
  induction tiles generalizing previous a with
  | nil => exact ⟨fun h => ⟨trivial, h⟩, fun h => h.2⟩
  | cons t tiles ih =>
    rw [List.cons_append, Linked, ih, Linked, and_assoc]
    rw [follow_append (.inl rfl)]
    rfl

/-- Only the headers are looked at. -/
theorem Linked.congr (h : Linked memory previous a next tiles)
    (hsame : ∀ b ∈ starts headerSize a tiles, blockAt memory' b = blockAt memory b) :
    Linked memory' previous a next tiles := by
  induction tiles generalizing previous a with
  | nil => trivial
  | cons t tiles ih =>
    refine ⟨?_, ih h.2 fun b hb => hsame b (List.mem_cons_of_mem _ hb)⟩
    rw [hsame a List.mem_cons_self]
    exact h.1

theorem Linked.congr_range (h : Linked memory previous a next tiles)
    (hsame : ∀ b, a ≤ b → b + headerSize ≤ tilesEnd headerSize a tiles →
      blockAt memory' b = blockAt memory b) :
    Linked memory' previous a next tiles :=
  h.congr fun b hb => hsame b (starts_bounds hb).1 (starts_bounds hb).2

theorem Linked.header (h : Linked memory previous a next (before ++ t :: after)) :
    blockAt memory (tilesEnd headerSize a before) =
      ⟨t.size, lastAt previous a before,
        follow next (tilesEnd headerSize a before + headerSize + t.size) after, t.held.isNone⟩ :=
  (linked_append.1 h).2.1

theorem lastAt_concat : lastAt previous a (before ++ [t]) = tilesEnd headerSize a before := by
  induction before generalizing previous a with
  | nil => rfl
  | cons u before ih => exact ih

/-! ### Stores -/

theorem Linked.setFree (held : Option ℕ)
    (h : Linked memory previous a next (before ++ t :: after)) :
    Linked (setFree memory (tilesEnd headerSize a before) held.isNone) previous a next
      (before ++ ⟨t.size, held⟩ :: after) := by
  obtain ⟨hbefore, hblock, hafter⟩ := linked_append.1 h
  refine linked_append.2 ⟨?_, ?_, ?_⟩
  · exact hbefore.congr_range fun b _ hb => blockAt_setFree_of_apart (.inr hb)
  · rw [blockAt_setFree, hblock]
  · exact hafter.congr_range fun b hb _ =>
      blockAt_setFree_of_apart (.inl (le_trans (le_add_right _ _) hb))

/-- The header behind a block gets it as its `previous`; nothing else changes. -/
theorem relinkNext_of_apart
    (hb : (blockAt memory a).next = 0 ∨ b + headerSize ≤ (blockAt memory a).next) :
    blockAt (relinkNext memory a) b = blockAt memory b := by
  rw [relinkNext]
  split
  · next hnext => exact blockAt_setPrevious_of_apart (.inr (hb.resolve_left hnext))
  · rfl

theorem Linked.relinkNext {block : ℕ} (ha : 0 < a) (hblock : block < 2 ^ 64)
    (hnext : (blockAt memory block).next = follow 0 a tiles)
    (h : Linked memory previous a next tiles) :
    Linked (relinkNext memory block) block a next tiles := by
  rw [Heap.relinkNext, hnext]
  cases tiles with
  | nil => trivial
  | cons t tiles =>
    rw [follow, if_pos (ne_of_gt ha)]
    refine ⟨?_, h.2.congr_range fun b hb _ =>
      blockAt_setPrevious_of_apart (.inl (le_trans (le_add_right _ _) hb))⟩
    rw [blockAt_setPrevious hblock, h.1]

theorem blockAt_stores {size p n : ℕ} (free : Bool) (hsize : size < 2 ^ 64) (hp : p < 2 ^ 64)
    (hn : n < 2 ^ 64) :
    blockAt (Heap.setFree (setNext (setPrevious (setSize memory a size) a p) a n) a free) a =
      ⟨size, p, n, free⟩ := by
  rw [blockAt_setFree, blockAt_setNext hn, blockAt_setPrevious hp, blockAt_setSize hsize]

theorem blockAt_stores_of_apart {size p n : ℕ} {free : Bool} (h : HeadersApart a b) :
    blockAt (Heap.setFree (setNext (setPrevious (setSize memory a size) a p) a n) a free) b =
      blockAt memory b := by
  rw [blockAt_setFree_of_apart h, blockAt_setNext_of_apart h, blockAt_setPrevious_of_apart h,
    blockAt_setSize_of_apart h]

theorem follow_cases (next behind : ℕ) (tiles : List Tile) :
    follow next behind tiles = next ∨ follow next behind tiles = behind := by
  cases tiles with
  | nil => exact .inl rfl
  | cons t tiles => exact .inr rfl

/-- **`split_block`** cuts a block that is large enough in two. -/
theorem Linked.splitBlock {size whole : ℕ} (ha : 0 < a)
    (h : Linked memory 0 a 0 (before ++ ⟨whole, none⟩ :: after))
    (hend : tilesEnd headerSize a (before ++ ⟨whole, none⟩ :: after) < 2 ^ 64)
    (hsize : size + headerSize + heapAlignment ≤ whole) :
    Linked (splitBlock memory (tilesEnd headerSize a before) size) 0 a 0
      (before ++ ⟨size, none⟩ :: ⟨whole - size - headerSize, none⟩ :: after) := by
  have hblock := h.header
  have hparts := linked_append.1 h
  have hbehind := le_tilesEnd headerSize (tilesEnd headerSize a before + headerSize + whole) after
  have hstart := le_tilesEnd headerSize a before
  rw [tilesEnd_append, tilesEnd] at hend
  rw [linked_append]
  generalize hat : tilesEnd headerSize a before = block at hblock hparts hend hbehind hstart ⊢
  obtain ⟨hbefore, -, hafter⟩ := hparts
  -- the remainder, and what the old block was followed by
  obtain ⟨r, hr⟩ : ∃ r, r = block + headerSize + size := ⟨_, rfl⟩
  obtain ⟨stop, hstop⟩ : ∃ stop, stop = block + headerSize + whole := ⟨_, rfl⟩
  rw [← hstop] at hblock hafter hend hbehind
  have hnext : follow 0 stop after = 0 ∨ r + headerSize ≤ follow 0 stop after := by
    obtain hf | hf := follow_cases 0 stop after
    · exact .inl hf
    · rw [hf]
      exact .inr (by simp only [heapAlignment] at hsize; omega)
  have hnextlt : follow 0 stop after < 2 ^ 64 := by
    obtain hf | hf := follow_cases 0 stop after
    · rw [hf]
      decide
    · rw [hf]
      omega
  have hapart : HeadersApart r block := .inr (by omega)
  have hwhole : ¬whole < (size + headerSize + heapAlignment) % 2 ^ 64 := by
    rw [mod_eq_of_lt (by omega)]
    omega
  rw [Heap.splitBlock, hblock, if_neg hwhole]
  simp only
  rw [← hr, blockAt_setPrevious_of_apart hapart, blockAt_setSize_of_apart hapart, hblock]
  have hheader : blockAt (Heap.setFree (setNext (setPrevious
      (setSize memory r (whole - size - headerSize)) r block) r (follow 0 stop after)) r true) r =
        ⟨whole - size - headerSize, block, follow 0 stop after, true⟩ :=
    blockAt_stores true (by omega) (by omega) hnextlt
  have hothers : ∀ b, HeadersApart r b → blockAt (Heap.setFree (setNext (setPrevious
      (setSize memory r (whole - size - headerSize)) r block) r (follow 0 stop after)) r true) b =
        blockAt memory b := fun b hb => blockAt_stores_of_apart hb
  generalize Heap.setFree (setNext (setPrevious (setSize memory r (whole - size - headerSize)) r
    block) r (follow 0 stop after)) r true = memory₁ at hheader hothers ⊢
  have hlow : ∀ b, b + headerSize ≤ r →
      blockAt (Heap.relinkNext memory₁ r) b = blockAt memory b := by
    intro b hb
    rw [relinkNext_of_apart, hothers b (.inr hb)]
    rw [hheader]
    exact hnext.imp_right fun hn => le_trans (by omega) hn
  have hremainder : r + headerSize + (whole - size - headerSize) = stop := by omega
  refine ⟨?_, ?_, ?_, ?_⟩
  · refine hbefore.congr_range fun b _ hb => ?_
    rw [hat] at hb
    rw [blockAt_setSize_of_apart (.inr hb), blockAt_setNext_of_apart (.inr hb), hlow b (by omega)]
  · rw [blockAt_setSize (by omega), blockAt_setNext (by omega), hlow block (by omega), hblock]
    rw [follow, hr]
  · have hapart' : HeadersApart block r := .inl (by omega)
    rw [← hr, blockAt_setSize_of_apart hapart', blockAt_setNext_of_apart hapart',
      relinkNext_of_apart (by rw [hheader]; exact hnext), hheader, hremainder]
    rfl
  · rw [← hr, hremainder]
    have hblockr : (blockAt memory₁ r).next = follow 0 stop after := by rw [hheader]
    have hlinked := (hafter.congr_range fun b hb _ => hothers b (.inl (by omega))).relinkNext
      (by omega) (by omega) hblockr
    refine hlinked.congr_range fun b hb _ => ?_
    have hapart' : HeadersApart block b := .inl (by omega)
    rw [blockAt_setSize_of_apart hapart', blockAt_setNext_of_apart hapart']

/-- **`merge_next`** takes in the next block if that is free. -/
theorem Linked.mergeNext (ha : 0 < a) (h : Linked memory 0 a 0 (before ++ t :: after))
    (hend : tilesEnd headerSize a (before ++ t :: after) < 2 ^ 64) :
    Linked (mergeNext memory (tilesEnd headerSize a before)) 0 a 0
      (before ++ coalesce headerSize t after) := by
  have hblock := h.header
  cases after with
  | nil =>
    have hnext : (blockAt memory (tilesEnd headerSize a before)).next = 0 := by
      rw [hblock]
      rfl
    rw [Heap.mergeNext, if_pos (.inl hnext)]
    exact h
  | cons u after =>
    have hparts := linked_append.1 h
    have hbehind := le_tilesEnd headerSize
      (tilesEnd headerSize a before + headerSize + t.size + headerSize + u.size) after
    rw [tilesEnd_append, tilesEnd, tilesEnd] at hend
    have hstart := le_tilesEnd headerSize a before
    rw [linked_append]
    generalize hat : tilesEnd headerSize a before = block at hblock hparts hend hbehind hstart ⊢
    obtain ⟨hbefore, -, hu, hafter⟩ := hparts
    obtain ⟨v, hv⟩ : ∃ v, v = block + headerSize + t.size := ⟨_, rfl⟩
    obtain ⟨stop, hstop⟩ : ∃ stop, stop = v + headerSize + u.size := ⟨_, rfl⟩
    rw [← hv] at hblock hu hafter hend hbehind
    rw [← hstop] at hu hafter hend hbehind
    have hnext : (blockAt memory block).next = v := by
      rw [hblock]
      rfl
    rw [Heap.mergeNext, hnext, coalesce]
    cases hheld : u.held with
    | some size =>
      have hused : (blockAt memory v).free = false := by
        rw [hu, hheld]
        rfl
      rw [if_pos (.inr hused)]
      refine ⟨hbefore, ?_, ?_⟩
      · rw [hblock, hv]
      · rw [← hv]
        refine ⟨?_, ?_⟩
        · rw [hu, hstop]
        · rw [← hstop]
          exact hafter
    | none =>
      have hfree : ¬(v = 0 ∨ (blockAt memory v).free = false) := by
        rw [hu, hheld]
        rintro (hzero | hused)
        · omega
        · exact Bool.noConfusion hused
      rw [if_neg hfree]
      simp only
      have hapart : HeadersApart block v := .inl (by omega)
      have hnextlt : follow 0 stop after < 2 ^ 64 := by
        obtain hf | hf := follow_cases 0 stop after
        · rw [hf]
          decide
        · rw [hf]
          omega
      rw [blockAt_setSize_of_apart hapart, hu, hblock]
      simp only
      rw [mod_eq_of_lt (by omega)]
      obtain ⟨memory₁, hmemory⟩ : ∃ memory₁, memory₁ = setNext (setSize memory block
        (t.size + (headerSize + u.size))) block (follow 0 stop after) := ⟨_, rfl⟩
      have hheader : blockAt memory₁ block = ⟨t.size + (headerSize + u.size),
          lastAt 0 a before, follow 0 stop after, t.held.isNone⟩ := by
        rw [hmemory, blockAt_setNext hnextlt, blockAt_setSize (by omega), hblock]
      have hothers : ∀ b, HeadersApart block b → blockAt memory₁ b = blockAt memory b := by
        intro b hb
        rw [hmemory, blockAt_setNext_of_apart hb, blockAt_setSize_of_apart hb]
      have hlow : ∀ b, b + headerSize ≤ v →
          blockAt (Heap.relinkNext memory₁ block) b = blockAt memory₁ b := by
        intro b hb
        apply relinkNext_of_apart
        rw [hheader]
        obtain hf | hf := follow_cases 0 stop after
        · exact .inl hf
        · exact .inr (le_trans (by omega) (le_of_eq hf.symm))
      rw [← hmemory]
      have hwhole : block + headerSize + (t.size + (headerSize + u.size)) = stop := by omega
      refine ⟨?_, ?_, ?_⟩
      · refine hbefore.congr_range fun b _ hb => ?_
        rw [hat] at hb
        rw [hlow b (by omega), hothers b (.inr hb)]
      · rw [hlow block (by omega), hheader, hwhole]
      · rw [hwhole]
        exact (hafter.congr_range fun b hb _ => hothers b (.inl (by omega))).relinkNext
          (by omega) (by omega) (by rw [hheader])

/-! ### Walking along `next` -/

theorem blocksFrom_linked (ha : 0 < a) (h : Linked memory previous a 0 tiles) {fuel : ℕ}
    (hfuel : tiles.length ≤ fuel) :
    blocksFrom memory fuel (follow 0 a tiles) =
      some ((starts headerSize a tiles).map fun b => (b, blockAt memory b)) := by
  induction tiles generalizing previous a fuel with
  | nil =>
    cases fuel with
    | zero => rfl
    | succ fuel => rfl
  | cons t tiles ih =>
    cases fuel with
    | zero => exact absurd hfuel (not_succ_le_zero _)
    | succ fuel =>
      have hrest := ih (by omega) h.2 (le_of_succ_le_succ hfuel)
      have hnext : (blockAt memory a).next = follow 0 (a + headerSize + t.size) tiles := by
        rw [h.1]
      rw [blocksFrom, follow, if_neg (ne_of_gt ha), hnext, hrest]
      rfl

/-- The loop of `heap_alloc` stops at the first free block that is large enough, or finds none. -/
theorem heapAllocLoop_linked (size : ℕ) (ha : 0 < a) (h : Linked memory previous a 0 tiles)
    {fuel : ℕ} (hfuel : tiles.length ≤ fuel) :
    (heapAllocLoop size memory fuel (follow 0 a tiles) = some (0, memory) ∧
        ∀ t ∈ tiles, t.held = none → t.size < size) ∨
      ∃ before t after, tiles = before ++ t :: after ∧ t.held = none ∧ size ≤ t.size ∧
        heapAllocLoop size memory fuel (follow 0 a tiles) =
          some (tilesEnd headerSize a before + headerSize,
            Heap.setFree (Heap.splitBlock memory (tilesEnd headerSize a before) size)
              (tilesEnd headerSize a before) false) := by
  induction tiles generalizing previous a fuel with
  | nil =>
    have hnone : ∀ t ∈ ([] : List Tile), t.held = none → t.size < size :=
      fun t ht => absurd ht List.not_mem_nil
    cases fuel with
    | zero => exact .inl ⟨rfl, hnone⟩
    | succ fuel => exact .inl ⟨rfl, hnone⟩
  | cons t tiles ih =>
    cases fuel with
    | zero => exact absurd hfuel (not_succ_le_zero _)
    | succ fuel =>
      rw [heapAllocLoop, follow, if_neg (ne_of_gt ha), h.1]
      split
      · next hskip =>
        obtain ⟨hnone, hsmall⟩ | ⟨before, u, after, htiles, hu, hsize, hfound⟩ :=
          ih (by omega) h.2 (le_of_succ_le_succ hfuel)
        · refine .inl ⟨hnone, List.forall_mem_cons.2 ⟨fun ht => ?_, hsmall⟩⟩
          rw [ht] at hskip
          exact hskip.resolve_left Bool.noConfusion
        · refine .inr ⟨t :: before, u, after, ?_, hu, hsize, hfound⟩
          rw [htiles, List.cons_append]
      · next hfits =>
        refine .inr ⟨[], t, tiles, rfl, ?_, ?_, rfl⟩
        · cases hheld : t.held with
          | none => rfl
          | some held =>
            rw [hheld] at hfits
            exact absurd (.inl rfl) hfits
        · exact Nat.le_of_not_lt fun hlt => hfits (.inr hlt)

end Linked

end NovaOS.Heap
