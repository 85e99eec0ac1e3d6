import NovaOS.Vm.CopyLaw

/-!
# What a list of pages takes

Pages that are mapped one after the other take frames, records, tables and slots from the same stock.
`Growable pages s m` says of the state before the first of them that the stock is enough:

* `tableCounts` — the tables each page adds, where one that an earlier page has added counts once;
* `IndexTakes` — the page index has a slot for each new page in its turn;
* `HeapServes` — the heap serves the requests that come: for each new page the record of its frame, the
  frame, and its tables;
* `growable_there`, `growable_new` — **what one page leaves is enough for the rest exactly when the stock
  was enough for all**.
-/

namespace NovaOS.Vm

open NovaOS.ProbeTable Function List

/-! ### Requests to the heap -/

section Requests

variable {m m' : Memory} {xs : List ℕ}

theorem SameHeap.serves_iff (h : SameHeap m m') : HeapServes xs m' ↔ HeapServes xs m := by
  induction xs generalizing m m' with
  | nil => exact Iff.rfl
  | cons size xs ih =>
    obtain ⟨hfirst, hrest⟩ := h.alloc size
    rw [HeapServes, HeapServes, hfirst, ih hrest]

/-- A frame is two requests. -/
theorem vmFrameCreate_heap (m : Memory) :
    ((vmFrameCreate m).1.isSome = true ↔ HeapServes [frameRecordSize, pageRequest] m) ∧
      ((vmFrameCreate m).1.isSome = true →
        SameHeap (heapAfter [frameRecordSize, pageRequest] m) (vmFrameCreate m).2) := by
  rw [vmFrameCreate, HeapServes, HeapServes, HeapServes, heapAfter, foldl_cons, foldl_cons, foldl_nil]
  rcases heapAlloc frameRecordSize m with ⟨_ | frame, m₁⟩
  · exact ⟨iff_of_false Bool.false_ne_true fun hall => Bool.false_ne_true hall.1,
      fun hno => absurd hno Bool.false_ne_true⟩
  obtain ⟨hsome, hnext⟩ := alignedHeapAlloc_heap m₁
  simp only
  rw [← hsome, ← hnext]
  rcases alignedHeapAlloc 4096 4096 m₁ with ⟨_ | ⟨data, allocation⟩, m₂⟩
  · exact ⟨iff_of_false Bool.false_ne_true fun hall => Bool.false_ne_true hall.2.1,
      fun hno => absurd hno Bool.false_ne_true⟩
  · exact ⟨iff_of_true rfl ⟨rfl, rfl, trivial⟩, fun _ => ⟨rfl, rfl, rfl⟩⟩

/-- **The requests of a page**: its frame, and its tables behind it. -/
theorem heapServes_page (n : ℕ) :
    HeapServes (frameRecordSize :: replicate (n + 1) pageRequest ++ xs) m ↔
      (vmFrameCreate m).1.isSome = true ∧ PagesServed n (vmFrameCreate m).2 ∧
        HeapServes xs (takePages n (vmFrameCreate m).2) := by
  obtain ⟨hframe, hsame⟩ := vmFrameCreate_heap m
  have hsplit : frameRecordSize :: replicate (n + 1) pageRequest ++ xs =
      [frameRecordSize, pageRequest] ++ (replicate n pageRequest ++ xs) := rfl
  rw [hsplit, heapServes_append, ← hframe]
  refine and_congr_right fun hsome => ?_
  rw [← (hsame hsome).serves_iff, heapServes_append]
  rfl

end Requests

/-! ### Slots of the index -/

/-- The page index has a slot for each of some pages, entered one after the other. -/
def IndexTakes : List ℕ → (ℕ → ℤ) → Prop
  | [], _ => True
  | a :: rest, slots =>
    ∃ slot, insertSlot vmPageHashSize slots vmPageHashSize (hashSlot a) none = some slot ∧
      IndexTakes rest (update slots slot 1)

theorem IndexTakes.congr {pages : List ℕ} {slots slots' : ℕ → ℤ} (h : IndexTakes pages slots)
    (hzero : ∀ i, slots' i = 0 ↔ slots i = 0) (hdeleted : ∀ i, slots' i = -1 ↔ slots i = -1) :
    IndexTakes pages slots' := by
  induction pages generalizing slots slots' with
  | nil => trivial
  | cons a rest ih =>
    obtain ⟨slot, hslot, hrest⟩ := h
    have hkind : ∀ x : ℤ, (∀ i, slots' i = x ↔ slots i = x) →
        ∀ i, update slots' slot 1 i = x ↔ update slots slot 1 i = x := by
      intro x hx i
      by_cases hi : i = slot
      · rw [hi, update_self, update_self]
      · rw [update_of_ne hi, update_of_ne hi]
        exact hx i
    refine ⟨slot, ?_, ih hrest (hkind 0 hzero) (hkind (-1) hdeleted)⟩
    rw [insertSlot_congr hzero hdeleted, hslot]

/-- It does not matter which record a slot points at. -/
theorem indexTakes_update {pages : List ℕ} {slots : ℕ → ℤ} {slot : ℕ} {v : ℤ} (hv : 0 < v) :
    IndexTakes pages (update slots slot 1) ↔ IndexTakes pages (update slots slot v) := by
  have hkind : ∀ i (x : ℤ), x ≤ 0 → (update slots slot v i = x ↔ update slots slot 1 i = x) := by
    intro i x hx
    by_cases hi : i = slot
    · rw [hi, update_self, update_self]
      omega
    · rw [update_of_ne hi, update_of_ne hi]
  exact ⟨fun h => h.congr (fun i => hkind i 0 le_rfl) fun i => hkind i (-1) (by decide),
    fun h => h.congr (fun i => (hkind i 0 le_rfl).symm) fun i => (hkind i (-1) (by decide)).symm⟩

/-! ### Tables -/

/-- Which tables a space has, by level and key. -/
def hasTable (s : VmSpace) (j key : ℕ) : Bool := (tableAt s j key).isSome

/-- How many tables on the way to the page of `a` are not there. -/
def lacking (has : ℕ → ℕ → Bool) (a : ℕ) : ℕ := ([1, 2, 3].filter fun j => !has j (tableKey a j)).length

/-- How many tables each of some pages adds to those that are there and to those of the pages before. -/
def tableCounts : List ℕ → (ℕ → ℕ → Bool) → List ℕ
  | [], _ => []
  | a :: rest, has => lacking has a :: tableCounts rest fun j key => has j key || key == tableKey a j

theorem lacking_hasTable (s : VmSpace) (a : ℕ) : lacking (hasTable s) a = tablesMissing s a := by
  have hkeys : tableKey a 1 = a / 2 ^ 39 ∧ tableKey a 2 = a / 2 ^ 30 ∧ tableKey a 3 = a / 2 ^ 21 :=
    ⟨rfl, rfl, rfl⟩
  simp only [lacking, tablesMissing, hasTable, missing, filter_cons, filter_nil, hkeys]
  cases (tableAt s 1 (a / 2 ^ 39)).isSome <;> cases (tableAt s 2 (a / 2 ^ 30)).isSome <;>
    cases (tableAt s 3 (a / 2 ^ 21)).isSome <;> rfl

theorem tableCounts_congr {pages : List ℕ} {has has' : ℕ → ℕ → Bool}
    (h : ∀ a ∈ pages, ∀ j, 0 < j → j ≤ 3 → has' j (tableKey a j) = has j (tableKey a j)) :
    tableCounts pages has' = tableCounts pages has := by
  induction pages generalizing has has' with
  | nil => rfl
  | cons a rest ih =>
    rw [forall_mem_cons] at h
    have hfirst : lacking has' a = lacking has a := by
      simp only [lacking, filter_cons, filter_nil, h.1 1 (by decide) (by decide),
        h.1 2 (by decide) (by decide), h.1 3 (by decide) le_rfl]
    rw [tableCounts, tableCounts, hfirst]
    refine congrArg _ (ih fun b hb j hpos hj => ?_)
    rw [h.2 b hb j hpos hj]

theorem tableKey_lt {a j : ℕ} (ha : CanonicalUserAddress a) (hpos : 0 < j) (hj : j ≤ 3) :
    tableKey a j < 512 ^ j := by
  have hlt : a < 2 ^ 47 := ha.1
  obtain rfl | rfl | rfl : j = 1 ∨ j = 2 ∨ j = 3 := by omega
  all_goals
    unfold tableKey
    omega

/-! ### The stock -/

/-- The pages of a list that are not mapped. -/
def newPages (s : VmSpace) (pages : List ℕ) : List ℕ := pages.filter fun page => (pageAt s page).isNone

/-- The tables the new pages of a list add, page by page. -/
def newTables (s : VmSpace) (pages : List ℕ) : List ℕ := tableCounts (newPages s pages) (hasTable s)

/-- **A state that has all it takes to map some pages.** -/
@[mk_iff] structure Growable (pages : List ℕ) (s : VmSpace) (m : Memory) : Prop where
  canonical : ∀ page ∈ pages, CanonicalUserAddress page
  records : mappedPages s + (newPages s pages).length ≤ vmMaxPages
  tables : (newTables s pages).sum = 0 ∨
    s.allocatedTables.length + (newTables s pages).sum ≤ vmMaxTables
  index : IndexTakes (newPages s pages) s.pageLookup
  heap : HeapServes ((newTables s pages).flatMap fun n =>
    frameRecordSize :: replicate (n + 1) pageRequest) m

section Stock

variable {s s' : VmSpace} {m m' : Memory} {a : ℕ} {pages rest : List ℕ}

theorem growable_nil (s : VmSpace) (m : Memory) : Growable [] s m := by
  refine ⟨fun _ hno => absurd hno not_mem_nil, ?_, .inl rfl, trivial, trivial⟩
  show mappedPages s + 0 ≤ vmMaxPages
  rw [Nat.add_zero, mappedPages, countBelow]
  exact (Finset.card_filter_le _ _).trans (Finset.card_range _).le

/-- The first page of a list, where it is not mapped, is obtainable. -/
theorem Growable.obtainable (h : Growable (a :: rest) s m) (hnone : pageAt s a = none) :
    Obtainable s a m := by
  have hnew : newPages s (a :: rest) = a :: newPages s rest := filter_cons_of_pos (by rw [hnone]; rfl)
  obtain ⟨-, hrecords, htables, hindex, hheap⟩ := h
  rw [newTables, hnew, tableCounts, lacking_hasTable] at htables hheap
  rw [hnew] at hrecords hindex
  rw [length_cons] at hrecords
  rw [sum_cons] at htables
  rw [flatMap_cons, heapServes_page] at hheap
  obtain ⟨hframe, hserved, -⟩ := hheap
  obtain ⟨slot, hslot, -⟩ := hindex
  refine ⟨hframe, by omega, ?_, (insertSlot_isSome_iff (hashSlot_lt a)).1 (by rw [hslot]; rfl)⟩
  by_cases hzero : tablesMissing s a = 0
  · exact .inl hzero
  · exact .inr ⟨by omega, hserved⟩

theorem SameStock.obtainable_iff (h : SameStock s s') : Obtainable s' a m ↔ Obtainable s a m := by
  have hmissing : tablesMissing s' a = tablesMissing s a := by
    rw [tablesMissing, tablesMissing, h.tables 1 _ (by decide), h.tables 2 _ (by decide),
      h.tables 3 _ le_rfl]
  rw [Vm.obtainable_iff, Vm.obtainable_iff, TablesServed, TablesServed, TableRoom, TableRoom, IndexOpen,
    IndexOpen, hmissing, h.allocated, h.lookup, h.record]

theorem SameStock.newPages_eq (h : SameStock s s') : newPages s' pages = newPages s pages :=
  filter_congr fun page _ => by
    rw [Bool.eq_iff_iff, Option.isNone_iff_eq_none, Option.isNone_iff_eq_none, ← Option.not_isSome_iff_eq_none,
      ← Option.not_isSome_iff_eq_none, h.pages]

/-- **After a page that was there**, the stock is what it was. -/
theorem growable_there (h : SameStock s s') (ha : CanonicalUserAddress a)
    (hpage : (pageAt s a).isSome = true) : Growable (a :: rest) s m ↔ Growable rest s' m := by
  have hold : newPages s (a :: rest) = newPages s rest :=
    filter_cons_of_neg (by simpa using Option.isSome_iff_ne_none.1 hpage)
  have htables : newTables s' rest = newTables s (a :: rest) := by
    rw [newTables, newTables, h.newPages_eq, hold]
    exact tableCounts_congr fun b _ j _ hj => by rw [hasTable, hasTable, h.tables j _ hj]
  rw [growable_iff, growable_iff, htables, h.newPages_eq, hold, h.record, h.allocated, h.lookup,
    forall_mem_cons, and_iff_right ha]

/-- **After a new page**, what is left is enough for the rest exactly when the stock was enough for
all. -/
theorem growable_new (hnone : pageAt s a = none) (ha : CanonicalUserAddress a)
    (hobtain : Obtainable s a m) (htook : Took (tablesMissing s a) s (vmFrameCreate m).2 s' m')
    (htakes : Takes a s s') (hmapped : ∀ b ∈ rest, (pageAt s' b).isNone = (pageAt s b).isNone) :
    Growable (a :: rest) s m ↔ Growable rest s' m' := by
  have hnew : newPages s (a :: rest) = a :: newPages s rest := filter_cons_of_pos (by rw [hnone]; rfl)
  have hpages : newPages s' rest = newPages s rest := filter_congr hmapped
  by_cases hcanonical : ∀ b ∈ rest, CanonicalUserAddress b
  swap
  · exact iff_of_false (fun h => hcanonical fun b hb => h.canonical b (mem_cons_of_mem a hb))
      fun h => hcanonical h.canonical
  -- the tables of the page are among those that are there now
  have htables : newTables s (a :: rest) = tablesMissing s a :: newTables s' rest := by
    rw [newTables, newTables, hnew, hpages, tableCounts, lacking_hasTable]
    refine congrArg _ (tableCounts_congr fun b hb j hpos hj => ?_)
    have hgains := htakes.tables j (tableKey b j) hj (tableKey_lt (hcanonical b (mem_filter.1 hb).1) hpos hj)
    rw [Bool.eq_iff_iff, Bool.or_eq_true, beq_iff_eq, hasTable, hasTable, hgains]
    exact or_congr_right (and_iff_right hpos).symm
  obtain ⟨slot, v, hslot, hv, hlookup⟩ := htakes.index
  have hrecord := htakes.record
  have hindex : IndexTakes (a :: newPages s rest) s.pageLookup ↔
      IndexTakes (newPages s rest) s'.pageLookup := by
    rw [hlookup, ← indexTakes_update hv]
    constructor
    · rintro ⟨slot', hslot', hrest⟩
      rw [hslot] at hslot'
      cases hslot'
      exact hrest
    · exact fun hrest => ⟨slot, hslot, hrest⟩
  have hserved : TablesServed (tablesMissing s a) s (vmFrameCreate m).2 := hobtain.tables
  have hheap : HeapServes ((newTables s (a :: rest)).flatMap fun n =>
        frameRecordSize :: replicate (n + 1) pageRequest) m ↔
      HeapServes ((newTables s' rest).flatMap fun n =>
        frameRecordSize :: replicate (n + 1) pageRequest) m' := by
    rw [htables, flatMap_cons, heapServes_page, ← htook.2]
    refine ⟨fun hall => hall.2.2, fun hrest => ⟨hobtain.frame, ?_, hrest⟩⟩
    obtain hzero | hroom := hserved
    · rw [hzero]
      trivial
    · exact hroom.2
  have hlength := htook.1
  have hlimit : tablesMissing s a = 0 ∨ s.allocatedTables.length + tablesMissing s a ≤ vmMaxTables :=
    hserved.imp_right And.left
  rw [growable_iff, growable_iff, hheap, htables, hnew, hpages, hindex, forall_mem_cons,
    and_iff_right ha, length_cons, sum_cons]
  refine and_congr_right fun _ => and_congr (by omega) (and_congr_left fun _ => by omega)

end Stock

end NovaOS.Vm
