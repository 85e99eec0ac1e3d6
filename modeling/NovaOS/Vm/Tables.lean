import NovaOS.Lib.RadixTree
import NovaOS.Vm.Space

/-!
# The page tables of a space represent a function from pages to leaf words

`TablesOk s place word` says that the four-level table of `s` is a radix tree whose leaf for page
number `k` is `word k`: every leaf table holds the words of its 512 pages, and every page with a
non-zero word has a leaf table.  Pages without a leaf table are those never mapped; below 4 GiB
such a page is still covered by an inherited 2 MiB leaf, which has no user bit.

* `SpaceHeap` — the heap blocks of a space, next to the blocks of everybody else;
* `nextTable_spec`, `walkPageEntry_create` — creating tables on the way keeps all of it;
* `Adds` — the walk succeeds exactly when its tables are there or can be had, and has then taken them;
* `walkPageEntry_read` — the walk that does not create finds the leaf table;
* `TablesOk.setLeaf` — writing the leaf of one page changes `word` there and nowhere else;
* `initializeRoot_ok` — the fresh root represents the function that is zero everywhere.
-/

namespace NovaOS.Vm

open NovaOS.RadixTree Function List Nat

/-! ### Entries -/

/-- The table an entry points at, as `next_table` and the MMU read it. -/
def entryNext (entry : ℕ) : Option ℕ :=
  if entry.testBit 0 && !entry.testBit 7 then some (addressBits entry) else none

/-- An entry of a table `l + 1` levels above the leaves: empty, a pointer to a table, or (in a
directory) an inherited supervisor leaf. -/
def InnerEntry (l entry : ℕ) : Prop :=
  entry = 0 ∨ (∃ t, t % 4096 = 0 ∧ t < 2 ^ 32 ∧ entry = tableEntry t) ∨
    (l = 0 ∧ entry.testBit 0 = true ∧ entry.testBit 7 = true ∧ entry.testBit 2 = false)

theorem tableEntry_testBit {t i : ℕ} (ht : t % 4096 = 0) (hi : i < 12) :
    (tableEntry t).testBit i = decide (i < 3) := by
  rw [tableEntry, testBit_or_of_aligned ht hi, show (7 : ℕ) = 2 ^ 3 - 1 from rfl,
    testBit_two_pow_sub_one]

theorem entryNext_tableEntry {t : ℕ} (ht : t % 4096 = 0) (hlt : t < 2 ^ 32) :
    entryNext (tableEntry t) = some t := by
  have haddr : addressBits (tableEntry t) = t := by
    refine addressBits_or ht (by omega) fun i h1 _ => ?_
    rw [show (7 : ℕ) = 2 ^ 3 - 1 from rfl, testBit_two_pow_sub_one]
    simp only [decide_eq_false_iff_not]
    omega
  rw [entryNext, tableEntry_testBit ht (by omega), tableEntry_testBit ht (by omega), haddr]
  rfl

theorem entryNext_zero : entryNext 0 = none := by simp [entryNext]

theorem nextTable_read (s : VmSpace) (table index : ℕ) (m : Memory) :
    nextTable s table index false m = (entryNext (s.tables table index), s, m) := by
  unfold nextTable entryNext
  cases (s.tables table index).testBit 0 <;> cases (s.tables table index).testBit 7 <;> rfl

/-! ### The blocks of a space -/

/-- The heap blocks that belong to `s`. -/
def ownsBlock (s : VmSpace) (p : ℕ) : Prop :=
  p = s.rootAllocation ∨ p ∈ s.allocatedTables.map Prod.snd

/-- The pages of `s` that hold tables. -/
def TablePage (s : VmSpace) (t : ℕ) : Prop :=
  (∃ k, k < 6 ∧ t = s.pml4 + k * 4096) ∨ t ∈ s.allocatedTables.map Prod.fst

/-- The heap as `s` sees it: `total` references to each frame, its own blocks, and the blocks `E`
of everybody else. -/
structure SpaceHeap (total : ℕ → ℕ) (E : ℕ → Prop) (s : VmSpace) (m : Memory) : Prop where
  memory : MemoryOk total (fun p => ownsBlock s p ∨ E p) m
  apart : ∀ p, ownsBlock s p → ¬ E p
  root : (s.rootAllocation, 28671) ∈ m.blocks
  pml4 : s.pml4 = pageOf s.rootAllocation
  pdpt : s.bootstrapPdpt = s.pml4 + 4096
  directories : s.bootstrapDirectories = s.pml4 + 2 * 4096
  tables : ∀ x ∈ s.allocatedTables, (x.2, 8191) ∈ m.blocks ∧ x.1 = pageOf x.2

/-- What creating tables leaves alone. -/
structure Grown (s : VmSpace) (m : Memory) (s' : VmSpace) (m' : Memory) : Prop where
  pages : s'.pages = s.pages
  lookup : s'.pageLookup = s.pageLookup
  hint : s'.freePageHint = s.freePageHint
  pml4 : s'.pml4 = s.pml4
  frames : SameFrames m m'
  blocks : ∀ b ∈ m.blocks, b ∈ m'.blocks

theorem Grown.refl (s : VmSpace) (m : Memory) : Grown s m s m :=
  ⟨rfl, rfl, rfl, rfl, ⟨rfl, rfl⟩, fun _ h => h⟩

theorem Grown.trans {s₁ s₂ s₃ : VmSpace} {m₁ m₂ m₃ : Memory} (h : Grown s₁ m₁ s₂ m₂)
    (h' : Grown s₂ m₂ s₃ m₃) : Grown s₁ m₁ s₃ m₃ :=
  ⟨h'.pages.trans h.pages, h'.lookup.trans h.lookup, h'.hint.trans h.hint, h'.pml4.trans h.pml4,
    ⟨h'.frames.1.trans h.frames.1, h'.frames.2.trans h.frames.2⟩,
    fun b hb => h'.blocks b (h.blocks b hb)⟩

variable {s s' : VmSpace} {m m' : Memory} {total : ℕ → ℕ} {E : ℕ → Prop} {t i j key l n v : ℕ}
  {place : ℕ → Option (ℕ × ℕ)} {word : ℕ → ℕ}

/-- Words in a table do not matter to the heap. -/
theorem SpaceHeap.setEntry (h : SpaceHeap total E s m) (t i v : ℕ) :
    SpaceHeap total E (s.setEntry t i v) m :=
  ⟨h.memory, h.apart, h.root, h.pml4, h.pdpt, h.directories, h.tables⟩

/-- A page cut from a new block is none of the space's tables. -/
theorem SpaceHeap.fresh_page (h : SpaceHeap total E s m) {raw : ℕ} (hfit : Fits m.blocks raw 8191) :
    ¬ TablePage s (pageOf raw) := by
  have hnew := pageOf_bounds raw
  rintro (⟨k, hk, heq⟩ | hmem)
  · have happ := hfit.2.2.2.2 _ h.root
    have hroot := pageOf_bounds s.rootAllocation
    rw [h.pml4] at heq
    simp only [Apart] at happ
    omega
  · obtain ⟨x, hx, hxe⟩ := mem_map.1 hmem
    obtain ⟨hb, hpage⟩ := h.tables x hx
    have happ := hfit.2.2.2.2 _ hb
    have hold := pageOf_bounds x.2
    simp only [Apart] at happ
    omega

/-- **`allocate_table`.**  It fails and only the allocator moved, or the space owns one more
table, at a page it did not use before. -/
theorem allocateTable_spec (h : SpaceHeap total E s m) :
    (∃ m', allocateTable s m = (none, s, m') ∧ SpaceHeap total E s m' ∧ Grown s m s m') ∨
    (∃ t raw m', allocateTable s m = (some t, s.addTable t raw, m') ∧
      ¬ TablePage s t ∧ t % 4096 = 0 ∧ t < 2 ^ 32 ∧ SameFrames m m' ∧
      (∀ b ∈ m.blocks, b ∈ m'.blocks) ∧
      SpaceHeap total E (s.addTable t raw) m') := by
  unfold allocateTable
  split
  · exact .inl ⟨m, rfl, h, Grown.refl s m⟩
  rw [alignedHeapAlloc_page]
  rcases halloc : heapAlloc (4096 + 4096 - 1) m with ⟨_ | raw, m1⟩
  · left
    obtain rfl := heapAlloc_none halloc
    exact ⟨_, rfl, ⟨h.memory.calls _, h.apart, h.root, h.pml4, h.pdpt, h.directories, h.tables⟩,
      ⟨rfl, rfl, rfl, rfl, ⟨rfl, rfl⟩, fun _ hb => hb⟩⟩
  · right
    obtain ⟨hfit, rfl⟩ := heapAlloc_some halloc
    have hown := (h.memory.alloc_fresh hfit).2.2
    have hmem := h.memory.alloc hfit (m.calls + 1)
    have hmono : ∀ b ∈ m.blocks, b ∈ (raw, 8191) :: m.blocks := fun b hb => mem_cons_of_mem _ hb
    refine ⟨pageOf raw, raw, _, rfl, h.fresh_page hfit, pageOf_mod raw,
      (hmem.heap.pageOf_lt (mem_cons_self ..)).2, ⟨rfl, rfl⟩, hmono, ?_⟩
    have howns : ∀ p, ownsBlock (s.addTable (pageOf raw) raw) p ↔ ownsBlock s p ∨ p = raw := by
      intro p
      simp only [ownsBlock, VmSpace.addTable, map_append, map_cons, map_nil, mem_append,
        mem_singleton, or_assoc]
    refine ⟨?_, ?_, hmono _ h.root, h.pml4, h.pdpt, h.directories, ?_⟩
    · refine (h.memory.own_alloc hfit (m.calls + 1)).owned_mono fun p hp => ?_
      rw [howns] at hp
      tauto
    · intro p hp
      rw [howns] at hp
      rcases hp with hp | rfl
      · exact h.apart p hp
      · exact fun he => hown (.inr he)
    · intro x hx
      rcases mem_append.1 hx with hx | hx
      · exact ⟨hmono _ (h.tables x hx).1, (h.tables x hx).2⟩
      · rw [mem_singleton.1 hx]
        exact ⟨mem_cons_self .., rfl⟩

/-! ### The tables represent `word` -/

/-- The table reached from the root through the digits of `key`, `j` levels down. -/
def tableAt (s : VmSpace) (j key : ℕ) : Option ℕ := descend 512 entryNext s.tables j s.pml4 key

/-- The page tables of `s` are a tree, and the leaf word of page `k` is `word k`. -/
structure TablesOk (s : VmSpace) (place : ℕ → Option (ℕ × ℕ)) (word : ℕ → ℕ) : Prop where
  tree : Tree 512 entryNext 3 s.pml4 s.tables place
  inner : ∀ t l p i, place t = some (l + 1, p) → i < 512 → InnerEntry l (s.tables t i)
  known : ∀ t q, place t = some q → TablePage s t
  leaf : ∀ n t i, n < 512 ^ 3 → tableAt s 3 n = some t → i < 512 → s.tables t i = word (n * 512 + i)
  covered : ∀ k, word k ≠ 0 → ∃ t, tableAt s 3 (k / 512) = some t

theorem setEntry_tables (s : VmSpace) (t i v t' i' : ℕ) :
    (s.setEntry t i v).tables t' i' = if t' = t ∧ i' = i then v else s.tables t' i' := by
  simp only [VmSpace.setEntry, update_apply]
  by_cases ht : t' = t
  · subst ht
    by_cases hi : i' = i <;> simp [hi]
  · simp [ht]

theorem tableAt_succ (s : VmSpace) (j key : ℕ) :
    tableAt s (j + 1) key =
      (tableAt s j (key / 512)).bind fun t => entryNext (s.tables t (key % 512)) :=
  descend_succ j s.pml4 key

/-! The three descents of an address. -/

theorem tableAt_one (s : VmSpace) (a : ℕ) :
    tableAt s 1 (a / 2 ^ 39) = entryNext (s.tables s.pml4 (a / 2 ^ 39 % 512)) := by
  rw [tableAt_succ]
  rfl

theorem tableAt_two (s : VmSpace) (a : ℕ) :
    tableAt s 2 (a / 2 ^ 30) = (tableAt s 1 (a / 2 ^ 39)).bind fun t =>
      entryNext (s.tables t (a / 2 ^ 30 % 512)) := by
  rw [tableAt_succ, Nat.div_div_eq_div_mul, show 2 ^ 30 * 512 = 2 ^ 39 from rfl]

theorem tableAt_three (s : VmSpace) (a : ℕ) :
    tableAt s 3 (a / 2 ^ 21) = (tableAt s 2 (a / 2 ^ 30)).bind fun t =>
      entryNext (s.tables t (a / 2 ^ 21 % 512)) := by
  rw [tableAt_succ, Nat.div_div_eq_div_mul, show 2 ^ 21 * 512 = 2 ^ 30 from rfl]

theorem TablesOk.place_tableAt (h : TablesOk s place word) (hj : j ≤ 3)
    (hkey : key < 512 ^ j) (ht : tableAt s j key = some t) : place t = some (3 - j, key) := by
  refine h.tree.descend_place (by omega) j s.pml4 t ?_ ht
  rw [h.tree.root, Nat.div_eq_of_lt hkey, Nat.add_sub_cancel' hj]

/-- Pointers that stay keep the way to every table, and that there is none. -/
theorem TablesOk.tableAt_congr (h : TablesOk s place word) (hpml4 : s'.pml4 = s.pml4)
    (hsame : ∀ t l p i, place t = some (l + 1, p) → i < 512 →
      entryNext (s'.tables t i) = entryNext (s.tables t i)) (hj : j ≤ 3) :
    tableAt s' j key = tableAt s j key := by
  rw [tableAt, tableAt, hpml4]
  exact h.tree.descend_congr (k := 3 - j) (by omega) hsame j s.pml4 0
    (by rw [h.tree.root, Nat.add_sub_cancel' hj])

/-- The tables of `s'` are those of `s` and some new ones, each given by its level and its key. -/
def GainsTables (new : ℕ → ℕ → Prop) (s s' : VmSpace) : Prop :=
  ∀ j key, j ≤ 3 → key < 512 ^ j →
    ((tableAt s' j key).isSome = true ↔ (tableAt s j key).isSome = true ∨ new j key)

theorem GainsTables.trans {new new' : ℕ → ℕ → Prop} {s'' : VmSpace} (h : GainsTables new s s')
    (h' : GainsTables new' s' s'') : GainsTables (fun j key => new j key ∨ new' j key) s s'' :=
  fun j key hj hkey => by rw [h' j key hj hkey, h j key hj hkey, or_assoc]

/-- A present entry that is no table pointer is an inherited leaf. -/
theorem InnerEntry.eq_zero {e : ℕ} (h : InnerEntry l e) (h0 : e.testBit 0 = false) : e = 0 := by
  rcases h with rfl | ⟨t, ht, _, rfl⟩ | ⟨_, h1, _⟩
  · rfl
  · rw [tableEntry_testBit ht (by omega)] at h0
    simp at h0
  · rw [h1] at h0
    simp at h0

/-- **Hanging a new table** below an empty entry keeps the tables and what they represent. -/
theorem TablesOk.attach (h : TablesOk s place word) (raw : ℕ) {c : ℕ} (hj : j < 3)
    (hkey : key < 512 ^ (j + 1)) (ht : tableAt s j (key / 512) = some t)
    (hzero : s.tables t (key % 512) = 0) (hc : ¬ TablePage s c) (halign : c % 4096 = 0)
    (hlt : c < 2 ^ 32) :
    ∃ place', TablesOk ((s.addTable c raw).setEntry t (key % 512) (tableEntry c)) place' word ∧
      tableAt ((s.addTable c raw).setEntry t (key % 512) (tableEntry c)) (j + 1) key = some c ∧
      GainsTables (fun j' key' => j' = j + 1 ∧ key' = key) s
        ((s.addTable c raw).setEntry t (key % 512) (tableEntry c)) := by
  obtain ⟨l, hl⟩ : ∃ l, 3 - j = l + 1 := ⟨2 - j, by omega⟩
  have hkey' : key / 512 < 512 ^ j := by
    rw [div_lt_iff_lt_mul (by omega), ← pow_succ]
    exact hkey
  have hplace := h.place_tableAt (by omega) hkey' ht
  rw [hl] at hplace
  have hfresh : place c = none := by
    cases hp : place c with
    | none => rfl
    | some q => exact absurd (h.known c q hp) hc
  have hother : ∀ {t' q}, place t' = some q → t' ≠ c := by
    rintro t' q hp rfl
    rw [hfresh] at hp
    cases hp
  have htc := hother hplace
  generalize hs' : (s.addTable c raw).setEntry t (key % 512) (tableEntry c) = s'
  -- the words of the new state, one table at a time
  have hword : s'.tables t (key % 512) = tableEntry c := by
    rw [← hs', setEntry_tables, if_pos ⟨rfl, rfl⟩]
  have hnew : ∀ i, s'.tables c i = 0 := by
    intro i
    rw [← hs', setEntry_tables, if_neg (fun hh => htc hh.1.symm)]
    simp only [VmSpace.addTable, update_self]
  have hold : ∀ t' i, t' ≠ c → (t' ≠ t ∨ i ≠ key % 512) → s'.tables t' i = s.tables t' i := by
    intro t' i h1 h2
    rw [← hs', setEntry_tables, if_neg (by tauto)]
    simp only [VmSpace.addTable, update_of_ne h1]
  have hpml4 : s'.pml4 = s.pml4 := by rw [← hs']; rfl
  have hpages : ∀ p, TablePage s p → TablePage s' p := by
    rintro p (⟨k, hk, heq⟩ | hmem)
    · exact .inl ⟨k, hk, by rw [hpml4]; exact heq⟩
    · refine .inr ?_
      rw [← hs']
      exact mem_map.2 (by
        obtain ⟨x, hx, hxe⟩ := mem_map.1 hmem
        exact ⟨x, mem_append_left _ hx, hxe⟩)
  have hcpage : TablePage s' c := by
    refine .inr ?_
    rw [← hs']
    exact mem_map.2 ⟨(c, raw), mem_append_right _ (mem_singleton.2 rfl), rfl⟩
  have hnext : entryNext (s'.tables t (key % 512)) = some c := by
    rw [hword, entryNext_tableEntry halign hlt]
  have htree := h.tree.attach s'.tables hplace hfresh hnext
    (fun i _ => by rw [hnew, entryNext_zero]) (fun t' i h1 h2 => by rw [hold t' i h1 h2])
  -- descents survive: the only changed pointer was empty
  have hmono : ∀ j' key' t', j' ≤ 3 → tableAt s j' key' = some t' → tableAt s' j' key' = some t' := by
    intro j' key' t' hj' hd
    unfold tableAt at hd ⊢
    rw [hpml4]
    refine h.tree.descend_mono (k := 3 - j') (by omega) ?_ j' s.pml4 0 t'
      (by rw [h.tree.root, Nat.add_sub_cancel' hj']) hd
    intro t₀ l₀ p₀ i₀ c₀ hp₀ _ hn₀
    by_cases hsame : t₀ = t ∧ i₀ = key % 512
    · rw [hsame.1, hsame.2, hzero, entryNext_zero] at hn₀
      simp at hn₀
    · rw [hold t₀ i₀ (hother hp₀) (by tauto)]
      exact hn₀
  have hat : tableAt s' (j + 1) key = some c := by
    rw [tableAt_succ, hmono j _ t (by omega) ht, Option.bind_some, hnext]
  -- and a descent that ends in the new table has read its key
  have hends : ∀ j' key', j' ≤ 3 → key' < 512 ^ j' → tableAt s' j' key' = some c →
      j' = j + 1 ∧ key' = key := by
    intro j' key' hj' hkey' hd
    rw [tableAt, hpml4] at hd
    have hpc := htree.descend_place (k := 3 - j') (by omega) j' s.pml4 c
      (by rw [htree.root, div_eq_of_lt hkey', Nat.add_sub_cancel' hj']) hd
    rw [update_self, Option.some.injEq, Prod.mk.injEq] at hpc
    omega
  have hback : ∀ j' key' t', tableAt s' j' key' = some t' → t' = c ∨ tableAt s j' key' = some t' := by
    intro j' key' t' hd
    rw [tableAt, hpml4] at hd
    exact descend_of_attach (by omega) hnext (fun i _ => by rw [hnew, entryNext_zero])
      (fun t' i h1 h2 => by rw [hold t' i h1 h2]) j' _ _ (hother h.tree.root) hd
  refine ⟨_, ⟨by rw [hpml4]; exact htree, ?_, ?_, ?_, ?_⟩, hat, ?_⟩
  · intro t' l' p' i hp hi
    by_cases htc' : t' = c
    · rw [htc', hnew]
      exact .inl rfl
    rw [update_of_ne htc'] at hp
    by_cases hsame : t' = t ∧ i = key % 512
    · rw [hsame.1, hsame.2, hword]
      exact .inr (.inl ⟨c, halign, hlt, rfl⟩)
    · rw [hold t' i htc' (by tauto)]
      exact h.inner t' l' p' i hp hi
  · intro t' q hp
    by_cases htc' : t' = c
    · rw [htc']; exact hcpage
    · rw [update_of_ne htc'] at hp
      exact hpages t' (h.known t' q hp)
  · intro n t' i hn hd hi
    rcases hback 3 n t' hd with htc' | hd'
    · -- a new leaf table: none of its pages had a word, or the walk would have found a table
      rw [htc'] at hd
      obtain ⟨hlevel, rfl⟩ := hends 3 n le_rfl hn hd
      obtain rfl : j = 2 := by omega
      rw [htc', hnew]
      by_contra hne
      obtain ⟨t₁, ht₁⟩ := h.covered (n * 512 + i) (Ne.symm hne)
      rw [show (n * 512 + i) / 512 = n by omega, tableAt_succ, ht, Option.bind_some, hzero,
        entryNext_zero] at ht₁
      simp at ht₁
    · have hp := h.place_tableAt le_rfl hn hd'
      have hne : t' ≠ t := by
        rintro rfl
        rw [hplace] at hp
        simp at hp
      rw [hold t' i (hother hp) (.inl hne)]
      exact h.leaf n t' i hn hd' hi
  · intro k hk
    obtain ⟨t₁, ht₁⟩ := h.covered k hk
    exact ⟨t₁, hmono 3 _ t₁ le_rfl ht₁⟩
  · intro j' key' hj' hkey'
    constructor
    · intro hsome
      obtain ⟨t', hd⟩ := Option.isSome_iff_exists.1 hsome
      rcases hback j' key' t' hd with rfl | hd'
      · exact .inr (hends j' key' hj' hkey' hd)
      · exact .inl (Option.isSome_iff_exists.2 ⟨t', hd'⟩)
    · rintro (hsome | ⟨rfl, rfl⟩)
      · obtain ⟨t', hd⟩ := Option.isSome_iff_exists.1 hsome
        exact Option.isSome_iff_exists.2 ⟨t', hmono j' key' t' hj' hd⟩
      · exact Option.isSome_iff_exists.2 ⟨c, hat⟩

theorem InnerEntry.not_huge {e : ℕ} (h : InnerEntry (l + 1) e) : e.testBit 7 = false := by
  rcases h with rfl | ⟨t, ht, _, rfl⟩ | ⟨h0, _⟩
  · simp
  · rw [tableEntry_testBit ht (by omega)]
    simp
  · omega

/-! ### Walking -/

/-- **`next_table` with `create`**, on the entry that digit selects.  The tables represent the same
words, and a table that is returned is the one below the key, and the only one that can be new. -/
theorem nextTable_spec (h : TablesOk s place word) (hh : SpaceHeap total E s m)
    (hj : j < 3) (hkey : key < 512 ^ (j + 1)) (ht : tableAt s j (key / 512) = some t)
    (hhuge : (s.tables t (key % 512)).testBit 7 = false) :
    ∃ r s' m' place', nextTable s t (key % 512) true m = (r, s', m') ∧
      TablesOk s' place' word ∧ SpaceHeap total E s' m' ∧ Grown s m s' m' ∧
      ∀ t', r = some t' → tableAt s' (j + 1) key = some t' ∧
        GainsTables (fun j' key' => j' = j + 1 ∧ key' = key) s s' := by
  have hkey' : key / 512 < 512 ^ j := by
    rw [div_lt_iff_lt_mul (by omega), ← pow_succ]
    exact hkey
  have hplace := h.place_tableAt (by omega) hkey' ht
  rw [show 3 - j = 2 - j + 1 by omega] at hplace
  have hinner := h.inner t _ _ _ hplace (mod_lt key (by omega : 0 < 512))
  unfold nextTable
  by_cases hp : (s.tables t (key % 512)).testBit 0 = true
  · refine ⟨some (addressBits (s.tables t (key % 512))), s, m, place, ?_, h, hh, Grown.refl s m, ?_⟩
    · rw [if_pos hp, hhuge]
      rfl
    · intro t' ht'
      have hat : tableAt s (j + 1) key = some t' := by
        rw [tableAt_succ, ht, Option.bind_some, entryNext, hp, hhuge]
        exact ht'
      refine ⟨hat, fun j' key' _ _ => ⟨.inl, ?_⟩⟩
      rintro (hsome | ⟨rfl, rfl⟩)
      · exact hsome
      · exact Option.isSome_iff_exists.2 ⟨t', hat⟩
  · have hzero := hinner.eq_zero (by simpa using hp)
    rw [if_neg hp]
    rcases allocateTable_spec hh with ⟨m', hal, hh', hg⟩ | ⟨c, raw, m', hal, hc, hca, hcl, hsame,
      hblocks, hh'⟩
    · exact ⟨none, s, m', place, by simp [hal], h, hh', hg, fun _ hr => by simp at hr⟩
    · obtain ⟨place', hok, hat, hgains⟩ := h.attach raw hj hkey ht hzero hc hca hcl
      refine ⟨some c, _, m', place', by simp [hal], hok, hh'.setEntry _ _ _,
        ⟨rfl, rfl, rfl, rfl, hsame, hblocks⟩, ?_⟩
      rintro t' ⟨rfl⟩
      exact ⟨hat, hgains⟩

/-- Writing an inner entry that points nowhere, before and after. -/
theorem TablesOk.clearInner (h : TablesOk s place word) {p : ℕ}
    (hp : place t = some (l + 1, p)) (hnone : entryNext (s.tables t i) = none) :
    TablesOk (s.setEntry t i 0) place word := by
  have hsame : ∀ t' i', entryNext ((s.setEntry t i 0).tables t' i') = entryNext (s.tables t' i') := by
    intro t' i'
    rw [setEntry_tables]
    split
    · rename_i heq
      rw [heq.1, heq.2, hnone, entryNext_zero]
    · rfl
  have htree : Tree 512 entryNext 3 s.pml4 (s.setEntry t i 0).tables place :=
    h.tree.congr fun t' _ _ i' _ _ => hsame t' i'
  refine ⟨htree, ?_, h.known, ?_, ?_⟩
  · intro t' l' p' i' hp' hi'
    rw [setEntry_tables]
    split
    · exact .inl rfl
    · exact h.inner t' l' p' i' hp' hi'
  · intro n t' i' hn hd hi'
    have hd' : tableAt s 3 n = some t' := htree.descend_mono (k := 0) (by omega)
      (fun t' _ _ i' _ _ _ hn => by rw [← hsame]; exact hn) 3 s.pml4 0 t' htree.root hd
    have hp' := h.place_tableAt le_rfl hn hd'
    rw [setEntry_tables, if_neg]
    · exact h.leaf n t' i' hn hd' hi'
    · rintro ⟨rfl, _⟩
      rw [hp] at hp'
      simp at hp'
  · intro k hk
    obtain ⟨t₁, ht₁⟩ := h.covered k hk
    refine ⟨t₁, ?_⟩
    exact h.tree.descend_mono (k := 0) (by omega)
      (fun t' _ _ i' _ _ _ hn => by rw [hsame]; exact hn) 3 s.pml4 0 t₁ h.tree.root ht₁

/-! ### Requests to the heap -/

/-- The heap serves some requests, one after the other. -/
def HeapServes : List ℕ → Memory → Prop
  | [], _ => True
  | size :: sizes, m => (heapAlloc size m).1.isSome = true ∧ HeapServes sizes (heapAlloc size m).2

/-- The memory after some requests. -/
def heapAfter (sizes : List ℕ) (m : Memory) : Memory := sizes.foldl (fun m size => (heapAlloc size m).2) m

/-- The request for a page, with what it takes to align it. -/
def pageRequest : ℕ := 4096 + 4096 - 1

/-- The next `n` requests for a page table are served. -/
def PagesServed (n : ℕ) (m : Memory) : Prop := HeapServes (replicate n pageRequest) m

/-- The memory after `n` requests for a page table. -/
def takePages (n : ℕ) (m : Memory) : Memory := heapAfter (replicate n pageRequest) m

section Requests

variable {k : ℕ}

theorem heapServes_append {xs ys : List ℕ} :
    HeapServes (xs ++ ys) m ↔ HeapServes xs m ∧ HeapServes ys (heapAfter xs m) := by
  induction xs generalizing m with
  | nil => exact (and_iff_right trivial).symm
  | cons size xs ih =>
    rw [cons_append, HeapServes, HeapServes, ih, and_assoc]
    rfl

theorem pagesServed_add : PagesServed (k + n) m ↔ PagesServed k m ∧ PagesServed n (takePages k m) := by
  rw [PagesServed, replicate_add, heapServes_append]
  rfl

theorem takePages_add (k n : ℕ) (m : Memory) :
    takePages (k + n) m = takePages n (takePages k m) := by
  rw [takePages, replicate_add, heapAfter, foldl_append]
  rfl

/-- A page is one request. -/
theorem alignedHeapAlloc_heap (m : Memory) :
    (alignedHeapAlloc 4096 4096 m).1.isSome = (heapAlloc pageRequest m).1.isSome ∧
      (alignedHeapAlloc 4096 4096 m).2 = (heapAlloc pageRequest m).2 := by
  rw [alignedHeapAlloc_page, ← pageRequest]
  rcases heapAlloc pageRequest m with ⟨_ | raw, m'⟩
  · exact ⟨rfl, rfl⟩
  · exact ⟨rfl, rfl⟩

end Requests

/-! ### Adding tables -/

/-- There is room for `n` more tables, and memory for them. -/
def TableRoom (n : ℕ) (s : VmSpace) (m : Memory) : Prop :=
  s.allocatedTables.length + n ≤ vmMaxTables ∧ PagesServed n m

/-- The space has `n` more tables, and their memory is taken. -/
def Took (n : ℕ) (s : VmSpace) (m : Memory) (s' : VmSpace) (m' : Memory) : Prop :=
  s'.allocatedTables.length = s.allocatedTables.length + n ∧ m' = takePages n m

/-- There is nothing to add, or there is room and memory for it. -/
def TablesServed (n : ℕ) (s : VmSpace) (m : Memory) : Prop := n = 0 ∨ TableRoom n s m

/-- A walk that lacks `n` tables succeeds exactly when they are to be had, and has then taken them. -/
def Adds {α : Type} (n : ℕ) (s : VmSpace) (m : Memory) (r : Option α × VmSpace × Memory) : Prop :=
  (r.1.isSome = true ↔ TablesServed n s m) ∧ (r.1.isSome = true → Took n s m r.2.1 r.2.2)

section Adding

variable {s'' : VmSpace} {m'' : Memory} {k : ℕ}

theorem Took.trans (h : Took k s m s' m') (h' : Took n s' m' s'' m'') :
    Took (k + n) s m s'' m'' := by
  refine ⟨?_, ?_⟩
  · rw [h'.1, h.1, add_assoc]
  · rw [h'.2, h.2, takePages_add]

theorem Took.room (h : Took k s m s' m') (hroom : TableRoom (k + n) s m) : TableRoom n s' m' := by
  refine ⟨?_, ?_⟩
  · rw [h.1, add_assoc]
    exact hroom.1
  · rw [h.2]
    exact (pagesServed_add.1 hroom.2).2

theorem TablesServed.left (h : TablesServed (k + n) s m) : TablesServed k s m := by
  obtain hzero | ⟨hlimit, hserved⟩ := h
  · exact .inl (by omega)
  · exact .inr ⟨by omega, (pagesServed_add.1 hserved).1⟩

theorem Took.served (h : Took k s m s' m') (hserved : TablesServed (k + n) s m) :
    TablesServed n s' m' := by
  obtain hzero | hroom := hserved
  · exact .inl (by omega)
  · exact .inr (h.room hroom)

/-- What is served one after the other is served together. -/
theorem TablesServed.add (hk : TablesServed k s m) (htook : Took k s m s' m')
    (hn : TablesServed n s' m') : TablesServed (k + n) s m := by
  obtain rfl | ⟨hlimit, hserved⟩ := hn
  · exact hk
  right
  rw [htook.2] at hserved
  refine ⟨?_, pagesServed_add.2 ⟨?_, hserved⟩⟩
  · rw [htook.1, add_assoc] at hlimit
    exact hlimit
  · obtain rfl | hroom := hk
    · trivial
    · exact hroom.2

theorem Adds.failed {α β : Type} {s₁ : VmSpace} {m₁ : Memory}
    (h : Adds k s m ((none : Option α), s', m')) :
    Adds (k + n) s m ((none : Option β), s₁, m₁) :=
  ⟨iff_of_false Bool.false_ne_true fun hserved => Bool.false_ne_true (h.1.2 hserved.left),
    fun hsome => by cases hsome⟩

theorem Adds.trans {α β : Type} {x : α} {r : Option β × VmSpace × Memory}
    (h : Adds k s m (some x, s', m')) (hr : Adds n s' m' r) : Adds (k + n) s m r := by
  have htook : Took k s m s' m' := h.2 rfl
  refine ⟨hr.1.trans ⟨fun hn => (h.1.1 rfl).add htook hn, htook.served⟩, fun hsome => ?_⟩
  exact htook.trans (hr.2 hsome)

theorem nextTable_present {next : ℕ} (h : entryNext (s.tables t i) = some next) (create : Bool) :
    nextTable s t i create m = (some next, s, m) := by
  rw [entryNext] at h
  split at h
  · rename_i hentry
    rw [Bool.and_eq_true, Bool.not_eq_true'] at hentry
    rw [nextTable, if_pos hentry.1, hentry.2]
    cases h
    rfl
  · cases h

/-- One when the table is not there. -/
def missing (table : Option ℕ) : ℕ := if table.isSome then 0 else 1

/-- What is not among the new tables is missing as before. -/
theorem GainsTables.missing_eq {new : ℕ → ℕ → Prop} (h : GainsTables new s s') {j key : ℕ} (hj : j ≤ 3)
    (hkey : key < 512 ^ j) (hnew : ¬ new j key) :
    missing (tableAt s' j key) = missing (tableAt s j key) := by
  have hsame := (h j key hj hkey).trans (or_iff_left hnew)
  simp only [missing, hsame]

theorem not_present_of_entryNext (hnone : entryNext (s.tables t i) = none)
    (hhuge : (s.tables t i).testBit 7 = false) : ¬ (s.tables t i).testBit 0 = true := by
  intro hpresent
  rw [entryNext, hpresent, hhuge] at hnone
  cases hnone

/-- **`next_table` adds a table where there is none.** -/
theorem nextTable_adds (hhuge : (s.tables t i).testBit 7 = false) :
    Adds (missing (entryNext (s.tables t i))) s m (nextTable s t i true m) := by
  cases hentry : entryNext (s.tables t i) with
  | some next =>
    rw [nextTable_present hentry]
    exact ⟨iff_of_true rfl (.inl rfl), fun _ => ⟨rfl, rfl⟩⟩
  | none =>
    rw [nextTable, if_neg (not_present_of_entryNext hentry hhuge), allocateTable]
    by_cases hfull : vmMaxTables ≤ s.allocatedTables.length
    · rw [if_pos hfull]
      refine ⟨iff_of_false Bool.false_ne_true ?_, fun hsome => by cases hsome⟩
      rintro (hzero | ⟨hlimit, -⟩)
      · cases hzero
      · exact absurd hlimit (Nat.not_le_of_lt (Nat.lt_succ_of_le hfull))
    rw [if_neg hfull]
    obtain ⟨hsome, hnext⟩ := alignedHeapAlloc_heap m
    rcases halloc : alignedHeapAlloc 4096 4096 m with ⟨_ | ⟨next, raw⟩, m'⟩
    · refine ⟨iff_of_false Bool.false_ne_true ?_, fun hsome => by cases hsome⟩
      rintro (hzero | ⟨-, hserved, -⟩)
      · cases hzero
      · rw [← hsome, halloc] at hserved
        cases hserved
    · refine ⟨iff_of_true rfl (.inr ⟨Nat.lt_of_not_le hfull, ?_, trivial⟩), fun _ => ⟨?_, ?_⟩⟩
      · rw [← hsome, halloc]
        rfl
      · exact List.length_append
      · rw [halloc] at hnext
        exact hnext

/-- The last table of a walk, after an inherited leaf has been dropped. -/
theorem leafTable_adds : Adds (missing (entryNext (s.tables t i))) s m
    (nextTable (if ((s.tables t i).testBit 7 && true) = true then s.setEntry t i 0 else s)
      t i true m) := by
  cases hhuge : (s.tables t i).testBit 7 with
  | false => exact nextTable_adds hhuge
  | true =>
    have hnone : entryNext (s.tables t i) = none := by
      rw [entryNext, hhuge, Bool.not_true, Bool.and_false]
      rfl
    have hcleared : (s.setEntry t i 0).tables t i = 0 := by
      rw [setEntry_tables, if_pos ⟨rfl, rfl⟩]
    have hadds := nextTable_adds (s := s.setEntry t i 0) (t := t) (i := i) (m := m)
      (by rw [hcleared, zero_testBit])
    rw [hcleared, entryNext_zero] at hadds
    rw [hnone]
    exact hadds

/-- The tables that have to be added on the way to the page of `a`. -/
def tablesMissing (s : VmSpace) (a : ℕ) : ℕ :=
  missing (tableAt s 1 (a / 2 ^ 39)) +
    (missing (tableAt s 2 (a / 2 ^ 30)) + missing (tableAt s 3 (a / 2 ^ 21)))

end Adding

theorem SpaceHeap.pml4_pos (hh : SpaceHeap total E s m) : s.pml4 ≠ 0 := by
  have h1 := (hh.memory.heap.bounds _ hh.root).2.1
  have h2 := pageOf_bounds s.rootAllocation
  rw [hh.pml4]
  omega

/-- The key of the table `j` levels down on the way to the page of `a`. -/
def tableKey (a j : ℕ) : ℕ := a / 2 ^ (48 - 9 * j)

/-- **`walk_page_entry` with `create`** succeeds exactly when the tables on the way are there or can be
had.  They are added, the represented words stay, and the leaf entry returned is the one of the page. -/
theorem walkPageEntry_create (h : TablesOk s place word) (hh : SpaceHeap total E s m) {a : ℕ}
    (ha : CanonicalUserAddress a) :
    ∃ r s' m' place', walkPageEntry s a true m = (r, s', m') ∧
      Adds (tablesMissing s a) s m (r, s', m') ∧ TablesOk s' place' word ∧ SpaceHeap total E s' m' ∧ Grown s m s' m' ∧
      ∀ t i, r = some (t, i) → tableAt s' 3 (a / 2 ^ 21) = some t ∧ i = a / 2 ^ 12 % 512 ∧
        GainsTables (fun j key => 0 < j ∧ key = tableKey a j) s s' := by
  have hlt : a < 2 ^ 47 := ha.1
  unfold walkPageEntry
  rw [if_neg (by simp [hh.pml4_pos, ha])]
  -- the root table
  have h0 : tableAt s 0 (a / 2 ^ 39 / 512) = some s.pml4 := rfl
  have hin0 := h.inner s.pml4 2 0 (a / 2 ^ 39 % 512) h.tree.root (by omega)
  obtain ⟨r1, s1, m1, p1, e1, ok1, hh1, g1, at1⟩ :=
    nextTable_spec h hh (by omega) (by omega) h0 hin0.not_huge
  have adds1 := nextTable_adds (m := m) hin0.not_huge
  rw [← show tableAt s 1 (a / 2 ^ 39) = entryNext (s.tables s.pml4 (a / 2 ^ 39 % 512)) from
    tableAt_succ .., e1] at adds1
  rw [e1]
  rcases r1 with _ | pdpt
  · exact ⟨none, s1, m1, p1, rfl, adds1.failed, ok1, hh1, g1, fun _ _ hr => by simp at hr⟩
  obtain ⟨at1, gains1⟩ := at1 pdpt rfl
  -- the pointer table
  have h1 : tableAt s1 1 (a / 2 ^ 30 / 512) = some pdpt := by
    rw [Nat.div_div_eq_div_mul]
    exact at1
  have hp1 := ok1.place_tableAt (by omega) (by omega) h1
  have hin1 := ok1.inner pdpt 1 _ (a / 2 ^ 30 % 512) hp1 (by omega)
  obtain ⟨r2, s2, m2, p2, e2, ok2, hh2, g2, at2⟩ :=
    nextTable_spec ok1 hh1 (by omega) (by omega) h1 hin1.not_huge
  have adds2 := nextTable_adds (m := m1) hin1.not_huge
  rw [← show tableAt s1 2 (a / 2 ^ 30) = entryNext (s1.tables pdpt (a / 2 ^ 30 % 512)) by
    rw [tableAt_succ, h1, Option.bind_some], gains1.missing_eq (by omega) (by omega) (by omega), e2] at adds2
  simp only
  rw [e2]
  have g12 := g1.trans g2
  rcases r2 with _ | directory
  · exact ⟨none, s2, m2, p2, rfl, adds1.trans adds2.failed, ok2, hh2, g12, fun _ _ hr => by simp at hr⟩
  obtain ⟨at2, gains2⟩ := at2 directory rfl
  -- the directory, whose entry may be an inherited leaf
  have h2 : tableAt s2 2 (a / 2 ^ 21 / 512) = some directory := by
    rw [Nat.div_div_eq_div_mul]
    exact at2
  have hp2 := ok2.place_tableAt (by omega) (by omega) h2
  obtain ⟨s3, hs3, ok3, hh3, g3, same3, hhuge3⟩ : ∃ s3,
      (if ((s2.tables directory (a / 2 ^ 21 % 512)).testBit 7 && true) = true then
        s2.setEntry directory (a / 2 ^ 21 % 512) 0 else s2) = s3 ∧ TablesOk s3 p2 word ∧
      SpaceHeap total E s3 m2 ∧ Grown s2 m2 s3 m2 ∧
      (∀ j key, j ≤ 3 → tableAt s3 j key = tableAt s2 j key) ∧
      (s3.tables directory (a / 2 ^ 21 % 512)).testBit 7 = false := by
    by_cases hb : (s2.tables directory (a / 2 ^ 21 % 512)).testBit 7 = true
    · have hnone : entryNext (s2.tables directory (a / 2 ^ 21 % 512)) = none := by
        rw [entryNext, hb, Bool.not_true, Bool.and_false]
        rfl
      refine ⟨_, by rw [hb]; rfl, ok2.clearInner hp2 hnone, hh2.setEntry _ _ _,
        ⟨rfl, rfl, rfl, rfl, ⟨rfl, rfl⟩, fun _ hb => hb⟩, ?_, ?_⟩
      · refine fun j key hj => ok2.tableAt_congr rfl (fun t' _ _ i' _ _ => ?_) hj
        rw [setEntry_tables]
        split
        · rename_i heq
          rw [heq.1, heq.2, hnone, entryNext_zero]
        · rfl
      · rw [setEntry_tables, if_pos ⟨rfl, rfl⟩]
        simp
    · exact ⟨s2, by rw [Bool.and_true, if_neg hb], ok2, hh2, Grown.refl s2 m2,
        fun _ _ _ => rfl, by simpa using hb⟩
  simp only
  rw [hs3]
  obtain ⟨r4, s4, m4, p4, e4, ok4, hh4, g4, at4⟩ :=
    nextTable_spec ok3 hh3 (by omega) (by omega) ((same3 2 _ (by omega)).trans h2) hhuge3
  have adds3 := leafTable_adds (s := s2) (t := directory) (i := a / 2 ^ 21 % 512) (m := m2)
  rw [← show tableAt s2 3 (a / 2 ^ 21) = entryNext (s2.tables directory (a / 2 ^ 21 % 512)) by
    rw [tableAt_three, at2, Option.bind_some],
    (gains1.trans gains2).missing_eq (by omega) (by omega) (by omega), hs3, e4] at adds3
  rw [e4]
  have g14 := (g12.trans g3).trans g4
  rcases r4 with _ | table
  · exact ⟨none, s4, m4, p4, rfl, adds1.trans (adds2.trans ⟨adds3.1, adds3.2⟩), ok4, hh4, g14,
      fun _ _ hr => by simp at hr⟩
  · refine ⟨some (table, a / 2 ^ 12 % 512), s4, m4, p4, rfl,
      adds1.trans (adds2.trans ⟨adds3.1, adds3.2⟩), ok4, hh4, g14, ?_⟩
    intro t i hr
    simp only [Option.some.injEq, Prod.mk.injEq] at hr
    obtain ⟨hat, hgains⟩ := at4 table rfl
    refine ⟨by rw [← hr.1]; exact hat, hr.2.symm, fun j key hj hkey => ?_⟩
    have hall := (gains1.trans gains2) j key hj hkey
    rw [hgains j key hj hkey, same3 j key hj, hall, or_assoc]
    refine or_congr_right ⟨?_, ?_⟩
    · rintro ((⟨rfl, rfl⟩ | ⟨rfl, rfl⟩) | ⟨rfl, rfl⟩)
      all_goals exact ⟨by omega, rfl⟩
    · rintro ⟨hpos, rfl⟩
      obtain rfl | rfl | rfl : j = 1 ∨ j = 2 ∨ j = 3 := by omega
      · exact .inl (.inl ⟨rfl, rfl⟩)
      · exact .inl (.inr ⟨rfl, rfl⟩)
      · exact .inr ⟨rfl, rfl⟩

/-- **`walk_page_entry` without `create`** is the descent and changes nothing. -/
theorem walkPageEntry_read (hpml4 : s.pml4 ≠ 0) {a : ℕ} (ha : CanonicalUserAddress a) :
    walkPageEntry s a false m =
      ((tableAt s 3 (a / 2 ^ 21)).map fun t => (t, a / 2 ^ 12 % 512), s, m) := by
  unfold walkPageEntry
  rw [if_neg (by simp [hpml4, ha]), tableAt_three, tableAt_two, tableAt_one, nextTable_read]
  cases entryNext (s.tables s.pml4 (a / 2 ^ 39 % 512)) with
  | none => rfl
  | some pdpt =>
    simp only [nextTable_read, Option.bind_some]
    cases entryNext (s.tables pdpt (a / 2 ^ 30 % 512)) with
    | none => rfl
    | some directory =>
      simp only [Bool.and_false, Bool.false_eq_true, if_false, Option.bind_some]
      cases entryNext (s.tables directory (a / 2 ^ 21 % 512)) <;> rfl

/-! ### Writing leaves -/

section

variable (h : TablesOk s place word) (hn : n < 512 ^ 3) (ht : tableAt s 3 n = some t)

include h hn ht

/-- Writing a leaf changes no table that is not a leaf table. -/
theorem TablesOk.setLeaf_inner {t' p : ℕ} (hp : place t' = some (l + 1, p)) (i' : ℕ) :
    (s.setEntry t i v).tables t' i' = s.tables t' i' := by
  have hplace : place t = some (0, n) := h.place_tableAt le_rfl hn ht
  rw [setEntry_tables, if_neg]
  rintro ⟨rfl, _⟩
  rw [hplace] at hp
  simp at hp

theorem TablesOk.tableAt_setLeaf (hj : j ≤ 3) : tableAt (s.setEntry t i v) j key = tableAt s j key :=
  h.tableAt_congr rfl (fun t' l p i' hp _ => by rw [h.setLeaf_inner hn ht hp]) hj

/-- **Writing the leaf of page** `n * 512 + i`. -/
theorem TablesOk.setLeaf (hi : i < 512) :
    TablesOk (s.setEntry t i v) place (update word (n * 512 + i) v) := by
  have hplace : place t = some (0, n) := h.place_tableAt le_rfl hn ht
  have hinner : ∀ t' l p i', place t' = some (l + 1, p) →
      (s.setEntry t i v).tables t' i' = s.tables t' i' :=
    fun t' l p i' hp => h.setLeaf_inner hn ht hp i'
  have hmono : ∀ n' t', tableAt s 3 n' = some t' → tableAt (s.setEntry t i v) 3 n' = some t' :=
    fun n' t' hd => (h.tableAt_setLeaf hn ht le_rfl).trans hd
  have htree : Tree 512 entryNext 3 s.pml4 (s.setEntry t i v).tables place :=
    h.tree.congr fun t' l p i' hp _ => by rw [hinner t' l p i' hp]
  refine ⟨htree, ?_, h.known, ?_, ?_⟩
  · intro t' l p i' hp hi'
    rw [hinner t' l p i' hp]
    exact h.inner t' l p i' hp hi'
  · intro n' t' i' hn' hd hi'
    have hd' : tableAt s 3 n' = some t' := (h.tableAt_setLeaf hn ht le_rfl).symm.trans hd
    rw [setEntry_tables]
    by_cases hsame : t' = t ∧ i' = i
    · obtain ⟨rfl, rfl⟩ := hsame
      have hp := h.place_tableAt le_rfl hn' hd'
      rw [hplace, Option.some.injEq, Prod.mk.injEq] at hp
      rw [if_pos ⟨rfl, rfl⟩, ← hp.2, update_self]
    · rw [if_neg hsame, update_of_ne]
      · exact h.leaf n' t' i' hn' hd' hi'
      · intro heq
        obtain ⟨rfl, rfl⟩ : n' = n ∧ i' = i := by omega
        rw [ht, Option.some.injEq] at hd'
        exact hsame ⟨hd'.symm, rfl⟩
  · intro k hk
    by_cases hkn : k = n * 512 + i
    · exact ⟨t, by rw [hkn, show (n * 512 + i) / 512 = n by omega]; exact hmono n t ht⟩
    · rw [update_of_ne hkn] at hk
      obtain ⟨t₁, ht₁⟩ := h.covered k hk
      exact ⟨t₁, hmono _ t₁ ht₁⟩

end

/-! ### The fresh root -/

theorem bootDirectories_testBit (index : ℕ) (hi : i < 12) :
    (bootDirectories index).testBit i = (0x83 : ℕ).testBit i := by
  rw [bootDirectories, testBit_or_of_aligned (by omega) hi]

/-- Where the six root pages sit. -/
def rootPlace (s : VmSpace) (t : ℕ) : Option (ℕ × ℕ) :=
  if t = s.pml4 then some (3, 0)
  else if t = s.bootstrapPdpt then some (2, 0)
  else if s.bootstrapDirectories ≤ t ∧ t < s.bootstrapDirectories + 4 * 4096 ∧
      (t - s.bootstrapDirectories) % 4096 = 0 then
    some (1, (t - s.bootstrapDirectories) / 4096)
  else none

theorem rootPlace_cases {q : ℕ × ℕ} (h : rootPlace s t = some q) :
    (t = s.pml4 ∧ q = (3, 0)) ∨ (t ≠ s.pml4 ∧ t = s.bootstrapPdpt ∧ q = (2, 0)) ∨
    (t ≠ s.pml4 ∧ t ≠ s.bootstrapPdpt ∧
      ∃ k, k < 4 ∧ t = s.bootstrapDirectories + k * 4096 ∧ q = (1, k)) := by
  unfold rootPlace at h
  split at h
  · rename_i h1
    exact .inl ⟨h1, (Option.some.inj h).symm⟩
  · split at h
    · rename_i h1 h2
      exact .inr (.inl ⟨h1, h2, (Option.some.inj h).symm⟩)
    · split at h
      · rename_i h1 h2 h3
        exact .inr (.inr ⟨h1, h2, (t - s.bootstrapDirectories) / 4096, by omega, by omega,
          (Option.some.inj h).symm⟩)
      · simp at h

theorem initializeRoot_pml4 (i : ℕ) : (initializeRoot s).tables s.pml4 i =
    if i = 0 then tableEntry s.bootstrapPdpt else 0 := by
  simp only [initializeRoot, if_true, bootPml4]
  split <;> rfl

theorem initializeRoot_pdpt (hne : s.bootstrapPdpt ≠ s.pml4) (i : ℕ) :
    (initializeRoot s).tables s.bootstrapPdpt i =
      if i < 4 then tableEntry (s.bootstrapDirectories + i * 4096) else 0 := by
  simp only [initializeRoot, if_neg hne, if_true]

theorem initializeRoot_directory {k : ℕ} (h1 : t ≠ s.pml4) (h2 : t ≠ s.bootstrapPdpt)
    (hk : k < 4) (ht : t = s.bootstrapDirectories + k * 4096) (i : ℕ) :
    (initializeRoot s).tables t i = bootDirectories (k * 512 + i) := by
  simp only [initializeRoot, if_neg h1, if_neg h2]
  rw [if_pos ⟨by omega, by omega⟩, show (t - s.bootstrapDirectories) / 4096 = k by omega]

/-- **The fresh root** maps nothing for user code. -/
theorem initializeRoot_ok (halign : s.pml4 % 4096 = 0) (hlt : s.pml4 + 6 * 4096 ≤ 2 ^ 32)
    (hpdpt : s.bootstrapPdpt = s.pml4 + 4096)
    (hdir : s.bootstrapDirectories = s.pml4 + 2 * 4096) :
    TablesOk (initializeRoot s) (rootPlace s) fun _ => 0 := by
  have hne : s.bootstrapPdpt ≠ s.pml4 := by omega
  have hhuge : ∀ n, entryNext (bootDirectories n) = none := by
    intro n
    rw [entryNext, bootDirectories_testBit n (by omega), bootDirectories_testBit n (by omega)]
    rfl
  have hinner : ∀ t l p i, rootPlace s t = some (l + 1, p) → i < 512 →
      InnerEntry l ((initializeRoot s).tables t i) ∧
      ∀ t', entryNext ((initializeRoot s).tables t i) = some t' →
        rootPlace s t' = some (l, p * 512 + i) := by
    intro t l p i hp _
    rcases rootPlace_cases hp with ⟨rfl, hq⟩ | ⟨_, rfl, hq⟩ | ⟨h1, h2, k, hk, ht, hq⟩
    · obtain ⟨rfl, rfl⟩ : l = 2 ∧ p = 0 := by simp only [Prod.mk.injEq] at hq; omega
      rw [initializeRoot_pml4]
      split
      · refine ⟨.inr (.inl ⟨_, by omega, by omega, rfl⟩), fun t' hn => ?_⟩
        rw [entryNext_tableEntry (by omega) (by omega), Option.some.injEq] at hn
        rw [← hn, rootPlace, if_neg hne, if_pos rfl, Option.some.injEq, Prod.mk.injEq]
        omega
      · exact ⟨.inl rfl, fun t' hn => by rw [entryNext_zero] at hn; simp at hn⟩
    · obtain ⟨rfl, rfl⟩ : l = 1 ∧ p = 0 := by simp only [Prod.mk.injEq] at hq; omega
      rw [initializeRoot_pdpt hne]
      split
      · refine ⟨.inr (.inl ⟨_, by omega, by omega, rfl⟩), fun t' hn => ?_⟩
        rw [entryNext_tableEntry (by omega) (by omega), Option.some.injEq] at hn
        rw [← hn, rootPlace, if_neg (by omega), if_neg (by omega), if_pos (by omega),
          Option.some.injEq, Prod.mk.injEq]
        omega
      · exact ⟨.inl rfl, fun t' hn => by rw [entryNext_zero] at hn; simp at hn⟩
    · obtain ⟨rfl, rfl⟩ : l = 0 ∧ p = k := by simp only [Prod.mk.injEq] at hq; omega
      rw [initializeRoot_directory h1 h2 hk ht]
      refine ⟨.inr (.inr ⟨rfl, ?_, ?_, ?_⟩), fun t' hn => by rw [hhuge] at hn; simp at hn⟩ <;>
        rw [bootDirectories_testBit _ (by omega)] <;> rfl
  have hroot : rootPlace s s.pml4 = some (3, 0) := by rw [rootPlace, if_pos rfl]
  have htree : Tree 512 entryNext 3 s.pml4 (initializeRoot s).tables (rootPlace s) :=
    ⟨hroot, fun t l p i t' hp hi hn => (hinner t l p i hp hi).2 t' hn⟩
  refine ⟨htree, fun t l p i hp hi => (hinner t l p i hp hi).1, ?_, ?_, fun k hk => absurd rfl hk⟩
  · intro t q hp
    rcases rootPlace_cases hp with ⟨rfl, _⟩ | ⟨_, rfl, _⟩ | ⟨_, _, k, hk, ht, _⟩
    · exact .inl ⟨0, by omega, by simp [initializeRoot]⟩
    · exact .inl ⟨1, by omega, by simp only [initializeRoot]; omega⟩
    · exact .inl ⟨k + 2, by omega, by simp only [initializeRoot]; omega⟩
  · -- no leaf table is placed yet
    intro n t i hn hd _
    have hp := htree.descend_place (k := 0) (by omega) 3 s.pml4 t (by rw [hroot, div_eq_of_lt hn]) hd
    rcases rootPlace_cases hp with ⟨_, hq⟩ | ⟨_, _, hq⟩ | ⟨_, _, k, _, _, hq⟩ <;> simp at hq

end NovaOS.Vm
