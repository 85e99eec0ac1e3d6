import NovaOS.Vm.World

/-!
# When a page can be mapped

`vm_map_page` on a page that is there changes its protection; on one that is not, it takes a frame, a
record, the missing tables and a slot of the page index, and fails when one of them is not to be had.

* `Obtainable s a m` — all that a new page takes is to be had;
* `vmMapPage_iff` — **an aligned page is mapped exactly when it is a user page, and is there or
  obtainable**.
-/

namespace NovaOS.Vm

open NovaOS.ProbeTable Nat Option Bool

/-- The pages that are mapped. -/
def mappedPages (s : VmSpace) : ℕ := countBelow vmMaxPages fun e => (s.pages e).used

/-! ### A record -/

section Records

variable {s : VmSpace}

theorem reserveFrom_isSome (fuel offset : ℕ) {k : ℕ} (hlow : offset ≤ k) (hhigh : k < offset + fuel)
    (hfree : (s.pages ((s.freePageHint + k) % vmMaxPages)).used = false) :
    (reserveFrom s fuel offset).isSome = true := by
  induction fuel generalizing offset with
  | zero => omega
  | succ fuel ih =>
    rw [reserveFrom]
    split
    · rename_i hused
      have hne : k ≠ offset := by
        intro heq
        rw [heq, hused] at hfree
        cases hfree
      exact ih (offset + 1) (by omega) (by omega)
    · rfl

/-- **`reserve_page_record`** finds a record when there is one. -/
theorem reservePageRecord_isSome (h : mappedPages s < vmMaxPages) :
    ∃ index, reservePageRecord s =
      (some index, { s with freePageHint := (index + 1) % vmMaxPages }) := by
  obtain ⟨e, he, hfree⟩ := exists_of_countBelow_lt h
  have hsome : (reserveFrom s vmMaxPages 0).isSome = true := by
    refine reserveFrom_isSome (k := (e + vmMaxPages * s.freePageHint - s.freePageHint) % vmMaxPages)
      vmMaxPages 0 (zero_le _) ?_ ?_
    · rw [zero_add]
      exact mod_lt _ (by decide)
    · have hback : (s.freePageHint + (e + vmMaxPages * s.freePageHint - s.freePageHint) % vmMaxPages) %
          vmMaxPages = e := by
        have hle : s.freePageHint ≤ vmMaxPages * s.freePageHint :=
          Nat.le_mul_of_pos_left _ (by decide)
        rw [Nat.add_mod_mod, show s.freePageHint + (e + vmMaxPages * s.freePageHint -
          s.freePageHint) = e + vmMaxPages * s.freePageHint by omega, Nat.add_mul_mod_self_left,
          mod_eq_of_lt he]
      rw [hback]
      exact hfree
  obtain ⟨index, hindex⟩ := isSome_iff_exists.1 hsome
  refine ⟨index, ?_⟩
  rw [reservePageRecord, hindex]

end Records

/-! ### A page -/

/-- The page index can take a page: a slot of it was never used. -/
def IndexOpen (s : VmSpace) : Prop := ∃ j, j < vmPageHashSize ∧ s.pageLookup j = 0

/-- All that a new page takes is to be had: a frame, a record, its tables and a slot of the index. -/
@[mk_iff] structure Obtainable (s : VmSpace) (a : ℕ) (m : Memory) : Prop where
  frame : (vmFrameCreate m).1.isSome = true
  record : mappedPages s < vmMaxPages
  tables : TablesServed (tablesMissing s a) s (vmFrameCreate m).2
  index : IndexOpen s

/-- What a new page has taken: a record, a slot of the index and the tables on its way. -/
structure Takes (a : ℕ) (s s' : VmSpace) : Prop where
  record : mappedPages s' = mappedPages s + 1
  index : ∃ slot v, insertSlot vmPageHashSize s.pageLookup vmPageHashSize (hashSlot a) none =
    some slot ∧ 0 < v ∧ s'.pageLookup = Function.update s.pageLookup slot v
  tables : GainsTables (fun j key => 0 < j ∧ key = tableKey a j) s s'

/-- Slots that were used stay used. -/
def Wears (s s' : VmSpace) : Prop := ∀ j, s.pageLookup j ≠ 0 → s'.pageLookup j ≠ 0

/-- What a new page leaves behind even when it gets no slot: its home slot is a used one, and its last
table is there. -/
structure Marks (a : ℕ) (s s' : VmSpace) : Prop where
  slots : Wears s s'
  home : s'.pageLookup (hashSlot a) ≠ 0
  table : (tableAt s' 3 (a / 2 ^ 21)).isSome = true

/-- Two spaces with the same pages in use, and the same tables and slots. -/
structure SameStock (s s' : VmSpace) : Prop where
  record : mappedPages s' = mappedPages s
  lookup : s'.pageLookup = s.pageLookup
  allocated : s'.allocatedTables = s.allocatedTables
  tables : ∀ j key, j ≤ 3 → tableAt s' j key = tableAt s j key
  pages : ∀ b, (pageAt s' b).isSome = (pageAt s b).isSome

section Pages

variable {s : VmSpace} {m : Memory} {ext : ℕ → ℕ} {E : ℕ → Prop} {a : ℕ}

theorem reservePageRecord_free {index : ℕ} (h : (reservePageRecord s).1 = some index) :
    index < vmMaxPages ∧ (s.pages index).used = false := by
  rw [reservePageRecord] at h
  split at h
  · cases h
  · rename_i found hreserve
    cases h
    exact reserveFrom_spec _ _ _ hreserve

/-- **`install_page` succeeds exactly when record, tables and slot are to be had**, and has then taken
them; the tables it takes also without a slot. -/
theorem installPage_iff (h : SpaceOk ext E s m) (ha : CanonicalUserAddress a)
    (frame protection : ℕ) (copyOnWrite shared : Bool) :
    ∃ ok s' m', installPage s a frame protection copyOnWrite shared m = (ok, s', m') ∧
      (ok = true ↔
        mappedPages s < vmMaxPages ∧ TablesServed (tablesMissing s a) s m ∧ IndexOpen s) ∧
      (mappedPages s < vmMaxPages → TablesServed (tablesMissing s a) s m →
        Took (tablesMissing s a) s m s' m' ∧ Marks a s s') ∧ (ok = true → Takes a s s') := by
  rcases hreserve : reservePageRecord s with ⟨_ | index, s1⟩
  · -- no record
    have hfull : ¬ mappedPages s < vmMaxPages := by
      intro hrecord
      obtain ⟨index, hsome⟩ := reservePageRecord_isSome hrecord
      rw [hreserve] at hsome
      cases hsome
    rw [installPage, hreserve]
    exact ⟨false, _, _, rfl, iff_of_false false_ne_true fun hall => hfull hall.1,
      fun hrecord => absurd hrecord hfull, fun hno => absurd hno false_ne_true⟩
  obtain ⟨hindex, hfree⟩ := reservePageRecord_free (congrArg Prod.fst hreserve)
  have hrecord : mappedPages s < vmMaxPages := countBelow_lt hindex hfree
  obtain ⟨index', hhint⟩ := reservePageRecord_isSome hrecord
  rw [hreserve] at hhint
  cases hhint
  have h1 := h.hint ((index + 1) % vmMaxPages)
  obtain ⟨r, s2, m2, hwalk', h2, hg, hwalk, hat⟩ := h1.grow ha
  have hlookup : s2.pageLookup = s.pageLookup := hg.lookup
  have hpages : s2.pages = s.pages := hg.pages
  unfold installPage
  rw [hreserve]
  simp only
  rw [hwalk']
  cases r with
  | none =>
    have hlacks : ¬TablesServed (tablesMissing s a) s m := fun hall => false_ne_true (hwalk.1.2 hall)
    exact ⟨false, _, _, rfl, iff_of_false false_ne_true fun hall => hlacks hall.2.1,
      fun _ hall => absurd hall hlacks, fun hno => absurd hno false_ne_true⟩
  | some entry =>
    obtain ⟨table, i⟩ := entry
    have hserved : TablesServed (tablesMissing s a) s m := hwalk.1.1 rfl
    have htook : Took (tablesMissing s a) s m s2 m2 := hwalk.2 rfl
    obtain ⟨hleaf, -, hgains⟩ := hat table i rfl
    obtain ⟨place2, ht2⟩ := h2.tables
    have hlt : a < 2 ^ 47 := ha.1
    simp only [insertPageLookup, VmSpace.setPage, Function.update_self, hlookup]
    rw [IndexOpen, ← insertSlot_isSome_iff (hashSlot_lt a)]
    cases hslot : insertSlot vmPageHashSize s.pageLookup vmPageHashSize (hashSlot a) none with
    | none =>
      refine ⟨false, _, _, rfl, iff_of_false false_ne_true fun hall => false_ne_true hall.2.2,
        fun _ _ => ⟨htook, fun _ hj => hj, fun hzero => ?_, isSome_iff_exists.2 ⟨table, hleaf⟩⟩,
        fun hno => absurd hno false_ne_true⟩
      have hopen := (insertSlot_isSome_iff (hashSlot_lt a)).2 ⟨_, hashSlot_lt a, hzero⟩
      rw [hslot] at hopen
      cases hopen
    | some slot =>
      have hwears : ∀ j, s.pageLookup j ≠ 0 ∨ slot = j →
          Function.update s.pageLookup slot ((index : ℤ) + 1) j ≠ 0 := by
        intro j hj
        by_cases heq : j = slot
        · rw [heq, Function.update_self]
          omega
        · rw [Function.update_of_ne heq]
          exact hj.resolve_right fun hsame => heq hsame.symm
      refine ⟨true, _, _, rfl, iff_of_true rfl ⟨hrecord, hserved, rfl⟩,
        fun _ _ => ⟨htook, fun j hj => hwears j (.inl hj),
          hwears _ (insertSlot_home (hashSlot_lt a) hslot), isSome_iff_exists.2
            ⟨table, (ht2.tableAt_setLeaf (by omega) hleaf le_rfl).trans hleaf⟩⟩, fun _ => ⟨?_, ?_, ?_⟩⟩
      · refine countBelow_add hindex hfree ?_ fun e he => ?_
        · show (Function.update s2.pages index _ index).used = true
          rw [Function.update_self]
        · show (Function.update s2.pages index _ e).used = _
          rw [Function.update_of_ne he, hpages]
      · exact ⟨slot, (index : ℤ) + 1, hslot, by omega, rfl⟩
      · intro j key hj hkey
        have hleaves : tableAt (s2.setEntry table i (leafEntry m2 ⟨a, frame, protection, copyOnWrite,
            shared, true⟩)) j key = tableAt s2 j key := ht2.tableAt_setLeaf (by omega) hleaf hj
        refine Iff.trans ?_ (hgains j key hj hkey)
        rw [← hleaves]
        exact Iff.rfl

/-- **A page that is there** is given the protection, and nothing is taken. -/
theorem vmMapPage_there (h : SpaceOk ext E s m) (halign : a % 4096 = 0) (ha : CanonicalUserAddress a)
    (hpage : (pageAt s a).isSome = true) (protection : ℕ) :
    ∃ s', vmMapPage s a protection m = (true, s', m) ∧ SameStock s s' := by
  have hlt : a < 2 ^ 47 := ha.1
  have hfind : (findPage s a).isSome = true := by
    rw [pageAt, isSome_map] at hpage
    exact hpage
  obtain ⟨s', hloop, -, -, hat⟩ := rewriteLoop_spec (retouch_protectPage m protection) [a] s h (by
    intro b hb
    rw [List.mem_singleton.1 hb]
    exact ⟨halign, hfind⟩)
  obtain ⟨index, hf⟩ := isSome_iff_exists.1 hfind
  have hcall : vmMapPage s a protection m = (true, s', m) := by
    rw [vmMapPage, if_neg (by simp [h.heap.pml4_pos, halign, ha]), hf]
    simp only
    rw [vmProtect, rewriteRange, if_neg (by omega), pageRange_one halign hlt,
      if_neg (by simp [hf]), hloop]
  -- the record and the leaf entry of the page are all that is written
  obtain ⟨hu, hva⟩ := findPage_sound h.records hf
  rw [alignDown_eq halign] at hva
  obtain ⟨place, ht⟩ := h.tables
  obtain ⟨t, hleaf⟩ := h.leaf_table ht hu
  rw [hva] at hleaf
  rw [rewriteLoop, hf] at hloop
  simp only at hloop
  rw [rewritePage, walkPageEntry_read (s := s.setPage index _) h.heap.pml4_pos ha] at hloop
  rw [show tableAt (s.setPage index _) 3 (a / 2 ^ 21) = some t from hleaf] at hloop
  simp only [map_some, rewriteLoop, Prod.mk.injEq] at hloop
  replace hloop := hloop.2
  refine ⟨s', hcall, ?_, ?_, ?_, ?_, ?_⟩
  · rw [← hloop]
    refine countBelow_congr fun e _ => ?_
    show (Function.update s.pages index _ e).used = _
    by_cases he : e = index
    · rw [he, Function.update_self]
      rfl
    · rw [Function.update_of_ne he]
  · rw [← hloop]
    rfl
  · rw [← hloop]
    rfl
  · intro j key hj
    rw [← hloop]
    exact ht.tableAt_setLeaf (by omega) hleaf hj
  · intro b
    rw [hat b]
    split
    · exact isSome_map
    · rfl

/-- **A page that is not there** is mapped exactly when it is obtainable, and has then taken what it
needs. -/
theorem vmMapPage_fresh (h : SpaceOk ext E s m) (halign : a % 4096 = 0) (ha : CanonicalUserAddress a)
    (hnone : pageAt s a = none) (protection : ℕ) :
    ∃ ok s' m', vmMapPage s a protection m = (ok, s', m') ∧ (ok = true ↔ Obtainable s a m) ∧
      (ok = true → Took (tablesMissing s a) s (vmFrameCreate m).2 s' m' ∧ Takes a s s') := by
  have hf : findPage s a = none := by
    rwa [pageAt, map_eq_none_iff] at hnone
  rw [vmMapPage, if_neg (by simp [h.heap.pml4_pos, halign, ha]), hf]
  rcases h.create with ⟨m', he, -⟩ | ⟨f, m', he, -, -, -, hok⟩
  · rw [he]
    refine ⟨false, _, _, rfl, iff_of_false false_ne_true fun hobtain => ?_,
      fun hno => absurd hno false_ne_true⟩
    have hframe := hobtain.frame
    rw [he] at hframe
    cases hframe
  obtain ⟨ok, s2, m2, hi, hiff, htook, htakes⟩ := installPage_iff hok ha f protection false false
  have hneeds : ok = true ↔ Obtainable s a m := by
    rw [hiff]
    constructor
    · rintro ⟨hrecord, htables, hindex⟩
      exact ⟨by rw [he]; rfl, hrecord, by rw [he]; exact htables, hindex⟩
    · rintro ⟨-, hrecord, htables, hindex⟩
      rw [he] at htables
      exact ⟨hrecord, htables, hindex⟩
  rw [he]
  simp only
  rw [hi]
  cases ok with
  | false => exact ⟨false, _, _, rfl, hneeds, fun hno => absurd hno false_ne_true⟩
  | true =>
    obtain ⟨hrecord, htables, -⟩ := hiff.1 rfl
    exact ⟨true, s2, m2, rfl, hneeds, fun _ => ⟨(htook hrecord htables).1, htakes rfl⟩⟩

/-- **An aligned page is mapped exactly when it is a user page, and is there already or obtainable.** -/
theorem vmMapPage_iff (h : SpaceOk ext E s m) (halign : a % 4096 = 0) (protection : ℕ) :
    (vmMapPage s a protection m).1 = true ↔
      CanonicalUserAddress a ∧ ((pageAt s a).isSome = true ∨ Obtainable s a m) := by
  by_cases ha : CanonicalUserAddress a
  swap
  · rw [vmMapPage, if_pos (.inr (.inr ha))]
    exact iff_of_false false_ne_true fun hall => ha hall.1
  cases hpage : pageAt s a with
  | some page =>
    obtain ⟨s', hcall, -⟩ := vmMapPage_there h halign ha (by rw [hpage]; rfl) protection
    rw [hcall]
    exact iff_of_true rfl ⟨ha, .inl rfl⟩
  | none =>
    obtain ⟨ok, s', m', hcall, hiff, -⟩ := vmMapPage_fresh h halign ha hpage protection
    rw [hcall, hiff]
    exact ⟨fun hobtain => ⟨ha, .inr hobtain⟩, fun hall => hall.2.resolve_left false_ne_true⟩

end Pages

end NovaOS.Vm
