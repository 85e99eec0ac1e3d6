import NovaOS.Vm.Invariant

/-!
# The processor's view of a space

`mmuWalk` is the x86-64 four-level translation, stated on its own and not through
`walk_page_entry`: at every level the entry must be present, a set page-size bit ends the walk in
a large leaf, and the user, write and no-execute bits are combined along the way.

* `mmuWalk_spec` — on tables that represent `word`, the walk of a page ends in its leaf word, or
  in no leaf that user code may use;
* `SpaceOk.mmuTranslate_eq`, `SpaceOk.userLeaf_eq` — for a well-formed space the leaves open to user code are exactly the
  used records, with their frame, their write permission and their execute permission.
-/

namespace NovaOS.Vm

open NovaOS.RadixTree

/-- Where a translation ends. -/
structure MmuLeaf where
  entry : ℕ
  /-- 0 for a 4 KiB leaf, 1 for 2 MiB, 2 for 1 GiB -/
  level : ℕ
  user : Bool
  write : Bool
  noExec : Bool
deriving Repr, DecidableEq

/-- A present entry that ends the walk. -/
def leafOf (entry level : ℕ) : Option MmuLeaf :=
  if entry.testBit 0 then
    some ⟨entry, level, entry.testBit 2, entry.testBit 1, entry.testBit 63⟩
  else none

/-- The translation of `address` from a table `level` levels above the 4 KiB leaves. -/
def mmuWalk (tables : ℕ → ℕ → ℕ) : ℕ → ℕ → ℕ → Option MmuLeaf
  | 0, table, address => leafOf (tables table (address / 4096 % 512)) 0
  | level + 1, table, address =>
    let entry := tables table (address / 4096 / 512 ^ (level + 1) % 512)
    if !entry.testBit 0 then none
    else if entry.testBit 7 && decide (level ≤ 1) then leafOf entry (level + 1)
    else
      (mmuWalk tables level (addressBits entry) address).map fun leaf =>
        { leaf with
          user := entry.testBit 2 && leaf.user
          write := entry.testBit 1 && leaf.write
          noExec := entry.testBit 63 || leaf.noExec }

/-- The translation in a space. -/
def mmuTranslate (s : VmSpace) (address : ℕ) : Option MmuLeaf := mmuWalk s.tables 3 s.pml4 address

/-- The leaf entry user code reaches: present, and open to user code at every level. -/
def userLeaf (s : VmSpace) (address : ℕ) : Option ℕ :=
  (mmuTranslate s address).bind fun leaf => if leaf.user then some leaf.entry else none

variable {ext : ℕ → ℕ} {E : ℕ → Prop} {s : VmSpace} {m : Memory} {a : ℕ}
  {place : ℕ → Option (ℕ × ℕ)} {word : ℕ → ℕ}

/-- One level of the walk through an inner table is one level of the descent. -/
theorem mmuWalk_spec (h : TablesOk s place word) :
    ∀ (l t p : ℕ), place t = some (l, p) →
      (∀ t', descend 512 entryNext s.tables l t (a / 4096 / 512) = some t' →
        mmuWalk s.tables l t a = leafOf (s.tables t' (a / 4096 % 512)) 0) ∧
      (descend 512 entryNext s.tables l t (a / 4096 / 512) = none →
        ∀ leaf, mmuWalk s.tables l t a = some leaf → leaf.user = false) := by
  intro l
  induction l with
  | zero =>
    intro t p _
    refine ⟨fun t' hd => ?_, fun hd => by simp [descend] at hd⟩
    simp only [descend, Option.some.injEq] at hd
    rw [mmuWalk, hd]
  | succ l ih =>
    intro t p hp
    have hdigit : a / 4096 / 512 / 512 ^ l % 512 = a / 4096 / 512 ^ (l + 1) % 512 := by
      rw [Nat.div_div_eq_div_mul (a / 4096), Nat.pow_succ']
    have hi : a / 4096 / 512 ^ (l + 1) % 512 < 512 := Nat.mod_lt _ (by omega)
    have hinner := h.inner t l p _ hp hi
    rw [descend, hdigit, mmuWalk]
    rcases hinner with hz | ⟨c, hc, hclt, he⟩ | ⟨hl, h0, h7, h2⟩
    · -- an empty entry ends both
      simp [hz, entryNext_zero]
    · -- a pointer opens nothing and forbids nothing
      have hnext := h.tree.child t l p _ c hp hi (by rw [he]; exact entryNext_tableEntry hc hclt)
      have h63 : (tableEntry c).testBit 63 = false := by
        rw [tableEntry, testBit_or_high (by omega) (by omega)]
        decide
      have haddr : addressBits (tableEntry c) = c := by
        have := entryNext_tableEntry hc hclt
        rw [entryNext, tableEntry_testBit hc (by omega), tableEntry_testBit hc (by omega)] at this
        simpa using this
      simp only [he, entryNext_tableEntry hc hclt, tableEntry_testBit hc (show 0 < 12 by omega),
        tableEntry_testBit hc (show 7 < 12 by omega), tableEntry_testBit hc (show 2 < 12 by omega),
        tableEntry_testBit hc (show 1 < 12 by omega), h63, haddr]
      simp only [Nat.reduceLT, decide_true, decide_false, Bool.not_true, Bool.false_eq_true, if_false,
        Bool.false_and, Bool.true_and, Bool.false_or, Option.map_id']
      exact ih c _ hnext
    · -- an inherited leaf is closed to user code
      subst hl
      have hnone : entryNext (s.tables t (a / 4096 / 512 ^ (0 + 1) % 512)) = none := by
        rw [entryNext, h7, Bool.not_true, Bool.and_false]
        rfl
      rw [hnone]
      refine ⟨fun t' ht' => by simp at ht', fun _ leaf hleaf => ?_⟩
      simp only [h0, h7, leafOf, Bool.not_true, Bool.false_eq_true, if_false, zero_le,
        decide_true, Bool.and_true, if_true, Option.some.injEq] at hleaf
      rw [← hleaf]
      exact h2

/-! ### The bits of a leaf entry -/

theorem pageFlags_testBit (page : VmPage) {i : ℕ} :
    (pageFlags page).testBit i =
      (decide (i = 0) || decide (i = 2) ||
        (decide (i = 1) && (canWrite page.protection && !page.copyOnWrite)) ||
        (decide (i = 63) && !canExec page.protection)) := by
  have hbit : ∀ (k : ℕ) (c : Bool),
      (if c = true then 2 ^ k else 0 : ℕ).testBit i = (decide (i = k) && c) := by
    intro k c
    cases c
    · simp
    · simp [Nat.testBit_two_pow, eq_comm]
  have hp : (1 : ℕ).testBit i = decide (i = 0) := (hbit 0 true).trans (Bool.and_true _)
  have hu : (4 : ℕ).testBit i = decide (i = 2) := (hbit 2 true).trans (Bool.and_true _)
  have hw := hbit 1 (canWrite page.protection && !page.copyOnWrite)
  have hx := hbit 63 (!canExec page.protection)
  simp only [pageFlags, Nat.testBit_or, pagePresent, pageUser, pageWrite, pageNx]
  rw [hp, hu, hx]
  exact congrArg (fun b => decide (i = 0) || decide (i = 2) || b || _) hw

/-- **What a leaf entry says**, for a frame on an aligned page. -/
theorem leafEntry_bits {page : VmPage} (halign : frameData m page.frame % 4096 = 0)
    (hlt : frameData m page.frame < 2 ^ 32) :
    (leafEntry m page).testBit 0 = true ∧ (leafEntry m page).testBit 2 = true ∧
      addressBits (leafEntry m page) = frameData m page.frame ∧
      (leafEntry m page).testBit 1 = (canWrite page.protection && !page.copyOnWrite) ∧
      (leafEntry m page).testBit 63 = !canExec page.protection := by
  refine ⟨?_, ?_, ?_, ?_, ?_⟩
  · rw [leafEntry, testBit_or_of_aligned halign (by omega), pageFlags_testBit]
    simp
  · rw [leafEntry, testBit_or_of_aligned halign (by omega), pageFlags_testBit]
    simp
  · refine addressBits_or halign (by omega) fun i h1 h2 => ?_
    rw [pageFlags_testBit]
    simp only [show i ≠ 0 by omega, show i ≠ 2 by omega, show i ≠ 1 by omega,
      show i ≠ 63 by omega, decide_false, Bool.false_or, Bool.false_and]
  · rw [leafEntry, testBit_or_of_aligned halign (by omega), pageFlags_testBit]
    simp
  · rw [leafEntry, testBit_or_high (by omega) (by omega), pageFlags_testBit]
    simp

/-! ### The processor sees the records -/

/-- The frame of a record is live, on an aligned page below 4 GiB. -/
theorem SpaceOk.frame_page (h : SpaceOk ext E s m) {page : VmPage} (hp : pageAt s a = some page) :
    frameData m page.frame % 4096 = 0 ∧ frameData m page.frame < 2 ^ 32 := by
  obtain ⟨e, hu, rfl, _⟩ := (pageAt_iff h.records).1 hp
  obtain ⟨r, hr, _⟩ := h.heap.memory.exists_of_pos (f := (s.pages e).frame)
    (Nat.add_pos_left (refsIn_pos hu) _)
  have hb := h.heap.memory.data_bounds hr
  rw [frameData, hr]
  exact ⟨hb.1, hb.2.2⟩

/-- **The translation of a user page** is the leaf of its record, or nothing user code may use. -/
theorem SpaceOk.mmuTranslate_eq (h : SpaceOk ext E s m) (ha : a < 2 ^ 47) :
    (∀ page, pageAt s a = some page →
      mmuTranslate s a = some ⟨leafEntry m page, 0, true,
        canWrite page.protection && !page.copyOnWrite, !canExec page.protection⟩) ∧
    (pageAt s a = none → ∀ leaf, mmuTranslate s a = some leaf → leaf.user = false) := by
  obtain ⟨place, ht⟩ := h.tables
  have hn : a / 4096 / 512 < 512 ^ 3 := by omega
  have hpage : pageAt s (a / 4096 * 4096) = pageAt s a := by
    rw [← pageAt_alignDown s a, alignDown, show a - a % 4096 = a / 4096 * 4096 by omega]
  obtain ⟨hsome, hnone⟩ := mmuWalk_spec (a := a) ht 3 s.pml4 0 ht.tree.root
  have hleaf : ∀ t, tableAt s 3 (a / 4096 / 512) = some t →
      s.tables t (a / 4096 % 512) = (pageAt s a).elim 0 (leafEntry m) := by
    intro t htable
    rw [ht.leaf _ t _ hn htable (by omega), Nat.div_add_mod', wordOf, hpage]
  refine ⟨fun page hp => ?_, fun hp leaf hl => ?_⟩
  · obtain ⟨halign, hlt'⟩ := h.frame_page hp
    obtain ⟨h0, h2, _, h1, h63⟩ := leafEntry_bits halign hlt'
    obtain ⟨t, htable⟩ := ht.covered (a / 4096) (by
      rw [wordOf, hpage, hp]
      exact leafEntry_ne_zero m page)
    have htable' : tableAt s 3 (a / 4096 / 512) = some t := htable
    rw [mmuTranslate, hsome t htable', hleaf t htable', hp]
    simp only [Option.elim_some, leafOf, h0, h2, h1, h63, if_true]
  · cases htable : tableAt s 3 (a / 4096 / 512) with
    | none => exact hnone htable leaf hl
    | some t =>
      rw [mmuTranslate, hsome t htable, hleaf t htable, hp] at hl
      simp [leafOf] at hl

/-- The leaf user code reaches is the one of the record. -/
theorem SpaceOk.userLeaf_eq (h : SpaceOk ext E s m) (ha : a < 2 ^ 47) :
    userLeaf s a = (pageAt s a).map (leafEntry m) := by
  obtain ⟨hsome, hnone⟩ := h.mmuTranslate_eq ha
  rw [userLeaf]
  cases hp : pageAt s a with
  | some page =>
    rw [hsome page hp]
    rfl
  | none =>
    cases hl : mmuTranslate s a with
    | none => rfl
    | some leaf =>
      have := hnone hp leaf hl
      simp [this]

end NovaOS.Vm
