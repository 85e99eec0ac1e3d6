import NovaOS.Vm.Capacity
import NovaOS.Vm.Copies
import NovaOS.Vm.Isolation
import NovaOS.Vm.Protection

/-!
# Page faults and the kernel's own copies

Two routines decide what may be written at a user address: `vm_handle_page_fault`, for a store that the
processor refused, and `vm_copy_to_user`, for a store the kernel makes itself.

* `permits`, `RaisedFor` — what the processor lets user code do, and which error codes it raises;
* `fault_handled_permits` — a handled fault leaves an entry that permits the access;
* `fault_unhandled_untouched` — an unhandled one leaves records, entries and frames alone;
* `vmCopyToUser_one`, `userStore_one` — when each of the two stores a byte, where frames and tables
  are to be had;
* `copy_agrees_with_store_iff` — **they agree but for stack pages that were never touched**.
-/

namespace NovaOS.Vm

open Option

variable {ext : ℕ → ℕ} {E : ℕ → Prop} {s s' : VmSpace} {m m' : Memory} {e a b : ℕ} {p : VmPage}

/-! ### What the processor permits -/

/-- A translation lets user code read, or write. -/
def permits (leaf : Option MmuLeaf) (write : Bool) : Bool := leaf.any fun l => l.user && (!write || l.write)

/-- The processor sets bit 0 of the error code when there was a translation and it refused. -/
def RaisedFor (leaf : Option MmuLeaf) (code : ℕ) : Prop := code.testBit 0 = leaf.isSome

theorem SpaceOk.low_of_page (h : SpaceOk ext E s m) (hp : pageAt s a = some p) : a < 2 ^ 47 := by
  by_contra hhigh
  rw [h.pageAt_high (Nat.le_of_not_lt hhigh)] at hp
  cases hp

/-- A page that may be written in place permits everything. -/
theorem SpaceOk.permits_of_page (h : SpaceOk ext E s m) (hp : pageAt s a = some p)
    (hw : canWrite p.protection = true) (hcow : p.copyOnWrite = false) (write : Bool) :
    permits (mmuTranslate s a) write = true := by
  rw [(h.mmuTranslate_eq (h.low_of_page hp)).1 p hp, permits, any_some, hw, hcow]
  cases write with
  | false => rfl
  | true => rfl

theorem SpaceOk.pageAt_of_translate (h : SpaceOk ext E s m) (hnone : mmuTranslate s a = none) :
    pageAt s a = none := by
  cases hp : pageAt s a with
  | none => rfl
  | some p =>
    rw [(h.mmuTranslate_eq (h.low_of_page hp)).1 p hp] at hnone
    cases hnone

/-- A page that was made private may be written in place. -/
theorem makePrivate_ready (h : SpaceOk ext E s m) (hf : findPage s a = some e)
    (hw : canWrite (s.pages e).protection = true) (he : makePrivate s e m = (true, s', m')) :
    SpaceOk ext E s' m' ∧
      ∃ p, pageAt s' a = some p ∧ canWrite p.protection = true ∧ p.copyOnWrite = false := by
  obtain ⟨hu, hva⟩ := findPage_sound h.records hf
  have hold : pageAt s a = some (s.pages e) := by rw [pageAt, hf]; rfl
  obtain ⟨ok, s₁, m₁, he', hok, -, -, hcases⟩ := makePrivate_spec h hu
  rw [he] at he'
  obtain ⟨rfl, rfl, rfl⟩ : true = ok ∧ s' = s₁ ∧ m' = m₁ := by simpa using he'
  refine ⟨hok, ?_⟩
  obtain ⟨hfail, -, -⟩ | ⟨-, hcow, rfl, -⟩ | ⟨-, -, -, g, -, hat, -⟩ := hcases
  · cases hfail
  · exact ⟨_, hold, hw, hcow⟩
  · exact ⟨privatePage (s.pages e) g, by rw [hat, if_pos hva.symm], hw, rfl⟩

/-! ### Progress and honesty -/

/-- **A handled fault permits the access** that raised it, read or write. -/
theorem fault_handled_permits (h : SpaceOk ext E s m) {code : ℕ}
    (hraised : RaisedFor (mmuTranslate s a) code)
    (hhandled : (vmHandlePageFault s a code m).1 ≠ .unhandled) (write : Bool) :
    permits (mmuTranslate (vmHandlePageFault s a code m).2.1 a) write = true := by
  obtain ⟨hr, -⟩ | ⟨e, hf, hcow, hr, he⟩ | ⟨-, -, hbit, hr, he⟩ := vmHandlePageFault_cases s a code m
  · exact absurd hr hhandled
  · -- copy-on-write
    obtain ⟨hu, -⟩ := findPage_sound h.records hf
    rcases hmk : makePrivate s e m with ⟨_ | _, s', m'⟩
    · rw [hr, hmk] at hhandled
      exact absurd rfl hhandled
    · have hw : canWrite (s.pages e).protection = true := by
        obtain ⟨ok, s₁, m₁, he', -, -, -, hcases⟩ := makePrivate_spec h hu
        rw [hmk] at he'
        obtain ⟨rfl, -⟩ : true = ok ∧ (s', m') = (s₁, m₁) := by simpa using he'
        obtain ⟨hfail, -, -⟩ | ⟨-, hnot, -, -⟩ | ⟨-, -, hw, -⟩ := hcases
        · cases hfail
        · rw [hcow] at hnot
          cases hnot
        · exact hw
      obtain ⟨hok, p, hp, hpw, hpc⟩ := makePrivate_ready h hf hw hmk
      rw [he, hmk]
      exact hok.permits_of_page hp hpw hpc write
  · -- a new stack page
    have hnone : mmuTranslate s a = none := by
      rw [RaisedFor, hbit] at hraised
      exact isNone_iff_eq_none.1 (by rw [← not_isSome, ← hraised]; rfl)
    have hpage := h.pageAt_of_translate hnone
    obtain ⟨ok, s', m', hmap, hok, -⟩ := vmMapPage_spec h (alignDown a) (vmProtRead ||| vmProtWrite)
    cases ok with
    | false =>
      rw [hr, hmap] at hhandled
      exact absurd rfl hhandled
    | true =>
      obtain ⟨⟨p, hp, hprot, hpc, -⟩, -⟩ := vmMapPage_new h (by rw [pageAt_alignDown]; exact hpage) hmap
      rw [pageAt_alignDown] at hp
      rw [he, hmap]
      exact hok.permits_of_page hp (by rw [hprot]; decide) hpc write

/-- Records, the entries user code reaches, and the frames in use are as before. -/
structure Untouched (s : VmSpace) (m : Memory) (s' : VmSpace) (m' : Memory) : Prop where
  records : ∀ b, pageAt s' b = pageAt s b
  entries : ∀ b, b < 2 ^ 47 → userLeaf s' b = userLeaf s b
  frames : ∀ f, 0 < frameReferences m f →
    frameData m' f = frameData m f ∧ m'.bytes (frameData m' f) = m.bytes (frameData m f)

theorem Untouched.refl (s : VmSpace) (m : Memory) : Untouched s m s m :=
  ⟨fun _ => rfl, fun _ _ => rfl, fun _ _ => ⟨rfl, rfl⟩⟩

theorem Untouched.of_quiet (h : SpaceOk ext E s m) (hok : SpaceOk ext E s' m')
    (hpages : ∀ b, pageAt s' b = pageAt s b) (hq : Quiet (fun f => 0 < refsIn s f + ext f) m m') :
    Untouched s m s' m' := by
  refine ⟨hpages, fun b hb => ?_, fun f hf => ?_⟩
  · rw [hok.userLeaf_eq hb, h.userLeaf_eq hb, hpages]
    cases hp : pageAt s b with
    | none => rfl
    | some p =>
      rw [map_some, map_some, leafEntry_congr (hq.data _ (Nat.add_pos_left (h.page_pos hp) _))]
  · rw [h.heap.memory.counts] at hf
    exact ⟨hq.data f hf, by rw [hq.data f hf, hq.bytes f hf]⟩

/-- **An unhandled fault touches nothing**, whatever the error code is. -/
theorem fault_unhandled_untouched (h : SpaceOk ext E s m) {code : ℕ}
    (hunhandled : (vmHandlePageFault s a code m).1 = .unhandled) :
    Untouched s m (vmHandlePageFault s a code m).2.1 (vmHandlePageFault s a code m).2.2 := by
  obtain ⟨-, he⟩ | ⟨e, hf, -, hr, he⟩ | ⟨-, -, -, hr, he⟩ := vmHandlePageFault_cases s a code m
  · rw [he]
    exact Untouched.refl s m
  · obtain ⟨ok, s', m', hmk, hok, -, hq, hcases⟩ := makePrivate_spec h (findPage_sound h.records hf).1
    rw [hr, hmk] at hunhandled
    rw [he, hmk]
    obtain ⟨-, -, rfl⟩ | ⟨rfl, -⟩ | ⟨rfl, -⟩ := hcases
    · exact .of_quiet h hok (fun _ => rfl) hq
    · cases hunhandled
    · cases hunhandled
  · obtain ⟨ok, s', m', hmap, hok, -, hq, hmapped⟩ :=
      vmMapPage_spec h (alignDown a) (vmProtRead ||| vmProtWrite)
    rw [hr, hmap] at hunhandled
    rw [he, hmap]
    cases hmapped with
    | failed pages refs => exact .of_quiet h hok pages hq
    | reprotected => cases hunhandled
    | created => cases hunhandled

/-- **Page faults make progress and are honest** in every space of every run: a handled one leaves an
entry that permits the access, so that it is not raised again, and an unhandled one leaves everything
as it was. -/
theorem fault_progress (choices : ℕ → Option ℕ) (bytes : ℕ → ℕ → UInt8) (ops : List VmOp)
    {i : ℕ} {s : VmSpace} (hs : ((World.initial choices bytes).run ops).spaces i = some s)
    (address code : ℕ) :
    let m := ((World.initial choices bytes).run ops).memory
    let r := vmHandlePageFault s address code m
    (RaisedFor (mmuTranslate s address) code → r.1 ≠ .unhandled →
      permits (mmuTranslate r.2.1 address) (code.testBit 1) = true) ∧
    (r.1 = .unhandled → Untouched s m r.2.1 r.2.2) := by
  have h := ((WorldOk.initial choices bytes).run ops).spaceOk hs
  exact ⟨fun hraised hhandled => fault_handled_permits h hraised hhandled _,
    fault_unhandled_untouched h⟩

/-- A store just below the top of the stack, on a page that is not there. -/
theorem fault_progress_stack : ∃ s,
    ((World.initial stridedChoices fun _ _ => 0).run
      [.create, .mapPage 0 vmUserBase 3]).spaces 0 = some s ∧
    permits (mmuTranslate (vmHandlePageFault s (vmUserStackTop - 8) 6
      ((World.initial stridedChoices fun _ _ => 0).run
        [.create, .mapPage 0 vmUserBase 3]).memory).2.1 (vmUserStackTop - 8)) true = true :=
  ⟨_, rfl, (fault_progress stridedChoices (fun _ _ => 0) [.create, .mapPage 0 vmUserBase 3] (i := 0) rfl
    (vmUserStackTop - 8) 6).1 (by unfold RaisedFor; decide +kernel) (by decide +kernel)⟩

/-! ### A byte stored by the kernel and by user code -/

/-- A page is mapped at `a` and its protection lets user code write. -/
def MappedWritable (s : VmSpace) (a : ℕ) : Prop := ∃ p, pageAt s a = some p ∧ canWrite p.protection = true

/-- The record step needs nothing but the leaf table of the record. -/
theorem rewritePage_succeeds (h : SpaceOk ext E s m) (hu : UsedRecord s e) (page : VmPage) (m' : Memory) :
    (rewritePage s e page (s.pages e).virtualAddress m').1 = true := by
  obtain ⟨place, ht⟩ := h.tables
  obtain ⟨t, hat⟩ := h.leaf_table ht hu
  have hcanon := (h.records.aligned e hu).2
  have hat' : tableAt (s.setPage e page) 3 ((s.pages e).virtualAddress / 2 ^ 21) = some t := hat
  rw [rewritePage, walkPageEntry_read (s := s.setPage e page) h.heap.pml4_pos hcanon, hat']
  rfl

/-- `make_private` of a writable page needs at most a frame. -/
theorem makePrivate_succeeds (h : SpaceOk ext E s m) (hu : UsedRecord s e)
    (hw : canWrite (s.pages e).protection = true) (hframe : (vmFrameCreate m).1.isSome = true) :
    (makePrivate s e m).1 = true := by
  have hprivate : (privateFrame (s.pages e).frame m).1.isSome = true := by
    rw [privateFrame]
    split
    · rcases hcreate : vmFrameCreate m with ⟨_ | g, m₁⟩
      · rw [hcreate] at hframe
        cases hframe
      · rfl
    · rfl
  rw [makePrivate, hw]
  cases hcow : (s.pages e).copyOnWrite with
  | false => rfl
  | true =>
    rcases hmade : privateFrame (s.pages e).frame m with ⟨_ | g, m₁⟩
    · rw [hmade] at hprivate
      cases hprivate
    · exact rewritePage_succeeds h hu _ m₁

/-- **`vm_copy_to_user` of one byte** succeeds exactly on pages that are mapped writable. -/
theorem vmCopyToUser_one (h : SpaceOk ext E s m) (hframe : (vmFrameCreate m).1.isSome = true) (x : UInt8) :
    (vmCopyToUser s a [x] m).1 = true ↔ MappedWritable s a := by
  rw [vmCopyToUser_round s a m (List.cons_ne_nil x []), MappedWritable, pageAt]
  cases hf : findPage s a with
  | none => simp
  | some e =>
    simp only [map_some, Option.some.injEq, exists_eq_left']
    cases hw : canWrite (s.pages e).protection with
    | false => simp
    | true =>
      have hok := makePrivate_succeeds h (findPage_sound h.records hf).1 hw hframe
      rcases hmk : makePrivate s e m with ⟨ok, s', m'⟩
      obtain rfl : ok = true := by rwa [hmk] at hok
      simp only [Bool.not_true, Bool.false_eq_true, if_false, iff_true]
      rw [copyRound, List.drop_of_length_le (by simp; omega), vmCopyToUser_nil]

/-- What the first access to a stack page takes: a frame, and tables where there are none. -/
structure Supplied (s : VmSpace) (a : ℕ) (m : Memory) : Prop where
  frame : (vmFrameCreate m).1.isSome = true
  page : pageAt s a = none → Available s (alignDown a) m

/-- A stack page that was never touched, and that the page index can take. -/
def Untapped (s : VmSpace) (a : ℕ) : Prop :=
  vmUserStackBase ≤ a ∧ a < vmUserStackTop ∧ mmuTranslate s a = none ∧ IndexOpen s

theorem Untapped.not_mapped (h : SpaceOk ext E s m) (hu : Untapped s a) : ¬ MappedWritable s a := by
  rintro ⟨p, hp, -⟩
  rw [h.pageAt_of_translate hu.2.2.1] at hp
  cases hp

/-- A fault of a present page is for copy-on-write alone. -/
theorem vmHandlePageFault_refused (s : VmSpace) (a : ℕ) (m : Memory) :
    vmHandlePageFault s a 7 m = match findPage s a with
      | none => (.unhandled, s, m)
      | some e =>
        if !(s.pages e).copyOnWrite then (.unhandled, s, m)
        else match makePrivate s e m with
          | (true, s, m) => (.cow, s, m)
          | (false, s, m) => (.unhandled, s, m) := rfl

/-- A fault of a page that is not present is for the stack alone. -/
theorem vmHandlePageFault_absent (s : VmSpace) (a : ℕ) (m : Memory) :
    vmHandlePageFault s a 6 m =
      if vmUserStackBase ≤ a ∧ a < vmUserStackTop then
        match vmMapPage s (alignDown a) (vmProtRead ||| vmProtWrite) m with
        | (true, s, m) => (.demand, s, m)
        | (false, s, m) => (.unhandled, s, m)
      else (.unhandled, s, m) := by
  rw [vmHandlePageFault, if_neg (by decide), if_neg (by decide)]
  by_cases hstack : vmUserStackBase ≤ a ∧ a < vmUserStackTop
  · rw [if_pos ⟨rfl, hstack⟩]
    refine Eq.trans ?_ (if_pos hstack).symm
    rcases vmMapPage s (alignDown a) (vmProtRead ||| vmProtWrite) m with ⟨_ | _, s', m'⟩
    · rfl
    · rfl
  · rw [if_neg (fun hc => hstack hc.2), if_neg hstack]

/-- A store to a mapped page is done exactly when its protection lets user code write. -/
theorem userStore_one_mapped (h : SpaceOk ext E s m) (hframe : (vmFrameCreate m).1.isSome = true)
    (hp : pageAt s a = some p) (x : UInt8) (fuel : ℕ) :
    (userStore (fuel + 2) s a [x] m).1 = true ↔ canWrite p.protection = true := by
  have ha := h.low_of_page hp
  have hleaf := (h.mmuTranslate_eq ha).1 p hp
  obtain ⟨e, hf, rfl⟩ : ∃ e, findPage s a = some e ∧ s.pages e = p := map_eq_some_iff.1 hp
  by_cases hready : canWrite (s.pages e).protection = true ∧ (s.pages e).copyOnWrite = false
  · rw [userStore_ready h ha hp hready.1 hready.2]
    exact ⟨fun _ => hready.1, fun _ => rfl⟩
  rw [userStore_fault h ha (fun q hq => by
    rw [hp] at hq
    cases hq
    exact hready), hleaf, writeFaultCode, isSome_some, if_pos rfl, vmHandlePageFault_refused, hf]
  simp only
  cases hw : canWrite (s.pages e).protection with
  | false =>
    -- not writable: `make_private` refuses, if it is called at all
    cases hcow : (s.pages e).copyOnWrite with
    | false => simp
    | true =>
      have hrefused : makePrivate s e m = (false, s, m) := by
        rw [makePrivate, hcow, hw]
        rfl
      rw [hrefused]
      simp
  | true =>
    -- writable, so copy-on-write
    have hcow : (s.pages e).copyOnWrite = true := by
      rw [hw] at hready
      simpa using hready
    have hok := makePrivate_succeeds h (findPage_sound h.records hf).1 hw hframe
    rcases hmk : makePrivate s e m with ⟨ok, s', m'⟩
    obtain rfl : ok = true := by rwa [hmk] at hok
    obtain ⟨h', q, hq, hqw, hqc⟩ := makePrivate_ready h hf hw hmk
    rw [hcow]
    simp only [Bool.not_true, Bool.false_eq_true, if_false, iff_true]
    rw [userStore_ready h' ha hq hqw hqc]

/-- The page of a stack address is a page that may be mapped. -/
theorem canonical_stack_page (hbase : vmUserStackBase ≤ a) (htop : a < vmUserStackTop) :
    CanonicalUserAddress (alignDown a) := by
  simp only [CanonicalUserAddress, vmUserStackBase, vmUserStackTop, vmUserStackSize,
    vmCanonicalLimit] at *
  unfold alignDown
  omega

/-- A store to a page that is not mapped is done exactly on stack pages that were never touched. -/
theorem userStore_one_unmapped (h : SpaceOk ext E s m) (ha : a < 2 ^ 47) (hp : pageAt s a = none)
    (hav : Available s (alignDown a) m) (x : UInt8) (fuel : ℕ) :
    (userStore (fuel + 2) s a [x] m).1 = true ↔ Untapped s a := by
  have hfind : findPage s a = none := by rwa [pageAt, map_eq_none_iff] at hp
  rw [userStore_fault h ha (fun q hq => by rw [hp] at hq; cases hq)]
  cases hleaf : mmuTranslate s a with
  | some leaf =>
    -- a translation of the kernel's own
    rw [writeFaultCode, isSome_some, if_pos rfl, vmHandlePageFault_refused, hfind]
    refine ⟨fun hno => (by cases hno), fun hu => ?_⟩
    have hnone := hu.2.2.1
    rw [hleaf] at hnone
    cases hnone
  | none =>
    rw [writeFaultCode, isSome_none, if_neg Bool.false_ne_true, vmHandlePageFault_absent]
    by_cases hstack : vmUserStackBase ≤ a ∧ a < vmUserStackTop
    swap
    · rw [if_neg hstack]
      exact ⟨fun hno => (by cases hno), fun hu => absurd ⟨hu.1, hu.2.1⟩ hstack⟩
    rw [if_pos hstack]
    have huntapped : Untapped s a ↔ IndexOpen s :=
      ⟨fun hu => hu.2.2.2, fun ho => ⟨hstack.1, hstack.2, hleaf, ho⟩⟩
    have hiff := vmMapPage_available h (alignDown_mod a) (canonical_stack_page hstack.1 hstack.2)
      (by rw [findPage_alignDown, hfind]) hav (vmProtRead ||| vmProtWrite)
    rw [huntapped, ← hiff]
    rcases hmap : vmMapPage s (alignDown a) (vmProtRead ||| vmProtWrite) m with ⟨_ | _, s', m'⟩
    · simp
    · obtain ⟨ok, s₁, m₁, hmap', hok, -⟩ := vmMapPage_spec h (alignDown a) (vmProtRead ||| vmProtWrite)
      rw [hmap] at hmap'
      obtain ⟨-, rfl, rfl⟩ : true = ok ∧ s' = s₁ ∧ m' = m₁ := by simpa using hmap'
      obtain ⟨⟨q, hq, hprot, hqc, -⟩, -⟩ := vmMapPage_new h (by rw [pageAt_alignDown]; exact hp) hmap
      rw [pageAt_alignDown] at hq
      simp only [iff_true]
      rw [userStore_ready hok ha hq (by rw [hprot]; decide) hqc]

/-- **A store of one byte by user code** is done exactly on pages that are mapped writable and on stack
pages that were never touched. -/
theorem userStore_one (h : SpaceOk ext E s m) (hav : Supplied s a m) (x : UInt8) (fuel : ℕ) :
    (userStore (fuel + 2) s a [x] m).1 = true ↔ MappedWritable s a ∨ Untapped s a := by
  cases hp : pageAt s a with
  | some p =>
    have huntapped : ¬ Untapped s a := by
      intro hu
      rw [h.pageAt_of_translate hu.2.2.1] at hp
      cases hp
    rw [or_iff_left huntapped, userStore_one_mapped h hav.frame hp, MappedWritable, hp]
    simp
  | none =>
    have hmapped : ¬ MappedWritable s a := by
      rintro ⟨p, hp', -⟩
      rw [hp] at hp'
      cases hp'
    rw [or_iff_right hmapped]
    by_cases ha : a < 2 ^ 47
    · exact userStore_one_unmapped h ha hp (hav.page hp) x fuel
    · rw [userStore, if_pos (Nat.le_of_not_lt ha)]
      refine ⟨fun hno => (by cases hno), fun hu => absurd hu.2.1 ?_⟩
      simp only [vmUserStackTop]
      omega

/-- **Kernel copies see what user code sees**, in every space of every run, where frames and tables are
to be had: a one-byte copy succeeds exactly when the store would be done, unless the byte is on a stack
page that was never touched. -/
theorem copy_agrees_with_store_iff (choices : ℕ → Option ℕ) (bytes : ℕ → ℕ → UInt8) (ops : List VmOp)
    {i : ℕ} {s : VmSpace} (hs : ((World.initial choices bytes).run ops).spaces i = some s) (address : ℕ)
    (hav : Supplied s address ((World.initial choices bytes).run ops).memory) (x : UInt8) (fuel : ℕ) :
    ((vmCopyToUser s address [x] ((World.initial choices bytes).run ops).memory).1 = true ↔
      (userStore (fuel + 2) s address [x] ((World.initial choices bytes).run ops).memory).1 = true) ↔
    ¬ (vmUserStackBase ≤ address ∧ address < vmUserStackTop ∧ mmuTranslate s address = none ∧
      IndexOpen s) := by
  have h := ((WorldOk.initial choices bytes).run ops).spaceOk hs
  rw [vmCopyToUser_one h hav.frame, userStore_one h hav]
  constructor
  · intro hagree hu
    exact Untapped.not_mapped h hu (hagree.2 (.inr hu))
  · intro hu
    exact ⟨.inl, fun hc => hc.resolve_right hu⟩

/-- The one page of a new space. -/
theorem copy_agrees_with_store_mapped : ∃ s,
    ((World.initial stridedChoices fun _ _ => 0).run
      [.create, .mapPage 0 vmUserBase 3]).spaces 0 = some s ∧
    ((vmCopyToUser s vmUserBase [1] ((World.initial stridedChoices fun _ _ => 0).run
        [.create, .mapPage 0 vmUserBase 3]).memory).1 = true ↔
      (userStore 2 s vmUserBase [1] ((World.initial stridedChoices fun _ _ => 0).run
        [.create, .mapPage 0 vmUserBase 3]).memory).1 = true) := by
  refine ⟨_, rfl, (copy_agrees_with_store_iff stridedChoices (fun _ _ => 0)
    [.create, .mapPage 0 vmUserBase 3] (i := 0) rfl vmUserBase ⟨by decide +kernel, fun hnone => ?_⟩ 1 0).2
    fun hu => absurd hu.1 (by decide)⟩
  exact absurd (isNone_iff_eq_none.2 hnone) (by decide +kernel)

/-- **A store just below the top of the stack is done and the kernel's copy to it fails.** -/
theorem stack_copy_refused : ∃ s,
    ((World.initial stridedChoices fun _ _ => 0).run
      [.create, .mapPage 0 vmUserBase 3]).spaces 0 = some s ∧
    (userStore 2 s (vmUserStackTop - 8) [1] ((World.initial stridedChoices fun _ _ => 0).run
      [.create, .mapPage 0 vmUserBase 3]).memory).1 = true ∧
    (vmCopyToUser s (vmUserStackTop - 8) [1] ((World.initial stridedChoices fun _ _ => 0).run
      [.create, .mapPage 0 vmUserBase 3]).memory).1 = false :=
  ⟨_, rfl, by decide +kernel, by decide +kernel⟩

end NovaOS.Vm
