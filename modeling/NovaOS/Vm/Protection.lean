import NovaOS.Vm.World

/-!
# Changing protections

`vm_protect` is given any 64-bit address and size.  What it should do is said without a word size:
`RangePage` are the pages from `align_down(address)` to `align_up(address + size)`, and
`ProtectsExactly` says that all of them get the protection, or nothing changes at all.

* `vmProtect_unwrapped`, `vmProtect_overflow`, `vmProtect_wrapped` — the three places the sum
  `address + size` can lie in: far enough below the end of the word, behind it, or so close to it that
  rounding up gives zero and the loops see an empty range;
* `protects_exactly_iff` — **in every space of every run the call is exact, but for the last kind**.
-/

namespace NovaOS.Vm

variable {ext : ℕ → ℕ} {E : ℕ → Prop} {s : VmSpace} {m : Memory} {address size : ℕ}

/-- A page of the range from `align_down(address)` to `align_up(address + size)`, as numbers. -/
def RangePage (address size page : ℕ) : Prop :=
  page % 4096 = 0 ∧ alignDown address ≤ page ∧ page < (address + size + 4095) / 4096 * 4096

/-- `vm_protect` is all or nothing. -/
structure ProtectsExactly (s : VmSpace) (address size protection : ℕ) (m : Memory) : Prop where
  success : (vmProtect s address size protection m).1 = true ↔
    ∀ page, RangePage address size page → (pageAt s page).isSome = true
  pages : (vmProtect s address size protection m).1 = true →
    ∀ page, RangePage address size page →
      (pageAt (vmProtect s address size protection m).2 page).map VmPage.protection = some protection
  others : (vmProtect s address size protection m).1 = true →
    ∀ b, ¬ RangePage address size (alignDown b) →
      pageAt (vmProtect s address size protection m).2 b = pageAt s b ∧
        (b < 2 ^ 47 → userLeaf (vmProtect s address size protection m).2 b = userLeaf s b)
  failure : (vmProtect s address size protection m).1 = false →
    (vmProtect s address size protection m).2 = s

/-- The word arithmetic of the range comes to zero. -/
def RangeWraps (address size : ℕ) : Prop := 2 ^ 64 - 4096 < address + size ∧ address + size < 2 ^ 64

instance (address size : ℕ) : Decidable (RangeWraps address size) :=
  inferInstanceAs (Decidable (_ ∧ _))

/-- No page is mapped as high as the last page of the word. -/
theorem SpaceOk.pageAt_high (h : SpaceOk ext E s m) {b : ℕ} (hb : 2 ^ 47 ≤ b) : pageAt s b = none := by
  cases hp : pageAt s b with
  | none => rfl
  | some p =>
    obtain ⟨e, hu, rfl, hva⟩ := (pageAt_iff h.records).1 hp
    have hcanon : (s.pages e).virtualAddress < 2 ^ 47 := (h.records.aligned e hu).2.1
    have := lt_alignDown_add b
    have := alignDown_mod b
    omega

/-- A range that ends where only the last page of the word can be is not mapped as a whole. -/
theorem SpaceOk.range_not_mapped (h : SpaceOk ext E s m) (hsize : 0 < size)
    (hend : 2 ^ 64 - 4096 < address + size) :
    ¬ ∀ page, RangePage address size page → (pageAt s page).isSome = true := by
  intro hall
  have hlast : RangePage address size (alignDown (address + size - 1)) := by
    refine ⟨alignDown_mod _, ?_, ?_⟩
    · unfold alignDown
      omega
    · unfold alignDown
      omega
  have hsome := hall _ hlast
  rw [h.pageAt_high (by unfold alignDown; omega)] at hsome
  cases hsome

/-- Where nothing wraps the loops walk the pages of the range. -/
theorem mem_pageRange_rangePage (hend : address + size ≤ 2 ^ 64 - 4096) (page : ℕ) :
    page ∈ pageRange (alignDown address) (alignUp ((address + size) % 2 ^ 64)) ↔
      RangePage address size page := by
  have hup : alignUp ((address + size) % 2 ^ 64) = (address + size + 4095) / 4096 * 4096 := by
    unfold alignUp alignDown
    omega
  rw [mem_pageRange_iff (alignDown_mod address), hup]
  rfl

/-- A call that refuses is exact where the range is not mapped as a whole. -/
theorem ProtectsExactly.refused {protection : ℕ}
    (hcall : vmProtect s address size protection m = (false, s))
    (hmissing : ¬ ∀ page, RangePage address size page → (pageAt s page).isSome = true) :
    ProtectsExactly s address size protection m := by
  refine ⟨?_, ?_, ?_, ?_⟩
  · rw [hcall]
    exact ⟨nofun, fun hall => absurd hall hmissing⟩
  · rw [hcall]
    exact nofun
  · rw [hcall]
    exact nofun
  · rw [hcall]
    exact fun _ => rfl

section Kinds

variable (h : SpaceOk ext E s m) (protection : ℕ)

include h

theorem vmProtect_unwrapped (hsize : 0 < size) (hend : address + size ≤ 2 ^ 64 - 4096) :
    ProtectsExactly s address size protection m := by
  have hmem := mem_pageRange_rangePage hend
  obtain hfail | ⟨s', hdone, hok, -, -, -, hmapped, hat⟩ :=
    rewriteRange_spec (retouch_protectPage m protection) h address size
  · -- one of the pages is not mapped
    have hcall : vmProtect s address size protection m = (false, s) := hfail
    have hmissing : ¬ ∀ page, RangePage address size page → (pageAt s page).isSome = true := by
      intro hall
      rw [rewriteRange, if_neg (by omega)] at hfail
      have hnone : ¬ ((pageRange (alignDown address) (alignUp ((address + size) % 2 ^ 64))).any
          fun page => (findPage s page).isNone) = true := by
        intro hany
        obtain ⟨page, hpage, hunmapped⟩ := List.any_eq_true.1 hany
        have hsome := hall page ((hmem page).1 hpage)
        rw [pageAt, Option.isSome_map] at hsome
        rw [Option.isNone_iff_eq_none] at hunmapped
        rw [hunmapped] at hsome
        cases hsome
      rw [if_neg hnone] at hfail
      obtain ⟨s', hloop, -⟩ := rewriteLoop_spec (retouch_protectPage m protection) _ s h
        fun page hpage => ⟨(mem_pageRange hpage (alignDown_mod _)).1, by
          have hsome := hall page ((hmem page).1 hpage)
          rwa [pageAt, Option.isSome_map] at hsome⟩
      rw [hloop] at hfail
      cases hfail
    exact .refused hcall hmissing
  · have hcall : vmProtect s address size protection m = (true, s') := hdone
    have hall : ∀ page, RangePage address size page → (pageAt s page).isSome = true :=
      fun page hpage => hmapped page ((hmem page).2 hpage)
    refine ⟨?_, ?_, ?_, ?_⟩
    · rw [hcall]
      exact ⟨fun _ => hall, fun _ => rfl⟩
    · rw [hcall]
      intro _ page hpage
      obtain ⟨p, hp⟩ := Option.isSome_iff_exists.1 (hall page hpage)
      rw [hat, if_pos ((hmem _).2 (by rwa [alignDown_eq hpage.1])), hp]
      rfl
    · rw [hcall]
      intro _ b hb
      have hsame : pageAt s' b = pageAt s b := by rw [hat, if_neg (fun hin => hb ((hmem _).1 hin))]
      refine ⟨hsame, fun hlow => ?_⟩
      rw [hok.userLeaf_eq hlow, h.userLeaf_eq hlow, hsame]
    · rw [hcall]
      exact fun hno => by cases hno

/-- The sum leaves the word: the call refuses, and the range is not mapped. -/
theorem vmProtect_overflow (hsize : 0 < size) (haddress : address < 2 ^ 64) (hword : size < 2 ^ 64)
    (hend : 2 ^ 64 ≤ address + size) : ProtectsExactly s address size protection m := by
  have hcall : vmProtect s address size protection m = (false, s) := by
    rw [vmProtect, rewriteRange, if_pos (.inr (by omega))]
  exact .refused hcall (h.range_not_mapped hsize (by omega))

/-- Rounding up wraps: the call succeeds on an empty range, although the range is not mapped. -/
theorem vmProtect_wrapped (hsize : 0 < size) (hwraps : RangeWraps address size) :
    vmProtect s address size protection m = (true, s) ∧
      ¬ ∀ page, RangePage address size page → (pageAt s page).isSome = true := by
  obtain ⟨hlow, hhigh⟩ := hwraps
  refine ⟨?_, h.range_not_mapped hsize hlow⟩
  have hup : alignUp ((address + size) % 2 ^ 64) = 0 := by
    unfold alignUp alignDown
    omega
  have hempty : pageRange (alignDown address) 0 = [] := by
    rw [pageRange, Nat.zero_sub]
    rfl
  rw [vmProtect, rewriteRange, if_neg (by omega), hup, hempty]
  rfl

end Kinds

/-- **`vm_protect` is all or nothing** in every space of every run, unless the end of the range lies in
the last page of the word. -/
theorem protects_exactly_iff (choices : ℕ → Option ℕ) (bytes : ℕ → ℕ → UInt8) (ops : List VmOp)
    {i : ℕ} {s : VmSpace} (hs : ((World.initial choices bytes).run ops).spaces i = some s)
    {address size : ℕ} (haddress : address < 2 ^ 64) (hsize : 0 < size) (hword : size < 2 ^ 64)
    (protection : ℕ) :
    ProtectsExactly s address size protection ((World.initial choices bytes).run ops).memory ↔
      ¬ RangeWraps address size := by
  have h := ((WorldOk.initial choices bytes).run ops).spaceOk hs
  constructor
  · intro hexact hwraps
    obtain ⟨hcall, hmissing⟩ := vmProtect_wrapped h protection hsize hwraps
    refine hmissing (hexact.success.1 ?_)
    rw [hcall]
  · intro hwraps
    rw [RangeWraps] at hwraps
    rcases lt_or_ge (address + size) (2 ^ 64) with hlow | hhigh
    · exact vmProtect_unwrapped h protection hsize (by omega)
    · exact vmProtect_overflow h protection hsize haddress hword hhigh

/-- The one page of a new space. -/
theorem protects_exactly_iff_mapped : ∃ s,
    ((World.initial stridedChoices fun _ _ => 0).run
      [.create, .mapPage 0 vmUserBase 3]).spaces 0 = some s ∧
    ProtectsExactly s vmUserBase 1 1 ((World.initial stridedChoices fun _ _ => 0).run
      [.create, .mapPage 0 vmUserBase 3]).memory :=
  ⟨_, rfl, (protects_exactly_iff stridedChoices (fun _ _ => 0) [.create, .mapPage 0 vmUserBase 3]
    (i := 0) rfl (by decide) (by decide) (by decide) 1).2 (by decide)⟩

/-- **The last page of the word is protected although it is not mapped.** -/
theorem protect_last_page : ∃ s,
    ((World.initial stridedChoices fun _ _ => 0).run
      [.create, .mapPage 0 vmUserBase 3]).spaces 0 = some s ∧
    (vmProtect s (2 ^ 64 - 4096) 1 1 ((World.initial stridedChoices fun _ _ => 0).run
      [.create, .mapPage 0 vmUserBase 3]).memory).1 = true ∧
    RangePage (2 ^ 64 - 4096) 1 (2 ^ 64 - 4096) ∧ pageAt s (2 ^ 64 - 4096) = none := by
  have h := ((WorldOk.initial stridedChoices fun _ _ => 0).run
    [.create, .mapPage 0 vmUserBase 3]).spaceOk (i := 0) rfl
  refine ⟨_, rfl, ?_, ⟨by decide, by decide, by decide⟩, h.pageAt_high (by decide)⟩
  rw [(vmProtect_wrapped h 1 (by decide) (by decide)).1]

end NovaOS.Vm
