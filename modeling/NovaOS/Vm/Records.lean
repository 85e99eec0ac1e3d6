import NovaOS.Vm.Space

/-!
# The page records of a space represent a partial map from page addresses

`RecordsOk s` says that the hash index of `s` finds exactly the used records, that no two of them
have the same address, and that every address is an aligned user address.  Under it the records
are the partial map `pageAt s`, and

* `findPage_iff` — `find_page` returns the used record of the page, if there is one;
* `RecordsOk.setPage` — changing a used record in place;
* `RecordsOk.insert`, `RecordsOk.remove` — a new record, and clearing one;
* `refsIn s f` — the number of used records that point at frame `f`, with what each change does
  to it.
-/

namespace NovaOS.Vm

open NovaOS.ProbeTable Function

/-- Record `e` is in use. -/
def UsedRecord (s : VmSpace) (e : ℕ) : Prop := e < vmMaxPages ∧ (s.pages e).used = true

instance (s : VmSpace) (e : ℕ) : Decidable (UsedRecord s e) := inferInstanceAs (Decidable (_ ∧ _))

/-- Where the index looks for record `e`. -/
def homeOf (s : VmSpace) (e : ℕ) : Option ℕ :=
  if UsedRecord s e then some (hashSlot (s.pages e).virtualAddress) else none

structure RecordsOk (s : VmSpace) : Prop where
  index : Indexed vmPageHashSize (homeOf s) s.pageLookup
  distinct : ∀ e e', UsedRecord s e → UsedRecord s e' →
    (s.pages e).virtualAddress = (s.pages e').virtualAddress → e = e'
  aligned : ∀ e, UsedRecord s e →
    (s.pages e).virtualAddress % 4096 = 0 ∧ CanonicalUserAddress (s.pages e).virtualAddress

/-- The record of the page of `a`. -/
def pageAt (s : VmSpace) (a : ℕ) : Option VmPage := (findPage s a).map s.pages

/-- The protection of the page of an address, if it is mapped. -/
def protectionAt (s : VmSpace) (a : ℕ) : Option ℕ := (pageAt s a).map VmPage.protection

variable {s : VmSpace} {e a : ℕ} {page : VmPage}

theorem hashSlot_lt (a : ℕ) : hashSlot a < vmPageHashSize := Nat.mod_lt _ (by decide)

theorem homeOf_some (h : UsedRecord s e) :
    homeOf s e = some (hashSlot (s.pages e).virtualAddress) := if_pos h

theorem homeOf_isSome : (homeOf s e).isSome ↔ UsedRecord s e := by
  unfold homeOf
  split <;> simp_all

/-! ### Looking up -/

theorem findPage_sound (h : RecordsOk s) (hf : findPage s a = some e) :
    UsedRecord s e ∧ (s.pages e).virtualAddress = alignDown a := by
  obtain ⟨hhit, j, hj, hs⟩ := probe_sound (by decide) _ _ (hashSlot_lt _) hf
  simp only [Bool.and_eq_true, beq_iff_eq] at hhit
  exact ⟨homeOf_isSome.1 (h.index.owned j e hj hs), hhit.2⟩

/-- **`find_page`** returns the used record of the page. -/
theorem findPage_iff (h : RecordsOk s) :
    findPage s a = some e ↔ UsedRecord s e ∧ (s.pages e).virtualAddress = alignDown a := by
  refine ⟨findPage_sound h, fun ⟨hu, hva⟩ => ?_⟩
  have hhome : homeOf s e = some (hashSlot (alignDown a)) := by rw [homeOf_some hu, hva]
  refine probe_eq_some h.index hhome ?_ fun e' he' hit => ?_
  · simp [hu.2, hva]
  · simp only [Bool.and_eq_true, beq_iff_eq] at hit
    exact h.distinct e' e (homeOf_isSome.1 he') hu (hit.2.trans hva.symm)

theorem findPage_none_iff (h : RecordsOk s) :
    findPage s a = none ↔ ∀ e, UsedRecord s e → (s.pages e).virtualAddress ≠ alignDown a := by
  refine ⟨fun hf e hu hva => ?_, fun hnone => ?_⟩
  · rw [(findPage_iff h).2 ⟨hu, hva⟩] at hf
    simp at hf
  · cases hf : findPage s a with
    | none => rfl
    | some e => exact absurd (findPage_sound h hf).2 (hnone e (findPage_sound h hf).1)

theorem findPage_alignDown (s : VmSpace) (a : ℕ) : findPage s (alignDown a) = findPage s a := by
  unfold findPage
  rw [alignDown_alignDown]

theorem pageAt_alignDown (s : VmSpace) (a : ℕ) : pageAt s (alignDown a) = pageAt s a := by
  unfold pageAt
  rw [findPage_alignDown]

theorem pageAt_samePage (hb : alignDown b = alignDown a) : pageAt s b = pageAt s a := by
  rw [← pageAt_alignDown, hb, pageAt_alignDown]

theorem pageAt_iff (h : RecordsOk s) :
    pageAt s a = some page ↔
      ∃ e, UsedRecord s e ∧ s.pages e = page ∧ page.virtualAddress = alignDown a := by
  unfold pageAt
  rw [Option.map_eq_some_iff]
  constructor
  · rintro ⟨e, he, rfl⟩
    obtain ⟨hu, hva⟩ := findPage_sound h he
    exact ⟨e, hu, rfl, hva⟩
  · rintro ⟨e, hu, rfl, hva⟩
    exact ⟨e, (findPage_iff h).2 ⟨hu, hva⟩, rfl⟩

theorem pageAt_used (h : RecordsOk s) (hu : UsedRecord s e) :
    pageAt s (s.pages e).virtualAddress = some (s.pages e) :=
  (pageAt_iff h).2 ⟨e, hu, rfl, (alignDown_eq (h.aligned e hu).1).symm⟩

/-! ### Changing records -/

@[simp] theorem setPage_pages (s : VmSpace) (index : ℕ) (page : VmPage) :
    (s.setPage index page).pages = update s.pages index page := rfl

theorem homeOf_setPage (hi : e < vmMaxPages) (page : VmPage) :
    homeOf (s.setPage e page) = update (homeOf s) e
      (if page.used = true then some (hashSlot page.virtualAddress) else none) := by
  funext e'
  by_cases he : e' = e
  · subst he
    simp [homeOf, UsedRecord, hi]
  · have hpage : (s.setPage e page).pages e' = s.pages e' := update_of_ne he ..
    have hiff : UsedRecord (s.setPage e page) e' ↔ UsedRecord s e' := by
      rw [UsedRecord, hpage, UsedRecord]
    rw [update_of_ne he]
    simp only [homeOf, hiff, hpage]

theorem usedRecord_setPage {e' : ℕ} (hu : UsedRecord (s.setPage e page) e') :
    (e' = e ∧ page.used = true) ∨ (e' ≠ e ∧ UsedRecord s e') := by
  by_cases he : e' = e
  · subst he
    exact .inl ⟨rfl, by simpa [UsedRecord] using hu.2⟩
  · exact .inr ⟨he, hu.1, by simpa [UsedRecord, he] using hu.2⟩

/-- Two records that agree outside `e` and whose new address is nobody else's. -/
theorem RecordsOk.of_setPage (h : RecordsOk s) (page : VmPage) (lookup : ℕ → ℤ) (hint : ℕ)
    (hix : Indexed vmPageHashSize (homeOf (s.setPage e page)) lookup)
    (hpage : page.used = true →
      page.virtualAddress % 4096 = 0 ∧ CanonicalUserAddress page.virtualAddress ∧
      ∀ e', e' ≠ e → UsedRecord s e' → (s.pages e').virtualAddress ≠ page.virtualAddress) :
    RecordsOk { s.setPage e page with pageLookup := lookup, freePageHint := hint } := by
  refine ⟨hix, ?_, ?_⟩
  · intro e₁ e₂ h₁ h₂ heq
    simp only [setPage_pages] at heq
    rcases usedRecord_setPage h₁ with ⟨rfl, hp⟩ | ⟨hn₁, hu₁⟩ <;>
      rcases usedRecord_setPage h₂ with ⟨rfl, hp'⟩ | ⟨hn₂, hu₂⟩
    · rfl
    · rw [update_self, update_of_ne hn₂] at heq
      exact absurd heq.symm ((hpage hp).2.2 e₂ hn₂ hu₂)
    · rw [update_self, update_of_ne hn₁] at heq
      exact absurd heq ((hpage hp').2.2 e₁ hn₁ hu₁)
    · rw [update_of_ne hn₁, update_of_ne hn₂] at heq
      exact h.distinct e₁ e₂ hu₁ hu₂ heq
  · intro e₁ h₁
    simp only [setPage_pages]
    rcases usedRecord_setPage h₁ with ⟨rfl, hp⟩ | ⟨hn₁, hu₁⟩
    · rw [update_self]
      exact ⟨(hpage hp).1, (hpage hp).2.1⟩
    · rw [update_of_ne hn₁]
      exact h.aligned e₁ hu₁

theorem RecordsOk.setPage (h : RecordsOk s) (hu : UsedRecord s e) (hused : page.used = true)
    (hva : page.virtualAddress = (s.pages e).virtualAddress) : RecordsOk (s.setPage e page) := by
  have hhome : homeOf (s.setPage e page) = homeOf s := by
    rw [homeOf_setPage hu.1, if_pos hused, hva, ← homeOf_some hu, update_eq_self]
  refine h.of_setPage page s.pageLookup s.freePageHint (hhome ▸ h.index) fun _ => ?_
  rw [hva]
  exact ⟨(h.aligned e hu).1, (h.aligned e hu).2, fun e' hne hu' heq => hne (h.distinct e' e hu' hu heq)⟩

theorem RecordsOk.insert (h : RecordsOk s) (hi : e < vmMaxPages) (hfree : ¬ UsedRecord s e)
    (hused : page.used = true) (halign : page.virtualAddress % 4096 = 0)
    (hcanon : CanonicalUserAddress page.virtualAddress)
    (hnew : findPage s page.virtualAddress = none) {slot : ℕ}
    (hslot : insertSlot vmPageHashSize s.pageLookup vmPageHashSize
      (hashSlot page.virtualAddress) none = some slot) (hint : ℕ) :
    RecordsOk { s.setPage e page with
      pageLookup := update s.pageLookup slot ((e : ℤ) + 1), freePageHint := hint } := by
  have hnone : homeOf s e = none := if_neg hfree
  have hix := h.index.insert (hashSlot_lt page.virtualAddress) hnone hslot
  refine h.of_setPage page _ hint (by rw [homeOf_setPage hi, if_pos hused]; exact hix) fun _ => ?_
  refine ⟨halign, hcanon, fun e' _ hu' => ?_⟩
  have := (findPage_none_iff h).1 hnew e' hu'
  rwa [alignDown_eq halign] at this

/-- **`remove_page_lookup`** then clearing the record. -/
theorem RecordsOk.remove (h : RecordsOk s) (hu : UsedRecord s e) :
    RecordsOk ((removePageLookup s e).setPage e VmPage.zero) := by
  obtain ⟨slot, hslot, hlt, hs⟩ := findSlot_of_home h.index (homeOf_some hu)
  have hix := h.index.erase hlt hs
  unfold removePageLookup
  rw [hslot]
  refine h.of_setPage VmPage.zero _ _ ?_ fun hz => by simp [VmPage.zero] at hz
  rw [homeOf_setPage hu.1]
  exact hix

/-! ### The partial map after a change -/

theorem pageAt_of_set {s' : VmSpace} (h : RecordsOk s) (h' : RecordsOk s')
    (hpages : s'.pages = update s.pages e page) (hi : e < vmMaxPages)
    (hused : page.used = true)
    (hsame : UsedRecord s e → (s.pages e).virtualAddress = page.virtualAddress) (a : ℕ) :
    pageAt s' a = if alignDown a = page.virtualAddress then some page else pageAt s a := by
  have hue : UsedRecord s' e := ⟨hi, by rw [hpages, update_self]; exact hused⟩
  split
  · rename_i ha
    exact (pageAt_iff h').2 ⟨e, hue, by rw [hpages, update_self], ha.symm⟩
  · rename_i ha
    apply Option.ext
    intro q
    rw [pageAt_iff h', pageAt_iff h]
    constructor
    · rintro ⟨e', hu', hq, hva⟩
      by_cases he : e' = e
      · rw [he, hpages, update_self] at hq
        exact absurd (hq ▸ hva).symm ha
      · rw [hpages, update_of_ne he] at hq
        exact ⟨e', ⟨hu'.1, by simpa [hpages, update_of_ne he] using hu'.2⟩, hq, hva⟩
    · rintro ⟨e', hu', hq, hva⟩
      have he : e' ≠ e := by
        rintro rfl
        exact ha (by rw [← hva, ← hq, hsame hu'])
      exact ⟨e', ⟨hu'.1, by simpa [hpages, update_of_ne he] using hu'.2⟩,
        by rw [hpages, update_of_ne he]; exact hq, hva⟩

theorem pageAt_of_clear {s' : VmSpace} (h : RecordsOk s) (h' : RecordsOk s')
    (hpages : s'.pages = update s.pages e VmPage.zero) (hu : UsedRecord s e) (a : ℕ) :
    pageAt s' a = if alignDown a = (s.pages e).virtualAddress then none else pageAt s a := by
  have hold : ∀ e', UsedRecord s' e' → e' ≠ e ∧ UsedRecord s e' := by
    intro e' hu'
    have he : e' ≠ e := by
      rintro rfl
      have := hu'.2
      rw [hpages, update_self] at this
      simp [VmPage.zero] at this
    exact ⟨he, hu'.1, by simpa [hpages, update_of_ne he] using hu'.2⟩
  apply Option.ext
  intro q
  rw [pageAt_iff h']
  split
  · rename_i ha
    simp only [reduceCtorEq, iff_false]
    rintro ⟨e', hu', hq, hva⟩
    obtain ⟨he, hu''⟩ := hold e' hu'
    rw [hpages, update_of_ne he] at hq
    exact he (h.distinct e' e hu'' hu (by rw [hq, hva, ha]))
  · rename_i ha
    rw [pageAt_iff h]
    constructor
    · rintro ⟨e', hu', hq, hva⟩
      obtain ⟨he, hu''⟩ := hold e' hu'
      rw [hpages, update_of_ne he] at hq
      exact ⟨e', hu'', hq, hva⟩
    · rintro ⟨e', hu', hq, hva⟩
      have he : e' ≠ e := by
        rintro rfl
        exact ha (by rw [hq, hva])
      exact ⟨e', ⟨hu'.1, by simpa [hpages, update_of_ne he] using hu'.2⟩,
        by rw [hpages, update_of_ne he]; exact hq, hva⟩

/-! ### References -/

/-- Record `i` points at frame `f`. -/
def pointsAt (s : VmSpace) (f i : ℕ) : Bool := (s.pages i).used && (s.pages i).frame == f

/-- How many used records of `s` point at frame `f`. -/
def refsIn (s : VmSpace) (f : ℕ) : ℕ := countBelow vmMaxPages (pointsAt s f)

theorem refsIn_congr {s' : VmSpace} (h : s'.pages = s.pages) : refsIn s' = refsIn s := by
  funext f
  exact countBelow_congr fun i _ => by rw [pointsAt, h, pointsAt]

theorem refsIn_pos (hu : UsedRecord s e) : 0 < refsIn s (s.pages e).frame :=
  countBelow_pos hu.1 (by simp [pointsAt, hu.2])

/-- A used record counts once, for its own frame. -/
theorem refsIn_set {s' : VmSpace} (hpages : s'.pages = update s.pages e page)
    (hi : e < vmMaxPages) (hused : page.used = true) (hfree : (s.pages e).used = false) :
    refsIn s' = plusRef (refsIn s) page.frame := by
  funext f
  have hother : ∀ i, i ≠ e → pointsAt s' f i = pointsAt s f i := by
    intro i hie
    rw [pointsAt, hpages, update_of_ne hie, pointsAt]
  have hold : pointsAt s f e = false := by rw [pointsAt, hfree, Bool.false_and]
  have hnew : pointsAt s' f e = (page.frame == f) := by
    rw [pointsAt, hpages, update_self, hused, Bool.true_and]
  by_cases hf : f = page.frame
  · rw [hf, plusRef_self, ← hf]
    exact countBelow_add hi hold (by rw [hnew, hf, beq_self_eq_true]) hother
  · rw [plusRef_of_ne hf]
    refine countBelow_congr fun i _ => ?_
    by_cases hie : i = e
    · rw [hie, hnew, hold]
      simpa using Ne.symm hf
    · exact hother i hie

theorem refsIn_clear {s' : VmSpace} (hpages : s'.pages = update s.pages e VmPage.zero)
    (hu : UsedRecord s e) : refsIn s = plusRef (refsIn s') (s.pages e).frame := by
  refine refsIn_set ?_ hu.1 hu.2 ?_
  · rw [hpages, update_idem, update_eq_self]
  · rw [hpages, update_self]
    rfl

end NovaOS.Vm
