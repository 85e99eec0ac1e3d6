import NovaOS.Process.Errno
import NovaOS.Vm.Isolation

/-!
# Anonymous mappings

The part of `linux_mmap` that chooses the place of a mapping and fills it with new pages.  Its
loops run over the pages of `[address, address + size)`, with the sum taken in 64 bits.

* `unmapPages`, `mapPages` — the page loops, the second with its rollback;
* `mmapPlace` — `MAP_FIXED` clears its range, otherwise a free range is searched;
* `mapAnonymous`, `mmapAnonymous`;
* `mapPages_confined`, `mmapPlace_spec`, `mmapAnonymous_confined` — what they leave behind.
-/

namespace NovaOS.Process

open NovaOS.Vm List

/-- `linux_protection`. -/
def linuxProtection (protection : ℕ) : ℕ :=
  (if protection.testBit 0 then vmProtRead else 0) |||
    (if protection.testBit 1 then vmProtWrite else 0) |||
    (if protection.testBit 2 then vmProtExec else 0)

/-- `for (page = ...; page < ...; page += VM_PAGE_SIZE) vm_unmap_page(space, page)`. -/
def unmapPages : VmSpace → List ℕ → Memory → VmSpace × Memory
  | s, [], m => (s, m)
  | s, page :: rest, m =>
    match vmUnmapPage s page m with
    | (_, s, m) => unmapPages s rest m

/-- `vm_map_page` on every page; when one fails, those before it are unmapped again. -/
def mapPages (protection : ℕ) : List ℕ → List ℕ → VmSpace → Memory → Bool × VmSpace × Memory
  | _, [], s, m => (true, s, m)
  | done, page :: rest, s, m =>
    match vmMapPage s page protection m with
    | (true, s, m) => mapPages protection (done ++ [page]) rest s m
    | (false, s, m) => (false, unmapPages s done m)

/-- The pages of a mapping. -/
def mappingPages (address size : ℕ) : List ℕ := pageRange address ((address + size) % 2 ^ 64)

/-- Where the mapping goes; `size` is aligned. -/
def mmapPlace (s : VmSpace) (fixed : Bool) (requested hint size : ℕ) (m : Memory) :
    Except Errno ℕ × VmSpace × Memory :=
  if fixed then
    let address := alignDown requested
    if address < vmUserBase ∨ vmUserMmapLimit < (address + size) % 2 ^ 64 then (.error .inval, s, m)
    else (.ok address, unmapPages s (mappingPages address size) m)
  else
    let hint := if requested ≠ 0 then requested else hint
    let address := vmFindFreeRange s hint size
    let address := if address = 0 then vmFindFreeRange s vmUserMmapBase size else address
    if address = 0 then (.error .nomem, s, m) else (.ok address, s, m)

/-- New pages at `address`, marked shared on request. -/
def mapAnonymous (s : VmSpace) (address size protection : ℕ) (shared : Bool) (m : Memory) :
    Except Errno ℕ × VmSpace × Memory :=
  match mapPages protection [] (mappingPages address size) s m with
  | (false, s, m) => (.error .nomem, s, m)
  | (true, s, m) =>
    if shared then
      match vmMarkShared s address size m with
      | (true, s) => (.ok address, s, m)
      | (false, s) => (.error .nomem, unmapPages s (mappingPages address size) m)
    else (.ok address, s, m)

/-- `linux_mmap` with `MAP_ANONYMOUS`. -/
def mmapAnonymous (s : VmSpace) (requested size protection flags hint : ℕ) (m : Memory) :
    Except Errno ℕ × VmSpace × Memory :=
  if size = 0 ∨ vmUserMmapLimit - vmUserMmapBase < size then (.error .inval, s, m)
  else if protection.testBit 1 && protection.testBit 2 then (.error .perm, s, m)
  else
    match mmapPlace s (flags.testBit 4) requested hint (alignUp size) m with
    | (.error e, s, m) => (.error e, s, m)
    | (.ok address, s, m) =>
      mapAnonymous s address (alignUp size) (linuxProtection protection) (flags.testBit 0) m

variable {ext : ℕ → ℕ} {E : ℕ → Prop} {sh : ℕ → Prop} {s s' : VmSpace} {m m' : Memory}
  {address size protection : ℕ}

/-! ### The pages of a mapping -/

theorem mappingPages_aligned (h : address % 4096 = 0) {b : ℕ} (hb : b ∈ mappingPages address size) :
    b % 4096 = 0 :=
  (mem_pageRange hb h).1

theorem pageRange_nodup (first last : ℕ) : (pageRange first last).Nodup := by
  refine (nodup_range).map ?_
  intro i j hij
  simp only at hij
  omega

theorem mappingPages_nodup (address size : ℕ) : (mappingPages address size).Nodup := pageRange_nodup _ _

/-- For an aligned mapping `vm_mark_shared` and `vm_protect` go over the same pages. -/
theorem mappingPages_eq (ha : address % 4096 = 0) (hs : size % 4096 = 0) :
    pageRange (alignDown address) (alignUp ((address + size) % 2 ^ 64)) =
      mappingPages address size := by
  have hmod : (address + size) % 2 ^ 64 % 4096 = 0 := by omega
  rw [alignDown_eq ha, alignUp_eq hmod (Nat.mod_lt _ (by decide)), mappingPages]

/-! ### Unmapping a list of pages -/

theorem unmapPages_pageState {pages : List ℕ} (hp : ∀ b ∈ pages, b % 4096 = 0) (h : SpaceOk ext E s m)
    (b : ℕ) :
    pageState (unmapPages s pages m).1 (unmapPages s pages m).2 b =
      if alignDown b ∈ pages then none else pageState s m b := by
  induction pages generalizing s m with
  | nil => rw [if_neg not_mem_nil, unmapPages]
  | cons page rest ih =>
    have hruns := vmUnmapPage_runs h page
    rw [unmapPages]
    rcases he : vmUnmapPage s page m with ⟨ok, s₁, m₁⟩
    rw [he] at hruns
    have hpage := vmUnmapPage_pageState (b := b) h he
    rw [alignDown_eq (hp page mem_cons_self)] at hpage
    rw [ih (fun b hb => hp b (mem_cons_of_mem page hb)) hruns.ok, hpage]
    by_cases hb : alignDown b = page
    · rw [if_pos hb, if_pos (mem_cons.2 (.inl hb)), ite_self]
    · rw [if_neg hb]
      simp only [mem_cons, hb, false_or]

theorem unmapPages_confined (pages : List ℕ) (hp : ∀ b ∈ pages, b % 4096 = 0)
    (h : SpaceOk ext E s m) (hi : Iso ext sh s) :
    Confined ext E sh s m (unmapPages s pages m).1 (unmapPages s pages m).2 ∧
      view (unmapPages s pages m).1 (unmapPages s pages m).2 = (view s m).fill pages none := by
  constructor
  · clear hp
    induction pages generalizing s m with
    | nil => exact Confined.refl h hi
    | cons page rest ih =>
      obtain ⟨ok, s₁, m₁, he, hc, _⟩ := vmUnmapPage_confined h hi page
      rw [unmapPages, he]
      exact hc.trans (ih hc.ok hc.iso)
  · funext b
    rw [view_eq, unmapPages_pageState hp h, SpaceView.fill]
    split
    · rfl
    · exact (view_eq s m b).symm

/-! ### Mapping a list of pages -/

/-- **The mapping loop** on pages that were not mapped: all of them are zero and on frames of their own,
or those before it are gone. -/
theorem mapPages_confined (protection : ℕ) (todo : List ℕ) : ∀ (done : List ℕ) (s : VmSpace) (m : Memory),
    SpaceOk ext E s m → Iso ext sh s → (∀ b ∈ done, b % 4096 = 0) →
    (∀ b ∈ todo, b % 4096 = 0 ∧ pageAt s b = none) → todo.Nodup →
    ∃ ok s' m', mapPages protection done todo s m = (ok, s', m') ∧ Confined ext E sh s m s' m' ∧
      view s' m' = (if ok then (view s m).fill todo (some .zero) else (view s m).fill done none) ∧
      (ok = true → (∀ b, alignDown b ∉ todo → pageAt s' b = pageAt s b) ∧
        (∀ f, 0 < refsIn s f + ext f → refsIn s' f = refsIn s f) ∧
        ∀ b ∈ todo, ∃ p, pageAt s' b = some p ∧ refsIn s' p.frame + ext p.frame = 1) := by
  induction todo with
  | nil =>
    intro done s m h hi _ _ _
    refine ⟨true, s, m, rfl, Confined.refl h hi, ?_,
      fun _ => ⟨fun _ _ => rfl, fun _ _ => rfl, fun b hb => absurd hb not_mem_nil⟩⟩
    funext b
    simp [SpaceView.fill]
  | cons page rest ih =>
    intro done s m h hi hdone htodo hnodup
    obtain ⟨hpage, hnone⟩ := htodo page mem_cons_self
    obtain ⟨hnotin, hnodup'⟩ := nodup_cons.1 hnodup
    obtain ⟨ok, s₁, m₁, he, hc, hv⟩ := vmMapPage_confined h hi page protection
    rw [mapPages, he]
    cases ok with
    | false =>
      obtain ⟨hc', hv'⟩ := unmapPages_confined done hdone hc.ok hc.iso
      refine ⟨false, _, _, rfl, hc.trans hc', ?_, fun hno => absurd hno Bool.false_ne_true⟩
      rw [hv', hv]
      rfl
    | true =>
      obtain ⟨⟨p, hp, -, -, hone⟩, hat, hrefs⟩ := vmMapPage_new h hnone he
      have htodo' : ∀ b ∈ rest, b % 4096 = 0 ∧ pageAt s₁ b = none := by
        intro b hb
        obtain ⟨hb1, hb2⟩ := htodo b (mem_cons_of_mem page hb)
        refine ⟨hb1, ?_⟩
        rw [hat b ?_, hb2]
        rw [alignDown_eq hb1]
        rintro rfl
        exact hnotin hb
      have hdone' : ∀ b ∈ done ++ [page], b % 4096 = 0 := by
        intro b hb
        rcases mem_append.1 hb with hb | hb
        · exact hdone b hb
        · rw [mem_singleton.1 hb]
          exact hpage
      obtain ⟨ok, s', m', he', hc', hv', halone⟩ :=
        ih (done ++ [page]) s₁ m₁ hc.ok hc.iso hdone' htodo' hnodup'
      refine ⟨ok, s', m', he', hc.trans hc', ?_, fun hok => ?_⟩
      · rw [hv', hv, if_pos rfl]
        -- the page was not mapped, so mapping it and clearing it again is nothing
        have hold : ∀ b, alignDown b = page → view s m b = none := by
          intro b hb
          rw [← view_alignDown, hb, view, hnone]
          rfl
        cases ok with
        | true =>
          funext b
          simp only [SpaceView.fill, SpaceView.map, mem_cons, if_true]
          by_cases hb : alignDown b = page
          · simp [hb, hnotin, hold b hb]
          · simp [hb]
        | false =>
          funext b
          simp only [SpaceView.fill, SpaceView.map, mem_append, mem_singleton,
            Bool.false_eq_true, if_false]
          by_cases hb : alignDown b = page
          · simp [hb, hold b hb]
          · simp [hb]
      · -- frames that are in use keep their references
        obtain ⟨hat', hrefs', halone'⟩ := halone hok
        refine ⟨fun b hb => ?_, fun f hf => ?_, fun b hb => ?_⟩
        · rw [mem_cons, not_or] at hb
          rw [hat' b hb.2, hat b hb.1]
        · rw [hrefs' f (by rw [hrefs f hf]; exact hf), hrefs f hf]
        · rcases mem_cons.1 hb with rfl | hb
          · refine ⟨p, (hat' b (by rwa [alignDown_eq hpage])).trans hp, ?_⟩
            rw [hrefs' _ (by omega), hone]
          · exact halone' b hb

/-! ### The place of a mapping -/

theorem findFreeLoop_spec (s : VmSpace) (pageCount : ℕ) : ∀ (fuel candidate : ℕ),
    candidate % 4096 = 0 → candidate < 2 ^ 64 → findFreeLoop s pageCount fuel candidate ≠ 0 →
    findFreeLoop s pageCount fuel candidate % 4096 = 0 ∧
      findFreeLoop s pageCount fuel candidate < 2 ^ 64 ∧
      (findFreeLoop s pageCount fuel candidate + pageCount * 4096) % 2 ^ 64 ≤ vmUserMmapLimit ∧
      ∀ offset, offset < pageCount →
        findPage s ((findFreeLoop s pageCount fuel candidate + offset * 4096) % 2 ^ 64) = none := by
  intro fuel
  induction fuel with
  | zero => intro candidate _ _ h; exact absurd rfl h
  | succ fuel ih =>
    intro candidate halign hlt h
    rw [findFreeLoop] at h ⊢
    split at h
    · exact absurd rfl h
    rename_i hlimit
    rw [if_neg hlimit]
    split at h
    · rename_i hfree
      rw [if_pos hfree]
      refine ⟨halign, hlt, by omega, fun offset ho => ?_⟩
      rw [all_eq_true] at hfree
      simpa using hfree offset (mem_range.2 ho)
    · rename_i hbusy
      rw [if_neg hbusy]
      exact ih _ (by omega) (Nat.mod_lt _ (by omega)) h

/-- **`vm_find_free_range`** returns the start of a range whose pages are not mapped. -/
theorem vmFindFreeRange_spec (s : VmSpace) {hint size : ℕ} (hsize : size % 4096 = 0)
    (hlt : size < 2 ^ 64) (h : vmFindFreeRange s hint size ≠ 0) :
    vmFindFreeRange s hint size % 4096 = 0 ∧ vmFindFreeRange s hint size < 2 ^ 64 ∧
      (vmFindFreeRange s hint size + size) % 2 ^ 64 ≤ vmUserMmapLimit ∧
      ∀ offset, offset < size / 4096 →
        findPage s ((vmFindFreeRange s hint size + offset * 4096) % 2 ^ 64) = none := by
  rw [vmFindFreeRange] at h ⊢
  split at h
  · exact absurd rfl h
  rename_i hne
  rw [if_neg hne]
  rw [alignUp_eq hsize hlt] at h ⊢
  have := findFreeLoop_spec s (size / 4096) (2 ^ 52) _ (alignUp_mod _) (alignUp_lt _) h
  rwa [Nat.div_mul_cancel (Nat.dvd_of_mod_eq_zero hsize)] at this

/-- No page of a mapping at a free range is mapped, also when its end wraps. -/
theorem mappingPages_free {s : VmSpace} (hs : size % 4096 = 0)
    (hfree : ∀ offset, offset < size / 4096 →
      findPage s ((address + offset * 4096) % 2 ^ 64) = none) :
    ∀ b ∈ mappingPages address size, pageAt s b = none := by
  intro b hb
  obtain ⟨i, hi, rfl⟩ := mem_map.1 hb
  rw [mem_range] at hi
  have h := hfree i (by omega)
  rw [Nat.mod_eq_of_lt (by omega)] at h
  rw [pageAt, h]
  rfl

/-- **The place**: aligned, and nothing is mapped there any more. -/
theorem mmapPlace_spec (h : SpaceOk ext E s m) {fixed : Bool} {requested hint : ℕ}
    (hs : size % 4096 = 0) (hlt : size < 2 ^ 64)
    (he : mmapPlace s fixed requested hint size m = (.ok address, s', m')) :
    address % 4096 = 0 ∧ (∀ b ∈ mappingPages address size, pageAt s' b = none) ∧
      (address + size) % 2 ^ 64 ≤ vmUserMmapLimit ∧
      (fixed = true → address = alignDown requested ∧ vmUserBase ≤ address ∧
        s' = (unmapPages s (mappingPages address size) m).1 ∧
        m' = (unmapPages s (mappingPages address size) m).2) ∧
      (fixed = false → address ≠ 0 ∧ address < 2 ^ 64 ∧ s' = s ∧ m' = m) := by
  rw [mmapPlace] at he
  cases fixed with
  | true =>
    simp only [if_true] at he
    split at he
    · cases he
    rename_i hguard
    simp only [Prod.mk.injEq, Except.ok.injEq] at he
    obtain ⟨rfl, hunmap⟩ := he
    have halign := alignDown_mod requested
    have haligned : ∀ b ∈ mappingPages (alignDown requested) size, b % 4096 = 0 :=
      fun b hb => mappingPages_aligned halign hb
    have hstate := unmapPages_pageState haligned h
    rw [hunmap] at hstate ⊢
    refine ⟨halign, fun b hb => ?_, by omega, fun _ => ⟨rfl, by omega, rfl, rfl⟩,
      (fun hno => by cases hno)⟩
    have hgone := hstate b
    rw [alignDown_eq (haligned b hb), if_pos hb, pageState, Option.map_eq_none_iff] at hgone
    exact hgone
  | false =>
    simp only [Bool.false_eq_true, if_false] at he
    -- whichever search gave the address
    obtain ⟨hint', heq, hne, rfl, rfl⟩ : ∃ hint', vmFindFreeRange s hint' size = address ∧
        address ≠ 0 ∧ s = s' ∧ m = m' := by
      generalize (if requested ≠ 0 then requested else hint) = start at he
      generalize haddr : (if vmFindFreeRange s start size = 0 then
        vmFindFreeRange s vmUserMmapBase size else vmFindFreeRange s start size) = found at he
      split at he
      · cases he
      rename_i hne
      simp only [Prod.mk.injEq, Except.ok.injEq] at he
      obtain ⟨rfl, hs', hm'⟩ := he
      split at haddr
      · exact ⟨_, haddr, hne, hs', hm'⟩
      · exact ⟨_, haddr, hne, hs', hm'⟩
    rw [← heq] at hne
    obtain ⟨halign, hlt', hend, hfree⟩ := vmFindFreeRange_spec s hs hlt hne
    rw [heq] at halign hlt' hend hfree hne
    exact ⟨halign, mappingPages_free hs hfree, hend, (fun hno => by cases hno),
      fun _ => ⟨hne, hlt', rfl, rfl⟩⟩

/-- Where no place is found, the space was not touched. -/
theorem mmapPlace_error {fixed : Bool} {requested hint : ℕ} {e : Errno}
    (he : mmapPlace s fixed requested hint size m = (.error e, s', m')) : s = s' ∧ m = m' := by
  rw [mmapPlace] at he
  cases fixed with
  | true =>
    simp only [if_true] at he
    split at he
    · simp only [Prod.mk.injEq] at he
      exact he.2
    · simp at he
  | false =>
    simp only [Bool.false_eq_true, if_false] at he
    generalize (if vmFindFreeRange s (if requested ≠ 0 then requested else hint) size = 0 then
      vmFindFreeRange s vmUserMmapBase size
      else vmFindFreeRange s (if requested ≠ 0 then requested else hint) size) = found at he
    split at he
    · simp only [Prod.mk.injEq] at he
      exact he.2
    · simp at he

/-! ### Anonymous mappings seen from user code -/

theorem fill_fill (v : SpaceView) (pages : List ℕ) (o o' : Option PageView) :
    (v.fill pages o).fill pages o' = v.fill pages o' := by
  funext b
  simp only [SpaceView.fill]
  split
  · rfl
  · rfl

theorem fill_none {v : SpaceView} {pages : List ℕ} (h : ∀ b, alignDown b ∈ pages → v b = none) :
    v.fill pages none = v := by
  funext b
  rw [SpaceView.fill]
  split
  · rename_i hb
    exact (h b hb).symm
  · rfl

/-- **New pages** where nothing was mapped: all of them, or the space is as before. -/
theorem mapAnonymous_confined (protection : ℕ) (h : SpaceOk ext E s m) (hi : Iso ext sh s) (ha : address % 4096 = 0)
    (hs : size % 4096 = 0) (hfree : ∀ b ∈ mappingPages address size, pageAt s b = none)
    (shared : Bool) :
    ∃ r s' m', mapAnonymous s address size protection shared m = (r, s', m') ∧
      Confined ext E sh s m s' m' ∧
      ((r = .ok address ∧ view s' m' = (view s m).fill (mappingPages address size)
          (some (if shared then .shared else .zero))) ∨
       (∃ e, r = .error e ∧ view s' m' = view s m)) := by
  have hpages : ∀ b ∈ mappingPages address size, b % 4096 = 0 ∧ pageAt s b = none :=
    fun b hb => ⟨mappingPages_aligned ha hb, hfree b hb⟩
  have hnone : ∀ b, alignDown b ∈ mappingPages address size → view s m b = none := by
    intro b hb
    rw [← view_alignDown, view, hfree _ hb]
    rfl
  obtain ⟨ok, s₁, m₁, he, hc, hv, halone⟩ :=
    mapPages_confined protection _ [] s m h hi (fun _ hno => by cases hno) hpages
      (mappingPages_nodup address size)
  rw [mapAnonymous, he]
  cases ok with
  | false =>
    refine ⟨_, s₁, m₁, rfl, hc, .inr ⟨.nomem, rfl, ?_⟩⟩
    rw [hv, if_neg (by simp), fill_none fun b hb => absurd hb not_mem_nil]
  | true =>
    cases shared with
    | false => exact ⟨_, s₁, m₁, rfl, hc, .inl ⟨rfl, hv⟩⟩
    | true =>
      have hone : ∀ b ∈ pageRange (alignDown address) (alignUp ((address + size) % 2 ^ 64)), ∀ p,
          pageAt s₁ b = some p → refsIn s₁ p.frame + ext p.frame = 1 := by
        intro b hb p hp
        rw [mappingPages_eq ha hs] at hb
        obtain ⟨q, hq, hone⟩ := (halone rfl).2.2 b hb
        rw [hp] at hq
        rw [Option.some.inj hq]
        exact hone
      obtain ⟨ok, s₂, he₂, hc₂, hv₂⟩ := vmMarkShared_confined hc.ok hc.iso address size hone
      rw [mappingPages_eq ha hs] at hv₂
      simp only [if_true]
      rw [he₂]
      cases ok with
      | true =>
        refine ⟨_, s₂, m₁, rfl, hc.trans hc₂, .inl ⟨rfl, ?_⟩⟩
        rw [hv₂, hv, if_pos rfl, if_pos rfl, fill_fill]
      | false =>
        obtain ⟨hc₃, hv₃⟩ := unmapPages_confined (mappingPages address size)
          (fun b hb => mappingPages_aligned ha hb) hc₂.ok hc₂.iso
        refine ⟨_, _, _, rfl, (hc.trans hc₂).trans hc₃, .inr ⟨.nomem, rfl, ?_⟩⟩
        rw [hv₃, hv₂, hv, if_neg (by simp), if_pos rfl, fill_fill, fill_none hnone]

/-- **`linux_mmap`, anonymous**: the pages of the mapping are new, or nothing happened, or a fixed
mapping failed after it had cleared its range. -/
theorem mmapAnonymous_confined (h : SpaceOk ext E s m) (hi : Iso ext sh s)
    (requested size protection flags hint : ℕ) :
    ∃ r s' m', mmapAnonymous s requested size protection flags hint m = (r, s', m') ∧
      Confined ext E sh s m s' m' ∧
      ((∃ address, r = .ok address ∧ (flags.testBit 4 = true → address = alignDown requested) ∧
          (flags.testBit 4 = false → ∀ b ∈ mappingPages address (alignUp size), view s m b = none) ∧
          view s' m' = (view s m).fill (mappingPages address (alignUp size))
            (some (if flags.testBit 0 then .shared else .zero))) ∨
       (∃ e, r = .error e ∧ (view s' m' = view s m ∨ (flags.testBit 4 = true ∧
          view s' m' = (view s m).fill (mappingPages (alignDown requested) (alignUp size)) none)))) := by
  rw [mmapAnonymous]
  split
  · exact ⟨_, s, m, rfl, Confined.refl h hi, .inr ⟨_, rfl, .inl rfl⟩⟩
  split
  · exact ⟨_, s, m, rfl, Confined.refl h hi, .inr ⟨_, rfl, .inl rfl⟩⟩
  have hs := alignUp_mod size
  rcases hplace : mmapPlace s (flags.testBit 4) requested hint (alignUp size) m with ⟨_ | address, s₁, m₁⟩
  · -- no place was found: the space was not touched
    rename_i e
    obtain ⟨rfl, rfl⟩ := mmapPlace_error hplace
    exact ⟨_, s, m, rfl, Confined.refl h hi, .inr ⟨e, rfl, .inl rfl⟩⟩
  · obtain ⟨halign, hfree, _, hfixed, hsearch⟩ := mmapPlace_spec h hs (alignUp_lt size) hplace
    cases hbit : flags.testBit 4 with
    | true =>
      obtain ⟨haddr, _, rfl, rfl⟩ := hfixed hbit
      obtain ⟨hc, hv⟩ := unmapPages_confined (mappingPages address (alignUp size))
        (fun b hb => mappingPages_aligned halign hb) h hi
      obtain ⟨r, s', m', he, hc', hcase⟩ := mapAnonymous_confined
        (linuxProtection protection) hc.ok hc.iso halign hs hfree (flags.testBit 0)
      refine ⟨r, s', m', he, hc.trans hc', ?_⟩
      rcases hcase with ⟨rfl, hv'⟩ | ⟨e, rfl, hv'⟩
      · refine .inl ⟨address, rfl, fun _ => haddr, nofun, ?_⟩
        rw [hv', hv, fill_fill]
      · refine .inr ⟨e, rfl, .inr ⟨rfl, ?_⟩⟩
        rw [hv', hv, haddr]
    | false =>
      obtain ⟨_, _, rfl, rfl⟩ := hsearch hbit
      obtain ⟨r, s', m', he, hc, hcase⟩ := mapAnonymous_confined
        (linuxProtection protection) h hi halign hs hfree (flags.testBit 0)
      refine ⟨r, s', m', he, hc, ?_⟩
      rcases hcase with ⟨rfl, hv⟩ | ⟨e, rfl, hv⟩
      · refine .inl ⟨address, rfl, nofun, fun _ b hb => ?_, hv⟩
        rw [view, hfree b hb]
        rfl
      · exact .inr ⟨e, rfl, .inl hv⟩

end NovaOS.Process
