import NovaOS.Loader.Objects
import NovaOS.Vm.UserBytes

/-!
# What the loader's calls do to user memory

The loader changes an address space only through `vm.c`.  For each of its calls, when it succeeds:
the space stays well formed (`Changed`), and this is what user code finds afterwards (`Target.view`).
-/

namespace NovaOS.Loader

open NovaOS.Vm NovaOS.Fs NovaOS.Process
open NovaOS.Fallible

/-- What user code finds in the space being filled. -/
def Target.view (t : Target) : SpaceView := Vm.view t.space.vm t.memory

/-- The space being filled is well formed. -/
structure Ready (ext : ℕ → ℕ) (E : ℕ → Prop) (sh : ℕ → Prop) (t : Target) : Prop where
  ok : SpaceOk ext E t.space.vm t.memory
  iso : Iso ext sh t.space.vm

/-- A change of page tables and memory that keeps the space well formed. -/
structure Changed (ext : ℕ → ℕ) (E : ℕ → Prop) (sh : ℕ → Prop) (t t' : Target) : Prop where
  confined : Confined ext E sh t.space.vm t.memory t'.space.vm t'.memory
  rest : t'.space = { t.space with vm := t'.space.vm }

variable {ext : ℕ → ℕ} {E : ℕ → Prop} {sh : ℕ → Prop} {t t' t₁ t₂ t₃ : Target} {u : Unit}

theorem Changed.ready (h : Changed ext E sh t t') : Ready ext E sh t' := ⟨h.confined.ok, h.confined.iso⟩

theorem Changed.refl (h : Ready ext E sh t) : Changed ext E sh t t := ⟨Confined.refl h.ok h.iso, rfl⟩

theorem Changed.trans (h : Changed ext E sh t₁ t₂) (h' : Changed ext E sh t₂ t₃) :
    Changed ext E sh t₁ t₃ := by
  refine ⟨h.confined.trans h'.confined, ?_⟩
  rw [h'.rest, h.rest]

/-! ### Single calls -/

theorem onVm_some {f : VmSpace → Memory → Bool × VmSpace × Memory} :
    onVm f t = (some u, t') ↔ ∃ s m, f t.space.vm t.memory = (true, s, m) ∧ t.withVm s m = t' := by
  rw [onVm]
  rcases f t.space.vm t.memory with ⟨ok, s, m⟩
  cases ok with
  | false =>
    constructor
    · intro h
      cases h
    · intro h
      obtain ⟨_, _, h, _⟩ := h
      cases h
  | true =>
    simp only [if_true, Prod.mk.injEq, true_and]
    constructor
    · intro h
      exact ⟨s, m, ⟨rfl, rfl⟩, h⟩
    · intro h
      obtain ⟨_, _, ⟨rfl, rfl⟩, h⟩ := h
      exact h

theorem mapPage_some (hr : Ready ext E sh t) {protection address : ℕ}
    (h : mapPage protection address t = (some u, t')) :
    Changed ext E sh t t' ∧ t'.view = t.view.map address := by
  obtain ⟨s, m, hf, rfl⟩ := onVm_some.1 h
  obtain ⟨ok, s', m', he, hc, hv⟩ := vmMapPage_confined hr.ok hr.iso address protection
  have heq : (true, s, m) = (ok, s', m') := hf.symm.trans he
  cases heq
  exact ⟨⟨hc, rfl⟩, hv⟩

theorem copyTo_some (hr : Ready ext E sh t) {destination : ℕ} {source : List UInt8}
    (h : copyTo destination source t = (some u, t')) :
    Changed ext E sh t t' ∧ t'.view = t.view.write destination source ∧
      ∀ i, i < source.length → (t.view (destination + i)).isSome ∧ destination + i < 2 ^ 47 := by
  obtain ⟨s, m, hf, rfl⟩ := onVm_some.1 h
  obtain ⟨hc, hv, hmapped⟩ := vmCopyToUser_userByte hr.ok hr.iso hf
  exact ⟨⟨hc, rfl⟩, hv, hmapped⟩

/-! ### Pages one by one -/

/-- Nothing changes outside some pages. -/
def SameOutside (pages : ℕ → Prop) (v v' : SpaceView) : Prop :=
  ∀ b, ¬ pages (alignDown b) → v' b = v b

theorem SameOutside.refl (pages : ℕ → Prop) (v : SpaceView) : SameOutside pages v v := fun _ _ => rfl

theorem SameOutside.trans {pages : ℕ → Prop} {v₁ v₂ v₃ : SpaceView} (h : SameOutside pages v₁ v₂)
    (h' : SameOutside pages v₂ v₃) : SameOutside pages v₁ v₃ := by
  intro b hb
  rw [h' b hb, h b hb]

theorem SameOutside.mono {pages pages' : ℕ → Prop} {v v' : SpaceView} (h : SameOutside pages v v')
    (hsub : ∀ b, pages b → pages' b) : SameOutside pages' v v' := by
  intro b hb
  exact h b fun hp => hb (hsub _ hp)

theorem sameOutside_map (v : SpaceView) (va : ℕ) : SameOutside (· = va) v (v.map va) := by
  intro b hb
  rw [SpaceView.map, if_neg hb]

/-- A write stays in the pages its range meets. -/
theorem sameOutside_write {pages : ℕ → Prop} (v : SpaceView) (a : ℕ) (input : List UInt8)
    (h : ∀ i, i < input.length → pages (alignDown (a + i))) :
    SameOutside pages v (v.write a input) := by
  intro b hb
  rw [SpaceView.write]
  have hover : SpaceView.overlay (alignDown b) a input = fun bytes => bytes := by
    funext bytes i
    rw [SpaceView.overlay, if_neg]
    rintro ⟨hi, hlow, hhigh⟩
    apply hb
    have hpage := h (alignDown b + i - a) (by omega)
    rw [show a + (alignDown b + i - a) = alignDown b + i by omega] at hpage
    have hsame : alignDown (alignDown b + i) = alignDown b := by
      have := alignDown_mod b
      unfold alignDown at this ⊢
      omega
    rwa [hsame] at hpage
  rw [hover]
  cases v b with
  | none => rfl
  | some p => rw [Option.map_some, PageView.change_id]

theorem mapEach_some (protection : ℕ) {pages : List ℕ} (hr : Ready ext E sh t)
    (h : mapEach protection pages t = (some u, t')) :
    Changed ext E sh t t' ∧ SameOutside (· ∈ pages) t.view t'.view := by
  induction pages generalizing t with
  | nil =>
    obtain ⟨_, rfl⟩ := pure_some.1 h
    exact ⟨Changed.refl hr, SameOutside.refl _ _⟩
  | cons page pages ih =>
    obtain ⟨_, t₁, hpage, hrest⟩ := bind_some.1 h
    obtain ⟨hc, hv⟩ := mapPage_some hr hpage
    obtain ⟨hc', hv'⟩ := ih hc.ready hrest
    have hfirst : SameOutside (· ∈ page :: pages) t.view t₁.view := by
      rw [hv]
      exact (sameOutside_map t.view page).mono fun b hb => hb ▸ List.mem_cons_self
    exact ⟨hc.trans hc', hfirst.trans (hv'.mono fun b hb => List.mem_cons_of_mem page hb)⟩

/-! ### A new space -/

/-- `address_space_create`. -/
def addressSpaceCreate (m : Memory) : Option AddressSpace × Memory :=
  match heapTake m with
  | (false, m) => (none, m)
  | (true, m) =>
    match vmSpaceCreate m with
    | (false, _, m) => (none, m)
    | (true, vm, m) => (some ⟨vm, 1, [], 0, 0, 0, 0⟩, m)

/-- **`address_space_create`**: the space is well formed and has no pages. -/
theorem addressSpaceCreate_some {total : ℕ → ℕ} {m m' : Memory} {space : AddressSpace}
    (h : MemoryOk total E m) (hcreate : addressSpaceCreate m = (some space, m')) (sh : ℕ → Prop) :
    Ready total E sh ⟨space, m'⟩ ∧ ∀ a, pageAt space.vm a = none := by
  rw [addressSpaceCreate] at hcreate
  split at hcreate
  · cases hcreate
  next m₁ htake =>
  have hm₁ : MemoryOk total E m₁ := by
    rw [heapTake, Prod.mk.injEq] at htake
    rw [← htake.2]
    exact h.calls _
  rcases vmSpaceCreate_spec hm₁ with ⟨m₂, hfail, -⟩ | ⟨s, m₂, hsome, hok, -, -, -, hnone⟩
  · rw [hfail] at hcreate
    cases hcreate
  · rw [hsome] at hcreate
    cases hcreate
    have habsent : ∀ {a p}, pageAt s a = some p → False := fun hp => nomatch (hnone _).symm.trans hp
    exact ⟨⟨hok, ⟨fun _ _ hp => (habsent hp).elim, fun _ _ _ _ hp => (habsent hp).elim,
      fun _ _ hp => (habsent hp).elim, fun _ _ hp => (habsent hp).elim⟩⟩, hnone⟩

end NovaOS.Loader
