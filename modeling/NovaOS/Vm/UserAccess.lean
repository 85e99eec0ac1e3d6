import NovaOS.Vm.Fork
import NovaOS.Vm.Hardware

/-!
# Copies to user memory, page faults and stores by user code

`vm_copy_to_user` goes page by page: make the page private, then write a chunk.  What it keeps is
proved once, for any property that both halves keep (`copyToUserLoop_rule`).

`userStore` is a store instruction of user code inside one page: the MMU translates, and a page
that is not writable goes through `vm_handle_page_fault` and is tried again.
-/

namespace NovaOS.Vm

variable {ext : ℕ → ℕ} {E : ℕ → Prop} {s s' : VmSpace} {m m' : Memory} {e a : ℕ}

/-! ### Copies -/

/-- **The rule for the copy loop.**  A property of space and memory that `make_private` keeps, and
that a write to a private writable page keeps, holds after the copy, complete or not. -/
theorem copyToUserLoop_rule {R : VmSpace → Memory → Prop}
    (hprivate : ∀ s m e b, R s m → findPage s b = some e →
      R (makePrivate s e m).2.1 (makePrivate s e m).2.2)
    (hstore : ∀ s m e b input, R s m → findPage s b = some e →
      canWrite (s.pages e).protection = true →
      ∀ s' m', makePrivate s e m = (true, s', m') → b % 4096 + input.length ≤ 4096 →
      R s' (storeBytes m' (frameData m' (s'.pages e).frame) (b % 4096) input)) :
    ∀ (fuel : ℕ) (s : VmSpace) (b : ℕ) (input : List UInt8) (m : Memory), R s m →
      R (copyToUserLoop fuel s b input m).2.1 (copyToUserLoop fuel s b input m).2.2 := by
  intro fuel
  induction fuel with
  | zero => intro s b input m h; exact h
  | succ fuel ih =>
    intro s b input m h
    rw [copyToUserLoop]
    split
    · exact h
    · split
      · exact h
      · rename_i e he
        split
        · exact h
        · rename_i hw
          have hp := hprivate s m e b h he
          rcases hmk : makePrivate s e m with ⟨_ | _, s', m'⟩
          · rw [hmk] at hp
            exact hp
          · refine ih s' _ _ _ (hstore s m e b _ h he (by simpa using hw) s' m' hmk ?_)
            rw [List.length_take]
            omega

/-- Well-formedness and what is owed to others, as one property to carry through an operation. -/
structure Runs (ext : ℕ → ℕ) (E : ℕ → Prop) (m₀ : Memory) (s : VmSpace) (m : Memory) : Prop where
  ok : SpaceOk ext E s m
  kept : Kept ext E m₀ m

theorem Runs.makePrivate {m₀ : Memory} (h : Runs ext E m₀ s m) (hu : UsedRecord s e) :
    Runs ext E m₀ (makePrivate s e m).2.1 (makePrivate s e m).2.2 := by
  obtain ⟨ok, s', m', he, hok, hk, _⟩ := makePrivate_spec h.ok hu
  rw [he]
  exact ⟨hok, h.kept.trans hk⟩

theorem Runs.storeBytes {m₀ : Memory} (h : Runs ext E m₀ s m) (page offset : ℕ)
    (input : List UInt8) : Runs ext E m₀ s (storeBytes m page offset input) :=
  ⟨h.ok.bytes _, h.kept.trans ⟨fun _ _ => rfl, fun _ _ _ hb => hb⟩⟩

/-- **`vm_copy_to_user`** keeps the space well formed, complete or not. -/
theorem vmCopyToUser_runs (h : SpaceOk ext E s m) (destination : ℕ) (input : List UInt8) :
    Runs ext E m (vmCopyToUser s destination input m).2.1
      (vmCopyToUser s destination input m).2.2 := by
  refine copyToUserLoop_rule (R := Runs ext E m) ?_ ?_ _ s destination input m ⟨h, Kept.refl ext E m⟩
  · intro s₁ m₁ e b hr he
    exact hr.makePrivate (findPage_sound hr.ok.records he).1
  · intro s₁ m₁ e b input hr he _ s₂ m₂ hmk _
    have := hr.makePrivate (findPage_sound hr.ok.records he).1
    rw [hmk] at this
    exact this.storeBytes _ _ _

/-! ### Page faults -/

theorem vmMapPage_runs (h : SpaceOk ext E s m) (va protection : ℕ) :
    Runs ext E m (vmMapPage s va protection m).2.1 (vmMapPage s va protection m).2.2 := by
  obtain ⟨ok, s', m', he, hok, hk, _⟩ := vmMapPage_spec h va protection
  rw [he]
  exact ⟨hok, hk⟩

/-- **`vm_handle_page_fault`** does nothing, makes a page private, or maps a stack page. -/
theorem vmHandlePageFault_cases (s : VmSpace) (address code : ℕ) (m : Memory) :
    ((vmHandlePageFault s address code m).1 = .unhandled ∧
      (vmHandlePageFault s address code m).2 = (s, m)) ∨
    (∃ e, findPage s address = some e ∧ (s.pages e).copyOnWrite = true ∧
      (vmHandlePageFault s address code m).1 = (if (makePrivate s e m).1 then .cow else .unhandled) ∧
      (vmHandlePageFault s address code m).2 = (makePrivate s e m).2) ∨
    (vmUserStackBase ≤ address ∧ address < vmUserStackTop ∧ code.testBit 0 = false ∧
      (vmHandlePageFault s address code m).1 =
        (if (vmMapPage s (alignDown address) (vmProtRead ||| vmProtWrite) m).1 then .demand
          else .unhandled) ∧
      (vmHandlePageFault s address code m).2 =
        (vmMapPage s (alignDown address) (vmProtRead ||| vmProtWrite) m).2) := by
  unfold vmHandlePageFault
  split
  · exact .inl ⟨rfl, rfl⟩
  · split
    · cases he : findPage s address with
      | none => exact .inl ⟨rfl, rfl⟩
      | some e =>
        simp only
        by_cases hcow : (s.pages e).copyOnWrite = true
        · rw [if_neg (by simp [hcow])]
          refine .inr (.inl ⟨e, rfl, hcow, ?_⟩)
          rcases makePrivate s e m with ⟨_ | _, s', m'⟩ <;> exact ⟨rfl, rfl⟩
        · rw [if_pos (by simp [hcow])]
          exact .inl ⟨rfl, rfl⟩
    · split
      · rename_i hstack
        refine .inr (.inr ⟨hstack.2.1, hstack.2.2, by simpa using hstack.1, ?_⟩)
        rcases vmMapPage s (alignDown address) (vmProtRead ||| vmProtWrite) m with
          ⟨_ | _, s', m'⟩ <;> exact ⟨rfl, rfl⟩
      · exact .inl ⟨rfl, rfl⟩

theorem vmHandlePageFault_runs (h : SpaceOk ext E s m) (address code : ℕ) :
    Runs ext E m (vmHandlePageFault s address code m).2.1
      (vmHandlePageFault s address code m).2.2 := by
  rcases vmHandlePageFault_cases s address code m with ⟨_, he⟩ | ⟨e, hf, _, _, he⟩ | ⟨_, _, _, _, he⟩
  · rw [he]
    exact ⟨h, Kept.refl ext E m⟩
  · rw [he]
    exact Runs.makePrivate ⟨h, Kept.refl ext E m⟩ (findPage_sound h.records hf).1
  · rw [he]
    exact vmMapPage_runs h _ _

/-! ### Stores by user code -/

/-- The error code of a faulting user write. -/
def writeFaultCode (leaf : Option MmuLeaf) : ℕ := if leaf.isSome then 7 else 6

/-- A store by user code at `address`, up to the end of its page.  The instruction is tried again
after a fault that was handled; an unhandled one ends the process. -/
def userStore : ℕ → VmSpace → ℕ → List UInt8 → Memory → Bool × VmSpace × Memory
  | 0, s, _, _, m => (false, s, m)
  | fuel + 1, s, address, input, m =>
    if 2 ^ 47 ≤ address then (false, s, m)
    else
      let leaf := mmuTranslate s address
      if leaf.any fun l => l.user && l.write then
        (true, s, storeBytes m (addressBits (leaf.elim 0 MmuLeaf.entry)) (address % 4096)
          (input.take (4096 - address % 4096)))
      else
        match vmHandlePageFault s address (writeFaultCode leaf) m with
        | (.unhandled, s, m) => (false, s, m)
        | (_, s, m) => userStore fuel s address input m

end NovaOS.Vm
