import Mathlib.Algebra.Order.BigOperators.Group.Finset
import NovaOS.Vm.UserAccess

/-!
# Many address spaces in one memory

A `World` has any number of spaces, the frames that shared memory objects hold, and the memory
under all of them.  `WorldOk` is its invariant: the references of each frame are the records of
all spaces plus the held ones, no heap block has two owners, and every space is well formed.

Each space sees the rest as its environment (`WorldOk.spaceOk`), so a specification of an
operation on one space lifts to the world once and for all (`WorldOk.set`).

* `VmOp`, `World.step`, `World.run` — the operations of `kernel/vm.c` in any order, on any space;
* `WorldOk.run` — the invariant holds after every run;
* `userLeaf_iff_record` — **hardware view equals bookkeeping**;
* `pageIndex_represents` — the index finds exactly the used records;
* `frames_accounted` — no frame is lost, and none is freed while it is used.
-/

namespace NovaOS.Vm

open Function Nat
open NovaOS.Heap (heapStart heapEnd)

structure World where
  spaces : ℕ → Option VmSpace
  /-- ids from `count` on were never used -/
  count : ℕ
  /-- how often shared memory objects hold a frame -/
  held : ℕ → ℕ
  memory : Memory

/-- The references of an optional space. -/
def refsOf : Option VmSpace → ℕ → ℕ
  | none, _ => 0
  | some s, f => refsIn s f

@[simp] theorem refsOf_some (s : VmSpace) (f : ℕ) : refsOf (some s) f = refsIn s f := by
  rw [refsOf]

@[simp] theorem refsOf_none (f : ℕ) : refsOf none f = 0 := by
  rw [refsOf]

/-- All references to a frame. -/
def World.total (w : World) (f : ℕ) : ℕ :=
  ∑ j ∈ Finset.range w.count, refsOf (w.spaces j) f + w.held f

/-- The references to a frame from outside space `i`. -/
def World.others (w : World) (i f : ℕ) : ℕ :=
  ∑ j ∈ (Finset.range w.count).erase i, refsOf (w.spaces j) f + w.held f

def World.owned (w : World) (p : ℕ) : Prop := ∃ j s, w.spaces j = some s ∧ ownsBlock s p

def World.ownedOthers (w : World) (i p : ℕ) : Prop :=
  ∃ j s, j ≠ i ∧ w.spaces j = some s ∧ ownsBlock s p

structure WorldOk (w : World) : Prop where
  bound : ∀ i s, w.spaces i = some s → i < w.count
  memory : MemoryOk w.total w.owned w.memory
  apart : ∀ i j s t p, i ≠ j → w.spaces i = some s → w.spaces j = some t → ownsBlock s p →
    ¬ ownsBlock t p
  core : ∀ i s, w.spaces i = some s → SpaceCore s w.memory

variable {w : World} {i j : ℕ} {s s' d t : VmSpace} {m' m : Memory} {ext : ℕ → ℕ} {E : ℕ → Prop}

/-! ### One space and the rest -/

theorem World.total_eq (w : World) (hi : i < w.count) (f : ℕ) :
    w.total f = refsOf (w.spaces i) f + w.others i f := by
  rw [World.total, World.others, ← add_assoc,
    Finset.add_sum_erase _ (fun j => refsOf (w.spaces j) f) (Finset.mem_range.2 hi)]

/-- A reference held by another space is a reference from outside. -/
theorem World.others_pos (w : World) {f : ℕ} (hj : j < w.count) (hji : j ≠ i)
    (ht : w.spaces j = some t) (hf : 0 < refsIn t f) : 0 < w.others i f := by
  have hmem : j ∈ (Finset.range w.count).erase i := Finset.mem_erase.2 ⟨hji, Finset.mem_range.2 hj⟩
  have hle := Finset.single_le_sum (f := fun k => refsOf (w.spaces k) f) (fun _ _ => zero_le _) hmem
  rw [ht, refsOf_some] at hle
  rw [World.others]
  omega

theorem WorldOk.spaceOk (h : WorldOk w) (hs : w.spaces i = some s) :
    SpaceOk (w.others i) (w.ownedOthers i) s w.memory := by
  refine (h.core i s hs).spaceOk (h.memory.congr (fun f => ?_) fun p => ?_) ?_
  · rw [w.total_eq (h.bound i s hs), hs, refsOf_some]
  · constructor
    · rintro (hp | ⟨j, t, _, ht, hp⟩)
      · exact ⟨i, s, hs, hp⟩
      · exact ⟨j, t, ht, hp⟩
    · rintro ⟨j, t, ht, hp⟩
      by_cases hj : j = i
      · subst hj
        rw [hs] at ht
        exact .inl (Option.some.inj ht ▸ hp)
      · exact .inr ⟨j, t, hj, ht, hp⟩
  · rintro p hp ⟨j, t, hj, ht, hpt⟩
    exact h.apart i j s t p (Ne.symm hj) hs ht hp hpt

/-- The other spaces survive what keeps their references and blocks. -/
theorem WorldOk.core_kept (h : WorldOk w) (hk : Kept (w.others i) (w.ownedOthers i) w.memory m')
    (hj : j ≠ i) (ht : w.spaces j = some t) : SpaceCore t m' :=
  (h.core j t ht).transfer (fun p n hp => hk.blocks p n ⟨j, t, hj, ht, hp⟩)
    fun _ hf => hk.data _ (w.others_pos (h.bound j t ht) hj ht hf)

/-- A world is well formed when one of its members is, in its environment, and the others are. -/
theorem WorldOk.of_rest (hi : i < w.count)
    (hbound : ∀ j t, j ≠ i → w.spaces j = some t → j < w.count)
    (hmem : MemoryOk (fun f => refsOf (w.spaces i) f + w.others i f)
      (fun p => (∃ s, w.spaces i = some s ∧ ownsBlock s p) ∨ w.ownedOthers i p) w.memory)
    (hself : ∀ s, w.spaces i = some s →
      SpaceCore s w.memory ∧ ∀ p, ownsBlock s p → ¬ w.ownedOthers i p)
    (hcore : ∀ j t, j ≠ i → w.spaces j = some t → SpaceCore t w.memory)
    (hapart : ∀ j k t u p, j ≠ i → k ≠ i → j ≠ k → w.spaces j = some t → w.spaces k = some u →
      ownsBlock t p → ¬ ownsBlock u p) : WorldOk w := by
  refine ⟨?_, hmem.congr (w.total_eq hi) fun p => ?_, ?_, ?_⟩
  · intro j t ht
    by_cases hj : j = i
    · rw [hj]; exact hi
    · exact hbound j t hj ht
  · constructor
    · rintro ⟨j, t, ht, hp⟩
      by_cases hj : j = i
      · exact .inl ⟨t, hj ▸ ht, hp⟩
      · exact .inr ⟨j, t, hj, ht, hp⟩
    · rintro (⟨t, ht, hp⟩ | ⟨j, t, _, ht, hp⟩)
      · exact ⟨i, t, ht, hp⟩
      · exact ⟨j, t, ht, hp⟩
  · intro j k t u p hjk ht hu hp hpu
    by_cases hj : j = i
    · subst hj
      exact (hself t ht).2 p hp ⟨k, u, Ne.symm hjk, hu, hpu⟩
    · by_cases hk : k = i
      · subst hk
        exact (hself u hu).2 p hpu ⟨j, t, hj, ht, hp⟩
      · exact hapart j k t u p hj hk hjk ht hu hp hpu
  · intro j t ht
    by_cases hj : j = i
    · exact (hself t (hj ▸ ht)).1
    · exact hcore j t hj ht

/-- Replace space `i` (by another state of it, or by nothing) and the memory. -/
def World.put (w : World) (i : ℕ) (o : Option VmSpace) (m : Memory) : World :=
  { w with spaces := update w.spaces i o, memory := m }

@[simp] theorem World.put_self (w : World) (i : ℕ) (o : Option VmSpace) (m : Memory) :
    (w.put i o m).spaces i = o :=
  update_self ..

theorem World.put_of_ne (w : World) (hj : j ≠ i) (o : Option VmSpace) (m : Memory) :
    (w.put i o m).spaces j = w.spaces j :=
  update_of_ne hj ..

section

variable (w i m) (o : Option VmSpace)

@[simp] theorem World.put_memory : (w.put i o m).memory = m := rfl

theorem World.put_others : (w.put i o m).others i = w.others i := by
  funext f
  rw [World.others, World.others]
  congr 1
  refine Finset.sum_congr rfl fun j hj => ?_
  rw [w.put_of_ne (Finset.mem_erase.1 hj).1]

theorem World.put_ownedOthers : (w.put i o m).ownedOthers i = w.ownedOthers i := by
  funext p
  refine propext (exists_congr fun j => exists_congr fun t => and_congr_right fun hj => ?_)
  rw [w.put_of_ne hj]

end

/-- **Lifting.**  An operation on space `i` that leaves it well formed in its environment, or ends
it, leaves the world well formed. -/
theorem WorldOk.put (h : WorldOk w) (hi : i < w.count) {o : Option VmSpace}
    (hmem : MemoryOk (fun f => refsOf o f + w.others i f)
      (fun p => (∃ s, o = some s ∧ ownsBlock s p) ∨ w.ownedOthers i p) m')
    (hself : ∀ s, o = some s → SpaceCore s m' ∧ ∀ p, ownsBlock s p → ¬ w.ownedOthers i p)
    (hk : Kept (w.others i) (w.ownedOthers i) w.memory m') : WorldOk (w.put i o m') := by
  refine WorldOk.of_rest (i := i) hi ?_ ?_ ?_ ?_ ?_
  · intro j t hj ht
    exact h.bound j t (by rwa [w.put_of_ne hj] at ht)
  · rw [w.put_self, w.put_others, w.put_ownedOthers]
    exact hmem
  · rw [w.put_self, w.put_ownedOthers]
    exact hself
  · intro j t hj ht
    exact h.core_kept hk hj (by rwa [w.put_of_ne hj] at ht)
  · intro j k t u p hj hk' hjk ht hu
    rw [w.put_of_ne hj] at ht
    rw [w.put_of_ne hk'] at hu
    exact h.apart j k t u p hjk ht hu

theorem WorldOk.set (h : WorldOk w) (hi : i < w.count)
    (hok : SpaceOk (w.others i) (w.ownedOthers i) s' m')
    (hk : Kept (w.others i) (w.ownedOthers i) w.memory m') : WorldOk (w.put i (some s') m') := by
  refine h.put hi (hok.heap.memory.congr (fun f => by rw [refsOf_some]) fun p => ?_) ?_ hk
  · simp
  · rintro s hs
    rw [← Option.some.inj hs]
    exact ⟨hok.core, hok.heap.apart⟩

theorem WorldOk.remove (h : WorldOk w) (hi : i < w.count)
    (hmem : MemoryOk (w.others i) (w.ownedOthers i) m')
    (hk : Kept (w.others i) (w.ownedOthers i) w.memory m') : WorldOk (w.put i none m') := by
  refine h.put hi (hmem.congr (fun f => by rw [refsOf_none, zero_add]) fun p => ?_) ?_ hk
  · simp
  · simp

/-! ### New spaces -/

/-- A new space under the next id. -/
def World.add (w : World) (d : VmSpace) (m : Memory) : World :=
  { w with spaces := update w.spaces w.count (some d), count := w.count + 1, memory := m }

@[simp] theorem World.add_self (w : World) (d : VmSpace) (m : Memory) :
    (w.add d m).spaces w.count = some d :=
  update_self ..

@[simp] theorem World.add_count (w : World) (d : VmSpace) (m : Memory) :
    (w.add d m).count = w.count + 1 := rfl

@[simp] theorem World.add_held (w : World) (d : VmSpace) (m : Memory) :
    (w.add d m).held = w.held := rfl

theorem World.add_of_ne (w : World) (hj : j ≠ w.count) (d : VmSpace) (m : Memory) :
    (w.add d m).spaces j = w.spaces j :=
  update_of_ne hj ..

theorem World.add_others_new (w : World) (d : VmSpace) (m : Memory) :
    (w.add d m).others w.count = w.total := by
  funext f
  have hrange : (Finset.range (w.count + 1)).erase w.count = Finset.range w.count := by
    rw [Finset.range_add_one, Finset.erase_insert Finset.notMem_range_self]
  rw [World.others, World.total, w.add_count, w.add_held, hrange]
  congr 1
  refine Finset.sum_congr rfl fun j hj => ?_
  rw [w.add_of_ne (Finset.mem_range.1 hj).ne]

theorem World.add_others_old (w : World) (hi : i < w.count) (d : VmSpace) (m : Memory) (f : ℕ) :
    (w.add d m).others i f = refsIn d f + w.others i f := by
  have hrange : (Finset.range (w.count + 1)).erase i
      = insert w.count ((Finset.range w.count).erase i) := by
    rw [Finset.range_add_one, Finset.erase_insert_of_ne hi.ne']
  have hnew : w.count ∉ (Finset.range w.count).erase i := by simp
  have hsum : ∑ j ∈ (Finset.range w.count).erase i, refsOf ((w.add d m).spaces j) f
      = ∑ j ∈ (Finset.range w.count).erase i, refsOf (w.spaces j) f := by
    refine Finset.sum_congr rfl fun j hj => ?_
    rw [w.add_of_ne (Finset.mem_range.1 (Finset.mem_erase.1 hj).2).ne]
  rw [World.others, World.others, w.add_count, w.add_held, hrange, Finset.sum_insert hnew, hsum,
    w.add_self, refsOf_some, add_assoc]

theorem WorldOk.ne_count (h : WorldOk w) (ht : w.spaces j = some t) :
    j ≠ w.count :=
  (h.bound j t ht).ne

theorem WorldOk.add_ownedOthers_new (h : WorldOk w) (d : VmSpace) (m : Memory) (p : ℕ) :
    (w.add d m).ownedOthers w.count p ↔ w.owned p := by
  constructor
  · rintro ⟨j, t, hj, ht, hp⟩
    exact ⟨j, t, by rwa [w.add_of_ne hj] at ht, hp⟩
  · rintro ⟨j, t, ht, hp⟩
    exact ⟨j, t, h.ne_count ht, by rwa [w.add_of_ne (h.ne_count ht)], hp⟩

theorem WorldOk.add_ownedOthers_old (h : WorldOk w) (hi : i < w.count) (d : VmSpace) (m : Memory)
    (p : ℕ) : (w.add d m).ownedOthers i p ↔ ownsBlock d p ∨ w.ownedOthers i p := by
  constructor
  · rintro ⟨j, t, hj, ht, hp⟩
    by_cases hn : j = w.count
    · subst hn
      rw [w.add_self] at ht
      exact .inl (Option.some.inj ht ▸ hp)
    · exact .inr ⟨j, t, hj, by rwa [w.add_of_ne hn] at ht, hp⟩
  · rintro (hp | ⟨j, t, hj, ht, hp⟩)
    · exact ⟨w.count, d, hi.ne', w.add_self d m, hp⟩
    · exact ⟨j, t, hj, by rwa [w.add_of_ne (h.ne_count ht)], hp⟩

/-- **A new space** that is well formed next to all the others. -/
theorem WorldOk.add (h : WorldOk w) (hok : SpaceOk w.total w.owned d m')
    (hk : Kept w.total w.owned w.memory m') : WorldOk (w.add d m') := by
  have hown := h.add_ownedOthers_new d m'
  refine WorldOk.of_rest (i := w.count) (lt_succ_self _) ?_ ?_ ?_ ?_ ?_
  · intro j t hj ht
    exact lt_succ_of_lt (h.bound j t (by rwa [w.add_of_ne hj] at ht))
  · rw [w.add_self, w.add_others_new]
    refine hok.heap.memory.congr (fun f => by rw [refsOf_some]) fun p => ?_
    rw [hown]
    simp
  · intro s hs
    rw [w.add_self] at hs
    rw [← Option.some.inj hs]
    exact ⟨hok.core, fun p hp => by rw [hown]; exact hok.heap.apart p hp⟩
  · intro j t hj ht
    rw [w.add_of_ne hj] at ht
    have htotal : ∀ f, 0 < refsIn t f → 0 < w.total f := by
      intro f hf
      rw [w.total_eq (h.bound j t ht), ht, refsOf_some]
      omega
    exact (h.core j t ht).transfer (fun p n hp => hk.blocks p n ⟨j, t, ht, hp⟩)
      fun f hf => hk.data f (htotal f hf)
  · intro j k t u p hj hk' hjk ht hu
    rw [w.add_of_ne hj] at ht
    rw [w.add_of_ne hk'] at hu
    exact h.apart j k t u p hjk ht hu

/-- **A clone**: space `i` moves on and a new space appears in the same step. -/
theorem WorldOk.addPair (h : WorldOk w) (hi : i < w.count)
    (hpair : PairOk (w.others i) (w.ownedOthers i) d s' m')
    (hk : Kept (w.others i) (w.ownedOthers i) w.memory m') :
    WorldOk ((w.add d m').put i (some s') m') := by
  have hown := h.add_ownedOthers_old hi d m'
  have hne : ∀ {j}, j ≠ i → ((w.add d m').put i (some s') m').spaces j = (w.add d m').spaces j :=
    fun hj => World.put_of_ne _ hj _ _
  refine WorldOk.of_rest (i := i) (lt_succ_of_lt hi) ?_ ?_ ?_ ?_ ?_
  · intro j t hj ht
    rw [hne hj] at ht
    by_cases hn : j = w.count
    · rw [hn]; exact lt_succ_self _
    · exact lt_succ_of_lt (h.bound j t (by rwa [w.add_of_ne hn] at ht))
  · rw [World.put_self, World.put_others, World.put_ownedOthers]
    refine hpair.right.heap.memory.congr (fun f => ?_) fun p => ?_
    · rw [refsOf_some, w.add_others_old hi]
    · rw [hown]
      simp
  · rw [World.put_self, World.put_ownedOthers]
    intro s hs
    rw [← Option.some.inj hs]
    exact ⟨hpair.right.core, fun p hp => by rw [hown]; exact hpair.right.heap.apart p hp⟩
  · intro j t hj ht
    rw [hne hj] at ht
    by_cases hn : j = w.count
    · subst hn
      rw [w.add_self] at ht
      exact Option.some.inj ht ▸ hpair.left.core
    · exact h.core_kept hk hj (by rwa [w.add_of_ne hn] at ht)
  · intro j k t u p hj hk' hjk ht hu hp hpu
    rw [hne hj] at ht
    rw [hne hk'] at hu
    -- the new space owns nothing that the other spaces own
    have hnew : ∀ {l v}, l ≠ i → w.spaces l = some v → ownsBlock d p →
        ¬ ownsBlock v p := fun hl hv hd hpv =>
      hpair.left.heap.apart p hd (.inr ⟨_, _, hl, hv, hpv⟩)
    by_cases hjn : j = w.count
    · subst hjn
      rw [w.add_self] at ht
      obtain rfl := Option.some.inj ht
      rw [w.add_of_ne (Ne.symm hjk)] at hu
      exact hnew hk' hu hp hpu
    · rw [w.add_of_ne hjn] at ht
      by_cases hkn : k = w.count
      · subst hkn
        rw [w.add_self] at hu
        obtain rfl := Option.some.inj hu
        exact hnew hj ht hpu hp
      · rw [w.add_of_ne hkn] at hu
        exact h.apart j k t u p hjk ht hu hp hpu

/-! ### Frames of shared memory objects -/

/-- Change what the shared memory objects hold. -/
def World.hold (w : World) (held : ℕ → ℕ) (m : Memory) : World := { w with held := held, memory := m }

/-- The references of all spaces together. -/
def World.mapped (w : World) (f : ℕ) : ℕ := ∑ j ∈ Finset.range w.count, refsOf (w.spaces j) f

theorem World.mapped_pos (w : World) {f : ℕ} (hj : j < w.count)
    (ht : w.spaces j = some t) (hf : 0 < refsIn t f) : 0 < w.mapped f := by
  have hle : refsOf (w.spaces j) f ≤ w.mapped f :=
    Finset.single_le_sum (f := fun k => refsOf (w.spaces k) f) (fun _ _ => zero_le _)
      (Finset.mem_range.2 hj)
  rw [ht, refsOf_some] at hle
  omega

theorem WorldOk.hold (h : WorldOk w) {held : ℕ → ℕ}
    (hmem : MemoryOk (fun f => w.mapped f + held f) w.owned m')
    (hk : Kept w.mapped w.owned w.memory m') : WorldOk (w.hold held m') :=
  ⟨h.bound, hmem, h.apart, fun j t ht =>
    (h.core j t ht).transfer (fun p n hp => hk.blocks p n ⟨j, t, ht, hp⟩)
      fun f hf => hk.data f (w.mapped_pos (h.bound j t ht) ht hf)⟩

/-! ### Operations and runs -/

/-- The operations of `kernel/vm.c`, each on one of the spaces, and the two things a shared memory
object does: make a frame and release one it holds. -/
inductive VmOp where
  | create
  | mapPage (i virtualAddress protection : ℕ)
  | mapSharedFrame (i virtualAddress frame protection : ℕ)
  | unmapPage (i virtualAddress : ℕ)
  | protect (i address size protection : ℕ)
  | markShared (i address size : ℕ)
  | copyToUser (i destination : ℕ) (source : List UInt8)
  | pageFault (i address errorCode : ℕ)
  | cloneCow (i : ℕ)
  | resetUser (i : ℕ)
  | destroy (i : ℕ)
  | holdFrame
  | dropFrame (frame : ℕ)

/-- Run an operation on space `i`, if there is one. -/
def World.onSpace (w : World) (i : ℕ) (f : VmSpace → Memory → VmSpace × Memory) : World :=
  match w.spaces i with
  | none => w
  | some s => w.put i (some (f s w.memory).1) (f s w.memory).2

def World.step (w : World) : VmOp → World
  | .create =>
    match vmSpaceCreate w.memory with
    | (false, _, m) => w.hold w.held m
    | (true, d, m) => w.add d m
  | .mapPage i va protection => w.onSpace i fun s m => (vmMapPage s va protection m).2
  | .mapSharedFrame i va frame protection =>
    w.onSpace i fun s m => (vmMapSharedFrame s va frame protection m).2
  | .unmapPage i va => w.onSpace i fun s m => (vmUnmapPage s va m).2
  | .protect i address size protection =>
    w.onSpace i fun s m => ((vmProtect s address size protection m).2, m)
  | .markShared i address size => w.onSpace i fun s m => ((vmMarkShared s address size m).2, m)
  | .copyToUser i destination source => w.onSpace i fun s m => (vmCopyToUser s destination source m).2
  | .pageFault i address errorCode =>
    w.onSpace i fun s m => (vmHandlePageFault s address errorCode m).2
  | .cloneCow i =>
    match w.spaces i with
    | none => w
    | some s =>
      match vmSpaceCloneCow s w.memory with
      | (false, _, s, m) => w.put i (some s) m
      | (true, d, s, m) => (w.add d m).put i (some s) m
  | .resetUser i => w.onSpace i fun s m => vmSpaceResetUser s m
  | .destroy i =>
    match w.spaces i with
    | none => w
    | some s => w.put i none (vmSpaceDestroy s w.memory).2
  | .holdFrame =>
    match vmFrameCreate w.memory with
    | (none, m) => w.hold w.held m
    | (some f, m) => w.hold (plusRef w.held f) m
  | .dropFrame f =>
    if 0 < w.held f then
      w.hold (update w.held f (w.held f - 1)) (vmFrameRelease f w.memory)
    else w

def World.run (w : World) (ops : List VmOp) : World := ops.foldl World.step w

/-- No space and no frame yet; what the heap will answer and what its memory contains is open. -/
def World.initial (choices : ℕ → Option ℕ) (bytes : ℕ → ℕ → UInt8) : World :=
  ⟨fun _ => none, 0, fun _ => 0, ⟨[], choices, 0, fun _ => none, bytes⟩⟩

theorem WorldOk.initial (choices : ℕ → Option ℕ) (bytes : ℕ → ℕ → UInt8) :
    WorldOk (World.initial choices bytes) := by
  refine ⟨?_, ⟨⟨List.Pairwise.nil, ?_⟩, ?_, ?_, ?_, ?_, ?_, ?_⟩, ?_, ?_⟩ <;>
    simp [World.initial, World.owned, World.total, frameReferences]

/-- What each space does is lifted by one lemma. -/
theorem WorldOk.onSpace (h : WorldOk w) (i : ℕ) {f : VmSpace → Memory → VmSpace × Memory}
    (hf : ∀ {ext E s m}, SpaceOk ext E s m → Runs ext E m (f s m).1 (f s m).2) :
    WorldOk (w.onSpace i f) := by
  unfold World.onSpace
  split
  · exact h
  · rename_i s hs
    have hr := hf (h.spaceOk hs)
    exact h.set (h.bound i s hs) hr.ok hr.kept

theorem vmMapSharedFrame_runs (h : SpaceOk ext E s m)
    (va f protection : ℕ) : Runs ext E m (vmMapSharedFrame s va f protection m).2.1
      (vmMapSharedFrame s va f protection m).2.2 := by
  obtain ⟨ok, s', m', he, hok, hk, _⟩ := vmMapSharedFrame_spec h va f protection
  rw [he]
  exact ⟨hok, hk⟩

theorem vmUnmapPage_runs (h : SpaceOk ext E s m)
    (va : ℕ) : Runs ext E m (vmUnmapPage s va m).2.1 (vmUnmapPage s va m).2.2 := by
  rcases vmUnmapPage_spec h va with ⟨he, _⟩ | ⟨p, s', _, he, hok, hrefs, _⟩
  · rw [he]
    exact ⟨h, Kept.refl ext E m⟩
  · rw [he]
    have hmem : MemoryOk (plusRef (fun f => refsIn s' f + ext f) p.frame)
        (fun q => ownsBlock s q ∨ E q) m := by
      rw [← plusRef_add_left, ← hrefs]
      exact h.heap.memory
    exact ⟨hok, Kept.release hmem (fun g => le_add_left _ _) fun _ hq => .inr hq⟩

theorem rewriteRange_runs {change : VmPage → VmPage}
    (hc : Retouch change) (h : SpaceOk ext E s m) (address size : ℕ) :
    Runs ext E m (rewriteRange s address size change m).2 m := by
  rcases rewriteRange_spec hc h address size with he | ⟨s', he, hok, _⟩
  · rw [he]
    exact ⟨h, Kept.refl ext E m⟩
  · rw [he]
    exact ⟨hok, Kept.refl ext E m⟩

theorem vmSpaceResetUser_runs (h : SpaceOk ext E s m) :
    Runs ext E m (vmSpaceResetUser s m).1 (vmSpaceResetUser s m).2 := by
  obtain ⟨s', m', he, hok, hk, _⟩ := vmSpaceResetUser_spec h
  rw [he]
  exact ⟨hok, hk⟩

section

variable (h : WorldOk w)

include h

theorem WorldOk.create : WorldOk (w.step .create) := by
  rw [World.step]
  rcases vmSpaceCreate_spec h.memory with ⟨m', he, hm, hs, hb⟩ | ⟨d, m', he, hok, hs, hb, _⟩
  · rw [he]
    exact h.hold hm (Kept.of_sameFrames hs hb)
  · rw [he]
    exact h.add hok (Kept.of_sameFrames hs hb)

theorem WorldOk.cloneCow (i : ℕ) : WorldOk (w.step (.cloneCow i)) := by
  rw [World.step]
  split
  · exact h
  rename_i s hs
  have hi := h.bound i s hs
  have hspec := vmSpaceCloneCow_spec (h.spaceOk hs)
  have hkept : ∀ {m'}, CloneKept (w.others i) (w.ownedOthers i) s w.memory m' →
      Kept (w.others i) (w.ownedOthers i) w.memory m' := fun hk =>
    ⟨fun f hf => hk.quiet.data f (Nat.add_pos_right _ hf), hk.blocks⟩
  generalize vmSpaceCloneCow s w.memory = r at hspec
  cases hspec with
  | done pair _ kept => exact h.addPair hi pair (hkept kept)
  | failed ok _ kept => exact h.set hi ok (hkept kept)

theorem WorldOk.destroy (i : ℕ) : WorldOk (w.step (.destroy i)) := by
  rw [World.step]
  split
  · exact h
  rename_i s hs
  obtain ⟨m', he, hm, hk, _⟩ := vmSpaceDestroy_spec (h.spaceOk hs)
  rw [he]
  exact h.remove (h.bound i s hs) hm hk

theorem WorldOk.holdFrame : WorldOk (w.step .holdFrame) := by
  rw [World.step]
  rcases vmFrameCreate_spec h.memory with ⟨m', he, hs, hb, hm⟩ | ⟨f, m', he, hc, hb, hm⟩
  · rw [he]
    exact h.hold hm (Kept.of_sameFrames hs hb)
  · rw [he]
    refine h.hold (hm.congr (fun g => ?_) fun _ => Iff.rfl) ⟨fun g hg => ?_, fun _ _ _ hp => hb hp⟩
    · exact congrFun (plusRef_add w.mapped w.held f) g
    · refine hc.frameData fun hgf => ?_
      -- a fresh frame is in no record
      obtain ⟨r, hr, _⟩ := h.memory.exists_of_pos (f := g) (Nat.add_pos_left hg _)
      rw [hgf, hc.fresh] at hr
      cases hr

theorem WorldOk.dropFrame (f : ℕ) : WorldOk (w.step (.dropFrame f)) := by
  rw [World.step]
  split
  · rename_i hf
    have hheld : plusRef (update w.held f (w.held f - 1)) f = w.held := by
      rw [plusRef, update_self, update_idem, Nat.sub_add_cancel hf, update_eq_self]
    have hplus : MemoryOk (plusRef (fun g => w.mapped g + update w.held f (w.held f - 1) g) f)
        w.owned w.memory := by
      rw [← plusRef_add, hheld]
      exact h.memory
    exact h.hold hplus.release (Kept.release hplus (fun g => le_add_right _ _) fun _ hp => hp)
  · exact h

/-- **One step**, whatever the operation and whether it succeeds or fails. -/
theorem WorldOk.step (op : VmOp) : WorldOk (w.step op) := by
  cases op with
  | create => exact h.create
  | mapPage i va protection => exact h.onSpace i fun hs => vmMapPage_runs hs va protection
  | mapSharedFrame i va f protection =>
    exact h.onSpace i fun hs => vmMapSharedFrame_runs hs va f protection
  | unmapPage i va => exact h.onSpace i fun hs => vmUnmapPage_runs hs va
  | protect i address size protection =>
    exact h.onSpace i (f := fun s m => ((vmProtect s address size protection m).2, m))
      fun {_ _ _ m} hs => rewriteRange_runs (retouch_protectPage m protection) hs address size
  | markShared i address size =>
    exact h.onSpace i (f := fun s m => ((vmMarkShared s address size m).2, m))
      fun hs => rewriteRange_runs retouch_sharePage hs address size
  | copyToUser i destination source =>
    exact h.onSpace i fun hs => vmCopyToUser_runs hs destination source
  | pageFault i address code => exact h.onSpace i fun hs => vmHandlePageFault_runs hs address code
  | cloneCow i => exact h.cloneCow i
  | resetUser i => exact h.onSpace i fun hs => vmSpaceResetUser_runs hs
  | destroy i => exact h.destroy i
  | holdFrame => exact h.holdFrame
  | dropFrame f => exact h.dropFrame f

/-- **Every run** keeps the world well formed. -/
theorem WorldOk.run (ops : List VmOp) : WorldOk (w.run ops) := by
  induction ops generalizing w with
  | nil => exact h
  | cons op ops ih => exact ih (h.step op)

end

/-! ### The processor sees the records -/

theorem SpaceOk.userLeaf_isSome_iff {a : ℕ}
    (h : SpaceOk ext E s m) (ha : CanonicalUserAddress a) (halign : a % 4096 = 0) :
    (userLeaf s a).isSome ↔ ∃ e, UsedRecord s e ∧ (s.pages e).virtualAddress = a := by
  rw [h.userLeaf_eq ha.1, Option.isSome_map, Option.isSome_iff_exists]
  simp only [pageAt_iff h.records, alignDown_eq halign]
  constructor
  · rintro ⟨page, e, hu, rfl, hva⟩
    exact ⟨e, hu, hva⟩
  · rintro ⟨e, hu, hva⟩
    exact ⟨_, e, hu, rfl, hva⟩

theorem SpaceOk.userLeaf_bits {a e leaf : ℕ}
    (h : SpaceOk ext E s m) (ha : CanonicalUserAddress a) (hleaf : userLeaf s a = some leaf)
    (hu : UsedRecord s e) (hva : (s.pages e).virtualAddress = a) :
    addressBits leaf = frameData m (s.pages e).frame ∧
      (leaf.testBit 1 = (canWrite (s.pages e).protection && !(s.pages e).copyOnWrite)) ∧
      leaf.testBit 63 = !canExec (s.pages e).protection := by
  have hpage : pageAt s a = some (s.pages e) := hva ▸ pageAt_used h.records hu
  rw [h.userLeaf_eq ha.1, hpage] at hleaf
  obtain rfl := Option.some.inj hleaf
  obtain ⟨halign, hlt⟩ := h.frame_page hpage
  obtain ⟨_, _, haddr, hwrite, hexec⟩ := leafEntry_bits halign hlt
  exact ⟨haddr, hwrite, hexec⟩

/-- **Hardware view equals bookkeeping.**  In every space of every run, the four-level walk of a
user page ends in a present user leaf exactly when a used record names that page; the leaf has the
record's frame, may be written exactly when the record is writable and not copy-on-write, and may
not be executed exactly when the record lacks that permission. -/
theorem userLeaf_iff_record (choices : ℕ → Option ℕ) (bytes : ℕ → ℕ → UInt8) (ops : List VmOp)
    {i : ℕ} {s : VmSpace} (hs : ((World.initial choices bytes).run ops).spaces i = some s) {a : ℕ}
    (ha : CanonicalUserAddress a) (halign : a % 4096 = 0) :
    ((userLeaf s a).isSome ↔ ∃ e, UsedRecord s e ∧ (s.pages e).virtualAddress = a) ∧
    ∀ leaf e, userLeaf s a = some leaf → UsedRecord s e → (s.pages e).virtualAddress = a →
      addressBits leaf = frameData ((World.initial choices bytes).run ops).memory (s.pages e).frame ∧
      (leaf.testBit 1 = true ↔
        canWrite (s.pages e).protection = true ∧ (s.pages e).copyOnWrite = false) ∧
      (leaf.testBit 63 = true ↔ canExec (s.pages e).protection = false) := by
  have h := ((WorldOk.initial choices bytes).run ops).spaceOk hs
  refine ⟨h.userLeaf_isSome_iff ha halign, fun leaf e hleaf hu hva => ?_⟩
  obtain ⟨haddr, hwrite, hexec⟩ := h.userLeaf_bits ha hleaf hu hva
  rw [hwrite, hexec]
  simp [haddr]

/-- A heap that hands out blocks 32 KiB apart. -/
def stridedChoices (n : ℕ) : Option ℕ := some (heapStart + 4096 + n * 32768)

theorem userLeaf_iff_record_mapped : ∃ s,
    ((World.initial stridedChoices fun _ _ => 0).run
      [.create, .mapPage 0 vmUserBase 3]).spaces 0 = some s ∧
    ((userLeaf s vmUserBase).isSome ↔ ∃ e, UsedRecord s e ∧ (s.pages e).virtualAddress = vmUserBase) :=
  ⟨_, rfl, (userLeaf_iff_record stridedChoices (fun _ _ => 0) [.create, .mapPage 0 vmUserBase 3]
    (i := 0) rfl (by decide) (by decide)).1⟩

/-! ### The index finds the records -/

theorem RecordsOk.slot_unique {s : VmSpace} {e : ℕ} (h : RecordsOk s) (hu : UsedRecord s e) :
    ∃! j, j < vmPageHashSize ∧ s.pageLookup j = (e : ℤ) + 1 := by
  obtain ⟨d, -, hslot, -⟩ := h.index.reach e _ (homeOf_some hu)
  refine ⟨_, ⟨mod_lt _ (by decide), hslot⟩, fun j hj => ?_⟩
  exact h.index.once _ _ e hj.1 (mod_lt _ (by decide)) hj.2 hslot

/-- **The page index represents the records.**  In every space of every run, `find_page` returns the one
used record of the page, or nothing if there is none; a used record has one slot, and a slot that points
at a record points at a used one. -/
theorem pageIndex_represents (choices : ℕ → Option ℕ) (bytes : ℕ → ℕ → UInt8) (ops : List VmOp)
    {i : ℕ} {s : VmSpace} (hs : ((World.initial choices bytes).run ops).spaces i = some s) :
    (∀ a e, findPage s a = some e ↔ UsedRecord s e ∧ (s.pages e).virtualAddress = alignDown a) ∧
    (∀ a, findPage s a = none ↔ ∀ e, UsedRecord s e → (s.pages e).virtualAddress ≠ alignDown a) ∧
    (∀ e e', UsedRecord s e → UsedRecord s e' →
      (s.pages e).virtualAddress = (s.pages e').virtualAddress → e = e') ∧
    (∀ e, UsedRecord s e → ∃! j, j < vmPageHashSize ∧ s.pageLookup j = (e : ℤ) + 1) ∧
    ∀ j < vmPageHashSize, 0 < s.pageLookup j → UsedRecord s ((s.pageLookup j).toNat - 1) := by
  have h := (((WorldOk.initial choices bytes).run ops).spaceOk hs).records
  refine ⟨fun a e => findPage_iff h, fun a => findPage_none_iff h, h.distinct,
    fun e => h.slot_unique, fun j hj hpos => ?_⟩
  exact homeOf_isSome.1 (h.index.owned j _ hj (by omega))

/-- Of two pages the first is unmapped again, so that a slot is left behind. -/
def twoPages : List VmOp :=
  [.create, .mapPage 0 vmUserBase 3, .mapPage 0 (vmUserBase + 4096) 3, .unmapPage 0 vmUserBase]

theorem pageIndex_represents_mapped : ∃ s,
    ((World.initial stridedChoices fun _ _ => 0).run twoPages).spaces 0 = some s ∧
    findPage s vmUserBase = none ∧ UsedRecord s 1 ∧ findPage s (vmUserBase + 4096) = some 1 := by
  have hrun : ∃ s, ((World.initial stridedChoices fun _ _ => 0).run twoPages).spaces 0 = some s ∧
      (findPage s vmUserBase = none ∧ UsedRecord s 1 ∧
        (s.pages 1).virtualAddress = alignDown (vmUserBase + 4096)) := ⟨_, rfl, by decide +kernel⟩
  obtain ⟨s, hs, hnone, hused, haddress⟩ := hrun
  exact ⟨s, hs, hnone, hused,
    ((pageIndex_represents stridedChoices (fun _ _ => 0) twoPages hs).1 _ _).2 ⟨hused, haddress⟩⟩

/-- **Frames are accounted for**, whatever fails on the way: the references of a frame are the records that
point at it and the holds on it, it is live exactly while there is one, and no two have the same page. -/
theorem frames_accounted (choices : ℕ → Option ℕ) (bytes : ℕ → ℕ → UInt8) (ops : List VmOp) :
    let w := (World.initial choices bytes).run ops
    (∀ f, frameReferences w.memory f = w.total f) ∧
    (∀ f, (∃ r, w.memory.frames f = some r) ↔ 0 < w.total f) ∧
    (∀ f g r r', w.memory.frames f = some r → w.memory.frames g = some r' → r.data = r'.data → f = g) ∧
    ((∀ i, w.spaces i = none) → (∀ f, w.held f = 0) → ∀ f, w.memory.frames f = none) := by
  intro w
  have h : WorldOk w := (WorldOk.initial choices bytes).run ops
  have hlive : ∀ f, (∃ r, w.memory.frames f = some r) ↔ 0 < w.total f := by
    refine fun f => ⟨fun hr => ?_, fun hpos => (h.memory.exists_of_pos hpos).imp fun _ hr => hr.1⟩
    obtain ⟨r, hr⟩ := hr
    rw [← h.memory.counts f, frameReferences, hr]
    exact h.memory.positive f r hr
  refine ⟨h.memory.counts, hlive, fun f g r r' => h.memory.data_inj, fun hnone hheld f => ?_⟩
  rw [Option.eq_none_iff_forall_ne_some]
  intro r hr
  have hpos := (hlive f).1 ⟨r, hr⟩
  simp [World.total, hnone, hheld] at hpos

end NovaOS.Vm
