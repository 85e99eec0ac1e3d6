import NovaOS.Process.Mmap

/-!
# Fork isolation

Any number of spaces in one memory, under any sequence of calls and user stores, show user code
what the abstract machine shows, in which every space has memory of its own.

The invariant is `IsolatedWorld`: frames are either shared by everybody who maps them or by
nobody, and a private page that may be written in place has a frame with one reference in the
whole system.  An operation on one space is `Confined` in the environment of the others, and one
lemma lifts that to the world (`IsolatedWorld.put`); a clone is the one operation that makes two
spaces at once (`IsolatedWorld.clone`).

* `World.userStep`, `World.userRun` — the calls, with their results;
* `hardwareView` — what the processor lets user code read;
* `fork_isolation` — **every run is a run of the abstract machine**;
* `writes_alone` — what a space may write is mapped nowhere else.
-/

namespace NovaOS.Vm

open NovaOS.Process Function Nat Option Bool

/-! ### The system -/

/-- A call on space `i`. -/
def World.call (w : World) (i : ℕ) (f : VmSpace → Memory → Bool × VmSpace × Memory) : Bool × World :=
  match w.spaces i with
  | none => (false, w)
  | some s =>
    match f s w.memory with
    | (ok, s, m) => (ok, w.put i (some s) m)

def World.userStep (w : World) : UserOp → Bool × World
  | .create =>
    match vmSpaceCreate w.memory with
    | (false, _, m) => (false, w.hold w.held m)
    | (true, d, m) => (true, w.add d m)
  | .mapPage i va protection => w.call i fun s m => vmMapPage s va protection m
  | .unmapPage i va => w.call i fun s m => vmUnmapPage s va m
  | .protect i address size protection => w.call i fun s m =>
    match vmProtect s address size protection m with
    | (ok, s) => (ok, s, m)
  | .cloneCow i =>
    match w.spaces i with
    | none => (false, w)
    | some s =>
      match vmSpaceCloneCow s w.memory with
      | (false, _, s, m) => (false, w.put i (some s) m)
      | (true, d, s, m) => (true, (w.add d m).put i (some s) m)
  | .copyToUser i destination source => w.call i fun s m => vmCopyToUser s destination source m
  | .store i address input => w.call i fun s m => userStore 2 s address input m
  | .mmap i requested size protection flags hint => w.call i fun s m =>
    match mmapAnonymous s requested size protection flags hint m with
    | (.ok _, s, m) => (true, s, m)
    | (.error _, s, m) => (false, s, m)
  | .destroy i =>
    match w.spaces i with
    | none => (false, w)
    | some s => (true, w.put i none (vmSpaceDestroy s w.memory).2)

/-- The calls with their results, and the state they end in. -/
def World.userRun (w : World) : List UserOp → List (UserOp × Bool) × World
  | [] => ([], w)
  | op :: ops =>
    match w.userStep op with
    | (ok, w) =>
      match w.userRun ops with
      | (results, w) => ((op, ok) :: results, w)

/-- What user code reads through the page tables; the record only says whether the page is one of
those that were mapped shared. -/
def hardwareView (s : VmSpace) (m : Memory) (a : ℕ) : Option PageView :=
  (userLeaf s a).map fun leaf =>
    if (pageAt s a).any VmPage.shared then .shared else .own (m.bytes (addressBits leaf))

theorem SpaceOk.hardwareView_eq {ext : ℕ → ℕ} {E : ℕ → Prop} {s : VmSpace} {m : Memory} {a : ℕ}
    (h : SpaceOk ext E s m) (ha : a < 2 ^ 47) : hardwareView s m a = view s m a := by
  rw [hardwareView, h.userLeaf_eq ha, view]
  cases hp : pageAt s a with
  | none => rfl
  | some p =>
    obtain ⟨halign, hlt⟩ := h.frame_page hp
    simp only [map_some, any_some, pageView, (leafEntry_bits halign hlt).2.2.1]

/-! ### The invariant -/

structure IsolatedWorld (w : World) : Prop where
  ok : WorldOk w
  held : w.held = fun _ => 0
  flags : ∀ i j s t a b p q, w.spaces i = some s → w.spaces j = some t → pageAt s a = some p →
    pageAt t b = some q → p.frame = q.frame → p.shared = q.shared
  alone : ∀ i s a p, w.spaces i = some s → pageAt s a = some p → Exclusive p → w.total p.frame = 1
  cow : ∀ i s a p, w.spaces i = some s → pageAt s a = some p → p.copyOnWrite = true →
    p.shared = false

/-- The frames that other spaces have in shared pages. -/
def World.sharedOthers (w : World) (i f : ℕ) : Prop :=
  ∃ j t a p, j ≠ i ∧ w.spaces j = some t ∧ pageAt t a = some p ∧ p.frame = f ∧ p.shared = true

/-- The machine a world looks like. -/
def World.machine (w : World) : Machine :=
  ⟨fun i => (w.spaces i).map fun s => view s w.memory, w.count⟩

theorem World.machine_none (w : World) {j : ℕ} (h : w.spaces j = none) :
    w.machine.spaces j = none := by
  rw [World.machine]
  simp only [h, map_none]

theorem World.machine_some (w : World) {j : ℕ} {t : VmSpace} (h : w.spaces j = some t) :
    w.machine.spaces j = some (view t w.memory) := by
  rw [World.machine]
  simp only [h, map_some]

theorem World.machine_eq (w : World) {M : Machine} (hcount : w.count = M.count)
    (hnone : ∀ j, w.spaces j = none → M.spaces j = none)
    (hsome : ∀ j t, w.spaces j = some t → M.spaces j = some (view t w.memory)) : w.machine = M := by
  refine Machine.ext (funext fun j => ?_) hcount
  cases ht : w.spaces j with
  | none => rw [w.machine_none ht, hnone j ht]
  | some t => rw [w.machine_some ht, hsome j t ht]

theorem World.machine_put (w : World) {i : ℕ} {o : Option VmSpace} {m' : Memory}
    (hview : ∀ j t, j ≠ i → w.spaces j = some t → view t m' = view t w.memory) :
    (w.put i o m').machine = { w.machine with
      spaces := update w.machine.spaces i (o.map fun s => view s m') } := by
  refine World.machine_eq _ rfl (fun j hj => ?_) fun j t hj => ?_
  · by_cases hji : j = i
    · subst hji
      rw [w.put_self] at hj
      simp only [update_self, hj, map_none]
    · rw [w.put_of_ne hji] at hj
      simp only [update_of_ne hji, w.machine_none hj]
  · by_cases hji : j = i
    · subst hji
      rw [w.put_self] at hj
      simp only [update_self, hj, map_some, w.put_memory]
    · rw [w.put_of_ne hji] at hj
      simp only [update_of_ne hji, w.machine_some hj, w.put_memory, hview j t hji hj]

theorem World.machine_add (w : World) {d : VmSpace} {m' : Memory}
    (hview : ∀ j t, w.spaces j = some t → view t m' = view t w.memory) :
    (w.add d m').machine = w.machine.add (view d m') := by
  refine World.machine_eq _ rfl (fun j hj => ?_) fun j t hj => ?_
  · by_cases hn : j = w.count
    · subst hn
      rw [w.add_self] at hj
      cases hj
    · rw [w.add_of_ne hn] at hj
      have hne : j ≠ w.machine.count := hn
      simp only [Machine.add, update_of_ne hne, w.machine_none hj]
  · by_cases hn : j = w.count
    · subst hn
      rw [w.add_self] at hj
      rw [← some.inj hj]
      exact update_self w.machine.count (some (view d m')) w.machine.spaces
    · rw [w.add_of_ne hn] at hj
      have hne : j ≠ w.machine.count := hn
      simp only [Machine.add, update_of_ne hne, w.machine_some hj]
      rw [← hview j t hj]
      rfl

variable {w w' : World} {i j b : ℕ} {s s' d t : VmSpace} {m' : Memory} {q : VmPage}

theorem exists_page_of_refs {f : ℕ} (h : RecordsOk s) (hf : 0 < refsIn s f) :
    ∃ a p, pageAt s a = some p ∧ p.frame = f := by
  obtain ⟨e, he, hp⟩ := exists_of_countBelow_pos hf
  simp only [pointsAt, and_eq_true, beq_iff_eq] at hp
  exact ⟨_, _, pageAt_used h ⟨he, hp.1⟩, hp.2⟩

section

variable (h : IsolatedWorld w)

include h

/-- A reference from outside is a page of another space. -/
theorem IsolatedWorld.exists_of_others {f : ℕ} (hf : 0 < w.others i f) :
    ∃ j t a p, j ≠ i ∧ w.spaces j = some t ∧ pageAt t a = some p ∧ p.frame = f := by
  rw [World.others, h.held, add_zero] at hf
  obtain ⟨j, hj, hpos⟩ := Finset.exists_ne_zero_of_sum_ne_zero hf.ne'
  cases ht : w.spaces j with
  | none =>
    rw [ht, refsOf_none] at hpos
    exact absurd rfl hpos
  | some t =>
    rw [ht, refsOf_some] at hpos
    obtain ⟨a, p, hp, hframe⟩ := exists_page_of_refs (h.ok.core j t ht).records (pos_of_ne_zero hpos)
    exact ⟨j, t, a, p, (Finset.mem_erase.1 hj).1, ht, hp, hframe⟩

/-- A page of another space is a reference from outside. -/
theorem IsolatedWorld.others_pos
    (hj : j ≠ i) (ht : w.spaces j = some t) (hq : pageAt t b = some q) : 0 < w.others i q.frame :=
  w.others_pos (h.ok.bound j t ht) hj ht ((h.ok.spaceOk ht).page_pos hq)

/-- The flag of a page of another space says whether its frame is shared there. -/
theorem IsolatedWorld.sharedOthers_iff
    (hj : j ≠ i) (ht : w.spaces j = some t) (hq : pageAt t b = some q) :
    q.shared = true ↔ w.sharedOthers i q.frame := by
  constructor
  · intro hs
    exact ⟨j, t, b, q, hj, ht, hq, rfl, hs⟩
  · rintro ⟨k, u, c, r, _, hu, hr, hframe, hs⟩
    rw [h.flags j k t u b c q r ht hu hq hr hframe.symm]
    exact hs

theorem IsolatedWorld.iso (hs : w.spaces i = some s) :
    Iso (w.others i) (w.sharedOthers i) s := by
  refine ⟨?_, fun a b p q => h.flags i i s s a b p q hs hs, ?_, fun a p => h.cow i s a p hs⟩
  · intro a p hp hpos
    obtain ⟨j, t, b, q, hj, ht, hq, hframe⟩ := h.exists_of_others hpos
    rw [h.flags i j s t a b p q hs ht hp hq hframe.symm, ← hframe]
    exact h.sharedOthers_iff hj ht hq
  · intro a p hp hx
    have htotal := h.alone i s a p hs hp hx
    rwa [w.total_eq (h.ok.bound i s hs), hs, refsOf_some] at htotal

/-! ### One space moves -/

/-- The pages of the others show what they showed. -/
theorem IsolatedWorld.view_other
    (hq : Quiet (fun f => 0 < w.others i f ∧ ¬ w.sharedOthers i f) w.memory m')
    (hj : j ≠ i) (ht : w.spaces j = some t) : view t m' = view t w.memory := by
  funext b
  rw [view, view]
  cases hp : pageAt t b with
  | none => rfl
  | some p =>
    rw [map_some, map_some]
    cases hs : p.shared with
    | true => rw [pageView, pageView, hs]; rfl
    | false =>
      have hlive : 0 < w.others i p.frame ∧ ¬ w.sharedOthers i p.frame := by
        refine ⟨h.others_pos hj ht hp, fun hsh => ?_⟩
        rw [(h.sharedOthers_iff hj ht hp).2 hsh] at hs
        cases hs
      rw [pageView_quiet hq hlive]

/-- What others may write in place stays theirs alone. -/
theorem IsolatedWorld.alone_other (hs : w.spaces i = some s) (refs : ℕ → ℕ)
    (hgrab : ∀ f, 0 < w.others i f → ¬ w.sharedOthers i f → refs f ≤ refsIn s f)
    (hj : j ≠ i) (ht : w.spaces j = some t)
    (hq : pageAt t b = some q) (hx : Exclusive q) : refs q.frame + w.others i q.frame = 1 := by
  have hpos := h.others_pos hj ht hq
  have htotal := h.alone j t b q ht hq hx
  rw [w.total_eq (h.ok.bound i s hs), hs, refsOf_some] at htotal
  have hle := hgrab q.frame hpos fun hsh => by
    have := (h.sharedOthers_iff hj ht hq).2 hsh
    rw [hx.1] at this
    cases this
  omega

/-- **Lifting.**  A confined change of space `i` keeps the invariant and shows only in space `i`. -/
theorem IsolatedWorld.put (hs : w.spaces i = some s)
    (hc : Confined (w.others i) (w.ownedOthers i) (w.sharedOthers i) s w.memory s' m') :
    IsolatedWorld (w.put i (some s') m') ∧ (w.put i (some s') m').machine =
      { w.machine with spaces := update w.machine.spaces i (some (view s' m')) } := by
  have hi := h.ok.bound i s hs
  have htotal : ∀ f, (w.put i (some s') m').total f = refsIn s' f + w.others i f := by
    intro f
    rw [(w.put i (some s') m').total_eq (i := i) hi, w.put_self, refsOf_some, w.put_others]
  -- the flag of a page of the changed space against one of another space
  have hflag : ∀ {a p j t b q}, pageAt s' a = some p → j ≠ i → w.spaces j = some t →
      pageAt t b = some q → p.frame = q.frame → p.shared = q.shared := by
    intro a p j t b q hp hj ht hq hframe
    have h1 := hc.iso.outside a p hp (by rw [hframe]; exact h.others_pos hj ht hq)
    rw [hframe, ← h.sharedOthers_iff hj ht hq] at h1
    exact eq_iff_iff.2 h1
  refine ⟨⟨h.ok.set hi hc.ok hc.kept, h.held, ?_, ?_, ?_⟩, ?_⟩
  · intro j k t u a b p q ht hu hp hq hframe
    by_cases hj : j = i
    · subst hj
      rw [w.put_self] at ht
      obtain rfl := some.inj ht
      by_cases hk : k = j
      · subst hk
        rw [w.put_self] at hu
        obtain rfl := some.inj hu
        exact hc.iso.inside a b p q hp hq hframe
      · rw [w.put_of_ne hk] at hu
        exact hflag hp hk hu hq hframe
    · rw [w.put_of_ne hj] at ht
      by_cases hk : k = i
      · subst hk
        rw [w.put_self] at hu
        obtain rfl := some.inj hu
        exact (hflag hq hj ht hp hframe.symm).symm
      · rw [w.put_of_ne hk] at hu
        exact h.flags j k t u a b p q ht hu hp hq hframe
  · intro j t b q ht hq hx
    rw [htotal]
    by_cases hj : j = i
    · subst hj
      rw [w.put_self] at ht
      obtain rfl := some.inj ht
      exact hc.iso.alone b q hq hx
    · rw [w.put_of_ne hj] at ht
      exact h.alone_other hs (refsIn s') hc.grab hj ht hq hx
  · intro j t b q ht hq
    by_cases hj : j = i
    · subst hj
      rw [w.put_self] at ht
      obtain rfl := some.inj ht
      exact hc.iso.cow b q hq
    · rw [w.put_of_ne hj] at ht
      exact h.cow j t b q ht hq
  · exact w.machine_put fun j t hj ht => h.view_other hc.quiet hj ht

/-! ### Spaces come and go -/

/-- A world all of whose pages have the frame and the flag of a page there was before. -/
theorem IsolatedWorld.derive (hok : WorldOk w') (hheld : w'.held = fun _ => 0)
    (hpages : ∀ k t b q, w'.spaces k = some t → pageAt t b = some q →
      (q.copyOnWrite = true → q.shared = false) ∧ (Exclusive q → w'.total q.frame = 1) ∧
      ∃ j s a p, w.spaces j = some s ∧ pageAt s a = some p ∧ q.frame = p.frame ∧
        q.shared = p.shared) : IsolatedWorld w' := by
  refine ⟨hok, hheld, ?_, fun i s a p hs hp => (hpages i s a p hs hp).2.1,
    fun i s a p hs hp => (hpages i s a p hs hp).1⟩
  intro i j s t a b p q hs ht hp hq hframe
  obtain ⟨_, _, i', s₀, a', p₀, hs₀, hp₀, hf, hsh⟩ := hpages i s a p hs hp
  obtain ⟨_, _, j', t₀, b', q₀, ht₀, hq₀, hf', hsh'⟩ := hpages j t b q ht hq
  rw [hsh, hsh']
  exact h.flags i' j' s₀ t₀ a' b' p₀ q₀ hs₀ ht₀ hp₀ hq₀ (by rw [← hf, ← hf', hframe])

/-- The same spaces with the same counts over another memory. -/
theorem IsolatedWorld.hold (hok : WorldOk (w.hold w.held m')) :
    IsolatedWorld (w.hold w.held m') :=
  ⟨hok, h.held, h.flags, h.alone, h.cow⟩

/-- **A space ends.** -/
theorem IsolatedWorld.remove (hs : w.spaces i = some s)
    (hok : WorldOk (w.put i none m')) : IsolatedWorld (w.put i none m') := by
  refine h.derive hok h.held fun k t b q ht hq => ?_
  have hk : k ≠ i := by
    rintro rfl
    rw [w.put_self] at ht
    cases ht
  rw [w.put_of_ne hk] at ht
  refine ⟨h.cow k t b q ht hq, fun hx => ?_, k, t, b, q, ht, hq, rfl, rfl⟩
  rw [(w.put i none m').total_eq (i := i) (h.ok.bound i s hs), w.put_self, refsOf_none, w.put_others]
  exact h.alone_other hs (fun _ => 0) (fun _ _ _ => zero_le _) hk ht hq hx

/-- **An empty space appears.** -/
theorem IsolatedWorld.add (hok : WorldOk (w.add d m'))
    (hempty : ∀ a, pageAt d a = none) (hrefs : refsIn d = fun _ => 0) :
    IsolatedWorld (w.add d m') := by
  refine h.derive hok h.held fun k t b q ht hq => ?_
  have hk : k ≠ w.count := by
    rintro rfl
    rw [w.add_self] at ht
    rw [← some.inj ht, hempty] at hq
    cases hq
  rw [w.add_of_ne hk] at ht
  refine ⟨h.cow k t b q ht hq, fun hx => ?_, k, t, b, q, ht, hq, rfl, rfl⟩
  rw [(w.add d m').total_eq (i := w.count) (lt_succ_self _), w.add_self, refsOf_some, hrefs,
    w.add_others_new, zero_add]
  exact h.alone k t b q ht hq hx

end

theorem markPage_shared (p : VmPage) : (markPage p).shared = p.shared := by
  unfold markPage; split <;> rfl

/-- After `vm_space_clone_cow` has passed a page it is never written in place. -/
theorem markPage_not_exclusive (p : VmPage) : ¬ Exclusive (markPage p) := by
  rintro ⟨hs, hw, hc⟩
  unfold markPage at hs hw hc
  by_cases hb : becomesCow p = true
  · rw [if_pos hb] at hc
    cases hc
  · rw [if_neg hb] at hs hw
    exact hb (by rw [becomesCow, hs, hw]; rfl)

theorem clonePage_not_exclusive (p : VmPage) : ¬ Exclusive (clonePage p) := by
  rintro ⟨hs, hw, hc⟩
  simp only [clonePage] at hs hw hc
  rw [becomesCow, hs, hw] at hc
  cases hc

theorem markPage_cow {p : VmPage} (hp : p.copyOnWrite = true → p.shared = false)
    (hc : (markPage p).copyOnWrite = true) : (markPage p).shared = false := by
  rw [markPage_shared]
  unfold markPage at hc
  split at hc
  · rename_i hb
    simp only [becomesCow, and_eq_true, not_eq_true'] at hb
    exact hb.1
  · exact hp hc

theorem clonePage_cow {p : VmPage} (hc : (clonePage p).copyOnWrite = true) :
    (clonePage p).shared = false := by
  simp only [clonePage, becomesCow, and_eq_true, not_eq_true'] at hc
  exact hc.1

/-- The marks of `vm_space_clone_cow` do not show. -/
theorem view_marked {m : Memory}
    (hat : ∀ b, pageAt s' b = pageAt s b ∨ pageAt s' b = (pageAt s b).map markPage) :
    view s' m = view s m := by
  funext b
  rw [view, view]
  rcases hat b with hb | hb
  · rw [hb]
  · rw [hb]
    cases pageAt s b with
    | none => rfl
    | some p =>
      rw [map_some, map_some, map_some, pageView, pageView, markPage_shared, markPage_frame]

/-- **A clone appears.**  No page of the two spaces is written in place any more, and the clone's
frames were the source's. -/
theorem IsolatedWorld.clone (h : IsolatedWorld w) (hs : w.spaces i = some s)
    (hok : WorldOk ((w.add d m').put i (some s') m'))
    (hat : ∀ b, pageAt s' b = (pageAt s b).map markPage ∧ pageAt d b = (pageAt s b).map clonePage)
    (hd : RecordsOk d) (hrefs : refsIn s' = refsIn s) :
    IsolatedWorld ((w.add d m').put i (some s') m') := by
  have hi := h.ok.bound i s hs
  refine h.derive hok h.held fun k t b q ht hq => ?_
  by_cases hk : k = i
  · subst hk
    rw [World.put_self] at ht
    rw [← some.inj ht, (hat b).1] at hq
    obtain ⟨p, hp, rfl⟩ := map_eq_some_iff.1 hq
    exact ⟨markPage_cow (h.cow k s b p hs hp), fun hx => absurd hx (markPage_not_exclusive p),
      k, s, b, p, hs, hp, markPage_frame p, markPage_shared p⟩
  rw [World.put_of_ne _ hk] at ht
  by_cases hn : k = w.count
  · subst hn
    rw [w.add_self] at ht
    rw [← some.inj ht, (hat b).2] at hq
    obtain ⟨p, hp, rfl⟩ := map_eq_some_iff.1 hq
    exact ⟨clonePage_cow, fun hx => absurd hx (clonePage_not_exclusive p), i, s, b, p, hs, hp, rfl, rfl⟩
  rw [w.add_of_ne hn] at ht
  refine ⟨h.cow k t b q ht hq, fun hx => ?_, k, t, b, q, ht, hq, rfl, rfl⟩
  have hold := h.alone_other hs (refsIn s) (fun _ _ _ => le_rfl) hk ht hq hx
  have hpos := h.others_pos hk ht hq
  -- the source does not have this frame, so neither does the clone
  have hclone : refsIn d q.frame = 0 := by
    by_contra hne
    obtain ⟨a, r, hr, hframe⟩ := exists_page_of_refs hd (pos_of_ne_zero hne)
    rw [(hat a).2] at hr
    obtain ⟨p, hp, rfl⟩ := map_eq_some_iff.1 hr
    have hsource : 0 < refsIn s p.frame := (h.ok.spaceOk hs).page_pos hp
    have : p.frame = q.frame := hframe
    rw [this] at hsource
    omega
  rw [((w.add d m').put i (some s') m').total_eq (i := i) (lt_succ_of_lt hi), World.put_self,
    refsOf_some, World.put_others, w.add_others_old hi, hrefs, hclone, zero_add]
  exact hold

/-! ### One step -/

theorem World.machine_modify (w : World) (hs : w.spaces i = some s) (g : SpaceView → SpaceView) :
    w.machine.modify i g =
      { w.machine with spaces := update w.machine.spaces i (some (g (view s w.memory))) } := by
  rw [Machine.modify, w.machine_some hs, map_some]

theorem World.machine_same (w : World) (hs : w.spaces i = some s) :
    { w.machine with spaces := update w.machine.spaces i (some (view s w.memory)) } = w.machine := by
  rw [← w.machine_some hs, update_eq_self]

section

variable (h : IsolatedWorld w)

include h

/-- **A call on one space.**  What the call does to the view is all that is left to say. -/
theorem IsolatedWorld.call {op : UserOp}
    {f : VmSpace → Memory → Bool × VmSpace × Memory}
    (hf : ∀ {ext E sh s}, w.spaces i = some s → SpaceOk ext E s w.memory → Iso ext sh s →
      ∃ ok s' m', f s w.memory = (ok, s', m') ∧ Confined ext E sh s w.memory s' m' ∧
        AbstractStep w.machine op ok
          { w.machine with spaces := update w.machine.spaces i (some (view s' m')) }) :
    IsolatedWorld (w.call i f).2 ∧ AbstractStep w.machine op (w.call i f).1 (w.call i f).2.machine := by
  rw [World.call]
  cases hs : w.spaces i with
  | none => exact ⟨h, .failed op⟩
  | some s =>
    obtain ⟨ok, s', m', he, hc, hstep⟩ := hf hs (h.ok.spaceOk hs) (h.iso hs)
    simp only [he]
    obtain ⟨hiso, hmachine⟩ := h.put hs hc
    exact ⟨hiso, hmachine ▸ hstep⟩

theorem IsolatedWorld.create_step :
    IsolatedWorld (w.userStep .create).2 ∧
      AbstractStep w.machine .create (w.userStep .create).1 (w.userStep .create).2.machine := by
  have hview : ∀ {m'}, SameFrames w.memory m' → ∀ t, view t m' = view t w.memory := by
    intro m' hsame t
    have hq : Quiet (fun _ => True) w.memory m' := Quiet.of_sameFrames hsame
    exact view_of_quiet hq fun _ _ _ => trivial
  have hok := h.ok.create
  rw [World.step] at hok
  rw [World.userStep]
  rcases vmSpaceCreate_spec h.ok.memory with
    ⟨m', he, _, hsame, _⟩ | ⟨d, m', he, _, hsame, _, hrefs, hempty⟩
  · rw [he] at hok ⊢
    refine ⟨h.hold hok, ?_⟩
    have hmachine : (w.hold w.held m').machine = w.machine :=
      World.machine_eq _ rfl (fun j hj => w.machine_none hj) fun j t hj => by
        rw [w.machine_some hj, ← hview hsame t]
        rfl
    simp only [hmachine]
    exact .failed _
  · rw [he] at hok ⊢
    refine ⟨h.add hok hempty hrefs, ?_⟩
    have hnone : view d m' = fun _ => none := funext fun a => by rw [view, hempty]; rfl
    simp only [w.machine_add fun j t _ => hview hsame t, hnone]
    exact .create

theorem IsolatedWorld.destroy_step (i : ℕ) :
    IsolatedWorld (w.userStep (.destroy i)).2 ∧
      AbstractStep w.machine (.destroy i) (w.userStep (.destroy i)).1
        (w.userStep (.destroy i)).2.machine := by
  have hok := h.ok.destroy i
  rw [World.step] at hok
  rw [World.userStep]
  cases hs : w.spaces i with
  | none => exact ⟨h, .failed _⟩
  | some s =>
    simp only [hs] at hok ⊢
    obtain ⟨m', he, _, hk, hbytes⟩ := vmSpaceDestroy_spec (h.ok.spaceOk hs)
    rw [he] at hok ⊢
    have hq : Quiet (fun f => 0 < w.others i f) w.memory m' := ⟨hk.data, fun f hf => by rw [hbytes]⟩
    refine ⟨h.remove hs hok, ?_⟩
    rw [w.machine_put fun j t hj ht => view_of_quiet hq fun b p hp => h.others_pos hj ht hp]
    exact .destroy i

/-- **A clone**: the new space shows what the source shows, and nobody else sees anything. -/
theorem IsolatedWorld.clone_step (i : ℕ) :
    IsolatedWorld (w.userStep (.cloneCow i)).2 ∧
      AbstractStep w.machine (.cloneCow i) (w.userStep (.cloneCow i)).1
        (w.userStep (.cloneCow i)).2.machine := by
  have hok := h.ok.cloneCow i
  rw [World.step] at hok
  rw [World.userStep]
  cases hs : w.spaces i with
  | none => exact ⟨h, .failed _⟩
  | some s =>
    simp only [hs] at hok ⊢
    have hspace := h.ok.spaceOk hs
    have hspec := vmSpaceCloneCow_spec hspace
    generalize vmSpaceCloneCow s w.memory = r at hspec hok
    have hself : ∀ {m'}, CloneKept (w.others i) (w.ownedOthers i) s w.memory m' →
        view s m' = view s w.memory := fun hk =>
      view_of_quiet hk.quiet fun b p hp => Nat.add_pos_left (hspace.page_pos hp) _
    cases hspec with
    | @done d s' m' pair pages kept =>
      have hat := pages.pageAt_done hspace.records pair.right.records
      have hview : ∀ j t, w.spaces j = some t → view t m' = view t w.memory := by
        intro j t ht
        by_cases hj : j = i
        · subst hj
          rw [hs] at ht
          rw [← some.inj ht]
          exact hself kept
        · exact view_of_quiet kept.quiet fun b p hp => Nat.add_pos_right _ (h.others_pos hj ht hp)
      have hd : view d m' = view s w.memory := by
        rw [← hself kept]
        funext b
        rw [view, view, (hat b).2]
        cases pageAt s b with
        | none => rfl
        | some p => rfl
      have hs' : view s' m' = view s w.memory :=
        (view_marked fun b => .inr (hat b).1).trans (hself kept)
      refine ⟨h.clone hs hok hat pair.left.records pages.refs, ?_⟩
      have hmachine : ((w.add d m').put i (some s') m').machine =
          w.machine.add (view s w.memory) := by
        have hi : i ≠ w.count := (h.ok.bound i s hs).ne
        have hold : (w.add d m').spaces i = some s := by rw [w.add_of_ne hi, hs]
        have hsame : view s (w.add d m').memory = view s' m' := (hself kept).trans hs'.symm
        have hrest : ∀ j t, j ≠ i → (w.add d m').spaces j = some t →
            view t m' = view t (w.add d m').memory := fun _ _ _ _ => rfl
        rw [World.machine_put _ hrest, map_some, ← hsame, World.machine_same _ hold,
          w.machine_add hview, hd]
      rw [hmachine]
      exact .cloneCow i _ (w.machine_some hs)
    | @failed d s' k m' ok pages kept =>
      have hat := pages.pageAt_source hspace.records ok.records
      have hiso := h.iso hs
      have hc : Confined (w.others i) (w.ownedOthers i) (w.sharedOthers i) s w.memory s' m' := by
        refine ⟨ok, ⟨fun f hf => kept.quiet.data f (Nat.add_pos_right _ hf), kept.blocks⟩,
          kept.quiet.mono fun f hf => Nat.add_pos_right _ hf.1, fun f _ _ => by rw [pages.refs],
          hiso.retouch pages.refs fun b q hq => ?_⟩
        -- every page of the source is an old one, perhaps marked
        rcases hat b with hb | hb
        · rw [hb] at hq
          exact ⟨q, hq, rfl, rfl, hiso.alone b q hq, hiso.cow b q hq⟩
        · rw [hb] at hq
          obtain ⟨p, hp, rfl⟩ := map_eq_some_iff.1 hq
          exact ⟨p, hp, markPage_frame p, markPage_shared p,
            fun hx => absurd hx (markPage_not_exclusive p), markPage_cow (hiso.cow b p hp)⟩
      obtain ⟨hworld, hmachine⟩ := h.put hs hc
      refine ⟨hworld, ?_⟩
      have hs' : view s' m' = view s w.memory := (view_marked hat).trans (hself kept)
      rw [hmachine, hs', w.machine_same hs]
      exact .failed _

/-- **One step** of the system is a step of the abstract machine with the same result. -/
theorem IsolatedWorld.step (op : UserOp) :
    IsolatedWorld (w.userStep op).2 ∧
      AbstractStep w.machine op (w.userStep op).1 (w.userStep op).2.machine := by
  cases op with
  | create => exact h.create_step
  | destroy i => exact h.destroy_step i
  | cloneCow i => exact h.clone_step i
  | mapPage i va protection =>
    refine h.call fun hs hok hiso => ?_
    obtain ⟨ok, s', m', he, hc, hv⟩ := vmMapPage_confined hok hiso va protection
    refine ⟨ok, s', m', he, hc, ?_⟩
    cases ok with
    | false =>
      rw [hv, if_neg (by simp), w.machine_same hs]
      exact .failed _
    | true =>
      rw [hv, if_pos rfl, ← w.machine_modify hs fun v => v.map va]
      exact .mapPage i va protection
  | unmapPage i va =>
    refine h.call fun hs hok hiso => ?_
    obtain ⟨ok, s', m', he, hc, hv, _⟩ := vmUnmapPage_confined hok hiso va
    refine ⟨ok, s', m', he, hc, ?_⟩
    rw [hv, ← w.machine_modify hs fun v => v.unmap va]
    exact .unmapPage i va ok
  | protect i address size protection =>
    refine h.call fun {_ _ _ s} hs hok hiso => ?_
    obtain ⟨hc, hv⟩ := vmProtect_confined hok hiso address size protection
    rcases he : vmProtect s address size protection w.memory with ⟨ok, s'⟩
    rw [he] at hc hv
    refine ⟨ok, s', w.memory, rfl, hc, ?_⟩
    rw [hv, w.machine_same hs]
    cases ok with
    | false => exact .failed _
    | true => exact .protect i address size protection
  | copyToUser i destination source =>
    refine h.call fun hs hok hiso => ?_
    obtain ⟨hc, n, hall, hv, -⟩ :=
      (copyToUserLoop_copied source.length _ destination source w.memory hok hiso).written
    refine ⟨_, _, _, rfl, hc, ?_⟩
    rw [hv, ← w.machine_modify hs fun v => v.write destination (source.take n)]
    exact .copyToUser i destination source _ n hall
  | store i a input =>
    refine h.call fun hs hok hiso => ?_
    obtain ⟨ok, s', m', he, hc, hv⟩ := userStore_confined hok hiso a input 0
    refine ⟨ok, s', m', he, hc, ?_⟩
    cases ok with
    | false =>
      rw [hv, if_neg (by simp), w.machine_same hs]
      exact .failed _
    | true =>
      rw [hv, if_pos rfl, ← w.machine_modify hs fun v =>
        (v.map (alignDown a)).write a (input.take (4096 - a % 4096))]
      exact .store i a input
  | mmap i requested size protection flags hint =>
    refine h.call fun {_ _ _ s} hs hok hiso => ?_
    obtain ⟨r, s', m', he, hc, hcase⟩ :=
      mmapAnonymous_confined hok hiso requested size protection flags hint
    rcases hcase with ⟨address, rfl, hfixed, hfree, hv⟩ | ⟨e, rfl, hv⟩
    · refine ⟨true, s', m', by rw [he], hc, ?_⟩
      rw [hv, ← w.machine_modify hs fun v => v.fill (mappingPages address (alignUp size))
        (some (if flags.testBit 0 then .shared else .zero))]
      refine .mmap i requested size protection flags hint address hfixed fun hbit v hvi b hb => ?_
      rw [w.machine_some hs] at hvi
      rw [← some.inj hvi]
      exact hfree hbit b hb
    · refine ⟨false, s', m', by rw [he], hc, ?_⟩
      rcases hv with hv | ⟨hbit, hv⟩
      · rw [hv, w.machine_same hs]
        exact .failed _
      · rw [hv, ← w.machine_modify hs fun v =>
          v.fill (mappingPages (alignDown requested) (alignUp size)) none]
        exact .mmapCleared i requested size protection flags hint hbit

/-- **A run** of the system is a run of the abstract machine. -/
theorem IsolatedWorld.run (ops : List UserOp) :
    IsolatedWorld (w.userRun ops).2 ∧
      AbstractRun w.machine (w.userRun ops).1 (w.userRun ops).2.machine := by
  induction ops generalizing w with
  | nil => exact ⟨h, .nil _⟩
  | cons op ops ih =>
    obtain ⟨hw, hstep⟩ := h.step op
    obtain ⟨hw', hrun⟩ := ih hw
    exact ⟨hw', .cons hstep hrun⟩

end

theorem IsolatedWorld.initial (choices : ℕ → Option ℕ) (bytes : ℕ → ℕ → UInt8) :
    IsolatedWorld (World.initial choices bytes) :=
  ⟨WorldOk.initial choices bytes, rfl, by simp [World.initial], by simp [World.initial],
    by simp [World.initial]⟩

/-- **Fork isolation.**  Whatever calls and stores are made on whatever spaces in whatever order,
some run of the machine in which every space has memory of its own gives the same results, and
every space shows user code, through its page tables, what the machine has there. -/
theorem fork_isolation (choices : ℕ → Option ℕ) (bytes : ℕ → ℕ → UInt8) (ops : List UserOp) :
    ∃ M, AbstractRun Machine.initial ((World.initial choices bytes).userRun ops).1 M ∧
      ∀ i, (((World.initial choices bytes).userRun ops).2.spaces i = none → M.spaces i = none) ∧
        ∀ s, ((World.initial choices bytes).userRun ops).2.spaces i = some s →
          ∃ v, M.spaces i = some v ∧ ∀ a, a < 2 ^ 47 →
            hardwareView s ((World.initial choices bytes).userRun ops).2.memory a = v a := by
  obtain ⟨hw, hrun⟩ := (IsolatedWorld.initial choices bytes).run ops
  refine ⟨_, hrun, fun i => ⟨fun hi => World.machine_none _ hi, fun s hs => ?_⟩⟩
  exact ⟨_, World.machine_some _ hs, fun a ha => (hw.ok.spaceOk hs).hardwareView_eq ha⟩

theorem SpaceOk.page_of_userLeaf {ext : ℕ → ℕ} {E : ℕ → Prop} {s : VmSpace} {m : Memory} {a leaf : ℕ}
    (h : SpaceOk ext E s m) (ha : a < 2 ^ 47) (hleaf : userLeaf s a = some leaf) :
    ∃ p, pageAt s a = some p ∧ 0 < refsIn s p.frame ∧ addressBits leaf = frameData m p.frame ∧
      leaf.testBit 1 = (canWrite p.protection && !p.copyOnWrite) := by
  rw [h.userLeaf_eq ha] at hleaf
  obtain ⟨p, hp, rfl⟩ := map_eq_some_iff.1 hleaf
  obtain ⟨halign, hlt⟩ := h.frame_page hp
  obtain ⟨_, _, haddress, hwrite, _⟩ := leafEntry_bits halign hlt
  exact ⟨p, hp, h.page_pos hp, haddress, hwrite⟩

/-- A page that user code may write, and that is not mapped shared, is the only one on its physical page. -/
def World.WritesAlone (w : World) : Prop :=
  ∀ i j s t a b leaf leaf', w.spaces i = some s → w.spaces j = some t → a < 2 ^ 47 → b < 2 ^ 47 →
    userLeaf s a = some leaf → userLeaf t b = some leaf' → leaf.testBit 1 = true →
    (pageAt s a).any VmPage.shared = false → addressBits leaf = addressBits leaf' →
    i = j ∧ alignDown a = alignDown b

/-- **What a space may write is nowhere else.** -/
theorem writes_alone (choices : ℕ → Option ℕ) (bytes : ℕ → ℕ → UInt8) (ops : List UserOp) :
    ((World.initial choices bytes).userRun ops).2.WritesAlone := by
  have hw := ((IsolatedWorld.initial choices bytes).run ops).1
  generalize ((World.initial choices bytes).userRun ops).2 = w at hw
  intro i j s t a b leaf leaf' hs ht ha hb hleaf hleaf' hwrite hshared hsame
  have hok := hw.ok.spaceOk hs
  have hok' := hw.ok.spaceOk ht
  obtain ⟨p, hp, hpos, haddress, hbit⟩ := hok.page_of_userLeaf ha hleaf
  obtain ⟨q, hq, hpos', haddress', -⟩ := hok'.page_of_userLeaf hb hleaf'
  rw [haddress, haddress'] at hsame
  rw [hbit, and_eq_true, not_eq_true'] at hwrite
  rw [hp] at hshared
  have hone := hw.alone i s a p hs hp ⟨hshared, hwrite⟩
  have htotal := w.total_eq (hw.ok.bound i s hs) p.frame
  have htotal' := w.total_eq (hw.ok.bound j t ht) q.frame
  rw [hs, refsOf_some] at htotal
  rw [ht, refsOf_some] at htotal'
  have hframe := hw.ok.memory.frameData_inj (by omega) (by omega) hsame
  by_cases hij : i = j
  -- one reference is one record
  · subst hij
    refine ⟨rfl, ?_⟩
    obtain rfl : s = t := some.inj (hs.symm.trans ht)
    obtain ⟨e, hu, rfl, he⟩ := (pageAt_iff hok.records).1 hp
    obtain ⟨e', hu', rfl, he'⟩ := (pageAt_iff hok.records).1 hq
    have hrefs : refsIn s (s.pages e).frame ≤ 1 := by omega
    rw [← he, ← he', eq_of_countBelow_le_one hrefs hu.1 hu'.1 (by simp [pointsAt, hu.2])
      (by simp [pointsAt, hu'.2, hframe])]
  · have hother := hw.others_pos (Ne.symm hij) ht hq
    rw [← hframe] at hother
    omega

end NovaOS.Vm
