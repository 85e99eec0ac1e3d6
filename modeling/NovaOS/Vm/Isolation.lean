import NovaOS.Vm.PrivateMemory
import NovaOS.Vm.World

/-!
# What a space shows, and what keeps it from the others

`view s m` is what user code finds in a space: at every page nothing, a page marked shared, or
bytes of its own.  The bytes of its own are the point: they must not depend on other spaces,
although `vm_space_clone_cow` lets many spaces point to one frame.

* `Iso` — what a space has to keep so that no write of its own shows elsewhere: a page that may be
  written without a copy has a frame nobody else refers to, unless it is shared;
* `Confined` — a change of one space that keeps `Iso`, the bytes of everybody else's private
  frames, and the exclusiveness of what the others may write;
* one lemma per operation: it is confined, and this is what it does to the view;
* `Copied` — how a copy to user memory proceeds, page by page, and what follows from it.
-/

namespace NovaOS.Vm

open Function List Nat Option

def pageView (m : Memory) (p : VmPage) : PageView :=
  if p.shared then .shared else .own (m.bytes (frameData m p.frame))

def view (s : VmSpace) (m : Memory) : SpaceView := fun a => (pageAt s a).map (pageView m)

/-- A private page that may be written in place. -/
def Exclusive (p : VmPage) : Prop :=
  p.shared = false ∧ canWrite p.protection = true ∧ p.copyOnWrite = false

/-- `ext` counts the references of the others, `sh` are the frames they have in shared pages. -/
structure Iso (ext : ℕ → ℕ) (sh : ℕ → Prop) (s : VmSpace) : Prop where
  outside : ∀ a p, pageAt s a = some p → 0 < ext p.frame → (p.shared = true ↔ sh p.frame)
  inside : ∀ a b p q, pageAt s a = some p → pageAt s b = some q → p.frame = q.frame →
    p.shared = q.shared
  alone : ∀ a p, pageAt s a = some p → Exclusive p → refsIn s p.frame + ext p.frame = 1
  cow : ∀ a p, pageAt s a = some p → p.copyOnWrite = true → p.shared = false

structure Confined (ext : ℕ → ℕ) (E : ℕ → Prop) (sh : ℕ → Prop) (s₀ : VmSpace) (m₀ : Memory)
    (s : VmSpace) (m : Memory) : Prop where
  ok : SpaceOk ext E s m
  kept : Kept ext E m₀ m
  quiet : Quiet (fun f => 0 < ext f ∧ ¬ sh f) m₀ m
  grab : ∀ f, 0 < ext f → ¬ sh f → refsIn s f ≤ refsIn s₀ f
  iso : Iso ext sh s

variable {ext : ℕ → ℕ} {E : ℕ → Prop} {sh : ℕ → Prop} {s s' s₀ s₁ s₂ : VmSpace}
  {m m' m₀ m₁ m₂ : Memory} {a b e va : ℕ} {p q : VmPage} {o : Option VmPage}

theorem Confined.refl (h : SpaceOk ext E s m) (hi : Iso ext sh s) : Confined ext E sh s m s m :=
  ⟨h, Kept.refl ext E m, Quiet.refl _ m, fun _ _ _ => le_rfl, hi⟩

theorem Confined.trans (h : Confined ext E sh s₀ m₀ s₁ m₁) (h' : Confined ext E sh s₁ m₁ s₂ m₂) :
    Confined ext E sh s₀ m₀ s₂ m₂ :=
  ⟨h'.ok, h.kept.trans h'.kept, h.quiet.trans h'.quiet,
    fun f hf hs => (h'.grab f hf hs).trans (h.grab f hf hs), h'.iso⟩

/-! ### Pages and frames -/

theorem SpaceOk.page_pos (h : SpaceOk ext E s m) (hp : pageAt s a = some p) :
    0 < refsIn s p.frame := by
  obtain ⟨e, hu, rfl, _⟩ := (pageAt_iff h.records).1 hp
  exact refsIn_pos hu

theorem MemoryOk.frameData_inj {total : ℕ → ℕ} {owned : ℕ → Prop} {f g : ℕ}
    (h : MemoryOk total owned m) (hf : 0 < total f) (hg : 0 < total g)
    (heq : frameData m f = frameData m g) : f = g := by
  obtain ⟨r, hr, _⟩ := h.exists_of_pos hf
  obtain ⟨r', hr', _⟩ := h.exists_of_pos hg
  refine h.data_inj hr hr' ?_
  rw [frameData, frameData, hr, hr'] at heq
  exact heq

theorem pageView_quiet {live : ℕ → Prop} (h : Quiet live m m') (hp : live p.frame) :
    pageView m' p = pageView m p := by
  rw [pageView, pageView, h.data _ hp, h.bytes _ hp]

theorem view_alignDown (s : VmSpace) (m : Memory) (a : ℕ) : view s m (alignDown a) = view s m a := by
  rw [view, view, pageAt_alignDown]

/-- A change of memory that spares the frames of a space does not show there. -/
theorem view_of_quiet {live : ℕ → Prop} (hq : Quiet live m m')
    (hlive : ∀ b p, pageAt s b = some p → live p.frame) : view s m' = view s m := by
  funext b
  rw [view, view]
  cases hp : pageAt s b with
  | none => rfl
  | some p => rw [map_some, map_some, pageView_quiet hq (hlive b p hp)]

/-- **One page replaced.**  `Iso` survives when the other pages keep their counts and the new page
fits in. -/
theorem Iso.replace (hi : Iso ext sh s) (hok : SpaceOk ext E s' m')
    (hat : ∀ b, pageAt s' b = if alignDown b = va then o else pageAt s b)
    (hrefs : ∀ b q, alignDown b ≠ va → pageAt s b = some q → refsIn s' q.frame ≤ refsIn s q.frame)
    (hnew : ∀ p, o = some p → (0 < ext p.frame → (p.shared = true ↔ sh p.frame)) ∧
      (∀ b q, alignDown b ≠ va → pageAt s b = some q → p.frame = q.frame → p.shared = q.shared) ∧
      (Exclusive p → refsIn s' p.frame + ext p.frame = 1) ∧
      (p.copyOnWrite = true → p.shared = false)) : Iso ext sh s' := by
  -- a page of the new space is the new one or an old one elsewhere
  have hcases : ∀ {b q}, pageAt s' b = some q →
      (alignDown b = va ∧ o = some q) ∨ (alignDown b ≠ va ∧ pageAt s b = some q) := by
    intro b q hq
    rw [hat] at hq
    by_cases hb : alignDown b = va
    · rw [if_pos hb] at hq
      exact .inl ⟨hb, hq⟩
    · rw [if_neg hb] at hq
      exact .inr ⟨hb, hq⟩
  refine ⟨?_, ?_, ?_, ?_⟩
  · intro b q hq
    rcases hcases hq with ⟨_, ho⟩ | ⟨_, hold⟩
    · exact (hnew q ho).1
    · exact hi.outside b q hold
  · intro b c q r hq hr hframe
    rcases hcases hq with ⟨_, hoq⟩ | ⟨hb, hq'⟩ <;> rcases hcases hr with ⟨_, hor⟩ | ⟨hc, hr'⟩
    · rw [some.inj (hoq.symm.trans hor)]
    · exact (hnew q hoq).2.1 c r hc hr' hframe
    · exact ((hnew r hor).2.1 b q hb hq' hframe.symm).symm
    · exact hi.inside b c q r hq' hr' hframe
  · intro b q hq hx
    rcases hcases hq with ⟨_, ho⟩ | ⟨hb, hold⟩
    · exact (hnew q ho).2.2.1 hx
    · have h1 := hi.alone b q hold hx
      have h2 := hrefs b q hb hold
      have h3 := hok.page_pos hq
      omega
  · intro b q hq
    rcases hcases hq with ⟨_, ho⟩ | ⟨_, hold⟩
    · exact (hnew q ho).2.2.2
    · exact hi.cow b q hold

/-- **Pages retouched.**  `Iso` survives when every page has the frame and the flag of an old one. -/
theorem Iso.retouch (hi : Iso ext sh s) (hrefs : refsIn s' = refsIn s)
    (hpages : ∀ b q, pageAt s' b = some q → ∃ p, pageAt s b = some p ∧ q.frame = p.frame ∧
      q.shared = p.shared ∧ (Exclusive q → refsIn s p.frame + ext p.frame = 1) ∧
      (q.copyOnWrite = true → q.shared = false)) : Iso ext sh s' := by
  refine ⟨?_, ?_, ?_, ?_⟩
  · intro b q hq
    obtain ⟨p, hp, hf, hs, _⟩ := hpages b q hq
    rw [hf, hs]
    exact hi.outside b p hp
  · intro b c q r hq hr
    obtain ⟨p, hp, hf, hs, _⟩ := hpages b q hq
    obtain ⟨p', hp', hf', hs', _⟩ := hpages c r hr
    rw [hf, hs, hf', hs']
    exact hi.inside b c p p' hp hp'
  · intro b q hq hx
    obtain ⟨p, _, hf, _, hone, _⟩ := hpages b q hq
    rw [hrefs, hf]
    exact hone hx
  · intro b q hq
    obtain ⟨_, _, _, _, _, hcow⟩ := hpages b q hq
    exact hcow

theorem Iso.congr (hi : Iso ext sh s) (hat : ∀ b, pageAt s' b = pageAt s b)
    (hrefs : refsIn s' = refsIn s) : Iso ext sh s' := by
  refine hi.retouch hrefs fun b q hq => ?_
  rw [hat] at hq
  exact ⟨q, hq, rfl, rfl, hi.alone b q hq, hi.cow b q hq⟩

theorem SpaceOk.page_unique (h : SpaceOk ext E s m) (hp : pageAt s a = some p)
    (hq : pageAt s b = some q) (hframe : p.frame = q.frame) (hone : refsIn s p.frame ≤ 1) :
    alignDown a = alignDown b := by
  obtain ⟨e₁, hu₁, rfl, hva₁⟩ := (pageAt_iff h.records).1 hp
  obtain ⟨e₂, hu₂, rfl, hva₂⟩ := (pageAt_iff h.records).1 hq
  have heq : e₁ = e₂ := by
    refine eq_of_countBelow_le_one hone hu₁.1 hu₂.1 ?_ ?_
    · simp [pointsAt, hu₁.2]
    · simp [pointsAt, hu₂.2, hframe]
  rw [← hva₁, ← hva₂, heq]

/-! ### Pages with their bytes -/

/-- A page with the bytes of its frame. -/
def pageState (s : VmSpace) (m : Memory) (a : ℕ) : Option (VmPage × (ℕ → UInt8)) :=
  (pageAt s a).map fun p => (p, m.bytes (frameData m p.frame))

theorem pageState_congr (hat : pageAt s' b = pageAt s b)
    (hbytes : ∀ p, pageAt s b = some p →
      m'.bytes (frameData m' p.frame) = m.bytes (frameData m p.frame)) :
    pageState s' m' b = pageState s m b := by
  rw [pageState, pageState, hat]
  cases hp : pageAt s b with
  | none => rfl
  | some p => rw [map_some, map_some, hbytes p hp]

theorem pageState_of_quiet (h : SpaceOk ext E s m)
    (hq : Quiet (fun f => 0 < refsIn s f + ext f) m m') (hat : pageAt s' b = pageAt s b) :
    pageState s' m' b = pageState s m b := by
  refine pageState_congr hat fun p hp => ?_
  have hlive : 0 < refsIn s p.frame + ext p.frame := Nat.add_pos_left (h.page_pos hp) _
  rw [hq.data _ hlive, hq.bytes _ hlive]

theorem view_eq (s : VmSpace) (m : Memory) (b : ℕ) :
    view s m b = (pageState s m b).map fun q => if q.1.shared then .shared else .own q.2 := by
  rw [view, pageState, Option.map_map]
  rfl

theorem view_of_pageState (h : pageState s' m' b = pageState s m b) : view s' m' b = view s m b := by
  rw [view_eq, view_eq, h]

/-! ### Copy-on-write -/

section

variable (h : SpaceOk ext E s m)

include h

theorem makePrivate_pageState {e : ℕ} (hu : UsedRecord s e) {ok : Bool}
    (he : makePrivate s e m = (ok, s', m')) (hb : alignDown b ≠ (s.pages e).virtualAddress) :
    pageState s' m' b = pageState s m b := by
  obtain ⟨ok', s₁, m₁, he', -, -, hq, hcases⟩ := makePrivate_spec h hu
  cases he.symm.trans he'
  refine pageState_of_quiet h hq ?_
  rcases hcases with ⟨-, -, rfl⟩ | ⟨-, -, rfl, -⟩ | ⟨-, -, -, g, -, hat, -⟩
  · rfl
  · rfl
  · rw [hat, if_neg hb]

/-- **`make_private` does not show.**  Where it succeeds the page may be written in place. -/
theorem makePrivate_confined (hi : Iso ext sh s) (hu : UsedRecord s e) :
    ∃ ok s' m', makePrivate s e m = (ok, s', m') ∧ Confined ext E sh s m s' m' ∧
      view s' m' = view s m ∧
      (ok = true → pageAt s' (s.pages e).virtualAddress = some (s'.pages e) ∧
        (s'.pages e).protection = (s.pages e).protection ∧ (s'.pages e).copyOnWrite = false ∧
        ((s.pages e).copyOnWrite = true → canWrite (s.pages e).protection = true)) := by
  obtain ⟨ok, s', m', he, hok, hk, hq, hcases⟩ := makePrivate_spec h hu
  have hold := pageAt_used h.records hu
  have halign := (h.records.aligned e hu).1
  have hquiet : Quiet (fun f => 0 < ext f ∧ ¬ sh f) m m' :=
    hq.mono fun f hf => Nat.add_pos_right _ hf.1
  refine ⟨ok, s', m', he, ?_⟩
  rcases hcases with ⟨hfail, _, rfl⟩ | ⟨hok', hcow, rfl, rfl⟩ |
    ⟨hok', hcow, hw, g, hpages, hat, hbytes, hone, hg, hle⟩
  · -- the copy failed
    exact ⟨⟨hok, hk, hquiet, fun _ _ _ => le_rfl, hi⟩,
      view_of_quiet hq fun _ _ hb => Nat.add_pos_left (h.page_pos hb) _,
      fun ht => by rw [hfail] at ht; cases ht⟩
  · -- nothing to copy
    exact ⟨Confined.refl h hi, rfl, fun _ => ⟨hold, rfl, hcow, fun hc => by rw [hcow] at hc; cases hc⟩⟩
  · have hshared := hi.cow _ _ hold hcow
    have hgframe : (privatePage (s.pages e) g).frame = g := rfl
    have hnew : pageAt s' (s.pages e).virtualAddress = some (privatePage (s.pages e) g) := by
      rw [hat, if_pos (alignDown_eq halign)]
    -- nobody else has the frame of the private page
    have hother : ∀ b q, alignDown b ≠ (s.pages e).virtualAddress → pageAt s b = some q →
        q.frame ≠ g := by
      intro b q hb hqb hgq
      have hqb' : pageAt s' b = some q := by rw [hat, if_neg hb]; exact hqb
      refine hb ?_
      have := hok.page_unique hqb' hnew hgq (by rw [hgq]; omega)
      rwa [alignDown_eq halign] at this
    have hextg : ext g = 0 := by
      have hpos := hok.page_pos hnew
      rw [hgframe] at hpos
      omega
    have hiso : Iso ext sh s' := by
      refine hi.replace hok hat (fun b q hb hqb => hle _ (hother b q hb hqb)) ?_
      rintro p hp
      obtain rfl := some.inj hp
      refine ⟨fun hpos => ?_, fun b q hb hqb hframe => ?_, fun _ => ?_, fun hc => by cases hc⟩
      · rw [hgframe, hextg] at hpos
        omega
      · exact absurd hframe.symm (hother b q hb hqb)
      · rw [hgframe]
        exact hone
    refine ⟨⟨hok, hk, hquiet, fun f hf _ => hle f (by rintro rfl; omega), hiso⟩, ?_, fun _ => ?_⟩
    · funext b
      by_cases hb : alignDown b = (s.pages e).virtualAddress
      · rw [← view_alignDown, ← view_alignDown s m b, hb, view, view, hold, hnew, map_some,
          map_some, pageView, pageView,
          show (privatePage (s.pages e) g).shared = (s.pages e).shared from rfl, hshared,
          hgframe, hbytes]
      · exact view_of_pageState (makePrivate_pageState h hu he hb)
    · rw [hat, if_pos (alignDown_eq halign), hpages, update_self]
      exact ⟨rfl, rfl, rfl, fun _ => hw⟩

/-! ### Writing -/

/-- **A store** to a page that is writable and not copy-on-write changes that page of that space
and nothing that anybody has as his own. -/
theorem store_confined (hi : Iso ext sh s) (hp : pageAt s a = some p)
    (hw : canWrite p.protection = true) (hcow : p.copyOnWrite = false) (offset : ℕ)
    (input : List UInt8) :
    Confined ext E sh s m s (storeBytes m (frameData m p.frame) offset input) ∧
      ∀ b, view s (storeBytes m (frameData m p.frame) offset input) b =
        if alignDown b = alignDown a then (view s m b).map (PageView.write offset input)
        else view s m b := by
  have hpos := h.page_pos hp
  -- other frames are on other pages
  have hdata : ∀ f, 0 < refsIn s f + ext f → f ≠ p.frame → frameData m f ≠ frameData m p.frame :=
    fun f hf hne heq => hne (h.heap.memory.frameData_inj hf (Nat.add_pos_left hpos _) heq)
  have hbytes : ∀ f, 0 < refsIn s f + ext f → f ≠ p.frame →
      (storeBytes m (frameData m p.frame) offset input).bytes (frameData m f) =
        m.bytes (frameData m f) :=
    fun f hf hne => update_of_ne (hdata f hf hne) ..
  refine ⟨⟨h.bytes _, ⟨fun _ _ => rfl, fun _ _ _ hb => hb⟩, ⟨fun _ _ => rfl, ?_⟩,
    fun _ _ _ => le_rfl, hi⟩, fun b => ?_⟩
  · rintro f ⟨hf, hsh⟩
    refine hbytes f (Nat.add_pos_right _ hf) ?_
    rintro rfl
    have hshared : p.shared = false := by
      cases hps : p.shared with
      | false => rfl
      | true => exact absurd ((hi.outside a p hp hf).1 hps) hsh
    have := hi.alone a p hp ⟨hshared, hw, hcow⟩
    omega
  · by_cases hb : alignDown b = alignDown a
    · have hpb := (pageAt_samePage hb).trans hp
      rw [if_pos hb, view, view, hpb, map_some, map_some, map_some]
      cases hps : p.shared with
      | true => rw [pageView, pageView, hps]; rfl
      | false =>
        rw [pageView, pageView, hps]
        show some (PageView.own (update m.bytes _ _ (frameData m p.frame))) = _
        rw [update_self]
        rfl
    · rw [if_neg hb, view, view]
      cases hq : pageAt s b with
      | none => rfl
      | some q =>
        rw [map_some, map_some]
        cases hqs : q.shared with
        | true => rw [pageView, pageView, hqs]; rfl
        | false =>
          have hne : q.frame ≠ p.frame := by
            intro hframe
            have hps : p.shared = false := (hi.inside b a q p hq hp hframe).symm.trans hqs
            have hone := hi.alone a p hp ⟨hps, hw, hcow⟩
            exact hb (h.page_unique hq hp hframe (by rw [hframe]; omega))
          rw [pageView, pageView, hqs]
          show some (PageView.own ((storeBytes m (frameData m p.frame) offset input).bytes
            (frameData m q.frame))) = some (PageView.own (m.bytes (frameData m q.frame)))
          rw [hbytes q.frame (Nat.add_pos_left (h.page_pos hq) _) hne]

/-! ### Mapping and unmapping -/

/-- **`vm_map_page`** leaves the other pages. -/
theorem vmMapPage_pageState {va protection : ℕ} {ok : Bool}
    (he : vmMapPage s va protection m = (ok, s', m')) (hb : alignDown b ≠ va) :
    pageState s' m' b = pageState s m b := by
  obtain ⟨ok', s₁, m₁, he', -, -, hq, hmapped⟩ := vmMapPage_spec h va protection
  cases he.symm.trans he'
  refine pageState_of_quiet h hq ?_
  cases hmapped with
  | failed pages refs => exact pages b
  | reprotected p old refs aligned pages => rw [pages, if_neg hb]
  | created f old fresh refs aligned canonical pages zero => rw [pages, if_neg hb]

/-- **`vm_unmap_page`** takes its page and leaves the others. -/
theorem vmUnmapPage_pageState {va : ℕ} {ok : Bool}
    (he : vmUnmapPage s va m = (ok, s', m')) :
    pageState s' m' b = if alignDown b = alignDown va then none else pageState s m b := by
  rcases vmUnmapPage_spec h va with ⟨he', hnone⟩ | ⟨p, s₁, -, he', hok, -, hat⟩
  · cases he.symm.trans he'
    split
    · rename_i hb
      rw [pageState, pageAt_samePage hb, hnone]
      rfl
    · rfl
  · cases he.symm.trans he'
    split
    · rename_i hb
      rw [pageState, hat, if_pos hb]
      rfl
    · rename_i hb
      have hsame : pageAt s' b = pageAt s b := by rw [hat, if_neg hb]
      refine pageState_congr hsame fun q hq => ?_
      have hlive : 0 < refsIn s' q.frame + ext q.frame :=
        Nat.add_pos_left (hok.page_pos (hsame.trans hq)) _
      rw [vmFrameRelease_bytes, frameData_release hok.heap.memory hlive]

/-- A changed protection: the page may be written in place only if its frame has no other
reference. -/
theorem protectPage_exclusive (hp : pageAt s a = some p) {protection : ℕ}
    (hx : Exclusive (protectPage m protection p)) : refsIn s p.frame + ext p.frame = 1 := by
  obtain ⟨hshared, hw, hcow⟩ := hx
  have hcount := h.heap.memory.counts p.frame
  have hpos := h.page_pos hp
  simp only [protectPage] at hshared hw hcow
  simp only [hshared, hw, hcount, Bool.not_false, Bool.true_and, decide_eq_false_iff_not] at hcow
  omega

end

theorem protectPage_cow {protection : ℕ} (hc : (protectPage m protection p).copyOnWrite = true) :
    (protectPage m protection p).shared = false := by
  simp only [protectPage, Bool.and_eq_true, Bool.not_eq_true'] at hc
  exact hc.1.1

theorem pageView_protectPage (m m' : Memory) (protection : ℕ) (p : VmPage) :
    pageView m (protectPage m' protection p) = pageView m p := rfl

section

variable (h : SpaceOk ext E s m) (hi : Iso ext sh s)

include h hi

/-- **`vm_map_page`** on a space: nothing, or the page is there and a new one is zero. -/
theorem vmMapPage_confined (va protection : ℕ) :
    ∃ ok s' m', vmMapPage s va protection m = (ok, s', m') ∧ Confined ext E sh s m s' m' ∧
      view s' m' = if ok then (view s m).map va else view s m := by
  obtain ⟨ok, s', m', he, hok, hk, hq, hmapped⟩ := vmMapPage_spec h va protection
  have hquiet : Quiet (fun f => 0 < ext f ∧ ¬ sh f) m m' :=
    hq.mono fun f hf => Nat.add_pos_right _ hf.1
  -- the other pages show as before
  have hview : (∀ b, alignDown b = va → view s' m' b = some ((view s m b).getD .zero)) →
      view s' m' = (view s m).map va := by
    intro hpage
    funext b
    rw [SpaceView.map]
    split
    · rename_i hb
      exact hpage b hb
    · rename_i hb
      exact view_of_pageState (vmMapPage_pageState h he hb)
  refine ⟨ok, s', m', he, ?_⟩
  cases hmapped with
  | failed pages refs =>
    refine ⟨⟨hok, hk, hquiet, fun f _ _ => by rw [refs], hi.congr pages refs⟩, ?_⟩
    funext b
    exact view_of_pageState (pageState_of_quiet h hq (pages b))
  | reprotected p old refs aligned pages =>
    have hiso : Iso ext sh s' := by
      refine hi.replace hok pages (fun b q _ _ => by rw [refs]) ?_
      rintro r hr
      obtain rfl := some.inj hr
      refine ⟨hi.outside va p old, fun b q _ hqb => hi.inside va b p q old hqb, fun hx => ?_,
        protectPage_cow⟩
      rw [refs]
      exact protectPage_exclusive (p := p) h old hx
    refine ⟨⟨hok, hk, hquiet, fun f _ _ => by rw [refs], hiso⟩, hview fun b hb => ?_⟩
    have hpb : pageAt s b = some p := by rw [← pageAt_alignDown, hb, old]
    rw [view, view, pages, if_pos hb, hpb, map_some, pageView_protectPage,
      pageView_quiet hq (Nat.add_pos_left (h.page_pos hpb) _)]
    rfl
  | created f old fresh refs aligned canonical pages zero =>
    -- the new frame is in no other record
    have hother : ∀ b q, pageAt s b = some q → q.frame ≠ f := by
      rintro b q hqb rfl
      have := h.page_pos hqb
      omega
    have hrefs : ∀ g, g ≠ f → refsIn s' g = refsIn s g := fun g hg => by
      rw [refs, plusRef_of_ne hg]
    have hiso : Iso ext sh s' := by
      refine hi.replace hok pages (fun b q _ hqb => (hrefs _ (hother b q hqb)).le) ?_
      rintro r hr
      obtain rfl := some.inj hr
      refine ⟨fun hpos => ?_, fun b q _ hqb hframe => absurd hframe.symm (hother b q hqb), fun _ => ?_,
        fun _ => rfl⟩
      · simp only at hpos
        omega
      · simp only [refs, plusRef_self]
        omega
    refine ⟨⟨hok, hk, hquiet, fun g hg _ => (hrefs g ?_).le, hiso⟩, hview fun b hb => ?_⟩
    · rintro rfl
      omega
    · have hpb : pageAt s b = none := by rw [← pageAt_alignDown, hb, old]
      rw [view, view, pages, if_pos hb, hpb, map_some, pageView]
      simp only [zero]
      rfl

theorem vmUnmapPage_confined (va : ℕ) :
    ∃ ok s' m', vmUnmapPage s va m = (ok, s', m') ∧ Confined ext E sh s m s' m' ∧
      view s' m' = (view s m).unmap va ∧ ∀ f, refsIn s' f ≤ refsIn s f := by
  have hview : ∀ {ok s' m'}, vmUnmapPage s va m = (ok, s', m') → view s' m' = (view s m).unmap va := by
    intro ok s' m' he
    funext b
    rw [view_eq, vmUnmapPage_pageState h he, SpaceView.unmap]
    split
    · rfl
    · exact (view_eq s m b).symm
  rcases vmUnmapPage_spec h va with ⟨he, hnone⟩ | ⟨p, s', hp, he, hok, hrefs, hat⟩
  · exact ⟨false, s, m, he, Confined.refl h hi, hview he, fun _ => le_rfl⟩
  · have hle : ∀ f, refsIn s' f ≤ refsIn s f := by
      intro f
      rw [hrefs]
      by_cases hf : f = p.frame
      · subst hf; simp
      · rw [plusRef_of_ne hf]
    have hruns := vmUnmapPage_runs h va
    rw [he] at hruns
    have hq : Quiet (fun f => 0 < refsIn s' f + ext f) m (vmFrameRelease p.frame m) :=
      Quiet.release hok.heap.memory
    have hiso : Iso ext sh s' := hi.replace hok hat (fun b q _ _ => hle _) fun r hr => by cases hr
    exact ⟨true, s', _, he, ⟨hok, hruns.kept, hq.mono fun f hf => Nat.add_pos_right _ hf.1,
      fun f _ _ => hle f, hiso⟩, hview he, hle⟩

/-- **`vm_protect`** changes nothing that is seen. -/
theorem vmProtect_confined (address size protection : ℕ) :
    Confined ext E sh s m (vmProtect s address size protection m).2 m ∧
      view (vmProtect s address size protection m).2 m = view s m := by
  rw [vmProtect]
  rcases rewriteRange_spec (retouch_protectPage m protection) h address size with
    he | ⟨s', he, hok, hrefs, _, _, _, hat⟩
  · rw [he]
    exact ⟨Confined.refl h hi, rfl⟩
  rw [he]
  refine ⟨⟨hok, Kept.refl ext E m, Quiet.refl _ m, fun f _ _ => by rw [hrefs], ?_⟩, ?_⟩
  · -- a page of the new space is an old one, perhaps with the new protection
    refine hi.retouch hrefs fun b q hq => ?_
    rw [hat] at hq
    split at hq
    · obtain ⟨p, hp, rfl⟩ := map_eq_some_iff.1 hq
      exact ⟨p, hp, rfl, rfl, protectPage_exclusive h hp, protectPage_cow⟩
    · exact ⟨q, hq, rfl, rfl, hi.alone b q hq, hi.cow b q hq⟩
  · funext b
    rw [view, view, hat]
    split
    · cases hb : pageAt s b with
      | none => rfl
      | some p => rfl
    · rfl

/-- **`vm_mark_shared`** on pages that nobody else refers to, as `linux_mmap` does it. -/
theorem vmMarkShared_confined (address size : ℕ)
    (hfresh : ∀ b ∈ pageRange (alignDown address) (alignUp ((address + size) % 2 ^ 64)), ∀ p,
      pageAt s b = some p → refsIn s p.frame + ext p.frame = 1) :
    ∃ ok s', vmMarkShared s address size m = (ok, s') ∧ Confined ext E sh s m s' m ∧
      view s' m = if ok then (view s m).fill
        (pageRange (alignDown address) (alignUp ((address + size) % 2 ^ 64))) (some .shared)
        else view s m := by
  rw [vmMarkShared]
  rcases rewriteRange_spec retouch_sharePage h address size with
    he | ⟨s', he, hok, hrefs, _, _, hmapped, hat⟩
  · exact ⟨false, s, he, Confined.refl h hi, rfl⟩
  generalize pageRange (alignDown address) (alignUp ((address + size) % 2 ^ 64)) = pages at *
  refine ⟨true, s', he, ⟨hok, Kept.refl ext E m, Quiet.refl _ m, fun f _ _ => by rw [hrefs],
    ⟨?_, ?_, ?_, ?_⟩⟩, ?_⟩
  · intro b q hq hpos
    rw [hat] at hq
    split at hq
    · -- a frame of the range is in no other space
      rename_i hb
      obtain ⟨p, hp, rfl⟩ := map_eq_some_iff.1 hq
      have hone := hfresh _ hb p (by rw [pageAt_alignDown]; exact hp)
      have := h.page_pos hp
      simp only [sharePage] at hpos
      omega
    · exact hi.outside b q hq hpos
  · intro b c q r hq hr hframe
    have hone : ∀ {b p c q}, alignDown b ∈ pages → pageAt s b = some p → pageAt s c = some q →
        p.frame = q.frame → alignDown b = alignDown c := by
      intro b p c q hb hp hq hf
      have := hfresh _ hb p (by rw [pageAt_alignDown]; exact hp)
      exact h.page_unique hp hq hf (by omega)
    rw [hat] at hq hr
    split at hq <;> split at hr
    · obtain ⟨p, _, rfl⟩ := map_eq_some_iff.1 hq
      obtain ⟨p', _, rfl⟩ := map_eq_some_iff.1 hr
      rfl
    · rename_i hb hc
      obtain ⟨p, hp, rfl⟩ := map_eq_some_iff.1 hq
      exact absurd (hone hb hp hr hframe ▸ hb) hc
    · rename_i hb hc
      obtain ⟨p, hp, rfl⟩ := map_eq_some_iff.1 hr
      exact absurd (hone hc hp hq hframe.symm ▸ hc) hb
    · exact hi.inside b c q r hq hr hframe
  · intro b q hq hx
    rw [hat] at hq
    rw [hrefs]
    split at hq
    · obtain ⟨p, _, rfl⟩ := map_eq_some_iff.1 hq
      exact absurd hx.1 (by simp [sharePage])
    · exact hi.alone b q hq hx
  · intro b q hq hc
    rw [hat] at hq
    split at hq
    · obtain ⟨p, _, rfl⟩ := map_eq_some_iff.1 hq
      simp [sharePage] at hc
    · exact hi.cow b q hq hc
  · funext b
    rw [if_pos rfl, view, hat, SpaceView.fill]
    split
    · rename_i hb
      obtain ⟨p, hp⟩ := isSome_iff_exists.1 (hmapped _ hb)
      rw [pageAt_alignDown] at hp
      rw [hp]
      rfl
    · rfl

end

/-! ### Copies and stores -/

/-- A store to a page that may be written in place leaves the others. -/
theorem store_pageState (h : SpaceOk ext E s m) (hi : Iso ext sh s) {p : VmPage}
    (hp : pageAt s a = some p) (hx : Exclusive p) (offset : ℕ) (input : List UInt8)
    (hb : alignDown b ≠ alignDown a) :
    pageState s (storeBytes m (frameData m p.frame) offset input) b = pageState s m b := by
  refine pageState_congr rfl fun q hq => ?_
  have hone := hi.alone a p hp hx
  have hne : q.frame ≠ p.frame := fun hframe =>
    hb (h.page_unique hq hp hframe (by rw [hframe]; omega))
  refine update_of_ne (fun heq => hne ?_) ..
  exact h.heap.memory.frameData_inj (Nat.add_pos_left (h.page_pos hq) _)
    (Nat.add_pos_left (h.page_pos hp) _) heq

/-- **How `vm_copy_to_user` proceeds**, page by page. -/
inductive Copied (ext : ℕ → ℕ) (E : ℕ → Prop) (sh : ℕ → Prop) :
    VmSpace → Memory → ℕ → List UInt8 → Bool × VmSpace × Memory → Prop
  | done {s : VmSpace} {m : Memory} {a : ℕ} (ok : SpaceOk ext E s m) (iso : Iso ext sh s) :
      Copied ext E sh s m a [] (true, s, m)
  | stopped {s s' : VmSpace} {m m' : Memory} {a : ℕ} {input : List UInt8} (more : input ≠ [])
      (confined : Confined ext E sh s m s' m') (same : view s' m' = view s m)
      (others : ∀ b, alignDown b ≠ alignDown a → pageState s' m' b = pageState s m b) :
      Copied ext E sh s m a input (false, s', m')
  | round {s s₁ : VmSpace} {m m₁ : Memory} {a n : ℕ} {input : List UInt8} {r : Bool × VmSpace × Memory}
      (more : input ≠ []) (chunk : n = min (4096 - a % 4096) input.length)
      (mapped : (view s m a).isSome) (low : a < 2 ^ 47) (confined : Confined ext E sh s m s₁ m₁)
      (written : view s₁ m₁ = (view s m).write a (input.take n))
      (others : view s m a ≠ some .shared → ∀ b, alignDown b ≠ alignDown a →
        pageState s₁ m₁ b = pageState s m b)
      (rest : Copied ext E sh s₁ m₁ (a + n) (input.drop n) r) : Copied ext E sh s m a input r

theorem copyToUserLoop_copied : ∀ (fuel : ℕ) (s : VmSpace) (a : ℕ) (input : List UInt8) (m : Memory),
    SpaceOk ext E s m → Iso ext sh s →
    Copied ext E sh s m a input (copyToUserLoop fuel s a input m) := by
  intro fuel
  induction fuel with
  | zero =>
    intro s a input m h hi
    cases input with
    | nil => exact .done h hi
    | cons x input => exact .stopped (cons_ne_nil x input) (.refl h hi) rfl fun _ _ => rfl
  | succ fuel ih =>
    intro s a input m h hi
    rw [copyToUserLoop]
    split
    · rename_i hempty
      rw [isEmpty_iff.1 hempty]
      exact .done h hi
    rename_i hempty
    have hmore : input ≠ [] := fun hnil => hempty (isEmpty_iff.2 hnil)
    cases hf : findPage s a with
    | none => exact .stopped hmore (.refl h hi) rfl fun _ _ => rfl
    | some e =>
      simp only
      split
      · exact .stopped hmore (.refl h hi) rfl fun _ _ => rfl
      rename_i hw
      obtain ⟨hu, hva⟩ := findPage_sound h.records hf
      obtain ⟨ok, s₁, m₁, he, hc₁, hv₁, hpage⟩ := makePrivate_confined h hi hu
      have hothers : ∀ b, alignDown b ≠ alignDown a → pageState s₁ m₁ b = pageState s m b :=
        fun b hb => makePrivate_pageState h hu he (by rw [hva]; exact hb)
      rw [he]
      cases ok with
      | false => exact .stopped hmore hc₁ hv₁ hothers
      | true =>
        obtain ⟨hat, hprot, hcow, _⟩ := hpage rfl
        have hcanon := (h.records.aligned e hu).2.1
        rw [hva] at hat hcanon
        rw [pageAt_alignDown] at hat
        have hlow : a < 2 ^ 47 := by
          have hlim : alignDown a < 2 ^ 47 := hcanon
          have hmod := alignDown_mod a
          have hlt := lt_alignDown_add a
          omega
        have hwrite : canWrite (s₁.pages e).protection = true := by
          rw [hprot]
          simpa using hw
        generalize hn : min (4096 - a % 4096) input.length = n
        have hwrap : (a + n) % 2 ^ 64 = a + n := mod_eq_of_lt (by omega)
        obtain ⟨hc₂, hv₂⟩ := store_confined hc₁.ok hc₁.iso hat hwrite hcow (a % 4096) (input.take n)
        rw [hwrap]
        refine .round hmore hn.symm ?_ hlow (hc₁.trans hc₂) ?_ ?_ (ih s₁ (a + n) _ _ hc₂.ok hc₂.iso)
        · rw [view, pageAt, hf]
          rfl
        · have hmod : a % 4096 < 4096 := mod_lt _ (by omega)
          funext b
          rw [hv₂, hv₁, SpaceView.write_page _ (by rw [length_take]; omega)]
        · intro hown b hb
          refine (store_pageState hc₁.ok hc₁.iso hat ⟨?_, hwrite, hcow⟩ _ _ hb).trans (hothers b hb)
          rw [← Bool.not_eq_true]
          intro hshared
          refine hown ?_
          rw [← hv₁, view, hat, map_some, pageView, if_pos hshared]

/-- A first part of the bytes is written, to pages that are there; all of them when the copy
succeeds. -/
theorem Copied.written {input : List UInt8} {r : Bool × VmSpace × Memory}
    (h : Copied ext E sh s m a input r) :
    Confined ext E sh s m r.2.1 r.2.2 ∧ ∃ n, (r.1 = true → n = input.length) ∧
      view r.2.1 r.2.2 = (view s m).write a (input.take n) ∧
      ∀ i, i < n → (view s m (a + i)).isSome ∧ a + i < 2 ^ 47 := by
  induction h with
  | done ok iso =>
    refine ⟨.refl ok iso, 0, fun _ => rfl, ?_, fun i hi => absurd hi (not_lt_zero i)⟩
    rw [take_zero, SpaceView.write_nil]
  | stopped _ confined same _ =>
    refine ⟨confined, 0, fun hno => (by cases hno), ?_, fun i hi => absurd hi (not_lt_zero i)⟩
    rw [take_zero, SpaceView.write_nil, same]
  | @round s s₁ m m₁ a n input r more chunk mapped low confined written _ _ ih =>
    obtain ⟨hc, k, hall, hview, hmapped⟩ := ih
    refine ⟨confined.trans hc, n + k, fun hok => ?_, ?_, fun i hi => ?_⟩
    · rw [hall hok, length_drop]
      omega
    · have hlen : (input.take n).length = n := by
        rw [length_take]
        omega
      rw [hview, written, take_add, SpaceView.write_append, hlen]
    · by_cases hchunk : i < 4096 - a % 4096
      · have hsame : alignDown (a + i) = alignDown a := by
          unfold alignDown
          omega
        refine ⟨?_, by omega⟩
        rw [← view_alignDown, hsame, view_alignDown]
        exact mapped
      · -- in a later page, which the first chunk has left where it is
        have hlater := hmapped (i - n) (by omega)
        rwa [show a + n + (i - n) = a + i by omega, written, SpaceView.write, isSome_map] at hlater

/-- The pages that a copy into private pages does not meet. -/
theorem Copied.pageState {input : List UInt8} {r : Bool × VmSpace × Memory}
    (h : Copied ext E sh s m a input r)
    (hown : ∀ i, i < input.length → view s m (a + i) ≠ some .shared)
    (hb : ∀ i, i < input.length → alignDown b ≠ alignDown (a + i)) :
    pageState r.2.1 r.2.2 b = pageState s m b := by
  induction h with
  | done _ _ => rfl
  | stopped more _ _ others => exact others b (hb 0 (length_pos_of_ne_nil more))
  | @round s s₁ m m₁ a n input r more chunk mapped low confined written others _ ih =>
    have hpos := length_pos_of_ne_nil more
    have hdrop : (input.drop n).length = input.length - n := length_drop
    refine (ih (fun i hi hsome => ?_) fun i hi => ?_).trans (others (hown 0 hpos) b (hb 0 hpos))
    · have hnot := hown (n + i) (by omega)
      rw [← add_assoc] at hnot
      rw [written, SpaceView.write] at hsome
      obtain ⟨q, hq, hchange⟩ := map_eq_some_iff.1 hsome
      cases q with
      | shared => exact hnot hq
      | own bytes => cases hchange
    · have hapart := hb (n + i) (by omega)
      rwa [← add_assoc] at hapart

/-- A store to a page that may be written in place is done at once. -/
theorem userStore_ready (h : SpaceOk ext E s m) (ha : a < 2 ^ 47) (hp : pageAt s a = some p)
    (hw : canWrite p.protection = true) (hcow : p.copyOnWrite = false) (fuel : ℕ)
    (input : List UInt8) :
    userStore (fuel + 1) s a input m = (true, s, storeBytes m (frameData m p.frame) (a % 4096)
      (input.take (4096 - a % 4096))) := by
  have hleaf := (h.mmuTranslate_eq ha).1 p hp
  obtain ⟨halign, hlt⟩ := h.frame_page hp
  rw [userStore, if_neg (by omega), hleaf]
  simp only [hw, hcow, any_some, Bool.not_false, Bool.and_self, if_true, elim_some,
    (leafEntry_bits halign hlt).2.2.1]

theorem userStore_fault (h : SpaceOk ext E s m) (ha : a < 2 ^ 47)
    (hp : ∀ p, pageAt s a = some p → ¬ (canWrite p.protection = true ∧ p.copyOnWrite = false))
    (fuel : ℕ) (input : List UInt8) :
    userStore (fuel + 1) s a input m =
      match vmHandlePageFault s a (writeFaultCode (mmuTranslate s a)) m with
      | (.unhandled, s, m) => (false, s, m)
      | (_, s, m) => userStore fuel s a input m := by
  have hclosed : ¬ ((mmuTranslate s a).any fun l => l.user && l.write) = true := by
    obtain ⟨hsome, hnone⟩ := h.mmuTranslate_eq ha
    cases hpage : pageAt s a with
    | some p =>
      rw [hsome p hpage]
      simp only [any_some, Bool.true_and, Bool.and_eq_true, Bool.not_eq_true']
      exact hp p hpage
    | none =>
      cases hl : mmuTranslate s a with
      | none => simp
      | some leaf => simp [hnone hpage leaf hl]
  rw [userStore, if_neg (by omega)]
  exact if_neg hclosed

/-- Mapping a page that is there does not show. -/
theorem view_map_of_mapped (hp : pageAt s a = some p) : (view s m).map (alignDown a) = view s m := by
  funext b
  rw [SpaceView.map]
  split
  · rename_i hb
    rw [view, pageAt_samePage hb, hp]
    rfl
  · rfl

/-- A page that was not there is there after `vm_map_page`, ready to be written and on a frame of its
own. -/
theorem vmMapPage_new (h : SpaceOk ext E s m) (hnone : pageAt s va = none) {protection : ℕ}
    (he : vmMapPage s va protection m = (true, s', m')) :
    (∃ p, pageAt s' va = some p ∧ p.protection = protection ∧ p.copyOnWrite = false ∧
      refsIn s' p.frame + ext p.frame = 1) ∧
    (∀ b, alignDown b ≠ va → pageAt s' b = pageAt s b) ∧
    ∀ f, 0 < refsIn s f + ext f → refsIn s' f = refsIn s f := by
  obtain ⟨ok, s₁, m₁, he', _, _, _, hmapped⟩ := vmMapPage_spec h va protection
  obtain ⟨rfl, rfl, rfl⟩ : true = ok ∧ s' = s₁ ∧ m' = m₁ := by
    rw [he] at he'
    simpa using he'
  cases hmapped with
  | reprotected p old => rw [hnone] at old; cases old
  | created f old fresh refs aligned canonical pages zero =>
    refine ⟨⟨_, by rw [pages, if_pos (alignDown_eq aligned)], rfl, rfl, ?_⟩,
      fun b hb => by rw [pages, if_neg hb], fun g hg => ?_⟩
    · simp only [refs, plusRef_self]
      omega
    · rw [refs, plusRef_of_ne]
      rintro rfl
      omega

/-- **A handled fault** leaves the page ready to be written, and maps it if it was not there. -/
theorem vmHandlePageFault_confined (h : SpaceOk ext E s m) (hi : Iso ext sh s) (ha : a < 2 ^ 47) :
    ∃ r s' m', vmHandlePageFault s a (writeFaultCode (mmuTranslate s a)) m = (r, s', m') ∧
      Confined ext E sh s m s' m' ∧
      ((r = .unhandled ∧ view s' m' = view s m) ∨
       (r ≠ .unhandled ∧ view s' m' = (view s m).map (alignDown a) ∧
        ∃ p, pageAt s' a = some p ∧ canWrite p.protection = true ∧ p.copyOnWrite = false)) := by
  rcases vmHandlePageFault_cases s a (writeFaultCode (mmuTranslate s a)) m with
    ⟨hr, he⟩ | ⟨e, hf, hcow, hr, he⟩ | ⟨_, _, hbit, hr, he⟩
  · exact ⟨_, s, m, Prod.ext hr he, Confined.refl h hi, .inl ⟨rfl, rfl⟩⟩
  · obtain ⟨hu, hva⟩ := findPage_sound h.records hf
    obtain ⟨ok, s', m', hmk, hc, hv, hpage⟩ := makePrivate_confined h hi hu
    rw [hmk] at hr he
    refine ⟨_, s', m', Prod.ext hr he, hc, ?_⟩
    cases ok with
    | false => exact .inl ⟨rfl, hv⟩
    | true =>
      obtain ⟨hat, hprot, hcow', hw⟩ := hpage rfl
      have hold := pageAt_used h.records hu
      rw [hva, pageAt_alignDown] at hat hold
      refine .inr ⟨nofun, ?_, _, hat, ?_, hcow'⟩
      · rw [hv, view_map_of_mapped hold]
      · rw [hprot]
        exact hw hcow
  · -- the fault was on a page that is not present
    have hnone : pageAt s a = none := by
      cases hpage : pageAt s a with
      | none => rfl
      | some p =>
        rw [(h.mmuTranslate_eq ha).1 p hpage, writeFaultCode] at hbit
        simp at hbit
    obtain ⟨ok, s', m', hmap, hc, hv⟩ :=
      vmMapPage_confined h hi (alignDown a) (vmProtRead ||| vmProtWrite)
    rw [hmap] at hr he
    refine ⟨_, s', m', Prod.ext hr he, hc, ?_⟩
    cases ok with
    | false => exact .inl ⟨rfl, hv⟩
    | true =>
      obtain ⟨⟨p, hp, hprot, hcow, -⟩, -⟩ := vmMapPage_new h (by rw [pageAt_alignDown]; exact hnone) hmap
      rw [pageAt_alignDown] at hp
      exact .inr ⟨nofun, hv, p, hp, by rw [hprot]; decide, hcow⟩

/-- **A store by user code** is done or changes nothing, and one retry is enough: the fuel is never
used up. -/
theorem userStore_confined (h : SpaceOk ext E s m) (hi : Iso ext sh s) (a : ℕ) (input : List UInt8)
    (fuel : ℕ) :
    ∃ ok s' m', userStore (fuel + 2) s a input m = (ok, s', m') ∧ Confined ext E sh s m s' m' ∧
      view s' m' = if ok then
        ((view s m).map (alignDown a)).write a (input.take (4096 - a % 4096)) else view s m := by
  by_cases ha : a < 2 ^ 47
  swap
  · exact ⟨false, s, m, by rw [userStore, if_pos (by omega)], Confined.refl h hi, by simp⟩
  have hlen : a % 4096 + (input.take (4096 - a % 4096)).length ≤ 4096 := by
    have hmod : a % 4096 < 4096 := mod_lt _ (by omega)
    rw [length_take]
    omega
  -- the store itself, once the page is ready
  have hdone : ∀ {s₁ m₁ p k}, Confined ext E sh s m s₁ m₁ →
      view s₁ m₁ = (view s m).map (alignDown a) → pageAt s₁ a = some p →
      canWrite p.protection = true → p.copyOnWrite = false →
      ∃ ok s' m', userStore (k + 1) s₁ a input m₁ = (ok, s', m') ∧ Confined ext E sh s m s' m' ∧
        view s' m' = if ok then
          ((view s m).map (alignDown a)).write a (input.take (4096 - a % 4096)) else view s m := by
    intro s₁ m₁ p k hc hv hp hw hcow
    obtain ⟨hc', hv'⟩ := store_confined hc.ok hc.iso hp hw hcow (a % 4096)
      (input.take (4096 - a % 4096))
    refine ⟨true, s₁, _, userStore_ready hc.ok ha hp hw hcow k input, hc.trans hc', ?_⟩
    funext b
    rw [hv', if_pos rfl, SpaceView.write_page _ hlen, hv]
  by_cases hready : ∃ p, pageAt s a = some p ∧ canWrite p.protection = true ∧ p.copyOnWrite = false
  · obtain ⟨p, hp, hw, hcow⟩ := hready
    exact hdone (Confined.refl h hi) (view_map_of_mapped hp).symm hp hw hcow
  · rw [userStore_fault h ha (fun p hp hx => hready ⟨p, hp, hx⟩)]
    obtain ⟨r, s₁, m₁, he, hc, hcase⟩ := vmHandlePageFault_confined h hi ha
    rw [he]
    rcases hcase with ⟨rfl, hv⟩ | ⟨hr, hv, p, hp, hw, hcow⟩
    · exact ⟨false, s₁, m₁, rfl, hc, by rw [hv]; rfl⟩
    · cases r with
      | unhandled => exact absurd rfl hr
      | cow => exact hdone hc hv hp hw hcow
      | demand => exact hdone hc hv hp hw hcow

end NovaOS.Vm
