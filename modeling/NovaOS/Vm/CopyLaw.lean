import NovaOS.Vm.Faults
import NovaOS.Vm.UserBytes

/-!
# What a copy to user memory writes

`vm_copy_to_user` in terms of frames.  A store at an address goes in place to its frame, or, on a
copy-on-write page, to a frame of its own; the frames that other pages see change accordingly, in
whatever space these pages are.

* `Poked`, `vmCopyToUser_poke` — the copy of one byte;
* `StoresTo s c f o` — a store at `c` goes in place to offset `o` of frame `f`;
* `CopyEffect`, `vmCopyToUser_effect` — **the frame law**: a byte keeps its value when every store of the
  range that goes there stores that value, so one where no store goes (`Clear`) keeps it;
* `readBack_iff` — a copy reads back as it was written exactly when no two of its bytes that go to one
  place differ;
* `FramesServed`, `vmCopyToUser_succeeds_iff` — it succeeds exactly on pages that are mapped writable.
-/

namespace NovaOS.Vm

open Function List Nat Option
open NovaOS.Heap (heapStart heapEnd)

variable {ext : ℕ → ℕ} {E : ℕ → Prop} {s s₁ s' : VmSpace} {m m₁ m' : Memory} {a b c e f g o : ℕ}
  {p q : VmPage} {x v : UInt8} {d : List UInt8}

/-- The byte that is mapped at an address, of whatever page. -/
def mappedByte (s : VmSpace) (m : Memory) (b : ℕ) : Option UInt8 :=
  (pageAt s b).map fun p => m.bytes (frameData m p.frame) (b % 4096)

/-! ### One byte -/

/-- `x` was stored at `a`, on page `p`, which has frame `f` now. -/
structure Poked (ext : ℕ → ℕ) (s : VmSpace) (m : Memory) (a : ℕ) (x : UInt8) (p : VmPage) (f : ℕ)
    (s' : VmSpace) (m' : Memory) : Prop where
  page : pageAt s a = some p
  pages : ∀ b, pageAt s' b =
    if alignDown b = alignDown a then some (privatePage p f) else pageAt s b
  plain : p.copyOnWrite = false → f = p.frame
  alone : p.copyOnWrite = true → refsIn s' f + ext f = 1
  stored : ∀ o, m'.bytes (frameData m' f) o =
    if o = a % 4096 then x else m.bytes (frameData m p.frame) o
  others : ∀ g, g ≠ f → 0 < refsIn s' g + ext g → m'.bytes (frameData m' g) = m.bytes (frameData m g)

/-- A store into the page of a frame in use changes that byte of that frame. -/
theorem storeBytes_one (h : SpaceOk ext E s m) (hp : pageAt s a = some p) (o : ℕ) (x : UInt8) :
    (∀ o', (storeBytes m (frameData m p.frame) o [x]).bytes (frameData m p.frame) o' =
      if o' = o then x else m.bytes (frameData m p.frame) o') ∧
    ∀ g, g ≠ p.frame → 0 < refsIn s g + ext g →
      (storeBytes m (frameData m p.frame) o [x]).bytes (frameData m g) = m.bytes (frameData m g) := by
  refine ⟨fun o' => ?_, fun g hg hpos => ?_⟩
  · show update m.bytes (frameData m p.frame) _ (frameData m p.frame) o' = _
    rw [update_self, writeBytes, length_singleton]
    by_cases ho : o' = o
    · rw [if_pos (by omega), if_pos ho, ho, Nat.sub_self]
      rfl
    · rw [if_neg (by omega), if_neg ho]
  · refine update_of_ne ?_ _ m.bytes
    intro heq
    exact hg (h.heap.memory.frameData_inj hpos (Nat.add_pos_left (h.page_pos hp) _) heq)

/-- **The copy of one byte** fails and shows nowhere, or stores the byte. -/
theorem vmCopyToUser_poke (h : SpaceOk ext E s m) (a : ℕ) (x : UInt8) :
    ∃ ok s' m', vmCopyToUser s a [x] m = (ok, s', m') ∧ SpaceOk ext E s' m' ∧
      ((ok = false ∧ s' = s ∧ ∀ g, 0 < refsIn s g + ext g →
        m'.bytes (frameData m' g) = m.bytes (frameData m g)) ∨
       (ok = true ∧ ∃ p f, Poked ext s m a x p f s' m')) := by
  rw [vmCopyToUser_round s a m (cons_ne_nil x [])]
  cases hf : findPage s a with
  | none => exact ⟨false, s, m, rfl, h, .inl ⟨rfl, rfl, fun _ _ => rfl⟩⟩
  | some e =>
    obtain ⟨hu, hva⟩ := findPage_sound h.records hf
    have hold : pageAt s a = some (s.pages e) := by rw [pageAt, hf]; rfl
    simp only
    cases hw : canWrite (s.pages e).protection with
    | false => exact ⟨false, s, m, rfl, h, .inl ⟨rfl, rfl, fun _ _ => rfl⟩⟩
    | true =>
      obtain ⟨ok, s₁, m₁, he, hok, -, hq, hcases⟩ := makePrivate_spec h hu
      have hlive : ∀ g, 0 < refsIn s g + ext g →
          m₁.bytes (frameData m₁ g) = m.bytes (frameData m g) := fun g hg => by
        rw [hq.data g hg, hq.bytes g hg]
      rw [he]
      cases ok with
      | false =>
        obtain ⟨-, -, rfl⟩ | ⟨hc, -⟩ | ⟨hc, -⟩ := hcases
        · exact ⟨false, s₁, m₁, rfl, hok, .inl ⟨rfl, rfl, hlive⟩⟩
        · cases hc
        · cases hc
      | true =>
        have hround : ∀ s₂ m₂, copyRound s₂ e a [x] m₂ =
            (true, s₂, storeBytes m₂ (frameData m₂ (s₂.pages e).frame) (a % 4096) [x]) := by
          intro s₂ m₂
          have hone : min (4096 - a % 4096) [x].length = 1 := by
            rw [length_singleton]
            omega
          rw [copyRound, hone]
          rfl
        refine ⟨true, s₁, _, hround s₁ m₁, hok.bytes _, .inr ⟨rfl, ?_⟩⟩
        obtain ⟨hc, -⟩ | ⟨-, hcow, rfl, rfl⟩ | ⟨-, hcow, -, f, hpages, hat, hsame, hone, -, hle⟩ := hcases
        · cases hc
        · -- written in place
          obtain ⟨hstored, hothers⟩ := storeBytes_one h hold (a % 4096) x
          refine ⟨s₁.pages e, (s₁.pages e).frame, hold, fun b => ?_, fun _ => rfl, ?_, hstored, hothers⟩
          · have hself : privatePage (s₁.pages e) (s₁.pages e).frame = s₁.pages e := by
              rw [privatePage, ← hcow]
            split
            · rename_i hb
              rw [pageAt_samePage hb, hold, hself]
            · rfl
          · intro hc
            rw [hcow] at hc
            cases hc
        · -- the page has a frame of its own now
          have hself : s₁.pages e = privatePage (s.pages e) f := by rw [hpages, update_self]
          have hnew : pageAt s₁ a = some (s₁.pages e) := by rw [hat, if_pos hva.symm, hself]
          have hframe : (s₁.pages e).frame = f := by rw [hself]; rfl
          obtain ⟨hstored, hothers⟩ := storeBytes_one hok hnew (a % 4096) x
          rw [hframe] at hstored hothers
          rw [hframe]
          refine ⟨s.pages e, f, hold, fun b => by rw [hat, hva], ?_, fun _ => hone, fun o => ?_,
            fun g hg hpos => ?_⟩
          · intro hc
            rw [hcow] at hc
            cases hc
          · refine (hstored o).trans ?_
            rw [hsame]
          · -- other frames in use were in use before
            rw [← hlive g (by have := hle g hg; omega)]
            exact hothers g hg hpos

section

variable (h : Poked ext s m a x p f s' m')

include h

theorem Poked.self : pageAt s' a = some (privatePage p f) := by
  rw [h.pages, if_pos rfl]

/-- What stands on the page of `a`, before and after. -/
theorem Poked.same (hb : alignDown b = alignDown a) :
    (∀ q, pageAt s b = some q → q = p) ∧ ∀ q, pageAt s' b = some q → q = privatePage p f := by
  rw [pageAt_samePage hb, pageAt_samePage hb, h.page, h.self]
  exact ⟨fun _ hq => (some.inj hq).symm, fun _ hq => (some.inj hq).symm⟩

/-- Without copy-on-write the records stay. -/
theorem Poked.records (hcow : p.copyOnWrite = false) (b : ℕ) : pageAt s' b = pageAt s b := by
  rw [h.pages]
  split
  · rename_i hb
    rw [pageAt_samePage hb, h.page, h.plain hcow, privatePage, ← hcow]
  · rfl

/-- With it, the page is the only one of its frame. -/
theorem Poked.unique (hok : SpaceOk ext E s' m')
    (hcow : p.copyOnWrite = true) :
    ext f = 0 ∧ ∀ b q, pageAt s' b = some q → q.frame = f → alignDown b = alignDown a := by
  have hone := h.alone hcow
  have hframe : (privatePage p f).frame = f := rfl
  have hpos := hok.page_pos h.self
  rw [hframe] at hpos
  refine ⟨by omega, fun b q hq hqf => ?_⟩
  exact hok.page_unique hq h.self (hqf.trans hframe.symm) (by rw [hqf]; omega)

end

/-! ### Where stores go -/

/-- A store at `c` goes in place to offset `o` of frame `f`. -/
def StoresTo (s : VmSpace) (c f o : ℕ) : Prop :=
  ∃ p, pageAt s c = some p ∧ p.copyOnWrite = false ∧ p.frame = f ∧ c % 4096 = o

/-- A frame with a reference elsewhere is one that stores went to before. -/
theorem Poked.storesTo (h : Poked ext s m a x p f s' m') (hok : SpaceOk ext E s' m')
    (hc : StoresTo s' c g o)
    (hother : 0 < ext g ∨ ∃ b q, pageAt s' b = some q ∧ q.frame = g ∧ alignDown b ≠ alignDown c) :
    StoresTo s c g o := by
  obtain ⟨r, hr, hplain, hframe, hoffset⟩ := hc
  cases hcow : p.copyOnWrite with
  | false =>
    rw [h.records hcow] at hr
    exact ⟨r, hr, hplain, hframe, hoffset⟩
  | true =>
    obtain ⟨hext, hunique⟩ := h.unique hok hcow
    by_cases hca : alignDown c = alignDown a
    · -- the page that was just made private has no such frame
      have hself := (h.same hca).2 r hr
      have hgf : g = f := by rw [← hframe, hself]; rfl
      exfalso
      rcases hother with hpos | ⟨b, q, hq, hqg, hne⟩
      · rw [hgf, hext] at hpos
        omega
      · exact hne ((hunique b q hq (hqg.trans hgf)).trans hca.symm)
    · rw [h.pages, if_neg hca] at hr
      exact ⟨r, hr, hplain, hframe, hoffset⟩

/-- Two addresses at one offset are on different pages. -/
theorem alignDown_ne_of_offset (hne : b ≠ c) (ho : b % 4096 = c % 4096) : alignDown b ≠ alignDown c := by
  have hb := alignDown_add_mod b
  have hc := alignDown_add_mod c
  intro heq
  omega

/-- Another address that goes to the place of `b` is on another page. -/
theorem StoresTo.apart (h : StoresTo s c f (b % 4096)) (hne : b ≠ c) : alignDown b ≠ alignDown c := by
  obtain ⟨-, -, -, -, ho⟩ := h
  exact alignDown_ne_of_offset hne ho.symm

/-! ### The frame law -/

/-- What the copy of `d` to `a` does to the rest: pages stay where they are, and a byte keeps its value
when every store of the range that goes there stores that value. -/
structure CopyEffect (ext : ℕ → ℕ) (s : VmSpace) (m : Memory) (a : ℕ) (d : List UInt8) (s' : VmSpace)
    (m' : Memory) : Prop where
  absent : ∀ b, pageAt s b = none → pageAt s' b = none
  plain : ∀ b p, pageAt s b = some p → p.copyOnWrite = false → pageAt s' b = some p
  outside : ∀ g o, 0 < ext g →
    (∀ k, k < d.length → StoresTo s (a + k) g o → d.getD k 0 = m.bytes (frameData m g) o) →
    m'.bytes (frameData m' g) o = m.bytes (frameData m g) o
  inside : ∀ b q, pageAt s b = some q → (b < a ∨ a + d.length ≤ b) →
    (∀ k, k < d.length → StoresTo s (a + k) q.frame (b % 4096) →
      d.getD k 0 = m.bytes (frameData m q.frame) (b % 4096)) →
    mappedByte s' m' b = some (m.bytes (frameData m q.frame) (b % 4096))

theorem CopyEffect.of_same (h : SpaceOk ext E s m)
    (hbytes : ∀ g, 0 < refsIn s g + ext g → m'.bytes (frameData m' g) = m.bytes (frameData m g)) :
    CopyEffect ext s m a d s m' := by
  refine ⟨fun _ hb => hb, fun _ _ hp _ => hp, fun g o hg _ => ?_, fun b q hq _ _ => ?_⟩
  · rw [hbytes g (Nat.add_pos_right _ hg)]
  · rw [mappedByte, hq, map_some, hbytes _ (Nat.add_pos_left (h.page_pos hq) _)]

section

variable (h : Poked ext s m a x p f s₁ m₁) (hok : SpaceOk ext E s₁ m₁)

include h hok

/-- What the first byte does to a frame that others refer to. -/
theorem Poked.outside (hg : 0 < ext g)
    (hx : StoresTo s a g o → x = m.bytes (frameData m g) o) :
    m₁.bytes (frameData m₁ g) o = m.bytes (frameData m g) o := by
  by_cases hgf : g = f
  · cases hcow : p.copyOnWrite with
    | true =>
      have hext := (h.unique hok hcow).1
      rw [← hgf] at hext
      omega
    | false =>
      have hframe : g = p.frame := hgf.trans (h.plain hcow)
      rw [hgf, h.stored, ← hgf, hframe]
      split
      · rename_i ho
        rw [← hframe]
        exact hx ⟨p, h.page, hcow, hframe.symm, ho.symm⟩
      · rfl
  · rw [h.others g hgf (Nat.add_pos_right _ hg)]

/-- What it does to another byte of the space. -/
theorem Poked.inside
    (hq : pageAt s b = some q) (hne : b ≠ a)
    (hx : StoresTo s a q.frame (b % 4096) → x = m.bytes (frameData m q.frame) (b % 4096)) :
    mappedByte s₁ m₁ b = some (m.bytes (frameData m q.frame) (b % 4096)) := by
  rw [mappedByte, h.pages]
  by_cases hb : alignDown b = alignDown a
  · -- another byte of the page
    have hqp := (h.same hb).1 q hq
    have hoffset : b % 4096 ≠ a % 4096 := fun ho => alignDown_ne_of_offset hne ho hb
    rw [if_pos hb, map_some]
    refine congrArg some ((h.stored _).trans ?_)
    rw [if_neg hoffset, hqp]
  · rw [if_neg hb, hq, map_some]
    have hq₁ : pageAt s₁ b = some q := by rw [h.pages, if_neg hb, hq]
    by_cases hqf : q.frame = f
    · cases hcow : p.copyOnWrite with
      | true => exact absurd ((h.unique hok hcow).2 b q hq₁ hqf) hb
      | false =>
        have hframe : q.frame = p.frame := hqf.trans (h.plain hcow)
        rw [hqf, h.stored, ← hqf, hframe]
        split
        · rename_i ho
          rw [← hframe]
          exact congrArg some (hx ⟨p, h.page, hcow, hframe.symm, ho.symm⟩)
        · rfl
    · rw [h.others _ hqf (Nat.add_pos_left (hok.page_pos hq₁) _)]

theorem CopyEffect.cons
    (hrest : CopyEffect ext s₁ m₁ (a + 1) d s' m') : CopyEffect ext s m a (x :: d) s' m' := by
  have hlater : ∀ k, a + 1 + k = a + (k + 1) := fun k => by omega
  refine ⟨fun b hb => ?_, fun b q hq hplain => ?_, fun g o hg hstores => ?_,
    fun b q hq hout hstores => ?_⟩
  · refine hrest.absent b ?_
    rw [h.pages, if_neg, hb]
    intro heq
    rw [pageAt_samePage heq, h.page] at hb
    cases hb
  · refine hrest.plain b q ?_ hplain
    rw [h.pages]
    split
    · rename_i hb
      have hqp := (h.same hb).1 q hq
      rw [hqp] at hplain ⊢
      rw [h.plain hplain, privatePage, ← hplain]
    · exact hq
  · have hfirst := h.outside hok hg fun hs => hstores 0 (by simp) hs
    rw [← hfirst]
    refine hrest.outside g o hg fun k hk hs => ?_
    rw [hfirst]
    have hs' := h.storesTo hok hs (.inl hg)
    rw [hlater] at hs'
    exact hstores (k + 1) (by rw [length_cons]; omega) hs'
  · rw [length_cons] at hout
    have hfirst := h.inside hok hq (by omega) fun hs => hstores 0 (by simp) hs
    obtain ⟨q₁, hq₁, hbyte⟩ := map_eq_some_iff.1 hfirst
    rw [← hbyte]
    refine hrest.inside b q₁ hq₁ (by omega) fun k hk hs => ?_
    rw [hbyte]
    -- a later store to that byte went there before, too
    have hne := hs.apart (by omega)
    have hs' := h.storesTo hok hs (.inr ⟨b, q₁, hq₁, rfl, hne⟩)
    have hframe : q₁.frame = q.frame := by
      cases hcow : p.copyOnWrite with
      | false =>
        rw [h.records hcow, hq] at hq₁
        rw [some.inj hq₁]
      | true =>
        by_cases hb : alignDown b = alignDown a
        · obtain ⟨r, hr, -, hrf, -⟩ := hs
          have hself := (h.same hb).2 q₁ hq₁
          have hat := (h.unique hok hcow).2 _ r hr (by rw [hrf, hself]; rfl)
          exact absurd (hb.trans hat.symm) hne
        · rw [h.pages, if_neg hb, hq] at hq₁
          rw [some.inj hq₁]
    rw [hframe, hlater] at hs'
    exact hstores (k + 1) (by rw [length_cons]; omega) hs'

end

theorem vmCopyToUser_cons (s : VmSpace) (m : Memory) (x : UInt8) (hword : a + (x :: d).length ≤ 2 ^ 64) :
    vmCopyToUser s a (x :: d) m =
      match vmCopyToUser s a [x] m with
      | (false, s, m) => (false, s, m)
      | (true, s, m) => vmCopyToUser s (a + 1) d m := by
  rw [length_cons] at hword
  have happend := vmCopyToUser_append s a [x] d m (by omega)
  rw [singleton_append, length_singleton] at happend
  rw [happend]
  cases d with
  | nil => rfl
  | cons y d =>
    rw [length_cons] at hword
    have hnext : (a + 1) % 2 ^ 64 = a + 1 := mod_eq_of_lt (by omega)
    rcases vmCopyToUser s a [x] m with ⟨_ | _, s', m'⟩
    · rfl
    · exact congrArg (fun b => vmCopyToUser s' b (y :: d) m') hnext

/-- **The frame law of `vm_copy_to_user`**, for a copy that is complete or not. -/
theorem vmCopyToUser_effect (h : SpaceOk ext E s m) (hword : a + d.length ≤ 2 ^ 64) :
    CopyEffect ext s m a d (vmCopyToUser s a d m).2.1 (vmCopyToUser s a d m).2.2 := by
  induction d generalizing s m a with
  | nil => exact .of_same h fun _ _ => rfl
  | cons x d ih =>
    rw [vmCopyToUser_cons s m x hword]
    rw [length_cons] at hword
    obtain ⟨ok, s₁, m₁, he, hok, ⟨rfl, rfl, hbytes⟩ | ⟨rfl, p, f, hpoked⟩⟩ := vmCopyToUser_poke h a x
    · rw [he]
      exact .of_same h hbytes
    · rw [he]
      exact .cons hpoked hok (ih hok (by omega))

/-- No store to the `n` bytes at `a` goes to the place of `b`. -/
def Clear (s : VmSpace) (a n b : ℕ) : Prop :=
  (b < a ∨ a + n ≤ b) ∧
    ∀ q, pageAt s b = some q → ∀ k, k < n → ¬ StoresTo s (a + k) q.frame (b % 4096)

theorem CopyEffect.kept (h : CopyEffect ext s m a d s' m') (hclear : Clear s a d.length b) :
    mappedByte s' m' b = mappedByte s m b := by
  cases hq : pageAt s b with
  | none => rw [mappedByte, mappedByte, h.absent b hq, hq]; rfl
  | some q =>
    rw [h.inside b q hq hclear.1 fun k hk hs => absurd hs (hclear.2 q hq k hk), mappedByte, hq]
    rfl

/-! ### Other pages -/

/-- What is stored on the page of `a` does not show on that of `c`. -/
structure Beside (s : VmSpace) (a c : ℕ) : Prop where
  pages : alignDown a ≠ alignDown c
  frames : ∀ p q, pageAt s a = some p → pageAt s c = some q → p.copyOnWrite = false → p.frame ≠ q.frame

theorem Poked.beside (h : Poked ext s m b x p f s' m') (hok : SpaceOk ext E s' m') (hbeside : Beside s a c)
    (hb : alignDown b = alignDown a) : Beside s' a c := by
  refine ⟨hbeside.pages, fun p' q hp' hq _ heq => ?_⟩
  rw [pageAt_samePage hb.symm, h.self] at hp'
  rw [← some.inj hp'] at heq
  cases hcow : p.copyOnWrite with
  | true =>
    have hsame := (h.unique hok hcow).2 c q hq heq.symm
    exact hbeside.pages (hb.symm.trans hsame.symm)
  | false =>
    have hp : pageAt s a = some p := (pageAt_samePage hb.symm).trans h.page
    rw [h.records hcow] at hq
    exact hbeside.frames p q hp hq hcow ((h.plain hcow).symm.trans heq)

theorem Beside.clear {n : ℕ} (hbeside : Beside s a c) (hin : ∀ k, k < n → alignDown (b + k) = alignDown a)
    (ho : alignDown o = alignDown c) : Clear s b n o := by
  constructor
  · by_contra hmeets
    have hpage := hin (o - b) (by omega)
    rw [show b + (o - b) = o by omega, ho] at hpage
    exact hbeside.pages hpage.symm
  · rintro q hq k hk ⟨p, hp, hplain, hframe, -⟩
    exact hbeside.frames p q ((pageAt_samePage (hin k hk).symm).trans hp)
      ((pageAt_samePage ho.symm).trans hq) hplain hframe

/-- **A copy to one page leaves the pages beside it alone.** -/
theorem Beside.copy (hbeside : Beside s a c) (h : SpaceOk ext E s m)
    (hin : ∀ k, k < d.length → alignDown (b + k) = alignDown a) (hword : b + d.length ≤ 2 ^ 64) :
    let r := vmCopyToUser s b d m
    SpaceOk ext E r.2.1 r.2.2 ∧ Beside r.2.1 a c ∧
      ∀ o, alignDown o = alignDown c → mappedByte r.2.1 r.2.2 o = mappedByte s m o := by
  refine and_assoc.1 ⟨?_, fun o ho => (vmCopyToUser_effect h hword).kept (hbeside.clear hin ho)⟩
  induction d generalizing s m b with
  | nil => exact ⟨h, hbeside⟩
  | cons x d ih =>
    rw [vmCopyToUser_cons s m x hword]
    rw [length_cons] at hin hword
    obtain ⟨ok, s₁, m₁, he, hok, ⟨rfl, rfl, -⟩ | ⟨rfl, p, f, hpoked⟩⟩ := vmCopyToUser_poke h b x
    · rw [he]
      exact ⟨hok, hbeside⟩
    · rw [he]
      have hnext : ∀ k, k < d.length → alignDown (b + 1 + k) = alignDown a := fun k hk => by
        rw [add_assoc, add_comm 1 k]
        exact hin (k + 1) (by omega)
      exact ih (hpoked.beside hok hbeside (hin 0 (by omega))) hok hnext (by omega)

/-! ### Reading back -/

/-- A copy from user memory gives the bytes that are mapped. -/
theorem vmCopyFromUser_eq_some_iff (hword : a + d.length ≤ 2 ^ 64) :
    vmCopyFromUser s a d.length m = some d ↔
      ∀ k, k < d.length → mappedByte s m (a + k) = some (d.getD k 0) := by
  induction d generalizing a with
  | nil => exact ⟨fun _ k hk => absurd hk (not_lt_zero k), fun _ => rfl⟩
  | cons x d ih =>
    rw [length_cons] at hword
    have hnext : vmCopyFromUser s ((a + 1) % 2 ^ 64) d.length m = vmCopyFromUser s (a + 1) d.length m := by
      cases d with
      | nil => rfl
      | cons y d =>
        rw [length_cons] at hword
        rw [mod_eq_of_lt (by omega)]
    rw [length_cons, add_comm d.length 1, vmCopyFromUser_add s a 1 d.length m (by omega), hnext,
      vmCopyFromUser_one]
    have hsplit : (∀ k, k < 1 + d.length → mappedByte s m (a + k) = some ((x :: d).getD k 0)) ↔
        mappedByte s m a = some x ∧
          ∀ k, k < d.length → mappedByte s m (a + 1 + k) = some (d.getD k 0) := by
      refine ⟨fun hall => ⟨hall 0 (by omega), fun k hk => ?_⟩, fun hall k hk => ?_⟩
      · have hk' := hall (k + 1) (by omega)
        rwa [show a + (k + 1) = a + 1 + k by omega] at hk'
      · cases k with
        | zero => exact hall.1
        | succ k =>
          have hk' := hall.2 k (by omega)
          rwa [show a + 1 + k = a + (k + 1) by omega] at hk'
    rw [hsplit, ← ih (by omega), mappedByte]
    cases pageAt s a with
    | none => simp
    | some p =>
      cases vmCopyFromUser s (a + 1) d.length m with
      | none => simp
      | some y => simp

/-- Bytes of the range that go to one place are given one value. -/
def Agree (s : VmSpace) (a : ℕ) (d : List UInt8) : Prop :=
  ∀ j k, j < k → k < d.length → ∀ f o, StoresTo s (a + j) f o → StoresTo s (a + k) f o →
    d.getD j 0 = d.getD k 0

/-- Bytes less than a page apart go to different places. -/
theorem agree_of_short (hd : d.length ≤ 4096) : Agree s a d := by
  intro j k hjk hk f o hj hk'
  obtain ⟨-, -, -, -, hoj⟩ := hj
  obtain ⟨-, -, -, -, hok⟩ := hk'
  omega

theorem Agree.rest (h : Poked ext s m a x p f s₁ m₁) (hok : SpaceOk ext E s₁ m₁)
    (hagree : Agree s a (x :: d)) : Agree s₁ (a + 1) d := by
  intro j k hjk hk g o hj hk'
  have hapart : alignDown (a + 1 + j) ≠ alignDown (a + 1 + k) := by
    obtain ⟨-, -, -, -, hoj⟩ := hj
    obtain ⟨-, -, -, -, hok'⟩ := hk'
    exact alignDown_ne_of_offset (by omega) (hoj.trans hok'.symm)
  obtain ⟨q, hq, -, hqg, -⟩ := id hj
  obtain ⟨r, hr, -, hrg, -⟩ := id hk'
  have hj₀ := h.storesTo hok hj (.inr ⟨_, r, hr, hrg, hapart.symm⟩)
  have hk₀ := h.storesTo hok hk' (.inr ⟨_, q, hq, hqg, hapart⟩)
  rw [show a + 1 + j = a + (j + 1) by omega] at hj₀
  rw [show a + 1 + k = a + (k + 1) by omega] at hk₀
  exact hagree (j + 1) (k + 1) (by omega) (by rw [length_cons]; omega) g o hj₀ hk₀

/-- Each byte of a copy is there in the end, where the bytes agree. -/
theorem mappedByte_of_copy (h : SpaceOk ext E s m) (hword : a + d.length ≤ 2 ^ 64)
    (he : vmCopyToUser s a d m = (true, s', m')) (hagree : Agree s a d) :
    ∀ k, k < d.length → mappedByte s' m' (a + k) = some (d.getD k 0) := by
  induction d generalizing s m a with
  | nil => exact fun k hk => absurd hk (not_lt_zero k)
  | cons x d ih =>
    rw [vmCopyToUser_cons s m x hword] at he
    rw [length_cons] at hword
    obtain ⟨ok, s₁, m₁, hfirst, hok, ⟨rfl, -, -⟩ | ⟨rfl, p, f, hpoked⟩⟩ := vmCopyToUser_poke h a x
    · rw [hfirst] at he
      cases he
    rw [hfirst] at he
    simp only at he
    have hrest := ih hok (by omega) he (hagree.rest hpoked hok)
    intro k hk
    cases k with
    | succ k =>
      have hk' := hrest k (by rw [length_cons] at hk; omega)
      rwa [show a + 1 + k = a + (k + 1) by omega] at hk'
    | zero =>
      -- the first byte: what goes to its place later is the same byte
      have heffect := vmCopyToUser_effect (d := d) hok (show a + 1 + d.length ≤ 2 ^ 64 by omega)
      rw [he] at heffect
      have hbyte : m₁.bytes (frameData m₁ f) (a % 4096) = x := by rw [hpoked.stored, if_pos rfl]
      have hkept := heffect.inside a _ hpoked.self (.inl (by omega)) fun k hk hs => ?_
      · exact hkept.trans (congrArg some hbyte)
      refine Eq.trans ?_ hbyte.symm
      have hs' : StoresTo s₁ (a + 1 + k) f (a % 4096) := hs
      have hne := hs'.apart (by omega)
      cases hcow : p.copyOnWrite with
      | true =>
        obtain ⟨r, hr, -, hrf, -⟩ := hs'
        exact absurd ((hpoked.unique hok hcow).2 _ r hr hrf).symm hne
      | false =>
        have hlater := hpoked.storesTo hok hs' (.inr ⟨a, _, hpoked.self, rfl, hne⟩)
        rw [show a + 1 + k = a + (k + 1) by omega] at hlater
        exact (hagree 0 (k + 1) (by omega) (by rw [length_cons]; omega) f (a % 4096)
          ⟨p, hpoked.page, hcow, (hpoked.plain hcow).symm, rfl⟩ hlater).symm

theorem vmCopyFromUser_congr {n : ℕ} (hword : a + n ≤ 2 ^ 64)
    (hbytes : ∀ k, k < n → mappedByte s' m' (a + k) = mappedByte s m (a + k)) :
    vmCopyFromUser s' a n m' = vmCopyFromUser s a n m := by
  ext d
  refine ⟨fun hread => ?_, fun hread => ?_⟩
  all_goals
    obtain rfl := length_of_vmCopyFromUser hread
    rw [vmCopyFromUser_eq_some_iff hword] at hread ⊢
    exact fun k hk => by simpa only [hbytes k hk] using hread k hk

/-- **A copy reads back** exactly when its bytes agree. -/
theorem readBack_iff (h : SpaceOk ext E s m) (hword : a + d.length ≤ 2 ^ 64)
    (hdone : (vmCopyToUser s a d m).1 = true) :
    vmCopyFromUser (vmCopyToUser s a d m).2.1 a d.length (vmCopyToUser s a d m).2.2 = some d ↔
      Agree s a d := by
  rcases he : vmCopyToUser s a d m with ⟨ok, s', m'⟩
  obtain rfl : ok = true := by rwa [he] at hdone
  rw [vmCopyFromUser_eq_some_iff hword]
  refine ⟨fun hall j k hjk hk f o hj hk' => ?_, mappedByte_of_copy h hword he⟩
  have heffect := vmCopyToUser_effect (d := d) h hword
  rw [he] at heffect
  -- pages that are stored to in place are the same at the end
  have hplace : ∀ c, StoresTo s c f o → mappedByte s' m' c = some (m'.bytes (frameData m' f) o) := by
    rintro c ⟨p, hp, hplain, rfl, rfl⟩
    rw [mappedByte, heffect.plain c p hp hplain, map_some]
  have hj₁ := (hplace _ hj).symm.trans (hall j (by omega))
  have hk₁ := (hplace _ hk').symm.trans (hall k hk)
  exact some.inj (hj₁.symm.trans hk₁)

/-- A copy of at most a page reads back, wherever it goes. -/
theorem readBack_short (h : SpaceOk ext E s m) (hd : d.length ≤ 4096)
    (hdone : (vmCopyToUser s a d m).1 = true) :
    vmCopyFromUser (vmCopyToUser s a d m).2.1 a d.length (vmCopyToUser s a d m).2.2 = some d := by
  by_cases hne : d = []
  · rw [hne]
    rfl
  have hlow : a < 2 ^ 47 := by
    cases hf : findPage s a with
    | none =>
      rw [vmCopyToUser_round s a m hne, hf] at hdone
      cases hdone
    | some e => exact h.low_of_page (p := s.pages e) (by rw [pageAt, hf]; rfl)
  exact (readBack_iff h (by omega) hdone).2 (agree_of_short hd)

/-! ### Frames to be had -/

/-- The next `n` calls of `vm_frame_create` return a frame. -/
def FramesServed : ℕ → Memory → Prop
  | 0, _ => True
  | n + 1, m => (vmFrameCreate m).1.isSome = true ∧ FramesServed n (vmFrameCreate m).2

/-- The allocator is in the same state. -/
structure SameHeap (m m' : Memory) : Prop where
  blocks : m'.blocks = m.blocks
  choices : m'.choices = m.choices
  calls : m'.calls = m.calls

theorem SameHeap.alloc (h : SameHeap m m') (size : ℕ) :
    (heapAlloc size m').1 = (heapAlloc size m).1 ∧ SameHeap (heapAlloc size m).2 (heapAlloc size m').2 := by
  rw [heapAlloc, heapAlloc, h.choices, h.calls, h.blocks]
  cases m.choices m.calls with
  | none => exact ⟨rfl, rfl, rfl, rfl⟩
  | some pointer =>
    simp only
    split
    · exact ⟨rfl, rfl, rfl, rfl⟩
    · exact ⟨rfl, rfl, rfl, rfl⟩

theorem SameHeap.create (h : SameHeap m m') :
    (vmFrameCreate m').1.isSome = (vmFrameCreate m).1.isSome ∧
      SameHeap (vmFrameCreate m).2 (vmFrameCreate m').2 := by
  obtain ⟨hrecord, h₁⟩ := h.alloc frameRecordSize
  rw [vmFrameCreate, vmFrameCreate]
  generalize heapAlloc frameRecordSize m = first at hrecord h₁ ⊢
  generalize heapAlloc frameRecordSize m' = first' at hrecord h₁ ⊢
  obtain ⟨r, m₁⟩ := first
  obtain ⟨r', m₁'⟩ := first'
  obtain rfl : r' = r := hrecord
  cases r' with
  | none => exact ⟨rfl, h₁⟩
  | some frame =>
    simp only
    rw [alignedHeapAlloc_page, alignedHeapAlloc_page]
    have hboth : SameHeap m₁ m₁' := h₁
    obtain ⟨hpage, h₂⟩ := hboth.alloc (4096 + 4096 - 1)
    generalize heapAlloc (4096 + 4096 - 1) m₁ = second at hpage h₂ ⊢
    generalize heapAlloc (4096 + 4096 - 1) m₁' = second' at hpage h₂ ⊢
    obtain ⟨r, m₂⟩ := second
    obtain ⟨r', m₂'⟩ := second'
    obtain rfl : r' = r := hpage
    cases r' with
    | none =>
      have hfree : (heapFree frame m₂').blocks = (heapFree frame m₂).blocks := by
        show m₂'.blocks.filter _ = m₂.blocks.filter _
        rw [h₂.blocks]
      exact ⟨rfl, hfree, h₂.choices, h₂.calls⟩
    | some raw => exact ⟨rfl, h₂.blocks, h₂.choices, h₂.calls⟩

theorem FramesServed.congr {n : ℕ} (h : FramesServed n m) (hsame : SameHeap m m') : FramesServed n m' := by
  induction n generalizing m m' with
  | zero => trivial
  | succ n ih =>
    obtain ⟨hsome, hnext⟩ := hsame.create
    exact ⟨hsome.trans h.1, ih h.2 hnext⟩

theorem FramesServed.pred {n : ℕ} (h : FramesServed (n + 1) m) : FramesServed n m := by
  induction n generalizing m with
  | zero => trivial
  | succ n ih => exact ⟨h.1, ih h.2⟩

/-- `make_private` takes at most one frame. -/
theorem makePrivate_served (h : SpaceOk ext E s m) {n : ℕ} (hserved : FramesServed (n + 1) m) :
    FramesServed n (makePrivate s e m).2.2 := by
  -- a frame others use loses a reference and stays
  have hprivate : FramesServed n (privateFrame (s.pages e).frame m).2 := by
    rw [privateFrame]
    split
    · rename_i hmany
      obtain ⟨m₁, hcreate, -⟩ | ⟨g, m₁, hcreate, hc, -⟩ := h.create
      · rw [hcreate]
        have hrest := hserved.2
        rwa [hcreate] at hrest
      · have hrest := hserved.2
        rw [hcreate] at hrest
        rw [hcreate]
        refine hrest.congr ?_
        obtain ⟨r, hr, hcount⟩ : ∃ r, m.frames (s.pages e).frame = some r ∧ 1 < r.references := by
          rw [frameReferences] at hmany
          cases hr : m.frames (s.pages e).frame with
          | none =>
            rw [hr] at hmany
            exact absurd hmany (not_lt_zero 1)
          | some r =>
            rw [hr] at hmany
            exact ⟨r, rfl, hmany⟩
        have hne : (s.pages e).frame ≠ g := by
          intro heq
          rw [heq, hc.fresh] at hr
          cases hr
        obtain ⟨alloc, hframes⟩ := hc.frames
        have hr₁ : m₁.frames (s.pages e).frame = some r := by rw [hframes, update_of_ne hne, hr]
        have hkeeps : ∀ m₂ : Memory, m₂.frames (s.pages e).frame = some r →
            SameHeap m₂ (vmFrameRelease (s.pages e).frame m₂) := by
          intro m₂ hr₂
          rw [vmFrameRelease, hr₂]
          simp only
          rw [if_neg (by omega), if_pos (by omega)]
          exact ⟨rfl, rfl, rfl⟩
        have hlast := hkeeps (copyPage m₁ (frameData m₁ g) (frameData m₁ (s.pages e).frame)) hr₁
        exact ⟨hlast.blocks, hlast.choices, hlast.calls⟩
    · exact hserved.pred
  rw [makePrivate]
  split
  · exact hserved.pred
  · split
    · exact hserved.pred
    · rcases hmade : privateFrame (s.pages e).frame m with ⟨_ | g, m₁⟩
      · rw [hmade] at hprivate
        exact hprivate
      · rw [hmade] at hprivate
        exact hprivate

theorem makePrivate_mappedWritable (h : SpaceOk ext E s m) (hu : UsedRecord s e) (b : ℕ) :
    MappedWritable (makePrivate s e m).2.1 b ↔ MappedWritable s b := by
  obtain ⟨ok, s', m', he, -, -, -, hcases⟩ := makePrivate_spec h hu
  rw [he]
  obtain ⟨-, -, rfl⟩ | ⟨-, -, rfl, -⟩ | ⟨-, -, -, g, -, hat, -⟩ := hcases
  · exact Iff.rfl
  · exact Iff.rfl
  · rw [MappedWritable, MappedWritable, hat]
    split
    · rename_i hb
      rw [← pageAt_alignDown s b, hb, pageAt_used h.records hu]
      simp [privatePage]
    · exact Iff.rfl

/-- **`vm_copy_to_user` succeeds** exactly when every page of its range is mapped writable, where there
is a frame for each of them. -/
theorem vmCopyToUser_succeeds_iff (h : SpaceOk ext E s m) (hword : a + d.length ≤ 2 ^ 64)
    (hserved : FramesServed ((a % 4096 + d.length + 4095) / 4096) m) :
    (vmCopyToUser s a d m).1 = true ↔ ∀ k, k < d.length → MappedWritable s (a + k) := by
  -- by induction on the rounds, one page each
  induction hn : d.length using Nat.strong_induction_on generalizing s m a d with
  | _ n ih =>
    subst hn
    by_cases hd : d = []
    · rw [hd]
      exact ⟨fun _ k hk => absurd hk (not_lt_zero k), fun _ => rfl⟩
    have hpos : 0 < d.length := length_pos_iff.2 hd
    rw [vmCopyToUser_round s a m hd]
    -- the addresses of the first round are on one page
    have hfirst : ∀ k, a % 4096 + k < 4096 → (MappedWritable s (a + k) ↔ MappedWritable s a) := by
      intro k hk
      have hpage : alignDown (a + k) = alignDown a := by unfold alignDown; omega
      rw [MappedWritable, MappedWritable, pageAt_samePage hpage]
    have hmissing : ¬ MappedWritable s a → ¬ ∀ k, k < d.length → MappedWritable s (a + k) :=
      fun hnot hall => hnot (hall 0 hpos)
    cases hf : findPage s a with
    | none =>
      refine ⟨fun hno => (by cases hno), fun hall => absurd hall (hmissing ?_)⟩
      rintro ⟨p, hp, -⟩
      rw [pageAt, hf] at hp
      cases hp
    | some e =>
      obtain ⟨hu, -⟩ := findPage_sound h.records hf
      have hold : pageAt s a = some (s.pages e) := by rw [pageAt, hf]; rfl
      simp only
      cases hw : canWrite (s.pages e).protection with
      | false =>
        refine ⟨fun hno => (by cases hno), fun hall => absurd hall (hmissing ?_)⟩
        rintro ⟨p, hp, hpw⟩
        rw [hold] at hp
        rw [← some.inj hp, hw] at hpw
        cases hpw
      | true =>
        have hwritable : MappedWritable s a := ⟨_, hold, hw⟩
        obtain ⟨pages, hpages⟩ : ∃ pages, (a % 4096 + d.length + 4095) / 4096 = pages + 1 :=
          ⟨(a % 4096 + d.length + 4095) / 4096 - 1, by omega⟩
        rw [hpages] at hserved
        have hok := makePrivate_succeeds h hu hw hserved.1
        have hsame := makePrivate_mappedWritable h hu
        have hrest := makePrivate_served (e := e) h hserved
        have hruns := Runs.makePrivate ⟨h, Kept.refl ext E m⟩ hu
        rcases hmk : makePrivate s e m with ⟨ok, s₁, m₁⟩
        rw [hmk] at hok hsame hrest hruns
        obtain rfl : ok = true := hok
        simp only [Bool.not_true, Bool.false_eq_true, if_false]
        rw [copyRound]
        by_cases hlast : a % 4096 + d.length ≤ 4096
        · -- the last round
          rw [min_eq_right (by omega), drop_length, vmCopyToUser_nil]
          exact ⟨fun _ k hk => (hfirst k (by omega)).2 hwritable, fun _ => rfl⟩
        · rw [min_eq_left (by omega), mod_eq_of_lt (by omega)]
          have hlength : (d.drop (4096 - a % 4096)).length = d.length - (4096 - a % 4096) :=
            length_drop
          generalize hm₂ : storeBytes m₁ (frameData m₁ (s₁.pages e).frame) (a % 4096)
            (d.take (4096 - a % 4096)) = m₂
          have hok₂ : SpaceOk ext E s₁ m₂ := hm₂ ▸ hruns.ok.bytes _
          have hserved₂ : FramesServed pages m₂ := hm₂ ▸ hrest.congr ⟨rfl, rfl, rfl⟩
          have hiff := ih _ (by omega) hok₂ (a := a + (4096 - a % 4096))
            (d := d.drop (4096 - a % 4096)) (by omega) (by
              rwa [hlength, show
                ((a + (4096 - a % 4096)) % 4096 + (d.length - (4096 - a % 4096)) + 4095) / 4096 = pages
                from by omega]) hlength
          constructor
          · intro hdone k hk
            by_cases hround : a % 4096 + k < 4096
            · exact (hfirst k hround).2 hwritable
            · have hk' := (hsame _).1 (hiff.1 hdone (k - (4096 - a % 4096)) (by omega))
              rwa [show a + (4096 - a % 4096) + (k - (4096 - a % 4096)) = a + k by omega] at hk'
          · intro hall
            refine hiff.2 fun k hk => (hsame _).2 ?_
            rw [add_assoc]
            exact hall _ (by omega)

/-! ### The law -/

/-- The byte mapped at `b` in space `j`. -/
def World.byte (w : World) (j b : ℕ) : Option UInt8 := (w.spaces j).bind fun t => mappedByte t w.memory b

/-- Byte `b` of space `j` lies in a frame, where a store of the range of space `i` goes in place. -/
def World.Aliases (w : World) (i a size j b : ℕ) : Prop :=
  ∃ s t q k, w.spaces i = some s ∧ w.spaces j = some t ∧ pageAt t b = some q ∧ k < size ∧
    StoresTo s (a + k) q.frame (b % 4096)

/-- A copy leaves every byte of every space alone that it does not go to. -/
theorem copy_leaves_byte {w : World} (hw : WorldOk w) {i : ℕ} (hs : w.spaces i = some s)
    (hword : a + d.length ≤ 2 ^ 64) {j : ℕ} (hout : ¬ (j = i ∧ a ≤ b ∧ b < a + d.length))
    (halias : ¬ w.Aliases i a d.length j b) :
    (w.step (.copyToUser i a d)).byte j b = w.byte j b := by
  have h := hw.spaceOk hs
  have heffect := vmCopyToUser_effect (d := d) h hword
  have hstep : w.step (.copyToUser i a d) =
      w.put i (some (vmCopyToUser s a d w.memory).2.1) (vmCopyToUser s a d w.memory).2.2 := by
    rw [World.step, World.onSpace, hs]
  rw [hstep, World.byte, World.byte]
  by_cases hj : j = i
  · subst hj
    rw [World.put_self, hs]
    exact heffect.kept ⟨by omega, fun q hq k hk hst => halias ⟨s, s, q, k, hs, hs, hq, hk, hst⟩⟩
  · rw [World.put_of_ne w hj]
    cases ht : w.spaces j with
    | none => rfl
    | some t =>
      show mappedByte t (vmCopyToUser s a d w.memory).2.2 b = mappedByte t w.memory b
      rw [mappedByte, mappedByte]
      cases hq : pageAt t b with
      | none => rfl
      | some q =>
        have hpos := w.others_pos (hw.bound j t ht) hj ht ((hw.spaceOk ht).page_pos hq)
        rw [map_some, map_some, heffect.outside _ _ hpos fun k hk hst =>
          absurd ⟨s, t, q, k, hs, ht, hq, hk, hst⟩ halias]

/-- **The law of user copies**, in every space of every run.  A copy that succeeds reads back as it was
written, exactly when its bytes that go to one place of a frame agree; every byte of every space is as
before, apart from the range and what is mapped to the same places; and the copy succeeds exactly when
every page of the range is mapped writable, where there are frames to be had. -/
theorem user_copy_law (choices : ℕ → Option ℕ) (bytes : ℕ → ℕ → UInt8) (ops : List VmOp)
    {i : ℕ} {s : VmSpace} (hs : ((World.initial choices bytes).run ops).spaces i = some s)
    (a : ℕ) (d : List UInt8) (hword : a + d.length ≤ 2 ^ 64) :
    let w := (World.initial choices bytes).run ops
    let r := vmCopyToUser s a d w.memory
    (r.1 = true → (vmCopyFromUser r.2.1 a d.length r.2.2 = some d ↔
      ∀ j k, j < k → k < d.length → ∀ f o, StoresTo s (a + j) f o → StoresTo s (a + k) f o →
        d.getD j 0 = d.getD k 0)) ∧
    (∀ j b, ¬ (j = i ∧ a ≤ b ∧ b < a + d.length) → ¬ w.Aliases i a d.length j b →
      (w.step (.copyToUser i a d)).byte j b = w.byte j b) ∧
    (FramesServed ((a % 4096 + d.length + 4095) / 4096) w.memory →
      (r.1 = true ↔ ∀ k, k < d.length → MappedWritable s (a + k))) := by
  have hw := (WorldOk.initial choices bytes).run ops
  have h := hw.spaceOk hs
  refine ⟨fun hok => ?_, fun j b hout halias => copy_leaves_byte hw hs hword hout halias,
    fun hserved => vmCopyToUser_succeeds_iff h hword hserved⟩
  exact readBack_iff h hword hok

/-- Two bytes on the one page of a new space. -/
theorem user_copy_law_mapped : ∃ s,
    ((World.initial stridedChoices fun _ _ => 0).run
      [.create, .mapPage 0 vmUserBase 3]).spaces 0 = some s ∧
    vmCopyFromUser (vmCopyToUser s vmUserBase [1, 2] ((World.initial stridedChoices fun _ _ => 0).run
        [.create, .mapPage 0 vmUserBase 3]).memory).2.1 vmUserBase 2
      (vmCopyToUser s vmUserBase [1, 2] ((World.initial stridedChoices fun _ _ => 0).run
        [.create, .mapPage 0 vmUserBase 3]).memory).2.2 = some [1, 2] :=
  ⟨_, rfl, ((user_copy_law stridedChoices (fun _ _ => 0) [.create, .mapPage 0 vmUserBase 3] (i := 0) rfl
    vmUserBase [1, 2] (by decide)).1 (by decide +kernel)).2 (agree_of_short (by decide))⟩

/-- A shared memory object of one page, mapped twice, one page after the other. -/
def mappedTwice : World :=
  (World.initial stridedChoices fun _ _ => 0).run
    [.create, .holdFrame, .mapSharedFrame 0 vmUserBase (heapStart + 4096 + 32768) 3,
      .mapSharedFrame 0 (vmUserBase + 4096) (heapStart + 4096 + 32768) 3]

def mappedTwiceSpace : VmSpace := (mappedTwice.spaces 0).getD VmSpace.zero

/-- Both pages are written in place, in one frame. -/
theorem mappedTwice_pages {c : ℕ} (hc : c = vmUserBase ∨ c = vmUserBase + 4096) :
    ∃ p, pageAt mappedTwiceSpace c = some p ∧ canWrite p.protection = true ∧ p.copyOnWrite = false ∧
      p.frame = heapStart + 4096 + 32768 := by
  have hpage : ((pageAt mappedTwiceSpace c).any fun p => canWrite p.protection && !p.copyOnWrite &&
      p.frame == heapStart + 4096 + 32768) = true := by
    rcases hc with rfl | rfl
    · decide +kernel
    · decide +kernel
  obtain ⟨p, hp, hall⟩ := (any_eq_true _ _).1 hpage
  simp only [Bool.and_eq_true, Bool.not_eq_true', beq_iff_eq] at hall
  exact ⟨p, hp, hall.1.1, hall.1.2, hall.2⟩

/-- A page and one byte more. -/
def pageAndByte : List UInt8 := 1 :: List.replicate 4096 2

theorem length_pageAndByte : pageAndByte.length = 4097 := by
  rw [pageAndByte, length_cons, length_replicate]

/-- **What is copied to both mappings does not read back**: the second page overwrites the first. -/
theorem copy_to_both_mappings :
    mappedTwice.spaces 0 = some mappedTwiceSpace ∧
    (vmCopyToUser mappedTwiceSpace vmUserBase pageAndByte mappedTwice.memory).1 = true ∧
    vmCopyFromUser (vmCopyToUser mappedTwiceSpace vmUserBase pageAndByte mappedTwice.memory).2.1
      vmUserBase pageAndByte.length
      (vmCopyToUser mappedTwiceSpace vmUserBase pageAndByte mappedTwice.memory).2.2 ≠
        some pageAndByte := by
  have hs : mappedTwice.spaces 0 = some mappedTwiceSpace := rfl
  have hw : WorldOk mappedTwice := (WorldOk.initial stridedChoices fun _ _ => 0).run _
  have h := hw.spaceOk hs
  have hword : vmUserBase + pageAndByte.length ≤ 2 ^ 64 := by
    rw [length_pageAndByte]
    decide
  have hdone : (vmCopyToUser mappedTwiceSpace vmUserBase pageAndByte mappedTwice.memory).1 = true := by
    refine (vmCopyToUser_succeeds_iff h hword ?_).2 fun k hk => ?_
    · rw [length_pageAndByte]
      exact ⟨by decide +kernel, by decide +kernel, trivial⟩
    · rw [length_pageAndByte] at hk
      have hpage : alignDown (vmUserBase + k) = vmUserBase ∨
          alignDown (vmUserBase + k) = vmUserBase + 4096 := by
        simp only [vmUserBase]
        unfold alignDown
        omega
      obtain ⟨p, hp, hpw, -⟩ := mappedTwice_pages hpage
      rw [pageAt_alignDown] at hp
      exact ⟨p, hp, hpw⟩
  refine ⟨hs, hdone, fun hread => ?_⟩
  have hagree := (readBack_iff h hword hdone).1 hread
  obtain ⟨p, hp, -, hpc, hpf⟩ := mappedTwice_pages (.inl rfl)
  obtain ⟨q, hq, -, hqc, hqf⟩ := mappedTwice_pages (.inr rfl)
  have hfirst : StoresTo mappedTwiceSpace (vmUserBase + 0) (heapStart + 4096 + 32768) 0 := by
    rw [add_zero]
    exact ⟨p, hp, hpc, hpf, by decide⟩
  have hsecond : StoresTo mappedTwiceSpace (vmUserBase + 4096) (heapStart + 4096 + 32768) 0 :=
    ⟨q, hq, hqc, hqf, by decide⟩
  have hsame := hagree 0 4096 (by decide) (by rw [length_pageAndByte]; decide) _ 0 hfirst hsecond
  have hlast : pageAndByte.getD 4096 0 = 2 := by
    rw [pageAndByte, getD_cons_succ]
    exact getD_replicate 2 (by omega)
  rw [hlast] at hsame
  cases hsame

end NovaOS.Vm
