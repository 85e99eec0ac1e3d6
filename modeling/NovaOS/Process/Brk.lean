import NovaOS.Process.Io
import NovaOS.Process.Mmap
import NovaOS.Vm.Reserves

/-!
# The program break

`linux_brk` maps the pages it adds one by one, and stops at the first that cannot be mapped without
taking back those before it.

* `GrowsCleanly` — the state before the call has all that the pages take, or the first of them that is not
  mapped read-write cannot be had;
* `brkLoop_iff`, `brkLoop_done`, `brkLoop_failed` — what the loop does to the pages;
* `brk_exact_iff` — **a call moves the break and exactly the pages between, or changes nothing,
  exactly when its growth is clean**.
-/

namespace NovaOS.Process

open NovaOS.Vm List

/-! ### The call -/

namespace Caller

variable (c : Caller)

/-- The result of an operation on the caller's space. -/
def withVm : VmSpace × Memory → Caller
  | (s, m) => { c with vm := s, memory := m }

/-- `vm_unmap_page` on some pages. -/
def unmap (pages : List ℕ) : Caller := c.withVm (unmapPages c.vm pages c.memory)

end Caller

/-- The loop of `linux_brk` that adds pages; it leaves what it has mapped when one fails. -/
def brkLoop : List ℕ → VmSpace → Memory → Bool × VmSpace × Memory
  | [], s, m => (true, s, m)
  | page :: rest, s, m =>
    match vmMapPage s page (vmProtRead ||| vmProtWrite) m with
    | (false, s, m) => (false, s, m)
    | (true, s, m) => brkLoop rest s m

/-- `linux_brk`: the new break, or the old one. -/
def linuxBrk (c : Caller) (requested : ℕ) : ℕ × Caller :=
  if requested = 0 ∨ requested < vmUserBase ∨ vmUserMmapBase ≤ requested then
    (c.process.programBreak, c)
  else
    let oldEnd := alignUp c.process.programBreak
    let newEnd := alignUp requested
    if oldEnd < newEnd then
      match brkLoop (pageRange oldEnd newEnd) c.vm c.memory with
      | (false, s, m) => (c.process.programBreak, c.withVm (s, m))
      | (true, s, m) =>
        (requested, { c.withVm (s, m) with process := { c.process with programBreak := requested } })
    else
      let c := c.unmap (pageRange newEnd oldEnd)
      (requested, { c with process := { c.process with programBreak := requested } })

/-! ### Pages that are served -/

/-- The pages of a caller, each with its record and its bytes. -/
def Caller.pages (c : Caller) : ℕ → Option (VmPage × (ℕ → UInt8)) := pageState c.vm c.memory

/-- The protection of the pages of the program break. -/
def readWrite : ℕ := vmProtRead ||| vmProtWrite

/-- A page is there, or obtainable. -/
def PageServed (s : VmSpace) (page : ℕ) (m : Memory) : Prop :=
  CanonicalUserAddress page ∧ ((pageAt s page).isSome = true ∨ Obtainable s page m)

/-- The first of some pages that is not mapped read-write. -/
def firstOther (s : VmSpace) (pages : List ℕ) : Option ℕ :=
  pages.find? fun page => protectionAt s page != some readWrite

/-- The first page that is not mapped read-write can not be mapped. -/
def StopsAtOnce (pages : List ℕ) (s : VmSpace) (m : Memory) : Prop :=
  ∃ page, firstOther s pages = some page ∧ ¬ PageServed s page m

/-- The state before the growth has all that it takes, or does not let it begin. -/
def GrowsCleanly (pages : List ℕ) (s : VmSpace) (m : Memory) : Prop :=
  Growable pages s m ∨ StopsAtOnce pages s m

/-! ### The loop -/

section Loop

variable {ext : ℕ → ℕ} {E : ℕ → Prop} {s s' : VmSpace} {m m' : Memory} {page b : ℕ} {pages : List ℕ}

theorem protectionAt_alignDown (s : VmSpace) (b : ℕ) : protectionAt s (alignDown b) = protectionAt s b := by
  rw [protectionAt, pageAt_alignDown, protectionAt]

section

variable (h : SpaceOk ext E s m)

include h

theorem vmMapPage_protectionAt (page protection b : ℕ) :
    protectionAt (vmMapPage s page protection m).2.1 b =
      if (vmMapPage s page protection m).1 = true ∧ alignDown b = page then some protection
      else protectionAt s b := by
  obtain ⟨ok, s', m', he, -, -, -, hmapped⟩ := vmMapPage_spec h page protection
  rw [he]
  cases hmapped with
  | failed pages refs =>
    rw [if_neg fun hall => Bool.false_ne_true hall.1, protectionAt, pages b, protectionAt]
  | reprotected p old refs aligned pages =>
    simp only [protectionAt, pages b, true_and]
    split <;> rfl
  | created f old fresh refs aligned canonical pages zero =>
    simp only [protectionAt, pages b, true_and]
    split <;> rfl

/-- **The loop comes to its end exactly when the state has all that its pages take.** -/
theorem brkLoop_iff (halign : ∀ page ∈ pages, page % 4096 = 0) (hnodup : pages.Nodup) :
    (brkLoop pages s m).1 = true ↔ Growable pages s m := by
  induction pages generalizing s m with
  | nil => exact iff_of_true rfl (growable_nil s m)
  | cons page rest ih =>
    rw [forall_mem_cons] at halign
    rw [nodup_cons] at hnodup
    have hruns := vmMapPage_runs h page readWrite
    rw [brkLoop, ← readWrite]
    by_cases ha : CanonicalUserAddress page
    swap
    · rw [vmMapPage, if_pos (.inr (.inr ha))]
      exact iff_of_false Bool.false_ne_true fun hall => ha (hall.canonical page mem_cons_self)
    cases hpage : pageAt s page with
    | some record =>
      have hthere : (pageAt s page).isSome = true := by rw [hpage]; rfl
      obtain ⟨s₁, he, hsame⟩ := vmMapPage_there h halign.1 ha hthere readWrite
      rw [he] at hruns ⊢
      rw [ih hruns.ok halign.2 hnodup.2, growable_there hsame ha hthere]
    | none =>
      obtain ⟨ok, s₁, m₁, he, hiff, htakes⟩ := vmMapPage_fresh h halign.1 ha hpage readWrite
      rw [he] at hruns ⊢
      cases ok with
      | false =>
        refine iff_of_false Bool.false_ne_true fun hall => ?_
        exact Bool.false_ne_true (hiff.2 (hall.obtainable hpage))
      | true =>
        obtain ⟨htook, htakes⟩ := htakes rfl
        have hothers : ∀ b ∈ rest, (pageAt s₁ b).isNone = (pageAt s b).isNone := by
          intro b hb
          have hne : alignDown b ≠ page := by
            rw [alignDown_eq (halign.2 b hb)]
            rintro rfl
            exact hnodup.1 hb
          have hstate := vmMapPage_pageState h he hne
          rw [pageState, pageState] at hstate
          rw [← Option.isNone_map, hstate, Option.isNone_map]
        rw [ih hruns.ok halign.2 hnodup.2,
          growable_new hpage ha (hiff.1 rfl) htook htakes hothers]

/-- A page the loop has come past stays read-write. -/
theorem brkLoop_keeps (pages : List ℕ)
    (hb : protectionAt s b = some readWrite) :
    protectionAt (brkLoop pages s m).2.1 b = some readWrite := by
  induction pages generalizing s m with
  | nil => exact hb
  | cons page rest ih =>
    have hruns := vmMapPage_runs h page readWrite
    have hstep := vmMapPage_protectionAt h page readWrite b
    have hkept : protectionAt (vmMapPage s page readWrite m).2.1 b = some readWrite := by
      rw [hstep]
      split
      · rfl
      · exact hb
    rw [brkLoop]
    rcases he : vmMapPage s page (vmProtRead ||| vmProtWrite) m with ⟨_ | _, s₁, m₁⟩
    · rw [readWrite, he] at hkept
      exact hkept
    · rw [readWrite, he] at hruns
      refine ih hruns.ok ?_
      rw [readWrite, he] at hkept
      exact hkept

/-- **A loop that comes to its end** has mapped its pages read-write, and left the others alone. -/
theorem brkLoop_done (hdone : (brkLoop pages s m).1 = true) (b : ℕ) :
    (alignDown b ∈ pages → protectionAt (brkLoop pages s m).2.1 b = some readWrite) ∧
      (alignDown b ∉ pages →
        pageState (brkLoop pages s m).2.1 (brkLoop pages s m).2.2 b = pageState s m b) := by
  induction pages generalizing s m with
  | nil => exact ⟨fun hb => absurd hb not_mem_nil, fun _ => rfl⟩
  | cons page rest ih =>
    have hruns := vmMapPage_runs h page readWrite
    have hstep := vmMapPage_protectionAt h page readWrite b
    rw [brkLoop] at hdone ⊢
    rw [readWrite] at hruns hstep
    rcases he : vmMapPage s page (vmProtRead ||| vmProtWrite) m with ⟨_ | _, s₁, m₁⟩
    · rw [he] at hdone
      cases hdone
    · rw [he] at hdone hruns hstep
      obtain ⟨hmapped, hkept⟩ := ih hruns.ok hdone
      refine ⟨fun hb => ?_, fun hb => ?_⟩
      · obtain heq | hrest := mem_cons.1 hb
        · rw [if_pos ⟨rfl, heq⟩] at hstep
          exact brkLoop_keeps hruns.ok rest hstep
        · exact hmapped hrest
      · rw [mem_cons, not_or] at hb
        rw [hkept hb.2, vmMapPage_pageState h he hb.1]

/-- **A loop that stops has changed no protection, exactly when it stopped at the first page that was not
read-write.** -/
theorem brkLoop_failed (halign : ∀ page ∈ pages, page % 4096 = 0)
    (hstops : (brkLoop pages s m).1 = false) :
    (∀ b, protectionAt (brkLoop pages s m).2.1 b = protectionAt s b) ↔ StopsAtOnce pages s m := by
  induction pages generalizing s m with
  | nil => cases hstops
  | cons page rest ih =>
    rw [forall_mem_cons] at halign
    have hpage := vmMapPage_iff h halign.1 readWrite
    have hruns := vmMapPage_runs h page readWrite
    have hstep := vmMapPage_protectionAt h page readWrite
    have hself : alignDown page = page := alignDown_eq halign.1
    by_cases hbefore : protectionAt s page = some readWrite
    · -- nothing happens to a page that is read-write
      have hfirst : firstOther s (page :: rest) = firstOther s rest :=
        find?_cons_of_neg (by simp [hbefore])
      obtain ⟨record, hrecord, -⟩ := Option.map_eq_some_iff.1 hbefore
      have hthere : (pageAt s page).isSome = true := by rw [hrecord]; rfl
      obtain ⟨e, hu, rfl, hva⟩ := (pageAt_iff h.records).1 hrecord
      have ha := (h.records.aligned e hu).2
      rw [hva, hself] at ha
      obtain ⟨s₁, he, hsame⟩ := vmMapPage_there h halign.1 ha hthere readWrite
      rw [brkLoop, ← readWrite, he] at hstops ⊢
      rw [he] at hruns hstep
      have hkept : ∀ b, protectionAt s₁ b = protectionAt s b := by
        intro b
        rw [hstep b]
        split
        · rename_i hb
          rw [← protectionAt_alignDown s b, hb.2, hbefore]
        · rfl
      have hrest := ih hruns.ok halign.2 hstops
      simp only [hkept] at hrest
      rw [hrest, StopsAtOnce, StopsAtOnce, hfirst]
      simp only [firstOther, hkept, PageServed, hsame.pages, hsame.obtainable_iff]
    · -- the first page that matters
      have hfirst : firstOther s (page :: rest) = some page :=
        find?_cons_of_pos (by simpa using hbefore)
      have hstop : StopsAtOnce (page :: rest) s m ↔ ¬ PageServed s page m := by
        rw [StopsAtOnce, hfirst]
        constructor
        · rintro ⟨other, hother, hno⟩
          cases hother
          exact hno
        · exact fun hno => ⟨page, rfl, hno⟩
      rw [hstop, PageServed, ← hpage]
      rw [brkLoop, ← readWrite] at hstops ⊢
      rcases he : vmMapPage s page readWrite m with ⟨_ | _, s₁, m₁⟩
      · rw [he] at hstep
        refine iff_of_true (fun b => ?_) Bool.false_ne_true
        rw [hstep b, if_neg fun hall => Bool.false_ne_true hall.1]
      · rw [he] at hstep hruns
        refine iff_of_false (fun hsame => hbefore ?_) (not_not.2 rfl)
        have hnow : protectionAt s₁ page = some readWrite := by
          rw [hstep page, if_pos ⟨rfl, hself⟩]
        rw [← hsame page]
        exact brkLoop_keeps hruns.ok rest hnow

end

end Loop

/-! ### The call -/

/-- **What `brk` owes its caller**: it changes neither a page nor the break, or it moves the break,
and the pages between the old one and the new one come or go, and no other. -/
structure BrkExact (c : Caller) (requested : ℕ) : Prop where
  refused : (linuxBrk c requested).1 ≠ requested →
    (∀ b, protectionAt (linuxBrk c requested).2.vm b = protectionAt c.vm b) ∧
      (linuxBrk c requested).2.process.programBreak = c.process.programBreak
  moved : (linuxBrk c requested).1 = requested →
    (linuxBrk c requested).2.process.programBreak = requested
  grown : (linuxBrk c requested).1 = requested →
    ∀ page ∈ pageRange (alignUp c.process.programBreak) (alignUp requested),
      protectionAt (linuxBrk c requested).2.vm page = some readWrite
  shrunk : (linuxBrk c requested).1 = requested →
    ∀ page ∈ pageRange (alignUp requested) (alignUp c.process.programBreak),
      protectionAt (linuxBrk c requested).2.vm page = none
  others : (linuxBrk c requested).1 = requested →
    ∀ b, alignDown b ∉ pageRange (alignUp c.process.programBreak) (alignUp requested) →
      alignDown b ∉ pageRange (alignUp requested) (alignUp c.process.programBreak) →
      (linuxBrk c requested).2.pages b = c.pages b

/-- The growth a call asks for, if any, is clean. -/
def BrkServed (c : Caller) (requested : ℕ) : Prop :=
  vmUserBase ≤ requested → requested < vmUserMmapBase →
    alignUp c.process.programBreak < alignUp requested →
    GrowsCleanly (pageRange (alignUp c.process.programBreak) (alignUp requested)) c.vm c.memory

section Call

variable {ext : ℕ → ℕ} {E : ℕ → Prop} {c : Caller} {requested : ℕ}

theorem alignUp_mod (value : ℕ) : alignUp value % 4096 = 0 := alignDown_mod _

theorem pageRange_of_le {first last : ℕ} (h : last ≤ first) : pageRange first last = [] := by
  rw [pageRange, Nat.sub_eq_zero_of_le h]
  rfl

theorem pageRange_aligned {first : ℕ} (h : first % 4096 = 0) (last : ℕ) :
    ∀ page ∈ pageRange first last, page % 4096 = 0 :=
  fun _ hpage => ((mem_pageRange_iff h).1 hpage).1

theorem BrkExact.of_unchanged (hcall : linuxBrk c requested = (c.process.programBreak, c)) :
    BrkExact c requested := by
  have hempty : ∀ {a b : ℕ}, a = b → pageRange (alignUp a) (alignUp b) = [] := fun hab =>
    pageRange_of_le (by rw [hab])
  constructor <;> rw [hcall] <;> intro hbreak
  · exact ⟨fun _ => rfl, rfl⟩
  · exact hbreak
  · rw [hempty hbreak]
    exact fun _ hpage => absurd hpage not_mem_nil
  · rw [hempty hbreak.symm]
    exact fun _ hpage => absurd hpage not_mem_nil
  · exact fun _ _ _ => rfl

theorem BrkExact.of_shrink (h : SpaceOk ext E c.vm c.memory)
    (hin : ¬ (requested = 0 ∨ requested < vmUserBase ∨ vmUserMmapBase ≤ requested))
    (hle : alignUp requested ≤ alignUp c.process.programBreak) : BrkExact c requested := by
  have hcall : linuxBrk c requested = (requested,
      { c.unmap (pageRange (alignUp requested) (alignUp c.process.programBreak)) with
        process := { c.process with programBreak := requested } }) := by
    rw [linuxBrk, if_neg hin]
    rw [if_neg (by omega)]
    rfl
  have hstate := unmapPages_pageState
    (pageRange_aligned (alignUp_mod requested) (alignUp c.process.programBreak)) h
  constructor <;> rw [hcall] <;> intro hbreak
  · exact absurd rfl hbreak
  · rfl
  · rw [pageRange_of_le hle]
    exact fun _ hpage => absurd hpage not_mem_nil
  · intro page hpage
    have hself : alignDown page = page :=
      alignDown_eq (pageRange_aligned (alignUp_mod requested) _ page hpage)
    have hgone := hstate page
    rw [hself, if_pos hpage, pageState, Option.map_eq_none_iff] at hgone
    show (pageAt (unmapPages c.vm (pageRange (alignUp requested) (alignUp c.process.programBreak))
      c.memory).1 page).map VmPage.protection = none
    rw [hgone]
    rfl
  · intro b _ hb
    exact (hstate b).trans (if_neg hb)

/-- **A call of `brk` is exact exactly when the growth it asks for is clean.** -/
theorem brk_exact_iff (h : SpaceOk ext E c.vm c.memory) (requested : ℕ) :
    BrkExact c requested ↔ BrkServed c requested := by
  by_cases hout : requested = 0 ∨ requested < vmUserBase ∨ vmUserMmapBase ≤ requested
  · refine iff_of_true (.of_unchanged (by rw [linuxBrk, if_pos hout])) fun hlow hhigh => ?_
    have hbase : 0 < vmUserBase := by decide
    omega
  by_cases hgrows : alignUp c.process.programBreak < alignUp requested
  swap
  · exact iff_of_true (.of_shrink h hout (by omega)) fun _ _ hlt => absurd hlt hgrows
  have hserved : BrkServed c requested ↔
      GrowsCleanly (pageRange (alignUp c.process.programBreak) (alignUp requested)) c.vm c.memory :=
    ⟨fun hall => hall (by omega) (by omega) hgrows, fun hclean _ _ _ => hclean⟩
  rw [hserved]
  have halign := pageRange_aligned (alignUp_mod c.process.programBreak) (alignUp requested)
  have hiff := brkLoop_iff h halign (pageRange_nodup _ _)
  generalize hpages : pageRange (alignUp c.process.programBreak) (alignUp requested) = pages
    at halign hiff ⊢
  cases hdone : (brkLoop pages c.vm c.memory).1 with
  | true =>
    refine iff_of_true ?_ (.inl (hiff.1 hdone))
    have hcall : linuxBrk c requested = (requested,
        { c.withVm (brkLoop pages c.vm c.memory).2 with
          process := { c.process with programBreak := requested } }) := by
      rw [linuxBrk, if_neg hout]
      rw [if_pos hgrows, hpages]
      rcases hloop : brkLoop pages c.vm c.memory with ⟨ok, s, m⟩
      rw [hloop] at hdone
      cases hdone
      rfl
    have hpage := brkLoop_done h hdone
    constructor <;> rw [hcall] <;> intro hbreak
    · exact absurd rfl hbreak
    · rfl
    · intro page hin
      rw [hpages] at hin
      exact (hpage page).1 (by rw [alignDown_eq (halign page hin)]; exact hin)
    · rw [pageRange_of_le (by omega)]
      exact fun _ hin => absurd hin not_mem_nil
    · intro b hb _
      rw [hpages] at hb
      exact (hpage b).2 hb
  | false =>
    have hcall : linuxBrk c requested =
        (c.process.programBreak, c.withVm (brkLoop pages c.vm c.memory).2) := by
      rw [linuxBrk, if_neg hout]
      rw [if_pos hgrows, hpages]
      rcases hloop : brkLoop pages c.vm c.memory with ⟨ok, s, m⟩
      rw [hloop] at hdone
      cases hdone
      rfl
    have hne : c.process.programBreak ≠ requested := by
      rintro heq
      rw [heq] at hgrows
      exact absurd hgrows (lt_irrefl _)
    have hshort : ¬ Growable pages c.vm c.memory := by
      rw [← hiff, hdone]
      exact Bool.false_ne_true
    rw [GrowsCleanly, or_iff_right hshort, ← brkLoop_failed h halign hdone]
    constructor
    · intro hexact
      have hrefused := hexact.refused (by rw [hcall]; exact hne)
      rw [hcall] at hrefused
      exact hrefused.1
    · intro hsame
      constructor <;> rw [hcall] <;> intro hbreak
      · exact ⟨hsame, rfl⟩
      all_goals exact absurd hbreak hne

end Call

/-! ### A heap that runs out -/

/-- The heap serves a number of calls, and then none. -/
def scarceChoices (calls n : ℕ) : Option ℕ := if n < calls then stridedChoices n else none

/-- One writable user page, on a heap that serves a number of calls. -/
def scarcePage (calls : ℕ) : World :=
  (World.initial (scarceChoices calls) fun _ _ => 0).run [.create, .mapPage 0 vmUserBase 3]

/-- A process whose break is at the end of its page. -/
def scarceCaller (calls : ℕ) : Caller := { memfdCaller with
  process := { memfdCaller.process with programBreak := vmUserBase + 4096 }
  vm := ((scarcePage calls).spaces 0).getD VmSpace.zero
  memory := (scarcePage calls).memory }

theorem scarceCaller_ok {calls : ℕ} (h : ((scarcePage calls).spaces 0).isSome = true) :
    SpaceOk ((scarcePage calls).others 0) ((scarcePage calls).ownedOthers 0) (scarceCaller calls).vm
      (scarceCaller calls).memory := by
  obtain ⟨s, hs⟩ := Option.isSome_iff_exists.1 h
  have hworld : WorldOk (scarcePage calls) := (WorldOk.initial _ _).run _
  have hvm : (scarceCaller calls).vm = s := by
    show ((scarcePage calls).spaces 0).getD VmSpace.zero = s
    rw [hs]
    rfl
  rw [hvm]
  exact hworld.spaceOk hs

/-- Two more pages are to be had with four more calls of the heap, and with none the first of them stops
the call. -/
theorem brk_exact_iff_scarce :
    ((linuxBrk (scarceCaller 8) (vmUserBase + 12288)).1 = vmUserBase + 12288 ∧
      BrkExact (scarceCaller 8) (vmUserBase + 12288)) ∧
    (linuxBrk (scarceCaller 4) (vmUserBase + 12288)).1 = vmUserBase + 4096 ∧
      BrkExact (scarceCaller 4) (vmUserBase + 12288) := by
  have hpages : pageRange (alignUp (vmUserBase + 4096)) (alignUp (vmUserBase + 12288)) =
      [vmUserBase + 4096, vmUserBase + 8192] := by decide
  have hok : ∀ calls, ((scarcePage calls).spaces 0).isSome = true →
      SpaceOk ((scarcePage calls).others 0) ((scarcePage calls).ownedOthers 0) (scarceCaller calls).vm
        (scarceCaller calls).memory := fun _ => scarceCaller_ok
  refine ⟨⟨by decide +kernel, ?_⟩, by decide +kernel, ?_⟩
  · have h := hok 8 (by decide +kernel)
    refine (brk_exact_iff h _).2 fun _ _ _ => .inl ?_
    rw [show alignUp (scarceCaller 8).process.programBreak = alignUp (vmUserBase + 4096) from rfl, hpages]
    exact (brkLoop_iff h (by decide) (by decide)).1 (by decide +kernel)
  · have h := hok 4 (by decide +kernel)
    refine (brk_exact_iff h _).2 fun _ _ _ => .inr ?_
    rw [show alignUp (scarceCaller 4).process.programBreak = alignUp (vmUserBase + 4096) from rfl, hpages]
    refine ⟨vmUserBase + 4096, by decide +kernel, ?_⟩
    rw [PageServed, ← vmMapPage_iff h (by decide) readWrite]
    decide +kernel

/-- **The call fails and a page has come**: the heap serves the first page and not the second. -/
theorem brk_fails_half_grown :
    SpaceOk ((scarcePage 6).others 0) ((scarcePage 6).ownedOthers 0) (scarceCaller 6).vm
      (scarceCaller 6).memory ∧
    (linuxBrk (scarceCaller 6) (vmUserBase + 12288)).1 = vmUserBase + 4096 ∧
    protectionAt (scarceCaller 6).vm (vmUserBase + 4096) = none ∧
    protectionAt (linuxBrk (scarceCaller 6) (vmUserBase + 12288)).2.vm (vmUserBase + 4096) =
      some readWrite := by
  exact ⟨scarceCaller_ok (by decide +kernel), by decide +kernel, by decide +kernel, by decide +kernel⟩

end NovaOS.Process
