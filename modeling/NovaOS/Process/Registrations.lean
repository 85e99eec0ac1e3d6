import NovaOS.Process.Creation
import NovaOS.Process.Epoll
import NovaOS.Process.PathCalls

/-!
# Registrations and the descriptors they were made for

A registration of an epoll object is kept under a descriptor number, and neither `close` nor `dup2` looks
at registrations.  When the number is used again, events of the new object are reported with the word
that was registered for the old one.

* `epollReports`, `linuxEpollWait_eq` — the registrations `linux_epoll_wait` reports;
* `Watch` — a process, with the open object every descriptor number refers to, and whether the number of
  a registration has referred to the same object since the registration was made;
* `Watch.Undisturbed` — a call does not put a registered number into use for another object;
* `epoll_reports_live` — **in a run of such calls only live registrations are reported**.
-/

namespace NovaOS.Process

open NovaOS.Vm NovaOS.Fs Function Bool

/-! ### What is reported -/

/-- The events of a registration that are ready. -/
def entryReady (c : Caller) (epoll : EpollObject) (slot : ℕ) : ℕ :=
  descriptorReadyEvents c (epoll.entries slot).descriptor (epoll.entries slot).events

/-- A registration that `linux_epoll_wait` does not skip. -/
def reportable (c : Caller) (epoll : EpollObject) (slot : ℕ) : Bool :=
  (epoll.entries slot).used && entryReady c epoll slot != 0

/-- The registrations that are reported, by their slots. -/
def epollReports (c : Caller) (descriptor maximum : ℕ) : List ℕ :=
  ((List.range maxEpollEntries).filter (reportable c (c.epoll descriptor))).take maximum

/-- Events with the words of their registrations are stored one behind the other. -/
def storeReports (epoll : EpollObject) (address : ℕ) : List ℕ → ℕ → Caller → Except Errno ℕ × Caller
  | [], count, c => (.ok count, c)
  | slot :: rest, count, c =>
    match c.copyTo ((address + count * 12) % 2 ^ 64)
      (leBytes 4 (entryReady c epoll slot) ++ leBytes 8 (epoll.entries slot).data) with
    | (false, c) => (.error .fault, c)
    | (true, c) => storeReports epoll address rest (count + 1) c

theorem entryReady_copyTo {c c' : Caller} {address : ℕ} {bytes : List UInt8} {ok : Bool}
    (h : c.copyTo address bytes = (ok, c')) (epoll : EpollObject) (slot : ℕ) :
    entryReady c' epoll slot = entryReady c epoll slot := by
  obtain ⟨hprocess, hobjects, -, hticks⟩ := Caller.copyTo_keeps h
  rw [entryReady, entryReady, descriptorReadyEvents, descriptorReadyEvents, readyToRead, readyToRead,
    readyToWrite, readyToWrite, hprocess, hobjects, hticks]

theorem skipped_eq (c : Caller) (epoll : EpollObject) (slot : ℕ) :
    (!(epoll.entries slot).used || decide (entryReady c epoll slot = 0)) = !reportable c epoll slot := by
  rw [reportable, Bool.not_and, bne, Bool.not_not, beq_eq_decide]

theorem epollWaitLoop_cons (epoll : EpollObject) (address maximum slot : ℕ) (rest : List ℕ) (count : ℕ)
    (c : Caller) (h : ¬ maximum ≤ count) :
    epollWaitLoop epoll address maximum (slot :: rest) count c =
      if reportable c epoll slot then
        match c.copyTo ((address + count * 12) % 2 ^ 64)
          (leBytes 4 (entryReady c epoll slot) ++ leBytes 8 (epoll.entries slot).data) with
        | (false, c) => (Except.error Errno.fault, c)
        | (true, c) => epollWaitLoop epoll address maximum rest (count + 1) c
      else epollWaitLoop epoll address maximum rest count c := by
  rw [epollWaitLoop, if_neg h]
  show (if (!(epoll.entries slot).used || decide (entryReady c epoll slot = 0)) = true then _ else _) = _
  rw [skipped_eq]
  cases reportable c epoll slot with
  | true => rfl
  | false => rfl

theorem epollWaitLoop_eq (epoll : EpollObject) (address maximum : ℕ) (slots : List ℕ) (count : ℕ)
    (c : Caller) : epollWaitLoop epoll address maximum slots count c =
      storeReports epoll address ((slots.filter (reportable c epoll)).take (maximum - count)) count c := by
  induction slots generalizing count c with
  | nil => rw [List.filter_nil, List.take_nil]; rfl
  | cons slot rest ih =>
    by_cases hfull : maximum ≤ count
    · rw [epollWaitLoop, if_pos hfull, Nat.sub_eq_zero_of_le hfull, List.take_zero]
      rfl
    rw [epollWaitLoop_cons epoll address maximum slot rest count c hfull]
    by_cases hreport : reportable c epoll slot = true
    · obtain ⟨left, hleft⟩ : ∃ left, maximum - count = left + 1 := ⟨maximum - count - 1, by omega⟩
      rw [if_pos hreport, List.filter_cons_of_pos hreport, hleft, List.take_succ_cons, storeReports]
      split
      · rfl
      · rename_i c' hcopy
        have hsame : reportable c' epoll = reportable c epoll := by
          funext other
          rw [reportable, reportable, entryReady_copyTo hcopy]
        rw [ih, hsame, show maximum - (count + 1) = left by omega]
    · rw [if_neg hreport, List.filter_cons_of_neg hreport, ih]

/-- **`linux_epoll_wait` stores the reports.** -/
theorem linuxEpollWait_eq {c : Caller} {descriptor maximum : ℕ} (hdescriptor : c.hasEpoll descriptor = true)
    (hmaximum : 0 < maximum ∧ maximum < 2 ^ 31) (address : ℕ) :
    linuxEpollWait c descriptor address maximum =
      storeReports (c.epoll descriptor) address (epollReports c descriptor maximum) 0 c := by
  have hvalid : ¬ ((!c.hasEpoll descriptor || decide (maximum = 0) || decide (2 ^ 31 ≤ maximum)) = true) := by
    rw [hdescriptor, decide_eq_false (by omega), decide_eq_false (by omega)]
    decide
  rw [linuxEpollWait, if_neg hvalid, epollWaitLoop_eq, Nat.sub_zero, epollReports]

/-! ### Runs of one process -/

/-- The calls that make, duplicate, close and register descriptors, and everything else that can happen
to a process: its memory, the objects and the clock change, and the offsets of its descriptors. -/
inductive WatchCall
  | control (descriptor operation target eventAddress : ℕ)
  | close (descriptor : ℕ)
  | duplicate (old : ℕ) (requested : Option ℕ)
  | create (call : CreateCall)
  | openat (pathAddress flags : ℕ)
  | other (c : Caller)

/-- Everything is as in `c'`, but descriptors refer to what they did and epoll objects are the same. -/
def Caller.elsewhere (c c' : Caller) : Caller :=
  { c' with
    process := { c'.process with descriptors := fun descriptor =>
      { c.process.descriptors descriptor with offset := (c'.process.descriptors descriptor).offset } }
    objects := { c'.objects with epolls := c.objects.epolls } }

/-- How many of the free numbers a call takes. -/
def WatchCall.numbers : WatchCall → ℕ
  | .create (.pipe2 _) | .create (.socketpair _ _ _) => 2
  | .create _ | .openat _ _ | .duplicate _ none => 1
  | _ => 0

def WatchCall.perform (c : Caller) : WatchCall → Except Errno ℕ × Caller
  | .control descriptor operation target eventAddress =>
    linuxEpollCtl c descriptor operation target eventAddress
  | .close descriptor => linuxClose c descriptor
  | .duplicate old requested => linuxDuplicateDescriptor c old requested
  | .create call => call.perform c
  | .openat pathAddress flags => linuxOpenat c pathAddress flags
  | .other c' => (.ok 0, c.elsewhere c')

/-- A process whose registrations are watched. -/
structure Watch where
  caller : Caller
  /-- the open object a descriptor number refers to -/
  token : ℕ → ℕ
  /-- tokens from here on were never used -/
  fresh : ℕ
  /-- the number of a registration has referred to one object since it was registered, by epoll object
  and slot -/
  live : ℕ → ℕ → Bool

namespace Watch

variable (w : Watch)

/-- The objects that descriptors refer to after a call: a duplicate refers to the object of the original,
and a descriptor that was not used before refers to a new object. -/
def nextToken (call : WatchCall) (descriptor : ℕ) : ℕ :=
  match call with
  | .duplicate old requested =>
    match (linuxDuplicateDescriptor w.caller old requested).1 with
    | .ok new => if descriptor = new then w.token old else w.token descriptor
    | .error _ => w.token descriptor
  | call =>
    if !(w.caller.process.descriptors descriptor).used &&
        ((call.perform w.caller).2.process.descriptors descriptor).used then
      w.fresh + descriptor
    else w.token descriptor

/-- The registration that a call has made or renewed. -/
def registered (call : WatchCall) : Option (ℕ × ℕ) :=
  match call with
  | .control descriptor operation target eventAddress =>
    match linuxEpollCtl w.caller descriptor operation target eventAddress with
    | (.ok _, c) =>
      if operation = 2 then none
      else (registrationOf (c.epoll descriptor) target).map fun slot =>
        ((c.process.descriptors descriptor).object, slot)
    | (.error _, _) => none
  | _ => none

def step (call : WatchCall) : Watch where
  caller := (call.perform w.caller).2
  token := w.nextToken call
  fresh := w.fresh + maxFileDescriptors
  live := fun object slot =>
    let number := ((w.caller.objects.epolls object).entries slot).descriptor
    w.registered call == some (object, slot) ||
      (w.live object slot && ((call.perform w.caller).2.process.descriptors number).used &&
        w.nextToken call number == w.token number)

/-- An epoll object of the process has a registration of this number. -/
def Registered (number : ℕ) : Prop :=
  ∃ descriptor slot, w.caller.hasEpoll descriptor = true ∧ slot < maxEpollEntries ∧
    ((w.caller.epoll descriptor).entries slot).used = true ∧
    ((w.caller.epoll descriptor).entries slot).descriptor = number

/-- **The condition**: a registered number that is free is not used again, and one that is in use is not
replaced by a descriptor for another object. -/
def Undisturbed (call : WatchCall) : Prop :=
  (∀ number ∈ freeNumbers w.caller.process call.numbers, ¬ w.Registered number) ∧
    ∀ old new, call = .duplicate old (some new) → w.Registered new →
      (w.caller.process.descriptors new).used = true ∧ w.token new = w.token old

/-- The process has no epoll descriptor yet. -/
def Fresh : Prop := ∀ descriptor, w.caller.hasEpoll descriptor = false

/-- Every registration the process can see is live, if its number is in use. -/
structure Ok : Prop where
  used : ∀ descriptor, w.caller.hasEpoll descriptor = true → (w.caller.epoll descriptor).used = true
  live : ∀ descriptor slot, w.caller.hasEpoll descriptor = true → slot < maxEpollEntries →
    ((w.caller.epoll descriptor).entries slot).used = true →
      (w.caller.process.descriptors
          ((w.caller.epoll descriptor).entries slot).descriptor).used = true →
        w.live (w.caller.process.descriptors descriptor).object slot = true

variable {w}

theorem Ok.fresh (h : w.Fresh) : w.Ok := by
  constructor
  · intro descriptor hdescriptor
    rw [h descriptor] at hdescriptor
    cases hdescriptor
  · intro descriptor slot hdescriptor
    rw [h descriptor] at hdescriptor
    cases hdescriptor

/-- A registration stays live when its number keeps its object. -/
theorem live_step {call : WatchCall} {object slot : ℕ} (hlive : w.live object slot = true)
    (hused : ((call.perform w.caller).2.process.descriptors
      ((w.caller.objects.epolls object).entries slot).descriptor).used = true)
    (htoken : w.nextToken call ((w.caller.objects.epolls object).entries slot).descriptor =
      w.token ((w.caller.objects.epolls object).entries slot).descriptor) :
    (w.step call).live object slot = true := by
  show (_ || (w.live object slot && _ && _)) = true
  rw [hlive, hused, beq_iff_eq.2 htoken, Bool.and_true, Bool.and_true, Bool.or_true]

/-- A descriptor that is used before a call refers to the same object after it, unless the call has
duplicated another one to its number. -/
theorem nextToken_of_used {call : WatchCall} {number : ℕ}
    (hcall : ∀ old requested, call ≠ .duplicate old requested)
    (hused : (w.caller.process.descriptors number).used = true) :
    w.nextToken call number = w.token number := by
  unfold nextToken
  split
  · rename_i old requested
    exact absurd rfl (hcall old requested)
  · rw [hused]
    rfl

/-- What a call that makes no registration owes: the epoll objects it leaves the process are old ones
with their registrations, or empty, and registered numbers that are in use keep their objects. -/
structure Keeps (w : Watch) (call : WatchCall) : Prop where
  reach : ∀ descriptor, (call.perform w.caller).2.hasEpoll descriptor = true →
    (∃ old, w.caller.hasEpoll old = true ∧
      ((call.perform w.caller).2.process.descriptors descriptor).object =
        (w.caller.process.descriptors old).object ∧
      (call.perform w.caller).2.epoll descriptor = w.caller.epoll old) ∨
    ((call.perform w.caller).2.epoll descriptor).used = true ∧
      ∀ slot, (((call.perform w.caller).2.epoll descriptor).entries slot).used = false
  numbers : ∀ number, w.Registered number →
    ((call.perform w.caller).2.process.descriptors number).used = true →
      (w.caller.process.descriptors number).used = true ∧ w.nextToken call number = w.token number

theorem Ok.step_keeps (h : w.Ok) {call : WatchCall} (hkeeps : w.Keeps call) : (w.step call).Ok := by
  constructor
  · intro descriptor hdescriptor
    obtain ⟨old, hold, -, hepoll⟩ | ⟨hused, -⟩ := hkeeps.reach descriptor hdescriptor
    · show ((call.perform w.caller).2.epoll descriptor).used = true
      rw [hepoll]
      exact h.used old hold
    · exact hused
  · intro descriptor slot hdescriptor hslot hentry hnumber
    change (((call.perform w.caller).2.epoll descriptor).entries slot).used = true at hentry
    change ((call.perform w.caller).2.process.descriptors
      (((call.perform w.caller).2.epoll descriptor).entries slot).descriptor).used = true at hnumber
    obtain ⟨old, hold, hobject, hepoll⟩ | ⟨-, hempty⟩ := hkeeps.reach descriptor hdescriptor
    · rw [hepoll] at hentry hnumber
      obtain ⟨hused, htoken⟩ := hkeeps.numbers _ ⟨old, slot, hold, hslot, hentry, rfl⟩ hnumber
      show (w.step call).live ((call.perform w.caller).2.process.descriptors descriptor).object slot = true
      rw [hobject]
      exact live_step (h.live old slot hold hslot hentry hused) hnumber htoken
    · rw [hempty slot] at hentry
      cases hentry

end Watch

/-! ### New descriptors -/

/-- What a call that makes descriptors of some numbers does to the descriptors and epoll objects that are
there: nothing; and a new epoll object has no registrations. -/
structure Creates (numbers : List ℕ) (c c' : Caller) : Prop where
  taken : ∀ descriptor, (c.process.descriptors descriptor).used = false →
    (c'.process.descriptors descriptor).used = true → descriptor ∈ numbers
  descriptors : ∀ descriptor, (c.process.descriptors descriptor).used = true →
    c'.process.descriptors descriptor = c.process.descriptors descriptor
  epolls : ∀ object, (c.objects.epolls object).used = true →
    c'.objects.epolls object = c.objects.epolls object
  made : ∀ descriptor, (c.process.descriptors descriptor).used = false →
    (c'.process.descriptors descriptor).used = true →
    (c'.process.descriptors descriptor).type = .epoll →
      (c'.epoll descriptor).used = true ∧ ∀ slot, ((c'.epoll descriptor).entries slot).used = false

section Creates

variable {c c' : Caller} {numbers : List ℕ}

/-- The descriptors are old ones, cleared ones, or new ones for other objects than epoll objects. -/
theorem Creates.of_plain
    (hdescriptors : ∀ descriptor, c'.process.descriptors descriptor = c.process.descriptors descriptor ∨
      (c.process.descriptors descriptor).used = false ∧
        (c'.process.descriptors descriptor).type ≠ .epoll ∧
        ((c'.process.descriptors descriptor).used = true → descriptor ∈ numbers))
    (hepolls : ∀ object, (c.objects.epolls object).used = true →
      c'.objects.epolls object = c.objects.epolls object) : Creates numbers c c' := by
  refine ⟨?_, ?_, hepolls, ?_⟩
  · intro descriptor hfree hused
    obtain hsame | ⟨-, -, htaken⟩ := hdescriptors descriptor
    · rw [hsame, hfree] at hused
      cases hused
    · exact htaken hused
  · intro descriptor hused
    obtain hsame | ⟨hfree, -⟩ := hdescriptors descriptor
    · exact hsame
    · rw [hfree] at hused
      cases hused
  · intro descriptor hfree hused htype
    obtain hsame | ⟨-, hplain, -⟩ := hdescriptors descriptor
    · rw [hsame, hfree] at hused
      cases hused
    · exact absurd htype hplain

theorem Creates.same (hdescriptors : c'.process.descriptors = c.process.descriptors)
    (hepolls : c'.objects.epolls = c.objects.epolls) : Creates numbers c c' :=
  .of_plain (fun descriptor => .inl (congrFun hdescriptors descriptor)) fun object _ =>
    congrFun hepolls object

theorem Creates.refl (c : Caller) : Creates numbers c c := .same rfl rfl

theorem mem_freeNumbers_one {process : Process} {first : ℕ} (h : findDescriptor process = some first) :
    first ∈ freeNumbers process 1 := by
  rw [freeNumbers_one h]
  exact List.mem_singleton_self _

theorem setDescriptor_cases {free : ℕ} {file : FileDescriptor}
    (hfree : findDescriptor c.process = some free) (htype : file.type ≠ .epoll) (descriptor : ℕ) :
    (c.setDescriptor free file).process.descriptors descriptor = c.process.descriptors descriptor ∨
      (c.process.descriptors descriptor).used = false ∧
        ((c.setDescriptor free file).process.descriptors descriptor).type ≠ .epoll ∧
        (((c.setDescriptor free file).process.descriptors descriptor).used = true →
          descriptor ∈ freeNumbers c.process 1) := by
  rcases eq_or_ne descriptor free with rfl | hne
  · right
    refine ⟨findDescriptor_free hfree, ?_, fun _ => mem_freeNumbers_one hfree⟩
    show (update c.process.descriptors descriptor file descriptor).type ≠ .epoll
    rwa [update_self]
  · left
    exact update_of_ne hne ..

theorem newDescriptor_creates {made : Caller} {file : FileDescriptor} (htype : file.type ≠ .epoll)
    (hprocess : made.process = c.process) (hepolls : made.objects.epolls = c.objects.epolls) :
    Creates (freeNumbers c.process 1) c (newDescriptor made file).2 := by
  cases hfind : findDescriptor made.process with
  | none =>
    rw [newDescriptor_none hfind]
    exact .same (by rw [hprocess]) hepolls
  | some descriptor =>
    rw [newDescriptor_some hfind]
    refine .of_plain ?_ fun object _ => congrFun hepolls object
    rw [← hprocess]
    exact setDescriptor_cases hfind htype

/-- A pair of descriptors is made of the first two free ones. -/
theorem pairDescriptors_creates {made : Caller} {first address : ℕ} {left right : FileDescriptor}
    {drop : Objects → Objects} (hfirst : findDescriptor made.process = some first)
    (hleft : left.type ≠ .epoll) (hright : right.type ≠ .epoll)
    (hdrop : ∀ objects, (drop objects).epolls = objects.epolls)
    (hprocess : made.process = c.process) (hepolls : made.objects.epolls = c.objects.epolls) :
    Creates (freeNumbers c.process 2) c (pairDescriptors made first left right address drop).2 := by
  obtain ⟨error, c', heq, hset, hobjects⟩ | ⟨c', heq, hset, hobjects, hothers⟩ :=
    pairDescriptors_outcome left right address drop hfirst
  · rw [heq]
    refine .of_plain (fun descriptor => ?_) fun object _ => by rw [hobjects, hdrop, hepolls]
    rw [← hprocess]
    refine (hset descriptor).imp_right fun hzero => ⟨hzero.1, ?_⟩
    rw [hzero.2]
    exact ⟨by decide, fun hno => by cases hno⟩
  · rw [heq]
    refine .of_plain (fun descriptor => ?_) fun object _ => by rw [hobjects, hepolls]
    rw [← hprocess]
    by_cases hmem : descriptor ∈ freeNumbers made.process 2
    · refine (hset descriptor).imp_right fun hnew => ⟨hnew.1, ?_, fun _ => hmem⟩
      rcases hnew.2 with hfile | hfile
      · rw [hfile]
        exact hleft
      · rw [hfile]
        exact hright
    · exact .inl (hothers descriptor hmem)

theorem create_creates (call : CreateCall) :
    Creates (freeNumbers c.process (WatchCall.create call).numbers) c (call.perform c).2 := by
  cases call with
  | pipe2 address =>
    rw [CreateCall.perform, linuxPipe2]
    split
    · exact .refl c
    · rename_i object hobject
      simp only
      split
      · exact .same rfl rfl
      · rename_i first hfirst
        exact pairDescriptors_creates hfirst (fun hno => by cases hno) (fun hno => by cases hno) (fun _ => rfl) rfl rfl
  | socketpair domain type address =>
    rw [CreateCall.perform, linuxSocketpair]
    split
    · exact .refl c
    split
    · exact .refl c
    · simp only
      split
      · exact .same rfl rfl
      · rename_i first hfirst
        exact pairDescriptors_creates hfirst (fun hno => by cases hno) (fun hno => by cases hno) (fun _ => rfl) rfl rfl
  | epollCreate =>
    rw [CreateCall.perform, linuxEpollCreate]
    split
    · exact .refl c
    · rename_i object hobject
      have hunused : (c.objects.epolls object).used = false := firstFree_free hobject
      have hepolls : ∀ other, (c.objects.epolls other).used = true →
          update c.objects.epolls object { EpollObject.zero with used := true } other =
            c.objects.epolls other := by
        intro other hother
        have hne : other ≠ object := by
          rintro rfl
          rw [hunused] at hother
          cases hother
        exact update_of_ne hne ..
      rw [newDescriptor]
      split
      · exact .of_plain (fun _ => .inl rfl) hepolls
      · rename_i free hfind
        have hfree : (c.process.descriptors free).used = false := findDescriptor_free hfind
        refine ⟨?_, ?_, hepolls, ?_⟩
        · intro descriptor hbefore hafter
          rcases eq_or_ne descriptor free with rfl | hne
          · exact mem_freeNumbers_one hfind
          · simp only [Caller.setDescriptor, update_of_ne hne] at hafter
            rw [hbefore] at hafter
            cases hafter
        · intro descriptor hdescriptor
          have hne : descriptor ≠ free := by
            rintro rfl
            rw [hfree] at hdescriptor
            cases hdescriptor
          exact update_of_ne hne ..
        · intro descriptor hbefore hafter _
          rcases eq_or_ne descriptor free with rfl | hne
          · simp only [Caller.epoll, Caller.setDescriptor, FileDescriptor.ofObject, update_self]
            exact ⟨trivial, fun _ => rfl⟩
          · simp only [Caller.setDescriptor, update_of_ne hne] at hafter
            rw [hbefore] at hafter
            cases hafter
  | eventfd2 initialValue flags =>
    rw [CreateCall.perform, linuxEventfd2]
    split
    · exact .refl c
    split
    · exact .refl c
    · exact newDescriptor_creates (fun hno => by cases hno) rfl rfl
  | timerfdCreate clock flags =>
    rw [CreateCall.perform, linuxTimerfdCreate]
    split
    · exact .refl c
    split
    · exact .refl c
    · exact newDescriptor_creates (fun hno => by cases hno) rfl rfl
  | memfdCreate nameAddress flags =>
    rw [CreateCall.perform, linuxMemfdCreate]
    split
    · exact .refl c
    split
    · exact .refl c
    · exact .refl c
    split
    · exact .refl c
    split
    · exact .same rfl rfl
    · rename_i free hfind
      exact .of_plain (setDescriptor_cases hfind (fun hno => by cases hno)) fun _ _ => rfl

theorem openat_creates (pathAddress flags : ℕ) :
    Creates (freeNumbers c.process 1) c (linuxOpenat c pathAddress flags).2 := by
  rw [linuxOpenat]
  split
  · exact .refl c
  simp only
  split
  · exact .same rfl rfl
  split
  · exact .same rfl rfl
  split
  · exact .same rfl rfl
  split
  · exact .same rfl rfl
  split
  · exact .same rfl rfl
  · rename_i free hfind
    refine .of_plain (setDescriptor_cases hfind ?_) fun _ _ => rfl
    show (if _ then DescriptorType.directory else DescriptorType.file) ≠ .epoll
    split
    · decide
    · decide

end Creates

/-! ### Registering -/

/-- An entry of an epoll object after one of them was set. -/
theorem setEpollEntry_entry (c : Caller) (descriptor slot : ℕ) (entry : EpollEntry) (object other : ℕ) :
    ((c.setEpollEntry descriptor slot entry).objects.epolls object).entries other =
      if object = (c.process.descriptors descriptor).object ∧ other = slot then entry
      else (c.objects.epolls object).entries other := by
  show (update c.objects.epolls (c.process.descriptors descriptor).object _ object).entries other = _
  by_cases hobject : object = (c.process.descriptors descriptor).object
  · subst hobject
    rw [update_self]
    show update (c.objects.epolls (c.process.descriptors descriptor).object).entries slot entry
      other = _
    by_cases hother : other = slot
    · rw [if_pos ⟨rfl, hother⟩, hother, update_self]
    · rw [if_neg fun h => hother h.2, update_of_ne hother]
  · rw [update_of_ne hobject, if_neg fun h => hobject h.1]

theorem setEpollEntry_used (c : Caller) (descriptor slot : ℕ) (entry : EpollEntry) (object : ℕ) :
    ((c.setEpollEntry descriptor slot entry).objects.epolls object).used = (c.objects.epolls object).used := by
  show (update c.objects.epolls (c.process.descriptors descriptor).object _ object).used = _
  by_cases hobject : object = (c.process.descriptors descriptor).object
  · subst hobject
    rw [update_self]
  · rw [update_of_ne hobject]

section Control

variable {c : Caller} {descriptor target slot : ℕ} {entry : EpollEntry}

/-- A slot that is the registration of a number afterwards: it is set to it, and was its registration
before, or the number had none. -/
theorem registrationOf_set (hslot : slot < maxEpollEntries) (hused : entry.used = true)
    (htarget : entry.descriptor = target)
    (hbefore : registrationOf (c.epoll descriptor) target = none ∨
      registrationOf (c.epoll descriptor) target = some slot) :
    registrationOf ((c.setEpollEntry descriptor slot entry).epoll descriptor) target = some slot := by
  have hentry : ∀ index, ((c.setEpollEntry descriptor slot entry).epoll descriptor).entries index =
      if index = slot then entry else (c.epoll descriptor).entries index := by
    intro index
    refine (setEpollEntry_entry ..).trans ?_
    by_cases hindex : index = slot
    · rw [if_pos ⟨rfl, hindex⟩, if_pos hindex]
    · rw [if_neg fun h => hindex h.2, if_neg hindex]
      rfl
  obtain hnone | hsome := hbefore
  · -- no other slot has the number
    rw [registrationOf, List.find?_eq_none] at hnone
    cases hfind : registrationOf ((c.setEpollEntry descriptor slot entry).epoll descriptor) target with
    | none =>
      rw [registrationOf, List.find?_eq_none] at hfind
      have hmem : slot ∈ (List.range maxEpollEntries).reverse :=
        List.mem_reverse.2 (List.mem_range.2 hslot)
      have hnot := hfind slot hmem
      rw [hentry, if_pos rfl, hused, htarget, beq_self_eq_true] at hnot
      exact absurd rfl hnot
    | some found =>
      have hholds := List.find?_some hfind
      by_contra hne
      have hother : ¬ found = slot := fun h => hne (congrArg some h)
      rw [hentry, if_neg hother] at hholds
      exact hnone found (List.mem_of_find?_eq_some hfind) hholds
  · -- the slot had the number already, so the search finds the same
    have hholds := List.find?_some hsome
    rw [registrationOf] at hsome ⊢
    rw [← hsome]
    congr 1
    funext index
    rw [hentry]
    by_cases hindex : index = slot
    · rw [if_pos hindex, hused, htarget, beq_self_eq_true, hindex, hholds]
      rfl
    · rw [if_neg hindex]

theorem linuxEpollCtl_cases (c : Caller) (descriptor operation target eventAddress : ℕ) :
    (∃ error, linuxEpollCtl c descriptor operation target eventAddress = (.error error, c)) ∨
    (operation = 2 ∧ ∃ slot, linuxEpollCtl c descriptor operation target eventAddress =
      (.ok 0, c.setEpollEntry descriptor slot ⟨false, 0, 0, 0⟩)) ∨
    (operation ≠ 2 ∧ ∃ slot entry,
      linuxEpollCtl c descriptor operation target eventAddress =
        (.ok 0, c.setEpollEntry descriptor slot entry) ∧
      registrationOf ((c.setEpollEntry descriptor slot entry).epoll descriptor) target = some slot) := by
  rw [linuxEpollCtl]
  split
  · exact .inl ⟨_, rfl⟩
  simp only
  split
  · rename_i hdelete
    split
    · exact .inl ⟨_, rfl⟩
    · exact .inr (.inl ⟨hdelete, _, rfl⟩)
  rename_i hset
  split
  · exact .inl ⟨_, rfl⟩
  rename_i event _
  split
  · exact .inl ⟨_, rfl⟩
  rename_i hexist
  split
  · exact .inl ⟨_, rfl⟩
  split
  · exact .inl ⟨_, rfl⟩
  rename_i slot hslot
  refine .inr (.inr ⟨hset, slot, _, rfl, ?_⟩)
  by_cases hadd : operation = 1
  · rw [if_pos hadd] at hslot
    have hnone : registrationOf (c.epoll descriptor) target = none := by
      cases hfind : registrationOf (c.epoll descriptor) target with
      | none => rfl
      | some found =>
        rw [hfind] at hexist
        exact absurd ⟨hadd, rfl⟩ hexist
    exact registrationOf_set (List.mem_range.1 (List.mem_of_find?_eq_some hslot)) rfl rfl (.inl hnone)
  · rw [if_neg hadd] at hslot
    have hmem := List.mem_reverse.1 (List.mem_of_find?_eq_some hslot)
    exact registrationOf_set (List.mem_range.1 hmem) rfl rfl (.inr hslot)

end Control

/-! ### Steps -/

namespace Watch

variable {w : Watch} {call : WatchCall}

theorem Keeps.of_creates (h : w.Ok) (hcall : ∀ old requested, call ≠ .duplicate old requested)
    {numbers : List ℕ} (hcreates : Creates numbers w.caller (call.perform w.caller).2)
    (hnumbers : ∀ number ∈ numbers, ¬ w.Registered number) : w.Keeps call := by
  constructor
  · intro descriptor hepoll
    rw [Caller.hasEpoll, Caller.has, and_eq_true, and_eq_true, beq_iff_eq] at hepoll
    obtain ⟨⟨hrange, hafter⟩, htype⟩ := hepoll
    cases hbefore : (w.caller.process.descriptors descriptor).used with
    | true =>
      left
      have hsame := hcreates.descriptors descriptor hbefore
      have hold : w.caller.hasEpoll descriptor = true := by
        rw [Caller.hasEpoll, Caller.has, hrange, hbefore, ← hsame, htype]
        rfl
      refine ⟨descriptor, hold, by rw [hsame], ?_⟩
      rw [Caller.epoll, hsame]
      exact hcreates.epolls _ (h.used descriptor hold)
    | false => exact .inr (hcreates.made descriptor hbefore hafter htype)
  · intro number hnumber hafter
    cases hused : (w.caller.process.descriptors number).used with
    | true => exact ⟨rfl, nextToken_of_used hcall hused⟩
    | false => exact absurd hnumber (hnumbers number (hcreates.taken number hused hafter))

/-- An entry is set, to a registration of a descriptor in use or to none. -/
theorem Ok.step_entry (h : w.Ok) (hcall : ∀ old requested, call ≠ .duplicate old requested)
    {descriptor slot : ℕ} {entry : EpollEntry}
    (hperform : (call.perform w.caller).2 = w.caller.setEpollEntry descriptor slot entry)
    (hentry : entry.used = true →
      w.registered call = some ((w.caller.process.descriptors descriptor).object, slot)) :
    (w.step call).Ok := by
  have hcaller : (w.step call).caller = w.caller.setEpollEntry descriptor slot entry := hperform
  constructor
  · intro other hother
    rw [hcaller] at hother ⊢
    exact (setEpollEntry_used ..).trans (h.used other hother)
  · intro other position hother hposition hused hnumber
    rw [hcaller] at hother hused hnumber ⊢
    have hvalue : ((w.caller.setEpollEntry descriptor slot entry).epoll other).entries position =
        if (w.caller.process.descriptors other).object = (w.caller.process.descriptors descriptor).object ∧
          position = slot then entry else (w.caller.epoll other).entries position :=
      setEpollEntry_entry ..
    rw [hvalue] at hused hnumber
    by_cases hhere : (w.caller.process.descriptors other).object =
        (w.caller.process.descriptors descriptor).object ∧ position = slot
    · -- the entry itself
      rw [if_pos hhere] at hused
      have hregistered := hentry hused
      show (w.registered call == some ((w.caller.process.descriptors other).object, position) || _) = true
      rw [hregistered, hhere.1, hhere.2, beq_self_eq_true, Bool.true_or]
    · rw [if_neg hhere] at hused hnumber
      refine live_step (h.live other position hother hposition hused hnumber) ?_
        (nextToken_of_used hcall hnumber)
      rw [hperform]
      exact hnumber

theorem Ok.step_control (h : w.Ok) (descriptor operation target eventAddress : ℕ) :
    (w.step (.control descriptor operation target eventAddress)).Ok := by
  have hcall : ∀ old requested, WatchCall.control descriptor operation target eventAddress ≠
      .duplicate old requested := nofun
  obtain ⟨error, herror⟩ | ⟨-, slot, hdelete⟩ | ⟨hoperation, slot, entry, hset, hfound⟩ :=
    linuxEpollCtl_cases w.caller descriptor operation target eventAddress
  · refine h.step_keeps (.of_creates h hcall ?_ fun _ => List.not_mem_nil.elim)
    rw [WatchCall.perform, herror]
    exact .refl _
  · refine h.step_entry hcall (congrArg Prod.snd hdelete) ?_
    intro hnot
    cases hnot
  · refine h.step_entry hcall (congrArg Prod.snd hset) fun _ => ?_
    rw [registered, hset]
    simp only
    rw [if_neg hoperation, hfound]
    rfl

theorem Keeps.close (h : w.Ok) (descriptor : ℕ) : w.Keeps (.close descriptor) := by
  cases hhas : w.caller.has descriptor with
  | false =>
    refine .of_creates h nofun ?_ fun _ => List.not_mem_nil.elim
    rw [WatchCall.perform, linuxClose, hhas]
    exact .refl _
  | true =>
    have hclosed : (WatchCall.perform w.caller (.close descriptor)).2 =
        (w.caller.releaseDescriptor descriptor).setDescriptor descriptor FileDescriptor.zero := by
      rw [WatchCall.perform, linuxClose, hhas]
      rfl
    -- a descriptor that is used afterwards is another one, and as it was
    have hothers : ∀ other,
        ((WatchCall.perform w.caller (.close descriptor)).2.process.descriptors other).used = true →
        (WatchCall.perform w.caller (.close descriptor)).2.process.descriptors other =
          w.caller.process.descriptors other := by
      intro other hused
      rw [hclosed] at hused ⊢
      change (update w.caller.process.descriptors descriptor FileDescriptor.zero other).used = true at hused
      show update w.caller.process.descriptors descriptor _ other = _
      rcases eq_or_ne other descriptor with rfl | hne
      · rw [update_self] at hused
        cases hused
      · exact update_of_ne hne ..
    have hepolls : (WatchCall.perform w.caller (.close descriptor)).2.objects.epolls =
        w.caller.objects.epolls := by
      rw [hclosed]
      rfl
    constructor
    · intro other hepoll
      left
      have hsame := hothers other (by
        rw [Caller.hasEpoll, Caller.has, and_eq_true, and_eq_true] at hepoll
        exact hepoll.1.2)
      rw [Caller.hasEpoll, Caller.has, hsame] at hepoll
      refine ⟨other, hepoll, by rw [hsame], ?_⟩
      rw [Caller.epoll, hsame, hepolls]
      rfl
    · intro number _ hafter
      have hsame := hothers number hafter
      rw [hsame] at hafter
      exact ⟨hafter, nextToken_of_used nofun hafter⟩

theorem linuxDuplicateDescriptor_cases (c : Caller) (old : ℕ) (requested : Option ℕ) :
    (linuxDuplicateDescriptor c old requested).2 = c ∧
      ((∃ error, (linuxDuplicateDescriptor c old requested).1 = .error error) ∨
        (linuxDuplicateDescriptor c old requested).1 = .ok old) ∨
    ∃ new, (linuxDuplicateDescriptor c old requested).1 = .ok new ∧ c.has old = true ∧
      (requested = some new ∨ requested = none ∧ findDescriptor c.process = some new) ∧
      (linuxDuplicateDescriptor c old requested).2.process.descriptors =
        update c.process.descriptors new (c.process.descriptors old) ∧
      (linuxDuplicateDescriptor c old requested).2.objects.epolls = c.objects.epolls := by
  rw [linuxDuplicateDescriptor]
  cases hhas : c.has old with
  | false => exact .inl ⟨rfl, .inl ⟨_, rfl⟩⟩
  | true =>
    rw [if_neg (by decide)]
    split
    · exact .inl ⟨rfl, .inl ⟨_, rfl⟩⟩
    rename_i new hnew
    split
    · exact .inl ⟨rfl, .inl ⟨_, rfl⟩⟩
    split
    · exact .inl ⟨rfl, .inr rfl⟩
    refine .inr ⟨new, rfl, rfl, ?_, ?_, ?_⟩
    · cases requested with
      | none => exact .inr ⟨rfl, hnew⟩
      | some number => exact .inl hnew
    · cases (c.process.descriptors new).used with
      | false => rfl
      | true => rfl
    · cases (c.process.descriptors new).used with
      | false => rfl
      | true => rfl

theorem Keeps.duplicate {old : ℕ} {requested : Option ℕ}
    (hcondition : w.Undisturbed (.duplicate old requested)) : w.Keeps (.duplicate old requested) := by
  obtain ⟨hsame, hresult⟩ | ⟨new, hresult, hhas, hnew, hdescriptors, hepolls⟩ :=
    linuxDuplicateDescriptor_cases w.caller old requested
  · have hperform : (WatchCall.perform w.caller (.duplicate old requested)).2 = w.caller := hsame
    constructor
    · intro descriptor hepoll
      rw [hperform] at hepoll ⊢
      exact .inl ⟨descriptor, hepoll, rfl, rfl⟩
    · intro number hnumber hused
      rw [hperform] at hused
      refine ⟨hused, ?_⟩
      unfold nextToken
      simp only
      obtain ⟨error, herror⟩ | hold := hresult
      · rw [herror]
      · rw [hold]
        simp only
        split
        · rename_i hnumber
          rw [hnumber]
        · rfl
  · have hperform : ∀ descriptor,
        (WatchCall.perform w.caller (.duplicate old requested)).2.process.descriptors descriptor =
          update w.caller.process.descriptors new (w.caller.process.descriptors old) descriptor :=
      fun descriptor => congrFun hdescriptors descriptor
    have hobjects : (WatchCall.perform w.caller (.duplicate old requested)).2.objects.epolls =
        w.caller.objects.epolls := hepolls
    have hold : (w.caller.process.descriptors old).used = true := by
      rw [Caller.has, and_eq_true] at hhas
      exact hhas.2
    constructor
    · intro descriptor hepoll
      left
      rw [Caller.hasEpoll, Caller.has, hperform] at hepoll
      rw [Caller.epoll, hperform, hobjects]
      rcases eq_or_ne descriptor new with rfl | hne
      · rw [update_self] at hepoll ⊢
        refine ⟨old, ?_, rfl, rfl⟩
        rw [Caller.hasEpoll, hhas]
        rw [and_eq_true] at hepoll
        exact hepoll.2
      · rw [update_of_ne hne] at hepoll ⊢
        exact ⟨descriptor, hepoll, rfl, rfl⟩
    · intro number hnumber hused
      rw [hperform] at hused
      unfold nextToken
      simp only
      rw [hresult]
      simp only
      rcases eq_or_ne number new with rfl | hne
      · rw [if_pos rfl]
        obtain rfl | ⟨rfl, hfind⟩ := hnew
        · exact (hcondition.2 old number rfl hnumber).imp_right Eq.symm
        · exact absurd hnumber (hcondition.1 number (mem_freeNumbers_one hfind))
      · rw [update_of_ne hne] at hused
        rw [if_neg hne]
        exact ⟨hused, rfl⟩

theorem Keeps.other (c : Caller) : w.Keeps (.other c) := by
  constructor
  · intro descriptor hepoll
    exact .inl ⟨descriptor, hepoll, rfl, rfl⟩
  · intro number _ hused
    exact ⟨hused, nextToken_of_used nofun hused⟩

theorem Ok.step (h : w.Ok) (hcondition : w.Undisturbed call) : (w.step call).Ok := by
  cases call with
  | control descriptor operation target eventAddress => exact h.step_control ..
  | close descriptor => exact h.step_keeps (.close h descriptor)
  | duplicate old requested => exact h.step_keeps (.duplicate hcondition)
  | create call => exact h.step_keeps (.of_creates h nofun (create_creates call) hcondition.1)
  | openat pathAddress flags => exact h.step_keeps (.of_creates h nofun (openat_creates ..) hcondition.1)
  | other c => exact h.step_keeps (.other c)

end Watch

/-- The state of a process after a run of calls. -/
def Watch.run (w : Watch) (calls : List WatchCall) : Watch := calls.foldl Watch.step w

/-- **Only live registrations are reported**, in every run in which no registered number is put into use
for another object. -/
theorem epoll_reports_live (w : Watch) (hw : w.Ok) (calls : List WatchCall)
    (hcalls : Along Watch.step Watch.Undisturbed w calls) (descriptor address maximum : ℕ)
    (hdescriptor : (w.run calls).caller.hasEpoll descriptor = true)
    (hmaximum : 0 < maximum ∧ maximum < 2 ^ 31) :
    linuxEpollWait (w.run calls).caller descriptor address maximum =
        storeReports ((w.run calls).caller.epoll descriptor) address
          (epollReports (w.run calls).caller descriptor maximum) 0 (w.run calls).caller ∧
      ∀ slot ∈ epollReports (w.run calls).caller descriptor maximum,
        (w.run calls).live ((w.run calls).caller.process.descriptors descriptor).object slot = true := by
  have hok : (w.run calls).Ok := run_invariant (fun _ _ h hcondition => h.step hcondition) hw hcalls
  refine ⟨linuxEpollWait_eq hdescriptor hmaximum address, ?_⟩
  intro slot hslot
  have hmem := List.mem_filter.1 (List.mem_of_mem_take hslot)
  have hreport := hmem.2
  rw [reportable, and_eq_true, bne_iff_ne] at hreport
  refine hok.live descriptor slot hdescriptor (List.mem_range.1 hmem.1) hreport.1 ?_
  -- a closed descriptor is never ready
  by_contra hclosed
  refine hreport.2 ?_
  rw [entryReady, descriptorReadyEvents]
  exact if_pos (.inr (by rw [Bool.not_eq_true'] ; exact Bool.of_not_eq_true hclosed))

/-- A process with an `epoll_event` in its memory, which asks for `EPOLLIN` with the word 7. -/
def watchedProcess : Watch where
  caller :=
    (Caller.copyTo { startedCaller with vm := oneSpace, memory := onePage.memory } vmUserBase
      (leBytes 4 1 ++ leBytes 8 7)).2
  token := fun _ => 0
  fresh := 1
  live := fun _ _ => false

/-- An epoll descriptor, an eventfd whose counter is 1, and its registration. -/
def watchedCalls : List WatchCall :=
  [.create .epollCreate, .create (.eventfd2 1 0), .control 3 1 4 vmUserBase]

theorem Watch.undisturbed_of {w : Watch} {call : WatchCall}
    (hcall : ∀ old new, call ≠ .duplicate old (some new))
    (h : ((List.range maxFileDescriptors).all fun descriptor => !w.caller.hasEpoll descriptor ||
      (List.range maxEpollEntries).all fun slot => !((w.caller.epoll descriptor).entries slot).used ||
        !(freeNumbers w.caller.process call.numbers).contains
          ((w.caller.epoll descriptor).entries slot).descriptor) = true) : w.Undisturbed call := by
  refine ⟨?_, fun old new heq => absurd heq (hcall old new)⟩
  rintro number hnumber ⟨descriptor, slot, hepoll, hslot, hused, rfl⟩
  have hrange : descriptor < maxFileDescriptors := by
    rw [Caller.hasEpoll, Caller.has, and_eq_true, and_eq_true, and_eq_true, decide_eq_true_eq,
      decide_eq_true_eq] at hepoll
    exact hepoll.1.1.2
  have hslots := List.all_eq_true.1 h descriptor (List.mem_range.2 hrange)
  rw [hepoll, Bool.not_true, Bool.false_or] at hslots
  have hentry := List.all_eq_true.1 hslots slot (List.mem_range.2 hslot)
  rw [hused, List.contains_iff_mem.2 hnumber] at hentry
  cases hentry

/-- A second eventfd is registered as well, and closed. -/
def closedCalls : List WatchCall :=
  [.create .epollCreate, .create (.eventfd2 1 0), .control 3 1 4 vmUserBase, .create (.eventfd2 1 0),
    .control 3 1 5 vmUserBase, .close 5]

theorem epoll_reports_live_eventfd :
    epollReports (watchedProcess.run closedCalls).caller 3 8 = [0] ∧
      (watchedProcess.run closedCalls).live 0 0 = true := by
  have hreports : epollReports (watchedProcess.run closedCalls).caller 3 8 = [0] := by decide +kernel
  have hfresh : watchedProcess.Fresh := by
    intro descriptor
    rw [Caller.hasEpoll, Caller.has]
    show (_ && false && _) = false
    rw [Bool.and_false, Bool.false_and]
  have hcalls : Along Watch.step Watch.Undisturbed watchedProcess closedCalls := by
    refine ⟨?_, ?_, ?_, ?_, ?_, ?_, trivial⟩
    all_goals exact Watch.undisturbed_of (fun _ _ hno => by cases hno) (by decide +kernel)
  refine ⟨hreports, (epoll_reports_live watchedProcess (.fresh hfresh) closedCalls hcalls 3 vmUserBase 8
    (by decide +kernel) (by decide)).2 0 ?_⟩
  rw [hreports]
  exact List.mem_cons_self

/-- **A closed and reused number is reported**: the eventfd is closed, another one takes its number, and
its event is reported with the word of the first one. -/
theorem reused_number_reported :
    let w := watchedProcess.run (watchedCalls ++ [.close 4, .create (.eventfd2 1 0)])
    epollReports w.caller 3 8 = [0] ∧ (linuxEpollWait w.caller 3 vmUserBase 8).1 = .ok 1 ∧
      (linuxEpollWait w.caller 3 vmUserBase 8).2.copyFrom vmUserBase 12 =
        some (leBytes 4 1 ++ leBytes 8 7) ∧
      w.live 0 0 = false := by
  decide +kernel

end NovaOS.Process
