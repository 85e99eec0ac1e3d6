import NovaOS.Process.Descriptors

/-!
# Descriptors that cannot be made

The six calls that make an object and a descriptor for it.  Each takes an object first and looks for a
descriptor then.  `linux_memfd_create` gives the object back when there is no descriptor, the others
return with the object still in use, and nothing ever gives it back.

* `CreateCall` — the six calls;
* `Caller.table`, `SameTables` — the descriptors of a process, and the used entries of the tables;
* `CreateCall.Takes` — the call gets as far as taking an object that it does not give back;
* `failed_creation_leaks_nothing_iff` — **a failed call leaves the tables as they were exactly when not
  both hold**: it takes an object, and the process has no free descriptor.
-/

namespace NovaOS.Process

open NovaOS.Vm NovaOS.Fs Function

/-- The calls that make descriptors for new objects. -/
inductive CreateCall
  | pipe2 (address : ℕ)
  | socketpair (domain type address : ℕ)
  | epollCreate
  | eventfd2 (initialValue flags : ℕ)
  | timerfdCreate (clock flags : ℕ)
  | memfdCreate (nameAddress flags : ℕ)

def CreateCall.perform (c : Caller) : CreateCall → Except Errno ℕ × Caller
  | .pipe2 address => linuxPipe2 c address
  | .socketpair domain type address => linuxSocketpair c domain type address
  | .epollCreate => linuxEpollCreate c
  | .eventfd2 initialValue flags => linuxEventfd2 c initialValue flags
  | .timerfdCreate clock flags => linuxTimerfdCreate c clock flags
  | .memfdCreate nameAddress flags => linuxMemfdCreate c nameAddress flags

/-- The call accepts its arguments and finds an object, and is not the one that gives it back. -/
def CreateCall.Takes (c : Caller) : CreateCall → Prop
  | .pipe2 _ => (firstFree maxPipeObjects fun index => (c.objects.pipes index).used).isSome
  | .socketpair domain type _ => domain = 1 ∧ type % 16 = 1 ∧
      (firstFree maxSocketPairs fun index => (c.objects.socketPairs index).used).isSome
  | .epollCreate => (firstFree maxEpollObjects fun index => (c.objects.epolls index).used).isSome
  | .eventfd2 initialValue flags => initialValue ≤ 0xFFFFFFFF ∧ flags &&& 0x80801 = flags ∧
      (firstFree maxEventObjects fun index => (c.objects.events index).used).isSome
  | .timerfdCreate clock flags => (clock = 0 ∨ clock = 1) ∧ flags &&& 0x80800 = flags ∧
      (firstFree maxTimerObjects fun index => (c.objects.timers index).used).isSome
  | .memfdCreate _ _ => False

/-- The descriptors of a process. -/
def Caller.table (c : Caller) (descriptor : ℕ) : Option FileDescriptor :=
  if (c.process.descriptors descriptor).used then some (c.process.descriptors descriptor) else none

/-- Entries that are not used are cleared, as `close` and the reset of a slot leave them. -/
def Caller.Cleared (c : Caller) : Prop :=
  ∀ descriptor, (c.process.descriptors descriptor).used = false →
    c.process.descriptors descriptor = FileDescriptor.zero

/-- Entries of a table are used in both states or in neither. -/
def SameUsed {α : Type*} (used : α → Bool) (table table' : ℕ → α) : Prop :=
  ∀ index, used (table' index) = used (table index)

/-- The descriptors of the process, and which entries of the object tables are used. -/
structure SameTables (c c' : Caller) : Prop where
  table : c'.table = c.table
  /-- the array itself, where it is cleared -/
  descriptors : c.Cleared → c'.process.descriptors = c.process.descriptors
  pipes : SameUsed PipeObject.used c.objects.pipes c'.objects.pipes
  socketPairs : SameUsed UnixSocketPair.used c.objects.socketPairs c'.objects.socketPairs
  epolls : SameUsed EpollObject.used c.objects.epolls c'.objects.epolls
  events : SameUsed EventObject.used c.objects.events c'.objects.events
  timers : SameUsed TimerObject.used c.objects.timers c'.objects.timers
  memfds : SameUsed MemfdObject.used c.objects.memfds c'.objects.memfds

/-- When the call fails, the tables are as before. -/
def CreateCall.LeaksNothing (call : CreateCall) (c : Caller) : Prop :=
  ∀ error c', call.perform c = (.error error, c') → SameTables c c'

/-! ### Tables -/

section Tables

variable {α : Type*} {used : α → Bool} {table table' : ℕ → α}

theorem SameUsed.refl (used : α → Bool) (table : ℕ → α) : SameUsed used table table := fun _ => rfl

/-- An entry is taken and given back. -/
theorem SameUsed.update {index : ℕ} {entry : α} (h : used entry = used (table index)) :
    SameUsed used table (update table index entry) := by
  intro i
  rcases eq_or_ne i index with rfl | hi
  · rw [update_self, h]
  · rw [update_of_ne hi]

/-- An entry that is taken and kept shows. -/
theorem not_sameUsed_update {index : ℕ} {entry : α} (hfree : used (table index) = false)
    (hentry : used entry = true) : ¬ SameUsed used table (update table index entry) := by
  intro h
  have hindex := h index
  rw [update_self, hentry, hfree] at hindex
  cases hindex

theorem firstFree_free {limit index : ℕ} {used : ℕ → Bool} (h : firstFree limit used = some index) :
    used index = false := by
  have hfree := List.find?_some h
  rwa [Bool.not_eq_true'] at hfree

theorem findDescriptor_free {process : Process} {descriptor : ℕ}
    (h : findDescriptor process = some descriptor) :
    (process.descriptors descriptor).used = false := by
  have hfree := List.find?_some h
  rwa [Bool.not_eq_true'] at hfree

end Tables

variable {c c' : Caller} {first : ℕ} {left right : FileDescriptor}

theorem SameTables.refl (c : Caller) : SameTables c c :=
  ⟨rfl, fun _ => rfl, .refl _ _, .refl _ _, .refl _ _, .refl _ _, .refl _ _, .refl _ _⟩

/-- Only free descriptors were touched, and they are cleared again. -/
def Restored (c c' : Caller) : Prop :=
  ∀ descriptor, c'.process.descriptors descriptor = c.process.descriptors descriptor ∨
    (c.process.descriptors descriptor).used = false ∧
      c'.process.descriptors descriptor = FileDescriptor.zero

theorem Restored.table (h : Restored c c') : c'.table = c.table := by
  funext descriptor
  rw [Caller.table, Caller.table]
  rcases h descriptor with hsame | ⟨hfree, hzero⟩
  · rw [hsame]
  · rw [hzero, hfree]
    rfl

theorem Restored.descriptors (h : Restored c c') (hclear : c.Cleared) :
    c'.process.descriptors = c.process.descriptors := by
  funext descriptor
  rcases h descriptor with hsame | ⟨hfree, hzero⟩
  · exact hsame
  · rw [hzero, hclear descriptor hfree]

/-- Only free descriptors were touched, and `P` holds of what they are now. -/
def SetFree (P : FileDescriptor → Prop) (c c' : Caller) : Prop :=
  ∀ descriptor, c'.process.descriptors descriptor = c.process.descriptors descriptor ∨
    (c.process.descriptors descriptor).used = false ∧ P (c'.process.descriptors descriptor)

theorem setFree_pair {P : FileDescriptor → Prop} {second : ℕ}
    (hfirst : (c.process.descriptors first).used = false)
    (hsecond : (c.process.descriptors second).used = false) (hleft : P left) (hright : P right)
    (h : ∀ descriptor, c'.process.descriptors descriptor = if descriptor = second then right
      else if descriptor = first then left else c.process.descriptors descriptor) : SetFree P c c' := by
  intro descriptor
  rw [h]
  split
  · next heq => exact .inr ⟨heq ▸ hsecond, hright⟩
  split
  · next heq => exact .inr ⟨heq ▸ hfirst, hleft⟩
  · exact .inl rfl

/-- The first free descriptor numbers, as one after the other is taken. -/
def freeNumbers (process : Process) : ℕ → List ℕ
  | 0 => []
  | n + 1 =>
    match findDescriptor process with
    | none => []
    | some first =>
      let file := { process.descriptors first with used := true }
      first :: freeNumbers { process with descriptors := update process.descriptors first file } n

theorem freeNumbers_one {process : Process} {first : ℕ} (h : findDescriptor process = some first) :
    freeNumbers process 1 = [first] := by
  rw [freeNumbers, h]
  rfl

/-- **A pair of descriptors** is made of the first two free ones; when it cannot be made they are cleared,
and the object is dropped. -/
theorem pairDescriptors_outcome (left right : FileDescriptor) (address : ℕ)
    (drop : Objects → Objects) (hfirst : findDescriptor c.process = some first) :
    (∃ error c', pairDescriptors c first left right address drop = (.error error, c') ∧
      Restored c c' ∧ c'.objects = drop c.objects) ∨
    ∃ c', pairDescriptors c first left right address drop = (.ok 0, c') ∧
      SetFree (fun file => file = left ∨ file = right) c c' ∧ c'.objects = c.objects ∧
      ∀ descriptor, descriptor ∉ freeNumbers c.process 2 →
        c'.process.descriptors descriptor = c.process.descriptors descriptor := by
  have hfree := findDescriptor_free hfirst
  rw [pairDescriptors]
  simp only
  split
  · refine .inl ⟨_, _, rfl, setFree_pair (P := (· = .zero)) hfree hfree rfl rfl fun descriptor => ?_, rfl⟩
    simp only [Caller.setDescriptor, update_idem, update_apply]
    split <;> rfl
  · rename_i second hsecond
    have hother : (c.process.descriptors second).used = false := by
      have hused := findDescriptor_free hsecond
      simp only [Caller.setDescriptor, update_apply] at hused
      split at hused
      · cases hused
      · exact hused
    split
    · rename_i copied hcopy
      obtain ⟨hprocess, hobjects, -⟩ := Caller.copyTo_keeps hcopy
      have hset : ∀ descriptor, copied.process.descriptors descriptor = if descriptor = second then right
          else if descriptor = first then left else c.process.descriptors descriptor := by
        intro descriptor
        simp only [hprocess, Caller.setDescriptor, update_idem, update_apply]
      refine .inr ⟨_, rfl, setFree_pair hfree hother (.inl rfl) (.inr rfl) hset, hobjects, ?_⟩
      intro descriptor hnot
      have hnumbers : freeNumbers c.process 2 = [first, second] := by
        rw [freeNumbers, hfirst]
        exact congrArg (first :: ·) (freeNumbers_one hsecond)
      rw [hnumbers, List.mem_pair, not_or] at hnot
      rw [hset, if_neg hnot.2, if_neg hnot.1]
    · rename_i copied hcopy
      obtain ⟨hprocess, hobjects, -⟩ := Caller.copyTo_keeps hcopy
      refine .inl ⟨_, _, rfl, setFree_pair (P := (· = .zero)) hfree hother rfl rfl fun descriptor => ?_,
        congrArg drop hobjects⟩
      simp only [hprocess, Caller.setDescriptor, update_apply]
      split
      · rfl
      split
      · rfl
      · rfl

theorem pairDescriptors_error {address : ℕ}
    {drop : Objects → Objects} {error : Errno}
    (h : pairDescriptors c first left right address drop = (.error error, c'))
    (hfirst : findDescriptor c.process = some first) :
    Restored c c' ∧ c'.objects = drop c.objects := by
  obtain ⟨_, _, heq, hkept⟩ | ⟨_, heq, -⟩ := pairDescriptors_outcome left right address drop hfirst
  · cases heq.symm.trans h
    exact hkept
  · cases heq.symm.trans h

theorem newDescriptor_none (h : findDescriptor c.process = none) (file : FileDescriptor) :
    newDescriptor c file = (.error .nfile, c) := by
  rw [newDescriptor, h]

theorem newDescriptor_some {descriptor : ℕ}
    (h : findDescriptor c.process = some descriptor) (file : FileDescriptor) :
    newDescriptor c file = (.ok descriptor, c.setDescriptor descriptor file) := by
  rw [newDescriptor, h]

/-! ### The calls -/

section Calls

/-- A call that is refused before it takes anything. -/
theorem refused_leaks {error : Errno} {takes : Prop} (htakes : ¬ takes) :
    (∀ error' c', ((.error error, c) : Except Errno ℕ × Caller) = (.error error', c') → SameTables c c') ↔
      ¬ (takes ∧ findDescriptor c.process = none) := by
  refine iff_of_true (fun _ _ h => ?_) fun h => htakes h.1
  cases h
  exact .refl c

theorem leaksNothing_pipe2_iff (address : ℕ) : (CreateCall.pipe2 address).LeaksNothing c ↔
    ¬ ((CreateCall.pipe2 address).Takes c ∧ findDescriptor c.process = none) := by
  rw [CreateCall.LeaksNothing, CreateCall.perform, CreateCall.Takes, linuxPipe2]
  cases hobject : firstFree maxPipeObjects fun index => (c.objects.pipes index).used with
  | none => exact refused_leaks Bool.false_ne_true
  | some object =>
    have hfree := firstFree_free hobject
    simp only
    cases hfirst : findDescriptor c.process with
    | none =>
      refine ⟨fun h _ => ?_, fun h => absurd ⟨rfl, rfl⟩ h⟩
      exact not_sameUsed_update hfree rfl (h .nfile _ rfl).pipes
    | some first =>
      refine ⟨fun _ h => Option.some_ne_none _ h.2, ?_⟩
      intro _ error c' h
      obtain ⟨hrestored, hobjects⟩ := pairDescriptors_error h hfirst
      refine ⟨Restored.table hrestored, Restored.descriptors hrestored, ?_, ?_, ?_, ?_, ?_, ?_⟩
      all_goals rw [hobjects]
      · rw [update_idem]
        exact .update hfree.symm
      all_goals exact .refl _ _

theorem leaksNothing_socketpair_iff (domain type address : ℕ) :
    (CreateCall.socketpair domain type address).LeaksNothing c ↔
      ¬ ((CreateCall.socketpair domain type address).Takes c ∧ findDescriptor c.process = none) := by
  rw [CreateCall.LeaksNothing, CreateCall.perform, CreateCall.Takes, linuxSocketpair]
  split
  · rename_i hkind
    exact refused_leaks fun h => hkind.elim (· h.1) (· h.2.1)
  rename_i hkind
  obtain ⟨hdomain, htype⟩ : domain = 1 ∧ type % 16 = 1 := by
    rwa [not_or, not_not, not_not] at hkind
  cases hobject : firstFree maxSocketPairs fun index => (c.objects.socketPairs index).used with
  | none => exact refused_leaks fun h => Bool.false_ne_true h.2.2
  | some object =>
    have hfree := firstFree_free hobject
    simp only
    cases hfirst : findDescriptor c.process with
    | none =>
      refine ⟨fun h _ => ?_, fun h => absurd ⟨⟨hdomain, htype, rfl⟩, rfl⟩ h⟩
      exact not_sameUsed_update hfree rfl (h .nfile _ rfl).socketPairs
    | some first =>
      refine ⟨fun _ h => Option.some_ne_none _ h.2, ?_⟩
      intro _ error c' h
      obtain ⟨hrestored, hobjects⟩ := pairDescriptors_error h hfirst
      refine ⟨Restored.table hrestored, Restored.descriptors hrestored, ?_, ?_, ?_, ?_, ?_, ?_⟩
      all_goals rw [hobjects]
      · exact .refl _ _
      · rw [update_idem]
        exact .update hfree.symm
      all_goals exact .refl _ _

/-- The calls that need one descriptor: when there is one, they do not fail. -/
theorem newDescriptor_leaks {made : Caller} {file : FileDescriptor} {takes : Prop}
    (hprocess : made.process = c.process) (hmade : ¬ SameTables c made) (htakes : takes) :
    (∀ error c', newDescriptor made file = (.error error, c') → SameTables c c') ↔
      ¬ (takes ∧ findDescriptor c.process = none) := by
  rw [← hprocess]
  cases hfind : findDescriptor made.process with
  | none =>
    rw [newDescriptor_none hfind]
    exact ⟨fun h => absurd (h _ _ rfl) hmade, fun h => absurd ⟨htakes, rfl⟩ h⟩
  | some descriptor =>
    rw [newDescriptor_some hfind]
    refine ⟨fun _ h => Option.some_ne_none _ h.2, ?_⟩
    intro _ error c' h
    obtain ⟨hok, -⟩ := Prod.mk.inj h
    cases hok

theorem leaksNothing_epollCreate_iff : CreateCall.epollCreate.LeaksNothing c ↔
    ¬ (CreateCall.epollCreate.Takes c ∧ findDescriptor c.process = none) := by
  rw [CreateCall.LeaksNothing, CreateCall.perform, CreateCall.Takes, linuxEpollCreate]
  cases hobject : firstFree maxEpollObjects fun index => (c.objects.epolls index).used with
  | none => exact refused_leaks Bool.false_ne_true
  | some object =>
    refine newDescriptor_leaks ?_ ?_ rfl
    · rfl
    · have hfree : (c.objects.epolls object).used = false := firstFree_free hobject
      exact fun h => not_sameUsed_update hfree rfl h.epolls

theorem leaksNothing_eventfd2_iff (initialValue flags : ℕ) :
    (CreateCall.eventfd2 initialValue flags).LeaksNothing c ↔
      ¬ ((CreateCall.eventfd2 initialValue flags).Takes c ∧ findDescriptor c.process = none) := by
  rw [CreateCall.LeaksNothing, CreateCall.perform, CreateCall.Takes, linuxEventfd2]
  split
  · rename_i hbad
    exact refused_leaks fun h => hbad.elim (not_lt.2 h.1) (· h.2.1)
  rename_i hbad
  obtain ⟨hvalue, hflags⟩ : initialValue ≤ 0xFFFFFFFF ∧ flags &&& 0x80801 = flags := by
    rwa [not_or, not_lt, not_not] at hbad
  cases hobject : firstFree maxEventObjects fun index => (c.objects.events index).used with
  | none => exact refused_leaks fun h => Bool.false_ne_true h.2.2
  | some object =>
    refine newDescriptor_leaks ?_ ?_ ⟨hvalue, hflags, rfl⟩
    · rfl
    · have hfree : (c.objects.events object).used = false := firstFree_free hobject
      intro h
      refine not_sameUsed_update hfree ?_ h.events
      cases findDescriptor c.process with
      | none => rfl
      | some _ => rfl

theorem leaksNothing_timerfdCreate_iff (clock flags : ℕ) :
    (CreateCall.timerfdCreate clock flags).LeaksNothing c ↔
      ¬ ((CreateCall.timerfdCreate clock flags).Takes c ∧ findDescriptor c.process = none) := by
  rw [CreateCall.LeaksNothing, CreateCall.perform, CreateCall.Takes, linuxTimerfdCreate]
  split
  · rename_i hbad
    exact refused_leaks fun h => hbad.elim (fun hclock => h.1.elim hclock.1 hclock.2) (· h.2.1)
  rename_i hbad
  obtain ⟨hclock, hflags⟩ : (clock = 0 ∨ clock = 1) ∧ flags &&& 0x80800 = flags := by
    rwa [not_or, not_and_or, not_not, not_not, not_not] at hbad
  cases hobject : firstFree maxTimerObjects fun index => (c.objects.timers index).used with
  | none => exact refused_leaks fun h => Bool.false_ne_true h.2.2
  | some object =>
    refine newDescriptor_leaks ?_ ?_ ⟨hclock, hflags, rfl⟩
    · rfl
    · have hfree : (c.objects.timers object).used = false := firstFree_free hobject
      exact fun h => not_sameUsed_update hfree rfl h.timers

/-- `linux_memfd_create` gives its object back. -/
theorem leaksNothing_memfdCreate (nameAddress flags : ℕ) :
    (CreateCall.memfdCreate nameAddress flags).LeaksNothing c := by
  intro error c' h
  rw [CreateCall.perform, linuxMemfdCreate] at h
  split at h
  · obtain ⟨-, rfl⟩ := Prod.mk.inj h
    exact .refl c
  split at h
  · obtain ⟨-, rfl⟩ := Prod.mk.inj h
    exact .refl c
  · obtain ⟨-, rfl⟩ := Prod.mk.inj h
    exact .refl c
  rw [allocateMemfdObject] at h
  cases hobject : (List.range maxMemfdObjects).find? fun index => !(c.objects.memfds index).used with
  | none =>
    rw [hobject] at h
    obtain ⟨-, rfl⟩ := Prod.mk.inj h
    exact .refl c
  | some object =>
    have hfree : (c.objects.memfds object).used = false := firstFree_free hobject
    rw [hobject] at h
    simp only at h
    split at h
    · obtain ⟨-, rfl⟩ := Prod.mk.inj h
      refine ⟨rfl, fun _ => rfl, .refl _ _, .refl _ _, .refl _ _, .refl _ _, .refl _ _, ?_⟩
      have hbelow : ¬ maxMemfdObjects ≤ object :=
        not_le.2 (List.mem_range.1 (List.mem_of_find?_eq_some hobject))
      rw [memfdRelease, if_neg hbelow, update_self]
      show SameUsed MemfdObject.used c.objects.memfds
        (update (update c.objects.memfds object _) object MemfdObject.zero)
      rw [update_idem]
      exact .update hfree.symm
    · obtain ⟨hok, -⟩ := Prod.mk.inj h
      cases hok

end Calls

/-- **Failed calls leak nothing, exactly** when they do not take an object for which the process has no
free descriptor. -/
theorem failed_creation_leaks_nothing_iff (call : CreateCall) (c : Caller) :
    call.LeaksNothing c ↔ ¬ (call.Takes c ∧ findDescriptor c.process = none) := by
  cases call with
  | pipe2 address => exact leaksNothing_pipe2_iff address
  | socketpair domain type address => exact leaksNothing_socketpair_iff domain type address
  | epollCreate => exact leaksNothing_epollCreate_iff
  | eventfd2 initialValue flags => exact leaksNothing_eventfd2_iff initialValue flags
  | timerfdCreate clock flags => exact leaksNothing_timerfdCreate_iff clock flags
  | memfdCreate nameAddress flags =>
    exact ⟨fun _ h => h.1, fun _ => leaksNothing_memfdCreate nameAddress flags⟩

/-! ### A full table -/

/-- A process that has just started. -/
def startedCaller : Caller where
  process := { Process.zero with used := true, state := .running, pid := 1, tgid := 1 }
  vm := VmSpace.zero
  objects := Objects.zero
  memory := ⟨[], fun _ => none, 0, fun _ => none, fun _ _ => 0⟩
  volume := formatted 5000 fun _ _ => 0
  ticks := 0

/-- It has made an event object, and `n` descriptors for it. -/
def filledCaller (n : ℕ) : Caller where
  process := { startedCaller.process with descriptors := fun descriptor =>
    if 3 ≤ descriptor ∧ descriptor < 3 + n then .ofObject .eventfd 0 0 else FileDescriptor.zero }
  vm := startedCaller.vm
  objects := { Objects.zero with
    events := update Objects.zero.events 0 ⟨true, false, 0⟩ }
  memory := startedCaller.memory
  volume := startedCaller.volume
  ticks := 0

theorem filledCaller_first : (linuxEventfd2 startedCaller 0 0).2 = filledCaller 1 := by
  have hdescriptors : update startedCaller.process.descriptors 3 (.ofObject .eventfd 0 0) =
      (filledCaller 1).process.descriptors := by
    funext descriptor
    show _ = if 3 ≤ descriptor ∧ descriptor < 3 + 1 then _ else _
    by_cases hthree : descriptor = 3
    · rw [hthree, update_self, if_pos (by omega)]
    · rw [update_of_ne hthree, if_neg (by omega)]
      rfl
  show ({ startedCaller with
    process := { startedCaller.process with
      descriptors := update startedCaller.process.descriptors 3 (.ofObject .eventfd 0 0) }
    objects := (filledCaller 1).objects } : Caller) = _
  rw [hdescriptors]
  rfl

theorem findDescriptor_filled {n : ℕ} (h : n < 253) :
    findDescriptor (filledCaller n).process = some (3 + n) := by
  rw [findDescriptor, List.find?_range'_eq_some]
  refine ⟨?_, List.mem_range'_1.2 (by rw [maxFileDescriptors]; omega), ?_⟩
  · show (!(if 3 ≤ 3 + n ∧ 3 + n < 3 + n then _ else FileDescriptor.zero : FileDescriptor).used) = true
    rw [if_neg (by omega)]
    rfl
  · intro descriptor hlow hhigh
    show (!!(if 3 ≤ descriptor ∧ descriptor < 3 + n then _ else _ : FileDescriptor).used) = true
    rw [if_pos ⟨hlow, hhigh⟩]
    rfl

theorem filledCaller_next {n : ℕ} (hone : 1 ≤ n) (h : n < 253) :
    (linuxDuplicateDescriptor (filledCaller n) 3 none).2 = filledCaller (n + 1) := by
  have hold : (filledCaller n).process.descriptors 3 = .ofObject .eventfd 0 0 := if_pos (by omega)
  have hnew : (filledCaller n).process.descriptors (3 + n) = FileDescriptor.zero := if_neg (by omega)
  have hdescriptors : update (filledCaller n).process.descriptors (3 + n)
      (.ofObject .eventfd 0 0) = (filledCaller (n + 1)).process.descriptors := by
    funext descriptor
    show _ = if 3 ≤ descriptor ∧ descriptor < 3 + (n + 1) then _ else _
    rcases eq_or_ne descriptor (3 + n) with rfl | hne
    · rw [update_self, if_pos (by omega)]
    · rw [update_of_ne hne]
      show (if 3 ≤ descriptor ∧ descriptor < 3 + n then _ else _) = _
      split
      · rw [if_pos (by omega)]
      · rw [if_neg (by omega)]
  rw [linuxDuplicateDescriptor, if_neg (by rw [Caller.has, hold]; decide), Option.none_or,
    findDescriptor_filled h]
  simp only
  have hunused : ¬ FileDescriptor.zero.used = true := by decide
  rw [if_neg (by rw [maxFileDescriptors]; omega), if_neg (by omega), hnew, if_neg hunused, hold,
    Caller.setDescriptor, hdescriptors]
  have hlast : (filledCaller (n + 1)).process.descriptors (3 + n) = .ofObject .eventfd 0 0 :=
    if_pos (by omega)
  rw [Caller.retainDescriptor, hlast]
  rfl

/-- **A full table**: after an `eventfd2` and 252 calls of `dup`, `epoll_create` fails and keeps an
object. -/
theorem full_table_leaks_epoll :
    let c := (fun c => (linuxDuplicateDescriptor c 3 none).2)^[252] (linuxEventfd2 startedCaller 0 0).2
    (linuxEpollCreate c).1 = .error .nfile ∧ (c.objects.epolls 0).used = false ∧
      ((linuxEpollCreate c).2.objects.epolls 0).used = true ∧ ¬ CreateCall.epollCreate.LeaksNothing c := by
  intro c
  have hfill : ∀ n ≤ 252, (fun c => (linuxDuplicateDescriptor c 3 none).2)^[n] (filledCaller 1) =
      filledCaller (n + 1) := by
    intro n hn
    induction n with
    | zero => rfl
    | succ n ih =>
      rw [iterate_succ_apply', ih (by omega)]
      exact filledCaller_next (by omega) (by omega)
  have hc : c = filledCaller 253 := by
    show (fun c => (linuxDuplicateDescriptor c 3 none).2)^[252] (linuxEventfd2 startedCaller 0 0).2 = _
    rw [filledCaller_first, hfill 252 (by omega)]
  rw [hc, leaksNothing_epollCreate_iff, not_not]
  refine ⟨by decide +kernel, rfl, by decide +kernel, ?_, by decide +kernel⟩
  show (firstFree _ _).isSome = true
  decide +kernel

end NovaOS.Process
