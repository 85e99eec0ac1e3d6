import NovaOS.Lib.Runs
import NovaOS.Process.Mutex

/-!
# The condition variables of `user/pthread_compat.c`

`pthread_cond_wait`, `pthread_cond_signal` and `pthread_cond_broadcast` on one condition, as the atomic
steps of their code on its 32-bit sequence word, over the mutexes of `Mutex.lean` and the futexes of
the kernel.  A wait loads the word, unlocks its mutex, and calls `futex_wait` with the value it has
loaded; a signal and a broadcast add one to the word and call `futex_wake` for one thread or for all.

Any number of mutexes may be in use, at addresses other than the condition's, and a thread outside this
code may also lock and unlock them.  `timedwait` is `wait`: there are no timeouts.

The state counts the additions that were made.  A wait remembers the count at its load, and a signal or
broadcast the count its own addition has made: a wait loaded before an addition when its count is less.

* `CondState.step` — one atomic step of one thread;
* `condSleep_eq_linuxFutex`, `condWake_eq_linuxFutex` — its two system calls are those of the kernel;
* `CondOk` — the invariant;
* `condition_correct` — in every run, no broadcast and no signal is missed.
-/

namespace NovaOS.Process

open NovaOS.Vm Function Nat

/-! ### Threads -/

/-- The address of a mutex, not that of the condition. -/
abbrev MutexAddress (address : ℕ) := { m : ℕ // m ≠ address }

/-- Where a thread is in the code of the condition: the atomic step it takes next. -/
inductive CondPoint (address : ℕ)
  | outside
  /-- the load of `pthread_cond_wait` -/
  | load (mutex : MutexAddress address)
  /-- in the code of a mutex; with a value it is the unlock of a wait that has loaded that value -/
  | mutexCode (mutex : MutexAddress address) (expected : Option ℕ)
  /-- the call of `futex_wait` -/
  | futexWait (mutex : MutexAddress address) (expected : ℕ)
  /-- the addition of `pthread_cond_signal`, or of `pthread_cond_broadcast` for `all` -/
  | increment (all : Bool)
  /-- the call of `futex_wake`, behind the addition that made the count `number` -/
  | futexWake (all : Bool) (number : ℕ)
deriving DecidableEq

/-- The function a thread calls next. -/
inductive CondCall (address : ℕ)
  | mutex (mutex : MutexAddress address) (call : MutexCall)
  | wait (mutex : MutexAddress address)
  | signal
  | broadcast

/-- A mutex, apart from the process table. -/
structure MutexCell where
  word : ℕ
  point : ℕ → MutexPoint
  holds : ℕ → Bool

/-- The state of one condition, at an address of user memory. -/
structure CondState (address : ℕ) where
  word : ℕ
  processes : ℕ → Process
  mutexes : ℕ → MutexCell
  point : ℕ → CondPoint address
  /-- the additions made so far -/
  count : ℕ
  /-- the count at the last load of a thread -/
  loaded : ℕ → ℕ
  /-- the additions of the broadcasts that have performed their `futex_wake` -/
  completed : List ℕ

/-- The count a signal or a broadcast gives to `futex_wake`. -/
def wakeCount (all : Bool) : ℕ := if all then 0x7FFFFFFF else 1

namespace CondState

variable {address : ℕ} (s : CondState address)

def goTo (i : ℕ) (point : CondPoint address) : CondState address :=
  { s with point := update s.point i point }

/-- A mutex with the process table. -/
def mutexAt (mutex : ℕ) : MutexState :=
  ⟨(s.mutexes mutex).word, s.processes, (s.mutexes mutex).point, (s.mutexes mutex).holds⟩

def setMutex (mutex : ℕ) (state : MutexState) : CondState address :=
  { s with
    processes := state.processes
    mutexes := update s.mutexes mutex ⟨state.word, state.point, state.holds⟩ }

/-- A thread enters the code of a mutex. -/
def enterMutex (i : ℕ) (mutex : MutexAddress address) (point : MutexPoint) (expected : Option ℕ) :
    CondState address :=
  (s.setMutex mutex ((s.mutexAt mutex).goTo i point)).goTo i (.mutexCode mutex expected)

/-- A step in the code of a mutex, and where the thread goes on behind it. -/
def mutexStep (slots : ℕ) (space : Option ℕ) (i : ℕ) (mutex : MutexAddress address) (call : MutexCall)
    (expected : Option ℕ) : CondState address :=
  let state := MutexState.step slots space mutex (s.mutexAt mutex) (i, call)
  (s.setMutex mutex state).goTo i
    (if state.point i = .outside then
      match expected with
      | some expected => .futexWait mutex expected
      | none => .outside
    else .mutexCode mutex expected)

/-- `FUTEX_WAIT` on the sequence word. -/
def condSleep (i expected : ℕ) : CondState address :=
  if s.word ≠ expected then s
  else { s with processes := update s.processes i (futexSleep address 0 (s.processes i)) }

/-- `FUTEX_WAKE` on the sequence word. -/
def condWake (slots : ℕ) (space : Option ℕ) (count : ℕ) : CondState address :=
  { s with
    processes := (futexWakeLoop space address (asInt count) (List.range slots) 0 s.processes).2 }

/-- A thread of the address space that is not asleep. -/
def Awake (slots : ℕ) (space : Option ℕ) (i : ℕ) : Prop :=
  i < slots ∧ (s.processes i).used = true ∧ (s.processes i).addressSpace = space ∧
    (s.processes i).state = .running

instance (slots : ℕ) (space : Option ℕ) (i : ℕ) : Decidable (s.Awake slots space i) :=
  inferInstanceAs (Decidable (_ ∧ _))

/-- The next atomic step of thread `i`; `call` is what it calls when it is outside. -/
def step (slots : ℕ) (space : Option ℕ) (s : CondState address) (e : ℕ × CondCall address) :
    CondState address :=
  let i := e.1
  if s.Awake slots space i then
    match s.point i with
    | .outside =>
      match e.2 with
      | .mutex mutex call => s.mutexStep slots space i mutex call none
      | .wait mutex => s.goTo i (.load mutex)
      | .signal => s.goTo i (.increment false)
      | .broadcast => s.goTo i (.increment true)
    | .load mutex =>
      { s.enterMutex i mutex .unlock (some s.word) with
        loaded := update s.loaded i s.count }
    -- the call is not looked at: the thread is not outside
    | .mutexCode mutex expected => s.mutexStep slots space i mutex .lock expected
    | .futexWait mutex expected =>
      (s.enterMutex i mutex .lock none).condSleep i expected
    | .increment all =>
      { s.goTo i (.futexWake all (s.count + 1)) with
        word := (s.word + 1) % 2 ^ 32
        count := s.count + 1 }
    | .futexWake all number =>
      { (s.goTo i .outside).condWake slots space (wakeCount all) with
        completed := if all then number :: s.completed else s.completed }
  else s

/-- The thread is blocked in `futex_wait` on the condition. -/
def Asleep (slots : ℕ) (space : Option ℕ) (i : ℕ) : Prop :=
  i < slots ∧ isWaiter space address (s.processes i) = true

/-- A condition after `pthread_cond_init`: no thread is in its code and none sleeps on it. -/
structure Fresh (slots : ℕ) (space : Option ℕ) : Prop where
  word : s.word = 0
  point : ∀ i, s.point i = .outside
  count : s.count = 0
  loaded : ∀ i, s.loaded i = 0
  completed : s.completed = []
  awake : ∀ i, ¬ s.Asleep slots space i

/-- The thread is between the load of a wait and its `futex_wait`, with the value it has loaded. -/
def Waits (i expected : ℕ) : Prop :=
  ∃ mutex, s.point i = .mutexCode mutex (some expected) ∨ s.point i = .futexWait mutex expected

/-- Fewer than `2 ^ 32` additions were made while a thread is between its load and its
`futex_wait`. -/
def FewSignals : Prop := ∀ i expected, s.Waits i expected → s.count - s.loaded i < 2 ^ 32

end CondState

/-! ### The system calls -/

section SystemCalls

variable {k : Kernel} {i n address : ℕ} {s : CondState address} {space : AddressSpace}

/-- `futex_wait(sequence, expected)` is `linux_futex` on the word in user memory. -/
theorem condSleep_eq_linuxFutex (hprocesses : k.processes = s.processes) (hword : s.word < 2 ^ 32)
    (hspace : k.spaceOf i = some (n, space))
    (hread : vmCopyFromUser space.vm address 4 k.memory = some (leBytes 4 s.word))
    {expected : ℕ} (hexpected : expected < 2 ^ 32) :
    (linuxFutex k i address 128 expected 0).2.processes = (s.condSleep i expected).processes := by
  rw [linuxFutex_wait hword hexpected hspace hread, hprocesses, CondState.condSleep,
    apply_ite CondState.processes]

/-- `futex_wake(sequence, count)` is `linux_futex` on the process table. -/
theorem condWake_eq_linuxFutex (hprocesses : k.processes = s.processes)
    (hspace : k.spaceOf i = some (n, space)) (count : ℕ) :
    (linuxFutex k i address 129 count 0).2.processes =
      (s.condWake maxProcesses (some n) count).processes := by
  rw [linuxFutex_wake hspace, hprocesses]
  rfl

end SystemCalls

/-! ### The invariant -/

open CondState

/-- The invariant of the condition.  Nobody who is asleep has loaded before a completed broadcast. -/
structure CondOk {address : ℕ} (slots : ℕ) (space : Option ℕ) (s : CondState address) : Prop where
  word : s.word = s.count % 2 ^ 32
  loaded : ∀ i, s.loaded i ≤ s.count
  expected : ∀ i expected, s.Waits i expected → expected = s.loaded i % 2 ^ 32
  number : ∀ i all number, s.point i = .futexWake all number → number ≤ s.count
  completed : ∀ number ∈ s.completed, number ≤ s.count
  sleeping : ∀ i, s.Asleep slots space i → ∀ number ∈ s.completed, number ≤ s.loaded i

section Steps

variable {slots : ℕ} {space : Option ℕ} {address : ℕ} {s : CondState address} {i : ℕ}

theorem CondState.Fresh.ok (h : s.Fresh slots space) : CondOk slots space s where
  word := by
    rw [h.word, h.count]
    rfl
  loaded := fun i => by rw [h.loaded i]; exact zero_le _
  expected := by
    rintro i expected ⟨mutex, hat | hat⟩
    · rw [h.point i] at hat
      cases hat
    · rw [h.point i] at hat
      cases hat
  number := fun i all number hat => by
    rw [h.point i] at hat
    cases hat
  completed := fun number hmem => by
    rw [h.completed] at hmem
    exact absurd hmem List.not_mem_nil
  sleeping := fun i hi => absurd hi (h.awake i)

theorem CondState.Awake.not_asleep (h : s.Awake slots space i) : ¬ s.Asleep slots space i := by
  intro hasleep
  obtain ⟨_, hwaiter⟩ := hasleep
  rw [isWaiter, h.2.2.2] at hwaiter
  simp at hwaiter

/-- A step of thread `i`, which leaves the other threads where they are. -/
theorem CondOk.move (h : CondOk slots space s) {t : CondState address} {p : CondPoint address}
    (hword : t.word = t.count % 2 ^ 32) (hcount : s.count ≤ t.count)
    (hpoint : t.point = update s.point i p) (hothers : ∀ j, j ≠ i → t.loaded j = s.loaded j)
    (hloaded : t.loaded i ≤ t.count)
    (hexpected : ∀ mutex expected, p = .mutexCode mutex (some expected) ∨ p = .futexWait mutex expected →
      expected = t.loaded i % 2 ^ 32)
    (hnumber : ∀ all number, p = .futexWake all number → number ≤ t.count)
    (hcompleted : ∀ number ∈ t.completed, number ≤ t.count)
    (hsleeping : ∀ j, t.Asleep slots space j → ∀ number ∈ t.completed, number ≤ t.loaded j) :
    CondOk slots space t where
  word := hword
  loaded := by
    intro j
    by_cases hj : j = i
    · rw [hj]
      exact hloaded
    · rw [hothers j hj]
      exact (h.loaded j).trans hcount
  expected := by
    rintro j expected ⟨mutex, hat⟩
    rw [hpoint] at hat
    by_cases hj : j = i
    · rw [hj, update_self] at hat
      rw [hj]
      exact hexpected mutex expected hat
    · rw [update_of_ne hj] at hat
      rw [hothers j hj]
      exact h.expected j expected ⟨mutex, hat⟩
  number := by
    intro j all number hat
    rw [hpoint] at hat
    by_cases hj : j = i
    · rw [hj, update_self] at hat
      exact hnumber all number hat
    · rw [update_of_ne hj] at hat
      exact (h.number j all number hat).trans hcount
  completed := hcompleted
  sleeping := hsleeping

/-- A step that puts nobody to sleep on the condition and completes no broadcast. -/
theorem CondOk.quiet (h : CondOk slots space s) {t : CondState address} {p : CondPoint address}
    (hword : t.word = s.word) (hcount : t.count = s.count)
    (hpoint : t.point = update s.point i p) (hloaded : t.loaded = s.loaded)
    (hexpected : ∀ mutex expected, p = .mutexCode mutex (some expected) ∨ p = .futexWait mutex expected →
      expected = s.loaded i % 2 ^ 32)
    (hnumber : ∀ all number, p ≠ .futexWake all number)
    (hcompleted : t.completed = s.completed)
    (hasleep : ∀ j, t.Asleep slots space j → s.Asleep slots space j) :
    CondOk slots space t := by
  apply h.move (i := i) (p := p)
  · rw [hword, hcount]
    exact h.word
  · exact hcount.ge
  · exact hpoint
  · intro j _
    rw [hloaded]
  · rw [hloaded, hcount]
    exact h.loaded i
  · rw [hloaded]
    exact hexpected
  · intro all number hp
    exact absurd hp (hnumber all number)
  · rw [hcompleted, hcount]
    exact h.completed
  · intro j hj
    rw [hcompleted, hloaded]
    exact h.sleeping j (hasleep j hj)

/-- A thread goes on outside, or to the addition of a signal or a broadcast. -/
theorem CondOk.goTo (h : CondOk slots space s) {p : CondPoint address}
    (hexpected : ∀ mutex expected, p ≠ .mutexCode mutex (some expected) ∧ p ≠ .futexWait mutex expected)
    (hnumber : ∀ all number, p ≠ .futexWake all number) :
    CondOk slots space (s.goTo i p) := by
  refine h.quiet rfl rfl rfl rfl ?_ hnumber rfl fun j hj => hj
  rintro mutex expected (hp | hp)
  · exact absurd hp (hexpected mutex expected).1
  · exact absurd hp (hexpected mutex expected).2

/-- A step in the code of a mutex elsewhere puts nobody to sleep on the condition. -/
theorem MutexState.isWaiter_of_step {m : ℕ} (hm : m ≠ address) {state : MutexState}
    {e : ℕ × MutexCall} {j : ℕ}
    (h : isWaiter space address ((MutexState.step slots space m state e).processes j) = true) :
    isWaiter space address (state.processes j) = true := by
  have hsleep : ∀ i, isWaiter space address ((state.sleep i m).processes j) = true →
      isWaiter space address (state.processes j) = true := by
    intro i hi
    rw [MutexState.sleep] at hi
    split at hi
    · exact hi
    · by_cases hj : j = i
      · subst hj
        simp [isWaiter, futexSleep, hm] at hi
      · simpa only [update_of_ne hj] using hi
  rw [MutexState.step] at h
  split at h
  · cases hat : state.point e.1 with
    | outside =>
      rw [hat] at h
      simp only at h
      split at h
      · exact h
      · exact h
      · split at h
        · exact h
        · exact h
    | trylock | lock | exchange =>
      rw [hat] at h
      simp only at h
      split at h
      · exact h
      · exact h
    | futexWait =>
      rw [hat] at h
      exact hsleep e.1 h
    | unlock =>
      rw [hat] at h
      exact h
    | futexWake =>
      rw [hat] at h
      exact isWaiter_of_wake _ _ _ h
  · exact h

section

variable (h : CondOk slots space s)

include h

theorem CondOk.mutexStep (mutex : MutexAddress address)
    (call : MutexCall) {expected : Option ℕ}
    (hexpected : ∀ e, expected = some e → e = s.loaded i % 2 ^ 32) :
    CondOk slots space (s.mutexStep slots space i mutex call expected) := by
  refine h.quiet rfl rfl rfl rfl ?_ ?_ rfl ?_
  · intro m e hp
    split at hp
    · cases expected with
      | none => simp at hp
      | some e' =>
        simp only [reduceCtorEq, CondPoint.futexWait.injEq, false_or] at hp
        exact hexpected e (congrArg some hp.2)
    · simp only [CondPoint.mutexCode.injEq, reduceCtorEq, or_false] at hp
      exact hexpected e hp.2
  · intro all number hp
    split at hp
    · cases expected with
      | none => cases hp
      | some e => cases hp
    · cases hp
  · intro j hj
    exact ⟨hj.1, MutexState.isWaiter_of_step mutex.2 hj.2⟩

theorem CondOk.load (hi : s.Awake slots space i)
    (mutex : MutexAddress address) :
    CondOk slots space { s.enterMutex i mutex .unlock (some s.word) with
      loaded := update s.loaded i s.count } := by
  refine h.move (i := i) h.word (le_refl _) rfl ?_ ?_ ?_ ?_ h.completed ?_
  · intro j hj
    exact update_of_ne hj _ _
  · exact (update_self i s.count s.loaded).le
  · rintro m expected (hp | hp)
    · cases hp
      show s.word = update s.loaded i s.count i % 2 ^ 32
      rw [update_self]
      exact h.word
    · cases hp
  · intro all number hp
    cases hp
  · intro j hj
    have hne : j ≠ i := fun heq => hi.not_asleep (heq ▸ hj)
    show ∀ number ∈ s.completed, number ≤ update s.loaded i s.count j
    rw [update_of_ne hne]
    exact h.sleeping j hj

/-- `FUTEX_WAIT`: with the word still as it was, no addition was made since the load. -/
theorem CondOk.sleep (hfew : s.FewSignals)
    {mutex : MutexAddress address} {expected : ℕ} (hat : s.point i = .futexWait mutex expected) :
    CondOk slots space ((s.enterMutex i mutex .lock none).condSleep i expected) := by
  have henter : CondOk slots space (s.enterMutex i mutex .lock none) := by
    refine h.quiet rfl rfl rfl rfl ?_ ?_ rfl fun j hj => hj
    · rintro m e (hp | hp)
      · cases hp
      · cases hp
    · intro all number hp
      cases hp
  rw [CondState.condSleep]
  split
  · exact henter
  · rename_i hword
    have hwaits : s.Waits i expected := ⟨mutex, .inr hat⟩
    have hexpected := h.expected i expected hwaits
    have hsame : s.word = expected := not_not.1 hword
    have hcount : s.loaded i = s.count := by
      have hmod := h.word
      have hle := h.loaded i
      have hlt := hfew i expected hwaits
      omega
    refine ⟨henter.word, henter.loaded, henter.expected, henter.number, henter.completed, ?_⟩
    intro j hj
    by_cases hji : j = i
    · subst hji
      show ∀ number ∈ s.completed, number ≤ s.loaded j
      rw [hcount]
      exact h.completed
    · refine h.sleeping j ⟨hj.1, ?_⟩
      have hwaiter := hj.2
      simp only [update_of_ne hji] at hwaiter
      exact hwaiter

theorem CondOk.increment (all : Bool) :
    CondOk slots space { s.goTo i (.futexWake all (s.count + 1)) with
      word := (s.word + 1) % 2 ^ 32
      count := s.count + 1 } := by
  refine h.move (i := i) ?_ (le_succ _) rfl (fun _ _ => rfl) ((h.loaded i).trans (le_succ _))
    ?_ ?_ ?_ h.sleeping
  · rw [h.word, mod_add_mod]
  · rintro mutex expected (hp | hp)
    · cases hp
    · cases hp
  · intro all' number hp
    cases hp
    exact le_refl _
  · intro number hmem
    exact (h.completed number hmem).trans (le_succ _)

/-- `FUTEX_WAKE`: a broadcast leaves nobody asleep. -/
theorem CondOk.wake (hslots : slots ≤ 0x7FFFFFFF) {all : Bool}
    {number : ℕ} (hat : s.point i = .futexWake all number) :
    CondOk slots space { (s.goTo i .outside).condWake slots space (wakeCount all) with
      completed := if all then number :: s.completed else s.completed } := by
  have hbefore : ∀ j, ((s.goTo i .outside).condWake slots space (wakeCount all)).Asleep slots space j →
      s.Asleep slots space j := fun j hj => ⟨hj.1, isWaiter_of_wake _ _ _ hj.2⟩
  refine h.move (i := i) h.word (le_refl _) rfl (fun _ _ => rfl) (h.loaded i) ?_ ?_ ?_ ?_
  · rintro mutex expected (hp | hp)
    · cases hp
    · cases hp
  · intro all' number' hp
    cases hp
  · cases all with
    | false => exact h.completed
    | true =>
      intro n hmem
      obtain rfl | hmem := List.mem_cons.1 hmem
      · exact h.number i true n hat
      · exact h.completed n hmem
  · intro j hj
    cases all with
    | false => exact h.sleeping j (hbefore j hj)
    | true =>
      have hall : isWaiter space address ((futexWakeLoop space address (asInt (wakeCount true))
          (List.range slots) 0 s.processes).2 j) = false := by
        apply futexWakeLoop_all
        · rw [List.length_range]
          show (0 : ℤ) + slots ≤ 0x7FFFFFFF
          omega
        · exact List.mem_range.2 hj.1
      exact absurd (hall.symm.trans hj.2) Bool.false_ne_true

/-- **Every atomic step keeps the invariant.** -/
theorem CondOk.step (hslots : slots ≤ 0x7FFFFFFF) (hfew : s.FewSignals)
    (e : ℕ × CondCall address) : CondOk slots space (CondState.step slots space s e) := by
  obtain ⟨i, call⟩ := e
  rw [CondState.step]
  split
  · rename_i hi
    cases hat : s.point i with
    | outside =>
      cases call with
      | mutex mutex call => exact h.mutexStep mutex call fun e he => by cases he
      | wait | signal | broadcast => exact h.goTo (fun _ _ => ⟨by simp, by simp⟩) (by simp)
    | load mutex => exact h.load hi mutex
    | mutexCode mutex expected =>
      refine h.mutexStep mutex .lock fun e he => ?_
      subst he
      exact h.expected i e ⟨mutex, .inl hat⟩
    | futexWait mutex expected => exact h.sleep hfew hat
    | increment all => exact h.increment all
    | futexWake all number => exact h.wake hslots hat
  · exact h

end

/-- When a signal performs its wake, a sleeper becomes runnable. -/
theorem CondState.signal_wakes (hi : s.Awake slots space i) {number : ℕ}
    (hat : s.point i = .futexWake false number) (call : CondCall address)
    (hsleeper : ∃ j, s.Asleep slots space j) :
    ∃ j, s.Asleep slots space j ∧
      ((CondState.step slots space s (i, call)).processes j).state = .running := by
  have hstep : (CondState.step slots space s (i, call)).processes =
      (futexWakeLoop space address 1 (List.range slots) 0 s.processes).2 := by
    rw [CondState.step]
    simp only [if_pos hi, hat]
    rfl
  rw [hstep]
  obtain ⟨hnone, -⟩ | ⟨j, hj, hwaiter, hwoken⟩ :=
    futexWakeLoop_one space address s.processes (List.range slots)
  · obtain ⟨j, hj, hwaits⟩ := hsleeper
    rw [hnone j (List.mem_range.2 hj)] at hwaits
    cases hwaits
  · refine ⟨j, ⟨List.mem_range.1 hj, hwaiter⟩, ?_⟩
    rw [hwoken, update_self]

end Steps

/-- **Condition variables miss no broadcast and no signal.**  Any number of threads take any atomic
steps of `pthread_cond_wait`, `pthread_cond_signal` and `pthread_cond_broadcast` on one condition and of
the functions of any mutexes, in any order, with fewer than `2 ^ 32` additions while a wait is between
its load and its `futex_wait`.  In every state reached, no thread whose wait has loaded before the
addition of a broadcast that has performed its `futex_wake` is blocked; and when a signal performs its
`futex_wake` while threads are blocked, one of them becomes runnable. -/
theorem condition_correct {address : ℕ} (slots : ℕ) (hslots : slots ≤ 0x7FFFFFFF) (space : Option ℕ)
    {s : CondState address} (hs : s.Fresh slots space) (run : List (ℕ × CondCall address))
    (hfew : Along (CondState.step slots space) (fun s _ => s.FewSignals) s run) :
    let t := run.foldl (CondState.step slots space) s
    (∀ number ∈ t.completed, ∀ i, t.loaded i < number → ¬ t.Asleep slots space i) ∧
    ∀ i number call, t.Awake slots space i → t.point i = .futexWake false number →
      (∃ j, t.Asleep slots space j) →
      ∃ j, t.Asleep slots space j ∧
        ((CondState.step slots space t (i, call)).processes j).state = .running := by
  have hok : CondOk slots space (run.foldl (CondState.step slots space) s) :=
    run_invariant (fun _ e h hfew => h.step hslots hfew e) hs.ok hfew
  refine ⟨?_, ?_⟩
  · intro number hmem i hlt hasleep
    exact absurd (hok.sleeping i hasleep number hmem) (not_le.2 hlt)
  · intro i number call hi hat hsleeper
    exact CondState.signal_wakes hi hat call hsleeper

/-- A fresh condition and two running threads of one address space. -/
def twoWaiters : CondState 64 where
  word := 0
  processes := fun _ => { Process.zero with used := true, state := .running, addressSpace := some 0 }
  mutexes := fun _ => ⟨0, fun _ => .outside, fun _ => false⟩
  point := fun _ => .outside
  count := 0
  loaded := fun _ => 0
  completed := []

theorem twoWaiters_fresh : twoWaiters.Fresh 2 (some 0) where
  word := rfl
  point := fun _ => rfl
  count := rfl
  loaded := fun _ => rfl
  completed := rfl
  awake := fun i hi => by simp [CondState.Asleep, isWaiter, twoWaiters] at hi

/-- Thread 1 waits and goes to sleep; then thread 0 calls `pthread_cond_broadcast`. -/
def broadcastRun : List (ℕ × CondCall 64) :=
  [(1, .wait ⟨128, by decide⟩), (1, .signal), (1, .signal), (1, .signal),
    (0, .broadcast), (0, .signal), (0, .signal)]

theorem CondState.FewSignals.of_count {address : ℕ} {s : CondState address} (h : s.count < 2 ^ 32) :
    s.FewSignals := fun _ _ _ => (sub_le _ _).trans_lt h

theorem condition_correct_two :
    -- the wait is asleep on the condition until the broadcast has performed its wake
    ((broadcastRun.take 6).foldl (CondState.step 2 (some 0)) twoWaiters).Asleep 2 (some 0) 1 ∧
      ¬ (broadcastRun.foldl (CondState.step 2 (some 0)) twoWaiters).Asleep 2 (some 0) 1 := by
  have hfew : Along (CondState.step 2 (some 0)) (fun s _ => s.FewSignals) twoWaiters broadcastRun := by
    refine ⟨?_, ?_, ?_, ?_, ?_, ?_, ?_, trivial⟩
    all_goals exact CondState.FewSignals.of_count (by decide)
  refine ⟨⟨by decide, by decide⟩, ?_⟩
  exact (condition_correct 2 (by decide) (some 0) twoWaiters_fresh broadcastRun hfew).1 1 (by decide) 1
    (by decide)

end NovaOS.Process
