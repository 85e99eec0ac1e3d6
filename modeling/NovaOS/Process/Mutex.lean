import NovaOS.Process.Futex

/-!
# The mutex of `user/pthread_compat.c`

`pthread_mutex_lock`, `pthread_mutex_trylock` and `pthread_mutex_unlock` as the atomic steps of their
code on one 32-bit word, over the process table and the futexes of the kernel.  The word is 0 when the
mutex is free, 1 when it is held, 2 when it is held and somebody may be asleep.

A thread is a process slot of one address space.  Any slot that is awake may take its next step at
any time; a thread outside the mutex's code may call any of the three functions, but `unlock` only
when it holds the mutex.  A holder may also call `lock` or `trylock` again.

* `MutexState.step` — one atomic step of one thread;
* `sleep_eq_linuxFutex`, `wake_eq_linuxFutex` — its two system calls are those of the kernel;
* `MutexOk` — the invariant: one holder at most, none while the word is 0, sleepers are on their way
  to the exchange, and somebody is left to wake them;
* `mutex_correct` — in every run, mutual exclusion and no lost wakeup.
-/

namespace NovaOS.Process

open NovaOS.Vm Function

/-! ### Threads -/

/-- Where a thread is in the mutex's code: the atomic step it takes next. -/
inductive MutexPoint
  /-- not in the mutex's code -/
  | outside
  /-- the compare-and-exchange of `pthread_mutex_trylock` -/
  | trylock
  /-- the compare-and-exchange of `pthread_mutex_lock` -/
  | lock
  /-- the exchange in the loop of `pthread_mutex_lock` -/
  | exchange
  /-- the call of `futex_wait` -/
  | futexWait
  /-- the exchange of `pthread_mutex_unlock` -/
  | unlock
  /-- the call of `futex_wake` -/
  | futexWake
deriving DecidableEq

/-- The function a thread calls next. -/
inductive MutexCall
  | lock
  | trylock
  | unlock
deriving DecidableEq

structure MutexState where
  word : ℕ
  processes : ℕ → Process
  point : ℕ → MutexPoint
  /-- the thread is between a successful lock and the exchange of its unlock -/
  holds : ℕ → Bool

namespace MutexState

variable (s : MutexState)

def goTo (i : ℕ) (point : MutexPoint) : MutexState := { s with point := update s.point i point }

/-- The lock has succeeded. -/
def acquire (i : ℕ) (word : ℕ) : MutexState :=
  { s.goTo i .outside with word := word, holds := update s.holds i true }

/-- `FUTEX_WAIT` on the word with the expected value 2.  The next step of a thread that sleeps comes
when it has been woken. -/
def sleep (i address : ℕ) : MutexState :=
  if s.word ≠ 2 then s.goTo i .exchange
  else { s.goTo i .exchange with
    processes := update s.processes i (futexSleep address 0 (s.processes i)) }

/-- `FUTEX_WAKE` of one thread, over `slots` process slots. -/
def wake (slots i : ℕ) (space : Option ℕ) (address : ℕ) : MutexState :=
  { s.goTo i .outside with
    processes := (futexWakeLoop space address 1 (List.range slots) 0 s.processes).2 }

/-- A thread of the address space that is not asleep. -/
def Awake (slots : ℕ) (space : Option ℕ) (i : ℕ) : Prop :=
  i < slots ∧ (s.processes i).used = true ∧ (s.processes i).addressSpace = space ∧
    (s.processes i).state = .running

instance (slots : ℕ) (space : Option ℕ) (i : ℕ) : Decidable (s.Awake slots space i) :=
  inferInstanceAs (Decidable (_ ∧ _))

/-- The next atomic step of thread `i`; `call` is what it calls when it is outside. -/
def step (slots : ℕ) (space : Option ℕ) (address : ℕ) (s : MutexState) (e : ℕ × MutexCall) :
    MutexState :=
  let i := e.1
  if s.Awake slots space i then
    match s.point i with
    | .outside =>
      match e.2 with
      | .lock => s.goTo i .lock
      | .trylock => s.goTo i .trylock
      | .unlock => if s.holds i then s.goTo i .unlock else s
    | .trylock => if s.word = 0 then s.acquire i 1 else s.goTo i .outside
    | .lock => if s.word = 0 then s.acquire i 1 else s.goTo i .exchange
    | .exchange =>
      if s.word = 0 then s.acquire i 2 else { s.goTo i .futexWait with word := 2 }
    | .futexWait => s.sleep i address
    | .unlock =>
      { s.goTo i (if 1 < s.word then .futexWake else .outside) with
        word := 0
        holds := update s.holds i false }
    | .futexWake => s.wake slots i space address
  else s

/-- The thread is blocked in `futex_wait`. -/
def Asleep (slots : ℕ) (space : Option ℕ) (address i : ℕ) : Prop :=
  i < slots ∧ isWaiter space address (s.processes i) = true

/-- Somebody is left who wakes a sleeper: the word says so to the next unlocker, an unlocker still has
its `futex_wake` to perform, or an awake thread is on its way to the exchange that sets the word
to 2. -/
def WakeupDue (slots : ℕ) (space : Option ℕ) : Prop :=
  s.word = 2 ∨ (∃ i, s.Awake slots space i ∧ s.point i = .futexWake) ∨
    ∃ i, s.Awake slots space i ∧ s.point i = .exchange

/-- A fresh mutex: the word is 0, no thread is in its code and none sleeps on it. -/
structure Fresh (slots : ℕ) (space : Option ℕ) (address : ℕ) : Prop where
  word : s.word = 0
  point : ∀ i, s.point i = .outside
  holds : ∀ i, s.holds i = false
  awake : ∀ i, ¬ s.Asleep slots space address i

end MutexState

/-! ### The system calls -/

section SystemCalls

variable {k : Kernel} {s : MutexState} {i n address : ℕ} {space : AddressSpace}

/-- `futex_wait(state, 2)` is `linux_futex` on the word in user memory. -/
theorem sleep_eq_linuxFutex (hprocesses : k.processes = s.processes) (hword : s.word < 2 ^ 32)
    (hspace : k.spaceOf i = some (n, space))
    (hread : vmCopyFromUser space.vm address 4 k.memory = some (leBytes 4 s.word)) :
    (linuxFutex k i address 128 2 0).2.processes = (s.sleep i address).processes := by
  rw [linuxFutex_wait hword (by decide) hspace hread, hprocesses, MutexState.sleep,
    apply_ite MutexState.processes]
  rfl

/-- `futex_wake(state, 1)` is `linux_futex` on the process table. -/
theorem wake_eq_linuxFutex (hprocesses : k.processes = s.processes)
    (hspace : k.spaceOf i = some (n, space)) :
    (linuxFutex k i address 129 1 0).2.processes =
      (s.wake maxProcesses i (some n) address).processes := by
  rw [linuxFutex_wake hspace, hprocesses]
  rfl

end SystemCalls

/-! ### The invariant -/

open MutexState

/-- The invariant of the mutex. -/
structure MutexOk (slots : ℕ) (space : Option ℕ) (address : ℕ) (s : MutexState) : Prop where
  free : s.word = 0 → ∀ i, s.holds i = false
  one : ∀ i j, s.holds i = true → s.holds j = true → i = j
  unlocks : ∀ i, s.point i = .unlock → s.holds i = true
  sleeping : ∀ i, s.Asleep slots space address i → s.point i = .exchange
  due : (∃ i, s.Asleep slots space address i) → s.WakeupDue slots space

section Steps

variable {slots : ℕ} {space : Option ℕ} {address : ℕ} {s : MutexState} {i : ℕ}

theorem MutexState.Fresh.ok (h : s.Fresh slots space address) : MutexOk slots space address s where
  free := fun _ => h.holds
  one := fun i j hi _ => absurd hi (by rw [h.holds i]; decide)
  unlocks := fun i hi => absurd hi (by rw [h.point i]; decide)
  sleeping := fun i hi => absurd hi (h.awake i)
  due := fun ⟨i, hi⟩ => absurd hi (h.awake i)

theorem MutexState.Awake.not_asleep (h : s.Awake slots space i) : ¬ s.Asleep slots space address i := by
  intro hasleep
  obtain ⟨_, hwaiter⟩ := hasleep
  rw [isWaiter, h.2.2.2] at hwaiter
  simp at hwaiter

/-- A step of thread `i` that leaves the process table alone.  Only the last condition is about
wakeups: the others say who holds the mutex afterwards. -/
theorem MutexOk.move (h : MutexOk slots space address s) (hi : s.Awake slots space i)
    {word : ℕ} {p : MutexPoint} {holds : ℕ → Bool}
    (hfree : word = 0 → ∀ j, holds j = false)
    (hone : ∀ j k, holds j = true → holds k = true → j = k)
    (hunlock : p = .unlock → holds i = true)
    (hothers : ∀ j, j ≠ i → holds j = s.holds j)
    (hdue : s.WakeupDue slots space →
      MutexState.WakeupDue ⟨word, s.processes, update s.point i p, holds⟩ slots space) :
    MutexOk slots space address ⟨word, s.processes, update s.point i p, holds⟩ where
  free := hfree
  one := hone
  unlocks := by
    intro j hj
    by_cases hji : j = i
    · subst hji
      exact hunlock (by simpa using hj)
    · simp only [update_of_ne hji] at hj ⊢
      rw [hothers j hji]
      exact h.unlocks j hj
  sleeping := by
    intro j hj
    have hji : j ≠ i := fun heq => hi.not_asleep (heq ▸ hj)
    simp only [update_of_ne hji]
    exact h.sleeping j hj
  due := fun hsleeper => hdue (h.due hsleeper)

/-- Whoever else was going to wake somebody still is. -/
theorem MutexState.WakeupDue.others (h : s.WakeupDue slots space) (hword : s.word ≠ 2)
    (hpoint : s.point i ≠ .futexWake ∧ s.point i ≠ .exchange) (word : ℕ) (p : MutexPoint)
    (holds : ℕ → Bool) :
    MutexState.WakeupDue ⟨word, s.processes, update s.point i p, holds⟩ slots space := by
  obtain htwo | ⟨j, hj, hat⟩ | ⟨j, hj, hat⟩ := h
  · exact absurd htwo hword
  · have hji : j ≠ i := fun heq => hpoint.1 (heq ▸ hat)
    exact .inr (.inl ⟨j, hj, by simp only [update_of_ne hji]; exact hat⟩)
  · have hji : j ≠ i := fun heq => hpoint.2 (heq ▸ hat)
    exact .inr (.inr ⟨j, hj, by simp only [update_of_ne hji]; exact hat⟩)

section

variable (h : MutexOk slots space address s) (hi : s.Awake slots space i)

include h hi

/-- A step that changes nothing but where the thread is, and not at a point where it owes a
wakeup. -/
theorem MutexOk.goTo
    {p : MutexPoint} (hunlock : p = .unlock → s.holds i = true)
    (hpoint : s.point i ≠ .futexWake ∧ s.point i ≠ .exchange) :
    MutexOk slots space address (s.goTo i p) := by
  refine h.move hi h.free h.one hunlock (fun _ _ => rfl) fun hdue => ?_
  by_cases hword : s.word = 2
  · exact .inl hword
  · exact hdue.others hword hpoint _ _ _

theorem MutexOk.acquire
    (hzero : s.word = 0) {word : ℕ} (hword : word ≠ 0)
    (hdue : s.WakeupDue slots space → (s.acquire i word).WakeupDue slots space) :
    MutexOk slots space address (s.acquire i word) := by
  have hnone := h.free hzero
  have honly : ∀ j, update s.holds i true j = true → j = i := by
    intro j hj
    by_contra hji
    rw [update_of_ne hji, hnone j] at hj
    cases hj
  refine h.move hi (fun h0 => absurd h0 hword) (fun j k hj hk => ?_) (fun hp => by cases hp)
    (fun j hji => update_of_ne hji _ _) hdue
  rw [honly j hj, honly k hk]

theorem MutexOk.unlock
    (hat : s.point i = .unlock) :
    MutexOk slots space address
      { s.goTo i (if 1 < s.word then .futexWake else .outside) with
        word := 0
        holds := update s.holds i false } := by
  have hholds := h.unlocks i hat
  have hnone : ∀ j, update s.holds i false j = false := by
    intro j
    by_cases hji : j = i
    · rw [hji, update_self]
    · rw [update_of_ne hji]
      by_contra hj
      exact hji (h.one j i (Bool.not_eq_false _ ▸ hj) hholds)
  refine h.move hi (fun _ => hnone) (fun j k hj _ => absurd hj (by rw [hnone j]; decide))
    (fun hp => by split at hp <;> cases hp) (fun j hji => update_of_ne hji _ _) fun hdue => ?_
  by_cases hword : s.word = 2
  · -- the unlocker owes the wakeup
    refine .inr (.inl ⟨i, hi, ?_⟩)
    simp only [update_self, hword]
    rfl
  · exact hdue.others hword (by rw [hat]; decide) _ _ _

/-- `FUTEX_WAIT`: with the word still at 2 the thread sleeps. -/
theorem MutexOk.sleep
    (hat : s.point i = .futexWait) : MutexOk slots space address (s.sleep i address) := by
  rw [MutexState.sleep]
  by_cases hword : s.word = 2
  · rw [if_neg (by simpa using hword)]
    refine ⟨h.free, h.one, ?_, ?_, fun _ => .inl hword⟩
    · intro j hj
      by_cases hji : j = i
      · subst hji
        simp [MutexState.goTo] at hj
      · simp only [MutexState.goTo, update_of_ne hji] at hj
        exact h.unlocks j hj
    · intro j hj
      by_cases hji : j = i
      · simp only [MutexState.goTo, hji, update_self]
      · simp only [MutexState.goTo, update_of_ne hji]
        simp only [MutexState.Asleep, update_of_ne hji] at hj
        exact h.sleeping j hj
  · rw [if_pos hword]
    exact h.goTo hi (fun hp => by cases hp) (by rw [hat]; decide)

/-- `FUTEX_WAKE`: a thread that is woken is on its way to the exchange. -/
theorem MutexOk.wake : MutexOk slots space address (s.wake slots i space address) := by
  rw [MutexState.wake]
  have hunlocks : ∀ j, update s.point i .outside j = .unlock → s.holds j = true := by
    intro j hj
    by_cases hji : j = i
    · rw [hji, update_self] at hj
      cases hj
    · rw [update_of_ne hji] at hj
      exact h.unlocks j hj
  have hothers : ∀ j, s.Asleep slots space address j → update s.point i .outside j = .exchange := by
    intro j hj
    have hji : j ≠ i := fun heq => hi.not_asleep (heq ▸ hj)
    rw [update_of_ne hji]
    exact h.sleeping j hj
  obtain ⟨hnone, hsame⟩ | ⟨j, hj, hwaiter, hwoken⟩ :=
    futexWakeLoop_one space address s.processes (List.range slots)
  · rw [hsame]
    refine ⟨h.free, h.one, hunlocks, hothers, ?_⟩
    intro hsleeper
    obtain ⟨k, hk, hsleeps⟩ := hsleeper
    have hawake := hnone k (List.mem_range.2 hk)
    exact absurd (hawake.symm.trans hsleeps) (by decide)
  · rw [hwoken]
    refine ⟨h.free, h.one, hunlocks, ?_, fun _ => .inr (.inr ⟨j, ?_, ?_⟩)⟩
    · intro k hk
      refine hothers k ⟨hk.1, ?_⟩
      by_cases hkj : k = j
      · rw [hkj]
        exact hwaiter
      · have hwaits := hk.2
        simp only [update_of_ne hkj] at hwaits
        exact hwaits
    · simp only [isWaiter, Bool.and_eq_true, beq_iff_eq] at hwaiter
      refine ⟨List.mem_range.1 hj, ?_⟩
      simp only [update_self]
      exact ⟨hwaiter.1.1.1, hwaiter.1.2, trivial⟩
    · exact hothers j ⟨List.mem_range.1 hj, hwaiter⟩

end

/-- **Every atomic step keeps the invariant.** -/
theorem MutexOk.step (h : MutexOk slots space address s) (e : ℕ × MutexCall) :
    MutexOk slots space address (MutexState.step slots space address s e) := by
  obtain ⟨i, call⟩ := e
  rw [MutexState.step]
  split
  · rename_i hi
    cases hat : s.point i with
    | outside =>
      have hpoint : s.point i ≠ .futexWake ∧ s.point i ≠ .exchange := by rw [hat]; decide
      cases call with
      | lock | trylock => exact h.goTo hi (fun hp => by cases hp) hpoint
      | unlock =>
        simp only
        split
        · rename_i hholds
          exact h.goTo hi (fun _ => hholds) hpoint
        · exact h
    | trylock | lock =>
      have hpoint : s.point i ≠ .futexWake ∧ s.point i ≠ .exchange := by rw [hat]; decide
      simp only
      split
      · rename_i hzero
        exact h.acquire hi hzero (by decide) fun hdue =>
          hdue.others (by rw [hzero]; decide) hpoint _ _ _
      · exact h.goTo hi (fun hp => by cases hp) hpoint
    | exchange =>
      simp only
      split
      · rename_i hzero
        exact h.acquire hi hzero (by decide) fun _ => .inl rfl
      · exact h.move hi (fun h0 => by cases h0) h.one (fun hp => by cases hp) (fun _ _ => rfl)
          fun _ => .inl rfl
    | futexWait => exact h.sleep hi hat
    | unlock => exact h.unlock hi hat
    | futexWake => exact h.wake hi
  · exact h

theorem MutexOk.run (h : MutexOk slots space address s) (run : List (ℕ × MutexCall)) :
    MutexOk slots space address (run.foldl (MutexState.step slots space address) s) := by
  induction run generalizing s with
  | nil => exact h
  | cons e run ih => exact ih (h.step e)

end Steps

/-- **The futex mutex is correct.**  Any number of threads take any atomic steps of
`pthread_mutex_lock`, `pthread_mutex_trylock` and `pthread_mutex_unlock` in any order, from a fresh
mutex.  In every state reached at most one thread is between a successful lock and its unlock, and
while a thread is blocked in `futex_wait` the word is 2, or an unlocker still has its `futex_wake` to
perform, or an awake thread is on its way to the exchange. -/
theorem mutex_correct (slots : ℕ) (space : Option ℕ) (address : ℕ) {s : MutexState}
    (hs : s.Fresh slots space address) (run : List (ℕ × MutexCall)) :
    (∀ i j, (run.foldl (MutexState.step slots space address) s).holds i = true →
      (run.foldl (MutexState.step slots space address) s).holds j = true → i = j) ∧
    ∀ i, (run.foldl (MutexState.step slots space address) s).Asleep slots space address i →
      (run.foldl (MutexState.step slots space address) s).WakeupDue slots space := by
  have hok := hs.ok.run run
  exact ⟨hok.one, fun i hi => hok.due ⟨i, hi⟩⟩

/-- Two running threads of one address space. -/
def twoThreads : MutexState where
  word := 0
  processes := fun _ => { Process.zero with used := true, state := .running, addressSpace := some 0 }
  point := fun _ => .outside
  holds := fun _ => false

theorem mutex_correct_two :
    -- thread 0 takes the mutex, thread 1 finds it taken and goes to sleep
    (([(0, .lock), (0, .lock), (1, .lock), (1, .lock), (1, .lock), (1, .lock)] :
      List (ℕ × MutexCall)).foldl (MutexState.step 2 (some 0) 64) twoThreads).Asleep 2 (some 0) 64 1 ∧
    (([(0, .lock), (0, .lock), (1, .lock), (1, .lock), (1, .lock), (1, .lock)] :
      List (ℕ × MutexCall)).foldl (MutexState.step 2 (some 0) 64) twoThreads).WakeupDue 2 (some 0) := by
  have hfresh : twoThreads.Fresh 2 (some 0) 64 := by
    refine ⟨rfl, fun _ => rfl, fun _ => rfl, fun i hi => ?_⟩
    exact absurd hi.2 (by simp [isWaiter, twoThreads])
  have hasleep : (([(0, .lock), (0, .lock), (1, .lock), (1, .lock), (1, .lock), (1, .lock)] :
      List (ℕ × MutexCall)).foldl (MutexState.step 2 (some 0) 64) twoThreads).Asleep 2 (some 0) 64 1 :=
    ⟨by decide, by decide⟩
  exact ⟨hasleep, (mutex_correct 2 (some 0) 64 hfresh _).2 1 hasleep⟩

end NovaOS.Process
