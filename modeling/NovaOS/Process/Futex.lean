import NovaOS.Process.State

/-!
# Futexes

`linux_futex` of `kernel/process.c`.  `FUTEX_WAIT` compares the word in user memory with the value it
is given and puts the process to sleep; `FUTEX_WAKE` walks the process table and wakes the first
sleepers on the same address of the same address space.

* `futexSleep`, `isWaiter`, `futexWakeLoop`, `linuxFutex` — the function of the source, the part on
  the process table apart from the part on user memory;
* `futexWakeLoop_one`, `futexWakeLoop_all` — what waking one sleeper, or all of them, does to the
  table.
-/

namespace NovaOS.Process

open NovaOS.Vm Function

def linuxFutexWait : ℕ := 0
def linuxFutexWake : ℕ := 1

/-- The process goes to sleep on an address; a `wakeTick` of zero is no timeout. -/
def futexSleep (address wakeTick : ℕ) (process : Process) : Process :=
  { process with state := .blockedFutex, futexAddress := address, wakeTick := wakeTick }

/-- Whether a process sleeps on an address of an address space. -/
def isWaiter (space : Option ℕ) (address : ℕ) (waiter : Process) : Bool :=
  waiter.used && waiter.state == .blockedFutex && waiter.addressSpace == space &&
    waiter.futexAddress == address

/-- The loop of `FUTEX_WAKE` over the slots of a list; `value` is the count as an `int`. -/
def futexWakeLoop (space : Option ℕ) (address : ℕ) (value : ℤ) :
    List ℕ → ℕ → (ℕ → Process) → ℕ × (ℕ → Process)
  | [], woken, processes => (woken, processes)
  | index :: rest, woken, processes =>
    if (woken : ℤ) < value then
      if isWaiter space address (processes index) then
        futexWakeLoop space address value rest (woken + 1)
          (update processes index { processes index with state := .running })
      else futexWakeLoop space address value rest woken processes
    else (woken, processes)

/-- `(int)value` of a 32-bit word. -/
def asInt (value : ℕ) : ℤ :=
  if value % 2 ^ 32 < 2 ^ 31 then (value % 2 ^ 32 : ℕ) else (value % 2 ^ 32 : ℕ) - 2 ^ 32

/-- The wake tick of a timeout, given as the sixteen bytes of a `LinuxTimespec`; negative times are
none. -/
def timeoutTick (ticks : ℕ) (timeout : List UInt8) : ℕ :=
  let seconds := leValue (timeout.take 8)
  let nanoseconds := leValue (timeout.drop 8)
  if seconds < 2 ^ 63 ∧ nanoseconds < 2 ^ 63 then
    (ticks + seconds * 100 + nanoseconds / 10000000 + 1) % 2 ^ 64
  else 0

/-- `linux_futex`.  A timeout that cannot be read leaves the process asleep without one. -/
def linuxFutex (k : Kernel) (slot address operation value timeoutAddress : ℕ) :
    Except Errno ℕ × Kernel :=
  match k.spaceOf slot with
  | none => (.error .fault, k)
  | some (i, space) =>
    if operation % 128 = linuxFutexWait then
      match vmCopyFromUser space.vm address 4 k.memory with
      | none => (.error .fault, k)
      | some current =>
        if leValue current ≠ value % 2 ^ 32 then (.error .again, k)
        else if timeoutAddress = 0 then (.ok 0, k.modifyProcess slot (futexSleep address 0))
        else
          match vmCopyFromUser space.vm timeoutAddress 16 k.memory with
          | none => (.error .fault, k.modifyProcess slot (futexSleep address 0))
          | some timeout =>
            (.ok 0, k.modifyProcess slot (futexSleep address (timeoutTick k.schedulerTicks timeout)))
    else if operation % 128 = linuxFutexWake then
      match futexWakeLoop (some i) address (asInt value) (List.range maxProcesses) 0 k.processes with
      | (woken, processes) => (.ok woken, { k with processes := processes })
    else (.error .nosys, k)

section Calls

variable {k : Kernel} {slot n address : ℕ} {space : AddressSpace}

/-- `futex_wait(word, expected)` without a timeout. -/
theorem linuxFutex_wait {word expected : ℕ} (hword : word < 2 ^ 32) (hexpected : expected < 2 ^ 32)
    (hspace : k.spaceOf slot = some (n, space))
    (hread : vmCopyFromUser space.vm address 4 k.memory = some (leBytes 4 word)) :
    (linuxFutex k slot address 128 expected 0).2.processes =
      if word ≠ expected then k.processes
      else update k.processes slot (futexSleep address 0 (k.processes slot)) := by
  rw [linuxFutex, hspace]
  simp only [show 128 % 128 = linuxFutexWait from rfl, if_true, hread]
  rw [leValue_leBytes 4 hword, Nat.mod_eq_of_lt hexpected]
  split
  · rfl
  · rfl

theorem linuxFutex_wake (hspace : k.spaceOf slot = some (n, space)) (count : ℕ) :
    (linuxFutex k slot address 129 count 0).2.processes =
      (futexWakeLoop (some n) address (asInt count) (List.range maxProcesses) 0 k.processes).2 := by
  rw [linuxFutex, hspace]
  rfl

end Calls

/-! ### Waking one -/

section Wake

variable (space : Option ℕ) (address : ℕ) (processes : ℕ → Process)

theorem futexWakeLoop_done {value : ℤ} {woken : ℕ} (h : value ≤ woken) (slots : List ℕ) :
    futexWakeLoop space address value slots woken processes = (woken, processes) := by
  cases slots with
  | nil => rfl
  | cons index rest => rw [futexWakeLoop, if_neg (by omega)]

/-- **`FUTEX_WAKE` of one**: nobody sleeps there and nothing changes, or one sleeper runs again. -/
theorem futexWakeLoop_one (slots : List ℕ) :
    ((∀ i ∈ slots, isWaiter space address (processes i) = false) ∧
      (futexWakeLoop space address 1 slots 0 processes).2 = processes) ∨
    ∃ i ∈ slots, isWaiter space address (processes i) = true ∧
      (futexWakeLoop space address 1 slots 0 processes).2 =
        update processes i { processes i with state := .running } := by
  induction slots with
  | nil => exact .inl ⟨fun i hi => absurd hi List.not_mem_nil, rfl⟩
  | cons index rest ih =>
    rw [futexWakeLoop, if_pos (by decide)]
    by_cases hwaiter : isWaiter space address (processes index) = true
    · right
      rw [if_pos hwaiter, futexWakeLoop_done space address _ (by decide)]
      exact ⟨index, List.mem_cons_self, hwaiter, rfl⟩
    · rw [if_neg hwaiter]
      rw [Bool.not_eq_true] at hwaiter
      obtain ⟨hnone, hsame⟩ | ⟨i, hi, hsleeps, hwoken⟩ := ih
      · left
        refine ⟨fun i hi => ?_, hsame⟩
        obtain heq | hrest := List.mem_cons.1 hi
        · rw [heq, hwaiter]
        · exact hnone i hrest
      · right
        exact ⟨i, List.mem_cons_of_mem index hi, hsleeps, hwoken⟩

/-- `FUTEX_WAKE` leaves a process alone, or it was asleep there and runs again. -/
theorem futexWakeLoop_cases (value : ℤ) (slots : List ℕ) (woken i : ℕ) :
    (futexWakeLoop space address value slots woken processes).2 i = processes i ∨
      isWaiter space address (processes i) = true ∧
        (futexWakeLoop space address value slots woken processes).2 i =
          { processes i with state := .running } := by
  induction slots generalizing woken processes with
  | nil => exact .inl rfl
  | cons index rest ih =>
    rw [futexWakeLoop]
    split
    · split
      · rename_i hwaiter
        by_cases hi : i = index
        · subst hi
          right
          obtain hsame | ⟨hwaits, -⟩ :=
            ih (update processes i { processes i with state := .running }) (woken + 1)
          · rw [hsame, update_self]
            exact ⟨hwaiter, rfl⟩
          · simp [isWaiter] at hwaits
        · have hrest := ih (update processes index
            { processes index with state := .running }) (woken + 1)
          rwa [update_of_ne hi] at hrest
      · exact ih processes woken
    · exact .inl rfl

theorem isWaiter_of_wake {value : ℤ} {slots : List ℕ} {woken i : ℕ} {space' : Option ℕ}
    {address' : ℕ}
    (h : isWaiter space' address' ((futexWakeLoop space address value slots woken processes).2 i) =
      true) : isWaiter space' address' (processes i) = true := by
  obtain hsame | ⟨-, hwoken⟩ := futexWakeLoop_cases space address processes value slots woken i
  · rwa [hsame] at h
  · rw [hwoken] at h
    simp [isWaiter] at h

/-- A `FUTEX_WAKE` of enough leaves nobody asleep. -/
theorem futexWakeLoop_all {value : ℤ} {slots : List ℕ} {woken i : ℕ}
    (hvalue : (woken : ℤ) + slots.length ≤ value) (hi : i ∈ slots) :
    isWaiter space address ((futexWakeLoop space address value slots woken processes).2 i) = false := by
  induction slots generalizing woken processes with
  | nil => exact absurd hi List.not_mem_nil
  | cons index rest ih =>
    -- the rest of the loop puts nobody to sleep
    have hstays : ∀ woken processes, isWaiter space address (processes index) = false →
        isWaiter space address
          ((futexWakeLoop space address value rest woken processes).2 index) = false := by
      intro woken processes hawake
      by_contra hwaits
      have hbefore := isWaiter_of_wake _ _ _ (Bool.not_eq_false _ ▸ hwaits)
      rw [hawake] at hbefore
      cases hbefore
    rw [List.length_cons] at hvalue
    rw [futexWakeLoop, if_pos (by omega)]
    obtain rfl | hrest := List.mem_cons.1 hi
    · split
      · apply hstays
        simp [isWaiter]
      · rename_i hwaiter
        exact hstays woken processes (Bool.not_eq_true _ ▸ hwaiter)
    · split
      · exact ih _ (by push_cast at hvalue ⊢; omega) hrest
      · exact ih _ (by push_cast at hvalue; omega) hrest

end Wake

end NovaOS.Process
