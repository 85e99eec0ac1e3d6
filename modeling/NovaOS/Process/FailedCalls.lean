import NovaOS.Process.Futex
import NovaOS.Process.Io

/-!
# Calls that fail after they have begun

Two system calls of `kernel/process.c` change what they work on before their last test.

* `futex_wait_fails_awake_iff` — `FUTEX_WAIT` puts the process to sleep and then reads the timeout:
  the call fails with the process awake, **exactly when** the timeout it comes to read can be read;
* `SettimeRequest`, `settime_request`, `settime_refused` — what `timerfd_settime` does when its
  arguments are good, and when they are not;
* `settime_fails_cleanly_iff` — it sets the interval and then adds up the deadline: a call that fails
  leaves the timer alone **exactly when** the sum fits, or the interval is the old one.
-/

namespace NovaOS.Process

open NovaOS.Vm NovaOS.Fs Function

/-! ### Waiting on a futex -/

section Futex

variable (k : Kernel) (slot address operation value timeoutAddress : ℕ)

/-- The process runs, and neither the address it sleeps on nor its wake tick have changed. -/
def StaysAwake (before after : Process) : Prop :=
  after.state = .running ∧ after.futexAddress = before.futexAddress ∧ after.wakeTick = before.wakeTick

/-- A wait that finds the value it expects, and is given a timeout, can read it. -/
def TimeoutReadable : Prop :=
  ∀ i space word, k.spaceOf slot = some (i, space) →
    vmCopyFromUser space.vm address 4 k.memory = some word → leValue word = value % 2 ^ 32 →
    timeoutAddress ≠ 0 → (vmCopyFromUser space.vm timeoutAddress 16 k.memory).isSome = true

/-- A wait fails and changes nothing, or it has put the process to sleep: without an error, or with
the error of a timeout that cannot be read. -/
theorem futex_wait_cases (hwait : operation % 128 = linuxFutexWait) :
    (∃ error, linuxFutex k slot address operation value timeoutAddress = (.error error, k)) ∨
    (∃ tick, linuxFutex k slot address operation value timeoutAddress =
      (.ok 0, k.modifyProcess slot (futexSleep address tick))) ∨
    ¬ TimeoutReadable k slot address value timeoutAddress ∧
      linuxFutex k slot address operation value timeoutAddress =
        (.error .fault, k.modifyProcess slot (futexSleep address 0)) := by
  cases hspace : k.spaceOf slot with
  | none => exact .inl ⟨.fault, by rw [linuxFutex, hspace]⟩
  | some found =>
    obtain ⟨i, space⟩ := found
    cases hword : vmCopyFromUser space.vm address 4 k.memory with
    | none => exact .inl ⟨.fault, by simp only [linuxFutex, hspace, if_pos hwait, hword]⟩
    | some word =>
      by_cases hvalue : leValue word = value % 2 ^ 32
      swap
      · left
        refine ⟨.again, ?_⟩
        simp only [linuxFutex, hspace, if_pos hwait, hword, ne_eq, hvalue, not_false_eq_true, if_true]
      right
      by_cases htimeout : timeoutAddress = 0
      · left
        refine ⟨0, ?_⟩
        simp only [linuxFutex, hspace, if_pos hwait, hword, ne_eq, hvalue, not_true_eq_false, if_false,
          if_pos htimeout]
      cases htime : vmCopyFromUser space.vm timeoutAddress 16 k.memory with
      | none =>
        right
        constructor
        · intro hreadable
          have hsome := hreadable i space word hspace hword hvalue htimeout
          rw [htime] at hsome
          cases hsome
        · simp only [linuxFutex, hspace, if_pos hwait, hword, ne_eq, hvalue, not_true_eq_false, if_false,
            if_neg htimeout, htime]
      | some timeout =>
        left
        refine ⟨timeoutTick k.schedulerTicks timeout, ?_⟩
        simp only [linuxFutex, hspace, if_pos hwait, hword, ne_eq, hvalue, not_true_eq_false, if_false,
          if_neg htimeout, htime]

/-- A timeout that cannot be read is an error of a process that sleeps. -/
theorem futex_wait_unreadable {k : Kernel} {slot address operation value timeoutAddress : ℕ}
    (hwait : operation % 128 = linuxFutexWait)
    (h : ¬ TimeoutReadable k slot address value timeoutAddress) :
    linuxFutex k slot address operation value timeoutAddress =
      (.error .fault, k.modifyProcess slot (futexSleep address 0)) := by
  rw [TimeoutReadable] at h
  push Not at h
  obtain ⟨i, space, word, hspace, hword, hvalue, htimeout, hnone⟩ := h
  have htime : vmCopyFromUser space.vm timeoutAddress 16 k.memory = none := by
    cases hread : vmCopyFromUser space.vm timeoutAddress 16 k.memory with
    | none => rfl
    | some timeout =>
      rw [hread] at hnone
      exact absurd rfl hnone
  simp only [linuxFutex, hspace, if_pos hwait, hword, ne_eq, hvalue, not_true_eq_false, if_false,
    if_neg htimeout, htime]

theorem modifyProcess_self (f : Process → Process) :
    (k.modifyProcess slot f).processes slot = f (k.processes slot) := by
  exact update_self ..

/-- **A wait that fails leaves the process awake, exactly when its timeout can be read.** -/
theorem futex_wait_fails_awake_iff (hwait : operation % 128 = linuxFutexWait)
    (hrunning : (k.processes slot).state = .running) :
    (∀ error, (linuxFutex k slot address operation value timeoutAddress).1 = .error error →
      StaysAwake (k.processes slot)
        ((linuxFutex k slot address operation value timeoutAddress).2.processes slot)) ↔
    TimeoutReadable k slot address value timeoutAddress := by
  constructor
  · intro hawake
    by_contra hunreadable
    have hcall := futex_wait_unreadable hwait hunreadable
    rw [hcall] at hawake
    have hstate := (hawake .fault rfl).1
    rw [modifyProcess_self] at hstate
    cases hstate
  · intro hreadable error herror
    obtain ⟨_, hcall⟩ | ⟨tick, hcall⟩ | ⟨hunreadable, -⟩ :=
      futex_wait_cases k slot address operation value timeoutAddress hwait
    · rw [hcall]
      exact ⟨hrunning, rfl, rfl⟩
    · rw [hcall] at herror
      cases herror
    · exact absurd hreadable hunreadable

end Futex

/-- The only process of the kernel below. -/
def soleProcess : Process :=
  { Process.zero with used := true, state := .running, pid := 1, tgid := 1, addressSpace := some 0 }

/-- One process is in user mode, with some seconds and no nanoseconds at the start of its page. -/
def soleKernel (seconds : ℕ) : Kernel :=
  let filled := vmCopyToUser oneSpace vmUserBase (leBytes 8 seconds ++ leBytes 8 0) onePage.memory
  { Kernel.initial stridedChoices (fun _ _ => 0) (formatted 5000 fun _ _ => 0) with
    processes := update (fun _ => Process.zero) 0 soleProcess
    spaces := update (fun _ => none) 0 (some ⟨filled.2.1, 1, [], 0, 0, 0, 0⟩)
    spaceCount := 1
    memory := filled.2.2
    currentSlot := some 0
    nextPid := 2 }

/-- The process waits for a word that is not what it expects, with a timeout nobody mapped. -/
theorem futex_wait_fails_awake_again :
    TimeoutReadable (soleKernel 0) 0 vmUserBase 7 1 ∧
    (linuxFutex (soleKernel 0) 0 vmUserBase 0 7 1).1 = .error .again ∧
    StaysAwake ((soleKernel 0).processes 0)
      ((linuxFutex (soleKernel 0) 0 vmUserBase 0 7 1).2.processes 0) := by
  have hreadable : TimeoutReadable (soleKernel 0) 0 vmUserBase 7 1 := by
    intro i space word hspace hword hvalue
    cases hspace
    have hzero : vmCopyFromUser (vmCopyToUser oneSpace vmUserBase (leBytes 8 0 ++ leBytes 8 0)
        onePage.memory).2.1 vmUserBase 4 (soleKernel 0).memory = some [0, 0, 0, 0] := by
      decide +kernel
    rw [hzero] at hword
    cases hword
    exact absurd hvalue (by decide)
  have hagain : (linuxFutex (soleKernel 0) 0 vmUserBase 0 7 1).1 = .error .again := by
    decide +kernel
  exact ⟨hreadable, hagain,
    (futex_wait_fails_awake_iff _ 0 vmUserBase 0 7 1 rfl rfl).2 hreadable .again hagain⟩

/-- **The call fails and the process sleeps**, without a timeout: the word is what it expects, and
the timeout is at an address without a page. -/
theorem futex_wait_fails_asleep :
    (linuxFutex (soleKernel 0) 0 vmUserBase 0 0 1).1 = .error .fault ∧
    ((linuxFutex (soleKernel 0) 0 vmUserBase 0 0 1).2.processes 0).state = .blockedFutex ∧
    ((linuxFutex (soleKernel 0) 0 vmUserBase 0 0 1).2.processes 0).futexAddress = vmUserBase := by
  decide +kernel

/-! ### Setting a timer -/

section Settime

variable (c : Caller) (descriptor flags newAddress oldAddress value interval : ℕ)

/-- The process after the old value has been stored, or the store has failed. -/
def Caller.reported : Caller :=
  { c with
    vm := (vmCopyToUser c.vm oldAddress (timerfdCurrentSpec c.ticks (c.timer descriptor)) c.memory).2.1
    memory :=
      (vmCopyToUser c.vm oldAddress (timerfdCurrentSpec c.ticks (c.timer descriptor)) c.memory).2.2 }

/-- The old value is not asked for, or it can be stored. -/
def Caller.Reports : Prop :=
  oldAddress = 0 ∨
    (vmCopyToUser c.vm oldAddress (timerfdCurrentSpec c.ticks (c.timer descriptor)) c.memory).1 = true

/-- A call of `timerfd_settime` with good arguments, for a time and an interval in ticks. -/
structure SettimeRequest : Prop where
  has : c.has descriptor = true
  type : (c.process.descriptors descriptor).type = .timerfd
  flags_le : flags ≤ 1
  address : newAddress ≠ 0
  readable : ∃ requested, vmCopyFromUser c.vm newAddress 32 c.memory = some requested ∧
    timespecToTicks (.ofBytes (requested.drop 16)) = some value ∧
    timespecToTicks (.ofBytes (requested.take 16)) = some interval
  reports : c.Reports descriptor oldAddress

/-- The deadline of a relative time fits in 64 bits, or the interval is what it was. -/
def SettimeFits : Prop :=
  ∀ value interval, SettimeRequest c descriptor flags newAddress oldAddress value interval →
    flags = 0 → value ≠ 0 → c.ticks + value < 2 ^ 64 ∨ interval = (c.timer descriptor).interval

/-- What a good call does after it has reported the old value. -/
def settimeArm (c : Caller) (descriptor flags value interval : ℕ) : Except Errno ℕ × Caller :=
  let timer := { c.timer descriptor with interval := interval }
  if value = 0 then (.ok 0, c.setTimer descriptor { timer with expires := 0 })
  else if flags.testBit 0 then (.ok 0, c.setTimer descriptor { timer with expires := value })
  else if 2 ^ 64 - 1 - value < c.ticks then (.error .inval, c.setTimer descriptor timer)
  else (.ok 0, c.setTimer descriptor { timer with expires := c.ticks + value })

variable {c descriptor flags newAddress oldAddress value interval}

theorem settime_request
    (h : SettimeRequest c descriptor flags newAddress oldAddress value interval) :
    linuxTimerfdSettime c descriptor flags newAddress oldAddress =
      settimeArm (if oldAddress = 0 then c else c.reported descriptor oldAddress) descriptor flags value
        interval := by
  obtain ⟨requested, hread, hvalue, hinterval⟩ := h.readable
  have htests : (!c.has descriptor || (c.process.descriptors descriptor).type ≠ .timerfd ||
      1 < flags) = false := by
    have hflags := h.flags_le
    rw [h.has, h.type]
    simpa using hflags
  rw [linuxTimerfdSettime, htests, if_neg (by decide), if_neg h.address, hread]
  simp only [hvalue, hinterval]
  by_cases hold : oldAddress = 0
  · rw [if_pos hold, if_pos hold]
    rfl
  · have hstored := h.reports.resolve_left hold
    rw [if_neg hold, if_neg hold, Caller.reported]
    generalize vmCopyToUser c.vm oldAddress (timerfdCurrentSpec c.ticks (c.timer descriptor)) c.memory
      = r at hstored ⊢
    obtain ⟨stored, vm, memory⟩ := r
    cases hstored
    rfl

/-- Bad arguments are an error, and no timer changes. -/
theorem settime_refused
    (h : ∀ value interval, ¬ SettimeRequest c descriptor flags newAddress oldAddress value interval) :
    ∃ error vm memory, linuxTimerfdSettime c descriptor flags newAddress oldAddress =
      (.error error, { c with vm := vm, memory := memory }) := by
  by_cases htests : (!c.has descriptor || (c.process.descriptors descriptor).type ≠ .timerfd ||
      1 < flags) = true
  · exact ⟨.inval, c.vm, c.memory, by rw [linuxTimerfdSettime, if_pos htests]⟩
  have hgood : c.has descriptor = true ∧ (c.process.descriptors descriptor).type = .timerfd ∧
      flags ≤ 1 := by
    simpa [and_assoc] using htests
  by_cases haddress : newAddress = 0
  · exact ⟨.fault, c.vm, c.memory, by rw [linuxTimerfdSettime, if_neg htests, if_pos haddress]⟩
  rw [linuxTimerfdSettime, if_neg htests, if_neg haddress]
  cases hread : vmCopyFromUser c.vm newAddress 32 c.memory with
  | none => exact ⟨.fault, c.vm, c.memory, rfl⟩
  | some requested =>
    cases hvalue : timespecToTicks (.ofBytes (requested.drop 16)) with
    | none => exact ⟨.inval, c.vm, c.memory, by simp only [hvalue]⟩
    | some value =>
      cases hinterval : timespecToTicks (.ofBytes (requested.take 16)) with
      | none => exact ⟨.inval, c.vm, c.memory, by simp only [hvalue, hinterval]⟩
      | some interval =>
        -- only the report of the old value is left to fail
        have hreports : ¬ c.Reports descriptor oldAddress := fun hreports =>
          h value interval ⟨hgood.1, hgood.2.1, hgood.2.2, haddress, ⟨requested, hread, hvalue, hinterval⟩,
            hreports⟩
        rw [Caller.Reports, not_or] at hreports
        obtain ⟨hold, hstored⟩ := hreports
        simp only [hvalue, hinterval]
        rw [if_neg hold]
        generalize vmCopyToUser c.vm oldAddress (timerfdCurrentSpec c.ticks (c.timer descriptor)) c.memory
          = r at hstored ⊢
        obtain ⟨stored, vm, memory⟩ := r
        cases stored with
        | false => exact ⟨.fault, vm, memory, rfl⟩
        | true => exact absurd rfl hstored

end Settime

/-! ### The old value -/

section Report

variable {ext : ℕ → ℕ} {E : ℕ → Prop} {c : Caller} {descriptor flags newAddress oldAddress : ℕ}

theorem bytesInt64_int64Bytes {value : ℤ} (hnonneg : 0 ≤ value) (hlt : value < 2 ^ 63) :
    bytesInt64 (int64Bytes value) = value := by
  have hmod : value % 2 ^ 64 = value := Int.emod_eq_of_lt hnonneg (by omega)
  have hback : leValue (int64Bytes value) = value.toNat := by
    rw [int64Bytes, hmod, leValue_leBytes]
    omega
  rw [bytesInt64, hback, if_pos (by omega)]
  omega

theorem length_int64Bytes (value : ℤ) : (int64Bytes value).length = 8 := length_leBytes ..

theorem length_timespec_bytes (time : LinuxTimespec) : time.bytes.length = 16 := by
  rw [LinuxTimespec.bytes, List.length_append, length_int64Bytes, length_int64Bytes]

/-- A number of ticks is stored as its seconds and nanoseconds. -/
theorem ofBytes_ticksToTimespec {ticks : ℕ} (h : ticks < 2 ^ 64) :
    LinuxTimespec.ofBytes (ticksToTimespec ticks).bytes = ticksToTimespec ticks := by
  have hseconds : bytesInt64 (int64Bytes ((ticks : ℤ) / 100)) = (ticks : ℤ) / 100 :=
    bytesInt64_int64Bytes (by omega) (by omega)
  have hnanoseconds : bytesInt64 (int64Bytes ((ticks : ℤ) % 100 * 10000000)) =
      (ticks : ℤ) % 100 * 10000000 :=
    bytesInt64_int64Bytes (by omega) (by omega)
  show (⟨bytesInt64 (int64Bytes ((ticks : ℤ) / 100)),
    bytesInt64 (int64Bytes ((ticks : ℤ) % 100 * 10000000))⟩ : LinuxTimespec) = ticksToTimespec ticks
  rw [hseconds, hnanoseconds, ticksToTimespec]

/-- The timer of a descriptor has the interval and the expiry it had. -/
def TimerKept (before after : Caller) (descriptor : ℕ) : Prop :=
  (after.timer descriptor).interval = (before.timer descriptor).interval ∧
    (after.timer descriptor).expires = (before.timer descriptor).expires

/-- What is stored in the process `after` is the interval, and the time that was left, of the timer
`before`. -/
def ReportsOld (before after : Caller) (descriptor oldAddress : ℕ) : Prop :=
  ∃ bytes, vmCopyFromUser after.vm oldAddress 32 after.memory = some bytes ∧
    LinuxTimespec.ofBytes (bytes.take 16) = ticksToTimespec (before.timer descriptor).interval ∧
    LinuxTimespec.ofBytes (bytes.drop 16) =
      ticksToTimespec ((before.timer descriptor).expires - before.ticks)

/-- What the call stores is read back from the caller's memory. -/
theorem reportsOld (hok : SpaceOk ext E c.vm c.memory)
    (hinterval : (c.timer descriptor).interval < 2 ^ 64) (hexpires : (c.timer descriptor).expires < 2 ^ 64)
    (hstored : (vmCopyToUser c.vm oldAddress (timerfdCurrentSpec c.ticks (c.timer descriptor))
      c.memory).1 = true) :
    ReportsOld c (c.reported descriptor oldAddress) descriptor oldAddress := by
  have hlength : (timerfdCurrentSpec c.ticks (c.timer descriptor)).length = 32 := by
    rw [timerfdCurrentSpec, List.length_append, length_timespec_bytes, length_timespec_bytes]
  refine ⟨timerfdCurrentSpec c.ticks (c.timer descriptor), ?_, ?_, ?_⟩
  · have hback := readBack_short hok (by omega) hstored
    exact hback
  · exact ofBytes_ticksToTimespec hinterval
  · exact ofBytes_ticksToTimespec (by omega)

theorem timer_setTimer (c : Caller) (descriptor : ℕ) (timer : TimerObject) :
    (c.setTimer descriptor timer).timer descriptor = timer := by
  exact update_self ..

/-- A good call arms the timer, or its sum does not fit and the interval is all it has set. -/
theorem settimeArm_cases (c : Caller) {flags value : ℕ} (descriptor interval : ℕ) (hflags : flags ≤ 1)
    (hvalue : value < 2 ^ 64) :
    (¬ (flags = 0 ∧ value ≠ 0 ∧ 2 ^ 64 ≤ c.ticks + value) ∧
      ∃ timer, settimeArm c descriptor flags value interval = (.ok 0, c.setTimer descriptor timer)) ∨
    (flags = 0 ∧ value ≠ 0 ∧ 2 ^ 64 ≤ c.ticks + value) ∧
      settimeArm c descriptor flags value interval =
        (.error .inval, c.setTimer descriptor { c.timer descriptor with interval := interval }) := by
  by_cases hzero : value = 0
  · exact .inl ⟨fun h => h.2.1 hzero, _, by rw [settimeArm, if_pos hzero]⟩
  obtain rfl | rfl : flags = 0 ∨ flags = 1 := by omega
  · by_cases hfits : 2 ^ 64 - 1 - value < c.ticks
    · right
      refine ⟨⟨rfl, hzero, by omega⟩, ?_⟩
      rw [settimeArm, if_neg hzero, if_neg (by decide), if_pos hfits]
    · left
      refine ⟨fun h => ?_, _, by rw [settimeArm, if_neg hzero, if_neg (by decide), if_neg hfits]⟩
      omega
  · exact .inl ⟨fun h => absurd h.1 (by decide), _, by rw [settimeArm, if_neg hzero, if_pos (by decide)]⟩

theorem timespecToTicks_lt {time : LinuxTimespec} {ticks : ℕ} (h : timespecToTicks time = some ticks) :
    ticks < 2 ^ 64 := by
  rw [timespecToTicks] at h
  split at h
  · cases h
  · cases h
    exact Nat.mod_lt _ (by decide)

/-- **A call that fails leaves the timer alone, and one that succeeds reports what held before,
exactly when the deadline fits in 64 bits or the interval is the old one.** -/
theorem settime_fails_cleanly_iff (hok : SpaceOk ext E c.vm c.memory)
    (hinterval : (c.timer descriptor).interval < 2 ^ 64)
    (hexpires : (c.timer descriptor).expires < 2 ^ 64) :
    ((∀ error, (linuxTimerfdSettime c descriptor flags newAddress oldAddress).1 = .error error →
        TimerKept c (linuxTimerfdSettime c descriptor flags newAddress oldAddress).2 descriptor) ∧
      ((linuxTimerfdSettime c descriptor flags newAddress oldAddress).1 = .ok 0 → oldAddress ≠ 0 →
        ReportsOld c (linuxTimerfdSettime c descriptor flags newAddress oldAddress).2 descriptor
          oldAddress)) ↔
    SettimeFits c descriptor flags newAddress oldAddress := by
  by_cases hrequest : ∃ value interval,
      SettimeRequest c descriptor flags newAddress oldAddress value interval
  swap
  · push Not at hrequest
    obtain ⟨error, vm, memory, hcall⟩ := settime_refused hrequest
    rw [hcall]
    refine iff_of_true ⟨fun _ _ => ⟨rfl, rfl⟩, fun hdone => ?_⟩
      fun value interval h => absurd h (hrequest value interval)
    cases hdone
  obtain ⟨value, interval, hrequest⟩ := hrequest
  have hunique : ∀ value' interval', SettimeRequest c descriptor flags newAddress oldAddress value'
      interval' → value' = value ∧ interval' = interval := by
    intro value' interval' h
    obtain ⟨requested, hread, hvalue, hinterval⟩ := hrequest.readable
    obtain ⟨requested', hread', hvalue', hinterval'⟩ := h.readable
    cases Option.some.inj (hread.symm.trans hread')
    exact ⟨Option.some.inj (hvalue'.symm.trans hvalue), Option.some.inj (hinterval'.symm.trans hinterval)⟩
  have hvalue : value < 2 ^ 64 := by
    obtain ⟨_, -, hvalue, -⟩ := hrequest.readable
    exact timespecToTicks_lt hvalue
  -- the report changes memory alone
  let after := if oldAddress = 0 then c else c.reported descriptor oldAddress
  have htimer : after.timer descriptor = c.timer descriptor := by
    show (if oldAddress = 0 then c else c.reported descriptor oldAddress).timer descriptor = _
    split <;> rfl
  have hticks : after.ticks = c.ticks := by
    show (if oldAddress = 0 then c else c.reported descriptor oldAddress).ticks = _
    split <;> rfl
  have hcall := settime_request hrequest
  rw [hcall]
  obtain ⟨hfits, timer, harm⟩ | ⟨⟨hflags, hne, hbeyond⟩, harm⟩ :=
    settimeArm_cases after descriptor interval hrequest.flags_le hvalue
  · rw [harm]
    refine iff_of_true ⟨fun _ herror => (by cases herror), fun _ hold => ?_⟩ ?_
    · have hreported : after = c.reported descriptor oldAddress := if_neg hold
      rw [hreported]
      exact reportsOld hok hinterval hexpires (hrequest.reports.resolve_left hold)
    · intro value' interval' h hflags hne
      obtain ⟨rfl, rfl⟩ := hunique value' interval' h
      left
      by_contra hbeyond
      exact hfits ⟨hflags, hne, by omega⟩
  · rw [harm]
    constructor
    · intro hclean value' interval' h _ _
      obtain ⟨rfl, rfl⟩ := hunique value' interval' h
      right
      have hkept := (hclean.1 .inval rfl).1
      rw [timer_setTimer] at hkept
      exact hkept
    · intro hfits
      refine ⟨fun _ _ => ?_, fun hdone => by cases hdone⟩
      have hsame := (hfits value interval hrequest hflags hne).resolve_left (by omega)
      constructor
      · rw [timer_setTimer]
        exact hsame
      · rw [timer_setTimer]
        rw [htimer]

end Report

/-! ### A process with a timer -/

/-- The page of a process whose request for a timer is stored at its start. -/
def timerPage (value interval : LinuxTimespec) : World :=
  (World.initial stridedChoices fun _ _ => 0).run
    [.create, .mapPage 0 vmUserBase 3, .copyToUser 0 vmUserBase (interval.bytes ++ value.bytes)]

/-- A process whose descriptor 3 is a new timer, 16 ticks after the start of the system. -/
def timerCaller (value interval : LinuxTimespec) : Caller :=
  let c : Caller := { memfdCaller with
    vm := ((timerPage value interval).spaces 0).getD VmSpace.zero
    memory := (timerPage value interval).memory
    ticks := 16 }
  c.setDescriptor 3 (.ofObject .timerfd 0 0)

/-- One second, every second: the old value is reported. -/
theorem settime_fails_cleanly_second :
    (linuxTimerfdSettime (timerCaller ⟨1, 0⟩ ⟨1, 0⟩) 3 0 vmUserBase (vmUserBase + 64)).1 = .ok 0 ∧
    ReportsOld (timerCaller ⟨1, 0⟩ ⟨1, 0⟩)
      (linuxTimerfdSettime (timerCaller ⟨1, 0⟩ ⟨1, 0⟩) 3 0 vmUserBase (vmUserBase + 64)).2 3
      (vmUserBase + 64) := by
  have hspace : ∃ s, (timerPage ⟨1, 0⟩ ⟨1, 0⟩).spaces 0 = some s := by
    refine Option.isSome_iff_exists.1 ?_
    decide +kernel
  obtain ⟨s, hs⟩ := hspace
  have hvm : (timerCaller ⟨1, 0⟩ ⟨1, 0⟩).vm = s := by
    show ((timerPage ⟨1, 0⟩ ⟨1, 0⟩).spaces 0).getD VmSpace.zero = s
    rw [hs]
    rfl
  have hworld : WorldOk (timerPage ⟨1, 0⟩ ⟨1, 0⟩) := (WorldOk.initial _ _).run _
  have hok := hworld.spaceOk hs
  rw [← hvm] at hok
  have hdone : (linuxTimerfdSettime (timerCaller ⟨1, 0⟩ ⟨1, 0⟩) 3 0 vmUserBase (vmUserBase + 64)).1 =
      .ok 0 := by decide +kernel
  refine ⟨hdone, ((settime_fails_cleanly_iff hok (by decide) (by decide)).2 ?_).2 hdone (by decide)⟩
  intro value interval hrequest _ _
  left
  obtain ⟨requested, hread, hvalue, -⟩ := hrequest.readable
  have hbytes : vmCopyFromUser (timerCaller ⟨1, 0⟩ ⟨1, 0⟩).vm vmUserBase 32
      (timerCaller ⟨1, 0⟩ ⟨1, 0⟩).memory =
        some ((⟨1, 0⟩ : LinuxTimespec).bytes ++ (⟨1, 0⟩ : LinuxTimespec).bytes) := by decide +kernel
  cases Option.some.inj (hbytes.symm.trans hread)
  have hticks : value = 100 := by
    refine Option.some.inj (hvalue.symm.trans ?_)
    decide +kernel
  rw [hticks]
  decide

/-- **The call fails with the interval set**: the time asked for is the longest the conversion takes,
and the clock stands at 16. -/
theorem settime_fails_half_set :
    (linuxTimerfdSettime (timerCaller ⟨184467440737095515, 999999999⟩ ⟨1, 0⟩) 3 0 vmUserBase 0).1 =
      .error .inval ∧
    ((timerCaller ⟨184467440737095515, 999999999⟩ ⟨1, 0⟩).timer 3).interval = 0 ∧
    ((linuxTimerfdSettime (timerCaller ⟨184467440737095515, 999999999⟩ ⟨1, 0⟩) 3 0 vmUserBase 0).2.timer
      3).interval = 100 := by
  decide +kernel

end NovaOS.Process
