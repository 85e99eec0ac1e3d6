import NovaOS.Lib.Runs
import NovaOS.Process.Queue
import NovaOS.Vm.CopyLaw

/-!
# Timer descriptors

The timers of `kernel/process.c`: a `LinuxTimespec` is turned into ticks of the scheduler, a timer
counts its expirations from the tick it expires at and its interval, and a read delivers the count
and moves the timer on.

* `timespecToTicks`, `ticksToTimespec`, `linuxTimerfdSettime`, `timerExpire`, `timerReadUser` — the
  functions of the source, the last two being the branch of `linux_read` for timers;
* `timespecToTicks_exact` — **ticks are rounded up, and come back**;
* `timer_conserved` — the counts that reads store add up, in every run in which no expiration is lost
  with its copy and no sum leaves the 64 bits.
-/

namespace NovaOS.Process

open NovaOS.Vm Nat

/-! ### Ticks -/

structure LinuxTimespec where
  seconds : ℤ
  nanoseconds : ℤ

/-- An `int64_t` as it is stored. -/
def int64Bytes (value : ℤ) : List UInt8 := leBytes 8 (value % 2 ^ 64).toNat

/-- The `int64_t` in eight bytes. -/
def bytesInt64 (bytes : List UInt8) : ℤ :=
  if leValue bytes < 2 ^ 63 then leValue bytes else (leValue bytes : ℤ) - 2 ^ 64

def LinuxTimespec.bytes (time : LinuxTimespec) : List UInt8 :=
  int64Bytes time.seconds ++ int64Bytes time.nanoseconds

def LinuxTimespec.ofBytes (bytes : List UInt8) : LinuxTimespec :=
  ⟨bytesInt64 (bytes.take 8), bytesInt64 (bytes.drop 8)⟩

/-- `timespec_to_ticks`. -/
def timespecToTicks (time : LinuxTimespec) : Option ℕ :=
  if time.seconds < 0 ∨ time.nanoseconds < 0 ∨ 1000000000 ≤ time.nanoseconds ∨
      (2 ^ 64 - 1 - 99) / 100 < time.seconds.toNat then none
  else
    some ((time.seconds.toNat * 100 % 2 ^ 64 +
      (time.nanoseconds.toNat + 9999999) % 2 ^ 64 / 10000000) % 2 ^ 64)

/-- `ticks_to_timespec`. -/
def ticksToTimespec (ticks : ℕ) : LinuxTimespec := ⟨ticks / 100, ticks % 100 * 10000000⟩

/-- What is accepted, and the ticks it gives, over the integers. -/
theorem timespecToTicks_iff {time : LinuxTimespec} {ticks : ℕ} :
    timespecToTicks time = some ticks ↔
      (0 ≤ time.seconds ∧ time.seconds ≤ (2 ^ 64 - 1 - 99) / 100) ∧
      (0 ≤ time.nanoseconds ∧ time.nanoseconds < 1000000000) ∧
      (ticks : ℤ) = time.seconds * 100 + (time.nanoseconds + 9999999) / 10000000 := by
  rw [timespecToTicks]
  split
  · refine ⟨fun hno => (by cases hno), fun h => ?_⟩
    omega
  · rw [Option.some.injEq]
    omega

/-- **The conversion rounds up, exactly**: nothing wraps, more time never gives fewer ticks, and ticks
that can be converted back come back. -/
theorem timespecToTicks_exact :
    (∀ time ticks, timespecToTicks time = some ticks →
      (time.seconds * 100 < 2 ^ 64 ∧ time.nanoseconds + 9999999 < 2 ^ 64 ∧
        time.seconds * 100 + (time.nanoseconds + 9999999) / 10000000 < 2 ^ 64) ∧
      ((ticks : ℤ) - 1) * 10 ^ 7 < time.seconds * 10 ^ 9 + time.nanoseconds ∧
      time.seconds * 10 ^ 9 + time.nanoseconds ≤ ticks * 10 ^ 7 ∧
      (ticks = 0 → time.seconds = 0 ∧ time.nanoseconds = 0)) ∧
    (∀ time time' ticks ticks', timespecToTicks time = some ticks →
      timespecToTicks time' = some ticks' →
      time.seconds * 10 ^ 9 + time.nanoseconds ≤ time'.seconds * 10 ^ 9 + time'.nanoseconds →
      ticks ≤ ticks') ∧
    ∀ ticks ≤ (2 ^ 64 - 1 - 99) / 100 * 100, timespecToTicks (ticksToTimespec ticks) = some ticks := by
  refine ⟨fun time ticks h => ?_, fun time time' ticks ticks' h h' hle => ?_, fun ticks hticks => ?_⟩
  · rw [timespecToTicks_iff] at h
    omega
  · rw [timespecToTicks_iff] at h h'
    omega
  · rw [timespecToTicks_iff, ticksToTimespec]
    dsimp only
    omega

/-! ### The calls -/

/-- The bytes of `timerfd_current_spec`: the interval and the remaining time. -/
def timerfdCurrentSpec (ticks : ℕ) (timer : TimerObject) : List UInt8 :=
  (ticksToTimespec timer.interval).bytes ++ (ticksToTimespec (timer.expires - ticks)).bytes

/-- The timer of a descriptor. -/
def Caller.timer (c : Caller) (descriptor : ℕ) : TimerObject :=
  c.objects.timers (c.process.descriptors descriptor).object

def Caller.setTimer (c : Caller) (descriptor : ℕ) (timer : TimerObject) : Caller :=
  { c with objects := { c.objects with
    timers := Function.update c.objects.timers (c.process.descriptors descriptor).object timer } }

/-- `linux_timerfd_settime`. -/
def linuxTimerfdSettime (c : Caller) (descriptor flags newAddress oldAddress : ℕ) :
    Except Errno ℕ × Caller :=
  if !c.has descriptor || (c.process.descriptors descriptor).type ≠ .timerfd || 1 < flags then
    (.error .inval, c)
  else if newAddress = 0 then (.error .fault, c)
  else
    match vmCopyFromUser c.vm newAddress 32 c.memory with
    | none => (.error .fault, c)
    | some requested =>
      match timespecToTicks (.ofBytes (requested.drop 16)),
          timespecToTicks (.ofBytes (requested.take 16)) with
      | some value, some interval =>
        let timer := c.timer descriptor
        match if oldAddress = 0 then (true, c.vm, c.memory)
          else vmCopyToUser c.vm oldAddress (timerfdCurrentSpec c.ticks timer) c.memory with
        | (false, vm, memory) => (.error .fault, { c with vm := vm, memory := memory })
        | (true, vm, memory) =>
          let c := { c with vm := vm, memory := memory }
          -- the interval is set before the sum is looked at
          let timer := { timer with interval := interval }
          if value = 0 then (.ok 0, c.setTimer descriptor { timer with expires := 0 })
          else if flags.testBit 0 then (.ok 0, c.setTimer descriptor { timer with expires := value })
          else if 2 ^ 64 - 1 - value < c.ticks then (.error .inval, c.setTimer descriptor timer)
          else (.ok 0, c.setTimer descriptor { timer with expires := c.ticks + value })
      | _, _ => (.error .inval, c)

/-- What a read makes of a timer: the expirations it delivers and the timer moved on; nothing when
the timer is not due. -/
def timerExpire (ticks : ℕ) (timer : TimerObject) : Option (ℕ × TimerObject) :=
  if timer.expires = 0 ∨ ticks < timer.expires then none
  else if timer.interval ≠ 0 then
    let expirations := (1 + (ticks - timer.expires) / timer.interval) % 2 ^ 64
    some (expirations,
      { timer with expires := (timer.expires + expirations * timer.interval % 2 ^ 64) % 2 ^ 64 })
  else some (1, { timer with expires := 0 })

/-- `linux_read` of a timer.  The timer has moved on when the copy fails. -/
def timerReadUser (ticks : ℕ) (timer : TimerObject) (buffer count : ℕ) (s : VmSpace) (m : Memory) :
    Except Errno ℕ × TimerObject × VmSpace × Memory :=
  if count < 8 then (.error .inval, timer, s, m)
  else
    match timerExpire ticks timer with
    | none => (.error .again, timer, s, m)
    | some (expirations, timer) =>
      match vmCopyToUser s buffer (leBytes 8 expirations) m with
      | (true, s, m) => (.ok 8, timer, s, m)
      | (false, s, m) => (.error .fault, timer, s, m)

/-! ### Runs of one timer -/

/-- A timer with the clock, and the sum of what reads have delivered since it was armed. -/
structure TimerRun where
  ticks : ℕ
  timer : TimerObject
  delivered : ℕ

/-- The clock goes on, or somebody reads the timer, in whatever state their memory is. -/
inductive TimerEvent
  | clock (ticks : ℕ)
  | read (buffer count : ℕ) (s : VmSpace) (m : Memory)

namespace TimerRun

/-- The result of a read. -/
def result (r : TimerRun) (buffer count : ℕ) (s : VmSpace) (m : Memory) : Except Errno ℕ :=
  (timerReadUser r.ticks r.timer buffer count s m).1

/-- What a read delivers when it succeeds. -/
def expirations (r : TimerRun) : ℕ := ((timerExpire r.ticks r.timer).map Prod.fst).getD 0

/-- The clock never goes back and has 64 bits. -/
def step (r : TimerRun) : TimerEvent → TimerRun
  | .clock ticks => if r.ticks ≤ ticks ∧ ticks < 2 ^ 64 then { r with ticks := ticks } else r
  | .read buffer count s m =>
    { r with
      timer := (timerReadUser r.ticks r.timer buffer count s m).2.1
      delivered := if r.result buffer count s m = .ok 8 then r.delivered + r.expirations
        else r.delivered }

/-- A read of a timer that is due can store its eight bytes, and the tick at which the timer expires
next fits in 64 bits. -/
def Intact (r : TimerRun) : TimerEvent → Prop
  | .clock _ => True
  | .read buffer count s m =>
    8 ≤ count → r.timer.expires ≠ 0 → r.timer.expires ≤ r.ticks →
      (∀ value, (vmCopyToUser s buffer (leBytes 8 value) m).1 = true) ∧
        r.timer.expires + (1 + (r.ticks - r.timer.expires) / r.timer.interval) * r.timer.interval <
          2 ^ 64

/-- After a read that returned 8 the buffer holds the count it adds to the sum, the sum is the number of
expirations since the timer was armed, and there is nothing more to read at that tick. -/
def Conserved (first interval : ℕ) (r : TimerRun) : TimerEvent → Prop
  | .clock _ => True
  | .read buffer count s m =>
    r.result buffer count s m = .ok 8 →
      (∀ ext E, SpaceOk ext E s m →
        vmCopyFromUser (timerReadUser r.ticks r.timer buffer count s m).2.2.1 buffer 8
          (timerReadUser r.ticks r.timer buffer count s m).2.2.2 = some (leBytes 8 r.expirations)) ∧
      (r.step (.read buffer count s m)).delivered = 1 + (r.ticks - first) / interval ∧
        ∀ buffer' count' s' m', 8 ≤ count' →
          (r.step (.read buffer count s m)).result buffer' count' s' m' = .error .again

/-- The timer was armed for `first`, and has been moved on by as many intervals as expirations were
delivered. -/
structure Armed (first interval : ℕ) (r : TimerRun) : Prop where
  clock : r.ticks < 2 ^ 64
  started : 0 < first
  positive : 0 < interval
  period : r.timer.interval = interval
  expires : r.timer.expires = first + r.delivered * interval

variable {first interval : ℕ} {r : TimerRun}

/-- A timer that is due moves on behind the clock. -/
theorem Armed.expire (h : Armed first interval r) (hdue : r.timer.expires ≤ r.ticks)
    (hfits : r.timer.expires + (1 + (r.ticks - r.timer.expires) / r.timer.interval) *
      r.timer.interval < 2 ^ 64) :
    timerExpire r.ticks r.timer = some (1 + (r.ticks - r.timer.expires) / interval,
      { r.timer with expires := first +
        (r.delivered + (1 + (r.ticks - r.timer.expires) / interval)) * interval }) := by
  have hclock := h.clock
  have hne : r.timer.expires ≠ 0 := by
    have := h.started
    have := h.expires
    omega
  have hpositive := h.positive
  rw [h.period] at hfits
  have hcount : 1 + (r.ticks - r.timer.expires) / interval < 2 ^ 64 := by
    have := div_le_self (r.ticks - r.timer.expires) interval
    omega
  rw [timerExpire, if_neg (by omega), h.period, if_pos (by omega)]
  generalize hn : 1 + (r.ticks - r.timer.expires) / interval = n at *
  have hproduct : n * interval < 2 ^ 64 := by omega
  simp only [mod_eq_of_lt hcount, mod_eq_of_lt hproduct, mod_eq_of_lt hfits]
  rw [add_mul, ← add_assoc, ← h.expires, h.period]

theorem Armed.read (h : Armed first interval r) {buffer count : ℕ} {s : VmSpace} {m : Memory}
    (hintact : r.Intact (.read buffer count s m)) :
    Armed first interval (r.step (.read buffer count s m)) ∧
      Conserved first interval r (.read buffer count s m) := by
  by_cases hcount : count < 8
  · -- too small a buffer is refused
    have hresult : timerReadUser r.ticks r.timer buffer count s m = (.error .inval, r.timer, s, m) := by
      rw [timerReadUser, if_pos hcount]
    have hsame : r.step (.read buffer count s m) = r := by
      rw [step, result, hresult]
      rfl
    rw [hsame, Conserved, result, hresult]
    exact ⟨h, nofun⟩
  by_cases hdue : r.ticks < r.timer.expires
  · have hresult : timerReadUser r.ticks r.timer buffer count s m = (.error .again, r.timer, s, m) := by
      rw [timerReadUser, if_neg hcount, timerExpire, if_pos (.inr hdue)]
    have hsame : r.step (.read buffer count s m) = r := by
      rw [step, result, hresult]
      rfl
    rw [hsame, Conserved, result, hresult]
    exact ⟨h, nofun⟩
  have hle := Nat.le_of_not_lt hdue
  have hne : r.timer.expires ≠ 0 := by
    have := h.started
    have := h.expires
    omega
  obtain ⟨hcopy, hfits⟩ := hintact (Nat.le_of_not_lt hcount) hne hle
  have hexpire := h.expire hle hfits
  have hexpires := h.expires
  -- the intervals that have passed since the timer was armed
  have hsum : r.delivered + (1 + (r.ticks - r.timer.expires) / interval) =
      1 + (r.ticks - first) / interval := by
    have hsub : r.ticks - r.timer.expires = (r.ticks - first) - interval * r.delivered := by
      rw [hexpires, mul_comm interval]
      omega
    have hpassed : interval * r.delivered ≤ r.ticks - first := by
      rw [hexpires, mul_comm] at hle
      omega
    have hdiv := sub_mul_div (r.ticks - first) interval r.delivered
    have hquotient : r.delivered ≤ (r.ticks - first) / interval :=
      (le_div_iff_mul_le h.positive).2 (by rwa [mul_comm] at hpassed)
    rw [hsub, hdiv]
    omega
  generalize hn : 1 + (r.ticks - r.timer.expires) / interval = n at hexpire hsum
  have hresult : timerReadUser r.ticks r.timer buffer count s m =
      (.ok 8, { r.timer with expires := first + (r.delivered + n) * interval },
        (vmCopyToUser s buffer (leBytes 8 n) m).2) := by
    have hok := hcopy n
    rw [timerReadUser, if_neg hcount, hexpire]
    simp only
    rcases hto : vmCopyToUser s buffer (leBytes 8 n) m with ⟨ok, s', m'⟩
    rw [hto] at hok
    subst hok
    rfl
  have hdelivers : r.expirations = n := by
    rw [expirations, hexpire]
    rfl
  have hstep : r.step (.read buffer count s m) =
      ⟨r.ticks, { r.timer with expires := first + (r.delivered + n) * interval }, r.delivered + n⟩ := by
    rw [step, result, hresult, if_pos rfl, hdelivers]
  rw [Conserved, hstep, hresult, hdelivers]
  refine ⟨⟨h.clock, h.started, h.positive, h.period, rfl⟩, fun _ => ⟨?_, hsum, ?_⟩⟩
  · intro ext E hspace
    have hback := readBack_short hspace (by rw [length_leBytes]; decide) (hcopy n)
    rwa [length_leBytes] at hback
  intro buffer' count' s₁ m₁ hlarge
  have hlater : r.ticks < first + (r.delivered + n) * interval := by
    have hlt := lt_mul_div_succ (r.ticks - r.timer.expires) h.positive
    rw [add_mul, ← add_assoc, ← hexpires, ← hn, add_comm 1, mul_comm]
    omega
  rw [result, timerReadUser, if_neg (not_lt.2 hlarge), timerExpire, if_pos (.inr hlater)]

theorem Armed.step (h : Armed first interval r) {e : TimerEvent} (hintact : r.Intact e) :
    Armed first interval (r.step e) := by
  cases e with
  | clock ticks =>
    rw [TimerRun.step]
    split
    · rename_i hticks
      exact ⟨hticks.2, h.started, h.positive, h.period, h.expires⟩
    · exact h
  | read buffer count s m => exact (h.read hintact).1

end TimerRun

/-- **Timer expirations are conserved** as long as nothing is lost: in every run of clock ticks and
reads in which a due timer is only read into memory that takes the count, and its next expiry fits in
64 bits, a read that returns 8 at tick `t` leaves its count in the buffer and brings the sum of all counts to
`1 + (t - first) / interval`, and a further read at that tick finds nothing. -/
theorem timer_conserved (first interval ticks : ℕ) (used : Bool) (hfirst : 0 < first)
    (hinterval : 1 ≤ interval) (hticks : ticks < 2 ^ 64) (events : List TimerEvent)
    (hintact : Along TimerRun.step TimerRun.Intact ⟨ticks, ⟨used, first, interval⟩, 0⟩ events) :
    Along TimerRun.step (TimerRun.Conserved first interval) ⟨ticks, ⟨used, first, interval⟩, 0⟩
      events := by
  have harmed : TimerRun.Armed first interval ⟨ticks, ⟨used, first, interval⟩, 0⟩ :=
    ⟨hticks, hfirst, hinterval, rfl, by rw [zero_mul, add_zero]⟩
  generalize (⟨ticks, ⟨used, first, interval⟩, 0⟩ : TimerRun) = r at hintact harmed
  induction events generalizing r with
  | nil => trivial
  | cons e events ih =>
    refine ⟨?_, ih (r.step e) hintact.2 (harmed.step hintact.1)⟩
    cases e with
    | clock ticks => trivial
    | read buffer count s m => exact (harmed.read hintact.1).2

/-- A timer that is read at its first and at its fourth expiration. -/
theorem timer_conserved_four :
    Along TimerRun.step (TimerRun.Conserved 1 1) ⟨0, ⟨true, 1, 1⟩, 0⟩
      [.clock 1, .read vmUserBase 8 oneSpace onePage.memory, .clock 4,
        .read vmUserBase 8 oneSpace onePage.memory] := by
  apply timer_conserved 1 1 0 true (by decide) (by decide) (by decide)
  have htakes : ∀ value, (vmCopyToUser oneSpace vmUserBase (leBytes 8 value) onePage.memory).1 = true :=
    fun value => oneSpace_takes _ (by rw [length_leBytes]; decide)
  refine ⟨trivial, fun _ _ _ => ⟨htakes, ?_⟩, trivial, fun _ _ _ => ⟨htakes, ?_⟩, trivial⟩
  · decide +kernel
  · decide +kernel

/-- **A read that faults loses expirations**: the timer is due at tick 1 and read to an address without
a page, and the next read delivers one of the two expirations. -/
theorem timer_fault_loses :
    let r := [.clock 1, .read 0 8 oneSpace onePage.memory, .clock 2].foldl TimerRun.step
      ⟨0, ⟨true, 1, 1⟩, 0⟩
    r.result vmUserBase 8 oneSpace onePage.memory = .ok 8 ∧
      (r.step (.read vmUserBase 8 oneSpace onePage.memory)).delivered ≠ 1 + (r.ticks - 1) / 1 := by
  decide +kernel

end NovaOS.Process
