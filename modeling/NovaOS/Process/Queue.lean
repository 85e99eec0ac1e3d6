import NovaOS.Lib.Ring
import NovaOS.Process.State
import NovaOS.Vm.Copies
import NovaOS.Vm.World

/-!
# The byte queues of pipes and socket pairs

An `IpcQueue` is a circular buffer of 4096 bytes.  `queue_write_user` and `queue_read_user` move bytes
between it and user memory in chunks of 256, and a chunk whose user copy fails ends the call with
`EFAULT`.

* `QueueOk` — the representation invariant; `queued` is the sequence of bytes it stands for;
* `queueWriteLoop_spec`, `queueReadLoop_spec` — on a user buffer that can be copied in full the loops
  append to the sequence and take from its front;
* `queue_faults_keep` — the invariant over runs, and `EFAULT` without effect, as long as no user copy
  fails after something was moved.

The condition is needed: `queue_read_user` moves `read_offset` before it copies, and `count` only
after, and a chunk that was queued stays queued when a later one fails
(`queue_read_fault_breaks`).
-/

namespace NovaOS.Process

open NovaOS.Vm List

/-- The inner loop of `queue_write_user`: a chunk goes into the buffer. -/
def pushBytes (queue : IpcQueue) : List UInt8 → IpcQueue
  | [] => queue
  | byte :: rest =>
    pushBytes { queue with
      data := Function.update queue.data queue.writeOffset byte
      writeOffset := (queue.writeOffset + 1) % 4096 } rest

/-- The inner loop of `queue_read_user`: a chunk comes out of the buffer. -/
def popBytes : ℕ → IpcQueue → List UInt8 × IpcQueue
  | 0, queue => ([], queue)
  | chunk + 1, queue =>
    match popBytes chunk { queue with readOffset := (queue.readOffset + 1) % 4096 } with
    | (rest, next) => (queue.data queue.readOffset :: rest, next)

/-- The loop of `queue_write_user`; every round moves at least one byte.  The result is `false` when
a user copy failed. -/
def queueWriteLoop (s : VmSpace) (m : Memory) : ℕ → ℕ → ℕ → IpcQueue → Bool × IpcQueue
  | 0, _, remaining, queue => (remaining = 0, queue)
  | fuel + 1, source, remaining, queue =>
    if remaining = 0 then (true, queue)
    else
      let chunk := min remaining 256
      match vmCopyFromUser s source chunk m with
      | none => (false, queue)
      | some buffer =>
        let queue := pushBytes queue buffer
        queueWriteLoop s m fuel ((source + chunk) % 2 ^ 64) (remaining - chunk)
          { queue with count := (queue.count + chunk) % 2 ^ 32 }

/-- `queue_write_user`. -/
def queueWriteUser (s : VmSpace) (m : Memory) (queue : IpcQueue) (source count : ℕ) :
    Except Errno ℕ × IpcQueue :=
  if count = 0 then (.ok 0, queue)
  else
    let available := (4096 + 2 ^ 32 - queue.count) % 2 ^ 32
    if available = 0 then (.error .again, queue)
    else
      let count := min count available
      match queueWriteLoop s m count source count queue with
      | (true, queue) => (.ok count, queue)
      | (false, queue) => (.error .fault, queue)

/-- The loop of `queue_read_user`. -/
def queueReadLoop : ℕ → VmSpace → Memory → ℕ → ℕ → IpcQueue → Bool × IpcQueue × VmSpace × Memory
  | 0, s, m, _, remaining, queue => (remaining = 0, queue, s, m)
  | fuel + 1, s, m, destination, remaining, queue =>
    if remaining = 0 then (true, queue, s, m)
    else
      let chunk := min remaining 256
      match popBytes chunk queue with
      | (buffer, queue) =>
        match vmCopyToUser s destination buffer m with
        | (false, s, m) => (false, queue, s, m)
        | (true, s, m) =>
          queueReadLoop fuel s m ((destination + chunk) % 2 ^ 64) (remaining - chunk)
            { queue with count := (queue.count + 2 ^ 32 - chunk) % 2 ^ 32 }

/-- `queue_read_user`. -/
def queueReadUser (s : VmSpace) (m : Memory) (queue : IpcQueue) (destination count : ℕ) :
    Except Errno ℕ × IpcQueue × VmSpace × Memory :=
  if count = 0 then (.ok 0, queue, s, m)
  else if queue.count = 0 then (.error .again, queue, s, m)
  else
    let count := min count queue.count
    match queueReadLoop count s m destination count queue with
    | (true, queue, s, m) => (.ok count, queue, s, m)
    | (false, queue, s, m) => (.error .fault, queue, s, m)

/-! ### The invariant -/

/-- The representation invariant of a queue. -/
structure QueueOk (queue : IpcQueue) : Prop where
  count : queue.count ≤ 4096
  read : queue.readOffset < 4096
  write : queue.writeOffset = (queue.readOffset + queue.count) % 4096

/-- The bytes a queue holds, oldest first. -/
def queued (queue : IpcQueue) : List UInt8 := ringList 4096 queue.data queue.readOffset queue.count

theorem queueOk_zero : QueueOk IpcQueue.zero := ⟨Nat.zero_le _, by decide, rfl⟩

theorem pushBytes_eq (queue : IpcQueue) (bytes : List UInt8) (h : queue.writeOffset < 4096) :
    pushBytes queue bytes =
      { queue with
        data := ringWrite 4096 queue.data queue.writeOffset bytes
        writeOffset := (queue.writeOffset + bytes.length) % 4096 } := by
  induction bytes generalizing queue with
  | nil =>
    rw [pushBytes, ringWrite, length_nil, Nat.add_zero, Nat.mod_eq_of_lt h]
  | cons byte rest ih =>
    rw [pushBytes, ih _ (Nat.mod_lt _ (by omega)), ringWrite, length_cons, Nat.mod_add_mod,
      Nat.add_assoc, Nat.add_comm 1]

theorem popBytes_eq (chunk : ℕ) (queue : IpcQueue) (h : queue.readOffset < 4096) :
    popBytes chunk queue =
      (ringList 4096 queue.data queue.readOffset chunk,
        { queue with readOffset := (queue.readOffset + chunk) % 4096 }) := by
  induction chunk generalizing queue with
  | zero =>
    rw [popBytes, Nat.add_zero, Nat.mod_eq_of_lt h]
    rfl
  | succ chunk ih =>
    have hfirst : ringList 4096 queue.data queue.readOffset 1 = [queue.data queue.readOffset] := by
      show [queue.data ((queue.readOffset + 0) % 4096)] = _
      rw [Nat.add_zero, Nat.mod_eq_of_lt h]
    rw [popBytes, ih _ (Nat.mod_lt _ (by omega)), Nat.add_comm chunk 1, ringList_add, hfirst]
    simp only [Nat.mod_add_mod, Nat.add_assoc, cons_append, nil_append]

theorem QueueOk.push {queue : IpcQueue} (h : QueueOk queue) (bytes : List UInt8)
    (hroom : queue.count + bytes.length ≤ 4096) :
    let next := { pushBytes queue bytes with
      count := ((pushBytes queue bytes).count + bytes.length) % 2 ^ 32 }
    QueueOk next ∧ next.count = queue.count + bytes.length ∧
      queued next = queued queue ++ bytes := by
  have hwrite : queue.writeOffset < 4096 := by
    rw [h.write]
    exact Nat.mod_lt _ (by omega)
  have hcount : (queue.count + bytes.length) % 2 ^ 32 = queue.count + bytes.length :=
    Nat.mod_eq_of_lt (by omega)
  intro next
  simp only [next, pushBytes_eq queue bytes hwrite, hcount]
  refine ⟨⟨hroom, h.read, ?_⟩, trivial, ?_⟩
  · rw [h.write, Nat.mod_add_mod, Nat.add_assoc]
  · show ringList 4096 (ringWrite 4096 queue.data queue.writeOffset bytes) queue.readOffset
      (queue.count + bytes.length) = _
    rw [h.write, ringList_ringWrite bytes hroom]
    rfl

theorem QueueOk.pop {queue : IpcQueue} (h : QueueOk queue) {chunk : ℕ}
    (hle : chunk ≤ queue.count) :
    let next := { (popBytes chunk queue).2 with
      count := ((popBytes chunk queue).2.count + 2 ^ 32 - chunk) % 2 ^ 32 }
    QueueOk next ∧ next.count = queue.count - chunk ∧
      queued queue = (popBytes chunk queue).1 ++ queued next := by
  have hcount : (queue.count + 2 ^ 32 - chunk) % 2 ^ 32 = queue.count - chunk := by
    have := h.count
    omega
  intro next
  simp only [next, popBytes_eq chunk queue h.read, hcount]
  refine ⟨⟨?_, Nat.mod_lt _ (by omega), ?_⟩, trivial, ?_⟩
  · show queue.count - chunk ≤ 4096
    have := h.count
    omega
  · rw [h.write, Nat.mod_add_mod, Nat.add_assoc, Nat.add_sub_cancel' hle]
  · show ringList 4096 queue.data queue.readOffset queue.count = _ ++
      ringList 4096 queue.data ((queue.readOffset + chunk) % 4096) (queue.count - chunk)
    rw [← ringList_add, Nat.add_sub_cancel' hle]

/-! ### The calls on a buffer that can be copied -/

theorem queueWriteLoop_spec (s : VmSpace) (m : Memory) (fuel source remaining : ℕ)
    (queue : IpcQueue) (h : QueueOk queue) (hroom : queue.count + remaining ≤ 4096)
    (hfuel : remaining ≤ fuel) (hsource : source < 2 ^ 64)
    {bytes : List UInt8} (hcopy : vmCopyFromUser s source remaining m = some bytes) :
    ∃ next, queueWriteLoop s m fuel source remaining queue = (true, next) ∧ QueueOk next ∧
      queued next = queued queue ++ bytes := by
  induction fuel generalizing source remaining queue bytes with
  | zero =>
    obtain rfl : remaining = 0 := by omega
    cases hcopy
    exact ⟨queue, rfl, h, (append_nil _).symm⟩
  | succ fuel ih =>
    rw [queueWriteLoop]
    by_cases hr : remaining = 0
    · subst hr
      cases hcopy
      exact ⟨queue, if_pos rfl, h, (append_nil _).symm⟩
    · rw [if_neg hr]
      obtain ⟨hpos, hle⟩ : 0 < min remaining 256 ∧ min remaining 256 ≤ remaining := by omega
      simp only
      generalize min remaining 256 = chunk at hpos hle ⊢
      obtain ⟨rest, rfl⟩ := Nat.exists_eq_add_of_le hle
      rw [vmCopyFromUser_add s source chunk rest m hsource] at hcopy
      obtain ⟨buffer, hbuffer, hrest⟩ := Option.bind_eq_some_iff.1 hcopy
      obtain ⟨tail, htail, rfl⟩ := Option.map_eq_some_iff.1 hrest
      have hlen := length_of_vmCopyFromUser hbuffer
      obtain ⟨hok, hcount, hqueued⟩ := h.push buffer (by omega)
      rw [hbuffer, Nat.add_sub_cancel_left]
      rw [hlen] at hok hcount hqueued
      obtain ⟨next, hrun, hok', hqueued'⟩ := ih _ rest _ hok (by rw [hcount]; omega) (by omega)
        (Nat.mod_lt _ (by omega)) htail
      exact ⟨next, hrun, hok', by rw [hqueued', hqueued, append_assoc]⟩

theorem queueReadLoop_spec (fuel : ℕ) (s : VmSpace) (m : Memory) (destination remaining : ℕ)
    (queue : IpcQueue) (h : QueueOk queue) (hle : remaining ≤ queue.count)
    (hfuel : remaining ≤ fuel) (hdestination : destination < 2 ^ 64)
    (hcopy : (vmCopyToUser s destination ((queued queue).take remaining) m).1 = true) :
    ∃ next s' m', queueReadLoop fuel s m destination remaining queue = (true, next, s', m') ∧
      QueueOk next ∧ queued next = (queued queue).drop remaining ∧
      vmCopyToUser s destination ((queued queue).take remaining) m = (true, s', m') := by
  induction fuel generalizing s m destination remaining queue with
  | zero =>
    obtain rfl : remaining = 0 := by omega
    exact ⟨queue, s, m, rfl, h, rfl, rfl⟩
  | succ fuel ih =>
    rw [queueReadLoop]
    by_cases hr : remaining = 0
    · subst hr
      exact ⟨queue, s, m, if_pos rfl, h, rfl, rfl⟩
    · rw [if_neg hr]
      obtain ⟨hpos, hchunk⟩ : 0 < min remaining 256 ∧ min remaining 256 ≤ remaining := by omega
      simp only
      generalize min remaining 256 = chunk at hpos hchunk ⊢
      obtain ⟨rest, rfl⟩ := Nat.exists_eq_add_of_le hchunk
      obtain ⟨hok, hcount, hqueued⟩ := h.pop (show chunk ≤ queue.count by omega)
      have hlen : (popBytes chunk queue).1.length = chunk := by
        rw [popBytes_eq chunk queue h.read, length_ringList]
      generalize popBytes chunk queue = r at hok hcount hqueued hlen ⊢
      obtain ⟨buffer, next⟩ := r
      simp only at hok hcount hqueued hlen ⊢
      rw [hqueued, take_append, hlen, Nat.add_sub_cancel_left,
        take_of_length_le (by omega), vmCopyToUser_append _ _ _ _ _ hdestination] at hcopy ⊢
      rcases hc : vmCopyToUser s destination buffer m with ⟨_ | _, s', m'⟩
      · rw [hc] at hcopy
        cases hcopy
      · rw [hc, hlen] at hcopy
        rw [hlen]
        have hrest : rest ≤ (next.count + 2 ^ 32 - chunk) % 2 ^ 32 := by
          rw [hcount]
          omega
        obtain ⟨last, s₂, m₂, hrun, hok', hqueued', hcopied⟩ := ih s' m' _ rest _ hok hrest (by omega)
          (Nat.mod_lt _ (by omega)) hcopy
        refine ⟨last, s₂, m₂, hrun, hok', ?_, hcopied⟩
        have hbuffer : buffer.drop (chunk + rest) = [] := drop_of_length_le (by omega)
        rw [hqueued', drop_append, hlen, Nat.add_sub_cancel_left, hbuffer, nil_append]

/-! ### Runs -/

/-- A call on a queue, in whatever state the caller's memory is. -/
inductive QueueCall
  | write (s : VmSpace) (m : Memory) (source count : ℕ)
  | read (s : VmSpace) (m : Memory) (destination count : ℕ)

def IpcQueue.step (queue : IpcQueue) : QueueCall → Except Errno ℕ × IpcQueue
  | .write s m source count => queueWriteUser s m queue (source % 2 ^ 64) count
  | .read s m destination count =>
    match queueReadUser s m queue (destination % 2 ^ 64) count with
    | (result, queue, _, _) => (result, queue)

def IpcQueue.run (queue : IpcQueue) : List QueueCall → IpcQueue
  | [] => queue
  | call :: calls => (queue.step call).2.run calls

/-- No user copy fails after something was moved: the bytes to write can all be read, or already the
first chunk cannot; the bytes to read can all be stored. -/
def NoLateFault (queue : IpcQueue) : QueueCall → Prop
  | .write s m source count =>
    let total := min count (4096 - queue.count)
    (vmCopyFromUser s (source % 2 ^ 64) total m).isSome = true ∨
      vmCopyFromUser s (source % 2 ^ 64) (min total 256) m = none
  | .read s m destination count =>
    (vmCopyToUser s (destination % 2 ^ 64) ((queued queue).take (min count queue.count)) m).1 = true

def IpcQueue.NoLateFaults (queue : IpcQueue) : List QueueCall → Prop
  | [] => True
  | call :: calls => NoLateFault queue call ∧ (queue.step call).2.NoLateFaults calls

/-- **A call without a late fault** keeps the invariant, and leaves the bytes when it faults. -/
theorem QueueOk.step {queue : IpcQueue} (h : QueueOk queue) {call : QueueCall}
    (hcall : NoLateFault queue call) :
    QueueOk (queue.step call).2 ∧
      ((queue.step call).1 = .error .fault → queued (queue.step call).2 = queued queue) := by
  cases call with
  | write s m source count =>
    have hcount := h.count
    rw [IpcQueue.step, queueWriteUser]
    split
    · exact ⟨h, fun _ => rfl⟩
    rw [show (4096 + 2 ^ 32 - queue.count) % 2 ^ 32 = 4096 - queue.count by
      omega]
    simp only
    split
    · exact ⟨h, fun _ => rfl⟩
    rcases hcall with hall | hfirst
    · obtain ⟨bytes, hbytes⟩ := Option.isSome_iff_exists.1 hall
      obtain ⟨next, hrun, hok, -⟩ := queueWriteLoop_spec s m _ (source % 2 ^ 64) _ queue h
        (show queue.count + min count (4096 - queue.count) ≤ 4096 by omega) (Nat.le_refl _)
        (Nat.mod_lt _ (by omega)) hbytes
      rw [hrun]
      exact ⟨hok, nofun⟩
    · -- the first chunk fails, and nothing has been moved
      have hrun : queueWriteLoop s m (min count (4096 - queue.count)) (source % 2 ^ 64)
          (min count (4096 - queue.count)) queue = (false, queue) := by
        obtain ⟨k, hk⟩ : ∃ k, min count (4096 - queue.count) = k + 1 :=
          ⟨min count (4096 - queue.count) - 1, by omega⟩
        rw [hk] at hfirst ⊢
        rw [queueWriteLoop, if_neg (by omega)]
        simp only [hfirst]
      rw [hrun]
      exact ⟨h, fun _ => rfl⟩
  | read s m destination count =>
    rw [IpcQueue.step, queueReadUser]
    by_cases hzero : count = 0
    · rw [if_pos hzero]
      exact ⟨h, fun _ => rfl⟩
    rw [if_neg hzero]
    by_cases hempty : queue.count = 0
    · rw [if_pos hempty]
      exact ⟨h, fun _ => rfl⟩
    rw [if_neg hempty]
    obtain ⟨next, s', m', hrun, hok, -, -⟩ := queueReadLoop_spec _ s m (destination % 2 ^ 64) _ queue h
      (Nat.min_le_right count queue.count) (Nat.le_refl _) (Nat.mod_lt _ (by omega)) hcall
    simp only [hrun]
    exact ⟨hok, nofun⟩

theorem QueueOk.run {queue : IpcQueue} (h : QueueOk queue) (calls : List QueueCall)
    (hcalls : queue.NoLateFaults calls) : QueueOk (queue.run calls) := by
  induction calls generalizing queue with
  | nil => exact h
  | cons call calls ih => exact ih (h.step hcalls.1).1 hcalls.2

/-- **The queue invariant.**  In every run of calls without a late fault the count is at most 4096,
the write offset is the read offset plus the count, and a call that returns `EFAULT` leaves the queued
bytes as they were. -/
theorem queue_faults_keep (calls : List QueueCall)
    (hcalls : IpcQueue.zero.NoLateFaults calls) :
    let queue := IpcQueue.zero.run calls
    queue.count ≤ 4096 ∧ queue.writeOffset = (queue.readOffset + queue.count) % 4096 ∧
      ∀ call, NoLateFault queue call → (queue.step call).1 = .error .fault →
        queued (queue.step call).2 = queued queue := by
  have hok := queueOk_zero.run calls hcalls
  exact ⟨hok.count, hok.write, fun call hcall => (hok.step hcall).2⟩

/-- One writable user page. -/
def onePage : World :=
  (World.initial stridedChoices fun _ _ => 0).run [.create, .mapPage 0 vmUserBase 3]

/-- The space of `onePage`. -/
def oneSpace : VmSpace := (onePage.spaces 0).getD VmSpace.zero

/-- The page takes whatever is stored at its start. -/
theorem oneSpace_takes (bytes : List UInt8) (h : bytes.length ≤ 4096) :
    (vmCopyToUser oneSpace vmUserBase bytes onePage.memory).1 = true := by
  by_cases hne : bytes = []
  · rw [hne]
    rfl
  · have hfind : findPage oneSpace vmUserBase = some 0 := by decide +kernel
    rw [vmCopyToUser_of_page hne hfind (by decide +kernel) (by decide +kernel)
      (show 0 + bytes.length ≤ 4096 by omega)]

/-- A byte is queued, and a write from an address without a page faults with no effect. -/
theorem queue_faults_keep_unmapped :
    let queue := IpcQueue.zero.run [.write oneSpace onePage.memory vmUserBase 1]
    (queue.step (.write oneSpace onePage.memory 0 1)).1 = .error .fault ∧
      queued (queue.step (.write oneSpace onePage.memory 0 1)).2 = [0] := by
  intro queue
  have hfirst : NoLateFault IpcQueue.zero (.write oneSpace onePage.memory vmUserBase 1) := by
    left
    decide +kernel
  have hcall : NoLateFault queue (.write oneSpace onePage.memory 0 1) := by
    right
    decide +kernel
  have hfault : (queue.step (.write oneSpace onePage.memory 0 1)).1 = .error .fault := by
    decide +kernel
  refine ⟨hfault, ?_⟩
  rw [(queue_faults_keep [.write oneSpace onePage.memory vmUserBase 1] ⟨hfirst, trivial⟩).2.2
    (.write oneSpace onePage.memory 0 1) hcall hfault]
  decide +kernel

/-- **A read that faults breaks the invariant**: one byte is queued and read to an address without a
page. -/
theorem queue_read_fault_breaks :
    let queue := IpcQueue.zero.run [.write oneSpace onePage.memory vmUserBase 1]
    let r := queue.step (.read oneSpace onePage.memory 0 1)
    r.1 = .error .fault ∧ r.2.writeOffset ≠ (r.2.readOffset + r.2.count) % 4096 := by
  decide +kernel

end NovaOS.Process
