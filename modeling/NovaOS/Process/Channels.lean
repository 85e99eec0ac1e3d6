import NovaOS.Process.Io

/-!
# Pipes and socket pairs are channels

Any number of processes may hold descriptors for the same pipe or the same end of a socket pair, and
each call comes with the caller's own descriptors, address space and memory as they are then.  What
the calls have in common are the objects.

A run keeps two logs for each queue: the bytes that writes have accepted, and the bytes that reads
have taken out.

* `linuxRead_queue`, `linuxWriteFile_queue` — a call on a queue is one of `queue_read_user` and
  `queue_write_user`; `linuxRead_other`, `linuxWriteFile_other` — the other calls leave the queues
  alone;
* `ChannelOk` — the invariant: the queue is well formed and the logs differ by what is queued;
* `channels_fifo` — in every run with mapped buffers.
-/

namespace NovaOS.Process

open NovaOS.Vm NovaOS.Fs Function List

/-! ### Calls on queues -/

/-- The queue a read of a descriptor takes from. -/
def Caller.readQueue (c : Caller) (descriptor : ℕ) : Option QueueRef :=
  if c.has descriptor then descriptorReadQueue c.objects (c.process.descriptors descriptor) else none

/-- The queue a write to a descriptor goes to. -/
def Caller.writeQueue (c : Caller) (descriptor : ℕ) : Option QueueRef :=
  if c.has descriptor then descriptorWriteQueue c.objects (c.process.descriptors descriptor) else none

section Calls

variable {c : Caller} {descriptor buffer count : ℕ} {ref ref' : QueueRef} {objects : Objects}
  {queue : IpcQueue}

theorem Objects.queue_setQueue_self : (objects.setQueue queue ref).queue ref = queue := by
  cases ref with
  | pipe object =>
    show (update objects.pipes object _ object).queue = queue
    rw [update_self]
  | incoming object endpoint =>
    show (update objects.socketPairs object _ object).incoming endpoint = queue
    rw [update_self]
    exact update_self ..

theorem Objects.queue_setQueue_of_ne (h : ref' ≠ ref) :
    (objects.setQueue queue ref).queue ref' = objects.queue ref' := by
  cases ref with
  | pipe object =>
    cases ref' with
    | pipe object' =>
      have hne : object' ≠ object := fun heq => h (heq ▸ rfl)
      show (update objects.pipes object _ object').queue = _
      rw [update_of_ne hne]
      rfl
    | incoming object' endpoint' => rfl
  | incoming object endpoint =>
    cases ref' with
    | pipe object' => rfl
    | incoming object' endpoint' =>
      show (update objects.socketPairs object _ object').incoming endpoint' =
        (objects.socketPairs object').incoming endpoint'
      by_cases hobject : object' = object
      · subst hobject
        have hne : endpoint' ≠ endpoint := fun heq => h (heq ▸ rfl)
        rw [update_self]
        exact update_of_ne hne _ _
      · rw [update_of_ne hobject]

theorem type_of_readQueue {file : FileDescriptor} (h : descriptorReadQueue objects file = some ref) :
    file.type ≠ .memfd ∧ file.type ≠ .eventfd ∧ file.type ≠ .timerfd := by
  unfold descriptorReadQueue at h
  split at h
  · rename_i hpipe
    rw [hpipe.1]
    decide
  · split at h
    · rename_i hsocket
      rw [hsocket.1]
      decide
    · cases h

theorem type_of_writeQueue {file : FileDescriptor} (h : descriptorWriteQueue objects file = some ref) :
    file.type ≠ .memfd ∧ file.type ≠ .eventfd := by
  unfold descriptorWriteQueue at h
  split at h
  · rename_i hpipe
    rw [hpipe.1]
    decide
  · split at h
    · rename_i hsocket
      rw [hsocket.1]
      decide
    · cases h

theorem Caller.memfd_of_type (h : (c.process.descriptors descriptor).type ≠ .memfd) :
    c.memfd descriptor = none := by
  exact if_neg fun hmemfd => h hmemfd.1

theorem linuxRead_queue (h : c.readQueue descriptor = some ref) :
    linuxRead c descriptor buffer count =
      match queueReadUser c.vm c.memory (c.objects.queue ref) buffer count with
      | (result, queue, vm, memory) =>
        (result, { c with vm := vm, memory := memory, objects := c.objects.setQueue queue ref }) := by
  unfold Caller.readQueue at h
  split at h
  · rename_i hhas
    obtain ⟨hmemfd, hevent, htimer⟩ := type_of_readQueue h
    rw [linuxRead, hhas, Caller.memfd_of_type hmemfd]
    simp only [Bool.not_true, Bool.false_eq_true, if_false, if_neg hevent, if_neg htimer, h]
  · cases h

theorem linuxWriteFile_queue (h : c.writeQueue descriptor = some ref) :
    linuxWriteFile c descriptor buffer count =
      match queueWriteUser c.vm c.memory (c.objects.queue ref) buffer count with
      | (result, queue) => (result, { c with objects := c.objects.setQueue queue ref }) := by
  unfold Caller.writeQueue at h
  split at h
  · rename_i hhas
    obtain ⟨hmemfd, hevent⟩ := type_of_writeQueue h
    rw [linuxWriteFile, hhas, Caller.memfd_of_type hmemfd]
    simp only [Bool.not_true, Bool.false_eq_true, if_false, if_neg hevent, h]
  · cases h

theorem finishTransfer_objects (descriptor : ℕ) (r : (Bool × ℕ) × Caller) :
    (finishTransfer descriptor r).2.objects = r.2.objects := by
  obtain ⟨⟨ok, completed⟩, c⟩ := r
  cases ok with
  | false => rfl
  | true => rfl

theorem linuxRead_other (h : c.readQueue descriptor = none) (ref : QueueRef) :
    (linuxRead c descriptor buffer count).2.objects.queue ref = c.objects.queue ref := by
  unfold Caller.readQueue at h
  rw [linuxRead]
  split
  · rfl
  rename_i hhas
  rw [if_pos (by simpa using hhas)] at h
  simp only
  split
  · rfl
  split
  · -- an event counter
    rw [eventRead]
    split
    · rfl
    split
    · rfl
    split
    · rename_i hcopy
      rw [(Caller.copyTo_keeps hcopy).2.1]
    · rename_i hcopy
      rw [← (Caller.copyTo_keeps hcopy).2.1]
      rfl
  split
  · rw [timerRead]
    split
    · rfl
    · rfl
  rw [h]
  simp only
  split
  · rfl
  split
  · rfl
  split
  · rfl
  · rw [finishTransfer_objects, (fileReadLoop_keeps ..).2.1]

theorem linuxWriteFile_other (h : c.writeQueue descriptor = none) (ref : QueueRef) :
    (linuxWriteFile c descriptor buffer count).2.objects.queue ref = c.objects.queue ref := by
  unfold Caller.writeQueue at h
  rw [linuxWriteFile]
  split
  · rfl
  rename_i hhas
  rw [if_pos (by simpa using hhas)] at h
  simp only
  split
  · rfl
  split
  · rw [eventWrite]
    simp only
    split
    · rfl
    split
    · rfl
    split
    · rfl
    split
    · rfl
    · rfl
  rw [h]
  simp only
  split
  · rfl
  · rw [finishTransfer_objects, (fileWriteLoop_keeps ..).2.2.1]
    split
    · rfl
    · rfl

end Calls

/-! ### Queues and mapped buffers -/

section Buffers

variable {s : VmSpace} {m : Memory} {address size n : ℕ} {queue : IpcQueue}

/-- **`queue_write_user`** of a readable buffer: what fits is queued behind the rest. -/
theorem queueWriteUser_spec (h : QueueOk queue) (haddress : address < 2 ^ 64)
    (hreadable : Readable s m address size) :
    (∃ bytes next, vmCopyFromUser s address (min size (4096 - queue.count)) m = some bytes ∧
      queueWriteUser s m queue address size = (.ok (min size (4096 - queue.count)), next) ∧
      QueueOk next ∧ queued next = queued queue ++ bytes) ∨
    queueWriteUser s m queue address size = (.error .again, queue) := by
  have hcount := h.count
  have hroom : (4096 + 2 ^ 32 - queue.count) % 2 ^ 32 = 4096 - queue.count := by omega
  rw [queueWriteUser]
  by_cases hzero : size = 0
  · left
    rw [if_pos hzero, hzero, zero_min]
    exact ⟨[], queue, rfl, rfl, h, (append_nil _).symm⟩
  rw [if_neg hzero, hroom]
  simp only
  by_cases hfull : 4096 - queue.count = 0
  · right
    rw [if_pos hfull]
  · left
    rw [if_neg hfull]
    obtain ⟨bytes, hbytes⟩ := hreadable.mono haddress (min_le_left size (4096 - queue.count))
    obtain ⟨next, hrun, hok, hqueued⟩ := queueWriteLoop_spec s m _ address _ queue h
      (show queue.count + min size (4096 - queue.count) ≤ 4096 by omega) (le_refl _)
      haddress hbytes
    rw [hrun]
    exact ⟨bytes, next, hbytes, rfl, hok, hqueued⟩

theorem length_queued : (queued queue).length = queue.count := length_ringList ..

/-- **`queue_read_user`** into a writable buffer: it gets the first bytes of the queue. -/
theorem queueReadUser_spec (h : QueueOk queue) (haddress : address < 2 ^ 64)
    (hwritable : Writable s m address size) :
    (∃ next s' m',
      queueReadUser s m queue address size = (.ok (min size queue.count), next, s', m') ∧
      QueueOk next ∧ queued next = (queued queue).drop (min size queue.count) ∧
      vmCopyToUser s address ((queued queue).take (min size queue.count)) m = (true, s', m')) ∨
    queueReadUser s m queue address size = (.error .again, queue, s, m) := by
  rw [queueReadUser]
  by_cases hzero : size = 0
  · left
    rw [if_pos hzero, hzero, zero_min]
    exact ⟨queue, s, m, rfl, h, rfl, rfl⟩
  rw [if_neg hzero]
  by_cases hempty : queue.count = 0
  · right
    rw [if_pos hempty]
  · left
    rw [if_neg hempty]
    have hcopy : (vmCopyToUser s address ((queued queue).take (min size queue.count)) m).1 = true := by
      apply hwritable.mono haddress
      rw [length_take]
      omega
    obtain ⟨next, s', m', hrun, hok, hqueued, hcopied⟩ := queueReadLoop_spec _ s m address _ queue h
      (min_le_right size queue.count) (le_refl _) haddress hcopy
    simp only [hrun]
    exact ⟨next, s', m', rfl, hok, hqueued, hcopied⟩

/-- The bytes that come out of a queue are its first ones. -/
theorem popBytes_queued (h : QueueOk queue) (hn : n ≤ queue.count) :
    (popBytes n queue).1 = (queued queue).take n := by
  obtain ⟨-, -, hqueued⟩ := h.pop hn
  have hlength : (popBytes n queue).1.length = n := by
    rw [popBytes_eq n queue h.read, length_ringList]
  rw [hqueued, take_append_of_le_length (le_of_eq hlength.symm),
    take_of_length_le (le_of_eq hlength)]

end Buffers

/-! ### Runs -/

/-- The objects, and for each queue the bytes that writes have accepted and reads have taken. -/
structure ChannelRun where
  objects : Objects
  written : QueueRef → List UInt8
  taken : QueueRef → List UInt8

/-- A system call of some process, with its descriptors, address space and memory as they are then. -/
inductive ChannelCall
  | read (c : Caller) (descriptor buffer count : ℕ)
  | write (c : Caller) (descriptor buffer count : ℕ)

namespace ChannelRun

variable (r : ChannelRun)

/-- The caller, with the objects of the run. -/
def enter (c : Caller) : Caller := { c with objects := r.objects }

/-- The call itself. -/
def perform : ChannelCall → Except Errno ℕ × Caller
  | .read c descriptor buffer count =>
    linuxRead (r.enter c) descriptor (buffer % 2 ^ 64) count
  | .write c descriptor buffer count =>
    linuxWriteFile (r.enter c) descriptor (buffer % 2 ^ 64) count

/-- The queue a call works on. -/
def queueOf : ChannelCall → Option QueueRef
  | .read c descriptor _ _ => (r.enter c).readQueue descriptor
  | .write c descriptor _ _ => (r.enter c).writeQueue descriptor

/-- The bytes a call that returned `n` has moved: what the inner loop of `queue_read_user` took out of
the buffer, and what the caller has at the address it wrote from. -/
def moved (ref : QueueRef) (n : ℕ) : ChannelCall → List UInt8
  | .read _ _ _ _ => (popBytes n (r.objects.queue ref)).1
  | .write c _ buffer _ => (vmCopyFromUser c.vm (buffer % 2 ^ 64) n c.memory).getD []

/-- A log after a call. -/
def log (call : ChannelCall) (before : QueueRef → List UInt8) : QueueRef → List UInt8 :=
  match r.queueOf call, (r.perform call).1 with
  | some ref, .ok n => update before ref (before ref ++ r.moved ref n call)
  | _, _ => before

def step (call : ChannelCall) : ChannelRun where
  objects := (r.perform call).2.objects
  written := match call with
    | .write _ _ _ _ => r.log call r.written
    | .read _ _ _ _ => r.written
  taken := match call with
    | .read _ _ _ _ => r.log call r.taken
    | .write _ _ _ _ => r.taken

/-- The user buffer of a call is mapped: a read can store there, a write can read it. -/
def BufferMapped : ChannelCall → Prop
  | .read c _ buffer count => Writable c.vm c.memory (buffer % 2 ^ 64) count
  | .write c _ buffer count => Readable c.vm c.memory (buffer % 2 ^ 64) count

/-- The queue is well formed, and what was written but not taken is queued. -/
structure ChannelOk (ref : QueueRef) : Prop where
  queue : QueueOk (r.objects.queue ref)
  fifo : r.taken ref ++ queued (r.objects.queue ref) = r.written ref

/-- A call that returns a number has moved that many bytes: a read has stored them in the caller's
buffer, a write has queued what the caller's buffer holds.  A call that fails has moved nothing. -/
def Counted (call : ChannelCall) : Prop :=
  ∀ ref, r.queueOf call = some ref →
    match (r.perform call).1 with
    | .ok n => (r.moved ref n call).length = n ∧
      match call with
      | .read c _ buffer _ => vmCopyToUser c.vm (buffer % 2 ^ 64) (r.moved ref n call) c.memory =
          (true, (r.perform call).2.vm, (r.perform call).2.memory)
      | .write c _ buffer _ => vmCopyFromUser c.vm (buffer % 2 ^ 64) n c.memory =
          some (r.moved ref n call)
    | .error _ => (r.perform call).2.objects.queue ref = r.objects.queue ref

/-- A call leaves every queue alone but its own. -/
def Separate (call : ChannelCall) : Prop :=
  ∀ ref, r.queueOf call ≠ some ref → (r.step call).objects.queue ref = r.objects.queue ref ∧
    (r.step call).written ref = r.written ref ∧ (r.step call).taken ref = r.taken ref

variable {r} {call : ChannelCall} {ref : QueueRef}

theorem log_of_ne (h : r.queueOf call ≠ some ref) (before : QueueRef → List UInt8) :
    r.log call before ref = before ref := by
  rw [log]
  cases hqueue : r.queueOf call with
  | none => rfl
  | some ref' =>
    have hne : ref ≠ ref' := fun heq => h (heq ▸ hqueue)
    cases (r.perform call).1 with
    | error e => rfl
    | ok n => exact update_of_ne hne _ _

theorem log_ok (hqueue : r.queueOf call = some ref) {n : ℕ} (hresult : (r.perform call).1 = .ok n)
    (before : QueueRef → List UInt8) :
    r.log call before ref = before ref ++ r.moved ref n call := by
  rw [log, hqueue, hresult]
  exact update_self ..

theorem log_error {e : Errno} (hresult : (r.perform call).1 = .error e)
    (before : QueueRef → List UInt8) : r.log call before = before := by
  rw [log, hresult]
  cases r.queueOf call with
  | none => rfl
  | some ref => rfl

theorem separate (r : ChannelRun) (call : ChannelCall) : r.Separate call := by
  intro ref h
  cases call with
  | read c descriptor buffer count =>
    refine ⟨?_, rfl, log_of_ne h _⟩
    show (linuxRead (r.enter c) descriptor (buffer % 2 ^ 64) count).2.objects.queue ref = _
    cases hqueue : (r.enter c).readQueue descriptor with
    | none => exact linuxRead_other hqueue ref
    | some ref' =>
      rw [linuxRead_queue hqueue]
      exact Objects.queue_setQueue_of_ne fun heq => h (heq ▸ hqueue)
  | write c descriptor buffer count =>
    refine ⟨?_, log_of_ne h _, rfl⟩
    show (linuxWriteFile (r.enter c) descriptor (buffer % 2 ^ 64) count).2.objects.queue ref = _
    cases hqueue : (r.enter c).writeQueue descriptor with
    | none => exact linuxWriteFile_other hqueue ref
    | some ref' =>
      rw [linuxWriteFile_queue hqueue]
      exact Objects.queue_setQueue_of_ne fun heq => h (heq ▸ hqueue)

theorem ChannelOk.failed (h : r.ChannelOk ref) {e : Errno} {c : Caller}
    (hqueue : r.queueOf call = some ref) (hperform : r.perform call = (.error e, c))
    (hkept : c.objects.queue ref = r.objects.queue ref) :
    (r.step call).ChannelOk ref ∧ r.Counted call := by
  have hresult := congrArg Prod.fst hperform
  have hsame : (r.perform call).2.objects.queue ref = r.objects.queue ref := by rwa [hperform]
  replace hsame : (r.step call).objects.queue ref = r.objects.queue ref := hsame
  refine ⟨⟨?_, ?_⟩, ?_⟩
  · rw [hsame]
    exact h.queue
  · rw [hsame]
    cases call with
    | read c descriptor buffer count =>
      show r.log _ r.taken ref ++ _ = r.written ref
      rw [log_error hresult]
      exact h.fifo
    | write c descriptor buffer count =>
      show r.taken ref ++ _ = r.log _ r.written ref
      rw [log_error hresult]
      exact h.fifo
  · intro ref' hqueue'
    obtain rfl : ref = ref' := Option.some.inj (hqueue.symm.trans hqueue')
    rw [hresult]
    exact hsame

theorem ChannelOk.read (h : r.ChannelOk ref) {c : Caller} {descriptor buffer count : ℕ}
    (hqueue : r.queueOf (.read c descriptor buffer count) = some ref)
    (hmapped : BufferMapped (.read c descriptor buffer count)) :
    (r.step (.read c descriptor buffer count)).ChannelOk ref ∧
      r.Counted (.read c descriptor buffer count) := by
  have hbuffer : buffer % 2 ^ 64 < 2 ^ 64 := Nat.mod_lt _ (by decide)
  have hperform : r.perform (.read c descriptor buffer count) = _ := linuxRead_queue hqueue
  have hspec := queueReadUser_spec h.queue hbuffer hmapped
  obtain ⟨next, s', m', hread, hok, hqueued, hcopied⟩ | hread := hspec
  · -- the first bytes of the queue are now in the buffer
    have hcall : queueReadUser (r.enter c).vm (r.enter c).memory ((r.enter c).objects.queue ref)
        (buffer % 2 ^ 64) count = _ := hread
    rw [hcall] at hperform
    have hresult := congrArg Prod.fst hperform
    have hmoved : r.moved ref (min count (r.objects.queue ref).count)
        (.read c descriptor buffer count) =
        (queued (r.objects.queue ref)).take (min count (r.objects.queue ref).count) :=
      popBytes_queued h.queue (min_le_right ..)
    have hnext : (r.step (.read c descriptor buffer count)).objects.queue ref = next := by
      show (r.perform (.read c descriptor buffer count)).2.objects.queue ref = next
      rw [hperform]
      exact Objects.queue_setQueue_self
    refine ⟨⟨?_, ?_⟩, ?_⟩
    · rw [hnext]
      exact hok
    · show r.log _ r.taken ref ++ queued _ = r.written ref
      rw [log_ok hqueue hresult, hmoved, hnext, hqueued, append_assoc, take_append_drop]
      exact h.fifo
    · intro ref' hqueue'
      obtain rfl : ref = ref' := Option.some.inj (hqueue.symm.trans hqueue')
      rw [hresult]
      refine ⟨?_, ?_⟩
      · rw [hmoved, length_take, length_queued]
        omega
      · rw [hmoved, hperform]
        exact hcopied
  · -- the queue is empty
    have hcall : queueReadUser (r.enter c).vm (r.enter c).memory ((r.enter c).objects.queue ref)
        (buffer % 2 ^ 64) count = _ := hread
    rw [hcall] at hperform
    exact h.failed hqueue hperform Objects.queue_setQueue_self

theorem ChannelOk.write (h : r.ChannelOk ref) {c : Caller} {descriptor buffer count : ℕ}
    (hqueue : r.queueOf (.write c descriptor buffer count) = some ref)
    (hmapped : BufferMapped (.write c descriptor buffer count)) :
    (r.step (.write c descriptor buffer count)).ChannelOk ref ∧
      r.Counted (.write c descriptor buffer count) := by
  have hbuffer : buffer % 2 ^ 64 < 2 ^ 64 := Nat.mod_lt _ (by decide)
  have hperform : r.perform (.write c descriptor buffer count) = _ := linuxWriteFile_queue hqueue
  have hspec := queueWriteUser_spec h.queue hbuffer hmapped
  obtain ⟨bytes, next, hbytes, hwrite, hok, hqueued⟩ | hwrite := hspec
  · have hcall : queueWriteUser (r.enter c).vm (r.enter c).memory ((r.enter c).objects.queue ref)
        (buffer % 2 ^ 64) count = _ := hwrite
    rw [hcall] at hperform
    have hresult := congrArg Prod.fst hperform
    have hmoved : r.moved ref (min count (4096 - (r.objects.queue ref).count))
        (.write c descriptor buffer count) = bytes := by
      rw [moved, hbytes]
      rfl
    have hnext : (r.perform (.write c descriptor buffer count)).2.objects.queue ref = next := by
      rw [hperform]
      exact Objects.queue_setQueue_self
    refine ⟨⟨?_, ?_⟩, ?_⟩
    · show QueueOk ((r.perform (.write c descriptor buffer count)).2.objects.queue ref)
      rw [hnext]
      exact hok
    · show r.taken ref ++ queued ((r.perform (.write c descriptor buffer count)).2.objects.queue ref) =
        r.log _ r.written ref
      rw [log_ok hqueue hresult, hmoved, hnext, hqueued, ← append_assoc, h.fifo]
    · intro ref' hqueue'
      obtain rfl : ref = ref' := Option.some.inj (hqueue.symm.trans hqueue')
      rw [hresult]
      refine ⟨?_, ?_⟩
      · rw [hmoved]
        exact length_of_vmCopyFromUser hbytes
      · rw [hmoved]
        exact hbytes
  · -- the queue is full
    have hcall : queueWriteUser (r.enter c).vm (r.enter c).memory ((r.enter c).objects.queue ref)
        (buffer % 2 ^ 64) count = _ := hwrite
    rw [hcall] at hperform
    exact h.failed hqueue hperform Objects.queue_setQueue_self

/-- **Every call with a mapped buffer keeps the channels.** -/
theorem ChannelOk.step (h : ∀ ref, r.ChannelOk ref) (hmapped : BufferMapped call) (ref : QueueRef) :
    (r.step call).ChannelOk ref := by
  by_cases hqueue : r.queueOf call = some ref
  · cases call with
    | read c descriptor buffer count => exact ((h ref).read hqueue hmapped).1
    | write c descriptor buffer count => exact ((h ref).write hqueue hmapped).1
  · obtain ⟨hsame, hwritten, htaken⟩ := r.separate call ref hqueue
    refine ⟨?_, ?_⟩
    · rw [hsame]
      exact (h ref).queue
    · rw [hsame, hwritten, htaken]
      exact (h ref).fifo

theorem ChannelOk.counted (h : ∀ ref, r.ChannelOk ref) (hmapped : BufferMapped call) :
    r.Counted call := by
  intro ref hqueue
  cases call with
  | read c descriptor buffer count => exact ((h ref).read hqueue hmapped).2 ref hqueue
  | write c descriptor buffer count => exact ((h ref).write hqueue hmapped).2 ref hqueue

end ChannelRun

/-- A socket writes to the queue the other end reads, and reads from another one. -/
def Objects.Directions (objects : Objects) : Prop :=
  ∀ file ref, file.type = .unixSocket → descriptorReadQueue objects file = some ref →
    ∃ ref', descriptorWriteQueue objects file = some ref' ∧ ref' ≠ ref ∧
      descriptorReadQueue objects { file with endpoint := 1 - file.endpoint } = some ref' ∧
      descriptorWriteQueue objects { file with endpoint := 1 - file.endpoint } = some ref

theorem Objects.directions (objects : Objects) : objects.Directions := by
  intro file ref htype h
  have hother : ∀ t : DescriptorType, t ≠ .unixSocket →
      ¬ (file.type = t ∧ file.object < maxPipeObjects ∧ (objects.pipes file.object).used = true) := by
    intro t ht hpipe
    exact ht (hpipe.1.symm.trans htype)
  have hread := hother .pipeRead (by decide)
  have hwrite := hother .pipeWrite (by decide)
  rw [descriptorReadQueue, if_neg hread] at h
  split at h
  · rename_i hsocket
    have hpeer : file.type = .unixSocket ∧ file.object < maxSocketPairs ∧
        (objects.socketPairs file.object).used = true ∧ 1 - file.endpoint < 2 :=
      ⟨htype, hsocket.2.1, hsocket.2.2.1, by omega⟩
    cases h
    refine ⟨.incoming file.object (1 - file.endpoint), ?_, ?_, ?_, ?_⟩
    · rw [descriptorWriteQueue, if_neg hwrite, if_pos hsocket]
    · intro heq
      have hpoint : 1 - file.endpoint = file.endpoint := by injection heq
      omega
    · rw [descriptorReadQueue, if_neg hread, if_pos hpeer]
    · rw [descriptorWriteQueue, if_neg hwrite, if_pos hpeer]
      have hback : 1 - (1 - file.endpoint) = file.endpoint := by omega
      simp only [hback]
  · cases h

/-- **Pipes and socket pairs are FIFO byte channels.**  Whatever descriptors the callers hold and in
whatever order they read and write: what reads have taken from a queue, followed by what is queued,
is what writes to it have accepted; every call returns the number of bytes it has moved, and touches
no queue but its own; and the two directions of a socket pair are different queues. -/
theorem channels_fifo (objects : Objects) (hfresh : ∀ ref, objects.queue ref = IpcQueue.zero)
    (calls : List ChannelCall) (hmapped : ∀ call ∈ calls, ChannelRun.BufferMapped call) :
    (∀ ref, let r := calls.foldl ChannelRun.step ⟨objects, fun _ => [], fun _ => []⟩
      r.taken ref ++ queued (r.objects.queue ref) = r.written ref) ∧
    Along ChannelRun.step (fun r call => r.Counted call ∧ r.Separate call ∧ r.objects.Directions)
      ⟨objects, fun _ => [], fun _ => []⟩ calls := by
  have hstart : ∀ ref, ChannelRun.ChannelOk ⟨objects, fun _ => [], fun _ => []⟩ ref := by
    intro ref
    refine ⟨?_, ?_⟩
    · rw [hfresh ref]
      exact queueOk_zero
    · rw [hfresh ref]
      rfl
  generalize (⟨objects, fun _ => [], fun _ => []⟩ : ChannelRun) = r at hstart
  induction calls generalizing r with
  | nil => exact ⟨fun ref => (hstart ref).fifo, trivial⟩
  | cons call calls ih =>
    have hcall := hmapped call mem_cons_self
    obtain ⟨hfifo, halong⟩ := ih (fun call' hmem => hmapped call' (mem_cons_of_mem call hmem))
      (r.step call) (ChannelRun.ChannelOk.step hstart hcall)
    exact ⟨hfifo, ⟨ChannelRun.ChannelOk.counted hstart hcall, r.separate call,
      r.objects.directions⟩, halong⟩

/-- A process with one page and both ends of the first pipe. -/
def pipeCaller : Caller where
  process := { Process.zero with
    descriptors := fun descriptor =>
      if descriptor = 3 then .ofObject .pipeRead 0 0
      else if descriptor = 4 then .ofObject .pipeWrite 0 0
      else FileDescriptor.zero }
  vm := oneSpace
  objects := { Objects.zero with pipes := fun _ => { PipeObject.zero with used := true } }
  memory := onePage.memory
  volume := formatted 5000 fun _ _ => 0
  ticks := 0

/-- Two bytes are written to a pipe and one is read from it: the other one is queued. -/
theorem channels_fifo_pipe :
    let r := [ChannelCall.write pipeCaller 4 vmUserBase 2, .read pipeCaller 3 vmUserBase 1].foldl
      ChannelRun.step ⟨pipeCaller.objects, fun _ => [], fun _ => []⟩
    (r.perform (.read pipeCaller 3 vmUserBase 9)).1 = .ok 1 ∧
      r.taken (.pipe 0) ++ queued (r.objects.queue (.pipe 0)) = r.written (.pipe 0) := by
  refine ⟨by decide +kernel, ?_⟩
  have hmapped : ∀ call ∈ [ChannelCall.write pipeCaller 4 vmUserBase 2,
      .read pipeCaller 3 vmUserBase 1], ChannelRun.BufferMapped call := by
    intro call hmem
    obtain rfl | hmem := mem_cons.1 hmem
    · show (vmCopyFromUser _ _ _ _).isSome = true
      decide +kernel
    · rw [mem_singleton.1 hmem]
      intro bytes hbytes
      exact oneSpace_takes bytes (by omega)
  have hfresh : ∀ ref, pipeCaller.objects.queue ref = IpcQueue.zero := by
    intro ref
    cases ref with
    | pipe object => rfl
    | incoming object endpoint => rfl
  exact (channels_fifo pipeCaller.objects hfresh _ hmapped).1 (.pipe 0)

end NovaOS.Process
