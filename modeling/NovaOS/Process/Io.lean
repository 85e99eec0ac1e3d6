import NovaOS.Process.Descriptors
import NovaOS.Process.Timer

/-!
# Reading and writing

`linux_read` and `linux_write_file`.  What a descriptor stands for decides
what they do: a memfd, an event counter, a timer, a queue of a pipe or a socket pair, or a file of the
volume.

* `descriptorReadQueue`, `descriptorWriteQueue` — the queue of a descriptor;
* `fileReadLoop`, `fileWriteLoop` — the loops over a file, in chunks of 512 bytes;
* `linuxRead`, `linuxWriteFile` — the calls.
-/

namespace NovaOS.Process

open NovaOS.Vm NovaOS.Fs Function

/-- `file_info`. -/
def fileInfo (v : Volume) (name : Name) : Option FsFileInfo := fsPathInfo v name true

/-! ### Queues -/

/-- A queue: that of a pipe, or one of the two of a socket pair. -/
inductive QueueRef
  | pipe (object : ℕ)
  | incoming (object endpoint : ℕ)
deriving DecidableEq

def Objects.queue (objects : Objects) : QueueRef → IpcQueue
  | .pipe object => (objects.pipes object).queue
  | .incoming object endpoint => (objects.socketPairs object).incoming endpoint

def Objects.setQueue (objects : Objects) (queue : IpcQueue) : QueueRef → Objects
  | .pipe object =>
    { objects with
      pipes := update objects.pipes object { objects.pipes object with queue := queue } }
  | .incoming object endpoint =>
    { objects with
      socketPairs := update objects.socketPairs object
        { objects.socketPairs object with
          incoming := update (objects.socketPairs object).incoming endpoint queue } }

/-- `descriptor_read_queue`. -/
def descriptorReadQueue (objects : Objects) (file : FileDescriptor) : Option QueueRef :=
  if file.type = .pipeRead ∧ file.object < maxPipeObjects ∧ (objects.pipes file.object).used then
    some (.pipe file.object)
  else if file.type = .unixSocket ∧ file.object < maxSocketPairs ∧
      (objects.socketPairs file.object).used ∧ file.endpoint < 2 then
    some (.incoming file.object file.endpoint)
  else none

/-- `descriptor_write_queue`: a socket writes to the queue of the other end. -/
def descriptorWriteQueue (objects : Objects) (file : FileDescriptor) : Option QueueRef :=
  if file.type = .pipeWrite ∧ file.object < maxPipeObjects ∧ (objects.pipes file.object).used then
    some (.pipe file.object)
  else if file.type = .unixSocket ∧ file.object < maxSocketPairs ∧
      (objects.socketPairs file.object).used ∧ file.endpoint < 2 then
    some (.incoming file.object (1 - file.endpoint))
  else none

namespace Caller

variable (c : Caller)

/-- The object of a memfd descriptor, as the calls look for it. -/
def memfd (descriptor : ℕ) : Option ℕ :=
  let file := c.process.descriptors descriptor
  if file.type = .memfd ∧ file.object < maxMemfdObjects ∧ (c.objects.memfds file.object).used then
    some file.object
  else none

def setOffset (descriptor offset : ℕ) : Caller :=
  c.setDescriptor descriptor { c.process.descriptors descriptor with offset := offset }

end Caller

/-! ### Files -/

/-- The loop of `linux_read` on a file: the bytes completed, and whether the last round succeeded. -/
def fileReadLoop (name : Name) (offset buffer count : ℕ) : ℕ → ℕ → Caller → (Bool × ℕ) × Caller
  | 0, completed, c => ((true, completed), c)
  | fuel + 1, completed, c =>
    if count ≤ completed then ((true, completed), c)
    else
      match fsReadAt c.volume name ((offset + completed) % 2 ^ 64) (min (count - completed) 512) with
      | none => ((false, completed), c)
      | some [] => ((false, completed), c)
      | some contents =>
        match c.copyTo ((buffer + completed) % 2 ^ 64) contents with
        | (false, c) => ((false, completed), c)
        | (true, c) => fileReadLoop name offset buffer count fuel (completed + contents.length) c

/-- The loop of `linux_write_file` on a file. -/
def fileWriteLoop (name : Name) (offset buffer count : ℕ) : ℕ → ℕ → Caller → (Bool × ℕ) × Caller
  | 0, completed, c => ((true, completed), c)
  | fuel + 1, completed, c =>
    if count ≤ completed then ((true, completed), c)
    else
      let chunk := min (count - completed) 512
      match c.copyFrom ((buffer + completed) % 2 ^ 64) chunk with
      | none => ((false, completed), c)
      | some contents =>
        match fsWriteAt c.volume name ((offset + completed) % 2 ^ 64) contents with
        | (false, v) => ((false, completed), { c with volume := v })
        | (true, v) =>
          fileWriteLoop name offset buffer count fuel (completed + chunk) { c with volume := v }

section Loops

variable (name : Name) (offset buffer count fuel completed : ℕ) (c : Caller)

/-- Reading a file changes the caller's memory only. -/
theorem fileReadLoop_keeps :
    let c' := (fileReadLoop name offset buffer count fuel completed c).2
    c'.process = c.process ∧ c'.objects = c.objects ∧ c'.volume = c.volume ∧ c'.ticks = c.ticks := by
  induction fuel generalizing completed c with
  | zero => exact ⟨rfl, rfl, rfl, rfl⟩
  | succ fuel ih =>
    rw [fileReadLoop]
    split
    · exact ⟨rfl, rfl, rfl, rfl⟩
    · split
      · exact ⟨rfl, rfl, rfl, rfl⟩
      · exact ⟨rfl, rfl, rfl, rfl⟩
      · split
        · rename_i hcopy
          exact Caller.copyTo_keeps hcopy
        · rename_i hcopy
          obtain ⟨hprocess, hobjects, hvolume, hticks⟩ := Caller.copyTo_keeps hcopy
          rw [← hprocess, ← hobjects, ← hvolume, ← hticks]
          exact ih _ _

theorem fileWriteLoop_keeps :
    let c' := (fileWriteLoop name offset buffer count fuel completed c).2
    c'.process = c.process ∧ c'.vm = c.vm ∧ c'.objects = c.objects ∧ c'.memory = c.memory ∧
      c'.ticks = c.ticks := by
  induction fuel generalizing completed c with
  | zero => exact ⟨rfl, rfl, rfl, rfl, rfl⟩
  | succ fuel ih =>
    rw [fileWriteLoop]
    split
    · exact ⟨rfl, rfl, rfl, rfl, rfl⟩
    · simp only
      split
      · exact ⟨rfl, rfl, rfl, rfl, rfl⟩
      · split
        · exact ⟨rfl, rfl, rfl, rfl, rfl⟩
        · exact ih _ _

end Loops

/-- How `linux_read` and `linux_write_file` end on a file: the offset moves only when no round has
failed. -/
def finishTransfer (descriptor : ℕ) : (Bool × ℕ) × Caller → Except Errno ℕ × Caller
  | ((true, completed), c) =>
    (.ok completed,
      c.setOffset descriptor (((c.process.descriptors descriptor).offset + completed) % 2 ^ 64))
  | ((false, completed), c) => (if completed ≠ 0 then .ok completed else .error .fault, c)

/-! ### Reading -/

/-- `linux_read` of an event counter. -/
def eventRead (c : Caller) (object buffer count : ℕ) : Except Errno ℕ × Caller :=
  let event := c.objects.events object
  if count < 8 ∨ maxEventObjects ≤ object ∨ !event.used then (.error .inval, c)
  else if event.counter = 0 then (.error .again, c)
  else
    match c.copyTo buffer (leBytes 8 (if event.semaphore then 1 else event.counter)) with
    | (false, c) => (.error .fault, c)
    | (true, c) =>
      (.ok 8, { c with objects := { c.objects with
        events := update c.objects.events object
          { event with counter := if event.semaphore then event.counter - 1 else 0 } } })

/-- `linux_read` of a timer. -/
def timerRead (c : Caller) (object buffer count : ℕ) : Except Errno ℕ × Caller :=
  if count < 8 ∨ maxTimerObjects ≤ object ∨ !(c.objects.timers object).used then (.error .inval, c)
  else
    match timerReadUser c.ticks (c.objects.timers object) buffer count c.vm c.memory with
    | (result, timer, vm, memory) =>
      (result, { c with
        vm := vm
        memory := memory
        objects := { c.objects with timers := update c.objects.timers object timer } })

/-- `linux_read`. -/
def linuxRead (c : Caller) (descriptor buffer count : ℕ) : Except Errno ℕ × Caller :=
  if !c.has descriptor then (.error .badf, c)
  else
    let file := c.process.descriptors descriptor
    match c.memfd descriptor with
    | some object =>
      match memfdReadUser (c.objects.memfds object) file.offset buffer count c.vm c.memory with
      | ((result, offset), vm, memory) =>
        (result, { c with vm := vm, memory := memory }.setOffset descriptor offset)
    | none =>
      if file.type = .eventfd then eventRead c file.object buffer count
      else if file.type = .timerfd then timerRead c file.object buffer count
      else
        match descriptorReadQueue c.objects file with
        | some ref =>
          match queueReadUser c.vm c.memory (c.objects.queue ref) buffer count with
          | (result, queue, vm, memory) =>
            (result, { c with vm := vm, memory := memory, objects := c.objects.setQueue queue ref })
        | none =>
          if file.type ≠ .file ∨ file.flags % 4 = 1 then (.error .badf, c)
          else
            match fileInfo c.volume file.name with
            | none => (.error .noent, c)
            | some info =>
              if info.size ≤ file.offset then (.ok 0, c)
              else
                let count := min count (info.size - file.offset)
                finishTransfer descriptor (fileReadLoop file.name file.offset buffer count count 0 c)

/-! ### Writing -/

/-- `linux_write_file` of an event counter. -/
def eventWrite (c : Caller) (object buffer count : ℕ) : Except Errno ℕ × Caller :=
  let event := c.objects.events object
  if count < 8 ∨ maxEventObjects ≤ object ∨ !event.used then (.error .inval, c)
  else
    match c.copyFrom buffer 8 with
    | none => (.error .fault, c)
    | some bytes =>
      let value := leValue bytes
      if value = 2 ^ 64 - 1 then (.error .inval, c)
      else if 2 ^ 64 - 2 - value < event.counter then (.error .again, c)
      else
        (.ok 8, { c with objects := { c.objects with
          events := update c.objects.events object
            { event with counter := event.counter + value } } })

/-- `linux_write_file`.  With `O_APPEND` the offset is moved to the end first. -/
def linuxWriteFile (c : Caller) (descriptor buffer count : ℕ) : Except Errno ℕ × Caller :=
  if !c.has descriptor then (.error .badf, c)
  else
    let file := c.process.descriptors descriptor
    match c.memfd descriptor with
    | some object =>
      match memfdWriteUser c.vm (c.objects.memfds object) file.offset buffer count c.memory with
      | ((result, offset), memfd, memory) =>
        (result, ({ c with memory := memory }.setMemfd object memfd).setOffset descriptor offset)
    | none =>
      if file.type = .eventfd then eventWrite c file.object buffer count
      else
        match descriptorWriteQueue c.objects file with
        | some ref =>
          match queueWriteUser c.vm c.memory (c.objects.queue ref) buffer count with
          | (result, queue) => (result, { c with objects := c.objects.setQueue queue ref })
        | none =>
          if file.type ≠ .file ∨ file.flags % 4 = 0 then (.error .badf, c)
          else
            let c :=
              if file.flags.testBit 10 then
                c.setOffset descriptor (((fileInfo c.volume file.name).map FsFileInfo.size).getD 0)
              else c
            finishTransfer descriptor (fileWriteLoop file.name
              (c.process.descriptors descriptor).offset buffer count count 0 c)

/-- A process with one page of memory and a memfd it has just created. -/
def memfdCaller : Caller where
  process := { Process.zero with addressSpace := some 0 }
  vm := oneSpace
  objects := { Objects.zero with
    memfds := update (fun _ => MemfdObject.zero) 0
      { MemfdObject.zero with used := true, references := 1 } }
  memory := onePage.memory
  volume := formatted 5000 fun _ _ => 0
  ticks := 0

end NovaOS.Process
