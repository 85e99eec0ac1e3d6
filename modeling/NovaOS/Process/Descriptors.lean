import NovaOS.Process.Memfd

/-!
# Descriptors

The system calls of `kernel/process.c` that make, duplicate and close descriptors.  A descriptor holds
a reference to its object only when it is a memfd; the other objects are never given back.

* `copyUserString`, `findDescriptor`, `firstFree` — how names, descriptor numbers and objects are
  found;
* `descriptorRetainResources`, `descriptorReleaseResources` — the references of memfds;
* `linuxPipe2`, `linuxSocketpair`, `linuxEpollCreate`, `linuxEventfd2`, `linuxTimerfdCreate`,
  `linuxMemfdCreate`, `linuxDuplicateDescriptor`, `linuxClose` — the calls.
-/

namespace NovaOS.Process

open NovaOS.Vm NovaOS.Fs Function

/-- The loop of `copy_user_string`, over the bytes that are left in its buffer. -/
def copyUserLoop (s : VmSpace) (m : Memory) : ℕ → ℕ → Option (List UInt8)
  | 0, _ => none
  | left + 1, address =>
    match vmCopyFromUser s address 1 m with
    | some [byte] =>
      if byte = 0 then some []
      else (copyUserLoop s m left ((address + 1) % 2 ^ 64)).map (byte :: ·)
    | _ => none

/-- `copy_user_string`: the bytes before the terminator. -/
def copyUserString (s : VmSpace) (m : Memory) (address capacity : ℕ) : Option (List UInt8) :=
  if address = 0 ∨ capacity < 2 then none else copyUserLoop s m (capacity - 1) address

/-- `find_descriptor`. -/
def findDescriptor (process : Process) : Option ℕ :=
  (List.range' 3 (maxFileDescriptors - 3)).find? fun descriptor =>
    !(process.descriptors descriptor).used

/-- The search of the `allocate_` functions. -/
def firstFree (limit : ℕ) (used : ℕ → Bool) : Option ℕ :=
  (List.range limit).find? fun index => !used index

/-! ### References of memfds -/

/-- `memfd_release_object`. -/
def memfdRelease (index : ℕ) (memfds : ℕ → MemfdObject) (m : Memory) : (ℕ → MemfdObject) × Memory :=
  if maxMemfdObjects ≤ index then (memfds, m)
  else
    match memfdReleaseObject (memfds index) m with
    | (object, m) => (update memfds index object, m)

/-- `descriptor_retain_resources`. -/
def descriptorRetainResources (file : FileDescriptor) (memfds : ℕ → MemfdObject) : ℕ → MemfdObject :=
  if file.type ≠ .memfd ∨ maxMemfdObjects ≤ file.object ∨ !(memfds file.object).used then memfds
  else
    update memfds file.object
      { memfds file.object with references := (memfds file.object).references + 1 }

/-- `descriptor_release_resources`. -/
def descriptorReleaseResources (file : FileDescriptor) (memfds : ℕ → MemfdObject) (m : Memory) :
    (ℕ → MemfdObject) × Memory :=
  if file.type = .memfd then memfdRelease file.object memfds m else (memfds, m)

namespace Caller

variable (c : Caller)

def setMemfds (memfds : ℕ → MemfdObject) (m : Memory) : Caller :=
  { c with objects := { c.objects with memfds := memfds }, memory := m }

/-- The resources of a descriptor are released; the descriptor is still there. -/
def releaseDescriptor (descriptor : ℕ) : Caller :=
  match descriptorReleaseResources (c.process.descriptors descriptor) c.objects.memfds c.memory with
  | (memfds, m) => c.setMemfds memfds m

def retainDescriptor (descriptor : ℕ) : Caller :=
  c.setMemfds (descriptorRetainResources (c.process.descriptors descriptor) c.objects.memfds) c.memory

/-- `vm_copy_to_user` into the address space of the caller. -/
def copyTo (address : ℕ) (bytes : List UInt8) : Bool × Caller :=
  match vmCopyToUser c.vm address bytes c.memory with
  | (ok, vm, memory) => (ok, { c with vm := vm, memory := memory })

theorem copyTo_keeps {c c' : Caller} {address : ℕ} {bytes : List UInt8} {ok : Bool}
    (h : c.copyTo address bytes = (ok, c')) :
    c'.process = c.process ∧ c'.objects = c.objects ∧ c'.volume = c.volume ∧ c'.ticks = c.ticks := by
  have hc : (c.copyTo address bytes).2 = c' := by rw [h]
  rw [← hc]
  exact ⟨rfl, rfl, rfl, rfl⟩

/-- `vm_copy_from_user` from the address space of the caller. -/
def copyFrom (address size : ℕ) : Option (List UInt8) := vmCopyFromUser c.vm address size c.memory

end Caller

/-! ### Closing and duplicating -/

/-- `LINUX_SYS_CLOSE`. -/
def linuxClose (c : Caller) (descriptor : ℕ) : Except Errno ℕ × Caller :=
  if !c.has descriptor then (.error .badf, c)
  else (.ok 0, (c.releaseDescriptor descriptor).setDescriptor descriptor FileDescriptor.zero)

/-- `linux_duplicate_descriptor`; `none` asks for any free number. -/
def linuxDuplicateDescriptor (c : Caller) (old : ℕ) (requested : Option ℕ) : Except Errno ℕ × Caller :=
  if !c.has old then (.error .badf, c)
  else
    match requested.or (findDescriptor c.process) with
    | none => (.error .badf, c)
    | some new =>
      if new < 3 ∨ maxFileDescriptors ≤ new then (.error .badf, c)
      else if new = old then (.ok old, c)
      else
        let c := if (c.process.descriptors new).used then c.releaseDescriptor new else c
        (.ok new, (c.setDescriptor new (c.process.descriptors old)).retainDescriptor new)

/-! ### New descriptors -/

/-- A descriptor for an object. -/
def FileDescriptor.ofObject (type : DescriptorType) (object flags : ℕ) : FileDescriptor :=
  { FileDescriptor.zero with used := true, type := type, object := object, flags := flags }

/-- What `linux_pipe2` and `linux_socketpair` do once they have an object: two descriptors for it, with
their numbers stored at `address`.  `drop` marks the object unused again. -/
def pairDescriptors (c : Caller) (first : ℕ) (left right : FileDescriptor) (address : ℕ)
    (drop : Objects → Objects) : Except Errno ℕ × Caller :=
  let taken := c.setDescriptor first { c.process.descriptors first with used := true }
  match findDescriptor taken.process with
  | none =>
    (.error .nfile,
      { taken.setDescriptor first FileDescriptor.zero with objects := drop taken.objects })
  | some second =>
    let made := (taken.setDescriptor first left).setDescriptor second right
    match made.copyTo address (leBytes 4 first ++ leBytes 4 second) with
    | (true, c) => (.ok 0, c)
    | (false, c) =>
      (.error .fault,
        { (c.setDescriptor first FileDescriptor.zero).setDescriptor second FileDescriptor.zero with
          objects := drop c.objects })

/-- `linux_pipe2`.  The object stays allocated when there is no descriptor for it. -/
def linuxPipe2 (c : Caller) (address : ℕ) : Except Errno ℕ × Caller :=
  match firstFree maxPipeObjects fun index => (c.objects.pipes index).used with
  | none => (.error .nfile, c)
  | some object =>
    let c := { c with objects := { c.objects with
      pipes := update c.objects.pipes object { PipeObject.zero with used := true } } }
    match findDescriptor c.process with
    | none => (.error .nfile, c)
    | some first =>
      pairDescriptors c first (.ofObject .pipeRead object 0) (.ofObject .pipeWrite object 0) address
        fun objects => { objects with
          pipes := update objects.pipes object { objects.pipes object with used := false } }

/-- `linux_socketpair`. -/
def linuxSocketpair (c : Caller) (domain type address : ℕ) : Except Errno ℕ × Caller :=
  if domain ≠ 1 ∨ type % 16 ≠ 1 then (.error .inval, c)
  else
    match firstFree maxSocketPairs fun index => (c.objects.socketPairs index).used with
    | none => (.error .nfile, c)
    | some object =>
      let c := { c with objects := { c.objects with
        socketPairs := update c.objects.socketPairs object
          { UnixSocketPair.zero with used := true } } }
      match findDescriptor c.process with
      | none => (.error .nfile, c)
      | some first =>
        pairDescriptors c first (.ofObject .unixSocket object 0)
          { FileDescriptor.ofObject .unixSocket object 0 with endpoint := 1 } address
          fun objects => { objects with
            socketPairs := update objects.socketPairs object
              { objects.socketPairs object with used := false } }

/-- A descriptor for an object that was just allocated, if there is one left. -/
def newDescriptor (c : Caller) (file : FileDescriptor) : Except Errno ℕ × Caller :=
  match findDescriptor c.process with
  | none => (.error .nfile, c)
  | some descriptor => (.ok descriptor, c.setDescriptor descriptor file)

/-- `linux_epoll_create`. -/
def linuxEpollCreate (c : Caller) : Except Errno ℕ × Caller :=
  match firstFree maxEpollObjects fun index => (c.objects.epolls index).used with
  | none => (.error .nfile, c)
  | some object =>
    newDescriptor { c with objects := { c.objects with
      epolls := update c.objects.epolls object { EpollObject.zero with used := true } } }
      (.ofObject .epoll object 0)

/-- `linux_eventfd2`.  The counter is set only when there is a descriptor. -/
def linuxEventfd2 (c : Caller) (initialValue flags : ℕ) : Except Errno ℕ × Caller :=
  if 0xFFFFFFFF < initialValue ∨ flags &&& 0x80801 ≠ flags then (.error .inval, c)
  else
    match firstFree maxEventObjects fun index => (c.objects.events index).used with
    | none => (.error .nfile, c)
    | some object =>
      let event : EventObject := match findDescriptor c.process with
        | none => ⟨true, false, 0⟩
        | some _ => ⟨true, flags.testBit 0, initialValue⟩
      newDescriptor { c with objects := { c.objects with
        events := update c.objects.events object event } } (.ofObject .eventfd object flags)

/-- `linux_timerfd_create`. -/
def linuxTimerfdCreate (c : Caller) (clock flags : ℕ) : Except Errno ℕ × Caller :=
  if (clock ≠ 0 ∧ clock ≠ 1) ∨ flags &&& 0x80800 ≠ flags then (.error .inval, c)
  else
    match firstFree maxTimerObjects fun index => (c.objects.timers index).used with
    | none => (.error .nfile, c)
    | some object =>
      newDescriptor { c with objects := { c.objects with
        timers := update c.objects.timers object { TimerObject.zero with used := true } } }
        (.ofObject .timerfd object flags)

/-- `linux_memfd_create`: without a descriptor the object is released again. -/
def linuxMemfdCreate (c : Caller) (nameAddress flags : ℕ) : Except Errno ℕ × Caller :=
  if flags &&& 3 ≠ flags then (.error .inval, c)
  else
    match copyUserString c.vm c.memory nameAddress 96 with
    | none => (.error .inval, c)
    | some [] => (.error .inval, c)
    | some name =>
      match allocateMemfdObject c.objects.memfds with
      | (none, _) => (.error .nfile, c)
      | (some object, memfds) =>
        match findDescriptor c.process with
        | none =>
          match memfdRelease object memfds c.memory with
          | (memfds, m) => (.error .nfile, c.setMemfds memfds m)
        | some descriptor =>
          (.ok descriptor, (c.setMemfds memfds c.memory).setDescriptor descriptor
            { FileDescriptor.ofObject .memfd object flags with name := name })

end NovaOS.Process
