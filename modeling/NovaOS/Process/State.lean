import NovaOS.Fs.Operations
import NovaOS.Process.Errno
import NovaOS.Vm.Operations

/-!
# The data of `kernel/process.c`

Process slots with their descriptors and signal actions, address spaces with their reference count,
the tables of the objects descriptors stand for, and the globals of the scheduler.

An `AddressSpace *` is a number that is never used again, so a released space stays recognisable;
`NULL` is `none`.  The heap blocks of address spaces, of TLS templates and of memfd frame arrays only
matter through whether they could be had (`heapTake`): nothing reads their addresses.

Most system calls work on the calling process, its address space, the objects and the volume, and on
nothing of other processes: they are functions on a `Caller`.

Left out of a process: `fx_state` and `name`, which no modelled function reads.
-/

set_option linter.dupNamespace false

namespace NovaOS.Process

open NovaOS.Vm NovaOS.Fs

def maxProcesses : ℕ := 64
def maxFileDescriptors : ℕ := 256
def maxPipeObjects : ℕ := 64
def maxSocketPairs : ℕ := 64
def maxEpollObjects : ℕ := 64
def maxEpollEntries : ℕ := 256
def maxEventObjects : ℕ := 64
def maxTimerObjects : ℕ := 64
def maxMemfdObjects : ℕ := 64
def maxMemfdSize : ℕ := 64 * 1024 * 1024

/-! ### Descriptors and their objects -/

/-- The `FD_` types; `none` is the zero of a cleared descriptor. -/
inductive DescriptorType
  | none
  | file
  | pipeRead
  | pipeWrite
  | epoll
  | unixSocket
  | directory
  | eventfd
  | timerfd
  | memfd
deriving DecidableEq

structure FileDescriptor where
  used : Bool
  type : DescriptorType
  object : ℕ
  endpoint : ℕ
  name : Name
  offset : ℕ
  flags : ℕ

def FileDescriptor.zero : FileDescriptor := ⟨false, .none, 0, 0, [], 0, 0⟩

structure IpcQueue where
  data : ℕ → UInt8
  readOffset : ℕ
  writeOffset : ℕ
  count : ℕ

/-- A zero-initialised queue. -/
def IpcQueue.zero : IpcQueue := ⟨fun _ => 0, 0, 0, 0⟩

structure PipeObject where
  used : Bool
  queue : IpcQueue

def PipeObject.zero : PipeObject := ⟨false, IpcQueue.zero⟩

/-- `UnixSocketPair`; `incoming` has the two queues under 0 and 1. -/
structure UnixSocketPair where
  used : Bool
  incoming : ℕ → IpcQueue

def UnixSocketPair.zero : UnixSocketPair := ⟨false, fun _ => IpcQueue.zero⟩

structure EpollEntry where
  used : Bool
  descriptor : ℕ
  events : ℕ
  data : ℕ

structure EpollObject where
  used : Bool
  entries : ℕ → EpollEntry

def EpollObject.zero : EpollObject := ⟨false, fun _ => ⟨false, 0, 0, 0⟩⟩

structure EventObject where
  used : Bool
  semaphore : Bool
  counter : ℕ

def EventObject.zero : EventObject := ⟨false, false, 0⟩

structure TimerObject where
  used : Bool
  expires : ℕ
  interval : ℕ

def TimerObject.zero : TimerObject := ⟨false, 0, 0⟩

structure MemfdObject where
  used : Bool
  references : ℕ
  size : ℕ
  frameCapacity : ℕ
  /-- the frame slots; those from `frameCapacity` on do not exist -/
  frames : ℕ → Option ℕ

def MemfdObject.zero : MemfdObject := ⟨false, 0, 0, 0, fun _ => none⟩

/-- The object tables. -/
structure Objects where
  pipes : ℕ → PipeObject
  socketPairs : ℕ → UnixSocketPair
  epolls : ℕ → EpollObject
  events : ℕ → EventObject
  timers : ℕ → TimerObject
  memfds : ℕ → MemfdObject

def Objects.zero : Objects where
  pipes := fun _ => PipeObject.zero
  socketPairs := fun _ => UnixSocketPair.zero
  epolls := fun _ => EpollObject.zero
  events := fun _ => EventObject.zero
  timers := fun _ => TimerObject.zero
  memfds := fun _ => MemfdObject.zero

/-- `heap_alloc` or `heap_calloc` of a structure of this file. -/
def heapTake (m : Memory) : Bool × Memory :=
  ((m.choices m.calls).isSome, { m with calls := m.calls + 1 })

/-! ### Processes -/

/-- The eighteen saved registers. -/
abbrev Context := ℕ → ℕ

def contextRdi : ℕ := 9
def contextRip : ℕ := 15
def contextRsp : ℕ := 17

structure LinuxSignalAction where
  handler : ℕ
  flags : ℕ
  restorer : ℕ
  mask : ℕ

/-- `state`; `none` is the zero of a cleared slot. -/
inductive ProcessState
  | none
  | running
  | blockedFutex
  | blockedSleep
  | zombie
deriving DecidableEq

structure Process where
  used : Bool
  state : ProcessState
  pid : ℕ
  tgid : ℕ
  parentPid : ℕ
  addressSpace : Option ℕ
  context : Context
  /-- the text written to the console, as far as it is kept -/
  output : List UInt8
  exitCode : ℕ
  programBreak : ℕ
  mmapHint : ℕ
  clearChildTid : ℕ
  futexAddress : ℕ
  wakeTick : ℕ
  fsBase : ℕ
  gsBase : ℕ
  tlsMapping : ℕ
  tlsMappingSize : ℕ
  pendingSignals : ℕ
  noNewPrivs : Bool
  seccompStrict : Bool
  signalActions : ℕ → LinuxSignalAction
  descriptors : ℕ → FileDescriptor

/-- A slot whose bytes are all zero. -/
def Process.zero : Process where
  used := false
  state := .none
  pid := 0
  tgid := 0
  parentPid := 0
  addressSpace := none
  context := fun _ => 0
  output := []
  exitCode := 0
  programBreak := 0
  mmapHint := 0
  clearChildTid := 0
  futexAddress := 0
  wakeTick := 0
  fsBase := 0
  gsBase := 0
  tlsMapping := 0
  tlsMappingSize := 0
  pendingSignals := 0
  noNewPrivs := false
  seccompStrict := false
  signalActions := fun _ => ⟨0, 0, 0, 0⟩
  descriptors := fun _ => FileDescriptor.zero

structure AddressSpace where
  vm : VmSpace
  references : ℕ
  tlsTemplate : List UInt8
  tlsStaticSize : ℕ
  tlsTemplateThreadPointer : ℕ
  tlsModuleCount : ℕ
  loaderMappingEnd : ℕ

/-! ### The kernel -/

structure Kernel where
  processes : ℕ → Process
  spaces : ℕ → Option AddressSpace
  /-- numbers from here on were never used for an address space -/
  spaceCount : ℕ
  objects : Objects
  memory : Memory
  volume : Volume
  currentSlot : Option ℕ
  lastSlot : ℤ
  nextPid : ℕ
  schedulerTicks : ℕ
  processContext : Context

/-- The state after `process_init`. -/
def Kernel.initial (choices : ℕ → Option ℕ) (bytes : ℕ → ℕ → UInt8) (volume : Volume) : Kernel where
  processes := fun _ => Process.zero
  spaces := fun _ => none
  spaceCount := 0
  objects := Objects.zero
  memory := ⟨[], choices, 0, fun _ => none, bytes⟩
  volume := volume
  currentSlot := none
  lastSlot := -1
  nextPid := 1
  schedulerTicks := 0
  processContext := fun _ => 0

namespace Kernel

variable (k : Kernel)

def setProcess (slot : ℕ) (process : Process) : Kernel :=
  { k with processes := Function.update k.processes slot process }

/-- Change fields of a process. -/
def modifyProcess (slot : ℕ) (f : Process → Process) : Kernel :=
  k.setProcess slot (f (k.processes slot))

/-- The address space of a slot, with its number. -/
def spaceOf (slot : ℕ) : Option (ℕ × AddressSpace) :=
  match (k.processes slot).addressSpace with
  | none => none
  | some i => (k.spaces i).map fun space => (i, space)

end Kernel

/-- What most system calls work on: the calling process and its address space, the objects, the
volume and the kernel's memory.  They read the clock, and no other process. -/
structure Caller where
  process : Process
  vm : VmSpace
  objects : Objects
  memory : Memory
  volume : Volume
  ticks : ℕ

namespace Caller

variable (c : Caller)

/-- The process has a descriptor of this number. -/
def has (descriptor : ℕ) : Bool :=
  3 ≤ descriptor && descriptor < maxFileDescriptors && (c.process.descriptors descriptor).used

def setDescriptor (descriptor : ℕ) (file : FileDescriptor) : Caller :=
  { c with process :=
    { c.process with descriptors := Function.update c.process.descriptors descriptor file } }

def setMemfd (index : ℕ) (object : MemfdObject) : Caller :=
  { c with objects := { c.objects with memfds := Function.update c.objects.memfds index object } }

end Caller

end NovaOS.Process
