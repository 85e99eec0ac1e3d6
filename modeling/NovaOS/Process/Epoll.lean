import NovaOS.Process.Io

/-!
# Readiness

The epoll calls of `kernel/process.c`.  An epoll object has a table of
registrations; a registration is a descriptor number with the events and the word its owner asked for.

* `descriptorReadyEvents` — the events of a descriptor that are ready;
* `linuxEpollCtl`, `linuxEpollWait` — the calls.
-/

namespace NovaOS.Process

open NovaOS.Vm

/-- Reading the descriptor would find something. -/
def readyToRead (c : Caller) (file : FileDescriptor) : Bool :=
  let event := c.objects.events file.object
  let timer := c.objects.timers file.object
  (file.type == .eventfd && file.object < maxEventObjects && event.used && event.counter != 0) ||
    (file.type == .timerfd && file.object < maxTimerObjects && timer.used && timer.expires != 0 &&
      timer.expires ≤ c.ticks) ||
    (descriptorReadQueue c.objects file).any (fun ref => (c.objects.queue ref).count != 0) ||
    file.type == .file || file.type == .memfd

/-- Writing to the descriptor would find room. -/
def readyToWrite (c : Caller) (file : FileDescriptor) : Bool :=
  let event := c.objects.events file.object
  (file.type == .eventfd && file.object < maxEventObjects && event.used &&
      event.counter < 2 ^ 64 - 2) ||
    (descriptorWriteQueue c.objects file).any (fun ref => (c.objects.queue ref).count < 4096) ||
    file.type == .file || file.type == .memfd

/-- `descriptor_ready_events`: 1 is `EPOLLIN`, 4 is `EPOLLOUT`. -/
def descriptorReadyEvents (c : Caller) (descriptor requested : ℕ) : ℕ :=
  let file := c.process.descriptors descriptor
  if maxFileDescriptors ≤ descriptor ∨ !file.used then 0
  else
    (if requested.testBit 0 && readyToRead c file then 1 else 0) +
      (if requested.testBit 2 && readyToWrite c file then 4 else 0)

/-! ### epoll -/

/-- A descriptor for an epoll object. -/
def Caller.hasEpoll (c : Caller) (descriptor : ℕ) : Bool :=
  c.has descriptor && (c.process.descriptors descriptor).type == .epoll

/-- The object of an epoll descriptor. -/
def Caller.epoll (c : Caller) (descriptor : ℕ) : EpollObject :=
  c.objects.epolls (c.process.descriptors descriptor).object

def Caller.setEpollEntry (c : Caller) (descriptor slot : ℕ) (entry : EpollEntry) : Caller :=
  let object := (c.process.descriptors descriptor).object
  { c with objects := { c.objects with
    epolls := Function.update c.objects.epolls object
      { c.objects.epolls object with
        entries := Function.update (c.objects.epolls object).entries slot entry } } }

/-- The last registration of a descriptor number. -/
def registrationOf (epoll : EpollObject) (descriptor : ℕ) : Option ℕ :=
  (List.range maxEpollEntries).reverse.find? fun index =>
    (epoll.entries index).used && (epoll.entries index).descriptor == descriptor

/-- The first free registration. -/
def freeRegistration (epoll : EpollObject) : Option ℕ :=
  (List.range maxEpollEntries).find? fun index => !(epoll.entries index).used

/-- `linux_epoll_ctl`; 1 is `EPOLL_CTL_ADD`, 2 is `EPOLL_CTL_DEL` and 3 is `EPOLL_CTL_MOD`. -/
def linuxEpollCtl (c : Caller) (descriptor operation target eventAddress : ℕ) :
    Except Errno ℕ × Caller :=
  if !c.hasEpoll descriptor || maxFileDescriptors ≤ target ||
      !(c.process.descriptors target).used then (.error .badf, c)
  else
    let existing := registrationOf (c.epoll descriptor) target
    if operation = 2 then
      match existing with
      | none => (.error .noent, c)
      | some slot => (.ok 0, c.setEpollEntry descriptor slot ⟨false, 0, 0, 0⟩)
    else
      match if eventAddress = 0 then none else c.copyFrom eventAddress 12 with
      | none => (.error .fault, c)
      | some event =>
        if operation = 1 ∧ existing.isSome then (.error .exist, c)
        else if operation ≠ 1 ∧ operation ≠ 3 then (.error .inval, c)
        else
          match if operation = 1 then freeRegistration (c.epoll descriptor) else existing with
          | none => (.error .inval, c)
          | some slot =>
            (.ok 0, c.setEpollEntry descriptor slot
              ⟨true, target, leValue (event.take 4), leValue (event.drop 4)⟩)

/-- The loop of `linux_epoll_wait` over registrations. -/
def epollWaitLoop (epoll : EpollObject) (address maximum : ℕ) :
    List ℕ → ℕ → Caller → Except Errno ℕ × Caller
  | [], count, c => (.ok count, c)
  | index :: rest, count, c =>
    if maximum ≤ count then (.ok count, c)
    else
      let entry := epoll.entries index
      let ready := descriptorReadyEvents c entry.descriptor entry.events
      if !entry.used || ready = 0 then epollWaitLoop epoll address maximum rest count c
      else
        match c.copyTo ((address + count * 12) % 2 ^ 64) (leBytes 4 ready ++ leBytes 8 entry.data) with
        | (false, c) => (.error .fault, c)
        | (true, c) => epollWaitLoop epoll address maximum rest (count + 1) c

/-- `linux_epoll_wait`; a maximum from `2 ^ 31` on is negative. -/
def linuxEpollWait (c : Caller) (descriptor address maximum : ℕ) : Except Errno ℕ × Caller :=
  if !c.hasEpoll descriptor || maximum = 0 || 2 ^ 31 ≤ maximum then (.error .inval, c)
  else epollWaitLoop (c.epoll descriptor) address maximum (List.range maxEpollEntries) 0 c

end NovaOS.Process
