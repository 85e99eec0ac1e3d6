import NovaOS.Process.State
import NovaOS.Vm.World

/-!
# Memfd objects and the frames they hold

A memfd keeps its bytes in frames of its own, one per page, that mappings may share.  Each used slot of
its frame array is a reference to the frame.

* `memfdEnsureCapacity`, `memfdSetSize`, `memfdFrame`, `memfdReleaseObject`, `memfdReadUser`,
  `memfdWriteUser` — the functions of the source.
-/

namespace NovaOS.Process

open NovaOS.Vm Function

/-- `allocate_memfd_object`: the first free object. -/
def allocateMemfdObject (memfds : ℕ → MemfdObject) : Option ℕ × (ℕ → MemfdObject) :=
  match (List.range maxMemfdObjects).find? fun index => !(memfds index).used with
  | none => (none, memfds)
  | some index =>
    (some index, update memfds index { MemfdObject.zero with used := true, references := 1 })

/-- The doubling loop of `memfd_ensure_capacity`. -/
def growCapacity : ℕ → ℕ → ℕ → ℕ
  | 0, capacity, _ => capacity
  | fuel + 1, capacity, pageCount =>
    if pageCount ≤ capacity then capacity
    else if maxMemfdSize / 4096 / 2 < capacity then maxMemfdSize / 4096
    else growCapacity fuel (capacity * 2) pageCount

/-- `memfd_ensure_capacity`; fifteen doublings reach the limit from any capacity. -/
def memfdEnsureCapacity (object : MemfdObject) (pageCount : ℕ) (m : Memory) :
    Bool × MemfdObject × Memory :=
  if pageCount ≤ object.frameCapacity then (true, object, m)
  else if maxMemfdSize / 4096 < pageCount then (false, object, m)
  else
    let capacity := if object.frameCapacity = 0 then 4 else object.frameCapacity
    match heapTake m with
    | (false, m) => (false, object, m)
    | (true, m) =>
      (true, { object with
        frameCapacity := growCapacity 15 capacity pageCount
        frames := fun page => if page < object.frameCapacity then object.frames page else none }, m)

/-- Release the frames of some pages and clear their slots. -/
def dropPages : List ℕ → MemfdObject → Memory → MemfdObject × Memory
  | [], object, m => (object, m)
  | page :: rest, object, m =>
    match object.frames page with
    | none => dropPages rest object m
    | some frame =>
      dropPages rest { object with frames := update object.frames page none }
        (vmFrameRelease frame m)

/-- `memset` of the last page from `tail` on. -/
def clearFrom (frame tail : ℕ) (m : Memory) : Memory :=
  { m with
    bytes := update m.bytes (frameData m frame)
      (splice (m.bytes (frameData m frame)) tail (4096 - tail) fun _ => 0) }

/-- `memfd_set_size`. -/
def memfdSetSize (object : MemfdObject) (size : ℕ) (m : Memory) : Bool × MemfdObject × Memory :=
  if maxMemfdSize < size then (false, object, m)
  else
    let pageCount := (size + 4095) / 4096
    match memfdEnsureCapacity object pageCount m with
    | (false, object, m) => (false, object, m)
    | (true, object, m) =>
      let oldPageCount := (object.size + 4095) / 4096
      match dropPages (List.range' pageCount (oldPageCount - pageCount)) object m with
      | (object, m) =>
        let m :=
          if size % 4096 ≠ 0 then
            match object.frames (pageCount - 1) with
            | some frame => clearFrom frame (size % 4096) m
            | none => m
          else m
        (true, { object with size := size }, m)

/-- `memfd_frame`. -/
def memfdFrame (object : MemfdObject) (page : ℕ) (create : Bool) (m : Memory) :
    Option ℕ × MemfdObject × Memory :=
  if object.frameCapacity ≤ page then (none, object, m)
  else
    match object.frames page with
    | some frame => (some frame, object, m)
    | none =>
      if !create then (none, object, m)
      else
        match vmFrameCreate m with
        | (none, m) => (none, object, m)
        | (some frame, m) =>
          (some frame, { object with frames := update object.frames page (some frame) }, m)

/-- `memfd_release_object`, on a used object: the last reference releases all frames.  The slots need
not be cleared one by one, since the object is. -/
def memfdReleaseObject (object : MemfdObject) (m : Memory) : MemfdObject × Memory :=
  if !object.used || object.references = 0 then (object, m)
  else if object.references - 1 ≠ 0 then
    ({ object with references := object.references - 1 }, m)
  else
    match dropPages (List.range object.frameCapacity) object m with
    | (_, m) => (MemfdObject.zero, m)

/-- The loop of `memfd_read_user`: the bytes completed, and whether the last copy succeeded. -/
def memfdReadLoop (object : MemfdObject) (offset buffer count : ℕ) :
    ℕ → ℕ → VmSpace → Memory → (Bool × ℕ) × VmSpace × Memory
  | 0, completed, s, m => ((true, completed), s, m)
  | fuel + 1, completed, s, m =>
    if count ≤ completed then ((true, completed), s, m)
    else
      let position := offset + completed
      let chunk := min (min (count - completed) (4096 - position % 4096)) 512
      let source :=
        match (memfdFrame object (position / 4096) false m).1 with
        | some frame => readBytes (m.bytes (frameData m frame)) (position % 4096) chunk
        | none => List.replicate chunk 0
      match vmCopyToUser s ((buffer + completed) % 2 ^ 64) source m with
      | (false, s, m) => ((false, completed), s, m)
      | (true, s, m) => memfdReadLoop object offset buffer count fuel (completed + chunk) s m

/-- `memfd_read_user`: the result and the new file offset. -/
def memfdReadUser (object : MemfdObject) (offset buffer count : ℕ) (s : VmSpace) (m : Memory) :
    (Except Errno ℕ × ℕ) × VmSpace × Memory :=
  if object.size ≤ offset then ((.ok 0, offset), s, m)
  else
    let count := min count (object.size - offset)
    match memfdReadLoop object offset buffer count count 0 s m with
    | ((true, completed), s, m) => ((.ok completed, offset + completed), s, m)
    | ((false, completed), s, m) =>
      ((if completed ≠ 0 then .ok completed else .error .fault, offset), s, m)

/-- How the loop of `memfd_write_user` ended. -/
inductive WriteEnd
  | done
  | fault
  | nomem
deriving DecidableEq

/-- The loop of `memfd_write_user`. -/
def memfdWriteLoop (s : VmSpace) (offset buffer count : ℕ) :
    ℕ → ℕ → MemfdObject → Memory → (WriteEnd × ℕ) × MemfdObject × Memory
  | 0, completed, object, m => ((.done, completed), object, m)
  | fuel + 1, completed, object, m =>
    if count ≤ completed then ((.done, completed), object, m)
    else
      let position := offset + completed
      let chunk := min (min (count - completed) (4096 - position % 4096)) 512
      match vmCopyFromUser s ((buffer + completed) % 2 ^ 64) chunk m with
      | none => ((.fault, completed), object, m)
      | some contents =>
        match memfdFrame object (position / 4096) true m with
        | (none, object, m) => ((.nomem, completed), object, m)
        | (some frame, object, m) =>
          memfdWriteLoop s offset buffer count fuel (completed + chunk) object
            (storeBytes m (frameData m frame) (position % 4096) contents)

/-- `memfd_write_user`: the result and the new file offset. -/
def memfdWriteUser (s : VmSpace) (object : MemfdObject) (offset buffer count : ℕ) (m : Memory) :
    (Except Errno ℕ × ℕ) × MemfdObject × Memory :=
  if maxMemfdSize < count ∨ maxMemfdSize - count < offset then ((.error .inval, offset), object, m)
  else
    let finish := offset + count
    match if object.size < finish then memfdSetSize object finish m else (true, object, m) with
    | (false, object, m) => ((.error .nomem, offset), object, m)
    | (true, object, m) =>
      match memfdWriteLoop s offset buffer count count 0 object m with
      | ((.done, completed), object, m) => ((.ok completed, offset + completed), object, m)
      | ((.fault, completed), object, m) =>
        ((if completed ≠ 0 then .ok completed else .error .fault, offset), object, m)
      | ((.nomem, completed), object, m) =>
        ((if completed ≠ 0 then .ok completed else .error .nomem, offset), object, m)

end NovaOS.Process
