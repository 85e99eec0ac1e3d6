import NovaOS.Vm.Space

/-!
# The operations of `kernel/vm.c`

Mapping, unmapping, protection, copies to and from user memory, copy-on-write cloning and page
faults, in the order of the source.  `frame->references` and `frame->data` are read from the
memory the operation runs on.
-/

namespace NovaOS.Vm

/-! ### Resetting and destroying a space -/

/-- The releases of `vm_space_reset_user`, the first `n` of them. -/
def releaseLoop (s : VmSpace) (n : ℕ) (m : Memory) : Memory :=
  (List.range n).foldl
    (fun m i => if (s.pages i).used then vmFrameRelease (s.pages i).frame m else m) m

/-- `vm_space_reset_user`. -/
def vmSpaceResetUser (s : VmSpace) (m : Memory) : VmSpace × Memory :=
  if s.pml4 = 0 then (s, m)
  else
    let m := releaseLoop s vmMaxPages m
    let m := s.allocatedTables.foldl (fun m t => heapFree t.2 m) m
    (initializeRoot { s with
        pages := fun i => if (s.pages i).used then VmPage.zero else s.pages i
        pageLookup := fun _ => 0
        freePageHint := 0
        allocatedTables := [] }, m)

/-- `vm_space_destroy`. -/
def vmSpaceDestroy (s : VmSpace) (m : Memory) : VmSpace × Memory :=
  match vmSpaceResetUser s m with
  | (s, m) => (VmSpace.zero, if s.rootAllocation ≠ 0 then heapFree s.rootAllocation m else m)

/-! ### Mapping -/

/-- The page addresses of `for (page = first; page < last; page += VM_PAGE_SIZE)`. -/
def pageRange (first last : ℕ) : List ℕ :=
  (List.range ((last - first + 4095) / 4096)).map fun i => first + i * 4096

/-- Store a changed record and write its leaf entry, the step `vm_protect`, `make_private`,
`vm_space_clone_cow` and `vm_mark_shared` have in common. -/
def rewritePage (s : VmSpace) (index : ℕ) (page : VmPage) (address : ℕ) (m : Memory) :
    Bool × VmSpace :=
  match walkPageEntry (s.setPage index page) address false m with
  | (none, s, _) => (false, s)
  | (some (table, i), s, _) => (true, s.setEntry table i (leafEntry m page))

/-- The second loop of `vm_protect` and of `vm_mark_shared`. -/
def rewriteLoop (s : VmSpace) (change : VmPage → VmPage) (m : Memory) : List ℕ → Bool × VmSpace
  | [] => (true, s)
  | address :: rest =>
    match findPage s address with
    | none => (false, s)
    | some index =>
      match rewritePage s index (change (s.pages index)) address m with
      | (false, s) => (false, s)
      | (true, s) => rewriteLoop s change m rest

/-- `vm_protect` and `vm_mark_shared` up to what they do to a record: nothing is changed unless
every page of the range is mapped. -/
def rewriteRange (s : VmSpace) (address size : ℕ) (change : VmPage → VmPage) (m : Memory) :
    Bool × VmSpace :=
  if size = 0 ∨ (address + size) % 2 ^ 64 < address then (false, s)
  else
    let pages := pageRange (alignDown address) (alignUp ((address + size) % 2 ^ 64))
    if pages.any fun page => (findPage s page).isNone then (false, s)
    else rewriteLoop s change m pages

/-- What `vm_protect` does to a record. -/
def protectPage (m : Memory) (protection : ℕ) (page : VmPage) : VmPage :=
  { page with
    protection := protection
    copyOnWrite := !page.shared && canWrite protection && decide (1 < frameReferences m page.frame) }

/-- `vm_protect`. -/
def vmProtect (s : VmSpace) (address size protection : ℕ) (m : Memory) : Bool × VmSpace :=
  rewriteRange s address size (protectPage m protection) m

/-- `vm_map_page`. -/
def vmMapPage (s : VmSpace) (virtualAddress protection : ℕ) (m : Memory) :
    Bool × VmSpace × Memory :=
  if s.pml4 = 0 ∨ virtualAddress % 4096 ≠ 0 ∨ ¬ CanonicalUserAddress virtualAddress then
    (false, s, m)
  else
    match findPage s virtualAddress with
    | some _ =>
      match vmProtect s virtualAddress 4096 protection m with
      | (ok, s) => (ok, s, m)
    | none =>
      match vmFrameCreate m with
      | (none, m) => (false, s, m)
      | (some frame, m) =>
        match installPage s virtualAddress frame protection false false m with
        | (false, s, m) => (false, s, vmFrameRelease frame m)
        | (true, s, m) => (true, s, m)

/-- `vm_map_shared_frame`; a frame that is not live is the `NULL` frame. -/
def vmMapSharedFrame (s : VmSpace) (virtualAddress frame protection : ℕ) (m : Memory) :
    Bool × VmSpace × Memory :=
  if s.pml4 = 0 ∨ m.frames frame = none ∨ virtualAddress % 4096 ≠ 0 ∨
      ¬ CanonicalUserAddress virtualAddress ∨ (findPage s virtualAddress).isSome then (false, s, m)
  else
    match installPage s virtualAddress frame protection false true (vmFrameRetain frame m) with
    | (false, s, m) => (false, s, vmFrameRelease frame m)
    | (true, s, m) => (true, s, m)

/-- `vm_unmap_page`. -/
def vmUnmapPage (s : VmSpace) (virtualAddress : ℕ) (m : Memory) : Bool × VmSpace × Memory :=
  match findPage s (alignDown virtualAddress) with
  | none => (false, s, m)
  | some index =>
    match walkPageEntry s (alignDown virtualAddress) false m with
    | (entry, s, m) =>
      let s := match entry with
        | some (table, i) => s.setEntry table i 0
        | none => s
      let frame := (s.pages index).frame
      (true, (removePageLookup s index).setPage index VmPage.zero, vmFrameRelease frame m)

/-- `vm_range_mapped`. -/
def vmRangeMapped (s : VmSpace) (address size : ℕ) (requireWrite : Bool) : Bool :=
  if size = 0 ∨ (address + size) % 2 ^ 64 < address ∨
      vmCanonicalLimit < (address + size) % 2 ^ 64 then false
  else
    (pageRange (alignDown address) (alignUp ((address + size) % 2 ^ 64))).all fun page =>
      match findPage s page with
      | none => false
      | some index => !(requireWrite && !canWrite (s.pages index).protection)

/-! ### Copy-on-write and user copies -/

/-- `memcpy` of a whole page. -/
def copyPage (m : Memory) (destination source : ℕ) : Memory :=
  { m with bytes := Function.update m.bytes destination (m.bytes source) }

/-- The block of `make_private` under `references > 1`: the frame the page ends up with, a copy
when others still use the old one. -/
def privateFrame (frame : ℕ) (m : Memory) : Option ℕ × Memory :=
  if 1 < frameReferences m frame then
    match vmFrameCreate m with
    | (none, m) => (none, m)
    | (some replacement, m) =>
      (some replacement,
        vmFrameRelease frame (copyPage m (frameData m replacement) (frameData m frame)))
  else (some frame, m)

/-- The record `make_private` leaves. -/
def privatePage (page : VmPage) (frame : ℕ) : VmPage :=
  { page with frame := frame, copyOnWrite := false }

/-- `make_private`. -/
def makePrivate (s : VmSpace) (index : ℕ) (m : Memory) : Bool × VmSpace × Memory :=
  if !(s.pages index).copyOnWrite then (true, s, m)
  else if !canWrite (s.pages index).protection then (false, s, m)
  else
    match privateFrame (s.pages index).frame m with
    | (none, m) => (false, s, m)
    | (some frame, m) =>
      match rewritePage s index (privatePage (s.pages index) frame)
          (s.pages index).virtualAddress m with
      | (ok, s) => (ok, s, m)

/-- `memcpy` of `input` into the page at `page`, from `offset` on. -/
def storeBytes (m : Memory) (page offset : ℕ) (input : List UInt8) : Memory :=
  { m with bytes := Function.update m.bytes page (writeBytes (m.bytes page) offset input) }

/-- The loop of `vm_copy_to_user`; every round moves at least one byte, so `fuel` is the size. -/
def copyToUserLoop : ℕ → VmSpace → ℕ → List UInt8 → Memory → Bool × VmSpace × Memory
  | 0, s, _, input, m => (input.isEmpty, s, m)
  | fuel + 1, s, destination, input, m =>
    if input.isEmpty then (true, s, m)
    else
      match findPage s destination with
      | none => (false, s, m)
      | some index =>
        if !canWrite (s.pages index).protection then (false, s, m)
        else
          match makePrivate s index m with
          | (false, s, m) => (false, s, m)
          | (true, s, m) =>
            let chunk := min (4096 - destination % 4096) input.length
            copyToUserLoop fuel s ((destination + chunk) % 2 ^ 64) (input.drop chunk)
              (storeBytes m (frameData m (s.pages index).frame) (destination % 4096)
                (input.take chunk))

/-- `vm_copy_to_user`. -/
def vmCopyToUser (s : VmSpace) (destination : ℕ) (source : List UInt8) (m : Memory) :
    Bool × VmSpace × Memory :=
  copyToUserLoop source.length s destination source m

/-- The loop of `vm_copy_from_user`. -/
def copyFromUserLoop (s : VmSpace) (m : Memory) : ℕ → ℕ → ℕ → Option (List UInt8)
  | 0, _, size => if size = 0 then some [] else none
  | fuel + 1, source, size =>
    if size = 0 then some []
    else
      match findPage s source with
      | none => none
      | some index =>
        let chunk := min (4096 - source % 4096) size
        (copyFromUserLoop s m fuel ((source + chunk) % 2 ^ 64) (size - chunk)).map
          (readBytes (m.bytes (frameData m (s.pages index).frame)) (source % 4096) chunk ++ ·)

/-- `vm_copy_from_user`: the bytes read, or `none` when the copy fails. -/
def vmCopyFromUser (s : VmSpace) (source size : ℕ) (m : Memory) : Option (List UInt8) :=
  copyFromUserLoop s m size source size

/-- The outer loop of `vm_find_free_range`. -/
def findFreeLoop (s : VmSpace) (pageCount : ℕ) : ℕ → ℕ → ℕ
  | 0, _ => 0
  | fuel + 1, candidate =>
    if vmUserMmapLimit < (candidate + pageCount * 4096) % 2 ^ 64 then 0
    else if (List.range pageCount).all fun offset =>
        (findPage s ((candidate + offset * 4096) % 2 ^ 64)).isNone then candidate
    else findFreeLoop s pageCount fuel ((candidate + 4096) % 2 ^ 64)

/-- `vm_find_free_range`; the candidates step through the pages of the word, so `2 ^ 52` rounds
are never used up. -/
def vmFindFreeRange (s : VmSpace) (hint size : ℕ) : ℕ :=
  if size = 0 then 0
  else
    findFreeLoop s (alignUp size / 4096) (2 ^ 52)
      (alignUp (if hint < vmUserMmapBase then vmUserMmapBase else hint))

/-! ### Cloning -/

/-- The loop of `vm_space_clone_cow` over the records of `source`, from record `index` on. -/
def cloneLoop : ℕ → ℕ → VmSpace → VmSpace → Memory → Bool × VmSpace × VmSpace × Memory
  | 0, _, destination, source, m => (true, destination, source, m)
  | fuel + 1, index, destination, source, m =>
    let page := source.pages index
    if !page.used then cloneLoop fuel (index + 1) destination source m
    else
      let copyOnWrite := !page.shared && canWrite page.protection
      match installPage destination page.virtualAddress page.frame page.protection copyOnWrite
          page.shared (vmFrameRetain page.frame m) with
      | (false, destination, m) =>
        match vmSpaceDestroy destination (vmFrameRelease page.frame m) with
        | (destination, m) => (false, destination, source, m)
      | (true, destination, m) =>
        if !copyOnWrite then cloneLoop fuel (index + 1) destination source m
        else
          match rewritePage source index { page with copyOnWrite := true } page.virtualAddress m with
          | (false, source) =>
            match vmSpaceDestroy destination m with
            | (destination, m) => (false, destination, source, m)
          | (true, source) => cloneLoop fuel (index + 1) destination source m

/-- `vm_space_clone_cow`: the new space and the source. -/
def vmSpaceCloneCow (source : VmSpace) (m : Memory) : Bool × VmSpace × VmSpace × Memory :=
  match vmSpaceCreate m with
  | (false, destination, m) => (false, destination, source, m)
  | (true, destination, m) => cloneLoop vmMaxPages 0 destination source m

/-! ### Page faults and shared pages -/

/-- `VM_FAULT_UNHANDLED`, `VM_FAULT_COW`, `VM_FAULT_DEMAND`. -/
inductive FaultResult
  | unhandled
  | cow
  | demand
deriving Repr, DecidableEq

/-- `vm_handle_page_fault`. -/
def vmHandlePageFault (s : VmSpace) (address errorCode : ℕ) (m : Memory) :
    FaultResult × VmSpace × Memory :=
  if !errorCode.testBit 2 then (.unhandled, s, m)
  else if errorCode % 8 = 7 then
    match findPage s address with
    | none => (.unhandled, s, m)
    | some index =>
      if !(s.pages index).copyOnWrite then (.unhandled, s, m)
      else
        match makePrivate s index m with
        | (true, s, m) => (.cow, s, m)
        | (false, s, m) => (.unhandled, s, m)
  else if !errorCode.testBit 0 ∧ vmUserStackBase ≤ address ∧ address < vmUserStackTop then
    match vmMapPage s (alignDown address) (vmProtRead ||| vmProtWrite) m with
    | (true, s, m) => (.demand, s, m)
    | (false, s, m) => (.unhandled, s, m)
  else (.unhandled, s, m)

/-- What `vm_mark_shared` does to a record. -/
def sharePage (page : VmPage) : VmPage := { page with shared := true, copyOnWrite := false }

/-- `vm_mark_shared`. -/
def vmMarkShared (s : VmSpace) (address size : ℕ) (m : Memory) : Bool × VmSpace :=
  rewriteRange s address size sharePage m

end NovaOS.Vm
