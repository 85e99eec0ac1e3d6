import NovaOS.Lib.ProbeTable
import NovaOS.Vm.Memory

/-!
# Address spaces: page records, their hash index and the page tables

The static half of `kernel/vm.c`.  A `VmSpace` keeps two structures that describe the same
mappings: an array of `VmPage` records with an open-addressing index over it, and a four-level
page table for the MMU.

Page tables are kept with the space that owns them, by physical address: `tables t i` is entry
`i` of the table at `t`.  Tables come from the heap, so no two spaces share one.

The functions follow the source one for one; a function that takes a `VmSpace *` takes and
returns the space, and the memory when it allocates.
-/

namespace NovaOS.Vm

open NovaOS.ProbeTable Function

/-! ### Constants of `include/vm.h` -/

def vmUserBase : ℕ := 0x40000000
def vmUserMmapBase : ℕ := 0x1000000000
def vmUserMmapLimit : ℕ := 0x700000000000
def vmUserStackTop : ℕ := 0x7FFFFFFFE000
def vmUserStackSize : ℕ := 0x100000
def vmUserStackBase : ℕ := vmUserStackTop - vmUserStackSize
def vmCanonicalLimit : ℕ := 0x800000000000
def vmMaxPages : ℕ := 131072
def vmMaxTables : ℕ := 1024
def vmPageHashSize : ℕ := 262144

def vmProtRead : ℕ := 1
def vmProtWrite : ℕ := 2
def vmProtExec : ℕ := 4

def pagePresent : ℕ := 1
def pageWrite : ℕ := 2
def pageUser : ℕ := 4
def pageNx : ℕ := 2 ^ 63

/-- `protection & VM_PROT_WRITE`. -/
def canWrite (protection : ℕ) : Bool := protection.testBit 1

/-- `protection & VM_PROT_EXEC`. -/
def canExec (protection : ℕ) : Bool := protection.testBit 2

/-- `canonical_user_address`. -/
def CanonicalUserAddress (address : ℕ) : Prop :=
  address < vmCanonicalLimit ∧
    ((vmUserBase ≤ address ∧ address < vmUserMmapLimit) ∨
      (vmUserStackBase ≤ address ∧ address < vmUserStackTop))

instance (address : ℕ) : Decidable (CanonicalUserAddress address) :=
  inferInstanceAs (Decidable (_ ∧ _))

/-! ### Data -/

/-- `VmPage`. -/
structure VmPage where
  virtualAddress : ℕ
  frame : ℕ
  protection : ℕ
  copyOnWrite : Bool
  shared : Bool
  used : Bool
deriving Repr, DecidableEq

/-- A cleared record. -/
def VmPage.zero : VmPage := ⟨0, 0, 0, false, false, false⟩

/-- `VmSpace`, with the page tables it owns. -/
structure VmSpace where
  pml4 : ℕ
  bootstrapPdpt : ℕ
  bootstrapDirectories : ℕ
  rootAllocation : ℕ
  /-- `allocated_tables` with `table_allocations`; `table_count` is the length -/
  allocatedTables : List (ℕ × ℕ)
  freePageHint : ℕ
  pageLookup : ℕ → ℤ
  pages : ℕ → VmPage
  tables : ℕ → ℕ → ℕ

/-- A space whose bytes are all zero. -/
def VmSpace.zero : VmSpace := ⟨0, 0, 0, 0, [], 0, fun _ => 0, fun _ => VmPage.zero, fun _ _ => 0⟩

def VmSpace.setEntry (s : VmSpace) (table index value : ℕ) : VmSpace :=
  { s with
    tables := update s.tables table (update (s.tables table) index value) }

def VmSpace.setPage (s : VmSpace) (index : ℕ) (page : VmPage) : VmSpace :=
  { s with pages := update s.pages index page }

/-! ### The root tables -/

/-- The boot loader's PML4 at `0x70000` (`boot/stage2.asm`): one entry, for supervisor use. -/
def bootPml4 (index : ℕ) : ℕ := if index = 0 then 0x71003 else 0

/-- The boot loader's four page directories at `0x72000`: 2 MiB supervisor leaves that map the
first 4 GiB to themselves. -/
def bootDirectories (index : ℕ) : ℕ := index * 0x200000 ||| 0x83

/-- Table pointer with `PAGE_PRESENT | PAGE_WRITE | PAGE_USER`. -/
def tableEntry (table : ℕ) : ℕ := table ||| 7

/-- `initialize_root`. -/
def initializeRoot (s : VmSpace) : VmSpace :=
  { s with
    tables := fun t i =>
      if t = s.pml4 then (if i = 0 then tableEntry s.bootstrapPdpt else bootPml4 i)
      else if t = s.bootstrapPdpt then
        (if i < 4 then tableEntry (s.bootstrapDirectories + i * 4096) else 0)
      else if s.bootstrapDirectories ≤ t ∧ t < s.bootstrapDirectories + 4 * 4096 then
        bootDirectories ((t - s.bootstrapDirectories) / 4096 * 512 + i)
      else s.tables t i }

/-- `vm_space_create`. -/
def vmSpaceCreate (m : Memory) : Bool × VmSpace × Memory :=
  match alignedHeapAlloc (6 * 4096) 4096 m with
  | (none, m) => (false, VmSpace.zero, m)
  | (some (tables, allocation), m) =>
    (true, initializeRoot { VmSpace.zero with
        pml4 := tables
        bootstrapPdpt := tables + 4096
        bootstrapDirectories := tables + 2 * 4096
        rootAllocation := allocation }, m)

/-! ### Walking the page tables -/

/-- The space with one more, zeroed, table. -/
def VmSpace.addTable (s : VmSpace) (table allocation : ℕ) : VmSpace :=
  { s with
    tables := update s.tables table fun _ => 0
    allocatedTables := s.allocatedTables ++ [(table, allocation)] }

/-- `allocate_table`. -/
def allocateTable (s : VmSpace) (m : Memory) : Option ℕ × VmSpace × Memory :=
  if vmMaxTables ≤ s.allocatedTables.length then (none, s, m)
  else
    match alignedHeapAlloc 4096 4096 m with
    | (none, m) => (none, s, m)
    | (some (table, allocation), m) => (some table, s.addTable table allocation, m)

/-- `next_table`, on entry `index` of `table`. -/
def nextTable (s : VmSpace) (table index : ℕ) (create : Bool) (m : Memory) :
    Option ℕ × VmSpace × Memory :=
  if (s.tables table index).testBit 0 then
    if (s.tables table index).testBit 7 then (none, s, m)
    else (some (addressBits (s.tables table index)), s, m)
  else if !create then (none, s, m)
  else
    match allocateTable s m with
    | (none, s, m) => (none, s, m)
    | (some next, s, m) => (some next, s.setEntry table index (tableEntry next), m)

/-- `walk_page_entry`: the table and index of the leaf entry for `address`. -/
def walkPageEntry (s : VmSpace) (address : ℕ) (create : Bool) (m : Memory) :
    Option (ℕ × ℕ) × VmSpace × Memory :=
  if s.pml4 = 0 ∨ ¬ CanonicalUserAddress address then (none, s, m)
  else
    match nextTable s s.pml4 (address / 2 ^ 39 % 512) create m with
    | (none, s, m) => (none, s, m)
    | (some pdpt, s, m) =>
      match nextTable s pdpt (address / 2 ^ 30 % 512) create m with
      | (none, s, m) => (none, s, m)
      | (some directory, s, m) =>
        -- a user mapping replaces the inherited identity leaf
        let s := if (s.tables directory (address / 2 ^ 21 % 512)).testBit 7 && create then
          s.setEntry directory (address / 2 ^ 21 % 512) 0 else s
        match nextTable s directory (address / 2 ^ 21 % 512) create m with
        | (none, s, m) => (none, s, m)
        | (some table, s, m) => (some (table, address / 2 ^ 12 % 512), s, m)

/-! ### Page records and their index -/

/-- The slot a page address hashes to. -/
def hashSlot (address : ℕ) : ℕ := address / 4096 * 2654435761 % 2 ^ 64 % vmPageHashSize

/-- `find_page`: the number of the record for the page of `address`. -/
def findPage (s : VmSpace) (address : ℕ) : Option ℕ :=
  probe vmPageHashSize s.pageLookup
    (fun e => (s.pages e).used && (s.pages e).virtualAddress == alignDown address)
    vmPageHashSize (hashSlot (alignDown address))

/-- The search loop of `reserve_page_record`. -/
def reserveFrom (s : VmSpace) : ℕ → ℕ → Option ℕ
  | 0, _ => none
  | fuel + 1, offset =>
    if (s.pages ((s.freePageHint + offset) % vmMaxPages)).used then reserveFrom s fuel (offset + 1)
    else some ((s.freePageHint + offset) % vmMaxPages)

/-- `reserve_page_record`. -/
def reservePageRecord (s : VmSpace) : Option ℕ × VmSpace :=
  match reserveFrom s vmMaxPages 0 with
  | none => (none, s)
  | some index => (some index, { s with freePageHint := (index + 1) % vmMaxPages })

/-- `insert_page_lookup`. -/
def insertPageLookup (s : VmSpace) (index : ℕ) : Bool × VmSpace :=
  match insertSlot vmPageHashSize s.pageLookup vmPageHashSize
      (hashSlot (s.pages index).virtualAddress) none with
  | none => (false, s)
  | some slot =>
    (true, { s with pageLookup := update s.pageLookup slot ((index : ℤ) + 1) })

/-- `remove_page_lookup`. -/
def removePageLookup (s : VmSpace) (index : ℕ) : VmSpace :=
  match findSlot vmPageHashSize s.pageLookup index vmPageHashSize
      (hashSlot (s.pages index).virtualAddress) with
  | none => s
  | some slot =>
    { s with
      pageLookup := update s.pageLookup slot (-1)
      freePageHint := if index < s.freePageHint then index else s.freePageHint }

/-- `page_flags`. -/
def pageFlags (page : VmPage) : ℕ :=
  pagePresent ||| pageUser |||
    (if canWrite page.protection && !page.copyOnWrite then pageWrite else 0) |||
    (if !canExec page.protection then pageNx else 0)

/-- The leaf entry of a record: `(uintptr_t)frame->data | page_flags(page)`. -/
def leafEntry (m : Memory) (page : VmPage) : ℕ := frameData m page.frame ||| pageFlags page

/-- `install_page`. -/
def installPage (s : VmSpace) (address frame protection : ℕ) (copyOnWrite shared : Bool)
    (m : Memory) : Bool × VmSpace × Memory :=
  match reservePageRecord s with
  | (record, s) =>
    match walkPageEntry s address true m with
    | (entry, s, m) =>
      match record, entry with
      | some index, some (table, i) =>
        let page : VmPage := ⟨address, frame, protection, copyOnWrite, shared, true⟩
        match insertPageLookup (s.setPage index page) index with
        | (false, s) => (false, s.setPage index VmPage.zero, m)
        | (true, s) => (true, s.setEntry table i (leafEntry m page), m)
      | _, _ => (false, s, m)

end NovaOS.Vm
