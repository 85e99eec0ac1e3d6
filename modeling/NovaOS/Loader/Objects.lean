import NovaOS.Lib.Fallible
import NovaOS.Loader.Elf
import NovaOS.Process.State

/-!
# Mapping objects

`map_elf_object` of `kernel/process.c` with the functions under it: the program headers, the segments
and the dynamic section of one object.

The loader works on the address space being filled and on the kernel's memory; a function that
returns `false` leaves both as they were at that point.  Addresses are 64-bit words.
-/

namespace NovaOS.Loader

open NovaOS.Vm NovaOS.Fs NovaOS.Process
open NovaOS.Fallible (check reads onlyIf)

/-- What the loader works on. -/
structure Target where
  space : AddressSpace
  memory : Memory

abbrev Load := Fallible Target

namespace Target

variable (t : Target)

/-- `vm_copy_from_user`. -/
def read (address size : ℕ) : Option (List UInt8) := vmCopyFromUser t.space.vm address size t.memory

/-- `vm_copy_from_user` of one word of `width` bytes. -/
def readWord (width address : ℕ) : Option ℕ := (t.read address width).map leValue

/-- Replace the page tables and the memory. -/
def withVm (vm : VmSpace) (memory : Memory) : Target := ⟨{ t.space with vm := vm }, memory⟩

end Target

/-- A function of `vm.c` that changes the space. -/
def onVm (f : VmSpace → Memory → Bool × VmSpace × Memory) : Load Unit := fun t =>
  match f t.space.vm t.memory with
  | (ok, vm, memory) => (if ok then some () else none, t.withVm vm memory)

/-- `vm_map_page`. -/
def mapPage (protection address : ℕ) : Load Unit := onVm fun s m => vmMapPage s address protection m

/-- `vm_copy_to_user`. -/
def copyTo (destination : ℕ) (source : List UInt8) : Load Unit :=
  onVm fun s m => vmCopyToUser s destination source m

/-- `vm_range_mapped`, as a check. -/
def rangeMapped (address size : ℕ) : Load Unit :=
  reads fun t => if vmRangeMapped t.space.vm address size false then some () else none

/-- `vm_map_page` for each page of a list, until one fails. -/
def mapEach (protection : ℕ) : List ℕ → Load Unit
  | [] => pure ()
  | page :: rest => do
    mapPage protection page
    mapEach protection rest

/-! ### Strings -/

/-- The loop of `copy_mapped_string`, `fuel` bytes before the buffer is full. -/
def copyStringLoop (t : Target) (address : ℕ) : ℕ → ℕ → Option Name
  | 0, _ => none
  | fuel + 1, index =>
    match t.readWord 1 ((address + index) % 2 ^ 64) with
    | none => none
    | some byte =>
      if byte = 0 then some []
      else (copyStringLoop t address fuel (index + 1)).map (UInt8.ofNat byte :: ·)

/-- `copy_mapped_string`. -/
def copyMappedString (t : Target) (address capacity : ℕ) : Option Name :=
  if address = 0 ∨ capacity < 2 then none else copyStringLoop t address (capacity - 1) 0

/-! ### The dynamic section -/

/-- The inner loop of `parse_gnu_hash`: follow a chain to its end and keep the largest symbol;
`fuel` is what is left below `ELF_MAX_SYMBOLS`. -/
def scanChain (t : Target) (chains symbolOffset : ℕ) : ℕ → ℕ → ℕ → Option ℕ
  | 0, _, _ => none
  | fuel + 1, symbol, maximumSymbol =>
    match t.readWord 4 ((chains + (symbol - symbolOffset) * 4) % 2 ^ 64) with
    | none => none
    | some chain =>
      let maximumSymbol := if maximumSymbol ≤ symbol then symbol + 1 else maximumSymbol
      if chain % 2 = 1 then some maximumSymbol
      else scanChain t chains symbolOffset fuel (symbol + 1) maximumSymbol

/-- The loop of `parse_gnu_hash` over the last `count` buckets. -/
def scanBuckets (t : Target) (buckets chains symbolOffset : ℕ) : ℕ → ℕ → ℕ → Option ℕ
  | 0, _, maximumSymbol => some maximumSymbol
  | count + 1, bucketIndex, maximumSymbol =>
    match t.readWord 4 ((buckets + bucketIndex * 4) % 2 ^ 64) with
    | none => none
    | some symbol =>
      if symbol = 0 then scanBuckets t buckets chains symbolOffset count (bucketIndex + 1) maximumSymbol
      else if symbol < symbolOffset ∨ elfMaxSymbols ≤ symbol then none
      else
        match scanChain t chains symbolOffset (elfMaxSymbols - symbol) symbol maximumSymbol with
        | none => none
        | some maximumSymbol =>
          scanBuckets t buckets chains symbolOffset count (bucketIndex + 1) maximumSymbol

/-- `parse_gnu_hash`. -/
def parseGnuHash (t : Target) (object : ElfLoadedObject) (hashAddress : ℕ) :
    Option ElfLoadedObject :=
  match t.read hashAddress 16 with
  | none => none
  | some header =>
    let bucketCount := field header 0 4
    let symbolOffset := field header 4 4
    let bloomSize := field header 8 4
    let bloomShift := field header 12 4
    if bucketCount = 0 ∨ bloomSize = 0 ∨ elfMaxSymbols < bucketCount ∨ elfMaxSymbols < symbolOffset ∨
        elfMaxSymbols < bloomSize ∨ 32 ≤ bloomShift then none
    else
      let bloom := (hashAddress + 16) % 2 ^ 64
      let buckets := (bloom + bloomSize * 8) % 2 ^ 64
      let chains := (buckets + bucketCount * 4) % 2 ^ 64
      if bloom < hashAddress ∨ buckets < bloom ∨ chains < buckets then none
      else
        match scanBuckets t buckets chains symbolOffset bucketCount 0 symbolOffset with
        | none => none
        | some maximumSymbol =>
          some { object with
            gnuHashBloom := bloom
            gnuHashBuckets := buckets
            gnuHashChains := chains
            gnuHashBucketCount := bucketCount
            gnuHashSymbolOffset := symbolOffset
            gnuHashBloomSize := bloomSize
            gnuHashBloomShift := bloomShift
            symbolCount := if object.symbolCount < maximumSymbol then maximumSymbol
              else object.symbolCount }

/-- The variables of `parse_dynamic_object`. -/
structure DynamicScan where
  object : ElfLoadedObject
  hashAddress : ℕ
  gnuHashAddress : ℕ

/-- One entry of the dynamic section that is not `DT_NULL`; a tag no case is for, and `DT_FINI`,
which nothing reads, change nothing. -/
def dynamicEntry (scan : DynamicScan) (tag value : ℕ) : Option DynamicScan :=
  let object := scan.object
  let address := (object.bias + value) % 2 ^ 64
  match tag with
  | 1 =>
    if elfMaxNeeded ≤ object.needed.length then none
    else some { scan with object := { object with needed := object.needed ++ [value] } }
  | 4 => some { scan with hashAddress := address }
  | 0x6FFFFEF5 => some { scan with gnuHashAddress := address }
  | 0x6FFFFFF0 => some { scan with object := { object with versionSymbols := address } }
  | 0x6FFFFFFC => some { scan with object := { object with versionDefinitions := address } }
  | 0x6FFFFFFD =>
    if 65535 < value then none
    else some { scan with object := { object with versionDefinitionCount := value } }
  | 0x6FFFFFFE => some { scan with object := { object with versionRequirements := address } }
  | 0x6FFFFFFF =>
    if 65535 < value then none
    else some { scan with object := { object with versionRequirementCount := value } }
  | 5 => some { scan with object := { object with stringTable := address } }
  | 6 => some { scan with object := { object with symbolTable := address } }
  | 10 => some { scan with object := { object with stringSize := value } }
  | 11 => some { scan with object := { object with symbolEntrySize := value } }
  | 12 => some { scan with object := { object with initFunction := address } }
  | 25 => some { scan with object := { object with initArray := address } }
  | 27 => some { scan with object := { object with initArraySize := value } }
  | 26 => some { scan with object := { object with finiArray := address } }
  | 28 => some { scan with object := { object with finiArraySize := value } }
  | 32 => some { scan with object := { object with preinitArray := address } }
  | 33 => some { scan with object := { object with preinitArraySize := value } }
  | 7 => some { scan with object := { object with rela := address } }
  | 8 => some { scan with object := { object with relaSize := value } }
  | 9 => some { scan with object := { object with relaEntrySize := value } }
  | 23 => some { scan with object := { object with jumpRela := address } }
  | 2 => some { scan with object := { object with jumpRelaSize := value } }
  | 20 => if value ≠ 7 then none else some scan
  | _ => some scan

/-- The loop of `parse_dynamic_object` over at most `count` entries. -/
def scanDynamic (t : Target) : ℕ → ℕ → DynamicScan → Option DynamicScan
  | 0, _, scan => some scan
  | count + 1, offset, scan =>
    match t.read ((scan.object.dynamicAddress + offset) % 2 ^ 64) 16 with
    | none => none
    | some entry =>
      if field entry 0 8 = 0 then some scan
      else
        match dynamicEntry scan (field entry 0 8) (field entry 8 8) with
        | none => none
        | some scan => scanDynamic t count (offset + 16) scan

/-- The checks of `parse_dynamic_object` on entry and array sizes. -/
def dynamicSizesOk (object : ElfLoadedObject) : Bool :=
  object.symbolEntrySize == elf64SymbolSize && object.relaEntrySize == elf64RelaSize &&
    object.initArraySize % 8 == 0 && object.finiArraySize % 8 == 0 &&
    object.preinitArraySize % 8 == 0 &&
    !(object.initArraySize != 0 && object.initArray == 0) &&
    !(object.finiArraySize != 0 && object.finiArray == 0) &&
    !(object.preinitArraySize != 0 && object.preinitArray == 0)

/-- The part of `parse_dynamic_object` that takes the symbol count from `DT_HASH`. -/
def parseHash (t : Target) (object : ElfLoadedObject) (hashAddress : ℕ) : Option ElfLoadedObject :=
  if hashAddress = 0 then some object
  else
    match t.read hashAddress 8 with
    | none => none
    | some header =>
      if field header 0 4 = 0 ∨ field header 4 4 = 0 ∨ elfMaxSymbols < field header 4 4 then none
      else some { object with symbolCount := field header 4 4 }

/-- The last part of `parse_dynamic_object`: a string table right behind the symbol table bounds the
symbols. -/
def widenSymbols (object : ElfLoadedObject) : ElfLoadedObject :=
  if object.symbolTable ≠ 0 ∧ object.symbolTable < object.stringTable then
    let count := (object.stringTable - object.symbolTable) / elf64SymbolSize
    if count ≠ 0 ∧ count ≤ elfMaxSymbols ∧ object.symbolCount < count then
      { object with symbolCount := count }
    else object
  else object

/-- `parse_dynamic_object`. -/
def parseDynamicObject (t : Target) (object : ElfLoadedObject) : Option ElfLoadedObject :=
  if object.dynamicAddress = 0 ∨ object.dynamicSize = 0 then some object
  else
    match scanDynamic t (object.dynamicSize / 16) 0
        ⟨{ object with relaEntrySize := elf64RelaSize, symbolEntrySize := elf64SymbolSize }, 0, 0⟩ with
    | none => none
    | some scan =>
      if !dynamicSizesOk scan.object then none
      else
        match parseHash t scan.object scan.hashAddress with
        | none => none
        | some object =>
          if scan.gnuHashAddress = 0 then some (widenSymbols object)
          else (parseGnuHash t object scan.gnuHashAddress).map widenSymbols

/-! ### Mapping one object -/

/-- `fs_read_at` that has to deliver all the bytes. -/
def readExactly (v : Volume) (name : Name) (offset size : ℕ) : Option (List UInt8) :=
  match fsReadAt v name offset size with
  | none => none
  | some bytes => if bytes.length = size then some bytes else none

/-- The pass of `map_elf_object` over the `PT_INTERP` headers; `wanted` is whether the caller gave a
buffer for the name, and the empty name is none. -/
def findInterpreter (v : Volume) (name : Name) (size : ℕ) (wanted : Bool) :
    List Elf64ProgramHeader → Name → Option Name
  | [], found => some found
  | segment :: rest, found =>
    if segment.type ≠ elfPtInterp then findInterpreter v name size wanted rest found
    else if !wanted ∨ segment.fileSize = 0 ∨ 96 < segment.fileSize ∨ size < segment.offset ∨
        size - segment.offset < segment.fileSize then none
    else
      match readExactly v name segment.offset segment.fileSize with
      | none => none
      | some path =>
        match elfBasename (cString path) with
        | none => none
        | some base => findInterpreter v name size wanted rest base

/-- The copy loop of `map_elf_object`; every round copies at least one byte, so `fuel` is the size. -/
def copySegment (v : Volume) (name : Name) (offset start fileSize : ℕ) : ℕ → ℕ → Load Unit
  | 0, copied => check (fileSize ≤ copied)
  | fuel + 1, copied =>
    if fileSize ≤ copied then pure ()
    else do
      let contents ← reads fun _ => fsReadAt v name ((offset + copied) % 2 ^ 64)
        (min (fileSize - copied) 512)
      check (contents.length ≠ 0)
      copyTo ((start + copied) % 2 ^ 64) contents
      copySegment v name offset start fileSize fuel (copied + contents.length)

/-- The variables of `map_elf_object`'s pass over the segments. -/
structure Mapping where
  object : ElfLoadedObject
  maximumEnd : ℕ
  hasSegment : Bool

/-- A `PT_TLS` header. -/
def noteTls (segment : Elf64ProgramHeader) (p : Mapping) : Load Mapping := do
  let alignment := if segment.alignment ≠ 0 then segment.alignment else 1
  let image := (segment.virtualAddress + p.object.bias) % 2 ^ 64
  let finish := (image + segment.memorySize) % 2 ^ 64
  check (p.object.tlsMemorySize = 0 ∧ segment.fileSize ≤ segment.memorySize ∧
    alignment &&& (alignment - 1) = 0 ∧ alignment ≤ 4096 ∧ vmUserBase ≤ image ∧ image ≤ finish ∧
    finish ≤ vmUserLoadLimit)
  pure { p with object := { p.object with
    tlsImage := image
    tlsFileSize := segment.fileSize
    tlsMemorySize := segment.memorySize
    tlsAlignment := alignment } }

/-- A `PT_LOAD` header. -/
def mapLoad (v : Volume) (name : Name) (size : ℕ) (segment : Elf64ProgramHeader) (p : Mapping) :
    Load Mapping := do
  check (p.object.segments.length < elfMaxSegments)
  let start := (segment.virtualAddress + p.object.bias) % 2 ^ 64
  let finish := (start + segment.memorySize) % 2 ^ 64
  check (start ≤ finish ∧ vmUserBase ≤ start ∧ finish ≤ vmUserLoadLimit ∧
    segment.fileSize ≤ segment.memorySize ∧ segment.offset ≤ size ∧
    segment.fileSize ≤ size - segment.offset)
  mapEach (vmProtRead ||| vmProtWrite ||| vmProtExec) (pageRange (alignDown start) (alignUp finish))
  copySegment v name segment.offset start segment.fileSize segment.fileSize 0
  pure {
    object := { p.object with
      segments := p.object.segments ++ [⟨alignDown start, alignUp finish - alignDown start,
        elfSegmentProtection segment.flags⟩] }
    maximumEnd := max p.maximumEnd finish
    hasSegment := true }

/-- One header in `map_elf_object`'s pass over the segments. -/
def mapSegment (v : Volume) (name : Name) (size : ℕ) (segment : Elf64ProgramHeader) (p : Mapping) :
    Load Mapping :=
  if segment.type = elfPtInterp then pure p
  else if segment.type = elfPtTls then noteTls segment p
  else if segment.type = elfPtDynamic then
    pure { p with object := { p.object with
      dynamicAddress := (segment.virtualAddress + p.object.bias) % 2 ^ 64
      dynamicSize := segment.memorySize } }
  else if segment.type ≠ elfPtLoad then pure p
  else mapLoad v name size segment p

def mapSegments (v : Volume) (name : Name) (size : ℕ) :
    List Elf64ProgramHeader → Mapping → Load Mapping
  | [], p => pure p
  | segment :: rest, p => do
    let p ← mapSegment v name size segment p
    mapSegments v name size rest p

/-- What `map_elf_object` leaves in its output parameters. -/
structure Mapped where
  object : ElfLoadedObject
  entry : ℕ
  maximumEnd : ℕ
  interpreter : Name

/-- The headers `map_elf_object` reads from the file: its size, the file header and the program
headers. -/
def readHeaders (v : Volume) (name : Name) :
    Option (ℕ × Elf64Header × List Elf64ProgramHeader) :=
  match fsPathInfo v name true with
  | none => none
  | some info =>
    if info.size = 0 then none
    else
      match readExactly v name 0 elf64HeaderSize with
      | none => none
      | some bytes =>
        let header := Elf64Header.ofBytes bytes
        if !validElf header info.size then none
        else
          match readExactly v name header.programHeaderOffset
              (header.programHeaderCount * elf64ProgramHeaderSize) with
          | none => none
          | some table => some (info.size, header, programHeaders header.programHeaderCount table)

/-- `map_elf_object`.  `entryOut` and `interpreterOut` are whether the caller gave a place for the
entry point and for the interpreter's name; a caller that gave none for `maximum_end` does not look
at it. -/
def mapElfObject (v : Volume) (name : Name) (requestedBias : ℕ) (entryOut interpreterOut : Bool)
    (maximumEnd : ℕ) : Load Mapped := do
  let (size, header, segments) ← reads fun _ => readHeaders v name
  let bias := if header.type = 3 then requestedBias else 0
  let interpreter ← reads fun _ => findInterpreter v name size interpreterOut segments []
  check (interpreter = [] ∨ (fsPathInfo v interpreter true).isSome)
  let p ← mapSegments v name size segments
    ⟨{ ElfLoadedObject.zero with name := name.take 95, bias := bias }, maximumEnd, false⟩
  onlyIf (p.object.tlsMemorySize ≠ 0) (rangeMapped p.object.tlsImage p.object.tlsMemorySize)
  check (p.hasSegment = true)
  let object ← reads fun t => parseDynamicObject t p.object
  let entry := (header.entry + bias) % 2 ^ 64
  check (entryOut = true → vmUserBase ≤ entry ∧ entry < vmUserLoadLimit)
  pure ⟨object, entry, p.maximumEnd, interpreter⟩

end NovaOS.Loader
