import NovaOS.Fs.Volume

/-!
# ELF files and the loader's record of an object

The packed structures `kernel/process.c` reads from files and from mapped memory, each with the
function that takes it out of its bytes, the record `ElfLoadedObject` the loader keeps of every
object it has mapped, and the checks on a file header and on a path.

Fields of the file that no function of the loader reads are left out.
-/

namespace NovaOS.Loader

open NovaOS.Fs

def elfPtLoad : ℕ := 1
def elfPtDynamic : ℕ := 2
def elfPtInterp : ℕ := 3
def elfPtTls : ℕ := 7

def elfMaxNeeded : ℕ := 64
def elfMaxSegments : ℕ := 16
def elfMaxSymbols : ℕ := 4194304
def elfSymbolNameMax : ℕ := 512
def vmUserLoadLimit : ℕ := 0xE00000000

/-- The word of `width` bytes at `offset` of a packed structure. -/
def field (bytes : List UInt8) (offset width : ℕ) : ℕ := leValue ((bytes.drop offset).take width)

/-! ### Structures of the file -/

structure Elf64Header where
  magic : List UInt8
  type : ℕ
  machine : ℕ
  entry : ℕ
  programHeaderOffset : ℕ
  programHeaderSize : ℕ
  programHeaderCount : ℕ
deriving Repr, DecidableEq

/-- `sizeof(Elf64Header)`. -/
def elf64HeaderSize : ℕ := 64

def Elf64Header.ofBytes (bytes : List UInt8) : Elf64Header where
  magic := bytes.take 16
  type := field bytes 16 2
  machine := field bytes 18 2
  entry := field bytes 24 8
  programHeaderOffset := field bytes 32 8
  programHeaderSize := field bytes 54 2
  programHeaderCount := field bytes 56 2

structure Elf64ProgramHeader where
  type : ℕ
  flags : ℕ
  offset : ℕ
  virtualAddress : ℕ
  fileSize : ℕ
  memorySize : ℕ
  alignment : ℕ
deriving Repr, DecidableEq

/-- `sizeof(Elf64ProgramHeader)`. -/
def elf64ProgramHeaderSize : ℕ := 56

def Elf64ProgramHeader.ofBytes (bytes : List UInt8) : Elf64ProgramHeader where
  type := field bytes 0 4
  flags := field bytes 4 4
  offset := field bytes 8 8
  virtualAddress := field bytes 16 8
  fileSize := field bytes 32 8
  memorySize := field bytes 40 8
  alignment := field bytes 48 8

/-- The program headers that stand one behind the other in the bytes of a table. -/
def programHeaders (count : ℕ) (bytes : List UInt8) : List Elf64ProgramHeader :=
  (List.range count).map fun index =>
    Elf64ProgramHeader.ofBytes ((bytes.drop (index * elf64ProgramHeaderSize)).take
      elf64ProgramHeaderSize)

/-- `sizeof(Elf64Rela)`. -/
def elf64RelaSize : ℕ := 24

structure Elf64Symbol where
  name : ℕ
  information : ℕ
  sectionIndex : ℕ
  value : ℕ
deriving Repr, DecidableEq

/-- `sizeof(Elf64Symbol)`. -/
def elf64SymbolSize : ℕ := 24

def Elf64Symbol.ofBytes (bytes : List UInt8) : Elf64Symbol :=
  ⟨field bytes 0 4, field bytes 4 1, field bytes 6 2, field bytes 8 8⟩

/-- `symbol.information >> 4`. -/
def Elf64Symbol.binding (symbol : Elf64Symbol) : ℕ := symbol.information / 16

structure Elf64VersionDefinition where
  index : ℕ
  auxiliary : ℕ
  next : ℕ

def Elf64VersionDefinition.ofBytes (bytes : List UInt8) : Elf64VersionDefinition :=
  ⟨field bytes 4 2, field bytes 12 4, field bytes 16 4⟩

/-- The field `name` of `Elf64VersionDefinitionAux`. -/
def versionDefinitionName (bytes : List UInt8) : ℕ := field bytes 0 4

/-! ### The loader's record -/

structure ElfMappedSegment where
  start : ℕ
  size : ℕ
  protection : ℕ
deriving Repr, DecidableEq

structure ElfLoadedObject where
  name : Name
  bias : ℕ
  dynamicAddress : ℕ
  dynamicSize : ℕ
  stringTable : ℕ
  stringSize : ℕ
  symbolTable : ℕ
  symbolEntrySize : ℕ
  symbolCount : ℕ
  gnuHashBloom : ℕ
  gnuHashBuckets : ℕ
  gnuHashChains : ℕ
  gnuHashBucketCount : ℕ
  gnuHashSymbolOffset : ℕ
  gnuHashBloomSize : ℕ
  gnuHashBloomShift : ℕ
  versionSymbols : ℕ
  versionDefinitions : ℕ
  versionDefinitionCount : ℕ
  versionRequirements : ℕ
  versionRequirementCount : ℕ
  rela : ℕ
  relaSize : ℕ
  relaEntrySize : ℕ
  jumpRela : ℕ
  jumpRelaSize : ℕ
  initFunction : ℕ
  initArray : ℕ
  initArraySize : ℕ
  finiArray : ℕ
  finiArraySize : ℕ
  preinitArray : ℕ
  preinitArraySize : ℕ
  tlsImage : ℕ
  tlsFileSize : ℕ
  tlsMemorySize : ℕ
  tlsAlignment : ℕ
  tlsOffset : ℕ
  tlsModuleId : ℕ
  needed : List ℕ
  segments : List ElfMappedSegment
deriving Repr, DecidableEq

/-- The record after `memset(object, 0, sizeof(*object))`. -/
def ElfLoadedObject.zero : ElfLoadedObject where
  name := []
  bias := 0
  dynamicAddress := 0
  dynamicSize := 0
  stringTable := 0
  stringSize := 0
  symbolTable := 0
  symbolEntrySize := 0
  symbolCount := 0
  gnuHashBloom := 0
  gnuHashBuckets := 0
  gnuHashChains := 0
  gnuHashBucketCount := 0
  gnuHashSymbolOffset := 0
  gnuHashBloomSize := 0
  gnuHashBloomShift := 0
  versionSymbols := 0
  versionDefinitions := 0
  versionDefinitionCount := 0
  versionRequirements := 0
  versionRequirementCount := 0
  rela := 0
  relaSize := 0
  relaEntrySize := 0
  jumpRela := 0
  jumpRelaSize := 0
  initFunction := 0
  initArray := 0
  initArraySize := 0
  finiArray := 0
  finiArraySize := 0
  preinitArray := 0
  preinitArraySize := 0
  tlsImage := 0
  tlsFileSize := 0
  tlsMemorySize := 0
  tlsAlignment := 0
  tlsOffset := 0
  tlsModuleId := 0
  needed := []
  segments := []

/-! ### Checks -/

/-- `valid_elf`; the sum of the table's offset and size is a 64-bit one. -/
def validElf (header : Elf64Header) (size : ℕ) : Bool :=
  decide (elf64HeaderSize ≤ size) && header.magic.take 6 == [0x7F, 69, 76, 70, 2, 1] &&
    (header.type == 2 || header.type == 3) && header.machine == 0x3E &&
    header.programHeaderSize == elf64ProgramHeaderSize &&
    decide (header.programHeaderCount ≤ 64) &&
    decide ((header.programHeaderOffset + header.programHeaderCount * elf64ProgramHeaderSize) % 2 ^ 64
      ≤ size)

/-- `elf_segment_protection`. -/
def elfSegmentProtection (flags : ℕ) : ℕ :=
  (if flags.testBit 2 then 1 else 0) ||| (if flags.testBit 1 then 2 else 0) |||
    (if flags.testBit 0 then 4 else 0)

/-- Whether two dots stand next to each other. -/
def hasDotDot : Name → Bool
  | first :: second :: rest => (first == dot && second == dot) || hasDotDot (second :: rest)
  | _ => false

/-- `elf_basename`. -/
def elfBasename (path : Name) : Option Name :=
  let base := (lastSlash path).elim path fun index => path.drop (index + 1)
  if base.length = 0 ∨ base.length > 95 then none
  else if hasDotDot base ∨ slash ∈ base then none
  else some base

end NovaOS.Loader
