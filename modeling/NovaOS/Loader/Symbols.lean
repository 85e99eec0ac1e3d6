import NovaOS.Loader.Objects

/-!
# Symbol lookup

`find_symbol_in_object` with its two branches, the GNU hash table and the scan of the symbol table,
and the symbol versions under it.

Lookups only read the mapped tables.  Where the source returns 1, 0 or -1, the result here is a
symbol, `some none`, or `none` for malformed data.
-/

namespace NovaOS.Loader

open NovaOS.Fs

/-- `read_object_symbol`. -/
def readObjectSymbol (t : Target) (object : ElfLoadedObject) (index : ℕ) : Option Elf64Symbol :=
  if object.symbolTable = 0 ∨ object.symbolCount ≤ index then none
  else
    (t.read ((object.symbolTable + index * elf64SymbolSize) % 2 ^ 64) elf64SymbolSize).map
      Elf64Symbol.ofBytes

/-- `gnu_symbol_hash`. -/
def gnuSymbolHash (name : Name) : ℕ :=
  name.foldl (fun hash byte => (hash * 33 + byte.toNat) % 2 ^ 32) 5381

/-! ### Versions -/

/-- `read_symbol_version`. -/
def readSymbolVersion (t : Target) (object : ElfLoadedObject) (symbolIndex : ℕ) : Option ℕ :=
  if object.versionSymbols = 0 then some 1
  else t.readWord 2 ((object.versionSymbols + symbolIndex * 2) % 2 ^ 64)

/-- The string of an object's string table at `offset`, as the version functions read it. -/
def versionString (t : Target) (object : ElfLoadedObject) (offset : ℕ) : Option Name :=
  if object.stringSize ≤ offset then none
  else copyMappedString t ((object.stringTable + offset) % 2 ^ 64) elfSymbolNameMax

/-- The loop of `defined_version_name`. -/
def definedLoop (t : Target) (object : ElfLoadedObject) (versionIndex : ℕ) : ℕ → ℕ → Option Name
  | 0, _ => none
  | count + 1, definitionAddress =>
    match (t.read definitionAddress 20).map Elf64VersionDefinition.ofBytes with
    | none => none
    | some definition =>
      if definition.index % 2 ^ 15 = versionIndex then
        let auxiliaryAddress := (definitionAddress + definition.auxiliary) % 2 ^ 64
        if auxiliaryAddress < definitionAddress then none
        else
          match (t.read auxiliaryAddress 8).map versionDefinitionName with
          | none => none
          | some name => versionString t object name
      else
        let next := (definitionAddress + definition.next) % 2 ^ 64
        if definition.next = 0 ∨ next ≤ definitionAddress then none
        else definedLoop t object versionIndex count next

/-- `defined_version_name`. -/
def definedVersionName (t : Target) (object : ElfLoadedObject) (versionIndex : ℕ) : Option Name :=
  if versionIndex % 2 ^ 15 ≤ 1 then some []
  else if object.versionDefinitions = 0 ∨ object.versionDefinitionCount = 0 then none
  else definedLoop t object (versionIndex % 2 ^ 15) object.versionDefinitionCount
    object.versionDefinitions

/-- `symbol_version_matches`. -/
def symbolVersionMatches (t : Target) (object : ElfLoadedObject) (symbolIndex : ℕ)
    (requestedVersion : Name) : Option Bool :=
  match readSymbolVersion t object symbolIndex with
  | none => none
  | some rawVersion =>
    if requestedVersion = [] then some (!rawVersion.testBit 15)
    else if rawVersion % 2 ^ 15 ≤ 1 then some false
    else
      (definedVersionName t object (rawVersion % 2 ^ 15)).map fun candidateVersion =>
        candidateVersion == requestedVersion

/-! ### One object -/

/-- A defined global or weak symbol whose name lies in the string table. -/
def Elf64Symbol.exported (symbol : Elf64Symbol) (stringSize : ℕ) : Bool :=
  symbol.sectionIndex != 0 && (symbol.binding == 1 || symbol.binding == 2) &&
    decide (symbol.name < stringSize)

/-- What both branches of `find_symbol_in_object` do with the symbol number `index`: its value and
its number if it is the one asked for. -/
def candidateAt (t : Target) (object : ElfLoadedObject) (requestedName requestedVersion : Name)
    (index : ℕ) : Option (Option (ℕ × ℕ)) :=
  match readObjectSymbol t object index with
  | none => none
  | some candidate =>
    if !candidate.exported object.stringSize then some none
    else
      match copyMappedString t ((object.stringTable + candidate.name) % 2 ^ 64) elfSymbolNameMax with
      | none => none
      | some candidateName =>
        if candidateName ≠ requestedName then some none
        else
          match symbolVersionMatches t object index requestedVersion with
          | none => none
          | some compatible =>
            if compatible then some (some ((object.bias + candidate.value) % 2 ^ 64, index))
            else some none

/-- The loop of the GNU hash branch, from the symbol number `symbolIndex` on; `fuel` is what is left
of the symbol table. -/
def chainLoop (t : Target) (object : ElfLoadedObject) (requestedName requestedVersion : Name)
    (hash : ℕ) : ℕ → ℕ → Option (Option (ℕ × ℕ))
  | 0, _ => some none
  | fuel + 1, symbolIndex =>
    match t.readWord 4 ((object.gnuHashChains + (symbolIndex - object.gnuHashSymbolOffset) * 4)
        % 2 ^ 64) with
    | none => none
    | some chain =>
      match if chain ||| 1 = hash ||| 1 then
          candidateAt t object requestedName requestedVersion symbolIndex else some none with
      | none => none
      | some (some found) => some (some found)
      | some none =>
        if chain % 2 = 1 then some none
        else chainLoop t object requestedName requestedVersion hash fuel (symbolIndex + 1)

/-- The two bits of the bloom filter a hash stands for. -/
def bloomMask (hash shift : ℕ) : ℕ := 2 ^ (hash % 64) ||| 2 ^ (hash / 2 ^ shift % 64)

/-- The GNU hash branch of `find_symbol_in_object`. -/
def findByHash (t : Target) (object : ElfLoadedObject) (requestedName requestedVersion : Name) :
    Option (Option (ℕ × ℕ)) :=
  let hash := gnuSymbolHash requestedName
  match t.readWord 8 ((object.gnuHashBloom + hash / 64 % object.gnuHashBloomSize * 8) % 2 ^ 64) with
  | none => none
  | some bloomWord =>
    let mask := bloomMask hash object.gnuHashBloomShift
    if bloomWord &&& mask ≠ mask then some none
    else
      match t.readWord 4 ((object.gnuHashBuckets + hash % object.gnuHashBucketCount * 4)
          % 2 ^ 64) with
      | none => none
      | some symbolIndex =>
        if symbolIndex < object.gnuHashSymbolOffset then some none
        else chainLoop t object requestedName requestedVersion hash
          (object.symbolCount - symbolIndex) symbolIndex

/-- The loop of the scanning branch. -/
def scanLoop (t : Target) (object : ElfLoadedObject) (requestedName requestedVersion : Name) :
    ℕ → ℕ → Option (Option (ℕ × ℕ))
  | 0, _ => some none
  | fuel + 1, index =>
    match candidateAt t object requestedName requestedVersion index with
    | none => none
    | some (some found) => some (some found)
    | some none => scanLoop t object requestedName requestedVersion fuel (index + 1)

/-- The scanning branch of `find_symbol_in_object`: symbol 0 is not looked at. -/
def findByScan (t : Target) (object : ElfLoadedObject) (requestedName requestedVersion : Name) :
    Option (Option (ℕ × ℕ)) :=
  scanLoop t object requestedName requestedVersion (object.symbolCount - 1) 1

/-- `find_symbol_in_object`: the value and the number of the symbol. -/
def findSymbolInObject (t : Target) (object : ElfLoadedObject)
    (requestedName requestedVersion : Name) : Option (Option (ℕ × ℕ)) :=
  if object.gnuHashBucketCount ≠ 0 then findByHash t object requestedName requestedVersion
  else findByScan t object requestedName requestedVersion

end NovaOS.Loader
