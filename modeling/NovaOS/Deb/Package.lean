import NovaOS.Fs.Segments
import Mathlib.Data.Nat.Log

/-!
# Installing a package

`deb_install` looks for the members `debian-binary` and `data.tar` of an `ar` archive and installs the
entries of the tar archive one after the other, each below the directories that lead to it.  The
buffers of the source are lists of bytes, and a pointer into one is what is left of it.

The second part is the other side: the `ar` archive that `tools/make_test_deb.py` writes around a
USTAR archive.  The fields of a tar header that the installer does not read are arbitrary
(`TarMetadata`).
-/

namespace NovaOS.Deb

open Fs

/-! ### Numbers and paths -/

/-- `all_zero`. -/
def allZero (bytes : List UInt8) : Bool := bytes.all (· == 0)

/-- The loop of `parse_number`. -/
def parseDigits (base : ℕ) : List UInt8 → ℕ → Bool → Option ℕ
  | [], result, found => if found then some result else none
  | character :: rest, result, found =>
    if character = 0 ∨ character = 32 then
      if found then some result else parseDigits base rest result found
    else if character < 48 ∨ character.toNat ≥ 48 + base then none
    else
      let digit := character.toNat - 48
      if result > (2 ^ 64 - 1 - digit) / base then none
      else parseDigits base rest (result * base + digit) true

/-- `parse_number`. -/
def parseNumber (text : List UInt8) (length base : ℕ) : Option ℕ :=
  parseDigits base (text.take length) 0 false

/-- `ar_name`, up to the first zero. -/
def arName (header : List UInt8) : Name :=
  cString ((header.take 16).reverse.dropWhile fun c => c == 32 || c == slash).reverse

/-- The loop of `package_path` over leading dots. -/
def skipDots : List UInt8 → List UInt8
  | 46 :: 47 :: rest => skipDots rest
  | path => path

/-- The loop of `package_path` over the segments; `segment` is the part since the last slash. -/
def packageSegments : List UInt8 → List UInt8 → Bool
  | [], segment => segment != [dot, dot]
  | character :: rest, segment =>
    if character < 32 || character > 126 then false
    else if character = slash then
      if segment.isEmpty || segment = [dot, dot] then false else packageSegments rest []
    else packageSegments rest (segment ++ [character])

/-- `package_path`. -/
def packagePath (source : List UInt8) : Option Name :=
  let path := skipDots (source.dropWhile (· == slash))
  let path := (path.reverse.dropWhile fun c => c == 0 || c == slash).reverse
  if path.length = 0 ∨ path.length > 95 then none
  else if packageSegments path [] then some path else none

/-! ### The tar archive -/

structure DebInstallResult where
  files : ℕ
  directories : ℕ
  symlinks : ℕ
  deriving DecidableEq, Repr

/-- The loop of `ensure_parent_directories`; `before` is the part of the path it has seen. -/
def ensureParents : Name → List UInt8 → Volume → Bool × Volume
  | _, [], v => (true, v)
  | before, character :: rest, v =>
    if character ≠ slash then ensureParents (before ++ [character]) rest v
    else
      match fsPathInfo v before false with
      | some info =>
        if info.type ≠ .directory then (false, v) else ensureParents (before ++ [character]) rest v
      | none =>
        match fsMkdir v before 0o755 with
        | (false, v) => (false, v)
        | (true, v) => ensureParents (before ++ [character]) rest v

/-- `ensure_parent_directories`. -/
def ensureParentDirectories (path : Name) (v : Volume) : Bool × Volume := ensureParents [] path v

/-- The sum of a tar header, its own field counted as blanks. -/
def checksum (header : List UInt8) : ℕ :=
  ((List.range 512).map fun i => if 148 ≤ i ∧ i < 156 then 32 else (header.getD i 0).toNat).sum

/-- The bytes of a field up to the first zero. -/
def fieldString (field : List UInt8) : List UInt8 := (field.take 100).takeWhile (· != 0)

/-- The link target in a tar header. -/
def linkTarget (header : List UInt8) : Option Name :=
  let link := fieldString (header.drop 157)
  (packagePath link).map fun normalized =>
    if link.head? = some slash then slash :: normalized else normalized

/-- The part of `install_tar` that depends on the type of the entry. -/
def installContent (header : List UInt8) (path : Name) (data : List UInt8) (v : Volume)
    (result : DebInstallResult) : Bool × Volume × DebInstallResult :=
  let existing := fsPathInfo v path false
  let type := header.getD 156 0
  if type = 53 then
    match existing with
    | some info =>
      if info.type ≠ .directory then (false, v, result)
      else (true, v, { result with directories := result.directories + 1 })
    | none =>
      match fsMkdir v path 0o755 with
      | (false, v) => (false, v, result)
      | (true, v) => (true, v, { result with directories := result.directories + 1 })
  else if type = 50 then
    match linkTarget header with
    | none => (false, v, result)
    | some target =>
      match (match existing with
        | none => (true, v)
        | some info => if info.type ≠ .symlink then (false, v) else fsDelete v path) with
      | (false, v) => (false, v, result)
      | (true, v) =>
        match fsSymlink v target path with
        | (false, v) => (false, v, result)
        | (true, v) => (true, v, { result with symlinks := result.symlinks + 1 })
  else if type = 0 ∨ type = 48 then
    if existing.any fun info => info.type ≠ .file then (false, v, result)
    else
      match fsWrite v path data with
      | (false, v) => (false, v, result)
      | (true, v) => (true, v, { result with files := result.files + 1 })
  else (true, v, result)

/-- One round of `install_tar`: the entry with this header, whose data is at the front of `rest`.
The number of bytes to go on, or none when the installation stops. -/
def installEntry (header rest : List UInt8) (v : Volume) (result : DebInstallResult) :
    Option ℕ × Volume × DebInstallResult :=
  match parseNumber (header.drop 124) 12 8, parseNumber (header.drop 148) 8 8,
      packagePath (fieldString header) with
  | some fileSize, some storedChecksum, some path =>
    if checksum header ≠ storedChecksum then (none, v, result)
    else
      match ensureParentDirectories path v with
      | (false, v) => (none, v, result)
      | (true, v) =>
        if fileSize > rest.length then (none, v, result)
        else
          match installContent header path (rest.take fileSize) v result with
          | (false, v, result) => (none, v, result)
          | (true, v, result) =>
            let padded := (fileSize + 511) / 512 * 512
            (if padded > rest.length then none else some padded, v, result)
  | _, _, _ => (none, v, result)

/-- The loop of `install_tar`; every round takes at least a block. -/
def installTar : ℕ → List UInt8 → Volume → DebInstallResult → Bool × Volume × DebInstallResult
  | 0, _, v, result => (false, v, result)
  | fuel + 1, archive, v, result =>
    if archive.length < 512 then (false, v, result)
    else if allZero (archive.take 512) then (true, v, result)
    else
      match installEntry (archive.take 512) (archive.drop 512) v result with
      | (none, v, result) => (false, v, result)
      | (some padded, v, result) => installTar fuel ((archive.drop 512).drop padded) v result

/-! ### The package -/

/-- `debian-binary`. -/
def debianBinary : Name := [100, 101, 98, 105, 97, 110, 45, 98, 105, 110, 97, 114, 121]

/-- `data.tar`. -/
def dataTar : Name := [100, 97, 116, 97, 46, 116, 97, 114]

/-- `control.tar`. -/
def controlTar : Name := [99, 111, 110, 116, 114, 111, 108, 46, 116, 97, 114]

/-- `2.0` and a line feed. -/
def version : List UInt8 := [50, 46, 48, 10]

/-- The loop of `deb_install` over the members; every round takes at least a header. -/
def findMembers : ℕ → List UInt8 → Bool → Option (List UInt8) → Option (Bool × Option (List UInt8))
  | 0, _, _, _ => none
  | fuel + 1, package, versionOk, data =>
    if package.length < 60 then some (versionOk, data)
    else if package.getD 58 0 ≠ 96 ∨ package.getD 59 0 ≠ 10 then none
    else
      match parseNumber (package.drop 48) 10 10 with
      | none => none
      | some memberSize =>
        let payload := package.drop 60
        if memberSize > payload.length then none
        else
          let name := arName package
          let versionOk := if name = debianBinary then
            memberSize = 4 && payload.take 4 == version else versionOk
          let data := if name ≠ debianBinary ∧ name = dataTar then
            some (payload.take memberSize) else data
          let next := memberSize + memberSize % 2
          if next > payload.length then none
          else findMembers fuel (payload.drop next) versionOk data

/-- The first line of an archive. -/
def arMagic : List UInt8 := [33, 60, 97, 114, 99, 104, 62, 10]

/-- `deb_install`: the counts, or none when it fails. -/
def debInstall (package : List UInt8) (v : Volume) : Option DebInstallResult × Volume :=
  if package.length < 8 ∨ package.take 8 ≠ arMagic then (none, v)
  else
    match findMembers (package.length + 1) (package.drop 8) false none with
    | some (true, some archive) =>
      match installTar (archive.length + 1) archive v ⟨0, 0, 0⟩ with
      | (false, v, _) => (none, v)
      | (true, v, result) => (some result, v)
    | _ => (none, v)

/-! ### Writing a package -/

/-- The `width` last digits of a number. -/
def digitsOf (base : ℕ) : ℕ → ℕ → List UInt8
  | 0, _ => []
  | width + 1, n => digitsOf base width (n / base) ++ [UInt8.ofNat (48 + n % base)]

/-- `str(n)`. -/
def decimal (n : ℕ) : List UInt8 := digitsOf 10 (Nat.log 10 n + 1) n

/-- `ljust`. -/
def ljust (width : ℕ) (fill : UInt8) (text : List UInt8) : List UInt8 :=
  text ++ List.replicate (width - text.length) fill

/-- `ar_member`. -/
def arMember (name : Name) (payload : List UInt8) : List UInt8 :=
  ljust 16 32 (name ++ [slash]) ++ ljust 12 32 [48] ++ ljust 6 32 [48] ++ ljust 6 32 [48] ++
    ljust 8 32 [49, 48, 48, 54, 52, 52] ++ ljust 10 32 (decimal payload.length) ++ [96, 10] ++
    payload ++ if payload.length % 2 = 1 then [10] else []

/-- What is packed under a path. -/
inductive Content
  | directory
  | file (bytes : List UInt8)
  | symlink (target : Name)
  deriving DecidableEq, Repr

structure Item where
  path : Name
  content : Content
  deriving DecidableEq, Repr

/-- The fields of a tar header that the installer does not read. -/
structure TarMetadata where
  identity : List UInt8
  mtime : List UInt8
  tail : List UInt8
  length_identity : identity.length = 24
  length_mtime : mtime.length = 12
  length_tail : tail.length = 255

/-- The name in a tar header; a directory gets a slash. -/
def Item.tarName (item : Item) : Name :=
  match item.content with
  | .directory => item.path ++ [slash]
  | _ => item.path

def Content.typeFlag : Content → UInt8
  | directory => 53
  | file _ => 48
  | symlink _ => 50

def Content.linkName : Content → Name
  | symlink target => target
  | _ => []

/-- The bytes that follow the header. -/
def Content.data : Content → List UInt8
  | file bytes => bytes
  | _ => []

/-- The header before the checksum field. -/
def headerFront (metadata : TarMetadata) (item : Item) : List UInt8 :=
  ljust 100 0 item.tarName ++ metadata.identity ++
    (digitsOf 8 11 item.content.data.length ++ [0]) ++ metadata.mtime

/-- The header behind the checksum field. -/
def headerBack (metadata : TarMetadata) (item : Item) : List UInt8 :=
  [item.content.typeFlag] ++ ljust 100 0 item.content.linkName ++ metadata.tail

/-- The sum of some bytes. -/
def byteSum (bytes : List UInt8) : ℕ := (bytes.map UInt8.toNat).sum

/-- The header of an entry. -/
def tarHeader (metadata : TarMetadata) (item : Item) : List UInt8 :=
  headerFront metadata item ++ (digitsOf 8 6 (byteSum (headerFront metadata item) + 256 +
    byteSum (headerBack metadata item)) ++ [0, 32]) ++ headerBack metadata item

/-- An entry with its header, its data and the rest of its last block. -/
def tarEntry (entry : Item × TarMetadata) : List UInt8 :=
  tarHeader entry.2 entry.1 ++ entry.1.content.data ++
    List.replicate ((512 - entry.1.content.data.length % 512) % 512) 0

/-- A USTAR archive of the entries, with the zero blocks at its end.  The size of a file has eleven
octal digits. -/
def packTar (entries : List (Item × TarMetadata)) (blocks : ℕ) : Option (List UInt8) :=
  if entries.any fun entry => decide (8 ^ 11 ≤ entry.1.content.data.length) then none
  else some (entries.flatMap tarEntry ++ List.replicate (512 * (blocks + 1)) 0)

/-- The package around a `data.tar`. -/
def packDeb (control archive : List UInt8) : List UInt8 :=
  arMagic ++ arMember debianBinary version ++ arMember controlTar control ++ arMember dataTar archive

end NovaOS.Deb
