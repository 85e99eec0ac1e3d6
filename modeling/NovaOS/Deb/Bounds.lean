import NovaOS.Deb.Install

/-!
# The installer stays inside its buffers

`Deb.Package` models the buffers of the installer as lists, of which there is nothing outside.  Here the
functions are written once more with the positions of the source, so that an access can go wrong: a
computation that gives `none` has read behind the package, has written behind a local buffer, has formed
an offset that does not fit into `size_t`, or has gone round its loop once too often.

* `load`, `loadRange` — reads of the package;
* `fillString` — a string that is copied into a local buffer of some capacity;
* `offsetAdd`, `offsetSub` — offsets;
* `debInstallAt` — `deb_install` with these;
* `deb_install_memory_safe` — **nothing goes wrong**, and the result is that of `debInstall`.

The strings in the local buffers end with a zero inside the buffer (`fillString`), so what the file
system reads of them is inside too.
-/

namespace NovaOS.Deb

open Fs List Nat Option Bool

/-! ### Accesses -/

/-- `package[i]`. -/
def load (package : List UInt8) (i : ℕ) : Option UInt8 := package[i]?

/-- A copy of `length` bytes of the package. -/
def loadRange (package : List UInt8) (start length : ℕ) : Option (List UInt8) :=
  if start + length ≤ package.length then some ((package.drop start).take length) else none

/-- `memcpy` into a buffer of this capacity, and the zero behind it: the string that it holds. -/
def fillString (capacity : ℕ) (bytes : List UInt8) : Option Name :=
  if bytes.length < capacity then some (cString bytes) else none

/-- A sum of type `size_t`. -/
def offsetAdd (a b : ℕ) : Option ℕ := if a + b < 2 ^ 64 then some (a + b) else none

/-- A difference of type `size_t`. -/
def offsetSub (a b : ℕ) : Option ℕ := if b ≤ a then some (a - b) else none

/-! ### The functions, by position -/

variable (package : List UInt8)

/-- `all_zero` on so many bytes from a position on. -/
def allZeroAt : ℕ → ℕ → Option Bool
  | 0, _ => some true
  | remaining + 1, i => do
    let byte ← load package i
    if byte ≠ 0 then some false else allZeroAt remaining (i + 1)

/-- `parse_number`. -/
def parseNumberAt (base : ℕ) : ℕ → ℕ → ℕ → Bool → Option (Option ℕ)
  | 0, _, result, found => some (if found then some result else none)
  | remaining + 1, i, result, found => do
    let character ← load package i
    if character = 0 ∨ character = 32 then
      if found then some (some result) else parseNumberAt base remaining (i + 1) result found
    else if character < 48 ∨ character.toNat ≥ 48 + base then some none
    else
      let digit := character.toNat - 48
      if result > (2 ^ 64 - 1 - digit) / base then some none
      else parseNumberAt base remaining (i + 1) (result * base + digit) true

/-- `while (length && p(text[length - 1])) --length;` -/
def trimAt (p : UInt8 → Bool) (text : ℕ) : ℕ → Option ℕ
  | 0 => some 0
  | length + 1 => do
    let last ← load package (text + length)
    if p last then trimAt p text length else some (length + 1)

/-- `ar_name`. -/
def arNameAt (header : ℕ) : Option Name := do
  let length ← trimAt package (fun c => c == 32 || c == slash) header 16
  let bytes ← loadRange package header length
  fillString 17 bytes

/-- `while (begin < source_length && source[begin] == '/') ++begin;`, with what is left of the source. -/
def skipSlashesAt (source : ℕ) : ℕ → ℕ → Option ℕ
  | 0, start => some start
  | remaining + 1, start => do
    let c ← load package (source + start)
    if c = slash then skipSlashesAt source remaining (start + 1) else some start

/-- The loop of `package_path` over leading dots. -/
def skipDotsAt (source : ℕ) : ℕ → ℕ → Option ℕ
  | remaining + 2, start => do
    let first ← load package (source + start)
    if first ≠ dot then some start
    else
      let second ← load package (source + start + 1)
      if second ≠ slash then some start else skipDotsAt source remaining (start + 2)
  | _, start => some start

/-- Whether the segment from `segmentStart` to `index` is `..`. -/
def dotsAt (text index segmentStart : ℕ) : Option Bool :=
  if index - segmentStart ≠ 2 then some false
  else do
    let first ← load package (text + segmentStart)
    if first ≠ dot then some false
    else
      let second ← load package (text + segmentStart + 1)
      some (second == dot)

/-- The loop of `package_path` over the characters of the path. -/
def segmentsAt (text : ℕ) : ℕ → ℕ → ℕ → Option Bool
  | 0, index, segmentStart => do
    let dots ← dotsAt package text index segmentStart
    some !dots
  | remaining + 1, index, segmentStart => do
    let character ← load package (text + index)
    if character < 32 ∨ character > 126 then some false
    else if character = slash then
      if index = segmentStart then some false
      else
        let dots ← dotsAt package text index segmentStart
        if dots then some false else segmentsAt text remaining (index + 1) (index + 1)
    else segmentsAt text remaining (index + 1) segmentStart

/-- `package_path`: the outer `none` is an access that went wrong. -/
def packagePathAt (source sourceLength : ℕ) : Option (Option Name) := do
  let start ← skipSlashesAt package source sourceLength 0
  let start ← skipDotsAt package source (sourceLength - start) start
  let length ← trimAt package (fun c => c == 0 || c == slash) (source + start) (sourceLength - start)
  if length = 0 ∨ length > 95 then some none
  else
    let valid ← segmentsAt package (source + start) length 0 0
    if valid then
      let bytes ← loadRange package (source + start) length
      let path ← fillString 96 bytes
      some (some path)
    else some none

/-- The sum of a tar header. -/
def checksumAt (header : ℕ) : ℕ → ℕ → ℕ → Option ℕ
  | 0, _, sum => some sum
  | remaining + 1, index, sum =>
    if 148 ≤ index ∧ index < 156 then checksumAt header remaining (index + 1) (sum + 32)
    else do
      let byte ← load package (header + index)
      checksumAt header remaining (index + 1) (sum + byte.toNat)

/-- `while (length < 100 && field[length]) ++length;` -/
def fieldLengthAt (field : ℕ) : ℕ → ℕ → Option ℕ
  | 0, length => some length
  | remaining + 1, length => do
    let byte ← load package (field + length)
    if byte = 0 then some length else fieldLengthAt field remaining (length + 1)

/-- Whether a field of a tar header begins with a slash. -/
def absoluteAt (field length : ℕ) : Option Bool :=
  if length = 0 then some false
  else do
    let first ← load package field
    some (first == slash)

/-- The link target in a tar header. -/
def linkTargetAt (header : ℕ) : Option (Option Name) := do
  let targetLength ← fieldLengthAt package (header + 157) 100 0
  let absolute ← absoluteAt package (header + 157) targetLength
  let normalized ← packagePathAt package (header + 157) targetLength
  match normalized with
  | none => some none
  | some normalized =>
    let target ← fillString 97 (if absolute then slash :: normalized else normalized)
    some (some target)

/-- The part of `install_tar` that depends on the type of the entry. -/
def installContentAt (header : ℕ) (path : Name) (dataOffset fileSize : ℕ) (v : Volume)
    (result : DebInstallResult) : Option (Bool × Volume × DebInstallResult) := do
  let type ← load package (header + 156)
  let existing := fsPathInfo v path false
  if type = 53 then
    match existing with
    | some info =>
      if info.type ≠ .directory then some (false, v, result)
      else some (true, v, { result with directories := result.directories + 1 })
    | none =>
      match fsMkdir v path 0o755 with
      | (false, v) => some (false, v, result)
      | (true, v) => some (true, v, { result with directories := result.directories + 1 })
  else if type = 50 then
    let target ← linkTargetAt package header
    match target with
    | none => some (false, v, result)
    | some target =>
      match (match existing with
        | none => (true, v)
        | some info => if info.type ≠ .symlink then (false, v) else fsDelete v path) with
      | (false, v) => some (false, v, result)
      | (true, v) =>
        match fsSymlink v target path with
        | (false, v) => some (false, v, result)
        | (true, v) => some (true, v, { result with symlinks := result.symlinks + 1 })
  else if type = 0 ∨ type = 48 then
    if existing.any fun info => info.type ≠ .file then some (false, v, result)
    else
      let data ← loadRange package dataOffset fileSize
      match fsWrite v path data with
      | (false, v) => some (false, v, result)
      | (true, v) => some (true, v, { result with files := result.files + 1 })
  else some (true, v, result)

/-- One round of `install_tar`: the next offset, or none when the installation stops. -/
def installEntryAt (archive size offset : ℕ) (v : Volume) (result : DebInstallResult) :
    Option (Option ℕ × Volume × DebInstallResult) := do
  let header := archive + offset
  let fileSize ← parseNumberAt package 8 12 (header + 124) 0 false
  match fileSize with
  | none => some (none, v, result)
  | some fileSize =>
    let storedChecksum ← parseNumberAt package 8 8 (header + 148) 0 false
    match storedChecksum with
    | none => some (none, v, result)
    | some storedChecksum =>
      let sum ← checksumAt package header 512 0 0
      if sum ≠ storedChecksum then some (none, v, result)
      else
        let nameLength ← fieldLengthAt package header 100 0
        let path ← packagePathAt package header nameLength
        match path with
        | none => some (none, v, result)
        | some path =>
          match ensureParentDirectories path v with
          | (false, v) => some (none, v, result)
          | (true, v) =>
            let dataOffset ← offsetAdd offset 512
            let room ← offsetSub size dataOffset
            if fileSize > room then some (none, v, result)
            else
              let (done, v, result) ← installContentAt package header path (archive + dataOffset)
                fileSize v result
              if !done then some (none, v, result)
              else
                let rounded ← offsetAdd fileSize 511
                let padded := rounded / 512 * 512
                if padded > room then some (none, v, result)
                else
                  let next ← offsetAdd dataOffset padded
                  some (some next, v, result)

/-- The loop of `install_tar`, with a number of rounds it may take. -/
def installTarAt (archive size : ℕ) :
    ℕ → ℕ → Volume → DebInstallResult → Option (Bool × Volume × DebInstallResult)
  | rounds, offset, v, result => do
    let stop ← offsetAdd offset 512
    if stop > size then some (false, v, result)
    else
      match rounds with
      | 0 => none
      | rounds + 1 =>
        let zero ← allZeroAt package 512 (archive + offset)
        if zero then some (true, v, result)
        else
          let entry ← installEntryAt package archive size offset v result
          match entry with
          | (none, v, result) => some (false, v, result)
          | (some next, v, result) => installTarAt archive size rounds next v result

/-- `version_ok` after a member. -/
def versionAt (name : Name) (payloadOffset memberSize : ℕ) (versionOk : Bool) : Option Bool :=
  if name ≠ debianBinary then some versionOk
  else if memberSize ≠ 4 then some false
  else do
    let bytes ← loadRange package payloadOffset 4
    some (bytes == version)

/-- The loop of `deb_install` over the members, with a number of rounds it may take.  A `data.tar` is
given by its position and its size. -/
def findMembersAt : ℕ → ℕ → Bool → Option (ℕ × ℕ) → Option (Option (Bool × Option (ℕ × ℕ)))
  | rounds, offset, versionOk, data => do
    let stop ← offsetAdd offset 60
    if stop > package.length then some (some (versionOk, data))
    else
      match rounds with
      | 0 => none
      | rounds + 1 =>
        let back ← load package (offset + 58)
        if back ≠ 96 then some none
        else
          let line ← load package (offset + 59)
          if line ≠ 10 then some none
          else
            let memberSize ← parseNumberAt package 10 10 (offset + 48) 0 false
            match memberSize with
            | none => some none
            | some memberSize =>
              let payloadOffset ← offsetAdd offset 60
              let room ← offsetSub package.length payloadOffset
              if memberSize > room then some none
              else
                let name ← arNameAt package offset
                let versionOk ← versionAt package name payloadOffset memberSize versionOk
                let data := if name ≠ debianBinary ∧ name = dataTar then
                  some (payloadOffset, memberSize) else data
                let stop ← offsetAdd payloadOffset memberSize
                let next ← offsetAdd stop (memberSize % 2)
                if next > package.length then some none
                else findMembersAt rounds next versionOk data

/-- `deb_install`. -/
def debInstallAt (v : Volume) : Option (Option DebInstallResult × Volume) :=
  if package.length < 8 then some (none, v)
  else do
    let magic ← loadRange package 0 8
    if magic ≠ arMagic then some (none, v)
    else
      let members ← findMembersAt package (package.length / 60) 8 false none
      match members with
      | some (true, some (archive, size)) =>
        let (done, v, result) ← installTarAt package archive size (size / 512) 0 v ⟨0, 0, 0⟩
        some (if done then some result else none, v)
      | _ => some (none, v)

/-! ### Windows -/

/-- `length` bytes of the package from a position on. -/
def window (start length : ℕ) : List UInt8 := (package.drop start).take length

variable {package} {start n i : ℕ}

theorem load_eq (h : i < package.length) : load package i = some (package.getD i 0) := by
  rw [load, getD_eq_getElem _ _ h, List.getElem?_eq_getElem h]

theorem load_bind {β : Type} (h : i < package.length) (f : UInt8 → Option β) :
    (load package i >>= f) = f (package.getD i 0) := by
  rw [load_eq h, bind_eq_bind, bind_some]

theorem loadRange_eq (h : start + n ≤ package.length) :
    loadRange package start n = some (window package start n) := if_pos h

theorem length_window (h : start + n ≤ package.length) : (window package start n).length = n := by
  rw [window, length_take, length_drop]
  omega

theorem window_zero (start : ℕ) : window package start 0 = [] := take_zero

theorem window_cons (h : start + (n + 1) ≤ package.length) :
    window package start (n + 1) = package.getD start 0 :: window package (start + 1) n := by
  have hstart : start < package.length := by omega
  rw [window, drop_eq_getElem_cons hstart, take_succ_cons, getD_eq_getElem _ _ hstart]
  rfl

theorem window_add (h : start + (n + i) ≤ package.length) :
    window package start (n + i) = window package start n ++ window package (start + n) i := by
  induction n generalizing start with
  | zero => rw [zero_add, window_zero, nil_append, add_zero]
  | succ n ih =>
    rw [show n + 1 + i = n + i + 1 by omega, window_cons (by omega), window_cons (by omega),
      ih (by omega), cons_append, show start + 1 + n = start + (n + 1) by omega]

theorem window_snoc (h : start + (n + 1) ≤ package.length) :
    window package start (n + 1) = window package start n ++ [package.getD (start + n) 0] := by
  rw [window_add h, window_cons (by omega), window_zero]

theorem getD_window (hi : i < n) :
    (window package start n).getD i 0 = package.getD (start + i) 0 := by
  rw [window, getD_eq_getElem?_getD, List.getElem?_take_of_lt hi, List.getElem?_drop,
    ← getD_eq_getElem?_getD]

theorem drop_window (k : ℕ) :
    (window package start n).drop k = window package (start + k) (n - k) := by
  rw [window, drop_take, drop_drop]
  rfl

theorem take_window {k : ℕ} (hk : k ≤ n) : (window package start n).take k = window package start k := by
  rw [window, take_take, min_eq_left hk]
  rfl

/-! ### Every loop reads inside its window -/

theorem allZeroAt_eq (h : i + n ≤ package.length) :
    allZeroAt package n i = some (allZero (window package i n)) := by
  induction n generalizing i with
  | zero => rw [allZeroAt, window_zero]; rfl
  | succ n ih =>
    rw [allZeroAt, load_bind (by omega), window_cons h]
    by_cases hzero : package.getD i 0 = 0
    · rw [if_neg (not_not.2 hzero), ih (by omega), hzero]
      rfl
    · rw [if_pos hzero, allZero, all_cons, beq_false_of_ne hzero, Bool.false_and]

theorem parseNumberAt_eq (base : ℕ) (h : i + n ≤ package.length) (result : ℕ) (found : Bool) :
    parseNumberAt package base n i result found =
      some (parseDigits base (window package i n) result found) := by
  induction n generalizing i result found with
  | zero => rw [parseNumberAt, window_zero, parseDigits]
  | succ n ih =>
    rw [parseNumberAt, load_bind (by omega), window_cons h, parseDigits]
    dsimp only
    split
    · split
      · rfl
      · exact ih (by omega) result found
    · split
      · rfl
      · split
        · rfl
        · exact ih (by omega) _ true

/-- What is left of a window when its end is cut off. -/
theorem trimAt_eq (package : List UInt8) (p : UInt8 → Bool) {text : ℕ} (h : text + n ≤ package.length) :
    ∃ length ≤ n, trimAt package p text n = some length ∧
      window package text length = ((window package text n).reverse.dropWhile p).reverse := by
  induction n with
  | zero => exact ⟨0, le_refl 0, rfl, by rw [window_zero]; rfl⟩
  | succ n ih =>
    rw [trimAt, load_bind (by omega), window_snoc h, reverse_append, reverse_singleton,
      singleton_append]
    by_cases hp : p (package.getD (text + n) 0) = true
    · obtain ⟨length, hle, htrim, hwindow⟩ := ih (by omega)
      rw [if_pos hp, dropWhile_cons_of_pos hp]
      exact ⟨length, by omega, htrim, hwindow⟩
    · rw [if_neg hp, dropWhile_cons_of_neg hp, reverse_cons, reverse_reverse]
      exact ⟨n + 1, le_refl _, rfl, window_snoc h⟩

theorem arNameAt_eq {header : ℕ} (h : header + 16 ≤ package.length) :
    arNameAt package header = some (arName (package.drop header)) := by
  obtain ⟨length, hle, htrim, hwindow⟩ := trimAt_eq package (fun c => c == 32 || c == slash) h
  rw [arNameAt, htrim, arName]
  simp only [bind_eq_bind, bind_some]
  rw [loadRange_eq (by omega)]
  show fillString 17 (window package header length) = _
  rw [fillString, if_pos (by rw [length_window (by omega)]; omega), hwindow]
  rfl

theorem skipSlashesAt_eq {source : ℕ} (h : source + i + n ≤ package.length) :
    ∃ k ≤ n, skipSlashesAt package source n i = some (i + k) ∧
      window package (source + (i + k)) (n - k) =
        (window package (source + i) n).dropWhile (· == slash) := by
  induction n generalizing i with
  | zero => exact ⟨0, le_refl 0, rfl, by rw [window_zero, window_zero]; rfl⟩
  | succ n ih =>
    rw [skipSlashesAt, load_bind (by omega), window_cons (by omega)]
    by_cases hslash : package.getD (source + i) 0 = slash
    · obtain ⟨k, hk, hskip, hwindow⟩ := ih (i := i + 1) (by omega)
      rw [if_pos hslash, dropWhile_cons_of_pos (by rw [hslash]; rfl)]
      refine ⟨k + 1, by omega, by rw [hskip, add_assoc, add_comm 1 k], ?_⟩
      rw [show i + (k + 1) = i + 1 + k by omega, show n + 1 - (k + 1) = n - k by omega, hwindow]
      rfl
    · rw [if_neg hslash, dropWhile_cons_of_neg (by rw [beq_false_of_ne hslash]; decide)]
      exact ⟨0, zero_le _, rfl, window_cons (by omega)⟩

theorem skipDotsAt_eq {source : ℕ} (h : source + i + n ≤ package.length) :
    ∃ k ≤ n, skipDotsAt package source n i = some (i + k) ∧
      window package (source + (i + k)) (n - k) = skipDots (window package (source + i) n) := by
  induction n using Nat.strong_induction_on generalizing i with
  | _ n ih =>
    match n with
    | 0 => exact ⟨0, le_refl 0, rfl, by rw [window_zero, window_zero]; rfl⟩
    | 1 =>
      refine ⟨0, zero_le 1, rfl, ?_⟩
      rw [Nat.add_zero, Nat.sub_zero, window_cons (by omega), window_zero, skipDots]
      intro rest heq
      exact nomatch (List.cons.inj heq).2
    | n + 2 =>
      have hstay : ∀ rest, window package (source + i) (n + 2) = rest → skipDots rest = rest →
          ∃ k ≤ n + 2, some i = some (i + k) ∧ window package (source + (i + k)) (n + 2 - k) =
            skipDots (window package (source + i) (n + 2)) := by
        intro rest hrest hskip
        exact ⟨0, zero_le _, rfl, by rw [hrest, hskip, ← hrest]; rfl⟩
      have hsplit : window package (source + i) (n + 2) = package.getD (source + i) 0 ::
          package.getD (source + i + 1) 0 :: window package (source + (i + 2)) n := by
        rw [window_cons (by omega), window_cons (by omega)]
        rfl
      rw [skipDotsAt, load_bind (by omega), load_bind (by omega)]
      by_cases hdot : package.getD (source + i) 0 = dot
      · rw [if_neg (not_not.2 hdot)]
        by_cases hslash : package.getD (source + i + 1) 0 = slash
        · obtain ⟨k, hk, hskip, hwindow⟩ := ih n (by omega) (i := i + 2) (by omega)
          rw [if_neg (not_not.2 hslash), hsplit, hdot, hslash]
          refine ⟨k + 2, by omega, by rw [hskip, show i + 2 + k = i + (k + 2) by omega], ?_⟩
          rw [show i + (k + 2) = i + 2 + k by omega, show n + 2 - (k + 2) = n - k by omega, hwindow]
          rfl
        · rw [if_pos hslash]
          refine hstay _ hsplit ?_
          rw [skipDots]
          intro rest heq
          simp only [List.cons.injEq] at heq
          exact hslash heq.2.1
      · rw [if_pos hdot]
        refine hstay _ hsplit ?_
        rw [skipDots]
        intro rest heq
        simp only [List.cons.injEq] at heq
        exact hdot heq.1

/-- The segment since the last slash, as the list model keeps it. -/
theorem dotsAt_eq {text segmentStart : ℕ} (hle : segmentStart ≤ i) (h : text + i ≤ package.length) :
    dotsAt package text i segmentStart =
      some (decide (window package (text + segmentStart) (i - segmentStart) = [dot, dot])) := by
  rw [dotsAt]
  by_cases htwo : i - segmentStart = 2
  · rw [if_neg (not_not.2 htwo), load_bind (by omega), load_bind (by omega), htwo,
      window_cons (by omega), window_cons (by omega), window_zero]
    by_cases hfirst : package.getD (text + segmentStart) 0 = dot
    · rw [if_neg (not_not.2 hfirst), hfirst]
      by_cases hsecond : package.getD (text + segmentStart + 1) 0 = dot
      · rw [hsecond]
        rfl
      · have hne : [dot, package.getD (text + segmentStart + 1) 0] ≠ [dot, dot] :=
          fun heq => hsecond (List.cons.inj (List.cons.inj heq).2).1
        rw [beq_false_of_ne hsecond, decide_eq_false hne]
    · have hne : [package.getD (text + segmentStart) 0, package.getD (text + segmentStart + 1) 0] ≠
          [dot, dot] := fun heq => hfirst (List.cons.inj heq).1
      rw [if_pos hfirst, decide_eq_false hne]
  · rw [if_pos htwo]
    have hne : window package (text + segmentStart) (i - segmentStart) ≠ [dot, dot] := by
      intro heq
      have hlength := congrArg List.length heq
      rw [length_window (by omega)] at hlength
      exact htwo hlength
    rw [decide_eq_false hne]

theorem segmentsAt_eq {text segmentStart : ℕ} (hle : segmentStart ≤ i)
    (h : text + i + n ≤ package.length) :
    segmentsAt package text n i segmentStart =
      some (packageSegments (window package (text + i) n)
        (window package (text + segmentStart) (i - segmentStart))) := by
  induction n generalizing i segmentStart with
  | zero =>
    rw [segmentsAt, dotsAt_eq hle (by omega), window_zero, packageSegments]
    by_cases hdots : window package (text + segmentStart) (i - segmentStart) = [dot, dot]
    · rw [hdots]
      rfl
    · simp [hdots]
  | succ n ih =>
    rw [segmentsAt, load_bind (by omega), window_cons (by omega), packageSegments]
    simp only [or_eq_true, decide_eq_true_eq]
    by_cases hprintable : package.getD (text + i) 0 < 32 ∨ package.getD (text + i) 0 > 126
    · rw [if_pos hprintable, if_pos hprintable]
    rw [if_neg hprintable, if_neg hprintable]
    by_cases hslash : package.getD (text + i) 0 = slash
    · rw [if_pos hslash, if_pos hslash]
      have hempty : (window package (text + segmentStart) (i - segmentStart)).isEmpty = true ↔
          i = segmentStart := by
        rw [List.isEmpty_iff, ← List.length_eq_zero_iff, length_window (by omega)]
        omega
      by_cases hsegment : i = segmentStart
      · rw [if_pos hsegment, if_pos (.inl (hempty.2 hsegment))]
      · rw [if_neg hsegment, dotsAt_eq hle (by omega), bind_eq_bind, bind_some]
        by_cases hdots : window package (text + segmentStart) (i - segmentStart) = [dot, dot]
        · rw [decide_eq_true hdots, if_pos rfl, if_pos (.inr hdots)]
        · have hkept : ¬ ((window package (text + segmentStart) (i - segmentStart)).isEmpty = true ∨
              window package (text + segmentStart) (i - segmentStart) = [dot, dot]) :=
            fun hor => hor.elim (fun hnil => hsegment (hempty.1 hnil)) hdots
          rw [decide_eq_false hdots, if_neg Bool.false_ne_true, if_neg hkept,
            ih (Nat.le_refl _) (by omega), Nat.sub_self, window_zero]
          rfl
    · rw [if_neg hslash, if_neg hslash, ih (by omega) (by omega)]
      have hlonger : window package (text + segmentStart) (i + 1 - segmentStart) =
          window package (text + segmentStart) (i - segmentStart) ++ [package.getD (text + i) 0] := by
        rw [show i + 1 - segmentStart = i - segmentStart + 1 by omega, window_snoc (by omega),
          show text + segmentStart + (i - segmentStart) = text + i by omega]
      rw [hlonger]
      rfl

/-- A path that is accepted has no zero in it. -/
theorem packageSegments_nonzero {path segment : List UInt8} (h : packageSegments path segment = true) :
    cString path = path := by
  rw [cString, takeWhile_eq_self_iff]
  induction path generalizing segment with
  | nil => exact fun _ hno => (by cases hno)
  | cons character rest ih =>
    rw [packageSegments] at h
    split at h
    · cases h
    rename_i hprintable
    have hzero : character ≠ 0 := by
      rintro rfl
      exact hprintable (by decide)
    have hrest : ∀ c ∈ rest, (c != 0) = true := by
      split at h
      · split at h
        · cases h
        · exact ih h
      · exact ih h
    intro c hc
    rcases mem_cons.1 hc with rfl | hc
    · exact bne_iff_ne.2 hzero
    · exact hrest c hc

/-- **`package_path`** stays inside its source, and its result inside a buffer of 96 bytes. -/
theorem packagePathAt_eq {source : ℕ} (h : source + n ≤ package.length) :
    packagePathAt package source n = some (packagePath (window package source n)) := by
  obtain ⟨k, hk, hslashes, hwindow⟩ := skipSlashesAt_eq (i := 0) (show source + 0 + n ≤ package.length by omega)
  obtain ⟨j, hj, hdots, hwindow'⟩ := skipDotsAt_eq (i := k) (n := n - k)
    (show source + k + (n - k) ≤ package.length by omega)
  rw [zero_add] at hslashes hwindow
  rw [add_zero] at hwindow
  rw [hwindow] at hwindow'
  obtain ⟨length, hle, htrim, hpath⟩ := trimAt_eq package (fun c => c == 0 || c == slash)
    (show source + (k + j) + (n - k - j) ≤ package.length by omega)
  rw [hwindow'] at hpath
  rw [packagePathAt, packagePath]
  simp only [hslashes, hdots, bind_eq_bind, bind_some]
  rw [← Nat.sub_sub, htrim, ← hpath]
  simp only [bind_some]
  have hlength : (window package (source + (k + j)) length).length = length := length_window (by omega)
  rw [hlength]
  by_cases hbad : length = 0 ∨ length > 95
  · rw [if_pos hbad, if_pos hbad]
  rw [if_neg hbad, if_neg hbad, segmentsAt_eq (i := 0) (Nat.le_refl 0) (by omega), Nat.sub_self,
    window_zero]
  simp only [Nat.add_zero, bind_some]
  by_cases hvalid : packageSegments (window package (source + (k + j)) length) [] = true
  · rw [if_pos hvalid, if_pos hvalid, loadRange_eq (by omega)]
    simp only [bind_some]
    rw [fillString, if_pos (by omega), packageSegments_nonzero hvalid]
    rfl
  · rw [if_neg hvalid, if_neg hvalid]

/-- **Package paths cannot escape**: `package_path` stays inside its source and its output, and what it
gives is a valid name that it leaves as it is. -/
theorem package_path_confined (source : List UInt8) :
    packagePathAt source 0 source.length = some (packagePath source) ∧
      ∀ path, packagePath source = some path →
        validName path = true ∧ packagePath path = some path := by
  constructor
  · rw [packagePathAt_eq (by omega), window, drop_zero, take_length]
  · intro path h
    have hnormal := NormalPath.of_packagePath h
    exact ⟨hnormal.valid, packagePath_normal hnormal⟩

/-! ### The tar archive -/

theorem checksumAt_eq {header : ℕ} (h : header + i + n ≤ package.length) (sum : ℕ) :
    checksumAt package header n i sum = some (sum + ((List.range' i n).map fun j =>
      if 148 ≤ j ∧ j < 156 then 32 else (package.getD (header + j) 0).toNat).sum) := by
  induction n generalizing i sum with
  | zero => rfl
  | succ n ih =>
    rw [checksumAt, range'_succ, map_cons, sum_cons, ← add_assoc]
    by_cases hfield : 148 ≤ i ∧ i < 156
    · rw [if_pos hfield, if_pos hfield, ih (by omega)]
    · rw [if_neg hfield, if_neg hfield, load_bind (by omega), ih (by omega)]

theorem checksumAt_header {header : ℕ} (h : header + 512 ≤ package.length) :
    checksumAt package header 512 0 0 = some (checksum (window package header 512)) := by
  have hsame : ∀ j ∈ List.range' 0 512,
      (if 148 ≤ j ∧ j < 156 then 32 else (package.getD (header + j) 0).toNat) =
        if 148 ≤ j ∧ j < 156 then 32 else ((window package header 512).getD j 0).toNat := by
    intro j hj
    rw [getD_window (mem_range'_1.1 hj).2]
  rw [checksumAt_eq (by omega), zero_add, checksum, range_eq_range', map_congr_left hsame]

theorem fieldLengthAt_eq {field : ℕ} (h : field + i + n ≤ package.length) :
    ∃ k ≤ n, fieldLengthAt package field n i = some (i + k) ∧
      window package (field + i) k = (window package (field + i) n).takeWhile (· != 0) := by
  induction n generalizing i with
  | zero => exact ⟨0, le_refl 0, rfl, by rw [window_zero]; rfl⟩
  | succ n ih =>
    rw [fieldLengthAt, load_bind (by omega), window_cons (by omega)]
    by_cases hzero : package.getD (field + i) 0 = 0
    · rw [if_pos hzero, takeWhile_cons_of_neg (by rw [hzero]; decide)]
      exact ⟨0, zero_le _, rfl, window_zero _⟩
    · obtain ⟨k, hk, hlength, hwindow⟩ := ih (i := i + 1) (by omega)
      have hnonzero : (package.getD (field + i) 0 != 0) = true := bne_iff_ne.2 hzero
      rw [if_neg hzero, takeWhile_cons_of_pos (p := (· != 0)) hnonzero]
      refine ⟨k + 1, by omega, by rw [hlength, add_assoc, add_comm 1 k], ?_⟩
      rw [window_cons (by omega)]
      exact congrArg _ hwindow

/-- A field of a tar header, with its length. -/
theorem fieldLengthAt_string {header : ℕ} (field : ℕ) (h : header + 512 ≤ package.length)
    (hfield : field + 100 ≤ 512) :
    ∃ k ≤ 100, fieldLengthAt package (header + field) 100 0 = some k ∧
      window package (header + field) k = fieldString ((window package header 512).drop field) := by
  obtain ⟨k, hk, hlength, hwindow⟩ := fieldLengthAt_eq (i := 0) (n := 100)
    (show header + field + 0 + 100 ≤ package.length by omega)
  rw [zero_add] at hlength
  rw [add_zero] at hwindow
  refine ⟨k, hk, hlength, ?_⟩
  rw [hwindow, fieldString, drop_window, take_window (by omega)]

theorem packagePath_some {source : List UInt8} {path : Name} (h : packagePath source = some path) :
    path.length ≤ 95 ∧ cString path = path := by
  rw [packagePath] at h
  split at h
  · cases h
  split at h
  · rename_i hlength hvalid
    cases h
    exact ⟨by omega, packageSegments_nonzero hvalid⟩
  · cases h

/-- **The link target** stays inside the header, and inside a buffer of 97 bytes. -/
theorem linkTargetAt_eq {header : ℕ} (h : header + 512 ≤ package.length) :
    linkTargetAt package header = some (linkTarget (window package header 512)) := by
  obtain ⟨k, hk, hlength, hlink⟩ := fieldLengthAt_string 157 h (by omega)
  rw [linkTargetAt, linkTarget, ← hlink, hlength]
  simp only [bind_eq_bind, bind_some]
  have habsolute : absoluteAt package (header + 157) k =
      some (decide ((window package (header + 157) k).head? = some slash)) := by
    cases k with
    | zero => rw [absoluteAt, if_pos rfl, window_zero]; rfl
    | succ k =>
      rw [absoluteAt, if_neg (succ_ne_zero k), load_bind (by omega), window_cons (by omega),
        List.head?_cons]
      simp only [Option.some.injEq]
      exact beq_eq_decide _ _
  rw [habsolute, packagePathAt_eq (by omega)]
  simp only [bind_some]
  cases hpath : packagePath (window package (header + 157) k) with
  | none => rfl
  | some path =>
    obtain ⟨hshort, hzero⟩ := packagePath_some hpath
    by_cases hroot : (window package (header + 157) k).head? = some slash
    · have hslash : cString (slash :: path) = slash :: path := by
        exact congrArg _ hzero
      simp only [hroot, decide_true, if_true, map_some]
      rw [fillString, if_pos (by rw [length_cons]; omega), hslash]
      rfl
    · simp only [hroot, decide_false, false_eq_true, if_false, map_some]
      rw [fillString, if_pos (by omega), hzero]
      rfl

theorem installContentAt_eq {header dataOffset fileSize : ℕ} (h : header + 512 ≤ package.length)
    (hdata : dataOffset + fileSize ≤ package.length) (path : Name) (v : Volume)
    (result : DebInstallResult) :
    installContentAt package header path dataOffset fileSize v result =
      some (installContent (window package header 512) path (window package dataOffset fileSize) v
        result) := by
  rw [installContentAt, load_bind (by omega), installContent, getD_window (by omega)]
  simp only [bind_eq_bind, bind_some, linkTargetAt_eq h, loadRange_eq hdata]
  generalize package.getD (header + 156) 0 = type
  split
  · cases fsPathInfo v path false with
    | none =>
      rcases fsMkdir v path 0o755 with ⟨_ | _, v'⟩
      · rfl
      · rfl
    | some info =>
      simp only
      split
      · rfl
      · rfl
  · split
    · cases linkTarget (window package header 512) with
      | none => rfl
      | some target =>
        cases fsPathInfo v path false with
        | none =>
          simp only
          rcases fsSymlink v target path with ⟨_ | _, v'⟩
          · rfl
          · rfl
        | some info =>
          simp only
          generalize (if info.type ≠ FsType.symlink then (false, v) else fsDelete v path) = removed
          rcases removed with ⟨_ | _, v'⟩
          · rfl
          · simp only
            rcases fsSymlink v' target path with ⟨_ | _, v''⟩
            · rfl
            · rfl
    · split
      · split
        · rfl
        · rcases fsWrite v path (window package dataOffset fileSize) with ⟨_ | _, v'⟩
          · rfl
          · rfl
      · rfl

theorem offsetAdd_eq {a b : ℕ} (h : a + b < 2 ^ 64) : offsetAdd a b = some (a + b) := if_pos h

theorem offsetSub_eq {a b : ℕ} (h : b ≤ a) : offsetSub a b = some (a - b) := if_pos h

/-- An entry does not lead behind the end of the archive. -/
theorem installEntry_le {header rest : List UInt8} {v v' : Volume} {result result' : DebInstallResult}
    {padded : ℕ} (h : installEntry header rest v result = (some padded, v', result')) :
    padded ≤ rest.length := by
  rw [installEntry] at h
  split at h
  · split at h
    · cases h
    split at h
    · cases h
    split at h
    · cases h
    split at h
    · cases h
    simp only [Prod.mk.injEq] at h
    obtain ⟨hpadded, -⟩ := h
    split at hpadded
    · cases hpadded
    · cases hpadded
      omega
  · cases h

section Archive

variable {archive size offset : ℕ}

/-- **One entry of the archive**: what the list model says, with the offset of the next entry. -/
theorem installEntryAt_eq (hsize : archive + size ≤ package.length) (hsmall : package.length < 2 ^ 64)
    (hoffset : offset + 512 ≤ size) (v : Volume) (result : DebInstallResult) :
    installEntryAt package archive size offset v result =
      some ((installEntry (window package (archive + offset) 512)
          (window package (archive + (offset + 512)) (size - (offset + 512))) v result).1.map
            (offset + 512 + ·),
        (installEntry (window package (archive + offset) 512)
          (window package (archive + (offset + 512)) (size - (offset + 512))) v result).2) := by
  have hheader : archive + offset + 512 ≤ package.length := by omega
  obtain ⟨k, hk, hlength, hname⟩ := fieldLengthAt_string 0 hheader (by omega)
  rw [add_zero, drop_zero] at hname
  rw [add_zero] at hlength
  have hrest : (window package (archive + (offset + 512)) (size - (offset + 512))).length =
      size - (offset + 512) := length_window (by omega)
  rw [installEntryAt, installEntry, parseNumber, parseNumber, drop_window, drop_window,
    take_window (by omega), take_window (by omega)]
  simp only [bind_eq_bind]
  rw [parseNumberAt_eq 8 (by omega), bind_some]
  cases parseDigits 8 (window package (archive + offset + 124) 12) 0 false with
  | none => rfl
  | some fileSize =>
    simp only
    rw [parseNumberAt_eq 8 (by omega), bind_some]
    cases parseDigits 8 (window package (archive + offset + 148) 8) 0 false with
    | none => rfl
    | some storedChecksum =>
      simp only
      rw [checksumAt_header hheader, bind_some, hlength]
      simp only [bind_some]
      rw [packagePathAt_eq (by omega), bind_some, hname]
      split
      · rename_i hsum
        cases packagePath (fieldString (window package (archive + offset) 512)) with
        | none => rfl
        | some path => simp only [if_pos hsum]; rfl
      rename_i hsum
      cases packagePath (fieldString (window package (archive + offset) 512)) with
      | none => rfl
      | some path =>
        simp only [if_neg hsum]
        rcases ensureParentDirectories path v with ⟨_ | _, v'⟩
        · rfl
        simp only [hrest]
        rw [offsetAdd_eq (by omega), bind_some, offsetSub_eq hoffset, bind_some]
        by_cases hfits : fileSize > size - (offset + 512)
        · rw [if_pos hfits, if_pos hfits]
          rfl
        rw [if_neg hfits, if_neg hfits, installContentAt_eq hheader (by omega), bind_some,
          take_window (by omega)]
        rcases installContent (window package (archive + offset) 512) path
          (window package (archive + (offset + 512)) fileSize) v' result with ⟨_ | _, v'', result'⟩
        · rfl
        rw [offsetAdd_eq (by omega), bind_some]
        by_cases hpadded : (fileSize + 511) / 512 * 512 > size - (offset + 512)
        · rw [if_pos hpadded, if_pos hpadded]
          rfl
        · rw [if_neg hpadded, if_neg hpadded, offsetAdd_eq (by omega)]
          rfl

theorem installTarAt_zero (v : Volume) (result : DebInstallResult) :
    installTarAt package archive size 0 offset v result =
      (offsetAdd offset 512).bind fun stop =>
        if stop > size then some (false, v, result) else none := rfl

theorem installTarAt_succ (rounds : ℕ) (v : Volume) (result : DebInstallResult) :
    installTarAt package archive size (rounds + 1) offset v result =
      (offsetAdd offset 512).bind fun stop =>
        if stop > size then some (false, v, result)
        else (allZeroAt package 512 (archive + offset)).bind fun zero =>
          if zero then some (true, v, result)
          else (installEntryAt package archive size offset v result).bind fun entry =>
            match entry with
            | (none, v, result) => some (false, v, result)
            | (some next, v, result) => installTarAt package archive size rounds next v result :=
  rfl

/-- **The loop of `install_tar`** takes at most one round for every 512 bytes. -/
theorem installTarAt_eq (hsize : archive + size ≤ package.length)
    (hsmall : package.length + 512 < 2 ^ 64) {rounds fuel : ℕ} (hoffset : offset ≤ size)
    (hrounds : (size - offset) / 512 ≤ rounds) (hfuel : rounds < fuel) (v : Volume)
    (result : DebInstallResult) :
    installTarAt package archive size rounds offset v result =
      some (installTar fuel (window package (archive + offset) (size - offset)) v result) := by
  induction rounds generalizing offset fuel v result with
  | zero =>
    obtain ⟨fuel, rfl⟩ : ∃ more, fuel = more + 1 := ⟨fuel - 1, by omega⟩
    have hend : offset + 512 > size := by omega
    rw [installTarAt_zero, offsetAdd_eq (by omega), bind_some, if_pos hend, installTar,
      length_window (by omega), if_pos (by omega)]
  | succ rounds ih =>
    obtain ⟨fuel, rfl⟩ : ∃ more, fuel = more + 1 := ⟨fuel - 1, by omega⟩
    rw [installTarAt_succ, offsetAdd_eq (by omega), bind_some, installTar, length_window (by omega)]
    split
    · rw [if_pos (by omega)]
    rw [if_neg (by omega), allZeroAt_eq (by omega), bind_some, take_window (by omega)]
    by_cases hzero : allZero (window package (archive + offset) 512) = true
    · rw [if_pos hzero, if_pos hzero]
    rw [if_neg hzero, if_neg hzero, installEntryAt_eq hsize (by omega) (by omega), bind_some,
      drop_window, Nat.sub_sub, Nat.add_assoc archive offset 512]
    rcases hentry : installEntry (window package (archive + offset) 512)
        (window package (archive + (offset + 512)) (size - (offset + 512))) v result with
      ⟨_ | padded, v', result'⟩
    · rfl
    · have hle := installEntry_le hentry
      rw [length_window (by omega)] at hle
      show installTarAt package archive size rounds (offset + 512 + padded) v' result' =
        some (installTar fuel ((window package (archive + (offset + 512))
          (size - (offset + 512))).drop padded) v' result')
      rw [drop_window, Nat.sub_sub, Nat.add_assoc archive (offset + 512) padded]
      exact ih (by omega) (by omega) (by omega) v' result'

end Archive

/-! ### The members -/

/-- The bytes of a member that is given by its position and its size. -/
def memberBytes (package : List UInt8) (member : ℕ × ℕ) : List UInt8 :=
  window package member.1 member.2

theorem versionAt_eq {name : Name} {payload memberSize : ℕ} (h : payload + memberSize ≤ package.length)
    (versionOk : Bool) :
    versionAt package name payload memberSize versionOk =
      some (if name = debianBinary then
        memberSize = 4 && (package.drop payload).take 4 == version else versionOk) := by
  rw [versionAt]
  by_cases hname : name = debianBinary
  · rw [if_neg (not_not.2 hname), if_pos hname]
    by_cases hfour : memberSize = 4
    · rw [if_neg (not_not.2 hfour), loadRange_eq (by omega), decide_eq_true hfour, Bool.true_and]
      rfl
    · rw [if_pos hfour, decide_eq_false hfour, Bool.false_and]
  · rw [if_pos hname, if_neg hname]

/-- **The loop of `deb_install`** takes at most one round for every 60 bytes, and the `data.tar` that it
finds lies in the package. -/
theorem findMembersAt_eq (hsmall : package.length + 60 < 2 ^ 64) {rounds fuel offset : ℕ}
    (hoffset : offset ≤ package.length) (hrounds : (package.length - offset) / 60 ≤ rounds)
    (hfuel : rounds < fuel) (versionOk : Bool) {data : Option (ℕ × ℕ)}
    (hdata : ∀ member ∈ data, member.1 + member.2 ≤ package.length) :
    ∃ members, findMembersAt package rounds offset versionOk data = some members ∧
      findMembers fuel (package.drop offset) versionOk (data.map (memberBytes package)) =
        members.map (Prod.map id (Option.map (memberBytes package))) ∧
      ∀ found ∈ members, ∀ member ∈ found.2, member.1 + member.2 ≤ package.length := by
  induction rounds generalizing offset fuel versionOk data with
  | zero =>
    obtain ⟨fuel, rfl⟩ : ∃ more, fuel = more + 1 := ⟨fuel - 1, by omega⟩
    have hend : offset + 60 > package.length := by omega
    refine ⟨some (versionOk, data), ?_, ?_, ?_⟩
    · rw [findMembersAt, offsetAdd_eq (by omega)]
      exact if_pos hend
    · rw [findMembers, length_drop, if_pos (by omega)]
      rfl
    · intro found hfound
      cases hfound
      exact hdata
  | succ rounds ih =>
    obtain ⟨fuel, rfl⟩ : ∃ more, fuel = more + 1 := ⟨fuel - 1, by omega⟩
    rw [findMembersAt, offsetAdd_eq (by omega), findMembers, length_drop]
    simp only [bind_eq_bind, bind_some]
    by_cases hend : offset + 60 > package.length
    · rw [if_pos hend, if_pos (by omega)]
      refine ⟨some (versionOk, data), rfl, rfl, ?_⟩
      intro found hfound
      cases hfound
      exact hdata
    have hbyte : ∀ i, (package.drop offset).getD i 0 = package.getD (offset + i) 0 := by
      intro i
      rw [getD_eq_getElem?_getD, List.getElem?_drop, ← getD_eq_getElem?_getD]
    have hsize : parseNumber ((package.drop offset).drop 48) 10 10 =
        parseDigits 10 (window package (offset + 48) 10) 0 false := by
      rw [drop_drop]
      rfl
    rw [if_neg hend, if_neg (by omega), load_eq (by omega), hbyte, hbyte, hsize, bind_some]
    by_cases hmark : package.getD (offset + 58) 0 ≠ 96
    · rw [if_pos hmark, if_pos (.inl hmark)]
      exact ⟨none, rfl, rfl, fun _ hfound => by cases hfound⟩
    rw [if_neg hmark, load_eq (by omega), bind_some]
    split
    · rename_i hfeed
      rw [if_pos (.inr hfeed)]
      exact ⟨none, rfl, rfl, fun _ hfound => by cases hfound⟩
    rename_i hfeed
    rw [if_neg (not_or.2 ⟨hmark, hfeed⟩), parseNumberAt_eq 10 (by omega), bind_some]
    cases parseDigits 10 (window package (offset + 48) 10) 0 false with
    | none => exact ⟨none, rfl, rfl, fun _ hfound => by cases hfound⟩
    | some memberSize =>
      simp only
      rw [offsetSub_eq (by omega), bind_some, drop_drop, length_drop]
      by_cases hroom : memberSize > package.length - (offset + 60)
      · rw [if_pos hroom, if_pos hroom]
        exact ⟨none, rfl, rfl, fun _ hfound => by cases hfound⟩
      rw [if_neg hroom, if_neg hroom, arNameAt_eq (by omega), bind_some,
        versionAt_eq (by omega), bind_some, offsetAdd_eq (by omega), bind_some,
        offsetAdd_eq (by omega), bind_some]
      by_cases hnext : offset + 60 + memberSize + memberSize % 2 > package.length
      · have hnext' : memberSize + memberSize % 2 > package.length - (offset + 60) := by omega
        rw [if_pos hnext, if_pos hnext']
        exact ⟨none, rfl, rfl, fun _ hfound => by cases hfound⟩
      have hnext' : ¬ memberSize + memberSize % 2 > package.length - (offset + 60) := by omega
      rw [if_neg hnext, if_neg hnext', drop_drop, ← add_assoc]
      generalize arName (package.drop offset) = name
      have hmembers : (if name ≠ debianBinary ∧ name = dataTar then
          some ((package.drop (offset + 60)).take memberSize) else data.map (memberBytes package)) =
          (if name ≠ debianBinary ∧ name = dataTar then
            some (offset + 60, memberSize) else data).map (memberBytes package) := by
        split
        · rfl
        · rfl
      rw [hmembers]
      refine ih (by omega) (by omega) (by omega) _ ?_
      intro member hmember
      split at hmember
      · cases hmember
        omega
      · exact hdata member hmember

/-! ### The package -/

/-- **`deb_install` stays inside its buffers and ends**, for every package with which the offsets of one
more block are addresses, and every state of the file system. -/
theorem deb_install_memory_safe (package : List UInt8) (hsmall : package.length + 512 < 2 ^ 64)
    (v : Volume) : debInstallAt package v = some (debInstall package v) := by
  rw [debInstallAt, debInstall]
  split
  · rename_i hshort
    rw [if_pos (.inl hshort)]
  rename_i hshort
  rw [loadRange_eq (by omega)]
  simp only [bind_eq_bind, bind_some]
  have hmagic : window package 0 8 = package.take 8 := by rw [window, drop_zero]
  rw [hmagic]
  split
  · rename_i hplain
    rw [if_pos (.inr hplain)]
  rename_i hplain
  rw [if_neg (not_or.2 ⟨hshort, hplain⟩)]
  have hnone : ∀ member ∈ (none : Option (ℕ × ℕ)), member.1 + member.2 ≤ package.length := by
    intro member hmember
    cases hmember
  have hrounds : (package.length - 8) / 60 ≤ package.length / 60 := by omega
  have hfuel : package.length / 60 < package.length + 1 := by omega
  obtain ⟨members, hfind, hlist, hinside⟩ :=
    findMembersAt_eq (by omega) (by omega) hrounds hfuel false hnone
  rw [map_none] at hlist
  rw [hfind, hlist, bind_some]
  rcases members with _ | ⟨_ | _, _ | ⟨archive, size⟩⟩
  · rfl
  · rfl
  · rfl
  · rfl
  · have hsize : archive + size ≤ package.length := hinside _ rfl _ rfl
    have hblocks : (size - 0) / 512 ≤ size / 512 := by omega
    have hblockFuel : size / 512 < size + 1 := by omega
    have htar := installTarAt_eq hsize hsmall (zero_le size) hblocks hblockFuel v ⟨0, 0, 0⟩
    simp only [map_some, Prod.map_apply, id_eq, memberBytes, htar, bind_some, length_window hsize]
    rcases installTar (size + 1) (window package archive size) v ⟨0, 0, 0⟩ with ⟨_ | _, v', result⟩
    · rfl
    · rfl

/-- A package with a directory, a file and a link. -/
theorem deb_install_memory_safe_sample :
    (packDeb [9] (plainArchive sampleItems)).length + 512 < 2 ^ 64 ∧
      debInstallAt (packDeb [9] (plainArchive sampleItems)) emptyVolume =
        some (debInstall (packDeb [9] (plainArchive sampleItems)) emptyVolume) :=
  ⟨by decide +kernel, deb_install_memory_safe _ (by decide +kernel) _⟩

end NovaOS.Deb
