import NovaOS.Loader.Symbols
import NovaOS.Process.Queue

/-!
# The GNU hash table finds what a scan finds

`find_symbol_in_object` walks one chain of the GNU hash table where it could walk the whole symbol
table.  Both look at a symbol in the same way (`candidateAt`), so the two searches agree as soon as no
symbol outside the chain, or with another hash, can be the one asked for.

* `WellFormed` — a hash table as a linker writes it: the hashed symbols stand at the end of the symbol
  table grouped by bucket, with their hashes, an end mark on the last one of each bucket and their
  bits in the bloom filter;
* `scanLoop_skip`, `scanLoop_misses` — symbols that are not the one asked for do not matter to a scan;
* `chainLoop_eq` — walking a chain is scanning from there on;
* `hash_lookup_eq_scan` — the two branches give the same result.
-/

namespace NovaOS.Loader

open NovaOS.Fs NovaOS.Process

/-- An object with the symbol count found later. -/
def ElfLoadedObject.withSymbols (object : ElfLoadedObject) (count : ℕ) : ElfLoadedObject :=
  { object with symbolCount := count }

/-- The same tables without the hash table, so that the symbols are scanned. -/
def ElfLoadedObject.withoutHash (object : ElfLoadedObject) : ElfLoadedObject :=
  { object with gnuHashBucketCount := 0 }

/-- A GNU hash table: the words of its header, the end of the hashed symbols and their hashes. -/
structure GnuHash where
  bucketCount : ℕ
  symbolOffset : ℕ
  bloomSize : ℕ
  bloomShift : ℕ
  limit : ℕ
  hash : ℕ → ℕ

namespace GnuHash

variable (g : GnuHash)

def Hashed (i : ℕ) : Prop := g.symbolOffset ≤ i ∧ i < g.limit

def bucket (i : ℕ) : ℕ := g.hash i % g.bucketCount

/-- The places of the words in the table. -/
def bloomAt (word : ℕ) : ℕ := 16 + word * 8

def bucketAt (b : ℕ) : ℕ := 16 + g.bloomSize * 8 + b * 4

def chainAt (i : ℕ) : ℕ := 16 + g.bloomSize * 8 + g.bucketCount * 4 + (i - g.symbolOffset) * 4

end GnuHash

/-- The name of a symbol. -/
def symbolName (t : Target) (object : ElfLoadedObject) (symbol : Elf64Symbol) : Option Name :=
  copyMappedString t ((object.stringTable + symbol.name) % 2 ^ 64) elfSymbolNameMax

/-- The tables of an object are well formed, with the hash table `g` at `hashAddress`. -/
structure WellFormed (t : Target) (object : ElfLoadedObject) (hashAddress : ℕ) (g : GnuHash) :
    Prop where
  header : ∃ header, t.read hashAddress 16 = some header ∧ field header 0 4 = g.bucketCount ∧
    field header 4 4 = g.symbolOffset ∧ field header 8 4 = g.bloomSize ∧
    field header 12 4 = g.bloomShift
  /-- symbols and names can be read, an exported symbol is hashed, and symbol 0 is not exported -/
  symbols : ∀ i, i < object.symbolCount → ∃ symbol, readObjectSymbol t object i = some symbol ∧
    (symbol.exported object.stringSize = true → 0 < i ∧ g.Hashed i ∧
      ∃ name, symbolName t object symbol = some name ∧ g.hash i = gnuSymbolHash name)
  /-- every hash has its bits in the bloom filter -/
  bloom : ∀ word, word < g.bloomSize →
    ∃ bits, t.readWord 8 ((hashAddress + GnuHash.bloomAt word) % 2 ^ 64) = some bits ∧
      ∀ i, g.Hashed i → g.hash i / 64 % g.bloomSize = word →
        bits &&& bloomMask (g.hash i) g.bloomShift = bloomMask (g.hash i) g.bloomShift
  /-- a bucket holds its first symbol, an empty one a number below the hashed symbols -/
  buckets : ∀ b, b < g.bucketCount →
    ∃ first, t.readWord 4 ((hashAddress + g.bucketAt b) % 2 ^ 64) = some first ∧
      (first < g.symbolOffset → ∀ i, g.Hashed i → g.bucket i ≠ b) ∧
      (g.symbolOffset ≤ first → g.Hashed first ∧ g.bucket first = b ∧
        ∀ i, g.Hashed i → g.bucket i = b → first ≤ i)
  /-- the symbols of a bucket stand together -/
  grouped : ∀ i j k, g.symbolOffset ≤ i → i ≤ j → j ≤ k → k < g.limit → g.bucket i = g.bucket k →
    g.bucket j = g.bucket i
  /-- a chain word is the hash, with the low bit for the last symbol of the bucket -/
  chains : ∀ i, g.Hashed i →
    ∃ chain, t.readWord 4 ((hashAddress + g.chainAt i) % 2 ^ 64) = some chain ∧
      chain ||| 1 = g.hash i ||| 1 ∧
      (chain % 2 = 1 ↔ (i + 1 = g.limit ∨ g.bucket (i + 1) ≠ g.bucket i))

variable {t : Target} {object object' : ElfLoadedObject} {name version : Name} {g : GnuHash}
  {hashAddress : ℕ}

/-! ### The scan -/

/-- Symbols that are not the one asked for can be left out at the front. -/
theorem scanLoop_skip {k : ℕ} (n i : ℕ)
    (h : ∀ j, i ≤ j → j < i + k → candidateAt t object name version j = some none) :
    scanLoop t object name version (k + n) i = scanLoop t object name version n (i + k) := by
  induction k generalizing i with
  | zero => rw [zero_add, add_zero]
  | succ k ih =>
    rw [show k + 1 + n = k + n + 1 by omega, scanLoop, h i (le_refl i) (by omega)]
    simp only
    rw [ih (i + 1) fun j hj hj' => h j (by omega) (by omega)]
    congr 1
    omega

/-- A scan over symbols none of which is the one asked for. -/
theorem scanLoop_misses (n i : ℕ)
    (h : ∀ j, i ≤ j → j < i + n → candidateAt t object name version j = some none) :
    scanLoop t object name version n i = some none := by
  have hskip := scanLoop_skip 0 i h
  rw [add_zero] at hskip
  rw [hskip, scanLoop]

/-- A scan only depends on what it makes of each symbol. -/
theorem scanLoop_congr
    (h : ∀ i, candidateAt t object' name version i = candidateAt t object name version i) (n i : ℕ) :
    scanLoop t object' name version n i = scanLoop t object name version n i := by
  induction n generalizing i with
  | zero => rfl
  | succ n ih => rw [scanLoop, scanLoop, h, ih]

theorem definedLoop_withoutHash (versionIndex count address : ℕ) :
    definedLoop t object.withoutHash versionIndex count address =
      definedLoop t object versionIndex count address := by
  induction count generalizing address with
  | zero => rfl
  | succ count ih =>
    simp only [definedLoop, ih]
    rfl

/-- The hash table plays no part in what is made of a symbol. -/
theorem candidateAt_withoutHash {i : ℕ} : candidateAt t object.withoutHash name version i =
    candidateAt t object name version i := by
  have hversion : ∀ versionIndex, definedVersionName t object.withoutHash versionIndex =
      definedVersionName t object versionIndex := by
    intro versionIndex
    simp only [definedVersionName, definedLoop_withoutHash]
    rfl
  simp only [candidateAt, symbolVersionMatches, hversion]
  rfl

/-! ### Symbols that matter -/

/-- Only a hashed symbol with the right hash can be the one asked for. -/
theorem WellFormed.candidate (h : WellFormed t object hashAddress g) {i : ℕ}
    (hi : i < object.symbolCount) (hhit : candidateAt t object name version i ≠ some none) :
    0 < i ∧ g.Hashed i ∧ g.hash i = gnuSymbolHash name := by
  obtain ⟨symbol, hsymbol, hexported⟩ := h.symbols i hi
  rw [candidateAt, hsymbol] at hhit
  simp only at hhit
  by_cases hexp : symbol.exported object.stringSize = true
  · obtain ⟨hpos, hhashed, found, hname, hhash⟩ := hexported hexp
    rw [symbolName] at hname
    rw [hexp, hname] at hhit
    by_cases heq : found = name
    · rw [heq] at hhash
      exact ⟨hpos, hhashed, hhash⟩
    · simp [heq] at hhit
  · simp [hexp] at hhit

/-- All symbols from some point on that are not in the bucket of the name are misses. -/
theorem WellFormed.miss (h : WellFormed t object hashAddress g) {i : ℕ} (hi : i < object.symbolCount)
    (hother : g.Hashed i → g.hash i = gnuSymbolHash name → False) :
    candidateAt t object name version i = some none := by
  by_contra hhit
  obtain ⟨_, hhashed, hhash⟩ := h.candidate hi hhit
  exact hother hhashed hhash

/-! ### The chain -/

/-- What the hash branch needs of the object: its fields are those of the table. -/
structure Reads (object : ElfLoadedObject) (hashAddress : ℕ) (g : GnuHash) : Prop where
  bloom : ∀ word, (object.gnuHashBloom + word * 8) % 2 ^ 64 = (hashAddress + GnuHash.bloomAt word) % 2 ^ 64
  buckets : ∀ b, (object.gnuHashBuckets + b * 4) % 2 ^ 64 = (hashAddress + g.bucketAt b) % 2 ^ 64
  chains : ∀ i, (object.gnuHashChains + (i - object.gnuHashSymbolOffset) * 4) % 2 ^ 64 =
    (hashAddress + g.chainAt i) % 2 ^ 64
  bucketCount : object.gnuHashBucketCount = g.bucketCount
  symbolOffset : object.gnuHashSymbolOffset = g.symbolOffset
  bloomSize : object.gnuHashBloomSize = g.bloomSize
  bloomShift : object.gnuHashBloomShift = g.bloomShift
  bucketPos : 0 < g.bucketCount
  bloomPos : 0 < g.bloomSize

/-- **Walking a chain is scanning.**  From a symbol of the name's bucket on, the chain finds what a scan
of the rest of the symbol table finds. -/
theorem chainLoop_eq (h : WellFormed t object hashAddress g) (hr : Reads object hashAddress g)
    (fuel i : ℕ) (hend : i + fuel = object.symbolCount)
    (hi : 0 < fuel → g.Hashed i ∧ g.bucket i = gnuSymbolHash name % g.bucketCount) :
    chainLoop t object name version (gnuSymbolHash name) fuel i =
      scanLoop t object name version fuel i := by
  induction fuel generalizing i with
  | zero => rfl
  | succ fuel ih =>
    obtain ⟨hhashed, hbucket⟩ := hi (by omega)
    obtain ⟨chain, hchain, hhash, hlast⟩ := h.chains i hhashed
    -- a symbol whose stored hash differs is no candidate
    have hprobe : (if chain ||| 1 = gnuSymbolHash name ||| 1 then candidateAt t object name version i
        else some none) = candidateAt t object name version i := by
      split
      · rfl
      · rename_i hne
        refine (h.miss (by omega) fun _ heq => hne ?_).symm
        rw [hhash, heq]
    rw [chainLoop, hr.chains, hchain]
    simp only [hprobe]
    rw [scanLoop]
    cases hcandidate : candidateAt t object name version i with
    | none => rfl
    | some found =>
      cases found with
      | some found => rfl
      | none =>
        by_cases hmark : chain % 2 = 1
        · -- the bucket ends here, so nothing behind it has the hash
          rw [if_pos hmark]
          refine (scanLoop_misses fuel (i + 1) fun j hj hj' => h.miss (by omega) ?_).symm
          intro hjhashed hjhash
          have hjbucket : g.bucket j = g.bucket i := by
            rw [hbucket, GnuHash.bucket, hjhash]
          have hnext := h.grouped i (i + 1) j hhashed.1 (by omega) hj hjhashed.2 hjbucket.symm
          rcases hlast.1 hmark with hlimit | hother
          · have := hjhashed.2
            omega
          · exact hother hnext
        · rw [if_neg hmark]
          refine ih (i + 1) (by omega) fun _ => ?_
          have hmore : ¬ (i + 1 = g.limit ∨ g.bucket (i + 1) ≠ g.bucket i) :=
            fun hor => hmark (hlast.2 hor)
          have hlimit := hhashed.2
          have hoffset := hhashed.1
          refine ⟨⟨by omega, by omega⟩, ?_⟩
          by_contra hne
          exact hmore (.inr fun heq => hne (heq.trans hbucket))

/-! ### The two branches -/

/-- The scan of the whole table, symbol 0 included. -/
theorem WellFormed.findByScan_eq (h : WellFormed t object hashAddress g) :
    findByScan t object name version = scanLoop t object name version object.symbolCount 0 := by
  rw [findByScan]
  by_cases hzero : object.symbolCount = 0
  · rw [hzero]
    rfl
  · obtain ⟨n, hn⟩ : ∃ n, object.symbolCount = 1 + n := ⟨object.symbolCount - 1, by omega⟩
    rw [hn, scanLoop_skip n 0, Nat.add_sub_cancel_left]
    intro j _ hj
    by_contra hhit
    have := (h.candidate (by omega) hhit).1
    omega

theorem WellFormed.findByHash_eq (h : WellFormed t object hashAddress g)
    (hr : Reads object hashAddress g) :
    findByHash t object name version = findByScan t object name version := by
  obtain ⟨bits, hbits, hbloom⟩ := h.bloom (gnuSymbolHash name / 64 % g.bloomSize)
    (Nat.mod_lt _ hr.bloomPos)
  obtain ⟨first, hfirst, hempty, hfull⟩ := h.buckets (gnuSymbolHash name % g.bucketCount)
    (Nat.mod_lt _ hr.bucketPos)
  rw [h.findByScan_eq, findByHash, hr.bloomSize, hr.bloom, hbits]
  simp only [hr.bloomShift]
  by_cases hfilter : bits &&& bloomMask (gnuSymbolHash name) g.bloomShift ≠
      bloomMask (gnuSymbolHash name) g.bloomShift
  · -- no hashed symbol has the hash
    rw [if_pos hfilter, scanLoop_misses]
    intro j _ hj
    refine h.miss (by omega) fun hhashed hhash => hfilter ?_
    have := hbloom j hhashed (by rw [hhash])
    rwa [hhash] at this
  · rw [if_neg hfilter, hr.bucketCount, hr.buckets, hfirst]
    simp only [hr.symbolOffset]
    by_cases hbelow : first < g.symbolOffset
    · -- the bucket is empty
      rw [if_pos hbelow, scanLoop_misses]
      intro j _ hj
      refine h.miss (by omega) fun hhashed hhash => hempty hbelow j hhashed ?_
      rw [GnuHash.bucket, hhash]
    · obtain ⟨hhashed, hbucket, hleast⟩ := hfull (by omega)
      rw [if_neg hbelow]
      -- nothing before the first symbol of the bucket has the hash
      have hbefore : ∀ j, j < first → j < object.symbolCount →
          candidateAt t object name version j = some none := by
        intro j hj hcount
        refine h.miss hcount fun hjhashed hjhash => ?_
        have := hleast j hjhashed (by rw [GnuHash.bucket, hjhash])
        omega
      by_cases hcount : first ≤ object.symbolCount
      · rw [chainLoop_eq h hr _ first (by omega) fun _ => ⟨hhashed, hbucket⟩]
        have hskip : scanLoop t object name version (first + (object.symbolCount - first)) 0 =
            scanLoop t object name version (object.symbolCount - first) (0 + first) :=
          scanLoop_skip _ 0 fun j _ hj => hbefore j (by omega) (by omega)
        rw [show first + (object.symbolCount - first) = object.symbolCount by omega,
          zero_add] at hskip
        exact hskip.symm
      · rw [show object.symbolCount - first = 0 by omega, chainLoop, scanLoop_misses]
        intro j _ hj
        exact hbefore j (by omega) (by omega)

/-- What `parse_gnu_hash` enters into the object. -/
theorem parseGnuHash_reads (hparse : parseGnuHash t object hashAddress = some object') (n : ℕ)
    (h : WellFormed t (object'.withSymbols n) hashAddress g) :
    Reads (object'.withSymbols n) hashAddress g := by
  obtain ⟨header, hread, hbuckets, hoffset, hbloom, hshift⟩ := h.header
  rw [parseGnuHash, hread] at hparse
  simp only [hbuckets, hoffset, hbloom, hshift] at hparse
  split at hparse
  · cases hparse
  rename_i hsizes
  split at hparse
  · cases hparse
  generalize scanBuckets t _ _ _ _ _ _ = scanned at hparse
  cases scanned with
  | none => cases hparse
  | some maximumSymbol =>
    simp only [Option.some.injEq] at hparse
    subst hparse
    refine ⟨fun word => ?_, fun b => ?_, fun i => ?_, rfl, rfl, rfl, rfl, by omega, by omega⟩
    · simp only [ElfLoadedObject.withSymbols, GnuHash.bloomAt]
      omega
    · simp only [ElfLoadedObject.withSymbols, GnuHash.bucketAt]
      omega
    · simp only [ElfLoadedObject.withSymbols, GnuHash.chainAt]
      omega

/-- **GNU hash lookup is linear search.**  On an object whose tables are well formed, as
`parse_gnu_hash` has set it up and with whatever symbol count is known afterwards, the lookup of any
name and version gives the result of the scan of the symbol table: found or not, the value and the
number of the symbol. -/
theorem hash_lookup_eq_scan (hparse : parseGnuHash t object hashAddress = some object') (n : ℕ)
    (h : WellFormed t (object'.withSymbols n) hashAddress g) (name version : Name) :
    findSymbolInObject t (object'.withSymbols n) name version =
      findSymbolInObject t (object'.withSymbols n).withoutHash name version := by
  have hr := parseGnuHash_reads hparse n h
  have hcount : (object'.withSymbols n).gnuHashBucketCount ≠ 0 := by
    have := hr.bucketPos
    rw [hr.bucketCount]
    omega
  rw [findSymbolInObject, if_pos hcount, h.findByHash_eq hr, findSymbolInObject,
    if_neg (by simp [ElfLoadedObject.withoutHash]), findByScan, findByScan]
  exact (scanLoop_congr (fun _ => candidateAt_withoutHash) _ _).symm

/-- Two symbols, the null symbol and `a`, their strings, and a hash table with one bucket. -/
def symbolBytes : List UInt8 :=
  List.replicate 24 0 ++ leBytes 4 1 ++ [0x10, 0] ++ leBytes 2 1 ++ leBytes 8 0x20 ++ leBytes 8 0 ++
    [0, 97, 0] ++ List.replicate 13 0 ++
    leBytes 4 1 ++ leBytes 4 1 ++ leBytes 4 1 ++ leBytes 4 6 ++ leBytes 8 (2 ^ 64 - 1) ++ leBytes 4 1 ++
    leBytes 4 177671

/-- One user page with these bytes. -/
def symbolPage : Target :=
  ⟨⟨oneSpace, 1, [], 0, 0, 0, 0⟩,
    { onePage.memory with bytes := fun _ offset => symbolBytes.getD offset 0 }⟩

/-- The object whose tables are on the page. -/
def symbolObject : ElfLoadedObject :=
  { ElfLoadedObject.zero with
    symbolTable := 0x40000000, stringTable := 0x40000030, stringSize := 3 }

def symbolParsed : ElfLoadedObject :=
  (parseGnuHash symbolPage symbolObject 0x40000040).getD ElfLoadedObject.zero

/-- The hash table on the page. -/
def symbolHash : GnuHash := ⟨1, 1, 1, 6, 2, fun _ => 177670⟩

theorem hash_lookup_eq_scan_symbol :
    parseGnuHash symbolPage symbolObject 0x40000040 = some symbolParsed ∧
      findSymbolInObject symbolPage (symbolParsed.withSymbols 2) [97] [] =
        findSymbolInObject symbolPage (symbolParsed.withSymbols 2).withoutHash [97] [] ∧
      findSymbolInObject symbolPage (symbolParsed.withSymbols 2) [97] [] = some (some (0x20, 1)) := by
  have hparse : parseGnuHash symbolPage symbolObject 0x40000040 = some symbolParsed := by
    decide +kernel
  have hone : ∀ {i : ℕ}, symbolHash.Hashed i → i = 1 := by
    intro i hi
    have hlow : 1 ≤ i := hi.1
    have hhigh : i < 2 := hi.2
    omega
  have hwf : WellFormed symbolPage (symbolParsed.withSymbols 2) 0x40000040 symbolHash := by
    refine ⟨⟨leBytes 4 1 ++ leBytes 4 1 ++ leBytes 4 1 ++ leBytes 4 6, by decide +kernel⟩, ?_, ?_, ?_, ?_,
      ?_⟩
    · intro i hi
      have hcases : i = 0 ∨ i = 1 := by
        have hi : i < 2 := hi
        omega
      rcases hcases with rfl | rfl
      · exact ⟨⟨0, 0, 0, 0⟩, by decide +kernel, fun hexported => absurd hexported (by decide)⟩
      · exact ⟨⟨1, 0x10, 1, 0x20⟩, by decide +kernel,
          fun _ => ⟨by decide, ⟨by decide, by decide⟩, [97], by decide +kernel, by decide⟩⟩
    · intro word hword
      obtain rfl : word = 0 := Nat.lt_one_iff.1 hword
      exact ⟨2 ^ 64 - 1, by decide +kernel, fun i hi _ => by rw [hone hi]; decide +kernel⟩
    · intro b hb
      obtain rfl : b = 0 := Nat.lt_one_iff.1 hb
      refine ⟨1, by decide +kernel, fun h => absurd h (by decide), fun _ => ⟨⟨by decide, by decide⟩,
        by decide, fun i hi _ => (hone hi).ge⟩⟩
    · intro i j k _ _ _ _ _
      rfl
    · intro i hi
      obtain rfl := hone hi
      exact ⟨177671, by decide +kernel, by decide +kernel, by decide +kernel⟩
  exact ⟨hparse, hash_lookup_eq_scan hparse 2 hwf [97] [], by decide +kernel⟩

end NovaOS.Loader
