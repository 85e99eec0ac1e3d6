import NovaOS.Deb.Package
import NovaOS.Fs.Reboot
import Mathlib.Data.List.DropRight

/-!
# Reading what was packed

The installer reads back the fields of a header that the writer packed: numbers
(`parseDigits_written`, `parseNumber_exact`), paths in normal form (`packagePath_normal`, `packagePath_slash`), the fields
of a tar header (`tarHeader_size`, `tarHeader_checksum`, `tarHeader_name`) and of an `ar` header
(`findMembers_arMember`).
-/

namespace NovaOS.Deb

open Fs List

/-! ### Numbers -/

section

variable {base : ℕ}

theorem digit_toNat {d : ℕ} (h : d < 10) : (UInt8.ofNat (48 + d)).toNat = 48 + d := by
  rw [UInt8.toNat_ofNat']
  omega

theorem length_digitsOf (base width n : ℕ) : (digitsOf base width n).length = width := by
  induction width generalizing n with
  | zero => rfl
  | succ width ih => rw [digitsOf, length_append, ih, length_singleton]

/-- One digit of a number that fits. -/
theorem parseDigits_digit (hbase : base ≤ 10) {d result : ℕ} (hd : d < base) (found : Bool)
    (rest : List UInt8) (hfits : result * base + d < 2 ^ 64) :
    parseDigits base (UInt8.ofNat (48 + d) :: rest) result found =
      parseDigits base rest (result * base + d) true := by
  have hvalue := digit_toNat (lt_of_lt_of_le hd hbase)
  have hne : ∀ c : UInt8, c.toNat < 48 → UInt8.ofNat (48 + d) ≠ c := by
    rintro c hc rfl
    omega
  have hlow : ¬UInt8.ofNat (48 + d) < 48 := by
    rw [UInt8.lt_iff_toNat_lt, hvalue]
    exact Nat.not_lt.2 (Nat.le_add_right 48 d)
  rw [parseDigits, if_neg (not_or.2 ⟨hne 0 (by decide), hne 32 (by decide)⟩), hvalue,
    if_neg (not_or.2 ⟨hlow, by omega⟩)]
  simp only [Nat.add_sub_cancel_left]
  rw [if_neg]
  rw [Nat.not_lt, Nat.le_div_iff_mul_le (by omega)]
  omega

theorem parseDigits_digitsOf (hbase : base ≤ 10) (hpos : 0 < base) (width n : ℕ) (result : ℕ)
    (found : Bool) (rest : List UInt8) (hfits : result * base ^ width + n % base ^ width < 2 ^ 64) :
    parseDigits base (digitsOf base width n ++ rest) result found =
      parseDigits base rest (result * base ^ width + n % base ^ width)
        (found || decide (0 < width)) := by
  induction width generalizing n rest with
  | zero =>
    rw [digitsOf, Nat.pow_zero, Nat.mod_one, Nat.mul_one, Nat.add_zero]
    simp
  | succ width ih =>
    have hmod : n % base ^ (width + 1) = n / base % base ^ width * base + n % base := by
      rw [Nat.pow_succ', Nat.mod_mul, Nat.mul_comm base, Nat.add_comm]
    have hvalue : result * base ^ (width + 1) + n % base ^ (width + 1) =
        (result * base ^ width + n / base % base ^ width) * base + n % base := by
      rw [hmod, add_mul, pow_succ, mul_assoc, add_assoc]
    rw [hvalue] at hfits
    have hbefore : result * base ^ width + n / base % base ^ width < 2 ^ 64 := by
      refine Nat.lt_of_le_of_lt ?_ hfits
      exact Nat.le_trans (Nat.le_mul_of_pos_right _ hpos) (Nat.le_add_right ..)
    rw [digitsOf, append_assoc, singleton_append, ih (n / base) _ hbefore,
      parseDigits_digit hbase (Nat.mod_lt _ hpos) _ _ hfits, hvalue]
    simp

/-- A character before or behind a number. -/
def blank (c : UInt8) : Bool := c == 0 || c == 32

/-- What stands before the first blank. -/
def word (text : List UInt8) : List UInt8 := text.takeWhile (!blank ·)

/-- The part of a field that has to be a number. -/
def numberField (text : List UInt8) : List UInt8 := word (text.dropWhile blank)

def isDigit (base : ℕ) (c : UInt8) : Bool := 48 ≤ c.toNat && c.toNat < 48 + base

/-- The number that digits behind `n` give. -/
def number (base : ℕ) (digits : List UInt8) (n : ℕ) : ℕ :=
  digits.foldl (fun n c => n * base + (c.toNat - 48)) n

theorem le_number (hpos : 0 < base) (digits : List UInt8) (n : ℕ) : n ≤ number base digits n := by
  induction digits generalizing n with
  | nil => exact le_refl n
  | cons c digits ih =>
    exact (Nat.le_mul_of_pos_right n hpos).trans ((Nat.le_add_right _ _).trans (ih _))

theorem blank_iff {c : UInt8} : blank c = true ↔ c = 0 ∨ c = 32 := by
  rw [blank, Bool.or_eq_true, beq_iff_eq, beq_iff_eq]

theorem word_cons {c : UInt8} (h : ¬(c = 0 ∨ c = 32)) (text : List UInt8) :
    word (c :: text) = c :: word text := by
  rw [← blank_iff, Bool.not_eq_true] at h
  exact takeWhile_cons_of_pos (by rw [h]; rfl)

/-- The loop, once it is in the number: its guard is neither too strict nor too lax. -/
theorem parseDigits_found (hpos : 0 < base) (text : List UInt8) {result : ℕ} (hresult : result < 2 ^ 64) :
    parseDigits base text result true =
      if (word text).all (isDigit base) = true ∧ number base (word text) result < 2 ^ 64 then
        some (number base (word text) result)
      else none := by
  induction text generalizing result with
  | nil => exact (if_pos ⟨rfl, hresult⟩).symm
  | cons c text ih =>
    rw [parseDigits]
    split
    · next hblank =>
      rw [word, takeWhile_cons_of_neg (by simp [blank_iff.2 hblank])]
      exact (if_pos ⟨rfl, hresult⟩).symm
    next hblank =>
    have hnumber : number base (c :: word text) result =
        number base (word text) (result * base + (c.toNat - 48)) := rfl
    have hdigit : (c < 48 ∨ c.toNat ≥ 48 + base) ↔ ¬isDigit base c = true := by
      rw [UInt8.lt_iff_toNat_lt, isDigit, Bool.and_eq_true, decide_eq_true_eq, decide_eq_true_eq]
      show c.toNat < 48 ∨ _ ↔ _
      omega
    have hguard : result > (2 ^ 64 - 1 - (c.toNat - 48)) / base ↔
        2 ^ 64 ≤ result * base + (c.toNat - 48) := by
      rw [gt_iff_lt, Nat.div_lt_iff_lt_mul hpos]
      have := c.toNat_lt
      omega
    simp only [hdigit, hguard, word_cons hblank, all_cons, Bool.and_eq_true, hnumber]
    split
    · next hother => exact (if_neg fun h => hother h.1.1).symm
    split
    · next hlarge =>
      have hle := le_number hpos (word text) (result * base + (c.toNat - 48))
      exact (if_neg fun h => absurd h.2 (by omega)).symm
    · next hother hfits =>
      rw [ih (by omega)]
      simp only [not_not.1 hother, true_and]

/-- The digits of a number, with a blank or nothing behind them. -/
theorem parseDigits_written (hbase : base ≤ 10) (hpos : 0 < base) {width n : ℕ} (hn : n < 2 ^ 64)
    (hwidth : 0 < width) (hdigits : n < base ^ width) {rest : List UInt8}
    (hrest : ∀ c ∈ rest.head?, blank c = true) :
    parseDigits base (digitsOf base width n ++ rest) 0 false = some n := by
  have hread := parseDigits_digitsOf hbase hpos width n 0 false rest
  rw [Nat.mod_eq_of_lt hdigits, Nat.zero_mul, Nat.zero_add, decide_eq_true hwidth] at hread
  rw [hread hn, Bool.or_true]
  cases rest with
  | nil => rfl
  | cons c rest => rw [parseDigits, if_pos (blank_iff.1 (hrest c rfl)), if_pos rfl]

/-- **Archive numbers are read exactly**: the field of any length that a number stands in, if it is one
that fits into 64 bits, and every number that is written with zeros or blanks around it. -/
theorem parseNumber_exact (hbase : base = 8 ∨ base = 10) :
    (∀ text, parseNumber text text.length base =
      if ((numberField text).isEmpty = false ∧ (numberField text).all (isDigit base) = true) ∧
          number base (numberField text) 0 < 2 ^ 64 then some (number base (numberField text) 0)
      else none) ∧
    ∀ n width pad rest, n < 2 ^ 64 → 0 < width → n < base ^ width → (∀ c ∈ pad, blank c = true) →
      (∀ c ∈ rest.head?, blank c = true) →
      parseNumber (pad ++ (digitsOf base width n ++ rest))
        (pad ++ (digitsOf base width n ++ rest)).length base = some n := by
  constructor
  · intro text
    rw [parseNumber, take_length]
    induction text with
    | nil => exact (if_neg fun h => Bool.false_ne_true h.1.1.symm).symm
    | cons c text ih =>
      rw [numberField]
      by_cases hblank : c = 0 ∨ c = 32
      · rw [parseDigits, if_pos hblank, if_neg Bool.false_ne_true, ih,
          dropWhile_cons_of_pos (blank_iff.2 hblank), numberField]
      · have hfound : parseDigits base (c :: text) 0 false = parseDigits base (c :: text) 0 true := by
          rw [parseDigits, parseDigits, if_neg hblank, if_neg hblank]
        rw [hfound, parseDigits_found (by omega) _ (by omega),
          dropWhile_cons_of_neg (mt blank_iff.1 hblank), word_cons hblank]
        simp
  · intro n width pad rest hn hwidth hdigits hpad hrest
    rw [parseNumber, take_length]
    induction pad with
    | nil => exact parseDigits_written (by omega) (by omega) hn hwidth hdigits hrest
    | cons c pad ih =>
      rw [forall_mem_cons] at hpad
      rw [cons_append, parseDigits, if_pos (blank_iff.1 hpad.1), if_neg Bool.false_ne_true]
      exact ih hpad.2

/-- A field that ends with a blank. -/
theorem parseNumber_exact_octal : parseNumber [32, 49, 50, 0] 4 8 = some 10 :=
  ((parseNumber_exact (.inl rfl)).1 [32, 49, 50, 0]).trans (by decide +kernel)

end

/-! ### Paths -/

/-- A path that `package_path` leaves as it is. -/
structure NormalPath (path : Name) : Prop where
  valid : validName path = true
  dots : ¬[dot, slash] <+: path

instance (path : Name) : Decidable (NormalPath path) :=
  decidable_of_iff (validName path = true ∧ ¬[dot, slash] <+: path)
    ⟨fun h => ⟨h.1, h.2⟩, fun h => ⟨h.valid, h.dots⟩⟩

section

variable {path : Name}

/-- The two loops differ in the last segment only, which `valid_name` wants to be there. -/
theorem validSegments_iff_package (name segment : Name) :
    validSegments name segment = true ↔
      packageSegments name segment = true ∧ name.getLast?.elim (segment ≠ []) (· ≠ slash) := by
  induction name generalizing segment with
  | nil =>
    rw [validSegments, packageSegments, Bool.and_eq_true, Bool.not_eq_true', isEmpty_eq_false_iff]
    exact And.comm
  | cons c name ih =>
    rw [validSegments, packageSegments, List.getLast?_cons, Option.elim_some]
    split
    · simp
    split
    · next hslash =>
      split
      · simp
      rw [ih, hslash]
      cases name.getLast? <;> simp
    · next hslash =>
      rw [ih]
      cases name.getLast? <;> simp [hslash]

theorem skipDots_of_not (h : ¬[dot, slash] <+: path) : skipDots path = path := by
  fun_cases skipDots path with
  | case1 rest => exact absurd ⟨rest, rfl⟩ h
  | case2 => rfl

/-- The last character of a valid name is neither zero nor a slash. -/
theorem validName_last (h : validName path = true) {c : UInt8} (hc : path.getLast? = some c) :
    c ≠ 0 ∧ c ≠ slash := by
  obtain ⟨init, rfl⟩ := List.getLast?_eq_some_iff.1 hc
  obtain ⟨-, hprint, hgood⟩ := validName_iff.1 h
  constructor
  · rintro rfl
    exact absurd (hprint 0 (mem_append_right _ (mem_singleton_self 0))).1 (by decide)
  · rintro rfl
    have hsplit : segments (init ++ slash :: []) = segments init ++ [[]] := segments_split init []
    exact (hgood [] (hsplit ▸ mem_append_right _ (mem_singleton_self []))).1 rfl

/-- Nothing is stripped from the end of a valid name. -/
theorem rstrip_valid (h : validName path = true) :
    (path.reverse.dropWhile fun c => c == 0 || c == slash) = path.reverse := by
  cases hreverse : path.reverse with
  | nil => rfl
  | cons c rest =>
    have hlast : path.getLast? = some c := by
      rw [← List.head?_reverse, hreverse, List.head?_cons]
    obtain ⟨hzero, hslash⟩ := validName_last h hlast
    simp [hzero, hslash]

theorem lstrip_of_head (h : path.head? ≠ some slash) : path.dropWhile (· == slash) = path := by
  cases path with
  | nil => rfl
  | cons c rest =>
    rw [dropWhile_cons_of_neg (by simpa using h)]

/-- What is left of a path after it was stripped decides. -/
theorem packagePath_of_strip {source : List UInt8} (hvalid : validName path = true)
    (h : ((skipDots (source.dropWhile (· == slash))).reverse.dropWhile
      fun c => c == 0 || c == slash).reverse = path) : packagePath source = some path := by
  have hlength := validName_length hvalid
  have hpos := length_pos_of_ne_nil (validName_ne_nil hvalid)
  have hsegments : validSegments path [] = true := by
    rw [validName, if_neg (by simp only [Bool.or_eq_true, decide_eq_true_eq]; omega)] at hvalid
    exact hvalid
  rw [packagePath]
  simp only [h]
  rw [if_neg (by omega), ((validSegments_iff_package path []).1 hsegments).1, if_pos rfl]

/-- **`package_path` of a path in normal form.** -/
theorem packagePath_normal (h : NormalPath path) : packagePath path = some path := by
  apply packagePath_of_strip h.valid
  rw [lstrip_of_head (validName_head h.valid), skipDots_of_not h.dots, rstrip_valid h.valid,
    reverse_reverse]

theorem skipDots_not (path : Name) : ¬[dot, slash] <+: skipDots path := by
  fun_induction skipDots path with
  | case1 rest ih => exact ih
  | case2 path hstay =>
    rintro ⟨rest, rfl⟩
    exact hstay rest rfl

/-- **What `package_path` gives** is in normal form. -/
theorem NormalPath.of_packagePath {source : List UInt8} (h : packagePath source = some path) :
    NormalPath path := by
  rw [packagePath] at h
  split at h
  · cases h
  split at h
  swap
  · cases h
  rename_i hlength hsegments
  have hpath := Option.some.inj h
  rw [hpath] at hlength hsegments
  have hne : path ≠ [] := fun hnil => hlength (.inl (by rw [hnil]; rfl))
  have hlast : path.getLast hne ≠ slash := by
    subst hpath
    have hstop := rdropWhile_last_not _ _ hne
    rw [Bool.or_eq_true, not_or] at hstop
    exact fun hslash => hstop.2 (beq_iff_eq.2 hslash)
  have hfront : path <+: skipDots (source.dropWhile (· == slash)) := hpath ▸ rdropWhile_prefix _ _
  refine ⟨?_, fun hdots => skipDots_not _ (hdots.trans hfront)⟩
  rw [validName, if_neg (by simpa using hlength), validSegments_iff_package,
    List.getLast?_eq_some_getLast hne]
  exact ⟨hsegments, hlast⟩

theorem slashed_head (h : NormalPath path) : (path ++ [slash]).head? ≠ some slash := by
  rw [List.head?_append_of_ne_nil _ (validName_ne_nil h.valid)]
  exact validName_head h.valid

/-- **The path of a directory, with the slash tar puts behind it.**  Of `.` nothing is left. -/
theorem packagePath_slash (h : NormalPath path) :
    packagePath (path ++ [slash]) = if path = [dot] then none else some path := by
  split
  · rename_i hdot
    rw [hdot]
    rfl
  · rename_i hdot
    apply packagePath_of_strip h.valid
    have hdots : ¬[dot, slash] <+: path ++ [slash] := by
      rintro ⟨rest, hrest⟩
      cases path with
      | nil => exact validName_ne_nil h.valid rfl
      | cons c path =>
        cases path with
        | nil =>
          cases hrest
          exact hdot rfl
        | cons c' path =>
          cases hrest
          exact h.dots ⟨path, rfl⟩
    rw [lstrip_of_head (slashed_head h), skipDots_of_not hdots, reverse_append,
      reverse_singleton, singleton_append, dropWhile_cons_of_pos (by decide),
      rstrip_valid h.valid, reverse_reverse]

/-- The target of a link: a path in normal form, or one behind a slash. -/
def NormalTarget (target : Name) : Prop :=
  NormalPath target ∨ ∃ path, NormalPath path ∧ target = slash :: path

/-- **A target is read as it was packed.** -/
theorem packagePath_target {target : Name} (h : NormalTarget target) :
    ((packagePath target).map fun normalized =>
      if target.head? = some slash then slash :: normalized else normalized) = some target := by
  rcases h with h | ⟨path, h, rfl⟩
  · rw [packagePath_normal h, Option.map_some, if_neg (validName_head h.valid)]
  · have hstrip : packagePath (slash :: path) = some path := by
      apply packagePath_of_strip h.valid
      rw [dropWhile_cons_of_pos (by decide), lstrip_of_head (validName_head h.valid),
        skipDots_of_not h.dots, rstrip_valid h.valid, reverse_reverse]
    rw [hstrip, Option.map_some, List.head?_cons, if_pos rfl]

theorem NormalTarget.valid {target : Name} (h : NormalTarget target) :
    validSymlinkTarget target = true := by
  rcases h with h | ⟨path, h, rfl⟩
  · rw [validSymlinkTarget, if_neg (validName_head h.valid)]
    exact h.valid
  · exact h.valid

end

/-! ### Tar headers -/

section

variable {metadata : TarMetadata} {item : Item}

theorem length_ljust {width : ℕ} {text : List UInt8} (fill : UInt8) (h : text.length ≤ width) :
    (ljust width fill text).length = width := by
  rw [ljust, length_append, length_replicate]
  omega

theorem byteSum_le (bytes : List UInt8) : byteSum bytes ≤ 255 * bytes.length := by
  induction bytes with
  | nil => exact le_refl 0
  | cons b bytes ih =>
    have hb := b.toNat_lt
    rw [byteSum] at ih
    rw [byteSum, map_cons, sum_cons, length_cons]
    omega

/-- The names of an entry fit their fields. -/
structure Item.Fits (item : Item) : Prop where
  name : item.tarName.length ≤ 100
  link : item.content.linkName.length ≤ 100
  size : item.content.data.length < 8 ^ 11

theorem length_headerFront (h : item.Fits) : (headerFront metadata item).length = 148 := by
  simp only [headerFront, length_append, length_ljust 0 h.name, metadata.length_identity,
    metadata.length_mtime, length_digitsOf, length_singleton]

theorem length_headerBack (h : item.Fits) : (headerBack metadata item).length = 356 := by
  simp only [headerBack, length_append, length_ljust 0 h.link, metadata.length_tail,
    length_singleton]

theorem length_tarHeader (h : item.Fits) : (tarHeader metadata item).length = 512 := by
  simp only [tarHeader, length_append, length_headerFront h, length_headerBack h,
    length_digitsOf, length_cons, length_nil]

theorem tarHeader_size (h : item.Fits) :
    parseNumber ((tarHeader metadata item).drop 124) 12 8 = some item.content.data.length := by
  have hfield : (digitsOf 8 11 item.content.data.length ++ [0]).length = 12 := by
    rw [length_append, length_digitsOf, length_singleton]
  have hbefore : (ljust 100 0 item.tarName ++ metadata.identity).length = 124 := by
    rw [length_append, length_ljust 0 h.name, metadata.length_identity]
  rw [parseNumber, tarHeader, headerFront]
  simp only [append_assoc]
  rw [← append_assoc (ljust 100 0 item.tarName), drop_left' hbefore,
    ← append_assoc (digitsOf 8 11 item.content.data.length), take_left' hfield]
  have hsize := h.size
  exact parseDigits_written (by decide) (by decide) (by omega) (by decide) hsize
    (fun _ hc => by cases hc; rfl)

theorem tarHeader_stored (h : item.Fits) :
    parseNumber ((tarHeader metadata item).drop 148) 8 8 =
      some (byteSum (headerFront metadata item) + 256 + byteSum (headerBack metadata item)) := by
  have hfront := byteSum_le (headerFront metadata item)
  have hback := byteSum_le (headerBack metadata item)
  rw [length_headerFront h] at hfront
  rw [length_headerBack h] at hback
  have hfits : byteSum (headerFront metadata item) + 256 + byteSum (headerBack metadata item) < 8 ^ 6 := by
    omega
  generalize hsum : byteSum (headerFront metadata item) + 256 + byteSum (headerBack metadata item) =
    total at hfits
  have hfield : (digitsOf 8 6 total ++ [0, 32]).length = 8 := by
    rfl
  rw [parseNumber, tarHeader, hsum, append_assoc, drop_left' (length_headerFront h),
    take_left' hfield]
  exact parseDigits_written (by decide) (by decide) (by omega) (by decide) hfits
    (fun _ hc => by cases hc; rfl)

/-- A sum over positions is the sum over the bytes. -/
theorem sum_positions {count : ℕ} (bytes : List UInt8) {f : ℕ → ℕ} (hlength : bytes.length = count)
    (h : ∀ i, i < count → f i = (bytes.getD i 0).toNat) :
    ((List.range count).map f).sum = byteSum bytes := by
  congr 1
  apply ext_getElem
  · rw [length_map, length_range, length_map, hlength]
  · intro i hi hi'
    rw [length_map, length_range] at hi
    rw [getElem_map, getElem_range, getElem_map, h i hi, getD_eq_getElem _ _ (by omega)]

theorem checksum_append {front field back : List UInt8} (hfront : front.length = 148)
    (hfield : field.length = 8) (hback : back.length = 356) :
    checksum (front ++ field ++ back) = byteSum front + 256 + byteSum back := by
  have hrange : List.range 512 = List.range 148 ++ (List.range 8).map (148 + ·) ++
      (List.range 356).map (156 + ·) := by
    rw [← range_add, ← range_add]
  have hlength : (front ++ field).length = 156 := by rw [length_append, hfront, hfield]
  have hfirst : ((List.range 148).map fun i => if 148 ≤ i ∧ i < 156 then 32
      else ((front ++ field ++ back).getD i 0).toNat).sum = byteSum front := by
    apply sum_positions front hfront
    intro i hi
    rw [if_neg (by omega), append_assoc, getD_append _ _ _ _ (by omega)]
  have hblanks : ((List.range 8).map ((fun i => if 148 ≤ i ∧ i < 156 then 32
      else ((front ++ field ++ back).getD i 0).toNat) ∘ (148 + ·))).sum = 256 := by
    have hconst : (List.range 8).map ((fun i => if 148 ≤ i ∧ i < 156 then 32
        else ((front ++ field ++ back).getD i 0).toNat) ∘ (148 + ·)) =
        (List.range 8).map fun _ => 32 := by
      apply map_congr_left
      intro i hi
      have := mem_range.1 hi
      exact if_pos (show 148 ≤ 148 + i ∧ 148 + i < 156 by omega)
    rfl
  have hlast : ((List.range 356).map ((fun i => if 148 ≤ i ∧ i < 156 then 32
      else ((front ++ field ++ back).getD i 0).toNat) ∘ (156 + ·))).sum = byteSum back := by
    apply sum_positions back hback
    intro i hi
    show (if 148 ≤ 156 + i ∧ 156 + i < 156 then 32
      else ((front ++ field ++ back).getD (156 + i) 0).toNat) = _
    rw [if_neg (by omega), getD_append_right _ _ _ _ (by omega), hlength, Nat.add_sub_cancel_left]
  rw [checksum, hrange, map_append, map_append, sum_append, sum_append,
    map_map, map_map, hfirst, hblanks, hlast]

/-- The sum the installer computes is the one the writer stored. -/
theorem tarHeader_checksum (h : item.Fits) : checksum (tarHeader metadata item) =
    byteSum (headerFront metadata item) + 256 + byteSum (headerBack metadata item) := by
  refine checksum_append (length_headerFront h) ?_ (length_headerBack h)
  rfl

theorem fieldString_ljust {text rest : List UInt8} (hlength : text.length ≤ 100)
    (hzero : ∀ c ∈ text, c ≠ 0) : fieldString (ljust 100 0 text ++ rest) = text := by
  rw [fieldString, take_left' (length_ljust 0 hlength)]
  exact cString_append_zeros hzero _

theorem tarHeader_name (h : item.Fits) (hzero : ∀ c ∈ item.tarName, c ≠ 0) :
    fieldString (tarHeader metadata item) = item.tarName := by
  rw [tarHeader, headerFront]
  simp only [append_assoc]
  exact fieldString_ljust h.name hzero

theorem tarHeader_drop (h : item.Fits) :
    (tarHeader metadata item).drop 156 = headerBack metadata item := by
  apply drop_left'
  rw [length_append, length_headerFront h, length_append, length_digitsOf]
  rfl

theorem tarHeader_type (h : item.Fits) :
    (tarHeader metadata item).getD 156 0 = item.content.typeFlag := by
  have hget : ((tarHeader metadata item).drop 156).getD 0 0 = item.content.typeFlag := by
    rw [tarHeader_drop h]
    rfl
  rwa [getD_eq_getElem?_getD, List.getElem?_drop, ← getD_eq_getElem?_getD] at hget

theorem tarHeader_link (h : item.Fits) (hzero : ∀ c ∈ item.content.linkName, c ≠ 0) :
    fieldString ((tarHeader metadata item).drop 157) = item.content.linkName := by
  have hdrop : (tarHeader metadata item).drop 157 =
      ljust 100 0 item.content.linkName ++ metadata.tail := by
    rw [show 157 = 156 + 1 from rfl, ← drop_drop, tarHeader_drop h, headerBack,
      append_assoc, singleton_append, drop_one, tail_cons]
  rw [hdrop]
  exact fieldString_ljust h.link hzero

/-- A header is not taken for the end of the archive. -/
theorem tarHeader_nonzero (hzero : ∀ c ∈ item.tarName, c ≠ 0) (hne : item.tarName ≠ []) :
    allZero (tarHeader metadata item) = false := by
  obtain ⟨c, rest, hname⟩ := exists_cons_of_ne_nil hne
  rw [allZero, all_eq_false]
  refine ⟨c, ?_, ?_⟩
  · rw [tarHeader, headerFront, ljust, hname]
    exact mem_cons_self
  · have := hzero c (by rw [hname]; exact mem_cons_self)
    simpa using this

end

/-! ### Members of an archive -/

section

variable {payload rest : List UInt8} {fuel : ℕ} {versionOk : Bool} {data : Option (List UInt8)}

theorem length_decimal_le {n k : ℕ} (hk : 0 < k) : (decimal n).length ≤ k ↔ n < 10 ^ k := by
  rw [decimal, length_digitsOf, Nat.succ_le_iff]
  by_cases hn : n = 0
  · subst hn
    exact ⟨fun _ => Nat.pow_pos (by decide), fun _ => hk⟩
  · exact Nat.log_lt_iff_lt_pow (by decide) hn

/-- The part of a member's header before the size. -/
def arFront (name : Name) : List UInt8 :=
  ljust 16 32 (name ++ [slash]) ++ ljust 12 32 [48] ++ ljust 6 32 [48] ++ ljust 6 32 [48] ++
    ljust 8 32 [49, 48, 48, 54, 52, 52]

theorem arMember_eq (name : Name) (payload rest : List UInt8) :
    arMember name payload ++ rest = arFront name ++ (ljust 10 32 (decimal payload.length) ++
      ([96, 10] ++ (payload ++ ((if payload.length % 2 = 1 then [10] else []) ++ rest)))) := by
  simp only [arMember, arFront, append_assoc]

/-- **A member whose size has at most ten digits is read as it was packed.** -/
theorem findMembers_arMember {name : Name} (hfront : (arFront name).length = 48)
    (hname : ∀ rest, arName (arFront name ++ rest) = name) (hsize : payload.length < 10 ^ 10) :
    findMembers (fuel + 1) (arMember name payload ++ rest) versionOk data =
      findMembers fuel rest
        (if name = debianBinary then payload.length = 4 && payload.take 4 == version else versionOk)
        (if name ≠ debianBinary ∧ name = dataTar then some payload else data) := by
  have hdigits : (decimal payload.length).length ≤ 10 := (length_decimal_le (by decide)).2 hsize
  have hfield : (ljust 10 32 (decimal payload.length)).length = 10 := length_ljust 32 hdigits
  have hhead : (arFront name ++ ljust 10 32 (decimal payload.length)).length = 58 := by
    rw [length_append, hfront, hfield]
  have hpadding : (if payload.length % 2 = 1 then [10] else ([] : List UInt8)).length =
      payload.length % 2 := by
    split
    · next hodd => rw [hodd, length_singleton]
    · rw [length_nil]
      omega
  rw [arMember_eq]
  generalize hpad : (if payload.length % 2 = 1 then [10] else ([] : List UInt8)) = padding at hpadding ⊢
  generalize hbody : payload ++ (padding ++ rest) = body
  have hlength : body.length = payload.length + payload.length % 2 + rest.length := by
    rw [← hbody, length_append, length_append, hpadding, add_assoc]
  have hdrop : (arFront name ++ (ljust 10 32 (decimal payload.length) ++ ([96, 10] ++ body))).drop 60 =
      body := by
    rw [← append_assoc, ← append_assoc]
    apply drop_left'
    rw [length_append, hhead]
    rfl
  have htick : (arFront name ++ (ljust 10 32 (decimal payload.length) ++ ([96, 10] ++ body))).getD 58 0 =
      96 ∧ (arFront name ++ (ljust 10 32 (decimal payload.length) ++ ([96, 10] ++ body))).getD 59 0 =
      10 := by
    rw [← append_assoc]
    constructor
    · rw [getD_append_right _ _ _ _ (by omega), hhead]
      rfl
    · rw [getD_append_right _ _ _ _ (by omega), hhead]
      rfl
  have hnumber : parseNumber ((arFront name ++ (ljust 10 32 (decimal payload.length) ++
      ([96, 10] ++ body))).drop 48) 10 10 = some payload.length := by
    have hfits : payload.length < 10 ^ (Nat.log 10 payload.length + 1) :=
      Nat.lt_pow_succ_log_self (by decide) _
    rw [parseNumber, drop_left' hfront, take_left' hfield, ljust, decimal]
    refine parseDigits_written (by decide) (by decide) (by omega) (by omega) hfits fun c hc => ?_
    obtain rfl := eq_of_mem_replicate (List.mem_of_head? hc)
    rfl
  have htotal : ¬(arFront name ++ (ljust 10 32 (decimal payload.length) ++ ([96, 10] ++ body))).length <
      60 := by
    rw [← append_assoc, ← append_assoc, length_append, length_append, hhead]
    exact Nat.not_lt.2 (Nat.le_add_right 60 _)
  rw [findMembers, if_neg htotal, if_neg (by rw [htick.1, htick.2]; decide), hnumber]
  simp only [hdrop, hname]
  rw [if_neg (by omega), if_neg (by omega)]
  have hnext : body.drop (payload.length + payload.length % 2) = rest := by
    rw [← hbody, ← append_assoc]
    apply drop_left'
    rw [length_append, hpadding]
  have htake : body.take payload.length = payload := by rw [← hbody, take_left]
  have hversion : (decide (payload.length = 4) && body.take 4 == version) =
      (decide (payload.length = 4) && payload.take 4 == version) := by
    by_cases hfour : payload.length = 4
    · rw [← hfour, htake, take_length]
    · rw [decide_eq_false hfour, Bool.false_and, Bool.false_and]
  rw [hnext, htake, hversion]

theorem digitsOf_range (width n : ℕ) : ∀ c ∈ digitsOf 10 width n, c ≠ 96 := by
  induction width generalizing n with
  | zero => exact nofun
  | succ width ih =>
    intro c hc
    rcases mem_append.1 hc with hc | hc
    · exact ih _ c hc
    · rw [mem_singleton.1 hc]
      intro heq
      have hvalue := digit_toNat (Nat.mod_lt n (show 0 < 10 by decide))
      have hmod := Nat.mod_lt n (show 0 < 10 by decide)
      rw [heq] at hvalue
      have hvalue : 96 = 48 + n % 10 := hvalue
      omega

/-- A member whose size has more digits is refused. -/
theorem findMembers_large {name : Name} (hfront : (arFront name).length = 48)
    (hsize : 10 ^ 10 ≤ payload.length) :
    findMembers (fuel + 1) (arMember name payload ++ rest) versionOk data = none := by
  have hdigits : 10 < (decimal payload.length).length := by
    apply Nat.lt_of_not_le
    rw [length_decimal_le (by decide)]
    exact Nat.not_lt.2 hsize
  rw [arMember_eq, ljust, append_assoc]
  generalize hbody : List.replicate (10 - (decimal payload.length).length) (32 : UInt8) ++
    ([96, 10] ++ (payload ++ ((if payload.length % 2 = 1 then [10] else []) ++ rest))) = body
  have htick : (arFront name ++ (decimal payload.length ++ body)).getD 58 0 ≠ 96 := by
    rw [getD_append_right _ _ _ _ (by omega), hfront,
      getD_append _ _ _ _ hdigits, getD_eq_getElem _ _ hdigits]
    exact digitsOf_range _ _ _ (getElem_mem hdigits)
  have hlength : 2 ≤ body.length := by
    rw [← hbody, length_append, length_append, length_cons, length_singleton]
    omega
  have htotal : ¬(arFront name ++ (decimal payload.length ++ body)).length < 60 := by
    rw [length_append, length_append, hfront]
    omega
  rw [findMembers, if_neg htotal, if_pos (.inl htick)]

end

end NovaOS.Deb
