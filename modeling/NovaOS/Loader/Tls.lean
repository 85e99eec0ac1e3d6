import NovaOS.Loader.Elf
import Mathlib.Data.List.Forall2

/-!
# The layout of static thread-local storage

`layout_static_tls` gives every object with thread-local storage a module number and an offset below
the thread pointer, in load order.

* `layoutLoop_layout` — what the loop has made of the modules, from any cursor on;
* **`layoutStaticTls_laid_out`** — nothing else of the objects changes, no sum overflows, and the blocks
  are aligned, inside the static size and apart from each other.
-/

namespace NovaOS.Loader

def elfTlsMaxSize : ℕ := 16 * 1024 * 1024

/-- `align_tls_size`. -/
def alignTlsSize (value alignment : ℕ) : Option ℕ :=
  if alignment = 0 ∨ alignment &&& (alignment - 1) ≠ 0 ∨ 2 ^ 64 - 1 - (alignment - 1) < value then none
  else some ((value + alignment - 1) / alignment * alignment)

/-- The loop of `layout_static_tls`: the objects with their offsets and module numbers, the last
offset and the largest alignment. -/
def layoutLoop : List ElfLoadedObject → ℕ → ℕ → ℕ → Option (List ElfLoadedObject × ℕ × ℕ)
  | [], cursor, maximumAlignment, _ => some ([], cursor, maximumAlignment)
  | object :: rest, cursor, maximumAlignment, moduleId =>
    if object.tlsMemorySize = 0 then
      (layoutLoop rest cursor maximumAlignment moduleId).map fun r => (object :: r.1, r.2)
    else
      let alignment := if object.tlsAlignment ≠ 0 then object.tlsAlignment else 1
      if elfTlsMaxSize < object.tlsMemorySize ∨ elfTlsMaxSize - object.tlsMemorySize < cursor then none
      else
        match alignTlsSize (cursor + object.tlsMemorySize) alignment with
        | none => none
        | some offset =>
          if elfTlsMaxSize < offset then none
          else
            (layoutLoop rest offset (max maximumAlignment alignment) (moduleId + 1)).map fun r =>
              ({ object with tlsOffset := offset, tlsModuleId := moduleId } :: r.1, r.2)

/-- `layout_static_tls`: the objects and the static size. -/
def layoutStaticTls (objects : List ElfLoadedObject) : Option (List ElfLoadedObject × ℕ) :=
  match layoutLoop objects 0 16 1 with
  | none => none
  | some (objects, cursor, maximumAlignment) =>
    match alignTlsSize cursor maximumAlignment with
    | none => none
    | some staticSize => if elfTlsMaxSize < staticSize then none else some (objects, staticSize)

/-! ### One round -/

/-- The same object, up to its place in thread-local storage. -/
def SameModule (object object' : ElfLoadedObject) : Prop :=
  object' = { object with tlsOffset := object'.tlsOffset, tlsModuleId := object'.tlsModuleId }

/-- The alignment of a module. -/
def tlsAlign (object : ElfLoadedObject) : ℕ :=
  if object.tlsAlignment ≠ 0 then object.tlsAlignment else 1

theorem alignTlsSize_some {value alignment size : ℕ} (h : alignTlsSize value alignment = some size) :
    value ≤ size ∧ alignment ∣ size ∧ value ≤ 2 ^ 64 - 1 - (alignment - 1) := by
  rw [alignTlsSize] at h
  split at h
  · cases h
  next hgood =>
  cases h
  have hround := Nat.div_add_mod (value + alignment - 1) alignment
  have hless := Nat.mod_lt (value + alignment - 1) (show 0 < alignment by omega)
  rw [Nat.mul_comm] at hround
  exact ⟨by omega, dvd_mul_left .., by omega⟩

section Layout

variable {object : ElfLoadedObject} {rest objects objects' : List ElfLoadedObject}
  {cursor maximum moduleId last maximum' staticSize : ℕ}

theorem layoutLoop_cons
    (h : layoutLoop (object :: rest) cursor maximum moduleId = some (objects', last, maximum')) :
    (object.tlsMemorySize = 0 ∧ ∃ rest', objects' = object :: rest' ∧
      layoutLoop rest cursor maximum moduleId = some (rest', last, maximum')) ∨
    object.tlsMemorySize ≠ 0 ∧ cursor + object.tlsMemorySize ≤ elfTlsMaxSize ∧ ∃ offset rest',
      alignTlsSize (cursor + object.tlsMemorySize) (tlsAlign object) = some offset ∧
      objects' = { object with tlsOffset := offset, tlsModuleId := moduleId } :: rest' ∧
      layoutLoop rest offset (max maximum (tlsAlign object)) (moduleId + 1) =
        some (rest', last, maximum') := by
  rw [layoutLoop] at h
  split at h
  · next hsize =>
    obtain ⟨⟨rest', _, _⟩, hrest, heq⟩ := Option.map_eq_some_iff.1 h
    cases heq
    exact .inl ⟨hsize, rest', rfl, hrest⟩
  next hsize =>
  simp only at h
  split at h
  · cases h
  next hfits =>
  split at h
  · cases h
  next offset halign =>
  split at h
  · cases h
  obtain ⟨⟨rest', _, _⟩, hrest, heq⟩ := Option.map_eq_some_iff.1 h
  cases heq
  exact .inr ⟨hsize, by omega, offset, rest', halign, rfl, hrest⟩

/-- The loop sets module numbers and offsets and nothing else. -/
theorem layoutLoop_objects
    (h : layoutLoop objects cursor maximum moduleId = some (objects', last, maximum')) :
    List.Forall₂ SameModule objects objects' := by
  induction objects generalizing cursor maximum moduleId objects' with
  | nil =>
    cases h
    exact .nil
  | cons object rest ih =>
    obtain ⟨-, rest', rfl, hrest⟩ | ⟨-, -, offset, rest', -, rfl, hrest⟩ := layoutLoop_cons h
    · exact .cons rfl (ih hrest)
    · exact .cons rfl (ih hrest)

theorem layoutStaticTls_some (h : layoutStaticTls objects = some (objects', staticSize)) :
    ∃ last maximum, layoutLoop objects 0 16 1 = some (objects', last, maximum) ∧
      alignTlsSize last maximum = some staticSize ∧ staticSize ≤ elfTlsMaxSize := by
  rw [layoutStaticTls] at h
  split at h
  · cases h
  next last maximum hloop =>
  split at h
  · cases h
  next halign =>
  split at h
  · cases h
  · next hsize =>
    cases h
    exact ⟨last, maximum, hloop, halign, not_lt.1 hsize⟩

/-! ### What the loop makes of the modules -/

/-- The objects with thread-local storage. -/
def tlsModules (objects : List ElfLoadedObject) : List ElfLoadedObject :=
  objects.filter fun object => object.tlsMemorySize ≠ 0

/-- The block of a module, as seen from the thread pointer. -/
def tlsRange (object : ElfLoadedObject) : Set ℤ :=
  {x | -object.tlsOffset ≤ x ∧ x < -object.tlsOffset + object.tlsMemorySize}

/-- The sums of the loop: the cursor before a module is the offset of the one before it. -/
def SumsFit (cursor : ℕ) (modules : List ElfLoadedObject) : Prop :=
  ∀ p ∈ (cursor :: modules.map (·.tlsOffset)).zip modules, p.1 + p.2.tlsMemorySize ≤ elfTlsMaxSize ∧
    p.1 + p.2.tlsMemorySize + (tlsAlign p.2 - 1) < 2 ^ 64

/-- What the loop has made of the modules, from a cursor, a module number and an alignment on. -/
structure TlsLayout (cursor moduleId maximum : ℕ) (modules : List ElfLoadedObject)
    (last maximum' : ℕ) : Prop where
  ids : modules.map (·.tlsModuleId) = List.range' moduleId modules.length
  placed : ∀ o ∈ modules, cursor + o.tlsMemorySize ≤ o.tlsOffset ∧ o.tlsOffset ≤ last ∧
    tlsAlign o ∣ o.tlsOffset ∧ tlsAlign o ∣ maximum'
  apart : modules.Pairwise fun o o' => o.tlsOffset + o'.tlsMemorySize ≤ o'.tlsOffset
  sums : SumsFit cursor modules
  last_eq : last = (modules.map (·.tlsOffset)).getLastD cursor
  maximum_eq : maximum' = (modules.map tlsAlign).foldl max maximum
  ahead : cursor ≤ last
  divides : maximum ∣ maximum'
  small : maximum' < 2 ^ 64

theorem layoutLoop_layout (hpower : ∀ o ∈ objects, o.tlsMemorySize ≠ 0 → ∃ k, tlsAlign o = 2 ^ k)
    (hmaximum : ∃ k, maximum = 2 ^ k) (hsmall : maximum < 2 ^ 64)
    (h : layoutLoop objects cursor maximum moduleId = some (objects', last, maximum')) :
    TlsLayout cursor moduleId maximum (tlsModules objects') last maximum' := by
  induction objects generalizing cursor maximum moduleId objects' with
  | nil =>
    cases h
    exact ⟨rfl, fun _ hno => (by cases hno), .nil, fun _ hno => (by cases hno), rfl, rfl, le_refl _,
      dvd_refl _, hsmall⟩
  | cons object rest ih =>
    rw [List.forall_mem_cons] at hpower
    obtain ⟨hsize, rest', rfl, hrest⟩ | ⟨hsize, hfits, offset, rest', halign, rfl, hrest⟩ :=
      layoutLoop_cons h
    · rw [tlsModules, List.filter_cons_of_neg (by simpa using hsize)]
      exact ih hpower.2 hmaximum hsmall hrest
    obtain ⟨hle, hdvd, hguard⟩ := alignTlsSize_some halign
    obtain ⟨k, hk⟩ := hpower.1 hsize
    obtain ⟨n, hn⟩ := hmaximum
    -- of two powers of two the larger one is a multiple of both
    have hpow : max maximum (tlsAlign object) = 2 ^ max n k := by
      rw [hn, hk]
      exact (pow_right_mono₀ (show 1 ≤ 2 by decide)).map_max.symm
    have hleft : maximum ∣ max maximum (tlsAlign object) := by
      rw [hpow, hn]
      exact pow_dvd_pow 2 (le_max_left ..)
    have hright : tlsAlign object ∣ max maximum (tlsAlign object) := by
      rw [hpow, hk]
      exact pow_dvd_pow 2 (le_max_right ..)
    obtain ⟨hids, hplaced, hapart, hsums, hlast, hmax, hahead, hdivides, hless⟩ :=
      ih hpower.2 ⟨_, hpow⟩ (by omega) hrest
    rw [tlsModules, List.filter_cons_of_pos (by simpa using hsize), ← tlsModules]
    refine ⟨?_, ?_, ?_, ?_, ?_, hmax, by omega, hleft.trans hdivides, hless⟩
    · rw [List.map_cons, List.length_cons, List.range'_succ, hids]
    · rw [List.forall_mem_cons]
      refine ⟨⟨hle, hahead, hdvd, hright.trans hdivides⟩, fun o ho => ?_⟩
      obtain ⟨hbehind, hrest⟩ := hplaced o ho
      exact ⟨by omega, hrest⟩
    · exact List.pairwise_cons.2 ⟨fun o ho => (hplaced o ho).1, hapart⟩
    · rw [SumsFit, List.map_cons, List.zip_cons_cons, List.forall_mem_cons]
      exact ⟨⟨hfits, show cursor + object.tlsMemorySize + (tlsAlign object - 1) < 2 ^ 64 by omega⟩, hsums⟩
    · rw [List.map_cons, List.getLastD_cons]
      exact hlast

/-- **The static layout of thread-local storage**, for modules whose alignments are powers of two: the
objects are the ones given, only with a module number and an offset; no sum overflows, the modules are
numbered in their order, aligned, apart from each other and inside, and the whole is a multiple of every
alignment. -/
theorem layoutStaticTls_laid_out
    (hpower : ∀ o ∈ objects, o.tlsMemorySize ≠ 0 → ∃ k, tlsAlign o = 2 ^ k)
    (h : layoutStaticTls objects = some (objects', staticSize)) :
    List.Forall₂ SameModule objects objects' ∧
    (SumsFit 0 (tlsModules objects') ∧ ((tlsModules objects').map (·.tlsOffset)).getLastD 0 +
      (((tlsModules objects').map tlsAlign).foldl max 16 - 1) < 2 ^ 64) ∧
    (tlsModules objects').map (·.tlsModuleId) = List.range' 1 (tlsModules objects').length ∧
    (∀ o ∈ tlsModules objects', tlsAlign o ∣ o.tlsOffset ∧ tlsAlign o ∣ staticSize ∧
      ∀ x ∈ tlsRange o, -staticSize ≤ x ∧ x < 0) ∧
    (tlsModules objects').Pairwise (fun o o' => ∀ x ∈ tlsRange o, x ∉ tlsRange o') ∧
    staticSize ≤ elfTlsMaxSize := by
  obtain ⟨last, maximum, hloop, halign, hsize⟩ := layoutStaticTls_some h
  obtain ⟨hids, hplaced, hapart, hsums, hlast, hmaximum, -, -, hsmall⟩ :=
    layoutLoop_layout hpower (show ∃ k, 16 = 2 ^ k from ⟨4, rfl⟩) (by decide) hloop
  obtain ⟨hle, hdvd, hguard⟩ := alignTlsSize_some halign
  refine ⟨layoutLoop_objects hloop, ⟨hsums, by rw [← hlast, ← hmaximum]; omega⟩, hids, fun o ho => ?_, ?_, hsize⟩
  · obtain ⟨hfirst, hbefore, haligned, hdivides⟩ := hplaced o ho
    refine ⟨haligned, hdivides.trans hdvd, fun x hx => ?_⟩
    obtain ⟨hlow, hhigh⟩ := hx
    omega
  · refine hapart.imp fun hbehind x hx hx' => ?_
    obtain ⟨hlow, -⟩ := hx
    obtain ⟨-, hhigh⟩ := hx'
    omega

/-- Two modules of 20 bytes. -/
def twoModules : List ElfLoadedObject :=
  List.replicate 2 { ElfLoadedObject.zero with tlsMemorySize := 20, tlsAlignment := 8 }

theorem layoutStaticTls_laid_out_two : ∃ r, layoutStaticTls twoModules = some r ∧
    List.Forall₂ SameModule twoModules r.1 ∧
    (tlsModules r.1).map (·.tlsModuleId) = List.range' 1 (tlsModules r.1).length := by
  have hpower : ∀ o ∈ twoModules, o.tlsMemorySize ≠ 0 → ∃ k, tlsAlign o = 2 ^ k := by
    intro o ho _
    rw [List.eq_of_mem_replicate ho]
    exact ⟨3, rfl⟩
  obtain ⟨hsame, -, hids, -⟩ := layoutStaticTls_laid_out hpower rfl
  exact ⟨_, rfl, hsame, hids⟩

end Layout

end NovaOS.Loader
