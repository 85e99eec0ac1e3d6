import NovaOS.Fs.Paths

/-!
# The segments of a path

A path is its `segments` with a slash between them, and a name is valid when its segments are:
printable, none empty and none `..` (`validName_iff`).
-/

namespace NovaOS.Fs

open List

def Printable (name : Name) : Prop := ∀ c ∈ name, 32 ≤ c ∧ c ≤ 126

/-- The parts of a path between its slashes. -/
def segments (path : Name) : List Name := path.splitOn slash

theorem segments_ne_nil (path : Name) : segments path ≠ [] := splitOn_ne_nil slash path

theorem segments_split (path rest : Name) :
    segments (path ++ slash :: rest) = segments path ++ segments rest :=
  splitOnP_append_cons path rest (beq_self_eq_true slash)

/-! ### Valid names -/

/-- A segment that `valid_name` accepts. -/
def GoodSegment (part : Name) : Prop := part ≠ [] ∧ part ≠ [dot, dot]

/-- The loop of `valid_name`; the segment it is in goes on with the first one of the rest. -/
theorem validSegments_iff (name segment : Name) :
    validSegments name segment = true ↔
      Printable name ∧ ∀ part ∈ (segments name).modifyHead (segment ++ ·), GoodSegment part := by
  induction name generalizing segment with
  | nil =>
    show (!segment.isEmpty && segment != [dot, dot]) = true ↔
      Printable [] ∧ ∀ part ∈ [segment ++ []], GoodSegment part
    rw [append_nil, forall_mem_singleton, Bool.and_eq_true, Bool.not_eq_true',
      isEmpty_eq_false_iff, bne_iff_ne, GoodSegment]
    exact ⟨fun h => ⟨fun _ hno => (by cases hno), h⟩, fun h => h.2⟩
  | cons c name ih =>
    rw [validSegments]
    split
    · next hc =>
      rw [Bool.or_eq_true, decide_eq_true_eq, decide_eq_true_eq] at hc
      refine ⟨fun hno => (by cases hno), fun h => ?_⟩
      obtain ⟨hlow, hhigh⟩ := h.1 c mem_cons_self
      rcases hc with hc | hc
      · exact absurd hlow (UInt8.not_le.2 hc)
      · exact absurd hhigh (UInt8.not_le.2 hc)
    next hc =>
    rw [Bool.or_eq_true, decide_eq_true_eq, decide_eq_true_eq, not_or, UInt8.not_lt,
      UInt8.not_lt] at hc
    have hprint : Printable (c :: name) ↔ Printable name := by
      rw [Printable, forall_mem_cons]
      exact ⟨fun h => h.2, fun h => ⟨hc, h⟩⟩
    obtain ⟨first, rest, hsplit⟩ := exists_cons_of_ne_nil (segments_ne_nil name)
    have hcons : segments (c :: name) =
        if c = slash then [] :: segments name else (c :: first) :: rest := by
      rw [segments, splitOn_cons_eq_if_modifyHead, ← segments]
      by_cases hslash : c = slash
      · rw [if_pos (beq_iff_eq.2 hslash), if_pos hslash]
      · rw [if_neg (mt beq_iff_eq.1 hslash), if_neg hslash, hsplit, List.modifyHead_cons]
    rw [hprint, hcons]
    split
    · rw [List.modifyHead_cons, append_nil, forall_mem_cons]
      split
      · next hbad =>
        rw [Bool.or_eq_true, List.isEmpty_iff, decide_eq_true_eq] at hbad
        exact ⟨fun hno => (by cases hno), fun h => absurd hbad (not_or.2 h.2.1)⟩
      · next hgood =>
        rw [Bool.or_eq_true, List.isEmpty_iff, decide_eq_true_eq, not_or] at hgood
        rw [ih, hsplit, List.modifyHead_cons, List.nil_append]
        exact ⟨fun h => ⟨h.1, hgood, h.2⟩, fun h => ⟨h.1, h.2.2⟩⟩
    · rw [ih, hsplit, List.modifyHead_cons, List.modifyHead_cons, append_assoc]
      rfl

theorem validName_iff {name : Name} : validName name = true ↔
    name.length ≤ 95 ∧ Printable name ∧ ∀ part ∈ segments name, GoodSegment part := by
  have hsegments := validSegments_iff name []
  obtain ⟨first, rest, hsplit⟩ := exists_cons_of_ne_nil (segments_ne_nil name)
  rw [hsplit, List.modifyHead_cons, List.nil_append, ← hsplit] at hsegments
  rw [validName]
  split
  · next hlength =>
    rw [Bool.or_eq_true, decide_eq_true_eq, decide_eq_true_eq] at hlength
    refine ⟨fun hno => (by cases hno), fun h => ?_⟩
    rcases hlength with hzero | hlong
    · rw [length_eq_zero_iff.1 hzero] at h
      exact absurd rfl (h.2.2 [] mem_cons_self).1
    · exact absurd h.1 (by omega)
  · next hlength =>
    rw [Bool.or_eq_true, decide_eq_true_eq, decide_eq_true_eq, not_or] at hlength
    rw [hsegments]
    exact ⟨fun h => ⟨by omega, h⟩, fun h => h.2⟩

/-- What comes before a slash of a valid name is a valid name. -/
theorem validName_prefix {path rest : Name} (h : validName (path ++ slash :: rest) = true) :
    validName path = true := by
  rw [validName_iff, segments_split, length_append] at h
  obtain ⟨hlength, hprint, hgood⟩ := h
  exact validName_iff.2 ⟨by omega, fun c hc => hprint c (mem_append_left _ hc),
    fun part hpart => hgood part (mem_append_left _ hpart)⟩

end NovaOS.Fs
