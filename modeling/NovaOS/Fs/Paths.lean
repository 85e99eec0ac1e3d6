import NovaOS.Fs.Room
import NovaOS.Lib.Table
import Mathlib.Data.List.Find
import Mathlib.Data.List.Pairwise

/-!
# Paths and trees of files

A path is split at its last slash into a parent and a name, and a file needs its parent to be there as
a directory.  `Files.addAll` enters a list of nodes into a map one after the other, and
`Files.Parented` says that each of them finds its parent when its turn comes.
-/

namespace NovaOS.Fs

open Function List

/-! ### The last slash -/

theorem lastSlash_concat (name : Name) (c : UInt8) :
    lastSlash (name ++ [c]) = if c = slash then some name.length else lastSlash name := by
  rw [lastSlash, length_append, length_singleton, range_succ, reverse_append,
    reverse_singleton, singleton_append, List.find?_cons]
  have hlast : (name ++ [c]).getD name.length 0 = c := by
    rw [getD_append_right _ _ _ _ (Nat.le_refl _), Nat.sub_self]
    rfl
  rw [hlast]
  by_cases hc : c = slash
  · rw [if_pos hc, hc]
    rfl
  · rw [if_neg hc, beq_eq_false_iff_ne.2 hc, lastSlash]
    apply find?_congr
    intro i hi
    rw [mem_reverse, mem_range] at hi
    rw [getD_append _ _ _ _ hi]

theorem lastSlash_eq_none {name : Name} : lastSlash name = none ↔ slash ∉ name := by
  induction name using List.reverseRecOn with
  | nil => exact ⟨fun _ => not_mem_nil, fun _ => rfl⟩
  | append_singleton name c ih =>
    rw [lastSlash_concat, mem_append, mem_singleton]
    by_cases hc : c = slash
    · rw [if_pos hc]
      exact ⟨nofun, fun h => absurd (.inr hc.symm) h⟩
    · rw [if_neg hc, ih]
      exact ⟨fun h hor => hor.elim h fun heq => hc heq.symm, fun h hmem => h (.inl hmem)⟩

theorem lastSlash_split (parent : Name) {base : Name} (h : slash ∉ base) :
    lastSlash (parent ++ slash :: base) = some parent.length := by
  induction base using List.reverseRecOn with
  | nil => rw [lastSlash_concat, if_pos rfl]
  | append_singleton base c ih =>
    rw [mem_append, mem_singleton, not_or] at h
    rw [← cons_append, ← append_assoc, lastSlash_concat, if_neg (Ne.symm h.2)]
    exact ih h.1

theorem lastSlash_eq_some {name : Name} {k : ℕ} (h : lastSlash name = some k) :
    ∃ base, slash ∉ base ∧ name = name.take k ++ slash :: base := by
  induction name using List.reverseRecOn with
  | nil => cases h
  | append_singleton name c ih =>
    rw [lastSlash_concat] at h
    split at h
    · next hc =>
      cases h
      refine ⟨[], not_mem_nil, ?_⟩
      rw [take_left, hc]
    · next hc =>
      obtain ⟨base, hbase, hname⟩ := ih h
      refine ⟨base ++ [c], ?_, ?_⟩
      · rw [mem_append, mem_singleton, not_or]
        exact ⟨hbase, Ne.symm hc⟩
      · have hk : k ≤ name.length := by
          have hlength := congrArg List.length hname
          rw [length_append, length_take, length_cons] at hlength
          omega
        rw [take_append_of_le_length hk, ← cons_append, ← append_assoc, ← hname]

/-! ### Valid names -/

theorem validName_head {name : Name} (h : validName name = true) : name.head? ≠ some slash := by
  intro hhead
  cases name with
  | nil => cases hhead
  | cons c rest =>
    rw [List.head?_cons, Option.some.injEq] at hhead
    rw [hhead, validName] at h
    split at h
    · cases h
    · cases h

theorem validName_ne_nil {name : Name} (h : validName name = true) : name ≠ [] := by
  rintro rfl
  cases h

/-! ### Parents -/

theorem hasParent_of_no_slash (files : Files) {name : Name} (h : slash ∉ name) :
    files.hasParent name = true := by
  rw [Files.hasParent, lastSlash_eq_none.2 h]

theorem hasParent_split {files : Files} {parent base : Name} (hbase : slash ∉ base)
    (hname : validName (parent ++ slash :: base) = true) :
    files.hasParent (parent ++ slash :: base) = true ↔
      ∃ node, files parent = some node ∧ node.type = .directory := by
  have hlength := validName_length hname
  rw [length_append] at hlength
  have hpos : parent.length ≠ 0 := by
    intro hzero
    rw [length_eq_zero_iff.1 hzero] at hname
    exact validName_head hname rfl
  rw [Files.hasParent, lastSlash_split parent hbase]
  simp only [take_left']
  rw [if_neg (by simp only [Bool.or_eq_true, decide_eq_true_eq]; omega)]
  cases files parent with
  | none => exact ⟨fun hno => (by cases hno), fun hnode => by cases hnode.choose_spec.1⟩
  | some node =>
    rw [decide_eq_true_eq]
    constructor
    · intro h
      exact ⟨node, rfl, h⟩
    · intro hnode
      obtain ⟨_, heq, h⟩ := hnode
      cases heq
      exact h

/-! ### Entering nodes -/

namespace Files

/-- The map with a list of nodes entered. -/
def addAll : List (Name × Node) → Files → Files
  | [], files => files
  | (name, node) :: rest, files => addAll rest (files.set name (some node))

/-- Every node of the list finds its parent when its turn comes, and its name is new. -/
def Parented : List (Name × Node) → Files → Prop
  | [], _ => True
  | (name, node) :: rest, files =>
    files name = none ∧ files.hasParent name = true ∧ Parented rest (files.set name (some node))

variable {files : Files} {nodes : List (Name × Node)} {name : Name} {node : Node}

theorem addAll_of_notMem (h : ∀ p ∈ nodes, p.1 ≠ name) : addAll nodes files name = files name := by
  induction nodes generalizing files with
  | nil => rfl
  | cons p rest ih =>
    rw [addAll, ih fun q hq => h q (mem_cons_of_mem _ hq), set,
      update_of_ne (Ne.symm (h p mem_cons_self))]

/-- A node entered under a name of its own is there. -/
theorem addAll_of_mem (hdistinct : nodes.Pairwise fun p q => p.1 ≠ q.1) (h : (name, node) ∈ nodes) :
    addAll nodes files name = some node := by
  induction nodes generalizing files with
  | nil => cases h
  | cons p rest ih =>
    obtain ⟨hp, hrest⟩ := pairwise_cons.1 hdistinct
    rcases mem_cons.1 h with rfl | hmem
    · rw [addAll, addAll_of_notMem fun q hq => Ne.symm (hp q hq), set, update_self]
    · exact ih hrest hmem

theorem addAll_some (h : addAll nodes files name = some node) :
    (name, node) ∈ nodes ∨ files name = some node := by
  induction nodes generalizing files with
  | nil => exact .inr h
  | cons p rest ih =>
    rcases ih h with hmem | hset
    · exact .inl (mem_cons_of_mem _ hmem)
    · by_cases hname : name = p.1
      · rw [hname, set, update_self, Option.some.injEq] at hset
        rw [hname, ← hset]
        exact .inl mem_cons_self
      · rw [set, update_of_ne hname] at hset
        exact .inr hset

theorem parented_append {nodes nodes' : List (Name × Node)} :
    Parented (nodes ++ nodes') files ↔ Parented nodes files ∧ Parented nodes' (addAll nodes files) := by
  induction nodes generalizing files with
  | nil => exact ⟨fun h => ⟨trivial, h⟩, fun h => h.2⟩
  | cons p rest ih =>
    rw [cons_append, Parented, ih, Parented, addAll, and_assoc, and_assoc]

/-- Entering a node under a new name takes no parent away. -/
theorem hasParent_set {path : Name} (hnew : files name = none) (h : files.hasParent path = true)
    (node : Option Node) : (files.set name node).hasParent path = true := by
  rw [hasParent] at h ⊢
  cases hslash : lastSlash path with
  | none => rfl
  | some length =>
    rw [hslash] at h
    simp only at h ⊢
    split at h
    · cases h
    · next hlength =>
      rw [if_neg hlength]
      have hne : path.take length ≠ name := by
        intro heq
        rw [heq, hnew] at h
        cases h
      rwa [set, update_of_ne hne]

/-- New nodes under names of their own, whose parents are all there already. -/
theorem parented_of (hdistinct : nodes.Pairwise fun p q => p.1 ≠ q.1)
    (hnew : ∀ p ∈ nodes, files p.1 = none) (hparent : ∀ p ∈ nodes, files.hasParent p.1 = true) :
    Parented nodes files := by
  induction nodes generalizing files with
  | nil => trivial
  | cons p rest ih =>
    obtain ⟨hp, hrest⟩ := pairwise_cons.1 hdistinct
    have hfirst := hnew p mem_cons_self
    refine ⟨hfirst, hparent p mem_cons_self, ih hrest ?_ ?_⟩
    · intro q hq
      rw [set, update_of_ne (Ne.symm (hp q hq))]
      exact hnew q (mem_cons_of_mem _ hq)
    · intro q hq
      exact hasParent_set hfirst (hparent q (mem_cons_of_mem _ hq)) _

end Files

end NovaOS.Fs
