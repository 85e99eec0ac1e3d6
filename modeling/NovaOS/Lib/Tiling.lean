import Mathlib.Data.List.Chain
import Mathlib.Data.List.Perm.Basic
import Mathlib.Tactic.Ring

/-!
# A range tiled by blocks with headers

A storage range is cut into tiles: each is a header of fixed size and a payload, and is either free
or held by a request of some size.  The list of tiles is the abstract state of a boundary-tag
allocator.

* `tilesEnd header a tiles` — where the tiles that start at `a` end;
* `holdings header a tiles` — payload address and requested size of the tiles that are held;
* `Spread` — no two neighbours are both free.
-/

namespace NovaOS

open List Nat Option

/-- A block of a tiling; `held` is the size asked for, `none` when it is free. -/
structure Tile where
  size : ℕ
  held : Option ℕ
deriving DecidableEq

namespace Tile

variable {header a b : ℕ} {t u : Tile} {tiles tiles' before after : List Tile}

/-- Where the tiles that start at `a` end. -/
def tilesEnd (header a : ℕ) : List Tile → ℕ
  | [] => a
  | t :: tiles => tilesEnd header (a + header + t.size) tiles

/-- Payload address and requested size of what is held. -/
def holdings (header a : ℕ) : List Tile → List (ℕ × ℕ)
  | [] => []
  | t :: tiles =>
    (t.held.toList.map fun size => (a + header, size)) ++ holdings header (a + header + t.size) tiles

/-- Where the headers stand. -/
def starts (header a : ℕ) : List Tile → List ℕ
  | [] => []
  | t :: tiles => a :: starts header (a + header + t.size) tiles

/-- A tile takes in the tile behind it if that is free. -/
def coalesce (header : ℕ) (t : Tile) : List Tile → List Tile
  | [] => [t]
  | u :: after =>
    match u.held with
    | none => ⟨t.size + (header + u.size), t.held⟩ :: after
    | some _ => t :: u :: after

/-- Two ranges, start and length, have no point in common. -/
def RangesApart (x y : ℕ × ℕ) : Prop := x.1 + x.2 ≤ y.1 ∨ y.1 + y.2 ≤ x.1

/-- Every request asked for something and fits into its tile. -/
def Fitting (tiles : List Tile) : Prop :=
  ∀ t ∈ tiles, ∀ size, t.held = some size → 0 < size ∧ size ≤ t.size

/-- No two neighbours are both free. -/
def Spread (tiles : List Tile) : Prop := tiles.IsChain fun t u => t.held ≠ none ∨ u.held ≠ none

theorem tilesEnd_append :
    tilesEnd header a (tiles ++ tiles') = tilesEnd header (tilesEnd header a tiles) tiles' := by
  induction tiles generalizing a with
  | nil => rfl
  | cons t tiles ih => exact ih

theorem le_tilesEnd (header a : ℕ) (tiles : List Tile) :
    a + header * tiles.length ≤ tilesEnd header a tiles := by
  induction tiles generalizing a with
  | nil => exact le_refl a
  | cons t tiles ih =>
    have hrest := ih (a + header + t.size)
    rw [length_cons, mul_succ, tilesEnd]
    omega

theorem holdings_append :
    holdings header a (tiles ++ tiles') =
      holdings header a tiles ++ holdings header (tilesEnd header a tiles) tiles' := by
  induction tiles generalizing a with
  | nil => rfl
  | cons t tiles ih => rw [cons_append, holdings, ih, holdings, tilesEnd, append_assoc]

theorem holdings_bounds (hfit : Fitting tiles) {p : ℕ × ℕ} (hp : p ∈ holdings header a tiles) :
    a + header ≤ p.1 ∧ 0 < p.2 ∧ p.1 + p.2 ≤ tilesEnd header a tiles := by
  induction tiles generalizing a with
  | nil => exact absurd hp not_mem_nil
  | cons t tiles ih =>
    have hend : a + header + t.size ≤ tilesEnd header a (t :: tiles) :=
      le_trans (le_add_right _ _) (le_tilesEnd header _ tiles)
    rw [holdings, mem_append] at hp
    obtain hp | hp := hp
    · cases hheld : t.held with
      | none =>
        rw [hheld] at hp
        exact absurd hp not_mem_nil
      | some size =>
        rw [hheld, toList_some, map_singleton, mem_singleton] at hp
        have hsize := hfit t mem_cons_self size hheld
        rw [hp]
        exact ⟨le_refl _, hsize.1, by simp only; omega⟩
    · have hrest := ih (fun u hu => hfit u (mem_cons_of_mem _ hu)) hp
      exact ⟨by omega, hrest.2⟩

theorem starts_bounds (hb : b ∈ starts header a tiles) :
    a ≤ b ∧ b + header ≤ tilesEnd header a tiles := by
  induction tiles generalizing a with
  | nil => exact absurd hb not_mem_nil
  | cons t tiles ih =>
    have hend : a + header + t.size ≤ tilesEnd header a (t :: tiles) :=
      le_trans (le_add_right _ _) (le_tilesEnd header _ tiles)
    obtain hb | hb := mem_cons.1 hb
    · rw [hb]
      exact ⟨le_refl a, by omega⟩
    · have hrest := ih hb
      exact ⟨by omega, hrest.2⟩

theorem mem_held {p : ℕ × ℕ} (hp : p ∈ t.held.toList.map fun size => (a + header, size)) :
    p.1 = a + header ∧ t.held = some p.2 := by
  obtain ⟨size, hsize, hp⟩ := mem_map.1 hp
  rw [← hp]
  exact ⟨rfl, mem_toList.1 hsize⟩

/-- No header lies in what is held. -/
theorem starts_apart_holdings (hfit : Fitting tiles) (hb : b ∈ starts header a tiles) {p : ℕ × ℕ}
    (hp : p ∈ holdings header a tiles) : RangesApart p (b, header) := by
  induction tiles generalizing a with
  | nil => exact absurd hb not_mem_nil
  | cons t tiles ih =>
    have hfit' : Fitting tiles := fun u hu => hfit u (mem_cons_of_mem _ hu)
    obtain hp | hp := mem_append.1 hp
    · obtain ⟨hstart, hheld⟩ := mem_held hp
      have hsize := hfit t mem_cons_self _ hheld
      obtain hb | hb := mem_cons.1 hb
      · exact .inr (le_of_eq (by rw [hb, hstart]))
      · exact .inl (le_trans (by omega) (starts_bounds hb).1)
    · obtain hb | hb := mem_cons.1 hb
      · have hbounds := (holdings_bounds hfit' hp).1
        refine .inr ?_
        omega
      · exact ih hfit' hb hp

theorem holdings_pairwise (hfit : Fitting tiles) (hheader : 0 < header) :
    (holdings header a tiles).Pairwise fun x y => x.1 < y.1 ∧ RangesApart x y := by
  induction tiles generalizing a with
  | nil => exact List.Pairwise.nil
  | cons t tiles ih =>
    have hfit' : Fitting tiles := fun u hu => hfit u (mem_cons_of_mem _ hu)
    refine pairwise_append.2 ⟨?_, ih hfit', fun x hx y hy => ?_⟩
    · cases t.held with
      | none => exact List.Pairwise.nil
      | some size => exact pairwise_singleton _ _
    · obtain ⟨hstart, hheld⟩ := mem_held hx
      have hsize := hfit t mem_cons_self _ hheld
      have hy' := (holdings_bounds hfit' hy).1
      exact ⟨by omega, .inl (by omega)⟩

theorem holdings_dvd {k : ℕ} (ha : k ∣ a) (hheader : k ∣ header) (h : ∀ t ∈ tiles, k ∣ t.size)
    {p : ℕ × ℕ} (hp : p ∈ holdings header a tiles) : k ∣ p.1 := by
  induction tiles generalizing a with
  | nil => exact absurd hp not_mem_nil
  | cons t tiles ih =>
    have hstart := Nat.dvd_add ha hheader
    obtain hp | hp := mem_append.1 hp
    · rw [(mem_held hp).1]
      exact hstart
    · exact ih (Nat.dvd_add hstart (h t mem_cons_self)) (fun u hu => h u (mem_cons_of_mem _ hu)) hp

theorem exists_tile_of_mem {p : ℕ × ℕ} (hp : p ∈ holdings header a tiles) :
    ∃ before t after, tiles = before ++ t :: after ∧ p.1 = tilesEnd header a before + header ∧
      t.held = some p.2 := by
  induction tiles generalizing a with
  | nil => exact absurd hp not_mem_nil
  | cons t tiles ih =>
    obtain hp | hp := mem_append.1 hp
    · obtain ⟨hstart, hheld⟩ := mem_held hp
      exact ⟨[], t, tiles, rfl, hstart, hheld⟩
    · obtain ⟨before, u, after, htiles, hstart, hheld⟩ := ih hp
      exact ⟨t :: before, u, after, by rw [htiles, cons_append], hstart, hheld⟩

theorem Fitting.append (h : Fitting tiles) (h' : Fitting tiles') : Fitting (tiles ++ tiles') := by
  intro t ht
  obtain ht | ht := mem_append.1 ht
  · exact h t ht
  · exact h' t ht

theorem Fitting.left (h : Fitting (tiles ++ tiles')) : Fitting tiles :=
  fun t ht => h t (mem_append_left _ ht)

theorem Fitting.right (h : Fitting (tiles ++ tiles')) : Fitting tiles' :=
  fun t ht => h t (mem_append_right _ ht)

/-! ### Free neighbours -/

/-- A held tile may stand anywhere. -/
theorem Spread.of_held (ht : t.held ≠ none) (hbefore : Spread before) (hafter : Spread after) :
    Spread (before ++ t :: after) := by
  rw [Spread, isChain_append]
  refine ⟨hbefore, ?_, fun x _ y hy => ?_⟩
  · cases after with
    | nil => exact isChain_singleton _
    | cons u after => exact isChain_cons_cons.2 ⟨.inl ht, hafter⟩
  · rw [List.head?_cons, mem_some_iff] at hy
    rw [← hy]
    exact .inr ht

theorem Spread.left (h : Spread (before ++ after)) : Spread before := (isChain_append.1 h).1

theorem Spread.right (h : Spread (before ++ after)) : Spread after := (isChain_append.1 h).2.1

/-- A free tile behind a held one is as good as the free tile that stood there. -/
theorem Spread.free_cons {size : ℕ} (ht : t.held = none) (h : Spread (t :: after)) :
    Spread (⟨size, none⟩ :: after) := by
  cases after with
  | nil => exact isChain_singleton _
  | cons u after =>
    obtain ⟨hu, hrest⟩ := isChain_cons_cons.1 h
    exact isChain_cons_cons.2 ⟨.inr (hu.resolve_left (not_not_intro ht)), hrest⟩

/-- Neighbours of a free tile are held, so another free tile may take its place. -/
theorem Spread.replace_free {size : ℕ} (ht : t.held = none) (h : Spread (before ++ t :: tiles))
    (h' : Spread (⟨size, none⟩ :: after)) : Spread (before ++ ⟨size, none⟩ :: after) := by
  obtain ⟨hbefore, -, hjoin⟩ := isChain_append.1 h
  refine isChain_append.2 ⟨hbefore, h', fun x hx y hy => ?_⟩
  have hx' := hjoin x hx t rfl
  exact .inl (hx'.resolve_right (not_not_intro ht))

theorem Spread.length_le_one (h : Spread tiles) (hfree : holdings header a tiles = []) :
    tiles.length ≤ 1 := by
  cases tiles with
  | nil => exact zero_le 1
  | cons t tiles =>
    cases tiles with
    | nil => exact le_refl 1
    | cons u tiles =>
      obtain ⟨hheld, -⟩ := isChain_cons_cons.1 h
      simp only [holdings, append_eq_nil_iff, map_eq_nil_iff, toList_eq_nil_iff] at hfree
      obtain ht | hu := hheld
      · exact absurd hfree.1 ht
      · exact absurd hfree.2.1 hu

/-! ### Taking in the next tile -/

theorem tilesEnd_coalesce :
    tilesEnd header a (coalesce header t after) = tilesEnd header a (t :: after) := by
  cases after with
  | nil => rfl
  | cons u after =>
    rw [coalesce]
    cases u.held with
    | none =>
      simp only [tilesEnd]
      congr 1
      omega
    | some size => rfl

theorem holdings_coalesce :
    holdings header a (coalesce header t after) = holdings header a (t :: after) := by
  cases after with
  | nil => rfl
  | cons u after =>
    rw [coalesce]
    cases hu : u.held with
    | none =>
      simp only [holdings, hu, toList_none, map_nil, nil_append]
      congr 2
      omega
    | some size => rfl

theorem Fitting.coalesce (h : Fitting (t :: after)) : Fitting (coalesce header t after) := by
  cases after with
  | nil => exact h
  | cons u after =>
    rw [Tile.coalesce]
    cases u.held with
    | none =>
      intro v hv size hsize
      obtain hv | hv := mem_cons.1 hv
      · rw [hv] at hsize ⊢
        have ht := h t mem_cons_self size hsize
        exact ⟨ht.1, le_trans ht.2 (le_add_right _ _)⟩
      · exact h v (mem_cons_of_mem _ (mem_cons_of_mem _ hv)) size hsize
    | some size => exact h

theorem dvd_coalesce {k : ℕ} (hheader : k ∣ header) (h : ∀ u ∈ t :: after, k ∣ u.size) :
    ∀ u ∈ coalesce header t after, k ∣ u.size := by
  cases after with
  | nil => exact h
  | cons u after =>
    rw [coalesce]
    cases u.held with
    | none =>
      intro v hv
      obtain hv | hv := mem_cons.1 hv
      · rw [hv]
        exact Nat.dvd_add (h t mem_cons_self)
          (Nat.dvd_add hheader (h u (mem_cons_of_mem _ mem_cons_self)))
      · exact h v (mem_cons_of_mem _ (mem_cons_of_mem _ hv))
    | some size => exact h

/-- The tile stays the first one and keeps its holder. -/
theorem coalesce_eq (header : ℕ) (t : Tile) (after : List Tile) :
    ∃ size after', coalesce header t after = ⟨size, t.held⟩ :: after' ∧ t.size ≤ size ∧
      (Spread after → t.held = none → Spread (⟨size, none⟩ :: after')) := by
  cases after with
  | nil => exact ⟨t.size, [], rfl, le_rfl, fun _ _ => isChain_singleton _⟩
  | cons u after =>
    rw [coalesce]
    cases hu : u.held with
    | none => exact ⟨_, after, rfl, le_add_right _ _, fun h _ => Spread.free_cons (t := u) hu h⟩
    | some size =>
      refine ⟨t.size, u :: after, rfl, le_rfl, fun h _ => isChain_cons_cons.2 ⟨.inr ?_, h⟩⟩
      rw [hu]
      exact some_ne_none size

end Tile

end NovaOS
