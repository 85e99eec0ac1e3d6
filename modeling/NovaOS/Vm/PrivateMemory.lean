import NovaOS.Vm.Operations

/-!
# The abstract machine: every space has memory of its own

Here a space is a partial map from pages to contents, and nothing is ever shared behind the
scenes: a clone is a copy of the map, and every operation changes the map of one space.  Only
pages that were mapped shared on purpose have no contents here, since they belong to nobody.

* `SpaceView.map`, `SpaceView.unmap`, `SpaceView.write`, `SpaceView.fill` — what calls do to a map;
* `AbstractStep` — what each call may do.  Whether there was memory left is not decided here, so
  the step is told whether the call succeeded;
* `AbstractRun` — any number of calls.
-/

namespace NovaOS.Vm

/-- What user code finds at a page. -/
inductive PageView where
  | shared
  | own (bytes : ℕ → UInt8)

/-- Change the bytes of a page; what a shared page contains is nobody's own. -/
def PageView.change (f : (ℕ → UInt8) → ℕ → UInt8) : PageView → PageView
  | .shared => .shared
  | .own bytes => .own (f bytes)

theorem PageView.change_id (p : PageView) : p.change (fun bytes => bytes) = p := by
  cases p with
  | shared => rfl
  | own bytes => rfl

theorem PageView.change_change (f g : (ℕ → UInt8) → ℕ → UInt8) (p : PageView) :
    (p.change f).change g = p.change fun bytes => g (f bytes) := by
  cases p with
  | shared => rfl
  | own bytes => rfl

/-- The effect of a store on a page. -/
def PageView.write (offset : ℕ) (input : List UInt8) : PageView → PageView :=
  PageView.change fun bytes => writeBytes bytes offset input

/-- A page of zeros. -/
def PageView.zero : PageView := .own fun _ => 0

abbrev SpaceView := ℕ → Option PageView

namespace SpaceView

variable (v : SpaceView)

/-- A new page is zero, an old one stays. -/
def map (va : ℕ) : SpaceView := fun b => if alignDown b = va then some ((v b).getD .zero) else v b

def unmap (va : ℕ) : SpaceView := fun b => if alignDown b = alignDown va then none else v b

/-- The part of `input`, written at `a`, that falls into the page at `base`. -/
def overlay (base a : ℕ) (input : List UInt8) (bytes : ℕ → UInt8) (i : ℕ) : UInt8 :=
  if i < 4096 ∧ a ≤ base + i ∧ base + i < a + input.length then input.getD (base + i - a) 0
  else bytes i

/-- Bytes from `a` on, over as many pages as they reach. -/
def write (a : ℕ) (input : List UInt8) : SpaceView :=
  fun b => (v b).map (PageView.change (overlay (alignDown b) a input))

/-- Set all pages of a list. -/
def fill (pages : List ℕ) (o : Option PageView) : SpaceView :=
  fun b => if alignDown b ∈ pages then o else v b

theorem overlay_nil (base a : ℕ) (bytes : ℕ → UInt8) : overlay base a [] bytes = bytes := by
  funext i
  rw [overlay, List.length_nil, if_neg (by omega)]

theorem overlay_append (base a : ℕ) (x y : List UInt8) (bytes : ℕ → UInt8) :
    overlay base a (x ++ y) bytes = overlay base (a + x.length) y (overlay base a x bytes) := by
  funext i
  rw [overlay, overlay, overlay, List.length_append]
  split
  · rename_i hi
    by_cases hx : base + i < a + x.length
    · rw [if_neg (by omega), if_pos ⟨hi.1, hi.2.1, hx⟩, List.getD_append _ _ _ _ (by omega)]
    · rw [if_pos (by omega), List.getD_append_right _ _ _ _ (by omega)]
      congr 1
      omega
  · rw [if_neg (by omega), if_neg (by omega)]

/-- Inside its page a write is one `memcpy`; in any other page it is nothing. -/
theorem overlay_page {a b : ℕ} {input : List UInt8} (h : a % 4096 + input.length ≤ 4096)
    (bytes : ℕ → UInt8) :
    overlay (alignDown b) a input bytes =
      if alignDown b = alignDown a then writeBytes bytes (a % 4096) input else bytes := by
  have ha := alignDown_add_mod a
  funext i
  rw [overlay]
  by_cases hb : alignDown b = alignDown a
  · rw [if_pos hb, writeBytes]
    split
    · rw [if_pos (by omega)]
      congr 1
      omega
    · rw [if_neg (by omega)]
  · have hmod : alignDown b % 4096 = 0 := alignDown_mod b
    rw [if_neg hb, if_neg (by omega)]

theorem write_nil (a : ℕ) : v.write a [] = v := by
  funext b
  rw [write, show overlay (alignDown b) a [] = fun bytes => bytes from funext (overlay_nil _ a)]
  cases hv : v b with
  | none => rfl
  | some p => rw [Option.map_some, PageView.change_id]

theorem write_append (a : ℕ) (x y : List UInt8) :
    v.write a (x ++ y) = (v.write a x).write (a + x.length) y := by
  funext b
  rw [write, write, write, show overlay (alignDown b) a (x ++ y) =
    fun bytes => overlay (alignDown b) (a + x.length) y (overlay (alignDown b) a x bytes) from
    funext (overlay_append _ a x y)]
  cases hv : v b with
  | none => rfl
  | some p => rw [Option.map_some, Option.map_some, Option.map_some, PageView.change_change]

theorem write_page {a : ℕ} {input : List UInt8} (h : a % 4096 + input.length ≤ 4096) (b : ℕ) :
    v.write a input b =
      if alignDown b = alignDown a then (v b).map (PageView.write (a % 4096) input) else v b := by
  have hover := funext (overlay_page (b := b) h)
  rw [write, hover]
  by_cases hb : alignDown b = alignDown a
  · simp only [if_pos hb]
    rfl
  · simp only [if_neg hb]
    cases hv : v b with
    | none => rfl
    | some p => rw [Option.map_some, PageView.change_id]

end SpaceView

/-! ### The machine -/

/-- The spaces, each with memory of its own. -/
@[ext]
structure Machine where
  spaces : ℕ → Option SpaceView
  count : ℕ

def Machine.modify (M : Machine) (i : ℕ) (f : SpaceView → SpaceView) : Machine :=
  { M with spaces := Function.update M.spaces i ((M.spaces i).map f) }

def Machine.add (M : Machine) (v : SpaceView) : Machine :=
  ⟨Function.update M.spaces M.count (some v), M.count + 1⟩

/-- No space yet. -/
def Machine.initial : Machine := ⟨fun _ => none, 0⟩

/-- The calls, each on one space, and stores by user code. -/
inductive UserOp where
  | create
  | mapPage (i virtualAddress protection : ℕ)
  | unmapPage (i virtualAddress : ℕ)
  | protect (i address size protection : ℕ)
  | cloneCow (i : ℕ)
  | copyToUser (i destination : ℕ) (source : List UInt8)
  | store (i address : ℕ) (input : List UInt8)
  | mmap (i requested size protection flags hint : ℕ)
  | destroy (i : ℕ)

/-- What a call may do to the machine, given whether it succeeded. -/
inductive AbstractStep (M : Machine) : UserOp → Bool → Machine → Prop
  | failed (op : UserOp) : AbstractStep M op false M
  | create : AbstractStep M .create true (M.add fun _ => none)
  | mapPage (i va protection : ℕ) :
      AbstractStep M (.mapPage i va protection) true (M.modify i fun v => v.map va)
  | unmapPage (i va : ℕ) (ok : Bool) :
      AbstractStep M (.unmapPage i va) ok (M.modify i fun v => v.unmap va)
  | protect (i address size protection : ℕ) :
      AbstractStep M (.protect i address size protection) true M
  | cloneCow (i : ℕ) (v : SpaceView) (source : M.spaces i = some v) :
      AbstractStep M (.cloneCow i) true (M.add v)
  /-- a copy that fails part way has written a first part -/
  | copyToUser (i destination : ℕ) (source : List UInt8) (ok : Bool) (n : ℕ)
      (all : ok = true → n = source.length) :
      AbstractStep M (.copyToUser i destination source) ok
        (M.modify i fun v => v.write destination (source.take n))
  /-- the first store to a page of the stack maps it -/
  | store (i a : ℕ) (input : List UInt8) :
      AbstractStep M (.store i a input) true
        (M.modify i fun v => (v.map (alignDown a)).write a (input.take (4096 - a % 4096)))
  | mmap (i requested size protection flags hint address : ℕ)
      (fixed : flags.testBit 4 = true → address = alignDown requested)
      (free : flags.testBit 4 = false → ∀ v, M.spaces i = some v →
        ∀ b ∈ pageRange address ((address + alignUp size) % 2 ^ 64), v b = none) :
      AbstractStep M (.mmap i requested size protection flags hint) true
        (M.modify i fun v => v.fill (pageRange address ((address + alignUp size) % 2 ^ 64))
          (some (if flags.testBit 0 then .shared else .zero)))
  /-- a fixed mapping clears its range first -/
  | mmapCleared (i requested size protection flags hint : ℕ) (fixed : flags.testBit 4 = true) :
      AbstractStep M (.mmap i requested size protection flags hint) false
        (M.modify i fun v => v.fill (pageRange (alignDown requested)
          ((alignDown requested + alignUp size) % 2 ^ 64)) none)
  | destroy (i : ℕ) :
      AbstractStep M (.destroy i) true { M with spaces := Function.update M.spaces i none }

/-- Calls with their results. -/
inductive AbstractRun : Machine → List (UserOp × Bool) → Machine → Prop
  | nil (M : Machine) : AbstractRun M [] M
  | cons {M M₁ M₂ : Machine} {op : UserOp} {ok : Bool} {rest : List (UserOp × Bool)}
      (step : AbstractStep M op ok M₁) (run : AbstractRun M₁ rest M₂) :
      AbstractRun M ((op, ok) :: rest) M₂

end NovaOS.Vm
