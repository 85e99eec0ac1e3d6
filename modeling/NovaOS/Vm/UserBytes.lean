import NovaOS.Vm.Copies
import NovaOS.Vm.Isolation

/-!
# User memory byte by byte

`userByte s m a` is the byte user code finds at `a`, none where nothing is mapped and none in a page
marked shared, whose contents are not its own.  The copy functions of `vm.c` read and write exactly
these bytes:

* `vmCopyToUser_userByte` — a copy to user memory changes the bytes of its range and no other;
* `SpaceView.byte_write` — the bytes after a write;
* `vmMapPage_pageState`, `vmCopyToUser_pageState` — every other page stays as it is, its record and
  its bytes, also when it is shared.
-/

namespace NovaOS.Vm

variable {ext : ℕ → ℕ} {E : ℕ → Prop} {sh : ℕ → Prop} {s s' : VmSpace} {m m' : Memory} {a b n : ℕ}

/-- The byte of a page view at an offset. -/
def PageView.byte (offset : ℕ) : PageView → Option UInt8
  | .shared => none
  | .own bytes => some (bytes offset)

/-- The byte user code finds at an address. -/
def SpaceView.byte (v : SpaceView) (a : ℕ) : Option UInt8 := (v a).bind (PageView.byte (a % 4096))

def userByte (s : VmSpace) (m : Memory) (a : ℕ) : Option UInt8 := (view s m).byte a

/-! ### Reading -/

theorem vmCopyFromUser_one (s : VmSpace) (a : ℕ) (m : Memory) :
    vmCopyFromUser s a 1 m =
      (pageAt s a).map fun p => [m.bytes (frameData m p.frame) (a % 4096)] := by
  rw [vmCopyFromUser_round s a m (by omega), pageAt]
  cases findPage s a with
  | none => rfl
  | some e =>
    have hchunk : min (4096 - a % 4096) 1 = 1 := by omega
    simp only [hchunk]
    rfl

/-! ### Writing -/

theorem SpaceView.byte_write (v : SpaceView) (a : ℕ) (input : List UInt8) (b : ℕ) :
    (v.write a input).byte b =
      if a ≤ b ∧ b < a + input.length then (v.byte b).map fun _ => input.getD (b - a) 0
      else v.byte b := by
  have hbase : alignDown b + b % 4096 = b := alignDown_add_mod b
  have hlt : b % 4096 < 4096 := Nat.mod_lt _ (by decide)
  rw [SpaceView.byte, SpaceView.byte, SpaceView.write]
  cases hv : v b with
  | none => simp
  | some p =>
    cases p with
    | shared => simp [PageView.change, PageView.byte]
    | own bytes =>
      simp only [Option.map_some, PageView.change, Option.bind_some, PageView.byte,
        SpaceView.overlay, hbase, hlt, true_and]
      split
      · rfl
      · rfl

/-- **A copy to user memory** that succeeds changes the bytes of its range and no other; all of them
were there. -/
theorem vmCopyToUser_userByte {input : List UInt8} (h : SpaceOk ext E s m) (hi : Iso ext sh s)
    (he : vmCopyToUser s a input m = (true, s', m')) :
    Confined ext E sh s m s' m' ∧ view s' m' = (view s m).write a input ∧
      ∀ i, i < input.length → (view s m (a + i)).isSome ∧ a + i < 2 ^ 47 := by
  have hcopied := copyToUserLoop_copied input.length s a input m h hi
  rw [show copyToUserLoop input.length s a input m = _ from he] at hcopied
  obtain ⟨hc, n, hall, hv, hmapped⟩ := hcopied.written
  rw [hall rfl, List.take_length] at hv
  rw [hall rfl] at hmapped
  exact ⟨hc, hv, hmapped⟩

/-! ### The other pages -/

/-- **`vm_copy_to_user`** into private pages leaves the pages its range does not meet. -/
theorem vmCopyToUser_pageState {input : List UInt8} (h : SpaceOk ext E s m) (hi : Iso ext sh s)
    (hown : ∀ i, i < input.length → view s m (a + i) ≠ some .shared) {ok : Bool}
    (he : vmCopyToUser s a input m = (ok, s', m'))
    (hb : ∀ i, i < input.length → alignDown b ≠ alignDown (a + i)) :
    pageState s' m' b = pageState s m b := by
  have hcopied := copyToUserLoop_copied input.length s a input m h hi
  rw [show copyToUserLoop input.length s a input m = _ from he] at hcopied
  exact hcopied.pageState hown hb

end NovaOS.Vm
