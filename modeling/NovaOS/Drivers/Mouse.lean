import NovaOS.Lib.Runs
import Mathlib.Data.Int.Notation

/-!
# The PS/2 mouse

A packet has three bytes.  The movements are nine bits wide: the low eight are the second and the third
byte, and the signs are bits 4 and 5 of the first.  `process_mouse` takes the two bytes as signed ones and
does not look at the sign bits.

* `processMouse` — one byte of the mouse;
* `Packet.target` — where the protocol moves the pointer;
* `pointer_follows_packets` — **the pointer follows every stream** of packets whose movements are between
  -128 and 127;
* `fast_movement_reversed` — a faster movement goes the other way;
* `pointer_on_screen` — no stream of bytes moves the pointer off the screen.
-/

namespace NovaOS.Drivers

structure Mouse where
  x : ℤ
  y : ℤ
  limitX : ℤ
  limitY : ℤ
  buttons : UInt8
  packet : ℕ → UInt8
  index : ℕ

/-- The pointer after `input_init`. -/
def Mouse.start (width height : ℤ) : Mouse := ⟨width.tdiv 2, height.tdiv 2, width, height, 0, fun _ => 0, 0⟩

/-- A pointer that has left the screen is put back to its edge. -/
def clamp (limit p : ℤ) : ℤ :=
  let p := if p < 0 then 0 else p
  if p ≥ limit then limit - 1 else p

/-- `process_mouse`: the pointer and the buttons of the event, if there is one. -/
def processMouse (m : Mouse) (data : UInt8) : Option (ℤ × ℤ × UInt8) × Mouse :=
  if m.index = 0 ∧ data &&& 0x08 = 0 then (none, m)
  else
    let packet := Function.update m.packet m.index data
    if m.index + 1 ≠ 3 then (none, { m with packet := packet, index := m.index + 1 })
    else if packet 0 &&& 0xC0 ≠ 0 then (none, { m with packet := packet, index := 0 })
    else
      let x := clamp m.limitX (m.x + (packet 1).toInt8.toInt)
      let y := clamp m.limitY (m.y - (packet 2).toInt8.toInt)
      let buttons := packet 0 &&& 0x07
      (some (x, y, buttons), { m with x := x, y := y, buttons := buttons, packet := packet, index := 0 })

/-- A well-formed packet: bit 3 of the first byte is set. -/
structure Packet where
  first : UInt8
  second : UInt8
  third : UInt8
  marked : first &&& 0x08 ≠ 0

/-- A movement of nine bits in two's complement. -/
def movement (sign low : UInt8) : ℤ := if sign = 0 then low.toNat else low.toNat - 256

namespace Packet

variable (p : Packet)

def deltaX : ℤ := movement (p.first &&& 0x10) p.second

def deltaY : ℤ := movement (p.first &&& 0x20) p.third

/-- Where the protocol moves the pointer: not at all if a movement has overflown. -/
def target (m : Mouse) : ℤ × ℤ :=
  if p.first &&& 0xC0 ≠ 0 then (m.x, m.y)
  else (min (m.limitX - 1) (max 0 (m.x + p.deltaX)), min (m.limitY - 1) (max 0 (m.y - p.deltaY)))

/-- The movements fit into eight bits. -/
def Slow : Prop :=
  p.first &&& 0xC0 ≠ 0 ∨ (-128 ≤ p.deltaX ∧ p.deltaX < 128) ∧ -128 ≤ p.deltaY ∧ p.deltaY < 128

end Packet

/-- The three bytes of a packet. -/
def Mouse.receive (m : Mouse) (p : Packet) : Mouse :=
  (processMouse (processMouse (processMouse m p.first).2 p.second).2 p.third).2

variable {m : Mouse}

theorem clamp_eq (limit p : ℤ) : clamp limit p = min (limit - 1) (max 0 p) := by
  unfold clamp
  dsimp only
  split <;> split <;> omega

/-- A byte as a signed one is the movement, if the movement fits. -/
theorem toInt8_eq_movement {sign low : UInt8} (h : -128 ≤ movement sign low ∧ movement sign low < 128) :
    low.toInt8.toInt = movement sign low := by
  have hbyte := low.toNat_lt
  have hint : low.toInt8.toInt = (low.toNat : ℤ).bmod (2 ^ 8) :=
    BitVec.toInt_eq_toNat_bmod low.toBitVec
  rw [hint]
  rw [movement] at h ⊢
  split at h
  · next hsign => rw [if_pos hsign, Int.bmod_eq_of_le (by omega) (by omega)]
  · next hsign =>
    rw [if_neg hsign, Int.bmod_def, Int.emod_eq_of_lt (by omega) (by omega), if_neg (by omega)]
    omega

/-- A packet from its first byte on. -/
theorem Mouse.receive_eq (hindex : m.index = 0) (p : Packet) :
    ∃ packet buttons, m.receive p = { m with
      x := if p.first &&& 0xC0 ≠ 0 then m.x else clamp m.limitX (m.x + p.second.toInt8.toInt)
      y := if p.first &&& 0xC0 ≠ 0 then m.y else clamp m.limitY (m.y - p.third.toInt8.toInt)
      buttons := buttons, packet := packet, index := 0 } := by
  obtain ⟨x, y, limitX, limitY, buttons, packet, index⟩ := m
  obtain rfl : index = 0 := hindex
  by_cases hover : p.first &&& 0xC0 = 0
  · simp [Mouse.receive, processMouse, p.marked, hover]
  · simp [Mouse.receive, processMouse, p.marked, hover]

/-- **The pointer follows the packets**, as long as their movements fit into eight bits. -/
theorem pointer_follows_packets (m : Mouse) (hindex : m.index = 0) (packets : List Packet)
    (hslow : ∀ p ∈ packets, p.Slow) :
    Along Mouse.receive (fun m p => ((m.receive p).x, (m.receive p).y) = p.target m) m packets := by
  induction packets generalizing m with
  | nil => trivial
  | cons p packets ih =>
    obtain ⟨packet, buttons, hreceive⟩ := Mouse.receive_eq hindex p
    refine ⟨?_, ih _ (by rw [hreceive]) fun q hq => hslow q (List.mem_cons_of_mem p hq)⟩
    dsimp only
    rw [hreceive, Packet.target]
    by_cases hover : p.first &&& 0xC0 ≠ 0
    · simp only [if_pos hover]
    · obtain ⟨hx, hy⟩ := (hslow p List.mem_cons_self).resolve_left hover
      simp only [if_neg hover]
      rw [clamp_eq, clamp_eq, Packet.deltaX, Packet.deltaY, toInt8_eq_movement hx, toInt8_eq_movement hy]

/-- A slow movement and an overflow. -/
theorem pointer_follows_packets_two :
    let packets : List Packet := [⟨0x18, 0xFF, 0x02, by decide⟩, ⟨0x48, 0x10, 0x10, by decide⟩]
    (∀ p ∈ packets, p.Slow) ∧ Along Mouse.receive (fun m p => ((m.receive p).x, (m.receive p).y) =
      p.target m) (Mouse.start 1024 768) packets := by
  intro packets
  have hslow : ∀ p ∈ packets, p.Slow := by
    intro p hp
    simp only [packets, List.mem_cons, List.not_mem_nil, or_false] at hp
    rcases hp with rfl | rfl
    · exact .inr (by decide)
    · exact .inl (by decide)
  exact ⟨hslow, pointer_follows_packets _ rfl packets hslow⟩

/-- **A fast movement is reversed**: 156 to the left moves the pointer 100 to the right. -/
theorem fast_movement_reversed :
    let m := Mouse.start 1024 768
    let p : Packet := ⟨0x18, 100, 0, by decide⟩
    p.target m = (356, 384) ∧ ((m.receive p).x, (m.receive p).y) = (612, 384) := by
  decide

/-- On a screen of this size, with room for a byte in `mouse_packet`. -/
def Mouse.OnScreen (width height : ℤ) (m : Mouse) : Prop :=
  m.limitX = width ∧ m.limitY = height ∧ (0 ≤ m.x ∧ m.x < width) ∧ (0 ≤ m.y ∧ m.y < height) ∧ m.index < 3

variable {width height : ℤ}

theorem Mouse.OnScreen.step (h : m.OnScreen width height) (data : UInt8) :
    (processMouse m data).2.OnScreen width height := by
  obtain ⟨rfl, rfl, hx, hy, hindex⟩ := h
  have hclamp : ∀ limit p, 0 < limit → 0 ≤ clamp limit p ∧ clamp limit p < limit := by
    intro limit p hlimit
    rw [clamp_eq]
    omega
  unfold processMouse
  dsimp only
  split
  · exact ⟨rfl, rfl, hx, hy, hindex⟩
  · split
    · exact ⟨rfl, rfl, hx, hy, show m.index + 1 < 3 by omega⟩
    · split
      · exact ⟨rfl, rfl, hx, hy, Nat.zero_lt_succ 2⟩
      · exact ⟨rfl, rfl, hclamp _ _ (by omega), hclamp _ _ (by omega), Nat.zero_lt_succ 2⟩

/-- **Whatever the mouse sends**, the pointer stays on the screen and no byte is stored behind the packet. -/
theorem pointer_on_screen (hwidth : 0 < width) (hheight : 0 < height) (bytes : List UInt8) :
    (bytes.foldl (fun m data => (processMouse m data).2) (Mouse.start width height)).OnScreen
      width height := by
  have hmiddle : ∀ size : ℤ, 0 < size → 0 ≤ size.tdiv 2 ∧ size.tdiv 2 < size := by
    intro size hsize
    rw [Int.tdiv_eq_ediv_of_nonneg hsize.le]
    omega
  exact List.foldlRecOn bytes _ ⟨rfl, rfl, hmiddle width hwidth, hmiddle height hheight, Nat.zero_lt_succ 2⟩
    fun _ h data _ => h.step data

theorem pointer_on_screen_bytes :
    ([0, 8, 128, 127].foldl (fun m data => (processMouse m data).2) (Mouse.start 1024 768)).OnScreen
      1024 768 :=
  pointer_on_screen (by decide) (by decide) _

end NovaOS.Drivers
