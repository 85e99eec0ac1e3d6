import NovaOS.Lib.LittleEndian
import NovaOS.Lib.Ring
import NovaOS.Lib.Runs

/-!
# The transmit ring of the network card

`setup_transmit` and `e1000_send` of `drivers/e1000.c` against the device.  The device owns the
descriptors from `TDH` up to but excluding `TDT`; equal indices are an empty ring.  It transmits the
descriptor at `TDH`, sets its `DD` bit and advances `TDH`.

`e1000_send` waits for the `DD` bit of the descriptor at `tx_index`, fills its buffer and the
descriptor, and stores the next index in `TDT`.  The device may take steps between any two of these;
nobody else sends meanwhile.

* `TransmitRing.step` — one step of a call, or of the device;
* `RingOk` — the invariant: the frames accepted are those transmitted, followed by those the device
  owns;
* `transmit_ring_iff` — the ring loses no frame exactly in the runs where `TDT` is never moved onto
  `TDH`.

Left out: `available` and the `NULL` frame, which are checked before anything else, and the fields
of a descriptor that `e1000_send` stores and nothing reads back.
-/

namespace NovaOS.Net

open Function Nat

def txCount : ℕ := 16
def e1000FrameMax : ℕ := 2048

/-- The fields of a `TxDescriptor` that matter; its buffer is the one with the same number. -/
structure TxDescriptor where
  length : ℕ
  /-- the `DD` bit of `status` -/
  done : Bool

/-- Where a call of `e1000_send` is. -/
inductive SendPhase
  /-- no call is running -/
  | idle
  /-- the loop that reads `status` -/
  | poll (frame : List UInt8) (timeout : ℕ)
  /-- `memcpy` into the buffer -/
  | copy (frame : List UInt8)
  /-- the stores to the descriptor -/
  | describe (frame : List UInt8)
  /-- the store to `TDT` -/
  | tail (frame : List UInt8)

structure TransmitRing where
  descriptors : ℕ → TxDescriptor
  buffers : ℕ → ℕ → UInt8
  tdh : ℕ
  tdt : ℕ
  txIndex : ℕ
  phase : SendPhase
  /-- the frames `e1000_send` has returned true for -/
  accepted : List (List UInt8)
  /-- what has gone out on the wire -/
  transmitted : List (List UInt8)

inductive TransmitEvent
  /-- `e1000_send` is called -/
  | send (frame : List UInt8)
  /-- the running call goes on -/
  | driver
  | device

namespace TransmitRing

/-- The ring after `setup_transmit`. -/
def initial (buffers : ℕ → ℕ → UInt8) : TransmitRing where
  descriptors := fun _ => ⟨0, true⟩
  buffers := buffers
  tdh := 0
  tdt := 0
  txIndex := 0
  phase := .idle
  accepted := []
  transmitted := []

variable (r : TransmitRing)

/-- The frame a descriptor stands for. -/
def frameAt (index : ℕ) : List UInt8 := readBytes (r.buffers index) 0 (r.descriptors index).length

/-- How many descriptors the device owns. -/
def ownedCount : ℕ := (r.tdt + txCount - r.tdh) % txCount

/-- The device owns a descriptor and its buffer. -/
def Owns (index : ℕ) : Prop := ∃ i, i < r.ownedCount ∧ index = (r.tdh + i) % txCount

/-- The frames the device owns, in the order it transmits them. -/
def ownedFrames : List (List UInt8) := ringList txCount r.frameAt r.tdh r.ownedCount

/-- The next step of a running call of `e1000_send`. -/
def driverStep : TransmitRing :=
  match r.phase with
  | .idle => r
  | .poll frame timeout =>
    if (r.descriptors r.txIndex).done then { r with phase := .copy frame }
    else if 1000000 < timeout then { r with phase := .idle }
    else { r with phase := .poll frame (timeout + 1) }
  | .copy frame =>
    { r with
      buffers := update r.buffers r.txIndex (writeBytes (r.buffers r.txIndex) 0 frame)
      phase := .describe frame }
  | .describe frame =>
    { r with
      descriptors := update r.descriptors r.txIndex ⟨frame.length, false⟩
      phase := .tail frame }
  | .tail frame =>
    { r with
      tdt := (r.txIndex + 1) % txCount
      txIndex := (r.txIndex + 1) % txCount
      phase := .idle
      accepted := r.accepted ++ [frame] }

/-- The device transmits the descriptor at `TDH`. -/
def deviceStep : TransmitRing :=
  if r.tdh = r.tdt then r
  else
    { r with
      transmitted := r.transmitted ++ [r.frameAt r.tdh]
      descriptors := update r.descriptors r.tdh { r.descriptors r.tdh with done := true }
      tdh := (r.tdh + 1) % txCount }

def step : TransmitEvent → TransmitRing
  | .send frame =>
    match r.phase with
    | .idle =>
      if frame.length < 14 ∨ e1000FrameMax < frame.length then r
      else { r with phase := .poll frame 0 }
    | _ => r
  | .driver => r.driverStep
  | .device => r.deviceStep

/-- The descriptor whose buffer or fields the driver stores to in a step. -/
def stores : TransmitEvent → Option ℕ
  | .driver =>
    match r.phase with
    | .copy _ => some r.txIndex
    | .describe _ => some r.txIndex
    | _ => none
  | _ => none

/-- Every frame that was accepted has been transmitted or is owned by the device, each once and in
order. -/
def NoneLost : Prop := r.accepted = r.transmitted ++ r.ownedFrames

/-- A store to `TDT` does not move it onto `TDH`. -/
def TailFree : TransmitEvent → Prop
  | .driver => ∀ frame, r.phase = .tail frame → (r.txIndex + 1) % txCount ≠ r.tdh
  | _ => True

/-- What the running call has written so far. -/
def Written : Prop :=
  match r.phase with
  | .describe frame => readBytes (r.buffers r.txIndex) 0 frame.length = frame
  | .tail frame => r.frameAt r.txIndex = frame
  | _ => True

end TransmitRing

open TransmitRing

/-- The invariant of the ring. -/
structure RingOk (r : TransmitRing) : Prop where
  head : r.tdh < txCount
  tail : r.tdt < txCount
  index : r.txIndex = r.tdt
  written : r.Written
  sound : r.NoneLost

variable {r : TransmitRing} {e : TransmitEvent}

theorem ringOk_initial (buffers : ℕ → ℕ → UInt8) : RingOk (TransmitRing.initial buffers) := by
  refine ⟨zero_lt_succ _, zero_lt_succ _, rfl, trivial, ?_⟩
  have hcount : (TransmitRing.initial buffers).ownedCount = 0 := by
    show (0 + txCount - 0) % txCount = 0
    decide
  rw [NoneLost, ownedFrames, hcount]
  rfl

/-! ### Ownership -/

theorem RingOk.ownedCount_lt (r : TransmitRing) : r.ownedCount < txCount := mod_lt _ (by decide)

/-- The descriptors the device owns end where `TDT` is. -/
theorem RingOk.end_eq (h : RingOk r) : (r.tdh + r.ownedCount) % txCount = r.tdt := by
  have hhead := h.head
  have htail := h.tail
  unfold ownedCount
  unfold txCount at *
  omega

/-- **The driver only stores where the device owns nothing.** -/
theorem RingOk.not_owns (h : RingOk r) : ¬ r.Owns r.txIndex := by
  intro howns
  obtain ⟨i, hi, heq⟩ := howns
  rw [h.index, ← h.end_eq] at heq
  exact ring_index_ne hi (RingOk.ownedCount_lt r) heq.symm

theorem RingOk.stores_free (h : RingOk r) {i : ℕ} (hi : r.stores e = some i) : ¬ r.Owns i := by
  have htx : i = r.txIndex := by
    unfold stores at hi
    split at hi
    · split at hi
      · exact (Option.some.inj hi).symm
      · exact (Option.some.inj hi).symm
      · cases hi
    · cases hi
  rw [htx]
  exact h.not_owns

/-- What is stored at `tx_index` is no part of the frames the device owns. -/
theorem RingOk.ownedFrames_eq (h : RingOk r) {t : TransmitRing} (htdh : t.tdh = r.tdh)
    (htdt : t.tdt = r.tdt) (hframe : ∀ i, i ≠ r.txIndex → t.frameAt i = r.frameAt i) :
    t.ownedFrames = r.ownedFrames := by
  have hcount : t.ownedCount = r.ownedCount := by
    rw [ownedCount, ownedCount, htdh, htdt]
  rw [ownedFrames, ownedFrames, htdh, hcount]
  apply ringList_congr
  intro i hi
  apply hframe
  intro heq
  exact h.not_owns ⟨i, hi, heq.symm⟩

/-! ### Steps -/

section

variable (h : RingOk r)

include h

theorem RingOk.send (frame : List UInt8) : RingOk (r.step (.send frame)) := by
  rw [TransmitRing.step]
  split
  · split
    · exact h
    · exact ⟨h.head, h.tail, h.index, trivial, h.sound⟩
  · exact h

/-- Before the store to `TDT` a call changes nothing that the device sees. -/
theorem RingOk.driver (hphase : ∀ frame, r.phase ≠ .tail frame) : RingOk r.driverStep := by
  unfold driverStep
  cases hp : r.phase with
  | idle => exact h
  | poll frame timeout =>
    simp only
    split
    · exact ⟨h.head, h.tail, h.index, trivial, h.sound⟩
    · split
      · exact ⟨h.head, h.tail, h.index, trivial, h.sound⟩
      · exact ⟨h.head, h.tail, h.index, trivial, h.sound⟩
  | copy frame =>
    refine ⟨h.head, h.tail, h.index, ?_, ?_⟩
    · show readBytes (update r.buffers r.txIndex _ r.txIndex) 0 frame.length = frame
      rw [update_self]
      exact readBytes_writeBytes_self
    · show r.accepted = r.transmitted ++ _
      rw [h.ownedFrames_eq (t := { r with
        buffers := update r.buffers r.txIndex (writeBytes (r.buffers r.txIndex) 0 frame)
        phase := .describe frame }) rfl rfl]
      · exact h.sound
      · intro i hi
        show readBytes (update r.buffers r.txIndex _ i) 0 _ = _
        rw [update_of_ne hi]
        rfl
  | describe frame =>
    have hwritten := h.written
    rw [Written, hp] at hwritten
    refine ⟨h.head, h.tail, h.index, ?_, ?_⟩
    · show readBytes _ 0 (update r.descriptors r.txIndex _ r.txIndex).length = frame
      rw [update_self]
      exact hwritten
    · show r.accepted = r.transmitted ++ _
      rw [h.ownedFrames_eq (t := { r with
        descriptors := update r.descriptors r.txIndex ⟨frame.length, false⟩
        phase := .tail frame }) rfl rfl]
      · exact h.sound
      · intro i hi
        show readBytes _ 0 (update r.descriptors r.txIndex _ i).length = _
        rw [update_of_ne hi]
        rfl
  | tail frame => exact absurd hp (hphase frame)

/-- The frame leaves the driver's hands. -/
theorem RingOk.tailStep {frame : List UInt8} (hp : r.phase = .tail frame)
    (hfree : (r.txIndex + 1) % txCount ≠ r.tdh) : RingOk r.driverStep := by
  have hwritten := h.written
  rw [Written, hp] at hwritten
  have hcount : ((r.txIndex + 1) % txCount + txCount - r.tdh) % txCount = r.ownedCount + 1 := by
    have hhead := h.head
    have htail := h.tail
    rw [h.index] at hfree ⊢
    unfold ownedCount
    unfold txCount at *
    omega
  have howned : r.driverStep.ownedFrames = r.ownedFrames ++ [frame] := by
    unfold driverStep
    rw [hp]
    show ringList txCount r.frameAt r.tdh (((r.txIndex + 1) % txCount + txCount - r.tdh) % txCount) = _
    rw [hcount, ringList_add, h.end_eq, ← h.index]
    congr 1
    show [r.frameAt ((r.txIndex + 0) % txCount)] = [frame]
    rw [add_zero, h.index, mod_eq_of_lt h.tail, ← h.index, hwritten]
  have haccepted : r.driverStep.accepted = r.accepted ++ [frame] := by
    unfold driverStep
    rw [hp]
  have htransmitted : r.driverStep.transmitted = r.transmitted := by
    unfold driverStep
    rw [hp]
  have hsound : r.driverStep.NoneLost := by
    rw [NoneLost, haccepted, htransmitted, howned, h.sound, List.append_assoc]
  unfold driverStep at hsound ⊢
  rw [hp] at hsound ⊢
  exact ⟨h.head, mod_lt _ (by decide), rfl, trivial, hsound⟩

/-- `TDT` on `TDH` is an empty ring: sixteen frames are nobody's. -/
theorem RingOk.tail_lost {frame : List UInt8} (hp : r.phase = .tail frame)
    (hfull : (r.txIndex + 1) % txCount = r.tdh) : ¬ r.driverStep.NoneLost := by
  intro hlost
  have haccepted : r.driverStep.accepted = r.accepted ++ [frame] := by
    unfold driverStep
    rw [hp]
  have htransmitted : r.driverStep.transmitted = r.transmitted := by
    unfold driverStep
    rw [hp]
  have howned : r.driverStep.ownedFrames = [] := by
    unfold driverStep
    rw [hp]
    show ringList txCount r.frameAt r.tdh (((r.txIndex + 1) % txCount + txCount - r.tdh) % txCount) = _
    rw [hfull, Nat.add_sub_cancel_left, Nat.mod_self]
    rfl
  rw [NoneLost, haccepted, htransmitted, howned, h.sound] at hlost
  have hlength := congrArg List.length hlost
  simp only [List.length_append, List.length_cons, List.length_nil] at hlength
  omega

/-- The device moves the first frame it owns to the wire. -/
theorem RingOk.device : RingOk r.deviceStep := by
  unfold deviceStep
  split
  · exact h
  have hcount : r.ownedCount = 1 + (r.tdt + txCount - (r.tdh + 1) % txCount) % txCount := by
    have hhead := h.head
    have htail := h.tail
    unfold ownedCount
    unfold txCount at *
    omega
  have hframes : ∀ done : Bool, ∀ i, readBytes (r.buffers i) 0 (update r.descriptors r.tdh
      { r.descriptors r.tdh with done := done } i).length = r.frameAt i := by
    intro done i
    by_cases hi : i = r.tdh
    · subst hi
      rw [update_self]
      rfl
    · rw [update_of_ne hi]
      rfl
  refine ⟨mod_lt _ (by decide), h.tail, h.index, ?_, ?_⟩
  · have hwritten := h.written
    unfold Written at hwritten ⊢
    split
    · rename_i frame hp
      rw [hp] at hwritten
      exact hwritten
    · rename_i frame hp
      rw [hp] at hwritten
      exact (hframes true r.txIndex).trans hwritten
    · trivial
  · show r.accepted = (r.transmitted ++ [r.frameAt r.tdh]) ++
      ringList txCount _ ((r.tdh + 1) % txCount) ((r.tdt + txCount - (r.tdh + 1) % txCount) % txCount)
    rw [ringList_congr (d := r.frameAt) fun i _ => hframes true _, h.sound, ownedFrames, hcount,
      ringList_add, List.append_assoc]
    congr 2
    show [r.frameAt ((r.tdh + 0) % txCount)] = [r.frameAt r.tdh]
    rw [add_zero, mod_eq_of_lt h.head]

theorem RingOk.step (hfree : r.TailFree e) : RingOk (r.step e) := by
  cases e with
  | send frame => exact h.send frame
  | device => exact h.device
  | driver =>
    cases hp : r.phase with
    | tail frame => exact h.tailStep hp (hfree frame hp)
    | idle | poll | copy | describe => exact h.driver fun frame hf => by cases hp.symm.trans hf

/-- A step keeps every frame accounted for exactly when it does not move `TDT` onto `TDH`. -/
theorem RingOk.noneLost_iff : (r.step e).NoneLost ↔ r.TailFree e := by
  constructor
  · intro hsound
    cases e with
    | send frame => trivial
    | device => trivial
    | driver => exact fun frame hp hfull => h.tail_lost hp hfull hsound
  · intro hfree
    exact (h.step hfree).sound

end

/-! ### Runs -/

/-- **The transmit ring protocol.**  In every run of calls of `e1000_send` and steps of the device:
after every step each frame accepted has been transmitted or is owned by the device, and no step
stores to a descriptor or buffer the device owns, exactly when no step moves `TDT` onto `TDH`. -/
theorem transmit_ring_iff (buffers : ℕ → ℕ → UInt8) (events : List TransmitEvent) :
    Along TransmitRing.step (fun r e => (r.step e).NoneLost ∧ ∀ i, r.stores e = some i → ¬ r.Owns i)
      (TransmitRing.initial buffers) events ↔
    Along TransmitRing.step TransmitRing.TailFree (TransmitRing.initial buffers) events := by
  have hok := ringOk_initial buffers
  generalize TransmitRing.initial buffers = r at hok ⊢
  induction events generalizing r with
  | nil => exact Iff.rfl
  | cons e events ih =>
    constructor
    · intro h
      have hfree := hok.noneLost_iff.1 h.1.1
      exact ⟨hfree, (ih _ (hok.step hfree)).1 h.2⟩
    · intro h
      exact ⟨⟨hok.noneLost_iff.2 h.1, fun i hi => hok.stores_free hi⟩, (ih _ (hok.step h.1)).2 h.2⟩

/-- The events of a call of `e1000_send` that finds the `DD` bit set. -/
def sendEvents (frame : List UInt8) : List TransmitEvent :=
  [.send frame, .driver, .driver, .driver, .driver]

/-- Sixteen calls while the device is busy elsewhere. -/
def sixteenSends : List TransmitEvent :=
  (List.replicate txCount (sendEvents (List.replicate 14 0))).flatten

/-- The ring after the sixteenth of these calls. -/
def fullRing : TransmitRing := sixteenSends.foldl TransmitRing.step (TransmitRing.initial fun _ _ => 0)

/-- The sixteenth frame fills the ring, and the device takes it for empty: a frame that was accepted
is neither transmitted nor owned by the device. -/
theorem full_ring_lost :
    List.replicate 14 0 ∈ fullRing.accepted ∧ List.replicate 14 0 ∉ fullRing.transmitted ∧
      ∀ i, ¬ fullRing.Owns i := by
  have hcount : fullRing.ownedCount = 0 := by decide +kernel
  refine ⟨by decide +kernel, by decide +kernel, fun i howns => ?_⟩
  obtain ⟨j, hj, -⟩ := howns
  rw [hcount] at hj
  exact not_lt_zero j hj

end NovaOS.Net
