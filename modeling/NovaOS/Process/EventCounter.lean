import NovaOS.Process.Io

/-!
# Event counters

`read` and `write` on an eventfd, from whatever process, with whatever buffer.  An access carries the
process that makes it, with its descriptors and its memory as they are at that time; what the accesses
have in common are the object tables.

* `EventAccess object` — a read or write through a descriptor of event object `object`;
* `EventRun` — the object tables, with the sums of the values accepted and delivered;
* `access_cases` — what an access can do: fail, add the value written, or take the value delivered;
* `event_counter_conserved` — **nothing is lost and nothing is made up**, from the call of `eventfd2`
  on, after every access of every run.
-/

namespace NovaOS.Process

open NovaOS.Vm

/-- A read or write on an event object. -/
structure EventAccess (object : ℕ) where
  caller : Caller
  descriptor : ℕ
  buffer : ℕ
  count : ℕ
  writing : Bool
  has : caller.has descriptor = true
  type : (caller.process.descriptors descriptor).type = .eventfd
  refers : (caller.process.descriptors descriptor).object = object

/-- The objects of the kernel, and what was accepted and delivered so far. -/
structure EventRun where
  objects : Objects
  accepted : ℕ
  delivered : ℕ

namespace EventRun

variable {object : ℕ}

/-- The caller among the objects of the run. -/
def caller (r : EventRun) (x : EventAccess object) : Caller := { x.caller with objects := r.objects }

/-- The system call. -/
def call (r : EventRun) (x : EventAccess object) : Except Errno ℕ × Caller :=
  if x.writing then linuxWriteFile (r.caller x) x.descriptor x.buffer x.count
  else linuxRead (r.caller x) x.descriptor x.buffer x.count

/-- The value in the buffer of a write. -/
def offered (r : EventRun) (x : EventAccess object) : ℕ :=
  (((r.caller x).copyFrom x.buffer 8).map leValue).getD 0

/-- The value that a read has for its buffer. -/
def ready (r : EventRun) (object : ℕ) : ℕ :=
  if (r.objects.events object).semaphore then 1 else (r.objects.events object).counter

/-- The sums move when a call returns 8. -/
def step (r : EventRun) (x : EventAccess object) : EventRun where
  objects := (r.call x).2.objects
  accepted := if x.writing = true ∧ (r.call x).1 = .ok 8 then r.accepted + r.offered x else r.accepted
  delivered :=
    if x.writing = false ∧ (r.call x).1 = .ok 8 then r.delivered + r.ready object else r.delivered

/-- A call that fails changes no object, no process and no file; only a read that faulted may have begun
to fill its buffer, and has changed no other byte. -/
def FailsCleanly (r : EventRun) (x : EventAccess object) : Prop :=
  ∀ error, (r.call x).1 = .error error →
    ((r.call x).2 = r.caller x ∨
      x.writing = false ∧ error = .fault ∧ ∃ vm memory,
        (r.call x).2 = { r.caller x with vm := vm, memory := memory } ∧
        ∀ ext E, SpaceOk ext E x.caller.vm x.caller.memory → x.buffer + 8 ≤ 2 ^ 64 →
          CopyEffect ext x.caller.vm x.caller.memory x.buffer (leBytes 8 (r.ready object)) vm memory)

/-- What a read delivers is what is in its buffer afterwards. -/
def Delivers (r : EventRun) (x : EventAccess object) : Prop :=
  x.writing = false → (r.call x).1 = .ok 8 → ∀ ext E, SpaceOk ext E x.caller.vm x.caller.memory →
    (r.call x).2.copyFrom x.buffer 8 = some (leBytes 8 (r.ready object))

/-- After the access the counter is what was put in and not yet taken out, and fits. -/
def Conserved (initial : ℕ) (r : EventRun) (x : EventAccess object) : Prop :=
  initial + (r.step x).accepted = ((r.step x).objects.events object).counter + (r.step x).delivered ∧
    ((r.step x).objects.events object).counter ≤ 2 ^ 64 - 2

/-! ### One access -/

/-- An access of an eventfd goes to the event object. -/
theorem call_eq (r : EventRun) (x : EventAccess object) :
    r.call x = if x.writing then eventWrite (r.caller x) object x.buffer x.count
      else eventRead (r.caller x) object x.buffer x.count := by
  have hhas : ¬ (!(r.caller x).has x.descriptor) = true := by
    rw [show (r.caller x).has x.descriptor = x.caller.has x.descriptor from rfl, x.has]
    decide
  have htype : ((r.caller x).process.descriptors x.descriptor).type = .eventfd := x.type
  have hrefers : ((r.caller x).process.descriptors x.descriptor).object = object := x.refers
  have hmemfd : (r.caller x).memfd x.descriptor = none := by
    rw [Caller.memfd, if_neg]
    rintro ⟨hmem, -⟩
    rw [htype] at hmem
    cases hmem
  rw [call]
  cases x.writing with
  | true =>
    rw [if_pos rfl, if_pos rfl, linuxWriteFile, if_neg hhas]
    rw [hmemfd]
    simp only
    rw [if_pos htype, hrefers]
  | false =>
    rw [if_neg (by decide), if_neg (by decide), linuxRead, if_neg hhas]
    rw [hmemfd]
    simp only
    rw [if_pos htype, hrefers]

/-- The objects with another counter. -/
def withCounter (r : EventRun) (object counter : ℕ) : Objects :=
  let event := { r.objects.events object with counter := counter }
  { r.objects with events := Function.update r.objects.events object event }

/-- **What an access can do**: it fails, it adds what is in the buffer to the counter, or it fills the
buffer and takes that from the counter. -/
inductive Outcome (r : EventRun) (x : EventAccess object) : Prop
  | failed (error : Errno) (result : (r.call x).1 = .error error)
      (objects : (r.call x).2.objects = r.objects) (clean : r.FailsCleanly x)
  | written (writing : x.writing = true) (result : (r.call x).1 = .ok 8)
      (fits : (r.objects.events object).counter + r.offered x ≤ 2 ^ 64 - 2)
      (objects : (r.call x).2.objects =
        r.withCounter object ((r.objects.events object).counter + r.offered x))
  | read (reading : x.writing = false) (result : (r.call x).1 = .ok 8)
      (enough : r.ready object ≤ (r.objects.events object).counter)
      (objects : (r.call x).2.objects =
        r.withCounter object ((r.objects.events object).counter - r.ready object))
      (delivers : r.Delivers x)

section

variable (r : EventRun) (x : EventAccess object)

theorem write_outcome (hwriting : x.writing = true) : Outcome r x := by
  have hcall := r.call_eq x
  rw [if_pos hwriting, eventWrite] at hcall
  have hfailed : ∀ error, r.call x = (.error error, r.caller x) → Outcome r x := fun error heq =>
    .failed error (by rw [heq]) (by rw [heq]; rfl) fun _ _ => .inl (by rw [heq])
  split at hcall
  · exact hfailed _ hcall
  cases hbytes : (r.caller x).copyFrom x.buffer 8 with
  | none =>
    rw [hbytes] at hcall
    exact hfailed _ hcall
  | some bytes =>
    rw [hbytes] at hcall
    simp only at hcall
    have hoffered : r.offered x = leValue bytes := by
      rw [offered, hbytes]
      rfl
    have hlt := leValue_lt bytes
    rw [length_of_vmCopyFromUser hbytes] at hlt
    split at hcall
    · exact hfailed _ hcall
    split at hcall
    · exact hfailed _ hcall
    · rename_i hnot hroom
      have hevent : (r.caller x).objects.events object = r.objects.events object := rfl
      rw [hevent] at hroom
      refine .written hwriting (by rw [hcall]) ?_ ?_
      · omega
      · rw [hcall, hoffered]
        rfl

theorem read_outcome (hreading : x.writing = false) : Outcome r x := by
  have hcall := r.call_eq x
  rw [if_neg (by rw [hreading]; decide), eventRead] at hcall
  have hfailed : ∀ error, r.call x = (.error error, r.caller x) → Outcome r x := fun error heq =>
    .failed error (by rw [heq]) (by rw [heq]; rfl) fun _ _ => .inl (by rw [heq])
  split at hcall
  · exact hfailed _ hcall
  split at hcall
  · exact hfailed _ hcall
  rename_i hpositive
  have hevent : (r.caller x).objects.events object = r.objects.events object := rfl
  rw [hevent] at hcall hpositive
  rw [show (if (r.objects.events object).semaphore = true then 1
    else (r.objects.events object).counter) = r.ready object from rfl, Caller.copyTo] at hcall
  rcases hcopy : vmCopyToUser x.caller.vm x.buffer (leBytes 8 (r.ready object)) x.caller.memory with
    ⟨_ | _, vm, memory⟩
  · rw [show vmCopyToUser (r.caller x).vm _ _ (r.caller x).memory = _ from hcopy] at hcall
    refine .failed .fault (by rw [hcall]) (by rw [hcall]; rfl) fun error herror => .inr ?_
    rw [hcall] at herror
    refine ⟨hreading, (Except.error.inj herror).symm, vm, memory, by rw [hcall], ?_⟩
    intro ext E hspace hword
    have heffect := vmCopyToUser_effect hspace (d := leBytes 8 (r.ready object))
      (by rwa [length_leBytes])
    rwa [hcopy] at heffect
  · rw [show vmCopyToUser (r.caller x).vm _ _ (r.caller x).memory = _ from hcopy] at hcall
    refine .read hreading (by rw [hcall]) ?_ ?_ fun _ _ ext E hspace => ?_
    · rw [ready]
      split
      · omega
      · exact le_rfl
    · have hleft : (if (r.objects.events object).semaphore = true then
          (r.objects.events object).counter - 1 else 0) =
            (r.objects.events object).counter - r.ready object := by
        rw [ready]
        split
        · rfl
        · rw [Nat.sub_self]
      rw [hleft] at hcall
      rw [hcall]
      rfl
    · have hback := readBack_short hspace (d := leBytes 8 (r.ready object)) (a := x.buffer)
        (by rw [length_leBytes]; decide) (by rw [hcopy])
      rw [hcopy, length_leBytes] at hback
      rw [hcall]
      exact hback

theorem access_cases : Outcome r x := by
  cases hwriting : x.writing with
  | true => exact r.write_outcome x hwriting
  | false => exact r.read_outcome x hwriting

end

/-! ### Runs -/

/-- What was put in is in the counter or was taken out. -/
structure Balanced (object initial : ℕ) (r : EventRun) : Prop where
  sum : initial + r.accepted = (r.objects.events object).counter + r.delivered
  fits : (r.objects.events object).counter ≤ 2 ^ 64 - 2

theorem withCounter_counter (r : EventRun) (object counter : ℕ) :
    ((r.withCounter object counter).events object).counter = counter := by
  show (Function.update r.objects.events object _ object).counter = counter
  rw [Function.update_self]

theorem Balanced.step {initial : ℕ} {r : EventRun} (h : Balanced object initial r)
    (x : EventAccess object) : Balanced object initial (r.step x) := by
  have hsum := h.sum
  have hfits := h.fits
  cases r.access_cases x with
  | failed error result objects clean =>
    have hnot : ∀ writing, ¬ (x.writing = writing ∧ (r.call x).1 = .ok 8) := by
      rintro writing ⟨-, hok⟩
      rw [result] at hok
      cases hok
    refine ⟨?_, ?_⟩
    · rw [EventRun.step, if_neg (hnot true), if_neg (hnot false), objects]
      exact hsum
    · rw [EventRun.step, objects]
      exact hfits
  | written writing result fits objects =>
    have hnot : ¬ (x.writing = false ∧ (r.call x).1 = .ok 8) := by
      rw [writing]
      exact fun hc => absurd hc.1 (by decide)
    refine ⟨?_, ?_⟩
    · rw [EventRun.step, if_pos ⟨writing, result⟩, if_neg hnot, objects, withCounter_counter]
      show initial + (r.accepted + r.offered x) =
        (r.objects.events object).counter + r.offered x + r.delivered
      omega
    · rw [EventRun.step, objects, withCounter_counter]
      exact fits
  | read reading result enough objects delivers =>
    have hnot : ¬ (x.writing = true ∧ (r.call x).1 = .ok 8) := by
      rw [reading]
      exact fun hc => absurd hc.1 (by decide)
    refine ⟨?_, ?_⟩
    · rw [EventRun.step, if_neg hnot, if_pos ⟨reading, result⟩, objects, withCounter_counter]
      show initial + r.accepted =
        (r.objects.events object).counter - r.ready object + (r.delivered + r.ready object)
      omega
    · rw [EventRun.step, objects, withCounter_counter]
      omega

theorem failsCleanly (r : EventRun) (x : EventAccess object) : r.FailsCleanly x := by
  cases r.access_cases x with
  | failed error result objects clean => exact clean
  | written writing result fits objects =>
    intro error herror
    rw [result] at herror
    cases herror
  | read reading result enough objects delivers =>
    intro error herror
    rw [result] at herror
    cases herror

theorem delivers (r : EventRun) (x : EventAccess object) : r.Delivers x := by
  cases r.access_cases x with
  | failed error result objects clean =>
    intro _ hok
    rw [result] at hok
    cases hok
  | written writing result fits objects =>
    intro hreading
    rw [writing] at hreading
    cases hreading
  | read reading result enough objects delivers => exact delivers

end EventRun

/-- What `eventfd2` makes of the object of its descriptor. -/
theorem linuxEventfd2_counter {c c' : Caller} {initial flags descriptor : ℕ}
    (h : linuxEventfd2 c initial flags = (.ok descriptor, c')) :
    initial < 2 ^ 32 ∧
      (c'.objects.events (c'.process.descriptors descriptor).object).counter = initial := by
  rw [linuxEventfd2] at h
  split at h
  · cases h
  rename_i hvalid
  split at h
  · cases h
  · rename_i object _
    simp only [newDescriptor] at h
    split at h
    · cases h
    · rename_i number _
      cases h
      refine ⟨by omega, ?_⟩
      simp [Caller.setDescriptor, FileDescriptor.ofObject]

/-- **Event counters are conserved.**  From the call of `eventfd2` on, after every read or write by any
process with any buffer, what was there at first and what was written is in the counter or was read; the
counter is at most `2 ^ 64 - 2`; what a read delivers is what it finds in its buffer; and a call that
fails changes nothing. -/
theorem event_counter_conserved {c c' : Caller} {initial flags descriptor : ℕ}
    (hcreate : linuxEventfd2 c initial flags = (.ok descriptor, c'))
    (accesses : List (EventAccess (c'.process.descriptors descriptor).object)) :
    Along EventRun.step (fun r x => r.Conserved initial x ∧ r.Delivers x ∧ r.FailsCleanly x)
      ⟨c'.objects, 0, 0⟩ accesses := by
  obtain ⟨hinitial, hcounter⟩ := linuxEventfd2_counter hcreate
  refine Along.of_invariant (I := EventRun.Balanced (c'.process.descriptors descriptor).object initial)
    (fun r x h => h.step x)
    (fun r x h => ⟨⟨(h.step x).sum, (h.step x).fits⟩, r.delivers x, r.failsCleanly x⟩) ⟨?_, ?_⟩ accesses
  · rw [hcounter]
  · rw [hcounter]
    omega

/-- A process has just called `eventfd2` with the value 5. -/
def eventCaller : Caller := (linuxEventfd2 memfdCaller 5 0).2

/-- It reads, to its one page. -/
def eventReadAccess : EventAccess (eventCaller.process.descriptors 3).object where
  caller := eventCaller
  descriptor := 3
  buffer := vmUserBase
  count := 8
  writing := false
  has := rfl
  type := rfl
  refers := rfl

/-- The value is read once, and a second read finds nothing. -/
theorem event_counter_conserved_five :
    Along EventRun.step (fun r x => r.Conserved 5 x ∧ r.Delivers x ∧ r.FailsCleanly x)
      ⟨eventCaller.objects, 0, 0⟩ [eventReadAccess, eventReadAccess] ∧
    ((⟨eventCaller.objects, 0, 0⟩ : EventRun).step eventReadAccess).delivered = 5 := by
  have hcreate : linuxEventfd2 memfdCaller 5 0 = (.ok 3, eventCaller) := rfl
  exact ⟨event_counter_conserved hcreate [eventReadAccess, eventReadAccess], by decide +kernel⟩

end NovaOS.Process
