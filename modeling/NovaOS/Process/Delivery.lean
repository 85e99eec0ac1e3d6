import NovaOS.Process.Futex
import NovaOS.Process.Signals

/-!
# Delivering signals

`deliver_signal` of `kernel/process.c` pushes the saved registers of a process on its user stack, in a
`LinuxSignalFrame` below which it puts the address of the restorer, and has the process go on in the
handler.  The handler returns to the restorer, whose `rt_sigreturn` finds the frame at the stack pointer.

* `finishProcess`, `pushFrame`, `deliverSignal` — the functions of the source;
* `deliverSignal_starts` — what the handler finds in its registers and on its stack;
* `linuxRtSigreturn`, `sigreturnEntry` — the system call, up to the registers it leaves;
* `deliverSignal_below` — a delivery below the frame of an outer handler leaves it alone;
* `sigreturn_restores` — with their frames unmodified, handlers return to the registers they have
  interrupted, the last one first.
-/

namespace NovaOS.Process

open NovaOS.Vm Function List

/-! ### The end of a process -/

/-- `vm_copy_to_user` into an address space. -/
def Kernel.copyTo (k : Kernel) (i address : ℕ) (bytes : List UInt8) : Bool × Kernel :=
  match k.spaces i with
  | none => (false, k)
  | some space =>
    match vmCopyToUser space.vm address bytes k.memory with
    | (ok, vm, memory) =>
      (ok, { k with
        spaces := update k.spaces i (some { space with vm := vm })
        memory := memory })

/-- `vm_copy_from_user` from the address space of a slot. -/
def Kernel.copyFrom (k : Kernel) (slot address size : ℕ) : Option (List UInt8) :=
  match k.spaceOf slot with
  | none => none
  | some (_, space) => vmCopyFromUser space.vm address size k.memory

/-- The loop of `finish_process`: who sleeps on the address runs again. -/
def wakeWaiters (space : Option ℕ) (address : ℕ) (processes : ℕ → Process) (index : ℕ) : Process :=
  if index < maxProcesses ∧ isWaiter space address (processes index) then
    { processes index with state := .running }
  else processes index

/-- `finish_process`. -/
def finishProcess (k : Kernel) (slot code : ℕ) : Kernel :=
  let process := k.processes slot
  let k := k.setProcess slot { process with exitCode := code, state := .zombie }
  let k := match process.addressSpace with
    | none => k
    | some i => if process.clearChildTid = 0 then k else (k.copyTo i process.clearChildTid (leBytes 4 0)).2
  { k with processes := wakeWaiters process.addressSpace process.clearChildTid k.processes }

/-! ### Delivery -/

def contextRax : ℕ := 14

def signalFrameMagic : ℕ := 0x4E4F56415349474E

/-- The bytes of a `LinuxSignalFrame`. -/
def signalFrame (context : Context) : List UInt8 :=
  wordBytes (signalFrameMagic :: (List.range 18).map context)

/-- The first pending signal; bit 0 stands for none. -/
def pendingSignal (pending : ℕ) : Option ℕ :=
  (List.range' 1 31).find? fun signal => pending.testBit signal

/-- The stack of the handler: below the frame, at the beginning of a page. -/
def signalStack (context : Context) : ℕ := alignDown ((context contextRsp + 2 ^ 64 - 160) % 2 ^ 64)

/-- The registers a handler starts with. -/
def handlerContext (context : Context) (handler signal : ℕ) : Context :=
  update (update (update context contextRip handler)
    contextRsp (signalStack context)) contextRdi signal

/-- The frame and the return address are written to the stack of a process. -/
def pushFrame (k : Kernel) (slot restorer : ℕ) : Bool × Kernel :=
  let process := k.processes slot
  let stack := signalStack process.context
  match process.addressSpace with
  | none => (false, k)
  | some i =>
    match k.copyTo i ((stack + 8) % 2 ^ 64) (signalFrame process.context) with
    | (false, k) => (false, k)
    | (true, k) => k.copyTo i stack (leBytes 8 restorer)

/-- The signal that `deliver_signal` finds pending. -/
def deliverable (process : Process) : Option ℕ :=
  if process.pendingSignals = 0 ∨ process.state ≠ .running then none
  else pendingSignal process.pendingSignals

/-- The bit of a pending signal is cleared. -/
def Kernel.takeSignal (k : Kernel) (slot signal : ℕ) : Kernel :=
  k.modifyProcess slot fun process =>
    { process with pendingSignals := process.pendingSignals ^^^ 2 ^ signal }

/-- `deliver_signal`. -/
def deliverSignal (k : Kernel) (slot : ℕ) : Kernel :=
  match deliverable (k.processes slot) with
  | none => k
  | some signal =>
    let action := (k.processes slot).signalActions signal
    let k := k.takeSignal slot signal
    if action.handler = 1 then k
    else if action.handler = 0 then finishProcess k slot (128 + signal)
    else
      match pushFrame k slot action.restorer with
      | (false, k) => finishProcess k slot (128 + signal)
      | (true, k) => k.modifyProcess slot fun process =>
        { process with context := handlerContext process.context action.handler signal }

/-- A handler is started. -/
def startsHandler (k : Kernel) (slot : ℕ) : Bool :=
  match deliverable (k.processes slot) with
  | none => false
  | some signal =>
    let action := (k.processes slot).signalActions signal
    1 < action.handler && (pushFrame (k.takeSignal slot signal) slot action.restorer).1

/-! ### The frame on the stack -/

section Frame

variable {s s₁ s₂ : VmSpace} {m m₁ m₂ : Memory} {a : ℕ} {x y : List UInt8}

/-- A copy inside one page that succeeds: the page is made private and stored to. -/
theorem vmCopyToUser_inPage (hx : x ≠ []) (hfits : a % 4096 + x.length ≤ 4096)
    (h : vmCopyToUser s a x m = (true, s₁, m₁)) :
    ∃ e m', findPage s a = some e ∧ canWrite (s.pages e).protection = true ∧
      makePrivate s e m = (true, s₁, m') ∧
      m₁ = storeBytes m' (frameData m' (s₁.pages e).frame) (a % 4096) x := by
  rw [vmCopyToUser_round s a m hx] at h
  cases hf : findPage s a with
  | none =>
    rw [hf] at h
    cases h
  | some e =>
    rw [hf] at h
    simp only at h
    cases hw : canWrite (s.pages e).protection with
    | false =>
      rw [hw] at h
      cases h
    | true =>
      rw [hw] at h
      rcases hmk : makePrivate s e m with ⟨_ | _, s', m'⟩
      · rw [hmk] at h
        cases h
      · rw [hmk] at h
        simp only [copyRound] at h
        rw [min_eq_right (by omega), drop_length, take_length, vmCopyToUser_nil] at h
        cases h
        exact ⟨e, m', rfl, hw, hmk, rfl⟩

theorem vmCopyFromUser_inPage {e n : ℕ} (hn : 0 < n) (hfits : a % 4096 + n ≤ 4096)
    (he : findPage s a = some e) :
    vmCopyFromUser s a n m = some (readBytes (m.bytes (frameData m (s.pages e).frame)) (a % 4096) n) := by
  rw [vmCopyFromUser_round _ _ _ hn, he]
  simp only
  rw [Nat.min_eq_right (by omega), Nat.sub_self]
  exact congrArg some (append_nil _)

/-- What is copied to the beginning of a page is there, and so is what was copied behind it before. -/
theorem pushed_read (ha : a % 4096 = 0) (hlow : a < 2 ^ 64) (hy : y ≠ [])
    (hfits : x.length + y.length ≤ 4096) (hx : x ≠ [])
    (hfirst : vmCopyToUser s (a + x.length) y m = (true, s₁, m₁))
    (hsecond : vmCopyToUser s₁ a x m₁ = (true, s₂, m₂)) :
    vmCopyFromUser s₂ a x.length m₂ = some x ∧
      vmCopyFromUser s₂ (a + x.length) y.length m₂ = some y := by
  have hxpos := length_pos_iff.2 hx
  have hypos := length_pos_iff.2 hy
  have hoffset : (a + x.length) % 4096 = x.length := by omega
  obtain ⟨e, m', hfind, -, hmk, rfl⟩ := vmCopyToUser_inPage hy (by omega) hfirst
  obtain ⟨hsame, -, hagain⟩ := makePrivate_again hmk
  obtain ⟨e', m'', hfind', -, hmk', rfl⟩ := vmCopyToUser_inPage hx (by omega) hsecond
  have hnext : findPage s₁ (a + x.length) = some e := by rw [hsame, hfind]
  have he : findPage s₁ a = some e := by
    have hadd := findPage_add s₁ hlow (by omega : a % 4096 + x.length < 4096)
    rw [Nat.mod_eq_of_lt (by omega)] at hadd
    exact hadd.symm.trans hnext
  obtain rfl : e = e' := Option.some.inj (he.symm.trans hfind')
  rw [hagain] at hmk'
  cases hmk'
  rw [vmCopyFromUser_inPage hxpos (by omega) he, vmCopyFromUser_inPage hypos (by omega) hnext]
  simp only [storeBytes, frameData, update_self, ha, hoffset]
  refine ⟨congrArg some readBytes_writeBytes_self, congrArg some ?_⟩
  rw [readBytes_writeBytes (.inr (by omega)), readBytes_writeBytes_self]

theorem length_signalFrame (context : Context) : (signalFrame context).length = 152 := by
  simp [signalFrame, wordBytes, comp_def]

theorem signalStack_spec (context : Context) :
    signalStack context % 4096 = 0 ∧ signalStack context + 4096 ≤ 2 ^ 64 := by
  unfold signalStack alignDown
  omega

theorem pushFrame_copies {k k' : Kernel} {slot restorer : ℕ}
    (h : pushFrame k slot restorer = (true, k')) :
    ∃ i space s₁ m₁ s₂ m₂, k.spaceOf slot = some (i, space) ∧ k'.processes = k.processes ∧
      vmCopyToUser space.vm (signalStack (k.processes slot).context + 8)
        (signalFrame (k.processes slot).context) k.memory = (true, s₁, m₁) ∧
      vmCopyToUser s₁ (signalStack (k.processes slot).context) (leBytes 8 restorer) m₁ = (true, s₂, m₂) ∧
      ∀ address size, k'.copyFrom slot address size = vmCopyFromUser s₂ address size m₂ := by
  have hstack := signalStack_spec (k.processes slot).context
  rw [pushFrame, Nat.mod_eq_of_lt (by omega)] at h
  split at h
  · cases h
  · rename_i i hi
    generalize signalFrame (k.processes slot).context = frame at h ⊢
    generalize signalStack (k.processes slot).context = stack at h ⊢
    cases hs : k.spaces i with
    | none =>
      simp only [Kernel.copyTo, hs] at h
      cases h
    | some space =>
      rcases hfirst : vmCopyToUser space.vm (stack + 8) frame k.memory with ⟨_ | _, s₁, m₁⟩
      · simp only [Kernel.copyTo, hs, hfirst] at h
        cases h
      · rcases hsecond : vmCopyToUser s₁ stack (leBytes 8 restorer) m₁ with ⟨_ | _, s₂, m₂⟩
        · simp only [Kernel.copyTo, hs, hfirst, update_self, hsecond] at h
          cases h
        · simp only [Kernel.copyTo, hs, hfirst, update_self, hsecond, Prod.mk.injEq, true_and] at h
          subst h
          refine ⟨i, space, s₁, m₁, s₂, m₂, ?_, rfl, hfirst, hsecond, fun address size => ?_⟩
          · rw [Kernel.spaceOf, hi]
            simp only [hs, Option.map_some]
          · rw [Kernel.copyFrom, Kernel.spaceOf]
            simp only [hi, update_self, Option.map_some]

end Frame

/-! ### The way back -/

/-- `LINUX_SYS_RT_SIGRETURN` on the saved registers; the result is `RAX` of the frame, or `-EFAULT`. -/
def linuxRtSigreturn (k : Kernel) (slot : ℕ) (context : Context) : ℕ × Context :=
  match k.copyFrom slot (context contextRsp) 152 with
  | none => (2 ^ 64 - 14, context)
  | some frame =>
    let words := bytesWords 19 frame
    if words.getD 0 0 ≠ signalFrameMagic then (2 ^ 64 - 14, context)
    else (words.getD (contextRax + 1) 0, fun register => words.getD (register + 1) 0)

/-- `linux_syscall_entry` for `rt_sigreturn`: the result goes to the saved `RAX`, and `process_schedule`
gives the saved registers back to the process. -/
def sigreturnEntry (k : Kernel) (slot : ℕ) (context : Context) : Kernel :=
  match linuxRtSigreturn k slot context with
  | (result, saved) =>
    { k.modifyProcess slot fun process =>
      { process with context := update saved contextRax result } with currentSlot := none }

theorem sigreturnEntry_copyFrom (k : Kernel) (slot : ℕ) (context : Context) (address size : ℕ) :
    (sigreturnEntry k slot context).copyFrom slot address size = k.copyFrom slot address size := by
  simp only [sigreturnEntry, Kernel.copyFrom, Kernel.spaceOf, Kernel.modifyProcess, Kernel.setProcess,
    update_self]

theorem signalFrame_words {context : Context} (h : ∀ r, r < 18 → context r < 2 ^ 64) {r : ℕ} (hr : r < 18) :
    (bytesWords 19 (signalFrame context)).getD 0 0 = signalFrameMagic ∧
      (bytesWords 19 (signalFrame context)).getD (r + 1) 0 = context r := by
  have hwords : ∀ word ∈ signalFrameMagic :: (List.range 18).map context, word < 2 ^ 64 := by
    intro word hword
    obtain rfl | hword := mem_cons.1 hword
    · decide
    · obtain ⟨r, hr, rfl⟩ := mem_map.1 hword
      exact h r (mem_range.1 hr)
  have hback := bytesWords_wordBytes hwords
  rw [length_cons, length_map, length_range] at hback
  rw [signalFrame, hback, getD_cons_succ]
  refine ⟨rfl, ?_⟩
  rw [getD_eq_getElem _ _ (by simpa using hr), getElem_map, getElem_range]

/-- `rt_sigreturn` with the frame of a context at the stack pointer. -/
theorem sigreturnEntry_context {k : Kernel} {slot : ℕ} {context saved : Context}
    (hread : k.copyFrom slot (context contextRsp) 152 = some (signalFrame saved))
    (hwords : ∀ r, r < 18 → saved r < 2 ^ 64) {r : ℕ} (hr : r < 18) :
    ((sigreturnEntry k slot context).processes slot).context r = saved r := by
  have hcall : linuxRtSigreturn k slot context =
      ((bytesWords 19 (signalFrame saved)).getD (contextRax + 1) 0,
        fun r => (bytesWords 19 (signalFrame saved)).getD (r + 1) 0) := by
    rw [linuxRtSigreturn, hread]
    exact if_neg (not_not.2 (signalFrame_words hwords hr).1)
  rw [sigreturnEntry, hcall]
  simp only [Kernel.modifyProcess, Kernel.setProcess, update_self]
  by_cases hrax : r = contextRax
  · rw [hrax, update_self]
    exact (signalFrame_words hwords (by decide)).2
  · rw [update_of_ne hrax]
    exact (signalFrame_words hwords hr).2

/-! ### Nested handlers -/

/-- The registers of a process do not matter for its memory. -/
theorem Kernel.copyFrom_modify (k : Kernel) (slot : ℕ) {f : Process → Process}
    (hf : (f (k.processes slot)).addressSpace = (k.processes slot).addressSpace) (address size : ℕ) :
    (k.modifyProcess slot f).copyFrom slot address size = k.copyFrom slot address size := by
  simp only [copyFrom, spaceOf, modifyProcess, setProcess, update_self, hf]

/-- What a handler finds: its address and the signal in the registers, the others as they were, the
restorer at the stack pointer and the frame behind it. -/
def HandlerStarts (k : Kernel) (slot : ℕ) : Prop :=
  ∃ signal, deliverable (k.processes slot) = some signal ∧
    let action := (k.processes slot).signalActions signal
    let context := ((deliverSignal k slot).processes slot).context
    context contextRip = action.handler ∧ context contextRdi = signal ∧
      (∀ r, r ≠ contextRip → r ≠ contextRdi → r ≠ contextRsp → context r = (k.processes slot).context r) ∧
      (deliverSignal k slot).copyFrom slot (context contextRsp) 8 = some (leBytes 8 action.restorer) ∧
      (deliverSignal k slot).copyFrom slot (context contextRsp + 8) 152 =
        some (signalFrame (k.processes slot).context)

section Deliver

variable {k : Kernel} {slot : ℕ}

theorem takeSignal_process (k : Kernel) (slot signal : ℕ) :
    ((k.takeSignal slot signal).processes slot).context = (k.processes slot).context ∧
      (k.takeSignal slot signal).spaceOf slot = k.spaceOf slot := by
  simp only [Kernel.takeSignal, Kernel.spaceOf, Kernel.modifyProcess, Kernel.setProcess, update_self,
    and_self]

/-- The way through `deliver_signal` that starts a handler. -/
theorem deliverSignal_started (h : startsHandler k slot = true) :
    ∃ signal k', deliverable (k.processes slot) = some signal ∧
      let action := (k.processes slot).signalActions signal
      pushFrame (k.takeSignal slot signal) slot action.restorer = (true, k') ∧
      deliverSignal k slot = k'.modifyProcess slot fun process =>
        { process with context := handlerContext process.context action.handler signal } := by
  rw [startsHandler] at h
  rw [deliverSignal]
  cases hsignal : deliverable (k.processes slot) with
  | none =>
    rw [hsignal] at h
    cases h
  | some signal =>
    rw [hsignal] at h
    simp only [Bool.and_eq_true, decide_eq_true_eq] at h
    obtain ⟨hhandler, hpushed⟩ := h
    rcases hpush : pushFrame (k.takeSignal slot signal) slot
      ((k.processes slot).signalActions signal).restorer with ⟨ok, k'⟩
    obtain rfl : ok = true := by rwa [hpush] at hpushed
    refine ⟨signal, k', rfl, hpush, ?_⟩
    simp only
    rw [if_neg (by omega), if_neg (by omega), hpush]

theorem deliverSignal_stack (h : startsHandler k slot = true) :
    ((deliverSignal k slot).processes slot).context contextRsp =
      signalStack (k.processes slot).context := by
  obtain ⟨signal, k', -, hpush, hdeliver⟩ := deliverSignal_started h
  obtain ⟨-, -, -, -, -, -, -, hprocesses, -⟩ := pushFrame_copies hpush
  rw [hdeliver, Kernel.modifyProcess, Kernel.setProcess]
  simp only [update_self, hprocesses, (takeSignal_process k slot signal).1, handlerContext]
  rw [update_of_ne (by decide), update_self]

/-- **A handler starts** with its frame on the stack. -/
theorem deliverSignal_starts (h : startsHandler k slot = true) : HandlerStarts k slot := by
  have hstack := deliverSignal_stack h
  obtain ⟨signal, k', hsignal, hpush, hdeliver⟩ := deliverSignal_started h
  obtain ⟨i, space, s₁, m₁, s₂, m₂, -, hprocesses, hfirst, hsecond, hread⟩ := pushFrame_copies hpush
  have hcontext := (takeSignal_process k slot signal).1
  rw [hcontext] at hfirst hsecond
  have hspec := signalStack_spec (k.processes slot).context
  have hlength := length_signalFrame (k.processes slot).context
  have hframe : signalFrame (k.processes slot).context ≠ [] := ne_nil_of_length_pos (by omega)
  have hpushed := pushed_read hspec.1 (by omega) hframe
    (by rw [length_leBytes, hlength]; decide) (ne_nil_of_length_pos (by simp))
    (by rw [length_leBytes]; exact hfirst) hsecond
  rw [length_leBytes, hlength, ← hread, ← hread] at hpushed
  refine ⟨signal, hsignal, ?_⟩
  simp only [hstack]
  rw [hdeliver, Kernel.copyFrom_modify _ _ rfl, Kernel.copyFrom_modify _ _ rfl]
  simp only [Kernel.modifyProcess, Kernel.setProcess, update_self, hprocesses, hcontext, handlerContext]
  refine ⟨?_, trivial, fun r hrip hrdi hrsp => ?_, hpushed⟩
  · rw [update_of_ne (by decide), update_of_ne (by decide), update_self]
  · rw [update_of_ne hrdi, update_of_ne hrsp, update_of_ne hrip]

end Deliver

/-- A handler that has not returned: the registers it has interrupted, and its stack pointer. -/
structure Interrupted where
  context : Context
  stack : ℕ

/-- The frame of a handler, as its process can read it. -/
def Kernel.frameOf (k : Kernel) (slot : ℕ) (h : Interrupted) : Option (List UInt8) :=
  k.copyFrom slot (h.stack + 8) 152

/-- The process was interrupted with its stack pointer below the frame of a handler, and stores to the
page where the next frame goes do not show on that of the handler. -/
def Kernel.Below (k : Kernel) (slot : ℕ) (h : Interrupted) : Prop :=
  (k.processes slot).context contextRsp < h.stack + 160 ∧
    ∃ i space ext E, k.spaceOf slot = some (i, space) ∧ SpaceOk ext E space.vm k.memory ∧
      ∀ p q, pageAt space.vm (signalStack (k.processes slot).context) = some p →
        pageAt space.vm h.stack = some q → p.copyOnWrite = false → p.frame ≠ q.frame

/-- **Nested frames do not overlap**: a delivery below the frame of a handler leaves it alone. -/
theorem deliverSignal_below {k : Kernel} {slot : ℕ} {h : Interrupted} (hstarts : startsHandler k slot = true)
    (hbelow : k.Below slot h) (haligned : h.stack % 4096 = 0) (hlow : h.stack + 160 ≤ 2 ^ 64)
    (hframe : k.frameOf slot h = some (signalFrame h.context)) :
    (deliverSignal k slot).frameOf slot h = some (signalFrame h.context) := by
  obtain ⟨hrsp, i, space, ext, E, hspace, hok, hframes⟩ := hbelow
  obtain ⟨signal, k', -, hpush, hdeliver⟩ := deliverSignal_started hstarts
  obtain ⟨i', space', s₁, m₁, s₂, m₂, hspace', -, hfirst, hsecond, hread⟩ := pushFrame_copies hpush
  obtain ⟨hcontext, hsame⟩ := takeSignal_process k slot signal
  rw [hsame, hspace] at hspace'
  cases hspace'
  rw [hcontext] at hfirst hsecond
  have hmemory : (k.takeSignal slot signal).memory = k.memory := rfl
  rw [hmemory] at hfirst
  have hspec := signalStack_spec (k.processes slot).context
  have hlength := length_signalFrame (k.processes slot).context
  -- the page is mapped, so the stack pointer has not wrapped
  have hmapped : signalStack (k.processes slot).context + 8 < 2 ^ 47 := by
    obtain ⟨e, -, hfind, -⟩ :=
      vmCopyToUser_inPage (ne_nil_of_length_pos (by omega)) (by omega) hfirst
    exact hok.low_of_page (p := space.vm.pages e) (by rw [pageAt, hfind]; rfl)
  have hstack : signalStack (k.processes slot).context < h.stack := by
    unfold signalStack alignDown at hmapped ⊢
    omega
  have hbeside : Beside space.vm (signalStack (k.processes slot).context) h.stack :=
    ⟨by unfold alignDown; omega, hframes⟩
  obtain ⟨hok₁, hbeside₁, hbytes₁⟩ := hbeside.copy (d := signalFrame (k.processes slot).context)
    (b := signalStack (k.processes slot).context + 8) hok
    (fun j hj => by unfold alignDown; omega) (by omega)
  rw [hfirst] at hok₁ hbeside₁ hbytes₁
  obtain ⟨-, -, hbytes₂⟩ := hbeside₁.copy
    (d := leBytes 8 ((k.processes slot).signalActions signal).restorer)
    (b := signalStack (k.processes slot).context) hok₁
    (fun j hj => by rw [length_leBytes] at hj; unfold alignDown; omega)
    (by rw [length_leBytes]; omega)
  rw [hsecond] at hbytes₂
  rw [Kernel.frameOf, Kernel.copyFrom, hspace] at hframe
  rw [Kernel.frameOf, hdeliver, Kernel.copyFrom_modify _ _ rfl, hread]
  refine (vmCopyFromUser_congr (by omega) fun j hj => ?_).trans hframe
  have hpage : alignDown (h.stack + 8 + j) = alignDown h.stack := by
    unfold alignDown
    omega
  exact (hbytes₂ _ hpage).trans (hbytes₁ _ hpage)

/-- The handlers of a slot that have not returned, the last one first, and the kernel after the last
event. -/
structure SignalRun where
  kernel : Kernel
  handlers : List Interrupted

/-- A handler is started, or `rt_sigreturn` is called with some saved registers.  Anything may happen in
between: an event comes with the kernel it happens in. -/
inductive SignalEvent
  | deliver (k : Kernel)
  | sigreturn (k : Kernel) (context : Context)

namespace SignalRun

/-- The stack of a handler is the one it was given. -/
def step (slot : ℕ) (r : SignalRun) : SignalEvent → SignalRun
  | .deliver k =>
    ⟨deliverSignal k slot, ⟨(k.processes slot).context,
      ((deliverSignal k slot).processes slot).context contextRsp⟩ :: r.handlers⟩
  | .sigreturn k context => ⟨sigreturnEntry k slot context, r.handlers.tail⟩

/-- Nothing has modified the frames since the last event, and a nested delivery comes below them or
leaves them unmodified as well.  A handler calls `rt_sigreturn` from the restorer, to which its `ret` has
popped the return address. -/
def Unmodified (slot : ℕ) (r : SignalRun) : SignalEvent → Prop
  | .deliver k =>
    startsHandler k slot = true ∧ (∀ i, i < 18 → (k.processes slot).context i < 2 ^ 64) ∧
      ∀ h ∈ r.handlers, k.frameOf slot h = r.kernel.frameOf slot h ∧
        (k.Below slot h ∨ (deliverSignal k slot).frameOf slot h = k.frameOf slot h)
  | .sigreturn k context =>
    (∀ h ∈ r.handlers, k.frameOf slot h = r.kernel.frameOf slot h) ∧
      ∀ h ∈ r.handlers.head?, context contextRsp = h.stack + 8

/-- A delivery starts the handler, and `rt_sigreturn` gives back the registers that the last handler has
interrupted. -/
def Restores (slot : ℕ) (r : SignalRun) : SignalEvent → Prop
  | .deliver k => HandlerStarts k slot
  | .sigreturn k context => ∀ h ∈ r.handlers.head?, ∀ i, i < 18 →
    ((sigreturnEntry k slot context).processes slot).context i = h.context i

/-- Every handler has its frame. -/
def FramesKept (slot : ℕ) (r : SignalRun) : Prop :=
  ∀ h ∈ r.handlers, r.kernel.frameOf slot h = some (signalFrame h.context) ∧
    (∀ i, i < 18 → h.context i < 2 ^ 64) ∧ h.stack % 4096 = 0 ∧ h.stack + 160 ≤ 2 ^ 64

theorem FramesKept.step {slot : ℕ} {r : SignalRun} (hr : FramesKept slot r) {e : SignalEvent}
    (he : r.Unmodified slot e) : FramesKept slot (r.step slot e) := by
  cases e with
  | deliver k =>
    obtain ⟨hstarts, hwords, hothers⟩ := he
    obtain ⟨signal, -, -, -, -, -, hframe⟩ := deliverSignal_starts hstarts
    have hspec := signalStack_spec (k.processes slot).context
    rw [← deliverSignal_stack hstarts] at hspec
    have hlow := (Nat.add_le_add_left (by decide : 160 ≤ 4096) _).trans hspec.2
    refine forall_mem_cons.2 ⟨⟨hframe, hwords, hspec.1, hlow⟩, fun h hmem => ?_⟩
    obtain ⟨hkept, hwords, haligned, hlow⟩ := hr h hmem
    obtain ⟨hsame, hnested⟩ := hothers h hmem
    refine ⟨?_, hwords, haligned, hlow⟩
    rcases hnested with hbelow | hleft
    · exact deliverSignal_below hstarts hbelow haligned hlow (hsame.trans hkept)
    · exact hleft.trans (hsame.trans hkept)
  | sigreturn k context =>
    intro h hmem
    obtain ⟨hkept, hrest⟩ := hr h (mem_of_mem_tail hmem)
    refine ⟨?_, hrest⟩
    rw [← hkept, ← he.1 h (mem_of_mem_tail hmem)]
    exact sigreturnEntry_copyFrom k slot context _ _

theorem FramesKept.restores {slot : ℕ} {r : SignalRun} (hr : FramesKept slot r) {e : SignalEvent}
    (he : r.Unmodified slot e) : r.Restores slot e := by
  cases e with
  | deliver k => exact deliverSignal_starts he.1
  | sigreturn k context =>
    intro h hhead i hi
    have hmem : h ∈ r.handlers := mem_of_mem_head? hhead
    obtain ⟨hkept, hwords, -⟩ := hr h hmem
    refine sigreturnEntry_context ?_ hwords hi
    rw [he.2 h hhead]
    exact (he.1 h hmem).trans hkept

end SignalRun

/-- **A handler returns to what it has interrupted.**  Signals are delivered to a process and handlers
return, in any order and in whatever states of the kernel, and nothing but deliveries below them touches
the frames of handlers that have not returned.  Then every handler starts with its arguments, the restorer
and its frame on the stack, and every `rt_sigreturn` gives back all eighteen registers of the delivery,
the last one first. -/
theorem sigreturn_restores (slot : ℕ) (k : Kernel) (events : List SignalEvent)
    (hunmodified : Along (SignalRun.step slot) (SignalRun.Unmodified slot) ⟨k, []⟩ events) :
    Along (SignalRun.step slot) (SignalRun.Restores slot) ⟨k, []⟩ events :=
  Along.imp_of_invariant (I := SignalRun.FramesKept slot) (fun _ _ hr he => hr.step he)
    (fun _ _ hr he => hr.restores he) (fun _ hmem => absurd hmem not_mem_nil) hunmodified

/-- Two pages for the stack of a process, and what has been pushed there. -/
def signalWorld (copies : List VmOp) : World :=
  (World.initial stridedChoices fun _ _ => 0).run
    ([.create, .mapPage 0 vmUserBase 3, .mapPage 0 (vmUserBase + 4096) 3] ++ copies)

/-- The process with some stack pointer, a handler for every signal and signal 10 pending. -/
def signalKernel (copies : List VmOp) (rsp : ℕ) : Kernel :=
  { Kernel.initial stridedChoices (fun _ _ => 0) (memfdCaller.volume) with
    processes := fun _ => { Process.zero with
      used := true
      state := .running
      addressSpace := some 0
      pendingSignals := 2 ^ 10
      signalActions := fun _ => ⟨0x40001000, 0, 0x40002000, 0⟩
      context := fun r => if r = contextRsp then rsp else r }
    spaces := fun i => ((signalWorld copies).spaces i).map fun vm => ⟨vm, 1, [], 0, 0, 0, 0⟩
    memory := (signalWorld copies).memory }

/-- The kernel before the first delivery. -/
def outerKernel : Kernel := signalKernel [] (vmUserBase + 8192)

/-- The kernel before the nested one. -/
def innerKernel : Kernel := signalKernel
  [.copyToUser 0 (vmUserBase + 4096 + 8) (signalFrame (outerKernel.processes 0).context)]
  (vmUserBase + 4096)

/-- The registers of a restorer. -/
def restorerContext (stack : ℕ) : Context := update (fun _ => 0) contextRsp (stack + 8)

/-- A handler is interrupted by another one, and both return. -/
def nestedEvents (outer inner : Kernel) (slot : ℕ) : List SignalEvent :=
  [.deliver outer, .deliver inner,
    .sigreturn (deliverSignal inner slot) (restorerContext (signalStack (inner.processes slot).context)),
    .sigreturn (deliverSignal inner slot) (restorerContext (signalStack (outer.processes slot).context))]

theorem nestedEvents_unmodified {outer inner : Kernel} {slot : ℕ} (houter : startsHandler outer slot = true)
    (hinner : startsHandler inner slot = true)
    (hwords : ∀ i, i < 18 → (outer.processes slot).context i < 2 ^ 64)
    (hwords' : ∀ i, i < 18 → (inner.processes slot).context i < 2 ^ 64)
    (hframe : inner.frameOf slot
      ⟨(outer.processes slot).context, signalStack (outer.processes slot).context⟩ =
        some (signalFrame (outer.processes slot).context))
    (hbelow : inner.Below slot
      ⟨(outer.processes slot).context, signalStack (outer.processes slot).context⟩) :
    Along (SignalRun.step slot) (SignalRun.Unmodified slot) ⟨outer, []⟩ (nestedEvents outer inner slot) := by
  obtain ⟨-, -, -, -, -, -, hpushed⟩ := deliverSignal_starts houter
  rw [← deliverSignal_stack houter] at hframe hbelow
  refine ⟨⟨houter, hwords, fun h hmem => absurd hmem not_mem_nil⟩,
    ⟨hinner, hwords', fun h hmem => ?_⟩, ⟨fun _ _ => rfl, fun h hmem => ?_⟩,
    ⟨fun h _ => ?_, fun h hmem => ?_⟩, trivial⟩
  · obtain rfl := mem_singleton.1 hmem
    exact ⟨hframe.trans hpushed.symm, .inl hbelow⟩
  · cases hmem
    exact congrArg (· + 8) (deliverSignal_stack hinner).symm
  · exact (sigreturnEntry_copyFrom ..).symm
  · cases hmem
    exact congrArg (· + 8) (deliverSignal_stack houter).symm

theorem signalKernel_words (copies : List VmOp) {rsp : ℕ} (hrsp : rsp < 2 ^ 64) (i : ℕ) (hi : i < 18) :
    ((signalKernel copies rsp).processes 0).context i < 2 ^ 64 := by
  show (if i = contextRsp then rsp else i) < 2 ^ 64
  split
  · exact hrsp
  · omega

/-- The space of the process with the frame pushed. -/
theorem signalWorld_copy {s : VmSpace} (hs : (signalWorld []).spaces 0 = some s) (a : ℕ) (d : List UInt8) :
    (signalWorld [.copyToUser 0 a d]).spaces 0 = some (vmCopyToUser s a d (signalWorld []).memory).2.1 ∧
      (signalWorld [.copyToUser 0 a d]).memory = (vmCopyToUser s a d (signalWorld []).memory).2.2 := by
  have hrun : signalWorld [.copyToUser 0 a d] = (signalWorld []).step (.copyToUser 0 a d) := rfl
  rw [hrun, World.step, World.onSpace, hs]
  exact ⟨World.put_self .., rfl⟩

theorem signalKernel_space {copies : List VmOp} (rsp : ℕ) {s : VmSpace}
    (hs : (signalWorld copies).spaces 0 = some s) :
    (signalKernel copies rsp).spaces 0 = some ⟨s, 1, [], 0, 0, 0, 0⟩ ∧
      (signalKernel copies rsp).spaceOf 0 = some (0, ⟨s, 1, [], 0, 0, 0, 0⟩) := by
  simp only [Kernel.spaceOf, signalKernel, hs, Option.map_some, and_self]

/-- The outer frame is there, and the nested one goes to a page with another frame. -/
theorem innerKernel_below :
    innerKernel.frameOf 0 ⟨(outerKernel.processes 0).context, vmUserBase + 4096⟩ =
        some (signalFrame (outerKernel.processes 0).context) ∧
      innerKernel.Below 0 ⟨(outerKernel.processes 0).context, vmUserBase + 4096⟩ := by
  obtain ⟨s, hs⟩ : ∃ s, (signalWorld []).spaces 0 = some s :=
    Option.isSome_iff_exists.1 (by decide +kernel)
  have hsent : ((signalWorld []).spaces 0).map (fun s => (vmCopyToUser s (vmUserBase + 4096 + 8)
      (signalFrame (outerKernel.processes 0).context) (signalWorld []).memory).1) = some true := by
    decide +kernel
  have hframes : (innerKernel.spaces 0).bind (fun space => (pageAt space.vm vmUserBase).map VmPage.frame) ≠
      (innerKernel.spaces 0).bind (fun space => (pageAt space.vm (vmUserBase + 4096)).map VmPage.frame) := by
    decide +kernel
  have hrsp : (innerKernel.processes 0).context contextRsp < vmUserBase + 4096 + 160 := by decide +kernel
  have hnext : signalStack (innerKernel.processes 0).context = vmUserBase := by decide +kernel
  have hworld : ∀ copies, WorldOk (signalWorld copies) := fun copies => (WorldOk.initial _ _).run _
  have hlength := length_signalFrame (outerKernel.processes 0).context
  rw [innerKernel] at hframes hrsp hnext ⊢
  generalize signalFrame (outerKernel.processes 0).context = frame at *
  obtain ⟨hspace, hmemory⟩ := signalWorld_copy hs (vmUserBase + 4096 + 8) frame
  obtain ⟨hspaces, hspaceOf⟩ := signalKernel_space (vmUserBase + 4096) hspace
  refine ⟨?_, hrsp, _, _, _, _, hspaceOf, (hworld _).spaceOk hspace, ?_⟩
  · rw [hs, Option.map_some, Option.some.injEq] at hsent
    have hread := readBack_short ((hworld []).spaceOk hs) (by omega) hsent
    rw [hlength, ← hmemory] at hread
    rw [Kernel.frameOf, Kernel.copyFrom, hspaceOf]
    exact hread
  · intro p q hp hq _ heq
    rw [hspaces, Option.bind_some, Option.bind_some] at hframes
    rw [hnext] at hp
    apply hframes
    simp only [hp, hq, Option.map_some, heq]

theorem sigreturn_restores_nested : Along (SignalRun.step 0) (SignalRun.Restores 0) ⟨outerKernel, []⟩
    (nestedEvents outerKernel innerKernel 0) := by
  have hstack : signalStack (outerKernel.processes 0).context = vmUserBase + 4096 := by decide +kernel
  apply sigreturn_restores
  refine nestedEvents_unmodified (by decide +kernel) (by decide +kernel)
    (signalKernel_words _ (by decide)) (signalKernel_words _ (by decide)) ?_ ?_
  · rw [hstack]
    exact innerKernel_below.1
  · rw [hstack]
    exact innerKernel_below.2

end NovaOS.Process
