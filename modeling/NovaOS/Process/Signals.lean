import NovaOS.Process.Io

/-!
# Setting a signal action

`rt_sigaction` has `vm_copy_from_user` store the new action in the process itself.  That copy goes page
by page and stops at the first page that is not mapped, with the pages before it copied.

* `copiedFromUser`, `copiedFromUser_failed` — what a copy that fails has stored;
* `linuxRtSigaction` — the system call;
* `sigaction_fails_cleanly_iff` — a call that fails leaves all actions alone **exactly when** the new
  action can be read whole, or what can be read of it is what the process has there;
* `sigactionFits_iff_before` — where that is seen before the call.
-/

namespace NovaOS.Process

open NovaOS.Vm Function List

/-! ### Copies that stop half way -/

/-- The loop of `vm_copy_from_user`, with the bytes it has stored when it stops. -/
def copiedFromUserLoop (s : VmSpace) (m : Memory) : ℕ → ℕ → ℕ → List UInt8
  | 0, _, _ => []
  | fuel + 1, source, size =>
    if size = 0 then []
    else
      match findPage s source with
      | none => []
      | some index =>
        let chunk := min (4096 - source % 4096) size
        readBytes (m.bytes (frameData m (s.pages index).frame)) (source % 4096) chunk ++
          copiedFromUserLoop s m fuel ((source + chunk) % 2 ^ 64) (size - chunk)

/-- What `vm_copy_from_user` has stored when it returns. -/
def copiedFromUser (s : VmSpace) (source size : ℕ) (m : Memory) : List UInt8 :=
  copiedFromUserLoop s m size source size

section Copies

variable {s : VmSpace} {m : Memory} {a n : ℕ}

/-- A copy of at most a page that fails has stored what lies on its first page. -/
theorem copiedFromUser_failed (hn : n ≤ 4096) (h : vmCopyFromUser s a n m = none) :
    copiedFromUser s a n m = (vmCopyFromUser s a (4096 - a % 4096) m).getD [] ∧
      (copiedFromUser s a n m).length ≤ n := by
  obtain ⟨k, rfl⟩ : ∃ k, n = k + 1 := by
    cases n with
    | zero => cases h
    | succ k => exact ⟨k, rfl⟩
  rw [vmCopyFromUser_round s a m (by omega)] at h ⊢
  rw [copiedFromUser, copiedFromUserLoop, if_neg (by omega)]
  cases hf : findPage s a with
  | none => exact ⟨rfl, Nat.zero_le _⟩
  | some e =>
    rw [hf] at h
    simp only [Option.map_eq_none_iff] at h
    simp only [Nat.min_self, Nat.sub_self]
    -- the rest is not empty, and begins a page
    have hlong : 4096 - a % 4096 < k + 1 := by
      by_contra hle
      rw [Nat.min_eq_right (by omega), Nat.sub_self] at h
      cases h
    rw [Nat.min_eq_left (by omega)] at h ⊢
    obtain ⟨j, rfl⟩ : ∃ j, k = j + 1 := ⟨k - 1, by omega⟩
    have hpage : (a + (4096 - a % 4096)) % 2 ^ 64 % 4096 = 0 := by omega
    have hnext : findPage s ((a + (4096 - a % 4096)) % 2 ^ 64) = none := by
      rw [vmCopyFromUser_round _ _ m (by omega), hpage, min_eq_right (by omega)] at h
      cases hfind : findPage s ((a + (4096 - a % 4096)) % 2 ^ 64) with
      | none => rfl
      | some e' =>
        rw [hfind] at h
        simp only [Nat.sub_self, Option.map_eq_none_iff] at h
        cases h
    rw [copiedFromUserLoop, if_neg (by omega), hnext]
    refine ⟨rfl, ?_⟩
    rw [length_append, length_readBytes]
    exact Nat.le_of_lt hlong

end Copies

/-! ### Actions -/

/-- The first `n` words that are stored. -/
def bytesWords : ℕ → List UInt8 → List ℕ
  | 0, _ => []
  | n + 1, bytes => leValue (bytes.take 8) :: bytesWords n (bytes.drop 8)

theorem bytesWords_wordBytes {words : List ℕ} (h : ∀ word ∈ words, word < 2 ^ 64) :
    bytesWords words.length (wordBytes words) = words := by
  induction words with
  | nil => rfl
  | cons word words ih =>
    rw [forall_mem_cons] at h
    rw [wordBytes, flatMap_cons, length_cons, bytesWords,
      take_left' (length_leBytes 8 word), drop_left' (length_leBytes 8 word),
      leValue_leBytes 8 h.1]
    exact congrArg _ (ih h.2)

theorem wordBytes_bytesWords {n : ℕ} {bytes : List UInt8} (h : bytes.length = 8 * n) :
    wordBytes (bytesWords n bytes) = bytes := by
  induction n generalizing bytes with
  | zero => exact (length_eq_zero_iff.1 h).symm
  | succ n ih =>
    have hfirst : (bytes.take 8).length = 8 := by
      rw [length_take]
      omega
    have hword := leBytes_leValue (bytes.take 8)
    rw [hfirst] at hword
    have hrest : wordBytes (bytesWords n (bytes.drop 8)) = bytes.drop 8 :=
      ih (by rw [length_drop]; omega)
    rw [wordBytes] at hrest
    rw [bytesWords, wordBytes, flatMap_cons, hword, hrest, take_append_drop]

namespace LinuxSignalAction

/-- The bytes of a `LinuxSignalAction`. -/
def bytes (action : LinuxSignalAction) : List UInt8 :=
  wordBytes [action.handler, action.flags, action.restorer, action.mask]

def ofBytes (bytes : List UInt8) : LinuxSignalAction :=
  let word := fun i => (bytesWords 4 bytes).getD i 0
  ⟨word 0, word 1, word 2, word 3⟩

/-- The fields are 64-bit words. -/
def Words (action : LinuxSignalAction) : Prop :=
  ∀ word ∈ [action.handler, action.flags, action.restorer, action.mask], word < 2 ^ 64

theorem ofBytes_bytes {action : LinuxSignalAction} (h : action.Words) :
    ofBytes action.bytes = action := by
  have hwords := bytesWords_wordBytes h
  rw [ofBytes, bytes, show bytesWords 4 _ = _ from hwords]
  rfl

theorem bytes_ofBytes {bytes : List UInt8} (h : bytes.length = 32) : (ofBytes bytes).bytes = bytes :=
  wordBytes_bytesWords (n := 4) h

theorem length_bytes (action : LinuxSignalAction) : action.bytes.length = 32 := by
  simp [bytes, wordBytes]

end LinuxSignalAction

/-! ### The call -/

/-- The old action of `rt_sigaction` is stored where the caller asks for it. -/
def Caller.reportAction (c : Caller) (signal oldAddress : ℕ) : Bool × Caller :=
  if oldAddress = 0 then (true, c) else c.copyTo oldAddress (c.process.signalActions signal).bytes

def Caller.setAction (c : Caller) (signal : ℕ) (bytes : List UInt8) : Caller :=
  { c with process := { c.process with
    signalActions := update c.process.signalActions signal (.ofBytes bytes) } }

/-- `LINUX_SYS_RT_SIGACTION`.  The new action overwrites the old one as far as it can be read. -/
def linuxRtSigaction (c : Caller) (signal newAddress oldAddress : ℕ) : Except Errno ℕ × Caller :=
  if signal = 0 ∨ 32 ≤ signal then (.error .inval, c)
  else
    match c.reportAction signal oldAddress with
    | (false, c) => (.error .fault, c)
    | (true, c) =>
      if newAddress = 0 then (.ok 0, c)
      else
        match c.copyFrom newAddress 32 with
        | some bytes => (.ok 0, c.setAction signal bytes)
        | none =>
          let copied := copiedFromUser c.vm newAddress 32 c.memory
          (.error .fault, c.setAction signal
            (copied ++ (c.process.signalActions signal).bytes.drop copied.length))

/-- When the call comes to read the new action, it can read all of it, or it finds on the first page
what the process has there. -/
def SigactionFits (c : Caller) (signal newAddress oldAddress : ℕ) : Prop :=
  signal ≠ 0 → signal < 32 → newAddress ≠ 0 → ∀ c', c.reportAction signal oldAddress = (true, c') →
    (c'.copyFrom newAddress 32).isSome = true ∨
      ∀ bytes, c'.copyFrom newAddress (4096 - newAddress % 4096) = some bytes →
        bytes = (c.process.signalActions signal).bytes.take bytes.length

theorem reportAction_process {c c' : Caller} {signal oldAddress : ℕ} {ok : Bool}
    (h : c.reportAction signal oldAddress = (ok, c')) : c'.process = c.process := by
  rw [Caller.reportAction] at h
  split at h
  · cases h
    rfl
  · exact (Caller.copyTo_keeps h).1

/-- An action that is overwritten from the front is the old one exactly when the bytes are. -/
theorem ofBytes_overwritten_iff {action : LinuxSignalAction} (h : action.Words) {copied : List UInt8}
    (hlength : copied.length ≤ 32) :
    LinuxSignalAction.ofBytes (copied ++ action.bytes.drop copied.length) = action ↔
      copied = action.bytes.take copied.length := by
  have hfull := action.length_bytes
  constructor
  · intro heq
    have hbytes := congrArg LinuxSignalAction.bytes heq
    rw [LinuxSignalAction.bytes_ofBytes (by rw [length_append, length_drop]; omega)] at hbytes
    rw [← hbytes, take_left' rfl]
  · intro hsame
    rw [hsame, length_take, min_eq_left (by omega), take_append_drop,
      LinuxSignalAction.ofBytes_bytes h]

/-- **A call that fails leaves all actions alone, exactly when** it can read the new action whole, or
finds on its first page what the action has. -/
theorem sigaction_fails_cleanly_iff (c : Caller) (signal newAddress oldAddress : ℕ)
    (hwords : (c.process.signalActions signal).Words) :
    (∀ error, (linuxRtSigaction c signal newAddress oldAddress).1 = .error error → ∀ i, i < 32 →
      (linuxRtSigaction c signal newAddress oldAddress).2.process.signalActions i =
        c.process.signalActions i) ↔ SigactionFits c signal newAddress oldAddress := by
  rw [linuxRtSigaction]
  split
  · exact iff_of_true (fun _ _ _ _ => rfl) fun hzero hlt => by omega
  rcases hreport : c.reportAction signal oldAddress with ⟨_ | _, c'⟩
  · have hprocess := reportAction_process hreport
    refine iff_of_true (fun _ _ i _ => congrArg (·.signalActions i) hprocess) fun _ _ _ c'' heq => ?_
    rw [hreport] at heq
    cases heq
  have hprocess := reportAction_process hreport
  simp only
  split
  · rename_i hnew
    exact iff_of_true (fun _ herror => by cases herror) fun _ _ hne => absurd hnew hne
  rename_i hnew
  rw [SigactionFits]
  simp only [hreport, Prod.mk.injEq, true_and, forall_eq']
  cases hread : c'.copyFrom newAddress 32 with
  | some bytes =>
    exact iff_of_true (fun _ herror => by cases herror) fun _ _ _ => .inl rfl
  | none =>
    obtain ⟨hcopied, hlength⟩ := copiedFromUser_failed (by decide) hread
    have hkept := ofBytes_overwritten_iff hwords hlength
    simp only [Caller.setAction, hprocess]
    constructor
    · intro hclean _ hlt _
      right
      intro bytes hbytes
      have hsame := hclean .fault rfl signal hlt
      rw [update_self, hkept, hcopied, show vmCopyFromUser _ _ _ _ = some bytes from hbytes] at hsame
      exact hsame
    · intro hfits _ _ i _
      by_cases hi : i = signal
      · rw [hi, update_self, hkept, hcopied]
        cases hbytes : vmCopyFromUser c'.vm newAddress (4096 - newAddress % 4096) c'.memory with
        | none => rfl
        | some bytes =>
          exact (hfits (by omega) (by omega) hnew).resolve_left Bool.false_ne_true bytes hbytes
      · exact update_of_ne hi ..

/-- **Where the old action is not stored on the new one, the condition is one on the caller before the
call**: that of a call which asks for no old action. -/
theorem sigactionFits_iff_before {ext : ℕ → ℕ} {E : ℕ → Prop} {c : Caller} {signal newAddress oldAddress : ℕ}
    (h : SpaceOk ext E c.vm c.memory) (hnew : newAddress + 4096 ≤ 2 ^ 64) (hold : oldAddress + 32 ≤ 2 ^ 64)
    (hstored : (c.reportAction signal oldAddress).1 = true)
    (hclear : ∀ i, i < 4096 → Clear c.vm oldAddress 32 (newAddress + i)) :
    SigactionFits c signal newAddress oldAddress ↔ SigactionFits c signal newAddress 0 := by
  have hread : ∀ n, n ≤ 4096 →
      (c.reportAction signal oldAddress).2.copyFrom newAddress n = c.copyFrom newAddress n := by
    intro n hn
    rw [Caller.reportAction]
    split
    · rfl
    rw [← (c.process.signalActions signal).length_bytes] at hold hclear
    exact vmCopyFromUser_congr (by omega) fun i hi => (vmCopyToUser_effect h hold).kept (hclear i (by omega))
  rcases hreport : c.reportAction signal oldAddress with ⟨ok, c'⟩
  rw [hreport] at hstored hread
  obtain rfl : ok = true := hstored
  rw [SigactionFits, SigactionFits, hreport]
  simp only [Caller.reportAction, Prod.mk.injEq, true_and, forall_eq', hread _ (Nat.sub_le ..),
    hread 32 (by decide), ↓reduceIte]

/-! ### An action at the end of a page -/

/-- A process with one page, whose last word is the address of a handler. -/
def pageEndCaller : Caller :=
  let w := (World.initial stridedChoices fun _ _ => 0).run
    [.create, .mapPage 0 vmUserBase 3, .copyToUser 0 (vmUserBase + 4088) (leBytes 8 0x40001000)]
  { memfdCaller with vm := (w.spaces 0).getD VmSpace.zero, memory := w.memory }

/-- An action behind the page cannot be read at all. -/
theorem sigaction_fails_cleanly_behind :
    (linuxRtSigaction pageEndCaller 10 (vmUserBase + 4096) 0).1 = .error .fault ∧
    (linuxRtSigaction pageEndCaller 10 (vmUserBase + 4096) 0).2.process.signalActions 10 =
      pageEndCaller.process.signalActions 10 := by
  have herror : (linuxRtSigaction pageEndCaller 10 (vmUserBase + 4096) 0).1 = .error .fault := by
    decide +kernel
  refine ⟨herror, (sigaction_fails_cleanly_iff _ 10 _ 0 ?_).2 ?_ _ herror 10 (by decide)⟩
  · intro word hword
    simp [pageEndCaller, memfdCaller, Process.zero] at hword
    omega
  · intro _ _ _ c' hreport
    cases hreport
    right
    intro bytes hbytes
    have hnone : pageEndCaller.copyFrom (vmUserBase + 4096) (4096 - (vmUserBase + 4096) % 4096) = none := by
      decide +kernel
    cases hbytes

/-- **The call fails with half of the action set**: it begins in the last word of the page. -/
theorem sigaction_fails_half_set :
    (linuxRtSigaction pageEndCaller 10 (vmUserBase + 4088) 0).1 = .error .fault ∧
    (pageEndCaller.process.signalActions 10).handler = 0 ∧
    ((linuxRtSigaction pageEndCaller 10 (vmUserBase + 4088) 0).2.process.signalActions 10).handler =
      0x40001000 := by
  decide +kernel

end NovaOS.Process
