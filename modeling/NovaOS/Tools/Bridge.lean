import Mathlib.Data.List.Sort
import Mathlib.Tactic.Ring

/-!
# The bridge server of the host

`tools/nova/bridge.py`: the guest sends lines, `dispatch` finds the handler of a line and yields its
replies.  A handler returns nothing, one reply or an iterable of replies, and may raise an exception
when it is called or while its iterable is consumed.  The exceptions are instances of `Exception`, which
is what `dispatch` catches; `SystemExit` and `KeyboardInterrupt` are not among them.

Iterators are Python's: an object with a state, asked for one value after the other, which yields,
stops or raises.  `dispatch` is a generator, so it is an iterator too.  What the handlers' iterators do
is a parameter (`next`), and so are the session, the replies and the exceptions.

* `dispatchNext` — one step of the generator `dispatch`;
* `produced` — the replies the handler of a line gives before it fails;
* `dispatch_survives_iff` — iterating `dispatch` raises nothing and gives these replies, exactly when
  no iterable that a handler has returned raises.
-/

namespace NovaOS.Tools.Bridge

open List

/-- A `str`. -/
abbrev Text := List Char

/-- What an iterator gives when it is asked for its next value. -/
inductive Pull (ρ ε : Type*)
  | yields (reply : ρ)
  | stops
  | raises (exception : ε)
deriving DecidableEq

/-- What comes of the call of a handler; `γ` is the type of iterators. -/
inductive Called (γ ρ ε : Type*)
  | raises (exception : ε)
  | returnsNone
  | returnsReply (reply : ρ)
  | returnsIterable (iterator : γ)

variable {σ γ δ ρ ε : Type*}

/-- A handler works on the session, with an argument. -/
abbrev Handler (σ γ ρ ε : Type*) := σ → Text → Called γ ρ ε × σ

/-- `NovaBridge`, as far as guest commands go: the verbs in the order of their registration. -/
structure NovaBridge (σ γ ρ ε : Type*) where
  commands : List (Text × Handler σ γ ρ ε)
  unique : (commands.map Prod.fst).Nodup

/-! ### Iteration -/

/-- What `n` turns of a `for` loop over an iterator get from it. -/
def pulls (next : γ → σ → Pull ρ ε × γ × σ) : ℕ → γ → σ → List (Pull ρ ε)
  | 0, _, _ => []
  | n + 1, iterator, session =>
    match next iterator session with
    | (.yields reply, iterator, session) => .yields reply :: pulls next n iterator session
    | (last, _, _) => [last]

/-- The replies among them. -/
def replies (l : List (Pull ρ ε)) : List ρ :=
  l.filterMap fun
    | .yields reply => some reply
    | _ => none

/-- The loop ends with an exception. -/
def Raised (l : List (Pull ρ ε)) : Prop := ∃ e, .raises e ∈ l

/-! ### The generator `dispatch` -/

/-- `_resolve`. -/
def NovaBridge.resolve (bridge : NovaBridge σ γ ρ ε) (line : Text) :
    Option (Handler σ γ ρ ε) × Text :=
  match bridge.commands.lookup line with
  | some handler => (some handler, [])
  | none =>
    let verbs := (bridge.commands.map Prod.fst).insertionSort fun a b => b.length ≤ a.length
    match verbs.find? fun verb => (verb ++ [' ']).isPrefixOf line with
    | some verb => (bridge.commands.lookup verb, line.drop (verb.length + 1))
    | none => (none, [])

/-- Where the generator stands: before its body, in its `yield from`, or behind its last `yield`. -/
inductive Dispatch (γ : Type*)
  | start (line : Text)
  | delegating (iterator : γ)
  | ended

/-- One turn of `yield from`. -/
def delegate (next : γ → σ → Pull ρ ε × γ × σ) (iterator : γ) (session : σ) :
    Pull ρ ε × Dispatch γ × σ :=
  match next iterator session with
  | (.yields reply, iterator, session) => (.yields reply, .delegating iterator, session)
  | (.stops, _, session) => (.stops, .ended, session)
  | (.raises e, _, session) => (.raises e, .ended, session)

/-- `dispatch`, from one `yield` to the next. -/
def NovaBridge.dispatchNext (bridge : NovaBridge σ γ ρ ε) (next : γ → σ → Pull ρ ε × γ × σ) :
    Dispatch γ → σ → Pull ρ ε × Dispatch γ × σ
  | .start line, session =>
    match bridge.resolve line with
    | (none, _) => (.stops, .ended, session)
    | (some handler, argument) =>
      match handler session argument with
      -- the only place with an `except Exception`
      | (.raises _, session) => (.stops, .ended, session)
      | (.returnsNone, session) => (.stops, .ended, session)
      | (.returnsReply reply, session) => (.yields reply, .ended, session)
      | (.returnsIterable iterator, session) => delegate next iterator session
  | .delegating iterator, session => delegate next iterator session
  | .ended, session => (.stops, .ended, session)

/-! ### What the handler does -/

/-- The call of the handler of a line; a line without one does nothing. -/
def NovaBridge.called (bridge : NovaBridge σ γ ρ ε) (line : Text) (session : σ) :
    Called γ ρ ε × σ :=
  match bridge.resolve line with
  | (none, _) => (.returnsNone, session)
  | (some handler, argument) => handler session argument

/-- The replies the handler of a line has produced, after at most `n`, before it fails. -/
def NovaBridge.produced (bridge : NovaBridge σ γ ρ ε) (next : γ → σ → Pull ρ ε × γ × σ) (line : Text)
    (session : σ) (n : ℕ) : List ρ :=
  match bridge.called line session with
  | (.raises _, _) => []
  | (.returnsNone, _) => []
  | (.returnsReply reply, _) => [reply].take n
  | (.returnsIterable iterator, session) => replies (pulls next n iterator session)

/-- An iterable that the handler of a line returns does not raise while it is consumed. -/
def NovaBridge.IterableSafe (bridge : NovaBridge σ γ ρ ε) (next : γ → σ → Pull ρ ε × γ × σ)
    (line : Text) (session : σ) : Prop :=
  ∀ iterator session', bridge.called line session = (.returnsIterable iterator, session') →
    ∀ n, ¬ Raised (pulls next n iterator session')

/-! ### Iterating `dispatch` -/

section

variable {bridge : NovaBridge σ γ ρ ε} {next : γ → σ → Pull ρ ε × γ × σ} {line : Text} {session : σ}

theorem dispatchNext_start : bridge.dispatchNext next (.start line) session =
    match bridge.called line session with
    | (.raises _, session) => (.stops, .ended, session)
    | (.returnsNone, session) => (.stops, .ended, session)
    | (.returnsReply reply, session) => (.yields reply, .ended, session)
    | (.returnsIterable iterator, session) => delegate next iterator session := by
  rw [NovaBridge.dispatchNext, NovaBridge.called]
  rcases bridge.resolve line with ⟨_ | handler, argument⟩
  · rfl
  · rfl

theorem pulls_ended (n : ℕ) :
    pulls (bridge.dispatchNext next) n .ended session = [Pull.stops].take n := by
  cases n with
  | zero => rw [pulls, take_zero]
  | succ n => rw [pulls, NovaBridge.dispatchNext, take_succ_cons, take_nil]

/-- In its `yield from` the generator gives what the iterator gives. -/
theorem pulls_delegating (n : ℕ) (iterator : γ) (session : σ) :
    pulls (bridge.dispatchNext next) n (.delegating iterator) session =
      pulls next n iterator session := by
  induction n generalizing iterator session with
  | zero => rw [pulls, pulls]
  | succ n ih =>
    rw [pulls, pulls, NovaBridge.dispatchNext, delegate]
    rcases next iterator session with ⟨reply | - | e, iterator', session'⟩
    · exact congrArg (Pull.yields reply :: ·) (ih iterator' session')
    · rfl
    · rfl

/-- The turn that reaches the `yield from` is one of the iterator. -/
theorem pulls_start_iterable {session' : σ} {iterator : γ}
    (h : bridge.called line session = (.returnsIterable iterator, session')) (n : ℕ) :
    pulls (bridge.dispatchNext next) n (.start line) session = pulls next n iterator session' := by
  have hdelegating : pulls (bridge.dispatchNext next) n (.delegating iterator) session' =
      pulls next n iterator session' := pulls_delegating n iterator session'
  rw [← hdelegating]
  cases n with
  | zero => rw [pulls, pulls]
  | succ n => rw [pulls, pulls, dispatchNext_start, h, NovaBridge.dispatchNext]

theorem pulls_start_nothing {session' : σ}
    (h : bridge.called line session = (.returnsNone, session') ∨
      ∃ e, bridge.called line session = (.raises e, session')) (n : ℕ) :
    pulls (bridge.dispatchNext next) n (.start line) session = [Pull.stops].take n := by
  cases n with
  | zero => rw [pulls, take_zero]
  | succ n =>
    rw [pulls, dispatchNext_start, take_succ_cons, take_nil]
    obtain h | ⟨e, h⟩ := h
    · rw [h]
    · rw [h]

theorem pulls_start_reply {session' : σ} {reply : ρ}
    (h : bridge.called line session = (.returnsReply reply, session')) (n : ℕ) :
    pulls (bridge.dispatchNext next) n (.start line) session =
      [Pull.yields reply, Pull.stops].take n := by
  cases n with
  | zero => rw [pulls, take_zero]
  | succ n =>
    rw [pulls, dispatchNext_start, take_succ_cons, h]
    exact congrArg (Pull.yields reply :: ·) (pulls_ended n)

theorem replies_take_stops (n : ℕ) : replies ([(Pull.stops : Pull ρ ε)].take n) = [] := by
  cases n with
  | zero => rfl
  | succ n => rw [take_succ_cons, take_nil]; rfl

theorem replies_dispatch (n : ℕ) :
    replies (pulls (bridge.dispatchNext next) n (.start line) session) =
      bridge.produced next line session n := by
  rw [NovaBridge.produced]
  rcases h : bridge.called line session with ⟨e | - | reply | iterator, session'⟩
  case raises => exact (pulls_start_nothing (.inr ⟨e, h⟩) n).symm ▸ replies_take_stops n
  case returnsNone => exact (pulls_start_nothing (.inl h) n).symm ▸ replies_take_stops n
  case returnsReply =>
    rw [pulls_start_reply h]
    cases n with
    | zero => rfl
    | succ n =>
      show replies (Pull.yields reply :: [Pull.stops].take n) = reply :: [].take n
      rw [take_nil]
      exact congrArg (reply :: ·) (replies_take_stops n)
  case returnsIterable => rw [pulls_start_iterable h]

/-- **Iterating `dispatch` raises exactly when the iterable of the handler does.** -/
theorem raised_dispatch_iff : (∀ n, ¬ Raised (pulls (bridge.dispatchNext next) n (.start line) session)) ↔
    bridge.IterableSafe next line session := by
  constructor
  · intro h iterator session' hcalled n hraised
    apply h n
    rwa [pulls_start_iterable hcalled]
  · rintro h n ⟨e, hraised⟩
    rcases hcalled : bridge.called line session with ⟨e' | - | reply | iterator, session'⟩
    case raises =>
      rw [pulls_start_nothing (.inr ⟨e', hcalled⟩)] at hraised
      exact nomatch mem_of_mem_take hraised
    case returnsNone =>
      rw [pulls_start_nothing (.inl hcalled)] at hraised
      exact nomatch mem_of_mem_take hraised
    case returnsReply =>
      rw [pulls_start_reply hcalled] at hraised
      exact nomatch mem_of_mem_take hraised
    case returnsIterable =>
      rw [pulls_start_iterable hcalled] at hraised
      exact h iterator session' hcalled n ⟨e, hraised⟩

end

/-- For every bridge, line and session, and whatever the handlers and their iterators do: iterating
`dispatch` raises nothing and yields the replies the handler has produced, exactly when an iterable
that the handler returns does not raise. -/
theorem dispatch_survives_iff (bridge : NovaBridge σ γ ρ ε) (next : γ → σ → Pull ρ ε × γ × σ)
    (line : Text) (session : σ) :
    (∀ n, ¬ Raised (pulls (bridge.dispatchNext next) n (.start line) session) ∧
      replies (pulls (bridge.dispatchNext next) n (.start line) session) =
        bridge.produced next line session n) ↔
      bridge.IterableSafe next line session := by
  rw [← raised_dispatch_iff]
  constructor
  · intro h n
    exact (h n).1
  · intro h n
    exact ⟨h n, replies_dispatch n⟩

/-- A bridge with one verb, whose handler is a generator. -/
def scanBridge : NovaBridge Unit ℕ ℕ Unit where
  commands := [("SCAN".toList, fun session _ => (.returnsIterable 0, session))]
  unique := nodup_singleton _

/-- The generator yields one reply and then raises. -/
def scanNext : ℕ → Unit → Pull ℕ Unit × ℕ × Unit
  | 0, session => (.yields 7, 1, session)
  | n + 1, session => (.raises (), n + 1, session)

/-- The exception comes out of `dispatch`. -/
theorem scan_raises :
    Raised (pulls (scanBridge.dispatchNext scanNext) 2 (.start "SCAN".toList) ()) := by
  refine ⟨(), ?_⟩
  decide

end NovaOS.Tools.Bridge
