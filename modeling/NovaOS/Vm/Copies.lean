import NovaOS.Vm.UserAccess

/-!
# Copies in pieces

A copy to or from user memory in two pieces, one behind the other, is one copy.  A piece may end
inside a page: the second piece then finds the page again, private already.  This holds of every
space, well formed or not, because `make_private` changes neither the index nor the address of a
record.

`Readable` and `Writable` say that a buffer is mapped, as far as a copy is concerned.
-/

namespace NovaOS.Vm

open Function List Nat

variable {s s' : VmSpace} {m m' : Memory} {e : ℕ}

/-! ### `make_private` and the page index -/

theorem walkPageEntry_unchanged (s : VmSpace) (address : ℕ) (m : Memory) :
    (walkPageEntry s address false m).2 = (s, m) := by
  rw [walkPageEntry]
  split
  · rfl
  · rw [nextTable_read]
    cases entryNext (s.tables s.pml4 (address / 2 ^ 39 % 512)) with
    | none => rfl
    | some pdpt =>
      simp only
      rw [nextTable_read]
      cases entryNext (s.tables pdpt (address / 2 ^ 30 % 512)) with
      | none => rfl
      | some directory =>
        simp only [Bool.and_false, Bool.false_eq_true, if_false]
        rw [nextTable_read]
        cases entryNext (s.tables directory (address / 2 ^ 21 % 512)) with
        | none => rfl
        | some table => rfl

theorem rewritePage_records (s : VmSpace) (index : ℕ) (page : VmPage) (address : ℕ)
    (m : Memory) :
    (rewritePage s index page address m).2.pages = update s.pages index page ∧
      (rewritePage s index page address m).2.pageLookup = s.pageLookup := by
  have h := walkPageEntry_unchanged (s.setPage index page) address m
  rw [rewritePage]
  generalize walkPageEntry (s.setPage index page) address false m = r at h ⊢
  obtain ⟨_ | ⟨table, i⟩, r⟩ := r
  · obtain rfl : r = (s.setPage index page, m) := h
    exact ⟨rfl, rfl⟩
  · obtain rfl : r = (s.setPage index page, m) := h
    exact ⟨rfl, rfl⟩

/-- A page made private is found where it was, with the same protection, and stays private. -/
theorem makePrivate_again (h : makePrivate s e m = (true, s', m')) :
    (∀ a, findPage s' a = findPage s a) ∧
      (s'.pages e).protection = (s.pages e).protection ∧
      ∀ m'', makePrivate s' e m'' = (true, s', m'') := by
  rw [makePrivate] at h
  by_cases hcow : (s.pages e).copyOnWrite = true
  · rw [hcow] at h
    simp only [Bool.not_true, Bool.false_eq_true, if_false] at h
    split at h
    · cases h
    · generalize privateFrame (s.pages e).frame m = r at h
      obtain ⟨_ | frame, m₁⟩ := r
      · cases h
      · simp only at h
        have hrec := rewritePage_records s e (privatePage (s.pages e) frame)
          (s.pages e).virtualAddress m₁
        generalize rewritePage s e (privatePage (s.pages e) frame) (s.pages e).virtualAddress m₁ = r
          at h hrec
        obtain ⟨ok, s₁⟩ := r
        obtain ⟨rfl, rfl, rfl⟩ := h
        have hpages : s₁.pages = update s.pages e (privatePage (s.pages e) frame) := hrec.1
        have hlookup : s₁.pageLookup = s.pageLookup := hrec.2
        have hself : s₁.pages e = privatePage (s.pages e) frame := by
          rw [hpages, update_self]
        refine ⟨?_, by rw [hself]; rfl, ?_⟩
        · intro a
          rw [findPage, findPage, hlookup]
          congr 1
          funext i
          rw [hpages]
          by_cases hi : i = e
          · rw [hi, update_self]
            rfl
          · rw [update_of_ne hi]
        · intro m''
          rw [makePrivate, hself]
          rfl
  · rw [Bool.not_eq_true] at hcow
    rw [hcow] at h
    obtain ⟨rfl, rfl⟩ := h
    refine ⟨fun _ => rfl, rfl, ?_⟩
    intro m''
    rw [makePrivate, hcow]
    rfl

/-! ### Fuel -/

theorem copyToUserLoop_fuel (fuel fuel' : ℕ) (s : VmSpace) (d : ℕ) (input : List UInt8)
    (m : Memory) (h : input.length ≤ fuel) (h' : input.length ≤ fuel') :
    copyToUserLoop fuel s d input m = copyToUserLoop fuel' s d input m := by
  induction fuel generalizing fuel' s d input m with
  | zero =>
    obtain rfl : input = [] := length_eq_zero_iff.1 (by omega)
    cases fuel' with
    | zero => rfl
    | succ fuel' => rfl
  | succ fuel ih =>
    cases input with
    | nil =>
      cases fuel' with
      | zero => rfl
      | succ fuel' => rfl
    | cons x xs =>
      cases fuel' with
      | zero => exact absurd h' (by rw [length_cons]; omega)
      | succ fuel' =>
        rw [copyToUserLoop, copyToUserLoop]
        split
        · rfl
        · split
          · rfl
          · split
            · rfl
            · rcases makePrivate s _ m with ⟨_ | _, s', m'⟩
              · rfl
              · exact ih fuel' s' _ _ _ (by rw [length_drop]; omega) (by rw [length_drop]; omega)

theorem copyFromUserLoop_fuel (fuel fuel' : ℕ) (s : VmSpace) (m : Memory) (a size : ℕ)
    (h : size ≤ fuel) (h' : size ≤ fuel') :
    copyFromUserLoop s m fuel a size = copyFromUserLoop s m fuel' a size := by
  induction fuel generalizing fuel' a size with
  | zero =>
    obtain rfl : size = 0 := by omega
    cases fuel' with
    | zero => rfl
    | succ fuel' => rfl
  | succ fuel ih =>
    cases fuel' with
    | zero =>
      obtain rfl : size = 0 := by omega
      rfl
    | succ fuel' =>
      rw [copyFromUserLoop, copyFromUserLoop]
      split
      · rfl
      · split
        · rfl
        · simp only
          rw [ih fuel' _ _ (by omega) (by omega)]

/-! ### One round -/

/-- What a round of `vm_copy_to_user` leaves to do, once the page is private. -/
def copyRound (s : VmSpace) (e d : ℕ) (input : List UInt8) (m : Memory) :
    Bool × VmSpace × Memory :=
  let chunk := min (4096 - d % 4096) input.length
  vmCopyToUser s ((d + chunk) % 2 ^ 64) (input.drop chunk)
    (storeBytes m (frameData m (s.pages e).frame) (d % 4096) (input.take chunk))

theorem vmCopyToUser_nil (s : VmSpace) (d : ℕ) (m : Memory) :
    vmCopyToUser s d [] m = (true, s, m) := rfl

theorem vmCopyToUser_round (s : VmSpace) (d : ℕ) {input : List UInt8} (m : Memory)
    (h : input ≠ []) :
    vmCopyToUser s d input m =
      match findPage s d with
      | none => (false, s, m)
      | some e =>
        if !canWrite (s.pages e).protection then (false, s, m)
        else
          match makePrivate s e m with
          | (false, s, m) => (false, s, m)
          | (true, s, m) => copyRound s e d input m := by
  have hpos : 0 < input.length := length_pos_iff.2 h
  obtain ⟨k, hk⟩ : ∃ k, input.length = k + 1 := ⟨input.length - 1, by omega⟩
  rw [vmCopyToUser, hk, copyToUserLoop, if_neg (by rw [List.isEmpty_iff]; exact h)]
  cases findPage s d with
  | none => rfl
  | some e =>
    simp only
    cases canWrite (s.pages e).protection with
    | false => rfl
    | true =>
      rcases makePrivate s e m with ⟨_ | _, s', m'⟩
      · rfl
      · exact copyToUserLoop_fuel _ _ _ _ _ _ (by rw [length_drop]; omega) (le_refl _)

theorem vmCopyToUser_of_page {d : ℕ} {input : List UInt8} (h : input ≠ [])
    (hfind : findPage s d = some e) (hwrite : canWrite (s.pages e).protection = true)
    (hcow : (s.pages e).copyOnWrite = false) (hfits : d % 4096 + input.length ≤ 4096) :
    vmCopyToUser s d input m =
      (true, s, storeBytes m (frameData m (s.pages e).frame) (d % 4096) input) := by
  have hprivate : makePrivate s e m = (true, s, m) := by rw [makePrivate, hcow]; rfl
  rw [vmCopyToUser_round s d m h, hfind]
  simp only [hwrite, hprivate, Bool.not_true, Bool.false_eq_true, if_false]
  rw [copyRound, min_eq_right (by omega), drop_length, take_length, vmCopyToUser_nil]

theorem vmCopyFromUser_round (s : VmSpace) (a : ℕ) {size : ℕ} (m : Memory) (h : 0 < size) :
    vmCopyFromUser s a size m =
      match findPage s a with
      | none => none
      | some e =>
        let chunk := min (4096 - a % 4096) size
        (vmCopyFromUser s ((a + chunk) % 2 ^ 64) (size - chunk) m).map
          (readBytes (m.bytes (frameData m (s.pages e).frame)) (a % 4096) chunk ++ ·) := by
  obtain ⟨k, rfl⟩ : ∃ k, size = k + 1 := ⟨size - 1, by omega⟩
  rw [vmCopyFromUser, copyFromUserLoop, if_neg (by omega)]
  cases findPage s a with
  | none => rfl
  | some e =>
    simp only
    rw [copyFromUserLoop_fuel _ _ _ _ _ _ (by omega) (le_refl _)]
    rfl

/-- A copy that succeeds returns as many bytes as were asked for. -/
theorem length_of_vmCopyFromUser {s : VmSpace} {a size : ℕ} {m : Memory} {bytes : List UInt8}
    (h : vmCopyFromUser s a size m = some bytes) : bytes.length = size := by
  induction size using Nat.strong_induction_on generalizing a bytes with
  | _ size ih =>
    by_cases hsize : size = 0
    · subst hsize
      cases h
      rfl
    rw [vmCopyFromUser_round s a m (by omega)] at h
    split at h
    · cases h
    · rename_i e _
      obtain ⟨rest, hrest, rfl⟩ := Option.map_eq_some_iff.1 h
      rw [length_append, length_readBytes, ih _ (by omega) hrest]
      omega

/-! ### Two pieces -/

theorem storeBytes_append (m : Memory) (page offset : ℕ) (x y : List UInt8) :
    storeBytes (storeBytes m page offset x) page (offset + x.length) y =
      storeBytes m page offset (x ++ y) := by
  simp only [storeBytes, update_idem, update_self, writeBytes_append]

/-- A later position of the page of `d` finds the same page. -/
theorem findPage_add {d k : ℕ} (s : VmSpace) (hd : d < 2 ^ 64) (hk : d % 4096 + k < 4096) :
    findPage s ((d + k) % 2 ^ 64) = findPage s d := by
  rw [← findPage_alignDown s ((d + k) % 2 ^ 64), ← findPage_alignDown s d]
  congr 1
  unfold alignDown
  omega

/-- A first piece that ends inside the page: the second piece goes on in the same page. -/
theorem copyRound_short {s : VmSpace} {e d : ℕ} {x y : List UInt8} {m : Memory} (hd : d < 2 ^ 64)
    (hroom : d % 4096 + x.length < 4096) (hf : findPage s d = some e)
    (hw : canWrite (s.pages e).protection = true)
    (hagain : ∀ m, makePrivate s e m = (true, s, m)) :
    copyRound s e d (x ++ y) m =
      vmCopyToUser s ((d + x.length) % 2 ^ 64) y
        (storeBytes m (frameData m (s.pages e).frame) (d % 4096) x) := by
  rw [copyRound, length_append]
  by_cases hy : y = []
  · subst hy
    rw [append_nil, length_nil, add_zero,
      show min (4096 - d % 4096) x.length = x.length by omega,
      take_of_length_le (le_refl _), drop_of_length_le (le_refl _)]
  · have hoff : (d + x.length) % 2 ^ 64 % 4096 = d % 4096 + x.length := by omega
    rw [vmCopyToUser_round _ _ _ hy, findPage_add s hd hroom, hf]
    simp only [hw, Bool.not_true, Bool.false_eq_true, if_false, hagain, copyRound, hoff]
    rw [show min (4096 - d % 4096) (x.length + y.length) =
      x.length + min (4096 - (d % 4096 + x.length)) y.length from by omega]
    generalize min (4096 - (d % 4096 + x.length)) y.length = c
    have htake : (x ++ y).take (x.length + c) = x ++ y.take c := take_length_add_append c
    have hdrop : (x ++ y).drop (x.length + c) = y.drop c := drop_length_add_append c
    rw [htake, hdrop, ← storeBytes_append,
      show (d + (x.length + c)) % 2 ^ 64 = ((d + x.length) % 2 ^ 64 + c) % 2 ^ 64 by omega]
    rfl

theorem vmCopyToUser_append (s : VmSpace) (d : ℕ) (x y : List UInt8) (m : Memory)
    (hd : d < 2 ^ 64) :
    vmCopyToUser s d (x ++ y) m =
      match vmCopyToUser s d x m with
      | (false, s, m) => (false, s, m)
      | (true, s, m) => vmCopyToUser s ((d + x.length) % 2 ^ 64) y m := by
  -- by induction on the rounds of the first piece
  induction hn : x.length using Nat.strong_induction_on generalizing s d x m with
  | _ n ih =>
    subst hn
    by_cases hx : x = []
    · subst hx
      rw [nil_append, vmCopyToUser_nil]
      simp only [length_nil, add_zero, mod_eq_of_lt hd]
    rw [vmCopyToUser_round s d m (fun h => hx (append_eq_nil_iff.1 h).1),
      vmCopyToUser_round s d m hx]
    cases hf : findPage s d with
    | none => rfl
    | some e =>
      simp only
      cases hw : canWrite (s.pages e).protection with
      | false => rfl
      | true =>
        simp only [Bool.not_true, Bool.false_eq_true, if_false]
        rcases hmk : makePrivate s e m with ⟨_ | _, s', m'⟩
        · rfl
        · simp only
          obtain ⟨hfind, hprot, hagain⟩ := makePrivate_again hmk
          by_cases hroom : 4096 - d % 4096 ≤ x.length
          · -- the first piece fills the page, so the round is the same
            rw [copyRound, copyRound, length_append,
              show min (4096 - d % 4096) (x.length + y.length) = 4096 - d % 4096 by omega,
              show min (4096 - d % 4096) x.length = 4096 - d % 4096 by omega,
              take_append_of_le_length hroom, drop_append_of_le_length hroom]
            have hdrop : (x.drop (4096 - d % 4096)).length = x.length - (4096 - d % 4096) :=
              length_drop
            rw [ih _ (by omega) s' _ (x.drop (4096 - d % 4096)) _ (mod_lt _ (by omega)) rfl,
              hdrop, show ((d + (4096 - d % 4096)) % 2 ^ 64 + (x.length - (4096 - d % 4096))) %
                2 ^ 64 = (d + x.length) % 2 ^ 64 from by omega]
          · have hround : copyRound s' e d x m' =
                (true, s', storeBytes m' (frameData m' (s'.pages e).frame) (d % 4096) x) := by
              rw [copyRound, show min (4096 - d % 4096) x.length = x.length by omega,
                take_of_length_le (le_refl _), drop_of_length_le (le_refl _)]
              rfl
            rw [hround, copyRound_short hd (by omega) (by rw [hfind, hf]) (by rw [hprot, hw]) hagain]

theorem vmCopyFromUser_add (s : VmSpace) (a n k : ℕ) (m : Memory) (ha : a < 2 ^ 64) :
    vmCopyFromUser s a (n + k) m =
      (vmCopyFromUser s a n m).bind fun x =>
        (vmCopyFromUser s ((a + n) % 2 ^ 64) k m).map (x ++ ·) := by
  induction n using Nat.strong_induction_on generalizing a with
  | _ n ih =>
    by_cases hn : n = 0
    · subst hn
      rw [zero_add, add_zero, mod_eq_of_lt ha]
      show _ = (vmCopyFromUser s a k m).map fun y => y
      rw [Option.map_id_fun', id]
    rw [vmCopyFromUser_round s a m (show 0 < n + k by omega),
      vmCopyFromUser_round s a m (show 0 < n by omega)]
    cases hf : findPage s a with
    | none => rfl
    | some e =>
      simp only
      by_cases hroom : 4096 - a % 4096 ≤ n
      · rw [show min (4096 - a % 4096) (n + k) = 4096 - a % 4096 by omega,
          show min (4096 - a % 4096) n = 4096 - a % 4096 by omega,
          show n + k - (4096 - a % 4096) = n - (4096 - a % 4096) + k by omega,
          ih _ (by omega) _ (mod_lt _ (by omega)),
          show ((a + (4096 - a % 4096)) % 2 ^ 64 + (n - (4096 - a % 4096))) % 2 ^ 64 =
            (a + n) % 2 ^ 64 from by omega]
        cases vmCopyFromUser s ((a + (4096 - a % 4096)) % 2 ^ 64) (n - (4096 - a % 4096)) m with
        | none => rfl
        | some x =>
          simp only [Option.bind_some, Option.map_some, Option.map_map]
          congr 1
          funext y
          exact (append_assoc _ x y).symm
      · -- the first piece ends inside the page, where the second one goes on
        rw [show min (4096 - a % 4096) n = n by omega, Nat.sub_self]
        show _ = (vmCopyFromUser s ((a + n) % 2 ^ 64) k m).map
          ((readBytes (m.bytes (frameData m (s.pages e).frame)) (a % 4096) n ++ []) ++ ·)
        rw [append_nil]
        by_cases hk : k = 0
        · subst hk
          rw [add_zero, show min (4096 - a % 4096) n = n by omega, Nat.sub_self]
        · rw [vmCopyFromUser_round s _ m (show 0 < k by omega), findPage_add s ha (by omega), hf]
          simp only [Option.map_map]
          rw [show (a + n) % 2 ^ 64 % 4096 = a % 4096 + n by omega,
            show min (4096 - a % 4096) (n + k) = n + min (4096 - (a % 4096 + n)) k by omega]
          generalize min (4096 - (a % 4096 + n)) k = c
          rw [show (a + (n + c)) % 2 ^ 64 = ((a + n) % 2 ^ 64 + c) % 2 ^ 64 by omega,
            Nat.add_sub_add_left, readBytes_add]
          congr 1
          funext y
          exact append_assoc _ _ y

/-! ### Buffers that are mapped -/

/-- The bytes at an address of user memory can be read. -/
def Readable (s : VmSpace) (m : Memory) (address size : ℕ) : Prop :=
  (vmCopyFromUser s address size m).isSome = true

/-- Bytes can be stored at an address of user memory, whatever they are. -/
def Writable (s : VmSpace) (m : Memory) (address size : ℕ) : Prop :=
  ∀ bytes : List UInt8, bytes.length = size → (vmCopyToUser s address bytes m).1 = true

section Buffers

variable {address size n : ℕ}

theorem Readable.mono (h : Readable s m address size) (haddress : address < 2 ^ 64) (hn : n ≤ size) :
    ∃ bytes, vmCopyFromUser s address n m = some bytes := by
  obtain ⟨k, rfl⟩ := Nat.exists_eq_add_of_le hn
  rw [Readable, vmCopyFromUser_add s address n k m haddress] at h
  cases hfirst : vmCopyFromUser s address n m with
  | none =>
    rw [hfirst] at h
    cases h
  | some bytes => exact ⟨bytes, rfl⟩

theorem Writable.mono (h : Writable s m address size) (haddress : address < 2 ^ 64)
    {bytes : List UInt8} (hn : bytes.length ≤ size) : (vmCopyToUser s address bytes m).1 = true := by
  have hall := h (bytes ++ List.replicate (size - bytes.length) 0) (by
    rw [length_append, length_replicate]
    omega)
  rw [vmCopyToUser_append _ _ _ _ _ haddress] at hall
  rcases hcopy : vmCopyToUser s address bytes m with ⟨_ | _, s', m'⟩
  · rw [hcopy] at hall
    cases hall
  · rfl

end Buffers

end NovaOS.Vm
