import NovaOS.Lib.LittleEndian

/-!
# Arrays with checked accesses

A buffer is an array of so many bytes.  An access outside gives `none`, so a computation that gives
`some` has stayed inside.

* `Buffer.load`, `Buffer.loadBytes`, `Buffer.store` — a byte, a range, and a range that is written;
* `load_eq`, `loadBytes_eq`, `store_eq`, `store_bind` — inside, they are what they are without the
  check;
* `writeBytes_behind`, `writeBytes_within` — two writes that are one.
-/

namespace NovaOS

open List

/-- An array of bytes. -/
structure Buffer where
  size : ℕ
  contents : ℕ → UInt8

namespace Buffer

/-- The buffer that holds a list. -/
def ofList (bytes : List UInt8) : Buffer := ⟨bytes.length, fun i => bytes.getD i 0⟩

def load (b : Buffer) (i : ℕ) : Option UInt8 := if i < b.size then some (b.contents i) else none

def loadBytes (b : Buffer) (i n : ℕ) : Option (List UInt8) :=
  if i + n ≤ b.size then some (readBytes b.contents i n) else none

def store (b : Buffer) (i : ℕ) (bytes : List UInt8) : Option Buffer :=
  if i + bytes.length ≤ b.size then some ⟨b.size, writeBytes b.contents i bytes⟩ else none

variable {b : Buffer} {i n : ℕ} {bytes : List UInt8}

theorem load_eq (h : i < b.size) : b.load i = some (b.contents i) := if_pos h

theorem loadBytes_eq (h : i + n ≤ b.size) : b.loadBytes i n = some (readBytes b.contents i n) := if_pos h

theorem store_eq (h : i + bytes.length ≤ b.size) :
    b.store i bytes = some ⟨b.size, writeBytes b.contents i bytes⟩ := if_pos h

theorem store_bind {α : Type} (h : i + bytes.length ≤ b.size) (f : Buffer → Option α) :
    (b.store i bytes >>= f) = f ⟨b.size, writeBytes b.contents i bytes⟩ := by
  rw [store_eq h]
  rfl

theorem readBytes_ofList (h : i + n ≤ bytes.length) :
    readBytes (ofList bytes).contents i n = (bytes.drop i).take n := by
  apply ext_getD
  · rw [length_readBytes, length_take, length_drop]
    omega
  · intro j hj
    rw [length_take, length_drop] at hj
    have hn : j < n := by omega
    rw [getD_readBytes hn, getD_eq_getElem?_getD, List.getElem?_take_of_lt hn, List.getElem?_drop,
      ← getD_eq_getElem?_getD]
    rfl

end Buffer

section Contents

variable {contents : ℕ → UInt8} {a b n : ℕ} {x : List UInt8}

theorem readBytes_writeBytes_eq (h : x.length = n) : readBytes (writeBytes contents a x) a n = x := by
  rw [← h]
  exact readBytes_writeBytes_self

theorem Buffer.loadBytes_written {size : ℕ} (h : a + x.length ≤ size) :
    (⟨size, writeBytes contents a x⟩ : Buffer).loadBytes a x.length = some x := by
  have hinside : a + x.length ≤ (⟨size, writeBytes contents a x⟩ : Buffer).size := h
  rw [loadBytes_eq hinside, readBytes_writeBytes_eq rfl]

/-- The first part of what was written is read. -/
theorem Buffer.loadBytes_front {size : ℕ} {y : List UInt8} (h : a + x.length ≤ size) :
    (⟨size, writeBytes contents a (x ++ y)⟩ : Buffer).loadBytes a x.length = some x := by
  have hinside : a + x.length ≤ (⟨size, writeBytes contents a (x ++ y)⟩ : Buffer).size := h
  rw [loadBytes_eq hinside, ← writeBytes_append, readBytes_writeBytes (.inl (le_refl _)),
    readBytes_writeBytes_eq rfl]

theorem writeBytes_behind {y : List UInt8} (h : a + x.length = b) :
    writeBytes (writeBytes contents a x) b y = writeBytes contents a (x ++ y) := by
  rw [← h]
  exact writeBytes_append

theorem writeBytes_within {y : List UInt8} (k : ℕ) (hb : a + k = b) (h : k + y.length ≤ x.length) :
    writeBytes (writeBytes contents a x) b y =
      writeBytes contents a (x.take k ++ (y ++ x.drop (k + y.length))) := by
  have hfirst : (x.take k).length = k := length_take_of_le (by omega)
  have hlength : (x.take k ++ (y ++ x.drop (k + y.length))).length = x.length := by
    rw [length_append, length_append, hfirst, length_drop]
    omega
  funext i
  by_cases hy : b ≤ i ∧ i < b + y.length
  · rw [writeBytes, if_pos hy, writeBytes, if_pos (by omega),
      getD_append_right _ _ _ _ (by omega), getD_append _ _ _ _ (by omega), hfirst]
    congr 1
    omega
  · rw [writeBytes, if_neg hy, writeBytes, writeBytes, hlength]
    split
    · by_cases hlow : i < b
      · rw [getD_append _ _ _ _ (by omega), getD_eq_getElem?_getD,
          getD_eq_getElem?_getD, List.getElem?_take_of_lt (by omega)]
      · rw [getD_append_right _ _ _ _ (by omega), getD_append_right _ _ _ _ (by omega), hfirst,
          getD_eq_getElem?_getD, getD_eq_getElem?_getD, List.getElem?_drop]
        congr 2
        omega
    · rfl

/-- A store into a range that was written, and what is done then. -/
theorem Buffer.store_within {α : Type} {size : ℕ} {y : List UInt8} (k : ℕ) (hb : a + k = b)
    (h : k + y.length ≤ x.length) (hsize : a + x.length ≤ size) (f : Buffer → Option α) :
    ((⟨size, writeBytes contents a x⟩ : Buffer).store b y >>= f) =
      f ⟨size, writeBytes contents a (x.take k ++ (y ++ x.drop (k + y.length)))⟩ := by
  have hinside : b + y.length ≤ size := by omega
  rw [store_bind hinside, writeBytes_within k hb h]

/-- A store right behind a range that was written, and what is done then. -/
theorem Buffer.store_behind {α : Type} {size : ℕ} {y : List UInt8} (hb : a + x.length = b)
    (hsize : b + y.length ≤ size) (f : Buffer → Option α) :
    ((⟨size, writeBytes contents a x⟩ : Buffer).store b y >>= f) =
      f ⟨size, writeBytes contents a (x ++ y)⟩ := by
  rw [store_bind hsize, writeBytes_behind hb]

/-- A store at the end of what was filled of a cleared range, and what is done then. -/
theorem Buffer.store_next {α : Type} {size : ℕ} {y : List UInt8} (m : ℕ) (hb : a + x.length = b)
    (hn : y.length + m = n) (hsize : b + n ≤ size) (f : Buffer → Option α) :
    ((⟨size, writeBytes contents a (x ++ List.replicate n 0)⟩ : Buffer).store b y >>= f) =
      f ⟨size, writeBytes contents a (x ++ y ++ List.replicate m 0)⟩ := by
  have hlength : (x ++ List.replicate n (0 : UInt8)).length = x.length + n := by
    rw [length_append, length_replicate]
  rw [store_within x.length hb (by omega) (by omega), take_left, drop_append,
    drop_eq_nil_of_le (by omega), nil_append, drop_replicate,
    show n - (x.length + y.length - x.length) = m by omega, append_assoc]

end Contents

end NovaOS
