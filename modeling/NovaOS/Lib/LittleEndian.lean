import NovaOS.Lib.Bytes

/-!
# Little-endian words in a byte buffer

`leBytes width value` are the bytes of a word and `leValue` is the word some bytes stand for.
`loadWord` and `storeWord` read and write a word of a buffer: a load gives back what was stored
(`loadWord_storeWord`), and a load elsewhere does not see the store (`loadWord_writeBytes`).
-/

namespace NovaOS

open List Nat

/-- The `width` low bytes of `value`, the lowest first. -/
def leBytes : ℕ → ℕ → List UInt8
  | 0, _ => []
  | width + 1, value => UInt8.ofNat value :: leBytes width (value / 256)

/-- Words of eight bytes, one behind the other. -/
def wordBytes (words : List ℕ) : List UInt8 := words.flatMap (leBytes 8)

/-- The word that stands in some bytes, the lowest first. -/
def leValue : List UInt8 → ℕ
  | [] => 0
  | byte :: bytes => byte.toNat + 256 * leValue bytes

/-- The word of `width` bytes at `a`. -/
def loadWord (width : ℕ) (contents : ℕ → UInt8) (a : ℕ) : ℕ := leValue (readBytes contents a width)

/-- The buffer after a word of `width` bytes was stored at `a`. -/
def storeWord (width : ℕ) (contents : ℕ → UInt8) (a value : ℕ) : ℕ → UInt8 :=
  writeBytes contents a (leBytes width value)

@[simp] theorem length_leBytes (width value : ℕ) : (leBytes width value).length = width := by
  induction width generalizing value with
  | zero => rfl
  | succ width ih => rw [leBytes, length_cons, ih]

theorem leValue_leBytes (width : ℕ) {value : ℕ} (h : value < 256 ^ width) :
    leValue (leBytes width value) = value := by
  induction width generalizing value with
  | zero => exact (lt_one_iff.1 h).symm
  | succ width ih =>
    have hrest : value / 256 < 256 ^ width := by
      rw [div_lt_iff_lt_mul (by decide), ← pow_succ]
      exact h
    rw [leBytes, leValue, ih hrest, UInt8.toNat_ofNat']
    exact mod_add_div value 256

theorem leValue_lt (bytes : List UInt8) : leValue bytes < 256 ^ bytes.length := by
  induction bytes with
  | nil => exact one_pos
  | cons byte bytes ih =>
    have hbyte := byte.toNat_lt
    rw [leValue, length_cons, pow_succ]
    omega

theorem leBytes_leValue (bytes : List UInt8) : leBytes bytes.length (leValue bytes) = bytes := by
  induction bytes with
  | nil => rfl
  | cons byte bytes ih =>
    have hbyte : byte.toNat < 256 := byte.toNat_lt
    have hfirst : UInt8.ofNat (byte.toNat + 256 * leValue bytes) = byte := by
      apply UInt8.toNat_inj.1
      rw [UInt8.toNat_ofNat']
      omega
    have hrest : (byte.toNat + 256 * leValue bytes) / 256 = leValue bytes := by omega
    rw [leValue, length_cons, leBytes, hfirst, hrest, ih]

section Buffers

variable {contents : ℕ → UInt8} {a b width n value : ℕ} {x : List UInt8}

theorem loadWord_lt : loadWord width contents a < 256 ^ width := by
  have h := leValue_lt (readBytes contents a width)
  rwa [length_readBytes] at h

theorem writeBytes_of_outside (h : b < a ∨ a + x.length ≤ b) :
    writeBytes contents a x b = contents b := by
  rw [writeBytes_eq_splice]
  exact splice_of_outside h

theorem readBytes_writeBytes_self : readBytes (writeBytes contents a x) a x.length = x := by
  apply ext_getD length_readBytes
  intro i hi
  rw [getD_readBytes hi, writeBytes_eq_splice, splice_of_inside (by omega) (by omega),
    Nat.add_sub_cancel_left]

theorem readBytes_writeBytes (h : b + n ≤ a ∨ a + x.length ≤ b) :
    readBytes (writeBytes contents a x) b n = readBytes contents b n := by
  apply readBytes_congr
  intro i hi
  exact writeBytes_of_outside (by omega)

theorem loadWord_storeWord (h : value < 256 ^ width) :
    loadWord width (storeWord width contents a value) a = value := by
  have hread : readBytes (writeBytes contents a (leBytes width value)) a (leBytes width value).length =
      leBytes width value := readBytes_writeBytes_self
  rw [length_leBytes] at hread
  rw [loadWord, storeWord, hread, leValue_leBytes width h]

theorem loadWord_writeBytes (h : b + width ≤ a ∨ a + x.length ≤ b) :
    loadWord width (writeBytes contents a x) b = loadWord width contents b := by
  rw [loadWord, readBytes_writeBytes h, loadWord]

/-- Storing a word where it stands already changes nothing. -/
theorem storeWord_loadWord : storeWord width contents a (loadWord width contents a) = contents := by
  have hbytes : leBytes width (loadWord width contents a) = readBytes contents a width := by
    have h := leBytes_leValue (readBytes contents a width)
    rwa [length_readBytes] at h
  funext i
  rw [storeWord, hbytes]
  by_cases hi : a ≤ i ∧ i < a + width
  · rw [writeBytes, length_readBytes, if_pos hi, getD_readBytes (by omega), Nat.add_sub_cancel' hi.1]
  · apply writeBytes_of_outside
    rw [length_readBytes]
    omega

/-- The bytes of one field of a record that was written, with `back` behind it. -/
theorem readBytes_of_drop {field back : List UInt8} {i : ℕ} (hi : x.drop i = field ++ back) :
    readBytes (writeBytes contents a x) (a + i) field.length = field := by
  have hlength := congrArg List.length hi
  rw [length_drop, length_append] at hlength
  apply ext_getD length_readBytes
  intro j hj
  rw [getD_readBytes hj, writeBytes_eq_splice, splice_of_inside (by omega) (by omega),
    Nat.add_assoc, Nat.add_sub_cancel_left, ← getD_append field back 0 j hj, ← hi,
    getD_eq_getElem?_getD, getD_eq_getElem?_getD, List.getElem?_drop]

/-- The word in one field of a record that was written. -/
theorem loadWord_of_drop {back : List UInt8} {i : ℕ} (hi : x.drop i = leBytes width value ++ back)
    (h : value < 256 ^ width) : loadWord width (writeBytes contents a x) (a + i) = value := by
  have hread : readBytes (writeBytes contents a x) (a + i) (leBytes width value).length =
      leBytes width value := readBytes_of_drop hi
  rw [length_leBytes] at hread
  rw [loadWord, hread, leValue_leBytes width h]

end Buffers

end NovaOS
