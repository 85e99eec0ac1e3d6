import NovaOS.Lib.LittleEndian

/-!
# The kernel heap, `kernel/heap.c`

The heap is the memory itself: a `HeapBlock` is the 32 bytes in front of its payload, read and
written as bytes, and a pointer is an address with `0` for `NULL`.  So a store through a
pointer that is wrong would be seen by every later read of a header.

* `blockAt`, `setSize`, `setPrevious`, `setNext`, `setFree` — the fields of a header;
* `heapInit`, `heapAlloc`, `heapCalloc`, `heapFree`, `heapFreeBytes` — the functions of the file;
* `blockList` — the blocks the loops of the file go through.

A loop along `next` has fuel for as many headers as the heap range has room for; `none` is a walk
that is still under way then.
-/

namespace NovaOS.Heap

/-- `HEAP_START`. -/
def heapStart : ℕ := 0x02000000

/-- `HEAP_END`. -/
def heapEnd : ℕ := 0x3E000000

structure HeapBlock where
  size : ℕ
  previous : ℕ
  next : ℕ
  free : Bool
deriving Repr, DecidableEq

/-- `sizeof(HeapBlock)`. -/
def headerSize : ℕ := 32

def heapAlignment : ℕ := 16

/-! ### Headers in memory -/

def blockAt (memory : ℕ → UInt8) (a : ℕ) : HeapBlock where
  size := loadWord 8 memory a
  previous := loadWord 8 memory (a + 8)
  next := loadWord 8 memory (a + 16)
  free := memory (a + 24) != 0

def setSize (memory : ℕ → UInt8) (a size : ℕ) : ℕ → UInt8 := storeWord 8 memory a size

def setPrevious (memory : ℕ → UInt8) (a previous : ℕ) : ℕ → UInt8 :=
  storeWord 8 memory (a + 8) previous

def setNext (memory : ℕ → UInt8) (a next : ℕ) : ℕ → UInt8 := storeWord 8 memory (a + 16) next

def setFree (memory : ℕ → UInt8) (a : ℕ) (free : Bool) : ℕ → UInt8 :=
  writeBytes memory (a + 24) [if free then 1 else 0]

/-! ### The functions -/

structure HeapState where
  memory : ℕ → UInt8
  firstBlock : ℕ

def alignSize (size : ℕ) : ℕ := (size + heapAlignment - 1) % 2 ^ 64 / 16 * 16

def heapInit (memory : ℕ → UInt8) : HeapState :=
  let memory := setSize memory heapStart (heapEnd - heapStart - headerSize)
  let memory := setPrevious memory heapStart 0
  let memory := setNext memory heapStart 0
  ⟨setFree memory heapStart true, heapStart⟩

/-- `if (block->next) block->next->previous = block;`. -/
def relinkNext (memory : ℕ → UInt8) (block : ℕ) : ℕ → UInt8 :=
  if (blockAt memory block).next ≠ 0 then setPrevious memory (blockAt memory block).next block
  else memory

def splitBlock (memory : ℕ → UInt8) (block size : ℕ) : ℕ → UInt8 :=
  if (blockAt memory block).size < (size + headerSize + heapAlignment) % 2 ^ 64 then memory
  else
    let remainder := block + headerSize + size
    let memory := setSize memory remainder ((blockAt memory block).size - size - headerSize)
    let memory := setPrevious memory remainder block
    let memory := setNext memory remainder (blockAt memory block).next
    let memory := setFree memory remainder true
    let memory := relinkNext memory remainder
    let memory := setNext memory block remainder
    setSize memory block size

/-- The most headers the heap range has room for. -/
def walkFuel : ℕ := (heapEnd - heapStart) / headerSize

/-- The loop of `heap_alloc`. -/
def heapAllocLoop (size : ℕ) (memory : ℕ → UInt8) : ℕ → ℕ → Option (ℕ × (ℕ → UInt8))
  | 0, block => if block = 0 then some (0, memory) else none
  | fuel + 1, block =>
    if block = 0 then some (0, memory)
    else if (blockAt memory block).free = false ∨ (blockAt memory block).size < size then
      heapAllocLoop size memory fuel (blockAt memory block).next
    else some (block + headerSize, setFree (splitBlock memory block size) block false)

/-- `heap_alloc`: the pointer it returns, `0` for `NULL`. -/
def heapAlloc (heap : HeapState) (size : ℕ) : Option (ℕ × HeapState) :=
  if size = 0 ∨ heap.firstBlock = 0 then some (0, heap)
  else
    (heapAllocLoop (alignSize size) heap.memory walkFuel heap.firstBlock).map fun r =>
      (r.1, { heap with memory := r.2 })

def heapCalloc (heap : HeapState) (count size : ℕ) : Option (ℕ × HeapState) :=
  if size ≠ 0 ∧ (2 ^ 64 - 1) / size < count then some (0, heap)
  else
    let total := count * size % 2 ^ 64
    (heapAlloc heap total).map fun r =>
      if r.1 ≠ 0 then (r.1, { r.2 with memory := splice r.2.memory r.1 total fun _ => 0 }) else r

def mergeNext (memory : ℕ → UInt8) (block : ℕ) : ℕ → UInt8 :=
  let next := (blockAt memory block).next
  if next = 0 ∨ (blockAt memory next).free = false then memory
  else
    let memory := setSize memory block
      (((blockAt memory block).size + (headerSize + (blockAt memory next).size)) % 2 ^ 64)
    let memory := setNext memory block (blockAt memory next).next
    relinkNext memory block

/-- `if (block->previous && block->previous->free) merge_next(block->previous);`. -/
def mergePrevious (memory : ℕ → UInt8) (block : ℕ) : ℕ → UInt8 :=
  let previous := (blockAt memory block).previous
  if previous ≠ 0 ∧ (blockAt memory previous).free = true then mergeNext memory previous
  else memory

def heapFree (heap : HeapState) (pointer : ℕ) : HeapState :=
  if pointer = 0 ∨ pointer ≤ heapStart ∨ heapEnd ≤ pointer then heap
  else
    let block := pointer - headerSize
    if (blockAt heap.memory block).free then heap
    else
      let memory := setFree heap.memory block true
      let memory := mergeNext memory block
      { heap with memory := mergePrevious memory block }

/-- The blocks from `block` on along `next`, with their addresses. -/
def blocksFrom (memory : ℕ → UInt8) : ℕ → ℕ → Option (List (ℕ × HeapBlock))
  | 0, block => if block = 0 then some [] else none
  | fuel + 1, block =>
    if block = 0 then some []
    else
      (blocksFrom memory fuel (blockAt memory block).next).map ((block, blockAt memory block) :: ·)

def blockList (heap : HeapState) : Option (List (ℕ × HeapBlock)) :=
  blocksFrom heap.memory walkFuel heap.firstBlock

/-- `heap_free_bytes`. -/
def heapFreeBytes (heap : HeapState) : Option ℕ :=
  (blockList heap).map fun blocks =>
    blocks.foldl (fun total block => if block.2.free then (total + block.2.size) % 2 ^ 64 else total) 0

/-! ### Reading a header after a store -/

section Fields

variable {memory : ℕ → UInt8} {a b v : ℕ} {x : List UInt8}

theorem blockAt_congr {memory' : ℕ → UInt8}
    (h : ∀ i, b ≤ i → i < b + headerSize → memory' i = memory i) :
    blockAt memory' b = blockAt memory b := by
  have hword : ∀ offset, offset + 8 ≤ headerSize →
      loadWord 8 memory' (b + offset) = loadWord 8 memory (b + offset) := by
    intro offset hoffset
    rw [loadWord, loadWord]
    congr 1
    exact readBytes_congr fun i hi => h _ (by omega) (by omega)
  unfold blockAt
  rw [← Nat.add_zero b, hword 0 (by decide), hword 8 (by decide), hword 16 (by decide),
    Nat.add_zero, h _ (by omega) (by simp only [headerSize]; omega)]

/-- A store that misses a header does not change it. -/
theorem blockAt_writeBytes (h : a + x.length ≤ b ∨ b + headerSize ≤ a) :
    blockAt (writeBytes memory a x) b = blockAt memory b := by
  apply blockAt_congr
  intro i hi hi'
  exact writeBytes_of_outside (by omega)

/-- Two headers that do not overlap. -/
def HeadersApart (a b : ℕ) : Prop := a + headerSize ≤ b ∨ b + headerSize ≤ a

theorem blockAt_setSize_of_apart (h : HeadersApart a b) :
    blockAt (setSize memory a v) b = blockAt memory b := by
  apply blockAt_writeBytes
  simp only [HeadersApart, headerSize, length_leBytes] at h ⊢
  omega

theorem blockAt_setPrevious_of_apart (h : HeadersApart a b) :
    blockAt (setPrevious memory a v) b = blockAt memory b := by
  apply blockAt_writeBytes
  simp only [HeadersApart, headerSize, length_leBytes] at h ⊢
  omega

theorem blockAt_setNext_of_apart (h : HeadersApart a b) :
    blockAt (setNext memory a v) b = blockAt memory b := by
  apply blockAt_writeBytes
  simp only [HeadersApart, headerSize, length_leBytes] at h ⊢
  omega

theorem blockAt_setFree_of_apart {free : Bool} (h : HeadersApart a b) :
    blockAt (setFree memory a free) b = blockAt memory b := by
  apply blockAt_writeBytes
  simp only [HeadersApart, headerSize, List.length_singleton] at h ⊢
  omega

theorem blockAt_setSize (h : v < 2 ^ 64) :
    blockAt (setSize memory a v) a = { blockAt memory a with size := v } := by
  unfold blockAt setSize
  rw [loadWord_storeWord h, storeWord, loadWord_writeBytes (by simp),
    loadWord_writeBytes (by simp), writeBytes_of_outside (by simp)]

theorem blockAt_setPrevious (h : v < 2 ^ 64) :
    blockAt (setPrevious memory a v) a = { blockAt memory a with previous := v } := by
  unfold blockAt setPrevious
  rw [loadWord_storeWord h, storeWord, loadWord_writeBytes (by simp),
    loadWord_writeBytes (by simp), writeBytes_of_outside (by simp)]

theorem blockAt_setNext (h : v < 2 ^ 64) :
    blockAt (setNext memory a v) a = { blockAt memory a with next := v } := by
  unfold blockAt setNext
  rw [loadWord_storeWord h, storeWord, loadWord_writeBytes (by simp),
    loadWord_writeBytes (by simp), writeBytes_of_outside (by simp)]

theorem blockAt_setFree (free : Bool) :
    blockAt (setFree memory a free) a = { blockAt memory a with free := free } := by
  have hbyte : writeBytes memory (a + 24) [if free then 1 else 0] (a + 24) =
      if free then 1 else 0 := by
    rw [writeBytes, if_pos (by simp)]
    simp
  unfold blockAt setFree
  rw [loadWord_writeBytes (by simp), loadWord_writeBytes (by simp),
    loadWord_writeBytes (by simp), hbyte]
  cases free with
  | false => rfl
  | true => rfl

end Fields

end NovaOS.Heap
