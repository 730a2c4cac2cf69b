import Rtems.Words

/-!
# The Heap Handler

The memory is one of 32-bit words, addressed in bytes. A `Heap_Control` sits in the same memory, so
writes through the head and the tail of the free list land on its `first` and `last` fields. A word is a
`Nat`; sums and differences are reduced modulo `2 ^ 32`.
-/

namespace Rtems

abbrev Memory := Nat → Nat

def Memory.store (m : Memory) (a v : Nat) : Memory := fun x => if x = a then v else m x

namespace Heap

/-! ## Constants of heap.h -/

def blockUsed : Nat := 1

def dummyFlag : Nat := 0 + blockUsed

def overhead : Nat := 8

def blockUsedOverhead : Nat := 8

def sizeofBlock : Nat := 16

def minimumSize : Nat := overhead + sizeofBlock

/-- `CPU_HEAP_ALIGNMENT` is 4 or 8 on the ports. -/
def cpuHeapAlignment : Nat := 4

/-! ## The fields of `Heap_Block` and `Heap_Control` -/

variable (m : Memory)

def backFlag (b : Nat) : Nat := m b
def frontFlag (b : Nat) : Nat := m (b + 4)
def next (b : Nat) : Nat := m (b + 8)
def previous (b : Nat) : Nat := m (b + 12)

def setBackFlag (b v : Nat) : Memory := m.store b v
def setFrontFlag (b v : Nat) : Memory := m.store (b + 4) v
def setNext (b v : Nat) : Memory := m.store (b + 8) v
def setPrevious (b v : Nat) : Memory := m.store (b + 12) v

def start (h : Nat) : Nat := m h
def final (h : Nat) : Nat := m (h + 4)
def first (h : Nat) : Nat := m (h + 8)
def pageSize (h : Nat) : Nat := m (h + 20)

def setStart (h v : Nat) : Memory := m.store h v
def setFinal (h v : Nat) : Memory := m.store (h + 4) v
def setFirst (h v : Nat) : Memory := m.store (h + 8) v
def setPermanentNull (h v : Nat) : Memory := m.store (h + 12) v
def setLast (h v : Nat) : Memory := m.store (h + 16) v
def setPageSize (h v : Nat) : Memory := m.store (h + 20) v

/-! ## heap.inl -/

def head (h : Nat) : Nat := h

def tail (h : Nat) : Nat := h + 4

def clearUsed (flag : Nat) : Nat := flag &&& (2 ^ 32 - 1 - blockUsed)

def previousBlock (b : Nat) : Nat := subWord b (clearUsed (backFlag m b))
def nextBlock (b : Nat) : Nat := addWord b (clearUsed (frontFlag m b))
def blockAt (base offset : Nat) : Nat := addWord base offset

def userBlockAt (base : Nat) : Nat :=
  let offset := m (base - 4)
  blockAt base (addWord (subWord 0 offset) (subWord 0 blockUsedOverhead))

def isPreviousBlockFree (b : Nat) : Bool := backFlag m b &&& blockUsed = 0
def isBlockFree (b : Nat) : Bool := frontFlag m b &&& blockUsed = 0
def blockSize (b : Nat) : Nat := clearUsed (frontFlag m b)
def startOfUserArea (b : Nat) : Nat := b + 8
def isBlockIn (h b : Nat) : Bool := start m h ≤ b ∧ b ≤ final m h
def isPageSizeValid (page : Nat) : Bool := page ≠ 0 ∧ page % cpuHeapAlignment = 0
def buildFlag (size inUse : Nat) : Nat := size ||| inUse

/-! ## heap.c -/

/-- `_Heap_Initialize`, with the number of bytes that it returns. -/
def initializeHeap (h startingAddress size page : Nat) : Memory × Nat :=
  if ¬ isPageSizeValid page ∨ size < minimumSize then (m, 0)
  else
    let m := setPageSize m h page
    let theSize := subWord size overhead
    let theBlock := startingAddress
    let m := setBackFlag m theBlock dummyFlag
    let m := setFrontFlag m theBlock theSize
    let m := setNext m theBlock (tail h)
    let m := setPrevious m theBlock (head h)
    let m := setStart m h theBlock
    let m := setFirst m h theBlock
    let m := setPermanentNull m h 0
    let m := setLast m h theBlock
    let theBlock := nextBlock m theBlock
    let m := setBackFlag m theBlock theSize
    let m := setFrontFlag m theBlock dummyFlag
    let m := setFinal m h theBlock
    (m, subWord theSize blockUsedOverhead)

def roundedSize (page size : Nat) : Nat :=
  let excess := size % page
  let theSize := addWord (addWord size page) blockUsedOverhead
  let theSize := if excess ≠ 0 then addWord theSize (page - excess) else theSize
  if theSize < sizeofBlock then sizeofBlock else theSize

/-- `none` when the fuel runs out, `some none` at the tail. -/
def search (m : Memory) (h theSize : Nat) : Nat → Nat → Option (Option Nat)
  | 0, _ => none
  | fuel + 1, theBlock =>
    if theBlock = tail h then some none
    else if frontFlag m theBlock ≥ theSize then some (some theBlock)
    else search m h theSize fuel (next m theBlock)

def carve (h theBlock theSize : Nat) : Memory × Nat :=
  if subWord (frontFlag m theBlock) theSize > addWord (pageSize m h) blockUsedOverhead then
    let m := setFrontFlag m theBlock (subWord (frontFlag m theBlock) theSize)
    let nextB := nextBlock m theBlock
    let m := setBackFlag m nextB (frontFlag m theBlock)
    let temporaryBlock := blockAt nextB theSize
    let m := setFrontFlag m nextB (buildFlag theSize blockUsed)
    let m := setBackFlag m temporaryBlock (frontFlag m nextB)
    (m, startOfUserArea nextB)
  else
    let nextB := nextBlock m theBlock
    let m := setBackFlag m nextB (buildFlag (frontFlag m theBlock) blockUsed)
    let m := setFrontFlag m theBlock (backFlag m nextB)
    let m := setPrevious m (next m theBlock) (previous m theBlock)
    let m := setNext m (previous m theBlock) (next m theBlock)
    (m, startOfUserArea theBlock)

def bump (h ptr : Nat) : Memory × Nat :=
  let offset := subWord (pageSize m h) (ptr &&& (pageSize m h - 1))
  let ptr := addWord ptr offset
  (m.store (ptr - 4) offset, ptr)

/-- `_Heap_Allocate`, with 0 for `NULL`; the fuel is enough. -/
def allocate (h size : Nat) : Option (Memory × Nat) :=
  let theSize := roundedSize (pageSize m h) size
  match search m h theSize (final m h - start m h + 1) (first m h) with
  | none => none
  | some none => some (m, 0)
  | some (some theBlock) =>
    let (m, ptr) := carve m h theBlock theSize
    some (bump m h ptr)

/-- `_Heap_Free` after its checks. -/
def release (h theBlock nextB theSize : Nat) : Memory × Bool :=
  if isPreviousBlockFree m theBlock then
    let previousB := previousBlock m theBlock
    if ¬ isBlockIn m h previousB then (m, false)
    else if isBlockFree m nextB then
      let m := setFrontFlag m previousB
        (addWord (frontFlag m previousB) (addWord (frontFlag m nextB) theSize))
      let temporaryBlock := nextBlock m previousB
      let m := setBackFlag m temporaryBlock (frontFlag m previousB)
      let m := setPrevious m (next m nextB) (previous m nextB)
      let m := setNext m (previous m nextB) (next m nextB)
      (m, true)
    else
      let m := setBackFlag m nextB (addWord (frontFlag m previousB) theSize)
      let m := setFrontFlag m previousB (backFlag m nextB)
      (m, true)
  else if isBlockFree m nextB then
    let m := setFrontFlag m theBlock (addWord theSize (frontFlag m nextB))
    let newNextBlock := nextBlock m theBlock
    let m := setBackFlag m newNextBlock (frontFlag m theBlock)
    let m := setNext m theBlock (next m nextB)
    let m := setPrevious m theBlock (previous m nextB)
    let m := setNext m (previous m nextB) theBlock
    let m := setPrevious m (next m nextB) theBlock
    let m := if first m h = nextB then setFirst m h theBlock else m
    (m, true)
  else
    let m := setFrontFlag m theBlock theSize
    let m := setBackFlag m nextB (frontFlag m theBlock)
    let m := setPrevious m theBlock (head h)
    let m := setNext m theBlock (first m h)
    let m := setFirst m h theBlock
    let m := setPrevious m (next m theBlock) theBlock
    (m, true)

def free (h startingAddress : Nat) : Memory × Bool :=
  let theBlock := userBlockAt m startingAddress
  if ¬ isBlockIn m h theBlock ∨ isBlockFree m theBlock then (m, false)
  else
    let theSize := blockSize m theBlock
    let nextB := blockAt theBlock theSize
    if ¬ isBlockIn m h nextB ∨ frontFlag m theBlock ≠ backFlag m nextB then (m, false)
    else release m h theBlock nextB theSize

/-- `_Heap_Size_of_user_area`, `none` for `FALSE`. -/
def sizeOfUserArea (h startingAddress : Nat) : Option Nat :=
  let theBlock := userBlockAt m startingAddress
  if ¬ isBlockIn m h theBlock ∨ isBlockFree m theBlock then none
  else
    let theSize := blockSize m theBlock
    let nextB := blockAt theBlock theSize
    if ¬ isBlockIn m h nextB ∨ frontFlag m theBlock ≠ backFlag m nextB then none
    else some theSize

inductive ExtendStatus
  | successful
  | error
  | notImplemented
  deriving DecidableEq, Repr

/-- `_Heap_Extend`, with `*amount_extended` when it is written. -/
def extend (h startingAddress size : Nat) : Memory × ExtendStatus × Option Nat :=
  if startingAddress ≥ start m h ∧ startingAddress ≤ final m h then (m, .error, none)
  else if startingAddress < start m h then (m, .notImplemented, none)
  else if subWord startingAddress overhead ≠ final m h then (m, .notImplemented, none)
  else
    -- the new area is made to look like a used block, which is then freed
    let oldFinal := final m h
    let newFinal := addWord oldFinal size
    let m := setFinal m h newFinal
    let m := setBackFlag m newFinal (buildFlag size blockUsed)
    let m := setFrontFlag m oldFinal (backFlag m newFinal)
    let m := setFrontFlag m newFinal dummyFlag
    let m := setNext m oldFinal 4
    ((free m h (oldFinal + 12)).1, .successful, some size)

end Heap

end Rtems
