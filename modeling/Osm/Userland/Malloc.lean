import Osm.Core.Loop
import Osm.Core.Memory
import Mathlib.Data.Int.Notation

/-!
# The userland heap allocator

A model of `malloc` and `free` of `tests/lib.c`. A block starts with its total size; a free block
has the address of the next free block in its second word. Everything is kept in the memory that
is managed, apart from the head of the free list. `size_t` and pointers have 32 bits and `NULL`
is `0`.

`syscall_memlimit` belongs to the kernel: whether it grants more memory is an argument of
`malloc`. A result `none` stands for a loop that does not end.
-/

namespace Osm.Userland

open Osm.Core

/-- The memory of a program, the head of its free list and the end of its heap. -/
structure Heap where
  mem      : Memory
  freeList : UInt32
  heapEnd  : UInt32

namespace Heap

/-- `block->size`. -/
def size (h : Heap) (block : UInt32) : UInt32 := h.mem.readWord block.toNat

/-- `block->next`. -/
def next (h : Heap) (block : UInt32) : UInt32 := h.mem.readWord (block.toNat + 4)

/-- `block->size = size`. -/
def setSize (h : Heap) (block size : UInt32) : Heap :=
  { h with mem := h.mem.writeWord block.toNat size }

/-- `block->next = next`. -/
def setNext (h : Heap) (block next : UInt32) : Heap :=
  { h with mem := h.mem.writeWord (block.toNat + 4) next }

/-- Assign to a link: the head of the free list, or the field `next` of a block. -/
def setLink (h : Heap) (next : UInt32) : Option UInt32 → Heap
  | none       => { h with freeList := next }
  | some block => h.setNext block next

section

variable (h : Heap) (block v : UInt32)

@[simp] lemma setSize_heapEnd : (h.setSize block v).heapEnd = h.heapEnd := rfl

@[simp] lemma setNext_freeList : (h.setNext block v).freeList = h.freeList := rfl

@[simp] lemma setNext_heapEnd : (h.setNext block v).heapEnd = h.heapEnd := rfl

@[simp] lemma setLink_none_mem : (h.setLink v none).mem = h.mem := rfl

@[simp] lemma setLink_none_freeList : (h.setLink v none).freeList = v := rfl

@[simp] lemma setLink_some (p : UInt32) : h.setLink v (some p) = h.setNext p v := rfl

@[simp] lemma setLink_heapEnd (prev : Option UInt32) : (h.setLink v prev).heapEnd = h.heapEnd := by
  cases prev <;> rfl

end

end Heap

/-- `sizeof(size_t)`. -/
def sizeofSizeT : UInt32 := 4

/-- `MIN_ALLOC_SIZE`. -/
def minAllocSize : UInt32 := 8

/-- The cast `(int)`. -/
def asInt (x : UInt32) : ℤ := x.toBitVec.toInt

/-- `syscall_memlimit`: it moves the end of the heap if the kernel grants it, and returns `NULL`
otherwise. For `NULL` it returns the end of the heap. -/
def syscallMemlimit (h : Heap) (heapEnd : UInt32) (grant : Bool) : Heap × UInt32 :=
  if heapEnd = 0 then (h, h.heapEnd)
  else if grant then ({ h with heapEnd := heapEnd }, heapEnd)
  else (h, 0)

/-- The size of a payload: big enough for the bookkeeping, and a multiple of four. -/
def roundSize (size : UInt32) : UInt32 :=
  let size := max minAllocSize size
  if size % 4 ≠ 0 then (size &&& ~~~3) + 4 else size

/-- One round of the loop of `malloc`; the loop variables are `prev_p` and `block`. The loop is
left with a result if the block is used, and with none at the end of the list. -/
def mallocStep (h : Heap) (size : UInt32) :
    Option UInt32 × UInt32 → (Option UInt32 × UInt32) ⊕ Option (Heap × UInt32)
  | (prev, block) =>
    if block = 0 then .inr none
    else if asInt (h.size block - size - sizeofSizeT) ≥ asInt (minAllocSize + sizeofSizeT) then
      let h := h.setSize block (h.size block - (size + sizeofSizeT))
      let newBlock := block + h.size block
      .inr (some (h.setSize newBlock (size + sizeofSizeT), newBlock + sizeofSizeT))
    else if h.size block ≥ size + sizeofSizeT then
      .inr (some (h.setLink (h.next block) prev, block + sizeofSizeT))
    else .inl (some block, h.next block)

/-- The end of `malloc`: no free block is big enough. -/
def mallocGrow (h : Heap) (size : UInt32) (grant : Bool) : Heap × UInt32 :=
  let heapEnd := (syscallMemlimit h 0 grant).2
  let fullSize := sizeofSizeT + size
  let (h, heapEndNew) := syscallMemlimit h (heapEnd + fullSize) grant
  if heapEndNew = 0 then (h, 0)
  else (h.setSize heapEnd fullSize, heapEnd + sizeofSizeT)

/-- `malloc`: the new heap and the pointer it returns. -/
def malloc (h : Heap) (size : UInt32) (grant : Bool) : Option (Heap × UInt32) :=
  if size = 0 then some (h, 0)
  else do
    let size := roundSize size
    let found ← loop (mallocStep h size) (2 ^ 32) (none, h.freeList)
    return found.getD (mallocGrow h size grant)

/-- Put `block` between two neighbours in the free list. -/
def freeLink (h : Heap) (block prev cur : UInt32) : Heap :=
  let h := if prev = 0 then { h with freeList := block } else h.setNext prev block
  h.setNext block cur

/-- `block->size += next->size`. -/
def freeGrow (h : Heap) (block next : UInt32) : Heap :=
  h.setSize block (h.size block + h.size next)

/-- Merge with previous: the heap and the block that goes on to be merged with the next. -/
def mergePrev (h : Heap) (block prev cur : UInt32) : Heap × UInt32 :=
  if prev ≠ 0 ∧ block - prev = h.size prev then ((freeGrow h prev block).setNext prev cur, prev)
  else (h, block)

/-- Merge with next. -/
def mergeNext (h : Heap) (block cur : UInt32) : Heap :=
  if cur ≠ 0 ∧ cur - block = h.size block then
    let h := freeGrow h block cur
    h.setNext block (h.next cur)
  else h

/-- The body of the loop of `free` at the place where the block belongs: it is put into the list
and merged with its neighbours. -/
def freeInsert (h : Heap) (block prev cur : UInt32) : Heap :=
  let merged := mergePrev (freeLink h block prev cur) block prev cur
  mergeNext merged.1 merged.2 cur

/-- One round of the loop of `free`; the loop variables are `prev_block` and `cur_block`. -/
def freeStep (h : Heap) (block : UInt32) : UInt32 × UInt32 → (UInt32 × UInt32) ⊕ Heap
  | (prev, cur) =>
    if cur > block ∨ cur = 0 then .inr (freeInsert h block prev cur)
    else .inl (cur, h.next cur)

/-- `free`. -/
def free (h : Heap) (ptr : UInt32) : Option Heap :=
  if ptr = 0 then some h
  else loop (freeStep h (ptr - sizeofSizeT)) (2 ^ 32) (0, h.freeList)

end Osm.Userland
