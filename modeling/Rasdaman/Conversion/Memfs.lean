import Mathlib
import Rasdaman.Machinery.Chunks
import Rasdaman.Machinery.ExceptFold

/-!
# Conversion/Memfs — files in memory

The block file keeps its bytes in blocks of 4 KiB that a table leads to; the chunk file reads from one piece
of memory.  Positions and sizes are natural numbers; in the code they are `int`s, which hold them while the
positions stay below 2 GiB.
-/

namespace Rasdaman

namespace Memfs

open Chunks

/-- What an access can do wrong. -/
inductive Fault
  | outsideTable
  | notAllocated
  | outsideBlock
  | nullPointer
  deriving DecidableEq, Repr

/-- `1 << MEMFS_LD_BLOCKSIZE`. -/
def blockSize : ℕ := 4096

/-- `MEMFS_MAM_ENTRIES`. -/
def mamEntries : ℕ := 16

/-- `memFSContext` of a block file, and the blocks that were ever allocated; one that was freed is gone. -/
structure MemFS where
  pos : ℕ
  high : ℕ
  mamSize : ℕ
  mamHighest : ℕ
  mam : List (Option ℕ)
  heap : List (Option (List UInt8))

/-- The modes of a seek. -/
inductive Mode
  | set
  | cur
  | end
  | other

/-- Where a seek goes to. -/
def Mode.target (mode : Mode) (pos high : ℕ) (offset : ℤ) : ℤ :=
  match mode with
  | set => offset
  | cur => pos + offset
  | .end => high + offset
  | other => pos

/-! ## The block file -/

/-- `mymalloc` of a block; what is in it is not known. -/
def allocate (junk : ℕ → Fin blockSize → UInt8) (m : MemFS) (i : ℕ) : Except Fault MemFS :=
  if i < m.mam.length then
    .ok { m with
      mam := m.mam.set i (some m.heap.length)
      heap := m.heap ++ [some (List.ofFn (junk m.heap.length))] }
  else .error .outsideTable

/-- How often a number is shifted until it is 0. -/
def shifts (n : ℕ) : ℕ := if n = 0 then 0 else shifts (n / 2) + 1
termination_by n
decreasing_by omega

/-- The entries of a table of another size. -/
def growMam (m : MemFS) (size : ℕ) : MemFS :=
  { m with
    mam := m.mam.take m.mamSize ++ List.replicate (size - m.mamSize) none
    mamSize := size }

/-- `memfs_ensure`. -/
def ensure (junk : ℕ → Fin blockSize → UInt8) (m : MemFS) (off : ℕ) : Except Fault MemFS := do
  let block := off / blockSize
  let m := if block ≥ m.mamSize then growMam m (2 ^ shifts block) else m
  match m.mam[block]? with
  | none => .error .outsideTable
  | some (some _) => return m
  | some none =>
    let m ← (List.range' (m.mamHighest + 1) (block - m.mamHighest)).foldlM (allocate junk) m
    return { m with mamHighest := block }

/-- `memfs_initfs`. -/
def initfs (junk : ℕ → Fin blockSize → UInt8) : MemFS where
  pos := 0
  high := 0
  mamSize := mamEntries
  mamHighest := 0
  mam := some 0 :: List.replicate (mamEntries - 1) none
  heap := [some (List.ofFn (junk 0))]

/-- `free` of a block. -/
def freeBlock (heap : List (Option (List UInt8))) (address : ℕ) : Except Fault (List (Option (List UInt8))) :=
  match heap[address]? with
  | some (some _) => .ok (heap.set address none)
  | _ => .error .notAllocated

/-- `memfs_killfs`: the blocks that stay allocated. -/
def killfs (m : MemFS) : Except Fault (List (Option (List UInt8))) :=
  ((m.mam.take m.mamSize).takeWhile Option.isSome).reduceOption.foldlM freeBlock m.heap

/-- `memfs_newfile`. -/
def newfile (m : MemFS) : MemFS := { m with pos := 0, high := 0 }

/-- The block of a table entry. -/
def blockOf (m : MemFS) (block : ℕ) : Except Fault (ℕ × List UInt8) :=
  match m.mam[block]? with
  | none => .error .outsideTable
  | some none => .error .nullPointer
  | some (some address) =>
    match m.heap[address]? with
    | some (some bytes) => .ok (address, bytes)
    | _ => .error .notAllocated

/-- `memcpy` from a block. -/
def copyFrom (m : MemFS) (block offset x : ℕ) : Except Fault (List UInt8) := do
  let (_, bytes) ← blockOf m block
  if offset + x ≤ bytes.length then return extract bytes offset x else .error .outsideBlock

/-- `memcpy` to a block. -/
def copyTo (m : MemFS) (block offset : ℕ) (mem : List UInt8) : Except Fault MemFS := do
  let (address, bytes) ← blockOf m block
  if offset + mem.length ≤ bytes.length then
    return { m with heap := m.heap.set address (some (overwrite bytes offset mem)) }
  else .error .outsideBlock

/-- The loop of `memfs_read`. -/
def readBlocks (m : MemFS) (todo : ℕ) : Except Fault (List UInt8 × MemFS) :=
  if todo > 0 then do
    let block := m.pos / blockSize
    let offset := m.pos - block * blockSize
    let x := min (blockSize - offset) todo
    let bytes ← copyFrom m block offset x
    let (rest, m) ← readBlocks { m with pos := m.pos + x } (todo - x)
    return (bytes ++ rest, m)
  else return ([], m)
termination_by todo
decreasing_by
  have := Nat.div_add_mod' m.pos blockSize
  have := Nat.mod_lt m.pos (show 0 < blockSize by decide)
  omega

/-- `memfs_read`. -/
def read (m : MemFS) (size : ℕ) : Except Fault (List UInt8 × MemFS) :=
  readBlocks m (min (m.high - m.pos) size)

/-- The loop of `memfs_write`. -/
def writeBlocks (m : MemFS) (mem : List UInt8) : Except Fault MemFS :=
  if mem.length > 0 then do
    let block := m.pos / blockSize
    let offset := m.pos - block * blockSize
    let x := min (blockSize - offset) mem.length
    let m' ← copyTo m block offset (mem.take x)
    writeBlocks { m' with pos := m.pos + x } (mem.drop x)
  else return m
termination_by mem.length
decreasing_by
  have := Nat.div_add_mod' m.pos blockSize
  have := Nat.mod_lt m.pos (show 0 < blockSize by decide)
  rw [List.length_drop]
  omega

/-- `memfs_write`. -/
def write (junk : ℕ → Fin blockSize → UInt8) (m : MemFS) (mem : List UInt8) : Except Fault (ℕ × MemFS) := do
  let m ← ensure junk m (m.pos + mem.length)
  let m ← writeBlocks m mem
  return (mem.length, { m with high := max m.pos m.high })

/-- `memfs_seek`. -/
def seek (junk : ℕ → Fin blockSize → UInt8) (m : MemFS) (offset : ℤ) (mode : Mode) :
    Except Fault (ℕ × MemFS) := do
  let pos := (mode.target m.pos m.high offset).toNat
  let m ← ensure junk { m with pos } pos
  return (pos, { m with high := max m.pos m.high })

/-! ## The chunk file -/

/-- `memFSContext` of a chunk file. -/
structure ChunkFS where
  pos : ℕ
  high : ℕ
  chunk : List UInt8

/-- `memfs_chunk_initfs`. -/
def chunkInitfs (src : List UInt8) : ChunkFS := ⟨0, src.length, src⟩

/-- `memfs_chunk_read`. -/
def chunkRead (m : ChunkFS) (size : ℕ) : Except Fault (List UInt8 × ChunkFS) :=
  let todo := min (m.high - m.pos) size
  if todo > 0 then
    if m.pos + todo ≤ m.chunk.length then
      .ok (extract m.chunk m.pos todo, { m with pos := m.pos + todo })
    else .error .outsideBlock
  else .ok ([], m)

/-- `memfs_chunk_seek`: where the position is negative, the file is lost instead of the position. -/
def chunkSeek (m : ChunkFS) (offset : ℤ) (mode : Mode) : Except Fault (ℕ × ChunkFS) :=
  let target := mode.target m.pos m.high offset
  if target < 0 then .error .nullPointer
  else
    let pos := min target.toNat m.high
    .ok (pos, { m with pos })

/-! ## Runs -/

/-- The calls of a decoder or an encoder. -/
inductive Call
  | write (mem : List UInt8)
  | read (size : ℕ)
  | seek (offset : ℤ) (mode : Mode)
  | newfile

/-- What a call returns: bytes, or a count or position. -/
inductive Answer
  | bytes (bytes : List UInt8)
  | number (n : ℕ)
  | nothing
  deriving DecidableEq

/-- A call on a block file. -/
def call (junk : ℕ → Fin blockSize → UInt8) (m : MemFS) : Call → Except Fault (Answer × MemFS)
  | .write mem => (write junk m mem).map (Prod.map .number id)
  | .read size => (read m size).map (Prod.map .bytes id)
  | .seek offset mode => (seek junk m offset mode).map (Prod.map .number id)
  | .newfile => .ok (.nothing, newfile m)

/-- A run of calls, with their answers. -/
def run (junk : ℕ → Fin blockSize → UInt8) (m : MemFS) : List Call → Except Fault (List Answer × MemFS)
  | [] => .ok ([], m)
  | c :: cs => do
    let (answer, m) ← call junk m c
    let (answers, m) ← run junk m cs
    return (answer :: answers, m)

end Memfs

end Rasdaman
