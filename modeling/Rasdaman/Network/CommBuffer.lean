import Rasdaman.Machinery.Memory

/-!
# Network/CommBuffer — the buffers of the RNP connections

`akg::CommBuffer`.  `data` is the array that is allocated, of which the buffer uses the first `buffSize`
bytes; the array is reused as long as it is large enough.
-/

namespace Rasdaman

open Memory

structure CommBuffer where
  data : Region
  buffSize : ℕ
  fillSize : ℕ
  deriving DecidableEq, Repr

namespace CommBuffer

/-- A program on the array. -/
def onData {α : Type} (b : CommBuffer) (x : Access α) : Except Fault (α × CommBuffer) := do
  let (a, data) ← x b.data
  return (a, { b with data := data })

def clearToRead (b : CommBuffer) : CommBuffer := { b with fillSize := 0 }

/-- `CommBuffer::read`. -/
def read (externalBuffer : List UInt8) (b : CommBuffer) : Except Fault CommBuffer := do
  let cpSize := min externalBuffer.length (b.buffSize - b.fillSize)
  let (_, b) ← b.onData (put b.fillSize (externalBuffer.take cpSize))
  return { b with fillSize := b.fillSize + cpSize }

/-- `CommBuffer::reserve`. -/
def reserve (size : ℕ) (b : CommBuffer) : CommBuffer :=
  { b with fillSize := b.fillSize + min size (b.buffSize - b.fillSize) }

/-- The received bytes. -/
def received (b : CommBuffer) : Region := b.data.take b.fillSize

variable {b : CommBuffer} {α : Type} {x : Access α} {a : α} {mem' : Region}

theorem onData_ok (h : x b.data = .ok (a, mem')) : b.onData x = .ok (a, { b with data := mem' }) := by
  rw [onData, h]
  rfl

theorem reserve_eq {size : ℕ} (h : b.fillSize + size ≤ b.buffSize) :
    b.reserve size = { b with fillSize := b.fillSize + size } := by
  rw [reserve, Nat.min_eq_left (by omega)]

/-- Bytes that fit are copied behind the data. -/
theorem read_eq {bs pre old post : Region} (hdata : b.data = pre ++ (old ++ post))
    (hpre : b.fillSize = pre.length) (hold : old.length = bs.length)
    (h : b.fillSize + bs.length ≤ b.buffSize) :
    b.read bs = .ok { b with data := pre ++ (bs ++ post), fillSize := b.fillSize + bs.length } := by
  have hput : put b.fillSize (bs.take bs.length) b.data = .ok ((), pre ++ (bs ++ post)) := by
    rw [hdata, List.take_length]
    exact put_mid (by rw [hpre]) hold.symm
  rw [read, Nat.min_eq_left (by omega), onData_ok hput]
  rfl

end CommBuffer

end Rasdaman
