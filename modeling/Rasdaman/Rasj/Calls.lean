import Rasdaman.Rasj.CellNumbers
import Rasdaman.Rasj.RasMInterval

/-!
# Rasj/Calls — calls in the Java client and in C++

A call is made on objects of the client and on variables with the same values.  It has an effect: how it
ends, and what the receiver and the operands are after it.
-/

namespace Rasdaman

/-- The objects of a client: the `RasSInterval`s, and the intervals that each `RasMInterval` holds. -/
structure Objects where
  heap : Heap Sinterval
  mints : ℕ → List ℕ
  sound : ∀ r < heap.next, (heap.get r).Sound ∧ (heap.get r).InRange
  allocated : ∀ d, heap.Allocated (mints d)

/-- The domain that a `RasMInterval` stands for. -/
def Objects.value (O : Objects) (d : ℕ) : Minterval := O.heap.contents (O.mints d)

/-- The arrays of the `RasMInterval`s, which may have nulls after an exception. -/
def Objects.arrays (O : Objects) (d : ℕ) : List (Option ℕ) := (O.mints d).map some

/-- What is returned, and what a receiver or an operand is. -/
inductive CallValue
  | truth (b : Bool)
  | interval (s : Sinterval)
  | domain (m : List (Option Sinterval))
  | number (n : ℤ)
  | point (p : List ℤ)
  deriving DecidableEq

/-- How a call ends, and the receiver and the operands after it. -/
structure CallEffect where
  outcome : Outcome CallValue
  after : List CallValue
  deriving DecidableEq

/-- The methods of an interval. -/
inductive IntervalCall
  | intersectsWith (interval : ℕ)
  | equals (interval : ℕ)
  | opOf (op : IntervalOp) (interval1 interval2 : ℕ)
  | opWith (op : IntervalOp) (interval : ℕ)
  | create (op : IntervalOp) (interval : ℕ)

/-- The methods of a domain. -/
inductive DomainCall
  | intersectsWith (mint : ℕ)
  | equals (mint : ℕ)
  | covers (mint : ℕ)
  | coversPoint (pnt : List ℤ)
  | opOf (op : IntervalOp) (mint1 mint2 : ℕ)
  | opWith (op : IntervalOp) (mint : ℕ)
  | create (op : IntervalOp) (mint : ℕ)
  | createTranslation (t : List ℤ)
  | cellOffset (point : List ℤ)
  | cellPoint (offset : ℕ)

namespace IntervalCall

/-- The receiver and the operands. -/
def involved (this : ℕ) : IntervalCall → List ℕ
  | intersectsWith interval | equals interval | opWith _ interval | create _ interval => [this, interval]
  | opOf _ interval1 interval2 => [this, interval1, interval2]

/-- The objects after a call that returns an object, if any, and its outcome. -/
def object (result : Heap Sinterval × Option ℕ) : Heap Sinterval × Outcome CallValue :=
  (result.1, .ofOption (result.2.map fun r => .interval (result.1.get r)))

/-- A call on `RasSInterval`s.  `intersectsWith` returns -1 for "no". -/
def javaResult (h : Heap Sinterval) (this : ℕ) : IntervalCall → Heap Sinterval × Outcome CallValue
  | intersectsWith interval => (h, .returns (.truth (RasSInterval.intersectsWith h this interval ≠ -1)))
  | equals interval => (h, .returns (.truth (RasSInterval.equals h this interval)))
  | opOf op interval1 interval2 => object (RasSInterval.opOf op h this interval1 interval2)
  | opWith op interval => object (RasSInterval.opWith op h this interval)
  | create op interval => object (RasSInterval.create op h this interval)

def java (h : Heap Sinterval) (this : ℕ) (call : IntervalCall) : CallEffect :=
  ⟨(call.javaResult h this).2,
    (call.involved this).map fun r => .interval ((call.javaResult h this).1.get r)⟩

/-- The variables after a call whose result the receiver takes, and its outcome. -/
def assign (V : ℕ → Sinterval) (this : ℕ) : Except RError Sinterval → (ℕ → Sinterval) × Outcome CallValue
  | .error _ => (V, .throws)
  | .ok v => (Function.update V this v, .returns (.interval v))

/-- A call on `r_Sinterval`s. -/
def cppResult (V : ℕ → Sinterval) (this : ℕ) : IntervalCall → (ℕ → Sinterval) × Outcome CallValue
  | intersectsWith interval => (V, .returns (.truth ((V this).intersectsWith (V interval))))
  | equals interval => (V, .returns (.truth ((V this).equals (V interval))))
  | opOf op interval1 interval2 => assign V this (Sinterval.calcOp op (V interval1) (V interval2))
  | opWith op interval => assign V this (Sinterval.calcOp op (V interval) (V this))
  | create op interval =>
    (V, .ofOption ((Sinterval.calcOp op (V interval) (V this)).toOption.map .interval))

def cpp (V : ℕ → Sinterval) (this : ℕ) (call : IntervalCall) : CallEffect :=
  ⟨(call.cppResult V this).2, (call.involved this).map fun r => .interval ((call.cppResult V this).1 r)⟩

/-- The closure with an operand leaves the receiver as it is only where that covers the operand. -/
def Meets (V : ℕ → Sinterval) (this : ℕ) : IntervalCall → Prop
  | opWith .closure interval => (V this).covers (V interval) = true
  | _ => True

end IntervalCall

namespace DomainCall

/-- The receiver and the operands. -/
def involved (this : ℕ) : DomainCall → List ℕ
  | intersectsWith mint | equals mint | covers mint | opWith _ mint | create _ mint => [this, mint]
  | opOf _ mint1 mint2 => [this, mint1, mint2]
  | coversPoint _ | createTranslation _ | cellOffset _ | cellPoint _ => [this]

/-- A domain without nulls. -/
def whole (m : Minterval) : CallValue := .domain (m.map some)

/-- A call on `RasMInterval`s: the intervals and the arrays after it, and its outcome.  `covers` returns 1
for "yes". -/
def javaResult (O : Objects) (this : ℕ) :
    DomainCall → Heap Sinterval × (ℕ → List (Option ℕ)) × Outcome CallValue
  | intersectsWith mint =>
    (O.heap, O.arrays, if (O.mints this).length ≠ (O.mints mint).length then .throws
      else .returns (.truth (RasMInterval.intersectsWith O.heap (O.mints this) (O.mints mint))))
  | equals mint => (O.heap, O.arrays, .returns (.truth (RasMInterval.equals (O.mints this) (O.mints mint))))
  | covers mint =>
    (O.heap, O.arrays, .returns (.truth (RasMInterval.covers O.heap (O.mints this) (O.mints mint) = 1)))
  | coversPoint pnt =>
    (O.heap, O.arrays, .returns (.truth (RasMInterval.coversPoint O.heap (O.mints this) pnt = 1)))
  | opOf op mint1 mint2 =>
    if (O.mints mint1).length ≠ (O.mints mint2).length then (O.heap, O.arrays, .throws)
    else
      let r := RasMInterval.ofLoop op (mint1 = this) (mint2 = this)
        ((O.mints mint1).zip (O.mints mint2)) O.heap
      (r.1, Function.update O.arrays this r.2.1,
        if r.2.2 then .throws else .returns (.domain (r.2.1.map (Option.map r.1.get))))
  | opWith op mint =>
    if (O.mints this).length ≠ (O.mints mint).length then (O.heap, O.arrays, .throws)
    else
      let r := RasMInterval.withLoop op ((O.mints this).zip (O.mints mint)) O.heap
      (r.1, O.arrays, if r.2 then .throws else .returns (whole (r.1.contents (O.mints this))))
  | create op mint =>
    if (O.mints this).length ≠ (O.mints mint).length then (O.heap, O.arrays, .throws)
    else
      let r := RasMInterval.createLoop op ((O.mints this).zip (O.mints mint)) O.heap
      (r.1, O.arrays, .ofOption (r.2.map fun m => whole (r.1.contents m)))
  | createTranslation t =>
    if (O.mints this).length ≠ t.length then (O.heap, O.arrays, .throws)
    else
      let r := RasMInterval.translationLoop ((O.mints this).zip t) O.heap
      (r.1, O.arrays, .ofOption (r.2.map fun m => whole (r.1.contents m)))
  | cellOffset point =>
    (O.heap, O.arrays, .ofOption ((RasMInterval.cellOffset (O.value this) point).toOption.map .number))
  | cellPoint offset => (O.heap, O.arrays, (RasMInterval.pointOutcome (O.value this) offset).map .point)

def java (O : Objects) (this : ℕ) (call : DomainCall) : CallEffect :=
  let result := call.javaResult O this
  ⟨result.2.2, (call.involved this).map fun d => .domain ((result.2.1 d).map (Option.map result.1.get))⟩

/-- A call on `r_Minterval`s: the variables after it, and its outcome. -/
def cppResult (V : ℕ → Minterval) (this : ℕ) : DomainCall → (ℕ → Minterval) × Outcome CallValue
  | intersectsWith mint => (V, .returns (.truth ((V this).intersectsWith (V mint))))
  | equals mint => (V, .returns (.truth ((V this).equals (V mint))))
  | covers mint => (V, .returns (.truth ((V this).covers (V mint))))
  | coversPoint pnt => (V, .returns (.truth ((V this).coversPoint pnt)))
  | opOf op mint1 mint2 =>
    if (V mint1).length ≠ (V mint2).length then (V, .throws)
    else
      let r := Minterval.opOf op (V this) (V mint1) (V mint2)
      (Function.update V this r.1, if r.2 then .throws else .returns (whole r.1))
  | opWith op mint =>
    if (V this).length ≠ (V mint).length then (V, .throws)
    else
      let r := Minterval.opWith op (V this) (V mint)
      (Function.update V this r.1, if r.2 then .throws else .returns (whole r.1))
  | create op mint =>
    if (V this).length ≠ (V mint).length then (V, .throws)
    else (V, .ofOption ((Minterval.create op (V this) (V mint)).toOption.map whole))
  | createTranslation t => (V, .ofOption (((V this).createTranslation t).toOption.map whole))
  | cellOffset point =>
    (V, .ofOption (((V this).cellOffset point).toOption.map fun offset : ℕ => .number offset))
  | cellPoint offset => (V, (RasMInterval.pointOutcomeOf (V this) offset).map .point)

def cpp (V : ℕ → Minterval) (this : ℕ) (call : DomainCall) : CallEffect :=
  let result := call.cppResult V this
  ⟨result.2, (call.involved this).map fun d => whole (result.1 d)⟩

/-- What a call needs for both to do the same. -/
def Meets (O : Objects) (this : ℕ) : DomainCall → Prop
  | intersectsWith mint => (O.mints this).length = (O.mints mint).length
  | equals mint => (O.value this).equals (O.value mint) = true → O.mints this = O.mints mint
  | opOf op mint1 mint2 => (O.mints mint1).length = (O.mints mint2).length →
    RasMInterval.Undisturbed op (mint1 = this) (mint2 = this)
      (((O.value this).resize (O.mints mint1).length).zip ((O.value mint1).zip (O.value mint2)))
  | opWith op mint => (O.mints this).length = (O.mints mint).length →
    if op = .closure then (O.value this).covers (O.value mint) = true
    else RasMInterval.Isolated op O.heap (O.mints this) (O.mints mint)
  | createTranslation t => RasMInterval.TranslationAgrees (O.value this) t
  | cellOffset point => RasMInterval.OffsetAgrees (O.value this) point
  | cellPoint offset =>
    RasMInterval.Measured (O.value this) ∧ RasMInterval.PointAgrees (O.value this) offset
  | covers _ | coversPoint _ | create _ _ => True

/-- A receiver that takes a result has different objects in its dimensions, and one whose cells are numbered
has extents less than `2^63`. -/
def Plain (O : Objects) (this : ℕ) : DomainCall → Prop
  | opWith _ _ => (O.mints this).Nodup
  | cellPoint _ => RasMInterval.Measured (O.value this)
  | _ => True

end DomainCall

/-- A call on an interval or on a domain. -/
inductive ClientCall
  | onInterval (this : ℕ) (call : IntervalCall)
  | onDomain (this : ℕ) (call : DomainCall)

namespace ClientCall

/-- A call in the client. -/
def java (O : Objects) : ClientCall → CallEffect
  | onInterval this call => call.java O.heap this
  | onDomain this call => call.java O this

/-- The same call in C++, on variables with the values of the objects. -/
def cpp (O : Objects) : ClientCall → CallEffect
  | onInterval this call => call.cpp O.heap.get this
  | onDomain this call => call.cpp O.value this

/-- The intervals are objects of the client. -/
def Known (O : Objects) : ClientCall → Prop
  | onInterval this call => O.heap.Allocated (call.involved this)
  | onDomain _ _ => True

/-- What a call needs for both to do the same. -/
def Meets (O : Objects) : ClientCall → Prop
  | onInterval this call => call.Meets O.heap.get this
  | onDomain this call => call.Meets O this

def Plain (O : Objects) : ClientCall → Prop
  | onInterval _ _ => True
  | onDomain this call => call.Plain O this

end ClientCall

end Rasdaman
