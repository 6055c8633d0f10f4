import Rasdaman.Raslib.Minterval

/-!
# Raslib/Range — coordinates as signed 64-bit integers

The coordinates of the source are `r_Range`s.  Sums and products of them wrap; as long as they stay
within 64 bits they are the integers that boxes are computed with elsewhere.

A computed interval may end before it begins: then `r_Sinterval` throws.
-/

namespace Rasdaman

/-- Assignment to an `r_Range`, a signed 64-bit integer. -/
def toRange (x : ℤ) : ℤ := x.bmod (2 ^ 64)

theorem toRange_of_lt {x : ℤ} (h0 : -2 ^ 63 ≤ x) (h : x < 2 ^ 63) : toRange x = x := by
  rw [toRange, Int.bmod_def]
  omega

theorem toRange_bounds (x : ℤ) : -2 ^ 63 ≤ toRange x ∧ toRange x < 2 ^ 63 := by
  rw [toRange, Int.bmod_def]
  omega

/-- What wraps comes back with the rest of the sum. -/
theorem toRange_add_toRange (x y : ℤ) : toRange (x + toRange y) = toRange (x + y) :=
  Int.add_bmod_bmod

namespace Box

variable {d : ℕ} {b : Box d} {t : Point d}

/-- The bounds are `r_Range`s. -/
def InRange (b : Box d) : Prop := ∀ i, -2 ^ 63 ≤ b.low i ∧ b.high i < 2 ^ 63

instance (b : Box d) : Decidable b.InRange :=
  inferInstanceAs (Decidable (∀ i, -2 ^ 63 ≤ b.low i ∧ b.high i < 2 ^ 63))

/-- The minterval with the given bounds; `r_Sinterval` refuses those that are no interval. -/
def ofBounds (low high : Point d) : Except RError (Box d) :=
  if h : ∀ i, low i ≤ high i then .ok ⟨low, high, h⟩ else .error .noInterval

theorem ofBounds_eq (b : Box d) : ofBounds b.low b.high = .ok b := dif_pos b.low_le_high

/-- The minterval with the given bounds, which are computed as `r_Range`s. -/
def ofRanges (low high : Point d) : Except RError (Box d) :=
  ofBounds (fun i => toRange (low i)) fun i => toRange (high i)

theorem ofRanges_eq (h : b.InRange) : ofRanges b.low b.high = .ok b := by
  have hlow : (fun i => toRange (b.low i)) = b.low := funext fun i =>
    toRange_of_lt (h i).1 ((b.low_le_high i).trans_lt (h i).2)
  have hhigh : (fun i => toRange (b.high i)) = b.high := funext fun i =>
    toRange_of_lt ((h i).1.trans (b.low_le_high i)) (h i).2
  rw [ofRanges, hlow, hhigh, ofBounds_eq]

/-- `create_translation`, in the integers of the code. -/
def translate (b : Box d) (t : Point d) : Except RError (Box d) :=
  ofRanges (fun i => b.low i + t i) fun i => b.high i + t i

end Box

/-- An `r_Minterval` of dimension `d` with fixed bounds, which are `r_Range`s. -/
structure RangeBox (d : ℕ) extends Box d where
  inRange : toBox.InRange

end Rasdaman
