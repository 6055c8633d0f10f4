import Mathlib
import Rasdaman.Raslib.CellOffset

/-!
# Raslib/Zones — the boxes around a box

A box inside another divides each dimension of the outer one into what lies below it, beside it and
above it.  Taken over all dimensions the zones partition the outer box: a point lies in the zone
`zoneOf` names.
-/

namespace Rasdaman

/-- Where a coordinate lies, seen from an interval. -/
inductive Zone
  | below
  | inside
  | above
  deriving DecidableEq, Repr

namespace Box

variable {d : ℕ} (outer inner : Box d) {p : Point d} {z w : Fin d → Zone}

/-- The zone in each dimension. -/
def zoneOf (p : Point d) (i : Fin d) : Zone :=
  if p i < inner.low i then .below else if inner.high i < p i then .above else .inside

/-- The lower end of a zone. -/
def zoneLow (i : Fin d) : Zone → ℤ
  | .below => outer.low i
  | .inside => inner.low i
  | .above => inner.high i + 1

/-- The upper end of a zone. -/
def zoneHigh (i : Fin d) : Zone → ℤ
  | .below => inner.low i - 1
  | .inside => inner.high i
  | .above => outer.high i

/-- The outer box leaves room in this zone. -/
def Room (i : Fin d) : Zone → Prop
  | .below => outer.low i < inner.low i
  | .inside => True
  | .above => inner.high i < outer.high i

instance (i : Fin d) (z : Zone) : Decidable (outer.Room inner i z) := by
  cases z <;> unfold Room <;> infer_instance

/-- The extent of a zone, which is 0 without room. -/
def zoneExtent (i : Fin d) : Zone → ℕ
  | .below => (inner.low i - outer.low i).toNat
  | .inside => inner.extent i
  | .above => (outer.high i - inner.high i).toNat

variable {outer inner}

theorem room_iff_le {i : Fin d} {z : Zone} :
    outer.Room inner i z ↔ outer.zoneLow inner i z ≤ outer.zoneHigh inner i z := by
  cases z with
  | below => exact Int.le_sub_one_iff.symm
  | inside => exact iff_of_true trivial (inner.low_le_high i)
  | above => exact Int.add_one_le_iff.symm

theorem zoneExtent_eq (i : Fin d) (z : Zone) :
    outer.zoneExtent inner i z = (outer.zoneHigh inner i z + 1 - outer.zoneLow inner i z).toNat := by
  cases z <;> simp only [zoneExtent, zoneLow, zoneHigh, extent] <;> omega

theorem zoneExtent_eq_zero {i : Fin d} {z : Zone} (h : ¬ outer.Room inner i z) :
    outer.zoneExtent inner i z = 0 := by
  rw [room_iff_le] at h
  rw [zoneExtent_eq]
  omega

/-- The box of a zone with room. -/
def zoneBox (z : Fin d → Zone) (h : ∀ i, outer.Room inner i (z i)) : Box d where
  low := fun i => outer.zoneLow inner i (z i)
  high := fun i => outer.zoneHigh inner i (z i)
  low_le_high := fun i => room_iff_le.mp (h i)

theorem card_zoneBox (h : ∀ i, outer.Room inner i (z i)) :
    (zoneBox z h).cells.card = ∏ i, outer.zoneExtent inner i (z i) := by
  rw [card_cells]
  exact Finset.prod_congr rfl fun i _ => (zoneExtent_eq i (z i)).symm

/-- **The zones partition the outer box.** -/
theorem mem_zoneBox (hcov : outer.Covers inner) (h : ∀ i, outer.Room inner i (z i)) :
    p ∈ zoneBox z h ↔ p ∈ outer ∧ inner.zoneOf p = z := by
  have hdim : ∀ i, (outer.zoneLow inner i (z i) ≤ p i ∧ p i ≤ outer.zoneHigh inner i (z i)) ↔
      (outer.low i ≤ p i ∧ p i ≤ outer.high i) ∧ inner.zoneOf p i = z i := by
    intro i
    have hc := hcov i
    have hi := inner.low_le_high i
    rw [zoneOf]
    cases z i with
    | below => simp only [zoneLow, zoneHigh]; split_ifs <;> simp <;> omega
    | inside => simp only [zoneLow, zoneHigh]; split_ifs <;> simp <;> omega
    | above => simp only [zoneLow, zoneHigh]; split_ifs <;> simp <;> omega
  rw [mem_def, funext_iff]
  exact (forall_congr' hdim).trans forall_and

theorem zoneOf_eq_inside : inner.zoneOf p = (fun _ => .inside) ↔ p ∈ inner := by
  rw [funext_iff]
  refine forall_congr' fun i => ?_
  rw [zoneOf]
  split_ifs <;> simp <;> omega

/-- The zone of a point of the outer box has room. -/
theorem room_zoneOf (hp : p ∈ outer) (i : Fin d) : outer.Room inner i (inner.zoneOf p i) := by
  have := hp i
  rw [zoneOf]
  split_ifs <;> simp only [Room] <;> omega

end Box

end Rasdaman
