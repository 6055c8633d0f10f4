import Mathlib.Order.Interval.Set.LinearOrder

/-!
# Machinery/Allen — how two intervals lie to each other

The thirteen relations of two intervals `[l, h]` and `[l', h']` of a linear order, and what they say
about intersection and union.  A program that works on intervals by tables over such a relation is
checked row by row: `lowLe`, `lowGe`, `highLe`, `highGe` and `apart` are what a row may rely on.
-/

/-- The relation of a first interval to a second one. -/
inductive Allen
  | before | after | meets | metBy | overlaps | overlappedBy | contains | during
  | starts | startedBy | finishes | finishedBy | equals
  deriving DecidableEq, Repr

namespace Allen

variable {α : Type} [LinearOrder α] {r : Allen} {l h l' h' : α}

/-- What a relation says about the bounds. -/
def Holds : Allen → (l h l' h' : α) → Prop
  | before, _, h, l', _ => h < l'
  | after, l, _, _, h' => h' < l
  | meets, l, h, l', h' => l < l' ∧ h = l' ∧ h < h'
  | metBy, l, h, l', h' => l' < l ∧ l = h' ∧ h' < h
  | overlaps, l, h, l', h' => l < l' ∧ l' < h ∧ h < h'
  | overlappedBy, l, h, l', h' => l' < l ∧ l < h' ∧ h' < h
  | contains, l, h, l', h' => l < l' ∧ h' < h
  | during, l, h, l', h' => l' < l ∧ h < h'
  | starts, l, h, l', h' => l = l' ∧ h < h'
  | startedBy, l, h, l', h' => l = l' ∧ h' < h
  | finishes, l, h, l', h' => l' < l ∧ h = h'
  | finishedBy, l, h, l', h' => l < l' ∧ h = h'
  | equals, l, h, l', h' => l = l' ∧ h = h'

/-- The intervals have nothing in common. -/
def apart (r : Allen) : Bool := r ∈ [before, after]

/-- The first interval begins where the second does, or before. -/
def lowLe (r : Allen) : Bool := r ∈ [meets, overlaps, contains, starts, startedBy, finishedBy, equals]

/-- The first interval begins where the second does, or after. -/
def lowGe (r : Allen) : Bool := r ∈ [metBy, overlappedBy, during, starts, startedBy, finishes, equals]

/-- The first interval ends where the second does, or before. -/
def highLe (r : Allen) : Bool := r ∈ [meets, overlaps, during, starts, finishes, finishedBy, equals]

/-- The first interval ends where the second does, or after. -/
def highGe (r : Allen) : Bool :=
  r ∈ [metBy, overlappedBy, contains, startedBy, finishes, finishedBy, equals]

theorem Holds.low_le (hr : r.Holds l h l' h') (hlow : r.lowLe = true) : l ≤ l' := by
  cases r <;> first | exact absurd hlow (by decide) | exact hr.1.le

theorem Holds.low_ge (hr : r.Holds l h l' h') (hlow : r.lowGe = true) : l' ≤ l := by
  cases r <;> first | exact absurd hlow (by decide) | exact hr.1.le | exact hr.1.ge

theorem Holds.high_le (hr : r.Holds l h l' h') (hhigh : r.highLe = true) : h ≤ h' := by
  cases r <;> first | exact absurd hhigh (by decide) | exact hr.2.le | exact hr.2.2.le

theorem Holds.high_ge (hr : r.Holds l h l' h') (hhigh : r.highGe = true) : h' ≤ h := by
  cases r <;> first | exact absurd hhigh (by decide) | exact hr.2.le | exact hr.2.ge | exact hr.2.2.le

/-- **Two intervals are apart** if and only if one of them ends before the other begins. -/
theorem Holds.apart_iff (hr : r.Holds l h l' h') (hle : l ≤ h) (hle' : l' ≤ h') :
    r.apart = true ↔ ¬(l ≤ h' ∧ l' ≤ h) := by
  cases r with
  | before => exact iff_of_true rfl fun hc => (not_lt_of_ge hc.2) hr
  | after => exact iff_of_true rfl fun hc => (not_lt_of_ge hc.1) hr
  | meets => exact iff_of_false nofun (not_not_intro ⟨hr.1.le.trans hle', hr.2.1.ge⟩)
  | metBy => exact iff_of_false nofun (not_not_intro ⟨hr.2.1.le, hle'.trans hr.2.2.le⟩)
  | overlaps => exact iff_of_false nofun (not_not_intro ⟨hr.1.le.trans hle', hr.2.1.le⟩)
  | overlappedBy => exact iff_of_false nofun (not_not_intro ⟨hr.2.1.le, hle'.trans hr.2.2.le⟩)
  | contains => exact iff_of_false nofun (not_not_intro ⟨hr.1.le.trans hle', hle'.trans hr.2.le⟩)
  | during => exact iff_of_false nofun (not_not_intro ⟨hle.trans hr.2.le, hr.1.le.trans hle⟩)
  | starts => exact iff_of_false nofun (not_not_intro ⟨hr.1.le.trans hle', hr.1.ge.trans hle⟩)
  | startedBy => exact iff_of_false nofun (not_not_intro ⟨hr.1.le.trans hle', hr.1.ge.trans hle⟩)
  | finishes => exact iff_of_false nofun (not_not_intro ⟨hle.trans hr.2.le, hr.1.le.trans hle⟩)
  | finishedBy => exact iff_of_false nofun (not_not_intro ⟨hr.1.le.trans hle', hle'.trans hr.2.ge⟩)
  | equals => exact iff_of_false nofun (not_not_intro ⟨hr.1.le.trans hle', hr.1.ge.trans hle⟩)

end Allen
