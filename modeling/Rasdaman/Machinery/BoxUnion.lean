import Mathlib

/-!
# Machinery/BoxUnion — when two boxes make up a box

Boxes are the intervals of a product of linear orders.  Two of them are disjoint and have a box for
their union exactly if one adjoins the other in one coordinate and they are the same in all others
(`union_eq_Icc_iff`).  A program that looks at the corners of boxes decides so about their points.
-/

namespace BoxUnion

open Set Function

variable {ι α : Type*} [LinearOrder α] {a b c d l h x : ι → α} {j k : ι}

/-- The box `[c, d]` begins in a coordinate where `[a, b]` ends, and is like it in the others. -/
structure Adjoins (a b c d : ι → α) (k : ι) : Prop where
  low_eq : ∀ j, j ≠ k → a j = c j
  high_eq : ∀ j, j ≠ k → b j = d j
  covBy : b k ⋖ c k

theorem Adjoins.disjoint (hk : Adjoins a b c d k) : Disjoint (Icc a b) (Icc c d) :=
  disjoint_left.mpr fun _ hab hcd => ((hcd.1 k).trans (hab.2 k)).not_gt hk.covBy.lt

/-- **Boxes that adjoin make up the box** from the corner of the first to the corner of the second. -/
theorem Adjoins.union_eq (hk : Adjoins a b c d k) (hab : a ≤ b) (hcd : c ≤ d) :
    Icc a b ∪ Icc c d = Icc a d := by
  have hlow : a ≤ c := fun j => by
    rcases eq_or_ne j k with rfl | hj
    · exact (hab j).trans hk.covBy.le
    · exact (hk.low_eq j hj).le
  have hhigh : b ≤ d := fun j => by
    rcases eq_or_ne j k with rfl | hj
    · exact hk.covBy.le.trans (hcd j)
    · exact (hk.high_eq j hj).le
  refine Subset.antisymm (union_subset (Icc_subset_Icc_right hhigh) (Icc_subset_Icc_left hlow)) fun x hx => ?_
  rcases le_or_gt (x k) (b k) with hle | hlt
  · refine .inl ⟨hx.1, fun j => ?_⟩
    rcases eq_or_ne j k with rfl | hj
    · exact hle
    · exact (hx.2 j).trans_eq (hk.high_eq j hj).symm
  · refine .inr ⟨fun j => ?_, hx.2⟩
    rcases eq_or_ne j k with rfl | hj
    · exact not_lt.mp (hk.covBy.2 hlt)
    · exact (hk.low_eq j hj).symm.trans_le (hx.1 j)

/-- Boxes without a common point are apart in a coordinate. -/
theorem exists_lt_of_disjoint (hab : a ≤ b) (hcd : c ≤ d) (hdisj : Disjoint (Icc a b) (Icc c d)) :
    ∃ k, b k < c k ∨ d k < a k := by
  by_contra hne
  push Not at hne
  have hleft : a ⊔ c ∈ Icc a b := ⟨le_sup_left, sup_le hab fun k => (hne k).1⟩
  have hright : a ⊔ c ∈ Icc c d := ⟨le_sup_right, sup_le (fun k => (hne k).2) hcd⟩
  exact disjoint_left.mp hdisj hleft hright

/-- Between two boxes that make up a box and are apart in a coordinate, this is the only difference:
points of the union with the coordinate of one box lie in it, whatever their other coordinates are. -/
theorem adjoins_of_lt (hab : a ≤ b) (hcd : c ≤ d) (hunion : Icc a b ∪ Icc c d = Icc l h) (hk : b k < c k) :
    Adjoins a b c d k := by
  classical
  have ha : a ∈ Icc l h := hunion ▸ .inl ⟨le_rfl, hab⟩
  have hb : b ∈ Icc l h := hunion ▸ .inl ⟨hab, le_rfl⟩
  have hc : c ∈ Icc l h := hunion ▸ .inr ⟨le_rfl, hcd⟩
  have hd : d ∈ Icc l h := hunion ▸ .inr ⟨hcd, le_rfl⟩
  -- a corner with another coordinate
  have hmem : ∀ x ∈ Icc l h, ∀ v, l k ≤ v → v ≤ h k → update x k v ∈ Icc a b ∪ Icc c d := by
    intro x hx v hlv hvh
    rw [hunion]
    exact ⟨le_update_iff.mpr ⟨hlv, fun j _ => hx.1 j⟩, update_le_iff.mpr ⟨hvh, fun j _ => hx.2 j⟩⟩
  have hfirst : ∀ x ∈ Icc l h, update x k (b k) ∈ Icc a b := fun x hx =>
    (hmem x hx (b k) (hb.1 k) (hb.2 k)).resolve_right fun hin =>
      (by simpa using hin.1 k : c k ≤ b k).not_gt hk
  have hsecond : ∀ x ∈ Icc l h, update x k (c k) ∈ Icc c d := fun x hx =>
    (hmem x hx (c k) (hc.1 k) (hc.2 k)).resolve_left fun hin =>
      (by simpa using hin.2 k : c k ≤ b k).not_gt hk
  refine ⟨fun j hj => le_antisymm ?_ ?_, fun j hj => le_antisymm ?_ ?_, hk, fun v hbv hvc => ?_⟩
  · simpa [hj] using (hfirst c hc).1 j
  · simpa [hj] using (hsecond a ha).1 j
  · simpa [hj] using (hsecond b hb).2 j
  · simpa [hj] using (hfirst d hd).2 j
  · rcases hmem a ha v ((hb.1 k).trans hbv.le) (hvc.le.trans (hc.2 k)) with hin | hin
    · exact (by simpa using hin.2 k : v ≤ b k).not_gt hbv
    · exact (by simpa using hin.1 k : c k ≤ v).not_gt hvc

/-- **Two boxes are disjoint and make up a box exactly if one adjoins the other.** -/
theorem union_eq_Icc_iff (hab : a ≤ b) (hcd : c ≤ d) :
    (Disjoint (Icc a b) (Icc c d) ∧ ∃ l h, Icc a b ∪ Icc c d = Icc l h) ↔
      ∃ k, Adjoins a b c d k ∨ Adjoins c d a b k := by
  constructor
  · rintro ⟨hdisj, l, h, hunion⟩
    obtain ⟨k, hk | hk⟩ := exists_lt_of_disjoint hab hcd hdisj
    · exact ⟨k, .inl (adjoins_of_lt hab hcd hunion hk)⟩
    · exact ⟨k, .inr (adjoins_of_lt hcd hab ((union_comm _ _).trans hunion) hk)⟩
  · rintro ⟨k, hk | hk⟩
    · exact ⟨hk.disjoint, a, d, hk.union_eq hab hcd⟩
    · exact ⟨hk.disjoint.symm, c, b, (union_comm _ _).trans (hk.union_eq hcd hab)⟩

end BoxUnion
