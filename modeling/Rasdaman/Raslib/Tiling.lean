import Rasdaman.Raslib.Minterval

/-!
# Raslib/Tiling — boxes that tile a region

`Tiles R bs`: the boxes `bs` are pairwise disjoint and together have exactly the cells of the region
`R`.  The region is a set of points, so that a node whose entries are still being collected can be
described as well as a finished one, whose region is its domain.
-/

namespace Rasdaman

variable {d : ℕ}

/-- The cells of a box, as a set. -/
def Box.region (b : Box d) : Set (Point d) := {p | p ∈ b}

@[simp] theorem Box.mem_region {b : Box d} {p : Point d} : p ∈ b.region ↔ p ∈ b := Iff.rfl

/-- The boxes are pairwise disjoint and their union is the region. -/
structure Tiles (R : Set (Point d)) (bs : List (Box d)) : Prop where
  disjoint : bs.Pairwise fun a b => ¬ a.Intersects b
  mem_iff : ∀ p, p ∈ R ↔ ∃ b ∈ bs, p ∈ b

namespace Tiles

variable {R R' : Set (Point d)} {bs bs' : List (Box d)} {b b₁ b₂ : Box d} {p : Point d}

theorem nil : Tiles (∅ : Set (Point d)) [] := ⟨.nil, by simp⟩

theorem single (b : Box d) : Tiles b.region [b] := ⟨List.pairwise_singleton _ _, by simp⟩

theorem perm (h : Tiles R bs) (hp : bs.Perm bs') : Tiles R bs' :=
  ⟨h.disjoint.perm hp fun hn hi => hn hi.symm, fun p => by simp only [h.mem_iff, hp.mem_iff]⟩

theorem congr (h : Tiles R bs) (hR : ∀ p, p ∈ R ↔ p ∈ R') : Tiles R' bs :=
  ⟨h.disjoint, fun p => (hR p).symm.trans (h.mem_iff p)⟩

theorem mem_of_mem (h : Tiles R bs) (hb : b ∈ bs) (hp : p ∈ b) : p ∈ R := (h.mem_iff p).mpr ⟨b, hb, hp⟩

/-- Different tiles do not meet. -/
theorem not_intersects {c : Box d} (h : Tiles R bs) (hb : b ∈ bs) (hc : c ∈ bs) (hne : b ≠ c) :
    ¬b.Intersects c := by
  have hsymm : Std.Symm fun a b : Box d => ¬a.Intersects b := ⟨fun _ _ hn hi => hn hi.symm⟩
  exact h.disjoint.forall hb hc hne

/-- Another box, outside the region, extends it. -/
theorem cons (h : Tiles R bs) (hout : ∀ p ∈ b, p ∉ R) : Tiles (R ∪ b.region) (b :: bs) := by
  refine ⟨List.pairwise_cons.mpr ⟨fun c hc hi => ?_, h.disjoint⟩, fun p => ?_⟩
  · obtain ⟨p, hpb, hpc⟩ := Box.intersects_iff.mp hi
    exact hout p hpb (h.mem_of_mem hc hpc)
  · simp only [Set.mem_union, Box.mem_region, h.mem_iff, List.mem_cons, exists_eq_or_imp]
    exact or_comm

/-- Without its first box, a tiling tiles the rest of the region. -/
theorem tail (h : Tiles R (b :: bs)) : Tiles (R \ b.region) bs := by
  obtain ⟨hb, hbs⟩ := List.pairwise_cons.mp h.disjoint
  refine ⟨hbs, fun p => ?_⟩
  simp only [Set.mem_sdiff, h.mem_iff, List.mem_cons, exists_eq_or_imp, Box.mem_region]
  refine ⟨fun ⟨h₁, h₂⟩ => h₁.resolve_left h₂, fun ⟨c, hc, hp⟩ => ⟨Or.inr ⟨c, hc, hp⟩, fun hpb => ?_⟩⟩
  exact hb c hc (.of_mem hpb hp)

/-- **Two tiles may be replaced by one that has their cells.** -/
theorem merge (h : Tiles R (b₁ :: b₂ :: bs)) (hmem : ∀ p, p ∈ b ↔ p ∈ b₁ ∨ p ∈ b₂) :
    Tiles R (b :: bs) := by
  obtain ⟨h₁, hrest⟩ := List.pairwise_cons.mp h.disjoint
  obtain ⟨h₂, hbs⟩ := List.pairwise_cons.mp hrest
  refine ⟨List.pairwise_cons.mpr ⟨fun c hc hi => ?_, hbs⟩, fun p => ?_⟩
  · obtain ⟨p, hpb, hpc⟩ := Box.intersects_iff.mp hi
    rcases (hmem p).mp hpb with hp | hp
    · exact h₁ c (List.mem_cons_of_mem _ hc) (.of_mem hp hpc)
    · exact h₂ c hc (.of_mem hp hpc)
  · simp only [h.mem_iff, List.mem_cons, exists_eq_or_imp, hmem, or_assoc]

/-- Boxes that do not meet each other tile their cells. -/
theorem of_pairwise (h : bs.Pairwise fun a b => ¬a.Intersects b) : Tiles {p | ∃ b ∈ bs, p ∈ b} bs :=
  ⟨h, fun _ => Iff.rfl⟩

/-- **The last tiles may be replaced by others** that tile the same cells. -/
theorem replace_append {xs ys zs : List (Box d)} (h : Tiles R (xs ++ ys)) (hzs : ∀ S, Tiles S ys → Tiles S zs) :
    Tiles R (xs ++ zs) := by
  induction xs generalizing R with
  | nil => exact hzs R h
  | cons x xs ih =>
    refine ((ih h.tail).cons fun p hp hR => hR.2 hp).congr fun p => ⟨?_, fun hp => ?_⟩
    · rintro (hp | hp)
      · exact hp.1
      · exact h.mem_of_mem List.mem_cons_self hp
    · by_cases hpx : p ∈ x
      · exact .inr hpx
      · exact .inl ⟨hp, hpx⟩

/-- **Tiles may be tiled themselves.** -/
theorem flatMap {ι : Type} {xs : List ι} {tile : ι → Box d} {out : ι → List (Box d)} (h : Tiles R (xs.map tile))
    (hout : ∀ x ∈ xs, Tiles (tile x).region (out x)) : Tiles R (xs.flatMap out) := by
  refine ⟨List.pairwise_flatMap.mpr ⟨fun x hx => (hout x hx).disjoint, ?_⟩, fun p => ?_⟩
  · refine (List.pairwise_map.mp h.disjoint).imp_of_mem fun hx hy hxy c hc c' hc' hi => ?_
    obtain ⟨p, hp, hp'⟩ := Box.intersects_iff.mp hi
    exact hxy (.of_mem ((hout _ hx).mem_of_mem hc hp) ((hout _ hy).mem_of_mem hc' hp'))
  · rw [h.mem_iff]
    simp only [List.mem_map, exists_exists_and_eq_and, List.mem_flatMap]
    constructor
    · rintro ⟨x, hx, hp⟩
      obtain ⟨c, hc, hpc⟩ := ((hout x hx).mem_iff p).mp hp
      exact ⟨c, ⟨x, hx, hc⟩, hpc⟩
    · rintro ⟨c, ⟨x, hx, hc⟩, hpc⟩
      exact ⟨x, hx, (hout x hx).mem_of_mem hc hpc⟩

/-- **The parts of a region in disjoint cells that cover it tile it.** -/
theorem of_cells {ι : Type} {xs : List ι} {cell piece : ι → Box d}
    (hdisjoint : xs.Pairwise fun x y => ¬(cell x).Intersects (cell y))
    (hmem : ∀ x ∈ xs, ∀ p, p ∈ piece x ↔ p ∈ cell x ∧ p ∈ R) (hcover : ∀ p ∈ R, ∃ x ∈ xs, p ∈ cell x) :
    Tiles R (xs.map piece) := by
  refine ⟨List.pairwise_map.mpr (hdisjoint.imp_of_mem fun hx hy hxy hi => ?_), fun p => ?_⟩
  · obtain ⟨p, hpx, hpy⟩ := Box.intersects_iff.mp hi
    exact hxy (.of_mem ((hmem _ hx p).mp hpx).1 ((hmem _ hy p).mp hpy).1)
  · simp only [List.mem_map, exists_exists_and_eq_and]
    constructor
    · intro hp
      obtain ⟨x, hx, hpx⟩ := hcover p hp
      exact ⟨x, hx, (hmem x hx p).mpr ⟨hpx, hp⟩⟩
    · rintro ⟨x, hx, hp⟩
      exact ((hmem x hx p).mp hp).2

theorem covers (h : Tiles b₁.region bs) (hb : b ∈ bs) : b₁.Covers b :=
  Box.covers_iff.mpr fun _ hp => h.mem_of_mem hb hp

end Tiles

/-- The closure of two boxes that make up a box is that box. -/
theorem Box.closureWith_eq_of_mem {a b c : Box d} (h : ∀ p, p ∈ c ↔ p ∈ a ∨ p ∈ b) :
    a.closureWith b = c := by
  have ha : c.Covers a := Box.covers_iff.mpr fun p hp => (h p).mpr (Or.inl hp)
  have hb : c.Covers b := Box.covers_iff.mpr fun p hp => (h p).mpr (Or.inr hp)
  have hc : (a.closureWith b).Covers c := Box.covers_iff.mpr fun p hp =>
    ((h p).mp hp).elim (Box.covers_iff.mp (closureWith_covers_left a b) p)
      (Box.covers_iff.mp (closureWith_covers_right a b) p)
  refine ext_corners (funext fun i => le_antisymm (hc i).1 ?_) (funext fun i => le_antisymm ?_ (hc i).2)
  · exact le_min (hb i).1 (ha i).1
  · exact max_le (hb i).2 (ha i).2

end Rasdaman
