import Mathlib
import Rasdaman.Raslib.Mergeable
import Rasdaman.Raslib.Tiling

/-!
# Tilemgr/Tiler — `r_Tiler`

Splits a domain along the borders of other domains, so that what they leave of it is a list of boxes:
`split` cuts, `removeDoubleDomains` drops the boxes that meet another domain, `removeCoveredDomains`
those that meet a later box, and `mergeDomains` puts boxes together again.  `splitMinterval` may return
a box twice; that is what `removeCoveredDomains` is for.

Where the code computes an `r_Range`, the definitions take what that makes of it, or the test that
`is_mergeable` is; `tiledDomains` is on integers without bounds.

**What is left tiles the rest of the domain** (`tiles_tiledDomains`).
-/

namespace Rasdaman

namespace Tiler

variable {d : ℕ}

/-- `RangePair`: a dimension and a coordinate; the cut is behind the coordinate. -/
abbrev RangePair (d : ℕ) := Fin d × ℤ

/-- The first loops of `computeSplitDimensions`: the borders of the intersections with the targets.  `r` is
what computing a coordinate makes of it. -/
def borders (r : ℤ → ℤ) (sourceDomain : Box d) (targetDomains : List (Box d)) : List (RangePair d) :=
  targetDomains.flatMap fun t =>
    if h : t.Intersects sourceDomain then
      let i := t.inter sourceDomain h
      (List.finRange d).flatMap fun dim =>
        (if sourceDomain.low dim ≤ i.low dim ∧ sourceDomain.high dim ≥ i.low dim then
          [(dim, r (i.low dim - 1))] else []) ++
        (if sourceDomain.low dim ≤ i.high dim ∧ sourceDomain.high dim ≥ i.high dim then
          [(dim, i.high dim)] else [])
    else []

/-- `computeSplitDimensions`: of equal points the last one stays. -/
def computeSplitDimensions (r : ℤ → ℤ) (sourceDomain : Box d) (targetDomains : List (Box d)) :
    List (RangePair d) :=
  (borders r sourceDomain targetDomains).dedup

/-- A box with other bounds in one dimension. -/
def withSide (b : Box d) (dim : Fin d) (low high : ℤ) (h : low ≤ high) : Box d where
  low := Function.update b.low dim low
  high := Function.update b.high dim high
  low_le_high := fun i => by
    rcases eq_or_ne i dim with rfl | hi
    · simpa using h
    · simpa [hi] using b.low_le_high i

/-- One box of `splitMinterval` at one point. -/
def splitAt (pt : RangePair d) (b : Box d) : List (Box d) :=
  let low := b.low pt.1
  let high := b.high pt.1
  if h : pt.2 < high ∧ pt.2 > low then
    [withSide b pt.1 low pt.2 h.2.le, withSide b pt.1 (pt.2 + 1) high h.1]
  else if h : pt.2 = high then
    if hlow : low = high then [b, withSide b pt.1 pt.2 pt.2 le_rfl]
    else
      [withSide b pt.1 low (pt.2 - 1) (by have := b.low_le_high pt.1; omega),
        withSide b pt.1 pt.2 pt.2 le_rfl]
  else if h : pt.2 = low then
    if hlow : low = high then [b, withSide b pt.1 pt.2 pt.2 le_rfl]
    else
      [withSide b pt.1 (low + 1) high (by have := b.low_le_high pt.1; omega),
        withSide b pt.1 pt.2 pt.2 le_rfl]
  else [b]

/-- `splitMinterval`. -/
def splitMinterval (sourceTile : Box d) (points : List (RangePair d)) : List (Box d) :=
  points.foldl (fun splits pt => splits.flatMap (splitAt pt)) [sourceTile]

/-- `split`. -/
def split (r : ℤ → ℤ) (sourceDomains targetDomains : List (Box d)) : List (Box d) :=
  sourceDomains.flatMap fun s => splitMinterval s (computeSplitDimensions r s targetDomains)

/-- `removeDoubleDomains`. -/
def removeDoubleDomains (targetDomains splitedDomains : List (Box d)) : List (Box d) :=
  splitedDomains.filter fun b => !(targetDomains.any fun t => t.Intersects b)

/-- `removeCoveredDomains`. -/
def removeCoveredDomains : List (Box d) → List (Box d)
  | [] => []
  | b :: bs =>
    if bs.any fun c => c.Intersects b then removeCoveredDomains bs
    else b :: removeCoveredDomains bs

/-- `mergeDomains`: the first box is merged with the first that fits, or is done.  Every round leaves one
box less to treat. -/
def mergeDomains (isMergeable : Box d → Box d → Bool) :
    ℕ → (splitedDomains temp : List (Box d)) → List (Box d)
  | 0, splited, temp => temp ++ splited
  | _ + 1, [], temp => temp
  | n + 1, b :: bs, temp =>
    match bs.find? (isMergeable b) with
    | some c => mergeDomains isMergeable n (bs.erase c ++ [b.closureWith c]) temp
    | none => mergeDomains isMergeable n bs (temp ++ [b])

/-- `getTiledDomains` after the four steps. -/
def tiledDomains (sourceDomains targetDomains : List (Box d)) : List (Box d) :=
  let splited := split id sourceDomains targetDomains
  let splited := removeCoveredDomains (removeDoubleDomains targetDomains splited)
  mergeDomains Box.isMergeable splited.length splited []

/-! ## Cutting -/

variable {pt : RangePair d} {a b c sourceDomain : Box d} {p : Point d}
variable {l targetDomains : List (Box d)}

/-- A box lies on one side of a cut. -/
def OneSide (pt : RangePair d) (b : Box d) : Prop := b.high pt.1 ≤ pt.2 ∨ pt.2 < b.low pt.1

/-- Boxes are the same or share no cell. -/
def SameOrDisjoint (a b : Box d) : Prop := a = b ∨ ¬ a.Intersects b

theorem SameOrDisjoint.symm (h : SameOrDisjoint a b) : SameOrDisjoint b a :=
  h.imp Eq.symm fun hn hi => hn hi.symm

theorem mem_withSide {dim : Fin d} {low high : ℤ} {h : low ≤ high} (hlow : b.low dim ≤ low)
    (hhigh : high ≤ b.high dim) :
    p ∈ withSide b dim low high h ↔ p ∈ b ∧ low ≤ p dim ∧ p dim ≤ high := by
  simp only [Box.mem_def, withSide, Function.update_apply]
  constructor
  · intro hp
    have hdim := hp dim
    rw [if_pos rfl, if_pos rfl] at hdim
    refine ⟨fun i => ?_, hdim⟩
    rcases eq_or_ne i dim with rfl | hi
    · omega
    · simpa [hi] using hp i
  · rintro ⟨hp, hdim⟩ i
    rcases eq_or_ne i dim with rfl | hi
    · simpa using hdim
    · simpa [hi] using hp i

/-- **What `splitMinterval` does to one box at one point**: it leaves it, returns it twice, or cuts it in
two; the boxes then lie on one side of the point. -/
theorem splitAt_cases (pt : RangePair d) (b : Box d) :
    ((splitAt pt b = [b] ∨ splitAt pt b = [b, b]) ∧ OneSide pt b) ∨
      ∃ c₁ c₂ k, (splitAt pt b = [c₁, c₂] ∨ splitAt pt b = [c₂, c₁]) ∧
        (OneSide pt c₁ ∧ OneSide pt c₂) ∧ (∀ p, p ∈ c₁ ↔ p ∈ b ∧ p pt.1 ≤ k) ∧
          ∀ p, p ∈ c₂ ↔ p ∈ b ∧ k < p pt.1 := by
  have hle := b.low_le_high pt.1
  -- the two sides of a cut behind `k`
  have hcut : ∀ k (hl : b.low pt.1 ≤ k) (hh : k + 1 ≤ b.high pt.1),
      (∀ p, p ∈ withSide b pt.1 (b.low pt.1) k hl ↔ p ∈ b ∧ p pt.1 ≤ k) ∧
        ∀ p, p ∈ withSide b pt.1 (k + 1) (b.high pt.1) hh ↔ p ∈ b ∧ k < p pt.1 := by
    intro k hl hh
    refine ⟨fun p => ?_, fun p => ?_⟩
    · rw [mem_withSide le_rfl (by omega)]
      exact and_congr_right fun hp => ⟨fun h => h.2, fun h => ⟨(hp pt.1).1, h⟩⟩
    · rw [mem_withSide (by omega) le_rfl]
      exact and_congr_right fun hp => ⟨fun h => h.1, fun h => ⟨h, (hp pt.1).2⟩⟩
  have hself : ∀ v (hv : b.low pt.1 = v) (hv' : b.high pt.1 = v), withSide b pt.1 v v le_rfl = b := by
    intro v hv hv'
    refine Box.ext_corners ?_ ?_
    · rw [withSide]
      simp only
      rw [← hv, Function.update_eq_self]
    · rw [withSide]
      simp only
      rw [← hv', Function.update_eq_self]
  unfold splitAt
  simp only
  split
  · next h =>
    obtain ⟨hlow, hhigh⟩ := hcut pt.2 h.2.le h.1
    refine Or.inr ⟨_, _, pt.2, Or.inl rfl, ⟨Or.inl ?_, Or.inr ?_⟩, hlow, hhigh⟩
    · simp [withSide]
    · simp [withSide]
  · split
    · next _ heq =>
      split
      · next hone =>
        rw [hself pt.2 (by omega) heq.symm]
        exact Or.inl ⟨Or.inr rfl, Or.inl (by omega)⟩
      · next hne =>
        obtain ⟨hlow, hhigh⟩ := hcut (pt.2 - 1) (by omega) (by omega)
        refine Or.inr ⟨_, _, pt.2 - 1, Or.inl rfl, ⟨Or.inl ?_, Or.inl ?_⟩, hlow, fun p => ?_⟩
        · simp [withSide]
        · simp [withSide]
        · rw [← hhigh]
          simp [heq]
    · split
      · next _ hnh heq =>
        split
        · next hone => omega
        · next hne =>
          obtain ⟨hlow, hhigh⟩ := hcut (b.low pt.1) le_rfl (by omega)
          refine Or.inr ⟨_, _, b.low pt.1, Or.inr rfl, ⟨Or.inl ?_, Or.inr ?_⟩, fun p => ?_, hhigh⟩
          · simp [withSide]
          · simp [withSide, heq]
          · rw [← hlow]
            simp [heq]
      · next h hnh hnl => exact Or.inl ⟨Or.inl rfl, by rw [OneSide]; omega⟩

theorem OneSide.of_covers (h : OneSide pt b) (hc : b.Covers c) : OneSide pt c :=
  h.imp (fun h => (hc pt.1).2.trans h) fun h => h.trans_le (hc pt.1).1

theorem SameOrDisjoint.of_covers {a' b' : Box d} (h : ¬ a.Intersects b) (ha : a.Covers a')
    (hb : b.Covers b') : SameOrDisjoint a' b' := by
  refine Or.inr fun hi => h ?_
  obtain ⟨p, hpa, hpb⟩ := Box.intersects_iff.mp hi
  exact .of_mem (Box.covers_iff.mp ha p hpa) (Box.covers_iff.mp hb p hpb)

/-- The boxes `splitAt` makes of a box. -/
structure CutOf (pt : RangePair d) (b : Box d) (cs : List (Box d)) : Prop where
  mem_iff : ∀ p, p ∈ b ↔ ∃ c ∈ cs, p ∈ c
  same : ∀ c ∈ cs, ∀ c' ∈ cs, SameOrDisjoint c c'
  oneSide : ∀ c ∈ cs, OneSide pt c

theorem cutOf_splitAt (pt : RangePair d) (b : Box d) : CutOf pt b (splitAt pt b) := by
  rcases splitAt_cases pt b with ⟨hsplit, hside⟩ | ⟨c₁, c₂, k, hsplit, ⟨hside₁, hside₂⟩, h₁, h₂⟩
  · have hmem : ∀ c, c ∈ splitAt pt b ↔ c = b := by
      intro c
      rcases hsplit with h | h <;> simp [h]
    refine ⟨fun p => by simp [hmem], fun c hc c' hc' => ?_, fun c hc => ?_⟩
    · exact Or.inl (((hmem c).mp hc).trans ((hmem c').mp hc').symm)
    · exact (hmem c).mp hc ▸ hside
  · have hmem : ∀ c, c ∈ splitAt pt b ↔ c = c₁ ∨ c = c₂ := by
      intro c
      rcases hsplit with h | h
      · simp [h]
      · rw [h, List.mem_pair]
        exact or_comm
    have hdisj : ¬ c₁.Intersects c₂ := by
      intro hi
      obtain ⟨p, hp₁, hp₂⟩ := Box.intersects_iff.mp hi
      exact absurd ((h₁ p).mp hp₁).2 (not_le.mpr ((h₂ p).mp hp₂).2)
    refine ⟨fun p => ?_, fun c hc c' hc' => ?_, fun c hc => ?_⟩
    · simp only [hmem, exists_eq_or_imp, exists_eq_left, h₁, h₂, ← and_or_left]
      exact (and_iff_left (le_or_gt _ _)).symm
    · rcases (hmem c).mp hc with rfl | rfl <;> rcases (hmem c').mp hc' with rfl | rfl
      · exact Or.inl rfl
      · exact Or.inr hdisj
      · exact Or.inr fun hi => hdisj hi.symm
      · exact Or.inl rfl
    · rcases (hmem c).mp hc with rfl | rfl
      · exact hside₁
      · exact hside₂

theorem CutOf.covers {cs : List (Box d)} (h : CutOf pt b cs) (hc : c ∈ cs) : b.Covers c :=
  Box.covers_iff.mpr fun p hp => (h.mem_iff p).mpr ⟨c, hc, hp⟩

/-! ## All the cuts -/

/-- The boxes into which a domain is cut at some points. -/
structure Splits (src : Box d) (points : List (RangePair d)) (splits : List (Box d)) : Prop where
  mem_iff : ∀ p, p ∈ src ↔ ∃ b ∈ splits, p ∈ b
  same : ∀ a ∈ splits, ∀ b ∈ splits, SameOrDisjoint a b
  oneSide : ∀ b ∈ splits, ∀ pt ∈ points, OneSide pt b

variable {src : Box d} {points : List (RangePair d)} {boxes : List (Box d)}

theorem Splits.covers (h : Splits src points boxes) (hb : b ∈ boxes) : src.Covers b :=
  Box.covers_iff.mpr fun p hp => (h.mem_iff p).mpr ⟨b, hb, hp⟩

/-- One more point. -/
theorem Splits.step (h : Splits src points boxes) (pt : RangePair d) :
    Splits src (pt :: points) (boxes.flatMap (splitAt pt)) where
  mem_iff := fun p => by
    rw [h.mem_iff]
    constructor
    · rintro ⟨b, hb, hp⟩
      obtain ⟨c, hc, hp⟩ := ((cutOf_splitAt pt b).mem_iff p).mp hp
      exact ⟨c, List.mem_flatMap.mpr ⟨b, hb, hc⟩, hp⟩
    · rintro ⟨c, hc, hp⟩
      obtain ⟨b, hb, hc⟩ := List.mem_flatMap.mp hc
      exact ⟨b, hb, ((cutOf_splitAt pt b).mem_iff p).mpr ⟨c, hc, hp⟩⟩
  same := fun c hc c' hc' => by
    obtain ⟨b, hb, hc⟩ := List.mem_flatMap.mp hc
    obtain ⟨b', hb', hc'⟩ := List.mem_flatMap.mp hc'
    rcases h.same b hb b' hb' with rfl | hdisj
    · exact (cutOf_splitAt pt b).same c hc c' hc'
    · exact .of_covers hdisj ((cutOf_splitAt pt b).covers hc) ((cutOf_splitAt pt b').covers hc')
  oneSide := fun c hc q hq => by
    obtain ⟨b, hb, hc⟩ := List.mem_flatMap.mp hc
    rcases List.mem_cons.mp hq with rfl | hq
    · exact (cutOf_splitAt q b).oneSide c hc
    · exact (h.oneSide b hb q hq).of_covers ((cutOf_splitAt pt b).covers hc)

/-- `splitMinterval` cuts at all points. -/
theorem splits_splitMinterval (src : Box d) (points : List (RangePair d)) :
    Splits src points (splitMinterval src points) := by
  have hrun : ∀ (todo done : List (RangePair d)) (boxes : List (Box d)), Splits src done boxes →
      Splits src (todo.reverse ++ done)
        (todo.foldl (fun splits pt => splits.flatMap (splitAt pt)) boxes) := by
    intro todo
    induction todo with
    | nil => exact fun done boxes h => h
    | cons pt todo ih =>
      intro done boxes h
      simpa using ih (pt :: done) _ (h.step pt)
  have h₀ : Splits src [] [src] :=
    ⟨by simp, fun a ha b hb => Or.inl (by simp_all), fun _ _ _ hpt => by cases hpt⟩
  obtain ⟨hmem, hsame, hside⟩ := hrun points [] [src] h₀
  exact ⟨hmem, hsame, fun b hb pt hpt => hside b hb pt (by simpa using hpt)⟩

/-- The coordinates before those of a box are what they are computed as. -/
def Precise (r : ℤ → ℤ) (src : Box d) : Prop :=
  ∀ dim x, src.low dim < x → x ≤ src.high dim → r (x - 1) = x - 1

theorem precise_id (src : Box d) : Precise id src := fun _ _ _ _ => rfl

theorem precise_toRange (h : src.InRange) : Precise toRange src := fun dim x hlow hhigh => by
  have hr := h dim
  exact toRange_of_lt (by omega) (by omega)

variable {r : ℤ → ℤ}

/-- **A box that is cut along the borders of a target lies in the target or does not meet it.** -/
theorem covers_of_intersects {t : Box d} (hr : Precise r src)
    (h : Splits src (computeSplitDimensions r src targetDomains) boxes) (hb : b ∈ boxes)
    (ht : t ∈ targetDomains) (hi : t.Intersects b) : t.Covers b := by
  obtain ⟨p, hpt, hpb⟩ := Box.intersects_iff.mp hi
  have hps : p ∈ src := Box.covers_iff.mp (h.covers hb) p hpb
  have hsrc : t.Intersects src := .of_mem hpt hps
  set i := t.inter src hsrc with hidef
  have hpi : p ∈ i := Box.mem_inter.mpr ⟨hpt, hps⟩
  have hcov : src.Covers i := Box.covers_iff.mpr fun q hq => (Box.mem_inter.mp hq).2
  suffices hib : i.Covers b from
    Box.covers_iff.mpr fun q hq => (Box.mem_inter.mp (Box.covers_iff.mp hib q hq)).1
  have hborder : ∀ dim, (dim, r (i.low dim - 1)) ∈ computeSplitDimensions r src targetDomains ∧
      (dim, i.high dim) ∈ computeSplitDimensions r src targetDomains := by
    intro dim
    have hle := i.low_le_high dim
    obtain ⟨hlow, hhigh⟩ := hcov dim
    have hlow' : src.low dim ≤ i.low dim ∧ src.high dim ≥ i.low dim := ⟨hlow, by omega⟩
    have hhigh' : src.low dim ≤ i.high dim ∧ src.high dim ≥ i.high dim := ⟨by omega, hhigh⟩
    simp only [computeSplitDimensions, borders, List.mem_dedup, List.mem_flatMap]
    refine ⟨⟨t, ht, ?_⟩, t, ht, ?_⟩
    · rw [dif_pos hsrc]
      refine List.mem_flatMap.mpr ⟨dim, List.mem_finRange dim, List.mem_append_left _ ?_⟩
      exact if_pos hlow' ▸ List.mem_singleton_self _
    · rw [dif_pos hsrc]
      refine List.mem_flatMap.mpr ⟨dim, List.mem_finRange dim, List.mem_append_right _ ?_⟩
      exact if_pos hhigh' ▸ List.mem_singleton_self _
  intro dim
  have hpdim := hpb dim
  have hidim := hpi dim
  have hsrcdim := hcov dim
  have hbdim := h.covers hb dim
  have hle := i.low_le_high dim
  have hl := h.oneSide b hb _ (hborder dim).1
  have hh := h.oneSide b hb _ (hborder dim).2
  simp only [OneSide] at hl hh
  -- a target from the lowest coordinate of the source on needs no cut there
  rcases hsrcdim.1.eq_or_lt with hlow | hlow
  · omega
  · rw [hr dim _ hlow (by omega)] at hl
    omega

/-! ## What is left -/

theorem mem_removeDoubleDomains :
    b ∈ removeDoubleDomains targetDomains boxes ↔
      b ∈ boxes ∧ ∀ t ∈ targetDomains, ¬ t.Intersects b := by
  simp [removeDoubleDomains]

/-- The cells that the targets leave. -/
theorem mem_removeDoubleDomains_iff (hr : Precise r src)
    (h : Splits src (computeSplitDimensions r src targetDomains) boxes) :
    (p ∈ src ∧ ∀ t ∈ targetDomains, p ∉ t) ↔
      ∃ b ∈ removeDoubleDomains targetDomains boxes, p ∈ b := by
  constructor
  · rintro ⟨hp, hout⟩
    obtain ⟨b, hb, hpb⟩ := (h.mem_iff p).mp hp
    refine ⟨b, mem_removeDoubleDomains.mpr ⟨hb, fun t ht hi => hout t ht ?_⟩, hpb⟩
    exact Box.covers_iff.mp (covers_of_intersects hr h hb ht hi) p hpb
  · rintro ⟨b, hb, hpb⟩
    obtain ⟨hb, hfree⟩ := mem_removeDoubleDomains.mp hb
    exact ⟨(h.mem_iff p).mpr ⟨b, hb, hpb⟩, fun t ht hpt => hfree t ht (.of_mem hpt hpb)⟩

/-- Of equal boxes one stays. -/
theorem mem_removeCoveredDomains (h : ∀ a ∈ l, ∀ b ∈ l, SameOrDisjoint a b) :
    b ∈ removeCoveredDomains l ↔ b ∈ l := by
  induction l with
  | nil => rfl
  | cons a l ih =>
    have ih := ih fun x hx y hy => h x (List.mem_cons_of_mem _ hx) y (List.mem_cons_of_mem _ hy)
    rw [removeCoveredDomains]
    split
    · next hany =>
      obtain ⟨c, hc, hi⟩ := List.any_eq_true.mp hany
      obtain rfl : c = a := (h c (List.mem_cons_of_mem _ hc) a List.mem_cons_self).resolve_right
        fun hn => hn (by simpa using hi)
      rw [ih, List.mem_cons, iff_or_self]
      rintro rfl
      exact hc
    · rw [List.mem_cons, List.mem_cons, ih]

theorem pairwise_removeCoveredDomains (l : List (Box d)) :
    (removeCoveredDomains l).Pairwise fun a b => ¬ a.Intersects b := by
  have hsub : ∀ l : List (Box d), ∀ b ∈ removeCoveredDomains l, b ∈ l := by
    intro l
    induction l with
    | nil => exact fun _ hb => hb
    | cons a l ih =>
      intro b hb
      rw [removeCoveredDomains] at hb
      split at hb
      · exact List.mem_cons_of_mem _ (ih b hb)
      · exact List.mem_cons.mpr ((List.mem_cons.mp hb).imp_right (ih b))
  induction l with
  | nil => exact .nil
  | cons a l ih =>
    rw [removeCoveredDomains]
    split
    · exact ih
    · next hany =>
      refine List.pairwise_cons.mpr ⟨fun b hb hi => hany ?_, ih⟩
      exact List.any_eq_true.mpr ⟨b, hsub l b hb, by simpa using hi.symm⟩

/-! ## Merging -/

/-- Whatever `mergeDomains` merges makes up a box. -/
def mergesAdjoining (isMergeable : Box d → Box d → Bool) : ℕ → (splitedDomains : List (Box d)) → Bool
  | 0, _ => true
  | _ + 1, [] => true
  | n + 1, b :: bs =>
    match bs.find? (isMergeable b) with
    | some c => b.isMergeable c && mergesAdjoining isMergeable n (bs.erase c ++ [b.closureWith c])
    | none => mergesAdjoining isMergeable n bs

/-- The test for boxes that make up a box. -/
theorem mergesAdjoining_isMergeable (n : ℕ) (splited : List (Box d)) :
    mergesAdjoining Box.isMergeable n splited = true := by
  fun_induction mergesAdjoining Box.isMergeable n splited with
  | case1 => rfl
  | case2 => rfl
  | case3 n b bs c hfind ih => rw [ih, List.find?_some hfind, Bool.and_true]
  | case4 n b bs hfind ih => exact ih

variable {isMergeable : Box d → Box d → Bool}

/-- Merging keeps the cells and keeps the boxes disjoint. -/
theorem tiles_mergeDomains {R : Set (Point d)} (n : ℕ) {splited temp : List (Box d)}
    (hadjoin : mergesAdjoining isMergeable n splited = true) (h : Tiles R (temp ++ splited)) :
    Tiles R (mergeDomains isMergeable n splited temp) := by
  induction n generalizing splited temp with
  | zero => exact h
  | succ n ih =>
    rcases splited with _ | ⟨b, bs⟩
    · rwa [mergeDomains, ← List.append_nil temp]
    · rw [mergeDomains]
      rw [mergesAdjoining] at hadjoin
      split
      · next c hfind =>
        have hc := List.mem_of_find?_eq_some hfind
        rw [hfind] at hadjoin
        obtain ⟨hmerge, hadjoin⟩ := Bool.and_eq_true_iff.mp hadjoin
        refine ih hadjoin ?_
        -- the two boxes to the front, and the merged one to the end
        have hfront : (temp ++ b :: bs).Perm (b :: c :: (temp ++ bs.erase c)) := by
          refine List.perm_middle.trans (.cons b ?_)
          exact ((List.perm_cons_erase hc).append_left temp).trans List.perm_middle
        have hend : (b.closureWith c :: (temp ++ bs.erase c)).Perm
            (temp ++ (bs.erase c ++ [b.closureWith c])) := by
          rw [← List.append_assoc]
          exact (List.perm_append_singleton _ _).symm
        exact ((h.perm hfront).merge fun p => Box.mem_closureWith_of_isMergeable hmerge).perm hend
      · next hfind =>
        rw [hfind] at hadjoin
        exact ih hadjoin (by simpa using h)

/-- **What is left tiles the rest of the domain.** -/
theorem tiles_tiledDomains (src : Box d) (targetDomains : List (Box d)) :
    Tiles {p | p ∈ src ∧ ∀ t ∈ targetDomains, p ∉ t} (tiledDomains [src] targetDomains) := by
  have hsplits := splits_splitMinterval src (computeSplitDimensions id src targetDomains)
  have hsplit : split id [src] targetDomains =
      splitMinterval src (computeSplitDimensions id src targetDomains) := by simp [split]
  refine tiles_mergeDomains _ (mergesAdjoining_isMergeable ..)
    ⟨pairwise_removeCoveredDomains _, fun p => ?_⟩
  rw [List.nil_append, hsplit, Set.mem_ofPred_eq, mem_removeDoubleDomains_iff (precise_id src) hsplits]
  refine exists_congr fun b => and_congr_left fun _ => ?_
  refine (mem_removeCoveredDomains fun a ha b hb => ?_).symm
  exact hsplits.same a (mem_removeDoubleDomains.mp ha).1 b (mem_removeDoubleDomains.mp hb).1

end Tiler

end Rasdaman

/-!
## `r_Tiler` computes a set difference

`removeCoveredDomains` and `removeDoubleDomains` may be called in either order, and `mergeDomains` ends after
one round for each box that is left.  What they return tiles the sources without the targets as long as
`is_mergeable` only lets boxes merge that make up a box (`Tiler.tiles_difference`); it also lets those merge
whose `high() + 1` wraps around, and then the cells between them are added (`merges_whole`).
-/

namespace Rasdaman

namespace Tiler

variable {d : ℕ} {a b c : Box d} {p : Point d} {n : ℕ}
  {sourceDomains targetDomains boxes splited temp result : List (Box d)}

/-! ## The loop of `mergeDomains` -/

/-- The loop of `mergeDomains` goes from a list of boxes, and those that are done, to a result. -/
inductive Merges : (splitedDomains temp result : List (Box d)) → Prop
  | done (temp : List (Box d)) : Merges [] temp temp
  | merged {b c : Box d} {bs temp result : List (Box d)} (hfind : bs.find? b.isMergeableRange = some c)
      (hrest : Merges (bs.erase c ++ [b.closureWith c]) temp result) : Merges (b :: bs) temp result
  | kept {b : Box d} {bs temp result : List (Box d)} (hfind : bs.find? b.isMergeableRange = none)
      (hrest : Merges bs (temp ++ [b]) result) : Merges (b :: bs) temp result

/-- **The loop ends**, with what `mergeDomains` returns: a round leaves one box less. -/
theorem merges_mergeDomains (hn : splited.length = n) :
    Merges splited temp (mergeDomains Box.isMergeableRange n splited temp) := by
  induction n generalizing splited temp with
  | zero =>
    obtain rfl := List.eq_nil_of_length_eq_zero hn
    rw [mergeDomains, List.append_nil]
    exact .done temp
  | succ n ih =>
    obtain ⟨b, bs, rfl⟩ := List.exists_cons_of_length_eq_add_one hn
    rw [mergeDomains]
    split
    · next c hfind =>
      refine .merged hfind (ih ?_)
      have hlen := List.length_erase_of_mem (List.mem_of_find?_eq_some hfind)
      have hpos := List.length_pos_of_mem (List.mem_of_find?_eq_some hfind)
      rw [List.length_append, List.length_singleton, hlen, Nat.sub_add_cancel hpos]
      exact Nat.succ.inj hn
    · next hfind => exact .kept hfind (ih (Nat.succ.inj hn))

/-- The loop has one result. -/
theorem Merges.unique {result' : List (Box d)} (h : Merges splited temp result)
    (h' : Merges splited temp result') : result = result' := by
  induction h with
  | done => cases h' with
    | done => rfl
  | merged hfind _ ih => cases h' with
    | merged hfind' hrest' =>
      obtain rfl := Option.some.inj (hfind.symm.trans hfind')
      exact ih hrest'
    | kept hfind' _ => cases hfind.symm.trans hfind'
  | kept hfind _ ih => cases h' with
    | merged hfind' _ => cases hfind.symm.trans hfind'
    | kept _ hrest' => exact ih hrest'

/-- **Merging keeps the cells**, of any boxes. -/
theorem Merges.mem_iff (h : Merges splited temp result) (p : Point d)
    (hadjoin : mergesAdjoining Box.isMergeableRange splited.length splited = true) :
    (∃ b ∈ result, p ∈ b) ↔ ∃ b ∈ temp ++ splited, p ∈ b := by
  induction h with
  | done => rw [List.append_nil]
  | @merged b c bs temp result hfind _ ih =>
    have hc := List.mem_of_find?_eq_some hfind
    rw [List.length_cons, mergesAdjoining, hfind] at hadjoin
    obtain ⟨hmerge, hadjoin⟩ := Bool.and_eq_true_iff.mp hadjoin
    have hcells : p ∈ b.closureWith c ↔ p ∈ b ∨ p ∈ c := Box.mem_closureWith_of_isMergeable hmerge
    have hbs : (∃ x ∈ bs, p ∈ x) ↔ p ∈ c ∨ ∃ x ∈ bs.erase c, p ∈ x := by
      simp only [(List.perm_cons_erase hc).mem_iff, List.exists_mem_cons_iff]
    have hlen : (bs.erase c ++ [b.closureWith c]).length = bs.length := by
      have hpos := List.length_pos_of_mem hc
      rw [List.length_append, List.length_singleton, List.length_erase_of_mem hc, Nat.sub_add_cancel hpos]
    rw [ih (hlen.symm ▸ hadjoin)]
    simp only [List.mem_append, or_and_right, exists_or, List.mem_cons, List.not_mem_nil, or_false,
      exists_eq_left, hcells, hbs]
    exact or_congr_right (or_comm.trans or_assoc)
  | kept hfind _ ih =>
    rw [List.length_cons, mergesAdjoining, hfind] at hadjoin
    rw [ih hadjoin]
    simp only [List.append_assoc, List.singleton_append]

/-- **Merging keeps boxes disjoint.** -/
theorem Merges.tiles {R : Set (Point d)} (h : Merges splited temp result) (ht : Tiles R (temp ++ splited))
    (hadjoin : mergesAdjoining Box.isMergeableRange splited.length splited = true) : Tiles R result := by
  rw [h.unique (merges_mergeDomains rfl)]
  exact tiles_mergeDomains _ hadjoin ht

/-! ## Either order -/

/-- Pieces of disjoint sources are the same or share no cell. -/
theorem same_split (hdisj : sourceDomains.Pairwise fun a b => ¬a.Intersects b) :
    ∀ a ∈ split toRange sourceDomains targetDomains, ∀ b ∈ split toRange sourceDomains targetDomains,
      SameOrDisjoint a b := by
  intro a ha b hb
  obtain ⟨s, hs, ha⟩ := List.mem_flatMap.mp ha
  obtain ⟨s', hs', hb⟩ := List.mem_flatMap.mp hb
  have hsplits := splits_splitMinterval s (computeSplitDimensions toRange s targetDomains)
  have hsplits' := splits_splitMinterval s' (computeSplitDimensions toRange s' targetDomains)
  have hsymm : Std.Symm (SameOrDisjoint (d := d)) := ⟨fun _ _ h => h.symm⟩
  have hpairs : sourceDomains.Pairwise SameOrDisjoint := hdisj.imp Or.inr
  have hself : ∀ s ∈ sourceDomains, SameOrDisjoint s s := fun _ _ => Or.inl rfl
  have hsources : SameOrDisjoint s s' := hpairs.forall_of_forall hself hs hs'
  rcases hsources with rfl | hsources
  · exact hsplits.same a ha b hb
  · exact .of_covers hsources (hsplits.covers ha) (hsplits'.covers hb)

/-- The cells that the targets leave of the sources. -/
theorem mem_removeDoubleDomains_split (hrange : ∀ s ∈ sourceDomains, s.InRange) :
    ((∃ s ∈ sourceDomains, p ∈ s) ∧ ∀ t ∈ targetDomains, p ∉ t) ↔
      ∃ b ∈ removeDoubleDomains targetDomains (split toRange sourceDomains targetDomains), p ∈ b := by
  have hsource := fun s hs => mem_removeDoubleDomains_iff (p := p) (precise_toRange (hrange s hs))
    (splits_splitMinterval s (computeSplitDimensions toRange s targetDomains))
  constructor
  · rintro ⟨⟨s, hs, hp⟩, hout⟩
    obtain ⟨b, hb, hpb⟩ := (hsource s hs).mp ⟨hp, hout⟩
    obtain ⟨hb, hfree⟩ := mem_removeDoubleDomains.mp hb
    exact ⟨b, mem_removeDoubleDomains.mpr ⟨List.mem_flatMap.mpr ⟨s, hs, hb⟩, hfree⟩, hpb⟩
  · rintro ⟨b, hb, hpb⟩
    obtain ⟨hb, hfree⟩ := mem_removeDoubleDomains.mp hb
    obtain ⟨s, hs, hb⟩ := List.mem_flatMap.mp hb
    obtain ⟨hp, hout⟩ := (hsource s hs).mpr ⟨b, mem_removeDoubleDomains.mpr ⟨hb, hfree⟩, hpb⟩
    exact ⟨⟨s, hs, hp⟩, hout⟩

/-- The boxes after the two removals, in one order or the other. -/
inductive Removed (targetDomains splited : List (Box d)) : List (Box d) → Prop
  | doubleFirst : Removed targetDomains splited (removeCoveredDomains (removeDoubleDomains targetDomains splited))
  | coveredFirst : Removed targetDomains splited (removeDoubleDomains targetDomains (removeCoveredDomains splited))

/-- **After the removals, the boxes tile the sources without the targets.** -/
theorem Removed.tiles (hrange : ∀ s ∈ sourceDomains, s.InRange)
    (hdisj : sourceDomains.Pairwise fun a b => ¬a.Intersects b)
    (h : Removed targetDomains (split toRange sourceDomains targetDomains) boxes) :
    Tiles {p | (∃ s ∈ sourceDomains, p ∈ s) ∧ ∀ t ∈ targetDomains, p ∉ t} boxes := by
  have hsame := @same_split d sourceDomains targetDomains hdisj
  have hmem : ∀ b, b ∈ boxes ↔
      b ∈ removeDoubleDomains targetDomains (split toRange sourceDomains targetDomains) := by
    intro b
    cases h with
    | doubleFirst =>
      exact mem_removeCoveredDomains fun a ha b hb =>
        hsame a (mem_removeDoubleDomains.mp ha).1 b (mem_removeDoubleDomains.mp hb).1
    | coveredFirst =>
      rw [mem_removeDoubleDomains, mem_removeDoubleDomains, mem_removeCoveredDomains hsame]
  refine ⟨?_, fun p => ?_⟩
  · cases h with
    | doubleFirst => exact pairwise_removeCoveredDomains _
    | coveredFirst => exact (pairwise_removeCoveredDomains _).filter _
  · simp only [hmem]
    exact mem_removeDoubleDomains_split hrange

/-- **`r_Tiler` computes a set difference** if `is_mergeable` lets only boxes merge that make up a box: after
the cuts and the removals, in either order, the merging ends with one result, which tiles the sources without
the targets.  Merging ends and keeps the cells of any boxes. -/
theorem tiles_difference (sourceDomains targetDomains : List (Box d))
    (hrange : ∀ s ∈ sourceDomains, s.InRange)
    (hdisj : sourceDomains.Pairwise fun a b => ¬a.Intersects b) :
    (∀ boxes, Removed targetDomains (split toRange sourceDomains targetDomains) boxes →
      ∃ result, (∀ r, Merges boxes [] r ↔ r = result) ∧
        (mergesAdjoining Box.isMergeableRange boxes.length boxes = true →
          Tiles {p | (∃ s ∈ sourceDomains, p ∈ s) ∧ ∀ t ∈ targetDomains, p ∉ t} result)) ∧
    ∀ boxes : List (Box d), ∃ result, (∀ r, Merges boxes [] r ↔ r = result) ∧
      (mergesAdjoining Box.isMergeableRange boxes.length boxes = true →
        ∀ p, (∃ b ∈ result, p ∈ b) ↔ ∃ b ∈ boxes, p ∈ b) := by
  have hends : ∀ boxes : List (Box d), ∃ result, Merges boxes [] result ∧
      ∀ r, Merges boxes [] r ↔ r = result := by
    intro boxes
    have hmerges : Merges boxes [] _ := merges_mergeDomains rfl
    refine ⟨_, hmerges, fun r => ⟨fun hr => hr.unique hmerges, ?_⟩⟩
    rintro rfl
    exact hmerges
  refine ⟨fun boxes hremoved => ?_, fun boxes => ?_⟩
  · obtain ⟨result, hmerges, hiff⟩ := hends boxes
    exact ⟨result, hiff, hmerges.tiles (by rw [List.nil_append]; exact hremoved.tiles hrange hdisj)⟩
  · obtain ⟨result, hmerges, hiff⟩ := hends boxes
    refine ⟨result, hiff, fun hadjoin p => ?_⟩
    rw [hmerges.mem_iff p hadjoin, List.nil_append]

/-- The rows of a box of three by two cells. -/
def rows : List (Box 2) := [⟨![0, 0], ![2, 0], by decide⟩, ⟨![0, 1], ![2, 1], by decide⟩]

/-- The column in the middle. -/
def middle : Box 2 := ⟨![1, 0], ![1, 1], by decide⟩

/-- Each row is cut in three and loses its middle cell; the four cells that remain are merged to columns. -/
theorem tiles_difference_rows : ∃ boxes result,
    Removed [middle] (split toRange rows [middle]) boxes ∧ Merges boxes [] result ∧
      (boxes.length = 4 ∧ result.length = 2) ∧
      Tiles {p | (∃ s ∈ rows, p ∈ s) ∧ ∀ t ∈ [middle], p ∉ t} result := by
  obtain ⟨result, hiff, htiles⟩ := (tiles_difference rows [middle] (by decide) (by decide)).1 _ .doubleFirst
  refine ⟨_, result, .doubleFirst, (hiff result).mpr rfl, ⟨by decide +kernel, ?_⟩, htiles (by decide +kernel)⟩
  rw [← (hiff _).mp (merges_mergeDomains rfl)]
  decide +kernel

/-- All the coordinates there are. -/
def whole : Box 1 := ⟨![-2 ^ 63], ![2 ^ 63 - 1], by decide⟩

def zero : Point 1 := ![0]

def origin : Box 1 := ⟨zero, zero, fun _ => le_rfl⟩

/-- What is left of them without the origin. -/
def pieces : List (Box 1) :=
  removeCoveredDomains (removeDoubleDomains [origin] (split toRange [whole] [origin]))

/-- **The cell that was cut out is back**: the pieces on both sides of it are merged, since the end of the
one wraps around to the beginning of the other. -/
theorem merges_whole : ∃ result, Removed [origin] (split toRange [whole] [origin]) pieces ∧
    Merges pieces [] result ∧
      ¬ Tiles {p | (∃ s ∈ [whole], p ∈ s) ∧ ∀ t ∈ [origin], p ∉ t} result := by
  refine ⟨_, .doubleFirst, merges_mergeDomains rfl, fun h => ?_⟩
  have hback : ((mergeDomains Box.isMergeableRange pieces.length pieces []).any
      fun b => decide (![0] ∈ b)) = true := by decide +kernel
  obtain ⟨b, hb, hp⟩ := List.any_eq_true.mp hback
  exact ((h.mem_iff ![0]).mpr ⟨b, hb, of_decide_eq_true hp⟩).2 origin (by simp) (by decide)

end Tiler

end Rasdaman
