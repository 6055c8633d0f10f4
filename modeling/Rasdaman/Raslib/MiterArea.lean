import Rasdaman.Machinery.Odometer
import Rasdaman.Raslib.Grid
import Rasdaman.Raslib.Miter
import Rasdaman.Raslib.Range

/-!
# Raslib/MiterArea — moving a box through a larger one

`r_MiterArea` goes through a domain in steps of the extents of another box, the first dimension running
fastest, and answers with the part of the domain at each step.  It counts the steps of a dimension in
an `int`, and computes extents and bounds as `r_Range`s; the definitions take what that makes of a number.

`visits_increment` — the iterator ends, and its counters take each value below their `int` bounds once.
-/

namespace Rasdaman

open Odometer

namespace Box

variable {d : ℕ}

/-- `get_extent`, as a point. -/
def getExtent (b : Box d) : Point d := fun i => b.extent i

/-- A box that is covered is its own intersection with what covers it. -/
theorem createIntersection_of_covers {a b : Box d} (h : a.Covers b) :
    b.createIntersection a = .ok b := by
  have hint : b.Intersects a := .of_mem b.low_mem (covers_iff.mp h _ b.low_mem)
  rw [createIntersection, dif_pos hint]
  refine congrArg _ (eq_of_mem_iff fun p => ?_)
  rw [mem_inter]
  exact ⟨And.left, fun hp => ⟨hp, covers_iff.mp h p hp⟩⟩

end Box

/-- `r_MiterArea`: the box that is moved, and the domain it is moved through. -/
structure MiterArea (d : ℕ) where
  iterDom : Box d
  imgDom : Box d
  /-- What computing a coordinate makes of it: `toRange`, or `id` in integers without bounds. -/
  r : ℤ → ℤ

namespace MiterArea

variable {d : ℕ} {β : Type} (it : MiterArea d)

/-- `repeat` of a dimension: how often the box is moved. -/
def repetitions (i : Fin d) : ℤ :=
  toInt ((it.r (it.imgDom.getExtent i)).tdiv (it.r (it.iterDom.getExtent i)) +
    if (it.r (it.imgDom.getExtent i)).tmod (it.r (it.iterDom.getExtent i)) ≠ 0 then 1 else 0)

/-- The counter of one dimension. -/
def counter (rep : ℤ) : Wheel ℤ where
  first := 0
  next := fun curr => if curr + 1 < rep then some (curr + 1) else none

/-- The loop of `nextArea` that increments the counters: the first dimension that does not overflow moves
on, those before it start again; there is no next area after an overflow of the last.  The wheels of
`turn` overflow from the last one on. -/
def increment (curr : Point d) : Option (Point d) :=
  (turn (fun i => counter (it.repetitions i.rev)) (curr ∘ Fin.rev)).map (· ∘ Fin.rev)

/-- The area `nextArea` answers with. -/
def retVal (curr : Point d) : Except RError (Box d) := do
  let currDom ← Box.ofBounds (fun i => it.r (it.imgDom.low i + curr i * it.iterDom.getExtent i))
    fun i => it.r (it.imgDom.low i + (curr i + 1) * it.iterDom.getExtent i - 1)
  currDom.createIntersection it.imgDom

/-- A loop that calls its body with the areas until the iterator is done, which is after so many rounds. -/
def forAreas (body : Box d → Except Halt β) : Except Halt (List β) :=
  sweep .endless it.increment
    (fun curr => do
      let area ← (it.retVal curr).mapError .throws
      let here ← body area
      return [here])
    (∏ i, (max 1 (it.repetitions i)).toNat) (some fun _ => 0)

/-! ## The counters -/

/-- The states of the counters, in the order of the iterator. -/
def counts : List (Point d) :=
  (combos fun i => upTo 0 (max 0 (it.repetitions i.rev - 1))).map (· ∘ Fin.rev)

theorem mem_counts {k : Point d} :
    k ∈ it.counts ↔ ∀ i, 0 ≤ k i ∧ k i ≤ max 0 (it.repetitions i - 1) := by
  simp only [counts, List.mem_map, mem_combos, mem_upTo]
  constructor
  · rintro ⟨x, hx, rfl⟩ i
    simpa using hx i.rev
  · intro h
    exact ⟨k ∘ Fin.rev, fun i => h i.rev, funext fun i => by simp⟩

theorem nodup_counts : it.counts.Nodup := by
  refine (nodup_combos fun i => nodup_upTo _ _).map fun x y hxy => funext fun i => ?_
  simpa using congrFun hxy i.rev

theorem length_counts : it.counts.length = ∏ i, (max 1 (it.repetitions i)).toNat := by
  have hone : ∀ i : Fin d, (upTo 0 (max 0 (it.repetitions i.rev - 1))).length
      = (max 1 (it.repetitions i.rev)).toNat := fun i => by
    rw [length_upTo]
    omega
  rw [counts, List.length_map, length_combos, List.prod_ofFn]
  simp only [hone]
  exact Equiv.prod_comp Fin.revPerm fun i => (max 1 (it.repetitions i)).toNat

/-- A counter goes through the numbers below its bound, and through 0 at least. -/
theorem visits_counter (rep : ℤ) :
    Visits (counter rep).next (some (counter rep).first) (upTo 0 (max 0 (rep - 1))) none := by
  refine (visits_upTo (le_max_left 0 (rep - 1))).congr fun x hx => ?_
  rw [mem_upTo] at hx
  by_cases hlast : x = max 0 (rep - 1)
  · rw [if_pos hlast]
    exact if_neg (by omega)
  · rw [if_neg hlast]
    exact if_pos (by omega)

/-- **The iterator goes through all the states of its counters.** -/
theorem visits_increment : Visits it.increment (some fun _ => 0) it.counts none := by
  have hturn := visits_turn fun i : Fin d => visits_counter (it.repetitions i.rev)
  refine hturn.map (f := (· ∘ Fin.rev)) fun x _ => ?_
  have hrev : (x ∘ Fin.rev) ∘ Fin.rev = x := funext fun i => by simp
  rw [increment, hrev]

/-- The loop ends, with what its body returns for the areas. -/
theorem forAreas_eq {body : Box d → Except Halt β} {area : Point d → Box d} {out : Point d → β}
    (harea : ∀ k ∈ it.counts, it.retVal k = .ok (area k))
    (hbody : ∀ k ∈ it.counts, body (area k) = .ok (out k)) :
    it.forAreas body = .ok (it.counts.map out) := by
  rw [List.map_eq_flatMap, forAreas]
  refine sweep_eq it.visits_increment it.length_counts.le fun k hk => ?_
  rw [harea k hk]
  simp only [Except.mapError, bind, Except.bind, hbody k hk]
  rfl

/-- What the loop collects, its body returned for one of the areas. -/
theorem exists_of_mem_forAreas {body : Box d → Except Halt β} {found : List β} {y : β}
    (h : it.forAreas body = .ok found) (hy : y ∈ found) :
    ∃ k ∈ it.counts, ∃ area, it.retVal k = .ok area ∧ body area = .ok y := by
  obtain ⟨k, hk, out, hout, hmem⟩ := exists_visited_of_mem_sweep it.visits_increment h hy
  refine ⟨k, hk, ?_⟩
  cases harea : it.retVal k with
  | error e =>
    rw [harea] at hout
    cases hout
  | ok area =>
    rw [harea] at hout
    simp only [Except.mapError, bind, Except.bind] at hout
    cases hhere : body area with
    | error e =>
      rw [hhere] at hout
      cases hout
    | ok here =>
      rw [hhere] at hout
      obtain rfl : [here] = out := Except.ok.inj hout
      exact ⟨area, rfl, by rw [hhere, List.mem_singleton.mp hmem]⟩

end MiterArea

end Rasdaman

/-!
## When `r_MiterArea` tiles its domain

The areas are cells of a grid that begins at the origin of the domain, cut at its bounds.
`tilesImage_iff`: they tile the domain when the extents are `r_Range`s, the box goes less than `2^31` times
into each dimension, which is what an `int` can count, and the last cell has `r_Range`s for bounds; of
extents that are `r_Range`s, only then.
-/

namespace Rasdaman

namespace MiterArea

variable {d : ℕ} (it : MiterArea d)

/-- The areas that the iterator answers with until it is done. -/
def areas : Except Halt (List (Box d)) := it.forAreas .ok

/-- The box that is moved, at the origin of the domain. -/
def firstCell : Box d where
  low := it.imgDom.low
  high := fun i => it.imgDom.low i + it.iterDom.getExtent i - 1
  low_le_high := fun i => by
    have := it.iterDom.extent_cast_pos i
    rw [Box.getExtent]
    omega

/-- **The areas tile the domain**, and each is the part of a grid cell that lies in it. -/
structure TilesImage : Prop where
  tiles : ∃ bs, it.areas = .ok bs ∧ Tiles it.imgDom.region bs
  cells : ∀ bs, it.areas = .ok bs → ∀ b ∈ bs, ∃ k, ∀ p, p ∈ b ↔
    p ∈ it.firstCell.gridCell k ∧ p ∈ it.imgDom

/-- The numbers that the iterator computes are `r_Range`s: the extents, and the bounds of the cells of the
grid up to the last one.  An `int` can count the cells. -/
structure GridFits (it : MiterArea d) : Prop where
  extent_lt : ∀ i, it.imgDom.extent i < 2 ^ 63 ∧ it.iterDom.extent i < 2 ^ 63
  steps_lt : ∀ i, it.firstCell.gridIndex it.imgDom.high i + 1 < 2 ^ 31
  last_le : ∀ i, it.imgDom.low i + (it.firstCell.gridIndex it.imgDom.high i + 1) * it.iterDom.extent i ≤ 2 ^ 63

/-! ## Areas are cells of a grid -/

variable {it} {k p : Point d} {area : Box d} {i : Fin d}

theorem extent_firstCell : it.firstCell.extent i = it.iterDom.extent i := by
  have := it.iterDom.extent_cast_pos i
  simp only [Box.extent, firstCell, Box.getExtent] at this ⊢
  omega

theorem gridCell_low : (it.firstCell.gridCell k).low i = it.imgDom.low i + k i * it.iterDom.getExtent i := by
  simp only [Box.gridCell, Box.createTranslation, extent_firstCell, Box.getExtent]
  rw [firstCell, mul_comm]

theorem gridCell_high :
    (it.firstCell.gridCell k).high i = it.imgDom.low i + (k i + 1) * it.iterDom.getExtent i - 1 := by
  simp only [Box.gridCell, Box.createTranslation, extent_firstCell, Box.getExtent]
  simp only [firstCell, Box.getExtent]
  ring

/-- **An area is the part of a grid cell that lies in the domain**; there is none where they do not
meet. -/
theorem retVal_eq (hr : it.r = toRange) (hk : (it.firstCell.gridCell k).InRange) :
    it.retVal k = (it.firstCell.gridCell k).createIntersection it.imgDom := by
  have hbounds := Box.ofRanges_eq hk
  simp only [Box.ofRanges, gridCell_low, gridCell_high] at hbounds
  rw [retVal, hr, hbounds]
  rfl

theorem mem_of_retVal (hr : it.r = toRange) (hk : (it.firstCell.gridCell k).InRange)
    (h : it.retVal k = .ok area) : p ∈ area ↔ p ∈ it.firstCell.gridCell k ∧ p ∈ it.imgDom := by
  rw [retVal_eq hr hk, Box.createIntersection] at h
  split at h
  · obtain rfl := Except.ok.inj h
    exact Box.mem_inter
  · cases h

/-- The cells up to the last one have `r_Range`s for bounds. -/
theorem gridCell_inRange (hr : it.imgDom.InRange)
    (hk : ∀ i, 0 ≤ k i ∧ it.imgDom.low i + (k i + 1) * it.iterDom.extent i ≤ 2 ^ 63) :
    (it.firstCell.gridCell k).InRange := fun i => by
  have hlow := mul_nonneg (hk i).1 (it.iterDom.extent_cast_pos i).le
  have hhigh := (hk i).2
  have hbound := (hr i).1
  rw [gridCell_low, gridCell_high, Box.getExtent]
  omega

/-! ## The number of steps -/

/-- The grid cells that a dimension of the domain meets. -/
def steps (it : MiterArea d) (i : Fin d) : ℤ := it.firstCell.gridIndex it.imgDom.high i + 1

theorem steps_pos (it : MiterArea d) (i : Fin d) : 0 < it.steps i := by
  have hpos := it.firstCell.extent_cast_pos i
  have hle := it.imgDom.low_le_high i
  have hnonneg : 0 ≤ it.firstCell.gridIndex it.imgDom.high i :=
    Int.ediv_nonneg (Int.sub_nonneg_of_le hle) hpos.le
  rw [steps]
  omega

/-- `repeat` is the number of these cells, as an `int`. -/
theorem repetitions_eq (hr : it.r = toRange) (hext : it.imgDom.extent i < 2 ^ 63 ∧ it.iterDom.extent i < 2 ^ 63) :
    it.repetitions i = toInt (it.steps i) := by
  have himg : toRange (it.imgDom.getExtent i) = it.imgDom.extent i :=
    toRange_of_lt (x := it.imgDom.extent i) (by omega) (by exact_mod_cast hext.1)
  have hiter : toRange (it.iterDom.getExtent i) = it.iterDom.extent i :=
    toRange_of_lt (x := it.iterDom.extent i) (by omega) (by exact_mod_cast hext.2)
  have hpos : (0 : ℤ) < it.iterDom.extent i := it.iterDom.extent_cast_pos i
  have hext : (it.imgDom.extent i : ℤ) = it.imgDom.high i - it.imgDom.low i + 1 := it.imgDom.extent_cast i
  have hnonneg : (0 : ℤ) ≤ it.imgDom.extent i := Int.natCast_nonneg _
  have hsplit := Int.emod_add_mul_ediv (it.imgDom.extent i) (it.iterDom.extent i)
  have hrest := Int.emod_nonneg (it.imgDom.extent i : ℤ) hpos.ne'
  have hlt := Int.emod_lt_of_pos (it.imgDom.extent i : ℤ) hpos
  rw [repetitions, hr, himg, hiter, steps, Box.gridIndex, extent_firstCell]
  simp only [Int.tdiv_eq_ediv_of_nonneg hnonneg, Int.tmod_eq_emod_of_nonneg hnonneg]
  refine congrArg toInt ?_
  change _ = (it.imgDom.high i - it.imgDom.low i) / _ + 1
  set e : ℤ := (it.iterDom.extent i : ℤ)
  set m : ℤ := (it.imgDom.extent i : ℤ) % e
  set q : ℤ := (it.imgDom.extent i : ℤ) / e
  split
  · next hm =>
    have := (Int.ediv_emod_unique (a := it.imgDom.high i - it.imgDom.low i) (r := m - 1) (q := q) hpos).mpr
      ⟨by omega, by omega, by omega⟩
    rw [this.1]
  · next hm =>
    have := (Int.ediv_emod_unique (a := it.imgDom.high i - it.imgDom.low i) (r := e - 1) (q := q - 1)
      hpos).mpr ⟨by rw [mul_sub]; omega, by omega, by omega⟩
    rw [this.1]
    omega

/-- The counters stay below the number of steps. -/
theorem lt_steps_of_mem_counts (hr : it.r = toRange)
    (hext : it.imgDom.extent i < 2 ^ 63 ∧ it.iterDom.extent i < 2 ^ 63) (hk : k ∈ it.counts) :
    0 ≤ k i ∧ k i < it.steps i ∧ k i < 2 ^ 31 - 1 := by
  have hki := it.mem_counts.mp hk i
  have hpos := it.steps_pos i
  rw [repetitions_eq hr hext, toInt, Int.bmod_def] at hki
  omega

/-- The counters of an iterator whose steps an `int` can count. -/
theorem mem_counts_iff (hr : it.r = toRange) (h : it.GridFits) :
    k ∈ it.counts ↔ ∀ i, 0 ≤ k i ∧ k i ≤ it.firstCell.gridIndex it.imgDom.high i := by
  rw [mem_counts]
  refine forall_congr' fun i => ?_
  have hpos := it.steps_pos i
  have hsteps := h.steps_lt i
  rw [repetitions_eq hr (h.extent_lt i), toInt_of_lt hpos.le hsteps, steps]
  rw [steps] at hpos
  omega

/-- The cells that are counted have `r_Range`s for bounds. -/
theorem inRange_of_mem_counts (hr : it.r = toRange) (himg : it.imgDom.InRange) (h : it.GridFits)
    (hk : k ∈ it.counts) : (it.firstCell.gridCell k).InRange := gridCell_inRange himg fun i => by
  obtain ⟨hnonneg, hle⟩ := (mem_counts_iff hr h).mp hk i
  have hmul := mul_le_mul_of_nonneg_right (add_le_add_left hle 1) (it.iterDom.extent_cast_pos i).le
  exact ⟨hnonneg, by have := h.last_le i; omega⟩

/-- Every count leads to a cell that meets the domain. -/
theorem intersects_of_mem_counts (hr : it.r = toRange) (h : it.GridFits) (hk : k ∈ it.counts) :
    (it.firstCell.gridCell k).Intersects it.imgDom := by
  refine Box.gridCell_intersects_iff.mpr fun i => ?_
  have hlow : it.firstCell.gridIndex it.imgDom.low i = 0 := by
    rw [Box.gridIndex, firstCell, sub_self, Int.zero_ediv]
  rw [hlow]
  exact (mem_counts_iff hr h).mp hk i

theorem gridIndex_mem_counts (hr : it.r = toRange) (h : it.GridFits) (hp : p ∈ it.imgDom) :
    it.firstCell.gridIndex p ∈ it.counts := by
  refine (mem_counts_iff hr h).mpr fun i => ?_
  have hpos := it.firstCell.extent_cast_pos i
  have := hp i
  exact ⟨Int.ediv_nonneg (Int.sub_nonneg_of_le this.1) hpos.le, Int.ediv_le_ediv hpos (by omega)⟩

theorem tilesImage_of_gridFits (hr : it.r = toRange) (himg : it.imgDom.InRange) (h : it.GridFits) :
    it.TilesImage := by
  have : Nonempty (Box d) := ⟨it.imgDom⟩
  have hret : ∀ k ∈ it.counts, ∃ area, it.retVal k = .ok area := fun k hk => by
    rw [retVal_eq hr (inRange_of_mem_counts hr himg h hk), Box.createIntersection,
      dif_pos (intersects_of_mem_counts hr h hk)]
    exact ⟨_, rfl⟩
  choose! area harea using hret
  have hmem : ∀ k ∈ it.counts, ∀ p, p ∈ area k ↔ p ∈ it.firstCell.gridCell k ∧ p ∈ it.imgDom :=
    fun k hk p => mem_of_retVal hr (inRange_of_mem_counts hr himg h hk) (harea k hk)
  have hareas : it.areas = .ok (it.counts.map area) := it.forAreas_eq harea fun k hk => rfl
  refine ⟨⟨_, hareas, .of_cells ?_ hmem fun p hp => ?_⟩, fun bs hbs b hb => ?_⟩
  · exact it.nodup_counts.imp fun hne hi => hne (Box.eq_of_gridCell_intersects hi)
  · exact ⟨_, gridIndex_mem_counts hr h hp, Box.mem_gridCell.mpr rfl⟩
  · obtain rfl := Except.ok.inj (hareas.symm.trans hbs)
    obtain ⟨k, hk, rfl⟩ := List.mem_map.mp hb
    exact ⟨k, hmem k hk⟩

/-- A dimension in which the steps or the last cell do not fit: its last cell is not counted, or raises. -/
theorem TilesImage.gridFits (hr : it.r = toRange) (himg : it.imgDom.InRange)
    (hext : ∀ i, it.imgDom.extent i < 2 ^ 63 ∧ it.iterDom.extent i < 2 ^ 63) (h : it.TilesImage) :
    it.GridFits := by
  obtain ⟨bs, hbs, htiles⟩ := h.tiles
  obtain ⟨b, hb, hmem⟩ := (htiles.mem_iff _).mp it.imgDom.high_mem
  obtain ⟨k, hk, area, harea, hok⟩ := it.exists_of_mem_forAreas hbs hb
  obtain rfl := Except.ok.inj hok
  have hnonneg : ∀ i, 0 ≤ k i ∧ k i ≤ it.firstCell.gridIndex it.imgDom.high i ∧ k i < 2 ^ 31 - 1 := fun i => by
    have hki := lt_steps_of_mem_counts hr (hext i) hk
    rw [steps] at hki
    omega
  -- a cell that is counted begins at an `r_Range`, so that an upper bound that wraps would be below it
  have hbound : ∀ i, it.imgDom.low i + (k i + 1) * it.iterDom.extent i ≤ 2 ^ 63 := fun i => by
    have hpos := it.iterDom.extent_cast_pos i
    have hlow := himg i
    have hidx := (hnonneg i).2.1
    rw [Box.gridIndex, extent_firstCell] at hidx
    have hle := Int.mul_le_of_le_ediv hpos hidx
    have hstart := mul_nonneg (hnonneg i).1 hpos.le
    have hexti := (hext i).2
    have hordered : toRange (it.imgDom.low i + k i * it.iterDom.getExtent i) ≤
        toRange (it.imgDom.low i + (k i + 1) * it.iterDom.getExtent i - 1) := by
      rw [retVal, hr, Box.ofBounds] at harea
      split at harea
      · next hle => exact hle i
      · cases harea
    have hhigh : it.firstCell.low i = it.imgDom.low i := rfl
    rw [hhigh] at hle
    rw [Box.getExtent, add_mul, one_mul, toRange_of_lt (by omega) (by omega), toRange, Int.bmod_def] at hordered
    rw [add_mul, one_mul]
    omega
  have hcell := Box.mem_gridCell.mp ((mem_of_retVal hr (gridCell_inRange himg fun i =>
    ⟨(hnonneg i).1, hbound i⟩) harea).mp hmem).1
  exact ⟨hext, fun i => by have := (hnonneg i).2.2; rw [hcell]; omega, fun i => hcell ▸ hbound i⟩

/-- The iterator of the code. -/
def code (iterDom imgDom : RangeBox d) : MiterArea d := ⟨iterDom.toBox, imgDom.toBox, toRange⟩

/-- **The areas tile the domain** if what the iterator computes fits; when the extents do, only then. -/
theorem tilesImage_iff (iterDom imgDom : RangeBox (d + 1)) :
    ((code iterDom imgDom).GridFits → (code iterDom imgDom).TilesImage) ∧
      ((∀ i, imgDom.extent i < 2 ^ 63 ∧ iterDom.extent i < 2 ^ 63) →
        ((code iterDom imgDom).TilesImage ↔ (code iterDom imgDom).GridFits)) :=
  ⟨tilesImage_of_gridFits rfl imgDom.inRange, fun hext =>
    ⟨TilesImage.gridFits rfl imgDom.inRange hext, tilesImage_of_gridFits rfl imgDom.inRange⟩⟩

/-- Two cells, and a box of `2^63 - 1`. -/
def twoCells : RangeBox 1 × RangeBox 1 :=
  (⟨⟨![0], ![2 ^ 63 - 2], by decide⟩, by decide⟩, ⟨⟨![5], ![6], by decide⟩, by decide⟩)

/-- **The only step through `[5:6]` raises**: the upper bound of its area wraps. -/
theorem not_tilesImage_lastCell : ¬ (code twoCells.1 twoCells.2).TilesImage := fun h => by
  have hfits := h.gridFits rfl twoCells.2.inRange (by decide)
  exact absurd (hfits.last_le 0) (by decide)

end MiterArea

end Rasdaman
