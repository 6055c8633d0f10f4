import Rasdaman.Raslib.CellOffset

/-!
# Qlparser/UpdateDomain — trims and slices

An update domain has an interval for each dimension of the target; the dimensions whose interval is a
trim take those of the source in their order, and a slice is one coordinate.  `Placement` says which is
which: it lifts boxes and points of the source into the target, and projects them back by leaving the
slices out.

**The cells of a lifted box are numbered as those of the box** (`Placement.index_lift`).
-/

namespace Rasdaman

/-- Which dimensions of a target are trims, and the coordinates of its slices. -/
structure Placement (n e : ℕ) where
  trim : Fin n → Bool
  slice : Fin n → ℤ
  length_trims : ((List.finRange n).filter trim).length = e

namespace Placement

variable {n e : ℕ} {pl : Placement n e} {p : Point e} {q : Point n} {b : Box e} {t : Box n}

/-- The dimensions that are trims. -/
def trims (pl : Placement n e) : List (Fin n) := (List.finRange n).filter pl.trim

theorem mem_trims {i : Fin n} : i ∈ pl.trims ↔ pl.trim i = true := by simp [trims]

theorem nodup_trims (pl : Placement n e) : pl.trims.Nodup := (List.nodup_finRange n).filter _

/-- The dimension of the source's dimension `k`. -/
def trimAt (pl : Placement n e) (k : Fin e) : Fin n := pl.trims.get (k.cast pl.length_trims.symm)

/-- The dimension of the source for a trim: the number of trims before it. -/
def source (pl : Placement n e) (i : Fin n) (h : pl.trim i = true) : Fin e :=
  ⟨pl.trims.idxOf i,
    (List.idxOf_lt_length_of_mem (mem_trims.mpr h)).trans_eq pl.length_trims⟩

/-- Trims from the source, slices from elsewhere. -/
def place {α : Type} (pl : Placement n e) (slices : Fin n → α) (src : Fin e → α) (i : Fin n) : α :=
  if h : pl.trim i = true then src (pl.source i h) else slices i

/-- A point of the source in the target. -/
def liftPoint (pl : Placement n e) (p : Point e) : Point n := pl.place pl.slice p

/-- The loops that make a domain of the target from one of the source. -/
def lift (pl : Placement n e) (b : Box e) : Box n where
  low := pl.place pl.slice b.low
  high := pl.place pl.slice b.high
  low_le_high := fun i => by
    unfold place
    split
    · exact b.low_le_high _
    · exact le_rfl

/-- A point of the target without its slices. -/
def projectPoint (pl : Placement n e) (q : Point n) : Point e := fun k => q (pl.trimAt k)

/-- The loop of `delete_dimension` over the slices. -/
def project (pl : Placement n e) (t : Box n) : Box e where
  low := pl.projectPoint t.low
  high := pl.projectPoint t.high
  low_le_high := fun k => t.low_le_high (pl.trimAt k)

/-! ## Trims and slices -/

@[simp] theorem trim_trimAt (pl : Placement n e) (k : Fin e) : pl.trim (pl.trimAt k) = true :=
  mem_trims.mp (List.get_mem _ _)

@[simp] theorem source_trimAt (k : Fin e) : pl.source (pl.trimAt k) (pl.trim_trimAt k) = k := by
  refine Fin.ext ?_
  have hidx := pl.nodup_trims.idxOf_getElem k (by rw [trims, pl.length_trims]; exact k.isLt)
  exact hidx

@[simp] theorem trimAt_source {i : Fin n} (h : pl.trim i = true) : pl.trimAt (pl.source i h) = i := by
  rw [trimAt, List.get_eq_getElem]
  exact List.getElem_idxOf _

@[simp] theorem place_trimAt {α : Type} (slices : Fin n → α) (src : Fin e → α) (k : Fin e) :
    pl.place slices src (pl.trimAt k) = src k := by
  rw [place, dif_pos (pl.trim_trimAt k), source_trimAt]

theorem place_of_trim {α : Type} {slices : Fin n → α} {src : Fin e → α} {i : Fin n}
    (h : pl.trim i = true) : pl.place slices src i = src (pl.source i h) := dif_pos h

theorem place_of_slice {α : Type} {slices : Fin n → α} {src : Fin e → α} {i : Fin n}
    (h : pl.trim i = false) : pl.place slices src i = slices i := dif_neg (by simp [h])

/-- With as many dimensions in the source as in the target, every dimension is a trim. -/
theorem trimAt_self (pl : Placement n n) (k : Fin n) : pl.trimAt k = k := by
  have htrims : pl.trims = List.finRange n := by
    refine List.filter_eq_self.mpr (List.length_filter_eq_length_iff.mp ?_)
    rw [pl.length_trims, List.length_finRange]
  rw [trimAt, List.get_eq_getElem]
  simp only [htrims, List.getElem_finRange]
  rfl

/-! ## Points -/

@[simp] theorem projectPoint_liftPoint (pl : Placement n e) (p : Point e) :
    pl.projectPoint (pl.liftPoint p) = p :=
  funext fun k => place_trimAt pl.slice p k

/-- The points of a lifted box have the coordinates of the slices. -/
theorem mem_lift :
    q ∈ pl.lift b ↔ pl.projectPoint q ∈ b ∧ ∀ i, pl.trim i = false → q i = pl.slice i := by
  constructor
  · intro h
    refine ⟨fun k => ?_, fun i hi => ?_⟩
    · have hk := h (pl.trimAt k)
      simpa [lift, projectPoint] using hk
    · have hq := h i
      simp only [lift, place_of_slice hi] at hq
      omega
  · rintro ⟨hin, hslice⟩ i
    rcases hi : pl.trim i with _ | _
    · simp only [lift, place_of_slice hi, hslice i hi, le_refl, and_self]
    · have hk := hin (pl.source i hi)
      simp only [projectPoint, trimAt_source] at hk
      simpa only [lift, place_of_trim hi] using hk

theorem liftPoint_slice {i : Fin n} (h : pl.trim i = false) : pl.liftPoint p i = pl.slice i :=
  place_of_slice h

@[simp] theorem liftPoint_mem_lift : pl.liftPoint p ∈ pl.lift b ↔ p ∈ b := by
  rw [mem_lift, projectPoint_liftPoint]
  exact and_iff_left fun i hi => liftPoint_slice hi

theorem liftPoint_mem (pl : Placement n e) {b : Box e} {p : Point e} :
    pl.liftPoint p ∈ pl.lift b ↔ p ∈ b := liftPoint_mem_lift

/-- A point with the coordinates of the slices is a lifted point. -/
theorem liftPoint_projectPoint (h : ∀ i, pl.trim i = false → q i = pl.slice i) :
    pl.liftPoint (pl.projectPoint q) = q := by
  funext i
  rcases hi : pl.trim i with _ | _
  · rw [liftPoint_slice hi, h i hi]
  · rw [liftPoint, place_of_trim hi, projectPoint, trimAt_source]

theorem project_self (pl : Placement n n) (t : Box n) : pl.project t = t := by
  refine Box.ext_corners (funext fun k => ?_) (funext fun k => ?_)
  · exact congrArg t.low (pl.trimAt_self k)
  · exact congrArg t.high (pl.trimAt_self k)

/-! ## Areas of a lifted box -/

/-- A part of a lifted box is the lift of what it projects to. -/
theorem lift_project (h : (pl.lift b).Covers t) : pl.lift (pl.project t) = t := by
  have hslice : ∀ q ∈ t, ∀ i, pl.trim i = false → q i = pl.slice i := fun q hq =>
    (mem_lift.mp (Box.covers_iff.mp h q hq)).2
  refine Box.eq_of_mem_iff fun q => ?_
  rw [mem_lift]
  constructor
  · rintro ⟨hin, hq⟩ i
    rcases hi : pl.trim i with _ | _
    · rw [hq i hi, ← hslice t.low t.low_mem i hi]
      exact ⟨le_rfl, by rw [hslice t.low t.low_mem i hi, hslice t.high t.high_mem i hi]⟩
    · have hk := hin (pl.source i hi)
      simpa only [project, projectPoint, trimAt_source] using hk
  · exact fun hq => ⟨fun k => hq (pl.trimAt k), hslice q hq⟩

theorem covers_project (h : (pl.lift b).Covers t) : b.Covers (pl.project t) := by
  refine Box.covers_iff.mpr fun p hp => ?_
  rw [← pl.liftPoint_mem, lift_project h] at hp
  exact liftPoint_mem_lift.mp (Box.covers_iff.mp h _ hp)

theorem extent_lift {i : Fin n} (h : pl.trim i = false) (b : Box e) : (pl.lift b).extent i = 1 := by
  rw [Box.extent]
  simp only [lift, place_of_slice h]
  omega

/-- **The cells of a lifted box are numbered as those of the box.** -/
theorem index_lift (pl : Placement n e) (b : Box e) (p : Point e) :
    (pl.lift b).index (pl.liftPoint p) = b.index p ∧ (pl.lift b).cells.card = b.cells.card := by
  have hkeep : ∀ i ∈ List.finRange n, pl.trim i = false →
      (pl.lift b).extent i = 1 ∧ (pl.liftPoint p i - (pl.lift b).low i).toNat = 0 := by
    intro i _ hi
    refine ⟨extent_lift hi b, ?_⟩
    rw [liftPoint_slice hi]
    simp only [lift, place_of_slice hi]
    omega
  obtain ⟨hoff, hprod⟩ := RowMajor.offset_filter hkeep
  have htrims : ∀ f : Fin n → ℕ, ((List.finRange n).filter pl.trim).map f =
      List.ofFn fun k => f (pl.trimAt k) := by
    intro f
    refine List.ext_getElem (by simp [pl.length_trims]) fun k _ _ => ?_
    simp only [List.getElem_map, List.getElem_ofFn]
    rfl
  have hext : (List.ofFn fun k => (pl.lift b).extent (pl.trimAt k)) = b.extents := by
    simp only [Box.extents, Box.extent, lift, place_trimAt]
    rfl
  have hcoord : (List.ofFn fun k =>
      (pl.liftPoint p (pl.trimAt k) - (pl.lift b).low (pl.trimAt k)).toNat) = b.coords p := by
    simp [Box.coords, liftPoint, lift]
  rw [htrims, htrims, hext, hcoord] at hoff
  rw [htrims, hext] at hprod
  refine ⟨?_, ?_⟩
  · rw [Box.index, Box.index, hoff, Box.extents, Box.coords, List.ofFn_eq_map, List.ofFn_eq_map]
  · rw [← Box.prod_extents, ← Box.prod_extents, hprod, Box.extents, List.ofFn_eq_map]

/-- A cell of a part of a lifted box, by its number, is the cell of the source. -/
theorem pointAt_index (h : (pl.lift b).Covers t) (hq : q ∈ t) :
    (pl.project t).pointAt (t.index q) = pl.projectPoint q ∧
      (pl.project t).cells.card = t.cells.card := by
  have hlift := lift_project h
  have hq' : pl.liftPoint (pl.projectPoint q) = q :=
    liftPoint_projectPoint (mem_lift.mp (Box.covers_iff.mp h q hq)).2
  obtain ⟨hindex, hcard⟩ := pl.index_lift (pl.project t) (pl.projectPoint q)
  rw [hlift, hq'] at hindex
  rw [hlift] at hcard
  refine ⟨?_, hcard.symm⟩
  rw [hindex]
  refine Box.pointAt_index ?_
  rwa [← pl.liftPoint_mem, hlift, hq']

end Placement

end Rasdaman
