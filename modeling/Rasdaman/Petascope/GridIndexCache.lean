import Rasdaman.Machinery.Memo
import Rasdaman.Petascope.CrsUtil

/-!
# Petascope/GridIndexCache — when the table of grid indexes cannot be seen

An entry of `gridIndexConversions` is right for its key only as long as the axis stays what it was.
-/

namespace Rasdaman

namespace Petascope

namespace CrsUtil

variable {lib : Libraries} {r r' : Request}

/-- The subset is one of an irregular axis, whose indexes are never taken from the table. -/
def Request.OnIrregular (r : Request) : Prop :=
  ∃ dom, r.covMeta.getDomainByName r.axisName = some dom ∧ dom.isIrregular = true

/-- Both requests find the same axis and take their bounds for values of the same kind. -/
structure Request.SameAxis (r r' : Request) : Prop where
  dom : r.covMeta.getDomainByName r.axisName = r'.covMeta.getDomainByName r'.axisName
  cdom : r.covMeta.getCellDomainByName r.axisName = r'.covMeta.getCellDomainByName r'.axisName
  loIsNumeric : r.loIsNumeric = r'.loIsNumeric
  hiIsNumeric : r.hiIsNumeric = r'.hiIsNumeric

/-- If `r` is a valid subset with the names and texts of `r'` then it found the axis as `r'` does. -/
def Request.AxisKept (lib : Libraries) (r r' : Request) : Prop :=
  (∃ indexes, computeGridIndices lib r = .ok indexes) → r.cacheKey = r'.cacheKey → ¬r'.OnIrregular →
    r.SameAxis r'

theorem Request.cacheKey_eq (h : r.cacheKey = r'.cacheKey) :
    r.covMeta.coverageName = r'.covMeta.coverageName ∧ r.axisName = r'.axisName ∧
      r.stringLo = r'.stringLo ∧ r.stringHi = r'.stringHi := by
  simpa only [Request.cacheKey, Prod.mk.injEq] using h

/-- On a regular axis the indexes depend on the axis, the texts and the kind of the bounds only. -/
theorem computeGridIndices_congr (hkey : r.cacheKey = r'.cacheKey) (h : r.SameAxis r')
    (hreg : ¬r'.OnIrregular) : computeGridIndices lib r = computeGridIndices lib r' := by
  obtain ⟨-, -, hlo, hhi⟩ := Request.cacheKey_eq hkey
  have hconv : ∀ dom cdom, r'.covMeta.getDomainByName r'.axisName = some dom →
      convertAxis lib r dom cdom = convertAxis lib r' dom cdom := by
    intro dom cdom hdom
    have hirr : dom.isIrregular = false := Bool.eq_false_iff.mpr fun hd => hreg ⟨dom, hdom, hd⟩
    simp only [convertAxis, hirr, Bool.false_eq_true, if_false, hlo, hhi, h.loIsNumeric, h.hiIsNumeric]
  unfold computeGridIndices
  rw [h.dom, h.cdom]
  cases hdom : r'.covMeta.getDomainByName r'.axisName with
  | none => rfl
  | some dom =>
    refine bind_congr fun cdom => ?_
    cases cdom with
    | none => rfl
    | some cdom => exact hconv dom cdom hdom

/-- Indexes are computed only for an axis that is there. -/
theorem exists_dom_of_computed {indexes : ℤ × ℤ} (h : computeGridIndices lib r = .ok indexes) :
    ∃ dom, r.covMeta.getDomainByName r.axisName = some dom := by
  cases hdom : r.covMeta.getDomainByName r.axisName with
  | some dom => exact ⟨dom, rfl⟩
  | none =>
    unfold computeGridIndices at h
    rw [hdom] at h
    cases hcdom : r.covMeta.getCellDomainByName r.axisName with
    | error e => simp [hcdom, bind, Except.bind] at h
    | ok cdom => simp [hcdom, bind, Except.bind] at h

/-- The tables of `convertToInternalGridIndices`. -/
abbrev Sound (lib : Libraries) : List Request → Cache → Prop :=
  Memo.Sound Request.cacheKey (computeGridIndices lib)

variable {past : List Request} {cache : Cache}

theorem computeAndPut_spec (h : Sound lib past cache) (r : Request) :
    (computeAndPut lib cache r).1 = computeGridIndices lib r ∧
      Sound lib (r :: past) (computeAndPut lib cache r).2 := by
  unfold computeAndPut
  cases hr : computeGridIndices lib r with
  | error e => exact ⟨rfl, h.pass r⟩
  | ok indexes => exact ⟨rfl, h.put hr⟩

/-- **One call from a sound table** answers what is computed if no valid past subset of its names and
texts found another axis. -/
theorem convert_transparent (lib : Libraries) :
    Memo.Transparent Request.cacheKey (computeGridIndices lib) (Request.AxisKept lib)
      (convertToInternalGridIndices lib) := by
  intro past cache r h hkept
  unfold convertToInternalGridIndices
  cases hhit : cache.lookup r.cacheKey with
  | none => exact computeAndPut_spec h r
  | some cachedIndexes =>
    obtain ⟨p, hp, hpkey, hpok⟩ := h _ _ hhit
    have hsame : ¬r.OnIrregular → p.SameAxis r := hkept p hp ⟨_, hpok⟩ hpkey
    obtain ⟨dom, hdom⟩ := exists_dom_of_computed hpok
    cases hdom' : r.covMeta.getDomainByName r.axisName with
    | none =>
      have hreg : ¬r.OnIrregular := by
        rintro ⟨d, hd, -⟩
        rw [hdom'] at hd
        cases hd
      rw [(hsame hreg).dom, hdom'] at hdom
      cases hdom
    | some dom' =>
      dsimp only
      split_ifs with hirr
      · exact computeAndPut_spec h r
      · have hreg : ¬r.OnIrregular := by
          rintro ⟨d, hd, hdirr⟩
          rw [hdom', Option.some.injEq] at hd
          exact hirr (hd ▸ hdirr)
        exact ⟨hpok.symm.trans (computeGridIndices_congr hpkey (hsame hreg) hreg), h.pass r⟩

/-- The answers of a run of calls from the empty table, the coverages changing between them. -/
def conversions (lib : Libraries) (rs : List Request) : List (Except PetascopeException (ℤ × ℤ)) :=
  Memo.answers (convertToInternalGridIndices lib) [] rs

/-- **The table cannot be seen in a run that keeps the axes of its keys.** -/
theorem conversions_computed (lib : Libraries) (rs : List Request)
    (h : rs.Pairwise (Request.AxisKept lib)) :
    conversions lib rs = rs.map (computeGridIndices lib) :=
  (convert_transparent lib).answers_eq h

/-! ## A coverage inserted again -/

/-- A coverage with one axis of ten cells that starts at `minValue`. -/
def line (minValue : ℚ) : CoverageMetadata where
  coverageName := "line"
  domain := [⟨"X", "metre", "", minValue, minValue + 10, 1, true, false, 0⟩]
  cellDomain := [⟨0, 9⟩]

/-- The subset `X(2:4)`. -/
def twoToFour (covMeta : CoverageMetadata) : Request := ⟨covMeta, none, "X", "2", true, "4", true⟩

/-- Asked twice of one coverage, a subset gets its indexes from the table. -/
theorem conversions_computed_twice :
    conversions Libraries.digits [twoToFour (line 0), twoToFour (line 0)] =
      [twoToFour (line 0), twoToFour (line 0)].map (computeGridIndices Libraries.digits) :=
  conversions_computed Libraries.digits _ (by simp [Request.AxisKept, Request.SameAxis.mk])

/-- The coverage is deleted and inserted again one cell further on: the subset still gets its old
indexes. -/
theorem conversions_stale :
    ¬∀ (lib : Libraries) (rs : List Request), (∀ r ∈ rs, ¬r.OnIrregular) →
      conversions lib rs = rs.map (computeGridIndices lib) := by
  intro h
  have hreg : ∀ r ∈ [twoToFour (line 0), twoToFour (line 1)], ¬r.OnIrregular := by
    simp [Request.OnIrregular, CoverageMetadata.getDomainByName, twoToFour, line]
  have hstale := h Libraries.digits _ hreg
  revert hstale
  decide +kernel

end CrsUtil

end Petascope

end Rasdaman
