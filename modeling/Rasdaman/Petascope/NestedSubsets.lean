import Rasdaman.Machinery.Cells
import Rasdaman.Machinery.ExceptFold
import Rasdaman.Petascope.VectorCoefficients
import Rasdaman.Petascope.WcpsCoverageMetadataService

/-!
# Petascope/NestedSubsets — subsets inside subsets of one axis

Each subset of a chain is translated relative to the bounds that the subset before it left, so a chain
adds up the grid bounds of its steps.
-/

namespace Rasdaman

namespace Petascope

open WcpsCoverageMetadataService CoordinateTranslationService VectorCoefficients

/-! ## One subset -/

/-- The grid bounds that a subset gets. -/
def NumericSubset.gridBounds (translated : ParsedSubset ℤ) : NumericSubset → NumericSubset
  | trimming _ _ => .trimming (.ofInt translated.lowerLimit) (.ofInt translated.upperLimit)
  | slicing _ => .slicing (.ofInt translated.lowerLimit)

/-- A subset in geo coordinates. -/
def Subset.IsGeo (subset : Subset) : Prop := isGridCrs subset.crs = false

/-- The limits are ordered and inside others. -/
structure Within (outer inner : ParsedSubset BigDecimal) : Prop where
  lower : outer.lowerLimit.val ≤ inner.lowerLimit.val
  ordered : inner.lowerLimit.val ≤ inner.upperLimit.val
  upper : inner.upperLimit.val ≤ outer.upperLimit.val

variable {getIndexes : CoefficientIndexes} {metadata : WcpsCoverageMetadata} {axis : Axis}

theorem Within.valid {outer inner : ParsedSubset BigDecimal} (h : Within outer inner) :
    validParsedSubsetBounds inner (.trimming outer.lowerLimit outer.upperLimit) = .ok () := by
  obtain ⟨hlower, hordered, hupper⟩ := h
  refine if_neg ?_
  rintro (h | h | h | h) <;> linarith

/-- The translation of a subset of the axis, from the geo bounds and the lower grid bound it has. -/
def translate (getIndexes : CoefficientIndexes) (coverageName : String) (axis : Axis)
    (outer : ParsedSubset BigDecimal) (gridMin : ℤ) (inner : ParsedSubset BigDecimal) :
    Except PetascopeException (ParsedSubset ℤ) :=
  translateGeoToGridCoordinates getIndexes inner axis coverageName outer.lowerLimit outer.upperLimit
    (.ofInt gridMin)

/-- The axis with the bounds of a translated subset. -/
def Axis.subset (axis : Axis) (subset : Subset) (translated : ParsedSubset ℤ) : Axis :=
  { axis with
    crsUri := subset.crs
    geoBounds := subset.numericSubset
    gridBounds := subset.numericSubset.gridBounds translated }

/-- **A subset inside the bounds of a trimmed axis** is translated relative to them. -/
theorem applySubset_within {subset : Subset} {outer : ParsedSubset BigDecimal} {gridMin : ℤ}
    {gridMax : BigDecimal} (hgeo : axis.geoBounds = .trimming outer.lowerLimit outer.upperLimit)
    (hgrid : axis.gridBounds = .trimming (.ofInt gridMin) gridMax)
    (htype : metadata.coverageType ≠ "GridCoverage") (hsubset : subset.IsGeo)
    (hin : Within outer subset.numericSubset.limits) :
    applySubset getIndexes true metadata subset axis =
      (translate getIndexes metadata.coverageName axis outer gridMin subset.numericSubset.limits).map
        (axis.subset subset) := by
  have hcrs : isGridCrs subset.crs = false := hsubset
  have hvalid := hin.valid
  cases hnum : subset.numericSubset with
  | trimming lowerLimit upperLimit =>
    rw [hnum, NumericSubset.limits] at hin hvalid
    have hordered : ¬lowerLimit.val > upperLimit.val := not_lt.mpr hin.ordered
    simp only [applySubset, hnum, applyTrimmingSubset, hcrs, htype, hgeo, hgrid, if_neg hordered, hvalid,
      decide_false, Bool.or_false, Bool.not_false, if_true, NumericSubset.limits]
    change (translate getIndexes metadata.coverageName axis outer gridMin _ >>= fun translated => _) = _
    cases translate getIndexes metadata.coverageName axis outer gridMin ⟨lowerLimit, upperLimit⟩ with
    | error e => rfl
    | ok translated => exact congrArg Except.ok (by rw [Axis.subset, hnum, NumericSubset.gridBounds])
  | slicing bound =>
    rw [hnum, NumericSubset.limits] at hvalid
    simp only [applySubset, hnum, applySlicing, hcrs, htype, hgeo, hgrid, decide_false, Bool.or_false,
      Bool.not_false, Bool.false_eq_true, if_true, if_false, hvalid, NumericSubset.limits]
    change (translate getIndexes metadata.coverageName axis outer gridMin _ >>= fun translated => _) = _
    cases translate getIndexes metadata.coverageName axis outer gridMin ⟨bound, bound⟩ with
    | error e => rfl
    | ok translated => exact congrArg Except.ok (by rw [Axis.subset, hnum, NumericSubset.gridBounds])

/-! ## A chain of subsets -/

theorem changeAxis_spec {change : Axis → Except PetascopeException Axis} {name : String}
    (hlabel : ∀ changed, change axis = .ok changed → changed.label = axis.label) {axes : List Axis}
    (h : axes.find? (fun a => a.label = name) = some axis) :
    match change axis with
    | .error e => changeAxis change name axes = .error e
    | .ok changed => ∃ axes', changeAxis change name axes = .ok axes' ∧
        axes'.find? (fun a => a.label = name) = some changed := by
  induction axes with
  | nil => cases h
  | cons first axes ih =>
    by_cases hname : first.label = name
    · simp only [List.find?_cons, hname, decide_true, Option.some.injEq] at h
      subst h
      cases hchange : change first with
      | error e => simp [changeAxis, hname, hchange, Except.map]
      | ok changed =>
        refine ⟨changed :: axes, by simp [changeAxis, hname, hchange, Except.map], ?_⟩
        simp [(hlabel changed hchange).trans hname]
    · simp only [List.find?_cons, hname, decide_false] at h
      have ih := ih h
      cases hchange : change axis with
      | error e =>
        rw [hchange] at ih
        simp only at ih
        simp [changeAxis, hname, ih, Except.map]
      | ok changed =>
        rw [hchange] at ih
        obtain ⟨axes', hok, hfind⟩ := ih
        refine ⟨first :: axes', by simp [changeAxis, hname, hok, Except.map], ?_⟩
        simp [hname, hfind]

/-- Subsets applied one by one. -/
def applyChain (getIndexes : CoefficientIndexes) (metadata : WcpsCoverageMetadata) (chain : List Subset) :
    Except PetascopeException WcpsCoverageMetadata :=
  chain.foldlM (fun metadata subset => applySubsets getIndexes true metadata [subset]) metadata

/-- The geo and grid bounds of an axis after subsets applied one by one. -/
def boundsAfter (getIndexes : CoefficientIndexes) (metadata : WcpsCoverageMetadata) (name : String)
    (chain : List Subset) : Except PetascopeException (Option (NumericSubset × NumericSubset)) :=
  (applyChain getIndexes metadata chain).map fun metadata =>
    (metadata.getAxisByName name).map fun axis => (axis.geoBounds, axis.gridBounds)

/-- The translation of the last of a chain of subsets. -/
def translateLast (getIndexes : CoefficientIndexes) (coverageName : String) (axis : Axis) :
    ParsedSubset BigDecimal → ℤ → List (ParsedSubset BigDecimal) → ParsedSubset BigDecimal →
      Except PetascopeException (ParsedSubset ℤ)
  | outer, gridMin, [], last => translate getIndexes coverageName axis outer gridMin last
  | outer, gridMin, inner :: rest, last => do
    let translated ← translate getIndexes coverageName axis outer gridMin inner
    translateLast getIndexes coverageName axis inner translated.lowerLimit rest last

/-- Each limits are inside those before. -/
def Nested (outer : ParsedSubset BigDecimal) (inners : List (ParsedSubset BigDecimal)) : Prop :=
  (outer :: inners).IsChain Within

theorem applySubsets_single {checkBoundary : Bool} {subset : Subset}
    (haxis : metadata.getAxisByName subset.axisName = some axis)
    (hlabel : ∀ changed, applySubset getIndexes checkBoundary metadata subset axis = .ok changed →
      changed.label = axis.label) :
    match applySubset getIndexes checkBoundary metadata subset axis with
    | .error e => applySubsets getIndexes checkBoundary metadata [subset] = .error e
    | .ok changed => ∃ axes, applySubsets getIndexes checkBoundary metadata [subset] = .ok { metadata with axes } ∧
        WcpsCoverageMetadata.getAxisByName { metadata with axes } subset.axisName = some changed := by
  have hfind : metadata.axes.find? (fun a => a.label = subset.axisName) = some axis := haxis
  have hexists : metadata.axes.any (fun a => a.label = subset.axisName) = true :=
    have hlabel := List.find?_some hfind
    List.any_eq_true.mpr ⟨axis, List.mem_of_find?_eq_some hfind, hlabel⟩
  have hcheck : checkSubsetConsistency metadata [subset] = .ok () := by
    simp [checkSubsetConsistency, hexists]
  have hchange := changeAxis_spec hlabel haxis
  cases happly : applySubset getIndexes checkBoundary metadata subset axis with
  | error e =>
    rw [happly] at hchange
    simp only at hchange
    simp [applySubsets, hcheck, hchange, bind, Except.bind]
  | ok changed =>
    rw [happly] at hchange
    obtain ⟨axes, hok, hfind⟩ := hchange
    exact ⟨axes, by simp [applySubsets, hcheck, hok, bind, Except.bind, pure, Except.pure], hfind⟩

/-- `applySubsets` with one subset inside the bounds of its axis. -/
theorem applySubsets_within (getIndexes : CoefficientIndexes) {subset : Subset} {outer : ParsedSubset BigDecimal} {gridMin : ℤ}
    {gridMax : BigDecimal} (haxis : metadata.getAxisByName subset.axisName = some axis)
    (hgeo : axis.geoBounds = .trimming outer.lowerLimit outer.upperLimit)
    (hgrid : axis.gridBounds = .trimming (.ofInt gridMin) gridMax)
    (htype : metadata.coverageType ≠ "GridCoverage") (hsubset : subset.IsGeo)
    (hin : Within outer subset.numericSubset.limits) :
    match translate getIndexes metadata.coverageName axis outer gridMin subset.numericSubset.limits with
    | .error e => applySubsets getIndexes true metadata [subset] = .error e
    | .ok translated => ∃ axes, applySubsets getIndexes true metadata [subset] = .ok { metadata with axes } ∧
        WcpsCoverageMetadata.getAxisByName { metadata with axes } subset.axisName =
          some (axis.subset subset translated) := by
  have happly : applySubset getIndexes true metadata subset axis = _ :=
    applySubset_within hgeo hgrid htype hsubset hin
  have hlabel : ∀ changed, applySubset getIndexes true metadata subset axis = .ok changed →
      changed.label = axis.label := by
    intro changed hchanged
    rw [happly] at hchanged
    cases htranslate : translate getIndexes metadata.coverageName axis outer gridMin
        subset.numericSubset.limits with
    | error e =>
      rw [htranslate] at hchanged
      cases hchanged
    | ok translated =>
      rw [htranslate] at hchanged
      rw [← Except.ok.inj hchanged]
      rfl
  have hsingle := applySubsets_single haxis hlabel
  rw [happly] at hsingle
  cases htranslate : translate getIndexes metadata.coverageName axis outer gridMin
      subset.numericSubset.limits with
  | error e =>
    rw [htranslate] at hsingle
    exact hsingle
  | ok translated =>
    rw [htranslate] at hsingle
    exact hsingle

theorem translateLast_subset {coverageName : String} {subset : Subset} {translated : ParsedSubset ℤ}
    (outer : ParsedSubset BigDecimal) (gridMin : ℤ) (inners : List (ParsedSubset BigDecimal))
    (last : ParsedSubset BigDecimal) :
    translateLast getIndexes coverageName (axis.subset subset translated) outer gridMin inners last =
      translateLast getIndexes coverageName axis outer gridMin inners last := by
  induction inners generalizing outer gridMin with
  | nil => rfl
  | cons inner rest ih =>
    rw [translateLast, translateLast]
    exact bind_congr fun translated => ih inner translated.lowerLimit

/-- **A chain of trims inside each other, with a last trim or slice**, leaves the last subset as geo bounds
and its translation as grid bounds. -/
theorem boundsAfter_chain (getIndexes : CoefficientIndexes) (trims : List Subset) {name : String}
    {last : Subset} {outer : ParsedSubset BigDecimal} {gridMin : ℤ} {gridMax : BigDecimal}
    (haxis : metadata.getAxisByName name = some axis)
    (hgeo : axis.geoBounds = .trimming outer.lowerLimit outer.upperLimit)
    (hgrid : axis.gridBounds = .trimming (.ofInt gridMin) gridMax)
    (htype : metadata.coverageType ≠ "GridCoverage")
    (hsubsets : ∀ s ∈ trims ++ [last], s.axisName = name ∧ s.IsGeo)
    (htrims : ∀ s ∈ trims, ∃ lo hi, s.numericSubset = .trimming lo hi)
    (hnested : Nested outer ((trims ++ [last]).map fun s => s.numericSubset.limits)) :
    boundsAfter getIndexes metadata name (trims ++ [last]) =
      (translateLast getIndexes metadata.coverageName axis outer gridMin
        (trims.map fun s => s.numericSubset.limits) last.numericSubset.limits).map fun translated =>
          some (last.numericSubset, last.numericSubset.gridBounds translated) := by
  induction trims generalizing metadata axis outer gridMin gridMax with
  | nil =>
    obtain ⟨rfl, hcrs⟩ := hsubsets last (by simp)
    have hin : Within outer last.numericSubset.limits := (List.isChain_cons_cons.mp hnested).1
    have hstep := applySubsets_within getIndexes haxis hgeo hgrid htype hcrs hin
    rw [List.nil_append, List.map_nil, translateLast, boundsAfter, applyChain, List.foldlM_cons]
    cases htranslate : translate getIndexes metadata.coverageName axis outer gridMin
        last.numericSubset.limits with
    | error e =>
      rw [htranslate] at hstep
      simp only at hstep
      rw [hstep]
      rfl
    | ok translated =>
      rw [htranslate] at hstep
      obtain ⟨axes, hok, hfind⟩ := hstep
      rw [hok]
      refine congrArg Except.ok ?_
      dsimp only
      rw [hfind]
      rfl
  | cons first trims ih =>
    obtain ⟨rfl, hcrs⟩ := hsubsets first (by simp)
    obtain ⟨lo, hi, hfirst⟩ := htrims first List.mem_cons_self
    obtain ⟨hin, hrest⟩ := List.isChain_cons_cons.mp hnested
    have hstep := applySubsets_within getIndexes haxis hgeo hgrid htype hcrs hin
    rw [List.cons_append, List.map_cons, translateLast, boundsAfter, applyChain, List.foldlM_cons]
    cases htranslate : translate getIndexes metadata.coverageName axis outer gridMin
        first.numericSubset.limits with
    | error e =>
      rw [htranslate] at hstep
      simp only at hstep
      rw [hstep]
      rfl
    | ok translated =>
      rw [htranslate] at hstep
      obtain ⟨axes, hok, hfind⟩ := hstep
      have hgeo' : (axis.subset first translated).geoBounds =
          .trimming first.numericSubset.limits.lowerLimit first.numericSubset.limits.upperLimit := by
        rw [Axis.subset, hfirst]
        rfl
      have hgrid' : (axis.subset first translated).gridBounds =
          .trimming (.ofInt translated.lowerLimit) (.ofInt translated.upperLimit) := by
        rw [Axis.subset, hfirst]
        rfl
      have hchain := ih hfind hgeo' hgrid' htype (fun s hs => hsubsets s (List.mem_cons_of_mem _ hs))
        (fun s hs => htrims s (List.mem_cons_of_mem _ hs)) hrest
      rw [translateLast_subset] at hchain
      rw [hok]
      exact hchain

end Petascope

end Rasdaman
