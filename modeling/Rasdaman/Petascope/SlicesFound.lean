import Mathlib.Tactic.FieldSimp
import Mathlib.Tactic.Linarith
import Rasdaman.Machinery.Machine
import Rasdaman.Petascope.CrsUtil
import Rasdaman.Petascope.VectorCoefficients

/-!
# Petascope/SlicesFound — slices written to an irregular axis

An update of a coverage names a slice of each irregular axis.  The handler turns the slice point into a
coefficient and files it under the order the coefficient has already, or under the next one.
-/

namespace Rasdaman

namespace Petascope

/-- `DimensionSubset`, for a fixed axis. -/
inductive DimensionSubset
  | slice (slicePoint : String)
  | trim (trimLow trimHigh : String)
  deriving DecidableEq, Repr

/-- `QUOTED_SUBSET`, the regular expression `^".*"$`. -/
def isQuoted (text : String) : Bool :=
  let isLineTerminator := fun c => c ∈ ['\n', '\r', '\u0085', '\u2028', '\u2029']
  match text.toList with
  | '"' :: rest => rest.getLast? = some '"' && rest.dropLast.all fun c => !isLineTerminator c
  | _ => false

namespace DimensionSubset

/-- `isNumeric`. -/
def isNumeric : DimensionSubset → Bool
  | slice slicePoint => !isQuoted slicePoint
  | trim trimLow trimHigh => !isQuoted trimLow && !isQuoted trimHigh

/-- The bound that becomes the upper limit of the axis. -/
def upper : DimensionSubset → String
  | slice slicePoint => slicePoint
  | trim _ trimHigh => trimHigh

/-- The slice point; a trim of more than one point is refused. -/
def point : DimensionSubset → Except PetascopeException String
  | slice slicePoint => .ok slicePoint
  | trim trimLow trimHigh =>
    if trimLow ≠ trimHigh then .error .invalidTrimSubsetOnIrregularAxis else .ok trimLow

end DimensionSubset

/-- An irregular axis: its metadata, and its rows in the database. -/
structure IrregularAxis where
  dom : DomainElement
  cdom : CellDomainElement
  rows : VectorCoefficients

namespace UpdateCoverageHandler

open VectorCoefficients

/-- `computeSubsetCoefficient`. -/
def computeSubsetCoefficient (lib : Libraries) (currentDom : DomainElement) (subset : DimensionSubset) :
    Except PetascopeException ℚ := do
  let point ← subset.point
  let normalizedSlicePoint ← if subset.isNumeric then
      .ok (lib.divide (lib.number point) currentDom.scalarResolution)
    else
      lib.countOffsets currentDom.datumOrigin point currentDom.uom (lib.toDouble currentDom.scalarResolution)
  let normalizedDomMin := lib.divide currentDom.minValue currentDom.scalarResolution
  return (normalizedSlicePoint - normalizedDomMin) * currentDom.getDirectionalResolution

/-- `computeCoefficientOrder`, with the metadata it leaves. -/
def computeCoefficientOrder (lib : Libraries) (axis : IrregularAxis) (coefficient : ℚ)
    (subset : DimensionSubset) : Except PetascopeException ℕ × IrregularAxis :=
  let allCoefficients := getAllCoefficients axis.rows
  match listContains allCoefficients coefficient with
  | some currentPosition => (.ok currentPosition, axis)
  | none =>
    match allCoefficients.getLast? with
    | none => (.error .indexOutOfBounds, axis)
    | some last =>
      if coefficient < last then (.error .invalidUpdateOnIrregularAxis, axis)
      else
        let maxValue := if subset.isNumeric then lib.number subset.upper else axis.dom.maxValue
        (.ok allCoefficients.length,
          { axis with
            dom := { axis.dom with maxValue }
            cdom := { axis.cdom with hi := axis.cdom.hi + 1 } })

/-- `handleSubsetCoefficients`, for the subset of an irregular axis: the order that the slice is filed
under, and the axis afterwards. -/
def handleSubsetCoefficients (lib : Libraries) (axis : IrregularAxis) (subset : DimensionSubset) :
    Except PetascopeException ℕ × IrregularAxis :=
  match computeSubsetCoefficient lib axis.dom subset with
  | .error e => (.error e, axis)
  | .ok currentCoefficient =>
    match computeCoefficientOrder lib axis currentCoefficient subset with
    | (.error e, axis) => (.error e, axis)
    | (.ok coefficientOrder, axis) =>
      (.ok coefficientOrder,
        { axis with rows := updateAxisCoefficient axis.rows currentCoefficient coefficientOrder })

end UpdateCoverageHandler

end Petascope

end Rasdaman

/-!
## Whether a slice is read where it was written

The handler files a slice under its distance from the first slice, with the sign of the direction; the
reader looks for the distance divided by the resolution.
-/

namespace Rasdaman

namespace Petascope

open VectorCoefficients UpdateCoverageHandler CrsUtil

/-- Divisions that are exact, and a rounding to doubles that keeps the order. -/
structure Libraries.Exact (lib : Libraries) : Prop where
  divide : ∀ a b, lib.divide a b = a / b
  toDouble : Monotone lib.toDouble

/-! ## The two coefficients of a point -/

/-- The coefficient that the handler computes for a point. -/
def DomainElement.written (dom : DomainElement) (p : ℚ) : ℚ :=
  if dom.positiveForwards then p - dom.minValue else -(p - dom.minValue)

/-- The coefficient that the reader looks for. -/
def DomainElement.sought (dom : DomainElement) (p : ℚ) : ℚ := (p - dom.minValue) / dom.scalarResolution

variable {lib : Libraries} {dom : DomainElement} {u : DimensionSubset} {text : String} {p : ℚ}

theorem DimensionSubset.upper_of_point (h : u.point = .ok text) : u.upper = text := by
  cases u with
  | slice slicePoint => exact Except.ok.inj h
  | trim trimLow trimHigh =>
    by_cases heq : trimLow = trimHigh
    · rw [DimensionSubset.point, if_neg (not_not.mpr heq)] at h
      exact heq ▸ Except.ok.inj h
    · rw [DimensionSubset.point, if_pos heq] at h
      cases h

theorem computeSubsetCoefficient_error {e : PetascopeException} (h : u.point = .error e) :
    computeSubsetCoefficient lib dom u = .error e := by
  rw [computeSubsetCoefficient, h]
  rfl

theorem computeSubsetCoefficient_numeric (hlib : lib.Exact) (hres : 0 < dom.scalarResolution)
    (hu : u.isNumeric = true) (h : u.point = .ok text) :
    computeSubsetCoefficient lib dom u = .ok (dom.written (lib.number text)) := by
  have hcoef : (lib.number text / dom.scalarResolution - dom.minValue / dom.scalarResolution) *
      dom.getDirectionalResolution = dom.written (lib.number text) := by
    unfold DomainElement.getDirectionalResolution DomainElement.written
    split_ifs
    · field_simp
    · field_simp
  rw [← hcoef, ← hlib.divide, ← hlib.divide, computeSubsetCoefficient, h, hu]
  rfl

/-! ## One update -/

variable {axis : IrregularAxis} {cs : List ℚ} {k : ℕ}

theorem computeCoefficientOrder_error {c : ℚ} {e : PetascopeException}
    (h : (computeCoefficientOrder lib axis c u).1 = .error e) :
    (computeCoefficientOrder lib axis c u).2 = axis := by
  revert h
  unfold computeCoefficientOrder
  dsimp only
  cases listContains (getAllCoefficients axis.rows) c with
  | some k => exact fun _ => rfl
  | none =>
    cases (getAllCoefficients axis.rows).getLast? with
    | none => exact fun _ => rfl
    | some last =>
      dsimp only
      split
      · exact fun _ => rfl
      · intro h
        cases h

/-- A rejected update leaves the axis and its rows as they were. -/
theorem handleSubsetCoefficients_error {e : PetascopeException}
    (h : (handleSubsetCoefficients lib axis u).1 = .error e) :
    (handleSubsetCoefficients lib axis u).2 = axis := by
  revert h
  unfold handleSubsetCoefficients
  cases computeSubsetCoefficient lib axis.dom u with
  | error e' => exact fun _ => rfl
  | ok c =>
    dsimp only
    have horder := @computeCoefficientOrder_error lib u axis c
    generalize computeCoefficientOrder lib axis c u = order at horder ⊢
    obtain ⟨order, axis'⟩ := order
    cases order with
    | error e' => exact fun _ => horder rfl
    | ok k =>
      intro h
      cases h

/-- The axis with a slice added on top. -/
def IrregularAxis.extended (axis : IrregularAxis) (cs : List ℚ) (maxValue c : ℚ) : IrregularAxis where
  dom := { axis.dom with maxValue }
  cdom := { axis.cdom with hi := axis.cdom.hi + 1 }
  rows := ofSlices (cs ++ [c])

/-- **What an update can do**: nothing, keep the order of a slice, or add a slice on top. -/
theorem handleSubsetCoefficients_cases (hlib : lib.Exact) (hres : 0 < axis.dom.scalarResolution)
    (hrows : axis.rows = ofSlices cs) (hcs : cs.Pairwise (· < ·)) (hu : u.isNumeric = true) :
    (∃ e, handleSubsetCoefficients lib axis u = (.error e, axis)) ∨
    ∃ text, u.point = .ok text ∧
      ((∃ k, cs[k]? = some (axis.dom.written (lib.number text)) ∧
          handleSubsetCoefficients lib axis u = (.ok k, axis)) ∨
        ∃ last, cs.getLast? = some last ∧ last < axis.dom.written (lib.number text) ∧
          handleSubsetCoefficients lib axis u = (.ok cs.length,
            axis.extended cs (lib.number text) (axis.dom.written (lib.number text)))) := by
  cases hpoint : u.point with
  | error e => exact .inl ⟨e, by rw [handleSubsetCoefficients, computeSubsetCoefficient_error hpoint]⟩
  | ok text =>
    have hcoef : computeSubsetCoefficient lib axis.dom u = .ok (axis.dom.written (lib.number text)) :=
      computeSubsetCoefficient_numeric hlib hres hu hpoint
    have hall : getAllCoefficients axis.rows = cs := hrows ▸ getAllCoefficients_ofSlices hcs
    unfold handleSubsetCoefficients computeCoefficientOrder
    rw [hcoef, hall]
    dsimp only
    cases hfind : listContains cs (axis.dom.written (lib.number text)) with
    | some k =>
      have hk := (listContains_eq_some hcs).mp hfind
      have hlt : k < cs.length := (List.getElem?_eq_some_iff.mp hk).1
      refine .inr ⟨text, rfl, .inl ⟨k, hk, ?_⟩⟩
      have hkeep := updateAxisCoefficient_of_mem (c := axis.dom.written (lib.number text)) hlt
      rw [← hrows] at hkeep
      dsimp only
      rw [hkeep]
    | none =>
      cases hlast : cs.getLast? with
      | none => exact .inl ⟨_, rfl⟩
      | some last =>
        dsimp only
        split_ifs with hlt
        · exact .inl ⟨_, rfl⟩
        · have hne : last ≠ axis.dom.written (lib.number text) := by
            intro heq
            obtain ⟨k, hk⟩ := List.mem_iff_getElem?.mp (List.mem_of_getLast? hlast)
            rw [heq, ← listContains_eq_some hcs, hfind] at hk
            cases hk
          refine .inr ⟨text, rfl, .inr ⟨last, rfl, lt_of_le_of_ne (not_lt.mp hlt) hne, ?_⟩⟩
          dsimp only
          rw [DimensionSubset.upper_of_point hpoint, hrows, updateAxisCoefficient_length]
          rfl

/-! ## The reader -/

/-- `convertToInternalGridIndices` answers `k` for a slice at `text`, whichever coverage the axis is found
in, from the rows of the axis. -/
def FoundAt (lib : Libraries) (axis : IrregularAxis) (text : String) (k : ℕ) : Prop :=
  ∀ cache covMeta axisName (dbMeta : CoefficientIndexes),
    covMeta.getDomainByName axisName = some axis.dom →
    covMeta.getCellDomainByName axisName = .ok (some axis.cdom) →
    dbMeta covMeta.coverageName axis.dom.iOrder = getIndexesFromIrregularRectilinearAxis axis.rows →
    (convertSliceToInternalGridIndex lib cache covMeta (some dbMeta) axisName text true).1 = .ok (k : ℤ)

/-- The slice is inside the limits of the axis. -/
def InLimits (lib : Libraries) (dom : DomainElement) (p : ℚ) : Prop :=
  lib.toDouble p ≤ lib.toDouble dom.maxValue ∧ lib.toDouble dom.minValue ≤ lib.toDouble p

theorem convert_irregular {cache : Cache} {r : Request} {cdom : CellDomainElement}
    (hdom : r.covMeta.getDomainByName r.axisName = some dom)
    (hcdom : r.covMeta.getCellDomainByName r.axisName = .ok (some cdom)) (hirr : dom.isIrregular = true) :
    (convertToInternalGridIndices lib cache r).1 = convertAxis lib r dom cdom := by
  have hput : (computeAndPut lib cache r).1 = convertAxis lib r dom cdom := by
    have hcompute : computeGridIndices lib r = convertAxis lib r dom cdom := by
      rw [computeGridIndices, hdom, hcdom]
      rfl
    rw [computeAndPut, hcompute]
    cases convertAxis lib r dom cdom with
    | ok indexes => rfl
    | error e => rfl
  unfold convertToInternalGridIndices
  cases cache.lookup r.cacheKey with
  | none => exact hput
  | some indexes =>
    rw [hdom]
    dsimp only
    rw [if_pos hirr, hput]

section Reader

variable {covMeta : CoverageMetadata} {axisName : String} {dbMeta : CoefficientIndexes}

/-- The request of a slice. -/
abbrev sliceRequest (covMeta : CoverageMetadata) (dbMeta : CoefficientIndexes) (axisName text : String) :
    Request := ⟨covMeta, some dbMeta, axisName, text, true, text, true⟩

theorem checkSubset_slice :
    checkSubset lib dom text true text true = .ok () ↔ InLimits lib dom (lib.number text) := by
  simp [checkSubset, InLimits, not_or, not_lt]

theorem convertAxis_outside (covMeta : CoverageMetadata) (axisName : String)
    (dbMeta : CoefficientIndexes) (h : ¬InLimits lib axis.dom (lib.number text)) :
    ∃ e, convertAxis lib (sliceRequest covMeta dbMeta axisName text) axis.dom axis.cdom = .error e := by
  cases hcheck : checkSubset lib axis.dom text true text true with
  | ok => exact absurd (checkSubset_slice.mp hcheck) h
  | error e =>
    refine ⟨e, ?_⟩
    rw [convertAxis, hcheck]
    rfl

/-- Inside the limits the answer is what the rows give for the sought coefficient. -/
theorem convertAxis_inside (hlib : lib.Exact) (hirr : axis.dom.isIrregular = true)
    (h : InLimits lib axis.dom (lib.number text))
    (hdb : dbMeta covMeta.coverageName axis.dom.iOrder = getIndexesFromIrregularRectilinearAxis axis.rows) :
    convertAxis lib (sliceRequest covMeta dbMeta axisName text) axis.dom axis.cdom =
      match getIndexesFromIrregularRectilinearAxis axis.rows (axis.dom.sought (lib.number text))
        (axis.dom.sought (lib.number text)) with
      | .ok indexes => .ok (if indexes.1 + axis.cdom.lo > indexes.2 then
          (indexes.2, indexes.1 + axis.cdom.lo) else (indexes.1 + axis.cdom.lo, indexes.2))
      | .error _ => .error .internalComponentError := by
  have hsought : lib.divide (lib.number text) axis.dom.scalarResolution -
      lib.divide axis.dom.minValue axis.dom.scalarResolution = axis.dom.sought (lib.number text) := by
    rw [hlib.divide, hlib.divide, DomainElement.sought, sub_div]
  rw [convertAxis, checkSubset_slice.mpr h, hirr, if_pos rfl, irregularAxis]
  simp only [Bool.not_true, Bool.false_eq_true, if_false, bind, Except.bind, hsought, hdb]
  cases getIndexesFromIrregularRectilinearAxis axis.rows (axis.dom.sought (lib.number text))
    (axis.dom.sought (lib.number text)) with
  | ok indexes => rfl
  | error e => rfl

theorem convertSlice_ok_iff (hlib : lib.Exact) (hirr : axis.dom.isIrregular = true)
    (hrows : axis.rows = ofSlices cs) (hcs : cs.Pairwise (· < ·)) {cache : Cache}
    (hdom : covMeta.getDomainByName axisName = some axis.dom)
    (hcdom : covMeta.getCellDomainByName axisName = .ok (some axis.cdom))
    (hdb : dbMeta covMeta.coverageName axis.dom.iOrder = getIndexesFromIrregularRectilinearAxis axis.rows) :
    (convertSliceToInternalGridIndex lib cache covMeta (some dbMeta) axisName text true).1 = .ok (k : ℤ) ↔
      InLimits lib axis.dom (lib.number text) ∧
        ∃ j : ℕ, cs[j]? = some (axis.dom.sought (lib.number text)) ∧ min ((j : ℤ) + axis.cdom.lo) j = k := by
  have hanswer : (convertSliceToInternalGridIndex lib cache covMeta (some dbMeta) axisName text true).1 =
      (convertAxis lib (sliceRequest covMeta dbMeta axisName text) axis.dom axis.cdom).map Prod.fst :=
    congrArg (Except.map Prod.fst) (convert_irregular (r := sliceRequest ..) hdom hcdom hirr)
  rw [hanswer]
  by_cases hin : InLimits lib axis.dom (lib.number text)
  · rw [convertAxis_inside hlib hirr hin hdb, hrows, and_iff_right hin]
    by_cases hmem : axis.dom.sought (lib.number text) ∈ cs
    · obtain ⟨j, hj⟩ := List.mem_iff_getElem?.mp hmem
      have hindex : ∀ i : ℕ, cs[i]? = some (axis.dom.sought (lib.number text)) ↔ i = j := by
        intro i
        rw [← listContains_eq_some hcs, (listContains_eq_some hcs).mpr hj, Option.some.injEq, eq_comm]
      rw [getIndexes_point hcs hj]
      simp only [hindex, exists_eq_left]
      have hfst : (if (j : ℤ) + axis.cdom.lo > j then ((j : ℤ), (j : ℤ) + axis.cdom.lo)
          else ((j : ℤ) + axis.cdom.lo, (j : ℤ))).1 = min ((j : ℤ) + axis.cdom.lo) j := by
        split_ifs <;> dsimp only <;> omega
      rw [Except.map, hfst, Except.ok.injEq]
    · rw [getIndexes_absent hmem]
      constructor
      · exact fun h => nomatch h
      · rintro ⟨j, hj, -⟩
        exact absurd (List.mem_of_getElem? hj) hmem
  · obtain ⟨e, he⟩ := convertAxis_outside covMeta axisName dbMeta hin
    rw [he]
    exact ⟨(fun h => nomatch h), fun h => absurd h.1 hin⟩

end Reader

/-- A coverage in which the axis is found. -/
def IrregularAxis.coverage (axis : IrregularAxis) : CoverageMetadata where
  coverageName := ""
  domain := [axis.dom]
  cellDomain := List.replicate (axis.dom.iOrder + 1) axis.cdom

/-- **Where a slice is found**: at the order of the sought coefficient, moved by a negative lower bound of
the cell domain. -/
theorem foundAt_iff (hlib : lib.Exact) (hirr : axis.dom.isIrregular = true)
    (hrows : axis.rows = ofSlices cs) (hcs : cs.Pairwise (· < ·)) :
    FoundAt lib axis text k ↔ InLimits lib axis.dom (lib.number text) ∧
      ∃ j : ℕ, cs[j]? = some (axis.dom.sought (lib.number text)) ∧ min ((j : ℤ) + axis.cdom.lo) j = k := by
  constructor
  · intro h
    have hdom : axis.coverage.getDomainByName axis.dom.label = some axis.dom := by
      simp [CoverageMetadata.getDomainByName, IrregularAxis.coverage]
    have hcdom : axis.coverage.getCellDomainByName axis.dom.label = .ok (some axis.cdom) := by
      simp [CoverageMetadata.getCellDomainByName, IrregularAxis.coverage, CoverageMetadata.equalsIgnoreCase]
    exact (convertSlice_ok_iff hlib hirr hrows hcs hdom hcdom rfl).mp
      (h [] axis.coverage axis.dom.label (fun _ _ => getIndexesFromIrregularRectilinearAxis axis.rows)
        hdom hcdom rfl)
  · exact fun h cache covMeta axisName dbMeta hdom hcdom hdb =>
      (convertSlice_ok_iff hlib hirr hrows hcs hdom hcdom hdb).mpr h

/-! ## Runs of updates -/

/-- An axis, and the order that every accepted update was filed under. -/
structure Filing where
  axis : IrregularAxis
  log : List (DimensionSubset × ℕ)

/-- An update of the axis. -/
def Filing.update (lib : Libraries) (s : Filing) (u : DimensionSubset) : Filing :=
  match handleSubsetCoefficients lib s.axis u with
  | (.ok k, axis) => ⟨axis, s.log ++ [(u, k)]⟩
  | (.error _, axis) => ⟨axis, s.log⟩

/-- An irregular axis with its first slice, at the minimum. -/
structure IrregularAxis.IsNew (axis : IrregularAxis) : Prop where
  isIrregular : axis.dom.isIrregular = true
  resolution : 0 < axis.dom.scalarResolution
  rows : axis.rows = ofSlices [0]
  limits : axis.dom.minValue ≤ axis.dom.maxValue

/-- What holds of an axis after updates from `axis`: its slices have the coefficients `cs`, every accepted
update is filed under its own coefficient, and the last slice is at the maximum. -/
structure Filing.Inv (lib : Libraries) (axis : IrregularAxis) (s : Filing) (cs : List ℚ) : Prop where
  rows : s.axis.rows = ofSlices cs
  increasing : cs.Pairwise (· < ·)
  first : cs[0]? = some 0
  dom : s.axis.dom = { axis.dom with maxValue := s.axis.dom.maxValue }
  lo : s.axis.cdom.lo = axis.cdom.lo
  filed : ∀ e ∈ s.log, ∃ text, e.1.point = .ok text ∧
    cs[e.2]? = some (axis.dom.written (lib.number text))
  last : cs = [0] ∧ s.axis.dom.maxValue = axis.dom.maxValue ∨
    ∃ e ∈ s.log, ∃ text, e.1.point = .ok text ∧ e.2 + 1 = cs.length ∧
      0 < axis.dom.written (lib.number text) ∧ s.axis.dom.maxValue = lib.number text

variable {s : Filing} {us : List DimensionSubset}

/-- The coefficients of an axis do not depend on its upper limit. -/
theorem Filing.Inv.written (h : s.Inv lib axis cs) (p : ℚ) : s.axis.dom.written p = axis.dom.written p := by
  rw [h.dom]
  rfl

theorem Filing.Inv.nonneg (h : s.Inv lib axis cs) {c : ℚ} (hc : c ∈ cs) : 0 ≤ c := by
  obtain ⟨h0, hfirst⟩ := List.getElem?_eq_some_iff.mp h.first
  obtain ⟨k, hlt, rfl⟩ := List.getElem_of_mem hc
  rcases Nat.eq_zero_or_pos k with rfl | hpos
  · exact hfirst.ge
  · exact hfirst ▸ (List.pairwise_iff_getElem.mp h.increasing 0 k h0 hlt hpos).le

/-- **One update** keeps the invariant. -/
theorem Filing.Inv.update (hlib : lib.Exact) (hnew : axis.IsNew) (h : s.Inv lib axis cs)
    (hu : u.isNumeric = true) : ∃ cs', (s.update lib u).Inv lib axis cs' := by
  have hres : 0 < s.axis.dom.scalarResolution := by
    rw [h.dom]
    exact hnew.resolution
  rcases handleSubsetCoefficients_cases hlib hres h.rows h.increasing hu with
    ⟨e, he⟩ | ⟨text, hpoint, ⟨k, hk, hkept⟩ | ⟨c, hc, hlt, hadded⟩⟩
  · refine ⟨cs, ?_⟩
    rw [Filing.update, he]
    exact h
  · refine ⟨cs, ?_⟩
    rw [h.written] at hk
    rw [Filing.update, hkept]
    refine ⟨h.rows, h.increasing, h.first, h.dom, h.lo, ?_, ?_⟩
    · intro e he
      rcases List.mem_append.mp he with he | he
      · exact h.filed e he
      · obtain rfl := List.mem_singleton.mp he
        exact ⟨text, hpoint, hk⟩
    · rcases h.last with hlast | ⟨e, he, hlast⟩
      · exact .inl hlast
      · exact .inr ⟨e, List.mem_append_left _ he, hlast⟩
  · rw [h.written] at hlt hadded
    have hpos : 0 < axis.dom.written (lib.number text) :=
      (h.nonneg (List.mem_of_getLast? hc)).trans_lt hlt
    refine ⟨cs ++ [axis.dom.written (lib.number text)], ?_⟩
    rw [Filing.update, hadded]
    refine ⟨rfl, ?_, ?_, ?_, h.lo, ?_, .inr ⟨(u, cs.length), by simp, text, hpoint, ?_, hpos, rfl⟩⟩
    · refine List.pairwise_append.mpr ⟨h.increasing, List.pairwise_singleton _ _, ?_⟩
      intro x hx y hy
      obtain rfl := List.mem_singleton.mp hy
      exact (le_last h.increasing hc hx).trans_lt hlt
    · rw [List.getElem?_append_left (List.getElem?_eq_some_iff.mp h.first).1, h.first]
    · rw [IrregularAxis.extended, h.dom]
    · intro e he
      rcases List.mem_append.mp he with he | he
      · obtain ⟨t, ht, hk⟩ := h.filed e he
        refine ⟨t, ht, ?_⟩
        rw [List.getElem?_append_left (List.getElem?_eq_some_iff.mp hk).1, hk]
      · obtain rfl := List.mem_singleton.mp he
        exact ⟨text, hpoint, by simp⟩
    · simp

theorem Filing.Inv.start (hnew : axis.IsNew) : (⟨axis, []⟩ : Filing).Inv lib axis [0] :=
  ⟨hnew.rows, List.pairwise_singleton _ _, rfl, rfl, rfl, fun _ he => absurd he List.not_mem_nil,
    .inl ⟨rfl, rfl⟩⟩

/-- **Every run of updates** keeps the invariant. -/
theorem Filing.Inv.run (hlib : lib.Exact) (hnew : axis.IsNew) (hus : ∀ u ∈ us, u.isNumeric = true)
    (h : s.Inv lib axis cs) : ∃ cs', (Machine.run (Filing.update lib) s us).Inv lib axis cs' := by
  induction us generalizing s cs with
  | nil => exact ⟨cs, h⟩
  | cons u us ih =>
    obtain ⟨cs', h'⟩ := h.update hlib hnew (hus u List.mem_cons_self)
    exact ih (fun v hv => hus v (List.mem_cons_of_mem u hv)) h'

/-! ## When the slices are found -/

/-- Writer and reader agree on a point. -/
def DomainElement.Agree (dom : DomainElement) (p : ℚ) : Prop :=
  p = dom.minValue ∨ dom.scalarResolution = 1 ∧ dom.positiveForwards = true

theorem DomainElement.Agree.sought_eq (h : dom.Agree p) : dom.sought p = dom.written p := by
  unfold DomainElement.sought DomainElement.written
  rcases h with rfl | ⟨hres, hfwd⟩
  · simp
  · rw [hres, if_pos hfwd, div_one]

/-- If the last slice can be found at all, where it is the last, then writer and reader agree on it. -/
theorem DomainElement.agree_of_found (hres : 0 < dom.scalarResolution) (hnonneg : ∀ c ∈ cs, 0 ≤ c) (hpos : 0 < dom.written p) (hlast : k + 1 = cs.length)
    (hk : cs[k]? = some (dom.written p)) {j : ℕ} (hj : cs[j]? = some (dom.sought p)) (hkj : k ≤ j) :
    dom.scalarResolution = 1 ∧ dom.positiveForwards = true := by
  obtain ⟨hjlt, -⟩ := List.getElem?_eq_some_iff.mp hj
  have hjk : j = k := by omega
  have hsought : dom.sought p = dom.written p := Option.some.inj (hj.symm.trans (hjk ▸ hk))
  unfold DomainElement.sought DomainElement.written at hsought
  unfold DomainElement.written at hpos
  cases hfwd : dom.positiveForwards with
  | true =>
    rw [if_pos hfwd] at hsought hpos
    have hmul : p - dom.minValue = (p - dom.minValue) * dom.scalarResolution := (div_eq_iff hres.ne').mp hsought
    exact ⟨mul_left_cancel₀ hpos.ne' (hmul.symm.trans (mul_one _).symm), rfl⟩
  | false =>
    rw [if_neg (by simp [hfwd])] at hsought hpos
    have hneg : (p - dom.minValue) / dom.scalarResolution < 0 := div_neg_of_neg_of_pos (by linarith) hres
    have hge : 0 ≤ (p - dom.minValue) / dom.scalarResolution := hnonneg _ (List.mem_of_getElem? hj)
    linarith

theorem DomainElement.written_eq_zero : dom.written p = 0 ↔ p = dom.minValue := by
  unfold DomainElement.written
  split_ifs
  · exact sub_eq_zero
  · exact neg_eq_zero.trans sub_eq_zero

theorem Filing.Inv.foundAt_iff (hlib : lib.Exact) (hnew : axis.IsNew) (h : s.Inv lib axis cs) :
    FoundAt lib s.axis text k ↔ InLimits lib s.axis.dom (lib.number text) ∧
      ∃ j : ℕ, cs[j]? = some (axis.dom.sought (lib.number text)) ∧ min ((j : ℤ) + axis.cdom.lo) j = k := by
  have hirr : s.axis.dom.isIrregular = true := by
    rw [h.dom]
    exact hnew.isIrregular
  have hsought : s.axis.dom.sought (lib.number text) = axis.dom.sought (lib.number text) := by
    rw [h.dom]
    rfl
  rw [Petascope.foundAt_iff hlib hirr h.rows h.increasing, hsought, h.lo]

/-- An accepted update that writer and reader agree on is inside the limits. -/
theorem Filing.Inv.inLimits (hlib : lib.Exact) (hnew : axis.IsNew) (h : s.Inv lib axis cs)
    (hagree : ∀ e ∈ s.log, ∀ text, e.1.point = .ok text → axis.dom.Agree (lib.number text))
    {e : DimensionSubset × ℕ} (he : e ∈ s.log) (hpoint : e.1.point = .ok text) :
    InLimits lib s.axis.dom (lib.number text) := by
  obtain ⟨t, ht, hk⟩ := h.filed e he
  obtain rfl : t = text := Except.ok.inj (ht.symm.trans hpoint)
  have hmin : s.axis.dom.minValue = axis.dom.minValue := by rw [h.dom]
  suffices hle : lib.number t ≤ s.axis.dom.maxValue ∧ axis.dom.minValue ≤ lib.number t from
    ⟨hlib.toDouble hle.1, hlib.toDouble (hmin ▸ hle.2)⟩
  have hnonneg := h.nonneg (List.mem_of_getElem? hk)
  rcases h.last with ⟨hcs, hmax⟩ | ⟨e', he', text', hpoint', hlen, hpos, hmax⟩
  · have hzero : axis.dom.written (lib.number t) = 0 := by
      simpa [hcs] using List.mem_of_getElem? hk
    rw [DomainElement.written_eq_zero.mp hzero, hmax]
    exact ⟨hnew.limits, le_refl _⟩
  · rcases hagree e' he' text' hpoint' with hmin' | ⟨-, hfwd⟩
    · exact absurd (DomainElement.written_eq_zero.mpr hmin') hpos.ne'
    · obtain ⟨t', ht', hk'⟩ := h.filed e' he'
      obtain rfl : t' = text' := Except.ok.inj (ht'.symm.trans hpoint')
      have hlast : cs.getLast? = some (axis.dom.written (lib.number t')) := by
        rw [List.getLast?_eq_getElem?, ← hk', ← hlen, Nat.add_sub_cancel]
      have hle := le_last h.increasing hlast (List.mem_of_getElem? hk)
      simp only [DomainElement.written, hfwd, if_true] at hle hnonneg
      rw [hmax]
      exact ⟨by linarith, by linarith⟩

/-- After updates the slices are found under their orders if and only if writer and reader agree on all of
them and the cell domain does not start below 0. -/
theorem Filing.Inv.found_iff (hlib : lib.Exact) (hnew : axis.IsNew) (h : s.Inv lib axis cs) :
    (∀ e ∈ s.log, ∀ text, e.1.point = .ok text → FoundAt lib s.axis text e.2) ↔
      (∀ e ∈ s.log, ∀ text, e.1.point = .ok text → axis.dom.Agree (lib.number text)) ∧
        (s.log ≠ [] → 0 ≤ axis.cdom.lo) := by
  simp only [h.foundAt_iff hlib hnew]
  constructor
  · intro hfound
    have hagree : ∀ e ∈ s.log, ∀ text, e.1.point = .ok text → axis.dom.Agree (lib.number text) := by
      intro e he text hpoint
      obtain ⟨t, ht, hk⟩ := h.filed e he
      obtain rfl : t = text := Except.ok.inj (ht.symm.trans hpoint)
      rcases h.last with ⟨hcs, -⟩ | ⟨e', he', text', hpoint', hlen, hpos, -⟩
      · exact .inl (DomainElement.written_eq_zero.mp (by simpa [hcs] using List.mem_of_getElem? hk))
      · obtain ⟨t', ht', hk'⟩ := h.filed e' he'
        obtain rfl : t' = text' := Except.ok.inj (ht'.symm.trans hpoint')
        obtain ⟨-, j, hj, hindex⟩ := hfound e' he' t' hpoint'
        exact .inr (DomainElement.agree_of_found hnew.resolution (fun _ hc => h.nonneg hc) hpos hlen
          hk' hj (by omega))
    refine ⟨hagree, fun hlog => ?_⟩
    obtain ⟨e, he⟩ := List.exists_mem_of_ne_nil _ hlog
    obtain ⟨text, hpoint, hk⟩ := h.filed e he
    obtain ⟨-, j, hj, hindex⟩ := hfound e he text hpoint
    rw [(hagree e he text hpoint).sought_eq, ← listContains_eq_some h.increasing,
      (listContains_eq_some h.increasing).mpr hk, Option.some.injEq] at hj
    omega
  · rintro ⟨hagree, hlo⟩ e he text hpoint
    obtain ⟨t, ht, hk⟩ := h.filed e he
    obtain rfl : t = text := Except.ok.inj (ht.symm.trans hpoint)
    refine ⟨h.inLimits hlib hnew hagree he hpoint, e.2, ?_, ?_⟩
    · rw [(hagree e he t hpoint).sought_eq, hk]
    · exact min_eq_right (le_add_of_nonneg_right (hlo (List.ne_nil_of_mem he)))

/-- **Slices written to a new irregular axis** have increasing coefficients in consecutive orders, and a
rejected one changes nothing.  All are found under their orders if and only if each is at the minimum or
the axis runs forwards by steps of 1, and its cell domain does not start below 0. -/
theorem slices_found (lib : Libraries) (hlib : lib.Exact) (axis : IrregularAxis) (hnew : axis.IsNew)
    (us : List DimensionSubset) (hus : ∀ u ∈ us, u.isNumeric = true) :
    let s := Machine.run (Filing.update lib) ⟨axis, []⟩ us
    (∃ cs : List ℚ, s.axis.rows = ofSlices cs ∧ cs.Pairwise (· < ·)) ∧
      (∀ u e, (handleSubsetCoefficients lib s.axis u).1 = .error e → s.update lib u = s) ∧
      ((∀ e ∈ s.log, ∀ text, e.1.point = .ok text → FoundAt lib s.axis text e.2) ↔
        (∀ e ∈ s.log, ∀ text, e.1.point = .ok text → axis.dom.Agree (lib.number text)) ∧
          (s.log ≠ [] → 0 ≤ axis.cdom.lo)) := by
  intro s
  obtain ⟨cs, h⟩ : ∃ cs, s.Inv lib axis cs := (Filing.Inv.start hnew).run hlib hnew hus
  refine ⟨⟨cs, h.rows, h.increasing⟩, fun u e he => ?_, h.found_iff hlib hnew⟩
  have haxis := handleSubsetCoefficients_error he
  unfold Filing.update
  generalize handleSubsetCoefficients lib s.axis u = answer at he haxis
  obtain ⟨order, axis'⟩ := answer
  obtain rfl : axis' = s.axis := haxis
  obtain rfl : order = .error e := he
  rfl

theorem Libraries.digits_exact : Libraries.digits.Exact := ⟨fun _ _ => rfl, fun _ _ h => h⟩

/-- An axis that starts at 0, with cells from 0 on. -/
def newAxis (resolution : ℚ) : IrregularAxis where
  dom := ⟨"t", "d", "", 0, 0, resolution, true, true, 0⟩
  cdom := ⟨0, 0⟩
  rows := ofSlices [0]

theorem newAxis_isNew {resolution : ℚ} (h : 0 < resolution) : (newAxis resolution).IsNew :=
  ⟨rfl, h, rfl, le_refl _⟩

/-- With resolution 1 the slices at 2 and at 4 are found. -/
theorem slices_found_unit :
    (Machine.run (Filing.update .digits) ⟨newAxis 1, []⟩ [.slice "2", .slice "4"]).log.length = 2 ∧
    ∀ e ∈ (Machine.run (Filing.update .digits) ⟨newAxis 1, []⟩ [.slice "2", .slice "4"]).log,
      ∀ text, e.1.point = .ok text → FoundAt .digits
        (Machine.run (Filing.update .digits) ⟨newAxis 1, []⟩ [.slice "2", .slice "4"]).axis text e.2 :=
  ⟨by decide +kernel, (slices_found .digits Libraries.digits_exact (newAxis 1) (newAxis_isNew one_pos)
    [.slice "2", .slice "4"] (by decide)).2.2.mpr ⟨fun _ _ _ _ => .inr ⟨rfl, rfl⟩, fun _ => le_refl _⟩⟩

/-- With resolution 2 the slice at 2 is filed with coefficient 2 and looked for with coefficient 1. -/
theorem slice_lost :
    ¬∀ (lib : Libraries), lib.Exact → ∀ axis : IrregularAxis, axis.IsNew →
      ∀ us : List DimensionSubset, (∀ u ∈ us, u.isNumeric = true) →
        ∀ e ∈ (Machine.run (Filing.update lib) ⟨axis, []⟩ us).log, ∀ text, e.1.point = .ok text →
          FoundAt lib (Machine.run (Filing.update lib) ⟨axis, []⟩ us).axis text e.2 := by
  intro h
  have hnew := newAxis_isNew (show (0 : ℚ) < 2 from two_pos)
  have hnumeric : ∀ u ∈ [DimensionSubset.slice "2"], u.isNumeric = true := by decide
  obtain ⟨cs, hinv⟩ := (Filing.Inv.start hnew).run Libraries.digits_exact hnew hnumeric
  have hagree := ((hinv.found_iff Libraries.digits_exact hnew).mp
    (h _ Libraries.digits_exact _ hnew _ hnumeric)).1 (.slice "2", 1) (by decide +kernel) "2" rfl
  revert hagree
  simp [DomainElement.Agree, newAxis, Libraries.digits]

end Petascope

end Rasdaman
