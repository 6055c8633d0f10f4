import Rasdaman.Petascope.CoverageMetadata
import Mathlib.Data.List.Sort

/-!
# Petascope/VectorCoefficients — the coefficients of an irregular axis in the database

A row keeps the order of a slice and its coefficient, the distance from the first slice.
-/

namespace Rasdaman

namespace Petascope

/-- The rows of one axis, in the order of their insertion. -/
abbrev VectorCoefficients := List (ℕ × ℚ)

namespace VectorCoefficients

/-- `getIndexesFromIrregularRectilinearAxis`: the least and the greatest order of a coefficient in an
interval. -/
def getIndexesFromIrregularRectilinearAxis (rows : VectorCoefficients) (lo hi : ℚ) :
    Except PetascopeException (ℤ × ℤ) :=
  let orders := (rows.filter fun row => lo ≤ row.2 ∧ row.2 ≤ hi).map Prod.fst
  match orders.min?, orders.max? with
  | some first, some last => .ok (first, last)
  | _, _ => .error .invalidRequest

/-- `getAllCoefficients`. -/
def getAllCoefficients (rows : VectorCoefficients) : List ℚ :=
  (rows.map Prod.snd).insertionSort (· ≤ ·)

/-- `updateAxisCoefficient`, which keeps the coefficient that an order already has. -/
def updateAxisCoefficient (rows : VectorCoefficients) (coefficient : ℚ) (coefficientOrder : ℕ) :
    VectorCoefficients :=
  if rows.any fun row => row.1 = coefficientOrder then rows else rows ++ [(coefficientOrder, coefficient)]

/-- `BigDecimalUtil.listContains`. -/
def listContains (list : List ℚ) (value : ℚ) : Option ℕ := list.findIdx? fun element => element = value

/-! ## Slices in consecutive orders -/

/-- The rows of the slices with the given coefficients, in consecutive orders. -/
def ofSlices (cs : List ℚ) : VectorCoefficients := cs.zipIdx.map Prod.swap

variable {cs : List ℚ} {c : ℚ} {k : ℕ}

@[simp] theorem map_snd_ofSlices (cs : List ℚ) : (ofSlices cs).map Prod.snd = cs := by
  rw [ofSlices, List.map_map]
  exact List.zipIdx_map_fst 0 cs

theorem mem_ofSlices : (k, c) ∈ ofSlices cs ↔ cs[k]? = some c := by
  rw [ofSlices, ← Prod.swap_prod_mk, List.mem_map_of_injective Prod.swap_injective,
    List.mk_mem_zipIdx_iff_getElem?]

theorem ofSlices_concat (cs : List ℚ) (c : ℚ) : ofSlices (cs ++ [c]) = ofSlices cs ++ [(cs.length, c)] := by
  simp [ofSlices, List.zipIdx_append]

theorem getAllCoefficients_ofSlices (hcs : cs.Pairwise (· < ·)) :
    getAllCoefficients (ofSlices cs) = cs := by
  rw [getAllCoefficients, map_snd_ofSlices]
  exact List.Pairwise.insertionSort_eq (hcs.imp le_of_lt)

/-- An order that a slice has keeps its coefficient. -/
theorem updateAxisCoefficient_of_mem (h : k < cs.length) :
    updateAxisCoefficient (ofSlices cs) c k = ofSlices cs := by
  refine if_pos (List.any_eq_true.mpr ⟨(k, cs[k]), mem_ofSlices.mpr ?_, ?_⟩)
  · exact List.getElem?_eq_getElem h
  · exact decide_eq_true rfl

/-- The next order takes the coefficient of a new slice. -/
theorem updateAxisCoefficient_length :
    updateAxisCoefficient (ofSlices cs) c cs.length = ofSlices (cs ++ [c]) := by
  rw [ofSlices_concat]
  refine if_neg fun h => ?_
  obtain ⟨⟨k, x⟩, hrow, hk⟩ := List.any_eq_true.mp h
  obtain ⟨hlt, -⟩ := List.getElem?_eq_some_iff.mp (mem_ofSlices.mp hrow)
  have hk' : k = cs.length := of_decide_eq_true hk
  omega

/-- The place of a coefficient in the list is the order of its slice. -/
theorem listContains_eq_some (hcs : cs.Pairwise (· < ·)) : listContains cs c = some k ↔ cs[k]? = some c := by
  rw [listContains, List.findIdx?_eq_some_iff_getElem]
  constructor
  · rintro ⟨hk, hc, -⟩
    rw [List.getElem?_eq_getElem hk, of_decide_eq_true hc]
  · intro h
    obtain ⟨hk, rfl⟩ := List.getElem?_eq_some_iff.mp h
    refine ⟨hk, decide_eq_true rfl, fun j hj => ?_⟩
    have hlt := List.pairwise_iff_getElem.mp hcs j k (by omega) hk hj
    simpa using hlt.ne

/-- No coefficient is beyond the last. -/
theorem le_last {x : ℚ} (hcs : cs.Pairwise (· < ·)) (hlast : cs.getLast? = some c) (hx : x ∈ cs) :
    x ≤ c := by
  obtain ⟨ys, rfl⟩ := List.getLast?_eq_some_iff.mp hlast
  rcases List.mem_append.mp hx with hx | hx
  · exact ((List.pairwise_append.mp hcs).2.2 x hx c (List.mem_singleton_self c)).le
  · exact (List.mem_singleton.mp hx).le

/-- The query for one coefficient gives the order of its slice. -/
theorem getIndexes_point (hcs : cs.Pairwise (· < ·)) (h : cs[k]? = some c) :
    getIndexesFromIrregularRectilinearAxis (ofSlices cs) c c = .ok (k, k) := by
  have hmem : ∀ j, j ∈ ((ofSlices cs).filter fun row => c ≤ row.2 ∧ row.2 ≤ c).map Prod.fst ↔ j = k := by
    intro j
    simp only [List.mem_map, List.mem_filter, Prod.exists, decide_eq_true_eq, exists_and_right,
      exists_eq_right, mem_ofSlices]
    constructor
    · rintro ⟨x, hx, hle, hge⟩
      have hxc : x = c := le_antisymm hge hle
      have hj : listContains cs c = some j := (listContains_eq_some hcs).mpr (hxc ▸ hx)
      exact Option.some.inj (hj.symm.trans ((listContains_eq_some hcs).mpr h))
    · rintro rfl
      exact ⟨c, h, le_refl c, le_refl c⟩
  have hmin := List.min?_eq_some_iff.mpr ⟨(hmem k).mpr rfl, fun j hj => ((hmem j).mp hj).ge⟩
  have hmax := List.max?_eq_some_iff.mpr ⟨(hmem k).mpr rfl, fun j hj => ((hmem j).mp hj).le⟩
  simp only [getIndexesFromIrregularRectilinearAxis, hmin, hmax]

/-- The query for a coefficient that no slice has fails. -/
theorem getIndexes_absent (h : c ∉ cs) :
    getIndexesFromIrregularRectilinearAxis (ofSlices cs) c c = .error .invalidRequest := by
  have hnone : ((ofSlices cs).filter fun row => c ≤ row.2 ∧ row.2 ≤ c) = [] := by
    rw [List.filter_eq_nil_iff]
    rintro ⟨j, x⟩ hrow hx
    obtain ⟨hle, hge⟩ := of_decide_eq_true hx
    exact h (le_antisymm hle hge ▸ List.mem_of_getElem? (mem_ofSlices.mp hrow))
  rw [getIndexesFromIrregularRectilinearAxis, hnone]
  rfl

/-! ## The query for an interval -/

/-- How many coefficients are below a bound. -/
def below (cs : List ℚ) (x : ℚ) : ℕ := cs.countP fun c => c < x

/-- How many coefficients are up to a bound. -/
def upTo (cs : List ℚ) (x : ℚ) : ℕ := cs.countP fun c => c ≤ x

/-- In increasing order, what holds of the smaller ones holds of the first so many. -/
theorem getElem_iff_lt_countP {p : ℚ → Bool} (hp : ∀ x y, x < y → p y = true → p x = true)
    (hcs : cs.Pairwise (· < ·)) (h : cs[k]? = some c) : p c = true ↔ k < cs.countP p := by
  induction cs generalizing k with
  | nil => cases h
  | cons first cs ih =>
    obtain ⟨hfirst, hcs⟩ := List.pairwise_cons.mp hcs
    cases hpf : p first with
    | true =>
      rw [List.countP_cons_of_pos hpf]
      cases k with
      | zero =>
        obtain rfl := Option.some.inj h
        exact iff_of_true hpf (Nat.succ_pos _)
      | succ k =>
        rw [ih hcs h]
        omega
    | false =>
      have hnone : ∀ x ∈ cs, ¬p x = true := fun x hx hpx => by
        rw [hp first x (hfirst x hx) hpx] at hpf
        cases hpf
      rw [List.countP_cons_of_neg (by simp [hpf]), List.countP_eq_zero.mpr hnone]
      cases k with
      | zero =>
        obtain rfl := Option.some.inj h
        simp [hpf]
      | succ k => exact iff_of_false (hnone c (List.mem_of_getElem? h)) (Nat.not_lt_zero _)

theorem below_le_iff (hcs : cs.Pairwise (· < ·)) (h : cs[k]? = some c) {x : ℚ} : below cs x ≤ k ↔ x ≤ c := by
  have hlt := getElem_iff_lt_countP (p := fun c => c < x)
    (fun y z hyz hz => decide_eq_true (hyz.trans (of_decide_eq_true hz))) hcs h
  rw [decide_eq_true_eq] at hlt
  rw [← not_lt, ← not_lt]
  exact not_congr hlt.symm

theorem lt_upTo_iff (hcs : cs.Pairwise (· < ·)) (h : cs[k]? = some c) {x : ℚ} : k < upTo cs x ↔ c ≤ x := by
  have hle := getElem_iff_lt_countP (p := fun c => c ≤ x)
    (fun y z hyz hz => decide_eq_true (hyz.le.trans (of_decide_eq_true hz))) hcs h
  rw [decide_eq_true_eq] at hle
  exact hle.symm

/-- **The query for an interval** counts the coefficients below and up to its bounds. -/
theorem getIndexes_ofSlices (hcs : cs.Pairwise (· < ·)) (lo hi : ℚ) :
    getIndexesFromIrregularRectilinearAxis (ofSlices cs) lo hi =
      if below cs lo < upTo cs hi then .ok (below cs lo, (upTo cs hi : ℤ) - 1)
      else .error .invalidRequest := by
  have hmem : ∀ j, j ∈ ((ofSlices cs).filter fun row => lo ≤ row.2 ∧ row.2 ≤ hi).map Prod.fst ↔
      below cs lo ≤ j ∧ j < upTo cs hi := by
    intro j
    simp only [List.mem_map, List.mem_filter, Prod.exists, decide_eq_true_eq, exists_and_right,
      exists_eq_right, mem_ofSlices]
    constructor
    · rintro ⟨x, hx, hlo, hhi⟩
      exact ⟨(below_le_iff hcs hx).mpr hlo, (lt_upTo_iff hcs hx).mpr hhi⟩
    · rintro ⟨hlo, hhi⟩
      have hlt : j < cs.length := hhi.trans_le List.countP_le_length
      have hx := List.getElem?_eq_getElem hlt
      exact ⟨cs[j], hx, (below_le_iff hcs hx).mp hlo, (lt_upTo_iff hcs hx).mp hhi⟩
  unfold getIndexesFromIrregularRectilinearAxis
  split_ifs with h
  · have hmin := List.min?_eq_some_iff.mpr ⟨(hmem (below cs lo)).mpr ⟨le_refl _, h⟩,
      fun j hj => ((hmem j).mp hj).1⟩
    have hmax := List.max?_eq_some_iff.mpr ⟨(hmem (upTo cs hi - 1)).mpr ⟨by omega, by omega⟩,
      fun j hj => by have := (hmem j).mp hj; omega⟩
    simp only [hmin, hmax]
    rw [Nat.cast_sub (by omega), Nat.cast_one]
  · have hnil : ((ofSlices cs).filter fun row => lo ≤ row.2 ∧ row.2 ≤ hi).map Prod.fst = [] := by
      refine List.eq_nil_iff_forall_not_mem.mpr fun j hj => ?_
      have := (hmem j).mp hj
      omega
    simp only [hnil]
    rfl

end VectorCoefficients

end Petascope

end Rasdaman
