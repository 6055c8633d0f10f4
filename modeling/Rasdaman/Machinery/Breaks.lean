import Mathlib

/-!
# Machinery/Breaks — intervals between break points

A list of break points cuts a range of integers into intervals: the first one starts at the first point, and each
ends at a point and includes it.  `mem_interval_iff` says that a position lies in the interval that `index` names.
-/

namespace Breaks

variable {p : List ℤ} {x y : ℤ} {c k : ℕ}

/-- The number of the points behind the first one that are below a position. -/
def index (p : List ℤ) (x : ℤ) : ℕ := p.tail.countP (· < x)

/-- The start of an interval. -/
def low (p : List ℤ) (c : ℕ) : ℤ := if c = 0 then p.getD 0 0 else p.getD c 0 + 1

/-- The end of an interval; a single point makes an interval of its own. -/
def high (p : List ℤ) (c : ℕ) : ℤ := if p.length ≤ c + 1 then low p c else p.getD (c + 1) 0

/-- Points of which the first one is not above the others, which increase. -/
structure Increasing (p : List ℤ) : Prop where
  ne_nil : p ≠ []
  head_le : ∀ y ∈ p.tail, p.getD 0 0 ≤ y
  tail : p.tail.Pairwise (· < ·)

/-- Points at which the index changes. -/
theorem index_eq_succ_iff : index p x = index p (x + 1) ↔ x ∉ p.tail := by
  have hsplit : index p (x + 1) = index p x + p.tail.count x := by
    rw [index, index]
    induction p.tail with
    | nil => rfl
    | cons y ys ih =>
      rw [List.countP_cons, List.countP_cons, List.count_cons, ih]
      rcases lt_trichotomy y x with h | h | h
      · simp [h, h.trans (lt_add_one x), h.ne]
        omega
      · simp [h]
        omega
      · have h1 : ¬y < x + 1 := not_lt.mpr h
        simp [h.not_gt, h.ne', h1]
  rw [hsplit, ← List.count_eq_zero]
  omega

/-- Positions of one index are on the same side of every point. -/
theorem lt_iff_of_index_eq (h : index p x = index p y) {q : ℤ} (hq : q ∈ p.tail) : q < x ↔ q < y := by
  wlog hle : x ≤ y generalizing x y with hwlog
  · exact (hwlog h.symm (le_of_not_ge hle)).symm
  refine ⟨fun hx => hx.trans_le hle, fun hy => ?_⟩
  by_contra hnot
  have hlt : index p x < index p y := by
    rw [index, index, List.countP_eq_length_filter, List.countP_eq_length_filter]
    have hsub : List.Sublist (p.tail.filter (· < x)) (p.tail.filter (· < y)) := by
      refine List.monotone_filter_right _ fun z hz => ?_
      simp only [decide_eq_true_eq] at hz ⊢
      exact hz.trans_le hle
    refine lt_of_le_of_ne hsub.length_le fun hlen => ?_
    have heq := hsub.eq_of_length hlen
    have hmem : q ∈ p.tail.filter (· < y) := List.mem_filter.mpr ⟨hq, decide_eq_true hy⟩
    rw [← heq] at hmem
    exact hnot (of_decide_eq_true (List.mem_filter.mp hmem).2)
  omega

/-- In an increasing list, the points below a position come first. -/
theorem getD_lt_iff {l : List ℤ} (h : l.Pairwise (· < ·)) (hk : k < l.length) :
    l.getD k 0 < x ↔ k < l.countP (· < x) := by
  induction l generalizing k with
  | nil => simp at hk
  | cons y ys ih =>
    obtain ⟨hy, hys⟩ := List.pairwise_cons.mp h
    rw [List.countP_cons]
    by_cases hlt : y < x
    · cases k with
      | zero => simp [hlt]
      | succ k =>
        rw [List.getD_cons_succ, ih hys (Nat.lt_of_succ_lt_succ hk)]
        simp [hlt]
    · have hnone : ys.countP (· < x) = 0 := by
        rw [List.countP_eq_zero]
        intro z hz
        have := hy z hz
        simp only [decide_eq_true_eq]
        omega
      refine iff_of_false (fun hkx => ?_) (by simp [hnone, hlt])
      cases k with
      | zero => exact hlt (by simpa using hkx)
      | succ k =>
        rw [List.getD_cons_succ, ih hys (Nat.lt_of_succ_lt_succ hk), hnone] at hkx
        exact absurd hkx (Nat.not_lt_zero k)

variable {a : ℤ} {ps : List ℤ}

theorem low_cons (a : ℤ) (ps : List ℤ) (c : ℕ) :
    low (a :: ps) c = if c = 0 then a else ps.getD (c - 1) 0 + 1 := by
  rw [low]
  cases c with
  | zero => rfl
  | succ c => rfl

/-- **A position lies in the interval of its index**, and in no other one. -/
theorem mem_interval_iff (h : Increasing (a :: ps)) (hc : c = 0 ∨ c < ps.length) :
    low (a :: ps) c ≤ x ∧ x ≤ high (a :: ps) c ↔
      (a ≤ x ∧ x ≤ (a :: ps).getLast h.ne_nil) ∧ index (a :: ps) x = c := by
  have hhead : ∀ y ∈ ps, a ≤ y := h.head_le
  have hinc : ps.Pairwise (· < ·) := h.tail
  have hindex : index (a :: ps) x = ps.countP (· < x) := rfl
  have hcount : ps.countP (· < x) ≤ ps.length := List.countP_le_length
  rw [hindex, low_cons, high, low_cons]
  rcases Nat.eq_zero_or_pos ps.length with hnil | hpos
  · -- a single point
    obtain rfl := List.eq_nil_of_length_eq_zero hnil
    obtain rfl : c = 0 := hc.resolve_right (Nat.not_lt_zero c)
    simp
  have hne : ps ≠ [] := List.ne_nil_of_length_pos hpos
  have hc' : c < ps.length := hc.elim (fun h0 => h0 ▸ hpos) id
  have hlast : (a :: ps).getLast h.ne_nil = ps.getD (ps.length - 1) 0 := by
    rw [List.getLast_cons hne, List.getLast_eq_getElem, List.getD_eq_getElem _ _ (by omega)]
  have hhigh : (if (a :: ps).length ≤ c + 1 then (if c = 0 then a else ps.getD (c - 1) 0 + 1)
      else (a :: ps).getD (c + 1) 0) = ps.getD c 0 := by
    rw [List.length_cons, if_neg (by omega), List.getD_cons_succ]
  rw [hhigh, hlast]
  have hat : ps.getD c 0 < x ↔ c < ps.countP (· < x) := getD_lt_iff hinc hc'
  have hend : ps.getD (ps.length - 1) 0 < x ↔ ps.length - 1 < ps.countP (· < x) :=
    getD_lt_iff hinc (by omega)
  have hac : a ≤ ps.getD c 0 := by
    rw [List.getD_eq_getElem _ _ hc']
    exact hhead _ (List.getElem_mem hc')
  rcases Nat.eq_zero_or_pos c with rfl | hcpos
  · rw [if_pos rfl]
    omega
  · have hbefore : ps.getD (c - 1) 0 < x ↔ c - 1 < ps.countP (· < x) := getD_lt_iff hinc (by omega)
    have hac' : a ≤ ps.getD (c - 1) 0 := by
      rw [List.getD_eq_getElem _ _ (by omega)]
      exact hhead _ (List.getElem_mem _)
    rw [if_neg hcpos.ne']
    omega

/-- The interval of a position within the points. -/
theorem index_lt (h : Increasing (a :: ps)) (hx : a ≤ x ∧ x ≤ (a :: ps).getLast h.ne_nil) :
    index (a :: ps) x = 0 ∨ index (a :: ps) x < ps.length := by
  rcases Nat.eq_zero_or_pos ps.length with hnil | hpos
  · obtain rfl := List.eq_nil_of_length_eq_zero hnil
    exact .inl rfl
  · have hne : ps ≠ [] := List.ne_nil_of_length_pos hpos
    have hlast : (a :: ps).getLast h.ne_nil = ps.getD (ps.length - 1) 0 := by
      rw [List.getLast_cons hne, List.getLast_eq_getElem, List.getD_eq_getElem _ _ (by omega)]
    have hend : ps.getD (ps.length - 1) 0 < x ↔ ps.length - 1 < ps.countP (· < x) :=
      getD_lt_iff h.tail (by omega)
    have hindex : index (a :: ps) x = ps.countP (· < x) := rfl
    rw [hlast] at hx
    omega

/-- An interval has a position. -/
theorem low_le_high (h : Increasing (a :: ps)) (c : ℕ) :
    low (a :: ps) c ≤ high (a :: ps) c := by
  have hhead : ∀ y ∈ ps, a ≤ y := h.head_le
  rw [high]
  split
  · exact le_rfl
  · next hlen =>
    rw [List.length_cons] at hlen
    have hc' : c < ps.length := by omega
    rw [low_cons, List.getD_cons_succ, List.getD_eq_getElem _ _ hc']
    split
    · exact hhead _ (List.getElem_mem hc')
    · rw [List.getD_eq_getElem _ _ (by omega)]
      have := List.pairwise_iff_getElem.mp h.tail (c - 1) c (by rw [List.tail_cons]; omega) hc' (by omega)
      exact this

end Breaks
