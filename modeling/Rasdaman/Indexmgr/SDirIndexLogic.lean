import Mathlib
import Rasdaman.Machinery.BinaryScan
import Rasdaman.Relindexif.HierIndex

/-!
# Indexmgr/SDirIndexLogic — the directory index

The key objects of a node are kept sorted by the lexicographic order of their low corners.
`insertObject` finds the position by `binarySearch`; `intersect` collects the key objects that meet a
search box with `binaryRegionSearch`, which stops once the cells found account for the whole area.

The area is counted in `r_Area`.  `intersect_perm` is the exactness of the search: it needs the
entries to be disjoint, so that their cells fit in the searched area, and the searched area to fit
in 64 bits.
-/

namespace Rasdaman

open BinaryScan

/-- The state of a region search: the area still to be found and the key objects found so far. -/
abbrev Found (d : ℕ) (α : Type) := ℕ × List (KeyObject d α)

/-- `area - n` in `r_Area`. -/
def areaSub (area n : ℕ) : ℕ := (area + (areaModulus - n % areaModulus)) % areaModulus

theorem areaSub_eq {area n : ℕ} (h : area < areaModulus) (hn : n ≤ area) :
    areaSub area n = area - n := by
  have h0 : n % areaModulus = n := Nat.mod_eq_of_lt (by omega)
  rw [areaSub, h0]
  have h1 : area + (areaModulus - n) = (area - n) + areaModulus := by omega
  rw [h1, Nat.add_mod_right, Nat.mod_eq_of_lt (by omega)]

/-- The cells two boxes share. -/
def overlap {d : ℕ} (a b : Box d) : ℕ := (a.cells ∩ b.cells).card

theorem overlap_pos {d : ℕ} {a b : Box d} (h : a.Intersects b) : 0 < overlap a b := by
  obtain ⟨p, ha, hb⟩ := Box.intersects_iff.mp h
  exact Finset.card_pos.mpr ⟨p, Finset.mem_inter.mpr ⟨Box.mem_cells.mpr ha, Box.mem_cells.mpr hb⟩⟩

/-- **Disjoint boxes cannot share more cells with a box than it has.** -/
theorem sum_overlap_le {d : ℕ} {β : Type*} (dom : β → Box d) (mint : Box d) : ∀ (es : List β),
    es.Pairwise (fun a b => ¬ (dom a).Intersects (dom b)) →
      (es.map fun e => overlap (dom e) mint).sum ≤ mint.cells.card := by
  suffices h : ∀ es : List β, es.Pairwise (fun a b => ¬ (dom a).Intersects (dom b)) →
      ∃ s : Finset (Point d), (es.map fun e => overlap (dom e) mint).sum = s.card ∧
        ∀ p, p ∈ s ↔ p ∈ mint ∧ ∃ e ∈ es, p ∈ dom e by
    intro es hd
    obtain ⟨s, hs, hmem⟩ := h es hd
    rw [hs]
    exact Finset.card_le_card fun p hp => Box.mem_cells.mpr ((hmem p).mp hp).1
  intro es
  induction es with
  | nil => exact fun _ => ⟨∅, rfl, by simp⟩
  | cons e es ih =>
    intro hd
    obtain ⟨he, hes⟩ := List.pairwise_cons.mp hd
    obtain ⟨s, hs, hmem⟩ := ih hes
    have hdisj : Disjoint ((dom e).cells ∩ mint.cells) s := by
      refine Finset.disjoint_left.mpr fun p hp hps => ?_
      obtain ⟨-, e', he', hpe'⟩ := (hmem p).mp hps
      exact he e' he' (.of_mem (Box.mem_cells.mp (Finset.mem_inter.mp hp).1) hpe')
    refine ⟨(dom e).cells ∩ mint.cells ∪ s, ?_, fun p => ?_⟩
    · rw [Finset.card_union_of_disjoint hdisj, ← hs]
      rfl
    · simp only [Finset.mem_union, Finset.mem_inter, Box.mem_cells, hmem, List.mem_cons,
        exists_eq_or_imp]
      tauto

namespace SDirIndexLogic

variable {d : ℕ} {α : Type}

/-- `binarySearch` over one segment: the position of the last key object whose low corner is not
above the new one, counted from the start of the segment; -1 if there is none. -/
def binarySearch (newDomain : Box d) : ℕ → List (KeyObject d α) → ℤ
  | 0, _ => -1
  | fuel + 1, es =>
    let middle := (es.length - 1) / 2
    match es.drop middle with
    | [] => -1
    | t :: upper =>
      let compResult := Point.compareWith newDomain.low t.domain.low
      if compResult < 0 then binarySearch newDomain fuel (es.take middle)
      else if compResult > 0 then middle + 1 + binarySearch newDomain fuel upper
      else middle

/-- `insertObject`. -/
def insertObject (ix : HierIndex d α) (key : KeyObject d α) : HierIndex d α :=
  let pos := binarySearch key.domain ix.getSize ix.myKeyObjects
  ix.insertObject key (pos + 1).toNat

/-- One round of the loop of `binaryRegionSearch`. -/
def visit (mint : Box d) (e : KeyObject d α) (s : Found d α) :
    Except RError (Found d α × Bool) :=
  if h : e.domain.Intersects mint then
    let area := areaSub s.1 (e.domain.inter mint h).cellCount
    .ok ((area, s.2 ++ [e]), decide (area = 0))
  else .ok (s, decide (s.1 = 0))

/-- `mint.get_high()` is lexicographically below the low corner: no key object from here on can
meet `mint`. -/
def past (mint : Box d) (e : KeyObject d α) : Bool := Point.compareWith mint.high e.domain.low < 0

/-- The high corner is lexicographically below `mint.get_origin()`. -/
def short (mint : Box d) (e : KeyObject d α) : Bool := Point.compareWith e.domain.high mint.low < 0

/-- `binaryRegionSearch` over a segment of key objects. -/
def binaryRegionSearch (mint : Box d) (es : List (KeyObject d α)) (s : Found d α) :
    Except RError (Found d α) :=
  binaryScan (past mint) (short mint) (visit mint) (fun _ => false) (fun s => 0 < s.1) es.length es s

/-- `intersect`. -/
def intersect (ix : HierIndex d α) (searchInter : Box d) : Except RError (List (KeyObject d α)) :=
  if h : searchInter.Intersects ix.myDomain then do
    let intersectArea := searchInter.inter ix.myDomain h
    let (_, found) ← binaryRegionSearch intersectArea ix.myKeyObjects (intersectArea.cellCount, [])
    .ok found
  else .ok []

/-- `binaryPointSearch` over one segment, the order point being the low corner. -/
def binaryPointSearch (pnt : Point d) : ℕ → List (KeyObject d α) → Option (KeyObject d α)
  | 0, _ => none
  | fuel + 1, es =>
    let middle := (es.length - 1) / 2
    match es.drop middle with
    | [] => none
    | t :: upper =>
      if pnt ∈ t.domain then some t
      else if Point.compareWith pnt t.domain.low < 0 then binaryPointSearch pnt fuel (es.take middle)
      else (binaryPointSearch pnt fuel upper).or (binaryPointSearch pnt fuel (es.take middle))

/-- `containPointQuery`. -/
def containPointQuery (ix : HierIndex d α) (searchPoint : Point d) : Option (KeyObject d α) :=
  binaryPointSearch searchPoint ix.getSize ix.myKeyObjects

/-- `intersectUnOpt`. -/
def intersectUnOpt (ix : HierIndex d α) (searchInter : Box d) : List (KeyObject d α) :=
  ix.myKeyObjects.filter fun e => searchInter.Intersects e.domain

/-! ## Insertion keeps the key objects sorted -/

/-- Sorted by the lexicographic order of the low corners. -/
def SortedByLow (es : List (KeyObject d α)) : Prop :=
  es.Pairwise fun a b => toLex a.domain.low ≤ toLex b.domain.low

theorem le_of_not_compareWith_neg {p q : Point d} (h : ¬ Point.compareWith q p < 0) :
    toLex p ≤ toLex q :=
  not_lt.mp fun hlt => h ((Point.compareWith_neg_iff q p).mpr hlt)

/-- **`binarySearch` splits a sorted list at the new low corner.** -/
theorem binarySearch_spec (dom : Box d) : ∀ (fuel : ℕ) (es : List (KeyObject d α)),
    es.length ≤ fuel → SortedByLow es →
      ∃ l u, es = l ++ u ∧ (l.length : ℤ) = binarySearch dom fuel es + 1 ∧
        (∀ e ∈ l, toLex e.domain.low ≤ toLex dom.low) ∧
        (∀ e ∈ u, toLex dom.low ≤ toLex e.domain.low)
  | 0, es, hlen, _ => by
    obtain rfl : es = [] := List.length_eq_zero_iff.mp (Nat.le_zero.mp hlen)
    exact ⟨[], [], by simp [binarySearch]⟩
  | fuel + 1, es, hlen, hsort => by
    rw [binarySearch]
    set m := (es.length - 1) / 2 with hm
    match hd : es.drop m with
    | [] =>
      have hnil : es = [] := by
        have := List.drop_eq_nil_iff.mp hd
        exact List.length_eq_zero_iff.mp (by omega)
      exact ⟨[], [], by simp [hnil]⟩
    | t :: upper =>
      have hes : es = es.take m ++ t :: upper := by rw [← hd, List.take_append_drop]
      have hlens : (es.take m).length = m ∧ es.length = m + 1 + upper.length := by
        have := congrArg List.length hd
        simp only [List.length_drop, List.length_cons] at this
        rw [List.length_take]
        omega
      have hsort' : SortedByLow (es.take m ++ t :: upper) := hes ▸ hsort
      obtain ⟨hsl, hsu, hcross⟩ := List.pairwise_append.mp hsort'
      obtain ⟨ht, hsu'⟩ := List.pairwise_cons.mp hsu
      -- In every case the entries left of the split are below `dom`, those right of it above.
      by_cases hlt : Point.compareWith dom.low t.domain.low < 0
      · obtain ⟨l, u, hlu, hl, hbelow, habove⟩ :=
          binarySearch_spec dom fuel (es.take m) (by omega) hsl
        have hle : toLex dom.low ≤ toLex t.domain.low := ((Point.compareWith_neg_iff _ _).mp hlt).le
        refine ⟨l, u ++ t :: upper, by rw [← List.append_assoc, ← hlu, ← hes], ?_, hbelow, ?_⟩
        · simpa only [hlt, if_true] using hl
        · intro e he
          rcases List.mem_append.mp he with he | he
          · exact habove e he
          · rcases List.mem_cons.mp he with rfl | he
            · exact hle
            · exact hle.trans (ht e he)
      · have hle : toLex t.domain.low ≤ toLex dom.low := le_of_not_compareWith_neg hlt
        have hbelow₀ : ∀ e ∈ es.take m ++ [t], toLex e.domain.low ≤ toLex dom.low := by
          intro e he
          rcases List.mem_append.mp he with he | he
          · exact (hcross e he t (List.mem_cons_self ..)).trans hle
          · obtain rfl := List.mem_singleton.mp he
            exact hle
        by_cases hgt : Point.compareWith dom.low t.domain.low > 0
        · obtain ⟨l, u, hlu, hl, hbelow, habove⟩ := binarySearch_spec dom fuel upper (by omega) hsu'
          refine ⟨es.take m ++ [t] ++ l, u, ?_, ?_, ?_, habove⟩
          · rw [List.append_assoc, ← hlu, List.append_assoc]
            exact hes
          · simp only [hlt, hgt, if_true, if_false, List.length_append, List.length_singleton,
              hlens.1]
            push_cast
            omega
          · intro e he
            rcases List.mem_append.mp he with he | he
            · exact hbelow₀ e he
            · exact hbelow e he
        · -- The corners agree; the new entry goes right after the middle one.
          have heq : dom.low = t.domain.low := (Point.compareWith_eq_zero_iff _ _).mp (by omega)
          refine ⟨es.take m ++ [t], upper, ?_, ?_, hbelow₀, ?_⟩
          · rw [List.append_assoc]
            exact hes
          · simp only [hlt, hgt, if_false, List.length_append, List.length_singleton, hlens.1]
            push_cast
            rfl
          · exact fun e he => heq ▸ ht e he

/-- The key objects after an insertion: the new one in a position that keeps the list sorted. -/
theorem insertObject_split (ix : HierIndex d α) (key : KeyObject d α)
    (hsort : SortedByLow ix.myKeyObjects) :
    ∃ l u, ix.myKeyObjects = l ++ u ∧ (insertObject ix key).myKeyObjects = l ++ key :: u ∧
      (∀ e ∈ l, toLex e.domain.low ≤ toLex key.domain.low) ∧
      (∀ e ∈ u, toLex key.domain.low ≤ toLex e.domain.low) := by
  obtain ⟨l, u, hlu, hl, hbelow, habove⟩ :=
    binarySearch_spec key.domain ix.getSize ix.myKeyObjects le_rfl hsort
  refine ⟨l, u, hlu, ?_, hbelow, habove⟩
  have hpos : (binarySearch key.domain ix.getSize ix.myKeyObjects + 1).toNat = l.length := by omega
  simp only [insertObject, HierIndex.insertObject, hpos]
  rw [hlu, List.take_left, List.drop_left]

theorem insertObject_perm (ix : HierIndex d α) (key : KeyObject d α)
    (hsort : SortedByLow ix.myKeyObjects) :
    (insertObject ix key).myKeyObjects.Perm (key :: ix.myKeyObjects) := by
  obtain ⟨l, u, hlu, heq, -, -⟩ := insertObject_split ix key hsort
  rw [heq, hlu]
  exact List.perm_middle

/-- **Insertion keeps the key objects sorted by their low corners.** -/
theorem insertObject_sorted (ix : HierIndex d α) (key : KeyObject d α)
    (hsort : SortedByLow ix.myKeyObjects) : SortedByLow (insertObject ix key).myKeyObjects := by
  obtain ⟨l, u, hlu, heq, hbelow, habove⟩ := insertObject_split ix key hsort
  rw [hlu] at hsort
  obtain ⟨hl, hu, hcross⟩ := List.pairwise_append.mp hsort
  rw [heq, SortedByLow, List.pairwise_append]
  refine ⟨hl, List.pairwise_cons.mpr ⟨habove, hu⟩, fun a ha b hb => ?_⟩
  rcases List.mem_cons.mp hb with rfl | hb
  · exact hbelow a ha
  · exact hcross a ha b hb

theorem insertObject_myDomain (ix : HierIndex d α) (key : KeyObject d α) :
    (insertObject ix key).myDomain
      = if ix.myKeyObjects.isEmpty then key.domain else ix.myDomain.closureWith key.domain := rfl

/-! ## The region search is exact -/

theorem past_upward {mint : Box d} {es : List (KeyObject d α)} (hsort : SortedByLow es) :
    es.Pairwise fun a b => past mint a = true → past mint b = true := by
  refine hsort.imp fun {a b} hab hp => ?_
  simp only [past, decide_eq_true_eq, Point.compareWith_neg_iff] at hp ⊢
  exact hp.trans_le hab

/-- A pruned key object cannot meet the search box: the corners of meeting boxes are ordered
coordinatewise, hence lexicographically. -/
theorem not_intersects_of_pruned {mint : Box d} {e : KeyObject d α}
    (h : past mint e = true ∨ short mint e = true) : ¬ e.domain.Intersects mint := by
  intro hi
  simp only [past, short, decide_eq_true_eq, Point.compareWith_neg_iff] at h
  rcases h with h | h
  · exact absurd (Pi.toLex_monotone fun i => (hi i).1) h.not_ge
  · exact absurd (Pi.toLex_monotone fun i => (hi i).2) h.not_ge

theorem budgeted_visit (mint : Box d) (hmint : mint.cells.card < areaModulus) :
    Budgeted (fun _ => True) (fun e : KeyObject d α => decide (e.domain.Intersects mint))
      (fun e => overlap e.domain mint) areaModulus (visit mint) where
  pos := fun e _ he => overlap_pos (of_decide_eq_true he)
  onHit := fun e a out _ he ha hw => by
    have hi : e.domain.Intersects mint := of_decide_eq_true he
    have hcov : (e.domain.inter mint hi).cells.card < areaModulus :=
      lt_of_le_of_lt (Finset.card_le_card fun p hp =>
        Box.mem_cells.mpr (Box.mem_inter.mp (Box.mem_cells.mp hp)).2) hmint
    have hcount : (e.domain.inter mint hi).cellCount = overlap e.domain mint := by
      rw [Box.cellCount_eq_card hcov, Box.cells_inter, overlap]
    simp only [visit, hi, dif_pos, hcount, areaSub_eq ha hw]
  onMiss := fun e a out he ha => by
    have hi : ¬ e.domain.Intersects mint := of_decide_eq_false he
    simp [visit, hi, ha.ne']

/-- **`intersect` finds exactly the key objects that meet the search box**, if they are disjoint and
the area to search fits the area counter. -/
theorem intersect_perm (ix : HierIndex d α) (q : Box d) (hsort : SortedByLow ix.myKeyObjects)
    (hdisj : ix.myKeyObjects.Pairwise fun a b => ¬ a.domain.Intersects b.domain)
    (hcov : ∀ e ∈ ix.myKeyObjects, ix.myDomain.Covers e.domain)
    (hq : overlap ix.myDomain q < areaModulus) :
    ∃ found, intersect ix q = .ok found ∧
      found.Perm (ix.myKeyObjects.filter fun e => e.domain.Intersects q) := by
  by_cases h : q.Intersects ix.myDomain
  · set mint := q.inter ix.myDomain h with hmint
    have hcard : mint.cells.card < areaModulus := by
      rw [hmint, Box.cells_inter, Finset.inter_comm]
      exact hq
    have hcost : cost (fun e : KeyObject d α => decide (e.domain.Intersects mint))
        (fun e => overlap e.domain mint) ix.myKeyObjects ≤ mint.cells.card :=
      sum_overlap_le (fun e : KeyObject d α => e.domain) mint _ (hdisj.filter _)
    obtain ⟨found, hperm, heq⟩ := binaryScan_budget (budgeted_visit mint hcard)
      (fun _ => false) (fun s => 0 < s.1) (fun _ _ _ => rfl) (fun _ _ => rfl)
      ix.myKeyObjects.length ix.myKeyObjects mint.cells.card [] le_rfl (fun _ _ => trivial) (past_upward hsort)
      (fun e _ hp => decide_eq_false (not_intersects_of_pruned hp)) mint.card_cells_pos hcard hcost
    refine ⟨found, ?_, hperm.trans (List.Perm.of_eq (List.filter_congr fun e he => ?_))⟩
    · have hrun := heq
      rw [← Box.cellCount_eq_card hcard, ← binaryRegionSearch] at hrun
      simp only [intersect, dif_pos h, ← hmint, hrun]
      rfl
    · -- Inside the node's domain, meeting `q` and meeting `q` cut to that domain are the same.
      refine decide_eq_decide.mpr ⟨fun hi => ?_, fun hi => ?_⟩
      · obtain ⟨p, hpe, hpm⟩ := Box.intersects_iff.mp hi
        exact .of_mem hpe (Box.mem_inter.mp hpm).1
      · obtain ⟨p, hpe, hpq⟩ := Box.intersects_iff.mp hi
        exact .of_mem hpe (Box.mem_inter.mpr ⟨hpq, Box.covers_iff.mp (hcov e he) p hpe⟩)
  · refine ⟨[], by rw [intersect, dif_neg h], ?_⟩
    have hnil : (ix.myKeyObjects.filter fun e => decide (e.domain.Intersects q)) = [] := by
      refine List.filter_eq_nil_iff.mpr fun e he hi => h ?_
      obtain ⟨p, hpe, hpq⟩ := Box.intersects_iff.mp (of_decide_eq_true hi)
      exact .of_mem hpq (Box.covers_iff.mp (hcov e he) p hpe)
    rw [hnil]

/-! ## When the area counter wraps -/

/-- The visits of `binaryRegionSearch`, and its tests of the area between two halves, in the order of a
search that is never stopped. -/
def searchOrder (mint : Box d) (es : List (KeyObject d α)) : List (Option (KeyObject d α)) :=
  visits (past mint) (short mint) es.length es

/-- The search of `mint` among the key objects keeps counting: going through them in `searchOrder`,
the cells found never agree modulo `2^64` with those of `mint` while a key object that meets it is
left. -/
def AreaLasts (mint : Box d) (es : List (KeyObject d α)) : Prop :=
  Lasts (fun e : KeyObject d α => decide (e.domain.Intersects mint))
    (fun e => overlap e.domain mint) areaModulus mint.cells.card (searchOrder mint es)

theorem areaSub_modEq (area n : ℕ) : areaSub area n + n ≡ area [MOD areaModulus] := by
  have hle := (Nat.mod_lt n (show 0 < areaModulus by decide)).le
  calc areaSub area n + n
      ≡ area + (areaModulus - n % areaModulus) + n % areaModulus [MOD areaModulus] :=
        (Nat.mod_modEq _ _).add (Nat.mod_modEq _ _).symm
    _ ≡ area + areaModulus [MOD areaModulus] := by
        rw [Nat.add_assoc, Nat.sub_add_cancel hle]
    _ ≡ area [MOD areaModulus] := Nat.add_modEq_right

theorem wrapping_visit (mint : Box d) :
    Wrapping (fun e : KeyObject d α => decide (e.domain.Intersects mint))
      (fun e => overlap e.domain mint) areaModulus
      (visitOrTest (visit mint) fun s => decide (0 < s.1)) where
  onHit := fun e a out he ha => by
    have hi : e.domain.Intersects mint := of_decide_eq_true he
    have hcount : (e.domain.inter mint hi).cellCount ≡ overlap e.domain mint [MOD areaModulus] := by
      rw [Box.cellCount_eq, Box.cells_inter, overlap]
      exact Nat.mod_modEq _ _
    refine ⟨areaSub a (e.domain.inter mint hi).cellCount, Nat.mod_lt _ (by decide),
      (hcount.symm.add_left _).trans (areaSub_modEq _ _), ?_⟩
    simp only [visitOrTest, visit, hi, dif_pos]
  onMiss := fun e a out he => by
    have hi : ¬ e.domain.Intersects mint := of_decide_eq_false he
    simp [visitOrTest, visit, hi]
  onTest := fun a out => by simp [visitOrTest, Nat.pos_iff_ne_zero]

/-- A visit that stops leaves no area. -/
theorem no_area_of_stop {mint : Box d} {e : KeyObject d α} {s s' : Found d α}
    (h : visit mint e s = .ok (s', true)) : decide (0 < s'.1) = false := by
  rw [visit] at h
  split at h
  · obtain ⟨rfl, hstop⟩ := Prod.mk.inj (Except.ok.inj h)
    simpa using hstop
  · obtain ⟨rfl, hstop⟩ := Prod.mk.inj (Except.ok.inj h)
    simpa using hstop

/-- Inside a domain that covers the key objects, meeting a box and meeting it cut to the domain are the
same. -/
theorem intersectUnOpt_eq {ix : HierIndex d α} {q : Box d}
    (hcov : ∀ e ∈ ix.myKeyObjects, ix.myDomain.Covers e.domain) (hq : q.Intersects ix.myDomain) :
    intersectUnOpt ix q =
      ix.myKeyObjects.filter fun e => e.domain.Intersects (q.inter ix.myDomain hq) := by
  refine List.filter_congr fun e he => decide_eq_decide.mpr ⟨fun hi => ?_, fun hi => ?_⟩
  · obtain ⟨p, hpq, hpe⟩ := Box.intersects_iff.mp hi
    exact .of_mem hpe (Box.mem_inter.mpr ⟨hpq, Box.covers_iff.mp (hcov e he) p hpe⟩)
  · obtain ⟨p, hpe, hpm⟩ := Box.intersects_iff.mp hi
    exact .of_mem (Box.mem_inter.mp hpm).1 hpe

theorem searchOrder_perm (mint : Box d) {es : List (KeyObject d α)} (hsort : SortedByLow es) :
    ((searchOrder mint es).reduceOption.filter fun e => decide (e.domain.Intersects mint)).Perm
      (es.filter fun e => decide (e.domain.Intersects mint)) :=
  visits_perm es.length es le_rfl (past_upward hsort)
    fun _ _ hp => decide_eq_false (not_intersects_of_pruned hp)

theorem binaryRegionSearch_eq_scan (mint : Box d) (es : List (KeyObject d α)) (s : Found d α) :
    binaryRegionSearch mint es s =
      (scan (visitOrTest (visit mint) fun s => decide (0 < s.1)) (searchOrder mint es) s >>=
        fun r => .ok r.1) :=
  binaryScan_eq_scan (fun _ _ _ h => no_area_of_stop h) es.length es s

/-- **`intersect` returns what the plain scan returns exactly when the area lasts.** -/
theorem intersect_perm_unOpt_iff (ix : HierIndex d α) (q : Box d)
    (hsort : SortedByLow ix.myKeyObjects)
    (hcov : ∀ e ∈ ix.myKeyObjects, ix.myDomain.Covers e.domain) (hq : q.Intersects ix.myDomain) :
    (∃ found, intersect ix q = .ok found ∧ found.Perm (intersectUnOpt ix q)) ↔
      AreaLasts (q.inter ix.myDomain hq) ix.myKeyObjects := by
  rw [intersectUnOpt_eq hcov hq]
  set mint := q.inter ix.myDomain hq with hmint
  have hperm := searchOrder_perm mint hsort
  have harea : mint.cellCount < areaModulus := by
    rw [Box.cellCount_eq]
    exact Nat.mod_lt _ (by decide)
  have hcells : mint.cellCount ≡ mint.cells.card [MOD areaModulus] := by
    rw [Box.cellCount_eq]
    exact Nat.mod_modEq _ _
  rw [AreaLasts, ← scan_wrapping_iff (wrapping_visit mint) _ harea hcells]
  simp only [intersect, dif_pos hq, ← hmint, binaryRegionSearch_eq_scan]
  cases scan (visitOrTest (visit mint) fun s => decide (0 < s.1)) (searchOrder mint ix.myKeyObjects)
      (mint.cellCount, []) with
  | error e =>
    constructor
    · rintro ⟨_, h, -⟩
      cases h
    · rintro ⟨_, h, -⟩
      cases h
  | ok r =>
    constructor
    · rintro ⟨found, hok, hfound⟩
      obtain rfl := Except.ok.inj hok
      exact ⟨r, rfl, hfound.trans hperm.symm⟩
    · rintro ⟨r', hok, hfound⟩
      obtain rfl := Except.ok.inj hok
      exact ⟨_, rfl, hfound.trans hperm⟩

/-- One cell. -/
def cellAt (x y : ℤ) : Box 2 := ⟨![x, y], ![x, y], fun _ => le_rfl⟩

/-- All the cells with coordinates of 32 bits. -/
def square : Box 2 := ⟨![0, 0], ![2 ^ 32 - 1, 2 ^ 32 - 1], by decide⟩

/-- A node with three tiles of one cell; the second one is below the square. -/
def cellsNode : HierIndex 2 OId :=
  ⟨1, ⟨![0, -1], ![2 ^ 32 - 1, 2 ^ 32 - 1], by decide⟩,
    [⟨2, cellAt 0 0⟩, ⟨3, cellAt 5 (-1)⟩, ⟨4, cellAt (2 ^ 32 - 1) (2 ^ 32 - 1)⟩]⟩

theorem sortedByLow_cellsNode : SortedByLow cellsNode.myKeyObjects := by
  have h : cellsNode.myKeyObjects.Pairwise
      fun a b => ¬ Point.compareWith b.domain.low a.domain.low < 0 := by decide
  exact h.imp le_of_not_compareWith_neg

/-- The square has no cells modulo `2^64`, so that the search ends at the second tile and finds none. -/
theorem intersect_stops_early :
    SortedByLow cellsNode.myKeyObjects ∧
      (cellsNode.myKeyObjects.Pairwise fun a b => ¬ a.domain.Intersects b.domain) ∧
      (∀ e ∈ cellsNode.myKeyObjects, cellsNode.myDomain.Covers e.domain) ∧
      square.Intersects cellsNode.myDomain ∧
      ¬ ∃ found, intersect cellsNode square = .ok found ∧
        found.Perm (intersectUnOpt cellsNode square) := by
  refine ⟨sortedByLow_cellsNode, by decide, by decide, by decide, ?_⟩
  rintro ⟨found, hok, hperm⟩
  have hfound : (intersect cellsNode square).toOption.map List.length = some 0 := by decide +kernel
  have hall : (intersectUnOpt cellsNode square).length = 2 := by decide +kernel
  rw [hok] at hfound
  have hnone : found.length = 0 := Option.some.inj hfound
  have := hperm.length_eq
  omega

/-- The area lasts where the key objects are disjoint and the area fits in `r_Area`. -/
theorem areaLasts_of_lt {mint : Box d} {es : List (KeyObject d α)} (hsort : SortedByLow es)
    (hdisj : es.Pairwise fun a b => ¬ a.domain.Intersects b.domain)
    (h : mint.cells.card < areaModulus) : AreaLasts mint es := by
  refine lasts_of_lt (fun e he => overlap_pos (of_decide_eq_true he)) h ?_
  rw [cost, ((searchOrder_perm mint hsort).map _).sum_eq]
  exact sum_overlap_le (fun e : KeyObject d α => e.domain) mint _ (hdisj.filter _)

/-- A smaller box is searched to its end, and two of the three tiles are found. -/
theorem intersect_perm_unOpt_cells :
    ∃ found, intersect cellsNode ⟨![0, -1], ![9, 9], by decide⟩ = .ok found ∧
      found.Perm (intersectUnOpt cellsNode ⟨![0, -1], ![9, 9], by decide⟩) := by
  refine (intersect_perm_unOpt_iff _ _ sortedByLow_cellsNode (by decide) (by decide)).mpr ?_
  refine areaLasts_of_lt sortedByLow_cellsNode (by decide) ?_
  rw [Box.card_cells]
  decide

/-! ## The point search is exact -/

/-- What a point search must answer. -/
def PointAnswer (es : List (KeyObject d α)) (p : Point d) (r : Option (KeyObject d α)) : Prop :=
  (∀ e, r = some e → e ∈ es ∧ p ∈ e.domain) ∧ (r = none → ∀ e ∈ es, p ∉ e.domain)

theorem binaryPointSearch_spec (p : Point d) : ∀ (fuel : ℕ) (es : List (KeyObject d α)),
    es.length ≤ fuel → SortedByLow es → PointAnswer es p (binaryPointSearch p fuel es)
  | 0, es, hlen, _ => by
    obtain rfl : es = [] := List.length_eq_zero_iff.mp (Nat.le_zero.mp hlen)
    exact ⟨by simp [binaryPointSearch], by simp⟩
  | fuel + 1, es, hlen, hsort => by
    rw [binaryPointSearch]
    set m := (es.length - 1) / 2 with hm
    match hd : es.drop m with
    | [] =>
      have hnil : es = [] := by
        have := List.drop_eq_nil_iff.mp hd
        exact List.length_eq_zero_iff.mp (by omega)
      exact ⟨by simp, by simp [hnil]⟩
    | t :: upper =>
      have hes : es = es.take m ++ t :: upper := by rw [← hd, List.take_append_drop]
      have hlens : (es.take m).length = m ∧ es.length = m + 1 + upper.length := by
        have := congrArg List.length hd
        simp only [List.length_drop, List.length_cons] at this
        rw [List.length_take]
        omega
      have hmem : ∀ e, e ∈ es ↔ e ∈ es.take m ∨ e = t ∨ e ∈ upper := fun e => by
        conv_lhs => rw [hes]
        rw [List.mem_append, List.mem_cons]
      have hsort' : SortedByLow (es.take m ++ t :: upper) := hes ▸ hsort
      obtain ⟨hsl, hsu, -⟩ := List.pairwise_append.mp hsort'
      obtain ⟨ht, hsu'⟩ := List.pairwise_cons.mp hsu
      obtain ⟨hlow, hlow'⟩ := binaryPointSearch_spec p fuel (es.take m) (by omega) hsl
      obtain ⟨hup, hup'⟩ := binaryPointSearch_spec p fuel upper (by omega) hsu'
      dsimp only
      split
      · next hp => exact ⟨fun e he => by cases he; exact ⟨(hmem t).mpr (by simp), hp⟩, by simp⟩
      · next hp =>
        split
        · -- A box that holds the point has its low corner lexicographically below it.
          next hlt =>
          have habove : ∀ e, e = t ∨ e ∈ upper → p ∉ e.domain := fun e he hpe => by
            have hle : toLex t.domain.low ≤ toLex e.domain.low :=
              he.elim (fun he => he ▸ le_rfl) (ht e)
            have hlow : toLex e.domain.low ≤ toLex p := Pi.toLex_monotone fun i => (hpe i).1
            exact absurd ((Point.compareWith_neg_iff _ _).mp hlt) (hle.trans hlow).not_gt
          refine ⟨fun e he => ?_, fun hnone e he => ?_⟩
          · exact ⟨(hmem e).mpr (Or.inl (hlow e he).1), (hlow e he).2⟩
          · exact ((hmem e).mp he).elim (hlow' hnone e) (habove e)
        · refine ⟨fun e he => ?_, fun hnone e he => ?_⟩
          · rcases Option.or_eq_some_iff.mp he with he | ⟨-, he⟩
            · exact ⟨(hmem e).mpr (Or.inr (Or.inr (hup e he).1)), (hup e he).2⟩
            · exact ⟨(hmem e).mpr (Or.inl (hlow e he).1), (hlow e he).2⟩
          · obtain ⟨h₁, h₂⟩ := Option.or_eq_none_iff.mp hnone
            rcases (hmem e).mp he with he | rfl | he
            · exact hlow' h₂ e he
            · exact hp
            · exact hup' h₁ e he

/-- **`containPointQuery` finds a key object that holds the point if there is one.** -/
theorem containPointQuery_spec (ix : HierIndex d α) (hsort : SortedByLow ix.myKeyObjects)
    (p : Point d) : PointAnswer ix.myKeyObjects p (containPointQuery ix p) :=
  binaryPointSearch_spec p _ _ le_rfl hsort

end SDirIndexLogic

end Rasdaman
