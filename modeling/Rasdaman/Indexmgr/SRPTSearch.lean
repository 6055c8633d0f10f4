import Mathlib
import Rasdaman.Indexmgr.SRPTRun

/-!
# Indexmgr/SRPTSearch — the R+-tree search is exact

A tile is stored in every leaf it meets, yet a search reports it once: `intersectNoDuplicates`
accepts it only in the leaf that contains the lower corner of its part inside the search box
(`intersectNoDuplicates_iff_corner`).  The leaves tile the root's domain, so there is exactly one.

The search also stops as soon as the cells found use up the area of the search box.  The tiles are
disjoint, so this never happens while a tile is still to be found, provided the area itself was
counted right, that is, is below `2^64`.
-/

namespace Rasdaman

open BinaryScan SDirIndexLogic SRPTIndexLogic

variable {d : ℕ} {α : Type} {mint dom e : Box d}

/-- The lower corner of the part of a box inside a search box. -/
def corner (mint e : Box d) : Point d := fun i => max (e.low i) (mint.low i)

theorem corner_mem (h : e.Intersects mint) : corner mint e ∈ e ∧ corner mint e ∈ mint := by
  refine ⟨fun i => ?_, fun i => ?_⟩ <;>
  · have := h i
    have := e.low_le_high i
    have := mint.low_le_high i
    simp only [corner]
    omega

theorem intersectNoDuplicates_iff : intersectNoDuplicates mint e dom = true ↔
    e.Intersects mint ∧ ∀ i, ¬ (e.low i < dom.low i ∧ mint.low i < dom.low i) := by
  simp only [intersectNoDuplicates, List.all_eq_true, List.mem_finRange, true_implies,
    Bool.and_eq_true, Bool.not_eq_true', decide_eq_false_iff_not, Bool.and_eq_false_iff, Box.Intersects,
    ← forall_and]
  exact forall_congr' fun i => by omega

/-- **A tile is accepted in the leaf that has its lower corner**, and in no other. -/
theorem intersectNoDuplicates_iff_corner (hm : mint.Intersects dom) (he : e.Intersects dom) :
    intersectNoDuplicates mint e dom = true ↔ e.Intersects mint ∧ corner mint e ∈ dom := by
  rw [intersectNoDuplicates_iff, Box.mem_def]
  refine and_congr_right fun _ => forall_congr' fun i => ?_
  have := hm i
  have := he i
  simp only [corner]
  omega

/-- Inside a covering domain every box that meets the search box is accepted. -/
theorem intersectNoDuplicates_of_covers (h : dom.Covers e) :
    intersectNoDuplicates mint e dom = true ↔ e.Intersects mint := by
  rw [intersectNoDuplicates_iff, and_iff_left_iff_imp]
  intro _ i
  have := h i
  omega

/-! ## Counting cells -/

theorem overlap_inter (hi : mint.Intersects dom) (e : Box d) :
    overlap e (mint.inter dom hi) = (e.cells ∩ mint.cells ∩ dom.cells).card := by
  rw [overlap, Box.cells_inter, Finset.inter_assoc]

theorem overlap_inter_le (hi : mint.Intersects dom) : (mint.inter dom hi).cells.card = overlap dom mint := by
  rw [Box.cells_inter, overlap, Finset.inter_comm]

theorem overlap_inter_of_covers (hi : mint.Intersects dom) (hc : dom.Covers e) :
    overlap e (mint.inter dom hi) = overlap e mint := by
  rw [overlap_inter, overlap]
  congr 1
  refine Finset.inter_eq_left.mpr fun p hp => Box.mem_cells.mpr ?_
  exact Box.covers_iff.mp hc p (Box.mem_cells.mp (Finset.mem_inter.mp hp).1)

/-- The boxes that meet the same domain and search box share cells with both. -/
theorem intersects_inter (hi : mint.Intersects dom) (hd : e.Intersects dom) (hm : e.Intersects mint) :
    e.Intersects (mint.inter dom hi) := fun i => by
  have := hi i
  have := hd i
  have := hm i
  simp only [Box.inter]
  omega

theorem budgeted_srpt_visit (hi : mint.Intersects dom) :
    Budgeted (fun e : KeyObject d α => e.domain.Intersects dom)
      (fun e => intersectNoDuplicates mint e.domain dom)
      (fun e => overlap e.domain (mint.inter dom hi)) areaModulus (SRPTIndexLogic.visit mint dom) where
  pos := fun e hd hh => overlap_pos (intersects_inter hi hd (intersectNoDuplicates_iff.mp hh).1)
  onHit := fun e a out hd hh ha hw => by
    have hm := (intersectNoDuplicates_iff.mp hh).1
    have hmd : (e.domain.inter mint hm).Intersects dom := fun i => by
      have := intersects_inter hi hd hm i
      have := hm i
      have := hd i
      have := hi i
      simp only [Box.inter]
      omega
    have hcells : ((e.domain.inter mint hm).inter dom hmd).cells.card
        = overlap e.domain (mint.inter dom hi) := by
      rw [overlap_inter, Box.cells_inter, Box.cells_inter]
    have hcount : ((e.domain.inter mint hm).inter dom hmd).cellCount
        = overlap e.domain (mint.inter dom hi) := by
      rw [Box.cellCount_eq_card (hcells ▸ hw.trans_lt ha), hcells]
    have hle : ¬ a - overlap e.domain (mint.inter dom hi) > a := by omega
    simp only [SRPTIndexLogic.visit, hh, if_true, Box.createIntersection, dif_pos hm, dif_pos hmd,
      bind, Except.bind, hcount, areaSub_eq ha hw, if_neg hle]
  onMiss := fun e a out hh _ => by simp [SRPTIndexLogic.visit, hh]

/-- **`binaryRegionSearch` finds the accepted entries** if the area suffices for all of them. -/
theorem binaryRegionSearch_spec (hi : mint.Intersects dom) {es : List (KeyObject d α)} {a : ℕ}
    (out : List (KeyObject d α)) (hsort : SortedByLow es)
    (hdisj : es.Pairwise fun a b => ¬ a.domain.Intersects b.domain)
    (hmeet : ∀ e ∈ es, e.domain.Intersects dom) (ha : a < areaModulus)
    (harea : overlap dom mint ≤ a) :
    ∃ found c, c ≤ overlap dom mint ∧
      SRPTIndexLogic.binaryRegionSearch mint dom es (a, out) = .ok (a - c, out ++ found) ∧
      found.Perm (es.filter fun e => intersectNoDuplicates mint e.domain dom) := by
  have hcost : cost (fun e : KeyObject d α => intersectNoDuplicates mint e.domain dom)
      (fun e => overlap e.domain (mint.inter dom hi)) es ≤ overlap dom mint := by
    rw [← overlap_inter_le hi]
    exact sum_overlap_le (fun e : KeyObject d α => e.domain) _ _ (hdisj.filter _)
  have hpos : 0 < a := (overlap_pos hi.symm).trans_le harea
  obtain ⟨found, hperm, heq⟩ := binaryScan_budget (budgeted_srpt_visit hi)
    (fun s => s.1 == 0) (fun s => decide (0 < s.1)) (fun b _ hb => by simp [hb.ne']) (fun _ _ => rfl)
    es.length es a out le_rfl hmeet (past_upward hsort) (fun e _ hp => by
      rw [← Bool.not_eq_true, intersectNoDuplicates_iff]
      exact fun hacc => not_intersects_of_pruned hp hacc.1)
    hpos ha (hcost.trans harea)
  exact ⟨found, _, hcost, heq, hperm⟩

/-! ## One leaf reports each tile -/

variable {S : List (KeyObject d OId)} {next : OId}

/-- The stored tiles that meet the search box with their corner in a domain. -/
def cornerTiles (S : List (KeyObject d OId)) (mint dom : Box d) : List (KeyObject d OId) :=
  S.filter fun k => decide (k.domain.Intersects mint) && decide (corner mint k.domain ∈ dom)

theorem cornerTiles_eq_nil (h : ¬ mint.Intersects dom) : cornerTiles S mint dom = [] := by
  refine List.filter_eq_nil_iff.mpr fun k _ hk => h ?_
  simp only [Bool.and_eq_true, decide_eq_true_eq] at hk
  exact .of_mem (corner_mem hk.1).2 hk.2

/-- Splitting a list by which tile of a region a point of each element lies in. -/
theorem flatMap_filter_perm {β : Type} (S : List β) (Q : β → Bool) (c : β → Point d) :
    ∀ {R : Set (Point d)} {bs : List (Box d)} {r : Point d → Bool}, Tiles R bs →
      (∀ p, r p = true ↔ p ∈ R) →
      (bs.flatMap fun b => S.filter fun k => Q k && decide (c k ∈ b)).Perm
        (S.filter fun k => Q k && r (c k))
  | R, [], r, ht, hr => by
    have hnil : (S.filter fun k => Q k && r (c k)) = [] := by
      refine List.filter_eq_nil_iff.mpr fun k _ hk => ?_
      simp only [Bool.and_eq_true, hr, ht.mem_iff] at hk
      simp at hk
    rw [hnil]
    exact .nil
  | R, b :: bs, r, ht, hr => by
    have ih := flatMap_filter_perm S Q c (r := fun p => r p && !decide (p ∈ b)) ht.tail fun p => by
      simp [hr]
    have hsub : ∀ p, decide (p ∈ b) = true → r p = true := fun p hp =>
      (hr p).mpr (ht.mem_of_mem (List.mem_cons_self ..) (of_decide_eq_true hp))
    rw [List.flatMap_cons]
    refine (ih.append_left _).trans ?_
    refine .trans (.of_eq ?_)
      (List.filter_append_perm (fun k => decide (c k ∈ b)) (S.filter fun k => Q k && r (c k)))
    rw [List.filter_filter, List.filter_filter]
    congr 1
    · refine List.filter_congr fun k _ => ?_
      have := hsub (c k)
      cases hb : decide (c k ∈ b) <;> simp_all
    · refine List.filter_congr fun k _ => ?_
      cases Q k <;> cases r (c k) <;> cases decide (c k ∈ b) <;> rfl

/-- **The children of a node share out its tiles.** -/
theorem cornerTiles_perm {bs : List (Box d)} (ht : Tiles dom.region bs) :
    (bs.flatMap fun b => cornerTiles S mint b).Perm (cornerTiles S mint dom) :=
  flatMap_filter_perm S (fun k => decide (k.domain.Intersects mint)) (fun k => corner mint k.domain)
    (r := fun p => decide (p ∈ dom)) ht fun p => by simp

/-- What a search of one index must deliver. -/
def SearchOk (S : List (KeyObject d OId)) (mint : Box d) (dom : Box d) (s : Found d OId)
    (r : Except RError (Found d OId)) : Prop :=
  ∃ found c, c ≤ overlap dom mint ∧ r = .ok (s.1 - c, s.2 ++ found) ∧
    found.Perm (cornerTiles S mint dom)

/-- The loop of `intersect` over the children found. -/
theorem searchChildren {h : ℕ} {limit nodeArea : ℕ} (hlimit : ¬ nodeArea > limit) :
    ∀ (nodes : List (KeyObject d (Tree d h))) (s : Found d OId),
      (∀ n ∈ nodes, ∀ s : Found d OId, s.1 < areaModulus → overlap n.domain mint ≤ s.1 →
        SearchOk S mint n.domain s (SRPTIndexLogic.intersect mint h n.object n.domain s)) →
      s.1 < areaModulus → (nodes.map fun n => overlap n.domain mint).sum ≤ s.1 →
      ∃ found c, c ≤ (nodes.map fun n => overlap n.domain mint).sum ∧
        nodes.foldlM (fun s' node => if nodeArea > limit then .error .indexExhaustedArea
          else SRPTIndexLogic.intersect mint h node.object node.domain s') s
            = (.ok (s.1 - c, s.2 ++ found) : Except RError (Found d OId)) ∧
        found.Perm (nodes.flatMap fun n => cornerTiles S mint n.domain)
  | [], s, _, _, _ => ⟨[], 0, le_rfl, by simp [pure, Except.pure], .nil⟩
  | n :: nodes, s, hn, ha, hsum => by
    rw [List.map_cons, List.sum_cons] at hsum
    obtain ⟨found₁, c₁, hc₁, hrun₁, hperm₁⟩ := hn n (List.mem_cons_self ..) s ha (by omega)
    obtain ⟨found₂, c₂, hc₂, hrun₂, hperm₂⟩ := searchChildren hlimit nodes (s.1 - c₁, s.2 ++ found₁)
      (fun n' hn' => hn n' (List.mem_cons_of_mem _ hn')) (lt_of_le_of_lt (Nat.sub_le ..) ha)
      (by simp only; omega)
    refine ⟨found₁ ++ found₂, c₁ + c₂, ?_, ?_, ?_⟩
    · rw [List.map_cons, List.sum_cons]
      omega
    · rw [List.foldlM_cons, if_neg hlimit, hrun₁]
      simp only [bind, Except.bind]
      rw [hrun₂, Nat.sub_sub, List.append_assoc]
    · rw [List.flatMap_cons]
      exact hperm₁.append hperm₂

theorem sum_overlap_children (hi : mint.Intersects dom) {es : List (KeyObject d α)}
    (hdisj : es.Pairwise fun a b => ¬ a.domain.Intersects b.domain)
    (hcov : ∀ e ∈ es, dom.Covers e.domain) :
    (es.map fun e => overlap e.domain mint).sum ≤ overlap dom mint := by
  have hmap : (es.map fun e => overlap e.domain mint)
      = es.map fun e => overlap e.domain (mint.inter dom hi) :=
    List.map_congr_left fun e he => (overlap_inter_of_covers hi (hcov e he)).symm
  rw [hmap, ← overlap_inter_le hi]
  exact sum_overlap_le (fun e : KeyObject d α => e.domain) _ _ hdisj

/-- **`intersect` reports the tiles whose corner lies in the index**, each once. -/
theorem intersect_ok (mint : Box d) (hdisj : S.Pairwise fun a b => ¬ a.domain.Intersects b.domain) :
    ∀ {h : ℕ} {ix : Tree d h} {s : Found d OId}, WellFormed S next h ix → s.1 < areaModulus →
      overlap ix.myDomain mint ≤ s.1 →
      SearchOk S mint ix.myDomain s (SRPTIndexLogic.intersect mint h ix ix.myDomain s)
  | 0, ix, s, hwf, ha, harea => by
    by_cases hi : mint.Intersects ix.myDomain
    · have hboth : (mint.inter ix.myDomain hi).Intersects ix.myDomain :=
        .of_mem (mint.inter ix.myDomain hi).low_mem (Box.mem_inter.mp (Box.low_mem _)).2
      have hmeet : ∀ k ∈ ix.myKeyObjects, k.domain.Intersects ix.myDomain := fun k hk => by
        simpa using (List.mem_filter.mp (hwf.2.mem_iff.mp hk)).2
      have hleaf : ix.myKeyObjects.Pairwise fun a b => ¬ a.domain.Intersects b.domain :=
        (hdisj.filter _).perm hwf.2.symm fun hn hi => hn hi.symm
      obtain ⟨found, c, hc, hrun, hperm⟩ :=
        binaryRegionSearch_spec hi s.2 hwf.1 hleaf hmeet ha harea
      refine ⟨found, c, hc, ?_, hperm.trans ((hwf.2.filter _).trans (.of_eq ?_))⟩
      · rw [SRPTIndexLogic.intersect, dif_pos hi, if_pos hboth]
        exact hrun
      · rw [List.filter_filter, cornerTiles]
        refine List.filter_congr fun k _ => ?_
        by_cases hk : k.domain.Intersects ix.myDomain
        · rw [Bool.eq_iff_iff]
          simp [hk, intersectNoDuplicates_iff_corner hi hk]
        · have hout : k.domain.Intersects mint → corner mint k.domain ∉ ix.myDomain :=
            fun hm hc => hk (.of_mem (corner_mem hm).1 hc)
          by_cases hm : k.domain.Intersects mint
          · simp [hk, hout hm]
          · simp [hk, hm]
    · refine ⟨[], 0, Nat.zero_le _, ?_, ?_⟩
      · rw [SRPTIndexLogic.intersect, dif_neg hi]
        simp
      · rw [cornerTiles_eq_nil hi]
  | h + 1, ix, s, hwf, ha, harea => by
    by_cases hi : mint.Intersects ix.myDomain
    · have hcov : ∀ e ∈ ix.myKeyObjects, ix.myDomain.Covers e.domain := fun e he =>
        hwf.2.tiles.covers (List.mem_map_of_mem he)
      have hmeet : ∀ e ∈ ix.myKeyObjects, e.domain.Intersects ix.myDomain := fun e he =>
        .of_mem e.domain.low_mem (Box.covers_iff.mp (hcov e he) _ e.domain.low_mem)
      obtain ⟨nodes, c₀, -, hnodes, hperm₀⟩ :=
        binaryRegionSearch_spec hi [] hwf.1 hwf.2.disjoint hmeet ha harea
      have hperm : nodes.Perm (ix.myKeyObjects.filter fun e => e.domain.Intersects mint) := by
        refine hperm₀.trans (.of_eq (List.filter_congr fun e he => ?_))
        rw [Bool.eq_iff_iff]
        simp [intersectNoDuplicates_of_covers (hcov e he)]
      have hmem : ∀ n ∈ nodes, n ∈ ix.myKeyObjects := fun n hn =>
        List.mem_of_mem_filter (hperm.mem_iff.mp hn)
      have hsum : (nodes.map fun n => overlap n.domain mint).sum ≤ overlap ix.myDomain mint := by
        rw [(hperm.map fun n => overlap n.domain mint).sum_eq]
        exact sum_overlap_children hi (hwf.2.disjoint.filter _) fun e he =>
          hcov e (List.mem_of_mem_filter he)
      obtain ⟨found, c, hc, hrun, hfound⟩ := searchChildren (S := S) (h := h)
        (Nat.not_lt.mpr (Nat.sub_le s.1 c₀)) nodes s (fun n hn s hs hle => by
          have hrec := hwf.2.recorded n (hmem n hn)
          rw [hrec] at hle ⊢
          exact intersect_ok mint hdisj (hwf.2.wf n (hmem n hn)) hs hle) ha (hsum.trans harea)
      refine ⟨found, c, hc.trans hsum, ?_, hfound.trans ?_⟩
      · rw [SRPTIndexLogic.intersect, if_pos hi, hnodes]
        exact hrun
      · -- Children that miss the search box have no tile to report.
        refine (hperm.flatMap_right _).trans ?_
        refine .trans (.of_eq ?_) (cornerTiles_perm hwf.2.tiles)
        rw [List.flatMap_map]
        induction ix.myKeyObjects with
        | nil => rfl
        | cons e es ih =>
          by_cases he : e.domain.Intersects mint
          · rw [List.filter_cons_of_pos (by simpa using he), List.flatMap_cons, List.flatMap_cons, ih]
          · rw [List.filter_cons_of_neg (by simpa using he), List.flatMap_cons, ih,
              cornerTiles_eq_nil fun hm => he hm.symm, List.nil_append]
    · refine ⟨[], 0, Nat.zero_le _, ?_, ?_⟩
      · rw [SRPTIndexLogic.intersect, if_neg hi]
        simp
      · rw [cornerTiles_eq_nil hi]

/-- **A search only ever reports stored tiles**, also when the area counter wraps. -/
theorem intersect_subset_stored : ∀ {h : ℕ} {ix : Tree d h} {dom : Box d} {s s' : Found d OId},
    WellFormed S next h ix → SRPTIndexLogic.intersect mint h ix dom s = .ok s' →
      (∀ e ∈ s.2, e ∈ S) → ∀ e ∈ s'.2, e ∈ S
  | 0, ix, dom, s, s', hwf, hrun, hs => by
    rw [SRPTIndexLogic.intersect] at hrun
    split at hrun
    · split at hrun
      · refine binaryScan_inv (P := fun s : Found d OId => ∀ e ∈ s.2, e ∈ S)
          (fun e he s s' b hs hvisit => ?_) hs hrun
        have heS : e ∈ S := List.mem_of_mem_filter (hwf.2.mem_iff.mp he)
        rw [SRPTIndexLogic.visit] at hvisit
        split at hvisit
        · obtain ⟨r₁, -, hvisit⟩ := ExceptFold.bind_eq_ok hvisit
          obtain ⟨r₂, -, hvisit⟩ := ExceptFold.bind_eq_ok hvisit
          dsimp only at hvisit
          split at hvisit <;> cases hvisit
          simpa [or_imp, forall_and, heS] using hs
        · cases hvisit
          exact hs
      · cases hrun
        exact hs
    · cases hrun
      exact hs
  | h + 1, ix, dom, s, s', hwf, hrun, hs => by
    rw [SRPTIndexLogic.intersect] at hrun
    split at hrun
    · obtain ⟨⟨nodeArea, nodes⟩, hnodes, hrun⟩ := ExceptFold.bind_eq_ok hrun
      have hmem : ∀ n ∈ nodes, n ∈ ix.myKeyObjects := by
        refine binaryScan_inv (P := fun s : Found d (Tree d h) => ∀ e ∈ s.2, e ∈ ix.myKeyObjects)
          (fun e he s s' b hs hvisit => ?_) (by simp) hnodes
        rw [SRPTIndexLogic.visit] at hvisit
        split at hvisit
        · obtain ⟨r₁, -, hvisit⟩ := ExceptFold.bind_eq_ok hvisit
          obtain ⟨r₂, -, hvisit⟩ := ExceptFold.bind_eq_ok hvisit
          dsimp only at hvisit
          split at hvisit <;> cases hvisit
          simpa [or_imp, forall_and, he] using hs
        · cases hvisit
          exact hs
      refine ExceptFold.foldlM_inv (P := fun _ s' => ∀ e ∈ s'.2, e ∈ S) hrun hs ?_
      intro done n rest t t' hall ht hround
      split at hround
      · cases hround
      · exact intersect_subset_stored (hwf.2.wf n (hmem n (hall ▸ by simp))) hround ht
    · cases hrun
      exact hs

theorem intersect2_subset {ix : Index d} {q : Box d} {found : List (KeyObject d OId)}
    (hwf : ix.WellFormed S) (hrun : intersect2 ix q = .ok found) : ∀ e ∈ found, e ∈ S := by
  obtain ⟨root, next⟩ := ix
  match root, hwf, hrun with
  | none, _, hrun =>
    cases hrun
    simp
  | some ⟨h, root⟩, hwf, hrun =>
    have hwf : WellFormed S next h root := hwf
    simp only [intersect2] at hrun
    split at hrun
    · obtain ⟨⟨a, out⟩, hsearch, hrun⟩ := ExceptFold.bind_eq_ok hrun
      cases hrun
      exact intersect_subset_stored hwf hsearch (by simp)
    · cases hrun
      simp

theorem getObjects_subset {ix : Index d} {found : List (KeyObject d OId)} (hwf : ix.WellFormed S)
    (hrun : getObjects ix = .ok found) : ∀ e ∈ found, e ∈ S := by
  rw [getObjects] at hrun
  split at hrun
  · cases hrun
    simp
  · exact intersect2_subset hwf hrun

/-! ## Point queries -/

/-- **`containPointQuery` finds the tile that holds the point**, if one does and the point is in the
index's domain. -/
theorem containPointQuery_ok {p : Point d} : ∀ {h : ℕ} {ix : Tree d h}, WellFormed S next h ix →
    (∀ e, SRPTIndexLogic.containPointQuery p h ix = some e → e ∈ S ∧ p ∈ e.domain) ∧
      (SRPTIndexLogic.containPointQuery p h ix = none → p ∈ ix.myDomain → ∀ e ∈ S, p ∉ e.domain)
  | 0, ix, hwf => by
    obtain ⟨hsome, hnone⟩ := SDirIndexLogic.containPointQuery_spec ix hwf.1 p
    refine ⟨fun e he => ?_, fun hr hp e he hpe => ?_⟩
    · exact ⟨List.mem_of_mem_filter (hwf.2.mem_iff.mp (hsome e he).1), (hsome e he).2⟩
    · refine hnone hr e (hwf.2.mem_iff.mpr (List.mem_filter.mpr ⟨he, ?_⟩)) hpe
      simpa using Box.Intersects.of_mem hpe hp
  | h + 1, ix, hwf => by
    obtain ⟨hsome, hnone⟩ := SDirIndexLogic.containPointQuery_spec ix hwf.1 p
    rw [SRPTIndexLogic.containPointQuery]
    match hlow : SDirIndexLogic.containPointQuery ix p with
    | none =>
      refine ⟨by simp, fun _ hp => ?_⟩
      obtain ⟨b, hb, hpb⟩ := (hwf.2.tiles.mem_iff p).mp hp
      obtain ⟨n, hn, rfl⟩ := List.mem_map.mp hb
      exact absurd hpb (hnone hlow n hn)
    | some n =>
      obtain ⟨hn, hpn⟩ := hsome n hlow
      obtain ⟨h₁, h₂⟩ := containPointQuery_ok (hwf.2.wf n hn)
      exact ⟨h₁, fun hr _ => h₂ hr (hwf.2.recorded n hn ▸ hpn)⟩

theorem containPointQuery2_ok {ix : Index d} (hwf : ix.WellFormed S) (hin : ix.Contains S)
    (p : Point d) : PointAnswer S p (containPointQuery2 ix p) := by
  obtain ⟨root, next⟩ := ix
  match root, hwf, hin with
  | none, hwf, _ =>
    obtain rfl : S = [] := hwf
    exact ⟨by simp [containPointQuery2], by simp⟩
  | some ⟨h, root⟩, hwf, hin =>
    obtain ⟨hsome, hnone⟩ := containPointQuery_ok (p := p) hwf
    refine ⟨hsome, fun hr e he hpe => hnone hr ?_ e he hpe⟩
    exact Box.covers_iff.mp (hin h root rfl e he) p hpe

/-! ## Whole indexes -/

/-- The part of a search box in the root's domain has fewer than `2^64` cells. -/
def SearchFits (ix : Index d) (q : Box d) : Prop :=
  ∀ h root, ix.root = some ⟨h, root⟩ → overlap root.myDomain q < areaModulus

theorem intersect2_perm {ix : Index d} {q : Box d} (hsound : ix.Sound S) (hq : SearchFits ix q) :
    ∃ found, intersect2 ix q = .ok found ∧ found.Perm (S.filter fun k => k.domain.Intersects q) := by
  obtain ⟨hwf, hin, hnodup, hdisj⟩ := hsound
  obtain ⟨root, next⟩ := ix
  match root, hwf, hin, hq with
  | none, hwf, _, _ =>
    obtain rfl : S = [] := hwf
    exact ⟨[], rfl, .nil⟩
  | some ⟨h, root⟩, hwf, hin, hq =>
    have hin := hin h root rfl
    have hq := hq h root rfl
    by_cases hi : q.Intersects root.myDomain
    · set mint := q.inter root.myDomain hi with hmint
      have hcard : mint.cells.card = overlap root.myDomain q := by
        rw [hmint, Box.cells_inter, overlap, Finset.inter_comm]
      have harea : overlap root.myDomain mint = mint.cells.card := by
        rw [overlap, hmint, Box.cells_inter, Finset.inter_comm, Finset.inter_assoc, Finset.inter_self]
      have hcount : mint.cellCount = mint.cells.card := Box.cellCount_eq_card (hcard ▸ hq)
      obtain ⟨found, c, -, hrun, hperm⟩ := intersect_ok mint hdisj (s := (mint.cellCount, [])) hwf
        (hcount ▸ hcard ▸ hq) (by rw [hcount, harea])
      refine ⟨found, ?_, hperm.trans (.of_eq (List.filter_congr fun k hk => ?_))⟩
      · simp only [intersect2, dif_pos hi, ← hmint, hrun]
        rfl
      · rw [Bool.eq_iff_iff]
        simp only [Bool.and_eq_true, decide_eq_true_eq]
        refine ⟨fun hm => ?_, fun hkq => ?_⟩
        · exact .of_mem (corner_mem hm.1).1 (Box.mem_inter.mp (corner_mem hm.1).2).1
        · obtain ⟨p, hpk, hpq⟩ := Box.intersects_iff.mp hkq
          have hkm : k.domain.Intersects mint :=
            .of_mem hpk (Box.mem_inter.mpr ⟨hpq, Box.covers_iff.mp (hin k hk) p hpk⟩)
          exact ⟨hkm, (Box.mem_inter.mp (corner_mem hkm).2).2⟩
    · refine ⟨[], by simp only [intersect2, dif_neg hi], ?_⟩
      have hnil : (S.filter fun k => decide (k.domain.Intersects q)) = [] := by
        refine List.filter_eq_nil_iff.mpr fun k hk hkq => hi ?_
        obtain ⟨p, hpk, hpq⟩ := Box.intersects_iff.mp (of_decide_eq_true hkq)
        exact .of_mem hpq (Box.covers_iff.mp (hin k hk) p hpk)
      rw [hnil]

/-- **Search is exact.**  In every state of a run whose insertions fit, a search whose area fits
reports every stored tile that meets the search box once, and no other. -/
theorem srpt_search_exact {cap : Capacity} {ix : Index d} {q : Box d} 
    (hrun : Run cap (InsertFits cap) ix S) (hq : SearchFits ix q) :
    ∃ found, intersect2 ix q = .ok found ∧
      found.Perm (S.filter fun k => k.domain.Intersects q) ∧ (found.map (·.object)).Nodup := by
  obtain ⟨found, hfound, hperm⟩ := intersect2_perm hrun.sound hq
  exact ⟨found, hfound, hperm,
    (hperm.map _).nodup_iff.mpr (hrun.sound.nodup.sublist (List.filter_sublist.map _))⟩

theorem origin_le : ∀ i, (![0, 0] : Point 2) i ≤ (![0, 0] : Point 2) i := by decide

/-- Two tiles of one cell at opposite corners of a box of `2^64` cells. -/
def farTiles : List (KeyObject 2 OId) :=
  [⟨102, ⟨![2 ^ 32 - 1, 2 ^ 32 - 1], ![2 ^ 32 - 1, 2 ^ 32 - 1], by decide⟩⟩,
    ⟨101, ⟨![0, 0], ![0, 0], origin_le⟩⟩]

/-- The box they span. -/
def farBox : Box 2 := SDirIndexLogic.square

/-- A search for a row of tiles in an index that was split. -/
theorem srpt_search_exact_row : ∃ ix : Index 2,
    Run ⟨3, le_rfl⟩ (InsertFits ⟨3, le_rfl⟩) ix rowOfTiles ∧
    ∃ found, intersect2 ix ⟨![1, 0], ![2, 0], by decide⟩ = .ok found ∧
      found.Perm (rowOfTiles.filter fun k => k.domain.Intersects ⟨![1, 0], ![2, 0], by decide⟩) := by
  obtain ⟨ix, hrun, -⟩ := rowOfTiles_run
  have hq : SearchFits ix ⟨![1, 0], ![2, 0], by decide⟩ := fun h root _ => by
    refine lt_of_le_of_lt (Finset.card_le_card Finset.inter_subset_right) ?_
    simp [Box.card_cells, areaModulus]
  obtain ⟨found, hfound, hperm, -⟩ := srpt_search_exact hrun hq
  exact ⟨ix, hrun, found, hfound, hperm⟩

/-- **A search of `2^64` cells finds nothing**: the area counter starts at zero. -/
theorem srpt_search_misses_tiles : ∃ ix : Index 2,
    Run ⟨3, le_rfl⟩ (InsertFits ⟨3, le_rfl⟩) ix farTiles ∧ intersect2 ix farBox = .ok [] ∧ ∀ k ∈ farTiles, k.domain.Intersects farBox := by
  obtain ⟨ix, hix, hcheck⟩ := exists_of_replayed
    (fun ix => (intersect2 ix farBox).toOption.any List.isEmpty)
    (replay ⟨3, le_rfl⟩ (cutsFitWithin ⟨3, le_rfl⟩ 5) 5 farTiles) (by decide +kernel)
  have hfits : ∀ ix ix' : Index 2, ∀ k ∈ farTiles, cutsFitWithin ⟨3, le_rfl⟩ 5 ix k = true →
      insertObject2 ⟨3, le_rfl⟩ 5 ix k = some (.ok ix') → InsertFits ⟨3, le_rfl⟩ ix k := by
    intro ix ix' k hk hcuts hcall
    refine ⟨Or.inr ?_, cutsFit_of_returns hcall hcuts⟩
    simp only [farTiles, List.mem_cons, List.not_mem_nil, or_false] at hk
    rcases hk with rfl | rfl <;> simp [Box.card_cells, areaModulus]
  refine ⟨ix, run_of_replay hix (by decide) hfits, ?_, by decide⟩
  rcases hanswer : intersect2 ix farBox with e | found
  · rw [hanswer] at hcheck
    cases hcheck
  · rw [hanswer] at hcheck
    rw [List.isEmpty_iff.mp hcheck]

end Rasdaman
