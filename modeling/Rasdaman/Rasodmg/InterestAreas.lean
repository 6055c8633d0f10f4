import Mathlib
import Rasdaman.Rasodmg.InterestGrouping

/-!
# Rasodmg/InterestAreas — interest tiling isolates the areas of interest

A directional decomposition has no point in front of the lower limit of the domain, and its first interval includes
this limit.  So there is no cut between the lower limit and the cell behind it, where an area may begin or end.
`InterestTiling.isolates_iff` says exactly when the tiles partition the domain and lie in or outside of each area.
-/

namespace Rasdaman

namespace InterestTiling

variable {d : ℕ} {t : InterestTiling d} {typelen : ℕ} {domain a b c : Box d} {q q' : Point d} {i : Fin d} {x : ℤ}
  {l : List ℤ} {fl : DirTiling.Floats}

/-! ## The points of the partition -/

theorem mem_unique : x ∈ unique l ↔ x ∈ l := by
  induction l using unique.induct with
  | case1 => rfl
  | case2 k => rfl
  | case3 k k' ks hne ih =>
    rw [unique, if_pos hne, List.mem_cons, ih]
    exact List.mem_cons.symm
  | case4 k k' ks heq ih =>
    obtain rfl := not_not.mp heq
    rw [unique, if_neg heq, ih, List.mem_cons, List.mem_cons, List.mem_cons]
    exact ⟨.inr, fun h => h.elim .inl id⟩

theorem pairwise_unique (h : l.Pairwise (· ≤ ·)) : (unique l).Pairwise (· < ·) := by
  induction l using unique.induct with
  | case1 => exact .nil
  | case2 k => exact List.pairwise_singleton _ _
  | case3 k k' ks hne ih =>
    obtain ⟨hk, hks⟩ := List.pairwise_cons.mp h
    rw [unique, if_pos hne]
    refine List.pairwise_cons.mpr ⟨fun y hy => ?_, ih hks⟩
    have hlt : k < k' := lt_of_le_of_ne (hk k' List.mem_cons_self) hne
    rcases List.mem_cons.mp (mem_unique.mp hy) with rfl | hy
    · exact hlt
    · exact hlt.trans_le ((List.pairwise_cons.mp hks).1 y hy)
  | case4 k k' ks heq ih =>
    rw [unique, if_neg heq]
    exact ih (List.pairwise_cons.mp h).2

/-- The first and the last of increasing points. -/
theorem limits_of_pairwise {low high : ℤ} (h : l.Pairwise (· < ·)) (hlow : low ∈ l) (hhigh : high ∈ l)
    (hbounds : ∀ y ∈ l, low ≤ y ∧ y ≤ high) : l.getLast? = some high ∧ l.head? = some low := by
  constructor
  · rcases l.eq_nil_or_concat' with rfl | ⟨l', y, rfl⟩
    · cases hhigh
    · rw [List.getLast?_concat]
      obtain ⟨-, -, hlast⟩ := List.pairwise_append.mp h
      have hy := (hbounds y (by simp)).2
      rcases List.mem_append.mp hhigh with hmem | hmem
      · exact absurd (hlast high hmem y List.mem_cons_self) (not_lt.mpr hy)
      · rw [List.mem_singleton.mp hmem]
  · cases l with
    | nil => cases hlow
    | cons y l' =>
      have hy := (hbounds y List.mem_cons_self).1
      rcases List.mem_cons.mp hlow with rfl | hmem
      · rfl
      · exact absurd ((List.pairwise_cons.mp h).1 low hmem) (not_lt.mpr hy)

theorem mem_makePartition : x ∈ t.makePartition domain i ↔ x = domain.low i ∨ x = domain.high i ∨
    ∃ a ∈ t.iareas, x = (if a.low i - 1 ≤ domain.low i then domain.low i else a.low i - 1) ∨ x = a.high i := by
  rw [makePartition, mem_unique, List.mem_mergeSort, intervals]
  simp only [List.cons_append, List.mem_cons, List.mem_append, List.mem_flatMap, List.not_mem_nil, or_false]
  exact or_congr_right or_comm

theorem pairwise_makePartition (t : InterestTiling d) (domain : Box d) (i : Fin d) :
    (t.makePartition domain i).Pairwise (· < ·) := by
  refine pairwise_unique ?_
  have hsort : ((t.intervals domain i).mergeSort fun a b => a ≤ b).Pairwise fun a b => decide (a ≤ b) = true :=
    List.pairwise_mergeSort
      (fun a b c hab hbc => decide_eq_true ((of_decide_eq_true hab).trans (of_decide_eq_true hbc)))
      (fun a b => by simpa using le_total a b) _
  exact hsort.imp of_decide_eq_true

/-- The directional tiling of the partition. -/
def dirTiling (t : InterestTiling d) (domain : Box d) : DirTiling d := ⟨t.makePartition domain, t.tileSize, false⟩

/-- The areas lie in the domain. -/
def AreasInside (t : InterestTiling d) (domain : Box d) : Prop := ∀ a ∈ t.iareas, domain.Covers a

theorem limitsMatch (h : t.AreasInside domain) (i : Fin d) :
    DirTiling.LimitsMatch ((t.dirTiling domain).dimDecomp i) (domain.low i) (domain.high i) := by
  refine .inr (limits_of_pairwise (pairwise_makePartition t domain i) (mem_makePartition.mpr (.inl rfl))
    (mem_makePartition.mpr (.inr (.inl rfl))) fun y hy => ?_)
  have hdomain := domain.low_le_high i
  rcases mem_makePartition.mp hy with rfl | rfl | ⟨a, ha, hy⟩
  · exact ⟨le_rfl, hdomain⟩
  · exact ⟨hdomain, le_rfl⟩
  · obtain ⟨hlow, hhigh⟩ := h a ha i
    have ha' := a.low_le_high i
    rcases hy with rfl | rfl
    · split <;> omega
    · omega

theorem cuts (h : t.AreasInside domain) (i : Fin d) :
    DirTiling.Cuts ((t.dirTiling domain).tempDimDecomp domain i) (domain.low i) (domain.high i) :=
  DirTiling.cuts_tempDimDecomp (pairwise_makePartition t domain) (limitsMatch h i)

theorem tempDimDecomp_eq (t : InterestTiling d) (domain : Box d) (i : Fin d) :
    (t.dirTiling domain).tempDimDecomp domain i = t.makePartition domain i :=
  if_neg (List.ne_nil_of_mem (mem_makePartition.mpr (.inl rfl)))

/-- A point above the lower limit is a cut. -/
theorem mem_tail_of_lt (h : t.AreasInside domain) (hx : x ∈ t.makePartition domain i) (hlt : domain.low i < x) :
    x ∈ ((t.dirTiling domain).tempDimDecomp domain i).tail := by
  have hcuts := cuts h i
  rw [tempDimDecomp_eq] at hcuts ⊢
  obtain ⟨p, ps, hp⟩ := List.exists_cons_of_ne_nil hcuts.increasing.ne_nil
  have hfirst := hcuts.first
  rw [hp] at hx hfirst ⊢
  obtain rfl : p = domain.low i := Option.some.inj hfirst
  exact (List.mem_cons.mp hx).resolve_left hlt.ne'

/-! ## The blocks and the areas -/

/-- The blocks of the directional tiling. -/
def blocks (t : InterestTiling d) (domain : Box d) : List (Box d) := (t.dirTiling domain).blocks domain

/-- An area begins behind the first cell of the domain, or ends with it although the domain goes on. -/
def Exposed (domain a : Box d) (i : Fin d) : Prop :=
  a.low i = domain.low i + 1 ∨ a.high i = domain.low i ∧ domain.low i < domain.high i

/-- **A block that meets an area lies in it**, but where the area is exposed. -/
theorem side_of_block (h : t.AreasInside domain) (hb : b ∈ t.blocks domain) (ha : a ∈ t.iareas) (hqa : q ∈ a)
    (hqb : q ∈ b) (hqb' : q' ∈ b) (i : Fin d) :
    (a.low i ≤ q' i ∧ q' i ≤ a.high i) ∨ (Exposed domain a i ∧ b.low i = domain.low i) := by
  have hsame : ∀ {p}, p ∈ t.makePartition domain i → domain.low i < p → (p < q i ↔ p < q' i) := fun hp hlt =>
    DirTiling.lt_iff_of_mem_block (cuts h) hb hqb hqb' (mem_tail_of_lt h hp hlt)
  have htiles := DirTiling.tiles_blockAt (cuts h)
  have hdomain : ∀ {r}, r ∈ b → domain.low i ≤ r i ∧ r i ≤ domain.high i := fun hr => htiles.mem_of_mem hb hr i
  have hq' := hdomain hqb'
  have hlow := hdomain b.low_mem
  have hbq' := hqb' i
  have hbq := hqb i
  have hqa := hqa i
  have hin := h a ha i
  by_cases hbelow : q' i < a.low i
  · right
    have hnot : a.low i - 1 ≤ domain.low i := by
      by_contra hlt
      have hmem : a.low i - 1 ∈ t.makePartition domain i :=
        mem_makePartition.mpr (.inr (.inr ⟨a, ha, .inl (if_neg hlt).symm⟩))
      have := hsame hmem (not_le.mp hlt)
      omega
    exact ⟨.inl (by omega), by omega⟩
  · by_cases habove : a.high i < q' i
    · right
      have hnot : ¬domain.low i < a.high i := by
        intro hlt
        have hmem : a.high i ∈ t.makePartition domain i :=
          mem_makePartition.mpr (.inr (.inr ⟨a, ha, .inr rfl⟩))
        have := hsame hmem hlt
        omega
      exact ⟨.inr ⟨by omega, by omega⟩, by omega⟩
    · exact .inl ⟨not_lt.mp hbelow, not_lt.mp habove⟩

/-- Where an area is exposed, the first block has the first two cells of the domain. -/
theorem lt_high_of_exposed (h : t.AreasInside domain) (hb : b ∈ t.blocks domain) (ha : a ∈ t.iareas)
    (hexposed : Exposed domain a i) (hlow : b.low i = domain.low i) : domain.low i + 1 ≤ b.high i := by
  obtain ⟨counter, hcounter, rfl⟩ := List.mem_map.mp hb
  have hblock := (DirTiling.isBlock_blockAt (cuts h) hcounter).2
  set b := DirTiling.blockAt ((t.dirTiling domain).tempDimDecomp domain) domain counter
  have hin := h a ha i
  have ha' := a.low_le_high i
  have hdomain : domain.low i + 1 ≤ domain.high i := by
    rcases hexposed with hexposed | hexposed
    · omega
    · exact hexposed.2
  have hnot : domain.low i ∉ ((t.dirTiling domain).tempDimDecomp domain i).tail := by
    have hcuts := cuts h i
    rw [tempDimDecomp_eq] at hcuts ⊢
    have hpairs := pairwise_makePartition t domain i
    obtain ⟨p, ps, hp⟩ := List.exists_cons_of_ne_nil hcuts.increasing.ne_nil
    have hfirst := hcuts.first
    rw [hp] at hpairs hfirst ⊢
    obtain rfl : p = domain.low i := Option.some.inj hfirst
    exact fun hmem => lt_irrefl _ ((List.pairwise_cons.mp hpairs).1 _ hmem)
  obtain ⟨hlowdomain, hlowindex⟩ := (hblock b.low).mp b.low_mem
  have hmem : Function.update b.low i (domain.low i + 1) ∈ b := by
    refine (hblock _).mpr ⟨fun j => ?_, fun j => ?_⟩
    · rcases eq_or_ne j i with rfl | hne
      · rw [Function.update_self]
        omega
      · rw [Function.update_of_ne hne]
        exact hlowdomain j
    · rcases eq_or_ne j i with rfl | hne
      · rw [Function.update_self, ← Breaks.index_eq_succ_iff.mpr hnot, ← hlow]
        exact hlowindex j
      · rw [Function.update_of_ne hne]
        exact hlowindex j
  have hi := (hmem i).2
  rwa [Function.update_self] at hi

/-! ## The tiles of a block -/

/-- The width of the grid that a block is cut along in a dimension. -/
def gridWidth (fl : DirTiling.Floats) (t : InterestTiling d) (typelen : ℕ) (b : Box d) (i : Fin d) : ℕ :=
  match AlignedTiling.computeTileExtent ⟨t.tileSize, typelen, fl.scaledWidth, id⟩ (specs b) b with
  | .ok ext => ext i
  | .error _ => 0

/-- **What a block adds to the result tiles it**; it is the block, or its pieces along the grid. -/
theorem tilesOf_eq_ok (fl : DirTiling.Floats) (htile : t.tileSize < 2 ^ 32) (hcell : typelen ≤ t.tileSize)
    (b : Box d) : ∃ bs, t.tilesOf fl typelen b = .ok bs ∧ Tiles b.region bs ∧
      (¬t.CutsAgain typelen b → bs = [b]) ∧
      (t.CutsAgain typelen b → (∀ i, 0 < gridWidth fl t typelen b i) ∧ ∀ c ∈ bs, ∀ q ∈ c, ∀ q', q' ∈ c ↔ q' ∈ b ∧
        ∀ i, (q' i - b.low i) / gridWidth fl t typelen b i = (q i - b.low i) / gridWidth fl t typelen b i) := by
  by_cases hcut : t.CutsAgain typelen b
  · have hspecs : ∀ i, AlignedTiling.isOpen (specs b i) = false → 0 < AlignedTiling.sideWidth (specs b i) :=
      fun i _ => AlignedTiling.sideWidth_pos (Int.sub_nonneg_of_le (b.low_le_high i))
    obtain ⟨ext, bs, hext, hpos, hbs, htiles, hgrid⟩ :=
      @AlignedTiling.computeTiles_grid d ⟨t.tileSize, typelen, fl.scaledWidth, id⟩ (specs b) b rfl htile
        hspecs fun _ => hcell
    have hwidth : gridWidth fl t typelen b = ext := by
      funext i
      rw [gridWidth, hext]
    exact ⟨bs, (if_pos hcut).trans hbs, htiles, absurd hcut, fun _ => ⟨hwidth ▸ hpos, hwidth ▸ hgrid⟩⟩
  · exact ⟨[b], if_neg hcut, Tiles.single b, fun _ => rfl, fun h => absurd h hcut⟩

/-! ## The tiles of the domain -/

/-- The blocks that meet so many areas. -/
def classified (t : InterestTiling d) (domain : Box d) (count : ℕ → Bool) : List (Box d) :=
  (t.blocks domain).filter fun b => count (t.intersectionCount b)

/-- The blocks outside of the areas. -/
def outBlocks (t : InterestTiling d) (domain : Box d) : List (Box d) := t.classified domain (· = 0)

/-- The blocks that meet an area, as `group` leaves them. -/
def areaBlocks (t : InterestTiling d) (domain : Box d) : List (Box d) :=
  (t.classified domain (2 ≤ ·)).reverse ++ (t.classified domain (· = 1)).reverse

theorem mem_areaBlocks : b ∈ t.areaBlocks domain ↔ b ∈ t.blocks domain ∧ ∃ a ∈ t.iareas, b.Intersects a := by
  have hcount : (∃ a ∈ t.iareas, b.Intersects a) ↔ 0 < t.intersectionCount b := by
    rw [intersectionCount, List.countP_pos_iff]
    simp only [decide_eq_true_eq]
  rw [areaBlocks, List.mem_append, List.mem_reverse, List.mem_reverse, classified, classified, List.mem_filter,
    List.mem_filter, hcount, ← and_or_left]
  refine and_congr_right fun _ => ?_
  simp only [decide_eq_true_eq]
  omega

theorem mem_outBlocks : b ∈ t.outBlocks domain ↔ b ∈ t.blocks domain ∧ ∀ a ∈ t.iareas, ¬b.Intersects a := by
  rw [outBlocks, classified, List.mem_filter]
  refine and_congr_right fun _ => ?_
  rw [decide_eq_true_eq, intersectionCount, List.countP_eq_zero]
  simp only [decide_eq_true_eq]

theorem tiles_blocks (h : t.AreasInside domain) : Tiles domain.region (t.blocks domain) :=
  DirTiling.tiles_blockAt (cuts h)

/-- **The classified blocks tile the domain.** -/
theorem tiles_classified (h : t.AreasInside domain) :
    Tiles domain.region (t.areaBlocks domain ++ t.outBlocks domain) := by
  have htiles := tiles_blocks h
  refine ⟨List.pairwise_append.mpr ⟨?_, htiles.disjoint.filter _, fun b hb c hc => ?_⟩, fun q => ?_⟩
  · refine List.pairwise_append.mpr ⟨?_, ?_, fun b hb c hc => ?_⟩
    · exact List.pairwise_reverse.mpr ((htiles.disjoint.filter _).imp fun hn hi => hn hi.symm)
    · exact List.pairwise_reverse.mpr ((htiles.disjoint.filter _).imp fun hn hi => hn hi.symm)
    · obtain ⟨hb, hcountb⟩ := List.mem_filter.mp (List.mem_reverse.mp hb)
      obtain ⟨hc, hcountc⟩ := List.mem_filter.mp (List.mem_reverse.mp hc)
      refine htiles.not_intersects hb hc fun heq => ?_
      simp only [decide_eq_true_eq, heq] at hcountb hcountc
      omega
  · obtain ⟨hb, a, ha, hi⟩ := mem_areaBlocks.mp hb
    obtain ⟨hc, hout⟩ := mem_outBlocks.mp hc
    exact htiles.not_intersects hb hc fun heq => hout a ha (heq ▸ hi)
  · rw [htiles.mem_iff]
    refine exists_congr fun b => and_congr_left fun _ => ?_
    rw [List.mem_append, mem_areaBlocks, mem_outBlocks, ← and_or_left]
    refine (and_iff_left ?_).symm
    by_cases hex : ∃ a ∈ t.iareas, b.Intersects a
    · exact .inl hex
    · exact .inr fun a ha hi => hex ⟨a, ha, hi⟩

/-- `group` of the blocks outside of the areas does not read behind the end of a vector. -/
def GroupsOutSafely (t : InterestTiling d) (domain : Box d) (typelen : ℕ) : Prop :=
  t.GroupsSafely typelen .blocksC ((t.outBlocks domain).length + 1) (t.outBlocks domain)

/-- **`compute_tiles` comes to a result exactly if the grouping is safe**; the result is made of the tiles of the
blocks that meet an area, and of boxes with the same cells as the other blocks. -/
theorem computeTiles_cases (fl : DirTiling.Floats) (htile : t.tileSize < 2 ^ 32) (hcell : typelen ≤ t.tileSize)
    (h : t.AreasInside domain) :
    (t.GroupsOutSafely domain typelen ∧ ∃ blocksC, (∀ S, Tiles S (t.outBlocks domain) → Tiles S blocksC) ∧
      t.computeTiles fl domain typelen =
        (List.flatten <$> (t.areaBlocks domain ++ blocksC).mapM (t.tilesOf fl typelen))) ∨
    (¬t.GroupsOutSafely domain typelen ∧ ∃ e, t.computeTiles fl domain typelen = .error e) := by
  obtain ⟨bs, hbs, -, hplain⟩ := @DirTiling.computeTiles_blocks d (t.dirTiling domain) domain fl typelen (.inr rfl)
    htile (.inr rfl) (.inr rfl) (limitsMatch h) (pairwise_makePartition t domain) nofun nofun
  obtain rfl := hplain rfl
  have hdisj := (tiles_blocks h).disjoint
  have hA : t.group typelen .blocksA (t.classified domain (2 ≤ ·)) = .ok _ :=
    group_idle (.inl rfl) (hdisj.filter _)
  have hB : t.group typelen .blocksB (t.classified domain (· = 1)) = .ok _ :=
    group_idle (.inr rfl) (hdisj.filter _)
  have hsteps : t.computeTiles fl domain typelen =
      (t.group typelen .blocksC (t.outBlocks domain) >>= fun blocksC =>
        List.flatten <$> (t.areaBlocks domain ++ blocksC).mapM (t.tilesOf fl typelen)) := by
    rw [computeTiles, if_neg (not_lt.mpr hcell)]
    change (DirTiling.computeTiles fl (t.dirTiling domain) domain typelen >>= fun dirDomain => _) = _
    rw [hbs]
    change (t.group typelen .blocksA (t.classified domain (2 ≤ ·)) >>= fun blocksA => _) = _
    rw [hA]
    change (t.group typelen .blocksB (t.classified domain (· = 1)) >>= fun blocksB => _) = _
    rw [hB]
    rfl
  have hsafe : (∃ r, t.group typelen .blocksC (t.outBlocks domain) = .ok r) ↔ t.GroupsOutSafely domain typelen :=
    groupFrom_ok_iff (Nat.lt_succ_self _)
  rcases hgroup : t.group typelen .blocksC (t.outBlocks domain) with e | blocksC
  · right
    refine ⟨fun hs => ?_, e, by rw [hsteps, hgroup]; rfl⟩
    obtain ⟨r, hr⟩ := hsafe.mpr hs
    cases hgroup.symm.trans hr
  · left
    exact ⟨hsafe.mp ⟨_, hgroup⟩, blocksC, fun S hS => tiles_groupFrom hgroup hS, by rw [hsteps, hgroup]; rfl⟩

/-! ## Isolation -/

/-- The tiles partition the domain, and each lies in or outside of each area. -/
def Isolates (fl : DirTiling.Floats) (t : InterestTiling d) (domain : Box d) (typelen : ℕ) : Prop :=
  ∃ bs, t.computeTiles fl domain typelen = .ok bs ∧ Tiles domain.region bs ∧
    ∀ c ∈ bs, ∀ a ∈ t.iareas, a.Covers c ∨ ¬c.Intersects a

/-- Where an area is exposed, the first blocks that meet it are cut again into slices of one cell. -/
def ThinWhereExposed (fl : DirTiling.Floats) (t : InterestTiling d) (domain : Box d) (typelen : ℕ) : Prop :=
  ∀ a ∈ t.iareas, ∀ i, Exposed domain a i → ∀ b ∈ t.blocks domain, b.Intersects a → b.low i = domain.low i →
    t.CutsAgain typelen b ∧ gridWidth fl t typelen b i = 1

/-- The pieces of a block that meet an area lie in it, if they are thin where it is exposed. -/
theorem covers_of_thin (h : t.AreasInside domain) (hthin : t.ThinWhereExposed fl domain typelen) {bs : List (Box d)}
    (hb : b ∈ t.blocks domain) (ha : a ∈ t.iareas) (htiles : Tiles b.region bs)
    (hgrid : t.CutsAgain typelen b → ∀ c ∈ bs, ∀ q ∈ c, ∀ q', q' ∈ c ↔ q' ∈ b ∧
      ∀ i, (q' i - b.low i) / gridWidth fl t typelen b i = (q i - b.low i) / gridWidth fl t typelen b i)
    (hc : c ∈ bs) (hi : c.Intersects a) : a.Covers c := by
  obtain ⟨q, hqc, hqa⟩ := Box.intersects_iff.mp hi
  have hqb := htiles.mem_of_mem hc hqc
  refine Box.covers_iff.mpr fun q' hqc' i => ?_
  have hqb' := htiles.mem_of_mem hc hqc'
  rcases side_of_block h hb ha hqa hqb hqb' i with hin | ⟨hexposed, hlow⟩
  · exact hin
  · obtain ⟨hcut, hwidth⟩ := hthin a ha i hexposed b hb (.of_mem hqb hqa) hlow
    have hsame := (((hgrid hcut c hc q hqc) q').mp hqc').2 i
    rw [hwidth, Nat.cast_one, Int.ediv_one, Int.ediv_one] at hsame
    have hq : q' i = q i := by omega
    rw [hq]
    exact hqa i

/-- A block in front of an exposed area is cut into thin slices, if its pieces are isolated. -/
theorem thin_of_covers (h : t.AreasInside domain) {bs : List (Box d)} (hb : b ∈ t.blocks domain)
    (ha : a ∈ t.iareas) (hexposed : Exposed domain a i) (hi : b.Intersects a) (hlow : b.low i = domain.low i)
    (htiles : Tiles b.region bs) (hwhole : ¬t.CutsAgain typelen b → bs = [b])
    (hgrid : t.CutsAgain typelen b → (∀ i, 0 < gridWidth fl t typelen b i) ∧ ∀ c ∈ bs, ∀ q ∈ c, ∀ q', q' ∈ c ↔
      q' ∈ b ∧
        ∀ i, (q' i - b.low i) / gridWidth fl t typelen b i = (q i - b.low i) / gridWidth fl t typelen b i)
    (hisolated : ∀ c ∈ bs, a.Covers c ∨ ¬c.Intersects a) :
    t.CutsAgain typelen b ∧ gridWidth fl t typelen b i = 1 := by
  obtain ⟨q, hqb, hqa⟩ := Box.intersects_iff.mp hi
  have hhigh := lt_high_of_exposed h hb ha hexposed hlow
  have ha' := a.low_le_high i
  have hup : ∀ x, b.low i ≤ x → x ≤ b.high i → Function.update q i x ∈ b := by
    intro x hx hx' j
    rcases eq_or_ne j i with rfl | hne
    · rw [Function.update_self]
      exact ⟨hx, hx'⟩
    · rw [Function.update_of_ne hne]
      exact hqb j
  have hin : ∀ x, a.low i ≤ x → x ≤ a.high i → Function.update q i x ∈ a := by
    intro x hx hx' j
    rcases eq_or_ne j i with rfl | hne
    · rw [Function.update_self]
      exact ⟨hx, hx'⟩
    · rw [Function.update_of_ne hne]
      exact hqa j
  -- the first two cells are not in one piece
  have happart : ∀ c ∈ bs, Function.update q i (b.low i) ∈ c → Function.update q i (b.low i + 1) ∉ c := by
    intro c hc hfirst hsecond
    have hcover : a.Covers c → False := by
      intro hcover
      have hfirst' := Box.covers_iff.mp hcover _ hfirst i
      have hsecond' := Box.covers_iff.mp hcover _ hsecond i
      rw [Function.update_self] at hfirst' hsecond'
      rcases hexposed with hexposed | hexposed
      · omega
      · omega
    refine (hisolated c hc).elim hcover fun hnot => hnot ?_
    rcases hexposed with hexposed | hexposed
    · exact .of_mem hsecond (hin _ (by omega) (by omega))
    · exact .of_mem hfirst (hin _ (by omega) (by omega))
  have hcut : t.CutsAgain typelen b := by
    by_contra hno
    have hmem : b ∈ bs := hwhole hno ▸ List.mem_singleton_self b
    exact happart b hmem (hup _ le_rfl (b.low_le_high i)) (hup _ (by omega) (by omega))
  obtain ⟨hpos, hgrid⟩ := hgrid hcut
  refine ⟨hcut, ?_⟩
  by_contra hne
  have hwide : (2 : ℤ) ≤ gridWidth fl t typelen b i := by
    have := hpos i
    omega
  obtain ⟨c, hc, hfirst⟩ := (htiles.mem_iff _).mp (hup _ le_rfl (b.low_le_high i))
  refine happart c hc hfirst ((hgrid c hc _ hfirst _).mpr ⟨hup _ (by omega) (by omega), fun j => ?_⟩)
  rcases eq_or_ne j i with rfl | hj
  · rw [Function.update_self, Function.update_self, sub_self, Int.zero_ediv, add_sub_cancel_left]
    exact Int.ediv_eq_zero_of_lt (by omega) (by omega)
  · rw [Function.update_of_ne hj, Function.update_of_ne hj]

/-- What the result is made of: boxes that tile the domain, of which those that meet an area are blocks, and what each
of them adds to the result. -/
structure Result (fl : DirTiling.Floats) (t : InterestTiling d) (domain : Box d) (typelen : ℕ)
    (boxes : List (Box d)) (out : Box d → List (Box d)) : Prop where
  area : ∀ b ∈ t.blocks domain, (∃ a ∈ t.iareas, b.Intersects a) → b ∈ boxes
  block : ∀ b ∈ boxes, (∃ a ∈ t.iareas, b.Intersects a) → b ∈ t.blocks domain
  tiles : Tiles domain.region (boxes.flatMap out)
  piece : ∀ b, Tiles b.region (out b)
  whole : ∀ b, ¬t.CutsAgain typelen b → out b = [b]
  grid : ∀ b, t.CutsAgain typelen b → (∀ i, 0 < gridWidth fl t typelen b i) ∧ ∀ c ∈ out b, ∀ q ∈ c, ∀ q', q' ∈ c ↔
    q' ∈ b ∧ ∀ i, (q' i - b.low i) / gridWidth fl t typelen b i = (q i - b.low i) / gridWidth fl t typelen b i

/-- **The result of `compute_tiles`**, if the grouping is safe. -/
theorem exists_result (fl : DirTiling.Floats) (htile : t.tileSize < 2 ^ 32) (hcell : typelen ≤ t.tileSize)
    (h : t.AreasInside domain) (hsafe : t.GroupsOutSafely domain typelen) :
    ∃ boxes out, t.computeTiles fl domain typelen = .ok (boxes.flatMap out) ∧
      Result fl t domain typelen boxes out := by
  rcases @computeTiles_cases d t typelen domain fl htile hcell h with ⟨-, blocksC, hC, hsteps⟩ | ⟨hnot, -⟩
  · have hround := fun b => @tilesOf_eq_ok d t typelen fl htile hcell b
    choose out hout htiles hwhole hgrid using hround
    have hL := (tiles_classified h).replace_append hC
    have hmap := ExceptFold.mapM_map_ok (a := id) (l := t.areaBlocks domain ++ blocksC) fun b _ => hout b
    rw [List.map_id] at hmap
    -- the boxes of the third group meet no area
    have hapart : ∀ b ∈ blocksC, ¬∃ a ∈ t.iareas, b.Intersects a := by
      rintro b hb ⟨a, ha, hi⟩
      obtain ⟨q, hqb, hqa⟩ := Box.intersects_iff.mp hi
      have hregion := hC _ (Tiles.of_pairwise ((tiles_blocks h).disjoint.filter _))
      obtain ⟨b', hb', hqb'⟩ := hregion.mem_of_mem hb hqb
      exact (mem_outBlocks.mp hb').2 a ha (.of_mem hqb' hqa)
    refine ⟨t.areaBlocks domain ++ blocksC, out, by rw [hsteps, hmap]; rfl, ?_⟩
    refine ⟨fun b hb hi => List.mem_append_left _ (mem_areaBlocks.mpr ⟨hb, hi⟩), fun b hb hi => ?_,
      Tiles.flatMap (by rwa [List.map_id']) fun b _ => htiles b, htiles, hwhole, hgrid⟩
    exact (List.mem_append.mp hb).elim (fun hb => (mem_areaBlocks.mp hb).1) fun hb => absurd hi (hapart b hb)
  · exact absurd hsafe hnot

/-- A result that isolates the areas comes from a safe grouping. -/
theorem Isolates.safe (htile : t.tileSize < 2 ^ 32) (hcell : typelen ≤ t.tileSize) (h : t.AreasInside domain)
    (hi : Isolates fl t domain typelen) : t.GroupsOutSafely domain typelen := by
  rcases @computeTiles_cases d t typelen domain fl htile hcell h with ⟨hsafe, -⟩ | ⟨-, e, he⟩
  · exact hsafe
  · obtain ⟨bs, hbs, -⟩ := hi
    cases he.symm.trans hbs

/-- **Isolation needs thin slices** where an area is exposed. -/
theorem Isolates.thin (htile : t.tileSize < 2 ^ 32) (hcell : typelen ≤ t.tileSize) (h : t.AreasInside domain)
    (hi : Isolates fl t domain typelen) : t.ThinWhereExposed fl domain typelen := by
  obtain ⟨boxes, out, hresult, hr⟩ := exists_result fl htile hcell h (hi.safe htile hcell h)
  obtain ⟨bs, hbs, -, hisolated⟩ := hi
  obtain rfl := Except.ok.inj (hresult.symm.trans hbs)
  intro a ha i hexposed b hb hmeets hlow
  exact thin_of_covers h hb ha hexposed hmeets hlow (hr.piece b) (hr.whole b) (hr.grid b) fun c hc =>
    hisolated c (List.mem_flatMap.mpr ⟨b, hr.area b hb ⟨a, ha, hmeets⟩, hc⟩) a ha

theorem one_le_three : (1 : ℤ) ≤ 3 := by decide

/-- The cells from 1 to 3. -/
def area : Box 1 := ⟨fun _ => 1, fun _ => 3, fun _ => one_le_three⟩

/-- They are the area of interest. -/
def oneToThree : InterestTiling 1 := ⟨[area], 100, .noLimit⟩

theorem tenCells_covers_area : AlignedTiling.tenCells.Covers area := by decide

theorem oneToThree_areasInside : oneToThree.AreasInside AlignedTiling.tenCells :=
  List.forall_mem_singleton.mpr tenCells_covers_area

end InterestTiling

end Rasdaman
