import Rasdaman.Mddmgr.MDDObj
import Rasdaman.Qlparser.UpdateDomain
import Rasdaman.Tilemgr.Tiler

/-!
# Qlparser/Update — `QtUpdate::evaluateTupel`

The source's load domain is lifted into the target.  `r_Tiler` makes tiles for the part of it that no
target tile covers, and the cells of each source tile are copied into the target tiles and the new ones;
then the new tiles are inserted.  Target and source are MDDs, the target a persistent one.

`Written` says what a target tile reads after the cells of some source tiles were written: the loop over
the source tiles keeps it (`updateFrom_run`).
-/

namespace Rasdaman

variable {d e tsize : ℕ}

/-- `QtMDD`: an object and the part of it that the query uses. -/
structure QtMDD (d tsize : ℕ) where
  object : MDDObj d tsize
  loadDomain : Box (d + 1)

/-- `MDDBaseType` and the types derived from it. -/
inductive MDDType
  | base
  | dimension (myDimension : ℕ)
  | domain (myDomain : Minterval)

/-- `compatibleWithDomain`, for a domain with the base type of this type. -/
def MDDType.compatibleWithDomain (aDomain : Minterval) : MDDType → Bool
  | base => true
  | dimension myDimension => myDimension == aDomain.length
  | domain myDomain => myDomain.covers aDomain

/-- `QtMintervalData`: the flags say which intervals are trims; a slice is one coordinate. -/
structure MintervalData where
  minterval : Minterval
  trimFlags : List Bool
  length_trimFlags : trimFlags.length = minterval.length
  slice_point : ∀ x ∈ minterval.zip trimFlags,
    x.2 = false → x.1 = .fixed x.1.lowerBound x.1.lowerBound

namespace Update

/-- The interval of a dimension. -/
def interval {n : ℕ} (domain : MintervalData) (h : domain.minterval.length = n) (i : Fin n) :
    Sinterval := domain.minterval.get (i.cast h.symm)

/-- The flag of a dimension. -/
def trimFlag {n : ℕ} (domain : MintervalData) (h : domain.minterval.length = n) (i : Fin n) : Bool :=
  domain.trimFlags.get (i.cast (h.symm.trans domain.length_trimFlags.symm))

/-- The interval of the source is not within that of a trim. -/
def notWithin (domain source : Sinterval) : Bool :=
  (domain.lowFixed && (!source.lowFixed || domain.lowerBound > source.lowerBound)) ||
    (domain.highFixed && (!source.highFixed || domain.upperBound < source.upperBound))

/-- `checkDomainCompatibility`; a domain that passes says where the source is put. -/
def checkDomainCompatibility {n m : ℕ} (domain : MintervalData) (sourceDomain : Box m) :
    Except Halt (Placement n m) :=
  if hdim : domain.minterval.length = n then
    if htrims : ((List.finRange n).filter (trimFlag domain hdim)).length = m then
      let pl : Placement n m :=
        ⟨trimFlag domain hdim, fun i => (interval domain hdim i).lowerBound, htrims⟩
      if ∃ k, notWithin (interval domain hdim (pl.trimAt k))
          (.fixed (sourceDomain.low k) (sourceDomain.high k)) then
        .error (.throws (.errorNo 967))
      else .ok pl
    else .error (.throws (.errorNo 962))
  else .error (.throws (.errorNo 963))

/-- Without an update domain the source keeps its place; it has the dimension of the target. -/
def placement {n m : ℕ} (updateDomain : Option MintervalData) (sourceDomain : Box m) :
    Except Halt (Placement n m) :=
  match updateDomain with
  | some domain => checkDomainCompatibility domain sourceDomain
  | none => if h : n = m then .ok ⟨fun _ => true, fun _ => 0, by simp [h]⟩ else .error .outside

/-- The body of `generateTiles` for a source tile; mintervals of two dimensions do not intersect. -/
def fillFrom (tile : Tile d tsize) (source : Tile e tsize) : Except Halt (Tile d tsize) :=
  if h : e = d then
    let source : Tile d tsize := h ▸ source
    if hi : tile.domain.Intersects source.domain then
      let updateDomain := tile.domain.inter source.domain hi
      tile.copyTile updateDomain source updateDomain
    else .ok tile
  else .ok tile

/-- `generateTiles`, for one of the domains. -/
def generateTile (sourceTiles : List (Tile e tsize)) (dom : Box (d + 1)) :
    Except Halt (Tile d tsize) := do
  let tile ← Tile.zeros tsize dom
  sourceTiles.foldlM fillFrom tile

/-- Between tiles of one dimension an area is copied by `copyTile`, else cell by cell. -/
def copyArea (target : Tile d tsize) (area : Box (d + 1)) (source : Tile e tsize)
    (areaOp : Box (e + 1)) : Except Halt (Tile d tsize) :=
  if d = e then target.copyTile area source areaOp else target.execUnaryOp area source areaOp

/-- The body of the loop over the target tiles. -/
def updateTile (pl : Placement (d + 1) (e + 1)) (source : Tile e tsize)
    (updateSourceTileDomain : Box (d + 1)) (target : Tile d tsize) : Except Halt (Tile d tsize) :=
  if h : updateSourceTileDomain.Intersects target.domain then
    let area := updateSourceTileDomain.inter target.domain h
    copyArea target area source (pl.project area)
  else .ok target

/-- The target object and the new tiles. -/
structure State (d tsize : ℕ) where
  object : MDDObj d tsize
  newTiles : List (Tile d tsize)

/-- The body of the loop over the source tiles.  `targetTiles` are the tiles of the object with one of
the `targetDomains`, and the new tiles. -/
def updateFrom (pl : Placement (d + 1) (e + 1)) (loadDomain : Box (e + 1))
    (targetDomains : List (Box (d + 1))) (st : State d tsize) (source : Tile e tsize) :
    Except Halt (State d tsize) := do
  let sourceTileDomain ← (source.domain.createIntersection loadDomain).mapError .throws
  let updateSourceTileDomain := pl.lift sourceTileDomain
  let isTarget := fun t : Tile d tsize => t.domain ∈ targetDomains
  if (∃ t ∈ st.object.tiles, isTarget t ∧ updateSourceTileDomain.Intersects t.domain) ∨
      ∃ t ∈ st.newTiles, updateSourceTileDomain.Intersects t.domain then
    let tiles ← st.object.tiles.mapM fun t =>
      if isTarget t then updateTile pl source updateSourceTileDomain t else .ok t
    let newTiles ← st.newTiles.mapM (updateTile pl source updateSourceTileDomain)
    return ⟨{ st.object with tiles := tiles }, newTiles⟩
  else
    let newPersTile ← Tile.zeros tsize updateSourceTileDomain
    let newPersTile ← copyArea newPersTile updateSourceTileDomain source sourceTileDomain
    let object ← st.object.insertTile newPersTile
    return { st with object := object }

/-- `evaluateTupel`, with the values of its operands.  A source without tiles is not handled. -/
def evaluateTupel (mddType : MDDType) (targetObj : MDDObj d tsize) (source : QtMDD e tsize)
    (updateDomain : Option MintervalData) : Except Halt (MDDObj d tsize) := do
  let pl ← placement updateDomain source.loadDomain
  let sourceMDDDomain := pl.lift source.loadDomain
  if mddType.compatibleWithDomain sourceMDDDomain.toMinterval then
    if source.object.tiles = [] then .error .outside
    else
      let targetDomains := (targetObj.intersect sourceMDDDomain).map Tile.domain
      let newTiles ←
        (Tiler.tiledDomains [sourceMDDDomain] targetDomains).mapM (generateTile source.object.tiles)
      let st ← source.object.tiles.foldlM (updateFrom pl source.loadDomain targetDomains)
        ⟨targetObj, newTiles⟩
      st.newTiles.foldlM MDDObj.insertTile st.object
  else .error (.throws (.errorNo 953))

/-! ## One source tile and one target tile -/

variable {pl : Placement (d + 1) (e + 1)} {loadDomain : Box (e + 1)} {s : Tile e tsize}
variable {srcs : List (Tile e tsize)} {t t' : Tile d tsize} {area : Box (d + 1)}

/-- Cells are copied one by one only into tiles, and from tiles, of less than `2^31` bytes. -/
def CopyFits (s : Tile e tsize) (t : Tile d tsize) : Prop :=
  d = e ∨ 0 < tsize ∧ t.domain.cells.card * tsize < 2 ^ 31 ∧ s.domain.cells.card * tsize < 2 ^ 31

theorem copyArea_spec {b : Box (e + 1)} (ht : t.domain.Covers area) (hs : s.domain.Covers b)
    (harea : (pl.lift b).Covers area) (hfits : CopyFits s t) :
    ∃ t', copyArea t area s (pl.project area) = .ok t' ∧ t'.domain = t.domain ∧ ∀ q ∈ t.domain,
      t'.cellAt q = if q ∈ area then s.cellAt (pl.projectPoint q) else t.cellAt q := by
  have hop : s.domain.Covers (pl.project area) := hs.trans (Placement.covers_project harea)
  have hpoint : ∀ q ∈ area, (pl.project area).pointAt (area.index q) = pl.projectPoint q :=
    fun q hq => (Placement.pointAt_index harea hq).1
  have hcard := (Placement.pointAt_index harea area.low_mem).2
  suffices hcopy : ∃ t', copyArea t area s (pl.project area) = .ok t' ∧ t'.domain = t.domain ∧
      ∀ q ∈ t.domain, t'.cellAt q =
        if q ∈ area then s.cellAt ((pl.project area).pointAt (area.index q)) else t.cellAt q by
    obtain ⟨t', hok, hdom, hcells⟩ := hcopy
    refine ⟨t', hok, hdom, fun q hq => ?_⟩
    rw [hcells q hq]
    split
    · next hin => rw [hpoint q hin]
    · rfl
  by_cases hde : d = e
  · subst hde
    rw [copyArea, if_pos rfl]
    refine Tile.copyTile_spec ht hop ?_ ?_
    · rw [pl.project_self]
    · rw [pl.project_self]
  · obtain ⟨htsize, htlt, hslt⟩ := hfits.resolve_left hde
    rw [copyArea, if_neg hde]
    exact Tile.execUnaryOp_spec htsize ht hop hcard htlt hslt

/-- What a target tile reads after the cells of some source tiles were written. -/
structure Written (pl : Placement (d + 1) (e + 1)) (loadDomain : Box (e + 1))
    (srcs : List (Tile e tsize)) (t t' : Tile d tsize) : Prop where
  domain : t'.domain = t.domain
  source : ∀ s ∈ srcs, ∀ p ∈ s.domain, p ∈ loadDomain → pl.liftPoint p ∈ t.domain →
    t'.cellAt (pl.liftPoint p) = s.cellAt p
  rest : ∀ q ∈ t.domain, (∀ s ∈ srcs, ∀ p ∈ s.domain, p ∈ loadDomain → pl.liftPoint p ≠ q) →
    t'.cellAt q = t.cellAt q

theorem Written.refl (pl : Placement (d + 1) (e + 1)) (loadDomain : Box (e + 1))
    (t : Tile d tsize) : Written pl loadDomain [] t t := ⟨rfl, by simp, fun _ _ _ => rfl⟩

/-- A tile outside of the lifted load domain stays as it is. -/
theorem Written.skip (h : Written pl loadDomain srcs t t')
    (hout : ¬ t.domain.Intersects (pl.lift loadDomain)) : Written pl loadDomain (srcs ++ [s]) t t' := by
  refine ⟨h.domain, ?_, ?_⟩
  · intro s' _ p _ hp hpt
    exact absurd (.of_mem hpt (Placement.liftPoint_mem_lift.mpr hp)) hout
  · intro q hq hne
    exact h.rest q hq fun s' hs' => hne s' (List.mem_append_left _ hs')

/-- **One more source tile.** -/
theorem Written.step (h : Written pl loadDomain srcs t t')
    (hdisj : ∀ s' ∈ srcs, ¬ s'.domain.Intersects s.domain) (hfits : CopyFits s t)
    (hmeets : s.domain.Intersects loadDomain) :
    ∃ t'', updateTile pl s (pl.lift (s.domain.inter loadDomain hmeets)) t' = .ok t'' ∧
      Written pl loadDomain (srcs ++ [s]) t t'' := by
  set b := s.domain.inter loadDomain hmeets with hb
  have hmemb : ∀ p, p ∈ b ↔ p ∈ s.domain ∧ p ∈ loadDomain := fun p => Box.mem_inter
  -- a point of another source tile is not lifted into this one
  have hother : ∀ s' ∈ srcs, ∀ p ∈ s'.domain, pl.liftPoint p ∉ pl.lift b := by
    intro s' hs' p hp hin
    exact hdisj s' hs' (.of_mem hp ((hmemb p).mp (Placement.liftPoint_mem_lift.mp hin)).1)
  by_cases hi : (pl.lift b).Intersects t'.domain
  · have hcov : t'.domain.Covers ((pl.lift b).inter t'.domain hi) :=
      Box.covers_iff.mpr fun q hq => (Box.mem_inter.mp hq).2
    have hlift : (pl.lift b).Covers ((pl.lift b).inter t'.domain hi) :=
      Box.covers_iff.mpr fun q hq => (Box.mem_inter.mp hq).1
    have hsb : s.domain.Covers b := Box.covers_iff.mpr fun p hp => ((hmemb p).mp hp).1
    obtain ⟨t'', hok, hdom, hcells⟩ := copyArea_spec hcov hsb hlift (by rwa [CopyFits, h.domain])
    have hcell : ∀ q ∈ t.domain, t''.cellAt q =
        if q ∈ pl.lift b then s.cellAt (pl.projectPoint q) else t'.cellAt q := by
      intro q hq
      rw [hcells q (h.domain ▸ hq)]
      refine if_congr ?_ rfl rfl
      rw [Box.mem_inter]
      exact and_iff_left (h.domain ▸ hq)
    refine ⟨t'', by rw [updateTile, dif_pos hi]; exact hok, hdom.trans h.domain, ?_, ?_⟩
    · intro s' hs' p hp hload hpt
      rw [hcell _ hpt]
      rcases List.mem_append.mp hs' with hs' | hs'
      · rw [if_neg (hother s' hs' p hp), h.source s' hs' p hp hload hpt]
      · obtain rfl := List.mem_singleton.mp hs'
        rw [if_pos (Placement.liftPoint_mem_lift.mpr ((hmemb p).mpr ⟨hp, hload⟩)),
          pl.projectPoint_liftPoint]
    · intro q hq hne
      have hout : q ∉ pl.lift b := by
        intro hin
        obtain ⟨hproj, hslice⟩ := Placement.mem_lift.mp hin
        obtain ⟨hps, hpl⟩ := (hmemb _).mp hproj
        exact hne s (by simp) _ hps hpl (Placement.liftPoint_projectPoint hslice)
      rw [hcell q hq, if_neg hout]
      exact h.rest q hq fun s' hs' => hne s' (List.mem_append_left _ hs')
  · refine ⟨t', by rw [updateTile, dif_neg hi], h.domain, fun s' hs' p hp hload hpt => ?_,
      fun q hq hne => h.rest q hq fun s' hs' => hne s' (List.mem_append_left _ hs')⟩
    rcases List.mem_append.mp hs' with hs' | hs'
    · exact h.source s' hs' p hp hload hpt
    · obtain rfl := List.mem_singleton.mp hs'
      refine absurd (.of_mem ?_ (h.domain.symm ▸ hpt)) hi
      exact Placement.liftPoint_mem_lift.mpr ((hmemb p).mpr ⟨hp, hload⟩)

/-! ## The loop over the source tiles -/

/-- What holds of the target tiles after some source tiles were written. -/
structure Progress (pl : Placement (d + 1) (e + 1)) (loadDomain : Box (e + 1))
    (srcs : List (Tile e tsize)) (st st' : State d tsize) : Prop where
  layout : st'.object.storageLayout = st.object.storageLayout
  stored : List.Forall₂ (Written pl loadDomain srcs) st.object.tiles st'.object.tiles
  newTiles : List.Forall₂ (Written pl loadDomain srcs) st.newTiles st'.newTiles

theorem Progress.refl (pl : Placement (d + 1) (e + 1)) (loadDomain : Box (e + 1))
    (st : State d tsize) : Progress pl loadDomain [] st st :=
  ⟨rfl, List.forall₂_same.mpr fun _ _ => .refl .., List.forall₂_same.mpr fun _ _ => .refl ..⟩

/-- The target tiles cover the lifted load domain, and the other stored tiles do not meet it. -/
structure Covered (lifted : Box (d + 1)) (targetDomains : List (Box (d + 1))) (st : State d tsize) :
    Prop where
  covers : ∀ q ∈ lifted, (∃ t ∈ st.object.tiles, t.domain ∈ targetDomains ∧ q ∈ t.domain) ∨
    ∃ t ∈ st.newTiles, q ∈ t.domain
  other : ∀ t ∈ st.object.tiles, t.domain ∉ targetDomains → ¬ t.domain.Intersects lifted

variable {st st' : State d tsize} {targetDomains : List (Box (d + 1))}

theorem exists_of_written {ts ts' : List (Tile d tsize)}
    (h : List.Forall₂ (Written pl loadDomain srcs) ts ts') (ht : t ∈ ts) :
    ∃ t' ∈ ts', Written pl loadDomain srcs t t' := by
  obtain ⟨k, hk, rfl⟩ := List.mem_iff_getElem.mp ht
  have hk' : k < ts'.length := h.length_eq ▸ hk
  exact ⟨_, List.getElem_mem hk', (List.forall₂_iff_get.mp h).2 k hk hk'⟩

theorem exists_written_of {ts ts' : List (Tile d tsize)}
    (h : List.Forall₂ (Written pl loadDomain srcs) ts ts') (ht : t' ∈ ts') :
    ∃ t ∈ ts, Written pl loadDomain srcs t t' := by
  obtain ⟨k, hk, rfl⟩ := List.mem_iff_getElem.mp ht
  have hk' : k < ts.length := h.length_eq ▸ hk
  exact ⟨_, List.getElem_mem hk', (List.forall₂_iff_get.mp h).2 k hk' hk⟩

/-- **One round of the loop over the source tiles**; no tile is inserted there. -/
theorem updateFrom_spec (h : Progress pl loadDomain srcs st st')
    (hcov : Covered (pl.lift loadDomain) targetDomains st)
    (hdisj : ∀ s' ∈ srcs, ¬ s'.domain.Intersects s.domain)
    (hfits : ∀ t, t ∈ st.object.tiles ∨ t ∈ st.newTiles → CopyFits s t)
    (hmeets : s.domain.Intersects loadDomain) :
    ∃ st'', updateFrom pl loadDomain targetDomains st' s = .ok st'' ∧
      Progress pl loadDomain (srcs ++ [s]) st st'' := by
  set b := s.domain.inter loadDomain hmeets with hb
  have hinter : s.domain.createIntersection loadDomain = .ok b := dif_pos hmeets
  -- the lifted area has a cell, which lies in a target tile
  have hsome : (∃ t ∈ st'.object.tiles, t.domain ∈ targetDomains ∧ (pl.lift b).Intersects t.domain) ∨
      ∃ t ∈ st'.newTiles, (pl.lift b).Intersects t.domain := by
    have hin : pl.liftPoint b.low ∈ pl.lift b := Placement.liftPoint_mem_lift.mpr b.low_mem
    have hload : pl.liftPoint b.low ∈ pl.lift loadDomain :=
      Placement.liftPoint_mem_lift.mpr (Box.mem_inter.mp b.low_mem).2
    rcases hcov.covers _ hload with ⟨t, ht, htd, hq⟩ | ⟨t, ht, hq⟩
    · obtain ⟨t', ht', hw⟩ := exists_of_written h.stored ht
      exact Or.inl ⟨t', ht', hw.domain ▸ htd, .of_mem hin (hw.domain ▸ hq)⟩
    · obtain ⟨t', ht', hw⟩ := exists_of_written h.newTiles ht
      exact Or.inr ⟨t', ht', .of_mem hin (hw.domain ▸ hq)⟩
  obtain ⟨tiles, htiles, hstored⟩ := ExceptFold.mapM_forall₂ h.stored
    (f := fun t => if t.domain ∈ targetDomains then updateTile pl s (pl.lift b) t else .ok t)
    (S := Written pl loadDomain (srcs ++ [s])) fun t ht t' hw => by
      split
      · exact hw.step hdisj (hfits t (Or.inl ht)) hmeets
      · next hout => exact ⟨t', rfl, hw.skip (hcov.other t ht (hw.domain ▸ hout))⟩
  obtain ⟨newTiles, hnewTiles, hnew⟩ := ExceptFold.mapM_forall₂ h.newTiles
    (f := updateTile pl s (pl.lift b)) (S := Written pl loadDomain (srcs ++ [s]))
    fun t ht t' hw => hw.step hdisj (hfits t (Or.inr ht)) hmeets
  refine ⟨⟨{ st'.object with tiles := tiles }, newTiles⟩, ?_, h.layout, hstored, hnew⟩
  rw [updateFrom, hinter]
  simp only [Except.mapError, bind, Except.bind]
  rw [if_pos hsome]
  simp only [htiles, hnewTiles]
  rfl

/-- All the source tiles. -/
theorem updateFrom_run {source : List (Tile e tsize)}
    (hdisj : source.Pairwise fun s t => ¬ s.domain.Intersects t.domain)
    (hcov : Covered (pl.lift loadDomain) targetDomains st)
    (hfits : ∀ s ∈ source, ∀ t, t ∈ st.object.tiles ∨ t ∈ st.newTiles → CopyFits s t)
    (hmeets : ∀ s ∈ source, s.domain.Intersects loadDomain) :
    ∃ st', source.foldlM (updateFrom pl loadDomain targetDomains) st = .ok st' ∧
      Progress pl loadDomain source st st' := by
  refine ExceptFold.foldlM_total (P := fun done st' => Progress pl loadDomain done st st')
    (.refl ..) fun done s rest st' hall h => ?_
  have hs : s ∈ source := by simp [hall]
  refine updateFrom_spec h hcov (fun s' hs' => ?_) (hfits s hs) (hmeets s hs)
  rw [hall] at hdisj
  exact (List.pairwise_append.mp hdisj).2.2 s' hs' s List.mem_cons_self

/-! ## The new tiles -/

theorem fillFrom_spec (t : Tile d tsize) (s : Tile e tsize) :
    ∃ t', fillFrom t s = .ok t' ∧ t'.domain = t.domain := by
  rw [fillFrom]
  split
  · next h =>
    subst h
    dsimp only
    split
    · next hi =>
      obtain ⟨t', hok, hdom, -⟩ := Tile.copyTile_same
        (show t.domain.Covers (t.domain.inter s.domain hi) from
          Box.covers_iff.mpr fun p hp => (Box.mem_inter.mp hp).1)
        (show s.domain.Covers _ from Box.covers_iff.mpr fun p hp => (Box.mem_inter.mp hp).2)
      exact ⟨t', hok, hdom⟩
    · exact ⟨t, rfl, rfl⟩
  · exact ⟨t, rfl, rfl⟩

theorem generateTile_spec (source : List (Tile e tsize)) {dom : Box (d + 1)}
    (h : dom.cells.card * tsize < 2 ^ 32) :
    ∃ t : Tile d tsize, generateTile source dom = .ok t ∧ t.domain = dom := by
  obtain ⟨zero, hzero, hdom, -⟩ := Tile.zeros_spec tsize h
  obtain ⟨t, hrun, ht⟩ := ExceptFold.foldlM_total (l := source) (f := fillFrom)
    (P := fun _ (t : Tile d tsize) => t.domain = dom) hdom fun _ s _ t _ ht => by
      obtain ⟨t', hok, hdom'⟩ := fillFrom_spec t s
      exact ⟨t', hok, hdom'.trans ht⟩
  refine ⟨t, ?_, ht⟩
  rw [generateTile, hzero]
  exact hrun

end Update

end Rasdaman
