import Mathlib
import Rasdaman.Mddmgr.InsertTileRun
import Rasdaman.Qlparser.Update

/-!
# Qlparser/UpdateWrites — what an update leaves behind

After the loop over the source tiles the new tiles are inserted one by one (`inserted_run`).

**Update writes the source** (`evaluateTupel_writes`) and leaves the other cells alone, where the type of
the target admits the lifted domain, each source tile meets the load domain and the layout of the target
can store the new tiles; an object with regular or aligned tiling that holds tiles of its layout can
(`storable_of_admits`).
-/

namespace Rasdaman

namespace Update

open StorageLayout

variable {d e tsize : ℕ} {pl : Placement (d + 1) (e + 1)} {loadDomain : Box (e + 1)}
variable {srcs : List (Tile e tsize)} {t : Tile d tsize}

/-! ## Inserting the new tiles -/

/-- The layout of an object can store tiles with the given domains: it cuts each of them into domains
of a size, and what it makes of two of them, and the tiles already stored, agree where they meet. -/
structure Storable (m : MDDObj d tsize) (pieces : List (Box (d + 1))) : Prop where
  layout : ∀ b ∈ pieces, ∃ doms, m.storageLayout.getLayout b = .ok doms ∧
    StorageLayout.IsLayout b doms ∧ ∀ c ∈ doms, c.cells.card * tsize < 2 ^ 32
  stored : ∀ b ∈ pieces, ∀ doms, m.storageLayout.getLayout b = .ok doms → ∀ c ∈ doms,
    ∀ t ∈ m.tiles, t.domain.Intersects c → t.domain = c
  shared : ∀ b ∈ pieces, ∀ doms, m.storageLayout.getLayout b = .ok doms → ∀ c ∈ doms,
    ∀ b' ∈ pieces, ∀ doms', m.storageLayout.getLayout b' = .ok doms' → ∀ c' ∈ doms',
      c.Intersects c' → c = c'

/-- What holds of an object after some new tiles were inserted. -/
structure Inserted (m : MDDObj d tsize) (done : List (Tile d tsize)) (m' : MDDObj d tsize) : Prop where
  wf : m'.WF
  layout : m'.storageLayout = m.storageLayout
  domains : ∀ s ∈ m'.tiles, (∃ t ∈ m.tiles, t.domain = s.domain) ∨
    ∃ t ∈ done, ∃ doms, m.storageLayout.getLayout t.domain = .ok doms ∧ s.domain ∈ doms
  inside : ∀ t ∈ done, ∀ q ∈ t.domain, m'.pointQuery q = some (t.cellAt q)
  outside : ∀ q c, (∀ t ∈ done, q ∉ t.domain) → m.pointQuery q = some c → m'.pointQuery q = some c

variable {m m' : MDDObj d tsize} {done newTiles : List (Tile d tsize)}

/-- **One more new tile.** -/
theorem Inserted.step (h : Inserted m done m')
    (hstore : Storable m ((done ++ [t]).map Tile.domain))
    (hfree : ∀ s ∈ m.tiles, ¬ s.domain.Intersects t.domain)
    (hdisj : ∀ s ∈ done, ¬ s.domain.Intersects t.domain) :
    ∃ m'', m'.insertTile t = .ok m'' ∧ Inserted m (done ++ [t]) m'' := by
  have hmem : t.domain ∈ (done ++ [t]).map Tile.domain := List.mem_map_of_mem (by simp)
  have hdone : ∀ s ∈ done, s.domain ∈ (done ++ [t]).map Tile.domain := fun s hs =>
    List.mem_map_of_mem (List.mem_append_left _ hs)
  obtain ⟨doms, hdoms, hlay, hsize⟩ := hstore.layout _ hmem
  have hsame : ∀ s ∈ m'.tiles, ∀ c ∈ doms, s.domain.Intersects c → s.domain = c := by
    intro s hs c hc hi
    rcases h.domains s hs with ⟨s', hs', heq⟩ | ⟨t', ht', doms', hdoms', hsd⟩
    · rw [← heq] at hi ⊢
      exact hstore.stored _ hmem doms hdoms c hc s' hs' hi
    · exact hstore.shared _ (hdone t' ht') doms' hdoms' _ hsd _ hmem doms hdoms c hc hi
  have hne : ∀ s ∈ m'.tiles, s.domain ≠ t.domain := by
    intro s hs heq
    rcases h.domains s hs with ⟨s', hs', hdom⟩ | ⟨t', ht', doms', hdoms', hsd⟩
    · refine hfree s' hs' ?_
      rw [hdom, heq]
      exact .of_mem t.domain.low_mem t.domain.low_mem
    · obtain ⟨doms'', hdoms'', hlay', -⟩ := hstore.layout _ (hdone t' ht')
      obtain rfl : doms' = doms'' := Except.ok.inj (hdoms'.symm.trans hdoms'')
      exact hdisj t' ht' (heq ▸ (hlay'.meets _ hsd).symm)
  obtain ⟨m'', hok, hst⟩ := MDDObj.insertTile_spec h.wf (h.layout ▸ hdoms) hlay hsame hne hsize
  -- a cell stored before stays, outside of the tile
  have hkeep : ∀ q c, q ∉ t.domain → m'.pointQuery q = some c → m''.pointQuery q = some c := by
    intro q c hq hc
    by_cases hin : ∃ b ∈ doms, q ∈ b
    · rw [hst.inside q hin, if_neg hq, hc, Option.getD_some]
    · rw [hst.outside q fun b hb hqb => hin ⟨b, hb, hqb⟩, hc]
  refine ⟨m'', hok, hst.wf, hst.layout.trans h.layout, fun s hs => ?_, fun s hs q hq => ?_,
    fun q c hq hc => ?_⟩
  · rcases hst.domains s hs with ⟨s', hs', heq⟩ | hnew
    · rcases h.domains s' hs' with hold | ⟨t', ht', hold⟩
      · exact Or.inl (heq ▸ hold)
      · exact Or.inr ⟨t', List.mem_append_left _ ht', heq ▸ hold⟩
    · exact Or.inr ⟨t, by simp, doms, hdoms, hnew⟩
  · rcases List.mem_append.mp hs with hs | hs
    · exact hkeep q _ (fun hqt => hdisj s hs (.of_mem hq hqt)) (h.inside s hs q hq)
    · obtain rfl := List.mem_singleton.mp hs
      rw [hst.inside q (hlay.covers q hq), if_pos hq]
  · refine hkeep q c (hq t (by simp)) (h.outside q c (fun s hs => ?_) hc)
    exact hq s (List.mem_append_left _ hs)

/-- All the new tiles. -/
theorem inserted_run (hwf : m.WF) (hstore : Storable m (newTiles.map Tile.domain))
    (hfree : ∀ t ∈ newTiles, ∀ s ∈ m.tiles, ¬ s.domain.Intersects t.domain)
    (hdisj : newTiles.Pairwise fun s t => ¬ s.domain.Intersects t.domain) :
    ∃ m', newTiles.foldlM MDDObj.insertTile m = .ok m' ∧ Inserted m newTiles m' := by
  refine ExceptFold.foldlM_total (P := fun done m' => Inserted m done m') ?_
    fun done t rest m' hall h => ?_
  · exact ⟨hwf, rfl, fun s hs => Or.inl ⟨s, hs, rfl⟩, by simp, fun _ _ _ hc => hc⟩
  · have hsub : ∀ b ∈ (done ++ [t]).map Tile.domain, b ∈ newTiles.map Tile.domain := by
      intro b hb
      obtain ⟨s, hs, rfl⟩ := List.mem_map.mp hb
      refine List.mem_map_of_mem ?_
      rw [hall]
      simp only [List.mem_append, List.mem_cons] at hs ⊢
      tauto
    have hstore' : Storable m ((done ++ [t]).map Tile.domain) :=
      ⟨fun b hb => hstore.layout b (hsub b hb), fun b hb => hstore.stored b (hsub b hb),
        fun b hb doms hdoms c hc b' hb' => hstore.shared b (hsub b hb) doms hdoms c hc b' (hsub b' hb')⟩
    refine h.step hstore' (hfree t (by simp [hall])) fun s hs => ?_
    rw [hall] at hdisj
    exact (List.pairwise_append.mp hdisj).2.2 s hs t List.mem_cons_self

/-! ## Update -/

/-- The domains of the new tiles. -/
def newDomains (targetObj : MDDObj d tsize) (lifted : Box (d + 1)) : List (Box (d + 1)) :=
  Tiler.tiledDomains [lifted] ((targetObj.intersect lifted).map Tile.domain)

/-- The source has tiles, each of which meets the load domain; the new tiles have a size, and where
slices make the dimensions differ all the tiles are copied cell by cell; the layout of the target can
store the new tiles. -/
structure Writable (pl : Placement (d + 1) (e + 1)) (targetObj : MDDObj d tsize)
    (source : QtMDD e tsize) : Prop where
  tiles_ne : source.object.tiles ≠ []
  meets : ∀ s ∈ source.object.tiles, s.domain.Intersects source.loadDomain
  size_lt : ∀ b ∈ newDomains targetObj (pl.lift source.loadDomain), b.cells.card * tsize < 2 ^ 32
  copy_lt : d = e ∨ 0 < tsize ∧
    (∀ b ∈ targetObj.tiles.map Tile.domain ++ newDomains targetObj (pl.lift source.loadDomain),
      b.cells.card * tsize < 2 ^ 31) ∧
    ∀ s ∈ source.object.tiles, s.domain.cells.card * tsize < 2 ^ 31
  storable : Storable targetObj (newDomains targetObj (pl.lift source.loadDomain))

theorem map_domain_of_written {ts ts' : List (Tile d tsize)}
    (h : List.Forall₂ (Written pl loadDomain srcs) ts ts') :
    ts'.map Tile.domain = ts.map Tile.domain := by
  induction h with
  | nil => rfl
  | cons hw _ ih => rw [List.map_cons, List.map_cons, hw.domain, ih]

variable {targetObj : MDDObj d tsize} {source : QtMDD e tsize} {lifted : Box (d + 1)}

/-- The new tiles and the target tiles cover the lifted domain. -/
theorem covered_newDomains (lifted : Box (d + 1))
    (h : newTiles.map Tile.domain = newDomains targetObj lifted) :
    Covered lifted ((targetObj.intersect lifted).map Tile.domain) ⟨targetObj, newTiles⟩ where
  covers := fun q hq => by
    by_cases hin : ∃ t ∈ targetObj.intersect lifted, q ∈ t.domain
    · obtain ⟨t, ht, hqt⟩ := hin
      exact Or.inl ⟨t, (List.mem_filter.mp ht).1, List.mem_map_of_mem ht, hqt⟩
    · have hrest : q ∈ lifted ∧ ∀ b ∈ (targetObj.intersect lifted).map Tile.domain, q ∉ b := by
        refine ⟨hq, fun b hb hqb => ?_⟩
        obtain ⟨t, ht, rfl⟩ := List.mem_map.mp hb
        exact hin ⟨t, ht, hqb⟩
      obtain ⟨b, hb, hqb⟩ := ((Tiler.tiles_tiledDomains lifted _).mem_iff q).mp hrest
      obtain ⟨t, ht, rfl⟩ := List.mem_map.mp (h ▸ hb : b ∈ newTiles.map Tile.domain)
      exact Or.inr ⟨t, ht, hqb⟩
  other := fun t ht hout hi => hout <| List.mem_map_of_mem <|
    List.mem_filter.mpr ⟨ht, by simpa using hi⟩

/-- A new tile meets no stored one. -/
theorem not_intersects_newDomains {b : Box (d + 1)} (hb : b ∈ newDomains targetObj lifted)
    (ht : t ∈ targetObj.tiles) : ¬ t.domain.Intersects b := by
  intro hi
  obtain ⟨q, hqt, hqb⟩ := Box.intersects_iff.mp hi
  obtain ⟨hq, hout⟩ := ((Tiler.tiles_tiledDomains lifted _).mem_iff q).mpr ⟨b, hb, hqb⟩
  exact hout t.domain (List.mem_map_of_mem (List.mem_filter.mpr ⟨ht, by simpa using .of_mem hqt hq⟩)) hqt

/-- **An update whose domain the type of the target does not admit ends with error 953.** -/
theorem evaluateTupel_not_compatible {mddType : MDDType} {updateDomain : Option MintervalData}
    (hpl : placement updateDomain source.loadDomain = .ok pl)
    (htype : mddType.compatibleWithDomain (pl.lift source.loadDomain).toMinterval = false) :
    evaluateTupel mddType targetObj source updateDomain = .error (.throws (.errorNo 953)) := by
  rw [evaluateTupel, hpl]
  simp only [bind, Except.bind, htype]
  rfl

/-- What the layout can store it can store after the source was written. -/
theorem storable_of_written {pieces : List (Box (d + 1))} (h : Storable m pieces)
    (hlayout : m'.storageLayout = m.storageLayout)
    (hts : List.Forall₂ (Written pl loadDomain srcs) m.tiles m'.tiles) : Storable m' pieces := by
  refine ⟨?_, ?_, ?_⟩
  · rw [hlayout]
    exact h.layout
  · rw [hlayout]
    intro b hb doms hdoms c hc t' ht'
    obtain ⟨t, ht, hw⟩ := exists_written_of hts ht'
    exact hw.domain ▸ h.stored b hb doms hdoms c hc t ht
  · rw [hlayout]
    exact h.shared

theorem wf_of_written (h : m.WF) (hts : List.Forall₂ (Written pl loadDomain srcs) m.tiles m'.tiles) :
    m'.WF := by
  have hpair : (m.tiles.map Tile.domain).Pairwise fun a b => ¬ a.Intersects b :=
    List.pairwise_map.mpr h.disjoint
  rw [← map_domain_of_written hts] at hpair
  refine ⟨List.pairwise_map.mp hpair, fun t' ht' => ?_⟩
  obtain ⟨t, ht, hw⟩ := exists_written_of hts ht'
  exact hw.domain ▸ h.size_lt t ht

/-- `generateTiles`. -/
theorem exists_newTiles (source : List (Tile e tsize)) {pieces : List (Box (d + 1))}
    (h : ∀ b ∈ pieces, b.cells.card * tsize < 2 ^ 32) :
    ∃ newTiles : List (Tile d tsize), pieces.mapM (generateTile source) = .ok newTiles ∧
      newTiles.map Tile.domain = pieces := by
  obtain ⟨newTiles, hok, hall⟩ := ExceptFold.mapM_forall₂ (f := generateTile source)
    (R := fun b b' => b' = b) (S := fun b (t : Tile d tsize) => t.domain = b)
    (List.forall₂_same.mpr fun b (_ : b ∈ pieces) => rfl) fun b hb _ heq => by
      subst heq
      exact generateTile_spec source (h _ hb)
  refine ⟨newTiles, hok, ?_⟩
  have heq : List.Forall₂ (fun b b' => b = b') (newTiles.map Tile.domain) pieces := by
    rw [List.forall₂_map_left_iff]
    exact hall.flip
  exact List.forall₂_eq_eq_eq ▸ heq

/-- **Update writes the source and leaves the other cells alone.** -/
theorem evaluateTupel_writes {mddType : MDDType} {updateDomain : Option MintervalData}
    (htarget : targetObj.WF) (hsource : source.object.WF)
    (hpl : placement updateDomain source.loadDomain = .ok pl)
    (htype : mddType.compatibleWithDomain (pl.lift source.loadDomain).toMinterval = true)
    (h : Writable pl targetObj source) :
    ∃ m, evaluateTupel mddType targetObj source updateDomain = .ok m ∧ m.WF ∧
      (∀ p ∈ source.loadDomain, ∀ c, source.object.pointQuery p = some c →
        m.pointQuery (pl.liftPoint p) = some c) ∧
      ∀ q c, targetObj.pointQuery q = some c →
        (∀ p ∈ source.loadDomain, source.object.pointQuery p ≠ none → pl.liftPoint p ≠ q) →
          m.pointQuery q = some c := by
  set lifted := pl.lift source.loadDomain with hlifted
  obtain ⟨newTiles, hnewTiles, hmap⟩ := exists_newTiles source.object.tiles h.size_lt
  have hcov : Covered lifted _ ⟨targetObj, newTiles⟩ := covered_newDomains lifted hmap
  have hfits : ∀ s ∈ source.object.tiles, ∀ t, t ∈ targetObj.tiles ∨ t ∈ newTiles → CopyFits s t := by
    intro s hs t ht
    refine h.copy_lt.imp id fun ⟨hpos, htiles, hsrc⟩ => ⟨hpos, htiles _ ?_, hsrc s hs⟩
    rcases ht with ht | ht
    · exact List.mem_append_left _ (List.mem_map_of_mem ht)
    · exact List.mem_append_right _ (hmap ▸ List.mem_map_of_mem ht)
  obtain ⟨st, hloop, hst⟩ := updateFrom_run hsource.disjoint hcov hfits h.meets
  -- the loop keeps the domains of all tiles
  have hstDomains : st.newTiles.map Tile.domain = newDomains targetObj lifted :=
    (map_domain_of_written hst.newTiles).trans hmap
  have hobjWF := wf_of_written htarget hst.stored
  have hstore : Storable st.object (st.newTiles.map Tile.domain) := by
    rw [hstDomains]
    exact storable_of_written h.storable hst.layout hst.stored
  have hdisj : st.newTiles.Pairwise fun s t => ¬ s.domain.Intersects t.domain := by
    have hpair : (newDomains targetObj lifted).Pairwise fun a b => ¬ a.Intersects b :=
      (Tiler.tiles_tiledDomains lifted _).disjoint
    rw [← hstDomains] at hpair
    exact List.pairwise_map.mp hpair
  have hfree : ∀ t ∈ st.newTiles, ∀ s ∈ targetObj.tiles, ¬ s.domain.Intersects t.domain :=
    fun t ht s hs => not_intersects_newDomains (hstDomains ▸ List.mem_map_of_mem ht) hs
  have hfree' : ∀ t ∈ st.newTiles, ∀ s ∈ st.object.tiles, ¬ s.domain.Intersects t.domain := by
    intro t ht s hs
    obtain ⟨s₀, hs₀, hw⟩ := exists_written_of hst.stored hs
    exact hw.domain ▸ hfree t ht s₀ hs₀
  obtain ⟨m, hinsert, hm⟩ := inserted_run hobjWF hstore hfree' hdisj
  have hread : ∀ t ∈ targetObj.tiles, ∀ q ∈ t.domain, ∃ t', Written pl source.loadDomain
      source.object.tiles t t' ∧ m.pointQuery q = some (t'.cellAt q) := by
    intro t ht q hq
    obtain ⟨t', ht', hw⟩ := exists_of_written hst.stored ht
    refine ⟨t', hw, hm.outside q _ (fun s hs hqs => hfree s hs t ht (.of_mem hq hqs)) ?_⟩
    exact MDDObj.pointQuery_of_mem hobjWF ht' (hw.domain ▸ hq)
  refine ⟨m, ?_, hm.wf, fun p hp c hc => ?_, fun q c hc hne => ?_⟩
  · have hnewTiles' : (Tiler.tiledDomains [lifted] ((targetObj.intersect lifted).map Tile.domain)).mapM
        (generateTile source.object.tiles) = .ok newTiles := hnewTiles
    rw [evaluateTupel, hpl]
    simp only [bind, Except.bind]
    rw [← hlifted, if_pos htype, if_neg h.tiles_ne, hnewTiles']
    simp only
    rw [hloop]
    exact hinsert
  · obtain ⟨s, hs, hps, rfl⟩ := MDDObj.exists_of_pointQuery hsource hc
    rcases hcov.covers (pl.liftPoint p) (Placement.liftPoint_mem_lift.mpr hp) with
      ⟨t, ht, -, hq⟩ | ⟨t, ht, hq⟩
    · obtain ⟨t', hw, hcell⟩ := hread t ht _ hq
      rw [hcell, hw.source s hs p hps hp hq]
    · obtain ⟨t', ht', hw⟩ := exists_of_written hst.newTiles ht
      rw [hm.inside t' ht' _ (hw.domain ▸ hq), hw.source s hs p hps hp hq]
  · obtain ⟨t, ht, hq, rfl⟩ := MDDObj.exists_of_pointQuery htarget hc
    obtain ⟨t', hw, hcell⟩ := hread t ht q hq
    rw [hcell, hw.rest q hq fun s hs p hps hp => hne p hp ?_]
    rw [MDDObj.pointQuery_of_mem hsource hs hps]
    exact Option.some_ne_none _

/-- **Regular and aligned tiling can store the new tiles** of an object whose tiles are on the grid, if
there is one. -/
theorem storable_of_admits {pieces : List (Box (d + 1))}
    (hsl : m.storageLayout.IsRegularOrAligned)
    (hgrid : ∀ base, m.storageLayout.grid = some base → ∀ t ∈ m.tiles, ∃ k, t.domain = base.gridCell k)
    (hadm : ∀ b ∈ pieces, ∃ t : Tile d tsize, t.domain = b ∧ m.storageLayout.Admits t)
    (hfree : ∀ b ∈ pieces, ∀ t ∈ m.tiles, ¬ t.domain.Intersects b)
    (hdisj : pieces.Pairwise fun a b => ¬ a.Intersects b) : Storable m pieces := by
  -- the domains of a layout lie on the grid, or in the piece
  have hlay : ∀ b ∈ pieces, ∀ doms, m.storageLayout.getLayout b = .ok doms →
      IsLayout b doms ∧ (∀ c ∈ doms, c.cells.card * tsize < 2 ^ 32) ∧
      (∀ base, m.storageLayout.grid = some base → ∀ c ∈ doms, ∃ k, c = base.gridCell k) ∧
      (m.storageLayout.grid = none → ∀ c ∈ doms, b.Covers c) := by
    intro b hb doms hdoms
    obtain ⟨t, rfl, ht⟩ := hadm b hb
    obtain ⟨doms', hdoms', hall⟩ := ht.layout hsl
    obtain rfl : doms = doms' := Except.ok.inj (hdoms.symm.trans hdoms')
    exact hall
  refine ⟨fun b hb => ?_, fun b hb doms hdoms c hc t ht hi => ?_,
    fun b hb doms hdoms c hc b' hb' doms' hdoms' c' hc' hi => ?_⟩
  · obtain ⟨t, rfl, ht⟩ := hadm b hb
    obtain ⟨doms, hdoms, hlayout, hsize, -⟩ := ht.layout hsl
    exact ⟨doms, hdoms, hlayout, hsize⟩
  · obtain ⟨-, -, hon, hin⟩ := hlay b hb doms hdoms
    rcases hbase : m.storageLayout.grid with _ | base
    · obtain ⟨q, hqt, hqc⟩ := Box.intersects_iff.mp hi
      exact absurd (.of_mem hqt (Box.covers_iff.mp (hin hbase c hc) q hqc)) (hfree b hb t ht)
    · obtain ⟨k, hk⟩ := hgrid base hbase t ht
      obtain ⟨k', rfl⟩ := hon base hbase c hc
      rw [hk] at hi ⊢
      rw [Box.eq_of_gridCell_intersects hi]
  · obtain ⟨hlayout, -, hon, hin⟩ := hlay b hb doms hdoms
    obtain ⟨-, -, hon', hin'⟩ := hlay b' hb' doms' hdoms'
    rcases hbase : m.storageLayout.grid with _ | base
    · obtain ⟨q, hqc, hqc'⟩ := Box.intersects_iff.mp hi
      have hsymm : Std.Symm fun a b : Box (d + 1) => ¬ a.Intersects b := ⟨fun _ _ hn hi => hn hi.symm⟩
      obtain rfl : b = b' := by
        by_contra hne
        exact hdisj.forall hb hb' hne (.of_mem (Box.covers_iff.mp (hin hbase c hc) q hqc)
          (Box.covers_iff.mp (hin' hbase c' hc') q hqc'))
      obtain rfl : doms = doms' := Except.ok.inj (hdoms.symm.trans hdoms')
      by_contra hne
      exact hlayout.disjoint.forall hc hc' hne hi
    · obtain ⟨k, rfl⟩ := hon base hbase c hc
      obtain ⟨k', rfl⟩ := hon' base hbase c' hc'
      rw [Box.eq_of_gridCell_intersects hi]

open MDDObj in
/-- An object with the tile `[0:9]`. -/
def tensObject : MDDObj 0 1 := ⟨tensLayout, [byteRow 0 [0, 0, 0, 0, 0, 0, 0, 0, 0, 0] (by decide)]⟩

open MDDObj in
/-- A row of 8 cells from 5 on. -/
def rowFrom5 : QtMDD 0 1 where
  object := ⟨tensLayout, [byteRow 5 [1, 2, 3, 4, 5, 6, 7, 8] bytesTo8_ne_nil]⟩
  loadDomain := ⟨fun _ => 5, fun _ => 12, fun _ => by decide⟩

/-- Every dimension is a trim. -/
def inPlace : Placement 1 1 := ⟨fun _ => true, fun _ => 0, by decide⟩

theorem eq_of_mem_newDomains {b : Box 1}
    (hb : b ∈ newDomains tensObject (inPlace.lift rowFrom5.loadDomain)) :
    b = ⟨fun _ => 10, fun _ => 12, fun _ => by decide⟩ := by
  have hbounds : ∀ b ∈ newDomains tensObject (inPlace.lift rowFrom5.loadDomain),
      b.low 0 = 10 ∧ b.high 0 = 12 := by decide
  refine Box.ext_corners (funext fun i => ?_) (funext fun i => ?_)
  · rw [Fin.fin_one_eq_zero i]
    exact (hbounds b hb).1
  · rw [Fin.fin_one_eq_zero i]
    exact (hbounds b hb).2

theorem writable_rowFrom5 : Writable inPlace tensObject rowFrom5 := by
  refine ⟨by decide, by decide, fun b hb => ?_, Or.inl rfl, ?_⟩
  · rw [eq_of_mem_newDomains hb]
    decide
  · refine storable_of_admits MDDObj.isRegularOrAligned_tensLayout (fun base hbase t ht => ?_)
      (fun b hb => ?_) (by decide) (by decide)
    · obtain rfl := Option.some.inj (MDDObj.grid_tensLayout.symm.trans hbase)
      obtain rfl := List.mem_singleton.mp ht
      exact ⟨fun _ => 0, Box.ext_corners rfl rfl⟩
    · rw [eq_of_mem_newDomains hb]
      refine ⟨MDDObj.byteRow 10 [0, 0, 0] (by decide), Box.ext_corners rfl rfl, by decide, ?_,
        fun base hbase => ?_⟩
      · intro _ hscheme
        cases hscheme
      · obtain rfl := Option.some.inj (MDDObj.grid_tensLayout.symm.trans hbase)
        exact ⟨by decide, by decide⟩

open MDDObj in
/-- Two tiles `[5:9]` and `[0:4]`, of which a query uses the second. -/
def firstHalf : QtMDD 0 1 where
  object := ⟨tensLayout, [byteRow 5 [1, 2, 3, 4, 5] (by decide), byteRow 0 [1, 2, 3, 4, 5] (by decide)]⟩
  loadDomain := ⟨fun _ => 0, fun _ => 4, fun _ => by decide⟩

end Update

end Rasdaman
