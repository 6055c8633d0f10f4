import Mathlib
import Rasdaman.Qlparser.LoadedMDD
import Rasdaman.Raslib.MiterArea
import Rasdaman.Tilemgr.CellLoop

/-!
# Qlparser/BinaryInduce — a binary operation induced on two arrays

`computeBinaryMDDOp` goes over the tiles of the first operand and, for each, over those tiles of the
second that meet it after the translation between the load domains.  What a pair has in common becomes
a tile of the result.  The pairs are as disjoint as the tiles are, so that the tilings do not matter:
`binary_induce_spec`, where the iterators of each pair are in range (`PairsFit`).
-/

namespace Rasdaman

open Tile

variable {d s₁ s₂ resSize : ℕ}

/-- A binary operator on cells, with its null values set. -/
structure BinaryCellOp (resSize : ℕ) where
  apply : List UInt8 → List UInt8 → Except Halt (List UInt8)
  length_of_apply : ∀ {cellOp1 cellOp2 cellRes}, apply cellOp1 cellOp2 = .ok cellRes →
    cellRes.length = resSize

namespace QtBinaryInduce

/-! ## The operation -/

/-- The translation from the load domain of the first operand to that of the second. -/
def offset12 (areaOp1 areaOp2 : Box (d + 1)) : Point (d + 1) := fun i => areaOp2.low i - areaOp1.low i

/-- The translation back. -/
def offset21 (areaOp1 areaOp2 : Box (d + 1)) : Point (d + 1) := fun i => areaOp1.low i - areaOp2.low i

/-- The tile of the result for two tiles of the operands. -/
def resTile (myOp : BinaryCellOp resSize) (areaOp1 areaOp2 : Box (d + 1))
    (tiles : Tile d s₁ × Tile d s₂) : Except Halt (Tile d resSize) := do
  let tileOp2Dom := tiles.2.domain.createTranslation (offset21 areaOp1 areaOp2)
  let intersectDom ← (tiles.1.domain.createIntersection tileOp2Dom).mapError .throws
  let intersectDom ← (intersectDom.createIntersection areaOp1).mapError .throws
  let resTile ← Tile.zeros resSize intersectDom
  resTile.execBinaryOp myOp.apply intersectDom ⟨s₁, tiles.1, intersectDom⟩
    ⟨s₂, tiles.2, intersectDom.createTranslation (offset12 areaOp1 areaOp2)⟩

/-- The tiles of the second operand that meet a tile of the first. -/
def intersectTilesOp2 (op2 : MDDObj d s₂) (areaOp1 areaOp2 : Box (d + 1)) (tileOp1 : Tile d s₁) :
    Except Halt (List (Tile d s₂)) := do
  let intersectionTileOp1Dom ← (tileOp1.domain.createIntersection areaOp1).mapError .throws
  return op2.intersect (intersectionTileOp1Dom.createTranslation (offset12 areaOp1 areaOp2))

/-- `computeBinaryMDDOp`. -/
def computeBinaryMDDOp (operand1 : LoadedMDD d s₁) (operand2 : LoadedMDD d s₂)
    (myOp : BinaryCellOp resSize) : Except Halt (QtMDD d resSize) := do
  let areaOp1 := operand1.loadDomain
  let areaOp2 := operand2.loadDomain
  if areaOp1.getExtent = areaOp2.getExtent then
    let mddres ← operand1.tilesRead.foldlM (fun mddres tileOp1 => do
      let tilesOp2 ← intersectTilesOp2 operand2.object areaOp1 areaOp2 tileOp1
      mddres.insertEach (fun tileOp2 => resTile myOp areaOp1 areaOp2 (tileOp1, tileOp2)) tilesOp2)
      MDDObj.transient
    return ⟨mddres, areaOp1⟩
  else .error (.throws (.errorNo 351))

/-! ## The pairs of tiles -/

section Pairs

variable (x : LoadedMDD d s₁) (y : LoadedMDD d s₂)

/-- The point of the second operand that belongs to a point of the first. -/
def shift (p : Point (d + 1)) : Point (d + 1) := fun i => p i + offset12 x.loadDomain y.loadDomain i

/-- The tiles of the second operand for a tile of the first. -/
def partners (t : Tile d s₁) : List (Tile d s₂) :=
  (intersectTilesOp2 y.object x.loadDomain y.loadDomain t).toOption.getD []

/-- The pairs of tiles, in the order of the loops. -/
def pairs : List (Tile d s₁ × Tile d s₂) := x.tilesRead.flatMap fun t => (partners x y t).map (Prod.mk t)

variable {x y} {t : Tile d s₁} {u : Tile d s₂} {p : Point (d + 1)}

/-- A point that two tiles have in common, where it counts. -/
def Common (x : LoadedMDD d s₁) (y : LoadedMDD d s₂) (tiles : Tile d s₁ × Tile d s₂) (p : Point (d + 1)) :
    Prop := p ∈ tiles.1.domain ∧ p ∈ x.loadDomain ∧ shift x y p ∈ tiles.2.domain

theorem shift_sub (p : Point (d + 1)) :
    shift x y (fun i => p i - offset12 x.loadDomain y.loadDomain i) = p :=
  funext fun i => sub_add_cancel (p i) (offset12 x.loadDomain y.loadDomain i)

theorem mem_translate_shift {b : Box (d + 1)} :
    shift x y p ∈ b.createTranslation (offset12 x.loadDomain y.loadDomain) ↔ p ∈ b := by
  rw [Box.mem_createTranslation]
  simp only [shift, add_sub_cancel_right]

theorem mem_translate_back {b : Box (d + 1)} :
    p ∈ b.createTranslation (offset21 x.loadDomain y.loadDomain) ↔ shift x y p ∈ b := by
  rw [Box.mem_createTranslation]
  refine forall_congr' fun i => ?_
  simp only [shift, offset12, offset21]
  omega

theorem intersectTilesOp2_eq (ht : t ∈ x.tilesRead) :
    intersectTilesOp2 y.object x.loadDomain y.loadDomain t = .ok (partners x y t) := by
  obtain ⟨-, hi⟩ := LoadedMDD.mem_tilesRead.mp ht
  have hinter : t.domain.createIntersection x.loadDomain = .ok (t.domain.inter x.loadDomain hi) :=
    dif_pos hi
  rw [partners, intersectTilesOp2, hinter]
  rfl

theorem mem_partners (ht : t ∈ x.tilesRead) :
    u ∈ partners x y t ↔ u ∈ y.object.tiles ∧ ∃ p, Common x y (t, u) p := by
  obtain ⟨-, hi⟩ := LoadedMDD.mem_tilesRead.mp ht
  have hinter : t.domain.createIntersection x.loadDomain = .ok (t.domain.inter x.loadDomain hi) :=
    dif_pos hi
  have hpartners : partners x y t = y.object.intersect
      ((t.domain.inter x.loadDomain hi).createTranslation (offset12 x.loadDomain y.loadDomain)) := by
    rw [partners, intersectTilesOp2, hinter]
    rfl
  rw [hpartners, MDDObj.intersect, List.mem_filter, decide_eq_true_eq, Box.intersects_iff]
  refine and_congr_right fun _ => ⟨?_, ?_⟩
  · rintro ⟨q, hqu, hqt⟩
    rw [Box.mem_createTranslation, Box.mem_inter] at hqt
    exact ⟨_, hqt.1, hqt.2, (shift_sub q).symm ▸ hqu⟩
  · rintro ⟨p, hpt, hpx, hpu⟩
    exact ⟨shift x y p, hpu, mem_translate_shift.mpr (Box.mem_inter.mpr ⟨hpt, hpx⟩)⟩

theorem mem_pairs {tiles : Tile d s₁ × Tile d s₂} :
    tiles ∈ pairs x y ↔ tiles.1 ∈ x.object.tiles ∧ tiles.2 ∈ y.object.tiles ∧ ∃ p, Common x y tiles p := by
  obtain ⟨t, u⟩ := tiles
  simp only [pairs, List.mem_flatMap, List.mem_map, Prod.mk.injEq]
  constructor
  · rintro ⟨t', ht, u', hu, rfl, rfl⟩
    exact ⟨(LoadedMDD.mem_tilesRead.mp ht).1, (mem_partners ht).mp hu⟩
  · rintro ⟨ht, hu, p, hp⟩
    have htr : t ∈ x.tilesRead := LoadedMDD.mem_tilesRead.mpr ⟨ht, .of_mem hp.1 hp.2.1⟩
    exact ⟨t, htr, u, (mem_partners htr).mpr ⟨hu, p, hp⟩, rfl, rfl⟩

/-- **Two pairs have no point in common.** -/
theorem pairwise_pairs (x : LoadedMDD d s₁) (y : LoadedMDD d s₂) :
    (pairs x y).Pairwise fun a b => ∀ p, Common x y a p → ¬ Common x y b p := by
  rw [pairs, List.pairwise_flatMap]
  refine ⟨fun t _ => ?_, x.pairwise_tilesRead.imp fun {s t} hst a ha b hb p hpa hpb => ?_⟩
  · have hpartners : (partners x y t).Pairwise fun u v => ¬ u.domain.Intersects v.domain := by
      rw [partners, intersectTilesOp2]
      cases t.domain.createIntersection x.loadDomain with
      | error e => exact .nil
      | ok b => exact y.wf.disjoint.filter _
    rw [List.pairwise_map]
    exact hpartners.imp fun {u v} huv p hpu hpv => huv (.of_mem hpu.2.2 hpv.2.2)
  · obtain ⟨u, -, rfl⟩ := List.mem_map.mp ha
    obtain ⟨v, -, rfl⟩ := List.mem_map.mp hb
    exact hst (.of_mem hpa.1 hpb.1)

/-- The load domains have the same extents: the translation takes one to the other. -/
theorem shift_mem (hext : x.loadDomain.getExtent = y.loadDomain.getExtent) (hp : p ∈ x.loadDomain) :
    shift x y p ∈ y.loadDomain := by
  intro i
  have hi : (x.loadDomain.extent i : ℤ) = y.loadDomain.extent i := congrFun hext i
  rw [Box.extent_cast, Box.extent_cast] at hi
  have := hp i
  simp only [shift, offset12]
  omega

/-- **Each point of the load domain lies in a pair.** -/
theorem exists_pair (hext : x.loadDomain.getExtent = y.loadDomain.getExtent) (hp : p ∈ x.loadDomain) :
    ∃ tiles ∈ pairs x y, Common x y tiles p := by
  obtain ⟨t, ht, hpt⟩ := x.covered p hp
  obtain ⟨u, hu, hpu⟩ := y.covered _ (shift_mem hext hp)
  exact ⟨(t, u), mem_pairs.mpr ⟨ht, hu, p, hpt, hp, hpu⟩, hpt, hp, hpu⟩

end Pairs

/-! ## The tiles of the result -/

section Result

variable {x : LoadedMDD d s₁} {y : LoadedMDD d s₂} {tiles : Tile d s₁ × Tile d s₂}
variable {myOp : BinaryCellOp resSize}

/-- The iterators over the common part of two tiles are in range, and its cells in the result have
less than `2^32` bytes. -/
structure CommonFits (resSize : ℕ) (x : LoadedMDD d s₁) (y : LoadedMDD d s₂)
    (tiles : Tile d s₁ × Tile d s₂) (common : Box (d + 1)) : Prop where
  size_lt : common.cells.card * resSize < 2 ^ 32
  resTileIter : Miter.InRange common common resSize
  op1TileIter : Miter.InRange tiles.1.domain common s₁
  op2TileIter : Miter.InRange tiles.2.domain
    (common.createTranslation (offset12 x.loadDomain y.loadDomain)) s₂

/-- The common parts of all tiles fit. -/
def PairsFit (resSize : ℕ) (x : LoadedMDD d s₁) (y : LoadedMDD d s₂) : Prop :=
  ∀ t ∈ x.object.tiles, ∀ u ∈ y.object.tiles, ∀ common : Box (d + 1),
    (∀ p, p ∈ common ↔ Common x y (t, u) p) → CommonFits resSize x y (t, u) common

/-- A tile of the result: the cells of the common part, with the operator applied to them. -/
structure Piece (myOp : BinaryCellOp resSize) (x : LoadedMDD d s₁) (y : LoadedMDD d s₂)
    (tiles : Tile d s₁ × Tile d s₂) (res : Tile d resSize) : Prop where
  mem_iff : ∀ p, p ∈ res.domain ↔ Common x y tiles p
  size_lt : res.domain.cells.card * resSize < 2 ^ 32
  cell : ∀ p ∈ res.domain,
    myOp.apply (tiles.1.cellAt p) (tiles.2.cellAt (shift x y p)) = .ok (res.cellAt p)

/-- `resTile` for two tiles with a point in common. -/
theorem resTile_eq (myOp : BinaryCellOp resSize) {p : Point (d + 1)} (hp : Common x y tiles p) :
    ∃ common : Box (d + 1), (∀ p, p ∈ common ↔ Common x y tiles p) ∧
      resTile myOp x.loadDomain y.loadDomain tiles = (do
        let resTile ← Tile.zeros resSize common
        resTile.execBinaryOp myOp.apply common ⟨s₁, tiles.1, common⟩
          ⟨s₂, tiles.2, common.createTranslation (offset12 x.loadDomain y.loadDomain)⟩) := by
  set moved := tiles.2.domain.createTranslation (offset21 x.loadDomain y.loadDomain) with hmoved
  have hmem : p ∈ moved := mem_translate_back.mpr hp.2.2
  have hi : tiles.1.domain.Intersects moved := .of_mem hp.1 hmem
  have hi' : (tiles.1.domain.inter moved hi).Intersects x.loadDomain :=
    .of_mem (Box.mem_inter.mpr ⟨hp.1, hmem⟩) hp.2.1
  have h₁ : tiles.1.domain.createIntersection moved = .ok (tiles.1.domain.inter moved hi) := dif_pos hi
  have h₂ : (tiles.1.domain.inter moved hi).createIntersection x.loadDomain =
      .ok ((tiles.1.domain.inter moved hi).inter x.loadDomain hi') := dif_pos hi'
  refine ⟨(tiles.1.domain.inter moved hi).inter x.loadDomain hi', fun q => ?_, ?_⟩
  · rw [Box.mem_inter, Box.mem_inter, hmoved, mem_translate_back, Common]
    tauto
  · simp only [resTile, ← hmoved, h₁, h₂, Except.mapError, bind, Except.bind]

theorem inStep_common {common : Box (d + 1)} (hmem : ∀ p, p ∈ common ↔ Common x y tiles p)
    (hfits : CommonFits resSize x y tiles common) :
    InStep common common resSize [⟨s₁, tiles.1, common⟩,
      ⟨s₂, tiles.2, common.createTranslation (offset12 x.loadDomain y.loadDomain)⟩] := by
  refine ⟨Box.Covers.refl _, hfits.resTileIter, ?_⟩
  simp only [List.forall_mem_cons, List.not_mem_nil, false_imp_iff, implies_true, and_true]
  refine ⟨⟨Box.covers_iff.mpr fun p hp => ((hmem p).mp hp).1, rfl, hfits.op1TileIter⟩,
    Box.covers_iff.mpr fun p hp => ?_, Box.card_createTranslation .., hfits.op2TileIter⟩
  have hcommon := ((hmem _).mp (Box.mem_createTranslation.mp hp)).2.2
  rwa [shift_sub] at hcommon

/-- **The tile for a pair**: the operator is applied to the cells of the common part, if it can be. -/
theorem resTile_spec (myOp : BinaryCellOp resSize) {p : Point (d + 1)} (hp : Common x y tiles p)
    (hfits : ∀ common : Box (d + 1), (∀ p, p ∈ common ↔ Common x y tiles p) →
      CommonFits resSize x y tiles common) :
    ((∀ p, Common x y tiles p → ∃ c,
        myOp.apply (tiles.1.cellAt p) (tiles.2.cellAt (shift x y p)) = .ok c) →
      ∃ res, resTile myOp x.loadDomain y.loadDomain tiles = .ok res ∧ Piece myOp x y tiles res) ∧
    ∀ p, Common x y tiles p → ∀ e,
      myOp.apply (tiles.1.cellAt p) (tiles.2.cellAt (shift x y p)) = .error e →
        ∃ e', resTile myOp x.loadDomain y.loadDomain tiles = .error e' := by
  obtain ⟨common, hmem, heq⟩ := resTile_eq myOp hp
  have hfit := hfits common hmem
  obtain ⟨zero, hzero, hdom, -⟩ := Tile.zeros_spec resSize hfit.size_lt
  have hstep : InStep zero.domain common resSize [⟨s₁, tiles.1, common⟩,
      ⟨s₂, tiles.2, common.createTranslation (offset12 x.loadDomain y.loadDomain)⟩] := by
    rw [hdom]
    exact inStep_common hmem hfit
  have hcells : ∀ n, onTwo myOp.apply ([⟨s₁, tiles.1, common⟩,
      ⟨s₂, tiles.2, common.createTranslation (offset12 x.loadDomain y.loadDomain)⟩].map
        fun o : CellOperand d => o.cellNo n) =
      myOp.apply (tiles.1.cellAt (common.pointAt n)) (tiles.2.cellAt (shift x y (common.pointAt n))) := by
    intro n
    simp only [List.map_cons, List.map_nil, onTwo, CellOperand.cellNo, Box.pointAt_createTranslation]
    rfl
  have hcommon : ∀ n < common.cells.card, Common x y tiles (common.pointAt n) :=
    fun n hn => (hmem _).mp (Box.pointAt_mem hn)
  rw [heq, hzero]
  simp only [bind, Except.bind]
  constructor
  · intro hop
    obtain ⟨res, hres, hresDom, hresCells, -⟩ := execOp_spec hstep
      (returnsCells_onTwo fun h => myOp.length_of_apply h) fun n hn => by
        rw [hcells]
        exact hop _ (hcommon n hn)
    have hresDom' : res.domain = common := hresDom.trans hdom
    refine ⟨res, hres, fun p => ?_, hresDom' ▸ hfit.size_lt, fun p hp => ?_⟩
    · rw [hresDom', hmem]
    · rw [hresDom'] at hp
      have hcell := hresCells p hp
      rwa [hcells, Box.pointAt_index hp] at hcell
  · intro q hq e he
    have hqc := (hmem q).mpr hq
    refine execOp_error hstep (Box.index_lt hqc) (e := e) ?_
    rw [hcells, Box.pointAt_index hqc]
    exact he

/-- The loops make a tile of each pair. -/
theorem computeBinaryMDDOp_eq (hext : x.loadDomain.getExtent = y.loadDomain.getExtent) :
    computeBinaryMDDOp x y myOp = (do
      let tiles ← (pairs x y).mapM (resTile myOp x.loadDomain y.loadDomain)
      return ⟨⟨.transient resSize, tiles⟩, x.loadDomain⟩) := by
  have hloop : ∀ (ts : List (Tile d s₁)) (m : MDDObj d resSize), (∀ t ∈ ts, t ∈ x.tilesRead) →
      ts.foldlM (fun mddres tileOp1 => do
        let tilesOp2 ← intersectTilesOp2 y.object x.loadDomain y.loadDomain tileOp1
        mddres.insertEach (fun tileOp2 => resTile myOp x.loadDomain y.loadDomain (tileOp1, tileOp2))
          tilesOp2) m =
      m.insertEach (resTile myOp x.loadDomain y.loadDomain)
        (ts.flatMap fun t => (partners x y t).map (Prod.mk t)) := by
    intro ts m hts
    induction ts generalizing m with
    | nil => rfl
    | cons t ts ih =>
      obtain ⟨ht, hts⟩ := List.forall_mem_cons.mp hts
      rw [List.foldlM_cons, List.flatMap_cons, MDDObj.insertEach, List.foldlM_append,
        intersectTilesOp2_eq ht, List.foldlM_map]
      exact congrArg (_ >>= ·) (funext fun m => ih m hts)
  rw [computeBinaryMDDOp, if_pos hext, hloop _ _ fun t ht => ht, ← pairs, MDDObj.insertEach_eq MDDObj.unlaid_transient]
  cases (pairs x y).mapM (resTile myOp x.loadDomain y.loadDomain) with
  | error e => rfl
  | ok tiles => rfl

/-- The operator is defined on the two cells that belong to a point. -/
def Defined (myOp : BinaryCellOp resSize) (x : LoadedMDD d s₁) (y : LoadedMDD d s₂)
    (p : Point (d + 1)) : Prop :=
  ∃ c, myOp.apply (x.cell p) (y.cell (shift x y p)) = .ok c

theorem cells_of_mem_pairs (h : tiles ∈ pairs x y) {p : Point (d + 1)} (hp : Common x y tiles p) :
    x.cell p = tiles.1.cellAt p ∧ y.cell (shift x y p) = tiles.2.cellAt (shift x y p) := by
  obtain ⟨ht, hu, -⟩ := mem_pairs.mp h
  exact ⟨LoadedMDD.cell_of_mem ht hp.1, LoadedMDD.cell_of_mem hu hp.2.2⟩

/-- **A pair gives a tile exactly if the operator is defined on all its points.** -/
theorem resTile_ok_iff (hfits : PairsFit resSize x y) (h : tiles ∈ pairs x y) :
    ((∃ res, resTile myOp x.loadDomain y.loadDomain tiles = .ok res) ↔
      ∀ p, Common x y tiles p → Defined myOp x y p) ∧
    ∀ res, resTile myOp x.loadDomain y.loadDomain tiles = .ok res → Piece myOp x y tiles res := by
  obtain ⟨ht, hu, p, hp⟩ := mem_pairs.mp h
  obtain ⟨hok, herror⟩ := resTile_spec myOp hp (hfits _ ht _ hu)
  have hdefined : ∀ q, Common x y tiles q → (Defined myOp x y q ↔ ∃ c,
      myOp.apply (tiles.1.cellAt q) (tiles.2.cellAt (shift x y q)) = .ok c) := by
    intro q hq
    obtain ⟨hx, hy⟩ := cells_of_mem_pairs h hq
    rw [Defined, hx, hy]
  have hall : (∃ res, resTile myOp x.loadDomain y.loadDomain tiles = .ok res) →
      ∀ q, Common x y tiles q → Defined myOp x y q := by
    rintro ⟨res, hres⟩ q hq
    rw [hdefined q hq]
    cases happly : myOp.apply (tiles.1.cellAt q) (tiles.2.cellAt (shift x y q)) with
    | ok c => exact ⟨c, rfl⟩
    | error e =>
      obtain ⟨e', he'⟩ := herror q hq e happly
      rw [he'] at hres
      cases hres
  refine ⟨⟨hall, fun hdef => ?_⟩, fun res hres => ?_⟩
  · obtain ⟨res, hres, -⟩ := hok fun q hq => (hdefined q hq).mp (hdef q hq)
    exact ⟨res, hres⟩
  · obtain ⟨res', hres', hpiece⟩ := hok fun q hq => (hdefined q hq).mp (hall ⟨res, hres⟩ q hq)
    obtain rfl := Except.ok.inj (hres.symm.trans hres')
    exact hpiece

/-- The result of the operation: disjoint tiles that cover the first load domain, and the operator applied
to the cells that belong to each point. -/
structure Combines (myOp : BinaryCellOp resSize) (x : LoadedMDD d s₁) (y : LoadedMDD d s₂)
    (r : QtMDD d resSize) : Prop where
  loadDomain : r.loadDomain = x.loadDomain
  tiles : Tiles x.loadDomain.region (r.object.tiles.map Tile.domain)
  cell : ∀ p ∈ x.loadDomain, ∃ c, r.object.pointQuery p = some c ∧
    myOp.apply (x.cell p) (y.cell (shift x y p)) = .ok c

/-- Pieces of all pairs make up the result. -/
theorem combines_of_pieces (hext : x.loadDomain.getExtent = y.loadDomain.getExtent)
    {res : List (Tile d resSize)} (hres : List.Forall₂ (Piece myOp x y) (pairs x y) res) :
    Combines myOp x y ⟨⟨.transient resSize, res⟩, x.loadDomain⟩ := by
  have hdisj : res.Pairwise fun s t => ¬ s.domain.Intersects t.domain := by
    refine ExceptFold.pairwise_of_forall₂ (pairwise_pairs x y) hres fun a b s t hab hs ht hi => ?_
    obtain ⟨p, hps, hpt⟩ := Box.intersects_iff.mp hi
    exact hab p ((hs.mem_iff p).mp hps) ((ht.mem_iff p).mp hpt)
  have hmem : ∀ p, p ∈ x.loadDomain ↔ ∃ t ∈ res, p ∈ t.domain := by
    intro p
    constructor
    · intro hp
      obtain ⟨tiles, htiles, hcommon⟩ := exists_pair hext hp
      obtain ⟨t, ht, hpiece⟩ := ExceptFold.exists_right hres htiles
      exact ⟨t, ht, (hpiece.mem_iff p).mpr hcommon⟩
    · rintro ⟨t, ht, hp⟩
      obtain ⟨tiles, -, hpiece⟩ := ExceptFold.exists_left hres ht
      exact ((hpiece.mem_iff p).mp hp).2.1
  have hwf : (⟨.transient resSize, res⟩ : MDDObj d resSize).WF := by
    refine ⟨hdisj, fun t ht => ?_⟩
    obtain ⟨tiles, -, hpiece⟩ := ExceptFold.exists_left hres ht
    exact hpiece.size_lt
  refine ⟨rfl, ⟨List.pairwise_map.mpr hdisj, fun p => ?_⟩, fun p hp => ?_⟩
  · rw [Box.mem_region, hmem p]
    simp
  · obtain ⟨t, ht, hpt⟩ := (hmem p).mp hp
    obtain ⟨tiles, htiles, hpiece⟩ := ExceptFold.exists_left hres ht
    obtain ⟨hx, hy⟩ := cells_of_mem_pairs htiles ((hpiece.mem_iff p).mp hpt)
    refine ⟨t.cellAt p, MDDObj.pointQuery_of_mem hwf ht hpt, ?_⟩
    rw [hx, hy]
    exact hpiece.cell p hpt

end Result

end QtBinaryInduce

/-- The operator that returns its first operand, for cells of one byte. -/
def leftByte : BinaryCellOp 1 where
  apply := fun cellOp1 _ => .ok [cellOp1.headD 0]
  length_of_apply := fun h => congrArg List.length (Except.ok.inj h).symm

/-- A tile of more than `2^31` bytes. -/
def hugeDomain : Box 2 := ⟨![0, 0], ![2, 2 ^ 30], by decide⟩

theorem card_hugeDomain : hugeDomain.cells.card = 3221225475 := by
  rw [Box.card_cells, Fin.prod_univ_two]
  decide

/-- The first cell of its last row. -/
def lastRow : Box 2 := ⟨![2, 0], ![2, 0], fun _ => le_rfl⟩

theorem covers_lastRow : hugeDomain.Covers lastRow := by decide

/-- A part of a tile of one byte over and over. -/
def ofFilled (dom : Box 2) (byte : UInt8) (h : dom.cells.card < 2 ^ 32) (loadDomain : Box 2)
    (hcov : dom.Covers loadDomain) : LoadedMDD 1 1 :=
  .within (.filled dom 1 byte) (by simpa using h) loadDomain hcov

/-- An array of one cell, which is in the last row of a huge tile. -/
def inHugeTile (byte : UInt8) : LoadedMDD 1 1 :=
  ofFilled hugeDomain byte (card_hugeDomain ▸ by norm_num) lastRow covers_lastRow

/-- The iterator over the last row of the huge tile stands before the tile. -/
theorem nextCell_lastRow : (Miter.make hugeDomain lastRow 1).nextCell.1 = -2147483646 := by decide

open QtBinaryInduce in
/-- No tile is made of the last row. -/
theorem resTile_inHugeTile {tiles : Tile 1 1 × Tile 1 1}
    (h : tiles ∈ pairs (inHugeTile 7) (.ofByte ![0, 0] 1)) :
    ∃ e, resTile leftByte (inHugeTile 7).loadDomain (LoadedMDD.ofByte (d := 1) ![0, 0] 1).loadDomain tiles =
      .error e := by
  obtain ⟨ht, hu, p, hp⟩ := mem_pairs.mp h
  obtain ⟨t, u⟩ := tiles
  obtain rfl : t = .filled hugeDomain 1 7 := List.mem_singleton.mp ht
  obtain ⟨common, hmem, heq⟩ := resTile_eq leftByte hp
  obtain rfl : u = ⟨⟨![0, 0], ![0, 0], fun _ => le_rfl⟩, [1], by simp [Box.card_cells]⟩ :=
    List.mem_singleton.mp hu
  obtain rfl : common = lastRow := by
    refine Box.eq_of_mem_iff fun q => (hmem q).trans ⟨fun hq => hq.2.1, fun hq => ?_⟩
    refine ⟨Box.covers_iff.mp covers_lastRow q hq, hq, fun i => ?_⟩
    have hi : lastRow.low i ≤ q i ∧ q i ≤ lastRow.high i := hq i
    simp only [shift, offset12, inHugeTile, ofFilled, LoadedMDD.ofByte, LoadedMDD.ofTile,
      LoadedMDD.loadDomain_within]
    fin_cases i <;> simp [lastRow] at hi ⊢ <;> omega
  obtain ⟨zero, hzero, hdom, -⟩ :=
    Tile.zeros_spec 1 (show lastRow.cells.card * 1 < 2 ^ 32 by decide)
  refine ⟨.outside, ?_⟩
  rw [heq, hzero]
  simp only [bind, Except.bind, Tile.execBinaryOp]
  refine execOp_read_error ?_
  rw [CellSource.read, CellOperand.source]
  simp only [Tile.domain_filled, nextCell_lastRow]
  rw [readAt, if_neg (by omega)]

end Rasdaman
