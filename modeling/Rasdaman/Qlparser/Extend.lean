import Mathlib
import Rasdaman.Qlparser.LoadedMDD
import Rasdaman.Raslib.Zones

/-!
# Qlparser/Extend — extending an array to a larger domain

`QtExtend::evaluate` copies the source tiles and fills the new space with tiles of zeros: one on each
side of the load domain, then one in each corner, which `extendGetCornerTiles` finds by taking the space
below or above in every dimension.

In the words of `Raslib/Zones` a side is a zone that leaves the load domain in one dimension, a corner
one that leaves it in all.  From three dimensions on there are others, the edges, and in one dimension
the sides are the corners.

`extend_covers_iff` — this is all that goes wrong, memory apart.
-/

namespace Rasdaman

variable {d tsize : ℕ}

namespace QtExtend

/-! ## The domains of the new tiles -/

/-- `extendGetCornerTiles`: the dimensions still to go through, and the interval built up. -/
def extendGetCornerTiles (outerDomain innerDomain : Box d) :
    List (Fin d) → (Fin d → Sinterval) → List (Fin d → Sinterval)
  | [], currentInterval => [currentInterval]
  | i :: is, currentInterval =>
    (if outerDomain.low i < innerDomain.low i then
      extendGetCornerTiles outerDomain innerDomain is (Function.update currentInterval i
        (.fixed (outerDomain.low i) (innerDomain.low i - 1)))
    else []) ++
    (if innerDomain.high i < outerDomain.high i then
      extendGetCornerTiles outerDomain innerDomain is (Function.update currentInterval i
        (.fixed (innerDomain.high i + 1) (outerDomain.high i)))
    else [])

/-- The intervals of a minterval. -/
def intervals (b : Box d) (i : Fin d) : Sinterval := .fixed (b.low i) (b.high i)

/-- The lower and the upper neighbour in a dimension. -/
def neighbours (targetDomain loadDomain : Box d) (i : Fin d) : List (Fin d → Sinterval) :=
  (if targetDomain.low i < loadDomain.low i then
    [Function.update (intervals loadDomain) i
      (.fixed (targetDomain.low i) (loadDomain.low i - 1))]
  else []) ++
  (if targetDomain.high i > loadDomain.high i then
    [Function.update (intervals loadDomain) i
      (.fixed (loadDomain.high i + 1) (targetDomain.high i))]
  else [])

/-- `extendDomainList`. -/
def extendDomainList (targetDomain loadDomain : Box d) : List (Fin d → Sinterval) :=
  (List.finRange d).flatMap (neighbours targetDomain loadDomain) ++
    extendGetCornerTiles targetDomain loadDomain (List.finRange d) fun _ => .opened

/-! ## The evaluation -/

/-- The new tile for a source tile. -/
def sourcePart (loadDomain : Box (d + 1)) (tile : Tile d tsize) : Except Halt (Tile d tsize) := do
  let sourceTileDomain ← (loadDomain.createIntersection tile.domain).mapError .throws
  let newTransTile ← Tile.zeros tsize sourceTileDomain
  newTransTile.copyTile sourceTileDomain tile sourceTileDomain

/-- The new tile for a domain of the list. -/
def fillTile (tsize : ℕ) (domain : Fin (d + 1) → Sinterval) : Except Halt (Tile d tsize) :=
  ((StorageLayout.fixedBox domain).map (Tile.zeros tsize)).getD (.error (.throws .intervalOpen))

/-- `evaluate`, for a target domain with the dimension of the operand and no open bounds. -/
def evaluate (mdd : LoadedMDD d tsize) (targetDomain : Box (d + 1)) : Except Halt (QtMDD d tsize) := do
  let resultMDD ← MDDObj.transient.insertEach (sourcePart mdd.loadDomain) mdd.tilesRead
  let resultMDD ← resultMDD.insertEach (fillTile tsize) (extendDomainList targetDomain mdd.loadDomain)
  return ⟨resultMDD, targetDomain⟩

/-! ## Sides and corners as zones -/

/-- The intervals of a zone. -/
def zoneIntervals (outer inner : Box d) (z : Fin d → Zone) (i : Fin d) : Sinterval :=
  .fixed (outer.zoneLow inner i (z i)) (outer.zoneHigh inner i (z i))

/-- The corners, as zones. -/
def cornerZones (outer inner : Box d) : List (Fin d) → (Fin d → Zone) → List (Fin d → Zone)
  | [], z => [z]
  | i :: is, z =>
    (if outer.Room inner i .below then cornerZones outer inner is (Function.update z i .below)
    else []) ++
    (if outer.Room inner i .above then cornerZones outer inner is (Function.update z i .above)
    else [])

/-- The sides in a dimension, as zones. -/
def sideZones (outer inner : Box d) (i : Fin d) : List (Fin d → Zone) :=
  (if outer.Room inner i .below then [Function.update (fun _ => .inside) i .below] else []) ++
    (if outer.Room inner i .above then [Function.update (fun _ => .inside) i .above] else [])

/-- The zones of the new tiles. -/
def borderZones (outer inner : Box d) : List (Fin d → Zone) :=
  (List.finRange d).flatMap (sideZones outer inner) ++
    cornerZones outer inner (List.finRange d) fun _ => .inside

variable {outer inner : Box d} {is : List (Fin d)} {z w : Fin d → Zone}

theorem zoneIntervals_update (i : Fin d) (v : Zone) :
    zoneIntervals outer inner (Function.update z i v) =
      Function.update (zoneIntervals outer inner z) i
        (.fixed (outer.zoneLow inner i v) (outer.zoneHigh inner i v)) := by
  funext j
  rcases eq_or_ne j i with rfl | hj
  · simp [zoneIntervals]
  · simp [zoneIntervals, hj]

theorem extendGetCornerTiles_eq {cur : Fin d → Sinterval}
    (h : ∀ j ∉ is, cur j = zoneIntervals outer inner z j) :
    extendGetCornerTiles outer inner is cur =
      (cornerZones outer inner is z).map (zoneIntervals outer inner) := by
  induction is generalizing cur z with
  | nil =>
    rw [extendGetCornerTiles, cornerZones, List.map_singleton]
    exact congrArg ([·]) (funext fun j => h j List.not_mem_nil)
  | cons i is ih =>
    have hupdate : ∀ v, ∀ j ∉ is, Function.update cur i
        (.fixed (outer.zoneLow inner i v) (outer.zoneHigh inner i v)) j =
          zoneIntervals outer inner (Function.update z i v) j := by
      intro v j hj
      rw [zoneIntervals_update]
      rcases eq_or_ne j i with rfl | hne
      · simp
      · simp only [Function.update_of_ne hne]
        exact h j (by simp [hne, hj])
    rw [extendGetCornerTiles, cornerZones, List.map_append]
    congr 1
    · rw [apply_ite (List.map _), ← ih (hupdate .below)]
      rfl
    · rw [apply_ite (List.map _), ← ih (hupdate .above)]
      rfl

theorem neighbours_eq (i : Fin d) :
    neighbours outer inner i = (sideZones outer inner i).map (zoneIntervals outer inner) := by
  have hinside : zoneIntervals outer inner (fun _ => .inside) = intervals inner := rfl
  rw [neighbours, sideZones, List.map_append]
  congr 1
  · rw [apply_ite (List.map _), List.map_singleton, zoneIntervals_update, hinside]
    rfl
  · rw [apply_ite (List.map _), List.map_singleton, zoneIntervals_update, hinside]
    rfl

/-- **The list of the source is the list of the zones.** -/
theorem extendDomainList_eq (outer inner : Box d) :
    extendDomainList outer inner = (borderZones outer inner).map (zoneIntervals outer inner) := by
  rw [extendDomainList, borderZones, List.map_append, List.map_flatMap,
    extendGetCornerTiles_eq (z := fun _ => .inside) (by simp)]
  exact congrArg (· ++ _) (congrArg (List.flatMap · _) (funext neighbours_eq))

/-! ## Which zones these are -/

/-- A side: it leaves the load domain in one dimension. -/
def IsSide (z : Fin d → Zone) : Prop := ∃ i, z i ≠ .inside ∧ ∀ j ≠ i, z j = .inside

/-- A corner: it leaves the load domain in all dimensions. -/
def IsCorner (z : Fin d → Zone) : Prop := ∀ i, z i ≠ .inside

theorem mem_sideZones {i : Fin d} :
    w ∈ sideZones outer inner i ↔
      w i ≠ .inside ∧ outer.Room inner i (w i) ∧ ∀ j ≠ i, w j = .inside := by
  have hupdate : ∀ v, w = Function.update (fun _ => Zone.inside) i v ↔
      w i = v ∧ ∀ j ≠ i, w j = .inside := fun v => Function.eq_update_iff
  rw [sideZones, List.mem_append, apply_ite (w ∈ ·), apply_ite (w ∈ ·)]
  simp only [List.mem_singleton, List.not_mem_nil, if_false_right, hupdate]
  cases hw : w i <;> simp

theorem mem_cornerZones (his : is.Nodup) :
    w ∈ cornerZones outer inner is z ↔
      (∀ j ∉ is, w j = z j) ∧ ∀ i ∈ is, w i ≠ .inside ∧ outer.Room inner i (w i) := by
  induction is generalizing z with
  | nil => simp [cornerZones, funext_iff]
  | cons i is ih =>
    obtain ⟨hi, his⟩ := List.nodup_cons.mp his
    have hupdate : ∀ v, (∀ j ∉ is, w j = Function.update z i v j) ↔
        w i = v ∧ ∀ j ∉ i :: is, w j = z j := by
      intro v
      constructor
      · intro h
        refine ⟨by simpa using h i hi, fun j hj => ?_⟩
        rw [List.mem_cons, not_or] at hj
        simpa [hj.1] using h j hj.2
      · rintro ⟨hwi, h⟩ j hj
        rcases eq_or_ne j i with rfl | hne
        · simpa using hwi
        · simpa [hne] using h j (by simp [hne, hj])
    rw [cornerZones, List.mem_append, apply_ite (w ∈ ·), apply_ite (w ∈ ·), ih his, ih his,
      hupdate, hupdate]
    simp only [List.not_mem_nil, if_false_right, List.forall_mem_cons]
    cases hw : w i <;> simp <;> tauto

theorem mem_flatMap_sideZones :
    w ∈ (List.finRange d).flatMap (sideZones outer inner) ↔
      IsSide w ∧ ∀ i, outer.Room inner i (w i) := by
  simp only [List.mem_flatMap, List.mem_finRange, true_and, mem_sideZones]
  constructor
  · rintro ⟨i, hwi, hi, hin⟩
    refine ⟨⟨i, hwi, hin⟩, fun j => ?_⟩
    rcases eq_or_ne j i with rfl | hj
    · exact hi
    · rw [hin j hj]
      trivial
  · rintro ⟨⟨i, hwi, hin⟩, h⟩
    exact ⟨i, hwi, h i, hin⟩

theorem mem_cornerZones_finRange :
    w ∈ cornerZones outer inner (List.finRange d) (fun _ => .inside) ↔
      IsCorner w ∧ ∀ i, outer.Room inner i (w i) := by
  simp [mem_cornerZones (List.nodup_finRange d), IsCorner, forall_and]

/-- **The zones of the new tiles are the sides and the corners with room.** -/
theorem mem_borderZones :
    w ∈ borderZones outer inner ↔ (IsSide w ∨ IsCorner w) ∧ ∀ i, outer.Room inner i (w i) := by
  rw [borderZones, List.mem_append, mem_flatMap_sideZones, mem_cornerZones_finRange, or_and_right]

theorem nodup_sideZones (outer inner : Box d) :
    ((List.finRange d).flatMap (sideZones outer inner)).Nodup := by
  refine List.nodup_flatMap.mpr ⟨fun i _ => ?_, ?_⟩
  · have hne : Function.update (fun _ => Zone.inside) i .below ≠
        Function.update (fun _ => Zone.inside) i .above := by
      intro h
      simpa using congrFun h i
    rw [sideZones]
    split <;> split <;> simp [hne]
  · refine (List.nodup_finRange d).imp_of_mem fun {i j} _ _ hij w hi hj => ?_
    exact (mem_sideZones.mp hi).1 ((mem_sideZones.mp hj).2.2 i hij)

theorem nodup_cornerZones (his : is.Nodup) : (cornerZones outer inner is z).Nodup := by
  induction is generalizing z with
  | nil => exact List.nodup_singleton _
  | cons i is ih =>
    obtain ⟨hi, his⟩ := List.nodup_cons.mp his
    have hat : ∀ v, ∀ w ∈ cornerZones outer inner is (Function.update z i v), w i = v := by
      intro v w hw
      simpa using ((mem_cornerZones his).mp hw).1 i hi
    rw [cornerZones]
    refine List.nodup_append.mpr ⟨?_, ?_, fun w hw w' hw' heq => ?_⟩
    · split
      · exact ih his
      · exact List.nodup_nil
    · split
      · exact ih his
      · exact List.nodup_nil
    · rw [apply_ite (w ∈ ·)] at hw
      rw [apply_ite (w' ∈ ·)] at hw'
      simp only [List.not_mem_nil, if_false_right] at hw hw'
      have hb := hat _ w hw.2
      rw [heq, hat _ w' hw'.2] at hb
      cases hb

/-! ## When sides and corners are all there is -/

section Geometry

variable (target load : Box (d + 1))

/-- The target domain leaves the load domain in a dimension. -/
def Extended (i : Fin (d + 1)) : Prop := target.low i < load.low i ∨ load.high i < target.high i

/-- There are two dimensions, or only one is extended, and it is not the only one there is. -/
def NoEdge : Prop :=
  d = 1 ∨ (∀ i j, Extended target load i → Extended target load j → i = j) ∧
    (d = 0 → ¬ Extended target load ⟨0, Nat.succ_pos d⟩)

variable {target load}

theorem extended_of_zone {p : Point (d + 1)} (hp : p ∈ target) {i : Fin (d + 1)}
    (h : load.zoneOf p i ≠ .inside) : Extended target load i := by
  have := hp i
  rw [Extended]
  by_contra hn
  refine h ?_
  rw [Box.zoneOf, if_neg (by omega), if_neg (by omega)]

theorem exists_zone_of_extended {i : Fin (d + 1)} (h : Extended target load i) :
    ∃ v, v ≠ Zone.inside ∧ target.Room load i v := by
  rcases h with hlow | hhigh
  · exact ⟨.below, by decide, hlow⟩
  · exact ⟨.above, by decide, hhigh⟩

/-- No new domain occurs twice exactly if no side is a corner with room. -/
theorem nodup_borderZones_iff :
    (borderZones target load).Nodup ↔ (d = 0 → ¬ Extended target load 0) := by
  rw [borderZones, List.nodup_append]
  constructor
  · rintro ⟨-, -, hdisj⟩ rfl hext
    obtain ⟨v, hv, hroom⟩ := exists_zone_of_extended hext
    have hall : ∀ i : Fin 1, target.Room load i v := fun i => Subsingleton.elim 0 i ▸ hroom
    refine hdisj (fun _ => v) ?_ (fun _ => v) ?_ rfl
    · exact mem_flatMap_sideZones.mpr ⟨⟨0, hv, fun j hj => absurd (Fin.fin_one_eq_zero j) hj⟩, hall⟩
    · exact mem_cornerZones_finRange.mpr ⟨fun _ => hv, hall⟩
  · intro h
    refine ⟨nodup_sideZones .., nodup_cornerZones (List.nodup_finRange _), fun z hz w hw hzw => ?_⟩
    obtain ⟨⟨i, hi, hin⟩, hroom⟩ := mem_flatMap_sideZones.mp hz
    have hcorner := (mem_cornerZones_finRange.mp (hzw ▸ hw)).1
    -- a side that is a corner: there is one dimension
    have hd : d = 0 := by
      by_contra hne
      have : Nontrivial (Fin (d + 1)) := Fin.nontrivial_iff_two_le.mpr (by omega)
      obtain ⟨j, hj⟩ := exists_ne i
      exact hcorner j (hin j hj)
    subst hd
    obtain rfl : i = 0 := Fin.fin_one_eq_zero i
    refine h rfl ?_
    have hroom0 := hroom 0
    cases hz0 : z 0 with
    | below =>
      rw [hz0] at hroom0
      exact Or.inl hroom0
    | inside => exact absurd hz0 hi
    | above =>
      rw [hz0] at hroom0
      exact Or.inr hroom0

/-- A coordinate of the target domain out of the load domain. -/
def beyond (target load : Box (d + 1)) (i : Fin (d + 1)) : ℤ :=
  if target.low i < load.low i then target.low i else target.high i

/-- **Sides and corners fill the new space** exactly if there are two dimensions or only one is
extended. -/
theorem covered_borderZones_iff (hcov : target.Covers load) :
    (∀ p ∈ target, p ∉ load → load.zoneOf p ∈ borderZones target load) ↔
      d = 1 ∨ ∀ i j, Extended target load i → Extended target load j → i = j := by
  simp only [mem_borderZones]
  constructor
  · intro h
    by_contra hn
    push Not at hn
    obtain ⟨hd, i, j, hi, hj, hij⟩ := hn
    -- the point that leaves the load domain in these two dimensions only
    set p : Point (d + 1) := fun k => if k = i ∨ k = j then beyond target load k else load.low k
      with hp
    have hmem : p ∈ target := by
      intro k
      have hc := hcov k
      have hl := load.low_le_high k
      simp only [hp, beyond]
      split_ifs <;> omega
    have hout : ∀ k, (k = i ∨ k = j) → load.zoneOf p k ≠ .inside := by
      intro k hk
      have hext : Extended target load k := by rcases hk with rfl | rfl <;> assumption
      have hl := load.low_le_high k
      rw [Extended] at hext
      simp only [Box.zoneOf, hp, if_pos hk, beyond]
      split_ifs <;> simp
      omega
    have hin : ∀ k, ¬ (k = i ∨ k = j) → load.zoneOf p k = .inside := by
      intro k hk
      have hl := load.low_le_high k
      simp only [Box.zoneOf, hp, if_neg hk]
      split_ifs <;> first | rfl | omega
    have hnot : p ∉ load := fun hpl =>
      hout i (Or.inl rfl) (congrFun (Box.zoneOf_eq_inside.mpr hpl) i)
    rcases (h p hmem hnot).1 with ⟨k, -, hside⟩ | hcorner
    · rcases eq_or_ne i k with rfl | hik
      · exact hout j (Or.inr rfl) (hside j hij.symm)
      · exact hout i (Or.inl rfl) (hside i hik)
    · have hlt : 2 < d + 1 := by
        have : Nontrivial (Fin (d + 1)) := ⟨i, j, hij⟩
        have := Fin.nontrivial_iff_two_le.mp this
        omega
      obtain ⟨k, hki, hkj⟩ := Fin.exists_ne_and_ne_of_two_lt i j hlt
      exact hcorner k (hin k (by simp [hki, hkj]))
  · intro h p hp hnot
    refine ⟨?_, Box.room_zoneOf hp⟩
    have hne : ∃ i, load.zoneOf p i ≠ .inside := by
      by_contra hn
      push Not at hn
      exact hnot (Box.zoneOf_eq_inside.mp (funext hn))
    obtain ⟨i, hi⟩ := hne
    by_cases hside : ∀ j ≠ i, load.zoneOf p j = .inside
    · exact Or.inl ⟨i, hi, hside⟩
    · push Not at hside
      obtain ⟨j, hji, hj⟩ := hside
      rcases h with rfl | h
      · -- the two dimensions are all there are
        refine Or.inr fun k => ?_
        have hk : k = i ∨ k = j := by omega
        rcases hk with rfl | rfl <;> assumption
      · exact absurd (h j i (extended_of_zone hp hj) (extended_of_zone hp hi)) hji

end Geometry

/-! ## The new tiles -/

section NewTiles

variable {target : Box (d + 1)} {x : LoadedMDD d tsize}

/-- The new tile for a source tile has its part of the load domain, cell by cell. -/
theorem sourcePart_spec {t : Tile d tsize} (ht : t ∈ x.tilesRead) :
    ∃ new, sourcePart x.loadDomain t = .ok new ∧ Shows id Eq x.loadDomain t new ∧
      new.domain.cells.card * tsize < 2 ^ 32 := by
  obtain ⟨hmem, hi⟩ := LoadedMDD.mem_tilesRead.mp ht
  set area := x.loadDomain.inter t.domain hi.symm with harea
  have hinter : x.loadDomain.createIntersection t.domain = .ok area := dif_pos hi.symm
  have hcov : t.domain.Covers area := Box.covers_iff.mpr fun p hp => (Box.mem_inter.mp hp).2
  have hsize : area.cells.card * tsize < 2 ^ 32 :=
    (Nat.mul_le_mul_right _ (Box.card_cells_le_of_covers hcov)).trans_lt (x.wf.size_lt t hmem)
  obtain ⟨zero, hzero, hzdom, -⟩ := Tile.zeros_spec tsize hsize
  obtain ⟨new, hcopy, hdom, hcells⟩ := Tile.copyTile_same (t := zero) (hzdom ▸ Box.Covers.refl _) hcov
  rw [hzdom] at hdom hcells
  refine ⟨new, ?_, ⟨fun p => ?_, fun p hp => ?_⟩, hdom.symm ▸ hsize⟩
  · simp only [sourcePart, hinter, hzero, Except.mapError, bind, Except.bind]
    exact hcopy
  · rw [hdom, harea, Box.mem_inter]
    rfl
  · rw [hdom] at hp
    rw [hcells p hp, if_pos hp]
    rfl

/-- A tile of zeros in a zone. -/
structure Filled (outer inner : Box (d + 1)) (z : Fin (d + 1) → Zone) (t : Tile d tsize) : Prop where
  mem_iff : ∀ p, p ∈ t.domain ↔ p ∈ outer ∧ inner.zoneOf p = z
  size_lt : t.domain.cells.card * tsize < 2 ^ 32
  fits : (∏ i, outer.zoneExtent inner i (z i)) * tsize < 2 ^ 32
  cell : ∀ p ∈ t.domain, t.cellAt p = MDDObj.zeroCell tsize

variable {outer inner : Box (d + 1)} {z : Fin (d + 1) → Zone}

theorem fillTile_eq (tsize : ℕ) (h : ∀ i, outer.Room inner i (z i)) :
    fillTile tsize (zoneIntervals outer inner z) = Tile.zeros tsize (Box.zoneBox z h) := by
  have hbox : StorageLayout.fixedBox (zoneIntervals outer inner z) = some (Box.zoneBox z h) :=
    dif_pos fun i => ⟨rfl, rfl, Box.room_iff_le.mp (h i)⟩
  rw [fillTile, hbox]
  rfl

theorem filled_of_fillTile (hcov : outer.Covers inner) (h : ∀ i, outer.Room inner i (z i))
    {t : Tile d tsize} (ht : fillTile tsize (zoneIntervals outer inner z) = .ok t) :
    Filled outer inner z t := by
  rw [fillTile_eq tsize h] at ht
  by_cases hsize : (Box.zoneBox z h).cells.card * tsize < 2 ^ 32
  · obtain ⟨t', hzeros, hdom, hcells⟩ := Tile.zeros_spec tsize hsize
    obtain rfl : t' = t := Except.ok.inj (hzeros.symm.trans ht)
    refine ⟨fun p => ?_, hdom ▸ hsize, Box.card_zoneBox h ▸ hsize, fun p hp => hcells p (hdom ▸ hp)⟩
    rw [hdom, Box.mem_zoneBox hcov h]
  · rw [Tile.zeros, if_neg hsize] at ht
    cases ht

/-- The new tiles for the border, where there is memory for them. -/
theorem exists_filled (hcov : outer.Covers inner) (h : ∀ i, outer.Room inner i (z i))
    (hfits : (∏ i, outer.zoneExtent inner i (z i)) * tsize < 2 ^ 32) :
    ∃ t : Tile d tsize, fillTile tsize (zoneIntervals outer inner z) = .ok t ∧
      Filled outer inner z t := by
  obtain ⟨t, hzeros, -⟩ := Tile.zeros_spec tsize (Box.card_zoneBox h ▸ hfits)
  have ht := (fillTile_eq tsize h).trans hzeros
  exact ⟨t, ht, filled_of_fillTile hcov h ht⟩

/-- The new tiles for the source tiles. -/
theorem exists_sourceParts (x : LoadedMDD d tsize) :
    ∃ news, x.tilesRead.mapM (sourcePart x.loadDomain) = .ok news ∧
      List.Forall₂ (Shows id Eq x.loadDomain) x.tilesRead news ∧
      ∀ t ∈ news, t.domain.cells.card * tsize < 2 ^ 32 := by
  obtain ⟨news, hnews, hall⟩ := ExceptFold.mapM_forall₂ (f := sourcePart x.loadDomain)
    (R := fun t t' => t' = t)
    (S := fun t new => Shows id Eq x.loadDomain t new ∧ new.domain.cells.card * tsize < 2 ^ 32)
    (List.forall₂_same.mpr fun t (_ : t ∈ x.tilesRead) => rfl) fun t ht _ heq => by
      subst heq
      exact sourcePart_spec ht
  refine ⟨news, hnews, hall.imp fun _ _ h => h.1, fun t ht => ?_⟩
  obtain ⟨_, -, -, hsize⟩ := ExceptFold.exists_left hall ht
  exact hsize

/-- **What `evaluate` returns**: new tiles for the source tiles, then those that fill the border. -/
theorem evaluate_eq_ok_iff {news : List (Tile d tsize)}
    (hnews : x.tilesRead.mapM (sourcePart x.loadDomain) = .ok news) {r : QtMDD d tsize} :
    evaluate x target = .ok r ↔ ∃ ts : List (Tile d tsize),
      List.Forall₂ (fun z t => fillTile tsize (zoneIntervals target x.loadDomain z) = .ok t)
        (borderZones target x.loadDomain) ts ∧
      r = ⟨⟨.transient tsize, news ++ ts⟩, target⟩ := by
  have hfirst : MDDObj.transient.insertEach (sourcePart x.loadDomain) x.tilesRead =
      .ok ⟨.transient tsize, news⟩ := by
    rw [MDDObj.insertEach_eq MDDObj.unlaid_transient, hnews]
    rfl
  have hfill : ∀ ts : List (Tile d tsize),
      (extendDomainList target x.loadDomain).mapM (fillTile tsize) = .ok ts ↔
        List.Forall₂ (fun z t => fillTile tsize (zoneIntervals target x.loadDomain z) = .ok t)
          (borderZones target x.loadDomain) ts := by
    intro ts
    rw [extendDomainList_eq, ExceptFold.mapM_eq_ok_iff, List.forall₂_map_left_iff]
  simp only [evaluate, hfirst, bind, Except.bind]
  rw [MDDObj.insertEach_eq (m := ⟨.transient tsize, news⟩) rfl]
  simp only [← hfill]
  cases (extendDomainList target x.loadDomain).mapM (fillTile tsize) with
  | error e => simp [bind, Except.bind]
  | ok ts => simp [bind, Except.bind, pure, Except.pure, eq_comm]

end NewTiles

/-! ## The extended array -/

/-- The result covers the target domain with disjoint tiles, keeps the cells of the source and is 0
elsewhere. -/
structure Extends (x : LoadedMDD d tsize) (target : Box (d + 1)) (r : QtMDD d tsize) : Prop where
  loadDomain : r.loadDomain = target
  tiles : Tiles target.region (r.object.tiles.map Tile.domain)
  kept : ∀ p ∈ x.loadDomain, r.object.pointQuery p = x.object.pointQuery p
  filled : ∀ p ∈ target, p ∉ x.loadDomain →
    r.object.pointQuery p = some (MDDObj.zeroCell tsize)

/-- Every side and every corner has less than `2^32` bytes. -/
def BorderFits (tsize : ℕ) (target load : Box d) : Prop :=
  ∀ z, IsSide z ∨ IsCorner z → (∏ i, target.zoneExtent load i (z i)) * tsize < 2 ^ 32

section Main

variable {target : Box (d + 1)} {x : LoadedMDD d tsize} {news ts : List (Tile d tsize)}

theorem not_side_or_corner_inside : ¬ (IsSide (fun _ : Fin (d + 1) => Zone.inside) ∨
    IsCorner fun _ : Fin (d + 1) => Zone.inside) := by
  rintro (⟨i, hi, -⟩ | h)
  · exact hi rfl
  · exact h 0 rfl

/-- Disjoint tiles that fill the border are those of different zones, for every zone one. -/
theorem tiles_iff (hcov : target.Covers x.loadDomain)
    (hnews : List.Forall₂ (Shows id Eq x.loadDomain) x.tilesRead news)
    (hts : List.Forall₂ (Filled target x.loadDomain) (borderZones target x.loadDomain) ts) :
    Tiles target.region ((news ++ ts).map Tile.domain) ↔ NoEdge target x.loadDomain := by
  have hnodup : (ts.Pairwise fun s t => ¬ s.domain.Intersects t.domain) ↔
      (borderZones target x.loadDomain).Nodup := by
    constructor
    · intro h
      refine ExceptFold.pairwise_of_forall₂ h hts.flip fun s t z w hst hs ht hzw => ?_
      subst hzw
      have hlow := (hs.mem_iff _).mp s.domain.low_mem
      exact hst (.of_mem s.domain.low_mem ((ht.mem_iff _).mpr hlow))
    · intro h
      refine ExceptFold.pairwise_of_forall₂ h hts fun z w s t hzw hs ht hi => ?_
      obtain ⟨p, hps, hpt⟩ := Box.intersects_iff.mp hi
      exact hzw (((hs.mem_iff p).mp hps).2.symm.trans ((ht.mem_iff p).mp hpt).2)
  have hcross : ∀ s ∈ news, ∀ t ∈ ts, ¬ s.domain.Intersects t.domain := by
    intro s hs t ht hi
    obtain ⟨p, hps, hpt⟩ := Box.intersects_iff.mp hi
    have hload : p ∈ x.loadDomain := (exists_mem_of_shows hnews).mp ⟨s, hs, hps⟩
    obtain ⟨z, hz, hfilled⟩ := ExceptFold.exists_left hts ht
    have hzone := ((hfilled.mem_iff p).mp hpt).2
    rw [Box.zoneOf_eq_inside.mpr hload] at hzone
    exact not_side_or_corner_inside (hzone ▸ (mem_borderZones.mp hz).1)
  have hmem : (∀ p, p ∈ target ↔ ∃ b ∈ (news ++ ts).map Tile.domain, p ∈ b) ↔
      ∀ p ∈ target, p ∉ x.loadDomain → x.loadDomain.zoneOf p ∈ borderZones target x.loadDomain := by
    have hcell : ∀ p, (∃ b ∈ (news ++ ts).map Tile.domain, p ∈ b) ↔
        p ∈ x.loadDomain ∨ p ∈ target ∧ x.loadDomain.zoneOf p ∈ borderZones target x.loadDomain := by
      intro p
      have hsource : (∃ t ∈ news, p ∈ t.domain) ↔ p ∈ x.loadDomain := exists_mem_of_shows hnews
      have hborder : (∃ t ∈ ts, p ∈ t.domain) ↔
          p ∈ target ∧ x.loadDomain.zoneOf p ∈ borderZones target x.loadDomain := by
        constructor
        · rintro ⟨t, ht, hp⟩
          obtain ⟨z, hz, hfilled⟩ := ExceptFold.exists_left hts ht
          obtain ⟨hpt, rfl⟩ := (hfilled.mem_iff p).mp hp
          exact ⟨hpt, hz⟩
        · rintro ⟨hp, hz⟩
          obtain ⟨t, ht, hfilled⟩ := ExceptFold.exists_right hts hz
          exact ⟨t, ht, (hfilled.mem_iff p).mpr ⟨hp, rfl⟩⟩
      simp only [List.mem_map, List.mem_append, exists_exists_and_eq_and, or_and_right, exists_or,
        hsource, hborder]
    simp only [hcell]
    refine forall_congr' fun p => ?_
    constructor
    · intro h hp hout
      exact ((h.mp hp).resolve_left hout).2
    · intro h
      refine ⟨fun hp => ?_, fun hp => hp.elim (Box.covers_iff.mp hcov p) And.left⟩
      by_cases hin : p ∈ x.loadDomain
      · exact Or.inl hin
      · exact Or.inr ⟨hp, h hp hin⟩
  have hpair : ((news ++ ts).map Tile.domain).Pairwise (fun a b => ¬ a.Intersects b) ↔
      (borderZones target x.loadDomain).Nodup := by
    rw [List.pairwise_map, List.pairwise_append, ← hnodup]
    exact ⟨fun h => h.2.1, fun h => ⟨pairwise_of_shows hnews, h, hcross⟩⟩
  have htiles : Tiles target.region ((news ++ ts).map Tile.domain) ↔
      ((news ++ ts).map Tile.domain).Pairwise (fun a b => ¬ a.Intersects b) ∧
        ∀ p, p ∈ target ↔ ∃ b ∈ (news ++ ts).map Tile.domain, p ∈ b :=
    ⟨fun h => ⟨h.1, h.2⟩, fun h => ⟨h.1, h.2⟩⟩
  rw [htiles, hpair, hmem, nodup_borderZones_iff, covered_borderZones_iff hcov, NoEdge]
  constructor
  · rintro ⟨hone, rfl | hext⟩
    · exact Or.inl rfl
    · exact Or.inr ⟨hext, hone⟩
  · rintro (rfl | ⟨hext, hone⟩)
    · exact ⟨fun h => absurd h one_ne_zero, Or.inl rfl⟩
    · exact ⟨hone, Or.inr hext⟩

/-- Disjoint tiles read as they were made. -/
theorem extends_of_tiles (hnews : List.Forall₂ (Shows id Eq x.loadDomain) x.tilesRead news)
    (hsize : ∀ t ∈ news, t.domain.cells.card * tsize < 2 ^ 32)
    (hts : List.Forall₂ (Filled target x.loadDomain) (borderZones target x.loadDomain) ts)
    (htiles : Tiles target.region ((news ++ ts).map Tile.domain)) :
    Extends x target ⟨⟨.transient tsize, news ++ ts⟩, target⟩ := by
  have hwf : (⟨.transient tsize, news ++ ts⟩ : MDDObj d tsize).WF := by
    refine ⟨List.pairwise_map.mp htiles.disjoint, fun t ht => ?_⟩
    rcases List.mem_append.mp ht with ht | ht
    · exact hsize t ht
    · obtain ⟨z, -, hfilled⟩ := ExceptFold.exists_left hts ht
      exact hfilled.size_lt
  refine ⟨rfl, htiles, fun p hp => ?_, fun p hp hout => ?_⟩
  · obtain ⟨t, ht, hpt⟩ := (exists_mem_of_shows hnews).mpr hp
    rw [MDDObj.pointQuery_of_mem hwf (List.mem_append_left _ ht) hpt, x.pointQuery_eq hp]
    exact congrArg some (cell_of_shows hnews ht hpt).symm
  · obtain ⟨b, hb, hpb⟩ := (htiles.mem_iff p).mp hp
    obtain ⟨t, ht, rfl⟩ := List.mem_map.mp hb
    rw [MDDObj.pointQuery_of_mem hwf ht hpb]
    rcases List.mem_append.mp ht with ht | ht
    · exact absurd ((exists_mem_of_shows hnews).mp ⟨t, ht, hpb⟩) hout
    · obtain ⟨z, -, hfilled⟩ := ExceptFold.exists_left hts ht
      exact congrArg some (hfilled.cell p hpb)

theorem room_of_mem_borderZones {inner outer : Box d} {z : Fin d → Zone}
    (hz : z ∈ borderZones outer inner) (i : Fin d) : outer.Room inner i (z i) :=
  (mem_borderZones.mp hz).2 i

/-- An array that is extended to the target domain leaves no edge. -/
theorem of_extends (hcov : target.Covers x.loadDomain) {r : QtMDD d tsize}
    (heval : evaluate x target = .ok r) (hext : Extends x target r) :
    NoEdge target x.loadDomain ∧ BorderFits tsize target x.loadDomain := by
  obtain ⟨news, hmap, hnews, -⟩ := exists_sourceParts x
  obtain ⟨ts, hts, rfl⟩ := (evaluate_eq_ok_iff hmap).mp heval
  have hfilled : List.Forall₂ (Filled target x.loadDomain) (borderZones target x.loadDomain) ts :=
    ((List.forall₂_and_left _ _).mpr ⟨fun _ => room_of_mem_borderZones, hts⟩).imp
      fun _ _ h => filled_of_fillTile hcov h.1 h.2
  refine ⟨(tiles_iff hcov hnews hfilled).mp hext.tiles, fun z hz => ?_⟩
  by_cases h : ∀ i, target.Room x.loadDomain i (z i)
  · obtain ⟨t, -, ht⟩ := ExceptFold.exists_right hfilled (mem_borderZones.mpr ⟨hz, h⟩)
    exact ht.fits
  · obtain ⟨i, hi⟩ := not_forall.mp h
    rw [Finset.prod_eq_zero (Finset.mem_univ i) (Box.zoneExtent_eq_zero hi), Nat.zero_mul]
    exact Nat.two_pow_pos 32

/-- Without edges, and with memory for the border, the array is extended to the target domain. -/
theorem exists_extends (hcov : target.Covers x.loadDomain) (hedge : NoEdge target x.loadDomain)
    (hfits : BorderFits tsize target x.loadDomain) :
    ∃ r, evaluate x target = .ok r ∧ Extends x target r := by
  obtain ⟨news, hmap, hnews, hsize⟩ := exists_sourceParts x
  obtain ⟨ts, hts, hfilled⟩ := ExceptFold.mapM_forall₂ (R := fun z z' => z' = z)
    (f := fun z => fillTile tsize (zoneIntervals target x.loadDomain z))
    (S := Filled target x.loadDomain)
    (List.forall₂_same.mpr fun z (_ : z ∈ borderZones target x.loadDomain) => rfl)
    fun z hz _ heq => by
      subst heq
      exact exists_filled hcov (room_of_mem_borderZones hz) (hfits _ (mem_borderZones.mp hz).1)
  exact ⟨_, (evaluate_eq_ok_iff hmap).mpr ⟨ts, ExceptFold.mapM_eq_ok_iff.mp hts, rfl⟩,
    extends_of_tiles hnews hsize hfilled ((tiles_iff hcov hnews hfilled).mpr hedge)⟩

end Main

end QtExtend

/-- An array of one cell. -/
def oneCell (d : ℕ) : LoadedMDD d 1 := .ofByte (fun _ => 0) 7

/-- The box of two cells a side. -/
def twoEach (d : ℕ) : Box d := ⟨fun _ => 0, fun _ => 1, fun _ => Int.zero_le_ofNat 1⟩

end Rasdaman
