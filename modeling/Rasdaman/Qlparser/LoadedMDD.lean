import Mathlib
import Rasdaman.Qlparser.Update

/-!
# Qlparser/LoadedMDD — what an operation on arrays reads and returns

An operand is an MDD whose tiles are disjoint and cover its load domain.  A result is a new transient
object, whose storage layout supports no tiling scheme: `insertTile` stores a tile as it is.  The
operations make one new tile of the relevant area of each source tile; `Shows` says how the two are
related, and `cell_of_shows` what the new tiles read then.
-/

namespace Rasdaman

variable {d tsize resSize : ℕ}

/-! ## Results -/

theorem StorageLayout.transient_tileSize_lt : 4194304 < 2 ^ 32 := by decide

theorem StorageLayout.transient_configuration_le : ∀ s ∈ ([] : Minterval), s.lowFixed → s.highFixed →
    s.lowerBound ≤ s.upperBound := fun _ hs => absurd hs List.not_mem_nil

/-- The layout of a new transient object.  It supports no tiling scheme, and nothing else of it is
read. -/
def StorageLayout.transient (cellSize : ℕ) : StorageLayout d where
  supportsTilingScheme := false
  tilingScheme := .alignedTiling
  tileConfiguration := []
  tileSize := 4194304
  cellSize := cellSize
  scaledWidth := fun _ _ _ _ => 0
  computeTiles := fun _ b => .ok [b]
  tileSize_lt := transient_tileSize_lt
  configuration_le := transient_configuration_le

namespace MDDObj

/-- A new transient object. -/
def transient : MDDObj d tsize := ⟨.transient tsize, []⟩

/-- An object that stores a tile as it is. -/
def Unlaid (m : MDDObj d tsize) : Prop := m.storageLayout.supportsTilingScheme = false

theorem unlaid_transient : (transient : MDDObj d tsize).Unlaid := rfl

variable {m : MDDObj d tsize} {α : Type}

/-- `insertTile` of a transient object. -/
theorem insertTile_of_unlaid (h : m.Unlaid) (tile : Tile d tsize) :
    m.insertTile tile = .ok { m with tiles := m.tiles ++ [tile] } := by
  have hlayout : m.storageLayout.getLayout tile.domain = .ok [tile.domain] := by
    rw [StorageLayout.getLayout, if_neg (by simp [show m.storageLayout.supportsTilingScheme = false
      from h])]
  rw [insertTile, hlayout]
  simp [bind, Except.bind, insertLoop]

/-- A loop that makes a tile in each round and inserts it. -/
def insertEach (make : α → Except Halt (Tile d tsize)) (m : MDDObj d tsize) (xs : List α) :
    Except Halt (MDDObj d tsize) :=
  xs.foldlM (fun m x => do
    let tile ← make x
    m.insertTile tile) m

/-- **A transient object gets one tile after the other.** -/
theorem insertEach_eq (h : m.Unlaid) (make : α → Except Halt (Tile d tsize)) (xs : List α) :
    insertEach make m xs = do
      let tiles ← xs.mapM make
      return { m with tiles := m.tiles ++ tiles } := by
  induction xs generalizing m with
  | nil => simp [insertEach, pure, Except.pure, bind, Except.bind]
  | cons x xs ih =>
    rw [insertEach, List.foldlM_cons, List.mapM_cons]
    cases hx : make x with
    | error e => rfl
    | ok tile =>
      have hstored : ({ m with tiles := m.tiles ++ [tile] } : MDDObj d tsize).Unlaid := h
      have hrest := ih hstored
      rw [insertEach] at hrest
      simp only [bind, Except.bind, insertTile_of_unlaid h] at hrest ⊢
      rw [hrest]
      cases xs.mapM make with
      | error e => rfl
      | ok tiles => simp [pure, Except.pure]

/-- Such loops for one list after another, which may be of different types. -/
theorem foldlM_insertEach {ι : Type} {β : ι → Type} (h : m.Unlaid)
    (make : ∀ i, β i → Except Halt (Tile d tsize)) (items : ∀ i, List (β i)) (l : List ι) :
    l.foldlM (fun m i => m.insertEach (make i) (items i)) m = do
      let tiles ← l.mapM fun i => (items i).mapM (make i)
      return { m with tiles := m.tiles ++ tiles.flatten } := by
  induction l generalizing m with
  | nil => simp [pure, Except.pure, bind, Except.bind]
  | cons i l ih =>
    rw [List.foldlM_cons, List.mapM_cons, insertEach_eq h]
    cases (items i).mapM (make i) with
    | error e => rfl
    | ok tiles =>
      simp only [bind, Except.bind, pure, Except.pure] at ih ⊢
      rw [ih (m := { m with tiles := m.tiles ++ tiles }) h]
      cases l.mapM fun i => (items i).mapM (make i) with
      | error e => rfl
      | ok rest => simp

end MDDObj

/-! ## Operands -/

/-- A tile of one byte over and over. -/
def Tile.filled (dom : Box (d + 1)) (tsize : ℕ) (byte : UInt8) : Tile d tsize :=
  ⟨dom, List.replicate (dom.cells.card * tsize) byte, List.length_replicate⟩

@[simp] theorem Tile.domain_filled (dom : Box (d + 1)) (tsize : ℕ) (byte : UInt8) :
    (Tile.filled dom tsize byte).domain = dom := rfl

/-- An operand: the tiles of its object are disjoint, fit in memory and cover the load domain. -/
structure LoadedMDD (d tsize : ℕ) extends QtMDD d tsize where
  wf : object.WF
  covered : ∀ p ∈ loadDomain, ∃ t ∈ object.tiles, p ∈ t.domain

namespace LoadedMDD

variable {x : LoadedMDD d tsize} {p : Point (d + 1)}

/-- The cell at a point of the load domain. -/
def cell (x : LoadedMDD d tsize) (p : Point (d + 1)) : List UInt8 := (x.object.pointQuery p).getD []

theorem cell_of_mem {t : Tile d tsize} (ht : t ∈ x.object.tiles) (hp : p ∈ t.domain) :
    x.cell p = t.cellAt p := by
  rw [cell, MDDObj.pointQuery_of_mem x.wf ht hp, Option.getD_some]

theorem pointQuery_eq (hp : p ∈ x.loadDomain) : x.object.pointQuery p = some (x.cell p) := by
  obtain ⟨t, ht, hpt⟩ := x.covered p hp
  rw [cell_of_mem ht hpt, MDDObj.pointQuery_of_mem x.wf ht hpt]

/-- The tiles an operation goes over. -/
def tilesRead (x : LoadedMDD d tsize) : List (Tile d tsize) := x.object.intersect x.loadDomain

theorem mem_tilesRead {t : Tile d tsize} :
    t ∈ x.tilesRead ↔ t ∈ x.object.tiles ∧ t.domain.Intersects x.loadDomain := by
  simp [tilesRead, MDDObj.intersect]

theorem exists_tilesRead (hp : p ∈ x.loadDomain) : ∃ t ∈ x.tilesRead, p ∈ t.domain := by
  obtain ⟨t, ht, hpt⟩ := x.covered p hp
  exact ⟨t, mem_tilesRead.mpr ⟨ht, .of_mem hpt hp⟩, hpt⟩

theorem pairwise_tilesRead (x : LoadedMDD d tsize) :
    x.tilesRead.Pairwise fun s t => ¬ s.domain.Intersects t.domain :=
  x.wf.disjoint.filter _

/-- An operand of one tile, of which a part is loaded. -/
def within (t : Tile d tsize) (h : t.domain.cells.card * tsize < 2 ^ 32) (loadDomain : Box (d + 1))
    (hcov : t.domain.Covers loadDomain) : LoadedMDD d tsize where
  object := ⟨.transient tsize, [t]⟩
  loadDomain := loadDomain
  wf := ⟨List.pairwise_singleton _ _, by simpa using h⟩
  covered := fun p hp => ⟨t, List.mem_singleton_self t, Box.covers_iff.mp hcov p hp⟩

@[simp] theorem loadDomain_within (t : Tile d tsize) (h : t.domain.cells.card * tsize < 2 ^ 32)
    (loadDomain : Box (d + 1)) (hcov : t.domain.Covers loadDomain) :
    (within t h loadDomain hcov).loadDomain = loadDomain := rfl

@[simp] theorem tiles_within (t : Tile d tsize) (h : t.domain.cells.card * tsize < 2 ^ 32)
    (loadDomain : Box (d + 1)) (hcov : t.domain.Covers loadDomain) :
    (within t h loadDomain hcov).object.tiles = [t] := rfl

/-- An operand of one tile. -/
def ofTile (t : Tile d tsize) (h : t.domain.cells.card * tsize < 2 ^ 32) : LoadedMDD d tsize :=
  within t h t.domain (Box.Covers.refl _)

/-- An array of one cell of one byte. -/
def ofByte (p : Point (d + 1)) (byte : UInt8) : LoadedMDD d 1 :=
  .ofTile ⟨⟨p, p, fun _ => le_rfl⟩, [byte], by simp [Box.card_cells]⟩ (by simp [Box.card_cells])

end LoadedMDD

/-! ## New tiles for source tiles -/

/-- The new tile has the cells of the load domain that the source tile has, each moved to the place
that `origin` takes back; the new cell is made of the old one as `R` says. -/
structure Shows (origin : Point (d + 1) → Point (d + 1)) (R : List UInt8 → List UInt8 → Prop)
    (loadDomain : Box (d + 1)) (t : Tile d tsize) (new : Tile d resSize) : Prop where
  mem_iff : ∀ p, p ∈ new.domain ↔ origin p ∈ loadDomain ∧ origin p ∈ t.domain
  cell : ∀ p ∈ new.domain, R (t.cellAt (origin p)) (new.cellAt p)

variable {origin : Point (d + 1) → Point (d + 1)} {R : List UInt8 → List UInt8 → Prop}

variable {x : LoadedMDD d tsize} {news : List (Tile d resSize)}

/-- New tiles for the disjoint tiles of an operand are disjoint. -/
theorem pairwise_of_shows (h : List.Forall₂ (Shows origin R x.loadDomain) x.tilesRead news) :
    news.Pairwise fun s t => ¬ s.domain.Intersects t.domain := by
  refine ExceptFold.pairwise_of_forall₂ x.pairwise_tilesRead h fun s t s' t' hst hs ht hi => ?_
  obtain ⟨p, hp, hp'⟩ := Box.intersects_iff.mp hi
  exact hst (.of_mem ((hs.mem_iff p).mp hp).2 ((ht.mem_iff p).mp hp').2)

/-- The new tiles have the moved cells of the load domain. -/
theorem exists_mem_of_shows (h : List.Forall₂ (Shows origin R x.loadDomain) x.tilesRead news)
    {p : Point (d + 1)} : (∃ t ∈ news, p ∈ t.domain) ↔ origin p ∈ x.loadDomain := by
  constructor
  · rintro ⟨new, hnew, hp⟩
    obtain ⟨t, -, hshows⟩ := ExceptFold.exists_left h hnew
    exact ((hshows.mem_iff p).mp hp).1
  · intro hp
    obtain ⟨t, ht, hpt⟩ := LoadedMDD.exists_tilesRead hp
    obtain ⟨new, hnew, hshows⟩ := ExceptFold.exists_right h ht
    exact ⟨new, hnew, (hshows.mem_iff p).mpr ⟨hp, hpt⟩⟩

/-- **Each new cell is made of the cell of the operand it was moved from.** -/
theorem cell_of_shows (h : List.Forall₂ (Shows origin R x.loadDomain) x.tilesRead news)
    {p : Point (d + 1)} {new : Tile d resSize} (hnew : new ∈ news) (hp : p ∈ new.domain) :
    R (x.cell (origin p)) (new.cellAt p) := by
  obtain ⟨t, ht, hshows⟩ := ExceptFold.exists_left h hnew
  rw [LoadedMDD.cell_of_mem (LoadedMDD.mem_tilesRead.mp ht).1 ((hshows.mem_iff p).mp hp).2]
  exact hshows.cell p hp

end Rasdaman
