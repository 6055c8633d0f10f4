import Rasdaman.Machinery.ExceptFold
import Rasdaman.Raslib.MiterRange
import Rasdaman.Tilemgr.Tile

/-!
# Tilemgr/CellLoop — applying an operator cell by cell

`execUnaryOp` and `execBinaryOp` move an iterator over an area of the result tile and one over an area of
each operand, and apply their operator to the cells that these stand at.  Here the number of operands is
open.  While the iterators are in range, the loop goes through the points of the areas in step:
`execOp_spec`.
-/

namespace Rasdaman

open RowMajor

/-! ## The loop -/

/-- The bytes at an address of a memory. -/
def readAt (mem : List UInt8) (addr : ℤ) (tsize : ℕ) : Except Halt (List UInt8) :=
  if 0 ≤ addr ∧ addr + tsize ≤ mem.length then .ok ((mem.drop addr.toNat).take tsize)
  else .error .outside

/-- The memory with other bytes at an address. -/
def writeAt (mem : List UInt8) (addr : ℤ) (bytes : List UInt8) : Except Halt (List UInt8) :=
  if 0 ≤ addr ∧ addr + bytes.length ≤ mem.length then .ok (overwrite mem addr.toNat bytes)
  else .error .outside

/-- The memory of an operand, and an iterator over it. -/
structure CellSource where
  contents : List UInt8
  tsize : ℕ
  iter : Miter

namespace CellSource

/-- The cell the iterator stands at. -/
def read (s : CellSource) : Except Halt (List UInt8) := readAt s.contents s.iter.nextCell.1 s.tsize

/-- The operand with its iterator moved on. -/
def next (s : CellSource) : CellSource := { s with iter := s.iter.nextCell.2 }

end CellSource

/-- The loop of `execUnaryOp` and `execBinaryOp`, for at most so many cells. -/
def cellLoop (myOp : List (List UInt8) → Except Halt (List UInt8)) :
    ℕ → (resTileIter : Miter) → List CellSource → List UInt8 → Except Halt (List UInt8)
  | 0, res, _, mem => if res.done then .ok mem else .error .endless
  | n + 1, res, srcs, mem =>
    if res.done then .ok mem
    else do
      let cells ← srcs.mapM CellSource.read
      let cell ← myOp cells
      let mem ← writeAt mem res.nextCell.1 cell
      cellLoop myOp n res.nextCell.2 (srcs.map CellSource.next) mem

/-- **The loop ends where an operand reads outside of its memory.** -/
theorem cellLoop_read_error {myOp : List (List UInt8) → Except Halt (List UInt8)} {n : ℕ} {res : Miter}
    {s : CellSource} {srcs : List CellSource} {mem : List UInt8} {e : Halt} (hres : res.done = false)
    (h : s.read = .error e) : cellLoop myOp (n + 1) res (s :: srcs) mem = .error e := by
  rw [cellLoop, if_neg (by simp [hres]), List.mapM_cons, h]
  rfl

/-- An operand: a tile and an area of it. -/
structure CellOperand (d : ℕ) where
  tsize : ℕ
  tile : Tile d tsize
  area : Box (d + 1)

namespace CellOperand

variable {d : ℕ} (o : CellOperand d)

/-- The operand with a new iterator. -/
def source : CellSource := ⟨o.tile.contents, o.tsize, .make o.tile.domain o.area o.tsize⟩

/-- The cell at the point of the area with some number. -/
def cellNo (n : ℕ) : List UInt8 := o.tile.cellAt (o.area.pointAt n)

end CellOperand

namespace Tile

variable {d tsize : ℕ}

/-- `execUnaryOp` and `execBinaryOp`, for any number of operands. -/
def execOp (t : Tile d tsize) (myOp : List (List UInt8) → Except Halt (List UInt8))
    (areaRes : Box (d + 1)) (operands : List (CellOperand d)) : Except Halt (Tile d tsize) := do
  let contents ← cellLoop myOp areaRes.cells.card (.make t.domain areaRes tsize)
    (operands.map CellOperand.source) t.contents
  if h : contents.length = t.domain.cells.card * tsize then return ⟨t.domain, contents, h⟩
  else .error .outside

/-- An operator on one cell. -/
def onOne (myOp : List UInt8 → Except Halt (List UInt8)) : List (List UInt8) → Except Halt (List UInt8)
  | [cellOp] => myOp cellOp
  | _ => .error .outside

/-- An operator on two cells. -/
def onTwo (myOp : List UInt8 → List UInt8 → Except Halt (List UInt8)) :
    List (List UInt8) → Except Halt (List UInt8)
  | [cellOp1, cellOp2] => myOp cellOp1 cellOp2
  | _ => .error .outside

/-- `execUnaryOp`, with any operator. -/
def execUnaryOpWith (t : Tile d tsize) (myOp : List UInt8 → Except Halt (List UInt8))
    (areaRes : Box (d + 1)) (operand : CellOperand d) : Except Halt (Tile d tsize) :=
  t.execOp (onOne myOp) areaRes [operand]

/-- `execBinaryOp`. -/
def execBinaryOp (t : Tile d tsize) (myOp : List UInt8 → List UInt8 → Except Halt (List UInt8))
    (areaRes : Box (d + 1)) (operand1 operand2 : CellOperand d) : Except Halt (Tile d tsize) :=
  t.execOp (onTwo myOp) areaRes [operand1, operand2]

end Tile

/-! ## In step -/

open Tile Box

section Loop

variable {d rsize : ℕ} {dom areaRes : Box (d + 1)} {operands : List (CellOperand d)}
variable {myOp : List (List UInt8) → Except Halt (List UInt8)} {mem : List UInt8}

/-- The area of the operand lies in its tile, has as many cells as that of the result, and the iterator
over it is in range. -/
structure CellOperand.Steps (o : CellOperand d) (areaRes : Box (d + 1)) : Prop where
  covers : o.tile.domain.Covers o.area
  card : o.area.cells.card = areaRes.cells.card
  inRange : Miter.InRange o.tile.domain o.area o.tsize

/-- The operand with its iterator at the point with some number. -/
def CellOperand.sourceAt (o : CellOperand d) (n : ℕ) : CellSource :=
  ⟨o.tile.contents, o.tsize, .stateAt o.tile.domain o.area o.tsize n⟩

theorem length_cellAt (t : Tile d rsize) {p : Point (d + 1)} (hp : p ∈ t.domain) :
    (t.cellAt p).length = rsize := by
  have hfit : (t.domain.index p + 1) * rsize ≤ t.domain.cells.card * rsize :=
    Nat.mul_le_mul_right _ (index_lt hp)
  rw [Nat.succ_mul, ← t.length_contents] at hfit
  rw [cellAt, cell, List.length_take, List.length_drop]
  omega

theorem readAt_index (t : Tile d rsize) {p : Point (d + 1)} (hp : p ∈ t.domain) :
    readAt t.contents (rsize * t.domain.index p : ℕ) rsize = .ok (t.cellAt p) := by
  have hfit : (t.domain.index p + 1) * rsize ≤ t.domain.cells.card * rsize :=
    Nat.mul_le_mul_right _ (index_lt hp)
  rw [Nat.succ_mul, Nat.mul_comm, ← t.length_contents] at hfit
  rw [readAt, if_pos ⟨Int.natCast_nonneg _, by exact_mod_cast hfit⟩, Int.toNat_natCast, cellAt, cell,
    Nat.mul_comm]

theorem read_sourceAt {o : CellOperand d} (h : o.Steps areaRes) {n : ℕ} (hn : n < areaRes.cells.card) :
    (o.sourceAt n).read = .ok (o.cellNo n) := by
  have hlt : n < o.area.cells.card := h.card ▸ hn
  rw [CellSource.read, CellOperand.sourceAt, (Miter.nextCell_stateAt h.covers hlt).1]
  exact readAt_index o.tile (covers_iff.mp h.covers _ (pointAt_mem hlt))

/-- One round of the loop. -/
def cellStep (dom areaRes : Box (d + 1)) (rsize : ℕ) (operands : List (CellOperand d))
    (myOp : List (List UInt8) → Except Halt (List UInt8)) (mem : List UInt8) (n : ℕ) :
    Except Halt (List UInt8) := do
  let cell ← myOp (operands.map fun o => o.cellNo n)
  writeAt mem (rsize * dom.index (areaRes.pointAt n) : ℕ) cell

/-- **The loop goes through the points still to come.** -/
theorem cellLoop_stateAt (hdom : dom.Covers areaRes) (hops : ∀ o ∈ operands, o.Steps areaRes)
    {n k : ℕ} (hk : k < areaRes.cells.card) (hn : areaRes.cells.card ≤ k + n) :
    cellLoop myOp n (Miter.stateAt dom areaRes rsize k) (operands.map fun o => o.sourceAt k) mem =
      ((List.range areaRes.cells.card).drop k).foldlM (cellStep dom areaRes rsize operands myOp) mem := by
  induction n generalizing k mem with
  | zero => omega
  | succ n ih =>
    have hdrop : (List.range areaRes.cells.card).drop k =
        k :: (List.range areaRes.cells.card).drop (k + 1) := by
      rw [List.drop_eq_getElem_cons (by simpa using hk), List.getElem_range]
    have hread : (operands.map fun o => o.sourceAt k).mapM CellSource.read =
        .ok (operands.map fun o => o.cellNo k) :=
      ExceptFold.mapM_map_ok fun o ho => read_sourceAt (hops o ho) hk
    obtain ⟨hres, hresNext, hresDone⟩ :
        (Miter.stateAt dom areaRes rsize k).nextCell.1 = (rsize * dom.index (areaRes.pointAt k) : ℕ) ∧ _ :=
      Miter.nextCell_stateAt hdom hk
    rw [cellLoop, if_neg (by simp [Miter.stateAt]), hread, hdrop, List.foldlM_cons, cellStep, hres]
    simp only [bind, Except.bind]
    cases myOp (operands.map fun o => o.cellNo k) with
    | error e => rfl
    | ok cell =>
      dsimp only
      cases writeAt mem (rsize * dom.index (areaRes.pointAt k) : ℕ) cell with
      | error e => rfl
      | ok mem' =>
        dsimp only
        rcases (show k + 1 ≤ areaRes.cells.card from hk).lt_or_eq with hlt | heq
        · have hnext : (operands.map fun o => o.sourceAt k).map CellSource.next =
              operands.map fun o => o.sourceAt (k + 1) := by
            rw [List.map_map]
            refine List.map_congr_left fun o ho => ?_
            have hcard := (hops o ho).card
            simp only [Function.comp_apply, CellSource.next, CellOperand.sourceAt,
              (Miter.nextCell_stateAt (hops o ho).covers (hcard ▸ hk)).2.1 (hcard ▸ hlt)]
          rw [hresNext hlt, hnext]
          exact ih hlt (by omega)
        · rw [List.drop_of_length_le (by simp; omega), List.foldlM_nil]
          cases n <;> rw [cellLoop, if_pos (hresDone heq)] <;> rfl

/-- The operator, where it is defined, returns a cell of the result. -/
def ReturnsCells (rsize : ℕ) (myOp : List (List UInt8) → Except Halt (List UInt8)) : Prop :=
  ∀ cells c, myOp cells = .ok c → c.length = rsize

theorem returnsCells_onTwo {myOp : List UInt8 → List UInt8 → Except Halt (List UInt8)}
    (h : ∀ {cellOp1 cellOp2 c}, myOp cellOp1 cellOp2 = .ok c → c.length = rsize) :
    ReturnsCells rsize (onTwo myOp) := by
  intro cells c hc
  rcases cells with _ | ⟨cellOp1, _ | ⟨cellOp2, _ | ⟨cellOp3, cells⟩⟩⟩
  · cases hc
  · cases hc
  · exact h hc
  · cases hc

theorem returnsCells_onOne {myOp : List UInt8 → Except Halt (List UInt8)}
    (h : ∀ {cellOp c}, myOp cellOp = .ok c → c.length = rsize) : ReturnsCells rsize (onOne myOp) := by
  intro cells c hc
  rcases cells with _ | ⟨cellOp, _ | ⟨cellOp2, cells⟩⟩
  · cases hc
  · exact h hc
  · cases hc

/-- Rounds that all return write one cell after the other. -/
theorem foldlM_cellStep (hdom : dom.Covers areaRes) (hmem : mem.length = dom.cells.card * rsize)
    {f : ℕ → List UInt8} (hlen : ∀ n < areaRes.cells.card, (f n).length = rsize)
    (hop : ∀ n < areaRes.cells.card, myOp (operands.map fun o => o.cellNo n) = .ok (f n)) :
    (List.range areaRes.cells.card).foldlM (cellStep dom areaRes rsize operands myOp) mem =
      .ok ((List.range areaRes.cells.card).foldl
        (fun mem n => overwrite mem (dom.index (areaRes.pointAt n) * rsize) (f n)) mem) := by
  refine ExceptFold.foldlM_eq_ok (P := fun mem => mem.length = dom.cells.card * rsize)
    (fun n hn mem hmem => ?_) hmem
  have hn := List.mem_range.mp hn
  have hfit : (dom.index (areaRes.pointAt n) + 1) * rsize ≤ dom.cells.card * rsize :=
    Nat.mul_le_mul_right _ (index_lt (covers_iff.mp hdom _ (pointAt_mem hn)))
  rw [Nat.succ_mul, ← hmem] at hfit
  have hfit' : dom.index (areaRes.pointAt n) * rsize + (f n).length ≤ mem.length := by
    rwa [hlen n hn]
  refine ⟨?_, (length_overwrite hfit').trans hmem⟩
  simp only [cellStep, hop n hn, bind, Except.bind]
  rw [Nat.mul_comm, writeAt, if_pos ⟨Int.natCast_nonneg _, by exact_mod_cast hfit'⟩,
    Int.toNat_natCast]

/-- Cells written to the points of an area one after the other could as well be copied from a tile. -/
theorem foldl_overwrite (dom : Box (d + 1)) (mem : List UInt8) {f : ℕ → List UInt8} (hlen : ∀ n < areaRes.cells.card, (f n).length = rsize) :
    ∃ opTile : Tile d rsize, opTile.domain = areaRes ∧
      (∀ n < areaRes.cells.card, cell rsize opTile.contents n = f n) ∧
      (List.range areaRes.cells.card).foldl
        (fun mem n => overwrite mem (dom.index (areaRes.pointAt n) * rsize) (f n)) mem =
          copyLines rsize 1 opTile.contents (cellLines dom areaRes opTile.domain areaRes) mem := by
  refine ⟨⟨areaRes, (List.range areaRes.cells.card).flatMap f, length_flatMap hlen⟩, rfl,
    fun n hn => cell_flatMap hlen hn, ?_⟩
  rw [copyLines, cellLines, List.foldl_map]
  refine List.foldl_ext _ _ _ fun mem n hn => ?_
  have hn := List.mem_range.mp hn
  have hcell := cell_flatMap hlen hn
  rw [cell] at hcell
  simp only [index_pointAt hn, line, Nat.one_mul, hcell]

/-- The iterators of the result and of all operands are in range and go through areas of one size. -/
structure InStep (dom areaRes : Box (d + 1)) (rsize : ℕ) (operands : List (CellOperand d)) : Prop where
  covers : dom.Covers areaRes
  inRange : Miter.InRange dom areaRes rsize
  operands : ∀ o ∈ operands, o.Steps areaRes

theorem cellLoop_eq (h : InStep dom areaRes rsize operands) :
    cellLoop myOp areaRes.cells.card (.make dom areaRes rsize) (operands.map CellOperand.source) mem =
      (List.range areaRes.cells.card).foldlM (cellStep dom areaRes rsize operands myOp) mem := by
  have hsources : operands.map CellOperand.source = operands.map fun o => o.sourceAt 0 := by
    refine List.map_congr_left fun o ho => ?_
    rw [CellOperand.source, Miter.make_of_inRange (h.operands o ho).covers (h.operands o ho).inRange,
      CellOperand.sourceAt]
  rw [Miter.make_of_inRange h.covers h.inRange, hsources,
    cellLoop_stateAt h.covers h.operands areaRes.card_cells_pos (by omega), List.drop_zero]

variable {t : Tile d rsize}

/-- **The operator is applied to the cells at the same place of the areas**, where it is defined. -/
theorem execOp_spec (h : InStep t.domain areaRes rsize operands) (hreturns : ReturnsCells rsize myOp)
    (hop : ∀ n < areaRes.cells.card, ∃ c, myOp (operands.map fun o => o.cellNo n) = .ok c) :
    ∃ t', t.execOp myOp areaRes operands = .ok t' ∧ t'.domain = t.domain ∧
      (∀ p ∈ areaRes, myOp (operands.map fun o => o.cellNo (areaRes.index p)) = .ok (t'.cellAt p)) ∧
      ∀ p ∈ t.domain, p ∉ areaRes → t'.cellAt p = t.cellAt p := by
  choose! f hf using hop
  have hlen : ∀ n < areaRes.cells.card, (f n).length = rsize := fun n hn => hreturns _ _ (hf n hn)
  have hloop : cellLoop myOp areaRes.cells.card (.make t.domain areaRes rsize)
      (operands.map CellOperand.source) t.contents = _ :=
    (cellLoop_eq h).trans (foldlM_cellStep h.covers t.length_contents hlen hf)
  obtain ⟨opTile, hdom, hcells, hcopy⟩ := foldl_overwrite t.domain t.contents hlen
  have hcov : opTile.domain.Covers areaRes := hdom ▸ Covers.refl _
  set contents := copyLines rsize 1 opTile.contents
    (cellLines t.domain areaRes opTile.domain areaRes) t.contents with hcontents
  have hlength : contents.length = t.domain.cells.card * rsize :=
    (length_copyLines (linesFit_cellLines rsize h.covers hcov rfl t.length_contents)).trans
      t.length_contents
  have hcell : ∀ p ∈ t.domain, cell rsize contents (t.domain.index p) =
      if p ∈ areaRes then opTile.cellAt p else t.cellAt p := by
    intro p hp
    rw [hcontents, cell_copyLines_cellLines h.covers hcov rfl t.length_contents hp]
    refine if_ctx_congr Iff.rfl (fun hin => ?_) fun _ => rfl
    rw [pointAt_index hin]
  rw [hcopy] at hloop
  refine ⟨⟨t.domain, contents, hlength⟩, ?_, rfl, fun p hp => ?_, fun p hp hout => ?_⟩
  · simp only [execOp, hloop, bind, Except.bind, dif_pos hlength]
    rfl
  · have hread := (hcell p (covers_iff.mp h.covers p hp)).trans (if_pos hp)
    rw [cellAt, hdom, hcells _ (index_lt hp)] at hread
    rw [hf _ (index_lt hp)]
    exact congrArg _ hread.symm
  · exact (hcell p hp).trans (if_neg hout)

/-- **If the first operand is read outside of its tile, the loop ends.** -/
theorem execOp_read_error {o : CellOperand d} {e : Halt} (h : o.source.read = .error e) :
    t.execOp myOp areaRes (o :: operands) = .error e := by
  obtain ⟨n, hn⟩ := Nat.exists_eq_succ_of_ne_zero areaRes.card_cells_pos.ne'
  have hloop : cellLoop myOp (n + 1) (.make t.domain areaRes rsize)
      (o.source :: operands.map CellOperand.source) t.contents = .error e := cellLoop_read_error rfl h
  rw [← Nat.succ_eq_add_one, ← hn] at hloop
  rw [execOp, List.map_cons, hloop]
  rfl

/-- **If the operator throws at some point, so does the loop.** -/
theorem execOp_error (h : InStep t.domain areaRes rsize operands)
    {n : ℕ} (hn : n < areaRes.cells.card) {e : Halt}
    (hop : myOp (operands.map fun o => o.cellNo n) = .error e) :
    ∃ e', t.execOp myOp areaRes operands = .error e' := by
  obtain ⟨e', he'⟩ := ExceptFold.foldlM_error_of_mem (List.mem_range.mpr hn)
    (f := cellStep t.domain areaRes rsize operands myOp)
    (fun mem => ⟨e, by rw [cellStep, hop]; rfl⟩) t.contents
  refine ⟨e', ?_⟩
  rw [execOp, cellLoop_eq h, he']
  rfl

end Loop

end Rasdaman
