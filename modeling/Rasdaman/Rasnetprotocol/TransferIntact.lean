import Rasdaman.Machinery.ExceptFold
import Rasdaman.Rasnetprotocol.GetMDDCollection

/-!
# Rasnetprotocol/TransferIntact — when transferred MDDs arrive intact

The two sides agree as long as each tile fits into two blocks.  What the client has of a tile at the
end is what its last round for the tile received, `delivered`; the rounds of a tile start from what the
counter says is left of it, `remaining`.
-/

namespace Rasdaman

open RowMajor

namespace Transfer

/-! ## One block -/

/-- What the server takes to be left of a tile of `size` bytes. -/
def remaining (max counter size : ℕ) : ℕ :=
  if max < size then if counter = 0 then size else counter else size

/-- The counter after a tile. -/
def counterAfter (max counter size : ℕ) : ℕ := if max < size then 0 else counter

/-- The context after the last block of a tile, and the status of that block. -/
def finish (c : Context) (counter : ℕ) (ts : List AnyTile) : Context × ℕ :=
  Context.moveOn { c with bytesToTransfer := counter } ts 2

/-- The context after a block that leaves something of the tile. -/
def resume (c : Context) (counter : ℕ) (t : AnyTile) (ts : List AnyTile) : Context :=
  { c with bytesToTransfer := counter, transTiles := some (t :: ts) }

/-- The bytes of a tile from where it is left on. -/
def piece (t : AnyTile) (r n : ℕ) : List UInt8 := (t.tile.contents.drop (t.size - r)).take n

/-- A block of a tile. -/
def blockOf (t : AnyTile) (r n : ℕ) : RPCMarray := ⟨⟨t.dim, t.tile.domain⟩, t.tsize, piece t r n⟩

section Block

variable {max r : ℕ} {c : Context} {t : AnyTile} {ts : List AnyTile}

theorem length_piece {n : ℕ} (hr : r ≤ t.size) (hn : n ≤ r) : (piece t r n).length = n := by
  have : t.tile.contents.length = t.size := rfl
  rw [piece, List.length_take, List.length_drop]
  omega

theorem remaining_pos (hs : 0 < t.size) : 0 < remaining max c.bytesToTransfer t.size := by
  rw [remaining]
  split_ifs <;> omega

theorem nextBlock_last {counter size : ℕ} (hr : remaining max counter size = r) (hmax : r ≤ max) :
    ∃ sv, 1 < sv ∧
      nextBlock max size counter = ⟨size - r, r, counterAfter max counter size, sv⟩ := by
  subst hr
  by_cases hbig : max < size
  · by_cases h0 : counter = 0
    · simp only [remaining, hbig, h0, if_true] at hmax
      omega
    · simp only [remaining, hbig, h0, if_true, if_false] at hmax ⊢
      refine ⟨2, by decide, ?_⟩
      simp [nextBlock, counterAfter, hbig, h0, Nat.not_lt.mpr hmax]
  · refine ⟨3, by decide, ?_⟩
    simp [nextBlock, counterAfter, remaining, hbig]

theorem nextBlock_more {counter size : ℕ} (hr : remaining max counter size = r) (hmax : max < r) :
    nextBlock max size counter = ⟨size - r, max, r - max, 1⟩ := by
  subst hr
  by_cases hbig : max < size
  · by_cases h0 : counter = 0
    · simp [nextBlock, remaining, hbig, h0]
    · simp only [remaining, hbig, h0, if_true, if_false] at hmax ⊢
      simp [nextBlock, hbig, h0, hmax]
  · simp only [remaining, hbig, if_false] at hmax

theorem moveOn_of_one_lt {sv : ℕ} (h : 1 < sv) : c.moveOn ts sv = c.moveOn ts 2 := by
  cases ts with
  | nil => rfl
  | cons t ts => rw [Context.moveOn, Context.moveOn, if_neg (by omega), if_neg (by decide)]

/-- A block inside of the tile is sent. -/
theorem getNextTile_of_block {n counter sv : ℕ} (hts : c.transTiles = some (t :: ts))
    (hb : nextBlock max t.size c.bytesToTransfer = ⟨t.size - r, n, counter, sv⟩)
    (hsize : t.size < 2 ^ 32) (hle : r ≤ t.size) (hn : n ≤ r) :
    c.getNextTile max =
      let r' := Context.moveOn { c with bytesToTransfer := counter }
        (if sv > 1 then ts else t :: ts) sv
      .ok (r'.1, r'.2, some (blockOf t r n)) := by
  have hlen : n % 2 ^ 32 = n := Nat.mod_eq_of_lt (by omega)
  have hoff : ((t.size : ℤ) - r).toNat = t.size - r := by omega
  rw [Context.getNextTile, hts]
  simp only [hb, hlen, hoff]
  rw [if_neg (by omega)]
  rfl

/-- The last block of a tile. -/
theorem getNextTile_last (hts : c.transTiles = some (t :: ts)) (hsize : t.size < 2 ^ 32)
    (hr : remaining max c.bytesToTransfer t.size = r) (hle : r ≤ t.size) (hmax : r ≤ max) :
    c.getNextTile max =
      .ok ((finish c (counterAfter max c.bytesToTransfer t.size) ts).1,
        (finish c (counterAfter max c.bytesToTransfer t.size) ts).2, some (blockOf t r r)) := by
  obtain ⟨sv, hsv, hb⟩ := nextBlock_last hr hmax
  rw [getNextTile_of_block hts hb hsize hle le_rfl, if_pos hsv, moveOn_of_one_lt hsv]
  rfl

/-- A block that leaves something of the tile. -/
theorem getNextTile_more (hts : c.transTiles = some (t :: ts)) (hsize : t.size < 2 ^ 32)
    (hr : remaining max c.bytesToTransfer t.size = r) (hle : r ≤ t.size) (hmax : max < r) :
    c.getNextTile max = .ok (resume c (r - max) t ts, 3, some (blockOf t r max)) := by
  rw [getNextTile_of_block hts (nextBlock_more hr hmax) hsize hle hmax.le]
  rfl

/-- Nothing can be sent when more is left than the tile has. -/
theorem getNextTile_error (hts : c.transTiles = some (t :: ts))
    (hr : remaining max c.bytesToTransfer t.size = r) (hlt : t.size < r) :
    c.getNextTile max = .error .outOfBounds := by
  obtain ⟨n, counter, sv, hb⟩ : ∃ n counter sv,
      nextBlock max t.size c.bytesToTransfer = ⟨t.size - r, n, counter, sv⟩ := by
    rcases le_or_gt r max with hle | hgt
    · obtain ⟨sv, -, hb⟩ := nextBlock_last hr hle
      exact ⟨_, _, _, hb⟩
    · exact ⟨_, _, _, nextBlock_more hr hgt⟩
  rw [Context.getNextTile, hts]
  simp only [hb]
  rw [if_pos (Or.inl (by omega))]

/-- What is left after a block of a tile that is larger than the buffer. -/
theorem remaining_resume (ts : List AnyTile) (hr : remaining max c.bytesToTransfer t.size = r) (hle : r ≤ t.size)
    (hmax : max < r) : remaining max (resume c (r - max) t ts).bytesToTransfer t.size = r - max := by
  have hbig : max < t.size := by omega
  have h0 : r - max ≠ 0 := by omega
  change (if max < t.size then if r - max = 0 then t.size else r - max else t.size) = r - max
  rw [if_pos hbig, if_neg h0]

/-! ## One round of the client -/

/-- The memory of a tile after a round that received its last `r` bytes, or as many of them as two
blocks hold. -/
def receivedMemory (max : ℕ) (t : AnyTile) (r : ℕ) : Memory :=
  (piece t r (min r (2 * max))).map some ++ List.replicate (t.size - min r (2 * max)) none

theorem length_receivedMemory (hr : r ≤ t.size) : (receivedMemory max t r).length = t.size := by
  rw [receivedMemory, List.length_append, List.length_map, length_piece hr (min_le_left ..),
    List.length_replicate]
  omega

theorem concat_first {xs : List UInt8} {n : ℕ} (h : xs.length ≤ n) :
    concatArrayData xs (List.replicate n none) 0 =
      (xs.map some ++ List.replicate (n - xs.length) none, xs.length) := by
  rw [concatArrayData, if_neg (by simpa using h), overwrite]
  simp

theorem concat_second {xs ys : List UInt8} {n : ℕ} (h : xs.length + ys.length ≤ n) :
    concatArrayData ys (xs.map some ++ List.replicate (n - xs.length) none) xs.length =
      ((xs ++ ys).map some ++ List.replicate (n - (xs ++ ys).length) none,
        xs.length + ys.length) := by
  have hlen : (xs.map some ++ List.replicate (n - xs.length) (none : Option UInt8)).length = n := by
    simp
    omega
  have hxs : (xs.map some).length = xs.length := List.length_map ..
  rw [concatArrayData, if_neg (by rw [hlen]; omega), overwrite, ← hxs, List.take_left,
    List.drop_append, List.drop_of_length_le (by omega), List.nil_append, hxs, List.length_map,
    List.drop_replicate, Nat.add_sub_cancel_left, List.map_append, List.length_append]
  congr 3
  omega

theorem executeGetNextTile_ok {c' : Context} {st : ℕ} {m : RPCMarray}
    (h : c.getNextTile max = .ok (c', st, some m)) (hlen : m.data.length < 2 ^ 31) :
    executeGetNextTile max c = .ok (c', st, some m) := by
  rw [executeGetNextTile, h]
  exact if_pos hlen

/-- The result of a round for a tile of which `r` bytes are left. -/
def roundResult (max : ℕ) (c : Context) (t : AnyTile) (ts : List AnyTile) (r : ℕ) :
    Context × Received :=
  if r ≤ 2 * max then
    ((finish c (counterAfter max c.bytesToTransfer t.size) ts).1,
      ⟨(finish c (counterAfter max c.bytesToTransfer t.size) ts).2, ⟨t.dim, t.tile.domain⟩, t.tsize,
        receivedMemory max t r⟩)
  else (resume c (r - 2 * max) t ts, ⟨3, ⟨t.dim, t.tile.domain⟩, t.tsize, receivedMemory max t r⟩)

theorem roundResult_tile (max : ℕ) (c : Context) (t : AnyTile) (ts : List AnyTile) (r : ℕ) :
    (roundResult max c t ts r).2.domain = ⟨t.dim, t.tile.domain⟩ ∧
      (roundResult max c t ts r).2.cellTypeLength = t.tsize ∧
        (roundResult max c t ts r).2.memory = receivedMemory max t r := by
  rw [roundResult]
  split
  · exact ⟨rfl, rfl, rfl⟩
  · exact ⟨rfl, rfl, rfl⟩

/-- The size of the memory for a tile. -/
def memCopyLen (typeLength : Option ℕ) (m : RPCMarray) : ℕ :=
  Nat.max (m.domain.box.cellCount * typeLength.getD m.cellTypeLength % areaModulus) m.data.length

theorem memCopyLen_blockOf {typeLength : Option ℕ} {n : ℕ} (hL : typeLength.getD t.tsize = t.tsize)
    (hpos : 0 < t.tsize) (hsize : t.size < 2 ^ 32) (hle : r ≤ t.size) (hn : n ≤ r) :
    memCopyLen typeLength (blockOf t r n) = t.size := by
  have hlen : t.size = t.tile.domain.cells.card * t.tsize := t.tile.length_contents
  have hcard : t.tile.domain.cells.card ≤ t.size := hlen ▸ Nat.le_mul_of_pos_right _ hpos
  have hmod : areaModulus = 2 ^ 64 := rfl
  have hcells : t.tile.domain.cellCount * t.tsize % areaModulus = t.size := by
    rw [Box.cellCount_eq_card (by omega), ← hlen, Nat.mod_eq_of_lt (by omega)]
  have hdata : (blockOf t r n).data.length = n := length_piece hle hn
  rw [memCopyLen, hdata]
  simp only [blockOf, hL, hcells]
  exact max_eq_left (hn.trans hle)

theorem receiveTile_one {typeLength : Option ℕ} {c' : Context} {st : ℕ} {m : RPCMarray}
    (h : executeGetNextTile max c = .ok (c', st, some m)) (hst : st ≠ 3) :
    receiveTile max typeLength c = .ok (c', ⟨st, m.domain, m.cellTypeLength,
      (concatArrayData m.data (List.replicate (memCopyLen typeLength m) none) 0).1⟩) := by
  rw [receiveTile, h]
  exact if_neg hst

theorem receiveTile_two {typeLength : Option ℕ} {c' c'' : Context} {st n : ℕ} {m m' : RPCMarray}
    {mem mem' : Memory} (h : executeGetNextTile max c = .ok (c', 3, some m))
    (h' : executeGetNextTile max c' = .ok (c'', st, some m'))
    (hmem : concatArrayData m.data (List.replicate (memCopyLen typeLength m) none) 0 = (mem, n))
    (hmem' : (concatArrayData m'.data mem n).1 = mem')
    (hlen : mem'.length = memCopyLen typeLength m) :
    receiveTile max typeLength c = .ok (c'', ⟨st, m.domain, m.cellTypeLength, mem'⟩) := by
  rw [receiveTile, h]
  simp only [memCopyLen] at hmem hlen
  simp only [bind, Except.bind, if_true, h', hmem, hmem']
  exact if_pos hlen

theorem finish_nil_lt (c : Context) (counter : ℕ) : (finish c counter []).2 < 2 := by
  rw [finish, Context.moveOn]
  split
  · exact Nat.two_pos
  · simp only
    split <;> decide

theorem finish_status_ne (c : Context) (counter : ℕ) (ts : List AnyTile) :
    (finish c counter ts).2 ≠ 3 := by
  cases ts with
  | nil => exact ((finish_nil_lt c counter).trans (by decide)).ne
  | cons t ts => exact (by decide : (2 : ℕ) ≠ 3)

theorem piece_append {n : ℕ} (hle : r ≤ t.size) (hmax : max ≤ r) :
    piece t r max ++ piece t (r - max) n = piece t r (max + n) := by
  have hsplit : t.size - (r - max) = t.size - r + max := by omega
  rw [piece, piece, piece, List.take_add, List.drop_drop, hsplit]

/-- Two blocks put together. -/
theorem receiveTile_blocks {typeLength : Option ℕ} {c' c'' : Context} {st n : ℕ}
    (hL : typeLength.getD t.tsize = t.tsize) (hpos : 0 < t.tsize) (hsize : t.size < 2 ^ 32)
    (hle : r ≤ t.size) (hmax : max < r)
    (h : executeGetNextTile max c = .ok (c', 3, some (blockOf t r max)))
    (h' : executeGetNextTile max c' = .ok (c'', st, some (blockOf t (r - max) n)))
    (hn : n = min (r - max) max) :
    receiveTile max typeLength c =
      .ok (c'', ⟨st, ⟨t.dim, t.tile.domain⟩, t.tsize, receivedMemory max t r⟩) := by
  have hlen : (piece t r max).length = max := length_piece hle hmax.le
  have hlen' : (piece t (r - max) n).length = n := length_piece (by omega) (by omega)
  have hcopy := memCopyLen_blockOf (n := max) hL hpos hsize hle hmax.le
  have hmem : concatArrayData (blockOf t r max).data
      (List.replicate (memCopyLen typeLength (blockOf t r max)) none) 0 =
        ((piece t r max).map some ++
          List.replicate (t.size - (piece t r max).length) none, (piece t r max).length) := by
    rw [hcopy]
    exact concat_first (by rw [blockOf, hlen]; omega)
  refine receiveTile_two h h' hmem ?_ (by rw [hcopy, length_receivedMemory hle])
  rw [show (blockOf t (r - max) n).data = piece t (r - max) n from rfl, concat_second (by omega),
    piece_append hle hmax.le, length_piece hle (by omega), receivedMemory,
    show max + n = min r (2 * max) by omega]

/-- **One round of the client for one tile.** -/
theorem receiveTile_ok {typeLength : Option ℕ} (hmax : 0 < max)
    (hts : c.transTiles = some (t :: ts)) (hsize : t.size < 2 ^ 32) (hpos : 0 < t.tsize)
    (hL : typeLength.getD t.tsize = t.tsize)
    (hr : remaining max c.bytesToTransfer t.size = r) (hle : r ≤ t.size) (hint : min r max < 2 ^ 31) :
    receiveTile max typeLength c = .ok (roundResult max c t ts r) := by
  rcases le_or_gt r max with hone | htwo
  · -- the whole rest in one block
    have hlen : (blockOf t r r).data.length = r := length_piece hle le_rfl
    have hget := executeGetNextTile_ok (getNextTile_last hts hsize hr hle hone) (by omega)
    have hst := finish_status_ne c (counterAfter max c.bytesToTransfer t.size) ts
    rw [receiveTile_one hget hst, memCopyLen_blockOf hL hpos hsize hle le_rfl,
      concat_first (by omega), hlen, roundResult, if_pos (by omega), receivedMemory,
      min_eq_left (by omega)]
    rfl
  · -- a block of the size of the buffer, and another one
    have hlen : (piece t r max).length = max := length_piece hle htwo.le
    have hget := executeGetNextTile_ok (getNextTile_more hts hsize hr hle htwo)
      (by rw [blockOf, hlen]; omega)
    have hts' : (resume c (r - max) t ts).transTiles = some (t :: ts) := rfl
    have hr' := remaining_resume ts hr hle htwo
    rcases le_or_gt (r - max) max with hlast | hmore
    · have hlen' : (piece t (r - max) (r - max)).length = r - max := length_piece (by omega) le_rfl
      have hget' := executeGetNextTile_ok (getNextTile_last hts' hsize hr' (by omega) hlast)
        (by rw [blockOf, hlen']; omega)
      rw [receiveTile_blocks hL hpos hsize hle htwo hget hget' (by omega), roundResult,
        if_pos (by omega)]
      have hbig : max < t.size := by omega
      simp only [counterAfter, if_pos hbig]
      rfl
    · have hlen' : (piece t (r - max) max).length = max := length_piece (by omega) hmore.le
      have hget' := executeGetNextTile_ok (getNextTile_more hts' hsize hr' (by omega) hmore)
        (by rw [blockOf, hlen']; omega)
      rw [receiveTile_blocks hL hpos hsize hle htwo hget hget' (by omega), roundResult,
        if_neg (by omega)]
      have hsub : r - max - max = r - 2 * max := by omega
      rw [hsub]
      rfl

/-- A round fails when the counter is larger than the tile, or a block too long for an `int`. -/
theorem receiveTile_error {typeLength : Option ℕ} (hts : c.transTiles = some (t :: ts))
    (hsize : t.size < 2 ^ 32) (hr : remaining max c.bytesToTransfer t.size = r)
    (h : ¬(r ≤ t.size ∧ min r max < 2 ^ 31)) : ∃ e, receiveTile max typeLength c = .error e := by
  rcases le_or_gt r t.size with hle | hgt
  · have hlong : 2 ^ 31 ≤ min r max := by
      rw [not_and] at h
      exact Nat.not_lt.mp (h hle)
    obtain ⟨c', st, hget⟩ : ∃ c' st, c.getNextTile max = .ok (c', st, some (blockOf t r (min r max))) := by
      rcases le_or_gt r max with hone | htwo
      · rw [min_eq_left hone]
        exact ⟨_, _, getNextTile_last hts hsize hr hle hone⟩
      · rw [min_eq_right htwo.le]
        exact ⟨_, _, getNextTile_more hts hsize hr hle htwo⟩
    have hlen : (blockOf t r (min r max)).data.length = min r max := length_piece hle (min_le_left ..)
    refine ⟨.badAlloc, ?_⟩
    have hexec : executeGetNextTile max c = .error .badAlloc := by
      rw [executeGetNextTile, hget]
      exact if_neg (by omega)
    rw [receiveTile, hexec]
    rfl
  · refine ⟨.outOfBounds, ?_⟩
    rw [receiveTile, executeGetNextTile, getNextTile_error hts hr hgt]
    rfl

end Block

/-! ## A tile is put into the MDD -/

section Insert

variable {d L cntr : ℕ} {M T : Box (d + 1)} {tile array : Memory}

theorem copyRow_ok (hM : M.Covers T) (hsmall : M.cells.card * L < 2 ^ 32) (hL : 0 < L)
    (htile : tile.length = T.cells.card * L) (harray : array.length = M.cells.card * L) {k : ℕ}
    (hk : k < T.rows) :
    copyRow L M T tile array k =
      .ok (overwrite array (M.index (T.pointAt (k * T.width)) * L) (line L T.width tile (k * T.width)))
        := by
  have hcard : M.cells.card ≤ M.cells.card * L := Nat.le_mul_of_pos_right _ hL
  have hcardT := Box.card_cells_le_of_covers hM
  have hmod : areaModulus = 2 ^ 64 := rfl
  have hmem := Box.pointAt_mem (T.row_lt hk)
  have hfits := Box.row_fits hM hk
  have hrow : (k + 1) * (T.width * L) ≤ T.cells.card * L := by
    rw [← Nat.mul_assoc, ← T.rows_mul_width]
    exact Nat.mul_le_mul_right _ (Nat.mul_le_mul_right _ hk)
  have hoff : M.cellOffset (T.cellPoint (k * T.width)) = M.index (T.pointAt (k * T.width)) := by
    rw [Box.cellPoint_eq_pointAt (by omega),
      Box.cellOffset_eq_index (Box.covers_iff.mp hM _ hmem) (by omega)]
  rw [copyRow]
  simp only [hoff]
  refine if_pos ⟨?_, by rw [htile]; exact hrow⟩
  rw [← Nat.add_mul, harray]
  exact Nat.mul_le_mul_right _ hfits

/-- The rows of a tile are copied one by one. -/
theorem copyIntoMDD_ok (hM : M.Covers T) (hsmall : M.cells.card * L < 2 ^ 32) (hL : 0 < L)
    (htile : tile.length = T.cells.card * L) (harray : array.length = M.cells.card * L) :
    copyIntoMDD L ⟨d, M⟩ ⟨d, T⟩ tile array =
      .ok (copyLines L T.width tile (Box.rowLines M T T T) array) := by
  have hcard : M.cells.card ≤ M.cells.card * L := Nat.le_mul_of_pos_right _ hL
  have hcardT := Box.card_cells_le_of_covers hM
  have hmod : areaModulus = 2 ^ 64 := rfl
  have hrows : T.cellCount / T.width = T.rows := by
    rw [Box.cellCount_eq_card (by omega), Box.rows]
  have hlines : ∀ k ∈ List.range T.rows, ∀ a : Memory, a.length = M.cells.card * L →
      copyRow L M T tile a k = .ok (overwrite a (M.index (T.pointAt (k * T.width)) * L)
          (line L T.width tile (T.index (T.pointAt (k * T.width))))) ∧
        (overwrite a (M.index (T.pointAt (k * T.width)) * L)
          (line L T.width tile (T.index (T.pointAt (k * T.width))))).length =
            M.cells.card * L := by
    intro k hk a ha
    have hk := List.mem_range.mp hk
    rw [Box.index_pointAt (T.row_lt hk), copyRow_ok hM hsmall hL htile ha hk]
    refine ⟨rfl, ?_⟩
    have hfitT := Box.row_fits (Box.Covers.refl T) hk
    rw [Box.index_pointAt (T.row_lt hk)] at hfitT
    rw [length_overwrite, ha]
    rw [length_line (by rw [htile]; exact Nat.mul_le_mul_right _ hfitT), ← Nat.add_mul, ha]
    exact Nat.mul_le_mul_right _ (Box.row_fits hM hk)
  rw [copyIntoMDD, dif_pos rfl]
  simp only [hrows]
  rw [ExceptFold.foldlM_eq_ok (P := fun a => a.length = M.cells.card * L) hlines harray, copyLines,
    Box.rowLines, List.foldl_map]

/-- The memory a tile is copied to: zeros before the first tile. -/
def baseArray (M : Box (d + 1)) (L cntr : ℕ) (array : Memory) : Memory :=
  if cntr = 0 then List.replicate (M.cells.card * L) (some 0) else array

/-- **A tile is put into the MDD**: its points have its cells, the others keep theirs. -/
theorem insertTile_ok (st : ℕ) (hM : M.Covers T) (hsmall : M.cells.card * L < 2 ^ 32) (hL : 0 < L)
    (htile : tile.length = T.cells.card * L)
    (harray : (baseArray M L cntr array).length = M.cells.card * L) :
    ∃ array', insertTile ⟨d, M⟩ L (cntr + 1) array ⟨st, ⟨d, T⟩, L, tile⟩ = .ok array' ∧
      array'.length = M.cells.card * L ∧
        ∀ p ∈ M, cell L array' (M.index p) =
          if p ∈ T then cell L tile (T.index p)
          else cell L (baseArray M L cntr array) (M.index p) := by
  have hcard : M.cells.card ≤ M.cells.card * L := Nat.le_mul_of_pos_right _ hL
  have hmod : areaModulus = 2 ^ 64 := rfl
  rw [insertTile]
  split
  · next hone =>
    obtain ⟨-, -, hTM⟩ := hone
    obtain rfl : T = M := by
      simp only [AnyBox.mk.injEq, heq_eq_eq, true_and] at hTM
      exact hTM
    exact ⟨tile, rfl, htile, fun p hp => (if_pos hp).symm⟩
  · have hbase : (if cntr + 1 = 1 then
        List.replicate (M.cellCount * L % 2 ^ 32) (some 0) else array) = baseArray M L cntr array := by
      rw [baseArray, Box.cellCount_eq_card (by omega), Nat.mod_eq_of_lt hsmall]
      simp only [Nat.add_eq_right]
    simp only [hbase]
    rw [copyIntoMDD_ok hM hsmall hL htile harray]
    refine ⟨_, rfl, ?_, fun p hp => ?_⟩
    · rw [length_copyLines (Box.linesFit_rowLines hM (Box.Covers.refl T) rfl rfl harray htile), harray]
    · rw [Box.cell_copyLines_rowLines hM (Box.Covers.refl T) rfl rfl harray htile hp]
      split
      · next hin => rw [Box.pointAt_index hin]
      · rfl

end Insert

/-! ## All rounds for a tile -/

/-- The rest of the loop of `getMDDCore` after a round. -/
def coreRest (max : ℕ) (M : AnyBox) (n cntr L : ℕ) (array : Memory) (r : Context × ℕ) :
    Except Fault (Context × ℕ × GMarray) :=
  if r.2 = 2 ∨ r.2 = 3 then getMDDCoreLoop max M n cntr (some L) array r.1
  else .ok (r.1, r.2, ⟨M, L, array⟩)

theorem getMDDCoreLoop_succ {max n cntr L : ℕ} {M : AnyBox} {typeLength : Option ℕ}
    {array array' : Memory} {c c' : Context} {r : Received}
    (hrec : receiveTile max typeLength c = .ok (c', r)) (htl : typeLength.getD r.cellTypeLength = L)
    (hins : insertTile M L (cntr + 1) array r = .ok array') :
    getMDDCoreLoop max M (n + 1) cntr typeLength array c =
      coreRest max M n (cntr + 1) L array' (c', r.tileStatus) := by
  subst htl
  rw [getMDDCoreLoop, hrec]
  simp only [bind, Except.bind, hins]
  rfl

/-- More rounds allowed do not change a result. -/
theorem getMDDCoreLoop_mono {max n cntr : ℕ} {M : AnyBox} {typeLength : Option ℕ} {array : Memory}
    {c : Context} {x : Context × ℕ × GMarray}
    (h : getMDDCoreLoop max M n cntr typeLength array c = .ok x) (k : ℕ) :
    getMDDCoreLoop max M (n + k) cntr typeLength array c = .ok x := by
  induction n generalizing cntr typeLength array c with
  | zero => cases h
  | succ n ih =>
    rw [getMDDCoreLoop] at h
    obtain ⟨⟨c', r⟩, hrec, h⟩ := ExceptFold.bind_eq_ok h
    obtain ⟨array', hins, h⟩ := ExceptFold.bind_eq_ok h
    rw [Nat.add_right_comm, getMDDCoreLoop_succ hrec rfl hins, coreRest]
    split at h
    · next hst =>
      rw [if_pos hst]
      exact ih h
    · next hst =>
      rw [if_neg hst]
      exact h

/-- The bytes of the last round of a tile of which `r` are left. -/
def lastPart (max r : ℕ) : ℕ := (r - 1) % (2 * max) + 1

/-- **What the client has of a tile** after its last round. -/
def delivered (max counter : ℕ) (t : AnyTile) : Memory :=
  receivedMemory max t (lastPart max (remaining max counter t.size))

/-- A tile can be fetched without a fault. -/
def Fetchable (max counter : ℕ) (t : AnyTile) : Prop :=
  remaining max counter t.size ≤ t.size ∧ min (remaining max counter t.size) max < 2 ^ 31

section Rounds

variable {max r d L : ℕ} {M : Box (d + 1)} {t : Tile d L} {ts : List AnyTile} {c : Context}

theorem lastPart_of_le (hr : 0 < r) (h : r ≤ 2 * max) : lastPart max r = r := by
  rw [lastPart, Nat.mod_eq_of_lt (by omega)]
  omega

theorem lastPart_sub (h : 2 * max < r) : lastPart max (r - 2 * max) = lastPart max r := by
  have hsplit : r - 1 = r - 2 * max - 1 + 2 * max := by omega
  rw [lastPart, lastPart, hsplit, Nat.add_mod_right]

theorem finish_resume {counter counter' : ℕ} {t : AnyTile} :
    finish (resume c counter' t ts) counter ts = finish c counter ts := by
  cases ts <;> rfl

/-- **The rounds of one tile.** -/
theorem rounds_of_tile (hmax : 0 < max) (hL : 0 < L) (hM : M.Covers t.domain)
    (hsmall : M.cells.card * L < 2 ^ 32) (hsize : t.contents.length < 2 ^ 32) {cntr : ℕ}
    {typeLength : Option ℕ} (htl : typeLength.getD L = L) {array : Memory}
    (harray : (baseArray M L cntr array).length = M.cells.card * L)
    (hts : c.transTiles = some (⟨d, L, t⟩ :: ts))
    (hr : remaining max c.bytesToTransfer t.contents.length = r) (hpos : 0 < r)
    (hle : r ≤ t.contents.length) (hint : min r max < 2 ^ 31) :
    ∃ k array', 0 < k ∧
      (∀ n, getMDDCoreLoop max ⟨d, M⟩ (n + k) cntr typeLength array c =
        coreRest max ⟨d, M⟩ n (cntr + k) L array'
          (finish c (counterAfter max c.bytesToTransfer t.contents.length) ts)) ∧
      array'.length = M.cells.card * L ∧
      ∀ p ∈ M, cell L array' (M.index p) =
        if p ∈ t.domain then
          cell L (receivedMemory max ⟨d, L, t⟩ (lastPart max r)) (t.domain.index p)
        else cell L (baseArray M L cntr array) (M.index p) := by
  induction r using Nat.strong_induction_on generalizing cntr typeLength array c with
  | _ r ih =>
    have hrec := receiveTile_ok (t := ⟨d, L, t⟩) hmax hts hsize hL htl hr hle hint
    have hlen : (receivedMemory max ⟨d, L, t⟩ r).length = t.domain.cells.card * L :=
      (length_receivedMemory (t := ⟨d, L, t⟩) hle).trans t.length_contents
    rcases le_or_gt r (2 * max) with hlast | hmore
    · -- the last round
      rw [roundResult, if_pos hlast] at hrec
      obtain ⟨array', hins, hlen', hcells⟩ := insertTile_ok
        (finish c (counterAfter max c.bytesToTransfer t.contents.length) ts).2
        hM hsmall hL hlen harray
      refine ⟨1, array', Nat.one_pos, fun n => ?_, hlen', ?_⟩
      · exact getMDDCoreLoop_succ hrec htl hins
      · rwa [lastPart_of_le hpos hlast]
    · -- the tile goes on in a round that starts it anew
      rw [roundResult, if_neg (by omega)] at hrec
      obtain ⟨array₁, hins, hlen₁, hcells₁⟩ := insertTile_ok 3 hM hsmall hL hlen harray
      have hbig : max < t.contents.length := by omega
      have hbase₁ : baseArray M L (cntr + 1) array₁ = array₁ := if_neg (by omega)
      have hr₁ : remaining max (resume c (r - 2 * max) ⟨d, L, t⟩ ts).bytesToTransfer
          t.contents.length = r - 2 * max := by
        change (if max < t.contents.length then
          if r - 2 * max = 0 then t.contents.length else r - 2 * max else t.contents.length) = _
        rw [if_pos hbig, if_neg (by omega)]
      have htl₁ : (some L).getD L = L := rfl
      have hts₁ : (resume c (r - 2 * max) ⟨d, L, t⟩ ts).transTiles = some (⟨d, L, t⟩ :: ts) := rfl
      have harray₁ : (baseArray M L (cntr + 1) array₁).length = M.cells.card * L := by
        rw [hbase₁]
        exact hlen₁
      obtain ⟨k, array', -, hloop, hlen', hcells⟩ := ih (r - 2 * max) (by omega) htl₁ harray₁ hts₁ hr₁
        (by omega) (by omega) (by omega)
      refine ⟨k + 1, array', by omega, fun n => ?_, hlen', fun p hp => ?_⟩
      · rw [← Nat.add_assoc, getMDDCoreLoop_succ hrec htl hins, coreRest, if_pos (Or.inr rfl), hloop n, finish_resume]
        rw [counterAfter, counterAfter, if_pos hbig, if_pos hbig, Nat.add_right_comm, Nat.add_assoc]
      · rw [hcells p hp, lastPart_sub hmore, hbase₁]
        split
        · rfl
        · next hout => rw [hcells₁ p hp, if_neg hout]

end Rounds

/-! ## All tiles of an MDD -/

/-- The tiles can be fetched one after the other. -/
def FetchAll (max : ℕ) : ℕ → List AnyTile → Prop
  | _, [] => True
  | counter, t :: ts => Fetchable max counter t ∧ FetchAll max (counterAfter max counter t.size) ts

/-- The counter after some tiles. -/
def countersAfter (max : ℕ) : ℕ → List AnyTile → ℕ
  | counter, [] => counter
  | counter, t :: ts => countersAfter max (counterAfter max counter t.size) ts

section Tiles

variable {max d L : ℕ} {M : Box (d + 1)}

/-- The tiles with what the client has of them at the end. -/
def deliveries (max : ℕ) : ℕ → List (Tile d L) → List (Tile d L × Memory)
  | _, [] => []
  | counter, t :: ts =>
    (t, delivered max counter ⟨d, L, t⟩) ::
      deliveries max (counterAfter max counter t.contents.length) ts

/-- An array holds the given tiles, and zeros elsewhere. -/
structure Holds (M : Box (d + 1)) (array : Memory) (ds : List (Tile d L × Memory)) : Prop where
  length : array.length = M.cells.card * L
  covered : ∀ e ∈ ds, ∀ p ∈ M, p ∈ e.1.domain →
    cell L array (M.index p) = cell L e.2 (e.1.domain.index p)
  uncovered : ∀ p ∈ M, (∀ e ∈ ds, p ∉ e.1.domain) →
    cell L array (M.index p) = List.replicate L (some 0)

theorem Holds.zeros : Holds (L := L) M (List.replicate (M.cells.card * L) (some 0)) [] := by
  refine ⟨by simp, fun e he => absurd he (by simp), fun p hp _ => ?_⟩
  have hlt := Box.index_lt hp
  have hle : (M.index p + 1) * L ≤ M.cells.card * L := Nat.mul_le_mul_right _ hlt
  rw [Nat.succ_mul] at hle
  rw [cell, List.drop_replicate, List.take_replicate, min_eq_left (by omega)]

/-- One tile more. -/
theorem Holds.insert {array array' : Memory} {ds : List (Tile d L × Memory)} {t : Tile d L}
    {mem : Memory} (h : Holds M array ds) (hlen : array'.length = M.cells.card * L)
    (hcells : ∀ p ∈ M, cell L array' (M.index p) =
      if p ∈ t.domain then cell L mem (t.domain.index p) else cell L array (M.index p))
    (hdis : ∀ e ∈ ds, ¬e.1.domain.Intersects t.domain) : Holds M array' (ds ++ [(t, mem)]) := by
  refine ⟨hlen, fun e he p hp hin => ?_, fun p hp hout => ?_⟩
  · rw [hcells p hp]
    rcases List.mem_append.mp he with he | he
    · rw [if_neg fun ht => hdis e he (.of_mem hin ht)]
      exact h.covered e he p hp hin
    · obtain rfl := List.mem_singleton.mp he
      rw [if_pos hin]
  · rw [hcells p hp, if_neg (hout (t, mem) (by simp))]
    exact h.uncovered p hp fun e he => hout e (List.mem_append_left _ he)

variable {c : Context} {cntr : ℕ} {typeLength : Option ℕ} {array : Memory}
variable {ds : List (Tile d L × Memory)}

/-- The tiles of an MDD: inside of its domain, disjoint, and not too large for `r_Bytes`. -/
structure TilesOf (M : Box (d + 1)) (ts : List (Tile d L)) : Prop where
  covers : ∀ t ∈ ts, M.Covers t.domain
  disjoint : ts.Pairwise fun s t => ¬s.domain.Intersects t.domain
  size_lt : ∀ t ∈ ts, t.contents.length < 2 ^ 32

theorem TilesOf.tail {t : Tile d L} {ts : List (Tile d L)} (h : TilesOf M (t :: ts)) : TilesOf M ts :=
  ⟨fun s hs => h.covers s (List.mem_cons_of_mem _ hs), h.disjoint.of_cons,
    fun s hs => h.size_lt s (List.mem_cons_of_mem _ hs)⟩

theorem contents_pos (hL : 0 < L) (t : Tile d L) : 0 < t.contents.length := by
  rw [t.length_contents]
  exact Nat.mul_pos t.domain.card_cells_pos hL

/-- The context while tiles of the MDD are left. -/
theorem finish_cons (c : Context) (counter : ℕ) (t : AnyTile) (ts : List AnyTile) :
    finish c counter (t :: ts) = (resume c counter t ts, 2) := rfl

/-- **The tiles of an MDD, from any of them on.** -/
theorem run_tiles (hmax : 0 < max) (hL : 0 < L) (hsmall : M.cells.card * L < 2 ^ 32) {t : Tile d L}
    {ts : List (Tile d L)} (htiles : TilesOf M (t :: ts))
    (hdis : ∀ e ∈ ds, ∀ s ∈ t :: ts, ¬e.1.domain.Intersects s.domain)
    (htl : typeLength.getD L = L) (hbase : Holds M (baseArray M L cntr array) ds)
    (hts : c.transTiles = some ((t :: ts).map (AnyTile.mk d L)))
    (hfetch : FetchAll max c.bytesToTransfer ((t :: ts).map (AnyTile.mk d L))) :
    ∃ k array',
      (∀ n, getMDDCoreLoop max ⟨d, M⟩ (n + k) cntr typeLength array c =
        let r := finish c (countersAfter max c.bytesToTransfer ((t :: ts).map (AnyTile.mk d L))) []
        .ok (r.1, r.2, ⟨⟨d, M⟩, L, array'⟩)) ∧
      Holds M array' (ds ++ deliveries max c.bytesToTransfer (t :: ts)) := by
  induction ts generalizing t c cntr typeLength array ds with
  | nil =>
    obtain ⟨⟨hle, hint⟩, -⟩ := hfetch
    obtain ⟨k, array', -, hloop, hlen, hcells⟩ := rounds_of_tile hmax hL
      (htiles.covers t (by simp)) hsmall (htiles.size_lt t (by simp)) htl hbase.length hts rfl
      (remaining_pos (t := ⟨d, L, t⟩) (contents_pos hL t)) hle hint
    refine ⟨k, array', fun n => ?_, ?_⟩
    · have hlt := finish_nil_lt c (counterAfter max c.bytesToTransfer t.contents.length)
      rw [hloop n, coreRest, List.map_nil, if_neg (by omega)]
      rfl
    · exact hbase.insert hlen hcells fun e he => hdis e he t (by simp)
  | cons t' ts ih =>
    obtain ⟨⟨hle, hint⟩, hrest⟩ := hfetch
    obtain ⟨k, array₁, hk, hloop, hlen, hcells⟩ := rounds_of_tile hmax hL
      (htiles.covers t (by simp)) hsmall (htiles.size_lt t (by simp)) htl hbase.length hts rfl
      (remaining_pos (t := ⟨d, L, t⟩) (contents_pos hL t)) hle hint
    have hheld := hbase.insert hlen hcells fun e he => hdis e he t (by simp)
    have hbase₁ : baseArray M L (cntr + k) array₁ = array₁ := if_neg (by omega)
    rw [← hbase₁] at hheld
    have hdis₁ : ∀ e ∈ ds ++ [(t, receivedMemory max ⟨d, L, t⟩ (lastPart max
        (remaining max c.bytesToTransfer t.contents.length)))], ∀ s ∈ t' :: ts,
          ¬e.1.domain.Intersects s.domain := by
      intro e he s hs
      rcases List.mem_append.mp he with he | he
      · exact hdis e he s (List.mem_cons_of_mem _ hs)
      · obtain rfl := List.mem_singleton.mp he
        exact (List.pairwise_cons.mp htiles.disjoint).1 s hs
    have htl₁ : (some L).getD L = L := rfl
    have hts₁ : (resume c (counterAfter max c.bytesToTransfer t.contents.length) ⟨d, L, t'⟩
        (ts.map (AnyTile.mk d L))).transTiles = some ((t' :: ts).map (AnyTile.mk d L)) := rfl
    obtain ⟨k', array', hloop', hheld'⟩ := ih htiles.tail hdis₁ htl₁ hheld hts₁ hrest
    refine ⟨k' + k, array', fun n => ?_, ?_⟩
    · rw [← Nat.add_assoc, hloop (n + k'), List.map_cons, finish_cons, coreRest, if_pos (Or.inl rfl),
        hloop' n]
      rfl
    · rw [List.append_assoc] at hheld'
      exact hheld'

/-- **A tile that cannot be fetched ends the transfer.** -/
theorem run_tiles_fail (hmax : 0 < max) (hL : 0 < L) (hsmall : M.cells.card * L < 2 ^ 32)
    {ts : List (Tile d L)} (htiles : TilesOf M ts) (htl : typeLength.getD L = L)
    (hbase : (baseArray M L cntr array).length = M.cells.card * L)
    (hts : c.transTiles = some (ts.map (AnyTile.mk d L)))
    (hfetch : ¬FetchAll max c.bytesToTransfer (ts.map (AnyTile.mk d L))) {n : ℕ}
    {x : Context × ℕ × GMarray} : getMDDCoreLoop max ⟨d, M⟩ n cntr typeLength array c ≠ .ok x := by
  induction ts generalizing c cntr typeLength array with
  | nil => exact absurd trivial hfetch
  | cons t ts ih =>
    intro hx
    have hsize := htiles.size_lt t (by simp)
    by_cases hhead : Fetchable max c.bytesToTransfer ⟨d, L, t⟩
    · have hrest : ¬FetchAll max (counterAfter max c.bytesToTransfer t.contents.length)
          (ts.map (AnyTile.mk d L)) := fun h => hfetch ⟨hhead, h⟩
      obtain ⟨k, array₁, hk, hloop, hlen, -⟩ := rounds_of_tile hmax hL
        (htiles.covers t (by simp)) hsmall hsize htl hbase hts rfl
        (remaining_pos (t := ⟨d, L, t⟩) (contents_pos hL t)) hhead.1 hhead.2
      cases ts with
      | nil => exact hrest trivial
      | cons t' ts =>
        have hbase₁ : (baseArray M L (cntr + k) array₁).length = M.cells.card * L := by
          rw [baseArray, if_neg (by omega)]
          exact hlen
        have hts₁ : (resume c (counterAfter max c.bytesToTransfer t.contents.length) ⟨d, L, t'⟩
            (ts.map (AnyTile.mk d L))).transTiles = some ((t' :: ts).map (AnyTile.mk d L)) := rfl
        have hx' := getMDDCoreLoop_mono hx k
        rw [hloop n, List.map_cons, finish_cons, coreRest, if_pos (Or.inl rfl)] at hx'
        have htl₁ : (some L).getD L = L := rfl
        exact ih htiles.tail htl₁ hbase₁ hts₁ hrest hx'
    · cases n with
      | zero => cases hx
      | succ n =>
        obtain ⟨e, he⟩ : ∃ e, receiveTile max typeLength c = .error e :=
          receiveTile_error hts hsize rfl hhead
        rw [getMDDCoreLoop, he] at hx
        cases hx

/-! ## The size of the array -/

theorem length_copyIntoMDD {m t : AnyBox} {tile array' : Memory}
    (h : copyIntoMDD L m t tile array = .ok array') : array'.length = array.length := by
  rw [copyIntoMDD] at h
  split at h
  · refine ExceptFold.foldlM_inv (P := fun _ a => List.length a = array.length) h rfl
      fun done k rest a a' hl ha hrow => ?_
    rw [copyRow] at hrow
    split at hrow
    · next hfit =>
      cases hrow
      have hline : ∀ w j, (line L w tile j).length ≤ w * L := fun w j => List.length_take_le ..
      rw [length_overwrite (le_trans (Nat.add_le_add_left (hline _ _) _) hfit.1), ha]
    · cases hrow
  · cases h

theorem length_insertTile {m : AnyBox} {array' : Memory} {r : Received}
    (h : insertTile m L (cntr + 2) array r = .ok array') : array'.length = array.length := by
  rw [insertTile, if_neg (by omega)] at h
  simp only [if_neg (show ¬cntr + 2 = 1 by omega)] at h
  exact length_copyIntoMDD h

/-- After the first round the size of the array does not change. -/
theorem length_getMDDCoreLoop {n st : ℕ} {m : AnyBox} {c' : Context} {a : GMarray}
    (h : getMDDCoreLoop max m n (cntr + 1) typeLength array c = .ok (c', st, a)) :
    a.array.length = array.length := by
  induction n generalizing cntr typeLength array c with
  | zero => cases h
  | succ n ih =>
    rw [getMDDCoreLoop] at h
    obtain ⟨⟨c₁, r⟩, -, h⟩ := ExceptFold.bind_eq_ok h
    obtain ⟨array₁, hins, h⟩ := ExceptFold.bind_eq_ok h
    have hlen := length_insertTile hins
    split at h
    · exact (ih h).trans hlen
    · cases h
      exact hlen

/-- **An MDD of `2^32` bytes or more has no complete array.** -/
theorem small_of_length {t : Tile d L} {ts : List (Tile d L)} (hmax : 0 < max) (hL : 0 < L)
    (hsize : t.contents.length < 2 ^ 32)
    (hts : c.transTiles = some ((t :: ts).map (AnyTile.mk d L))) {n st : ℕ} {c' : Context} {a : GMarray}
    (h : getMDDCore max n ⟨d, M⟩ c = .ok (c', st, a)) (hlen : a.array.length = M.cells.card * L) :
    M.cells.card * L < 2 ^ 32 := by
  cases n with
  | zero => cases h
  | succ n =>
    by_cases hhead : Fetchable max c.bytesToTransfer ⟨d, L, t⟩
    · have htl : (none : Option ℕ).getD L = L := rfl
      have hrec := receiveTile_ok (t := ⟨d, L, t⟩) hmax hts hsize hL htl rfl hhead.1 hhead.2
      obtain ⟨-, -, hmem⟩ := roundResult_tile max c ⟨d, L, t⟩ (ts.map (AnyTile.mk d L))
        (remaining max c.bytesToTransfer (AnyTile.mk d L t).size)
      rw [getMDDCore, getMDDCoreLoop] at h
      obtain ⟨⟨c₁, r₁⟩, hrec₁, h⟩ := ExceptFold.bind_eq_ok h
      obtain ⟨array₁, hins, h⟩ := ExceptFold.bind_eq_ok h
      rw [show roundResult _ _ _ _ _ = (c₁, r₁) from Except.ok.inj (hrec.symm.trans hrec₁)] at hmem
      have harray : array₁.length < 2 ^ 32 := by
        rw [insertTile] at hins
        split at hins
        · cases hins
          have hlen₁ := congrArg List.length hmem
          rw [length_receivedMemory hhead.1] at hlen₁
          exact hlen₁.trans_lt hsize
        · rw [length_copyIntoMDD hins, if_pos rfl, List.length_replicate]
          exact Nat.mod_lt _ (by decide)
      have hfinal : a.array.length = array₁.length := by
        split at h
        · exact length_getMDDCoreLoop h
        · cases h
          rfl
      omega
    · obtain ⟨e, he⟩ : ∃ e, receiveTile max none c = .error e :=
        receiveTile_error hts hsize rfl hhead
      rw [getMDDCore, getMDDCoreLoop, he] at h
      cases h

end Tiles

/-! ## Intact MDDs -/

/-- The client has an MDD as the server does: the domain, the cells of the tiles in it, and zeros where
there is no tile. -/
structure Intact (m : QtMDD) (a : GMarray) : Prop where
  domain : a.domain = ⟨m.dim, m.loadDomain⟩
  typeLength : a.typeLength = m.tsize
  length : a.array.length = m.loadDomain.cells.card * m.tsize
  covered : ∀ t ∈ m.tiles, ∀ p ∈ m.loadDomain, p ∈ t.domain →
    cell m.tsize a.array (m.loadDomain.index p) = (t.cellAt p).map some
  uncovered : ∀ p ∈ m.loadDomain, (∀ t ∈ m.tiles, p ∉ t.domain) →
    cell m.tsize a.array (m.loadDomain.index p) = List.replicate m.tsize (some 0)

/-- A tile arrives complete. -/
def Arrives (max counter size : ℕ) : Prop :=
  remaining max counter size = size ∧ size ≤ 2 * max ∧ min size max < 2 ^ 31

/-- Tiles arrive complete one after the other. -/
def ArriveAll (max : ℕ) : ℕ → List AnyTile → Prop
  | _, [] => True
  | counter, t :: ts =>
    Arrives max counter t.size ∧ ArriveAll max (counterAfter max counter t.size) ts

section Complete

variable {max d L : ℕ} {t : Tile d L}

theorem cell_map (mem : List UInt8) (c : ℕ) :
    cell L (mem.map some) c = (cell L mem c).map some := by
  rw [cell, cell, List.map_take, List.map_drop]

theorem delivered_of_arrives (hL : 0 < L) {counter : ℕ}
    (h : Arrives max counter t.contents.length) :
    delivered max counter ⟨d, L, t⟩ = t.contents.map some := by
  have hpos := contents_pos hL t
  have hsize : (AnyTile.mk d L t).size = t.contents.length := rfl
  rw [delivered, hsize, h.1, lastPart_of_le hpos h.2.1, receivedMemory, hsize, piece, hsize,
    min_eq_left h.2.1]
  simp

/-- A tile whose last round did not bring all of it has a byte that nothing wrote. -/
theorem arrives_of_delivered (hmax : 0 < max) (hL : 0 < L) {counter : ℕ}
    (hf : Fetchable max counter ⟨d, L, t⟩)
    (h : ∀ p ∈ t.domain, cell L (delivered max counter ⟨d, L, t⟩) (t.domain.index p) =
      (t.cellAt p).map some) : Arrives max counter t.contents.length := by
  have hpos := contents_pos hL t
  have hsize : (AnyTile.mk d L t).size = t.contents.length := rfl
  obtain ⟨hle, hint⟩ := hf
  rw [hsize] at hle hint
  set r := remaining max counter t.contents.length with hr
  have hr0 : 0 < r := remaining_pos (c := { bytesToTransfer := counter }) (t := ⟨d, L, t⟩) hpos
  have hlast : lastPart max r ≤ r ∧ lastPart max r ≤ 2 * max := by
    have hmod := Nat.mod_lt (r - 1) (by omega : 0 < 2 * max)
    have hmod' := Nat.mod_le (r - 1) (2 * max)
    rw [lastPart]
    omega
  suffices hfull : lastPart max r = t.contents.length by
    refine ⟨by omega, by omega, ?_⟩
    rwa [show t.contents.length = r by omega]
  by_contra hne
  -- the last byte of the last cell
  have hcard := t.domain.card_cells_pos
  set p := t.domain.pointAt (t.domain.cells.card - 1) with hp
  have hlt : t.domain.cells.card - 1 < t.domain.cells.card := by omega
  have hcell := congrArg (fun l => l[L - 1]?) (h p (Box.pointAt_mem hlt))
  have hend : (t.domain.cells.card - 1) * L + (L - 1) = t.contents.length - 1 := by
    have : (t.domain.cells.card - 1 + 1) * L = t.contents.length := by
      rw [Nat.sub_add_cancel hcard, t.length_contents]
    rw [Nat.succ_mul] at this
    omega
  simp only [getElem?_cell, Box.index_pointAt hlt, hp, hend, if_pos (show L - 1 < L by omega),
    List.getElem?_map] at hcell
  have hnone : (delivered max counter ⟨d, L, t⟩)[t.contents.length - 1]? = some none := by
    rw [delivered, hsize, ← hr, receivedMemory, hsize, min_eq_left hlast.2, List.getElem?_append_right,
      List.getElem?_replicate, if_pos]
    · rw [List.length_map, length_piece (t := ⟨d, L, t⟩) (by omega) le_rfl]
      omega
    · rw [List.length_map, length_piece (t := ⟨d, L, t⟩) (by omega) le_rfl]
      omega
  rw [hnone] at hcell
  generalize (t.cellAt (t.domain.pointAt (t.domain.cells.card - 1)))[L - 1]? = x at hcell
  cases x <;> simp at hcell

theorem ArriveAll.fetchAll {counter : ℕ} {ts : List AnyTile} (h : ArriveAll max counter ts) :
    FetchAll max counter ts := by
  induction ts generalizing counter with
  | nil => trivial
  | cons t ts ih =>
    refine ⟨⟨h.1.1.le, ?_⟩, ih h.2⟩
    rw [h.1.1]
    exact h.1.2.2

theorem deliveries_of_arriveAll (hL : 0 < L) {counter : ℕ} {ts : List (Tile d L)}
    (h : ArriveAll max counter (ts.map (AnyTile.mk d L))) :
    deliveries max counter ts = ts.map fun t => (t, t.contents.map some) := by
  induction ts generalizing counter with
  | nil => rfl
  | cons t ts ih =>
    have htail : deliveries max (counterAfter max counter t.contents.length) ts = _ := ih h.2
    have hhead : delivered max counter ⟨d, L, t⟩ = _ := delivered_of_arrives hL h.1
    rw [deliveries, hhead, htail, List.map_cons]

theorem arriveAll_of_deliveries (hmax : 0 < max) (hL : 0 < L) {counter : ℕ} {ts : List (Tile d L)}
    (hf : FetchAll max counter (ts.map (AnyTile.mk d L)))
    (h : ∀ e ∈ deliveries max counter ts, ∀ p ∈ e.1.domain,
      cell L e.2 (e.1.domain.index p) = (e.1.cellAt p).map some) :
    ArriveAll max counter (ts.map (AnyTile.mk d L)) := by
  induction ts generalizing counter with
  | nil => trivial
  | cons t ts ih =>
    obtain ⟨hhead, htail⟩ := List.forall_mem_cons.mp h
    exact ⟨arrives_of_delivered hmax hL hf.1 hhead, ih hf.2 htail⟩

theorem deliveries_fst {counter : ℕ} {ts : List (Tile d L)} {e : Tile d L × Memory}
    (he : e ∈ deliveries max counter ts) : e.1 ∈ ts := by
  induction ts generalizing counter with
  | nil => exact absurd he (by simp [deliveries])
  | cons t ts ih =>
    rcases List.mem_cons.mp he with rfl | he
    · exact List.mem_cons_self
    · exact List.mem_cons_of_mem _ (ih he)

end Complete

/-! ## One MDD -/

section One

variable {max : ℕ} {m : QtMDD} {c : Context}

theorem tilesOf_transTiles (m : QtMDD) : TilesOf m.loadDomain m.transTiles :=
  ⟨fun _ ht => m.covers_transTile ht, m.transTiles_disjoint, fun _ ht => m.size_transTile_lt ht⟩

/-- An array with the tiles of the MDD is intact. -/
theorem Holds.intact {array : Memory}
    (h : Holds m.loadDomain array (m.transTiles.map fun t => (t, t.contents.map some))) :
    Intact m ⟨⟨m.dim, m.loadDomain⟩, m.tsize, array⟩ := by
  refine ⟨rfl, rfl, h.length, fun t ht p hl hp => ?_, fun p hl hp => ?_⟩
  · obtain ⟨t', ht', hp', hcell⟩ := m.exists_transTile ht hl hp
    refine (h.covered _ (List.mem_map_of_mem ht') p hl hp').trans ?_
    rw [cell_map, ← hcell]
    rfl
  · refine h.uncovered p hl fun e he hin => ?_
    obtain ⟨t, ht, rfl⟩ := List.mem_map.mp he
    obtain ⟨s, hs, hint, hdom, -⟩ := m.mem_transTiles ht
    exact hp s hs (Box.mem_inter.mp (hdom ▸ hin : p ∈ m.loadDomain.inter s.domain hint)).2

/-- **An MDD whose tiles arrive is intact.** -/
theorem getMDDCore_intact (hmax : 0 < max) (hts : c.transTiles = some m.queue)
    (hsmall : m.loadDomain.cells.card * m.tsize < 2 ^ 32)
    (h : ArriveAll max c.bytesToTransfer m.queue) :
    ∃ k a, (∀ n, getMDDCore max (n + k) ⟨m.dim, m.loadDomain⟩ c =
        .ok ((finish c (countersAfter max c.bytesToTransfer m.queue) []).1,
          (finish c (countersAfter max c.bytesToTransfer m.queue) []).2, a)) ∧ Intact m a := by
  have htiles := tilesOf_transTiles m
  have hne := m.transTiles_ne_nil
  rw [QtMDD.queue] at hts h ⊢
  have hdel := deliveries_of_arriveAll m.tsize_pos h
  generalize htt : m.transTiles = tiles at hts h hdel htiles hne ⊢
  cases tiles with
  | nil => exact absurd rfl hne
  | cons t ts =>
    have htl : (none : Option ℕ).getD m.tsize = m.tsize := rfl
    have hbase : Holds m.loadDomain (baseArray m.loadDomain m.tsize 0 []) [] := Holds.zeros
    obtain ⟨k, array, hloop, hheld⟩ := run_tiles hmax m.tsize_pos hsmall htiles
      (fun e he => absurd he (by simp)) htl hbase hts h.fetchAll
    rw [List.nil_append, hdel, ← htt] at hheld
    exact ⟨k, _, hloop, hheld.intact⟩

/-- **An MDD that is intact has arrived tile by tile.** -/
theorem arriveAll_of_intact (hmax : 0 < max) (hts : c.transTiles = some m.queue) {n st : ℕ}
    {c' : Context} {a : GMarray}
    (h : getMDDCore max n ⟨m.dim, m.loadDomain⟩ c = .ok (c', st, a)) (ha : Intact m a) :
    m.loadDomain.cells.card * m.tsize < 2 ^ 32 ∧ ArriveAll max c.bytesToTransfer m.queue := by
  have htiles := tilesOf_transTiles m
  have hne := m.transTiles_ne_nil
  rw [QtMDD.queue] at hts ⊢
  have hcov : ∀ t ∈ m.transTiles, ∀ p ∈ t.domain,
      cell m.tsize a.array (m.loadDomain.index p) = (t.cellAt p).map some := by
    intro t ht p hp
    obtain ⟨s, hs, hint, hdom, hcells⟩ := m.mem_transTiles ht
    obtain ⟨hl, hsp⟩ := Box.mem_inter.mp (hdom ▸ hp : p ∈ m.loadDomain.inter s.domain hint)
    rw [ha.covered s hs p hl hsp, hcells p hp]
  generalize htt : m.transTiles = tiles at hts htiles hne hcov ⊢
  cases tiles with
  | nil => exact absurd rfl hne
  | cons t ts =>
    have hsmall := small_of_length hmax m.tsize_pos (htiles.size_lt t (by simp)) hts h ha.length
    refine ⟨hsmall, ?_⟩
    have htl : (none : Option ℕ).getD m.tsize = m.tsize := rfl
    have hbase : Holds m.loadDomain (baseArray m.loadDomain m.tsize 0 []) [] := Holds.zeros
    have hfetch : FetchAll max c.bytesToTransfer ((t :: ts).map (AnyTile.mk m.dim m.tsize)) := by
      by_contra hno
      exact run_tiles_fail hmax m.tsize_pos hsmall htiles htl hbase.length hts hno h
    obtain ⟨k, array, hloop, hheld⟩ := run_tiles hmax m.tsize_pos hsmall htiles
      (fun e he => absurd he (by simp)) htl hbase hts hfetch
    have heq := (hloop n).symm.trans (getMDDCoreLoop_mono h k)
    obtain rfl : (⟨⟨m.dim, m.loadDomain⟩, m.tsize, array⟩ : GMarray) = a := by
      simp only [Except.ok.injEq, Prod.mk.injEq] at heq
      exact heq.2.2
    refine arriveAll_of_deliveries hmax m.tsize_pos hfetch fun e he p hp => ?_
    have hmem := deliveries_fst he
    have hl := Box.covers_iff.mp (htiles.covers _ hmem) p hp
    rw [← hheld.covered e he p hl hp]
    exact hcov e.1 hmem p hp

end One

/-! ## The collection -/

/-- All tiles of a list of MDDs, in the order of their transfer. -/
def allTiles (mdds : List QtMDD) : List AnyTile := mdds.flatMap QtMDD.queue

/-- The context with the tiles of an MDD. -/
def withTiles (c : Context) (m : QtMDD) : Context := { c with transTiles := some m.queue }

section Collection

variable {max : ℕ} {mdds : List QtMDD} {c : Context}

theorem arriveAll_append {counter : ℕ} {ts ts' : List AnyTile} :
    ArriveAll max counter (ts ++ ts') ↔
      ArriveAll max counter ts ∧ ArriveAll max (countersAfter max counter ts) ts' := by
  induction ts generalizing counter with
  | nil => exact (and_iff_right trivial).symm
  | cons t ts ih =>
    rw [List.cons_append, ArriveAll, ArriveAll, ih, countersAfter, and_assoc]

theorem queue_ne_nil (m : QtMDD) : m.queue ≠ [] := fun h =>
  m.transTiles_ne_nil (List.map_eq_nil_iff.mp h)

/-- The first request for an MDD of the list. -/
theorem getNextMDD_cons {m : QtMDD} (hc : c.transferData = some (m :: mdds)) :
    c.getNextMDD = (withTiles c m, 0, some ⟨m.dim, m.loadDomain⟩) := by
  rw [Context.getNextMDD, hc]
  simp only [gt_iff_lt, List.length_pos_iff.mpr (queue_ne_nil m), if_true]
  rw [withTiles, hc]

theorem finish_mdd {m : QtMDD} (hc : c.transferData = some (m :: mdds)) (counter : ℕ) :
    finish (withTiles c m) counter [] = (⟨some mdds, none, counter⟩, if mdds = [] then 0 else 1) := by
  by_cases hnil : mdds = [] <;> simp [finish, Context.moveOn, withTiles, hc, hnil]

theorem getMDDCollectionLoop_cons {m : QtMDD} (hc : c.transferData = some (m :: mdds)) {fuel n : ℕ}
    {coll : List GMarray} :
    getMDDCollectionLoop max fuel (n + 1) coll c =
      (getMDDCore max fuel ⟨m.dim, m.loadDomain⟩ (withTiles c m) >>= fun r =>
        if r.2.1 = 0 then .ok (r.1.endTransfer, coll ++ [r.2.2])
        else getMDDCollectionLoop max fuel n (coll ++ [r.2.2]) r.1) := by
  rw [getMDDCollectionLoop, getNextMDD_cons hc]
  rfl

/-- **The MDDs of a list arrive one after the other.** -/
theorem collection_intact (hmax : 0 < max) (hne : mdds ≠ []) (hc : c.transferData = some mdds)
    (hsmall : ∀ m ∈ mdds, m.loadDomain.cells.card * m.tsize < 2 ^ 32)
    (h : ArriveAll max c.bytesToTransfer (allTiles mdds)) :
    ∃ k, ∀ fuel ≥ k, ∀ n ≥ mdds.length, ∀ coll, ∃ c' arrays,
      getMDDCollectionLoop max fuel n coll c = .ok (c', coll ++ arrays) ∧
        List.Forall₂ Intact mdds arrays := by
  induction mdds generalizing c with
  | nil => exact absurd rfl hne
  | cons m mdds ih =>
    obtain ⟨hm, hsmall⟩ := List.forall_mem_cons.mp hsmall
    rw [allTiles, List.flatMap_cons, arriveAll_append] at h
    have hts : (withTiles c m).transTiles = some m.queue := rfl
    obtain ⟨k, a, hcore, ha⟩ := getMDDCore_intact hmax hts hm h.1
    simp only [finish_mdd hc] at hcore
    have hstep : ∀ fuel ≥ k, ∀ n coll, getMDDCollectionLoop max fuel (n + 1) coll c =
        if mdds = [] then .ok (Context.endTransfer ⟨some mdds, none,
          countersAfter max c.bytesToTransfer m.queue⟩, coll ++ [a])
        else getMDDCollectionLoop max fuel n (coll ++ [a])
          ⟨some mdds, none, countersAfter max c.bytesToTransfer m.queue⟩ := by
      intro fuel hfuel n coll
      have hcore' := hcore (fuel - k)
      rw [Nat.sub_add_cancel hfuel] at hcore'
      rw [getMDDCollectionLoop_cons hc, hcore']
      by_cases hnil : mdds = []
      · simp only [hnil, if_true, bind, Except.bind]
        rfl
      · simp only [hnil, if_false, bind, Except.bind, one_ne_zero]
        rfl
    by_cases hnil : mdds = []
    · refine ⟨k, fun fuel hfuel n hn coll => ?_⟩
      obtain ⟨n, rfl⟩ := Nat.exists_eq_succ_of_ne_zero (by simp at hn; omega : n ≠ 0)
      refine ⟨_, [a], (hstep fuel hfuel n coll).trans (if_pos hnil), ?_⟩
      rw [hnil]
      exact .cons ha .nil
    · have hc' : (⟨some mdds, none, countersAfter max c.bytesToTransfer m.queue⟩ :
          Context).transferData = some mdds := rfl
      obtain ⟨k', hrest⟩ := ih hnil hc' hsmall h.2
      refine ⟨k + k', fun fuel hfuel n hn coll => ?_⟩
      obtain ⟨n, rfl⟩ := Nat.exists_eq_succ_of_ne_zero (by simp at hn; omega : n ≠ 0)
      obtain ⟨c', arrays, hloop, hall⟩ := hrest fuel (by omega) n (by simpa using hn) (coll ++ [a])
      refine ⟨c', a :: arrays, ?_, .cons ha hall⟩
      rw [Nat.succ_eq_add_one, hstep fuel (by omega) n coll, if_neg hnil, hloop, List.append_assoc,
        List.singleton_append]

/-- MDDs are only added at the end. -/
theorem prefix_of_collection {fuel n : ℕ} {coll res : List GMarray} {c' : Context}
    (h : getMDDCollectionLoop max fuel n coll c = .ok (c', res)) : coll <+: res := by
  induction n generalizing coll c with
  | zero => cases h
  | succ n ih =>
    rw [getMDDCollectionLoop] at h
    split at h
    · cases h
    · split at h
      · cases h
      · obtain ⟨⟨c₁, st, a⟩, -, h⟩ := ExceptFold.bind_eq_ok h
        simp only at h
        split at h
        · cases h
          exact List.prefix_append ..
        · exact (List.prefix_append ..).trans (ih h)

/-- **MDDs that are intact have arrived one after the other.** -/
theorem arriveAll_of_collection (hmax : 0 < max) (hc : c.transferData = some mdds) {fuel n : ℕ}
    {coll arrays : List GMarray} {c' : Context}
    (h : getMDDCollectionLoop max fuel n coll c = .ok (c', coll ++ arrays))
    (hall : List.Forall₂ Intact mdds arrays) :
    (∀ m ∈ mdds, m.loadDomain.cells.card * m.tsize < 2 ^ 32) ∧
      ArriveAll max c.bytesToTransfer (allTiles mdds) := by
  induction mdds generalizing c n coll arrays with
  | nil => exact ⟨fun m hm => absurd hm (by simp), trivial⟩
  | cons m mdds ih =>
    cases hall with
    | @cons _ a _ arrays ha hall =>
      cases n with
      | zero => cases h
      | succ n =>
        rw [getMDDCollectionLoop_cons hc] at h
        obtain ⟨⟨c₁, st, a'⟩, hcore, h⟩ := ExceptFold.bind_eq_ok h
        simp only at h
        have hts : (withTiles c m).transTiles = some m.queue := rfl
        -- the first MDD of the result is the one just fetched
        have haa : a' = a := by
          have hpre : coll ++ [a'] <+: coll ++ a :: arrays := by
            split at h
            · have hres := congrArg Prod.snd (Except.ok.inj h)
              simp only at hres
              rw [hres]
            · exact prefix_of_collection h
          have := (List.prefix_append_right_inj coll).mp hpre
          exact (List.cons_prefix_cons.mp this).1
        subst haa
        obtain ⟨hsmall, harr⟩ := arriveAll_of_intact hmax hts hcore ha
        obtain ⟨k, b, hgood, -⟩ := getMDDCore_intact hmax hts hsmall harr
        have heq := (hgood fuel).symm.trans (getMDDCoreLoop_mono hcore k)
        simp only [finish_mdd hc, Except.ok.injEq, Prod.mk.injEq] at heq
        obtain ⟨rfl, rfl, -⟩ := heq
        rw [allTiles, List.flatMap_cons, arriveAll_append]
        by_cases hnil : mdds = []
        · subst hnil
          exact ⟨by simpa using hsmall, harr, trivial⟩
        · rw [if_neg (by rw [if_neg hnil]; decide)] at h
          have hc' : (⟨some mdds, none, countersAfter max c.bytesToTransfer m.queue⟩ :
              Context).transferData = some mdds := rfl
          rw [List.append_cons coll a' arrays] at h
          obtain ⟨hrest, harr'⟩ := ih hc' h hall
          exact ⟨List.forall_mem_cons.mpr ⟨hsmall, hrest⟩, harr, harr'⟩

end Collection

/-- MDDs that can be transferred: none has `2^32` bytes or more, no tile is larger than two blocks or
sent in a block of `2^31` bytes or more, and a counter that an earlier transfer left behind fits the
first tile that is larger than the buffer. -/
def Deliverable (max counter : ℕ) (mdds : List QtMDD) : Prop :=
  (∀ m ∈ mdds, m.loadDomain.cells.card * m.tsize < 2 ^ 32) ∧
    (∀ t ∈ allTiles mdds, t.size ≤ 2 * max ∧ min t.size max < 2 ^ 31) ∧
      (counter = 0 ∨ ∀ t, (allTiles mdds).find? (max < ·.size) = some t → t.size = counter)

theorem arriveAll_iff {max counter : ℕ} {ts : List AnyTile} :
    ArriveAll max counter ts ↔ (∀ t ∈ ts, t.size ≤ 2 * max ∧ min t.size max < 2 ^ 31) ∧
      (counter = 0 ∨ ∀ t, ts.find? (max < ·.size) = some t → t.size = counter) := by
  induction ts generalizing counter with
  | nil => simp [ArriveAll]
  | cons t ts ih =>
    rw [ArriveAll, ih, List.forall_mem_cons, Arrives]
    by_cases hbig : max < t.size
    · have hrem : remaining max counter t.size = t.size ↔ counter = 0 ∨ t.size = counter := by
        rw [remaining, if_pos hbig]
        split <;> omega
      have hafter : counterAfter max counter t.size = 0 := if_pos hbig
      rw [hrem, hafter, List.find?_cons_of_pos (by simpa using hbig)]
      simp only [Option.some.injEq, forall_eq']
      tauto
    · have hrem : remaining max counter t.size = t.size := if_neg hbig
      have hafter : counterAfter max counter t.size = counter := if_neg hbig
      rw [hrem, hafter, List.find?_cons_of_neg (by simpa using hbig)]
      tauto

/-- The domain `[0:n]`. -/
def lineBox (n : ℕ) : Box 1 where
  low := fun _ => 0
  high := fun _ => n
  low_le_high := fun _ => Int.natCast_nonneg n

theorem card_lineBox (n : ℕ) : (lineBox n).cells.card = n + 1 := by
  rw [Box.card_cells]
  simp [lineBox]

/-- An MDD of bytes with one tile. -/
def lineMDD (b : UInt8) (bs : List UInt8) (h : bs.length + 1 < 2 ^ 32) : QtMDD where
  dim := 0
  tsize := 1
  currentDomain := lineBox bs.length
  loadDomain := lineBox bs.length
  tiles := [⟨lineBox bs.length, b :: bs, by rw [card_lineBox]; simp⟩]
  tsize_pos := Nat.one_pos
  covers_load := Box.Covers.refl _
  covers_tile := fun t ht => by rw [List.mem_singleton.mp ht]; exact Box.Covers.refl _
  disjoint := List.pairwise_singleton ..
  exists_tile := ⟨_, List.mem_singleton_self _, .of_mem (Box.low_mem _) (Box.low_mem _)⟩
  size_lt := fun t ht => by rw [List.mem_singleton.mp ht]; exact h

end Transfer

end Rasdaman
