import Rasdaman.Machinery.Odometer
import Rasdaman.Raslib.Grid
import Rasdaman.Raslib.Range

/-!
# Rasodmg/TileGrid — the loop that moves a tile over an object

Aligned tiling, size tiling and the splitting of a tile put a tile domain at the origin of an object
and move it on by its extents, the last dimension fastest, until it leaves the object.  Coordinates are
what `r` makes of them: `toRange`, or `id` in integers without bounds.

`gridTiles_iff` — with `toRange` the loop partitions the object exactly if the tile domain can still be
moved past the end of the object.
-/

namespace Rasdaman

namespace TileGrid

open Odometer

variable {d : ℕ} {β : Type}

/-- `create_translation`. -/
def translate (r : ℤ → ℤ) (b : Box d) (t : Point d) : Except RError (Box d) :=
  Box.ofBounds (fun i => r (b.low i + t i)) fun i => r (b.high i + t i)

/-- The cursor after it was moved: the last of the first `c` dimensions is moved on, and set back when
the tile leaves the object there. -/
def nextCursor (r : ℤ → ℤ) (tileDom bigDom : Box d) (tileSize cursor : Point d) :
    (c : ℕ) → c ≤ d → Except RError (Option (Point d))
  | 0, _ => .ok none
  | c + 1, h => do
    let moved := Function.update cursor ⟨c, h⟩ (r (cursor ⟨c, h⟩ + tileSize ⟨c, h⟩))
    let currDom ← translate r tileDom moved
    if currDom.Intersects bigDom then return some moved
    else
      nextCursor r tileDom bigDom tileSize (Function.update cursor ⟨c, h⟩ 0) c (Nat.le_of_succ_le h)

/-- The next round of the loop, which may begin with an exception. -/
def nextRound (next : Point d → Except RError (Option (Point d))) :
    Except RError (Point d) → Option (Except RError (Point d))
  | .error _ => none
  | .ok cursor => match next cursor with
    | .error e => some (.error e)
    | .ok o => o.map .ok

/-- The part of the object at a cursor. -/
def currDom (r : ℤ → ℤ) (tileDom bigDom : Box d) (cursor : Point d) : Except RError (Box d) := do
  let currDom ← translate r tileDom cursor
  currDom.createIntersection bigDom

/-- The loop, with what is done with each part of the object.  Each round takes a cell of its own, so
that the loop has to end after as many rounds as the object has cells. -/
def gridTiles (r : ℤ → ℤ) (bigDom : Box d) (extent : Fin d → ℕ) (body : Box d → Except Halt β) :
    Except Halt (List β) := do
  let tileSize : Point d := fun i => r (extent i)
  let tileDom ← (Box.ofBounds bigDom.low fun i => r (bigDom.low i + tileSize i - 1)).mapError .throws
  sweep .endless (nextRound fun cursor => nextCursor r tileDom bigDom tileSize cursor d le_rfl)
    (fun cursor => do
      let smallDom ← (cursor >>= currDom r tileDom bigDom).mapError .throws
      let here ← body smallDom
      return [here])
    bigDom.extents.prod (some (.ok fun _ => 0))

/-! ## The cursors

In a dimension the cursor goes through the multiples of the extent of the tile, up to a bound. -/

variable {E : Fin d → ℕ} {B : Point d} {b : Box d}

/-- A dimension of the cursor as a wheel. -/
def wheel (E : Fin d → ℕ) (B : Point d) (i : Fin d) : Wheel ℤ where
  first := 0
  next := fun x => if x + E i ≤ B i then some (x + E i) else none

/-- The cursors up to a bound. -/
def cursors (E : Fin d → ℕ) (B : Point d) : List (Point d) :=
  combos fun i => (upTo 0 (B i / E i)).map ((E i : ℤ) * ·)

/-- The cursors are the multiples of the extents of the tile. -/
theorem mem_cursors {x : Point d} : x ∈ cursors E B ↔
    ∃ k : Point d, (∀ i, 0 ≤ k i ∧ k i ≤ B i / E i) ∧ x = fun i => E i * k i := by
  rw [cursors, mem_combos]
  constructor
  · intro h
    have hk : ∀ i, ∃ k, (0 ≤ k ∧ k ≤ B i / E i) ∧ E i * k = x i := fun i => by simpa using h i
    choose k hk hx using hk
    exact ⟨k, hk, funext fun i => (hx i).symm⟩
  · rintro ⟨k, hk, rfl⟩ i
    exact List.mem_map.mpr ⟨k i, mem_upTo.mpr (hk i), rfl⟩

theorem nodup_cursors (hE : ∀ i, 0 < E i) (B : Point d) : (cursors E B).Nodup := by
  refine nodup_combos fun i => (nodup_upTo _ _).map fun a b h => ?_
  exact Int.eq_of_mul_eq_mul_left (Int.natCast_pos.mpr (hE i)).ne' h

theorem cursor_bounds (hE : ∀ i, 0 < E i) {x : Point d} (hx : x ∈ cursors E B) (i : Fin d) :
    0 ≤ x i ∧ x i ≤ B i := by
  obtain ⟨k, hk, rfl⟩ := mem_cursors.mp hx
  have hpos : (0 : ℤ) < E i := Int.natCast_pos.mpr (hE i)
  have hle := (Int.le_ediv_iff_mul_le hpos).mp (hk i).2
  rw [Int.mul_comm] at hle
  exact ⟨Int.mul_nonneg hpos.le (hk i).1, hle⟩

/-- Turning the wheels goes through all the cursors. -/
theorem visits_cursors (hE : ∀ i, 0 < E i) (hB : ∀ i, 0 ≤ B i) :
    Visits (turn (wheel E B)) (some fun _ => 0) (cursors E B) none := by
  refine visits_turn (w := wheel E B) fun i => ?_
  have hsteps := visits_steps (k := 0) (Int.natCast_pos.mpr (hE i)) (by simpa using hB i)
  rwa [mul_zero] at hsteps

/-- Behind the last multiple up to a bound is the next one. -/
theorem last_multiple {e : ℕ} {k m : ℤ} (he : 0 < e) (hle : e * k ≤ m) (hout : ¬e * k + e ≤ m) :
    e * k + e = e * (m / e + 1) := by
  have hpos : (0 : ℤ) < e := Int.natCast_pos.mpr he
  have hk : k ≤ m / e := (Int.le_ediv_iff_mul_le hpos).mpr (by rwa [Int.mul_comm])
  have hlast : ¬k + 1 ≤ m / e := by
    rwa [Int.le_ediv_iff_mul_le hpos, Int.add_mul, Int.mul_comm, Int.one_mul]
  rw [show m / e = k by omega, Int.mul_add, Int.mul_one]

/-- The last cursor of a dimension is the last multiple of the extent below the bound. -/
theorem cursor_last (hE : ∀ i, 0 < E i) {x : Point d} (hx : x ∈ cursors E B) {i : Fin d}
    (hout : ¬x i + E i ≤ B i) : x i + E i = E i * (B i / E i + 1) := by
  have hbounds := cursor_bounds hE hx i
  obtain ⟨k, hk, rfl⟩ := mem_cursors.mp hx
  exact last_multiple (hE i) hbounds.2 hout

/-- The last offset of a cell of the object. -/
def span (b : Box d) : Point d := fun i => b.high i - b.low i

theorem span_nonneg (b : Box d) (i : Fin d) : 0 ≤ span b i := Int.sub_nonneg_of_le (b.low_le_high i)

theorem length_cursors_le (hE : ∀ i, 0 < E i) (b : Box d) :
    (cursors E (span b)).length ≤ b.extents.prod := by
  rw [cursors, length_combos, Box.extents, List.prod_ofFn, List.prod_ofFn]
  refine Finset.prod_le_prod' fun i _ => ?_
  have hpos : (0 : ℤ) < E i := Int.natCast_pos.mpr (hE i)
  have hle : span b i / E i ≤ span b i := Int.ediv_le_self _ (span_nonneg b i)
  have hext := b.extent_cast i
  rw [List.length_map, length_upTo]
  simp only [span] at hle ⊢
  omega

/-! ## The tile at a cursor -/

/-- The tile domain at the origin of the object. -/
def tileDomAt (bigDom : Box d) (extent : Fin d → ℕ) (h : ∀ i, 0 < extent i) : Box d where
  low := bigDom.low
  high := fun i => bigDom.low i + extent i - 1
  low_le_high := fun i => by have := h i; omega

theorem extent_tileDomAt (b : Box d) (hE : ∀ i, 0 < E i) (i : Fin d) :
    ((tileDomAt b E hE).extent i : ℤ) = E i := by
  rw [Box.extent_cast]
  simp only [tileDomAt]
  omega

theorem gridIndex_tileDomAt (b : Box d) (hE : ∀ i, 0 < E i) (p : Point d) (i : Fin d) :
    (tileDomAt b E hE).gridIndex p i = (p i - b.low i) / E i := by
  rw [Box.gridIndex, extent_tileDomAt, tileDomAt]

/-- The tile at a multiple of its extents is a cell of the grid. -/
theorem createTranslation_mul (b : Box d) (hE : ∀ i, 0 < E i) (k : Point d) :
    (tileDomAt b E hE).createTranslation (fun i => E i * k i) = (tileDomAt b E hE).gridCell k := by
  simp only [Box.gridCell, extent_tileDomAt]

/-- A tile meets the object as long as its cursor is inside. -/
theorem cursor_intersects (hE : ∀ i, 0 < E i) {x : Point d} (hx : x ∈ cursors E (span b)) :
    ((tileDomAt b E hE).createTranslation x).Intersects b := by
  intro i
  have hbounds := cursor_bounds hE hx i
  have := hE i
  simp only [tileDomAt, Box.createTranslation, span] at hbounds ⊢
  omega

/-- The part of the object that lies in the tile at a cursor. -/
def pieceAt (tileDom bigDom : Box d) (cursor : Point d) : Box d :=
  if h : (tileDom.createTranslation cursor).Intersects bigDom then
    (tileDom.createTranslation cursor).inter bigDom h
  else tileDom

theorem mem_pieceAt (hE : ∀ i, 0 < E i) {x p : Point d} (hx : x ∈ cursors E (span b)) :
    p ∈ pieceAt (tileDomAt b E hE) b x ↔ p ∈ (tileDomAt b E hE).createTranslation x ∧ p ∈ b := by
  rw [pieceAt, dif_pos (cursor_intersects hE hx), Box.mem_inter]

/-- The cells of a piece are those with the same numbers in the grid. -/
theorem mem_pieceAt_iff (hE : ∀ i, 0 < E i) {x p q : Point d} (hx : x ∈ cursors E (span b))
    (hp : p ∈ pieceAt (tileDomAt b E hE) b x) : q ∈ pieceAt (tileDomAt b E hE) b x ↔
      q ∈ b ∧ ∀ i, (q i - b.low i) / E i = (p i - b.low i) / E i := by
  obtain ⟨k, -, hk⟩ := mem_cursors.mp hx
  have hnum := ((mem_pieceAt hE hx).mp hp).1
  rw [hk, createTranslation_mul, Box.mem_gridCell] at hnum
  rw [mem_pieceAt hE hx, hk, createTranslation_mul, Box.mem_gridCell, ← hnum, and_comm, funext_iff]
  simp only [gridIndex_tileDomAt]

/-- **The pieces at the cursors tile the object.** -/
theorem tiles_pieceAt (hE : ∀ i, 0 < E i) (b : Box d) :
    Tiles b.region ((cursors E (span b)).map (pieceAt (tileDomAt b E hE) b)) := by
  refine .of_cells ?_ (fun x hx p => mem_pieceAt hE hx) fun p hp => ?_
  · refine (nodup_cursors hE (span b)).imp_of_mem fun hx hy hne hxy => ?_
    obtain ⟨k, -, rfl⟩ := mem_cursors.mp hx
    obtain ⟨k', -, rfl⟩ := mem_cursors.mp hy
    rw [createTranslation_mul, createTranslation_mul] at hxy
    exact hne (by rw [Box.eq_of_gridCell_intersects hxy])
  · refine ⟨_, mem_cursors.mpr ⟨(tileDomAt b E hE).gridIndex p, fun i => ?_, rfl⟩, ?_⟩
    · have hpos : (0 : ℤ) < E i := Int.natCast_pos.mpr (hE i)
      have := hp i
      rw [gridIndex_tileDomAt]
      refine ⟨Int.ediv_nonneg (by omega) hpos.le, Int.ediv_le_ediv hpos ?_⟩
      simp only [span]
      omega
    · rw [createTranslation_mul]
      exact Box.mem_gridCell.mpr rfl

/-! ## A round of the loop -/

/-- What `r` makes of a sum does not depend on what it made of a summand. -/
structure Word (r : ℤ → ℤ) : Prop where
  zero : r 0 = 0
  add : ∀ a b, r (a + r b) = r (a + b)

theorem word_id : Word id := ⟨rfl, fun _ _ => rfl⟩

theorem word_toRange : Word toRange := ⟨by decide, toRange_add_toRange⟩

variable {r : ℤ → ℤ} {x : Point d} {i : Fin d}

/-- The tile begins in the object at an offset of a dimension, and its bounds are what they should be. -/
structure Fits (r : ℤ → ℤ) (b : Box d) (E : Fin d → ℕ) (i : Fin d) (x : ℤ) : Prop where
  nonneg : 0 ≤ x
  le : x ≤ span b i
  low : r (b.low i + x) = b.low i + x
  high : r (b.low i + x + E i - 1) = b.low i + x + E i - 1

/-- The tile is outside of the object at an offset of a dimension. -/
structure Leaves (r : ℤ → ℤ) (b : Box d) (E : Fin d → ℕ) (i : Fin d) (x : ℤ) : Prop where
  le : r (b.low i + x) ≤ r (b.low i + x + E i - 1)
  out : ¬(r (b.low i + x) ≤ b.high i ∧ b.low i ≤ r (b.low i + x + E i - 1))

/-- The cursor with the first `c` dimensions at some offsets. -/
def cursorAt (r : ℤ → ℤ) (x : Point d) (c : ℕ) : Point d := fun i => if (i : ℕ) < c then r (x i) else 0

/-- The offsets with dimension `c` moved on, those behind it set back. -/
def movedAt (E : Fin d → ℕ) (x : Point d) (c : ℕ) : Point d :=
  fun i => if (i : ℕ) < c then x i else if (i : ℕ) = c then x i + E i else 0

theorem update_cursorAt (hr : Word r) (x : Point d) {c : ℕ} (hc : c + 1 ≤ d) :
    Function.update (cursorAt r x (c + 1)) ⟨c, hc⟩ (r (cursorAt r x (c + 1) ⟨c, hc⟩ + r (E ⟨c, hc⟩))) =
      fun i => r (movedAt E x c i) := by
  funext i
  rcases lt_trichotomy (i : ℕ) c with hlt | heq | hgt
  · rw [Function.update_of_ne (fun h => by simp [h] at hlt), cursorAt, movedAt, if_pos (by omega),
      if_pos hlt]
  · obtain rfl : i = ⟨c, hc⟩ := Fin.ext heq
    rw [Function.update_self, hr.add, cursorAt, if_pos (Nat.lt_succ_self c), movedAt,
      if_neg (lt_irrefl c), if_pos rfl, add_comm, hr.add, add_comm]
  · rw [Function.update_of_ne (fun h => by simp [h] at hgt), cursorAt, movedAt, if_neg (by omega),
      if_neg (by omega), if_neg (by omega), hr.zero]

theorem update_cursorAt_zero (r : ℤ → ℤ) (x : Point d) {c : ℕ} (hc : c + 1 ≤ d) :
    Function.update (cursorAt r x (c + 1)) ⟨c, hc⟩ 0 = cursorAt r x c := by
  funext i
  rcases eq_or_ne i ⟨c, hc⟩ with rfl | hi
  · rw [Function.update_self, cursorAt, if_neg (lt_irrefl c)]
  · have hne : (i : ℕ) ≠ c := fun h => hi (Fin.ext h)
    rw [Function.update_of_ne hi]
    exact if_congr (by omega) rfl rfl

/-- The translation by a cursor. -/
theorem translate_eq (hr : Word r) (hE : ∀ i, 0 < E i) (x : Point d) :
    translate r (tileDomAt b E hE) (fun i => r (x i)) =
      Box.ofBounds (fun i => r (b.low i + x i)) fun i => r (b.low i + x i + E i - 1) := by
  have hhigh : ∀ i, (tileDomAt b E hE).high i + x i = b.low i + x i + E i - 1 := fun i => by
    simp only [tileDomAt]
    omega
  simp only [translate, hr.add, hhigh]
  rfl

/-- Where the offsets fit the translation is what it should be. -/
theorem translate_of_fits (hr : Word r) (hE : ∀ i, 0 < E i) (hx : ∀ i, Fits r b E i (x i)) :
    translate r (tileDomAt b E hE) (fun i => r (x i)) =
      .ok ((tileDomAt b E hE).createTranslation x) := by
  have hhigh : (fun i => r (b.low i + x i + E i - 1)) =
      ((tileDomAt b E hE).createTranslation x).high := by
    funext i
    rw [(hx i).high]
    simp only [Box.createTranslation, tileDomAt]
    omega
  have hlow : (fun i => r (b.low i + x i)) = ((tileDomAt b E hE).createTranslation x).low :=
    funext fun i => (hx i).low
  rw [translate_eq hr, hhigh, hlow, Box.ofBounds_eq]

/-- A dimension in which the tile still fits is moved on. -/
theorem nextCursor_of_fits (hr : Word r) (hE : ∀ i, 0 < E i) (h0 : ∀ i, Fits r b E i 0)
    (hx : ∀ i, Fits r b E i (x i)) {c : ℕ} (hc : c + 1 ≤ d)
    (hfit : Fits r b E ⟨c, hc⟩ (x ⟨c, hc⟩ + E ⟨c, hc⟩)) :
    nextCursor r (tileDomAt b E hE) b (fun i => r (E i)) (cursorAt r x (c + 1)) (c + 1) hc =
      .ok (some fun i => r (movedAt E x c i)) := by
  have hmoved : ∀ i, Fits r b E i (movedAt E x c i) := fun i => by
    rcases lt_trichotomy (i : ℕ) c with hlt | heq | hgt
    · rw [movedAt, if_pos hlt]
      exact hx i
    · obtain rfl : i = ⟨c, hc⟩ := Fin.ext heq
      rw [movedAt, if_neg (lt_irrefl c), if_pos rfl]
      exact hfit
    · rw [movedAt, if_neg (by omega), if_neg (by omega)]
      exact h0 i
  have hmeet : ((tileDomAt b E hE).createTranslation (movedAt E x c)).Intersects b := fun i => by
    have hpos := hE i
    have hle := (hmoved i).le
    have hnonneg := (hmoved i).nonneg
    simp only [Box.createTranslation, tileDomAt, span] at hle ⊢
    omega
  rw [nextCursor]
  simp only [update_cursorAt hr, translate_of_fits hr hE hmoved, bind, Except.bind, if_pos hmeet]
  rfl

/-- The translation with a dimension moved on. -/
theorem translate_moved (hr : Word r) (hE : ∀ i, 0 < E i) (h0 : ∀ i, Fits r b E i 0)
    (hx : ∀ i, Fits r b E i (x i)) {c : ℕ} (hc : c + 1 ≤ d)
    (hle : r (b.low ⟨c, hc⟩ + (x ⟨c, hc⟩ + E ⟨c, hc⟩)) ≤
      r (b.low ⟨c, hc⟩ + (x ⟨c, hc⟩ + E ⟨c, hc⟩) + E ⟨c, hc⟩ - 1)) :
    ∃ z, translate r (tileDomAt b E hE) (fun i => r (movedAt E x c i)) = .ok z ∧
      z.low ⟨c, hc⟩ = r (b.low ⟨c, hc⟩ + (x ⟨c, hc⟩ + E ⟨c, hc⟩)) ∧
      z.high ⟨c, hc⟩ = r (b.low ⟨c, hc⟩ + (x ⟨c, hc⟩ + E ⟨c, hc⟩) + E ⟨c, hc⟩ - 1) ∧
      ∀ i : Fin d, (i : ℕ) ≠ c → z.low i = b.low i + movedAt E x c i ∧
        z.high i = b.low i + movedAt E x c i + E i - 1 := by
  have hother : ∀ i : Fin d, (i : ℕ) ≠ c → Fits r b E i (movedAt E x c i) := fun i hi => by
    by_cases hlt : (i : ℕ) < c
    · rw [movedAt, if_pos hlt]
      exact hx i
    · rw [movedAt, if_neg hlt, if_neg hi]
      exact h0 i
  have hat : movedAt E x c ⟨c, hc⟩ = x ⟨c, hc⟩ + E ⟨c, hc⟩ := by
    rw [movedAt, if_neg (lt_irrefl c), if_pos rfl]
  have hall : ∀ i, r (b.low i + movedAt E x c i) ≤ r (b.low i + movedAt E x c i + E i - 1) := fun i => by
    rcases eq_or_ne i ⟨c, hc⟩ with rfl | hi
    · rwa [hat]
    · have hfit := hother i fun h => hi (Fin.ext h)
      have hpos := hE i
      rw [hfit.low, hfit.high]
      omega
  refine ⟨⟨_, _, hall⟩, by rw [translate_eq hr, Box.ofBounds, dif_pos hall], ?_, ?_, fun i hi => ?_⟩
  · simp only [hat]
  · simp only [hat]
  · have hfit := hother i hi
    exact ⟨hfit.low, hfit.high⟩

/-- A dimension in which the tile leaves the object is set back. -/
theorem nextCursor_of_leaves (hr : Word r) (hE : ∀ i, 0 < E i) (h0 : ∀ i, Fits r b E i 0)
    (hx : ∀ i, Fits r b E i (x i)) {c : ℕ} (hc : c + 1 ≤ d)
    (hleave : Leaves r b E ⟨c, hc⟩ (x ⟨c, hc⟩ + E ⟨c, hc⟩)) :
    nextCursor r (tileDomAt b E hE) b (fun i => r (E i)) (cursorAt r x (c + 1)) (c + 1) hc =
      nextCursor r (tileDomAt b E hE) b (fun i => r (E i)) (cursorAt r x c) c
        (Nat.le_of_succ_le hc) := by
  obtain ⟨z, hz, hlow, hhigh, -⟩ := translate_moved hr hE h0 hx hc hleave.le
  have hout : ¬z.Intersects b := fun h => hleave.out (by
    rw [← hlow, ← hhigh]
    exact (h ⟨c, hc⟩).imp_right id)
  rw [nextCursor]
  simp only [update_cursorAt hr, update_cursorAt_zero, hz, bind, Except.bind, if_neg hout]

/-! ## A loop that ends at the object -/

/-- The tile fits at its cursors, and leaves the object behind the last one of each dimension. -/
structure Steps (r : ℤ → ℤ) (b : Box d) (E : Fin d → ℕ) : Prop where
  fits : ∀ i k, 0 ≤ k → E i * k ≤ span b i → Fits r b E i (E i * k)
  leaves : ∀ i, Leaves r b E i (E i * (span b i / E i + 1))

/-- A dimension that turns and in which the tile fits is moved on. -/
theorem nextCursor_of_turn (hr : Word r) (hE : ∀ i, 0 < E i) (h0 : ∀ i, Fits r b E i 0)
    (hx : ∀ i, Fits r b E i (x i)) {c : ℕ} (hc : c + 1 ≤ d)
    (hmove : x ⟨c, hc⟩ + E ⟨c, hc⟩ ≤ B ⟨c, hc⟩)
    (hfit : Fits r b E ⟨c, hc⟩ (x ⟨c, hc⟩ + E ⟨c, hc⟩)) :
    ∃ y, turnFrom (wheel E B) x (c + 1) hc = some y ∧
      nextCursor r (tileDomAt b E hE) b (fun i => r (E i)) (cursorAt r x (c + 1)) (c + 1) hc =
        .ok (some fun i => r (y i)) := by
  refine ⟨_, turnFrom_of_some (if_pos hmove), ?_⟩
  rw [nextCursor_of_fits hr hE h0 hx hc hfit]
  refine congrArg (fun y => Except.ok (some y)) (funext fun i => congrArg r ?_)
  rw [movedAt]
  refine if_congr Iff.rfl rfl (ite_congr rfl (fun hi => ?_) fun _ => rfl)
  obtain rfl : i = ⟨c, hc⟩ := Fin.ext hi
  rfl

/-- Moving the cursor turns its wheels, as far as they fit and leave in front of dimension `n`. -/
theorem nextCursor_eq (hr : Word r) (hE : ∀ i, 0 < E i) (h0 : ∀ i, Fits r b E i 0)
    (hx : ∀ i, Fits r b E i (x i)) (hfit : ∀ i, x i + E i ≤ B i → Fits r b E i (x i + E i)) {n : ℕ}
    (hleave : ∀ i : Fin d, n ≤ i → ¬x i + E i ≤ B i → Leaves r b E i (x i + E i)) (hn : n ≤ d)
    (hbase : ∀ y, turnFrom (wheel E B) x n hn = some y →
      nextCursor r (tileDomAt b E hE) b (fun i => r (E i)) (cursorAt r x n) n hn =
        .ok (some fun i => r (y i))) {c : ℕ} (hc : c ≤ d) (hnc : n ≤ c) :
    nextCursor r (tileDomAt b E hE) b (fun i => r (E i)) (cursorAt r x c) c hc =
      match turnFrom (wheel E B) x c hc with
      | some y => .ok (some fun i => r (y i))
      | none => nextCursor r (tileDomAt b E hE) b (fun i => r (E i)) (cursorAt r x n) n hn := by
  induction c, hnc using Nat.le_induction with
  | base =>
    split
    · next y hy => exact hbase y hy
    · rfl
  | succ c hnc ih =>
    by_cases hmove : x ⟨c, hc⟩ + E ⟨c, hc⟩ ≤ B ⟨c, hc⟩
    · obtain ⟨y, hy, hnext⟩ := nextCursor_of_turn hr hE h0 hx hc hmove (hfit _ hmove)
      rw [hy, hnext]
    · rw [turnFrom_of_none (if_neg hmove), nextCursor_of_leaves hr hE h0 hx hc (hleave _ hnc hmove)]
      exact ih _

theorem Steps.at_cursor (hE : ∀ i, 0 < E i) (h : Steps r b E) (hx : x ∈ cursors E (span b)) (i : Fin d) :
    Fits r b E i (x i) := by
  have hbounds := cursor_bounds hE hx i
  obtain ⟨k, hk, rfl⟩ := mem_cursors.mp hx
  exact h.fits i (k i) (hk i).1 hbounds.2

theorem Steps.at_zero (h : Steps r b E) (i : Fin d) : Fits r b E i 0 := by
  simpa using h.fits i 0 le_rfl (by simpa using span_nonneg b i)

/-- The part of the object at a cursor that fits. -/
theorem currDom_eq (hr : Word r) (hE : ∀ i, 0 < E i) (hx : x ∈ cursors E (span b))
    (hfit : ∀ i, Fits r b E i (x i)) :
    currDom r (tileDomAt b E hE) b (fun i => r (x i)) = .ok (pieceAt (tileDomAt b E hE) b x) := by
  have hin := cursor_intersects hE hx
  rw [currDom, translate_of_fits hr hE hfit, pieceAt, dif_pos hin]
  exact dif_pos hin

theorem pieceAt_covers (hE : ∀ i, 0 < E i) (hx : x ∈ cursors E (span b)) :
    b.Covers (pieceAt (tileDomAt b E hE) b x) :=
  Box.covers_iff.mpr fun _ hp => ((mem_pieceAt hE hx).mp hp).2

/-- The upper bound of the tile domain at the origin. -/
theorem origin_high (hr : Word r) (b : Box d) (E : Fin d → ℕ) (i : Fin d) :
    r (b.low i + r (E i) - 1) = r (b.low i + E i - 1) := by
  rw [show b.low i + r (E i) - 1 = b.low i - 1 + r (E i) by omega, hr.add,
    show b.low i - 1 + (E i : ℤ) = b.low i + E i - 1 by omega]

/-- The loop with its tile domain at the origin of the object. -/
theorem gridTiles_of_fits {body : Box d → Except Halt β} (hr : Word r) (hE : ∀ i, 0 < E i)
    (h0 : ∀ i, Fits r b E i 0) : gridTiles r b E body =
      sweep .endless (nextRound fun cursor =>
          nextCursor r (tileDomAt b E hE) b (fun i => r (E i)) cursor d le_rfl)
        (fun cursor => do
          let smallDom ← (cursor >>= currDom r (tileDomAt b E hE) b).mapError .throws
          let here ← body smallDom
          return [here])
        b.extents.prod (some (.ok fun _ => 0)) := by
  have hhigh : (fun i => r (b.low i + r (E i) - 1)) = (tileDomAt b E hE).high := by
    funext i
    have hfit := (h0 i).high
    rw [add_zero] at hfit
    rw [origin_high hr, hfit]
    rfl
  rw [gridTiles]
  simp only [hhigh]
  rw [show b.low = (tileDomAt b E hE).low from rfl, Box.ofBounds_eq]
  rfl

/-- **The loop returns what its body makes of the pieces**, if the tile fits and leaves. -/
theorem gridTiles_eq {body : Box d → Except Halt β} {out : Box d → β} (hr : Word r)
    (hE : ∀ i, 0 < E i) (h : Steps r b E) (hbody : ∀ c, b.Covers c → body c = .ok (out c)) :
    gridTiles r b E body =
      .ok ((cursors E (span b)).map fun x => out (pieceAt (tileDomAt b E hE) b x)) := by
  let state : Point d → Except RError (Point d) := fun x => .ok fun i => r (x i)
  have hvisits : Visits (nextRound fun cursor =>
      nextCursor r (tileDomAt b E hE) b (fun i => r (E i)) cursor d le_rfl)
      (some (state fun _ => 0)) ((cursors E (span b)).map state) none :=
    (visits_cursors hE (span_nonneg b)).map fun x hx => by
      have hleave : ∀ i : Fin d, 0 ≤ (i : ℕ) → ¬x i + E i ≤ span b i → Leaves r b E i (x i + E i) :=
        fun i _ hout => cursor_last hE hx hout ▸ h.leaves i
      have hfit : ∀ i, x i + E i ≤ span b i → Fits r b E i (x i + E i) := fun i hin => by
        obtain ⟨k, hk, rfl⟩ := mem_cursors.mp hx
        have hnext : E i * k i + E i = E i * (k i + 1) := by rw [Int.mul_add, Int.mul_one]
        dsimp only at hin ⊢
        rw [hnext] at hin ⊢
        exact h.fits i _ (by have := (hk i).1; omega) hin
      have hall : cursorAt r x d = fun i => r (x i) := funext fun i => if_pos i.isLt
      have hnext := nextCursor_eq hr hE h.at_zero (h.at_cursor hE hx) hfit hleave
        (Nat.zero_le d) nofun le_rfl (Nat.zero_le d)
      rw [hall] at hnext
      simp only [state]
      rw [nextRound, hnext, turn]
      cases turnFrom (wheel E (span b)) x d le_rfl <;> rfl
  rw [gridTiles_of_fits hr hE h.at_zero]
  have hfuel := length_cursors_le hE b
  rw [← List.length_map] at hfuel
  have hstart : (fun _ : Fin d => (0 : ℤ)) = fun _ => r 0 := by rw [hr.zero]
  rw [hstart]
  let here : Except RError (Point d) → List β := fun z =>
    match z >>= currDom r (tileDomAt b E hE) b with
    | .ok c => [out c]
    | .error _ => []
  refine (sweep_eq hvisits hfuel fun z hz => show _ = Except.ok (here z) from ?_).trans ?_
  · obtain ⟨x, hx, rfl⟩ := List.mem_map.mp hz
    have hpiece := currDom_eq hr hE hx (h.at_cursor hE hx)
    simp only [state, here, bind, Except.bind, hpiece, Except.mapError, hbody _ (pieceAt_covers hE hx)]
    rfl
  · rw [List.flatMap_map, List.map_eq_flatMap]
    refine congrArg Except.ok (List.flatMap_congr fun x hx => ?_)
    have hpiece := currDom_eq hr hE hx (h.at_cursor hE hx)
    simp only [state, here, bind, Except.bind, hpiece]

/-- In integers without bounds the tile always fits and leaves. -/
theorem steps_id (b : Box d) (hE : ∀ i, 0 < E i) : Steps id b E := by
  refine ⟨fun i k hk hle => ⟨Int.mul_nonneg (Int.natCast_nonneg _) hk, hle, rfl, rfl⟩, fun i => ?_⟩
  have hpos : (0 : ℤ) < E i := Int.natCast_pos.mpr (hE i)
  have hlast : ¬E i * (span b i / E i + 1) ≤ span b i := by
    rw [Int.mul_comm, ← Int.le_ediv_iff_mul_le hpos]
    omega
  refine ⟨?_, fun hmeet => hlast ?_⟩
  · simp only [id]
    omega
  · have := hmeet.1
    simp only [id, span] at this ⊢
    omega

/-! ## Coordinates of 64 bits -/

/-- **The tile domain can be moved past the end of the object** in a dimension: behind the last cursor
it still has bounds of 64 bits, or it begins anew at the least number and ends in front of the object. -/
def GridFitsAt (b : Box d) (E : Fin d → ℕ) (i : Fin d) : Prop :=
  b.low i + E i * (span b i / E i + 2) ≤ 2 ^ 63 ∨
    b.low i + E i * (span b i / E i + 1) = 2 ^ 63 ∧ E i ≤ b.low i + 2 ^ 63

instance (b : Box d) (E : Fin d → ℕ) (i : Fin d) : Decidable (GridFitsAt b E i) :=
  inferInstanceAs (Decidable (_ ∨ _ ∧ _))

/-- In each dimension the tile domain can be moved past the end of the object. -/
def GridFits (b : Box d) (E : Fin d → ℕ) : Prop := ∀ i, GridFitsAt b E i

instance (b : Box d) (E : Fin d → ℕ) : Decidable (GridFits b E) :=
  inferInstanceAs (Decidable (∀ i, GridFitsAt b E i))

/-- A tile fits where its last cell has a coordinate of 64 bits. -/
theorem fits_of_le (hb : b.InRange) {x : ℤ} (h0 : 0 ≤ x) (hle : x ≤ span b i)
    (hhigh : b.low i + x + E i ≤ 2 ^ 63) (hE : 0 < E i) : Fits toRange b E i x := by
  have hlow := (hb i).1
  have hup := (hb i).2
  simp only [span] at hle
  exact ⟨h0, hle, toRange_of_lt (by omega) (by omega), toRange_of_lt (by omega) (by omega)⟩

/-- What leaves 64 bits at its end only, is no interval. -/
theorem toRange_lt_of_le {y : ℤ} {e : ℕ} (hy : -2 ^ 63 ≤ y) (hlt : y < 2 ^ 63) (hend : 2 ^ 63 < y + e)
    (he : e ≤ 2 ^ 64) : toRange (y + e - 1) < toRange y := by
  rw [toRange_of_lt hy hlt, toRange, Int.bmod_def]
  omega

/-- Behind the last number the tile begins anew at the least one. -/
theorem toRange_of_end {y : ℤ} {e : ℕ} (hy : y = 2 ^ 63) (he : 0 < e) (hle : e ≤ 2 ^ 64) :
    toRange y = -2 ^ 63 ∧ toRange (y + e - 1) = e - 1 - 2 ^ 63 := by
  subst hy
  simp only [toRange, Int.bmod_def]
  omega

theorem GridFitsAt.fits (h : GridFitsAt b E i) (hb : b.InRange) (hE : 0 < E i) {k : ℤ} (hk : 0 ≤ k)
    (hle : E i * k ≤ span b i) : Fits toRange b E i (E i * k) := by
  have hpos : (0 : ℤ) < E i := Int.natCast_pos.mpr hE
  refine fits_of_le hb (Int.mul_nonneg hpos.le hk) hle ?_ hE
  have hlast : k ≤ span b i / E i := (Int.le_ediv_iff_mul_le hpos).mpr (by rwa [Int.mul_comm])
  have hmul : (E i : ℤ) * (k + 1) ≤ E i * (span b i / E i + 1) :=
    Int.mul_le_mul_of_nonneg_left (by omega) hpos.le
  have hend : (E i : ℤ) * (span b i / E i + 2) = E i * (span b i / E i + 1) + E i := by ring
  rw [Int.mul_add, Int.mul_one] at hmul
  rcases h with h | ⟨h, -⟩ <;> omega

theorem GridFitsAt.leaves (h : GridFitsAt b E i) (hb : b.InRange) (hE : 0 < E i) (hE' : E i ≤ 2 ^ 64) :
    Leaves toRange b E i (E i * (span b i / E i + 1)) := by
  have hpos : (0 : ℤ) < E i := Int.natCast_pos.mpr hE
  have hout : span b i < E i * (span b i / E i + 1) := by
    rw [Int.mul_comm, ← not_le, ← Int.le_ediv_iff_mul_le hpos]
    omega
  have hlow := (hb i).1
  have hhigh := (hb i).2
  have hmul : (E i : ℤ) * (span b i / E i + 2) = E i * (span b i / E i + 1) + E i := by ring
  have hspan : span b i = b.high i - b.low i := rfl
  have hle := b.low_le_high i
  rw [GridFitsAt, hmul] at h
  generalize (E i : ℤ) * (span b i / E i + 1) = m at hout h ⊢
  rcases h with hin | ⟨hat, hbefore⟩
  · have hfirst : toRange (b.low i + m) = b.low i + m := toRange_of_lt (by omega) (by omega)
    have hlast : toRange (b.low i + m + E i - 1) = b.low i + m + E i - 1 :=
      toRange_of_lt (by omega) (by omega)
    exact ⟨by omega, by omega⟩
  · obtain ⟨hfirst, hlast⟩ := toRange_of_end hat hE hE'
    exact ⟨by omega, by omega⟩

theorem GridFits.steps (h : GridFits b E) (hb : b.InRange) (hE : ∀ i, 0 < E i)
    (hE' : ∀ i, E i ≤ 2 ^ 64) : Steps toRange b E :=
  ⟨fun i _ hk hle => (h i).fits hb (hE i) hk hle, fun i => (h i).leaves hb (hE i) (hE' i)⟩

/-! ## A loop that does not end at the object -/

/-- What comes out at a round contains the first cell of the object. -/
def Again (tileDom bigDom : Box d) (cursor : Except RError (Point d)) : Prop :=
  ∀ p, (cursor >>= currDom toRange tileDom bigDom) = .ok p → bigDom.low ∈ p ∧ bigDom.Covers p

/-- Where a dimension does not fit, no interval comes out or one that begins in front of the object. -/
theorem stuck_of_not_fitsAt (hb : b.InRange) (hE : 0 < E i) (hE' : E i ≤ 2 ^ 64) {y : ℤ} (h0 : 0 ≤ y)
    (hhigh : b.low i + y + E i ≤ 2 ^ 63)
    (hlast : ¬y + E i ≤ span b i → y + E i = E i * (span b i / E i + 1) ∧ ¬GridFitsAt b E i)
    (hmore : y + E i ≤ span b i → 2 ^ 63 < b.low i + y + E i + E i) :
    toRange (b.low i + (y + E i) + E i - 1) < toRange (b.low i + (y + E i)) ∨
      toRange (b.low i + (y + E i)) ≤ b.low i ∧ b.low i ≤ toRange (b.low i + (y + E i) + E i - 1) := by
  have hlow := (hb i).1
  have hup := (hb i).2
  have hspan : span b i = b.high i - b.low i := rfl
  have hmul : (E i : ℤ) * (span b i / E i + 2) = E i * (span b i / E i + 1) + E i := by ring
  by_cases hin : y + E i ≤ span b i
  · exact .inl (toRange_lt_of_le (by omega) (by omega) (by have := hmore hin; omega) hE')
  · obtain ⟨heq, hnot⟩ := hlast hin
    rw [GridFitsAt, hmul, ← heq] at hnot
    rcases lt_or_eq_of_le (show b.low i + (y + E i) ≤ 2 ^ 63 by omega) with hlt | hat
    · exact .inl (toRange_lt_of_le (by omega) hlt (by omega) hE')
    · obtain ⟨hfirst, hend⟩ := toRange_of_end hat hE hE'
      exact .inr ⟨by omega, by omega⟩

/-- A round in which a dimension is stuck does not end the loop. -/
theorem nextRound_stuck (hE : ∀ i, 0 < E i) (h0 : ∀ i, Fits toRange b E i 0)
    (hx : ∀ i, Fits toRange b E i (x i)) {c : ℕ} (hc : c + 1 ≤ d)
    (hzero : ∀ i : Fin d, (i : ℕ) < c → x i = 0)
    (hstuck : toRange (b.low ⟨c, hc⟩ + (x ⟨c, hc⟩ + E ⟨c, hc⟩) + E ⟨c, hc⟩ - 1) <
        toRange (b.low ⟨c, hc⟩ + (x ⟨c, hc⟩ + E ⟨c, hc⟩)) ∨
      toRange (b.low ⟨c, hc⟩ + (x ⟨c, hc⟩ + E ⟨c, hc⟩)) ≤ b.low ⟨c, hc⟩ ∧
        b.low ⟨c, hc⟩ ≤ toRange (b.low ⟨c, hc⟩ + (x ⟨c, hc⟩ + E ⟨c, hc⟩) + E ⟨c, hc⟩ - 1)) :
    nextCursor toRange (tileDomAt b E hE) b (fun i => toRange (E i)) (cursorAt toRange x (c + 1))
        (c + 1) hc = .error .noInterval ∨
      ∃ moved, nextCursor toRange (tileDomAt b E hE) b (fun i => toRange (E i))
          (cursorAt toRange x (c + 1)) (c + 1) hc = .ok (some moved) ∧
        Again (tileDomAt b E hE) b (.ok moved) := by
  have hat : movedAt E x c ⟨c, hc⟩ = x ⟨c, hc⟩ + E ⟨c, hc⟩ := by
    rw [movedAt, if_neg (lt_irrefl c), if_pos rfl]
  rw [nextCursor]
  simp only [update_cursorAt word_toRange]
  rcases hstuck with hlt | ⟨hfirst, hlast⟩
  · have hnone : translate toRange (tileDomAt b E hE) (fun i => toRange (movedAt E x c i)) =
        .error .noInterval := by
      rw [translate_eq word_toRange]
      refine dif_neg fun hall => ?_
      have hat' := hall ⟨c, hc⟩
      simp only [hat] at hat'
      exact absurd hlt (not_lt.mpr hat')
    exact .inl (by simp only [hnone, bind, Except.bind])
  · obtain ⟨z, hz, hlow, hhigh, hother⟩ :=
      translate_moved word_toRange hE h0 hx hc (hfirst.trans hlast)
    have hmem : b.low ∈ z := fun i => by
      rcases eq_or_ne i ⟨c, hc⟩ with rfl | hi
      · rw [hlow, hhigh]
        exact ⟨hfirst, hlast⟩
      · have hne : (i : ℕ) ≠ c := fun h => hi (Fin.ext h)
        obtain ⟨hzlow, hzhigh⟩ := hother i hne
        have hzero' : movedAt E x c i = 0 := by
          by_cases hlt : (i : ℕ) < c
          · rw [movedAt, if_pos hlt, hzero i hlt]
          · rw [movedAt, if_neg hlt, if_neg hne]
        have := hE i
        rw [hzlow, hzhigh, hzero']
        omega
    have hmeet : z.Intersects b := .of_mem hmem b.low_mem
    refine .inr ⟨_, by simp only [hz, bind, Except.bind, if_pos hmeet]; rfl, fun p hp => ?_⟩
    simp only [bind, Except.bind, currDom, hz, Box.createIntersection, dif_pos hmeet] at hp
    obtain rfl := Except.ok.inj hp
    exact ⟨Box.mem_inter.mpr ⟨hmem, b.low_mem⟩, Box.covers_iff.mpr fun q hq => (Box.mem_inter.mp hq).2⟩

/-- The bounds of the cursor up to where a dimension is stuck. -/
def stuckBound (b : Box d) (E : Fin d → ℕ) (i j : Fin d) : ℤ :=
  if j < i then 0 else if j = i then min (span b i) (2 ^ 63 - E i - b.low i) else span b j

/-- The last dimension that does not fit. -/
theorem exists_last_not_fitsAt (h : ¬GridFits b E) :
    ∃ i, ¬GridFitsAt b E i ∧ ∀ j, i < j → GridFitsAt b E j := by
  obtain ⟨i, hi⟩ := not_forall.mp h
  obtain ⟨i, hi, hmax⟩ := (Finset.univ.filter fun i => ¬GridFitsAt b E i).exists_max_image id
    ⟨i, Finset.mem_filter.mpr ⟨Finset.mem_univ i, hi⟩⟩
  refine ⟨i, (Finset.mem_filter.mp hi).2, fun j hj => ?_⟩
  by_contra hnot
  exact absurd (hmax j (Finset.mem_filter.mpr ⟨Finset.mem_univ j, hnot⟩)) (not_le.mpr hj)

/-- Some rounds after the first one a cell of the object comes out again, unless the loop throws. -/
theorem sweep_stuck {body : Box d → Except Halt β} {dom : β → Box d} {fuel : ℕ} {bs : List β}
    (hb : b.InRange) (hE : ∀ i, 0 < E i) (hE' : ∀ i, E i ≤ 2 ^ 64) (h0 : ∀ i, Fits toRange b E i 0)
    (hnot : ¬GridFits b E) (hbody : ∀ c, b.Covers c → ∃ s, body c = .ok s ∧ dom s = c)
    (hok : sweep .endless (nextRound fun cursor =>
          nextCursor toRange (tileDomAt b E hE) b (fun i => toRange (E i)) cursor d le_rfl)
        (fun cursor => do
          let smallDom ← (cursor >>= currDom toRange (tileDomAt b E hE) b).mapError .throws
          let here ← body smallDom
          return [here]) fuel (some (.ok fun _ => 0)) = .ok bs) :
    ¬Tiles b.region (bs.map dom) := by
  obtain ⟨i, hi, hafter⟩ := exists_last_not_fitsAt hnot
  set B := stuckBound b E i with hBdef
  have hbelow : ∀ j, j < i → B j = 0 := fun j hj => if_pos hj
  have hat : B i = min (span b i) (2 ^ 63 - E i - b.low i) :=
    (if_neg (lt_irrefl i)).trans (if_pos rfl)
  have habove : ∀ j, i < j → B j = span b j := fun j hj =>
    (if_neg hj.not_gt).trans (if_neg hj.ne')
  have hend : ∀ j, b.low j + E j ≤ 2 ^ 63 := fun j => by
    have hhigh := (h0 j).high
    have := toRange_bounds (b.low j + 0 + E j - 1)
    omega
  have hB : ∀ j, 0 ≤ B j := fun j => by
    rcases lt_trichotomy j i with hlt | rfl | hgt
    · exact (hbelow j hlt).ge
    · have := span_nonneg b j
      have := hend j
      omega
    · exact habove j hgt ▸ span_nonneg b j
  -- up to the bounds the tile fits at every multiple of its extents
  have hfits : ∀ j k, 0 ≤ k → E j * k ≤ B j → Fits toRange b E j (E j * k) := fun j k hk hle => by
    have hnonneg : 0 ≤ E j * k := Int.mul_nonneg (Int.natCast_nonneg _) hk
    rcases lt_trichotomy j i with hlt | rfl | hgt
    · have hzero : E j * k = 0 := le_antisymm (hle.trans (hbelow j hlt).le) hnonneg
      exact hzero ▸ h0 j
    · exact fits_of_le hb hnonneg (by omega) (by omega) (hE j)
    · exact (hafter j hgt).fits hb (hE j) hk (habove j hgt ▸ hle)
  have hx : ∀ x ∈ cursors E B, ∀ j, Fits toRange b E j (x j) ∧
      (x j + E j ≤ B j → Fits toRange b E j (x j + E j)) := fun x hx j => by
    have hbounds := cursor_bounds hE hx j
    obtain ⟨k, hk, rfl⟩ := mem_cursors.mp hx
    refine ⟨hfits j (k j) (hk j).1 hbounds.2, fun hmove => ?_⟩
    have hnext : E j * k j + E j = E j * (k j + 1) := by rw [Int.mul_add, Int.mul_one]
    dsimp only at hmove ⊢
    rw [hnext] at hmove ⊢
    exact hfits j _ (by have := (hk j).1; omega) hmove
  -- below the dimension that is stuck nothing turns
  have hstop : ∀ x ∈ cursors E B, turnFrom (wheel E B) x i i.isLt.le = none := fun x hx =>
    turnFrom_eq_none_iff.mpr fun j hj => if_neg (by
      have := (cursor_bounds hE hx j).1
      have := hE j
      have := hbelow j hj
      omega)
  have hnext : ∀ x ∈ cursors E B,
      nextCursor toRange (tileDomAt b E hE) b (fun i => toRange (E i)) (fun j => toRange (x j)) d le_rfl =
        match turn (wheel E B) x with
        | some y => .ok (some fun j => toRange (y j))
        | none => nextCursor toRange (tileDomAt b E hE) b (fun i => toRange (E i))
            (cursorAt toRange x (i + 1)) (i + 1) i.isLt := fun x hmem => by
    have hall : cursorAt toRange x d = fun j => toRange (x j) := funext fun j => if_pos j.isLt
    rw [← hall]
    refine nextCursor_eq word_toRange hE h0 (fun j => (hx x hmem j).1) (fun j => (hx x hmem j).2)
      (fun j hj hout => ?_) i.isLt (fun y hy => ?_) le_rfl i.isLt
    · have hgt : i < j := hj
      have hlast := cursor_last hE hmem hout
      rw [habove j hgt] at hlast
      exact hlast ▸ (hafter j hgt).leaves hb (hE j) (hE' j)
    · by_cases hmove : x i + E i ≤ B i
      · obtain ⟨y', hy', hnext⟩ := nextCursor_of_turn word_toRange hE h0 (fun j => (hx x hmem j).1)
          i.isLt hmove ((hx x hmem i).2 hmove)
        obtain rfl := Option.some.inj (hy'.symm.trans hy)
        exact hnext
      · rw [turnFrom_of_none (if_neg hmove), hstop x hmem] at hy
        cases hy
  have hgo : ∀ x ∈ cursors E B, ∀ y, turn (wheel E B) x = some y →
      nextRound (fun cursor =>
        nextCursor toRange (tileDomAt b E hE) b (fun i => toRange (E i)) cursor d le_rfl)
          (.ok fun j => toRange (x j)) = some (.ok fun j => toRange (y j)) := fun x hmem y hy => by
    have h := hnext x hmem
    rw [hy] at h
    rw [nextRound, h]
    rfl
  have hpast : ∀ x ∈ cursors E B, turn (wheel E B) x = none →
      ∃ z, Again (tileDomAt b E hE) b z ∧ nextRound (fun cursor =>
        nextCursor toRange (tileDomAt b E hE) b (fun i => toRange (E i)) cursor d le_rfl)
          (.ok fun j => toRange (x j)) = some z := fun x hmem hnone => by
    have h := hnext x hmem
    rw [hnone] at h
    have hbounds := cursor_bounds hE hmem i
    have hstay : ¬x i + E i ≤ B i := fun hmove => by
      have hnone := turnFrom_eq_none_iff.mp hnone i i.isLt
      simp only [wheel, if_pos hmove] at hnone
      cases hnone
    have hle : x i ≤ span b i := by omega
    have hlast : ¬x i + E i ≤ span b i → x i + E i = E i * (span b i / E i + 1) ∧ ¬GridFitsAt b E i := by
      obtain ⟨k, hk, rfl⟩ := mem_cursors.mp hmem
      exact fun hout => ⟨last_multiple (hE i) hle hout, hi⟩
    have hstuck := stuck_of_not_fitsAt hb (hE i) (hE' i) hbounds.1 (by omega) hlast fun hin => by omega
    have hzero : ∀ j : Fin d, (j : ℕ) < i → x j = 0 := fun j hj => by
      have := cursor_bounds hE hmem j
      have := hbelow j hj
      omega
    rw [nextRound, h]
    rcases nextRound_stuck hE h0 (fun j => (hx x hmem j).1) i.isLt hzero hstuck with h | ⟨moved, h, hagain⟩
    · rw [h]
      exact ⟨.error .noInterval, fun _ hp => (by cases hp), rfl⟩
    · rw [h]
      exact ⟨.ok moved, hagain, rfl⟩
  obtain ⟨out, rest, hout, rfl, z, hz, out', hout', hmem⟩ := exists_of_sweep_past
    (f := fun x : Point d => (.ok fun j => toRange (x j) : Except RError (Point d)))
    (visits_cursors hE hB) hgo hpast hok
  have hfirst : Again (tileDomAt b E hE) b (.ok fun _ => toRange 0) := fun p hp => by
    have hmem : (fun _ => 0) ∈ cursors E (span b) :=
      mem_cursors.mpr ⟨0, fun i => ⟨le_rfl, Int.ediv_nonneg (span_nonneg b i) (Int.natCast_nonneg _)⟩,
        funext fun i => (Int.mul_zero _).symm⟩
    obtain rfl := Except.ok.inj ((currDom_eq word_toRange hE hmem h0).symm.trans hp)
    refine ⟨(mem_pieceAt hE hmem).mpr ⟨fun i => ?_, b.low_mem⟩, pieceAt_covers hE hmem⟩
    have := hE i
    simp only [Box.createTranslation, tileDomAt]
    omega
  have honce : ∀ z out, Again (tileDomAt b E hE) b z →
      ((do
        let smallDom ← (z >>= currDom toRange (tileDomAt b E hE) b).mapError .throws
        let here ← body smallDom
        return [here]) : Except Halt (List β)) = .ok out → ∃ s, out = [s] ∧ b.low ∈ dom s :=
    fun z out hz hout => by
      obtain ⟨c, hc, hout⟩ := ExceptFold.bind_eq_ok hout
      obtain ⟨s, hs, hout⟩ := ExceptFold.bind_eq_ok hout
      have hcur : (z >>= currDom toRange (tileDomAt b E hE) b) = .ok c := by
        revert hc
        cases z >>= currDom toRange (tileDomAt b E hE) b with
        | error e =>
          intro h
          cases h
        | ok p => exact fun h => congrArg _ (Except.ok.inj h)
      obtain ⟨hlow, hcov⟩ := hz c hcur
      obtain ⟨s', hs', hdom⟩ := hbody c hcov
      obtain rfl := Except.ok.inj (hs'.symm.trans hs)
      exact ⟨s', (Except.ok.inj hout).symm, hdom ▸ hlow⟩
  obtain ⟨s, rfl, hs⟩ := honce _ _ hfirst hout
  obtain ⟨s', rfl, hs'⟩ := honce _ _ hz hout'
  intro htiles
  have hpair := htiles.disjoint
  rw [List.map_append, List.map_singleton, List.singleton_append, List.pairwise_cons] at hpair
  exact hpair.1 _ (List.mem_map_of_mem (hmem s' (List.mem_singleton_self s'))) (.of_mem hs hs')

/-- **Where the tile domain fits, the loop partitions the object**; each part comes out of its body. -/
theorem GridFits.gridTiles {body : Box d → Except Halt β} {dom : β → Box d} (h : GridFits b E)
    (hb : b.InRange) (hE : ∀ i, 0 < E i) (hE' : ∀ i, E i ≤ 2 ^ 64)
    (hbody : ∀ c, b.Covers c → ∃ s, body c = .ok s ∧ dom s = c) :
    ∃ bs, gridTiles toRange b E body = .ok bs ∧ Tiles b.region (bs.map dom) ∧
      ∀ s ∈ bs, ∃ c, b.Covers c ∧ body c = .ok s := by
  have hne : Nonempty β := ⟨(hbody b (Box.Covers.refl b)).choose⟩
  choose! out hout hdom using hbody
  refine ⟨_, gridTiles_eq word_toRange hE (h.steps hb hE hE') hout, ?_, fun s hs => ?_⟩
  · have hmap : ((cursors E (span b)).map fun x => out (pieceAt (tileDomAt b E hE) b x)).map dom =
        (cursors E (span b)).map (pieceAt (tileDomAt b E hE) b) := by
      rw [List.map_map]
      exact List.map_congr_left fun x hx => hdom _ (pieceAt_covers hE hx)
    exact hmap ▸ tiles_pieceAt hE b
  · obtain ⟨x, hx, rfl⟩ := List.mem_map.mp hs
    exact ⟨_, pieceAt_covers hE hx, hout _ (pieceAt_covers hE hx)⟩

/-- **The loop partitions the object exactly if the tile domain can be moved past its end.** -/
theorem gridTiles_iff {body : Box d → Except Halt β} {dom : β → Box d} (hb : b.InRange)
    (hE : ∀ i, 0 < E i) (hE' : ∀ i, E i ≤ 2 ^ 64)
    (hbody : ∀ c, b.Covers c → ∃ s, body c = .ok s ∧ dom s = c) :
    (∃ bs, gridTiles toRange b E body = .ok bs ∧ Tiles b.region (bs.map dom)) ↔ GridFits b E := by
  constructor
  · rintro ⟨bs, hok, htiles⟩
    by_contra hnot
    obtain ⟨tileDom, hdom, -⟩ := ExceptFold.bind_eq_ok hok
    have hle : ∀ i, b.low i ≤ toRange (b.low i + toRange (E i) - 1) := by
      by_contra hlow
      rw [Box.ofBounds, dif_neg hlow] at hdom
      cases hdom
    have h0 : ∀ i, Fits toRange b E i 0 := fun i => by
      have hlow := (hb i).1
      have hhigh := (hb i).2
      have hbox := b.low_le_high i
      refine fits_of_le hb le_rfl (span_nonneg b i) ?_ (hE i)
      by_contra hout
      have hlt := toRange_lt_of_le (e := E i) hlow (by omega) (by omega) (hE' i)
      have := hle i
      rw [origin_high word_toRange] at this
      rw [toRange_of_lt hlow (by omega)] at hlt
      omega
    rw [gridTiles_of_fits word_toRange hE h0] at hok
    exact sweep_stuck hb hE hE' h0 hnot hbody hok htiles
  · intro h
    obtain ⟨bs, hbs, htiles, -⟩ := h.gridTiles hb hE hE' hbody
    exact ⟨bs, hbs, htiles⟩

end TileGrid

end Rasdaman
