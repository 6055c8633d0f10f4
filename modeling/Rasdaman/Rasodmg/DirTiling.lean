import Mathlib
import Rasdaman.Machinery.Breaks
import Rasdaman.Machinery.Odometer
import Rasdaman.Machinery.ExceptFold
import Rasdaman.Rasodmg.AlignedTiling
import Rasdaman.Rasodmg.SizeTiling

/-!
# Rasodmg/DirTiling — `r_Dir_Tiling::compute_tiles`

Each dimension is decomposed at a list of points, or left undefined.  The blocks are the boxes between the points;
a block that is larger than the tile size is cut again by aligned tiling, if that is asked for.  In the dimensions
without points such a block gets the edge length that the others leave.  What is computed for it are `r_Range`s.

**The tiles partition the domain, and without cutting again no tile goes across a point** other than the first
one (`DirTiling.computeTiles_blocks`).
-/

namespace Rasdaman

/-- `r_Dir_Tiling`; a `r_Dir_Decompose` is the list of its points. -/
structure DirTiling (d : ℕ) where
  dimDecomp : Fin d → List ℤ
  tileSize : ℕ
  subTile : Bool

namespace DirTiling

variable {d : ℕ}

/-- The floating point functions of the tilings: the width that aligned tiling scales, and
`floor(pow(edgesize / typelen, 1 / total_undef))`. -/
structure Floats where
  scaledWidth : (tileSize cellSize numCellsTileConfig dimension width : ℕ) → ℕ
  edgeRoot : (edgesize : ℤ) → (typelen totalUndef : ℕ) → ℤ

/-- `get_partition`. -/
def getPartition (p : List ℤ) (number : ℕ) : Except Halt ℤ :=
  if number < p.length then .ok (p.getD number 0) else .error (.throws .indexViolation)

/-- The points of a dimension start and end where the domain does, if there are any. -/
def LimitsMatch (p : List ℤ) (low high : ℤ) : Prop := p = [] ∨ p.getLast? = some high ∧ p.head? = some low

instance (p : List ℤ) (low high : ℤ) : Decidable (LimitsMatch p low high) :=
  inferInstanceAs (Decidable (p = [] ∨ p.getLast? = some high ∧ p.head? = some low))

/-- `is_compatible`, for a domain of the tiling's dimension. -/
def IsCompatible (t : DirTiling d) (domain : Box d) (typelen : ℕ) : Prop :=
  (typelen ≤ t.tileSize ∧ d ≠ 0) ∧ ∀ i, LimitsMatch (t.dimDecomp i) (domain.low i) (domain.high i)

/-- `temp_dim_decomp`: an undefined dimension is one interval. -/
def tempDimDecomp (t : DirTiling d) (domain : Box d) (i : Fin d) : List ℤ :=
  if t.dimDecomp i = [] then [domain.low i, domain.high i] else t.dimDecomp i

/-- One side of the tile at the counters. -/
def tileSide (p : List ℤ) (counter : ℕ) : Except Halt {s : ℤ × ℤ // s.1 ≤ s.2} := do
  let point ← getPartition p counter
  let origin := if counter ≠ 0 then point + 1 else point
  let limit ← if p.length ≤ counter + 1 then .ok origin else getPartition p (counter + 1)
  if h : origin ≤ limit then .ok ⟨(origin, limit), h⟩ else .error (.throws .noInterval)

/-- The tile at the counters. -/
def tileAt (part : Fin d → List ℤ) (counter : Fin d → ℕ) : Except Halt (Box d) := do
  let sides ← ExceptFold.collect fun i => tileSide (part i) (counter i)
  return ⟨fun i => (sides i).1.1, fun i => (sides i).1.2, fun i => (sides i).2⟩

/-- `total_undef`. -/
def totalUndef (t : DirTiling d) : ℕ := (List.finRange d).countP fun i => t.dimDecomp i = []

/-- `edgesize` before its root is taken: the tile size is divided by the size of each defined side.
A division by 0 ends the program. -/
def edgesize (t : DirTiling d) (tile : Box d) (typelen : ℕ) : Except Halt ℤ :=
  (List.finRange d).foldlM (fun edgesize i =>
    let size := toRange (toRange (tile.high i - tile.low i + 1) * typelen)
    if t.dimDecomp i = [] then .ok edgesize
    else if size = 0 then .error .outside
    else .ok (toRange (edgesize.tdiv size))) t.tileSize

/-- The configuration for cutting a tile again. -/
def partition (fl : Floats) (t : DirTiling d) (tile : Box d) (typelen : ℕ) :
    Except Halt (Fin d → Sinterval) := do
  let side : Point d := fun i => toRange (tile.high i - tile.low i)
  let high : Point d ←
    if t.totalUndef = 0 then .ok side
    else do
      let edgesize ← t.edgesize tile typelen
      let edge := fl.edgeRoot edgesize typelen t.totalUndef
      .ok fun i => if t.dimDecomp i = [] then toRange (edge - 1) else side i
  if ∀ i, 0 ≤ high i then .ok fun i => .fixed 0 (high i) else .error (.throws .noInterval)

/-- A tile has more bytes than the tile size; the bytes are counted in `r_Area`. -/
def TooLarge (tileSize typelen : ℕ) (tile : Box d) : Prop := tileSize < tile.cellCount * typelen % areaModulus

instance (tileSize typelen : ℕ) (tile : Box d) : Decidable (TooLarge tileSize typelen tile) :=
  inferInstanceAs (Decidable (tileSize < tile.cellCount * typelen % areaModulus))

/-- What a round of the main loop adds to the result. -/
def tilesAt (fl : Floats) (t : DirTiling d) (domain : Box d) (typelen : ℕ) (counter : Fin d → ℕ) :
    Except Halt (List (Box d)) := do
  let tile ← tileAt (t.tempDimDecomp domain) counter
  if TooLarge t.tileSize typelen tile ∧ t.subTile then
    let config ← t.partition fl tile typelen
    AlignedTiling.computeTiles ⟨t.tileSize, typelen, fl.scaledWidth, toRange⟩ config tile
  else return [tile]

/-- The loop that updates the counters: the first one that is not at its end counts on, those in front of it start
anew. -/
def advance (part : Fin d → List ℤ) : List (Fin d) → (Fin d → ℕ) → Fin d → ℕ
  | [], counter => counter
  | i :: is, counter =>
    if (part i).length - 1 ≤ counter i + 1 then advance part is (Function.update counter i 0)
    else Function.update counter i (counter i + 1)

/-- The counters of the next round, unless all of them are 0 again. -/
def nextCounter (part : Fin d → List ℤ) (counter : Fin d → ℕ) : Option (Fin d → ℕ) :=
  let counter := advance part (List.finRange d) counter
  if ∀ i, counter i = 0 then none else some counter

/-- `compute_tiles`, for a domain of the tiling's dimension. -/
def computeTiles (fl : Floats) (t : DirTiling d) (domain : Box d) (typelen : ℕ) : Except Halt (List (Box d)) :=
  if ∀ i, LimitsMatch (t.dimDecomp i) (domain.low i) (domain.high i) then
    let part := t.tempDimDecomp domain
    Odometer.sweep .endless (nextCounter part) (t.tilesAt fl domain typelen)
      (List.ofFn fun i => (part i).length).prod (some fun _ => 0)
  else .error (.throws .limitsMismatch)

/-! ## The counters -/

open Odometer

/-- A counter as a wheel. -/
def counterWheel (part : Fin d → List ℤ) (i : Fin d) : Wheel ℕ where
  first := 0
  next := fun x => if (part i).length - 1 ≤ x + 1 then none else some (x + 1)

/-- The values of a counter. -/
def counterSteps (part : Fin d → List ℤ) (i : Fin d) : List ℕ := List.range (max 1 ((part i).length - 1))

/-- All the counters that the loop goes through. -/
def counters (part : Fin d → List ℤ) : List (Fin d → ℕ) :=
  combosOf (counterSteps part) (List.finRange d) fun _ => 0

variable {part : Fin d → List ℤ} {counter counter' : Fin d → ℕ} {l : List (Fin d)}

theorem carry_ne_zero (h : carry (counterWheel part) l counter = some counter') : ∃ i, counter' i ≠ 0 := by
  induction l generalizing counter with
  | nil => cases h
  | cons i l ih =>
    rw [carry] at h
    split at h
    · next y hy =>
      obtain rfl := Option.some.inj h
      refine ⟨i, ?_⟩
      simp only [counterWheel] at hy
      split at hy
      · cases hy
      · obtain rfl := Option.some.inj hy
        rw [Function.update_self]
        exact Nat.succ_ne_zero _
    · exact ih h

theorem advance_of_carry (h : carry (counterWheel part) l counter = some counter') :
    advance part l counter = counter' := by
  induction l generalizing counter with
  | nil => cases h
  | cons i l ih =>
    rw [carry] at h
    rw [advance]
    by_cases hend : (part i).length - 1 ≤ counter i + 1
    · have hnext : (counterWheel part i).next (counter i) = none := if_pos hend
      rw [hnext] at h
      rw [if_pos hend]
      exact ih h
    · have hnext : (counterWheel part i).next (counter i) = some (counter i + 1) := if_neg hend
      rw [hnext] at h
      rw [if_neg hend]
      exact Option.some.inj h

theorem advance_of_carry_none (h : carry (counterWheel part) l counter = none) (hl : l.Nodup) :
    advance part l counter = fun i => if i ∈ l then 0 else counter i := by
  induction l generalizing counter with
  | nil => simp [advance]
  | cons i l ih =>
    obtain ⟨hi, hl⟩ := List.nodup_cons.mp hl
    rw [carry] at h
    rw [advance]
    by_cases hend : (part i).length - 1 ≤ counter i + 1
    · have hnext : (counterWheel part i).next (counter i) = none := if_pos hend
      rw [hnext] at h
      rw [if_pos hend]
      refine (ih h hl).trans (funext fun j => ?_)
      rcases eq_or_ne j i with rfl | hne
      · simp [hi, counterWheel]
      · simp [hne]
    · have hnext : (counterWheel part i).next (counter i) = some (counter i + 1) := if_neg hend
      rw [hnext] at h
      cases h

/-- Updating the counters turns their wheels. -/
theorem nextCounter_eq : nextCounter part counter = carry (counterWheel part) (List.finRange d) counter := by
  rw [nextCounter]
  cases h : carry (counterWheel part) (List.finRange d) counter with
  | none =>
    rw [advance_of_carry_none h (List.nodup_finRange d)]
    exact if_pos fun i => if_pos (List.mem_finRange i)
  | some counter' =>
    obtain ⟨i, hi⟩ := carry_ne_zero h
    rw [advance_of_carry h]
    exact if_neg fun hall => hi (hall i)

theorem mem_counters : counter ∈ counters part ↔ ∀ i, counter i = 0 ∨ counter i < (part i).length - 1 := by
  rw [counters, mem_combosOf (List.nodup_finRange d)]
  simp only [List.mem_finRange, forall_const, not_true_eq_false, false_imp_iff, implies_true, and_true,
    counterSteps, List.mem_range, lt_max_iff, Nat.lt_one_iff]

theorem nodup_counters (part : Fin d → List ℤ) : (counters part).Nodup :=
  nodup_combosOf (List.nodup_finRange d) fun _ _ => List.nodup_range

/-- **The main loop goes through all the counters.** -/
theorem visits_counters (part : Fin d → List ℤ) :
    Visits (nextCounter part) (some fun _ => 0) (counters part) none := by
  have h : Visits (carry (counterWheel part) (List.finRange d)) (some fun _ => 0) (counters part) none :=
    visits_carry (List.nodup_finRange d) (fun _ _ => rfl) fun i _ => visits_range _
  exact h.congr fun x _ => nextCounter_eq

/-! ## The blocks -/

open Breaks

variable {t : DirTiling d} {domain b : Box d} {q : Point d} {i : Fin d} {fl : Floats} {typelen : ℕ}
  {bs : List (Box d)}

/-- The decomposition of a dimension is empty or strictly increasing. -/
def Decomposition (t : DirTiling d) : Prop := ∀ i, (t.dimDecomp i).Pairwise (· < ·)

/-- The points of a dimension are in order, and start and end where the domain does. -/
structure Cuts (p : List ℤ) (low high : ℤ) : Prop where
  increasing : Increasing p
  first : p.head? = some low
  last : p.getLast? = some high

theorem cuts_tempDimDecomp (hd : t.Decomposition)
    (h : LimitsMatch (t.dimDecomp i) (domain.low i) (domain.high i)) :
    Cuts (t.tempDimDecomp domain i) (domain.low i) (domain.high i) := by
  rw [tempDimDecomp]
  split
  · refine ⟨⟨List.cons_ne_nil _ _, fun y hy => ?_, List.pairwise_singleton _ _⟩, rfl, rfl⟩
    obtain rfl : y = domain.high i := List.mem_singleton.mp hy
    exact domain.low_le_high i
  · next hne =>
    obtain ⟨hlast, hhead⟩ := h.resolve_left hne
    obtain ⟨a, ps, hp⟩ := List.exists_cons_of_ne_nil hne
    have hpairs := hd i
    rw [hp] at hlast hhead hpairs ⊢
    obtain ⟨ha, hps⟩ := List.pairwise_cons.mp hpairs
    exact ⟨⟨List.cons_ne_nil _ _, fun y hy => (ha y hy).le, hps⟩, hhead, hlast⟩

/-- **The side at a counter** has the positions of that index. -/
theorem Cuts.tileSide {p : List ℤ} {low high : ℤ} (h : Cuts p low high) {c : ℕ} (hc : c = 0 ∨ c < p.length - 1) :
    ∃ s : {s : ℤ × ℤ // s.1 ≤ s.2}, tileSide p c = .ok s ∧
      ∀ x, s.1.1 ≤ x ∧ x ≤ s.1.2 ↔ (low ≤ x ∧ x ≤ high) ∧ index p x = c := by
  obtain ⟨a, ps, rfl⟩ := List.exists_cons_of_ne_nil h.increasing.ne_nil
  obtain rfl : a = low := Option.some.inj h.first
  have hlast : (a :: ps).getLast h.increasing.ne_nil = high := by
    have hlast := h.last
    rw [List.getLast?_eq_some_getLast h.increasing.ne_nil] at hlast
    exact Option.some.inj hlast
  have hc' : c = 0 ∨ c < ps.length := by simpa using hc
  refine ⟨⟨(Breaks.low (a :: ps) c, Breaks.high (a :: ps) c), low_le_high h.increasing c⟩, ?_, fun x => ?_⟩
  · have hin : c < (a :: ps).length := by
      rw [List.length_cons]
      omega
    have horigin : (if c ≠ 0 then (a :: ps).getD c 0 + 1 else (a :: ps).getD c 0) = Breaks.low (a :: ps) c := by
      rw [Breaks.low]
      rcases Nat.eq_zero_or_pos c with rfl | hpos
      · rfl
      · rw [if_pos hpos.ne', if_neg hpos.ne']
    have hle := low_le_high h.increasing c
    rw [DirTiling.tileSide, getPartition, if_pos hin]
    dsimp only [bind, Except.bind]
    rw [horigin]
    by_cases hlen : (a :: ps).length ≤ c + 1
    · have hhigh : Breaks.high (a :: ps) c = Breaks.low (a :: ps) c := if_pos hlen
      rw [if_pos hlen, dif_pos le_rfl]
      exact congrArg Except.ok (Subtype.ext (Prod.ext rfl hhigh.symm))
    · have hhigh : Breaks.high (a :: ps) c = (a :: ps).getD (c + 1) 0 := if_neg hlen
      rw [hhigh] at hle
      rw [if_neg hlen, getPartition, if_pos (not_le.mp hlen)]
      dsimp only
      rw [dif_pos hle]
      exact congrArg Except.ok (Subtype.ext (Prod.ext rfl hhigh.symm))
  · rw [mem_interval_iff h.increasing hc', hlast]

/-- The box at some counters: it has the points of the domain with these indices. -/
def IsBlock (part : Fin d → List ℤ) (domain : Box d) (counter : Fin d → ℕ) (b : Box d) : Prop :=
  ∀ q, q ∈ b ↔ q ∈ domain ∧ ∀ i, index (part i) (q i) = counter i

theorem tileAt_eq_ok (h : ∀ i, Cuts (part i) (domain.low i) (domain.high i)) (hc : counter ∈ counters part) :
    ∃ b, tileAt part counter = .ok b ∧ IsBlock part domain counter b := by
  have hside := fun i => (h i).tileSide (mem_counters.mp hc i)
  choose side hside hmem using hside
  refine ⟨⟨fun i => (side i).1.1, fun i => (side i).1.2, fun i => (side i).2⟩, ?_, fun q => ?_⟩
  · rw [tileAt, ExceptFold.collect_eq_ok hside]
    rfl
  · rw [Box.mem_def, Box.mem_def, ← forall_and]
    exact forall_congr' fun i => hmem i (q i)

/-- The block at some counters. -/
def blockAt (part : Fin d → List ℤ) (domain : Box d) (counter : Fin d → ℕ) : Box d :=
  match tileAt part counter with
  | .ok b => b
  | .error _ => domain

/-- The blocks, in the order of the main loop. -/
def blocks (t : DirTiling d) (domain : Box d) : List (Box d) :=
  (counters (t.tempDimDecomp domain)).map (blockAt (t.tempDimDecomp domain) domain)

theorem isBlock_blockAt (h : ∀ i, Cuts (part i) (domain.low i) (domain.high i)) (hc : counter ∈ counters part) :
    tileAt part counter = .ok (blockAt part domain counter) ∧
      IsBlock part domain counter (blockAt part domain counter) := by
  obtain ⟨b, hb, hblock⟩ := tileAt_eq_ok h hc
  have hat : blockAt part domain counter = b := by
    rw [blockAt, hb]
  rw [hat]
  exact ⟨hb, hblock⟩

/-- The counters of the block that a point of the domain lies in. -/
theorem index_mem_counters (h : ∀ i, Cuts (part i) (domain.low i) (domain.high i)) (hq : q ∈ domain) :
    (fun i => index (part i) (q i)) ∈ counters part := by
  refine mem_counters.mpr fun i => ?_
  obtain ⟨a, ps, hp⟩ := List.exists_cons_of_ne_nil (h i).increasing.ne_nil
  have hi := h i
  rw [hp] at hi ⊢
  obtain rfl : a = domain.low i := Option.some.inj hi.first
  have hlast : (domain.low i :: ps).getLast hi.increasing.ne_nil = domain.high i := by
    have hlast := hi.last
    rw [List.getLast?_eq_some_getLast hi.increasing.ne_nil] at hlast
    exact Option.some.inj hlast
  have hlt := index_lt hi.increasing (x := q i) (by rw [hlast]; exact hq i)
  simpa using hlt

/-- **The blocks tile the domain.** -/
theorem tiles_blockAt (h : ∀ i, Cuts (part i) (domain.low i) (domain.high i)) :
    Tiles domain.region ((counters part).map (blockAt part domain)) := by
  refine ⟨List.pairwise_map.mpr ((nodup_counters part).imp_of_mem fun {c c'} hc hc' hne hi => ?_), fun q => ?_⟩
  · obtain ⟨q, hq, hq'⟩ := Box.intersects_iff.mp hi
    have hindex := (((isBlock_blockAt h hc).2 q).mp hq).2
    have hindex' := (((isBlock_blockAt h hc').2 q).mp hq').2
    exact hne (funext fun i => (hindex i).symm.trans (hindex' i))
  · simp only [List.mem_map, exists_exists_and_eq_and, Box.mem_region]
    constructor
    · intro hq
      have hc := index_mem_counters h hq
      exact ⟨_, hc, ((isBlock_blockAt h hc).2 q).mpr ⟨hq, fun _ => rfl⟩⟩
    · rintro ⟨c, hc, hq⟩
      exact (((isBlock_blockAt h hc).2 q).mp hq).1

/-! ## The tiles -/

/-- The root that gives the edge length is at least one where it is taken of a number that is, and not
above it. -/
def Floats.RootPos (fl : Floats) : Prop := ∀ (edgesize : ℤ) (typelen n : ℕ), 0 < typelen → typelen ≤ edgesize →
  0 < fl.edgeRoot edgesize typelen n ∧ fl.edgeRoot edgesize typelen n ≤ edgesize

/-- The defined sides of a tile leave an edge of at least one cell for the undefined ones, if there are any. -/
def LeavesEdge (t : DirTiling d) (tile : Box d) (typelen : ℕ) : Prop :=
  t.totalUndef = 0 ∨ ∃ edgesize : ℤ, t.edgesize tile typelen = .ok edgesize ∧ typelen ≤ edgesize

/-- No tile that is cut again lacks an edge length. -/
def EdgesLeft (t : DirTiling d) (domain : Box d) (typelen : ℕ) : Prop :=
  t.subTile = true → ∀ b ∈ t.blocks domain, TooLarge t.tileSize typelen b → t.LeavesEdge b typelen

/-- What is computed for the tiles that are cut again stays within 64 bits: their sides, and the grid. -/
def SubtilesFit (fl : Floats) (t : DirTiling d) (domain : Box d) (typelen : ℕ) : Prop :=
  t.subTile = true → ∀ b ∈ t.blocks domain, TooLarge t.tileSize typelen b →
    (∀ i, b.high i - b.low i < 2 ^ 63) ∧ ∀ config, t.partition fl b typelen = .ok config →
      AlignedTiling.TileFits ⟨t.tileSize, typelen, fl.scaledWidth, toRange⟩ config b

theorem edgesize_lt {t : DirTiling d} (htile : t.tileSize < 2 ^ 32) {tile : Box d} {e : ℤ}
    (h : t.edgesize tile typelen = .ok e) : e < 2 ^ 63 := by
  refine ExceptFold.foldlM_inv (P := fun _ e => e < 2 ^ 63) h (by omega) fun _ i _ e e' _ he hstep => ?_
  dsimp only at hstep
  split at hstep
  · exact Except.ok.inj hstep ▸ he
  · split at hstep
    · cases hstep
    · exact Except.ok.inj hstep ▸ (toRange_bounds _).2

theorem partition_eq_ok (hroot : fl.RootPos) (htile : t.tileSize < 2 ^ 32) (hpos : 0 < typelen)
    {tile : Box d} (h : t.LeavesEdge tile typelen) (hsides : ∀ i, tile.high i - tile.low i < 2 ^ 63) :
    ∃ config, t.partition fl tile typelen = .ok config ∧ AlignedTiling.IsConfig config := by
  have hside : ∀ i, toRange (tile.high i - tile.low i) = tile.high i - tile.low i ∧
      0 ≤ tile.high i - tile.low i := fun i => by
    have := tile.low_le_high i
    exact ⟨toRange_of_lt (by omega) (hsides i), by omega⟩
  have hchecked : ∀ high : Fin d → ℤ, (∀ i, 0 ≤ high i ∧ high i < 2 ^ 63) →
      ∃ config : Fin d → Sinterval, (if ∀ i, 0 ≤ high i then .ok fun i => .fixed 0 (high i)
        else .error (.throws .noInterval) : Except Halt (Fin d → Sinterval)) = .ok config ∧
        AlignedTiling.IsConfig config := fun high hhigh =>
    ⟨_, if_pos fun i => (hhigh i).1, fun i _ => ⟨(hhigh i).1, neg_nonpos_of_nonneg (by decide),
      (hhigh i).2⟩⟩
  rw [partition]
  by_cases hundef : t.totalUndef = 0
  · simp only [if_pos hundef, bind, Except.bind]
    refine hchecked _ fun i => ?_
    rw [(hside i).1]
    exact ⟨(hside i).2, hsides i⟩
  · obtain ⟨e, he, hle⟩ := h.resolve_left hundef
    have hedge := hroot e typelen t.totalUndef hpos hle
    have hlt := edgesize_lt htile he
    simp only [if_neg hundef, he, bind, Except.bind]
    refine hchecked _ fun i => ?_
    split
    · rw [toRange_of_lt (by omega) (by omega)]
      omega
    · rw [(hside i).1]
      exact ⟨(hside i).2, hsides i⟩

/-- **A round of the main loop** returns the block, or tiles it. -/
theorem tilesAt_eq_ok (hroot : fl.RootPos ∨ t.subTile = false) (htile : t.tileSize < 2 ^ 32)
    (hpos : 0 < typelen ∨ t.subTile = false) (hrange : domain.InRange ∨ t.subTile = false)
    (h : ∀ i, Cuts (t.tempDimDecomp domain i) (domain.low i) (domain.high i))
    (hc : counter ∈ counters (t.tempDimDecomp domain)) (hedge : t.EdgesLeft domain typelen)
    (hfits : t.SubtilesFit fl domain typelen) :
    ∃ bs, t.tilesAt fl domain typelen counter = .ok bs ∧
      Tiles (blockAt (t.tempDimDecomp domain) domain counter).region bs ∧
      (t.subTile = false → bs = [blockAt (t.tempDimDecomp domain) domain counter]) := by
  obtain ⟨hat, hblock⟩ := isBlock_blockAt h hc
  rw [tilesAt, hat]
  dsimp only [bind, Except.bind]
  split
  · next hlarge =>
    have hmem : blockAt (t.tempDimDecomp domain) domain counter ∈ t.blocks domain :=
      List.mem_map_of_mem hc
    have hsub : ¬t.subTile = false := by simp [hlarge.2]
    obtain ⟨hsides, htilefits⟩ := hfits hlarge.2 _ hmem hlarge.1
    obtain ⟨config, hconfig, hisconfig⟩ := partition_eq_ok (hroot.resolve_right hsub) htile
      (hpos.resolve_right hsub) (hedge hlarge.2 _ hmem hlarge.1) hsides
    have hin : (blockAt (t.tempDimDecomp domain) domain counter).InRange := fun i => by
      have hlow := ((hblock _).mp (Box.low_mem _)).1 i
      have hhigh := ((hblock _).mp (Box.high_mem _)).1 i
      have := hrange.resolve_right hsub i
      omega
    obtain ⟨bs, hbs, htiles⟩ :=
      (AlignedTiling.computeTiles_iff rfl hin hisconfig).mpr (htilefits config hconfig)
    rw [hconfig]
    exact ⟨bs, hbs, htiles, fun hno => absurd hno hsub⟩
  · exact ⟨_, rfl, Tiles.single _, fun _ => rfl⟩

theorem length_counters_le (h : ∀ i, Cuts (part i) (domain.low i) (domain.high i)) :
    (counters part).length ≤ (List.ofFn fun i => (part i).length).prod := by
  rw [counters, length_combosOf, ← List.ofFn_eq_map, List.prod_ofFn, List.prod_ofFn]
  refine Finset.prod_le_prod' fun i _ => ?_
  have hpos := List.length_pos_iff.mpr (h i).increasing.ne_nil
  rw [counterSteps, List.length_range]
  omega

/-- **`compute_tiles` partitions the domain**; without cutting again its tiles are the blocks. -/
theorem computeTiles_blocks (hroot : fl.RootPos ∨ t.subTile = false) (htile : t.tileSize < 2 ^ 32)
    (hpos : 0 < typelen ∨ t.subTile = false) (hrange : domain.InRange ∨ t.subTile = false)
    (hlimits : ∀ i, LimitsMatch (t.dimDecomp i) (domain.low i) (domain.high i)) (hdecomp : t.Decomposition)
    (hedge : t.EdgesLeft domain typelen) (hfits : t.SubtilesFit fl domain typelen) :
    ∃ bs, t.computeTiles fl domain typelen = .ok bs ∧ Tiles domain.region bs ∧
      (t.subTile = false → bs = t.blocks domain) := by
  have hcuts := fun i => cuts_tempDimDecomp hdecomp (hlimits i)
  have hround := fun c hc => @tilesAt_eq_ok d c t domain fl typelen hroot htile hpos hrange hcuts hc hedge hfits
  choose! out hout htiles hplain using hround
  refine ⟨_, (if_pos hlimits).trans (sweep_eq (visits_counters _) (length_counters_le hcuts) hout),
    (tiles_blockAt hcuts).flatMap htiles, fun hno => ?_⟩
  have hsingle : (counters (t.tempDimDecomp domain)).flatMap out =
      (counters (t.tempDimDecomp domain)).flatMap
        fun c => [blockAt (t.tempDimDecomp domain) domain c] :=
    List.flatMap_congr fun c hc => hplain c hc hno
  rw [hsingle, ← List.map_eq_flatMap]
  rfl

/-- The points of a block are on the same side of every point of a decomposition but the first. -/
theorem lt_iff_of_mem_block (hcuts : ∀ i, Cuts (t.tempDimDecomp domain i) (domain.low i) (domain.high i))
    (hb : b ∈ t.blocks domain) {q q' : Point d} (hq : q ∈ b) (hq' : q' ∈ b) {p : ℤ}
    (hp : p ∈ (t.tempDimDecomp domain i).tail) : p < q i ↔ p < q' i := by
  obtain ⟨c, hc, rfl⟩ := List.mem_map.mp hb
  have hblock := (isBlock_blockAt hcuts hc).2
  exact lt_iff_of_index_eq ((((hblock q).mp hq).2 i).trans (((hblock q').mp hq').2 i).symm) hp

/-- **Directional tiling partitions the domain**, if no tile that is cut again lacks an edge length or
coordinates; without cutting again no tile goes across a point of a decomposition but the first one. -/
theorem computeTiles_partition (fl : Floats) (hroot : fl.RootPos) (t : DirTiling d) (htile : t.tileSize < 2 ^ 32)
    (domain : RangeBox d) (typelen : ℕ) (hpos : 0 < typelen) (hcompat : t.IsCompatible domain.toBox typelen)
    (hdecomp : t.Decomposition) (hedge : t.EdgesLeft domain.toBox typelen)
    (hfits : t.SubtilesFit fl domain.toBox typelen) :
    ∃ bs, t.computeTiles fl domain.toBox typelen = .ok bs ∧ Tiles domain.region bs ∧
      (t.subTile = false → ∀ b ∈ bs, ∀ i, ∀ p ∈ (t.dimDecomp i).tail, ¬(b.low i ≤ p ∧ p + 1 ≤ b.high i)) := by
  obtain ⟨bs, hbs, htiles, hplain⟩ := computeTiles_blocks (.inl hroot) htile (.inl hpos)
    (.inl domain.inRange) hcompat.2 hdecomp hedge hfits
  refine ⟨bs, hbs, htiles, fun hno b hb i p hp hcross => ?_⟩
  rw [hplain hno] at hb
  have hne : t.dimDecomp i ≠ [] := fun hnil => by simp [hnil] at hp
  have htemp : t.tempDimDecomp domain.toBox i = t.dimDecomp i := if_neg hne
  have hsame := lt_iff_of_mem_block (fun i => cuts_tempDimDecomp hdecomp (hcompat.2 i)) hb b.low_mem b.high_mem
    (htemp ▸ hp)
  omega

/-- A dimension decomposed at 4, and one that is not; blocks above twenty cells are cut again. -/
def halves : DirTiling 2 := ⟨![[0, 4, 9], []], 20, true⟩

/-- A hundred cells. -/
def hundredCells : Box 2 := ⟨fun _ => 0, fun _ => 9, fun _ => AlignedTiling.zero_le_nine⟩

/-- The width itself, and the quotient, for the floating point functions. -/
def plainFloats : Floats := ⟨fun _ _ _ _ w => w, fun e l _ => e / l⟩

theorem plainFloats_rootPos : plainFloats.RootPos := fun e l _ hl hle => by
  have hpos : (0 : ℤ) < l := Int.natCast_pos.mpr hl
  have hone : 1 ≤ e / l := (Int.le_ediv_iff_mul_le hpos).mpr (by omega)
  exact ⟨hone, Int.ediv_le_self _ (by omega)⟩

theorem halves_isCompatible : halves.IsCompatible hundredCells 1 :=
  ⟨⟨by decide, by decide⟩, by decide⟩

theorem halves_decomposition : halves.Decomposition := fun i => by
  fin_cases i <;> simp [halves]

theorem halves_edgesLeft : halves.EdgesLeft hundredCells 1 := by
  have h : ∀ b ∈ halves.blocks hundredCells, halves.edgesize b 1 = .ok 4 := by
    refine List.forall_mem_cons.mpr ⟨rfl, List.forall_mem_cons.mpr ⟨rfl, nofun⟩⟩
  exact fun _ b hb _ => .inr ⟨4, h b hb, by decide⟩

theorem halves_subtilesFit : halves.SubtilesFit plainFloats hundredCells 1 := by
  have hfits : ∀ b ∈ halves.blocks hundredCells, ∃ config, halves.partition plainFloats b 1 = .ok config ∧
      AlignedTiling.TileFits ⟨20, 1, plainFloats.scaledWidth, toRange⟩ config b :=
    List.forall_mem_cons.mpr ⟨⟨_, rfl, _, rfl, by decide⟩,
      List.forall_mem_cons.mpr ⟨⟨_, rfl, _, rfl, by decide⟩, nofun⟩⟩
  have hsides : ∀ b ∈ halves.blocks hundredCells, ∀ i, b.high i - b.low i < 2 ^ 63 :=
    List.forall_mem_cons.mpr ⟨by decide, List.forall_mem_cons.mpr ⟨by decide, nofun⟩⟩
  refine fun _ b hb _ => ⟨hsides b hb, fun config hconfig => ?_⟩
  obtain ⟨config', hconfig', hfits⟩ := hfits b hb
  obtain rfl := Except.ok.inj (hconfig'.symm.trans hconfig)
  exact hfits

/-- Both halves are cut again, into pieces of four columns and less. -/
theorem computeTiles_partition_halves :
    ∃ bs, halves.computeTiles plainFloats hundredCells 1 = .ok bs ∧ Tiles hundredCells.region bs ∧
      (halves.subTile = false → ∀ b ∈ bs, ∀ i, ∀ p ∈ (halves.dimDecomp i).tail,
        ¬(b.low i ≤ p ∧ p + 1 ≤ b.high i)) :=
  computeTiles_partition plainFloats plainFloats_rootPos halves (by decide)
    ⟨hundredCells, by decide⟩ 1 Nat.one_pos halves_isCompatible halves_decomposition
    halves_edgesLeft halves_subtilesFit

/-- Ten cells, decomposed at their limits. -/
def limitsOnly : DirTiling 1 := ⟨fun _ => [0, 9], 100, false⟩

/-- The only tile of ten cells that are decomposed at 0 and 9 contains the points 0 and 1. -/
theorem tile_across_first_point :
    limitsOnly.subTile = false ∧ limitsOnly.Decomposition ∧
      limitsOnly.IsCompatible AlignedTiling.tenCells 1 ∧
      ∃ bs, limitsOnly.computeTiles plainFloats AlignedTiling.tenCells 1 = .ok bs ∧
        ∃ b ∈ bs, ∃ p ∈ limitsOnly.dimDecomp 0, b.low 0 ≤ p ∧ p + 1 ≤ b.high 0 :=
  ⟨rfl, fun _ => by simp [limitsOnly], ⟨⟨by decide, Nat.one_ne_zero⟩, fun _ => .inr ⟨rfl, rfl⟩⟩, _,
    rfl, _, List.mem_cons_self, 0, List.mem_cons_self, by decide, by decide⟩

end DirTiling

end Rasdaman
