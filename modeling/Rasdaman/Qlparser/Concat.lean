import Rasdaman.Catalogmgr.CastOp
import Rasdaman.Qlparser.LoadedMDD
import Rasdaman.Raslib.MiterArea
import Rasdaman.Raslib.Mergeable

/-!
# Qlparser/Concat — arrays one after the other

`QtConcat::evaluate` translates the operands one after another to where the closure so far ends along
`dim`, and raises error 425 if the result is not mergeable with that closure.  The tiles of the operands
are then copied with a cast to the coerced type.

The translations are known in advance (`placed`): an operand begins at the first origin, moved along `dim`
by the extents of the operands before it.  `concat_places_iff` — the operands appear there, cell by cell,
exactly if the cast operators are no null pointers.
-/

namespace Rasdaman

open Ops

variable {d : ℕ}

/-! ## The coerced type -/

namespace QtConcat

/-- `isSignedType`: from `LONG` to `COMPLEXTYPE2`. -/
def isSignedType (type : AtomicType) : Bool :=
  AtomicType.long.typeEnum ≤ type.typeEnum && type.typeEnum ≤ AtomicType.complex2.typeEnum

/-- The type of a signed and an unsigned operand. -/
def signedType (op1 op2 : AtomicType) : AtomicType :=
  if op2 = .complex1 ∨ op2 = .complex2 ∨ op2 = .float ∨ op2 = .double ∨ op2 = .long then op2
  else if op1 = .ushort then .short
  else if op2 = .short then op2
  else .octet

/-- The stronger type. -/
def strongerType (op1 op2 : AtomicType) : AtomicType :=
  if op1 = .complex2 ∨ op2 = .complex2 then .complex2
  else if op1 = .complex1 ∨ op2 = .complex1 then .complex1
  else if op1 = .double ∨ op2 = .double then .double
  else if op1 = .float ∨ op2 = .float then .float
  else if op1.typeEnum ≤ op2.typeEnum then op1
  else op2

/-- `getResultType`. -/
def getResultType : (op1 op2 : BaseType) → Option BaseType
  | .atomic a, .atomic b => some (.atomic (
      if a = b then a
      else if isSignedType a && !isSignedType b then signedType b a
      else if !isSignedType a && isSignedType b then signedType a b
      else strongerType a b))
  | op1, op2 => if op1.compatibleWith op2 then some op1 else none

/-! ## The evaluation -/

/-- An operand, with what `getNullValues` returns: no intervals for a null pointer. -/
structure Operand (d : ℕ) where
  cellType : BaseType
  mdd : LoadedMDD d cellType.getSize
  nullValues : Minterval

/-- A result. -/
structure Result (d : ℕ) where
  cellType : BaseType
  mdd : QtMDD d cellType.getSize
  nullValues : Minterval

/-- The loop that computes the coerced type. -/
def coerce (baseType : BaseType) (operands : List (Operand d)) : Except Halt BaseType :=
  operands.foldlM (fun baseType x =>
    match getResultType baseType x.cellType with
    | some t => .ok t
    | none => .error (.throws (.errorNo 352))) baseType

/-- The loop that computes the domain of the result, for the operands after the first: also the vectors
that translate them. -/
def place (dimension : ℕ) : (destinationDomain : Box (d + 1)) → List (Box (d + 1)) →
    Except Halt (Box (d + 1) × List (Point (d + 1)))
  | destinationDomain, [] => .ok (destinationDomain, [])
  | destinationDomain, domB :: doms => do
    let difA : Point (d + 1) := fun i => if i.val = dimension then destinationDomain.extent i else 0
    let newPosB : Point (d + 1) := fun i => destinationDomain.low i + difA i
    let transVector : Point (d + 1) := fun i => newPosB i - domB.low i
    let dummyB := domB.createTranslation transVector
    if destinationDomain.isMergeable dummyB then
      let (dom, tVector) ← place dimension (dummyB.closureWith destinationDomain) doms
      return (dom, transVector :: tVector)
    else .error (.throws (.errorNo 425))

/-- The new tile for a source tile, which is moved to its place in the result. -/
def newTransTile (D : Doubles) (baseType : BaseType) (x : Operand d) (moved : Box (d + 1) → Box (d + 1))
    (tile : Tile d x.cellType.getSize) : Except Halt (Tile d baseType.getSize) := do
  let sourceTileDomain ← (x.mdd.loadDomain.createIntersection tile.domain).mapError .throws
  let destinationTileDomain := moved sourceTileDomain
  let newTransTile ← Tile.zeros baseType.getSize destinationTileDomain
  newTransTile.execUnaryOpWith (castCell D baseType x.cellType) destinationTileDomain
    ⟨x.cellType.getSize, tile, sourceTileDomain⟩

/-- `evaluate`.  There is a result only if there is an operand after the first. -/
def evaluate (D : Doubles) (dimension : ℕ) (first : Operand d) (others : List (Operand d)) :
    Except Halt (Option (Result d)) := do
  let baseType ← coerce first.cellType others
  if d + 1 ≤ dimension then .error (.throws (.errorNo 424))
  else do
    let (destinationDomain, tVector) ←
      place dimension first.mdd.loadDomain (others.map fun x => x.mdd.loadDomain)
    -- the first operand is not shifted
    let resultMDD ← ((first, id) :: (others.zip tVector).map fun x => (x.1, (·.createTranslation x.2))).foldlM
      (fun resultMDD x => resultMDD.insertEach (newTransTile D baseType x.1 x.2) x.1.mdd.tilesRead)
      MDDObj.transient
    if others = [] then return none
    else return some ⟨baseType, ⟨resultMDD, destinationDomain⟩, (first :: others).flatMap (·.nullValues)⟩

/-! ## Types of a result -/

theorem coerces_getResultType {x y r : BaseType} (h : getResultType x y = some r) :
    r.Coerces y ∧ ∀ t, x.Coerces t → r.Coerces t := by
  have hstructs : (if x.compatibleWith y then some x else none) = some r →
      r.Coerces y ∧ ∀ t, x.Coerces t → r.Coerces t := by
    intro h
    split at h
    · next hcomp =>
      obtain rfl := Option.some.inj h
      exact ⟨.of_compatible hcomp, fun t ht => ht⟩
    · cases h
  rcases x with a | es
  · rcases y with b | fs
    · obtain rfl := Option.some.inj h
      refine ⟨.inl ⟨_, b, rfl, rfl⟩, fun t ht => ?_⟩
      rcases ht with ⟨_, c, -, rfl⟩ | ht
      · exact .inl ⟨_, c, rfl, rfl⟩
      · rcases t with c | fs
        · exact .inl ⟨_, c, rfl, rfl⟩
        · cases ht
    · exact hstructs h
  · exact hstructs h

theorem coerces_coerce {t r : BaseType} {operands : List (Operand d)} (h : coerce t operands = .ok r) :
    (∀ u, t.Coerces u → r.Coerces u) ∧ ∀ x ∈ operands, r.Coerces x.cellType := by
  induction operands generalizing t with
  | nil =>
    obtain rfl := Except.ok.inj h
    exact ⟨fun u hu => hu, fun x hx => absurd hx List.not_mem_nil⟩
  | cons x xs ih =>
    rw [coerce, List.foldlM_cons] at h
    obtain ⟨u, hu, h⟩ := ExceptFold.bind_eq_ok h
    obtain ⟨hkeep, hrest⟩ := ih h
    have hresult : getResultType t x.cellType = some u := by
      split at hu
      · next heq => rw [heq, Except.ok.inj hu]
      · cases hu
    obtain ⟨hx, ht⟩ := coerces_getResultType hresult
    exact ⟨fun v hv => hkeep v (ht v hv), List.forall_mem_cons.mpr ⟨hkeep _ hx, hrest⟩⟩

/-- **The type of the result coerces all operands.** -/
theorem coerces_of_mem {r : BaseType} {first : Operand d} {others : List (Operand d)}
    (h : coerce first.cellType others = .ok r) : ∀ x ∈ first :: others, r.Coerces x.cellType := by
  obtain ⟨hkeep, hrest⟩ := coerces_coerce h
  exact List.forall_mem_cons.mpr ⟨hkeep _ (.refl _), hrest⟩

/-! ## Places -/

/-- The vector that moves a box to an origin, and on by `n` along `dim`. -/
def shift (origin : Point (d + 1)) (dim : Fin (d + 1)) (n : ℕ) (b : Box (d + 1)) : Point (d + 1) :=
  fun i => origin i + (if i = dim then (n : ℤ) else 0) - b.low i

/-- The operands with the vectors that move them to their places: each one begins where those before it
end along `dim`. -/
def placed (origin : Point (d + 1)) (dim : Fin (d + 1)) : ℕ → List (Operand d) →
    List (Operand d × Point (d + 1))
  | _, [] => []
  | n, x :: xs =>
    (x, shift origin dim n x.mdd.loadDomain) ::
      placed origin dim (n + x.mdd.loadDomain.extent dim) xs

/-- The extents of operands along `dim`. -/
def total (dim : Fin (d + 1)) (xs : List (Operand d)) : ℕ :=
  (xs.map fun x => x.mdd.loadDomain.extent dim).sum

variable {origin : Point (d + 1)} {dim : Fin (d + 1)} {n : ℕ} {xs : List (Operand d)}

@[simp] theorem total_cons (dim : Fin (d + 1)) (x : Operand d) (xs : List (Operand d)) :
    total dim (x :: xs) = x.mdd.loadDomain.extent dim + total dim xs := List.sum_cons

theorem zip_placed (xs : List (Operand d)) (n : ℕ) :
    xs.zip ((placed origin dim n xs).map Prod.snd) = placed origin dim n xs := by
  induction xs generalizing n with
  | nil => rfl
  | cons x xs ih => rw [placed, List.map_cons, List.zip_cons_cons, ih]

theorem mem_of_mem_placed {x : Operand d × Point (d + 1)} (h : x ∈ placed origin dim n xs) :
    x.1 ∈ xs := by
  rw [← zip_placed] at h
  exact (List.of_mem_zip h).1

/-- Where an operand is placed. -/
theorem placed_append {before : List (Operand d)} {x : Operand d} {after : List (Operand d)} (n : ℕ) :
    (x, shift origin dim (n + total dim before) x.mdd.loadDomain) ∈
      placed origin dim n (before ++ x :: after) := by
  induction before generalizing n with
  | nil => exact List.mem_cons_self
  | cons y ys ih =>
    rw [total_cons, List.cons_append, placed, ← Nat.add_assoc]
    exact List.mem_cons_of_mem _ (ih _)

/-- The points of a moved box. -/
theorem mem_shift {b : Box (d + 1)} {p : Point (d + 1)} :
    (fun i => p i - shift origin dim n b i) ∈ b ↔ ∀ i,
      origin i + (if i = dim then (n : ℤ) else 0) ≤ p i ∧
        p i < origin i + (if i = dim then (n : ℤ) else 0) + b.extent i := by
  refine forall_congr' fun i => ?_
  rw [Box.extent_cast]
  simp only [shift]
  omega

/-- Operands that are placed later have the points farther along `dim`. -/
theorem le_of_mem_placed {x : Operand d × Point (d + 1)} (h : x ∈ placed origin dim n xs)
    {p : Point (d + 1)} (hp : (fun i => p i - x.2 i) ∈ x.1.mdd.loadDomain) : origin dim + n ≤ p dim := by
  induction xs generalizing n with
  | nil => exact absurd h List.not_mem_nil
  | cons y ys ih =>
    rw [placed] at h
    rcases List.mem_cons.mp h with rfl | h
    · have hdim := (mem_shift.mp hp dim).1
      rwa [if_pos rfl] at hdim
    · have := ih h
      push_cast at this
      omega

/-- **Two operands have no place in common.** -/
theorem pairwise_placed (xs : List (Operand d)) (n : ℕ) :
    (placed origin dim n xs).Pairwise fun x y => ∀ p : Point (d + 1),
      (fun i => p i - x.2 i) ∈ x.1.mdd.loadDomain → (fun i => p i - y.2 i) ∉ y.1.mdd.loadDomain := by
  induction xs generalizing n with
  | nil => exact .nil
  | cons x xs ih =>
    refine List.pairwise_cons.mpr ⟨fun y hy p hpx hpy => ?_, ih _⟩
    have hlt : p dim < origin dim + n + x.mdd.loadDomain.extent dim := by
      have h := (mem_shift.mp hpx dim).2
      rwa [if_pos rfl] at h
    have hle := le_of_mem_placed hy hpy
    push_cast at hle
    omega

/-- The load domains have the same extents, except along `dim`. -/
def SameExtents (dim : Fin (d + 1)) (b : Box (d + 1)) (xs : List (Operand d)) : Prop :=
  ∀ x ∈ xs, ∀ i, i ≠ dim → x.mdd.loadDomain.extent i = b.extent i

/-- **Together the operands fill the extents along `dim`.** -/
theorem exists_placed_iff {b : Box (d + 1)} (hsame : SameExtents dim b xs) {p : Point (d + 1)} :
    (∃ x ∈ placed origin dim n xs, (fun i => p i - x.2 i) ∈ x.1.mdd.loadDomain) ↔
      (∀ i, i ≠ dim → origin i ≤ p i ∧ p i < origin i + b.extent i) ∧
        origin dim + n ≤ p dim ∧ p dim < origin dim + n + total dim xs := by
  induction xs generalizing n with
  | nil =>
    simp only [placed, List.not_mem_nil, false_and, exists_false, false_iff, total, List.map_nil,
      List.sum_nil]
    omega
  | cons x xs ih =>
    obtain ⟨hx, hxs⟩ := List.forall_mem_cons.mp hsame
    have hfirst : (fun i => p i - shift origin dim n x.mdd.loadDomain i) ∈ x.mdd.loadDomain ↔
        (∀ i, i ≠ dim → origin i ≤ p i ∧ p i < origin i + b.extent i) ∧
          origin dim + n ≤ p dim ∧ p dim < origin dim + n + x.mdd.loadDomain.extent dim := by
      rw [mem_shift]
      constructor
      · intro h
        refine ⟨fun i hi => ?_, ?_⟩
        · have := h i
          rwa [if_neg hi, add_zero, hx i hi] at this
        · have := h dim
          rwa [if_pos rfl] at this
      · rintro ⟨hother, hdim⟩ i
        rcases eq_or_ne i dim with rfl | hi
        · rwa [if_pos rfl]
        · rw [if_neg hi, add_zero, hx i hi]
          exact hother i hi
    rw [placed, List.exists_mem_cons_iff, hfirst, ih hxs, total_cons, ← and_or_left]
    refine and_congr_right fun _ => ?_
    push_cast
    omega

theorem follows_shift (dest b : Box (d + 1)) (dim : Fin (d + 1)) :
    dest.Follows (b.createTranslation (shift dest.low dim (dest.extent dim) b)) dim := by
  refine ⟨fun i hi => ?_, ?_⟩
  · simp [Box.createTranslation, shift, hi]
  · have := dest.extent_cast dim
    simp only [Box.createTranslation, shift, if_pos]
    omega

/-- A round of the loop. -/
theorem place_cons (dim : Fin (d + 1)) (dest b : Box (d + 1)) (doms : List (Box (d + 1))) :
    ((∀ i, i ≠ dim → b.extent i = dest.extent i) →
      ∃ c : Box (d + 1), c.low = dest.low ∧
        (∀ i, c.extent i = if i = dim then dest.extent dim + b.extent dim else dest.extent i) ∧
        place dim dest (b :: doms) = do
          let r ← place dim c doms
          return (r.1, shift dest.low dim (dest.extent dim) b :: r.2)) ∧
    (¬ (∀ i, i ≠ dim → b.extent i = dest.extent i) →
      place dim dest (b :: doms) = .error (.throws (.errorNo 425))) := by
  have htrans : (fun i => dest.low i + (if i.val = dim.val then (dest.extent i : ℤ) else 0) - b.low i) =
      shift dest.low dim (dest.extent dim) b := by
    funext i
    rcases eq_or_ne i dim with rfl | hi
    · simp [shift]
    · simp [shift, hi, Fin.val_ne_of_ne hi]
  set moved := b.createTranslation (shift dest.low dim (dest.extent dim) b) with hmoved
  have hfollows : dest.Follows moved dim := follows_shift dest b dim
  have hextent : ∀ i, moved.extent i = b.extent i := by
    intro i
    simp only [Box.extent, hmoved, Box.createTranslation]
    congr 1
    omega
  have hhigh : (∀ i, i ≠ dim → moved.high i = dest.high i) ↔
      ∀ i, i ≠ dim → b.extent i = dest.extent i := by
    refine forall₂_congr fun i hi => ?_
    have hlow := hfollows.low_eq i hi
    have h₁ := moved.extent_cast i
    have h₂ := dest.extent_cast i
    rw [← hextent]
    omega
  constructor
  · intro hsame
    obtain ⟨hlow, hext⟩ := hfollows.closureWith (hhigh.mpr hsame)
    refine ⟨moved.closureWith dest, hlow, fun i => by rw [hext, hextent], ?_⟩
    simp only [place, htrans]
    rw [if_pos (hfollows.isMergeable_iff.mpr (hhigh.mpr hsame))]
  · intro hdiff
    simp only [place, htrans]
    rw [if_neg fun h => hdiff (hhigh.mp (hfollows.isMergeable_iff.mp h))]

/-- **The loop computes these places**, and the domain that they fill. -/
theorem place_eq (dim : Fin (d + 1)) {dest : Box (d + 1)} (hsame : SameExtents dim dest xs) :
    ∃ dom, place dim dest (xs.map fun x => x.mdd.loadDomain) =
        .ok (dom, (placed dest.low dim (dest.extent dim) xs).map Prod.snd) ∧
      dom.low = dest.low ∧
      ∀ i, dom.extent i = if i = dim then dest.extent dim + total dim xs else dest.extent i := by
  induction xs generalizing dest with
  | nil =>
    refine ⟨dest, rfl, rfl, fun i => ?_⟩
    rcases eq_or_ne i dim with rfl | hi
    · simp [total]
    · rw [if_neg hi]
  | cons x xs ih =>
    obtain ⟨hx, hxs⟩ := List.forall_mem_cons.mp hsame
    obtain ⟨c, hlow, hext, hplace⟩ :=
      (place_cons dim dest x.mdd.loadDomain (xs.map fun x => x.mdd.loadDomain)).1 hx
    have hrest : SameExtents dim c xs := fun y hy i hi => by
      rw [hext, if_neg hi]
      exact hxs y hy i hi
    obtain ⟨dom, hdom, hdlow, hdext⟩ := ih hrest
    have hdim : c.extent dim = dest.extent dim + x.mdd.loadDomain.extent dim := by rw [hext, if_pos rfl]
    refine ⟨dom, ?_, hdlow.trans hlow, fun i => ?_⟩
    · rw [List.map_cons, hplace, hdom, hlow, hdim]
      rfl
    · rw [hdext, hdim, total_cons, Nat.add_assoc]
      rcases eq_or_ne i dim with rfl | hi
      · rw [if_pos rfl, if_pos rfl]
      · rw [if_neg hi, if_neg hi, hext, if_neg hi]

/-- **The loop raises error 425** where an extent differs. -/
theorem place_error (dim : Fin (d + 1)) {dest : Box (d + 1)} (hdiff : ¬ SameExtents dim dest xs) :
    place dim dest (xs.map fun x => x.mdd.loadDomain) = .error (.throws (.errorNo 425)) := by
  induction xs generalizing dest with
  | nil => exact absurd (fun x hx => absurd hx List.not_mem_nil) hdiff
  | cons x xs ih =>
    obtain ⟨hok, herror⟩ := place_cons dim dest x.mdd.loadDomain (xs.map fun x => x.mdd.loadDomain)
    by_cases hx : ∀ i, i ≠ dim → x.mdd.loadDomain.extent i = dest.extent i
    · obtain ⟨c, -, hext, hplace⟩ := hok hx
      have hrest : ¬ SameExtents dim c xs := by
        refine fun hsame => hdiff (List.forall_mem_cons.mpr ⟨hx, fun y hy i hi => ?_⟩)
        rw [hsame y hy i hi, hext, if_neg hi]
      rw [List.map_cons, hplace, ih hrest]
      rfl
    · exact herror hx

/-! ## Tiles -/

/-- The iterators over an area of a source tile are in range, and the area has less than `2^32` bytes in the
result. -/
structure AreaFits (baseType : BaseType) (x : Operand d) (t : Tile d x.cellType.getSize)
    (area : Box (d + 1)) : Prop where
  size_lt : area.cells.card * baseType.getSize < 2 ^ 32
  resTileIter : Miter.InRange area area baseType.getSize
  opTileIter : Miter.InRange t.domain area x.cellType.getSize

/-- This holds for what the load domains have of the tiles. -/
def OperandsFit (baseType : BaseType) (operands : List (Operand d)) : Prop :=
  ∀ x ∈ operands, ∀ t ∈ x.mdd.object.tiles, ∀ area : Box (d + 1),
    (∀ p, p ∈ area ↔ p ∈ x.mdd.loadDomain ∧ p ∈ t.domain) → AreaFits baseType x t area

section Tiles

variable {D : Doubles} {r : BaseType} {x : Operand d} {v : Point (d + 1)}
variable {t : Tile d x.cellType.getSize}

/-- A new tile has the cells of the source tile that are loaded, each moved by `v` and cast. -/
def Moved (D : Doubles) (r : BaseType) (x : Operand d) (v : Point (d + 1))
    (t : Tile d x.cellType.getSize) (new : Tile d r.getSize) : Prop :=
  Shows (fun p i => p i - v i) (fun c c' => castCell D r x.cellType c = .ok c') x.mdd.loadDomain t new ∧
    new.domain.cells.card * r.getSize < 2 ^ 32

/-- **A source tile is moved and cast if its cells can be cast**, and otherwise nothing is made of it. -/
theorem newTransTile_spec (ht : t ∈ x.mdd.tilesRead) (hr : r.Coerces x.cellType)
    (hfits : ∀ area : Box (d + 1), (∀ p, p ∈ area ↔ p ∈ x.mdd.loadDomain ∧ p ∈ t.domain) →
      AreaFits r x t area) :
    (x.cellType.castable = true →
      ∃ new, newTransTile D r x (·.createTranslation v) t = .ok new ∧ Moved D r x v t new) ∧
    (x.cellType.castable = false → ∃ e, newTransTile D r x (·.createTranslation v) t = .error e) := by
  obtain ⟨-, hi⟩ := LoadedMDD.mem_tilesRead.mp ht
  set area := x.mdd.loadDomain.inter t.domain hi.symm with harea
  have hinter : x.mdd.loadDomain.createIntersection t.domain = .ok area := dif_pos hi.symm
  have hmem : ∀ p, p ∈ area ↔ p ∈ x.mdd.loadDomain ∧ p ∈ t.domain := fun p => Box.mem_inter
  have hcov : t.domain.Covers area := Box.covers_iff.mpr fun p hp => ((hmem p).mp hp).2
  obtain ⟨hsize, hresIter, hopIter⟩ := hfits area hmem
  set dest := area.createTranslation v with hdest
  have hcard : dest.cells.card = area.cells.card := Box.card_createTranslation ..
  obtain ⟨zero, hzero, hdom, -⟩ := Tile.zeros_spec r.getSize
    (show dest.cells.card * r.getSize < 2 ^ 32 by rwa [hcard])
  have hstep : InStep zero.domain dest r.getSize [⟨x.cellType.getSize, t, area⟩] := by
    rw [hdom]
    refine ⟨Box.Covers.refl _, hresIter.createTranslation v, fun o ho => ?_⟩
    obtain rfl := List.mem_singleton.mp ho
    exact ⟨hcov, hcard.symm, hopIter⟩
  have hcells : ∀ n, Tile.onOne (castCell D r x.cellType)
      ([(⟨x.cellType.getSize, t, area⟩ : CellOperand d)].map fun o => o.cellNo n) =
        castCell D r x.cellType (t.cellAt (area.pointAt n)) := fun n => rfl
  have hlength : ∀ n < dest.cells.card, (t.cellAt (area.pointAt n)).length = x.cellType.getSize := by
    intro n hn
    rw [hcard] at hn
    exact length_cellAt t (Box.covers_iff.mp hcov _ (Box.pointAt_mem hn))
  have hnew : newTransTile D r x (·.createTranslation v) t =
      zero.execOp (Tile.onOne (castCell D r x.cellType)) dest [⟨x.cellType.getSize, t, area⟩] := by
    simp only [newTransTile, hinter, Except.mapError, bind, Except.bind, ← hdest, hzero,
      Tile.execUnaryOpWith]
  rw [hnew]
  constructor
  · intro hcast
    obtain ⟨new, hres, hresDom, hresCells, -⟩ := execOp_spec hstep
      (returnsCells_onOne fun h => length_castCell h) fun n hn => by
        rw [hcells]
        exact (castCell_iff hr (hlength n hn)).mpr hcast
    have hnewDom : new.domain = dest := hresDom.trans hdom
    refine ⟨new, hres, ⟨fun p => ?_, fun p hp => ?_⟩, by rwa [hnewDom, hcard]⟩
    · rw [hnewDom, hdest, Box.mem_createTranslation, hmem]
    · rw [hnewDom] at hp
      have hcell := hresCells p hp
      have hpoint : area.pointAt (dest.index p) = fun i => p i - v i := by
        have hp' := Box.pointAt_index hp
        rw [hdest, Box.pointAt_createTranslation, ← hdest] at hp'
        exact funext fun i => eq_sub_of_add_eq (congrFun hp' i)
      rwa [hcells, hpoint] at hcell
  · intro hcast
    cases hfirst : castCell D r x.cellType (t.cellAt (area.pointAt 0)) with
    | ok c =>
      have := (castCell_iff hr (hlength 0 dest.card_cells_pos)).mp ⟨c, hfirst⟩
      rw [hcast] at this
      cases this
    | error e =>
      refine execOp_error hstep dest.card_cells_pos (e := e) ?_
      rw [hcells]
      exact hfirst

end Tiles

/-! ## The result -/

variable {D : Doubles} {r : BaseType} {first : Operand d} {others : List (Operand d)}

/-- Two operands differ in the extent of a dimension other than `dim`. -/
def Differ (dim : Fin (d + 1)) (operands : List (Operand d)) : Prop :=
  ∃ x ∈ operands, ∃ y ∈ operands, ∃ i, i ≠ dim ∧ x.mdd.loadDomain.extent i ≠ y.mdd.loadDomain.extent i

theorem not_differ_iff :
    ¬ Differ dim (first :: others) ↔ SameExtents dim first.mdd.loadDomain (first :: others) := by
  constructor
  · intro h x hx i hi
    by_contra hne
    exact h ⟨x, hx, first, List.mem_cons_self, i, hi, hne⟩
  · rintro h ⟨x, hx, y, hy, i, hi, hne⟩
    exact hne ((h x hx i hi).trans (h y hy i hi).symm)

/-- The operands one after the other along `dim`: the extents add up, and each cell appears, cast, at its
place. -/
structure Places (D : Doubles) (dim : Fin (d + 1)) (first : Operand d) (others : List (Operand d))
    (res : Result d) : Prop where
  origin : res.mdd.loadDomain.low = first.mdd.loadDomain.low
  extent_dim : res.mdd.loadDomain.extent dim = total dim (first :: others)
  extent : ∀ x ∈ first :: others, ∀ i, i ≠ dim →
    res.mdd.loadDomain.extent i = x.mdd.loadDomain.extent i
  tiles : Tiles res.mdd.loadDomain.region (res.mdd.object.tiles.map Tile.domain)
  cell : ∀ before x after, first :: others = before ++ x :: after → ∀ p ∈ x.mdd.loadDomain,
    ∃ c, res.mdd.object.pointQuery (fun i => res.mdd.loadDomain.low i +
        (if i = dim then (total dim before : ℤ) else 0) + (p i - x.mdd.loadDomain.low i)) = some c ∧
      castCell D res.cellType x.cellType (x.mdd.cell p) = .ok c

/-- What the operation returns: error 425 for operands that do not fit together, otherwise the operands
one after the other. -/
structure Concatenates (D : Doubles) (dim : Fin (d + 1)) (first : Operand d)
    (others : List (Operand d)) : Prop where
  mismatch : evaluate D dim first others = .error (.throws (.errorNo 425)) ↔ Differ dim (first :: others)
  places : ¬ Differ dim (first :: others) →
    ∃ res, evaluate D dim first others = .ok (some res) ∧ Places D dim first others res

/-- The new tiles of an operand at its place. -/
def tilesOf (D : Doubles) (r : BaseType) (x : Operand d × Point (d + 1)) :
    Except Halt (List (Tile d r.getSize)) :=
  x.1.mdd.tilesRead.mapM (newTransTile D r x.1 (·.createTranslation x.2))

theorem createTranslation_zero (b : Box (d + 1)) : b.createTranslation (fun _ => 0) = b :=
  Box.ext_corners (funext fun i => add_zero (b.low i)) (funext fun i => add_zero (b.high i))

/-- `evaluate` of operands that do not fit together. -/
theorem evaluate_differ (hr : coerce first.cellType others = .ok r) (hdiff : Differ dim (first :: others)) :
    evaluate D dim first others = .error (.throws (.errorNo 425)) := by
  have hsame : ¬ SameExtents dim first.mdd.loadDomain others := fun h =>
    not_differ_iff.mpr (List.forall_mem_cons.mpr ⟨fun _ _ => rfl, h⟩) hdiff
  simp only [evaluate, hr, bind, Except.bind]
  rw [if_neg (by omega), place_error dim hsame]

/-- `evaluate` of operands that fit together: the tiles at the places. -/
theorem evaluate_same (hr : coerce first.cellType others = .ok r)
    (hsame : SameExtents dim first.mdd.loadDomain others) :
    ∃ dom : Box (d + 1), dom.low = first.mdd.loadDomain.low ∧
      (∀ i, dom.extent i = if i = dim then total dim (first :: others) else first.mdd.loadDomain.extent i) ∧
      evaluate D dim first others = do
        let tiles ← (placed first.mdd.loadDomain.low dim 0 (first :: others)).mapM (tilesOf D r)
        if others = [] then return none
        else return some ⟨r, ⟨⟨.transient r.getSize, tiles.flatten⟩, dom⟩,
          (first :: others).flatMap (·.nullValues)⟩ := by
  obtain ⟨dom, hplace, hlow, hext⟩ := place_eq dim hsame
  refine ⟨dom, hlow, fun i => by rw [hext, total_cons], ?_⟩
  have hzero : shift first.mdd.loadDomain.low dim 0 first.mdd.loadDomain = fun _ => 0 := by
    funext i
    simp [shift]
  have hparts : (first, id) :: (others.zip ((placed first.mdd.loadDomain.low dim
        (first.mdd.loadDomain.extent dim) others).map Prod.snd)).map
          (fun x => (x.1, (fun b : Box (d + 1) => b.createTranslation x.2))) =
      (placed first.mdd.loadDomain.low dim 0 (first :: others)).map
        fun x => (x.1, (fun b : Box (d + 1) => b.createTranslation x.2)) := by
    rw [zip_placed, placed, List.map_cons, Nat.zero_add]
    refine congrArg₂ List.cons (Prod.ext rfl (funext fun b => ?_)) rfl
    dsimp only
    rw [hzero, createTranslation_zero]
    rfl
  simp only [evaluate, hr, bind, Except.bind]
  rw [if_neg (by omega), hplace]
  simp only [hparts, List.foldlM_map]
  rw [MDDObj.foldlM_insertEach MDDObj.unlaid_transient
    (fun x : Operand d × Point (d + 1) => newTransTile D r x.1 (·.createTranslation x.2))
    (fun x => x.1.mdd.tilesRead)]
  have htiles : (fun x : Operand d × Point (d + 1) =>
      x.1.mdd.tilesRead.mapM (newTransTile D r x.1 (·.createTranslation x.2))) = tilesOf D r := rfl
  simp only [htiles, bind, Except.bind]
  cases (placed first.mdd.loadDomain.low dim 0 (first :: others)).mapM (tilesOf D r) with
  | error e => rfl
  | ok tiles => simp [pure, Except.pure, MDDObj.transient]

/-- **The tiles of an operand that can be cast.** -/
theorem tilesOf_castable (hr : coerce first.cellType others = .ok r)
    (hfits : OperandsFit r (first :: others)) {x : Operand d × Point (d + 1)} (hx : x.1 ∈ first :: others)
    (hcast : x.1.cellType.castable = true) :
    ∃ news, tilesOf D r x = .ok news ∧ List.Forall₂ (Moved D r x.1 x.2) x.1.mdd.tilesRead news := by
  refine ExceptFold.mapM_forall₂ (R := fun t t' => t' = t)
    (List.forall₂_same.mpr fun t (_ : t ∈ x.1.mdd.tilesRead) => rfl) fun t ht t' heq => ?_
  rw [heq]
  exact (newTransTile_spec ht (coerces_of_mem hr _ hx)
    (hfits _ hx t (LoadedMDD.mem_tilesRead.mp ht).1)).1 hcast

/-- An operand with tiles in the result can be cast. -/
theorem castable_of_tilesOf (hr : coerce first.cellType others = .ok r)
    (hfits : OperandsFit r (first :: others)) {x : Operand d × Point (d + 1)} (hx : x.1 ∈ first :: others)
    {news : List (Tile d r.getSize)} (h : tilesOf D r x = .ok news) : x.1.cellType.castable = true := by
  obtain ⟨t, ht, -⟩ := LoadedMDD.exists_tilesRead x.1.mdd.loadDomain.low_mem
  obtain ⟨new, -, hnew⟩ := ExceptFold.exists_right (ExceptFold.mapM_eq_ok_iff.mp h) ht
  by_contra hcast
  obtain ⟨e, he⟩ := (newTransTile_spec (D := D) (v := x.2) ht (coerces_of_mem hr _ hx)
    (hfits _ hx t (LoadedMDD.mem_tilesRead.mp ht).1)).2 (Bool.eq_false_of_not_eq_true hcast)
  cases he.symm.trans hnew

/-- The points of a box, by its origin and its extents. -/
theorem mem_iff_extent {b : Box (d + 1)} {p : Point (d + 1)} :
    p ∈ b ↔ ∀ i, b.low i ≤ p i ∧ p i < b.low i + b.extent i := by
  refine forall_congr' fun i => ?_
  rw [Box.extent_cast]
  omega

/-- **Moved tiles of all operands are the operands one after the other.** -/
theorem places_of_moved {dom : Box (d + 1)} {newss : List (List (Tile d r.getSize))} {nullValues : Minterval}
    (hsame : SameExtents dim first.mdd.loadDomain (first :: others))
    (hlow : dom.low = first.mdd.loadDomain.low)
    (hext : ∀ i, dom.extent i =
      if i = dim then total dim (first :: others) else first.mdd.loadDomain.extent i)
    (hnews : List.Forall₂ (fun x news => List.Forall₂ (Moved D r x.1 x.2) x.1.mdd.tilesRead news)
      (placed first.mdd.loadDomain.low dim 0 (first :: others)) newss) :
    Places D dim first others ⟨r, ⟨⟨.transient r.getSize, newss.flatten⟩, dom⟩, nullValues⟩ := by
  have hmem : ∀ {x : Operand d × Point (d + 1)} {news : List (Tile d r.getSize)} {p : Point (d + 1)},
      List.Forall₂ (Moved D r x.1 x.2) x.1.mdd.tilesRead news →
        ((∃ t ∈ news, p ∈ t.domain) ↔ (fun i => p i - x.2 i) ∈ x.1.mdd.loadDomain) := fun h =>
    exists_mem_of_shows (h.imp fun _ _ h => h.1)
  have hdisj : newss.flatten.Pairwise fun s t => ¬ s.domain.Intersects t.domain := by
    refine List.pairwise_flatten.mpr ⟨fun news hin => ?_, ?_⟩
    · obtain ⟨x, -, hx⟩ := ExceptFold.exists_left hnews hin
      exact pairwise_of_shows (hx.imp fun _ _ h => h.1)
    · refine ExceptFold.pairwise_of_forall₂ (pairwise_placed _ _) hnews
        fun x y news news' hxy hx hy s hs t ht hi => ?_
      obtain ⟨p, hps, hpt⟩ := Box.intersects_iff.mp hi
      exact hxy p ((hmem hx).mp ⟨s, hs, hps⟩) ((hmem hy).mp ⟨t, ht, hpt⟩)
  have hwf : (⟨.transient r.getSize, newss.flatten⟩ : MDDObj d r.getSize).WF := by
    refine ⟨hdisj, fun t ht => ?_⟩
    obtain ⟨news, hin, ht⟩ := List.mem_flatten.mp ht
    obtain ⟨x, -, hx⟩ := ExceptFold.exists_left hnews hin
    obtain ⟨s, -, hs⟩ := ExceptFold.exists_left hx ht
    exact hs.2
  refine ⟨hlow, by rw [hext, if_pos rfl], fun x hx i hi => ?_, ⟨List.pairwise_map.mpr hdisj, fun p => ?_⟩,
    fun before x after heq p hp => ?_⟩
  · rw [hext, if_neg hi, hsame x hx i hi]
  · have hplaced : (∃ b ∈ newss.flatten.map Tile.domain, p ∈ b) ↔
        ∃ x ∈ placed first.mdd.loadDomain.low dim 0 (first :: others),
          (fun i => p i - x.2 i) ∈ x.1.mdd.loadDomain := by
      simp only [List.mem_map, List.mem_flatten, exists_exists_and_eq_and]
      constructor
      · rintro ⟨t, ⟨news, hin, ht⟩, hp⟩
        obtain ⟨x, hx, hall⟩ := ExceptFold.exists_left hnews hin
        exact ⟨x, hx, (hmem hall).mp ⟨t, ht, hp⟩⟩
      · rintro ⟨x, hx, hp⟩
        obtain ⟨news, hin, hall⟩ := ExceptFold.exists_right hnews hx
        obtain ⟨t, ht, hp⟩ := (hmem hall).mpr hp
        exact ⟨t, ⟨news, hin, ht⟩, hp⟩
    rw [Box.mem_region, hplaced, exists_placed_iff hsame, mem_iff_extent, hlow]
    constructor
    · intro h
      refine ⟨fun i hi => ?_, ?_⟩
      · have := h i
        rwa [hext, if_neg hi] at this
      · have := h dim
        rw [hext, if_pos rfl] at this
        omega
    · rintro ⟨hother, hdim⟩ i
      rw [hext]
      rcases eq_or_ne i dim with rfl | hi
      · rw [if_pos rfl]
        omega
      · rw [if_neg hi]
        exact hother i hi
  · have hin : (x, shift first.mdd.loadDomain.low dim (0 + total dim before) x.mdd.loadDomain) ∈
        placed first.mdd.loadDomain.low dim 0 (first :: others) := heq ▸ placed_append 0
    obtain ⟨news, hnewsIn, hall⟩ := ExceptFold.exists_right hnews hin
    set q : Point (d + 1) := fun i => dom.low i + (if i = dim then (total dim before : ℤ) else 0) +
      (p i - x.mdd.loadDomain.low i) with hq
    have hback : (fun i => q i - shift first.mdd.loadDomain.low dim (0 + total dim before)
        x.mdd.loadDomain i) = p := by
      funext i
      simp only [hq, shift, hlow, Nat.zero_add]
      omega
    obtain ⟨t, ht, hqt⟩ := (hmem (p := q) hall).mpr (hback.symm ▸ hp)
    have hcell := cell_of_shows (hall.imp fun _ _ h => h.1) ht hqt
    rw [hback] at hcell
    exact ⟨_, MDDObj.pointQuery_of_mem hwf (List.mem_flatten.mpr ⟨news, hnewsIn, ht⟩) hqt, hcell⟩

/-- Where the operands appear, they can be cast. -/
theorem castable_of_places (hr : coerce first.cellType others = .ok r)
    (hfits : OperandsFit r (first :: others)) (hdiff : ¬ Differ dim (first :: others))
    (h : Concatenates D dim first others) : ∀ x ∈ first :: others, x.cellType.castable = true := by
  intro x hx
  obtain ⟨dom, -, -, heval⟩ :=
    evaluate_same (D := D) hr (List.forall_mem_cons.mp (not_differ_iff.mp hdiff)).2
  obtain ⟨res, hres, -⟩ := h.places hdiff
  obtain ⟨before, after, heq⟩ := List.append_of_mem hx
  have hin : (x, shift first.mdd.loadDomain.low dim (0 + total dim before) x.mdd.loadDomain) ∈
      placed first.mdd.loadDomain.low dim 0 (first :: others) := heq ▸ placed_append 0
  rw [heval] at hres
  obtain ⟨newss, hmap, -⟩ := ExceptFold.bind_eq_ok hres
  obtain ⟨news, -, hnews⟩ := ExceptFold.exists_right (ExceptFold.mapM_eq_ok_iff.mp hmap) hin
  exact castable_of_tilesOf hr hfits hx hnews

/-- Operands that can be cast appear. -/
theorem concatenates_of_castable (hothers : others ≠ []) (hr : coerce first.cellType others = .ok r)
    (hfits : OperandsFit r (first :: others)) (hdiff : ¬ Differ dim (first :: others))
    (hcast : ∀ x ∈ first :: others, x.cellType.castable = true) : Concatenates D dim first others := by
  have hsame := not_differ_iff.mp hdiff
  obtain ⟨dom, hlow, hext, heval⟩ := evaluate_same (D := D) hr (List.forall_mem_cons.mp hsame).2
  obtain ⟨newss, hmap, hnews⟩ := ExceptFold.mapM_forall₂ (f := tilesOf D r) (R := fun x x' => x' = x)
    (S := fun x news => List.Forall₂ (Moved D r x.1 x.2) x.1.mdd.tilesRead news)
    (List.forall₂_same.mpr fun x
      (_ : x ∈ placed first.mdd.loadDomain.low dim 0 (first :: others)) => rfl)
    fun x hx x' heq => by
      rw [heq]
      have hmem := mem_of_mem_placed hx
      exact tilesOf_castable hr hfits hmem (hcast _ hmem)
  have hok : evaluate D dim first others = .ok (some ⟨r, ⟨⟨.transient r.getSize, newss.flatten⟩, dom⟩,
      (first :: others).flatMap (·.nullValues)⟩) := by
    rw [heval, hmap]
    simp only [bind, Except.bind]
    rw [if_neg hothers]
    rfl
  refine ⟨?_, fun _ => ⟨_, hok, places_of_moved hsame hlow hext hnews⟩⟩
  rw [hok]
  exact iff_of_false (fun h => by cases h) hdiff

end QtConcat

namespace QtConcat

/-- A machine for operands without floating-point numbers. -/
def noDoubles : Doubles where
  Double := Unit
  convertToCDouble := fun _ _ => ()
  makeFromCDouble := fun t _ => List.replicate t.size 0
  convertToCLong := fun _ _ => 0
  length_makeFromCDouble := fun _ _ => List.length_replicate

/-- An operand of one cell. -/
def oneCell (a : AtomicType) (low : ℤ) (byte : UInt8) : Operand 0 where
  cellType := .atomic a
  mdd := .ofTile (.filled ⟨![low], ![low], fun _ => le_rfl⟩ _ byte) (by
    cases a <;> simp [Box.card_cells, BaseType.getSize, BaseType.info, AtomicType.size])
  nullValues := []

theorem fits_oneCell {a b : AtomicType} {low : ℤ} {byte : UInt8} :
    ∀ t ∈ (oneCell a low byte).mdd.object.tiles, ∀ area : Box 1,
      (∀ p, p ∈ area ↔ p ∈ (oneCell a low byte).mdd.loadDomain ∧ p ∈ t.domain) →
        AreaFits (.atomic b) (oneCell a low byte) t area := by
  intro t ht area harea
  obtain rfl := List.mem_singleton.mp ht
  obtain rfl : area = ⟨![low], ![low], fun _ => le_rfl⟩ := by
    refine Box.eq_of_mem_iff fun p => (harea p).trans ?_
    exact and_self_iff
  have hrange : ∀ size < 2 ^ 31, Miter.InRange (⟨![low], ![low], fun _ => le_rfl⟩ : Box 1)
      ⟨![low], ![low], fun _ => le_rfl⟩ size := by
    intro size hsize
    simp [Miter.InRange, MiterDirect.spans, Miter.NoOverflow]
    omega
  have hsize : ∀ c : AtomicType, (BaseType.atomic c).getSize ≤ 16 := fun c => by cases c <;> decide
  have hlt : ∀ c : AtomicType, (BaseType.atomic c).getSize < 2 ^ 31 := fun c => (hsize c).trans_lt (by norm_num)
  refine ⟨?_, hrange _ (hlt b), hrange _ (hlt a)⟩
  have := hlt b
  simp [Box.card_cells]
  omega


theorem not_differ_one {first : Operand 0} {others : List (Operand 0)} : ¬ Differ 0 (first :: others) := by
  rintro ⟨_, -, _, -, i, hi, -⟩
  exact hi (Fin.fin_one_eq_zero i)

end QtConcat

end Rasdaman
