import Rasdaman.Machinery.Machine
import Rasdaman.Raslib.Miterd

/-!
# Raslib/MiterStep — `r_MiterDirect` with a step

The iterator of `Raslib/Miterd` with all that its constructor takes: the dimensions keep two strides,
`baseStep` between neighbouring points and `step` between the points that `++` visits, and the
position can be set from outside.  The constructor counts its offset in an `r_Range` of 64 bits,
`reset` in an `r_ULong` of 32.  `in_step_of_run`: position and address stay in step along every run
that sets the position where the two strides agree, resets where the first cell lies below 2^32
bytes, and carries only over dimensions that were last set to their `low`.
-/

namespace Rasdaman

open MiterDirect

/-- `r_miter_direct_data`. -/
structure MiterStepDim where
  low : ℤ
  high : ℤ
  pos : ℤ
  origin : ℤ
  extent : ℤ
  baseStep : ℤ
  step : ℤ
  data : ℤ
  deriving DecidableEq

/-- `r_MiterDirect`; the dimensions stand in reverse order, the last one first. -/
structure MiterStep where
  id : List MiterStepDim
  done : Bool
  baseAddress : ℤ
  length : ℤ
  deriving DecidableEq

namespace MiterStep

/-- The first loop of the constructor: the dimensions, without their addresses, and the offset. -/
def setup (step : ℕ) : (s : ℤ) → List MiterSpan → List MiterStepDim × ℤ
  | _, [] => ([], 0)
  | s, sp :: sps =>
    let rest := setup step (s * sp.extent) sps
    (⟨sp.low, sp.high, sp.low, sp.origin, sp.extent, s, s * step, 0⟩ :: rest.1,
      s * (sp.low - sp.origin) + rest.2)

/-- The constructor. -/
def create {d : ℕ} (data : ℤ) (total iter : Box d) (tlen step : ℕ) : MiterStep :=
  let r := setup step tlen (spans total iter)
  ⟨r.1.map fun a => { a with data := data + r.2 }, false, data, step⟩

/-- `getData`. -/
def getData (it : MiterStep) : ℤ := (it.id.head?.map (·.data)).getD 0

/-- The loops of `++` from one dimension down: the dimensions, and whether all of them overflowed. -/
def incr (length : ℤ) : List MiterStepDim → List MiterStepDim × Bool
  | [] => ([], true)
  | a :: as =>
    if a.pos + length ≤ a.high then
      ({ a with pos := a.pos + length, data := a.data + a.step } :: as, false)
    else
      let r := incr length as
      if r.2 then ({ a with pos := a.low, data := a.data + a.step } :: r.1, true)
      else ({ a with pos := a.low, data := (r.1.head?.map (·.data)).getD 0 } :: r.1, false)

/-- `operator++`. -/
def next (it : MiterStep) : MiterStep :=
  let r := incr it.length it.id
  { it with id := r.1, done := it.done || r.2 }

/-- The first loop of `reset`, from the first dimension on: `offset` is an `r_ULong`. -/
def resetOffset (id : List MiterStepDim) : ℤ :=
  id.foldr (fun a offset => (offset + a.step * (a.low - a.origin)) % 2 ^ 32) 0

/-- `reset`. -/
def reset (it : MiterStep) : MiterStep :=
  let offset := resetOffset it.id
  { it with
    id := it.id.map fun a => { a with pos := a.low, data := it.baseAddress + offset }
    done := false }

/-- `posChanged`. -/
def posChanged (it : MiterStep) : MiterStep :=
  let offset := (it.id.map fun a => a.step * (a.pos - a.origin)).sum
  { it with id := it.id.map fun a => { a with data := it.baseAddress + offset } }

/-- A change of the `id[i].pos`, in the order of `id`. -/
def setPos (it : MiterStep) (pos : List ℤ) : MiterStep :=
  { it with id := List.zipWith (fun a p => { a with pos := p }) it.id pos }

/-- The current position. -/
def position (it : MiterStep) : List ℤ := (it.id.map (·.pos)).reverse

/-! ## With step 1 -/

/-- What the iterator of `Raslib/Miterd` keeps. -/
def toDirect (it : MiterStep) : MiterDirect :=
  ⟨it.id.map fun a => ⟨a.low, a.high, a.pos, a.step, a.data⟩, it.done⟩

theorem setup_one (s : ℤ) (sps : List MiterSpan) :
    (setup 1 s sps).1.map (fun a => (⟨a.low, a.high, a.pos, a.step, a.data⟩ : MiterDim)) =
      (MiterDirect.setup s sps).1 ∧ (setup 1 s sps).2 = (MiterDirect.setup s sps).2 := by
  induction sps generalizing s with
  | nil => exact ⟨rfl, rfl⟩
  | cons sp sps ih =>
    obtain ⟨hdims, hoff⟩ := ih (s * sp.extent)
    simp only [setup, MiterDirect.setup, List.map_cons, hdims, hoff, Nat.cast_one, mul_one]
    exact ⟨trivial, trivial⟩

/-- The constructor with step 1 is the one of `Raslib/Miterd`. -/
theorem toDirect_create {d : ℕ} (total iter : Box d) (tlen : ℕ) :
    (create 0 total iter tlen 1).toDirect = make total iter tlen := by
  obtain ⟨hdims, hoff⟩ := setup_one tlen (spans total iter)
  simp only [toDirect, create, make, ← hdims, ← hoff, List.map_map, zero_add]
  rfl

theorem map_incr_one (id : List MiterStepDim) :
    MiterDirect.incr (id.map fun a => ⟨a.low, a.high, a.pos, a.step, a.data⟩) =
      ((incr 1 id).1.map fun a => ⟨a.low, a.high, a.pos, a.step, a.data⟩, (incr 1 id).2) := by
  induction id with
  | nil => rfl
  | cons a as ih =>
    have hhead : ∀ l : List MiterStepDim,
        (l.map fun a => (⟨a.low, a.high, a.pos, a.step, a.data⟩ : MiterDim)).head?.map (·.data) =
          l.head?.map (·.data) := fun l => by rw [List.head?_map, Option.map_map]; rfl
    rw [List.map_cons, MiterDirect.incr, incr, ih]
    simp only [hhead]
    split
    · rfl
    · split
      · rfl
      · rfl

/-- `++` with step 1 is the one of `Raslib/Miterd`. -/
theorem toDirect_next {it : MiterStep} (h : it.length = 1) : it.next.toDirect = it.toDirect.next := by
  rw [toDirect, next, MiterDirect.next, h]
  simp only [toDirect, map_incr_one]

/-! ## The state at a position -/

/-- A dimension with its coordinate, and the coordinate where it was last set from outside or by
`reset`. -/
structure Stand extends MiterSpan where
  pos : ℤ
  set : ℤ

/-- The offset of a position; `s` bytes lie between two points of the first dimension of the list. -/
def offsetOf : (s : ℤ) → List Stand → ℤ
  | _, [] => 0
  | s, a :: as => s * (a.pos - a.origin) + offsetOf (s * a.extent) as

/-- The dimensions at a position; the address of each counts the dimensions before it in the list where
they were last set. -/
def placedAt (length : ℤ) : (s c : ℤ) → List Stand → List MiterStepDim
  | _, _, [] => []
  | s, c, a :: as =>
    ⟨a.low, a.high, a.pos, a.origin, a.extent, s, s * length, c + offsetOf s (a :: as)⟩ ::
      placedAt length (s * a.extent) (c + s * (a.set - a.origin)) as

/-- `++` on positions. -/
def moveOn (length : ℤ) : List Stand → List Stand
  | [] => []
  | a :: as =>
    if a.pos + length ≤ a.high then { a with pos := a.pos + length } :: as
    else { a with pos := a.low } :: moveOn length as

/-- `++` does not go past the end, and carries only over dimensions that were last set to `low`; the
coordinates where they were last set stand in the order of `id`. -/
def Carries (length : ℤ) : List MiterStepDim → List ℤ → Prop
  | a :: as, set :: sets => a.pos + length ≤ a.high ∨ set = a.low ∧ Carries length as sets
  | _, _ => False

variable {length s c : ℤ} {as as' : List Stand}

theorem head_placedAt (h : as ≠ []) :
    ((placedAt length s c as).head?.map (·.data)).getD 0 = c + offsetOf s as := by
  obtain ⟨a, as, rfl⟩ := List.exists_cons_of_ne_nil h
  rfl

theorem moveOn_ne_nil (h : as ≠ []) : moveOn length as ≠ [] := by
  obtain ⟨a, as, rfl⟩ := List.exists_cons_of_ne_nil h
  rw [moveOn]
  split
  · exact List.cons_ne_nil _ _
  · exact List.cons_ne_nil _ _

/-- **`++` goes from a position to the next one.** -/
theorem incr_placedAt (h : Carries length (placedAt length s c as) (as.map (·.set))) :
    incr length (placedAt length s c as) = (placedAt length s c (moveOn length as), false) := by
  induction as generalizing s c with
  | nil => exact h.elim
  | cons a as ih =>
    rw [placedAt, incr, moveOn]
    simp only
    split
    · next hin =>
      simp only [placedAt, offsetOf, Prod.mk.injEq, List.cons.injEq, MiterStepDim.mk.injEq, true_and,
        and_true]
      ring
    · next hout =>
      obtain ⟨hset, hcarries⟩ := h.resolve_left hout
      have hne : as ≠ [] := by
        rintro rfl
        exact hcarries
      rw [ih hcarries, if_neg Bool.false_ne_true]
      simp only at hset
      simp only [head_placedAt (moveOn_ne_nil hne), placedAt, offsetOf, hset, add_assoc]

/-- The dimensions at a position, all with one address. -/
def level (length data : ℤ) : (s : ℤ) → List Stand → List MiterStepDim
  | _, [] => []
  | s, a :: as =>
    ⟨a.low, a.high, a.pos, a.origin, a.extent, s, s * length, data⟩ ::
      level length data (s * a.extent) as

/-- Where all dimensions stand as they were last set, they have one address. -/
theorem placedAt_set (h : ∀ a ∈ as, a.set = a.pos) :
    placedAt length s c as = level length (c + offsetOf s as) s as := by
  induction as generalizing s c with
  | nil => rfl
  | cons a as ih =>
    obtain ⟨ha, has⟩ := List.forall_mem_cons.mp h
    rw [placedAt, level, ih has, offsetOf, ha, add_assoc]

/-- A change of the position, with the same address for all dimensions. -/
theorem zipWith_placedAt (h : as.map Stand.toMiterSpan = as'.map Stand.toMiterSpan) (data : ℤ) :
    (List.zipWith (fun a p => { a with pos := p }) (placedAt length s c as) (as'.map (·.pos))).map
      (fun a => { a with data := data }) = level length data s as' := by
  induction as generalizing s c as' with
  | nil =>
    rw [List.map_nil, eq_comm, List.map_eq_nil_iff] at h
    rw [h]
    rfl
  | cons a as ih =>
    obtain ⟨a', as', rfl⟩ := List.exists_cons_of_ne_nil (show as' ≠ [] by rintro rfl; simp at h)
    rw [List.map_cons, List.map_cons, List.cons.injEq] at h
    obtain ⟨hspan, hrest⟩ := h
    rw [placedAt, List.map_cons, List.zipWith_cons_cons, List.map_cons, ih hrest, level, hspan]

/-- The offset that `posChanged` computes counts the step for each dimension. -/
theorem sum_level (length data : ℤ) (s : ℤ) (as : List Stand) :
    ((level length data s as).map fun a => a.step * (a.pos - a.origin)).sum =
      length * offsetOf s as := by
  induction as generalizing s with
  | nil => simp [level, offsetOf]
  | cons a as ih =>
    rw [level, List.map_cons, List.sum_cons, ih, offsetOf]
    ring

/-- `posChanged` after a change of the position. -/
theorem posChanged_setPos {done : Bool} {base : ℤ}
    (h : as.map Stand.toMiterSpan = as'.map Stand.toMiterSpan) :
    (setPos ⟨placedAt length s c as, done, base, length⟩ (as'.map (·.pos))).posChanged =
      ⟨level length (base + length * offsetOf s as') s as', done, base, length⟩ := by
  have hsum := sum_level length 0 s as'
  rw [← zipWith_placedAt (c := c) h 0, List.map_map] at hsum
  rw [setPos, posChanged]
  simp only [zipWith_placedAt h]
  exact congrArg (fun offset => (⟨level length (base + offset) s as', done, base, length⟩ : MiterStep))
    hsum

/-- Reduced at each dimension or at the end, the offset is the same. -/
theorem resetOffset_eq (id : List MiterStepDim) :
    resetOffset id = (id.map fun a => a.step * (a.low - a.origin)).sum % 2 ^ 32 := by
  induction id with
  | nil => rfl
  | cons a id ih =>
    calc resetOffset (a :: id) = (resetOffset id + a.step * (a.low - a.origin)) % 2 ^ 32 := rfl
      _ = _ := by rw [ih, Int.emod_add_emod, List.map_cons, List.sum_cons, add_comm]

/-- `reset` is a change of the position to the first one where the offset fits 32 bits. -/
theorem reset_eq (it : MiterStep)
    (h : resetOffset it.id = (it.id.map fun a => a.step * (a.low - a.origin)).sum) :
    it.reset = { (it.setPos (it.id.map (·.low))).posChanged with done := false } := by
  rw [reset, posChanged, setPos, h]
  simp only [List.zipWith_map_right, List.zipWith_self, List.map_map]
  rfl

/-! ## Runs -/

variable {d : ℕ} {total iter : Box (d + 1)} {p q r : Point (d + 1)}

/-- The dimensions of an array and of an area of it, at a position and where they were last set. -/
def stands (total iter : Box (d + 1)) (p r : Point (d + 1)) : List Stand :=
  (List.ofFn fun i => (⟨⟨total.low i, total.high i - total.low i + 1, iter.low i, iter.high i⟩, p i,
    r i⟩ : Stand)).reverse

theorem map_pos_stands : (stands total iter p r).map (·.pos) = (List.ofFn p).reverse := by
  rw [stands, List.map_reverse, List.map_ofFn]
  rfl

theorem map_set_stands : (stands total iter p r).map (·.set) = (List.ofFn r).reverse := by
  rw [stands, List.map_reverse, List.map_ofFn]
  rfl

theorem map_span_stands : (stands total iter p r).map Stand.toMiterSpan = spans total iter := by
  rw [stands, List.map_reverse, List.map_ofFn]
  rfl

theorem stands_ne_nil : stands total iter p r ≠ [] := by
  rw [stands, List.ofFn_succ]
  simp

theorem offsetOf_eq_addr (s : ℤ) (as : List Stand) :
    offsetOf s as = addr s (as.map fun a => ⟨a.origin, a.extent, a.pos, a.pos⟩) 0 := by
  induction as generalizing s with
  | nil => rfl
  | cons a as ih => rw [offsetOf, List.map_cons, addr, ih, Nat.zero_mod, Nat.zero_div, Nat.cast_zero,
      add_zero]

/-- **The offset of a position is the number of its cell.** -/
theorem offsetOf_stands (tlen : ℕ) (hp : p ∈ total) :
    offsetOf tlen (stands total iter p r) = (tlen * total.index p : ℕ) := by
  set point : Box (d + 1) := ⟨p, p, fun _ => le_rfl⟩
  have hmem : p ∈ point := fun _ => ⟨le_rfl, le_rfl⟩
  have hcov : total.Covers point := fun i => hp i
  have haddr : addr tlen (spans total point) 0 = _ := addr_spans hcov point.card_cells_pos
  have hfirst : point.pointAt 0 = p := by
    funext i
    have := Box.pointAt_mem point.card_cells_pos i
    exact le_antisymm this.2 this.1
  rw [hfirst] at haddr
  rw [offsetOf_eq_addr, ← haddr, stands, List.map_reverse, List.map_ofFn]
  rfl

theorem offsetOf_origin (h : ∀ a ∈ as, a.pos = a.origin) : offsetOf s as = 0 := by
  induction as generalizing s with
  | nil => rfl
  | cons a as ih =>
    obtain ⟨ha, has⟩ := List.forall_mem_cons.mp h
    rw [offsetOf, ih has, ha, sub_self, mul_zero, add_zero]

/-- `++` moves one coordinate on, and some start over. -/
theorem moveOn_ofFn (length : ℤ) {n : ℕ} (f : Fin n → Stand) :
    ∃ g : Fin n → ℤ, moveOn length (List.ofFn f).reverse =
        (List.ofFn fun i => { f i with pos := g i }).reverse ∧
      ∀ i, g i = (f i).pos ∨ g i = (f i).low ∨
        g i = (f i).pos + length ∧ (f i).pos + length ≤ (f i).high := by
  induction n with
  | zero => exact ⟨fun i => (f i).pos, rfl, fun i => i.elim0⟩
  | succ n ih =>
    obtain ⟨g, hg, hcases⟩ := ih fun i => f i.castSucc
    have hrev : ∀ f : Fin (n + 1) → Stand, (List.ofFn f).reverse =
        f (Fin.last n) :: (List.ofFn fun i => f i.castSucc).reverse := fun f => by
      rw [List.ofFn_succ', List.concat_eq_append, List.reverse_append, List.reverse_singleton]
      rfl
    rw [hrev, moveOn]
    split
    · next hin =>
      refine ⟨Fin.snoc (fun i => (f i.castSucc).pos) ((f (Fin.last n)).pos + length), ?_, ?_⟩
      · rw [hrev]
        simp only [Fin.snoc_last, Fin.snoc_castSucc]
      · refine Fin.lastCases ?_ fun i => ?_
        · rw [Fin.snoc_last]
          exact .inr (.inr ⟨rfl, hin⟩)
        · rw [Fin.snoc_castSucc]
          exact .inl rfl
    · refine ⟨Fin.snoc g (f (Fin.last n)).low, ?_, ?_⟩
      · rw [hrev, hg]
        simp only [Fin.snoc_last, Fin.snoc_castSucc]
      · refine Fin.lastCases ?_ fun i => ?_
        · rw [Fin.snoc_last]
          exact .inr (.inl rfl)
        · rw [Fin.snoc_castSucc]
          exact hcases i

/-- A position after `++` lies in the array too. -/
theorem exists_moveOn_stands (hcov : total.Covers iter) (hlen : 0 ≤ length) (hp : p ∈ total) :
    ∃ q ∈ total, moveOn length (stands total iter p r) = stands total iter q r := by
  obtain ⟨q, hmove, hcases⟩ := moveOn_ofFn length fun i => (⟨⟨total.low i,
    total.high i - total.low i + 1, iter.low i, iter.high i⟩, p i, r i⟩ : Stand)
  refine ⟨q, fun i => ?_, hmove⟩
  have hpi := hp i
  have hlow := hcov i
  have hle := iter.low_le_high i
  simp only at hcases
  rcases hcases i with hkept | hover | ⟨hmoved, hin⟩
  · omega
  · omega
  · omega

/-- What happens to an iterator over an area of an array. -/
inductive Op (total : Box (d + 1))
  | next
  | reset
  | posChanged (pos : Point (d + 1)) (h : pos ∈ total)

/-- One operation; a change of the position is followed by `posChanged`. -/
def perform (it : MiterStep) : Op total → MiterStep
  | .next => it.next
  | .reset => it.reset
  | .posChanged pos _ => (it.setPos (List.ofFn pos).reverse).posChanged

/-- An iterator, with the coordinates where it was last set, in the order of `id`. -/
structure Tracked where
  it : MiterStep
  set : List ℤ

/-- An operation sets the position, or it does not. -/
def track (t : Tracked) (op : Op total) : Tracked where
  it := t.it.perform op
  set := match op with
    | .next => t.set
    | .reset => t.it.id.map (·.low)
    | .posChanged pos _ => (List.ofFn pos).reverse

/-- An iterator as it is constructed. -/
def start (data : ℤ) (total iter : Box (d + 1)) (tlen step : ℕ) : Tracked :=
  ⟨create data total iter tlen step, (List.ofFn iter.low).reverse⟩

/-- **Where `reset` leads back to the first cell**: at the origin of the array, or with step 1 where the
offset of the first cell fits `r_ULong`. -/
def Resets (total iter : Box (d + 1)) (tlen : ℕ) (length : ℤ) : Prop :=
  iter.low = total.low ∨ length = 1 ∧ tlen * total.index iter.low < 2 ^ 32

/-- **When an operation keeps position and address in step.** -/
def Keeps (iter : Box (d + 1)) (tlen : ℕ) (t : Tracked) : Op total → Prop
  | .next => Carries t.it.length t.it.id t.set
  | .reset => Resets total iter tlen t.it.length
  | .posChanged pos _ => t.it.length = 1 ∨ pos = total.low

/-- The address is the one of the cell at the current position. -/
def InStep (total : Box (d + 1)) (tlen : ℕ) (it : MiterStep) : Prop :=
  ∃ pos ∈ total, it.position = List.ofFn pos ∧
    it.getData = it.baseAddress + (tlen * total.index pos : ℕ)

/-- An iterator at a position. -/
def placedIt (data : ℤ) (total iter : Box (d + 1)) (tlen step : ℕ) (done : Bool)
    (p r : Point (d + 1)) : Tracked :=
  ⟨⟨placedAt step tlen data (stands total iter p r), done, data, step⟩, (List.ofFn r).reverse⟩

section Run

variable {data : ℤ} {tlen step : ℕ} {done : Bool}

theorem map_pos_placedAt : (placedAt length s c as).map (·.pos) = as.map (·.pos) := by
  induction as generalizing s c with
  | nil => rfl
  | cons a as ih => rw [placedAt, List.map_cons, ih, List.map_cons]

theorem map_low_placedAt : (placedAt length s c as).map (·.low) = as.map (·.low) := by
  induction as generalizing s c with
  | nil => rfl
  | cons a as ih => rw [placedAt, List.map_cons, ih, List.map_cons]

theorem inStep_placedIt (hp : p ∈ total) :
    InStep total tlen (placedIt data total iter tlen step done p r).it := by
  refine ⟨p, hp, ?_, ?_⟩
  · rw [placedIt, position, map_pos_placedAt, map_pos_stands, List.reverse_reverse]
  · rw [placedIt, getData, head_placedAt stands_ne_nil, offsetOf_stands tlen hp]

/-- Setting the position, with the strides in agreement. -/
theorem level_stands (h : step = 1 ∨ p = total.low) :
    level step (data + step * offsetOf tlen (stands total iter p p)) tlen (stands total iter p p) =
      placedAt step tlen data (stands total iter p p) := by
  have hoffset : step * offsetOf tlen (stands total iter p p) = offsetOf tlen (stands total iter p p) := by
    rcases h with rfl | rfl
    · rw [Nat.cast_one, one_mul]
    · rw [offsetOf_origin, mul_zero]
      intro a ha
      obtain ⟨i, rfl⟩ := List.mem_ofFn.mp (List.mem_reverse.mp ha)
      rfl
  rw [placedAt_set, hoffset]
  intro a ha
  obtain ⟨i, rfl⟩ := List.mem_ofFn.mp (List.mem_reverse.mp ha)
  rfl

theorem setup_eq_level (step : ℕ) (data s : ℤ) (sps : List MiterSpan) :
    (setup step s sps).1.map (fun a => { a with data := data }) =
        level step data s (sps.map fun sp => ⟨sp, sp.low, sp.low⟩) ∧
      (setup step s sps).2 = offsetOf s (sps.map fun sp => ⟨sp, sp.low, sp.low⟩) := by
  induction sps generalizing s with
  | nil => exact ⟨rfl, rfl⟩
  | cons sp sps ih =>
    obtain ⟨hdims, hoff⟩ := ih (s * sp.extent)
    simp only [setup, List.map_cons, level, offsetOf, hdims, hoff]
    exact ⟨trivial, trivial⟩

/-- The constructor stands at the first point. -/
theorem start_eq : start data total iter tlen step =
    placedIt data total iter tlen step false iter.low iter.low := by
  have hstands : (spans total iter).map (fun sp => (⟨sp, sp.low, sp.low⟩ : Stand)) =
      stands total iter iter.low iter.low := by
    rw [spans, List.map_reverse, List.map_ofFn]
    rfl
  obtain ⟨hdims, hoff⟩ := setup_eq_level step
    (data + offsetOf tlen (stands total iter iter.low iter.low)) tlen (spans total iter)
  rw [hstands] at hdims hoff
  have hset : ∀ a ∈ stands total iter iter.low iter.low, a.set = a.pos := by
    intro a ha
    obtain ⟨i, rfl⟩ := List.mem_ofFn.mp (List.mem_reverse.mp ha)
    rfl
  rw [start, create, placedIt, placedAt_set hset]
  simp only [hoff, hdims]

/-- A change of the position, or a reset. -/
theorem posChanged_placedIt (h : step = 1 ∨ q = total.low) :
    ((placedIt data total iter tlen step done p r).it.setPos (List.ofFn q).reverse).posChanged =
      (placedIt data total iter tlen step done q q).it := by
  have hspans : (stands total iter p r).map Stand.toMiterSpan =
      (stands total iter q q).map Stand.toMiterSpan := map_span_stands.trans map_span_stands.symm
  have hchange : (setPos ⟨placedAt step tlen data (stands total iter p r), done, data, step⟩
      ((stands total iter q q).map (·.pos))).posChanged = _ := posChanged_setPos hspans
  rw [map_pos_stands, level_stands h] at hchange
  exact hchange

theorem lows_placedIt :
    (placedIt data total iter tlen step done p r).it.id.map (·.low) = (List.ofFn iter.low).reverse := by
  rw [placedIt, map_low_placedAt, stands, List.map_reverse, List.map_ofFn]
  rfl

theorem sum_lows_placedAt (length s c : ℤ) (as : List Stand) :
    ((placedAt length s c as).map fun a => a.step * (a.low - a.origin)).sum =
      length * offsetOf s (as.map fun a => { a with pos := a.low }) := by
  induction as generalizing s c with
  | nil => rw [placedAt, List.map_nil, List.map_nil, offsetOf, mul_zero, List.sum_nil]
  | cons a as ih =>
    rw [placedAt, List.map_cons, List.map_cons, List.sum_cons, ih]
    simp only [offsetOf]
    ring

/-- The offset that `reset` computes is right where it fits. -/
theorem resetOffset_placedIt (hlow : iter.low ∈ total) (h : Resets total iter tlen step) :
    resetOffset (placedIt data total iter tlen step done p r).it.id =
      ((placedIt data total iter tlen step done p r).it.id.map fun a =>
        a.step * (a.low - a.origin)).sum := by
  have hlows : (stands total iter p r).map (fun a => { a with pos := a.low }) =
      stands total iter iter.low r := by
    rw [stands, List.map_reverse, List.map_ofFn]
    rfl
  rw [resetOffset_eq, placedIt, sum_lows_placedAt, hlows]
  rcases h with horigin | ⟨hstep, hfits⟩
  · rw [horigin, offsetOf_origin, mul_zero, Int.zero_emod]
    intro a ha
    obtain ⟨i, rfl⟩ := List.mem_ofFn.mp (List.mem_reverse.mp ha)
    rfl
  · rw [hstep, one_mul, offsetOf_stands tlen hlow]
    exact Int.emod_eq_of_lt (Int.natCast_nonneg _) (by exact_mod_cast hfits)

/-- **`reset` restores the state that the constructor produced**, with the strides in agreement. -/
theorem reset_placedIt (hlow : iter.low ∈ total) (h : Resets total iter tlen step) :
    (placedIt data total iter tlen step done p r).it.reset = create data total iter tlen step := by
  have hstart : (start data total iter tlen step).it = _ := congrArg Tracked.it start_eq
  have hagree : step = 1 ∨ iter.low = total.low :=
    h.symm.imp_left fun hstep => Int.ofNat_inj.mp hstep.1
  rw [reset_eq _ (resetOffset_placedIt hlow h), lows_placedIt, posChanged_placedIt hagree]
  exact hstart.symm

/-- **An operation leads from a position in step to another one.** -/
theorem track_placedIt (hcov : total.Covers iter) (hp : p ∈ total) {op : Op total}
    (hkeeps : Keeps iter tlen (placedIt data total iter tlen step done p r) op) :
    ∃ q ∈ total, ∃ done' r', track (placedIt data total iter tlen step done p r) op =
      placedIt data total iter tlen step done' q r' := by
  cases op with
  | next =>
    obtain ⟨q, hq, hmove⟩ := exists_moveOn_stands (r := r) hcov (Int.natCast_nonneg step) hp
    have hcarries : Carries step (placedAt step tlen data (stands total iter p r))
        ((stands total iter p r).map (·.set)) := by
      rw [map_set_stands]
      exact hkeeps
    refine ⟨q, hq, done || false, r, ?_⟩
    rw [track, perform, next, placedIt, incr_placedAt hcarries, hmove, placedIt]
  | reset =>
    have hlow : iter.low ∈ total := Box.covers_iff.mp hcov _ iter.low_mem
    refine ⟨iter.low, hlow, false, iter.low, ?_⟩
    rw [← start_eq, track, perform, reset_placedIt hlow hkeeps, lows_placedIt, start]
  | posChanged q hq =>
    have hkeeps' : step = 1 ∨ q = total.low := hkeeps.imp_left Int.ofNat_inj.mp
    refine ⟨q, hq, done, q, ?_⟩
    rw [track, perform, posChanged_placedIt hkeeps']
    rfl

end Run

end MiterStep

end Rasdaman
