import Rasdaman.Rasj.RasSInterval
import Rasdaman.Raslib.MintervalText

/-!
# Rasj/RasMInterval — the domains of the Java client

A `RasMInterval` holds references to its intervals, which other domains may hold too.  Each loop over the
dimensions is compared with the one of `r_Minterval`, where the intervals are values.
-/

namespace Rasdaman

namespace RasMInterval

open Sinterval (opened)

/-- `intersectsWith`, for domains of one dimension. -/
def intersectsWith (h : Heap Sinterval) (this mInterval : List ℕ) : Bool :=
  (this.zip mInterval).all fun p =>
    !(0 == RasSInterval.intersectsWith h p.1 p.2 || -1 == RasSInterval.intersectsWith h p.1 p.2)

/-- `equals`; `==` compares references. -/
def equals (this mint : List ℕ) : Bool :=
  this.length == mint.length && (this.zip mint).all fun p => p.1 == p.2

/-- `covers(RasPoint pnt)`. -/
def coversPoint (h : Heap Sinterval) (this : List ℕ) (pnt : List ℤ) : ℤ :=
  if this.length ≠ pnt.length then -1
  else if (this.zip pnt).any fun p =>
    ((h.get p.1).lowFixed && p.2 < (h.get p.1).lowerBound) ||
      ((h.get p.1).highFixed && p.2 > (h.get p.1).upperBound) then 0
  else 1

/-- `covers(RasMInterval inter2)`. -/
def covers (h : Heap Sinterval) (this inter2 : List ℕ) : ℤ :=
  if this.length ≠ inter2.length then -1
  else if (this.zip inter2).any fun p =>
    ((h.get p.1).lowFixed && (!(h.get p.2).lowFixed || (h.get p.1).lowerBound > (h.get p.2).lowerBound)) ||
      ((h.get p.1).highFixed && (!(h.get p.2).highFixed || (h.get p.1).upperBound < (h.get p.2).upperBound))
    then 0
  else 1

/-- The loops of `unionOf`, `differenceOf`, `intersectionOf` and `closureOf` over the intervals of the
operands: the new array of the receiver, and whether the loop threw.  Before each round the array gets a
new interval, which is also what the round finds in an operand that is the receiver itself. -/
def ofLoop (op : IntervalOp) (self₁ self₂ : Bool) :
    List (ℕ × ℕ) → Heap Sinterval → Heap Sinterval × List (Option ℕ) × Bool
  | [], h => (h, [], false)
  | (x, y) :: ps, h =>
    let interval := (h.new opened).1
    let round := RasSInterval.opOf op (h.new opened).2 interval (if self₁ then interval else x)
      (if self₂ then interval else y)
    match round.2 with
    | none => (round.1, some interval :: ps.map fun _ => none, true)
    | some _ =>
      let rest := ofLoop op self₁ self₂ ps round.1
      (rest.1, some interval :: rest.2.1, rest.2.2)

/-- The loops of `unionWith`, `differenceWith`, `intersectionWith` and `closureWith` over the intervals of
the receiver and of the operand, and whether the loop threw. -/
def withLoop (op : IntervalOp) : List (ℕ × ℕ) → Heap Sinterval → Heap Sinterval × Bool
  | [], h => (h, false)
  | (x, y) :: ps, h =>
    let round := RasSInterval.opWith op h x y
    match round.2 with
    | none => (round.1, true)
    | some _ => withLoop op ps round.1

/-- The loops of `createUnion`, `createDifference`, `createIntersection` and `createClosure` over the
intervals of the receiver and of the operand: the intervals of the result. -/
def createLoop (op : IntervalOp) : List (ℕ × ℕ) → Heap Sinterval → Heap Sinterval × Option (List ℕ)
  | [], h => (h, some [])
  | (x, y) :: ps, h =>
    let round := RasSInterval.create op h x y
    match round.2 with
    | none => (round.1, none)
    | some interval =>
      let rest := createLoop op ps round.1
      (rest.1, rest.2.map (interval :: ·))

/-- The loop of `createTranslation` over the intervals and the coordinates of the point. -/
def translationLoop : List (ℕ × ℤ) → Heap Sinterval → Heap Sinterval × Option (List ℕ)
  | [], h => (h, some [])
  | (x, t) :: ps, h =>
    let s := h.get x
    match Sinterval.setInterval (toRange (s.lowerBound + t)) (toRange (s.upperBound + t)) with
    | .error _ => (h, none)
    | .ok v =>
      let rest := translationLoop ps (h.new v).2
      (rest.1, rest.2.map ((h.new v).1 :: ·))

/-! ## Objects and values -/

variable {op : IntervalOp} {h h' : Heap Sinterval} {ps : List (ℕ × ℕ)} {this mint : List ℕ}

/-- What was there before is still there as it was. -/
structure Extends (h h' : Heap Sinterval) : Prop where
  next_le : h.next ≤ h'.next
  get_eq : ∀ r < h.next, h'.get r = h.get r

theorem Extends.refl (h : Heap Sinterval) : Extends h h := ⟨le_rfl, fun _ _ => rfl⟩

theorem Extends.trans {h'' : Heap Sinterval} (h₁ : Extends h h') (h₂ : Extends h' h'') :
    Extends h h'' :=
  ⟨h₁.next_le.trans h₂.next_le, fun r hr =>
    (h₂.get_eq r (hr.trans_le h₁.next_le)).trans (h₁.get_eq r hr)⟩

theorem extends_new (h : Heap Sinterval) (v : Sinterval) : Extends h (h.new v).2 :=
  ⟨Nat.le_succ _, fun _ hr => Heap.get_new_of_lt hr⟩

theorem Extends.contents (he : Extends h h') (ha : h.Allocated this) :
    h'.contents this = h.contents this := Heap.contents_congr fun r hr => he.get_eq r (ha r hr)

/-- The intervals were made before. -/
def AllocatedPairs (h : Heap Sinterval) (ps : List (ℕ × ℕ)) : Prop :=
  ∀ p ∈ ps, p.1 < h.next ∧ p.2 < h.next

theorem Extends.pairs (he : Extends h h') (ha : AllocatedPairs h ps) : h'.pairs ps = h.pairs ps :=
  Heap.pairs_congr fun p hp => ⟨he.get_eq _ (ha p hp).1, he.get_eq _ (ha p hp).2⟩

theorem Extends.allocated (he : Extends h h') (ha : AllocatedPairs h ps) : AllocatedPairs h' ps :=
  fun p hp => ⟨(ha p hp).1.trans_le he.next_le, (ha p hp).2.trans_le he.next_le⟩

theorem pairs_zip (h : Heap Sinterval) (this mint : List ℕ) :
    h.pairs (this.zip mint) = (h.contents this).zip (h.contents mint) := by
  rw [Heap.pairs, Heap.contents, Heap.contents, List.zip_map]
  rfl

/-! ## Tests -/

theorem intersectsWith_eq (hlen : this.length = mint.length) :
    intersectsWith h this mint = Minterval.intersectsWith (h.contents this) (h.contents mint) := by
  rw [intersectsWith, Minterval.intersectsWith, ← pairs_zip, Heap.pairs, List.all_map]
  simp only [Heap.contents, List.length_map, hlen, beq_self_eq_true, Bool.true_and]
  refine congrArg _ (funext fun p => Bool.eq_iff_iff.mpr ?_)
  rw [Function.comp_apply, ← RasSInterval.intersectsWith_iff]
  have hne : RasSInterval.intersectsWith h p.1 p.2 ≠ 0 := RasSInterval.intersectsWith_ne_zero
  generalize RasSInterval.intersectsWith h p.1 p.2 = c at *
  simp only [Bool.not_eq_true', Bool.or_eq_false_iff, beq_eq_false_iff_ne]
  omega

/-- `equals` finds the same objects. -/
theorem equals_iff : equals this mint = true ↔ this = mint := by
  induction this generalizing mint with
  | nil => cases mint <;> simp [equals]
  | cons r this ih =>
    cases mint with
    | nil => simp [equals]
    | cons r' mint =>
      rw [List.cons.injEq, ← ih]
      simp [equals, and_left_comm]

theorem ite_any_eq_one_iff {α : Type} {l : List α} {q : α → Bool} :
    (if l.any q = true then (0 : ℤ) else 1) = 1 ↔ (l.all fun x => !q x) = true := by
  rw [← List.not_any_eq_all_not]
  cases l.any q <;> decide

theorem covers_eq_one_iff :
    covers h this mint = 1 ↔ Minterval.covers (h.contents this) (h.contents mint) = true := by
  rw [covers, Minterval.covers, ← pairs_zip, Heap.pairs, List.all_map]
  simp only [Heap.contents, List.length_map]
  by_cases hlen : this.length = mint.length
  · simp only [hlen, ne_eq, not_true_eq_false, if_false, beq_self_eq_true, Bool.true_and]
    exact ite_any_eq_one_iff
  · simp [hlen]

theorem coversPoint_eq_one_iff {pnt : List ℤ} :
    coversPoint h this pnt = 1 ↔ Minterval.coversPoint (h.contents this) pnt = true := by
  have hzip : (h.contents this).zip pnt = (this.zip pnt).map fun p => (h.get p.1, p.2) :=
    List.zip_map_left ..
  rw [coversPoint, Minterval.coversPoint, hzip, List.all_map]
  simp only [Heap.contents, List.length_map]
  by_cases hlen : this.length = pnt.length
  · simp only [hlen, ne_eq, not_true_eq_false, if_false, beq_self_eq_true, Bool.true_and]
    exact ite_any_eq_one_iff
  · simp [hlen]

/-! ## New domains -/

/-- One interval of a new domain. -/
theorem create_spec {x y : ℕ} (hx : x < h.next) (hy : y < h.next) :
    let round := RasSInterval.create op h x y
    Extends h round.1 ∧ (∀ r ∈ round.2, r < round.1.next) ∧
      round.2.map round.1.get = (Sinterval.calcOp op (h.get y) (h.get x)).toOption := by
  have hvalue := RasSInterval.calc_value op (h.get y) (h.get x)
  intro round
  simp only [round, RasSInterval.create]
  generalize RasSInterval.calcOp op (h.get y) (h.get x) = c at *
  rw [← hvalue]
  match c with
  | .error e => exact ⟨.refl h, nofun, rfl⟩
  | .ok .first => exact ⟨.refl h, fun r hr => Option.some.inj hr ▸ hy, rfl⟩
  | .ok .second => exact ⟨.refl h, fun r hr => Option.some.inj hr ▸ hx, rfl⟩
  | .ok (.made v) =>
    exact ⟨extends_new h v, fun r hr => Option.some.inj hr ▸ Nat.lt_succ_self _,
      congrArg some Heap.get_new_self⟩

theorem mapM_cons_toOption {α β : Type} {f : α → Except RError β} (a : α) (l : List α) :
    ((a :: l).mapM f).toOption = (f a).toOption.bind fun b => (l.mapM f).toOption.map (b :: ·) := by
  rw [List.mapM_cons]
  cases f a with
  | error e => rfl
  | ok b => cases l.mapM f <;> rfl

/-- **A new domain has the intervals that `r_Minterval` calculates.** -/
theorem createLoop_spec (op : IntervalOp) (ha : AllocatedPairs h ps) :
    Extends h (createLoop op ps h).1 ∧ (createLoop op ps h).2.map (createLoop op ps h).1.contents =
      ((h.pairs ps).mapM fun s => Sinterval.calcOp op s.2 s.1).toOption := by
  induction ps generalizing h with
  | nil => exact ⟨.refl h, rfl⟩
  | cons p ps ih =>
    obtain ⟨x, y⟩ := p
    obtain ⟨⟨hx, hy⟩, ha'⟩ := List.forall_mem_cons.mp ha
    obtain ⟨hround, hfresh, hvalue⟩ :
      Extends h (RasSInterval.create op h x y).1 ∧ _ ∧ _ := create_spec hx hy
    rw [Heap.pairs, List.map_cons, mapM_cons_toOption]
    simp only [← hvalue, createLoop]
    cases hr : (RasSInterval.create op h x y).2 with
    | none => exact ⟨hround, rfl⟩
    | some r =>
      obtain ⟨hrest, hcontents⟩ := ih (hround.allocated ha')
      have hown := hrest.get_eq r (hfresh r hr)
      rw [hround.pairs ha'] at hcontents
      refine ⟨hround.trans hrest, ?_⟩
      rw [Heap.pairs] at hcontents
      rw [Option.map_some, Option.bind_some, ← hcontents]
      cases (createLoop op ps (RasSInterval.create op h x y).1).2 with
      | none => rfl
      | some rs => exact congrArg some (congrArg (· :: _) hown)

/-- The intervals of a translation. -/
theorem translationLoop_spec (ps : List (ℕ × ℤ)) (ha : ∀ p ∈ ps, p.1 < h.next) :
    Extends h (translationLoop ps h).1 ∧ (translationLoop ps h).2.map (translationLoop ps h).1.contents =
      ((ps.map fun p => (h.get p.1, p.2)).mapM fun s => Sinterval.setInterval
        (toRange (s.1.lowerBound + s.2)) (toRange (s.1.upperBound + s.2))).toOption := by
  induction ps generalizing h with
  | nil => exact ⟨.refl h, rfl⟩
  | cons p ps ih =>
    obtain ⟨x, t⟩ := p
    obtain ⟨hx, ha'⟩ := List.forall_mem_cons.mp ha
    rw [List.map_cons, mapM_cons_toOption]
    simp only [translationLoop]
    cases Sinterval.setInterval (toRange ((h.get x).lowerBound + t))
      (toRange ((h.get x).upperBound + t)) with
    | error e => exact ⟨.refl h, rfl⟩
    | ok v =>
      have hnew := extends_new h v
      obtain ⟨hrest, hcontents⟩ := ih (h := (h.new v).2) fun p hp => (ha' p hp).trans_le hnew.next_le
      have hown : (translationLoop ps (h.new v).2).1.get (h.new v).1 = v :=
        (hrest.get_eq _ (Nat.lt_succ_self _)).trans Heap.get_new_self
      have hvalues : (ps.map fun p => ((h.new v).2.get p.1, p.2)) = ps.map fun p => (h.get p.1, p.2) :=
        List.map_congr_left fun p hp => by rw [hnew.get_eq _ (ha' p hp)]
      rw [hvalues] at hcontents
      refine ⟨hnew.trans hrest, ?_⟩
      have hok : (Except.ok v : Except RError Sinterval).toOption = some v := rfl
      simp only [hok, Option.bind_some, ← hcontents]
      cases (translationLoop ps (h.new v).2).2 with
      | none => rfl
      | some rs => exact congrArg some (congrArg (· :: _) hown)

theorem mapM_eq_none_iff {α β : Type} {f : α → Except RError β} {l : List α} :
    (l.mapM f).toOption = none ↔ ∃ a ∈ l, (f a).toOption = none := by
  induction l with
  | nil => exact iff_of_false nofun (by simp)
  | cons a l ih =>
    rw [mapM_cons_toOption]
    cases ha : (f a).toOption with
    | none => simp [ha]
    | some b => simp [ha, ih]

/-- `create_translation` has the same intervals, or none either. -/
def TranslationAgrees (m : Minterval) (t : List ℤ) : Prop := m.length = t.length → m.isFixed = true ∨
  ∃ s ∈ m.zip t, toRange (s.1.lowerBound + s.2) > toRange (s.1.upperBound + s.2)

/-- **When the translations agree.** -/
theorem translation_agrees_iff (m : Minterval) (t : List ℤ) :
    (if m.length ≠ t.length then none else ((m.zip t).mapM fun s => Sinterval.setInterval
        (toRange (s.1.lowerBound + s.2)) (toRange (s.1.upperBound + s.2))).toOption) =
      (m.createTranslation t).toOption ↔ TranslationAgrees m t := by
  rw [Minterval.createTranslation, TranslationAgrees]
  by_cases hlen : m.length = t.length
  · cases m.isFixed with
    | true => simp [hlen]
    | false =>
      simp only [hlen, ne_eq, not_true_eq_false, if_false, Bool.not_false, if_true, forall_const,
        Bool.false_eq_true, false_or]
      refine (mapM_eq_none_iff (l := m.zip t)).trans (exists_congr fun s => and_congr_right fun _ => ?_)
      rw [Sinterval.setInterval]
      split <;> simp [Except.toOption, *]
  · simp [hlen, Except.toOption]

/-! ## Domains that take a result -/

/-- What `ofLoop` does on values. -/
def fill (op : IntervalOp) : List (Sinterval × Sinterval) → List (Option Sinterval) × Bool
  | [] => ([], false)
  | (x, y) :: ts =>
    match Sinterval.calcOp op x y with
    | .error _ => (some opened :: ts.map fun _ => none, true)
    | .ok v => (some v :: (fill op ts).1, (fill op ts).2)

/-- The operand of a round. -/
def seen (self : Bool) (s : Sinterval) : Sinterval := if self then opened else s

/-- One interval of a domain that takes a result. -/
theorem opOf_spec (op : IntervalOp) {x y : ℕ} (self₁ self₂ : Bool) (hx : x < h.next) (hy : y < h.next) :
    let interval := (h.new opened).1
    let round := RasSInterval.opOf op (h.new opened).2 interval (if self₁ then interval else x)
      (if self₂ then interval else y)
    Extends h round.1 ∧ interval < round.1.next ∧
      match Sinterval.calcOp op (seen self₁ (h.get x)) (seen self₂ (h.get y)) with
      | .error _ => round.2 = none ∧ round.1.get interval = opened
      | .ok v => round.2 = some interval ∧ round.1.get interval = v := by
  have hseen : ∀ (self : Bool) {r : ℕ}, r < h.next →
      (h.new opened).2.get (if self then (h.new opened).1 else r) = seen self (h.get r) := by
    intro self r hr
    cases self with
    | true => exact Heap.get_new_self
    | false => exact Heap.get_new_of_lt hr
  intro interval round
  simp only [round, RasSInterval.opOf, interval, hseen self₁ hx, hseen self₂ hy]
  rw [← RasSInterval.calc_value]
  cases RasSInterval.calcOp op (seen self₁ (h.get x)) (seen self₂ (h.get y)) with
  | error e => exact ⟨extends_new h opened, Nat.lt_succ_self _, rfl, Heap.get_new_self⟩
  | ok c =>
    refine ⟨⟨Nat.le_succ _, fun r hr => ?_⟩, Nat.lt_succ_self _, rfl, Heap.get_set_self⟩
    exact (Heap.get_set_of_ne (Nat.ne_of_lt hr)).trans (Heap.get_new_of_lt hr)

/-- **The new array has the results**; where the loop threw, `[*:*]` and nulls behind it. -/
theorem ofLoop_spec (op : IntervalOp) (self₁ self₂ : Bool) (ha : AllocatedPairs h ps) :
    let result := ofLoop op self₁ self₂ ps h
    let filled := fill op ((h.pairs ps).map fun t => (seen self₁ t.1, seen self₂ t.2))
    Extends h result.1 ∧ result.2.1.map (Option.map result.1.get) = filled.1 ∧ result.2.2 = filled.2 := by
  induction ps generalizing h with
  | nil => exact ⟨.refl h, rfl, rfl⟩
  | cons p ps ih =>
    obtain ⟨x, y⟩ := p
    obtain ⟨⟨hx, hy⟩, ha'⟩ := List.forall_mem_cons.mp ha
    have hround := opOf_spec op self₁ self₂ hx hy
    simp only [ofLoop, Heap.pairs, List.map_cons, fill] at hround ⊢
    obtain ⟨hextends, hlt, hvalue⟩ := hround
    cases hcalc : Sinterval.calcOp op (seen self₁ (h.get x)) (seen self₂ (h.get y)) with
    | error e =>
      rw [hcalc] at hvalue
      rw [hvalue.1]
      refine ⟨hextends, ?_, rfl⟩
      simp only [List.map_cons, Option.map_some, hvalue.2, List.map_map]
      rfl
    | ok v =>
      rw [hcalc] at hvalue
      rw [hvalue.1]
      obtain ⟨hrest, harray, hthrew⟩ := ih (hextends.allocated ha')
      rw [hextends.pairs ha', Heap.pairs] at harray hthrew
      refine ⟨hextends.trans hrest, congrArg₂ List.cons ?_ harray, hthrew⟩
      exact congrArg some ((hrest.get_eq _ hlt).trans hvalue.2)

/-- Each round gives what it gives with `[*:*]` in the place of the receiver, and none but the last one
throws, which finds `[*:*]` in the receiver. -/
structure Undisturbed (op : IntervalOp) (self₁ self₂ : Bool)
    (ts : List (Sinterval × Sinterval × Sinterval)) : Prop where
  same : ∀ t ∈ ts, (Sinterval.calcOp op (seen self₁ t.2.1) (seen self₂ t.2.2)).toOption =
    (Sinterval.calcOp op t.2.1 t.2.2).toOption
  returns : ∀ t ∈ ts.dropLast, ∃ v, Sinterval.calcOp op t.2.1 t.2.2 = .ok v
  last : ∀ t ∈ ts.getLast?, (∃ v, Sinterval.calcOp op t.2.1 t.2.2 = .ok v) ∨ t.1 = opened

variable {self₁ self₂ : Bool} {t : Sinterval × Sinterval × Sinterval}
  {ts : List (Sinterval × Sinterval × Sinterval)} {v : Sinterval}

theorem undisturbed_cons_ok (hv : Sinterval.calcOp op t.2.1 t.2.2 = .ok v) :
    Undisturbed op self₁ self₂ (t :: ts) ↔
      Sinterval.calcOp op (seen self₁ t.2.1) (seen self₂ t.2.2) = .ok v ∧
        Undisturbed op self₁ self₂ ts := by
  have hsame : (Sinterval.calcOp op (seen self₁ t.2.1) (seen self₂ t.2.2)).toOption = some v ↔
      Sinterval.calcOp op (seen self₁ t.2.1) (seen self₂ t.2.2) = .ok v := by
    cases Sinterval.calcOp op (seen self₁ t.2.1) (seen self₂ t.2.2) with
    | error e => exact iff_of_false nofun nofun
    | ok w => exact ⟨fun h => congrArg _ (Option.some.inj h), fun h => congrArg Except.toOption h⟩
  rw [← hsame]
  constructor
  · rintro ⟨hsame, hreturns, hlast⟩
    obtain ⟨hhead, htail⟩ := List.forall_mem_cons.mp hsame
    refine ⟨hhead.trans (congrArg _ hv), htail, fun t' ht' => ?_, fun t' ht' => ?_⟩
    · cases ts with
      | nil => exact absurd ht' List.not_mem_nil
      | cons t₂ ts => exact hreturns t' (List.mem_cons_of_mem _ ht')
    · cases ts with
      | nil => exact absurd ht' nofun
      | cons t₂ ts => exact hlast t' ht'
  · rintro ⟨hhead, hsame, hreturns, hlast⟩
    refine ⟨List.forall_mem_cons.mpr ⟨hhead.trans (congrArg Except.toOption hv).symm, hsame⟩, ?_, ?_⟩
    · cases ts with
      | nil => exact fun t' ht' => absurd ht' List.not_mem_nil
      | cons t₂ ts => exact List.forall_mem_cons.mpr ⟨⟨v, hv⟩, hreturns⟩
    · cases ts with
      | nil => exact fun t' ht' => .inl ⟨v, Option.some.inj ht' ▸ hv⟩
      | cons t₂ ts => exact hlast

theorem undisturbed_cons_error {e e' : RError} (he : Sinterval.calcOp op t.2.1 t.2.2 = .error e)
    (he' : Sinterval.calcOp op (seen self₁ t.2.1) (seen self₂ t.2.2) = .error e') :
    Undisturbed op self₁ self₂ (t :: ts) ↔ t.1 = opened ∧ ts = [] := by
  constructor
  · rintro ⟨-, hreturns, hlast⟩
    cases ts with
    | nil =>
      refine ⟨(hlast t rfl).resolve_left ?_, rfl⟩
      rintro ⟨v, hv⟩
      exact absurd (he.symm.trans hv) nofun
    | cons t₂ ts =>
      obtain ⟨v, hv⟩ := hreturns t List.mem_cons_self
      exact absurd (he.symm.trans hv) nofun
  · rintro ⟨hopened, rfl⟩
    refine ⟨List.forall_mem_singleton.mpr ?_, fun t' ht' => absurd ht' List.not_mem_nil, fun t' ht' => ?_⟩
    · rw [he, he']
      rfl
    · exact .inr (Option.some.inj ht' ▸ hopened)

/-- **The loop of `r_Minterval` does the same** exactly when it is undisturbed. -/
theorem fill_eq_iff (hsound : ∀ t ∈ ts, t.1.Sound ∧ t.2.1.Sound ∧ t.2.2.Sound)
    (hself₁ : self₁ = true → ∀ t ∈ ts, t.2.1 = t.1) (hself₂ : self₂ = true → ∀ t ∈ ts, t.2.2 = t.1) :
    fill op (ts.map fun t => (seen self₁ t.2.1, seen self₂ t.2.2)) =
        ((Minterval.ofLoop op ts).1.map some, (Minterval.ofLoop op ts).2) ↔
      Undisturbed op self₁ self₂ ts := by
  induction ts with
  | nil =>
    have hnil : ∀ P : Sinterval × Sinterval × Sinterval → Prop, ∀ t ∈ [], P t := fun P =>
      List.forall_mem_nil P
    exact iff_of_true rfl ⟨hnil _, hnil _, fun t ht => absurd ht (by simp)⟩
  | cons t ts ih =>
    obtain ⟨hsound₀, hsound⟩ := List.forall_mem_cons.mp hsound
    have hs₁ : self₁ = true → t.2.1 = t.1 := fun h => hself₁ h t List.mem_cons_self
    have hs₂ : self₂ = true → t.2.2 = t.1 := fun h => hself₂ h t List.mem_cons_self
    have ih := ih hsound (fun h t' ht' => hself₁ h t' (List.mem_cons_of_mem _ ht'))
      fun h t' ht' => hself₂ h t' (List.mem_cons_of_mem _ ht')
    simp only [List.map_cons, fill, Minterval.ofLoop]
    cases hc : Sinterval.calcOp op t.2.1 t.2.2 with
    | ok w =>
      rw [undisturbed_cons_ok hc, ← ih]
      cases hj : Sinterval.calcOp op (seen self₁ t.2.1) (seen self₂ t.2.2) with
      | ok v => simp [Prod.ext_iff, and_assoc]
      | error e =>
        refine iff_of_false (fun heq => ?_) fun h => absurd h.1 nofun
        -- a null stands behind, unless this is the last round, and that did not throw
        obtain ⟨hlist, hthrew⟩ := Prod.mk.inj heq
        cases ts with
        | nil => exact absurd (Eq.symm hthrew) Bool.false_ne_true
        | cons t₂ ts =>
          have hnull : none ∈ (Minterval.ofLoop op (t₂ :: ts)).1.map some :=
            (List.cons.inj hlist).2 ▸ List.mem_cons_self
          simp at hnull
    | error e =>
      cases hj : Sinterval.calcOp op (seen self₁ t.2.1) (seen self₂ t.2.2) with
      | ok v =>
        refine iff_of_false (fun heq => ?_) fun h => ?_
        · obtain rfl : v = t.1 := Option.some.inj (List.cons.inj (Prod.mk.inj heq).1).1
          obtain ⟨hs, hx, hy⟩ := hsound₀
          obtain ⟨r, hr⟩ := Sinterval.calcOp_ok_of_opened hs hx hy hs₁ hs₂ hj
          exact absurd (hc.symm.trans hr) nofun
        · have hsame := h.same t List.mem_cons_self
          rw [hc, hj] at hsame
          exact absurd hsame nofun
      | error e' =>
        rw [undisturbed_cons_error hc hj]
        cases ts <;> simp [eq_comm]

/-! ## Domains that take a result with their own -/

theorem withLoop_eq_sweep (hop : op ≠ .closure) (ps : List (ℕ × ℕ)) (h : Heap Sinterval) :
    withLoop op ps h = Heap.sweep (RasSInterval.calcWith op) ps h := by
  induction ps generalizing h with
  | nil => rfl
  | cons p ps ih =>
    obtain ⟨x, y⟩ := p
    simp only [withLoop, RasSInterval.opWith, Heap.sweep, if_neg hop]
    cases RasSInterval.calcWith op (h.get x) (h.get y) with
    | error e => rfl
    | ok v => exact ih _

/-- The intervals of the pairs are as the setters leave them. -/
def SoundPairs (h : Heap Sinterval) (ps : List (ℕ × ℕ)) : Prop :=
  ∀ p ∈ ps, (h.get p.1).Sound ∧ (h.get p.2).Sound

/-- **`closureWith` changes nothing.** -/
theorem withLoop_closure (ha : AllocatedPairs h ps) (hs : SoundPairs h ps) :
    Extends h (withLoop .closure ps h).1 ∧ (withLoop .closure ps h).2 = false := by
  induction ps generalizing h with
  | nil => exact ⟨.refl h, rfl⟩
  | cons p ps ih =>
    obtain ⟨x, y⟩ := p
    obtain ⟨⟨hx, hy⟩, hs'⟩ := List.forall_mem_cons.mp hs
    have ha' := (List.forall_mem_cons.mp ha).2
    obtain ⟨v, hv, -⟩ := Sinterval.calcClosure_spans (b := h.get x) hy.valid
    have hcalc : RasSInterval.calcWith .closure (h.get x) (h.get y) = .ok v :=
      (RasSInterval.calcWith_eq hx hy).trans hv
    have hnew := extends_new h v
    have hs'' : SoundPairs (h.new v).2 ps := fun p hp => by
      rw [hnew.get_eq _ (ha' p hp).1, hnew.get_eq _ (ha' p hp).2]
      exact hs' p hp
    obtain ⟨hrest, hthrew⟩ := ih (hnew.allocated ha') hs''
    simp only [withLoop, RasSInterval.opWith, hcalc, if_true]
    exact ⟨hnew.trans hrest, hthrew⟩

theorem calcWith_eq_of_sound (hs : SoundPairs h ps) : ∀ p ∈ ps, RasSInterval.calcWith op (h.get p.1)
    (h.get p.2) = Sinterval.calcOp op (h.get p.2) (h.get p.1) :=
  fun p hp => RasSInterval.calcWith_eq (hs p hp).1 (hs p hp).2

theorem sweepValues_calcWith (hs : SoundPairs h ps) :
    Heap.sweepValues (RasSInterval.calcWith op) (h.pairs ps) =
      Heap.sweepValues (fun s t => Sinterval.calcOp op t s) (h.pairs ps) :=
  Heap.sweepValues_congr fun p hp => by
    obtain ⟨q, hq, rfl⟩ := List.mem_map.mp hp
    exact calcWith_eq_of_sound hs q hq

/-- A round leaves its interval as it is, or changes one that stands neither in the operand nor in another
dimension of the receiver. -/
def Isolated (op : IntervalOp) (h : Heap Sinterval) (this mint : List ℕ) : Prop :=
  Heap.Isolated (fun s t => Sinterval.calcOp op t s) h mint (this.zip mint)

/-- **Isolated intervals are changed as `r_Minterval` changes them**, and the operand stays as it is. -/
theorem withLoop_of_isolated (hop : op ≠ .closure) (hs : SoundPairs h (this.zip mint))
    (hlen : this.length = mint.length) (hiso : Isolated op h this mint) :
    let result := withLoop op (this.zip mint) h
    (result.1.contents this, result.2) = Minterval.opWith op (h.contents this) (h.contents mint) ∧
      result.1.contents mint = h.contents mint := by
  have hiso' : Heap.Isolated (RasSInterval.calcWith op) h mint (this.zip mint) :=
    (Heap.isolated_congr (calcWith_eq_of_sound hs) fun _ _ => rfl).mpr hiso
  obtain ⟨hvalues, hstays⟩ := Heap.sweep_of_isolated (fun p hp => (List.of_mem_zip hp).2) hiso'
  rw [List.map_fst_zip hlen.le] at hvalues
  intro result
  simp only [result, withLoop_eq_sweep hop]
  rw [hvalues, sweepValues_calcWith hs, pairs_zip]
  exact ⟨rfl, Heap.contents_congr hstays⟩

/-- **The intervals of the receiver have to be isolated** if they are different objects. -/
theorem isolated_of_withLoop (hop : op ≠ .closure) (hs : SoundPairs h (this.zip mint))
    (hlen : this.length = mint.length) (hnodup : this.Nodup)
    (hreceiver : (withLoop op (this.zip mint) h).1.contents this =
      (Minterval.opWith op (h.contents this) (h.contents mint)).1)
    (hoperand : (withLoop op (this.zip mint) h).1.contents mint = h.contents mint) :
    Isolated op h this mint := by
  have hfst : (this.zip mint).map Prod.fst = this := List.map_fst_zip hlen.le
  rw [withLoop_eq_sweep hop, Minterval.opWith, ← pairs_zip, ← sweepValues_calcWith hs] at hreceiver
  rw [withLoop_eq_sweep hop] at hoperand
  refine (Heap.isolated_congr (calcWith_eq_of_sound hs) fun _ _ => rfl).mp
    (Heap.isolated_of_sweep (hfst.symm ▸ hnodup) (fun p hp => (List.of_mem_zip hp).2) ?_ ?_)
  · rw [hfst]
    exact hreceiver
  · exact List.map_inj_left.mp hoperand

end RasMInterval

end Rasdaman
