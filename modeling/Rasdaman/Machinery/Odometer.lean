import Mathlib
import Rasdaman.Machinery.ExceptFold

/-!
# Machinery/Odometer — loops that step several counters, the last one fastest

A `Wheel` has a first position and a way from each position to the next one.  `turn` moves on the last
wheel that can move and sets those behind it back.  `Visits` is the run of a loop: the positions it
goes through.  A turning row of wheels visits every combination of the positions of its wheels once.
-/

namespace Odometer

variable {α β ε : Type} {n : ℕ}

/-! ## Loops -/

/-- Going on with `next` from `o`, a loop goes through the positions `l` and arrives at `o'`. -/
def Visits (next : α → Option α) : Option α → List α → Option α → Prop
  | o, [], o' => o = o'
  | o, x :: l, o' => o = some x ∧ Visits next (next x) l o'

/-- The loop with a body that may raise, for at most so many rounds; it is `endless` when it does not
end by then. -/
def sweep (endless : ε) (next : α → Option α) (body : α → Except ε (List β)) :
    ℕ → Option α → Except ε (List β)
  | _, none => .ok []
  | 0, some _ => .error endless
  | fuel + 1, some x => do
    let here ← body x
    let rest ← sweep endless next body fuel (next x)
    return here ++ rest

/-- The loop with a body that changes a state and may raise, for at most so many rounds. -/
def walk {σ : Type} (endless : ε) (next : α → Option α) (body : σ → α → Except ε σ) :
    ℕ → Option α → σ → Except ε σ
  | _, none, s => .ok s
  | 0, some _, _ => .error endless
  | fuel + 1, some x, s => do
    let s ← body s x
    walk endless next body fuel (next x) s

variable {next : α → Option α} {o o' o'' : Option α} {l l' : List α}

theorem Visits.append (h : Visits next o l o') (h' : Visits next o' l' o'') :
    Visits next o (l ++ l') o'' := by
  induction l generalizing o with
  | nil =>
    obtain rfl : o = o' := h
    exact h'
  | cons x l ih => exact ⟨h.1, ih h.2⟩

/-- Only the steps from the positions visited count. -/
theorem Visits.congr {next' : α → Option α} (h : Visits next o l o')
    (heq : ∀ x ∈ l, next' x = next x) : Visits next' o l o' := by
  induction l generalizing o with
  | nil => exact h
  | cons x l ih =>
    obtain ⟨hx, hl⟩ := List.forall_mem_cons.mp heq
    refine ⟨h.1, ?_⟩
    rw [hx]
    exact ih h.2 hl

/-- A loop whose positions are another's under a map visits the images. -/
theorem Visits.map {next' : β → Option β} {f : α → β} (h : Visits next o l o')
    (hf : ∀ x ∈ l, next' (f x) = (next x).map f) :
    Visits next' (o.map f) (l.map f) (o'.map f) := by
  induction l generalizing o with
  | nil => exact congrArg (Option.map f) h
  | cons x l ih =>
    obtain ⟨rfl, h⟩ := h
    obtain ⟨hx, hl⟩ := List.forall_mem_cons.mp hf
    refine ⟨rfl, ?_⟩
    rw [hx]
    exact ih h hl

/-- **A loop that ends collects what its body returns at the positions it visits.** -/
theorem sweep_eq {endless : ε} {body : α → Except ε (List β)} {out : α → List β} {fuel : ℕ}
    (h : Visits next o l none) (hfuel : l.length ≤ fuel) (hbody : ∀ x ∈ l, body x = .ok (out x)) :
    sweep endless next body fuel o = .ok (l.flatMap out) := by
  induction l generalizing o fuel with
  | nil =>
    obtain rfl : o = none := h
    cases fuel <;> rfl
  | cons x l ih =>
    obtain ⟨rfl, h⟩ := h
    obtain ⟨hx, hl⟩ := List.forall_mem_cons.mp hbody
    cases fuel with
    | zero => simp at hfuel
    | succ fuel =>
      rw [sweep, hx, ih h (by simpa using hfuel) hl]
      rfl

/-- **A loop that ends folds its body over the positions it visits.** -/
theorem walk_eq {σ : Type} {endless : ε} {body : σ → α → Except ε σ} {fuel : ℕ}
    (h : Visits next o l none) (hfuel : l.length ≤ fuel) (s : σ) :
    walk endless next body fuel o s = l.foldlM body s := by
  induction l generalizing o fuel s with
  | nil =>
    obtain rfl : o = none := h
    cases fuel <;> rfl
  | cons x l ih =>
    obtain ⟨rfl, h⟩ := h
    cases fuel with
    | zero => simp at hfuel
    | succ fuel =>
      rw [walk, List.foldlM_cons]
      cases body s x with
      | error e => rfl
      | ok s' => exact ih h (by simpa using hfuel) s'

/-- What a loop collects, its body returned at a position it visits. -/
theorem exists_visited_of_mem_sweep {endless : ε} {body : α → Except ε (List β)} {fuel : ℕ} {bs : List β}
    {y : β} (h : Visits next o l none) (hok : sweep endless next body fuel o = .ok bs) (hy : y ∈ bs) :
    ∃ x ∈ l, ∃ out, body x = .ok out ∧ y ∈ out := by
  induction l generalizing o fuel bs with
  | nil =>
    obtain rfl : o = none := h
    obtain rfl : [] = bs := by cases fuel <;> exact Except.ok.inj hok
    exact absurd hy List.not_mem_nil
  | cons x l ih =>
    obtain ⟨rfl, h⟩ := h
    cases fuel with
    | zero => exact nomatch hok
    | succ fuel =>
      rw [sweep] at hok
      cases hx : body x with
      | error e => rw [hx] at hok; exact nomatch hok
      | ok here =>
        cases hrest : sweep endless next body fuel (next x) with
        | error e => rw [hx, hrest] at hok; exact nomatch hok
        | ok rest =>
          rw [hx, hrest] at hok
          obtain rfl : here ++ rest = bs := Except.ok.inj hok
          rcases List.mem_append.mp hy with hy | hy
          · exact ⟨x, List.mem_cons_self, here, hx, hy⟩
          · obtain ⟨x', hx', out, hbody, hout⟩ := ih h hrest hy
            exact ⟨x', List.mem_cons_of_mem _ hx', out, hbody, hout⟩

/-- What a loop collects, its body returned at some position. -/
theorem exists_of_mem_sweep {endless : ε} {body : α → Except ε (List β)} {fuel : ℕ} {bs : List β}
    {y : β} (h : sweep endless next body fuel o = .ok bs) (hy : y ∈ bs) :
    ∃ x out, body x = .ok out ∧ y ∈ out := by
  induction fuel generalizing o bs with
  | zero =>
    cases o with
    | none =>
      obtain rfl : [] = bs := Except.ok.inj h
      exact absurd hy List.not_mem_nil
    | some x => exact nomatch h
  | succ fuel ih =>
    cases o with
    | none =>
      obtain rfl : [] = bs := Except.ok.inj h
      exact absurd hy List.not_mem_nil
    | some x =>
      rw [sweep] at h
      cases hx : body x with
      | error e => rw [hx] at h; exact nomatch h
      | ok here =>
        cases hrest : sweep endless next body fuel (next x) with
        | error e => rw [hx, hrest] at h; exact nomatch h
        | ok rest =>
          rw [hx, hrest] at h
          obtain rfl : here ++ rest = bs := Except.ok.inj h
          rcases List.mem_append.mp hy with hy | hy
          · exact ⟨x, here, hx, hy⟩
          · exact ih hrest hy

/-- **A loop that goes on where another one ends**, collects something there after its first round. -/
theorem exists_of_sweep_past {next' : β → Option β} {γ : Type} {f : α → β} {endless : ε}
    {body : β → Except ε (List γ)} {fuel : ℕ} {gs : List γ} {x₀ : α} {Q : β → Prop}
    (h : Visits next (some x₀) l none) (hgo : ∀ x ∈ l, ∀ y, next x = some y → next' (f x) = some (f y))
    (hpast : ∀ x ∈ l, next x = none → ∃ z, Q z ∧ next' (f x) = some z)
    (hok : sweep endless next' body fuel (some (f x₀)) = .ok gs) :
    ∃ out rest, body (f x₀) = .ok out ∧ gs = out ++ rest ∧
      ∃ z, Q z ∧ ∃ out', body z = .ok out' ∧ ∀ y ∈ out', y ∈ rest := by
  induction l generalizing x₀ fuel gs with
  | nil => cases h
  | cons x l ih =>
    obtain ⟨hx, h⟩ := h
    obtain rfl : x₀ = x := Option.some.inj hx
    obtain ⟨hgo₀, hgo⟩ := List.forall_mem_cons.mp hgo
    obtain ⟨hpast₀, hpast⟩ := List.forall_mem_cons.mp hpast
    cases fuel with
    | zero => cases hok
    | succ fuel =>
      obtain ⟨out, hout, hok⟩ := ExceptFold.bind_eq_ok hok
      obtain ⟨rest, hrest, hgs⟩ := ExceptFold.bind_eq_ok hok
      refine ⟨out, rest, hout, (Except.ok.inj hgs).symm, ?_⟩
      cases hnext : next x₀ with
      | none =>
        obtain ⟨z, hz, hnext'⟩ := hpast₀ hnext
        rw [hnext'] at hrest
        cases fuel with
        | zero => cases hrest
        | succ fuel =>
          obtain ⟨out', hout', hrest⟩ := ExceptFold.bind_eq_ok hrest
          obtain ⟨rest', -, hrest⟩ := ExceptFold.bind_eq_ok hrest
          obtain rfl := Except.ok.inj hrest
          exact ⟨z, hz, out', hout', fun y hy => List.mem_append_left _ hy⟩
      | some y =>
        rw [hgo₀ y hnext] at hrest
        rw [hnext] at h
        obtain ⟨-, rest', -, rfl, z, hz, out', hout', hmem⟩ := ih h hgo hpast hrest
        exact ⟨z, hz, out', hout', fun y hy => List.mem_append_right _ (hmem y hy)⟩

/-- **A loop whose counter always moves on does not end.** -/
theorem sweep_ne_ok {endless : ε} {body : α → Except ε (List β)} (h : ∀ x, next x ≠ none)
    (fuel : ℕ) (x : α) (bs : List β) : sweep endless next body fuel (some x) ≠ .ok bs := by
  induction fuel generalizing x bs with
  | zero => exact fun hok => nomatch hok
  | succ fuel ih =>
    intro hok
    obtain ⟨x', hx'⟩ := Option.ne_none_iff_exists'.mp (h x)
    rw [sweep, hx'] at hok
    cases hx : body x with
    | error e => rw [hx] at hok; exact nomatch hok
    | ok here =>
      cases hrest : sweep endless next body fuel (some x') with
      | error e => rw [hx, hrest] at hok; exact nomatch hok
      | ok rest => exact ih x' rest hrest

/-- A loop that ends, ends each round of its body. -/
theorem body_of_sweep_ok {endless : ε} {body : α → Except ε (List β)} {fuel : ℕ} {x : α}
    {bs : List β} (h : sweep endless next body fuel (some x) = .ok bs) : ∃ out, body x = .ok out := by
  cases fuel with
  | zero => exact nomatch h
  | succ fuel =>
    rw [sweep] at h
    cases hx : body x with
    | error e => rw [hx] at h; exact nomatch h
    | ok out => exact ⟨out, rfl⟩

/-! ## Counters -/

/-- The integers from `a` on up to `b`. -/
def upTo (a b : ℤ) : List ℤ := (List.range (b + 1 - a).toNat).map fun k : ℕ => a + k

@[simp] theorem mem_upTo {a b k : ℤ} : k ∈ upTo a b ↔ a ≤ k ∧ k ≤ b := by
  simp only [upTo, List.mem_map, List.mem_range]
  refine ⟨?_, fun h => ⟨(k - a).toNat, by omega, by omega⟩⟩
  rintro ⟨m, hm, rfl⟩
  omega

theorem nodup_upTo (a b : ℤ) : (upTo a b).Nodup :=
  List.nodup_range.map fun x y (h : a + (x : ℤ) = a + (y : ℤ)) => by omega

@[simp] theorem length_upTo (a b : ℤ) : (upTo a b).length = (b + 1 - a).toNat := by simp [upTo]

theorem upTo_cons {a b : ℤ} (h : a ≤ b) : upTo a b = a :: upTo (a + 1) b := by
  have hlen : (b + 1 - a).toNat = (b + 1 - (a + 1)).toNat + 1 := by omega
  rw [upTo, hlen, List.range_succ_eq_map, List.map_cons, List.map_map, upTo]
  refine congrArg₂ List.cons (by simp) (List.map_congr_left fun k _ => ?_)
  simp only [Function.comp_apply, Nat.succ_eq_add_one]
  omega

/-- **A counter that stops at `b` goes through the integers from `a` to `b`.** -/
theorem visits_upTo {a b : ℤ} (h : a ≤ b) :
    Visits (fun x => if x = b then none else some (x + 1)) (some a) (upTo a b) none := by
  obtain ⟨m, hm⟩ := Int.eq_ofNat_of_zero_le (Int.sub_nonneg_of_le h)
  induction m generalizing a with
  | zero =>
    obtain rfl : a = b := by omega
    rw [upTo_cons le_rfl]
    refine ⟨rfl, ?_⟩
    have hnil : upTo (a + 1) a = [] := by simp [upTo]
    rw [hnil]
    simp [Visits]
  | succ m ih =>
    have hne : a ≠ b := by omega
    rw [upTo_cons h]
    refine ⟨rfl, ?_⟩
    simp only [if_neg hne]
    exact ih (by omega) (by omega)

/-- **A counter with steps of `s` goes through the multiples of `s` up to `b`.** -/
theorem visits_steps {s b k : ℤ} (hs : 0 < s) (hk : s * k ≤ b) :
    Visits (fun x => if x + s ≤ b then some (x + s) else none) (some (s * k))
      ((upTo k (b / s)).map (s * ·)) none := by
  have hle : k ≤ b / s := (Int.le_ediv_iff_mul_le hs).mpr (by rwa [Int.mul_comm])
  obtain ⟨m, hm⟩ := Int.eq_ofNat_of_zero_le (Int.sub_nonneg_of_le hle)
  induction m generalizing k with
  | zero =>
    have hout : ¬ s * k + s ≤ b := by
      intro h
      have := (Int.le_ediv_iff_mul_le hs).mpr (show (k + 1) * s ≤ b by
        rwa [Int.add_mul, Int.mul_comm k, Int.one_mul])
      omega
    have hnil : upTo (k + 1) (b / s) = [] := by simp [upTo]; omega
    rw [upTo_cons hle, List.map_cons, hnil]
    exact ⟨rfl, if_neg hout⟩
  | succ m ih =>
    have hin : s * (k + 1) ≤ b := by
      rw [Int.mul_comm]
      exact (Int.le_ediv_iff_mul_le hs).mp (by omega)
    rw [upTo_cons hle, List.map_cons]
    refine ⟨rfl, ?_⟩
    have hnext : s * k + s = s * (k + 1) := by rw [Int.mul_add, Int.mul_one]
    simp only [hnext, if_pos hin]
    exact ih hin (by omega) (by omega)

/-! ## Wheels -/

/-- The first position, and the position after a given one unless that is the last. -/
structure Wheel (α : Type) where
  first : α
  next : α → Option α

/-- Move on the last of the first `c` wheels that can move; those behind it start anew. -/
def turnFrom (w : Fin n → Wheel α) (x : Fin n → α) : (c : ℕ) → c ≤ n → Option (Fin n → α)
  | 0, _ => none
  | c + 1, h => match (w ⟨c, h⟩).next (x ⟨c, h⟩) with
    | none => turnFrom w x c (Nat.le_of_succ_le h)
    | some y => some fun i => if (i : ℕ) < c then x i else if (i : ℕ) = c then y else (w i).first

/-- Move on the last wheel that can move. -/
def turn (w : Fin n → Wheel α) (x : Fin n → α) : Option (Fin n → α) := turnFrom w x n le_rfl

/-- The combinations of positions, the last wheel running fastest. -/
def combos : {n : ℕ} → (Fin n → List α) → List (Fin n → α)
  | 0, _ => [Fin.elim0]
  | _ + 1, ps => (ps 0).flatMap fun x => (combos (Fin.tail ps)).map fun v => Fin.cons x v

theorem combos_zero (ps : Fin 0 → List α) : combos ps = [Fin.elim0] := rfl

theorem combos_succ (ps : Fin (n + 1) → List α) :
    combos ps = (ps 0).flatMap fun x => (combos (Fin.tail ps)).map fun v => Fin.cons x v := rfl

theorem mem_combos {ps : Fin n → List α} {v : Fin n → α} : v ∈ combos ps ↔ ∀ i, v i ∈ ps i := by
  induction n with
  | zero =>
    simp only [combos_zero, List.mem_singleton, IsEmpty.forall_iff, iff_true]
    exact Subsingleton.elim _ _
  | succ n ih =>
    simp only [combos_succ, List.mem_flatMap, List.mem_map, ih, Fin.forall_fin_succ]
    constructor
    · rintro ⟨x, hx, u, hu, rfl⟩
      exact ⟨hx, hu⟩
    · rintro ⟨h0, hs⟩
      exact ⟨v 0, h0, Fin.tail v, hs, Fin.cons_self_tail v⟩

theorem nodup_combos {ps : Fin n → List α} (h : ∀ i, (ps i).Nodup) : (combos ps).Nodup := by
  induction n with
  | zero => exact List.nodup_singleton _
  | succ n ih =>
    rw [combos_succ, List.nodup_flatMap]
    have hinj : ∀ x : α, Function.Injective fun v : Fin n → α => (Fin.cons x v : Fin (n + 1) → α) :=
      fun x => Fin.cons_right_injective (α := fun _ => α) x
    refine ⟨fun x _ => (ih fun i => h i.succ).map (hinj x), ?_⟩
    refine (h 0).imp fun {x y} hne => ?_
    rw [Function.onFun, List.disjoint_left]
    rintro v hv hv'
    obtain ⟨u, -, rfl⟩ := List.mem_map.mp hv
    obtain ⟨u', -, hu'⟩ := List.mem_map.mp hv'
    exact hne (congrFun hu' 0).symm

theorem length_combos (ps : Fin n → List α) :
    (combos ps).length = (List.ofFn fun i => (ps i).length).prod := by
  induction n with
  | zero => rfl
  | succ n ih =>
    have hi : (combos (Fin.tail ps)).length = (List.ofFn fun i => (ps i.succ).length).prod := ih _
    rw [combos_succ, List.length_flatMap, List.ofFn_succ, List.prod_cons, ← hi]
    simp

theorem turnFrom_of_none {w : Fin n → Wheel α} {x : Fin n → α} {c : ℕ} {h : c + 1 ≤ n}
    (hc : (w ⟨c, h⟩).next (x ⟨c, h⟩) = none) :
    turnFrom w x (c + 1) h = turnFrom w x c (Nat.le_of_succ_le h) := by
  rw [turnFrom, hc]

theorem turnFrom_of_some {w : Fin n → Wheel α} {x : Fin n → α} {c : ℕ} {h : c + 1 ≤ n} {y : α}
    (hc : (w ⟨c, h⟩).next (x ⟨c, h⟩) = some y) :
    turnFrom w x (c + 1) h =
      some fun i : Fin n =>
        if (i : ℕ) < c then x i else if (i : ℕ) = c then y else (w i).first := by
  rw [turnFrom, hc]

/-- No wheel turns exactly where none can move. -/
theorem turnFrom_eq_none_iff {w : Fin n → Wheel α} {x : Fin n → α} {c : ℕ} {h : c ≤ n} :
    turnFrom w x c h = none ↔ ∀ i : Fin n, (i : ℕ) < c → (w i).next (x i) = none := by
  induction c with
  | zero => exact ⟨nofun, fun _ => rfl⟩
  | succ c ih =>
    cases hc : (w ⟨c, h⟩).next (x ⟨c, h⟩) with
    | none =>
      rw [turnFrom_of_none hc, ih]
      refine ⟨fun hstop i hi => ?_, fun hstop i hi => hstop i (by omega)⟩
      rcases Nat.lt_succ_iff_lt_or_eq.mp hi with hlt | heq
      · exact hstop i hlt
      · obtain rfl : i = ⟨c, h⟩ := Fin.ext heq
        exact hc
    | some y =>
      rw [turnFrom_of_some hc]
      refine ⟨fun hnone => (Option.some_ne_none _ hnone).elim, fun hstop => ?_⟩
      rw [hstop ⟨c, h⟩ (Nat.lt_succ_self c)] at hc
      cases hc

/-- The wheels behind the first one turn before it does. -/
theorem turnFrom_succ (w : Fin (n + 1) → Wheel α) (x : Fin (n + 1) → α) (c : ℕ) (h : c ≤ n) :
    turnFrom w x (c + 1) (Nat.succ_le_succ h) =
      match turnFrom (Fin.tail w) (Fin.tail x) c h with
      | some y => some (Fin.cons (x 0) y)
      | none => ((w 0).next (x 0)).map fun y => Fin.cons y fun i => (w i.succ).first := by
  induction c with
  | zero =>
    rcases h0 : (w 0).next (x 0) with _ | y
    · rw [turnFrom_of_none (c := 0) h0]
      rfl
    · rw [turnFrom_of_some (c := 0) h0]
      refine congrArg some (funext fun i => ?_)
      cases i using Fin.cases <;> simp
  | succ c ih =>
    rcases hc : (Fin.tail w ⟨c, h⟩).next (Fin.tail x ⟨c, h⟩) with _ | y
    · rw [turnFrom_of_none hc, turnFrom_of_none (c := c + 1) hc, ih]
    · rw [turnFrom_of_some hc, turnFrom_of_some (c := c + 1) hc]
      refine congrArg some (funext fun i => ?_)
      cases i using Fin.cases <;> simp [Fin.tail]

theorem turn_succ (w : Fin (n + 1) → Wheel α) (x : Fin (n + 1) → α) :
    turn w x = match turn (Fin.tail w) (Fin.tail x) with
      | some y => some (Fin.cons (x 0) y)
      | none => ((w 0).next (x 0)).map fun y => Fin.cons y fun i => (w i.succ).first :=
  turnFrom_succ w x n le_rfl

/-- While the first wheel stays, the others turn. -/
theorem visits_turn_tail {w : Fin (n + 1) → Wheel α} {x : α} {o : Option (Fin n → α)}
    {vs : List (Fin n → α)} (h : Visits (turn (Fin.tail w)) o vs none) (hne : o ≠ none) :
    Visits (turn w) (o.map (Fin.cons x)) (vs.map fun v => Fin.cons x v)
      (((w 0).next x).map fun y => Fin.cons y fun i => (w i.succ).first) := by
  induction vs generalizing o with
  | nil => exact absurd h hne
  | cons v vs ih =>
    obtain ⟨rfl, h⟩ := h
    refine ⟨rfl, ?_⟩
    simp only [turn_succ, Fin.tail_cons, Fin.cons_zero]
    rcases hv : turn (Fin.tail w) v with _ | v'
    · rw [hv] at h
      obtain rfl : vs = [] := by
        cases vs with
        | nil => rfl
        | cons u us => cases h.1
      rfl
    · rw [hv] at h
      exact ih h (Option.some_ne_none _)

/-- **A row of wheels goes through all the combinations of their positions.** -/
theorem visits_turn {w : Fin n → Wheel α} {ps : Fin n → List α}
    (h : ∀ i, Visits (w i).next (some (w i).first) (ps i) none) :
    Visits (turn w) (some fun i => (w i).first) (combos ps) none := by
  induction n with
  | zero => exact ⟨congrArg some (Subsingleton.elim _ _), rfl⟩
  | succ n ih =>
    have htail : Visits (turn (Fin.tail w)) (some fun i => (w i.succ).first)
        (combos (Fin.tail ps)) none := ih fun i => h i.succ
    have hall : ∀ (l : List α) (o : Option α), Visits (w 0).next o l none →
        Visits (turn w) (o.map fun y => Fin.cons y fun i => (w i.succ).first)
          (l.flatMap fun x => (combos (Fin.tail ps)).map fun v => Fin.cons x v) none := by
      intro l
      induction l with
      | nil =>
        rintro o rfl
        rfl
      | cons x l ihl =>
        rintro o ⟨rfl, hl⟩
        rw [List.flatMap_cons]
        exact (visits_turn_tail htail (Option.some_ne_none _)).append (ihl _ hl)
    have hfirst : (some fun i => (w i).first) =
        (some (w 0).first).map fun y => Fin.cons (α := fun _ => α) y fun i => (w i.succ).first := by
      refine congrArg some (funext fun i => ?_)
      cases i using Fin.cases <;> rfl
    rw [hfirst]
    exact hall (ps 0) _ (h 0)

end Odometer

/-!
## Counters that carry in any order

A row of wheels, named by any type, is turned in the order of a list: the first wheel of the list that can move
is moved on, and those in front of it start anew.  `visits_carry` says that this goes through every combination
of the positions of the wheels once, the first wheel of the list running fastest.
-/

namespace Odometer

variable {ι α : Type} [DecidableEq ι]

/-- Move on the first wheel that can move. -/
def carry (w : ι → Wheel α) : List ι → (ι → α) → Option (ι → α)
  | [], _ => none
  | i :: is, x => match (w i).next (x i) with
    | some y => some (Function.update x i y)
    | none => carry w is (Function.update x i (w i).first)

/-- The combinations of positions of some wheels, the first one running fastest. -/
def combosOf (ps : ι → List α) : List ι → (ι → α) → List (ι → α)
  | [], x => [x]
  | i :: is, x => (combosOf ps is x).flatMap fun v => (ps i).map fun y => Function.update v i y

variable {w : ι → Wheel α} {ps : ι → List α} {l : List ι} {x v : ι → α} {i : ι}

theorem mem_combosOf (hl : l.Nodup) :
    v ∈ combosOf ps l x ↔ (∀ i ∈ l, v i ∈ ps i) ∧ ∀ i, i ∉ l → v i = x i := by
  induction l generalizing v with
  | nil => simp [combosOf, funext_iff]
  | cons j l ih =>
    obtain ⟨hj, hl⟩ := List.nodup_cons.mp hl
    simp only [combosOf, List.mem_flatMap, List.mem_map, ih hl]
    constructor
    · rintro ⟨u, ⟨hin, hout⟩, y, hy, rfl⟩
      refine ⟨fun i hi => ?_, fun i hi => ?_⟩
      · rcases eq_or_ne i j with rfl | hne
        · rwa [Function.update_self]
        · rw [Function.update_of_ne hne]
          exact hin i ((List.mem_cons.mp hi).resolve_left hne)
      · obtain ⟨hne, hi⟩ := not_or.mp (mt List.mem_cons.mpr hi)
        rw [Function.update_of_ne hne, hout i hi]
    · rintro ⟨hin, hout⟩
      refine ⟨Function.update v j (x j), ⟨fun i hi => ?_, fun i hi => ?_⟩, v j, hin j List.mem_cons_self, ?_⟩
      · rw [Function.update_of_ne (ne_of_mem_of_not_mem hi hj)]
        exact hin i (List.mem_cons_of_mem j hi)
      · rcases eq_or_ne i j with rfl | hne
        · rw [Function.update_self]
        · rw [Function.update_of_ne hne]
          exact hout i fun hmem => (List.mem_cons.mp hmem).elim hne hi
      · rw [Function.update_idem, Function.update_eq_self]

theorem nodup_combosOf (hl : l.Nodup) (hps : ∀ i ∈ l, (ps i).Nodup) : (combosOf ps l x).Nodup := by
  induction l with
  | nil => exact List.nodup_singleton _
  | cons j l ih =>
    obtain ⟨hj, hl'⟩ := List.nodup_cons.mp hl
    obtain ⟨hpj, hps⟩ := List.forall_mem_cons.mp hps
    rw [combosOf, List.nodup_flatMap]
    refine ⟨fun v _ => hpj.map fun y y' h => ?_, (ih hl' hps).imp_of_mem fun {u v} hu hv hne => ?_⟩
    · simpa using congrFun h j
    · rw [Function.onFun, List.disjoint_left]
      rintro z hz hz'
      obtain ⟨y, -, rfl⟩ := List.mem_map.mp hz
      obtain ⟨y', -, hy'⟩ := List.mem_map.mp hz'
      refine hne (funext fun i => ?_)
      rcases eq_or_ne i j with rfl | hij
      · rw [((mem_combosOf hl').mp hu).2 i hj, ((mem_combosOf hl').mp hv).2 i hj]
      · have hi := congrFun hy' i
        rw [Function.update_of_ne hij, Function.update_of_ne hij] at hi
        exact hi.symm

theorem length_combosOf (ps : ι → List α) (l : List ι) (x : ι → α) :
    (combosOf ps l x).length = (l.map fun i => (ps i).length).prod := by
  induction l with
  | nil => rfl
  | cons j l ih =>
    rw [combosOf, List.length_flatMap, List.map_cons, List.prod_cons, ← ih]
    simp [Nat.mul_comm]

/-- While the other wheels stay, the first one moves. -/
theorem visits_carry_head {o : Option α} {xs : List α} (h : Visits (w i).next o xs none) (hne : o ≠ none) :
    Visits (carry w (i :: l)) (o.map fun y => Function.update v i y) (xs.map fun y => Function.update v i y)
      (carry w l (Function.update v i (w i).first)) := by
  induction xs generalizing o with
  | nil => exact absurd h hne
  | cons y xs ih =>
    obtain ⟨rfl, h⟩ := h
    refine ⟨rfl, ?_⟩
    cases hy : (w i).next y with
    | none =>
      rw [hy] at h
      obtain rfl : xs = [] := by
        cases xs with
        | nil => rfl
        | cons z zs => cases h.1
      rw [List.map_nil, Visits, carry]
      dsimp only
      rw [Function.update_self, hy]
      dsimp only
      rw [Function.update_idem]
    | some y' =>
      rw [hy] at h
      have hcarry : carry w (i :: l) (Function.update v i y) = some (Function.update v i y') := by
        rw [carry, Function.update_self, hy]
        dsimp only
        rw [Function.update_idem]
      rw [hcarry]
      exact ih h (Option.some_ne_none _)

/-- **A row of wheels goes through all the combinations of their positions**, the first wheel fastest. -/
theorem visits_carry (hl : l.Nodup) (hx : ∀ i ∈ l, x i = (w i).first)
    (h : ∀ i ∈ l, Visits (w i).next (some (w i).first) (ps i) none) :
    Visits (carry w l) (some x) (combosOf ps l x) none := by
  induction l with
  | nil => exact ⟨rfl, rfl⟩
  | cons i l ih =>
    obtain ⟨hi, hl⟩ := List.nodup_cons.mp hl
    obtain ⟨hxi, hx⟩ := List.forall_mem_cons.mp hx
    obtain ⟨hwi, h⟩ := List.forall_mem_cons.mp h
    -- the other wheels, each time with the first wheel at its start
    have hall : ∀ (vs : List (ι → α)) (o : Option (ι → α)), (∀ v ∈ vs, v i = (w i).first) →
        Visits (carry w l) o vs none →
        Visits (carry w (i :: l)) o (vs.flatMap fun v => (ps i).map fun y => Function.update v i y) none := by
      intro vs
      induction vs with
      | nil => exact fun o _ ho => ho
      | cons v vs ihv =>
        rintro o hvs ⟨rfl, ho⟩
        obtain ⟨hv, hvs⟩ := List.forall_mem_cons.mp hvs
        have hself : Function.update v i (w i).first = v := by rw [← hv, Function.update_eq_self]
        have hhead := visits_carry_head (l := l) (v := v) hwi (Option.some_ne_none _)
        rw [Option.map_some, hself] at hhead
        exact hhead.append (ihv _ hvs ho)
    refine hall _ _ (fun v hv => ?_) (ih hl hx h)
    rw [((mem_combosOf hl).mp hv).2 i hi, hxi]

/-- **A counter that starts anew from `n` on counts up to there**, and takes at least one position. -/
theorem visits_range (n : ℕ) :
    Visits (fun x : ℕ => if n ≤ x + 1 then none else some (x + 1)) (some 0) (List.range (max 1 n)) none := by
  have hfrom : ∀ m k : ℕ, k + m + 1 = max 1 n →
      Visits (fun x : ℕ => if n ≤ x + 1 then none else some (x + 1)) (some k) (List.range' k (m + 1)) none := by
    intro m
    induction m with
    | zero =>
      intro k hk
      exact ⟨rfl, if_pos (by omega)⟩
    | succ m ih =>
      intro k hk
      rw [List.range'_succ]
      refine ⟨rfl, ?_⟩
      dsimp only
      rw [if_neg (by omega)]
      exact ih (k + 1) (by omega)
  have h := hfrom (max 1 n - 1) 0 (by omega)
  rwa [Nat.sub_add_cancel (le_max_left 1 n), ← List.range_eq_range'] at h

end Odometer
