import Mathlib.Data.List.Basic
import Mathlib.Logic.Function.Basic

/-!
# Machinery/Heap — objects with references against values

A program with references changes objects, one with values changes values.  `sweep` changes one object
after another, each with the help of a second one, until an operation throws; it does to the objects what
`sweepValues` does to their values as long as an object that changes stands in one place of the loop only.
-/

/-- Objects, known by their references; `next` is the reference of the next new one. -/
structure Heap (α : Type) where
  next : ℕ
  get : ℕ → α

namespace Heap

variable {α ε : Type}

/-- A new object. -/
def new (h : Heap α) (v : α) : ℕ × Heap α := (h.next, ⟨h.next + 1, Function.update h.get h.next v⟩)

/-- An object changes its value. -/
def set (h : Heap α) (r : ℕ) (v : α) : Heap α := ⟨h.next, Function.update h.get r v⟩

/-- The values of some objects. -/
def contents (h : Heap α) (rs : List ℕ) : List α := rs.map h.get

/-- The objects were made before. -/
def Allocated (h : Heap α) (rs : List ℕ) : Prop := ∀ r ∈ rs, r < h.next

instance (h : Heap α) (rs : List ℕ) : Decidable (h.Allocated rs) :=
  inferInstanceAs (Decidable (∀ r ∈ rs, r < h.next))

/-- One object after another is changed, and whether the loop threw. -/
def sweep (f : α → α → Except ε α) : List (ℕ × ℕ) → Heap α → Heap α × Bool
  | [], h => (h, false)
  | (r, s) :: ps, h =>
    match f (h.get r) (h.get s) with
    | .error _ => (h, true)
    | .ok v => sweep f ps (h.set r v)

/-- One value after another is changed, and whether the loop threw. -/
def sweepValues (f : α → α → Except ε α) : List (α × α) → List α × Bool
  | [] => ([], false)
  | (x, y) :: ps =>
    match f x y with
    | .error _ => (x :: ps.map Prod.fst, true)
    | .ok v => (v :: (sweepValues f ps).1, (sweepValues f ps).2)

/-- The values of pairs of objects. -/
def pairs (h : Heap α) (ps : List (ℕ × ℕ)) : List (α × α) := ps.map fun p => (h.get p.1, h.get p.2)

/-- Each round leaves its object as it is, or changes one that is not to stay as it is and stands in no
later round. -/
def Isolated (f : α → α → Except ε α) (h : Heap α) : (staying : List ℕ) → List (ℕ × ℕ) → Prop
  | _, [] => True
  | staying, (r, s) :: ps =>
    match f (h.get r) (h.get s) with
    | .error _ => True
    | .ok v => (v = h.get r ∨ r ∉ staying ∧ r ∉ ps.map Prod.fst) ∧ Isolated f h (r :: staying) ps

variable {f g : α → α → Except ε α} {h h' : Heap α} {r s : ℕ} {v : α} {ps : List (ℕ × ℕ)}
  {rs staying : List ℕ}

@[simp] theorem get_set_self : (h.set r v).get r = v := Function.update_self ..

theorem get_set_of_ne (hrs : s ≠ r) : (h.set r v).get s = h.get s := Function.update_of_ne hrs ..

theorem get_new_self : (h.new v).2.get (h.new v).1 = v := Function.update_self ..

theorem get_new_of_lt (hr : r < h.next) : (h.new v).2.get r = h.get r :=
  Function.update_of_ne (Nat.ne_of_lt hr) ..

theorem set_get_self (h : Heap α) (r : ℕ) : h.set r (h.get r) = h :=
  congrArg (Heap.mk h.next) (Function.update_eq_self r h.get)

theorem contents_congr (heq : ∀ r ∈ rs, h'.get r = h.get r) : h'.contents rs = h.contents rs :=
  List.map_congr_left heq

theorem pairs_congr (heq : ∀ p ∈ ps, h'.get p.1 = h.get p.1 ∧ h'.get p.2 = h.get p.2) :
    h'.pairs ps = h.pairs ps :=
  List.map_congr_left fun p hp => by rw [(heq p hp).1, (heq p hp).2]

theorem sweepValues_congr {xs : List (α × α)} (hfg : ∀ p ∈ xs, f p.1 p.2 = g p.1 p.2) :
    sweepValues f xs = sweepValues g xs := by
  induction xs with
  | nil => rfl
  | cons p xs ih =>
    obtain ⟨hp, hxs⟩ := List.forall_mem_cons.mp hfg
    rw [sweepValues, sweepValues, hp, ih hxs]

/-- Rounds that only leave values as they are. -/
theorem sweepValues_fst {xs : List (α × α)} (hself : ∀ p ∈ xs, ∀ v, f p.1 p.2 = .ok v → v = p.1) :
    (sweepValues f xs).1 = xs.map Prod.fst := by
  induction xs with
  | nil => rfl
  | cons p xs ih =>
    obtain ⟨hp, hxs⟩ := List.forall_mem_cons.mp hself
    rw [sweepValues]
    cases hv : f p.1 p.2 with
    | error e => rfl
    | ok v => exact congrArg₂ List.cons (hp v hv) (ih hxs)

/-- **A loop changes nothing and does not throw** exactly when no round does. -/
theorem sweepValues_eq_iff {xs : List (α × α)} :
    sweepValues f xs = (xs.map Prod.fst, false) ↔ ∀ p ∈ xs, f p.1 p.2 = .ok p.1 := by
  induction xs with
  | nil => simp [sweepValues]
  | cons p xs ih =>
    rw [sweepValues, List.forall_mem_cons, ← ih]
    cases f p.1 p.2 with
    | error e => simp
    | ok v => simp [Prod.ext_iff, and_assoc]

theorem isolated_congr (hfg : ∀ p ∈ ps, f (h'.get p.1) (h'.get p.2) = g (h.get p.1) (h.get p.2))
    (hget : ∀ p ∈ ps, h'.get p.1 = h.get p.1) : Isolated f h' staying ps ↔ Isolated g h staying ps := by
  induction ps generalizing staying with
  | nil => rfl
  | cons p ps ih =>
    obtain ⟨hp, hps⟩ := List.forall_mem_cons.mp hfg
    obtain ⟨hr, hrs⟩ := List.forall_mem_cons.mp hget
    rw [Isolated, Isolated, hp, hr]
    cases g (h.get p.1) (h.get p.2) with
    | error e => rfl
    | ok v => exact and_congr_right' (ih hps hrs)

/-- A change is not seen in the later rounds. -/
theorem get_set_of_later (hr : r ∉ ps.map Prod.fst) (hs : ∀ p ∈ ps, r = p.2 → v = h.get r) :
    ∀ p ∈ ps, (h.set r v).get p.1 = h.get p.1 ∧ (h.set r v).get p.2 = h.get p.2 := by
  intro p hp
  refine ⟨get_set_of_ne fun heq => hr (List.mem_map.mpr ⟨p, hp, heq⟩), ?_⟩
  by_cases heq : r = p.2
  · rw [hs p hp heq, set_get_self]
  · exact get_set_of_ne (Ne.symm heq)

/-- **Isolated objects are changed as values are**, and what is to stay as it is does. -/
theorem sweep_of_isolated (hsnd : ∀ p ∈ ps, p.2 ∈ staying) (hiso : Isolated f h staying ps) :
    ((sweep f ps h).1.contents (ps.map Prod.fst), (sweep f ps h).2) = sweepValues f (h.pairs ps) ∧
      ∀ r ∈ staying, (sweep f ps h).1.get r = h.get r := by
  induction ps generalizing h staying with
  | nil => exact ⟨rfl, fun r _ => rfl⟩
  | cons p ps ih =>
    obtain ⟨r, s⟩ := p
    have hsnd' : ∀ p ∈ ps, p.2 ∈ r :: staying := fun p hp =>
      List.mem_cons_of_mem _ (hsnd p (List.mem_cons_of_mem _ hp))
    simp only [Isolated, sweep, pairs, List.map_cons, sweepValues] at hiso ⊢
    cases hv : f (h.get r) (h.get s) with
    | error e => exact ⟨by simp [contents], fun r _ => rfl⟩
    | ok v =>
      rw [hv] at hiso
      obtain ⟨hchange, hrest⟩ := hiso
      -- the rounds that are left find the values of the start
      have hlater : ∀ p ∈ ps, (h.set r v).get p.1 = h.get p.1 ∧ (h.set r v).get p.2 = h.get p.2 := by
        rcases hchange with rfl | ⟨hstaying, hps⟩
        · simp [set_get_self]
        · exact get_set_of_later hps fun p hp heq =>
            absurd (heq ▸ hsnd p (List.mem_cons_of_mem _ hp)) hstaying
      have hiso' : Isolated f (h.set r v) (r :: staying) ps :=
        (isolated_congr (fun p hp => by rw [(hlater p hp).1, (hlater p hp).2])
          fun p hp => (hlater p hp).1).mpr hrest
      obtain ⟨hvalues, hstays⟩ := ih hsnd' hiso'
      obtain ⟨hown, hstays⟩ := List.forall_mem_cons.mp hstays
      rw [pairs_congr hlater, pairs] at hvalues
      refine ⟨?_, fun t ht => (hstays t ht).trans ?_⟩
      · simp only [← hvalues, contents, List.map_cons, hown, get_set_self]
      · rcases hchange with rfl | ⟨hstaying, -⟩
        · rw [set_get_self]
        · exact get_set_of_ne fun heq => hstaying (heq ▸ ht)

/-- **If the objects that change are different ones**, they have to be isolated. -/
theorem isolated_of_sweep (hnodup : (ps.map Prod.fst).Nodup) (hsnd : ∀ p ∈ ps, p.2 ∈ staying)
    (hvalues : (sweep f ps h).1.contents (ps.map Prod.fst) = (sweepValues f (h.pairs ps)).1)
    (hstays : ∀ r ∈ staying, (sweep f ps h).1.get r = h.get r) : Isolated f h staying ps := by
  induction ps generalizing h staying with
  | nil => trivial
  | cons p ps ih =>
    obtain ⟨r, s⟩ := p
    obtain ⟨hr, hnodup⟩ : r ∉ ps.map Prod.fst ∧ _ := List.nodup_cons.mp hnodup
    have hsnd' : ∀ p ∈ ps, p.2 ∈ r :: staying := fun p hp =>
      List.mem_cons_of_mem _ (hsnd p (List.mem_cons_of_mem _ hp))
    simp only [Isolated, sweep, pairs, List.map_cons, sweepValues] at hvalues hstays ⊢
    cases hv : f (h.get r) (h.get s) with
    | error e => trivial
    | ok v =>
      simp only [hv, contents, List.map_cons, List.cons.injEq] at hvalues hstays
      obtain ⟨hown, hvalues⟩ := hvalues
      have hchange : r ∈ staying → v = h.get r := fun hmem => hown.symm.trans (hstays r hmem)
      have hlater := get_set_of_later hr fun p hp heq =>
        hchange (heq ▸ hsnd p (List.mem_cons_of_mem _ hp))
      have hstays' : ∀ t ∈ r :: staying, (sweep f ps (h.set r v)).1.get t = (h.set r v).get t := by
        refine List.forall_mem_cons.mpr ⟨hown.trans get_set_self.symm, fun t ht => (hstays t ht).trans ?_⟩
        by_cases htr : t = r
        · subst htr
          rw [← hchange ht, get_set_self]
        · exact (get_set_of_ne htr).symm
      have hrest := ih hnodup hsnd' (by rw [pairs_congr hlater]; exact hvalues) hstays'
      refine ⟨?_, (isolated_congr (fun p hp => by rw [(hlater p hp).1, (hlater p hp).2])
        fun p hp => (hlater p hp).1).mp hrest⟩
      by_cases hmem : r ∈ staying
      · exact .inl (hchange hmem)
      · exact .inr ⟨hmem, hr⟩

end Heap
