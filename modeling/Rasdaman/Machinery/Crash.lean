import Mathlib.Logic.Relation
import Mathlib.Data.Nat.Notation

/-!
# Machinery/Crash — programs that may be cut off at any moment

A program runs on a state that outlives it, through one call after another; `Prog` keeps the states it
passes through, since each of them is found again if the machine stops there.  `Spec` is the usual pre-
and postcondition with two more: what holds in the states passed through, and where an exception leaves
the state.  The rules below compose it; `Visits` is its counterpart for states that
are passed through, and `Interrupted.inv` the rule for a recovery that is itself cut off any number of
times.
-/

namespace Crash

variable {σ ε α β ι : Type}

/-- A program: the states it passes through, how it ends, and the state it leaves. -/
def Prog (σ ε α : Type) := σ → List σ × Except ε α × σ

namespace Prog

/-- A program without a call. -/
def ret (a : α) : Prog σ ε α := fun s => ([], .ok a, s)

def raise (e : ε) : Prog σ ε α := fun s => ([], .error e, s)

/-- The state is looked at. -/
def look : Prog σ ε σ := fun s => ([], .ok s, s)

/-- One call: it changes the state at once, or raises and leaves it. -/
def call (f : σ → Except ε σ) : Prog σ ε Unit := fun s =>
  match f s with
  | .error e => ([], .error e, s)
  | .ok s' => ([s'], .ok (), s')

def andThen (x : Prog σ ε α) (f : α → Prog σ ε β) : Prog σ ε β := fun s =>
  match x s with
  | (ts, .error e, s') => (ts, .error e, s')
  | (ts, .ok a, s') => (ts ++ (f a s').1, (f a s').2)

/-- An exception is handled, in the state it left. -/
def handle (x : Prog σ ε α) (h : ε → Prog σ ε α) : Prog σ ε α := fun s =>
  match x s with
  | (ts, .error e, s') => (ts ++ (h e s').1, (h e s').2)
  | (ts, .ok a, s') => (ts, .ok a, s')

instance : Monad (Prog σ ε) where
  pure := ret
  bind := andThen

/-- The program for one element after another. -/
def each (f : ι → Prog σ ε Unit) : List ι → Prog σ ε Unit
  | [] => ret ()
  | i :: is => do
    f i
    each f is

/-- The states in which the program may be cut off. -/
def Passes (x : Prog σ ε α) (s t : σ) : Prop := t = s ∨ t ∈ (x s).1

/-- The state a program leaves when it is not cut off, if it ends without an exception. -/
def final (x : Prog σ ε α) (s : σ) : Option σ :=
  match x s with
  | (_, .ok _, s') => some s'
  | (_, .error _, _) => none

end Prog

open Prog

/-- From `P` the program passes through states with `C` only, and ends in `Q` or raises in `E`. -/
def Spec (C P : σ → Prop) (x : Prog σ ε α) (Q : α → σ → Prop) (E : ε → σ → Prop) : Prop :=
  ∀ s, P s → (∀ t ∈ (x s).1, C t) ∧ match (x s).2 with
    | (.ok a, s') => Q a s'
    | (.error e, s') => E e s'

/-- From `P` the program does not raise, passes through states with `C` only and ends in `Q`. -/
abbrev Ends (C P : σ → Prop) (x : Prog σ ε α) (Q : α → σ → Prop) : Prop :=
  Spec C P x Q fun _ _ => False

variable {C D P P' R : σ → Prop} {Q Q' : α → σ → Prop} {E F : ε → σ → Prop}
  {x : Prog σ ε α} {f : α → Prog σ ε β}

theorem Spec.conseq (h : Spec D P' x Q' F) (hP : ∀ s, P s → P' s) (hC : ∀ s, D s → C s)
    (hQ : ∀ a s, Q' a s → Q a s) (hE : ∀ e s, F e s → E e s) : Spec C P x Q E := by
  intro s hs
  obtain ⟨hpasses, hend⟩ := h s (hP s hs)
  refine ⟨fun t ht => hC t (hpasses t ht), ?_⟩
  rcases hx : (x s).2 with ⟨_ | _, s'⟩ <;> rw [hx] at hend
  · exact hE _ _ hend
  · exact hQ _ _ hend

/-- A weaker precondition suffices. -/
theorem Spec.weaken (h : Spec C P' x Q E) (hP : ∀ s, P s → P' s) : Spec C P x Q E :=
  h.conseq hP (fun _ => id) (fun _ _ => id) fun _ _ => id

theorem Spec.post (h : Spec C P x Q' E) (hQ : ∀ a s, Q' a s → Q a s) : Spec C P x Q E :=
  h.conseq (fun _ => id) (fun _ => id) hQ fun _ _ => id

theorem Spec.passing (h : Spec D P x Q E) (hC : ∀ s, D s → C s) : Spec C P x Q E :=
  h.conseq (fun _ => id) hC (fun _ _ => id) fun _ _ => id

/-- What two specifications tell holds together. -/
theorem Spec.and (h : Spec C P x Q E) (h' : Spec D P' x Q' F) :
    Spec (fun s => C s ∧ D s) (fun s => P s ∧ P' s) x (fun a s => Q a s ∧ Q' a s)
      fun e s => E e s ∧ F e s := by
  intro s hs
  obtain ⟨hpasses, hend⟩ := h s hs.1
  obtain ⟨hpasses', hend'⟩ := h' s hs.2
  refine ⟨fun t ht => ⟨hpasses t ht, hpasses' t ht⟩, ?_⟩
  rcases hx : (x s).2 with ⟨_ | _, s'⟩ <;> rw [hx] at hend hend' <;> exact ⟨hend, hend'⟩

theorem Spec.ret {a : α} (h : ∀ s, P s → Q a s) : Spec C P (pure a : Prog σ ε α) Q E :=
  fun s hs => ⟨by rintro t (_ | _), h s hs⟩

theorem Spec.raise {e : ε} (h : ∀ s, P s → E e s) : Spec C P (Prog.raise e : Prog σ ε α) Q E :=
  fun s hs => ⟨by rintro t (_ | _), h s hs⟩

/-- A program may be looked at from each of its states alone. -/
theorem Spec.pointwise (h : ∀ s, P s → Spec C (· = s) x Q E) : Spec C P x Q E :=
  fun s hs => h s hs s rfl

theorem Spec.from (h : Spec C P x Q E) {s : σ} (hs : P s) : Spec C (· = s) x Q E :=
  h.weaken fun _ ht => ht ▸ hs

/-- Looking at the state tells which state it is. -/
theorem Spec.look {f : σ → Prog σ ε α} (h : ∀ s, P s → Spec C (· = s) (f s) Q E) :
    Spec C P (Prog.look >>= f) Q E :=
  fun s hs => h s hs s rfl

/-- A call that does not raise. -/
theorem Spec.call {g : σ → Except ε σ} {Q : Unit → σ → Prop} {E : ε → σ → Prop}
    (h : ∀ s, P s → ∃ s', g s = .ok s' ∧ C s' ∧ Q () s') : Spec C P (Prog.call g) Q E := by
  intro s hs
  obtain ⟨s', hg, hC, hQ⟩ := h s hs
  simp only [Prog.call, hg]
  exact ⟨by simpa using hC, hQ⟩

theorem Spec.bind {Q : α → σ → Prop} {R : β → σ → Prop} (hx : Spec C P x Q E)
    (hf : ∀ a, Spec C (Q a) (f a) R E) : Spec C P (x >>= f) R E := by
  intro s hs
  have hfirst := hx s hs
  change (∀ t ∈ (andThen x f s).1, C t) ∧ match (andThen x f s).2 with
    | (.ok a, s') => R a s'
    | (.error e, s') => E e s'
  rcases hrun : x s with ⟨ts, e | a, s'⟩ <;> simp only [hrun] at hfirst <;> simp only [andThen, hrun]
  · exact hfirst
  · obtain ⟨hpasses, hend⟩ := hf a s' hfirst.2
    exact ⟨List.forall_mem_append.mpr ⟨hfirst.1, hpasses⟩, hend⟩

/-- What follows an exception starts where it left the state. -/
theorem Spec.handle {h : ε → Prog σ ε α} (hx : Spec C P x Q F) (hh : ∀ e, Spec C (F e) (h e) Q E) :
    Spec C P (Prog.handle x h) Q E := by
  intro s hs
  have hfirst := hx s hs
  rcases hrun : x s with ⟨ts, e | a, s'⟩ <;> simp only [hrun] at hfirst <;>
    simp only [Prog.handle, hrun]
  · obtain ⟨hpasses, hend⟩ := hh e s' hfirst.2
    exact ⟨List.forall_mem_append.mpr ⟨hfirst.1, hpasses⟩, hend⟩
  · exact hfirst

/-- **The rule for a loop**, with an invariant of the elements that are left. -/
theorem Spec.each {g : ι → Prog σ ε Unit} {I : List ι → σ → Prop} {E : ε → σ → Prop}
    (hround : ∀ i is, Spec C (I (i :: is)) (g i) (fun _ => I is) E) :
    ∀ is : List ι, Spec C (I is) (Prog.each g is) (fun _ => I []) E
  | [] => Spec.ret fun _ hs => hs
  | i :: is => Spec.bind (hround i is) fun _ => Spec.each hround is

/-- The rule for a loop over the numbers below another. -/
theorem Spec.each_range {g : ℕ → Prog σ ε Unit} {I : ℕ → σ → Prop} {E : ε → σ → Prop} {m : ℕ}
    (hround : ∀ n < m, Spec C (I n) (g n) (fun _ => I (n + 1)) E) :
    Spec C (I 0) (Prog.each g (List.range m)) (fun _ => I m) E := by
  have hloop : ∀ len n, n + len = m →
      Spec C (I n) (Prog.each g (List.range' n len)) (fun _ => I m) E := by
    intro len
    induction len with
    | zero => exact fun n hn => Spec.ret fun s hs => by rwa [← hn]
    | succ len ih =>
      intro n hn
      exact Spec.bind (hround n (by omega)) fun _ => ih (n + 1) (by omega)
  rw [List.range_eq_range']
  exact hloop m 0 (Nat.zero_add m)

/-- A program that raises nothing has a final state. -/
theorem Ends.final (h : Ends C P x Q) {s : σ} (hs : P s) : ∃ a t, x.final s = some t ∧ Q a t := by
  have hend := (h s hs).2
  rcases hrun : x s with ⟨ts, e | a, t⟩ <;> simp only [hrun] at hend
  exact ⟨a, t, by simp only [Prog.final, hrun], hend⟩

theorem Spec.passes (h : Spec C P x Q E) {s t : σ} (hs : P s) (hC : C s) (ht : x.Passes s t) : C t := by
  rcases ht with rfl | ht
  · exact hC
  · exact (h s hs).1 t ht

/-- From `P` the program may be cut off in a state with `R`. -/
def Visits (P : σ → Prop) (x : Prog σ ε α) (R : σ → Prop) : Prop := ∀ s, P s → ∃ t ∈ (x s).1, R t

theorem Visits.call {g : σ → Except ε σ} {Q : Unit → σ → Prop} (h : Ends C P (Prog.call g) Q) :
    Visits P (Prog.call g) (Q ()) := by
  intro s hs
  have hend := (h s hs).2
  rcases hg : g s with e | s' <;> simp only [Prog.call, hg] at hend ⊢
  exact ⟨s', List.mem_singleton_self s', hend⟩

theorem Visits.look {f : σ → Prog σ ε α} (h : ∀ s, P s → Visits (· = s) (f s) R) :
    Visits P (Prog.look >>= f) R :=
  fun s hs => h s hs s rfl

theorem Visits.conseq {R' : σ → Prop} (h : Visits P' x R') (hP : ∀ s, P s → P' s) (hR : ∀ s, R' s → R s) :
    Visits P x R := fun s hs => by
  obtain ⟨t, ht, hR'⟩ := h s (hP s hs)
  exact ⟨t, ht, hR t hR'⟩

/-- The states of the first part are passed. -/
theorem Visits.left (h : Visits P x R) (f : α → Prog σ ε β) : Visits P (x >>= f) R := by
  intro s hs
  obtain ⟨t, ht, hR⟩ := h s hs
  refine ⟨t, ?_, hR⟩
  change t ∈ (andThen x f s).1
  rcases hrun : x s with ⟨ts, e | a, s'⟩ <;> rw [hrun] at ht <;> simp only [andThen, hrun]
  · exact ht
  · exact List.mem_append_left _ ht

/-- The states of the second part are passed, where the first one ends. -/
theorem Visits.right (hx : Ends C P x Q) (h : ∀ a, Visits (Q a) (f a) R) : Visits P (x >>= f) R := by
  intro s hs
  have hend := (hx s hs).2
  rcases hrun : x s with ⟨ts, e | a, s'⟩ <;> simp only [hrun] at hend
  obtain ⟨t, ht, hR⟩ := h a s' hend
  refine ⟨t, ?_, hR⟩
  change t ∈ (andThen x f s).1
  simp only [andThen, hrun]
  exact List.mem_append_right _ ht

/-- One element of a loop, once those before it are done. -/
theorem Visits.each {g : ι → Prog σ ε Unit} {I : List ι → List ι → σ → Prop}
    (hround : ∀ done i is, Ends C (I done (i :: is)) (g i) fun _ => I (done ++ [i]) is) {i : ι} {is : List ι}
    (h : ∀ done, Visits (I done (i :: is)) (g i) R) :
    ∀ first done, Visits (I done (first ++ i :: is)) (Prog.each g (first ++ i :: is)) R
  | [], done => (h done).left _
  | _ :: first, done => .right (hround done _ _) fun _ => Visits.each hround h first _

/-- A recovery is started in one of several ways, cut off, and started again. -/
def Interrupted {γ : Type} (restart : σ → σ) (Way : γ → σ → Prop) (recover : γ → Prog σ ε α) :
    σ → σ → Prop :=
  Relation.ReflTransGen fun s s' => ∃ w, Way w (restart s) ∧ ∃ t, (recover w).Passes (restart s) t ∧ s' = t

/-- **The rule for recoveries**: if the states a recovery passes through are ones it can start from, one
that is cut off any number of times ends as the first would have. -/
theorem Interrupted.inv {γ : Type} {restart : σ → σ} {Way : γ → σ → Prop} {recover : γ → Prog σ ε α}
    (hrestart : ∀ s, C s → C (restart s))
    (hrecover : ∀ w s, C s → Way w (restart s) →
      Spec C (· = restart s) (recover w) (fun _ _ => True) fun _ _ => True)
    {s t : σ} (h : Interrupted restart Way recover s t) (hs : C s) : C t := by
  induction h with
  | refl => exact hs
  | tail _ hstep ih =>
    obtain ⟨w, hway, u, hu, rfl⟩ := hstep
    exact (hrecover w _ ih hway).passes rfl (hrestart _ ih) hu

end Crash
