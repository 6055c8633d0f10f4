import Mathlib.Algebra.Group.Defs
import Mathlib.Data.List.Basic
import Mathlib.Logic.Function.Basic

/-!
# Machinery/Registers — traces of actions on a file of registers

An action edits one register, or makes a call whose argument is the content of one register, or makes
a call with a fixed argument.  A trace of actions turns a register file into another one and makes
calls on the way.  What a trace does to a register depends on that register only, so a trace that
resets a register before it calls with it makes the same calls from every file, and one that only
multiplies a register from the left multiplies it by a fixed factor.
-/

namespace Registers

variable {ι : Type} {M : ι → Type} {C : Type}

/-- An action on registers `r` with contents in `M r`, with calls in `C`. -/
inductive Action (M : ι → Type) (C : Type) where
  | edit (r : ι) (f : M r → M r)
  | call (r : ι) (f : M r → C)
  | invoke (c : C)

/-- The contents of all registers. -/
abbrev File (M : ι → Type) := (r : ι) → M r

namespace Action

/-- Whether the action is a call. -/
def isCall : Action M C → Bool
  | edit _ _ => false
  | call _ _ => true
  | invoke _ => true

/-- The register a call reads is `r`. -/
def ReadsOnly (r : ι) : Action M C → Prop
  | edit _ _ => True
  | call r' _ => r' = r
  | invoke _ => True

/-- The call an action makes. -/
def made (m : File M) : Action M C → List C
  | edit _ _ => []
  | call r f => [f (m r)]
  | invoke c => [c]

variable [DecidableEq ι]

/-- What an action does to the registers. -/
def apply (m : File M) : Action M C → File M
  | edit r f => Function.update m r (f (m r))
  | call _ _ => m
  | invoke _ => m

end Action

variable [DecidableEq ι] {r : ι} {t t' : List (Action M C)} {m m' : File M}

/-- The registers after a trace. -/
def after (t : List (Action M C)) (m : File M) : File M := t.foldl Action.apply m

/-- The calls of a trace. -/
def calls : List (Action M C) → File M → List C
  | [], _ => []
  | a :: t, m => a.made m ++ calls t (a.apply m)

@[simp] theorem after_nil (m : File M) : after ([] : List (Action M C)) m = m := rfl

@[simp] theorem after_cons (a : Action M C) (t : List (Action M C)) (m : File M) :
    after (a :: t) m = after t (a.apply m) := rfl

theorem after_append (t t' : List (Action M C)) (m : File M) :
    after (t ++ t') m = after t' (after t m) := List.foldl_append

theorem calls_append (t t' : List (Action M C)) (m : File M) :
    calls (t ++ t') m = calls t m ++ calls t' (after t m) := by
  induction t generalizing m with
  | nil => rfl
  | cons a t ih => rw [List.cons_append, calls, calls, ih, List.append_assoc, after_cons]

/-- A trace without calls. -/
def Silent (t : List (Action M C)) : Prop := ∀ a ∈ t, a.isCall = false

theorem Silent.calls_eq (h : Silent t) (m : File M) : calls t m = [] := by
  induction t generalizing m with
  | nil => rfl
  | cons a t ih =>
    obtain ⟨ha, ht⟩ := List.forall_mem_cons.mp h
    rw [calls, ih ht]
    cases a with
    | edit r f => rfl
    | call r f => cases ha
    | invoke c => cases ha

theorem calls_eq_nil_iff {t : List (Action M C)} {m : File M} : calls t m = [] ↔ Silent t := by
  refine ⟨fun h => ?_, fun h => h.calls_eq m⟩
  induction t generalizing m with
  | nil => exact fun a ha => absurd ha List.not_mem_nil
  | cons a t ih =>
    rw [calls, List.append_eq_nil_iff] at h
    refine List.forall_mem_cons.mpr ⟨?_, ih h.2⟩
    cases a with
    | edit r f => rfl
    | call r f => cases h.1
    | invoke c => cases h.1

theorem mem_calls {c : C} (h : c ∈ calls t m) : ∃ a ∈ t, ∃ m' : File M, c ∈ a.made m' := by
  induction t generalizing m with
  | nil => exact absurd h List.not_mem_nil
  | cons a t ih =>
    rcases List.mem_append.mp h with h | h
    · exact ⟨a, List.mem_cons_self, m, h⟩
    · obtain ⟨a', ha', hc⟩ := ih h
      exact ⟨a', List.mem_cons_of_mem a ha', hc⟩

/-- An action changes a register by what is in it. -/
theorem Action.apply_congr (a : Action M C) (h : m r = m' r) : a.apply m r = a.apply m' r := by
  cases a with
  | edit r' f =>
    by_cases hr : r = r'
    · subst hr
      simp only [apply, Function.update_self, h]
    · simp only [apply, Function.update_of_ne hr, h]
  | call r' f => exact h
  | invoke c => exact h

/-- Calls that read one register depend on that register only. -/
theorem calls_congr (ht : ∀ a ∈ t, a.ReadsOnly r) (h : m r = m' r) : calls t m = calls t m' := by
  induction t generalizing m m' with
  | nil => rfl
  | cons a t ih =>
    obtain ⟨ha, ht⟩ := List.forall_mem_cons.mp ht
    have hmade : a.made m = a.made m' := by
      cases a with
      | edit r' f => rfl
      | call r' f =>
        cases ha
        simp only [Action.made, h]
      | invoke c => rfl
    rw [calls, calls, hmade, ih ht (a.apply_congr h)]

/-- A trace that makes the same calls from every register file. -/
def SelfContained (t : List (Action M C)) : Prop := ∀ m m', calls t m = calls t m'

theorem Silent.selfContained (h : Silent t) : SelfContained t :=
  fun m m' => (h.calls_eq m).trans (h.calls_eq m').symm

theorem SelfContained.append (h : SelfContained t) (h' : SelfContained t') :
    SelfContained (t ++ t') := fun m m' => by
  rw [calls_append, calls_append, h m m', h' (after t m) (after t m')]

/-- **A register that is reset first carries nothing over.** -/
theorem selfContained_of_reset {f : M r → M r} (hf : ∀ x y, f x = f y)
    (ht : ∀ a ∈ t, a.ReadsOnly r) : SelfContained (.edit r f :: t) := fun m m' => by
  rw [calls, calls]
  refine congrArg _ (calls_congr ht ?_)
  simp only [Action.apply, Function.update_self, hf (m r) (m' r)]

/-! ## Registers that are only multiplied -/

section Multiplies

variable [Monoid (M r)]

/-- An action that multiplies a register from the left. -/
def Action.Multiplies (r : ι) [Monoid (M r)] (a : Action M C) : Prop :=
  ∃ x : M r, ∀ m, a.apply m r = x * m r

/-- **A trace that only multiplies a register multiplies it by what it makes of the unit.** -/
theorem after_eq_mul (ht : ∀ a ∈ t, a.Multiplies r) {u : File M} (hu : u r = 1) (m : File M) :
    after t m r = after t u r * m r := by
  have hmul : ∃ x : M r, ∀ m, after t m r = x * m r := by
    clear hu m
    induction t with
    | nil => exact ⟨1, fun m => (one_mul _).symm⟩
    | cons a t ih =>
      obtain ⟨⟨y, hy⟩, ht⟩ := List.forall_mem_cons.mp ht
      obtain ⟨x, hx⟩ := ih ht
      exact ⟨x * y, fun m => by rw [after_cons, hx, hy, mul_assoc]⟩
  obtain ⟨x, hx⟩ := hmul
  rw [hx m, hx u, hu, mul_one]

end Multiplies

end Registers
