import Mathlib.Data.List.Basic

/-!
# Machinery/Machine — runs of a deterministic machine under a condition on its steps

A machine takes labelled steps; the label of a step also says how everything outside of the machine
answers.  `Along` states a condition on every step of a run, at the state the step is taken from.
-/

namespace Machine

variable {S L : Type} (step : S → L → S) {C : S → L → Prop}

/-- The state after a run. -/
def run (s : S) (ls : List L) : S := ls.foldl step s

/-- Every step of a run meets a condition. -/
def Along (C : S → L → Prop) : S → List L → Prop
  | _, [] => True
  | s, l :: ls => C s l ∧ Along C (step s l) ls

variable {step} {s : S}

theorem run_append (ls ls' : List L) : run step s (ls ++ ls') = run step (run step s ls) ls' :=
  List.foldl_append

theorem along_append {ls ls' : List L} :
    Along step C s (ls ++ ls') ↔ Along step C s ls ∧ Along step C (run step s ls) ls' := by
  induction ls generalizing s with
  | nil => exact (and_iff_right trivial).symm
  | cons l ls ih =>
    rw [List.cons_append, Along, Along, ih, and_assoc]
    rfl

/-- **What holds at the start and is kept by the steps of a run holds after it.** -/
theorem Along.inv {I : S → Prop} (hstep : ∀ s l, I s → C s l → I (step s l)) {ls : List L}
    (h : Along step C s ls) (hs : I s) : I (run step s ls) := by
  induction ls generalizing s with
  | nil => exact hs
  | cons l ls ih => exact ih h.2 (hstep s l hs h.1)

/-- Every step of a run is taken from a state with the invariant. -/
theorem Along.step_from {I : S → Prop} (hstep : ∀ s l, I s → C s l → I (step s l))
    {ls before : List L} {l : L} (h : Along step C s ls) (hs : I s) (hpre : before ++ [l] <+: ls) :
    I (run step s before) ∧ C (run step s before) l := by
  obtain ⟨rest, rfl⟩ := hpre
  rw [along_append, along_append] at h
  exact ⟨h.1.1.inv hstep hs, h.1.2.1⟩

/-- **Two conditions that agree wherever the invariant holds agree on runs**, if one of them keeps it. -/
theorem along_congr {I : S → Prop} {P : S → L → Prop} (hstep : ∀ s l, I s → C s l → I (step s l))
    (hiff : ∀ s l, I s → (P s l ↔ C s l)) {ls : List L} (hs : I s) :
    Along step P s ls ↔ Along step C s ls := by
  induction ls generalizing s with
  | nil => exact Iff.rfl
  | cons l ls ih =>
    rw [Along, Along, hiff s l hs]
    exact and_congr_right fun hc => ih (hstep s l hs hc)

end Machine
