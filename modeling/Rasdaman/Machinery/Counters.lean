import Mathlib.Order.Interval.Finset.Nat
import Mathlib.Data.List.Pairwise
import Mathlib.Logic.Function.Basic
import Rasdaman.Machinery.Machine

/-!
# Machinery/Counters — numbers drawn from counters that are stored between sessions

A session loads the stored counters, draws batches of numbers from them and in the end keeps its batches,
which stores the counters, or drops them.  `Fresh.run` is the point of it: whatever the sessions do, the
batches kept from one counter have no number in common.
-/

namespace Counters

variable {κ : Type}

/-- Consecutive numbers drawn from a counter. -/
structure Batch (κ : Type) where
  counter : κ
  first : ℕ
  count : ℕ

/-- The numbers of a batch. -/
def Batch.numbers (b : Batch κ) : Finset ℕ := Finset.Ico b.first (b.first + b.count)

/-- Two batches have no number of one counter in common. -/
def Apart (b b' : Batch κ) : Prop := b.counter = b'.counter → Disjoint b.numbers b'.numbers

/-- The stored counters and those of the session, the batches of the session and those kept. -/
structure Office (κ : Type) where
  stored : κ → ℕ
  next : κ → ℕ
  drawn : List (Batch κ)
  kept : List (Batch κ)

/-- What can happen: a session starts or drops what it has drawn, draws, or keeps what it has drawn. -/
inductive Move (κ : Type)
  | reload
  | draw (counter : κ) (count : ℕ)
  | keep

/-- One move. -/
def step [DecidableEq κ] (o : Office κ) : Move κ → Office κ
  | .reload => { o with next := o.stored, drawn := [] }
  | .draw c n => { o with
      next := Function.update o.next c (o.next c + n)
      drawn := o.drawn ++ [⟨c, o.next c, n⟩] }
  | .keep => { o with stored := o.next, drawn := [], kept := o.kept ++ o.drawn }

/-- The batches kept lie below the stored counters, those of the session between the stored counters and
its own, and no two of them share a number. -/
structure Fresh (o : Office κ) : Prop where
  stored_le : ∀ c, o.stored c ≤ o.next c
  kept_le : ∀ b ∈ o.kept, b.first + b.count ≤ o.stored b.counter
  le_drawn : ∀ b ∈ o.drawn, o.stored b.counter ≤ b.first
  drawn_le : ∀ b ∈ o.drawn, b.first + b.count ≤ o.next b.counter
  apart : (o.kept ++ o.drawn).Pairwise Apart

theorem apart_of_le {b b' : Batch κ} (h : b.counter = b'.counter → b.first + b.count ≤ b'.first) :
    Apart b b' := by
  intro hc
  have hle := h hc
  rw [Finset.disjoint_left]
  intro n hn hn'
  rw [Batch.numbers, Finset.mem_Ico] at hn hn'
  omega

theorem fresh_init (stored : κ → ℕ) : Fresh ⟨stored, stored, [], []⟩ where
  stored_le := fun _ => le_rfl
  kept_le := by simp
  le_drawn := by simp
  drawn_le := by simp
  apart := .nil

theorem Fresh.kept_apart {o : Office κ} (h : Fresh o) : o.kept.Pairwise Apart :=
  (List.pairwise_append.mp h.apart).1

variable [DecidableEq κ]

theorem Fresh.reload {o : Office κ} (h : Fresh o) : Fresh (step o .reload) where
  stored_le := fun _ => le_rfl
  kept_le := h.kept_le
  le_drawn := by simp [step]
  drawn_le := by simp [step]
  apart := by
    rw [step, List.append_nil]
    exact (List.pairwise_append.mp h.apart).1

/-- A batch drawn lies above everything drawn from its counter before. -/
theorem Fresh.draw {o : Office κ} (h : Fresh o) (c : κ) (n : ℕ) : Fresh (step o (.draw c n)) := by
  have hnext : ∀ c', o.next c' ≤ Function.update o.next c (o.next c + n) c' := by
    intro c'
    by_cases hc : c' = c
    · subst hc
      rw [Function.update_self]
      omega
    · rw [Function.update_of_ne hc]
  have hbelow : ∀ b ∈ o.kept ++ o.drawn, b.first + b.count ≤ o.next b.counter := by
    intro b hb
    rcases List.mem_append.mp hb with hb | hb
    · exact (h.kept_le b hb).trans (h.stored_le _)
    · exact h.drawn_le b hb
  refine ⟨fun c' => (h.stored_le c').trans (hnext c'), h.kept_le, ?_, ?_, ?_⟩
  · intro b hb
    rcases List.mem_append.mp hb with hb | hb
    · exact h.le_drawn b hb
    · obtain rfl := List.mem_singleton.mp hb
      exact h.stored_le c
  · intro b hb
    rcases List.mem_append.mp hb with hb | hb
    · exact (h.drawn_le b hb).trans (hnext _)
    · obtain rfl := List.mem_singleton.mp hb
      exact (Function.update_self c _ o.next).ge
  · rw [step, ← List.append_assoc, List.pairwise_append]
    refine ⟨h.apart, List.pairwise_singleton _ _, fun b hb b' hb' => ?_⟩
    obtain rfl := List.mem_singleton.mp hb'
    refine apart_of_le fun hc => ?_
    have hb := hbelow b hb
    rwa [hc] at hb

theorem Fresh.keep {o : Office κ} (h : Fresh o) : Fresh (step o .keep) where
  stored_le := fun _ => le_rfl
  kept_le := by
    intro b hb
    rcases List.mem_append.mp hb with hb | hb
    · exact (h.kept_le b hb).trans (h.stored_le _)
    · exact h.drawn_le b hb
  le_drawn := by simp [step]
  drawn_le := by simp [step]
  apart := by
    rw [step, List.append_nil]
    exact h.apart

theorem Fresh.step {o : Office κ} (h : Fresh o) (m : Move κ) : Fresh (step o m) := by
  cases m with
  | reload => exact h.reload
  | draw c n => exact h.draw c n
  | keep => exact h.keep

/-- **Whatever the sessions do, no number is kept twice.** -/
theorem Fresh.run {o : Office κ} (h : Fresh o) (ms : List (Move κ)) :
    Fresh (Machine.run Counters.step o ms) := by
  induction ms generalizing o with
  | nil => exact h
  | cons m ms ih => exact ih (h.step m)

end Counters
