import Mathlib.Data.Finset.Card
import Mathlib.Data.Finset.Insert
import Mathlib.Logic.Function.Basic

/-!
# Machinery/References — how many references point somewhere

Finitely many references point to something or nowhere.  `count` is the number of those that point to one
place; the lemmas say how it changes when a reference is turned, comes or goes.
-/

namespace References

variable {ρ α : Type} [DecidableEq ρ] [DecidableEq α]

/-- The number of references to `a`. -/
def count (names : Finset ρ) (target : ρ → Option α) (a : α) : ℕ :=
  (names.filter fun r => target r = some a).card

variable {names : Finset ρ} {target : ρ → Option α} {r : ρ} {a : α}

theorem count_congr (f g : ρ → Option α) (h : ∀ r ∈ names, f r = g r) :
    count names f a = count names g a := by
  rw [count, count, Finset.filter_congr fun r hr => by rw [h r hr]]

theorem count_pos : 0 < count names target a ↔ ∃ r ∈ names, target r = some a := by
  rw [count, Finset.card_pos, Finset.filter_nonempty_iff]

theorem count_eq_zero : count names target a = 0 ↔ ∀ r ∈ names, target r ≠ some a := by
  rw [count, Finset.card_eq_zero, Finset.filter_eq_empty_iff]

/-- A reference comes. -/
theorem count_insert (hr : r ∉ names) :
    count (insert r names) target a = count names target a + if target r = some a then 1 else 0 := by
  rw [count, Finset.filter_insert]
  split
  · rw [Finset.card_insert_of_notMem fun h => hr (Finset.mem_of_mem_filter r h)]
    rfl
  · rfl

/-- A reference goes. -/
theorem count_erase (target : ρ → Option α) (a : α) (hr : r ∈ names) :
    count names target a = count (names.erase r) target a + if target r = some a then 1 else 0 := by
  conv_lhs => rw [← Finset.insert_erase hr]
  exact count_insert (Finset.notMem_erase r names)

/-- Two references to one place. -/
theorem two_le_count {s : ρ} (hr : r ∈ names) (hs : s ∈ names) (hrs : r ≠ s) (hra : target r = some a)
    (hsa : target s = some a) : 2 ≤ count names target a := by
  have hr' := count_erase target a hr
  have hs' : 0 < count (names.erase r) target a :=
    count_pos.mpr ⟨s, Finset.mem_erase.mpr ⟨hrs.symm, hs⟩, hsa⟩
  rw [hr', if_pos hra]
  omega

end References
