import Mathlib.Data.List.Basic

/-!
# Machinery/Walk — asking one after the other until somebody says yes

A walk asks the elements of a list in order.  It ends at the first yes, and is broken off by an element
that throws.
-/

namespace Walk

variable {α : Type} {ask : α → Option Bool} {l l' : List α}

/-- The first element that says yes, if there is one; nothing when the walk is broken off. -/
def walk (ask : α → Option Bool) : List α → Option (Option α)
  | [] => some none
  | a :: l => match ask a with
    | none => none
    | some true => some (some a)
    | some false => walk ask l

theorem walk_append : walk ask (l ++ l') = match walk ask l with
    | none => none
    | some (some a) => some (some a)
    | some none => walk ask l' := by
  induction l with
  | nil => rfl
  | cons a l ih =>
    rw [List.cons_append, walk, walk]
    rcases ask a with _ | _ | _
    · rfl
    · exact ih
    · rfl

/-- **A walk finds something exactly when somebody says yes and nobody before throws.** -/
theorem walk_found_iff : (∃ a, walk ask l = some (some a)) ↔
    (∃ a ∈ l, ask a = some true) ∧ ∀ a ∈ l.takeWhile (ask · != some true), ask a ≠ none := by
  induction l with
  | nil => simp [walk]
  | cons a l ih =>
    rw [walk]
    rcases hask : ask a with _ | _ | _
    · simp [hask]
    · simpa [hask] using ih
    · simp [hask]

variable (ask l) in
/-- Whoever says yes is found, exactly when nobody before the first such one throws. -/
theorem found_of_yes_iff : ((∃ a ∈ l, ask a = some true) → ∃ a, walk ask l = some (some a)) ↔
    ((∃ a ∈ l, ask a = some true) → ∀ a ∈ l.takeWhile (ask · != some true), ask a ≠ none) := by
  rw [walk_found_iff]
  exact forall_congr' fun hyes => and_iff_right hyes

end Walk
