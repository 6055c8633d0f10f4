import Mathlib.Data.Finset.Card
import Mathlib.Data.List.Perm.Basic

/-!
# Machinery/Pool — resources that are free or held

A finite set of resources is split between a pool of free ones and holders.  The holders are a list,
so that "no resource has two holders" is part of the statement; only its permutation class matters.
-/

namespace Pool

variable {α : Type} {all free : Finset α} {held held' : List α} {a : α}

/-- The free and the held resources partition `all`, each held one with one holder. -/
structure Partitions (all free : Finset α) (held : List α) : Prop where
  nodup : held.Nodup
  disjoint : ∀ a ∈ held, a ∉ free
  exact : ∀ a, a ∈ free ∨ a ∈ held ↔ a ∈ all

namespace Partitions

/-- At the start everything is free. -/
theorem start (all : Finset α) : Partitions all all [] where
  nodup := List.nodup_nil
  disjoint a ha := absurd ha List.not_mem_nil
  exact a := by simp

theorem perm (h : Partitions all free held) (hp : held.Perm held') : Partitions all free held' where
  nodup := hp.nodup_iff.mp h.nodup
  disjoint a ha := h.disjoint a (hp.mem_iff.mpr ha)
  exact a := by rw [← hp.mem_iff]; exact h.exact a

variable [DecidableEq α]

/-- The free and the held resources add up. -/
theorem card (h : Partitions all free held) : free.card + held.length = all.card := by
  have hall : all = free ∪ held.toFinset := by
    refine Finset.ext fun a => ?_
    rw [Finset.mem_union, List.mem_toFinset, h.exact a]
  have hdisjoint : Disjoint free held.toFinset :=
    Finset.disjoint_right.mpr fun a ha => h.disjoint a (List.mem_toFinset.mp ha)
  rw [hall, Finset.card_union_of_disjoint hdisjoint, List.toFinset_card_of_nodup h.nodup]

/-- A free resource is handed out. -/
theorem acquire (h : Partitions all free held) (ha : a ∈ free) :
    Partitions all (free.erase a) (a :: held) where
  nodup := List.nodup_cons.mpr ⟨fun hheld => h.disjoint a hheld ha, h.nodup⟩
  disjoint b hb := by
    rcases List.mem_cons.mp hb with rfl | hb
    · exact Finset.notMem_erase _ _
    · exact fun hfree => h.disjoint b hb (Finset.mem_of_mem_erase hfree)
  exact b := by
    rw [← h.exact b, Finset.mem_erase, List.mem_cons]
    by_cases hab : b = a
    · simp [hab, ha]
    · simp [hab]

/-- A held resource is returned. -/
theorem release (h : Partitions all free (a :: held)) : Partitions all (insert a free) held where
  nodup := (List.nodup_cons.mp h.nodup).2
  disjoint b hb := by
    have hne : b ≠ a := fun hba => (List.nodup_cons.mp h.nodup).1 (hba ▸ hb)
    rw [Finset.mem_insert, not_or]
    exact ⟨hne, h.disjoint b (List.mem_cons_of_mem a hb)⟩
  exact b := by
    rw [← h.exact b, Finset.mem_insert, List.mem_cons]
    rw [or_comm (a := b = a), or_assoc]

end Partitions

end Pool
