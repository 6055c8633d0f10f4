import Mathlib.Data.List.Basic
import Mathlib.Data.List.Nodup

/-!
# Machinery/NamedList — lists of entries with names

A registry that is a list searched by name: the first entry with a name is found, changed or removed.
`Unique` says that the names differ; a change keeps that exactly when it gives no name of another
entry.
-/

namespace NamedList

variable {α κ : Type} [DecidableEq κ] (name : α → κ)

/-- The first entry with a name. -/
def get (k : κ) (l : List α) : Option α := l.find? fun a => name a == k

/-- Change the first entry with a name. -/
def change (k : κ) (f : α → α) : List α → List α
  | [] => []
  | a :: l => if name a = k then f a :: l else a :: change k f l

/-- Remove the first entry with a name. -/
def remove (k : κ) (l : List α) : List α := l.eraseP fun a => name a == k

/-- All entries have different names. -/
def Unique (l : List α) : Prop := (l.map name).Nodup

variable {name} {k : κ} {a : α} {l : List α}

theorem get_eq_none : get name k l = none ↔ k ∉ l.map name := by
  simp only [get, List.find?_eq_none, beq_iff_eq, List.mem_map, not_exists, not_and]

theorem name_of_get (h : get name k l = some a) : name a = k := by
  simpa using List.find?_some h

theorem mem_of_get (h : get name k l = some a) : a ∈ l := List.mem_of_find?_eq_some h

/-- Where the entry is, and what a change and a removal make of the list. -/
theorem split_of_get (h : get name k l = some a) : ∃ l₁ l₂, l = l₁ ++ a :: l₂ ∧
    (∀ f, change name k f l = l₁ ++ f a :: l₂) ∧ remove name k l = l₁ ++ l₂ := by
  induction l with
  | nil => cases h
  | cons b l ih =>
    rw [get, List.find?_cons] at h
    by_cases hb : name b = k
    · simp only [hb, beq_self_eq_true, Option.some.injEq] at h
      subst h
      exact ⟨[], l, rfl, fun f => if_pos hb, by simp [remove, hb]⟩
    · simp only [beq_eq_false_iff_ne.mpr hb] at h
      obtain ⟨l₁, l₂, rfl, hchange, hremove⟩ := ih h
      refine ⟨b :: l₁, l₂, rfl, fun f => ?_, ?_⟩
      · rw [change, if_neg hb, hchange, List.cons_append]
      · rw [remove, List.eraseP_cons_of_neg (by simpa using hb), List.cons_append]
        exact congrArg _ hremove

/-- What a change leaves alone. -/
theorem map_change {β : Type} {g : α → β} {f : α → α} (hg : ∀ a, g (f a) = g a) :
    (change name k f l).map g = l.map g := by
  induction l with
  | nil => rfl
  | cons a l ih =>
    rw [change]
    split
    · rw [List.map_cons, List.map_cons, hg]
    · rw [List.map_cons, List.map_cons, ih]

theorem unique_append (h : Unique name l) (ha : name a ∉ l.map name) : Unique name (l ++ [a]) := by
  rw [Unique, List.map_append, List.map_singleton, List.nodup_append']
  exact ⟨h, List.nodup_singleton _, List.disjoint_singleton.mpr ha⟩

theorem remove_sublist (name : α → κ) (k : κ) (l : List α) : (remove name k l).Sublist l := List.eraseP_sublist

theorem unique_remove (h : Unique name l) : Unique name (remove name k l) :=
  h.sublist ((List.eraseP_sublist).map name)

/-- **A change keeps names unique exactly when the new name is the old one or new to the list.** -/
theorem unique_change_iff (h : Unique name l) (ha : get name k l = some a) (f : α → α) :
    Unique name (change name k f l) ↔ name (f a) = k ∨ name (f a) ∉ l.map name := by
  have hk := name_of_get ha
  obtain ⟨l₁, l₂, rfl, hchange, -⟩ := split_of_get ha
  rw [hchange]
  simp only [Unique, List.map_append, List.map_cons, List.nodup_middle, List.nodup_cons, hk,
    List.mem_append, List.mem_cons] at h ⊢
  obtain ⟨hout, hrest⟩ := h
  rw [and_iff_left hrest]
  by_cases hf : name (f a) = k
  · simp only [hf, true_or, iff_true]
    exact hout
  · simp only [hf, false_or]

/-- Nothing is removed under a name that nobody has. -/
theorem remove_of_not_mem (h : k ∉ l.map name) : remove name k l = l :=
  List.eraseP_of_forall_not (by simpa using h)

/-- With unique names a removal takes out the one entry with the name. -/
theorem mem_remove_iff (h : Unique name l) {b : α} : b ∈ remove name k l ↔ b ∈ l ∧ name b ≠ k := by
  rcases hget : get name k l with _ | a
  · have hno := get_eq_none.mp hget
    rw [remove_of_not_mem hno]
    exact ⟨fun hb => ⟨hb, fun hk => hno (hk ▸ List.mem_map_of_mem hb)⟩, fun hb => hb.1⟩
  · have hk := name_of_get hget
    obtain ⟨l₁, l₂, rfl, -, hremove⟩ := split_of_get hget
    rw [hremove]
    rw [Unique, List.map_append, List.map_cons, List.nodup_middle, List.nodup_cons, hk,
      ← List.map_append] at h
    have hne : ∀ b ∈ l₁ ++ l₂, name b ≠ k := fun b hb hbk => h.1 (hbk ▸ List.mem_map_of_mem hb)
    simp only [List.mem_append, List.mem_cons] at hne ⊢
    constructor
    · intro hb
      exact ⟨hb.imp_right .inr, hne b hb⟩
    · rintro ⟨hb | rfl | hb, hbk⟩
      · exact .inl hb
      · exact absurd hk hbk
      · exact .inr hb

/-- The entries of a changed list: the changed one, and those with other names. -/
theorem mem_change_iff (h : Unique name l) (ha : get name k l = some a) {f : α → α} {b : α} :
    b ∈ change name k f l ↔ b = f a ∨ b ∈ l ∧ name b ≠ k := by
  have hremove := mem_remove_iff (k := k) (b := b) h
  obtain ⟨l₁, l₂, rfl, hchange, hrem⟩ := split_of_get ha
  rw [hchange, ← hremove, hrem, List.mem_append, List.mem_cons, List.mem_append, or_left_comm]

end NamedList
