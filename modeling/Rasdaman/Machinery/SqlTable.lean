import Mathlib.Data.List.Basic

/-!
# Machinery/SqlTable — rows of a table under INSERT, UPDATE, DELETE and SELECT

A table is the list of its rows.  INSERT raises where a unique index already has the key, UPDATE and
DELETE report that no row matched; the caller of both raises then.

What a statement about the rows of one object does is told by those rows alone: `insert_slice`,
`update_slice` and `delete_slice` give the rows that satisfy `q` after it from those before.
-/

namespace SqlTable

variable {α κ ε : Type} [DecidableEq κ]

/-- `INSERT` into a table with a unique index on `key`. -/
def insert (raise : ε) (key : α → κ) (row : α) (rows : List α) : Except ε (List α) :=
  if key row ∈ rows.map key then .error raise else .ok (rows ++ [row])

/-- `UPDATE … WHERE p`, by a caller that raises when no row matches. -/
def update (raise : ε) (p : α → Bool) (set : α → α) (rows : List α) : Except ε (List α) :=
  if rows.any p then .ok (rows.map fun r => if p r then set r else r) else .error raise

/-- `DELETE … WHERE p`, by a caller that raises when no row matches. -/
def delete (raise : ε) (p : α → Bool) (rows : List α) : Except ε (List α) :=
  if rows.any p then .ok (rows.filter fun r => !p r) else .error raise

/-- `SELECT … WHERE p`. -/
def select (p : α → Bool) (rows : List α) : Option α := rows.find? p

variable (raise : ε) (key : α → κ) {p q : α → Bool} (set : α → α) {t : List α}

theorem insert_slice {x : α} (hkey : ∀ r, key r = key x → q r = true)
    (hnew : ∀ r ∈ t.filter q, key r ≠ key x) :
    insert raise key x t = .ok (t ++ [x]) := by
  refine if_neg fun hmem => ?_
  obtain ⟨r, hr, heq⟩ := List.mem_map.mp hmem
  exact hnew r (List.mem_filter.mpr ⟨hr, hkey r heq⟩) heq

/-- A statement whose condition holds only of rows in the slice matches a row exactly when it matches
one of the slice. -/
theorem any_eq_any_slice (hp : ∀ r, p r = true → q r = true) : t.any p = (t.filter q).any p := by
  rw [Bool.eq_iff_iff, List.any_eq_true, List.any_eq_true]
  constructor
  · rintro ⟨r, hr, hpr⟩
    exact ⟨r, List.mem_filter.mpr ⟨hr, hp r hpr⟩, hpr⟩
  · rintro ⟨r, hr, hpr⟩
    exact ⟨r, List.mem_of_mem_filter hr, hpr⟩

theorem update_slice
    (hp : ∀ r, p r = true → q r = true) (hset : ∀ r, p r = true → q (set r) = true)
    (hmatch : (t.filter q).any p = true) :
    ∃ t', update raise p set t = .ok t' ∧
      t'.filter q = (t.filter q).map fun r => if p r then set r else r := by
  refine ⟨_, if_pos ((any_eq_any_slice hp).trans hmatch), ?_⟩
  rw [List.filter_map]
  refine congrArg _ (List.filter_congr fun r _ => ?_)
  rw [Function.comp_apply]
  split
  · next h => rw [hset r h, hp r h]
  · rfl

theorem delete_slice (hp : ∀ r, p r = true → q r = true) (hmatch : (t.filter q).any p = true) :
    ∃ t', delete raise p t = .ok t' ∧
      t'.filter q = (t.filter q).filter fun r => !p r := by
  refine ⟨_, if_pos ((any_eq_any_slice hp).trans hmatch), ?_⟩
  rw [List.filter_filter, List.filter_filter]
  exact List.filter_congr fun r _ => Bool.and_comm _ _

theorem delete_noMatch (hp : ∀ r, p r = true → q r = true) (hno : (t.filter q).any p = false) :
    delete raise p t = .error raise :=
  if_neg (by rw [any_eq_any_slice hp, hno]; exact Bool.false_ne_true)

theorem select_slice (hp : ∀ r, p r = true → q r = true) :
    select p t = (t.filter q).find? p := by
  rw [select, List.find?_filter]
  refine congrArg₂ _ (funext fun r => ?_) rfl
  cases hpr : p r with
  | true => simp [hp r hpr]
  | false => simp

end SqlTable
