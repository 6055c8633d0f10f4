import Mathlib.Data.List.Basic

/-!
# Machinery/Iteration — iterators that are asked until they are done

An iterator returns a value and moves on.  An invariant that counts the calls tells all the values.
-/

namespace Iteration

variable {σ α : Type}

/-- The values that an iterator returns until it is done, and the iterator then; `none` if that takes more
than `fuel` calls. -/
def values (done : σ → Bool) (next : σ → α × σ) : (fuel : ℕ) → σ → Option (List α × σ)
  | 0, it => if done it then some ([], it) else none
  | fuel + 1, it =>
    if done it then some ([], it)
    else (values done next fuel (next it).2).map fun r => ((next it).1 :: r.1, r.2)

/-- Before its last call an iterator is not done, it returns the value for the number of the call, and the
last call leaves it done. -/
structure Numbered (done : σ → Bool) (next : σ → α × σ) (N : ℕ) (value : ℕ → α) (At : ℕ → σ → Prop) :
    Prop where
  not_done : ∀ {n it}, At n it → done it = false
  returns : ∀ {n it}, At n it → n < N → (next it).1 = value n
  moves : ∀ {n it}, At n it → n + 1 < N → At (n + 1) (next it).2
  ends : ∀ {n it}, At n it → n + 1 = N → done (next it).2 = true

variable {done : σ → Bool} {next : σ → α × σ} {N n fuel : ℕ} {value : ℕ → α} {At : ℕ → σ → Prop} {it : σ}

/-- **From a call on, the values of the rest of the calls are returned.** -/
theorem Numbered.values_eq (h : Numbered done next N value At) (hit : At n it) (hn : n < N)
    (hfuel : N = n + fuel) :
    ∃ it', values done next fuel it = some ((List.range' n fuel).map value, it') := by
  induction fuel generalizing n it with
  | zero => omega
  | succ fuel ih =>
    rw [values, if_neg (Bool.not_eq_true _ ▸ h.not_done hit), h.returns hit hn]
    rcases Nat.lt_or_ge (n + 1) N with hlt | hge
    · obtain ⟨it', hrest⟩ := ih (h.moves hit hlt) hlt (by omega)
      exact ⟨it', by rw [hrest]; rfl⟩
    · obtain rfl : fuel = 0 := by omega
      have hover := h.ends hit (by omega)
      exact ⟨_, by rw [values, if_pos hover]; rfl⟩

end Iteration
