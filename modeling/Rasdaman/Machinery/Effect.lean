import Mathlib.Init

/-!
# Machinery/Effect — computations that ask, change and throw

A computation reads an environment, changes a state and may throw; an exception does not undo the
changes made before it.  `Triple` is the usual pre- and postcondition, with a second postcondition
for the exceptional exit, and the rules below compose it.
-/

namespace Effect

/-- A computation over an environment `ρ`, exceptions `ε` and a state `σ`. -/
abbrev Eff (ρ ε σ : Type) (α : Type) := ReaderT ρ (ExceptT ε (StateM σ)) α

variable {ρ ε σ α β : Type} {env : ρ} {P R : σ → Prop} {Q Q' : α → σ → Prop} {E F : σ → Prop}

/-- The outcome of a computation and the state it leaves. -/
def exec (x : Eff ρ ε σ α) (env : ρ) (s : σ) : Except ε α × σ := (x env).run s

@[simp] theorem exec_pure (a : α) (env : ρ) (s : σ) :
    exec (pure a : Eff ρ ε σ α) env s = (.ok a, s) := rfl

@[simp] theorem exec_throw (e : ε) (env : ρ) (s : σ) :
    exec (throw e : Eff ρ ε σ α) env s = (.error e, s) := rfl

@[simp] theorem exec_get (env : ρ) (s : σ) : exec (get : Eff ρ ε σ σ) env s = (.ok s, s) := rfl

@[simp] theorem exec_set (t : σ) (env : ρ) (s : σ) :
    exec (set t : Eff ρ ε σ PUnit) env s = (.ok ⟨⟩, t) := rfl

@[simp] theorem exec_read (env : ρ) (s : σ) : exec (read : Eff ρ ε σ ρ) env s = (.ok env, s) := rfl

@[simp] theorem exec_modify (f : σ → σ) (env : ρ) (s : σ) :
    exec (modify f : Eff ρ ε σ PUnit) env s = (.ok ⟨⟩, f s) := rfl

theorem exec_bind (x : Eff ρ ε σ α) (f : α → Eff ρ ε σ β) (env : ρ) (s : σ) :
    exec (x >>= f) env s = match exec x env s with
      | (.ok a, s') => exec (f a) env s'
      | (.error e, s') => (.error e, s') := by
  have hcont : exec (x >>= f) env s
      = ExceptT.bindCont (fun a => f a env) (exec x env s).1 (exec x env s).2 := rfl
  rw [hcont]
  rcases exec x env s with ⟨_ | _, s'⟩ <;> rfl

theorem exec_tryCatch (x : Eff ρ ε σ α) (handle : ε → Eff ρ ε σ α) (env : ρ) (s : σ) :
    exec (tryCatch x handle) env s = match exec x env s with
      | (.ok a, s') => (.ok a, s')
      | (.error e, s') => exec (handle e) env s' := by
  have hcont : exec (tryCatch x handle) env s = (match (exec x env s).1 with
      | .ok a => Pure.pure (.ok a)
      | .error e => handle e env : StateM σ (Except ε α)) (exec x env s).2 := rfl
  rw [hcont]
  rcases exec x env s with ⟨_ | _, s'⟩ <;> rfl

/-- A sequence that ends returned from its first part. -/
theorem exec_bind_ok {x : Eff ρ ε σ α} {f : α → Eff ρ ε σ β} {s s' : σ} {b : β}
    (h : exec (x >>= f) env s = (.ok b, s')) :
    ∃ a t, exec x env s = (.ok a, t) ∧ exec (f a) env t = (.ok b, s') := by
  rw [exec_bind] at h
  rcases hx : exec x env s with ⟨e | a, t⟩ <;> rw [hx] at h
  · cases (Prod.mk.inj h).1
  · exact ⟨a, t, rfl, h⟩

/-- A sequence that throws does so in its first part or after it. -/
theorem exec_bind_error {x : Eff ρ ε σ α} {f : α → Eff ρ ε σ β} {s s' : σ} {e : ε}
    (h : exec (x >>= f) env s = (.error e, s')) :
    exec x env s = (.error e, s') ∨
      ∃ a t, exec x env s = (.ok a, t) ∧ exec (f a) env t = (.error e, s') := by
  rw [exec_bind] at h
  rcases hx : exec x env s with ⟨e' | a, t⟩ <;> rw [hx] at h
  · obtain ⟨he, ht⟩ := Prod.mk.inj h
    exact .inl (by rw [Except.error.inj he, ht])
  · exact .inr ⟨a, t, rfl, h⟩

/-- From `P` the computation ends in `Q`, or throws and leaves `E`. -/
def Triple (env : ρ) (P : σ → Prop) (x : Eff ρ ε σ α) (Q : α → σ → Prop) (E : σ → Prop) : Prop :=
  ∀ s, P s → match exec x env s with
    | (.ok a, s') => Q a s'
    | (.error _, s') => E s'

/-- `P` holds afterwards, however the computation ends. -/
def Keeps (env : ρ) (P : σ → Prop) (x : Eff ρ ε σ α) : Prop := Triple env P x (fun _ => P) P

theorem Keeps.exec {x : Eff ρ ε σ α} (h : Keeps env P x) {s : σ} (hs : P s) :
    P (exec x env s).2 := by
  have hpost := h s hs
  rcases hrun : Effect.exec x env s with ⟨_ | _, s'⟩ <;> rw [hrun] at hpost <;> exact hpost

theorem Triple.conseq {x : Eff ρ ε σ α} (h : Triple env R x Q' F) (hP : ∀ s, P s → R s)
    (hQ : ∀ a s, Q' a s → Q a s) (hE : ∀ s, F s → E s) : Triple env P x Q E := by
  intro s hs
  have hpost := h s (hP s hs)
  rcases hrun : exec x env s with ⟨_ | _, s'⟩ <;> rw [hrun] at hpost
  · exact hE s' hpost
  · exact hQ _ s' hpost

theorem Triple.pure {a : α} (h : ∀ s, P s → Q a s) : Triple env P (pure a : Eff ρ ε σ α) Q E :=
  fun s hs => h s hs

theorem Triple.throw {e : ε} (h : ∀ s, P s → E s) : Triple env P (throw e : Eff ρ ε σ α) Q E :=
  fun s hs => h s hs

theorem Triple.modify {f : σ → σ} {Q : PUnit → σ → Prop} (h : ∀ s, P s → Q ⟨⟩ (f s)) :
    Triple env P (modify f : Eff ρ ε σ PUnit) Q E :=
  fun s hs => h s hs

theorem Triple.bind {x : Eff ρ ε σ α} {f : α → Eff ρ ε σ β} {R : β → σ → Prop}
    (hx : Triple env P x Q E) (hf : ∀ a, Triple env (Q a) (f a) R E) :
    Triple env P (x >>= f) R E := by
  intro s hs
  have hpost := hx s hs
  rw [exec_bind]
  rcases hrun : exec x env s with ⟨e | a, s'⟩ <;> rw [hrun] at hpost
  · exact hpost
  · exact hf a s' hpost

/-- An exception of `x` is caught, and the handler goes on from the state `x` left. -/
theorem Triple.tryCatch {x : Eff ρ ε σ α} {handle : ε → Eff ρ ε σ α} (hx : Triple env P x Q F)
    (hh : ∀ e, Triple env F (handle e) Q E) : Triple env P (tryCatch x handle) Q E := by
  intro s hs
  have hpost := hx s hs
  rw [exec_tryCatch]
  rcases hrun : exec x env s with ⟨e | a, s'⟩ <;> rw [hrun] at hpost
  · exact hh e s' hpost
  · exact hpost

theorem Triple.ite {c : Prop} [Decidable c] {x y : Eff ρ ε σ α}
    (hx : c → Triple env P x Q E) (hy : ¬c → Triple env P y Q E) :
    Triple env P (if c then x else y) Q E := by
  split
  case isTrue h => exact hx h
  case isFalse h => exact hy h

theorem Keeps.bind {x : Eff ρ ε σ α} {f : α → Eff ρ ε σ β} (hx : Keeps env P x)
    (hf : ∀ a, Keeps env P (f a)) : Keeps env P (x >>= f) :=
  Triple.bind hx hf

end Effect
