import Mathlib.Data.Fin.Tuple.Basic
import Mathlib.Data.List.Forall2
import Mathlib.Data.List.Induction

/-!
# Machinery/ExceptFold — loops that may raise

Inversion of `bind` and an invariant rule for `foldlM` in `Except`: what holds of the list processed
so far and the loop variables, and survives every round that returns, holds at the end.
-/

namespace ExceptFold

variable {ε α β γ σ : Type}

theorem bind_eq_ok {x : Except ε α} {f : α → Except ε β} {b : β} (h : (x >>= f) = .ok b) :
    ∃ a, x = .ok a ∧ f a = .ok b := by
  cases x with
  | error e => cases h
  | ok a => exact ⟨a, rfl, h⟩

/-- What is checked has passed its check. -/
theorem ite_eq_ok {c : Prop} [Decidable c] {a b : α} {e : ε}
    (h : (if c then .ok a else .error e) = Except.ok b) : c ∧ a = b := by
  split at h
  · next hc => exact ⟨hc, Except.ok.inj h⟩
  · cases h

private theorem foldlM_inv_aux {f : σ → α → Except ε σ} {P : List α → σ → Prop} (all : List α)
    (hstep : ∀ done x rest s s', all = done ++ x :: rest → P done s → f s x = .ok s' →
      P (done ++ [x]) s') :
    ∀ (l done : List α) (s s' : σ), all = done ++ l → P done s → l.foldlM f s = .ok s' → P all s'
  | [], done, s, s', hall, hP, h => by
    cases h
    rwa [hall, List.append_nil]
  | x :: l, done, s, s', hall, hP, h => by
    rw [List.foldlM_cons] at h
    obtain ⟨t, ht, h⟩ := bind_eq_ok h
    refine foldlM_inv_aux all hstep l (done ++ [x]) t s' ?_ (hstep done x l s t hall hP ht) h
    rw [hall, List.append_assoc, List.singleton_append]

/-- **The invariant rule for a loop that may raise.** -/
theorem foldlM_inv {f : σ → α → Except ε σ} {P : List α → σ → Prop} {l : List α} {s s' : σ}
    (h : l.foldlM f s = .ok s') (hinit : P [] s)
    (hstep : ∀ done x rest s s', l = done ++ x :: rest → P done s → f s x = .ok s' →
      P (done ++ [x]) s') : P l s' :=
  foldlM_inv_aux l hstep l [] s s' rfl hinit h

/-- The invariant rule for a loop that cannot raise. -/
theorem foldl_inv {f : σ → α → σ} {P : List α → σ → Prop} {l : List α} {s : σ} (hinit : P [] s)
    (hstep : ∀ done x rest s, l = done ++ x :: rest → P done s → P (done ++ [x]) (f s x)) :
    P l (l.foldl f s) := by
  induction l using List.reverseRecOn generalizing s with
  | nil => exact hinit
  | append_singleton l x ih =>
    rw [List.foldl_append, List.foldl_cons, List.foldl_nil]
    refine hstep l x [] _ rfl (ih hinit fun done y rest t hl => ?_)
    exact hstep done y (rest ++ [x]) t (by rw [hl, List.append_assoc, List.cons_append])

/-- A loop that may raise, but does not while an invariant holds. -/
theorem foldlM_eq_ok {f : σ → α → Except ε σ} {g : σ → α → σ} {P : σ → Prop} {l : List α} {s : σ}
    (hstep : ∀ x ∈ l, ∀ s, P s → f s x = .ok (g s x) ∧ P (g s x)) (hs : P s) :
    l.foldlM f s = .ok (l.foldl g s) := by
  induction l generalizing s with
  | nil => rfl
  | cons x l ih =>
    obtain ⟨hx, hl⟩ := List.forall_mem_cons.mp hstep
    obtain ⟨hf, hP⟩ := hx s hs
    rw [List.foldlM_cons, hf, List.foldl_cons]
    exact ih hl hP

/-- A loop whose rounds all return, and keep an invariant, returns. -/
theorem foldlM_total {f : σ → α → Except ε σ} {P : List α → σ → Prop} {l : List α} {s : σ}
    (hinit : P [] s)
    (hstep : ∀ done x rest s, l = done ++ x :: rest → P done s →
      ∃ s', f s x = .ok s' ∧ P (done ++ [x]) s') : ∃ s', l.foldlM f s = .ok s' ∧ P l s' := by
  induction l using List.reverseRecOn generalizing s with
  | nil => exact ⟨s, rfl, hinit⟩
  | append_singleton l x ih =>
    obtain ⟨t, ht, hP⟩ := ih hinit fun done y rest t hl => by
      exact hstep done y (rest ++ [x]) t (by rw [hl, List.append_assoc, List.cons_append])
    obtain ⟨s', hs', hP'⟩ := hstep l x [] t rfl hP
    refine ⟨s', ?_, hP'⟩
    rw [List.foldlM_append, ht]
    change (f t x >>= fun s => pure s) = _
    rw [hs']
    rfl

/-! ## Lists whose elements are related one by one -/

theorem exists_right {R : α → β → Prop} {xs : List α} {ys : List β} {x : α}
    (h : List.Forall₂ R xs ys) (hx : x ∈ xs) : ∃ y ∈ ys, R x y := by
  obtain ⟨k, hk, rfl⟩ := List.mem_iff_getElem.mp hx
  have hk' : k < ys.length := h.length_eq ▸ hk
  exact ⟨_, List.getElem_mem hk', (List.forall₂_iff_get.mp h).2 k hk hk'⟩

theorem exists_left {R : α → β → Prop} {xs : List α} {ys : List β} {y : β}
    (h : List.Forall₂ R xs ys) (hy : y ∈ ys) : ∃ x ∈ xs, R x y := by
  obtain ⟨k, hk, rfl⟩ := List.mem_iff_getElem.mp hy
  have hk' : k < xs.length := h.length_eq ▸ hk
  exact ⟨_, List.getElem_mem hk', (List.forall₂_iff_get.mp h).2 k hk' hk⟩

/-- What holds between any two elements of a list holds between those they are related to. -/
theorem pairwise_of_forall₂ {R : α → β → Prop} {P : α → α → Prop} {Q : β → β → Prop} {xs : List α}
    {ys : List β} (hxs : xs.Pairwise P) (h : List.Forall₂ R xs ys)
    (hPQ : ∀ x x' y y', P x x' → R x y → R x' y' → Q y y') : ys.Pairwise Q := by
  induction h with
  | nil => exact .nil
  | cons hR hrest ih =>
    obtain ⟨hx, hxs⟩ := List.pairwise_cons.mp hxs
    refine List.pairwise_cons.mpr ⟨fun y' hy' => ?_, ih hxs⟩
    obtain ⟨x', hx', hR'⟩ := exists_left hrest hy'
    exact hPQ _ x' _ y' (hx x' hx') hR hR'

/-- `mapM` returns exactly the list of the results. -/
theorem mapM_eq_ok_iff {f : α → Except ε β} {l : List α} {ys : List β} :
    l.mapM f = .ok ys ↔ List.Forall₂ (fun x y => f x = .ok y) l ys := by
  induction l generalizing ys with
  | nil => simp [pure, Except.pure, eq_comm]
  | cons x l ih =>
    rw [List.mapM_cons]
    constructor
    · intro h
      obtain ⟨y, hy, h⟩ := bind_eq_ok h
      obtain ⟨zs, hzs, h⟩ := bind_eq_ok h
      cases h
      exact .cons hy (ih.mp hzs)
    · intro h
      cases h with
      | cons hy hys =>
        rw [hy, ih.mpr hys]
        rfl

/-- The same operation on all the elements of a list, each of which it changes to a related one. -/
theorem mapM_forall₂ {f : α → Except ε β} {R : γ → α → Prop} {S : γ → β → Prop} {ks : List γ}
    {l : List α} (h : List.Forall₂ R ks l)
    (hf : ∀ k ∈ ks, ∀ x, R k x → ∃ y, f x = .ok y ∧ S k y) :
    ∃ ys, l.mapM f = .ok ys ∧ List.Forall₂ S ks ys := by
  induction h with
  | nil => exact ⟨[], rfl, .nil⟩
  | @cons k x ks l hR _ ih =>
    obtain ⟨hk, hks⟩ := List.forall_mem_cons.mp hf
    obtain ⟨y, hy, hS⟩ := hk x hR
    obtain ⟨ys, hys, hSs⟩ := ih hks
    refine ⟨y :: ys, ?_, .cons hS hSs⟩
    rw [List.mapM_cons, hy, hys]
    rfl

/-- The same operation on all the elements of a list, none of which raises. -/
theorem mapM_map_ok {ι : Type} {g : α → Except ε β} {a : ι → α} {b : ι → β} {l : List ι}
    (h : ∀ x ∈ l, g (a x) = .ok (b x)) : (l.map a).mapM g = .ok (l.map b) := by
  induction l with
  | nil => rfl
  | cons x l ih =>
    obtain ⟨hx, hl⟩ := List.forall_mem_cons.mp h
    rw [List.map_cons, List.mapM_cons, hx, ih hl]
    rfl

theorem mapM_congr {f g : α → Except ε β} {l : List α} (h : ∀ x ∈ l, f x = g x) :
    l.mapM f = l.mapM g := by
  induction l with
  | nil => rfl
  | cons x l ih =>
    obtain ⟨hx, hl⟩ := List.forall_mem_cons.mp h
    rw [List.mapM_cons, List.mapM_cons, hx, ih hl]

theorem foldlM_congr {f g : σ → α → Except ε σ} {l : List α} (h : ∀ x ∈ l, ∀ s, f s x = g s x) {s : σ} :
    l.foldlM f s = l.foldlM g s := by
  induction l generalizing s with
  | nil => rfl
  | cons x l ih =>
    obtain ⟨hx, hl⟩ := List.forall_mem_cons.mp h
    rw [List.foldlM_cons, List.foldlM_cons, hx]
    exact congrArg (_ >>= ·) (funext fun _ => ih hl)

/-- A loop with a round that raises, whatever the loop variables are, raises. -/
theorem foldlM_error_of_mem {f : σ → α → Except ε σ} {l : List α} {x : α} (hx : x ∈ l)
    (h : ∀ s, ∃ e, f s x = .error e) (s : σ) : ∃ e, l.foldlM f s = .error e := by
  induction l generalizing s with
  | nil => exact absurd hx List.not_mem_nil
  | cons y l ih =>
    rw [List.foldlM_cons]
    rcases List.mem_cons.mp hx with rfl | hx
    · obtain ⟨e, he⟩ := h s
      exact ⟨e, by rw [he]; rfl⟩
    · cases hy : f s y with
      | error e => exact ⟨e, rfl⟩
      | ok s' => exact ih hx s'

/-- The loop that records what it goes through. -/
theorem foldlM_trace (f : α → β) (l : List α) (s : List β) :
    l.foldlM (fun s x => (.ok (s ++ [f x]) : Except ε (List β))) s = .ok (s ++ l.map f) := by
  induction l generalizing s with
  | nil => rw [List.map_nil, List.append_nil]; rfl
  | cons x l ih =>
    rw [List.foldlM_cons, List.map_cons, List.append_cons s (f x) (l.map f)]
    exact ih _

/-- An operation that raises on the first element already. -/
theorem mapM_error {f : α → Except ε β} {l : List α} {e : ε} (hne : l ≠ [])
    (h : ∀ x ∈ l, f x = .error e) : l.mapM f = .error e := by
  obtain ⟨x, l, rfl⟩ := List.exists_cons_of_ne_nil hne
  rw [List.mapM_cons, h x List.mem_cons_self]
  rfl

/-- An operation that raises on some element, when it raises one exception only. -/
theorem mapM_error_of_mem {f : α → Except ε β} {F : α → β} {raises : α → Prop} {e : ε} {l : List α}
    (hraises : ∀ x ∈ l, raises x → f x = .error e) (hok : ∀ x ∈ l, ¬raises x → f x = .ok (F x))
    (hex : ∃ x ∈ l, raises x) : l.mapM f = .error e := by
  induction l with
  | nil => exact absurd hex (by simp)
  | cons x l ih =>
    obtain ⟨hxraises, hlraises⟩ := List.forall_mem_cons.mp hraises
    obtain ⟨hxok, hlok⟩ := List.forall_mem_cons.mp hok
    rw [List.mapM_cons]
    by_cases hx : raises x
    · rw [hxraises hx]
      rfl
    · have hl : ∃ y ∈ l, raises y := by
        obtain ⟨y, hy, hyraises⟩ := hex
        exact ⟨y, (List.mem_cons.mp hy).resolve_left fun heq => hx (heq ▸ hyraises), hyraises⟩
      rw [hxok hx, ih hlraises hlok hl]
      rfl

/-- Two operations that raise an exception on the same elements do the same to a list where they do the
same to its elements, or raise the exception on one of them. -/
theorem mapM_eq_mapM_iff {f g : α → Except ε β} {F G : α → β} {raises : α → Prop} {e : ε} {l : List α}
    (hf : ∀ x, raises x → f x = .error e) (hg : ∀ x, raises x → g x = .error e)
    (hF : ∀ x, ¬raises x → f x = .ok (F x)) (hG : ∀ x, ¬raises x → g x = .ok (G x)) :
    l.mapM f = l.mapM g ↔ (∃ x ∈ l, raises x) ∨ ∀ x ∈ l, f x = g x := by
  by_cases hex : ∃ x ∈ l, raises x
  · refine iff_of_true ?_ (.inl hex)
    rw [mapM_error_of_mem (fun x _ => hf x) (fun x _ => hF x) hex,
      mapM_error_of_mem (fun x _ => hg x) (fun x _ => hG x) hex]
  rw [or_iff_right hex]
  refine ⟨fun heq x hx => ?_, mapM_congr⟩
  have hno : ∀ x ∈ l, ¬raises x := fun x hx h => hex ⟨x, hx, h⟩
  have hfl := mapM_map_ok (a := id) fun x hx => hF x (hno x hx)
  have hgl := mapM_map_ok (a := id) fun x hx => hG x (hno x hx)
  rw [List.map_id] at hfl hgl
  rw [hfl, hgl] at heq
  rw [hF x (hno x hx), hG x (hno x hx), List.map_inj_left.mp (Except.ok.inj heq) x hx]

/-! ## Values for each dimension -/

/-- The values of a family, or the first exception. -/
def collect : {n : ℕ} → (Fin n → Except ε α) → Except ε (Fin n → α)
  | 0, _ => .ok Fin.elim0
  | _ + 1, f => do
    let x ← f 0
    let xs ← collect fun i => f i.succ
    return Fin.cons x xs

theorem collect_eq_ok {n : ℕ} {f : Fin n → Except ε α} {g : Fin n → α} (h : ∀ i, f i = .ok (g i)) :
    collect f = .ok g := by
  induction n with
  | zero => exact congrArg Except.ok (Subsingleton.elim _ _)
  | succ n ih =>
    rw [collect, h 0, @ih (fun i => f i.succ) (fun i => g i.succ) fun i => h i.succ]
    exact congrArg Except.ok (Fin.cons_self_tail g)

/-! ## Both ways to end -/

/-- What holds of the result, and of the exception. -/
def Post (Q : σ → Prop) (E : ε → Prop) : Except ε σ → Prop
  | .ok s => Q s
  | .error e => E e

variable {Q : σ → Prop} {E : ε → Prop}

theorem Post.mono {Q' : σ → Prop} {x : Except ε σ} (h : Post Q E x) (hQ : ∀ s, Q s → Q' s) : Post Q' E x := by
  cases x with
  | ok s => exact hQ s h
  | error e => exact h

theorem Post.bind {Q' : α → Prop} {x : Except ε σ} {f : σ → Except ε α} (h : Post Q E x)
    (hf : ∀ s, Q s → Post Q' E (f s)) : Post Q' E (x >>= f) := by
  cases x with
  | ok s => exact hf s h
  | error e => exact h

theorem Post.of_ok {x : Except ε σ} {s : σ} (h : Post Q E x) (hx : x = .ok s) : Q s := by
  subst hx
  exact h

theorem Post.of_error {x : Except ε σ} {e : ε} (h : Post Q E x) (hx : x = .error e) : E e := by
  subst hx
  exact h

/-- **The invariant rule for a loop that may raise, with a condition on what it raises.** -/
theorem Post.foldlM {f : σ → α → Except ε σ} {l : List α} {s : σ} (hs : Q s)
    (hstep : ∀ x ∈ l, ∀ s, Q s → Post Q E (f s x)) : Post Q E (l.foldlM f s) := by
  induction l generalizing s with
  | nil => exact hs
  | cons x l ih =>
    obtain ⟨hx, hl⟩ := List.forall_mem_cons.mp hstep
    have hpost := hx s hs
    rw [List.foldlM_cons]
    rcases hf : f s x with e | t
    · rw [hf] at hpost
      exact hpost
    · rw [hf] at hpost
      exact ih hpost hl

end ExceptFold
