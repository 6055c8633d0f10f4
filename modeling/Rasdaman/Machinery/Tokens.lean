import Mathlib.Data.List.Basic

/-!
# Machinery/Tokens — texts that spell tokens between marks

The characters of a text are marks, or parts of tokens.  `Spells` says which tokens a text spells;
`Writes` is its form for a piece of a text, which composes.
-/

namespace Tokens

variable {α : Type} {part : α → Bool} {ts us : List (List α)} {text a b p rest t : List α} {c : α}

/-- No token goes on at the start of a text. -/
def Ends (part : α → Bool) (rest : List α) : Prop := ∀ c ∈ rest.head?, part c = false

/-- All characters are marks. -/
def Marks (part : α → Bool) (p : List α) : Prop := ∀ c ∈ p, part c = false

/-- A token: not empty, and without marks. -/
def Token (part : α → Bool) (t : List α) : Prop := t ≠ [] ∧ ∀ c ∈ t, part c = true

/-- A text spells tokens: between any two of them are marks. -/
inductive Spells (part : α → Bool) : List (List α) → List α → Prop
  | nil {p : List α} : Marks part p → Spells part [] p
  | cons {p t rest : List α} {ts : List (List α)} : Marks part p → Token part t → Ends part rest →
      Spells part ts rest → Spells part (t :: ts) (p ++ (t ++ rest))

/-- A piece of a text spells tokens, in front of any text that does not go on with its last one. -/
def Writes (part : α → Bool) (ts : List (List α)) (text : List α) : Prop :=
  ∀ us rest, Ends part rest → Spells part us rest → Spells part (ts ++ us) (text ++ rest)

theorem Marks.ends_append (hp : Marks part p) (h : Ends part rest) : Ends part (p ++ rest) := by
  cases p with
  | nil => exact h
  | cons c p => exact fun c' hc' => hp c' (by simpa using Or.inl (Option.some.inj hc').symm)

theorem Spells.pad (h : Spells part ts text) (hp : Marks part p) : Spells part ts (p ++ text) := by
  cases h with
  | nil hp' => exact .nil (List.forall_mem_append.mpr ⟨hp, hp'⟩)
  | cons hp' ht hends hrest =>
    rw [← List.append_assoc]
    exact .cons (List.forall_mem_append.mpr ⟨hp, hp'⟩) ht hends hrest

theorem Writes.marks (hp : Marks part p) : Writes part [] p := fun _ _ _ h => h.pad hp

theorem Writes.token (ht : Token part t) : Writes part [t] t := fun _ _ hends h =>
  .cons (p := []) nofun ht hends h

/-- Two pieces with marks between them. -/
theorem Writes.append (ha : Writes part ts a) (hb : Writes part us b) (hc : part c = false) :
    Writes part (ts ++ us) (a ++ c :: b) := by
  intro vs rest hends h
  rw [List.append_assoc, List.append_assoc, List.cons_append]
  refine ha _ _ (fun c' hc' => ?_) ((hb vs rest hends h).pad (p := [c]) ?_)
  · rw [← Option.some.inj hc']
    exact hc
  · exact fun c' hc' => List.mem_singleton.mp hc' ▸ hc

/-- A piece between marks. -/
theorem Writes.wrap {q : List α} (h : Writes part ts text) (hp : Marks part p) (hq : Marks part q) :
    Writes part ts (p ++ text ++ q) := by
  intro vs rest hends hrest
  rw [List.append_assoc, List.append_assoc]
  exact (h vs _ (hq.ends_append hends) (hrest.pad hq)).pad hp

/-- Pieces with a mark between any two of them. -/
theorem Writes.intercalate {tss : List (List (List α))} {parts : List (List α)}
    (h : List.Forall₂ (Writes part) tss parts) (hc : part c = false) :
    Writes part tss.flatten ([c].intercalate parts) := by
  induction h with
  | nil => exact .marks nofun
  | @cons ts p tss parts hp hparts ih =>
    rw [List.flatten_cons]
    cases hparts with
    | nil => rwa [List.flatten_nil, List.append_nil, List.intercalate_singleton]
    | cons hp' hparts =>
      rw [List.intercalate_cons_cons, List.append_assoc, List.singleton_append]
      exact hp.append ih hc

theorem Writes.spells (h : Writes part ts text) : Spells part ts text := by
  have hall := h [] [] nofun (.nil nofun)
  rwa [List.append_nil, List.append_nil] at hall

/-- The first token, and what comes after it. -/
theorem Spells.dropWhile (h : Spells part (t :: ts) text) :
    ∃ rest, text.dropWhile (fun c => !part c) = t ++ rest ∧ Token part t ∧ Ends part rest ∧
      Spells part ts rest := by
  cases h with
  | @cons p t rest ts hp ht hends hrest =>
    refine ⟨rest, ?_, ht, hends, hrest⟩
    have hdrop : ∀ text : List α, (p ++ text).dropWhile (fun c => !part c) =
        text.dropWhile fun c => !part c := by
      intro text
      induction p with
      | nil => rfl
      | cons c p ih =>
        obtain ⟨hc, hp⟩ := List.forall_mem_cons.mp hp
        rw [List.cons_append, List.dropWhile_cons_of_pos (by rw [hc]; rfl)]
        exact ih hp
    rw [hdrop]
    obtain ⟨hne, hall⟩ := ht
    cases t with
    | nil => exact absurd rfl hne
    | cons c t =>
      rw [List.cons_append, List.dropWhile_cons_of_neg]
      rw [hall c List.mem_cons_self]
      exact Bool.false_ne_true

/-- What is spelled after the first character of a token. -/
theorem Spells.tail {cs : List α} (ht : Token part (c :: cs)) (hends : Ends part rest)
    (h : Spells part ts rest) : Spells part (if cs = [] then ts else cs :: ts) (cs ++ rest) := by
  by_cases hcs : cs = []
  · rw [if_pos hcs, hcs]
    exact h
  · rw [if_neg hcs]
    exact .cons (p := []) nofun ⟨hcs, fun c' hc' => ht.2 c' (List.mem_cons_of_mem c hc')⟩ hends h

end Tokens
