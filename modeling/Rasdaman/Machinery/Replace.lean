import Mathlib

/-!
# Machinery/Replace — all occurrences of a text replaced by another

`replaceAll` looks for a text from left to right and goes on behind each occurrence it has replaced.
Where the text begins with a character that a piece does not have, the piece stays as it is; where it
does not have a character at all, that character cuts the work in two.
-/

namespace Replace

variable {α : Type} [DecidableEq α] {u v a b s : List α} {c d : α} {p : List α}

/-- The replacement where the first `n` characters belong to the occurrence found last. -/
def replaceFrom (u v : List α) : ℕ → List α → List α
  | _, [] => []
  | n + 1, _ :: s => replaceFrom u v n s
  | 0, c :: s =>
    if u <+: c :: s then v ++ replaceFrom u v (u.length - 1) s
    else c :: replaceFrom u v 0 s

/-- Every occurrence of `u`, which is not empty, replaced by `v`. -/
def replaceAll (u v s : List α) : List α := replaceFrom u v 0 s

@[simp] theorem replaceAll_nil : replaceAll u v [] = [] := rfl

theorem replaceFrom_append : replaceFrom u v a.length (a ++ s) = replaceAll u v s := by
  induction a with
  | nil => rfl
  | cons x a ih => exact ih

/-- Behind an occurrence the search goes on. -/
theorem replaceAll_self_append (hp : u ≠ []) :
    replaceAll u v (u ++ s) = v ++ replaceAll u v s := by
  obtain ⟨c, p, rfl⟩ := List.exists_cons_of_ne_nil hp
  rw [List.cons_append, replaceAll, replaceFrom, if_pos (show c :: p <+: c :: (p ++ s) from List.prefix_append _ s)]
  exact congrArg _ replaceFrom_append

theorem replaceAll_cons (h : ¬ u <+: c :: s) : replaceAll u v (c :: s) = c :: replaceAll u v s :=
  if_neg h

/-- A piece without the first character of the text sought. -/
theorem replaceAll_append_of_notMem (h : d ∉ a) :
    replaceAll (d :: p) v (a ++ s) = a ++ replaceAll (d :: p) v s := by
  induction a with
  | nil => rfl
  | cons x a ih =>
    rw [List.mem_cons, not_or] at h
    rw [List.cons_append, List.cons_append, replaceAll_cons, ih h.2]
    exact fun hp => h.1 (List.cons_prefix_cons.mp hp).1

theorem replaceAll_of_notMem (h : d ∉ a) : replaceAll (d :: p) v a = a := by
  simpa using replaceAll_append_of_notMem (p := p) (v := v) (s := []) h

omit [DecidableEq α] in
/-- An occurrence does not go on over a character that the text sought does not have. -/
theorem prefix_append_cons_iff (hc : c ∉ u) : u <+: a ++ c :: s ↔ u <+: a := by
  refine ⟨?_, fun h => h.trans (List.prefix_append a _)⟩
  rintro ⟨t, ht⟩
  obtain ⟨x, rfl, hx⟩ | ⟨x, rfl, -⟩ := List.append_eq_append_iff.mp ht.symm
  · cases x with
    | nil => simp
    | cons y x =>
      rw [List.cons_append, List.cons.injEq] at hx
      exact absurd (by simp [hx.1]) hc
  · exact List.prefix_append u x

omit [DecidableEq α] in
/-- Texts up to a character that they do not have themselves. -/
theorem append_cons_inj {x y : List α} (ha : c ∉ a) (hb : c ∉ b) :
    a ++ c :: x = b ++ c :: y ↔ a = b ∧ x = y := by
  refine ⟨fun h => ?_, by rintro ⟨rfl, rfl⟩; rfl⟩
  induction a generalizing b with
  | nil =>
    cases b with
    | nil => exact ⟨rfl, (List.cons.inj h).2⟩
    | cons d b => exact absurd (List.cons.inj h).1 fun hd => hb (hd ▸ List.mem_cons_self)
  | cons d a ih =>
    cases b with
    | nil => exact absurd (List.cons.inj h).1 fun hd => ha (hd ▸ List.mem_cons_self)
    | cons e b =>
      obtain ⟨rfl, htail⟩ := List.cons.inj h
      obtain ⟨rfl, hrest⟩ := ih (mt (List.mem_cons_of_mem d) ha) (mt (List.mem_cons_of_mem d) hb) htail
      exact ⟨rfl, hrest⟩

theorem replaceFrom_append_cons (hp : u ≠ []) (hc : c ∉ u) {n : ℕ} (hn : n ≤ a.length) :
    replaceFrom u v n (a ++ c :: s) = replaceFrom u v n a ++ c :: replaceAll u v s := by
  induction a generalizing n with
  | nil =>
    obtain rfl := Nat.le_zero.mp hn
    refine if_neg fun h => hp ?_
    exact List.prefix_nil.mp ((prefix_append_cons_iff (a := []) hc).mp h)
  | cons x a ih =>
    cases n with
    | succ n => exact ih (Nat.le_of_succ_le_succ hn)
    | zero =>
      have hiff : u <+: x :: (a ++ c :: s) ↔ u <+: x :: a := prefix_append_cons_iff (a := x :: a) hc
      rw [List.cons_append, replaceFrom, replaceFrom]
      by_cases h : u <+: x :: a
      · have hlen := h.length_le
        rw [List.length_cons] at hlen
        rw [if_pos h, if_pos (hiff.mpr h), ih (by omega), List.append_assoc]
      · rw [if_neg h, if_neg (mt hiff.mp h), ih (Nat.zero_le _),
          List.cons_append]

/-- **A character that the text sought does not have** cuts the replacement in two. -/
theorem replaceAll_append_cons (hp : u ≠ []) (hc : c ∉ u) :
    replaceAll u v (a ++ c :: s) = replaceAll u v a ++ c :: replaceAll u v s :=
  replaceFrom_append_cons hp hc (Nat.zero_le _)

theorem replaceAll_of_absent (h : ¬ u <:+: s) : replaceAll u v s = s := by
  induction s with
  | nil => rfl
  | cons c s ih =>
    rw [List.infix_cons_iff, not_or] at h
    rw [replaceAll_cons h.1, ih h.2]

/-- The first occurrence is replaced; what is in front of it stays. -/
theorem replaceAll_of_present (hp : u ≠ []) (h : u <:+: s) :
    ∃ a b, s = a ++ (u ++ b) ∧ replaceAll u v s = a ++ (v ++ replaceAll u v b) := by
  induction s with
  | nil => exact absurd (List.infix_nil.mp h) hp
  | cons c s ih =>
    by_cases hc : u <+: c :: s
    · obtain ⟨b, hb⟩ := hc
      refine ⟨[], b, hb.symm, ?_⟩
      rw [← hb, replaceAll_self_append hp, List.nil_append]
    · obtain ⟨a, b, rfl, hrep⟩ := ih ((List.infix_cons_iff.mp h).resolve_left hc)
      exact ⟨c :: a, b, rfl, by rw [replaceAll_cons hc, hrep, List.cons_append]⟩

end Replace
