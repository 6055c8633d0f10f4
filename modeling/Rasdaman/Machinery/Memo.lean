import Mathlib.Data.List.Basic

/-!
# Machinery/Memo — queries answered through a table of earlier answers

A table is a list of keys and answers, the latest first.  It is sound for a list of past queries when
every answer found in it was computed for one of them that has its key.
-/

namespace Memo

variable {Q K E V : Type} [BEq K] {key : Q → K} {compute : Q → Except E V}

/-- Every answer of the table is that of a past query with its key. -/
def Sound (key : Q → K) (compute : Q → Except E V) (past : List Q) (table : List (K × V)) : Prop :=
  ∀ k v, table.lookup k = some v → ∃ q ∈ past, key q = k ∧ compute q = .ok v

variable {past : List Q} {table : List (K × V)}

theorem Sound.empty : Sound key compute past [] := fun _ _ h => nomatch h

/-- A sound table stays so as queries go by. -/
theorem Sound.pass (h : Sound key compute past table) (q : Q) : Sound key compute (q :: past) table :=
  fun k v hv =>
    let ⟨p, hp, hpk⟩ := h k v hv
    ⟨p, List.mem_cons_of_mem q hp, hpk⟩

/-- A computed answer may be put under its query's key. -/
theorem Sound.put [LawfulBEq K] (h : Sound key compute past table) {q : Q} {v : V} (hq : compute q = .ok v) :
    Sound key compute (q :: past) ((key q, v) :: table) := by
  intro k w hw
  rw [List.lookup_cons] at hw
  cases hk : k == key q with
  | true =>
    rw [hk] at hw
    exact ⟨q, List.mem_cons_self, (beq_iff_eq.mp hk).symm, Option.some.inj hw ▸ hq⟩
  | false =>
    rw [hk] at hw
    exact h.pass q k w hw

/-- The answers of a run of queries. -/
def answers (step : List (K × V) → Q → Except E V × List (K × V)) :
    List (K × V) → List Q → List (Except E V)
  | _, [] => []
  | table, q :: qs => (step table q).1 :: answers step (step table q).2 qs

/-- A step from a sound table computes its answer and leaves a sound table, for a query that stands in
`R` to the past ones. -/
def Transparent (key : Q → K) (compute : Q → Except E V) (R : Q → Q → Prop)
    (step : List (K × V) → Q → Except E V × List (K × V)) : Prop :=
  ∀ past table q, Sound key compute past table → (∀ p ∈ past, R p q) →
    (step table q).1 = compute q ∧ Sound key compute (q :: past) (step table q).2

variable {R : Q → Q → Prop} {step : List (K × V) → Q → Except E V × List (K × V)} {qs : List Q}

theorem Transparent.answers_eq_of_past (hstep : Transparent key compute R step) (hqs : qs.Pairwise R)
    (hpast : ∀ p ∈ past, ∀ q ∈ qs, R p q) (h : Sound key compute past table) :
    answers step table qs = qs.map compute := by
  induction qs generalizing past table with
  | nil => rfl
  | cons q qs ih =>
    obtain ⟨hq, hqs⟩ := List.pairwise_cons.mp hqs
    obtain ⟨hanswer, hsound⟩ := hstep past table q h fun p hp => hpast p hp q List.mem_cons_self
    have hpast' : ∀ p ∈ q :: past, ∀ r ∈ qs, R p r := by
      intro p hp r hr
      rcases List.mem_cons.mp hp with rfl | hp
      · exact hq r hr
      · exact hpast p hp r (List.mem_cons_of_mem q hr)
    rw [answers, List.map_cons, hanswer, ih hqs hpast' hsound]

/-- **Answers from a table are computed answers**, from the empty table on. -/
theorem Transparent.answers_eq (hstep : Transparent key compute R step) (hqs : qs.Pairwise R) :
    answers step [] qs = qs.map compute :=
  hstep.answers_eq_of_past hqs (fun _ hp => absurd hp List.not_mem_nil)
    (.empty : Sound key compute [] [])

end Memo
