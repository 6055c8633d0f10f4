import Mathlib

/-!
# Machinery/Regex — patterns that are matched with backtracking

`run` gives the matches of a pattern at the start of a text in the order in which a backtracking
matcher tries them: a repetition takes as much as it can first, a reluctant one as little, and an
alternative is tried before the ones behind it.  The matcher answers with the first of them, `first`.
-/

namespace Regex

variable {α : Type}

/-- A pattern: the repetitions are those of single characters. -/
inductive Rx (α : Type) where
  | char (p : α → Bool)
  | many (p : α → Bool)
  | reluctant (p : α → Bool)
  | seq (r t : Rx α)
  | alt (r t : Rx α)
  | group (k : ℕ) (r : Rx α)
  | ahead (r : Rx α)
  | test (look : List α → Bool)

/-- What a match takes, what it leaves and what its groups hold. -/
@[ext] structure Match (α : Type) where
  text : List α
  rest : List α
  groups : List (ℕ × List α)
  deriving DecidableEq

namespace Match

/-- A match behind a text already taken. -/
def behind (m : Match α) (text : List α) (groups : List (ℕ × List α)) : Match α :=
  ⟨text ++ m.text, m.rest, groups ++ m.groups⟩

@[simp] theorem behind_nil (m : Match α) : m.behind [] [] = m := rfl

end Match

/-- What repetitions of a character can take, the shortest text first. -/
def splits (p : α → Bool) : List α → List (Match α)
  | [] => [⟨[], [], []⟩]
  | c :: s => ⟨[], c :: s, []⟩ :: if p c then (splits p s).map (·.behind [c] []) else []

namespace Rx

/-- The matches at the start of a text, in the order of the search. -/
def run : Rx α → List α → List (Match α)
  | char _, [] => []
  | char p, c :: s => if p c then [⟨[c], s, []⟩] else []
  | many p, s => (splits p s).reverse
  | reluctant p, s => splits p s
  | seq r t, s => (r.run s).flatMap fun m => (t.run m.rest).map (·.behind m.text m.groups)
  | alt r t, s => r.run s ++ t.run s
  | group k r, s => (r.run s).map fun m => ⟨m.text, m.rest, (k, m.text) :: m.groups⟩
  | ahead r, s => if (r.run s).isEmpty then [] else [⟨[], s, []⟩]
  | test look, s => if look s then [⟨[], s, []⟩] else []

/-- The match that the matcher answers with. -/
def first (r : Rx α) (s : List α) : Option (Match α) := (r.run s).head?

variable {p : α → Bool} {r t : Rx α} {a b s : List α} {c : α} {m m' : Match α} {k : ℕ}

theorem run_char_cons : (char p).run (c :: s) = if p c then [⟨[c], s, []⟩] else [] := rfl

theorem run_reluctant : (reluctant p).run s = splits p s := rfl

theorem run_seq : (seq r t).run s =
    (r.run s).flatMap fun m => (t.run m.rest).map (·.behind m.text m.groups) := rfl

theorem splits_nil : splits p [] = [⟨[], [], []⟩] := rfl

theorem splits_cons : splits p (c :: s) =
    ⟨[], c :: s, []⟩ :: if p c then (splits p s).map (·.behind [c] []) else [] := rfl

theorem first_seq : (seq r t).first s =
    (r.run s).findSome? fun m => (t.first m.rest).map (·.behind m.text m.groups) := by
  rw [first, run_seq, List.head?_flatMap]
  simp only [List.head?_map, first]

theorem first_char_seq : (seq (char p) t).first (c :: s) =
    if p c then (t.first s).map (·.behind [c] []) else none := by
  rw [first_seq, run_char_cons]
  split
  · exact List.findSome?_singleton
  · rfl

theorem behind_behind (m : Match α) (c : α) {text : List α} {groups : List (ℕ × List α)} :
    (m.behind text groups).behind [c] [] = m.behind (c :: text) groups := rfl

/-- What is behind a repetition, after one character more. -/
theorem findSome?_map_behind (l : List (Match α)) :
    ((l.map (·.behind [c] [])).findSome? fun m => (t.first m.rest).map (·.behind m.text m.groups)) =
      (l.findSome? fun m => (t.first m.rest).map (·.behind m.text m.groups)).map (·.behind [c] []) := by
  rw [List.findSome?_map, List.map_findSome?]
  refine congrArg (fun f => List.findSome? f l) (funext fun m => ?_)
  simp only [Function.comp_apply, Option.map_map]
  rfl

@[simp] theorem first_reluctant_seq_nil : (seq (reluctant p) t).first [] = t.first [] := by
  rw [first_seq, run_reluctant, splits_nil, List.findSome?_singleton]
  exact Option.map_id'

theorem first_reluctant_seq_cons : (seq (reluctant p) t).first (c :: s) =
    (t.first (c :: s)).or (if p c then ((seq (reluctant p) t).first s).map (·.behind [c] []) else none) := by
  rw [first_seq, first_seq, run_reluctant, run_reluctant, splits_cons, List.findSome?_cons]
  have hhere : (t.first (c :: s)).map (·.behind [] []) = t.first (c :: s) := Option.map_id'
  dsimp only
  rw [hhere]
  have htail : (if p c then (splits p s).map (·.behind [c] []) else []).findSome?
      (fun m => (t.first m.rest).map (·.behind m.text m.groups)) = if p c then
        ((splits p s).findSome? fun m => (t.first m.rest).map (·.behind m.text m.groups)).map
          (·.behind [c] []) else none := by
    split
    · exact findSome?_map_behind _
    · rfl
  rw [htail]
  cases t.first (c :: s) <;> rfl

/-- **A reluctant repetition** stops where what is behind it matches first. -/
theorem first_reluctant_seq (ha : ∀ c ∈ a, p c) (hb : t.first b = some m)
    (hfail : ∀ x y, a = x ++ y → y ≠ [] → t.first (y ++ b) = none) :
    (seq (reluctant p) t).first (a ++ b) = some (m.behind a []) := by
  induction a with
  | nil =>
    cases b with
    | nil => rw [List.nil_append, first_reluctant_seq_nil, hb, Match.behind_nil]
    | cons c b => rw [List.nil_append, first_reluctant_seq_cons, hb, Option.some_or, Match.behind_nil]
  | cons c a ih =>
    have hhere : t.first (c :: (a ++ b)) = none := hfail [] (c :: a) rfl (List.cons_ne_nil c a)
    have htail := ih (fun c' hc' => ha c' (List.mem_cons_of_mem c hc')) fun x y hxy =>
      hfail (c :: x) y (by rw [hxy, List.cons_append])
    rw [List.cons_append, first_reluctant_seq_cons, hhere, Option.none_or, if_pos (ha c List.mem_cons_self),
      htail, Option.map_some, behind_behind]

/-- The matches in a text, each behind the one before, of a pattern that takes at least one character;
the first `n` characters belong to the match found last. -/
def findFrom (r : Rx α) : ℕ → List α → List (Match α)
  | _, [] => []
  | n + 1, _ :: s => r.findFrom n s
  | 0, c :: s =>
    match r.first (c :: s) with
    | some m => m :: r.findFrom (m.text.length - 1) s
    | none => r.findFrom 0 s

/-- All matches in a text. -/
def findAll (r : Rx α) (s : List α) : List (Match α) := r.findFrom 0 s

theorem findFrom_append : r.findFrom a.length (a ++ s) = r.findAll s := by
  induction a with
  | nil => rfl
  | cons c a ih => exact ih

theorem findAll_cons_of_eq_some (h : r.first (c :: (a ++ s)) = some m) (hm : m.text = c :: a) :
    r.findAll (c :: (a ++ s)) = m :: r.findAll s := by
  rw [findAll, findFrom, h]
  dsimp only
  rw [hm, List.length_cons, Nat.add_sub_cancel, findFrom_append]

theorem findAll_cons_of_eq_none (h : r.first (c :: s) = none) :
    r.findAll (c :: s) = r.findAll s := by
  rw [findAll, findFrom, h]
  rfl

end Rx

/-! ## Character classes -/

/-- The characters that end a line. -/
def isLineTerminator (c : Char) : Bool :=
  c == '\n' || c == '\r' || c == '\u0085' || c == '\u2028' || c == '\u2029'

/-- `.`. -/
def dot (c : Char) : Bool := !isLineTerminator c

/-- `\s`. -/
def isSpace (c : Char) : Bool :=
  c == ' ' || c == '\t' || c == '\n' || c == '\x0b' || c == '\x0c' || c == '\r'

/-- `$`: the end of the text, or of its last line. -/
def atEnd : List Char → Bool
  | [] => true
  | [c] => isLineTerminator c
  | [c, d] => c == '\r' && d == '\n'
  | _ => false

theorem isLineTerminator_of_atEnd {c : Char} {s : List Char} (h : atEnd (c :: s)) : isLineTerminator c := by
  cases s with
  | nil => exact h
  | cons d s =>
    cases s with
    | nil =>
      rw [atEnd, Bool.and_eq_true, beq_iff_eq] at h
      rw [h.1]
      rfl
    | cons _ _ => exact absurd h Bool.false_ne_true

end Regex
