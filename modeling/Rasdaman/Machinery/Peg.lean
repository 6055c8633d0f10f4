import Mathlib.Algebra.Order.Ring.Int

/-!
# Machinery/Peg — parsing expressions with a skipper and semantic actions

A parser consumes a prefix of its input or fails.  The actions attached to its parts run when the
part succeeds and are not undone when the parser backtracks: the parser returns the list of all
actions that ran, in order, whether it succeeds or not.  Every terminal first skips blanks.
-/

namespace Peg

/-- A parser with actions in `A` and an attribute in `α`. -/
structure Parser (A α : Type) where
  run : List Char → List A × Option (α × List Char)

/-! ## Terminals -/

/-- `ascii::space`. -/
def isSpace (c : Char) : Bool := c.toNat == 32 || (9 ≤ c.toNat && c.toNat ≤ 13)

/-- The skipper. -/
def skip (inp : List Char) : List Char := inp.dropWhile isSpace

/-- `inp` without a prefix. -/
def strip (pre inp : List Char) : Option (List Char) :=
  if pre.isPrefixOf inp then some (inp.drop pre.length) else none

variable {A α β : Type}

namespace Parser

/-- A literal. -/
def lit (s : String) : Parser A Unit where
  run inp := ([], (strip s.toList (skip inp)).map ((), ·))

/-- One character, without skipping. -/
def rawChar (p : Char → Bool) : Parser A Unit where
  run
    | c :: inp => ([], if p c then some ((), inp) else none)
    | [] => ([], none)

/-- One character. -/
def char (p : Char → Bool) : Parser A Unit where
  run inp := (rawChar p).run (skip inp)

/-- `lexeme[first >> *rest]`. -/
def token (first rest : Char → Bool) : Parser A (List Char) where
  run inp := ([], match skip inp with
    | c :: cs => if first c then some (c :: cs.takeWhile rest, cs.dropWhile rest) else none
    | [] => none)

/-- `no_skip[+char_]`: everything up to the end. -/
def remainder : Parser A (List Char) where
  run inp := ([], if inp.isEmpty then none else some (inp, []))

/-- The value of a sequence of decimal digits. -/
def decimal (ds : List Char) : ℕ := ds.foldl (fun n d => 10 * n + (d.toNat - 48)) 0

def isDigit (c : Char) : Bool := 48 ≤ c.toNat && c.toNat ≤ 57

/-- `uint_`: a number of `2^32` or more is no match. -/
def uint : Parser A ℕ where
  run inp :=
    let ds := (skip inp).takeWhile isDigit
    ([], if ds.isEmpty || 2 ^ 32 ≤ decimal ds then none
      else some (decimal ds, (skip inp).dropWhile isDigit))

/-- `int_`. -/
def int : Parser A ℤ where
  run inp :=
    let body := match skip inp with
      | '+' :: cs => (false, cs)
      | '-' :: cs => (true, cs)
      | cs => (false, cs)
    let ds := body.2.takeWhile isDigit
    let v : ℤ := if body.1 then -(decimal ds : ℤ) else decimal ds
    ([], if ds.isEmpty || v < -2 ^ 31 || 2 ^ 31 ≤ v then none
      else some (v, body.2.dropWhile isDigit))

/-! ## Operators -/

/-- `p >> q`, with the attribute of `q`. -/
def seq (p : Parser A α) (q : Parser A β) : Parser A β where
  run inp := match p.run inp with
    | (t, none) => (t, none)
    | (t, some (_, mid)) => (t ++ (q.run mid).1, (q.run mid).2)

instance : HAndThen (Parser A α) (Parser A β) (Parser A β) where
  hAndThen p q := seq p (q ())

/-- `p >> q`, with both attributes. -/
def pair (p : Parser A α) (q : Parser A β) : Parser A (α × β) where
  run inp := match p.run inp with
    | (t, none) => (t, none)
    | (t, some (a, mid)) => (t ++ (q.run mid).1, (q.run mid).2.map fun r => ((a, r.1), r.2))

/-- `p | q`. -/
def alt (p q : Parser A α) : Parser A α where
  run inp := match p.run inp with
    | (t, some r) => (t, some r)
    | (t, none) => (t ++ (q.run inp).1, (q.run inp).2)

instance : HOrElse (Parser A α) (Parser A α) (Parser A α) where
  hOrElse p q := alt p (q ())

/-- `-p`. -/
def opt (p : Parser A α) : Parser A Unit where
  run inp := ((p.run inp).1, some ((), match (p.run inp).2 with
    | some (_, rest) => rest
    | none => inp))

/-- The iterations of `*p`, at most `fuel` of them. -/
def starLoop (p : Parser A α) : ℕ → List Char → List A × List Char
  | 0, inp => ([], inp)
  | fuel + 1, inp => match p.run inp with
    | (t, none) => (t, inp)
    | (t, some (_, rest)) => (t ++ (starLoop p fuel rest).1, (starLoop p fuel rest).2)

/-- `*p`, for a `p` that never matches the empty text. -/
def star (p : Parser A α) : Parser A Unit where
  run inp := ((starLoop p (inp.length + 1) inp).1, some ((), (starLoop p (inp.length + 1) inp).2))

/-- One pass of a permutation: every parser not taken yet is tried in order.  Returns the actions,
the parsers still not taken and the rest of the input. -/
def permutationPass : List (Parser A α) → List Char → List A × List (Parser A α) × List Char
  | [], inp => ([], [], inp)
  | p :: ps, inp => match p.run inp with
    | (t, some (_, rest)) =>
      let r := permutationPass ps rest
      (t ++ r.1, r.2.1, r.2.2)
    | (t, none) =>
      let r := permutationPass ps inp
      (t ++ r.1, p :: r.2.1, r.2.2)

/-- Passes until one takes no parser. -/
def permutationLoop : ℕ → List (Parser A α) → List Char → List A × List Char
  | 0, _, inp => ([], inp)
  | fuel + 1, ps, inp =>
    let r := permutationPass ps inp
    if r.2.1.length < ps.length then
      let s := permutationLoop fuel r.2.1 r.2.2
      (r.1 ++ s.1, s.2)
    else (r.1, inp)

/-- `p₁ ^ … ^ pₙ`: each at most once, in any order, and at least one of them. -/
def permutation (ps : List (Parser A α)) : Parser A Unit where
  run inp :=
    let r := permutationLoop (ps.length + 1) ps inp
    (r.1, if (permutationPass ps inp).2.1.length < ps.length then some ((), r.2) else none)

/-- `p[f]`: the action runs when `p` succeeds. -/
def act (p : Parser A α) (f : α → A) : Parser A Unit where
  run inp := match p.run inp with
    | (t, some (a, rest)) => (t ++ [f a], some ((), rest))
    | (t, none) => (t, none)

/-- `p[_pass = f]`: `p` fails when `f` refuses its attribute. -/
def actPass (p : Parser A α) (f : α → Option A) : Parser A Unit where
  run inp := match p.run inp with
    | (t, some (a, rest)) => match f a with
      | some x => (t ++ [x], some ((), rest))
      | none => (t, none)
    | (t, none) => (t, none)

/-- Forget the attribute. -/
def void (p : Parser A α) : Parser A Unit where
  run inp := ((p.run inp).1, (p.run inp).2.map fun r => ((), r.2))

/-- `lexeme[p]`, for a `p` whose terminals do not skip. -/
def lexeme (p : Parser A α) : Parser A α where
  run inp := p.run (skip inp)

/-- `phrase_parse`: blanks after the match are skipped too. -/
def phraseParse (p : Parser A α) (inp : List Char) : List A × Option (List Char) :=
  ((p.run inp).1, (p.run inp).2.map fun r => skip r.2)

/-! ## What a parser emits -/

variable {P B : A → Prop} {p : Parser A α} {q : Parser A β} {p' : Parser A α} {inp : List Char}
  {a : A}

theorem seq_run (p : Parser A α) (q : Parser A β) (inp : List Char) :
    (p >> q).run inp = match p.run inp with
      | (t, none) => (t, none)
      | (t, some (_, mid)) => (t ++ (q.run mid).1, (q.run mid).2) := rfl

theorem alt_run (p p' : Parser A α) (inp : List Char) :
    (p <|> p').run inp = match p.run inp with
      | (t, some r) => (t, some r)
      | (t, none) => (t ++ (p'.run inp).1, (p'.run inp).2) := rfl

/-- All actions of a parser, run on backtracked branches or not, satisfy `P`. -/
structure Emits (P : A → Prop) (p : Parser A α) : Prop where
  all : ∀ inp, ∀ a ∈ (p.run inp).1, P a

theorem Emits.mono {Q : A → Prop} (h : Emits P p) (hPQ : ∀ a, P a → Q a) : Emits Q p :=
  ⟨fun inp a ha => hPQ a (h.all inp a ha)⟩

theorem emits_of_run_fst (h : ∀ inp, (p.run inp).1 = []) : Emits P p where
  all inp a ha := by
    rw [h inp] at ha
    exact absurd ha List.not_mem_nil

@[simp] theorem emits_lit (s : String) : Emits P (lit s) := emits_of_run_fst fun _ => rfl

@[simp] theorem emits_rawChar (c : Char → Bool) : Emits P (rawChar c) :=
  emits_of_run_fst fun inp => by cases inp <;> rfl

@[simp] theorem emits_char (c : Char → Bool) : Emits P (char c) :=
  ⟨fun inp => (emits_rawChar c).all (skip inp)⟩

@[simp] theorem emits_token (c d : Char → Bool) : Emits P (token c d) :=
  emits_of_run_fst fun _ => rfl

@[simp] theorem emits_remainder : Emits P (remainder : Parser A (List Char)) :=
  emits_of_run_fst fun _ => rfl

@[simp] theorem emits_uint : Emits P (uint : Parser A ℕ) := emits_of_run_fst fun _ => rfl

@[simp] theorem emits_int : Emits P (int : Parser A ℤ) := emits_of_run_fst fun _ => rfl

theorem Emits.seq (hp : Emits P p) (hq : Emits P q) : Emits P (p >> q) := by
  refine ⟨fun inp a ha => ?_⟩
  have hp := hp.all inp
  rw [seq_run] at ha
  rcases hrun : p.run inp with ⟨t, _ | ⟨x, mid⟩⟩ <;> rw [hrun] at ha hp
  · exact hp a ha
  · exact (List.mem_append.mp ha).elim (hp a) (hq.all mid a)

theorem Emits.pair (hp : Emits P p) (hq : Emits P q) : Emits P (pair p q) := by
  refine ⟨fun inp a ha => ?_⟩
  have hp := hp.all inp
  rw [Parser.pair] at ha
  rcases hrun : p.run inp with ⟨t, _ | ⟨x, mid⟩⟩ <;> rw [hrun] at hp <;> simp only [hrun] at ha
  · exact hp a ha
  · exact (List.mem_append.mp ha).elim (hp a) (hq.all mid a)

theorem Emits.alt (hp : Emits P p) (hp' : Emits P p') : Emits P (p <|> p') := by
  refine ⟨fun inp a ha => ?_⟩
  have hp := hp.all inp
  rw [alt_run] at ha
  rcases hrun : p.run inp with ⟨t, _ | r⟩ <;> rw [hrun] at ha hp
  · exact (List.mem_append.mp ha).elim (hp a) (hp'.all inp a)
  · exact hp a ha

theorem Emits.opt (hp : Emits P p) : Emits P (opt p) := ⟨hp.all⟩

theorem Emits.void (hp : Emits P p) : Emits P (void p) := ⟨hp.all⟩

theorem Emits.lexeme (hp : Emits P p) : Emits P (lexeme p) := ⟨fun inp => hp.all (skip inp)⟩

theorem Emits.act {f : α → A} (hp : Emits P p) (hf : ∀ x, P (f x)) : Emits P (act p f) := by
  refine ⟨fun inp a ha => ?_⟩
  have hp := hp.all inp
  rw [Parser.act] at ha
  rcases hrun : p.run inp with ⟨t, _ | ⟨x, rest⟩⟩ <;> rw [hrun] at hp <;> simp only [hrun] at ha
  · exact hp a ha
  · rcases List.mem_append.mp ha with ha | ha
    · exact hp a ha
    · rw [List.mem_singleton.mp ha]
      exact hf x

theorem Emits.actPass {f : α → Option A} (hp : Emits P p) (hf : ∀ x y, f x = some y → P y) :
    Emits P (actPass p f) := by
  refine ⟨fun inp a ha => ?_⟩
  have hp := hp.all inp
  rw [Parser.actPass] at ha
  rcases hrun : p.run inp with ⟨t, _ | ⟨x, rest⟩⟩ <;> rw [hrun] at hp <;> simp only [hrun] at ha
  · exact hp a ha
  · rcases hfx : f x with _ | y <;> simp only [hfx] at ha
    · exact hp a ha
    · rcases List.mem_append.mp ha with ha | ha
      · exact hp a ha
      · rw [List.mem_singleton.mp ha]
        exact hf x y hfx

theorem emits_starLoop (hp : Emits P p) (fuel : ℕ) (inp : List Char) :
    ∀ a ∈ (starLoop p fuel inp).1, P a := by
  induction fuel generalizing inp with
  | zero => exact fun a ha => absurd ha List.not_mem_nil
  | succ fuel ih =>
    intro a ha
    have hp := hp.all inp
    rw [starLoop] at ha
    rcases hrun : p.run inp with ⟨t, _ | ⟨x, rest⟩⟩ <;> rw [hrun] at ha hp
    · exact hp a ha
    · exact (List.mem_append.mp ha).elim (hp a) (ih rest a)

theorem Emits.star (hp : Emits P p) : Emits P (star p) :=
  ⟨fun _ => emits_starLoop hp _ _⟩

theorem emits_permutationPass {ps : List (Parser A α)} (hps : ∀ p ∈ ps, Emits P p)
    (inp : List Char) :
    (∀ a ∈ (permutationPass ps inp).1, P a) ∧ (permutationPass ps inp).2.1 ⊆ ps := by
  induction ps generalizing inp with
  | nil => exact ⟨fun a ha => absurd ha List.not_mem_nil, List.Subset.refl _⟩
  | cons p ps ih =>
    obtain ⟨hp, hps⟩ := List.forall_mem_cons.mp hps
    have hp := hp.all inp
    rw [permutationPass]
    rcases hrun : p.run inp with ⟨t, _ | ⟨x, rest⟩⟩ <;> rw [hrun] at hp
    · obtain ⟨hemit, hsub⟩ := ih hps inp
      exact ⟨fun a ha => (List.mem_append.mp ha).elim (hp a) (hemit a),
        List.cons_subset_cons p hsub⟩
    · obtain ⟨hemit, hsub⟩ := ih hps rest
      exact ⟨fun a ha => (List.mem_append.mp ha).elim (hp a) (hemit a),
        List.subset_cons_of_subset p hsub⟩

theorem emits_permutationLoop (fuel : ℕ) {ps : List (Parser A α)} (hps : ∀ p ∈ ps, Emits P p)
    (inp : List Char) : ∀ a ∈ (permutationLoop fuel ps inp).1, P a := by
  induction fuel generalizing ps inp with
  | zero => exact fun a ha => absurd ha List.not_mem_nil
  | succ fuel ih =>
    obtain ⟨hemit, hsub⟩ := emits_permutationPass hps inp
    intro a ha
    rw [permutationLoop] at ha
    split at ha
    · exact (List.mem_append.mp ha).elim (hemit a)
        (ih (fun p hp => hps p (hsub hp)) _ a)
    · exact hemit a ha

/-- All parsers of a list emit only actions that satisfy `P`. -/
inductive EmitsAll (P : A → Prop) : List (Parser A α) → Prop
  | nil : EmitsAll P []
  | cons {p : Parser A α} {ps : List (Parser A α)} (hp : Emits P p) (hps : EmitsAll P ps) :
    EmitsAll P (p :: ps)

theorem Emits.permutation {ps : List (Parser A α)} (hps : EmitsAll P ps) :
    Emits P (permutation ps) := by
  refine ⟨fun inp => emits_permutationLoop _ ?_ inp⟩
  induction hps with
  | nil => exact fun p hp => absurd hp List.not_mem_nil
  | cons hp _ ih => exact List.forall_mem_cons.mpr ⟨hp, ih⟩

/-! ## Actions that tell success -/

/-- Exactly when the parser succeeds, an action in `B` is run. -/
def Decisive (B : A → Prop) (p : Parser A α) : Prop :=
  ∀ inp, (∃ a ∈ (p.run inp).1, B a) ↔ (p.run inp).2.isSome = true

theorem decisive_act {f : α → A} (hp : Emits (fun a => ¬B a) p) (hf : ∀ x, B (f x)) :
    Decisive B (act p f) := by
  intro inp
  have hp := hp.all inp
  rw [act]
  rcases hrun : p.run inp with ⟨t, _ | ⟨x, rest⟩⟩ <;> rw [hrun] at hp <;> simp only [hrun]
  · exact iff_of_false (fun ⟨a, ha, hB⟩ => hp a ha hB) (by simp)
  · exact iff_of_true ⟨f x, by simp, hf x⟩ rfl

theorem Decisive.seq (hp : Emits (fun a => ¬B a) p) (hq : Decisive B q) :
    Decisive B (p >> q) := by
  intro inp
  have hp := hp.all inp
  rw [seq_run]
  rcases hrun : p.run inp with ⟨t, _ | ⟨x, mid⟩⟩ <;> rw [hrun] at hp
  · exact iff_of_false (fun ⟨a, ha, hB⟩ => hp a ha hB) (by simp)
  · rw [← hq mid]
    constructor
    · rintro ⟨a, ha, hB⟩
      exact ⟨a, (List.mem_append.mp ha).resolve_left fun h => hp a h hB, hB⟩
    · rintro ⟨a, ha, hB⟩
      exact ⟨a, List.mem_append_right _ ha, hB⟩

theorem Decisive.alt (hp : Decisive B p) (hp' : Decisive B p') : Decisive B (p <|> p') := by
  intro inp
  have hp := hp inp
  rw [alt_run]
  rcases hrun : p.run inp with ⟨t, _ | r⟩ <;> rw [hrun] at hp
  · rw [← hp' inp]
    constructor
    · rintro ⟨a, ha, hB⟩
      refine ⟨a, (List.mem_append.mp ha).resolve_left fun h => ?_, hB⟩
      exact absurd (hp.mp ⟨a, h, hB⟩) (by simp)
    · rintro ⟨a, ha, hB⟩
      exact ⟨a, List.mem_append_right _ ha, hB⟩
  · exact hp

theorem mem_run_alt (h : a ∈ ((p <|> p').run inp).1) : a ∈ (p.run inp).1 ∨ a ∈ (p'.run inp).1 := by
  rw [alt_run] at h
  rcases hrun : p.run inp with ⟨t, _ | r⟩ <;> rw [hrun] at h
  · exact List.mem_append.mp h
  · exact .inl h

/-! ## The rest of the input -/

theorem length_skip_le (inp : List Char) : (skip inp).length ≤ inp.length :=
  (List.dropWhile_suffix _).length_le

theorem char_any_run (inp : List Char) : (char fun _ => true : Parser A Unit).run inp
    = ([], match skip inp with
      | _ :: cs => some ((), cs)
      | [] => none) := by
  change (rawChar fun _ => true).run (skip inp) = _
  rcases skip inp with _ | ⟨c, cs⟩ <;> rfl

/-- Any characters: everything up to blanks at the end is consumed. -/
theorem skip_starLoop_any (fuel : ℕ) {inp : List Char} (h : inp.length < fuel) :
    skip (starLoop (char fun _ => true : Parser A Unit) fuel inp).2 = [] := by
  induction fuel generalizing inp with
  | zero => cases h
  | succ fuel ih =>
    rw [starLoop, char_any_run]
    rcases hskip : skip inp with _ | ⟨c, cs⟩
    · exact hskip
    · have hlen := length_skip_le inp
      rw [hskip, List.length_cons] at hlen
      exact ih (by omega)

theorem star_any_run (inp : List Char) : ∃ rest,
    ((star (char fun _ => true) : Parser A Unit).run inp).2 = some ((), rest) ∧ skip rest = [] :=
  ⟨_, rfl, skip_starLoop_any _ (Nat.lt_succ_self _)⟩

/-! ## Rearranging -/

theorem ext_run {p p' : Parser A α} (h : ∀ inp, p.run inp = p'.run inp) : p = p' := by
  cases p
  cases p'
  exact congrArg Parser.mk (funext h)

theorem andThen_assoc {γ : Type} (p : Parser A α) (q : Parser A β) (r : Parser A γ) :
    (p >> q) >> r = p >> q >> r := by
  refine ext_run fun inp => ?_
  simp only [seq_run]
  rcases p.run inp with ⟨t, _ | ⟨x, mid⟩⟩
  · rfl
  · rcases hq : q.run mid with ⟨t', _ | ⟨y, rest⟩⟩ <;> simp [hq]

/-- An action on the last part is an action on the whole. -/
theorem andThen_act (p : Parser A α) (q : Parser A β) (f : β → A) :
    p >> act q f = act (p >> q) f := by
  refine ext_run fun inp => ?_
  simp only [act, seq_run]
  rcases p.run inp with ⟨t, _ | ⟨x, mid⟩⟩
  · rfl
  · rcases hq : q.run mid with ⟨t', _ | ⟨y, rest⟩⟩ <;> simp [hq]

/-- A chain of alternatives. -/
def choice : List (Parser A α) → Parser A α
  | [] => ⟨fun _ => ([], none)⟩
  | [p] => p
  | p :: ps => p <|> choice ps

theorem mem_run_choice : ∀ {ps : List (Parser A α)}, a ∈ ((choice ps).run inp).1 →
    ∃ p ∈ ps, a ∈ (p.run inp).1
  | [], h => absurd h List.not_mem_nil
  | [p], h => ⟨p, List.mem_singleton_self p, h⟩
  | p :: q :: ps, h => by
    rcases mem_run_alt h with h | h
    · exact ⟨p, List.mem_cons_self, h⟩
    · obtain ⟨p', hp', ha⟩ := mem_run_choice h
      exact ⟨p', List.mem_cons_of_mem _ hp', ha⟩

theorem choice_run_snd (p : Parser A α) (ps : List (Parser A α)) (inp : List Char) :
    ((choice (p :: ps)).run inp).2 = ((p.run inp).2 <|> ((choice ps).run inp).2) := by
  cases ps with
  | nil => rcases hrun : (p.run inp).2 with _ | r <;> simp [choice, hrun]
  | cons q ps =>
    change ((p <|> choice (q :: ps)).run inp).2 = _
    rw [alt_run]
    rcases p.run inp with ⟨t, _ | r⟩ <;> rfl

theorem decisive_choice : ∀ {ps : List (Parser A α)}, (∀ p ∈ ps, Decisive B p) →
    Decisive B (choice ps)
  | [], _ => fun _ => iff_of_false (fun ⟨_, ha, _⟩ => absurd ha List.not_mem_nil) (by simp [choice])
  | [_], h => h _ (List.mem_singleton_self _)
  | _ :: _ :: _, h =>
    .alt (h _ List.mem_cons_self) (decisive_choice fun p hp => h p (List.mem_cons_of_mem _ hp))

/-! ## Literals -/

theorem strip_eq_some {pre inp rest : List Char} : strip pre inp = some rest ↔ inp = pre ++ rest := by
  rw [strip]
  constructor
  · intro h
    split at h
    case isTrue hpre =>
      obtain ⟨s, rfl⟩ := List.isPrefixOf_iff_prefix.mp hpre
      rw [List.drop_left] at h
      rw [Option.some.inj h]
    case isFalse => cases h
  · rintro rfl
    rw [if_pos (List.isPrefixOf_iff_prefix.mpr (List.prefix_append _ _)), List.drop_left]

/-- What a sequence that starts with a literal emits, it emits after the literal. -/
theorem mem_run_lit_seq {s : String} (h : a ∈ (((lit s : Parser A Unit) >> q).run inp).1) :
    ∃ rest, skip inp = s.toList ++ rest ∧ a ∈ (q.run rest).1 := by
  rw [seq_run] at h
  rcases hs : strip s.toList (skip inp) with _ | rest <;> simp only [lit, hs, Option.map] at h
  · exact absurd h List.not_mem_nil
  · exact ⟨rest, strip_eq_some.mp hs, h⟩

/-- After blanks the input starts with a literal. -/
def Starts (s : String) (inp : List Char) : Prop := ∃ rest, skip inp = s.toList ++ rest

theorem starts_iff {s : String} : Starts s inp ↔ ((lit s : Parser A Unit).run inp).2.isSome = true := by
  rw [Starts, lit]
  simp only [Option.isSome_map, Option.isSome_iff_exists, strip_eq_some]

/-- Of two literals at the same place one continues the other. -/
theorem Starts.prefix_or {s s' : String} (h : Starts s inp) (h' : Starts s' inp) :
    s.toList <+: s'.toList ∨ s'.toList <+: s.toList := by
  obtain ⟨rest, hrest⟩ := h
  obtain ⟨rest', hrest'⟩ := h'
  refine List.prefix_or_prefix_of_prefix (?_ : _ <+: skip inp) ?_
  · exact hrest ▸ List.prefix_append _ _
  · exact hrest' ▸ List.prefix_append _ _

/-- A parser that does nothing unless the input starts with a literal. -/
def Led (s : String) (p : Parser A α) : Prop := ∀ inp, ¬Starts s inp → p.run inp = ([], none)

theorem led_lit (s : String) : Led s (lit s : Parser A Unit) := fun inp h => by
  rw [starts_iff (A := A), Option.not_isSome_iff_eq_none] at h
  exact Prod.ext rfl h

theorem Led.seq {s : String} (h : Led s p) : Led s (p >> q) := fun inp hs => by
  rw [seq_run, h inp hs]

theorem Led.act {s : String} {f : α → A} (h : Led s p) : Led s (act p f) := fun inp hs => by
  rw [Parser.act]
  simp only [h inp hs]

theorem Led.starts {s : String} (h : Led s p) (ha : a ∈ (p.run inp).1) : Starts s inp := by
  by_contra hs
  rw [h inp hs] at ha
  exact absurd ha List.not_mem_nil

end Parser

end Peg

/-!
## Parsers with different actions that match the same texts

`Alike p p'`: wherever one matches, so does the other, with the same attribute and the same rest.  The
operators keep this, so that a grammar can be given other actions without a change of what it matches.
-/

open Peg.Parser

namespace Peg

variable {A B α β : Type}

/-- The parser without its actions. -/
def Parser.silent (p : Parser A α) : Parser B α where
  run inp := ([], (p.run inp).2)

/-- Two parsers match the same texts. -/
def Alike (p : Parser A α) (p' : Parser B α) : Prop := ∀ inp, (p.run inp).2 = (p'.run inp).2

/-- Two lists of parsers match the same texts, one by one. -/
inductive AllAlike : List (Parser A α) → List (Parser B α) → Prop
  | nil : AllAlike [] []
  | cons {p : Parser A α} {p' : Parser B α} {ps : List (Parser A α)} {ps' : List (Parser B α)}
      (h : Alike p p') (hs : AllAlike ps ps') : AllAlike (p :: ps) (p' :: ps')

variable {p : Parser A α} {p' : Parser B α} {q : Parser A β} {q' : Parser B β} {r : Parser A α}
  {r' : Parser B α} {ps : List (Parser A α)} {ps' : List (Parser B α)}

theorem alike_silent (p : Parser A α) : Alike p (silent p : Parser B α) := fun _ => rfl

theorem alike_lit (s : String) : Alike (lit s : Parser A Unit) (lit s : Parser B Unit) := fun _ => rfl

theorem alike_uint : Alike (uint : Parser A ℕ) (uint : Parser B ℕ) := fun _ => rfl

/-- Both fail, or both match in the same way. -/
theorem Alike.runs (h : Alike p p') (inp : List Char) :
    (∃ t t', p.run inp = (t, none) ∧ p'.run inp = (t', none)) ∨
      ∃ t t' x mid, p.run inp = (t, some (x, mid)) ∧ p'.run inp = (t', some (x, mid)) := by
  have hrun := h inp
  cases hmatch : (p.run inp).2 with
  | none => exact .inl ⟨_, _, Prod.ext rfl hmatch, Prod.ext rfl (hrun.symm.trans hmatch)⟩
  | some m => exact .inr ⟨_, _, m.1, m.2, Prod.ext rfl hmatch, Prod.ext rfl (hrun.symm.trans hmatch)⟩

theorem Alike.seq (hp : Alike p p') (hq : Alike q q') : Alike (p >> q) (p' >> q') := by
  intro inp
  rw [seq_run, seq_run]
  obtain ⟨t, t', h, h'⟩ | ⟨t, t', x, mid, h, h'⟩ := hp.runs inp
  · rw [h, h']
  · rw [h, h']
    exact hq mid

theorem Alike.pair (hp : Alike p p') (hq : Alike q q') : Alike (pair p q) (pair p' q') := by
  intro inp
  rw [Parser.pair, Parser.pair]
  obtain ⟨t, t', h, h'⟩ | ⟨t, t', x, mid, h, h'⟩ := hp.runs inp
  · simp only [h, h']
  · simp only [h, h', hq mid]

theorem Alike.alt (hp : Alike p p') (hr : Alike r r') : Alike (p <|> r) (p' <|> r') := by
  intro inp
  rw [alt_run, alt_run]
  obtain ⟨t, t', h, h'⟩ | ⟨t, t', x, mid, h, h'⟩ := hp.runs inp
  · rw [h, h']
    exact hr inp
  · rw [h, h']

theorem Alike.opt (hp : Alike p p') : Alike (opt p) (opt p') := by
  intro inp
  simp only [Parser.opt, hp inp]

/-- An action does not change what is matched. -/
theorem Alike.act {f : α → A} (hp : Alike p p') : Alike (act p f) (void p') := by
  intro inp
  rw [Parser.act, Parser.void]
  obtain ⟨t, t', h, h'⟩ | ⟨t, t', x, mid, h, h'⟩ := hp.runs inp <;> simp only [h, h'] <;> rfl

theorem Alike.actPass {f : α → Option A} {f' : α → Option B} (hp : Alike p p')
    (hf : ∀ x, (f x).isSome = (f' x).isSome) : Alike (actPass p f) (actPass p' f') := by
  intro inp
  rw [Parser.actPass, Parser.actPass]
  obtain ⟨t, t', h, h'⟩ | ⟨t, t', x, mid, h, h'⟩ := hp.runs inp
  · simp only [h, h']
  · have hx := hf x
    simp only [h, h']
    cases hfx : f x with
    | none =>
      rw [hfx, Option.isSome_none, eq_comm, Option.isSome_eq_false_iff, Option.isNone_iff_eq_none] at hx
      rw [hx]
    | some y =>
      rw [hfx, Option.isSome_some, eq_comm, Option.isSome_iff_exists] at hx
      obtain ⟨y', hy'⟩ := hx
      rw [hy']

theorem alike_starLoop (hp : Alike p p') (fuel : ℕ) (inp : List Char) :
    (starLoop p fuel inp).2 = (starLoop p' fuel inp).2 := by
  induction fuel generalizing inp with
  | zero => rfl
  | succ fuel ih =>
    rw [starLoop, starLoop]
    obtain ⟨t, t', h, h'⟩ | ⟨t, t', x, mid, h, h'⟩ := hp.runs inp
    · rw [h, h']
    · rw [h, h']
      exact ih mid

theorem Alike.star (hp : Alike p p') : Alike (star p) (star p') := by
  intro inp
  simp only [Parser.star, alike_starLoop hp]

theorem AllAlike.length_eq (h : AllAlike ps ps') : ps.length = ps'.length := by
  induction h with
  | nil => rfl
  | cons _ _ ih => rw [List.length_cons, List.length_cons, ih]

theorem AllAlike.permutationPass (h : AllAlike ps ps') (inp : List Char) :
    AllAlike (permutationPass ps inp).2.1 (permutationPass ps' inp).2.1 ∧
      (permutationPass ps inp).2.2 = (permutationPass ps' inp).2.2 := by
  induction h generalizing inp with
  | nil => exact ⟨.nil, rfl⟩
  | @cons p p' ps ps' hp _ ih =>
    rw [Parser.permutationPass, Parser.permutationPass]
    obtain ⟨t, t', h, h'⟩ | ⟨t, t', x, mid, h, h'⟩ := hp.runs inp
    · rw [h, h']
      exact ⟨.cons hp (ih inp).1, (ih inp).2⟩
    · rw [h, h']
      exact ih mid

theorem AllAlike.permutationLoop (fuel : ℕ) (h : AllAlike ps ps') (inp : List Char) :
    (permutationLoop fuel ps inp).2 = (permutationLoop fuel ps' inp).2 := by
  induction fuel generalizing ps ps' inp with
  | zero => rfl
  | succ fuel ih =>
    obtain ⟨hleft, hrest⟩ := h.permutationPass inp
    rw [Parser.permutationLoop, Parser.permutationLoop]
    simp only [hleft.length_eq, h.length_eq]
    split
    · simp only [hrest]
      exact ih hleft _
    · rfl

theorem AllAlike.permutation (h : AllAlike ps ps') : Alike (permutation ps) (permutation ps') := by
  intro inp
  obtain ⟨hleft, -⟩ := h.permutationPass inp
  simp only [Parser.permutation, hleft.length_eq, h.length_eq, h.permutationLoop]

theorem Alike.phraseParse (h : Alike p p') (inp : List Char) :
    (phraseParse p inp).2 = (phraseParse p' inp).2 := by
  simp only [Parser.phraseParse, h inp]

end Peg
