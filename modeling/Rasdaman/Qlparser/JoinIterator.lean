import Mathlib

/-!
# Qlparser/JoinIterator — the join of input streams

`QtJoinIterator` keeps one element of each input in a tuple and goes on like an odometer, the first input
running fastest.  `join_enumerates`: it returns every combination once, then a null pointer, and the same
again after `reset`.
-/

namespace Rasdaman

/-! ## The iterator -/

/-- An input: its elements, and those that `next` has not returned since it was opened or reset. -/
structure QtONCStream (α : Type) where
  elements : List α
  rest : List α

namespace QtONCStream

variable {α : Type}

/-- `open` and `reset`. -/
def reset (s : QtONCStream α) : QtONCStream α := { s with rest := s.elements }

/-- `next`: nothing at the end. -/
def next (s : QtONCStream α) : Option α × QtONCStream α := (s.rest.head?, { s with rest := s.rest.tail })

end QtONCStream

/-- `QtJoinIterator`; `actualTupel` is allocated by `open`. -/
structure QtJoinIterator (α : Type) where
  inputs : List (QtONCStream α)
  outputStreamIsEmpty : Bool
  actualTupel : Option (List (Option α))

/-- Where the inner loop of `next` ends. -/
structure NextTupel (α : Type) where
  nextTupelAvailable : Bool
  outputStreamIsEmpty : Bool
  inputs : List (QtONCStream α)
  actualTupel : List (Option α)

namespace QtJoinIterator

variable {α : Type}

/-- The loop of `open` and `reset` that takes the first elements of all inputs but the first one; the
element of the first one is taken by `next`. -/
def firstTupel : List (QtONCStream α) → List (QtONCStream α) × List (Option α)
  | [] => ([], [])
  | s :: others => (s :: others.map fun s => s.next.2, none :: others.map fun s => s.next.1)

/-- `open`. -/
def «open» (j : QtJoinIterator α) : QtJoinIterator α :=
  let first := firstTupel (j.inputs.map QtONCStream.reset)
  { inputs := first.1
    outputStreamIsEmpty := first.2.tail.any Option.isNone
    actualTupel := some first.2 }

/-- The inner loop of `next`: go on in the first input that has another element, and start those before it
again.  `first` says whether the loop is at the first input. -/
def nextTupel (first outputStreamIsEmpty : Bool) : List (QtONCStream α) → List (Option α) → NextTupel α
  | s :: inputs, a :: tupel =>
    match s.next with
    | (some x, s') => ⟨true, outputStreamIsEmpty, s' :: inputs, some x :: tupel⟩
    | (none, s') =>
      -- an empty first input is only noticed here
      let again := s'.reset.next
      let after := nextTupel false (outputStreamIsEmpty || (first && a.isNone)) inputs tupel
      { after with inputs := again.2 :: after.inputs, actualTupel := again.1 :: after.actualTupel }
  | inputs, tupel => ⟨false, outputStreamIsEmpty, inputs, tupel⟩

/-- The copy that is returned: none if an element is missing. -/
def copyTupel (tupel : List (Option α)) : Option (List α) := tupel.mapM id

/-- `next`.  The outer loop ends after its first round, in which a tuple becomes available or none is. -/
def next (j : QtJoinIterator α) : Option (List α) × QtJoinIterator α :=
  match j.actualTupel with
  | none => (none, j)
  | some tupel =>
    if j.outputStreamIsEmpty then (none, j)
    else
      let after := nextTupel true false j.inputs tupel
      (if after.nextTupelAvailable then copyTupel after.actualTupel else none,
        ⟨after.inputs, after.outputStreamIsEmpty, some after.actualTupel⟩)

/-- `reset`, of an iterator that is open. -/
def reset (j : QtJoinIterator α) : QtJoinIterator α :=
  let first := firstTupel (j.inputs.map QtONCStream.reset)
  { j with
    inputs := first.1
    actualTupel := j.actualTupel.map fun _ => first.2 }

/-- What so many calls of `next` return, and the iterator after them. -/
def calls : ℕ → QtJoinIterator α → List (Option (List α)) × QtJoinIterator α
  | 0, j => ([], j)
  | n + 1, j =>
    let after := calls n j.next.2
    (j.next.1 :: after.1, after.2)

/-- An iterator over inputs, before `open`. -/
def new (inputs : List (List α)) : QtJoinIterator α := ⟨inputs.map fun xs => ⟨xs, []⟩, false, none⟩

end QtJoinIterator

/-! ## Combinations -/

section Sections

variable {α : Type} {xss : List (List α)}

/-- No combination comes twice. -/
theorem nodup_sections (h : ∀ xs ∈ xss, xs.Nodup) : xss.sections.Nodup := by
  induction xss with
  | nil => exact List.nodup_singleton _
  | cons xs xss ih =>
    obtain ⟨hxs, hxss⟩ := List.forall_mem_cons.mp h
    rw [List.sections, List.nodup_flatMap]
    refine ⟨fun tupel _ => hxs.map fun x y hxy => (List.cons.inj hxy).1, (ih hxss).imp ?_⟩
    intro v w hne
    rw [Function.onFun, List.disjoint_left]
    rintro u hu hu'
    obtain ⟨x, -, rfl⟩ := List.mem_map.mp hu
    obtain ⟨y, -, hy⟩ := List.mem_map.mp hu'
    exact hne (List.cons.inj hy).2.symm

/-- There is no combination when a list is empty. -/
theorem sections_eq_nil (h : [] ∈ xss) : xss.sections = [] := by
  induction xss with
  | nil => exact absurd h List.not_mem_nil
  | cons xs xss ih =>
    rw [List.sections]
    rcases List.mem_cons.mp h with rfl | h
    · exact List.flatMap_eq_nil_iff.mpr fun tupel _ => rfl
    · rw [ih h, List.flatMap_nil]

end Sections

namespace QtJoinIterator

variable {α : Type} {inputs : List (QtONCStream α)} {xss : List (List α)} {tupel : List (Option α)}

/-- The tuples that come after the actual one. -/
def remaining : List (QtONCStream α) → (tupel : List (Option α)) → List (List (Option α))
  | s :: inputs, _ :: tupel =>
    s.rest.map (fun x => some x :: tupel) ++
      (remaining inputs tupel).flatMap fun tupel => s.elements.map fun x => some x :: tupel
  | _, _ => []

/-- Only the first input makes the output empty. -/
theorem nextTupel_notFirst (e : Bool) (inputs : List (QtONCStream α)) (tupel : List (Option α)) :
    (nextTupel false e inputs tupel).outputStreamIsEmpty = e := by
  induction inputs generalizing tupel with
  | nil => cases tupel <;> rfl
  | cons s inputs ih =>
    cases tupel with
    | nil => rfl
    | cons a tupel =>
      obtain ⟨elements, rest⟩ := s
      cases rest with
      | nil =>
        rw [nextTupel, Bool.false_and, Bool.or_false]
        exact ih tupel
      | cons x rest => rfl

/-- The inner loop reads the inputs, and keeps a tuple of as many elements. -/
theorem nextTupel_keeps (first e : Bool) (inputs : List (QtONCStream α)) (tupel : List (Option α)) :
    (nextTupel first e inputs tupel).inputs.map QtONCStream.elements =
        inputs.map QtONCStream.elements ∧
      (nextTupel first e inputs tupel).actualTupel.length = tupel.length := by
  induction inputs generalizing first e tupel with
  | nil => cases tupel <;> exact ⟨rfl, rfl⟩
  | cons s inputs ih =>
    cases tupel with
    | nil => exact ⟨rfl, rfl⟩
    | cons a tupel =>
      obtain ⟨elements, rest⟩ := s
      cases rest with
      | cons x rest => exact ⟨rfl, rfl⟩
      | nil =>
        obtain ⟨hinputs, hlen⟩ := ih false (e || (first && a.isNone)) tupel
        exact ⟨congrArg (_ :: ·) hinputs, congrArg Nat.succ hlen⟩

/-- **The inner loop goes on to the next tuple**, if there is one. -/
theorem nextTupel_spec (first e : Bool) (hne : ∀ s ∈ inputs, s.elements ≠ [])
    (hlen : tupel.length = inputs.length) :
    match remaining inputs tupel with
    | [] => (nextTupel first e inputs tupel).nextTupelAvailable = false
    | v :: vs => (nextTupel first e inputs tupel).nextTupelAvailable = true ∧
        (nextTupel first e inputs tupel).actualTupel = v ∧
        remaining (nextTupel first e inputs tupel).inputs v = vs := by
  induction inputs generalizing first e tupel with
  | nil => cases tupel <;> rfl
  | cons s inputs ih =>
    cases tupel with
    | nil => cases hlen
    | cons a tupel =>
      obtain ⟨elements, rest⟩ := s
      cases rest with
      | cons x rest => exact ⟨rfl, rfl, rfl⟩
      | nil =>
        obtain ⟨hs, hinputs⟩ := List.forall_mem_cons.mp hne
        obtain ⟨x, elements, rfl⟩ := List.exists_cons_of_ne_nil hs
        have hnext := @ih tupel false (e || (first && a.isNone)) hinputs (Nat.succ.inj hlen)
        rw [remaining, List.map_nil, List.nil_append]
        cases hrem : remaining inputs tupel with
        | nil =>
          rw [hrem] at hnext
          exact hnext
        | cons v vs =>
          rw [hrem] at hnext
          obtain ⟨havail, hv, hvs⟩ := hnext
          subst hv hvs
          exact ⟨havail, rfl, rfl⟩

/-- What the first input is seen to be: empty only when it has not returned an element and has none, and
without an element in the tuple only when it has none. -/
theorem nextTupel_first (s : QtONCStream α) (inputs : List (QtONCStream α)) (a : Option α)
    (tupel : List (Option α)) :
    ((nextTupel true false (s :: inputs) (a :: tupel)).outputStreamIsEmpty = true →
        a = none ∧ s.rest = []) ∧
      ((nextTupel true false (s :: inputs) (a :: tupel)).actualTupel.head? = some none →
        ∀ s' ∈ (nextTupel true false (s :: inputs) (a :: tupel)).inputs.head?, s'.rest = s'.elements) := by
  obtain ⟨elements, rest⟩ := s
  cases rest with
  | cons x rest => exact ⟨by rintro ⟨⟩, by rintro ⟨⟩⟩
  | nil =>
    constructor
    · intro h
      change (nextTupel false (false || (true && a.isNone)) inputs tupel).outputStreamIsEmpty = true at h
      rw [nextTupel_notFirst] at h
      exact ⟨Option.isNone_iff_eq_none.mp h, rfl⟩
    · cases elements with
      | nil =>
        rintro - s' hs'
        obtain rfl := Option.some.inj hs'
        rfl
      | cons x elements => rintro ⟨⟩

/-! ## Runs -/

/-- An open iterator over some lists: the first input is read from its start when the tuple has no element
of it, and the output is empty only if there are no combinations. -/
structure Opened (xss : List (List α)) (j : QtJoinIterator α) (tupel : List (Option α)) : Prop where
  actualTupel : j.actualTupel = some tupel
  elements : j.inputs.map QtONCStream.elements = xss
  length : tupel.length = j.inputs.length
  head : tupel.head? = some none → ∀ s ∈ j.inputs.head?, s.rest = s.elements
  empty : j.outputStreamIsEmpty = true → [] ∈ xss

theorem next_of_empty {j : QtJoinIterator α} (h : j.outputStreamIsEmpty = true) : j.next = (none, j) := by
  rw [next]
  cases j.actualTupel with
  | none => rfl
  | some tupel => exact if_pos h

theorem next_of_opened {j : QtJoinIterator α} (htupel : j.actualTupel = some tupel)
    (h : j.outputStreamIsEmpty = false) : j.next =
      (if (nextTupel true false j.inputs tupel).nextTupelAvailable then
          copyTupel (nextTupel true false j.inputs tupel).actualTupel else none,
        ⟨(nextTupel true false j.inputs tupel).inputs,
          (nextTupel true false j.inputs tupel).outputStreamIsEmpty,
          some (nextTupel true false j.inputs tupel).actualTupel⟩) := by
  rw [next, htupel]
  exact if_neg (by rw [h]; exact Bool.false_ne_true)

theorem Opened.first_or {j : QtJoinIterator α} (h : j.Opened xss tupel) :
    j.inputs = [] ∧ tupel = [] ∨
      ∃ s inputs a tupel', j.inputs = s :: inputs ∧ tupel = a :: tupel' := by
  have hlen := h.length
  cases hinputs : j.inputs with
  | nil =>
    rw [hinputs] at hlen
    exact .inl ⟨rfl, List.eq_nil_of_length_eq_zero hlen⟩
  | cons s inputs =>
    cases tupel with
    | nil =>
      rw [hinputs] at hlen
      cases hlen
    | cons a tupel => exact .inr ⟨s, inputs, a, tupel, rfl, rfl⟩

theorem Opened.elements_ne_nil {j : QtJoinIterator α} (h : j.Opened xss tupel) (hne : [] ∉ xss) :
    ∀ s ∈ j.inputs, s.elements ≠ [] := by
  intro s hs hnil
  refine hne ?_
  rw [← h.elements, ← hnil]
  exact List.mem_map_of_mem hs

theorem copyTupel_some (w : List α) : copyTupel (w.map some) = some w := by
  induction w with
  | nil => rfl
  | cons x w ih =>
    rw [copyTupel] at ih ⊢
    rw [List.map_cons, List.mapM_cons, ih]
    rfl

/-- A tuple that lacks an element is not returned. -/
theorem copyTupel_none (h : none ∈ tupel) : copyTupel tupel = none := by
  induction tupel with
  | nil => cases h
  | cons a tupel ih =>
    rw [copyTupel] at ih ⊢
    rw [List.mapM_cons]
    cases a with
    | none => rfl
    | some x =>
      rw [ih ((List.mem_cons.mp h).resolve_left (Option.some_ne_none x).symm)]
      rfl

theorem Opened.next {j : QtJoinIterator α} (h : j.Opened xss tupel) : ∃ tupel', j.next.2.Opened xss tupel' := by
  cases he : j.outputStreamIsEmpty with
  | true =>
    rw [next_of_empty he]
    exact ⟨tupel, h⟩
  | false =>
    rw [next_of_opened h.actualTupel he]
    obtain ⟨hkeep, hlen⟩ := nextTupel_keeps true false j.inputs tupel
    have hlength : (nextTupel true false j.inputs tupel).inputs.length = j.inputs.length := by
      rw [← List.length_map (f := QtONCStream.elements), hkeep, List.length_map]
    have hfirst := h.first_or
    refine ⟨_, rfl, hkeep.trans h.elements, (hlen.trans h.length).trans hlength.symm, ?_, fun hempty => ?_⟩
    · rcases hfirst with ⟨hinputs, rfl⟩ | ⟨s, inputs, a, tupel, hinputs, rfl⟩
      · rw [hinputs]
        rintro ⟨⟩
      · rw [hinputs]
        exact (nextTupel_first s inputs a tupel).2
    · rcases hfirst with ⟨hinputs, rfl⟩ | ⟨s, inputs, a, tupel, hinputs, rfl⟩
      · rw [hinputs] at hempty
        cases hempty
      · rw [hinputs] at hempty
        obtain ⟨rfl, hrest⟩ := (nextTupel_first s inputs a tupel).1 hempty
        rw [h.head rfl s (by rw [hinputs]; rfl)] at hrest
        rw [← h.elements, hinputs, List.map_cons, hrest]
        exact List.mem_cons_self

/-! ## From the first tuple on -/

/-- An open iterator with these tuples still to come, over lists that all have elements. -/
structure Pending (xss : List (List α)) (j : QtJoinIterator α) (pending : List (List (Option α))) : Prop where
  opened : ∃ tupel, j.Opened xss tupel ∧ remaining j.inputs tupel = pending
  notEmpty : [] ∉ xss

theorem Pending.next {j : QtJoinIterator α} {w : List α} {vs : List (List (Option α))}
    (h : j.Pending xss (w.map some :: vs)) : j.next.1 = some w ∧ j.next.2.Pending xss vs := by
  obtain ⟨⟨tupel, hopened, hrem⟩, hne⟩ := h
  have he : j.outputStreamIsEmpty = false := Bool.eq_false_iff.mpr fun he => hne (hopened.empty he)
  have hspec := nextTupel_spec true false (hopened.elements_ne_nil hne) hopened.length
  rw [hrem] at hspec
  obtain ⟨havail, hactual, hnext⟩ := hspec
  obtain ⟨tupel', hopened'⟩ := hopened.next
  have hnext' := next_of_opened hopened.actualTupel he
  have htupel' : tupel' = w.map some := by
    have := hopened'.actualTupel
    rw [hnext'] at this
    exact (Option.some.inj this).symm.trans hactual
  refine ⟨?_, ⟨tupel', hopened', ?_⟩, hne⟩
  · rw [hnext', havail, hactual]
    exact copyTupel_some w
  · rw [hnext', htupel']
    exact hnext

theorem Pending.next_nil {j : QtJoinIterator α} (h : j.Pending xss []) : j.next.1 = none := by
  obtain ⟨⟨tupel, hopened, hrem⟩, hne⟩ := h
  have he : j.outputStreamIsEmpty = false := Bool.eq_false_iff.mpr fun he => hne (hopened.empty he)
  have hspec := nextTupel_spec true false (hopened.elements_ne_nil hne) hopened.length
  rw [hrem] at hspec
  rw [next_of_opened hopened.actualTupel he, hspec]
  rfl

/-- **The calls return the tuples to come, and then nothing.** -/
theorem Pending.calls {j : QtJoinIterator α} {ws : List (List α)}
    (h : j.Pending xss (ws.map (List.map some))) : (j.calls (ws.length + 1)).1 = ws.map some ++ [none] := by
  induction ws generalizing j with
  | nil => exact congrArg (· :: []) h.next_nil
  | cons w ws ih =>
    obtain ⟨hw, hpending⟩ := h.next
    rw [List.length_cons, QtJoinIterator.calls, hw]
    exact congrArg (some w :: ·) (ih hpending)

theorem map_sections_cons (xs : List α) (xss : List (List α)) :
    (xs :: xss).sections.map (List.map some) =
      (xss.sections.map (List.map some)).flatMap fun v => xs.map fun x => some x :: v := by
  rw [List.sections, List.map_flatMap, List.flatMap_map]
  simp only [List.map_map]
  rfl

/-- Behind the first input, the first elements come first. -/
theorem remaining_firstTupel (hne : [] ∉ xss) :
    xss.map List.head? :: remaining (xss.map fun xs => ⟨xs, xs.tail⟩) (xss.map List.head?) =
      xss.sections.map (List.map some) := by
  induction xss with
  | nil => rfl
  | cons xs xss ih =>
    rw [List.mem_cons, not_or] at hne
    obtain ⟨hxs, hxss⟩ := hne
    obtain ⟨x, xs, rfl⟩ := List.exists_cons_of_ne_nil (Ne.symm hxs)
    rw [map_sections_cons, ← ih hxss, List.flatMap_cons]
    rfl

/-! ## Open and reset -/

/-- Where the iterator stands after `open`, and after `reset`. -/
def begun (xss : List (List α)) (e : Bool) : QtJoinIterator α :=
  let first := firstTupel (xss.map fun xs => ⟨xs, xs⟩)
  ⟨first.1, e, some first.2⟩

theorem map_reset {inputs : List (QtONCStream α)} (h : inputs.map QtONCStream.elements = xss) :
    inputs.map QtONCStream.reset = xss.map fun xs => ⟨xs, xs⟩ := by
  rw [← h, List.map_map]
  rfl

theorem open_new (xss : List (List α)) :
    (new xss).open = begun xss ((xss.tail.map List.head?).any Option.isNone) := by
  have helems : (new xss).inputs.map QtONCStream.elements = xss := by
    rw [new, List.map_map]
    exact List.map_id xss
  rw [QtJoinIterator.open, map_reset helems]
  cases xss with
  | nil => rfl
  | cons xs xss =>
    simp only [begun, List.map_cons, firstTupel, List.tail_cons, List.map_map]
    rfl

theorem Opened.reset {j : QtJoinIterator α} (h : j.Opened xss tupel) :
    j.reset = begun xss j.outputStreamIsEmpty := by
  rw [QtJoinIterator.reset, h.actualTupel, map_reset h.elements]
  rfl

theorem opened_begun (xss : List (List α)) {e : Bool} (he : e = true → [] ∈ xss) :
    ∃ tupel, (begun xss e).Opened xss tupel := by
  cases xss with
  | nil => exact ⟨[], rfl, rfl, rfl, by rintro ⟨⟩, he⟩
  | cons xs xss =>
    refine ⟨_, rfl, ?_, ?_, ?_, he⟩
    · simp only [begun, firstTupel, List.map_cons, List.map_map]
      exact congrArg (xs :: ·) (List.map_id xss)
    · simp [begun, firstTupel]
    · rintro - s hs
      obtain rfl := Option.some.inj hs
      rfl

/-- Without combinations the first call returns nothing. -/
theorem next_begun_of_empty (h : [] ∈ xss) (e : Bool) : (begun xss e).next.1 = none := by
  cases e with
  | true => exact congrArg Prod.fst (next_of_empty rfl)
  | false =>
    cases xss with
    | nil => cases h
    | cons xs xss =>
      rw [next_of_opened rfl rfl]
      dsimp only
      split
      · refine copyTupel_none ?_
        cases xs with
        | nil => exact List.mem_cons_self
        | cons x xs =>
          refine List.mem_cons_of_mem _ ?_
          have hmem : [] ∈ xss := (List.mem_cons.mp h).resolve_left (List.cons_ne_nil x xs).symm
          exact List.mem_map.mpr ⟨⟨[], []⟩, List.mem_map_of_mem hmem, rfl⟩
      · rfl

/-- **All calls after `open` and after `reset`**: every combination, and then nothing. -/
theorem calls_begun (hxss : xss ≠ []) {e : Bool} (he : e = true → [] ∈ xss) :
    ((begun xss e).calls (xss.sections.length + 1)).1 = xss.sections.map some ++ [none] := by
  by_cases hne : [] ∈ xss
  · rw [sections_eq_nil hne]
    exact congrArg (· :: []) (next_begun_of_empty hne e)
  · obtain ⟨xs, xss, rfl⟩ := List.exists_cons_of_ne_nil hxss
    obtain ⟨tupel, hopened⟩ := opened_begun (xs :: xss) he
    refine Pending.calls ⟨⟨tupel, hopened, ?_⟩, hne⟩
    obtain rfl := Option.some.inj hopened.actualTupel
    have hxss : [] ∉ xss := fun h => hne (List.mem_cons_of_mem _ h)
    rw [map_sections_cons, ← remaining_firstTupel hxss, List.flatMap_cons]
    simp only [begun, firstTupel, List.map_cons, List.map_map]
    rfl

theorem Opened.calls {j : QtJoinIterator α} (h : j.Opened xss tupel) (n : ℕ) :
    ∃ tupel', (j.calls n).2.Opened xss tupel' := by
  induction n generalizing j tupel with
  | zero => exact ⟨tupel, h⟩
  | succ n ih =>
    obtain ⟨tupel', h'⟩ := h.next
    exact ih h'

/-- **The join enumerates the Cartesian product**: after `open`, and after a `reset` at any time, the calls
of `next` return the combinations of one element of each input, the first input running fastest, and then
a null pointer.  The combinations are those of the product, and no two of them are the same if no input has
an element twice. -/
theorem join_enumerates (xss : List (List α)) (hxss : xss ≠ []) :
    ((new xss).open.calls (xss.sections.length + 1)).1 = xss.sections.map some ++ [none] ∧
      (∀ n, (((new xss).open.calls n).2.reset.calls (xss.sections.length + 1)).1 =
        xss.sections.map some ++ [none]) ∧
      (∀ v, v ∈ xss.sections ↔ List.Forall₂ (· ∈ ·) v xss) ∧
      ((∀ xs ∈ xss, xs.Nodup) → xss.sections.Nodup) ∧
      ([] ∈ xss → (new xss).open.next.1 = none) := by
  have hempty : (xss.tail.map List.head?).any Option.isNone = true → [] ∈ xss := by
    rw [List.any_map, List.any_eq_true]
    rintro ⟨xs, hxs, hnone⟩
    obtain rfl := List.head?_eq_none_iff.mp (Option.isNone_iff_eq_none.mp hnone)
    exact List.mem_of_mem_tail hxs
  rw [open_new]
  refine ⟨calls_begun hxss hempty, fun n => ?_, fun v => List.mem_sections, nodup_sections,
    fun h => next_begun_of_empty h _⟩
  obtain ⟨tupel, hopened⟩ := opened_begun xss hempty
  obtain ⟨tupel', hopened'⟩ := hopened.calls n
  rw [hopened'.reset]
  exact calls_begun hxss hopened'.empty

theorem join_enumerates_twoInputs :
    ((new [[1, 2], [3, 4]]).open.calls 5).1 =
        [some [1, 3], some [2, 3], some [1, 4], some [2, 4], none] ∧
      (((new [[1, 2], [3, 4]]).open.calls 3).2.reset.calls 5).1 =
        [some [1, 3], some [2, 3], some [1, 4], some [2, 4], none] :=
  ⟨(join_enumerates [[1, 2], [3, 4]] (List.cons_ne_nil _ _)).1,
    (join_enumerates [[1, 2], [3, 4]] (List.cons_ne_nil _ _)).2.1 3⟩

end QtJoinIterator

end Rasdaman
