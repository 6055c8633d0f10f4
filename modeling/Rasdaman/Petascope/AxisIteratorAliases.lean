import Mathlib
import Rasdaman.Machinery.ExceptFold
import Rasdaman.Machinery.Regex
import Rasdaman.Machinery.Replace

/-!
# Petascope/AxisIteratorAliases — axis iterators inside the subsets of a query

`replaceAxisIteratorAliasNames` collects the names of axis iterators in a subset with a pattern and then
replaces each of them everywhere, in the order in which they occur.  A name that comes first also
replaces the start of a longer one.
-/

namespace Rasdaman

namespace Petascope

open Regex Replace

/-! ## The registry of axis iterators -/

/-- A letter, a digit or an underscore. -/
def isNameChar (c : Char) : Bool := c.isAlphanum || c == '_'

/-- The name of an axis iterator: `$`, and then letters, digits and underscores. -/
structure AxisIteratorName where
  letters : List Char
  isNameChar : ∀ c ∈ letters, isNameChar c
  deriving DecidableEq

namespace AxisIteratorName

/-- The name as it stands in a query. -/
def text (name : AxisIteratorName) : List Char := '$' :: name.letters

theorem text_injective : Function.Injective text := fun a b h => by
  cases a; cases b; cases h; rfl

theorem dollar_notMem (name : AxisIteratorName) : '$' ∉ name.letters := fun h =>
  absurd (name.isNameChar _ h) (by decide)

/-- The name without its `$`. -/
theorem replace_dollar (name : AxisIteratorName) : replaceAll ['$'] [] name.text = name.letters := by
  have h := replaceAll_self_append (v := []) (s := name.letters) (List.cons_ne_nil '$' [])
  rw [replaceAll_of_notMem name.dollar_notMem] at h
  exact h

end AxisIteratorName

/-- An axis iterator, as far as its names go. -/
structure AxisIterator where
  aliasName : List Char
  rasqlAliasName : List Char
  axisIteratorOrder : ℕ
  deriving DecidableEq

/-- The rasql text of an axis iterator, such as `px[0]`. -/
def AxisIterator.rasqlAlias (axisIterator : AxisIterator) : List Char :=
  axisIterator.rasqlAliasName ++ '[' :: (Nat.toDigits 10 axisIterator.axisIteratorOrder ++ [']'])

inductive AxisIteratorException where
  | invalidRedefineAxisIterator (axisIteratorAlias : List Char)
  | cannotFindAxistIterator (axisIteratorAlias : List Char)
  deriving DecidableEq

/-- The axis iterators of a query under their names. -/
abbrev AxisIteratorAliasRegistry := List (List Char × AxisIterator)

namespace AxisIteratorAliasRegistry

def addAxisIteratorAliasMapping (registry : AxisIteratorAliasRegistry) (axisIteratorAlias : List Char)
    (axisIterator : AxisIterator) : Except AxisIteratorException AxisIteratorAliasRegistry :=
  match registry.lookup axisIteratorAlias with
  | some _ => .error (.invalidRedefineAxisIterator axisIteratorAlias)
  | none => .ok (registry ++ [(axisIteratorAlias, axisIterator)])

def getAxisIterator (registry : AxisIteratorAliasRegistry) (axisIteratorAlias : List Char) :
    Except AxisIteratorException AxisIterator :=
  match registry.lookup axisIteratorAlias with
  | some axisIterator => .ok axisIterator
  | none => .error (.cannotFindAxistIterator axisIteratorAlias)

/-- The loop over the axis iterators of a coverage constructor or condenser: they share the rasql alias of
the first one that has a name without its `$`. -/
def addAxisIterators (registry : AxisIteratorAliasRegistry) (rasqlAliasName : List Char) (count : ℕ) :
    List AxisIteratorName → Except AxisIteratorException AxisIteratorAliasRegistry
  | [] => .ok registry
  | name :: names => do
    let rasqlAliasName := if rasqlAliasName.isEmpty then replaceAll ['$'] [] name.text else rasqlAliasName
    let registry ← registry.addAxisIteratorAliasMapping name.text ⟨name.text, rasqlAliasName, count⟩
    registry.addAxisIterators rasqlAliasName (count + 1) names

/-- The registries that the constructors and condensers of a query build. -/
inductive Registered : AxisIteratorAliasRegistry → Prop
  | empty : Registered []
  | visit {registry registry' : AxisIteratorAliasRegistry} {names : List AxisIteratorName} :
      Registered registry → registry.addAxisIterators [] 0 names = .ok registry' → Registered registry'

/-- Each axis iterator stands under its own name, and its rasql alias is a name without `$`. -/
def Named (registry : AxisIteratorAliasRegistry) : Prop :=
  ∀ e ∈ registry, e.2.aliasName = e.1 ∧ ∀ c ∈ e.2.rasqlAliasName, isNameChar c

variable {registry registry' : AxisIteratorAliasRegistry} {rasqlAliasName : List Char} {count : ℕ}
  {names : List AxisIteratorName} {axisIteratorAlias : List Char} {axisIterator : AxisIterator}

theorem Named.addAxisIteratorAliasMapping (h : registry.Named)
    (hname : axisIterator.aliasName = axisIteratorAlias)
    (hrasql : ∀ c ∈ axisIterator.rasqlAliasName, isNameChar c)
    (hadd : registry.addAxisIteratorAliasMapping axisIteratorAlias axisIterator = .ok registry') :
    registry'.Named := by
  rw [AxisIteratorAliasRegistry.addAxisIteratorAliasMapping] at hadd
  split at hadd
  · cases hadd
  · cases hadd
    exact List.forall_mem_append.mpr ⟨h, List.forall_mem_singleton.mpr ⟨hname, hrasql⟩⟩

theorem Named.addAxisIterators (h : registry.Named) (hrasql : ∀ c ∈ rasqlAliasName, isNameChar c)
    (hadd : registry.addAxisIterators rasqlAliasName count names = .ok registry') : registry'.Named := by
  induction names generalizing registry rasqlAliasName count with
  | nil =>
    cases hadd
    exact h
  | cons name names ih =>
    have hshared : ∀ c ∈ (if rasqlAliasName.isEmpty then replaceAll ['$'] [] name.text else rasqlAliasName),
        isNameChar c := by
      split
      · rw [name.replace_dollar]
        exact name.isNameChar
      · exact hrasql
    obtain ⟨registry₁, hone, hrest⟩ := ExceptFold.bind_eq_ok hadd
    have hadded : registry₁.Named :=
      @Named.addAxisIteratorAliasMapping _ _ _ ⟨_, _, _⟩ h rfl hshared hone
    exact ih hadded hshared hrest

theorem Registered.named (h : Registered registry) : registry.Named := by
  induction h with
  | empty => exact List.forall_mem_nil _
  | visit _ hadd ih => exact ih.addAxisIterators (List.forall_mem_nil _) hadd

/-- The rasql text that belongs to a name. -/
def rasqlAlias (registry : AxisIteratorAliasRegistry) (axisIteratorAlias : List Char) : List Char :=
  ((registry.lookup axisIteratorAlias).map AxisIterator.rasqlAlias).getD []

theorem getAxisIterator_of_mem (h : axisIteratorAlias ∈ registry.map Prod.fst) :
    ∃ axisIterator, registry.getAxisIterator axisIteratorAlias = .ok axisIterator ∧
      axisIterator.rasqlAlias = registry.rasqlAlias axisIteratorAlias ∧
      (axisIteratorAlias, axisIterator) ∈ registry := by
  cases hlook : registry.lookup axisIteratorAlias with
  | none =>
    obtain ⟨e, he, hname⟩ := List.mem_map.mp h
    exact absurd hname.symm (by simpa using List.lookup_eq_none_iff.mp hlook e he)
  | some axisIterator =>
    refine ⟨axisIterator, ?_, ?_, ?_⟩
    · rw [getAxisIterator, hlook]
    · rw [rasqlAlias, hlook, Option.map_some, Option.getD_some]
    · obtain ⟨l₁, l₂, rfl, -⟩ := List.lookup_eq_some_iff.mp hlook
      exact List.mem_append_right _ List.mem_cons_self

/-- **An alias tells its axis iterator's rasql name and order apart**, whatever stands behind it. -/
theorem rasqlAlias_append_inj {registry : AxisIteratorAliasRegistry} (h : registry.Named)
    {a b x y : List Char} (ha : a ∈ registry.map Prod.fst) (hb : b ∈ registry.map Prod.fst)
    (heq : registry.rasqlAlias a ++ x = registry.rasqlAlias b ++ y) : x = y := by
  obtain ⟨i, -, hi, hai⟩ := getAxisIterator_of_mem ha
  obtain ⟨j, -, hj, hbj⟩ := getAxisIterator_of_mem hb
  have hbracket : ∀ k : AxisIterator, (∀ c ∈ k.rasqlAliasName, isNameChar c) → '[' ∉ k.rasqlAliasName :=
    fun k hk hmem => absurd (hk _ hmem) (by decide)
  have hdigits : ∀ n : ℕ, ']' ∉ Nat.toDigits 10 n := fun n hmem =>
    absurd (Nat.isDigit_of_mem_toDigits (by decide) (by decide) hmem) (by decide)
  rw [← hi, ← hj, AxisIterator.rasqlAlias, AxisIterator.rasqlAlias, List.append_assoc, List.append_assoc,
    List.cons_append, List.cons_append, append_cons_inj (hbracket i (h _ hai).2) (hbracket j (h _ hbj).2),
    List.append_assoc, List.append_assoc, List.singleton_append, List.singleton_append,
    append_cons_inj (hdigits _) (hdigits _)] at heq
  exact heq.2.2

/-- A rasql alias has no `$`. -/
theorem dollar_notMem_rasqlAlias (h : registry.Named) (a : List Char) : '$' ∉ registry.rasqlAlias a := by
  rw [rasqlAlias]
  cases hlook : registry.lookup a with
  | none => exact List.not_mem_nil
  | some axisIterator =>
    obtain ⟨l₁, l₂, rfl, -⟩ := List.lookup_eq_some_iff.mp hlook
    have hname := (h _ (List.mem_append_right _ List.mem_cons_self)).2
    rw [Option.map_some, Option.getD_some, AxisIterator.rasqlAlias, List.mem_append, List.mem_cons,
      List.mem_append, List.mem_singleton]
    rintro (hmem | hmem | hmem | hmem)
    · exact absurd (hname _ hmem) (by decide)
    · exact absurd hmem (by decide)
    · exact absurd (Nat.isDigit_of_mem_toDigits (by decide) (by decide) hmem) (by decide)
    · exact absurd hmem (by decide)

end AxisIteratorAliasRegistry

/-! ## The names in a subset -/

/-- What ends the name of an axis iterator. -/
def isDelimiter (c : Char) : Bool :=
  c == '+' || c == '-' || c == '*' || c == '/' || c == ')' || c == ':' || isSpace c

/-- `\$.*?(?=(\+|-|\*|/|\)|:|\s|$))`. -/
def axisIteratorPattern : Rx Char :=
  .seq (.char (· == '$')) (.seq (.reluctant dot) (.ahead (.alt (.char isDelimiter) (.test atEnd))))

/-- `replaceAxisIteratorAliasNames`. -/
def replaceAxisIteratorAliasNames (subsetDimensionStr : List Char) (registry : AxisIteratorAliasRegistry) :
    Except AxisIteratorException (List Char) :=
  ((axisIteratorPattern.findAll subsetDimensionStr).map Match.text).foldlM
    (fun subsetDimensionStr aliasName => do
      let axisIterator ← registry.getAxisIterator aliasName
      return replaceAll aliasName axisIterator.rasqlAlias subsetDimensionStr) subsetDimensionStr

/-- A piece of a subset expression: a name, or one of the characters of its numbers, operators,
parentheses, colons and blanks. -/
inductive Piece where
  | name (n : AxisIteratorName)
  | char (c : Char)

namespace Piece

/-- The text of a piece, with the names written as `sub` says. -/
def write (sub : AxisIteratorName → List Char) : Piece → List Char
  | name n => sub n
  | char c => [c]

/-- Only names have a `$`, and a name ends where something else begins. -/
def Delimited : List Piece → Prop
  | [] => True
  | char c :: rest => c ≠ '$' ∧ Delimited rest
  | name _ :: rest => (∀ piece ∈ rest.head?, ∃ c, piece = char c ∧ isDelimiter c) ∧ Delimited rest

end Piece

/-- An expression over axis iterators. -/
structure SubsetExpression where
  pieces : List Piece
  delimited : Piece.Delimited pieces

namespace SubsetExpression

/-- The text with the names written as `sub` says. -/
def write (sub : AxisIteratorName → List Char) (pieces : List Piece) : List Char :=
  pieces.flatMap (Piece.write sub)

/-- The names of pieces, in order. -/
def namesOf (pieces : List Piece) : List AxisIteratorName :=
  pieces.filterMap fun
    | .name n => some n
    | .char _ => none

def text (e : SubsetExpression) : List Char := write AxisIteratorName.text e.pieces

def names (e : SubsetExpression) : List AxisIteratorName := namesOf e.pieces

/-- No name begins with one that occurs in front of its first occurrence. -/
def LongestFirst (e : SubsetExpression) : Prop :=
  ∀ b ∈ e.names, ∀ a ∈ e.names.takeWhile (· ≠ b), ¬ a.text <+: b.text

instance (e : SubsetExpression) : Decidable e.LongestFirst :=
  inferInstanceAs (Decidable (∀ b ∈ e.names, ∀ a ∈ e.names.takeWhile (· ≠ b), ¬ a.text <+: b.text))

variable {pieces : List Piece} {n : AxisIteratorName} {c : Char} {sub : AxisIteratorName → List Char}

@[simp] theorem write_nil : write sub [] = [] := rfl

@[simp] theorem write_name : write sub (.name n :: pieces) = sub n ++ write sub pieces := rfl

@[simp] theorem write_char : write sub (.char c :: pieces) = c :: write sub pieces := rfl

@[simp] theorem namesOf_name : namesOf (.name n :: pieces) = n :: namesOf pieces := rfl

@[simp] theorem namesOf_char : namesOf (.char c :: pieces) = namesOf pieces := rfl

/-- What stands behind a name. -/
theorem write_eq_nil_or (h : ∀ piece ∈ pieces.head?, ∃ c, piece = .char c ∧ isDelimiter c) :
    write sub pieces = [] ∨ ∃ c rest, isDelimiter c ∧ write sub pieces = c :: rest := by
  cases pieces with
  | nil => exact .inl rfl
  | cons piece pieces =>
    obtain ⟨c, rfl, hc⟩ := h piece rfl
    exact .inr ⟨c, _, hc, write_char⟩

/-! ## The pattern finds the names -/

theorem isDelimiter_iff : isDelimiter c ↔
    c ∈ ['+', '-', '*', '/', ')', ':', ' ', '\t', '\n', '\x0b', '\x0c', '\r'] := by
  simp [isDelimiter, isSpace, or_assoc]

theorem isLineTerminator_iff : isLineTerminator c ↔ c ∈ ['\n', '\r', '\u0085', '\u2028', '\u2029'] := by
  simp [isLineTerminator, or_assoc]

theorem not_isNameChar_of_isDelimiter (h : isDelimiter c) : isNameChar c = false := by
  have hall : (['+', '-', '*', '/', ')', ':', ' ', '\t', '\n', '\x0b', '\x0c', '\r'].all
      fun d => !isNameChar d) := rfl
  simpa using List.all_eq_true.mp hall c (isDelimiter_iff.mp h)

theorem not_isLineTerminator (h : isNameChar c) : isLineTerminator c = false := by
  have hall : (['\n', '\r', '\u0085', '\u2028', '\u2029'].all fun d => !isNameChar d) := rfl
  by_contra hc
  rw [Bool.not_eq_false] at hc
  exact absurd h (by simpa using List.all_eq_true.mp hall c (isLineTerminator_iff.mp hc))

/-- **The pattern takes a name**, up to where it ends. -/
theorem first_axisIteratorPattern (n : AxisIteratorName) {rest : List Char}
    (hrest : rest = [] ∨ ∃ c s, isDelimiter c ∧ rest = c :: s) :
    axisIteratorPattern.first ('$' :: (n.letters ++ rest)) = some ⟨n.text, rest, []⟩ := by
  have hend : (Rx.ahead (.alt (.char isDelimiter) (.test atEnd))).first rest = some ⟨[], rest, []⟩ := by
    rw [Rx.first, Rx.run, if_neg]
    · rfl
    · rcases hrest with rfl | ⟨c, s, hc, rfl⟩
      · simp [Rx.run, atEnd]
      · simp [Rx.run, hc]
  rw [axisIteratorPattern, Rx.first_char_seq, if_pos (beq_self_eq_true '$'),
    Rx.first_reluctant_seq ?_ hend ?_]
  · simp [Match.behind, AxisIteratorName.text]
  · intro c hc
    rw [dot, not_isLineTerminator (n.isNameChar c hc)]
    rfl
  · intro x y hxy hy
    obtain ⟨d, y, rfl⟩ := List.exists_cons_of_ne_nil hy
    have hd := n.isNameChar d (by rw [hxy]; simp)
    have hdelimiter : isDelimiter d = false := Bool.not_eq_true _ ▸ fun hc =>
      Bool.false_ne_true ((not_isNameChar_of_isDelimiter hc).symm.trans hd)
    have hatEnd : atEnd (d :: (y ++ rest)) = false := Bool.not_eq_true _ ▸ fun hc =>
      Bool.false_ne_true ((not_isLineTerminator hd).symm.trans (isLineTerminator_of_atEnd hc))
    simp [Rx.first, Rx.run, hdelimiter, hatEnd]

theorem findAll_write (h : Piece.Delimited pieces) :
    (axisIteratorPattern.findAll (write AxisIteratorName.text pieces)).map Match.text =
      (namesOf pieces).map AxisIteratorName.text := by
  induction pieces with
  | nil => rfl
  | cons piece pieces ih =>
    cases piece with
    | char c =>
      have hnone : axisIteratorPattern.first (c :: write AxisIteratorName.text pieces) = none := by
        rw [axisIteratorPattern, Rx.first_char_seq, if_neg (by simpa using h.1)]
      rw [write_char, Rx.findAll_cons_of_eq_none hnone, ih h.2, namesOf_char]
    | name n =>
      have hsome := first_axisIteratorPattern n (@write_eq_nil_or _ AxisIteratorName.text h.1)
      rw [write_name, AxisIteratorName.text, List.cons_append, Rx.findAll_cons_of_eq_some hsome rfl,
        List.map_cons, ih h.2, namesOf_name, List.map_cons]

/-! ## The replacements -/

/-- How a name reads after the names `done` have been replaced: the first of them with which it begins
has been. -/
def shown (registry : AxisIteratorAliasRegistry) (done : List AxisIteratorName) (b : AxisIteratorName) :
    List Char :=
  match done.find? fun a => a.text <+: b.text with
  | none => b.text
  | some a => registry.rasqlAlias a.text ++ b.text.drop a.text.length

theorem find?_eq_some {done : List AxisIteratorName} {a b : AxisIteratorName}
    (h : (done.find? fun a => a.text <+: b.text) = some a) : a ∈ done ∧ a.text <+: b.text := by
  have hbegins := List.find?_some h
  exact ⟨List.mem_of_find?_eq_some h, of_decide_eq_true hbegins⟩

/-- What is left of a name behind one with which it begins. -/
theorem isNameChar_of_mem_drop {a b : AxisIteratorName} (h : c ∈ b.text.drop a.text.length) :
    isNameChar c := b.isNameChar c (List.mem_of_mem_drop h)

/-- A text does not begin with a name that goes on behind the name it begins with. -/
theorem prefix_append_iff {a b : AxisIteratorName} {rest : List Char}
    (hrest : rest = [] ∨ ∃ c s, isDelimiter c ∧ rest = c :: s) :
    a.text <+: b.text ++ rest ↔ a.text <+: b.text := by
  rcases hrest with rfl | ⟨c, s, hc, rfl⟩
  · rw [List.append_nil]
  · refine prefix_append_cons_iff fun hmem => ?_
    rcases List.mem_cons.mp hmem with rfl | hmem
    · exact absurd hc (by decide)
    · have := a.isNameChar c hmem
      rw [not_isNameChar_of_isDelimiter hc] at this
      cases this

/-- **One replacement.** -/
theorem replaceAll_write {registry : AxisIteratorAliasRegistry} (hreg : registry.Named)
    (h : Piece.Delimited pieces) (done : List AxisIteratorName) (a : AxisIteratorName) :
    replaceAll a.text (registry.rasqlAlias a.text) (write (shown registry done) pieces) =
      write (shown registry (done ++ [a])) pieces := by
  induction pieces with
  | nil => rfl
  | cons piece pieces ih =>
    cases piece with
    | char c =>
      rw [write_char, write_char, replaceAll_cons, ih h.2]
      exact fun hp => h.1 (List.cons_prefix_cons.mp hp).1.symm
    | name b =>
      rw [write_name, write_name, shown, shown, List.find?_append]
      cases hfind : done.find? fun a => a.text <+: b.text with
      | some a' =>
        have hdollar : '$' ∉ registry.rasqlAlias a'.text ++ b.text.drop a'.text.length := by
          rw [List.mem_append, not_or]
          exact ⟨AxisIteratorAliasRegistry.dollar_notMem_rasqlAlias hreg _, fun hmem =>
            absurd (isNameChar_of_mem_drop hmem) (by decide)⟩
        rw [Option.some_or]
        exact (replaceAll_append_of_notMem hdollar).trans (congrArg _ (ih h.2))
      | none =>
        rw [Option.none_or]
        by_cases hab : a.text <+: b.text
        · obtain ⟨t, ht⟩ := hab
          have hfind : ([a].find? fun a => a.text <+: b.text) = some a := by simp [← ht]
          have hdrop : b.text.drop a.text.length = t := by rw [← ht, List.drop_left]
          have hdollar : '$' ∉ t := fun hmem =>
            absurd (isNameChar_of_mem_drop (hdrop.symm ▸ hmem)) (by decide)
          have hrest : replaceAll a.text (registry.rasqlAlias a.text)
              (t ++ write (shown registry done) pieces) = t ++ write (shown registry (done ++ [a])) pieces :=
            (replaceAll_append_of_notMem hdollar).trans (congrArg _ (ih h.2))
          rw [hfind]
          dsimp only
          rw [hdrop, ← ht, List.append_assoc, List.append_assoc, replaceAll_self_append (u := a.text)
            (List.cons_ne_nil _ _), hrest]
        · have hfind : ([a].find? fun a => a.text <+: b.text) = none := by simp [hab]
          have hdollar := b.dollar_notMem
          rw [hfind]
          dsimp only
          have hhere : ¬ a.text <+: b.text ++ write (shown registry done) pieces :=
            mt (prefix_append_iff (write_eq_nil_or h.1)).mp hab
          refine (replaceAll_cons hhere).trans (congrArg _ ?_)
          exact (replaceAll_append_of_notMem hdollar).trans (congrArg _ (ih h.2))

/-- The replacements of all the names, one after the other. -/
theorem foldl_replaceAll {registry : AxisIteratorAliasRegistry} (hreg : registry.Named)
    (h : Piece.Delimited pieces) (names : List AxisIteratorName) :
    (names.map AxisIteratorName.text).foldl (fun s a => replaceAll a (registry.rasqlAlias a) s)
      (write AxisIteratorName.text pieces) = write (shown registry names) pieces := by
  rw [List.foldl_map]
  refine ExceptFold.foldl_inv (P := fun done s => s = write (shown registry done) pieces) rfl ?_
  rintro done a rest s - rfl
  exact replaceAll_write hreg h done a

/-- Every name reads as its own rasql alias exactly when every name is the first with which it begins. -/
theorem write_shown_eq_iff {registry : AxisIteratorAliasRegistry} (hreg : registry.Named)
    (h : Piece.Delimited pieces) {done : List AxisIteratorName}
    (hdone : ∀ a ∈ done, a.text ∈ registry.map Prod.fst) (hnames : ∀ b ∈ namesOf pieces, b ∈ done) :
    write (shown registry done) pieces = write (fun b => registry.rasqlAlias b.text) pieces ↔
      ∀ b ∈ namesOf pieces, (done.find? fun a => a.text <+: b.text) = some b := by
  induction pieces with
  | nil => exact iff_of_true rfl (List.forall_mem_nil _)
  | cons piece pieces ih =>
    cases piece with
    | char c =>
      rw [write_char, write_char, List.cons_inj_right, namesOf_char]
      exact ih h.2 hnames
    | name b =>
      have hself : (done.find? fun a => a.text <+: b.text).isSome :=
        List.find?_isSome.mpr ⟨b, hnames b (by simp), by simp⟩
      obtain ⟨a, ha⟩ := Option.isSome_iff_exists.mp hself
      obtain ⟨hmem, t, ht⟩ := find?_eq_some ha
      have hdrop : b.text.drop a.text.length = t := by rw [← ht, List.drop_left]
      have hb := hdone b (hnames b (by simp))
      rw [write_name, write_name, shown, namesOf_name, List.forall_mem_cons, ha,
        ← ih h.2 fun b' hb' => hnames b' (by simp [hb'])]
      dsimp only
      rw [hdrop, List.append_assoc, Option.some.injEq]
      constructor
      · intro heq
        have htail := AxisIteratorAliasRegistry.rasqlAlias_append_inj hreg (hdone a hmem) hb heq
        cases t with
        | nil => exact ⟨AxisIteratorName.text_injective (by simpa using ht), htail⟩
        | cons d t =>
          have hd : isNameChar d := isNameChar_of_mem_drop (hdrop.symm ▸ List.mem_cons_self)
          obtain hnil | ⟨c, rest, hc, hcons⟩ :=
            @write_eq_nil_or _ (fun b => registry.rasqlAlias b.text) h.1
          · rw [hnil] at htail
            cases htail
          · rw [hcons] at htail
            rw [(List.cons.inj htail).1, not_isNameChar_of_isDelimiter hc] at hd
            cases hd
      · rintro ⟨rfl, heq⟩
        have ht : t = [] := by simpa using ht
        rw [ht, List.nil_append, heq]

/-- The name with which a name of the list begins first. -/
theorem find?_eq_self_iff {names : List AxisIteratorName} {b : AxisIteratorName} (hb : b ∈ names) :
    (names.find? fun a => a.text <+: b.text) = some b ↔
      ∀ a ∈ names.takeWhile (· ≠ b), ¬ a.text <+: b.text := by
  induction names with
  | nil => cases hb
  | cons x names ih =>
    by_cases hx : x = b
    · subst hx
      simp
    · have hb' := (List.mem_cons.mp hb).resolve_left (Ne.symm hx)
      rw [List.takeWhile_cons_of_pos (by simpa using hx), List.forall_mem_cons, ← ih hb']
      by_cases hp : x.text <+: b.text
      · rw [List.find?_cons_of_pos (by simpa using hp), Option.some.injEq]
        exact iff_of_false hx fun h => h.1 hp
      · rw [List.find?_cons_of_neg (by simpa using hp)]
        exact (and_iff_right hp).symm

end SubsetExpression

open SubsetExpression in
/-- **Axis iterators are substituted exactly**, whatever the names are, if no name begins with one that
occurs before it, and not otherwise. -/
theorem replaceAxisIteratorAliasNames_eq_iff {registry : AxisIteratorAliasRegistry}
    (hreg : registry.Registered) (e : SubsetExpression)
    (hnames : ∀ n ∈ e.names, n.text ∈ registry.map Prod.fst) :
    replaceAxisIteratorAliasNames e.text registry =
        .ok (write (fun n => registry.rasqlAlias n.text) e.pieces) ↔ e.LongestFirst := by
  have hrun : replaceAxisIteratorAliasNames e.text registry = .ok (write (shown registry e.names) e.pieces) := by
    rw [replaceAxisIteratorAliasNames, text, findAll_write e.delimited, ← foldl_replaceAll hreg.named e.delimited]
    refine ExceptFold.foldlM_eq_ok (P := fun _ => True) (fun a ha s _ => ⟨?_, trivial⟩) trivial
    obtain ⟨n, hn, rfl⟩ := List.mem_map.mp ha
    obtain ⟨axisIterator, hget, halias, -⟩ := AxisIteratorAliasRegistry.getAxisIterator_of_mem (hnames n hn)
    rw [hget, ← halias]
    rfl
  rw [hrun, Except.ok.injEq, write_shown_eq_iff hreg.named e.delimited hnames fun _ hb => hb]
  exact forall₂_congr fun b hb => find?_eq_self_iff hb

/-- The registry of `coverage c over $p x(0:9), $px y(0:9) values ...`. -/
def twoAxisIterators : AxisIteratorAliasRegistry :=
  [("$p".toList, ⟨"$p".toList, "p".toList, 0⟩), ("$px".toList, ⟨"$px".toList, "p".toList, 1⟩)]

def nameP : AxisIteratorName := ⟨['p'], by simp [isNameChar]⟩

def namePx : AxisIteratorName := ⟨['p', 'x'], by simp [isNameChar]⟩

theorem registered_twoAxisIterators : twoAxisIterators.Registered :=
  @AxisIteratorAliasRegistry.Registered.visit _ _ [nameP, namePx] .empty rfl

/-- `$px+$p`. -/
def longerFirst : SubsetExpression :=
  ⟨[.name namePx, .char '+', .name nameP], by simp [Piece.Delimited, isDelimiter]⟩

theorem replaceAxisIteratorAliasNames_longerFirst :
    replaceAxisIteratorAliasNames longerFirst.text twoAxisIterators = .ok "p[1]+p[0]".toList :=
  (replaceAxisIteratorAliasNames_eq_iff registered_twoAxisIterators longerFirst (by decide)).mpr (by decide)

/-- `$p+$px`. -/
def shorterFirst : SubsetExpression :=
  ⟨[.name nameP, .char '+', .name namePx], by simp [Piece.Delimited, isDelimiter]⟩

/-- **`$p+$px` becomes `p[0]+p[0]x`.** -/
theorem replaceAxisIteratorAliasNames_shorterFirst :
    replaceAxisIteratorAliasNames shorterFirst.text twoAxisIterators = .ok "p[0]+p[0]x".toList ∧
      replaceAxisIteratorAliasNames shorterFirst.text twoAxisIterators ≠
        .ok (SubsetExpression.write (fun n => twoAxisIterators.rasqlAlias n.text) shorterFirst.pieces) := by
  decide

end Petascope

end Rasdaman
