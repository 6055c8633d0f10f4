import Mathlib
import Rasdaman.Petascope.AxisIteratorAliases

/-!
# Petascope/MultipartQueries — one rasql query for each combination of coverages

An iterator of a for clause that is bound to several coverages gets a placeholder for its collection,
`$collectionName_` and the name of the iterator without `$`.  `rewriteQuery` replaces, for each such
iterator, `$collectionName_` and the name as it is written, wherever that stands in the query.
-/

namespace Rasdaman

namespace Petascope

open Replace

/-! ## The for clauses of a query -/

/-- The name of a coverage: letters, digits and underscores. -/
structure CoverageName where
  text : List Char
  ne_nil : text ≠ []
  isNameChar : ∀ c ∈ text, isNameChar c

/-- `for $c in (A, B)`: an iterator, with or without `$`, and the coverages it is bound to. -/
structure ForClause where
  dollar : Bool
  letters : List Char
  isNameChar : ∀ c ∈ letters, isNameChar c
  coverageNames : List CoverageName
  ne_nil : coverageNames ≠ []

namespace ForClause

/-- The iterator as it is written. -/
def coverageIterator (clause : ForClause) : List Char :=
  if clause.dollar then '$' :: clause.letters else clause.letters

/-- Whether the iterator is bound to more than one coverage. -/
def IsMultipart (clause : ForClause) : Prop := 1 < clause.coverageNames.length

instance : DecidablePred IsMultipart := fun _ => inferInstanceAs (Decidable (_ < _))

end ForClause

/-- A query with for clauses, a where clause if it has one, and a return clause, the last two as they are
translated. -/
structure WcpsQuery where
  forClauseList : List ForClause
  whereClause : Option (List Char)
  processingExpression : List Char

/-! ## `CoverageAliasRegistry` -/

/-- The coverages that belong to each iterator, in the order of the query. -/
abbrev CoverageAliasRegistry := List (List Char × List (List Char))

namespace CoverageAliasRegistry

def addCoverageMapping (coverageAlias coverageName : List Char) : CoverageAliasRegistry → CoverageAliasRegistry
  | [] => [(coverageAlias, [coverageName])]
  | entry :: registry =>
    if entry.1 = coverageAlias then (entry.1, entry.2 ++ [coverageName]) :: registry
    else entry :: addCoverageMapping coverageAlias coverageName registry

end CoverageAliasRegistry

/-! ## The default query -/

namespace ForClauseHandler

def COLLECTION_NAME : List Char := "$collectionName".toList

def TEMPLATE : List Char := "$collectionName AS $iterator".toList

/-- The iterator in rasql: without its `$`. -/
def translatedCoverageIterator (coverageIterator : List Char) : List Char :=
  if ['$'] <+: coverageIterator then replaceAll ['$'] [] coverageIterator else coverageIterator

/-- The collection of an iterator in the default query. -/
def collection (clause : ForClause) : List Char :=
  if clause.IsMultipart then
    COLLECTION_NAME ++ '_' :: translatedCoverageIterator clause.coverageIterator
  else (clause.coverageNames.head clause.ne_nil).text

/-- `handle`: the rasql of a for clause. -/
def handle (clause : ForClause) : List Char :=
  replaceAll COLLECTION_NAME (collection clause)
    (replaceAll "$iterator".toList (translatedCoverageIterator clause.coverageIterator) TEMPLATE)

/-- `handle`: what it adds to the registry. -/
def register (registry : CoverageAliasRegistry) (clause : ForClause) : CoverageAliasRegistry :=
  clause.coverageNames.foldl
    (fun registry name => registry.addCoverageMapping clause.coverageIterator name.text) registry

end ForClauseHandler

/-- `ForClauseListHandler.handle`. -/
def ForClauseListHandler.handle (rasqls : List (List Char)) : List Char :=
  replaceAll "$forClausesList".toList ([','].intercalate rasqls) "FROM $forClausesList".toList

/-- `WhereClauseHandler.handle`. -/
def WhereClauseHandler.handle (booleanExpression : List Char) : List Char :=
  replaceAll "$booleanExpression".toList booleanExpression " WHERE $booleanExpression ".toList

/-- `ReturnClauseHandler.handle`. -/
def ReturnClauseHandler.handle (processingExpression : List Char) : List Char :=
  replaceAll "$processingExpression".toList processingExpression "SELECT $processingExpression ".toList

namespace WcpsQuery

def returnText (q : WcpsQuery) : List Char := ReturnClauseHandler.handle q.processingExpression

def whereText (q : WcpsQuery) : List Char := (q.whereClause.map WhereClauseHandler.handle).getD []

/-- `WcpsQueryHandler.handle`: the default query. -/
def defaultRasql (q : WcpsQuery) : List Char :=
  q.returnText ++ ForClauseListHandler.handle (q.forClauseList.map ForClauseHandler.handle) ++ q.whereText

/-- The registry once the for clauses are translated. -/
def registry (q : WcpsQuery) : CoverageAliasRegistry := q.forClauseList.foldl ForClauseHandler.register []

end WcpsQuery

/-! ## `RasqlRewriteMultipartQueriesService` -/

namespace RasqlRewriteMultipartQueriesService

/-- What is replaced for an iterator. -/
def updateName (coverageIteratorName : List Char) : List Char :=
  ForClauseHandler.COLLECTION_NAME ++ '_' :: coverageIteratorName

def isMultiPart (registry : CoverageAliasRegistry) : Bool := registry.any fun entry => 1 < entry.2.length

/-- The queries that come of one, pushed on a stack, whose top comes first. -/
def pushEach (entry : List Char × List (List Char)) (stack : List (List Char)) (template : List Char) :
    List (List Char) :=
  entry.2.foldl (fun stack name => replaceAll (updateName entry.1) name template :: stack) stack

/-- The loop over the iterators of the registry. -/
def rewriteLoop (defaultRasql : List Char) :
    (isFirstIterator : Bool) → (stackUpdatedQueries : List (List Char)) → CoverageAliasRegistry →
      List (List Char)
  | _, stackUpdatedQueries, [] => stackUpdatedQueries
  | isFirstIterator, stackUpdatedQueries, entry :: registry =>
    if 1 < entry.2.length then
      if isFirstIterator then
        rewriteLoop defaultRasql false (pushEach entry stackUpdatedQueries defaultRasql) registry
      else rewriteLoop defaultRasql false (stackUpdatedQueries.foldl (pushEach entry) []) registry
    else rewriteLoop defaultRasql isFirstIterator stackUpdatedQueries registry

/-- The stack of queries, its top first. -/
def rewriteQuery (registry : CoverageAliasRegistry) (defaultRasql : List Char) : List (List Char) :=
  if isMultiPart registry then rewriteLoop defaultRasql true [] registry else [defaultRasql]

end RasqlRewriteMultipartQueriesService

/-! ## The queries that are wanted -/

/-- One element of each list, in every way. -/
def combinations {α : Type} : List (List α) → List (List α)
  | [] => [[]]
  | l :: ls => l.flatMap fun a => (combinations ls).map (a :: ·)

namespace WcpsQuery

/-- One coverage for each iterator, in every way. -/
def choices (q : WcpsQuery) : List (List CoverageName) :=
  combinations (q.forClauseList.map ForClause.coverageNames)

/-- The query for one coverage of each iterator. -/
def rasqlFor (q : WcpsQuery) (choice : List CoverageName) : List Char :=
  q.returnText ++ ("FROM ".toList ++ [','].intercalate ((q.forClauseList.zip choice).map fun p =>
    p.2.text ++ (" AS ".toList ++ p.1.letters))) ++ q.whereText

/-- **The queries are those for the combinations of the coverages**, each as often as it is one. -/
def ExpandsToProduct (q : WcpsQuery) : Prop :=
  (RasqlRewriteMultipartQueriesService.rewriteQuery q.registry q.defaultRasql).Perm
    (q.choices.map q.rasqlFor)

open RasqlRewriteMultipartQueriesService in
/-- The placeholders are found where they belong, and only there. -/
structure PlaceholdersFound (q : WcpsQuery) : Prop where
  returnText : ∀ clause ∈ q.forClauseList, clause.IsMultipart →
    ¬ updateName clause.coverageIterator <:+: q.returnText
  whereText : ∀ clause ∈ q.forClauseList, clause.IsMultipart →
    ¬ updateName clause.coverageIterator <:+: q.whereText
  /-- The first iterator whose placeholder the one of the clause begins with is its own, or what that
  one makes of it is its only coverage. -/
  fromText : ∀ clause ∈ q.forClauseList, clause.IsMultipart → ∃ other,
    (q.forClauseList.find? fun other =>
      other.IsMultipart ∧ other.coverageIterator <+: clause.letters) = some other ∧
    (other = clause ∨ ∀ x ∈ other.coverageNames, ∀ y ∈ clause.coverageNames,
      x.text ++ clause.letters.drop other.coverageIterator.length = y.text)

end WcpsQuery

/-! ## The registry -/

namespace ForClause

/-- The entry of the registry for a clause. -/
def entry (clause : ForClause) : List Char × List (List Char) :=
  (clause.coverageIterator, clause.coverageNames.map CoverageName.text)

theorem dollar_notMem (clause : ForClause) : '$' ∉ clause.letters := fun h =>
  absurd (clause.isNameChar _ h) (by decide)

@[simp] theorem translatedCoverageIterator_eq (clause : ForClause) :
    ForClauseHandler.translatedCoverageIterator clause.coverageIterator = clause.letters := by
  rw [ForClauseHandler.translatedCoverageIterator, coverageIterator]
  by_cases hd : clause.dollar
  · rw [if_pos hd, if_pos ⟨clause.letters, rfl⟩]
    exact AxisIteratorName.replace_dollar ⟨clause.letters, clause.isNameChar⟩
  · rw [if_neg hd, if_neg]
    rintro ⟨t, ht⟩
    exact clause.dollar_notMem (ht ▸ List.mem_cons_self)

theorem two_le_of_isMultipart_entry (clause : ForClause) : 1 < clause.entry.2.length ↔ clause.IsMultipart := by
  rw [entry, List.length_map, IsMultipart]

end ForClause

namespace CoverageAliasRegistry

theorem addCoverageMapping_cons (coverageAlias coverageName : List Char) (entry : List Char × List (List Char))
    (registry : CoverageAliasRegistry) : addCoverageMapping coverageAlias coverageName (entry :: registry) =
      if entry.1 = coverageAlias then (entry.1, entry.2 ++ [coverageName]) :: registry
      else entry :: addCoverageMapping coverageAlias coverageName registry := rfl

theorem addCoverageMapping_append {coverageAlias coverageName : List Char} {registry : CoverageAliasRegistry}
    (h : coverageAlias ∉ registry.map Prod.fst) (rest : CoverageAliasRegistry) :
    addCoverageMapping coverageAlias coverageName (registry ++ rest) =
      registry ++ addCoverageMapping coverageAlias coverageName rest := by
  induction registry with
  | nil => rfl
  | cons entry registry ih =>
    rw [List.map_cons, List.mem_cons, not_or] at h
    rw [List.cons_append, addCoverageMapping_cons, if_neg (Ne.symm h.1), ih h.2, List.cons_append]

theorem foldl_addCoverageMapping {coverageAlias : List Char} {registry : CoverageAliasRegistry}
    (h : coverageAlias ∉ registry.map Prod.fst) (names : List CoverageName) (before : List (List Char)) :
    names.foldl (fun registry name => registry.addCoverageMapping coverageAlias name.text)
      (registry ++ [(coverageAlias, before)]) =
        registry ++ [(coverageAlias, before ++ names.map CoverageName.text)] := by
  induction names generalizing before with
  | nil => rw [List.map_nil, List.append_nil, List.foldl_nil]
  | cons name names ih =>
    rw [List.foldl_cons, addCoverageMapping_append h, addCoverageMapping_cons, if_pos rfl, ih,
      List.append_assoc, List.map_cons, List.singleton_append]

/-- A new iterator gets one entry, with all its coverages. -/
theorem register_eq {registry : CoverageAliasRegistry} {clause : ForClause}
    (h : clause.coverageIterator ∉ registry.map Prod.fst) :
    ForClauseHandler.register registry clause = registry ++ [clause.entry] := by
  obtain ⟨name, names, hnames⟩ := List.exists_cons_of_ne_nil clause.ne_nil
  have hfirst := @addCoverageMapping_append _ name.text _ h []
  rw [List.append_nil] at hfirst
  rw [ForClauseHandler.register, hnames, List.foldl_cons, hfirst, addCoverageMapping,
    foldl_addCoverageMapping h, ForClause.entry, hnames, List.map_cons, List.singleton_append]

theorem foldl_register {registry : CoverageAliasRegistry} {clauses : List ForClause}
    (h : (registry.map Prod.fst ++ clauses.map ForClause.coverageIterator).Nodup) :
    clauses.foldl ForClauseHandler.register registry = registry ++ clauses.map ForClause.entry := by
  induction clauses generalizing registry with
  | nil => rw [List.map_nil, List.append_nil, List.foldl_nil]
  | cons clause clauses ih =>
    have hnew : clause.coverageIterator ∉ registry.map Prod.fst := fun hmem =>
      (List.nodup_append.mp h).2.2 _ hmem _ List.mem_cons_self rfl
    rw [List.foldl_cons, register_eq hnew, ih, List.map_cons, List.append_assoc, List.singleton_append]
    rw [List.map_append, List.append_assoc]
    exact h

end CoverageAliasRegistry

/-! ## The queries that are made -/

namespace RasqlRewriteMultipartQueriesService

/-- A query after the replacements for one coverage of each iterator. -/
def rewritten (clauses : List ForClause) (choice : List CoverageName) (rasql : List Char) : List Char :=
  (clauses.zip choice).foldl (fun rasql p =>
    if p.1.IsMultipart then replaceAll (updateName p.1.coverageIterator) p.2.text rasql else rasql) rasql

variable {clause : ForClause} {clauses : List ForClause} {defaultRasql template : List Char}
  {stack acc : List (List Char)}

theorem pushEach_entry : pushEach clause.entry stack template =
    (clause.coverageNames.map fun name =>
      replaceAll (updateName clause.coverageIterator) name.text template).reverse ++ stack := by
  rw [pushEach, ForClause.entry, List.foldl_map]
  exact List.foldl_flip_cons_eq_append

theorem foldl_pushEach_perm : (stack.foldl (pushEach clause.entry) acc).Perm
    ((stack.flatMap fun template => clause.coverageNames.map fun name =>
      replaceAll (updateName clause.coverageIterator) name.text template) ++ acc) := by
  induction stack generalizing acc with
  | nil => exact .refl _
  | cons template stack ih =>
    rw [List.foldl_cons, List.flatMap_cons]
    refine ih.trans ?_
    rw [pushEach_entry, List.append_assoc]
    refine (List.perm_append_comm_assoc _ _ _).trans ?_
    exact (List.reverse_perm _).append_right _

/-- The queries that come of some, for one iterator after the other. -/
def expanded (clauses : List ForClause) (template : List Char) : List (List Char) :=
  (combinations (clauses.map ForClause.coverageNames)).map fun choice => rewritten clauses choice template

theorem combinations_cons {α : Type} (l : List α) (ls : List (List α)) :
    combinations (l :: ls) = l.flatMap fun a => (combinations ls).map (a :: ·) := rfl

theorem expanded_cons_of_isMultipart (h : clause.IsMultipart) : expanded (clause :: clauses) template =
    clause.coverageNames.flatMap fun name =>
      expanded clauses (replaceAll (updateName clause.coverageIterator) name.text template) := by
  rw [expanded, List.map_cons, combinations_cons, List.map_flatMap]
  refine List.flatMap_congr fun name _ => ?_
  rw [List.map_map, expanded]
  refine List.map_congr_left fun choice _ => ?_
  rw [Function.comp_apply, rewritten, List.zip_cons_cons, List.foldl_cons, if_pos h, rewritten]

theorem expanded_cons_of_not_isMultipart (h : ¬ clause.IsMultipart) :
    expanded (clause :: clauses) template = expanded clauses template := by
  obtain ⟨name, names, hnames⟩ := List.exists_cons_of_ne_nil clause.ne_nil
  have hnil : names = [] := by
    rw [ForClause.IsMultipart, hnames, List.length_cons] at h
    exact List.length_eq_zero_iff.mp (by omega)
  rw [expanded, List.map_cons, combinations_cons, hnames, hnil, List.flatMap_singleton, List.map_map, expanded]
  refine List.map_congr_left fun choice _ => ?_
  rw [Function.comp_apply, rewritten, List.zip_cons_cons, List.foldl_cons, if_neg h, rewritten]

theorem rewriteLoop_cons (isFirstIterator : Bool) (entry : List Char × List (List Char))
    (registry : CoverageAliasRegistry) : rewriteLoop defaultRasql isFirstIterator stack (entry :: registry) =
      if 1 < entry.2.length then
        if isFirstIterator then rewriteLoop defaultRasql false (pushEach entry stack defaultRasql) registry
        else rewriteLoop defaultRasql false (stack.foldl (pushEach entry) []) registry
      else rewriteLoop defaultRasql isFirstIterator stack registry := rfl

theorem rewriteLoop_false_perm : (rewriteLoop defaultRasql false stack (clauses.map ForClause.entry)).Perm
    (stack.flatMap (expanded clauses)) := by
  induction clauses generalizing stack with
  | nil =>
    have hself : expanded [] = fun template => [template] := rfl
    rw [hself, List.flatMap_singleton']
    exact .refl _
  | cons clause clauses ih =>
    rw [List.map_cons, rewriteLoop_cons]
    by_cases h : clause.IsMultipart
    · rw [if_pos (clause.two_le_of_isMultipart_entry.mpr h), if_neg Bool.false_ne_true]
      refine ih.trans ((foldl_pushEach_perm.flatMap_right _).trans ?_)
      rw [List.append_nil, List.flatMap_assoc]
      refine List.Perm.of_eq (List.flatMap_congr fun template _ => ?_)
      rw [expanded_cons_of_isMultipart h, List.flatMap_map]
    · rw [if_neg (mt clause.two_le_of_isMultipart_entry.mp h)]
      refine ih.trans (.of_eq (List.flatMap_congr fun template _ => ?_))
      rw [expanded_cons_of_not_isMultipart h]

theorem rewriteLoop_true_perm (h : isMultiPart (clauses.map ForClause.entry)) :
    (rewriteLoop defaultRasql true [] (clauses.map ForClause.entry)).Perm
      (expanded clauses defaultRasql) := by
  induction clauses with
  | nil => cases h
  | cons clause clauses ih =>
    rw [List.map_cons, rewriteLoop_cons]
    by_cases hc : clause.IsMultipart
    · rw [if_pos (clause.two_le_of_isMultipart_entry.mpr hc), if_pos rfl, pushEach_entry, List.append_nil]
      refine rewriteLoop_false_perm.trans (((List.reverse_perm _).flatMap_right _).trans ?_)
      rw [List.flatMap_map, expanded_cons_of_isMultipart hc]
    · have hentry := mt clause.two_le_of_isMultipart_entry.mp hc
      rw [if_neg hentry, expanded_cons_of_not_isMultipart hc]
      rw [List.map_cons, isMultiPart, List.any_cons, decide_eq_false hentry, Bool.false_or] at h
      exact ih h

/-- **The queries are the default query after the replacements** for every combination. -/
theorem rewriteQuery_perm : (rewriteQuery (clauses.map ForClause.entry) defaultRasql).Perm
    (expanded clauses defaultRasql) := by
  rw [rewriteQuery]
  split
  next h => exact rewriteLoop_true_perm h
  next h =>
    have hnone : ∀ clause ∈ clauses, ¬ clause.IsMultipart := fun clause hmem hc =>
      h (List.any_eq_true.mpr ⟨clause.entry, List.mem_map_of_mem hmem,
        decide_eq_true (clause.two_le_of_isMultipart_entry.mpr hc)⟩)
    clear h
    induction clauses with
    | nil => exact .refl _
    | cons clause clauses ih =>
      rw [expanded_cons_of_not_isMultipart (hnone clause List.mem_cons_self)]
      exact ih fun c hc => hnone c (List.mem_cons_of_mem _ hc)

end RasqlRewriteMultipartQueriesService

/-! ## A query and its parts -/

/-- An iterator with its collection, in the FROM clause. -/
def fromItem (p : ForClause × List Char) : List Char := p.2 ++ (" AS ".toList ++ p.1.letters)

/-- A query: the return clause, the iterators with their collections and the where clause. -/
def compose (returnText : List Char) (items : List (ForClause × List Char)) (whereText : List Char) :
    List Char :=
  returnText ++ ("FROM ".toList ++ [','].intercalate (items.map fromItem)) ++ whereText

theorem intercalate_cons (a : List Char) (l : List (List Char)) :
    [','].intercalate (a :: l) = a ++ l.flatMap (',' :: ·) := by
  induction l generalizing a with
  | nil => simp
  | cons b l ih => rw [List.intercalate_cons_cons, ih, List.flatMap_cons, List.append_assoc]; rfl

section Parts

variable {u x s rest returnText whereText : List Char} {p : ForClause × List Char}
  {items : List (ForClause × List Char)}

/-- What is sought begins with `$` and has no blank. -/
structure IsPlaceholder (u : List Char) : Prop where
  head : ∃ v, u = '$' :: v
  blank : ' ' ∉ u

theorem isPlaceholder_updateName (clause : ForClause) :
    IsPlaceholder (RasqlRewriteMultipartQueriesService.updateName clause.coverageIterator) := by
  refine ⟨⟨_, rfl⟩, ?_⟩
  have hletters : ' ' ∉ clause.letters := fun h => absurd (clause.isNameChar _ h) (by decide)
  rw [RasqlRewriteMultipartQueriesService.updateName, List.mem_append, List.mem_cons, ForClause.coverageIterator]
  rintro (h | h | h)
  · exact absurd h (by decide)
  · exact absurd h (by decide)
  · split at h
    · exact hletters ((List.mem_cons.mp h).resolve_left (by decide))
    · exact hletters h

theorem replaceAll_fromItem (hu : IsPlaceholder u) :
    replaceAll u x (fromItem p ++ rest) = fromItem (p.1, replaceAll u x p.2) ++ replaceAll u x rest := by
  obtain ⟨⟨v, rfl⟩, hblank⟩ := hu
  have hletters : '$' ∉ "AS ".toList ++ p.1.letters := by
    rw [List.mem_append, not_or]
    exact ⟨by decide, p.1.dollar_notMem⟩
  have hitem : fromItem p ++ rest = p.2 ++ ' ' :: ("AS ".toList ++ p.1.letters ++ rest) := by
    simp [fromItem]
  rw [hitem, replaceAll_append_cons (List.cons_ne_nil _ _) hblank, replaceAll_append_of_notMem hletters]
  simp [fromItem]

theorem replaceAll_items (hu : IsPlaceholder u) :
    replaceAll u x ((items.map fromItem).flatMap (',' :: ·) ++ rest) =
      ((items.map fun p => (p.1, replaceAll u x p.2)).map fromItem).flatMap (',' :: ·) ++
        replaceAll u x rest := by
  induction items with
  | nil => rfl
  | cons p items ih =>
    have hcomma : ¬ u <+: ',' :: (fromItem p ++ ((items.map fromItem).flatMap (',' :: ·) ++ rest)) := by
      obtain ⟨⟨v, rfl⟩, -⟩ := hu
      exact fun h => absurd (List.cons_prefix_cons.mp h).1 (by decide)
    rw [List.map_cons, List.flatMap_cons, List.append_assoc, List.cons_append, replaceAll_cons hcomma,
      replaceAll_fromItem hu, ih, List.map_cons, List.map_cons, List.flatMap_cons, List.append_assoc,
      List.cons_append]

/-- **A replacement works on each part of a query.** -/
theorem replaceAll_compose (hu : IsPlaceholder u) (hreturn : ∃ s, returnText = s ++ [' ']) :
    replaceAll u x (compose returnText items whereText) =
      compose (replaceAll u x returnText) (items.map fun p => (p.1, replaceAll u x p.2))
        (replaceAll u x whereText) ∧ ∃ s, replaceAll u x returnText = s ++ [' '] := by
  obtain ⟨s, rfl⟩ := hreturn
  have hne : u ≠ [] := by
    obtain ⟨⟨v, rfl⟩, -⟩ := hu
    exact List.cons_ne_nil _ _
  have hs : replaceAll u x (s ++ [' ']) = replaceAll u x s ++ [' '] := replaceAll_append_cons hne hu.blank
  have hfrom : ∀ rest, replaceAll u x ("FROM ".toList ++ rest) = "FROM ".toList ++ replaceAll u x rest := by
    obtain ⟨⟨v, rfl⟩, -⟩ := hu
    exact fun rest => replaceAll_append_of_notMem (by decide)
  have hitems : replaceAll u x ([','].intercalate (items.map fromItem) ++ whereText) =
      [','].intercalate ((items.map fun p => (p.1, replaceAll u x p.2)).map fromItem) ++
        replaceAll u x whereText := by
    cases items with
    | nil => rfl
    | cons p items =>
      rw [List.map_cons, List.map_cons, List.map_cons, intercalate_cons, intercalate_cons,
        List.append_assoc, List.append_assoc, replaceAll_fromItem hu, replaceAll_items hu]
  refine ⟨?_, _, hs⟩
  rw [compose, compose, hs, List.append_assoc, List.append_assoc, List.append_assoc, List.append_assoc,
    List.append_assoc, List.singleton_append, replaceAll_append_cons hne hu.blank, hfrom, hitems,
    List.singleton_append, List.append_assoc]

end Parts

/-! ## A text that a replacement changes -/

/-- Up to some `$` the texts agree; there the second one has something else. -/
def Diverges (s s' : List Char) : Prop := ∃ a b d b', s = a ++ '$' :: b ∧ s' = a ++ d :: b' ∧ d ≠ '$'

section Diverges

variable {s s' u : List Char} {x : CoverageName}

theorem Diverges.append_ne (h : Diverges s s') (y z : List Char) : s' ++ y ≠ s ++ z := by
  obtain ⟨a, b, d, b', rfl, rfl, hd⟩ := h
  rw [List.append_assoc, List.append_assoc, Ne, List.append_right_inj, List.cons_append, List.cons_append]
  exact fun h => hd (List.cons.inj h).1

theorem CoverageName.exists_cons (x : CoverageName) : ∃ d t, x.text = d :: t ∧ d ≠ '$' := by
  obtain ⟨d, t, ht⟩ := List.exists_cons_of_ne_nil x.ne_nil
  refine ⟨d, t, ht, ?_⟩
  rintro rfl
  exact absurd (x.isNameChar '$' (ht ▸ List.mem_cons_self)) (by decide)

theorem diverges_of_present (hu : IsPlaceholder u) (h : u <:+: s) : Diverges s (replaceAll u x.text s) := by
  obtain ⟨⟨v, rfl⟩, -⟩ := hu
  obtain ⟨a, b, rfl, hrep⟩ := replaceAll_of_present (v := x.text) (List.cons_ne_nil _ _) h
  obtain ⟨d, t, ht, hd⟩ := x.exists_cons
  exact ⟨a, v ++ b, d, t ++ replaceAll _ _ b, rfl, by rw [hrep, ht, List.cons_append], hd⟩

/-- A replacement in a text in front of something else than `$`. -/
theorem replaceAll_append_cons_of_ne (hu : IsPlaceholder u) (a : List Char) {d : Char} (hd : d ≠ '$')
    (b : List Char) : (∃ b', replaceAll u x.text (a ++ d :: b) = a ++ d :: b') ∨
      Diverges a (replaceAll u x.text (a ++ d :: b)) := by
  obtain ⟨⟨v, rfl⟩, -⟩ := hu
  induction a with
  | nil => exact .inl ⟨_, replaceAll_cons fun h => hd (List.cons_prefix_cons.mp h).1.symm⟩
  | cons c a ih =>
    by_cases hp : '$' :: v <+: c :: (a ++ d :: b)
    · obtain ⟨t, ht⟩ := hp
      obtain ⟨rfl, -⟩ := List.cons.inj ht
      obtain ⟨e, y, hy, he⟩ := x.exists_cons
      have hrep := replaceAll_self_append (v := x.text) (s := t) (List.cons_ne_nil '$' v)
      have htail : ∀ r, x.text ++ r = e :: (y ++ r) := fun r => by rw [hy, List.cons_append]
      rw [ht, htail] at hrep
      exact .inr ⟨[], a, e, _, rfl, hrep, he⟩
    · rw [List.cons_append, replaceAll_cons hp]
      refine ih.imp (fun ⟨b', hb'⟩ => ⟨b', by rw [hb', List.cons_append]⟩) ?_
      rintro ⟨a', b₁, e, b₂, rfl, hs', he⟩
      exact ⟨c :: a', b₁, e, b₂, rfl, by rw [hs', List.cons_append], he⟩

/-- **Further replacements do not bring a text back.** -/
theorem Diverges.replaceAll (h : Diverges s s') (hu : IsPlaceholder u) :
    Diverges s (replaceAll u x.text s') := by
  obtain ⟨a, b, d, b', rfl, rfl, hd⟩ := h
  obtain ⟨b'', hb''⟩ | ⟨a', b₁, e, b₂, rfl, hs', he⟩ := replaceAll_append_cons_of_ne (x := x) hu a hd b'
  · exact ⟨a, b, d, b'', rfl, hb'', hd⟩
  · exact ⟨a', b₁ ++ '$' :: b, e, b₂, by simp, hs', he⟩

end Diverges

/-! ## The replacements for one combination -/

section Replaced

open RasqlRewriteMultipartQueriesService

variable {clauses : List ForClause} {χ : ForClause → CoverageName} {s : List Char}

/-- A text after the replacements for the coverages that `χ` takes. -/
def replaced (clauses : List ForClause) (χ : ForClause → CoverageName) (s : List Char) : List Char :=
  clauses.foldl (fun s clause =>
    if clause.IsMultipart then replaceAll (updateName clause.coverageIterator) (χ clause).text s else s) s

theorem rewritten_map : rewritten clauses (clauses.map χ) s = replaced clauses χ s := by
  rw [rewritten, ← List.map_prod_left_eq_zip, List.foldl_map, replaced]

/-- Something that a replacement is sought for occurs in the text. -/
def Occurs (clauses : List ForClause) (s : List Char) : Prop :=
  ∃ clause ∈ clauses, clause.IsMultipart ∧ updateName clause.coverageIterator <:+: s

theorem diverges_replaced_of_diverges {s₀ : List Char} (h : Diverges s₀ s) :
    Diverges s₀ (replaced clauses χ s) := by
  induction clauses generalizing s with
  | nil => exact h
  | cons clause clauses ih =>
    rw [replaced, List.foldl_cons]
    refine ih ?_
    split
    · exact h.replaceAll (isPlaceholder_updateName clause)
    · exact h

theorem replaced_eq_of_not_occurs (h : ¬ Occurs clauses s) : replaced clauses χ s = s := by
  induction clauses with
  | nil => rfl
  | cons clause clauses ih =>
    have hrest : replaced clauses χ s = s := ih fun ⟨c, hc, hocc⟩ => h ⟨c, List.mem_cons_of_mem _ hc, hocc⟩
    rw [replaced, List.foldl_cons]
    split
    next hm =>
      rw [replaceAll_of_absent fun hin => h ⟨clause, List.mem_cons_self, hm, hin⟩]
      exact hrest
    next => exact hrest

theorem diverges_replaced (h : Occurs clauses s) : Diverges s (replaced clauses χ s) := by
  induction clauses with
  | nil =>
    obtain ⟨c, hc, -⟩ := h
    cases hc
  | cons clause clauses ih =>
    rw [replaced, List.foldl_cons]
    by_cases hhere : clause.IsMultipart ∧ updateName clause.coverageIterator <:+: s
    · rw [if_pos hhere.1]
      exact diverges_replaced_of_diverges (diverges_of_present (isPlaceholder_updateName clause) hhere.2)
    · have hrest : Occurs clauses s := by
        obtain ⟨c, hc, hocc⟩ := h
        rcases List.mem_cons.mp hc with rfl | hc
        · exact absurd hocc hhere
        · exact ⟨c, hc, hocc⟩
      split
      next hm =>
        rw [replaceAll_of_absent fun hin => hhere ⟨hm, hin⟩]
        exact ih hrest
      next => exact ih hrest

/-- Texts without `$` stay. -/
theorem replaced_of_notMem (h : '$' ∉ s) : replaced clauses χ s = s := by
  refine replaced_eq_of_not_occurs ?_
  rintro ⟨clause, -, -, hin⟩
  exact h (hin.subset List.mem_cons_self)

theorem updateName_prefix_iff {a b : List Char} : updateName a <+: updateName b ↔ a <+: b := by
  rw [updateName, updateName, List.prefix_append_right_inj, List.cons_prefix_cons]
  exact and_iff_right rfl

/-- Another placeholder, which the one of an iterator does not begin. -/
theorem replaceAll_updateName {key letters x : List Char} (h : '$' ∉ letters) (hp : ¬ key <+: letters) :
    replaceAll (updateName key) x (updateName letters) = updateName letters := by
  have hcons : ∀ l, updateName l = '$' :: ("collectionName_".toList ++ l) := fun _ => rfl
  have htail : '$' ∉ "collectionName_".toList ++ letters := by
    rw [List.mem_append, not_or]
    exact ⟨by decide, h⟩
  have hne := mt updateName_prefix_iff.mp hp
  rw [hcons, hcons] at hne
  rw [hcons, hcons, replaceAll_cons hne, replaceAll_of_notMem htail]

/-- **A placeholder** becomes a coverage of the first iterator whose placeholder it begins with, and what
is left of it. -/
theorem replaced_placeholder {letters : List Char} (h : '$' ∉ letters) :
    replaced clauses χ (updateName letters) =
      match clauses.find? fun other => other.IsMultipart ∧ other.coverageIterator <+: letters with
      | some other => (χ other).text ++ letters.drop other.coverageIterator.length
      | none => updateName letters := by
  induction clauses with
  | nil => rfl
  | cons clause clauses ih =>
    rw [replaced, List.foldl_cons]
    by_cases hp : clause.IsMultipart ∧ clause.coverageIterator <+: letters
    · rw [List.find?_cons_of_pos (by simpa using hp), if_pos hp.1]
      obtain ⟨t, rfl⟩ := hp.2
      have ht : '$' ∉ t := fun hmem => h (List.mem_append_right _ hmem)
      have hx : '$' ∉ (χ clause).text := fun hmem => absurd ((χ clause).isNameChar _ hmem) (by decide)
      have hsplit : updateName (clause.coverageIterator ++ t) = updateName clause.coverageIterator ++ t := by
        rw [updateName, updateName, List.append_assoc, List.cons_append]
      have hrest : replaceAll (updateName clause.coverageIterator) (χ clause).text t = t :=
        replaceAll_of_notMem ht
      have hdone : replaced clauses χ ((χ clause).text ++ t) = (χ clause).text ++ t :=
        replaced_of_notMem (by simp [hx, ht])
      dsimp only
      rw [hsplit, replaceAll_self_append (u := updateName clause.coverageIterator) (List.cons_ne_nil _ _),
        hrest, List.drop_left]
      exact hdone
    · rw [List.find?_cons_of_neg (by simpa using hp), ← ih]
      split
      next hm =>
        rw [replaceAll_updateName h (mt (And.intro hm) hp)]
        rfl
      next => rfl

/-- **The query for a combination**, part by part. -/
theorem replaced_compose {returnText whereText : List Char} {items : List (ForClause × List Char)}
    (hreturn : ∃ s, returnText = s ++ [' ']) :
    replaced clauses χ (compose returnText items whereText) =
      compose (replaced clauses χ returnText) (items.map fun p => (p.1, replaced clauses χ p.2))
        (replaced clauses χ whereText) := by
  induction clauses generalizing returnText whereText items with
  | nil => simp [replaced]
  | cons clause clauses ih =>
    have hcons : ∀ s, replaced (clause :: clauses) χ s = replaced clauses χ
        (if clause.IsMultipart then replaceAll (updateName clause.coverageIterator) (χ clause).text s
          else s) := fun _ => rfl
    simp only [hcons]
    by_cases hm : clause.IsMultipart
    · obtain ⟨hcompose, hs⟩ := @replaceAll_compose _ (χ clause).text _ whereText items
        (isPlaceholder_updateName clause) hreturn
      simp only [if_pos hm]
      rw [hcompose, ih hs, List.map_map]
      rfl
    · simp only [if_neg hm]
      exact ih hreturn

end Replaced

/-! ## The templates -/

theorem replaceAll_template {a b p x : List Char} (ha : '$' ∉ a) (hb : '$' ∉ b) :
    replaceAll ('$' :: p) x (a ++ ('$' :: p ++ b)) = a ++ (x ++ b) := by
  rw [replaceAll_append_of_notMem ha, replaceAll_self_append (List.cons_ne_nil _ _), replaceAll_of_notMem hb]

theorem ForClauseHandler.handle_eq (clause : ForClause) :
    ForClauseHandler.handle clause = fromItem (clause, ForClauseHandler.collection clause) := by
  have hfirst : replaceAll "$iterator".toList clause.letters TEMPLATE =
      [] ++ (COLLECTION_NAME ++ (" AS ".toList ++ clause.letters)) := by
    have htemplate : TEMPLATE = '$' :: ("collectionName AS ".toList ++ ("$iterator".toList ++ [])) := by decide
    rw [htemplate, replaceAll_cons (by decide)]
    refine (congrArg _ (replaceAll_template (by decide) List.not_mem_nil)).trans ?_
    rw [List.append_nil]
    rfl
  have hafter : '$' ∉ " AS ".toList ++ clause.letters := by
    rw [List.mem_append, not_or]
    exact ⟨by decide, clause.dollar_notMem⟩
  rw [handle, clause.translatedCoverageIterator_eq, hfirst]
  exact replaceAll_template List.not_mem_nil hafter

theorem ForClauseListHandler.handle_eq (rasqls : List (List Char)) :
    ForClauseListHandler.handle rasqls = "FROM ".toList ++ [','].intercalate rasqls := by
  have h := replaceAll_template (a := "FROM ".toList) (b := []) (p := "forClausesList".toList)
    (x := [','].intercalate rasqls) (by decide) List.not_mem_nil
  rw [List.append_nil, List.append_nil] at h
  exact h

namespace WcpsQuery

variable (q : WcpsQuery)

theorem returnText_eq : q.returnText = "SELECT ".toList ++ (q.processingExpression ++ [' ']) :=
  replaceAll_template (a := "SELECT ".toList) (b := [' ']) (p := "processingExpression".toList) (by decide)
    (by decide)

theorem defaultRasql_eq : q.defaultRasql = compose q.returnText
    (q.forClauseList.map fun clause => (clause, ForClauseHandler.collection clause)) q.whereText := by
  have hitems : q.forClauseList.map ForClauseHandler.handle =
      (q.forClauseList.map fun clause => (clause, ForClauseHandler.collection clause)).map fromItem := by
    rw [List.map_map]
    exact List.map_congr_left fun clause _ => ForClauseHandler.handle_eq clause
  rw [defaultRasql, ForClauseListHandler.handle_eq, hitems, compose]

theorem rasqlFor_map (χ : ForClause → CoverageName) : q.rasqlFor (q.forClauseList.map χ) =
    compose q.returnText (q.forClauseList.map fun clause => (clause, (χ clause).text)) q.whereText := by
  rw [rasqlFor, ← List.map_prod_left_eq_zip, List.map_map, compose, List.map_map]
  rfl

end WcpsQuery

/-! ## Two queries with the same iterators -/

section Equal

variable {clauses : List ForClause} {f g : ForClause → List Char} {returnText returnText' rest rest' : List Char}

theorem fromItem_append_inj {clause : ForClause} {a b : List Char} (ha : ' ' ∉ a) (hb : ' ' ∉ b) :
    fromItem (clause, a) ++ rest = fromItem (clause, b) ++ rest' ↔ a = b ∧ rest = rest' := by
  have hitem : ∀ c r, fromItem (clause, c) ++ r = c ++ ' ' :: ("AS ".toList ++ clause.letters ++ r) :=
    fun c r => by simp [fromItem]
  rw [hitem, hitem, append_cons_inj ha hb, List.append_right_inj]

theorem items_append_inj (hf : ∀ c ∈ clauses, ' ' ∉ f c) (hg : ∀ c ∈ clauses, ' ' ∉ g c) :
    ((clauses.map fun c => (c, g c)).map fromItem).flatMap (',' :: ·) ++ rest' =
        ((clauses.map fun c => (c, f c)).map fromItem).flatMap (',' :: ·) ++ rest ↔
      (∀ c ∈ clauses, g c = f c) ∧ rest' = rest := by
  induction clauses with
  | nil => simp
  | cons c clauses ih =>
    rw [List.forall_mem_cons] at hf hg
    rw [List.map_cons, List.map_cons, List.map_cons, List.map_cons, List.flatMap_cons, List.flatMap_cons,
      List.append_assoc, List.append_assoc, List.cons_append, List.cons_append, List.cons_inj_right,
      fromItem_append_inj hg.1 hf.1, ih hf.2 hg.2, List.forall_mem_cons, and_assoc]

/-- **Two queries with the same iterators are equal part by part.** -/
theorem compose_eq_iff (hf : ∀ c ∈ clauses, ' ' ∉ f c) (hg : ∀ c ∈ clauses, ' ' ∉ g c)
    (hreturn : returnText' = returnText ∨ Diverges returnText returnText') :
    compose returnText' (clauses.map fun c => (c, g c)) rest' =
        compose returnText (clauses.map fun c => (c, f c)) rest ↔
      returnText' = returnText ∧ (∀ c ∈ clauses, g c = f c) ∧ rest' = rest := by
  rw [compose, compose, List.append_assoc, List.append_assoc returnText, List.append_assoc "FROM ".toList,
    List.append_assoc "FROM ".toList]
  rcases hreturn with rfl | hdiverges
  · rw [List.append_right_inj, List.append_right_inj]
    refine Iff.trans ?_ (and_iff_right rfl).symm
    cases clauses with
    | nil => simp
    | cons c clauses =>
      rw [List.forall_mem_cons] at hf hg
      rw [List.map_cons, List.map_cons, List.map_cons, List.map_cons, intercalate_cons, intercalate_cons,
        List.append_assoc, List.append_assoc, fromItem_append_inj hg.1 hf.1, items_append_inj hf.2 hg.2,
        List.forall_mem_cons, and_assoc]
  · refine iff_of_false (hdiverges.append_ne _ _) fun h => ?_
    exact hdiverges.append_ne [] [] (by rw [h.1])

end Equal

/-! ## Combinations as functions -/

theorem map_mem_combinations {clauses : List ForClause} {χ : ForClause → CoverageName}
    (h : ∀ c ∈ clauses, χ c ∈ c.coverageNames) :
    clauses.map χ ∈ combinations (clauses.map ForClause.coverageNames) := by
  induction clauses with
  | nil => exact List.mem_singleton_self _
  | cons c clauses ih =>
    rw [List.forall_mem_cons] at h
    exact List.mem_flatMap.mpr ⟨χ c, h.1, List.mem_map_of_mem (ih h.2)⟩

theorem exists_of_mem_combinations {clauses : List ForClause} (hnodup : clauses.Nodup)
    {choice : List CoverageName} (h : choice ∈ combinations (clauses.map ForClause.coverageNames)) :
    ∃ χ : ForClause → CoverageName, (∀ c ∈ clauses, χ c ∈ c.coverageNames) ∧ choice = clauses.map χ := by
  classical
  induction clauses generalizing choice with
  | nil =>
    refine ⟨fun c => c.coverageNames.head c.ne_nil, List.forall_mem_nil _, ?_⟩
    exact List.mem_singleton.mp h
  | cons c clauses ih =>
    rw [List.nodup_cons] at hnodup
    obtain ⟨x, hx, hchoice⟩ := List.mem_flatMap.mp h
    obtain ⟨choice', hmem, rfl⟩ := List.mem_map.mp hchoice
    obtain ⟨χ, hχ, rfl⟩ := ih hnodup.2 hmem
    have hsame : ∀ c' ∈ clauses, Function.update χ c x c' = χ c' := fun c' hc' =>
      Function.update_of_ne (ne_of_mem_of_not_mem hc' hnodup.1) _ _
    refine ⟨Function.update χ c x, List.forall_mem_cons.mpr ⟨?_, fun c' hc' => ?_⟩, ?_⟩
    · rw [Function.update_self]
      exact hx
    · rw [hsame c' hc']
      exact hχ c' hc'
    · rw [List.map_cons, Function.update_self, List.map_congr_left hsame]

/-! ## The main result -/

section Main

open RasqlRewriteMultipartQueriesService

variable {clauses : List ForClause} {clause other : ForClause} {χ χ' : ForClause → CoverageName}

theorem CoverageName.notMem (x : CoverageName) {c : Char} (h : Petascope.isNameChar c = false) : c ∉ x.text :=
  fun hmem => Bool.false_ne_true (h.symm.trans (x.isNameChar _ hmem))

theorem ForClause.notMem (clause : ForClause) {c : Char} (h : Petascope.isNameChar c = false) :
    c ∉ clause.letters :=
  fun hmem => Bool.false_ne_true (h.symm.trans (clause.isNameChar _ hmem))

theorem collection_of_isMultipart (h : clause.IsMultipart) :
    ForClauseHandler.collection clause = updateName clause.letters := by
  rw [ForClauseHandler.collection, if_pos h, clause.translatedCoverageIterator_eq, updateName]

theorem replaced_collection_of_not_isMultipart (h : ¬ clause.IsMultipart)
    (hχ : χ' clause ∈ clause.coverageNames) :
    replaced clauses χ (ForClauseHandler.collection clause) = (χ' clause).text := by
  obtain ⟨name, names, hnames⟩ := List.exists_cons_of_ne_nil clause.ne_nil
  have hnil : names = [] := by
    rw [ForClause.IsMultipart, hnames, List.length_cons] at h
    exact List.length_eq_zero_iff.mp (by omega)
  have hname : χ' clause = name := by
    rw [hnames, hnil] at hχ
    exact List.mem_singleton.mp hχ
  have hcollection : ForClauseHandler.collection clause = name.text := by
    rw [ForClauseHandler.collection, if_neg h]
    simp only [hnames, List.head_cons]
  rw [hcollection, hname, replaced_of_notMem (name.notMem (by decide))]

theorem blank_notMem_replaced_collection :
    ' ' ∉ replaced clauses χ (ForClauseHandler.collection clause) := by
  by_cases h : clause.IsMultipart
  · rw [collection_of_isMultipart h, replaced_placeholder (clause.dollar_notMem)]
    split
    · rw [List.mem_append, not_or]
      exact ⟨CoverageName.notMem _ (by decide), fun hmem => clause.notMem (by decide) (List.mem_of_mem_drop hmem)⟩
    · rw [updateName, List.mem_append, List.mem_cons, not_or, not_or]
      exact ⟨by decide, by decide, clause.notMem (by decide)⟩
  · rw [@replaced_collection_of_not_isMultipart _ _ _ (fun c => c.coverageNames.head c.ne_nil) h
      (List.head_mem _)]
    exact CoverageName.notMem _ (by decide)

theorem replaced_eq_or_diverges (s : List Char) :
    replaced clauses χ s = s ∨ Diverges s (replaced clauses χ s) := by
  by_cases h : Occurs clauses s
  · exact .inr (diverges_replaced h)
  · exact .inl (replaced_eq_of_not_occurs h)

theorem replaced_eq_iff (s : List Char) : replaced clauses χ s = s ↔ ¬ Occurs clauses s := by
  refine ⟨fun heq h => ?_, replaced_eq_of_not_occurs⟩
  exact (diverges_replaced (χ := χ) h).append_ne [] [] (by rw [heq])

/-- **The query that is made for one combination is the one wanted for another.** -/
theorem replaced_defaultRasql_eq_iff (q : WcpsQuery) :
    replaced q.forClauseList χ' q.defaultRasql = q.rasqlFor (q.forClauseList.map χ) ↔
      ¬ Occurs q.forClauseList q.returnText ∧
        (∀ c ∈ q.forClauseList,
          replaced q.forClauseList χ' (ForClauseHandler.collection c) = (χ c).text) ∧
        ¬ Occurs q.forClauseList q.whereText := by
  have hreturn : ∃ s, q.returnText = s ++ [' '] :=
    ⟨"SELECT ".toList ++ q.processingExpression, by rw [q.returnText_eq, List.append_assoc]⟩
  rw [q.defaultRasql_eq, replaced_compose hreturn, q.rasqlFor_map, List.map_map]
  refine (compose_eq_iff (fun c _ => (χ c).notMem (by decide)) (fun c _ => blank_notMem_replaced_collection)
    (replaced_eq_or_diverges _)).trans ?_
  rw [replaced_eq_iff, replaced_eq_iff]

/-- An iterator whose placeholder another one's begins with, and which is the first, is the first for its
own placeholder. -/
theorem find?_self (h : (clauses.find? fun other =>
    other.IsMultipart ∧ other.coverageIterator <+: clause.letters) = some other) :
    other.coverageIterator = other.letters ∧ other.IsMultipart ∧ other ∈ clauses ∧
      (clauses.find? fun o => o.IsMultipart ∧ o.coverageIterator <+: other.letters) = some other := by
  obtain ⟨hp, as, bs, hsplit, has⟩ := List.find?_eq_some_iff_append.mp h
  obtain ⟨hm, hbegins⟩ := of_decide_eq_true hp
  have hletters : other.coverageIterator = other.letters := by
    rw [ForClause.coverageIterator]
    split
    next hd =>
      rw [ForClause.coverageIterator, if_pos hd] at hbegins
      exact absurd (hbegins.subset List.mem_cons_self) clause.dollar_notMem
    next => rfl
  refine ⟨hletters, hm, ?_, List.find?_eq_some_iff_append.mpr ⟨?_, as, bs, hsplit, fun a ha => ?_⟩⟩
  · rw [hsplit]
    exact List.mem_append_right _ List.mem_cons_self
  · exact decide_eq_true ⟨hm, by rw [hletters]⟩
  · have hnot := has a ha
    simp only [Bool.not_eq_true', decide_eq_false_iff_not] at hnot ⊢
    exact fun ⟨ham, hap⟩ => hnot ⟨ham, hap.trans (hletters ▸ hbegins)⟩

/-- Where the placeholders are found, every combination comes out as it should. -/
theorem WcpsQuery.PlaceholdersFound.replaced_collection {q : WcpsQuery} (h : q.PlaceholdersFound)
    (hχ : ∀ c ∈ q.forClauseList, χ c ∈ c.coverageNames) :
    ∀ c ∈ q.forClauseList, replaced q.forClauseList χ (ForClauseHandler.collection c) = (χ c).text := by
  intro c hc
  by_cases hm : c.IsMultipart
  · obtain ⟨other, hfind, hother⟩ := h.fromText c hc hm
    obtain ⟨hletters, -, hmem, -⟩ := find?_self hfind
    rw [collection_of_isMultipart hm, replaced_placeholder c.dollar_notMem, hfind]
    dsimp only
    rcases hother with rfl | hsame
    · rw [hletters, List.drop_length, List.append_nil]
    · exact hsame _ (hχ other hmem) _ (hχ c hc)
  · exact replaced_collection_of_not_isMultipart hm (hχ c hc)

/-- What the collection of an iterator says about the choice it comes from. -/
theorem choice_of_replaced_collection (hfind : (clauses.find? fun other =>
      other.IsMultipart ∧ other.coverageIterator <+: clause.letters) = some other)
    (hm : clause.IsMultipart)
    (h : ∀ c ∈ clauses, replaced clauses χ' (ForClauseHandler.collection c) = (χ c).text)
    (hc : clause ∈ clauses) :
    (χ other).text ++ clause.letters.drop other.coverageIterator.length = (χ clause).text := by
  obtain ⟨hletters, hom, hmem, hself⟩ := find?_self hfind
  have hown := h other hmem
  rw [collection_of_isMultipart hom, replaced_placeholder other.dollar_notMem, hself] at hown
  dsimp only at hown
  rw [hletters, List.drop_length, List.append_nil] at hown
  have hother := h clause hc
  rw [collection_of_isMultipart hm, replaced_placeholder clause.dollar_notMem, hfind] at hother
  rw [← hown]
  exact hother

/-- A combination with given coverages of two iterators. -/
theorem exists_choice {x y : CoverageName} (hne : other ≠ clause) (hx : x ∈ other.coverageNames)
    (hy : y ∈ clause.coverageNames) :
    ∃ χ : ForClause → CoverageName, (∀ c, χ c ∈ c.coverageNames) ∧ χ other = x ∧ χ clause = y := by
  classical
  have hupdate : ∀ {χ : ForClause → CoverageName} {d : ForClause} {z : CoverageName},
      (∀ c, χ c ∈ c.coverageNames) → z ∈ d.coverageNames → ∀ c, Function.update χ d z c ∈ c.coverageNames := by
    intro χ d z hχ hz c
    by_cases hc : c = d
    · subst hc
      rw [Function.update_self]
      exact hz
    · rw [Function.update_of_ne hc]
      exact hχ c
  refine ⟨_, hupdate (hupdate (χ := fun c => c.coverageNames.head c.ne_nil) (fun c => List.head_mem _) hx) hy,
    ?_, Function.update_self _ _ _⟩
  rw [Function.update_of_ne hne, Function.update_self]

/-- **Multipart queries expand to the product of the coverage lists** exactly where every placeholder is
found where it belongs, and only there. -/
theorem expandsToProduct_iff (q : WcpsQuery) (hn : (q.forClauseList.map ForClause.coverageIterator).Nodup) :
    q.ExpandsToProduct ↔ q.PlaceholdersFound := by
  have hnodup : q.forClauseList.Nodup := hn.of_map _
  have hregistry : q.registry = q.forClauseList.map ForClause.entry :=
    @CoverageAliasRegistry.foldl_register [] q.forClauseList hn
  rw [WcpsQuery.ExpandsToProduct, hregistry]
  constructor
  · intro hperm
    -- a query wanted is a query made, for some combination
    have hmade : ∀ χ : ForClause → CoverageName, (∀ c ∈ q.forClauseList, χ c ∈ c.coverageNames) →
        ∃ χ', replaced q.forClauseList χ' q.defaultRasql = q.rasqlFor (q.forClauseList.map χ) := by
      intro χ hχ
      have hwanted : q.rasqlFor (q.forClauseList.map χ) ∈ q.choices.map q.rasqlFor :=
        List.mem_map_of_mem (map_mem_combinations hχ)
      obtain ⟨choice, hmem, heq⟩ := List.mem_map.mp
        ((rewriteQuery_perm.mem_iff (a := q.rasqlFor (q.forClauseList.map χ))).mp (hperm.mem_iff.mpr hwanted))
      obtain ⟨χ', -, rfl⟩ := exists_of_mem_combinations hnodup hmem
      exact ⟨χ', rewritten_map.symm.trans heq⟩
    have hfirst : ∀ c ∈ q.forClauseList, (fun c : ForClause => c.coverageNames.head c.ne_nil) c ∈
        c.coverageNames := fun c _ => List.head_mem _
    obtain ⟨χ₀, h₀⟩ := hmade _ hfirst
    obtain ⟨hreturn, hfrom, hwhere⟩ := (replaced_defaultRasql_eq_iff q).mp h₀
    refine ⟨fun c hc hm hin => hreturn ⟨c, hc, hm, hin⟩, fun c hc hm hin => hwhere ⟨c, hc, hm, hin⟩, ?_⟩
    intro c hc hm
    cases hfind : q.forClauseList.find? fun other =>
        other.IsMultipart ∧ other.coverageIterator <+: c.letters with
    | none =>
      have hcollection := hfrom c hc
      rw [collection_of_isMultipart hm, replaced_placeholder c.dollar_notMem, hfind] at hcollection
      exact absurd (hcollection ▸ List.mem_cons_self) ((c.coverageNames.head c.ne_nil).notMem (c := '$') rfl)
    | some other =>
      refine ⟨other, rfl, or_iff_not_imp_left.mpr fun hne x hx y hy => ?_⟩
      obtain ⟨χ, hχ, rfl, rfl⟩ := exists_choice hne hx hy
      obtain ⟨χ', hχ'⟩ := hmade χ fun c' _ => hχ c'
      exact choice_of_replaced_collection hfind hm ((replaced_defaultRasql_eq_iff q).mp hχ').2.1 hc
  · intro h
    have hsame : expanded q.forClauseList q.defaultRasql = q.choices.map q.rasqlFor := by
      refine List.map_congr_left fun choice hmem => ?_
      obtain ⟨χ, hχ, rfl⟩ := exists_of_mem_combinations hnodup hmem
      rw [rewritten_map]
      refine (replaced_defaultRasql_eq_iff q).mpr ⟨?_, h.replaced_collection hχ, ?_⟩
      · rintro ⟨c, hc, hm, hin⟩
        exact h.returnText c hc hm hin
      · rintro ⟨c, hc, hm, hin⟩
        exact h.whereText c hc hm hin
    rw [← hsame]
    exact rewriteQuery_perm

def coverageMr : CoverageName := ⟨['m', 'r'], by simp, by simp [isNameChar]⟩

def coverageRgb : CoverageName := ⟨['r', 'g', 'b'], by simp, by simp [isNameChar]⟩

/-- `for c in (mr, rgb), d in (mr, rgb) return c+d`. -/
def withoutDollar : WcpsQuery :=
  ⟨[⟨false, ['c'], by simp [isNameChar], [coverageMr, coverageRgb], by simp⟩,
    ⟨false, ['d'], by simp [isNameChar], [coverageMr, coverageRgb], by simp⟩], none, ['c', '+', 'd']⟩

theorem expandsToProduct_withoutDollar : withoutDollar.ExpandsToProduct := by
  refine (expandsToProduct_iff withoutDollar (by decide)).mpr ⟨by decide, by decide, fun c hc _ => ⟨c, ?_, .inl rfl⟩⟩
  rcases List.mem_pair.mp hc with rfl | rfl
  · exact List.find?_cons_of_pos (by decide)
  · rw [withoutDollar, List.find?_cons_of_neg (by decide)]
    exact List.find?_cons_of_pos (by decide)

/-- `for $c in (mr, rgb) return $c`. -/
def withDollar : WcpsQuery :=
  ⟨[⟨true, ['c'], by simp [isNameChar], [coverageMr, coverageRgb], by simp⟩], none, ['c']⟩

/-- **An iterator with `$`** keeps its placeholder in both queries. -/
theorem not_expandsToProduct_withDollar :
    rewriteQuery withDollar.registry withDollar.defaultRasql =
        ["SELECT c FROM $collectionName_c AS c".toList, "SELECT c FROM $collectionName_c AS c".toList] ∧
      ¬ withDollar.ExpandsToProduct := by
  have hrun : rewriteQuery withDollar.registry withDollar.defaultRasql =
      ["SELECT c FROM $collectionName_c AS c".toList, "SELECT c FROM $collectionName_c AS c".toList] := by
    decide
  have hwanted : "SELECT c FROM mr AS c".toList ∈ withDollar.choices.map withDollar.rasqlFor := by decide
  refine ⟨hrun, fun h => ?_⟩
  have hmem := h.mem_iff.mpr hwanted
  rw [hrun] at hmem
  exact absurd hmem (by decide)

end Main

end Petascope

end Rasdaman
