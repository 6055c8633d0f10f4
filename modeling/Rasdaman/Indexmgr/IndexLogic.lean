import Rasdaman.Indexmgr.SRPTSearch

/-!
# Indexmgr/IndexLogic — the index behind an MDD object

`MDDObjIx` calls its index through five function pointers.  `IndexLogic` is that interface;
`IndexLaws` says what the functions do in terms of the tiles stored, as far as areas fit the 64-bit
counters.  The directory index, persistent (`DBHierIndex`) or transient (`TransDirIx`), and the
R+-tree are instances.
-/

namespace Rasdaman

open SDirIndexLogic

/-- What a `KeyObject` carries: the id of a persistent object, or a pointer to a transient tile. -/
inductive Ref where
  | pers (oid : OId)
  | trans (ptr : ℕ)
  deriving DecidableEq

/-- `getObject().getOId()`; the id of a transient tile is the invalid one. -/
def Ref.getOId : Ref → OId
  | .pers oid => oid
  | .trans _ => 0

/-- `getTransObject()`. -/
def Ref.getTransObject : Ref → Option ℕ
  | .pers _ => none
  | .trans ptr => some ptr

/-- A key object of a tile. -/
abbrev Entry (d : ℕ) := KeyObject d Ref

/-- The function pointers of `MDDObjIx`, with the index they work on. -/
structure IndexLogic (d : ℕ) where
  State : Type
  persistent : Bool
  empty : State
  /-- `do_insertObj`, with a bound on the rounds of splitting. -/
  insertObj : ℕ → State → Entry d → Option (Except RError State)
  removeObj : State → Entry d → State × Bool
  intersect : State → Box d → Except RError (List (Entry d))
  pointQuery : State → Point d → Option (Entry d)
  getObjs : State → Except RError (List (Entry d))

/-- Tiles without those of one object. -/
def without {d : ℕ} (S : List (Entry d)) (r : Ref) : List (Entry d) := S.filter fun e => e.object ≠ r

/-- What an index promises about the stored tiles `S`. -/
structure IndexLaws {d : ℕ} (L : IndexLogic d) where
  /-- The index holds the tiles. -/
  Holds : L.State → List (Entry d) → Prop
  /-- The insertion of a tile wraps no area counter, and cuts no node outside its domain. -/
  InsertFits : L.State → Entry d → Prop
  /-- A search does not wrap an area counter. -/
  SearchFits : L.State → Box d → Prop
  /-- The tile can be told from the other tiles of the index when it is removed. -/
  RemoveFits : Entry d → Prop
  holds_empty : Holds L.empty []
  holds_insert : ∀ {s s' : L.State} {S : List (Entry d)} {k : Entry d} {fuel : ℕ}, Holds s S →
    (L.persistent = true → ∃ oid, k.object = .pers oid) → (∀ e ∈ S, e.object ≠ k.object) →
    (∀ e ∈ S, ¬ e.domain.Intersects k.domain) → InsertFits s k →
    L.insertObj fuel s k = some (.ok s') → Holds s' (k :: S)
  insert_ne_error : ∀ {s : L.State} {S : List (Entry d)} {k : Entry d} {fuel : ℕ} {e : RError},
    Holds s S → InsertFits s k → L.insertObj fuel s k ≠ some (.error e)
  holds_remove : ∀ {s : L.State} {S : List (Entry d)} {k : Entry d}, Holds s S → k ∈ S →
    RemoveFits k → Holds (L.removeObj s k).1 (without S k.object)
  intersect_exact : ∀ {s : L.State} {S : List (Entry d)} {q : Box d}, Holds s S → SearchFits s q →
    ∃ r, L.intersect s q = .ok r ∧ ∀ e, e ∈ r ↔ e ∈ S ∧ e.domain.Intersects q
  pointQuery_exact : ∀ {s : L.State} {S : List (Entry d)}, Holds s S → ∀ p : Point d,
    PointAnswer S p (L.pointQuery s p)
  getObjs_subset : ∀ {s : L.State} {S : List (Entry d)} {r : List (Entry d)}, Holds s S →
    L.getObjs s = .ok r → ∀ e ∈ r, e ∈ S

/-! ## The directory index -/

namespace DirIndex

variable {d : ℕ}

/-- `insertObject`; the first tile gives a fresh index its domain. -/
def insertObj (s : Option (HierIndex d Ref)) (k : Entry d) : Option (HierIndex d Ref) :=
  match s with
  | none => some ⟨0, k.domain, [k]⟩
  | some ix => some (SDirIndexLogic.insertObject ix k)

/-- `removeObject`: the first entry with the same object goes. -/
def removeObj (same : Ref → Ref → Bool) (s : Option (HierIndex d Ref)) (k : Entry d) :
    Option (HierIndex d Ref) × Bool :=
  match s with
  | none => (none, false)
  | some ix =>
    (some { ix with myKeyObjects := ix.myKeyObjects.eraseP fun e => same e.object k.object },
      ix.myKeyObjects.any fun e => same e.object k.object)

/-- `getObjects`. -/
def entries (s : Option (HierIndex d Ref)) : List (Entry d) :=
  (s.map (·.myKeyObjects)).getD []

/-- A directory index whose `removeObject` compares objects with `same`. -/
def logic (d : ℕ) (persistent : Bool) (same : Ref → Ref → Bool) : IndexLogic d where
  State := Option (HierIndex d Ref)
  persistent := persistent
  empty := none
  insertObj := fun _ s k => some (.ok (insertObj s k))
  removeObj := removeObj same
  intersect := fun s q => match s with
    | none => .ok []
    | some ix => SDirIndexLogic.intersect ix q
  pointQuery := fun s p => s.bind fun ix => SDirIndexLogic.containPointQuery ix p
  getObjs := fun s => .ok (entries s)

/-- `DBHierIndex::removeObject` compares object ids. -/
def sameOId (a b : Ref) : Bool := a.getOId == b.getOId

/-- `TransDirIx::removeObject` compares tile pointers. -/
def sameTransObject (a b : Ref) : Bool := a.getTransObject == b.getTransObject

/-- The state of a directory index that holds tiles. -/
structure Holds (persistent : Bool) (s : Option (HierIndex d Ref)) (S : List (Entry d)) : Prop where
  sorted : SortedByLow (entries s)
  perm : (entries s).Perm S
  covers : ∀ ix, s = some ix → ∀ k ∈ S, ix.myDomain.Covers k.domain
  nodup : (S.map (·.object)).Nodup
  disjoint : S.Pairwise fun a b => ¬ a.domain.Intersects b.domain
  pers : persistent = true → ∀ k ∈ S, ∃ oid, k.object = .pers oid

variable {persistent : Bool} {s : Option (HierIndex d Ref)} {S : List (Entry d)} {k : Entry d}

theorem holds_insert (h : Holds persistent s S)
    (hpers : persistent = true → ∃ oid, k.object = .pers oid) (hfresh : ∀ e ∈ S, e.object ≠ k.object)
    (hdisj : ∀ e ∈ S, ¬ e.domain.Intersects k.domain) : Holds persistent (insertObj s k) (k :: S) := by
  have hnodup : ((k :: S).map (·.object)).Nodup := by
    rw [List.map_cons, List.nodup_cons]
    refine ⟨fun hmem => ?_, h.nodup⟩
    obtain ⟨e, he, heq⟩ := List.mem_map.mp hmem
    exact hfresh e he heq
  have hdisj' : (k :: S).Pairwise fun a b => ¬ a.domain.Intersects b.domain :=
    List.pairwise_cons.mpr ⟨fun e he hi => hdisj e he hi.symm, h.disjoint⟩
  have hpers' : persistent = true → ∀ e ∈ k :: S, ∃ oid, e.object = .pers oid := fun hp =>
    List.forall_mem_cons.mpr ⟨hpers hp, h.pers hp⟩
  match s, h with
  | none, h =>
    obtain rfl : S = [] := List.nil_perm.mp h.perm
    refine ⟨List.pairwise_singleton .., .refl _, fun ix hix e he => ?_, hnodup, hdisj', hpers'⟩
    cases hix
    obtain rfl := List.mem_singleton.mp he
    exact .refl _
  | some ix, h =>
    refine ⟨insertObject_sorted ix k h.sorted, (insertObject_perm ix k h.sorted).trans (h.perm.cons k),
      fun ix' hix e he => ?_, hnodup, hdisj', hpers'⟩
    cases hix
    rw [insertObject_myDomain]
    by_cases hnil : ix.myKeyObjects = []
    · -- An emptied index takes the domain of the first new tile.
      have hS : S = [] := List.nil_perm.mp (hnil ▸ h.perm)
      rw [hS] at he
      obtain rfl := List.mem_singleton.mp he
      simp only [hnil, List.isEmpty_nil, if_true]
      exact .refl _
    · simp only [List.isEmpty_eq_false_iff.mpr hnil, Bool.false_eq_true, if_false]
      rcases List.mem_cons.mp he with rfl | he
      · exact Box.closureWith_covers_right _ _
      · exact (Box.closureWith_covers_left _ _).trans (h.covers ix rfl e he)

theorem holds_remove {same : Ref → Ref → Bool} (h : Holds persistent s S)
    (hsame : ∀ e ∈ S, same e.object k.object = true ↔ e.object = k.object) :
    Holds persistent (removeObj same s k).1 (without S k.object) := by
  have hnodup : ((without S k.object).map (·.object)).Nodup :=
    h.nodup.sublist (List.filter_sublist.map _)
  have hpers : persistent = true → ∀ e ∈ without S k.object, ∃ oid, e.object = .pers oid :=
    fun hp e he => h.pers hp e (List.mem_of_mem_filter he)
  match s, h with
  | none, h =>
    obtain rfl : S = [] := List.nil_perm.mp h.perm
    exact ⟨.nil, .nil, fun _ hix => (by cases hix), hnodup, .nil, hpers⟩
  | some ix, h =>
    have hperm : ix.myKeyObjects.Perm S := h.perm
    have hone : ix.myKeyObjects.Pairwise fun a b =>
        ¬ (same a.object k.object = true ∧ same b.object k.object = true) := by
      have hnd := List.pairwise_map.mp ((hperm.map (·.object)).nodup_iff.mpr h.nodup)
      refine hnd.imp_of_mem fun {a b} ha hb hab hk => hab ?_
      rw [(hsame a (hperm.mem_iff.mp ha)).mp hk.1, (hsame b (hperm.mem_iff.mp hb)).mp hk.2]
    refine ⟨h.sorted.sublist List.eraseP_sublist, ?_, fun ix' hix e he => ?_, hnodup,
      h.disjoint.filter _, hpers⟩
    · refine List.Perm.trans (.of_eq (eraseP_eq_filter hone)) ?_
      refine (hperm.filter _).trans (.of_eq (List.filter_congr fun e he => ?_))
      by_cases heq : e.object = k.object
      · have hy : same e.object k.object = true := (hsame e he).mpr heq
        simp [hy, decide_eq_false (not_not.mpr heq)]
      · have hn : same e.object k.object = false := by
          rw [← Bool.not_eq_true]
          exact fun ht => heq ((hsame e he).mp ht)
        simp [heq, hn]
    · cases hix
      exact h.covers ix rfl e (List.mem_of_mem_filter he)

/-- A search of the directory does not wrap its area counter. -/
def SearchFits (s : Option (HierIndex d Ref)) (q : Box d) : Prop :=
  ∀ ix, s = some ix → overlap ix.myDomain q < areaModulus

theorem intersect_exact {same : Ref → Ref → Bool} {q : Box d} (h : Holds persistent s S)
    (hq : SearchFits s q) :
    ∃ r, (logic d persistent same).intersect s q = .ok r ∧
      ∀ e, e ∈ r ↔ e ∈ S ∧ e.domain.Intersects q := by
  match s, h, hq with
  | none, h, _ =>
    obtain rfl : S = [] := List.nil_perm.mp h.perm
    exact ⟨[], rfl, by simp⟩
  | some ix, h, hq =>
    have hperm : ix.myKeyObjects.Perm S := h.perm
    obtain ⟨r, hr, hfound⟩ := intersect_perm ix q h.sorted
      (h.disjoint.perm hperm.symm fun hn hi => hn hi.symm)
      (fun e he => h.covers ix rfl e (hperm.mem_iff.mp he)) (hq ix rfl)
    refine ⟨r, hr, fun e => ?_⟩
    rw [hfound.mem_iff, List.mem_filter, hperm.mem_iff, decide_eq_true_eq]

theorem pointQuery_exact {same : Ref → Ref → Bool} (h : Holds persistent s S) (p : Point d) :
    PointAnswer S p ((logic d persistent same).pointQuery s p) := by
  match s, h with
  | none, h =>
    obtain rfl : S = [] := List.nil_perm.mp h.perm
    exact ⟨by simp [logic], by simp⟩
  | some ix, h =>
    have hperm : ix.myKeyObjects.Perm S := h.perm
    obtain ⟨hsome, hnone⟩ := SDirIndexLogic.containPointQuery_spec ix h.sorted p
    exact ⟨fun e he => ⟨hperm.mem_iff.mp (hsome e he).1, (hsome e he).2⟩,
      fun hr e he => hnone hr e (hperm.mem_iff.mpr he)⟩

/-- **The laws of a directory index** whose comparison tells the removable tiles apart. -/
def laws (persistent : Bool) (same : Ref → Ref → Bool) (removable : Ref → Prop)
    (hsame : ∀ a b, removable b → (persistent = true → (∃ o, a = .pers o) ∧ ∃ o, b = .pers o) →
      (same a b = true ↔ a = b)) : IndexLaws (logic d persistent same) where
  Holds := Holds persistent
  InsertFits := fun _ _ => True
  SearchFits := SearchFits
  RemoveFits := fun k => removable k.object
  holds_empty := ⟨.nil, .nil, fun _ hix => (by cases hix), List.nodup_nil, .nil, by simp⟩
  holds_insert := fun h hpers hfresh hdisj _ hrun => by
    cases hrun
    exact holds_insert h hpers hfresh hdisj
  insert_ne_error := fun _ _ hrun => by cases hrun
  holds_remove := fun h hk hrem => holds_remove h fun e he =>
    hsame _ _ hrem fun hp => ⟨h.pers hp e he, h.pers hp _ hk⟩
  intersect_exact := intersect_exact
  pointQuery_exact := pointQuery_exact
  getObjs_subset := fun h hrun e he => by
    cases hrun
    exact h.perm.mem_iff.mp he

end DirIndex

/-- The directory index of a persistent object. -/
def persistentDirIndex (d : ℕ) : IndexLogic d := DirIndex.logic d true DirIndex.sameOId

/-- Every tile of a persistent index can be removed. -/
def persistentDirLaws (d : ℕ) : IndexLaws (persistentDirIndex d) :=
  DirIndex.laws true DirIndex.sameOId (fun _ => True) fun a b _ hp => by
    obtain ⟨⟨o₁, rfl⟩, o₂, rfl⟩ := hp rfl
    simp [DirIndex.sameOId, Ref.getOId]

/-- The directory index of a transient object. -/
def transientDirIndex (d : ℕ) : IndexLogic d := DirIndex.logic d false DirIndex.sameTransObject

/-- A transient index compares tile pointers, which all persistent tiles lack. -/
def transientDirLaws (d : ℕ) : IndexLaws (transientDirIndex d) :=
  DirIndex.laws false DirIndex.sameTransObject (fun r => ∃ ptr, r = .trans ptr) fun a b hb _ => by
    obtain ⟨ptr, rfl⟩ := hb
    cases a <;> simp [DirIndex.sameTransObject, Ref.getTransObject]

/-! ## The R+-tree -/

namespace RPlusTree

variable {d : ℕ}

/-- The tile of an entry of a leaf. -/
def lift (k : KeyObject d OId) : Entry d := ⟨.pers k.object, k.domain⟩

/-- The entry of a leaf for a tile. -/
def lower (e : Entry d) : KeyObject d OId := ⟨e.object.getOId, e.domain⟩

/-- The R+-tree behind an MDD object. -/
def logic (d : ℕ) (cap : Capacity) : IndexLogic d where
  State := Index d
  persistent := true
  empty := Index.empty d
  insertObj := fun fuel s k => SRPTIndexLogic.insertObject2 cap fuel s (lower k)
  removeObj := fun s k => SRPTIndexLogic.removeObject2 s (lower k)
  intersect := fun s q => (SRPTIndexLogic.intersect2 s q).map (·.map lift)
  pointQuery := fun s p => (SRPTIndexLogic.containPointQuery2 s p).map lift
  getObjs := fun s => (SRPTIndexLogic.getObjects s).map (·.map lift)

theorem lift_lower {e : Entry d} (h : ∃ oid, e.object = .pers oid) : lift (lower e) = e := by
  obtain ⟨obj, dom⟩ := e
  obtain ⟨oid, rfl⟩ := h
  rfl

/-- The tree holds tiles. -/
def Holds (s : Index d) (S : List (Entry d)) : Prop := ∃ T, S = T.map lift ∧ s.Sound T

/-- **The laws of the R+-tree.** -/
def laws (d : ℕ) (cap : Capacity) : IndexLaws (logic d cap) where
  Holds := Holds
  InsertFits := fun s k => InsertFits cap s (lower k)
  SearchFits := SearchFits
  RemoveFits := fun _ => True
  holds_empty := ⟨[], rfl, (Run.empty : Run cap (InsertFits cap) _ _).sound⟩
  holds_insert := fun {s s' S k fuel} h hpers hfresh hdisj hfits hrun => by
    obtain ⟨T, rfl, hT⟩ := h
    have hk := lift_lower (hpers rfl)
    refine ⟨lower k :: T, by rw [List.map_cons, hk], ?_⟩
    refine hT.insert hfits.1 (fun e he heq => ?_) (fun e he => hdisj _ (List.mem_map_of_mem he)) hrun
    refine hfresh _ (List.mem_map_of_mem he) ?_
    rw [← hk]
    exact congrArg Ref.pers heq
  insert_ne_error := fun h hfits => by
    obtain ⟨T, rfl, hT⟩ := h
    exact insertObject2_ne_error hT.wf hT.contains hfits
  holds_remove := fun {s S k} h hk _ => by
    obtain ⟨T, rfl, hT⟩ := h
    obtain ⟨t, ht, rfl⟩ := List.mem_map.mp hk
    refine ⟨removeStored T t, ?_, hT.remove fun e he heq =>
      List.inj_on_of_nodup_map hT.nodup he ht heq⟩
    rw [without, removeStored, List.filter_map]
    congr 1
    exact List.filter_congr fun e _ => by simp [lift]
  intersect_exact := fun {s S q} h hq => by
    obtain ⟨T, rfl, hT⟩ := h
    obtain ⟨found, hrun, hperm⟩ := intersect2_perm hT hq
    refine ⟨found.map lift, by simp only [logic, hrun]; rfl, fun e => ?_⟩
    rw [List.mem_map, List.mem_map]
    constructor
    · rintro ⟨k, hk, rfl⟩
      obtain ⟨hkT, hkq⟩ := List.mem_filter.mp (hperm.mem_iff.mp hk)
      exact ⟨⟨k, hkT, rfl⟩, of_decide_eq_true hkq⟩
    · rintro ⟨⟨k, hk, rfl⟩, hkq⟩
      exact ⟨k, hperm.mem_iff.mpr (List.mem_filter.mpr ⟨hk, decide_eq_true hkq⟩), rfl⟩
  pointQuery_exact := fun {s S} h p => by
    obtain ⟨T, rfl, hT⟩ := h
    obtain ⟨hsome, hnone⟩ := containPointQuery2_ok hT.wf hT.contains p
    refine ⟨fun e he => ?_, fun hr e he => ?_⟩
    · obtain ⟨k, hk, rfl⟩ := Option.map_eq_some_iff.mp he
      exact ⟨List.mem_map_of_mem (hsome k hk).1, (hsome k hk).2⟩
    · obtain ⟨k, hk, rfl⟩ := List.mem_map.mp he
      exact hnone (Option.map_eq_none_iff.mp hr) k hk
  getObjs_subset := fun {s S r} h hrun e he => by
    obtain ⟨T, rfl, hT⟩ := h
    match hobj : SRPTIndexLogic.getObjects s with
    | .error err => simp [logic, hobj, Except.map] at hrun
    | .ok found =>
      simp only [logic, hobj, Except.map, Except.ok.injEq] at hrun
      subst hrun
      obtain ⟨k, hk, rfl⟩ := List.mem_map.mp he
      exact List.mem_map_of_mem (getObjects_subset hT.wf hobj k hk)

end RPlusTree

end Rasdaman

/-!
## Insertions and removals in a directory index

A **run** starts with an empty `TransDirIx` or `DBHierIndex` and applies `insertObject` and
`removeObject` in any order, the stored domains disjoint throughout.

`containPointQuery_run` — after every run the entries are sorted by their low corners, and
`containPointQuery` answers with the one entry that covers the point, or with none.
-/

namespace Rasdaman

namespace DirIndex

open SDirIndexLogic

variable {d : ℕ} {persistent : Bool} {same : Ref → Ref → Bool} {s : Option (HierIndex d Ref)}
variable {k : Entry d}

/-- A run.  `same` is how `removeObject` tells the entry it was asked for: by its id in a `DBHierIndex`, by
its pointer in a `TransDirIx`. -/
inductive Run (same : Ref → Ref → Bool) : Option (HierIndex d Ref) → Prop
  | empty : Run same none
  | insertObject {s : Option (HierIndex d Ref)} {k : Entry d} : Run same s →
      (∀ e ∈ entries s, ¬ e.domain.Intersects k.domain) → Run same (insertObj s k)
  | removeObject {s : Option (HierIndex d Ref)} {k : Entry d} : Run same s →
      Run same (removeObj same s k).1

/-! ## One step -/

/-- A removal takes out the first entry that is the same. -/
theorem entries_removeObj : entries (removeObj same s k).1
    = (entries s).eraseP fun e => same e.object k.object := by
  cases s <;> rfl

/-- An insertion into a sorted index adds its entry and no other. -/
theorem entries_insertObj_perm (hsort : SortedByLow (entries s)) :
    (entries (insertObj s k)).Perm (k :: entries s) := by
  cases s with
  | none => exact .refl _
  | some ix => exact insertObject_perm ix k hsort

theorem sortedByLow_insertObj (hsort : SortedByLow (entries s)) :
    SortedByLow (entries (insertObj s k)) := by
  cases s with
  | none => exact List.pairwise_singleton ..
  | some ix => exact insertObject_sorted ix k hsort

/-- The position of an insertion is one that `TransDirIx::insertObject` does not refuse. -/
theorem binarySearch_bounds (hsort : SortedByLow (entries s)) :
    0 ≤ binarySearch k.domain (entries s).length (entries s) + 1 ∧
      binarySearch k.domain (entries s).length (entries s) + 1 ≤ (entries s).length := by
  obtain ⟨l, u, hes, hlen, -, -⟩ := binarySearch_spec k.domain _ _ le_rfl hsort
  have hle : l.length ≤ (entries s).length := by
    rw [hes, List.length_append]
    exact Nat.le_add_right ..
  omega

/-! ## Runs -/

/-- What every run keeps: the order, and that no two entries share a cell. -/
structure Ordered (s : Option (HierIndex d Ref)) : Prop where
  sorted : SortedByLow (entries s)
  disjoint : (entries s).Pairwise fun a b => ¬ a.domain.Intersects b.domain

theorem Ordered.insertObj (h : Ordered s) (hk : ∀ e ∈ entries s, ¬ e.domain.Intersects k.domain) :
    Ordered (insertObj s k) := by
  have hcons : (k :: entries s).Pairwise fun a b => ¬ a.domain.Intersects b.domain :=
    List.pairwise_cons.mpr ⟨fun e he hi => hk e he hi.symm, h.disjoint⟩
  exact ⟨sortedByLow_insertObj h.sorted,
    hcons.perm (entries_insertObj_perm h.sorted).symm fun hn hi => hn hi.symm⟩

theorem Ordered.removeObj (h : Ordered s) : Ordered (removeObj same s k).1 := by
  have hsub : (entries (DirIndex.removeObj same s k).1).Sublist (entries s) := by
    rw [entries_removeObj]
    exact List.eraseP_sublist
  exact ⟨h.sorted.sublist hsub, h.disjoint.sublist hsub⟩

theorem Run.ordered (h : Run same s) : Ordered s := by
  induction h with
  | empty => exact ⟨.nil, .nil⟩
  | insertObject _ hk ih => exact ih.insertObj hk
  | removeObject _ ih => exact ih.removeObj

/-- Of disjoint entries a point is covered by one at most. -/
theorem eq_of_covers {es : List (Entry d)} {p : Point d}
    (hdisj : es.Pairwise fun a b => ¬ a.domain.Intersects b.domain) {a b : Entry d} (ha : a ∈ es)
    (hb : b ∈ es) (hpa : p ∈ a.domain) (hpb : p ∈ b.domain) : a = b := by
  by_contra hne
  have hsymm : Std.Symm fun a b : Entry d => ¬ a.domain.Intersects b.domain :=
    ⟨fun _ _ hn hi => hn hi.symm⟩
  exact hdisj.forall ha hb hne (.of_mem hpa hpb)

/-- A point query of an ordered index. -/
theorem Ordered.pointQuery (h : Ordered s) (p : Point d) :
    (∀ e ∈ entries s, p ∈ e.domain → (logic d persistent same).pointQuery s p = some e) ∧
      ((∀ e ∈ entries s, p ∉ e.domain) → (logic d persistent same).pointQuery s p = none) := by
  have hanswer : PointAnswer (entries s) p ((logic d persistent same).pointQuery s p) := by
    cases s with
    | none => exact ⟨by simp [logic], by simp [entries]⟩
    | some ix => exact SDirIndexLogic.containPointQuery_spec ix h.sorted p
  obtain ⟨hsome, hnone⟩ := hanswer
  cases hquery : (logic d persistent same).pointQuery s p with
  | none => exact ⟨fun e he hpe => absurd hpe (hnone hquery e he), fun _ => rfl⟩
  | some e =>
    obtain ⟨he, hpe⟩ := hsome e hquery
    exact ⟨fun e' he' hpe' => by rw [eq_of_covers h.disjoint he he' hpe hpe'],
      fun hno => absurd hpe (hno e he)⟩

/-- **The point query of a directory index.**  After every run the entries are sorted by their low corners,
so that an insertion finds a position in the list and adds its entry there; a removal takes out the first
entry that is the same; and `containPointQuery` answers with the stored entry that covers the point if there
is one, and leaves its result alone otherwise. -/
theorem containPointQuery_run (h : Run same s) :
    SortedByLow (entries s) ∧
      (∀ k : Entry d, (entries (insertObj s k)).Perm (k :: entries s)) ∧
      (∀ k : Entry d, binarySearch k.domain (entries s).length (entries s) + 1
        ∈ Set.Icc (0 : ℤ) (entries s).length) ∧
      (∀ k : Entry d, entries (removeObj same s k).1
        = (entries s).eraseP fun e => same e.object k.object) ∧
      ∀ p : Point d,
        (∀ e ∈ entries s, p ∈ e.domain → (logic d persistent same).pointQuery s p = some e) ∧
        ((∀ e ∈ entries s, p ∉ e.domain) → (logic d persistent same).pointQuery s p = none) :=
  ⟨h.ordered.sorted, fun _ => entries_insertObj_perm h.ordered.sorted,
    fun _ => binarySearch_bounds h.ordered.sorted, fun _ => entries_removeObj, h.ordered.pointQuery⟩

/-- Two transient tiles, the upper one stored first, and the lower one removed again. -/
def twoTiles : Entry 1 × Entry 1 :=
  (⟨.trans 1, ⟨![4], ![7], by decide⟩⟩, ⟨.trans 2, ⟨![-3], ![3], by decide⟩⟩)

theorem containPointQuery_run_twoTiles :
    (transientDirIndex 1).pointQuery (insertObj (insertObj none twoTiles.1) twoTiles.2) ![-1]
        = some twoTiles.2 ∧
      (transientDirIndex 1).pointQuery (removeObj sameTransObject
        (insertObj (insertObj none twoTiles.1) twoTiles.2) twoTiles.2).1 ![-1] = none := by
  have hone : Run sameTransObject (insertObj none twoTiles.1) :=
    .insertObject .empty (by simp [entries])
  have hrun : Run sameTransObject (insertObj (insertObj none twoTiles.1) twoTiles.2) := by
    refine .insertObject hone ?_
    simp only [insertObj, entries, Option.map_some, Option.getD_some, List.mem_singleton, forall_eq]
    decide
  refine ⟨((containPointQuery_run hrun).2.2.2.2 ![-1]).1 _ ?_ (by decide),
    ((containPointQuery_run (.removeObject hrun)).2.2.2.2 ![-1]).2 ?_⟩
  · exact (entries_insertObj_perm hone.ordered.sorted).mem_iff.mpr List.mem_cons_self
  · decide

end DirIndex

end Rasdaman
