import Rasdaman.Indexmgr.SRPTInvariant

/-!
# Indexmgr/SRPTSplit — splitting keeps the R+-tree invariant

A cut divides a domain along one axis.  `Halves` is what every split promises, whatever the height
of the node that is split: two well-formed nodes that tile its domain, one on each side of the cut.
`splitEntry_halves` proves it for leaves and, by induction on the height, for the downward splits of
`splitNonLeaf`; `splitUnder_wellFormed` and `splitNodes_wellFormed` carry it up to the root.
`KeepsLeaves` goes with them: no split loses a leaf, and only leaves of the index wait to be split.
-/

namespace Rasdaman

open ExceptFold SDirIndexLogic SRPTIndexLogic

variable {d h : ℕ} {S : List (KeyObject d OId)} {next : OId} {cut : Cut} {cap : Capacity}

/-- The points on the lower side of a cut. -/
def Below (cut : Cut) (p : Point d) : Prop := ∃ h : cut.axis < d, p ⟨cut.axis, h⟩ < cut.value

/-- The two parts of a domain are its cells on either side of the cut. -/
theorem splitDomain_mem {dom nd1 nd2 : Box d} (hs : splitDomain dom cut = .ok (nd1, nd2))
    (p : Point d) : (p ∈ nd1 ↔ p ∈ dom ∧ Below cut p) ∧ (p ∈ nd2 ↔ p ∈ dom ∧ ¬ Below cut p) := by
  unfold splitDomain at hs
  split at hs
  · next hax =>
    obtain ⟨a, ha, hs⟩ := bind_eq_ok hs
    obtain ⟨b, hb, hs⟩ := bind_eq_ok hs
    cases hs
    have hlow := Box.low_le_of_setHigh ha
    have hhigh := Box.le_high_of_setLow hb
    have hbelow : Below cut p ↔ p ⟨cut.axis, hax⟩ < cut.value :=
      ⟨fun ⟨_, hp⟩ => hp, fun hp => ⟨hax, hp⟩⟩
    rw [Box.mem_of_setHigh ha (by omega), Box.mem_of_setLow hb (by omega), hbelow, not_lt,
      Int.le_sub_one_iff]
    exact ⟨Iff.rfl, Iff.rfl⟩
  · cases hs

/-- Two well-formed nodes that tile a domain, one on either side of the cut. -/
structure Halves (S : List (KeyObject d OId)) (next : OId) (cut : Cut) (dom : Box d)
    (n1 n2 : Tree d h) : Prop where
  mem₁ : ∀ p, p ∈ n1.myDomain ↔ p ∈ dom ∧ Below cut p
  mem₂ : ∀ p, p ∈ n2.myDomain ↔ p ∈ dom ∧ ¬ Below cut p
  wf₁ : WellFormed S next h n1
  wf₂ : WellFormed S next h n2

namespace Halves

variable {dom : Box d} {n1 n2 : Tree d h}

theorem mem_iff (hh : Halves S next cut dom n1 n2) (p : Point d) :
    p ∈ dom ↔ p ∈ n1.myDomain ∨ p ∈ n2.myDomain := by
  rw [hh.mem₁, hh.mem₂]
  by_cases hb : Below cut p <;> simp [hb]

theorem disjoint (hh : Halves S next cut dom n1 n2) (p : Point d) (hp : p ∈ n1.myDomain) :
    p ∉ n2.myDomain := fun hp' => ((hh.mem₂ p).mp hp').2 ((hh.mem₁ p).mp hp).2

end Halves

/-! ## The leaves below a node

A leaf that waits to be split is looked up in its parent, so the leaves must stay in the index. -/

/-- The ids of the leaves of an index. -/
def leaves (ix : Tree d h) : Set OId := {leaf | containsLeaf leaf h ix = true}

/-- The ids of the leaves below some entries. -/
def leavesOf (es : List (KeyObject d (Tree d h))) : Set OId := {leaf | ∃ e ∈ es, leaf ∈ leaves e.object}

theorem mem_leavesOf {es : List (KeyObject d (Tree d h))} {leaf : OId} :
    leaf ∈ leavesOf es ↔ ∃ e ∈ es, leaf ∈ leaves e.object := Iff.rfl

theorem leaves_zero (ix : Tree d 0) : leaves (h := 0) ix = {ix.myOId} := by
  ext leaf
  rw [Set.mem_singleton_iff, eq_comm]
  exact beq_iff_eq

theorem leaves_succ (ix : Tree d (h + 1)) : leaves (h := h + 1) ix = leavesOf ix.myKeyObjects := by
  ext leaf
  exact List.any_eq_true

@[simp] theorem leavesOf_nil : leavesOf ([] : List (KeyObject d (Tree d h))) = ∅ := by
  ext leaf
  simp [leavesOf]

@[simp] theorem leavesOf_cons (e : KeyObject d (Tree d h)) (es : List (KeyObject d (Tree d h))) :
    leavesOf (e :: es) = leaves e.object ∪ leavesOf es := by
  ext leaf
  simp [leavesOf]

@[simp] theorem leavesOf_append (es es' : List (KeyObject d (Tree d h))) :
    leavesOf (es ++ es') = leavesOf es ∪ leavesOf es' := by
  ext leaf
  simp [leavesOf, or_and_right, exists_or]

theorem leavesOf_concat (es : List (KeyObject d (Tree d h))) (e : KeyObject d (Tree d h)) :
    leavesOf (es ++ [e]) = leavesOf es ∪ leaves e.object := by
  rw [leavesOf_append, leavesOf_cons, leavesOf_nil, Set.union_empty]

theorem leavesOf_perm {es es' : List (KeyObject d (Tree d h))} (hp : es.Perm es') :
    leavesOf es = leavesOf es' := by
  ext leaf
  simp [leavesOf, hp.mem_iff]

theorem leavesOf_insertObject (ix : Tree d (h + 1)) (key : KeyObject d (Tree d h))
    (hs : SortedByLow ix.myKeyObjects) :
    leavesOf (SDirIndexLogic.insertObject ix key).myKeyObjects
      = leaves key.object ∪ leavesOf ix.myKeyObjects := by
  rw [leavesOf_perm (insertObject_perm ix key hs), leavesOf_cons]

/-- A change loses no leaf, and the leaves that wait to be split have waited or are in the index. -/
structure KeepsLeaves (waiting waiting' : List OId) (old new : Set OId) : Prop where
  subset : old ⊆ new
  waits : ∀ leaf ∈ waiting', leaf ∈ waiting ∨ leaf ∈ new

namespace KeepsLeaves

variable {w w' w'' : List OId} {A A' B C : Set OId}

theorem refl (w : List OId) (A : Set OId) : KeepsLeaves w w A A := ⟨subset_rfl, fun _ => Or.inl⟩

/-- Two changes at different places. -/
theorem union (h : KeepsLeaves w w' A B) (h' : KeepsLeaves w' w'' A' C) :
    KeepsLeaves w w'' (A ∪ A') (B ∪ C) :=
  ⟨Set.union_subset_union h.subset h'.subset, fun leaf hl => by
    rcases h'.waits leaf hl with hl | hl
    · exact (h.waits leaf hl).imp_right Or.inl
    · exact Or.inr (Or.inr hl)⟩

/-- Two changes one after the other. -/
theorem trans (h : KeepsLeaves w w' A B) (h' : KeepsLeaves w' w'' B C) : KeepsLeaves w w'' A C :=
  ⟨h.subset.trans h'.subset, fun leaf hl => by
    rcases h'.waits leaf hl with hl | hl
    · exact (h.waits leaf hl).imp_right fun hl => h'.subset hl
    · exact Or.inr hl⟩

end KeepsLeaves

/-! ## Leaves -/

theorem populate_spec (nd : Box d) (keyvec : List (KeyObject d OId)) (pd : Tree d 0)
    (hs : SortedByLow pd.myKeyObjects) :
    SortedByLow (populate nd keyvec pd).myKeyObjects ∧ (populate nd keyvec pd).myOId = pd.myOId ∧
      (populate nd keyvec pd).myKeyObjects.Perm
        (keyvec.filter (fun k => nd.Intersects k.domain) ++ pd.myKeyObjects) := by
  refine foldl_inv (P := fun done (pd' : Tree d 0) => SortedByLow pd'.myKeyObjects ∧
    pd'.myOId = pd.myOId ∧ pd'.myKeyObjects.Perm
      (done.filter (fun k => nd.Intersects k.domain) ++ pd.myKeyObjects)) ⟨hs, rfl, by simp⟩ ?_
  intro done k rest pd' _ ⟨hsort, hid, hperm⟩
  rw [List.filter_append]
  by_cases hk : nd.Intersects k.domain
  · rw [if_pos hk, List.filter_cons_of_pos (by simpa using hk), List.filter_nil]
    refine ⟨insertObject_sorted pd' k hsort, hid, (insertObject_perm pd' k hsort).trans ?_⟩
    rw [List.append_assoc, List.singleton_append]
    exact (hperm.cons k).trans List.perm_middle.symm
  · rw [if_neg hk, List.filter_cons_of_neg (by simpa using hk), List.filter_nil, List.append_nil]
    exact ⟨hsort, hid, hperm⟩

theorem populate_wellFormed {nd dom : Box d} {keyvec : List (KeyObject d OId)} {pd : Tree d 0}
    (hpd : pd.myKeyObjects = []) (hsub : ∀ p ∈ nd, p ∈ dom)
    (hkeys : keyvec.Perm (S.filter fun k => k.domain.Intersects dom)) :
    WellFormed S next 0 ((populate nd keyvec pd).setAssignedDomain nd) := by
  obtain ⟨hsort, -, hperm⟩ := populate_spec nd keyvec pd (hpd ▸ .nil)
  refine ⟨hsort, hperm.trans ?_⟩
  rw [hpd, List.append_nil]
  refine (hkeys.filter _).trans (.of_eq ?_)
  rw [List.filter_filter]
  refine List.filter_congr fun k _ => ?_
  rw [← Bool.decide_and, decide_eq_decide]
  refine ⟨fun hi => hi.1.symm, fun hi => ⟨hi.symm, ?_⟩⟩
  obtain ⟨p, hpk, hpn⟩ := Box.intersects_iff.mp hi
  exact .of_mem hpk (hsub p hpn)

/-- **`splitLeaf`** gives every tile to each half it meets. -/
theorem splitLeaf_halves (next : OId) {pd1 pd2 n1 n2 : Tree d 0} {keyvec : List (KeyObject d OId)} {dom : Box d}
    (hpd1 : pd1.myKeyObjects = []) (hpd2 : pd2.myKeyObjects = [])
    (hkeys : keyvec.Perm (S.filter fun k => k.domain.Intersects dom))
    (hrun : splitLeaf pd1 pd2 keyvec cut dom = .ok (n1, n2)) :
    Halves S next cut dom n1 n2 ∧ n1.myOId = pd1.myOId ∧ n2.myOId = pd2.myOId := by
  obtain ⟨⟨nd1, nd2⟩, hs, hrun⟩ := bind_eq_ok hrun
  cases hrun
  have hmem := splitDomain_mem hs
  refine ⟨⟨fun p => (hmem p).1, fun p => (hmem p).2, ?_, ?_⟩, ?_, ?_⟩
  · exact populate_wellFormed hpd1 (fun p hp => ((hmem p).1.mp hp).1) hkeys
  · exact populate_wellFormed hpd2 (fun p hp => ((hmem p).2.mp hp).1) hkeys
  · exact (populate_spec nd1 keyvec pd1 (hpd1 ▸ .nil)).2.1
  · exact (populate_spec nd2 keyvec pd2 (hpd2 ▸ .nil)).2.1

/-! ## Nodes -/

/-- What `splitNonLeaf` relies on when an entry crosses the cut. -/
def EntrySplitOk (S : List (KeyObject d OId)) (cut : Cut) (f : EntrySplit d h) : Prop :=
  ∀ (entry n1 n2 : Tree d h) (dom : Box d) (p p' : Pending), WellFormed S p.next h entry →
    entry.myDomain = dom → f entry dom p = .ok ((n1, n2), p') →
      Halves S p'.next cut dom n1 n2 ∧ n1.myOId = p.next ∧ n2.myOId = entry.myOId ∧
        p.next < p'.next ∧ KeepsLeaves p.leafNodes2Split p'.leafNodes2Split (leaves entry)
          (leaves n1 ∪ leaves n2)

/-- One of the two nodes `splitNonLeaf` fills, after the entries `done`: it tiles their part on its
side of the cut, and its children are entries seen before or made since `next₀`. -/
structure Part (S : List (KeyObject d OId)) (next₀ next : OId) (side : Point d → Prop)
    (done : List (KeyObject d (Tree d h))) (es : List (KeyObject d (Tree d h))) : Prop where
  entries : EntriesWF (WellFormed S next h) next {p | (∃ e ∈ done, p ∈ e.domain) ∧ side p} es
  ids : ∀ e ∈ es, e.object.myOId ∈ done.map (·.object.myOId) ∨ next₀ ≤ e.object.myOId

namespace Part

variable {next₀ next' : OId} {side : Point d → Prop} {done es es' : List (KeyObject d (Tree d h))}
  {e : KeyObject d (Tree d h)}

theorem mono (hP : Part S next₀ next side done es) (hn : next ≤ next') :
    Part S next₀ next' side done es :=
  ⟨hP.entries.mono hn fun _ _ => WellFormed.mono hn, hP.ids⟩

theorem perm (hP : Part S next₀ next side done es) (hp : es.Perm es') :
    Part S next₀ next side done es' :=
  ⟨hP.entries.perm hp, fun e he => hP.ids e (hp.mem_iff.mpr he)⟩

/-- An entry on the other side of the cut is passed by. -/
theorem skip (hP : Part S next₀ next side done es) (hside : ∀ p ∈ e.domain, ¬ side p) :
    Part S next₀ next side (done ++ [e]) es := by
  refine ⟨hP.entries.congr fun p => ?_, fun e' he' => ?_⟩
  · simp only [Set.mem_ofPred_eq, List.mem_append, List.mem_singleton, or_and_right, exists_or,
      exists_eq_left]
    exact ⟨Or.inl, fun hp => hp.resolve_right fun hp => hside p hp.1 hp.2⟩
  · rw [List.map_append, List.mem_append]
    exact (hP.ids e' he').imp_left Or.inl

/-- An entry, or the half of it on this side, is added. -/
theorem add (hP : Part S next₀ next side done es) {child : Tree d h} (hW : WellFormed S next h child)
    (hmem : ∀ p, p ∈ child.myDomain ↔ p ∈ e.domain ∧ side p)
    (hdisj : ∀ e' ∈ done, ¬ e'.domain.Intersects e.domain) (hlt : child.myOId < next)
    (hnotin : child.myOId ∉ es.map (·.object.myOId))
    (hid : child.myOId = e.object.myOId ∨ next₀ ≤ child.myOId) :
    Part S next₀ next side (done ++ [e]) (child.toKey :: es) := by
  have hadd := hP.entries.cons hW hlt hnotin fun p hp hR => by
    obtain ⟨⟨e', he', hpe'⟩, -⟩ := hR
    exact hdisj e' he' (.of_mem hpe' ((hmem p).mp hp).1)
  refine ⟨hadd.congr fun p => ?_, fun e' he' => ?_⟩
  · simp only [Set.mem_union, Set.mem_ofPred_eq, Box.mem_region, hmem, List.mem_append,
      List.mem_singleton, or_and_right, exists_or, exists_eq_left]
  · rw [List.map_append, List.mem_append]
    rcases List.mem_cons.mp he' with rfl | he'
    · exact hid.imp_left fun hid => Or.inr (by simp [hid])
    · exact (hP.ids e' he').imp_left Or.inl

/-- The ids of a part that are not fresh are those of entries seen before. -/
theorem not_mem_ids (hP : Part S next₀ next side done es) {oid : OId} (hlt : oid < next₀)
    (hout : oid ∉ done.map (·.object.myOId)) : oid ∉ es.map (·.object.myOId) := fun hin => by
  obtain ⟨e', he', rfl⟩ := List.mem_map.mp hin
  exact (hP.ids e' he').elim hout fun hle => absurd hlt hle.not_gt

theorem next_not_mem_ids (hP : Part S next₀ next side done es) :
    next ∉ es.map (·.object.myOId) := fun hin => by
  obtain ⟨e', he', heq⟩ := List.mem_map.mp hin
  exact absurd heq (hP.entries.fresh e' he').ne

end Part

/-- The leaves below the two nodes that `splitNonLeaf` fills. -/
def Repopulated.leaves (s : Repopulated d h) : Set OId :=
  (leavesOf (h := h) s.listMinKO1 ∪ leavesOf (h := h) s.pd1.myKeyObjects) ∪
    (leavesOf (h := h) s.listMinKO2 ∪ leavesOf (h := h) s.pd2.myKeyObjects)

/-- The leaves after the two halves of an entry were added. -/
theorem addHalves_leaves (cap : Capacity) (s : Repopulated d h) (n11 entry : Tree d h)
    (hs₁ : SortedByLow s.pd1.myKeyObjects) (hs₂ : SortedByLow s.pd2.myKeyObjects) :
    KeepsLeaves s.leafNodes2Split (addSecond cap (addFirst cap s n11) entry).leafNodes2Split
        (leaves n11 ∪ leaves entry) (leaves n11 ∪ leaves entry) ∧
      (addSecond cap (addFirst cap s n11) entry).leaves = s.leaves ∪ (leaves n11 ∪ leaves entry) := by
  cases h with
  | zero =>
    refine ⟨⟨subset_rfl, fun leaf hl => ?_⟩, ?_⟩
    · rw [leaves_zero, leaves_zero]
      simp only [addSecond, addFirst, if_true] at hl
      split_ifs at hl <;> simp_all <;> tauto
    · refine (congrArg₂ (· ∪ ·) (congrArg (_ ∪ ·) (leavesOf_insertObject s.pd1 n11.toKey hs₁))
        (congrArg (_ ∪ ·) (leavesOf_insertObject s.pd2 entry.toKey hs₂))).trans ?_
      simp only [Repopulated.leaves, HierIndex.toKey_object]
      ac_rfl
  | succ h =>
    refine ⟨⟨subset_rfl, fun _ => Or.inl⟩, ?_⟩
    refine (congrArg₂ (· ∪ ·) (congrArg (· ∪ _) (leavesOf_concat s.listMinKO1 n11.toKey))
      (congrArg (· ∪ _) (leavesOf_concat s.listMinKO2 entry.toKey))).trans ?_
    simp only [Repopulated.leaves, HierIndex.toKey_object]
    ac_rfl

/-- The loop invariant of `splitNonLeaf`. -/
structure Progress (S : List (KeyObject d OId)) (next₀ : OId) (waiting : List OId) (cut : Cut)
    (oid₁ oid₂ : OId) (done : List (KeyObject d (Tree d h))) (s : Repopulated d h) : Prop where
  next_le : next₀ ≤ s.next
  myOId₁ : s.pd1.myOId = oid₁
  myOId₂ : s.pd2.myOId = oid₂
  sorted₁ : SortedByLow s.pd1.myKeyObjects
  sorted₂ : SortedByLow s.pd2.myKeyObjects
  part₁ : Part S next₀ s.next (Below cut) done (s.listMinKO1 ++ s.pd1.myKeyObjects)
  part₂ : Part S next₀ s.next (fun p => ¬ Below cut p) done (s.listMinKO2 ++ s.pd2.myKeyObjects)
  leaves : KeepsLeaves waiting s.leafNodes2Split (leavesOf done) s.leaves

namespace Progress

variable {next₀ oid₁ oid₂ : OId} {waiting : List OId} {done : List (KeyObject d (Tree d h))}
  {s : Repopulated d h} {e : KeyObject d (Tree d h)}

/-- The entries of the first node after another one was inserted. -/
theorem insert_perm (listMin : List (KeyObject d (Tree d h))) (pd : Tree d (h + 1))
    (hs : SortedByLow pd.myKeyObjects) (key : KeyObject d (Tree d h)) :
    (key :: (listMin ++ pd.myKeyObjects)).Perm
      (listMin ++ (SDirIndexLogic.insertObject pd key).myKeyObjects) :=
  List.perm_middle.symm.trans ((insertObject_perm pd key hs).symm.append_left listMin)

theorem wait_perm (listMin es : List (KeyObject d (Tree d h))) (key : KeyObject d (Tree d h)) :
    (key :: (listMin ++ es)).Perm (listMin ++ [key] ++ es) := by
  rw [List.append_assoc, List.singleton_append]
  exact List.perm_middle.symm

/-- The two halves of an entry that crosses the cut go to the two nodes. -/
theorem addHalves {p : Pending} (hP : Progress S next₀ waiting cut oid₁ oid₂ done s)
    {n11 entry : Tree d h} (hh : Halves S p.next cut e.domain n11 entry) (hid₁ : n11.myOId = s.next)
    (hid₂ : entry.myOId = e.object.myOId) (hlt : s.next < p.next)
    (hdisj : ∀ e' ∈ done, ¬ e'.domain.Intersects e.domain) (hold : e.object.myOId < next₀)
    (hout : e.object.myOId ∉ done.map (·.object.myOId))
    (hleaves : KeepsLeaves s.leafNodes2Split p.leafNodes2Split (Rasdaman.leaves e.object)
      (Rasdaman.leaves n11 ∪ Rasdaman.leaves entry)) :
    Progress S next₀ waiting cut oid₁ oid₂ (done ++ [e])
      (addSecond cap (addFirst cap { s with toPending := p } n11) entry) := by
  have hle := hP.next_le
  have hp₁ := (hP.part₁.mono hlt.le).add hh.wf₁ hh.mem₁ hdisj (hid₁ ▸ hlt)
    (hid₁ ▸ hP.part₁.next_not_mem_ids) (Or.inr (hid₁ ▸ hle))
  have hp₂ := (hP.part₂.mono hlt.le).add hh.wf₂ hh.mem₂ hdisj
    (hid₂ ▸ hold.trans_le (hle.trans hlt.le)) (hid₂ ▸ hP.part₂.not_mem_ids hold hout) (Or.inl hid₂)
  have hkept : KeepsLeaves waiting (addSecond cap (addFirst cap { s with toPending := p } n11)
      entry).leafNodes2Split (leavesOf (done ++ [e]))
      (addSecond cap (addFirst cap { s with toPending := p } n11) entry).leaves := by
    obtain ⟨hwaits, hadded⟩ := addHalves_leaves cap { s with toPending := p } n11 entry
      hP.sorted₁ hP.sorted₂
    rw [hadded, leavesOf_concat]
    exact hP.leaves.union (hleaves.trans hwaits)
  by_cases h0 : h = 0
  · simp only [addSecond, addFirst, h0, if_true] at hkept ⊢
    exact ⟨hle.trans hlt.le, hP.myOId₁, hP.myOId₂, insertObject_sorted _ _ hP.sorted₁,
      insertObject_sorted _ _ hP.sorted₂, hp₁.perm (insert_perm _ _ hP.sorted₁ _),
      hp₂.perm (insert_perm _ _ hP.sorted₂ _), hkept⟩
  · simp only [addSecond, addFirst, h0, if_false] at hkept ⊢
    exact ⟨hle.trans hlt.le, hP.myOId₁, hP.myOId₂, hP.sorted₁, hP.sorted₂,
      hp₁.perm (wait_perm _ _ _), hp₂.perm (wait_perm _ _ _), hkept⟩

/-- An entry on one side of the cut brings its leaves to that node. -/
theorem keep {s' : Repopulated d h} (hP : Progress S next₀ waiting cut oid₁ oid₂ done s)
    (hwaits : s'.leafNodes2Split = s.leafNodes2Split)
    (hleaves : s'.leaves = s.leaves ∪ Rasdaman.leaves e.object) :
    KeepsLeaves waiting s'.leafNodes2Split (leavesOf (done ++ [e])) s'.leaves := by
  rw [hwaits, hleaves, leavesOf_concat]
  exact hP.leaves.union (.refl _ _)

/-- The loop of `splitNonLeaf` starts with two empty nodes. -/
theorem init {pd1 pd2 : Tree d (h + 1)} (p : Pending) (hpd1 : pd1.myKeyObjects = [])
    (hpd2 : pd2.myKeyObjects = []) : Progress S p.next p.leafNodes2Split cut pd1.myOId pd2.myOId []
      ⟨p, pd1, pd2, [], []⟩ := by
  have hpart : ∀ side : Point d → Prop,
      Part S p.next p.next side ([] : List (KeyObject d (Tree d h))) [] := fun side =>
    ⟨EntriesWF.nil.congr fun q => by simp, by simp⟩
  refine ⟨le_rfl, rfl, rfl, hpd1 ▸ .nil, hpd2 ▸ .nil, ?_, ?_, by simp, fun _ => Or.inl⟩
  · simp only [hpd1, List.append_nil]
    exact hpart _
  · simp only [hpd2, List.append_nil]
    exact hpart _

/-- **One round of `splitNonLeaf`.** -/
theorem step {f : EntrySplit d h} (hf : EntrySplitOk S cut f) {nd1 nd2 dom : Box d}
    (hs : splitDomain dom cut = .ok (nd1, nd2)) {s' : Repopulated d h}
    {rest : List (KeyObject d (Tree d h))}
    (hall : EntriesWF (WellFormed S next₀ h) next₀ dom.region (done ++ e :: rest))
    (hP : Progress S next₀ waiting cut oid₁ oid₂ done s)
    (hrun : repopulate cap f nd1 nd2 s e = .ok s') :
    Progress S next₀ waiting cut oid₁ oid₂ (done ++ [e]) s' := by
  have he : e ∈ done ++ e :: rest := by simp
  have hdisj : ∀ e' ∈ done, ¬ e'.domain.Intersects e.domain := fun e' he' =>
    (List.pairwise_append.mp hall.disjoint).2.2 e' he' e (List.mem_cons_self ..)
  have hout : e.object.myOId ∉ done.map (·.object.myOId) := by
    have hnd := hall.nodup
    rw [List.map_append, List.map_cons] at hnd
    exact fun hin => (List.nodup_append.mp hnd).2.2 _ hin _ (List.mem_cons_self ..) rfl
  have hold := hall.fresh e he
  have hrec := hall.recorded e he
  have hW : WellFormed S s.next h e.object := (hall.wf e he).mono hP.next_le
  have hmem := splitDomain_mem hs
  rw [repopulate] at hrun
  split at hrun
  · -- The whole entry lies below the cut.
    next hcov =>
    cases hrun
    have hbelow : ∀ p ∈ e.domain, Below cut p := fun p hp =>
      ((hmem p).1.mp (Box.covers_iff.mp hcov p hp)).2
    have hadd := hP.part₁.add hW (e := e) (fun p => by rw [← hrec]; exact
      ⟨fun hp => ⟨hp, hbelow p hp⟩, fun hp => hp.1⟩) hdisj (hold.trans_le hP.next_le)
      (hP.part₁.not_mem_ids hold hout) (Or.inl rfl)
    rw [hall.toKey_eq he] at hadd
    exact ⟨hP.next_le, hP.myOId₁, hP.myOId₂, insertObject_sorted _ _ hP.sorted₁, hP.sorted₂,
      hadd.perm (insert_perm _ _ hP.sorted₁ _), hP.part₂.skip fun p hp hn => hn (hbelow p hp),
      hP.keep rfl (by
        refine (congrArg (· ∪ _) (congrArg (_ ∪ ·) (leavesOf_insertObject s.pd1 e hP.sorted₁))).trans ?_
        simp only [Repopulated.leaves]
        ac_rfl)⟩
  · split at hrun
    · next hcov =>
      cases hrun
      have habove : ∀ p ∈ e.domain, ¬ Below cut p := fun p hp =>
        ((hmem p).2.mp (Box.covers_iff.mp hcov p hp)).2
      have hadd := hP.part₂.add hW (e := e) (fun p => by rw [← hrec]; exact
        ⟨fun hp => ⟨hp, habove p hp⟩, fun hp => hp.1⟩) hdisj (hold.trans_le hP.next_le)
        (hP.part₂.not_mem_ids hold hout) (Or.inl rfl)
      rw [hall.toKey_eq he] at hadd
      exact ⟨hP.next_le, hP.myOId₁, hP.myOId₂, hP.sorted₁, insertObject_sorted _ _ hP.sorted₂,
        hP.part₁.skip habove, hadd.perm (insert_perm _ _ hP.sorted₂ _), hP.keep rfl (by
          refine (congrArg (_ ∪ ·) (congrArg (_ ∪ ·)
            (leavesOf_insertObject s.pd2 e hP.sorted₂))).trans ?_
          simp only [Repopulated.leaves]
          ac_rfl)⟩
    · obtain ⟨⟨⟨n11, entry⟩, p⟩, hsplit, hrun⟩ := bind_eq_ok hrun
      cases hrun
      obtain ⟨hh, hid₁, hid₂, hlt, hleaves⟩ := hf _ _ _ _ _ _ hW hrec.symm hsplit
      exact hP.addHalves hh hid₁ hid₂ hlt hdisj hold hout hleaves

end Progress

theorem redistributeEntries_spec {α : Type} (node : HierIndex d α) (listMin : List (KeyObject d α))
    (hs : SortedByLow node.myKeyObjects) :
    SortedByLow (redistributeEntries node listMin).myKeyObjects ∧
      (redistributeEntries node listMin).myOId = node.myOId ∧
      (redistributeEntries node listMin).myKeyObjects.Perm (listMin ++ node.myKeyObjects) := by
  refine foldl_inv (P := fun done (nd : HierIndex d α) => SortedByLow nd.myKeyObjects ∧
    nd.myOId = node.myOId ∧ nd.myKeyObjects.Perm (done ++ node.myKeyObjects)) ⟨hs, rfl, by simp⟩ ?_
  intro done k rest nd _ ⟨hsort, hid, hperm⟩
  refine ⟨insertObject_sorted nd k hsort, hid, (insertObject_perm nd k hsort).trans ?_⟩
  rw [List.append_assoc, List.singleton_append]
  exact (hperm.cons k).trans List.perm_middle.symm

/-- One of the two nodes after the loop of `splitNonLeaf`. -/
theorem Part.wellFormed {next₀ : OId} {side : Point d → Prop} {keyvec listMin : List (KeyObject d (Tree d h))}
    {pd : Tree d (h + 1)} {nd : Box d} (hP : Part S next₀ next side keyvec (listMin ++ pd.myKeyObjects))
    (hs : SortedByLow pd.myKeyObjects)
    (hnd : ∀ p, p ∈ nd ↔ (∃ e ∈ keyvec, p ∈ e.domain) ∧ side p) :
    WellFormed S next (h + 1) ((redistributeEntries pd listMin).setAssignedDomain nd) := by
  obtain ⟨hsort, -, hperm⟩ := redistributeEntries_spec pd listMin hs
  exact ⟨hsort, (hP.entries.perm hperm.symm).congr fun p => (hnd p).symm⟩

/-- **`splitNonLeaf` halves a node.** -/
theorem splitNonLeafWith_halves {f : EntrySplit d h} (hf : EntrySplitOk S cut f)
    {pd1 pd2 n1 n2 : Tree d (h + 1)} {keyvec : List (KeyObject d (Tree d h))} {dom : Box d}
    {p p' : Pending} (hpd1 : pd1.myKeyObjects = []) (hpd2 : pd2.myKeyObjects = [])
    (hkeys : EntriesWF (WellFormed S p.next h) p.next dom.region keyvec)
    (hrun : splitNonLeafWith cap f pd1 pd2 keyvec cut dom p = .ok ((n1, n2), p')) :
    Halves S p'.next cut dom n1 n2 ∧ n1.myOId = pd1.myOId ∧ n2.myOId = pd2.myOId ∧
      p.next ≤ p'.next ∧ KeepsLeaves p.leafNodes2Split p'.leafNodes2Split (leavesOf keyvec)
        (leaves n1 ∪ leaves n2) := by
  obtain ⟨⟨nd1, nd2⟩, hs, hrun⟩ := bind_eq_ok hrun
  obtain ⟨s, hloop, hrun⟩ := bind_eq_ok hrun
  cases hrun
  have hP : Progress S p.next p.leafNodes2Split cut pd1.myOId pd2.myOId keyvec s :=
    foldlM_inv hloop (Progress.init p hpd1 hpd2) fun done e rest s s' hall hP hround =>
      hP.step hf hs (hall ▸ hkeys) hround
  have hmem := splitDomain_mem hs
  have hdom : ∀ q, q ∈ dom ↔ ∃ e ∈ keyvec, q ∈ e.domain := fun q => by
    rw [← Box.mem_region, hkeys.tiles.mem_iff]
    simp
  have hs₁ := redistributeEntries_spec s.pd1 s.listMinKO1 hP.sorted₁
  have hs₂ := redistributeEntries_spec s.pd2 s.listMinKO2 hP.sorted₂
  have hleaves : leaves (h := h + 1) ((redistributeEntries s.pd1 s.listMinKO1).setAssignedDomain nd1) ∪
      leaves (h := h + 1) ((redistributeEntries s.pd2 s.listMinKO2).setAssignedDomain nd2) = s.leaves := by
    rw [leaves_succ, leaves_succ]
    exact congrArg₂ (· ∪ ·) ((leavesOf_perm hs₁.2.2).trans (leavesOf_append ..))
      ((leavesOf_perm hs₂.2.2).trans (leavesOf_append ..))
  refine ⟨⟨fun q => (hmem q).1, fun q => (hmem q).2, ?_, ?_⟩, ?_, ?_, hP.next_le, hleaves ▸ hP.leaves⟩
  · exact hP.part₁.wellFormed hP.sorted₁ fun q => by rw [(hmem q).1, hdom]
  · exact hP.part₂.wellFormed hP.sorted₂ fun q => by rw [(hmem q).2, hdom]
  · exact hs₁.2.1.trans hP.myOId₁
  · exact hs₂.2.1.trans hP.myOId₂

/-- **Downward splits halve an entry of any height.** -/
theorem splitEntry_halves : ∀ h : ℕ, EntrySplitOk (h := h) S cut (splitEntry cap cut h)
  | 0 => by
    intro entry n1 n2 dom p p' hwf hdom hrun
    obtain ⟨⟨m1, m2⟩, hsplit, hrun⟩ := bind_eq_ok hrun
    cases hrun
    obtain ⟨hh, hid₁, hid₂⟩ := splitLeaf_halves (p.next + 1) rfl rfl (hdom ▸ hwf.2) hsplit
    refine ⟨hh, hid₁, hid₂, Nat.lt_succ_self _, ?_, fun leaf hl => Or.inl (List.mem_of_mem_filter hl)⟩
    rw [leaves_zero, leaves_zero, leaves_zero, hid₂]
    exact Set.subset_union_right
  | h + 1 => by
    intro entry n1 n2 dom p p' hwf hdom hrun
    have hkeys := hwf.2.mono (Nat.le_succ p.next) fun _ _ => WellFormed.mono (Nat.le_succ p.next)
    rw [hdom] at hkeys
    obtain ⟨hh, hid₁, hid₂, hle, hleaves⟩ := splitNonLeafWith_halves
      (p := { p with next := p.next + 1 }) (splitEntry_halves h) rfl rfl hkeys hrun
    exact ⟨hh, hid₁, hid₂, hle, leaves_succ entry ▸ hleaves⟩

/-! ## The parent of a split node -/

section InsertHalves

variable {parent : Tree d (h + 1)} {n1 n2 : Tree d h} {dom D : Box d}

/-- The domain of a parent that takes in two halves: unchanged, or theirs if it was empty. -/
theorem insertHalves_myDomain (hh : Halves S next cut dom n1 n2) (hsub : D.Covers dom)
    (hsort : SortedByLow parent.myKeyObjects)
    (hD : parent.myKeyObjects ≠ [] → parent.myDomain = D) (hempty : parent.myKeyObjects = [] → dom = D) :
    (insertHalves parent n1 n2).myDomain = D := by
  have hfull : (SDirIndexLogic.insertObject parent n1.toKey).myKeyObjects.isEmpty = false := by
    rw [(insertObject_perm parent n1.toKey hsort).isEmpty_eq]
    rfl
  rw [insertHalves, insertObject_myDomain, hfull, insertObject_myDomain]
  simp only [Bool.false_eq_true, if_false, HierIndex.toKey_domain]
  by_cases hnil : parent.myKeyObjects = []
  · simp only [hnil, List.isEmpty_nil, if_true]
    rw [Box.closureWith_eq_of_mem fun p => hh.mem_iff p, hempty hnil]
  · simp only [List.isEmpty_eq_false_iff.mpr hnil, Bool.false_eq_true, if_false, hD hnil]
    have h₁ : D.Covers n1.myDomain := hsub.trans (Box.covers_iff.mpr fun p hp => ((hh.mem₁ p).mp hp).1)
    have h₂ : D.Covers n2.myDomain := hsub.trans (Box.covers_iff.mpr fun p hp => ((hh.mem₂ p).mp hp).1)
    rw [Box.closureWith_eq_left h₁, Box.closureWith_eq_left h₂]

/-- **Two halves in place of the node they came from.** -/
theorem insertHalves_wellFormed (hh : Halves S next cut dom n1 n2) (hsub : D.Covers dom)
    (hsort : SortedByLow parent.myKeyObjects)
    (hrest : EntriesWF (WellFormed S next h) next (D.region \ dom.region) parent.myKeyObjects)
    (hD : parent.myKeyObjects ≠ [] → parent.myDomain = D)
    (hlt₁ : n1.myOId < next) (hlt₂ : n2.myOId < next)
    (hid₁ : n1.myOId ∉ parent.myKeyObjects.map (·.object.myOId))
    (hid₂ : n2.myOId ∉ parent.myKeyObjects.map (·.object.myOId)) (hne : n1.myOId ≠ n2.myOId) :
    WellFormed S next (h + 1) (insertHalves parent n1 n2) ∧
      (insertHalves parent n1 n2).myDomain = D := by
  have hempty : parent.myKeyObjects = [] → dom = D := fun hnil => by
    refine Box.eq_of_mem_iff fun p => ⟨Box.covers_iff.mp hsub p, fun hp => ?_⟩
    by_contra hout
    obtain ⟨b, hb, -⟩ := (hrest.tiles.mem_iff p).mp ⟨hp, hout⟩
    simp [hnil] at hb
  have hdom := insertHalves_myDomain hh hsub hsort hD hempty
  have hsort₁ := insertObject_sorted parent n1.toKey hsort
  have hperm : (n2.toKey :: n1.toKey :: parent.myKeyObjects).Perm
      (insertHalves parent n1 n2).myKeyObjects :=
    ((insertObject_perm parent n1.toKey hsort).symm.cons n2.toKey).trans
      (insertObject_perm _ n2.toKey hsort₁).symm
  have h₁ := hrest.cons hh.wf₁ hlt₁ hid₁ fun p hp hR => hR.2 ((hh.mem_iff p).mpr (Or.inl hp))
  have hid₂' : n2.myOId ∉ (n1.toKey :: parent.myKeyObjects).map (·.object.myOId) := by
    rw [List.map_cons, List.mem_cons, not_or]
    exact ⟨hne.symm, hid₂⟩
  have h₂ := h₁.cons hh.wf₂ hlt₂ hid₂' fun p hp hR => hR.elim
    (fun hR => hR.2 ((hh.mem_iff p).mpr (Or.inr hp))) fun hp₁ => hh.disjoint p hp₁ hp
  refine ⟨⟨insertObject_sorted _ _ hsort₁, ?_⟩, hdom⟩
  rw [hdom]
  refine (h₂.perm hperm).congr fun p => ?_
  have hmem := hh.mem_iff p
  have hDp := Box.covers_iff.mp hsub p
  simp only [Set.mem_union, Set.mem_sdiff, Box.mem_region]
  constructor
  · rintro ((⟨hp, -⟩ | hp) | hp)
    · exact hp
    · exact hDp (hmem.mpr (Or.inl hp))
    · exact hDp (hmem.mpr (Or.inr hp))
  · intro hp
    by_cases hin : p ∈ dom
    · exact (hmem.mp hin).imp_left Or.inr
    · exact Or.inl (Or.inl ⟨hp, hin⟩)

theorem insertHalves_leaves (parent : Tree d (h + 1)) (hs : SortedByLow parent.myKeyObjects) :
    leaves (h := h + 1) (insertHalves parent n1 n2)
      = leaves n2 ∪ (leaves n1 ∪ leavesOf parent.myKeyObjects) := by
  rw [leaves_succ]
  exact (leavesOf_insertObject _ n2.toKey (insertObject_sorted parent n1.toKey hs)).trans
    (congrArg (_ ∪ ·) (leavesOf_insertObject parent n1.toKey hs))

/-- The leaves below a parent whose split child is taken out first. -/
theorem keepsLeaves_removeChild {e : KeyObject d (Tree d h)} {w w' : List OId}
    (hs : SortedByLow parent.myKeyObjects) (he : e ∈ parent.myKeyObjects)
    (hnodup : (parent.myKeyObjects.map (·.object.myOId)).Nodup) (hid₂ : n2.myOId = e.object.myOId)
    (hk : KeepsLeaves w w' (leaves e.object) (leaves n1 ∪ leaves n2)) :
    KeepsLeaves w w' (leaves (h := h + 1) parent)
      (leaves (h := h + 1) (insertHalves (parent.removeChild n2.myOId) n1 n2)) := by
  have hs' : SortedByLow (parent.removeChild n2.myOId).myKeyObjects := hs.sublist List.eraseP_sublist
  have hrest : leavesOf parent.myKeyObjects
      ⊆ leaves e.object ∪ leavesOf (parent.removeChild n2.myOId).myKeyObjects := by
    rintro leaf ⟨e', he', hleaf⟩
    by_cases hid : e'.object.myOId = n2.myOId
    · exact Or.inl (List.inj_on_of_nodup_map hnodup he' he (hid.trans hid₂) ▸ hleaf)
    · exact Or.inr ⟨e', (List.mem_eraseP_of_neg (by simpa using hid)).mpr he', hleaf⟩
  rw [leaves_succ, insertHalves_leaves _ hs']
  refine ⟨hrest.trans (Set.union_subset (hk.subset.trans ?_) ?_), fun leaf hl => ?_⟩
  · exact Set.union_subset (fun _ hl => Or.inr (Or.inl hl)) Set.subset_union_left
  · exact fun _ hl => Or.inr (Or.inr hl)
  · exact (hk.waits leaf hl).imp_right (Or.rec (fun hl => Or.inr (Or.inl hl)) Or.inl)

/-- The leaves below a parent whose child changed in place. -/
theorem keepsLeaves_withChild {e : KeyObject d (Tree d h)} {child : Tree d h} {w w' : List OId}
    (he : e ∈ parent.myKeyObjects) (hnodup : (parent.myKeyObjects.map (·.object.myOId)).Nodup)
    (hid : child.myOId = e.object.myOId) (hk : KeepsLeaves w w' (leaves e.object) (leaves child)) :
    KeepsLeaves w w' (leaves (h := h + 1) parent) (leaves (h := h + 1) (parent.withChild child)) := by
  have hin : leaves child ⊆ leavesOf (parent.withChild child).myKeyObjects := fun leaf hl =>
    ⟨_, List.mem_map_of_mem he, by simpa [hid] using hl⟩
  rw [leaves_succ, leaves_succ]
  refine ⟨?_, fun leaf hl => (hk.waits leaf hl).imp_right fun hl => hin hl⟩
  rintro leaf ⟨e', he', hleaf⟩
  by_cases heq : e'.object.myOId = child.myOId
  · obtain rfl := List.inj_on_of_nodup_map hnodup he' he (heq.trans hid)
    exact hin (hk.subset hleaf)
  · exact ⟨_, List.mem_map_of_mem he', by simpa [heq] using hleaf⟩

/-- The parent of a split child, which is taken out first. -/
theorem insertHalves_removeChild {next₀ : OId} {e : KeyObject d (Tree d h)} (hwf : WellFormed S next₀ (h + 1) parent)
    (he : e ∈ parent.myKeyObjects) (hh : Halves S next cut e.domain n1 n2)
    (hid₁ : next₀ ≤ n1.myOId) (hlt₁ : n1.myOId < next) (hid₂ : n2.myOId = e.object.myOId) :
    WellFormed S next (h + 1) (insertHalves (parent.removeChild n2.myOId) n1 n2) ∧
      (insertHalves (parent.removeChild n2.myOId) n1 n2).myDomain = parent.myDomain := by
  have hle : next₀ ≤ next := hid₁.trans hlt₁.le
  obtain ⟨a, l₁, l₂, -, hpa, hsplit, herase⟩ := List.exists_of_eraseP he
    (p := fun e => e.object.myOId == n2.myOId) (by simp [hid₂])
  obtain rfl : a = e := hwf.2.eq_of_myOId_eq (hsplit ▸ by simp) he
    ((eq_of_beq hpa).trans hid₂)
  have hrest : (a :: (l₁ ++ l₂)).Perm parent.myKeyObjects := hsplit ▸ List.perm_middle.symm
  have hwf' := (hwf.2.perm hrest.symm).mono hle fun _ _ => WellFormed.mono hle
  have hkeys : (parent.removeChild n2.myOId).myKeyObjects = l₁ ++ l₂ := herase
  have hsort : SortedByLow (parent.removeChild n2.myOId).myKeyObjects :=
    hwf.1.sublist List.eraseP_sublist
  have hfresh := hwf.2.perm hrest.symm
  refine insertHalves_wellFormed hh (hwf.2.tiles.covers (List.mem_map_of_mem he)) hsort
    (hkeys ▸ hwf'.tail) (fun _ => rfl) hlt₁ ?_ ?_ ?_ ?_
  · exact hid₂ ▸ (hwf.2.fresh a he).trans_le hle
  · rw [hkeys]
    intro hin
    obtain ⟨e', he', heq⟩ := List.mem_map.mp hin
    exact absurd (heq ▸ hfresh.fresh e' (List.mem_cons_of_mem _ he')) hid₁.not_gt
  · rw [hkeys, hid₂]
    exact (List.nodup_cons.mp hfresh.nodup).1
  · exact (hid₂ ▸ (hwf.2.fresh a he).trans_le hid₁).ne'

/-- A root that was split. -/
theorem newRoot_wellFormed {root : HierIndex d (Obj d h)} (hh : Halves S next cut dom n1 n2)
    (hlt₁ : n1.myOId < next) (hlt₂ : n2.myOId < next) (hne : n1.myOId ≠ n2.myOId) :
    WellFormed S next (h + 1) (newRoot root n1 n2) ∧ (newRoot root n1 n2).myDomain = dom := by
  refine insertHalves_wellFormed hh (.refl _) .nil ?_ (fun hn => absurd rfl hn) hlt₁ hlt₂ (by simp)
    (by simp) hne
  rw [sdiff_self]
  exact .nil

end InsertHalves

/-! ## Upward splits -/

/-- **One round of `splitNodes` below the root.** -/
theorem splitUnder_wellFormed {leaf : OId} : ∀ {h : ℕ} {parent parent' : Tree d (h + 1)}
    {s s' : SplitState}, WellFormed S s.next (h + 1) parent →
      splitUnder cap leaf h parent s = .ok (parent', s') →
      WellFormed S s'.next (h + 1) parent' ∧ parent'.myOId = parent.myOId ∧
        parent'.myDomain = parent.myDomain ∧ s.next ≤ s'.next ∧
        KeepsLeaves s.leafNodes2Split s'.leafNodes2Split (leaves parent) (leaves parent')
  | 0, parent, parent', s, s', hwf, hrun => by
    rw [splitUnder] at hrun
    split at hrun
    · cases hrun
    · next e hfind =>
      obtain ⟨⟨n1, n2⟩, hsplit, hrun⟩ := bind_eq_ok hrun
      cases hrun
      have he := List.mem_of_find?_eq_some hfind
      have hleaf : e.object.myKeyObjects.Perm (S.filter fun k => k.domain.Intersects e.domain) :=
        hwf.2.recorded e he ▸ (hwf.2.wf e he).2
      obtain ⟨hh, hid₁, hid₂⟩ := splitLeaf_halves (s.next + 1) rfl rfl hleaf hsplit
      obtain ⟨hwf', hdom⟩ := insertHalves_removeChild hwf he hh hid₁.ge (hid₁ ▸ Nat.lt_succ_self _) hid₂
      refine ⟨hwf', rfl, hdom, Nat.le_succ _,
        keepsLeaves_removeChild hwf.1 he hwf.2.nodup hid₂ ⟨?_, fun _ => Or.inl⟩⟩
      rw [leaves_zero, leaves_zero, leaves_zero, hid₂]
      exact Set.subset_union_right
  | h + 1, parent, parent', s, s', hwf, hrun => by
    rw [splitUnder] at hrun
    split at hrun
    · cases hrun
    · next e hfind =>
      have he := List.mem_of_find?_eq_some hfind
      obtain ⟨⟨child, t⟩, hunder, hrun⟩ := bind_eq_ok hrun
      obtain ⟨hchild, hid, hdom, hle, hkept⟩ := splitUnder_wellFormed (hwf.2.wf e he) hunder
      have hwf₁ : WellFormed S t.next (h + 2) parent := hwf.mono hle
      dsimp only at hrun
      split at hrun
      · obtain ⟨⟨⟨n1, n2⟩, p⟩, hsplit, hrun⟩ := bind_eq_ok hrun
        cases hrun
        have hkeys := hchild.2.mono (Nat.le_succ t.next) fun _ _ => WellFormed.mono (Nat.le_succ _)
        rw [hdom, ← hwf.2.recorded e he] at hkeys
        rw [hdom, ← hwf.2.recorded e he] at hsplit
        obtain ⟨hh, hid₁, hid₂, hle', hleaves⟩ := splitNonLeafWith_halves
          (p := ⟨t.leafNodes2Split, t.next + 1⟩) (splitEntry_halves h) rfl rfl hkeys hsplit
        obtain ⟨hwf', hdom'⟩ := insertHalves_removeChild hwf₁ he hh hid₁.ge
          (hid₁ ▸ Nat.lt_of_succ_le hle') (hid₂.trans hid)
        exact ⟨hwf', rfl, hdom', hle.trans ((Nat.le_succ _).trans hle'),
          keepsLeaves_removeChild hwf.1 he hwf.2.nodup (hid₂.trans hid)
            (hkept.trans (leaves_succ child ▸ hleaves))⟩
      · cases hrun
        have hupd := (Updated.refl (WellFormed S s'.next (h + 1)) parent).withChild
          (fun e' he' heq => hwf.2.eq_of_myOId_eq he' he heq) hid hdom hchild
        refine ⟨⟨hupd.sorted hwf.1, ?_⟩, hupd.myOId, hupd.myDomain, hle,
          keepsLeaves_withChild he hwf.2.nodup hid hkept⟩
        rw [hupd.myDomain]
        exact hupd.entriesWF hwf₁.2 fun e' he' _ => hwf₁.2.wf e' he'

/-- The leaves that wait to be split are in the index; the root waits alone if it is a leaf. -/
def Waiting : (Σ h, Tree d h) → List OId → Prop
  | ⟨0, _⟩, leafNodes2Split => leafNodes2Split.length ≤ 1
  | ⟨_ + 1, root⟩, leafNodes2Split => ∀ leaf ∈ leafNodes2Split, leaf ∈ leaves root

/-- What a round of `splitNodes` keeps: the invariant, the domain of the root, and where the leaves
that wait are. -/
theorem splitNode_wellFormed {leaf : OId} {root root' : Σ h, Tree d h} {s s' : SplitState}
    (hwf : WellFormed S s.next root.1 root.2) (hrun : splitNode cap leaf root s = .ok (root', s')) :
    WellFormed S s'.next root'.1 root'.2 ∧ root'.2.myDomain = root.2.myDomain ∧
      (Waiting root (leaf :: s.leafNodes2Split) → Waiting root' s'.leafNodes2Split) := by
  match root, hwf, hrun with
  | ⟨0, root⟩, hwf, hrun =>
    rw [splitNode] at hrun
    obtain ⟨⟨n1, n2⟩, hsplit, hrun⟩ := bind_eq_ok hrun
    cases hrun
    obtain ⟨hh, hid₁, hid₂⟩ := splitLeaf_halves (s.next + 2) rfl rfl hwf.2 hsplit
    rw [HierIndex.newInstance_myOId] at hid₁ hid₂
    obtain ⟨hwf', hdom⟩ : WellFormed S (s.next + 2) 1 (newRoot root n1 n2) ∧
        (newRoot root n1 n2).myDomain = root.myDomain :=
      newRoot_wellFormed hh (by simp [hid₁]) (by simp [hid₂]) (by simp [hid₁, hid₂])
    refine ⟨hwf', hdom, fun hw => ?_⟩
    have hnil : s.leafNodes2Split = [] := by simpa [Waiting] using hw
    simp [Waiting, hnil]
  | ⟨h + 1, root⟩, hwf, hrun =>
    rw [splitNode] at hrun
    obtain ⟨⟨root₁, t⟩, hunder, hrun⟩ := bind_eq_ok hrun
    obtain ⟨hwf₁, -, hdom, -, hkept⟩ := splitUnder_wellFormed hwf hunder
    have hwait : Waiting ⟨h + 1, root⟩ (leaf :: s.leafNodes2Split) →
        Waiting ⟨h + 1, root₁⟩ t.leafNodes2Split := fun hw leaf' hl =>
      (hkept.waits leaf' hl).elim (fun hl => hkept.subset (hw leaf' (List.mem_cons_of_mem _ hl))) id
    dsimp only at hrun
    split at hrun
    · obtain ⟨⟨⟨n1, n2⟩, p⟩, hsplit, hrun⟩ := bind_eq_ok hrun
      cases hrun
      have hle : t.next ≤ t.next + 2 := Nat.le_add_right _ 2
      have hkeys := hwf₁.2.mono hle fun _ _ => WellFormed.mono hle
      obtain ⟨hh, hid₁, hid₂, hle', hleaves⟩ := splitNonLeafWith_halves
        (p := ⟨t.leafNodes2Split, t.next + 2⟩) (splitEntry_halves h) rfl rfl hkeys hsplit
      rw [HierIndex.newInstance_myOId] at hid₁ hid₂
      obtain ⟨hwf', hdom'⟩ := newRoot_wellFormed (h := h + 1) hh
        (hid₁ ▸ lt_of_lt_of_le (by simp) hle') (hid₂ ▸ lt_of_lt_of_le (by simp) hle')
        (by simp [hid₁, hid₂])
      have hnew : leaves (h := h + 2) (newRoot root₁ n1 n2) = leaves n2 ∪ leaves n1 := by
        rw [newRoot, insertHalves_leaves ⟨root₁.myOId, root₁.myDomain, []⟩ .nil, leavesOf_nil,
          Set.union_empty]
      refine ⟨hwf', hdom'.trans hdom, fun hw leaf' hl => hnew ▸ Or.symm ?_⟩
      exact (hleaves.waits leaf' hl).elim
        (fun hl => hleaves.subset (leaves_succ root₁ ▸ hwait hw leaf' hl)) id
    · cases hrun
      exact ⟨hwf₁, hdom, hwait⟩

/-- **`splitNodes` keeps the invariant.** -/
theorem splitNodes_wellFormed : ∀ {fuel : ℕ} {root root' : Σ h, Tree d h} {s s' : SplitState},
    WellFormed S s.next root.1 root.2 → splitNodes cap fuel root s = some (.ok (root', s')) →
      WellFormed S s'.next root'.1 root'.2 ∧ root'.2.myDomain = root.2.myDomain
  | 0, _, _, _, _, _, hrun => by cases hrun
  | fuel + 1, root, root', s, s', hwf, hrun => by
    rw [splitNodes] at hrun
    split at hrun
    · cases hrun
      exact ⟨hwf, rfl⟩
    · split at hrun
      · cases hrun
      · next hround =>
        have hstep := fun hwf => splitNode_wellFormed (S := S) hwf hround
        obtain ⟨hwf₁, hdom₁, -⟩ := hstep hwf
        obtain ⟨hwf', hdom'⟩ := splitNodes_wellFormed hwf₁ hrun
        exact ⟨hwf', hdom'.trans hdom₁⟩

end Rasdaman
