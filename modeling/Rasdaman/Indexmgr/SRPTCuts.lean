import Rasdaman.Indexmgr.SRPTSplit

/-!
# Indexmgr/SRPTCuts — splits that return

`splitNodes` empties a node before it cuts the node's domain at the value that `calculatePartition`
picked.  `set_high` and `set_low` raise if one part would have no cells: the tiles of a leaf may begin
below its domain, and an axis and a value that no choice improves are those of the split before.

`cutsFitNodes` asks of every split that its cut lies inside the domain.  Nothing else can raise:
the halves of an entry that crosses the cut have cells (`Cut.inside_of_crosses`), and a leaf that
waits is found in its parent (`Waiting`).
-/

namespace Rasdaman

open ExceptFold SDirIndexLogic SRPTIndexLogic

variable {d h : ℕ} {S : List (KeyObject d OId)} {next : OId} {cut : Cut} {cap : Capacity}
  {dom : Box d}

/-- Both parts of a domain have cells. -/
def Cut.inside (cut : Cut) (dom : Box d) : Bool :=
  if h : cut.axis < d then
    dom.low ⟨cut.axis, h⟩ < cut.value && cut.value ≤ dom.high ⟨cut.axis, h⟩
  else false

theorem splitDomain_returns (hin : cut.inside dom = true) :
    ∃ nd, splitDomain dom cut = .ok nd := by
  rw [Cut.inside] at hin
  split at hin
  · next hax =>
    simp only [Bool.and_eq_true, decide_eq_true_eq] at hin
    have hlow : dom.low ⟨cut.axis, hax⟩ ≤ cut.value - 1 := by omega
    simp only [splitDomain, dif_pos hax, Box.setHigh, dif_pos hlow, Box.setLow, dif_pos hin.2]
    exact ⟨_, rfl⟩
  · cases hin

/-- A box of the domain that neither part covers is cut inside. -/
theorem Cut.inside_of_crosses {nd1 nd2 b : Box d} (hs : splitDomain dom cut = .ok (nd1, nd2))
    (hb : dom.Covers b) (h₁ : ¬ nd1.Covers b) (h₂ : ¬ nd2.Covers b) : cut.inside b = true := by
  have hmem := splitDomain_mem hs
  have hax : cut.axis < d := by
    by_contra hax
    simp [splitDomain, hax] at hs
  rw [Cut.inside, dif_pos hax, Bool.and_eq_true, decide_eq_true_eq, decide_eq_true_eq]
  constructor
  · by_contra hle
    refine h₂ (Box.covers_iff.mpr fun p hp => (hmem p).2.mpr ⟨Box.covers_iff.mp hb p hp, ?_⟩)
    rintro ⟨_, hlt⟩
    exact hle ((hp _).1.trans_lt hlt)
  · by_contra hlt
    refine h₁ (Box.covers_iff.mpr fun p hp => (hmem p).1.mpr ⟨Box.covers_iff.mp hb p hp, hax, ?_⟩)
    exact (hp _).2.trans_lt (not_le.mp hlt)

/-! ## Downward splits -/

theorem splitLeaf_returns (pd1 pd2 : Tree d 0) (keyvec : List (KeyObject d OId))
    (hin : cut.inside dom = true) : ∃ r, splitLeaf pd1 pd2 keyvec cut dom = .ok r := by
  obtain ⟨nd, hnd⟩ := splitDomain_returns hin
  rw [splitLeaf, hnd]
  exact ⟨_, rfl⟩

/-- How `splitNonLeaf` splits an entry that the cut goes through returns. -/
def EntrySplitReturns (S : List (KeyObject d OId)) (cut : Cut) (f : EntrySplit d h) : Prop :=
  ∀ (entry : Tree d h) (p : Pending), WellFormed S p.next h entry →
    cut.inside entry.myDomain = true → ∃ r, f entry entry.myDomain p = .ok r

/-- **`splitNonLeaf` returns** if the cut goes through the domain. -/
theorem splitNonLeafWith_returns (cap : Capacity) {f : EntrySplit d h} (hf : EntrySplitOk S cut f)
    (hret : EntrySplitReturns S cut f) (pd1 pd2 : Tree d (h + 1)) {p : Pending}
    {keyvec : List (KeyObject d (Tree d h))} (hpd1 : pd1.myKeyObjects = [])
    (hpd2 : pd2.myKeyObjects = []) (hkeys : EntriesWF (WellFormed S p.next h) p.next dom.region keyvec)
    (hin : cut.inside dom = true) :
    ∃ r, splitNonLeafWith cap f pd1 pd2 keyvec cut dom p = .ok r := by
  obtain ⟨⟨nd1, nd2⟩, hs⟩ := splitDomain_returns hin
  have hloop := foldlM_total (f := repopulate cap f nd1 nd2) (l := keyvec)
    (P := Progress S p.next p.leafNodes2Split cut pd1.myOId pd2.myOId)
    (Progress.init p hpd1 hpd2) fun done e rest s hall hP => by
      have he : e ∈ keyvec := hall ▸ List.mem_append_right done (List.mem_cons_self ..)
      have hround : ∃ s', repopulate cap f nd1 nd2 s e = .ok s' := by
        rw [repopulate]
        split_ifs with h₁ h₂
        · exact ⟨_, rfl⟩
        · exact ⟨_, rfl⟩
        · have hcross := Cut.inside_of_crosses hs (hkeys.tiles.covers (List.mem_map_of_mem he)) h₁ h₂
          rw [hkeys.recorded e he] at hcross ⊢
          obtain ⟨r, hr⟩ := hret e.object s.toPending ((hkeys.wf e he).mono hP.next_le) hcross
          rw [hr]
          exact ⟨_, rfl⟩
      obtain ⟨s', hs'⟩ := hround
      exact ⟨s', hs', hP.step hf hs (hall ▸ hkeys) hs'⟩
  obtain ⟨s, hs', -⟩ := hloop
  rw [splitNonLeafWith, hs]
  simp only [bind, Except.bind, hs']
  exact ⟨_, rfl⟩

theorem splitEntry_returns : ∀ h : ℕ, EntrySplitReturns (h := h) S cut (splitEntry cap cut h)
  | 0 => fun entry p _ hin => by
    obtain ⟨r, hr⟩ := splitLeaf_returns (.newInstance p.next entry.myDomain) entry.clear
      entry.myKeyObjects hin
    exact ⟨_, by rw [splitEntry, hr]; rfl⟩
  | h + 1 => fun entry p hwf hin =>
    splitNonLeafWith_returns cap (splitEntry_halves h) (splitEntry_returns h) (.newInstance ..)
      entry.clear rfl rfl (hwf.2.mono (Nat.le_succ p.next) fun _ _ => WellFormed.mono (Nat.le_succ p.next)) hin

/-! ## Upward splits -/

/-- The cuts of one round of `splitNodes` below the root. -/
def cutsFitUnder (cap : Capacity) (leaf : OId) : (h : ℕ) → Tree d (h + 1) → SplitState → Bool
  | 0, parentIxDS, s =>
    match parentIxDS.myKeyObjects.find? fun e => containsLeaf leaf 0 e.object with
    | none => true
    | some e => (calculatePartition s.cut e.object).inside e.domain
  | h + 1, parentIxDS, s =>
    match parentIxDS.myKeyObjects.find? fun e => containsLeaf leaf (h + 1) e.object with
    | none => true
    | some e => cutsFitUnder cap leaf h e.object s &&
      match splitUnder cap leaf h e.object s with
      | .error _ => true
      | .ok (child, s) =>
        !child.isOverFull cap || (calculatePartition s.cut child).inside child.myDomain

/-- The cuts of one round of `splitNodes`. -/
def cutsFitNode (cap : Capacity) (leaf : OId) : (Σ h, Tree d h) → SplitState → Bool
  | ⟨0, root⟩, s => (calculatePartition s.cut root).inside root.myDomain
  | ⟨h + 1, root⟩, s => cutsFitUnder cap leaf h root s &&
    match splitUnder cap leaf h root s with
    | .error _ => true
    | .ok (root, s) => !root.isOverFull cap || (calculatePartition s.cut root).inside root.myDomain

/-- The cuts of `splitNodes`, for at most `fuel` rounds. -/
def cutsFitNodes (cap : Capacity) : ℕ → (Σ h, Tree d h) → SplitState → Bool
  | 0, _, _ => true
  | fuel + 1, root, s =>
    match s.leafNodes2Split with
    | [] => true
    | leaf :: leaves =>
      cutsFitNode cap leaf root { s with leafNodes2Split := leaves } &&
        match splitNode cap leaf root { s with leafNodes2Split := leaves } with
        | .error _ => true
        | .ok (root, s) => cutsFitNodes cap fuel root s

/-- A leaf of a node is found below one of its entries. -/
theorem exists_find_of_mem_leaves {leaf : OId} {ix : Tree d (h + 1)} (hleaf : leaf ∈ leaves ix) :
    ∃ e ∈ ix.myKeyObjects, leaf ∈ leaves e.object ∧
      (ix.myKeyObjects.find? fun e => containsLeaf leaf h e.object) = some e := by
  have hsome : (ix.myKeyObjects.find? fun e => containsLeaf leaf h e.object).isSome := by
    rw [List.find?_isSome]
    exact List.any_eq_true.mp hleaf
  obtain ⟨e, he⟩ := Option.isSome_iff_exists.mp hsome
  have hbelow : containsLeaf leaf h e.object = true := by
    have hsat := List.find?_some he
    exact hsat
  exact ⟨e, List.mem_of_find?_eq_some he, hbelow, he⟩

/-- A round of `splitNodes` below the root returns. -/
theorem splitUnder_returns {leaf : OId} : ∀ {h : ℕ} {parent : Tree d (h + 1)} {s : SplitState},
    WellFormed S s.next (h + 1) parent → leaf ∈ leaves parent →
      cutsFitUnder cap leaf h parent s = true → ∃ r, splitUnder cap leaf h parent s = .ok r
  | 0, parent, s, _, hleaf, hfit => by
    obtain ⟨e, -, -, hfind⟩ := exists_find_of_mem_leaves hleaf
    simp only [cutsFitUnder, hfind] at hfit
    obtain ⟨r, hr⟩ := splitLeaf_returns (.newInstance s.next e.domain) e.object.clear
      e.object.myKeyObjects hfit
    simp only [splitUnder, hfind, hr]
    exact ⟨_, rfl⟩
  | h + 1, parent, s, hwf, hleaf, hfit => by
    obtain ⟨e, he, hbelow, hfind⟩ := exists_find_of_mem_leaves hleaf
    simp only [cutsFitUnder, hfind, Bool.and_eq_true] at hfit
    obtain ⟨⟨child, t⟩, hunder⟩ := splitUnder_returns (hwf.2.wf e he) hbelow hfit.1
    obtain ⟨hchild, -, -, -, -⟩ := splitUnder_wellFormed (hwf.2.wf e he) hunder
    simp only [hunder, Bool.or_eq_true, Bool.not_eq_true'] at hfit
    simp only [splitUnder, hfind, hunder, bind, Except.bind]
    split_ifs with hfull
    · obtain ⟨r, hr⟩ := splitNonLeafWith_returns cap (p := ⟨t.leafNodes2Split, t.next + 1⟩)
        (splitEntry_halves h) (splitEntry_returns h) (.newInstance t.next child.myDomain) child.clear
        rfl rfl
        (hchild.2.mono (Nat.le_succ t.next) fun _ _ => WellFormed.mono (Nat.le_succ _))
        (hfit.2.resolve_left (by simp [hfull]))
      exact ⟨_, by rw [splitNonLeaf, hr]⟩
    · exact ⟨_, rfl⟩

/-- A round of `splitNodes` returns. -/
theorem splitNode_returns {leaf : OId} {root : Σ h, Tree d h} {s : SplitState}
    (hwf : WellFormed S s.next root.1 root.2) (hwait : Waiting root (leaf :: s.leafNodes2Split))
    (hfit : cutsFitNode cap leaf root s = true) : ∃ r, splitNode cap leaf root s = .ok r := by
  match root, hwf, hwait, hfit with
  | ⟨0, root⟩, _, _, hfit =>
    obtain ⟨r, hr⟩ := splitLeaf_returns (.newInstance s.next root.myDomain)
      (.newInstance (s.next + 1) root.myDomain) root.myKeyObjects hfit
    simp only [splitNode, hr]
    exact ⟨_, rfl⟩
  | ⟨h + 1, root⟩, hwf, hwait, hfit =>
    simp only [cutsFitNode, Bool.and_eq_true] at hfit
    obtain ⟨⟨root₁, t⟩, hunder⟩ := splitUnder_returns hwf (hwait leaf (List.mem_cons_self ..)) hfit.1
    obtain ⟨hwf₁, -, -, -, -⟩ := splitUnder_wellFormed hwf hunder
    simp only [hunder, Bool.or_eq_true, Bool.not_eq_true'] at hfit
    simp only [splitNode, hunder, bind, Except.bind]
    split_ifs with hfull
    · have hle : t.next ≤ t.next + 2 := Nat.le_add_right _ 2
      obtain ⟨r, hr⟩ := splitNonLeafWith_returns cap (p := ⟨t.leafNodes2Split, t.next + 2⟩)
        (splitEntry_halves h) (splitEntry_returns h) (.newInstance t.next root₁.myDomain)
        (.newInstance (t.next + 1) root₁.myDomain) rfl rfl
        (hwf₁.2.mono hle fun _ _ => WellFormed.mono hle) (hfit.2.resolve_left (by simp [hfull]))
      exact ⟨_, by rw [splitNonLeaf, hr]⟩
    · exact ⟨_, rfl⟩

/-- **`splitNodes` does not raise** if its cuts fit. -/
theorem splitNodes_ne_error {e : RError} : ∀ {fuel : ℕ} {root : Σ h, Tree d h} {s : SplitState},
    WellFormed S s.next root.1 root.2 → Waiting root s.leafNodes2Split →
      cutsFitNodes cap fuel root s = true → splitNodes cap fuel root s ≠ some (.error e)
  | 0, _, _, _, _, _, hrun => by cases hrun
  | fuel + 1, root, s, hwf, hwait, hfit, hrun => by
    rw [splitNodes] at hrun
    rw [cutsFitNodes] at hfit
    rcases hs : s.leafNodes2Split with - | ⟨leaf, waiting⟩
    · rw [hs] at hrun
      cases hrun
    · rw [hs] at hwait hfit hrun
      obtain ⟨hnode, hrest⟩ := Bool.and_eq_true_iff.mp hfit
      obtain ⟨⟨root', s'⟩, hr⟩ := splitNode_returns (s := { s with leafNodes2Split := waiting }) hwf
        hwait hnode
      obtain ⟨hwf', -, hwait'⟩ := splitNode_wellFormed (s := { s with leafNodes2Split := waiting })
        hwf hr
      simp only [hr] at hrest hrun
      exact splitNodes_ne_error hwf' (hwait' hwait) hrest hrun

/-- Once the splitting is over, more rounds cut nothing. -/
theorem cutsFitNodes_of_returns {r : (Σ h, Tree d h) × SplitState} : ∀ {fuel : ℕ}
    {root : Σ h, Tree d h} {s : SplitState}, splitNodes cap fuel root s = some (.ok r) →
      cutsFitNodes cap fuel root s = true → ∀ fuel', cutsFitNodes cap fuel' root s = true
  | 0, _, _, hrun, _, _ => by cases hrun
  | _ + 1, _, _, _, _, 0 => rfl
  | fuel + 1, root, s, hrun, hfit, fuel' + 1 => by
    rw [splitNodes] at hrun
    rw [cutsFitNodes] at hfit ⊢
    split at hrun
    · next hnil => simp only [hnil]
    · next leaf waiting hs =>
      simp only [hs, Bool.and_eq_true] at hfit ⊢
      refine ⟨hfit.1, ?_⟩
      split at hrun
      · cases hrun
      · next hr =>
        simp only [hr] at hfit ⊢
        exact cutsFitNodes_of_returns hrun hfit.2 fuel'

/-! ## Insertion -/

/-- **`insertObject` returns**, and the leaves it reports are in the index. -/
theorem insertObject_returns (cap : Capacity) {key : KeyObject d OId} : ∀ {h : ℕ} {ix : Tree d h} {waiting : List OId},
    FitsIndex key h → ix.myDomain.Intersects key.domain → WellFormed S next h ix →
      ∃ ix' waiting', SRPTIndexLogic.insertObject cap key h ix waiting = .ok (ix', waiting') ∧
        leaves ix' = leaves ix ∧ (∀ leaf ∈ waiting', leaf ∈ waiting ∨ leaf ∈ leaves ix) ∧
        (h = 0 → waiting'.length ≤ waiting.length + 1)
  | 0, ix, waiting, _, _, _ => by
    refine ⟨_, _, rfl, by rw [leaves_zero, leaves_zero]; rfl, fun leaf hl => ?_, fun _ => ?_⟩
    · rw [leaves_zero]
      split_ifs at hl
      · exact (List.mem_append.mp hl).imp_right List.mem_singleton.mp
      · exact Or.inl hl
    · split_ifs <;> simp
  | h + 1, ix, waiting, hfits, hmeet, hwf => by
    have hcard : key.domain.cells.card < areaModulus := hfits.resolve_left (Nat.succ_ne_zero h)
    obtain ⟨nodes, hnodes, hperm⟩ := intersect_perm ix key.domain hwf.1 hwf.2.disjoint
      (fun e he => hwf.2.tiles.covers (List.mem_map_of_mem he))
      ((Finset.card_le_card Finset.inter_subset_right).trans_lt hcard)
    have hmem : ∀ n ∈ nodes, n ∈ ix.myKeyObjects ∧ n.domain.Intersects key.domain := fun n hn => by
      simpa using List.mem_filter.mp (hperm.mem_iff.mp hn)
    rw [leaves_succ, SRPTIndexLogic.insertObject, hnodes]
    -- Round by round, the children keep their leaves.
    obtain ⟨⟨ix', waiting'⟩, hrun, hsame, hleaves, hwaits⟩ := foldlM_total
      (f := fun (s : Tree d (h + 1) × List OId) (node : KeyObject d (Tree d h)) => do
        let r ← SRPTIndexLogic.insertObject cap key h node.object s.2
        .ok (s.1.withChild r.1, r.2)) (l := nodes) (s := (ix, waiting))
      (P := fun _ s => (∀ e ∈ s.1.myKeyObjects, ∀ n ∈ ix.myKeyObjects,
          e.object.myOId = n.object.myOId → leaves e.object = leaves n.object) ∧
        leavesOf s.1.myKeyObjects = leavesOf ix.myKeyObjects ∧
        ∀ leaf ∈ s.2, leaf ∈ waiting ∨ leaf ∈ leavesOf ix.myKeyObjects)
      ⟨fun e he n hn heq => by rw [hwf.2.eq_of_myOId_eq he hn heq], rfl, fun _ => Or.inl⟩ <| by
        rintro done n rest ⟨t, w⟩ hall ⟨hsame, hleaves, hwaits⟩
        obtain ⟨hn, hmeet⟩ := hmem n (hall ▸ List.mem_append_right done (List.mem_cons_self ..))
        have hmeet : n.object.myDomain.Intersects key.domain := hwf.2.recorded n hn ▸ hmeet
        obtain ⟨child, w', hchild, hkept, hw', -⟩ := insertObject_returns cap (Or.inr hcard)
          hmeet (hwf.2.wf n hn)
        obtain ⟨-, hid, -⟩ := insertObject_wellFormed (Or.inr hcard) hmeet (hwf.2.wf n hn) hchild
        refine ⟨(t.withChild child, w'), by rw [hchild]; rfl, fun e' he' n' hn' heq => ?_, ?_,
          fun leaf hl => ?_⟩
        · obtain ⟨e, he, rfl⟩ := List.mem_map.mp he'
          split_ifs at heq ⊢ with hc
          · obtain rfl := hwf.2.eq_of_myOId_eq hn hn' (hid.symm.trans heq)
            exact hkept
          · exact hsame e he n' hn' heq
        · rw [← hleaves]
          ext leaf
          simp only [mem_leavesOf, HierIndex.withChild, List.mem_map, exists_exists_and_eq_and]
          refine exists_congr fun e => and_congr_right fun he => ?_
          split_ifs with hc
          · rw [hkept, hsame e he n hn (hc.trans hid)]
          · rfl
        · rcases hw' leaf hl with hl | hl
          · exact hwaits leaf hl
          · exact Or.inr ⟨n, hn, hl⟩
    exact ⟨ix', waiting', hrun, (leaves_succ ix').trans hleaves, hwaits,
      fun h0 => absurd h0 (Nat.succ_ne_zero h)⟩

/-- The cuts of an insertion, for at most `fuel` rounds of splitting. -/
def cutsFitWithin (cap : Capacity) (fuel : ℕ) (ixDS : Index d) (newKeyObject : KeyObject d OId) : Bool :=
  let room := prepare newKeyObject.domain ixDS.root
  match SRPTIndexLogic.insertObject cap newKeyObject room.1 room.2 [] with
  | .error _ => true
  | .ok (root, leafNodes2Split) =>
    cutsFitNodes cap fuel ⟨room.1, root⟩ ⟨⟨leafNodes2Split, ixDS.next⟩, ⟨0, 0⟩⟩

/-- Whenever an insertion splits a node, the value that `calculatePartition` picked lies inside the
node's domain: above its low bound and not above its high one. -/
def CutsFit (cap : Capacity) (ix : Index d) (key : KeyObject d OId) : Prop :=
  ∀ fuel, cutsFitWithin cap fuel ix key = true

/-- The cuts of an insertion that returned. -/
theorem cutsFit_of_returns {ix ix' : Index d} {key : KeyObject d OId} {fuel : ℕ}
    (hrun : insertObject2 cap fuel ix key = some (.ok ix'))
    (hfit : cutsFitWithin cap fuel ix key = true) : CutsFit cap ix key := fun fuel' => by
  simp only [insertObject2] at hrun
  simp only [cutsFitWithin] at hfit ⊢
  split at hrun
  · cases hrun
  · next hins =>
    obtain ⟨res, hres, hmap⟩ := Option.map_eq_some_iff.mp hrun
    simp only [hins] at hfit ⊢
    cases res with
    | error e => cases hmap
    | ok r => exact cutsFitNodes_of_returns hres hfit fuel'

end Rasdaman
