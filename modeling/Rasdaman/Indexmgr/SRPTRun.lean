import Rasdaman.Indexmgr.SRPTCuts

/-!
# Indexmgr/SRPTRun — the R+-tree invariant along runs

A run is a sequence of `insertObject2` and `removeObject` calls on a fresh index.  The caller keeps the
stored tiles disjoint, never stores an object id twice, and removes a tile under the domain it was
stored with.  Nothing is assumed of the index that an insertion leaves when it raises.

The invariant survives every call but two kinds.  When the index has grown beyond one leaf, a tile of
`2^64` cells or more may miss children, since `insertObject` looks for them with a search whose area
counter wraps; `Fits` rules this kind out.  And a split whose cut lies outside the domain raises after
the node was emptied; `CutsFit` rules that out, and then no insertion raises.
-/

namespace Rasdaman

open SDirIndexLogic SRPTIndexLogic

variable {d : ℕ} {cap : Capacity} {S : List (KeyObject d OId)} {ix ix' : Index d}
  {key : KeyObject d OId}

/-- The number of levels above the leaves. -/
def Index.height (ix : Index d) : ℕ := (ix.root.map Sigma.fst).getD 0

/-- The index is one leaf, or the tile has fewer than `2^64` cells. -/
def Fits (ix : Index d) (key : KeyObject d OId) : Prop := FitsIndex key ix.height

/-- No area counter wraps, and every split has a cut inside. -/
def InsertFits (cap : Capacity) (ix : Index d) (key : KeyObject d OId) : Prop :=
  Fits ix key ∧ CutsFit cap ix key

/-- The states an index reaches, with the tiles stored by then.  Every inserted tile satisfies `ok`.
An insertion that raises does not store its tile, and leaves any index whatsoever. -/
inductive Run (cap : Capacity) (ok : Index d → KeyObject d OId → Prop) :
    Index d → List (KeyObject d OId) → Prop
  | empty : Run cap ok (Index.empty d) []
  | insert {ix ix' : Index d} {S : List (KeyObject d OId)} {key : KeyObject d OId} {fuel : ℕ} :
      Run cap ok ix S → ok ix key → (∀ e ∈ S, e.object ≠ key.object) →
      (∀ e ∈ S, ¬ e.domain.Intersects key.domain) →
      insertObject2 cap fuel ix key = some (.ok ix') → Run cap ok ix' (key :: S)
  | raise {ix ix' : Index d} {S : List (KeyObject d OId)} {key : KeyObject d OId} {fuel : ℕ}
      {e : RError} : Run cap ok ix S → ok ix key → (∀ e ∈ S, e.object ≠ key.object) →
      (∀ e ∈ S, ¬ e.domain.Intersects key.domain) →
      insertObject2 cap fuel ix key = some (.error e) → Run cap ok ix' S
  | remove {ix : Index d} {S : List (KeyObject d OId)} {key : KeyObject d OId} :
      Run cap ok ix S → (∀ e ∈ S, e.object = key.object → e = key) →
      Run cap ok (removeObject2 ix key).1 (removeStored S key)

/-- The R+-tree invariant of a whole index. -/
def Index.WellFormed (S : List (KeyObject d OId)) (ix : Index d) : Prop :=
  match ix.root with
  | none => S = []
  | some ⟨h, root⟩ => Rasdaman.WellFormed S ix.next h root

/-- The stored tiles lie in the domain of the root. -/
def Index.Contains (S : List (KeyObject d OId)) (ix : Index d) : Prop :=
  ∀ h root, ix.root = some ⟨h, root⟩ → ∀ k ∈ S, root.myDomain.Covers k.domain

/-- A root that is well formed and has room for a new tile. -/
structure Prepared (S : List (KeyObject d OId)) (next : OId) (newDom : Box d) (height : ℕ)
    (r : Σ h, Tree d h) : Prop where
  wf : Rasdaman.WellFormed S next r.1 r.2
  covers : r.2.myDomain.Covers newDom
  contains : ∀ k ∈ S, r.2.myDomain.Covers k.domain
  height_eq : r.1 = height

/-- A root without entries is a leaf, and then no tile is stored. -/
theorem prepared_of_empty {next : OId} : ∀ {h : ℕ} {root : Tree d h}, WellFormed S next h root →
    (∀ k ∈ S, root.myDomain.Covers k.domain) → root.myKeyObjects = [] → ∀ newDom : Box d,
      Prepared S next newDom h ⟨h, root.setAssignedDomain newDom⟩
  | 0, root, hwf, hin, hnil, newDom => by
    have hS : S = [] := by
      refine List.eq_nil_iff_forall_not_mem.mpr fun k hk => ?_
      have hmeet : k.domain.Intersects root.myDomain :=
        .of_mem k.domain.low_mem (Box.covers_iff.mp (hin k hk) _ k.domain.low_mem)
      have hmem : k ∈ root.myKeyObjects :=
        hwf.2.mem_iff.mpr (List.mem_filter.mpr ⟨hk, by simpa using hmeet⟩)
      simp [hnil] at hmem
    subst hS
    exact ⟨⟨by rw [HierIndex.setAssignedDomain_myKeyObjects, hnil]; exact .nil, by simp [hnil]⟩,
      .refl _, by simp, rfl⟩
  | h + 1, root, hwf, hin, hnil, newDom => by
    obtain ⟨b, hb, -⟩ := (hwf.2.tiles.mem_iff _).mp root.myDomain.low_mem
    simp [hnil] at hb

/-- The first half of `insertObject2` makes room for the new tile. -/
theorem prepare_prepared (hwf : ix.WellFormed S) (hin : ix.Contains S) (newDom : Box d) :
    Prepared S ix.next newDom ix.height (prepare newDom ix.root) := by
  obtain ⟨root, next⟩ := ix
  match root, hwf, hin with
  | none, hwf, _ =>
    obtain rfl : S = [] := hwf
    exact ⟨⟨.nil, .nil⟩, .refl _, by simp, rfl⟩
  | some ⟨h, root⟩, hwf, hin =>
    have hin := hin h root rfl
    have hwf : Rasdaman.WellFormed S next h root := hwf
    rw [prepare]
    split
    · next hsize => exact prepared_of_empty hwf hin (List.length_eq_zero_iff.mp hsize) newDom
    · split
      · obtain ⟨hwf', hdom⟩ := extendRoot_wellFormed newDom hin hwf
        refine ⟨hwf', ?_, fun k hk => ?_, rfl⟩
        · exact hdom ▸ Box.closureWith_covers_right _ _
        · exact hdom ▸ (Box.closureWith_covers_left _ _).trans (hin k hk)
      · next hext =>
        refine ⟨hwf, fun i => ?_, hin, rfl⟩
        simp only [extend, List.any_eq_true, not_exists, not_and, Bool.or_eq_true,
          decide_eq_true_eq, not_or, not_lt] at hext
        exact hext i (List.mem_finRange i)

/-- **One `insertObject2` call does not raise** if its areas and cuts fit. -/
theorem insertObject2_ne_error {fuel : ℕ} {e : RError} (hwf : ix.WellFormed S)
    (hin : ix.Contains S) (hfits : InsertFits cap ix key) :
    insertObject2 cap fuel ix key ≠ some (.error e) := by
  have hprep := prepare_prepared hwf hin key.domain
  have hcuts := hfits.2 fuel
  simp only [cutsFitWithin] at hcuts
  simp only [insertObject2]
  revert hprep hcuts
  generalize prepare key.domain ix.root = r
  obtain ⟨h, root⟩ := r
  rintro ⟨hwf₁, hnew, -, hheight⟩ hcuts
  have hmeet : root.myDomain.Intersects key.domain :=
    .of_mem (Box.covers_iff.mp hnew _ key.domain.low_mem) key.domain.low_mem
  have hheight : h = ix.height := hheight
  have hfits : FitsIndex key h := hheight.symm ▸ hfits.1
  obtain ⟨root₁, waiting, hins, hleaves, hwaits, hone⟩ :=
    @insertObject_returns _ _ _ cap key h root [] hfits hmeet hwf₁
  obtain ⟨hwf₂, -, -⟩ := insertObject_wellFormed hfits hmeet hwf₁ hins
  have hwait : Waiting ⟨h, root₁⟩ waiting := by
    cases h with
    | zero => exact hone rfl
    | succ h => exact fun leaf hl => hleaves ▸ (hwaits leaf hl).resolve_left List.not_mem_nil
  simp only [hins] at hcuts ⊢
  intro hrun
  obtain ⟨res, hres, hmap⟩ := Option.map_eq_some_iff.mp hrun
  cases res with
  | ok r => cases hmap
  | error e' =>
    exact splitNodes_ne_error (s := ⟨⟨waiting, ix.next⟩, ⟨0, 0⟩⟩) hwf₂ hwait hcuts hres

/-- **One `insertObject2` call keeps the invariant.** -/
theorem insertObject2_wellFormed {fuel : ℕ} (hwf : ix.WellFormed S) (hin : ix.Contains S)
    (hfits : Fits ix key) (hrun : insertObject2 cap fuel ix key = some (.ok ix')) :
    ix'.WellFormed (key :: S) ∧ ix'.Contains (key :: S) := by
  have hprep := prepare_prepared hwf hin key.domain
  simp only [insertObject2] at hrun
  revert hprep hrun
  generalize prepare key.domain ix.root = r
  obtain ⟨h, root⟩ := r
  rintro hrun ⟨hwf₁, hnew, hold, hheight⟩
  rcases hins : SRPTIndexLogic.insertObject cap key h root [] with err | ⟨root₁, leaves⟩
  · simp [hins] at hrun
  · simp only [hins] at hrun
    have hmeet : root.myDomain.Intersects key.domain :=
      .of_mem (Box.covers_iff.mp hnew _ key.domain.low_mem) key.domain.low_mem
    have hheight : h = ix.height := hheight
    have hfits : FitsIndex key h := hheight.symm ▸ hfits
    obtain ⟨hwf₂, -, hdom₂⟩ := insertObject_wellFormed hfits hmeet hwf₁ hins
    obtain ⟨res, hres, hmap⟩ := Option.map_eq_some_iff.mp hrun
    rcases res with e | ⟨⟨h', root'⟩, s⟩
    · cases hmap
    · cases hmap
      have hsplit := fun hwf => splitNodes_wellFormed (S := key :: S) hwf hres
      obtain ⟨hwf₃, hdom₃⟩ := hsplit hwf₂
      refine ⟨hwf₃, fun h₀ root₀ heq k hk => ?_⟩
      cases heq
      have hdom : root'.myDomain = root.myDomain := hdom₃.trans hdom₂
      rw [hdom]
      rcases List.mem_cons.mp hk with rfl | hk
      · exact hnew
      · exact hold k hk

theorem removeObject2_wellFormed (hids : (S.map (·.object)).Nodup)
    (hsame : ∀ e ∈ S, e.object = key.object → e = key) (hwf : ix.WellFormed S)
    (hin : ix.Contains S) :
    (removeObject2 ix key).1.WellFormed (removeStored S key) ∧
      (removeObject2 ix key).1.Contains (removeStored S key) := by
  obtain ⟨root, next⟩ := ix
  match root, hwf, hin with
  | none, hwf, _ =>
    obtain rfl : S = [] := hwf
    exact ⟨rfl, fun h root heq => by cases heq⟩
  | some ⟨h, root⟩, hwf, hin =>
    have hwf : Rasdaman.WellFormed S next h root := hwf
    obtain ⟨hwf', -, hdom⟩ := removeObject_wellFormed hids hsame hwf
    refine ⟨hwf', fun h₀ root₀ heq k hk => ?_⟩
    cases heq
    exact hdom ▸ hin h root rfl k (List.mem_of_mem_filter hk)

/-- What every state of a run satisfies. -/
structure Index.Sound (S : List (KeyObject d OId)) (ix : Index d) : Prop where
  wf : ix.WellFormed S
  contains : ix.Contains S
  nodup : (S.map (·.object)).Nodup
  disjoint : S.Pairwise fun a b => ¬ a.domain.Intersects b.domain

theorem Index.Sound.insert {fuel : ℕ} (h : ix.Sound S) (hfits : Fits ix key)
    (hfresh : ∀ e ∈ S, e.object ≠ key.object) (hdisj : ∀ e ∈ S, ¬ e.domain.Intersects key.domain)
    (hcall : insertObject2 cap fuel ix key = some (.ok ix')) : ix'.Sound (key :: S) := by
  obtain ⟨hwf, hin⟩ := insertObject2_wellFormed h.wf h.contains hfits hcall
  refine ⟨hwf, hin, ?_, ?_⟩
  · rw [List.map_cons, List.nodup_cons]
    refine ⟨fun hmem => ?_, h.nodup⟩
    obtain ⟨e, he, heq⟩ := List.mem_map.mp hmem
    exact hfresh e he heq
  · exact List.pairwise_cons.mpr ⟨fun e he hi => hdisj e he hi.symm, h.disjoint⟩

theorem Index.Sound.remove (h : ix.Sound S) (hsame : ∀ e ∈ S, e.object = key.object → e = key) :
    (removeObject2 ix key).1.Sound (removeStored S key) := by
  obtain ⟨hwf, hin⟩ := removeObject2_wellFormed h.nodup hsame h.wf h.contains
  exact ⟨hwf, hin, h.nodup.sublist (List.filter_sublist.map _), h.disjoint.filter _⟩

theorem Run.sound {ix : Index d} {S : List (KeyObject d OId)} (hrun : Run cap (InsertFits cap) ix S) :
    ix.Sound S := by
  induction hrun with
  | empty => exact ⟨rfl, fun _ _ heq => (by cases heq), List.nodup_nil, .nil⟩
  | insert _ hfits hfresh hdisj hcall ih => exact ih.insert hfits.1 hfresh hdisj hcall
  | raise _ hfits _ _ hcall ih => exact absurd hcall (insertObject2_ne_error ih.wf ih.contains hfits)
  | remove _ hsame ih => exact ih.remove hsame

/-- **The R+-tree invariant holds in every state of a run** whose insertions into an index of more
than one leaf are of tiles with fewer than `2^64` cells, and whose splits have their cuts inside. -/
theorem srpt_run_wellFormed (hrun : Run cap (InsertFits cap) ix S) : ix.WellFormed S :=
  hrun.sound.wf

/-! ## Replaying insertions -/

/-- Insert tiles that pass a check into a fresh index, the last one of the list first. -/
def replay (cap : Capacity) (check : Index d → KeyObject d OId → Bool) (fuel : ℕ) :
    List (KeyObject d OId) → Option (Except RError (Index d))
  | [] => some (.ok (Index.empty d))
  | key :: S =>
    match replay cap check fuel S with
    | some (.ok ix) => if check ix key then insertObject2 cap fuel ix key else none
    | r => r

/-- Tiles a caller may store together. -/
def Storable (S : List (KeyObject d OId)) : Prop :=
  S.Pairwise fun a b => b.object ≠ a.object ∧ ¬ b.domain.Intersects a.domain

instance (S : List (KeyObject d OId)) : Decidable (Storable S) :=
  inferInstanceAs (Decidable (S.Pairwise _))

theorem run_of_replay {ok : Index d → KeyObject d OId → Prop}
    {check : Index d → KeyObject d OId → Bool} {fuel : ℕ} :
    ∀ {S : List (KeyObject d OId)} {ix : Index d}, replay cap check fuel S = some (.ok ix) →
      Storable S → (∀ ix ix', ∀ k ∈ S, check ix k = true →
        insertObject2 cap fuel ix k = some (.ok ix') → ok ix k) → Run cap ok ix S
  | [], _, h, _, _ => by
    cases h
    exact .empty
  | key :: S, ix, h, hst, hok => by
    obtain ⟨hkey, hS⟩ := List.pairwise_cons.mp hst
    rw [replay] at h
    split at h
    · next hrest =>
      split at h
      · next hcheck =>
        refine .insert (run_of_replay hrest hS fun ix ix' k hk =>
          hok ix ix' k (List.mem_cons_of_mem _ hk))
          (hok _ _ key (List.mem_cons_self ..) hcheck h) (fun e he => (hkey e he).1)
          (fun e he => (hkey e he).2) h
      · cases h
    · next hno => exact absurd h (hno ix)

/-- Every leaf has as many entries as stored tiles meet it. -/
def leavesComplete (S : List (KeyObject d OId)) : (h : ℕ) → Tree d h → Bool
  | 0, ix => ix.myKeyObjects.length == (S.filter fun k => k.domain.Intersects ix.myDomain).length
  | h + 1, ix => ix.myKeyObjects.all fun e => leavesComplete S h e.object

theorem WellFormed.leavesComplete {next : OId} : ∀ {h : ℕ} {ix : Tree d h},
    WellFormed S next h ix → Rasdaman.leavesComplete S h ix = true
  | 0, _, hwf => beq_iff_eq.mpr hwf.2.length_eq
  | _ + 1, _, hwf => List.all_eq_true.mpr fun e he => (hwf.2.wf e he).leavesComplete

/-- Every leaf of an index is complete. -/
def Index.leavesComplete (S : List (KeyObject d OId)) (ix : Index d) : Bool :=
  ix.root.all fun r => Rasdaman.leavesComplete S r.1 r.2

theorem Index.WellFormed.leavesComplete (hwf : ix.WellFormed S) : ix.leavesComplete S = true := by
  obtain ⟨root, next⟩ := ix
  match root, hwf with
  | none, _ => rfl
  | some ⟨_, _⟩, hwf => exact Rasdaman.WellFormed.leavesComplete hwf

/-- A check on the index a replay ends with. -/
def replayed (check : Index d → Bool) : Option (Except RError (Index d)) → Bool
  | some (.ok ix) => check ix
  | _ => false

theorem exists_of_replayed (check : Index d → Bool) (r : Option (Except RError (Index d)))
    (h : replayed check r = true) : ∃ ix, r = some (.ok ix) ∧ check ix = true := by
  match r, h with
  | some (.ok ix), h => exact ⟨ix, rfl, h⟩

/-- Three tiles of one cell each, in a row. -/
def rowOfTiles : List (KeyObject 2 OId) :=
  [⟨103, ⟨![2, 0], ![2, 0], by decide⟩⟩, ⟨102, ⟨![1, 0], ![1, 0], by decide⟩⟩,
    ⟨101, ⟨![0, 0], ![0, 0], by decide⟩⟩]

/-- A tile above the row; right of its first column it has `2^64` cells. -/
def giantTile : KeyObject 2 OId := ⟨104, ⟨![0, 1], ![2 ^ 32, 2 ^ 32], by decide⟩⟩

/-- With three entries to a node, the row splits the root. -/
theorem rowOfTiles_run : ∃ ix : Index 2,
    Run ⟨3, le_rfl⟩ (InsertFits ⟨3, le_rfl⟩) ix rowOfTiles ∧ ix.height = 1 := by
  obtain ⟨ix, hix, hheight⟩ := exists_of_replayed (fun ix => ix.height == 1)
    (replay ⟨3, le_rfl⟩ (cutsFitWithin ⟨3, le_rfl⟩ 5) 5 rowOfTiles) (by decide +kernel)
  refine ⟨ix, run_of_replay hix (by decide) fun ix ix' k hk hcuts hcall =>
    ⟨Or.inr ?_, cutsFit_of_returns hcall hcuts⟩, beq_iff_eq.mp hheight⟩
  simp only [rowOfTiles, List.mem_cons, List.not_mem_nil, or_false] at hk
  rcases hk with rfl | rfl | rfl <;> simp [Box.card_cells, areaModulus]

/-- The invariant of the index that holds the row. -/
theorem srpt_run_wellFormed_row : ∃ ix : Index 2,
    Run ⟨3, le_rfl⟩ (InsertFits ⟨3, le_rfl⟩) ix rowOfTiles ∧ ix.height = 1 ∧ ix.WellFormed rowOfTiles := by
  obtain ⟨ix, hrun, hheight⟩ := rowOfTiles_run
  exact ⟨ix, hrun, hheight, srpt_run_wellFormed hrun⟩

/-- **The giant tile misses a leaf.**  The search for the children it meets starts with the area of
the first child's part, modulo `2^64`, and stops there. -/
theorem srpt_giant_tile_misses_leaf : ∃ ix : Index 2,
    Run ⟨3, le_rfl⟩ (fun _ _ => True) ix (giantTile :: rowOfTiles) ∧
      ¬ ix.WellFormed (giantTile :: rowOfTiles) := by
  obtain ⟨ix, hix, hbad⟩ := exists_of_replayed
    (fun ix => !ix.leavesComplete (giantTile :: rowOfTiles))
    (replay ⟨3, le_rfl⟩ (fun _ _ => true) 5 (giantTile :: rowOfTiles)) (by decide +kernel)
  refine ⟨ix, run_of_replay hix (by decide) fun _ _ _ _ _ _ => trivial, fun hwf => ?_⟩
  simp [hwf.leavesComplete] at hbad

end Rasdaman
