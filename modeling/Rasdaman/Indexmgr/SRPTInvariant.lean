import Mathlib
import Rasdaman.Machinery.ExceptFold
import Rasdaman.Raslib.Tiling
import Rasdaman.Indexmgr.SRPTIndexLogic

/-!
# Indexmgr/SRPTInvariant — the R+-tree invariant under insertion and removal

`WellFormed S next h ix` says of an index of height `h` what the R+-tree promises when `S` are the
stored tiles: the entries of every node are sorted, they tile the node's domain, every entry records
its child's domain, and a leaf has exactly the tiles that meet its domain.  It also says that the
ids of the children of a node are distinct and below `next`: the source finds a child by its id.
-/

namespace Rasdaman

open ExceptFold SDirIndexLogic

variable {d : ℕ} {α : Type}

/-- The entries of a node that tile a region, all of whose children have the property `W`. -/
structure EntriesWF (W : HierIndex d α → Prop) (next : OId) (R : Set (Point d))
    (es : List (KeyObject d (HierIndex d α))) : Prop where
  tiles : Tiles R (es.map (·.domain))
  recorded : ∀ e ∈ es, e.domain = e.object.myDomain
  nodup : (es.map (·.object.myOId)).Nodup
  fresh : ∀ e ∈ es, e.object.myOId < next
  wf : ∀ e ∈ es, W e.object

/-- **The invariant of the R+-tree**, `S` being the stored tiles. -/
def WellFormed (S : List (KeyObject d OId)) (next : OId) : (h : ℕ) → Tree d h → Prop
  | 0, ix => SortedByLow ix.myKeyObjects ∧
      ix.myKeyObjects.Perm (S.filter fun k => k.domain.Intersects ix.myDomain)
  | h + 1, ix => SortedByLow ix.myKeyObjects ∧
      EntriesWF (WellFormed S next h) next ix.myDomain.region ix.myKeyObjects

namespace EntriesWF

variable {W W' : HierIndex d α → Prop} {next next' : OId} {R R' : Set (Point d)}
  {es es' : List (KeyObject d (HierIndex d α))} {e : KeyObject d (HierIndex d α)}

theorem nil : EntriesWF W next ∅ [] := ⟨.nil, by simp, by simp, by simp, by simp⟩

theorem perm (h : EntriesWF W next R es) (hp : es.Perm es') : EntriesWF W next R es' where
  tiles := h.tiles.perm (hp.map _)
  recorded := fun e he => h.recorded e (hp.mem_iff.mpr he)
  nodup := (hp.map _).nodup_iff.mp h.nodup
  fresh := fun e he => h.fresh e (hp.mem_iff.mpr he)
  wf := fun e he => h.wf e (hp.mem_iff.mpr he)

theorem congr (h : EntriesWF W next R es) (hR : ∀ p, p ∈ R ↔ p ∈ R') : EntriesWF W next R' es :=
  { h with tiles := h.tiles.congr hR }

theorem mono (h : EntriesWF W next R es) (hn : next ≤ next')
    (hW : ∀ e ∈ es, W e.object → W' e.object) : EntriesWF W' next' R es :=
  { h with
    fresh := fun e he => (h.fresh e he).trans_le hn
    wf := fun e he => hW e he (h.wf e he) }

theorem cons (h : EntriesWF W next R es) {child : HierIndex d α} (hW : W child)
    (hfresh : child.myOId < next) (hid : child.myOId ∉ es.map (·.object.myOId))
    (hout : ∀ p ∈ child.myDomain, p ∉ R) :
    EntriesWF W next (R ∪ child.myDomain.region) (child.toKey :: es) where
  tiles := h.tiles.cons hout
  recorded := List.forall_mem_cons.mpr ⟨rfl, h.recorded⟩
  nodup := List.nodup_cons.mpr ⟨hid, h.nodup⟩
  fresh := List.forall_mem_cons.mpr ⟨hfresh, h.fresh⟩
  wf := List.forall_mem_cons.mpr ⟨hW, h.wf⟩

theorem tail (h : EntriesWF W next R (e :: es)) : EntriesWF W next (R \ e.domain.region) es where
  tiles := h.tiles.tail
  recorded := fun e' he' => h.recorded e' (List.mem_cons_of_mem _ he')
  nodup := (List.nodup_cons.mp h.nodup).2
  fresh := fun e' he' => h.fresh e' (List.mem_cons_of_mem _ he')
  wf := fun e' he' => h.wf e' (List.mem_cons_of_mem _ he')

theorem toKey_eq (h : EntriesWF W next R es) (he : e ∈ es) : e.object.toKey = e := by
  obtain ⟨obj, dom⟩ := e
  have hr : dom = obj.myDomain := h.recorded _ he
  rw [hr]
  rfl

theorem mem_region (h : EntriesWF W next R es) (he : e ∈ es) {p : Point d} (hp : p ∈ e.domain) :
    p ∈ R :=
  h.tiles.mem_of_mem (List.mem_map_of_mem he) hp

theorem disjoint (h : EntriesWF W next R es) :
    es.Pairwise fun a b => ¬ a.domain.Intersects b.domain :=
  List.pairwise_map.mp h.tiles.disjoint

/-- Entries of one node with the same child id are the same entry. -/
theorem eq_of_myOId_eq (h : EntriesWF W next R es) {e' : KeyObject d (HierIndex d α)} (he : e ∈ es)
    (he' : e' ∈ es) (hid : e.object.myOId = e'.object.myOId) : e = e' :=
  List.inj_on_of_nodup_map h.nodup he he' hid

end EntriesWF

/-! ## Changing children in place -/

/-- `ix'` is `ix` with the children whose ids are in `ids` replaced, in place, by children with the
property `W'` and the same id and domain. -/
structure Updated (W' : HierIndex d α → Prop) (ids : List OId)
    (ix ix' : HierIndex d (HierIndex d α)) : Prop where
  myOId : ix'.myOId = ix.myOId
  myDomain : ix'.myDomain = ix.myDomain
  entries : ∃ g : KeyObject d (HierIndex d α) → KeyObject d (HierIndex d α),
    ix'.myKeyObjects = ix.myKeyObjects.map g ∧ ∀ e ∈ ix.myKeyObjects,
      (g e).domain = e.domain ∧ (g e).object.myOId = e.object.myOId ∧
      (g e).object.myDomain = e.object.myDomain ∧
      (e.object.myOId ∈ ids → W' (g e).object) ∧ (e.object.myOId ∉ ids → g e = e)

namespace Updated

variable {W W' : HierIndex d α → Prop} {ids : List OId} {ix ix' : HierIndex d (HierIndex d α)}

theorem refl (W' : HierIndex d α → Prop) (ix : HierIndex d (HierIndex d α)) : Updated W' [] ix ix :=
  ⟨rfl, rfl, id, by simp, by simp⟩

/-- One more child is replaced. -/
theorem withChild (h : Updated W' ids ix ix') {n : KeyObject d (HierIndex d α)} {child : HierIndex d α}
    (hinj : ∀ e ∈ ix.myKeyObjects, e.object.myOId = n.object.myOId → e = n)
    (hid : child.myOId = n.object.myOId) (hdom : child.myDomain = n.object.myDomain)
    (hW : W' child) : Updated W' (ids ++ [n.object.myOId]) ix (ix'.withChild child) := by
  obtain ⟨g, hg, hspec⟩ := h.entries
  refine ⟨h.myOId, h.myDomain, fun e => if (g e).object.myOId = child.myOId then
    { g e with object := child } else g e, ?_, fun e he => ?_⟩
  · simp only [HierIndex.withChild, hg, List.map_map]
    rfl
  · obtain ⟨h₁, h₂, h₃, h₄, h₅⟩ := hspec e he
    by_cases hn : e.object.myOId = n.object.myOId
    · obtain rfl := hinj e he hn
      simp only [h₂, hid, if_true, hdom, hW, h₁]
      simp
    · have hne : (g e).object.myOId ≠ child.myOId := by rw [h₂, hid]; exact hn
      simp only [hne, if_false, List.mem_append, List.mem_singleton, hn, or_false]
      exact ⟨h₁, h₂, h₃, h₄, h₅⟩

/-- **A node with changed children is well formed** if the other children keep up with the change. -/
theorem entriesWF (h : Updated W' ids ix ix') {next : OId} {R : Set (Point d)}
    (hwf : EntriesWF W next R ix.myKeyObjects)
    (hrest : ∀ e ∈ ix.myKeyObjects, e.object.myOId ∉ ids → W' e.object) :
    EntriesWF W' next R ix'.myKeyObjects := by
  obtain ⟨g, hg, hspec⟩ := h.entries
  rw [hg]
  have hmem : ∀ e ∈ ix.myKeyObjects.map g, ∃ e₀ ∈ ix.myKeyObjects, g e₀ = e :=
    fun e he => List.mem_map.mp he
  refine ⟨?_, fun e he => ?_, ?_, fun e he => ?_, fun e he => ?_⟩
  · have hdom : (ix.myKeyObjects.map g).map (·.domain) = ix.myKeyObjects.map (·.domain) := by
      rw [List.map_map]
      exact List.map_congr_left fun e he => (hspec e he).1
    rw [hdom]
    exact hwf.tiles
  · obtain ⟨e₀, he₀, rfl⟩ := hmem e he
    rw [(hspec e₀ he₀).1, (hspec e₀ he₀).2.2.1, hwf.recorded e₀ he₀]
  · have hids : (ix.myKeyObjects.map g).map (·.object.myOId)
        = ix.myKeyObjects.map (·.object.myOId) := by
      rw [List.map_map]
      exact List.map_congr_left fun e he => (hspec e he).2.1
    rw [hids]
    exact hwf.nodup
  · obtain ⟨e₀, he₀, rfl⟩ := hmem e he
    rw [(hspec e₀ he₀).2.1]
    exact hwf.fresh e₀ he₀
  · obtain ⟨e₀, he₀, rfl⟩ := hmem e he
    by_cases hin : e₀.object.myOId ∈ ids
    · exact (hspec e₀ he₀).2.2.2.1 hin
    · rw [(hspec e₀ he₀).2.2.2.2 hin]
      exact hrest e₀ he₀ hin

theorem sorted (h : Updated W' ids ix ix') (hs : SortedByLow ix.myKeyObjects) :
    SortedByLow ix'.myKeyObjects := by
  obtain ⟨g, hg, hspec⟩ := h.entries
  rw [hg, SortedByLow, List.pairwise_map]
  refine hs.imp_of_mem fun {a b} ha hb hab => ?_
  rw [(hspec a ha).1, (hspec b hb).1]
  exact hab

end Updated

/-! ## Changing the set of stored tiles -/

variable {S S' : List (KeyObject d OId)} {next next' : OId}

theorem WellFormed.mono : ∀ {h : ℕ} {ix : Tree d h}, next ≤ next' → WellFormed S next h ix →
    WellFormed S next' h ix
  | 0, _, _, hwf => hwf
  | _ + 1, _, hn, hwf => ⟨hwf.1, hwf.2.mono hn fun _ _ => WellFormed.mono hn⟩

theorem WellFormed.sorted : ∀ {h : ℕ} {ix : Tree d h}, WellFormed S next h ix →
    SortedByLow ix.myKeyObjects
  | 0, _, hwf => hwf.1
  | _ + 1, _, hwf => hwf.1

/-- An index only depends on the stored tiles through those that meet parts of its domain. -/
theorem WellFormed.congr : ∀ {h : ℕ} {ix : Tree d h},
    (∀ b, ix.myDomain.Covers b → (S.filter fun k => k.domain.Intersects b).Perm
      (S'.filter fun k => k.domain.Intersects b)) →
    WellFormed S next h ix → WellFormed S' next h ix
  | 0, ix, hS, hwf => ⟨hwf.1, hwf.2.trans (hS _ (.refl _))⟩
  | h + 1, ix, hS, hwf => by
    refine ⟨hwf.1, hwf.2.mono le_rfl fun e he => WellFormed.congr fun b hb => hS b ?_⟩
    have hcov : ix.myDomain.Covers e.domain := hwf.2.tiles.covers (List.mem_map_of_mem he)
    rw [hwf.2.recorded e he] at hcov
    exact hcov.trans hb

/-- A tile that does not meet an index does not change it. -/
theorem WellFormed.cons_of_not_intersects {h : ℕ} {ix : Tree d h} {key : KeyObject d OId}
    (hn : ¬ ix.myDomain.Intersects key.domain) (hwf : WellFormed S next h ix) :
    WellFormed (key :: S) next h ix := by
  refine hwf.congr fun b hb => ?_
  have hkey : ¬ key.domain.Intersects b := fun hi => by
    obtain ⟨p, hpk, hpb⟩ := Box.intersects_iff.mp hi
    exact hn (.of_mem (Box.covers_iff.mp hb p hpb) hpk)
  rw [List.filter_cons_of_neg (by simpa using hkey)]

/-! ## Insertion -/

/-- The cells of the tile fit the area counter, or the index is one leaf and counts no cells. -/
def FitsIndex (key : KeyObject d OId) (h : ℕ) : Prop := h = 0 ∨ key.domain.cells.card < areaModulus

/-- **`insertObject` puts the tile into every leaf it meets** and changes no domain. -/
theorem insertObject_wellFormed {cap : Capacity} {key : KeyObject d OId} :
    ∀ {h : ℕ} {ix ix' : Tree d h} {leaves leaves' : List OId}, FitsIndex key h →
      ix.myDomain.Intersects key.domain → WellFormed S next h ix →
      SRPTIndexLogic.insertObject cap key h ix leaves = .ok (ix', leaves') →
      WellFormed (key :: S) next h ix' ∧ ix'.myOId = ix.myOId ∧ ix'.myDomain = ix.myDomain
  | 0, ix, ix', leaves, leaves', _, hmeet, hwf, hrun => by
    cases hrun
    refine ⟨⟨insertObject_sorted ix key hwf.1, ?_⟩, rfl, rfl⟩
    refine (insertObject_perm ix key hwf.1).trans ?_
    rw [HierIndex.setAssignedDomain_myDomain,
      List.filter_cons_of_pos (by simpa using hmeet.symm)]
    exact hwf.2.cons key
  | h + 1, ix, ix', leaves, leaves', hfits, hmeet, hwf, hrun => by
    have hcard : key.domain.cells.card < areaModulus := hfits.resolve_left (Nat.succ_ne_zero h)
    rw [SRPTIndexLogic.insertObject] at hrun
    obtain ⟨nodes, hnodes, hrun⟩ := bind_eq_ok hrun
    obtain ⟨nodes', hnodes', hperm⟩ := intersect_perm ix key.domain hwf.1 hwf.2.disjoint
      (fun e he => hwf.2.tiles.covers (List.mem_map_of_mem he))
      ((Finset.card_le_card Finset.inter_subset_right).trans_lt hcard)
    rw [hnodes] at hnodes'
    cases hnodes'
    have hmem : ∀ n ∈ nodes, n ∈ ix.myKeyObjects ∧ n.domain.Intersects key.domain := fun n hn => by
      simpa using List.mem_filter.mp (hperm.mem_iff.mp hn)
    -- Round by round, the children visited so far hold the tile.
    have hupd : Updated (WellFormed (key :: S) next h) (nodes.map (·.object.myOId)) ix ix' := by
      refine foldlM_inv (P := fun done s =>
        Updated (WellFormed (key :: S) next h) (done.map (·.object.myOId)) ix s.1) hrun (.refl _ ix) ?_
      intro done n rest s s' hall hP hround
      obtain ⟨⟨child, q⟩, hchild, hround⟩ := bind_eq_ok hround
      cases hround
      have hn := hmem n (hall ▸ by simp)
      have hrec := hwf.2.recorded n hn.1
      obtain ⟨hW, hid, hdom⟩ := insertObject_wellFormed (Or.inr hcard) (hrec ▸ hn.2)
        (hwf.2.wf n hn.1) hchild
      rw [List.map_append]
      exact hP.withChild (fun e he heq => hwf.2.eq_of_myOId_eq he hn.1 heq) hid hdom hW
    refine ⟨⟨hupd.sorted hwf.1, ?_⟩, hupd.myOId, hupd.myDomain⟩
    rw [hupd.myDomain]
    refine hupd.entriesWF hwf.2 fun e he hout => (hwf.2.wf e he).cons_of_not_intersects fun hi => hout ?_
    rw [← hwf.2.recorded e he] at hi
    exact List.mem_map_of_mem (hperm.mem_iff.mpr (List.mem_filter.mpr ⟨he, by simpa using hi⟩))

/-! ## Removal -/

/-- The stored tiles after a removal. -/
def removeStored (S : List (KeyObject d OId)) (key : KeyObject d OId) : List (KeyObject d OId) :=
  S.filter fun e => e.object ≠ key.object

/-- Erasing the first match from a list without two matches. -/
theorem eraseP_eq_filter {β : Type} {p : β → Bool} {l : List β}
    (h : l.Pairwise fun a b => ¬ (p a = true ∧ p b = true)) :
    (l.eraseP p) = l.filter fun a => !p a := by
  induction l with
  | nil => rfl
  | cons a l ih =>
    obtain ⟨ha, hl⟩ := List.pairwise_cons.mp h
    by_cases hp : p a = true
    · rw [List.eraseP_cons_of_pos hp, List.filter_cons_of_neg (by simp [hp])]
      refine (List.filter_eq_self.mpr fun b hb => ?_).symm
      have := ha b hb
      simp_all
    · rw [List.eraseP_cons_of_neg hp, List.filter_cons_of_pos (by simp [hp]), ih hl]

theorem WellFormed.remove_of_not_intersects {h : ℕ} {ix : Tree d h} {key : KeyObject d OId}
    (hsame : ∀ e ∈ S, e.object = key.object → e = key)
    (hn : ¬ ix.myDomain.Intersects key.domain) (hwf : WellFormed S next h ix) :
    WellFormed (removeStored S key) next h ix := by
  refine hwf.congr fun b hb => ?_
  rw [removeStored, List.filter_filter]
  refine .of_eq (List.filter_congr fun e he => ?_)
  by_cases hid : e.object = key.object
  · obtain rfl := hsame e he hid
    have hb' : ¬ e.domain.Intersects b := fun hi => by
      obtain ⟨p, hpk, hpb⟩ := Box.intersects_iff.mp hi
      exact hn (.of_mem (Box.covers_iff.mp hb p hpb) hpk)
    simp [hb']
  · simp [hid]

/-- **`removeObject` takes the tile out of every leaf it meets** and changes no domain. -/
theorem removeObject_wellFormed {key : KeyObject d OId} (hids : (S.map (·.object)).Nodup)
    (hsame : ∀ e ∈ S, e.object = key.object → e = key) : ∀ {h : ℕ} {ix : Tree d h},
      WellFormed S next h ix →
      WellFormed (removeStored S key) next h (SRPTIndexLogic.removeObject key h ix).1 ∧
        (SRPTIndexLogic.removeObject key h ix).1.myOId = ix.myOId ∧
        (SRPTIndexLogic.removeObject key h ix).1.myDomain = ix.myDomain
  | 0, ix, hwf => by
    rw [SRPTIndexLogic.removeObject]
    split
    · have hnodup : (ix.myKeyObjects.map (·.object)).Nodup :=
        (hwf.2.map _).nodup_iff.mpr (hids.sublist (List.filter_sublist.map _))
      have hone : ix.myKeyObjects.Pairwise fun a b =>
          ¬ ((a.object == key.object) = true ∧ (b.object == key.object) = true) := by
        refine (List.pairwise_map.mp hnodup).imp fun {a b} hab hk => hab ?_
        rw [eq_of_beq hk.1, eq_of_beq hk.2]
      refine ⟨⟨hwf.1.sublist List.eraseP_sublist, ?_⟩, rfl, rfl⟩
      rw [HierIndex.removeTile, eraseP_eq_filter hone, removeStored, List.filter_filter]
      refine (hwf.2.filter _).trans (.of_eq ?_)
      rw [List.filter_filter]
      refine List.filter_congr fun e _ => ?_
      by_cases hid : e.object = key.object <;> simp [hid]
    · next hn => exact ⟨hwf.remove_of_not_intersects hsame hn, rfl, rfl⟩
  | h + 1, ix, hwf => by
    rw [SRPTIndexLogic.removeObject]
    split
    · set nodes := intersectUnOpt ix key.domain with hnodes
      have hmem : ∀ n, n ∈ nodes ↔ n ∈ ix.myKeyObjects ∧ key.domain.Intersects n.domain := fun n => by
        simp [hnodes, intersectUnOpt]
      have hupd := foldl_inv (l := nodes) (s := (ix, false)) (P := fun done (s : Tree d (h + 1) × Bool) =>
        Updated (WellFormed (removeStored S key) next h) (done.map (·.object.myOId)) ix s.1)
        (f := fun s it => (s.1.withChild (SRPTIndexLogic.removeObject key h it.object).1,
          s.2 || (SRPTIndexLogic.removeObject key h it.object).2)) (.refl _ ix) <| by
        intro done n rest s hall hP
        have hn := (hmem n).mp (hall ▸ by simp)
        obtain ⟨hW, hid, hdom⟩ := removeObject_wellFormed hids hsame (hwf.2.wf n hn.1)
        rw [List.map_append]
        exact hP.withChild (fun e he heq => hwf.2.eq_of_myOId_eq he hn.1 heq) hid hdom hW
      refine ⟨⟨hupd.sorted hwf.1, ?_⟩, hupd.myOId, hupd.myDomain⟩
      rw [hupd.myDomain]
      refine hupd.entriesWF hwf.2 fun e he hout =>
        (hwf.2.wf e he).remove_of_not_intersects hsame fun hi => hout ?_
      rw [← hwf.2.recorded e he] at hi
      exact List.mem_map_of_mem ((hmem e).mpr ⟨he, hi.symm⟩)
    · next hn => exact ⟨hwf.remove_of_not_intersects hsame hn, rfl, rfl⟩

/-! ## Extending the faces of the domain -/

section Extend

variable {newDom old e : Box d} {p : Point d}

/-- The nearest point of a box. -/
def Box.clamp (b : Box d) (p : Point d) : Point d := fun i => max (b.low i) (min (p i) (b.high i))

theorem Box.clamp_eq_self {b : Box d} (h : p ∈ b) : b.clamp p = p :=
  funext fun i => by have := h i; simp only [Box.clamp]; omega

open SRPTIndexLogic

theorem extendEntry_self (newDom old : Box d) : extendEntry newDom old old = old.closureWith newDom := by
  refine Box.ext_corners (funext fun i => ?_) (funext fun i => ?_)
  · simp only [extendEntry, extendLo, Box.closureWith, beq_self_eq_true, Bool.and_true,
      decide_eq_true_eq]
    split_ifs <;> omega
  · simp only [extendEntry, extendHi, Box.closureWith, beq_self_eq_true, Bool.and_true,
      decide_eq_true_eq]
    split_ifs <;> omega

/-- **The extended entries are the preimages of the old ones under clamping to the old domain.** -/
theorem mem_extendEntry (hcov : old.Covers e) :
    p ∈ extendEntry newDom old e ↔ p ∈ old.closureWith newDom ∧ old.clamp p ∈ e := by
  simp only [Box.mem_def, ← forall_and]
  refine forall_congr' fun i => ?_
  have hc := hcov i
  have he := e.low_le_high i
  simp only [extendEntry, extendLo, extendHi, Box.closureWith, Box.clamp, Bool.and_eq_true,
    decide_eq_true_eq, beq_iff_eq]
  split_ifs <;> omega

theorem extendEntry_eq_of_not_follow (h : follow newDom old e = false) : extendEntry newDom old e = e := by
  simp only [follow, List.any_eq_false, Bool.or_eq_true, not_or, Bool.not_eq_true] at h
  refine Box.ext_corners (funext fun i => ?_) (funext fun i => ?_)
  · simp [extendEntry, (h i (List.mem_finRange i)).1]
  · simp [extendEntry, (h i (List.mem_finRange i)).2]

theorem extendEntry_covers (newDom old e : Box d) : (extendEntry newDom old e).Covers e := fun i => by
  simp only [extendEntry, extendLo, extendHi, Bool.and_eq_true, decide_eq_true_eq, beq_iff_eq]
  split_ifs <;> omega

/-- A box inside the old domain meets an extended entry exactly when it met the entry. -/
theorem intersects_extendEntry (hcov : old.Covers e) {b : Box d} (hb : old.Covers b) :
    b.Intersects (extendEntry newDom old e) ↔ b.Intersects e := by
  refine ⟨fun hi => ?_, fun hi => ?_⟩
  · obtain ⟨p, hpb, hpe⟩ := Box.intersects_iff.mp hi
    have hp := ((mem_extendEntry hcov).mp hpe).2
    rw [Box.clamp_eq_self (Box.covers_iff.mp hb p hpb)] at hp
    exact .of_mem hpb hp
  · obtain ⟨p, hpb, hpe⟩ := Box.intersects_iff.mp hi
    exact .of_mem hpb (Box.covers_iff.mp (extendEntry_covers newDom old e) p hpe)

theorem extendEntry_low_congr {a b : Box d} {i : Fin d} (h : a.low i = b.low i) :
    (extendEntry newDom old a).low i = (extendEntry newDom old b).low i := by
  have hlo : extendLo newDom old a i = extendLo newDom old b i := by rw [extendLo, extendLo, h]
  simp only [extendEntry, hlo, h]

/-- Moving low faces outward keeps the lexicographic order of low corners. -/
theorem extendEntry_low_le {a b : Box d} (ha : old.Covers a) (hb : old.Covers b)
    (hab : toLex a.low ≤ toLex b.low) :
    toLex (extendEntry newDom old a).low ≤ toLex (extendEntry newDom old b).low := by
  rcases hab.lt_or_eq with hlt | heq
  · obtain ⟨i, hbefore, hi⟩ := hlt
    refine le_of_lt ⟨i, fun j hj => ?_, ?_⟩
    · exact extendEntry_low_congr (hbefore j hj)
    · have hi : a.low i < b.low i := hi
      have := ha i
      have := hb i
      simp only [extendEntry, extendLo, Pi.toLex_apply, Bool.and_eq_true, decide_eq_true_eq,
        beq_iff_eq]
      split_ifs <;> omega
  · have heq : a.low = b.low := toLex.injective heq
    exact le_of_eq (congrArg toLex (funext fun i => extendEntry_low_congr (congrFun heq i)))

theorem Tiles.extendEntry {D : Box d} {bs : List (Box d)} (h : Tiles D.region bs)
    (hcov : old.Covers D) :
    Tiles (SRPTIndexLogic.extendEntry newDom old D).region
      (bs.map (SRPTIndexLogic.extendEntry newDom old)) := by
  have hcovs : ∀ b ∈ bs, old.Covers b := fun b hb => hcov.trans (h.covers hb)
  constructor
  · refine List.pairwise_map.mpr (h.disjoint.imp_of_mem fun {a b} ha hb hab hi => hab ?_)
    obtain ⟨p, hpa, hpb⟩ := Box.intersects_iff.mp hi
    exact .of_mem ((mem_extendEntry (hcovs a ha)).mp hpa).2 ((mem_extendEntry (hcovs b hb)).mp hpb).2
  · intro p
    rw [Box.mem_region, mem_extendEntry hcov]
    refine ⟨fun ⟨hp, hc⟩ => ?_, fun ⟨b', hb', hp⟩ => ?_⟩
    · obtain ⟨b, hb, hpb⟩ := (h.mem_iff _).mp hc
      exact ⟨_, List.mem_map_of_mem hb, (mem_extendEntry (hcovs b hb)).mpr ⟨hp, hpb⟩⟩
    · obtain ⟨b, hb, rfl⟩ := List.mem_map.mp hb'
      obtain ⟨hp, hc⟩ := (mem_extendEntry (hcovs b hb)).mp hp
      exact ⟨hp, h.mem_of_mem hb hc⟩

/-- **`extendFaces` keeps the invariant** when all stored tiles lie in the old domain. -/
theorem extendFaces_wellFormed (newDom : Box d) (hS : ∀ k ∈ S, old.Covers k.domain) : ∀ {h : ℕ} {ix : Tree d h},
    old.Covers ix.myDomain → WellFormed S next h ix →
      WellFormed S next h ((extendFaces newDom old h ix).setAssignedDomain
        (extendEntry newDom old ix.myDomain)) ∧ (extendFaces newDom old h ix).myOId = ix.myOId
  | 0, ix, hcov, hwf => by
    refine ⟨⟨hwf.1, hwf.2.trans (.of_eq (List.filter_congr fun k hk => ?_))⟩, rfl⟩
    exact decide_eq_decide.mpr (intersects_extendEntry hcov (hS k hk)).symm
  | h + 1, ix, hcov, hwf => by
    set g : KeyObject d (Tree d h) → KeyObject d (Tree d h) := fun e =>
      if follow newDom old e.domain then
        ⟨(extendFaces newDom old h e.object).setAssignedDomain (extendEntry newDom old e.domain),
          extendEntry newDom old e.domain⟩
      else e with hg
    have hcovs : ∀ e ∈ ix.myKeyObjects, old.Covers e.domain := fun e he =>
      hcov.trans (hwf.2.tiles.covers (List.mem_map_of_mem he))
    -- Whether or not an entry is followed, it ends up with the extended domain.
    have hspec : ∀ e ∈ ix.myKeyObjects, (g e).domain = extendEntry newDom old e.domain ∧
        (g e).object.myDomain = (g e).domain ∧ (g e).object.myOId = e.object.myOId ∧
        WellFormed S next h (g e).object := by
      intro e he
      have hrec := hwf.2.recorded e he
      by_cases hf : follow newDom old e.domain = true
      · simp only [hg, hf, if_true]
        obtain ⟨hW, hid⟩ := extendFaces_wellFormed newDom hS (hrec ▸ hcovs e he) (hwf.2.wf e he)
        rw [← hrec] at hW
        exact ⟨trivial, rfl, hid, hW⟩
      · simp only [hg, hf]
        exact ⟨(extendEntry_eq_of_not_follow (by simpa using hf)).symm, hrec.symm, rfl, hwf.2.wf e he⟩
    have hmem : ∀ e ∈ ix.myKeyObjects.map g, ∃ e₀ ∈ ix.myKeyObjects, g e₀ = e :=
      fun e he => List.mem_map.mp he
    refine ⟨⟨?_, ?_, fun e he => ?_, ?_, fun e he => ?_, fun e he => ?_⟩, rfl⟩
    · refine List.pairwise_map.mpr (hwf.1.imp_of_mem fun {a b} ha hb hab => ?_)
      change toLex (g a).domain.low ≤ toLex (g b).domain.low
      rw [(hspec a ha).1, (hspec b hb).1]
      exact extendEntry_low_le (hcovs a ha) (hcovs b hb) hab
    · have hdom : (ix.myKeyObjects.map g).map (·.domain)
          = (ix.myKeyObjects.map (·.domain)).map (extendEntry newDom old) := by
        rw [List.map_map, List.map_map]
        exact List.map_congr_left fun e he => (hspec e he).1
      change Tiles _ ((ix.myKeyObjects.map g).map (·.domain))
      rw [hdom]
      exact hwf.2.tiles.extendEntry hcov
    · obtain ⟨e₀, he₀, rfl⟩ := hmem e he
      exact (hspec e₀ he₀).2.1.symm
    · have hids : (ix.myKeyObjects.map g).map (·.object.myOId)
          = ix.myKeyObjects.map (·.object.myOId) := by
        rw [List.map_map]
        exact List.map_congr_left fun e he => (hspec e he).2.2.1
      change ((ix.myKeyObjects.map g).map (·.object.myOId)).Nodup
      rw [hids]
      exact hwf.2.nodup
    · obtain ⟨e₀, he₀, rfl⟩ := hmem e he
      rw [(hspec e₀ he₀).2.2.1]
      exact hwf.2.fresh e₀ he₀
    · obtain ⟨e₀, he₀, rfl⟩ := hmem e he
      exact (hspec e₀ he₀).2.2.2

/-- The domain `extendFaces` leaves in a root that is no leaf. -/
theorem extendFaces_myDomain {h : ℕ} {ix : Tree d (h + 1)} (hwf : WellFormed S next (h + 1) ix) :
    (extendFaces newDom ix.myDomain (h + 1) ix).myDomain = ix.myDomain.closureWith newDom := by
  set D := ix.myDomain with hD
  have hcovs : ∀ e ∈ ix.myKeyObjects, D.Covers e.domain := fun e he =>
    hwf.2.tiles.covers (List.mem_map_of_mem he)
  have hout : ∀ e ∈ ix.myKeyObjects, (D.closureWith newDom).Covers (extendEntry newDom D e.domain) :=
    fun e he => Box.covers_iff.mpr fun p hp => ((mem_extendEntry (hcovs e he)).mp hp).1
  -- The closure grows with every entry and stays inside the extended domain.
  have hinv := foldl_inv (l := ix.myKeyObjects) (s := D) (f := fun dom (e : KeyObject d (Tree d h)) =>
      if follow newDom D e.domain then dom.closureWith (extendEntry newDom D e.domain) else dom)
    (P := fun done dom => dom.Covers D ∧ (D.closureWith newDom).Covers dom ∧
      ∀ e ∈ done, dom.Covers (extendEntry newDom D e.domain))
    ⟨.refl _, Box.closureWith_covers_left _ _, by simp⟩ <| by
    intro done e rest dom hall ⟨h₁, h₂, h₃⟩
    have he : e ∈ ix.myKeyObjects := hall ▸ by simp
    by_cases hf : follow newDom D e.domain = true
    · simp only [hf, if_true]
      have hl := Box.closureWith_covers_left dom (extendEntry newDom D e.domain)
      refine ⟨hl.trans h₁, fun i => ?_, fun e' he' => ?_⟩
      · exact ⟨le_min (hout e he i).1 (h₂ i).1, max_le (hout e he i).2 (h₂ i).2⟩
      · rcases List.mem_append.mp he' with he' | he'
        · exact hl.trans (h₃ e' he')
        · obtain rfl := List.mem_singleton.mp he'
          exact Box.closureWith_covers_right _ _
    · simp only [hf]
      refine ⟨h₁, h₂, fun e' he' => ?_⟩
      rcases List.mem_append.mp he' with he' | he'
      · exact h₃ e' he'
      · obtain rfl := List.mem_singleton.mp he'
        rw [extendEntry_eq_of_not_follow (by simpa using hf)]
        exact Box.Covers.trans h₁ (hcovs e' he)
  obtain ⟨-, hin, hall⟩ := hinv
  refine Box.eq_of_mem_iff fun p => ⟨Box.covers_iff.mp hin p, fun hp => ?_⟩
  rw [← extendEntry_self, ← Box.mem_region, (hwf.2.tiles.extendEntry (.refl D)).mem_iff] at hp
  obtain ⟨b, hb, hpb⟩ := hp
  simp only [List.map_map, List.mem_map, Function.comp_apply] at hb
  obtain ⟨e, he, rfl⟩ := hb
  exact Box.covers_iff.mp (hall e he) p hpb

/-- **`extendFaces` at the root**: the invariant holds over the closure of the old and the new
domain. -/
theorem extendRoot_wellFormed (newDom : Box d) : ∀ {h : ℕ} {ix : Tree d h}, (∀ k ∈ S, ix.myDomain.Covers k.domain) →
    WellFormed S next h ix →
      WellFormed S next h (extendRoot newDom ix.myDomain h ix) ∧
        (extendRoot newDom ix.myDomain h ix).myDomain = ix.myDomain.closureWith newDom
  | 0, ix, hS, hwf => by
    have h := (extendFaces_wellFormed newDom hS (.refl _) hwf).1
    rw [extendEntry_self] at h
    exact ⟨h, rfl⟩
  | h + 1, ix, hS, hwf => by
    have h := (extendFaces_wellFormed newDom hS (.refl _) hwf).1
    rw [extendEntry_self, ← extendFaces_myDomain hwf] at h
    exact ⟨h, extendFaces_myDomain hwf⟩

end Extend

end Rasdaman
