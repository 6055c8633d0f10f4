import Rasdaman.Storagemgr.Sstoragelayout
import Rasdaman.Tilemgr.Tile
import Rasdaman.Machinery.ExceptFold

/-!
# Mddmgr/MDDObj — storing a tile

`insertTile` cuts a tile along the domains its storage layout returns.  A domain that no stored tile
meets becomes a new tile of zeros, into which the cells are copied; where there is a stored tile, they
are copied into it.  The lookups of the index are exact: `intersect` returns the tiles that meet a box.

A stored object is read through `pointQuery`.  `insertTile_spec` says what an insertion does to it when
the layout is a layout (`IsLayout`) and the stored tiles that meet it are domains of the layout.
-/

namespace Rasdaman

open StorageLayout

/-- `MDDObj`: its storage layout and the tiles in its index. -/
structure MDDObj (d tsize : ℕ) where
  storageLayout : StorageLayout d
  tiles : List (Tile d tsize)

namespace MDDObj

variable {d tsize : ℕ}

/-- `intersect`. -/
def intersect (m : MDDObj d tsize) (dom : Box (d + 1)) : List (Tile d tsize) :=
  m.tiles.filter fun t => t.domain.Intersects dom

/-- `pointQuery`: the cell of the tile the point lies in. -/
def pointQuery (m : MDDObj d tsize) (p : Point (d + 1)) : Option (List UInt8) :=
  (m.tiles.find? fun t => p ∈ t.domain).map fun t => t.getCell p

/-- The part of `insertTile` for a layout domain that is not the domain of the tile. -/
def storeIn (newTile : Tile d tsize) (dom : Box (d + 1)) (m : MDDObj d tsize) :
    Except Halt (MDDObj d tsize) :=
  match m.intersect dom with
  | [] => do
    let tile ← Tile.zeros tsize dom
    let tempDom ← (dom.createIntersection newTile.domain).mapError .throws
    let tile ← tile.copyTile tempDom newTile tempDom
    return { m with tiles := m.tiles ++ [tile] }
  | [old] => do
    let tempDom ← (dom.createIntersection newTile.domain).mapError .throws
    let tile ← old.copyTile tempDom newTile tempDom
    return { m with tiles := m.tiles.map fun t => if t.domain.Intersects dom then tile else t }
  | _ => .error (.throws .layoutAlgorithmProblem)

/-- The loop of `insertTile` over the domains of the layout, of which there are `size`. -/
def insertLoop (newTile : Tile d tsize) (size : ℕ) :
    (checkEquality : Bool) → List (Box (d + 1)) → MDDObj d tsize → Except Halt (MDDObj d tsize)
  | _, [], m => .ok m
  | checkEquality, dom :: doms, m =>
    if checkEquality ∧ newTile.domain = dom then
      if size ≠ 1 then .error (.throws .layoutAlgorithmProblem)
      else insertLoop newTile size false doms { m with tiles := m.tiles ++ [newTile] }
    else do
      let m ← storeIn newTile dom m
      insertLoop newTile size false doms m

/-- `insertTile`. -/
def insertTile (m : MDDObj d tsize) (newTile : Tile d tsize) : Except Halt (MDDObj d tsize) := do
  let layoutDoms ← m.storageLayout.getLayout newTile.domain
  insertLoop newTile layoutDoms.length true layoutDoms m

/-! ## Reading an object -/

/-- The stored tiles are disjoint, and their sizes fit in an `r_Bytes`. -/
structure WF (m : MDDObj d tsize) : Prop where
  disjoint : m.tiles.Pairwise fun s t => ¬ s.domain.Intersects t.domain
  size_lt : ∀ t ∈ m.tiles, t.domain.cells.card * tsize < 2 ^ 32

variable {m m' : MDDObj d tsize} {p : Point (d + 1)}

theorem WF.eq_of_mem (h : m.WF) {s t : Tile d tsize} (hs : s ∈ m.tiles) (ht : t ∈ m.tiles)
    (hsp : p ∈ s.domain) (htp : p ∈ t.domain) : s = t := by
  by_contra hne
  haveI : Std.Symm fun s t : Tile d tsize => ¬ s.domain.Intersects t.domain :=
    ⟨fun _ _ hn hi => hn hi.symm⟩
  exact h.disjoint.forall hs ht hne (.of_mem hsp htp)

/-- **A point of a stored tile reads the cell of that tile.** -/
theorem pointQuery_of_mem (h : m.WF) {t : Tile d tsize} (ht : t ∈ m.tiles) (hp : p ∈ t.domain) :
    m.pointQuery p = some (t.cellAt p) := by
  rcases hfind : m.tiles.find? fun t : Tile d tsize => p ∈ t.domain with _ | s
  · exact absurd hp (by simpa using List.find?_eq_none.mp hfind t ht)
  · have hsp : p ∈ s.domain := by simpa using List.find?_some hfind
    have hs := List.mem_of_find?_eq_some hfind
    obtain rfl := h.eq_of_mem hs ht hsp hp
    rw [pointQuery, hfind, Option.map_some, Tile.getCell_eq hp (h.size_lt s hs)]

theorem pointQuery_eq_none_iff : m.pointQuery p = none ↔ ∀ t ∈ m.tiles, p ∉ t.domain := by
  rw [pointQuery, Option.map_eq_none_iff, List.find?_eq_none]
  simp

/-- A cell that is read is that of a stored tile. -/
theorem exists_of_pointQuery (h : m.WF) {c : List UInt8} (hc : m.pointQuery p = some c) :
    ∃ t ∈ m.tiles, p ∈ t.domain ∧ t.cellAt p = c := by
  by_cases hcovered : ∃ t ∈ m.tiles, p ∈ t.domain
  · obtain ⟨t, ht, hp⟩ := hcovered
    rw [pointQuery_of_mem h ht hp] at hc
    exact ⟨t, ht, hp, Option.some.inj hc⟩
  · have hnone : m.pointQuery p = none :=
      pointQuery_eq_none_iff.mpr fun t ht hp => hcovered ⟨t, ht, hp⟩
    rw [hnone] at hc
    cases hc

/-- The cell of a point that no tile covers. -/
def zeroCell (tsize : ℕ) : List UInt8 := List.replicate tsize 0

/-! ## Storing a tile in layout domains -/

/-- What storing a tile in the domains of a layout does to the cells of an object. -/
structure Stored (newTile : Tile d tsize) (doms : List (Box (d + 1))) (m m' : MDDObj d tsize) :
    Prop where
  wf : m'.WF
  layout : m'.storageLayout = m.storageLayout
  inside : ∀ p, (∃ b ∈ doms, p ∈ b) → m'.pointQuery p =
    some (if p ∈ newTile.domain then newTile.cellAt p else (m.pointQuery p).getD (zeroCell tsize))
  outside : ∀ p, (∀ b ∈ doms, p ∉ b) → m'.pointQuery p = m.pointQuery p
  domains : ∀ s ∈ m'.tiles, (∃ t ∈ m.tiles, t.domain = s.domain) ∨ s.domain ∈ doms

variable {newTile : Tile d tsize} {dom : Box (d + 1)} {doms : List (Box (d + 1))}

/-- Domains that do not meet may be stored one after the other. -/
theorem Stored.cons {m₁ : MDDObj d tsize} (h₁ : Stored newTile [dom] m m₁)
    (h₂ : Stored newTile doms m₁ m') (hdisj : ∀ b ∈ doms, ¬ dom.Intersects b) :
    Stored newTile (dom :: doms) m m' where
  wf := h₂.wf
  layout := h₂.layout.trans h₁.layout
  inside := by
    rintro p ⟨b, hb, hp⟩
    obtain rfl | hb' := List.mem_cons.mp hb
    · rw [h₂.outside p fun c hc hpc => hdisj c hc (.of_mem hp hpc)]
      exact h₁.inside p ⟨b, List.mem_singleton_self b, hp⟩
    · have hout : ∀ c ∈ [dom], p ∉ c := by
        intro c hc hpc
        obtain rfl := List.mem_singleton.mp hc
        exact hdisj b hb' (.of_mem hpc hp)
      rw [h₂.inside p ⟨b, hb', hp⟩, h₁.outside p hout]
  outside := fun p hp => by
    obtain ⟨hpd, hp⟩ := List.forall_mem_cons.mp hp
    rw [h₂.outside p hp, h₁.outside p (by simpa using hpd)]
  domains := fun s hs => by
    rcases h₂.domains s hs with ⟨t, ht, hts⟩ | hmem
    · rcases h₁.domains t ht with hold | hnew
      · exact Or.inl (hts ▸ hold)
      · exact Or.inr (List.mem_cons.mpr (Or.inl (hts ▸ List.mem_singleton.mp hnew)))
    · exact Or.inr (List.mem_cons_of_mem _ hmem)

/-- An object with one more tile, which no stored tile meets. -/
theorem wf_append {tile : Tile d tsize} (h : m.WF)
    (hfree : ∀ t ∈ m.tiles, ¬ t.domain.Intersects tile.domain)
    (hsize : tile.domain.cells.card * tsize < 2 ^ 32) :
    ({ m with tiles := m.tiles ++ [tile] } : MDDObj d tsize).WF where
  disjoint := by
    rw [List.pairwise_append]
    refine ⟨h.disjoint, List.pairwise_singleton _ _, fun s hs t ht => ?_⟩
    obtain rfl := List.mem_singleton.mp ht
    exact hfree s hs
  size_lt := by
    intro t ht
    rcases List.mem_append.mp ht with ht | ht
    · exact h.size_lt t ht
    · obtain rfl := List.mem_singleton.mp ht
      exact hsize

/-- Where the tiles that hold a point are the same, it reads the same. -/
theorem pointQuery_congr (h : m.WF) (h' : m'.WF)
    (heq : ∀ t, p ∈ t.domain → (t ∈ m.tiles ↔ t ∈ m'.tiles)) : m'.pointQuery p = m.pointQuery p := by
  by_cases hp : ∃ t ∈ m.tiles, p ∈ t.domain
  · obtain ⟨t, ht, hp⟩ := hp
    rw [pointQuery_of_mem h ht hp, pointQuery_of_mem h' ((heq t hp).mp ht) hp]
  · have hnone : m.pointQuery p = none :=
      pointQuery_eq_none_iff.mpr fun t ht hpt => hp ⟨t, ht, hpt⟩
    rw [hnone, pointQuery_eq_none_iff]
    exact fun t ht hpt => hp ⟨t, (heq t hpt).mpr ht, hpt⟩

/-- A new tile for the domain of a layout. -/
theorem stored_append {tile : Tile d tsize} (h : m.WF)
    (hfree : ∀ t ∈ m.tiles, ¬ t.domain.Intersects tile.domain)
    (hsize : tile.domain.cells.card * tsize < 2 ^ 32)
    (hcells : ∀ p ∈ tile.domain, tile.cellAt p =
      if p ∈ newTile.domain then newTile.cellAt p else zeroCell tsize) :
    Stored newTile [tile.domain] m { m with tiles := m.tiles ++ [tile] } := by
  have hwf := wf_append h hfree hsize
  refine ⟨hwf, rfl, ?_, fun p hp => pointQuery_congr h hwf fun t hpt => ?_, fun s hs => ?_⟩
  · rintro p ⟨b, hb, hp⟩
    obtain rfl := List.mem_singleton.mp hb
    have hnone : m.pointQuery p = none :=
      pointQuery_eq_none_iff.mpr fun t ht hpt => hfree t ht (.of_mem hpt hp)
    rw [pointQuery_of_mem hwf (List.mem_append_right _ (List.mem_singleton_self _)) hp, hcells p hp,
      hnone, Option.getD_none]
  · have hne : t ≠ tile := by
      rintro rfl
      exact hp t.domain (List.mem_singleton_self _) hpt
    simp [hne]
  · rcases List.mem_append.mp hs with hs | hs
    · exact Or.inl ⟨s, hs, rfl⟩
    · obtain rfl := List.mem_singleton.mp hs
      exact Or.inr (List.mem_singleton_self _)

/-- A stored tile with other contents. -/
theorem stored_replace {old tile : Tile d tsize} (h : m.WF) (hold : old ∈ m.tiles)
    (hdom : tile.domain = old.domain)
    (hcells : ∀ p ∈ old.domain, tile.cellAt p =
      if p ∈ newTile.domain then newTile.cellAt p else old.cellAt p) :
    Stored newTile [old.domain] m
      { m with tiles := m.tiles.map fun t => if t.domain.Intersects old.domain then tile else t } := by
  set f : Tile d tsize → Tile d tsize :=
    fun t => if t.domain.Intersects old.domain then tile else t with hf
  have hmeets : ∀ t ∈ m.tiles, t.domain.Intersects old.domain → t = old := by
    intro t ht hi
    obtain ⟨q, hqt, hqo⟩ := Box.intersects_iff.mp hi
    exact h.eq_of_mem ht hold hqt hqo
  have hfdom : ∀ t ∈ m.tiles, (f t).domain = t.domain := by
    intro t ht
    by_cases hi : t.domain.Intersects old.domain
    · rw [hf, hmeets t ht hi]
      simp only [hdom, ite_self]
      split
      · exact hdom
      · rfl
    · rw [hf]
      simp only [if_neg hi]
  have hwf : ({ m with tiles := m.tiles.map f } : MDDObj d tsize).WF := by
    refine ⟨List.pairwise_map.mpr (h.disjoint.imp_of_mem fun hs ht hst => ?_), fun t ht => ?_⟩
    · rwa [hfdom _ hs, hfdom _ ht]
    · obtain ⟨s, hs, rfl⟩ := List.mem_map.mp ht
      rw [hfdom s hs]
      exact h.size_lt s hs
  have hself : old.domain.Intersects old.domain := .of_mem old.domain.low_mem old.domain.low_mem
  have htile : tile ∈ m.tiles.map f := List.mem_map.mpr ⟨old, hold, if_pos hself⟩
  refine ⟨hwf, rfl, ?_, fun p hp => pointQuery_congr h hwf fun t hpt => ?_, fun s hs => ?_⟩
  · rintro p ⟨b, hb, hp⟩
    obtain rfl := List.mem_singleton.mp hb
    rw [pointQuery_of_mem hwf htile (hdom ▸ hp), hcells p hp, pointQuery_of_mem h hold hp,
      Option.getD_some]
  · have hpo : p ∉ old.domain := hp old.domain (List.mem_singleton_self _)
    constructor
    · intro ht
      refine List.mem_map.mpr ⟨t, ht, if_neg fun hi => hpo ?_⟩
      exact hmeets t ht hi ▸ hpt
    · intro ht
      obtain ⟨s, hs, hst⟩ := List.mem_map.mp ht
      by_cases hi : s.domain.Intersects old.domain
      · rw [hf] at hst
        simp only [if_pos hi] at hst
        exact absurd (hdom ▸ hst ▸ hpt) hpo
      · rw [hf] at hst
        simp only [if_neg hi] at hst
        exact hst ▸ hs
  · obtain ⟨t, ht, rfl⟩ := List.mem_map.mp hs
    exact Or.inl ⟨t, ht, (hfdom t ht).symm⟩

/-- **Storing a tile in one layout domain**, which is free or the domain of a stored tile. -/
theorem storeIn_spec (h : m.WF) (hmeets : dom.Intersects newTile.domain)
    (hsame : ∀ t ∈ m.tiles, t.domain.Intersects dom → t.domain = dom)
    (hsize : dom.cells.card * tsize < 2 ^ 32) :
    ∃ m', storeIn newTile dom m = .ok m' ∧ Stored newTile [dom] m m' := by
  set tempDom := dom.inter newTile.domain hmeets with htempDom
  have htemp : dom.createIntersection newTile.domain = .ok tempDom := dif_pos hmeets
  have hcov : dom.Covers tempDom := Box.covers_iff.mpr fun p hp => (Box.mem_inter.mp hp).1
  have hcovNew : newTile.domain.Covers tempDom :=
    Box.covers_iff.mpr fun p hp => (Box.mem_inter.mp hp).2
  have hmem : ∀ p ∈ dom, (p ∈ tempDom ↔ p ∈ newTile.domain) := fun p hp =>
    Box.mem_inter.trans (and_iff_right hp)
  rcases hix : m.intersect dom with _ | ⟨old, _ | ⟨old', rest⟩⟩
  · have hfree : ∀ t ∈ m.tiles, ¬ t.domain.Intersects dom := by
      simpa [intersect, List.filter_eq_nil_iff] using hix
    obtain ⟨zero, hzero, hzdom, hzcells⟩ := Tile.zeros_spec tsize hsize
    obtain ⟨tile, htile, htdom, htcells⟩ :=
      Tile.copyTile_same (t := zero) (hzdom.symm ▸ hcov) hcovNew
    have hdom : tile.domain = dom := htdom.trans hzdom
    have hstored : Stored newTile [tile.domain] m { m with tiles := m.tiles ++ [tile] } := by
      refine stored_append h (hdom.symm ▸ hfree) (hdom.symm ▸ hsize) fun p hp => ?_
      rw [hdom] at hp
      rw [htcells p (hzdom.symm ▸ hp), hzcells p hp]
      exact if_congr (hmem p hp) rfl rfl
    refine ⟨_, ?_, hdom ▸ hstored⟩
    rw [storeIn, hix]
    simp only [hzero, htemp, Except.mapError, bind, Except.bind, htile]
    rfl
  · have hmemOld : old ∈ m.tiles ∧ old.domain.Intersects dom := by
      have hold : old ∈ m.intersect dom := by rw [hix]; exact List.mem_singleton_self old
      simpa [intersect] using hold
    obtain rfl : old.domain = dom := hsame old hmemOld.1 hmemOld.2
    obtain ⟨tile, htile, htdom, htcells⟩ := Tile.copyTile_same (t := old) hcov hcovNew
    refine ⟨_, ?_, stored_replace h hmemOld.1 htdom fun p hp => ?_⟩
    · rw [storeIn, hix]
      simp only [htemp, Except.mapError, bind, Except.bind, htile]
      rfl
    · rw [htcells p hp]
      exact if_congr (hmem p hp) rfl rfl
  · -- two stored tiles would both have this domain
    exfalso
    have hall : ∀ t ∈ m.intersect dom, t ∈ m.tiles ∧ t.domain = dom := by
      intro t ht
      obtain ⟨ht, hi⟩ := List.mem_filter.mp ht
      exact ⟨ht, hsame t ht (by simpa using hi)⟩
    have hpair : (m.intersect dom).Pairwise fun s t => ¬ s.domain.Intersects t.domain :=
      h.disjoint.filter _
    rw [hix] at hall hpair
    have hold := (hall old (by simp)).2
    have hold' := (hall old' (by simp)).2
    refine (List.pairwise_cons.mp hpair).1 old' (by simp) ?_
    rw [hold, hold']
    exact .of_mem dom.low_mem dom.low_mem

/-- Storing a tile in the domains of a layout one after the other. -/
theorem insertLoop_spec (size : ℕ) (h : m.WF)
    (hdisj : doms.Pairwise fun a b => ¬ a.Intersects b)
    (hmeets : ∀ b ∈ doms, b.Intersects newTile.domain)
    (hsame : ∀ t ∈ m.tiles, ∀ b ∈ doms, t.domain.Intersects b → t.domain = b)
    (hsize : ∀ b ∈ doms, b.cells.card * tsize < 2 ^ 32) :
    ∃ m', insertLoop newTile size false doms m = .ok m' ∧ Stored newTile doms m m' := by
  induction doms generalizing m with
  | nil =>
    exact ⟨m, rfl, h, rfl, by simp, fun _ _ => rfl, fun s hs => Or.inl ⟨s, hs, rfl⟩⟩
  | cons dom doms ih =>
    obtain ⟨hd, hdisj⟩ := List.pairwise_cons.mp hdisj
    obtain ⟨hm, hmeets⟩ := List.forall_mem_cons.mp hmeets
    obtain ⟨hs, hsize⟩ := List.forall_mem_cons.mp hsize
    obtain ⟨m₁, hstore, h₁⟩ := storeIn_spec h hm
      (fun t ht => hsame t ht dom List.mem_cons_self) hs
    have hsame₁ : ∀ t ∈ m₁.tiles, ∀ b ∈ doms, t.domain.Intersects b → t.domain = b := by
      intro t ht b hb hi
      rcases h₁.domains t ht with ⟨s, hs, hst⟩ | hnew
      · rw [← hst] at hi ⊢
        exact hsame s hs b (List.mem_cons_of_mem _ hb) hi
      · rw [List.mem_singleton.mp hnew] at hi
        exact absurd hi (hd b hb)
    obtain ⟨m', hloop, h'⟩ := ih h₁.wf hdisj hmeets hsame₁ hsize
    refine ⟨m', ?_, h₁.cons h' hd⟩
    rw [insertLoop, if_neg (by simp), hstore]
    exact hloop

/-- **What `insertTile` does**, given a layout whose domains are free or those of stored tiles, when no
stored tile has the domain of the tile itself. -/
theorem insertTile_spec (h : m.WF) (hlayout : m.storageLayout.getLayout newTile.domain = .ok doms)
    (hdoms : IsLayout newTile.domain doms)
    (hsame : ∀ t ∈ m.tiles, ∀ b ∈ doms, t.domain.Intersects b → t.domain = b)
    (hfree : ∀ t ∈ m.tiles, t.domain ≠ newTile.domain)
    (hsize : ∀ b ∈ doms, b.cells.card * tsize < 2 ^ 32) :
    ∃ m', m.insertTile newTile = .ok m' ∧ Stored newTile doms m m' := by
  have hinsert : m.insertTile newTile = insertLoop newTile doms.length true doms m := by
    rw [insertTile, hlayout]
    rfl
  rw [hinsert]
  rcases doms with _ | ⟨dom, doms⟩
  · exact insertLoop_spec 0 h hdoms.disjoint hdoms.meets hsame hsize
  · by_cases heq : newTile.domain = dom
    · -- the tile is a layout domain: it is the only one
      subst heq
      obtain rfl : doms = [] := by
        rcases doms with _ | ⟨b, doms⟩
        · rfl
        · exfalso
          refine (List.pairwise_cons.mp hdoms.disjoint).1 b List.mem_cons_self ?_
          exact (hdoms.meets b (by simp)).symm
      have hno : ∀ t ∈ m.tiles, ¬ t.domain.Intersects newTile.domain := fun t ht hi =>
        hfree t ht (hsame t ht _ (List.mem_singleton_self _) hi)
      refine ⟨_, ?_, stored_append h hno (hsize _ (List.mem_singleton_self _)) fun p hp =>
        (if_pos hp).symm⟩
      rw [insertLoop, if_pos ⟨rfl, rfl⟩, if_neg (by simp), insertLoop]
    · obtain ⟨m', hloop, h'⟩ := insertLoop_spec (dom :: doms).length h hdoms.disjoint hdoms.meets
        hsame hsize
      refine ⟨m', ?_, h'⟩
      rw [insertLoop, if_neg (by simp)] at hloop
      rw [insertLoop, if_neg (by simp [heq])]
      exact hloop

end MDDObj

end Rasdaman
