import Rasdaman.Indexmgr.IndexLogic

/-!
# Indexmgr/MDDObjIx — the tile cache of an MDD object

`MDDObjIx` keeps the tiles of its last access (`lastAccessTiles`) with the box it asked for
(`lastAccess`), and answers a query inside that box from them.

`CacheOk` is why this is transparent: every cached handle denotes a stored tile, and every stored
tile that meets `lastAccess` is cached.  `removeTile` can break it: it looks for the handle it was
given by pointer, while a query on a persistent object makes a new handle for the tile each time.
-/

namespace Rasdaman

open SDirIndexLogic

variable {d : ℕ}

/-- A handle, `shared_ptr<Tile>`: a pointer, the tile's domain, and the id of its stored object if
the tile is persistent. -/
structure TilePtr (d : ℕ) where
  ptr : ℕ
  domain : Box d
  dbTile : Option OId

/-- `KeyObject(shared_ptr<Tile>)`. -/
def TilePtr.key (t : TilePtr d) : Entry d where
  object := match t.dbTile with
    | some oid => .pers oid
    | none => .trans t.ptr
  domain := t.domain

@[simp] theorem TilePtr.key_domain (t : TilePtr d) : t.key.domain = t.domain := rfl

/-- `setPersistent()`, which gives the tile's object an id if it has none yet. -/
def TilePtr.setPersistent (t : TilePtr d) (newOId : OId) : TilePtr d :=
  { t with dbTile := some (t.dbTile.getD newOId) }

/-- `MDDObjIx`, over an index.  `next` is the next unused pointer. -/
structure MDDObjIx {d : ℕ} (L : IndexLogic d) where
  actualIx : L.State
  lastAccess : Option (Box d)
  lastAccessTiles : List (TilePtr d)
  next : ℕ

namespace MDDObjIx

variable {L : IndexLogic d}

/-- A new `MDDObjIx`. -/
def new (L : IndexLogic d) : MDDObjIx L := ⟨L.empty, none, [], 0⟩

/-- The handle for a key object that the index returned: a transient tile is handed out itself, a
persistent one under a new pointer. -/
def handle (next : ℕ) (k : Entry d) : TilePtr d :=
  match k.object with
  | .pers oid => ⟨next, k.domain, some oid⟩
  | .trans ptr => ⟨ptr, k.domain, none⟩

/-- The handles for several key objects. -/
def handles (next : ℕ) : List (Entry d) → List (TilePtr d)
  | [] => []
  | k :: ks => handle next k :: handles (next + 1) ks

/-- `insertTile`. -/
def insertTile (m : MDDObjIx L) (fuel : ℕ) (newTile : TilePtr d) (newOId : OId) :
    Option (Except RError (MDDObjIx L)) :=
  let tile := if L.persistent then newTile.setPersistent newOId else newTile
  (L.insertObj fuel m.actualIx tile.key).map fun r => r.map fun actualIx =>
    { m with
      actualIx
      lastAccess := some tile.domain
      lastAccessTiles := m.lastAccessTiles ++ [tile] }

/-- The cached handles `removeTileFromLastAccesses` leaves: the first one with the same pointer goes. -/
def otherTiles (m : MDDObjIx L) (tileToRemove : TilePtr d) : List (TilePtr d) :=
  m.lastAccessTiles.eraseP fun t => t.ptr == tileToRemove.ptr

/-- `removeTile`. -/
def removeTile (m : MDDObjIx L) (tileToRemove : TilePtr d) : MDDObjIx L × Bool :=
  let found := m.lastAccessTiles.any fun t => t.ptr == tileToRemove.ptr
  let (actualIx, removed) := L.removeObj m.actualIx tileToRemove.key
  ({ m with
    actualIx
    lastAccess := if found then none else m.lastAccess
    lastAccessTiles := m.otherTiles tileToRemove }, removed)

/-- `lastAccessIntersect`; the empty answer counts as no answer. -/
def lastAccessIntersect (m : MDDObjIx L) (searchInter : Box d) : Option (List (TilePtr d)) :=
  match m.lastAccess with
  | none => none
  | some box =>
    if box.Covers searchInter then
      match m.lastAccessTiles.filter fun t => t.domain.Intersects searchInter with
      | [] => none
      | result => some result
    else none

/-- `intersect`. -/
def intersect (m : MDDObjIx L) (searchInter : Box d) : Except RError (List (TilePtr d) × MDDObjIx L) :=
  match m.lastAccessIntersect searchInter with
  | some result => .ok (result, m)
  | none => do
    let resultKeys ← L.intersect m.actualIx searchInter
    let result := handles m.next resultKeys
    if resultKeys.isEmpty then .ok (result, m)
    else .ok (result, { m with
      lastAccess := some searchInter
      lastAccessTiles := result
      next := m.next + resultKeys.length })

/-- `lastAccessPointQuery`. -/
def lastAccessPointQuery (m : MDDObjIx L) (searchPoint : Point d) : Option (TilePtr d) :=
  match m.lastAccess with
  | none => none
  | some box =>
    if searchPoint ∈ box then m.lastAccessTiles.find? fun t => searchPoint ∈ t.domain else none

/-- `containPointQuery`. -/
def containPointQuery (m : MDDObjIx L) (searchPoint : Point d) : Option (TilePtr d) × MDDObjIx L :=
  match m.lastAccessPointQuery searchPoint with
  | some result => (some result, m)
  | none =>
    match L.pointQuery m.actualIx searchPoint with
    | none => (none, m)
    | some resultKey =>
      let resultTile := handle m.next resultKey
      (some resultTile, { m with
        lastAccess := some resultTile.domain
        lastAccessTiles := [resultTile]
        next := m.next + 1 })

/-- `getTiles`. -/
def getTiles (m : MDDObjIx L) : Except RError (List (TilePtr d) × MDDObjIx L) := do
  let resultKeys ← L.getObjs m.actualIx
  let result := handles m.next resultKeys
  if resultKeys.isEmpty then .ok (result, m)
  else .ok (result, { m with
    lastAccess := none
    lastAccessTiles := result
    next := m.next + resultKeys.length })

@[simp] theorem key_handle (next : ℕ) (k : Entry d) : (handle next k).key = k := by
  obtain ⟨obj, dom⟩ := k
  cases obj <;> rfl

@[simp] theorem map_key_handles (next : ℕ) (ks : List (Entry d)) :
    (handles next ks).map TilePtr.key = ks := by
  induction ks generalizing next with
  | nil => rfl
  | cons k ks ih => rw [handles, List.map_cons, key_handle, ih]

/-! ## The cache invariant -/

/-- What makes the cache transparent. -/
structure CacheOk (m : MDDObjIx L) (S : List (Entry d)) : Prop where
  /-- Every cached handle denotes a stored tile. -/
  stored : ∀ t ∈ m.lastAccessTiles, t.key ∈ S
  /-- Every stored tile that meets the last access is cached. -/
  cached : ∀ box, m.lastAccess = some box → ∀ e ∈ S, e.domain.Intersects box →
    ∃ t ∈ m.lastAccessTiles, t.key = e

/-- The stored tiles are disjoint and the index and the cache agree with them. -/
structure Ok (W : IndexLaws L) (m : MDDObjIx L) (S : List (Entry d)) : Prop where
  holds : W.Holds m.actualIx S
  disjoint : S.Pairwise fun a b => ¬ a.domain.Intersects b.domain
  cache : m.CacheOk S

/-- Disjoint tiles that share a cell are the same tile. -/
theorem eq_of_intersects {S : List (Entry d)}
    (hdisj : S.Pairwise fun a b => ¬ a.domain.Intersects b.domain) {a b : Entry d} (ha : a ∈ S)
    (hb : b ∈ S) (hi : a.domain.Intersects b.domain) : a = b := by
  by_contra hne
  have hsymm : Std.Symm fun a b : Entry d => ¬ a.domain.Intersects b.domain :=
    ⟨fun _ _ hn hi => hn hi.symm⟩
  exact hdisj.forall ha hb hne hi

variable {W : IndexLaws L} {m m' : MDDObjIx L} {S : List (Entry d)}

theorem insertTile_ok {fuel : ℕ} {newTile : TilePtr d} {newOId : OId} (h : m.Ok W S)
    {tile : TilePtr d} (htile : tile = if L.persistent then newTile.setPersistent newOId else newTile)
    (hfresh : ∀ e ∈ S, e.object ≠ tile.key.object) (hdisj : ∀ e ∈ S, ¬ e.domain.Intersects tile.domain)
    (hfits : W.InsertFits m.actualIx tile.key)
    (hrun : m.insertTile fuel newTile newOId = some (.ok m')) : m'.Ok W (tile.key :: S) := by
  have hpers : L.persistent = true → ∃ oid, tile.key.object = .pers oid := fun hp => by
    rw [htile, if_pos hp]
    exact ⟨_, rfl⟩
  rw [insertTile, ← htile] at hrun
  obtain ⟨r, hr, hmap⟩ := Option.map_eq_some_iff.mp hrun
  match r, hr, hmap with
  | .ok s, hr, hmap =>
    cases hmap
    refine ⟨W.holds_insert h.holds hpers hfresh hdisj hfits hr,
      List.pairwise_cons.mpr ⟨fun e he hi => hdisj e he hi.symm, h.disjoint⟩, ?_, ?_⟩
    · intro t ht
      rcases List.mem_append.mp ht with ht | ht
      · exact List.mem_cons_of_mem _ (h.cache.stored t ht)
      · obtain rfl := List.mem_singleton.mp ht
        exact List.mem_cons_self ..
    · -- No older tile meets the new one's domain.
      intro box hbox e he hi
      cases hbox
      rcases List.mem_cons.mp he with rfl | he
      · exact ⟨tile, by simp, rfl⟩
      · exact absurd hi (hdisj e he)

theorem removeTile_ok {tile : TilePtr d} (h : m.Ok W S) (hmem : tile.key ∈ S)
    (hfits : W.RemoveFits tile.key)
    (hother : ∀ t ∈ m.otherTiles tile, t.key.object ≠ tile.key.object) :
    (m.removeTile tile).1.Ok W (without S tile.key.object) := by
  refine ⟨W.holds_remove h.holds hmem hfits, h.disjoint.filter _, fun t ht => ?_,
    fun box hbox e he hi => ?_⟩
  · refine List.mem_filter.mpr ⟨h.cache.stored t (List.eraseP_subset ht), ?_⟩
    simpa using hother t ht
  · obtain ⟨heS, hne⟩ := List.mem_filter.mp he
    by_cases hfound : (m.lastAccessTiles.any fun t => t.ptr == tile.ptr) = true
    · simp [removeTile, hfound] at hbox
    · simp only [removeTile, hfound] at hbox
      obtain ⟨t, ht, hkey⟩ := h.cache.cached box hbox e heS hi
      refine ⟨t, ?_, hkey⟩
      have hall : m.otherTiles tile = m.lastAccessTiles :=
        List.eraseP_of_forall_not fun t ht hp => hfound (List.any_eq_true.mpr ⟨t, ht, hp⟩)
      change t ∈ m.otherTiles tile
      rw [hall]
      exact ht

theorem intersect_keeps {q : Box d} {result : List (TilePtr d)} (h : m.Ok W S)
    (hfits : W.SearchFits m.actualIx q) (hrun : m.intersect q = .ok (result, m')) : m'.Ok W S := by
  rw [intersect] at hrun
  split at hrun
  · cases hrun
    exact h
  · obtain ⟨keys, hkeys, hrun⟩ := ExceptFold.bind_eq_ok hrun
    dsimp only at hrun
    split at hrun <;> cases hrun
    · exact h
    · obtain ⟨r, hr, hexact⟩ := W.intersect_exact h.holds hfits
      rw [hkeys] at hr
      cases hr
      refine ⟨h.holds, h.disjoint, fun t ht => ?_, fun box hbox e he hi => ?_⟩
      · have hk : t.key ∈ keys := map_key_handles m.next keys ▸ List.mem_map_of_mem ht
        exact ((hexact _).mp hk).1
      · cases hbox
        have hk : e ∈ keys := (hexact e).mpr ⟨he, hi⟩
        rw [← map_key_handles m.next keys] at hk
        obtain ⟨t, ht, hkey⟩ := List.mem_map.mp hk
        exact ⟨t, ht, hkey⟩

theorem containPointQuery_keeps (h : m.Ok W S) (p : Point d) : (m.containPointQuery p).2.Ok W S := by
  rw [containPointQuery]
  split
  · exact h
  · split
    · exact h
    · next k hk =>
      obtain ⟨hkS, -⟩ := (W.pointQuery_exact h.holds p).1 k hk
      refine ⟨h.holds, h.disjoint, fun t ht => ?_, fun box hbox e he hi => ?_⟩
      · obtain rfl := List.mem_singleton.mp ht
        rw [key_handle]
        exact hkS
      · cases hbox
        refine ⟨_, List.mem_singleton.mpr rfl, ?_⟩
        rw [key_handle]
        -- Disjoint tiles: the one that meets the tile's own domain is the tile.
        have hdom : (handle m.next k).domain = k.domain := by rw [← TilePtr.key_domain, key_handle]
        exact eq_of_intersects h.disjoint hkS he (hdom ▸ hi).symm

theorem getTiles_keeps {result : List (TilePtr d)} (h : m.Ok W S)
    (hrun : m.getTiles = .ok (result, m')) : m'.Ok W S := by
  obtain ⟨keys, hkeys, hrun⟩ := ExceptFold.bind_eq_ok hrun
  dsimp only at hrun
  split at hrun <;> cases hrun
  · exact h
  · refine ⟨h.holds, h.disjoint, fun t ht => ?_, fun box hbox => (by cases hbox)⟩
    exact W.getObjs_subset h.holds hkeys _ (map_key_handles m.next keys ▸ List.mem_map_of_mem ht)

/-! ## Transparency -/

/-- An answer of `intersect` has the same tiles as the index's own. -/
theorem intersect_transparent {q : Box d} (h : m.Ok W S) (hfits : W.SearchFits m.actualIx q) :
    ∃ result m' keys, m.intersect q = .ok (result, m') ∧ L.intersect m.actualIx q = .ok keys ∧
      (∀ e, e ∈ result.map TilePtr.key ↔ e ∈ keys) ∧
      ∀ e, e ∈ keys ↔ e ∈ S ∧ e.domain.Intersects q := by
  obtain ⟨keys, hkeys, hexact⟩ := W.intersect_exact h.holds hfits
  rw [intersect]
  match hlast : m.lastAccessIntersect q with
  | some result =>
    refine ⟨result, m, keys, rfl, hkeys, fun e => ?_, hexact⟩
    rw [lastAccessIntersect] at hlast
    split at hlast
    · cases hlast
    · next box hbox =>
      split at hlast
      · next hcov =>
        have hresult : result = m.lastAccessTiles.filter fun t => t.domain.Intersects q := by
          split at hlast <;> cases hlast
          rfl
        rw [hresult, hexact, List.mem_map]
        constructor
        · rintro ⟨t, ht, rfl⟩
          obtain ⟨htm, hti⟩ := List.mem_filter.mp ht
          exact ⟨h.cache.stored t htm, of_decide_eq_true hti⟩
        · rintro ⟨he, hi⟩
          obtain ⟨p, hpe, hpq⟩ := Box.intersects_iff.mp hi
          obtain ⟨t, ht, rfl⟩ := h.cache.cached box hbox e he
            (.of_mem hpe (Box.covers_iff.mp hcov p hpq))
          exact ⟨t, List.mem_filter.mpr ⟨ht, decide_eq_true hi⟩, rfl⟩
      · cases hlast
  | none =>
    simp only [hkeys, bind, Except.bind]
    by_cases hnil : keys.isEmpty = true
    · exact ⟨handles m.next keys, m, keys, by rw [if_pos hnil], rfl, fun e => by
        rw [map_key_handles], hexact⟩
    · exact ⟨handles m.next keys, _, keys, by rw [if_neg hnil], rfl, fun e => by
        rw [map_key_handles], hexact⟩

/-- An answer of `containPointQuery` is the tile the index answers. -/
theorem containPointQuery_transparent (h : m.Ok W S) (p : Point d) :
    (m.containPointQuery p).1.map TilePtr.key = L.pointQuery m.actualIx p ∧
      PointAnswer S p (L.pointQuery m.actualIx p) := by
  obtain ⟨hsome, hnone⟩ := W.pointQuery_exact h.holds p
  refine ⟨?_, hsome, hnone⟩
  rw [containPointQuery]
  match hlast : m.lastAccessPointQuery p with
  | none =>
    match hq : L.pointQuery m.actualIx p with
    | none => rfl
    | some k => exact congrArg some (key_handle m.next k)
  | some t =>
    rw [lastAccessPointQuery] at hlast
    split at hlast
    · cases hlast
    · split at hlast
      · have ht := h.cache.stored t (List.mem_of_find?_eq_some hlast)
        have hp : p ∈ t.key.domain := by simpa using List.find?_some hlast
        match hq : L.pointQuery m.actualIx p with
        | none => exact absurd hp (hnone hq _ ht)
        | some k =>
          obtain ⟨hk, hpk⟩ := hsome k hq
          exact congrArg some (eq_of_intersects h.disjoint ht hk (.of_mem hp hpk))
      · cases hlast

/-! ## Runs -/

/-- A call on an MDD object. -/
inductive Step (d : ℕ) where
  | insertTile (tile : TilePtr d)
  | removeTile (tile : TilePtr d)
  | intersect (q : Box d)
  | containPointQuery (p : Point d)
  | getTiles

/-- The states an MDD object reaches, with the tiles stored by then.  Every call is `safe` in the state it
is made in; an inserted tile is given as `setPersistent` leaves it.  An insertion that raises does not
store its tile, and leaves any object whatsoever; a query that raises changes nothing. -/
inductive Run {L : IndexLogic d} (safe : MDDObjIx L → Step d → Prop) :
    MDDObjIx L → List (Entry d) → Prop
  | new : Run safe (new L) []
  | insertTile {m m' : MDDObjIx L} {S : List (Entry d)} {newTile tile : TilePtr d} {newOId : OId}
      {fuel : ℕ} : Run safe m S →
      tile = (if L.persistent then newTile.setPersistent newOId else newTile) →
      safe m (.insertTile tile) → (∀ e ∈ S, e.object ≠ tile.key.object) →
      (∀ e ∈ S, ¬ e.domain.Intersects tile.domain) →
      m.insertTile fuel newTile newOId = some (.ok m') → Run safe m' (tile.key :: S)
  | raise {m m' : MDDObjIx L} {S : List (Entry d)} {newTile tile : TilePtr d} {newOId : OId}
      {fuel : ℕ} {e : RError} : Run safe m S →
      tile = (if L.persistent then newTile.setPersistent newOId else newTile) →
      safe m (.insertTile tile) → m.insertTile fuel newTile newOId = some (.error e) → Run safe m' S
  | removeTile {m : MDDObjIx L} {S : List (Entry d)} {tile : TilePtr d} : Run safe m S →
      safe m (.removeTile tile) → tile.key ∈ S →
      Run safe (m.removeTile tile).1 (without S tile.key.object)
  | intersect {m m' : MDDObjIx L} {S : List (Entry d)} {q : Box d} {result : List (TilePtr d)} :
      Run safe m S → safe m (.intersect q) → m.intersect q = .ok (result, m') → Run safe m' S
  | containPointQuery {m : MDDObjIx L} {S : List (Entry d)} {p : Point d} : Run safe m S →
      safe m (.containPointQuery p) → Run safe (m.containPointQuery p).2 S
  | getTiles {m m' : MDDObjIx L} {S : List (Entry d)} {result : List (TilePtr d)} : Run safe m S →
      safe m .getTiles → m.getTiles = .ok (result, m') → Run safe m' S

/-- The calls that keep the cache right: areas fit their counters, no node is cut outside its domain, and no
handle in the cache but the given one denotes a tile that is removed. -/
def Safe (W : IndexLaws L) (m : MDDObjIx L) : Step d → Prop
  | .insertTile tile => W.InsertFits m.actualIx tile.key
  | .removeTile tile => W.RemoveFits tile.key ∧
      ∀ t ∈ m.otherTiles tile, t.key.object ≠ tile.key.object
  | .intersect q => W.SearchFits m.actualIx q
  | .containPointQuery _ => True
  | .getTiles => True

theorem Run.ok {m : MDDObjIx L} {S : List (Entry d)} (hrun : Run (Safe W) m S) : m.Ok W S := by
  induction hrun with
  | new => exact ⟨W.holds_empty, .nil, by simp [MDDObjIx.new], by simp [MDDObjIx.new]⟩
  | insertTile _ htile hsafe hfresh hdisj hcall ih =>
    exact insertTile_ok ih htile hfresh hdisj hsafe hcall
  | raise _ htile hsafe hcall ih =>
    rw [MDDObjIx.insertTile, ← htile] at hcall
    obtain ⟨r, hr, hmap⟩ := Option.map_eq_some_iff.mp hcall
    match r, hr, hmap with
    | .error e, hr, _ => exact absurd hr (W.insert_ne_error ih.holds hsafe)
  | removeTile _ hsafe hmem ih => exact removeTile_ok ih hmem hsafe.1 hsafe.2
  | intersect _ hsafe hcall ih => exact intersect_keeps ih hsafe hcall
  | containPointQuery _ _ ih => exact containPointQuery_keeps ih _
  | getTiles _ _ hcall ih => exact getTiles_keeps ih hcall

end MDDObjIx

/-- The index types that store their tiles: the R+-tree (also behind a tile container), and the
directory of a persistent or a transient object. -/
inductive IndexKind where
  | rPlusTree (cap : Capacity)
  | directory
  | transient

/-- `initializeLogicStructure`. -/
def IndexKind.logic (d : ℕ) : IndexKind → IndexLogic d
  | .rPlusTree cap => RPlusTree.logic d cap
  | .directory => persistentDirIndex d
  | .transient => transientDirIndex d

/-- The laws of every index type. -/
def IndexKind.laws (d : ℕ) : (kind : IndexKind) → IndexLaws (kind.logic d)
  | .rPlusTree cap => RPlusTree.laws d cap
  | .directory => persistentDirLaws d
  | .transient => transientDirLaws d

/-- **The tile cache is transparent** in every state of a run of safe calls: `intersect` and
`containPointQuery` answer with the tiles the index itself would answer with. -/
theorem tile_cache_transparent {kind : IndexKind} {m : MDDObjIx (kind.logic d)} {S : List (Entry d)}
    (hrun : MDDObjIx.Run (MDDObjIx.Safe (kind.laws d)) m S) :
    (∀ q, MDDObjIx.Safe (kind.laws d) m (.intersect q) → ∃ result m' keys,
      m.intersect q = .ok (result, m') ∧ (kind.logic d).intersect m.actualIx q = .ok keys ∧
      (∀ e, e ∈ result.map TilePtr.key ↔ e ∈ keys) ∧
      ∀ e, e ∈ keys ↔ e ∈ S ∧ e.domain.Intersects q) ∧
    ∀ p, (m.containPointQuery p).1.map TilePtr.key = (kind.logic d).pointQuery m.actualIx p ∧
      PointAnswer S p ((kind.logic d).pointQuery m.actualIx p) :=
  ⟨fun _ hfits => MDDObjIx.intersect_transparent hrun.ok hfits,
    fun p => MDDObjIx.containPointQuery_transparent hrun.ok p⟩

/-! ## A stale handle -/

/-- A tile of one cell, stored as object 7. -/
def oneTile : TilePtr 1 := ⟨100, ⟨![0], ![0], fun _ => le_rfl⟩, some 7⟩

/-- A persistent object after the tile was inserted. -/
def withTile : MDDObjIx (IndexKind.directory.logic 1) :=
  ⟨some ⟨0, oneTile.domain, [oneTile.key]⟩, some oneTile.domain, [oneTile], 0⟩

theorem withTile_run (safe : MDDObjIx (IndexKind.directory.logic 1) → MDDObjIx.Step 1 → Prop)
    (hsafe : safe (.new _) (.insertTile oneTile)) : MDDObjIx.Run safe withTile [oneTile.key] := by
  have hcall : (MDDObjIx.new (IndexKind.directory.logic 1)).insertTile 0 oneTile 7
      = some (.ok withTile) := rfl
  exact .insertTile .new rfl hsafe (by simp) (by simp) hcall

/-- The cache answers for the object with one tile. -/
theorem tile_cache_transparent_oneTile :
    MDDObjIx.Run (MDDObjIx.Safe (IndexKind.directory.laws 1)) withTile [oneTile.key] ∧
      (withTile.containPointQuery ![0]).1.map TilePtr.key
        = (IndexKind.directory.logic 1).pointQuery withTile.actualIx ![0] := by
  have hrun := withTile_run (MDDObjIx.Safe (IndexKind.directory.laws 1)) trivial
  exact ⟨hrun, ((tile_cache_transparent hrun).2 ![0]).1⟩

/-- The object after `getTiles`, which makes a second handle for the tile, and a point query, which
makes a third and keeps only that one. -/
def queried : MDDObjIx (IndexKind.directory.logic 1) :=
  ⟨withTile.actualIx, some oneTile.domain, [⟨1, oneTile.domain, some 7⟩], 2⟩

theorem queried_run : MDDObjIx.Run (fun _ _ => True) queried [oneTile.key] := by
  have hget : MDDObjIx.Run (fun _ _ => True)
      (⟨withTile.actualIx, none, [⟨0, oneTile.domain, some 7⟩], 1⟩ : MDDObjIx _) [oneTile.key] :=
    .getTiles (withTile_run _ trivial) trivial rfl
  exact .containPointQuery (p := ![0]) hget trivial

/-- **A removed tile is returned.**  Removed through the handle of `getTiles`, the tile stays in the
cache under the handle of the point query. -/
theorem removed_tile_returned : ∃ (m : MDDObjIx (IndexKind.directory.logic 1)) (S : List (Entry 1)),
    MDDObjIx.Run (fun _ _ => True) m S ∧ S = [] ∧
      (m.containPointQuery ![0]).1.map TilePtr.key = some oneTile.key ∧
      (IndexKind.directory.logic 1).pointQuery m.actualIx ![0] = none := by
  have hmem : (⟨0, oneTile.domain, some 7⟩ : TilePtr 1).key ∈ [oneTile.key] :=
    List.mem_singleton.mpr rfl
  have hrun := MDDObjIx.Run.removeTile queried_run trivial hmem
  exact ⟨_, _, hrun, rfl, rfl, rfl⟩

end Rasdaman
