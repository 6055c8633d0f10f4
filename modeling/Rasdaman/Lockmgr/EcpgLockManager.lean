import Rasdaman.Machinery.ExceptFold
import Rasdaman.Machinery.Odometer

/-!
# Lockmgr/EcpgLockManager — the statements on `RAS_LOCKEDTILES`

A row is a lock of a server on a tile, shared or exclusive.  A tile is locked alone by an insertion that
tests for the locks of all servers; an interval of tiles is locked by one insertion, which is made when
the server itself holds no such lock in it.  An insertion that breaks the constraint
`UNIQUE(TileID, ExclusiveLock)` fails; the column is null in a shared lock, and nulls do not collide.

Server ids have at most 40 characters, so that the text of a statement fits in its 512 characters.
-/

namespace Rasdaman

/-- `enum Lock`. -/
inductive Lock
  | exclusive
  | shared
  deriving DecidableEq

/-- A row of `RAS_LOCKEDTILES`; `S` are the server ids. -/
structure LockRow (S : Type) where
  tileId : ℤ
  rasServerId : S
  sharedLock : ℤ
  exclusiveLock : Option ℤ
  deriving DecidableEq

/-- `RAS_LOCKEDTILES`. -/
abbrev LockTable (S : Type) := List (LockRow S)

/-- How a call on the lock table can end without a result: a statement fails, which rolls the transaction
back, or the lock manager throws and leaves the transaction open. -/
inductive LockStop (S : Type)
  | statementFailed
  | throws (inTransaction : LockTable S)

namespace EcpgLockManager

variable {S : Type}

/-- `UNIQUE(TileID, ExclusiveLock)`. -/
def Unique (t : LockTable S) : Prop :=
  t.Pairwise fun r s => r.exclusiveLock = none ∨ (r.tileId, r.exclusiveLock) ≠ (s.tileId, s.exclusiveLock)

instance (t : LockTable S) : Decidable (Unique t) := inferInstanceAs (Decidable (List.Pairwise _ _))

/-- An insertion. -/
def insertRows (t rows : LockTable S) : Except (LockStop S) (LockTable S) :=
  if Unique (t ++ rows) then .ok (t ++ rows) else .error .statementFailed

/-- The row of a shared lock. -/
def sharedRow (rasServerId : S) (tileId : ℤ) : LockRow S := ⟨tileId, rasServerId, 1, none⟩

/-- The row of an exclusive lock. -/
def exclusiveRow (rasServerId : S) (tileId : ℤ) : LockRow S := ⟨tileId, rasServerId, 0, some 1⟩

/-- `lockTileShared`: `insert_shared`. -/
def lockTileShared (rasServerId : S) (tileId : ℤ) (t : LockTable S) :
    Except (LockStop S) (LockTable S) :=
  if ∃ r ∈ t, r.tileId = tileId ∧ r.exclusiveLock = some 1 then .ok t
  else insertRows t [sharedRow rasServerId tileId]

/-- `lockTileExclusive`: `insert_exclusive`. -/
def lockTileExclusive (rasServerId : S) (tileId : ℤ) (t : LockTable S) :
    Except (LockStop S) (LockTable S) :=
  if ∃ r ∈ t, r.tileId = tileId then .ok t else insertRows t [exclusiveRow rasServerId tileId]

/-- `isTileLockedShared`. -/
def isTileLockedShared [DecidableEq S] (rasServerId : S) (tileId : ℤ) (t : LockTable S) : Bool :=
  t.any fun r => r.tileId = tileId ∧ r.rasServerId = rasServerId ∧ r.sharedLock = 1

/-- `isTileLockedExclusive`. -/
def isTileLockedExclusive [DecidableEq S] (rasServerId : S) (tileId : ℤ) (t : LockTable S) : Bool :=
  t.any fun r => r.tileId = tileId ∧ r.rasServerId = rasServerId ∧ r.exclusiveLock = some 1

/-- `areTilesLockedShared`. -/
def areTilesLockedShared [DecidableEq S] (rasServerId : S) (beginId endId : ℤ) (t : LockTable S) : Bool :=
  t.any fun r => (beginId ≤ r.tileId ∧ r.tileId ≤ endId) ∧ r.rasServerId = rasServerId ∧
    r.sharedLock = 1

/-- `areTilesLockedExclusive`. -/
def areTilesLockedExclusive [DecidableEq S] (rasServerId : S) (beginId endId : ℤ) (t : LockTable S) : Bool :=
  t.any fun r => (beginId ≤ r.tileId ∧ r.tileId ≤ endId) ∧ r.rasServerId = rasServerId ∧
    r.exclusiveLock = some 1

/-- `lockTilesShared`; `generate_series` counts through the interval. -/
def lockTilesShared [DecidableEq S] (rasServerId : S) (beginId endId : ℤ) (t : LockTable S) :
    Except (LockStop S) (LockTable S) :=
  if beginId ≤ endId ∧ areTilesLockedShared rasServerId beginId endId t = false then
    insertRows t ((Odometer.upTo beginId endId).map (sharedRow rasServerId))
  else .ok t

/-- `lockTilesExclusive`. -/
def lockTilesExclusive [DecidableEq S] (rasServerId : S) (beginId endId : ℤ) (t : LockTable S) :
    Except (LockStop S) (LockTable S) :=
  if beginId ≤ endId ∧ areTilesLockedExclusive rasServerId beginId endId t = false then
    insertRows t ((Odometer.upTo beginId endId).map (exclusiveRow rasServerId))
  else .ok t

/-- `unlockTile`. -/
def unlockTile [DecidableEq S] (rasServerId : S) (tileId : ℤ) (t : LockTable S) : LockTable S :=
  t.filter fun r => ¬ (r.tileId = tileId ∧ r.rasServerId = rasServerId)

/-- `unlockAllTiles`. -/
def unlockAllTiles [DecidableEq S] (rasServerId : S) (t : LockTable S) : LockTable S :=
  t.filter fun r => r.rasServerId ≠ rasServerId

/-- `clearLockTable`. -/
def clearLockTable [DecidableEq S] (rasServerId : S) (t : LockTable S) : LockTable S :=
  t.filter fun r => r.rasServerId ≠ rasServerId

/-! ## Compatible locks -/

/-- An exclusive lock of a server is not accompanied by a lock of another on the tile. -/
def Compatible (t : LockTable S) : Prop :=
  ∀ r ∈ t, r.exclusiveLock = some 1 → ∀ s ∈ t, s.tileId = r.tileId → s.rasServerId = r.rasServerId

variable {t t' rows : LockTable S} {rasServerId : S} {tileId beginId endId : ℤ}

/-- Locks of an empty table are compatible. -/
theorem compatible_nil : Compatible ([] : LockTable S) := fun _ hr => absurd hr List.not_mem_nil

theorem Compatible.filter (h : Compatible t) (keep : LockRow S → Bool) : Compatible (t.filter keep) :=
  fun r hr hx s hs => h r (List.mem_filter.mp hr).1 hx s (List.mem_filter.mp hs).1

theorem insertRows_eq_ok (h : insertRows t rows = .ok t') : t' = t ++ rows ∧ Unique (t ++ rows) := by
  unfold insertRows at h
  split at h
  · next hu => exact ⟨(Except.ok.inj h).symm, hu⟩
  · cases h

/-- A statement that fails rolls the transaction back. -/
theorem insertRows_eq_error {stop : LockStop S} (h : insertRows t rows = .error stop) :
    stop = .statementFailed := by
  unfold insertRows at h
  split at h
  · cases h
  · exact (Except.error.inj h).symm

theorem insertIf_eq_error {test : Prop} [Decidable test] {stop : LockStop S}
    (h : (if test then insertRows t rows else .ok t) = .error stop) : stop = .statementFailed := by
  split at h
  · exact insertRows_eq_error h
  · cases h

theorem insertUnless_eq_error {test : Prop} [Decidable test] {stop : LockStop S}
    (h : (if test then .ok t else insertRows t rows) = .error stop) : stop = .statementFailed := by
  split at h
  · cases h
  · exact insertRows_eq_error h

/-- Rows of one server keep the locks compatible when none of them and of the rows before exclude each
other. -/
theorem Compatible.append (h : Compatible t) (hrows : ∀ r ∈ rows, r.rasServerId = rasServerId)
    (hold : ∀ r ∈ t, ∀ s ∈ rows, r.tileId = s.tileId →
      r.exclusiveLock = some 1 ∨ s.exclusiveLock = some 1 → r.rasServerId = rasServerId) :
    Compatible (t ++ rows) := by
  intro r hr hx s hs htile
  rcases List.mem_append.mp hr with hr | hr <;> rcases List.mem_append.mp hs with hs | hs
  · exact h r hr hx s hs htile
  · rw [hrows s hs, hold r hr s hs htile.symm (Or.inl hx)]
  · rw [hrows r hr, hold s hs r hr htile (Or.inr hx)]
  · rw [hrows r hr, hrows s hs]

/-! ## What a statement does -/

/-- A statement of a server adds rows of its own. -/
structure Adds (rasServerId : S) (t t' : LockTable S) : Prop where
  old : ∀ r ∈ t, r ∈ t'
  new : ∀ r ∈ t', r ∈ t ∨ r.rasServerId = rasServerId

theorem Adds.refl (rasServerId : S) (t : LockTable S) : Adds rasServerId t t :=
  ⟨fun _ h => h, fun _ h => Or.inl h⟩

theorem Adds.trans {t'' : LockTable S} (h : Adds rasServerId t t') (h' : Adds rasServerId t' t'') :
    Adds rasServerId t t'' :=
  ⟨fun r hr => h'.old r (h.old r hr), fun r hr => (h'.new r hr).elim (h.new r) Or.inr⟩

theorem adds_append (hrows : ∀ r ∈ rows, r.rasServerId = rasServerId) :
    Adds rasServerId t (t ++ rows) :=
  ⟨fun _ hr => List.mem_append_left _ hr, fun r hr => (List.mem_append.mp hr).imp id (hrows r)⟩

/-- **A tile locked alone is tested against all servers.** -/
theorem lockTileShared_compatible (h : Compatible t)
    (hok : lockTileShared rasServerId tileId t = .ok t') : Compatible t' ∧ Adds rasServerId t t' := by
  unfold lockTileShared at hok
  split at hok
  · obtain rfl := Except.ok.inj hok
    exact ⟨h, .refl ..⟩
  · next hnone =>
    obtain ⟨rfl, -⟩ := insertRows_eq_ok hok
    have hrows : ∀ r ∈ [sharedRow rasServerId tileId], r.rasServerId = rasServerId := by
      simp [sharedRow]
    refine ⟨h.append hrows fun r hr s hs htile hx => ?_, adds_append hrows⟩
    obtain rfl := List.mem_singleton.mp hs
    rcases hx with hx | hx
    · exact absurd ⟨r, hr, htile, hx⟩ hnone
    · cases hx

theorem lockTileExclusive_compatible (h : Compatible t)
    (hok : lockTileExclusive rasServerId tileId t = .ok t') :
    Compatible t' ∧ Adds rasServerId t t' := by
  unfold lockTileExclusive at hok
  split at hok
  · obtain rfl := Except.ok.inj hok
    exact ⟨h, .refl ..⟩
  · next hnone =>
    obtain ⟨rfl, -⟩ := insertRows_eq_ok hok
    have hrows : ∀ r ∈ [exclusiveRow rasServerId tileId], r.rasServerId = rasServerId := by
      simp [exclusiveRow]
    refine ⟨h.append hrows fun r hr s hs htile _ => ?_, adds_append hrows⟩
    obtain rfl := List.mem_singleton.mp hs
    exact absurd ⟨r, hr, htile⟩ hnone

/-- The insertion for an interval takes a lock against one of another server. -/
def Clashes [DecidableEq S] (lockType : Lock) (rasServerId : S) (beginId endId : ℤ) (t : LockTable S) : Prop :=
  match lockType with
  | .shared => areTilesLockedShared rasServerId beginId endId t = false ∧
      ∃ r ∈ t, (beginId ≤ r.tileId ∧ r.tileId ≤ endId) ∧ r.rasServerId ≠ rasServerId ∧
        r.exclusiveLock = some 1
  | .exclusive => (∀ r ∈ t, beginId ≤ r.tileId ∧ r.tileId ≤ endId → r.exclusiveLock ≠ some 1) ∧
      ∃ r ∈ t, (beginId ≤ r.tileId ∧ r.tileId ≤ endId) ∧ r.rasServerId ≠ rasServerId

theorem lockTilesShared_compatible [DecidableEq S] (h : Compatible t)
    (hsafe : ¬ Clashes .shared rasServerId beginId endId t)
    (hok : lockTilesShared rasServerId beginId endId t = .ok t') :
    Compatible t' ∧ Adds rasServerId t t' := by
  unfold lockTilesShared at hok
  split at hok
  · next hrun =>
    obtain ⟨rfl, -⟩ := insertRows_eq_ok hok
    have hrows : ∀ r ∈ (Odometer.upTo beginId endId).map (sharedRow rasServerId),
        r.rasServerId = rasServerId := List.forall_mem_map.mpr fun _ _ => rfl
    refine ⟨h.append hrows fun r hr s hs htile hx => ?_, adds_append hrows⟩
    obtain ⟨i, hi, rfl⟩ := List.mem_map.mp hs
    by_contra hne
    refine hsafe ⟨hrun.2, r, hr, ?_, hne, ?_⟩
    · rw [htile]
      exact Odometer.mem_upTo.mp hi
    · exact hx.resolve_right (by simp [sharedRow])
  · obtain rfl := Except.ok.inj hok
    exact ⟨h, .refl ..⟩

/-- The constraint keeps the insertion for an interval from a second exclusive lock. -/
theorem lockTilesExclusive_compatible [DecidableEq S] (h : Compatible t)
    (hsafe : ¬ Clashes .exclusive rasServerId beginId endId t)
    (hok : lockTilesExclusive rasServerId beginId endId t = .ok t') :
    Compatible t' ∧ Adds rasServerId t t' := by
  unfold lockTilesExclusive at hok
  split at hok
  · obtain ⟨rfl, hu⟩ := insertRows_eq_ok hok
    have hrows : ∀ r ∈ (Odometer.upTo beginId endId).map (exclusiveRow rasServerId),
        r.rasServerId = rasServerId := List.forall_mem_map.mpr fun _ _ => rfl
    have hnone : ∀ r ∈ t, beginId ≤ r.tileId ∧ r.tileId ≤ endId → r.exclusiveLock ≠ some 1 := by
      intro r hr hin hx
      have hrow : exclusiveRow rasServerId r.tileId ∈
          (Odometer.upTo beginId endId).map (exclusiveRow rasServerId) :=
        List.mem_map_of_mem (Odometer.mem_upTo.mpr hin)
      have hpair := (List.pairwise_append.mp hu).2.2 r hr _ hrow
      simp [exclusiveRow, hx] at hpair
    refine ⟨h.append hrows fun r hr s hs htile _ => ?_, adds_append hrows⟩
    obtain ⟨i, hi, rfl⟩ := List.mem_map.mp hs
    by_contra hne
    refine hsafe ⟨hnone, r, hr, ?_, hne⟩
    rw [htile]
    exact Odometer.mem_upTo.mp hi
  · obtain rfl := Except.ok.inj hok
    exact ⟨h, .refl ..⟩

end EcpgLockManager

end Rasdaman
