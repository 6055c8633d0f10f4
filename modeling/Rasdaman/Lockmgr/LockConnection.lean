import Mathlib
import Rasdaman.Lockmgr.LockManager

/-!
# Lockmgr/LockConnection — the calls of the lock manager on its database connection

Each call begins a transaction, executes its statements and ends the transaction.  The statements' errors
are not looked at: after one that fails the transaction takes no other, and its end undoes it.  A call that
throws leaves its transaction open.

As long as no statement fails, a call does what a step of `LockManager` does (`call_of_execute`).
-/

namespace Rasdaman

/-- The transaction of a connection: there is none, there is one with the table as it has become, or there
is one in which a statement has failed. -/
inductive LockTransaction (S : Type)
  | none
  | opened (table : LockTable S)
  | aborted
  deriving DecidableEq

/-- The connection of a lock manager: the table as it is committed, and its transaction. -/
structure LockConnection (S : Type) where
  committed : LockTable S
  transaction : LockTransaction S
  deriving DecidableEq

namespace LockConnection

open EcpgLockManager

variable {S : Type}

/-- `beginTransaction`: inside of a transaction there is a warning only. -/
def beginTransaction (c : LockConnection S) : LockConnection S :=
  match c.transaction with
  | .none => ⟨c.committed, .opened c.committed⟩
  | _ => c

/-- `endTransaction`. -/
def endTransaction (c : LockConnection S) : LockConnection S :=
  match c.transaction with
  | .none => c
  | .opened table => ⟨table, .none⟩
  | .aborted => ⟨c.committed, .none⟩

/-- A statement in a transaction; outside of one it begins one. -/
def execute (statement : LockTable S → Except (LockStop S) (LockTable S)) (c : LockConnection S) :
    LockConnection S :=
  match c.beginTransaction.transaction with
  | .opened table =>
    match statement table with
    | .ok table' => ⟨c.committed, .opened table'⟩
    | .error _ => ⟨c.committed, .aborted⟩
  | _ => c

/-- A query whether there are rows; where it fails, the count stays 0. -/
def query (test : LockTable S → Bool) (c : LockConnection S) : Bool :=
  match c.transaction with
  | .none => test c.committed
  | .opened table => test table
  | .aborted => false

variable [DecidableEq S]

/-! ## The functions of the lock manager -/

/-- `lockTileExclusive` or `lockTileShared`. -/
def lockTileStatement : Lock → S → ℤ → LockTable S → Except (LockStop S) (LockTable S)
  | .exclusive => lockTileExclusive
  | .shared => lockTileShared

/-- `isTileLockedExclusive` or `isTileLockedShared`. -/
def isTileLocked : Lock → S → ℤ → LockTable S → Bool
  | .exclusive => isTileLockedExclusive
  | .shared => isTileLockedShared

/-- `lockTilesExclusive` or `lockTilesShared`. -/
def lockTilesStatement : Lock → S → ℤ → ℤ → LockTable S → Except (LockStop S) (LockTable S)
  | .exclusive => lockTilesExclusive
  | .shared => lockTilesShared

/-- `lockTileInternal`; an exception leaves the connection as it is. -/
def lockTileInternal (rasServerId : S) (lockType : Lock) (c : LockConnection S) (tileId : ℤ) :
    Except (LockConnection S) (LockConnection S) :=
  let c := c.execute (lockTileStatement lockType rasServerId tileId)
  if c.query (isTileLocked lockType rasServerId tileId) then .ok c else .error c

/-- The body of the loop over the runs of tile ids. -/
def lockBlock (rasServerId : S) (lockType : Lock) (c : LockConnection S) (block : LockManager.Block) :
    Except (LockConnection S) (LockConnection S) :=
  if block.ids.length - 1 ≥ 10 then
    .ok (c.execute (lockTilesStatement lockType rasServerId block.beginId block.endId))
  else block.ids.foldlM (lockTileInternal rasServerId lockType) c

/-- `lockTilesInternal`. -/
def lockTilesInternal (rasServerId : S) (lockType : Lock) (c : LockConnection S) (tileIds : List ℤ) :
    Except (LockConnection S) (LockConnection S) :=
  match tileIds with
  | [] => .ok c
  | [tileId] => lockTileInternal rasServerId lockType c tileId
  | _ => (LockManager.sortedBlocks tileIds).foldlM (lockBlock rasServerId lockType) c

/-- The calls of a server between which it may lock and unlock tiles. -/
inductive Call
  | lockTile (oid : ℤ)
  | lockTiles (tileIds : List ℤ)
  | unlockTile (oid : ℤ)
  | unlockAllTiles

/-- A call, with locks of a type. -/
def call (rasServerId : S) (lockType : Lock) (c : LockConnection S) :
    Call → Except (LockConnection S) (LockConnection S)
  | .lockTile oid =>
    if oid > 0 then do
      let c ← lockTileInternal rasServerId lockType c.beginTransaction oid
      return c.endTransaction
    else .ok c
  | .lockTiles tileIds =>
    if tileIds.length > 0 then do
      let c ← lockTilesInternal rasServerId lockType c.beginTransaction tileIds
      return c.endTransaction
    else .ok c
  | .unlockTile oid =>
    .ok (if oid > 0 then
      (c.beginTransaction.execute fun t => .ok (unlockTile rasServerId oid t)).endTransaction else c)
  | .unlockAllTiles =>
    .ok (c.beginTransaction.execute fun t => .ok (unlockAllTiles rasServerId t)).endTransaction

/-- Calls one after the other, each with locks of a type of its own: which of them threw, and the table as
it is committed in the end. -/
def calls (rasServerId : S) : LockConnection S → List (Lock × Call) → List Bool × LockTable S
  | c, [] => ([], c.committed)
  | c, (lockType, l) :: ls =>
    match call rasServerId lockType c l with
    | .ok c' => ((false :: (calls rasServerId c' ls).1), (calls rasServerId c' ls).2)
    | .error c' => ((true :: (calls rasServerId c' ls).1), (calls rasServerId c' ls).2)

/-! ## The calls of a run

In a transaction of its own a call does to the table what `LockManager.execute` does. -/

/-- The call as a step of a run has it. -/
def Call.plain : Call → LockManager.Call
  | .lockTile oid => .lockTile oid
  | .lockTiles tileIds => .lockTiles tileIds
  | .unlockTile oid => .unlockTile oid
  | .unlockAllTiles => .unlockAllTiles

/-- A connection with its transaction open has the table of a run, unless a statement failed. -/
def Follows (committed : LockTable S) (r : Except (LockStop S) (LockTable S))
    (r' : Except (LockConnection S) (LockConnection S)) : Prop :=
  match r with
  | .ok t => r' = .ok ⟨committed, .opened t⟩
  | .error (.throws t) => r' = .error ⟨committed, .opened t⟩
  | .error .statementFailed => True

section Follows

variable {committed t : LockTable S} {rasServerId : S} {lockType : Lock}

omit [DecidableEq S] in
theorem Follows.foldlM {α : Type} {f : LockTable S → α → Except (LockStop S) (LockTable S)}
    {g : LockConnection S → α → Except (LockConnection S) (LockConnection S)}
    (h : ∀ t x, Follows committed (f t x) (g ⟨committed, .opened t⟩ x)) (l : List α)
    (t : LockTable S) : Follows committed (l.foldlM f t) (l.foldlM g ⟨committed, .opened t⟩) := by
  induction l generalizing t with
  | nil => rfl
  | cons x l ih =>
    have hx := h t x
    rw [List.foldlM_cons, List.foldlM_cons]
    generalize f t x = r at hx ⊢
    rcases r with (_ | t') | t'
    · trivial
    · have hg : g ⟨committed, .opened t⟩ x = .error ⟨committed, .opened t'⟩ := hx
      rw [hg]
      rfl
    · have hg : g ⟨committed, .opened t⟩ x = .ok ⟨committed, .opened t'⟩ := hx
      rw [hg]
      exact ih t'

omit [DecidableEq S] in
theorem execute_opened (statement : LockTable S → Except (LockStop S) (LockTable S))
    (h : ∀ stop, statement t = .error stop → stop = .statementFailed) :
    Follows committed (statement t) (.ok (execute statement ⟨committed, .opened t⟩)) := by
  cases hstatement : statement t with
  | ok t' => simp only [Follows, execute, beginTransaction, hstatement]
  | error stop =>
    obtain rfl := h stop hstatement
    trivial

/-- A statement for one tile and the query after it. -/
theorem lockTileInternal_follows (tileId : ℤ) :
    Follows committed (LockManager.lockTileInternal rasServerId lockType t tileId)
      (lockTileInternal rasServerId lockType ⟨committed, .opened t⟩ tileId) := by
  have hquery : ∀ (statement : LockTable S → Except (LockStop S) (LockTable S))
      (test : LockTable S → Bool),
      (∀ stop, statement t = .error stop → stop = .statementFailed) →
      Follows committed (statement t >>= fun t' => if test t' then .ok t' else .error (.throws t'))
        (let c := execute statement ⟨committed, .opened t⟩
         if c.query test then .ok c else .error c) := fun statement test h => by
    cases hstatement : statement t with
    | ok t' =>
      have hc : execute statement ⟨committed, .opened t⟩ = ⟨committed, .opened t'⟩ := by
        simp only [execute, beginTransaction, hstatement]
      simp only [bind, Except.bind, hc, query]
      split <;> rfl
    | error stop =>
      obtain rfl := h stop hstatement
      trivial
  cases lockType with
  | shared => exact hquery (lockTileShared rasServerId tileId) _ fun stop => insertUnless_eq_error
  | exclusive =>
    exact hquery (lockTileExclusive rasServerId tileId) _ fun stop => insertUnless_eq_error

theorem lockBlock_follows (block : LockManager.Block) :
    Follows committed (LockManager.lockBlock rasServerId lockType t block)
      (lockBlock rasServerId lockType ⟨committed, .opened t⟩ block) := by
  unfold LockManager.lockBlock lockBlock
  split
  · cases lockType with
    | shared =>
      exact execute_opened (lockTilesShared rasServerId block.beginId block.endId)
        fun stop => insertIf_eq_error
    | exclusive =>
      exact execute_opened (lockTilesExclusive rasServerId block.beginId block.endId)
        fun stop => insertIf_eq_error
  · exact Follows.foldlM (fun t id => lockTileInternal_follows id) block.ids t

theorem lockTilesInternal_follows (tileIds : List ℤ) :
    Follows committed (LockManager.lockTilesInternal rasServerId lockType t tileIds)
      (lockTilesInternal rasServerId lockType ⟨committed, .opened t⟩ tileIds) := by
  match tileIds with
  | [] => rfl
  | [tileId] => exact lockTileInternal_follows tileId
  | x :: y :: rest => exact Follows.foldlM (fun t block => lockBlock_follows block) _ t

/-- **Without a transaction a call does what a step of a run does**: what it returns is committed, and
what it leaves when it throws stays in its transaction. -/
theorem call_of_execute (l : Call) :
    match LockManager.execute rasServerId lockType t l.plain with
    | .ok t' => call rasServerId lockType ⟨t, .none⟩ l = .ok ⟨t', .none⟩
    | .error (.throws t') => call rasServerId lockType ⟨t, .none⟩ l = .error ⟨t, .opened t'⟩
    | .error .statementFailed => True := by
  have hend : ∀ {r : Except (LockStop S) (LockTable S)} {r' : Except (LockConnection S) (LockConnection S)},
      Follows t r r' →
      match r with
      | .ok t' => r'.map endTransaction = .ok ⟨t', .none⟩
      | .error (.throws t') => r'.map endTransaction = .error ⟨t, .opened t'⟩
      | .error .statementFailed => True := by
    rintro ((_ | t') | t') r' h
    · trivial
    · exact congrArg (Except.map endTransaction) h
    · exact congrArg (Except.map endTransaction) h
  cases l with
  | lockTile oid =>
    simp only [Call.plain, LockManager.execute, call]
    split_ifs with hpos
    · exact hend (lockTileInternal_follows oid)
    · rfl
  | lockTiles tileIds =>
    simp only [Call.plain, LockManager.execute, call]
    split_ifs with hpos
    · exact hend (lockTilesInternal_follows tileIds)
    · obtain rfl := List.length_eq_zero_iff.mp (Nat.eq_zero_of_not_pos hpos)
      rfl
  | unlockTile oid =>
    simp only [Call.plain, LockManager.execute, call]
    split_ifs <;> rfl
  | unlockAllTiles => rfl

end Follows

/-! ## What the table says about a tile -/

/-- A row has a lock of the type. -/
def IsLock : Lock → LockRow S → Prop
  | .shared, r => r.sharedLock = 1
  | .exclusive, r => r.exclusiveLock = some 1

/-- A row that keeps a lock of the type from being inserted. -/
def Opposes : Lock → LockRow S → Prop
  | .shared, r => r.exclusiveLock = some 1
  | .exclusive, _ => True

/-- The server has a lock of the type on the tile. -/
def HasLock (lockType : Lock) (rasServerId : S) (t : LockTable S) (tileId : ℤ) : Prop :=
  ∃ r ∈ t, r.tileId = tileId ∧ r.rasServerId = rasServerId ∧ IsLock lockType r

/-- The server has the lock, or nothing is in its way. -/
def Obtainable (lockType : Lock) (rasServerId : S) (t : LockTable S) (tileId : ℤ) : Prop :=
  HasLock lockType rasServerId t tileId ∨ ∀ r ∈ t, r.tileId = tileId → ¬ Opposes lockType r

/-- The row of a lock. -/
def rowOf : Lock → S → ℤ → LockRow S
  | .shared => sharedRow
  | .exclusive => exclusiveRow

/-- The insertion for a run of tiles breaks the constraint. -/
def Fails (lockType : Lock) (rasServerId : S) (t : LockTable S) (ids : List ℤ) : Prop :=
  lockType = .exclusive ∧ (∀ id ∈ ids, ¬ HasLock lockType rasServerId t id) ∧
    ∃ r ∈ t, r.tileId ∈ ids ∧ r.exclusiveLock = some 1

variable {t t' t'' : LockTable S} {lockType : Lock} {rasServerId : S} {tileId beginId endId : ℤ}
  {ids ids' : List ℤ} {d : LockTable S}

/-! ## What a statement does -/

theorem isTileLocked_iff : isTileLocked lockType rasServerId tileId t = true ↔
    HasLock lockType rasServerId t tileId := by
  cases lockType <;>
    simp only [isTileLocked, isTileLockedExclusive, isTileLockedShared, HasLock, IsLock, List.any_eq_true,
      decide_eq_true_eq]

omit [DecidableEq S] in
@[simp] theorem rowOf_tileId : (rowOf lockType rasServerId tileId).tileId = tileId := by
  cases lockType <;> rfl

omit [DecidableEq S] in
@[simp] theorem rowOf_rasServerId : (rowOf lockType rasServerId tileId).rasServerId = rasServerId := by
  cases lockType <;> rfl

omit [DecidableEq S] in
theorem isLock_rowOf : IsLock lockType (rowOf lockType rasServerId tileId) := by
  cases lockType <;> rfl

/-- The table has grown by locks of the server on some tiles. -/
structure Grown (lockType : Lock) (rasServerId : S) (ids : List ℤ) (t t' : LockTable S) : Prop where
  old : ∀ r ∈ t, r ∈ t'
  new : ∀ r ∈ t', r ∈ t ∨ ∃ id ∈ ids, r = rowOf lockType rasServerId id

omit [DecidableEq S] in
theorem Grown.refl : Grown lockType rasServerId ids t t := ⟨fun _ h => h, fun _ h => Or.inl h⟩

omit [DecidableEq S] in
theorem Grown.trans (h : Grown lockType rasServerId ids t t') (h' : Grown lockType rasServerId ids' t' t'') :
    Grown lockType rasServerId (ids ++ ids') t t'' := by
  refine ⟨fun r hr => h'.old r (h.old r hr), fun r hr => ?_⟩
  rcases h'.new r hr with hr | ⟨id, hid, rfl⟩
  · exact (h.new r hr).imp id fun ⟨id, hid, heq⟩ => ⟨id, List.mem_append_left _ hid, heq⟩
  · exact .inr ⟨id, List.mem_append_right _ hid, rfl⟩

omit [DecidableEq S] in
theorem grown_append : Grown lockType rasServerId ids t (t ++ ids.map (rowOf lockType rasServerId)) := by
  refine ⟨fun r hr => List.mem_append_left _ hr, fun r hr => (List.mem_append.mp hr).imp id fun hr => ?_⟩
  obtain ⟨id, hid, rfl⟩ := List.mem_map.mp hr
  exact ⟨id, hid, rfl⟩

omit [DecidableEq S] in
theorem Grown.hasLock (h : Grown lockType rasServerId ids t t')
    (hlock : HasLock lockType rasServerId t tileId) : HasLock lockType rasServerId t' tileId := by
  obtain ⟨r, hr, hrow⟩ := hlock
  exact ⟨r, h.old r hr, hrow⟩

omit [DecidableEq S] in
/-- What is new says nothing of other tiles. -/
theorem Grown.mem_iff (h : Grown lockType rasServerId ids t t') {r : LockRow S} (hr : r.tileId ∉ ids) :
    r ∈ t' ↔ r ∈ t := by
  refine ⟨fun hmem => (h.new r hmem).resolve_right ?_, h.old r⟩
  rintro ⟨id, hid, rfl⟩
  exact hr (by rwa [rowOf_tileId])

omit [DecidableEq S] in
theorem Grown.hasLock_iff (h : Grown lockType rasServerId ids t t') (hid : tileId ∉ ids) :
    HasLock lockType rasServerId t' tileId ↔ HasLock lockType rasServerId t tileId := by
  refine exists_congr fun r => ⟨?_, ?_⟩ <;> rintro ⟨hr, rfl, hrow⟩
  · exact ⟨(h.mem_iff hid).mp hr, rfl, hrow⟩
  · exact ⟨(h.mem_iff hid).mpr hr, rfl, hrow⟩

omit [DecidableEq S] in
theorem Grown.obtainable_iff (h : Grown lockType rasServerId ids t t') (hid : tileId ∉ ids) :
    Obtainable lockType rasServerId t' tileId ↔ Obtainable lockType rasServerId t tileId := by
  refine or_congr (h.hasLock_iff hid) (forall_congr' fun r => ⟨?_, ?_⟩) <;> rintro hr hmem rfl
  · exact hr ((h.mem_iff hid).mpr hmem) rfl
  · exact hr ((h.mem_iff hid).mp hmem) rfl

omit [DecidableEq S] in
/-- Rows that are not in each other's way and in that of no row of the table. -/
theorem insertRows_eq {rows : LockTable S} (hu : Unique t) (hrows : Unique rows)
    (hfresh : ∀ r ∈ t, ∀ s ∈ rows,
      r.exclusiveLock = none ∨ (r.tileId, r.exclusiveLock) ≠ (s.tileId, s.exclusiveLock)) :
    insertRows t rows = .ok (t ++ rows) ∧ Unique (t ++ rows) := by
  have h : Unique (t ++ rows) := List.pairwise_append.mpr ⟨hu, hrows, hfresh⟩
  exact ⟨if_pos h, h⟩

omit [DecidableEq S] in
theorem unique_map_rowOf (h : ids.Nodup) : Unique (ids.map (rowOf lockType rasServerId)) := by
  rw [EcpgLockManager.Unique, List.pairwise_map]
  refine h.imp fun {a b} hab => ?_
  cases lockType with
  | shared => exact .inl rfl
  | exclusive => exact .inr fun heq => hab (Prod.ext_iff.mp heq).1

omit [DecidableEq S] in
/-- Opposing rows of the tile keep the lock away unless the server has it. -/
theorem obtainable_iff_of_opposed {r : LockRow S} (hr : r ∈ t) (hid : r.tileId = tileId)
    (hopposes : Opposes lockType r) :
    Obtainable lockType rasServerId t tileId ↔ HasLock lockType rasServerId t tileId :=
  or_iff_left fun h => h r hr hid hopposes

omit [DecidableEq S] in
/-- A row that is inserted where nothing opposes it. -/
theorem insert_of_unopposed (hu : Unique t)
    (h : ∀ r ∈ t, r.tileId = tileId → ¬ Opposes lockType r) :
    ∃ t', insertRows t [rowOf lockType rasServerId tileId] = .ok t' ∧ Unique t' ∧
      Grown lockType rasServerId [tileId] t t' ∧
      (HasLock lockType rasServerId t' tileId ↔ Obtainable lockType rasServerId t tileId) := by
  have hinsert := insertRows_eq hu
    (List.pairwise_singleton _ _ : EcpgLockManager.Unique [rowOf lockType rasServerId tileId]) ?_
  · refine ⟨_, hinsert.1, hinsert.2, @grown_append _ t _ _ [tileId], iff_of_true ?_ (.inr h)⟩
    exact ⟨_, List.mem_append_right _ List.mem_cons_self, rowOf_tileId, rowOf_rasServerId, isLock_rowOf⟩
  · intro r hr s hs
    obtain rfl := List.mem_singleton.mp hs
    cases lockType with
    | shared =>
      refine or_iff_not_imp_left.mpr fun hne heq => hne ?_
      exact (Prod.ext_iff.mp heq).2
    | exclusive => exact .inr fun heq => h r hr (Prod.ext_iff.mp heq).1 trivial

omit [DecidableEq S] in
/-- **A statement for one tile** never fails, and gets every lock that can be got. -/
theorem lockTileStatement_spec (hu : Unique t) (tileId : ℤ) :
    ∃ t', lockTileStatement lockType rasServerId tileId t = .ok t' ∧ Unique t' ∧
      Grown lockType rasServerId [tileId] t t' ∧
      (HasLock lockType rasServerId t' tileId ↔ Obtainable lockType rasServerId t tileId) := by
  by_cases h : ∃ r ∈ t, r.tileId = tileId ∧ Opposes lockType r
  · refine ⟨t, ?_, hu, .refl, ?_⟩
    · cases lockType with
      | shared => exact if_pos h
      | exclusive =>
        obtain ⟨r, hr, hid, -⟩ := h
        exact if_pos ⟨r, hr, hid⟩
    · obtain ⟨r, hr, hid, hopposes⟩ := h
      exact (obtainable_iff_of_opposed hr hid hopposes).symm
  · have hnone : ∀ r ∈ t, r.tileId = tileId → ¬ Opposes lockType r := fun r hr hid hopposes =>
      h ⟨r, hr, hid, hopposes⟩
    have hstatement : lockTileStatement lockType rasServerId tileId t =
        insertRows t [rowOf lockType rasServerId tileId] := by
      cases lockType with
      | shared => exact if_neg h
      | exclusive => exact if_neg fun ⟨r, hr, hid⟩ => hnone r hr hid trivial
    rw [hstatement]
    exact insert_of_unopposed hu hnone

/-- A run of tile ids: all the integers from its first id to its last. -/
structure IsRun (block : LockManager.Block) : Prop where
  le : block.beginId ≤ block.endId
  mem_iff : ∀ id, id ∈ block.ids ↔ block.beginId ≤ id ∧ id ≤ block.endId

variable {block : LockManager.Block}

/-- The statement for a run does nothing where the server has a lock in it. -/
theorem lockTilesStatement_skips (h : IsRun block)
    (hlock : ∃ id ∈ block.ids, HasLock lockType rasServerId t id) :
    lockTilesStatement lockType rasServerId block.beginId block.endId t = .ok t := by
  obtain ⟨id, hid, r, hr, rfl, hserver, hislock⟩ := hlock
  have hin := (h.mem_iff _).mp hid
  cases lockType with
  | shared =>
    refine if_neg fun hfree => Bool.false_ne_true (hfree.2.symm.trans ?_)
    exact List.any_eq_true.mpr ⟨r, hr, decide_eq_true ⟨hin, hserver, hislock⟩⟩
  | exclusive =>
    refine if_neg fun hfree => Bool.false_ne_true (hfree.2.symm.trans ?_)
    exact List.any_eq_true.mpr ⟨r, hr, decide_eq_true ⟨hin, hserver, hislock⟩⟩

theorem lockTilesStatement_eq (h : IsRun block)
    (hfree : ∀ id ∈ block.ids, ¬ HasLock lockType rasServerId t id) :
    lockTilesStatement lockType rasServerId block.beginId block.endId t =
      insertRows t ((Odometer.upTo block.beginId block.endId).map (rowOf lockType rasServerId)) := by
  cases lockType with
  | shared =>
    refine if_pos ⟨h.le, List.any_eq_false.mpr fun r hr hlock => ?_⟩
    obtain ⟨hin, hserver, hislock⟩ := of_decide_eq_true hlock
    exact hfree _ ((h.mem_iff _).mpr hin) ⟨r, hr, rfl, hserver, hislock⟩
  | exclusive =>
    refine if_pos ⟨h.le, List.any_eq_false.mpr fun r hr hlock => ?_⟩
    obtain ⟨hin, hserver, hislock⟩ := of_decide_eq_true hlock
    exact hfree _ ((h.mem_iff _).mpr hin) ⟨r, hr, rfl, hserver, hislock⟩

/-- **The statement for a run that fails.** -/
theorem lockTilesStatement_fails (h : IsRun block) (hfails : Fails lockType rasServerId t block.ids) :
    ∃ stop, lockTilesStatement lockType rasServerId block.beginId block.endId t = .error stop := by
  obtain ⟨rfl, hfree, r, hr, hid, hx⟩ := hfails
  rw [lockTilesStatement_eq h hfree]
  refine ⟨.statementFailed, if_neg fun hu => ?_⟩
  have hrow : rowOf .exclusive rasServerId r.tileId ∈
      (Odometer.upTo block.beginId block.endId).map (rowOf .exclusive rasServerId) :=
    List.mem_map_of_mem (Odometer.mem_upTo.mpr ((h.mem_iff _).mp hid))
  rcases (List.pairwise_append.mp hu).2.2 r hr _ hrow with hnone | hne
  · rw [hx] at hnone
    cases hnone
  · exact hne (Prod.ext rfl hx)

/-- **The statement for a run that locks it.** -/
theorem lockTilesStatement_locks (h : IsRun block) (hu : Unique t)
    (hfree : ∀ id ∈ block.ids, ¬ HasLock lockType rasServerId t id)
    (hfails : ¬ Fails lockType rasServerId t block.ids) :
    ∃ t', lockTilesStatement lockType rasServerId block.beginId block.endId t = .ok t' ∧ Unique t' ∧
      Grown lockType rasServerId block.ids t t' ∧ ∀ id ∈ block.ids, HasLock lockType rasServerId t' id := by
  have hinsert := insertRows_eq hu
    (@unique_map_rowOf _ lockType rasServerId _
      (Odometer.nodup_upTo block.beginId block.endId)) ?_
  · rw [lockTilesStatement_eq h hfree]
    refine ⟨_, hinsert.1, hinsert.2, ⟨grown_append.old, fun r hr => ?_⟩, fun id hid => ?_⟩
    · refine (grown_append.new r hr).imp id fun ⟨id, hid, heq⟩ => ⟨id, ?_, heq⟩
      exact (h.mem_iff id).mpr (Odometer.mem_upTo.mp hid)
    · refine ⟨_, List.mem_append_right _ (List.mem_map_of_mem (Odometer.mem_upTo.mpr ((h.mem_iff id).mp hid))),
        rowOf_tileId, rowOf_rasServerId, isLock_rowOf⟩
  · intro r hr s hs
    obtain ⟨id, hid, rfl⟩ := List.mem_map.mp hs
    refine or_iff_not_imp_left.mpr fun hne heq => ?_
    obtain ⟨htile, hx⟩ := Prod.ext_iff.mp heq
    cases lockType with
    | shared => exact hne hx
    | exclusive =>
      refine hfails ⟨rfl, hfree, r, hr, ?_, hx⟩
      have htile : r.tileId = id := htile
      rw [htile]
      exact (h.mem_iff id).mpr (Odometer.mem_upTo.mp hid)

/-! ## A run of tile ids in a transaction -/

omit [DecidableEq S] in
theorem execute_opened_ok {statement : LockTable S → Except (LockStop S) (LockTable S)}
    (h : statement t = .ok t') :
    (⟨d, .opened t⟩ : LockConnection S).execute statement = ⟨d, .opened t'⟩ := by
  simp only [execute, beginTransaction, h]

omit [DecidableEq S] in
theorem execute_opened_error {statement : LockTable S → Except (LockStop S) (LockTable S)} {stop : LockStop S}
    (h : statement t = .error stop) :
    (⟨d, .opened t⟩ : LockConnection S).execute statement = ⟨d, .aborted⟩ := by
  simp only [execute, beginTransaction, h]

/-- `lockTileInternal` gets every lock that can be got. -/
theorem lockTileInternal_ok (hu : Unique t) (h : Obtainable lockType rasServerId t tileId) :
    ∃ t', lockTileInternal rasServerId lockType ⟨d, .opened t⟩ tileId = .ok ⟨d, .opened t'⟩ ∧ Unique t' ∧
      Grown lockType rasServerId [tileId] t t' ∧ HasLock lockType rasServerId t' tileId := by
  obtain ⟨t', hok, hu', hgrown, hiff⟩ := lockTileStatement_spec hu tileId
  refine ⟨t', ?_, hu', hgrown, hiff.mpr h⟩
  rw [lockTileInternal, execute_opened_ok hok]
  exact if_pos (isTileLocked_iff.mpr (hiff.mpr h))

/-- It throws where a lock cannot be got. -/
theorem lockTileInternal_error (hu : Unique t) (h : ¬ Obtainable lockType rasServerId t tileId) :
    ∃ t', lockTileInternal rasServerId lockType ⟨d, .opened t⟩ tileId = .error ⟨d, .opened t'⟩ := by
  obtain ⟨t', hok, -, -, hiff⟩ := lockTileStatement_spec hu tileId
  refine ⟨t', ?_⟩
  rw [lockTileInternal, execute_opened_ok hok]
  exact if_neg (mt isTileLocked_iff.mp (mt hiff.mp h))

omit [DecidableEq S] in
/-- A lock that the server has got leaves the others as they can be got. -/
theorem obtainable_iff_of_grown {id : ℤ} (hgrown : Grown lockType rasServerId [tileId] t t')
    (h : Obtainable lockType rasServerId t tileId) (hlock : HasLock lockType rasServerId t' tileId) :
    Obtainable lockType rasServerId t' id ↔ Obtainable lockType rasServerId t id := by
  by_cases hid : id = tileId
  · subst hid
    exact iff_of_true (.inl hlock) h
  · exact hgrown.obtainable_iff (by simpa using hid)

theorem foldlM_lockTileInternal_ok (hu : Unique t) (h : ∀ id ∈ ids, Obtainable lockType rasServerId t id) :
    ∃ t', ids.foldlM (lockTileInternal rasServerId lockType) ⟨d, .opened t⟩ = .ok ⟨d, .opened t'⟩ ∧
      Unique t' ∧ Grown lockType rasServerId ids t t' ∧ ∀ id ∈ ids, HasLock lockType rasServerId t' id := by
  induction ids generalizing t with
  | nil => exact ⟨t, rfl, hu, .refl, List.forall_mem_nil _⟩
  | cons id ids ih =>
    rw [List.forall_mem_cons] at h
    obtain ⟨t₁, hone, hu₁, hgrown, hlock⟩ := lockTileInternal_ok (d := d) hu h.1
    obtain ⟨t', hrest, hu', hgrown', hlocks⟩ := ih hu₁ fun id' hid' =>
      (obtainable_iff_of_grown hgrown h.1 hlock).mpr (h.2 id' hid')
    refine ⟨t', ?_, hu', hgrown.trans hgrown', List.forall_mem_cons.mpr ⟨hgrown'.hasLock hlock, hlocks⟩⟩
    rw [List.foldlM_cons, hone]
    exact hrest

theorem foldlM_lockTileInternal_error (hu : Unique t)
    (h : ∃ id ∈ ids, ¬ Obtainable lockType rasServerId t id) :
    ∃ t', ids.foldlM (lockTileInternal rasServerId lockType) ⟨d, .opened t⟩ = .error ⟨d, .opened t'⟩ := by
  induction ids generalizing t with
  | nil =>
    obtain ⟨id, hid, -⟩ := h
    cases hid
  | cons id ids ih =>
    by_cases hid : Obtainable lockType rasServerId t id
    · obtain ⟨t₁, hone, hu₁, hgrown, hlock⟩ := lockTileInternal_ok (d := d) hu hid
      obtain ⟨id', hmem, hnot⟩ := h
      have hmem' : id' ∈ ids := (List.mem_cons.mp hmem).resolve_left fun heq => hnot (heq ▸ hid)
      obtain ⟨t', hrest⟩ := ih hu₁ ⟨id', hmem', mt (obtainable_iff_of_grown hgrown hid hlock).mp hnot⟩
      refine ⟨t', ?_⟩
      rw [List.foldlM_cons, hone]
      exact hrest
    · obtain ⟨t', herror⟩ := lockTileInternal_error (d := d) hu hid
      refine ⟨t', ?_⟩
      rw [List.foldlM_cons, herror]
      rfl

/-- A run that is locked tile by tile and has a tile that cannot be locked. -/
def Refuses (lockType : Lock) (rasServerId : S) (t : LockTable S) (block : LockManager.Block) : Prop :=
  block.ids.length ≤ 10 ∧ ∃ id ∈ block.ids, ¬ Obtainable lockType rasServerId t id

/-- A run that is locked by one statement, which fails. -/
def Aborts (lockType : Lock) (rasServerId : S) (t : LockTable S) (block : LockManager.Block) : Prop :=
  10 < block.ids.length ∧ Fails lockType rasServerId t block.ids

/-- A run all of whose locks are got if any are: it is locked tile by tile, or none of it is locked. -/
def IsTaken (lockType : Lock) (rasServerId : S) (t : LockTable S) (block : LockManager.Block) : Prop :=
  block.ids.length ≤ 10 ∨ ∀ id ∈ block.ids, ¬ HasLock lockType rasServerId t id

theorem lockBlock_ok (hb : IsRun block) (hu : Unique t) (hrefuses : ¬ Refuses lockType rasServerId t block)
    (haborts : ¬ Aborts lockType rasServerId t block) :
    ∃ t', lockBlock rasServerId lockType ⟨d, .opened t⟩ block = .ok ⟨d, .opened t'⟩ ∧ Unique t' ∧
      Grown lockType rasServerId block.ids t t' ∧
      (IsTaken lockType rasServerId t block → ∀ id ∈ block.ids, HasLock lockType rasServerId t' id) ∧
      (¬ IsTaken lockType rasServerId t block → t' = t) := by
  rw [lockBlock]
  by_cases hlen : block.ids.length ≤ 10
  · rw [if_neg (by omega)]
    have hall : ∀ id ∈ block.ids, Obtainable lockType rasServerId t id := fun id hid =>
      not_not.mp fun hnot => hrefuses ⟨hlen, id, hid, hnot⟩
    obtain ⟨t', hok, hu', hgrown, hlocks⟩ := foldlM_lockTileInternal_ok (d := d) hu hall
    exact ⟨t', hok, hu', hgrown, fun _ => hlocks, fun hnot => absurd (.inl hlen) hnot⟩
  · rw [if_pos (by omega)]
    by_cases hlock : ∃ id ∈ block.ids, HasLock lockType rasServerId t id
    · refine ⟨t, ?_, hu, .refl, fun htaken => ?_, fun _ => rfl⟩
      · rw [execute_opened_ok (lockTilesStatement_skips hb hlock)]
      · obtain ⟨id, hid, hhas⟩ := hlock
        exact absurd hhas (htaken.resolve_left hlen id hid)
    · have hfree : ∀ id ∈ block.ids, ¬ HasLock lockType rasServerId t id := fun id hid hhas =>
        hlock ⟨id, hid, hhas⟩
      obtain ⟨t', hok, hu', hgrown, hlocks⟩ := lockTilesStatement_locks hb hu hfree fun hfails =>
        haborts ⟨by omega, hfails⟩
      exact ⟨t', by rw [execute_opened_ok hok], hu', hgrown, fun _ => hlocks,
        fun hnot => absurd (.inr hfree) hnot⟩

theorem lockBlock_refuses (hu : Unique t) (h : Refuses lockType rasServerId t block) :
    ∃ t', lockBlock rasServerId lockType ⟨d, .opened t⟩ block = .error ⟨d, .opened t'⟩ := by
  rw [lockBlock, if_neg (by have := h.1; omega)]
  exact foldlM_lockTileInternal_error hu h.2

theorem lockBlock_aborts (hb : IsRun block) (h : Aborts lockType rasServerId t block) :
    lockBlock rasServerId lockType ⟨d, .opened t⟩ block = .ok ⟨d, .aborted⟩ := by
  obtain ⟨stop, hstop⟩ := lockTilesStatement_fails hb h.2
  rw [lockBlock, if_pos (by have := h.1; omega), execute_opened_error hstop]

variable {blocks : List LockManager.Block}

/-- After a statement has failed, a run that is locked tile by tile is refused. -/
theorem foldlM_lockBlock_aborted_error (hb : ∀ b ∈ blocks, IsRun b) (h : ∃ b ∈ blocks, b.ids.length ≤ 10) :
    blocks.foldlM (lockBlock rasServerId lockType) (⟨d, .aborted⟩ : LockConnection S) =
      .error ⟨d, .aborted⟩ := by
  induction blocks with
  | nil =>
    obtain ⟨b, hmem, -⟩ := h
    cases hmem
  | cons b blocks ih =>
    rw [List.forall_mem_cons] at hb
    rw [List.foldlM_cons, lockBlock]
    by_cases hlen : b.ids.length ≤ 10
    · obtain ⟨id, ids, hids⟩ := List.exists_cons_of_ne_nil
        (List.ne_nil_of_mem ((hb.1.mem_iff b.beginId).mpr ⟨le_rfl, hb.1.le⟩))
      rw [if_neg (by omega), hids]
      rfl
    · obtain ⟨c, hmem, hc⟩ := h
      have hmem : c ∈ blocks := (List.mem_cons.mp hmem).resolve_left fun heq => hlen (heq ▸ hc)
      rw [if_pos (by omega)]
      exact ih hb.2 ⟨c, hmem, hc⟩

theorem foldlM_lockBlock_aborted_ok (h : ∀ b ∈ blocks, 10 < b.ids.length) :
    blocks.foldlM (lockBlock rasServerId lockType) (⟨d, .aborted⟩ : LockConnection S) =
      .ok ⟨d, .aborted⟩ := by
  induction blocks with
  | nil => rfl
  | cons b blocks ih =>
    rw [List.forall_mem_cons] at h
    have := h.1
    rw [List.foldlM_cons, lockBlock, if_pos (by omega)]
    exact ih h.2

/-! ## The runs of an array -/

/-- Runs of tile ids, each behind the one before. -/
structure Runs (blocks : List LockManager.Block) : Prop where
  isRun : ∀ b ∈ blocks, IsRun b
  apart : blocks.Pairwise fun a b => a.endId < b.beginId

/-- A lock cannot be got, or its statement comes after one that fails. -/
def Refused (lockType : Lock) (rasServerId : S) (t : LockTable S) (blocks : List LockManager.Block) : Prop :=
  ∃ before b after, blocks = before ++ b :: after ∧
    (Refuses lockType rasServerId t b ∨
      b.ids.length ≤ 10 ∧ ∃ a ∈ before, Aborts lockType rasServerId t a)

omit [DecidableEq S] in
theorem refused_cons {b : LockManager.Block} : Refused lockType rasServerId t (b :: blocks) ↔
    Refuses lockType rasServerId t b ∨
      (Aborts lockType rasServerId t b ∧ ∃ c ∈ blocks, c.ids.length ≤ 10) ∨
        Refused lockType rasServerId t blocks := by
  constructor
  · rintro ⟨_ | ⟨a, before⟩, c, after, heq, h⟩
    · obtain ⟨rfl, rfl⟩ := List.cons.inj heq
      exact .inl (h.resolve_right fun ⟨_, a, ha, _⟩ => absurd ha List.not_mem_nil)
    · obtain ⟨rfl, rfl⟩ := List.cons.inj heq
      rcases h with h | ⟨hlen, a, ha, haborts⟩
      · exact .inr (.inr ⟨before, c, after, rfl, .inl h⟩)
      · rcases List.mem_cons.mp ha with rfl | ha
        · exact .inr (.inl ⟨haborts, c, List.mem_append_right _ List.mem_cons_self, hlen⟩)
        · exact .inr (.inr ⟨before, c, after, rfl, .inr ⟨hlen, a, ha, haborts⟩⟩)
  · rintro (h | ⟨haborts, c, hc, hlen⟩ | ⟨before, c, after, rfl, h⟩)
    · exact ⟨[], b, blocks, rfl, .inl h⟩
    · obtain ⟨before, after, rfl⟩ := List.append_of_mem hc
      exact ⟨b :: before, c, after, rfl, .inr ⟨hlen, b, List.mem_cons_self, haborts⟩⟩
    · refine ⟨b :: before, c, after, rfl, h.imp id fun ⟨hlen, a, ha, haborts⟩ => ?_⟩
      exact ⟨hlen, a, List.mem_cons_of_mem _ ha, haborts⟩

/-- What the table says about a run. -/
structure SameFor (lockType : Lock) (rasServerId : S) (t t' : LockTable S) (b : LockManager.Block) : Prop where
  refuses : Refuses lockType rasServerId t' b ↔ Refuses lockType rasServerId t b
  aborts : Aborts lockType rasServerId t' b ↔ Aborts lockType rasServerId t b
  isTaken : IsTaken lockType rasServerId t' b ↔ IsTaken lockType rasServerId t b

omit [DecidableEq S] in
/-- Locks of other tiles change nothing for a run. -/
theorem Grown.sameFor (h : Grown lockType rasServerId ids t t') {b : LockManager.Block}
    (hdisjoint : ∀ id ∈ b.ids, id ∉ ids) : SameFor lockType rasServerId t t' b := by
  have hlock : ∀ id ∈ b.ids, (HasLock lockType rasServerId t' id ↔ HasLock lockType rasServerId t id) :=
    fun id hid => h.hasLock_iff (hdisjoint id hid)
  refine ⟨and_congr_right fun _ => ?_, and_congr_right fun _ => and_congr_right fun _ => and_congr ?_ ?_,
    or_congr_right ?_⟩
  · refine exists_congr fun id => and_congr_right fun hid => not_congr ?_
    exact h.obtainable_iff (hdisjoint id hid)
  · exact forall₂_congr fun id hid => not_congr (hlock id hid)
  · refine exists_congr fun r => ⟨?_, ?_⟩ <;> rintro ⟨hr, hid, hx⟩
    · exact ⟨(h.mem_iff (hdisjoint _ hid)).mp hr, hid, hx⟩
    · exact ⟨(h.mem_iff (hdisjoint _ hid)).mpr hr, hid, hx⟩
  · exact forall₂_congr fun id hid => not_congr (hlock id hid)

omit [DecidableEq S] in
theorem refused_congr (h : ∀ b ∈ blocks, SameFor lockType rasServerId t t' b) :
    Refused lockType rasServerId t' blocks ↔ Refused lockType rasServerId t blocks := by
  induction blocks with
  | nil =>
    refine iff_of_false ?_ ?_ <;>
      exact fun ⟨before, b, after, heq, _⟩ => absurd heq (List.append_ne_nil_of_right_ne_nil _
        (List.cons_ne_nil b after)).symm
  | cons b blocks ih =>
    rw [List.forall_mem_cons] at h
    rw [refused_cons, refused_cons, h.1.refuses, h.1.aborts, ih h.2]

theorem Runs.cons {b : LockManager.Block} (h : Runs (b :: blocks)) : IsRun b ∧ Runs blocks ∧
    ∀ c ∈ blocks, ∀ id ∈ c.ids, id ∉ b.ids := by
  obtain ⟨hrun, hruns⟩ := List.forall_mem_cons.mp h.isRun
  obtain ⟨hapart, haparts⟩ := List.pairwise_cons.mp h.apart
  refine ⟨hrun, ⟨hruns, haparts⟩, fun c hc id hid hmem => ?_⟩
  have := hapart c hc
  have := ((hruns c hc).mem_iff id).mp hid
  have := (hrun.mem_iff id).mp hmem
  omega

/-- **The loop throws where a lock is refused**, and leaves its transaction open. -/
theorem foldlM_lockBlock_error (hruns : Runs blocks) (hu : Unique t)
    (h : Refused lockType rasServerId t blocks) :
    ∃ c, blocks.foldlM (lockBlock rasServerId lockType) ⟨d, .opened t⟩ = .error c ∧
      c.committed = d ∧ c.transaction ≠ .none := by
  induction blocks generalizing t with
  | nil =>
    obtain ⟨before, b, after, heq, -⟩ := h
    exact absurd heq (List.append_ne_nil_of_right_ne_nil _ (List.cons_ne_nil b after)).symm
  | cons b blocks ih =>
    obtain ⟨hb, hrest, hdisjoint⟩ := hruns.cons
    rw [List.foldlM_cons]
    by_cases hrefuses : Refuses lockType rasServerId t b
    · obtain ⟨t', herror⟩ := lockBlock_refuses (d := d) hu hrefuses
      exact ⟨_, by rw [herror]; rfl, rfl, by simp⟩
    · have h := (refused_cons.mp h).resolve_left hrefuses
      by_cases haborts : Aborts lockType rasServerId t b
      · rw [lockBlock_aborts hb haborts]
        have hshort : ∃ c ∈ blocks, c.ids.length ≤ 10 := by
          rcases h with ⟨-, h⟩ | ⟨before, c, after, rfl, hc⟩
          · exact h
          · exact ⟨c, List.mem_append_right _ List.mem_cons_self, hc.elim (·.1) (·.1)⟩
        exact ⟨_, foldlM_lockBlock_aborted_error hrest.isRun hshort, rfl, by simp⟩
      · obtain ⟨t', hok, hu', hgrown, -⟩ := lockBlock_ok (d := d) hb hu hrefuses haborts
        rw [hok]
        refine ih hrest hu' ((refused_congr fun c hc => hgrown.sameFor (hdisjoint c hc)).mpr ?_)
        exact h.resolve_left fun h => haborts h.1

/-- **The loop returns where no lock is refused**, though its transaction may have failed. -/
theorem foldlM_lockBlock_aborts (hruns : Runs blocks) (hu : Unique t)
    (h : ¬ Refused lockType rasServerId t blocks) (haborts : ∃ b ∈ blocks, Aborts lockType rasServerId t b) :
    blocks.foldlM (lockBlock rasServerId lockType) ⟨d, .opened t⟩ = .ok ⟨d, .aborted⟩ := by
  induction blocks generalizing t with
  | nil =>
    obtain ⟨b, hb, -⟩ := haborts
    cases hb
  | cons b blocks ih =>
    obtain ⟨hb, hrest, hdisjoint⟩ := hruns.cons
    rw [refused_cons, not_or, not_or] at h
    rw [List.foldlM_cons]
    by_cases hhere : Aborts lockType rasServerId t b
    · rw [lockBlock_aborts hb hhere]
      refine foldlM_lockBlock_aborted_ok fun c hc => ?_
      by_contra hlen
      exact h.2.1 ⟨hhere, c, hc, by omega⟩
    · obtain ⟨t', hok, hu', hgrown, -⟩ := lockBlock_ok (d := d) hb hu h.1 hhere
      have hsame := fun c hc => hgrown.sameFor (hdisjoint c hc)
      obtain ⟨c, hc, hthere⟩ := haborts
      have hc : c ∈ blocks := (List.mem_cons.mp hc).resolve_left fun heq => hhere (heq ▸ hthere)
      rw [hok]
      exact ih hrest hu' (mt (refused_congr hsame).mp h.2.2) ⟨c, hc, (hsame c hc).aborts.mpr hthere⟩

/-- **The loop locks** the runs that are taken. -/
theorem foldlM_lockBlock_ok (hruns : Runs blocks) (hu : Unique t)
    (h : ¬ Refused lockType rasServerId t blocks) (haborts : ∀ b ∈ blocks, ¬ Aborts lockType rasServerId t b) :
    ∃ t', blocks.foldlM (lockBlock rasServerId lockType) ⟨d, .opened t⟩ = .ok ⟨d, .opened t'⟩ ∧ Unique t' ∧
      Grown lockType rasServerId (blocks.flatMap LockManager.Block.ids) t t' ∧
      (∀ b ∈ blocks, IsTaken lockType rasServerId t b → ∀ id ∈ b.ids, HasLock lockType rasServerId t' id) ∧
      ∀ b ∈ blocks, ¬ IsTaken lockType rasServerId t b → ∀ id ∈ b.ids,
        HasLock lockType rasServerId t' id → HasLock lockType rasServerId t id := by
  induction blocks generalizing t with
  | nil => exact ⟨t, rfl, hu, .refl, List.forall_mem_nil _, List.forall_mem_nil _⟩
  | cons b blocks ih =>
    obtain ⟨hb, hrest, hdisjoint⟩ := hruns.cons
    rw [refused_cons, not_or, not_or] at h
    rw [List.forall_mem_cons] at haborts
    obtain ⟨t₁, hone, hu₁, hgrown, hlocks, hskipped⟩ := lockBlock_ok (d := d) hb hu h.1 haborts.1
    have hsame := fun c hc => hgrown.sameFor (hdisjoint c hc)
    obtain ⟨t', hok, hu', hgrown', hlocks', hskipped'⟩ := ih hrest hu₁ (mt (refused_congr hsame).mp h.2.2)
      fun c hc => mt (hsame c hc).aborts.mp (haborts.2 c hc)
    have hother : ∀ id ∈ b.ids, id ∉ blocks.flatMap LockManager.Block.ids := by
      intro id hid hmem
      obtain ⟨c, hc, hid'⟩ := List.mem_flatMap.mp hmem
      exact hdisjoint c hc id hid' hid
    refine ⟨t', ?_, hu', ?_, List.forall_mem_cons.mpr ⟨fun htaken id hid => ?_, fun c hc htaken => ?_⟩,
      List.forall_mem_cons.mpr ⟨fun hnot id hid hlock => ?_, fun c hc hnot id hid hlock => ?_⟩⟩
    · rw [List.foldlM_cons, hone]
      exact hok
    · rw [List.flatMap_cons]
      exact hgrown.trans hgrown'
    · exact hgrown'.hasLock (hlocks htaken id hid)
    · exact hlocks' c hc ((hsame c hc).isTaken.mpr htaken)
    · rw [← hskipped hnot]
      exact (hgrown'.hasLock_iff (hother id hid)).mp hlock
    · exact (hgrown.hasLock_iff (hdisjoint c hc id hid)).mp
        (hskipped' c hc (mt (hsame c hc).isTaken.mp hnot) id hid hlock)

/-! ## How an array is cut into runs -/

/-- The last run of an array if it is one id, which the loop leaves out. -/
def leftOut (block : LockManager.Block) : List ℤ → List ℤ
  | [] => if block.ids.length > 1 then [] else block.ids
  | x :: xs =>
    if x - block.endId > 1 then leftOut ⟨[x], x, x⟩ xs
    else leftOut ⟨block.ids ++ [x], block.beginId, x⟩ xs

/-- The runs of an array that are locked; one id by itself is. -/
def lockedRuns : List ℤ → List LockManager.Block
  | [x] => [⟨[x], x, x⟩]
  | tileIds => LockManager.sortedBlocks tileIds

/-- What the loop over an array leaves out. -/
def leftOutSorted (tileIds : List ℤ) : List ℤ :=
  match tileIds.insertionSort (· ≤ ·) with
  | [] => []
  | x :: xs => leftOut ⟨[x], x, x⟩ xs

/-- The ids of an array that are not looked at. -/
def leftOutOf : List ℤ → List ℤ
  | [_] => []
  | tileIds => leftOutSorted tileIds

theorem isRun_singleton (x : ℤ) : IsRun ⟨[x], x, x⟩ :=
  ⟨le_rfl, fun id => List.mem_singleton.trans (show id = x ↔ x ≤ id ∧ id ≤ x by omega)⟩

/-- What the runs of an array are. -/
structure Cuts (tileIds : List ℤ) (blocks : List LockManager.Block) (left : List ℤ) : Prop where
  runs : Runs blocks
  mem_iff : ∀ id, id ∈ tileIds ↔ (∃ b ∈ blocks, id ∈ b.ids) ∨ id ∈ left
  behind : ∀ b ∈ blocks, ∀ id ∈ left, b.endId < id

theorem cuts_blocks {xs : List ℤ} (hrun : IsRun block) (hsorted : (block.endId :: xs).Pairwise (· ≤ ·)) :
    Cuts (block.ids ++ xs) (LockManager.blocks block xs) (leftOut block xs) ∧
      (∀ b ∈ LockManager.blocks block xs, block.beginId ≤ b.beginId) ∧
      ∀ id ∈ leftOut block xs, block.beginId ≤ id := by
  induction xs generalizing block with
  | nil =>
    rw [LockManager.blocks, leftOut]
    split
    · refine ⟨⟨⟨?_, List.pairwise_singleton _ _⟩, ?_, ?_⟩, ?_, ?_⟩
      · exact List.forall_mem_singleton.mpr hrun
      · simp
      · exact fun _ _ _ hid => absurd hid List.not_mem_nil
      · exact List.forall_mem_singleton.mpr le_rfl
      · exact List.forall_mem_nil _
    · refine ⟨⟨⟨List.forall_mem_nil _, .nil⟩, ?_, List.forall_mem_nil _⟩, List.forall_mem_nil _, ?_⟩
      · simp
      · exact fun id hid => ((hrun.mem_iff id).mp hid).1
  | cons x xs ih =>
    obtain ⟨hle, hsorted⟩ := List.pairwise_cons.mp hsorted
    have hx := hle x List.mem_cons_self
    have hbegin := hrun.le
    rw [LockManager.blocks, leftOut]
    split
    · obtain ⟨⟨⟨hisRun, hapart⟩, hmem, hbehind⟩, hfrom, hleft⟩ := ih (isRun_singleton x) hsorted
      dsimp only at hfrom hleft hmem
      refine ⟨⟨⟨List.forall_mem_cons.mpr ⟨hrun, hisRun⟩, List.pairwise_cons.mpr ⟨fun b hb => ?_, hapart⟩⟩,
        fun id => ?_, List.forall_mem_cons.mpr ⟨fun id hid => ?_, hbehind⟩⟩,
        List.forall_mem_cons.mpr ⟨le_rfl, fun b hb => ?_⟩, fun id hid => ?_⟩
      · have := hfrom b hb
        omega
      · rw [List.mem_append, ← List.singleton_append, hmem id, List.exists_mem_cons_iff, or_assoc]
      · have := hleft id hid
        omega
      · have := hfrom b hb
        omega
      · have := hleft id hid
        omega
    · have hrun' : IsRun ⟨block.ids ++ [x], block.beginId, x⟩ := by
        refine ⟨hbegin.trans hx, fun id => ?_⟩
        rw [List.mem_append, hrun.mem_iff, List.mem_singleton]
        dsimp only
        omega
      obtain ⟨⟨hruns, hmem, hbehind⟩, hfrom, hleft⟩ := ih hrun' hsorted
      refine ⟨⟨hruns, fun id => ?_, hbehind⟩, hfrom, hleft⟩
      rw [← hmem id, List.append_assoc, List.singleton_append]

theorem cuts_sortedBlocks (tileIds : List ℤ) :
    Cuts tileIds (LockManager.sortedBlocks tileIds) (leftOutSorted tileIds) := by
  have hperm := List.perm_insertionSort (· ≤ ·) tileIds
  have hsorted := List.pairwise_insertionSort (· ≤ ·) tileIds
  rw [LockManager.sortedBlocks, leftOutSorted]
  cases hs : tileIds.insertionSort (· ≤ ·) with
  | nil =>
    rw [hs] at hperm
    obtain rfl := List.nil_perm.mp hperm
    exact ⟨⟨List.forall_mem_nil _, .nil⟩, by simp, List.forall_mem_nil _⟩
  | cons x xs =>
    rw [hs] at hperm hsorted
    obtain ⟨⟨hruns, hmem, hbehind⟩, -, -⟩ := cuts_blocks (isRun_singleton x) hsorted
    exact ⟨hruns, fun id => hperm.mem_iff.symm.trans (hmem id), hbehind⟩

/-- **An array is cut into runs**, but for the last one if it is one id behind others. -/
theorem cuts_lockedRuns (tileIds : List ℤ) : Cuts tileIds (lockedRuns tileIds) (leftOutOf tileIds) := by
  rcases tileIds with _ | ⟨x, _ | ⟨y, tileIds⟩⟩
  · exact cuts_sortedBlocks []
  · refine ⟨⟨List.forall_mem_singleton.mpr (isRun_singleton x), List.pairwise_singleton _ _⟩, fun id => ?_,
      fun _ _ _ hid => absurd hid List.not_mem_nil⟩
    simp [lockedRuns, leftOutOf]
  · exact cuts_sortedBlocks (x :: y :: tileIds)

/-- `lockTilesInternal` goes through the runs. -/
theorem lockTilesInternal_eq (c : LockConnection S) (tileIds : List ℤ) :
    lockTilesInternal rasServerId lockType c tileIds =
      (lockedRuns tileIds).foldlM (lockBlock rasServerId lockType) c := by
  rcases tileIds with _ | ⟨x, _ | ⟨y, tileIds⟩⟩
  · rfl
  · have hblock : lockBlock rasServerId lockType c ⟨[x], x, x⟩ = lockTileInternal rasServerId lockType c x :=
      bind_pure _
    exact (hblock.symm.trans (bind_pure _).symm : _)
  · rfl

/-! ## What a call locks -/

/-- A call of `lockTiles` that returns has locked its tiles, and no others. -/
def LocksWhatItIsGiven (rasServerId : S) (lockType : Lock) (t : LockTable S) (tileIds : List ℤ) : Prop :=
  ∀ c, call rasServerId lockType ⟨t, .none⟩ (.lockTiles tileIds) = .ok c →
    (∀ id ∈ tileIds, HasLock lockType rasServerId c.committed id) ∧
      ∀ r ∈ c.committed, r ∈ t ∨ r.tileId ∈ tileIds

/-- A run that comes out locked: it is short, or the server has all its locks, or it has none of them and the
statement for them does not fail. -/
def ComesOutLocked (lockType : Lock) (rasServerId : S) (t : LockTable S) (block : LockManager.Block) : Prop :=
  block.ids.length ≤ 10 ∨ (∀ id ∈ block.ids, HasLock lockType rasServerId t id) ∨
    (∀ id ∈ block.ids, ¬ HasLock lockType rasServerId t id) ∧ ¬ Fails lockType rasServerId t block.ids

/-- `lockTiles` outside of a transaction. -/
theorem call_lockTiles_eq (tileIds : List ℤ) :
    call rasServerId lockType ⟨t, .none⟩ (.lockTiles tileIds) =
      (lockedRuns tileIds).foldlM (lockBlock rasServerId lockType) ⟨t, .opened t⟩ >>=
        fun c => .ok c.endTransaction := by
  rw [call]
  split
  · rw [lockTilesInternal_eq]
    rfl
  next h =>
    obtain rfl := List.length_eq_zero_iff.mp (Nat.eq_zero_of_not_pos h)
    rfl

/-- A call that is refused throws, and leaves its transaction open. -/
theorem call_lockTiles_error (hu : Unique t) {tileIds : List ℤ}
    (h : Refused lockType rasServerId t (lockedRuns tileIds)) :
    ∃ c, call rasServerId lockType ⟨t, .none⟩ (.lockTiles tileIds) = .error c ∧ c.transaction ≠ .none := by
  obtain ⟨c, herror, -, hopen⟩ := foldlM_lockBlock_error (d := t) (cuts_lockedRuns tileIds).runs hu h
  exact ⟨c, by rw [call_lockTiles_eq, herror]; rfl, hopen⟩

/-- A call in whose transaction a statement failed returns, and has done nothing. -/
theorem call_lockTiles_aborts (hu : Unique t) {tileIds : List ℤ}
    (h : ¬ Refused lockType rasServerId t (lockedRuns tileIds))
    (haborts : ∃ b ∈ lockedRuns tileIds, Aborts lockType rasServerId t b) :
    call rasServerId lockType ⟨t, .none⟩ (.lockTiles tileIds) = .ok ⟨t, .none⟩ := by
  rw [call_lockTiles_eq, foldlM_lockBlock_aborts (cuts_lockedRuns tileIds).runs hu h haborts]
  rfl

theorem IsRun.beginId_mem (h : IsRun block) : block.beginId ∈ block.ids := (h.mem_iff _).mpr ⟨le_rfl, h.le⟩

/-- **`lockTiles` locks what it is given** exactly where a lock is refused, or every run comes out locked
and the server has the lock of the id that is left out. -/
theorem locksWhatItIsGiven_iff (rasServerId : S) (lockType : Lock) {t : LockTable S} (hu : Unique t)
    (tileIds : List ℤ) :
    LocksWhatItIsGiven rasServerId lockType t tileIds ↔
      Refused lockType rasServerId t (lockedRuns tileIds) ∨
        (∀ id ∈ leftOutOf tileIds, HasLock lockType rasServerId t id) ∧
          ∀ block ∈ lockedRuns tileIds, ComesOutLocked lockType rasServerId t block := by
  have hcuts := cuts_lockedRuns tileIds
  by_cases hrefused : Refused lockType rasServerId t (lockedRuns tileIds)
  · obtain ⟨c, herror, -⟩ := call_lockTiles_error hu hrefused
    refine iff_of_true (fun c' hok => ?_) (.inl hrefused)
    rw [herror] at hok
    cases hok
  refine Iff.trans ?_ (or_iff_right hrefused).symm
  by_cases haborts : ∃ b ∈ lockedRuns tileIds, Aborts lockType rasServerId t b
  · obtain ⟨b, hb, hlen, hfails⟩ := haborts
    have hmem := (hcuts.runs.isRun b hb).beginId_mem
    refine iff_of_false (fun h => ?_) fun h => ?_
    · have hlocked := h _ (call_lockTiles_aborts hu hrefused ⟨b, hb, hlen, hfails⟩)
      exact hfails.2.1 _ hmem (hlocked.1 _ ((hcuts.mem_iff _).mpr (.inl ⟨b, hb, hmem⟩)))
    · rcases h.2 b hb with hshort | hall | ⟨-, hnot⟩
      · omega
      · exact hfails.2.1 _ hmem (hall _ hmem)
      · exact hnot hfails
  have haborts : ∀ b ∈ lockedRuns tileIds, ¬ Aborts lockType rasServerId t b := fun b hb hab =>
    haborts ⟨b, hb, hab⟩
  obtain ⟨t', hok, -, hgrown, hlocks, hskipped⟩ := foldlM_lockBlock_ok (d := t) hcuts.runs hu hrefused haborts
  have hcall : call rasServerId lockType ⟨t, .none⟩ (.lockTiles tileIds) = .ok ⟨t', .none⟩ := by
    rw [call_lockTiles_eq, hok]
    rfl
  have hnew : ∀ r ∈ t', r ∈ t ∨ r.tileId ∈ tileIds := by
    refine fun r hr => (hgrown.new r hr).imp id ?_
    rintro ⟨id, hid, rfl⟩
    rw [rowOf_tileId]
    exact (hcuts.mem_iff id).mpr (.inl (List.mem_flatMap.mp hid))
  have hleft : ∀ id ∈ leftOutOf tileIds,
      (HasLock lockType rasServerId t' id ↔ HasLock lockType rasServerId t id) := by
    refine fun id hid => hgrown.hasLock_iff fun hmem => ?_
    obtain ⟨b, hb, hid'⟩ := List.mem_flatMap.mp hmem
    have := hcuts.behind b hb id hid
    have := ((hcuts.runs.isRun b hb).mem_iff id).mp hid'
    omega
  constructor
  · intro h
    obtain ⟨hall, -⟩ := h _ hcall
    refine ⟨fun id hid => (hleft id hid).mp (hall id ((hcuts.mem_iff id).mpr (.inr hid))), fun b hb => ?_⟩
    by_cases htaken : IsTaken lockType rasServerId t b
    · by_cases hlen : b.ids.length ≤ 10
      · exact .inl hlen
      · exact .inr (.inr ⟨htaken.resolve_left hlen, fun hfails => haborts b hb ⟨by omega, hfails⟩⟩)
    · refine .inr (.inl fun id hid => hskipped b hb htaken id hid ?_)
      exact hall id ((hcuts.mem_iff id).mpr (.inl ⟨b, hb, hid⟩))
  · rintro ⟨hlast, hout⟩ c hc
    obtain rfl := Except.ok.inj (hcall.symm.trans hc)
    refine ⟨fun id hid => ?_, hnew⟩
    rcases (hcuts.mem_iff id).mp hid with ⟨b, hb, hid⟩ | hid
    · rcases hout b hb with hshort | hall | ⟨hfree, -⟩
      · exact hlocks b hb (.inl hshort) id hid
      · exact hgrown.hasLock (hall id hid)
      · exact hlocks b hb (.inr hfree) id hid
    · exact (hleft id hid).mpr (hlast id hid)

/-- Two adjacent tiles that are free. -/
theorem locksWhatItIsGiven_adjacent : LocksWhatItIsGiven 1 .shared ([] : LockTable ℕ) [2, 1] := by
  refine (locksWhatItIsGiven_iff 1 .shared .nil [2, 1]).mpr (.inr ⟨?_, fun block hblock => .inl ?_⟩)
  · exact fun id hid => absurd hid List.not_mem_nil
  · obtain rfl : block = ⟨[1, 2], 1, 2⟩ := List.mem_singleton.mp hblock
    decide

/-- Of two tiles with a gap between them the second one is not locked. -/
theorem not_locksWhatItIsGiven_gap : ¬ LocksWhatItIsGiven 1 .shared ([] : LockTable ℕ) [1, 3] := by
  intro h
  obtain ⟨hlocks, -⟩ := h ⟨[sharedRow 1 1], .none⟩ (by decide)
  obtain ⟨r, hr, hid, -⟩ := hlocks 3 (by decide)
  obtain rfl := List.mem_singleton.mp hr
  exact absurd hid (by decide)

/-! ## What a refused call leaves -/

/-- The locks of the server in the transaction of the connection, or outside of one. -/
def ownLocks (rasServerId : S) (c : LockConnection S) : LockTable S :=
  c.endTransaction.committed.filter (·.rasServerId = rasServerId)

/-- A call that throws leaves the locks of the server as they were and no transaction open, and the calls
after it do what they do without it. -/
def LeavesNothing (rasServerId : S) (lockType : Lock) (t : LockTable S) (l : Call) : Prop :=
  ∀ c, call rasServerId lockType ⟨t, .none⟩ l = .error c →
    c.ownLocks rasServerId = (⟨t, .none⟩ : LockConnection S).ownLocks rasServerId ∧
      c.transaction = .none ∧ ∀ ls, calls rasServerId c ls = calls rasServerId ⟨t, .none⟩ ls

/-- The locks of a call can be got. -/
def Granted (rasServerId : S) (lockType : Lock) (t : LockTable S) : Call → Prop
  | .lockTile oid => oid > 0 → Obtainable lockType rasServerId t oid
  | .lockTiles tileIds => ¬ Refused lockType rasServerId t (lockedRuns tileIds)
  | .unlockTile _ => True
  | .unlockAllTiles => True

/-- A call whose locks can be got returns. -/
theorem call_of_granted (hu : Unique t) {l : Call} (h : Granted rasServerId lockType t l) :
    ∃ c, call rasServerId lockType ⟨t, .none⟩ l = .ok c := by
  cases l with
  | lockTile oid =>
    by_cases hoid : oid > 0
    · obtain ⟨t', hok, -⟩ := lockTileInternal_ok (d := t) hu (h hoid)
      exact ⟨⟨t', .none⟩, by rw [call, if_pos hoid, beginTransaction, hok]; rfl⟩
    · exact ⟨_, by rw [call, if_neg hoid]⟩
  | lockTiles tileIds =>
    by_cases haborts : ∃ b ∈ lockedRuns tileIds, Aborts lockType rasServerId t b
    · exact ⟨_, call_lockTiles_aborts hu h haborts⟩
    · obtain ⟨t', hok, -⟩ := foldlM_lockBlock_ok (d := t) (cuts_lockedRuns tileIds).runs hu h
        fun b hb hab => haborts ⟨b, hb, hab⟩
      exact ⟨⟨t', .none⟩, by rw [call_lockTiles_eq, hok]; rfl⟩
  | unlockTile oid => exact ⟨_, rfl⟩
  | unlockAllTiles => exact ⟨_, rfl⟩

/-- A call whose locks cannot be got throws, and leaves its transaction open. -/
theorem call_of_not_granted (hu : Unique t) {l : Call} (h : ¬ Granted rasServerId lockType t l) :
    ∃ c, call rasServerId lockType ⟨t, .none⟩ l = .error c ∧ c.transaction ≠ .none := by
  cases l with
  | lockTile oid =>
    obtain ⟨hoid, hnot⟩ := Classical.not_imp.mp h
    obtain ⟨t', herror⟩ := lockTileInternal_error (d := t) hu hnot
    exact ⟨⟨t, .opened t'⟩, by rw [call, if_pos hoid, beginTransaction, herror]; rfl, by simp⟩
  | lockTiles tileIds => exact call_lockTiles_error hu (not_not.mp h)
  | unlockTile oid => exact absurd trivial h
  | unlockAllTiles => exact absurd trivial h

/-- **A call leaves nothing behind** exactly where its locks can be got. -/
theorem leavesNothing_iff (rasServerId : S) (lockType : Lock) {t : LockTable S} (hu : Unique t) (l : Call) :
    LeavesNothing rasServerId lockType t l ↔ Granted rasServerId lockType t l := by
  constructor
  · intro h
    by_contra hnot
    obtain ⟨c, herror, hopen⟩ := call_of_not_granted hu hnot
    exact hopen (h c herror).2.1
  · intro h c herror
    obtain ⟨c', hok⟩ := call_of_granted hu h
    rw [hok] at herror
    cases herror

/-- A tile that another server reads. -/
theorem leavesNothing_shared : LeavesNothing 1 .shared [sharedRow 2 5] (.lockTile 5) :=
  (leavesNothing_iff 1 .shared (List.pairwise_singleton _ _) _).mpr fun _ => .inr fun r hr _ hopposes => by
    obtain rfl := List.mem_singleton.mp hr
    cases hopposes

/-- Of two tiles another server writes the second one: the lock of the first is committed when the server
unlocks something else. -/
theorem not_leavesNothing_exclusive : ¬ LeavesNothing 1 .shared [exclusiveRow 2 2] (.lockTiles [1, 2]) := by
  intro h
  obtain ⟨-, -, hlater⟩ := h ⟨[exclusiveRow 2 2], .opened [exclusiveRow 2 2, sharedRow 1 1]⟩ (by decide)
  exact absurd (hlater [(.shared, .unlockTile 5)]) (by decide)

end LockConnection

end Rasdaman
