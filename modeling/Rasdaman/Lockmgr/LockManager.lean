import Mathlib.Data.List.Sort
import Rasdaman.Lockmgr.EcpgLockManager
import Rasdaman.Machinery.Machine

/-!
# Lockmgr/LockManager — runs of the lock managers of several servers

`lockTiles` sorts the tile ids and cuts them where an id is missing.  A block of more than ten ids is locked
by one statement, a shorter one tile by tile; a last block of one id is not locked at all.

**The locks of different servers are compatible** (`run_compatible`) in a run in which no block is locked by
one statement against a lock of another server: that statement tests for the locks of its own server only.
-/

namespace Rasdaman

namespace LockManager

open EcpgLockManager ExceptFold Machine

variable {S : Type} [DecidableEq S]

/-- `lockTileInternal`. -/
def lockTileInternal (rasServerId : S) (lockType : Lock) (t : LockTable S) (tileId : ℤ) :
    Except (LockStop S) (LockTable S) :=
  match lockType with
  | .exclusive => do
    let t ← lockTileExclusive rasServerId tileId t
    if isTileLockedExclusive rasServerId tileId t then return t else .error (.throws t)
  | .shared => do
    let t ← lockTileShared rasServerId tileId t
    if isTileLockedShared rasServerId tileId t then return t else .error (.throws t)

/-- A block from `beginIndex` to `endIndex`, with the id at either end. -/
structure Block where
  ids : List ℤ
  beginId : ℤ
  endId : ℤ

/-- The blocks that the loop of `lockTilesInternal` goes through; a last block of one id is left out. -/
def blocks (block : Block) : List ℤ → List Block
  | [] => if block.ids.length > 1 then [block] else []
  | x :: xs =>
    if x - block.endId > 1 then block :: blocks ⟨[x], x, x⟩ xs
    else blocks ⟨block.ids ++ [x], block.beginId, x⟩ xs

/-- The blocks of an array of tile ids. -/
def sortedBlocks (tileIds : List ℤ) : List Block :=
  match tileIds.insertionSort (· ≤ ·) with
  | [] => []
  | x :: xs => blocks ⟨[x], x, x⟩ xs

/-- The body of the loop over the blocks. -/
def lockBlock (rasServerId : S) (lockType : Lock) (t : LockTable S) (block : Block) :
    Except (LockStop S) (LockTable S) :=
  if block.ids.length - 1 ≥ 10 then
    match lockType with
    | .shared => lockTilesShared rasServerId block.beginId block.endId t
    | .exclusive => lockTilesExclusive rasServerId block.beginId block.endId t
  else block.ids.foldlM (lockTileInternal rasServerId lockType) t

/-- `lockTilesInternal`. -/
def lockTilesInternal (rasServerId : S) (lockType : Lock) (t : LockTable S) (tileIds : List ℤ) :
    Except (LockStop S) (LockTable S) :=
  match tileIds with
  | [] => .ok t
  | [tileId] => lockTileInternal rasServerId lockType t tileId
  | _ => (sortedBlocks tileIds).foldlM (lockBlock rasServerId lockType) t

/-- The calls of a lock manager; a tile that is not stored has the id 0. -/
inductive Call
  | lockTile (oid : ℤ)
  | lockTiles (tileIds : List ℤ)
  | unlockTile (oid : ℤ)
  | unlockAllTiles
  | clearLockTable

/-- A call in a transaction with locks of a type. -/
def execute (rasServerId : S) (lockType : Lock) (t : LockTable S) :
    Call → Except (LockStop S) (LockTable S)
  | .lockTile oid => if oid > 0 then lockTileInternal rasServerId lockType t oid else .ok t
  | .lockTiles tileIds => lockTilesInternal rasServerId lockType t tileIds
  | .unlockTile oid => .ok (if oid > 0 then EcpgLockManager.unlockTile rasServerId oid t else t)
  | .unlockAllTiles => .ok (EcpgLockManager.unlockAllTiles rasServerId t)
  | .clearLockTable => .ok (EcpgLockManager.clearLockTable rasServerId t)

/-- A step of a run.  The rows that a call inserted before it threw are in its open transaction; the
step commits them at once or drops them, as `committed` says. -/
structure Label (S : Type) where
  rasServerId : S
  lockType : Lock
  call : Call
  committed : Bool

/-- The lock table after a call. -/
def step (t : LockTable S) (l : Label S) : LockTable S :=
  match execute l.rasServerId l.lockType t l.call with
  | .ok t' => t'
  | .error (.throws t') => if l.committed then t' else t
  | .error .statementFailed => t

/-- No block of more than ten ids is locked against a lock of another server. -/
def Unopposed (t : LockTable S) (l : Label S) : Prop :=
  ∀ tileIds, l.call = .lockTiles tileIds → ∀ block ∈ sortedBlocks tileIds, block.ids.length > 10 →
    ¬ Clashes l.lockType l.rasServerId block.beginId block.endId t

/-! ## One call -/

variable {t t₀ : LockTable S} {rasServerId : S} {lockType : Lock}

/-- What holds of the table in the transaction of a call. -/
def Good (rasServerId : S) (t₀ t : LockTable S) : Prop := Compatible t ∧ Adds rasServerId t₀ t

/-- What holds of the table that a call leaves when it throws. -/
def GoodStop (rasServerId : S) (t₀ : LockTable S) : LockStop S → Prop
  | .statementFailed => True
  | .throws t => Good rasServerId t₀ t

/-- Rows of the server itself do not make a clash. -/
theorem clashes_of_adds {beginId endId : ℤ} (h : Adds rasServerId t₀ t)
    (hc : Clashes lockType rasServerId beginId endId t) :
    Clashes lockType rasServerId beginId endId t₀ := by
  have hother : ∀ r ∈ t, r.rasServerId ≠ rasServerId → r ∈ t₀ := fun r hr hne =>
    (h.new r hr).resolve_right hne
  cases lockType with
  | shared =>
    obtain ⟨hnone, r, hr, hin, hne, hx⟩ := hc
    refine ⟨?_, r, hother r hr hne, hin, hne, hx⟩
    rw [areTilesLockedShared, List.any_eq_false] at hnone ⊢
    exact fun s hs => hnone s (h.old s hs)
  | exclusive =>
    obtain ⟨hnone, r, hr, hin, hne⟩ := hc
    exact ⟨fun s hs => hnone s (h.old s hs), r, hother r hr hne, hin, hne⟩

omit [DecidableEq S] in
/-- A statement that adds compatible rows, or fails. -/
theorem good_of_statement {result : Except (LockStop S) (LockTable S)} (h : Good rasServerId t₀ t)
    (hok : ∀ t', result = .ok t' → Compatible t' ∧ Adds rasServerId t t')
    (hfail : ∀ stop, result = .error stop → stop = .statementFailed) :
    Post (Good rasServerId t₀) (GoodStop rasServerId t₀) result := by
  rcases hr : result with stop | t'
  · obtain rfl := hfail stop hr
    trivial
  · obtain ⟨hcomp, hadds⟩ := hok t' hr
    exact ⟨hcomp, h.2.trans hadds⟩

/-- `lockTileInternal`, whose test after the insertion may throw. -/
theorem lockTileInternal_good (lockType : Lock) (tileId : ℤ) (h : Good rasServerId t₀ t) :
    Post (Good rasServerId t₀) (GoodStop rasServerId t₀)
      (lockTileInternal rasServerId lockType t tileId) := by
  -- what the test decides, the rows stay
  have htest : ∀ (result : Except (LockStop S) (LockTable S)) (test : LockTable S → Bool),
      Post (Good rasServerId t₀) (GoodStop rasServerId t₀) result →
      Post (Good rasServerId t₀) (GoodStop rasServerId t₀)
        (result >>= fun t => if test t then .ok t else .error (.throws t)) := by
    intro result test hpost
    rcases result with stop | t'
    · exact hpost
    · simp only [bind, Except.bind]
      split <;> exact hpost
  cases lockType with
  | exclusive =>
    exact htest _ _ (good_of_statement h (fun t' => lockTileExclusive_compatible h.1)
      fun stop => insertUnless_eq_error)
  | shared =>
    exact htest _ _ (good_of_statement h (fun t' => lockTileShared_compatible h.1)
      fun stop => insertUnless_eq_error)

/-- A block, when it is not locked by one statement against another server. -/
theorem lockBlock_good {block : Block} (h : Good rasServerId t₀ t)
    (hsafe : block.ids.length > 10 →
      ¬ Clashes lockType rasServerId block.beginId block.endId t₀) :
    Post (Good rasServerId t₀) (GoodStop rasServerId t₀) (lockBlock rasServerId lockType t block) := by
  unfold lockBlock
  split
  · next hbulk =>
    have hsafe : ¬ Clashes lockType rasServerId block.beginId block.endId t := fun hc =>
      hsafe (by omega) (clashes_of_adds h.2 hc)
    cases lockType with
    | shared =>
      change Post _ _ (lockTilesShared rasServerId block.beginId block.endId t)
      exact good_of_statement h (fun t' => lockTilesShared_compatible h.1 hsafe)
        fun stop => insertIf_eq_error
    | exclusive =>
      change Post _ _ (lockTilesExclusive rasServerId block.beginId block.endId t)
      exact good_of_statement h (fun t' => lockTilesExclusive_compatible h.1 hsafe)
        fun stop => insertIf_eq_error
  · exact Post.foldlM h fun tileId _ t h => lockTileInternal_good lockType tileId h

/-- **One call keeps the locks compatible.** -/
theorem step_compatible (t : LockTable S) (l : Label S) (h : Compatible t) (hsafe : Unopposed t l) :
    Compatible (step t l) := by
  have hgood : Good l.rasServerId t t := ⟨h, .refl ..⟩
  have hpost : Post Compatible (GoodStop l.rasServerId t)
      (execute l.rasServerId l.lockType t l.call) := by
    have hlock : ∀ result, Post (Good l.rasServerId t) (GoodStop l.rasServerId t) result →
        Post Compatible (GoodStop l.rasServerId t) result := by
      rintro (stop | t') hpost
      · exact hpost
      · exact hpost.1
    cases hcall : l.call with
    | lockTile oid =>
      rw [execute]
      split
      · exact hlock _ (lockTileInternal_good l.lockType oid hgood)
      · exact h
    | lockTiles tileIds =>
      rw [execute]
      refine hlock _ ?_
      unfold lockTilesInternal
      split
      · exact hgood
      · exact lockTileInternal_good l.lockType _ hgood
      · exact Post.foldlM hgood fun block hblock t' h' =>
          lockBlock_good h' (hsafe _ hcall block hblock)
    | unlockTile oid =>
      rw [execute]
      split
      · exact h.filter _
      · exact h
    | unlockAllTiles => exact h.filter _
    | clearLockTable => exact h.filter _
  rw [step]
  split
  · next hex =>
    rw [hex] at hpost
    exact hpost
  · next hex =>
    rw [hex] at hpost
    split
    · exact hpost.1
    · exact h
  · exact h

/-- **In every run whose calls do not lock a block against another server, the locks of different servers
are compatible in every state.** -/
theorem run_compatible {ls before : List (Label S)} (h : Along step Unopposed ([] : LockTable S) ls)
    (hpre : before <+: ls) : Compatible (run step ([] : LockTable S) before) := by
  obtain ⟨rest, rfl⟩ := hpre
  exact (along_append.mp h).1.inv step_compatible compatible_nil

/-- A server reads tile 5, and another one locks the tiles 1 to 11 to write them. -/
def readAndWrite : List (Label ℕ) :=
  [⟨1, .shared, .lockTile 5, true⟩, ⟨2, .exclusive, .lockTiles [1, 2, 3, 4, 5, 6, 7, 8, 9, 10, 11], true⟩]

/-- **The statement for a block of tiles locks a tile that another server reads.** -/
theorem bulk_lock_clashes : ¬ Compatible (run step ([] : LockTable ℕ) readAndWrite) := by
  intro h
  exact absurd (h (exclusiveRow 2 5) (by decide) rfl (sharedRow 1 5) (by decide) rfl) (by decide)

/-- Two servers read a block of tiles, and then one of them writes other tiles. -/
def readers : List (Label ℕ) :=
  [⟨1, .shared, .lockTiles [1, 2, 3, 4, 5, 6, 7, 8, 9, 10, 11], true⟩,
    ⟨2, .shared, .lockTiles [1, 2, 3, 4, 5, 6, 7, 8, 9, 10, 11], true⟩,
    ⟨1, .exclusive, .lockTiles [21, 20], true⟩]

theorem along_readers : Along step Unopposed ([] : LockTable ℕ) readers := by
  refine ⟨?_, ?_, ?_, trivial⟩
  · rintro tileIds ⟨⟩ block - - ⟨-, r, hr, -⟩
    exact absurd hr List.not_mem_nil
  · rintro tileIds ⟨⟩ block - - ⟨-, r, hr, -, -, hx⟩
    have hnone : ∀ r ∈ run step ([] : LockTable ℕ) (readers.take 1), r.exclusiveLock ≠ some 1 := by
      decide
    exact hnone r hr hx
  · rintro tileIds ⟨⟩ block hblock hlen
    have hshort : ∀ block ∈ sortedBlocks [21, 20], block.ids.length ≤ 10 := by decide
    exact absurd hlen (not_lt.mpr (hshort block hblock))

theorem run_compatible_readers : Compatible (run step ([] : LockTable ℕ) readers) :=
  run_compatible along_readers (List.prefix_refl _)

end LockManager

end Rasdaman
