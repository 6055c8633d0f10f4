import Mathlib.Data.Int.Order.Basic
import Mathlib.Data.List.Range
import Mathlib.Logic.Function.Basic
import Rasdaman.Machinery.Crash

/-!
# Relblobif/BlobFSTransaction — tiles in files, next to a database that knows them

`BlobFS`, its insert, update and remove transactions, `BLOBTile` without the tile cache, and
`TransactionIf::commit` and `abort` over SQLite.  A transaction works in a directory of its own, and
moves files between it and the tiles around the COMMIT of the database; a server that starts looks at the
directories an earlier one left, and finishes what it finds there.

A program of this module runs on `Store`, call by call of the operating system.
-/

namespace Rasdaman.BlobFS

open Crash Crash.Prog

abbrev Blob := List UInt8

/-- The transactions with a directory. -/
inductive Kind
  | insert
  | update
  | remove
  deriving DecidableEq, Repr

inductive BlobError
  | blobFileNotFound
  | tileExists
  | tileNotFound
  | commitFailed
  deriving DecidableEq, Repr

/-- `LockFile`: whether the file is there, and whether this process holds the lock on it. -/
structure LockFile where
  present : Bool
  held : Bool
  deriving DecidableEq, Repr

/-- No lock file. -/
def LockFile.free : LockFile := ⟨false, false⟩

def LockFile.lock (l : LockFile) : LockFile := if l.held then l else ⟨true, true⟩

def LockFile.unlock (l : LockFile) : LockFile := if l.held then .free else l

/-- `LockFile::isValid`: not left behind by a process that is gone. -/
def LockFile.isValid (l : LockFile) : Bool := !l.present || l.held

/-- The tile files under RASDATA, the directories of the three transactions with their files and lock
files, the ids of the blobs they are to treat, the blob ids in RAS_TILES after `commits` COMMITs, and
those the open database transaction sees. -/
structure Store where
  tiles : ℤ → Option Blob
  files : Kind → ℤ → Option Blob
  commitLock : Kind → LockFile
  abortLock : Kind → LockFile
  blobIds : Kind → List ℤ
  rasTiles : ℤ → Bool
  commits : ℕ
  view : ℤ → Bool

abbrev Program := Prog Store BlobError Unit

/-- A file of a transaction directory is written, or goes. -/
def put (files : Kind → ℤ → Option Blob) (k : Kind) (id : ℤ) (b : Option Blob) : Kind → ℤ → Option Blob :=
  fun k' id' => if k' = k ∧ id' = id then b else files k' id'

/-! ## Files -/

/-- `getTmpBlobPath` and `getFinalBlobPath`: only positive ids have files. -/
def blobPath (id : ℤ) : Program := if 0 < id then pure () else raise .blobFileNotFound

/-- `BlobFile::moveFile` from the transaction directory to the tiles. -/
def moveToFinal (k : Kind) (id : ℤ) : Program := do
  blobPath id
  call fun s => match s.files k id with
    | none => .error .blobFileNotFound
    | some b => .ok { s with
      files := put s.files k id none
      tiles := Function.update s.tiles id (some b) }

/-- `BlobFile::moveFile` from the tiles to the transaction directory. -/
def moveToTmp (k : Kind) (id : ℤ) : Program := do
  blobPath id
  call fun s => match s.tiles id with
    | none => .error .blobFileNotFound
    | some b => .ok { s with
      tiles := Function.update s.tiles id none
      files := put s.files k id (some b) }

/-- `BlobFile::removeFile` in the transaction directory. -/
def removeFile (k : Kind) (id : ℤ) : Program := do
  blobPath id
  call fun s => .ok { s with files := put s.files k id none }

/-- `BlobFile::prepareForInserting`, and with `truncate` `BlobFile::prepareForUpdating`. -/
def openFile (k : Kind) (truncate : Bool) (id : ℤ) : Program :=
  call fun s => .ok { s with
    files := put s.files k id (some (if truncate then [] else (s.files k id).getD [])) }

/-- One byte more of `write`. -/
def writeByte (k : Kind) (id : ℤ) (data : Blob) (n : ℕ) : Program :=
  call fun s => .ok { s with
    files := put s.files k id ((s.files k id).map fun old => data.take (n + 1) ++ old.drop (n + 1)) }

/-- `BlobFile::insertData`, and with `truncate` `BlobFile::updateData`. -/
def writeData (k : Kind) (truncate : Bool) (id : ℤ) (data : Blob) : Program := do
  openFile k truncate id
  each (writeByte k id data) (List.range data.length)

def pushBack (k : Kind) (id : ℤ) : Program :=
  call fun s => .ok { s with blobIds := Function.update s.blobIds k (s.blobIds k ++ [id]) }

/-! ## The three transactions -/

/-- `BlobFSInsertTransaction::add`. -/
def addInsert (id : ℤ) (data : Blob) : Program := do
  blobPath id
  writeData .insert false id data
  pushBack .insert id

/-- `BlobFSUpdateTransaction::add`. -/
def addUpdate (id : ℤ) (data : Blob) : Program := do
  blobPath id
  writeData .update true id data
  pushBack .update id

/-- `BlobFSRemoveTransaction::add`. -/
def addRemove (id : ℤ) : Program := do
  blobPath id
  pushBack .remove id

def lockForCommit (k : Kind) : Program :=
  call fun s => .ok { s with commitLock := Function.update s.commitLock k (s.commitLock k).lock }

def clearCommitLock (k : Kind) : Program :=
  call fun s => .ok { s with commitLock := Function.update s.commitLock k (s.commitLock k).unlock }

def lockForAbort (k : Kind) : Program :=
  call fun s => .ok { s with abortLock := Function.update s.abortLock k (s.abortLock k).lock }

def clearAbortLock (k : Kind) : Program :=
  call fun s => .ok { s with abortLock := Function.update s.abortLock k (s.abortLock k).unlock }

/-- `blobIds.clear()`. -/
def clearIds (k : Kind) : Program := call fun s => .ok { s with blobIds := Function.update s.blobIds k [] }

/-- What `postRasbaseCommit` does for a blob: the remove transaction deletes the file, the others move it. -/
def commitFile : Kind → ℤ → Program
  | .insert => moveToFinal .insert
  | .update => moveToFinal .update
  | .remove => removeFile .remove

/-- What `postRasbaseAbort` does for a blob: the remove transaction moves the file back, if it is there. -/
def abortFile : Kind → ℤ → Program
  | .insert => removeFile .insert
  | .update => removeFile .update
  | .remove => fun id => do
    blobPath id
    let s ← look
    if (s.files .remove id).isSome then moveToFinal .remove id else pure ()

/-- `postRasbaseCommit` of a transaction. -/
def postCommit (k : Kind) : Program := do
  let s ← look
  if s.blobIds k = [] then pure () else do
    lockForCommit k
    each (commitFile k) (s.blobIds k)
    clearIds k
    clearCommitLock k

/-- `postRasbaseAbort` of a transaction. -/
def postAbort (k : Kind) : Program := do
  let s ← look
  if s.blobIds k = [] then pure () else do
    lockForAbort k
    each (abortFile k) (s.blobIds k)
    clearIds k
    clearAbortLock k

/-- `BlobFSRemoveTransaction::preRasbaseCommit`; the other transactions do nothing here. -/
def preRasbaseCommit : Program := do
  let s ← look
  if s.blobIds .remove = [] then pure () else do
    lockForAbort .remove
    each (moveToTmp .remove) (s.blobIds .remove)
    clearAbortLock .remove

/-- `BlobFS::postRasbaseCommit`. -/
def postRasbaseCommit : Program := do
  postCommit .insert
  postCommit .update
  postCommit .remove

/-- `BlobFS::postRasbaseAbort`. -/
def postRasbaseAbort : Program := do
  postAbort .insert
  postAbort .update
  postAbort .remove

/-! ## The database -/

/-- `BEGIN TRANSACTION`. -/
def beginTransaction : Program := call fun s => .ok { s with view := s.rasTiles }

/-- `COMMIT TRANSACTION`; `ok` says whether the database accepts it. -/
def commitTransaction (ok : Bool) : Program :=
  call fun s => if ok then .ok { s with rasTiles := s.view, commits := s.commits + 1 }
    else .error .commitFailed

/-- `ROLLBACK TRANSACTION`. -/
def rollbackTransaction : Program := call fun s => .ok { s with view := s.rasTiles }

/-- A row of RAS_TILES comes or goes, in the open transaction. -/
def setRow (id : ℤ) (row : Bool) : Program :=
  call fun s => .ok { s with view := Function.update s.view id row }

/-- `TransactionIf::abort`. -/
def abort : Program := do
  rollbackTransaction
  postRasbaseAbort

/-- `TransactionIf::commit`. -/
def commit (ok : Bool) : Program := do
  handle (do preRasbaseCommit; commitTransaction ok) fun e => do abort; raise e
  postRasbaseCommit

/-- What a transaction calls on tiles. -/
inductive Call
  | insertInDb (id : ℤ) (data : Blob)
  | updateInDb (id : ℤ) (data : Blob)
  | deleteFromDb (id : ℤ)
  deriving DecidableEq, Repr

/-- `BLOBTile::insertInDb`, `updateInDb` and `deleteFromDb`. -/
def Call.exec : Call → Program
  | .insertInDb id data => do
    let s ← look
    if s.view id then raise .tileExists else do
      setRow id true
      addInsert id data
  | .updateInDb id data => do
    let s ← look
    if s.view id then addUpdate id data else raise .tileNotFound
  | .deleteFromDb id => do
    let s ← look
    if s.view id then do
      setRow id false
      addRemove id
    else raise .tileNotFound

/-- How a transaction is ended; `ok` says whether the database accepts the COMMIT. -/
inductive Ending
  | commit (ok : Bool)
  | abort
  deriving DecidableEq, Repr

def Ending.exec : Ending → Program
  | .commit ok => BlobFS.commit ok
  | .abort => BlobFS.abort

/-- `TransactionIf::begin`, and calls on tiles. -/
def work (calls : List Call) : Program := do
  beginTransaction
  each Call.exec calls

/-- A whole transaction. -/
def session (calls : List Call) (ending : Ending) : Program := do
  work calls
  ending.exec

/-! ## A server that starts -/

/-- What a process that is gone leaves: its locks are not held any more, its memory is lost. -/
def restart (s : Store) : Store :=
  { s with
    view := s.rasTiles
    commitLock := fun k => ⟨(s.commitLock k).present, false⟩
    abortLock := fun k => ⟨(s.abortLock k).present, false⟩
    blobIds := fun _ => [] }

/-- `finalizeRasbaseCrash`: the database tells what becomes of a file. -/
def crashFile (k : Kind) (id : ℤ) : Program := do
  blobPath id
  let s ← look
  if s.rasTiles id then moveToFinal k id else removeFile k id

/-- `finalizeRasbaseCrash`. -/
def finalizeRasbaseCrash (k : Kind) : Program := do
  let s ← look
  each (crashFile k) (s.blobIds k)
  clearIds k

/-- `finalizeUncompleted`, where `listing` is what `collectBlobIds` finds in the directory. -/
def finalizeUncompleted (k : Kind) (listing : List ℤ) : Program := do
  call fun s => .ok { s with blobIds := Function.update s.blobIds k listing }
  if listing = [] then pure () else do
    let s ← look
    if !(s.commitLock k).isValid then postCommit k
    else if !(s.abortLock k).isValid then postAbort k
    else finalizeRasbaseCrash k

/-- The destructor of a transaction: its directory goes with all that is in it. -/
def removeDirectory (k : Kind) : Program := call fun s => .ok { s with
  files := fun k' id => if k' = k then none else s.files k' id
  commitLock := Function.update s.commitLock k .free
  abortLock := Function.update s.abortLock k .free
  blobIds := Function.update s.blobIds k [] }

/-- `BlobFS::finalizeUncompletedTransactions`, for the directories in the order the file system lists them. -/
def finalizeUncompletedTransactions (listings : List (Kind × List ℤ)) : Program :=
  each (fun l => do
    finalizeUncompleted l.1 l.2
    removeDirectory l.1) listings

end Rasdaman.BlobFS

/-!
## What the directories of a server that is gone stand for

A file in a transaction directory is moved to the tiles by the next server or deleted by it; its lock
files, and else the row of the blob, tell which (`restores`).  So a store stands for certain tiles
(`logical`) at every moment, and the calls of a recovery change the store but not what it stands for.
-/

namespace Rasdaman.BlobFS

open Crash Crash.Prog

/-- What becomes of a file: it is moved to the tiles, or deleted. -/
def fate (commitLock abortLock : LockFile) (k : Kind) (row : Bool) : Bool :=
  if commitLock.present then k != .remove else if abortLock.present then k == .remove else row

/-- Whether the next server moves a file to the tiles. -/
def restores (s : Store) (k : Kind) (id : ℤ) : Bool :=
  fate (s.commitLock k) (s.abortLock k) k (s.rasTiles id)

/-- The file the next server moves to the tiles. -/
def restored (s : Store) (k : Kind) (id : ℤ) : Option Blob := if restores s k id then s.files k id else none

/-- **The tile a store stands for**: what the next server finds, or puts in its place. -/
def logical (s : Store) (id : ℤ) : Option Blob :=
  (restored s .insert id <|> restored s .update id <|> restored s .remove id) <|> s.tiles id

/-- Files have positive ids, and no blob has files in two directories. -/
structure Sound (s : Store) : Prop where
  positive : ∀ {k id}, s.files k id ≠ none → 0 < id
  single : ∀ {k k' id}, s.files k id ≠ none → s.files k' id ≠ none → k = k'

variable {s t u : Store} {k k' : Kind} {id id' : ℤ} {b : Blob}

@[simp] theorem put_self (files : Kind → ℤ → Option Blob) (x : Option Blob) : put files k id x k id = x :=
  if_pos ⟨rfl, rfl⟩

theorem put_of_ne (files : Kind → ℤ → Option Blob) (x : Option Blob) (h : ¬(k' = k ∧ id' = id)) :
    put files k id x k' id' = files k' id' :=
  if_neg h

theorem put_of_ne_id (files : Kind → ℤ → Option Blob) (x : Option Blob) (h : id' ≠ id) :
    put files k id x k' id' = files k' id' :=
  put_of_ne _ _ fun hand => h hand.2

theorem put_of_ne_kind (files : Kind → ℤ → Option Blob) (x : Option Blob) (h : k' ≠ k) :
    put files k id x k' id' = files k' id' :=
  put_of_ne _ _ fun hand => h hand.1

theorem restored_of_none (h : s.files k id = none) : restored s k id = none := by simp [restored, h]

theorem logical_of_none (h : ∀ k, s.files k id = none) : logical s id = s.tiles id := by
  simp [logical, restored_of_none (h _)]

/-- Of the files of a blob there is one that counts. -/
theorem logical_of_file (hs : Sound s) (hf : s.files k id = some b) :
    logical s id = if restores s k id then some b else s.tiles id := by
  have hother : ∀ k' ≠ k, restored s k' id = none := fun k' hne => by
    refine restored_of_none (Option.eq_none_iff_forall_ne_some.mpr fun b' hb' => hne ?_)
    exact hs.single (by rw [hb']; simp) (by rw [hf]; simp)
  have hown : restored s k id = if restores s k id then some b else none := by rw [restored, hf]
  rw [logical]
  cases k with
  | insert => rw [hown, hother .update nofun, hother .remove nofun]; split <;> rfl
  | update => rw [hown, hother .insert nofun, hother .remove nofun]; split <;> rfl
  | remove => rw [hown, hother .insert nofun, hother .update nofun]; split <;> rfl

theorem logical_congr (hr : ∀ k, restored t k id = restored s k id) (ht : t.tiles id = s.tiles id) :
    logical t id = logical s id := by
  rw [logical, logical, hr, hr, hr, ht]

/-! ## Stores that stand for the same -/

/-- The store is sound and stands for the same tiles, and the database is where it was. -/
structure Like (s t : Store) : Prop where
  sound : Sound t
  logical : ∀ id, logical t id = logical s id
  rasTiles : t.rasTiles = s.rasTiles
  commits : t.commits = s.commits

/-- Only the tiles and what belongs to one transaction differ. -/
structure Within (k : Kind) (s t : Store) : Prop extends Like s t where
  view : t.view = s.view
  files : ∀ k' ≠ k, t.files k' = s.files k'
  commitLock : ∀ k' ≠ k, t.commitLock k' = s.commitLock k'
  abortLock : ∀ k' ≠ k, t.abortLock k' = s.abortLock k'
  blobIds : ∀ k' ≠ k, t.blobIds k' = s.blobIds k'

theorem Like.refl (hs : Sound s) : Like s s := ⟨hs, fun _ => rfl, rfl, rfl⟩

theorem Like.trans (h : Like s t) (h' : Like t u) : Like s u :=
  ⟨h'.sound, fun id => (h'.logical id).trans (h.logical id), h'.rasTiles.trans h.rasTiles,
    h'.commits.trans h.commits⟩

theorem Within.refl (hs : Sound s) : Within k s s :=
  ⟨.refl hs, rfl, fun _ _ => rfl, fun _ _ => rfl, fun _ _ => rfl, fun _ _ => rfl⟩

theorem Within.trans (h : Within k s t) (h' : Within k t u) : Within k s u where
  toLike := h.toLike.trans h'.toLike
  view := h'.view.trans h.view
  files k' hk := (h'.files k' hk).trans (h.files k' hk)
  commitLock k' hk := (h'.commitLock k' hk).trans (h.commitLock k' hk)
  abortLock k' hk := (h'.abortLock k' hk).trans (h.abortLock k' hk)
  blobIds k' hk := (h'.blobIds k' hk).trans (h.blobIds k' hk)

/-- A step that touches one blob of a directory. -/
theorem Within.of_blob (hs : Sound s) {x : Option Blob} (hfiles : t.files = put s.files k id x)
    (htiles : ∀ id' ≠ id, t.tiles id' = s.tiles id')
    (hrest : t = { s with files := t.files, tiles := t.tiles })
    (hnew : x ≠ none → 0 < id ∧ ∀ k' ≠ k, s.files k' id = none)
    (hid : BlobFS.logical t id = BlobFS.logical s id) : Within k s t := by
  have hown : ∀ {k'}, t.files k' id ≠ none → k' = k ∧ x ≠ none ∨ k' ≠ k ∧ s.files k' id ≠ none := by
    intro k' h
    rw [hfiles] at h
    by_cases hk : k' = k
    · exact .inl ⟨hk, by rwa [hk, put_self] at h⟩
    · exact .inr ⟨hk, by rwa [put_of_ne_kind _ _ hk] at h⟩
  have hother : ∀ {k' id'}, id' ≠ id → t.files k' id' = s.files k' id' := fun hne => by
    rw [hfiles, put_of_ne_id _ _ hne]
  have hrow : t.rasTiles = s.rasTiles := (congrArg Store.rasTiles hrest :)
  have hcommit : t.commitLock = s.commitLock := (congrArg Store.commitLock hrest :)
  have habort : t.abortLock = s.abortLock := (congrArg Store.abortLock hrest :)
  refine ⟨⟨⟨?_, ?_⟩, fun id' => ?_, hrow, (congrArg Store.commits hrest :)⟩, (congrArg Store.view hrest :),
    fun k' hk => ?_, fun _ _ => by rw [hcommit], fun _ _ => by rw [habort],
    fun _ _ => by rw [(congrArg Store.blobIds hrest :)]⟩
  · intro k' id' h
    by_cases hne : id' = id
    · subst hne
      rcases hown h with ⟨-, hx⟩ | ⟨-, h⟩
      · exact (hnew hx).1
      · exact hs.positive h
    · exact hs.positive (k := k') (by rwa [hother hne] at h)
  · intro k₁ k₂ id' h₁ h₂
    by_cases hne : id' = id
    · subst hne
      rcases hown h₁ with ⟨rfl, hx⟩ | ⟨hk₁, h₁⟩ <;> rcases hown h₂ with ⟨hk₂, hx'⟩ | ⟨hk₂, h₂⟩
      · exact hk₂.symm
      · exact absurd ((hnew hx).2 k₂ hk₂) h₂
      · subst hk₂
        exact absurd ((hnew hx').2 k₁ hk₁) h₁
      · exact hs.single h₁ h₂
    · rw [hother hne] at h₁ h₂
      exact hs.single h₁ h₂
  · by_cases hne : id' = id
    · rw [hne, hid]
    · refine logical_congr (fun k' => ?_) (htiles id' hne)
      rw [restored, restored, restores, restores, hother hne, hrow, hcommit, habort]
  · funext id'
    rw [hfiles, put_of_ne_kind _ _ hk]

/-- The blob of a file has no other. -/
theorem Sound.other_none (hs : Sound s) (hf : s.files k id = some b) (hk : k' ≠ k) : s.files k' id = none := by
  by_contra hne
  exact hk (hs.single hne (by rw [hf]; simp))

/-- A file that counts is moved to the tiles. -/
theorem within_moveToFinal (hs : Sound s) (hf : s.files k id = some b) (hr : restores s k id = true) :
    Within k s { s with
      files := put s.files k id none
      tiles := Function.update s.tiles id (some b) } := by
  refine Within.of_blob hs rfl (fun id' hne => Function.update_of_ne hne ..) rfl nofun ?_
  rw [logical_of_file hs hf, hr, if_pos rfl]
  refine (logical_of_none fun k' => ?_).trans (Function.update_self ..)
  by_cases hk : k' = k
  · rw [hk]
    exact put_self ..
  · exact (put_of_ne_kind _ _ hk).trans (hs.other_none hf hk)

/-- A file that does not count is deleted. -/
theorem within_removeFile (hs : Sound s) (hr : s.files k id ≠ none → restores s k id = false) :
    Within k s { s with files := put s.files k id none } := by
  refine Within.of_blob hs rfl (fun _ _ => rfl) rfl nofun (logical_congr (fun k' => ?_) rfl)
  by_cases hk : k' = k
  · subst hk
    refine (restored_of_none (put_self ..)).trans ?_
    by_cases hf : s.files k' id = none
    · rw [restored_of_none hf]
    · rw [restored, hr hf]
      rfl
  · exact if_congr Iff.rfl (put_of_ne_kind _ _ hk) rfl

/-- A file comes that counts, and it is the copy of the tile, which goes. -/
theorem within_moveToTmp (hs : Sound s) (hpos : 0 < id) (htile : s.tiles id = some b)
    (hnone : ∀ k', s.files k' id = none) (hr : restores s k id = true) :
    Within k s { s with
      tiles := Function.update s.tiles id none
      files := put s.files k id (some b) } := by
  refine Within.of_blob hs rfl (fun id' hne => Function.update_of_ne hne ..) rfl
    (fun _ => ⟨hpos, fun k' _ => hnone k'⟩) ?_
  have hother : ∀ k' ≠ k, restored { s with
      tiles := Function.update s.tiles id none
      files := put s.files k id (some b) } k' id = none := fun k' hk =>
    restored_of_none ((put_of_ne_kind _ _ hk).trans (hnone k'))
  have hown : restored { s with
      tiles := Function.update s.tiles id none
      files := put s.files k id (some b) } k id = some b :=
    (if_pos hr).trans (put_self ..)
  rw [logical_of_none hnone, htile, logical]
  cases k with
  | insert => rw [hown]; rfl
  | update => rw [hother .insert nofun, hown]; rfl
  | remove => rw [hother .insert nofun, hother .update nofun, hown]; rfl

/-- Lock files come or go that change the fate of no file. -/
theorem within_locks (hs : Sound s) {c a : LockFile}
    (hfate : ∀ id, s.files k id ≠ none → fate c a k (s.rasTiles id) = restores s k id) :
    Within k s { s with
      commitLock := Function.update s.commitLock k c
      abortLock := Function.update s.abortLock k a } := by
  refine ⟨⟨⟨hs.positive, hs.single⟩, fun id => logical_congr (fun k' => ?_) rfl, rfl, rfl⟩, rfl,
    fun _ _ => rfl, fun _ hk => Function.update_of_ne hk .., fun _ hk => Function.update_of_ne hk ..,
    fun _ _ => rfl⟩
  by_cases hf : s.files k' id = none
  · rw [restored_of_none (s := s) hf, restored_of_none (by exact hf)]
  · refine if_congr (Eq.congr_left ?_) rfl rfl
    by_cases hk : k' = k
    · subst hk
      rw [← hfate id hf]
      simp only [restores, Function.update_self]
    · simp only [restores, Function.update_of_ne hk]

theorem within_commitLock (hs : Sound s) {c : LockFile}
    (hfate : ∀ id, s.files k id ≠ none → fate c (s.abortLock k) k (s.rasTiles id) = restores s k id) :
    Within k s { s with commitLock := Function.update s.commitLock k c } := by
  have h := within_locks hs (a := s.abortLock k) hfate
  rwa [Function.update_eq_self] at h

theorem within_abortLock (hs : Sound s) {a : LockFile}
    (hfate : ∀ id, s.files k id ≠ none → fate (s.commitLock k) a k (s.rasTiles id) = restores s k id) :
    Within k s { s with abortLock := Function.update s.abortLock k a } := by
  have h := within_locks hs (c := s.commitLock k) hfate
  rwa [Function.update_eq_self] at h

theorem within_ids (hs : Sound s) (ids : List ℤ) :
    Within k s { s with blobIds := Function.update s.blobIds k ids } :=
  ⟨⟨⟨hs.positive, hs.single⟩, fun _ => rfl, rfl, rfl⟩, rfl, fun _ _ => rfl, fun _ _ => rfl, fun _ _ => rfl,
    fun _ hk => Function.update_of_ne hk ..⟩

/-! ## The loops of a transaction -/

/-- A directory in which the files of some blobs are left, of each if `full`, with given lock files. -/
structure Draining (s : Store) (k : Kind) (c a : LockFile) (full : Prop) (ids : List ℤ) (t : Store) :
    Prop where
  within : Within k s t
  commitLock : t.commitLock k = c
  abortLock : t.abortLock k = a
  listed : ∀ id, t.files k id ≠ none → id ∈ ids
  positive : ∀ id ∈ ids, 0 < id
  present : full → ∀ id ∈ ids, t.files k id ≠ none
  nodup : ids.Nodup

variable {C P : Store → Prop} {E : BlobError → Store → Prop} {c a : LockFile} {ids : List ℤ} {full : Prop}

theorem Draining.restores (h : Draining s k c a full ids t) (id : ℤ) :
    restores t k id = fate c a k (s.rasTiles id) := by
  rw [BlobFS.restores, h.commitLock, h.abortLock, h.within.rasTiles]

/-- The file of a blob is gone, or there was none. -/
theorem Draining.next (h : Draining s k c a full (id :: ids) t) (hw : Within k t u)
    (hnone : u.files k id = none) (hother : ∀ id' ≠ id, u.files k id' = t.files k id')
    (hcommit : u.commitLock = t.commitLock) (habort : u.abortLock = t.abortLock) :
    Draining s k c a full ids u := by
  obtain ⟨hnew, hnodup⟩ := List.nodup_cons.mp h.nodup
  refine ⟨h.within.trans hw, by rw [hcommit, h.commitLock], by rw [habort, h.abortLock], fun id' hne => ?_,
    fun id' hid' => h.positive id' (List.mem_cons_of_mem _ hid'), fun hfull id' hid' => ?_, hnodup⟩
  · have hid : id' ≠ id := fun heq => hne (heq ▸ hnone)
    rw [hother id' hid] at hne
    exact (List.mem_cons.mp (h.listed id' hne)).resolve_left hid
  · rw [hother id' fun heq => hnew (heq ▸ hid')]
    exact h.present hfull id' (List.mem_cons_of_mem _ hid')

theorem spec_blobPath (h : ∀ s, P s → 0 < id) : Spec C P (blobPath id) (fun _ => P) E := by
  refine Spec.pointwise fun s hs => ?_
  rw [blobPath, if_pos (h s hs)]
  exact Spec.ret fun _ ht => ht ▸ hs

theorem ends_blobPath (C : Store → Prop) :
    Ends C (Draining s k c a full (id :: ids)) (blobPath id) fun _ => Draining s k c a full (id :: ids) :=
  spec_blobPath fun _ h => h.positive id List.mem_cons_self

theorem ends_moveToFinal (hfate : fate c a k (s.rasTiles id) = true)
    (hfile : ∀ t, P t → Draining s k c a full (id :: ids) t ∧ t.files k id ≠ none) :
    Ends (Within k s) P (moveToFinal k id) fun _ => Draining s k c a full ids := by
  refine (spec_blobPath fun t ht => (hfile t ht).1.positive id List.mem_cons_self).bind fun _ =>
    Spec.call fun t ht => ?_
  obtain ⟨h, hne⟩ := hfile t ht
  obtain ⟨b, hb⟩ := Option.ne_none_iff_exists'.mp hne
  have hw := within_moveToFinal h.within.sound hb ((h.restores id).trans hfate)
  exact ⟨_, by rw [hb], h.within.trans hw, h.next hw (put_self ..) (fun _ => put_of_ne_id _ _) rfl rfl⟩

theorem ends_removeFile (hfate : fate c a k (s.rasTiles id) = false) :
    Ends (Within k s) (Draining s k c a full (id :: ids)) (removeFile k id)
      fun _ => Draining s k c a full ids := by
  refine (ends_blobPath _).bind fun _ => Spec.call fun t h => ?_
  have hw : Within k t { t with files := put t.files k id none } :=
    within_removeFile h.within.sound fun _ => (h.restores id).trans hfate
  exact ⟨_, rfl, h.within.trans hw, h.next hw (put_self ..) (fun _ => put_of_ne_id _ _) rfl rfl⟩

theorem Draining.and_present (h : Draining s k c a True (id :: ids) t) :
    Draining s k c a True (id :: ids) t ∧ t.files k id ≠ none :=
  ⟨h, h.present trivial id List.mem_cons_self⟩

/-- A commit lock makes `postRasbaseCommit` do what the next server would. -/
theorem ends_commitFile (hc : c.present = true) :
    Ends (Within k s) (Draining s k c a True (id :: ids)) (commitFile k id)
      fun _ => Draining s k c a True ids := by
  have hfate : fate c a k (s.rasTiles id) = (k != .remove) := if_pos hc
  cases k with
  | insert => exact ends_moveToFinal hfate fun _ => Draining.and_present
  | update => exact ends_moveToFinal hfate fun _ => Draining.and_present
  | remove => exact ends_removeFile hfate

/-- An abort lock makes `postRasbaseAbort` do what the next server would. -/
theorem ends_abortFile (hc : c.present = false) (ha : a.present = true) :
    Ends (Within k s) (Draining s k c a full (id :: ids)) (abortFile k id)
      fun _ => Draining s k c a full ids := by
  have hfate : fate c a k (s.rasTiles id) = (k == .remove) := by rw [fate, hc, ha]; rfl
  cases k with
  | insert => exact ends_removeFile hfate
  | update => exact ends_removeFile hfate
  | remove =>
    refine (ends_blobPath _).bind fun _ => Spec.look fun t h => ?_
    split
    case isTrue hsome =>
      refine ends_moveToFinal hfate ?_
      rintro _ rfl
      exact ⟨h, Option.isSome_iff_ne_none.mp hsome⟩
    case isFalse hnone =>
      refine Spec.ret ?_
      rintro _ rfl
      exact h.next (.refl h.within.sound) (Option.not_isSome_iff_eq_none.mp hnone) (fun _ _ => rfl) rfl rfl

/-- The database decides where no lock file does. -/
theorem ends_crashFile (hc : c.present = false) (ha : a.present = false) :
    Ends (Within k s) (Draining s k c a True (id :: ids)) (crashFile k id)
      fun _ => Draining s k c a True ids := by
  have hfate : fate c a k (s.rasTiles id) = s.rasTiles id := by rw [fate, hc, ha]; rfl
  refine (ends_blobPath _).bind fun _ => Spec.look fun t h => ?_
  rw [h.within.rasTiles]
  split
  case isTrue hrow =>
    refine ends_moveToFinal (hfate.trans hrow) ?_
    rintro _ rfl
    exact h.and_present
  case isFalse hrow => exact (ends_removeFile (hfate.trans (Bool.eq_false_iff.mpr hrow))).from h

/-! ## What a transaction does when it is ended -/

/-- Nothing is left of a transaction but perhaps lock files. -/
structure Finished (k : Kind) (s t : Store) : Prop where
  within : Within k s t
  files : ∀ id, t.files k id = none
  blobIds : t.blobIds k = []

/-- The files in the directory are of blobs a transaction has to treat. -/
structure Covered (k : Kind) (s : Store) : Prop where
  sound : Sound s
  nodup : (s.blobIds k).Nodup
  positive : ∀ id ∈ s.blobIds k, 0 < id
  listed : ∀ id, s.files k id ≠ none → id ∈ s.blobIds k

/-- The blobs a transaction has to treat are those with files in its directory. -/
structure Ready (k : Kind) (s : Store) : Prop where
  sound : Sound s
  nodup : (s.blobIds k).Nodup
  listed : ∀ id, s.files k id ≠ none ↔ id ∈ s.blobIds k

theorem Ready.covered (h : Ready k s) : Covered k s :=
  ⟨h.sound, h.nodup, fun id hid => h.sound.positive ((h.listed id).mpr hid), fun id => (h.listed id).mp⟩

theorem Covered.finished (h : Covered k s) (hnil : s.blobIds k = []) : Finished k s s := by
  refine ⟨.refl h.sound, fun id => ?_, hnil⟩
  by_contra hne
  have hmem := h.listed id hne
  rw [hnil] at hmem
  cases hmem

/-- The directory is empty once all blobs are treated. -/
theorem Draining.finished (h : Draining s k c a full [] t) :
    Within k t { t with blobIds := Function.update t.blobIds k [] } ∧
      Finished k s { t with blobIds := Function.update t.blobIds k [] } := by
  have hw := within_ids (k := k) h.within.sound []
  refine ⟨hw, h.within.trans hw, fun id => ?_, Function.update_self ..⟩
  by_contra hne
  cases h.listed id hne

/-- Lock files of an empty directory do not matter. -/
theorem Finished.commitLock (h : Finished k s t) (c : LockFile) :
    Finished k s { t with commitLock := Function.update t.commitLock k c } :=
  ⟨h.within.trans (within_commitLock h.within.sound fun id hne => absurd (h.files id) hne), h.files, h.blobIds⟩

theorem Finished.abortLock (h : Finished k s t) (a : LockFile) :
    Finished k s { t with abortLock := Function.update t.abortLock k a } :=
  ⟨h.within.trans (within_abortLock h.within.sound fun id hne => absurd (h.files id) hne), h.files, h.blobIds⟩

theorem LockFile.lock_of_free {l : LockFile} (h : l.held = false) : l.lock = ⟨true, true⟩ := by
  rw [LockFile.lock, h]
  rfl

theorem ends_clearIds : Ends (Within k s) (Draining s k c a full []) (clearIds k)
    fun _ t => Finished k s t ∧ t.commitLock k = c ∧ t.abortLock k = a := by
  refine Spec.call fun t h => ?_
  obtain ⟨hw, hfin⟩ := h.finished
  exact ⟨_, rfl, h.within.trans hw, hfin, h.commitLock, h.abortLock⟩

/-- **`postRasbaseCommit`** ends, where the lock files tell the next server to do the same. -/
theorem ends_postCommit (h : Ready k s) (hheld : (s.commitLock k).held = false)
    (hfate : ∀ id ∈ s.blobIds k, restores s k id = (k != .remove)) :
    Ends (Within k s) (· = s) (postCommit k) fun _ t => Finished k s t ∧
      t.commitLock k = (if s.blobIds k = [] then s.commitLock k else .free) ∧
      t.abortLock k = s.abortLock k := by
  rw [postCommit]
  refine Spec.look ?_
  rintro t rfl
  split
  case isTrue hnil =>
    refine Spec.ret ?_
    rintro _ rfl
    exact ⟨h.covered.finished hnil, rfl, rfl⟩
  case isFalse hnil =>
    refine Spec.bind (Q := fun _ => Draining t k ⟨true, true⟩ (t.abortLock k) True (t.blobIds k))
      (Spec.call ?_) fun _ => ?_
    · rintro t rfl
      refine ⟨_, rfl, ?_⟩
      have hw : Within k t { t with commitLock := Function.update t.commitLock k (t.commitLock k).lock } := by
        refine within_commitLock h.sound fun id hne => ?_
        rw [hfate id ((h.listed id).mp hne), LockFile.lock_of_free hheld]
        rfl
      exact ⟨hw, hw, (Function.update_self ..).trans (LockFile.lock_of_free hheld), rfl,
        h.covered.listed, h.covered.positive, fun _ id => (h.listed id).mpr, h.nodup⟩
    refine Spec.bind (Spec.each (fun id ids => ends_commitFile rfl) _) fun _ => ?_
    refine Spec.bind ends_clearIds fun _ => Spec.call fun u hu => ⟨_, rfl, ?_, ?_⟩
    · exact (hu.1.commitLock _).within
    · refine ⟨hu.1.commitLock _, (Function.update_self ..).trans ?_, hu.2.2⟩
      rw [hu.2.1]
      rfl

/-- **`postRasbaseAbort`** ends, and from the lock on the next server would do the same. -/
theorem ends_postAbort (h : Covered k s) (hcommit : (s.commitLock k).present = false)
    (hheld : (s.abortLock k).held = false) {u : Store} (hsame : s.blobIds k = [] → Within k u s)
    (hlocked : Within k u { s with abortLock := Function.update s.abortLock k ⟨true, true⟩ }) :
    Ends (Within k u) (· = s) (postAbort k) fun _ t => Finished k u t ∧
      t.commitLock k = s.commitLock k ∧
      t.abortLock k = if s.blobIds k = [] then s.abortLock k else .free := by
  rw [postAbort]
  refine Spec.look ?_
  rintro t rfl
  split
  case isTrue hnil =>
    refine Spec.ret ?_
    rintro _ rfl
    exact ⟨⟨hsame hnil, (h.finished hnil).files, hnil⟩, rfl, rfl⟩
  case isFalse hnil =>
    refine Spec.bind (Q := fun _ => Draining u k (t.commitLock k) ⟨true, true⟩ False (t.blobIds k))
      (Spec.call ?_) fun _ => ?_
    · rintro _ rfl
      refine ⟨_, rfl, ?_⟩
      rw [LockFile.lock_of_free hheld]
      exact ⟨hlocked, hlocked, rfl, Function.update_self .., h.listed, h.positive, nofun, h.nodup⟩
    refine Spec.bind (Spec.each (fun id ids => ends_abortFile hcommit rfl) _) fun _ => ?_
    refine Spec.bind ends_clearIds fun _ => Spec.call fun u hu => ⟨_, rfl, ?_, ?_⟩
    · exact (hu.1.abortLock _).within
    · refine ⟨hu.1.abortLock _, hu.2.1, (Function.update_self ..).trans ?_⟩
      rw [hu.2.2]
      rfl

theorem ends_finalizeRasbaseCrash (h : Ready k s) (hcommit : (s.commitLock k).present = false)
    (habort : (s.abortLock k).present = false) :
    Ends (Within k s) (· = s) (finalizeRasbaseCrash k) fun _ => Finished k s := by
  rw [finalizeRasbaseCrash]
  refine Spec.look ?_
  rintro t rfl
  refine Spec.bind ((Spec.each (I := Draining t k (t.commitLock k) (t.abortLock k) True)
    (fun id ids => ends_crashFile hcommit habort) _).from
    ⟨.refl h.sound, rfl, rfl, h.covered.listed, h.covered.positive, fun _ id => (h.listed id).mpr, h.nodup⟩) fun _ => ?_
  exact ends_clearIds.post fun _ _ hu => hu.1

/-! ## The recovery -/

/-- What `collectBlobIds` finds in a directory. -/
def Lists (s : Store) (k : Kind) (listing : List ℤ) : Prop :=
  listing.Nodup ∧ ∀ id, s.files k id ≠ none ↔ id ∈ listing

/-- **A directory is finished without changing what the store stands for.** -/
theorem ends_finalizeUncompleted (hs : Sound s) {listing : List ℤ} (hlist : Lists s k listing)
    (hcommit : (s.commitLock k).held = false) (habort : (s.abortLock k).held = false) :
    Ends (Within k s) (· = s) (finalizeUncompleted k listing) fun _ => Finished k s := by
  rw [finalizeUncompleted]
  have hw := within_ids (k := k) hs listing
  set t : Store := { s with blobIds := Function.update s.blobIds k listing } with ht
  have hready : Ready k t :=
    ⟨hw.sound, by simpa [ht] using hlist.1, fun id => by simpa [ht] using hlist.2 id⟩
  have hfin : ∀ {u}, Finished k t u → Finished k s u := fun hu => ⟨hw.trans hu.within, hu.files, hu.blobIds⟩
  refine Spec.bind (Q := fun _ => (· = t)) (Spec.call ?_) fun _ => ?_
  · rintro _ rfl
    exact ⟨_, rfl, hw, rfl⟩
  split
  case isTrue hnil =>
    refine Spec.ret fun _ hu => hu ▸ hfin (hready.covered.finished ?_)
    simpa [ht] using hnil
  refine Spec.look ?_
  rintro _ rfl
  have hvalid : ∀ {l : LockFile}, l.held = false → (!l.isValid) = l.present := fun {l} hl => by
    simp [LockFile.isValid, hl]
  rw [hvalid (show (t.commitLock k).held = false from hcommit),
    hvalid (show (t.abortLock k).held = false from habort)]
  cases hc : (t.commitLock k).present with
  | true =>
    refine ((ends_postCommit hready hcommit fun id _ => ?_).passing fun _ => hw.trans).post
      fun _ _ hu => hfin hu.1
    rw [restores, fate, if_pos hc]
  | false =>
    cases ha : (t.abortLock k).present with
    | true =>
      refine ((ends_postAbort hready.covered hc habort (fun _ => .refl hw.sound) ?_).passing
        fun _ => hw.trans).post fun _ _ hu => hfin hu.1
      refine within_abortLock hw.sound fun id _ => ?_
      rw [restores, fate, fate, hc, ha]
    | false =>
      exact ((ends_finalizeRasbaseCrash hready hc ha).passing fun _ => hw.trans).post
        fun _ _ hu => hfin hu

/-- A server that does nothing: its directories are empty, it holds no locks. -/
structure Idle (s : Store) : Prop where
  files : ∀ k id, s.files k id = none
  commitLock : ∀ k, s.commitLock k = .free
  abortLock : ∀ k, s.abortLock k = .free
  blobIds : ∀ k, s.blobIds k = []

theorem Idle.logical (h : Idle s) (id : ℤ) : logical s id = s.tiles id := logical_of_none fun k => h.files k id

theorem Idle.sound (h : Idle s) : Sound s :=
  ⟨fun {k id} hne => absurd (h.files k id) hne, fun {k _ id} hne => absurd (h.files k id) hne⟩

/-- The directories in some order, each with the blobs of its files in some order. -/
structure Listings (ls : List (Kind × List ℤ)) (s : Store) : Prop where
  nodup : (ls.map Prod.fst).Nodup
  complete : ∀ k, k ∈ ls.map Prod.fst
  lists : ∀ l ∈ ls, Lists s l.1 l.2

/-- Some directories are still as they were, the others are gone. -/
structure Recovering (s : Store) (ls : List (Kind × List ℤ)) (t : Store) : Prop where
  like : Like s t
  view : t.view = s.view
  nodup : (ls.map Prod.fst).Nodup
  lists : ∀ l ∈ ls, Lists t l.1 l.2
  released : ∀ l ∈ ls, (t.commitLock l.1).held = false ∧ (t.abortLock l.1).held = false
  gone : ∀ k, k ∉ ls.map Prod.fst → (∀ id, t.files k id = none) ∧ t.commitLock k = .free ∧
    t.abortLock k = .free ∧ t.blobIds k = []

theorem Finished.removeDirectory (h : Finished k s t) :
    Within k s { t with
      files := fun k' id => if k' = k then none else t.files k' id
      commitLock := Function.update t.commitLock k .free
      abortLock := Function.update t.abortLock k .free
      blobIds := Function.update t.blobIds k [] } := by
  have hfiles : (fun k' id => if k' = k then none else t.files k' id) = t.files := by
    funext k' id
    split
    case isTrue hk => rw [hk, h.files]
    case isFalse => rfl
  rw [hfiles]
  have hlocks := within_locks (c := .free) (a := .free) h.within.sound fun id hne => absurd (h.files id) hne
  exact (h.within.trans hlocks).trans (within_ids hlocks.sound [])

/-- One directory is finished and removed. -/
theorem ends_directory (l : Kind × List ℤ) (ls : List (Kind × List ℤ)) :
    Ends (Like s) (Recovering s (l :: ls))
      (do finalizeUncompleted l.1 l.2; removeDirectory l.1 : Program) fun _ => Recovering s ls := by
  refine Spec.pointwise fun t h => ?_
  obtain ⟨hc, ha⟩ := h.released l List.mem_cons_self
  obtain ⟨hkind, hnodup⟩ := List.nodup_cons.mp h.nodup
  have hne : ∀ l' ∈ ls, l'.1 ≠ l.1 := fun l' hl' heq => hkind (heq ▸ List.mem_map_of_mem hl')
  refine Spec.bind (((ends_finalizeUncompleted h.like.sound (h.lists l List.mem_cons_self) hc ha).passing
    fun _ hw => h.like.trans hw.toLike)) fun _ => Spec.call fun u hu => ⟨_, rfl, ?_⟩
  have hw := hu.removeDirectory
  refine ⟨h.like.trans hw.toLike, h.like.trans hw.toLike, hw.view.trans h.view, hnodup, ?_, ?_, ?_⟩
  · intro l' hl'
    have hlists := h.lists l' (List.mem_cons_of_mem _ hl')
    rwa [Lists, ← hw.files l'.1 (hne l' hl')] at hlists
  · intro l' hl'
    rw [hw.commitLock l'.1 (hne l' hl'), hw.abortLock l'.1 (hne l' hl')]
    exact h.released l' (List.mem_cons_of_mem _ hl')
  · intro k hk
    by_cases heq : k = l.1
    · subst heq
      exact ⟨fun id => if_pos rfl, Function.update_self .., Function.update_self .., Function.update_self ..⟩
    · rw [hw.files k heq, hw.commitLock k heq, hw.abortLock k heq, hw.blobIds k heq]
      exact h.gone k (by simpa [heq] using hk)

/-- What a process leaves, as the next one finds it, stands for the same. -/
theorem like_restart (hs : Sound s) : Like s (restart s) :=
  ⟨⟨hs.positive, hs.single⟩, fun _ => logical_congr (fun _ => rfl) rfl, rfl, rfl⟩

/-- **The recovery**: it raises nothing, passes through stores that stand for the same tiles only, and
makes these tiles. -/
theorem ends_finalizeUncompletedTransactions (hs : Sound s) {ls : List (Kind × List ℤ)}
    (hls : Listings ls (restart s)) :
    Ends (Like s) (· = restart s) (finalizeUncompletedTransactions ls) fun _ t =>
      Idle t ∧ t.tiles = logical s ∧ t.rasTiles = s.rasTiles ∧ t.commits = s.commits ∧ t.view = s.rasTiles := by
  have hstart : Recovering (restart s) ls (restart s) :=
    ⟨.refl (like_restart hs).sound, rfl, hls.nodup, hls.lists, fun _ _ => ⟨rfl, rfl⟩,
      fun k hk => absurd (hls.complete k) hk⟩
  refine (((Spec.each ends_directory ls).from hstart).passing fun _ => (like_restart hs).trans).post ?_
  intro _ t ht
  have hidle : Idle t := ⟨fun k => (ht.gone k List.not_mem_nil).1, fun k => (ht.gone k List.not_mem_nil).2.1,
    fun k => (ht.gone k List.not_mem_nil).2.2.1, fun k => (ht.gone k List.not_mem_nil).2.2.2⟩
  have hlike := (like_restart hs).trans ht.like
  refine ⟨hidle, funext fun id => ?_, hlike.rasTiles, hlike.commits, ht.view⟩
  rw [← hidle.logical, hlike.logical]

end Rasdaman.BlobFS
