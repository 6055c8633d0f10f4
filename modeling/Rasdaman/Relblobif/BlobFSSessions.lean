import Rasdaman.Relblobif.BlobFSTransaction

/-!
# Relblobif/BlobFSSessions — a transaction on tiles, from BEGIN to its end

What the files in the directories are while a transaction runs, commits or aborts, and what the store
stands for if the server is gone at that moment: as long as the database has not committed, the tiles of
the start, except that the file of an update counts already; from the COMMIT on, the tiles of the end.
-/

namespace Rasdaman.BlobFS

open Crash Crash.Prog

namespace Call

def id : Call → ℤ
  | insertInDb id _ => id
  | updateInDb id _ => id
  | deleteFromDb id => id

def kind : Call → Kind
  | insertInDb .. => .insert
  | updateInDb .. => .update
  | deleteFromDb .. => .remove

/-- The tile after the call. -/
def tile : Call → Option Blob
  | insertInDb _ data => some data
  | updateInDb _ data => some data
  | deleteFromDb _ => none

/-- A new blob is inserted, one that is there is updated or deleted. -/
def Fits (s : Store) : Call → Prop
  | insertInDb id _ => s.rasTiles id = false
  | updateInDb id _ => s.rasTiles id = true
  | deleteFromDb id => s.rasTiles id = true

instance (s : Store) (c : Call) : Decidable (c.Fits s) := by
  cases c <;> exact inferInstanceAs (Decidable (_ = _))

end Call

/-- The tiles after some calls. -/
def after (tiles : ℤ → Option Blob) (calls : List Call) : ℤ → Option Blob :=
  calls.foldl (fun f c => Function.update f c.id c.tile) tiles

/-- RAS_TILES has the blobs that have tiles. -/
def Consistent (s : Store) : Prop := ∀ id, s.rasTiles id = (s.tiles id).isSome

/-- The calls fit, and none is on the blob of another. -/
structure Clean (s : Store) (calls : List Call) : Prop where
  nodup : (calls.map Call.id).Nodup
  positive : ∀ c ∈ calls, 0 < c.id
  fits : ∀ c ∈ calls, c.Fits s

variable {s t u v : Store} {calls done rest : List Call} {c : Call} {k k' : Kind} {id : ℤ} {b data : Blob}
  {tiles : ℤ → Option Blob}

theorem after_concat : after tiles (calls ++ [c]) = Function.update (after tiles calls) c.id c.tile :=
  List.foldl_concat ..

theorem after_of_not_mem (h : id ∉ calls.map Call.id) : after tiles calls id = tiles id := by
  induction calls using List.reverseRecOn with
  | nil => rfl
  | append_singleton calls c ih =>
    rw [List.map_append, List.mem_append, not_or] at h
    rw [after_concat, Function.update_of_ne (by simpa using h.2)]
    exact ih h.1

theorem after_of_mem (hnodup : (calls.map Call.id).Nodup) (h : c ∈ calls) :
    after tiles calls c.id = c.tile := by
  induction calls using List.reverseRecOn with
  | nil => cases h
  | append_singleton calls c' ih =>
    rw [List.map_append, List.nodup_append] at hnodup
    rw [after_concat]
    rcases List.mem_append.mp h with h | h
    · rw [Function.update_of_ne, ih hnodup.1 h]
      exact hnodup.2.2 _ (List.mem_map_of_mem h) _ (by simp)
    · rw [List.mem_singleton.mp h, Function.update_self]

theorem Clean.ne (h : Clean s (done ++ c :: rest)) : c.id ∉ done.map Call.id := by
  have hnodup := h.nodup
  rw [List.map_append, List.nodup_append] at hnodup
  exact fun hmem => hnodup.2.2 _ hmem _ (by simp) rfl

/-! ## Calls on tiles -/

/-- Before the COMMIT: the files are those of inserts of new blobs, and of updates, perhaps unfinished. -/
structure Uncommitted (s : Store) (calls : List Call) (t : Store) : Prop where
  tiles : t.tiles = s.tiles
  rasTiles : t.rasTiles = s.rasTiles
  commits : t.commits = s.commits
  commitLock : ∀ k, t.commitLock k = .free
  abortLock : ∀ k, t.abortLock k = .free
  file : ∀ k id b, t.files k id = some b → 0 < id ∧ (k = .insert ∧ s.rasTiles id = false ∨
    k = .update ∧ s.rasTiles id = true ∧ ∃ data n, Call.updateInDb id data ∈ calls ∧ b = data.take n)

/-- **Before the COMMIT** the store stands for the tiles of the start, but for updates. -/
structure Before (s : Store) (calls : List Call) (t : Store) : Prop where
  sound : Sound t
  rasTiles : t.rasTiles = s.rasTiles
  commits : t.commits = s.commits
  tile : ∀ id, logical t id = s.tiles id ∨
    ∃ data n, Call.updateInDb id data ∈ calls ∧ logical t id = some (data.take n)

/-- **From the COMMIT on** the store stands for the tiles of the end. -/
structure After (s : Store) (calls : List Call) (t : Store) : Prop where
  sound : Sound t
  rasTiles : ∀ id, t.rasTiles id = (after s.tiles calls id).isSome
  commits : t.commits = s.commits + 1
  tiles : ∀ id, logical t id = after s.tiles calls id

/-- What is found after a crash. -/
def Interim (s : Store) (calls : List Call) (t : Store) : Prop := Before s calls t ∨ After s calls t

theorem Before.like (h : Before s calls t) (hl : Like t u) : Before s calls u :=
  ⟨hl.sound, hl.rasTiles.trans h.rasTiles, hl.commits.trans h.commits, fun id => by
    rw [hl.logical]
    exact h.tile id⟩

theorem After.like (h : After s calls t) (hl : Like t u) : After s calls u :=
  ⟨hl.sound, fun id => by rw [hl.rasTiles, h.rasTiles], hl.commits.trans h.commits, fun id => by
    rw [hl.logical, h.tiles]⟩

theorem Uncommitted.sound (h : Uncommitted s calls t) : Sound t := by
  refine ⟨fun {k id} hne => ?_, fun {k k' id} hk hk' => ?_⟩
  · obtain ⟨b, hb⟩ := Option.ne_none_iff_exists'.mp hne
    exact (h.file k id b hb).1
  · obtain ⟨b, hb⟩ := Option.ne_none_iff_exists'.mp hk
    obtain ⟨b', hb'⟩ := Option.ne_none_iff_exists'.mp hk'
    -- the row of the blob tells which directory it is
    rcases (h.file k id b hb).2 with ⟨rfl, hrow⟩ | ⟨rfl, hrow, -⟩ <;>
      rcases (h.file k' id b' hb').2 with ⟨rfl, hrow'⟩ | ⟨rfl, hrow', -⟩
    · rfl
    · rw [hrow] at hrow'
      cases hrow'
    · rw [hrow] at hrow'
      cases hrow'
    · rfl

theorem Uncommitted.restores (h : Uncommitted s calls t) : restores t k id = s.rasTiles id := by
  rw [BlobFS.restores, h.commitLock, h.abortLock, h.rasTiles]
  rfl

theorem Uncommitted.before (h : Uncommitted s calls t) : Before s calls t := by
  refine ⟨h.sound, h.rasTiles, h.commits, fun id => ?_⟩
  by_cases hnone : ∀ k, t.files k id = none
  · exact .inl (by rw [logical_of_none hnone, h.tiles])
  obtain ⟨k, hk⟩ := not_forall.mp hnone
  obtain ⟨b, hb⟩ := Option.ne_none_iff_exists'.mp hk
  rw [logical_of_file h.sound hb, h.restores, h.tiles]
  rcases (h.file k id b hb).2 with ⟨-, hrow⟩ | ⟨-, hrow, data, n, hcall, rfl⟩
  · exact .inl (by rw [hrow]; rfl)
  · exact .inr ⟨data, n, hcall, by rw [hrow]; rfl⟩

/-- Some calls of a transaction are made. -/
structure Staged (s : Store) (calls done : List Call) (t : Store) : Prop extends Uncommitted s calls t where
  files : ∀ k id b, t.files k id = some b ↔ ∃ c ∈ done, c.kind = k ∧ c.id = id ∧ c.tile = some b
  blobIds : ∀ k, t.blobIds k = (done.filter (·.kind = k)).map Call.id
  view : ∀ id, t.view id = (after s.tiles done id).isSome

theorem Staged.file_none (h : Staged s calls done t) (hid : id ∉ done.map Call.id) : t.files k id = none := by
  refine Option.eq_none_iff_forall_ne_some.mpr fun b hb => hid ?_
  obtain ⟨c, hc, -, rfl, -⟩ := (h.files k id b).mp hb
  exact List.mem_map_of_mem hc

theorem Staged.view_of_new (h : Staged s calls done t) (hs : Consistent s) (hid : id ∉ done.map Call.id) :
    t.view id = s.rasTiles id := by
  rw [h.view, after_of_not_mem hid, hs]

/-- A blob is being written: some bytes of its file are there. -/
structure Writing (s : Store) (calls done : List Call) (c : Call) (data : Blob) (n : ℕ) (t : Store) : Prop
    extends Uncommitted s calls t where
  files : ∀ k id b, t.files k id = some b ↔
    (∃ c ∈ done, c.kind = k ∧ c.id = id ∧ c.tile = some b) ∨ c.kind = k ∧ c.id = id ∧ b = data.take n
  blobIds : ∀ k, t.blobIds k = (done.filter (·.kind = k)).map Call.id
  view : ∀ id, t.view id = (after s.tiles (done ++ [c]) id).isSome

variable {C P : Store → Prop} {E : BlobError → Store → Prop} {n : ℕ}

/-- A file of a call may be written while the COMMIT has not come. -/
theorem Uncommitted.put (h : Uncommitted s calls t) (hc : c ∈ calls) (hpos : 0 < c.id) (hfit : c.Fits s)
    (htile : c.tile = some data) (n : ℕ) :
    Uncommitted s calls { t with files := put t.files c.kind c.id (some (data.take n)) } := by
  refine ⟨h.tiles, h.rasTiles, h.commits, h.commitLock, h.abortLock, fun k id b hb => ?_⟩
  by_cases hown : k = c.kind ∧ id = c.id
  · obtain ⟨rfl, rfl⟩ := hown
    cases (put_self ..).symm.trans hb
    refine ⟨hpos, ?_⟩
    cases c with
    | insertInDb id d => exact .inl ⟨rfl, hfit⟩
    | updateInDb id d =>
      cases htile
      exact .inr ⟨rfl, hfit, data, n, hc, rfl⟩
    | deleteFromDb id => cases htile
  · exact h.file k id b ((put_of_ne _ _ hown).symm.trans hb)

/-- The files of the calls made, and the one that is written. -/
theorem files_put {files : Kind → ℤ → Option Blob} (hnew : c.id ∉ done.map Call.id)
    (hother : ∀ k id b, ¬(k = c.kind ∧ id = c.id) →
      (files k id = some b ↔ ∃ c ∈ done, c.kind = k ∧ c.id = id ∧ c.tile = some b)) (k : Kind) (id : ℤ) (b : Blob) :
    put files c.kind c.id (some data) k id = some b ↔
      (∃ c ∈ done, c.kind = k ∧ c.id = id ∧ c.tile = some b) ∨ c.kind = k ∧ c.id = id ∧ b = data := by
  by_cases hown : k = c.kind ∧ id = c.id
  · obtain ⟨rfl, rfl⟩ := hown
    rw [put_self]
    constructor
    · rintro ⟨⟩
      exact .inr ⟨rfl, rfl, rfl⟩
    · rintro (⟨c', hc', -, heq, -⟩ | ⟨-, -, rfl⟩)
      · exact absurd (heq ▸ List.mem_map_of_mem hc') hnew
      · rfl
  · rw [put_of_ne _ _ hown, hother k id b hown]
    exact (or_iff_left fun hand => hown ⟨hand.1.symm, hand.2.1.symm⟩).symm

/-- The row of a call is set, nothing is written yet. -/
structure Viewing (s : Store) (calls done : List Call) (c : Call) (t : Store) : Prop
    extends Uncommitted s calls t where
  files : ∀ k id b, t.files k id = some b ↔ ∃ c ∈ done, c.kind = k ∧ c.id = id ∧ c.tile = some b
  blobIds : ∀ k, t.blobIds k = (done.filter (·.kind = k)).map Call.id
  view : ∀ id, t.view id = (after s.tiles (done ++ [c]) id).isSome

theorem Staged.setRow (h : Staged s calls done t) :
    Viewing s calls done c { t with view := Function.update t.view c.id c.tile.isSome } := by
  refine ⟨⟨h.tiles, h.rasTiles, h.commits, h.commitLock, h.abortLock, h.file⟩, h.files, h.blobIds, fun id => ?_⟩
  rw [after_concat]
  by_cases hid : id = c.id
  · subst hid
    rw [Function.update_self]
    exact Function.update_self ..
  · rw [Function.update_of_ne hid, ← h.view]
    exact Function.update_of_ne hid ..

/-- The row of a blob that is updated stays. -/
theorem Staged.viewing_update (h : Staged s calls done t) (hview : t.view id = true) :
    Viewing s calls done (.updateInDb id data) t := by
  have hset := h.setRow (c := .updateInDb id data)
  have hsame : Function.update t.view id true = t.view := by
    rw [← hview]
    exact Function.update_eq_self ..
  rwa [show (Call.updateInDb id data).tile.isSome = true from rfl,
    show (Call.updateInDb id data).id = id from rfl, hsame] at hset

theorem ends_openFile (hclean : Clean s (done ++ c :: rest)) (htile : c.tile = some data) (truncate : Bool) :
    Ends (Before s (done ++ c :: rest)) (Viewing s (done ++ c :: rest) done c)
      (openFile c.kind truncate c.id) fun _ => Writing s (done ++ c :: rest) done c data 0 := by
  refine Spec.call fun t h => ?_
  have hmem : c ∈ done ++ c :: rest := by simp
  have hnone : t.files c.kind c.id = none := by
    refine Option.eq_none_iff_forall_ne_some.mpr fun b hb => hclean.ne ?_
    obtain ⟨c', hc', -, heq, -⟩ := (h.files _ _ b).mp hb
    exact heq ▸ List.mem_map_of_mem hc'
  have hbytes : (if truncate then [] else (t.files c.kind c.id).getD []) = data.take 0 := by
    rw [hnone]
    exact ite_self _
  have hun := h.toUncommitted.put hmem (hclean.positive c hmem) (hclean.fits c hmem) htile 0
  exact ⟨_, by rw [hbytes], hun.before, hun, files_put hclean.ne fun k id b _ => h.files k id b, h.blobIds,
    h.view⟩

theorem ends_writeByte (hclean : Clean s (done ++ c :: rest)) (htile : c.tile = some data) :
    Ends (Before s (done ++ c :: rest)) (Writing s (done ++ c :: rest) done c data n)
      (writeByte c.kind c.id data n) fun _ => Writing s (done ++ c :: rest) done c data (n + 1) := by
  refine Spec.call fun t h => ?_
  have hfile : t.files c.kind c.id = some (data.take n) := (h.files _ _ _).mpr (.inr ⟨rfl, rfl, rfl⟩)
  have hmem : c ∈ done ++ c :: rest := by simp
  have hbytes : ((t.files c.kind c.id).map fun old => data.take (n + 1) ++ old.drop (n + 1))
      = some (data.take (n + 1)) := by
    rw [hfile, Option.map_some, List.drop_of_length_le, List.append_nil]
    exact (List.length_take_le n data).trans n.le_succ
  have hun := h.toUncommitted.put hmem (hclean.positive c hmem) (hclean.fits c hmem) htile (n + 1)
  refine ⟨_, by rw [hbytes], hun.before, hun, files_put hclean.ne fun k id b hother => ?_, h.blobIds, h.view⟩
  rw [h.files]
  exact or_iff_left fun hand => hother ⟨hand.1.symm, hand.2.1.symm⟩

theorem ends_writeData (hclean : Clean s (done ++ c :: rest)) (htile : c.tile = some data) (truncate : Bool) :
    Ends (Before s (done ++ c :: rest)) (Viewing s (done ++ c :: rest) done c)
      (writeData c.kind truncate c.id data)
      fun _ => Writing s (done ++ c :: rest) done c data data.length :=
  (ends_openFile hclean htile truncate).bind fun _ => Spec.each_range fun _ _ => ends_writeByte hclean htile

/-- The blob ids with the one of the call, which is made then. -/
theorem blobIds_concat {blobIds : Kind → List ℤ}
    (h : ∀ k, blobIds k = (done.filter (·.kind = k)).map Call.id) (k : Kind) :
    Function.update blobIds c.kind (blobIds c.kind ++ [c.id]) k
      = ((done ++ [c]).filter (·.kind = k)).map Call.id := by
  rw [List.filter_append, List.map_append]
  by_cases hk : k = c.kind
  · subst hk
    rw [Function.update_self, h]
    simp
  · rw [Function.update_of_ne hk, h]
    simp [Ne.symm hk]

theorem ends_pushBack_written (htile : c.tile = some data) :
    Ends (Before s calls) (Writing s calls done c data data.length) (pushBack c.kind c.id)
      fun _ => Staged s calls (done ++ [c]) := by
  refine Spec.call fun t h => ⟨_, rfl, ?_⟩
  have hun : Uncommitted s calls
      { t with blobIds := Function.update t.blobIds c.kind (t.blobIds c.kind ++ [c.id]) } :=
    ⟨h.tiles, h.rasTiles, h.commits, h.commitLock, h.abortLock, h.file⟩
  refine ⟨hun.before, hun, fun k id b => (h.files k id b).trans ?_, blobIds_concat h.blobIds, h.view⟩
  rw [List.take_length]
  simp only [List.mem_append, List.mem_singleton, or_and_right, exists_or, exists_eq_left, htile,
    Option.some.injEq]
  exact or_congr_right (and_congr_right fun _ => and_congr_right fun _ => eq_comm)

theorem ends_pushBack_nothing (htile : c.tile = none) :
    Ends (Before s calls) (Viewing s calls done c) (pushBack c.kind c.id)
      fun _ => Staged s calls (done ++ [c]) := by
  refine Spec.call fun t h => ⟨_, rfl, ?_⟩
  have hun : Uncommitted s calls
      { t with blobIds := Function.update t.blobIds c.kind (t.blobIds c.kind ++ [c.id]) } :=
    ⟨h.tiles, h.rasTiles, h.commits, h.commitLock, h.abortLock, h.file⟩
  refine ⟨hun.before, hun, fun k id b => (h.files k id b).trans ?_, blobIds_concat h.blobIds, h.view⟩
  simp [or_and_right, exists_or, htile]

/-- **A call that fits is made.** -/
theorem ends_exec (hs : Consistent s) (hclean : Clean s (done ++ c :: rest)) :
    Ends (Before s (done ++ c :: rest)) (Staged s (done ++ c :: rest) done) c.exec
      fun _ => Staged s (done ++ c :: rest) (done ++ [c]) := by
  have hmem : c ∈ done ++ c :: rest := by simp
  have hpos := hclean.positive c hmem
  have hfit := hclean.fits c hmem
  refine Spec.pointwise fun t h => ?_
  have hview : t.view c.id = s.rasTiles c.id := h.view_of_new hs hclean.ne
  have hset := h.setRow (c := c)
  cases c with
  | insertInDb id data =>
    refine Spec.look ?_
    rintro t rfl
    rw [if_neg (Bool.eq_false_iff.mp (show t.view id = false from hview.trans hfit))]
    refine Spec.bind (Q := fun _ => Viewing s _ done (.insertInDb id data))
      (Spec.call ?_) fun _ => (spec_blobPath fun _ _ => hpos).bind fun _ =>
        (ends_writeData hclean rfl false).bind fun _ => ends_pushBack_written rfl
    rintro t rfl
    exact ⟨_, rfl, hset.before, hset⟩
  | updateInDb id data =>
    refine Spec.look ?_
    rintro t rfl
    rw [if_pos (show t.view id = true from hview.trans hfit)]
    exact ((spec_blobPath fun _ _ => hpos).bind fun _ => (ends_writeData hclean rfl true).bind fun _ =>
      ends_pushBack_written rfl).from (h.viewing_update (hview.trans hfit))
  | deleteFromDb id =>
    refine Spec.look ?_
    rintro t rfl
    rw [if_pos (show t.view id = true from hview.trans hfit)]
    refine Spec.bind (Q := fun _ => Viewing s _ done (.deleteFromDb id))
      (Spec.call ?_) fun _ => (spec_blobPath fun _ _ => hpos).bind fun _ => ends_pushBack_nothing rfl
    rintro t rfl
    exact ⟨_, rfl, hset.before, hset⟩

end Rasdaman.BlobFS
