import Rasdaman.Relblobif.BlobFSSessions
import Mathlib.Data.List.Nodup

/-!
# Relblobif/BlobFSEndings — commit and abort

The phases of `TransactionIf::commit` and `abort` after the calls of a transaction: the tiles of deleted
blobs are set aside, the database commits, the directories are emptied; or the database rolls back, and
the directories are emptied the other way.
-/

namespace Rasdaman.BlobFS

open Crash Crash.Prog

variable {s t u v : Store} {calls : List Call} {c : Call} {k : Kind} {id : ℤ} {b : Blob} {all ids : List ℤ}
  {todo : List Kind}

/-! ## Tiles that are set aside -/

/-- Some of the blobs to delete are set aside. -/
structure Removing (s : Store) (all ids : List ℤ) (t : Store) : Prop where
  within : Within .remove s t
  commitLock : t.commitLock .remove = .free
  abortLock : t.abortLock .remove = ⟨true, true⟩
  blobIds : t.blobIds .remove = s.blobIds .remove
  tiles : ∀ id, t.tiles id = if id ∈ all ∧ id ∉ ids then none else s.tiles id
  files : ∀ id, t.files .remove id ≠ none ↔ id ∈ all ∧ id ∉ ids
  nodup : ids.Nodup
  subset : ∀ id ∈ ids, id ∈ all

theorem ends_moveToTmp (hall : ∀ id ∈ all, 0 < id ∧ s.tiles id ≠ none ∧ ∀ k, s.files k id = none) :
    Ends (Like s) (Removing s all (id :: ids)) (moveToTmp .remove id) fun _ => Removing s all ids := by
  refine Spec.pointwise fun t h => ?_
  have hmem : id ∈ all := h.subset id List.mem_cons_self
  obtain ⟨hnew, hnodup⟩ := List.nodup_cons.mp h.nodup
  obtain ⟨hpos, htile, hnone⟩ := hall id hmem
  refine (spec_blobPath fun _ _ => hpos).bind fun _ => Spec.call ?_
  rintro t rfl
  obtain ⟨b, hb⟩ := Option.ne_none_iff_exists'.mp htile
  have htile' : t.tiles id = some b := by rw [h.tiles, if_neg (by simp), hb]
  have hnone' : ∀ k, t.files k id = none := fun k => by
    by_cases hk : k = .remove
    · subst hk
      by_contra hne
      exact ((h.files id).mp hne).2 List.mem_cons_self
    · rw [h.within.files k hk, hnone]
  have hw := within_moveToTmp (k := .remove) h.within.sound hpos htile' hnone' (by
    rw [restores, h.commitLock, h.abortLock]
    rfl)
  refine ⟨_, by rw [htile'], (h.within.trans hw).toLike, h.within.trans hw, h.commitLock, h.abortLock, h.blobIds,
    fun id' => ?_, fun id' => ?_, hnodup, fun id' hid' => h.subset id' (List.mem_cons_of_mem _ hid')⟩
  · by_cases hid : id' = id
    · subst hid
      rw [if_pos ⟨hmem, hnew⟩]
      exact Function.update_self ..
    · refine (Function.update_of_ne hid ..).trans ((h.tiles id').trans ?_)
      simp [hid]
  · by_cases hid : id' = id
    · subst hid
      refine iff_of_true (fun hnil => ?_) ⟨hmem, hnew⟩
      cases (put_self ..).symm.trans hnil
    · refine (not_congr (Eq.congr_left (put_of_ne_id _ _ hid))).trans ((h.files id').trans ?_)
      simp [hid]

/-- **`preRasbaseCommit`** sets the tiles of the blobs to delete aside. -/
theorem ends_preRasbaseCommit (hs : Sound s) (hcommit : s.commitLock .remove = .free)
    (habort : s.abortLock .remove = .free) (hnodup : (s.blobIds .remove).Nodup)
    (hfiles : ∀ id, s.files .remove id = none)
    (hall : ∀ id ∈ s.blobIds .remove,
      0 < id ∧ s.tiles id ≠ none ∧ (∀ k, s.files k id = none) ∧ s.rasTiles id = true) :
    Ends (Like s) (· = s) preRasbaseCommit fun _ t => Within .remove s t ∧ t.commitLock .remove = .free ∧
      t.abortLock .remove = .free ∧ t.blobIds .remove = s.blobIds .remove ∧
      (∀ id, t.tiles id = if id ∈ s.blobIds .remove then none else s.tiles id) ∧
      ∀ id, t.files .remove id ≠ none ↔ id ∈ s.blobIds .remove := by
  refine Spec.look ?_
  rintro s rfl
  split
  case isTrue hnil =>
    refine Spec.ret ?_
    rintro s rfl
    refine ⟨.refl hs, hcommit, habort, rfl, fun id => ?_, fun id => ?_⟩
    · rw [hnil, if_neg List.not_mem_nil]
    · rw [hnil, hfiles]
      simp
  refine Spec.bind (Q := fun _ => Removing s (s.blobIds .remove) (s.blobIds .remove)) (Spec.call ?_) fun _ => ?_
  · rintro s rfl
    have hw := within_abortLock (k := .remove) (a := (s.abortLock .remove).lock) hs
      fun id hne => absurd (hfiles id) hne
    refine ⟨_, rfl, hw.toLike, hw, hcommit, ?_, rfl, fun id => ?_, fun id => ?_, hnodup, fun _ hid => hid⟩
    · dsimp only
      rw [Function.update_self, habort]
      rfl
    · rw [if_neg (by simp)]
    · exact iff_of_false (by simpa using hfiles id) (by simp)
  refine Spec.bind (Spec.each (fun id ids => ends_moveToTmp fun id hid =>
    ⟨(hall id hid).1, (hall id hid).2.1, (hall id hid).2.2.1⟩) _) fun _ => Spec.call fun t h => ⟨_, rfl, ?_⟩
  have hmem : ∀ id, t.files .remove id ≠ none ↔ id ∈ s.blobIds .remove := fun id => by simpa using h.files id
  -- without the lock the rows, which are still there, decide
  have hw := within_abortLock (k := .remove) (a := (t.abortLock .remove).unlock) h.within.sound fun id hne => by
    rw [restores, h.commitLock, h.abortLock, h.within.rasTiles, (hall id ((hmem id).mp hne)).2.2.2]
    rfl
  refine ⟨(h.within.trans hw).toLike, h.within.trans hw, h.commitLock, ?_, h.blobIds, fun id => ?_, hmem⟩
  · dsimp only
    rw [Function.update_self, h.abortLock]
    rfl
  · exact (h.tiles id).trans (by simp)

/-! ## The directories are emptied -/

/-- Some transactions are ended. -/
structure Ended (s : Store) (todo : List Kind) (t : Store) : Prop where
  like : Like s t
  view : t.view = s.view
  files : ∀ k ∈ todo, t.files k = s.files k
  blobIds : ∀ k ∈ todo, t.blobIds k = s.blobIds k
  commitLock : ∀ k, t.commitLock k = .free
  abortLock : ∀ k, t.abortLock k = .free
  empty : ∀ k ∉ todo, (∀ id, t.files k id = none) ∧ t.blobIds k = []

/-- One transaction more is ended. -/
theorem Ended.next (h : Ended s (k :: todo) t) (hk : k ∉ todo) (hlike : Like s u) (hw : Within k t u)
    (hfiles : ∀ id, u.files k id = none) (hids : u.blobIds k = []) (hcommit : u.commitLock k = .free)
    (habort : u.abortLock k = .free) : Ended s todo u := by
  have hne : ∀ k' ∈ todo, k' ≠ k := fun k' hk' heq => hk (heq ▸ hk')
  refine ⟨hlike, hw.view.trans h.view, fun k' hk' => ?_, fun k' hk' => ?_, fun k' => ?_, fun k' => ?_,
    fun k' hk' => ?_⟩
  · rw [hw.files k' (hne k' hk'), h.files k' (List.mem_cons_of_mem _ hk')]
  · rw [hw.blobIds k' (hne k' hk'), h.blobIds k' (List.mem_cons_of_mem _ hk')]
  · by_cases heq : k' = k
    · rw [heq, hcommit]
    · rw [hw.commitLock k' heq, h.commitLock]
  · by_cases heq : k' = k
    · rw [heq, habort]
    · rw [hw.abortLock k' heq, h.abortLock]
  · by_cases heq : k' = k
    · subst heq
      exact ⟨hfiles, hids⟩
    · rw [hw.files k' heq, hw.blobIds k' heq]
      exact h.empty k' (by simpa [heq] using hk')

theorem Ended.idle (h : Ended s [] t) : Idle t :=
  ⟨fun k => (h.empty k List.not_mem_nil).1, h.commitLock, h.abortLock, fun k => (h.empty k List.not_mem_nil).2⟩

theorem Ended.ready (h : Ended s (k :: todo) t) (hs : Ready k s) : Ready k t := by
  refine ⟨h.like.sound, ?_, ?_⟩
  · rw [h.blobIds k List.mem_cons_self]
    exact hs.nodup
  · rw [h.files k List.mem_cons_self, h.blobIds k List.mem_cons_self]
    exact hs.listed

theorem ends_postCommit_next (hk : k ∉ todo) (hs : Ready k s)
    (hfate : ∀ id ∈ s.blobIds k, s.rasTiles id = (k != .remove)) :
    Ends (Like s) (Ended s (k :: todo)) (postCommit k) fun _ => Ended s todo := by
  refine Spec.pointwise fun t h => ?_
  have hspec := ends_postCommit (h.ready hs) (by rw [h.commitLock]; rfl) fun id hid => by
    rw [restores, h.commitLock, h.abortLock, h.like.rasTiles]
    exact hfate id (by rwa [h.blobIds k List.mem_cons_self] at hid)
  refine (hspec.passing fun _ hw => h.like.trans hw.toLike).post fun _ u hu => ?_
  obtain ⟨hfin, hcommit, habort⟩ := hu
  refine h.next hk (h.like.trans hfin.within.toLike) hfin.within hfin.files hfin.blobIds ?_ ?_
  · rw [hcommit, h.commitLock]
    exact ite_self _
  · rw [habort, h.abortLock]

/-- **`postRasbaseCommit`** empties the directories, where the database says the same. -/
theorem ends_postRasbaseCommit (hs : ∀ k, Ready k s) (hcommit : ∀ k, s.commitLock k = .free)
    (habort : ∀ k, s.abortLock k = .free)
    (hfate : ∀ k, ∀ id ∈ s.blobIds k, s.rasTiles id = (k != .remove)) :
    Ends (Like s) (· = s) postRasbaseCommit fun _ t => Ended s [] t := by
  have hstart : Ended s [.insert, .update, .remove] s :=
    ⟨.refl (hs .insert).sound, rfl, fun _ _ => rfl, fun _ _ => rfl, hcommit, habort,
      fun k hk => absurd (by cases k <;> decide) hk⟩
  exact Spec.bind ((ends_postCommit_next (by decide) (hs .insert) (hfate .insert)).from hstart) fun _ =>
    Spec.bind (ends_postCommit_next (by decide) (hs .update) (hfate .update)) fun _ =>
      ends_postCommit_next (by decide) (hs .remove) (hfate .remove)

/-! ## The calls are made -/

/-- A transaction is over, with given tiles and a number of COMMITs. -/
structure Over (ts : ℤ → Option Blob) (n : ℕ) (t : Store) : Prop where
  idle : Idle t
  tiles : t.tiles = ts
  rasTiles : ∀ id, t.rasTiles id = (ts id).isSome
  commits : t.commits = n

theorem Clean.nodup_kind (h : Clean s calls) (k : Kind) : ((calls.filter (·.kind = k)).map Call.id).Nodup :=
  h.nodup.sublist (List.filter_sublist.map _)

theorem Staged.mem_blobIds (h : Staged s calls calls t) :
    id ∈ t.blobIds k ↔ ∃ c ∈ calls, c.kind = k ∧ c.id = id := by
  rw [h.blobIds]
  simp [and_assoc]

/-- The tile of a blob that is not deleted is in a file. -/
theorem Call.tile_isSome (c : Call) : c.tile.isSome = (c.kind != .remove) := by cases c <;> rfl

theorem Call.row_of_fits (hc : c.Fits s) : s.rasTiles c.id = (c.kind != .insert) := by
  cases c with
  | insertInDb id data => exact hc
  | updateInDb id data => exact hc
  | deleteFromDb id => exact hc

/-- Two calls on one blob are one. -/
theorem Clean.unique (h : Clean s calls) {c c' : Call} (hc : c ∈ calls) (hc' : c' ∈ calls) (hid : c.id = c'.id) :
    c = c' :=
  List.inj_on_of_nodup_map h.nodup hc hc' hid

theorem Staged.file_of_mem (h : Staged s calls calls t) (hc : c ∈ calls) (htile : c.tile = some b) :
    t.files c.kind c.id = some b :=
  (h.files _ _ _).mpr ⟨c, hc, rfl, rfl, htile⟩

/-- A blob that is deleted has no file before the COMMIT. -/
theorem Staged.no_file (h : Staged s calls calls t) (hclean : Clean s calls) (hc : c ∈ calls)
    (htile : c.tile = none) (k : Kind) : t.files k c.id = none := by
  refine Option.eq_none_iff_forall_ne_some.mpr fun b hb => ?_
  obtain ⟨c', hc', -, hid, htile'⟩ := (h.files k c.id b).mp hb
  rw [hclean.unique hc' hc hid, htile] at htile'
  cases htile'

theorem Staged.ready (h : Staged s calls calls t) (hclean : Clean s calls) (hk : k ≠ .remove) : Ready k t := by
  refine ⟨h.sound, by rw [h.blobIds]; exact hclean.nodup_kind k, fun id => ?_⟩
  rw [h.mem_blobIds, Option.ne_none_iff_exists']
  constructor
  · rintro ⟨b, hb⟩
    obtain ⟨c, hc, hkind, hid, -⟩ := (h.files k id b).mp hb
    exact ⟨c, hc, hkind, hid⟩
  · rintro ⟨c, hc, rfl, rfl⟩
    have hsome : c.tile.isSome = true := by
      rw [c.tile_isSome]
      exact bne_iff_ne.mpr hk
    obtain ⟨b, hb⟩ := Option.isSome_iff_exists.mp hsome
    exact ⟨b, h.file_of_mem hc hb⟩

/-- Nothing is in the directory of the remove transaction yet. -/
theorem Staged.remove_empty (h : Staged s calls calls t) (id : ℤ) : t.files .remove id = none := by
  refine Option.eq_none_iff_forall_ne_some.mpr fun b hb => ?_
  obtain ⟨c, hc, hkind, -, htile⟩ := (h.files .remove id b).mp hb
  have hsome := c.tile_isSome
  rw [hkind, htile] at hsome
  cases hsome

/-! ## Abort -/

/-- A store an abort gets back from: what the files in the directories are, and what it stands for. -/
structure Revertible (s : Store) (calls : List Call) (t : Store) : Prop where
  covered : ∀ k, Covered k t
  rasTiles : t.rasTiles = s.rasTiles
  commits : t.commits = s.commits
  commitLock : ∀ k, t.commitLock k = .free
  abortLock : ∀ k, t.abortLock k = .free
  row : ∀ k id, t.files k id ≠ none → s.rasTiles id = (k != .insert)
  updated : ∀ id b, t.files .update id = some b →
    t.tiles id = s.tiles id ∧ ∃ data n, Call.updateInDb id data ∈ calls ∧ b = data.take n
  logical : ∀ id, t.files .update id = none → logical t id = s.tiles id

theorem Revertible.restores (h : Revertible s calls t) (hne : t.files k id ≠ none) :
    restores t k id = (k != .insert) := by
  rw [BlobFS.restores, h.commitLock, h.abortLock, h.rasTiles, ← h.row k id hne]
  rfl

theorem Revertible.before (h : Revertible s calls t) : Before s calls t := by
  refine ⟨(h.covered .insert).sound, h.rasTiles, h.commits, fun id => ?_⟩
  cases hf : t.files .update id with
  | none => exact .inl (h.logical id hf)
  | some b =>
    obtain ⟨-, data, n, hcall, rfl⟩ := h.updated id b hf
    refine .inr ⟨data, n, hcall, ?_⟩
    rw [logical_of_file (h.covered .update).sound hf, h.restores (by simp [hf])]
    rfl

/-- The lock of an abort, where there is something to treat. -/
def lockedForAbort (k : Kind) (t : Store) : Store :=
  { t with
    abortLock := Function.update t.abortLock k (if t.blobIds k = [] then t.abortLock k else ⟨true, true⟩) }

theorem lockedForAbort_of_nil (h : t.blobIds k = []) : lockedForAbort k t = t := by
  rw [lockedForAbort, if_pos h, Function.update_eq_self]

theorem lockedForAbort_of_ne (h : t.blobIds k ≠ []) :
    lockedForAbort k t = { t with abortLock := Function.update t.abortLock k ⟨true, true⟩ } := by
  rw [lockedForAbort, if_neg h]

/-- Where the abort does what the database says, the lock is not seen. -/
theorem Revertible.like_locked (h : Revertible s calls t) (hk : k ≠ .update) : Like t (lockedForAbort k t) := by
  refine (within_abortLock (k := k) (h.covered k).sound fun id hne => ?_).toLike
  rw [h.restores hne, h.commitLock]
  by_cases hnil : t.blobIds k = []
  · exact absurd ((h.covered k).listed id hne) (by simp [hnil])
  · rw [if_neg hnil]
    cases k with
    | insert => rfl
    | update => exact absurd rfl hk
    | remove => rfl

/-- **The lock of the update transaction** takes the updates back. -/
theorem Revertible.logical_locked (h : Revertible s calls t) (id : ℤ) :
    BlobFS.logical (lockedForAbort .update t) id = s.tiles id := by
  cases hf : t.files .update id with
  | none =>
    rw [← h.logical id hf]
    refine logical_congr (fun k => ?_) rfl
    by_cases hk : k = .update
    · subst hk
      rw [restored_of_none hf, restored_of_none (s := lockedForAbort .update t) hf]
    · refine if_congr (Eq.congr_left ?_) rfl rfl
      rw [BlobFS.restores, BlobFS.restores, lockedForAbort]
      dsimp only
      rw [Function.update_of_ne hk]
  | some b =>
    have hmem := (h.covered .update).listed id (by simp [hf])
    rw [lockedForAbort_of_ne (List.ne_nil_of_mem hmem)]
    have hsound := (h.covered .update).sound
    rw [logical_of_file (s := { t with abortLock := Function.update t.abortLock .update ⟨true, true⟩ })
      ⟨hsound.positive, hsound.single⟩ hf, if_neg]
    · exact (h.updated id b hf).1
    · rw [BlobFS.restores]
      dsimp only
      rw [Function.update_self, h.commitLock]
      exact Bool.false_ne_true

theorem Revertible.before_locked (h : Revertible s calls t) : Before s calls (lockedForAbort k t) := by
  by_cases hk : k = .update
  · subst hk
    have hsound := (h.covered .update).sound
    exact ⟨⟨hsound.positive, hsound.single⟩, h.rasTiles, h.commits, fun id => .inl (h.logical_locked id)⟩
  · exact h.before.like (h.like_locked hk)

/-- Some transactions are taken back. -/
structure Reverting (s : Store) (calls : List Call) (todo : List Kind) (t : Store) : Prop
    extends Revertible s calls t where
  empty : ∀ k ∉ todo, (∀ id, t.files k id = none) ∧ t.blobIds k = []

/-- One transaction more is taken back. -/
theorem Reverting.next (h : Reverting s calls (k :: todo) t) (hu : Finished k (lockedForAbort k t) u)
    (hcommit : u.commitLock k = .free) (habort : u.abortLock k = .free)
    (htiles : ∀ id, u.files .update id ≠ none → u.tiles id = t.tiles id) : Reverting s calls todo u := by
  have hfile : ∀ {k' id}, u.files k' id ≠ none → k' ≠ k ∧ u.files k' = t.files k' := fun {k' id} hne => by
    have hk : k' ≠ k := fun heq => hne (heq ▸ hu.files id)
    exact ⟨hk, hu.within.files k' hk⟩
  refine ⟨⟨fun k' => ?_, hu.within.rasTiles.trans h.rasTiles, hu.within.commits.trans h.commits, fun k' => ?_,
    fun k' => ?_, fun k' id hne => ?_, fun id b hb => ?_, fun id hnone => ?_⟩, fun k' hk' => ?_⟩
  · by_cases hk : k' = k
    · subst hk
      refine ⟨hu.within.sound, ?_, ?_, fun id hne => absurd (hu.files id) hne⟩ <;> rw [hu.blobIds]
      · exact List.nodup_nil
      · exact nofun
    · have hids : u.blobIds k' = t.blobIds k' := hu.within.blobIds k' hk
      have hfiles : u.files k' = t.files k' := hu.within.files k' hk
      refine ⟨hu.within.sound, ?_, ?_, ?_⟩
      · rw [hids]
        exact (h.covered k').nodup
      · rw [hids]
        exact (h.covered k').positive
      · rw [hids, hfiles]
        exact (h.covered k').listed
  · by_cases hk : k' = k
    · rw [hk, hcommit]
    · exact (hu.within.commitLock k' hk).trans (h.commitLock k')
  · by_cases hk : k' = k
    · rw [hk, habort]
    · refine (hu.within.abortLock k' hk).trans (Eq.trans ?_ (h.abortLock k'))
      exact Function.update_of_ne hk ..
  · rw [(hfile hne).2] at hne
    exact h.row k' id hne
  · have hne : u.files .update id ≠ none := by simp [hb]
    rw [htiles id hne]
    rw [(hfile hne).2] at hb
    exact h.updated id b hb
  · rw [hu.within.logical]
    by_cases hk : k = .update
    · subst hk
      exact h.logical_locked id
    · rw [(h.like_locked hk).logical]
      refine h.logical id ?_
      rwa [hu.within.files .update (Ne.symm hk)] at hnone
  · by_cases hk : k' = k
    · subst hk
      exact ⟨hu.files, hu.blobIds⟩
    · rw [hu.within.files k' hk, hu.within.blobIds k' hk]
      exact h.empty k' (by simpa [hk] using hk')

/-- The abort of the insert transaction does not touch the tiles. -/
theorem keeps_tiles_postAbort (ts : ℤ → Option Blob) :
    Spec (fun _ => True) (fun t => t.tiles = ts) (postAbort .insert) (fun _ t => t.tiles = ts)
      fun _ _ => True := by
  refine Spec.look ?_
  rintro t rfl
  split
  · exact Spec.ret fun u hu => hu ▸ rfl
  refine Spec.bind (Q := fun _ (u : Store) => u.tiles = t.tiles)
    (Spec.call fun u hu => ⟨_, rfl, trivial, hu ▸ rfl⟩) fun _ => ?_
  refine Spec.bind (Spec.each (I := fun _ (u : Store) => u.tiles = t.tiles) (fun id _ => ?_) _) fun _ => ?_
  · refine Spec.bind (Q := fun _ (u : Store) => u.tiles = t.tiles) ?_ fun _ => Spec.call fun u hu => ⟨_, rfl, trivial, hu⟩
    rw [blobPath]
    split
    · exact Spec.ret fun _ hu => hu
    · exact Spec.raise fun _ _ => trivial
  · exact Spec.bind (Spec.call fun u hu => ⟨_, rfl, trivial, hu⟩) fun _ =>
      Spec.call fun u hu => ⟨_, rfl, trivial, hu⟩

theorem ends_postAbort_reverting (h : Reverting s calls (k :: todo) t) :
    Ends (Before s calls) (· = t) (postAbort k) fun _ u => Finished k (lockedForAbort k t) u ∧
      u.commitLock k = .free ∧ u.abortLock k = .free := by
  have hcovered := h.covered k
  have hspec := ends_postAbort (u := lockedForAbort k t) hcovered (by rw [h.commitLock]; rfl)
    (by rw [h.abortLock]; rfl) (fun hnil => by rw [lockedForAbort_of_nil hnil]; exact .refl hcovered.sound) (by
      by_cases hnil : t.blobIds k = []
      · rw [lockedForAbort_of_nil hnil]
        refine within_abortLock hcovered.sound fun id hne => absurd (hcovered.listed id hne) (by simp [hnil])
      · rw [lockedForAbort_of_ne hnil]
        exact .refl ⟨hcovered.sound.positive, hcovered.sound.single⟩)
  refine (hspec.passing fun _ hw => h.before_locked.like hw.toLike).post fun _ u hu => ?_
  obtain ⟨hfin, hcommit, habort⟩ := hu
  refine ⟨hfin, hcommit.trans (h.commitLock k), habort.trans ?_⟩
  rw [h.abortLock]
  exact ite_self _


theorem ends_postRasbaseAbort (hs : Consistent s) :
    Ends (Before s calls) (Revertible s calls) postRasbaseAbort fun _ => Over s.tiles s.commits := by
  refine Spec.bind (Q := fun _ => Reverting s calls [.update, .remove]) (Spec.pointwise fun t h => ?_) fun _ =>
    Spec.bind (Q := fun _ => Reverting s calls [.remove]) (Spec.pointwise fun t h => ?_) fun _ =>
      Spec.pointwise fun t h => ?_
  · have hstart : Reverting s calls [.insert, .update, .remove] t :=
      ⟨h, fun k hk => absurd (by cases k <;> decide) hk⟩
    refine ((ends_postAbort_reverting hstart).and (keeps_tiles_postAbort t.tiles)).conseq
      (fun _ ht => ⟨ht, ht ▸ rfl⟩) (fun _ => And.left) (fun _ u hu => ?_) fun _ _ => And.left
    exact hstart.next hu.1.1 hu.1.2.1 hu.1.2.2 fun _ _ => congrFun hu.2 _
  · exact (ends_postAbort_reverting h).post fun _ u hu =>
      h.next hu.1 hu.2.1 hu.2.2 fun id hne => absurd (hu.1.files id) hne
  · refine (ends_postAbort_reverting h).post fun _ u hu => ?_
    have hend := h.next hu.1 hu.2.1 hu.2.2 fun id hne => by
      rw [hu.1.within.files .update nofun] at hne
      exact absurd ((h.empty .update (by decide)).1 id) hne
    have hidle : Idle u := ⟨fun k => (hend.empty k List.not_mem_nil).1, hend.commitLock, hend.abortLock,
      fun k => (hend.empty k List.not_mem_nil).2⟩
    refine ⟨hidle, funext fun id => ?_, fun id => by rw [hend.rasTiles, hs], hend.commits⟩
    rw [← hidle.logical, hend.logical id (hidle.files .update id)]

/-- **Abort** ends, and the tiles are those of the start. -/
theorem ends_abort (hs : Consistent s) :
    Ends (Before s calls) (Revertible s calls) abort fun _ => Over s.tiles s.commits := by
  refine Spec.bind (Q := fun _ => Revertible s calls) (Spec.call fun t h => ⟨_, rfl, ?_⟩) fun _ =>
    ends_postRasbaseAbort hs
  have hview : Revertible s calls { t with view := t.rasTiles } :=
    ⟨fun k => ⟨⟨(h.covered k).sound.positive, (h.covered k).sound.single⟩, (h.covered k).nodup,
      (h.covered k).positive, (h.covered k).listed⟩, h.rasTiles, h.commits, h.commitLock, h.abortLock, h.row,
      h.updated, h.logical⟩
  exact ⟨hview.before, hview⟩

/-- An abort may come once the calls are made. -/
theorem Staged.revertible (h : Staged s calls calls t) (hclean : Clean s calls) : Revertible s calls t := by
  refine ⟨fun k => ?_, h.rasTiles, h.commits, h.commitLock, h.abortLock, fun k id hne => ?_, fun id b hb => ?_,
    fun id hnone => ?_⟩
  · by_cases hk : k = .remove
    · subst hk
      refine ⟨h.sound, by rw [h.blobIds]; exact hclean.nodup_kind _, fun id hid => ?_,
        fun id hne => absurd (h.remove_empty id) hne⟩
      obtain ⟨c, hc, -, rfl⟩ := h.mem_blobIds.mp hid
      exact hclean.positive c hc
    · exact (h.ready hclean hk).covered
  · obtain ⟨b, hb⟩ := Option.ne_none_iff_exists'.mp hne
    rcases (h.file k id b hb).2 with ⟨rfl, hrow⟩ | ⟨rfl, hrow, -⟩ <;> exact hrow
  · rcases (h.file .update id b hb).2 with ⟨hk, -⟩ | ⟨-, -, hcall⟩
    · cases hk
    · exact ⟨by rw [h.tiles], hcall⟩
  · by_cases hall : ∀ k, t.files k id = none
    · rw [logical_of_none hall, h.tiles]
    obtain ⟨k, hk⟩ := not_forall.mp hall
    obtain ⟨b, hb⟩ := Option.ne_none_iff_exists'.mp hk
    rcases (h.file k id b hb).2 with ⟨rfl, hrow⟩ | ⟨rfl, -⟩
    · rw [logical_of_file h.sound hb, h.restores, hrow, h.tiles]
      rfl
    · cases hnone.symm.trans hb

/-! ## Commit -/

/-- All calls are made, and the tiles of the deleted blobs are set aside. -/
structure Prepared (s : Store) (calls : List Call) (t : Store) : Prop extends Revertible s calls t where
  tiles : ∀ id, (∀ c ∈ calls, c.id ≠ id) → t.tiles id = s.tiles id
  deleted : ∀ c ∈ calls, c.tile = none → t.tiles c.id = none
  written : ∀ c ∈ calls, ∀ b, c.tile = some b → t.files c.kind c.id = some b
  listed : ∀ k id, t.files k id ≠ none ↔ id ∈ t.blobIds k
  blobIds : ∀ k, t.blobIds k = (calls.filter (·.kind = k)).map Call.id
  view : ∀ id, t.view id = (after s.tiles calls id).isSome

/-- An abort may still come when the tiles of deleted blobs are set aside. -/
theorem Revertible.aside (h : Revertible s calls t) (hw : Within .remove t u)
    (hcommit : u.commitLock .remove = .free) (habort : u.abortLock .remove = .free)
    (hids : u.blobIds .remove = t.blobIds .remove)
    (hfiles : ∀ id, u.files .remove id ≠ none → id ∈ t.blobIds .remove)
    (hall : ∀ id ∈ t.blobIds .remove, s.rasTiles id = true ∧ t.files .update id = none)
    (htiles : ∀ id ∉ t.blobIds .remove, u.tiles id = t.tiles id) : Revertible s calls u := by
  refine ⟨fun k => ?_, hw.rasTiles.trans h.rasTiles, hw.commits.trans h.commits, fun k => ?_, fun k => ?_,
    fun k id hne => ?_, fun id b hb => ?_, fun id hnone => ?_⟩
  · by_cases hk : k = .remove
    · subst hk
      refine ⟨hw.sound, ?_, ?_, ?_⟩ <;> rw [hids]
      · exact (h.covered .remove).nodup
      · exact (h.covered .remove).positive
      · exact hfiles
    · refine ⟨hw.sound, ?_, ?_, ?_⟩ <;> rw [hw.blobIds k hk]
      · exact (h.covered k).nodup
      · exact (h.covered k).positive
      · rw [hw.files k hk]
        exact (h.covered k).listed
  · by_cases hk : k = .remove
    · rw [hk, hcommit]
    · rw [hw.commitLock k hk, h.commitLock]
  · by_cases hk : k = .remove
    · rw [hk, habort]
    · rw [hw.abortLock k hk, h.abortLock]
  · by_cases hk : k = .remove
    · subst hk
      exact (hall id (hfiles id hne)).1
    · rw [hw.files k hk] at hne
      exact h.row k id hne
  · rw [hw.files .update nofun] at hb
    rw [htiles id fun hid => by rw [(hall id hid).2] at hb; cases hb]
    exact h.updated id b hb
  · rw [hw.logical]
    refine h.logical id ?_
    rwa [hw.files .update nofun] at hnone

theorem ends_prepare (hs : Consistent s) (hclean : Clean s calls) :
    Ends (Before s calls) (Staged s calls calls) preRasbaseCommit fun _ => Prepared s calls := by
  refine Spec.pointwise fun t h => ?_
  have hremove : ∀ id ∈ t.blobIds .remove, ∃ c ∈ calls, c.kind = .remove ∧ c.id = id ∧ c.tile = none := by
    intro id hid
    obtain ⟨c, hc, hkind, rfl⟩ := h.mem_blobIds.mp hid
    refine ⟨c, hc, hkind, rfl, Option.isNone_iff_eq_none.mp ?_⟩
    rw [← Option.not_isSome, c.tile_isSome, hkind]
    rfl
  have hall : ∀ id ∈ t.blobIds .remove,
      0 < id ∧ t.tiles id ≠ none ∧ (∀ k, t.files k id = none) ∧ t.rasTiles id = true := by
    intro id hid
    obtain ⟨c, hc, hkind, rfl, htile⟩ := hremove id hid
    have hrow : s.rasTiles c.id = true := by
      rw [Call.row_of_fits (hclean.fits c hc), hkind]
      rfl
    refine ⟨hclean.positive c hc, ?_, h.no_file hclean hc htile, by rw [h.rasTiles, hrow]⟩
    rw [h.tiles]
    exact Option.isSome_iff_ne_none.mp ((hs c.id).symm.trans hrow)
  have hspec := ends_preRasbaseCommit h.sound (h.commitLock _) (h.abortLock _)
    (by rw [h.blobIds]; exact hclean.nodup_kind _) h.remove_empty hall
  refine (hspec.passing fun _ hl => h.before.like hl).post fun _ u hu => ?_
  obtain ⟨hw, hcommit, habort, hids, htiles, hfiles⟩ := hu
  have hids' : u.blobIds = t.blobIds := funext fun k => by
    by_cases hk : k = .remove
    · rw [hk, hids]
    · exact hw.blobIds k hk
  have haside := (h.revertible hclean).aside hw hcommit habort hids (fun id => (hfiles id).mp)
    (fun id hid => ⟨h.rasTiles ▸ (hall id hid).2.2.2, (hall id hid).2.2.1 .update⟩) fun id hid => by
      rw [htiles, if_neg hid]
  refine ⟨haside, fun id hid => ?_, fun c hc htile => ?_, fun c hc b htile => ?_, fun k id => ?_, ?_, ?_⟩
  · rw [htiles, if_neg, h.tiles]
    intro hmem
    obtain ⟨c, hc, -, heq, -⟩ := hremove id hmem
    exact hid c hc heq
  · rw [htiles, if_pos (h.mem_blobIds.mpr ⟨c, hc, ?_, rfl⟩)]
    have hsome := c.tile_isSome
    rw [htile] at hsome
    exact not_not.mp fun hne => Bool.false_ne_true (hsome.trans (bne_iff_ne.mpr hne))
  · have hk : c.kind ≠ .remove := by
      have hsome := c.tile_isSome
      rw [htile] at hsome
      exact bne_iff_ne.mp hsome.symm
    rw [hw.files c.kind hk]
    exact h.file_of_mem hc htile
  · rw [hids']
    by_cases hk : k = .remove
    · rw [hk, hfiles]
    · rw [hw.files k hk]
      exact (h.ready hclean hk).listed id
  · rw [hids']
    exact h.blobIds
  · rw [hw.view]
    exact h.view

/-- **The COMMIT** makes the store stand for the tiles of the end. -/
theorem Prepared.after_commit (h : Prepared s calls t) (hclean : Clean s calls) :
    After s calls { t with rasTiles := t.view, commits := t.commits + 1 } := by
  set u : Store := { t with rasTiles := t.view, commits := t.commits + 1 } with hu
  have hsound : Sound u := ⟨(h.covered .insert).sound.positive, (h.covered .insert).sound.single⟩
  have hrestores : ∀ k id, restores u k id = (after s.tiles calls id).isSome := fun k id => by
    rw [restores, show u.commitLock = t.commitLock from rfl, show u.abortLock = t.abortLock from rfl,
      h.commitLock, h.abortLock]
    exact h.view id
  refine ⟨hsound, h.view, congrArg (· + 1) h.commits, fun id => ?_⟩
  by_cases hmem : ∃ c ∈ calls, c.id = id
  · obtain ⟨c, hc, rfl⟩ := hmem
    have hafter : after s.tiles calls c.id = c.tile := after_of_mem hclean.nodup hc
    cases htile : c.tile with
    | some b =>
      have hfile : u.files c.kind c.id = some b := h.written c hc b htile
      rw [logical_of_file hsound hfile, hrestores, hafter, htile]
      rfl
    | none =>
      obtain ⟨b, hb⟩ := Option.ne_none_iff_exists'.mp ((h.listed c.kind c.id).mpr (by
        rw [h.blobIds]
        exact List.mem_map_of_mem (List.mem_filter.mpr ⟨hc, decide_eq_true rfl⟩)))
      have hfile : u.files c.kind c.id = some b := hb
      rw [logical_of_file hsound hfile, hrestores, hafter, htile]
      exact h.deleted c hc htile
  · have hnone : ∀ c ∈ calls, c.id ≠ id := fun c hc heq => hmem ⟨c, hc, heq⟩
    rw [after_of_not_mem (by simpa using hnone), logical_of_none fun k => ?_]
    · exact h.tiles id hnone
    · by_contra hne
      have hid := (h.listed k id).mp hne
      rw [h.blobIds] at hid
      obtain ⟨c, hc, heq⟩ := List.mem_map.mp hid
      exact hnone c (List.mem_of_mem_filter hc) heq

/-- **Commit** ends, and the tiles are those of the end. -/
theorem ends_commit (hs : Consistent s) (hclean : Clean s calls) :
    Ends (Interim s calls) (Staged s calls calls) (commit true)
      fun _ => Over (after s.tiles calls) (s.commits + 1) := by
  have hprepare := (ends_prepare hs hclean).passing (C := Interim s calls) fun _ => .inl
  have hcommit : Ends (Interim s calls) (Prepared s calls) (commitTransaction true)
      fun _ t => ∃ u, Prepared s calls u ∧ t = { u with rasTiles := u.view, commits := u.commits + 1 } :=
    Spec.call fun t h => ⟨_, rfl, .inr (h.after_commit hclean), t, h, rfl⟩
  refine Spec.bind ((hprepare.bind fun _ => hcommit).handle fun _ _ hfalse => hfalse.elim) fun _ => ?_
  refine Spec.pointwise ?_
  rintro _ ⟨t, h, rfl⟩
  have hafter := h.after_commit hclean
  have hspec := ends_postRasbaseCommit (s := { t with rasTiles := t.view, commits := t.commits + 1 })
    (fun k => ⟨hafter.sound, by rw [h.blobIds]; exact hclean.nodup_kind k, h.listed k⟩) h.commitLock h.abortLock
    fun k id hid => ?_
  · refine (hspec.passing fun _ hl => .inr (hafter.like hl)).post fun _ u hu => ?_
    have hend := hafter.like hu.like
    exact ⟨hu.idle, funext fun id => by rw [← hu.idle.logical, hend.tiles], hend.rasTiles, hend.commits⟩
  · have hid' := hid
    simp only [h.blobIds, List.mem_map, List.mem_filter, decide_eq_true_eq] at hid'
    obtain ⟨c, ⟨hc, rfl⟩, rfl⟩ := hid'
    rw [show (Store.rasTiles _ c.id) = _ from h.view c.id, after_of_mem hclean.nodup hc, c.tile_isSome]

/-- **A COMMIT that is refused** is answered by an abort. -/
theorem spec_commit_refused (hs : Consistent s) (hclean : Clean s calls) :
    Spec (Interim s calls) (Staged s calls calls) (commit false) (fun _ _ => False)
      fun e t => e = .commitFailed ∧ Over s.tiles s.commits t := by
  have hprepare := (ends_prepare hs hclean).passing (C := Interim s calls) fun _ => .inl
  have hcommit : Spec (Interim s calls) (Staged s calls calls) (do preRasbaseCommit; commitTransaction false)
      (fun _ _ => False) fun e t => e = .commitFailed ∧ Revertible s calls t :=
    Spec.bind (hprepare.conseq (fun _ => id) (fun _ => id) (fun _ _ => id) fun _ _ => False.elim) fun _ t h =>
      ⟨by rintro _ (_ | _), rfl, h.toRevertible⟩
  refine Spec.bind (hcommit.handle fun e => ?_) fun _ _ hfalse => hfalse.elim
  refine Spec.bind (Q := fun _ t => e = .commitFailed ∧ Over s.tiles s.commits t) ?_ fun _ =>
    Spec.raise fun _ => id
  intro t ht
  obtain ⟨hpasses, hend⟩ := ((ends_abort hs).passing (C := Interim s calls) fun _ => .inl) t ht.2
  refine ⟨hpasses, ?_⟩
  rcases hrun : (abort t).2 with ⟨_ | _, u⟩ <;> rw [hrun] at hend
  · exact hend.elim
  · exact ⟨ht.1, hend⟩

/-! ## A whole transaction -/

/-- What a transaction leaves when the server lives on. -/
def Settled (s : Store) (calls : List Call) : Ending → Store → Prop
  | .commit true => Over (after s.tiles calls) (s.commits + 1)
  | _ => Over s.tiles s.commits

theorem ends_beginTransaction (hidle : Idle s) (hs : Consistent s) :
    Ends (Before s calls) (· = s) beginTransaction fun _ => Staged s calls [] := by
  refine Spec.call ?_
  rintro s rfl
  have hstart : Staged s calls [] { s with view := s.rasTiles } := by
    refine ⟨⟨rfl, rfl, rfl, hidle.commitLock, hidle.abortLock, fun k id b hb => ?_⟩, fun k id b => ?_,
      hidle.blobIds, hs⟩
    · cases (hidle.files k id).symm.trans hb
    · simp [hidle.files]
  exact ⟨_, rfl, hstart.before, hstart⟩

/-- The calls made and those that are left. -/
structure Midway (s : Store) (calls done rest : List Call) (t : Store) : Prop extends Staged s calls done t where
  split : done ++ rest = calls

theorem ends_exec_midway (hs : Consistent s) (hclean : Clean s calls) (done : List Call) (c : Call)
    (rest : List Call) :
    Ends (Before s calls) (Midway s calls done (c :: rest)) c.exec fun _ => Midway s calls (done ++ [c]) rest := by
  refine Spec.pointwise fun t h => ?_
  obtain rfl := h.split
  exact ((ends_exec hs hclean).from h.toStaged).post fun _ u hu => ⟨hu, by simp⟩

theorem ends_work (hidle : Idle s) (hs : Consistent s) (hclean : Clean s calls) :
    Ends (Before s calls) (· = s) (work calls) fun _ => Staged s calls calls := by
  refine (ends_beginTransaction hidle hs).bind fun _ => ?_
  refine ((Spec.each (I := fun rest t => ∃ done, Midway s calls done rest t) (fun c rest => ?_) calls).weaken
    fun t h => ⟨[], h, rfl⟩).post ?_
  · refine Spec.pointwise fun t ⟨done, h⟩ => ?_
    exact ((ends_exec_midway hs hclean done c rest).from h).post fun _ u hu => ⟨done ++ [c], hu⟩
  · rintro _ t ⟨done, h⟩
    have hall := h.split
    rw [List.append_nil] at hall
    exact hall ▸ h.toStaged

/-- **A transaction** ends as it is asked to, and raises where its COMMIT is refused only. -/
theorem spec_session (hidle : Idle s) (hs : Consistent s) (hclean : Clean s calls) (ending : Ending) :
    Spec (Interim s calls) (· = s) (session calls ending) (fun _ => Settled s calls ending)
      fun e t => e = .commitFailed ∧ ending = .commit false ∧ Settled s calls ending t := by
  have hwork : Spec (Interim s calls) (· = s) (work calls) (fun _ => Staged s calls calls)
      fun e t => e = .commitFailed ∧ ending = .commit false ∧ Settled s calls ending t :=
    (ends_work hidle hs hclean).conseq (fun _ => id) (fun _ => .inl) (fun _ _ => id) fun _ _ => False.elim
  refine hwork.bind fun _ => ?_
  match ending with
  | .commit true =>
    exact (ends_commit hs hclean).conseq (fun _ => id) (fun _ => id) (fun _ _ => id) fun _ _ => False.elim
  | .commit false =>
    exact (spec_commit_refused hs hclean).conseq (fun _ => id) (fun _ => id) (fun _ _ => False.elim)
      fun _ _ ht => ⟨ht.1, rfl, ht.2⟩
  | .abort =>
    exact (ends_abort hs).conseq (fun _ h => h.revertible hclean) (fun _ => .inl) (fun _ _ => id)
      fun _ _ => False.elim

end Rasdaman.BlobFS
