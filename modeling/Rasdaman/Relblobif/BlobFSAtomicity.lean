import Rasdaman.Relblobif.BlobFSEndings
import Mathlib.Data.List.Dedup

/-!
# Relblobif/BlobFSAtomicity — tiles and database after crashes

A server may be gone after any call of a transaction, and the one that recovers may be gone too.  Whatever
comes, the tiles and RAS_TILES agree afterwards, and the COMMIT of the database decides between the tiles
of the start and those of the end, except that an update is visible from its first byte on.
-/

namespace Rasdaman.BlobFS

open Crash Crash.Prog

variable {s t u v s₀ : Store} {calls done rest : List Call} {c : Call} {ending : Ending} {id : ℤ} {data b : Blob}
  {ls : List (Kind × List ℤ)} {n : ℕ}

/-- Recoveries that are cut off, one after another. -/
def Interruptions : Store → Store → Prop :=
  Interrupted restart (fun ls s => Listings ls s) finalizeUncompletedTransactions

/-! ## One crash -/

theorem Interim.sound (h : Interim s calls t) : Sound t := h.elim Before.sound After.sound

/-- Recoveries that are cut off do not change what the store stands for. -/
theorem like_of_interruptions (ht : Sound t) (h : Interruptions t u) : Like t u :=
  Interrupted.inv (C := Like t) (fun _ hs => hs.trans (like_restart hs.sound))
    (fun _ _ hs hls => (ends_finalizeUncompletedTransactions hs.sound hls).conseq (fun _ => id)
      (fun _ => hs.trans) (fun _ _ _ => trivial) fun _ _ => False.elim) h (.refl ht)

/-- **A recovery makes what the store stood for at the crash.** -/
theorem final_of_interruptions (ht : Sound t) (h : Interruptions t u) (hls : Listings ls (restart u)) :
    ∃ v, (finalizeUncompletedTransactions ls).final (restart u) = some v ∧ Idle v ∧ v.tiles = logical t ∧
      v.rasTiles = t.rasTiles ∧ v.commits = t.commits := by
  have hlike := like_of_interruptions ht h
  obtain ⟨-, v, hfinal, hidle, htiles, hrow, hcommits, -⟩ :=
    (ends_finalizeUncompletedTransactions hlike.sound hls).final rfl
  exact ⟨v, hfinal, hidle, by rw [htiles]; exact funext hlike.logical, hrow.trans hlike.rasTiles,
    hcommits.trans hlike.commits⟩

theorem interim_of_passes (hidle : Idle s) (hs : Consistent s) (hclean : Clean s calls)
    (hcrash : (session calls ending).Passes s t) : Interim s calls t := by
  refine (spec_session hidle hs hclean ending).passes rfl (.inl ?_) hcrash
  exact ⟨hidle.sound, rfl, rfl, fun id => .inl (hidle.logical id)⟩

/-- What an update leaves is a tile. -/
theorem Before.consistent (h : Before s calls t) (hs : Consistent s) (hclean : Clean s calls) (id : ℤ) :
    t.rasTiles id = (logical t id).isSome := by
  rw [h.rasTiles]
  rcases h.tile id with heq | ⟨data, n, hcall, heq⟩ <;> rw [heq]
  · exact hs id
  · exact hclean.fits _ hcall

/-- What a recovery makes of a transaction: the COMMIT is there, with all tiles, or it is not, and the
tiles are those of the start or the first bytes of an update. -/
def Recovered (s : Store) (calls : List Call) (v : Store) : Prop :=
  v.commits = s.commits + 1 ∧ v.tiles = after s.tiles calls ∨
    v.commits = s.commits ∧ v.rasTiles = s.rasTiles ∧ ∀ id, v.tiles id = s.tiles id ∨
      ∃ data n, Call.updateInDb id data ∈ calls ∧ v.tiles id = some (data.take n)

/-- A recovery from inside of a transaction, itself cut off any number of times. -/
theorem final_of_interim (hinterim : Interim s calls t) (hs : Consistent s) (hclean : Clean s calls)
    (hcut : Interruptions t u) (hls : Listings ls (restart u)) :
    ∃ v, (finalizeUncompletedTransactions ls).final (restart u) = some v ∧ Idle v ∧ Consistent v ∧
      v.commits = t.commits ∧ Recovered s calls v := by
  obtain ⟨v, hfinal, hidle', htiles, hrow, hcommits⟩ := final_of_interruptions hinterim.sound hcut hls
  refine ⟨v, hfinal, hidle', fun id => ?_, hcommits, ?_⟩
  · rw [htiles, hrow]
    rcases hinterim with h | h
    · exact h.consistent hs hclean id
    · rw [h.rasTiles, h.tiles]
  · rcases hinterim with h | h
    · refine .inr ⟨hcommits.trans h.commits, hrow.trans h.rasTiles, fun id => ?_⟩
      rw [htiles]
      exact h.tile id
    · exact .inl ⟨hcommits.trans h.commits, htiles.trans (funext h.tiles)⟩

/-- Two tiles. -/
def sample : Store where
  tiles id := if id = 1 then some [1] else if id = 2 then some [2] else none
  files _ _ := none
  commitLock _ := .free
  abortLock _ := .free
  blobIds _ := []
  rasTiles id := ((if id = 1 then some [1] else if id = 2 then some [2] else none) : Option Blob).isSome
  commits := 0
  view _ := false

def sampleCalls : List Call := [.updateInDb 1 [7]]

theorem idle_sample : Idle sample := ⟨fun _ _ => rfl, fun _ => rfl, fun _ => rfl, fun _ => rfl⟩

theorem clean_sample : Clean sample sampleCalls := ⟨by decide, by decide, by decide⟩

/-- The state when the file of the update is opened. -/
def sampleCrash : Store := ((session sampleCalls .abort) sample).1.getD 1 sample

/-- The transactions with a COMMIT. -/
def record (log : List (List Call)) (s t : Store) (calls : List Call) : List (List Call) :=
  if t.commits = s.commits then log else log ++ [calls]

/-- Transactions one after another, each ended or cut off by a crash with its recoveries. -/
inductive Run (s₀ : Store) (cut : List Call → Prop) : List (List Call) → Store → Prop
  | start : Run s₀ cut [] s₀
  | ended {log s calls} (ending : Ending) (hrun : Run s₀ cut log s) (hclean : Clean s calls) :
      Run s₀ cut (record log s (session calls ending s).2.2 calls) (session calls ending s).2.2
  | crashed {log s calls ending t u ls v} (hrun : Run s₀ cut log s) (hclean : Clean s calls) (hcut : cut calls)
      (hcrash : (session calls ending).Passes s t) (hcuts : Interruptions t u) (hls : Listings ls (restart u))
      (hfinal : (finalizeUncompletedTransactions ls).final (restart u) = some v) :
      Run s₀ cut (record log s v calls) v

/-- The tiles after the transactions of a log. -/
def replay (tiles : ℤ → Option Blob) (log : List (List Call)) : ℤ → Option Blob := log.foldl after tiles

/-- The tile of a blob after some calls depends on the one before only. -/
theorem after_congr {f g : ℤ → Option Blob} (h : f id = g id) : after f calls id = after g calls id := by
  induction calls using List.reverseRecOn with
  | nil => exact h
  | append_singleton calls c ih =>
    rw [after_concat, after_concat]
    by_cases hid : id = c.id
    · rw [hid, Function.update_self, Function.update_self]
    · rw [Function.update_of_ne hid, Function.update_of_ne hid, ih]

/-- What a transaction leaves, whether it raises or not. -/
theorem settled_of_session (hidle : Idle s) (hs : Consistent s) (hclean : Clean s calls) (ending : Ending) :
    Settled s calls ending (session calls ending s).2.2 := by
  have hend := (spec_session hidle hs hclean ending s rfl).2
  rcases hrun : (session calls ending s).2 with ⟨_ | _, t⟩ <;> rw [hrun] at hend
  · exact hend.2.2
  · exact hend

/-- What a log of transactions stands for. -/
structure Logged (s₀ : Store) (cut : List Call → Prop) (log : List (List Call)) (s : Store) : Prop where
  idle : Idle s
  consistent : Consistent s
  commits : s.commits = s₀.commits + log.length
  tiles : ∀ id, (∀ calls, cut calls → ∀ data, Call.updateInDb id data ∉ calls) →
    s.tiles id = replay s₀.tiles log id

variable {cut : List Call → Prop} {log : List (List Call)}

/-- A transaction is over, with its COMMIT or without. -/
theorem Logged.next (h : Logged s₀ cut log s) (hidle : Idle v) (hs : Consistent v)
    (hend : v.commits = s.commits + 1 ∧ v.tiles = after s.tiles calls ∨ v.commits = s.commits ∧
      ∀ id, (∀ calls, cut calls → ∀ data, Call.updateInDb id data ∉ calls) → v.tiles id = s.tiles id) :
    Logged s₀ cut (record log s v calls) v := by
  rcases hend with ⟨hcommits, htiles⟩ | ⟨hcommits, htiles⟩
  · rw [record, if_neg (by omega)]
    refine ⟨hidle, hs, ?_, fun id hid => ?_⟩
    · rw [hcommits, h.commits, List.length_append]
      rfl
    · rw [replay, List.foldl_concat, htiles]
      exact after_congr (h.tiles id hid)
  · rw [record, if_pos hcommits]
    exact ⟨hidle, hs, hcommits.trans h.commits, fun id hid => (htiles id hid).trans (h.tiles id hid)⟩

/-- **Every run** keeps the tiles and RAS_TILES in step, and a blob that no transaction updates which is
cut off has the tile that the transactions with a COMMIT give it, one after another. -/
theorem logged_of_run (hidle : Idle s₀) (hs : Consistent s₀) (hrun : Run s₀ cut log s) :
    Logged s₀ cut log s := by
  induction hrun with
  | start => exact ⟨hidle, hs, rfl, fun _ _ => rfl⟩
  | @ended log s calls ending _ hclean ih =>
    have hend := settled_of_session ih.idle ih.consistent hclean ending
    match ending with
    | .commit true =>
      refine ih.next hend.idle (fun id => ?_) (.inl ⟨hend.commits, hend.tiles⟩)
      rw [hend.rasTiles, hend.tiles]
    | .commit false =>
      refine ih.next hend.idle (fun id => ?_) (.inr ⟨hend.commits, fun id _ => congrFun hend.tiles id⟩)
      rw [hend.rasTiles, hend.tiles]
    | .abort =>
      refine ih.next hend.idle (fun id => ?_) (.inr ⟨hend.commits, fun id _ => congrFun hend.tiles id⟩)
      rw [hend.rasTiles, hend.tiles]
  | @crashed log s calls ending t u ls v _ hclean hcut hcrash hcuts hls hfinal ih =>
    obtain ⟨w, hw, hidle', hs', -, hrec⟩ :=
      final_of_interim (interim_of_passes ih.idle ih.consistent hclean hcrash) ih.consistent hclean hcuts hls
    obtain rfl : v = w := Option.some.inj (hfinal.symm.trans hw)
    refine ih.next hidle' hs' (hrec.imp_right fun h => ⟨h.1, fun id hid => ?_⟩)
    exact (h.2.2 id).resolve_right fun ⟨data, _, hcall, _⟩ => hid calls hcut data hcall

/-- The store when the update of the sample is over. -/
def sampleEnd : Store := (session sampleCalls (.commit true) sample).2.2

theorem logged_of_run_sample :
    Logged sample (fun _ => False) (record [] sample sampleEnd sampleCalls) sampleEnd :=
  logged_of_run idle_sample (fun _ => rfl) (.ended (.commit true) .start clean_sample)

/-! ## Updates are not atomic -/

/-- A store with finitely many files can be listed. -/
theorem exists_listings {ids : List ℤ} (h : ∀ k id, t.files k id ≠ none → id ∈ ids) :
    ∃ ls, Listings ls (restart t) := by
  refine ⟨[.insert, .update, .remove].map fun k =>
    (k, ids.dedup.filter fun id => (t.files k id).isSome), ?_, ?_, ?_⟩
  · exact show [Kind.insert, .update, .remove].Nodup by decide
  · intro k
    cases k <;> simp
  · intro l hl
    obtain ⟨k, -, rfl⟩ := List.mem_map.mp hl
    refine ⟨ids.nodup_dedup.filter _, fun id => ?_⟩
    rw [List.mem_filter, List.mem_dedup, Option.isSome_iff_ne_none]
    exact ⟨fun hne => ⟨h k id hne, hne⟩, And.right⟩

/-- A crash before the COMMIT, with what the recovery makes of a blob. -/
structure Midpoint (s : Store) (calls : List Call) (id : ℤ) (b : Blob) (t : Store) : Prop
    extends Uncommitted s calls t where
  updated : t.files .update id = some b
  finite : ∃ ids : List ℤ, ∀ k id, t.files k id ≠ none → id ∈ ids

theorem Midpoint.logical (h : Midpoint s calls id b t) : logical t id = some b := by
  obtain ⟨-, ⟨hk, -⟩ | ⟨-, hrow, -⟩⟩ := h.file .update id b h.updated
  · cases hk
  · rw [logical_of_file h.sound h.updated, h.restores, hrow]
    rfl

theorem Writing.midpoint (h : Writing s calls done (.updateInDb id data) data n t) :
    Midpoint s calls id (data.take n) t := by
  refine ⟨h.toUncommitted, (h.files _ _ _).mpr (.inr ⟨rfl, rfl, rfl⟩), id :: done.map Call.id, ?_⟩
  intro k id' hne
  obtain ⟨b, hb⟩ := Option.ne_none_iff_exists'.mp hne
  rcases (h.files k id' b).mp hb with ⟨c, hc, -, rfl, -⟩ | ⟨-, rfl, -⟩
  · exact List.mem_cons_of_mem _ (List.mem_map_of_mem hc)
  · exact List.mem_cons_self

theorem Staged.midpoint (h : Staged s calls (done ++ [Call.updateInDb id data]) t) : Midpoint s calls id data t := by
  refine ⟨h.toUncommitted, (h.files _ _ _).mpr ⟨.updateInDb id data, by simp, rfl, rfl, rfl⟩,
    (done ++ [Call.updateInDb id data]).map Call.id, fun k id' hne => ?_⟩
  by_contra hid
  exact hne (h.file_none hid)

/-- An update passes through the empty tile and through the new one. -/
theorem visits_update (hs : Consistent s) (hclean : Clean s calls) (hb : b = [] ∨ b = data)
    (done rest : List Call) :
    Visits (Midway s calls done (.updateInDb id data :: rest)) (Call.updateInDb id data).exec
      (Midpoint s calls id b) := by
  intro t h
  obtain rfl := h.split
  have hmem : Call.updateInDb id data ∈ done ++ .updateInDb id data :: rest := by simp
  have hview : t.view id = true :=
    (h.view_of_new hs hclean.ne : t.view id = s.rasTiles id).trans (hclean.fits _ hmem)
  set all := done ++ .updateInDb id data :: rest
  have hset : Viewing s all done (.updateInDb id data) t := h.viewing_update hview
  refine Visits.look (P := (· = t)) ?_ t rfl
  rintro t rfl
  rw [if_pos hview]
  have hpath : Ends (Before s all) (Viewing s all done (.updateInDb id data)) (blobPath id)
      fun _ => Viewing s all done (.updateInDb id data) :=
    spec_blobPath fun _ _ => hclean.positive _ hmem
  refine Visits.conseq (.right hpath fun _ => ?_) (fun _ ht => ht ▸ hset) fun _ ht => ht
  rcases hb with rfl | rfl
  · refine .left (.left (.conseq (.call (ends_openFile hclean rfl true)) (fun _ ht => ht) fun _ hw => ?_) _) _
    exact hw.midpoint
  · refine .right (ends_writeData hclean rfl true) fun _ => ?_
    exact .conseq (.call (ends_pushBack_written rfl)) (fun _ ht => ht) fun _ => Staged.midpoint

/-- What the recovery makes of each crash before the COMMIT are the tiles of the start. -/
def Atomic (s : Store) (calls : List Call) (ending : Ending) : Prop :=
  ∀ t u ls v, (session calls ending).Passes s t → t.commits = s.commits → Interruptions t u →
    Listings ls (restart u) → (finalizeUncompletedTransactions ls).final (restart u) = some v → v.tiles = s.tiles

/-- **A transaction is atomic** if and only if it updates nothing, but empty tiles by empty tiles. -/
theorem atomic_iff_updates (hidle : Idle s) (hs : Consistent s) (hclean : Clean s calls) (ending : Ending) :
    Atomic s calls ending ↔ ∀ id data, Call.updateInDb id data ∈ calls → s.tiles id = some [] ∧ data = [] := by
  constructor
  · intro hatomic id data hcall
    have hpass : ∀ b, b = [] ∨ b = data → s.tiles id = some b := by
      intro b hb
      obtain ⟨first, rest, rfl⟩ := List.append_of_mem hcall
      have hwork : Visits (· = s) (work (first ++ .updateInDb id data :: rest)) (Midpoint s _ id b) :=
        .right ((ends_beginTransaction hidle hs).post fun _ t ht => ⟨ht, rfl⟩) fun _ =>
          Visits.each (ends_exec_midway hs hclean) (fun done => visits_update hs hclean hb done rest) first []
      obtain ⟨t, ht, hmid⟩ := hwork.left (fun _ => ending.exec) s rfl
      obtain ⟨ids, hids⟩ := hmid.finite
      obtain ⟨ls, hls⟩ := exists_listings hids
      obtain ⟨v, hfinal, -, htiles, -⟩ := final_of_interruptions hmid.sound .refl hls
      rw [← hatomic t t ls v (.inr ht) hmid.commits .refl hls hfinal, htiles, hmid.logical]
    exact ⟨hpass [] (.inl rfl), Option.some.inj ((hpass data (.inr rfl)).symm.trans (hpass [] (.inl rfl)))⟩
  · intro hupdates t u ls v hcrash hcommits hcut hls hfinal
    obtain ⟨w, hw, -, -, hcommits', hrec⟩ :=
      final_of_interim (interim_of_passes hidle hs hclean hcrash) hs hclean hcut hls
    obtain rfl : v = w := Option.some.inj (hfinal.symm.trans hw)
    rcases hrec with ⟨hmore, -⟩ | ⟨-, -, htiles⟩
    · omega
    · funext id
      rcases htiles id with heq | ⟨data, n, hcall, heq⟩
      · exact heq
      · obtain ⟨hempty, rfl⟩ := hupdates id data hcall
        rw [heq, hempty, List.take_nil]

theorem atomic_iff_updates_sample : ¬Atomic sample sampleCalls .abort := fun hatomic =>
  have hupdates := (atomic_iff_updates idle_sample (fun _ => rfl) clean_sample .abort).mp hatomic
  List.cons_ne_nil 7 [] (hupdates 1 [7] List.mem_cons_self).2

end Rasdaman.BlobFS
