import Rasdaman.Reladminif.OIdIf

/-!
# Reladminif/TransactionIf — transactions that draw object ids

`begin` loads the counters of object ids from the database, `commit` writes them back and `abort` does not.
The servers are processes of their own that share the database; their transactions do not overlap.

The ids that `commit` draws while it clears the `ObjectBroker` count as drawn before it.  Counters stay
below `2^31`, so the columns hold them.

The object ids of a run are those of a store of counters from which sessions draw (`Tracks`), so none is
given out twice (`oids_unique`).
-/

namespace Rasdaman

open OIdIf Counters Machine

namespace TransactionIf

variable {σ : Type} [DecidableEq σ]

/-- Ids of one type that `allocateOId` gave out. -/
structure Allocation where
  type : OIdType
  first : ℕ
  howMany : ℕ

/-- Servers on one database.  `rasCounters` is what the last committed transaction wrote; `allocated` and
`committed` record what the open transaction and the committed ones have allocated. -/
structure System (σ : Type) where
  servers : σ → OIdIf.Server
  rasCounters : Rows
  inTransaction : Option σ
  allocated : List Allocation
  committed : List Allocation

/-- What a server does. -/
inductive Event (σ : Type)
  | begin (s : σ) (readOnly : Bool)
  | allocateOId (s : σ) (type : OIdType) (howMany : ℕ)
  | commit (s : σ)
  | abort (s : σ)
  | crash (s : σ)

/-- The static data of a server that has just started. -/
def startServer : OIdIf.Server := ⟨fun _ => 0, false, false, false, false⟩

namespace System

variable (S : System σ)

/-- The system with another state of one server. -/
def setServer (s : σ) (sv : OIdIf.Server) : System σ := { S with servers := Function.update S.servers s sv }

/-- The system without a transaction; the database has rolled it back or committed it. -/
def finish : System σ := { S with inTransaction := none, allocated := [] }

/-- `begin`.  When `initialize` raises, no transaction begins. -/
def begin (s : σ) (readOnly : Bool) : System σ :=
  let sv := { S.servers s with isReadOnly := readOnly, aborted := false, readOnlyTA := readOnly }
  match initializeOIds S.rasCounters sv with
  | .ok sv => { S.setServer s sv with inTransaction := some s, allocated := [] }
  | .error sv => S.setServer s sv

/-- A call of `allocateOId`; when it raises, nothing changes. -/
def allocateOId (s : σ) (type : OIdType) (howMany : ℕ) : System σ :=
  match OIdIf.allocateOId (S.servers s) type howMany with
  | .ok (oid, sv) => { S.setServer s sv with allocated := S.allocated ++ [⟨type, oid, howMany⟩] }
  | .error _ => S

/-- `abort`: the database rolls back what `deinitialize` may have written. -/
def abort (s : σ) : System σ :=
  let sv := (deinitializeOIds S.rasCounters { S.servers s with aborted := true }).2
  (S.setServer s { sv with readOnlyTA := false }).finish

/-- `commit`. -/
def commit (s : σ) : System σ :=
  if (S.servers s).isReadOnly then S.abort s
  else
    let (rows, sv) := deinitializeOIds S.rasCounters { S.servers s with aborted := false }
    let S' := (S.setServer s { sv with readOnlyTA := false }).finish
    { S' with rasCounters := rows, committed := S.committed ++ S.allocated }

/-- A server process dies and starts again; the database rolls its transaction back. -/
def crash (s : σ) : System σ :=
  if S.inTransaction = some s then (S.setServer s startServer).finish
  else S.setServer s startServer

/-- One event. -/
def step : Event σ → System σ
  | .begin s readOnly => S.begin s readOnly
  | .allocateOId s type howMany => S.allocateOId s type howMany
  | .commit s => S.commit s
  | .abort s => S.abort s
  | .crash s => S.crash s

end System

/-- Transactions do not overlap, and ids are allocated inside of them. -/
def Enabled (S : System σ) : Event σ → Prop
  | .begin _ _ => S.inTransaction = none
  | .allocateOId s _ _ => S.inTransaction = some s
  | .commit s => S.inTransaction = some s
  | .abort s => S.inTransaction = some s
  | .crash _ => True

instance (S : System σ) (e : Event σ) : Decidable (Enabled S e) := by
  cases e <;> unfold Enabled <;> infer_instance

/-- Servers in any state on the database that `createDB` writes. -/
def created (servers : σ → OIdIf.Server) : System σ := ⟨servers, OIdIf.createDB, none, [], []⟩

/-! ## A run draws from a store of counters -/

/-- The batch of an allocation; its counter is the one `counterIds` points to. -/
def Allocation.batch (a : Allocation) : Batch (Option OIdCounter) :=
  ⟨counterIds a.type, a.first, a.howMany⟩

/-- The system and the store of counters agree: the rows hold what is stored, and the server in a
transaction has the counters of the session. -/
structure Tracks (S : System σ) (o : Office (Option OIdCounter)) : Prop where
  rows : Holds S.rasCounters fun c => o.stored (some c)
  kept : o.kept = S.committed.map Allocation.batch
  session : ∀ s, S.inTransaction = some s →
    (S.servers s).loadedOk = true ∧ (S.servers s).readOnlyTA = (S.servers s).isReadOnly ∧
      (∀ c, o.next (some c) = (S.servers s).next c) ∧ o.drawn = S.allocated.map Allocation.batch

theorem tracks_created (servers : σ → OIdIf.Server) :
    Tracks (created servers) ⟨fun _ => 1, fun _ => 1, [], []⟩ where
  rows := holds_createDB
  kept := rfl
  session := fun s hs => nomatch hs

variable {S : System σ} {o : Office (Option OIdCounter)}

/-- Without a transaction only the rows and what is committed matter. -/
theorem Tracks.finish (h : Tracks S o) (s : σ) (sv : OIdIf.Server) :
    Tracks (S.setServer s sv).finish o where
  rows := h.rows
  kept := h.kept
  session := fun s hs => nomatch hs

theorem Tracks.begin (h : Tracks S o) (s : σ) (readOnly : Bool) :
    Tracks (S.begin s readOnly) (Counters.step o .reload) := by
  rw [System.begin]
  simp only [initializeOIds_eq h.rows]
  refine ⟨h.rows, h.kept, fun s' hs => ?_⟩
  obtain rfl := Option.some.inj hs
  simp [System.setServer, Counters.step]

theorem Tracks.abort (h : Tracks S o) (s : σ) : Tracks (S.abort s) o := h.finish s _

theorem Tracks.crash (h : Tracks S o) (s : σ) : Tracks (S.crash s) o := by
  rw [System.crash]
  split
  · exact h.finish s _
  · next hs =>
    refine ⟨h.rows, h.kept, fun s' hs' => ?_⟩
    have hne : s' ≠ s := fun heq => hs (heq ▸ hs')
    simpa [System.setServer, hne] using h.session s' hs'

theorem Tracks.allocateOId (h : Tracks S o) {s : σ} (hs : S.inTransaction = some s) (type : OIdType)
    (howMany : ℕ) : ∃ ms, Tracks (S.allocateOId s type howMany) (run Counters.step o ms) := by
  obtain ⟨hloaded, hflag, hnext, hdrawn⟩ := h.session s hs
  rw [System.allocateOId, OIdIf.allocateOId]
  by_cases hzero : howMany = 0
  · exact ⟨[], by rw [if_pos hzero]; exact h⟩
  by_cases htype : type = .invalid ∨ type = .innerOId ∨ type = .atomicTypeOId ∨
      type.ctorIdx > maxCounter
  · exact ⟨[], by rw [if_neg hzero, if_pos htype]; exact h⟩
  rw [if_neg hzero, if_neg htype]
  cases hc : counterIds type with
  | none => exact ⟨[], h⟩
  | some c =>
    refine ⟨[.draw (some c) howMany], h.rows, h.kept, fun s' hs' => ?_⟩
    obtain rfl : s = s' := Option.some.inj (hs.symm.trans hs')
    simp only [System.setServer, Function.update_self]
    refine ⟨hloaded, hflag, fun c' => ?_, ?_⟩
    · by_cases hcc : c' = c
      · subst hcc
        simp [run, Counters.step, hnext]
      · simp [run, Counters.step, hnext, hcc]
    · simp [run, Counters.step, hdrawn, hnext, Allocation.batch, hc]

theorem Tracks.commit (h : Tracks S o) {s : σ} (hs : S.inTransaction = some s) :
    ∃ ms, Tracks (S.commit s) (run Counters.step o ms) := by
  obtain ⟨hloaded, hflag, hnext, hdrawn⟩ := h.session s hs
  rw [System.commit]
  by_cases hro : (S.servers s).isReadOnly = true
  · rw [if_pos hro]
    exact ⟨[], h.abort s⟩
  · rw [if_neg hro]
    refine ⟨[.keep], ?_, ?_, fun s hs => nomatch hs⟩
    · have hro' : (S.servers s).isReadOnly = false := by simpa using hro
      have hwritten : Holds (written _ { S.servers s with aborted := false }) (S.servers s).next :=
        holds_written h.rows hloaded (hflag.trans hro') rfl
      intro p hp
      exact (hwritten p hp).trans (congrArg some (hnext p.2).symm)
    · simp [run, Counters.step, h.kept, hdrawn]

/-- Each event is some moves of the store of counters. -/
theorem Tracks.step (h : Tracks S o) {e : Event σ} (he : Enabled S e) :
    ∃ ms, Tracks (S.step e) (run Counters.step o ms) := by
  cases e with
  | begin s readOnly => exact ⟨[.reload], h.begin s readOnly⟩
  | allocateOId s type howMany => exact h.allocateOId he type howMany
  | commit s => exact h.commit he
  | abort s => exact ⟨[], h.abort s⟩
  | crash s => exact ⟨[], h.crash s⟩

/-- So is each run. -/
theorem Tracks.run {es : List (Event σ)} (h : Tracks S o) (hes : Along System.step Enabled S es) :
    ∃ ms, Tracks (Machine.run System.step S es) (Machine.run Counters.step o ms) := by
  induction es generalizing S o with
  | nil => exact ⟨[], h⟩
  | cons e es ih =>
    obtain ⟨he, hes⟩ := hes
    obtain ⟨ms, hstep⟩ := h.step he
    obtain ⟨ms', hrun⟩ := ih hstep hes
    exact ⟨ms ++ ms', by rwa [run_append]⟩

/-! ## No id is given out twice -/

/-- The ids of an allocation. -/
def Allocation.ids (a : Allocation) : Finset ℕ := Finset.Ico a.first (a.first + a.howMany)

/-- The types of ids that share a counter have rows with the same value. -/
def SharedAgree (rows : Rows) : Prop :=
  ∀ type type' c, counterIds type = some c → counterIds type' = some c →
    ∃ n, rows.lookup (counterNames type) = some n ∧ rows.lookup (counterNames type') = some n

theorem mem_counters {type : OIdType} {c : OIdCounter} (h : counterIds type = some c) :
    (counterNames type, c) ∈ counters := by
  refine List.mem_filterMap.mpr ⟨type, ?_, by rw [h, Option.map_some]⟩
  cases type <;> decide

theorem sharedAgree_of_holds {rows : Rows} {value : OIdCounter → ℕ} (h : Holds rows value) :
    SharedAgree rows := fun _ _ c htype htype' =>
  ⟨value c, h _ (mem_counters htype), h _ (mem_counters htype')⟩

/-- **Object ids are never given out twice.**  After every run on a new database the committed
transactions have allocated disjoint ids from each counter, and the rows of a shared counter agree. -/
theorem oids_unique (servers : σ → OIdIf.Server) (es : List (Event σ))
    (h : Along System.step Enabled (created servers) es) :
    ((run System.step (created servers) es).committed.Pairwise fun a a' =>
        counterIds a.type = counterIds a'.type → Disjoint a.ids a'.ids) ∧
      SharedAgree (run System.step (created servers) es).rasCounters := by
  obtain ⟨ms, htracks⟩ := (tracks_created servers).run h
  have happart := ((fresh_init fun _ => 1).run ms).kept_apart
  rw [htracks.kept, List.pairwise_map] at happart
  exact ⟨happart, sharedAgree_of_holds htracks.rows⟩

/-- Two servers draw ids of two types that share a counter, and a transaction between them aborts. -/
def twoServers : List (Event Bool) :=
  [.begin true false, .allocateOId true .blobOId 3, .commit true,
    .begin false false, .allocateOId false .inlineTileOId 5, .abort false,
    .begin false false, .allocateOId false .inlineTileOId 2, .commit false]

theorem oids_unique_twoServers :
    let S := run System.step (created fun _ => startServer) twoServers
    (S.committed.map fun a => (a.first, a.howMany)) = [(1, 3), (4, 2)] ∧
      (S.committed.Pairwise fun a a' =>
        counterIds a.type = counterIds a'.type → Disjoint a.ids a'.ids) ∧
      SharedAgree S.rasCounters := by
  refine ⟨by decide, oids_unique _ twoServers ⟨?_, ?_, ?_, ?_, ?_, ?_, ?_, ?_, ?_, trivial⟩⟩
  all_goals decide

end TransactionIf

end Rasdaman
