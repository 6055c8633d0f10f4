import Rasdaman.Machinery.Machine

/-!
# Servercomm/Transactions — the transaction semaphore of the server

All clients of a server share one connection to the base DBMS, so `TransactionIf::commit` and `abort`
end whatever is open there, and so does closing a `DatabaseIf` that is still connected.  The semaphore
`transactionActive` is to keep the clients apart; `commitTA` and `abortTA` do not look at it.
-/

namespace Rasdaman

open Machine

/-! ## Clients and the connection -/

/-- `DatabaseIf`. -/
structure DatabaseIf where
  opened : Bool := false
  connected : Bool := false
  deriving DecidableEq

/-- `ServerComm::ClientTblElt` with its `TransactionIf`, without the transfer structures. -/
structure ClientTblElt where
  clientId : ℕ
  currentUsers : ℕ := 0
  baseName : String := "none"
  database : DatabaseIf := {}
  isReadOnly : Bool := false
  deriving DecidableEq

/-- The base DBMS; they differ in what `BEGIN` does inside of a transaction. -/
inductive BaseDBMS
  | pgsql
  | sqlite
  deriving DecidableEq

/-- How a transaction ended. -/
inductive Ending
  | committed
  | rolledBack
  deriving DecidableEq

/-- `ServerComm`, with `TransactionIf::lastBase` (the client it belongs to), the clients whose
transaction is open on the connection, and the transactions that have ended. -/
structure ServerComm where
  clientTbl : List ClientTblElt := []
  clientCount : ℕ := 0
  transactionActive : ℕ := 0
  lastBase : Option ℕ := none
  openTAs : List ℕ := []
  endedTAs : List (ℕ × Ending) := []
  deriving DecidableEq

namespace ServerComm

/-- The entry of a client. -/
def entry (s : ServerComm) (client : ℕ) : Option ClientTblElt :=
  if client = 0 then none else s.clientTbl.find? (·.clientId == client)

/-- Change the entry of a client. -/
def modify (s : ServerComm) (client : ℕ) (f : ClientTblElt → ClientTblElt) : ServerComm :=
  { s with clientTbl := s.clientTbl.map fun e => if e.clientId = client then f e else e }

/-- Whether the database of a client is connected. -/
def connected (s : ServerComm) (client : ℕ) : Bool :=
  (s.entry client).any (·.database.connected)

def setConnected (s : ServerComm) (client : ℕ) (b : Bool) : ServerComm :=
  s.modify client fun e => { e with database.connected := b }

/-- `getClientContext`: the entry counts one user more. -/
def getClientContext (s : ServerComm) (client : ℕ) : ServerComm :=
  s.modify client fun e => { e with currentUsers := e.currentUsers + 1 }

/-- `ClientTblElt::release`. -/
def release (s : ServerComm) (client : ℕ) : ServerComm :=
  s.modify client fun e => { e with currentUsers := e.currentUsers - 1 }

/-- Everything that is open on the connection ends. -/
def endWork (s : ServerComm) (how : Ending) : ServerComm :=
  { s with openTAs := [], endedTAs := s.endedTAs ++ s.openTAs.map (·, how) }

/-- `DatabaseIf::disconnect`: what is open on the connection is rolled back. -/
def disconnect (s : ServerComm) : ServerComm := s.endWork .rolledBack

/-- `DatabaseIf::baseDBMSClose`. -/
def baseDBMSClose (s : ServerComm) (client : ℕ) : ServerComm := s.disconnect.setConnected client false

/-- `DatabaseIf::close`. -/
def close (s : ServerComm) (client : ℕ) : ServerComm :=
  let s' := s.modify client fun e => { e with database.opened := false }
  if s'.connected client then s'.disconnect.setConnected client false else s'

/-! ## TransactionIf -/

/-- Where `TransactionIf::begin` throws: while connecting, or later. -/
inductive BeginFault
  | connect
  | work
  deriving DecidableEq

/-- `TransactionIf::begin`, and whether it returns.  SQLite commits an open transaction first. -/
def begin (dbms : BaseDBMS) (s : ServerComm) (client : ℕ) (readOnly : Bool)
    (fault : Option BeginFault) : ServerComm × Bool :=
  if s.connected client = true ∨ fault = some .connect then (s.baseDBMSClose client, false)
  else
    let s := { s.setConnected client true with lastBase := some client }
    let s := match dbms with
      | .pgsql => s
      | .sqlite => s.endWork .committed
    let s := s.modify client fun e => { e with isReadOnly := readOnly }
    if fault = some .work then (s, false) else ({ s with openTAs := s.openTAs ++ [client] }, true)

/-- `lastBase->baseDBMSClose()`. -/
def closeLastBase (s : ServerComm) : ServerComm :=
  match s.lastBase with
  | some client => s.baseDBMSClose client
  | none => s

/-- `TransactionIf::abort`. -/
def abort (s : ServerComm) : ServerComm := (s.endWork .rolledBack).closeLastBase

/-- `TransactionIf::commit` of a client.  With PostgreSQL a read-only transaction is aborted. -/
def commit (dbms : BaseDBMS) (s : ServerComm) (client : ℕ) : ServerComm :=
  if dbms = .pgsql ∧ (s.entry client).any (·.isReadOnly) then s.abort
  else (s.endWork .committed).closeLastBase

/-! ## Requests -/

/-- What a request answers. -/
inductive Reply
  | returned (value : ℕ)
  | threw
  deriving DecidableEq

/-- A new client: `addClientTblEntry` of a fresh entry. -/
def connectNewClient (s : ServerComm) : ServerComm :=
  { s with
    clientTbl := s.clientTbl ++ [{ clientId := s.clientCount + 1 }]
    clientCount := s.clientCount + 1 }

/-- `openDB`. -/
def openDB (s : ServerComm) (client : ℕ) (dbName : String) : ServerComm × Reply :=
  match s.entry client with
  | none => (s, .returned 1)
  | some e =>
    let s := s.getClientContext client
    let s := if e.database.opened then s
      else s.modify client fun e => { e with database.opened := true, baseName := dbName }
    (s.release client, .returned 0)

/-- `beginTA`. -/
def beginTA (dbms : BaseDBMS) (s : ServerComm) (client : ℕ) (readOnly : Bool)
    (fault : Option BeginFault) : ServerComm × Reply :=
  match s.entry client with
  | none => (s, .returned 1)
  | some _ =>
    let s := s.getClientContext client
    if s.transactionActive ≠ 0 then (s.release client, .returned 2)
    else
      let r := begin dbms s client readOnly fault
      if r.2 then ({ r.1 with transactionActive := client }.release client, .returned 0)
      else (r.1.release client, .threw)

/-- `commitTA`. -/
def commitTA (dbms : BaseDBMS) (s : ServerComm) (client : ℕ) : ServerComm × Reply :=
  match s.entry client with
  | none => (s, .returned 1)
  | some _ =>
    let s := commit dbms (s.getClientContext client) client
    ({ s with transactionActive := 0 }.release client, .returned 0)

/-- `abortTA`. -/
def abortTA (s : ServerComm) (client : ℕ) : ServerComm × Reply :=
  match s.entry client with
  | none => (s, .returned 1)
  | some _ =>
    let s := (s.getClientContext client).abort
    ({ s with transactionActive := 0 }.release client, .returned 0)

/-- Abort the transaction if it belongs to the client. -/
def abortOwn (s : ServerComm) (client : ℕ) : ServerComm :=
  if s.transactionActive = client then { s.abort with transactionActive := 0 } else s

/-- `closeDB`. -/
def closeDB (s : ServerComm) (client : ℕ) : ServerComm × Reply :=
  match s.entry client with
  | none => (s, .returned 1)
  | some _ =>
    let s := ((s.getClientContext client).abortOwn client).close client
    let s := s.modify client fun e => { e with baseName := "none" }
    (s.release client, .returned 0)

/-- The destructor of an entry, once it is out of the table. -/
def deleteEntry (s : ServerComm) (client : ℕ) : ServerComm :=
  let s' := { s with clientTbl := s.clientTbl.eraseP (·.clientId == client) }
  if s.connected client then s'.disconnect else s'

/-- `deleteClientTblEntry`. -/
def deleteClientTblEntry (s : ServerComm) (client : ℕ) : ServerComm × Reply :=
  match s.entry client with
  | none => (s, .returned 1)
  | some e =>
    let s := s.getClientContext client
    if 1 < e.currentUsers + 1 then (s.release client, .returned 2)
    else
      let s := s.abortOwn client
      let s := if e.baseName ≠ "none" then
          (s.close client).modify client fun e => { e with baseName := "none" }
        else s
      (s.deleteEntry client, .returned 0)

/-! ## Runs -/

/-- A request, with how `TransactionIf::begin` fares in it. -/
inductive Request
  | connectNewClient
  | openDB (client : ℕ) (dbName : String)
  | beginTA (client : ℕ) (readOnly : Bool) (fault : Option BeginFault)
  | commitTA (client : ℕ)
  | abortTA (client : ℕ)
  | closeDB (client : ℕ)
  | deleteClientTblEntry (client : ℕ)
  deriving DecidableEq

/-- The client a request is for. -/
def Request.client : Request → ℕ
  | connectNewClient => 0
  | openDB client _ | beginTA client _ _ | commitTA client | abortTA client | closeDB client
  | deleteClientTblEntry client => client

/-- The state after a request. -/
def step (dbms : BaseDBMS) (s : ServerComm) : Request → ServerComm
  | .connectNewClient => s.connectNewClient
  | .openDB client dbName => (s.openDB client dbName).1
  | .beginTA client readOnly fault => (beginTA dbms s client readOnly fault).1
  | .commitTA client => (commitTA dbms s client).1
  | .abortTA client => (s.abortTA client).1
  | .closeDB client => (s.closeDB client).1
  | .deleteClientTblEntry client => (s.deleteClientTblEntry client).1

/-- The semaphore names the one open transaction. -/
def SemaphoreExact (s : ServerComm) : Prop :=
  s.openTAs = if s.transactionActive = 0 then [] else [s.transactionActive]

/-- From `s` to `s'` a client ends only transactions of its own and unlocks nobody else's. -/
structure Protects (client : ℕ) (s s' : ServerComm) : Prop where
  ended : ∃ new, s'.endedTAs = s.endedTAs ++ new ∧ ∀ e ∈ new, e.1 = client
  locked : s.transactionActive ≠ 0 → s.transactionActive ≠ client →
    s'.transactionActive = s.transactionActive

/-- No other client holds the semaphore. -/
def Undisturbed (s : ServerComm) (client : ℕ) : Prop :=
  s.transactionActive = 0 ∨ s.transactionActive = client

/-- A request that can do no harm to others: a registered client commits or aborts only while nobody
else's transaction is open, and so for closing a database that is still connected. -/
def Harmless (s : ServerComm) : Request → Prop
  | .commitTA client | .abortTA client => (s.entry client).isSome = true → s.Undisturbed client
  | .closeDB client => s.connected client = true → s.Undisturbed client
  | .deleteClientTblEntry client =>
    s.connected client = true → (s.entry client).any (·.currentUsers == 0) = true →
      s.Undisturbed client
  | _ => True

/-! ## What the operations do to transactions -/

section Effects

variable {s s' : ServerComm} {client : ℕ}

@[simp] theorem modify_transactionActive (f : ClientTblElt → ClientTblElt) :
    (s.modify client f).transactionActive = s.transactionActive := rfl

@[simp] theorem modify_openTAs (f : ClientTblElt → ClientTblElt) :
    (s.modify client f).openTAs = s.openTAs := rfl

@[simp] theorem modify_endedTAs (f : ClientTblElt → ClientTblElt) :
    (s.modify client f).endedTAs = s.endedTAs := rfl

theorem entry_modify {f : ClientTblElt → ClientTblElt} (hf : ∀ e, (f e).clientId = e.clientId) (c : ℕ) :
    (s.modify client f).entry c = (s.entry c).map fun e => if e.clientId = client then f e else e := by
  rw [entry, entry]
  split
  · rfl
  · rw [modify, List.find?_map]
    congr 2
    funext e
    simp only [Function.comp_apply]
    split
    · rw [hf]
    · rfl

theorem connected_modify {f : ClientTblElt → ClientTblElt} (hf : ∀ e, (f e).clientId = e.clientId)
    (hconn : ∀ e, (f e).database.connected = e.database.connected) (c : ℕ) :
    (s.modify client f).connected c = s.connected c := by
  rw [connected, entry_modify hf, connected, Option.any_map]
  congr 1
  funext e
  change (if e.clientId = client then f e else e).database.connected = e.database.connected
  split
  · exact hconn e
  · rfl

theorem ne_zero_of_entry {e : ClientTblElt} (h : s.entry client = some e) : client ≠ 0 := by
  rintro rfl
  cases h

/-- No transaction ends. -/
structure Same (s s' : ServerComm) : Prop where
  openTAs : s'.openTAs = s.openTAs
  endedTAs : s'.endedTAs = s.endedTAs

/-- All open transactions end. -/
structure EndsAll (s s' : ServerComm) : Prop where
  openTAs : s'.openTAs = []
  endedTAs : ∃ how, s'.endedTAs = s.endedTAs ++ s.openTAs.map (·, how)

theorem endsAll_endWork (s : ServerComm) (how : Ending) : EndsAll s (s.endWork how) :=
  ⟨rfl, how, rfl⟩

/-- When nothing is open, nothing ends. -/
theorem same_of_endsAll (h : EndsAll s s') (hs : s.openTAs = []) : Same s s' := by
  obtain ⟨how, hended⟩ := h.endedTAs
  exact ⟨h.openTAs.trans hs.symm, by rw [hended, hs, List.map_nil, List.append_nil]⟩

theorem EndsAll.trans_same {s'' : ServerComm} (h : EndsAll s s') (h' : Same s' s'') : EndsAll s s'' :=
  ⟨h'.openTAs.trans h.openTAs, by rw [h'.endedTAs]; exact h.endedTAs⟩

theorem Same.trans {s'' : ServerComm} (h : Same s s') (h' : Same s' s'') : Same s s'' :=
  ⟨h'.openTAs.trans h.openTAs, h'.endedTAs.trans h.endedTAs⟩

theorem same_closeLastBase (hs : s.openTAs = []) : Same s s.closeLastBase := by
  rw [closeLastBase]
  split
  · exact same_of_endsAll ⟨rfl, .rolledBack, rfl⟩ hs
  · exact ⟨rfl, rfl⟩

theorem endsAll_abort (s : ServerComm) : EndsAll s s.abort :=
  (endsAll_endWork s .rolledBack).trans_same (same_closeLastBase rfl)

theorem endsAll_commit (dbms : BaseDBMS) (s : ServerComm) (client : ℕ) :
    EndsAll s (commit dbms s client) := by
  rw [commit]
  split
  · exact endsAll_abort s
  · exact (endsAll_endWork s .committed).trans_same (same_closeLastBase rfl)

theorem close_transactionActive : (s.close client).transactionActive = s.transactionActive := by
  simp only [close]
  split <;> rfl

/-- Closing a database ends all transactions when it is connected. -/
theorem close_cases (s : ServerComm) (client : ℕ) :
    s.connected client = true ∧ EndsAll s (s.close client) ∨
      s.connected client = false ∧ Same s (s.close client) := by
  simp only [close, connected_modify (f := fun e => { e with database.opened := false })
    (fun _ => rfl) (fun _ => rfl)]
  rcases s.connected client
  · exact .inr ⟨rfl, rfl, rfl⟩
  · exact .inl ⟨rfl, rfl, .rolledBack, rfl⟩

theorem connected_setConnected (b : Bool) :
    (s.setConnected client b).connected client = ((s.entry client).isSome && b) := by
  rw [connected, setConnected, entry_modify (f := fun e => { e with database.connected := b })
    (fun _ => rfl)]
  rcases hentry : s.entry client with _ | e
  · rfl
  · have hid : e.clientId = client := by
      rw [entry] at hentry
      split at hentry
      · cases hentry
      · simpa using List.find?_some hentry
    simp [hid]

theorem connected_close : (s.close client).connected client = false := by
  simp only [close]
  split
  · rw [connected_setConnected, Bool.and_false]
  · rename_i hconn
    exact (Bool.not_eq_true _).mp hconn

theorem deleteEntry_cases (s : ServerComm) (client : ℕ) :
    s.connected client = true ∧ EndsAll s (s.deleteEntry client) ∨
      s.connected client = false ∧ Same s (s.deleteEntry client) := by
  simp only [deleteEntry]
  rcases s.connected client
  · exact .inr ⟨rfl, rfl, rfl⟩
  · exact .inl ⟨rfl, rfl, .rolledBack, rfl⟩

theorem deleteEntry_transactionActive :
    (s.deleteEntry client).transactionActive = s.transactionActive := by
  simp only [deleteEntry]
  split <;> rfl

/-- From `s` to `s'` the client's own transaction ends, or else whatever is open while its database is
connected. -/
inductive Leaves (client : ℕ) (s s' : ServerComm) : Prop
  | own (hown : s.transactionActive = client) (h : EndsAll s s') (hta : s'.transactionActive = 0)
  | connected (hother : s.transactionActive ≠ client) (hconn : s.connected client = true)
    (h : EndsAll s s') (hta : s'.transactionActive = s.transactionActive)
  | idle (hother : s.transactionActive ≠ client) (hconn : s.connected client = false) (h : Same s s')
    (hta : s'.transactionActive = s.transactionActive)

/-- Dropping the connection after `abortOwn`. -/
theorem leaves_abortOwn {g : ServerComm → ServerComm}
    (hta : ∀ s, (g s).transactionActive = s.transactionActive)
    (hg : ∀ s, s.connected client = true ∧ EndsAll s (g s) ∨
      s.connected client = false ∧ Same s (g s)) (s : ServerComm) :
    Leaves client s (g (s.abortOwn client)) := by
  rw [abortOwn]
  split
  · rename_i hown
    have hends := endsAll_abort s
    have hdone : EndsAll s { s.abort with transactionActive := 0 } := ⟨hends.openTAs, hends.endedTAs⟩
    refine .own hown ?_ (hta _)
    rcases hg { s.abort with transactionActive := 0 } with ⟨-, h⟩ | ⟨-, h⟩
    · exact hdone.trans_same (same_of_endsAll h hends.openTAs)
    · exact hdone.trans_same h
  · rename_i hother
    rcases hg s with ⟨hconn, h⟩ | ⟨hconn, h⟩
    · exact .connected hother hconn h (hta s)
    · exact .idle hother hconn h (hta s)

/-- Requests change nothing but the use count of an entry around their work. -/
theorem Leaves.of_context (h : Leaves client (s.getClientContext client) s') : Leaves client s s' := by
  have hconn : (s.getClientContext client).connected client = s.connected client :=
    connected_modify (f := fun e => { e with currentUsers := e.currentUsers + 1 })
      (fun _ => rfl) (fun _ => rfl) client
  cases h with
  | own hown h hta => exact .own hown ⟨h.openTAs, h.endedTAs⟩ hta
  | connected hother hc h hta => exact .connected hother (hconn ▸ hc) ⟨h.openTAs, h.endedTAs⟩ hta
  | idle hother hc h hta => exact .idle hother (hconn ▸ hc) ⟨h.openTAs, h.endedTAs⟩ hta

theorem leaves_closeDB {e : ClientTblElt} (hentry : s.entry client = some e) :
    Leaves client s (s.closeDB client).1 := by
  simp only [closeDB, hentry]
  refine Leaves.of_context (leaves_abortOwn
    (g := fun s => ((s.close client).modify client fun e => { e with baseName := "none" }).release client)
    (fun s => close_transactionActive) (fun s => ?_) _)
  rcases close_cases s client with ⟨hc, h⟩ | ⟨hc, h⟩
  · exact .inl ⟨hc, h.openTAs, h.endedTAs⟩
  · exact .inr ⟨hc, h.openTAs, h.endedTAs⟩

theorem leaves_deleteClientTblEntry {e : ClientTblElt} (hentry : s.entry client = some e)
    (hidle : e.currentUsers = 0) : Leaves client s (s.deleteClientTblEntry client).1 := by
  simp only [deleteClientTblEntry, hentry, hidle, Nat.zero_add, Nat.lt_irrefl, if_false]
  refine Leaves.of_context (leaves_abortOwn
    (g := fun s => (if e.baseName ≠ "none" then
      (s.close client).modify client fun e => { e with baseName := "none" } else s).deleteEntry client)
    (fun s => ?_) (fun s => ?_) _)
  · rw [deleteEntry_transactionActive]
    split
    · exact close_transactionActive
    · rfl
  · split
    · have hclosed : ((s.close client).modify client fun e => { e with baseName := "none" }).connected
          client = false := by
        rw [connected_modify (f := fun e => { e with baseName := "none" }) (fun _ => rfl) (fun _ => rfl)]
        exact connected_close
      obtain ⟨-, hopen, hended⟩ := (deleteEntry_cases _ client).resolve_left fun h => by
        cases hclosed.symm.trans h.1
      rcases close_cases s client with ⟨hc, h⟩ | ⟨hc, h⟩
      · exact .inl ⟨hc, h.trans_same ⟨hopen, hended⟩⟩
      · exact .inr ⟨hc, h.trans ⟨hopen, hended⟩⟩
    · exact deleteEntry_cases s client

end Effects

/-! ## The semaphore over a run -/

section Semaphore

variable {dbms : BaseDBMS} {s s' : ServerComm} {client : ℕ}

theorem exact_of_same (hs : s.SemaphoreExact) (h : Same s s')
    (hta : s'.transactionActive = s.transactionActive) :
    s'.SemaphoreExact ∧ Protects client s s' := by
  refine ⟨?_, ⟨[], by rw [h.endedTAs, List.append_nil], fun e he => absurd he List.not_mem_nil⟩,
    fun _ _ => hta⟩
  rw [SemaphoreExact, h.openTAs, hta]
  exact hs

/-- Ending all transactions is fine exactly when no other client has one. -/
theorem exact_iff_of_endsAll (hs : s.SemaphoreExact) (h : EndsAll s s')
    (hta : s'.transactionActive = 0 ∨
      s'.transactionActive = s.transactionActive ∧ s.transactionActive ≠ client) :
    s'.SemaphoreExact ∧ Protects client s s' ↔ s.Undisturbed client := by
  obtain ⟨how, hended⟩ := h.endedTAs
  constructor
  · rintro ⟨-, ⟨new, hnew, hown⟩, -⟩
    by_contra hother
    obtain ⟨hopen, hne⟩ := not_or.mp hother
    rw [SemaphoreExact, if_neg hopen] at hs
    rw [hs, List.map_singleton] at hended
    have hsame := List.append_cancel_left (hended.symm.trans hnew)
    exact hne (hown (s.transactionActive, how) (by simp [← hsame]))
  · intro hown
    have hzero : s'.transactionActive = 0 := by
      rcases hta with h0 | ⟨hsame, hne⟩
      · exact h0
      · exact hsame.trans (hown.resolve_right hne)
    refine ⟨by rw [SemaphoreExact, h.openTAs, if_pos hzero], ⟨_, hended, fun e he => ?_⟩,
      fun hopen hne => absurd (hown.resolve_left hopen) hne⟩
    obtain ⟨a, ha, rfl⟩ := List.mem_map.mp he
    rw [hs] at ha
    rcases hown with hnone | hmine
    · rw [if_pos hnone] at ha
      exact absurd ha List.not_mem_nil
    · split at ha
      · exact absurd ha List.not_mem_nil
      · exact (List.mem_singleton.mp ha).trans hmine

theorem begin_cases (dbms : BaseDBMS) (client : ℕ) (hopen : s.openTAs = []) (readOnly : Bool) (fault : Option BeginFault) :
    (begin dbms s client readOnly fault).1.endedTAs = s.endedTAs ∧
    (begin dbms s client readOnly fault).1.transactionActive = s.transactionActive ∧
    (begin dbms s client readOnly fault).1.openTAs
      = if (begin dbms s client readOnly fault).2 then [client] else [] := by
  rw [begin]
  split
  · have hsame : Same s (s.baseDBMSClose client) := same_of_endsAll ⟨rfl, .rolledBack, rfl⟩ hopen
    exact ⟨hsame.endedTAs, rfl, hsame.openTAs.trans hopen⟩
  · have hended : (s.endWork .committed).endedTAs = s.endedTAs :=
      (same_of_endsAll (endsAll_endWork s .committed) hopen).endedTAs
    cases dbms <;> by_cases hfault : fault = some .work
    · simp only [hfault, if_true]
      exact ⟨rfl, rfl, hopen⟩
    · simp only [hfault, if_false]
      exact ⟨rfl, rfl, congrArg (· ++ [client]) hopen⟩
    · simp only [hfault, if_true]
      exact ⟨hended, rfl, rfl⟩
    · simp only [hfault, if_false]
      exact ⟨hended, rfl, rfl⟩

theorem exact_beginTA (hs : s.SemaphoreExact) (readOnly : Bool) (fault : Option BeginFault) :
    (beginTA dbms s client readOnly fault).1.SemaphoreExact ∧
      Protects client s (beginTA dbms s client readOnly fault).1 := by
  rw [beginTA]
  rcases hentry : s.entry client with _ | e
  · exact exact_of_same hs ⟨rfl, rfl⟩ rfl
  by_cases hfree : s.transactionActive = 0
  · have hopen : s.openTAs = [] := by rw [hs, if_pos hfree]
    obtain ⟨hended, hactive, hopened⟩ := begin_cases dbms client
      (s := s.getClientContext client) hopen readOnly fault
    have hfree' : (s.getClientContext client).transactionActive = 0 := hfree
    simp only [hfree', ne_eq, not_true, if_false]
    generalize begin dbms (s.getClientContext client) client readOnly fault = r at *
    rcases r with ⟨r, _ | _⟩
    · exact exact_of_same hs ⟨hopened.trans hopen.symm, hended⟩ hactive
    · refine ⟨?_, ⟨[], ?_, fun e he => absurd he List.not_mem_nil⟩, fun h => absurd hfree h⟩
      · refine hopened.trans ?_
        exact (if_neg (ne_zero_of_entry hentry)).symm
      · rw [List.append_nil]
        exact hended
  · simp only [getClientContext, modify_transactionActive, hfree, ne_eq, not_false_eq_true, if_true]
    exact exact_of_same hs ⟨rfl, rfl⟩ rfl

section Entry

variable {e : ClientTblElt} (hentry : s.entry client = some e)

include hentry

theorem commitTA_ends : EndsAll s (commitTA dbms s client).1 ∧
    (commitTA dbms s client).1.transactionActive = 0 := by
  simp only [commitTA, hentry]
  have hends := endsAll_commit dbms (s.getClientContext client) client
  exact ⟨⟨hends.openTAs, hends.endedTAs⟩, rfl⟩

theorem abortTA_ends : EndsAll s (s.abortTA client).1 ∧
    (s.abortTA client).1.transactionActive = 0 := by
  simp only [abortTA, hentry]
  have hends := endsAll_abort (s.getClientContext client)
  exact ⟨⟨hends.openTAs, hends.endedTAs⟩, rfl⟩

end Entry

theorem exact_iff_of_leaves (hs : s.SemaphoreExact) (h : Leaves client s s') :
    s'.SemaphoreExact ∧ Protects client s s' ↔ (s.connected client = true → s.Undisturbed client) := by
  cases h with
  | own hown h hta =>
    have hmine : s.Undisturbed client := .inr hown
    exact iff_of_true ((exact_iff_of_endsAll hs h (.inl hta)).mpr hmine) fun _ => hmine
  | connected hother hconn h hta =>
    rw [exact_iff_of_endsAll hs h (.inr ⟨hta, hother⟩)]
    exact ⟨fun h _ => h, fun h => h hconn⟩
  | idle hother hconn h hta =>
    exact iff_of_true (exact_of_same hs h hta) fun hc => by cases hconn.symm.trans hc

/-- **A request keeps the semaphore exact and other clients' transactions alone, exactly when it is
harmless.** -/
theorem step_exact_iff (hs : s.SemaphoreExact) (r : Request) :
    (step dbms s r).SemaphoreExact ∧ Protects r.client s (step dbms s r) ↔ s.Harmless r := by
  have hsame : ∀ {s' : ServerComm} {client : ℕ} {P : Prop}, Same s s' →
      s'.transactionActive = s.transactionActive → P →
      (s'.SemaphoreExact ∧ Protects client s s' ↔ P) :=
    fun h hta hP => iff_of_true (exact_of_same hs h hta) hP
  cases r with
  | connectNewClient => exact hsame ⟨rfl, rfl⟩ rfl trivial
  | openDB client dbName =>
    refine hsame ?_ ?_ trivial <;> simp only [step, openDB] <;> split
    · exact ⟨rfl, rfl⟩
    · split <;> exact ⟨rfl, rfl⟩
    · rfl
    · split <;> rfl
  | beginTA client readOnly fault => exact iff_of_true (exact_beginTA hs readOnly fault) trivial
  | commitTA client =>
    rcases hentry : s.entry client with _ | e
    · refine hsame ?_ ?_ fun h => by simp [hentry] at h
      all_goals simp only [step, commitTA, hentry]
      exact ⟨rfl, rfl⟩
    · obtain ⟨hends, hta⟩ : EndsAll s (commitTA dbms s client).1 ∧ _ := commitTA_ends hentry
      refine (exact_iff_of_endsAll hs hends (.inl hta)).trans ?_
      simp only [Harmless, hentry, Option.isSome_some, forall_const]
      rfl
  | abortTA client =>
    rcases hentry : s.entry client with _ | e
    · refine hsame ?_ ?_ fun h => by simp [hentry] at h
      all_goals simp only [step, abortTA, hentry]
      exact ⟨rfl, rfl⟩
    · obtain ⟨hends, hta⟩ := abortTA_ends hentry
      refine (exact_iff_of_endsAll hs hends (.inl hta)).trans ?_
      simp only [Harmless, hentry, Option.isSome_some, forall_const]
      rfl
  | closeDB client =>
    rcases hentry : s.entry client with _ | e
    · refine hsame ?_ ?_ fun h => by simp [connected, hentry] at h
      all_goals simp only [step, closeDB, hentry]
      exact ⟨rfl, rfl⟩
    · exact exact_iff_of_leaves hs (leaves_closeDB hentry)
  | deleteClientTblEntry client =>
    rcases hentry : s.entry client with _ | e
    · refine hsame ?_ ?_ fun h => by simp [connected, hentry] at h
      all_goals simp only [step, deleteClientTblEntry, hentry]
      exact ⟨rfl, rfl⟩
    · by_cases hidle : e.currentUsers = 0
      · refine (exact_iff_of_leaves hs (leaves_deleteClientTblEntry hentry hidle)).trans ?_
        simp only [Harmless, hentry, hidle, Option.any_some, beq_self_eq_true, forall_const]
      · refine hsame ?_ ?_ fun _ h => absurd (by simpa [hentry] using h) hidle
        all_goals
          simp only [step, deleteClientTblEntry, hentry, Nat.lt_add_left_iff_pos,
            Nat.pos_of_ne_zero hidle, if_true]
        · exact ⟨rfl, rfl⟩
        · rfl

/-- **Along harmless requests the semaphore always names the open transaction**, and no request ends
or unlocks the transaction of another client. -/
theorem transaction_semaphore_exact (dbms : BaseDBMS) (requests : List Request)
    (h : Along (step dbms) Harmless {} requests) :
    (run (step dbms) {} requests).SemaphoreExact ∧
      ∀ before r, before ++ [r] <+: requests →
        Protects r.client (run (step dbms) {} before) (run (step dbms) {} (before ++ [r])) := by
  have hstep : ∀ s r, SemaphoreExact s → Harmless s r → (step dbms s r).SemaphoreExact :=
    fun s r hs hr => ((step_exact_iff hs r).mpr hr).1
  have hstart : SemaphoreExact {} := rfl
  refine ⟨h.inv hstep hstart, fun before r hpre => ?_⟩
  obtain ⟨hs, hr⟩ := h.step_from hstep hstart hpre
  rw [run_append]
  exact ((step_exact_iff hs r).mpr hr).2

/-- A client that works for itself, while another one is turned away. -/
theorem transaction_semaphore_exact_twoClients :
    Along (step .sqlite) Harmless {} [.connectNewClient, .connectNewClient, .beginTA 1 false none,
      .beginTA 2 false none, .commitTA 1] ∧
    (run (step .sqlite) {} [.connectNewClient, .connectNewClient, .beginTA 1 false none,
      .beginTA 2 false none, .commitTA 1]).SemaphoreExact := by
  have h : Along (step .sqlite) Harmless {} [.connectNewClient, .connectNewClient,
      .beginTA 1 false none, .beginTA 2 false none, .commitTA 1] :=
    ⟨trivial, trivial, trivial, trivial, fun _ => .inr (by decide), trivial⟩
  exact ⟨h, (transaction_semaphore_exact .sqlite _ h).1⟩

/-- Client 2 commits the transaction of client 1 and unlocks it. -/
theorem foreign_transaction_committed :
    let requests : List Request := [.connectNewClient, .connectNewClient, .beginTA 1 false none]
    let s := run (step .sqlite) {} requests
    let s' := step .sqlite s (.commitTA 2)
    s.openTAs = [1] ∧ s.transactionActive = 1 ∧
      s'.endedTAs = [(1, .committed)] ∧ s'.transactionActive = 0 ∧ ¬Protects 2 s s' := by
  refine ⟨by decide, by decide, by decide, by decide, fun h => ?_⟩
  exact absurd (h.locked (by decide) (by decide)) (by decide)

end Semaphore

end ServerComm

end Rasdaman
