import Mathlib.Data.List.Sort
import Mathlib.Data.Finset.Card
import Mathlib.Data.Set.Card
import Rasdaman.Machinery.Machine
import Rasdaman.Rasmgr.ServerManager
import Rasdaman.Rasmgr.ServerRasNet

/-!
# Rasmgr/ClientSessions — one session, recorded in four places

A session is listed by its client, its server and its database, and counted by the database host and
the server.  Opening one records it with the client before the server can refuse; closing one forgets
it on the side of the server before the remote call can fail, and with the client only after it.
In between the server prints the name of the database into a buffer of fixed size.

The abstract model is a set of open sessions; `Represents` says how the four places hold it.
-/

namespace Rasdaman

namespace Sessions

open Machine

variable {C S H D U : Type}

/-! ## What holds sessions -/

/-- `Client`: the default rights of its user, and the `std::map` of servers by session id. -/
structure Client (S U : Type) where
  dbRights : UserDatabaseRights
  assignedServers : List (U × S) := []
  deriving DecidableEq

/-- The rights allow anything. -/
def Client.hasRights (c : Client S U) : Bool := c.dbRights.readAccess || c.dbRights.writeAccess

/-- `ServerRasNet` with its id, its host and its sessions. -/
structure SessionServer (C H U : Type) extends ServerRasNet where
  serverId : Text
  dbHost : H
  sessionList : Finset (C × U) := ∅
  deriving DecidableEq

/-- `DatabaseHost`. -/
structure DatabaseHost (D : Type) where
  databaseList : List D
  sessionCount : ℤ := 0
  deriving DecidableEq

/-- `Database`; it may be on several hosts. -/
structure Database (C U : Type) where
  dbName : Text
  sessionList : Finset (C × U) := ∅
  deriving DecidableEq

/-- All of them, and a record of what happened: the database each session asked for, the session ids
given out, the calls of `deallocateClientSession`, the decrements below zero and the capabilities
printed past their buffer. -/
structure State (C S H D U : Type) where
  client : C → Client S U
  server : S → SessionServer C H U
  host : H → DatabaseHost D
  database : D → Database C U
  databaseOf : C × U → Option D := fun _ => none
  issued : List (C × U) := []
  deallocated : List (C × U) := []
  underflows : ℕ := 0
  overflows : ℕ := 0

variable [DecidableEq C] [DecidableEq S] [DecidableEq H] [DecidableEq D] [LinearOrder U]

/-! ## DatabaseHost -/

namespace State

/-- The database of a name on a host. -/
def findDb (s : State C S H D U) (h : H) (dbName : Text) : Option D :=
  (s.host h).databaseList.find? fun d => (s.database d).dbName = dbName

/-- `addClientSessionOnDB`, and whether it returns. -/
def addClientSessionOnDB (s : State C S H D U) (h : H) (dbName : Text) (p : C × U) :
    State C S H D U × Bool :=
  match s.findDb h dbName with
  | none => (s, false)
  | some d =>
    if p ∈ (s.database d).sessionList then (s, false)
    else
      ({ s with
          database := Function.update s.database d
            { s.database d with sessionList := insert p (s.database d).sessionList }
          host := Function.update s.host h
            { s.host h with sessionCount := (s.host h).sessionCount + 1 } }, true)

/-- One turn of the loop of `removeClientSessionFromDB`. -/
def removeClientSession (h : H) (p : C × U) (s : State C S H D U) (d : D) : State C S H D U :=
  { s with
    database := Function.update s.database d
      { s.database d with sessionList := (s.database d).sessionList.erase p }
    host := Function.update s.host h
      { s.host h with
        sessionCount := (s.host h).sessionCount -
          if p ∈ (s.database d).sessionList then 1 else 0 } }

/-- `removeClientSessionFromDB`: from every database of the host. -/
def removeClientSessionFromDB (s : State C S H D U) (h : H) (p : C × U) : State C S H D U :=
  (s.host h).databaseList.foldl (removeClientSession h p) s

/-! ## ServerRasNet -/

/-- Replace a server. -/
def setServer (s : State C S H D U) (srv : S) (v : SessionServer C H U) : State C S H D U :=
  { s with server := Function.update s.server srv v }

end State

/-- What `isFree` and `isAvailable` leave and return: they throw when the server is not registered,
ask nobody when its own count is good enough, and otherwise replace that count by the reported queue
size, if there is a report. -/
def askQueue (v : SessionServer C H U) (enough : ℕ → Bool) (queue : Option UInt32) :
    SessionServer C H U × Option Bool :=
  if ¬v.registered ∨ ¬v.started then (v, none)
  else if enough v.allocatedClientsNo then (v, some true)
  else
    match queue with
    | none => (v, none)
    | some q => ({ v with allocatedClientsNo := q.toNat }, some (enough q.toNat))

/-- `isFree`. -/
def isFree (v : SessionServer C H U) (queue : Option UInt32) : SessionServer C H U × Option Bool :=
  askQueue v (· == 0) queue

/-- `isAvailable`. -/
def isAvailable (max : UInt32) (v : SessionServer C H U) (queue : Option UInt32) :
    SessionServer C H U × Option Bool :=
  askQueue v (· < max.toNat) queue

/-- How `AllocateClient` is sent: the clock and the message digest that sign its capability, and whether
the call succeeds. -/
structure Sending where
  now : Tm
  messageDigest : Text → Digest
  ok : Bool

namespace State

/-- `allocateClientSession`, and whether it returns.  What happens after `getCapability` has printed past
its buffers is not defined; the state records that it did. -/
def allocateClientSession (max : UInt32) (s : State C S H D U) (srv : S) (p : C × U) (dbName : Text)
    (dbRights : UserDatabaseRights) (queue : Option UInt32) (sent : Sending) : State C S H D U × Bool :=
  let a := isAvailable max (s.server srv) queue
  let s := s.setServer srv a.1
  if a.2 ≠ some true then (s, false)
  else
    match ServerRasNet.getCapability sent.messageDigest sent.now a.1.serverId dbName dbRights with
    | .error _ => ({ s with overflows := s.overflows + 1 }, false)
    | .ok _ =>
      if ¬sent.ok then (s, false)
      else
        let r := s.addClientSessionOnDB a.1.dbHost dbName p
        if ¬r.2 then (r.1, false)
        else
          (r.1.setServer srv
            { a.1 with
              sessionList := insert p a.1.sessionList
              allocatedClientsNo := (a.1.allocatedClientsNo + 1) % 2 ^ 32 }, true)

/-- `deallocateClientSession`, and whether it returns: all is forgotten before the remote call. -/
def deallocateClientSession (s : State C S H D U) (srv : S) (p : C × U) (ok : Bool) :
    State C S H D U × Bool :=
  let v := s.server srv
  let s := (s.removeClientSessionFromDB v.dbHost p).setServer srv
    { v with
      sessionList := v.sessionList.erase p
      allocatedClientsNo := (v.allocatedClientsNo + (2 ^ 32 - 1)) % 2 ^ 32 }
  ({ s with
      deallocated := p :: s.deallocated
      underflows := s.underflows + if v.allocatedClientsNo = 0 then 1 else 0 }, ok)

/-! ## Client -/

/-- Replace the assigned servers of a client. -/
def setAssigned (s : State C S H D U) (c : C) (l : List (U × S)) : State C S H D U :=
  { s with client := Function.update s.client c { s.client c with assignedServers := l } }

/-- The ids of the assigned servers of a client. -/
def assignedIds (s : State C S H D U) (c : C) : List U := (s.client c).assignedServers.map Prod.fst

/-- `assignedServers[sessionId] = assignedServer`. -/
def assignServer (s : State C S H D U) (c : C) (dbName : Text) (assignedServer : S) (sessionId : U) :
    State C S H D U :=
  { s.setAssigned c ((s.client c).assignedServers.orderedInsert (fun a b => a.1 ≤ b.1)
      (sessionId, assignedServer)) with
    databaseOf := Function.update s.databaseOf (c, sessionId)
      (s.findDb (s.server assignedServer).dbHost dbName)
    issued := (c, sessionId) :: s.issued }

/-- `addDbSession`, and whether it returns.  Ids are drawn until one is not in use by the client. -/
def addDbSession (max : UInt32) (s : State C S H D U) (c : C) (dbName : Text) (assignedServer : S)
    (uuids : List U) (queue : Option UInt32) (sent : Sending) : State C S H D U × Bool :=
  match uuids.find? (· ∉ s.assignedIds c) with
  | none => (s, false)
  | some sessionId =>
    if (s.client c).hasRights then
      (s.assignServer c dbName assignedServer sessionId).allocateClientSession max assignedServer
        (c, sessionId) dbName (s.client c).dbRights queue sent
    else (s, false)

/-- `removeDbSession`, and whether it returns. -/
def removeDbSession (s : State C S H D U) (c : C) (sessionId : U) (ok : Bool) :
    State C S H D U × Bool :=
  match (s.client c).assignedServers.find? (·.1 = sessionId) with
  | none => (s, true)
  | some e =>
    let r := s.deallocateClientSession e.2 (c, sessionId) ok
    if r.2 then
      (r.1.setAssigned c ((r.1.client c).assignedServers.filter (·.1 ≠ sessionId)), true)
    else r

/-- The loop of `removeClientFromServers`. -/
def deallocateAll (c : C) (ok : U → Bool) :
    List (U × S) → State C S H D U → State C S H D U × Bool
  | [], s => (s, true)
  | e :: l, s =>
    let r := s.deallocateClientSession e.2 (c, e.1) (ok e.1)
    if r.2 then deallocateAll c ok l r.1 else r

/-- `removeClientFromServers`, and whether it returns. -/
def removeClientFromServers (s : State C S H D U) (c : C) (ok : U → Bool) :
    State C S H D U × Bool :=
  let r := deallocateAll c ok (s.client c).assignedServers s
  if r.2 then (r.1.setAssigned c [], true) else r

end State

/-! ## Runs -/

/-- An operation, with how the servers answer: the queue size that `GetServerStatus` reports, if it
answers, and whether `AllocateClient` and `DeallocateClient` succeed. -/
inductive Op (C S U : Type)
  | addDbSession (c : C) (dbName : Text) (srv : S) (uuids : List U) (queue : Option UInt32)
      (sent : Sending)
  | removeDbSession (c : C) (sessionId : U) (ok : Bool)
  | removeClientFromServers (c : C) (ok : U → Bool)
  | isFree (srv : S) (queue : Option UInt32)
  | isAvailable (srv : S) (queue : Option UInt32)

/-- The state an operation leaves, also when it throws. -/
def step (max : UInt32) (s : State C S H D U) : Op C S U → State C S H D U
  | .addDbSession c dbName srv uuids queue sent => (s.addDbSession max c dbName srv uuids queue sent).1
  | .removeDbSession c sessionId ok => (s.removeDbSession c sessionId ok).1
  | .removeClientFromServers c ok => (s.removeClientFromServers c ok).1
  | .isFree srv queue => s.setServer srv (isFree (s.server srv) queue).1
  | .isAvailable srv queue => s.setServer srv (isAvailable max (s.server srv) queue).1

/-- The four places agree, no session was deallocated more often than it was opened, no count went
below zero, and no capability was printed past its buffer. -/
structure Accounted (s : State C S H D U) : Prop where
  server : ∀ c id srv, (id, srv) ∈ (s.client c).assignedServers ↔ (c, id) ∈ (s.server srv).sessionList
  database : ∀ c id, (∃ srv, (id, srv) ∈ (s.client c).assignedServers) ↔
    ∃ d, s.databaseOf (c, id) = some d ∧ (c, id) ∈ (s.database d).sessionList
  count : ∀ h, (s.host h).sessionCount =
    ({x : C × U × S | x.2 ∈ (s.client x.1).assignedServers ∧ (s.server x.2.2).dbHost = h}.ncard : ℤ)
  once : ∀ p, s.deallocated.count p ≤ s.issued.count p
  noUnderflow : s.underflows = 0
  noOverflow : s.overflows = 0

/-- Nothing is open yet. -/
structure Initial (s : State C S H D U) : Prop where
  client : ∀ c, (s.client c).assignedServers = []
  server : ∀ srv, (s.server srv).sessionList = ∅ ∧ (s.server srv).allocatedClientsNo = 0
  host : ∀ h, (s.host h).sessionCount = 0
  database : ∀ d, (s.database d).sessionList = ∅
  deallocated : s.deallocated = []
  underflows : s.underflows = 0
  overflows : s.overflows = 0

/-- A server that is asked for its queue reports at least the sessions that are open on it. -/
def Covers (v : SessionServer C H U) (enough : ℕ → Bool) (queue : Option UInt32) : Prop :=
  v.registered = true → v.started = true → enough v.allocatedClientsNo = false →
    ∀ q ∈ queue, v.sessionList.card ≤ q.toNat

/-- The capability for a database on a server fits the buffers of `getCapability`. -/
def CapabilityFits (now : Tm) (serverId dbName : Text) : Prop :=
  dbName.length + (ServerRasNet.timeText now).length + serverId.length < 251

instance (now : Tm) (serverId dbName : Text) : Decidable (CapabilityFits now serverId dbName) :=
  inferInstanceAs (Decidable (_ < _))

/-- **No operation meets a failure half way:** a client with rights is only given a server that
accepts it and has its database, the capability fits its buffers, a deallocation does not fail, and a
reported queue covers the open sessions. -/
def Orderly (max : UInt32) (s : State C S H D U) : Op C S U → Prop
  | .addDbSession c dbName srv _ queue sent => (s.client c).hasRights = true →
      (isAvailable max (s.server srv) queue).2 = some true ∧
        Covers (s.server srv) (· < max.toNat) queue ∧
        CapabilityFits sent.now (s.server srv).serverId dbName ∧ sent.ok = true ∧
        (s.findDb (s.server srv).dbHost dbName).isSome
  | .removeDbSession c sessionId ok => sessionId ∈ s.assignedIds c → ok = true
  | .removeClientFromServers c ok => ∀ id ∈ s.assignedIds c, ok id = true
  | .isFree srv queue => Covers (s.server srv) (· == 0) queue
  | .isAvailable srv queue => Covers (s.server srv) (· < max.toNat) queue

/-! ## Open sessions

The abstract model: a set of open sessions, each with its server and its database. -/

/-- An open session. -/
structure Session (C S D U : Type) where
  client : C
  id : U
  server : S
  database : D
  deriving DecidableEq

/-- How a session is listed by servers and databases. -/
def Session.key (x : Session C S D U) : C × U := (x.client, x.id)

/-- Lists of sessions, each session of a set in one of them. -/
def Filed {B : Type} (list : B → Finset (C × U)) (place : Session C S D U → B)
    (A : Finset (Session C S D U)) : Prop :=
  ∀ p b, p ∈ list b ↔ ∃ x ∈ A, x.key = p ∧ place x = b

/-- The servers, databases and hosts hold exactly the sessions of a set. -/
structure Holds (s : State C S H D U) (A : Finset (Session C S D U)) : Prop where
  served : Filed (fun srv => (s.server srv).sessionList) Session.server A
  stored : Filed (fun d => (s.database d).sessionList) Session.database A
  unique : ∀ x ∈ A, ∀ y ∈ A, x.key = y.key → x = y
  located : ∀ x ∈ A, x.database ∈ (s.host (s.server x.server).dbHost).databaseList ∧
    s.databaseOf x.key = some x.database
  counted : ∀ h, (s.host h).sessionCount = ((A.filter fun x => (s.server x.server).dbHost = h).card : ℤ)
  capacity : ∀ srv, (s.server srv).sessionList.card ≤ (s.server srv).allocatedClientsNo ∧
    (s.server srv).allocatedClientsNo < 2 ^ 32
  once : ∀ p, s.deallocated.count p + (A.filter fun x => x.key = p).card ≤ s.issued.count p
  noUnderflow : s.underflows = 0
  noOverflow : s.overflows = 0

/-- The clients list exactly the sessions of a set. -/
structure Listed (s : State C S H D U) (A : Finset (Session C S D U)) : Prop where
  assigned : ∀ c id srv, (id, srv) ∈ (s.client c).assignedServers ↔
    ∃ x ∈ A, x.key = (c, id) ∧ x.server = srv
  nodup : ∀ c, (s.assignedIds c).Nodup

/-- All four places hold a set of open sessions. -/
def Represents (s : State C S H D U) (A : Finset (Session C S D U)) : Prop := Holds s A ∧ Listed s A

section Sets

variable {A : Finset (Session C S D U)} {x : Session C S D U}

theorem card_filter_insert (P : Session C S D U → Prop) [DecidablePred P] (hx : x ∉ A) :
    ((insert x A).filter P).card = (A.filter P).card + if P x then 1 else 0 := by
  rw [Finset.filter_insert]
  split
  · exact Finset.card_insert_of_notMem fun h => hx (Finset.mem_filter.mp h).1
  · rfl

theorem card_filter_erase (P : Session C S D U → Prop) [DecidablePred P] (hx : x ∈ A) :
    (A.filter P).card = ((A.erase x).filter P).card + if P x then 1 else 0 := by
  rw [← card_filter_insert P (Finset.notMem_erase x A), Finset.insert_erase hx]

variable {B : Type} {list list' : B → Finset (C × U)} {place : Session C S D U → B}

theorem Filed.insert (h : Filed list place A)
    (hself : list' (place x) = Insert.insert x.key (list (place x)))
    (hother : ∀ b, b ≠ place x → list' b = list b) : Filed list' place (Insert.insert x A) := by
  intro p b
  simp only [Finset.mem_insert, or_and_right, exists_or, exists_eq_left, ← h p b]
  by_cases hb : b = place x
  · subst hb
    simp [hself, eq_comm]
  · simp [hother b hb, Ne.symm hb]

theorem Filed.erase (h : Filed list place A) (huniq : ∀ x ∈ A, ∀ y ∈ A, x.key = y.key → x = y)
    (hx : x ∈ A) (hself : list' (place x) = (list (place x)).erase x.key)
    (hother : ∀ b, b ≠ place x → list' b = list b) : Filed list' place (A.erase x) := by
  intro p b
  have herase : (∃ y ∈ A.erase x, y.key = p ∧ place y = b) ↔ p ≠ x.key ∧ p ∈ list b := by
    rw [h p b]
    constructor
    · rintro ⟨y, hy, rfl, rfl⟩
      obtain ⟨hne, hy⟩ := Finset.mem_erase.mp hy
      exact ⟨fun h => hne (huniq y hy x hx h), y, hy, rfl, rfl⟩
    · rintro ⟨hne, y, hy, rfl, rfl⟩
      exact ⟨y, Finset.mem_erase.mpr ⟨fun h => hne (congrArg _ h), hy⟩, rfl, rfl⟩
  rw [herase]
  by_cases hb : b = place x
  · subst hb
    rw [hself, Finset.mem_erase]
  · rw [hother b hb, iff_and_self]
    rintro hp rfl
    obtain ⟨y, hy, hkey, rfl⟩ := (h _ _).mp hp
    exact hb (congrArg _ (huniq y hy x hx hkey))

omit [DecidableEq C] [DecidableEq S] [DecidableEq D] [LinearOrder U] in
theorem Filed.mem_iff_eq (h : Filed list place A) (huniq : ∀ x ∈ A, ∀ y ∈ A, x.key = y.key → x = y)
    (hx : x ∈ A) (b : B) : x.key ∈ list b ↔ b = place x := by
  rw [h]
  constructor
  · rintro ⟨y, hy, hkey, rfl⟩
    rw [huniq y hy x hx hkey]
  · rintro rfl
    exact ⟨x, hx, rfl, rfl⟩

end Sets

/-! ## Start and end -/

section Ends

variable {s : State C S H D U} {A : Finset (Session C S D U)}

omit [DecidableEq S] [DecidableEq D] in
theorem Initial.represents (h : Initial s) : Represents s ∅ := by
  refine ⟨⟨?_, ?_, by simp, by simp, by simp [h.host], ?_, by simp [h.deallocated], h.underflows,
    h.overflows⟩, ?_, ?_⟩
  · intro p srv
    simp [(h.server srv).1]
  · intro p d
    simp [h.database d]
  · intro srv
    simp [(h.server srv).1, (h.server srv).2]
  · intro c id srv
    simp [h.client c]
  · intro c
    simp [State.assignedIds, h.client c]

omit [DecidableEq D] in
theorem Represents.sessions_eq (h : Represents s A) (k : H) :
    {x : C × U × S | x.2 ∈ (s.client x.1).assignedServers ∧ (s.server x.2.2).dbHost = k} =
      ((A.filter fun x => (s.server x.server).dbHost = k).image
        fun x => (x.client, x.id, x.server) : Finset (C × U × S)) := by
  ext ⟨c, id, srv⟩
  simp only [Set.mem_ofPred_eq, Finset.coe_image, Set.mem_image, Finset.mem_coe, Finset.mem_filter]
  rw [h.2.assigned c id srv]
  constructor
  · rintro ⟨⟨x, hx, hkey, rfl⟩, hk⟩
    obtain ⟨rfl, rfl⟩ := Prod.mk.inj hkey
    exact ⟨x, ⟨hx, hk⟩, rfl⟩
  · rintro ⟨x, ⟨hx, hk⟩, heq⟩
    obtain ⟨rfl, rfl, rfl⟩ := by simpa using heq
    exact ⟨⟨x, hx, rfl, rfl⟩, hk⟩

omit [DecidableEq D] in
/-- Places that hold a set of open sessions agree. -/
theorem Represents.accounted (h : Represents s A) : Accounted s where
  server c id srv := by rw [h.2.assigned, h.1.served]
  database c id := by
    constructor
    · rintro ⟨srv, hsrv⟩
      obtain ⟨x, hx, hkey, -⟩ := (h.2.assigned c id srv).mp hsrv
      refine ⟨x.database, hkey ▸ (h.1.located x hx).2, (h.1.stored _ _).mpr ⟨x, hx, hkey, rfl⟩⟩
    · rintro ⟨d, -, hd⟩
      obtain ⟨x, hx, hkey, -⟩ := (h.1.stored _ _).mp hd
      exact ⟨x.server, (h.2.assigned c id _).mpr ⟨x, hx, hkey, rfl⟩⟩
  count k := by
    rw [h.1.counted k, h.sessions_eq k, Set.ncard_coe_finset, Finset.card_image_of_injOn]
    intro x hx y hy heq
    simp only [Prod.mk.injEq] at heq
    exact h.1.unique x (Finset.mem_filter.mp hx).1 y (Finset.mem_filter.mp hy).1
      (Prod.ext heq.1 heq.2.1)
  once p := le_trans (Nat.le_add_right _ _) (h.1.once p)
  noUnderflow := h.1.noUnderflow
  noOverflow := h.1.noOverflow

end Ends

/-! ## The databases of a host -/

namespace State

variable {s : State C S H D U} {h : H} {p : C × U} {d₀ : D}

omit [DecidableEq S] in
theorem removeClientSession_of_notMem {d : D} (hd : p ∉ (s.database d).sessionList) :
    removeClientSession h p s d = s := by
  simp [removeClientSession, hd]

omit [DecidableEq S] in
theorem foldl_removeClientSession_of_notMem (hp : ∀ d, p ∉ (s.database d).sessionList) (l : List D) :
    l.foldl (removeClientSession h p) s = s := by
  induction l with
  | nil => rfl
  | cons d l ih => rw [List.foldl_cons, removeClientSession_of_notMem (hp d), ih]

omit [DecidableEq S] in
/-- A session that is in one database of the host is removed there and counted once. -/
theorem removeClientSessionFromDB_eq (hmem : d₀ ∈ (s.host h).databaseList)
    (honly : ∀ d, p ∈ (s.database d).sessionList ↔ d = d₀) :
    s.removeClientSessionFromDB h p = removeClientSession h p s d₀ := by
  unfold removeClientSessionFromDB
  generalize (s.host h).databaseList = l at hmem
  induction l with
  | nil => cases hmem
  | cons d l ih =>
    rw [List.foldl_cons]
    by_cases hd : d = d₀
    · subst hd
      refine foldl_removeClientSession_of_notMem (fun d' => ?_) l
      by_cases hd' : d' = d
      · subst hd'
        simp [removeClientSession]
      · simp [removeClientSession, honly, hd']
    · rw [removeClientSession_of_notMem fun h => hd ((honly d).mp h)]
      exact ih ((List.mem_cons.mp hmem).resolve_left fun h => hd h.symm)

end State

/-! ## Closing a session -/

section Close

variable {s : State C S H D U} {A : Finset (Session C S D U)} {x : Session C S D U}

theorem deallocateClientSession_client (srv : S) (p : C × U) (ok : Bool) :
    (s.deallocateClientSession srv p ok).1.client = s.client := by
  have hfold : ∀ (l : List D) (s : State C S H D U) (h : H),
      (l.foldl (State.removeClientSession h p) s).client = s.client := by
    intro l
    induction l with
    | nil => exact fun _ _ => rfl
    | cons d l ih => exact fun s h => ih _ h
  exact hfold _ s _

/-- **Deallocating an open session removes it** from its server, its database and their counts. -/
theorem Holds.deallocate (h : Holds s A) (hx : x ∈ A) (ok : Bool) :
    Holds (s.deallocateClientSession x.server x.key ok).1 (A.erase x) := by
  have honly := h.stored.mem_iff_eq h.unique hx
  have hmem : x.key ∈ (s.server x.server).sessionList := (h.served _ _).mpr ⟨x, hx, rfl, rfl⟩
  have hpos : 0 < (s.server x.server).sessionList.card := Finset.card_pos.mpr ⟨_, hmem⟩
  obtain ⟨hcap, hlt⟩ := h.capacity x.server
  have hdec : ((s.server x.server).allocatedClientsNo + (2 ^ 32 - 1)) % 2 ^ 32 =
      (s.server x.server).allocatedClientsNo - 1 := by
    omega
  have hdb : ∀ srv, ((s.deallocateClientSession x.server x.key ok).1.server srv).dbHost =
      (s.server srv).dbHost := by
    intro srv
    by_cases hsrv : srv = x.server
    · subst hsrv
      simp [State.deallocateClientSession, State.setServer]
    · simp [State.deallocateClientSession, State.setServer, hsrv,
        State.removeClientSessionFromDB_eq (h.located x hx).1 honly, State.removeClientSession]
  refine ⟨h.served.erase h.unique hx ?_ fun srv hsrv => ?_,
    h.stored.erase h.unique hx ?_ fun d hd => ?_,
    fun y hy z hz => h.unique y (Finset.mem_of_mem_erase hy) z (Finset.mem_of_mem_erase hz),
    fun y hy => ?_, fun k => ?_, fun srv => ?_, fun p => ?_, ?_, ?_⟩
  all_goals try simp only [hdb]
  all_goals simp only [State.deallocateClientSession, State.setServer,
    State.removeClientSessionFromDB_eq (h.located x hx).1 honly, State.removeClientSession, hdec]
  · rw [Function.update_self]
  · rw [Function.update_of_ne hsrv]
  · rw [Function.update_self]
  · rw [Function.update_of_ne hd]
  · obtain ⟨hy', hof⟩ := h.located y (Finset.mem_of_mem_erase hy)
    refine ⟨?_, hof⟩
    by_cases hk : (s.server y.server).dbHost = (s.server x.server).dbHost
    · rw [hk] at hy' ⊢
      simpa using hy'
    · rwa [Function.update_of_ne hk]
  · have hcount := h.counted k
    rw [card_filter_erase _ hx] at hcount
    by_cases hk : (s.server x.server).dbHost = k
    · subst hk
      simp_all
    · simp_all [Ne.symm hk]
  · by_cases hsrv : srv = x.server
    · subst hsrv
      simp only [Function.update_self, Finset.card_erase_of_mem hmem]
      omega
    · simpa only [Function.update_of_ne hsrv] using h.capacity srv
  · have hp := h.once p
    rw [card_filter_erase _ hx] at hp
    simp only [List.count_cons, beq_iff_eq]
    omega
  · have hne : (s.server x.server).allocatedClientsNo ≠ 0 := by omega
    rw [if_neg hne]
    exact h.noUnderflow
  · exact h.noOverflow

end Close

/-! ## Opening a session -/

section Open

variable {max : UInt32} {s : State C S H D U} {A : Finset (Session C S D U)} {x : Session C S D U}

omit [DecidableEq C] [DecidableEq H] [LinearOrder U] in
/-- Asking for the queue changes nothing but the count of a server. -/
theorem askQueue_eq (v : SessionServer C H U) (enough : ℕ → Bool) (queue : Option UInt32) :
    ∃ n, (askQueue v enough queue).1 = { v with allocatedClientsNo := n } := by
  unfold askQueue
  split
  · exact ⟨_, rfl⟩
  · split
    · exact ⟨_, rfl⟩
    · rcases queue with _ | q
      · exact ⟨_, rfl⟩
      · exact ⟨_, rfl⟩

omit [DecidableEq C] [DecidableEq H] [LinearOrder U] in
/-- A covering report leaves a count that covers the open sessions. -/
theorem Covers.capacity {v : SessionServer C H U} {enough : ℕ → Bool} {queue : Option UInt32}
    (hc : Covers v enough queue)
    (h : v.sessionList.card ≤ v.allocatedClientsNo ∧ v.allocatedClientsNo < 2 ^ 32) :
    v.sessionList.card ≤ (askQueue v enough queue).1.allocatedClientsNo ∧
      (askQueue v enough queue).1.allocatedClientsNo < 2 ^ 32 := by
  unfold askQueue
  split
  · exact h
  · next hreg =>
    obtain ⟨hr, hs⟩ : v.registered = true ∧ v.started = true := by simpa using hreg
    split
    · exact h
    · next hen =>
      rcases queue with _ | q
      · exact h
      · exact ⟨hc hr hs (by simpa using hen) q rfl, q.toNat_lt⟩

omit [DecidableEq C] [DecidableEq H] [LinearOrder U] in
/-- A server that answers that it is available counts fewer clients than the maximum. -/
theorem isAvailable_lt {v : SessionServer C H U} {queue : Option UInt32}
    (h : (isAvailable max v queue).2 = some true) :
    (isAvailable max v queue).1.allocatedClientsNo < max.toNat := by
  unfold isAvailable askQueue at *
  split at h
  · simp at h
  · next hreg =>
    rw [if_neg hreg]
    split at h
    · next hen =>
      rw [if_pos hen]
      simpa using hen
    · next hen =>
      rw [if_neg hen]
      rcases queue with _ | q
      · simp at h
      · simpa using h

omit [DecidableEq D] in
/-- **Asking a server for its queue keeps the open sessions.** -/
theorem Holds.askQueue (h : Holds s A) (srv : S) {enough : ℕ → Bool} {queue : Option UInt32}
    (hc : Covers (s.server srv) enough queue) :
    Holds (s.setServer srv (Sessions.askQueue (s.server srv) enough queue).1) A := by
  have hcap := hc.capacity (h.capacity srv)
  obtain ⟨n, hn⟩ := askQueue_eq (s.server srv) enough queue
  rw [hn] at hcap ⊢
  have hlist : ∀ srv', ((s.setServer srv { s.server srv with allocatedClientsNo := n }).server
      srv').sessionList = (s.server srv').sessionList := by
    intro srv'
    by_cases hsrv : srv' = srv
    · subst hsrv
      simp [State.setServer]
    · simp [State.setServer, hsrv]
  have hdb : ∀ srv', ((s.setServer srv { s.server srv with allocatedClientsNo := n }).server
      srv').dbHost = (s.server srv').dbHost := by
    intro srv'
    by_cases hsrv : srv' = srv
    · subst hsrv
      simp [State.setServer]
    · simp [State.setServer, hsrv]
  refine ⟨?_, h.stored, h.unique, ?_, ?_, fun srv' => ?_, h.once, h.noUnderflow, h.noOverflow⟩
  · simpa only [hlist] using h.served
  · simp only [hdb]
    exact h.located
  · simp only [hdb]
    exact h.counted
  · rw [hlist]
    by_cases hsrv : srv' = srv
    · subst hsrv
      simpa [State.setServer] using hcap
    · simpa [State.setServer, hsrv] using h.capacity srv'

/-- The bookkeeping of an allocation that goes through. -/
def State.record (s : State C S H D U) (x : Session C S D U) : State C S H D U :=
  { s with
    server := Function.update s.server x.server
      { s.server x.server with
        sessionList := insert x.key (s.server x.server).sessionList
        allocatedClientsNo := ((s.server x.server).allocatedClientsNo + 1) % 2 ^ 32 }
    database := Function.update s.database x.database
      { s.database x.database with
        sessionList := insert x.key (s.database x.database).sessionList }
    host := Function.update s.host (s.server x.server).dbHost
      { s.host (s.server x.server).dbHost with
        sessionCount := (s.host (s.server x.server).dbHost).sessionCount + 1 } }

/-- **Recording a new session adds it** to its server, its database and their counts. -/
theorem Holds.record (h : Holds s A) (hnew : ∀ y ∈ A, y.key ≠ x.key)
    (hlt : (s.server x.server).allocatedClientsNo < max.toNat)
    (hdb : x.database ∈ (s.host (s.server x.server).dbHost).databaseList) :
    Holds { s.record x with
      databaseOf := Function.update s.databaseOf x.key (some x.database)
      issued := x.key :: s.issued } (insert x A) := by
  have hx : x ∉ A := fun hx => hnew x hx rfl
  have hinc : ((s.server x.server).allocatedClientsNo + 1) % 2 ^ 32 =
      (s.server x.server).allocatedClientsNo + 1 := by
    have := max.toNat_lt
    omega
  have hhost : ∀ srv, ((s.record x).server srv).dbHost = (s.server srv).dbHost := by
    intro srv
    by_cases hsrv : srv = x.server
    · subst hsrv
      simp [State.record]
    · simp [State.record, hsrv]
  have hlist : ∀ k, ((s.record x).host k).databaseList = (s.host k).databaseList := by
    intro k
    by_cases hk : k = (s.server x.server).dbHost
    · subst hk
      simp [State.record]
    · simp [State.record, hk]
  refine ⟨h.served.insert ?_ fun srv hsrv => ?_, h.stored.insert ?_ fun d hd => ?_, ?_, ?_,
    fun k => ?_, fun srv => ?_, fun p => ?_, h.noUnderflow, h.noOverflow⟩
  · simp [State.record]
  · simp [State.record, hsrv]
  · simp [State.record]
  · simp [State.record, hd]
  · intro y hy z hz hkey
    rcases Finset.mem_insert.mp hy with hy' | hy' <;> rcases Finset.mem_insert.mp hz with hz' | hz'
    · rw [hy', hz']
    · exact absurd (hy' ▸ hkey.symm) (hnew z hz')
    · exact absurd (hz' ▸ hkey) (hnew y hy')
    · exact h.unique y hy' z hz' hkey
  · intro y hy
    simp only [hhost, hlist]
    rcases Finset.mem_insert.mp hy with rfl | hy
    · exact ⟨hdb, Function.update_self ..⟩
    · exact ⟨(h.located y hy).1, by simpa [hnew y hy] using (h.located y hy).2⟩
  · simp only [hhost, card_filter_insert _ hx]
    by_cases hk : (s.server x.server).dbHost = k
    · subst hk
      simp [State.record, h.counted]
    · simp [State.record, hk, Ne.symm hk, h.counted]
  · by_cases hsrv : srv = x.server
    · subst hsrv
      have hcard := Finset.card_insert_le x.key (s.server x.server).sessionList
      have hcap := h.capacity x.server
      have hmax := max.toNat_lt
      simp only [State.record, Function.update_self, hinc]
      omega
    · simpa [State.record, hsrv] using h.capacity srv
  · have hp := h.once p
    rw [card_filter_insert _ hx]
    simp only [State.record, List.count_cons, beq_iff_eq]
    omega

/-- An allocation that goes through leaves what the queue left, with the session recorded. -/
theorem allocateClientSession_eq {dbName : Text} {dbRights : UserDatabaseRights} {queue : Option UInt32}
    {sent : Sending} (hav : (isAvailable max (s.server x.server) queue).2 = some true)
    (hfits : CapabilityFits sent.now (s.server x.server).serverId dbName) (hok : sent.ok = true)
    (hd : s.findDb (s.server x.server).dbHost dbName = some x.database)
    (hnot : x.key ∉ (s.database x.database).sessionList) :
    s.allocateClientSession max x.server x.key dbName dbRights queue sent =
      ((s.setServer x.server (isAvailable max (s.server x.server) queue).1).record x, true) := by
  obtain ⟨n, hn⟩ := askQueue_eq (s.server x.server) (· < max.toNat) queue
  have hfind : (s.setServer x.server (isAvailable max (s.server x.server) queue).1).findDb
      (s.server x.server).dbHost dbName = some x.database := hd
  have hhost : (isAvailable max (s.server x.server) queue).1.dbHost = (s.server x.server).dbHost := by
    rw [isAvailable, hn]
  have hid : (isAvailable max (s.server x.server) queue).1.serverId = (s.server x.server).serverId := by
    rw [isAvailable, hn]
  obtain ⟨capability, hcap⟩ : ∃ capability, ServerRasNet.getCapability sent.messageDigest sent.now
      (s.server x.server).serverId dbName dbRights = .ok capability :=
    ⟨_, ServerRasNet.getCapability_eq_ok_iff.mpr ⟨hfits, rfl⟩⟩
  simp only [State.allocateClientSession, hav, hid, hcap, hok, State.addClientSessionOnDB, hhost, hfind]
  simp [State.setServer, hnot, State.record, hhost, hid]

omit [DecidableEq H] in
theorem Listed.assignServer (h : Listed s A) (dbName : Text) (hfree : x.id ∉ s.assignedIds x.client) :
    Listed (s.assignServer x.client dbName x.server x.id) (insert x A) := by
  refine ⟨fun c id srv => ?_, fun c => ?_⟩
  · simp only [Finset.mem_insert, or_and_right, exists_or, exists_eq_left]
    rw [← h.assigned]
    by_cases hc : c = x.client
    · subst hc
      simp [State.assignServer, State.setAssigned, List.mem_orderedInsert, Session.key, eq_comm]
    · simp [State.assignServer, State.setAssigned, Session.key, hc, Ne.symm hc]
  · by_cases hc : c = x.client
    · subst hc
      have hperm := (List.perm_orderedInsert (fun a b : U × S => a.1 ≤ b.1) (x.id, x.server)
        (s.client x.client).assignedServers).map Prod.fst
      simp only [State.assignedIds, State.assignServer, State.setAssigned, Function.update_self]
      rw [hperm.nodup_iff, List.map_cons, List.nodup_cons]
      exact ⟨hfree, h.nodup x.client⟩
    · simpa [State.assignedIds, State.assignServer, State.setAssigned, hc] using h.nodup c

/-- **A session that is opened without a failure is added.** -/
theorem Represents.assignServer (h : Represents s A) {dbName : Text} {dbRights : UserDatabaseRights}
    {queue : Option UInt32} {sent : Sending} (hfree : x.id ∉ s.assignedIds x.client)
    (hav : (isAvailable max (s.server x.server) queue).2 = some true)
    (hcov : Covers (s.server x.server) (· < max.toNat) queue)
    (hfits : CapabilityFits sent.now (s.server x.server).serverId dbName) (hok : sent.ok = true)
    (hd : s.findDb (s.server x.server).dbHost dbName = some x.database) :
    Represents ((s.assignServer x.client dbName x.server x.id).allocateClientSession max x.server x.key
      dbName dbRights queue sent).1 (insert x A) := by
  have hnew : ∀ y ∈ A, y.key ≠ x.key := by
    intro y hy hkey
    exact hfree (List.mem_map.mpr
      ⟨_, (h.2.assigned x.client x.id y.server).mpr ⟨y, hy, hkey, rfl⟩, rfl⟩)
  have hnot : x.key ∉ (s.database x.database).sessionList := by
    intro hin
    obtain ⟨y, hy, hkey, -⟩ := (h.1.stored _ _).mp hin
    exact hnew y hy hkey
  have hlt : ((s.setServer x.server (isAvailable max (s.server x.server) queue).1).server
      x.server).allocatedClientsNo < max.toNat := by
    simpa [State.setServer] using isAvailable_lt hav
  have hmem : x.database ∈ (s.host ((s.setServer x.server (isAvailable max (s.server x.server)
      queue).1).server x.server).dbHost).databaseList := by
    obtain ⟨n, hn⟩ := askQueue_eq (s.server x.server) (· < max.toNat) queue
    simpa [State.setServer, isAvailable, hn] using List.mem_of_find?_eq_some hd
  have hheld := (h.1.askQueue x.server hcov).record hnew hlt hmem
  rw [allocateClientSession_eq (s := s.assignServer x.client dbName x.server x.id) hav hfits hok hd hnot]
  have hlist := h.2.assignServer dbName hfree
  refine ⟨?_, hlist.assigned, hlist.nodup⟩
  simp only [State.assignServer, hd]
  exact ⟨hheld.served, hheld.stored, hheld.unique, hheld.located, hheld.counted, hheld.capacity,
    hheld.once, hheld.noUnderflow, hheld.noOverflow⟩

end Open

/-! ## Runs without failures -/

section Runs

variable {max : UInt32} {s : State C S H D U} {A : Finset (Session C S D U)}

theorem Represents.addDbSession (h : Represents s A) {c : C} {dbName : Text} {srv : S}
    {uuids : List U} {queue : Option UInt32} {sent : Sending}
    (ho : Orderly max s (.addDbSession c dbName srv uuids queue sent)) :
    ∃ A', Represents (s.addDbSession max c dbName srv uuids queue sent).1 A' := by
  unfold State.addDbSession
  rcases hid : uuids.find? (· ∉ s.assignedIds c) with _ | id
  · exact ⟨A, h⟩
  by_cases hr : (s.client c).hasRights = true
  · obtain ⟨hav, hcov, hfits, hok, hdb⟩ := ho hr
    obtain ⟨d, hd⟩ := Option.isSome_iff_exists.mp hdb
    have hfree : id ∉ s.assignedIds c := by simpa using List.find?_some hid
    simp only [hr, if_true]
    exact ⟨_, h.assignServer (x := ⟨c, id, srv, d⟩) hfree hav hcov hfits hok hd⟩
  · simp only [hr]
    exact ⟨A, h⟩

omit [DecidableEq S] [DecidableEq H] [DecidableEq D] [LinearOrder U] in
/-- A client that keeps some of its session ids lists the sessions with these ids. -/
theorem Listed.keep (h : Listed s A) {s' : State C S H D U} (hs : s'.client = s.client) (c : C)
    (P : U → Bool) :
    Listed (s'.setAssigned c ((s.client c).assignedServers.filter fun e => P e.1))
      (A.filter fun x => x.client = c → P x.id) := by
  refine ⟨fun c' id srv => ?_, fun c' => ?_⟩
  · have hA : (∃ x ∈ A.filter (fun x => x.client = c → P x.id), x.key = (c', id) ∧ x.server = srv) ↔
        (c' = c → P id) ∧ ∃ x ∈ A, x.key = (c', id) ∧ x.server = srv := by
      constructor
      · rintro ⟨x, hx, hkey, hsrv⟩
        obtain ⟨rfl, rfl⟩ := Prod.mk.inj hkey
        exact ⟨(Finset.mem_filter.mp hx).2, x, (Finset.mem_filter.mp hx).1, hkey, hsrv⟩
      · rintro ⟨hP, x, hx, hkey, hsrv⟩
        obtain ⟨rfl, rfl⟩ := Prod.mk.inj hkey
        exact ⟨x, Finset.mem_filter.mpr ⟨hx, hP⟩, hkey, hsrv⟩
    rw [hA, ← h.assigned]
    by_cases hc : c' = c
    · subst hc
      simp [State.setAssigned, and_comm]
    · simp [State.setAssigned, hs, hc]
  · by_cases hc : c' = c
    · subst hc
      simp only [State.assignedIds, State.setAssigned, Function.update_self]
      exact (h.nodup c').sublist (List.filter_sublist.map Prod.fst)
    · simpa [State.assignedIds, State.setAssigned, hs, hc] using h.nodup c'

theorem Represents.removeDbSession (h : Represents s A) {c : C} {sessionId : U} {ok : Bool}
    (ho : Orderly max s (.removeDbSession (S := S) c sessionId ok)) :
    ∃ A', Represents (s.removeDbSession c sessionId ok).1 A' := by
  unfold State.removeDbSession
  rcases he : (s.client c).assignedServers.find? fun e : U × S => e.1 = sessionId with _ | ⟨id, srv⟩
  · exact ⟨A, h⟩
  have hmem := List.mem_of_find?_eq_some he
  obtain rfl : id = sessionId := by simpa using List.find?_some he
  obtain ⟨x, hx, hkey, rfl⟩ := (h.2.assigned _ _ _).mp hmem
  obtain rfl := ho (List.mem_map.mpr ⟨_, hmem, rfl⟩)
  have hheld := h.1.deallocate hx true
  rw [hkey] at hheld
  have hclient := deallocateClientSession_client (s := s) x.server (c, id) true
  have hlist := h.2.keep hclient c fun id' => id' ≠ id
  have hset : A.filter (fun y => y.client = c → decide (y.id ≠ id)) = A.erase x := by
    ext y
    rw [Finset.mem_filter, Finset.mem_erase, and_comm, and_congr_left_iff]
    intro hy
    obtain ⟨rfl, rfl⟩ := Prod.mk.inj hkey
    rw [decide_eq_true_iff, ← not_and]
    exact not_congr ⟨fun hk => h.1.unique y hy x hx (Prod.ext hk.1 hk.2), by rintro rfl; simp⟩
  rw [hset, ← hclient] at hlist
  exact ⟨A.erase x, ⟨hheld.served, hheld.stored, hheld.unique, hheld.located, hheld.counted,
    hheld.capacity, hheld.once, hheld.noUnderflow, hheld.noOverflow⟩, hlist⟩

theorem deallocateAll_spec {c : C} {ok : U → Bool} {l : List (U × S)} (h : Holds s A)
    (hnd : (l.map Prod.fst).Nodup) (hmem : ∀ e ∈ l, ∃ x ∈ A, x.key = (c, e.1) ∧ x.server = e.2)
    (hok : ∀ e ∈ l, ok e.1 = true) :
    (State.deallocateAll c ok l s).2 = true ∧ (State.deallocateAll c ok l s).1.client = s.client ∧
      Holds (State.deallocateAll c ok l s).1
        (A.filter fun x => x.client = c → x.id ∉ l.map Prod.fst) := by
  induction l generalizing s A with
  | nil => simpa [State.deallocateAll] using h
  | cons e l ih =>
    obtain ⟨x, hx, hkey, hsrv⟩ := hmem e List.mem_cons_self
    obtain ⟨hxc, hxi⟩ := Prod.mk.inj hkey
    rw [List.map_cons, List.nodup_cons] at hnd
    have hheld := h.deallocate hx (ok e.1)
    rw [hkey, hsrv] at hheld
    have hret : (s.deallocateClientSession e.2 (c, e.1) (ok e.1)).2 = true := hok e List.mem_cons_self
    have hmem' : ∀ e' ∈ l, ∃ y ∈ A.erase x, y.key = (c, e'.1) ∧ y.server = e'.2 := by
      intro e' he'
      obtain ⟨y, hy, hykey, hysrv⟩ := hmem e' (List.mem_cons_of_mem _ he')
      refine ⟨y, Finset.mem_erase.mpr ⟨?_, hy⟩, hykey, hysrv⟩
      rintro rfl
      exact hnd.1 (List.mem_map.mpr ⟨e', he', (Prod.mk.inj (hykey.symm.trans hkey)).2⟩)
    obtain ⟨h₁, h₂, h₃⟩ := ih hheld hnd.2 hmem' fun e' he' => hok e' (List.mem_cons_of_mem _ he')
    have hset : (A.erase x).filter (fun y => y.client = c → y.id ∉ l.map Prod.fst) =
        A.filter fun y => y.client = c → y.id ∉ (e :: l).map Prod.fst := by
      ext y
      simp only [Finset.mem_filter, Finset.mem_erase, List.map_cons, List.mem_cons, not_or]
      constructor
      · rintro ⟨⟨hne, hy⟩, hl⟩
        refine ⟨hy, fun hc => ⟨fun hid => hne ?_, hl hc⟩⟩
        exact h.unique y hy x hx (Prod.ext (hc.trans hxc.symm) (hid.trans hxi.symm))
      · rintro ⟨hy, hl⟩
        refine ⟨⟨?_, hy⟩, fun hc => (hl hc).2⟩
        rintro rfl
        exact (hl hxc).1 hxi
    rw [hset] at h₃
    rw [State.deallocateAll, if_pos hret]
    exact ⟨h₁, h₂.trans (deallocateClientSession_client ..), h₃⟩

theorem Represents.removeClientFromServers (h : Represents s A) {c : C} {ok : U → Bool}
    (ho : Orderly max s (.removeClientFromServers (S := S) c ok)) :
    ∃ A', Represents (s.removeClientFromServers c ok).1 A' := by
  obtain ⟨hret, hclient, hheld⟩ := deallocateAll_spec h.1 (h.2.nodup c)
    (fun e he => (h.2.assigned c e.1 e.2).mp he)
    (fun e he => ho e.1 (List.mem_map.mpr ⟨e, he, rfl⟩))
  have hlist := h.2.keep hclient c fun _ => false
  have hset : A.filter (fun x => x.client = c → x.id ∉ (s.client c).assignedServers.map Prod.fst) =
      A.filter fun x => x.client = c → false = true := by
    refine Finset.filter_congr fun x hx => imp_congr_right ?_
    rintro rfl
    have hmem : x.id ∈ (s.client x.client).assignedServers.map Prod.fst :=
      List.mem_map.mpr ⟨_, (h.2.assigned x.client x.id x.server).mpr ⟨x, hx, rfl, rfl⟩, rfl⟩
    simp [hmem]
  rw [List.filter_false] at hlist
  rw [hset] at hheld
  unfold State.removeClientFromServers
  simp only [hret, if_true]
  exact ⟨_, ⟨hheld.served, hheld.stored, hheld.unique, hheld.located, hheld.counted,
    hheld.capacity, hheld.once, hheld.noUnderflow, hheld.noOverflow⟩, hlist⟩

/-- **An operation that meets no failure keeps the four places in step.** -/
theorem Represents.step (l : Op C S U) (h : ∃ A, Represents s A) (ho : Orderly max s l) :
    ∃ A, Represents (step max s l) A := by
  obtain ⟨A, h⟩ := h
  cases l with
  | addDbSession c dbName srv uuids queue ok => exact h.addDbSession ho
  | removeDbSession c sessionId ok => exact h.removeDbSession ho
  | removeClientFromServers c ok => exact h.removeClientFromServers ho
  | isFree srv queue => exact ⟨A, h.1.askQueue srv ho, h.2.assigned, h.2.nodup⟩
  | isAvailable srv queue => exact ⟨A, h.1.askQueue srv ho, h.2.assigned, h.2.nodup⟩

/-- **Session accounting.**  In a run whose operations meet no failure half way, the client, the
server, the database and the counts agree after every operation. -/
theorem session_accounting {ops before : List (Op C S U)} (h₀ : Initial s)
    (h : Along (step max) (Orderly max) s ops) (hpre : before <+: ops) :
    Accounted (run (step max) s before) := by
  obtain ⟨rest, rfl⟩ := hpre
  obtain ⟨A, hA⟩ := (along_append.mp h).1.inv (I := fun s => ∃ A, Represents s A)
    (fun _ l h ho => Represents.step l h ho) ⟨∅, h₀.represents⟩
  exact hA.accounted

end Runs

/-! ## A database on two hosts -/

/-- A client with rights, two servers on two hosts, and one database on both hosts. -/
def twoHosts : State Unit Bool Bool Unit ℕ where
  client _ := { dbRights := ⟨true, false⟩ }
  server b :=
    { registered := true, started := true, allocatedClientsNo := 0, serverId := "s".toList, dbHost := b }
  host _ := { databaseList := [()] }
  database _ := { dbName := "RASBASE".toList }

theorem twoHosts_initial : Initial twoHosts :=
  ⟨fun _ => rfl, fun _ => ⟨rfl, rfl⟩, fun _ => rfl, fun _ => rfl, rfl, rfl, rfl⟩

/-- A call that succeeds, on the first of January 2016 at noon, with a digest of zeros. -/
def sentAtNoon : Sending where
  now := ⟨15, 4, 116, 12, 0, 0, by decide, by decide, by decide, by decide, by decide, by decide⟩
  messageDigest _ := ⟨List.replicate 32 '0', by decide, by decide⟩
  ok := true

/-- Two sessions, one on each host, with a queue report in between; then all are closed. -/
def twoSessions : List (Op Unit Bool ℕ) :=
  [.addDbSession () "RASBASE".toList true [3] none sentAtNoon,
    .addDbSession () "RASBASE".toList false [3, 2] none sentAtNoon,
    .isFree true (some 1),
    .removeDbSession () 3 true,
    .removeClientFromServers () fun _ => true]

theorem session_accounting_twoSessions :
    Accounted (run (step 1) twoHosts (twoSessions.take 4)) ∧
      ((run (step 1) twoHosts (twoSessions.take 2)).client ()).assignedServers =
        [(2, false), (3, true)] := by
  refine ⟨session_accounting twoHosts_initial ?_ (List.take_prefix 4 twoSessions), by decide⟩
  refine ⟨?_, ?_, ?_, ?_, ?_, trivial⟩
  · exact fun _ => ⟨by decide, fun _ _ h => absurd h (by decide), by decide, rfl, by decide⟩
  · exact fun _ => ⟨by decide, fun _ _ h => absurd h (by decide), by decide, rfl, by decide⟩
  · rintro _ _ _ q ⟨⟩
    decide
  · exact fun _ => rfl
  · exact fun _ _ => rfl

/-- A database that is not on the host: the session stays with the client and is nowhere else. -/
theorem session_left_with_client :
    ¬∀ ops : List (Op Unit Bool ℕ), Accounted (run (step 1) twoHosts ops) := by
  intro h
  have hacc := h [.addDbSession () "NOBASE".toList true [3] none sentAtNoon]
  have hmem := (hacc.server () 3 true).mp (by decide)
  exact absurd hmem (by decide)

end Sessions

end Rasdaman
