import Rasdaman.Machinery.Walk
import Rasdaman.Rasmgr.ServerGroupPorts

/-!
# Rasmgr/ServerManager — looking for a server through all groups

`ServerManager` walks over its groups, and a group over its servers, until one answers.  A group that
is stopped throws when a server wants to register, and a server that was told to stop throws when it is
asked for capacity while it is still listed; either ends the whole walk.
-/

namespace Rasdaman

open Effect Walk

/-! ## Servers -/

/-- The state of a `ServerRasNet`. -/
structure ServerRasNet where
  registered : Bool
  started : Bool
  allocatedClientsNo : ℕ
  deriving DecidableEq

/-- What surrounds the groups: the servers by id, what `GetServerStatus` reports as their queue (if it
answers), the capacity of a server and the databases of the hosts. -/
structure Surroundings where
  server : ℕ → ServerRasNet
  clientQueueSize : ℕ → Option ℕ
  maximumNumberOfClientsPerServer : ℕ
  ownsDatabase : Text → Text → Bool

namespace Surroundings

variable (x : Surroundings)

/-- `ServerRasNet::isAvailable`; nothing when it throws. -/
def isAvailable (s : Server) : Option Bool :=
  let srv := x.server s.serverId
  if ¬srv.registered ∨ ¬srv.started then none
  else if srv.allocatedClientsNo < x.maximumNumberOfClientsPerServer then some true
  else (x.clientQueueSize s.serverId).map (· < x.maximumNumberOfClientsPerServer)

/-- A registered and started server with free capacity. -/
def Free (s : Server) : Prop :=
  (x.server s.serverId).registered = true ∧ (x.server s.serverId).started = true ∧
    ((x.server s.serverId).allocatedClientsNo < x.maximumNumberOfClientsPerServer ∨
      ∃ n, x.clientQueueSize s.serverId = some n ∧ n < x.maximumNumberOfClientsPerServer)

/-- A server that throws when it is asked: it is not registered or was stopped, or it is full by its
own count and does not answer. -/
def Throws (s : Server) : Prop :=
  (x.server s.serverId).registered = false ∨ (x.server s.serverId).started = false ∨
    (x.maximumNumberOfClientsPerServer ≤ (x.server s.serverId).allocatedClientsNo ∧
      x.clientQueueSize s.serverId = none)

theorem isAvailable_eq_true {s : Server} : x.isAvailable s = some true ↔ x.Free s := by
  simp only [isAvailable, Free]
  rcases (x.server s.serverId).registered <;> rcases (x.server s.serverId).started <;> simp
  rw [← Nat.not_lt, ← or_iff_not_imp_left]

theorem isAvailable_eq_none {s : Server} : x.isAvailable s = none ↔ x.Throws s := by
  simp only [isAvailable, Throws]
  rcases (x.server s.serverId).registered <;> rcases (x.server s.serverId).started <;> simp
  rw [← Nat.not_lt]
  split <;> simp [*]

/-- What the calls of a group are answered with. -/
def answers (g : ServerGroupImpl) (dbName : Text) (serverId : ℕ) : Environment
  | .ownsDatabase, _ => some (if x.ownsDatabase g.databaseHost dbName then 1 else 0)
  | .isAvailable, k =>
    (g.runningServers[k - 1]?).bind fun s => (x.isAvailable s).map fun b => if b then 1 else 0
  | .registerServer, _ => if (x.server serverId).started then some 1 else none
  | _, _ => some 0

end Surroundings

/-! ## The manager -/

namespace ServerManager

variable (x : Surroundings)

/-- `registerServer`: the groups it leaves, and whether it returns. -/
def registerServer (serverId : ℕ) : List ServerGroupImpl → List ServerGroupImpl × Bool
  | [] => ([], false)
  | g :: groups =>
    match exec (ServerGroupImpl.tryRegisterServer serverId) (x.answers g [] serverId) { group := g } with
    | (.ok true, w) => (w.group :: groups, true)
    | (.ok false, w) =>
      let r := registerServer serverId groups
      (w.group :: r.1, r.2)
    | (.error _, w) => (w.group :: groups, false)

/-- `tryGetFreeServer`: the groups it leaves, and what it returns if it returns. -/
def tryGetFreeServer (databaseName : Text) :
    List ServerGroupImpl → List ServerGroupImpl × Option (Option Server)
  | [] => ([], some none)
  | g :: groups =>
    match exec (ServerGroupImpl.tryGetAvailableServer databaseName) (x.answers g databaseName 0)
      { group := g } with
    | (.ok (some s), w) => (w.group :: groups, some (some s))
    | (.ok none, w) =>
      let r := tryGetFreeServer databaseName groups
      (w.group :: r.1, r.2)
    | (.error _, w) => (w.group :: groups, none)

/-! ## One group -/

section Group

variable {x} {g : ServerGroupImpl} {serverId : ℕ} {dbName : Text}

open ServerGroupImpl

/-- What a group answers to a server that registers; nothing when it throws. -/
def registers (x : Surroundings) (serverId : ℕ) (g : ServerGroupImpl) : Option Bool :=
  if g.stopped then none
  else if g.startingServers.any (·.serverId == serverId) then
    if (x.server serverId).started then some true else none
  else some false

theorem exec_tryRegisterServer :
    (exec (tryRegisterServer serverId) (x.answers g [] serverId) { group := g }).1.toOption
      = registers x serverId g := by
  simp only [tryRegisterServer, getGroup, exec_bind, exec_get, exec_pure, registers]
  cases g.stopped
  · simp only [Bool.false_eq_true, if_false]
    split
    · rename_i s hfind
      have hid := List.find?_some hfind
      rw [List.any_eq_true.mpr ⟨s, List.mem_of_find?_eq_some hfind, hid⟩]
      simp only [if_true, exec_bind, exec_ask, Surroundings.answers]
      cases (x.server serverId).started <;> rfl
    · rename_i hfind
      rw [List.any_eq_false.mpr (List.find?_eq_none.mp hfind)]
      rfl
  · rfl

/-- A group with its running servers in another order. -/
def Reordered (g g' : ServerGroupImpl) : Prop :=
  ∃ l, l.Perm g.runningServers ∧ g' = { g with runningServers := l }

theorem reordered_refl (g : ServerGroupImpl) : Reordered g g := ⟨_, .refl _, rfl⟩

/-- The loop of `tryGetAvailableServer`, from its place in the list. -/
theorem exec_findAvailable (kept rest : List Server) (hg : g.runningServers = kept ++ rest) :
    ∀ r, exec (findAvailable kept rest) (x.answers g dbName 0) ⟨g, kept.length + 1, 0⟩ = r →
      r.1.toOption = walk x.isAvailable rest ∧ Reordered g r.2.group := by
  induction rest generalizing kept with
  | nil =>
    rintro r rfl
    exact ⟨rfl, reordered_refl g⟩
  | cons s rest ih =>
    rintro r rfl
    have hanswer : x.answers g dbName 0 .isAvailable (kept.length + 1)
        = (x.isAvailable s).map fun b => if b then 1 else 0 := by
      simp [Surroundings.answers, hg]
    rw [walk, findAvailable, askBool]
    rcases havail : x.isAvailable s with _ | _ | _ <;>
      simp only [havail, Option.map_none, Option.map_some] at hanswer
    · simp only [exec_bind, exec_ask, hanswer]
      exact ⟨rfl, reordered_refl g⟩
    · simp only [exec_bind, exec_ask, hanswer, exec_pure, Bool.false_eq_true, if_false, bne_self_eq_false]
      have hnext := ih (kept ++ [s]) (by rw [hg, List.append_assoc]; rfl)
      rw [List.length_append, List.length_singleton] at hnext
      exact hnext _ rfl
    · simp [exec_bind, exec_ask, hanswer, setGroup]
      refine ⟨rfl, kept ++ (rest ++ [s]), ?_, rfl⟩
      rw [hg]
      exact List.Perm.append_left kept (List.perm_append_singleton s rest)

theorem exec_tryGetAvailableServer :
    ∀ r, exec (tryGetAvailableServer dbName) (x.answers g dbName 0) { group := g } = r →
      r.1.toOption = walk x.isAvailable (if x.ownsDatabase g.databaseHost dbName then g.runningServers else []) ∧
        Reordered g r.2.group := by
  rintro r rfl
  have hanswer : x.answers g dbName 0 .ownsDatabase 0
      = some (if x.ownsDatabase g.databaseHost dbName then 1 else 0) := rfl
  cases howns : x.ownsDatabase g.databaseHost dbName <;> simp only [howns] at hanswer
  · simp [tryGetAvailableServer, getGroup, askBool, exec_bind, exec_ask, hanswer]
    exact ⟨rfl, reordered_refl g⟩
  · simp [tryGetAvailableServer, getGroup, askBool, exec_bind, exec_ask, hanswer]
    exact exec_findAvailable [] g.runningServers rfl _ rfl

end Group

/-! ## All groups -/

section Groups

variable {x} {serverId : ℕ} {dbName : Text}

/-- `registerServer` is a walk over the groups. -/
theorem registerServer_eq_walk (groups : List ServerGroupImpl) :
    (registerServer x serverId groups).2 = true ↔
      ∃ g, walk (registers x serverId) groups = some (some g) := by
  induction groups with
  | nil => simp [registerServer, walk]
  | cons g groups ih =>
    have hgroup : _ = registers x serverId g := exec_tryRegisterServer
    rw [registerServer, walk]
    rcases hrun : exec (ServerGroupImpl.tryRegisterServer serverId) (x.answers g [] serverId)
      { group := g } with ⟨e | _ | _, w⟩ <;> rw [hrun] at hgroup <;> rw [← hgroup]
    · simp [Except.toOption]
    · exact ih
    · simp [Except.toOption]

/-- The running servers of the groups that own a database. -/
def candidates (x : Surroundings) (dbName : Text) (groups : List ServerGroupImpl) : List Server :=
  groups.flatMap fun g => if x.ownsDatabase g.databaseHost dbName then g.runningServers else []

/-- `tryGetFreeServer` is a walk over the servers of all groups, and leaves them in another order. -/
theorem tryGetFreeServer_eq_walk (groups : List ServerGroupImpl) :
    (tryGetFreeServer x dbName groups).2 = walk x.isAvailable (candidates x dbName groups) ∧
      List.Forall₂ Reordered groups (tryGetFreeServer x dbName groups).1 := by
  have hrefl : ∀ groups, List.Forall₂ Reordered groups groups :=
    fun groups => List.forall₂_same.mpr fun g _ => reordered_refl g
  induction groups with
  | nil => exact ⟨rfl, .nil⟩
  | cons g groups ih =>
    rw [tryGetFreeServer, candidates, List.flatMap_cons, walk_append]
    rcases hrun : exec (ServerGroupImpl.tryGetAvailableServer dbName) (x.answers g dbName 0)
      { group := g } with ⟨e | _ | s, w⟩ <;>
      obtain ⟨houtcome, hreorder⟩ := exec_tryGetAvailableServer _ hrun <;> rw [← houtcome]
    · exact ⟨rfl, .cons hreorder (hrefl groups)⟩
    · exact ⟨ih.1, .cons hreorder ih.2⟩
    · exact ⟨rfl, .cons hreorder (hrefl groups)⟩

end Groups

/-! ## Who blocks whom -/

/-- A group that is not stopped and has a starting and started server with the id. -/
def Starting (x : Surroundings) (serverId : ℕ) (g : ServerGroupImpl) : Prop :=
  g.stopped = false ∧ (∃ s ∈ g.startingServers, s.serverId = serverId) ∧
    (x.server serverId).started = true

instance (x : Surroundings) (serverId : ℕ) : DecidablePred (Starting x serverId) := fun _ =>
  inferInstanceAs (Decidable (_ ∧ _ ∧ _))

instance (x : Surroundings) : DecidablePred x.Free := fun _ =>
  decidable_of_iff _ x.isAvailable_eq_true

/-- No stopped group stands before the first group that has the server. -/
def RegistersInTime (x : Surroundings) (serverId : ℕ) (groups : List ServerGroupImpl) : Prop :=
  (∃ g ∈ groups, Starting x serverId g) →
    ∀ g ∈ groups.takeWhile fun g => ¬Starting x serverId g, g.stopped = false

/-- No server that throws stands before the first free one. -/
def AnswersInTime (x : Surroundings) (servers : List Server) : Prop :=
  (∃ s ∈ servers, x.Free s) → ∀ s ∈ servers.takeWhile fun s => ¬x.Free s, ¬x.Throws s

section Blocking

variable {x} {serverId : ℕ} {g : ServerGroupImpl}

theorem registers_eq_true : registers x serverId g = some true ↔ Starting x serverId g := by
  simp only [registers, Starting]
  cases g.stopped <;> simp
  split <;> simp [*]

theorem registers_eq_none (hstarted : (x.server serverId).started = true) :
    registers x serverId g = none ↔ g.stopped = true := by
  simp only [registers, hstarted, if_true]
  cases g.stopped <;> simp
  split <;> simp

theorem registerServer_iff (groups : List ServerGroupImpl) :
    ((∃ g ∈ groups, Starting x serverId g) → (registerServer x serverId groups).2 = true) ↔
      RegistersInTime x serverId groups := by
  rw [registerServer_eq_walk]
  have hyes := found_of_yes_iff (registers x serverId) groups
  have hsame : (fun g => registers x serverId g != some true) = fun g => decide ¬Starting x serverId g :=
    funext fun g => by
      rw [← Bool.coe_iff_coe]
      simp [registers_eq_true]
  simp only [registers_eq_true, hsame] at hyes
  refine hyes.trans (forall_congr' fun hstarting => ?_)
  obtain ⟨g, -, -, -, hstarted⟩ := hstarting
  refine forall_congr' fun g => forall_congr' fun _ => ?_
  rw [ne_eq, registers_eq_none hstarted, Bool.not_eq_true]

theorem tryGetFreeServer_iff (dbName : Text) (groups : List ServerGroupImpl) :
    ((∃ s ∈ candidates x dbName groups, x.Free s) →
        ∃ s, (tryGetFreeServer x dbName groups).2 = some (some s)) ↔
      AnswersInTime x (candidates x dbName groups) := by
  rw [(tryGetFreeServer_eq_walk groups).1]
  have hyes := found_of_yes_iff x.isAvailable (candidates x dbName groups)
  have hsame : (fun s => x.isAvailable s != some true) = fun s => decide ¬x.Free s :=
    funext fun s => by
      rw [← Bool.coe_iff_coe]
      simp [x.isAvailable_eq_true]
  simp only [x.isAvailable_eq_true, hsame, ne_eq, x.isAvailable_eq_none] at hyes
  exact hyes

end Blocking

/-- **Other groups and servers do not stand in the way, exactly when none that throws comes first.**
Whatever a search meets, it leaves the running servers of every group in some order. -/
theorem search_unblocked_iff (x : Surroundings) (groups : List ServerGroupImpl) (serverId : ℕ)
    (dbName : Text) :
    (((∃ g ∈ groups, Starting x serverId g) → (registerServer x serverId groups).2 = true) ∧
      ((∃ s ∈ candidates x dbName groups, x.Free s) →
        ∃ s, (tryGetFreeServer x dbName groups).2 = some (some s)) ∧
      List.Forall₂ Reordered groups (tryGetFreeServer x dbName groups).1) ↔
    RegistersInTime x serverId groups ∧ AnswersInTime x (candidates x dbName groups) := by
  rw [registerServer_iff, tryGetFreeServer_iff, and_iff_left (tryGetFreeServer_eq_walk groups).2]

end ServerManager

/-! ## A stopped group and a stopped server -/

/-- Server 0 was told to stop, server 1 is free. -/
def oneStopped : Surroundings where
  server id := ⟨true, id != 0, 0⟩
  clientQueueSize _ := none
  maximumNumberOfClientsPerServer := 1
  ownsDatabase _ _ := true

/-- Servers that have been started. -/
def allStarted : Surroundings := { oneStopped with server := fun _ => ⟨false, true, 0⟩ }

/-- The group after `start`, when everything it calls returns. -/
def startedGroup : ServerGroupImpl :=
  (exec ServerGroupImpl.start (fun _ _ => some 1) { group := twoPortsGroup }).2.group

/-- The group with its two servers running, which keeps no idle server. -/
def runningGroup : ServerGroupImpl :=
  { twoPortsGroup with
    config := { twoPortsGroup.config with maxIdleServerNo := some 0 }
    stopped := false
    runningServers := [⟨0, 2000⟩, ⟨1, 2001⟩]
    availablePorts := ∅ }

/-- A server of a started group cannot register when a stopped group is listed before, and a free
server is not found when a stopped one is listed before. -/
theorem search_blocked :
    (ServerManager.Starting allStarted 0 startedGroup ∧
      (ServerManager.registerServer allStarted 0 [twoPortsGroup, startedGroup]).2 = false) ∧
    (oneStopped.Free ⟨1, 2001⟩ ∧
      (ServerManager.tryGetFreeServer oneStopped [] [runningGroup]).2 = none) := by
  decide +kernel

end Rasdaman
