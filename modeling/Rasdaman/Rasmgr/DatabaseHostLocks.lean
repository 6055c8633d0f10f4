import Rasdaman.Rasmgr.Managers
import Rasdaman.Rasmgr.ServerGroupPorts
import Mathlib

/-!
# Rasmgr/DatabaseHostLocks — server groups and the database hosts they lock

A group locks its database host by a counter.  `changeGroupConfig` writes the new configuration before it
validates it, and releases the old host before it looks for the new one: a change that fails leaves traces
exactly where `ChangesAtomically` does not hold.  As long as no change releases a host and finds no other,
the counters are right in every run (`locks_right`).
-/

namespace Rasdaman

open NamedList Machine

/-! ## Database hosts -/

/-- A reference to a `DatabaseHost` object. -/
abbrev HostRef := ℕ

/-- A `DatabaseHost` with its counters. -/
structure HostObject extends DatabaseHost where
  sessionCount : ℤ
  serverCount : ℤ
  deriving DecidableEq

/-- The `DatabaseHost` objects and `DatabaseHostManager::hostList`. -/
structure DatabaseHosts where
  object : HostRef → HostObject
  hostList : List HostRef
  created : HostRef

namespace DatabaseHosts

/-- The name of a host. -/
def name (h : DatabaseHosts) (r : HostRef) : Text := (h.object r).hostName

def setObject (h : DatabaseHosts) (r : HostRef) (o : HostObject) : DatabaseHosts :=
  { h with object := Function.update h.object r o }

def setServerCount (h : DatabaseHosts) (r : HostRef) (n : ℤ) : DatabaseHosts :=
  h.setObject r { h.object r with serverCount := n }

def increaseServerCount (h : DatabaseHosts) (r : HostRef) : DatabaseHosts :=
  h.setServerCount r (toInt32 ((h.object r).serverCount + 1))

/-- `decreaseServerCount`; `none` is the exception. -/
def decreaseServerCount (h : DatabaseHosts) (r : HostRef) : Option DatabaseHosts :=
  if (h.object r).serverCount = 0 then none
  else some (h.setServerCount r (toInt32 ((h.object r).serverCount - 1)))

def isBusy (h : DatabaseHosts) (r : HostRef) : Bool :=
  0 < (h.object r).sessionCount || 0 < (h.object r).serverCount

/-- `getAndLockDatabaseHost`; `none` is the exception. -/
def getAndLockDatabaseHost (h : DatabaseHosts) (dbHostName : Text) : Option (HostRef × DatabaseHosts) :=
  (get h.name dbHostName h.hostList).map fun r => (r, h.increaseServerCount r)

def defineDatabaseHost (h : DatabaseHosts) (newDbHost : Managers.DatabaseHostPropertiesProto) :
    DatabaseHosts × Option RasmgrException :=
  let hostName := newDbHost.hostName.getD []
  if hostName = [] then
    (h, some (.invalidArgument "Invalid database host configuration:".toList))
  else match get h.name hostName h.hostList with
    | some _ => (h, some (.dbHostAlreadyExists hostName))
    | none =>
      let host : HostObject :=
        { hostName := hostName
          connectString := newDbHost.connectString.getD []
          userName := newDbHost.userName.getD []
          passwdString := newDbHost.password.getD []
          sessionCount := 0
          serverCount := 0 }
      ({ object := Function.update h.object h.created host
         hostList := h.hostList ++ [h.created]
         created := h.created + 1 }, none)

def changeDatabaseHost (h : DatabaseHosts) (oldName : Text)
    (newProperties : Managers.DatabaseHostPropertiesProto) : DatabaseHosts × Option RasmgrException :=
  match get h.name oldName h.hostList with
  | none => (h, some (.inexistentDbHost oldName))
  | some r =>
    if h.isBusy r then (h, some (.dbHostBusy oldName))
    else
      (h.setObject r
          { h.object r with toDatabaseHost := newProperties.apply (h.object r).toDatabaseHost },
        if newProperties.userName = some [] then some (.logic "userName.empty()".toList) else none)

def removeDatabaseHost (h : DatabaseHosts) (dbHostName : Text) : DatabaseHosts × Option RasmgrException :=
  match get h.name dbHostName h.hostList with
  | none => (h, some (.inexistentDbHost dbHostName))
  | some r =>
    if h.isBusy r then (h, some (.dbHostBusy dbHostName))
    else ({ h with hostList := remove h.name dbHostName h.hostList }, none)

end DatabaseHosts

/-! ## Server groups -/

/-- A `ServerGroupImpl` with the host object that its `databaseHost` refers to. -/
structure HostedGroup extends World where
  host : HostRef

namespace HostedGroup

def groupName (g : HostedGroup) : Text := g.group.config.groupName

def setGroup (g : HostedGroup) (f : ServerGroupImpl → ServerGroupImpl) : HostedGroup :=
  { g with group := f g.group }

/-- The constructor; a group that could not be constructed leaves the hosts as they are. -/
def construct (config : ServerGroupConfigProto) (h : DatabaseHosts) :
    Except RasmgrException (HostedGroup × DatabaseHosts) :=
  match config.validateAndInit with
  | (.error e, _) => .error (.group e)
  | (.ok _, config) => match h.getAndLockDatabaseHost (config.dbHost.getD []) with
    | none => .error (.inexistentDbHost (config.dbHost.getD []))
    | some (r, h) => .ok
      ({ group :=
          { config := config
            databaseHost := config.dbHost.getD []
            startingServers := []
            runningServers := []
            restartingServers := []
            availablePorts := config.portSet
            stopped := true }
         host := r }, h)

/-- The destructor, as far as the hosts go: an exception is caught. -/
def destruct (g : HostedGroup) (h : DatabaseHosts) : DatabaseHosts :=
  (h.decreaseServerCount g.host).getD h

/-- The configuration as `changeGroupConfig` writes it. -/
def writeConfig (g : HostedGroup) (config : ServerGroupConfigProto) : HostedGroup :=
  g.setGroup fun g => { g with config := config }

/-- The new `databaseHost`. -/
def moveTo (g : HostedGroup) (r : HostRef) (dbHostName : Text) : HostedGroup :=
  { g.setGroup fun g => { g with databaseHost := dbHostName } with host := r }

/-- The end of `changeGroupConfig`. -/
def refillPorts (g : HostedGroup) (value config : ServerGroupConfigProto) : HostedGroup :=
  if value.ports.isEmpty then g else g.setGroup fun g => { g with availablePorts := config.portSet }

/-- `changeGroupConfig`: the exception, and the group and the hosts as it leaves them. -/
def changeGroupConfig (g : HostedGroup) (h : DatabaseHosts) (value : ServerGroupConfigProto) :
    Option RasmgrException × HostedGroup × DatabaseHosts :=
  if ¬g.group.stopped then (some .invalidState, g, h)
  else
    let (checked, config) := (g.group.config.merge value).validateAndInit
    let g := g.writeConfig config
    match checked with
    | .error e => (some (.group e), g, h)
    | .ok _ =>
      if value.dbHost.isSome then
        match h.decreaseServerCount g.host with
        | none => (some (.logic "serverCount==0".toList), g, h)
        | some h => match h.getAndLockDatabaseHost (config.dbHost.getD []) with
          | none => (some (.inexistentDbHost (config.dbHost.getD [])), g, h)
          | some (r, h) =>
            (none, (g.moveTo r (config.dbHost.getD [])).refillPorts value config, h)
      else (none, g.refillPorts value config, h)

end HostedGroup

/-! ## The managers -/

/-- `ServerManager::serverGroupList` and the hosts. -/
structure HostedManager where
  hosts : DatabaseHosts
  serverGroupList : List HostedGroup

/-- A command for the managers; clients open and close sessions on the hosts, and the groups run. -/
inductive HostedCommand
  | defineDatabaseHost (newDbHost : Managers.DatabaseHostPropertiesProto)
  | changeDatabaseHost (oldName : Text) (newProperties : Managers.DatabaseHostPropertiesProto)
  | removeDatabaseHost (dbHostName : Text)
  | sessions (host : HostRef) (sessionCount : ℤ)
  | defineServerGroup (serverGroupConfig : ServerGroupConfigProto)
  | changeServerGroup (oldServerGroupName : Text) (newServerGroupConfig : ServerGroupConfigProto)
  | removeServerGroup (serverGroupName : Text)
  | start (serverGroupName : Text) (env : Environment)
  | stop (serverGroupName : Text) (env : Environment) (level : KillLevel)
  | tryRegisterServer (serverGroupName : Text) (env : Environment) (serverId : ℕ)
  | evaluateServerGroup (serverGroupName : Text) (env : Environment)

namespace HostedManager

/-- The managers of a server that has just been started. -/
def new : HostedManager where
  hosts := ⟨fun _ => ⟨⟨[], [], [], [], []⟩, 0, 0⟩, [], 0⟩
  serverGroupList := []

def defineServerGroup (s : HostedManager) (serverGroupConfig : ServerGroupConfigProto) :
    HostedManager × Option RasmgrException :=
  match get HostedGroup.groupName serverGroupConfig.groupName s.serverGroupList with
  | some _ => (s, some (.serverGroupDuplicate serverGroupConfig.groupName))
  | none => match HostedGroup.construct serverGroupConfig s.hosts with
    | .error e => (s, some e)
    | .ok (g, h) => (⟨h, s.serverGroupList ++ [g]⟩, none)

def changeServerGroup (s : HostedManager) (oldServerGroupName : Text)
    (newServerGroupConfig : ServerGroupConfigProto) : HostedManager × Option RasmgrException :=
  match get HostedGroup.groupName oldServerGroupName s.serverGroupList with
  | none => (s, some (.inexistentServerGroup oldServerGroupName))
  | some g =>
    if g.group.stopped then
      let (e, g, h) := g.changeGroupConfig s.hosts newServerGroupConfig
      (⟨h, change HostedGroup.groupName oldServerGroupName (fun _ => g) s.serverGroupList⟩, e)
    else (s, some .invalidState)

def removeServerGroup (s : HostedManager) (serverGroupName : Text) :
    HostedManager × Option RasmgrException :=
  match get HostedGroup.groupName serverGroupName s.serverGroupList with
  | none => (s, some (.inexistentServerGroup serverGroupName))
  | some g =>
    if g.group.stopped then
      (⟨g.destruct s.hosts, remove HostedGroup.groupName serverGroupName s.serverGroupList⟩, none)
    else (s, some (.serverGroupBusy serverGroupName))

/-- A call of a method on the group with a name. -/
def callServerGroup (s : HostedManager) (serverGroupName : Text) (env : Environment) (m : Method) :
    HostedManager :=
  ⟨s.hosts, change HostedGroup.groupName serverGroupName
    (fun g => { g with toWorld := m.call env g.toWorld }) s.serverGroupList⟩

/-- The managers after a command, and the exception it throws. -/
def execute (s : HostedManager) : HostedCommand → HostedManager × Option RasmgrException
  | .defineDatabaseHost newDbHost =>
    let (h, e) := s.hosts.defineDatabaseHost newDbHost
    ({ s with hosts := h }, e)
  | .changeDatabaseHost oldName newProperties =>
    let (h, e) := s.hosts.changeDatabaseHost oldName newProperties
    ({ s with hosts := h }, e)
  | .removeDatabaseHost dbHostName =>
    let (h, e) := s.hosts.removeDatabaseHost dbHostName
    ({ s with hosts := h }, e)
  | .sessions r n =>
    ({ s with hosts := s.hosts.setObject r { s.hosts.object r with sessionCount := n } }, none)
  | .defineServerGroup config => s.defineServerGroup config
  | .changeServerGroup name value => s.changeServerGroup name value
  | .removeServerGroup name => s.removeServerGroup name
  | .start name env => (s.callServerGroup name env .start, none)
  | .stop name env level => (s.callServerGroup name env (.stop level), none)
  | .tryRegisterServer name env serverId => (s.callServerGroup name env (.tryRegisterServer serverId), none)
  | .evaluateServerGroup name env => (s.callServerGroup name env .evaluateServerGroup, none)

/-- The managers after a command. -/
def step (s : HostedManager) (c : HostedCommand) : HostedManager := (s.execute c).1

end HostedManager

/-! ## A failed change -/

namespace HostedGroup

variable {g : HostedGroup} {h : DatabaseHosts} {value : ServerGroupConfigProto}

/-- The hosts, as the environment of the group's own model. -/
def environment (g : HostedGroup) (h : DatabaseHosts) (value : ServerGroupConfigProto) : Environment :=
  fun c _ => match c with
    | .decreaseServerCount => (h.decreaseServerCount g.host).map fun _ => 0
    | .getAndLockDatabaseHost =>
      (get h.name ((g.group.config.merge value).validateAndInit.2.dbHost.getD []) h.hostList).map fun _ => 0
    | _ => some 0

/-- What the group has after `changeGroupConfig` and what all hosts count is what they had before. -/
structure Unchanged (g g' : HostedGroup) (h h' : DatabaseHosts) : Prop where
  config : g'.group.config = g.group.config
  databaseHost : g'.host = g.host
  availablePorts : g'.group.availablePorts = g.group.availablePorts
  serverCounts : ∀ r, (h'.object r).serverCount = (h.object r).serverCount

/-- A `changeGroupConfig` that throws changes nothing. -/
def Atomic (g : HostedGroup) (h : DatabaseHosts) (value : ServerGroupConfigProto) : Prop :=
  (g.changeGroupConfig h value).1 ≠ none →
    Unchanged g (g.changeGroupConfig h value).2.1 h (g.changeGroupConfig h value).2.2

/-- The new configuration is valid and names no database host, or the old one is locked and the new one
is found. -/
def AcceptsChange (g : HostedGroup) (h : DatabaseHosts) (value : ServerGroupConfigProto) : Prop :=
  (g.group.config.merge value).validateAndInit.1.isOk = true ∧
    (value.dbHost.isSome = true → (h.object g.host).serverCount ≠ 0 ∧
      get h.name ((g.group.config.merge value).validateAndInit.2.dbHost.getD []) h.hostList ≠ none)

/-- The group runs, the change is accepted, or it fails before the hosts are touched and asks for the
configuration that the group has. -/
def ChangesAtomically (g : HostedGroup) (h : DatabaseHosts) (value : ServerGroupConfigProto) : Prop :=
  g.group.stopped = false ∨ g.AcceptsChange h value ∨
    ((g.group.config.merge value).validateAndInit.2 = g.group.config ∧
      ((g.group.config.merge value).validateAndInit.1.isOk = true → (h.object g.host).serverCount = 0))

end HostedGroup

namespace DatabaseHosts

variable {h h' : DatabaseHosts} {r r' : HostRef} {n : ℤ}

theorem object_setObject (h : DatabaseHosts) (r : HostRef) (o : HostObject) (r' : HostRef) :
    (h.setObject r o).object r' = if r' = r then o else h.object r' :=
  Function.update_apply ..

theorem serverCount_setServerCount (h : DatabaseHosts) (r : HostRef) (n : ℤ) (r' : HostRef) :
    ((h.setServerCount r n).object r').serverCount = if r' = r then n else (h.object r').serverCount := by
  rw [setServerCount, object_setObject]
  split
  · rfl
  · rfl

/-- Locks do not touch names. -/
theorem name_setServerCount (h : DatabaseHosts) (r : HostRef) (n : ℤ) :
    (h.setServerCount r n).name = h.name := by
  funext r'
  rw [name, setServerCount, object_setObject]
  split
  · next heq => rw [heq, name]
  · rfl

theorem decreaseServerCount_eq (hne : (h.object r).serverCount ≠ 0) :
    h.decreaseServerCount r = some (h.setServerCount r (toInt32 ((h.object r).serverCount - 1))) :=
  if_neg hne

/-- One lock less is another number of locks. -/
theorem toInt32_sub_one_ne (n : ℤ) : toInt32 (n - 1) ≠ n := by
  intro hn
  have hmod := @Int.bmod_emod (n - 1) (2 ^ 32)
  rw [toInt32] at hn
  rw [hn] at hmod
  omega

theorem toInt32_of_lt (h0 : 0 ≤ n) (hn : n < 2 ^ 31) : toInt32 n = n := by
  rw [toInt32, Int.bmod_eq_of_le] <;> omega

end DatabaseHosts

namespace HostedGroup

open DatabaseHosts

variable {g : HostedGroup} {h : DatabaseHosts} {value : ServerGroupConfigProto}

@[simp] theorem writeConfig_host (g : HostedGroup) (config : ServerGroupConfigProto) :
    (g.writeConfig config).host = g.host := rfl

/-- **What a change of a stopped group does**, by where it ends. -/
theorem changeGroupConfig_cases (hstopped : g.group.stopped = true) {checked : Except GroupException Unit}
    {config : ServerGroupConfigProto}
    (hvalid : (g.group.config.merge value).validateAndInit = (checked, config)) :
    (∃ e, checked = .error e ∧
        g.changeGroupConfig h value = (some (.group e), g.writeConfig config, h)) ∨
      checked.isOk = true ∧
        ((value.dbHost.isSome = false ∧
            g.changeGroupConfig h value = (none, (g.writeConfig config).refillPorts value config, h)) ∨
          value.dbHost.isSome = true ∧
            ((h.decreaseServerCount g.host = none ∧ g.changeGroupConfig h value =
                (some (.logic "serverCount==0".toList), g.writeConfig config, h)) ∨
              ∃ released, h.decreaseServerCount g.host = some released ∧
                ((released.getAndLockDatabaseHost (config.dbHost.getD []) = none ∧
                    g.changeGroupConfig h value =
                      (some (.inexistentDbHost (config.dbHost.getD [])), g.writeConfig config, released)) ∨
                  ∃ r locked, released.getAndLockDatabaseHost (config.dbHost.getD []) = some (r, locked) ∧
                    g.changeGroupConfig h value =
                      (none, ((g.writeConfig config).moveTo r (config.dbHost.getD [])).refillPorts value config,
                        locked)))) := by
  rw [changeGroupConfig, if_neg (by simp [hstopped]), hvalid]
  rcases checked with e | u
  · exact .inl ⟨e, rfl, rfl⟩
  · refine .inr ⟨rfl, ?_⟩
    cases hname : value.dbHost.isSome with
    | false => exact .inl ⟨rfl, by simp⟩
    | true =>
      refine .inr ⟨rfl, ?_⟩
      rcases hreleased : h.decreaseServerCount g.host with _ | released
      · exact .inl ⟨rfl, by simp [hreleased]⟩
      · refine .inr ⟨released, rfl, ?_⟩
        rcases hlocked : released.getAndLockDatabaseHost (config.dbHost.getD []) with _ | ⟨r, locked⟩
        · exact .inl ⟨rfl, by simp [hreleased, hlocked]⟩
        · exact .inr ⟨r, locked, rfl, by simp [hreleased, hlocked]⟩

theorem getAndLock_eq_none_iff {dbHostName : Text} :
    h.getAndLockDatabaseHost dbHostName = none ↔ get h.name dbHostName h.hostList = none := by
  rw [getAndLockDatabaseHost, Option.map_eq_none_iff]

/-- Releasing a host leaves the names to look up. -/
theorem get_released {released : DatabaseHosts} {r : HostRef} (hr : h.decreaseServerCount r = some released)
    (dbHostName : Text) :
    get released.name dbHostName released.hostList = get h.name dbHostName h.hostList := by
  rw [decreaseServerCount] at hr
  split at hr
  · cases hr
  · obtain rfl := Option.some.inj hr
    rw [name_setServerCount]
    rfl

/-- **A failed change leaves everything as it was exactly when `ChangesAtomically` says so.** -/
theorem atomic_iff (g : HostedGroup) (h : DatabaseHosts) (value : ServerGroupConfigProto) :
    g.Atomic h value ↔ g.ChangesAtomically h value := by
  cases hstopped : g.group.stopped with
  | false =>
    have hrun : g.changeGroupConfig h value = (some .invalidState, g, h) := if_pos (by simp [hstopped])
    rw [Atomic, hrun]
    exact iff_of_true (fun _ => ⟨rfl, rfl, rfl, fun _ => rfl⟩) (.inl hstopped)
  | true =>
    rcases hvalid : (g.group.config.merge value).validateAndInit with ⟨checked, config⟩
    rw [Atomic, ChangesAtomically, AcceptsChange, hvalid, hstopped]
    obtain ⟨e, rfl, hrun⟩ | ⟨hok, hrest⟩ := changeGroupConfig_cases (h := h) hstopped hvalid
    · rw [hrun]
      constructor
      · intro hatomic
        exact .inr (.inr ⟨(hatomic (Option.some_ne_none _)).config, fun hok => absurd hok Bool.false_ne_true⟩)
      · rintro (hno | ⟨hno, -⟩ | ⟨hsame, -⟩) -
        · cases hno
        · cases hno
        · exact ⟨hsame, rfl, rfl, fun _ => rfl⟩
    · rw [hok]
      obtain ⟨hname, hrun⟩ | ⟨hname, ⟨hreleased, hrun⟩ | ⟨released, hreleased, hlocks⟩⟩ := hrest
      · rw [hrun, hname]
        exact iff_of_true (fun hne => absurd rfl hne) (.inr (.inl ⟨rfl, fun hno => by cases hno⟩))
      · have hzero : (h.object g.host).serverCount = 0 := by
          by_contra hne
          rw [decreaseServerCount_eq hne] at hreleased
          cases hreleased
        rw [hrun]
        constructor
        · intro hatomic
          exact .inr (.inr ⟨(hatomic (Option.some_ne_none _)).config, fun _ => hzero⟩)
        · rintro (hno | ⟨-, hlock⟩ | ⟨hsame, -⟩) -
          · cases hno
          · exact absurd hzero (hlock hname).1
          · exact ⟨hsame, rfl, rfl, fun _ => rfl⟩
      · have hne : (h.object g.host).serverCount ≠ 0 := by
          intro hzero
          rw [decreaseServerCount, if_pos hzero] at hreleased
          cases hreleased
        obtain ⟨hnone, hrun⟩ | ⟨r, locked, hfound, hrun⟩ := hlocks
        · rw [getAndLock_eq_none_iff, get_released hreleased] at hnone
          rw [hrun]
          refine iff_of_false (fun hatomic => ?_) ?_
          · have hcount := (hatomic (Option.some_ne_none _)).serverCounts g.host
            rw [decreaseServerCount_eq hne] at hreleased
            obtain rfl := Option.some.inj hreleased
            rw [serverCount_setServerCount, if_pos rfl] at hcount
            exact toInt32_sub_one_ne _ hcount
          · rintro (hno | ⟨-, hlock⟩ | ⟨-, hzero⟩)
            · cases hno
            · exact (hlock hname).2 hnone
            · exact hne (hzero rfl)
        · rw [hrun]
          refine iff_of_true (fun hthrows => absurd rfl hthrows) (.inr (.inl ⟨rfl, fun _ => ⟨hne, ?_⟩⟩))
          intro hnone
          rw [← get_released hreleased, ← getAndLock_eq_none_iff, hfound] at hnone
          cases hnone

/-- **The group does what its own model does**, in an environment that answers for the hosts. -/
theorem changeGroupConfig_refines (g : HostedGroup) (h : DatabaseHosts) (value : ServerGroupConfigProto) :
    (Effect.exec (ServerGroupImpl.changeGroupConfig value) (g.environment h value) g.toWorld).2.group =
      (g.changeGroupConfig h value).2.1.group := by
  cases hstopped : g.group.stopped with
  | false =>
    simp [ServerGroupImpl.changeGroupConfig, ServerGroupImpl.getGroup, Effect.exec_bind, changeGroupConfig,
      hstopped]
  | true =>
    rcases hvalid : (g.group.config.merge value).validateAndInit with ⟨checked, config⟩
    simp only [ServerGroupImpl.changeGroupConfig, ServerGroupImpl.getGroup, ServerGroupImpl.setGroup,
      Effect.exec_bind, Effect.exec_get, Effect.exec_pure, hstopped, not_true_eq_false, if_false, hvalid,
      Effect.exec_modify]
    obtain ⟨e, rfl, hrun⟩ | ⟨hok, hrest⟩ := changeGroupConfig_cases (h := h) hstopped hvalid
    · rw [hrun]
      simp [writeConfig, setGroup, hstopped]
    · obtain ⟨u, rfl⟩ : ∃ u, checked = .ok u := by
        cases checked with
        | error e => cases hok
        | ok u => exact ⟨u, rfl⟩
      obtain ⟨hname, hrun⟩ | ⟨hname, ⟨hreleased, hrun⟩ | ⟨released, hreleased, hlocks⟩⟩ := hrest
      · rw [hrun]
        cases hports : value.ports <;> simp [hname, hports, refillPorts, writeConfig, setGroup, hstopped]
      · rw [hrun]
        simp [hname, Effect.exec_bind, ServerGroupImpl.exec_ask, environment, hreleased, writeConfig,
          setGroup, hstopped]
      · obtain ⟨hnone, hrun⟩ | ⟨r, locked, hfound, hrun⟩ := hlocks
        · rw [getAndLock_eq_none_iff, get_released hreleased] at hnone
          rw [hrun]
          simp [hname, Effect.exec_bind, ServerGroupImpl.exec_ask, environment, hreleased, hvalid, hnone,
            writeConfig, setGroup, hstopped]
        · obtain ⟨r', hr'⟩ : ∃ r', get h.name (config.dbHost.getD []) h.hostList = some r' := by
            rw [getAndLockDatabaseHost, Option.map_eq_some_iff, get_released hreleased] at hfound
            exact ⟨hfound.choose, hfound.choose_spec.1⟩
          rw [hrun]
          cases hports : value.ports <;>
            simp [hname, hports, Effect.exec_bind, ServerGroupImpl.exec_ask, environment, hreleased, hvalid,
              hr', refillPorts, moveTo, writeConfig, setGroup, hstopped]

end HostedGroup

/-! ## The locks of a run -/

/-- How many of the groups refer to a host. -/
def hostCount (l : List HostedGroup) (r : HostRef) : ℕ := (l.map HostedGroup.host).count r

theorem hostCount_middle (l₁ l₂ : List HostedGroup) (g : HostedGroup) (r : HostRef) :
    hostCount (l₁ ++ g :: l₂) r = hostCount (l₁ ++ l₂) r + if g.host = r then 1 else 0 := by
  simp only [hostCount, List.map_append, List.map_cons, List.count_append, List.count_cons, beq_iff_eq]
  omega

theorem hostCount_le_length (l : List HostedGroup) (r : HostRef) : hostCount l r ≤ l.length :=
  (List.count_le_length).trans (List.length_map _).le

namespace DatabaseHosts

/-- Each host counts the groups that refer to it. -/
def Counts (h : DatabaseHosts) (l : List HostedGroup) : Prop :=
  ∀ r, (h.object r).serverCount = hostCount l r

variable {h : DatabaseHosts} {l₁ l₂ : List HostedGroup} {g : HostedGroup}

/-- A group lets its host go. -/
theorem Counts.release (hc : h.Counts (l₁ ++ g :: l₂)) (hlen : (l₁ ++ g :: l₂).length < 2 ^ 31) :
    ∃ released, h.decreaseServerCount g.host = some released ∧ released.Counts (l₁ ++ l₂) ∧
      released.hostList = h.hostList ∧ released.created = h.created := by
  have hcount := hc g.host
  rw [hostCount_middle, if_pos rfl] at hcount
  have hne : (h.object g.host).serverCount ≠ 0 := by omega
  refine ⟨_, decreaseServerCount_eq hne, fun r => ?_, rfl, rfl⟩
  have hle := hostCount_le_length (l₁ ++ l₂) g.host
  rw [List.length_append, List.length_cons] at hlen
  rw [List.length_append] at hle
  rw [serverCount_setServerCount, toInt32_of_lt (by omega) (by omega)]
  split
  · next heq =>
    rw [heq]
    omega
  · next hne' =>
    have hr := hc r
    rwa [hostCount_middle, if_neg (Ne.symm hne'), Nat.add_zero] at hr

/-- A group locks a host. -/
theorem Counts.lock {locked : DatabaseHosts} {dbHostName : Text} {r : HostRef}
    (hc : h.Counts (l₁ ++ l₂)) (hlen : (l₁ ++ l₂).length < 2 ^ 31 - 1)
    (hlock : h.getAndLockDatabaseHost dbHostName = some (r, locked)) (hg : g.host = r) :
    locked.Counts (l₁ ++ g :: l₂) ∧ r ∈ h.hostList ∧ locked.hostList = h.hostList ∧
      locked.created = h.created := by
  subst hg
  rw [getAndLockDatabaseHost, Option.map_eq_some_iff] at hlock
  obtain ⟨r', hget, heq⟩ := hlock
  obtain ⟨rfl, rfl⟩ := Prod.mk.inj heq
  refine ⟨fun r => ?_, mem_of_get hget, rfl, rfl⟩
  have hle := hostCount_le_length (l₁ ++ l₂) g.host
  rw [increaseServerCount, serverCount_setServerCount, hc g.host, toInt32_of_lt (by omega) (by omega),
    hostCount_middle]
  split
  · next heq =>
    subst heq
    rw [if_pos rfl]
    omega
  · next hne =>
    rw [if_neg (Ne.symm hne), hc r, Nat.add_zero]

end DatabaseHosts

namespace HostedManager

/-- **The locks are right**: each host counts the groups that refer to it, the count of a host that a group
refers to can be decreased, and the removal of a host is refused exactly when it is in use. -/
structure LocksRight (s : HostedManager) : Prop where
  counts : s.hosts.Counts s.serverGroupList
  decreases : ∀ g ∈ s.serverGroupList, (s.hosts.decreaseServerCount g.host).isSome = true
  refuses : ∀ dbHostName r, get s.hosts.name dbHostName s.hosts.hostList = some r →
    ((s.execute (.removeDatabaseHost dbHostName)).2 = some (.dbHostBusy dbHostName) ↔
      0 < (s.hosts.object r).sessionCount ∨ ∃ g ∈ s.serverGroupList, g.host = r)

/-- No stopped group asks validly for a database host that is not there; and there are less groups than an
`int` counts. -/
def FindsHost (s : HostedManager) : HostedCommand → Prop
  | .defineServerGroup _ => s.serverGroupList.length < 2 ^ 31 - 1
  | .changeServerGroup name value => ∀ g, get HostedGroup.groupName name s.serverGroupList = some g →
      g.group.stopped = true → (g.group.config.merge value).validateAndInit.1.isOk = true →
        value.dbHost.isSome = true →
          get s.hosts.name ((g.group.config.merge value).validateAndInit.2.dbHost.getD [])
            s.hosts.hostList ≠ none
  | _ => True

/-- What holds between two commands. -/
structure Locked (s : HostedManager) : Prop where
  counts : s.hosts.Counts s.serverGroupList
  length : s.serverGroupList.length < 2 ^ 31
  groups : ∀ g ∈ s.serverGroupList, g.host < s.hosts.created
  hosts : ∀ r ∈ s.hosts.hostList, r < s.hosts.created

variable {s : HostedManager}

theorem hostCount_pos_iff {l : List HostedGroup} {r : HostRef} :
    0 < hostCount l r ↔ ∃ g ∈ l, g.host = r := by
  rw [hostCount, List.count_pos_iff, List.mem_map]

theorem Locked.locksRight (h : Locked s) : LocksRight s := by
  refine ⟨h.counts, fun g hg => ?_, fun dbHostName r hr => ?_⟩
  · have hpos := hostCount_pos_iff.mpr ⟨g, hg, rfl⟩
    have hcount := h.counts g.host
    rw [DatabaseHosts.decreaseServerCount_eq (by omega)]
    rfl
  · have hbusy : s.hosts.isBusy r = true ↔
        0 < (s.hosts.object r).sessionCount ∨ ∃ g ∈ s.serverGroupList, g.host = r := by
      rw [← hostCount_pos_iff, DatabaseHosts.isBusy, h.counts r]
      simp
    rw [← hbusy]
    cases hb : s.hosts.isBusy r with
    | true => simp [execute, DatabaseHosts.removeDatabaseHost, hr, hb]
    | false => simp [execute, DatabaseHosts.removeDatabaseHost, hr, hb]

/-- The counters and the lists of hosts and groups are what matters. -/
theorem Locked.congr {h : DatabaseHosts} (hs : Locked s)
    (hcounts : ∀ r, (h.object r).serverCount = (s.hosts.object r).serverCount)
    (hlist : h.hostList ⊆ s.hosts.hostList) (hcreated : h.created = s.hosts.created) :
    Locked ⟨h, s.serverGroupList⟩ where
  counts r := (hcounts r).trans (hs.counts r)
  length := hs.length
  groups := by
    rw [hcreated]
    exact hs.groups
  hosts r hr := by
    rw [hcreated]
    exact hs.hosts r (hlist hr)

theorem Locked.defineDatabaseHost (hs : Locked s) (newDbHost : Managers.DatabaseHostPropertiesProto) :
    Locked ⟨(s.hosts.defineDatabaseHost newDbHost).1, s.serverGroupList⟩ := by
  rw [DatabaseHosts.defineDatabaseHost]
  split
  · exact hs
  · split
    · exact hs
    · -- the new object is counted by no group
      have hnone : hostCount s.serverGroupList s.hosts.created = 0 := by
        by_contra hne
        obtain ⟨g, hg, heq⟩ := hostCount_pos_iff.mp (Nat.pos_of_ne_zero hne)
        exact absurd heq (hs.groups g hg).ne
      refine ⟨fun r => ?_, hs.length, fun g hg => Nat.lt_succ_of_lt (hs.groups g hg), fun r hr => ?_⟩
      · change (Function.update s.hosts.object _ _ r).serverCount = _
        rw [Function.update_apply]
        split
        · next heq =>
          rw [heq, hnone]
          rfl
        · exact hs.counts r
      · rcases List.mem_append.mp hr with hr | hr
        · exact Nat.lt_succ_of_lt (hs.hosts r hr)
        · rw [List.mem_singleton.mp hr]
          exact Nat.lt_succ_self _

/-- A change of an object that keeps its counter. -/
theorem serverCount_setObject {h : DatabaseHosts} {r : HostRef} {o : HostObject}
    (ho : o.serverCount = (h.object r).serverCount) (r' : HostRef) :
    ((h.setObject r o).object r').serverCount = (h.object r').serverCount := by
  rw [DatabaseHosts.object_setObject]
  split
  · next heq => rw [ho, heq]
  · rfl

theorem Locked.changeDatabaseHost (hs : Locked s) (oldName : Text)
    (newProperties : Managers.DatabaseHostPropertiesProto) :
    Locked ⟨(s.hosts.changeDatabaseHost oldName newProperties).1, s.serverGroupList⟩ := by
  rw [DatabaseHosts.changeDatabaseHost]
  split
  · exact hs
  · split
    · exact hs
    · exact hs.congr (serverCount_setObject rfl) (List.Subset.refl _) rfl

theorem Locked.removeDatabaseHost (hs : Locked s) (dbHostName : Text) :
    Locked ⟨(s.hosts.removeDatabaseHost dbHostName).1, s.serverGroupList⟩ := by
  rw [DatabaseHosts.removeDatabaseHost]
  split
  · exact hs
  · split
    · exact hs
    · exact hs.congr (fun _ => rfl) (List.eraseP_sublist.subset) rfl

theorem Locked.defineServerGroup (hs : Locked s) (config : ServerGroupConfigProto)
    (hlen : s.serverGroupList.length < 2 ^ 31 - 1) : Locked (s.defineServerGroup config).1 := by
  rw [HostedManager.defineServerGroup]
  split
  · exact hs
  · split
    · exact hs
    · next g h hg =>
      rw [HostedGroup.construct] at hg
      split at hg
      · cases hg
      · split at hg
        · cases hg
        · next r locked hlock =>
          obtain ⟨hgroup, rfl⟩ := Prod.mk.inj (Except.ok.inj hg)
          have hhost : g.host = r := by rw [← hgroup]
          have hcounts : s.hosts.Counts (s.serverGroupList ++ []) := by
            rw [List.append_nil]
            exact hs.counts
          obtain ⟨hcounts', hmem, hlist, hcreated⟩ := hcounts.lock (by simpa using hlen) hlock hhost
          refine ⟨hcounts', ?_, fun g hg => ?_, fun r hr => ?_⟩
          · rw [List.length_append, List.length_singleton]
            omega
          · rw [hcreated]
            rcases List.mem_append.mp hg with hg | hg
            · exact hs.groups g hg
            · rw [List.mem_singleton.mp hg, hhost]
              exact hs.hosts r hmem
          · rw [hlist] at hr
            rw [hcreated]
            exact hs.hosts r hr

theorem Locked.removeServerGroup (hs : Locked s) (name : Text) : Locked (s.removeServerGroup name).1 := by
  rw [HostedManager.removeServerGroup]
  split
  · exact hs
  · next g hg =>
    split
    · obtain ⟨l₁, l₂, hsplit, -, hremove⟩ := split_of_get hg
      have hcounts := hs.counts
      have hlen := hs.length
      rw [hsplit] at hcounts hlen
      obtain ⟨released, hreleased, hcounts', hlist, hcreated⟩ := hcounts.release hlen
      rw [HostedGroup.destruct, hreleased, hremove]
      refine ⟨hcounts', ?_, fun g' hg' => ?_, fun r hr => ?_⟩
      · rw [List.length_append, List.length_cons] at hlen
        rw [List.length_append]
        omega
      · have hmem : g' ∈ s.serverGroupList := by
          rw [hsplit]
          exact ((List.sublist_cons_self g l₂).append_left l₁).subset hg'
        change g'.host < released.created
        rw [hcreated]
        exact hs.groups g' hmem
      · change r < released.created
        rw [hcreated]
        exact hs.hosts r (hlist ▸ hr)
    · exact hs

/-- A call of a group's method leaves its host. -/
theorem Locked.callServerGroup (hs : Locked s) (name : Text) (env : Environment) (m : Method) :
    Locked (s.callServerGroup name env m) := by
  have hmap : (s.callServerGroup name env m).serverGroupList.map HostedGroup.host =
      s.serverGroupList.map HostedGroup.host := map_change fun _ => rfl
  refine ⟨fun r => ?_, ?_, fun g hg => ?_, hs.hosts⟩
  · rw [hostCount, hmap]
    exact hs.counts r
  · rw [← List.length_map (f := HostedGroup.host), hmap, List.length_map]
    exact hs.length
  · have hmem := List.mem_map_of_mem (f := HostedGroup.host) hg
    rw [hmap] at hmem
    obtain ⟨g', hg', heq⟩ := List.mem_map.mp hmem
    rw [← heq]
    exact hs.groups g' hg'

/-- One group is replaced by another. -/
theorem Locked.replace {l₁ l₂ : List HostedGroup} {g g' : HostedGroup} {h : DatabaseHosts}
    (hs : Locked s) (hsplit : s.serverGroupList = l₁ ++ g :: l₂) (hcounts : h.Counts (l₁ ++ g' :: l₂))
    (hg' : g'.host < h.created) (hlist : h.hostList = s.hosts.hostList)
    (hcreated : h.created = s.hosts.created) : Locked ⟨h, l₁ ++ g' :: l₂⟩ := by
  refine ⟨hcounts, ?_, fun g'' hmem => ?_, fun r hr => ?_⟩
  · have hlen := hs.length
    rw [hsplit, List.length_append, List.length_cons] at hlen
    rw [List.length_append, List.length_cons]
    exact hlen
  · rcases List.mem_append.mp hmem with hmem | hmem
    · exact hcreated ▸ hs.groups g'' (hsplit ▸ List.mem_append_left _ hmem)
    · rcases List.mem_cons.mp hmem with rfl | hmem
      · exact hg'
      · exact hcreated ▸ hs.groups g'' (hsplit ▸ List.mem_append_right _ (List.mem_cons_of_mem _ hmem))
  · exact hcreated ▸ hs.hosts r (hlist ▸ hr)

/-- A group that refers to the same host counts for the same host. -/
theorem counts_of_host_eq {l₁ l₂ : List HostedGroup} {g g' : HostedGroup} {h : DatabaseHosts}
    (hcounts : h.Counts (l₁ ++ g :: l₂)) (hhost : g'.host = g.host) : h.Counts (l₁ ++ g' :: l₂) := by
  intro r
  have hr := hcounts r
  rwa [hostCount_middle, ← hhost, ← hostCount_middle] at hr

theorem Locked.changeServerGroup (hs : Locked s) (name : Text) (value : ServerGroupConfigProto)
    (hfinds : s.FindsHost (.changeServerGroup name value)) : Locked (s.changeServerGroup name value).1 := by
  rw [HostedManager.changeServerGroup]
  split
  · exact hs
  · next g hg =>
    split
    · next hstopped =>
      obtain ⟨l₁, l₂, hsplit, hchange, -⟩ := split_of_get hg
      have hcounts := hs.counts
      have hlen := hs.length
      have hhost := hs.groups g (mem_of_get hg)
      have hfound := hfinds g hg hstopped
      rw [hsplit] at hcounts hlen
      simp only [hchange]
      rcases hvalid : (g.group.config.merge value).validateAndInit with ⟨checked, config⟩
      rw [hvalid] at hfound
      obtain ⟨e, rfl, hrun⟩ | ⟨hok, hrest⟩ :=
        HostedGroup.changeGroupConfig_cases (h := s.hosts) hstopped hvalid
      · rw [hrun]
        exact hs.replace hsplit (counts_of_host_eq hcounts rfl) hhost rfl rfl
      · obtain ⟨hname, hrun⟩ | ⟨hname, ⟨hreleased, hrun⟩ | ⟨released, hreleased, hlocks⟩⟩ := hrest
        · rw [hrun]
          have hsame : ((g.writeConfig config).refillPorts value config).host = g.host := by
            rw [HostedGroup.refillPorts]
            split
            · rfl
            · rfl
          exact hs.replace hsplit (counts_of_host_eq hcounts hsame) (hsame ▸ hhost) rfl rfl
        · obtain ⟨released, hsome, -⟩ := hcounts.release hlen
          rw [hreleased] at hsome
          cases hsome
        · obtain ⟨released', hsome, hcounts', hlist, hcreated⟩ := hcounts.release hlen
          rw [hreleased] at hsome
          obtain rfl := Option.some.inj hsome
          obtain ⟨hnone, -⟩ | ⟨r, locked, hlock, hrun⟩ := hlocks
          · rw [HostedGroup.getAndLock_eq_none_iff, HostedGroup.get_released hreleased] at hnone
            exact absurd hnone (hfound hok hname)
          · rw [hrun]
            have hmoved : (((g.writeConfig config).moveTo r
                (config.dbHost.getD [])).refillPorts value config).host = r := by
              rw [HostedGroup.refillPorts]
              split
              · rfl
              · rfl
            rw [List.length_append, List.length_cons] at hlen
            obtain ⟨hcounts'', hmem, hlist', hcreated'⟩ :=
              hcounts'.lock (by rw [List.length_append]; omega) hlock hmoved
            refine hs.replace hsplit hcounts'' ?_ (hlist'.trans hlist) (hcreated'.trans hcreated)
            rw [hmoved, hcreated', hcreated]
            exact hs.hosts r (hlist ▸ hmem)
    · exact hs

/-- **One command keeps the locks.** -/
theorem Locked.step {c : HostedCommand} (hs : Locked s) (hfinds : s.FindsHost c) : Locked (s.step c) := by
  cases c with
  | defineDatabaseHost newDbHost => exact hs.defineDatabaseHost newDbHost
  | changeDatabaseHost oldName newProperties => exact hs.changeDatabaseHost oldName newProperties
  | removeDatabaseHost name => exact hs.removeDatabaseHost name
  | sessions r n => exact hs.congr (serverCount_setObject rfl) (List.Subset.refl _) rfl
  | defineServerGroup config => exact hs.defineServerGroup config hfinds
  | changeServerGroup name value => exact hs.changeServerGroup name value hfinds
  | removeServerGroup name => exact hs.removeServerGroup name
  | start name env => exact hs.callServerGroup name env _
  | stop name env level => exact hs.callServerGroup name env _
  | tryRegisterServer name env serverId => exact hs.callServerGroup name env _
  | evaluateServerGroup name env => exact hs.callServerGroup name env _

theorem locked_new : Locked new :=
  ⟨fun _ => rfl, by decide, fun _ hg => absurd hg List.not_mem_nil, fun _ hr => absurd hr List.not_mem_nil⟩

/-- **A failed change of a group leaves everything as it was exactly when the group runs, or the change
asks for the configuration there is and fails before the hosts are touched; and in a run where no stopped
group asks validly for a database host that is not there, the locks are right in every state.** -/
theorem locks_right (g : HostedGroup) (h : DatabaseHosts) (value : ServerGroupConfigProto)
    (cs : List HostedCommand) :
    (g.Atomic h value ↔ g.ChangesAtomically h value) ∧
      (Along step FindsHost new cs → LocksRight (run step new cs)) :=
  ⟨HostedGroup.atomic_iff g h value, fun hcs =>
    (hcs.inv (I := Locked) (fun _ _ hs hc => hs.step hc) locked_new).locksRight⟩

/-- A host is defined, and a group on it. -/
def oneGroup : List HostedCommand :=
  [.defineDatabaseHost { hostName := some "dbh".toList }, .defineServerGroup twoPorts]

/-- A change of the group to another database host. -/
def otherHost : ServerGroupConfigProto := { dbHost := some "other".toList }

/-- The other host is defined, the group moves to it, the first host is removed and the group started. -/
def moved : List HostedCommand :=
  oneGroup ++ [.defineDatabaseHost { hostName := some "other".toList },
    .changeServerGroup "s".toList otherHost, .removeDatabaseHost "dbh".toList,
    .start "s".toList fun _ _ => some 1]

theorem locks_right_moved :
    (run step new moved).hosts.hostList = [1] ∧
      hostCount (run step new moved).serverGroupList 1 = 1 ∧ LocksRight (run step new moved) := by
  refine ⟨by decide +kernel, by decide +kernel,
    (locks_right ⟨⟨twoPortsGroup, 0, 0⟩, 0⟩ new.hosts {} moved).2 ?_⟩
  refine ⟨trivial, Nat.lt_sub_of_add_lt (by decide : 0 + 1 < 2 ^ 31), trivial, ?_, trivial, trivial, trivial⟩
  rintro g hg - - -
  have hfound : (get HostedGroup.groupName "s".toList (run step new (moved.take 3)).serverGroupList).all
      (fun g => (get (run step new (moved.take 3)).hosts.name
        ((g.group.config.merge otherHost).validateAndInit.2.dbHost.getD [])
          (run step new (moved.take 3)).hosts.hostList).isSome) = true := by decide +kernel
  have hg : get HostedGroup.groupName "s".toList (run step new (moved.take 3)).serverGroupList = some g := hg
  rw [hg] at hfound
  exact Option.isSome_iff_ne_none.mp hfound

/-- **A change to a host that is not there releases the host of the group**, which can then be removed, and
leaves the new configuration. -/
theorem lock_lost :
    (∃ cs, ¬ LocksRight (run step new cs)) ∧ ∃ (g : HostedGroup) (h : DatabaseHosts)
      (value : ServerGroupConfigProto), ¬ g.Atomic h value := by
  refine ⟨⟨oneGroup ++ [.changeServerGroup "s".toList otherHost], fun hright => ?_⟩,
    ⟨⟨twoPortsGroup, 0, 0⟩, 0⟩, (run step new oneGroup).hosts, otherHost, fun hatomic => ?_⟩
  · have hcount := hright.counts 0
    revert hcount
    decide +kernel
  · have hthrows : (HostedGroup.changeGroupConfig ⟨⟨twoPortsGroup, 0, 0⟩, 0⟩
        (run step new oneGroup).hosts otherHost).1.isSome = true := by decide +kernel
    have hconfig := (hatomic fun hnone => by rw [hnone] at hthrows; cases hthrows).config
    revert hconfig
    decide +kernel

end HostedManager

end Rasdaman
