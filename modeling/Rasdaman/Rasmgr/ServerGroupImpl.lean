import Rasdaman.Machinery.Effect
import Rasdaman.Rasmgr.RasmgrMess
import Mathlib.Data.Finset.Max
import Mathlib.Data.List.Sort

/-!
# Rasmgr/ServerGroupImpl — the servers of one group and their ports

A `ServerGroupImpl` owns a set of ports.  A port is available, or belongs to a server that is
starting, running or waiting to be restarted.  The processes behind the servers, the factory and the
database hosts are outside: each call to them is answered by the environment, which may let it
return anything or throw.  An exception keeps the changes made before it, as in the source.
-/

namespace Rasdaman

open Effect

/-! ## The configuration -/

/-- The exceptions of the group, and any other one that comes from outside; `crash` is the end of the
process, which no handler sees. -/
inductive GroupException
  | invalidState (message : String)
  | invalidArgument (message : String)
  | external
  | crash

/-- A `uint32` read as an `int32`. -/
def toInt32 (p : ℤ) : ℤ := p.bmod (2 ^ 32)

/-- An `int32` read as a `uint32`. -/
def toUInt32 (p : ℤ) : ℤ := p % 2 ^ 32

theorem toInt32_toUInt32 (p : ℤ) : toInt32 (toUInt32 p) = toInt32 p := by
  have hmod := @Int.emod_bmod p (2 ^ 32)
  exact_mod_cast hmod

theorem toInt32_toInt32 (p : ℤ) : toInt32 (toInt32 p) = toInt32 p := Int.bmod_bmod

namespace ServerGroupConfigProto

/-- `MIN_ALIVE_SERVER_NO` and the other defaults of `constants.hh`. -/
def initDefaults (config : ServerGroupConfigProto) : ServerGroupConfigProto :=
  { config with
    minAliveServerNo := some (config.minAliveServerNo.getD 1)
    minAvailableServerNo := some (config.minAvailableServerNo.getD 1)
    maxIdleServerNo := some (config.maxIdleServerNo.getD 10)
    autorestart := some (config.autorestart.getD true)
    countdown := some (config.countdown.getD 1000)
    startingServerLifetime := some (config.startingServerLifetime.getD 10000) }

/-- The ports as a `std::set<int32_t>`. -/
def portSet (config : ServerGroupConfigProto) : Finset ℤ := (config.ports.map toInt32).toFinset

/-- "Make the list of ports contain unique entries". -/
def uniquePorts (config : ServerGroupConfigProto) : ServerGroupConfigProto :=
  { config with ports := ((config.ports.map toInt32).dedup.insertionSort (· ≤ ·)).map toUInt32 }

/-- `validateAndInitConfig`: what is wrong with the configuration, and the configuration as the
function leaves it.  The ports and the defaults are written before the two last checks. -/
def validateAndInit (config : ServerGroupConfigProto) :
    Except GroupException Unit × ServerGroupConfigProto :=
  let missing := fun p => GroupException.invalidArgument ("Missing configuration parameter:\"" ++ p ++ "\"")
  if config.name.isNone then (.error (missing "name"), config)
  else if config.host.isNone then (.error (missing "host"), config)
  else if config.dbHost.isNone then (.error (missing "db_host"), config)
  else if config.ports.isEmpty then (.error (missing "ports"), config)
  else
    let config := config.uniquePorts.initDefaults
    if config.minAvailableServerNo.getD 0 > config.minAliveServerNo.getD 0 then
      (.error (.invalidArgument "The minimum number of available servers must be less or equal to the minimum number of alive servers"), config)
    else if config.ports.length < config.minAliveServerNo.getD 0 then
      (.error (.invalidArgument "The number of allocated ports must be greater than the minimum number of alive servers."), config)
    else (.ok (), config)

/-- The fields of `value` that are set replace those of `config`. -/
def merge (config value : ServerGroupConfigProto) : ServerGroupConfigProto where
  name := value.name <|> config.name
  host := value.host <|> config.host
  dbHost := value.dbHost <|> config.dbHost
  ports := if value.ports.isEmpty then config.ports else value.ports
  minAliveServerNo := value.minAliveServerNo <|> config.minAliveServerNo
  minAvailableServerNo := value.minAvailableServerNo <|> config.minAvailableServerNo
  maxIdleServerNo := value.maxIdleServerNo <|> config.maxIdleServerNo
  autorestart := value.autorestart <|> config.autorestart
  countdown := value.countdown <|> config.countdown
  serverOptions := value.serverOptions <|> config.serverOptions
  startingServerLifetime := config.startingServerLifetime

end ServerGroupConfigProto

/-! ## The group -/

/-- A `Server`: its id and the port it was created for. -/
structure Server where
  serverId : ℕ
  port : ℤ
  deriving DecidableEq

/-- The fields of `ServerGroupImpl`.  `startingServers` is keyed by the server's id; the timer of an
entry is asked through the environment. -/
structure ServerGroupImpl where
  config : ServerGroupConfigProto
  databaseHost : Text
  startingServers : List Server
  runningServers : List Server
  restartingServers : List Server
  availablePorts : Finset ℤ
  stopped : Bool
  deriving DecidableEq

/-- The calls that leave the group, by the place that makes them. -/
inductive Call
  | ownsDatabase
  | isAvailable
  | isFree
  | isAlive
  | hasExpired
  | getTotalSessionNo
  | registerServer
  | createServer
  | startProcess
  | stopRunning
  | stopStarting
  | stopDead
  | stopExpired
  | stopRestarting
  | stopIdle
  | decreaseServerCount
  | getAndLockDatabaseHost
  deriving DecidableEq

/-- What a call returns when it is the `k`-th one of an operation; `none` is an exception.  A truth
value is returned as 0 or another number. -/
abbrev Environment := Call → ℕ → Option ℕ

/-- The group with the number of calls made during the operation, and the number of server ids
given out so far (`UUID::generateUUID` never repeats one). -/
structure World where
  group : ServerGroupImpl
  calls : ℕ := 0
  uuids : ℕ := 0
  deriving DecidableEq

/-- A method of the group. -/
abbrev Op := Eff Environment GroupException World

namespace ServerGroupImpl

/-- A call to the outside. -/
def ask (c : Call) : Op ℕ := do
  let w ← get
  set { w with calls := w.calls + 1 }
  match (← read) c w.calls with
  | some r => pure r
  | none => throw .external

def askBool (c : Call) : Op Bool := do
  let r ← ask c
  pure (r != 0)

def getGroup : Op ServerGroupImpl := do
  let w ← get
  pure w.group

def setGroup (f : ServerGroupImpl → ServerGroupImpl) : Op Unit :=
  modify fun w => { w with group := f w.group }

/-- `availablePorts.insert(server->getPort())`. -/
def insertPort (server : Server) : Op Unit :=
  setGroup fun g => { g with availablePorts := insert server.port g.availablePorts }

/-! ### Starting and stopping servers -/

/-- `serverFactory->createServer`. -/
def createServer (port : ℤ) : Op Server := do
  let _ ← ask .createServer
  let w ← get
  set { w with uuids := w.uuids + 1 }
  pure ⟨w.uuids, port⟩

/-- `startingServers.insert`: an id that is there already is not inserted again. -/
def insertStarting (server : Server) : Op Unit :=
  setGroup fun g =>
    if g.startingServers.any (·.serverId == server.serverId) then g
    else { g with startingServers := g.startingServers ++ [server] }

/-- `startServer`. -/
def startServer : Op Unit := do
  let g ← getGroup
  if h : g.availablePorts.Nonempty then
    let port := g.availablePorts.min' h
    setGroup fun g => { g with availablePorts := g.availablePorts.erase port }
    let server ← createServer port
    if g.config.startingServerLifetime.getD 0 < 0 then throw (.invalidArgument "period")
    else
      insertStarting server
      let _ ← ask .startProcess
      pure ()
  else throw (.invalidState
    "The ServerGroup has reached capacity. No more servers can be started.")

/-- `startServer` a number of times. -/
def startServers : ℕ → Op Unit
  | 0 => pure ()
  | n + 1 => do
    startServer
    startServers n

/-- The first loop of `stopActiveServers`. -/
def stopRunning (level : KillLevel) : List Server → Op Unit
  | [] => pure ()
  | server :: rest => do
    tryCatch
      (do
        let _ ← ask .stopRunning
        if level = .kill then insertPort server else pure ())
      fun _ => pure ()
    stopRunning level rest

/-- The second loop of `stopActiveServers`. -/
def stopStarting : List Server → Op Unit
  | [] => pure ()
  | server :: rest => do
    tryCatch
      (do
        let _ ← ask .stopStarting
        insertPort server)
      fun _ => pure ()
    stopStarting rest

/-- `stopActiveServers`. -/
def stopActiveServers (level : KillLevel) : Op Unit := do
  let g ← getGroup
  stopRunning level g.runningServers
  if level = .kill then setGroup fun g => { g with runningServers := [] } else pure ()
  let g ← getGroup
  stopStarting g.startingServers
  setGroup fun g => { g with startingServers := [] }

/-! ### Evaluating the group -/

/-- The first loop of `removeDeadServers`; `kept` are the servers before the iterator.  It answers
whether `runningToErase` points to a server that is still listed: at first it points nowhere. -/
def removeDeadRunning (kept : List Server) (valid : Bool) : List Server → Op Bool
  | [] => pure valid
  | server :: rest => do
    let erased ← tryCatch
      (do
        let alive ← askBool .isAlive
        if alive then pure false
        else
          let _ ← ask .stopDead
          insertPort server
          setGroup fun g => { g with runningServers := kept ++ rest }
          pure true)
      fun _ => pure false
    if erased then removeDeadRunning kept false rest
    else removeDeadRunning (kept ++ [server]) true rest

/-- The second loop of `removeDeadServers`.  Its handler logs the id of `*runningToErase`, not of the
server that failed: it reads through an iterator that the first loop may have left invalid. -/
def removeExpiredStarting (valid : Bool) (kept : List Server) : List Server → Op Unit
  | [] => pure ()
  | server :: rest => do
    let erased ← tryCatch
      (do
        let expired ← askBool .hasExpired
        if expired then
          let _ ← ask .stopExpired
          insertPort server
          setGroup fun g => { g with startingServers := kept ++ rest }
          pure true
        else pure false)
      fun _ => if valid then pure false else throw .crash
    if erased then removeExpiredStarting valid kept rest
    else removeExpiredStarting valid (kept ++ [server]) rest

/-- `removeDeadServers`. -/
def removeDeadServers : Op Unit := do
  let g ← getGroup
  let valid ← removeDeadRunning [] false g.runningServers
  let g ← getGroup
  removeExpiredStarting valid [] g.startingServers

/-- The first loop of `evaluateRestartingServers`: servers with enough sessions are moved. -/
def collectRestarting (countdown : ℕ) (kept : List Server) : List Server → Op Unit
  | [] => pure ()
  | server :: rest => do
    let sessions ← ask .getTotalSessionNo
    if sessions ≥ countdown then
      setGroup fun g =>
        { g with
          restartingServers := g.restartingServers ++ [server]
          runningServers := kept ++ rest }
      collectRestarting countdown kept rest
    else collectRestarting countdown (kept ++ [server]) rest

/-- The second loop of `evaluateRestartingServers`: the free ones are killed. -/
def killRestarting (kept : List Server) : List Server → Op Unit
  | [] => pure ()
  | server :: rest => do
    let free ← askBool .isFree
    if free then
      let erased ← tryCatch
        (do
          let _ ← ask .stopRestarting
          insertPort server
          setGroup fun g => { g with restartingServers := kept ++ rest }
          pure true)
        fun _ => pure false
      if erased then killRestarting kept rest else killRestarting (kept ++ [server]) rest
    else killRestarting (kept ++ [server]) rest

/-- `evaluateRestartingServers`. -/
def evaluateRestartingServers : Op Unit := do
  let g ← getGroup
  let countdown := g.config.countdown.getD 0
  if countdown > 0 then
    collectRestarting countdown [] g.runningServers
    let g ← getGroup
    killRestarting [] g.restartingServers
  else pure ()

/-- The counting loop of `evaluateGroup`: the available and the idle servers. -/
def countServers : List Server → Op (ℕ × ℕ)
  | [] => pure (0, 0)
  | _ :: rest => do
    let free ← askBool .isFree
    if free then
      let (available, idle) ← countServers rest
      pure (available + 1, idle + 1)
    else
      let usable ← askBool .isAvailable
      let (available, idle) ← countServers rest
      pure (if usable then available + 1 else available, idle)

/-- The loop that stops superfluous idle servers; they stay in the list. -/
def stopIdle : ℕ → List Server → Op Unit
  | 0, _ => pure ()
  | _, [] => pure ()
  | n + 1, _ :: rest => do
    let free ← askBool .isFree
    if free then
      let _ ← ask .stopIdle
      stopIdle n rest
    else stopIdle (n + 1) rest

/-- `evaluateGroup`. -/
def evaluateGroup : Op Unit := do
  removeDeadServers
  evaluateRestartingServers
  let g ← getGroup
  if g.stopped then pure ()
  else
    let (availableServerNo, idleServerNo) ← countServers g.runningServers
    let minAvailable := g.config.minAvailableServerNo.getD 0
    let maxIdle := g.config.maxIdleServerNo.getD 0
    if availableServerNo < minAvailable then
      let listed := g.startingServers.length + g.runningServers.length + g.restartingServers.length
      let notStartedServerNo := (((g.config.ports.length : ℤ) - listed) % 2 ^ 32).toNat
      startServers (min (minAvailable - availableServerNo) notStartedServerNo)
    else if availableServerNo > minAvailable ∧ idleServerNo > maxIdle then
      stopIdle (min (availableServerNo - minAvailable) (idleServerNo - maxIdle)) g.runningServers
    else pure ()

/-! ### The interface -/

/-- The constructor: an invalid configuration gives no group. -/
def construct (config : ServerGroupConfigProto) : Option ServerGroupImpl :=
  match config.validateAndInit with
  | (.error _, _) => none
  | (.ok _, config) => some
    { config := config
      databaseHost := config.dbHost.getD []
      startingServers := []
      runningServers := []
      restartingServers := []
      availablePorts := config.portSet
      stopped := true }

/-- `start`. -/
def start : Op Unit := do
  let g ← getGroup
  if g.stopped then
    setGroup fun g => { g with stopped := false }
    startServers (g.config.minAliveServerNo.getD 0)
  else pure ()

/-- `stop`. -/
def stop (level : KillLevel) : Op Unit := do
  let g ← getGroup
  if g.stopped then throw (.invalidState "ServerGroup is already stopped")
  else
    setGroup fun g => { g with stopped := true }
    stopActiveServers level
    evaluateGroup

/-- `tryRegisterServer`. -/
def tryRegisterServer (serverId : ℕ) : Op Bool := do
  let g ← getGroup
  if g.stopped then
    throw (.invalidState "ServerGroup is already stopped. No new servers can register.")
  else match g.startingServers.find? (·.serverId == serverId) with
    | some server => do
      let _ ← ask .registerServer
      setGroup fun g =>
        { g with
          runningServers := g.runningServers ++ [server]
          startingServers := g.startingServers.erase server }
      pure true
    | none => pure false

/-- `evaluateServerGroup`. -/
def evaluateServerGroup : Op Unit := evaluateGroup

/-- The loop of `tryGetAvailableServer`: the server found goes to the end of the list. -/
def findAvailable (kept : List Server) : List Server → Op (Option Server)
  | [] => pure none
  | server :: rest => do
    let available ← askBool .isAvailable
    if available then
      setGroup fun g => { g with runningServers := kept ++ rest ++ [server] }
      pure (some server)
    else findAvailable (kept ++ [server]) rest

/-- `tryGetAvailableServer`; whether the database host owns the database is asked outside. -/
def tryGetAvailableServer (_dbName : Text) : Op (Option Server) := do
  let g ← getGroup
  let owns ← askBool .ownsDatabase
  if owns then findAvailable [] g.runningServers else pure none

/-- `changeGroupConfig`. -/
def changeGroupConfig (value : ServerGroupConfigProto) : Op Unit := do
  let g ← getGroup
  if ¬g.stopped then
    throw (.invalidState
      "Cannot change ServerGroup configuration while the ServerGroup is running.")
  else
    let (checked, config) := (g.config.merge value).validateAndInit
    setGroup fun g => { g with config := config }
    match checked with
    | .error e => throw e
    | .ok _ =>
      if value.dbHost.isSome then
        let _ ← ask .decreaseServerCount
        let _ ← ask .getAndLockDatabaseHost
        setGroup fun g => { g with databaseHost := config.dbHost.getD [] }
      else pure ()
      if value.ports.isEmpty then pure ()
      else setGroup fun g => { g with availablePorts := config.portSet }

end ServerGroupImpl

end Rasdaman
