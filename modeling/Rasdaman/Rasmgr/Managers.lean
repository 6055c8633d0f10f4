import Rasdaman.Machinery.Machine
import Rasdaman.Machinery.NamedList
import Rasdaman.Rasmgr.ServerGroupImpl
import Rasdaman.Rasmgr.ControlCommandExecutor

/-!
# Rasmgr/Managers — users, database hosts, databases and server groups

The registries behind `RasControl`.  A `Database` is an object shared between hosts: hosts and the
list of `DatabaseManager` hold references to it, and a rename is seen through all of them.  Whether a
host or a database is busy depends on sessions and servers that come and go between the commands; the
answer is part of the command.
-/

namespace Rasdaman

open NamedList

/-! ## The registries -/

/-- The exceptions of the managers. -/
inductive RasmgrException
  | invalidArgument (message : Text)
  | logic (message : Text)
  | invalidState
  | userAlreadyExists (name : Text)
  | inexistentUser (name : Text)
  | dbHostAlreadyExists (name : Text)
  | inexistentDbHost (name : Text)
  | dbHostBusy (name : Text)
  | databaseAlreadyExists (name host : Text)
  | inexistentDatabase (name : Text)
  | dbBusy (name : Text)
  | serverGroupDuplicate (name : Text)
  | inexistentServerGroup (name : Text)
  | serverGroupBusy (name : Text)
  | group (e : GroupException)

/-- A `User` with its default rights on databases, to read and to write. -/
structure RegisteredUser extends User where
  defaultDbRights : Bool × Bool

/-- A reference to a `Database`. -/
abbrev DbRef := ℕ

/-- `DatabaseHost`. -/
structure DatabaseHost where
  hostName : Text
  connectString : Text
  userName : Text
  passwdString : Text
  databaseList : List DbRef := []
  deriving DecidableEq

/-- The state of the managers: `UserManager::userList`, `DatabaseHostManager::hostList`,
`DatabaseManager::databases`, the names of the `Database` objects created so far, and the
configurations of the groups in `ServerManager::serverGroupList`. -/
structure Managers where
  userList : List RegisteredUser := []
  hostList : List DatabaseHost := []
  databases : List DbRef := []
  dbName : DbRef → Text := fun _ => []
  created : DbRef := 0
  serverGroupList : List ServerGroupConfigProto := []

/-- `getGroupName`. -/
def ServerGroupConfigProto.groupName (config : ServerGroupConfigProto) : Text := config.name.getD []

/-- The state an operation leaves, and the exception it throws. -/
abbrev Managed := Managers × Option RasmgrException

namespace Managers

/-! ## UserManager -/

/-- `UserProto`. -/
structure UserProto where
  name : Option Text := none
  password : Option Text := none
  adminRights : Option (AdminRight → Bool) := none
  defaultDbRights : Option (Bool × Bool) := none

def defineUser (s : Managers) (userInfo : UserProto) : Managed :=
  let name := userInfo.name.getD []
  if name = [] then
    (s, some (.invalidArgument "The user information must have a valid name value.".toList))
  else match get (·.name) name s.userList with
    | some _ => (s, some (.userAlreadyExists name))
    | none =>
      let user : RegisteredUser :=
        { name := name
          password := userInfo.password.getD []
          adminRights := userInfo.adminRights.getD fun _ => false
          defaultDbRights := userInfo.defaultDbRights.getD (false, false) }
      ({ s with userList := s.userList ++ [user] }, none)

/-- What `changeUser` does to the user. -/
def UserProto.apply (newUserInfo : UserProto) (u : RegisteredUser) : RegisteredUser where
  name := if newUserInfo.name.getD [] = [] then u.name else newUserInfo.name.getD []
  password := newUserInfo.password.getD u.password
  adminRights := newUserInfo.adminRights.getD u.adminRights
  defaultDbRights := newUserInfo.defaultDbRights.getD u.defaultDbRights

def changeUser (s : Managers) (userName : Text) (newUserInfo : UserProto) : Managed :=
  match get (·.name) userName s.userList with
  | some _ => ({ s with userList := change (·.name) userName newUserInfo.apply s.userList }, none)
  | none => (s, some (.inexistentUser userName))

def removeUser (s : Managers) (userName : Text) : Managed :=
  match get (·.name) userName s.userList with
  | some _ => ({ s with userList := remove (·.name) userName s.userList }, none)
  | none => (s, some (.inexistentUser userName))

/-! ## DatabaseHostManager -/

/-- `DatabaseHostPropertiesProto`. -/
structure DatabaseHostPropertiesProto where
  hostName : Option Text := none
  connectString : Option Text := none
  userName : Option Text := none
  password : Option Text := none

def defineDatabaseHost (s : Managers) (newDbHost : DatabaseHostPropertiesProto) : Managed :=
  let name := newDbHost.hostName.getD []
  if name = [] then
    (s, some (.invalidArgument "Invalid database host configuration:".toList))
  else match get (·.hostName) name s.hostList with
    | some _ => (s, some (.dbHostAlreadyExists name))
    | none =>
      let host : DatabaseHost :=
        { hostName := name
          connectString := newDbHost.connectString.getD []
          userName := newDbHost.userName.getD []
          passwdString := newDbHost.password.getD [] }
      ({ s with hostList := s.hostList ++ [host] }, none)

/-- What `changeDatabaseHost` does to the host.  An empty user name is refused at the end. -/
def DatabaseHostPropertiesProto.apply (newProperties : DatabaseHostPropertiesProto)
    (h : DatabaseHost) : DatabaseHost where
  connectString := newProperties.connectString.getD h.connectString
  hostName := if newProperties.hostName.getD [] = [] then h.hostName
    else newProperties.hostName.getD []
  passwdString := newProperties.password.getD h.passwdString
  userName := if newProperties.userName.getD [] = [] then h.userName
    else newProperties.userName.getD []
  databaseList := h.databaseList

def changeDatabaseHost (s : Managers) (oldName : Text) (newProperties : DatabaseHostPropertiesProto)
    (busy : Bool) : Managed :=
  match get (·.hostName) oldName s.hostList with
  | none => (s, some (.inexistentDbHost oldName))
  | some _ =>
    if busy then (s, some (.dbHostBusy oldName))
    else
      ({ s with hostList := change (·.hostName) oldName newProperties.apply s.hostList },
        if newProperties.userName = some [] then some (.logic "userName.empty()".toList) else none)

def removeDatabaseHost (s : Managers) (dbHostName : Text) (busy : Bool) : Managed :=
  match get (·.hostName) dbHostName s.hostList with
  | none => (s, some (.inexistentDbHost dbHostName))
  | some _ =>
    if busy then (s, some (.dbHostBusy dbHostName))
    else ({ s with hostList := remove (·.hostName) dbHostName s.hostList }, none)

/-! ## DatabaseManager -/

/-- `defineDatabase`, with `DatabaseHost::addDbToHost`. -/
def defineDatabase (s : Managers) (dbHostName databaseName : Text) : Managed :=
  match get (·.hostName) dbHostName s.hostList with
  | none => (s, some (.inexistentDbHost dbHostName))
  | some host =>
    let found := get s.dbName databaseName s.databases
    let db := found.getD s.created
    let s' : Managers := match found with
      | some _ => s
      | none => { s with dbName := Function.update s.dbName s.created databaseName
                         created := s.created + 1 }
    if (host.databaseList.map s'.dbName).contains databaseName then
      (s', some (.databaseAlreadyExists databaseName dbHostName))
    else
      ({ s' with
          hostList := change (·.hostName) dbHostName
            (fun h => { h with databaseList := h.databaseList ++ [db] }) s'.hostList
          databases := s'.databases ++ [db] }, none)

def changeDatabase (s : Managers) (oldDbName newDbName : Text) (busy : Bool) : Managed :=
  match get s.dbName oldDbName s.databases with
  | none => (s, some (.inexistentDatabase oldDbName))
  | some db =>
    if busy then (s, some (.dbBusy oldDbName))
    else if newDbName = [] then (s, some (.logic "value.empty()".toList))
    else ({ s with dbName := Function.update s.dbName db newDbName }, none)

/-- `removeDatabase`, with `DatabaseHost::removeDbFromHost`.  `databases.remove` takes out every
reference to the database found. -/
def removeDatabase (s : Managers) (databaseHostName databaseName : Text) (busy : Bool) : Managed :=
  match get (·.hostName) databaseHostName s.hostList with
  | none => (s, some (.inexistentDbHost databaseHostName))
  | some host =>
    match get s.dbName databaseName host.databaseList with
    | none => (s, some (.inexistentDatabase databaseName))
    | some _ =>
      if busy then (s, some (.dbBusy databaseName))
      else
        let hosts := change (·.hostName) databaseHostName
          (fun h => { h with databaseList := remove s.dbName databaseName h.databaseList }) s.hostList
        let databases := match get s.dbName databaseName s.databases with
          | some db => s.databases.filter (· ≠ db)
          | none => s.databases
        ({ s with hostList := hosts, databases := databases }, none)

/-- `DatabaseManager::serializeToProto`: the databases of all hosts. -/
def serializeToProto (s : Managers) : List (Text × Text) :=
  s.hostList.flatMap fun h => h.databaseList.map fun db => (h.hostName, s.dbName db)

/-! ## ServerManager -/

/-- `defineServerGroup`, with the constructor of the group. -/
def defineServerGroup (s : Managers) (serverGroupConfig : ServerGroupConfigProto) : Managed :=
  match get (·.groupName) serverGroupConfig.groupName s.serverGroupList with
  | some _ => (s, some (.serverGroupDuplicate serverGroupConfig.groupName))
  | none => match serverGroupConfig.validateAndInit with
    | (.error e, _) => (s, some (.group e))
    | (.ok _, config) => match get (·.hostName) (config.dbHost.getD []) s.hostList with
      | none => (s, some (.inexistentDbHost (config.dbHost.getD [])))
      | some _ => ({ s with serverGroupList := s.serverGroupList ++ [config] }, none)

/-- `changeServerGroup`, with `changeGroupConfig`: the group has its new configuration also when that
is then found to be invalid. -/
def changeServerGroup (s : Managers) (oldServerGroupName : Text)
    (newServerGroupConfig : ServerGroupConfigProto) (stopped : Bool) : Managed :=
  match get (·.groupName) oldServerGroupName s.serverGroupList with
  | none => (s, some (.inexistentServerGroup oldServerGroupName))
  | some g =>
    if ¬stopped then (s, some .invalidState)
    else
      let changed := (g.merge newServerGroupConfig).validateAndInit
      let s' := { s with
        serverGroupList := change (·.groupName) oldServerGroupName
          (fun g => (g.merge newServerGroupConfig).validateAndInit.2) s.serverGroupList }
      match changed.1 with
      | .error e => (s', some (.group e))
      | .ok _ =>
        if newServerGroupConfig.dbHost.isSome ∧
            get (·.hostName) (changed.2.dbHost.getD []) s.hostList = none then
          (s', some (.inexistentDbHost (changed.2.dbHost.getD [])))
        else (s', none)

def removeServerGroup (s : Managers) (serverGroupName : Text) (stopped : Bool) : Managed :=
  match get (·.groupName) serverGroupName s.serverGroupList with
  | none => (s, some (.inexistentServerGroup serverGroupName))
  | some _ =>
    if stopped then
      ({ s with serverGroupList := remove (·.groupName) serverGroupName s.serverGroupList }, none)
    else (s, some (.serverGroupBusy serverGroupName))

/-! ## RasControl

The operations of `RasControl` turn the message of a command into the manager's parameters and catch
its exceptions. -/

section RasControl

-- `Crypto::messageDigest`, or the identity when it is not available
variable (digest : Text → Text)

/-- The rights of a message as `UserAdminRights::parseFromProto` reads them. -/
def adminRights (access config info serverAdmin : Option Bool) : AdminRight → Bool
  | .accessControl => access.getD false
  | .systemConfig => config.getD false
  | .info => info.getD false
  | .serverAdmin => serverAdmin.getD false

/-- The parameter of `UserManager::defineUser`; without a password the name is the password. -/
def userOfDefine (userData : DefineUser) : UserProto where
  name := some (userData.userName.getD [])
  password := some (digest (userData.passwd.getD (userData.userName.getD [])))
  adminRights := some (adminRights userData.accessRights userData.configRights userData.infoRights
    userData.serverAdminRights)
  defaultDbRights := some (userData.dbreadRights.getD false, userData.dbwriteRights.getD false)

/-- The parameter of `UserManager::changeUser`: rights are replaced together. -/
def userOfChange (userData : ChangeUser) : UserProto where
  name := userData.nName
  password := userData.nPasswd.map digest
  adminRights :=
    if userData.nAccessRights.isSome ∨ userData.nConfigRights.isSome ∨ userData.nInfoRights.isSome ∨
        userData.nServerAdminRights.isSome then
      some (adminRights userData.nAccessRights userData.nConfigRights userData.nInfoRights
        userData.nServerAdminRights)
    else none
  defaultDbRights :=
    if userData.nDbreadRights.isSome ∨ userData.nDbwriteRights.isSome then
      some (userData.nDbreadRights.getD false, userData.nDbwriteRights.getD false)
    else none

def hostOfDefine (dbHostData : DefineDbHost) : DatabaseHostPropertiesProto where
  hostName := some (dbHostData.hostName.getD [])
  connectString := dbHostData.connect
  userName := dbHostData.user
  password := dbHostData.passwd

def hostOfChange (dbHostData : ChangeDbHost) : DatabaseHostPropertiesProto where
  hostName := dbHostData.nName
  connectString := dbHostData.nConnect
  userName := dbHostData.nUser
  password := dbHostData.nPasswd

def groupOfDefine (groupData : DefineServerGroup) : ServerGroupConfigProto where
  name := groupData.groupName
  host := groupData.host
  dbHost := groupData.dbHost
  ports := groupData.ports.map (↑)
  minAliveServerNo := groupData.minAliveServers
  minAvailableServerNo := groupData.minAvailableServers
  maxIdleServerNo := groupData.maxIdleServers
  autorestart := groupData.autorestart
  countdown := groupData.countdown
  serverOptions := groupData.options

def groupOfChange (groupData : ChangeServerGroup) : ServerGroupConfigProto where
  name := groupData.nGroupName
  host := groupData.nHost
  dbHost := groupData.nDbHost
  ports := groupData.nPorts.map (↑)
  minAliveServerNo := groupData.nMinAliveServers
  minAvailableServerNo := groupData.nMinAvailableServers
  maxIdleServerNo := groupData.nMaxIdleServers
  autorestart := groupData.nAutorestart
  countdown := groupData.nCountdown
  serverOptions := groupData.nOptions

/-- A command for the registries, with what `isBusy` or `isStopped` answers in it. -/
inductive Command
  | defineUser (m : DefineUser)
  | changeUser (m : ChangeUser)
  | removeUser (m : RemoveUser)
  | defineDbHost (m : DefineDbHost)
  | changeDbHost (m : ChangeDbHost) (busy : Bool)
  | removeDbHost (m : RemoveDbHost) (busy : Bool)
  | defineDb (m : DefineDb)
  | changeDb (m : ChangeDb) (busy : Bool)
  | removeDb (m : RemoveDb) (busy : Bool)
  | defineServerGroup (m : DefineServerGroup)
  | changeServerGroup (m : ChangeServerGroup) (stopped : Bool)
  | removeServerGroup (groupName : Text) (stopped : Bool)

/-- The operation of `RasControl` for a command. -/
def execute (s : Managers) : Command → Managed
  | .defineUser m => s.defineUser (userOfDefine digest m)
  | .changeUser m => s.changeUser (m.userName.getD []) (userOfChange digest m)
  | .removeUser m => s.removeUser (m.userName.getD [])
  | .defineDbHost m => s.defineDatabaseHost (hostOfDefine m)
  | .changeDbHost m busy => s.changeDatabaseHost (m.hostName.getD []) (hostOfChange m) busy
  | .removeDbHost m busy => s.removeDatabaseHost (m.hostName.getD []) busy
  | .defineDb m => s.defineDatabase (m.dbhostName.getD []) (m.dbName.getD [])
  | .changeDb m busy => s.changeDatabase (m.dbName.getD []) (m.nDbName.getD []) busy
  | .removeDb m busy => s.removeDatabase (m.dbhostName.getD []) (m.dbName.getD []) busy
  | .defineServerGroup m => s.defineServerGroup (groupOfDefine m)
  | .changeServerGroup m stopped =>
    s.changeServerGroup (m.groupName.getD []) (groupOfChange m) stopped
  | .removeServerGroup groupName stopped => s.removeServerGroup groupName stopped

/-- The registries after a command. -/
def step (s : Managers) (c : Command) : Managers := (execute digest s c).1

end RasControl

/-! ## Consistency -/

/-- The database is on some host. -/
def OnHost (s : Managers) (db : DbRef) : Prop := ∃ h ∈ s.hostList, db ∈ h.databaseList

/-- **Names are unique, and `databases` lists the databases of the hosts**, one object for each name. -/
structure Consistent (s : Managers) : Prop where
  users : Unique (·.name) s.userList
  hosts : Unique (·.hostName) s.hostList
  groups : Unique (·.groupName) s.serverGroupList
  onHost : ∀ h ∈ s.hostList, Unique s.dbName h.databaseList
  listed : ∀ db, db ∈ s.databases ↔ s.OnHost db
  shared : ∀ db db', s.OnHost db → s.OnHost db' → s.dbName db = s.dbName db' → db = db'

/-- Objects in use have been created. -/
def Fresh (s : Managers) : Prop := ∀ db ∈ s.databases, db < s.created

/-- `changeDatabase` finds a database exactly when `serializeToProto` lists it. -/
theorem Consistent.found_iff {s : Managers} (h : s.Consistent) (name : Text) :
    (get s.dbName name s.databases).isSome = true ↔ ∃ host, (host, name) ∈ s.serializeToProto := by
  rw [← Option.ne_none_iff_isSome, ne_eq, get_eq_none, not_not]
  constructor
  · intro hmem
    obtain ⟨db, hdb, rfl⟩ := List.mem_map.mp hmem
    obtain ⟨host, hhost, hon⟩ := (h.listed db).mp hdb
    exact ⟨host.hostName, List.mem_flatMap.mpr ⟨host, hhost, List.mem_map.mpr ⟨db, hon, rfl⟩⟩⟩
  · rintro ⟨hostName, hmem⟩
    obtain ⟨host, hhost, hpair⟩ := List.mem_flatMap.mp hmem
    obtain ⟨db, hon, heq⟩ := List.mem_map.mp hpair
    cases heq
    exact List.mem_map_of_mem ((h.listed db).mpr ⟨host, hhost, hon⟩)

/-! ## Commands that keep the registries consistent -/

/-- A new name that is given, is not the old one and belongs to another entry. -/
def Clashes (names : List Text) (old new : Text) : Prop := new ≠ [] ∧ new ≠ old ∧ new ∈ names

/-- A command that renames nothing to a name in use, removes no database that is also on another host,
and no host with a database that is on no other one. -/
def Orderly (s : Managers) : Command → Prop
  | .changeUser m =>
    let names := s.userList.map (·.name)
    m.userName.getD [] ∈ names → ¬Clashes names (m.userName.getD []) (m.nName.getD [])
  | .changeDbHost m busy =>
    let names := s.hostList.map (·.hostName)
    busy = false → m.hostName.getD [] ∈ names →
      ¬Clashes names (m.hostName.getD []) (m.nName.getD [])
  | .removeDbHost m busy =>
    busy = false → ∀ h, get (·.hostName) (m.hostName.getD []) s.hostList = some h →
      ∀ db ∈ h.databaseList, ∃ h' ∈ s.hostList, h'.hostName ≠ h.hostName ∧ db ∈ h'.databaseList
  | .changeDb m busy =>
    let names := s.databases.map s.dbName
    busy = false → m.dbName.getD [] ∈ names → ¬Clashes names (m.dbName.getD []) (m.nDbName.getD [])
  | .removeDb m busy =>
    busy = false → ∀ h, get (·.hostName) (m.dbhostName.getD []) s.hostList = some h →
      m.dbName.getD [] ∈ h.databaseList.map s.dbName →
      ∀ h' ∈ s.hostList, m.dbName.getD [] ∈ h'.databaseList.map s.dbName → h'.hostName = h.hostName
  | .changeServerGroup m stopped =>
    let names := s.serverGroupList.map (·.groupName)
    stopped = true → m.groupName.getD [] ∈ names →
      m.nGroupName.getD (m.groupName.getD []) ∈ names → m.nGroupName.getD (m.groupName.getD [])
        = m.groupName.getD []
  | _ => True

end Managers

end Rasdaman
