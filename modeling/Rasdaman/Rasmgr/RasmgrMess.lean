import Mathlib.Algebra.Order.Ring.Int

/-!
# Rasmgr/RasmgrMess — the messages of rasmgr

The messages of `rasmgrmess.proto` that the command grammar fills and the server groups are made
from.  An unset field is `none`; `Clear` gives the default value of the structure.
-/

namespace Rasdaman

/-- A `std::string`. -/
abbrev Text := List Char

/-- `KillLevel`. -/
inductive KillLevel
  | none
  | force
  | kill
  deriving DecidableEq

/-! ## Server groups -/

/-- `DefineServerGroup`. -/
structure DefineServerGroup where
  groupName : Option Text := none
  host : Option Text := none
  ports : List ℕ := []
  dbHost : Option Text := none
  groupSize : Option ℕ := none
  minAliveServers : Option ℕ := none
  minAvailableServers : Option ℕ := none
  maxIdleServers : Option ℕ := none
  autorestart : Option Bool := none
  countdown : Option ℕ := none
  options : Option Text := none
  deriving DecidableEq

/-- `ChangeServerGroup`. -/
structure ChangeServerGroup where
  groupName : Option Text := none
  nGroupName : Option Text := none
  nHost : Option Text := none
  nPorts : List ℕ := []
  nDbHost : Option Text := none
  nGroupSize : Option ℕ := none
  nMinAliveServers : Option ℕ := none
  nMinAvailableServers : Option ℕ := none
  nMaxIdleServers : Option ℕ := none
  nAutorestart : Option Bool := none
  nCountdown : Option ℕ := none
  nOptions : Option Text := none
  deriving DecidableEq

/-- `ListServerGroup`. -/
structure ListServerGroup where
  host : Option Text := none
  groupName : Option Text := none
  extraInfo : Option Bool := none
  deriving DecidableEq

/-- `StartServerGroup`. -/
structure StartServerGroup where
  groupName : Option Text := none
  hostName : Option Text := none
  all : Option Bool := none
  deriving DecidableEq

/-- `StopServerGroup`. -/
structure StopServerGroup where
  groupName : Option Text := none
  hostName : Option Text := none
  all : Option Bool := none
  killLevel : Option KillLevel := none
  deriving DecidableEq

/-- `ServerGroupConfigProto`; the ports are `uint32`. -/
structure ServerGroupConfigProto where
  name : Option Text := none
  host : Option Text := none
  dbHost : Option Text := none
  ports : List ℤ := []
  minAliveServerNo : Option ℕ := none
  minAvailableServerNo : Option ℕ := none
  maxIdleServerNo : Option ℕ := none
  autorestart : Option Bool := none
  countdown : Option ℕ := none
  serverOptions : Option Text := none
  startingServerLifetime : Option ℤ := none
  deriving DecidableEq

/-! ## Database hosts and databases -/

/-- `DefineDbHost`. -/
structure DefineDbHost where
  hostName : Option Text := none
  connect : Option Text := none
  user : Option Text := none
  passwd : Option Text := none
  deriving DecidableEq

/-- `ChangeDbHost`. -/
structure ChangeDbHost where
  hostName : Option Text := none
  nName : Option Text := none
  nConnect : Option Text := none
  nUser : Option Text := none
  nPasswd : Option Text := none
  deriving DecidableEq

/-- `RemoveDbHost`. -/
structure RemoveDbHost where
  hostName : Option Text := none
  deriving DecidableEq

/-- `DefineDb`. -/
structure DefineDb where
  dbName : Option Text := none
  dbhostName : Option Text := none
  deriving DecidableEq

/-- `ChangeDb`. -/
structure ChangeDb where
  dbName : Option Text := none
  nDbName : Option Text := none
  deriving DecidableEq

/-- `RemoveDb`. -/
structure RemoveDb where
  dbName : Option Text := none
  dbhostName : Option Text := none
  deriving DecidableEq

/-- `ListDb`. -/
structure ListDb where
  dbName : Option Text := none
  dbhName : Option Text := none
  deriving DecidableEq

/-! ## Users and peers -/

/-- `DefineUser`. -/
structure DefineUser where
  userName : Option Text := none
  passwd : Option Text := none
  configRights : Option Bool := none
  accessRights : Option Bool := none
  serverAdminRights : Option Bool := none
  infoRights : Option Bool := none
  dbreadRights : Option Bool := none
  dbwriteRights : Option Bool := none
  deriving DecidableEq

/-- `RemoveUser`. -/
structure RemoveUser where
  userName : Option Text := none
  deriving DecidableEq

/-- `ChangeUser`. -/
structure ChangeUser where
  userName : Option Text := none
  nName : Option Text := none
  nPasswd : Option Text := none
  nConfigRights : Option Bool := none
  nAccessRights : Option Bool := none
  nServerAdminRights : Option Bool := none
  nInfoRights : Option Bool := none
  nDbreadRights : Option Bool := none
  nDbwriteRights : Option Bool := none
  deriving DecidableEq

/-- `ListUser`. -/
structure ListUser where
  displayRights : Option Bool := none
  deriving DecidableEq

/-- `DefineOutpeer`. -/
structure DefineOutpeer where
  hostName : Option Text := none
  port : Option ℕ := none
  deriving DecidableEq

end Rasdaman
