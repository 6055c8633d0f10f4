import Rasdaman.Machinery.Peg
import Rasdaman.Machinery.Registers
import Rasdaman.Rasmgr.RasmgrMess

/-!
# Rasmgr/RasControlGrammar — the rascontrol commands

The rules of `RasControlGrammar`, under their names there.  The actions fill message members of the
grammar object and call `RasControl` with them; the members live as long as the object and are
modelled as registers.
-/

namespace Rasdaman

open Peg Registers

/-! ## Members and calls -/

/-- The message members of the grammar. -/
inductive Member
  | defUser
  | remUser
  | changeUser
  | listUser
  | defDbHost
  | changeDbHost
  | removeDbHost
  | upSrv
  | downSrv
  | defDb
  | changeDb
  | removeDb
  | listDb
  | defServerGroup
  | changeServerGroup
  | listServerGroup
  | defOutpeer
  deriving DecidableEq

namespace Member

/-- The type of a member. -/
def Message : Member → Type
  | defUser => DefineUser
  | remUser => RemoveUser
  | changeUser => ChangeUser
  | listUser => ListUser
  | defDbHost => DefineDbHost
  | changeDbHost => ChangeDbHost
  | removeDbHost => RemoveDbHost
  | upSrv => StartServerGroup
  | downSrv => StopServerGroup
  | defDb => DefineDb
  | changeDb => ChangeDb
  | removeDb => RemoveDb
  | listDb => ListDb
  | defServerGroup => DefineServerGroup
  | changeServerGroup => ChangeServerGroup
  | listServerGroup => ListServerGroup
  | defOutpeer => DefineOutpeer

/-- A member of a fresh grammar object, and after `Clear`. -/
def cleared : (r : Member) → r.Message
  | defUser => ({} : DefineUser)
  | remUser => ({} : RemoveUser)
  | changeUser => ({} : ChangeUser)
  | listUser => ({} : ListUser)
  | defDbHost => ({} : DefineDbHost)
  | changeDbHost => ({} : ChangeDbHost)
  | removeDbHost => ({} : RemoveDbHost)
  | upSrv => ({} : StartServerGroup)
  | downSrv => ({} : StopServerGroup)
  | defDb => ({} : DefineDb)
  | changeDb => ({} : ChangeDb)
  | removeDb => ({} : RemoveDb)
  | listDb => ({} : ListDb)
  | defServerGroup => ({} : DefineServerGroup)
  | changeServerGroup => ({} : ChangeServerGroup)
  | listServerGroup => ({} : ListServerGroup)
  | defOutpeer => ({} : DefineOutpeer)

end Member

/-- The members of a grammar object. -/
abbrev GrammarMembers := File Member.Message

/-- The operations of `RasControl`. -/
inductive RasControlCall
  | deprecatedCommand
  | defineServerGroup (m : DefineServerGroup)
  | changeServerGroup (m : ChangeServerGroup)
  | removeServerGroup (name : Text)
  | listServerGroup (m : ListServerGroup)
  | helpServerGroup
  | defineDbHost (m : DefineDbHost)
  | changeDbHost (m : ChangeDbHost)
  | removeDbHost (m : RemoveDbHost)
  | listDbHost
  | helpDbHost
  | defineDb (m : DefineDb)
  | changeDb (m : ChangeDb)
  | removeDb (m : RemoveDb)
  | listDb (m : ListDb)
  | helpDb
  | defineUser (m : DefineUser)
  | removeUser (m : RemoveUser)
  | changeUser (m : ChangeUser)
  | listUser (m : ListUser)
  | helpUser
  | defineInpeer (hostName : Text)
  | listInpeer
  | removeInpeer (hostName : Text)
  | helpInpeer
  | defineOutpeer (m : DefineOutpeer)
  | listOutpeer
  | removeOutpeer (hostName : Text)
  | helpOutpeer
  | listVersion
  | startServerGroup (m : StartServerGroup)
  | stopServerGroup (m : StopServerGroup)
  | stopRasMgr
  | save
  | exit
  | login
  deriving DecidableEq

/-- A semantic action. -/
abbrev RasAction := Registers.Action Member.Message RasControlCall

/-- A rule of the grammar. -/
abbrev Rule := Parser RasAction

namespace RasControlGrammar

/-- `boost::bind(&Message::Clear, &member)`. -/
def clear (r : Member) : RasAction := .edit r fun _ => r.cleared

/-! ## Words

The parsing expressions with this grammar's actions. -/

abbrev lit (s : String) : Rule Unit := Parser.lit s

abbrev char (p : Char → Bool) : Rule Unit := Parser.char p

abbrev anyChars : Rule Unit := Parser.star (char fun _ => true)

abbrev uint : Rule ℕ := Parser.uint

abbrev int : Rule ℤ := Parser.int

abbrev opt {α : Type} (p : Rule α) : Rule Unit := Parser.opt p

abbrev act {α : Type} (p : Rule α) (f : α → RasAction) : Rule Unit := Parser.act p f

abbrev permutation (ps : List (Rule Unit)) : Rule Unit := Parser.permutation ps

/-- A call without arguments. -/
def perform {α : Type} (p : Rule α) (c : RasControlCall) : Rule Unit := act p fun _ => .invoke c

def isAlpha (c : Char) : Bool := c.isAlpha

def isAlnum (c : Char) : Bool := c.isAlpha || Parser.isDigit c

/-- `strRule`. -/
def strRule : Rule Text :=
  Parser.token (fun c => isAlpha c || c == '_' || c == '/')
    fun c => isAlnum c || c == '_' || c == '/' || c == '-'

/-- `hostNameRule`. -/
def hostNameRule : Rule Text :=
  Parser.token (fun c => isAlpha c || c == '_') fun c => isAlnum c || c == '_' || c == '.' || c == '-'

/-- `anyLit`. -/
def anyLit : Rule Text := Parser.remainder

/-- `commentRule`. -/
def commentRule : Rule Unit := lit "#" >> anyChars

/-! ## Hosts (deprecated) -/

def defineHostSubRule : Rule Unit :=
  perform (lit "host" >> strRule >> lit "-net" >> strRule >> lit "-port" >> int) .deprecatedCommand

def changeHostSubRule : Rule Unit :=
  (lit "host" >> strRule) >> perform
    (opt (permutation
      [Parser.void (lit "-name" >> strRule),
        Parser.void (lit "-net" >> strRule),
        Parser.void (lit "-port" >> int),
        lit "-uselocalhost" >> opt (lit "on" <|> lit "off")]))
    .deprecatedCommand

def removeHostSubRule : Rule Unit := perform (lit "host" >> strRule) .deprecatedCommand

def listHostSubRule : Rule Unit := perform (lit "host") .deprecatedCommand

def helpHostSubRule : Rule Unit := perform (lit "host") .deprecatedCommand

/-! ## Servers -/

/-- `processPortRange`.  (The source counts with a `uint32`; a range up to the largest one does not
end there.) -/
def processPortRange (b e : ℕ) : Option (List ℕ) :=
  if b > e then none else some (List.range' b (e - b + 1))

/-- `processDefPortRange`. -/
def processDefPortRange (range : ℕ × ℕ) : Option RasAction :=
  (processPortRange range.1 range.2).map fun ports =>
    .edit .defServerGroup fun m : DefineServerGroup => { m with ports := m.ports ++ ports }

/-- `processChPortRange`. -/
def processChPortRange (range : ℕ × ℕ) : Option RasAction :=
  (processPortRange range.1 range.2).map fun ports =>
    .edit .changeServerGroup fun m : ChangeServerGroup => { m with nPorts := m.nPorts ++ ports }

/-- A list of ports and port ranges. -/
def portList (range : ℕ × ℕ → Option RasAction) (single : ℕ → RasAction) : Rule Unit :=
  let item := Parser.actPass (Parser.pair uint (lit "-" >> uint)) range <|> act uint single
  item >> Parser.star (lit "," >> item)

def defineServerPorts : Rule Unit :=
  lit "-port" >> portList processDefPortRange fun p =>
    .edit .defServerGroup fun m : DefineServerGroup => { m with ports := m.ports ++ [p] }

/-- `-autorestart [on|off]`; both rules that have it set the field of `ChangeServerGroup`. -/
def autorestartOption : Rule Unit :=
  let set := fun b : Bool => (.edit .changeServerGroup fun m : ChangeServerGroup =>
    { m with nAutorestart := some b } : RasAction)
  act (lit "-autorestart") (fun _ => set true) >>
    opt (act (lit "on") (fun _ => set true) <|> act (lit "off") fun _ => set false)

def defineServerOptionsSubRule : Rule Unit :=
  let set := fun (name : String) (f : ℕ → DefineServerGroup → DefineServerGroup) =>
    lit name >> act uint fun n => .edit .defServerGroup (f n)
  permutation
    [autorestartOption,
      set "-countdown" fun n m => { m with countdown := some n },
      set "-size" fun n m => { m with groupSize := some n },
      set "-alive" fun n m => { m with minAliveServers := some n },
      set "-available" fun n m => { m with minAvailableServers := some n },
      set "-idle" fun n m => { m with maxIdleServers := some n }]

def defineServerAuxSubRule : Rule Unit :=
  (lit "-host" >> act hostNameRule fun x =>
      .edit .defServerGroup fun m : DefineServerGroup => { m with host := some x }) >>
    opt (lit "-type" >> (char (· == 'r') <|> char (· == 'h') <|> char (· == 'n'))) >>
    defineServerPorts >>
    (lit "-dbh" >> act strRule fun x =>
      .edit .defServerGroup fun m : DefineServerGroup => { m with dbHost := some x }) >>
    opt defineServerOptionsSubRule >>
    opt (lit "-xp" >> act anyLit fun x =>
      .edit .defServerGroup fun m : DefineServerGroup => { m with options := some x })

def defineServerSubRule : Rule Unit :=
  (act (lit "srv") (fun _ => clear .defServerGroup) >> act strRule fun x =>
      .edit .defServerGroup fun m : DefineServerGroup => { m with groupName := some x }) >>
    act defineServerAuxSubRule fun _ => .call .defServerGroup .defineServerGroup

/-- The options of `change srv`. -/
def changeServerOptions : Rule Unit :=
  let set := fun (name : String) (f : ℕ → ChangeServerGroup → ChangeServerGroup) =>
    lit name >> act uint fun n => .edit .changeServerGroup (f n)
  permutation
    [lit "-name" >> act strRule fun x =>
        .edit .changeServerGroup fun m : ChangeServerGroup => { m with nGroupName := some x },
      lit "-host" >> act hostNameRule fun x =>
        .edit .changeServerGroup fun m : ChangeServerGroup => { m with nHost := some x },
      set "-size" fun n m => { m with nGroupSize := some n },
      set "-alive" fun n m => { m with nMinAliveServers := some n },
      set "-available" fun n m => { m with nMinAvailableServers := some n },
      set "-idle" fun n m => { m with nMaxIdleServers := some n },
      lit "-port" >> portList processChPortRange fun p =>
        .edit .changeServerGroup fun m : ChangeServerGroup => { m with nPorts := m.nPorts ++ [p] },
      lit "-dbh" >> act strRule fun x =>
        .edit .changeServerGroup fun m : ChangeServerGroup => { m with nDbHost := some x },
      autorestartOption,
      set "-countdown" fun n m => { m with nCountdown := some n }]

def changeServerSubRule : Rule Unit :=
  act
    ((act (lit "srv") (fun _ => clear .changeServerGroup) >> act strRule fun x =>
        .edit .changeServerGroup fun m : ChangeServerGroup => { m with groupName := some x }) >>
      changeServerOptions >>
      opt (lit "-xp" >> act anyLit fun x =>
        .edit .changeServerGroup fun m : ChangeServerGroup => { m with nOptions := some x }))
    fun _ => .call .changeServerGroup .changeServerGroup

def removeServerSubRule : Rule Unit :=
  act (lit "srv" >> strRule) fun x => .invoke (.removeServerGroup x)

def listServerSubRule : Rule Unit :=
  act
    (act (lit "srv") (fun _ => clear .listServerGroup) >>
      opt (lit "-all" <|>
        (lit "-host" >> act strRule fun x =>
          .edit .listServerGroup fun m : ListServerGroup => { m with host := some x }) <|>
        act strRule fun x =>
          .edit .listServerGroup fun m : ListServerGroup => { m with groupName := some x }) >>
      opt (act (lit "-p") fun _ =>
        .edit .listServerGroup fun m : ListServerGroup => { m with extraInfo := some true }))
    fun _ => .call .listServerGroup .listServerGroup

def helpServerSubRule : Rule Unit := perform (lit "srv") .helpServerGroup

/-! ## Database hosts -/

def defineDbhSubRule : Rule Unit :=
  let set := fun (f : Text → DefineDbHost → DefineDbHost) =>
    act strRule fun x => .edit .defDbHost (f x)
  act
    ((act (lit "dbh") (fun _ => clear .defDbHost) >> set fun x m => { m with hostName := some x }) >>
      opt (lit "-connect" >> set fun x m => { m with connect := some x }) >>
      opt ((lit "-user" >> set fun x m => { m with user := some x }) >>
        (lit "-passwd" >> set fun x m => { m with passwd := some x })))
    fun _ => .call .defDbHost .defineDbHost

/-- The only rule with several fields whose keyword has no `Clear`. -/
def changeDbhSubRule : Rule Unit :=
  let set := fun (f : Text → ChangeDbHost → ChangeDbHost) =>
    act strRule fun x => .edit .changeDbHost (f x)
  act
    ((lit "dbh" >> set fun x m => { m with hostName := some x }) >>
      opt (lit "-name" >> set fun x m => { m with nName := some x }) >>
      opt (lit "-connect" >> set fun x m => { m with nConnect := some x }) >>
      opt ((lit "-user" >> set fun x m => { m with nUser := some x }) >>
        (lit "-passwd" >> set fun x m => { m with nPasswd := some x })))
    fun _ => .call .changeDbHost .changeDbHost

def removeDbhSubRule : Rule Unit :=
  act
    (lit "dbh" >> act strRule fun x =>
      .edit .removeDbHost fun m : RemoveDbHost => { m with hostName := some x })
    fun _ => .call .removeDbHost .removeDbHost

def listDbhSubRule : Rule Unit := perform (lit "dbh") .listDbHost

def helpDbhSubRule : Rule Unit := perform (lit "dbh") .helpDbHost

/-! ## Databases -/

def defineDbSubRule : Rule Unit :=
  act
    ((act (lit "db") (fun _ => clear .defDb) >> act strRule fun x =>
        .edit .defDb fun m : DefineDb => { m with dbName := some x }) >>
      (lit "-dbh" >> act strRule fun x =>
        .edit .defDb fun m : DefineDb => { m with dbhostName := some x }))
    fun _ => .call .defDb .defineDb

def changeDbSubRule : Rule Unit :=
  act
    ((act (lit "db") (fun _ => clear .changeDb) >> act strRule fun x =>
        .edit .changeDb fun m : ChangeDb => { m with dbName := some x }) >>
      (lit "-name" >> act strRule fun x =>
        .edit .changeDb fun m : ChangeDb => { m with nDbName := some x }))
    fun _ => .call .changeDb .changeDb

def removeDbSubRule : Rule Unit :=
  act
    ((act (lit "db") (fun _ => clear .removeDb) >> act strRule fun x =>
        .edit .removeDb fun m : RemoveDb => { m with dbName := some x }) >>
      (lit "-dbh" >> act strRule fun x =>
        .edit .removeDb fun m : RemoveDb => { m with dbhostName := some x }))
    fun _ => .call .removeDb .removeDb

def listDbSubRule : Rule Unit :=
  act
    (act (lit "db") (fun _ => clear .listDb) >>
      (lit "-all" <|>
        (lit "-dbh" >> act strRule fun x =>
          .edit .listDb fun m : ListDb => { m with dbhName := some x }) <|>
        act strRule fun x => .edit .listDb fun m : ListDb => { m with dbName := some x }))
    fun _ => .call .listDb .listDb

def helpDbSubRule : Rule Unit := perform (lit "db") .helpDb

/-! ## Users -/

/-- A letter of a list of rights. -/
def right (c : Char) (a : RasAction) : Rule Unit := act (Parser.rawChar (· == c)) fun _ => a

/-- `lexeme[ letters ] | lexeme[ '-' ]`. -/
def rightsRule (letters : List (Rule Unit)) (dash : Rule Unit) : Rule Unit :=
  Parser.lexeme (permutation letters) <|> Parser.lexeme dash

/-- The `-` of `define user` joins its six binders with the comma operator; only the last one is the
action. -/
def defineUserSubRule : Rule Unit :=
  let set := fun (f : DefineUser → DefineUser) => (.edit .defUser f : RasAction)
  act
    ((act (lit "user") (fun _ => clear .defUser) >> act strRule fun x =>
        .edit .defUser fun m : DefineUser => { m with userName := some x }) >>
      opt (permutation
        [lit "-passwd" >> act strRule fun x =>
            .edit .defUser fun m : DefineUser => { m with passwd := some x },
          lit "-rights" >> rightsRule
            [right 'C' (set fun m => { m with configRights := some true }),
              right 'A' (set fun m => { m with accessRights := some true }),
              right 'S' (set fun m => { m with serverAdminRights := some true }),
              right 'I' (set fun m => { m with infoRights := some true }),
              right 'R' (set fun m => { m with dbreadRights := some true }),
              right 'W' (set fun m => { m with dbwriteRights := some true })]
            (right '-' (set fun m => { m with accessRights := some false }))]))
    fun _ => .call .defUser .defineUser

def removeUserSubRule : Rule Unit :=
  act
    (act (lit "user") (fun _ => clear .remUser) >> act strRule fun x =>
      .edit .remUser fun m : RemoveUser => { m with userName := some x })
    fun _ => .call .remUser .removeUser

def changeUserSubRule : Rule Unit :=
  let set := fun (f : ChangeUser → ChangeUser) => (.edit .changeUser f : RasAction)
  act
    ((act (lit "user") (fun _ => clear .changeUser) >> act strRule fun x =>
        .edit .changeUser fun m : ChangeUser => { m with userName := some x }) >>
      opt
        ((lit "-name" >> act strRule fun x =>
            .edit .changeUser fun m : ChangeUser => { m with nName := some x }) <|>
          (lit "-passwd" >> act strRule fun x =>
            .edit .changeUser fun m : ChangeUser => { m with nPasswd := some x }) <|>
          (lit "-rights" >> rightsRule
            [right 'C' (set fun m => { m with nConfigRights := some true }),
              right 'A' (set fun m => { m with nAccessRights := some true }),
              right 'S' (set fun m => { m with nServerAdminRights := some true }),
              right 'I' (set fun m => { m with nInfoRights := some true }),
              right 'R' (set fun m => { m with nDbreadRights := some true }),
              right 'W' (set fun m => { m with nDbwriteRights := some true })]
            (right '-' (set fun m =>
              { m with
                nConfigRights := some false, nAccessRights := some false
                nServerAdminRights := some false, nInfoRights := some false
                nDbreadRights := some false, nDbwriteRights := some false })))))
    fun _ => .call .changeUser .changeUser

def listUserSubRule : Rule Unit :=
  act
    (act (lit "user") (fun _ => clear .listUser) >>
      opt (act (lit "-rights") fun _ =>
        .edit .listUser fun m : ListUser => { m with displayRights := some true }))
    fun _ => .call .listUser .listUser

def helpUserSubRule : Rule Unit := perform (lit "user") .helpUser

/-! ## Peers -/

def defineInpeerSubRule : Rule Unit :=
  lit "inpeer" >> act hostNameRule fun x => .invoke (.defineInpeer x)

def listInpeerSubRule : Rule Unit := perform (lit "inpeer") .listInpeer

def removeInpeerSubRule : Rule Unit :=
  lit "inpeer" >> act hostNameRule fun x => .invoke (.removeInpeer x)

def helpInpeerSubRule : Rule Unit := perform (lit "inpeer") .helpInpeer

/-- The port is parsed as an `int` and stored as a `uint32`. -/
def defineOutpeerSubRule : Rule Unit :=
  act
    (act (lit "outpeer") (fun _ => clear .defOutpeer) >>
      (act hostNameRule fun x =>
        .edit .defOutpeer fun m : DefineOutpeer => { m with hostName := some x }) >>
      opt (lit "-port" >> act int fun p =>
        .edit .defOutpeer fun m : DefineOutpeer => { m with port := some (p % 2 ^ 32).toNat }))
    fun _ => .call .defOutpeer .defineOutpeer

def listOutpeerSubRule : Rule Unit := perform (lit "outpeer") .listOutpeer

def removeOutpeerSubRule : Rule Unit :=
  lit "outpeer" >> act hostNameRule fun x => .invoke (.removeOutpeer x)

def helpOutpeerSubRule : Rule Unit := perform (lit "outpeer") .helpOutpeer

/-! ## Up and down -/

def listVersionSubRule : Rule Unit := perform (lit "version") .listVersion

def upServerSubRule : Rule Unit :=
  act
    (lit "up" >> act (lit "srv") (fun _ => clear .upSrv) >>
      ((lit "-host" >> act strRule fun x =>
          .edit .upSrv fun m : StartServerGroup => { m with hostName := some x }) <|>
        (act (lit "-all") fun _ =>
          .edit .upSrv fun m : StartServerGroup => { m with all := some true }) <|>
        act strRule fun x =>
          .edit .upSrv fun m : StartServerGroup => { m with groupName := some x }))
    fun _ => .call .upSrv .startServerGroup

def downServerSubRule : Rule Unit :=
  act
    (act (lit "srv") (fun _ => clear .downSrv) >>
      ((lit "-host" >> act strRule fun x =>
          .edit .downSrv fun m : StopServerGroup => { m with hostName := some x }) <|>
        (act (lit "-all") fun _ =>
          .edit .downSrv fun m : StopServerGroup => { m with all := some true }) <|>
        act strRule fun x =>
          .edit .downSrv fun m : StopServerGroup => { m with groupName := some x }) >>
      opt
        ((act (lit "-force") fun _ =>
            .edit .downSrv fun m : StopServerGroup => { m with killLevel := some .force }) <|>
          act (lit "-kill") fun _ =>
            .edit .downSrv fun m : StopServerGroup => { m with killLevel := some .kill }))
    fun _ => .call .downSrv .stopServerGroup

def downHostSubRule : Rule Unit :=
  perform (lit "host" >> (lit "-all" <|> Parser.void strRule)) .stopRasMgr

def downSubRule : Rule Unit := lit "down" >> (downServerSubRule <|> downHostSubRule)

/-! ## Commands -/

def defineSubRule : Rule Unit :=
  lit "define" >>
    (defineHostSubRule <|> defineServerSubRule <|> defineDbhSubRule <|> defineDbSubRule <|>
      defineUserSubRule <|> defineInpeerSubRule <|> defineOutpeerSubRule)

def changeSubRule : Rule Unit :=
  lit "change" >>
    (changeHostSubRule <|> changeServerSubRule <|> changeDbhSubRule <|> changeDbSubRule <|>
      changeUserSubRule)

def removeSubRule : Rule Unit :=
  lit "remove" >>
    (removeHostSubRule <|> removeServerSubRule <|> removeDbhSubRule <|> removeDbSubRule <|>
      removeUserSubRule <|> removeInpeerSubRule <|> removeOutpeerSubRule)

def listSubRule : Rule Unit :=
  lit "list" >>
    (listHostSubRule <|> listServerSubRule <|> listDbhSubRule <|> listDbSubRule <|>
      listUserSubRule <|> listInpeerSubRule <|> listOutpeerSubRule <|> listVersionSubRule)

/-- The topics of `help`. -/
def helpTopics : Rule Unit :=
  helpHostSubRule <|> helpServerSubRule <|> helpDbhSubRule <|> helpDbSubRule <|>
    helpUserSubRule <|> helpInpeerSubRule <|> helpOutpeerSubRule

def helpSubRule : Rule Unit := lit "help" >> opt helpTopics

def saveSubRule : Rule Unit := perform (lit "save") .save

def exitSubRule : Rule Unit := perform (lit "exit" <|> lit "bye" <|> lit "quit") .exit

def loginRule : Rule Unit := perform (lit "login" >> anyChars) .login

/-- The alternatives of `start` up to `loginRule`. -/
def actingRules : Rule Unit :=
  saveSubRule <|> exitSubRule <|> defineSubRule <|> changeSubRule <|> removeSubRule <|>
    upServerSubRule <|> downSubRule <|> listSubRule <|> loginRule

/-- One command. -/
def commandRule : Rule Unit := actingRules <|> helpSubRule

def start : Rule Unit := opt commandRule >> opt commentRule

/-! ## Classes of commands -/

def systemCommandRule : Rule Unit :=
  (lit "define" <|> lit "change" <|> lit "remove" <|> lit "save") >>
    (char (fun _ => true) >> anyChars)

def userAdminCommandRule : Rule Unit :=
  (lit "define" <|> lit "change" <|> lit "remove" <|> lit "list") >> lit "user" >>
    anyChars

def serverCommandRule : Rule Unit := (lit "up" <|> lit "down") >> anyChars

def infoCommandRule : Rule Unit := lit "list" >> anyChars

/-- `phrase_parse` matches the whole text. -/
def matchesAll (rule : Rule Unit) (command : Text) : Bool :=
  (rule.phraseParse command).2 == some []

def isSystemConfigCommand (command : Text) : Bool := matchesAll systemCommandRule command

def isInfoCommand (command : Text) : Bool := matchesAll infoCommandRule command

def isServerAdminCommand (command : Text) : Bool := matchesAll serverCommandRule command

def isUserAdminCommand (command : Text) : Bool := matchesAll userAdminCommandRule command

/-- Running `loginRule` here calls `RasControl::login`. -/
def isLoginCommand (command : Text) : Bool := matchesAll loginRule command

end RasControlGrammar

end Rasdaman
