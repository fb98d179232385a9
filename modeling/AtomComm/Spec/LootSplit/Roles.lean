import AtomComm.Lib.Sql
import AtomComm.Lib.Text
import AtomComm.Lib.Trace
import AtomComm.Spec.LootSplit.Database

/-! Timed roles. A member who is given a role gets a row with its duration; once a minute
the times of each guild are counted down, the rows that have run out are read as text, and
for each of them the role is looked up by its name and taken from the member. `fold` is what
`equalsIgnoreCase` compares characters by. A throw from outside is the driver's exception,
or that of Discord's library when it refuses a request. -/

namespace AtomComm.LootSplit

structure DiscordRole where
  id : ℤ
  name : String
  deriving DecidableEq

structure Guild where
  id : ℤ
  roles : List DiscordRole
  deriving DecidableEq

/-- The guilds that the bot is in. -/
structure Guilds where
  list : List Guild
  nodup : (list.map Guild.id).Nodup
  deriving DecidableEq

/-- A request to take a role from a member. -/
structure Removal where
  guildId : ℤ
  userId : ℤ
  role : DiscordRole
  deriving DecidableEq

/-- What is stored, what was requested, and whether the executor still runs the checker. -/
structure Timers where
  db : DB
  removed : List Removal
  scheduled : Bool
  deriving DecidableEq

def Timers.onDb (f : DB → DB) (T : Timers) : Timers := { T with db := f T.db }

/-! ### Statements -/

def roleExists (db : DB) (roleName : String) (guildId : ℤ) : Bool :=
  0 < db.roles.count fun r => r.roleName = roleName && r.guildId = guildId

def getRoleDuration (db : DB) (roleName : String) (guildId : ℤ) : ℤ :=
  match db.roles.first fun r => r.roleName = roleName && r.guildId = guildId with
  | some r => r.durationInMin
  | none => 0

/-- The columns that `getPlayersWithExpiredRoles` puts in one text, with bars in between. -/
def bars : List Char := ['|', '|', '|']

def PlayerRole.text (r : PlayerRole) : List Char :=
  Text.ofInt r.userId ++ (bars ++ r.roleName.toList)

def getPlayersWithExpiredRoles (db : DB) (guildId : ℤ) : List (List Char) :=
  (db.playersRoles.select fun r => r.timeLeft ≤ 0 && r.guildId = guildId).map PlayerRole.text

def givePlayerRole (userId guildId : ℤ) (roleName : String) (timeLeft : ℤ) (db : DB) : DB :=
  { db with playersRoles := db.playersRoles.insert ⟨userId, roleName, timeLeft, guildId⟩ }

def removePlayerRole (userId guildId : ℤ) (db : DB) : DB :=
  { db with
    playersRoles := db.playersRoles.delete fun r => r.userId = userId && r.guildId = guildId }

def decrementTimeLeft (guildId : ℤ) (db : DB) : DB :=
  { db with
    playersRoles := db.playersRoles.update (fun r => r.guildId = guildId)
      fun r => { r with timeLeft := r.timeLeft - 1 } }

/-! ### Events -/

/-- The first of the roles that were added is looked at; without one `get(0)` throws, which
is caught like everything else here. -/
def onGuildMemberRoleAdd (guildId userId : ℤ) : List DiscordRole → Sql Timers Unit
  | [] => pure ()
  | role :: _ => Sql.tryCatch (do
      let known ← Sql.query fun T => roleExists T.db role.name guildId
      if !known then return ()
      else
        let duration ← Sql.query fun T => getRoleDuration T.db role.name guildId
        Sql.exec (Timers.onDb (givePlayerRole userId guildId role.name duration)))
      fun _ => return ()

def getRolesByName (fold : Char → Char) (G : Guild) (name : List Char) : List DiscordRole :=
  G.roles.filter fun role => role.name.toList.map fold = name.map fold

/-- A request that is refused throws no driver's exception. -/
def removeRoleFromMember (r : Removal) : Sql Timers Unit :=
  .stmt (fun T => some { T with removed := T.removed ++ [r] }) (fun _ => pure ()) (.throw .runtime)

def removeExpired (fold : Char → Char) (G : Guild) (player : List Char) : Sql Timers Unit :=
  match (Text.split bars player)[0]?.bind Text.toInt, (Text.split bars player)[1]? with
  | some playerId, some roleName =>
    match (getRolesByName fold G roleName)[0]? with
    | some role => do
      removeRoleFromMember ⟨G.id, playerId, role⟩
      Sql.exec (Timers.onDb (removePlayerRole playerId G.id))
    | none => Sql.throw .runtime
  | _, _ => Sql.throw .runtime

def checkGuild (fold : Char → Char) (G : Guild) : Sql Timers Unit := do
  Sql.exec (Timers.onDb (decrementTimeLeft G.id))
  let playersWithExpiredRoles ← Sql.query fun T => getPlayersWithExpiredRoles T.db G.id
  Sql.forEach (removeExpired fold G) playersWithExpiredRoles

def checkExistingRoles (fold : Char → Char) (guilds : Guilds) : Sql Timers Unit :=
  Sql.tryCatch (Sql.forEach (checkGuild fold) guilds.list) fun e =>
    if e = .sql then return () else Sql.throw e

inductive RoleAction
  | roleAdd (guildId userId : ℤ) (roles : List DiscordRole)
  | tick (guilds : Guilds)
  deriving DecidableEq

structure RoleInput where
  action : RoleAction
  faults : List Bool
  deriving DecidableEq

/-- A tick whose checker throws is the last one. -/
def roleStep (fold : Char → Char) (a : RoleInput) (T : Timers) : Option Timers :=
  match a.action with
  | .roleAdd guildId userId roles =>
    some ((onGuildMemberRoleAdd guildId userId roles).run a.faults T).2
  | .tick guilds =>
    if T.scheduled then
      match (checkExistingRoles fold guilds).run a.faults T with
      | (.ok _, T') => some T'
      | (.error _, T') => some { T' with scheduled := false }
    else some T

end AtomComm.LootSplit
