import AtomComm.Lib.Table
import AtomComm.Lib.Double
import AtomComm.Lib.Order
import AtomComm.Spec.Runtime

/-! The tables of the loot split bot and the statements of its `DatabaseManager`, one
definition each. An update of a floating column fails as a whole when some new value is
nan, since the columns are NOT NULL. Queries without ORDER BY read in rowid order. -/

namespace AtomComm.LootSplit

structure Player where
  userId : Option ℤ
  username : String
  balance : Double
  guildName : String
  registered : Bool
  guildId : ℤ
  deriving DecidableEq

structure Role where
  roleName : String
  durationInMin : ℤ
  guildId : ℤ
  deriving DecidableEq

structure PlayerRole where
  userId : ℤ
  roleName : String
  timeLeft : ℤ
  guildId : ℤ
  deriving DecidableEq

inductive Status
  | active
  | inactive
  deriving DecidableEq

structure Session where
  splitId : String
  status : Status
  name : String
  silver : ℤ
  items : ℤ
  amount : Double
  sessionCreator : String
  guildId : ℤ
  deriving DecidableEq

structure SplitPlayer where
  splitId : String
  uploadId : String
  username : String
  balance : Double
  isHalved : Bool
  guildId : ℤ
  deriving DecidableEq

structure DB where
  players : Table Player
  roles : Table Role
  playersRoles : Table PlayerRole
  lootsplitSessions : Table Session
  lootsplitPlayers : Table SplitPlayer
  demo : List String
  deriving DecidableEq

def DB.empty : DB := ⟨.empty, .empty, .empty, .empty, .empty, []⟩

/-! ### Players -/

def getPlayerName (db : DB) (userId : ℤ) : Option String :=
  (db.players.first fun r => r.userId = some userId).map Player.username

/-- The driver's `getInt` of a floating column. -/
def getPlayerBalance (db : DB) (userId : ℤ) : ℤ :=
  match db.players.first fun r => r.userId = some userId with
  | some r => r.balance.toInt32
  | none => 0

def isUserRegistered (db : DB) (userId : ℤ) : Bool :=
  match db.players.first fun r => r.userId = some userId with
  | some r => r.registered
  | none => false

def isUserExists (rt : Runtime) (db : DB) (username : String) : Bool :=
  0 < db.players.count fun r => LOWER r.username = rt.toLowerCase username

def isGuildListExists (db : DB) (guildName : String) (guildId : ℤ) : Bool :=
  0 < db.players.count fun r => LOWER r.guildName = LOWER guildName && r.guildId = guildId

def addGuildUser (guildId : ℤ) (userName : String) (db : DB) : DB :=
  { db with players := db.players.insert ⟨none, userName, .fin 0, "N/A", false, guildId⟩ }

def removeGuildUser (guildId : ℤ) (userName : String) (db : DB) : DB :=
  { db with players := db.players.delete fun r => r.guildId = guildId && r.username = userName }

def removeGuildList (guildName : String) (guildId : ℤ) (db : DB) : DB :=
  { db with players := db.players.delete fun r => r.guildName = guildName && r.guildId = guildId }

/-- One statement of the batch of `uploadGuildList`. -/
def uploadGuildName (guildName name : String) (guildId : ℤ) (db : DB) : DB :=
  if db.players.any fun r => r.username = name && r.guildId = guildId then db
  else { db with players := db.players.insert ⟨none, name, .fin 0, guildName, false, guildId⟩ }

def uploadGuildList (guildName : String) (names : List String) (guildId : ℤ) : List (DB → DB) :=
  names.map fun name => uploadGuildName guildName name guildId

def registerTheUser (username : String) (userId : ℤ) (db : DB) : DB :=
  { db with
    players := db.players.update (fun r => r.username = username)
      fun r => { r with userId := some userId, registered := true } }

def unregisterTheUser (username : String) (userId : ℤ) (db : DB) : DB :=
  { db with
    players := db.players.update
      (fun r => r.username = username && r.userId = some userId)
      fun r => { r with userId := none, registered := false } }

/-- `UPDATE players SET balance = balance + ?`, the value bound being nan if it is `none`. -/
def creditPlayers (p : Player → Bool) (amount : Option Double) (db : DB) : Option DB :=
  (db.players.tryUpdate p fun r =>
    (amount.bind r.balance.add).map fun x => { r with balance := x }).map
      fun t => { db with players := t }

def giveUserAmount (username : String) (amount : ℚ) : DB → Option DB :=
  creditPlayers (fun r => r.username = username) (some (.fin amount))

def removeUserAmount (username : String) (amount : ℚ) : DB → Option DB :=
  creditPlayers (fun r => r.username = username) (some (.fin (-amount)))

/-- `ListOrderedMap.put`: a key that is there keeps its place and gets the new value. -/
def putOrdered (entries : List (String × Double)) (key : String) (value : Double) :
    List (String × Double) :=
  if entries.any fun e => e.1 = key then
    entries.map fun e => if e.1 = key then (key, value) else e
  else entries ++ [(key, value)]

/-- Rows with equal balances stay in rowid order. -/
def getLeaderboard (db : DB) (numberOfUsers : ℤ) : List (String × Double) :=
  (limit numberOfUsers (db.players.vals.mergeSort fun r r' => r'.balance.le r.balance)).foldl
    (fun entries r => putOrdered entries r.username r.balance) []

/-- The usernames that `demo` lacks, one for each players row. -/
def postProcessPlayersTable (db : DB) : DB :=
  { db with demo := db.demo ++ (db.players.vals.map Player.username).filter (· ∉ db.demo) }

def forbiddenWords : List String :=
  ["Cluster", "preferrad", "Access", "Priority", "This", "setting", "determines", "who", "gets",
    "preferred", "access", "overcrowded", "clusters.", "Party", "First", "Access)", "Party's",
    "within", "Alliance/Guild:", "Dit)", "Member"]

/-- The spellfix query of `spellFixMatch`. -/
def nearestPlayer (rt : Runtime) (db : DB) (word : String) (guildId : ℤ) : Option String :=
  rt.nearest (rt.candidates db.demo
    (fun w => db.players.any fun r => r.username = w && r.guildId = guildId) word)

/-! ### Roles -/

def addNewRole (roleName : String) (durationInMin guildId : ℤ) (db : DB) : DB :=
  { db with roles := db.roles.insert ⟨roleName, durationInMin, guildId⟩ }

/-! ### Sessions -/

def createNewLootSplitSession (splitId name : String) (guildId : ℤ) (sessionCreator : String)
    (db : DB) : DB :=
  { db with
    lootsplitSessions := db.lootsplitSessions.insert
      ⟨splitId, .active, name, 0, 0, .fin 0, sessionCreator, guildId⟩ }

/-- The row of the guild's active session that the first `next()` stands on. -/
def activeSession (db : DB) (guildId : ℤ) : Option Session :=
  db.lootsplitSessions.first fun r => r.guildId = guildId && r.status = .active

def getLootSplitId (db : DB) (guildId : ℤ) : Option String :=
  (activeSession db guildId).map Session.splitId

def getLootSplitSessionCreator (db : DB) (guildId : ℤ) : Option String :=
  (activeSession db guildId).map Session.sessionCreator

def isThereActiveSession (db : DB) (guildId : ℤ) : Bool :=
  0 < db.lootsplitSessions.count fun r => r.status = .active && r.guildId = guildId

def setLootSplitSilverAndItems (splitId : Option String) (silver items : ℤ) (db : DB) : DB :=
  { db with
    lootsplitSessions := db.lootsplitSessions.update
      (fun r => some r.splitId = splitId) fun r => { r with silver := silver, items := items } }

def getLootSplitSessionInfo (db : DB) (splitId : String) : Option Session :=
  db.lootsplitSessions.first fun r => r.splitId = splitId

def getLootSplitSilverAndItems (db : DB) (splitId : String) : Option (ℤ × ℤ) :=
  (getLootSplitSessionInfo db splitId).map fun r => (r.silver, r.items)

def getLootSplitSessions (db : DB) (guildId : ℤ) : List (String × String × Status) :=
  (db.lootsplitSessions.select fun r => r.guildId = guildId).map
    fun r => (r.name, r.splitId, r.status)

def endLootSplitSession (guildId : ℤ) (db : DB) : DB :=
  { db with
    lootsplitSessions := db.lootsplitSessions.update
      (fun r => r.guildId = guildId) fun r => { r with status := .inactive } }

/-! ### Members of a split -/

def addPlayerToLootSplit (splitId : Option String) (uploadId playerName : String) (guildId : ℤ)
    (db : DB) : Option DB :=
  if (db.lootsplitPlayers.any fun r =>
      some r.splitId = splitId && LOWER r.username = LOWER playerName) ||
      !(db.players.any fun r => LOWER r.username = LOWER playerName && r.guildId = guildId) then
    some db
  else splitId.map fun s =>
    { db with
      lootsplitPlayers := db.lootsplitPlayers.insert
        ⟨s, uploadId, playerName, .fin 0, false, guildId⟩ }

/-- One statement of the batch of `addPlayersToLootSplit`. -/
def addListedPlayer (uploadId splitId playerName : String) (guildId : ℤ) (db : DB) : DB :=
  if (db.lootsplitPlayers.any fun r => r.splitId = splitId && r.username = playerName) ||
      !(db.players.any fun r => r.username = playerName && r.guildId = guildId) then db
  else
    { db with
      lootsplitPlayers := db.lootsplitPlayers.insert
        ⟨splitId, uploadId, playerName, .fin 0, false, guildId⟩ }

def addPlayersToLootSplit (uploadId splitId : String) (playerNames : List String) (guildId : ℤ) :
    List (DB → DB) :=
  playerNames.map fun name => addListedPlayer uploadId splitId name guildId

def removePlayerFromLootSplit (splitId : Option String) (playerName : String) (db : DB) : DB :=
  { db with
    lootsplitPlayers := db.lootsplitPlayers.delete
      fun r => some r.splitId = splitId && r.username = playerName }

def isPlayerInLootSplit (db : DB) (splitId : Option String) (playerName : String) : Bool :=
  0 < db.lootsplitPlayers.count fun r => some r.splitId = splitId && r.username = playerName

def makePlayerBalanceHalvedInLootSplit (splitId : Option String) (playerName : String) (db : DB) :
    DB :=
  { db with
    lootsplitPlayers := db.lootsplitPlayers.update
      (fun r => some r.splitId = splitId && r.username = playerName)
      fun r => { r with isHalved := true } }

def getFullSplitPlayers (db : DB) (splitId : String) : List String :=
  (db.lootsplitPlayers.select fun r => r.splitId = splitId && !r.isHalved).map
    SplitPlayer.username

def getHalfSplitPlayers (db : DB) (splitId : String) : List String :=
  (db.lootsplitPlayers.select fun r => r.splitId = splitId && r.isHalved).map
    fun r => r.username ++ " (halved)"

def getLootSplitPlayersWithUploadId (db : DB) (uploadId splitId : String) (guildId : ℤ) :
    List String :=
  (db.lootsplitPlayers.select fun r =>
    r.uploadId = uploadId && r.splitId = splitId && r.guildId = guildId).map SplitPlayer.username

def getLootSplitPlayersCount (db : DB) (splitId : String) (guildId : ℤ) : ℕ :=
  db.lootsplitPlayers.count fun r => r.splitId = splitId && r.guildId = guildId

/-! ### The payout -/

def creditSession (splitId : String) (amount : Option Double) (db : DB) : Option DB :=
  (db.lootsplitSessions.tryUpdate (fun r => r.splitId = splitId) fun r =>
    (amount.bind r.amount.add).map fun x => { r with amount := x }).map
      fun t => { db with lootsplitSessions := t }

def creditSplitPlayers (splitId : String) (halved : Bool) (amount : Option Double) (db : DB) :
    Option DB :=
  (db.lootsplitPlayers.tryUpdate (fun r => r.splitId = splitId && r.isHalved == halved) fun r =>
    (amount.bind r.balance.add).map fun x => { r with balance := x }).map
      fun t => { db with lootsplitPlayers := t }

/-- Is `username` in the subquery over the members of the split? -/
def inSplit (db : DB) (splitId : String) (halved : Bool) (username : String) : Bool :=
  db.lootsplitPlayers.any fun r =>
    r.splitId = splitId && r.isHalved == halved && r.username = username

def creditUsernames (splitId : String) (halved : Bool) (amount : Option Double) (db : DB) :
    Option DB :=
  creditPlayers (fun r => inSplit db splitId halved r.username) amount db

def half (amount : Option Double) : Option Double := amount.map (Double.scale (1 / 2))

/-- The five updates, in order. -/
def addBalanceToAllLootSplitPlayers (splitId : String) (amount : Option Double) :
    List (DB → Option DB) :=
  [creditSession splitId amount,
    creditSplitPlayers splitId false amount,
    creditSplitPlayers splitId true (half amount),
    creditUsernames splitId true (half amount),
    creditUsernames splitId false amount]

end AtomComm.LootSplit
