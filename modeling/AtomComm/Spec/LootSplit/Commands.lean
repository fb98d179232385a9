import AtomComm.Lib.Sql
import AtomComm.Spec.LootSplit.Messages

/-! The slash commands, the submission pages and the upload helpers of the loot split bot,
as programs over the database and the bot's memory. Each statement opens its own
connection and commits on its own; an exception that ends a command is left thrown, since
the handlers only print or answer. The text of an upload enters as the names parsed from
it, an image as the words read off it. -/

namespace AtomComm.LootSplit

/-- The author of an event, with the names of the roles the member has in the guild. -/
structure User where
  id : ℤ
  name : String
  roles : List String
  deriving DecidableEq

/-- Java, SQLite and the entry `ALLOWED_ROLE_FOR_LOOTSPLIT` of the configuration. -/
structure Env extends Runtime where
  allowedRole : Option String

def Env.ascii : Env := { Runtime.ascii with allowedRole := some "officer" }

/-- A `LootSplitSubmissionPaginator`, and the guild its message stands in. -/
structure Page where
  authorID : ℤ
  splitId : String
  amount : Option Double
  sessionCreator : Option String
  isSessionFinished : Bool
  guildId : ℤ
  deriving DecidableEq

/-- A file whose download was started, with what its completion captured. -/
inductive Upload
  | guild (guildName : String) (guildId : ℤ)
  | lootSplit (splitId : String) (guildId : ℤ)
  deriving DecidableEq

structure Bot where
  db : DB
  pages : List Page
  pending : List Upload
  deriving DecidableEq

def Bot.empty : Bot := ⟨.empty, [], []⟩

abbrev Cmd := Sql Bot

def onDb (f : DB → Option DB) (b : Bot) : Option Bot :=
  (f b.db).map fun db => { b with db := db }

def read {β : Type} (q : DB → β) : Cmd β := Sql.query fun b => q b.db

def tryWrite (f : DB → Option DB) : Cmd Unit := Sql.attempt (onDb f)

def write (f : DB → DB) : Cmd Unit := tryWrite fun db => some (f db)

def executeBatch (fs : List (DB → DB)) : Cmd Unit :=
  Sql.script (fs.map fun f => onDb fun db => some (f db))

def when (c : Bool) (p : Cmd Unit) : Cmd Unit := if c then p else pure ()

def User.allowed (env : Env) (u : User) : Bool := u.roles.any fun r => some r = env.allowedRole

/-! ### Players -/

def giveUserAmountCommand (env : Env) (u : User) (username : String) (amount : ℚ) : Cmd Reply :=
  if !u.allowed env then pure sendRequiredRoleNotPresentMessage
  else do
    tryWrite (giveUserAmount username amount)
    return sendAmountAddedToPlayer username amount

def removeUserAmountCommand (env : Env) (u : User) (username : String) (amount : ℚ) : Cmd Reply :=
  if !u.allowed env then pure sendRequiredRoleNotPresentMessage
  else do
    tryWrite (removeUserAmount username amount)
    return sendAmountRemovedFromPlayer username amount

def registerCommand (env : Env) (u : User) (username : String) (user : Option ℤ) : Cmd Reply :=
  let userId := user.getD u.id
  if !u.allowed env && u.id != userId then pure (sendPermissionDeniedMessage "register")
  else do
    let exists' ← read (isUserExists env.toRuntime · username)
    if !exists' then return sendUserNotInGuildListMessage username
    else
      let registered ← read (isUserRegistered · userId)
      if registered then return sendUserAlreadyRegisteredMessage (u.id == userId)
      else
        write (registerTheUser username userId)
        return sendUserRegisteredSuccessfullyMessage username (u.id == userId)

def unregisterCommand (env : Env) (u : User) (username : String) (user : Option ℤ) : Cmd Reply :=
  let userId := user.getD u.id
  if !u.allowed env && u.id != userId then pure (sendPermissionDeniedMessage "unregister")
  else do
    let exists' ← read (isUserExists env.toRuntime · username)
    if !exists' then return sendUserNotInGuildListMessage username
    else
      let registered ← read (isUserRegistered · userId)
      if !registered then return sendUserNotRegisteredMessage (u.id == userId)
      else
        write (unregisterTheUser username userId)
        return sendUserUnregisteredSuccessfullyMessage username (u.id == userId)

def balanceCommand (u : User) (player : Option ℤ) : Cmd Reply := do
  let userId := player.getD u.id
  let registered ← read (isUserRegistered · userId)
  if !registered then return sendUserNotRegisteredMessage player.isNone
  else
    let playerName ← read (getPlayerName · userId)
    let balance ← read (getPlayerBalance · userId)
    return .balance playerName balance

def leaderboardCommand : Cmd Reply := do
  let topPlayers ← read (getLeaderboard · 50)
  -- no players make no pages, and the first page is asked for
  if topPlayers = [] then Sql.throw .runtime
  else return .leaderboard topPlayers

/-- The value of an INTEGER option; `getAsInt` throws outside 32 bits. -/
def getAsInt (n : ℤ) : Option ℤ := if -(2 ^ 31) ≤ n ∧ n < 2 ^ 31 then some n else none

def guestSetupCommand (env : Env) (g : ℤ) (u : User) (role : String) (duration : ℤ) :
    Cmd Reply :=
  match getAsInt duration with
  | none => Sql.throw .runtime
  | some duration =>
    if !u.allowed env then pure sendRequiredRoleNotPresentMessage
    else do
      write (addNewRole role duration g)
      return sendSuccessMessage

/-! ### Guild lists -/

/-- The options `text` and `file` of the upload commands. -/
inductive Source
  | neither
  | both
  | text (names : List String)
  | file
  | imageOrVideo
  deriving DecidableEq

/-- The batches, rethrowing, and then the words for the spellfix table. -/
def addUsersToDatabase (insert : List String → List (DB → DB)) : List (List String) → Cmd Unit
  | [] => write postProcessPlayersTable
  | batch :: rest => do
    Sql.tryCatch (executeBatch (insert batch)) fun _ => Sql.throw .runtime
    addUsersToDatabase insert rest

def uploadGuildUsers (guildName : String) (names : List String) (guildId : ℤ) : Cmd Unit := do
  let listed ← read (isGuildListExists · guildName guildId)
  when listed (write (removeGuildList guildName guildId))
  addUsersToDatabase (uploadGuildList guildName · guildId) (batches [] names)

/-- The start of a download, which may fail. -/
def download (upload : Upload) : Cmd Unit :=
  Sql.exec fun b => { b with pending := b.pending ++ [upload] }

/-- The pages of an upload; the first page of none is asked for and throws. -/
def sendGuildUploadPaginator (names : List String) : Cmd Reply :=
  if names = [] then Sql.throw .runtime else pure (.players names)

def guildUploadCommand (g : ℤ) (guildName : String) : Source → Cmd Reply
  | .neither => pure sendErrorProvideTextOptionMessage
  | .both => pure sendErrorOnlyOneOptionAllowedMessage
  | .text names => do
    uploadGuildUsers guildName names g
    sendGuildUploadPaginator names
  | .file => do
    download (.guild guildName g)
    return .downloading
  | .imageOrVideo => pure sendNotGuildListMessage

def guildRemoveCommand (g : ℤ) (guildName : String) : Cmd Reply := do
  write (removeGuildList guildName g)
  return sendSuccessRemoveMessage

def guildAddUserCommand (g : ℤ) (userName : String) : Cmd Reply := do
  write (addGuildUser g userName)
  return sendSuccessAddUserMessage userName

def guildRemoveUserCommand (g : ℤ) (userName : String) : Cmd Reply := do
  write (removeGuildUser g userName)
  return sendSuccessRemoveUserMessage userName

/-! ### Loot splits -/

/-- `splitId` is the id that the session draws at random. -/
def lootSplitCreateCommand (g : ℤ) (u : User) (name splitId : String) : Cmd Reply := do
  let active ← read (isThereActiveSession · g)
  if active then return sendLootSplitSessionAlreadyActiveMessage
  else
    let registered ← read (isUserRegistered · u.id)
    if !registered then return sendUserNotRegisteredMessage true
    else
      write (createNewLootSplitSession splitId name g u.name)
      return .sessionCreated name splitId

def lootSplitAddCommand (env : Env) (g : ℤ) (playerName uploadId : String) : Cmd Reply := do
  let splitId ← read (getLootSplitId · g)
  let active ← read (isThereActiveSession · g)
  if !active then return sendNoActiveLootSplitSessionMessage
  else
    let exists' ← read (isUserExists env.toRuntime · playerName)
    if !exists' then
      return .embed "Denied Operation" ("Player: " ++ playerName ++
        " is not in the Guild List!\nPlease add the player to the Guild List first.")
    else
      tryWrite (addPlayerToLootSplit splitId uploadId playerName g)
      return sendPlayerAddedToLootSplit playerName

def lootSplitRemoveCommand (env : Env) (g : ℤ) (playerName : String) : Cmd Reply := do
  let splitId ← read (getLootSplitId · g)
  let active ← read (isThereActiveSession · g)
  if !active then return sendNoActiveLootSplitSessionMessage
  else
    let exists' ← read (isUserExists env.toRuntime · playerName)
    if !exists' then
      return .embed "Not Found" ("Player: " ++ playerName ++ " is not in the LootSplit Session")
    else
      write (removePlayerFromLootSplit splitId playerName)
      return sendPlayerRemovedFromLootSplit playerName

def lootSplitHalfBalanceCommand (g : ℤ) (playerName : String) : Cmd Reply := do
  let splitId ← read (getLootSplitId · g)
  let member ← read (isPlayerInLootSplit · splitId playerName)
  if !member then return sendPlayerNotInLootSplitMessage playerName
  else
    write (makePlayerBalanceHalvedInLootSplit splitId playerName)
    return sendAmountHalvedFromPlayer playerName

def lootSplitSetCommand (g : ℤ) (silver items : ℤ) : Cmd Reply :=
  match getAsInt silver, getAsInt items with
  | some silver, some items => do
    let active ← read (isThereActiveSession · g)
    if !active then return sendNoActiveLootSplitSessionMessage
    else
      let splitId ← read (getLootSplitId · g)
      write (setLootSplitSilverAndItems splitId silver items)
      return .embed "LootSplit Set" ("LootSplit set to " ++ toString silver ++ " silver and " ++
        toString items ++ " item value")
  | _, _ => Sql.throw .runtime

def lootSplitListCommand (g : ℤ) : Cmd Reply := do
  let sessions ← read (getLootSplitSessions · g)
  if sessions = [] then return sendNoLootSplitSessionsMessage
  else return .sessions sessions

/-- `(silver + items) * 0.7 / count`, the sum in 32 bits. -/
def amountToSplit (silver items : ℤ) (count : ℕ) : Option Double :=
  Double.divNat (Double.wrap32 (silver + items) * (7 / 10)) count

def getPaginatorEmbed (env : Env) (title : String) (g : ℤ) (info : Session)
    (amount : Option Double) : Cmd SplitPages := do
  let totalPlayers ← read (getLootSplitPlayersCount · info.splitId g)
  let halfSplitPlayers ← read (getHalfSplitPlayers · info.splitId)
  let fullSplitPlayers ← read (getFullSplitPlayers · info.splitId)
  return {
    title := title
    totalValue := Double.wrap32 (info.silver + info.items)
    silver := info.silver
    items := info.items
    memberCount := totalPlayers
    guildSplitFee := amount.map (Double.scale (3 / 10))
    payoutPerPlayer := amount
    payoutPerPlayerHalf := half amount
    partyLeader := info.sessionCreator
    members := (halfSplitPlayers ++ fullSplitPlayers).mergeSort env.leIgnoreCase }

/-- The constructor of the submission page reads the creator of the guild's active session. -/
def openPage (u : User) (g : ℤ) (splitId : String) (amount : Option Double) : Cmd Unit :=
  Sql.exec fun b => { b with
    pages := b.pages ++ [⟨u.id, splitId, amount, getLootSplitSessionCreator b.db g, false, g⟩] }

/-- What `/lootsplit confirm` and `info` share: the guards, the amount and the pages. -/
def splitFigures (env : Env) (title : String) (g : ℤ) (splitId : String)
    (k : Session → Option Double → SplitPages → Cmd Reply) : Cmd Reply := do
  let active ← read (isThereActiveSession · g)
  if !active then return sendNoActiveLootSplitSessionMessage
  else
    match ← read (getLootSplitSilverAndItems · splitId) with
    -- `get(0)` of an empty list
    | none => Sql.throw .runtime
    | some (silver, items) =>
      let count ← read (getLootSplitPlayersCount · splitId g)
      match ← read (getLootSplitSessionInfo · splitId) with
      | none => Sql.throw .runtime
      | some info =>
        let pages ← getPaginatorEmbed env title g info (amountToSplit silver items count)
        k info (amountToSplit silver items count) pages

def lootSplitConfirmCommand (env : Env) (g : ℤ) (u : User) (splitId : String) : Cmd Reply :=
  splitFigures env "Loot Split Submission" g splitId fun info amount pages => do
    openPage u g info.splitId amount
    return .split pages

def lootSplitInfoCommand (env : Env) (g : ℤ) (splitId : String) : Cmd Reply :=
  splitFigures env "Loot Split Info" g splitId fun _ _ pages => return .split pages

def uploadSplitPlayers (splitId uploadId : String) (names : List String) (g : ℤ) : Cmd Reply := do
  addUsersToDatabase (addPlayersToLootSplit uploadId splitId · g) (batches [] names)
  -- without the names there is no page to send
  let added ← Sql.tryCatch (read (getLootSplitPlayersWithUploadId · uploadId splitId g))
    fun _ => Sql.throw .runtime
  return .players added

def lootSplitGuildUploadCommand (g : ℤ) (uploadId : String) (source : Source) : Cmd Reply := do
  match ← read (getLootSplitId · g) with
  | none => return sendNoActiveLootSplitSessionMessage
  | some splitId =>
    match source with
    | .neither => return sendErrorProvideTextOptionMessage
    | .both => return sendErrorOnlyOneOptionAllowedMessage
    | .text names => uploadSplitPlayers splitId uploadId names g
    | .file => do
      download (.lootSplit splitId g)
      return .downloading
    | .imageOrVideo => return sendNotGuildListMessage

/-- The nearest player of the guild; `none` too when a statement throws. -/
def spellFixMatch (rt : Runtime) (word : String) (guildId : ℤ) : Cmd (Option String) :=
  if word ∈ forbiddenWords then pure none
  else Sql.tryCatch
    (do
      let words ← read fun db => db.demo.length
      if words = 0 then return none
      else read (nearestPlayer rt · word guildId))
    fun _ => pure none

def getValidNamesFromImage (rt : Runtime) (g : ℤ) : List String → Cmd (List (Option String))
  | [] => pure []
  | word :: words => do
    let name ← spellFixMatch rt word g
    let names ← getValidNamesFromImage rt g words
    return name :: names

/-- `words` are read off the image, or the reading throws. -/
def lootSplitPartyUploadCommand (env : Env) (g : ℤ) (uploadId : String)
    (words : Option (List String)) : Cmd Reply := do
  match ← read (getLootSplitId · g) with
  | none => return sendNoActiveLootSplitSessionMessage
  | some splitId =>
    match words with
    | none => Sql.throw .runtime
    | some words =>
      let names ← getValidNamesFromImage env.toRuntime g words
      if names = [] then return sendNoValidNamesFoundMessage
      else
        executeBatch (addPlayersToLootSplit uploadId splitId (names.filterMap id) g)
        -- the page shows ten names on either side
        if names.length < 20 then Sql.throw .runtime
        else return .detected names

/-! ### Dispatch -/

inductive Command
  | give (username : String) (amount : ℚ)
  | remove (username : String) (amount : ℚ)
  | register (username : String) (user : Option ℤ)
  | unregister (username : String) (user : Option ℤ)
  | bal (player : Option ℤ)
  | leaderboard
  | guestsetup (role : String) (duration : ℤ)
  | guildUpload (guildName : String) (source : Source)
  | guildRemove (guildName : String)
  | guildRemoveUser (user : String)
  | guildAddUser (user : String)
  | create (name splitId : String)
  | add (username uploadId : String)
  | removePlayer (username : String)
  | half (username : String)
  | set (silver items : ℤ)
  | confirm (splitId : String)
  | info (splitId : String)
  | list
  | lootSplitGuildUpload (uploadId : String) (source : Source)
  | lootSplitPartyUpload (uploadId : String) (words : Option (List String))
  deriving DecidableEq

/-- `GuildCommands` and `LootSplitCommands` ask for the role before they dispatch. -/
def requireRole (env : Env) (u : User) (p : Cmd Reply) : Cmd Reply :=
  if !u.allowed env then pure sendRequiredRoleNotPresentMessage else p

def execute (env : Env) (g : ℤ) (u : User) : Command → Cmd Reply
  | .give username amount => giveUserAmountCommand env u username amount
  | .remove username amount => removeUserAmountCommand env u username amount
  | .register username user => registerCommand env u username user
  | .unregister username user => unregisterCommand env u username user
  | .bal player => balanceCommand u player
  | .leaderboard => leaderboardCommand
  | .guestsetup role duration => guestSetupCommand env g u role duration
  | .guildUpload guildName source => requireRole env u (guildUploadCommand g guildName source)
  | .guildRemove guildName => requireRole env u (guildRemoveCommand g guildName)
  | .guildRemoveUser user => requireRole env u (guildRemoveUserCommand g user)
  | .guildAddUser user => requireRole env u (guildAddUserCommand g user)
  | .create name splitId => requireRole env u (lootSplitCreateCommand g u name splitId)
  | .add username uploadId => requireRole env u (lootSplitAddCommand env g username uploadId)
  | .removePlayer username => requireRole env u (lootSplitRemoveCommand env g username)
  | .half username => requireRole env u (lootSplitHalfBalanceCommand g username)
  | .set silver items => requireRole env u (lootSplitSetCommand g silver items)
  | .confirm splitId => requireRole env u (lootSplitConfirmCommand env g u splitId)
  | .info splitId => requireRole env u (lootSplitInfoCommand env g splitId)
  | .list => lootSplitListCommand g
  | .lootSplitGuildUpload uploadId source =>
    requireRole env u (lootSplitGuildUploadCommand g uploadId source)
  | .lootSplitPartyUpload uploadId words =>
    requireRole env u (lootSplitPartyUploadCommand env g uploadId words)

/-! ### The buttons of a submission page -/

inductive Button
  | confirm
  | cancel
  deriving DecidableEq

/-- The six updates of a confirm press. -/
def payout (page : Page) : List (DB → Option DB) :=
  addBalanceToAllLootSplitPlayers page.splitId page.amount ++
    [fun db => some (endLootSplitSession page.guildId db)]

def preConfirmCheck (u : User) (page : Page) : Bool := some u.name = page.sessionCreator

def confirm (u : User) (page : Page) : Cmd Reply :=
  if !preConfirmCheck u page then
    pure (.embed "" "Only the session creator can confirm the loot split.")
  else do
    Sql.script ((payout page).map onDb)
    return .embed "Loot Split Confirmed" "The loot split session has been confirmed."

def finishPage (i : ℕ) (b : Bot) : Bot :=
  { b with pages := b.pages.modify i fun page => { page with isSessionFinished := true } }

/-- The flag is set before `confirm` runs; it only disables the buttons. -/
def onButtonInteraction (i : ℕ) (page : Page) (u : User) (button : Button) (b : Bot) :
    Bot × Cmd Reply :=
  if u.id ≠ page.authorID then
    (b, pure (.embed "" "You are not allowed to interact with this paginator."))
  else (finishPage i b,
    match button with
    | .confirm => confirm u page
    | .cancel =>
      pure (.embed "Loot Split Cancelled" "The loot split session has been cancelled."))

/-- The completion of a download, with the names parsed from the file. -/
def completeUpload (names : List String) (uploadId : String) : Upload → Cmd Reply
  | .guild guildName g => do
    uploadGuildUsers guildName names g
    sendGuildUploadPaginator names
  | .lootSplit splitId g => uploadSplitPlayers splitId uploadId names g

end AtomComm.LootSplit
