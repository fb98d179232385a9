import AtomComm.Lib.Sql
import AtomComm.Spec.GuildBot.Messages

/-! The `/cta` commands, the upload helpers and the checker of the attendance bot, as
programs over the database and the downloads under way. Each statement opens its own
connection and commits on its own; an exception that ends a command is left thrown, since
the handlers only print or answer. A roster enters as the lists parsed from its text, an
image as the words read off it. -/

namespace AtomComm.GuildBot

/-- The lists that `parseText` fills. -/
structure Roster where
  charNames : List String
  lastSeen : List String
  onlineUsers : List String
  deriving DecidableEq

/-- A file whose download was started, with what its completion captured. -/
inductive Upload
  | guild (ctaID : Option String) (guildID : ℤ)
  | check (ctaID : String) (guildID : ℤ)
  deriving DecidableEq

structure Bot where
  db : DB
  pending : List Upload
  deriving DecidableEq

def Bot.empty : Bot := ⟨.empty, []⟩

abbrev Cmd := Sql Bot

def read {β : Type} (q : DB → β) : Cmd β := Sql.query fun b => q b.db

def write (f : DB → DB) : Cmd Unit := Sql.exec fun b => { b with db := f b.db }

def executeBatch (fs : List (DB → DB)) : Cmd Unit :=
  Sql.script (fs.map fun f b => some { b with db := f b.db })

/-- `try p catch (SQLException e) {}`: what a program throws otherwise goes on. -/
def swallow (p : Cmd Unit) : Cmd Unit :=
  Sql.tryCatch p fun
    | .sql => pure ()
    | .runtime => Sql.throw .runtime

/-- The value of an INTEGER option; `getAsInt` throws outside 32 bits. -/
def getAsInt (n : ℤ) : Option ℤ := if -(2 ^ 31) ≤ n ∧ n < 2 ^ 31 then some n else none

/-! ### CTAs -/

/-- What `/cta start` reads off the clock: the year, twice, and then the instant. -/
structure Clock where
  startYear : ℕ
  endYear : ℕ
  now : ℤ
  deriving DecidableEq

/-- `id` is the id that the CTA draws at random. -/
def startCommand (g : ℤ) (startTime endTime id : String) (clock : Clock) : Cmd Reply := do
  let ctaID ← read (getCTAID · g)
  match convertToFullTimestamp clock.startYear startTime,
    convertToFullTimestamp clock.endYear endTime with
  | some startTime, some endTime =>
    match ctaID with
    | some ctaID => return sendCTAAlreadyActiveMessage ctaID
    | none =>
      if !validateTimeFormat startTime endTime then
        return sendErrorMessage "You need to provide a valid time in the format `MM/dd HH:mm`"
      else
        match getInstantFromString startTime, getInstantFromString endTime with
        | some startInstant, some endInstant =>
          if endInstant < clock.now then
            return sendErrorMessage "The end time cannot be in the past"
          else
            write (createCTA id g (toTimestamp startInstant) (toTimestamp endInstant))
            return .ctaStarted id startInstant endInstant
        | _, _ => Sql.throw .runtime
  | _, _ => return sendErrorParsingTimeMessage

def deleteCTA (ctaId : String) (g : ℤ) : Cmd Unit := do
  write (deleteFromCTA ctaId g)
  write (deleteUsersDataForGuild g ctaId)

def cancelCommand (g : ℤ) : Cmd Reply := do
  match ← read (getCTAID · g) with
  | none => return sendNoCTAActiveMessage
  | some ctaID =>
    deleteCTA ctaID g
    return sendCTACancelledMessage ctaID

def deleteCommand (g now : ℤ) : Cmd Reply := do
  match ← read (getCTAID · g) with
  | none => return sendNoCTAActiveMessage
  | some ctaID =>
    write (updateCTAStatus ctaID .finished)
    write (updateCTAFinishTime ctaID g now)
    return sendCTADeletedMessage ctaID

def listCommand (g : ℤ) : Cmd Reply := do
  let ctas ← read (getAllCTAs · g)
  return .ctas ctas

def statsCommand (env : Env) (g : ℤ) (userName : String) : Cmd Reply := do
  match ← read (getCTAID · g) with
  | none => return sendNoCTAActiveMessage
  | some _ =>
    let attendances ← read (getCountForUser env .present · userName g)
    let lates ← read (getCountForUser env .late · userName g)
    let absentees ← read (getCountForUser env .absent · userName g)
    return .stats userName attendances lates absentees

def infoCommand (g : ℤ) (ctaID : String) : Cmd Reply := do
  let exists' ← read (CTAExists · (some ctaID) g)
  if !exists' then return sendCTANotFoundMessage (some ctaID)
  else
    let stats ← read (calcCTAStats · ctaID g)
    write (updateCTAStats ctaID g stats)
    let startTime ← read (getCTAStartTime · ctaID g)
    let endTime ← read (getCTAEndTime · ctaID (some g))
    let report ← read (getReportForCTA · ctaID g)
    let attendees ← read (getCountForCTA Cta.attendees · ctaID g)
    let lates ← read (getCountForCTA Cta.lates · ctaID g)
    let absentees ← read (getCountForCTA Cta.absentees · ctaID g)
    match startTime, endTime with
    | some startTime, some endTime =>
      return .info ctaID startTime endTime attendees lates absentees report
    | _, _ => Sql.throw .runtime

/-- The CTA that is named, or else the active one. -/
def reportedCTA (g : ℤ) : Option String → Cmd (Option String)
  | some ctaID => pure (some ctaID)
  | none => read (getCTAID · g)

def addReportCommand (g : ℤ) (report : String) (ctaId : Option String) : Cmd Reply := do
  let ctaID ← reportedCTA g ctaId
  let exists' ← read (CTAExists · ctaID g)
  if !exists' then return sendCTANotFoundMessage ctaID
  else
    write (addReport ctaID g report)
    return sendReportAddedMessage ctaID

/-! ### Parties -/

def addPlayerToParty (env : Env) (charName : String) (g : ℤ) (ctaId : String)
    (partyNumber : Option ℤ) (status : Status) : Cmd Unit :=
  if status = .unknown then pure ()
  else Sql.tryCatch (write (setParty env charName g ctaId partyNumber status)) fun _ => pure ()

def lateRegisterCommand (env : Env) (g : ℤ) (username : String) : Cmd Reply := do
  match ← read (getCTAID · g) with
  | none => return sendNoCTAMessage
  | some ctaID =>
    addPlayerToParty env username g ctaID none .late
    return sendUserAddedMessage username

def partyAddCommand (env : Env) (g partyNumber : ℤ) (playerName : String) : Cmd Reply :=
  match getAsInt partyNumber with
  | none => Sql.throw .runtime
  | some partyNumber => do
    match ← read (getCTAID · g) with
    | none => return sendNoCTAMessage
    | some ctaID =>
      addPlayerToParty env playerName g ctaID (some partyNumber) .present
      return sendUserAddedToPartyEmbed playerName "present"

def partyRemoveCommand (env : Env) (g partyNumber : ℤ) (playerName : String) : Cmd Reply :=
  match getAsInt partyNumber with
  | none => Sql.throw .runtime
  | some partyNumber => do
    match ← read (getCTAID · g) with
    | none => return sendNoCTAMessage
    | some ctaID =>
      write (removePlayerFromParty env playerName g ctaID partyNumber)
      return sendUserRemovedFromPartyEmbed playerName

/-- The nearest name of the roster; `none` too when a statement throws. -/
def spellFixMatch (env : Env) (word : String) (g : ℤ) (ctaID : String) : Cmd (Option String) :=
  if word ∈ forbiddenWords then pure none
  else Sql.tryCatch
    (do
      let words ← read fun db => db.demo.length
      if words = 0 then return none
      else read (nearestMember env · word g ctaID))
    fun _ => pure none

/-- The status that both helpers show for a player, and write back. -/
def statusFromDB (env : Env) (g : ℤ) (ctaID playerName : String) : Cmd Status := do
  match ← read (getPlayerStatus · g ctaID playerName) with
  | some .absent =>
    let hasParty ← read (playerHasParty env · playerName g ctaID)
    if hasParty then return .present
    else
      -- the next branch asks again
      let hasParty ← read (playerHasParty env · playerName g ctaID)
      if !hasParty then return .absent else return .offline
  | _ => return .offline

def helperGetPlayerStatus (env : Env) (g : ℤ) (ctaID playerName : String) : Cmd Status := do
  let status ← statusFromDB env g ctaID playerName
  swallow (write (updateUserStatus g ctaID playerName status))
  return status

/-- The names that the words match, each with its status. -/
def getValidNamesFromImage (env : Env) (g : ℤ) (ctaID : String) :
    List String → Cmd (List (String × Status))
  | [] => pure []
  | word :: words => do
    match ← spellFixMatch env word g ctaID with
    | some name =>
      let status ← helperGetPlayerStatus env g ctaID name
      let names ← getValidNamesFromImage env g ctaID words
      return (name, status) :: names
    | none =>
      let names ← getValidNamesFromImage env g ctaID words
      return ("????", .unknown) :: names

def addPlayersToParty (env : Env) (g : ℤ) (ctaID : String) (partyNumber : ℤ) :
    List (String × Status) → Cmd Unit
  | [] => pure ()
  | (name, status) :: names =>
    if status = .unknown then addPlayersToParty env g ctaID partyNumber names
    else do
      addPlayerToParty env name g ctaID (some partyNumber) .present
      addPlayersToParty env g ctaID partyNumber names

/-- The attachment `party_image`: its download fails, its reading throws, or it has words. -/
inductive Image
  | unavailable
  | unreadable
  | words (words : List String)
  deriving DecidableEq

def uploadParty (env : Env) (g : ℤ) (ctaID : String) (partyNumber : ℤ) (words : List String) :
    Cmd Reply := do
  let names ← getValidNamesFromImage env g ctaID words
  write (clearUsersDataForParty g ctaID partyNumber)
  if names = [] then return sendNoValidNamesFoundMessage
  else
    addPlayersToParty env g ctaID partyNumber names
    -- the page shows ten names on either side
    if names.length < 20 then Sql.throw .runtime
    else return .detected partyNumber names

def partyUploadCommand (env : Env) (g partyNumber : ℤ) (image : Image) : Cmd Reply :=
  match getAsInt partyNumber, image with
  | some partyNumber, .words words => do
    match ← read (getCTAID · g) with
    | none => return sendNoCTAMessage
    | some ctaID => uploadParty env g ctaID partyNumber words
  | some _, .unreadable => do
    match ← read (getCTAID · g) with
    | none => return sendNoCTAMessage
    | some _ => Sql.throw .runtime
  | _, _ => Sql.throw .runtime

/-! ### Rosters -/

/-- The options `text` and `file` of the upload and check commands. -/
inductive Source
  | neither
  | both
  | text (roster : Roster)
  | file
  | imageOrVideo
  deriving DecidableEq

/-- The loop that both helpers run over a roster: batches of 40, the last one with what is
left. A name without a last seen ends it with an exception. -/
def inBatches (send : List (String × String) → Cmd Unit) (batch : List (String × String)) :
    List String → List String → Cmd Unit
  | [], _ => pure ()
  | _ :: _, [] => Sql.throw .runtime
  | name :: names, seen :: lastSeen =>
    if (batch ++ [(name, seen)]).length = 40 ∨ names = [] then do
      send (batch ++ [(name, seen)])
      inBatches send [] names lastSeen
    else inBatches send (batch ++ [(name, seen)]) names lastSeen

/-- The dates of a batch are read before its first statement, and one that cannot be read
throws; an SQL exception ends the batch only. -/
def sendBatch (statement : String → ℤ → DB → DB) (batch : List (String × String)) : Cmd Unit :=
  match batch.mapM fun (name, seen) => (getInstantFromString seen).map (name, ·) with
  | none => Sql.throw .runtime
  | some rows => swallow (executeBatch (rows.map fun (name, seen) => statement name seen))

def uploadGuildData (g : ℤ) (ctaID : String) (batch : List (String × String)) (status : Status) :
    Cmd Unit :=
  sendBatch (insertUser g ctaID status) batch

def updateLastSeenGuildData (g : ℤ) (ctaID : String) (batch : List (String × String)) : Cmd Unit :=
  sendBatch (updateLastSeen g ctaID) batch

def markOnline (g : ℤ) (ctaID : String) : List String → Cmd Unit
  | [] => pure ()
  | name :: names => do
    swallow (write (updateUserStatus g ctaID name .absent))
    markOnline g ctaID names

def addUsersToDatabase (g : ℤ) (ctaID : String) (roster : Roster) : Cmd Unit := do
  inBatches (uploadGuildData g ctaID · .offline) [] roster.charNames roster.lastSeen
  markOnline g ctaID roster.onlineUsers
  swallow (write postProcessUsersTable)

/-- Without a CTA a message is sent, and the paginator comes all the same. -/
def uploadGuildUploadUsers (g : ℤ) (roster : Roster) : Option String → Cmd Unit
  | none => pure ()
  | some ctaID => do
    write (deleteUsersDataForGuild g ctaID)
    addUsersToDatabase g ctaID roster

/-- The pages of an upload; the first page of none is asked for and throws. -/
def sendGuildUploadPaginator (g : ℤ) (ctaID : Option String) : Cmd Reply := do
  let users ← Sql.tryCatch (read (getUsersWithLastSeenForGuildOrderedDesc · g ctaID))
    fun _ => pure []
  if users = [] then Sql.throw .runtime else return .users users

def uploadRoster (g : ℤ) (ctaID : Option String) (roster : Roster) : Cmd Reply := do
  uploadGuildUploadUsers g roster ctaID
  sendGuildUploadPaginator g ctaID

/-- The start of a download, which may fail. -/
def download (upload : Upload) : Cmd Unit :=
  Sql.exec fun b => { b with pending := b.pending ++ [upload] }

def guildUploadCommand (g : ℤ) (source : Source) : Cmd Reply := do
  let ctaID ← read (getCTAID · g)
  match source with
  | .neither => return sendErrorProvideTextOptionMessage
  | .both => return sendErrorOnlyOneOptionAllowedMessage
  | .text roster => uploadRoster g ctaID roster
  | .file => do
    download (.guild ctaID g)
    return .downloading
  | .imageOrVideo => return sendNotGuildListMessage

def absenteesPages (env : Env) (g : ℤ) (ctaID : String) :
    List String → Cmd (List (String × Status))
  | [] => pure []
  | name :: names => do
    let status ← helperGetPlayerStatus env g ctaID name
    let lines ← absenteesPages env g ctaID names
    return (name, status) :: lines

/-- A page for each party, with twenty of its members at most. -/
def partiesPages (g : ℤ) (ctaID : String) : List ℤ → Cmd (List (ℤ × List (String × Status)))
  | [] => pure []
  | partyNumber :: parties => do
    let members ← read (getPartyMembers · ctaID g partyNumber)
    let pages ← partiesPages g ctaID parties
    return (partyNumber, (members.take 20).map fun r => (r.1, r.2.1)) :: pages

def sendGuildCheckPaginator (env : Env) (g : ℤ) (ctaID : String) : Cmd Reply := do
  let absentees ← read (getAbsentees · g ctaID)
  let parties ← read (getParties · ctaID g)
  if parties = [] ∧ absentees = [] then
    return .embed "Check Guild Members" "No online members in the guild have been detected."
  else
    let lines ← absenteesPages env g ctaID absentees
    let pages ← partiesPages g ctaID parties
    return .check lines pages

/-- The new last seen of a roster; every exception ends in a message. -/
def updateGuildUploadUsers (g : ℤ) (ctaID : String) (roster : Roster) : Cmd Unit :=
  Sql.tryCatch
    (inBatches (updateLastSeenGuildData g ctaID) [] roster.charNames roster.lastSeen)
    fun _ => pure ()

def checkRoster (env : Env) (g : ℤ) (ctaID : String) (roster : Roster) : Cmd Reply := do
  updateGuildUploadUsers g ctaID roster
  sendGuildCheckPaginator env g ctaID

def guildCheckCommand (env : Env) (g : ℤ) (source : Source) : Cmd Reply := do
  match ← read (getCTAID · g) with
  | none => return sendNoCTAActiveMessage
  | some ctaID =>
    match source with
    | .neither => sendGuildCheckPaginator env g ctaID
    | .both => return sendErrorProvidingOptionsMessage
    | .text roster => checkRoster env g ctaID roster
    | .file => do
      download (.check ctaID g)
      return .downloading
    | .imageOrVideo => return sendNotGuildListMessage

/-- The completion of a download, with the lists parsed from the file. -/
def completeUpload (env : Env) (roster : Roster) : Upload → Cmd Reply
  | .guild ctaID g => uploadRoster g ctaID roster
  | .check ctaID g => checkRoster env g ctaID roster

/-! ### Dispatch -/

inductive Command
  | start (startTime endTime id : String) (clock : Clock)
  | cancel
  | delete (now : ℤ)
  | list
  | lateregister (username : String)
  | stats (username : String)
  | addreport (report : String) (ctaId : Option String)
  | info (ctaId : String)
  | guildUpload (source : Source)
  | guildCheck (source : Source)
  | partyUpload (partyNumber : ℤ) (image : Image)
  | partyAdd (partyNumber : ℤ) (username : String)
  | partyRemove (partyNumber : ℤ) (username : String)
  deriving DecidableEq

def execute (env : Env) (g : ℤ) : Command → Cmd Reply
  | .start startTime endTime id clock => startCommand g startTime endTime id clock
  | .cancel => cancelCommand g
  | .delete now => deleteCommand g now
  | .list => listCommand g
  | .lateregister username => lateRegisterCommand env g username
  | .stats username => statsCommand env g username
  | .addreport report ctaId => addReportCommand g report ctaId
  | .info ctaId => infoCommand g ctaId
  | .guildUpload source => guildUploadCommand g source
  | .guildCheck source => guildCheckCommand env g source
  | .partyUpload partyNumber image => partyUploadCommand env g partyNumber image
  | .partyAdd partyNumber username => partyAddCommand env g partyNumber username
  | .partyRemove partyNumber username => partyRemoveCommand env g partyNumber username

/-! ### The checker -/

/-- The loop over the CTAs that were active. `clock i` is what the `i`-th look at the clock
shows, and `channels` has for each guild of the bot its system channel, which is messaged. -/
def checkEach (clock : ℕ → ℤ) (channels : List (Option ℤ)) : ℕ → List String → Cmd (List String)
  | _, [] => pure []
  | i, ctaID :: ctaIDs => do
    match ← read (getCTAEndTime · ctaID none) with
    | none => Sql.throw .runtime
    | some endTime =>
      if endTime < clock i then
        write (updateCTAStatus ctaID .finished)
        if channels.any Option.isNone then Sql.throw .runtime
        else
          let finished ← checkEach clock channels (i + 1) ctaIDs
          return ctaID :: finished
      else checkEach clock channels (i + 1) ctaIDs

def checker (clock : ℕ → ℤ) (channels : List (Option ℤ)) : Cmd Reply := do
  let ctaIDs ← read getJustFinishedActiveCTAs
  let finished ← checkEach clock channels 0 ctaIDs
  return .finished finished

end AtomComm.GuildBot
