import Mathlib.Data.List.Sort
import AtomComm.Lib.Table
import AtomComm.Spec.Runtime
import AtomComm.Spec.GuildBot.Time

/-! The tables of the attendance bot and the statements of its `DatabaseManager`, one
definition each. Queries without ORDER BY read in rowid order, and a query for a null id
finds nothing. -/

namespace AtomComm.GuildBot

inductive CtaStatus
  | active
  | finished
  deriving DecidableEq

structure Cta where
  ctaId : String
  status : CtaStatus
  guildId : ℤ
  startTime : ℤ
  endTime : ℤ
  attendees : ℕ
  absentees : ℕ
  lates : ℕ
  report : Option String
  deriving DecidableEq

/-- `unknown` marks a word of an image that matches no name; no row has it. -/
inductive Status
  | offline
  | absent
  | present
  | late
  | unknown
  deriving DecidableEq

/-- A row of the table `users`: a member of the guild, as listed for one CTA. -/
structure Member where
  charName : String
  ctaId : String
  lastSeen : ℤ
  guildId : ℤ
  status : Status
  partyNumber : Option ℤ
  deriving DecidableEq

structure DB where
  users : Table Member
  cta : Table Cta
  demo : List String
  deriving DecidableEq

def DB.empty : DB := ⟨.empty, .empty, []⟩

/-- Java, SQLite and `toLowerCase(Locale.ROOT)`. -/
structure Env extends Runtime where
  toLowerCaseROOT : String → String

def Env.ascii : Env := { Runtime.ascii with toLowerCaseROOT := LOWER }

/-- A stored timestamp keeps the milliseconds. -/
def toTimestamp (instant : ℤ) : ℤ := instant / 1000000 * 1000000

/-! ### CTAs -/

def createCTA (ctaId : String) (guildId startTime endTime : ℤ) (db : DB) : DB :=
  { db with cta := db.cta.insert ⟨ctaId, .active, guildId, startTime, endTime, 0, 0, 0, none⟩ }

def updateCTAFinishTime (ctaId : String) (guildId endTime : ℤ) (db : DB) : DB :=
  { db with
    cta := db.cta.update (fun r => r.ctaId = ctaId && r.guildId = guildId)
      fun r => { r with endTime := toTimestamp endTime } }

def updateCTAStatus (ctaId : String) (status : CtaStatus) (db : DB) : DB :=
  { db with cta := db.cta.update (fun r => r.ctaId = ctaId) fun r => { r with status := status } }

def getJustFinishedActiveCTAs (db : DB) : List String :=
  (db.cta.select fun r => r.status = .active).map Cta.ctaId

def getCTAID (db : DB) (guildId : ℤ) : Option String :=
  (db.cta.first fun r => r.guildId = guildId && r.status = .active).map Cta.ctaId

/-- The first statement of `deleteCTA`; the second is `deleteUsersDataForGuild`. -/
def deleteFromCTA (ctaId : String) (guildId : ℤ) (db : DB) : DB :=
  { db with cta := db.cta.delete fun r => r.ctaId = ctaId && r.guildId = guildId }

def getAllCTAs (db : DB) (guildId : ℤ) : List (String × ℤ × ℤ × CtaStatus) :=
  (db.cta.select fun r => r.guildId = guildId).map
    fun r => (r.ctaId, r.startTime, r.endTime, r.status)

/-- The row that the queries for one CTA of one guild stand on. -/
def ctaRow (db : DB) (ctaId : Option String) (guildId : ℤ) : Option Cta :=
  db.cta.first fun r => some r.ctaId = ctaId && r.guildId = guildId

def CTAExists (db : DB) (ctaId : Option String) (guildId : ℤ) : Bool :=
  (ctaRow db ctaId guildId).isSome

def getCTAStartTime (db : DB) (ctaId : String) (guildId : ℤ) : Option ℤ :=
  (ctaRow db ctaId guildId).map Cta.startTime

/-- Without a guild, the CTAs of all guilds are searched. -/
def getCTAEndTime (db : DB) (ctaId : String) : Option ℤ → Option ℤ
  | none => (db.cta.first fun r => r.ctaId = ctaId).map Cta.endTime
  | some guildId => (ctaRow db ctaId guildId).map Cta.endTime

def getReportForCTA (db : DB) (ctaId : String) (guildId : ℤ) : Option String :=
  (ctaRow db ctaId guildId).bind Cta.report

/-- `getAttendeesForCTA`, `getLatesForCTA` and `getAbsenteesForCTA`, by the column. -/
def getCountForCTA (column : Cta → ℕ) (db : DB) (ctaId : String) (guildId : ℤ) : ℕ :=
  ((ctaRow db ctaId guildId).map column).getD 0

def addReport (ctaId : Option String) (guildId : ℤ) (report : String) (db : DB) : DB :=
  { db with
    cta := db.cta.update (fun r => some r.ctaId = ctaId && r.guildId = guildId)
      fun r => { r with report := some report } }

/-- Attendees, lates and absentees. -/
def calcCTAStats (db : DB) (ctaId : String) (guildId : ℤ) : ℕ × ℕ × ℕ :=
  let count := fun s => db.users.count fun r =>
    r.ctaId = ctaId && r.guildId = guildId && r.status = s
  (count .present, count .late, count .absent)

def updateCTAStats (ctaId : String) (guildId : ℤ) (stats : ℕ × ℕ × ℕ) (db : DB) : DB :=
  { db with
    cta := db.cta.update (fun r => r.ctaId = ctaId && r.guildId = guildId)
      fun r => { r with attendees := stats.1, lates := stats.2.1, absentees := stats.2.2 } }

/-! ### The members listed for a CTA -/

/-- The rows of a guild's CTA. -/
def Member.inCTA (guildId : ℤ) (ctaId : String) (r : Member) : Bool :=
  r.guildId = guildId && r.ctaId = ctaId

def deleteUsersDataForGuild (guildId : ℤ) (ctaId : String) (db : DB) : DB :=
  { db with users := db.users.delete fun r => r.inCTA guildId ctaId }

/-- One statement of the batch of `uploadGuildData`. -/
def insertUser (guildId : ℤ) (ctaId : String) (status : Status) (charName : String) (lastSeen : ℤ)
    (db : DB) : DB :=
  { db with users := db.users.insert ⟨charName, ctaId, lastSeen, guildId, status, none⟩ }

def updateUserStatus (guildId : ℤ) (ctaId charName : String) (status : Status) (db : DB) : DB :=
  { db with
    users := db.users.update (fun r => r.inCTA guildId ctaId && r.charName = charName)
      fun r => { r with status := status } }

/-- One statement of the batch of `updateLastSeenGuildData`. -/
def updateLastSeen (guildId : ℤ) (ctaId charName : String) (lastSeen : ℤ) (db : DB) : DB :=
  { db with
    users := db.users.update (fun r => r.inCTA guildId ctaId && r.charName = charName)
      fun r => { r with lastSeen := lastSeen } }

def getUsersWithLastSeenForGuildOrderedDesc (db : DB) (guildId : ℤ) (ctaId : Option String) :
    List (String × ℤ) :=
  ((db.users.select fun r => r.guildId = guildId && some r.ctaId = ctaId).insertionSort
    fun r r' => r'.lastSeen ≤ r.lastSeen).map fun r => (r.charName, r.lastSeen)

def postProcessUsersTable (db : DB) : DB :=
  { db with demo := db.demo ++ db.users.vals.map Member.charName }

def getPlayerStatus (db : DB) (guildId : ℤ) (ctaId charName : String) : Option Status :=
  (db.users.first fun r => r.inCTA guildId ctaId && r.charName = charName).map Member.status

/-- `getInt` reads a null as 0. -/
def playerHasParty (env : Env) (db : DB) (charName : String) (guildId : ℤ) (ctaId : String) :
    Bool :=
  match db.users.first fun r =>
    LOWER r.charName = env.toLowerCase charName && r.inCTA guildId ctaId with
  | some r => r.partyNumber.getD 0 ≠ 0
  | none => false

/-- `getAttendancesForUser`, `getLatesForUser` and `getAbsenteesForUser`, by the status. -/
def getCountForUser (env : Env) (status : Status) (db : DB) (charName : String) (guildId : ℤ) : ℕ :=
  db.users.count fun r =>
    LOWER r.charName = env.toLowerCase charName && r.guildId = guildId && r.status = status

def getAbsentees (db : DB) (guildId : ℤ) (ctaId : String) : List String :=
  (db.users.select fun r =>
    r.inCTA guildId ctaId && r.status = .absent && r.partyNumber = none).map Member.charName

/-- DISTINCT, in the order of first occurrence. -/
def getParties (db : DB) (ctaId : String) (guildId : ℤ) : List ℤ :=
  ((db.users.select fun r => r.inCTA guildId ctaId).filterMap Member.partyNumber).reverse.dedup.reverse

def getPartyMembersNames (db : DB) (ctaId : String) (guildId partyNumber : ℤ) : List String :=
  (db.users.select fun r =>
    r.inCTA guildId ctaId && r.partyNumber = some partyNumber).map Member.charName

/-- Absent members first, then present ones, each by name. -/
def getPartyMembers (db : DB) (ctaId : String) (guildId partyNumber : ℤ) :
    List (String × Status × ℤ) :=
  let members := fun s => (db.users.select fun r =>
    r.inCTA guildId ctaId && r.partyNumber = some partyNumber && r.status = s).insertionSort
      fun r r' => r.charName ≤ r'.charName
  (members .absent ++ members .present).map fun r => (r.charName, r.status, r.lastSeen)

def clearUsersDataForParty (guildId : ℤ) (ctaId : String) (partyNumber : ℤ) (db : DB) : DB :=
  { db with
    users := db.users.update
      (fun r => r.inCTA guildId ctaId && r.partyNumber = some partyNumber)
      fun r => { r with partyNumber := none } }

/-- The statement of `addPlayerToParty`. -/
def setParty (env : Env) (charName : String) (guildId : ℤ) (ctaId : String)
    (partyNumber : Option ℤ) (status : Status) (db : DB) : DB :=
  { db with
    users := db.users.update
      (fun r => LOWER r.charName = env.toLowerCase charName && r.inCTA guildId ctaId)
      fun r => { r with status := status, partyNumber := partyNumber } }

def removePlayerFromParty (env : Env) (charName : String) (guildId : ℤ) (ctaId : String)
    (partyNumber : ℤ) (db : DB) : DB :=
  { db with
    users := db.users.update
      (fun r => LOWER r.charName = env.toLowerCaseROOT charName && r.inCTA guildId ctaId &&
        r.partyNumber = some partyNumber)
      fun r => { r with status := .absent, partyNumber := none } }

/-! ### Spelling -/

def forbiddenWords : List String :=
  ["Cluster", "preferrad", "Access", "Priority", "This", "setting", "determines", "who", "gets",
    "preferred", "access", "overcrowded", "clusters.", "Party", "First", "Access)", "Party's",
    "within", "Alliance/Guild:", "Dit)", "Member"]

/-- The spellfix query of `spellFixMatch`. -/
def nearestMember (env : Env) (db : DB) (word : String) (guildId : ℤ) (ctaId : String) :
    Option String :=
  env.nearest (env.candidates db.demo
    (fun w => db.users.any fun r => r.charName = w && r.inCTA guildId ctaId) word)

end AtomComm.GuildBot
