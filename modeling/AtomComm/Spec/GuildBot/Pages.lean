import AtomComm.Lib.Paging
import AtomComm.Spec.Embeds
import AtomComm.Spec.ParseText

/-! The pages of the attendance bot, as text. The check of a guild has its absentees on the
first pages, whose statuses are written back while they are listed, and then a page for each
party. A party that was uploaded has one page, with ten names on either side. -/

namespace AtomComm.GuildBot
open StringUtils

def Status.text : Status → String
  | .offline => "offline"
  | .absent => "absent"
  | .present => "present"
  | .late => "late"
  | .unknown => "Unknown"

/-! ### `GuildCheckHelper` -/

/-- A line of `getPartyMembers`. -/
def memberLine (member : String × Status × ℤ) : String :=
  member.1 ++ "|||" ++ member.2.1.text ++ "|||" ++ getStringFromInstant member.2.2

/-- The name and the status that are cut out of the line. -/
def readMember (line : String) : Option (String × String) :=
  match Text.split ['|', '|', '|'] line.toList with
  | playerName :: status :: _ => some (String.ofList playerName, String.ofList status)
  | _ => none

def namesPerPage : ℕ := 20

def tableHeader (title : String) : String :=
  "```\n" ++ center title 60 ++ "\n" ++ left "#" 25 ++ center "Name" 40 ++ right "Status" 25 ++ "\n\n"

def tableLine (j : ℕ) (playerName status : String) : String :=
  left (toString (j + 1)) 25 ++ center playerName 40 ++ right status 25 ++ "\n"

def pageFooter (pageIndex totalPages : ℕ) : Option String :=
  some ("Page " ++ toString (pageIndex + 1) ++ " of " ++ toString totalPages)

/-- The lines of the absentees from `j` on, so many at most. -/
def absenteeLines (env : Env) (g : ℤ) (ctaID : String) (absentees : List String) (j : ℕ) :
    ℕ → Cmd String
  | 0 => pure ""
  | n + 1 =>
    match absentees[j]? with
    | none => pure ""
    | some playerName => do
      let status ← helperGetPlayerStatus env g ctaID playerName
      let lines ← absenteeLines env g ctaID absentees (j + 1) n
      return tableLine j playerName status.text ++ lines

def absenteesPage (lines : String) (footer : Option String) : MessageEmbed :=
  ⟨"Check Guild Members", "The following usernames have been detected as absentees:\n\n" ++
    (tableHeader "<< Absentees >>" ++ lines ++ "```"), footer⟩

def partyContent (title : String) (entries : List (String × String)) : String :=
  tableHeader title ++
    String.join ((entries.take namesPerPage).mapIdx fun j e => tableLine j e.1 e.2) ++
    (if entries = [] then center "No members detected" 60 ++ "\n" else "") ++ "```"

/-- A line that cannot be cut, or what is no format, throws. -/
def partyPage (fmt : Formatter) (partyNumber : ℤ) (members : List (String × Status × ℤ))
    (footer : Option String) : Option MessageEmbed := do
  let entries ← members.mapM fun member => readMember (memberLine member)
  let title ← fmt.format "<< Party %s >>" [partyNumber]
  let description ← fmt.format ("The following usernames have been detected for Party number **%s**:\n" ++
    "*(You can re-upload the image to update the party)*\n\n" ++ partyContent title entries)
    [partyNumber]
  return ⟨"Check Guild Members", description, footer⟩

/-- The pages that the absentees take. -/
def absenteesPagesCount (absentees : List String) : ℕ :=
  (absentees.length + (namesPerPage - 1)) / namesPerPage

/-- What the loop does for one page. -/
def checkPage (fmt : Formatter) (env : Env) (g : ℤ) (ctaID : String) (absentees : List String)
    (parties : List ℤ) (pageIndex : ℕ) : Cmd MessageEmbed :=
  let footer := pageFooter pageIndex (parties.length + absenteesPagesCount absentees)
  if pageIndex < absenteesPagesCount absentees then do
    let lines ← absenteeLines env g ctaID absentees (namesPerPage * pageIndex) namesPerPage
    return absenteesPage lines footer
  else
    match parties[pageIndex - absenteesPagesCount absentees]? with
    | none => Sql.throw .runtime
    | some partyNumber => do
      let members ← read (getPartyMembers · ctaID g partyNumber)
      match partyPage fmt partyNumber members footer with
      | none => Sql.throw .runtime
      | some page => return page

/-- The pages from `pageIndex` on. -/
def pagesFrom (fmt : Formatter) (env : Env) (g : ℤ) (ctaID : String) (absentees : List String)
    (parties : List ℤ) (pageIndex : ℕ) : ℕ → Cmd (List MessageEmbed)
  | 0 => pure []
  | n + 1 => do
    let page ← checkPage fmt env g ctaID absentees parties pageIndex
    let pages ← pagesFrom fmt env g ctaID absentees parties (pageIndex + 1) n
    return page :: pages

def getPaginatorEmbed (fmt : Formatter) (env : Env) (g : ℤ) (ctaID : String) :
    Cmd (List MessageEmbed) :=
  Sql.tryCatch
    (do
      let absentees ← read (getAbsentees · g ctaID)
      let parties ← read (getParties · ctaID g)
      if parties = [] ∧ absentees = [] then
        return [⟨"Check Guild Members", "No online members in the guild have been detected.", none⟩]
      else
        pagesFrom fmt env g ctaID absentees parties 0
          (parties.length + absenteesPagesCount absentees))
    fun _ => Sql.throw .runtime

/-! ### `GuildUploadHelper` -/

/-- A line of `getUsersWithLastSeenForGuildOrderedDesc`. -/
def userLine (user : String × ℤ) : String := user.1 ++ "|||" ++ getStringFromInstant user.2

/-- The name and the last seen that are cut out of the line. -/
def readUser : String → Option (String × String) := readMember

namespace GuildUploadHelper

def usersPerPage : ℕ := 10

/-- Of a query that throws nothing is listed. -/
def getUsersWithLastSeenOrdered (g : ℤ) (ctaID : Option String) : Cmd (List (String × String)) :=
  Sql.tryCatch
    (do
      let dbResult ← read (getUsersWithLastSeenForGuildOrderedDesc · g ctaID)
      match dbResult.mapM fun user => readUser (userLine user) with
      | none => Sql.throw .runtime
      | some users => return users)
    fun
    | .sql => pure []
    | .runtime => Sql.throw .runtime

def listContent (totalUsersNum : ℕ) (users : List (String × String)) : String :=
  "Total number of users added: **" ++ toString totalUsersNum ++ "**\n\n" ++
    (" **Character Name**  -  **Last Seen**\n" ++
      String.join (users.map fun user => "- **" ++ user.1 ++ "** - `" ++ user.2 ++ "`\n"))

/-- The names that were parsed are counted in the footer, the rows in the text. -/
def pagesOf (charNames : List String) (usersWithLastSeen : List (String × String)) :
    List MessageEmbed :=
  Paging.loop usersWithLastSeen.length (fun i => i + (usersPerPage - 1) + 1) (fun i => by omega)
    (fun currentPage i => ⟨"Guild List - Page " ++ toString (currentPage + 1),
      listContent usersWithLastSeen.length
        ((Paging.entriesFrom usersWithLastSeen i usersPerPage).map Prod.fst),
      pageFooter currentPage (Paging.ceilDiv charNames.length usersPerPage)⟩) 0 0

def getPaginatorEmbed (g : ℤ) (ctaID : Option String) (charNames : List String) :
    Cmd (List MessageEmbed) := do
  let usersWithLastSeen ← getUsersWithLastSeenOrdered g ctaID
  return pagesOf charNames usersWithLastSeen

/-- The upload of a text, up to the pages that the paginator is given. -/
def guildEmbeds (env : Env) (now : ℕ → String) (isFile : Bool) (text : String) (g : ℤ)
    (ctaID : Option String) : Cmd (List MessageEmbed) := do
  let roster := parseText env now isFile text
  uploadGuildUploadUsers g roster ctaID
  getPaginatorEmbed g ctaID roster.charNames

end GuildUploadHelper

/-! ### `ListCommand` -/

/-- One of the lists that `getAllCTAs` returns. -/
structure CtaInfo where
  ctaId : String
  startTime : String
  endTime : String
  status : String
  deriving DecidableEq

def CtaStatus.text : CtaStatus → String
  | .active => "active"
  | .finished => "finished"

def ctaInfo (cta : String × ℤ × ℤ × CtaStatus) : CtaInfo :=
  ⟨cta.1, getStringFromInstant cta.2.1, getStringFromInstant cta.2.2.1, cta.2.2.2.text⟩

namespace CTA

def namesPerPage : ℕ := 5

/-- The markup that shows the instant to each reader in a zone of their own. -/
def timeTag (instant : ℤ) : String := "<t:" ++ toString (instant / 1000000000) ++ ":F>"

def ctaField (capitalize : String → String) (cta : CtaInfo) (startTime endTime : ℤ) :
    MessageEmbed.Field :=
  ⟨cta.ctaId, "- **Status:** `" ++ capitalize cta.status ++ "`\n- **Start Time:** " ++
    timeTag startTime ++ "\n- **End Time:** " ++ timeTag endTime, false⟩

/-- A date that cannot be read throws. -/
def addField (capitalize : String → String) (cta : CtaInfo) : Option MessageEmbed.Field := do
  let startTime ← getInstantFromString cta.startTime
  let endTime ← getInstantFromString cta.endTime
  return ctaField capitalize cta startTime endTime

def listPage (capitalize : String → String) (ctas : List CtaInfo) (footer : Option String) :
    Option Embed :=
  (ctas.mapM (addField capitalize)).map fun fields => ⟨"CTA List", none, fields, footer⟩

/-- What is thrown on the way leaves null. -/
def getCTAsListPaginator (capitalize : String → String) (ctas : List CtaInfo) :
    Option (List Embed) :=
  if ctas = [] then some [⟨"CTA List", some "No CTAs found", [], none⟩]
  else
    (Paging.loop ctas.length (fun i => i + (namesPerPage - 1) + 1) (fun i => by omega)
      (fun currentPage i => listPage capitalize
        ((Paging.entriesFrom ctas i namesPerPage).map Prod.fst)
        (pageFooter currentPage (Paging.ceilDiv ctas.length namesPerPage))) 0 0).mapM id

end CTA


/-! ### `PartyUploadHelper` -/

def getPaginatorEmbed2 (fmt : Formatter) (partyNumber : ℤ) (validNames validUsersStatus : List String) :
    Option (List MessageEmbed) := do
  let pageContent ← namesContent validNames validUsersStatus
  let description ← fmt.format ("The following usernames have been detected \nfor Party number **%s**:\n" ++
    "*(You can re-upload the image to update the party)*\n" ++
    "Please manually use `/cta party add <username>` to add players not detected\n\n" ++
    pageContent) [partyNumber]
  return [⟨"Detected Names", description, some "Page 1 of 1"⟩]

end AtomComm.GuildBot
