import AtomComm.Spec.GuildBot.Database

/-! What the attendance bot answers. An embed is its title and description; instants, counts
and the lines of pages are kept as data, before their formatting. -/

namespace AtomComm.GuildBot

inductive Reply
  | embed (title description : String)
  | ctaStarted (ctaID : String) (startTime endTime : ℤ)
  | ctas (entries : List (String × ℤ × ℤ × CtaStatus))
  | stats (userName : String) (attendances lates absentees : ℕ)
  | info (ctaID : String) (startTime endTime : ℤ) (attendees lates absentees : ℕ)
      (report : Option String)
  | users (entries : List (String × ℤ))
  | detected (partyNumber : ℤ) (names : List (String × Status))
  | check (absentees : List (String × Status)) (parties : List (ℤ × List (String × Status)))
  | downloading
  /-- The CTAs that a run of the checker announces. -/
  | finished (ctaIDs : List String)
  deriving DecidableEq

/-! ### CTAs -/

def sendCTACancelledMessage (ctaID : String) : Reply :=
  .embed "CTA Cancelled" ("The CTA with ID:**" ++ ctaID ++ "** has been cancelled")

def sendCTADeletedMessage (ctaID : String) : Reply :=
  .embed "CTA Deleted" ("The CTA with ID:**" ++ ctaID ++ "** has been deleted")

def sendNoCTAActiveMessage : Reply :=
  .embed "No Active CTA" "There is no active CTA for this Guild at the moment"

/-- The party, upload and late register commands say it in other words. -/
def sendNoCTAMessage : Reply := .embed "No CTA" "No CTA is currently active for this server"

def sendCTAAlreadyActiveMessage (ctaID : String) : Reply :=
  .embed "CTA Already Active" ("A CTA is already active for this server\n\nCTA ID:**" ++ ctaID ++ "**")

def sendCTANotFoundMessage (ctaID : Option String) : Reply :=
  .embed "CTA Not Found" ("The CTA with the ID **" ++ ctaID.getD "null" ++ "** was not found")

def sendErrorMessage (description : String) : Reply := .embed "Error Occurred" description

def sendErrorParsingTimeMessage : Reply :=
  .embed "Error Parsing Time" "An error occurred while parsing the time"

def sendReportAddedMessage (ctaID : Option String) : Reply :=
  .embed "Report Added"
    ("The report has been added for the CTA with the ID **" ++ ctaID.getD "null" ++ "**")

/-! ### Parties -/

def sendUserAddedMessage (username : String) : Reply :=
  .embed "User Added"
    ("The user **" ++ username ++ "** has been added to the CTA as a **Late Attendee**")

def sendUserAddedToPartyEmbed (playerName status : String) : Reply :=
  .embed "User Added to Party"
    ("The user **" ++ playerName ++ "** has been marked with status **" ++ status ++ "**.")

def sendUserRemovedFromPartyEmbed (playerName : String) : Reply :=
  .embed "User Removed from Party"
    ("The user **" ++ playerName ++ "** has been removed from the party.")

def sendNoValidNamesFoundMessage : Reply :=
  .embed "No Valid Names Found" "No valid names were found in the image"

/-! ### Rosters -/

def sendNotGuildListMessage : Reply :=
  .embed "Invalid Format" "The provided is not a Guild List"

def sendErrorOnlyOneOptionAllowedMessage : Reply :=
  .embed "Only one option is allowed" "Only one option is allowed"

def sendErrorProvideTextOptionMessage : Reply :=
  .embed "You need to provide a text option" "You need to provide a text option"

def sendErrorProvidingOptionsMessage : Reply :=
  .embed "Only one option can be provided" "You can only provide one option"

end AtomComm.GuildBot
