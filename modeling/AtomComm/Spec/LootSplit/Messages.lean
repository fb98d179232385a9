import AtomComm.Spec.LootSplit.Database

/-! What the loot split bot answers. An embed is its title and description; amounts and
balances are kept as numbers, before their formatting. -/

namespace AtomComm.LootSplit

/-- The figures of the first page of `/lootsplit confirm` and `info`, and the members that
the following pages list. -/
structure SplitPages where
  title : String
  totalValue : ℤ
  silver : ℤ
  items : ℤ
  memberCount : ℕ
  guildSplitFee : Option Double
  payoutPerPlayer : Option Double
  payoutPerPlayerHalf : Option Double
  partyLeader : String
  members : List String
  deriving DecidableEq

inductive Reply
  | embed (title description : String)
  | sessionCreated (name splitId : String)
  | amount (title : String) (amount : ℚ) (description : String)
  | balance (playerName : Option String) (balance : ℤ)
  | leaderboard (entries : List (String × Double))
  | sessions (entries : List (String × String × Status))
  | split (pages : SplitPages)
  | players (names : List String)
  | detected (names : List (Option String))
  | downloading
  deriving DecidableEq

def sendRequiredRoleNotPresentMessage : Reply :=
  .embed "Permission Denied" "You do not have the required role to use this command."

def sendAmountAddedToPlayer (playerName : String) (amount : ℚ) : Reply :=
  .amount "Amount Added" amount ("has been added to **" ++ playerName ++ "**'s balance")

def sendAmountRemovedFromPlayer (playerName : String) (amount : ℚ) : Reply :=
  .amount "Amount Removed" amount ("has been removed from **" ++ playerName ++ "**'s balance")

def sendAmountHalvedFromPlayer (playerName : String) : Reply :=
  .embed "Amount Halved" ("Amount has been halved from **" ++ playerName ++ "**'s balance")

def sendUserNotInGuildListMessage (username : String) : Reply :=
  .embed "Not Found" ("The username **" ++ username ++ "** is not in the Guild List")

def sendPlayerNotInLootSplitMessage (playerName : String) : Reply :=
  .embed "Not Found" ("The player **" ++ playerName ++ "** is not in the LootSplit session")

def sendUserAlreadyRegisteredMessage (toSelf : Bool) : Reply :=
  .embed "Already Registered"
    (if toSelf then "You are already registered" else "The user is already registered")

def sendUserRegisteredSuccessfullyMessage (username : String) (toSelf : Bool) : Reply :=
  .embed "Registered" ((if toSelf then "You have" else "The user has") ++
    " been registered with \nthe username: **" ++ username ++ "** successfully")

def sendUserUnregisteredSuccessfullyMessage (username : String) (toSelf : Bool) : Reply :=
  .embed "Unregistered" ((if toSelf then "You have" else "The user has") ++
    " been unregistered with \nthe username: **" ++ username ++ "** successfully")

def sendUserNotRegisteredMessage (toSelf : Bool) : Reply :=
  .embed "Not Registered"
    (if toSelf then "You are not registered. Please register using the `/register` command"
    else "The user is not registered")

def sendNoActiveLootSplitSessionMessage : Reply :=
  .embed "No Active Session" "There is no active LootSplit session for this server\nCreate one using ```/lootsplit create <lootSplitName>```"

def sendLootSplitSessionAlreadyActiveMessage : Reply :=
  .embed "Session is Active" "A LootSplit session is already active for this server"

def sendNotGuildListMessage : Reply :=
  .embed "Invalid Format" "The provided is not a Guild List"

def sendErrorOnlyOneOptionAllowedMessage : Reply :=
  .embed "Only one option is allowed" "Only one option is allowed"

def sendErrorProvideTextOptionMessage : Reply :=
  .embed "You need to provide a text option" "You need to provide a text option"

def sendNoValidNamesFoundMessage : Reply :=
  .embed "No Valid Names Found" "No valid names were found in the image"

def sendPlayerAddedToLootSplit (playerName : String) : Reply :=
  .embed "Player Added" ("**" ++ playerName ++ "** has been added to the LootSplit session")

def sendPlayerRemovedFromLootSplit (playerName : String) : Reply :=
  .embed "Player Removed" ("**" ++ playerName ++ "** has been removed from the LootSplit session")

/-- `/register` and `/unregister`, with the verb. -/
def sendPermissionDeniedMessage (verb : String) : Reply :=
  .embed "Permission Denied" ("You cannot " ++ verb ++ " another user.")

def sendSuccessAddUserMessage (user : String) : Reply :=
  .embed "Success" ("The user " ++ user ++ " has been added to the guild list.")

def sendSuccessRemoveUserMessage (user : String) : Reply :=
  .embed "Success" ("The user " ++ user ++ " has been removed from the guild list.")

def sendSuccessRemoveMessage : Reply :=
  .embed "Success" "The guild list has been removed."

def sendNoLootSplitSessionsMessage : Reply :=
  .embed "No Sessions" "There is no LootSplit session in this server."

def sendSuccessMessage : Reply := .embed "Success" "Role added successfully"

end AtomComm.LootSplit
