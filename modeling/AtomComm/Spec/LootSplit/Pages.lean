import AtomComm.Lib.Paging
import AtomComm.Spec.Embeds
import AtomComm.Spec.LootSplit.Commands

/-! The pages of the loot split bot, as text: the submission of a split, the leaderboard, the
list of sessions and what an upload has added. `DecimalFormat` and the letter case of a
status depend on the locale, so they are parameters. -/

namespace AtomComm.LootSplit
open StringUtils

/-- A formatter of the pattern `#,###`; a double may be nan. -/
structure DecimalFormat where
  formatLong : ℤ → String
  formatDouble : Option Double → String

def usersPerPage : ℕ := 10

def pageFooter (currentPage totalPages : ℕ) : Option String :=
  some ("Page " ++ toString (currentPage + 1) ++ " of " ++ toString totalPages)

/-- The players of one page, under the number of all. -/
def playersContent (totalUsersNum : ℕ) (players : List String) : String :=
  "Total number of users added: **" ++ toString totalUsersNum ++ "**\n\n" ++
    (" **Player Name**\n" ++ String.join (players.map fun player => "- **" ++ player ++ "**\n"))

/-! ### `LootSplitConfirmCommand` -/

def emptyField : MessageEmbed.Field := ⟨"\u200B", "\u200B", true⟩

def firstPage (formatter : DecimalFormat) (s : SplitPages) (totalPages : ℕ) : Embed :=
  ⟨s.title, none,
    [⟨"Total Value", formatter.formatLong s.totalValue, true⟩,
      ⟨"Silver Value", formatter.formatLong s.silver, true⟩,
      ⟨"Loot Value", formatter.formatLong s.items, true⟩,
      ⟨"Member Count", toString s.memberCount, true⟩,
      emptyField,
      ⟨"Guild Split Fee", formatter.formatDouble s.guildSplitFee, true⟩,
      ⟨"Payout per Player", formatter.formatDouble s.payoutPerPlayer, true⟩,
      emptyField,
      ⟨"Payout per Player (Half)", formatter.formatDouble s.payoutPerPlayerHalf, true⟩,
      ⟨"Party Leader", s.partyLeader, false⟩],
    pageFooter 0 totalPages⟩

/-- The cover with the figures, and then the members. -/
def SplitPages.embeds (formatter : DecimalFormat) (s : SplitPages) : List Embed :=
  let players := s.members
  let totalPages := Paging.ceilDiv players.length usersPerPage + 1
  firstPage formatter s totalPages ::
    Paging.loop players.length (· + usersPerPage) (fun i => by unfold usersPerPage; omega)
      (fun currentPage i => ⟨"Members in Loot Split",
        some (playersContent players.length
          ((Paging.entriesFrom players i usersPerPage).map Prod.fst)),
        [], pageFooter currentPage totalPages⟩) 1 0

/-! ### `LeaderboardCommand` -/

def numberOfPlayersToDisplay : ℕ := 50

/-- The player at place `j`. -/
def leaderboardLine (formatter : DecimalFormat) (player : String × Double) (j : ℕ) : String :=
  rightPad ("#" ++ toString (j + 1) ++ " " ++ player.1) 30 ++ center "" 10 ++
    leftPad (formatter.formatDouble (some player.2)) 10 ++ "\n"

def leaderboardContent (formatter : DecimalFormat) (players : List ((String × Double) × ℕ)) :
    String :=
  "```" ++ center ("Top " ++ toString numberOfPlayersToDisplay ++ " Players") 50 ++ "\n" ++
    String.join (players.map fun p => leaderboardLine formatter p.1 p.2) ++ "```"

/-- A `ListOrderedMap`, which has no key twice. -/
structure OrderedMap where
  entries : List (String × Double)
  keys_nodup : (entries.map Prod.fst).Nodup

namespace OrderedMap

def keySet (m : OrderedMap) : List String := m.entries.map Prod.fst

def get (m : OrderedMap) (key : String) : Option Double :=
  (m.entries.find? fun e => e.1 = key).map Prod.snd

end OrderedMap

theorem nodup_putOrdered {entries : List (String × Double)} (key : String) (value : Double)
    (h : (entries.map Prod.fst).Nodup) : ((putOrdered entries key value).map Prod.fst).Nodup := by
  unfold putOrdered
  split
  · have hkeys : (entries.map fun e => if e.1 = key then (key, value) else e).map Prod.fst =
        entries.map Prod.fst := by
      rw [List.map_map]
      refine List.map_congr_left fun e _ => ?_
      rw [Function.comp_apply]
      split
      · exact Eq.symm ‹_›
      · rfl
    rwa [hkeys]
  · rename_i hno
    rw [List.map_append, List.map_singleton, List.nodup_append]
    refine ⟨h, List.nodup_singleton key, fun k hk k' hk' he => hno ?_⟩
    obtain ⟨e, hmem, rfl⟩ := List.mem_map.1 hk
    rw [List.mem_singleton.1 hk'] at he
    exact List.any_eq_true.2 ⟨e, hmem, decide_eq_true he⟩

theorem nodup_foldl_putOrdered (rows : List Player) {entries : List (String × Double)}
    (h : (entries.map Prod.fst).Nodup) :
    ((rows.foldl (fun entries r => putOrdered entries r.username r.balance) entries).map
      Prod.fst).Nodup := by
  induction rows generalizing entries with
  | nil => exact h
  | cons r rows ih => exact ih (nodup_putOrdered r.username r.balance h)

/-- `getLeaderboard`, as the map that it returns. -/
def topPlayers (db : DB) : OrderedMap where
  entries := getLeaderboard db numberOfPlayersToDisplay
  keys_nodup := nodup_foldl_putOrdered _ List.nodup_nil

/-- The names of one page with the values that the map has for them. -/
def withValues (players : OrderedMap) (names : List (String × ℕ)) :
    Option (List ((String × Double) × ℕ)) :=
  names.mapM fun (name, j) => (players.get name).map fun value => ((name, value), j)

def leaderboardPage (formatter : DecimalFormat) (players : List ((String × Double) × ℕ))
    (footer : Option String) : MessageEmbed :=
  ⟨"Leaderboard", leaderboardContent formatter players, footer⟩

def leaderboardEmbeds (formatter : DecimalFormat) (players : OrderedMap) :
    Option (List MessageEmbed) :=
  let totalPages := Paging.ceilDiv players.entries.length usersPerPage
  (Paging.loop players.entries.length (· + usersPerPage) (fun i => by unfold usersPerPage; omega)
    (fun currentPage i =>
      (withValues players (Paging.entriesFrom players.keySet i usersPerPage)).map fun entries =>
        leaderboardPage formatter entries (pageFooter currentPage totalPages)) 0 0).mapM id

/-! ### `LootSplitListCommand` -/

def Status.text : Status → String
  | .active => "active"
  | .inactive => "inactive"

def fieldsPerEmbed : ℕ := 5

/-- The name, the id and the status of a session. -/
def sessionField (toTitleCase : String → String) (session : String × String × Status) :
    MessageEmbed.Field :=
  ⟨session.1, "- **Status:** `" ++ toTitleCase session.2.2.text ++ "`\n- **Split ID:** `" ++
    session.2.1 ++ "`", false⟩

def createMessageEmbeds (toTitleCase : String → String)
    (lootSplitSessions : List (String × String × Status)) : List Embed :=
  let pages := Paging.ceilDiv lootSplitSessions.length fieldsPerEmbed
  (List.range pages).map fun i => ⟨"LootSplit Sessions", none,
    (Paging.entriesFrom lootSplitSessions (i * fieldsPerEmbed)
      (min ((i + 1) * fieldsPerEmbed) lootSplitSessions.length - i * fieldsPerEmbed)).map
        fun e => sessionField toTitleCase e.1,
    none⟩

/-! ### The upload helpers -/

def GuildUploadHelper.getPaginatorEmbed (guildName : String) (players : List String) :
    List MessageEmbed :=
  Paging.loop players.length (· + usersPerPage) (fun i => by unfold usersPerPage; omega)
    (fun currentPage i => ⟨"Guild List: " ++ guildName ++ " - Page " ++ toString (currentPage + 1),
      playersContent players.length ((Paging.entriesFrom players i usersPerPage).map Prod.fst),
      pageFooter currentPage (Paging.ceilDiv players.length usersPerPage)⟩) 0 0

namespace LootSplitGuildUploadHelper

def noUsersPage : MessageEmbed :=
  ⟨"LootSplit Guild Upload - Page 1", "No users have been added, \n" ++
    "because none of the users in the list are registered in the database.", some "Page 1 of 1"⟩

def pagesOf (registeredUsers : List String) : List MessageEmbed :=
  Paging.loop registeredUsers.length (fun i => i + (usersPerPage - 1) + 1) (fun i => by omega)
    (fun currentPage i => ⟨"LootSplit Guild Upload - Page " ++ toString (currentPage + 1),
      playersContent registeredUsers.length
        ((Paging.entriesFrom registeredUsers i usersPerPage).map Prod.fst),
      pageFooter currentPage (Paging.ceilDiv registeredUsers.length usersPerPage)⟩) 0 0

/-- The pages that were made before something was thrown: by the query, or by `EmbedBuilder`
for a description that it does not accept. -/
def getPaginatorEmbed (accepts : String → Bool) (uploadID splitID : String) (guildID : ℤ) :
    Cmd (List MessageEmbed) :=
  Sql.tryCatch
    (do
      let registeredUsers ← read (getLootSplitPlayersWithUploadId · uploadID splitID guildID)
      if registeredUsers = [] then return [noUsersPage]
      else return (pagesOf registeredUsers).takeWhile fun page => accepts page.description)
    fun _ => pure []

end LootSplitGuildUploadHelper

end AtomComm.LootSplit
