import AtomComm.Lib.Table
import AtomComm.Lib.Interleave
import AtomComm.Lib.Trace
import AtomComm.Lib.Double
import AtomComm.Lib.Order
import AtomComm.Spec.LootSplit.Database
import AtomComm.Spec.LootSplit.Commands
import AtomComm.Spec.LootSplit.System
import AtomComm.Sanity.Effects
import AtomComm.Sanity.Credits
import AtomComm.Sanity.Members
import AtomComm.Proofs.Conservation
import AtomComm.Sanity.Press
import AtomComm.Proofs.Atomic
import AtomComm.Sanity.Sessions
import AtomComm.Proofs.Payout
import AtomComm.Proofs.Budget
import AtomComm.Sanity.Foreign
import AtomComm.Sanity.Blind
import AtomComm.Proofs.Isolation
import AtomComm.Proofs.Takeover
import AtomComm.Proofs.Registration
import AtomComm.Spec.GuildBot.Database
import AtomComm.Spec.GuildBot.Commands
import AtomComm.Spec.GuildBot.System
import AtomComm.Sanity.Statements
import AtomComm.Proofs.OneActive
import AtomComm.Sanity.Parties
import AtomComm.Sanity.Detection
import AtomComm.Proofs.Attendance
import AtomComm.Sanity.Rosters
import AtomComm.Proofs.OneSplit
import AtomComm.Proofs.PlayerKeys
import AtomComm.Proofs.Frozen
import AtomComm.Proofs.Guilds
import AtomComm.Lib.Text
import AtomComm.Spec.ParseText
import AtomComm.Proofs.RosterText
import AtomComm.Proofs.Parsers
import AtomComm.Proofs.Routing
import AtomComm.Spec.LootSplit.Roles
import AtomComm.Proofs.TimedRoles
import AtomComm.Proofs.RosterCTA
import AtomComm.Proofs.Checker
import AtomComm.Sanity.Uploads
import AtomComm.Proofs.Shares
import AtomComm.Proofs.GuildList
import AtomComm.Proofs.BulkAdd
import AtomComm.Proofs.RoleTick
import AtomComm.Proofs.Grants
import AtomComm.Proofs.Submission
import AtomComm.Proofs.Reported
import AtomComm.Proofs.Amount
import AtomComm.Proofs.PartyUpload
import AtomComm.Proofs.FailedUpload
import AtomComm.Proofs.Aligned
import AtomComm.Proofs.RosterUpload
import AtomComm.Proofs.StartTimes
import AtomComm.Proofs.Statistics
import AtomComm.Lib.Format
import AtomComm.Spec.Embeds
import AtomComm.Spec.GuildBot.Pages
import AtomComm.Sanity.Embeds
import AtomComm.Sanity.Pages
import AtomComm.Proofs.PartyPages
import AtomComm.Proofs.Absentees
import AtomComm.Proofs.Names
import AtomComm.Proofs.Folding
import AtomComm.Proofs.Leaderboard
import AtomComm.Proofs.SplitFee
import AtomComm.Proofs.Balance
import AtomComm.Proofs.Delimited
import AtomComm.Proofs.Recognised
import AtomComm.Proofs.Navigation
import AtomComm.Proofs.PageBuilders
import AtomComm.Proofs.FirstPages
import AtomComm.Proofs.Readings
import AtomComm.Lib.Relax
import AtomComm.Lib.EditDistance
import AtomComm.Lib.Utf8
import AtomComm.Spec.Spellfix
import AtomComm.Sanity.Wagner
import AtomComm.Sanity.Letters
import AtomComm.Sanity.Distances
import AtomComm.Proofs.Distance
import AtomComm.Sanity.Spelling
import AtomComm.Proofs.Spelling
import AtomComm.Lib.Observer
import AtomComm.Sanity.Keyed
import AtomComm.Sanity.Views
import AtomComm.Proofs.Alone
import AtomComm.Proofs.ClosedCTA
import AtomComm.Proofs.Outsiders
import AtomComm.Proofs.Rooted
import AtomComm.Lib.Rounding
import AtomComm.Spec.PartyOCR
import AtomComm.Proofs.PartyOCR
import AtomComm.Proofs.Screenshots
import AtomComm.Proofs.TimeTexts
import AtomComm.Proofs.Exported
import AtomComm.Proofs.RunningCTA
import AtomComm.Lib.Ledger
import AtomComm.Proofs.Ledger
