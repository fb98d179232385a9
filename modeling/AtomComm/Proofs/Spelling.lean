import AtomComm.Proofs.PartyUpload
import AtomComm.Proofs.Shares
import AtomComm.Sanity.Spelling

/-! Whom the image of a party brings in. Only names near a word are taken, and if the names are
far from each other, whoever is read is taken and no one else. A name that ends in a star is a
pattern: it takes every word that starts like it away from the name that is meant. -/

namespace AtomComm.LootSplit

open Spellfix Utf8

/-- A player of the guild has the name. -/
def isPlayer (db : DB) (g : ℤ) (w : String) : Bool :=
  db.players.any fun r => r.username = w && r.guildId = g

section
variable {env : Env} {b : Bot} {g : ℤ} {splitId uploadId : String} {words : List String}

/-- What the upload inserts, whichever statements fail. -/
def OnlyRead (db : DB) (g : ℤ) (words : List String) (db' : DB) : Prop :=
  ∀ m ∈ db'.lootsplitPlayers.vals, m ∈ db.lootsplitPlayers.vals ∨
    ∃ word ∈ words, ReadsAs db.demo forbiddenWords (isPlayer db g) word (some m.username)

theorem leaves_onlyRead (hrt : env.UsesSpellfix) (hc : ∀ word ∈ words, ∀ w ∈ b.db.demo,
      isPlayer b.db g w = true → Comparable w word) :
    (lootSplitPartyUploadCommand env g uploadId (some words)).Leaves
      (fun t => OnlyRead b.db g words t.db) b := by
  have hsame : OnlyRead b.db g words b.db := fun m hm => .inl hm
  unfold lootSplitPartyUploadCommand
  refine Sql.solo_query_bind ?_ hsame
  beta_reduce
  cases getLootSplitId b.db g with
  | none => exact Sql.solo_ret hsame
  | some s =>
    refine Sql.ok_bind.2 (Sql.Ok.imp (validNames_ok env.toRuntime words) ?_ ?_)
    · rintro names t ⟨rfl, hnames⟩
      split
      · exact Sql.solo_ret hsame
      · have hbatch : (executeBatch (addPlayersToLootSplit uploadId s (names.filterMap id) g)).Within
            (fun r => OnlyRead t.db g words r.db) fun _ _ => True := by
          apply Sql.within_script
          intro f hf r r' hr h
          obtain ⟨f, hmem, rfl⟩ := List.mem_map.1 hf
          obtain ⟨w, hw, rfl⟩ := List.mem_map.1 hmem
          obtain rfl := Option.some.inj h
          obtain ⟨word, hword, hread⟩ := List.mem_filterMap.1 (hnames w hw)
          have hnear := reads_some hrt (hc word hword) hread
          refine ⟨fun m hm => ?_, trivial⟩
          rcases addListedPlayer_cases uploadId s w g r.db with hkept | ⟨-, hins⟩
          · exact hr m (hkept ▸ hm)
          · rw [hins, Table.vals_insert] at hm
            rcases List.mem_append.1 hm with hm | hm
            · exact hr m hm
            · obtain rfl := List.mem_singleton.1 hm
              exact .inr ⟨word, hword, hnear⟩
        refine Sql.Within.leaves (Sql.within_bind hbatch fun _ => ?_) hsame
        split <;> trivial
    · rintro e t rfl
      exact hsame

end

/-- Alice and Evelyn in a split, whose members the image shows. -/
def beforeImage : Bot := endState (opening ["Evelyn"])

def spellfixEnv : Env := { Runtime.spellfix with allowedRole := some "officer" }

/-- A list with a star in it. -/
def starred : Bot := endState [does (.guildUpload "Atom" (.text ["Alice", "*"]))]

end AtomComm.LootSplit

namespace AtomComm.GuildBot

open Spellfix Utf8

/-- A member of the CTA has the name. -/
def isMember (db : DB) (g : ℤ) (c w : String) : Bool :=
  db.users.any fun r => r.charName = w && r.inCTA g c

def spellfixEnv : Env := { Runtime.spellfix with toLowerCaseROOT := LOWER }

/-- An image with one name, misread. -/
def misread : List String := "B0bby" :: List.replicate 19 "zzzz"

theorem misread_detected :
    ((partyUploadCommand spellfixEnv 1 1 (.words misread)).run [] oneInParty).1 =
      .ok (.detected 1 (("Bobby", .absent) :: List.replicate 19 ("????", .unknown))) := by
  decide +kernel

end AtomComm.GuildBot
