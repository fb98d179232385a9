import AtomComm.Proofs.PartyOCR
import AtomComm.Proofs.PartyUpload
import AtomComm.Proofs.Shares

/-! A party list from its screenshot to the columns of the reply. With what `PartyOCR` makes of a
screenshot the uploads of both bots never lack a name for the twenty places of the page, and each
place shows whom its own cell was matched with. -/

namespace AtomComm

open PartyOCR

/-- The columns of a page show, cell by cell, what was made of the texts of a screenshot. -/
def ShowsCells {Img Mat α : Type} (v : Vision Img Mat) (img : Img) (shown : String → α)
    (page : List α × List α) : Prop :=
  ∃ screenshot word ls rs, Heading v img screenshot word ∧
    Texts v (marked v screenshot word) (leftColumn word.boundingBox (isCluster v word))
      (rightColumn word.boundingBox (isCluster v word)) (List.range 10) ls rs ∧
    page = ((ls.map orUnknown).map shown, (rs.map orUnknown).map shown)

theorem leftAndRight_map {α β : Type} (f : α → β) (xs : List α) :
    leftAndRight (xs.map f) = ((leftAndRight xs).1.map f, (leftAndRight xs).2.map f) := by
  induction xs with
  | nil => rfl
  | cons x xs ih => simp [leftAndRight, ih]

/-! ### `/cta party upload` -/

namespace GuildBot

section
variable (env : Env) {g : ℤ} {c : String} {n : ℤ}

/-- What the page shows for a word. -/
def shownName (env : Env) (db : DB) (g : ℤ) (c word : String) : String :=
  (matchedName env db g c word).getD "????"

theorem run_getValidNames_names (words : List String) (b : Bot) : ∃ names t,
    (getValidNamesFromImage env g c words).run [] b = (.ok names, t) ∧
      names.map Prod.fst = words.map (shownName env b.db g c) := by
  induction words generalizing b with
  | nil => exact ⟨[], b, rfl, rfl⟩
  | cons word words ih =>
    unfold getValidNamesFromImage
    rw [Sql.bind_eq, Sql.run_bind, run_spellFixMatch]
    cases hm : matchedName env b.db g c word with
    | none =>
      obtain ⟨names, t, hrun, hnames⟩ := ih b
      refine ⟨("????", .unknown) :: names, t, ?_, by simp [hnames, shownName, hm]⟩
      simp [Sql.run_bind, hrun]
    | some name =>
      obtain ⟨names, t, hrun, hnames⟩ := ih { b with db := refresh env g c b.db name }
      have hsame : shownName env (refresh env g c b.db name) g c = shownName env b.db g c :=
        funext fun w => congrArg (Option.getD · "????") (matchedName_refresh name w)
      rw [hsame] at hnames
      refine ⟨(name, shownStatus env b.db g c name) :: names, t, ?_, by
        simp [hnames, shownName, hm]⟩
      simp [Sql.run_bind, run_getPlayerStatus, hrun]

/-- An upload answers with all the names, or with none. -/
theorem run_partyUpload_reply {words : List String} {b : Bot} (hc : getCTAID b.db g = some c)
    (hn : getAsInt n = some n) (hlen : words = [] ∨ words.length = 20) :
    let reply := ((partyUploadCommand env g n (.words words)).run [] b).1
    (words = [] ∧ reply = .ok sendNoValidNamesFoundMessage) ∨ (words ≠ [] ∧ ∃ names,
      reply = .ok (.detected n names) ∧
        names.map Prod.fst = words.map (shownName env b.db g c)) := by
  obtain ⟨names, t, hrun, hnames⟩ := run_getValidNames_names env words b
  have hlength : names.length = words.length := by simpa using congrArg List.length hnames
  simp only [partyUploadCommand, hn, read, Sql.bind_eq, Sql.run_query_bind, hc, uploadParty]
  rw [Sql.run_bind, hrun]
  rcases hlen with rfl | hlen
  · left
    obtain rfl : names = [] := List.length_eq_zero_iff.1 hlength
    exact ⟨rfl, by simp [write]⟩
  · have hne : names ≠ [] := fun h => by simp [h, hlen] at hlength
    refine .inr ⟨fun h => by simp [h] at hlen, names, ?_, hnames⟩
    have henough : ¬names.length < 20 := by omega
    simp [write, hne, henough, Sql.run_bind, run_addPlayersToParty]

end

end GuildBot

/-! ### `/lootsplit party upload` -/

namespace LootSplit

section
variable (env : Env) (uploadId : String) {g : ℤ} {splitId : String} {words : List String} {b : Bot}

theorem run_lootSplitPartyUpload_reply (hs : getLootSplitId b.db g = some splitId)
    (hlen : words = [] ∨ words.length = 20) :
    let reply := ((lootSplitPartyUploadCommand env g uploadId (some words)).run [] b).1
    (words = [] ∧ reply = .ok sendNoValidNamesFoundMessage) ∨
      (words ≠ [] ∧ reply = .ok (.detected (words.map (spelled env.toRuntime b.db g)))) := by
  simp only [lootSplitPartyUploadCommand, read, Sql.bind_eq, Sql.run_query_bind, hs]
  rw [Sql.run_bind, run_validNames]
  rcases hlen with rfl | hlen
  · exact .inl ⟨rfl, rfl⟩
  · have hne : words ≠ [] := fun h => by simp [h] at hlen
    refine .inr ⟨hne, ?_⟩
    simp [hne, hlen, Sql.run_bind, run_executeBatch]

end

end LootSplit

section
variable {Img Mat α : Type} {v : Vision Img Mat} {img : Img} {words : List String}

theorem showsCells_map (h : extractNamesFromPartyImage v img = some words) (hne : words ≠ [])
    (shown : String → α) : ShowsCells v img shown (leftAndRight (words.map shown)) := by
  rcases reads_of_extract h with ⟨hnil, -⟩ | ⟨screenshot, word, ls, rs, hheading, hreads⟩
  · exact absurd hnil hne
  · refine ⟨screenshot, word, ls, rs, hheading, hreads.texts, ?_⟩
    rw [leftAndRight_map, hreads.names]

end

end AtomComm
