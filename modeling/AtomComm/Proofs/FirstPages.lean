import AtomComm.Proofs.PageBuilders
import AtomComm.Proofs.Leaderboard
import AtomComm.Proofs.RosterUpload
import AtomComm.Proofs.Parsers
import AtomComm.Sanity.Calendar
import AtomComm.Spec.GuildBot.Paginators

/-! Whether there is a first page. `sendInitialMessage` takes the current page of a new
paginator without asking how many it has. The check of a guild, the list of CTAs and the
upload to a loot split make a page that says so when there is nothing to list, and the list
of sessions is guarded; the two uploads of a guild list and the leaderboard are not. -/

namespace AtomComm

open Paging Text

/-- Neither is the list null, nor does the paginator over it look past its end. -/
def Sendable {ε : Type} (pages : Option (List ε)) : Prop :=
  ∃ embeds, pages = some embeds ∧
    ∀ id authorID, (⟨id, authorID, embeds, 0⟩ : GuildBot.Paginator ε).sendInitialMessage.isSome

theorem sendable_some {ε : Type} {embeds : List ε} : Sendable (some embeds) ↔ embeds ≠ [] := by
  cases embeds with
  | nil =>
    simp [Sendable, GuildBot.Paginator.sendInitialMessage, GuildBot.Paginator.getCurrentEmbed]
  | cons page pages =>
    simp [Sendable, GuildBot.Paginator.sendInitialMessage, GuildBot.Paginator.getCurrentEmbed]

/-- The lists that the program hands on have a first page under the condition, and only then. -/
def OpensIff {σ ε : Type} (p : Sql σ (List ε)) (cond : List Bool → σ → Prop) : Prop :=
  ∀ fs s pages t, p.run fs s = (.ok pages, t) → (Sendable (some pages) ↔ cond fs s)

/-! ### Texts with a member -/

/-- The second line has a cell. -/
def HasEntry (delimiter : List Char) (isFile : Bool) (text : String) : Prop :=
  (result delimiter isFile text.toList).getD 1 [] ≠ []

instance (delimiter : List Char) (isFile : Bool) (text : String) :
    Decidable (HasEntry delimiter isFile text) := inferInstanceAs (Decidable (_ ≠ _))

theorem places_of_nil {rows : List (List (List Char))} (h : rows.getD 1 [] = []) :
    places rows = [] := by
  rw [places, h, List.flatMap_eq_nil_iff]
  exact fun _ _ => rfl

/-- The first place that the loops get to is the first cell of the second line. -/
theorem places_of_ne_nil {rows : List (List (List Char))} (h : rows.getD 1 [] ≠ []) :
    ∃ cell row rest, places rows = ⟨cell :: row, 1, 0⟩ :: rest := by
  rcases rows with _ | ⟨header, _ | ⟨row, rows⟩⟩
  · exact absurd rfl h
  · exact absurd rfl h
  · obtain ⟨cell, row, rfl⟩ := List.exists_cons_of_ne_nil h
    have hhead : (places (header :: (cell :: row) :: rows)).head? = some ⟨cell :: row, 1, 0⟩ := by
      simp [places, List.range_succ_eq_map]
    obtain ⟨rest, hrest⟩ := List.head?_eq_some_iff.1 hhead
    exact ⟨cell, row, rest, hrest⟩

/-- A loop that reads the first cell into a list keeps that list from being empty. -/
theorem sweep_places_ne_nil {σ α : Type} {body : Place → σ → Option σ} (field : σ → List α) {s : σ}
    {rows : List (List (List Char))} (hs : field s = [])
    (hfirst : ∀ cell row, ∃ t, body ⟨cell :: row, 1, 0⟩ s = some t ∧ field t ≠ [])
    (hkeep : ∀ p s t, field s ≠ [] → body p s = some t → field t ≠ []) :
    field (sweep body (places rows) s).1 ≠ [] ↔ rows.getD 1 [] ≠ [] := by
  by_cases h : rows.getD 1 [] = []
  · rw [places_of_nil h]
    exact iff_of_false (fun hne => hne hs) (fun hne => hne h)
  · obtain ⟨cell, row, rest, hplaces⟩ := places_of_ne_nil h
    obtain ⟨t, ht, hne⟩ := hfirst cell row
    rw [hplaces, sweep, ht]
    exact iff_of_true (sweep_invariant (I := fun s => field s ≠ [])
      (fun p _ s t hs hp => hkeep p s t hs hp) hne) h

theorem parsePlayers_ne_nil {delimiter : List Char} {isFile : Bool} {text : String} :
    LootSplit.parsePlayers delimiter isFile text ≠ [] ↔ HasEntry delimiter isFile text := by
  apply sweep_places_ne_nil id rfl
  · intro cell row
    exact ⟨[String.ofList cell], rfl, by simp⟩
  · intro p s t hs hp
    unfold LootSplit.readPlayer at hp
    split at hp
    · obtain ⟨cell, -, rfl⟩ := Option.map_eq_some_iff.1 hp
      simp
    · cases hp
      exact hs

theorem charNames_ne_nil (env : GuildBot.Env) (now : ℕ → String) {isFile : Bool} {text : String} :
    (GuildBot.parseText env now isFile text).charNames ≠ [] ↔
      HasEntry ['"', '\t', '"'] isFile text := by
  apply sweep_places_ne_nil GuildBot.Roster.charNames rfl
  · intro cell row
    exact ⟨⟨[String.ofList cell], [], []⟩, rfl, by simp⟩
  · intro p s t hs hp
    unfold GuildBot.readCell at hp
    split at hp
    · obtain ⟨names, hadd, rfl⟩ := Option.map_eq_some_iff.1 hp
      obtain ⟨cell, -, rfl⟩ := Option.map_eq_some_iff.1 hadd
      simp
    · obtain ⟨cell, -, hcell⟩ := Option.bind_eq_some_iff.1 hp
      split at hcell
      · obtain ⟨names, -, rfl⟩ := Option.map_eq_some_iff.1 hcell
        exact hs
      · cases hcell
        exact hs
    · cases hp
      exact hs

namespace GuildBot

/-! ### The attendance bot -/

section
variable {env : Env} {fmt : Formatter} {g : ℤ} {ctaID : Option String} {charNames : List String}

theorem pagesOf_eq_nil {users : List (String × String)} :
    GuildUploadHelper.pagesOf charNames users = [] ↔ users = [] := by
  rw [GuildUploadHelper.pagesOf, loop_eq_nil, Nat.le_zero, List.length_eq_zero_iff]

theorem users_ne_nil {db : DB} : getUsersWithLastSeenForGuildOrderedDesc db g ctaID ≠ [] ↔
    ∃ r ∈ db.users.vals, r.guildId = g ∧ some r.ctaId = ctaID := by
  rw [getUsersWithLastSeenForGuildOrderedDesc, Ne, List.map_eq_nil_iff, ← List.length_eq_zero_iff,
    List.length_insertionSort, List.length_eq_zero_iff, Table.select, List.filter_eq_nil_iff]
  simp

/-- The upload of a guild list shows the rows there are when they are asked for. -/
theorem guildUpload_opens : OpensIff (GuildUploadHelper.getPaginatorEmbed g ctaID charNames)
    fun fs b => fs.headD false = false ∧
      ∃ r ∈ b.db.users.vals, r.guildId = g ∧ some r.ctaId = ctaID := by
  intro fs b pages t h
  unfold GuildUploadHelper.getPaginatorEmbed GuildUploadHelper.getUsersWithLastSeenOrdered read at h
  rw [Sql.bind_eq, Sql.bind_eq, Sql.run_query_tryCatch_bind] at h
  rw [sendable_some]
  dsimp only at h ⊢
  split at h
  · rename_i hfault
    have hpages : GuildUploadHelper.pagesOf charNames [] = pages := by simpa using congrArg Prod.fst h
    rw [← hpages, Ne, pagesOf_eq_nil, hfault]
    simp
  · rename_i hfault
    cases hread : (getUsersWithLastSeenForGuildOrderedDesc b.db g ctaID).mapM fun user =>
        readUser (userLine user) with
    | none =>
      rw [hread] at h
      simp [Sql.tryCatch] at h
    | some users =>
      have hlen : users = [] ↔ getUsersWithLastSeenForGuildOrderedDesc b.db g ctaID = [] := by
        have hmap := congrArg List.length (mapM_eq_some.1 hread)
        rw [List.length_map, List.length_map] at hmap
        rw [← List.length_eq_zero_iff, ← List.length_eq_zero_iff, hmap]
      rw [hread] at h
      have hpages : GuildUploadHelper.pagesOf charNames users = pages := by
        simpa [Sql.tryCatch] using congrArg Prod.fst h
      rw [← hpages, ← users_ne_nil, Ne, pagesOf_eq_nil, hlen]
      exact (and_iff_right (Bool.eq_false_iff.2 hfault)).symm

theorem items_eq_nil {names lastSeen : List String} : items names lastSeen = [] ↔ names = [] := by
  cases names <;> cases lastSeen <;> simp [items]

theorem exists_uploaded {c : String} {names lastSeen : List String}
    (hall : ∀ x ∈ items names lastSeen, (dated x).isSome = true) (online : List String)
    (users : Table Member) :
    (∃ r ∈ ((relisted g c (readable (items names lastSeen)) users).mapRows (marked g c online)).vals,
      r.guildId = g ∧ some r.ctaId = some c) ↔ names ≠ [] := by
  have hlen := length_readable hall
  have hrows : (((relisted g c (readable (items names lastSeen)) users).mapRows
      (marked g c online)).select fun r => r.inCTA g c) ≠ [] ↔ names ≠ [] := by
    rw [select_marked, select_relisted, Ne, List.map_eq_nil_iff, List.map_eq_nil_iff,
      ← List.length_eq_zero_iff, hlen, List.length_eq_zero_iff, items_eq_nil]
  rw [← hrows, Table.select, Ne, List.filter_eq_nil_iff]
  simp [Member.inCTA]

/-- The rows that a text has made, if it got to its pages. -/
theorem guildEmbeds_opens {now : ℕ → String} {isFile : Bool} {text : String} {b t : Bot}
    {pages : List MessageEmbed}
    (h : (GuildUploadHelper.guildEmbeds env now isFile text g ctaID).run [] b = (.ok pages, t)) :
    Sendable (some pages) ↔ ctaID ≠ none ∧ HasEntry ['"', '\t', '"'] isFile text := by
  rw [← charNames_ne_nil env now]
  unfold GuildUploadHelper.guildEmbeds at h
  dsimp only at h
  rw [Sql.bind_eq, Sql.run_bind] at h
  generalize parseText env now isFile text = roster at *
  cases ctaID with
  | none =>
    -- nothing is written, and the query for a null id finds nothing
    rw [(guildUpload_opens [] b pages t h : Sendable (some pages) ↔ _)]
    simp
  | some ctaID =>
    rw [run_uploadUsers] at h
    by_cases hall : ∀ x ∈ items roster.charNames roster.lastSeen, (dated x).isSome = true
    · rw [if_pos hall] at h
      rw [(guildUpload_opens [] _ pages t h : Sendable (some pages) ↔ _)]
      have hrows := exists_uploaded (g := g) (c := ctaID) hall roster.onlineUsers b.db.users
      exact (and_iff_right rfl).trans (hrows.trans (and_iff_right (Option.some_ne_none _)).symm)
    · rw [if_neg hall] at h
      cases h

/-- The check of a guild has a page for the case that nobody is listed. -/
theorem guildCheck_opens {ctaID : String} :
    OpensIff (getPaginatorEmbed fmt env g ctaID) fun _ _ => True := by
  have hpages : ∀ absentees parties n k, (pagesFrom fmt env g ctaID absentees parties k n).Returns
      fun pages => pages.length = n := by
    intro absentees parties n
    induction n with
    | zero => exact fun _ => rfl
    | succ n ih =>
      intro k
      refine (Sql.returns_any (checkPage fmt env g ctaID absentees parties k)).bind fun page _ => ?_
      exact (ih (k + 1)).bind fun pages hlen => congrArg (· + 1) hlen
  have hreturns : (getPaginatorEmbed fmt env g ctaID).Returns (· ≠ []) := by
    refine Sql.Returns.tryCatch ?_ fun _ => trivial
    refine (Sql.returns_any (read (getAbsentees · g ctaID))).bind fun absentees _ => ?_
    refine (Sql.returns_any (read (getParties · ctaID g))).bind fun parties _ => ?_
    split
    · exact List.cons_ne_nil _ _
    · rename_i hsome
      have hpos : 0 < parties.length + absenteesPagesCount absentees := by
        unfold absenteesPagesCount namesPerPage
        rw [← List.length_eq_zero_iff, ← List.length_eq_zero_iff] at hsome
        omega
      refine Sql.Returns.imp (hpages absentees parties _ 0) fun pages hlen => ?_
      exact List.ne_nil_of_length_pos (hlen ▸ hpos)
  intro fs b pages t h
  exact iff_of_true (sendable_some.2 (hreturns.run h)) trivial

/-- The list of CTAs is null only for a date that cannot be read. -/
theorem ctas_opens {capitalize : String → String} {ctas : List CtaInfo} :
    Sendable (CTA.getCTAsListPaginator capitalize ctas) ↔ ∀ cta ∈ ctas, cta.Dated := by
  by_cases hne : ctas = []
  · rw [hne, CTA.getCTAsListPaginator, if_pos rfl, sendable_some]
    simp
  · constructor
    · rintro ⟨embeds, hembeds, -⟩ cta hcta
      rw [getCTAsListPaginator_eq hne, mapM_eq_some] at hembeds
      rw [← (paged_chunks (by decide) ctas : Paged 5 _ _).flatten] at hcta
      obtain ⟨c, hc, hmem⟩ := List.mem_flatten.1 hcta
      obtain ⟨p, hp, rfl⟩ := List.getElem_of_mem hc
      have hlist : CTA.listPage capitalize (chunks 5 ctas)[p] (pageFooter p (ceilDiv ctas.length 5)) ∈
          embeds.map some := by
        rw [hembeds, List.map_id]
        exact List.mem_mapIdx.2 ⟨p, hp, rfl⟩
      obtain ⟨page, -, hpage⟩ := List.mem_map.1 hlist
      obtain ⟨fields, hfields, -⟩ := Option.map_eq_some_iff.1 hpage.symm
      have hfield : CTA.addField capitalize cta ∈ fields.map some := by
        rw [mapM_eq_some.1 hfields]
        exact List.mem_map_of_mem hmem
      obtain ⟨field, -, hsome⟩ := List.mem_map.1 hfield
      exact addField_isSome.1 (by rw [← hsome, Option.isSome_some])
    · intro hdated
      obtain ⟨pages, hpages, ⟨cs, hpaged, hcontents⟩, -⟩ :=
        getCTAsListPaginator_dated capitalize hne hdated
      rw [hpages, sendable_some]
      rintro rfl
      apply hne
      rw [← hpaged.flatten, List.map_eq_nil_iff.1 hcontents.symm]
      rfl

/-- All that are stored can be read. -/
theorem dated_of_stored {db : DB} (h : ∀ r ∈ db.cta.vals, r.guildId = g →
    LocalDateTime.Stored r.startTime ∧ LocalDateTime.Stored r.endTime) :
    ∀ cta ∈ (getAllCTAs db g).map ctaInfo, cta.Dated := by
  intro cta hcta
  obtain ⟨row, hrow, rfl⟩ := List.mem_map.1 hcta
  obtain ⟨r, hr, rfl⟩ := List.mem_map.1 hrow
  obtain ⟨hmem, hg⟩ := List.mem_filter.1 hr
  obtain ⟨hstart, hend⟩ := h r hmem (of_decide_eq_true hg)
  exact ⟨LocalDateTime.getInstantFromString_isSome hstart,
    LocalDateTime.getInstantFromString_isSome hend⟩

end

end GuildBot

namespace LootSplit

/-! ### The loot split bot -/

theorem guildList_opens {guildName : String} {isFile : Bool} {text : String} :
    Sendable (some (GuildUploadHelper.getPaginatorEmbed guildName
      (GuildUploadHelper.parseText isFile text))) ↔
        HasEntry ['"', ' ', ' ', ' ', ' ', '"'] isFile text := by
  rw [sendable_some, GuildUploadHelper.getPaginatorEmbed, Ne, loop_eq_nil, Nat.le_zero,
    List.length_eq_zero_iff]
  exact parsePlayers_ne_nil

theorem pagesOf_cons {users : List String} (h : users ≠ []) : ∃ page pages,
    LootSplitGuildUploadHelper.pagesOf users = page :: pages ∧
      page.description = playersContent users.length (users.take 10) := by
  have hpos := List.length_pos_of_ne_nil h
  have hentries : (entriesFrom users 0 usersPerPage).map Prod.fst = users.take 10 := by
    rw [entriesFrom_eq, List.drop_zero, List.map_take, List.zipIdx_map_fst]
    rfl
  rw [LootSplitGuildUploadHelper.pagesOf, loop, if_pos hpos]
  exact ⟨_, _, rfl, by rw [hentries]⟩

/-- The upload to a loot split has a page for the case that nobody is registered, but what is
thrown on the way to the first page leaves none. -/
theorem lootSplitUpload_opens {accepts : String → Bool} {uploadID splitID : String} {guildID : ℤ} :
    OpensIff (LootSplitGuildUploadHelper.getPaginatorEmbed accepts uploadID splitID guildID)
      fun fs b =>
        let added := getLootSplitPlayersWithUploadId b.db uploadID splitID guildID
        fs.headD false = false ∧
          (added = [] ∨ accepts (playersContent added.length (added.take 10))) := by
  intro fs b pages t h
  unfold LootSplitGuildUploadHelper.getPaginatorEmbed read at h
  rw [← Sql.bind_ret (Sql.tryCatch _ _), Sql.bind_eq, Sql.run_query_tryCatch_bind] at h
  rw [sendable_some]
  dsimp only at h ⊢
  split at h
  · rename_i hfault
    have hpages : [] = pages := by simpa using congrArg Prod.fst h
    rw [← hpages, hfault]
    simp
  · rename_i hfault
    rw [and_iff_right (Bool.eq_false_iff.2 hfault)]
    by_cases hnone : getLootSplitPlayersWithUploadId b.db uploadID splitID guildID = []
    · rw [if_pos hnone] at h
      have hpages : [LootSplitGuildUploadHelper.noUsersPage] = pages := by
        simpa [Sql.tryCatch] using congrArg Prod.fst h
      rw [← hpages]
      exact iff_of_true (List.cons_ne_nil _ _) (.inl hnone)
    · obtain ⟨page, rest, hcons, hdescription⟩ := pagesOf_cons hnone
      rw [if_neg hnone] at h
      have hpages : (page :: rest).takeWhile (fun page => accepts page.description) = pages := by
        simpa [Sql.tryCatch, hcons] using congrArg Prod.fst h
      rw [← hpages, or_iff_right hnone, ← hdescription, List.takeWhile_cons]
      split
      · exact iff_of_true (List.cons_ne_nil _ _) ‹_›
      · exact iff_of_false (fun hne => hne rfl) ‹_›

/-- A limit of fifty keeps the first row. -/
theorem topPlayers_eq_nil {db : DB} : (topPlayers db).entries = [] ↔ db.players.vals = [] := by
  constructor
  · intro h
    by_contra hne
    have hranked : 0 < (ranked db).length := by
      rw [ranked, List.length_mergeSort]
      exact List.length_pos_of_ne_nil fun hrows => hne (by rw [Table.vals, hrows]; rfl)
    have hfirst : (ranked db)[0] ∈ limit numberOfPlayersToDisplay (ranked db) := by
      rw [limit, if_neg (by decide)]
      exact List.mem_take_iff_getElem.2 ⟨0, by simp [numberOfPlayersToDisplay, hranked], rfl⟩
    obtain ⟨e, he, -⟩ := exists_collect (fun r => r.val.username) (fun r => r.val.balance) hfirst
    rw [← getLeaderboard_collect] at he
    have hmem : e ∈ (topPlayers db).entries := he
    rw [h] at hmem
    cases hmem
  · intro h
    have hnone : getLeaderboard db numberOfPlayersToDisplay = [] := by
      unfold getLeaderboard
      rw [h, List.mergeSort_nil]
      rfl
    exact hnone

theorem leaderboard_opens {formatter : DecimalFormat} {db : DB} :
    Sendable (leaderboardEmbeds formatter (topPlayers db)) ↔ db.players.vals ≠ [] := by
  rw [leaderboardEmbeds_eq, sendable_some, Ne, List.mapIdx_eq_nil_iff, chunks_eq_nil (by decide),
    List.zipIdx_eq_nil_iff, topPlayers_eq_nil]

theorem sessions_opens {toTitleCase : String → String}
    {sessions : List (String × String × Status)} (h : sessions ≠ []) :
    Sendable (some (createMessageEmbeds toTitleCase sessions)) := by
  rw [sendable_some, createMessageEmbeds_eq, Ne, List.map_eq_nil_iff, chunks_eq_nil (by decide)]
  exact h

end LootSplit

open LootSplit in
/-- When the lists that the seven builders hand to a paginator have a first page. -/
theorem first_page_iff (env : GuildBot.Env) (fmt : Formatter) (formatter : DecimalFormat)
    (capitalize toTitleCase : String → String) (accepts : String → Bool) :
    -- the upload of a guild list to the attendance bot, from its query and from its text
    (∀ g ctaID charNames,
      OpensIff (GuildBot.GuildUploadHelper.getPaginatorEmbed g ctaID charNames) fun fs b =>
        fs.headD false = false ∧ ∃ r ∈ b.db.users.vals, r.guildId = g ∧ some r.ctaId = ctaID) ∧
    (∀ now isFile text g ctaID b pages t,
      (GuildBot.GuildUploadHelper.guildEmbeds env now isFile text g ctaID).run [] b =
          (.ok pages, t) →
        (Sendable (some pages) ↔ ctaID ≠ none ∧ HasEntry ['"', '\t', '"'] isFile text)) ∧
    -- the check of a guild
    (∀ g ctaID, OpensIff (GuildBot.getPaginatorEmbed fmt env g ctaID) fun _ _ => True) ∧
    -- the list of CTAs
    (∀ g (db : GuildBot.DB),
      (Sendable (GuildBot.CTA.getCTAsListPaginator capitalize
          ((GuildBot.getAllCTAs db g).map GuildBot.ctaInfo)) ↔
        ∀ cta ∈ (GuildBot.getAllCTAs db g).map GuildBot.ctaInfo, cta.Dated) ∧
      ((∀ r ∈ db.cta.vals, r.guildId = g → GuildBot.LocalDateTime.Stored r.startTime ∧
          GuildBot.LocalDateTime.Stored r.endTime) →
        Sendable (GuildBot.CTA.getCTAsListPaginator capitalize
          ((GuildBot.getAllCTAs db g).map GuildBot.ctaInfo)))) ∧
    -- the upload of a guild list to the loot split bot
    (∀ guildName isFile text, Sendable (some (GuildUploadHelper.getPaginatorEmbed guildName
        (GuildUploadHelper.parseText isFile text))) ↔
      HasEntry ['"', ' ', ' ', ' ', ' ', '"'] isFile text) ∧
    -- the upload to a loot split
    (∀ uploadID splitID guildID,
      OpensIff (LootSplitGuildUploadHelper.getPaginatorEmbed accepts uploadID splitID guildID)
        fun fs b =>
          let added := getLootSplitPlayersWithUploadId b.db uploadID splitID guildID
          fs.headD false = false ∧
            (added = [] ∨ accepts (playersContent added.length (added.take 10)))) ∧
    -- the leaderboard, and the list of sessions behind its guard
    (∀ db, Sendable (leaderboardEmbeds formatter (topPlayers db)) ↔ db.players.vals ≠ []) ∧
    ∀ sessions, sessions ≠ [] → Sendable (some (createMessageEmbeds toTitleCase sessions)) :=
  ⟨fun _ _ _ => GuildBot.guildUpload_opens, fun _ _ _ _ _ _ _ _ => GuildBot.guildEmbeds_opens,
    fun _ _ => GuildBot.guildCheck_opens,
    fun _ _ => ⟨GuildBot.ctas_opens, fun h => GuildBot.ctas_opens.2 (GuildBot.dated_of_stored h)⟩,
    fun _ _ _ => guildList_opens, fun _ _ _ => lootSplitUpload_opens, fun _ => leaderboard_opens,
    fun _ => sessions_opens⟩

/-- A guild without members, the list of a CTA and that of a session. -/
theorem first_page_guarded :
    Sendable (some [(⟨"Check Guild Members", "No online members in the guild have been detected.",
      none⟩ : MessageEmbed)]) ∧
      Sendable (GuildBot.CTA.getCTAsListPaginator id
        ((GuildBot.getAllCTAs (GuildBot.endState [GuildBot.startCTA]).db 1).map GuildBot.ctaInfo)) ∧
      Sendable (some (LootSplit.createMessageEmbeds id [("Raid", "S1", .active)])) := by
  obtain ⟨-, -, hcheck, hlist, -, -, -, hsessions⟩ := first_page_iff GuildBot.Env.ascii
    Formatter.plain ⟨toString, fun _ => ""⟩ id id fun _ => true
  exact ⟨(hcheck 1 "CTA1" [] GuildBot.Bot.empty _ _ rfl).2 trivial,
    (hlist 1 _).2 (by decide +kernel), hsessions _ (by simp)⟩

/-- Nobody is on the leaderboard yet, a list has its header only, or there is no CTA. -/
theorem first_page_missing :
    ¬Sendable (LootSplit.leaderboardEmbeds ⟨toString, fun _ => ""⟩
        (LootSplit.topPlayers LootSplit.DB.empty)) ∧
      LootSplit.leaderboardCommand.run [] LootSplit.Bot.empty =
        (.error .runtime, LootSplit.Bot.empty) ∧
      ¬Sendable (some (LootSplit.GuildUploadHelper.getPaginatorEmbed "Guild"
        (LootSplit.GuildUploadHelper.parseText true "\"Character Name\""))) ∧
      ∃ pages t, (GuildBot.GuildUploadHelper.guildEmbeds GuildBot.Env.ascii (fun _ => "") true
          "\"Character Name\"\n\"Bobby\"" 1 none).run [] GuildBot.Bot.empty = (.ok pages, t) ∧
        ¬Sendable (some pages) := by
  have hnone : LootSplit.getLeaderboard LootSplit.DB.empty 50 = [] :=
    LootSplit.topPlayers_eq_nil.2 rfl
  refine ⟨fun h => LootSplit.leaderboard_opens.1 h rfl, ?_, ?_, ?_⟩
  · unfold LootSplit.leaderboardCommand LootSplit.read
    rw [Sql.bind_eq, Sql.run_query_bind]
    exact congrArg (Sql.run [] · LootSplit.Bot.empty) (if_pos hnone)
  · rw [LootSplit.guildList_opens]
    decide +kernel
  · obtain ⟨pages, t, h⟩ : ∃ pages t, (GuildBot.GuildUploadHelper.guildEmbeds GuildBot.Env.ascii
        (fun _ => "") true "\"Character Name\"\n\"Bobby\"" 1 none).run [] GuildBot.Bot.empty =
          (.ok pages, t) := ⟨_, _, rfl⟩
    exact ⟨pages, t, h, fun hpage => ((GuildBot.guildEmbeds_opens h).1 hpage).1 rfl⟩

end AtomComm
