import AtomComm.Proofs.RosterText
import AtomComm.Proofs.RosterUpload
import AtomComm.Proofs.Parsers
import AtomComm.Proofs.GuildList
import AtomComm.Proofs.TimeTexts
import AtomComm.Sanity.Uploads

/-! The exported list of a guild, from its text to the tables of both bots. The text is read by
the three parsers, in a file or pasted into a command, and what is read is uploaded: to the CTA
that runs, to the guild's list of players, and to the loot split that is open. -/

namespace AtomComm.GuildBot

/-! ### The roster of a CTA -/

/-- The text of a list, in a file or to be pasted. -/
def exportedText (isFile : Bool) (header : Record) (records : List Record) : String :=
  if isFile then fileText header records else pastedText header records

namespace Record

/-- When the member was last seen, the clock showing `clock k` as row `k` is read. -/
def seen (env : Env) (clock : ℕ → ℤ) (r : Record) (k : ℕ) : Option ℤ :=
  if r.isOnline env then some (clock k / 1000000000 * 1000000000)
  else getInstantFromString r.lastSeen

/-- A record of that name is online. -/
def listsOnline (env : Env) (records : List Record) (charName : String) : Bool :=
  records.any fun r => r.charName = charName && r.isOnline env

/-- The row that stands for the record in the CTA. -/
def standing (env : Env) (g : ℤ) (c : String) (records : List Record) (r : Record) (seen : ℤ) :
    Member :=
  ⟨r.charName, c, seen, g, if listsOnline env records r.charName then .absent else .offline, none⟩

end Record

section Roster
variable {env : Env} {b : Bot} {g : ℤ} {c : String} {clock : ℕ → ℤ} {header : Record}
  {records : List Record} {seens : List ℤ} {roster : Roster} {entries : List (String × ℤ)}

theorem parse_exported {now : ℕ → String} (hh : ∀ s ∈ header.cells, Cell s)
    (hr : ∀ r ∈ records, r.Valid) (isFile : Bool) :
    parseText env now isFile (exportedText isFile header records) =
      rosterFrom env now 1 records := by
  cases isFile with
  | true => exact parse_file hh hr
  | false => exact parse_pasted hh hr

theorem length_seens
    (h : (records.zipIdx 1).map (fun x => x.1.seen env clock x.2) = seens.map some) :
    seens.length = records.length := by
  simpa using (congrArg List.length h).symm

theorem dated_rosterFrom (hclock : ∀ k, LocalDateTime.Stored (clock k))
    (h : (records.zipIdx 1).map (fun x => x.1.seen env clock x.2) = seens.map some) :
    let roster := rosterFrom env (fun k => getStringFromInstant (clock k)) 1 records
    (items roster.charNames roster.lastSeen).map dated =
      ((records.zip seens).map fun x => (x.1.charName, x.2)).map some := by
  have hlen := length_seens h
  refine items_dated ?_ ?_
  · rw [List.map_map]
    calc records.map Record.charName
        = ((records.zip seens).map Prod.fst).map Record.charName := by
          rw [List.map_fst_zip hlen.ge]
      _ = _ := List.map_map
  · calc _ = (records.zipIdx 1).map fun x => x.1.seen env clock x.2 := by
          rw [rosterFrom, List.map_map]
          refine List.map_congr_left fun x _ => ?_
          simp only [Function.comp, Record.seen]
          split
          · exact LocalDateTime.getInstantFromString_printed (hclock x.2)
          · rfl
      _ = ((records.zip seens).map Prod.snd).map some := by
          rw [h, List.map_snd_zip hlen.le]
      _ = _ := by
          rw [List.map_map, List.map_map]
          rfl

/-- The bot after an upload of which every date was read. -/
def uploaded (g : ℤ) (c : String) (entries : List (String × ℤ)) (online : List String) (b : Bot) :
    Bot :=
  { b with db := postProcessUsersTable { b.db with
    users := (relisted g c entries b.db.users).mapRows (marked g c online) } }

theorem run_uploadUsers_dated
    (h : (items roster.charNames roster.lastSeen).map dated = entries.map some) :
    (uploadGuildUploadUsers g roster (some c)).run [] b =
      (.ok (), uploaded g c entries roster.onlineUsers b) := by
  have hall : ∀ x ∈ items roster.charNames roster.lastSeen, (dated x).isSome = true := by
    intro x hx
    obtain ⟨e, -, he⟩ := List.mem_map.1 (h ▸ List.mem_map_of_mem (f := dated) hx)
    rw [← he]
    rfl
  have hreadable : readable (items roster.charNames roster.lastSeen) = entries :=
    List.map_injective_iff.2 (Option.some_injective _) ((front_map hall).trans h)
  have hrun := run_uploadUsers (b := b) (g := g) (c := c) roster
  dsimp only at hrun
  rwa [if_pos hall, hreadable] at hrun

theorem listed_uploaded (entries : List (String × ℤ)) (online : List String) :
    listed (uploaded g c entries online b).db g c = entries.map fun e =>
      ⟨e.1, c, e.2, g, if e.1 ∈ online then .absent else .offline, none⟩ := by
  show ((Table.mapRows _ _).select _) = _
  rw [select_marked, select_relisted, List.map_map]
  refine List.map_congr_left fun e _ => ?_
  by_cases hon : e.1 ∈ online
  · simp [marked, rowOf, Member.inCTA, hon]
  · simp [marked, rowOf, Member.inCTA, hon]

theorem elsewhere_uploaded (online : List String) :
    elsewhere g c (uploaded g c entries online b).db.users = elsewhere g c b.db.users := by
  show elsewhere g c (Table.mapRows _ _) = _
  rw [elsewhere_marked, relisted, elsewhere_insert, elsewhere_delete]

theorem getUsersWithLastSeen_eq (db : DB) : getUsersWithLastSeenForGuildOrderedDesc db g (some c) =
    ((listed db g c).insertionSort fun r r' => r'.lastSeen ≤ r.lastSeen).map
      fun r => (r.charName, r.lastSeen) := by
  rw [getUsersWithLastSeenForGuildOrderedDesc, listed]
  simp only [Option.some.injEq]
  rfl

/-- The listing that the paginator is given. -/
theorem run_sendGuildUploadPaginator {t : Bot} (hne : listed t.db g c ≠ []) :
    ∃ users, (sendGuildUploadPaginator g (some c)).run [] t = (.ok (.users users), t) ∧
      users.Perm ((listed t.db g c).map fun r => (r.charName, r.lastSeen)) ∧
      users.Pairwise fun e e' => e'.2 ≤ e.2 := by
  refine ⟨getUsersWithLastSeenForGuildOrderedDesc t.db g (some c), ?_, ?_, ?_⟩
  · have hsome : getUsersWithLastSeenForGuildOrderedDesc t.db g (some c) ≠ [] := by
      rw [getUsersWithLastSeen_eq, Ne, List.map_eq_nil_iff, ← List.length_eq_zero_iff,
        List.length_insertionSort, List.length_eq_zero_iff]
      exact hne
    simp [sendGuildUploadPaginator, read, Sql.run_bind, Sql.run_tryCatch, hsome]
  · rw [getUsersWithLastSeen_eq]
    exact (List.perm_insertionSort _ _).map _
  · rw [getUsersWithLastSeen_eq, List.pairwise_map]
    exact List.pairwise_insertionSort _ _

theorem calcCTAStats_eq (db : DB) : calcCTAStats db c g =
    ((listed db g c).countP fun r => r.status = .present,
      (listed db g c).countP fun r => r.status = .late,
      (listed db g c).countP fun r => r.status = .absent) := by
  have hcount : ∀ s : Status,
      (db.users.count fun r => r.ctaId = c && r.guildId = g && r.status = s) =
        (listed db g c).countP fun r => r.status = s := by
    intro s
    rw [Table.count_select (s := fun r => r.inCTA g c)]
    · refine List.countP_congr fun r hr => ?_
      have hcta : r.inCTA g c = true := (List.mem_filter.1 hr).2
      simp only [Member.inCTA, Bool.and_eq_true, decide_eq_true_eq] at hcta
      simp [hcta]
    · intro r hr
      simp only [Bool.and_eq_true, decide_eq_true_eq] at hr
      simp [Member.inCTA, hr]
  simp only [calcCTAStats, hcount]

theorem run_uploadRoster (hne : entries ≠ [])
    (h : (items roster.charNames roster.lastSeen).map dated = entries.map some) :
    ∃ users, (uploadRoster g (some c) roster).run [] b =
        (.ok (.users users), uploaded g c entries roster.onlineUsers b) ∧
      users.Perm entries ∧ users.Pairwise fun e e' => e'.2 ≤ e.2 := by
  have hlisted := listed_uploaded (b := b) (g := g) (c := c) entries roster.onlineUsers
  have hrows : listed (uploaded g c entries roster.onlineUsers b).db g c ≠ [] := by
    rw [hlisted]
    exact fun hnil => hne (List.map_eq_nil_iff.1 hnil)
  obtain ⟨users, hsend, hperm, hsorted⟩ := run_sendGuildUploadPaginator hrows
  refine ⟨users, ?_, ?_, hsorted⟩
  · rw [uploadRoster, Sql.bind_eq, Sql.run_bind, run_uploadUsers_dated h]
    exact hsend
  · rw [hlisted, List.map_map] at hperm
    simpa [Function.comp_def] using hperm

/-- The rows that stand for the records. -/
theorem listed_records (now : ℕ → String) :
    listed (uploaded g c ((records.zip seens).map fun x => (x.1.charName, x.2))
      (rosterFrom env now 1 records).onlineUsers b).db g c =
        (records.zip seens).map fun x => Record.standing env g c records x.1 x.2 := by
  rw [listed_uploaded, List.map_map]
  refine List.map_congr_left fun x _ => ?_
  have honline : x.1.charName ∈ (rosterFrom env now 1 records).onlineUsers ↔
      Record.listsOnline env records x.1.charName = true := by
    simp [rosterFrom, Record.listsOnline, and_comm, and_left_comm]
  simp only [Function.comp, Record.standing, honline]

/-- Whoever is online is absent as long as no party is uploaded. -/
theorem calcCTAStats_standing {db : DB} (hlen : seens.length = records.length)
    (h : listed db g c =
      (records.zip seens).map fun x => Record.standing env g c records x.1 x.2) :
    calcCTAStats db c g =
      (0, 0, records.countP fun r => Record.listsOnline env records r.charName) := by
  have hstatus : ∀ (p : Status → Bool), (listed db g c).countP (fun r => p r.status) =
      records.countP fun r =>
        p (if Record.listsOnline env records r.charName then .absent else .offline) := by
    intro p
    calc _ = (records.zip seens).countP fun x =>
            p (if Record.listsOnline env records x.1.charName then .absent else .offline) := by
          rw [h, List.countP_map]
          rfl
      _ = ((records.zip seens).map Prod.fst).countP fun r =>
            p (if Record.listsOnline env records r.charName then .absent else .offline) := by
          rw [List.countP_map]
          rfl
      _ = _ := by rw [List.map_fst_zip hlen.ge]
  rw [calcCTAStats_eq, hstatus (· = .present), hstatus (· = .late), hstatus (· = .absent)]
  refine Prod.ext ?_ (Prod.ext ?_ ?_)
  · rw [List.countP_eq_zero]
    intro r _
    split <;> decide
  · rw [List.countP_eq_zero]
    intro r _
    split <;> decide
  · refine List.countP_congr fun r _ => ?_
    split <;> simp_all

end Roster

/-- The time the clock showed, and the dates of the three members. -/
def exportClock (_ : ℕ) : ℤ := 1723651200500000000

def exportSeens : List ℤ := [1723648783000000000, 1723651200000000000, 1723651200000000000]

end AtomComm.GuildBot

namespace AtomComm.LootSplit

open GuildBot (Record Cell exportedText pastedText fileText Reads)

/-! ### The players and the members of a loot split -/

section Players
variable {header : Record} {records : List Record} {rows : List (List (List Char))}

theorem heads_reads (h : List.Forall₂ Reads records rows) :
    heads rows = records.map Record.charName := by
  induction h with
  | nil => rfl
  | cons hrow _ ih =>
    obtain ⟨rest, rfl⟩ := hrow
    rw [heads, ih, String.ofList_toList, List.map_cons]

theorem parse_exported (hh : ∀ s ∈ header.cells, Cell s) (hr : ∀ r ∈ records, r.Valid) :
    GuildUploadHelper.parseText false (exportedText false header records) =
        records.map Record.charName ∧
      ∀ isFile, LootSplitGuildUploadHelper.parseText isFile (exportedText isFile header records) =
        records.map Record.charName := by
  obtain ⟨row, rows, hpasted, hreads⟩ := GuildBot.result_pasted hh hr
  obtain ⟨row', rows', hfile, hreads'⟩ := GuildBot.result_file hh hr
  have hnames : ∀ delimiter, parsePlayers delimiter false (exportedText false header records) =
      records.map Record.charName := by
    intro delimiter
    rw [parsePlayers_eq, exportedText, if_neg Bool.false_ne_true, hpasted]
    exact heads_reads hreads
  refine ⟨hnames _, fun isFile => ?_⟩
  cases isFile with
  | false => exact hnames _
  | true =>
    rw [LootSplitGuildUploadHelper.parseText, parsePlayers_eq, exportedText, if_pos rfl, hfile]
    exact heads_reads hreads'

end Players

section Members
variable {b : Bot} {g : ℤ} {guildName uploadId splitId : String} {names : List String}

theorem mem_players_relist {w : String} (hw : w ∈ names) :
    ∃ q ∈ (relist guildName names g b.db.players).vals, q.guildId = g ∧ q.username = w := by
  by_cases hold : ∃ q ∈ b.db.players.vals, q.guildId = g ∧ q.guildName ≠ guildName ∧ q.username = w
  · obtain ⟨q, hq, hg, hn, hw⟩ := hold
    exact ⟨q, mem_relist.2 (.inl ⟨hq, fun _ => hn⟩), hg, hw⟩
  · refine ⟨_, mem_relist.2 (.inr ⟨w, hw, fun q hq hg hn hqw => ?_, rfl⟩), rfl, rfl⟩
    exact hold ⟨q, hq, hg, hn, hqw⟩

/-- The bot after the list was uploaded. -/
def withList (guildName : String) (names : List String) (g : ℤ) (b : Bot) : Bot :=
  { b with db := postProcessPlayersTable { b.db with
    players := relist guildName names g b.db.players } }

/-- The bot after the names were added to the loot split. -/
def withShares (uploadId splitId : String) (names : List String) (g : ℤ) (b : Bot) : Bot :=
  { b with db := postProcessPlayersTable { b.db with
    lootsplitPlayers := b.db.lootsplitPlayers.insertAll
      ((newMembers b.db splitId g names).map (splitRow uploadId splitId g)) } }

/-- The rows of an upload id that was never used before are the new ones. -/
theorem shown_withShares (h : ∀ m ∈ b.db.lootsplitPlayers.vals, m.uploadId ≠ uploadId) :
    getLootSplitPlayersWithUploadId (withShares uploadId splitId names g b).db uploadId splitId g =
      newMembers b.db splitId g names := by
  have hold : b.db.lootsplitPlayers.vals.filter (fun r => decide (r.uploadId = uploadId) &&
      decide (r.splitId = splitId) && decide (r.guildId = g)) = [] := by
    rw [List.filter_eq_nil_iff]
    exact fun m hm => by simp [h m hm]
  have hnew : ((newMembers b.db splitId g names).map (splitRow uploadId splitId g)).filter
      (fun r => decide (r.uploadId = uploadId) && decide (r.splitId = splitId) &&
        decide (r.guildId = g)) =
        (newMembers b.db splitId g names).map (splitRow uploadId splitId g) := by
    rw [List.filter_eq_self]
    intro m hm
    obtain ⟨w, -, rfl⟩ := List.mem_map.1 hm
    simp [splitRow]
  show (Table.select (Table.insertAll _ _) _).map SplitPlayer.username = _
  rw [Table.select, Table.vals_insertAll, List.filter_append, hold, hnew, List.nil_append,
    List.map_map]
  exact List.map_id _

theorem run_uploadSplitPlayers : (uploadSplitPlayers splitId uploadId names g).run [] b =
    (.ok (.players (getLootSplitPlayersWithUploadId (withShares uploadId splitId names g b).db
      uploadId splitId g)), withShares uploadId splitId names g b) := by
  unfold uploadSplitPlayers
  rw [Sql.bind_eq, Sql.run_bind, run_addSplitPlayers]
  rfl

theorem run_guildUploadCommand (hne : names ≠ []) :
    (guildUploadCommand g guildName (.text names)).run [] b =
      (.ok (.players names), withList guildName names g b) := by
  change ((uploadGuildUsers guildName names g).bind
    fun _ => sendGuildUploadPaginator names).run [] b = _
  rw [Sql.run_bind, run_uploadGuildUsers]
  show Sql.run [] (sendGuildUploadPaginator names) _ = _
  rw [sendGuildUploadPaginator, if_neg hne]
  rfl

end Members

/-- The same list makes its members players of the guild, and then members of the loot split that
is open: each name once, and none that has a share already. -/
theorem exported_list_shares {b : Bot} {g : ℤ} {splitId : String} {header : Record}
    {records : List Record} (guildName uploadId : String)
    (hs : getLootSplitId b.db g = some splitId) (hh : ∀ s ∈ header.cells, Cell s)
    (hr : ∀ r ∈ records, r.Valid) (hne : records ≠ []) :
    let names := records.map Record.charName
    let players := GuildUploadHelper.parseText false (exportedText false header records)
    let listed := fun isFile =>
      LootSplitGuildUploadHelper.parseText isFile (exportedText isFile header records)
    ∃ t, (guildUploadCommand g guildName (.text players)).run [] b = (.ok (.players names), t) ∧
      (∀ w ∈ names, ∃ q ∈ t.db.players.vals, q.guildId = g ∧ q.username = w) ∧
      (∀ q ∈ t.db.players.vals, q.guildId = g → q.guildName = guildName → q.username ∈ names) ∧
      ∃ added : List String, added.Nodup ∧
        (∀ w, w ∈ added ↔ w ∈ names ∧
          ∀ m ∈ b.db.lootsplitPlayers.vals, m.splitId = splitId → m.username ≠ w) ∧
        ∀ p ∈ [lootSplitGuildUploadCommand g uploadId (.text (listed false)),
            completeUpload (listed true) uploadId (.lootSplit splitId g)],
          ∃ shown v, p.run [] t = (.ok (.players shown), v) ∧
            v.db.lootsplitPlayers.vals = b.db.lootsplitPlayers.vals ++
              added.map (splitRow uploadId splitId g) ∧
            ((∀ m ∈ b.db.lootsplitPlayers.vals, m.uploadId ≠ uploadId) → shown = added) := by
  intro names players listed
  obtain ⟨hplayers, hlisted⟩ := parse_exported hh hr
  have hnames : names ≠ [] := fun h => hne (List.map_eq_nil_iff.1 h)
  refine ⟨withList guildName names g b, ?_, fun w hw => mem_players_relist hw, ?_,
    newMembers (withList guildName names g b).db splitId g names, Table.nodup_newKeys _ _ _ _,
    ?_, ?_⟩
  · rw [← run_guildUploadCommand hnames]
    exact congrArg (fun ws => (guildUploadCommand g guildName (.text ws)).run [] b) hplayers
  · intro q hq hg hn
    rcases mem_relist.1 hq with ⟨-, hother⟩ | ⟨w, hw, -, rfl⟩
    · exact absurd hn (hother hg)
    · exact hw
  · intro w
    rw [mem_newMembers]
    refine and_congr_right fun hw => ?_
    obtain ⟨q, hq, hg, hqw⟩ : ∃ q ∈ (withList guildName names g b).db.players.vals,
        q.guildId = g ∧ q.username = w := mem_players_relist hw
    exact and_iff_right ⟨q, hq, hqw, hg⟩
  · intro p hp
    have hrun : (uploadSplitPlayers splitId uploadId names g).run []
        (withList guildName names g b) = _ := run_uploadSplitPlayers
    have hopen : getLootSplitId (withList guildName names g b).db g = some splitId := hs
    refine ⟨_, withShares uploadId splitId names g (withList guildName names g b), ?_,
      Table.vals_insertAll _ _, shown_withShares (b := withList guildName names g b)⟩
    rw [← hrun]
    simp only [List.mem_cons, List.not_mem_nil, or_false] at hp
    rcases hp with hp | hp
    · rw [hp, show listed false = names from hlisted false]
      simp only [lootSplitGuildUploadCommand, read, Sql.bind_eq, Sql.run_query_bind, hopen]
    · rw [hp, show listed true = names from hlisted true, completeUpload]

/-- One of the three is a player and a member already. -/
theorem exported_list_shares_three :
    let b := endState (opening ["868PABLOW"] ++ [does (.add "868PABLOW" "U1")])
    let names := GuildBot.exported.map Record.charName
    let players := GuildUploadHelper.parseText false
      (exportedText false GuildBot.exportHeader GuildBot.exported)
    let listed := fun isFile => LootSplitGuildUploadHelper.parseText isFile
      (exportedText isFile GuildBot.exportHeader GuildBot.exported)
    ∃ t, (guildUploadCommand 1 "Atom" (.text players)).run [] b = (.ok (.players names), t) ∧
      (∀ w ∈ names, ∃ q ∈ t.db.players.vals, q.guildId = 1 ∧ q.username = w) ∧
      (∀ q ∈ t.db.players.vals, q.guildId = 1 → q.guildName = "Atom" → q.username ∈ names) ∧
      ∃ added : List String, added.Nodup ∧
        (∀ w, w ∈ added ↔ w ∈ names ∧
          ∀ m ∈ b.db.lootsplitPlayers.vals, m.splitId = "S" → m.username ≠ w) ∧
        ∀ p ∈ [lootSplitGuildUploadCommand 1 "U2" (.text (listed false)),
            completeUpload (listed true) "U2" (.lootSplit "S" 1)],
          ∃ shown v, p.run [] t = (.ok (.players shown), v) ∧
            v.db.lootsplitPlayers.vals = b.db.lootsplitPlayers.vals ++
              added.map (splitRow "U2" "S" 1) ∧
            ((∀ m ∈ b.db.lootsplitPlayers.vals, m.uploadId ≠ "U2") → shown = added) :=
  exported_list_shares "Atom" "U2" (by decide +kernel) (by decide +kernel) (by decide +kernel)
    (by decide)

end AtomComm.LootSplit
