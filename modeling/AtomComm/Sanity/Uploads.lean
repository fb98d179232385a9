import AtomComm.Sanity.Members

/-! What an upload that meets no exception does to the tables. The batches of 40 make one
pass over the names, and of each name's guarded insert only the first one counts. -/

namespace AtomComm.LootSplit

theorem flatten_batches_nil (names : List String) : (batches [] names).flatten = names := by
  cases names with
  | nil => rfl
  | cons w ws => exact flatten_batches [] (List.cons_ne_nil w ws)

section Runs
variable (b : Bot)

theorem run_executeBatch (fs : List (DB → DB)) :
    Sql.run [] (executeBatch fs) b = (.ok (), { b with db := fs.foldl (fun db f => f db) b.db }) := by
  unfold executeBatch
  induction fs generalizing b with
  | nil => rfl
  | cons f fs ih =>
    rw [List.map_cons, Sql.script, Sql.run_bind]
    exact ih { b with db := f b.db }

/-- Batches of statements, one for each name. -/
theorem run_addUsers (f : String → DB → DB) (bs : List (List String)) :
    Sql.run [] (addUsersToDatabase (fun names => names.map f) bs) b = (.ok (), { b with
      db := postProcessPlayersTable (bs.flatten.foldl (fun db w => f w db) b.db) }) := by
  induction bs generalizing b with
  | nil => rfl
  | cons batch rest ih =>
    rw [addUsersToDatabase, Sql.bind_eq, Sql.run_bind, Sql.run_tryCatch, run_executeBatch]
    simp only [ih, List.foldl_map, List.flatten_cons, List.foldl_append]

/-- What every statement of the batches keeps, the upload keeps, whatever throws. -/
theorem within_addUsers {I : DB → Prop} {insert : List String → List (DB → DB)}
    {bs : List (List String)} (hI : ∀ batch ∈ bs, ∀ f ∈ insert batch, ∀ db, I db → I (f db))
    (hwords : ∀ db, I db → I (postProcessPlayersTable db)) :
    (addUsersToDatabase insert bs).Within (fun t => I t.db) fun _ _ => True := by
  induction bs with
  | nil => exact Sql.within_exec fun t ht => ⟨hwords t.db ht, trivial⟩
  | cons batch rest ih =>
    have hbatch : (executeBatch (insert batch)).Within (fun t => I t.db) fun _ _ => True := by
      apply Sql.within_script
      intro f hf t t' ht h
      obtain ⟨f, hmem, rfl⟩ := List.mem_map.1 hf
      obtain rfl := Option.some.inj h
      exact ⟨hI batch (by simp) f hmem t.db ht, trivial⟩
    apply Sql.within_bind
    · exact Sql.within_tryCatch hbatch fun _ => trivial
    · exact fun _ => ih fun batch hb => hI batch (by simp [hb])

end Runs

/-! ### A guild list -/

/-- The row of a name that a list brings. -/
def listRow (guildName : String) (g : ℤ) (w : String) : Player :=
  ⟨none, w, .fin 0, guildName, false, g⟩

/-- The names of a list that the guild has no player of. -/
def newPlayers (players : Table Player) (g : ℤ) (names : List String) : List String :=
  players.newKeys (fun w r => r.username = w && r.guildId = g) (fun _ => true) names

theorem mem_newPlayers {players : Table Player} {g : ℤ} {names : List String} {w : String} :
    w ∈ newPlayers players g names ↔
      w ∈ names ∧ ∀ r ∈ players.vals, r.guildId = g → r.username ≠ w := by
  rw [newPlayers, Table.mem_newKeys, Table.any_eq_false]
  simp only [true_and, Bool.and_eq_false_imp, decide_eq_true_eq, decide_eq_false_iff_not]
  refine and_congr_right fun _ => forall₂_congr fun r _ => ?_
  exact ⟨fun h hg hw => h hw hg, fun h hw hg => h hg hw⟩

theorem foldl_uploadGuildName (guildName : String) (g : ℤ) (names : List String) (db : DB) :
    names.foldl (fun db w => uploadGuildName guildName w g db) db = { db with
      players := db.players.insertAll ((newPlayers db.players g names).map (listRow guildName g)) } := by
  have hfold : ∀ db : DB, names.foldl (fun db w => uploadGuildName guildName w g db) db = { db with
      players := names.foldl (Table.insertNew (fun w r => r.username = w && r.guildId = g)
        (fun _ => true) (listRow guildName g)) db.players } := by
    induction names with
    | nil => exact fun _ => rfl
    | cons w ws ih =>
      intro db
      rw [List.foldl_cons, List.foldl_cons, ih, uploadGuildName, Table.insertNew]
      cases db.players.any fun r => r.username = w && r.guildId = g <;> rfl
  have hkey : ∀ w w' : String,
      ((listRow guildName g w').username = w && (listRow guildName g w').guildId = g : Bool) =
        decide (w' = w) := by
    intro w w'
    exact (congrArg _ (decide_eq_true rfl)).trans (Bool.and_true _)
  rw [hfold, Table.foldl_insertNew hkey]
  rfl

/-- The players after the list was taken away and the new one brought in. -/
def relist (guildName : String) (names : List String) (g : ℤ) (players : Table Player) :
    Table Player :=
  let kept := players.delete fun r => r.guildName = guildName && r.guildId = g
  kept.insertAll ((newPlayers kept g names).map (listRow guildName g))

/-- A list that the existence query misses has no rows to delete. -/
theorem delete_of_not_exists {db : DB} {guildName : String} {g : ℤ}
    (h : isGuildListExists db guildName g = false) :
    db.players.delete (fun r => r.guildName = guildName && r.guildId = g) = db.players := by
  refine Table.delete_eq_self fun r hr => Bool.eq_false_iff.2 fun hc => ?_
  rw [Bool.and_eq_true, decide_eq_true_iff, decide_eq_true_iff] at hc
  have hex : isGuildListExists db guildName g = true :=
    decide_eq_true (Table.count_pos.2 ⟨r.val, Table.val_mem hr, by simp [hc.1, hc.2]⟩)
  rw [h] at hex
  cases hex

theorem run_uploadGuildUsers (guildName : String) (names : List String) (g : ℤ) (b : Bot) :
    Sql.run [] (uploadGuildUsers guildName names g) b = (.ok (), { b with
      db := postProcessPlayersTable
        { b.db with players := relist guildName names g b.db.players } }) := by
  have hrun : ∀ t : Bot, Sql.run []
      (addUsersToDatabase (uploadGuildList guildName · g) (batches [] names)) t = (.ok (), { t with
        db := postProcessPlayersTable { t.db with
          players := t.db.players.insertAll
            ((newPlayers t.db.players g names).map (listRow guildName g)) } }) := by
    intro t
    refine (run_addUsers t (fun w => uploadGuildName guildName w g) (batches [] names)).trans ?_
    rw [flatten_batches_nil, foldl_uploadGuildName]
  unfold uploadGuildUsers
  simp only [Sql.bind_eq, read, Sql.run_query_bind]
  cases hex : isGuildListExists b.db guildName g with
  | false =>
    rw [relist, delete_of_not_exists hex]
    exact hrun b
  | true => exact hrun { b with db := removeGuildList guildName g b.db }

theorem relist_vals (guildName : String) (names : List String) (g : ℤ) (players : Table Player) :
    (relist guildName names g players).vals =
      (players.vals.filter fun r => !(r.guildName = guildName && r.guildId = g)) ++
        (newPlayers (players.delete fun r => r.guildName = guildName && r.guildId = g) g names).map
          (listRow guildName g) := by
  rw [relist, Table.vals_insertAll, Table.vals_delete]

/-! ### The members of a split -/

def splitRow (uploadId splitId : String) (g : ℤ) (w : String) : SplitPlayer :=
  ⟨splitId, uploadId, w, .fin 0, false, g⟩

/-- The names of a list that are players of the guild and not yet in the split. -/
def newMembers (db : DB) (splitId : String) (g : ℤ) (names : List String) : List String :=
  db.lootsplitPlayers.newKeys (fun w r => r.splitId = splitId && r.username = w)
    (fun w => db.players.any fun r => r.username = w && r.guildId = g) names

theorem mem_newMembers {db : DB} {splitId : String} {g : ℤ} {names : List String} {w : String} :
    w ∈ newMembers db splitId g names ↔
      w ∈ names ∧ (∃ r ∈ db.players.vals, r.username = w ∧ r.guildId = g) ∧
        ∀ m ∈ db.lootsplitPlayers.vals, m.splitId = splitId → m.username ≠ w := by
  simp [newMembers, Table.mem_newKeys, Table.any_eq_true, Table.any_eq_false]

/-- The statement inserts the name's row if the name is new, and does nothing else. -/
theorem addListedPlayer_cases (uploadId splitId w : String) (g : ℤ) (db : DB) :
    addListedPlayer uploadId splitId w g db = db ∨
      w ∈ newMembers db splitId g [w] ∧ addListedPlayer uploadId splitId w g db = { db with
        lootsplitPlayers := db.lootsplitPlayers.insert (splitRow uploadId splitId g w) } := by
  rcases listed_cases uploadId splitId w g db with hsame | ⟨hno, hplayer, hins⟩
  · exact .inl hsame
  · exact .inr ⟨mem_newMembers.2 ⟨by simp, hplayer, hno⟩, hins⟩

theorem foldl_addListedPlayer (uploadId splitId : String) (g : ℤ) (names : List String) (db : DB) :
    names.foldl (fun db w => addListedPlayer uploadId splitId w g db) db = { db with
      lootsplitPlayers := db.lootsplitPlayers.insertAll
        ((newMembers db splitId g names).map (splitRow uploadId splitId g)) } := by
  have hfold : ∀ t : Table SplitPlayer,
      names.foldl (fun db w => addListedPlayer uploadId splitId w g db)
        { db with lootsplitPlayers := t } = { db with
          lootsplitPlayers := names.foldl
            (Table.insertNew (fun w r => r.splitId = splitId && r.username = w)
              (fun w => db.players.any fun r => r.username = w && r.guildId = g)
              (splitRow uploadId splitId g)) t } := by
    induction names with
    | nil => exact fun _ => rfl
    | cons w ws ih =>
      intro t
      rw [List.foldl_cons, List.foldl_cons, ← ih, addListedPlayer, Table.insertNew]
      congr 1
      split <;> rfl
  have hkey : ∀ w w' : String, ((splitRow uploadId splitId g w').splitId = splitId &&
      (splitRow uploadId splitId g w').username = w : Bool) = decide (w' = w) := by
    intro w w'
    exact (congrArg (· && _) (decide_eq_true rfl)).trans (Bool.true_and _)
  refine (hfold db.lootsplitPlayers).trans ?_
  rw [Table.foldl_insertNew hkey]
  rfl

theorem run_addSplitPlayers (uploadId splitId : String) (names : List String) (g : ℤ) (b : Bot) :
    Sql.run [] (addUsersToDatabase (addPlayersToLootSplit uploadId splitId · g)
      (batches [] names)) b = (.ok (), { b with
        db := postProcessPlayersTable { b.db with
          lootsplitPlayers := b.db.lootsplitPlayers.insertAll
            ((newMembers b.db splitId g names).map (splitRow uploadId splitId g)) } }) := by
  refine (run_addUsers b (fun w => addListedPlayer uploadId splitId w g)
    (batches [] names)).trans ?_
  rw [flatten_batches_nil, foldl_addListedPlayer]

end AtomComm.LootSplit
