import AtomComm.Sanity.Foreign

/-! What an action reads. From two states that agree on the rows of its guild and on the
foreign rows that carry a name, a user id or a split id it looks up, an action has the same
outcome: every query answers the same in both, and every statement keeps the agreement. -/

namespace AtomComm.LootSplit

/-- The databases agree on the players of guild `g` and those `sp` picks, and on the rows of
the guild and those of the splits `ss` picks. -/
structure Agree (sp : Player → Bool) (ss : String → Bool) (g : ℤ) (db db' : DB) : Prop where
  players : Table.AgreeOn (fun r => r.guildId = g || sp r) db.players db'.players
  sessions : Table.AgreeOn (fun r => r.guildId = g || ss r.splitId)
    db.lootsplitSessions db'.lootsplitSessions
  members : Table.AgreeOn (fun m => m.guildId = g || ss m.splitId)
    db.lootsplitPlayers db'.lootsplitPlayers

/-! ### Queries -/

section Queries
variable {sp : Player → Bool} {ss : String → Bool} {g : ℤ} {db db' : DB}

theorem isUserExists_eq (h : Agree sp ss g db db') {rt : Runtime} {w : String}
    (hw : ∀ r : Player, LOWER r.username = rt.toLowerCase w → sp r = true) :
    isUserExists rt db w = isUserExists rt db' w := by
  unfold isUserExists
  rw [h.players.count fun r hr => by simp [hw r (of_decide_eq_true hr)]]

section User
variable {userId : ℤ} (hu : ∀ r : Player, r.userId = some userId → sp r = true)
include hu

theorem userRow_eq (h : Agree sp ss g db db') :
    (db.players.first fun r => r.userId = some userId) =
      db'.players.first fun r => r.userId = some userId :=
  h.players.first fun r hr => by simp [hu r (of_decide_eq_true hr)]

theorem isUserRegistered_eq (h : Agree sp ss g db db') :
    isUserRegistered db userId = isUserRegistered db' userId := by
  unfold isUserRegistered
  rw [userRow_eq hu h]

theorem getPlayerName_eq (h : Agree sp ss g db db') :
    getPlayerName db userId = getPlayerName db' userId := by
  unfold getPlayerName
  rw [userRow_eq hu h]

theorem getPlayerBalance_eq (h : Agree sp ss g db db') :
    getPlayerBalance db userId = getPlayerBalance db' userId := by
  unfold getPlayerBalance
  rw [userRow_eq hu h]

end User

theorem isGuildListExists_eq (h : Agree sp ss g db db') (guildName : String) :
    isGuildListExists db guildName g = isGuildListExists db' guildName g := by
  unfold isGuildListExists
  rw [h.players.count fun r hr => by
    have := of_decide_eq_true (Bool.and_eq_true_iff.1 hr).2
    simp [this]]

theorem getLeaderboard_eq (h : Agree sp ss g db db') (hall : ∀ r, sp r = true) (n : ℤ) :
    getLeaderboard db n = getLeaderboard db' n := by
  have hsel : ∀ t : Table Player, t.select (fun r => r.guildId = g || sp r) = t.vals := by
    intro t
    exact List.filter_eq_self.2 fun r _ => by simp [hall r]
  have hvals : db.players.vals = db'.players.vals := by
    rw [← hsel, ← hsel]
    exact h.players
  unfold getLeaderboard
  rw [hvals]

theorem activeSession_agree (h : Agree sp ss g db db') :
    activeSession db g = activeSession db' g :=
  h.sessions.first fun r hr => by
    have := of_decide_eq_true (Bool.and_eq_true_iff.1 hr).1
    simp [this]

theorem getLootSplitId_eq (h : Agree sp ss g db db') :
    getLootSplitId db g = getLootSplitId db' g := by
  unfold getLootSplitId
  rw [activeSession_agree h]

theorem isThereActiveSession_agree (h : Agree sp ss g db db') :
    isThereActiveSession db g = isThereActiveSession db' g := by
  unfold isThereActiveSession
  rw [h.sessions.count fun r hr => by
    have := of_decide_eq_true (Bool.and_eq_true_iff.1 hr).2
    simp [this]]

theorem getLootSplitSessions_eq (h : Agree sp ss g db db') :
    getLootSplitSessions db g = getLootSplitSessions db' g := by
  unfold getLootSplitSessions
  rw [h.sessions.select fun r hr => by simp [of_decide_eq_true hr]]

section Split
variable {splitId : String} (hs : ss splitId = true)
include hs

theorem getLootSplitSessionInfo_eq (h : Agree sp ss g db db') :
    getLootSplitSessionInfo db splitId = getLootSplitSessionInfo db' splitId :=
  h.sessions.first fun r hr => by simp [of_decide_eq_true hr, hs]

theorem getLootSplitSilverAndItems_eq (h : Agree sp ss g db db') :
    getLootSplitSilverAndItems db splitId = getLootSplitSilverAndItems db' splitId := by
  unfold getLootSplitSilverAndItems
  rw [getLootSplitSessionInfo_eq hs h]

theorem getFullSplitPlayers_eq (h : Agree sp ss g db db') :
    getFullSplitPlayers db splitId = getFullSplitPlayers db' splitId := by
  unfold getFullSplitPlayers
  rw [h.members.select fun m hm => by
    have := of_decide_eq_true (Bool.and_eq_true_iff.1 hm).1
    simp [this, hs]]

theorem getHalfSplitPlayers_eq (h : Agree sp ss g db db') :
    getHalfSplitPlayers db splitId = getHalfSplitPlayers db' splitId := by
  unfold getHalfSplitPlayers
  rw [h.members.select fun m hm => by
    have := of_decide_eq_true (Bool.and_eq_true_iff.1 hm).1
    simp [this, hs]]

end Split

theorem getLootSplitPlayersCount_eq (h : Agree sp ss g db db') (splitId : String) :
    getLootSplitPlayersCount db splitId g = getLootSplitPlayersCount db' splitId g := by
  unfold getLootSplitPlayersCount
  exact h.members.count fun m hm => by
    have := of_decide_eq_true (Bool.and_eq_true_iff.1 hm).2
    simp [this]

theorem playersWithUploadId_eq (h : Agree sp ss g db db') (uploadId splitId : String) :
    getLootSplitPlayersWithUploadId db uploadId splitId g =
      getLootSplitPlayersWithUploadId db' uploadId splitId g := by
  unfold getLootSplitPlayersWithUploadId
  rw [h.members.select fun m hm => by
    have := of_decide_eq_true (Bool.and_eq_true_iff.1 hm).2
    simp [this]]

theorem isPlayerInLootSplit_eq (h : Agree sp ss g db db') {splitId : Option String}
    (hs : ∀ s, splitId = some s → ss s = true) (w : String) :
    isPlayerInLootSplit db splitId w = isPlayerInLootSplit db' splitId w := by
  unfold isPlayerInLootSplit
  rw [h.members.count fun m hm => by
    have := of_decide_eq_true (Bool.and_eq_true_iff.1 hm).1
    simp [hs m.splitId this.symm]]

end Queries

/-! ### Programs -/

/-- The databases agree, and `J` holds of them besides. -/
def Sees (sp : Player → Bool) (ss : String → Bool) (g : ℤ) (J : DB → DB → Prop) (s s' : Bot) :
    Prop :=
  Agree sp ss g s.db s'.db ∧ J s.db s'.db

section Rules
variable {sp : Player → Bool} {ss : String → Bool} {g : ℤ} {J : DB → DB → Prop} {α β : Type}

/-- A statement that throws on both sides or on neither, and keeps the agreement. -/
def Lockstep (sp : Player → Bool) (ss : String → Bool) (g : ℤ) (J : DB → DB → Prop)
    (f : DB → Option DB) : Prop :=
  ∀ db db', Agree sp ss g db db' → J db db' → (f db).isSome = (f db').isSome ∧
    ∀ t t', f db = some t → f db' = some t' → Agree sp ss g t t' ∧ J t t'

theorem lockstep_some {f : DB → DB} (hf : ∀ db db', Agree sp ss g db db' → J db db' →
    Agree sp ss g (f db) (f db') ∧ J (f db) (f db')) :
    Lockstep sp ss g J fun db => some (f db) := by
  refine fun db db' h hJ => ⟨rfl, fun t t' ht ht' => ?_⟩
  rw [← Option.some.inj ht, ← Option.some.inj ht']
  exact hf db db' h hJ

theorem lockstep_onDb {f : DB → Option DB} (hf : Lockstep sp ss g J f) (s s' : Bot)
    (h : Sees sp ss g J s s') : (onDb f s).isSome = (onDb f s').isSome ∧
      ∀ t t', onDb f s = some t → onDb f s' = some t' → Sees sp ss g J t t' := by
  obtain ⟨h1, h2⟩ := hf s.db s'.db h.1 h.2
  refine ⟨by simpa [onDb] using h1, fun t t' ht ht' => ?_⟩
  obtain ⟨db, hdb, rfl⟩ := Option.map_eq_some_iff.1 ht
  obtain ⟨db', hdb', rfl⟩ := Option.map_eq_some_iff.1 ht'
  exact h2 db db' hdb hdb'

theorem blind_tryWrite {f : DB → Option DB} (hf : Lockstep sp ss g J f) :
    (tryWrite f).Blind (Sees sp ss g J) :=
  Sql.blind_attempt (lockstep_onDb hf)

theorem blind_write {f : DB → DB} (hf : Lockstep sp ss g J fun db => some (f db)) :
    (write f).Blind (Sees sp ss g J) :=
  blind_tryWrite hf

theorem blind_write_ret {f : DB → DB} {r : Reply} (hf : Lockstep sp ss g J fun db => some (f db)) :
    (write f >>= fun _ => pure r).Blind (Sees sp ss g J) :=
  Sql.blind_bind (blind_write hf) fun _ => trivial

theorem blind_executeBatch {fs : List (DB → DB)}
    (hf : ∀ f ∈ fs, Lockstep sp ss g J fun db => some (f db)) :
    (executeBatch fs).Blind (Sees sp ss g J) := by
  refine Sql.blind_script fun f hmem => ?_
  obtain ⟨f, hf', rfl⟩ := List.mem_map.1 hmem
  exact lockstep_onDb (hf f hf')

theorem blind_read {q : DB → α}
    (hq : ∀ db db', Agree sp ss g db db' → J db db' → q db = q db') :
    (read q).Blind (Sees sp ss g J) :=
  Sql.blind_query fun s s' h => hq s.db s'.db h.1 h.2

theorem blind_read_bind {q : DB → α} {k : α → Cmd β}
    (hq : ∀ db db', Agree sp ss g db db' → J db db' → q db = q db')
    (hk : ∀ db db', Agree sp ss g db db' → J db db' → (k (q db)).Blind (Sees sp ss g J)) :
    (read q >>= k).Blind (Sees sp ss g J) :=
  Sql.blind_query_bind (fun s s' h => congrArg k (hq s.db s'.db h.1 h.2))
    fun s s' h => hk s.db s'.db h.1 h.2

/-- What changes nothing that the agreement is about. -/
theorem blind_exec {f : Bot → Bot} (hf : ∀ s, (f s).db = s.db) :
    (Sql.exec f : Cmd Unit).Blind (Sees sp ss g J) := by
  refine Sql.blind_exec fun s s' h => ?_
  unfold Sees
  rw [hf, hf]
  exact h

theorem blind_requireRole {env : Env} {u : User} {p : Cmd Reply}
    (hp : p.Blind (Sees sp ss g J)) : (requireRole env u p).Blind (Sees sp ss g J) :=
  Sql.blind_ite (fun _ => trivial) fun _ => hp

end Rules

/-! ### Statements -/

/-- Nothing besides the agreement. -/
def always : DB → DB → Prop := fun _ _ => True

/-- The active split of the guild is one that is looked up. -/
def activeIn (ss : String → Bool) (g : ℤ) : DB → DB → Prop :=
  fun db _ => ∀ s, getLootSplitId db g = some s → ss s = true

section Statements
variable {sp : Player → Bool} {ss : String → Bool} {g : ℤ} {J : DB → DB → Prop}

theorem lockstep_players {F : Table Player → Table Player}
    (hF : ∀ t t', Table.AgreeOn (fun r => r.guildId = g || sp r) t t' →
      Table.AgreeOn (fun r => r.guildId = g || sp r) (F t) (F t')) :
    Lockstep sp ss g always fun db => some { db with players := F db.players } :=
  lockstep_some fun _ _ h _ => ⟨⟨hF _ _ h.players, h.sessions, h.members⟩, trivial⟩

theorem lockstep_sessions {F : Table Session → Table Session}
    (hF : ∀ t t', Table.AgreeOn (fun r => r.guildId = g || ss r.splitId) t t' →
      Table.AgreeOn (fun r => r.guildId = g || ss r.splitId) (F t) (F t')) :
    Lockstep sp ss g always fun db => some { db with lootsplitSessions := F db.lootsplitSessions } :=
  lockstep_some fun _ _ h _ => ⟨⟨h.players, hF _ _ h.sessions, h.members⟩, trivial⟩

theorem lockstep_credit (w : String) (amount : ℚ) :
    Lockstep (fun _ => false) ss g always
      (creditPlayers (fun r => r.username = w) (some (.fin amount))) := by
  have hfin : creditPlayers (fun r => r.username = w) (some (.fin amount)) =
      fun db => some { db with
        players := db.players.update (fun r => r.username = w)
          fun r => { r with balance := r.balance.plus amount } } :=
    funext fun db => creditPlayers_fin _ amount db
  rw [hfin]
  refine lockstep_players (F := fun t => t.update (fun r => r.username = w)
    fun r => { r with balance := r.balance.plus amount }) fun t t' h => ?_
  exact h.update fun _ _ => rfl

theorem lockstep_addNewRole (roleName : String) (duration : ℤ) :
    Lockstep sp ss g always fun db => some (addNewRole roleName duration g db) :=
  lockstep_some fun _ _ h _ => ⟨⟨h.players, h.sessions, h.members⟩, trivial⟩

theorem lockstep_removeGuildList (guildName : String) :
    Lockstep sp ss g always fun db => some (removeGuildList guildName g db) :=
  lockstep_players fun _ _ h => h.delete _

theorem lockstep_removeGuildUser (w : String) :
    Lockstep sp ss g always fun db => some (removeGuildUser g w db) :=
  lockstep_players fun _ _ h => h.delete _

theorem lockstep_addGuildUser (w : String) :
    Lockstep sp ss g always fun db => some (addGuildUser g w db) :=
  lockstep_players fun _ _ h => h.insert _

theorem lockstep_uploadGuildName (guildName name : String) :
    Lockstep sp ss g always fun db => some (uploadGuildName guildName name g db) := by
  refine lockstep_some fun db db' h _ => ⟨?_, trivial⟩
  have hany := h.players.any (p := fun r => r.username = name && r.guildId = g) fun r hr => by
    have := of_decide_eq_true (Bool.and_eq_true_iff.1 hr).2
    simp [this]
  unfold uploadGuildName
  rw [hany]
  split
  · exact h
  · exact ⟨h.players.insert _, h.sessions, h.members⟩

theorem lockstep_words (hJ : ∀ db db', J db db' →
    J (postProcessPlayersTable db) (postProcessPlayersTable db')) :
    Lockstep sp ss g J fun db => some (postProcessPlayersTable db) :=
  lockstep_some fun _ _ h hj => ⟨⟨h.players, h.sessions, h.members⟩, hJ _ _ hj⟩

theorem lockstep_create (splitId name creator : String) :
    Lockstep sp ss g always fun db =>
      some (createNewLootSplitSession splitId name g creator db) :=
  lockstep_sessions fun _ _ h => h.insert _

theorem lockstep_set (splitId : Option String) (silver items : ℤ) :
    Lockstep sp ss g always fun db => some (setLootSplitSilverAndItems splitId silver items db) :=
  lockstep_sessions (F := fun t => t.update (fun r => some r.splitId = splitId)
    fun r => { r with silver := silver, items := items }) fun _ _ h => h.update fun _ _ => rfl

/-- A statement on the members keeps the agreement on the active split. -/
theorem lockstep_members {F : Table SplitPlayer → Table SplitPlayer}
    (hF : ∀ t t', Table.AgreeOn (fun m => m.guildId = g || ss m.splitId) t t' →
      Table.AgreeOn (fun m => m.guildId = g || ss m.splitId) (F t) (F t')) :
    Lockstep sp ss g (activeIn ss g) fun db =>
      some { db with lootsplitPlayers := F db.lootsplitPlayers } :=
  lockstep_some fun _ _ h hj => ⟨⟨h.players, h.sessions, hF _ _ h.members⟩, hj⟩

theorem lockstep_removePlayer (splitId : Option String) (w : String) :
    Lockstep sp ss g (activeIn ss g) fun db => some (removePlayerFromLootSplit splitId w db) :=
  lockstep_members fun _ _ h => h.delete _

theorem lockstep_half (splitId : Option String) (w : String) :
    Lockstep sp ss g (activeIn ss g) fun db =>
      some (makePlayerBalanceHalvedInLootSplit splitId w db) :=
  lockstep_members (F := fun t => t.update
    (fun m => some m.splitId = splitId && m.username = w)
      fun m => { m with isHalved := true }) fun _ _ h => h.update fun _ _ => rfl

theorem lockstep_add {splitId : Option String} (hs : ∀ s, splitId = some s → ss s = true)
    (uploadId w : String) :
    Lockstep sp ss g (activeIn ss g) (addPlayerToLootSplit splitId uploadId w g) := by
  intro db db' h hj
  have hmember := h.members.any (p := fun m => some m.splitId = splitId &&
      LOWER m.username = LOWER w) fun m hm => by
    have := of_decide_eq_true (Bool.and_eq_true_iff.1 hm).1
    simp [hs m.splitId this.symm]
  have hplayer := h.players.any (p := fun r => LOWER r.username = LOWER w && r.guildId = g)
    fun r hr => by
      have := of_decide_eq_true (Bool.and_eq_true_iff.1 hr).2
      simp [this]
  unfold addPlayerToLootSplit
  rw [hmember, hplayer]
  split
  · exact ⟨rfl, fun t t' ht ht' => by cases ht; cases ht'; exact ⟨h, hj⟩⟩
  · cases splitId with
    | none => exact ⟨rfl, fun t t' ht _ => by cases ht⟩
    | some s =>
      refine ⟨rfl, fun t t' ht ht' => ?_⟩
      cases ht
      cases ht'
      exact ⟨⟨h.players, h.sessions, h.members.insert _⟩, hj⟩

theorem lockstep_listed {uploadId splitId name : String} (hs : ss splitId = true)
    (hJ : ∀ db db', J db db' → J (addListedPlayer uploadId splitId name g db)
      (addListedPlayer uploadId splitId name g db')) :
    Lockstep sp ss g J fun db => some (addListedPlayer uploadId splitId name g db) := by
  refine lockstep_some fun db db' h hj => ⟨?_, hJ db db' hj⟩
  have hmember := h.members.any (p := fun m => m.splitId = splitId && m.username = name)
    fun m hm => by
      have := of_decide_eq_true (Bool.and_eq_true_iff.1 hm).1
      simp [this, hs]
  have hplayer := h.players.any (p := fun r => r.username = name && r.guildId = g)
    fun r hr => by
      have := of_decide_eq_true (Bool.and_eq_true_iff.1 hr).2
      simp [this]
  unfold addListedPlayer
  rw [hmember, hplayer]
  split
  · exact h
  · exact ⟨h.players, h.sessions, h.members.insert _⟩

end Statements

/-! ### Commands -/

/-- The rows that carry the name, up to folding, or the user id. -/
def nameOrId (rt : Runtime) (w : String) (userId : ℤ) (r : Player) : Bool :=
  LOWER r.username = rt.toLowerCase w || r.username = w || r.userId = some userId

def foldsTo (rt : Runtime) (w : String) (r : Player) : Bool := LOWER r.username = rt.toLowerCase w

def hasId (userId : ℤ) (r : Player) : Bool := r.userId = some userId

section Commands
variable {env : Env} {u : User} {ss : String → Bool} {g : ℤ}

theorem blind_give (w : String) (amount : ℚ) :
    (giveUserAmountCommand env u w amount).Blind (Sees (fun _ => false) ss g always) :=
  Sql.blind_ite (fun _ => trivial) fun _ =>
    Sql.blind_bind (blind_tryWrite (lockstep_credit w amount)) fun _ => trivial

theorem blind_remove (w : String) (amount : ℚ) :
    (removeUserAmountCommand env u w amount).Blind (Sees (fun _ => false) ss g always) :=
  Sql.blind_ite (fun _ => trivial) fun _ =>
    Sql.blind_bind (blind_tryWrite (lockstep_credit w (-amount))) fun _ => trivial

theorem blind_register (w : String) (user : Option ℤ) :
    (registerCommand env u w user).Blind
      (Sees (nameOrId env.toRuntime w (user.getD u.id)) ss g always) := by
  unfold registerCommand
  refine Sql.blind_ite (fun _ => trivial) fun _ => ?_
  refine blind_read_bind (fun db db' h _ => isUserExists_eq h fun r hr => by simp [nameOrId, hr])
    fun _ _ _ _ => Sql.blind_ite (fun _ => trivial) fun _ => ?_
  refine blind_read_bind
    (fun db db' h _ => isUserRegistered_eq (fun r hr => by simp [nameOrId, hr]) h)
    fun _ _ _ _ => Sql.blind_ite (fun _ => trivial) fun _ => blind_write_ret ?_
  refine lockstep_players (F := fun t => t.update (fun r => r.username = w)
    fun r => { r with userId := some (user.getD u.id), registered := true }) fun _ _ h => ?_
  exact h.update fun r hr => by simp [nameOrId, of_decide_eq_true hr]

theorem blind_unregister (w : String) (user : Option ℤ) :
    (unregisterCommand env u w user).Blind
      (Sees (nameOrId env.toRuntime w (user.getD u.id)) ss g always) := by
  unfold unregisterCommand
  refine Sql.blind_ite (fun _ => trivial) fun _ => ?_
  refine blind_read_bind (fun db db' h _ => isUserExists_eq h fun r hr => by simp [nameOrId, hr])
    fun _ _ _ _ => Sql.blind_ite (fun _ => trivial) fun _ => ?_
  refine blind_read_bind
    (fun db db' h _ => isUserRegistered_eq (fun r hr => by simp [nameOrId, hr]) h)
    fun _ _ _ _ => Sql.blind_ite (fun _ => trivial) fun _ => blind_write_ret ?_
  refine lockstep_players (F := fun t => t.update
    (fun r => r.username = w && r.userId = some (user.getD u.id))
      fun r => { r with userId := none, registered := false }) fun _ _ h => ?_
  exact h.update fun r hr => by
    have hw := of_decide_eq_true (Bool.and_eq_true_iff.1 hr).1
    simp [nameOrId, hw]

theorem blind_bal (player : Option ℤ) :
    (balanceCommand u player).Blind (Sees (hasId (player.getD u.id)) ss g always) := by
  have hid : ∀ r : Player, r.userId = some (player.getD u.id) →
      hasId (player.getD u.id) r = true := fun r hr => decide_eq_true hr
  unfold balanceCommand
  refine blind_read_bind (fun db db' h _ => isUserRegistered_eq hid h)
    fun _ _ _ _ => Sql.blind_ite (fun _ => trivial) fun _ => ?_
  refine blind_read_bind (fun db db' h _ => getPlayerName_eq hid h) fun _ _ _ _ => ?_
  exact blind_read_bind (fun db db' h _ => getPlayerBalance_eq hid h) fun _ _ _ _ => trivial

theorem blind_leaderboard : leaderboardCommand.Blind (Sees (fun _ => true) ss g always) := by
  unfold leaderboardCommand
  exact blind_read_bind (fun db db' h _ => getLeaderboard_eq h (fun _ => rfl) 50)
    fun _ _ _ _ => Sql.blind_ite (fun _ => trivial) fun _ => trivial

theorem blind_guestSetup (role : String) (duration : ℤ) :
    (guestSetupCommand env g u role duration).Blind (Sees (fun _ => false) ss g always) := by
  unfold guestSetupCommand
  split
  · trivial
  · exact Sql.blind_ite (fun _ => trivial) fun _ => blind_write_ret (lockstep_addNewRole _ _)

section Uploads
variable {sp : Player → Bool} {J : DB → DB → Prop}

theorem blind_addUsers {insert : List String → List (DB → DB)} {batches : List (List String)}
    (hw : Lockstep sp ss g J fun db => some (postProcessPlayersTable db))
    (hi : ∀ batch, ∀ f ∈ insert batch, Lockstep sp ss g J fun db => some (f db)) :
    (addUsersToDatabase insert batches).Blind (Sees sp ss g J) := by
  induction batches with
  | nil => exact blind_write hw
  | cons batch rest ih =>
    refine Sql.blind_bind (Sql.blind_tryCatch (blind_executeBatch (hi batch)) fun _ => trivial) ?_
    exact fun _ => ih

theorem blind_uploadGuildUsers (guildName : String) (names : List String) :
    (uploadGuildUsers guildName names g).Blind (Sees sp ss g always) := by
  unfold uploadGuildUsers
  refine blind_read_bind (fun db db' h _ => isGuildListExists_eq h guildName) fun _ _ _ _ => ?_
  refine Sql.blind_bind ?_ fun _ => blind_addUsers (lockstep_words fun _ _ _ => trivial) ?_
  · exact Sql.blind_ite (fun _ => blind_write (lockstep_removeGuildList guildName)) fun _ => trivial
  · intro batch f hf
    obtain ⟨name, -, rfl⟩ := List.mem_map.1 hf
    exact lockstep_uploadGuildName guildName name

theorem blind_sendPaginator (names : List String) :
    (sendGuildUploadPaginator names).Blind (Sees sp ss g J) :=
  Sql.blind_ite (fun _ => trivial) fun _ => trivial

theorem blind_guildUpload (guildName : String) (source : Source) :
    (guildUploadCommand g guildName source).Blind (Sees sp ss g always) := by
  cases source with
  | text names =>
    exact Sql.blind_bind (blind_uploadGuildUsers guildName names) fun _ => blind_sendPaginator names
  | file => exact Sql.blind_bind (blind_exec fun _ => rfl) fun _ => trivial
  | neither => trivial
  | both => trivial
  | imageOrVideo => trivial

theorem blind_uploadSplitPlayers {splitId : String} (hs : ss splitId = true)
    (uploadId : String) (names : List String)
    (hw : Lockstep sp ss g J fun db => some (postProcessPlayersTable db))
    (hJ : ∀ name, ∀ db db', J db db' → J (addListedPlayer uploadId splitId name g db)
      (addListedPlayer uploadId splitId name g db')) :
    (uploadSplitPlayers splitId uploadId names g).Blind (Sees sp ss g J) := by
  unfold uploadSplitPlayers
  refine Sql.blind_bind (blind_addUsers hw ?_) fun _ => ?_
  · intro batch f hf
    obtain ⟨name, -, rfl⟩ := List.mem_map.1 hf
    exact lockstep_listed hs (hJ name)
  · refine Sql.blind_bind (Sql.blind_tryCatch (blind_read ?_) fun _ => trivial) fun _ => trivial
    exact fun db db' h _ => playersWithUploadId_eq h uploadId splitId

end Uploads

theorem blind_create (name splitId : String) :
    (lootSplitCreateCommand g u name splitId).Blind (Sees (hasId u.id) ss g always) := by
  unfold lootSplitCreateCommand
  refine blind_read_bind (fun db db' h _ => isThereActiveSession_agree h)
    fun _ _ _ _ => Sql.blind_ite (fun _ => trivial) fun _ => ?_
  refine blind_read_bind
    (fun db db' h _ => isUserRegistered_eq (fun r hr => decide_eq_true hr) h)
    fun _ _ _ _ => Sql.blind_ite (fun _ => trivial) fun _ => ?_
  exact blind_write_ret (lockstep_create splitId name u.name)

theorem blind_add (w uploadId : String) :
    (lootSplitAddCommand env g w uploadId).Blind
      (Sees (foldsTo env.toRuntime w) ss g (activeIn ss g)) := by
  unfold lootSplitAddCommand
  refine blind_read_bind (fun db db' h _ => getLootSplitId_eq h) fun db _ _ hactive => ?_
  refine blind_read_bind (fun db db' h _ => isThereActiveSession_agree h)
    fun _ _ _ _ => Sql.blind_ite (fun _ => trivial) fun _ => ?_
  refine blind_read_bind (fun db db' h _ => isUserExists_eq h fun r hr => decide_eq_true hr)
    fun _ _ _ _ => Sql.blind_ite (fun _ => trivial) fun _ => ?_
  exact Sql.blind_bind (blind_tryWrite (lockstep_add hactive uploadId w)) fun _ => trivial

theorem blind_removePlayer (w : String) :
    (lootSplitRemoveCommand env g w).Blind
      (Sees (foldsTo env.toRuntime w) ss g (activeIn ss g)) := by
  unfold lootSplitRemoveCommand
  refine blind_read_bind (fun db db' h _ => getLootSplitId_eq h) fun db _ _ hactive => ?_
  refine blind_read_bind (fun db db' h _ => isThereActiveSession_agree h)
    fun _ _ _ _ => Sql.blind_ite (fun _ => trivial) fun _ => ?_
  refine blind_read_bind (fun db db' h _ => isUserExists_eq h fun r hr => decide_eq_true hr)
    fun _ _ _ _ => Sql.blind_ite (fun _ => trivial) fun _ => ?_
  exact blind_write_ret (lockstep_removePlayer _ w)

theorem blind_half {sp : Player → Bool} (w : String) :
    (lootSplitHalfBalanceCommand g w).Blind (Sees sp ss g (activeIn ss g)) := by
  unfold lootSplitHalfBalanceCommand
  refine blind_read_bind (fun db db' h _ => getLootSplitId_eq h) fun db _ _ hactive => ?_
  refine blind_read_bind (fun db db' h _ => isPlayerInLootSplit_eq h hactive w)
    fun _ _ _ _ => Sql.blind_ite (fun _ => trivial) fun _ => ?_
  exact blind_write_ret (lockstep_half _ w)

theorem blind_set {sp : Player → Bool} (silver items : ℤ) :
    (lootSplitSetCommand g silver items).Blind (Sees sp ss g always) := by
  unfold lootSplitSetCommand
  split
  · refine blind_read_bind (fun db db' h _ => isThereActiveSession_agree h)
      fun _ _ _ _ => Sql.blind_ite (fun _ => trivial) fun _ => ?_
    refine blind_read_bind (fun db db' h _ => getLootSplitId_eq h) fun db _ _ _ => ?_
    exact blind_write_ret (lockstep_set _ _ _)
  · trivial

theorem blind_list {sp : Player → Bool} :
    (lootSplitListCommand g).Blind (Sees sp ss g always) := by
  unfold lootSplitListCommand
  exact blind_read_bind (fun db db' h _ => getLootSplitSessions_eq h)
    fun _ _ _ _ => Sql.blind_ite (fun _ => trivial) fun _ => trivial

theorem blind_splitFigures {sp : Player → Bool} {title splitId : String}
    {k : Session → Option Double → SplitPages → Cmd Reply} (hs : ss splitId = true)
    (hk : ∀ info amount pages, (k info amount pages).Blind (Sees sp ss g always)) :
    (splitFigures env title g splitId k).Blind (Sees sp ss g always) := by
  unfold splitFigures
  refine blind_read_bind (fun db db' h _ => isThereActiveSession_agree h)
    fun _ _ _ _ => Sql.blind_ite (fun _ => trivial) fun _ => ?_
  refine blind_read_bind (fun db db' h _ => getLootSplitSilverAndItems_eq hs h) fun _ _ _ _ => ?_
  split
  · trivial
  · refine blind_read_bind (fun db db' h _ => getLootSplitPlayersCount_eq h splitId)
      fun _ _ _ _ => ?_
    refine blind_read_bind (fun db db' h _ => getLootSplitSessionInfo_eq hs h) fun db _ _ _ => ?_
    split
    · trivial
    · rename_i info hinfo
      obtain ⟨-, rfl⟩ := splitId_of_info hinfo
      refine Sql.blind_bind ?_ fun pages => hk _ _ pages
      unfold getPaginatorEmbed
      refine blind_read_bind (fun db db' h _ => getLootSplitPlayersCount_eq h info.splitId)
        fun _ _ _ _ => ?_
      refine blind_read_bind (fun db db' h _ => getHalfSplitPlayers_eq hs h) fun _ _ _ _ => ?_
      exact blind_read_bind (fun db db' h _ => getFullSplitPlayers_eq hs h) fun _ _ _ _ => trivial

theorem blind_confirmCommand {sp : Player → Bool} {splitId : String} (hs : ss splitId = true) :
    (lootSplitConfirmCommand env g u splitId).Blind (Sees sp ss g always) :=
  blind_splitFigures hs fun _ _ _ => Sql.blind_bind (blind_exec fun _ => rfl) fun _ => trivial

theorem activeIn_words {db db' : DB} (h : activeIn ss g db db') :
    activeIn ss g (postProcessPlayersTable db) (postProcessPlayersTable db') := h

theorem activeSession_listed (uploadId splitId name : String) (db : DB) :
    activeSession (addListedPlayer uploadId splitId name g db) g = activeSession db g := by
  unfold addListedPlayer
  split <;> rfl

theorem activeIn_listed {uploadId splitId name : String} {db db' : DB} (h : activeIn ss g db db') :
    activeIn ss g (addListedPlayer uploadId splitId name g db)
      (addListedPlayer uploadId splitId name g db') := by
  intro s hs
  refine h s ?_
  rwa [getLootSplitId, activeSession_listed] at hs

theorem blind_lootSplitGuildUpload {sp : Player → Bool} (uploadId : String) (source : Source) :
    (lootSplitGuildUploadCommand g uploadId source).Blind (Sees sp ss g (activeIn ss g)) := by
  unfold lootSplitGuildUploadCommand
  refine blind_read_bind (fun db db' h _ => getLootSplitId_eq h) fun db _ _ hactive => ?_
  split
  · trivial
  · rename_i splitId hid
    cases source with
    | text names =>
      exact blind_uploadSplitPlayers (hactive splitId hid) uploadId names
        (lockstep_words fun _ _ h => activeIn_words h) fun _ _ _ h => activeIn_listed h
    | file => exact Sql.blind_bind (blind_exec fun _ => rfl) fun _ => trivial
    | neither => trivial
    | both => trivial
    | imageOrVideo => trivial

/-- The words of the spellfix table that are names of the guild are the same, and either
both tables are empty or neither. -/
def sameWords (g : ℤ) (db db' : DB) : Prop :=
  (db.demo = [] ↔ db'.demo = []) ∧
    (db.demo.filter fun w => db.players.any fun r => r.username = w && r.guildId = g) =
      db'.demo.filter fun w => db'.players.any fun r => r.username = w && r.guildId = g

theorem nearestPlayer_eq {db db' : DB} (h : sameWords g db db') (rt : Runtime) (word : String) :
    nearestPlayer rt db word g = nearestPlayer rt db' word g := by
  have hsplit : ∀ (demo : List String) (q : String → Bool),
      demo.filter (fun w => q w && decide (word.length > 3)) =
        (demo.filter q).filter fun _ => decide (word.length > 3) := by
    intro demo q
    rw [List.filter_filter]
    exact List.filter_congr fun w _ => Bool.and_comm _ _
  unfold nearestPlayer Runtime.candidates
  rw [hsplit, hsplit, h.2]

/-- What a party upload goes by: its guild's active split and its guild's words. -/
def partyView (ss : String → Bool) (g : ℤ) (db db' : DB) : Prop :=
  activeIn ss g db db' ∧ sameWords g db db'

theorem blind_spellFixMatch {sp : Player → Bool} {rt : Runtime} (word : String) :
    (spellFixMatch rt word g).Blind (Sees sp ss g (partyView ss g)) := by
  unfold spellFixMatch
  refine Sql.blind_ite (fun _ => trivial) fun _ => Sql.blind_tryCatch ?_ fun _ => trivial
  refine Sql.blind_query_bind (fun s s' h => ?_) fun s s' h => ?_
  · have hempty : s.db.demo.length = 0 ↔ s'.db.demo.length = 0 := by
      rw [List.length_eq_zero_iff, List.length_eq_zero_iff]
      exact h.2.2.1
    by_cases h0 : s.db.demo.length = 0
    · simp only [h0, hempty.1 h0]
    · simp only [h0, mt hempty.2 h0]
  · exact Sql.blind_ite (fun _ => trivial) fun _ =>
      blind_read fun db db' _ hw => nearestPlayer_eq hw.2 rt word

theorem blind_getValidNames {sp : Player → Bool} {rt : Runtime} (words : List String) :
    (getValidNamesFromImage rt g words).Blind (Sees sp ss g (partyView ss g)) := by
  induction words with
  | nil => trivial
  | cons word words ih =>
    exact Sql.blind_bind (blind_spellFixMatch word) fun _ => Sql.blind_bind ih fun _ => trivial

theorem sameWords_listed {uploadId splitId name : String} {db db' : DB} (h : sameWords g db db') :
    sameWords g (addListedPlayer uploadId splitId name g db)
      (addListedPlayer uploadId splitId name g db') := by
  have hkeep : ∀ db : DB, (addListedPlayer uploadId splitId name g db).players = db.players ∧
      (addListedPlayer uploadId splitId name g db).demo = db.demo := by
    intro db
    unfold addListedPlayer
    split <;> exact ⟨rfl, rfl⟩
  unfold sameWords
  rw [(hkeep db).1, (hkeep db).2, (hkeep db').1, (hkeep db').2]
  exact h

theorem blind_partyUpload {sp : Player → Bool} (uploadId : String)
    (words : Option (List String)) :
    (lootSplitPartyUploadCommand env g uploadId words).Blind (Sees sp ss g (partyView ss g)) := by
  unfold lootSplitPartyUploadCommand
  refine blind_read_bind (fun db db' h _ => getLootSplitId_eq h) fun db _ _ hview => ?_
  split
  · trivial
  · rename_i splitId hid
    split
    · trivial
    · refine Sql.blind_bind (blind_getValidNames _) fun names =>
        Sql.blind_ite (fun _ => trivial) fun _ => ?_
      refine Sql.blind_bind (blind_executeBatch ?_) fun _ =>
        Sql.blind_ite (fun _ => trivial) fun _ => trivial
      intro f hf
      obtain ⟨name, -, rfl⟩ := List.mem_map.1 hf
      exact lockstep_listed (hview.1 splitId hid) fun _ _ h =>
        ⟨activeIn_listed h.1, sameWords_listed h.2⟩

end Commands

/-! ### Presses -/

/-- The members of the page's split have their names among `N`. -/
def roster (N : String → Bool) (page : Page) : DB → DB → Prop :=
  fun db _ => ∀ halved n, inSplit db page.splitId halved n = true → N n = true

section Press
variable {N : String → Bool} {ss : String → Bool} {g : ℤ} {page : Page}

theorem inSplit_eq {sp : Player → Bool} {db db' : DB} (h : Agree sp ss g db db')
    (hs : ss page.splitId = true) (halved : Bool) (n : String) :
    inSplit db page.splitId halved n = inSplit db' page.splitId halved n :=
  h.members.any fun m hm => by
    simp only [Bool.and_eq_true, decide_eq_true_eq] at hm
    simp [hm.1.1, hs]

theorem lockstep_creditSession (hs : ss page.splitId = true) (amount : Option Double) :
    Lockstep (fun r => N r.username) ss g (roster N page)
      (creditSession page.splitId amount) := by
  intro db db' h hr
  have hp : ∀ r : Session, decide (r.splitId = page.splitId) = true →
      (decide (r.guildId = g) || ss r.splitId) = true := fun r hr => by
    simp [of_decide_eq_true hr, hs]
  refine ⟨by simpa [creditSession] using h.sessions.tryUpdate hp, fun t t' ht ht' => ?_⟩
  obtain ⟨u, hu, rfl⟩ := Option.map_eq_some_iff.1 ht
  obtain ⟨u', hu', rfl⟩ := Option.map_eq_some_iff.1 ht'
  refine ⟨⟨h.players, h.sessions.of_tryUpdate hu hu' fun v w hw => ?_, h.members⟩, hr⟩
  obtain ⟨x, -, rfl⟩ := Option.map_eq_some_iff.1 hw
  rfl

theorem lockstep_creditSplitPlayers (hs : ss page.splitId = true) (halved : Bool)
    (amount : Option Double) : Lockstep (fun r => N r.username) ss g (roster N page)
      (creditSplitPlayers page.splitId halved amount) := by
  intro db db' h hr
  have hp : ∀ m : SplitPlayer, (decide (m.splitId = page.splitId) && m.isHalved == halved) = true →
      (decide (m.guildId = g) || ss m.splitId) = true := fun m hm => by
    simp [of_decide_eq_true (Bool.and_eq_true_iff.1 hm).1, hs]
  refine ⟨by simpa [creditSplitPlayers] using h.members.tryUpdate hp, fun t t' ht ht' => ?_⟩
  obtain ⟨u, hu, rfl⟩ := Option.map_eq_some_iff.1 ht
  obtain ⟨u', hu', rfl⟩ := Option.map_eq_some_iff.1 ht'
  refine ⟨⟨h.players, h.sessions, h.members.of_tryUpdate hu hu' fun v w hw => ?_⟩, ?_⟩
  · obtain ⟨x, -, rfl⟩ := Option.map_eq_some_iff.1 hw
    rfl
  · intro hv n hn
    refine hr hv n ?_
    rw [inSplit_credit (Table.tryUpdate_column (fun _ => rfl) hu)] at hn
    exact hn

theorem lockstep_creditUsernames (hs : ss page.splitId = true) (halved : Bool)
    (amount : Option Double) : Lockstep (fun r => N r.username) ss g (roster N page)
      (creditUsernames page.splitId halved amount) := by
  intro db db' h hr
  have hp : ∀ r : Player, inSplit db page.splitId halved r.username = true →
      (decide (r.guildId = g) || N r.username) = true := fun r hin => by
    simp [hr halved r.username hin]
  unfold creditUsernames
  rw [← funext fun r : Player => inSplit_eq h hs halved r.username]
  refine ⟨by simpa [creditPlayers] using h.players.tryUpdate hp, fun t t' ht ht' => ?_⟩
  obtain ⟨u, hu, rfl⟩ := Option.map_eq_some_iff.1 ht
  obtain ⟨u', hu', rfl⟩ := Option.map_eq_some_iff.1 ht'
  refine ⟨⟨h.players.of_tryUpdate hu hu' fun v w hw => ?_, h.sessions, h.members⟩, hr⟩
  obtain ⟨x, -, rfl⟩ := Option.map_eq_some_iff.1 hw
  rfl

theorem lockstep_end (guildId : ℤ) :
    Lockstep (fun r => N r.username) ss g (roster N page)
      fun db => some (endLootSplitSession guildId db) :=
  lockstep_some fun _ _ h hr => ⟨⟨h.players, h.sessions.update fun _ _ => rfl, h.members⟩, hr⟩

theorem blind_confirm {u : User} (hs : ss page.splitId = true) :
    (confirm u page).Blind (Sees (fun r => N r.username) ss g (roster N page)) := by
  unfold confirm
  refine Sql.blind_ite (fun _ => trivial) fun _ => Sql.blind_bind (Sql.blind_script ?_) fun _ => trivial
  intro f hmem
  obtain ⟨f, hf, rfl⟩ := List.mem_map.1 hmem
  refine lockstep_onDb ?_
  simp only [payout, addBalanceToAllLootSplitPlayers, List.cons_append, List.nil_append,
    List.mem_cons, List.not_mem_nil, or_false] at hf
  rcases hf with rfl | rfl | rfl | rfl | rfl | rfl
  · exact lockstep_creditSession hs _
  · exact lockstep_creditSplitPlayers hs _ _
  · exact lockstep_creditSplitPlayers hs _ _
  · exact lockstep_creditUsernames hs _ _
  · exact lockstep_creditUsernames hs _ _
  · exact lockstep_end _

end Press

end AtomComm.LootSplit
