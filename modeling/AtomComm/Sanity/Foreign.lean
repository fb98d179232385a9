import AtomComm.Sanity.Sessions

/-! What an action issued in one guild does to the rows of another. Players are written by
username and splits by split id, so an action reaches the foreign rows that carry a name or
a split id of its own. The masks blot out the columns of those rows that it may write; what
is left is as it was. -/

namespace AtomComm.LootSplit

def Upload.guildId : Upload → ℤ
  | .guild _ g => g
  | .lootSplit _ g => g

/-- The guild that an action is issued in. -/
def guildOf (b : Bot) : Action → Option ℤ
  | .slash g _ _ => some g
  | .press i _ _ => (b.pages[i]?).map Page.guildId
  | .complete j _ _ => (b.pending[j]?).map Upload.guildId

/-- The usernames whose players rows an action writes in every guild. -/
def names (b : Bot) : Action → String → Bool
  | .slash _ _ (.give w _), n => n = w
  | .slash _ _ (.remove w _), n => n = w
  | .slash _ _ (.register w _), n => n = w
  | .slash _ _ (.unregister w _), n => n = w
  | .press i _ .confirm, n => (b.pages[i]?).any fun page =>
      b.db.lootsplitPlayers.any fun m => m.splitId = page.splitId && m.username = n
  | _, _ => false

def maskPlayer (b : Bot) (a : Action) (r : Player) : Player :=
  if names b a r.username then
    match a with
    | .slash _ _ (.register ..) => { r with userId := none, registered := false }
    | .slash _ _ (.unregister ..) => { r with userId := none, registered := false }
    | _ => { r with balance := .fin 0 }
  else r

def maskSession (b : Bot) (a : Action) (r : Session) : Session :=
  match a with
  | .slash g _ (.set ..) =>
    if some r.splitId = getLootSplitId b.db g then { r with silver := 0, items := 0 } else r
  | .press i _ .confirm =>
    if (b.pages[i]?).any fun page => page.splitId = r.splitId then { r with amount := .fin 0 } else r
  | _ => r

/-- `/lootsplit remove` may delete the row. -/
def maskMember (b : Bot) (a : Action) (m : SplitPlayer) : Option SplitPlayer :=
  match a with
  | .slash g _ (.removePlayer w) =>
    if some m.splitId = getLootSplitId b.db g ∧ m.username = w then none else some m
  | .slash g _ (.half w) =>
    if some m.splitId = getLootSplitId b.db g ∧ m.username = w then some { m with isHalved := true }
    else some m
  | .press i _ .confirm =>
    if (b.pages[i]?).any fun page => page.splitId = m.splitId then some { m with balance := .fin 0 }
    else some m
  | _ => some m

def playersOf (h : ℤ) (b : Bot) (a : Action) (r : Player) : Option Player :=
  if r.guildId = h then some (maskPlayer b a r) else none

def sessionsOf (h : ℤ) (b : Bot) (a : Action) (r : Session) : Option Session :=
  if r.guildId = h then some (maskSession b a r) else none

def membersOf (h : ℤ) (b : Bot) (a : Action) (m : SplitPlayer) : Option SplitPlayer :=
  if m.guildId = h then maskMember b a m else none

def rolesOf (h : ℤ) (r : Role) : Option Role := if r.guildId = h then some r else none

/-- Behind the masks of the action, the rows of guild `h` are in `db'` as in `db`. -/
structure Untouched (h : ℤ) (b : Bot) (a : Action) (db db' : DB) : Prop where
  players : db'.players.view (playersOf h b a) = db.players.view (playersOf h b a)
  sessions : db'.lootsplitSessions.view (sessionsOf h b a) =
    db.lootsplitSessions.view (sessionsOf h b a)
  members : db'.lootsplitPlayers.view (membersOf h b a) =
    db.lootsplitPlayers.view (membersOf h b a)
  roles : db'.roles.view (rolesOf h) = db.roles.view (rolesOf h)
  playersRoles : db'.playersRoles = db.playersRoles

theorem Untouched.refl (h : ℤ) (b : Bot) (a : Action) (db : DB) : Untouched h b a db db :=
  ⟨rfl, rfl, rfl, rfl, rfl⟩

theorem Untouched.trans {h : ℤ} {b : Bot} {a : Action} (x y z : DB) (h1 : Untouched h b a x y)
    (h2 : Untouched h b a y z) : Untouched h b a x z :=
  ⟨h2.players.trans h1.players, h2.sessions.trans h1.sessions, h2.members.trans h1.members,
    h2.roles.trans h1.roles, h2.playersRoles.trans h1.playersRoles⟩

section OneTable
variable {h : ℤ} {b : Bot} {a : Action} {db : DB}

/-- A statement that writes the players alone. -/
theorem untouched_players {t : Table Player}
    (ht : t.view (playersOf h b a) = db.players.view (playersOf h b a)) :
    Untouched h b a db { db with players := t } :=
  ⟨ht, rfl, rfl, rfl, rfl⟩

theorem untouched_sessions {t : Table Session}
    (ht : t.view (sessionsOf h b a) = db.lootsplitSessions.view (sessionsOf h b a)) :
    Untouched h b a db { db with lootsplitSessions := t } :=
  ⟨rfl, ht, rfl, rfl, rfl⟩

theorem untouched_members {t : Table SplitPlayer}
    (ht : t.view (membersOf h b a) = db.lootsplitPlayers.view (membersOf h b a)) :
    Untouched h b a db { db with lootsplitPlayers := t } :=
  ⟨rfl, rfl, ht, rfl, rfl⟩

/-- A credit of the rows whose names the action may write. -/
theorem untouched_credit {p : Player → Bool} {balance : Player → Double}
    (hp : ∀ r, p r = true → names b a r.username = true)
    (ha : ∀ g u w user, a ≠ .slash g u (.register w user) ∧ a ≠ .slash g u (.unregister w user)) :
    Untouched h b a db { db with
      players := db.players.update p fun r => { r with balance := balance r } } := by
  refine untouched_players (Table.view_update fun r hr => ?_)
  have hn := hp r hr
  unfold playersOf maskPlayer
  simp only [hn, if_true]
  split
  · split
    · exact absurd rfl (ha _ _ _ _).1
    · exact absurd rfl (ha _ _ _ _).2
    · rfl
  · rfl

theorem guildOf_uploadsList {env : Env} {guildName : String} {g : ℤ} {l : List String}
    (hu : UploadsList env b a guildName g l) : guildOf b a = some g := by
  cases hu with
  | text => rfl
  | file hj => simp [guildOf, hj, Upload.guildId]

theorem guildOf_uploadsSplit {env : Env} {target : Option String} {g : ℤ}
    (hu : UploadsSplit env b a target g) : guildOf b a = some g := by
  cases hu with
  | text => rfl
  | image => rfl
  | file hj => simp [guildOf, hj, Upload.guildId]

end OneTable

/-- The commands that write the rows of the guild's active split. -/
def ThroughActive : Action → Prop
  | .slash _ _ (.removePlayer _) => True
  | .slash _ _ (.half _) => True
  | .slash _ _ (.set ..) => True
  | _ => False

section Effects
variable {env : Env} {b t t' : Bot} {a : Action} {g h : ℤ}

/-- A payout credits the rows that its page names. -/
theorem untouched_pay {page : Page} {f : DB → Option DB} {db db' : DB} (hg : guildOf b a = some g)
    (hne : g ≠ h) (hp : Pays b a page) (hf : f ∈ payout page) (hdb : f db = some db')
    (hroster : ∀ halved n, inSplit db page.splitId halved n = true → names b a n = true) :
    Untouched h b a db db' := by
  cases hp with
  | @press i u _ hpage hauthor hcheck =>
    have hguild : page.guildId = g := by simpa [guildOf, hpage] using hg
    rcases payout_cases hf hdb with ⟨_, rfl⟩ | ⟨_, _, rfl⟩ | ⟨_, _, rfl⟩ | rfl
    · refine untouched_sessions (Table.view_update fun r hr => ?_)
      have hs : page.splitId = r.splitId := (of_decide_eq_true hr).symm
      simp [sessionsOf, maskSession, hpage, hs]
    · refine untouched_members (Table.view_update fun m hm => ?_)
      have hs : page.splitId = m.splitId :=
        (of_decide_eq_true (Bool.and_eq_true_iff.1 hm).1).symm
      simp [membersOf, maskMember, hpage, hs]
    · exact untouched_credit (fun r hr => hroster _ _ hr) fun _ _ _ _ =>
        ⟨Action.noConfusion, Action.noConfusion⟩
    · refine untouched_sessions (Table.view_update fun r hr => ?_)
      have hr : r.guildId = g := (of_decide_eq_true hr).trans hguild
      simp [sessionsOf, hr, hne]

theorem untouched_removeList {guildName : String} {db : DB} (hne : g ≠ h) :
    Untouched h b a db (removeGuildList guildName g db) := by
  refine untouched_players (Table.view_delete fun r hr => ?_)
  have hr := of_decide_eq_true (Bool.and_eq_true_iff.1 hr).2
  simp [playersOf, hr, hne]

/-- The members that a press pays are those it found. -/
def Roster (b : Bot) (a : Action) (db : DB) : Prop :=
  ∀ page, Pays b a page → ∀ halved n, inSplit db page.splitId halved n = true → names b a n = true

theorem names_of_inSplit {i : ℕ} {u : User} {page : Page} {halved : Bool} {n : String}
    (hpage : b.pages[i]? = some page) (hn : inSplit b.db page.splitId halved n = true) :
    names b (.press i u .confirm) n = true := by
  obtain ⟨m, hm, hc⟩ := Table.any_eq_true.1 hn
  simp only [names, hpage, Option.any_some]
  refine Table.any_eq_true.2 ⟨m, hm, ?_⟩
  simp only [Bool.and_eq_true, decide_eq_true_eq] at hc ⊢
  exact ⟨hc.1.1, hc.2⟩

theorem roster_start (b : Bot) (a : Action) : Roster b a b.db := by
  intro page hp halved n hn
  cases hp with
  | press hpage => exact names_of_inSplit hpage hn

theorem roster_effect (he : Effect env b a t t') (hr : Roster b a t.db) : Roster b a t'.db := by
  intro page hp halved n hn
  cases hp with
  | @press i u _ hpage hauthor hcheck =>
    have hp : Pays b (.press i u .confirm) page := .press hpage hauthor hcheck
    cases he with
    | query => exact hr page hp halved n hn
    | words => exact hr page hp halved n hn
    | dropList hu => cases hu
    | listName hu => cases hu
    | listed hu => cases hu
    | pay hp' hf hdb =>
      rcases payout_cases hf hdb with ⟨_, rfl⟩ | ⟨hv, balance, rfl⟩ | ⟨_, _, rfl⟩ | rfl
      · exact hr page hp halved n hn
      · obtain ⟨m, hm, hc⟩ := Table.any_eq_true.1 hn
        rw [Table.vals_update] at hm
        obtain ⟨m, hm', rfl⟩ := List.mem_map.1 hm
        refine hr page hp halved n (Table.any_eq_true.2 ⟨m, hm', ?_⟩)
        split at hc <;> exact hc
      · exact hr page hp halved n hn
      · exact hr page hp halved n hn

theorem effect_untouched (he : Effect env b a t t') (hg : guildOf b a = some g) (hne : g ≠ h)
    (ha : ¬ThroughActive a) (hroster : Roster b a t.db) : Untouched h b a t.db t'.db := by
  cases he with
  | query => exact Untouched.refl h b a t.db
  | words => exact ⟨rfl, rfl, rfl, rfl, rfl⟩
  | download => exact Untouched.refl h b _ t.db
  | page => exact Untouched.refl h b _ t.db
  | give hu hdb =>
    obtain ⟨_, rfl⟩ := creditPlayers_some hdb
    exact untouched_credit (fun r hr => hr) fun _ _ _ _ => ⟨by simp, by simp⟩
  | remove hu hdb =>
    obtain ⟨_, rfl⟩ := creditPlayers_some hdb
    exact untouched_credit (fun r hr => hr) fun _ _ _ _ => ⟨by simp, by simp⟩
  | register hu =>
    refine untouched_players (Table.view_update fun r hr => ?_)
    have hn : r.username = _ := of_decide_eq_true hr
    simp [playersOf, maskPlayer, names, hn]
  | unregister hu =>
    refine untouched_players (Table.view_update fun r hr => ?_)
    have hn := of_decide_eq_true (Bool.and_eq_true_iff.1 hr).1
    simp [playersOf, maskPlayer, names, hn]
  | guestsetup hu =>
    obtain rfl := Option.some.inj hg
    exact ⟨rfl, rfl, rfl, Table.view_insert (by simp [rolesOf, hne]), rfl⟩
  | guildRemove hu =>
    obtain rfl := Option.some.inj hg
    exact untouched_removeList hne
  | guildRemoveUser hu =>
    obtain rfl := Option.some.inj hg
    refine untouched_players (Table.view_delete fun r hr => ?_)
    have hr := of_decide_eq_true (Bool.and_eq_true_iff.1 hr).1
    simp [playersOf, hr, hne]
  | guildAddUser hu =>
    obtain rfl := Option.some.inj hg
    exact untouched_players (Table.view_insert (by simp [playersOf, hne]))
  | dropList hu =>
    obtain rfl := Option.some.inj ((guildOf_uploadsList hu).symm.trans hg)
    exact untouched_removeList hne
  | listName hu =>
    obtain rfl := Option.some.inj ((guildOf_uploadsList hu).symm.trans hg)
    unfold uploadGuildName
    split
    · exact Untouched.refl h b a t.db
    · exact untouched_players (Table.view_insert (by simp [playersOf, hne]))
  | create hu =>
    obtain rfl := Option.some.inj hg
    exact untouched_sessions (Table.view_insert (by simp [sessionsOf, hne]))
  | add hu hdb =>
    obtain rfl := Option.some.inj hg
    rcases addPlayer_cases hdb with rfl | ⟨_, -, -, -, rfl⟩
    · exact Untouched.refl h b _ t.db
    · exact untouched_members (Table.view_insert (by simp [membersOf, hne]))
  | listed hu hs =>
    obtain rfl := Option.some.inj ((guildOf_uploadsSplit hu).symm.trans hg)
    unfold addListedPlayer
    split
    · exact Untouched.refl h b a t.db
    · exact untouched_members (Table.view_insert (by simp [membersOf, hne]))
  | removePlayer hu => exact absurd trivial ha
  | half hu => exact absurd trivial ha
  | set hu => exact absurd trivial ha
  | pay hp hf hdb => exact untouched_pay hg hne hp hf hdb (hroster _ hp)

end Effects

/-! ### The commands on the active split -/

section Direct
variable (env : Env) (g : ℤ) (u : User) (b : Bot) (fs : List Bool)

theorem removePlayer_run (w : String) :
    let t := ((execute env g u (.removePlayer w)).run fs b).2
    t = b ∨ t.db = removePlayerFromLootSplit (getLootSplitId b.db g) w b.db := by
  simp only [execute, requireRole, lootSplitRemoveCommand, read, write, tryWrite, Sql.bind_eq,
    Sql.pure_eq, Sql.run_ite, Sql.run_faulty_query_bind, Sql.run_attempt_bind, Sql.run_ret]
  split
  · exact .inl rfl
  split
  · exact .inl rfl
  split
  · exact .inl rfl
  split
  · exact .inl rfl
  split
  · exact .inl rfl
  split
  · exact .inl rfl
  split
  · rename_i hdb
    cases hdb
    exact .inr rfl
  · exact .inl rfl

theorem half_run (w : String) :
    let t := ((execute env g u (.half w)).run fs b).2
    t = b ∨ t.db = makePlayerBalanceHalvedInLootSplit (getLootSplitId b.db g) w b.db := by
  simp only [execute, requireRole, lootSplitHalfBalanceCommand, read, write, tryWrite, Sql.bind_eq,
    Sql.pure_eq, Sql.run_ite, Sql.run_faulty_query_bind, Sql.run_attempt_bind, Sql.run_ret]
  split
  · exact .inl rfl
  split
  · exact .inl rfl
  split
  · exact .inl rfl
  split
  · exact .inl rfl
  split
  · rename_i hdb
    cases hdb
    exact .inr rfl
  · exact .inl rfl

theorem set_run (silver items : ℤ) :
    let t := ((execute env g u (.set silver items)).run fs b).2
    t = b ∨ t.db = setLootSplitSilverAndItems (getLootSplitId b.db g) silver items b.db := by
  simp only [execute, requireRole, lootSplitSetCommand, getAsInt]
  split
  · simp [Sql.pure_eq]
  split
  · rename_i s i hs hi
    obtain rfl : silver = s := by split at hs <;> simp_all
    obtain rfl : items = i := by split at hi <;> simp_all
    simp only [read, write, tryWrite, Sql.bind_eq, Sql.pure_eq, Sql.run_ite,
      Sql.run_faulty_query_bind, Sql.run_attempt_bind, Sql.run_ret]
    split
    · exact .inl rfl
    split
    · exact .inl rfl
    split
    · exact .inl rfl
    split
    · rename_i hdb
      cases hdb
      exact .inr rfl
    · exact .inl rfl
  · simp

theorem untouched_removePlayer {h : ℤ} {w : String} {db : DB} :
    Untouched h b (.slash g u (.removePlayer w)) db
      (removePlayerFromLootSplit (getLootSplitId b.db g) w db) := by
  refine untouched_members (Table.view_delete fun m hm => ?_)
  obtain ⟨h1, h2⟩ := Bool.and_eq_true_iff.1 hm
  simp [membersOf, maskMember, of_decide_eq_true h1, of_decide_eq_true h2]

theorem untouched_half {h : ℤ} {w : String} {db : DB} :
    Untouched h b (.slash g u (.half w)) db
      (makePlayerBalanceHalvedInLootSplit (getLootSplitId b.db g) w db) := by
  refine untouched_members (Table.view_update fun m hm => ?_)
  obtain ⟨h1, h2⟩ := Bool.and_eq_true_iff.1 hm
  simp [membersOf, maskMember, of_decide_eq_true h1, of_decide_eq_true h2]

theorem untouched_set {h silver items : ℤ} {db : DB} :
    Untouched h b (.slash g u (.set silver items)) db
      (setLootSplitSilverAndItems (getLootSplitId b.db g) silver items db) := by
  refine untouched_sessions (Table.view_update fun r hr => ?_)
  simp [sessionsOf, maskSession, of_decide_eq_true hr]

end Direct

/-- In every step an action of guild `g` leaves the rows of `h` as they were, behind its
masks. -/
theorem step_untouched {env : Env} {a : Action} {fs : List Bool} {b t : Bot} {g h : ℤ}
    (hs : step env ⟨a, fs⟩ b = some t) (hg : guildOf b a = some g) (hne : g ≠ h) :
    Untouched h b a b.db t.db := by
  obtain ⟨b', p, hst, rfl⟩ := step_eq_some hs
  by_cases ha : ThroughActive a
  · unfold ThroughActive at ha
    split at ha
    · rename_i g' u w
      cases hst
      rcases removePlayer_run env g' u b fs w with ht | ht
      · rw [ht]
        exact Untouched.refl h b _ b.db
      · rw [ht]
        exact untouched_removePlayer g' u b
    · rename_i g' u w
      cases hst
      rcases half_run env g' u b fs w with ht | ht
      · rw [ht]
        exact Untouched.refl h b _ b.db
      · rw [ht]
        exact untouched_half g' u b
    · rename_i g' u silver items
      cases hst
      rcases set_run env g' u b fs silver items with ht | ht
      · rw [ht]
        exact Untouched.refl h b _ b.db
      · rw [ht]
        exact untouched_set g' u b
    · cases ha
  · obtain ⟨⟨hdb, -, -⟩, hk⟩ := start_within hst
    have hw : p.Within (fun t => Roster b a t.db) fun s t => Untouched h b a s.db t.db :=
      hk.imp (fun _ _ => trivial) fun s t hr he =>
        ⟨roster_effect he hr, effect_untouched he hg hne ha hr⟩
    have hrun := hw.run (fun s => Untouched.refl h b a s.db)
      (fun x y z => Untouched.trans x.db y.db z.db) fs (s := b') (hdb ▸ roster_start b a)
    exact hdb ▸ hrun.2

end AtomComm.LootSplit
