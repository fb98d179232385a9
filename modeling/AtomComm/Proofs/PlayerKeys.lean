import AtomComm.Sanity.Members

/-! The players rows of a guild have distinct usernames exactly as long as no
`/guild add user` names a player that the guild has. `addGuildUser` inserts without a look at
the table; the batch of `uploadGuildList` looks, in the statement that inserts, and nothing
else writes the two columns. -/

namespace AtomComm.LootSplit

def KeysUnique (db : DB) : Prop :=
  db.players.UniqueOn (fun _ => True) fun r => (r.username, r.guildId)

instance (db : DB) : Decidable (KeysUnique db) :=
  inferInstanceAs (Decidable (db.players.UniqueOn _ _))

/-- The user that an input adds: the member has the role and the insert is not made to throw. -/
def addedUser (env : Env) (a : Input) : Option (ℤ × String) :=
  match a.action with
  | .slash g u (.guildAddUser w) =>
    if u.allowed env && !a.faults.headD false then some (g, w) else none
  | _ => none

/-- The guild has no player of the name that the event adds. -/
def NewName (env : Env) (e : Event Input Bot) : Prop :=
  ∀ added ∈ addedUser env e.input, ∀ r ∈ e.before.db.players.vals, (r.guildId, r.username) ≠ added

instance (env : Env) (e : Event Input Bot) : Decidable (NewName env e) :=
  inferInstanceAs (Decidable (∀ _ ∈ _, _))

section Statements
variable {db db' : DB} {g : ℤ} {w : String}

theorem keys_insert (h : KeysUnique db) {r : Player}
    (hr : ∀ q ∈ db.players.vals, q.guildId = r.guildId → q.username ≠ r.username) :
    (db.players.insert r).UniqueOn (fun _ => True) fun r => (r.username, r.guildId) := by
  apply Table.uniqueOn_insert h
  intro _ q hq _ hk
  obtain ⟨hn, hg⟩ := Prod.mk.inj hk
  exact hr q hq hg hn

theorem keys_update (h : KeysUnique db) {p : Player → Bool} {f : Player → Player}
    (hf : ∀ r, (f r).username = r.username ∧ (f r).guildId = r.guildId) :
    (db.players.update p f).UniqueOn (fun _ => True) fun r => (r.username, r.guildId) := by
  apply Table.uniqueOn_update h
  intro r _ _ _
  obtain ⟨hn, hg⟩ := hf r
  rw [hn, hg]
  exact ⟨trivial, rfl⟩

theorem keys_credit {p : Player → Bool} {amount : Option Double} (h : KeysUnique db)
    (hdb : creditPlayers p amount db = some db') : KeysUnique db' := by
  obtain ⟨balance, rfl⟩ := creditPlayers_some hdb
  exact keys_update h fun _ => ⟨rfl, rfl⟩

/-- The upload inserts the names that the guild lacks. -/
theorem keys_uploadGuildName {guildName : String} (h : KeysUnique db) :
    KeysUnique (uploadGuildName guildName w g db) := by
  unfold uploadGuildName
  split
  · exact h
  · rename_i hno
    refine keys_insert h fun q hq hg hn => hno (Table.any_eq_true.2 ⟨q, hq, ?_⟩)
    rw [Bool.and_eq_true, decide_eq_true_iff, decide_eq_true_iff]
    exact ⟨hn, hg⟩

/-- `/guild add user` keeps the keys apart exactly if the guild lacks the name. -/
theorem keys_addGuildUser (h : KeysUnique db) :
    KeysUnique (addGuildUser g w db) ↔ ∀ q ∈ db.players.vals, (q.guildId, q.username) ≠ (g, w) := by
  constructor
  · intro hadd q hq hk
    obtain ⟨r, hr, rfl⟩ := Table.mem_vals.1 hq
    obtain ⟨hg, hn⟩ := Prod.mk.inj hk
    -- the new row has the key of `r` and a rowid above that of `r`
    have hnew : (⟨db.players.seq + 1, ⟨none, w, .fin 0, "N/A", false, g⟩⟩ : Row Player) ∈
        (addGuildUser g w db).players.rows := by simp [addGuildUser]
    have hold : r ∈ (addGuildUser g w db).players.rows := by simp [addGuildUser, hr]
    have hkey : (r.val.username, r.val.guildId) = (w, g) := by rw [hn, hg]
    have hsame := hadd r hold _ hnew trivial trivial hkey
    have hid : r.id ≤ db.players.seq := db.players.bounded r hr
    rw [hsame] at hid
    exact absurd hid (Nat.not_succ_le_self _)
  · intro hno
    refine keys_insert h fun q hq hg hn => hno q hq ?_
    rw [hg, hn]

end Statements

section Runs
variable {env : Env} {b t : Bot}

/-- Nothing else brings a player that the guild has. -/
theorem effect_keys {a : Action} {t t' : Bot} (he : Effect env b a t t')
    (ha : ∀ g u w, a ≠ .slash g u (.guildAddUser w)) (h : KeysUnique t.db) :
    KeysUnique t'.db := by
  cases he with
  | guildAddUser => exact absurd rfl (ha _ _ _)
  | give _ hdb => exact keys_credit h hdb
  | remove _ hdb => exact keys_credit h hdb
  | register => exact keys_update h fun _ => ⟨rfl, rfl⟩
  | unregister => exact keys_update h fun _ => ⟨rfl, rfl⟩
  | guildRemove => exact Table.uniqueOn_delete h _
  | guildRemoveUser => exact Table.uniqueOn_delete h _
  | dropList => exact Table.uniqueOn_delete h _
  | listName => exact keys_uploadGuildName h
  | add _ hdb =>
    rcases addPlayer_cases hdb with rfl | ⟨_, -, -, -, rfl⟩ <;> exact h
  | listed => unfold addListedPlayer; split <;> exact h
  | pay hp hf hdb =>
    rcases payout_cases hf hdb with ⟨_, rfl⟩ | ⟨_, _, rfl⟩ | ⟨_, _, rfl⟩ | rfl
    · exact h
    · exact h
    · exact keys_update h fun _ => ⟨rfl, rfl⟩
    · exact h
  | _ => exact h

theorem guildAddUser_run (g : ℤ) (u : User) (w : String) (fs : List Bool) (b : Bot) :
    ((execute env g u (.guildAddUser w)).run fs b).2 =
      if u.allowed env && !fs.headD false then { b with db := addGuildUser g w b.db } else b := by
  simp only [execute, requireRole, guildAddUserCommand, write, tryWrite, Sql.bind_eq, Sql.pure_eq,
    Sql.run_ite, Sql.run_attempt_bind, Sql.run_ret, onDb, Option.map_some]
  cases u.allowed env <;> cases fs.headD false <;> rfl

/-- A step adds the user of its input, if it has one, or keeps the keys apart. -/
theorem step_keys {a : Input} (h : step env a b = some t) :
    (∃ g w, addedUser env a = some (g, w) ∧ t.db = addGuildUser g w b.db) ∨
      addedUser env a = none ∧ (KeysUnique b.db → KeysUnique t.db) := by
  obtain ⟨b', p, hs, rfl⟩ := step_eq_some h
  by_cases ha : ∃ g u w, a.action = .slash g u (.guildAddUser w)
  · obtain ⟨g, u, w, ha⟩ := ha
    rw [ha] at hs
    cases hs
    rw [guildAddUser_run]
    cases hc : u.allowed env && !a.faults.headD false with
    | true => exact .inl ⟨g, w, by simp only [addedUser, ha, hc, if_true], rfl⟩
    | false => exact .inr ⟨by simp only [addedUser, ha, hc]; rfl, id⟩
  · have hnone : addedUser env a = none := by
      unfold addedUser
      split
      · rename_i g u w hact
        exact absurd ⟨g, u, w, hact⟩ ha
      · rfl
    obtain ⟨⟨hdb, -, -⟩, hk⟩ := start_within hs
    have hkeys : p.Within (fun s => KeysUnique s.db) fun _ _ => True :=
      hk.imp (fun _ _ => trivial) fun s t hs he =>
        ⟨effect_keys he (fun g u w hc => ha ⟨g, u, w, hc⟩) hs, trivial⟩
    refine .inr ⟨hnone, fun hb => ?_⟩
    exact (hkeys.run (fun _ => trivial) (fun _ _ _ _ _ => trivial) a.faults (hdb ▸ hb)).1

theorem keys_step {e : Event Input Bot} (h : step env e.input e.before = some e.after)
    (hb : KeysUnique e.before.db) : KeysUnique e.after.db ↔ NewName env e := by
  rcases step_keys h with ⟨g, w, hadd, hafter⟩ | ⟨hadd, hkeep⟩
  · rw [hafter, keys_addGuildUser hb, NewName, hadd]
    simp
  · refine ⟨fun _ => ?_, fun _ => hkeep hb⟩
    rw [NewName, hadd]
    exact fun _ hno => nomatch hno

/-- In a run from the empty database the keys of players stay unique exactly if each user
that is added is new to its guild. -/
theorem player_keys_unique {es : List (Event Input Bot)} (h : Run (step env) Bot.empty es b) :
    (∀ e ∈ es, KeysUnique e.after.db) ↔ ∀ e ∈ es, NewName env e := by
  have hempty : KeysUnique Bot.empty.db := Table.uniqueOn_empty
  exact h.always_iff (I := fun b => KeysUnique b.db) hempty fun e => keys_step

end Runs

/-- Bob leaves the guild list, is added by hand and comes back with the next list. -/
def listedAgain : List Input :=
  opening ["Bob"] ++ [does (.guildRemoveUser "Bob"), does (.guildAddUser "Bob"),
    does (.guildUpload "Atom" (.text ["Alice", "Bob"]))]

theorem player_keys_unique_listedAgain :
    let es := trace (step Env.ascii) Bot.empty listedAgain
    es.length = 6 ∧ ((∀ e ∈ es, KeysUnique e.after.db) ↔ ∀ e ∈ es, NewName Env.ascii e) :=
  ⟨by decide +kernel, player_keys_unique (run_trace _ _ _)⟩

/-- Bob is in the guild list and is added by hand. -/
theorem player_keys_shared :
    ∃ es, Run (step Env.ascii) Bot.empty es (endState (opening ["Bob"] ++ [does (.guildAddUser "Bob")])) ∧
      ¬KeysUnique (endState (opening ["Bob"] ++ [does (.guildAddUser "Bob")])).db :=
  ⟨_, run_trace _ _ _, by decide +kernel⟩

end AtomComm.LootSplit
