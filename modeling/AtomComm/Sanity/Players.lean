import AtomComm.Sanity.Members

/-! What a statement does to the players. `effect_players` puts the statements of all
actions into six kinds: the players stay as they are, some balances change, `/register`
binds a name, `/unregister` frees one, a row with no user comes, or rows go. -/

namespace AtomComm.LootSplit

/-- An action that deletes the row. -/
inductive Deletes (env : Env) (b : Bot) (r : Player) : Action → Prop
  | guildRemove {g u guildName} : u.allowed env → r.guildName = guildName → r.guildId = g →
      Deletes env b r (.slash g u (.guildRemove guildName))
  | guildRemoveUser {g u w} : u.allowed env → r.username = w → r.guildId = g →
      Deletes env b r (.slash g u (.guildRemoveUser w))
  | upload {a guildName g names} : UploadsList env b a guildName g names →
      r.guildName = guildName → r.guildId = g → Deletes env b r a

inductive PlayersChange (env : Env) (b : Bot) (a : Action) (t : Table Player) :
    Table Player → Prop
  | same : PlayersChange env b a t t
  | credit {p : Player → Bool} {balance : Player → Double} :
      PlayersChange env b a t (t.update p fun r => { r with balance := balance r })
  | register {g u w user} : a = .slash g u (.register w user) →
      PlayersChange env b a t (t.update (fun r => r.username = w)
        fun r => { r with userId := some (user.getD u.id), registered := true })
  | unregister {g u w user} : a = .slash g u (.unregister w user) →
      PlayersChange env b a t (t.update
        (fun r => r.username = w && r.userId = some (user.getD u.id))
          fun r => { r with userId := none, registered := false })
  | insert {v : Player} : v.userId = none → v.registered = false →
      PlayersChange env b a t (t.insert v)
  | delete {p : Player → Bool} : (∀ r, p r = true → Deletes env b r a) → PlayersChange env b a t (t.delete p)

section Effects
variable {env : Env} {b t t' : Bot} {a : Action}

theorem change_credit {db db' : DB} {p : Player → Bool} {amount : Option Double}
    (hdb : creditPlayers p amount db = some db') :
    PlayersChange env b a db.players db'.players := by
  obtain ⟨_, rfl⟩ := creditPlayers_some hdb
  exact .credit

theorem change_removeList {guildName : String} {g : ℤ} {db : DB}
    (h : ∀ r : Player, r.guildName = guildName → r.guildId = g → Deletes env b r a) :
    PlayersChange env b a db.players (removeGuildList guildName g db).players := by
  simp only [removeGuildList]
  refine .delete fun r hr => ?_
  obtain ⟨h1, h2⟩ := Bool.and_eq_true_iff.1 hr
  exact h r (of_decide_eq_true h1) (of_decide_eq_true h2)

theorem effect_players (he : Effect env b a t t') :
    PlayersChange env b a t.db.players t'.db.players := by
  cases he with
  | give _ hdb => exact change_credit hdb
  | remove _ hdb => exact change_credit hdb
  | register => exact .register rfl
  | unregister => exact .unregister rfl
  | guildRemove hu => exact change_removeList fun r hn hg => .guildRemove hu hn hg
  | guildRemoveUser hu =>
    simp only [removeGuildUser]
    refine .delete fun r hr => ?_
    obtain ⟨h1, h2⟩ := Bool.and_eq_true_iff.1 hr
    exact .guildRemoveUser hu (of_decide_eq_true h2) (of_decide_eq_true h1)
  | dropList hu => exact change_removeList fun r hn hg => .upload hu hn hg
  | guildAddUser => exact .insert rfl rfl
  | listName =>
    unfold uploadGuildName
    split
    · exact .same
    · exact .insert rfl rfl
  | add _ hdb =>
    rcases addPlayer_cases hdb with rfl | ⟨_, -, -, -, rfl⟩ <;> exact .same
  | listed => unfold addListedPlayer; split <;> exact .same
  | pay hp hf hdb =>
    rcases payout_cases hf hdb with ⟨_, rfl⟩ | ⟨_, _, rfl⟩ | ⟨_, _, rfl⟩ | rfl
    · exact .same
    · exact .same
    · dsimp only
      exact .credit
    · exact .same
  | _ => exact .same

end Effects

end AtomComm.LootSplit
