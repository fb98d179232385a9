import AtomComm.Sanity.Effects
import AtomComm.Sanity.Credits

/-! No two member rows of a split have the same username. Both inserts check it, one of
them ignoring case, in the statement that inserts, so it holds whatever the statements of
different threads do in between. -/

namespace AtomComm.LootSplit

def MembersDistinct (db : DB) : Prop :=
  db.lootsplitPlayers.UniqueOn (fun _ => True) fun r => (r.splitId, r.username)

/-- The credits of member rows change balances only. -/
theorem creditSplitPlayers_some {splitId : String} {halved : Bool} {amount : Option Double}
    {db db' : DB} (h : creditSplitPlayers splitId halved amount db = some db') :
    ∃ balance : SplitPlayer → Double, db' = { db with
      lootsplitPlayers := db.lootsplitPlayers.update
        (fun r => r.splitId = splitId && r.isHalved == halved)
        fun r => { r with balance := balance r } } := by
  obtain ⟨t, ht, rfl⟩ := Option.map_eq_some_iff.1 h
  exact ⟨_, by rw [Table.tryUpdate_column (fun r => rfl) ht]⟩

theorem creditPlayers_some {p : Player → Bool} {amount : Option Double} {db db' : DB}
    (h : creditPlayers p amount db = some db') :
    ∃ balance : Player → Double, db' = { db with
      players := db.players.update p fun r => { r with balance := balance r } } := by
  obtain ⟨t, ht, rfl⟩ := Option.map_eq_some_iff.1 h
  exact ⟨_, by rw [Table.tryUpdate_column (fun r => rfl) ht]⟩

theorem creditSession_some {splitId : String} {amount : Option Double} {db db' : DB}
    (h : creditSession splitId amount db = some db') :
    ∃ total : Session → Double, db' = { db with
      lootsplitSessions := db.lootsplitSessions.update (fun r => r.splitId = splitId)
        fun r => { r with amount := total r } } := by
  obtain ⟨t, ht, rfl⟩ := Option.map_eq_some_iff.1 h
  exact ⟨_, by rw [Table.tryUpdate_column (fun r => rfl) ht]⟩

/-- What the statements of a payout do, one case for each table. -/
theorem payout_cases {page : Page} {f : DB → Option DB} {db db' : DB} (hf : f ∈ payout page)
    (h : f db = some db') :
    (∃ total : Session → Double, db' = { db with
      lootsplitSessions := db.lootsplitSessions.update (fun r => r.splitId = page.splitId)
        fun r => { r with amount := total r } }) ∨
    (∃ (halved : Bool) (balance : SplitPlayer → Double), db' = { db with
      lootsplitPlayers := db.lootsplitPlayers.update
        (fun r => r.splitId = page.splitId && r.isHalved == halved)
        fun r => { r with balance := balance r } }) ∨
    (∃ (halved : Bool) (balance : Player → Double), db' = { db with
      players := db.players.update (fun r => inSplit db page.splitId halved r.username)
        fun r => { r with balance := balance r } }) ∨
    db' = endLootSplitSession page.guildId db := by
  simp only [payout, addBalanceToAllLootSplitPlayers, List.cons_append, List.nil_append,
    List.mem_cons, List.not_mem_nil, or_false] at hf
  rcases hf with rfl | rfl | rfl | rfl | rfl | rfl
  · exact .inl (creditSession_some h)
  · exact .inr (.inl ⟨_, creditSplitPlayers_some h⟩)
  · exact .inr (.inl ⟨_, creditSplitPlayers_some h⟩)
  · exact .inr (.inr (.inl ⟨_, creditPlayers_some h⟩))
  · exact .inr (.inr (.inl ⟨_, creditPlayers_some h⟩))
  · exact .inr (.inr (.inr (Option.some.inj h).symm))

/-- `/lootsplit add` finds no spelling of the name in the split and one in the guild, or does
nothing. -/
theorem addPlayer_cases {splitId : Option String} {uploadId w : String} {g : ℤ} {db db' : DB}
    (h : addPlayerToLootSplit splitId uploadId w g db = some db') :
    db' = db ∨ ∃ s, splitId = some s ∧
      (∀ m ∈ db.lootsplitPlayers.vals, m.splitId = s → LOWER m.username ≠ LOWER w) ∧
      (∃ r ∈ db.players.vals, LOWER r.username = LOWER w ∧ r.guildId = g) ∧
      db' = { db with
        lootsplitPlayers := db.lootsplitPlayers.insert ⟨s, uploadId, w, .fin 0, false, g⟩ } := by
  unfold addPlayerToLootSplit at h
  split at h
  · exact .inl (Option.some.inj h).symm
  · rename_i hno
    obtain ⟨s, rfl, rfl⟩ := Option.map_eq_some_iff.1 h
    refine .inr ⟨s, rfl, ?_⟩
    simpa [Table.any_eq_true, not_or] using hno

/-- The statement of a batch compares the name as it stands. -/
theorem listed_cases (uploadId splitId w : String) (g : ℤ) (db : DB) :
    addListedPlayer uploadId splitId w g db = db ∨
      (∀ m ∈ db.lootsplitPlayers.vals, m.splitId = splitId → m.username ≠ w) ∧
      (∃ r ∈ db.players.vals, r.username = w ∧ r.guildId = g) ∧
      addListedPlayer uploadId splitId w g db = { db with
        lootsplitPlayers :=
          db.lootsplitPlayers.insert ⟨splitId, uploadId, w, .fin 0, false, g⟩ } := by
  unfold addListedPlayer
  split
  · exact .inl rfl
  · rename_i hno
    refine .inr ?_
    simpa [Table.any_eq_true, not_or] using hno

/-- What a statement does to the members: nothing, an insert that has looked for the name, a
deletion, or an update that keeps split and name. -/
inductive MembersChange (env : Env) (b : Bot) (a : Action) (t : Table SplitPlayer) :
    Table SplitPlayer → Prop
  | same : MembersChange env b a t t
  | add {m : SplitPlayer} : (∀ q ∈ t.vals, q.splitId = m.splitId →
      LOWER q.username ≠ LOWER m.username) → MembersChange env b a t (t.insert m)
  | listed {target g} {m : SplitPlayer} : UploadsSplit env b a target g →
      (∀ q ∈ t.vals, q.splitId = m.splitId → q.username ≠ m.username) →
      MembersChange env b a t (t.insert m)
  | delete {p : SplitPlayer → Bool} : MembersChange env b a t (t.delete p)
  | update {p : SplitPlayer → Bool} {f : SplitPlayer → SplitPlayer} :
      (∀ m, (f m).splitId = m.splitId ∧ (f m).username = m.username) →
      MembersChange env b a t (t.update p f)

section Effects
variable {env : Env} {b t t' : Bot} {a : Action}

theorem effect_members (he : Effect env b a t t') :
    MembersChange env b a t.db.lootsplitPlayers t'.db.lootsplitPlayers := by
  cases he with
  | add _ hdb =>
    rcases addPlayer_cases hdb with rfl | ⟨s, -, hno, -, rfl⟩
    · exact .same
    · exact .add hno
  | @listed _ _ g uploadId splitId w _ hup =>
    rcases listed_cases uploadId splitId w g t.db with hsame | ⟨hno, -, hins⟩
    · rw [hsame]
      exact .same
    · rw [hins]
      exact .listed hup hno
  | removePlayer =>
    simp only [removePlayerFromLootSplit]
    exact .delete
  | half =>
    simp only [makePlayerBalanceHalvedInLootSplit]
    apply MembersChange.update
    exact fun _ => ⟨rfl, rfl⟩
  | pay _ hf hdb =>
    rcases payout_cases hf hdb with ⟨_, rfl⟩ | ⟨_, _, rfl⟩ | ⟨_, _, rfl⟩ | rfl
    · exact .same
    · dsimp only
      apply MembersChange.update
      exact fun _ => ⟨rfl, rfl⟩
    · exact .same
    · exact .same
  | give _ hdb => obtain ⟨_, rfl⟩ := creditPlayers_some hdb; exact .same
  | remove _ hdb => obtain ⟨_, rfl⟩ := creditPlayers_some hdb; exact .same
  | listName => unfold uploadGuildName; split <;> exact .same
  | _ => exact .same

theorem lower_ne {w w' : String} (h : LOWER w ≠ LOWER w') : w ≠ w' :=
  fun he => h (congrArg LOWER he)

theorem change_distinct {m m' : Table SplitPlayer} (hc : MembersChange env b a m m')
    (h : m.UniqueOn (fun _ => True) fun r => (r.splitId, r.username)) :
    m'.UniqueOn (fun _ => True) fun r => (r.splitId, r.username) := by
  cases hc with
  | same => exact h
  | add hno =>
    apply Table.uniqueOn_insert h
    intro _ q hq _ hk
    exact lower_ne (hno q hq (Prod.mk.inj hk).1) (Prod.mk.inj hk).2
  | listed _ hno =>
    apply Table.uniqueOn_insert h
    intro _ q hq _ hk
    exact hno q hq (Prod.mk.inj hk).1 (Prod.mk.inj hk).2
  | delete => exact Table.uniqueOn_delete h _
  | update hf =>
    exact Table.uniqueOn_update h fun v _ _ _ => ⟨trivial, Prod.ext (hf v).1 (hf v).2⟩

end Effects

theorem membersDistinct_effect {env : Env} {b : Bot} {a : Action} {t t' : Bot}
    (he : Effect env b a t t') (h : MembersDistinct t.db) : MembersDistinct t'.db :=
  change_distinct (effect_members he) h

theorem reachable_membersDistinct {env : Env} {b : Bot} (h : Reachable env b) :
    MembersDistinct b.db :=
  reachable_of_effects Table.uniqueOn_empty
    (fun _ _ _ _ he h => membersDistinct_effect he h) h

end AtomComm.LootSplit
