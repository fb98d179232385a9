import AtomComm.Sanity.Blind

/-! How far the guilds are apart. Balances, registrations and splits are found by username,
user id and split id, with or without the guild, so two guilds are apart but for the rows
that share such a key: an action of one guild leaves the rows of another as they are behind
its masks, and what it answers depends on the rows of its guild and on those that carry a
key it looks up. -/

namespace AtomComm.LootSplit

/-- The players of other guilds that an action looks up. -/
def readsPlayer (env : Env) (b : Bot) : Action → Player → Bool
  | .slash _ u (.register w user) => nameOrId env.toRuntime w (user.getD u.id)
  | .slash _ u (.unregister w user) => nameOrId env.toRuntime w (user.getD u.id)
  | .slash _ u (.bal player) => hasId (player.getD u.id)
  | .slash _ _ .leaderboard => fun _ => true
  | .slash _ u (.create ..) => hasId u.id
  | .slash _ _ (.add w _) => foldsTo env.toRuntime w
  | .slash _ _ (.removePlayer w) => foldsTo env.toRuntime w
  | .press i u .confirm => fun r => names b (.press i u .confirm) r.username
  | _ => fun _ => false

/-- The splits that an action looks up by their ids. -/
def readsSplit (b : Bot) : Action → String → Bool
  | .slash g _ (.add ..) => fun s => getLootSplitId b.db g = some s
  | .slash g _ (.removePlayer _) => fun s => getLootSplitId b.db g = some s
  | .slash g _ (.half _) => fun s => getLootSplitId b.db g = some s
  | .slash g _ (.lootSplitGuildUpload ..) => fun s => getLootSplitId b.db g = some s
  | .slash g _ (.lootSplitPartyUpload ..) => fun s => getLootSplitId b.db g = some s
  | .slash _ _ (.confirm splitId) => fun s => s = splitId
  | .slash _ _ (.info splitId) => fun s => s = splitId
  | .press i _ .confirm => fun s => (b.pages[i]?).any fun page => page.splitId = s
  | .complete j _ _ => fun s =>
    match b.pending[j]? with
    | some (.lootSplit splitId _) => s = splitId
    | _ => false
  | _ => fun _ => false

/-- The states agree on what an action of guild `g` looks up. -/
structure Alike (env : Env) (g : ℤ) (a : Action) (b b' : Bot) : Prop where
  agree : Agree (readsPlayer env b a) (readsSplit b a) g b.db b'.db
  words : ∀ u uploadId ws, a = .slash g u (.lootSplitPartyUpload uploadId ws) →
    sameWords g b.db b'.db
  page : ∀ i u button, a = .press i u button → b.pages[i]? = b'.pages[i]?
  download : ∀ j ns uploadId, a = .complete j ns uploadId → b.pending[j]? = b'.pending[j]?

/-- What the program of a command keeps besides the agreement. -/
def besides (b : Bot) (g : ℤ) (u : User) (c : Command) : DB → DB → Prop :=
  match c with
  | .add .. => activeIn (readsSplit b (.slash g u c)) g
  | .removePlayer _ => activeIn (readsSplit b (.slash g u c)) g
  | .half _ => activeIn (readsSplit b (.slash g u c)) g
  | .lootSplitGuildUpload .. => activeIn (readsSplit b (.slash g u c)) g
  | .lootSplitPartyUpload .. => partyView (readsSplit b (.slash g u c)) g
  | _ => always

section Outcome
variable {env : Env} {b b' : Bot} {g : ℤ} {a : Action}

theorem blind_execute (u : User) (c : Command) :
    (execute env g u c).Blind (Sees (readsPlayer env b (.slash g u c))
      (readsSplit b (.slash g u c)) g (besides b g u c)) := by
  cases c with
  | give w amount => exact blind_give w amount
  | remove w amount => exact blind_remove w amount
  | register w user => exact blind_register w user
  | unregister w user => exact blind_unregister w user
  | bal player => exact blind_bal player
  | leaderboard => exact blind_leaderboard
  | guestsetup role duration => exact blind_guestSetup role duration
  | guildUpload guildName source => exact blind_requireRole (blind_guildUpload guildName source)
  | guildRemove guildName =>
    exact blind_requireRole (blind_write_ret (lockstep_removeGuildList guildName))
  | guildRemoveUser w => exact blind_requireRole (blind_write_ret (lockstep_removeGuildUser w))
  | guildAddUser w => exact blind_requireRole (blind_write_ret (lockstep_addGuildUser w))
  | create name splitId => exact blind_requireRole (blind_create name splitId)
  | add w uploadId => exact blind_requireRole (blind_add w uploadId)
  | removePlayer w => exact blind_requireRole (blind_removePlayer w)
  | half w => exact blind_requireRole (blind_half w)
  | set silver items => exact blind_requireRole (blind_set silver items)
  | confirm splitId => exact blind_requireRole (blind_confirmCommand (by simp [readsSplit]))
  | info splitId =>
    exact blind_requireRole (blind_splitFigures (by simp [readsSplit]) fun _ _ _ => trivial)
  | list => exact blind_list
  | lootSplitGuildUpload uploadId source =>
    exact blind_requireRole (blind_lootSplitGuildUpload uploadId source)
  | lootSplitPartyUpload uploadId words =>
    exact blind_requireRole (blind_partyUpload uploadId words)

theorem Alike.besides {u : User} {c : Command} (h : Alike env g (.slash g u c) b b') :
    besides b g u c b.db b'.db := by
  cases c with
  | add => exact fun s hs => decide_eq_true hs
  | removePlayer => exact fun s hs => decide_eq_true hs
  | half => exact fun s hs => decide_eq_true hs
  | lootSplitGuildUpload => exact fun s hs => decide_eq_true hs
  | lootSplitPartyUpload => exact ⟨fun s hs => decide_eq_true hs, h.words _ _ _ rfl⟩
  | _ => trivial

/-- From states that agree on what it looks up, an action has one outcome. -/
theorem alike_outcome (fs : List Bool) (hg : guildOf b a = some g) (h : Alike env g a b b') :
    (perform env ⟨a, fs⟩ b).map Prod.fst = (perform env ⟨a, fs⟩ b').map Prod.fst := by
  cases a with
  | slash g' u c =>
    obtain rfl := Option.some.inj hg
    exact congrArg some ((blind_execute u c).run fs ⟨h.agree, h.besides⟩).1
  | press i u button =>
    simp only [perform, start, ← h.page i u button rfl]
    cases hpage : b.pages[i]? with
    | none => rfl
    | some page =>
      simp only [Option.map_some, onButtonInteraction]
      split
      · rfl
      · cases button with
        | cancel => rfl
        | confirm =>
          have hs : readsSplit b (.press i u .confirm) page.splitId = true := by
            simp [readsSplit, hpage]
          have hroster : roster (names b (.press i u .confirm)) page b.db b'.db :=
            fun halved n hn => names_of_inSplit hpage hn
          have hsees : Sees (fun r => names b (.press i u .confirm) r.username)
              (readsSplit b (.press i u .confirm)) g (roster (names b (.press i u .confirm)) page)
              (finishPage i b) (finishPage i b') := ⟨h.agree, hroster⟩
          exact congrArg some ((blind_confirm hs).run fs hsees).1
  | complete j ns uploadId =>
    simp only [perform, start, ← h.download j ns uploadId rfl]
    cases hupload : b.pending[j]? with
    | none => rfl
    | some upload =>
      have hguild : upload.guildId = g := by simpa [guildOf, hupload] using hg
      have hblind : (completeUpload ns uploadId upload).Blind
          (Sees (readsPlayer env b (.complete j ns uploadId))
            (readsSplit b (.complete j ns uploadId)) g always) := by
        cases upload with
        | guild guildName g' =>
          obtain rfl : g' = g := hguild
          exact Sql.blind_bind (blind_uploadGuildUsers guildName ns) fun _ =>
            blind_sendPaginator ns
        | lootSplit splitId g' =>
          obtain rfl : g' = g := hguild
          exact blind_uploadSplitPlayers (by simp [readsSplit, hupload]) uploadId ns
            (lockstep_words fun _ _ _ => trivial) fun _ _ _ _ => trivial
      have hsees : Sees (readsPlayer env b (.complete j ns uploadId))
          (readsSplit b (.complete j ns uploadId)) g always
          { b with pending := b.pending.eraseIdx j } { b' with pending := b'.pending.eraseIdx j } :=
        ⟨h.agree, trivial⟩
      exact congrArg some (hblind.run fs hsees).1

end Outcome

/-- An action of guild `g`, whatever throws, leaves the rows of every other guild as they
were behind its masks, and has one outcome in all states that agree on what it looks up. -/
theorem guild_isolation (env : Env) (g : ℤ) (a : Action) (fs : List Bool) :
    (∀ b t h, guildOf b a = some g → g ≠ h → step env ⟨a, fs⟩ b = some t →
      Untouched h b a b.db t.db) ∧
    ∀ b b', guildOf b a = some g → Alike env g a b b' →
      (perform env ⟨a, fs⟩ b).map Prod.fst = (perform env ⟨a, fs⟩ b').map Prod.fst :=
  ⟨fun _ _ _ hg hne hs => step_untouched hs hg hne, fun _ _ hg h => alike_outcome fs hg h⟩

def opened : Bot := endState (opening [])

/-- Guild 2 lists another Alice. -/
def namesake : Bot :=
  endState (opening [] ++ [⟨.slash 2 officer (.guildUpload "Other" (.text ["Alice", "Zed"])), []⟩])

def giveAlice : Action := .slash 1 officer (.give "Alice" 5)

theorem guild_isolation_namesake :
    (∃ t, step Env.ascii ⟨giveAlice, []⟩ namesake = some t ∧
      Untouched 2 namesake giveAlice namesake.db t.db) ∧
    (perform Env.ascii ⟨giveAlice, []⟩ opened).map Prod.fst =
      (perform Env.ascii ⟨giveAlice, []⟩ namesake).map Prod.fst := by
  obtain ⟨hframe, hsame⟩ := guild_isolation Env.ascii 1 giveAlice []
  obtain ⟨t, ht⟩ : ∃ t, step Env.ascii ⟨giveAlice, []⟩ namesake = some t :=
    Option.isSome_iff_exists.1 (by decide +kernel)
  have hagree : Agree (fun _ => false) (fun _ => false) 1 opened.db namesake.db := by
    refine ⟨?_, ?_, ?_⟩ <;> unfold Table.AgreeOn <;> decide +kernel
  have halike : Alike Env.ascii 1 giveAlice opened namesake :=
    ⟨hagree, by simp [giveAlice], by simp [giveAlice], by simp [giveAlice]⟩
  exact ⟨⟨t, ht, hframe namesake t 2 rfl (by decide) ht⟩, hsame opened namesake rfl halike⟩

/-- A gift in guild 1 changes a row of guild 2, and `/bal` in guild 3 tells apart two states
that have no row of guild 3. -/
theorem guilds_not_apart :
    (∃ t, step Env.ascii ⟨giveAlice, []⟩ namesake = some t ∧
      t.db.players.select (fun r => r.guildId = 2) ≠
        namesake.db.players.select fun r => r.guildId = 2) ∧
    opened.db.players.select (fun r => r.guildId = 3) = [] ∧
    opened.db.lootsplitSessions.select (fun r => r.guildId = 3) = [] ∧
    opened.db.lootsplitPlayers.select (fun m => m.guildId = 3) = [] ∧
    (perform Env.ascii ⟨.slash 3 officer (.bal none), []⟩ opened).map Prod.fst ≠
      (perform Env.ascii ⟨.slash 3 officer (.bal none), []⟩ Bot.empty).map Prod.fst := by
  refine ⟨?_, by decide +kernel, by decide +kernel, by decide +kernel, by decide +kernel⟩
  obtain ⟨t, ht⟩ : ∃ t, step Env.ascii ⟨giveAlice, []⟩ namesake = some t :=
    Option.isSome_iff_exists.1 (by decide +kernel)
  have hchanged : ∀ t ∈ step Env.ascii ⟨giveAlice, []⟩ namesake,
      t.db.players.select (fun r => r.guildId = 2) ≠
        namesake.db.players.select fun r => r.guildId = 2 := by decide +kernel
  exact ⟨t, ht, hchanged t ht⟩

end AtomComm.LootSplit
