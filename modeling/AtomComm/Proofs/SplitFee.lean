import AtomComm.Proofs.Amount
import AtomComm.Sanity.Credits

/-! The accounts of a split: the guild's fee on the pages of `/lootsplit confirm` and `info`
against what the payout leaves of the value. The fee is three tenths of the amount, which is
seven tenths of the value divided by the members already. -/

namespace AtomComm.LootSplit

/-- What the balances of the guild's members of the split come to. -/
def guildBalances (db : DB) (splitId : String) (g : ℤ) : ℚ :=
  db.lootsplitPlayers.total fun m =>
    if m.splitId = splitId ∧ m.guildId = g then m.balance.toRat else 0

/-- The guild's members of the split have exact balances, and none is halved. -/
def FullMembers (db : DB) (splitId : String) (g : ℤ) : Prop :=
  ∀ m ∈ db.lootsplitPlayers.vals, m.splitId = splitId → m.guildId = g →
    m.isHalved = false ∧ m.balance.IsFin

instance (db : DB) (splitId : String) (g : ℤ) : Decidable (FullMembers db splitId g) :=
  inferInstanceAs (Decidable (∀ _ ∈ _, _ → _ → _ ∧ _))

/-- A payout credits the amount to each of them. -/
theorem guildBalances_credited {db : DB} {splitId : String} {g : ℤ}
    (h : FullMembers db splitId g) (a : ℚ) :
    guildBalances (credited splitId a db) splitId g - guildBalances db splitId g =
      getLootSplitPlayersCount db splitId g * a := by
  have hcount : (db.lootsplitPlayers.total fun m =>
      if m.splitId = splitId ∧ m.guildId = g then a else 0) =
        getLootSplitPlayersCount db splitId g * a := by
    rw [Table.total_count, nsmul_eq_mul, getLootSplitPlayersCount]
    simp only [Bool.decide_and]
  rw [sub_eq_iff_eq_add, ← hcount, guildBalances, guildBalances, ← Table.total_add]
  refine (Table.total_mapRows _ fun m : SplitPlayer =>
    if m.splitId = splitId ∧ m.guildId = g then m.balance.toRat else 0).trans
      (Table.total_congr fun m hm => ?_)
  by_cases hs : m.splitId = splitId
  · by_cases hg : m.guildId = g
    · obtain ⟨hfull, hfin⟩ := h m hm hs hg
      simp [hs, hg, hfull, share, hfin.toRat_plus, add_comm]
    · simp [hs, hg]
  · simp [hs]

/-- The command shows these figures. -/
def Shows (p : Cmd Reply) (b : Bot) (n : ℕ) (fee pay : ℚ) : Prop :=
  ∃ pages, (p.run [] b).1 = .ok (.split pages) ∧ pages.memberCount = n ∧
    pages.guildSplitFee = some (.fin fee) ∧ pages.payoutPerPlayer = some (.fin pay)

section Figures
variable (env : Env) {b : Bot} {g : ℤ} (u : User) {splitId : String} {info : Session}

theorem run_getPaginatorEmbed (b : Bot) (g : ℤ) (info : Session) (title : String)
    (amount : Option Double) :
    ∃ pages, (getPaginatorEmbed env title g info amount).run [] b = (.ok pages, b) ∧
      pages.memberCount = getLootSplitPlayersCount b.db info.splitId g ∧
      pages.guildSplitFee = amount.map (Double.scale (3 / 10)) ∧
      pages.payoutPerPlayer = amount :=
  ⟨_, rfl, rfl, rfl, rfl⟩

/-- The pages have the amount that is paid out, and three tenths of it for the guild. -/
theorem run_splitFigures (hactive : isThereActiveSession b.db g = true)
    (hinfo : getLootSplitSessionInfo b.db splitId = some info) {amount : Option Double}
    (hamount : amountToSplit info.silver info.items (getLootSplitPlayersCount b.db splitId g) =
      amount) (title : String) (k : Session → Option Double → SplitPages → Cmd Reply) :
    ∃ pages, (splitFigures env title g splitId k).run [] b = (k info amount pages).run [] b ∧
      pages.memberCount = getLootSplitPlayersCount b.db splitId g ∧
      pages.guildSplitFee = amount.map (Double.scale (3 / 10)) ∧
      pages.payoutPerPlayer = amount := by
  obtain ⟨-, rfl⟩ := splitId_of_info hinfo
  obtain ⟨pages, hrun, hfigures⟩ :=
    run_getPaginatorEmbed env b g info title amount
  refine ⟨pages, ?_, hfigures⟩
  simp only [splitFigures, read, Sql.bind_eq, Sql.pure_eq, Sql.run_query_bind, hactive, hinfo,
    getLootSplitSilverAndItems, Option.map_some, Bool.not_true, Bool.false_eq_true, if_false,
    hamount]
  rw [Sql.run_bind, hrun]

/-- With members and a sum in range both commands show the fee and the payout. -/
theorem shows_figures (hactive : isThereActiveSession b.db g = true)
    (hinfo : getLootSplitSessionInfo b.db splitId = some info) {pay : ℚ}
    (hamount : amountToSplit info.silver info.items (getLootSplitPlayersCount b.db splitId g) =
      some (.fin pay)) :
    Shows (lootSplitConfirmCommand env g u splitId) b (getLootSplitPlayersCount b.db splitId g)
        (3 / 10 * pay) pay ∧
      Shows (lootSplitInfoCommand env g splitId) b (getLootSplitPlayersCount b.db splitId g)
        (3 / 10 * pay) pay := by
  constructor
  · obtain ⟨pages, hrun, hfigures⟩ := run_splitFigures env hactive hinfo hamount
      "Loot Split Submission" fun info amount pages => do
        openPage u g info.splitId amount
        return .split pages
    exact ⟨pages, congrArg Prod.fst hrun, hfigures⟩
  · obtain ⟨pages, hrun, hfigures⟩ := run_splitFigures env hactive hinfo hamount
      "Loot Split Info" fun _ _ pages => return .split pages
    exact ⟨pages, congrArg Prod.fst hrun, hfigures⟩

end Figures

/-- A fee on the divided amount makes up for the rest of the value only if there is none. -/
theorem fee_and_payout_iff {n : ℕ} (hn : 1 ≤ n) (silver items : ℤ) :
    3 / 10 * exactShare silver items n + n * exactShare silver items n = silver + items ↔
      silver + items = 0 := by
  have hcount : (1 : ℚ) ≤ n := by exact_mod_cast hn
  have hsum : (silver : ℚ) + items = 0 ↔ silver + items = 0 := by exact_mod_cast Iff.rfl
  rw [← hsum, exactShare]
  generalize (silver : ℚ) + items = value
  field_simp
  constructor
  · intro h
    have hzero : value * (30 * n - 21) = 0 := by linarith
    rcases mul_eq_zero.1 hzero with h | h
    · exact h
    · linarith
  · rintro rfl
    ring

/-- The fee on the pages of both commands and what the payout credits the members in total
make the value of the split exactly if it has none. -/
theorem split_accounts_iff {env : Env} {b : Bot} {g : ℤ} {u : User} {splitId : String}
    {info : Session} (hactive : isThereActiveSession b.db g = true)
    (hinfo : getLootSplitSessionInfo b.db splitId = some info)
    (hs : 0 ≤ info.silver) (hi : 0 ≤ info.items) (hsum : info.silver + info.items < 2 ^ 31)
    (hn : 1 ≤ getLootSplitPlayersCount b.db splitId g) (hm : FullMembers b.db splitId g) :
    ∃ fee pay db', let n := getLootSplitPlayersCount b.db splitId g
      Shows (lootSplitConfirmCommand env g u splitId) b n fee pay ∧
        Shows (lootSplitInfoCommand env g splitId) b n fee pay ∧
        Sql.applyAll (addBalanceToAllLootSplitPlayers splitId (some (.fin pay))) b.db = some db' ∧
        guildBalances db' splitId g - guildBalances b.db splitId g = n * pay ∧
        (fee + n * pay = info.silver + info.items ↔ info.silver + info.items = 0) := by
  have hwrap : Double.wrap32 (info.silver + info.items) = info.silver + info.items :=
    Double.wrap32_eq (by omega) hsum
  obtain ⟨hconfirm, hshown⟩ :=
    shows_figures env u hactive hinfo (amountToSplit_iff.2 ⟨hn, hwrap⟩)
  exact ⟨_, _, _, hconfirm, hshown, addBalance_fin _ _ _, guildBalances_credited hm _,
    fee_and_payout_iff hn _ _⟩

theorem split_accounts_iff_priced :
    ∃ fee pay db', let n := getLootSplitPlayersCount priced.db "S" 1
      Shows (lootSplitConfirmCommand Env.ascii 1 officer "S") priced n fee pay ∧
        Shows (lootSplitInfoCommand Env.ascii 1 "S") priced n fee pay ∧
        Sql.applyAll (addBalanceToAllLootSplitPlayers "S" (some (.fin pay))) priced.db = some db' ∧
        guildBalances db' "S" 1 - guildBalances priced.db "S" 1 = n * pay ∧
        (fee + n * pay = ((100 : ℤ) : ℚ) + ((0 : ℤ) : ℚ) ↔ (100 : ℤ) + 0 = 0) :=
  have hinfo : getLootSplitSessionInfo priced.db "S" =
      some ⟨"S", .active, "raid", 100, 0, .fin 0, "alice", 1⟩ := by decide +kernel
  split_accounts_iff (by decide +kernel) hinfo (by decide) (by decide) (by decide)
    (by decide +kernel) (by decide +kernel)

/-- Of 100 silver Alice gets 70 and the guild 21. -/
theorem split_accounts_short :
    getLootSplitSilverAndItems priced.db "S" = some (100, 0) ∧ FullMembers priced.db "S" 1 ∧
      getLootSplitPlayersCount priced.db "S" 1 = 1 ∧
      Shows (lootSplitConfirmCommand Env.ascii 1 officer "S") priced 1 21 70 ∧
      Shows (lootSplitInfoCommand Env.ascii 1 "S") priced 1 21 70 ∧
      (21 : ℚ) + 1 * 70 ≠ 100 + 0 := by
  have hfee : (3 / 10 * 70 : ℚ) = 21 := by norm_num
  have hcount : getLootSplitPlayersCount priced.db "S" 1 = 1 := by decide +kernel
  have hinfo : getLootSplitSessionInfo priced.db "S" =
      some ⟨"S", .active, "raid", 100, 0, .fin 0, "alice", 1⟩ := by decide +kernel
  have hamount : amountToSplit 100 0 (getLootSplitPlayersCount priced.db "S" 1) =
      some (.fin 70) := by decide +kernel
  have hactive : isThereActiveSession priced.db 1 = true := by decide +kernel
  obtain ⟨hconfirm, hshown⟩ := shows_figures Env.ascii officer hactive hinfo hamount
  rw [hcount, hfee] at hconfirm hshown
  exact ⟨by decide +kernel, by decide +kernel, hcount, hconfirm, hshown, by norm_num⟩

end AtomComm.LootSplit
