import AtomComm.Sanity.Members

/-! The payout of a split against the rule that each member is credited its share once, on
the one players row it has in the guild of the split. The updates join the two tables by
username alone, so the rule holds exactly when each member row has such a row and, unless
nothing is paid, no players row of another guild carries a member's name. -/

namespace AtomComm.LootSplit

/-- The players row of the member in the guild of the split. -/
def Owns (m : SplitPlayer) (r : Player) : Prop := r.username = m.username ∧ r.guildId = m.guildId

instance (m : SplitPlayer) (r : Player) : Decidable (Owns m r) :=
  inferInstanceAs (Decidable (_ ∧ _))

/-- The row, after `x` was added to its balance, is in the table. -/
def Credited (t : Table Player) (r : Row Player) (x : ℚ) : Prop :=
  ⟨r.id, { r.val with balance := r.val.balance.plus x }⟩ ∈ t.rows

/-- From `db` to `db'`, the payout of `a` on the split is conserved. -/
structure Conserves (splitId : String) (a : ℚ) (db db' : DB) : Prop where
  members : db'.lootsplitPlayers = db.lootsplitPlayers.update (fun m => m.splitId = splitId)
    fun m => { m with balance := m.balance.plus (share a m.isHalved) }
  once : ∀ m ∈ db.lootsplitPlayers.vals, m.splitId = splitId →
    ∃ r ∈ db.players.rows, Owns m r.val ∧ (∀ q ∈ db.players.rows, Owns m q.val → q = r) ∧
      Credited db'.players r (share a m.isHalved)
  apart : ∀ m ∈ db.lootsplitPlayers.rows, ∀ m' ∈ db.lootsplitPlayers.rows,
    m.val.splitId = splitId → m'.val.splitId = splitId →
      ∀ r, Owns m.val r → Owns m'.val r → m = m'
  others : ∀ r ∈ db.players.rows,
    (∀ m ∈ db.lootsplitPlayers.vals, m.splitId = splitId → ¬Owns m r.val) → r ∈ db'.players.rows
  total : db'.players.total (fun r => r.balance.toRat) - db.players.total (fun r => r.balance.toRat) =
    db'.lootsplitPlayers.total (fun m => m.balance.toRat) -
      db.lootsplitPlayers.total (fun m => m.balance.toRat)

/-- Every member row of the split has exactly one players row of its name in its guild. -/
def Matched (db : DB) (splitId : String) : Prop :=
  ∀ m ∈ db.lootsplitPlayers.vals, m.splitId = splitId →
    ∃ r ∈ db.players.rows, Owns m r.val ∧ ∀ q ∈ db.players.rows, Owns m q.val → q = r

/-- No players row of another guild has the name of a member of the split. -/
def NoNamesake (db : DB) (splitId : String) : Prop :=
  ∀ m ∈ db.lootsplitPlayers.vals, m.splitId = splitId →
    ∀ r ∈ db.players.vals, r.username = m.username → r.guildId = m.guildId

/-- All balances are rationals. -/
def Exact (db : DB) : Prop :=
  (∀ r ∈ db.players.vals, r.balance.IsFin) ∧ ∀ m ∈ db.lootsplitPlayers.vals, m.balance.IsFin

section Gain
variable {db : DB} {splitId : String} {a : ℚ}

theorem inSplit_iff {halved : Bool} {username : String} :
    inSplit db splitId halved username = true ↔
      ∃ m ∈ db.lootsplitPlayers.vals, m.splitId = splitId ∧ m.isHalved = halved ∧
        m.username = username := by
  simp [inSplit, Table.any_eq_true, and_assoc]

theorem gain_eq_zero {username : String}
    (h : ∀ m ∈ db.lootsplitPlayers.vals, m.splitId = splitId → m.username ≠ username) :
    gain db splitId a username = 0 := by
  have hno : ∀ halved, ¬inSplit db splitId halved username = true := by
    intro halved hin
    obtain ⟨m, hm, hs, -, hn⟩ := inSplit_iff.1 hin
    exact h m hm hs hn
  simp [gain, hno]

/-- Names being distinct, the two updates together credit a member's name its share. -/
theorem gain_eq_share (hd : MembersDistinct db) {m : SplitPlayer}
    (hm : m ∈ db.lootsplitPlayers.vals) (hs : m.splitId = splitId) :
    gain db splitId a m.username = share a m.isHalved := by
  have hin : ∀ halved, inSplit db splitId halved m.username = true ↔ m.isHalved = halved := by
    intro halved
    rw [inSplit_iff]
    constructor
    · rintro ⟨m', hm', hs', hh, hn⟩
      obtain ⟨q, hq, rfl⟩ := Table.mem_vals.1 hm
      obtain ⟨q', hq', rfl⟩ := Table.mem_vals.1 hm'
      rw [hd q hq q' hq' trivial trivial (by simp [hs, hs', hn])]
      exact hh
    · intro hh
      exact ⟨m, hm, hs, hh, rfl⟩
  cases hh : m.isHalved <;> simp [gain, hin, hh]

theorem gain_eq_total (hd : MembersDistinct db) (username : String) :
    gain db splitId a username = db.lootsplitPlayers.total fun m =>
      if m.splitId = splitId ∧ m.username = username then share a m.isHalved else 0 := by
  by_cases h : ∃ m ∈ db.lootsplitPlayers.rows, m.val.splitId = splitId ∧ m.val.username = username
  · obtain ⟨m, hm, hs, rfl⟩ := h
    rw [gain_eq_share hd (Table.val_mem hm) hs, Table.total_single hm]
    · simp [hs]
    · intro q hq hne
      refine if_neg fun hc => hne (hd q hq m hm trivial trivial ?_)
      simp [hc.1, hc.2, hs]
  · rw [gain_eq_zero, Table.total_zero]
    · exact fun m hm => if_neg fun hc => h (by
        obtain ⟨q, hq, rfl⟩ := Table.mem_vals.1 hm
        exact ⟨q, hq, hc⟩)
    · intro m hm hs hn
      obtain ⟨q, hq, rfl⟩ := Table.mem_vals.1 hm
      exact h ⟨q, hq, hs, hn⟩

/-- Every players row gets the gain of its name. -/
theorem credited_row (splitId : String) (a : ℚ) {r : Row Player} (hr : r ∈ db.players.rows) :
    Credited (credited splitId a db).players r (gain db splitId a r.val.username) :=
  List.mem_map.2 ⟨r, hr, rfl⟩

/-- With exact balances a row of the result says what was added to it. -/
theorem Credited.unique (he : Exact db) {r : Row Player} (hr : r ∈ db.players.rows) {x : ℚ}
    (h : Credited (credited splitId a db).players r x) : x = gain db splitId a r.val.username := by
  have hrow := Table.id_inj h (credited_row splitId a hr) rfl
  have hbal := congrArg (fun q : Row Player => q.val.balance) hrow
  exact ((he.1 r.val (Table.val_mem hr)).plus_inj).1 hbal

/-- What the rows of a name are credited in total, if each member has one row of its name. -/
theorem total_gain (hd : MembersDistinct db)
    (hone : ∀ m ∈ db.lootsplitPlayers.vals, m.splitId = splitId → ∃ r ∈ db.players.rows,
      m.username = r.val.username ∧ ∀ q ∈ db.players.rows, m.username = q.val.username → q = r) :
    (db.players.total fun r => gain db splitId a r.username) =
      db.lootsplitPlayers.total fun m => if m.splitId = splitId then share a m.isHalved else 0 := by
  rw [Table.total_congr fun r _ => gain_eq_total hd r.username]
  exact Table.total_join (fun m : SplitPlayer => share a m.isHalved) hone

theorem total_players (he : Exact db) :
    (credited splitId a db).players.total (fun r => r.balance.toRat) =
      db.players.total (fun r => r.balance.toRat) +
        db.players.total fun r => gain db splitId a r.username := by
  rw [← Table.total_add]
  refine (Table.total_mapRows _ fun r : Player => r.balance.toRat).trans
    (Table.total_congr fun r hr => ?_)
  exact (he.1 r hr).toRat_plus _

theorem total_members (he : Exact db) :
    (credited splitId a db).lootsplitPlayers.total (fun m => m.balance.toRat) =
      db.lootsplitPlayers.total (fun m => m.balance.toRat) +
        db.lootsplitPlayers.total fun m => if m.splitId = splitId then share a m.isHalved else 0 := by
  rw [← Table.total_add]
  refine (Table.total_mapRows _ fun m : SplitPlayer => m.balance.toRat).trans
    (Table.total_congr fun m hm => ?_)
  by_cases hs : m.splitId = splitId
  · simp [hs, (he.2 m hm).toRat_plus]
  · simp [hs]

end Gain

section Conserved
variable {db : DB} {splitId : String} {a : ℚ}

theorem share_ne_zero (ha : a ≠ 0) (halved : Bool) : share a halved ≠ 0 := by
  cases halved <;> simp [share, ha]

/-- Without namesakes elsewhere a member's row is the one row of its name. -/
theorem Matched.one_row (hm : Matched db splitId) (hn : NoNamesake db splitId) :
    ∀ m ∈ db.lootsplitPlayers.vals, m.splitId = splitId → ∃ r ∈ db.players.rows,
      m.username = r.val.username ∧ ∀ q ∈ db.players.rows, m.username = q.val.username → q = r := by
  intro m hmem hs
  obtain ⟨r, hr, ho, huniq⟩ := hm m hmem hs
  exact ⟨r, hr, ho.1.symm, fun q hq he =>
    huniq q hq ⟨he.symm, hn m hmem hs q.val (Table.val_mem hq) he.symm⟩⟩

theorem conserves_of_matched (hd : MembersDistinct db) (he : Exact db) (hm : Matched db splitId)
    (h : a = 0 ∨ NoNamesake db splitId) : Conserves splitId a db (credited splitId a db) where
  members := rfl
  once := by
    intro m hmem hs
    obtain ⟨r, hr, ho, huniq⟩ := hm m hmem hs
    refine ⟨r, hr, ho, huniq, ?_⟩
    rw [← gain_eq_share hd hmem hs, ← ho.1]
    exact credited_row splitId a hr
  apart := by
    intro m hmem m' hmem' hs hs' r ho ho'
    exact hd m hmem m' hmem' trivial trivial (by simp [hs, hs', ← ho.1, ← ho'.1])
  others := by
    intro r hr hno
    have h0 : gain db splitId a r.val.username = 0 := by
      rcases h with rfl | hn
      · simp [gain, share]
      · refine gain_eq_zero fun m hmem hs he' => hno m hmem hs ⟨he'.symm, ?_⟩
        exact hn m hmem hs r.val (Table.val_mem hr) he'.symm
    have := credited_row splitId a hr
    rw [h0] at this
    simpa [Credited] using this
  total := by
    rw [total_players he, total_members he, add_sub_cancel_left, add_sub_cancel_left]
    rcases h with rfl | hn
    · simp [gain, share, Table.total]
    · exact total_gain hd (hm.one_row hn)

theorem noNamesake_of_conserves (hd : MembersDistinct db) (he : Exact db) (ha : a ≠ 0)
    (h : Conserves splitId a db (credited splitId a db)) : NoNamesake db splitId := by
  intro m hmem hs r hr hname
  obtain ⟨q, hq, rfl⟩ := Table.mem_vals.1 hr
  by_contra hguild
  -- a member of the same name is `m` itself, so no member owns the row
  have hno : ∀ m' ∈ db.lootsplitPlayers.vals, m'.splitId = splitId → ¬Owns m' q.val := by
    intro m' hmem' hs' ho
    obtain ⟨p, hp, rfl⟩ := Table.mem_vals.1 hmem
    obtain ⟨p', hp', rfl⟩ := Table.mem_vals.1 hmem'
    have heq := hd p' hp' p hp trivial trivial (by simp [hs, hs', ← ho.1, hname])
    exact hguild (heq ▸ ho.2)
  have hsame : Credited (credited splitId a db).players q 0 := by
    simpa [Credited] using h.others q hq hno
  have := hsame.unique he hq
  rw [hname, gain_eq_share hd hmem hs] at this
  exact share_ne_zero ha _ this.symm

end Conserved

/-- The payout of `a` on a split is conserved exactly when every member has one players row
in its guild and, unless `a` is zero, none in another. -/
theorem payout_conserves_iff {env : Env} {b : Bot} (h : Reachable env b) (he : Exact b.db)
    (splitId : String) (a : ℚ) :
    (∃ db', Sql.applyAll (addBalanceToAllLootSplitPlayers splitId (some (.fin a))) b.db = some db' ∧
      Conserves splitId a b.db db') ↔
    Matched b.db splitId ∧ (a = 0 ∨ NoNamesake b.db splitId) := by
  have hd := reachable_membersDistinct h
  rw [addBalance_fin]
  constructor
  · rintro ⟨db', hdb, hc⟩
    obtain rfl := Option.some.inj hdb
    refine ⟨fun m hm hs => ?_, ?_⟩
    · obtain ⟨r, hr, ho, huniq, -⟩ := hc.once m hm hs
      exact ⟨r, hr, ho, huniq⟩
    · by_cases ha : a = 0
      · exact .inl ha
      · exact .inr (noNamesake_of_conserves hd he ha hc)
  · rintro ⟨hm, hn⟩
    exact ⟨_, rfl, conserves_of_matched hd he hm hn⟩

/-- A split of two listed members. -/
def listedSplit : Bot := endState (opening ["Bob"] ++
  [does (.add "Alice" "U1"), does (.add "Bob" "U2"), does (.half "Bob")])

theorem payout_conserves_iff_listedSplit :
    ∃ db', Sql.applyAll (addBalanceToAllLootSplitPlayers "S" (some (.fin 70))) listedSplit.db =
      some db' ∧ Conserves "S" 70 listedSplit.db db' := by
  refine (payout_conserves_iff (endState_reachable _) ?_ "S" 70).2 ⟨?_, .inr ?_⟩
  · unfold Exact; decide +kernel
  · unfold Matched; decide +kernel
  · unfold NoNamesake; decide +kernel

/-- `/lootsplit add` checks the name ignoring case and stores it as it was typed. -/
def typedSplit : Bot := endState (opening ["Bob"] ++ [does (.add "bob" "U1")])

/-- The member typed in lower case is credited in the split and nowhere else. -/
theorem payout_loses_typed_member :
    Reachable Env.ascii typedSplit ∧ Exact typedSplit.db ∧
      ¬∃ db', Sql.applyAll (addBalanceToAllLootSplitPlayers "S" (some (.fin 70))) typedSplit.db =
        some db' ∧ Conserves "S" 70 typedSplit.db db' := by
  refine ⟨endState_reachable _, by unfold Exact; decide +kernel, ?_⟩
  rintro ⟨db', -, hc⟩
  have hm : (⟨"S", "U1", "bob", .fin 0, false, 1⟩ : SplitPlayer) ∈
      typedSplit.db.lootsplitPlayers.vals := by decide +kernel
  obtain ⟨r, hr, ho, -⟩ := hc.once _ hm rfl
  have hno : ∀ r ∈ typedSplit.db.players.rows, ¬Owns ⟨"S", "U1", "bob", .fin 0, false, 1⟩ r.val := by
    decide +kernel
  exact hno r hr ho

end AtomComm.LootSplit
