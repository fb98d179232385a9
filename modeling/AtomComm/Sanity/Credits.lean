import AtomComm.Spec.LootSplit.Commands

/-! What the five updates of a payout make of the database. A credit of a finite amount
never throws; all five together leave every table as it was but for the balances, and
`credited` is the result. -/

namespace AtomComm.LootSplit

/-- What a member row is credited. -/
def share (a : ℚ) (isHalved : Bool) : ℚ := if isHalved then 1 / 2 * a else a

/-- What the last two updates credit a players row of that username. -/
def gain (db : DB) (splitId : String) (a : ℚ) (username : String) : ℚ :=
  (if inSplit db splitId true username then share a true else 0) +
    if inSplit db splitId false username then share a false else 0

def credited (splitId : String) (a : ℚ) (db : DB) : DB :=
  { db with
    lootsplitSessions := db.lootsplitSessions.update (fun r => r.splitId = splitId)
      fun r => { r with amount := r.amount.plus a }
    lootsplitPlayers := db.lootsplitPlayers.update (fun r => r.splitId = splitId)
      fun r => { r with balance := r.balance.plus (share a r.isHalved) }
    players := db.players.mapRows
      fun r => { r with balance := r.balance.plus (gain db splitId a r.username) } }

theorem half_fin (a : ℚ) : half (some (.fin a)) = some (.fin (share a true)) := rfl

theorem creditPlayers_fin (p : Player → Bool) (a : ℚ) (db : DB) :
    creditPlayers p (some (.fin a)) db = some { db with
      players := db.players.update p fun r => { r with balance := r.balance.plus a } } := by
  unfold creditPlayers
  rw [Table.tryUpdate_total (g := fun r => { r with balance := r.balance.plus a }) (by simp)]
  rfl

theorem creditSession_fin (splitId : String) (a : ℚ) (db : DB) :
    creditSession splitId (some (.fin a)) db = some { db with
      lootsplitSessions := db.lootsplitSessions.update (fun r => r.splitId = splitId)
        fun r => { r with amount := r.amount.plus a } } := by
  unfold creditSession
  rw [Table.tryUpdate_total (g := fun r => { r with amount := r.amount.plus a }) (by simp)]
  rfl

theorem creditSplitPlayers_fin (splitId : String) (halved : Bool) (a : ℚ) (db : DB) :
    creditSplitPlayers splitId halved (some (.fin a)) db = some { db with
      lootsplitPlayers := db.lootsplitPlayers.update
        (fun r => r.splitId = splitId && r.isHalved == halved)
        fun r => { r with balance := r.balance.plus a } } := by
  unfold creditSplitPlayers
  rw [Table.tryUpdate_total (g := fun r => { r with balance := r.balance.plus a }) (by simp)]
  rfl

/-- Credits of member rows do not change who is in the split. -/
theorem inSplit_credit {db db' : DB} {q : SplitPlayer → Bool} {balance : SplitPlayer → Double}
    (h : db'.lootsplitPlayers = db.lootsplitPlayers.update q
      fun r => { r with balance := balance r })
    (splitId : String) (halved : Bool) (username : String) :
    inSplit db' splitId halved username = inSplit db splitId halved username := by
  simp only [inSplit, h, Table.any, Table.vals_update, List.any_map]
  refine congrArg (fun f => db.lootsplitPlayers.vals.any f) (funext fun r => ?_)
  simp only [Function.comp_apply]
  split <;> rfl

/-- The two updates of member rows as one. -/
theorem update_members (t : Table SplitPlayer) (splitId : String) (a : ℚ) :
    ((t.update (fun r => r.splitId = splitId && r.isHalved == false)
        fun r => { r with balance := r.balance.plus (share a false) }).update
      (fun r => r.splitId = splitId && r.isHalved == true)
        fun r => { r with balance := r.balance.plus (share a true) }) =
      t.update (fun r => r.splitId = splitId)
        fun r => { r with balance := r.balance.plus (share a r.isHalved) } := by
  simp only [Table.update_eq_mapRows, Table.mapRows_mapRows]
  refine Table.mapRows_congr fun r _ => ?_
  by_cases hs : r.splitId = splitId <;> cases hh : r.isHalved <;> simp [hs, hh]

/-- The two updates of players rows as one. -/
theorem update_players (t : Table Player) (p q : Player → Bool) (x y : ℚ)
    (hq : ∀ (r : Player) (z : Double), q { r with balance := z } = q r) :
    ((t.update p fun r => { r with balance := r.balance.plus x }).update q
        fun r => { r with balance := r.balance.plus y }) =
      t.mapRows fun r => { r with
        balance := r.balance.plus ((if p r then x else 0) + if q r then y else 0) } := by
  simp only [Table.update_eq_mapRows, Table.mapRows_mapRows]
  refine Table.mapRows_congr fun r _ => ?_
  cases hp : p r <;> cases hr : q r <;> simp [hq, hr]

theorem addBalance_fin (splitId : String) (a : ℚ) (db : DB) :
    Sql.applyAll (addBalanceToAllLootSplitPlayers splitId (some (.fin a))) db =
      some (credited splitId a db) := by
  simp only [addBalanceToAllLootSplitPlayers, Sql.applyAll, half_fin, creditSession_fin,
    creditSplitPlayers_fin, creditUsernames, creditPlayers_fin, Option.bind_some, credited,
    Option.some.injEq, DB.mk.injEq, true_and, and_true]
  refine ⟨?_, update_members db.lootsplitPlayers splitId a⟩
  rw [update_players _ _ _ _ _ fun _ _ => rfl]
  have hin : ∀ db' : DB, db'.lootsplitPlayers = ((db.lootsplitPlayers.update
      (fun r => r.splitId = splitId && r.isHalved == false)
        fun r => { r with balance := r.balance.plus a }).update
      (fun r => r.splitId = splitId && r.isHalved == true)
        fun r => { r with balance := r.balance.plus (share a true) }) →
      ∀ hv name, inSplit db' splitId hv name = inSplit db splitId hv name :=
    fun db' h => inSplit_credit (h.trans (update_members db.lootsplitPlayers splitId a)) splitId
  refine Table.mapRows_congr fun r _ => ?_
  refine congrArg (fun z => { r with balance := r.balance.plus z }) (congrArg₂ (· + ·) ?_ ?_)
  · rw [hin _ rfl]
  · rw [hin _ rfl]; rfl

end AtomComm.LootSplit
