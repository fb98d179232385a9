import AtomComm.Spec.LootSplit.System

/-! What `/bal` shows. A balance is a floating number that payouts and gifts let grow; it is
read as an `int`, which keeps the low 32 bits of the truncated number, and only then made a
`long`. -/

namespace AtomComm.LootSplit

section Shown
variable {env : Env} {b : Bot} {g : ℤ} {u : User} {player : Option ℤ} {r : Player} {q : ℚ}

/-- The row that the queries of `/bal` stand on. -/
def balanceRow (db : DB) (u : User) (player : Option ℤ) : Option Player :=
  db.players.first fun r => r.userId = some (player.getD u.id)

theorem run_balanceCommand (hrow : balanceRow b.db u player = some r)
    (hreg : r.registered = true) :
    ((execute env g u (.bal player)).run [] b).1 =
      .ok (.balance (some r.username) r.balance.toInt32) := by
  have hregistered : isUserRegistered b.db (player.getD u.id) = true := by
    unfold balanceRow at hrow
    rw [isUserRegistered, hrow]
    exact hreg
  have hname : getPlayerName b.db (player.getD u.id) = some r.username := by
    unfold balanceRow at hrow
    rw [getPlayerName, hrow, Option.map_some]
  have hbalance : getPlayerBalance b.db (player.getD u.id) = r.balance.toInt32 := by
    unfold balanceRow at hrow
    rw [getPlayerBalance, hrow]
  simp only [execute, balanceCommand, read, Sql.bind_eq, Sql.pure_eq, Sql.run_query_bind,
    hregistered, hname, hbalance, Bool.not_true, Bool.false_eq_true, if_false, Sql.run_ret]

end Shown

/-- In every state, a balance that 64 bits hold is shown truncated exactly if 32 bits hold it
truncated. -/
theorem balance_shown_iff {env : Env} {b : Bot} {g : ℤ} {u : User} {player : Option ℤ} {r : Player}
    {q : ℚ} (hrow : balanceRow b.db u player = some r) (hreg : r.registered = true)
    (hq : r.balance = .fin q) (hbound : |q| < 2 ^ 63) :
    ((execute env g u (.bal player)).run [] b).1 =
        .ok (.balance (some r.username) (Double.trunc q)) ↔
      -(2 ^ 31) - 1 < q ∧ q < 2 ^ 31 := by
  rw [run_balanceCommand hrow hreg, ← Double.toInt32_eq_trunc hbound, hq]
  simp

/-- Alice is given 100. -/
def given (amount : ℚ) : Bot := endState (opening [] ++ [does (.give "Alice" amount)])

theorem balance_shown_iff_given :
    ((execute Env.ascii 1 officer (.bal none)).run [] (given 100)).1 =
        .ok (.balance (some "Alice") (Double.trunc 100)) ↔
      (-(2 ^ 31) - 1 : ℚ) < 100 ∧ (100 : ℚ) < 2 ^ 31 :=
  have hrow : balanceRow (given 100).db officer none =
      some ⟨some 1, "Alice", .fin 100, "Atom", true, 1⟩ := by decide +kernel
  balance_shown_iff hrow rfl rfl (by norm_num)

/-- Three thousand million are shown as a debt. -/
theorem balance_wraps :
    Reachable Env.ascii (given 3000000000) ∧
      balanceRow (given 3000000000).db officer none =
        some ⟨some 1, "Alice", .fin 3000000000, "Atom", true, 1⟩ ∧
      ((execute Env.ascii 1 officer (.bal none)).run [] (given 3000000000)).1 =
        .ok (.balance (some "Alice") (-1294967296)) ∧
      Double.trunc 3000000000 = 3000000000 := by
  exact ⟨endState_reachable _, by decide +kernel, by decide +kernel, by decide +kernel⟩

end AtomComm.LootSplit
