import AtomComm.Sanity.Press

/-! A confirm press is not a transaction. Its six updates commit one by one, so a statement
that throws leaves those before it in place. -/

namespace AtomComm.LootSplit

/-- After a press the database is the one before it with the updates applied, in order, that
precede the first statement that throws; the press reports success if none does. -/
theorem press_commits_prefix {env : Env} {b t : Bot} {a : Action} {page : Page} {fs : List Bool}
    {r : Except Exn Reply} (hp : Pays b a page) (h : perform env ⟨a, fs⟩ b = some (r, t)) :
    ∃ k ≤ 6, Sql.applyAll ((payout page).take k) b.db = some t.db ∧
      (∀ i < k, fs.getD i false = false) ∧
      (k < 6 → ¬r.isOk ∧ (fs.getD k false = true ∨
        ∃ f, (payout page)[k]? = some f ∧ f t.db = none)) ∧
      (k = 6 → r.isOk ∧ Sql.applyAll (payout page) b.db = some t.db) := by
  have hlen : (payout page).length = 6 := rfl
  obtain ⟨k, hc, hok⟩ := press_cases hp h
  refine ⟨k, hc.le, hc.applied, hc.before, fun hk => ⟨fun hr => ?_, ?_⟩, fun hk => ⟨?_, ?_⟩⟩
  · exact hk.ne (hok.1 hr)
  · exact (hc.thrown hk).imp id fun hnone => ⟨_, List.getElem?_eq_getElem hk, hnone⟩
  · exact hok.2 hk
  · rw [← hc.applied, hk, ← hlen, List.take_length]

theorem submitted_pays : Pays submitted (.press 0 officer .confirm) submittedPage :=
  .press (by decide +kernel) rfl (by decide +kernel)

/-- The press with its second statement made to throw. -/
def interruption : Input := ⟨.press 0 officer .confirm, [false, true]⟩

theorem interrupted : ∃ x, perform Env.ascii interruption submitted = some x :=
  Option.isSome_iff_exists.1 (by decide +kernel)

theorem press_commits_prefix_interrupted :
    ∃ r t, perform Env.ascii interruption submitted = some (r, t) ∧
      ∃ k ≤ 6, Sql.applyAll ((payout submittedPage).take k) submitted.db = some t.db ∧
        (∀ i < k, interruption.faults.getD i false = false) ∧
        (k < 6 → ¬r.isOk ∧ (interruption.faults.getD k false = true ∨
          ∃ f, (payout submittedPage)[k]? = some f ∧ f t.db = none)) ∧
        (k = 6 → r.isOk ∧ Sql.applyAll (payout submittedPage) submitted.db = some t.db) := by
  obtain ⟨⟨r, t⟩, h⟩ := interrupted
  exact ⟨r, t, h, press_commits_prefix submitted_pays h⟩

/-- The first update is in place after the press and the others are not. -/
theorem press_not_atomic : Pays submitted interruption.action submittedPage ∧
    ∃ r t, perform Env.ascii interruption submitted = some (r, t) ∧
      t.db ≠ submitted.db ∧ Sql.applyAll (payout submittedPage) submitted.db ≠ some t.db := by
  obtain ⟨⟨r, t⟩, h⟩ := interrupted
  have hdb : ∀ x ∈ perform Env.ascii interruption submitted,
      x.2.db ≠ submitted.db ∧ Sql.applyAll (payout submittedPage) submitted.db ≠ some x.2.db := by
    decide +kernel
  exact ⟨submitted_pays, r, t, h, hdb _ h⟩

end AtomComm.LootSplit
