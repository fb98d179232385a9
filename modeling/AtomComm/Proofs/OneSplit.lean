import AtomComm.Sanity.Sessions

/-! Each guild has at most one active loot split. `/lootsplit create` reads that its guild
has none and inserts one two statements later; the completions of uploads that come in
between touch no session, and nothing makes an ended one active again. -/

namespace AtomComm.LootSplit

/-- A row that has ended stays so. -/
def Settles (r r' : Session) : Prop := r'.status = .active → r.status = .active

theorem Settles.refl (r : Session) : Settles r r := id

theorem Settles.trans (a b c : Session) (h : Settles a b) (h' : Settles b c) : Settles a c :=
  fun hc => h (h' hc)

def Single (b : Bot) : Prop := OneActive b.db

def NoneActive (g : ℤ) (db : DB) : Prop :=
  ∀ r ∈ db.lootsplitSessions.vals, r.status = .active → r.guildId ≠ g

theorem settles_of_kept {db db' : DB} (h : SessionsKept db db') :
    Table.Evolves Settles db.lootsplitSessions db'.lootsplitSessions :=
  h.evolves fun _ _ hst => hst.status

theorem NoneActive.kept {g : ℤ} {db db' : DB} (h : NoneActive g db) (hk : SessionsKept db db') :
    NoneActive g db' := by
  intro r' hr' hact hg
  obtain ⟨r, hr, hst⟩ := hk.mem_back hr'
  exact h r hr (hst.status hact) (hst.guildId.symm.trans hg)

theorem oneActive_kept {db db' : DB} (h : OneActive db) (hk : SessionsKept db db') :
    OneActive db' := by
  apply hk.uniqueOn h
  intro v w hst hact
  exact ⟨hst.status hact, hst.guildId⟩

theorem oneActive_create {db : DB} (h : OneActive db) {splitId name creator : String} {g : ℤ}
    (hg : NoneActive g db) :
    OneActive (createNewLootSplitSession splitId name g creator db) := by
  apply Table.uniqueOn_insert h
  intro _ w hw hact
  exact hg w hw hact

/-! ### Between the statements of `/lootsplit create` -/

/-- What a command may rely on, and what every thread guarantees. -/
def calm : Thread → Bot → Bot → Prop
  | .main => fun s t => SessionsKept s.db t.db
  | .upload _ => fun _ _ => True

def settling (i : Thread) (s t : Bot) : Prop :=
  Table.Evolves Settles s.db.lootsplitSessions t.db.lootsplitSessions ∧
    (i ≠ .main → SessionsKept s.db t.db)

theorem settling_of_kept {i : Thread} {s t : Bot} (h : SessionsKept s.db t.db) :
    settling i s t := ⟨settles_of_kept h, fun _ => h⟩

theorem settling_refl (i : Thread) (s : Bot) : settling i s s :=
  settling_of_kept (SessionsKept.refl s.db)

abbrev Guarded (i : Thread) (p : Cmd Reply) (s : Bot) : Prop :=
  p.Ok ⟨Single, calm i, settling i⟩ (fun _ _ => True) (fun _ _ => True) s

theorem NoneActive.drift {g : ℤ} {s t : Bot} (h : NoneActive g s.db)
    (hst : Sql.Contract.Drift ⟨Single, calm .main, settling .main⟩ s t) : NoneActive g t.db :=
  hst.stable (A := fun s => NoneActive g s.db) (fun _ _ hq _ hA => hA.kept hq) h

/-- The guild that the first query found without an active session still has none when the
insert runs. -/
theorem create_ok {env : Env} {g : ℤ} {u : User} {name splitId : String} {b : Bot}
    (hb : Single b) : Guarded .main (execute env g u (.create name splitId)) b := by
  show Guarded .main (requireRole env u (lootSplitCreateCommand g u name splitId)) b
  unfold requireRole lootSplitCreateCommand
  split
  · exact fun _ _ => trivial
  refine Sql.ok_query_bind hb (settling_refl _) (fun s _ hs => ?_) fun _ _ => trivial
  split
  · exact fun _ _ => trivial
  rename_i hno
  have hnone : NoneActive g s.db := isThereActiveSession_eq_false (by simpa using hno)
  refine Sql.ok_query_bind hs (settling_refl _) (fun t hst ht => ?_) fun _ _ => trivial
  split
  · exact fun _ _ => trivial
  have hstill : NoneActive g t.db := hnone.drift hst
  refine Sql.ok_bind.2 (Sql.ok_attempt (fun r r' hr hf => ?_) fun _ _ => trivial)
  have hinv : Single r := hr.inv ht
  have hfree : NoneActive g r.db := hstill.drift hr
  cases hf
  refine ⟨oneActive_create hinv hfree, ⟨?_, fun h => absurd rfl h⟩, fun _ _ _ _ => trivial⟩
  exact Table.evolves_insert Settles.refl _ _

theorem sessions_disciplined (env : Env) : (system env).Disciplined Single calm settling where
  start := by
    rintro i b b' p hI ⟨a, ha, hst⟩
    by_cases hcreate : ∃ g u name splitId, a = .slash g u (.create name splitId)
    · obtain ⟨g, u, name, splitId, rfl⟩ := hcreate
      cases hst
      obtain rfl : i = .main := ha
      exact ⟨hI, settling_refl _ _, create_ok hI⟩
    · obtain ⟨⟨hdb, -, -⟩, hk⟩ := start_within hst
      have hkept : ∀ s t, Effect env b a s t → SessionsKept s.db t.db := by
        intro s t he
        apply effect_sessions he
        intro g u name splitId hc
        exact hcreate ⟨g, u, name, splitId, hc⟩
      have hsame : SessionsKept b.db b'.db := by
        rw [hdb]
        exact SessionsKept.refl b.db
      have hI' : Single b' := oneActive_kept hI hsame
      refine ⟨hI', settling_of_kept hsame, Sql.Within.ok (hk.imp (fun _ _ => trivial) ?_) hI'⟩
      intro s t hs he
      exact ⟨oneActive_kept hs (hkept s t he), settling_of_kept (hkept s t he)⟩
  compat := by
    intro i j hij s t hst
    cases i with
    | main => exact hst.2 fun h => hij h.symm
    | upload => trivial
  refl := settling_refl

/-- In every state that commands, presses and completions reach, their statements in any
order, a guild has at most one active session, and a session that has ended stays so. -/
theorem one_active_split {env : Env} {P P' : Pool Thread Bot Reply}
    (h : (system env).Reaches (System.idle Bot.empty) P) (h' : (system env).Reaches P P') :
    P.state.db.lootsplitSessions.UniqueOn (fun r => r.status = .active) Session.guildId ∧
      ∀ r ∈ P.state.db.lootsplitSessions.rows, ∀ r' ∈ P'.state.db.lootsplitSessions.rows,
        r'.id = r.id → r.val.status = .inactive → r'.val.status = .inactive := by
  have hempty : Single Bot.empty := tidy_empty.oneActive
  have hgood := System.good_reaches (sessions_disciplined env) (System.good_idle hempty) h
  refine ⟨hgood.inv, fun r hr r' hr' hid hend => ?_⟩
  have hevolves : Table.Evolves Settles P.state.db.lootsplitSessions P'.state.db.lootsplitSessions :=
    System.rel_reaches (sessions_disciplined env)
      (T := fun s t => Table.Evolves Settles s.db.lootsplitSessions t.db.lootsplitSessions)
      (fun _ => Table.Evolves.refl Settles.refl _) (fun _ _ _ => Table.Evolves.trans Settles.trans)
      (fun _ _ _ hG => hG.1) hgood h'
  cases hact : r'.val.status with
  | inactive => rfl
  | active =>
    have hwas : r.val.status = .active := hevolves.row hr hr' hid hact
    rw [hend] at hwas
    cases hwas

/-- A split is confirmed and the guild opens the next one. -/
theorem one_active_split_next :
    let b := endState (submission ++ [pressConfirm 0 officer])
    let b' := final b (trace (step Env.ascii) b [does (.create "next" "S2")])
    b.db.lootsplitSessions.UniqueOn (fun r => r.status = .active) Session.guildId ∧
      ∀ r ∈ b.db.lootsplitSessions.rows, ∀ r' ∈ b'.db.lootsplitSessions.rows,
        r'.id = r.id → r.val.status = .inactive → r'.val.status = .inactive :=
  one_active_split (run_reaches (run_trace _ _ _)) (run_reaches (run_trace _ _ [does _]))

end AtomComm.LootSplit
