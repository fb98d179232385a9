import AtomComm.Sanity.Press

/-! Sessions and submission pages over a run of uninterrupted events. `step_sessions` and
`step_pages` say how one step changes them; from these, if no `/lootsplit create` draws a
split id that is taken, every guild has one active session at most, a split id names one
session, and the creator that a page captured is that of its own session while this is
active. -/

namespace AtomComm.LootSplit

/-- A session row keeps what identifies it, and does not become active again. -/
structure SessionStep (r r' : Session) : Prop where
  splitId : r'.splitId = r.splitId
  guildId : r'.guildId = r.guildId
  sessionCreator : r'.sessionCreator = r.sessionCreator
  status : r'.status = .active → r.status = .active

theorem SessionStep.refl (r : Session) : SessionStep r r := ⟨rfl, rfl, rfl, id⟩

theorem SessionStep.trans (a b c : Session) (h : SessionStep a b) (h' : SessionStep b c) :
    SessionStep a c :=
  ⟨h'.splitId.trans h.splitId, h'.guildId.trans h.guildId,
    h'.sessionCreator.trans h.sessionCreator, fun hc => h.status (h'.status hc)⟩

abbrev SessionsKept (db db' : DB) : Prop :=
  Table.Maps SessionStep db.lootsplitSessions db'.lootsplitSessions

theorem SessionsKept.refl (db : DB) : SessionsKept db db :=
  Table.Maps.refl SessionStep.refl db.lootsplitSessions

/-- Nothing but `/lootsplit create` adds a session. -/
theorem effect_sessions {env : Env} {b : Bot} {a : Action} {t t' : Bot} (he : Effect env b a t t')
    (ha : ∀ g u name splitId, a ≠ .slash g u (.create name splitId)) :
    SessionsKept t.db t'.db := by
  cases he with
  | create hu => exact absurd rfl (ha _ _ _ _)
  | set hu =>
    simp only [SessionsKept, setLootSplitSilverAndItems]
    refine Table.maps_update SessionStep.refl t.db.lootsplitSessions fun r => ?_
    exact ⟨rfl, rfl, rfl, id⟩
  | pay hp hf hdb =>
    rcases payout_cases hf hdb with ⟨_, rfl⟩ | ⟨_, _, rfl⟩ | ⟨_, _, rfl⟩ | rfl
    · simp only [SessionsKept]
      refine Table.maps_update SessionStep.refl t.db.lootsplitSessions fun r => ?_
      exact ⟨rfl, rfl, rfl, id⟩
    · exact SessionsKept.refl t.db
    · exact SessionsKept.refl t.db
    · simp only [SessionsKept, endLootSplitSession]
      refine Table.maps_update SessionStep.refl t.db.lootsplitSessions fun r => ?_
      exact ⟨rfl, rfl, rfl, fun h => Status.noConfusion h⟩
  | give _ hdb => obtain ⟨_, rfl⟩ := creditPlayers_some hdb; exact SessionsKept.refl t.db
  | remove _ hdb => obtain ⟨_, rfl⟩ := creditPlayers_some hdb; exact SessionsKept.refl t.db
  | listName => unfold uploadGuildName; split <;> exact SessionsKept.refl t.db
  | add _ hdb =>
    rcases addPlayer_cases hdb with rfl | ⟨_, -, -, -, rfl⟩ <;> exact SessionsKept.refl t.db
  | listed => unfold addListedPlayer; split <;> exact SessionsKept.refl t.db
  | _ => exact SessionsKept.refl t.db

/-- Nothing but `/lootsplit confirm` opens a page. -/
theorem effect_pages {env : Env} {b : Bot} {a : Action} {t t' : Bot} (he : Effect env b a t t')
    (ha : ∀ g u splitId, a ≠ .slash g u (.confirm splitId)) : t'.pages = t.pages := by
  cases he with
  | page hu => exact absurd rfl (ha _ _ _)
  | _ => rfl

/-! ### One step -/

/-- `/lootsplit create` does nothing, or adds a session to a guild without an active one. -/
theorem create_run (env : Env) (g : ℤ) (u : User) (name splitId : String) (b : Bot)
    (fs : List Bool) :
    let t := ((execute env g u (.create name splitId)).run fs b).2
    t = b ∨ (isThereActiveSession b.db g = false ∧
      t = { b with db := createNewLootSplitSession splitId name g u.name b.db }) := by
  simp only [execute, requireRole, lootSplitCreateCommand, read, write, tryWrite, Sql.bind_eq,
    Sql.pure_eq, Sql.run_ite, Sql.run_faulty_query_bind, Sql.run_attempt_bind, Sql.run_ret]
  split
  · exact .inl rfl
  split
  · exact .inl rfl
  split
  · exact .inl rfl
  rename_i hact
  split
  · exact .inl rfl
  split
  · exact .inl rfl
  split
  · rename_i hdb
    cases hdb
    exact .inr ⟨by simpa using hact, rfl⟩
  · exact .inl rfl

/-- The submission page that `/lootsplit confirm` opens. -/
def openedPage (db : DB) (g : ℤ) (u : User) (info : Session) : Page :=
  ⟨u.id, info.splitId,
    amountToSplit info.silver info.items (getLootSplitPlayersCount db info.splitId g),
    getLootSplitSessionCreator db g, false, g⟩

theorem splitId_of_info {db : DB} {splitId : String} {info : Session}
    (h : getLootSplitSessionInfo db splitId = some info) :
    info ∈ db.lootsplitSessions.vals ∧ info.splitId = splitId := by
  obtain ⟨hm, hs⟩ := Table.first_mem h
  exact ⟨hm, by simpa using hs⟩

/-- `/lootsplit confirm` does nothing, or opens a page for a split that exists. -/
theorem confirm_run (env : Env) (g : ℤ) (u : User) (splitId : String) (b : Bot)
    (fs : List Bool) :
    let t := ((execute env g u (.confirm splitId)).run fs b).2
    t = b ∨ ∃ info, getLootSplitSessionInfo b.db splitId = some info ∧
      t = { b with pages := b.pages ++ [openedPage b.db g u info] } := by
  simp only [execute, requireRole, lootSplitConfirmCommand, splitFigures, read, Sql.bind_eq,
    Sql.pure_eq, Sql.run_ite, Sql.run_faulty_query_bind, Sql.run_ret]
  split
  · exact .inl rfl
  split
  · exact .inl rfl
  split
  · exact .inl rfl
  split
  · exact .inl rfl
  cases hinfo : getLootSplitSessionInfo b.db splitId with
  | none => exact .inl (by simp [getLootSplitSilverAndItems, hinfo])
  | some info =>
    obtain ⟨-, rfl⟩ := splitId_of_info hinfo
    simp only [getLootSplitSilverAndItems, hinfo, Option.map_some, getPaginatorEmbed, openPage,
      Sql.exec, read, Sql.bind_eq, Sql.pure_eq, Sql.bind_assoc, Sql.ret_bind,
      Sql.run_faulty_query_bind, Sql.run_attempt_bind, Sql.run_ret]
    split
    · exact .inl rfl
    split
    · exact .inl rfl
    split
    · exact .inl rfl
    split
    · exact .inl rfl
    split
    · exact .inl rfl
    split
    · rename_i hpage
      cases hpage
      exact .inr ⟨info, rfl, rfl⟩
    · exact .inl rfl

/-- The pages without the flags that presses set. -/
def Bot.unflagged (b : Bot) : List Page :=
  b.pages.map fun page => { page with isSessionFinished := false }

/-- A step adds a session to a guild without an active one, or no session. -/
theorem step_sessions {env : Env} {a : Input} {b t : Bot} (h : step env a b = some t) :
    (∃ g u name splitId, a.action = .slash g u (.create name splitId) ∧
      isThereActiveSession b.db g = false ∧
      t = { b with db := createNewLootSplitSession splitId name g u.name b.db }) ∨
    SessionsKept b.db t.db := by
  obtain ⟨b', p, hs, rfl⟩ := step_eq_some h
  by_cases ha : ∃ g u name splitId, a.action = .slash g u (.create name splitId)
  · obtain ⟨g, u, name, splitId, ha⟩ := ha
    rw [ha] at hs
    cases hs
    rcases create_run env g u name splitId b a.faults with ht | ⟨hno, ht⟩
    · rw [ht]; exact .inr (SessionsKept.refl b.db)
    · exact .inl ⟨g, u, name, splitId, ha, hno, ht⟩
  · obtain ⟨⟨hdb, -, -⟩, hk⟩ := start_within hs
    have hw : p.Within (fun _ => True) fun s t => SessionsKept s.db t.db :=
      hk.imp (fun _ h => h) fun s t _ he => ⟨trivial, effect_sessions he
        fun g u name splitId hc => ha ⟨g, u, name, splitId, hc⟩⟩
    refine .inr (hdb ▸ (hw.run (fun s => SessionsKept.refl s.db) ?_ a.faults trivial).2)
    exact fun _ _ _ => Table.Maps.trans SessionStep.trans

/-- A step opens a page for a split that exists, or no page. -/
theorem step_pages {env : Env} {a : Input} {b t : Bot} (h : step env a b = some t) :
    (∃ g u splitId info, a.action = .slash g u (.confirm splitId) ∧
      getLootSplitSessionInfo b.db splitId = some info ∧
      t = { b with pages := b.pages ++ [openedPage b.db g u info] }) ∨
    t.unflagged = b.unflagged := by
  obtain ⟨b', p, hs, rfl⟩ := step_eq_some h
  by_cases ha : ∃ g u splitId, a.action = .slash g u (.confirm splitId)
  · obtain ⟨g, u, splitId, ha⟩ := ha
    rw [ha] at hs
    cases hs
    rcases confirm_run env g u splitId b a.faults with ht | ⟨info, hinfo, ht⟩
    · rw [ht]; exact .inr rfl
    · exact .inl ⟨g, u, splitId, info, ha, hinfo, ht⟩
  · obtain ⟨⟨-, -, hpages⟩, hk⟩ := start_within hs
    have hw : p.Within (fun _ => True) fun s t => t.pages = s.pages :=
      hk.imp (fun _ h => h) fun s t _ he => ⟨trivial, effect_pages he
        fun g u splitId hc => ha ⟨g, u, splitId, hc⟩⟩
    have hsame : (p.run a.faults b').2.pages = b'.pages :=
      (hw.run (fun _ => rfl) (fun _ _ _ h h' => h'.trans h) a.faults trivial).2
    refine .inr ?_
    rw [Bot.unflagged, hsame]
    exact hpages

/-! ### Runs whose split ids are drawn fresh -/

def OneActive (db : DB) : Prop :=
  db.lootsplitSessions.UniqueOn (fun r => r.status = .active) Session.guildId

def SplitIdsUnique (db : DB) : Prop :=
  db.lootsplitSessions.UniqueOn (fun _ => True) Session.splitId

/-- The page's split exists, and the page has its creator while it is active in the guild. -/
def Bound (db : DB) (page : Page) : Prop :=
  (∃ r ∈ db.lootsplitSessions.vals, r.splitId = page.splitId) ∧
    ∀ r ∈ db.lootsplitSessions.vals, r.splitId = page.splitId → r.guildId = page.guildId →
      r.status = .active → page.sessionCreator = some r.sessionCreator

structure Tidy (b : Bot) : Prop where
  oneActive : OneActive b.db
  splitIds : SplitIdsUnique b.db
  pages : ∀ page ∈ b.unflagged, Bound b.db page

def drawnId : Action → Option String
  | .slash _ _ (.create _ splitId) => some splitId
  | _ => none

/-- The id that a `/lootsplit create` draws is not taken. -/
def Fresh (e : Event Input Bot) : Prop :=
  ∀ splitId ∈ drawnId e.input.action,
    ∀ r ∈ e.before.db.lootsplitSessions.vals, r.splitId ≠ splitId

instance (e : Event Input Bot) : Decidable (Fresh e) := inferInstanceAs (Decidable (∀ _ ∈ _, _))

theorem tidy_empty : Tidy Bot.empty :=
  ⟨Table.uniqueOn_empty, Table.uniqueOn_empty, fun _ h => nomatch h⟩

theorem activeSession_some {db : DB} {g : ℤ} {r : Session} (h : activeSession db g = some r) :
    r ∈ db.lootsplitSessions.vals ∧ r.guildId = g ∧ r.status = .active := by
  obtain ⟨hm, hp⟩ := Table.first_mem h
  exact ⟨hm, by simpa using hp⟩

theorem isThereActiveSession_eq_false {db : DB} {g : ℤ} (h : isThereActiveSession db g = false) :
    ∀ r ∈ db.lootsplitSessions.vals, r.status = .active → r.guildId ≠ g := by
  intro r hr hs hg
  have : 0 < db.lootsplitSessions.count fun r => r.status = .active && r.guildId = g :=
    Table.count_pos.2 ⟨r, hr, by simp [hs, hg]⟩
  simp [isThereActiveSession, this] at h

/-- With one active session a guild's first active row is its active row. -/
theorem activeSession_eq {db : DB} (h : OneActive db) {r : Session}
    (hr : r ∈ db.lootsplitSessions.vals) (hs : r.status = .active) :
    activeSession db r.guildId = some r := by
  obtain ⟨w, hw⟩ := Table.first_isSome_of_mem
    (p := fun q => q.guildId = r.guildId && q.status = .active) hr (by simp [hs])
  obtain ⟨hm, hg, ha⟩ := activeSession_some hw
  obtain ⟨q, hq, rfl⟩ := Table.mem_vals.1 hr
  obtain ⟨q', hq', rfl⟩ := Table.mem_vals.1 hm
  rw [h q hq q' hq' hs ha hg.symm]
  exact (h q hq q' hq' hs ha hg.symm) ▸ hw

theorem Bound.kept {db db' : DB} {page : Page} (h : Bound db page) (hk : SessionsKept db db') :
    Bound db' page := by
  obtain ⟨⟨r, hr, hs⟩, hc⟩ := h
  refine ⟨?_, fun r' hr' hs' hg' ha' => ?_⟩
  · obtain ⟨r', hr', hst⟩ := hk.mem hr
    exact ⟨r', hr', hst.splitId.trans hs⟩
  · obtain ⟨r, hr, hst⟩ := hk.mem_back hr'
    rw [hst.sessionCreator]
    exact hc r hr (hst.splitId ▸ hs') (hst.guildId ▸ hg') (hst.status ha')

theorem tidy_step {env : Env} {e : Event Input Bot} (hf : Fresh e)
    (h : step env e.input e.before = some e.after) (ht : Tidy e.before) : Tidy e.after := by
  have hpages : ∀ page ∈ e.after.unflagged, Bound e.before.db page := by
    intro page hpage
    rcases step_pages h with ⟨g, u, splitId, info, -, hinfo, hafter⟩ | hsame
    · rw [hafter, Bot.unflagged, List.map_append, List.mem_append] at hpage
      rcases hpage with hold | hnew
      · exact ht.pages page hold
      · obtain ⟨hm, hs⟩ := splitId_of_info hinfo
        obtain rfl : page = openedPage e.before.db g u info := by simpa [openedPage] using hnew
        refine ⟨⟨info, hm, rfl⟩, fun r hr _ hg ha => ?_⟩
        obtain rfl : r.guildId = g := hg
        simp [openedPage, getLootSplitSessionCreator, activeSession_eq ht.oneActive hr ha]
    · exact ht.pages page (hsame ▸ hpage)
  rcases step_sessions h with ⟨g, u, name, splitId, hact, hno, hafter⟩ | hkept
  · have hfresh := hf splitId (by rw [hact]; rfl)
    have hdb : e.after.db.lootsplitSessions = e.before.db.lootsplitSessions.insert
        ⟨splitId, .active, name, 0, 0, .fin 0, u.name, g⟩ := by rw [hafter]; rfl
    refine ⟨?_, ?_, fun page hpage => ?_⟩
    · rw [OneActive, hdb]
      exact Table.uniqueOn_insert ht.oneActive fun _ w hw ha =>
        isThereActiveSession_eq_false hno w hw ha
    · rw [SplitIdsUnique, hdb]
      exact Table.uniqueOn_insert ht.splitIds fun _ w hw _ => hfresh w hw
    · obtain ⟨⟨r, hr, hs⟩, hc⟩ := hpages page hpage
      rw [Bound, hdb, Table.vals_insert]
      refine ⟨⟨r, List.mem_append_left _ hr, hs⟩, fun q hq hqs hg ha => ?_⟩
      rcases List.mem_append.1 hq with hold | hnew
      · exact hc q hold hqs hg ha
      · obtain rfl := List.mem_singleton.1 hnew
        exact absurd (hs.trans hqs.symm) (hfresh r hr)
  · refine ⟨hkept.uniqueOn ht.oneActive fun v w hst ha => ⟨hst.status ha, hst.guildId⟩,
      hkept.uniqueOn ht.splitIds fun v w hst _ => ⟨trivial, hst.splitId⟩, fun page hpage => ?_⟩
    exact (hpages page hpage).kept hkept

theorem run_tidy {env : Env} {b : Bot} {es : List (Event Input Bot)}
    (h : Run (step env) Bot.empty es b) (hf : ∀ e ∈ es, Fresh e) : Tidy b :=
  h.invariant tidy_empty (fun _ hf hs ht => tidy_step hf hs ht) hf

end AtomComm.LootSplit
