import AtomComm.Sanity.Sessions

/-! When a confirm press pays. A press is timely if the session of its page is the active
one of the guild and no statement throws; then it pays an active split of its creator and
closes that split alone. A split all of whose payouts are
timely is paid once. Nothing in the code makes a press timely: the page keeps its split id
and its creator, and neither is compared with the database again. -/

namespace AtomComm.LootSplit

/-- A press that gets to the payout comes in time, if it is one of those that `which` picks. -/
def Timely (which : Page → Prop) (e : Event Input Bot) : Prop :=
  ∀ page, Pays e.before e.input.action page → which page →
    getLootSplitId e.before.db page.guildId = some page.splitId ∧
      Sql.applyAll (payout page) e.before.db ≠ none ∧ ∀ i < 6, e.input.faults.getD i false = false

instance (which : Page → Prop) [DecidablePred which] (e : Event Input Bot) :
    Decidable (Timely which e) :=
  decidable_of_iff (∀ page ∈ payingPage e.before e.input.action, which page →
    getLootSplitId e.before.db page.guildId = some page.splitId ∧
      Sql.applyAll (payout page) e.before.db ≠ none ∧ ∀ i < 6, e.input.faults.getD i false = false)
    (forall_congr' fun _ => imp_congr pays_iff.symm Iff.rfl)

section Press
variable {env : Env} {e : Event Input Bot} {page : Page}

/-- A payout of which no statement throws is applied whole. -/
theorem press_pays (hs : step env e.input e.before = some e.after)
    (hp : Pays e.before e.input.action page)
    (hall : Sql.applyAll (payout page) e.before.db ≠ none)
    (hfaults : ∀ i < 6, e.input.faults.getD i false = false) :
    Sql.applyAll (payout page) e.before.db = some e.after.db := by
  obtain ⟨⟨r, t⟩, hr, rfl⟩ := Option.map_eq_some_iff.1 hs
  obtain ⟨k, hc, -⟩ := press_cases hp hr
  have hk : k = (payout page).length := by
    by_contra hne
    have hlt : k < (payout page).length := lt_of_le_of_ne hc.le hne
    rcases hc.thrown hlt with hf | hnone
    · rw [hfaults k hlt] at hf; cases hf
    · exact hall (Sql.applyAll_eq_none hlt hc.applied hnone)
  have happ := hc.applied
  rw [hk, List.take_length] at happ
  exact happ

/-- What the whole payout makes of the sessions: an amount, and the end of the guild's. -/
theorem payout_sessions {db db' : DB} (h : Sql.applyAll (payout page) db = some db') :
    ∃ total : Session → Double, db'.lootsplitSessions =
      (db.lootsplitSessions.update (fun r => r.splitId = page.splitId)
        fun r => { r with amount := total r }).update (fun r => r.guildId = page.guildId)
          fun r => { r with status := .inactive } := by
  obtain ⟨db₁, h1, h⟩ := Option.bind_eq_some_iff.1 h
  obtain ⟨db₂, h2, h⟩ := Option.bind_eq_some_iff.1 h
  obtain ⟨db₃, h3, h⟩ := Option.bind_eq_some_iff.1 h
  obtain ⟨db₄, h4, h⟩ := Option.bind_eq_some_iff.1 h
  obtain ⟨db₅, h5, h⟩ := Option.bind_eq_some_iff.1 h
  cases h
  obtain ⟨total, rfl⟩ := creditSession_some h1
  obtain ⟨_, rfl⟩ := creditSplitPlayers_some h2
  obtain ⟨_, rfl⟩ := creditSplitPlayers_some h3
  obtain ⟨_, rfl⟩ := creditPlayers_some h4
  obtain ⟨_, rfl⟩ := creditPlayers_some h5
  exact ⟨total, rfl⟩

/-- What a press finds of its split and makes of the sessions. -/
structure PaysOwn (e : Event Input Bot) (page : Page) (creator : String) : Prop where
  found : ∃ r ∈ e.before.db.lootsplitSessions.rows, r.val.splitId = page.splitId ∧
    r.val.guildId = page.guildId ∧ r.val.status = .active ∧ r.val.sessionCreator = creator ∧
    ∀ q ∈ e.before.db.lootsplitSessions.rows, q.val.splitId = page.splitId → q = r
  closes : ∃ f : Session → Session,
    e.after.db.lootsplitSessions = e.before.db.lootsplitSessions.mapRows f ∧
    ∀ v ∈ e.before.db.lootsplitSessions.vals, (f v).splitId = v.splitId ∧
      (f v).status = if v.splitId = page.splitId then .inactive else v.status

theorem timely_press (ht : Tidy e.before) (hs : step env e.input e.before = some e.after)
    (hp : Pays e.before e.input.action page) (htime : Timely (· = page) e) {creator : String}
    (hcreator : page.sessionCreator = some creator) : PaysOwn e page creator := by
  obtain ⟨hid, hall, hfaults⟩ := htime page hp rfl
  obtain ⟨s, hact, hsid⟩ := Option.map_eq_some_iff.1 hid
  obtain ⟨hm, hg, ha⟩ := activeSession_some hact
  obtain ⟨r, hr, rfl⟩ := Table.mem_vals.1 hm
  have hmem : { page with isSessionFinished := false } ∈ e.before.unflagged :=
    List.mem_map_of_mem hp.mem
  have hcr : page.sessionCreator = some r.val.sessionCreator :=
    (ht.pages _ hmem).2 r.val hm hsid hg ha
  refine ⟨⟨r, hr, hsid, hg, ha, ?_, fun q' hq' h' => ?_⟩, ?_⟩
  · exact Option.some.inj (hcr.symm.trans hcreator)
  · exact ht.splitIds q' hq' r hr trivial trivial (h'.trans hsid.symm)
  · obtain ⟨total, htotal⟩ := payout_sessions (press_pays hs hp hall hfaults)
    rw [htotal]
    simp only [Table.update_eq_mapRows, Table.mapRows_mapRows]
    refine ⟨_, rfl, fun v hv => ?_⟩
    obtain ⟨p, hp', rfl⟩ := Table.mem_vals.1 hv
    by_cases hv : p.val.splitId = page.splitId
    · obtain rfl : p = r := ht.splitIds p hp' r hr trivial trivial (hv.trans hsid.symm)
      simp [hv, hg]
    · by_cases hgv : p.val.guildId = page.guildId
      · cases hst : p.val.status with
        | inactive => simp [hv, hgv]
        | active =>
          have := ht.oneActive p hp' r hr hst ha (hgv.trans hg.symm)
          exact absurd (this ▸ hsid) hv
      · simp [hv, hgv]

end Press

/-! ### Authority and scope -/

/-- In every run with fresh split ids, a timely press pays a split that is active in the
guild and was created by the user who presses, and closes that split alone. -/
theorem payout_authority {env : Env} {b : Bot} {es : List (Event Input Bot)}
    (h : Run (step env) Bot.empty es b) (hfresh : ∀ e ∈ es, Fresh e) {e : Event Input Bot}
    (he : e ∈ es) {i : ℕ} {u : User} {page : Page}
    (hpress : e.input.action = .press i u .confirm) (hp : Pays e.before e.input.action page)
    (htime : Timely (· = page) e) : PaysOwn e page u.name := by
  obtain ⟨xs, ys, rfl⟩ := List.append_of_mem he
  obtain ⟨hbefore, hs, -⟩ := h.split
  have ht := run_tidy hbefore fun e' he' => hfresh e' (List.mem_append_left _ he')
  exact timely_press ht hs hp htime (hpress ▸ hp).creator

/-- The submission is paid by its creator. -/
def paid : Bot := endState (submission ++ [pressConfirm 0 officer])

theorem run_paid : Run (step Env.ascii) Bot.empty (trace (step Env.ascii) Bot.empty submission ++
    [⟨pressConfirm 0 officer, submitted, paid⟩]) paid :=
  run_append.2 ⟨submitted, run_trace _ _ _, rfl, by decide +kernel, rfl⟩

theorem payout_authority_paid :
    PaysOwn ⟨pressConfirm 0 officer, submitted, paid⟩ submittedPage "alice" := by
  have hp : Pays submitted (pressConfirm 0 officer).action submittedPage := by decide +kernel
  have htime : Timely (· = submittedPage) ⟨pressConfirm 0 officer, submitted, paid⟩ := by
    decide +kernel
  exact payout_authority run_paid (by decide +kernel) (List.mem_append_right _ (by simp)) rfl
    hp htime

/-- Guild 2 has a split of its own, `T`, and guild 1 opens a page for it. -/
def otherGuild : List Input :=
  opening [] ++ [⟨.slash 2 officer (.create "raid" "T"), []⟩,
    ⟨.slash 2 officer (.set 100 0), []⟩, does (.confirm "T")]

def foreignPage : Page := ⟨1, "T", some (.inf false), some "alice", false, 1⟩

def foreignPaid : Bot := endState (otherGuild ++ [pressConfirm 0 officer])

/-- The press in guild 1 pays the split of guild 2 and closes that of guild 1. -/
theorem payout_crosses_guilds :
    Run (step Env.ascii) Bot.empty (trace (step Env.ascii) Bot.empty otherGuild ++
      [⟨pressConfirm 0 officer, endState otherGuild, foreignPaid⟩]) foreignPaid ∧
    Pays (endState otherGuild) (pressConfirm 0 officer).action foreignPage ∧
    (∀ r ∈ (endState otherGuild).db.lootsplitSessions.vals, r.splitId = "T" → r.guildId = 2) ∧
    (∃ r ∈ foreignPaid.db.lootsplitSessions.vals, r.splitId = "T" ∧ r.status = .active) ∧
    ∃ r ∈ foreignPaid.db.lootsplitSessions.vals, r.splitId = "S" ∧ r.status = .inactive :=
  ⟨run_append.2 ⟨endState otherGuild, run_trace _ _ _, rfl, by decide +kernel, rfl⟩,
    by decide +kernel, by decide +kernel, by decide +kernel, by decide +kernel⟩

/-! ### Paid once -/

/-- The split has sessions, and none is active. -/
def Closed (splitId : String) (db : DB) : Prop :=
  (∃ r ∈ db.lootsplitSessions.vals, r.splitId = splitId) ∧
    ∀ r ∈ db.lootsplitSessions.vals, r.splitId = splitId → r.status = .inactive

theorem closed_step {env : Env} {e : Event Input Bot} {splitId : String} (hf : Fresh e)
    (h : step env e.input e.before = some e.after) (hc : Closed splitId e.before.db) :
    Closed splitId e.after.db := by
  obtain ⟨⟨r, hr, hs⟩, hall⟩ := hc
  rcases step_sessions h with ⟨g, u, name, id, hact, -, hafter⟩ | hkept
  · rw [hafter]
    simp only [Closed, createNewLootSplitSession, Table.vals_insert]
    refine ⟨⟨r, List.mem_append_left _ hr, hs⟩, fun q hq hqs => ?_⟩
    rcases List.mem_append.1 hq with hold | hnew
    · exact hall q hold hqs
    · obtain rfl := List.mem_singleton.1 hnew
      exact absurd (hs.trans hqs.symm) (hf id (by rw [hact]; rfl) r hr)
  · obtain ⟨r', hr', hst⟩ := hkept.mem hr
    refine ⟨⟨r', hr', hst.splitId.trans hs⟩, fun q hq hqs => ?_⟩
    obtain ⟨v, hv, hst⟩ := hkept.mem_back hq
    cases hq' : q.status with
    | inactive => rfl
    | active =>
      have := hall v hv (hst.splitId ▸ hqs)
      rw [hst.status hq'] at this; cases this

theorem PaysOwn.closed {e : Event Input Bot} {page : Page} {creator : String}
    (h : PaysOwn e page creator) : Closed page.splitId e.after.db := by
  obtain ⟨r, hr, hsid, -⟩ := h.found
  obtain ⟨f, hf, hstatus⟩ := h.closes
  rw [Closed, hf, Table.vals_mapRows]
  refine ⟨⟨f r.val, List.mem_map_of_mem (Table.val_mem hr), ?_⟩, fun q hq hqs => ?_⟩
  · exact (hstatus _ (Table.val_mem hr)).1.trans hsid
  · obtain ⟨v, hv, rfl⟩ := List.mem_map.1 hq
    obtain ⟨h1, h2⟩ := hstatus v hv
    rw [h2, if_pos (h1 ▸ hqs)]

/-- No timely press pays a closed split. -/
theorem Closed.not_pays {splitId : String} {e : Event Input Bot} (hc : Closed splitId e.before.db)
    (htime : Timely (fun page => page.splitId = splitId) e) {page : Page}
    (hsid : page.splitId = splitId) : ¬Pays e.before e.input.action page := by
  intro hp
  obtain ⟨hid, -⟩ := htime page hp hsid
  obtain ⟨s, hact, hss⟩ := Option.map_eq_some_iff.1 hid
  obtain ⟨hm, -, ha⟩ := activeSession_some hact
  have := hc.2 s hm (hss.trans hsid)
  rw [ha] at this; cases this

/-- A press that does not get to the payout leaves the database as it is. -/
theorem press_refused {env : Env} {b t : Bot} {i : ℕ} {u : User} {button : Button}
    {fs : List Bool} {page : Page} (h : step env ⟨.press i u button, fs⟩ b = some t)
    (hpage : b.pages[i]? = some page) (hno : ¬Pays b (.press i u button) page) : t.db = b.db := by
  obtain ⟨b', p, hs, rfl⟩ := step_eq_some h
  simp only [start, hpage, Option.map_some, Option.some.injEq, onButtonInteraction] at hs
  split at hs
  · cases hs; simp
  · rename_i hauthor
    cases hs
    cases button with
    | cancel => simp [finishPage]
    | confirm =>
      have hcheck : preConfirmCheck u page = false := by
        by_contra hc
        exact hno (.press hpage (by simpa using hauthor) (by simpa using hc))
      simp [confirm, hcheck, finishPage]

/-- In every run with fresh split ids in which every payout of the split is timely, after
the first payout no press on a page of the split pays or changes the database. -/
theorem split_paid_once {env : Env} {b : Bot} {splitId : String} {xs ys zs : List (Event Input Bot)}
    {e e' : Event Input Bot} (h : Run (step env) Bot.empty (xs ++ e :: (ys ++ e' :: zs)) b)
    (hC : ∀ x ∈ xs ++ e :: (ys ++ e' :: zs),
      Fresh x ∧ Timely (fun page => page.splitId = splitId) x)
    {page : Page} (hp : Pays e.before e.input.action page) (hsid : page.splitId = splitId)
    {i : ℕ} {u : User} {button : Button} {page' : Page}
    (hpress : e'.input.action = .press i u button) (hpage : e'.before.pages[i]? = some page')
    (hsid' : page'.splitId = splitId) :
    ¬Pays e'.before e'.input.action page' ∧ e'.after.db = e'.before.db := by
  obtain ⟨hbefore, hs, hrest⟩ := h.split
  obtain ⟨hmid, hs', -⟩ := hrest.split
  have ht := run_tidy hbefore fun x hx => (hC x (by simp [hx])).1
  obtain ⟨creator, hcreator⟩ := hp.exists_creator
  have hpaid : PaysOwn e page creator := timely_press ht hs hp
    (fun q hq he => (hC e (by simp)).2 q hq (he ▸ hsid)) hcreator
  have hclosed : Closed splitId e'.before.db :=
    hmid.invariant (I := fun b => Closed splitId b.db) (hsid ▸ hpaid.closed)
      (fun x hf hx hc => closed_step hf hx hc) fun x hx => (hC x (by simp [hx])).1
  have hno : ¬Pays e'.before e'.input.action page' :=
    hclosed.not_pays (hC e' (by simp)).2 hsid'
  refine ⟨hno, ?_⟩
  obtain ⟨⟨a, fs⟩, before, after⟩ := e'
  obtain rfl := hpress
  exact press_refused hs' hpage hno

/-- A second press on the page that was paid, by somebody who did not open it. -/
def pressedAgain : Bot :=
  endState (submission ++ [pressConfirm 0 officer, pressConfirm 0 ⟨2, "bob", []⟩])

theorem split_paid_once_pressedAgain :
    ¬Pays paid (pressConfirm 0 ⟨2, "bob", []⟩).action { submittedPage with isSessionFinished := true } ∧
      pressedAgain.db = paid.db := by
  have h : Run (step Env.ascii) Bot.empty (trace (step Env.ascii) Bot.empty submission ++
      ⟨pressConfirm 0 officer, submitted, paid⟩ ::
        ([] ++ ⟨pressConfirm 0 ⟨2, "bob", []⟩, paid, pressedAgain⟩ :: [])) pressedAgain :=
    run_append.2 ⟨submitted, run_trace _ _ _, rfl, by decide +kernel, rfl, by decide +kernel, rfl⟩
  have hp : Pays submitted (pressConfirm 0 officer).action submittedPage := by decide +kernel
  exact split_paid_once h (by decide +kernel) hp rfl rfl (by decide +kernel) rfl

/-- The split has two pages, and both are confirmed. -/
def onePaid : Bot := endState (submission ++ [does (.confirm "S"), pressConfirm 0 officer])

def twicePaid : Bot :=
  endState (submission ++ [does (.confirm "S"), pressConfirm 0 officer, pressConfirm 1 officer])

/-- The second press pays the split again. -/
theorem split_paid_twice :
    Run (step Env.ascii) Bot.empty
      (trace (step Env.ascii) Bot.empty (submission ++ [does (.confirm "S")]) ++
        [⟨pressConfirm 0 officer, endState (submission ++ [does (.confirm "S")]), onePaid⟩,
          ⟨pressConfirm 1 officer, onePaid, twicePaid⟩]) twicePaid ∧
    Pays (endState (submission ++ [does (.confirm "S")])) (pressConfirm 0 officer).action
      submittedPage ∧
    Pays onePaid (pressConfirm 1 officer).action submittedPage ∧
    twicePaid.db.players ≠ onePaid.db.players ∧
    twicePaid.db.lootsplitPlayers ≠ onePaid.db.lootsplitPlayers ∧
    twicePaid.db.lootsplitSessions ≠ onePaid.db.lootsplitSessions :=
  ⟨run_append.2 ⟨_, run_trace _ _ _, rfl, by decide +kernel, rfl, by decide +kernel, rfl⟩,
    by decide +kernel, by decide +kernel, by decide +kernel, by decide +kernel, by decide +kernel⟩

end AtomComm.LootSplit
