import AtomComm.Lib.Trace
import AtomComm.Sanity.Press
import AtomComm.Spec.LootSplit.Paginators

/-! How a submission page ends. Its flag is set as soon as the author presses confirm or
cancel, before the creator is checked and before the payout, and from then on it only
disables the buttons that the page shows; the handler never reads it. -/

namespace AtomComm.LootSplit.Paginator

open ButtonAction

variable {P P' : Paginator} {u : User} {buttonId : List Char} {s : Submission}

/-- The action of a press that gets to the switch. -/
def accepts (u : User) (buttonId : List Char) (P : Paginator) : Option ButtonAction :=
  match Text.split [':'] buttonId with
  | [paginatorId, action] =>
    if paginatorId = Text.ofInt P.handlerId ∧ u.id = P.authorID then ButtonAction.ofText action
    else none
  | _ => none

/-! ### One press -/

theorem handled_none (h : accepts u buttonId P = none) :
    (P.onButtonInteraction u buttonId).paginator = P ∧
      (P.onButtonInteraction u buttonId).program = none := by
  unfold accepts at h
  unfold onButtonInteraction
  split
  · rename_i paginatorId action hsplit
    rw [hsplit] at h
    by_cases hid : paginatorId = Text.ofInt P.handlerId
    · by_cases hu : u.id = P.authorID
      · have hno : ButtonAction.ofText action = none := by simpa [hid, hu] using h
        simp [hid, hu, hno]
      · simp [hid, hu]
    · simp [hid]
  · exact ⟨rfl, rfl⟩

theorem handled_some {a : ButtonAction} {program : Option (Cmd Reply)}
    (h : accepts u buttonId P = some a) (hp : P.performs u a = some (P', program)) :
    (P.onButtonInteraction u buttonId).paginator = P' ∧
      (P.onButtonInteraction u buttonId).program = program := by
  unfold accepts at h
  unfold onButtonInteraction
  split
  · rename_i paginatorId action hsplit
    rw [hsplit] at h
    by_cases hok : paginatorId = Text.ofInt P.handlerId ∧ u.id = P.authorID
    · simp only [hok, and_self, if_true] at h
      simp [hok, h, act, hp]
    · simp [hok] at h
  · rename_i hsplit
    split at h
    · rename_i paginatorId action heq
      exact absurd heq (hsplit paginatorId action)
    · cases h

theorem submission_nextPage : P.nextPage.submission = P.submission := by
  unfold nextPage
  split <;> rfl

theorem submission_previousPage : P.previousPage.submission = P.submission := by
  unfold previousPage
  split <;> rfl

/-- What a press on a submission does: nothing, turn the page, or finish it and run what the
button is for. -/
theorem handled_cases (hP : P.submission = some s) (u : User) (buttonId : List Char) :
    ((accepts u buttonId P ≠ some .confirm ∧ accepts u buttonId P ≠ some .cancel) ∧
      (P.onButtonInteraction u buttonId).paginator.submission = P.submission ∧
      (P.onButtonInteraction u buttonId).program = none) ∨
    (accepts u buttonId P = some .confirm ∧
      (P.onButtonInteraction u buttonId).paginator = P.finish ∧
      (P.onButtonInteraction u buttonId).program = some (confirm u s.page)) ∨
    (accepts u buttonId P = some .cancel ∧
      (P.onButtonInteraction u buttonId).paginator = P.finish ∧
      (P.onButtonInteraction u buttonId).program = some
        (pure (.embed "Loot Split Cancelled" "The loot split session has been cancelled."))) := by
  cases ha : accepts u buttonId P with
  | none =>
    obtain ⟨hsame, hnone⟩ := handled_none ha
    exact .inl ⟨by simp, by rw [hsame], hnone⟩
  | some a =>
    cases a with
    | next =>
      obtain ⟨hturn, hnone⟩ := handled_some ha rfl
      exact .inl ⟨by simp, by rw [hturn, submission_nextPage], hnone⟩
    | prev =>
      obtain ⟨hturn, hnone⟩ := handled_some ha rfl
      exact .inl ⟨by simp, by rw [hturn, submission_previousPage], hnone⟩
    | confirm =>
      have hp : P.performs u .confirm = some (P.finish, some (LootSplit.confirm u s.page)) := by
        simp [performs, hP]
      exact .inr (.inl ⟨rfl, handled_some ha hp⟩)
    | cancel =>
      have hp : P.performs u .cancel = some (P.finish, some (pure (.embed "Loot Split Cancelled"
          "The loot split session has been cancelled."))) := by
        simp [performs, hP]
      exact .inr (.inr ⟨rfl, handled_some ha hp⟩)

/-! ### The payout -/

def confirmed : Reply :=
  .embed "Loot Split Confirmed" "The loot split session has been confirmed."

/-- The calls of `addBalanceToAllLootSplitPlayers` and `endLootSplitSession`, and the answer. -/
def pays (page : Page) : Cmd Reply :=
  (Sql.script ((LootSplit.payout page).map onDb)).bind fun _ => .ret confirmed

/-- No update is made to throw, and none throws of its own accord. -/
def GoesThrough (page : Page) (fs : List Bool) (b : Bot) : Prop :=
  (∀ i < (LootSplit.payout page).length, fs.getD i false = false) ∧
    (Sql.applyAll (LootSplit.payout page) b.db).isSome

instance (page : Page) (fs : List Bool) (b : Bot) : Decidable (GoesThrough page fs b) :=
  inferInstanceAs (Decidable (_ ∧ _))

theorem confirm_eq (u : User) (page : Page) : LootSplit.confirm u page =
    if preConfirmCheck u page then pays page
    else pure (.embed "" "Only the session creator can confirm the loot split.") := by
  unfold LootSplit.confirm
  cases preConfirmCheck u page <;> rfl

/-- The balances are credited and the session is ended, all or the rest is lost. -/
theorem run_pays (page : Page) (fs : List Bool) (b : Bot) :
    (GoesThrough page fs b ∧ ∃ db, Sql.applyAll (LootSplit.payout page) b.db = some db ∧
      Sql.run fs (pays page) b = (.ok confirmed, { b with db := db })) ∨
    (¬GoesThrough page fs b ∧ ∃ t, Sql.run fs (pays page) b = (.error .sql, t)) := by
  rcases Sql.run_script_bind ((LootSplit.payout page).map onDb) fs
    (fun _ => Sql.ret confirmed) b with ⟨t, happ, hquiet, hrun⟩ | ⟨k, hk, t, happ, -, hbad, hrun⟩
  · rw [applyAll_onDb] at happ
    obtain ⟨db, hdb, rfl⟩ := Option.map_eq_some_iff.1 happ
    rw [List.length_map] at hquiet
    refine .inl ⟨⟨hquiet, by rw [hdb, Option.isSome_some]⟩, db, hdb, ?_⟩
    rw [pays, hrun, Sql.run_ret]
  · refine .inr ⟨fun hgo => ?_, t, hrun⟩
    have hk' : k < (LootSplit.payout page).length := by simpa using hk
    rcases hbad with hfault | hthrow
    · rw [hgo.1 k hk'] at hfault
      cases hfault
    · have hnone := Sql.applyAll_eq_none hk happ hthrow
      rw [applyAll_onDb, Option.map_eq_none_iff] at hnone
      have hsome := hgo.2
      rw [hnone] at hsome
      cases hsome

/-! ### Sequences of presses -/

def Cancels (e : Event Press Paginator) : Prop :=
  accepts e.input.user e.input.buttonId e.before = some .cancel

instance (e : Event Press Paginator) : Decidable (Cancels e) := inferInstanceAs (Decidable (_ = _))

/-- A confirm press by the creator whose updates are all applied. -/
def Credits (e : Event Press Paginator) : Prop :=
  accepts e.input.user e.input.buttonId e.before = some .confirm ∧
    ∃ s db, e.before.submission = some s ∧ preConfirmCheck e.input.user s.page = true ∧
      Sql.applyAll (LootSplit.payout s.page) e.input.bot.db = some db ∧
      outcome e.input e.before = some (.ok confirmed, { e.input.bot with db := db })

/-- The press calls `addBalanceToAllLootSplitPlayers` and `endLootSplitSession`. -/
def Executes (e : Event Press Paginator) : Prop :=
  ∃ s, e.before.submission = some s ∧
    (e.before.onButtonInteraction e.input.user e.input.buttonId).program = some (pays s.page)

structure EndsByDecision (e : Event Press Paginator) : Prop where
  decided : e.before.isSessionFinished = false → e.after.isSessionFinished = true →
    Cancels e ∨ Credits e
  final : e.before.isSessionFinished = true → ¬Executes e

/-- A confirm press of the author comes from the creator and goes through, if the page is not
finished, and does not come from the creator, if it is. -/
def Decides (e : Event Press Paginator) : Prop :=
  ∀ s ∈ e.before.submission, accepts e.input.user e.input.buttonId e.before = some .confirm →
    if s.page.isSessionFinished then preConfirmCheck e.input.user s.page = false
    else preConfirmCheck e.input.user s.page = true ∧
      GoesThrough s.page e.input.faults e.input.bot

instance (e : Event Press Paginator) : Decidable (Decides e) :=
  inferInstanceAs (Decidable (∀ s ∈ e.before.submission,
    accepts e.input.user e.input.buttonId e.before = some .confirm →
      if s.page.isSessionFinished then preConfirmCheck e.input.user s.page = false
      else preConfirmCheck e.input.user s.page = true ∧
        GoesThrough s.page e.input.faults e.input.bot))

theorem isSessionFinished_eq (hP : P.submission = some s) :
    P.isSessionFinished = s.page.isSessionFinished := by
  rw [isSessionFinished, hP]
  rfl

theorem isSessionFinished_finish (hP : P.submission = some s) :
    P.finish.isSessionFinished = true := by
  rw [isSessionFinished, finish, hP]
  rfl

theorem pays_ne_pure (page : Page) (r : Reply) : pays page ≠ .ret r := by
  intro h
  unfold pays LootSplit.payout addBalanceToAllLootSplitPlayers at h
  cases h

theorem confirm_eq_pays : LootSplit.confirm u s.page = pays s.page ↔
    preConfirmCheck u s.page = true := by
  rw [confirm_eq]
  cases preConfirmCheck u s.page with
  | true => simp
  | false => simpa using fun h => pays_ne_pure s.page _ h.symm

section Confirm
variable {e : Event Press Paginator}

theorem executes_iff (hs : e.before.submission = some s)
    (hprogram : (e.before.onButtonInteraction e.input.user e.input.buttonId).program =
      some (LootSplit.confirm e.input.user s.page)) :
    Executes e ↔ preConfirmCheck e.input.user s.page = true := by
  rw [← confirm_eq_pays]
  constructor
  · rintro ⟨s', hs', hpays⟩
    obtain rfl := Option.some.inj (hs.symm.trans hs')
    exact Option.some.inj (hprogram.symm.trans hpays)
  · exact fun hpays => ⟨s, hs, hprogram.trans (congrArg some hpays)⟩

theorem credits_iff (hs : e.before.submission = some s)
    (haccepts : accepts e.input.user e.input.buttonId e.before = some .confirm)
    (hprogram : (e.before.onButtonInteraction e.input.user e.input.buttonId).program =
      some (LootSplit.confirm e.input.user s.page)) :
    Credits e ↔ preConfirmCheck e.input.user s.page = true ∧
      GoesThrough s.page e.input.faults e.input.bot := by
  constructor
  · rintro ⟨-, s', db, hs', hcheck, -, hout⟩
    obtain rfl := Option.some.inj (hs.symm.trans hs')
    rw [outcome, hprogram, confirm_eq_pays.2 hcheck, Option.map_some] at hout
    refine ⟨hcheck, ?_⟩
    rcases run_pays s.page e.input.faults e.input.bot with ⟨hgo, -⟩ | ⟨-, t, hrun⟩
    · exact hgo
    · rw [hrun] at hout
      cases Option.some.inj hout
  · rintro ⟨hcheck, hgo⟩
    rcases run_pays s.page e.input.faults e.input.bot with ⟨-, db, hdb, hrun⟩ | ⟨hno, -⟩
    · refine ⟨haccepts, s, db, hs, hcheck, hdb, ?_⟩
      rw [outcome, hprogram, confirm_eq_pays.2 hcheck, Option.map_some, hrun]
    · exact absurd hgo hno

theorem decides_iff (hs : e.before.submission = some s)
    (haccepts : accepts e.input.user e.input.buttonId e.before = some .confirm) :
    Decides e ↔ if s.page.isSessionFinished then preConfirmCheck e.input.user s.page = false
      else preConfirmCheck e.input.user s.page = true ∧
        GoesThrough s.page e.input.faults e.input.bot := by
  constructor
  · exact fun h => h s hs haccepts
  · intro h s' hs' _
    obtain rfl := Option.some.inj (hs.symm.trans hs')
    exact h

/-- A confirm press finishes the page and leaves the rest to the program. -/
theorem ends_confirm (hs : e.before.submission = some s)
    (haccepts : accepts e.input.user e.input.buttonId e.before = some .confirm)
    (hprogram : (e.before.onButtonInteraction e.input.user e.input.buttonId).program =
      some (LootSplit.confirm e.input.user s.page))
    (hfinished : e.after.isSessionFinished = true) : EndsByDecision e ↔ Decides e := by
  have hflag := isSessionFinished_eq hs
  have hnocancel : ¬Cancels e := by
    rw [Cancels, haccepts]
    simp
  rw [decides_iff hs haccepts]
  cases hpage : s.page.isSessionFinished with
  | true =>
    rw [if_pos rfl, ← Bool.not_eq_true, ← executes_iff hs hprogram]
    constructor
    · exact fun h => h.final (hflag.trans hpage)
    · intro h
      refine ⟨fun hno => ?_, fun _ => h⟩
      rw [hflag, hpage] at hno
      cases hno
  | false =>
    rw [if_neg (by simp), ← credits_iff hs haccepts hprogram]
    constructor
    · exact fun h => (h.decided (hflag.trans hpage) hfinished).resolve_left hnocancel
    · intro h
      refine ⟨fun _ _ => .inr h, fun hyes => ?_⟩
      rw [hflag, hpage] at hyes
      cases hyes

end Confirm

theorem ends_iff {e : Event Press Paginator} (hstep : press e.input e.before = some e.after)
    (hs : e.before.submission = some s) : EndsByDecision e ↔ Decides e := by
  have hafter : e.after = (e.before.onButtonInteraction e.input.user e.input.buttonId).paginator :=
    (Option.some.inj hstep).symm
  rcases handled_cases hs e.input.user e.input.buttonId with
    ⟨⟨hnoconfirm, -⟩, hsub, hprogram⟩ | ⟨haccepts, hend, hprogram⟩ | ⟨haccepts, -, hprogram⟩
  · -- the page is turned at most
    have hsame : e.after.isSessionFinished = e.before.isSessionFinished := by
      rw [isSessionFinished, hafter, hsub]
      rfl
    refine iff_of_true ⟨fun h h' => ?_, fun _ hexec => ?_⟩ fun _ _ hconfirm => ?_
    · rw [hsame, h] at h'
      cases h'
    · obtain ⟨_, -, hpays⟩ := hexec
      rw [hprogram] at hpays
      cases hpays
    · exact absurd hconfirm hnoconfirm
  · have hfinished : e.after.isSessionFinished = true := by
      rw [hafter, hend, isSessionFinished_finish hs]
    exact ends_confirm hs haccepts hprogram hfinished
  · refine iff_of_true ⟨fun _ _ => .inl haccepts, fun _ hexec => ?_⟩ fun _ _ hconfirm => ?_
    · obtain ⟨_, -, hpays⟩ := hexec
      rw [hprogram] at hpays
      exact pays_ne_pure _ _ (Option.some.inj hpays).symm
    · rw [haccepts] at hconfirm
      cases hconfirm

/-- A press keeps the submission, and what is finished stays so. -/
theorem press_keeps {a : Press} (h : press a P = some P') (hP : P.submission = some s) :
    (∃ s', P'.submission = some s') ∧
      (P.isSessionFinished = true → P'.isSessionFinished = true) := by
  obtain rfl := Option.some.inj h
  have hfinish : ∃ s', P.finish.submission = some s' := by
    rw [finish, hP]
    exact ⟨_, rfl⟩
  rcases handled_cases hP a.user a.buttonId with ⟨-, hsub, -⟩ | ⟨-, hend, -⟩ | ⟨-, hend, -⟩
  · refine ⟨⟨s, hsub.trans hP⟩, fun hyes => ?_⟩
    rw [isSessionFinished, hsub]
    exact hyes
  · rw [hend]
    exact ⟨hfinish, fun _ => isSessionFinished_finish hP⟩
  · rw [hend]
    exact ⟨hfinish, fun _ => isSessionFinished_finish hP⟩

/-- A page ends by a decision and for good exactly if each press decides; what is finished
stays finished. -/
theorem page_ends {es : List (Event Press Paginator)} (h : Run press P es P')
    (hP : P.submission.isSome) :
    ((∀ e ∈ es, EndsByDecision e) ↔ ∀ e ∈ es, Decides e) ∧
      (P.isSessionFinished = true → P'.isSessionFinished = true) := by
  induction es generalizing P with
  | nil =>
    obtain rfl := h
    simp
  | cons e es ih =>
    obtain ⟨rfl, hstep, hrest⟩ := h
    obtain ⟨s, hs⟩ := Option.isSome_iff_exists.1 hP
    obtain ⟨⟨s', hs'⟩, hstays⟩ := press_keeps hstep hs
    obtain ⟨hiff, hend⟩ := ih hrest (by rw [hs', Option.isSome_some])
    rw [List.forall_mem_cons, List.forall_mem_cons]
    exact ⟨and_congr (ends_iff hstep hs) hiff, fun hyes => hend (hstays hyes)⟩

/-! ### The page of a split with 100 silver -/

/-- A submission that the author has opened on the officer's split. -/
def opened (authorID : ℤ) : Paginator :=
  ⟨0, authorID, 2, 0, some ⟨0, { submittedPage with authorID := authorID }⟩⟩

def pressed (u : User) (a : ButtonAction) : Press :=
  ⟨u, Text.ofInt 0 ++ ':' :: a.text, submitted, []⟩

def bob : User := ⟨2, "bob", ["officer"]⟩

/-- The officer turns the page, confirms, and cancels afterwards. -/
def decided : List (Event Press Paginator) :=
  trace press (opened 1) [pressed officer .next, pressed officer .confirm, pressed officer .cancel]

theorem page_ends_decided : decided.length = 3 ∧ ∀ e ∈ decided, EndsByDecision e :=
  ⟨rfl, (page_ends (run_trace press (opened 1) _) rfl).1.2 (by decide +kernel)⟩

/-- Bob has opened the page and is refused, and the page is finished all the same. -/
theorem page_ends_refused : ∃ es P', Run press (opened 2) es P' ∧
    (opened 2).isSessionFinished = false ∧ ¬∀ e ∈ es, EndsByDecision e := by
  refine ⟨trace press (opened 2) [pressed bob .confirm], _, run_trace _ _ _, rfl, fun h => ?_⟩
  have hend := (h _ List.mem_cons_self).decided rfl (by decide +kernel)
  rcases hend with hcancel | ⟨-, s, _, hs, hcheck, -⟩
  · exact absurd hcancel (by decide +kernel)
  · obtain rfl := Option.some.inj hs
    exact absurd hcheck (by decide +kernel)

end AtomComm.LootSplit.Paginator
