import AtomComm.Proofs.Payout
import AtomComm.Sanity.Foreign

/-! A split that has ended keeps its rows. The commands on the active split look up its id
when they run, and with fresh split ids no ended session has it. A confirm press and the
completion of a file carry a split id from earlier on and look up nothing: they write to
the split whether it has ended or not. -/

namespace AtomComm.LootSplit

def Ended (db : DB) (splitId : String) : Prop :=
  ∃ r ∈ db.lootsplitSessions.vals, r.splitId = splitId ∧ r.status = .inactive

instance (db : DB) (splitId : String) : Decidable (Ended db splitId) :=
  inferInstanceAs (Decidable (∃ _ ∈ _, _))

/-- A row of the split, whole. -/
def memberOf (splitId : String) (m : SplitPlayer) : Option SplitPlayer :=
  if m.splitId = splitId then some m else none

/-- The rows of a split in `lootsplit_players`, under their rowids. -/
def splitMembers (db : DB) (splitId : String) : List (ℕ × SplitPlayer) :=
  db.lootsplitPlayers.view (memberOf splitId)

/-- The sessions that have ended in `db` and their members are in `db'` as in `db`. -/
structure Frozen (db db' : DB) : Prop where
  sessions : ∀ r ∈ db.lootsplitSessions.rows, r.val.status = .inactive →
    r ∈ db'.lootsplitSessions.rows
  members : ∀ s, Ended db s → splitMembers db' s = splitMembers db s

theorem Frozen.refl (db : DB) : Frozen db db := ⟨fun _ hr _ => hr, fun _ _ => rfl⟩

theorem Frozen.ended {db db' : DB} (h : Frozen db db') {s : String} (hs : Ended db s) :
    Ended db' s := by
  obtain ⟨v, hv, hid, hend⟩ := hs
  obtain ⟨r, hr, rfl⟩ := Table.mem_vals.1 hv
  exact ⟨r.val, Table.val_mem (h.sessions r hr hend), hid, hend⟩

theorem Frozen.trans {x y z : DB} (h : Frozen x y) (h' : Frozen y z) : Frozen x z := by
  refine ⟨fun r hr hend => h'.sessions r (h.sessions r hr hend) hend, fun s hs => ?_⟩
  rw [h'.members s (h.ended hs), h.members s hs]

section Statements
variable {db db' : DB}

/-- A statement that writes the members alone. -/
theorem frozen_members (h : Frozen db db') {t : Table SplitPlayer}
    (ht : ∀ s, Ended db s →
      t.view (memberOf s) = db'.lootsplitPlayers.view (memberOf s)) :
    Frozen db { db' with lootsplitPlayers := t } :=
  ⟨h.sessions, fun s hs => (ht s hs).trans (h.members s hs)⟩

theorem frozen_insertMember (h : Frozen db db') {m : SplitPlayer} (hm : ¬Ended db m.splitId) :
    Frozen db { db' with lootsplitPlayers := db'.lootsplitPlayers.insert m } := by
  refine frozen_members h fun s hs => Table.view_insert ?_
  rw [memberOf, if_neg]
  rintro rfl
  exact hm hs

/-- An update of the sessions that leaves the ended ones alone. -/
theorem frozen_sessions (h : Frozen db db') {p : Session → Bool} {f : Session → Session}
    (hf : ∀ r, Ended db r.splitId → r.status = .inactive → p r = true → f r = r) :
    Frozen db { db' with lootsplitSessions := db'.lootsplitSessions.update p f } := by
  refine ⟨fun r hr hend => ?_, h.members⟩
  have hs : Ended db r.val.splitId := ⟨r.val, Table.val_mem hr, rfl, hend⟩
  exact Table.mem_update_self (h.sessions r hr hend) (hf r.val hs hend)

theorem frozen_create (h : Frozen db db') {splitId name creator : String} {g : ℤ} :
    Frozen db (createNewLootSplitSession splitId name g creator db') :=
  ⟨fun r hr hend => List.mem_append_left _ (h.sessions r hr hend), h.members⟩

theorem frozen_add (h : Frozen db db') {splitId : Option String} {uploadId w : String} {g : ℤ}
    {db'' : DB} (hs : ∀ s, splitId = some s → ¬Ended db s)
    (hdb : addPlayerToLootSplit splitId uploadId w g db' = some db'') : Frozen db db'' := by
  rcases addPlayer_cases hdb with rfl | ⟨s, hid, -, -, rfl⟩
  · exact h
  · exact frozen_insertMember h (hs s hid)

theorem frozen_listed (h : Frozen db db') {splitId uploadId w : String} {g : ℤ}
    (hs : ¬Ended db splitId) : Frozen db (addListedPlayer uploadId splitId w g db') := by
  unfold addListedPlayer
  split
  · exact h
  · exact frozen_insertMember h hs

theorem frozen_removePlayer (h : Frozen db db') {splitId : Option String} {w : String}
    (hs : ∀ s, splitId = some s → ¬Ended db s) :
    Frozen db (removePlayerFromLootSplit splitId w db') := by
  refine frozen_members h fun s hend => Table.view_delete fun m hm => ?_
  have hid : some m.splitId = splitId := of_decide_eq_true (Bool.and_eq_true_iff.1 hm).1
  rw [memberOf, if_neg]
  rintro rfl
  exact hs _ hid.symm hend

theorem frozen_updateMembers (h : Frozen db db') {p : SplitPlayer → Bool}
    {f : SplitPlayer → SplitPlayer} (hp : ∀ m, p m = true → ¬Ended db m.splitId)
    (hf : ∀ m, (f m).splitId = m.splitId) :
    Frozen db { db' with lootsplitPlayers := db'.lootsplitPlayers.update p f } := by
  refine frozen_members h fun s hend => Table.view_update fun m hm => ?_
  have hne : m.splitId ≠ s := by
    rintro rfl
    exact hp m hm hend
  rw [memberOf, memberOf, hf, if_neg hne, if_neg hne]

theorem frozen_half (h : Frozen db db') {splitId : Option String} {w : String}
    (hs : ∀ s, splitId = some s → ¬Ended db s) :
    Frozen db (makePlayerBalanceHalvedInLootSplit splitId w db') := by
  refine frozen_updateMembers h (fun m hm => hs _ ?_) fun _ => rfl
  exact (of_decide_eq_true (Bool.and_eq_true_iff.1 hm).1).symm

theorem frozen_set (h : Frozen db db') {splitId : Option String} {silver items : ℤ}
    (hs : ∀ s, splitId = some s → ¬Ended db s) :
    Frozen db (setLootSplitSilverAndItems splitId silver items db') := by
  refine frozen_sessions h fun r hend _ hp => absurd hend (hs _ ?_)
  exact (of_decide_eq_true hp).symm

/-- The payout of a split that has not ended; the guild's ended sessions are ended again. -/
theorem frozen_pay (h : Frozen db db') {page : Page} {f : DB → Option DB} {db'' : DB}
    (hs : ¬Ended db page.splitId) (hf : f ∈ payout page) (hdb : f db' = some db'') :
    Frozen db db'' := by
  rcases payout_cases hf hdb with ⟨_, rfl⟩ | ⟨_, _, rfl⟩ | ⟨_, _, rfl⟩ | rfl
  · refine frozen_sessions h fun r hend _ hp => absurd hend ?_
    rw [of_decide_eq_true hp]
    exact hs
  · refine frozen_updateMembers h (fun m hm => ?_) fun _ => rfl
    rw [of_decide_eq_true (Bool.and_eq_true_iff.1 hm).1]
    exact hs
  · exact ⟨h.sessions, h.members⟩
  · refine frozen_sessions h fun r _ hend _ => ?_
    rw [← hend]

end Statements

/-! ### One step -/

/-- The split that a press pays or a completion adds to, as the page or the download captured
it. -/
def captured (b : Bot) (a : Action) : Option String :=
  match a with
  | .press .. => (payingPage b a).map Page.splitId
  | .complete j _ _ =>
    match b.pending[j]? with
    | some (.lootSplit splitId _) => some splitId
    | _ => none
  | _ => none

/-- What a press pays or a completion adds to has not ended. -/
def InTime (e : Event Input Bot) : Prop :=
  ∀ s ∈ captured e.before e.input.action, ¬Ended e.before.db s

instance (e : Event Input Bot) : Decidable (InTime e) :=
  inferInstanceAs (Decidable (∀ _ ∈ _, _))

/-- The commands that look up the split they write to. -/
def LooksUp : Action → Prop
  | .slash _ _ (.add ..) => True
  | .slash _ _ (.removePlayer _) => True
  | .slash _ _ (.half _) => True
  | .slash _ _ (.set ..) => True
  | .slash _ _ (.lootSplitGuildUpload ..) => True
  | .slash _ _ (.lootSplitPartyUpload ..) => True
  | _ => False

section Steps
variable {env : Env} {b t t' : Bot} {a : Action} {g : ℤ} {u : User}

theorem effect_frozen {db : DB} (he : Effect env b a t t') (ha : ¬LooksUp a)
    (hs : ∀ s ∈ captured b a, ¬Ended db s) (h : Frozen db t.db) : Frozen db t'.db := by
  cases he with
  | create => exact frozen_create h
  | add => exact absurd trivial ha
  | removePlayer => exact absurd trivial ha
  | half => exact absurd trivial ha
  | set => exact absurd trivial ha
  | listed hu htarget =>
    cases hu with
    | text => exact absurd trivial ha
    | image => exact absurd trivial ha
    | @file j names uploadId splitId g hj =>
      obtain rfl := htarget splitId rfl
      exact frozen_listed h (hs _ (by simp [captured, hj]))
  | pay hp hf hdb =>
    have hpaying := pays_iff.1 hp
    cases hp with
    | press => exact frozen_pay h (hs _ (by simp [captured, hpaying])) hf hdb
  | give _ hdb => obtain ⟨_, rfl⟩ := creditPlayers_some hdb; exact ⟨h.sessions, h.members⟩
  | remove _ hdb => obtain ⟨_, rfl⟩ := creditPlayers_some hdb; exact ⟨h.sessions, h.members⟩
  | listName => unfold uploadGuildName; split <;> exact ⟨h.sessions, h.members⟩
  | _ => exact ⟨h.sessions, h.members⟩

/-- The completion of a file for a split writes to that split alone. -/
theorem uploadSplitPlayers_frozen {splitId uploadId : String} {names : List String} {db : DB}
    (hs : ¬Ended db splitId) :
    (uploadSplitPlayers splitId uploadId names g).Within (fun t => Frozen db t.db)
      fun _ _ => True := by
  let pending : Bot := ⟨db, [], [.lootSplit splitId g]⟩
  have hk : Keeps Env.ascii pending (.complete 0 names uploadId)
      (uploadSplitPlayers splitId uploadId names g) :=
    keeps_uploadSplitPlayers (.file rfl) fun s hs => Option.some.inj hs
  refine hk.imp (fun _ _ => trivial) fun s t hs' he => ⟨effect_frozen he id ?_ hs', trivial⟩
  rintro s hcap
  obtain rfl := Option.some.inj hcap
  exact hs

theorem add_run (w uploadId : String) (fs : List Bool) :
    let t := ((execute env g u (.add w uploadId)).run fs b).2
    t = b ∨ addPlayerToLootSplit (getLootSplitId b.db g) uploadId w g b.db = some t.db := by
  simp only [execute, requireRole, lootSplitAddCommand, read, tryWrite, Sql.bind_eq, Sql.pure_eq,
    Sql.run_ite, Sql.run_faulty_query_bind, Sql.run_attempt_bind, Sql.run_ret]
  split
  · exact .inl rfl
  split
  · exact .inl rfl
  split
  · exact .inl rfl
  split
  · exact .inl rfl
  split
  · exact .inl rfl
  split
  · exact .inl rfl
  split
  · rename_i hdb
    obtain ⟨db, hdb', rfl⟩ := Option.map_eq_some_iff.1 hdb
    exact .inr hdb'
  · exact .inl rfl

theorem guildUpload_frozen {uploadId : String} {source : Source}
    (hs : ∀ s, getLootSplitId b.db g = some s → ¬Ended b.db s) :
    (lootSplitGuildUploadCommand g uploadId source).Leaves (fun t => Frozen b.db t.db) b := by
  have hrefl : Frozen b.db b.db := Frozen.refl b.db
  unfold lootSplitGuildUploadCommand
  apply Sql.solo_query_bind _ hrefl
  beta_reduce
  cases hid : getLootSplitId b.db g with
  | none => exact Sql.solo_ret hrefl
  | some splitId =>
    cases source with
    | text names => exact (uploadSplitPlayers_frozen (hs _ hid)).leaves hrefl
    | file => exact Sql.solo_exec_bind (Sql.solo_ret hrefl) hrefl
    | neither => exact Sql.solo_ret hrefl
    | both => exact Sql.solo_ret hrefl
    | imageOrVideo => exact Sql.solo_ret hrefl

theorem getValidNames_frozen {words : List String} {db : DB} :
    (getValidNamesFromImage env.toRuntime g words).Within (fun t => Frozen db t.db)
      fun _ _ => True := by
  have hk : Keeps env Bot.empty (.complete 0 [] "")
      (getValidNamesFromImage env.toRuntime g words) := keeps_getValidNames
  refine hk.imp (fun _ _ => trivial) fun s t hs he => ⟨effect_frozen he id ?_ hs, trivial⟩
  intro s hcap
  cases hcap

theorem addPlayers_frozen {uploadId splitId : String} {names : List String} {db : DB}
    (hs : ¬Ended db splitId) :
    (executeBatch (addPlayersToLootSplit uploadId splitId names g)).Within
      (fun t => Frozen db t.db) fun _ _ => True := by
  apply Sql.within_script
  intro f hf s t hfrozen hstep
  obtain ⟨f', hf', rfl⟩ := List.mem_map.1 hf
  obtain ⟨name, -, rfl⟩ := List.mem_map.1 hf'
  cases hstep
  exact ⟨frozen_listed hfrozen hs, trivial⟩

theorem partyUpload_frozen {uploadId : String} {words : Option (List String)}
    (hs : ∀ s, getLootSplitId b.db g = some s → ¬Ended b.db s) :
    (lootSplitPartyUploadCommand env g uploadId words).Leaves (fun t => Frozen b.db t.db) b := by
  have hrefl : Frozen b.db b.db := Frozen.refl b.db
  unfold lootSplitPartyUploadCommand
  apply Sql.solo_query_bind _ hrefl
  beta_reduce
  cases hid : getLootSplitId b.db g with
  | none => exact Sql.solo_ret hrefl
  | some splitId =>
    cases words with
    | none => exact Sql.solo_throw hrefl
    | some words =>
      apply Sql.leaves_bind (getValidNames_frozen.leaves hrefl) _ fun _ h => h
      intro names t ht
      split
      · exact Sql.solo_ret ht
      · apply Sql.leaves_bind ((addPlayers_frozen (hs _ hid)).leaves ht) _ fun _ h => h
        intro _ s hfrozen
        split
        · exact Sql.solo_throw hfrozen
        · exact Sql.solo_ret hfrozen

/-- With fresh split ids the id that a command looks up is that of no ended session. -/
theorem Tidy.lookup_open (ht : Tidy b) {s : String} (hs : getLootSplitId b.db g = some s) :
    ¬Ended b.db s := by
  rintro ⟨v, hv, rfl, hend⟩
  obtain ⟨w, hw, hid⟩ := Option.map_eq_some_iff.1 hs
  obtain ⟨hm, -, hact⟩ := activeSession_some hw
  obtain ⟨r, hr, rfl⟩ := Table.mem_vals.1 hv
  obtain ⟨q, hq, rfl⟩ := Table.mem_vals.1 hm
  have hsame : q = r := ht.splitIds q hq r hr trivial trivial hid
  rw [hsame, hend] at hact
  cases hact

/-- A program that leaves the ended splits alone, as a command of the officers' role. -/
theorem requireRole_frozen {p : Cmd Reply} (hp : p.Leaves (fun t => Frozen b.db t.db) b)
    (fs : List Bool) : Frozen b.db ((requireRole env u p).run fs b).2.db := by
  unfold requireRole
  split
  · rw [Sql.pure_eq, Sql.run_ret]
    exact Frozen.refl b.db
  · exact hp.run fs

theorem step_frozen {e : Event Input Bot} (ht : Tidy e.before) (hin : InTime e)
    (h : step env e.input e.before = some e.after) : Frozen e.before.db e.after.db := by
  obtain ⟨b', p, hst, hafter⟩ := step_eq_some h
  rw [hafter]
  have hopen : ∀ g s, getLootSplitId e.before.db g = some s → ¬Ended e.before.db s :=
    fun _ _ => ht.lookup_open
  have hrefl : Frozen e.before.db e.before.db := Frozen.refl _
  by_cases ha : LooksUp e.input.action
  · unfold LooksUp at ha
    split at ha
    · rename_i g u w uploadId hact
      rw [hact] at hst
      cases hst
      rcases add_run w uploadId e.input.faults with hsame | hdb
      · rw [hsame]; exact hrefl
      · exact frozen_add hrefl (hopen g) hdb
    · rename_i g u w hact
      rw [hact] at hst
      cases hst
      rcases removePlayer_run env g u e.before e.input.faults w with hsame | hdb
      · rw [hsame]; exact hrefl
      · rw [hdb]; exact frozen_removePlayer hrefl (hopen g)
    · rename_i g u w hact
      rw [hact] at hst
      cases hst
      rcases half_run env g u e.before e.input.faults w with hsame | hdb
      · rw [hsame]; exact hrefl
      · rw [hdb]; exact frozen_half hrefl (hopen g)
    · rename_i g u silver items hact
      rw [hact] at hst
      cases hst
      rcases set_run env g u e.before e.input.faults silver items with hsame | hdb
      · rw [hsame]; exact hrefl
      · rw [hdb]; exact frozen_set hrefl (hopen g)
    · rename_i g u uploadId source hact
      rw [hact] at hst
      cases hst
      exact requireRole_frozen (guildUpload_frozen (hopen g)) e.input.faults
    · rename_i g u uploadId words hact
      rw [hact] at hst
      cases hst
      exact requireRole_frozen (partyUpload_frozen (hopen g)) e.input.faults
    · cases ha
  · obtain ⟨⟨hdb, -, -⟩, hk⟩ := start_within hst
    have hw : p.Within (fun t => Frozen e.before.db t.db) fun _ _ => True :=
      hk.imp (fun _ _ => trivial) fun s t hs he => ⟨effect_frozen he ha hin hs, trivial⟩
    have hstart : Frozen e.before.db b'.db := by rw [hdb]; exact hrefl
    exact (hw.leaves hstart).run e.input.faults

end Steps

/-! ### Runs -/

/-- In every run with fresh split ids in which no press pays and no completion adds to a
split that has ended, the row of an ended session and the rows of its members stay as they
are. -/
theorem closed_split_frozen {env : Env} {b b' : Bot} {es es' : List (Event Input Bot)}
    (h : Run (step env) Bot.empty es b) (h' : Run (step env) b es' b')
    (hc : ∀ e ∈ es ++ es', Fresh e ∧ InTime e) {r : Row Session}
    (hr : r ∈ b.db.lootsplitSessions.rows) (hend : r.val.status = .inactive) :
    r ∈ b'.db.lootsplitSessions.rows ∧
      splitMembers b'.db r.val.splitId = splitMembers b.db r.val.splitId := by
  have ht : Tidy b := run_tidy h fun e he => (hc e (List.mem_append_left _ he)).1
  have hboth : Tidy b' ∧ Frozen b.db b'.db := by
    apply h'.invariant (I := fun x => Tidy x ∧ Frozen b.db x.db) ⟨ht, Frozen.refl b.db⟩ _
      fun e he => hc e (List.mem_append_right _ he)
    rintro e ⟨hfresh, hin⟩ hs ⟨htidy, hfrozen⟩
    exact ⟨tidy_step hfresh hs htidy, hfrozen.trans (step_frozen htidy hin hs)⟩
  exact ⟨hboth.2.sessions r hr hend, hboth.2.members _ ⟨r.val, Table.val_mem hr, rfl, hend⟩⟩

/-- The split `S` is paid and the next one gets a member and is paid too. -/
def nextSplit : List Input :=
  [does (.create "next" "S2"), does (.set 50 0), does (.add "Alice" "U2"), does (.confirm "S2"),
    pressConfirm 1 officer]

theorem closed_split_frozen_next :
    let b' := final paid (trace (step Env.ascii) paid nextSplit)
    b'.db.lootsplitSessions.vals.map Session.status = [.inactive, .inactive] ∧
      ∀ r ∈ paid.db.lootsplitSessions.rows, r.val.status = .inactive →
        r ∈ b'.db.lootsplitSessions.rows ∧
          splitMembers b'.db r.val.splitId = splitMembers paid.db r.val.splitId := by
  refine ⟨by decide +kernel, fun r hr hend => ?_⟩
  exact closed_split_frozen (run_trace _ Bot.empty (submission ++ [pressConfirm 0 officer]))
    (run_trace (step Env.ascii) paid nextSplit) (by decide +kernel) hr hend

/-- The officer uploads a file for the split, and confirms the split before the file is there. -/
def uploading : List Input :=
  opening ["Bob"] ++ [does (.add "Alice" "U1"), does (.set 100 0),
    does (.lootSplitGuildUpload "U2" .file), does (.confirm "S"), pressConfirm 0 officer]

/-- The completion adds a member to the split that has ended. -/
theorem closed_split_grows :
    let b := endState uploading
    let es := trace (step Env.ascii) b [⟨.complete 0 ["Bob"] "U2", []⟩]
    Run (step Env.ascii) Bot.empty (trace (step Env.ascii) Bot.empty uploading) b ∧
      Run (step Env.ascii) b es (final b es) ∧
      ∃ r ∈ b.db.lootsplitSessions.rows, r.val.status = .inactive ∧
        splitMembers (final b es).db r.val.splitId ≠ splitMembers b.db r.val.splitId :=
  ⟨run_trace _ _ _, run_trace _ _ _, by decide +kernel⟩

end AtomComm.LootSplit
