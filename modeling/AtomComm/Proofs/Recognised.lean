import AtomComm.Sanity.Players
import AtomComm.Proofs.Shares

/-! Which players can be read off an image. The spelling is looked up in `demo`, a copy of
the usernames that an upload brings up to date after its last insert. `/guild adduser`
inserts a name and leaves `demo` as it is, and so does an upload that a statement ends
before; what else changes the players brings no name. -/

namespace AtomComm.LootSplit

/-- Names of three characters and the words of the party window are never looked up. -/
def Familiar (db : DB) (w : String) : Prop :=
  3 < w.length → w ∉ forbiddenWords → w ∈ db.demo

instance (db : DB) (w : String) : Decidable (Familiar db w) :=
  inferInstanceAs (Decidable (_ → _ → _))

def AllFamiliar (db : DB) : Prop := ∀ r ∈ db.players.vals, Familiar db r.username

/-- An image that shows the player's name is answered with a name at distance 0. -/
def Found (rt : Runtime) (b : Bot) (r : Player) : Prop :=
  ∃ w, Sql.run [] (spellFixMatch rt r.username r.guildId) b = (.ok (some w), b) ∧
    rt.editdist3 (LOWER w) (LOWER r.username) = 0

/-- Every player that is looked up is in `demo` and found. -/
def Recognised (rt : Runtime) (b : Bot) : Prop :=
  ∀ r ∈ b.db.players.vals, 3 < r.username.length → r.username ∉ forbiddenWords →
    r.username ∈ b.db.demo ∧ Found rt b r

/-- The statements of an upload before the first insert. -/
def listStatements (guildName : String) (g : ℤ) (db : DB) : List (DB → DB) :=
  if isGuildListExists db guildName g then [id, removeGuildList guildName g] else [id]

/-- The names that an upload inserts without the refresh, for a fault among its inserts or at
the refresh itself. -/
def cutOff (fs : List Bool) (db : DB) (guildName : String) (g : ℤ) (names : List String) :
    List String :=
  let n := (listStatements guildName g db).length
  if true ∈ fs.take n then []
  else if true ∈ (fs.drop n).take (names.length + 1) then Sql.executed (fs.drop n) names else []

/-- The names that an action inserts without a refresh of `demo`. -/
def unrefreshed (env : Env) (fs : List Bool) (b : Bot) : Action → List String
  | .slash _ u (.guildAddUser w) => if u.allowed env && !fs.headD false then [w] else []
  | .slash g u (.guildUpload guildName (.text names)) =>
    if u.allowed env then cutOff fs b.db guildName g names else []
  | .complete j names _ =>
    match b.pending[j]? with
    | some (.guild guildName g) => cutOff fs b.db guildName g names
    | _ => []
  | _ => []

/-- What comes without a refresh is in `demo` already, or need not be. -/
def BringsFamiliar (env : Env) (e : Event Input Bot) : Prop :=
  ∀ w ∈ unrefreshed env e.input.faults e.before e.input.action, Familiar e.before.db w

instance (env : Env) (e : Event Input Bot) : Decidable (BringsFamiliar env e) :=
  inferInstanceAs (Decidable (∀ _ ∈ unrefreshed .., Familiar ..))

/-! ### The spelling -/

theorem found_of_mem {rt : Runtime} (hdist : ∀ s, rt.editdist3 s s = 0) {b : Bot} {r : Player}
    (hr : r ∈ b.db.players.vals) (hlen : 3 < r.username.length)
    (hword : r.username ∉ forbiddenWords) (hdemo : r.username ∈ b.db.demo) : Found rt b r := by
  have hrow : (r.username, 0) ∈ rt.candidates b.db.demo
      (fun w => b.db.players.any fun q => q.username = w && q.guildId = r.guildId)
      r.username := by
    have hjoin : b.db.players.any (fun q => q.username = r.username && q.guildId = r.guildId) :=
      Table.any_eq_true.2 ⟨r, hr, by simp⟩
    rw [Runtime.candidates, List.mem_filter]
    refine ⟨List.mem_map.2 ⟨r.username, ?_, by rw [hdist]⟩, by simp⟩
    rw [List.mem_filter]
    simp [hdemo, hjoin, hlen]
  have hrun : spelled rt b.db r.guildId r.username =
      nearestPlayer rt b.db r.username r.guildId := by
    refine if_neg ?_
    rintro (h | h)
    · exact hword h
    · rw [h] at hdemo
      cases hdemo
  cases hn : nearestPlayer rt b.db r.username r.guildId with
  | none =>
    rw [rt.nearest_none _ hn] at hrow
    cases hrow
  | some w =>
    obtain ⟨d, hmem, hle⟩ := rt.nearest_mem _ _ hn
    obtain ⟨v, -, hv⟩ := List.mem_map.1 (List.mem_of_mem_filter hmem)
    obtain ⟨rfl, rfl⟩ := Prod.mk.inj hv
    refine ⟨v, by rw [run_spellFix, hrun, hn], ?_⟩
    have hmin := hle _ hrow
    omega

theorem recognised_iff_allFamiliar {rt : Runtime} (hdist : ∀ s, rt.editdist3 s s = 0) {b : Bot} :
    Recognised rt b ↔ AllFamiliar b.db := by
  refine forall₂_congr fun r hr => forall₂_congr fun hlen hword => ?_
  exact and_iff_left_of_imp fun hdemo => found_of_mem hdist hr hlen hword hdemo

/-! ### Statements that bring no name -/

theorem AllFamiliar.mono {db db' : DB} (h : AllFamiliar db)
    (hn : ∀ r' ∈ db'.players.vals, ∃ r ∈ db.players.vals, r.username = r'.username)
    (hd : db.demo ⊆ db'.demo) : AllFamiliar db' := by
  intro r' hr' hlen hword
  obtain ⟨r, hr, he⟩ := hn r' hr'
  rw [← he] at hlen hword ⊢
  exact hd (h r hr hlen hword)

theorem allFamiliar_update {db : DB} (h : AllFamiliar db) {p : Player → Bool}
    {f : Player → Player} (hf : ∀ r, (f r).username = r.username) :
    AllFamiliar { db with players := db.players.update p f } := by
  refine h.mono (fun r' hr' => ?_) (List.Subset.refl _)
  rw [Table.vals_update] at hr'
  obtain ⟨r, hr, rfl⟩ := List.mem_map.1 hr'
  refine ⟨r, hr, ?_⟩
  split
  · exact (hf r).symm
  · rfl

theorem allFamiliar_delete {db : DB} (h : AllFamiliar db) (p : Player → Bool) :
    AllFamiliar { db with players := db.players.delete p } := by
  refine h.mono (fun r hr => ⟨r, ?_, rfl⟩) (List.Subset.refl _)
  rw [Table.vals_delete] at hr
  exact List.mem_of_mem_filter hr

/-- After the refresh every name is in `demo`. -/
theorem allFamiliar_refresh (db : DB) : AllFamiliar (postProcessPlayersTable db) := by
  intro r hr _ _
  by_cases hmem : r.username ∈ db.demo
  · exact List.mem_append_left _ hmem
  · refine List.mem_append_right _ (List.mem_filter.2 ⟨List.mem_map_of_mem hr, ?_⟩)
    exact decide_eq_true hmem

/-- An action that may insert players. -/
inductive Inserts (env : Env) (b : Bot) : Action → Prop
  | add {g u w} : u.allowed env → Inserts env b (.slash g u (.guildAddUser w))
  | upload {a guildName g names} : UploadsList env b a guildName g names → Inserts env b a

theorem effect_allFamiliar {env : Env} {b t t' : Bot} {a : Action} (he : Effect env b a t t')
    (ha : ¬Inserts env b a) (h : AllFamiliar t.db) : AllFamiliar t'.db := by
  cases he with
  | give _ hdb =>
    obtain ⟨_, rfl⟩ := creditPlayers_some hdb
    exact allFamiliar_update h fun _ => rfl
  | remove _ hdb =>
    obtain ⟨_, rfl⟩ := creditPlayers_some hdb
    exact allFamiliar_update h fun _ => rfl
  | register => exact allFamiliar_update h fun _ => rfl
  | unregister => exact allFamiliar_update h fun _ => rfl
  | guildRemove => exact allFamiliar_delete h _
  | guildRemoveUser => exact allFamiliar_delete h _
  | dropList => exact allFamiliar_delete h _
  | guildAddUser hu => exact absurd (.add hu) ha
  | listName hl => exact absurd (.upload hl) ha
  | words => exact allFamiliar_refresh t.db
  | add _ hdb => rcases addPlayer_cases hdb with rfl | ⟨_, -, -, -, rfl⟩ <;> exact h
  | listed => unfold addListedPlayer; split <;> exact h
  | pay hp hf hdb =>
    rcases payout_cases hf hdb with ⟨_, rfl⟩ | ⟨_, _, rfl⟩ | ⟨_, _, rfl⟩ | rfl
    · exact h
    · exact h
    · exact allFamiliar_update h fun _ => rfl
    · exact h
  | _ => exact h

/-! ### Uploads -/

section Uploads
variable {env : Env} {b : Bot} {fs : List Bool} {guildName : String} {g : ℤ} {names : List String}

theorem run_executeBatch_faulty (fs : List Bool) (us : List (DB → DB)) (b : Bot) :
    (Sql.run fs (executeBatch us) b).2 =
      { b with db := (Sql.executed fs us).foldl (fun db f => f db) b.db } := by
  have hlift : us.map (fun f => onDb fun db => some (f db)) =
      (us.map fun f (b : Bot) => { b with db := f b.db }).map fun f b => some (f b) := by
    rw [List.map_map]
    rfl
  have hfold : ∀ (us : List (DB → DB)) (b : Bot),
      us.foldl (fun b f => { b with db := f b.db }) b =
        { b with db := us.foldl (fun db f => f db) b.db } := by
    intro us
    induction us with
    | nil => exact fun _ => rfl
    | cons f us ih => exact fun b => ih _
  rw [executeBatch, hlift, Sql.run_script_total, Sql.executed_map, List.foldl_map, hfold]

theorem run_executeBatch_cons (fs : List Bool) (f : DB → DB) (us : List (DB → DB)) (b : Bot) :
    (Sql.run fs (executeBatch (f :: us)) b).2 =
      if fs.headD false then b
      else (Sql.run fs.tail (executeBatch us) { b with db := f b.db }).2 := by
  rw [executeBatch, List.map_cons, Sql.script, Sql.run_attempt_bind]
  cases fs.headD false <;> rfl

/-- Rethrown or not, the batches are one script. -/
theorem run_batches_script (insert : String → DB → DB) (bs : List (List String)) (fs : List Bool)
    (b : Bot) :
    (Sql.run fs (addUsersToDatabase (fun names => names.map insert) bs) b).2 =
      (Sql.run fs (executeBatch (bs.flatten.map insert ++ [postProcessPlayersTable])) b).2 := by
  induction bs generalizing fs b with
  | nil =>
    rw [addUsersToDatabase, write, tryWrite, executeBatch]
    exact (Sql.run_bind_snd (fun _ _ _ => by simp [Sql.script]) fs b).symm
  | cons batch bs ih =>
    rw [addUsersToDatabase, Sql.bind_eq, Sql.run_rethrow_bind, List.flatten_cons, List.map_append,
      List.append_assoc, executeBatch, executeBatch, List.map_append, Sql.script_append]
    exact Sql.run_bind_congr _ (fun _ fs b => ih fs b) fs b

theorem listStatements_of_listed {db : DB} (h : isGuildListExists db guildName g = true) :
    listStatements guildName g db = [id, removeGuildList guildName g] := if_pos h

theorem listStatements_of_new {db : DB} (h : isGuildListExists db guildName g = false) :
    listStatements guildName g db = [id] := if_neg (by simp [h])

/-- What a faulty upload leaves: the statements before the first fault, one by one. -/
theorem run_upload_executed (fs : List Bool) (guildName : String) (names : List String) (g : ℤ)
    (b : Bot) :
    (Sql.run fs (uploadGuildUsers guildName names g) b).2 = { b with
      db := (Sql.executed fs (listStatements guildName g b.db ++
        (names.map (uploadGuildName guildName · g) ++ [postProcessPlayersTable]))).foldl
          (fun db f => f db) b.db } := by
  have hbatches := run_batches_script (uploadGuildName guildName · g) (batches [] names)
  rw [flatten_batches_nil] at hbatches
  rw [← run_executeBatch_faulty]
  unfold uploadGuildUsers
  rw [Sql.bind_eq, read, Sql.run_faulty_query_bind]
  cases hex : isGuildListExists b.db guildName g with
  | false =>
    rw [listStatements_of_new hex, List.singleton_append, run_executeBatch_cons]
    cases fs.headD false with
    | true => rfl
    | false => exact hbatches fs.tail b
  | true =>
    rw [listStatements_of_listed hex, List.cons_append, List.singleton_append,
      run_executeBatch_cons]
    cases fs.headD false with
    | true => rfl
    | false =>
      simp only [Bool.false_eq_true, if_false]
      rw [executeBatch, List.map_cons, Sql.script]
      exact Sql.run_bind_congr _ (fun _ fs b => hbatches fs b) fs.tail b

/-- The inserts of a list bring its names, after the rows of the old list have gone or not. -/
theorem allFamiliar_listed {db : DB} (h : AllFamiliar db) (guildName : String) (g : ℤ)
    (ws : List String) (p : Player → Bool) :
    AllFamiliar ((ws.map (uploadGuildName guildName · g)).foldl (fun db f => f db)
        { db with players := db.players.delete p }) ↔ ∀ w ∈ ws, Familiar db w := by
  have hkept := allFamiliar_delete h p
  rw [List.foldl_map, foldl_uploadGuildName]
  constructor
  · intro hall w hw
    by_cases hnew : w ∈ newPlayers (db.players.delete p) g ws
    · refine hall (listRow guildName g w) ?_
      rw [Table.vals_insertAll]
      exact List.mem_append_right _ (List.mem_map_of_mem hnew)
    · -- the guild has the name already
      rw [mem_newPlayers] at hnew
      push Not at hnew
      obtain ⟨r, hr, -, rfl⟩ := hnew hw
      exact hkept r hr
  · intro hws r hr
    rw [Table.vals_insertAll] at hr
    rcases List.mem_append.1 hr with hr | hr
    · exact hkept r hr
    · obtain ⟨w, hw, rfl⟩ := List.mem_map.1 hr
      exact hws w (mem_newPlayers.1 hw).1

/-- What the statements before the first insert leave, if none throws. -/
theorem foldl_listStatements (guildName : String) (g : ℤ) (db : DB) :
    (listStatements guildName g db).foldl (fun db f => f db) db = { db with
      players := db.players.delete fun r => r.guildName = guildName && r.guildId = g } := by
  cases hex : isGuildListExists db guildName g with
  | false =>
    rw [listStatements_of_new hex, delete_of_not_exists hex]
    rfl
  | true =>
    rw [listStatements_of_listed hex]
    rfl

/-- If one of them throws, nothing has been done. -/
theorem foldl_listStatements_faulty {db : DB}
    (h : true ∈ fs.take (listStatements guildName g db).length) :
    (Sql.executed fs (listStatements guildName g db)).foldl (fun db f => f db) db = db := by
  cases hex : isGuildListExists db guildName g with
  | false =>
    rw [listStatements_of_new hex, Sql.executed, Sql.executed]
    split <;> rfl
  | true =>
    rw [listStatements_of_listed hex] at h ⊢
    cases fs with
    | nil => simp at h
    | cons f fs =>
      cases f with
      | true => rfl
      | false =>
        have hsecond : fs.headD false = true := by
          cases fs with
          | nil => simp at h
          | cons f fs => simpa using h
        rw [Sql.executed, Sql.executed, List.tail_cons, hsecond]
        rfl

/-- An upload leaves names that `demo` lacks exactly if it is cut off after one of them. -/
theorem upload_allFamiliar (h : AllFamiliar b.db) :
    AllFamiliar (Sql.run fs (uploadGuildUsers guildName names g) b).2.db ↔
      ∀ w ∈ cutOff fs b.db guildName g names, Familiar b.db w := by
  rw [run_upload_executed, Sql.executed_append, cutOff]
  split
  · rename_i hf
    simpa [foldl_listStatements_faulty hf] using h
  · rw [List.foldl_append, foldl_listStatements, Sql.executed_concat, List.length_map]
    split
    · rw [Sql.executed_map]
      exact allFamiliar_listed h guildName g _ _
    · rw [List.foldl_append]
      simpa using allFamiliar_refresh _

end Uploads

/-! ### Runs -/

section Runs
variable {env : Env} {b : Bot} {fs : List Bool}

theorem run_addUser (u : User) (g : ℤ) (w : String) :
    (Sql.run fs (execute env g u (.guildAddUser w)) b).2 =
      if u.allowed env && !fs.headD false then { b with db := addGuildUser g w b.db } else b := by
  rw [execute, requireRole, guildAddUserCommand, write, tryWrite, Sql.run_ite, Sql.bind_eq,
    Sql.run_attempt_bind]
  cases u.allowed env with
  | false => simp
  | true => cases fs.headD false <;> rfl

theorem addUser_allFamiliar {g : ℤ} {w : String} (h : AllFamiliar b.db) :
    AllFamiliar (addGuildUser g w b.db) ↔ Familiar b.db w := by
  unfold AllFamiliar
  simp only [addGuildUser, Table.vals_insert, List.forall_mem_append, List.forall_mem_singleton]
  exact and_iff_right h

theorem run_sendPaginator {names : List String} (fs : List Bool) (b : Bot) :
    (Sql.run fs (sendGuildUploadPaginator names) b).2 = b := by
  rw [sendGuildUploadPaginator, Sql.run_ite]
  split <;> simp

theorem run_guildUpload (u : User) (g : ℤ) (guildName : String) (names : List String) :
    (Sql.run fs (execute env g u (.guildUpload guildName (.text names))) b).2 =
      if u.allowed env then (Sql.run fs (uploadGuildUsers guildName names g) b).2 else b := by
  rw [execute, requireRole, guildUploadCommand, Sql.run_ite]
  cases u.allowed env with
  | false => simp
  | true => exact Sql.run_bind_snd (fun _ => run_sendPaginator) fs b

theorem unrefreshed_of_not_inserts {a : Action} (h : ¬Inserts env b a) :
    unrefreshed env fs b a = [] := by
  unfold unrefreshed
  split
  · rename_i u w
    have hu : ¬u.allowed env := fun hu => h (.add hu)
    simp [hu]
  · rename_i u guildName names
    have hu : ¬u.allowed env := fun hu => h (.upload (.text hu))
    simp [hu]
  · rename_i j names uploadId
    split
    · rename_i hj
      exact absurd (.upload (.file hj)) h
    · rfl
  · rfl

theorem unrefreshed_file {j : ℕ} {names : List String} {guildName uploadId : String} {g : ℤ}
    (hj : b.pending[j]? = some (.guild guildName g)) :
    unrefreshed env fs b (.complete j names uploadId) = cutOff fs b.db guildName g names := by
  rw [unrefreshed, hj]

theorem step_allFamiliar {a : Action} {t : Bot} (hs : step env ⟨a, fs⟩ b = some t)
    (h : AllFamiliar b.db) :
    AllFamiliar t.db ↔ ∀ w ∈ unrefreshed env fs b a, Familiar b.db w := by
  obtain ⟨b', p, hst, rfl⟩ := step_eq_some hs
  by_cases ha : Inserts env b a
  · cases ha with
    | @add g u w hu =>
      cases hst
      rw [run_addUser, unrefreshed]
      cases u.allowed env && !fs.headD false with
      | true => simpa using addUser_allFamiliar h
      | false => simpa using h
    | upload hl =>
      cases hl with
      | @text g u guildName names hu =>
        cases hst
        rw [run_guildUpload, unrefreshed, if_pos hu, if_pos hu]
        exact upload_allFamiliar h
      | @file j names uploadId guildName g hj =>
        obtain ⟨upload, hj', he⟩ := Option.map_eq_some_iff.1 hst
        cases he
        obtain rfl := Option.some.inj (hj.symm.trans hj')
        rw [unrefreshed_file hj, completeUpload, Sql.bind_eq, Sql.run_bind_snd fun _ => run_sendPaginator]
        exact upload_allFamiliar (b := { b with pending := b.pending.eraseIdx j }) h
  · obtain ⟨⟨hdb, -, -⟩, hk⟩ := start_within hst
    have hw : p.Within (fun t => AllFamiliar t.db) fun _ _ => True :=
      hk.imp (fun _ _ => trivial) fun t t' ht he => ⟨effect_allFamiliar he ha ht, trivial⟩
    have hafter := (hw.run (fun _ => trivial) (fun _ _ _ _ _ => trivial) fs
      (show AllFamiliar b'.db from hdb ▸ h)).1
    rw [unrefreshed_of_not_inserts ha]
    simpa using hafter

end Runs

/-- The players are recognised throughout a run exactly if what it brings without a refresh
is familiar. -/
theorem recognised_throughout_iff {env : Env} (hdist : ∀ s, env.editdist3 s s = 0) {b : Bot}
    {es : List (Event Input Bot)} (h : Run (step env) Bot.empty es b) :
    (∀ e ∈ es, Recognised env.toRuntime e.after) ↔ ∀ e ∈ es, BringsFamiliar env e := by
  have hall : (∀ e ∈ es, AllFamiliar e.after.db) ↔ ∀ e ∈ es, BringsFamiliar env e :=
    h.always_iff (I := fun b => AllFamiliar b.db) (fun r hr => by cases hr)
      fun _ hs hI => step_allFamiliar hs hI
  rw [← hall]
  exact forall₂_congr fun e _ => recognised_iff_allFamiliar hdist

/-- Bobby is removed and added again, and is in `demo` from the list. -/
def relisted : List Input :=
  [does (.guildUpload "Atom" (.text ["Alice", "Bobby"])), does (.guildRemoveUser "Bobby"),
    does (.guildAddUser "Bobby")]

theorem recognised_relisted :
    let es := trace (step Env.ascii) Bot.empty relisted
    (∀ e ∈ es, Recognised Env.ascii.toRuntime e.after) ↔ ∀ e ∈ es, BringsFamiliar Env.ascii e :=
  recognised_throughout_iff (fun _ => if_pos rfl) (run_trace _ _ _)

/-- Bobby is added to the guild without a list. -/
theorem added_not_recognised :
    Reachable Env.ascii (endState [does (.guildAddUser "Bobby")]) ∧
      ¬Recognised Env.ascii.toRuntime (endState [does (.guildAddUser "Bobby")]) := by
  refine ⟨endState_reachable _, fun h => ?_⟩
  have hbobby := h ⟨none, "Bobby", .fin 0, "N/A", false, 1⟩ (by decide +kernel)
    (by decide +kernel) (by decide +kernel)
  exact absurd hbobby.1 (by decide +kernel)

end AtomComm.LootSplit
