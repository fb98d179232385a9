import AtomComm.Spec.GuildBot.System

/-! What the statements of the attendance bot can do, action by action, as `Effect` lists
them. `start_within` is the one place where every command is unfolded. The CTAs see little
of it: after every statement but the insert of `/cta start`, a row of theirs is one that
was there, active only if it was active. -/

namespace AtomComm.GuildBot

/-- An action that puts a roster in the place of the guild's, for a CTA. -/
inductive Uploads (b : Bot) : Action → ℤ → Prop
  | text {g roster} : Uploads b (.slash g (.guildUpload (.text roster))) g
  | file {j roster ctaID g} : b.pending[j]? = some (.guild ctaID g) →
      Uploads b (.complete j roster) g

/-- An action that shows the check of a guild. -/
inductive Checks (b : Bot) : Action → ℤ → Prop
  | command {g source} : Checks b (.slash g (.guildCheck source)) g
  | file {j roster ctaID g} : b.pending[j]? = some (.check ctaID g) →
      Checks b (.complete j roster) g

/-- The members that an action puts in a party or marks late. -/
inductive Places : Action → ℤ → String → Option ℤ → Status → Prop
  | late {g name} : Places (.slash g (.lateregister name)) g name none .late
  | add {g n name} : Places (.slash g (.partyAdd n name)) g name (some n) .present
  | upload {g n image name} : Places (.slash g (.partyUpload n image)) g name (some n) .present

/-- One statement of the program of an action that was started in `b`. -/
inductive Effect (env : Env) (b : Bot) : Action → Bot → Bot → Prop
  | query {a t} : Effect env b a t t
  | create {g startTime endTime id clock startInstant endInstant t} :
      Effect env b (.slash g (.start startTime endTime id clock)) t
        { t with db := createCTA id g startInstant endInstant t.db }
  | cancel {g ctaID t} :
      Effect env b (.slash g .cancel) t { t with db := deleteFromCTA ctaID g t.db }
  | cancelUsers {g ctaID t} :
      Effect env b (.slash g .cancel) t { t with db := deleteUsersDataForGuild g ctaID t.db }
  | delete {g now ctaID t} :
      Effect env b (.slash g (.delete now)) t { t with db := updateCTAStatus ctaID .finished t.db }
  | deleteTime {g now ctaID t} :
      Effect env b (.slash g (.delete now)) t { t with db := updateCTAFinishTime ctaID g now t.db }
  | check {clock channels ctaID t} :
      Effect env b (.check clock channels) t
        { t with db := updateCTAStatus ctaID .finished t.db }
  | info {g ctaID stats t} :
      Effect env b (.slash g (.info ctaID)) t { t with db := updateCTAStats ctaID g stats t.db }
  | report {g report ctaId ctaID t} :
      Effect env b (.slash g (.addreport report ctaId)) t
        { t with db := addReport ctaID g report t.db }
  | place {a g name n status ctaID t} : Places a g name n status →
      Effect env b a t { t with db := setParty env name g ctaID n status t.db }
  | remove {g n name ctaID t} :
      Effect env b (.slash g (.partyRemove n name)) t
        { t with db := removePlayerFromParty env name g ctaID n t.db }
  | clear {g n image ctaID t} :
      Effect env b (.slash g (.partyUpload n image)) t
        { t with db := clearUsersDataForParty g ctaID n t.db }
  | detect {g n image name ctaID status t} :
      Effect env b (.slash g (.partyUpload n image)) t
        { t with db := updateUserStatus g ctaID name status t.db }
  | shown {a g name ctaID status t} : Checks b a g →
      Effect env b a t { t with db := updateUserStatus g ctaID name status t.db }
  | seen {a g name ctaID seen t} : Checks b a g →
      Effect env b a t { t with db := updateLastSeen g ctaID name seen t.db }
  | dropUsers {a g ctaID t} : Uploads b a g →
      Effect env b a t { t with db := deleteUsersDataForGuild g ctaID t.db }
  | list {a g name ctaID seen t} : Uploads b a g →
      Effect env b a t { t with db := insertUser g ctaID .offline name seen t.db }
  | online {a g name ctaID t} : Uploads b a g →
      Effect env b a t { t with db := updateUserStatus g ctaID name .absent t.db }
  | words {a t} : Effect env b a t { t with db := postProcessUsersTable t.db }
  | download {g c upload t} :
      Effect env b (.slash g c) t { t with pending := t.pending ++ [upload] }

section Shared
variable {I : Bot → Prop} {G : Bot → Bot → Prop} {g : ℤ} {ctaID : String}

theorem within_write {f : DB → DB}
    (hf : ∀ t, I t → I { t with db := f t.db } ∧ G t { t with db := f t.db }) :
    (write f).Within I G :=
  Sql.within_exec hf

theorem within_swallow {p : Cmd Unit} (hp : p.Within I G) : (swallow p).Within I G := by
  apply Sql.within_tryCatch hp
  intro e
  cases e <;> trivial

theorem within_executeBatch {fs : List (DB → DB)}
    (hf : ∀ f ∈ fs, ∀ t, I t → I { t with db := f t.db } ∧ G t { t with db := f t.db }) :
    (executeBatch fs).Within I G := by
  apply Sql.within_script
  intro f hmem t t' ht h
  obtain ⟨f, hf', rfl⟩ := List.mem_map.1 hmem
  obtain rfl := Option.some.inj h
  exact hf f hf' t ht

theorem within_sendBatch {statement : String → ℤ → DB → DB}
    (h : ∀ name seen t, I t →
      I { t with db := statement name seen t.db } ∧ G t { t with db := statement name seen t.db })
    {batch : List (String × String)} : (sendBatch statement batch).Within I G := by
  unfold sendBatch
  split
  · trivial
  · apply within_swallow
    apply within_executeBatch
    intro f hf t
    obtain ⟨⟨name, seen⟩, -, rfl⟩ := List.mem_map.1 hf
    exact h name seen t

theorem within_inBatches {send : List (String × String) → Cmd Unit}
    (h : ∀ batch, (send batch).Within I G) {batch : List (String × String)}
    {names lastSeen : List String} : (inBatches send batch names lastSeen).Within I G := by
  induction names generalizing batch lastSeen with
  | nil => trivial
  | cons name names ih =>
    cases lastSeen with
    | nil => trivial
    | cons seen lastSeen =>
      exact Sql.within_ite (fun _ => Sql.within_bind (h _) fun _ => ih) fun _ => ih

theorem within_markOnline
    (h : ∀ name t, I t → I { t with db := updateUserStatus g ctaID name .absent t.db } ∧
      G t { t with db := updateUserStatus g ctaID name .absent t.db }) {names : List String} :
    (markOnline g ctaID names).Within I G := by
  induction names with
  | nil => trivial
  | cons name names ih =>
    exact Sql.within_bind (within_swallow (within_write (h name))) fun _ => ih

/-- The three parts of an upload. -/
theorem within_addUsers {roster : Roster}
    (hlist : ∀ name seen t, I t → I { t with db := insertUser g ctaID .offline name seen t.db } ∧
      G t { t with db := insertUser g ctaID .offline name seen t.db })
    (honline : ∀ name t, I t → I { t with db := updateUserStatus g ctaID name .absent t.db } ∧
      G t { t with db := updateUserStatus g ctaID name .absent t.db })
    (hwords : ∀ t, I t → I { t with db := postProcessUsersTable t.db } ∧
      G t { t with db := postProcessUsersTable t.db }) :
    (addUsersToDatabase g ctaID roster).Within I G := by
  apply Sql.within_bind (within_inBatches fun batch => within_sendBatch hlist)
  intro _
  apply Sql.within_bind (within_markOnline honline)
  exact fun _ => within_swallow (within_write hwords)

theorem within_uploadPaginator (hG : ∀ t, G t t) {ctaID : Option String} :
    (sendGuildUploadPaginator g ctaID).Within I G := by
  refine Sql.within_bind (Sql.within_tryCatch (Sql.within_query hG _) fun _ => trivial) fun _ => ?_
  exact Sql.within_ite (fun _ => trivial) fun _ => trivial

theorem within_partiesPages (hG : ∀ t, G t t) {parties : List ℤ} :
    (partiesPages g ctaID parties).Within I G := by
  induction parties with
  | nil => trivial
  | cons n parties ih =>
    exact Sql.within_bind (Sql.within_query hG _) fun _ => Sql.within_bind ih fun _ => trivial

theorem within_updateUploadUsers {roster : Roster}
    (h : ∀ name seen t, I t → I { t with db := updateLastSeen g ctaID name seen t.db } ∧
      G t { t with db := updateLastSeen g ctaID name seen t.db }) :
    (updateGuildUploadUsers g ctaID roster).Within I G := by
  refine Sql.within_tryCatch ?_ fun _ => trivial
  exact within_inBatches fun batch => within_sendBatch h

theorem within_addPlayerToParty {env : Env} {name : String} {n : Option ℤ}
    {status : Status} (h : ∀ t, I t → I { t with db := setParty env name g ctaID n status t.db } ∧
      G t { t with db := setParty env name g ctaID n status t.db }) :
    (addPlayerToParty env name g ctaID n status).Within I G := by
  unfold addPlayerToParty
  exact Sql.within_ite (fun _ => trivial) fun _ =>
    Sql.within_tryCatch (within_write h) fun _ => trivial

theorem within_addPlayersToParty {env : Env} {n : ℤ} {names : List (String × Status)}
    (h : ∀ name t, I t → I { t with db := setParty env name g ctaID (some n) .present t.db } ∧
      G t { t with db := setParty env name g ctaID (some n) .present t.db }) :
    (addPlayersToParty env g ctaID n names).Within I G := by
  induction names with
  | nil => trivial
  | cons entry names ih =>
    exact Sql.within_ite (fun _ => ih) fun _ =>
      Sql.within_bind (within_addPlayerToParty (h _)) fun _ => ih

theorem within_spellFixMatch (hG : ∀ t, G t t) {env : Env} {word : String} :
    (spellFixMatch env word g ctaID).Within I G := by
  unfold spellFixMatch
  refine Sql.within_ite (fun _ => trivial) fun _ => Sql.within_tryCatch ?_ fun _ => trivial
  apply Sql.within_bind (Sql.within_query hG _)
  exact fun _ => Sql.within_ite (fun _ => trivial) fun _ => Sql.within_query hG _

/-- The status that is written back is one of three. -/
theorem within_getPlayerStatus (hG : ∀ t, G t t) {env : Env} {name : String}
    (h : ∀ status t, status ≠ .unknown → I t →
      I { t with db := updateUserStatus g ctaID name status t.db } ∧
        G t { t with db := updateUserStatus g ctaID name status t.db }) :
    (helperGetPlayerStatus env g ctaID name).Within I G := by
  have hback : ∀ status, status ≠ .unknown →
      (swallow (write (updateUserStatus g ctaID name status)) >>= fun _ => pure status).Within I G :=
    fun status hs => Sql.within_bind (within_swallow (within_write (h status · hs))) fun _ => trivial
  unfold helperGetPlayerStatus statusFromDB
  simp only [Sql.bind_eq, Sql.bind_assoc]
  refine Sql.within_bind (Sql.within_query hG _) fun status => ?_
  split
  · rw [Sql.bind_assoc]
    refine Sql.within_bind (Sql.within_query hG _) fun party => ?_
    cases party with
    | true => exact hback .present (by decide)
    | false =>
      rw [if_neg Bool.false_ne_true, Sql.bind_assoc]
      refine Sql.within_bind (Sql.within_query hG _) fun party => ?_
      cases party with
      | true => exact hback .offline (by decide)
      | false => exact hback .absent (by decide)
  · exact hback .offline (by decide)

theorem within_getValidNames (hG : ∀ t, G t t) {env : Env} {words : List String}
    (h : ∀ name status t, status ≠ .unknown → I t →
      I { t with db := updateUserStatus g ctaID name status t.db } ∧
        G t { t with db := updateUserStatus g ctaID name status t.db }) :
    (getValidNamesFromImage env g ctaID words).Within I G := by
  induction words with
  | nil => trivial
  | cons word words ih =>
    refine Sql.within_bind (within_spellFixMatch hG) fun name => ?_
    cases name with
    | none => exact Sql.within_bind ih fun _ => trivial
    | some name =>
      apply Sql.within_bind (within_getPlayerStatus hG (h name))
      exact fun _ => Sql.within_bind ih fun _ => trivial

theorem within_uploadParty (hG : ∀ t, G t t) {env : Env} {n : ℤ} {words : List String}
    (hdetect : ∀ name status t, status ≠ .unknown → I t →
      I { t with db := updateUserStatus g ctaID name status t.db } ∧
        G t { t with db := updateUserStatus g ctaID name status t.db })
    (hclear : ∀ t, I t → I { t with db := clearUsersDataForParty g ctaID n t.db } ∧
      G t { t with db := clearUsersDataForParty g ctaID n t.db })
    (hplace : ∀ name t, I t →
      I { t with db := setParty env name g ctaID (some n) .present t.db } ∧
        G t { t with db := setParty env name g ctaID (some n) .present t.db }) :
    (uploadParty env g ctaID n words).Within I G := by
  refine Sql.within_bind (within_getValidNames hG hdetect) fun names => ?_
  refine Sql.within_bind (within_write hclear) fun _ => Sql.within_ite (fun _ => trivial) fun _ => ?_
  refine Sql.within_bind (within_addPlayersToParty hplace) fun _ => ?_
  exact Sql.within_ite (fun _ => trivial) fun _ => trivial

theorem within_absenteesPages (hG : ∀ t, G t t) {env : Env} {names : List String}
    (h : ∀ name status t, status ≠ .unknown → I t →
      I { t with db := updateUserStatus g ctaID name status t.db } ∧
        G t { t with db := updateUserStatus g ctaID name status t.db }) :
    (absenteesPages env g ctaID names).Within I G := by
  induction names with
  | nil => trivial
  | cons name names ih =>
    apply Sql.within_bind (within_getPlayerStatus hG (h name))
    exact fun _ => Sql.within_bind ih fun _ => trivial

theorem within_guildCheckPaginator (hG : ∀ t, G t t) {env : Env}
    (h : ∀ name status t, status ≠ .unknown → I t →
      I { t with db := updateUserStatus g ctaID name status t.db } ∧
        G t { t with db := updateUserStatus g ctaID name status t.db }) :
    (sendGuildCheckPaginator env g ctaID).Within I G := by
  refine Sql.within_bind (Sql.within_query hG _) fun _ => ?_
  refine Sql.within_bind (Sql.within_query hG _) fun _ => Sql.within_ite (fun _ => trivial) fun _ => ?_
  refine Sql.within_bind (within_absenteesPages hG h) fun _ => ?_
  exact Sql.within_bind (within_partiesPages hG) fun _ => trivial

end Shared

section Rules
variable {env : Env} {b : Bot} {a : Action} {α β : Type}

/-- A program whose statements are all effects of `a`. -/
abbrev Keeps (env : Env) (b : Bot) (a : Action) (p : Cmd α) : Prop :=
  p.Within (fun _ => True) (Effect env b a)

theorem keeps_read {q : DB → α} : Keeps env b a (read q) :=
  Sql.within_query (fun _ => .query) _

theorem keeps_write {f : DB → DB} (hf : ∀ t, Effect env b a t { t with db := f t.db }) :
    Keeps env b a (write f) :=
  Sql.within_exec fun t _ => ⟨trivial, hf t⟩

theorem keeps_bind {p : Cmd α} {g : α → Cmd β} (hp : Keeps env b a p)
    (hg : ∀ x, Keeps env b a (g x)) : Keeps env b a (p >>= g) :=
  Sql.within_bind hp hg

/-- A query and what follows it. -/
theorem keeps_read_bind {q : DB → α} {g : α → Cmd β} (hg : ∀ x, Keeps env b a (g x)) :
    Keeps env b a (read q >>= g) :=
  keeps_bind keeps_read hg

/-- A write and what follows it. -/
theorem keeps_write_bind {f : DB → DB} {p : Cmd β}
    (hf : ∀ t, Effect env b a t { t with db := f t.db }) (hp : Keeps env b a p) :
    Keeps env b a (write f >>= fun _ => p) :=
  keeps_bind (keeps_write hf) fun _ => hp

theorem keeps_ite {c : Prop} [Decidable c] {p q : Cmd α} (hp : c → Keeps env b a p)
    (hq : ¬c → Keeps env b a q) : Keeps env b a (if c then p else q) :=
  Sql.within_ite hp hq

theorem getAsInt_some {n m : ℤ} (h : getAsInt n = some m) : m = n := by
  unfold getAsInt at h
  split at h
  · exact (Option.some.inj h).symm
  · cases h

end Rules

section Programs
variable {env : Env} {b : Bot} {a : Action} {g : ℤ} {ctaID : String}

theorem keeps_start {startTime endTime id : String} {clock : Clock} :
    Keeps env b (.slash g (.start startTime endTime id clock))
      (startCommand g startTime endTime id clock) := by
  unfold startCommand
  apply keeps_read_bind
  intro ctaID
  split
  · split
    · trivial
    · refine keeps_ite (fun _ => trivial) fun _ => ?_
      split
      · exact keeps_ite (fun _ => trivial) fun _ => keeps_write_bind (fun t => .create) trivial
      · trivial
  · trivial

theorem keeps_cancel : Keeps env b (.slash g .cancel) (cancelCommand g) := by
  apply keeps_read_bind
  intro ctaID
  cases ctaID with
  | none => trivial
  | some ctaID =>
    refine keeps_bind ?_ fun _ => trivial
    exact keeps_write_bind (fun t => .cancel) (keeps_write fun t => .cancelUsers)

theorem keeps_delete {now : ℤ} : Keeps env b (.slash g (.delete now)) (deleteCommand g now) := by
  apply keeps_read_bind
  intro ctaID
  cases ctaID with
  | none => trivial
  | some ctaID =>
    apply keeps_write_bind fun t => .delete
    exact keeps_write_bind (fun t => .deleteTime) trivial

theorem keeps_stats {username : String} : Keeps env b a (statsCommand env g username) := by
  apply keeps_read_bind
  intro ctaID
  cases ctaID with
  | none => trivial
  | some _ =>
    exact keeps_read_bind fun _ => keeps_read_bind fun _ => keeps_read_bind fun _ => trivial

theorem keeps_info : Keeps env b (.slash g (.info ctaID)) (infoCommand g ctaID) := by
  unfold infoCommand
  refine keeps_read_bind fun _ => keeps_ite (fun _ => trivial) fun _ => ?_
  refine keeps_read_bind fun stats => keeps_write_bind (fun t => .info) ?_
  refine keeps_read_bind fun s => keeps_read_bind fun e => keeps_read_bind fun _ => ?_
  refine keeps_read_bind fun _ => keeps_read_bind fun _ => keeps_read_bind fun _ => ?_
  cases s <;> cases e <;> trivial

theorem keeps_addReport {report : String} {ctaId : Option String} :
    Keeps env b (.slash g (.addreport report ctaId)) (addReportCommand g report ctaId) := by
  apply keeps_bind
  · cases ctaId with
    | none => exact keeps_read (q := (getCTAID · g))
    | some _ => trivial
  · intro ctaID
    refine keeps_read_bind fun _ => keeps_ite (fun _ => trivial) fun _ => ?_
    exact keeps_write_bind (fun t => .report) trivial

theorem keeps_addPlayerToParty {name : String} {n : Option ℤ} {status : Status}
    (h : Places a g name n status) :
    Keeps env b a (addPlayerToParty env name g ctaID n status) :=
  within_addPlayerToParty fun _ _ => ⟨trivial, .place h⟩

theorem keeps_lateRegister {name : String} :
    Keeps env b (.slash g (.lateregister name)) (lateRegisterCommand env g name) := by
  apply keeps_read_bind
  intro ctaID
  cases ctaID with
  | none => trivial
  | some ctaID => exact keeps_bind (keeps_addPlayerToParty .late) fun _ => trivial

theorem keeps_partyAdd {n : ℤ} {name : String} :
    Keeps env b (.slash g (.partyAdd n name)) (partyAddCommand env g n name) := by
  unfold partyAddCommand
  split
  · trivial
  · rename_i m hm
    obtain rfl := getAsInt_some hm
    apply keeps_read_bind
    intro ctaID
    cases ctaID with
    | none => trivial
    | some ctaID => exact keeps_bind (keeps_addPlayerToParty .add) fun _ => trivial

theorem keeps_partyRemove {n : ℤ} {name : String} :
    Keeps env b (.slash g (.partyRemove n name)) (partyRemoveCommand env g n name) := by
  unfold partyRemoveCommand
  split
  · trivial
  · rename_i m hm
    obtain rfl := getAsInt_some hm
    apply keeps_read_bind
    intro ctaID
    cases ctaID with
    | none => trivial
    | some ctaID => exact keeps_write_bind (fun t => .remove) trivial

theorem keeps_partyUpload {n : ℤ} {image : Image} :
    Keeps env b (.slash g (.partyUpload n image)) (partyUploadCommand env g n image) := by
  unfold partyUploadCommand
  split
  · rename_i m words hm
    obtain rfl := getAsInt_some hm
    apply keeps_read_bind
    intro ctaID
    cases ctaID with
    | none => trivial
    | some ctaID =>
      apply within_uploadParty fun _ => .query
      · exact fun _ _ _ _ _ => ⟨trivial, .detect⟩
      · exact fun _ _ => ⟨trivial, .clear⟩
      · exact fun _ _ _ => ⟨trivial, .place .upload⟩
  · apply keeps_read_bind
    intro ctaID
    cases ctaID <;> trivial
  · trivial

theorem keeps_uploadRoster {ctaID : Option String} {roster : Roster} (h : Uploads b a g) :
    Keeps env b a (uploadRoster g ctaID roster) := by
  refine keeps_bind ?_ fun _ => within_uploadPaginator fun _ => .query
  cases ctaID with
  | none => trivial
  | some ctaID =>
    apply keeps_write_bind fun t => .dropUsers h
    apply within_addUsers
    · exact fun name seen t _ => ⟨trivial, .list h⟩
    · exact fun name t _ => ⟨trivial, .online h⟩
    · exact fun t _ => ⟨trivial, .words⟩

theorem keeps_guildCheckPaginator (h : Checks b a g) :
    Keeps env b a (sendGuildCheckPaginator env g ctaID) :=
  within_guildCheckPaginator (fun _ => .query) fun _ _ _ _ _ => ⟨trivial, .shown h⟩

theorem keeps_checkRoster {roster : Roster} (h : Checks b a g) :
    Keeps env b a (checkRoster env g ctaID roster) := by
  refine keeps_bind ?_ fun _ => keeps_guildCheckPaginator h
  exact within_updateUploadUsers fun _ _ _ _ => ⟨trivial, .seen h⟩

theorem keeps_execute (c : Command) : Keeps env b (.slash g c) (execute env g c) := by
  cases c with
  | start => exact keeps_start
  | cancel => exact keeps_cancel
  | delete => exact keeps_delete
  | list => exact keeps_read_bind fun _ => trivial
  | lateregister => exact keeps_lateRegister
  | stats => exact keeps_stats
  | addreport => exact keeps_addReport
  | info => exact keeps_info
  | guildUpload source =>
    apply keeps_read_bind
    intro ctaID
    cases source with
    | text roster => exact keeps_uploadRoster .text
    | file => exact keeps_bind (Sql.within_exec fun t _ => ⟨trivial, .download⟩) fun _ => trivial
    | neither => trivial
    | both => trivial
    | imageOrVideo => trivial
  | guildCheck source =>
    apply keeps_read_bind
    intro ctaID
    cases ctaID with
    | none => trivial
    | some ctaID =>
      cases source with
      | neither => exact keeps_guildCheckPaginator .command
      | text roster => exact keeps_checkRoster .command
      | file => exact keeps_bind (Sql.within_exec fun t _ => ⟨trivial, .download⟩) fun _ => trivial
      | both => trivial
      | imageOrVideo => trivial
  | partyUpload => exact keeps_partyUpload
  | partyAdd => exact keeps_partyAdd
  | partyRemove => exact keeps_partyRemove

theorem keeps_checkEach {clock : ℕ → ℤ} {channels : List (Option ℤ)} {i : ℕ}
    {ctaIDs : List String} :
    Keeps env b (.check clock channels) (checkEach clock channels i ctaIDs) := by
  induction ctaIDs generalizing i with
  | nil => trivial
  | cons ctaID ctaIDs ih =>
    apply keeps_read_bind
    intro endTime
    cases endTime with
    | none => trivial
    | some endTime =>
      apply keeps_ite _ fun _ => ih
      intro _
      apply keeps_write_bind fun t => .check
      exact keeps_ite (fun _ => trivial) fun _ => keeps_bind ih fun _ => trivial

end Programs

/-- An action only takes its download, and then runs statements that are its effects. -/
theorem start_within {env : Env} {b b' : Bot} {a : Action} {p : Cmd Reply}
    (h : start env a b = some (b', p)) : b'.db = b.db ∧ Keeps env b a p := by
  cases a with
  | slash g c =>
    cases h
    exact ⟨rfl, keeps_execute c⟩
  | check clock channels =>
    cases h
    exact ⟨rfl, keeps_read_bind fun _ => keeps_bind keeps_checkEach fun _ => trivial⟩
  | complete j roster =>
    obtain ⟨upload, hp, he⟩ := Option.map_eq_some_iff.1 h
    cases he
    refine ⟨rfl, ?_⟩
    cases upload with
    | guild ctaID g => exact keeps_uploadRoster (.file hp)
    | check ctaID g => exact keeps_checkRoster (.file hp)

/-! ### CTAs -/

/-- The row of a CTA may end, and never starts again or changes its guild. -/
def Ends (x y : Cta) : Prop := y.guildId = x.guildId ∧ (y.status = .active → x.status = .active)

theorem Ends.refl (x : Cta) : Ends x x := ⟨rfl, id⟩

theorem Ends.trans (x y z : Cta) (h : Ends x y) (h' : Ends y z) : Ends x z :=
  ⟨h'.1.trans h.1, fun hz => h.2 (h'.2 hz)⟩

/-- Every row of `t'` is a row of `t`, under its rowid, that may have ended. -/
def OnlyEnds (t t' : Table Cta) : Prop := Table.Evolves Ends t t' ∧ t'.seq = t.seq

theorem OnlyEnds.refl (t : Table Cta) : OnlyEnds t t := ⟨Table.Evolves.refl Ends.refl t, rfl⟩

theorem onlyEnds_update (t : Table Cta) {p : Cta → Bool} {f : Cta → Cta}
    (hf : ∀ x, Ends x (f x)) : OnlyEnds t (t.update p f) :=
  ⟨Table.evolves_update Ends.refl t fun x _ _ => hf x, rfl⟩

theorem onlyEnds_delete (t : Table Cta) (p : Cta → Bool) : OnlyEnds t (t.delete p) :=
  ⟨Table.evolves_delete Ends.refl t p, rfl⟩

theorem OnlyEnds.mem {t t' : Table Cta} (h : OnlyEnds t t') {r' : Row Cta} (hr' : r' ∈ t'.rows) :
    ∃ r ∈ t.rows, r.id = r'.id ∧ Ends r.val r'.val := by
  have hid : r'.id ≤ t.seq := h.2 ▸ t'.bounded r' hr'
  exact h.1.rows r' hr' hid

theorem effect_ctas {env : Env} {b t t' : Bot} {a : Action} (he : Effect env b a t t') :
    OnlyEnds t.db.cta t'.db.cta ∨
      ∃ g startTime endTime id clock s e, a = .slash g (.start startTime endTime id clock) ∧
        t'.db = createCTA id g s e t.db := by
  cases he with
  | create => exact .inr ⟨_, _, _, _, _, _, _, rfl, rfl⟩
  | cancel =>
    simp only [deleteFromCTA]
    exact .inl (onlyEnds_delete _ _)
  | delete =>
    simp only [updateCTAStatus]
    exact .inl (onlyEnds_update _ fun _ => ⟨rfl, fun h => by cases h⟩)
  | check =>
    simp only [updateCTAStatus]
    exact .inl (onlyEnds_update _ fun _ => ⟨rfl, fun h => by cases h⟩)
  | deleteTime =>
    simp only [updateCTAFinishTime]
    exact .inl (onlyEnds_update _ fun _ => ⟨rfl, id⟩)
  | info =>
    simp only [updateCTAStats]
    exact .inl (onlyEnds_update _ fun _ => ⟨rfl, id⟩)
  | report =>
    simp only [addReport]
    exact .inl (onlyEnds_update _ fun _ => ⟨rfl, id⟩)
  | _ => exact .inl (OnlyEnds.refl _)

end AtomComm.GuildBot
