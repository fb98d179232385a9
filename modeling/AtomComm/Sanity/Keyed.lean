import AtomComm.Proofs.Guilds

/-! Statements by their key. An update of the attendance bot goes by the guild of its command and
the id of a CTA: one that was active when the command asked for it, one that the user names, or
one that was just drawn; and a CTA ends by an id of the first kind. `Allows` asks of an invariant
and of a relation that these updates respect them, wherever the ids come from; then every command
and completion of the guild does. -/

namespace AtomComm.GuildBot

/-- The CTA that a download was started for. -/
def Upload.ctaID : Upload → Option String
  | .guild ctaID _ => ctaID
  | .check ctaID _ => some ctaID

/-- The updates of guild `g`. The ids that were read have `K`, those of CTAs that are ended `E` and
those that are drawn `drawn`; what is written to the statistics was counted in a state with `I`. -/
inductive Keyed (I : Bot → Prop) (K E drawn : String → Prop) (g : ℤ) : (DB → DB) → Prop
  | create {id startTime endTime} : drawn id →
      Keyed I K E drawn g (createCTA id g startTime endTime)
  | deleteCTA {c} : E c → Keyed I K E drawn g (deleteFromCTA c g)
  | finish {c} : E c → Keyed I K E drawn g (updateCTAStatus c .finished)
  | finishTime {c now} : E c → Keyed I K E drawn g (updateCTAFinishTime c g now)
  | stats {c t} : I t → Keyed I K E drawn g (updateCTAStats c g (calcCTAStats t.db c g))
  | report {c report} : Keyed I K E drawn g (addReport c g report)
  | deleteUsers {c} : K c → Keyed I K E drawn g (deleteUsersDataForGuild g c)
  | insertUser {c status name seen} : K c → Keyed I K E drawn g (insertUser g c status name seen)
  | updateUsers {c p f} : K c → (∀ r, p r = true → r.inCTA g c = true) →
      (∀ r : Member, (f r).guildId = r.guildId ∧ (f r).ctaId = r.ctaId) →
      Keyed I K E drawn g fun db => { db with users := db.users.update p f }
  | words : Keyed I K E drawn g postProcessUsersTable

/-- The updates of guild `g` keep `I`, and `G` allows them. -/
structure Allows (I : Bot → Prop) (G : Bot → Bot → Prop) (K E drawn : String → Prop) (g : ℤ) :
    Prop where
  key : ∀ t, I t → ∀ c, getCTAID t.db g = some c → K c
  query : ∀ t, G t t
  update : ∀ f, Keyed I K E drawn g f → ∀ t, I t →
    I { t with db := f t.db } ∧ G t { t with db := f t.db }

/-- And so does the start of a download. -/
def AllowsDownload (I : Bot → Prop) (G : Bot → Bot → Prop) (K : String → Prop) (g : ℤ) : Prop :=
  ∀ u : Upload, u.guildID = g → (∀ c, u.ctaID = some c → K c) → ∀ t, I t →
    I { t with pending := t.pending ++ [u] } ∧ G t { t with pending := t.pending ++ [u] }

/-- The id that a command draws. -/
def drawnId : Command → Option String
  | .start _ _ id _ => some id
  | _ => none

/-- The commands that end a CTA. -/
def endsCTA : Command → Bool
  | .cancel => true
  | .delete _ => true
  | _ => false

/-- The commands that start a download. -/
def readsFile : Command → Bool
  | .guildUpload .file => true
  | .guildCheck .file => true
  | _ => false

section
variable {env : Env} {I : Bot → Prop} {G : Bot → Bot → Prop} {K E drawn : String → Prop} {g : ℤ}
  {c : String} {α β : Type}

theorem Allows.read (h : Allows I G K E drawn g) {q : DB → α} {k : α → Cmd β}
    (hk : ∀ t, I t → (k (q t.db)).Within I G) : (read q >>= k).Within I G :=
  Sql.within_query_bind h.query hk

theorem Allows.write (h : Allows I G K E drawn g) {f : DB → DB} (hf : Keyed I K E drawn g f) :
    (write f).Within I G :=
  within_write (h.update f hf)

/-- A guard that asks for the active CTA. -/
theorem Allows.active (h : Allows I G K E drawn g) {k : Option String → Cmd α}
    (hnone : (k none).Within I G) (hsome : ∀ c, K c → (k (some c)).Within I G) :
    (GuildBot.read (getCTAID · g) >>= k).Within I G := by
  apply h.read
  intro t ht
  cases hc : getCTAID t.db g with
  | none => exact hnone
  | some c => exact hsome c (h.key t ht c hc)

/-! ### The updates of members -/

theorem keyed_status (hc : K c) {name : String} {status : Status} :
    Keyed I K E drawn g (updateUserStatus g c name status) :=
  .updateUsers hc (fun _ hr => (Bool.and_eq_true_iff.1 hr).1) fun _ => ⟨rfl, rfl⟩

theorem keyed_lastSeen (hc : K c) {name : String} {seen : ℤ} :
    Keyed I K E drawn g (updateLastSeen g c name seen) :=
  .updateUsers hc (fun _ hr => (Bool.and_eq_true_iff.1 hr).1) fun _ => ⟨rfl, rfl⟩

theorem keyed_setParty (hc : K c) {name : String} {n : Option ℤ} {status : Status} :
    Keyed I K E drawn g (setParty env name g c n status) :=
  .updateUsers hc (fun _ hr => (Bool.and_eq_true_iff.1 hr).2) fun _ => ⟨rfl, rfl⟩

theorem keyed_remove (hc : K c) {name : String} {n : ℤ} :
    Keyed I K E drawn g (removePlayerFromParty env name g c n) := by
  refine .updateUsers hc (fun r hr => ?_) fun _ => ⟨rfl, rfl⟩
  exact (Bool.and_eq_true_iff.1 (Bool.and_eq_true_iff.1 hr).1).2

theorem keyed_clear (hc : K c) {n : ℤ} : Keyed I K E drawn g (clearUsersDataForParty g c n) :=
  .updateUsers hc (fun _ hr => (Bool.and_eq_true_iff.1 hr).1) fun _ => ⟨rfl, rfl⟩

/-! ### The programs -/

theorem allows_start (h : Allows I G K E drawn g) {startTime endTime id : String} {clock : Clock}
    (hid : drawn id) : (startCommand g startTime endTime id clock).Within I G := by
  unfold startCommand
  refine h.read fun t _ => ?_
  cases convertToFullTimestamp clock.startYear startTime <;>
    cases convertToFullTimestamp clock.endYear endTime <;> try trivial
  rename_i s e
  cases getCTAID t.db g with
  | some ctaID => trivial
  | none =>
    refine Sql.within_ite (fun _ => trivial) fun _ => ?_
    cases getInstantFromString s <;> cases getInstantFromString e <;> try trivial
    refine Sql.within_ite (fun _ => trivial) fun _ => ?_
    exact Sql.within_bind (h.write (.create hid)) fun _ => trivial

theorem allows_info (h : Allows I G K E drawn g) : (infoCommand g c).Within I G := by
  unfold infoCommand
  refine h.read fun _ _ => Sql.within_ite (fun _ => trivial) fun _ => ?_
  refine h.read fun t ht => Sql.within_bind (h.write (.stats ht)) fun _ => ?_
  refine h.read fun t _ => h.read fun t' _ => h.read fun _ _ => h.read fun _ _ => ?_
  refine h.read fun _ _ => h.read fun _ _ => ?_
  cases getCTAStartTime t.db c g <;> cases getCTAEndTime t'.db c (some g) <;> trivial

theorem allows_addReport (h : Allows I G K E drawn g) {report : String} {ctaId : Option String} :
    (addReportCommand g report ctaId).Within I G := by
  have hcta : (reportedCTA g ctaId).Within I G := by
    cases ctaId with
    | none => exact Sql.within_query h.query _
    | some _ => trivial
  refine Sql.within_bind hcta fun ctaID => h.read fun _ _ => ?_
  refine Sql.within_ite (fun _ => trivial) fun _ => ?_
  exact Sql.within_bind (h.write .report) fun _ => trivial

theorem allows_uploadRoster (h : Allows I G K E drawn g) {ctaID : Option String} {roster : Roster}
    (hc : ∀ c, ctaID = some c → K c) : (uploadRoster g ctaID roster).Within I G := by
  refine Sql.within_bind ?_ fun _ => within_uploadPaginator h.query
  cases ctaID with
  | none => trivial
  | some c =>
    have hK : K c := hc c rfl
    refine Sql.within_bind (h.write (.deleteUsers hK)) fun _ => ?_
    apply within_addUsers
    · exact fun name seen => h.update _ (.insertUser hK)
    · exact fun name => h.update _ (keyed_status hK)
    · exact h.update _ .words

theorem allows_checkPaginator (h : Allows I G K E drawn g) (hc : K c) :
    (sendGuildCheckPaginator env g c).Within I G :=
  within_guildCheckPaginator h.query fun _ _ t _ => h.update _ (keyed_status hc) t

theorem allows_checkRoster (h : Allows I G K E drawn g) (hc : K c) {roster : Roster} :
    (checkRoster env g c roster).Within I G := by
  refine Sql.within_bind ?_ fun _ => allows_checkPaginator h hc
  exact within_updateUploadUsers fun _ _ => h.update _ (keyed_lastSeen hc)

theorem allows_partyUpload (h : Allows I G K E drawn g) {n : ℤ} {image : Image} :
    (partyUploadCommand env g n image).Within I G := by
  unfold partyUploadCommand
  split
  · refine h.active trivial fun c hc => ?_
    apply within_uploadParty h.query
    · exact fun _ _ t _ => h.update _ (keyed_status hc) t
    · exact h.update _ (keyed_clear hc)
    · exact fun _ => h.update _ (keyed_setParty hc)
  · exact h.active trivial fun _ _ => trivial
  · trivial

theorem allows_guildUpload (h : Allows I G K E drawn g) {source : Source}
    (hd : source = .file → AllowsDownload I G K g) : (guildUploadCommand g source).Within I G := by
  refine h.read fun t ht => ?_
  have hc : ∀ c, getCTAID t.db g = some c → K c := h.key t ht
  cases source with
  | text roster => exact allows_uploadRoster h hc
  | file =>
    have hdown := hd rfl (.guild (getCTAID t.db g) g) rfl hc
    exact Sql.within_bind (Sql.within_exec hdown) fun _ => trivial
  | neither | both | imageOrVideo => trivial

theorem allows_guildCheck (h : Allows I G K E drawn g) {source : Source}
    (hd : source = .file → AllowsDownload I G K g) :
    (guildCheckCommand env g source).Within I G := by
  refine h.active trivial fun c hc => ?_
  have hsome : ∀ c', some c = some c' → K c' := fun c' he => Option.some.inj he ▸ hc
  cases source with
  | neither => exact allows_checkPaginator h hc
  | text roster => exact allows_checkRoster h hc
  | file =>
    exact Sql.within_bind (Sql.within_exec (hd rfl (.check c g) rfl hsome)) fun _ => trivial
  | both | imageOrVideo => trivial

/-- Every command of the guild. -/
theorem allows_execute (h : Allows I G K E drawn g) (cmd : Command)
    (hid : ∀ id, drawnId cmd = some id → drawn id)
    (he : endsCTA cmd = true → ∀ c, K c → E c)
    (hd : readsFile cmd = true → AllowsDownload I G K g) :
    (execute env g cmd).Within I G := by
  have hplace : ∀ c, K c → ∀ name n status,
      (addPlayerToParty env name g c n status).Within I G :=
    fun c hc name n status => within_addPlayerToParty (h.update _ (keyed_setParty hc))
  cases cmd with
  | start startTime endTime id clock => exact allows_start h (hid id rfl)
  | cancel =>
    refine h.active trivial fun c hc => Sql.within_bind ?_ fun _ => trivial
    exact Sql.within_bind (h.write (.deleteCTA (he rfl c hc))) fun _ => h.write (.deleteUsers hc)
  | delete now =>
    refine h.active trivial fun c hc => ?_
    have hE : E c := he rfl c hc
    refine Sql.within_bind (h.write (.finish hE)) fun _ => ?_
    exact Sql.within_bind (h.write (.finishTime hE)) fun _ => trivial
  | list => exact h.read fun _ _ => trivial
  | lateregister name =>
    exact h.active trivial fun c hc => Sql.within_bind (hplace c hc _ _ _) fun _ => trivial
  | stats name =>
    refine h.active trivial fun c _ => ?_
    exact h.read fun _ _ => h.read fun _ _ => h.read fun _ _ => trivial
  | addreport report ctaId => exact allows_addReport h
  | info c => exact allows_info h
  | guildUpload source => exact allows_guildUpload h fun hs => hd (by rw [hs]; rfl)
  | guildCheck source => exact allows_guildCheck h fun hs => hd (by rw [hs]; rfl)
  | partyUpload n image => exact allows_partyUpload h
  | partyAdd n name =>
    change (partyAddCommand env g n name).Within I G
    unfold partyAddCommand
    split
    · trivial
    · exact h.active trivial fun c hc => Sql.within_bind (hplace c hc _ _ _) fun _ => trivial
  | partyRemove n name =>
    change (partyRemoveCommand env g n name).Within I G
    unfold partyRemoveCommand
    split
    · trivial
    · refine h.active trivial fun c hc => ?_
      exact Sql.within_bind (h.write (keyed_remove hc)) fun _ => trivial

/-- And the completion of its downloads. -/
theorem allows_complete (h : Allows I G K E drawn g) {u : Upload} (hu : u.guildID = g)
    (hc : ∀ c, u.ctaID = some c → K c) {roster : Roster} :
    (completeUpload env roster u).Within I G := by
  cases u with
  | guild ctaID g' =>
    obtain rfl : g' = g := hu
    exact allows_uploadRoster h hc
  | check c g' =>
    obtain rfl : g' = g := hu
    exact allows_checkRoster h (hc c rfl)

end

end AtomComm.GuildBot
