import AtomComm.Sanity.Keyed

/-! What a guild sees of the attendance bot: its CTAs, their members, and the downloads that it
started. The updates of the guild itself go by its own rows, so from states with the same view
every command but the party upload does the same. The party upload reads the words of all guilds. -/

namespace AtomComm.GuildBot

def Upload.of (g : ℤ) (u : Upload) : Bool := u.guildID = g

/-- The states look the same to guild `g`. -/
def Viewed (g : ℤ) (b b' : Bot) : Prop :=
  Alike g b b' ∧ b.pending.filter (Upload.of g) = b'.pending.filter (Upload.of g)

section Statements
variable {env : Env} {I : Bot → Prop} {K E drawn : String → Prop} {g : ℤ} {c : String} {b b' : Bot}
  {f : DB → DB}

theorem Keyed.alike (hf : Keyed I K E drawn g f) (h : Alike g b b') :
    Alike g { b with db := f b.db } { b' with db := f b'.db } := by
  cases hf with
  | create => exact ⟨h.cta.insert _, h.users⟩
  | deleteCTA => exact ⟨h.cta.delete _, h.users⟩
  | finish | finishTime | stats | report => exact ⟨h.cta.update fun _ _ => rfl, h.users⟩
  | deleteUsers => exact ⟨h.cta, h.users.delete _⟩
  | insertUser => exact ⟨h.cta, h.users.insert _⟩
  | updateUsers _ _ hid =>
    refine ⟨h.cta, h.users.update fun r _ => ?_⟩
    simp only [hid r]
  | words => exact ⟨h.cta, h.users⟩

theorem alike_write
    (hf : Keyed (fun _ => True) (fun _ => True) (fun _ => True) (fun _ => True) g f) :
    (write f).Blind (Alike g) :=
  Sql.blind_exec fun _ _ h => hf.alike h

theorem alike_swallow {p : Cmd Unit} (hp : p.Blind (Alike g)) : (swallow p).Blind (Alike g) := by
  apply Sql.blind_tryCatch hp
  intro e
  cases e <;> trivial

theorem alike_sendBatch {statement : String → ℤ → DB → DB}
    (h : ∀ name seen, Keyed (fun _ => True) (fun _ => True) (fun _ => True) (fun _ => True) g
      (statement name seen)) {batch : List (String × String)} :
    (sendBatch statement batch).Blind (Alike g) := by
  unfold sendBatch
  split
  · trivial
  · apply alike_swallow
    apply Sql.blind_script
    intro u hu s s' hs
    obtain ⟨f, hf, rfl⟩ := List.mem_map.1 hu
    obtain ⟨⟨name, seen⟩, -, rfl⟩ := List.mem_map.1 hf
    refine ⟨rfl, fun t t' ht ht' => ?_⟩
    rw [← Option.some.inj ht, ← Option.some.inj ht']
    exact (h name seen).alike hs

theorem alike_inBatches {send : List (String × String) → Cmd Unit}
    (h : ∀ batch, (send batch).Blind (Alike g)) {batch : List (String × String)}
    {names lastSeen : List String} : (inBatches send batch names lastSeen).Blind (Alike g) := by
  induction names generalizing batch lastSeen with
  | nil => trivial
  | cons name names ih =>
    cases lastSeen with
    | nil => trivial
    | cons seen lastSeen =>
      exact Sql.blind_ite (fun _ => Sql.blind_bind (h _) fun _ => ih) fun _ => ih

theorem alike_markOnline {names : List String} : (markOnline g c names).Blind (Alike g) := by
  induction names with
  | nil => trivial
  | cons name names ih =>
    exact Sql.blind_bind (alike_swallow (alike_write (keyed_status trivial))) fun _ => ih

theorem alike_addPlayerToParty {name : String} {n : Option ℤ} {status : Status} :
    (addPlayerToParty env name g c n status).Blind (Alike g) := by
  unfold addPlayerToParty
  refine Sql.blind_ite (fun _ => trivial) fun _ => ?_
  exact Sql.blind_tryCatch (alike_write (keyed_setParty trivial)) fun _ => trivial

end Statements

section Programs
variable {env : Env} {g : ℤ} {c : String} {α : Type}

theorem alike_active {k : Option String → Cmd α} (hk : ∀ c, (k c).Blind (Alike g)) :
    (read (getCTAID · g) >>= k).Blind (Alike g) :=
  alike_read_bind (fun _ _ => getCTAID_alike) hk

theorem alike_start {startTime endTime id : String} {clock : Clock} :
    (startCommand g startTime endTime id clock).Blind (Alike g) := by
  unfold startCommand
  apply alike_active
  intro ctaID
  cases convertToFullTimestamp clock.startYear startTime <;>
    cases convertToFullTimestamp clock.endYear endTime <;> try trivial
  rename_i s e
  cases ctaID with
  | some ctaID => trivial
  | none =>
    refine Sql.blind_ite (fun _ => trivial) fun _ => ?_
    cases getInstantFromString s <;> cases getInstantFromString e <;> try trivial
    refine Sql.blind_ite (fun _ => trivial) fun _ => ?_
    exact Sql.blind_bind (alike_write (.create trivial)) fun _ => trivial

theorem alike_addReport {report : String} {ctaId : Option String} :
    (addReportCommand g report ctaId).Blind (Alike g) := by
  have hcta : (reportedCTA g ctaId).Blind (Alike g) := by
    cases ctaId with
    | none => exact alike_read (q := (getCTAID · g)) fun _ _ => getCTAID_alike
    | some _ => trivial
  refine Sql.blind_bind hcta fun ctaID => alike_read_bind (fun b b' h => ?_) fun _ => ?_
  · exact congrArg Option.isSome (ctaRow_alike h)
  · refine Sql.blind_ite (fun _ => trivial) fun _ => ?_
    exact Sql.blind_bind (alike_write .report) fun _ => trivial

theorem alike_uploadRoster {ctaID : Option String} {roster : Roster} :
    (uploadRoster g ctaID roster).Blind (Alike g) := by
  refine Sql.blind_bind ?_ fun _ => ?_
  · cases ctaID with
    | none => trivial
    | some c =>
      refine Sql.blind_bind (alike_write (.deleteUsers trivial)) fun _ => ?_
      refine Sql.blind_bind (alike_inBatches fun _ => alike_sendBatch ?_) fun _ => ?_
      · exact fun name seen => .insertUser trivial
      · exact Sql.blind_bind alike_markOnline fun _ => alike_swallow (alike_write .words)
  · refine Sql.blind_bind (Sql.blind_tryCatch (alike_read fun b b' h => ?_) fun _ => trivial) ?_
    · unfold getUsersWithLastSeenForGuildOrderedDesc
      rw [h.users.select]
      exact fun r hr => (Bool.and_eq_true_iff.1 hr).1
    · exact fun _ => Sql.blind_ite (fun _ => trivial) fun _ => trivial

theorem alike_checkPaginator : (sendGuildCheckPaginator env g c).Blind (Alike g) := by
  apply alike_read_bind fun _ _ => getAbsentees_alike
  intro absentees
  apply alike_read_bind fun _ _ => getParties_alike
  intro parties
  refine Sql.blind_ite (fun _ => trivial) fun _ => ?_
  apply Sql.blind_bind alike_absenteesPages
  exact fun _ => Sql.blind_bind alike_partiesPages fun _ => trivial

theorem alike_checkRoster {roster : Roster} : (checkRoster env g c roster).Blind (Alike g) := by
  refine Sql.blind_bind (Sql.blind_tryCatch ?_ fun _ => trivial) fun _ => alike_checkPaginator
  exact alike_inBatches fun _ => alike_sendBatch fun _ _ => keyed_lastSeen trivial

/-- The commands that match no words. -/
def matchesNone : Command → Bool
  | .partyUpload .. => false
  | _ => true

theorem alike_execute {cmd : Command} (hcmd : matchesNone cmd = true) :
    (execute env g cmd).Blind (Alike g) := by
  have hplace : ∀ (reply : Reply) name n status c,
      (addPlayerToParty env name g c n status >>= fun _ => pure reply).Blind (Alike g) :=
    fun _ _ _ _ _ => Sql.blind_bind alike_addPlayerToParty fun _ => trivial
  cases cmd with
  | start => exact alike_start
  | cancel =>
    refine alike_active fun ctaID => ?_
    cases ctaID with
    | none => trivial
    | some c =>
      refine Sql.blind_bind ?_ fun _ => trivial
      exact Sql.blind_bind (alike_write (.deleteCTA trivial)) fun _ =>
        alike_write (.deleteUsers trivial)
  | delete now =>
    refine alike_active fun ctaID => ?_
    cases ctaID with
    | none => trivial
    | some c =>
      refine Sql.blind_bind (alike_write (.finish trivial)) fun _ => ?_
      exact Sql.blind_bind (alike_write (.finishTime trivial)) fun _ => trivial
  | list => exact alike_list
  | lateregister name =>
    refine alike_active fun ctaID => ?_
    cases ctaID with
    | none => trivial
    | some c => exact hplace _ name none .late c
  | stats => exact alike_stats
  | addreport => exact alike_addReport
  | info => exact alike_info
  | guildUpload source =>
    refine alike_active fun ctaID => ?_
    cases source with
    | text roster => exact alike_uploadRoster
    | file => exact Sql.blind_bind (Sql.blind_exec fun _ _ h => ⟨h.cta, h.users⟩) fun _ => trivial
    | neither | both | imageOrVideo => trivial
  | guildCheck source =>
    refine alike_active fun ctaID => ?_
    cases ctaID with
    | none => trivial
    | some c =>
      cases source with
      | neither => exact alike_checkPaginator
      | text roster => exact alike_checkRoster
      | file =>
        exact Sql.blind_bind (Sql.blind_exec fun _ _ h => ⟨h.cta, h.users⟩) fun _ => trivial
      | both | imageOrVideo => trivial
  | partyUpload => cases hcmd
  | partyAdd n name =>
    change (partyAddCommand env g n name).Blind (Alike g)
    unfold partyAddCommand
    cases getAsInt n with
    | none => trivial
    | some n =>
      refine alike_active fun ctaID => ?_
      cases ctaID with
      | none => trivial
      | some c => exact hplace _ name (some n) .present c
  | partyRemove n name =>
    change (partyRemoveCommand env g n name).Blind (Alike g)
    unfold partyRemoveCommand
    cases getAsInt n with
    | none => trivial
    | some n =>
      refine alike_active fun ctaID => ?_
      cases ctaID with
      | none => trivial
      | some c => exact Sql.blind_bind (alike_write (keyed_remove trivial)) fun _ => trivial

/-! ### With the downloads -/

/-- A program that starts no download. -/
theorem viewed_of_alike {p : Cmd α} (h : p.Blind (Alike g))
    (hp : p.Within (fun _ => True) fun t t' => t'.pending = t.pending) : p.Blind (Viewed g) := by
  refine h.and hp fun s s' t t' hs ht ht' => ?_
  rw [ht, ht', hs]

theorem allows_pending : Allows (fun _ => True) (fun t t' => t'.pending = t.pending)
    (fun _ => True) (fun _ => True) (fun _ => True) g :=
  ⟨fun _ _ _ _ => trivial, fun _ => rfl, fun _ _ _ _ => ⟨trivial, rfl⟩⟩

theorem viewed_download {u : Upload} : (download u).Blind (Viewed g) := by
  apply Sql.blind_exec
  rintro b b' ⟨halike, hpending⟩
  refine ⟨⟨halike.cta, halike.users⟩, ?_⟩
  simp only [List.filter_append, hpending]

theorem viewed_read_bind {β : Type} {q : DB → α} {k : α → Cmd β}
    (hq : ∀ b b', Alike g b b' → q b.db = q b'.db) (hk : ∀ x, (k x).Blind (Viewed g)) :
    (read q >>= k).Blind (Viewed g) :=
  Sql.blind_bind (Sql.blind_query fun b b' h => hq b b' h.1) hk

theorem viewed_execute {cmd : Command} (hcmd : matchesNone cmd = true) :
    (execute env g cmd).Blind (Viewed g) := by
  cases hfile : readsFile cmd with
  | false =>
    refine viewed_of_alike (alike_execute hcmd) (allows_execute allows_pending cmd ?_ ?_ ?_)
    · exact fun _ _ => trivial
    · exact fun _ _ _ => trivial
    · simp [hfile]
  | true =>
    unfold readsFile at hfile
    split at hfile
    · refine viewed_read_bind (fun _ _ => getCTAID_alike) fun ctaID => ?_
      exact Sql.blind_bind viewed_download fun _ => trivial
    · refine viewed_read_bind (fun _ _ => getCTAID_alike) fun ctaID => ?_
      cases ctaID with
      | none => trivial
      | some c => exact Sql.blind_bind viewed_download fun _ => trivial
    · cases hfile

theorem viewed_complete {u : Upload} (hu : u.guildID = g) {roster : Roster} :
    (completeUpload env roster u).Blind (Viewed g) := by
  refine viewed_of_alike ?_ (allows_complete allows_pending hu fun _ _ => trivial)
  cases u with
  | guild ctaID g' =>
    obtain rfl : g' = g := hu
    exact alike_uploadRoster
  | check c g' =>
    obtain rfl : g' = g := hu
    exact alike_checkRoster

end Programs

end AtomComm.GuildBot
