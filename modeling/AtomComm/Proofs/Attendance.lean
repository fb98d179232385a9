import AtomComm.Sanity.Rosters

/-! Who is present has a party, and who has a party is present. `/cta party upload` takes
the party number from the members of the party and leaves their status, so it breaks this
unless it puts every one of them back. -/

namespace AtomComm.GuildBot

/-! ### The upload of a party -/

/-- The upload puts the row in the party, or leaves it alone, or has its status rewritten
to one that fits no party and takes the party from it. -/
def Settled (env : Env) (db : DB) (g : ℤ) (c : String) (n : ℤ) (names : List String)
    (r : Member) : Prop :=
  placed env g c names r = true ∨
    (r.charName ∉ names ∧ r.partyNumber ≠ some n) ∨
    (r.charName ∈ names ∧ (r.partyNumber = none ∨ r.partyNumber = some n) ∧
      ¬Mistaken env db g c r.charName)

instance (env : Env) (db : DB) (g : ℤ) (c : String) (n : ℤ) (names : List String) (r : Member) :
    Decidable (Settled env db g c n names r) :=
  inferInstanceAs (Decidable (_ ∨ _))

def Restores (env : Env) (db : DB) (g : ℤ) (c : String) (n : ℤ) (words : List String) : Prop :=
  ∀ r ∈ db.users.vals, r.inCTA g c = true → Settled env db g c n (detected env db g c words) r

instance (env : Env) (db : DB) (g : ℤ) (c : String) (n : ℤ) (words : List String) :
    Decidable (Restores env db g c n words) :=
  inferInstanceAs (Decidable (∀ r ∈ db.users.vals, _))

section Upload
variable {env : Env} {db : DB} {g : ℤ} {c : String} {n : ℤ} {words : List String}

theorem placed_congr {names : List String} {r r' : Member} (h : SameKey r r') :
    placed env g c names r' = placed env g c names r := by
  unfold placed
  rw [h.inCTA, h.2.2]

/-- A row after the upload is a row from before, in order, and its party goes by the key and
the party of that row. -/
theorem partyUploaded_row (h : Sound db.users) (hr : Restores env db g c n words) {x : Member}
    (hx : x ∈ (partyUploaded env g c n words db).users.vals) :
    ∃ r ∈ db.users.vals, SameKey r x ∧ Attended x ∧ x.partyNumber =
      if placed env g c (detected env db g c words) r then some n
      else if r.inCTA g c && r.partyNumber = some n then none else r.partyNumber := by
  obtain ⟨q, hq, rfl⟩ := mem_places hx
  obtain ⟨p, hp, rfl⟩ := mem_clear hq
  obtain ⟨r, hmem, ⟨s, rfl⟩, hrest⟩ := mem_refreshes (fun _ hw => hw) hp
  have hcta : Member.inCTA g c { r with status := s } = r.inCTA g c := rfl
  refine ⟨r, hmem, ?_⟩
  rw [placed_congr (r := r) (by split <;> exact ⟨rfl, rfl, rfl⟩)]
  by_cases hpl : placed env g c (detected env db g c words) r = true
  · rw [if_pos hpl, if_pos hpl]
    refine ⟨by split <;> exact ⟨rfl, rfl, rfl⟩, by simp [Attended], rfl⟩
  rw [if_neg hpl, if_neg hpl, hcta]
  refine ⟨by split <;> exact ⟨rfl, rfl, rfl⟩, ?_, by split <;> rfl⟩
  by_cases hin : r.inCTA g c = true
  · rcases hr r hmem hin with hset | ⟨hno, hparty⟩ | ⟨hyes, hparty, hmist⟩
    · exact absurd hset hpl
    · -- neither detected nor a member: the row is as it was
      have hsame := hrest.resolve_right fun h => hno h.2
      rw [hsame]
      simpa [hparty] using h.attended r hmem
    · have hshown := mt shownStatus_eq_present.1 hmist
      have hs : s ≠ .present :=
        notPresent_refreshes hshown (.inl hyes) _ hp (by rw [hcta, hin]) rfl
      rcases hparty with hparty | hparty
      · simp [Attended, hparty, hs]
      · simp [Attended, hparty, hin, hs]
  · have hsame := hrest.resolve_right fun h => hin h.1
    rw [hsame]
    simpa [hin] using h.attended r hmem

theorem partyUploaded_sound (h : Sound db.users) (hr : Restores env db g c n words) :
    Sound (partyUploaded env g c n words db).users := by
  refine ⟨fun x hx => ?_, fun x hx x' hx' hk => ?_⟩
  · obtain ⟨r, -, -, hatt, -⟩ := partyUploaded_row h hr hx
    exact hatt
  · obtain ⟨r, hmem, hkey, -, hparty⟩ := partyUploaded_row h hr hx
    obtain ⟨r', hmem', hkey', -, hparty'⟩ := partyUploaded_row h hr hx'
    have hrows : SameKey r r' := hkey.trans (hk.trans hkey'.symm)
    have hsame := h.sameParty r hmem r' hmem' hrows
    rw [hparty, hparty', placed_congr hrows, hrows.inCTA, hsame]

end Upload

/-! ### Runs -/

/-- A party that is uploaded for the active CTA of a guild. -/
structure Detection where
  guildId : ℤ
  ctaId : String
  partyNumber : ℤ
  words : List String

/-- The upload that an action makes of an image that can be read. -/
def detection (b : Bot) : Action → Option Detection
  | .slash g (.partyUpload n (.words words)) =>
    match getAsInt n, getCTAID b.db g with
    | some n, some c => some ⟨g, c, n, words⟩
    | _, _ => none
  | _ => none

/-- The guild and the CTA whose absentees an action shows. -/
def checked (b : Bot) : Action → Option (ℤ × String)
  | .slash g (.guildCheck .neither) => (getCTAID b.db g).map (g, ·)
  | .slash g (.guildCheck (.text _)) => (getCTAID b.db g).map (g, ·)
  | .complete j _ =>
    match b.pending[j]? with
    | some (.check c g) => some (g, c)
    | _ => none
  | _ => none

/-- No statement of an upload of a party fails, and it settles every row of the CTA; a check
takes no absentee for present. -/
structure Orderly (env : Env) (e : Event Input Bot) : Prop where
  upload : ∀ d ∈ detection e.before e.input.action, (∀ f ∈ e.input.faults, f = false) ∧
    Restores env e.before.db d.guildId d.ctaId d.partyNumber d.words
  check : ∀ d ∈ checked e.before e.input.action, NoneMistaken env d.1 d.2 e.before.db

instance (env : Env) (e : Event Input Bot) : Decidable (Orderly env e) :=
  decidable_of_iff (_ ∧ _) ⟨fun h => ⟨h.1, h.2⟩, fun h => ⟨h.upload, h.check⟩⟩

section Runs
variable {env : Env} {b : Bot} {g : ℤ}

theorem partyUpload_sound {n : ℤ} {image : Image} {faults : List Bool} (h : Sound b.db.users)
    (hd : ∀ d ∈ detection b (.slash g (.partyUpload n image)), (∀ f ∈ faults, f = false) ∧
      Restores env b.db d.guildId d.ctaId d.partyNumber d.words) :
    Sound ((partyUploadCommand env g n image).run faults b).2.db.users := by
  have hread : ∀ p : Option String → Cmd Reply,
      (p (getCTAID b.db g)).Leaves (fun t => Sound t.db.users) b →
        Sound ((read (getCTAID · g) >>= p).run faults b).2.db.users := by
    intro p hp
    have hleaves : (read (getCTAID · g) >>= p).Leaves (fun t => Sound t.db.users) b :=
      Sql.solo_query_bind hp h
    exact hleaves.run faults
  unfold partyUploadCommand
  split
  · rename_i m words hm
    cases hc : getCTAID b.db g with
    | none =>
      apply hread
      rw [hc]
      exact Sql.solo_ret h
    | some c =>
      obtain ⟨hquiet, hrest⟩ := hd ⟨g, c, m, words⟩ (by simp [detection, hm, hc])
      rw [Sql.run_quiet hquiet, read, Sql.bind_eq, Sql.run_query_bind]
      simp only [hc]
      rw [run_uploadParty]
      exact partyUploaded_sound h hrest
  · apply hread
    cases getCTAID b.db g with
    | none => exact Sql.solo_ret h
    | some c => exact Sql.solo_throw h
  · have hthrow : (Sql.throw .runtime : Cmd Reply).Leaves (fun t => Sound t.db.users) b :=
      Sql.solo_throw h
    exact hthrow.run faults

theorem guildCheck_leaves {source : Source} (h : Sound b.db.users)
    (hc : ∀ d ∈ checked b (.slash g (.guildCheck source)), NoneMistaken env d.1 d.2 b.db) :
    (guildCheckCommand env g source).Leaves (fun t => Sound t.db.users) b := by
  apply Sql.solo_query_bind _ h
  beta_reduce
  cases hcta : getCTAID b.db g with
  | none => exact Sql.solo_ret h
  | some c =>
    cases source with
    | neither => exact guildCheckPaginator_leaves h (hc (g, c) (by simp [checked, hcta]))
    | text roster => exact checkRoster_leaves h (hc (g, c) (by simp [checked, hcta]))
    | both => exact Sql.solo_ret h
    | file => exact Sql.solo_exec_bind (Sql.solo_ret h) h
    | imageOrVideo => exact Sql.solo_ret h

/-- Apart from the upload of a party, no action minds which of its statements fail. -/
theorem start_leaves {a : Action} {b' : Bot} {p : Cmd Reply} (hst : start env a b = some (b', p))
    (h : Sound b.db.users) (hc : ∀ d ∈ checked b a, NoneMistaken env d.1 d.2 b.db)
    (ha : ∀ g n image, a ≠ .slash g (.partyUpload n image)) :
    p.Leaves (fun t => Sound t.db.users) b' := by
  by_cases hr : Rewrites b a
  · cases hr with
    | party => exact absurd rfl (ha _ _ _)
    | upload hu =>
      cases hu with
      | text =>
        cases hst
        exact Sql.solo_query_bind (uploadRoster_leaves h) h
      | file hp =>
        rw [start, hp] at hst
        cases hst
        exact uploadRoster_leaves h
    | check hk =>
      cases hk with
      | command =>
        cases hst
        exact guildCheck_leaves h hc
      | @file j roster c _ hp =>
        rw [start, hp] at hst
        cases hst
        exact checkRoster_leaves h (hc (_, c) (by simp [checked, hp]))
  · obtain ⟨hdb, hk⟩ := start_within hst
    have hsound : p.Within (fun t => Sound t.db.users) fun _ _ => True :=
      hk.imp (fun _ _ => trivial) fun t t' ht he => ⟨effect_sound he hr ht, trivial⟩
    rw [← hdb] at h
    exact hsound.leaves h

theorem step_sound {e : Event Input Bot} (he : Orderly env e)
    (hst : step env e.input e.before = some e.after) (h : Sound e.before.db.users) :
    Sound e.after.db.users := by
  obtain ⟨b', p, hs, ht⟩ := step_eq_some hst
  rw [ht]
  by_cases ha : ∃ g n image, e.input.action = .slash g (.partyUpload n image)
  · obtain ⟨g, n, image, ha⟩ := ha
    have hup := he.upload
    rw [ha] at hs hup
    cases hs
    exact partyUpload_sound h hup
  · have hleaves : p.Leaves (fun t => Sound t.db.users) b' :=
      start_leaves hs h he.check fun g n image hg => ha ⟨g, n, image, hg⟩
    exact hleaves.run e.input.faults

/-- In a run in which every upload of a party puts back whom it takes out and no check takes
an absentee for present, who is present has a party and who has a party is present. -/
theorem attendance_kept {es : List (Event Input Bot)} (h : Run (step env) Bot.empty es b)
    (he : ∀ e ∈ es, Orderly env e) : ∀ r ∈ b.db.users.vals, Attended r := by
  have hsound : Sound b.db.users :=
    h.invariant (I := fun b => Sound b.db.users) sound_empty (fun _ => step_sound) he
  exact hsound.attended

end Runs

/-- The party again, with a member more, and a check of the guild. -/
def reuploaded : List Input :=
  opening ["Bobby", "Evelyn"] ++
    [does (.partyUpload 1 (.words ["Bobby"])), does (.partyUpload 1 (.words ["Bobby", "Evelyn"])),
      does (.guildCheck .neither)]

theorem attendance_kept_reuploaded :
    (endState reuploaded).db.users.vals.map Member.partyNumber = [some 1, some 1] ∧
      ∀ r ∈ (endState reuploaded).db.users.vals, Attended r :=
  ⟨by decide +kernel,
    attendance_kept (run_trace (step Env.ascii) Bot.empty reuploaded) (by decide +kernel)⟩

/-- The party again, with another member. -/
def replaced : List Input :=
  opening ["Bobby", "Evelyn"] ++
    [does (.partyUpload 1 (.words ["Bobby"])), does (.partyUpload 1 (.words ["Evelyn"]))]

theorem attendance_lost :
    ∃ es, Run (step Env.ascii) Bot.empty es (endState replaced) ∧
      ∃ r ∈ (endState replaced).db.users.vals, r.status = .present ∧ r.partyNumber = none :=
  ⟨_, run_trace _ _ replaced, by decide +kernel⟩

end AtomComm.GuildBot
