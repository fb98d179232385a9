import AtomComm.Sanity.Detection

/-! Rosters. An upload empties the CTA before it lists anyone, so those it then marks have no
party. A check shows the members without a party whose status says absent, and writes what
it shows. -/

namespace AtomComm.GuildBot

/-! ### Uploads -/

/-- A sound table in which nobody has a party in the CTA. -/
structure Unassigned (g : ℤ) (c : String) (t : Bot) : Prop where
  sound : Sound t.db.users
  noParty : ∀ r ∈ t.db.users.vals, r.inCTA g c = true → r.partyNumber = none

section Upload
variable {g : ℤ} {c name : String} {t : Bot}

theorem unassigned_delete (h : Sound t.db.users) :
    Unassigned g c { t with db := deleteUsersDataForGuild g c t.db } := by
  simp only [deleteUsersDataForGuild]
  refine ⟨h.delete _, fun r hr hcta => ?_⟩
  have hdel : ¬ r.inCTA g c = true := by
    have hr' : r ∈ (t.db.users.delete fun r => r.inCTA g c).vals := hr
    rw [Table.vals_delete] at hr'
    simpa using (List.mem_filter.1 hr').2
  exact absurd hcta hdel

theorem Unassigned.list (h : Unassigned g c t) (seen : ℤ) :
    Unassigned g c { t with db := insertUser g c .offline name seen t.db } := by
  simp only [insertUser]
  refine ⟨h.sound.insert (by simp) rfl fun r hr hk => ?_, fun r hr hcta => ?_⟩
  · apply h.noParty r hr
    rw [hk.inCTA]
    simp [Member.inCTA]
  · have hr' : r ∈ t.db.users.vals ++ [⟨name, c, seen, g, .offline, none⟩] := by
      rw [← Table.vals_insert]
      exact hr
    rcases List.mem_append.1 hr' with hold | hnew
    · exact h.noParty r hold hcta
    · rw [List.mem_singleton.1 hnew]

theorem Unassigned.online (h : Unassigned g c t) :
    Unassigned g c { t with db := updateUserStatus g c name .absent t.db } := by
  constructor
  · exact sound_updateUserStatus h.sound (by simp) fun r hr hcta _ => h.noParty r hr hcta
  · intro x hx hcta
    obtain ⟨r, hr, hkey, hparty⟩ := party_updateUserStatus hx
    rw [hkey.inCTA] at hcta
    rw [hparty]
    exact h.noParty r hr hcta

theorem uploadRoster_leaves {ctaID : Option String} {roster : Roster} (h : Sound t.db.users) :
    (uploadRoster g ctaID roster).Leaves (fun t => Sound t.db.users) t := by
  have hpages : ∀ t : Bot, Sound t.db.users →
      (sendGuildUploadPaginator g ctaID).Leaves (fun t => Sound t.db.users) t := by
    intro t ht
    exact Sql.Within.leaves (within_uploadPaginator (G := fun _ _ => True) fun _ => trivial) ht
  cases ctaID with
  | none => exact hpages t h
  | some c =>
    refine Sql.leaves_bind (Sql.solo_exec_bind ?_ h) (fun _ t ht => hpages t ht) fun _ ht => ht
    have hadd : (addUsersToDatabase g c roster).Within (Unassigned g c) fun _ _ => True := by
      apply within_addUsers
      · exact fun name seen t ht => ⟨ht.list seen, trivial⟩
      · exact fun name t ht => ⟨ht.online, trivial⟩
      · exact fun t ht => ⟨⟨ht.sound, ht.noParty⟩, trivial⟩
    exact hadd.solo (unassigned_delete h) (fun _ _ ht => ht.sound) fun _ _ ht => ht.sound

end Upload

/-! ### Checks -/

/-- The check of a guild takes none of its absentees for present. -/
def NoneMistaken (env : Env) (g : ℤ) (c : String) (db : DB) : Prop :=
  ∀ name ∈ getAbsentees db g c, ¬Mistaken env db g c name

instance (env : Env) (g : ℤ) (c : String) (db : DB) : Decidable (NoneMistaken env g c db) :=
  inferInstanceAs (Decidable (∀ name ∈ getAbsentees db g c, _))

/-- A sound table in which the names have no party and are not shown as present. -/
structure Missing (env : Env) (g : ℤ) (c : String) (names : List String) (t : Bot) : Prop where
  sound : Sound t.db.users
  shown : ∀ a ∈ names, shownStatus env t.db g c a ≠ .present
  noParty : ∀ a ∈ names, ∀ r ∈ t.db.users.vals, r.inCTA g c = true → r.charName = a →
    r.partyNumber = none

section Check
variable {env : Env} {g : ℤ} {c : String} {names : List String} {t : Bot}

theorem missing_absentees (h : Sound t.db.users) (hs : NoneMistaken env g c t.db) :
    Missing env g c (getAbsentees t.db g c) t := by
  refine ⟨h, fun a ha => mt shownStatus_eq_present.1 (hs a ha), fun a ha r hr hcta hname => ?_⟩
  obtain ⟨q, hq, rfl⟩ := List.mem_map.1 ha
  obtain ⟨hmem, hsel⟩ := List.mem_filter.1 hq
  simp only [Bool.and_eq_true, decide_eq_true_eq, Member.inCTA] at hsel hcta
  -- one name, one party: the row that was selected has none
  have hkey : SameKey q r :=
    ⟨hcta.1.trans hsel.1.1.1.symm, hcta.2.trans hsel.1.1.2.symm, hname⟩
  rw [h.sameParty q hmem r hr hkey, hsel.2]

theorem Missing.refresh (h : Missing env g c names t) {a : String} (ha : a ∈ names) :
    Missing env g c names { t with db := refresh env g c t.db a } := by
  constructor
  · exact sound_updateUserStatus h.sound (h.shown a ha) (h.noParty a ha)
  · exact fun v hv => shownStatus_refresh (h.shown v hv) a
  · intro v hv x hx hcta hname
    obtain ⟨r, hr, hkey, hparty⟩ := party_updateUserStatus hx
    rw [hkey.inCTA] at hcta
    rw [hkey.2.2] at hname
    rw [hparty]
    exact h.noParty v hv r hr hcta hname

theorem solo_statusFromDB {Q : Status → Bot → Prop} {E : Exn → Bot → Prop} {name : String}
    (hQ : Q (shownStatus env t.db g c name) t) (hE : E .sql t) :
    (statusFromDB env g c name).Ok Sql.solo Q E t := by
  unfold statusFromDB
  apply Sql.solo_query_bind _ hE
  unfold shownStatus at hQ
  beta_reduce
  cases hs : getPlayerStatus t.db g c name with
  | none => exact Sql.solo_ret (by simpa [hs] using hQ)
  | some s =>
    cases s with
    | absent =>
      apply Sql.solo_query_bind _ hE
      beta_reduce
      cases hp : playerHasParty env t.db name g c with
      | true => exact Sql.solo_ret (by simpa [hs, hp] using hQ)
      | false =>
        apply Sql.solo_query_bind _ hE
        beta_reduce
        rw [hp]
        exact Sql.solo_ret (by simpa [hs, hp] using hQ)
    | _ => exact Sql.solo_ret (by simpa [hs] using hQ)

/-- The status that is shown is written back, or not when the statement fails. -/
theorem solo_getPlayerStatus {I : Bot → Prop} {name : String}
    (hw : I { t with db := refresh env g c t.db name }) (h : I t) :
    (helperGetPlayerStatus env g c name).Leaves I t := by
  refine Sql.ok_bind.2 (solo_statusFromDB ?_ h)
  have hwrite : (swallow (write (updateUserStatus g c name (shownStatus env t.db g c name)))).Leaves I t := by
    apply Sql.leaves_tryCatch (Sql.leaves_exec hw h)
    intro e u hu
    cases e with
    | sql => exact Sql.solo_ret hu
    | runtime => exact Sql.solo_throw hu
  exact Sql.leaves_bind hwrite (fun _ _ hu => Sql.solo_ret hu) fun _ hu => hu

theorem absenteesPages_leaves {ws : List String} (hws : ∀ a ∈ ws, a ∈ names)
    (h : Missing env g c names t) :
    (absenteesPages env g c ws).Leaves (Missing env g c names) t := by
  induction ws generalizing t with
  | nil => exact Sql.solo_ret h
  | cons a ws ih =>
    apply Sql.leaves_bind (solo_getPlayerStatus (h.refresh (hws a (by simp))) h) _ fun _ ht => ht
    intro _ u hu
    apply Sql.leaves_bind (ih (fun v hv => hws v (by simp [hv])) hu) _ fun _ ht => ht
    exact fun _ _ ht => Sql.solo_ret ht

theorem guildCheckPaginator_leaves (h : Sound t.db.users) (hs : NoneMistaken env g c t.db) :
    (sendGuildCheckPaginator env g c).Leaves (fun t => Sound t.db.users) t := by
  apply Sql.solo_query_bind _ h
  apply Sql.solo_query_bind _ h
  split
  · exact Sql.solo_ret h
  · refine Sql.leaves_bind (absenteesPages_leaves (fun _ ha => ha) (missing_absentees h hs))
      (fun _ u hu => ?_) fun _ hu => hu.sound
    have hpages : (partiesPages g c (getParties t.db c g)).Within (fun t => Sound t.db.users)
        fun _ _ => True := within_partiesPages fun _ => trivial
    exact Sql.leaves_bind (hpages.leaves hu.sound) (fun _ _ ht => Sql.solo_ret ht) fun _ ht => ht

theorem getAbsentees_updateLastSeen {db : DB} {name : String} {seen : ℤ} :
    getAbsentees (updateLastSeen g c name seen db) g c = getAbsentees db g c := by
  simp only [getAbsentees, updateLastSeen]
  rw [Table.select_update]
  · rw [List.map_map]
    apply List.map_congr_left
    intro r _
    simp only [Function.comp]
    split <;> rfl
  · exact fun _ _ => rfl

theorem mistaken_updateLastSeen {db : DB} {name v : String} {seen : ℤ} :
    Mistaken env (updateLastSeen g c name seen db) g c v ↔ Mistaken env db g c v := by
  have hstatus : getPlayerStatus (updateLastSeen g c name seen db) g c v =
      getPlayerStatus db g c v := by
    simp only [getPlayerStatus, updateLastSeen]
    rw [Table.first_update]
    · rw [Option.map_map]
      refine congrArg (fun f => Option.map f _) (funext fun r => ?_)
      simp only [Function.comp]
      split <;> rfl
    · exact fun _ _ => rfl
  have hparty : playerHasParty env (updateLastSeen g c name seen db) v g c =
      playerHasParty env db v g c := by
    simp only [updateLastSeen]
    apply playerHasParty_update
    · exact fun r => ⟨rfl, rfl, rfl⟩
    · exact fun r => rfl
  unfold Mistaken
  rw [hstatus, hparty]

/-- A new last seen changes neither who is absent nor who has a party. -/
theorem noneMistaken_updateLastSeen {db : DB} {name : String} {seen : ℤ}
    (h : NoneMistaken env g c db) : NoneMistaken env g c (updateLastSeen g c name seen db) := by
  intro v hv
  rw [getAbsentees_updateLastSeen] at hv
  rw [mistaken_updateLastSeen]
  exact h v hv

theorem checkRoster_leaves {roster : Roster} (h : Sound t.db.users)
    (hs : NoneMistaken env g c t.db) :
    (checkRoster env g c roster).Leaves (fun t => Sound t.db.users) t := by
  have hseen : (updateGuildUploadUsers g c roster).Within
      (fun t => Sound t.db.users ∧ NoneMistaken env g c t.db) fun _ _ => True :=
    within_updateUploadUsers fun _ _ _ ht =>
      ⟨⟨sound_updateLastSeen ht.1, noneMistaken_updateLastSeen ht.2⟩, trivial⟩
  apply Sql.leaves_bind (hseen.leaves ⟨h, hs⟩) _ fun _ ht => ht.1
  exact fun _ _ ht => guildCheckPaginator_leaves ht.1 ht.2

end Check

end AtomComm.GuildBot
