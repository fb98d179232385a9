import AtomComm.Sanity.Statements

/-! The CTA that a roster is of. `/cta cancel` deletes the CTA and then its roster, and
nothing else deletes a CTA; an upload deletes and inserts the roster of a CTA that was active
when the command came. From text the upload runs in the place of any other command. From a
file it runs when the download is complete, and the CTA may be gone by then. -/

namespace AtomComm.GuildBot

def HasCTA (b : Bot) (g : ℤ) (ctaID : String) : Prop :=
  ∃ r ∈ b.db.cta.vals, r.guildId = g ∧ r.ctaId = ctaID

def Listed (b : Bot) (g : ℤ) (ctaID : String) : Prop :=
  ∃ v ∈ b.db.users.vals, v.guildId = g ∧ v.ctaId = ctaID

def KeepsCTAs (s t : Bot) : Prop := ∀ g ctaID, HasCTA s g ctaID → HasCTA t g ctaID

/-- No CTA goes, and a roster that comes is of one that is there. -/
def Belongs (s t : Bot) : Prop :=
  KeepsCTAs s t ∧ ∀ g ctaID, Listed t g ctaID → Listed s g ctaID ∨ HasCTA t g ctaID

/-! ### Statements -/

section Statements
variable {s t : Bot}

theorem keeps_of_eq (h : t.db.cta = s.db.cta) : KeepsCTAs s t := by
  rintro g ctaID ⟨r, hr, hkey⟩
  exact ⟨r, h ▸ hr, hkey⟩

theorem belongs_of_eq (hk : KeepsCTAs s t) (h : t.db.users = s.db.users) : Belongs s t := by
  refine ⟨hk, ?_⟩
  rintro g ctaID ⟨v, hv, hkey⟩
  exact .inl ⟨v, h ▸ hv, hkey⟩

theorem belongs_insertCTA {v : Cta} :
    Belongs s { s with db := { s.db with cta := s.db.cta.insert v } } := by
  refine belongs_of_eq ?_ rfl
  rintro g ctaID ⟨r, hr, hkey⟩
  refine ⟨r, ?_, hkey⟩
  rw [Table.vals_insert]
  exact List.mem_append_left _ hr

theorem belongs_updateCTA {p : Cta → Bool} {f : Cta → Cta}
    (hf : ∀ r, (f r).guildId = r.guildId ∧ (f r).ctaId = r.ctaId) :
    Belongs s { s with db := { s.db with cta := s.db.cta.update p f } } := by
  refine belongs_of_eq ?_ rfl
  rintro g ctaID ⟨r, hr, hkey⟩
  refine ⟨if p r then f r else r, ?_, ?_⟩
  · rw [Table.vals_update]
    exact List.mem_map_of_mem hr
  · split
    · rwa [(hf r).1, (hf r).2]
    · exact hkey

theorem belongs_updateUsers {p : Member → Bool} {f : Member → Member}
    (hf : ∀ v, (f v).guildId = v.guildId ∧ (f v).ctaId = v.ctaId) :
    Belongs s { s with db := { s.db with users := s.db.users.update p f } } := by
  refine ⟨keeps_of_eq rfl, ?_⟩
  rintro g ctaID ⟨v, hv, hkey⟩
  rw [Table.vals_update] at hv
  obtain ⟨w, hw, rfl⟩ := List.mem_map.1 hv
  refine .inl ⟨w, hw, ?_⟩
  split at hkey
  · rwa [(hf w).1, (hf w).2] at hkey
  · exact hkey

theorem belongs_deleteUsers {p : Member → Bool} :
    Belongs s { s with db := { s.db with users := s.db.users.delete p } } := by
  refine ⟨keeps_of_eq rfl, ?_⟩
  rintro g ctaID ⟨v, hv, hkey⟩
  rw [Table.vals_delete] at hv
  exact .inl ⟨v, (List.mem_filter.1 hv).1, hkey⟩

theorem belongs_insertUser {v : Member} (hv : HasCTA s v.guildId v.ctaId) :
    Belongs s { s with db := { s.db with users := s.db.users.insert v } } := by
  refine ⟨keeps_of_eq rfl, ?_⟩
  rintro g ctaID ⟨w, hw, rfl, rfl⟩
  rw [Table.vals_insert, List.mem_append, List.mem_singleton] at hw
  rcases hw with hw | rfl
  · exact .inl ⟨w, hw, rfl, rfl⟩
  · exact .inr hv

theorem belongs_refl (b : Bot) : Belongs b b := belongs_of_eq (keeps_of_eq rfl) rfl

variable {env : Env} {b : Bot} {a : Action}

/-- Apart from the statements of `/cta cancel`. -/
theorem effect_belongs (he : Effect env b a s t) (hcancel : ∀ g, a ≠ .slash g .cancel) :
    Belongs s t ∨ KeepsCTAs s t ∧ ∃ g, Uploads b a g := by
  cases he with
  | query => exact .inl (belongs_refl s)
  | create => exact .inl belongs_insertCTA
  | cancel => exact absurd rfl (hcancel _)
  | cancelUsers => exact absurd rfl (hcancel _)
  | delete | deleteTime | check | info | report =>
    refine .inl (belongs_updateCTA ?_)
    exact fun _ => ⟨rfl, rfl⟩
  | place | remove | clear | detect | shown | seen | online =>
    refine .inl (belongs_updateUsers ?_)
    exact fun _ => ⟨rfl, rfl⟩
  | dropUsers => exact .inl (belongs_deleteUsers)
  | list h => exact .inr ⟨keeps_of_eq rfl, _, h⟩
  | words => exact .inl (belongs_of_eq (keeps_of_eq rfl) rfl)
  | download => exact .inl (belongs_of_eq (keeps_of_eq rfl) rfl)

theorem effect_keeps (he : Effect env b a s t) (hcancel : ∀ g, a ≠ .slash g .cancel) :
    KeepsCTAs s t := by
  rcases effect_belongs he hcancel with h | h
  · exact h.1
  · exact h.1

end Statements

/-! ### Commands -/

/-- A command of the main thread, next to threads that keep the CTAs. -/
abbrev Attached (p : Cmd Reply) (s : Bot) : Prop :=
  p.Ok ⟨fun _ => True, KeepsCTAs, Belongs⟩ (fun _ _ => True) (fun _ _ => True) s

theorem uploadRoster_attached {s : Bot} {g : ℤ} {ctaID : Option String} {roster : Roster}
    (h : ∀ c, ctaID = some c → HasCTA s g c) : Attached (uploadRoster g ctaID roster) s := by
  have hwithin : (uploadRoster g ctaID roster).Within
      (fun t => ∀ c, ctaID = some c → HasCTA t g c) Belongs := by
    refine Sql.within_bind ?_ fun _ => within_uploadPaginator belongs_refl
    cases ctaID with
    | none => trivial
    | some c =>
      refine Sql.within_bind (within_write fun t ht => ⟨ht, belongs_deleteUsers⟩) fun _ => ?_
      apply within_addUsers
      · exact fun name seen t ht => ⟨ht, belongs_insertUser (ht c rfl)⟩
      · refine fun name t ht => ⟨ht, belongs_updateUsers ?_⟩
        exact fun _ => ⟨rfl, rfl⟩
      · exact fun t ht => ⟨ht, belongs_of_eq (keeps_of_eq rfl) rfl⟩
  refine (hwithin.ok h).widen h ?_
  exact fun s t hst hs c hc => hst g c (hs c hc)

theorem hasCTA_of_getCTAID {b : Bot} {g : ℤ} {c : String} (h : getCTAID b.db g = some c) :
    HasCTA b g c := by
  obtain ⟨r, hr, rfl⟩ := Option.map_eq_some_iff.1 h
  obtain ⟨hmem, hp⟩ := Table.first_mem hr
  exact ⟨r, hmem, of_decide_eq_true (Bool.and_eq_true_iff.1 hp).1, rfl⟩

theorem slash_attached {env : Env} {b : Bot} {g : ℤ} {c : Command} (hc : c ≠ .cancel) :
    Attached (execute env g c) b := by
  by_cases hup : ∃ roster, c = .guildUpload (.text roster)
  · obtain ⟨roster, rfl⟩ := hup
    refine Sql.ok_query_bind trivial belongs_refl (fun t _ _ => ?_) fun _ _ => trivial
    exact uploadRoster_attached fun c hc => hasCTA_of_getCTAID hc
  · have hk : Keeps env b (.slash g c) (execute env g c) := keeps_execute c
    refine Sql.Within.ok (hk.imp (fun _ _ => trivial) ?_) trivial
    intro s t _ he
    rcases effect_belongs he fun _ h => hc (by cases h; rfl) with h | ⟨-, _, h⟩
    · exact ⟨trivial, h⟩
    · cases h
      exact absurd ⟨_, rfl⟩ hup

/-! ### `/cta cancel` -/

/-- What is left of `/cta cancel` when it has found the CTA. -/
def found (g : ℤ) (ctaID : String) : Cmd Reply := do
  deleteCTA ctaID g
  return sendCTACancelledMessage ctaID

/-- What is left of it when it has deleted the CTA. -/
def cancelling (g : ℤ) (ctaID : String) : Cmd Reply := do
  write (deleteUsersDataForGuild g ctaID)
  return sendCTACancelledMessage ctaID

theorem cancelCommand_eq (g : ℤ) : cancelCommand g = .stmt some
    (fun b => ((getCTAID b.db g).map (found g)).getD (pure sendNoCTAActiveMessage))
    (.throw .sql) := by
  show Sql.stmt _ _ _ = _
  congr 1
  funext b
  rw [Sql.ret_bind]
  beta_reduce
  cases getCTAID b.db g <;> rfl

theorem found_eq (g : ℤ) (c : String) : found g c = .stmt
    (fun b => some { b with db := deleteFromCTA c g b.db }) (fun _ => cancelling g c)
    (.throw .sql) := rfl

theorem cancelling_eq (g : ℤ) (c : String) : cancelling g c = .stmt
    (fun b => some { b with db := deleteUsersDataForGuild g c b.db })
    (fun _ => pure (sendCTACancelledMessage c)) (.throw .sql) := rfl

theorem hasCTA_delete {b : Bot} {g g' : ℤ} {c c' : String} (h : HasCTA b g' c')
    (hne : ¬(g' = g ∧ c' = c)) : HasCTA { b with db := deleteFromCTA c g b.db } g' c' := by
  obtain ⟨r, hr, rfl, rfl⟩ := h
  refine ⟨r, ?_, rfl, rfl⟩
  simp only [deleteFromCTA, Table.vals_delete, List.mem_filter]
  refine ⟨hr, ?_⟩
  rw [Bool.not_eq_true', Bool.and_eq_false_iff, decide_eq_false_iff_not, decide_eq_false_iff_not]
  exact not_and_or.1 fun hboth => hne ⟨hboth.2, hboth.1⟩

theorem not_listed_delete (b : Bot) (g : ℤ) (c : String) :
    ¬Listed { b with db := deleteUsersDataForGuild g c b.db } g c := by
  rintro ⟨v, hv, rfl, rfl⟩
  simp only [deleteUsersDataForGuild, Table.vals_delete, List.mem_filter] at hv
  simp [Member.inCTA] at hv

/-! ### Runs -/

/-- The main thread has deleted the CTA and comes to its roster. -/
def Cancelling (P : Pool Thread Bot Reply) (g : ℤ) (ctaID : String) : Prop :=
  P.slot .main = some (cancelling g ctaID)

/-- The next statement of the thread lists the first member for a CTA. -/
def Inserts (P : Pool Thread Bot Reply) (i : Thread) (g : ℤ) (ctaID : String) : Prop :=
  ∃ f k h t, P.slot i = some (.stmt f k h) ∧ f P.state = some t ∧
    ¬Listed P.state g ctaID ∧ Listed t g ctaID

/-- A thread other than the main one lists members only for a CTA that is there, or whose
roster the main thread comes to delete; and that statement of the main thread does not
throw while there is a roster to delete. -/
def Careful (i : Thread) (P P' : Pool Thread Bot Reply) : Prop :=
  (i ≠ .main → P'.state ≠ P.state → ∀ g ctaID, Inserts P i g ctaID →
    HasCTA P.state g ctaID ∨ Cancelling P g ctaID) ∧
  ∀ g ctaID, Cancelling P g ctaID → Listed P.state g ctaID → P'.slot .main ≠ some (.throw .sql)

def Stands (p : Cmd Reply) (s : Bot) : Prop :=
  Attached p s ∨ (∃ g, p = cancelCommand g) ∨ ∃ g c, p = found g c

/-- The invariant: the CTA of each roster is there, or is being cancelled. -/
structure Rooted (P : Pool Thread Bot Reply) : Prop where
  listed : ∀ g c, Listed P.state g c → HasCTA P.state g c ∨ Cancelling P g c
  main : ∀ p, P.slot .main = some p → Stands p P.state
  others : ∀ i p, i ≠ .main → P.slot i = some p → p.Within (fun _ => True) KeepsCTAs

section Steps
variable {env : Env} {P P' : Pool Thread Bot Reply} {i : Thread}

theorem Attached.keeps {p : Cmd Reply} {s t : Bot} (h : Attached p s) (hst : KeepsCTAs s t) :
    Attached p t :=
  Sql.Ok.drift h (Relation.ReflTransGen.single ⟨hst, trivial⟩)

theorem Stands.keeps {p : Cmd Reply} {s t : Bot} (h : Stands p s) (hst : KeepsCTAs s t) :
    Stands p t :=
  h.imp_left fun ha => ha.keeps hst

theorem rooted_put (h : Rooted P) (hi : i ≠ .main) {t : Bot} {q : Option (Cmd Reply)}
    (hk : KeepsCTAs P.state t)
    (hl : ∀ g c, Listed t g c → Listed P.state g c ∨ HasCTA P.state g c ∨ Cancelling P g c)
    (hq : ∀ p, q = some p → p.Within (fun _ => True) KeepsCTAs) : Rooted (P.put t i q) := by
  have hmain : (P.put t i q).slot .main = P.slot .main := Pool.slot_put_ne hi.symm
  refine ⟨?_, ?_, ?_⟩
  · intro g c hlisted
    unfold Cancelling
    rw [hmain]
    rcases hl g c hlisted with hold | hcta | hcancel
    · exact (h.listed g c hold).imp_left (hk g c)
    · exact .inl (hk g c hcta)
    · exact .inr hcancel
  · intro p hp
    rw [hmain] at hp
    exact (h.main p hp).keeps hk
  · intro j p hj hp
    by_cases hji : j = i
    · subst hji
      rw [Pool.slot_put] at hp
      exact hq p hp
    · rw [Pool.slot_put_ne hji] at hp
      exact h.others j p hj hp

/-- A step of another thread. -/
theorem rooted_other (h : Rooted P) (hi : i ≠ .main) (hst : (system env).StepOf i P P')
    (hC : Careful i P P') : Rooted P' := by
  cases hst with
  | @start s' p hslot hstart =>
    obtain ⟨a, ha, hs⟩ := hstart
    obtain ⟨hdb, hk⟩ := start_within hs
    have hcancel : ∀ g, a ≠ .slash g .cancel := by
      rintro g rfl
      exact hi ha
    refine rooted_put h hi (keeps_of_eq (by rw [hdb])) ?_ ?_
    · rintro g c ⟨v, hv, hkey⟩
      exact .inl ⟨v, hdb ▸ hv, hkey⟩
    · intro q hq
      obtain rfl := Option.some.inj hq
      exact hk.imp (fun _ _ => trivial) fun s t _ he => ⟨trivial, effect_keeps he hcancel⟩
  | @stmt f k q t hslot hf =>
    have hwithin := h.others i _ hi hslot
    obtain ⟨hstep, hrest⟩ := hwithin.1 P.state trivial
    refine rooted_put h hi (hstep t hf).2 ?_ ?_
    · intro g c hlisted
      by_cases hold : Listed P.state g c
      · exact .inl hold
      · have hmoved : t ≠ P.state := by
          rintro rfl
          exact hold hlisted
        exact .inr (hC.1 hi hmoved g c ⟨f, k, q, t, hslot, hf, hold, hlisted⟩)
    · intro p hp
      obtain rfl := Option.some.inj hp
      exact hrest
  | @fault f k q hslot =>
    have hwithin := h.others i _ hi hslot
    refine rooted_put h hi (keeps_of_eq rfl) (fun _ _ hl => .inl hl) ?_
    intro p hp
    obtain rfl := Option.some.inj hp
    exact hwithin.2
  | done => exact rooted_put h hi (keeps_of_eq rfl) (fun _ _ hl => .inl hl) fun _ hp => nomatch hp
  | fail => exact rooted_put h hi (keeps_of_eq rfl) (fun _ _ hl => .inl hl) fun _ hp => nomatch hp

/-- When the roster is deleted, the main thread has left the cancelling. -/
theorem Cancelling.unlists {f : Bot → Option Bot} {k : Bot → Cmd Reply} {q : Cmd Reply} {t : Bot}
    {g : ℤ} {c : String} (h : Cancelling P g c) (hslot : P.slot .main = some (.stmt f k q))
    (hf : f P.state = some t) : ¬Listed t g c := by
  have heq : Sql.stmt f k q = cancelling g c := Option.some.inj (hslot.symm.trans h)
  rw [cancelling_eq] at heq
  obtain ⟨rfl, -, -⟩ := Sql.stmt.inj heq
  obtain rfl := Option.some.inj hf
  exact not_listed_delete P.state g c

theorem attached_cancelling {g : ℤ} {c : String} {s : Bot} : Attached (cancelling g c) s := by
  have hwithin : (cancelling g c).Within (fun _ => True) Belongs :=
    Sql.within_bind (within_write fun _ _ => ⟨trivial, belongs_deleteUsers⟩) fun _ => trivial
  exact hwithin.ok trivial

theorem rooted_put_main (h : Rooted P) {t : Bot} {q : Option (Cmd Reply)}
    (hl : ∀ g c, Listed t g c → HasCTA t g c ∨ q = some (cancelling g c))
    (hq : ∀ p, q = some p → Stands p t) : Rooted (P.put t .main q) := by
  refine ⟨?_, ?_, ?_⟩
  · intro g c hlisted
    unfold Cancelling
    rw [Pool.slot_put]
    exact hl g c hlisted
  · intro p hp
    rw [Pool.slot_put] at hp
    exact hq p hp
  · intro j p hj hp
    rw [Pool.slot_put_ne hj] at hp
    exact h.others j p hj hp

theorem Rooted.hasCTA (h : Rooted P) {g : ℤ} {c : String} (hl : Listed P.state g c)
    (hno : ¬Cancelling P g c) : HasCTA P.state g c :=
  (h.listed g c hl).resolve_right hno

/-- The main thread is cancelling only when it comes to a statement. -/
theorem Cancelling.stmt {g : ℤ} {c : String} (h : Cancelling P g c) :
    ∃ f k q, P.slot .main = some (.stmt f k q) := by
  rw [Cancelling, cancelling_eq] at h
  exact ⟨_, _, _, h⟩

/-- What the main thread does when a statement throws. -/
theorem Stands.fault {f : Bot → Option Bot} {k : Bot → Cmd Reply} {q : Cmd Reply} {s : Bot}
    (h : Stands (.stmt f k q) s) : Attached q s := by
  rcases h with hatt | ⟨g, hg⟩ | ⟨g, c, hgc⟩
  · exact (hatt s Relation.ReflTransGen.refl).2
  · rw [cancelCommand_eq] at hg
    obtain ⟨-, -, rfl⟩ := Sql.stmt.inj hg
    exact fun _ _ => trivial
  · rw [found_eq] at hgc
    obtain ⟨-, -, rfl⟩ := Sql.stmt.inj hgc
    exact fun _ _ => trivial

/-- A statement of the main thread. -/
theorem rooted_main_stmt (h : Rooted P) {f : Bot → Option Bot} {k : Bot → Cmd Reply}
    {q : Cmd Reply} {t : Bot} (hslot : P.slot .main = some (.stmt f k q))
    (hf : f P.state = some t) : Rooted (P.put t .main (some (k P.state))) := by
  have hcta : ∀ g c, Listed t g c → Listed P.state g c → HasCTA P.state g c :=
    fun g c hnow hold => h.hasCTA hold fun hcancel => hcancel.unlists hslot hf hnow
  rcases h.main _ hslot with hatt | ⟨g, hg⟩ | ⟨g, c, hgc⟩
  · obtain ⟨hstep, -⟩ := hatt P.state Relation.ReflTransGen.refl
    obtain ⟨-, hbelongs, hrest⟩ := hstep t hf
    refine rooted_put_main h (fun g c hnow => .inl ?_) ?_
    · rcases hbelongs.2 g c hnow with hold | hnew
      · exact hbelongs.1 g c (hcta g c hnow hold)
      · exact hnew
    · intro p hp
      obtain rfl := Option.some.inj hp
      exact .inl hrest
  · rw [cancelCommand_eq] at hg
    obtain ⟨rfl, rfl, -⟩ := Sql.stmt.inj hg
    obtain rfl := Option.some.inj hf
    refine rooted_put_main h (fun g c hnow => .inl (hcta g c hnow hnow)) ?_
    intro p hp
    obtain rfl := Option.some.inj hp
    beta_reduce
    cases getCTAID P.state.db g with
    | none => exact .inl fun _ _ => trivial
    | some c => exact .inr (.inr ⟨g, c, rfl⟩)
  · rw [found_eq] at hgc
    obtain ⟨rfl, rfl, -⟩ := Sql.stmt.inj hgc
    obtain rfl := Option.some.inj hf
    refine rooted_put_main h ?_ ?_
    · intro g' c' hnow
      have hold : HasCTA P.state g' c' := hcta g' c' hnow hnow
      by_cases hkey : g' = g ∧ c' = c
      · obtain ⟨rfl, rfl⟩ := hkey
        exact .inr rfl
      · exact .inl (hasCTA_delete hold hkey)
    · intro p hp
      obtain rfl := Option.some.inj hp
      exact .inl attached_cancelling

/-- Where the main thread comes to no statement, it can be idle next. -/
theorem rooted_main_idle (h : Rooted P) (hno : ∀ f k q, P.slot .main ≠ some (.stmt f k q)) :
    Rooted (P.put P.state .main none) := by
  refine rooted_put_main h (fun g c hl => .inl (h.hasCTA hl fun hcancel => ?_)) fun _ hp => nomatch hp
  obtain ⟨f, k, q, hslot⟩ := hcancel.stmt
  exact hno f k q hslot

theorem rooted_main (h : Rooted P) (hst : (system env).StepOf .main P P')
    (hC : Careful .main P P') : Rooted P' := by
  cases hst with
  | @start s' p hslot hstart =>
    obtain ⟨a, ha, hs⟩ := hstart
    cases a with
    | slash g c =>
      cases hs
      have hno : ∀ g c, ¬Cancelling P g c := by
        intro g c hcancel
        obtain ⟨f, k, q, hstmt⟩ := hcancel.stmt
        rw [hslot] at hstmt
        cases hstmt
      refine rooted_put_main h (fun g c hl => .inl (h.hasCTA hl (hno g c))) ?_
      intro p hp
      obtain rfl := Option.some.inj hp
      by_cases hc : c = .cancel
      · subst hc
        exact .inr (.inl ⟨g, rfl⟩)
      · exact .inl (slash_attached hc)
    | complete =>
      obtain ⟨n, hn⟩ := ha
      cases hn
    | check =>
      obtain ⟨n, hn⟩ := ha
      cases hn
  | stmt hslot hf => exact rooted_main_stmt h hslot hf
  | @fault f k q hslot =>
    refine rooted_put_main h (fun g c hl => .inl (h.hasCTA hl fun hcancel => ?_)) ?_
    · have heq : Sql.stmt f k q = cancelling g c := Option.some.inj (hslot.symm.trans hcancel)
      rw [cancelling_eq] at heq
      obtain ⟨-, -, rfl⟩ := Sql.stmt.inj heq
      exact hC.2 g c hcancel hl Pool.slot_put
    · intro p hp
      obtain rfl := Option.some.inj hp
      exact .inl (h.main _ hslot).fault
  | done hslot => exact rooted_main_idle h fun _ _ _ => by simp [hslot]
  | fail hslot => exact rooted_main_idle h fun _ _ _ => by simp [hslot]

end Steps

/-- In every run of careful steps, whenever the main thread is not between the two deletes
of `/cta cancel`, each member listed is listed for a CTA of its guild. -/
theorem roster_has_cta {env : Env} {P : Pool Thread Bot Reply}
    (h : (system env).Under Careful (System.idle Bot.empty) P)
    (hrest : ∀ g ctaID, ¬Cancelling P g ctaID) :
    ∀ v ∈ P.state.db.users.vals,
      ∃ r ∈ P.state.db.cta.vals, r.guildId = v.guildId ∧ r.ctaId = v.ctaId := by
  have hempty : Rooted (System.idle Bot.empty) := by
    refine ⟨?_, ?_, ?_⟩
    · rintro g c ⟨v, hv, -⟩
      cases hv
    · intro p hp
      cases hp
    · intro i p _ hp
      cases hp
  have hrooted : Rooted P := by
    refine h.invariant (J := Rooted) hempty ?_
    intro i P P' hst hC hP
    by_cases hi : i = .main
    · subst hi
      exact rooted_main hP hst hC
    · exact rooted_other hP hi hst hC
  intro v hv
  exact (hrooted.listed v.guildId v.ctaId ⟨v, hv, rfl, rfl⟩).resolve_right (hrest _ _)

/-- A command that runs alone and ends without an exception is a run of careful steps. -/
theorem careful_slash {env : Env} {b t : Bot} {g : ℤ} {c : Command}
    (hok : ((execute env g c).run [] b).1.isOk = true) (ht : ((execute env g c).run [] b).2 = t) :
    (system env).Under Careful (System.idle b) (System.idle t) := by
  obtain ⟨r, hr⟩ : ∃ r, ((execute env g c).run [] b).1 = .ok r := by
    cases hres : ((execute env g c).run [] b).1 with
    | ok r => exact ⟨r, rfl⟩
    | error e =>
      rw [hres] at hok
      cases hok
  have hstart : (system env).start .main b b (execute env g c) := ⟨.slash g c, rfl, rfl⟩
  refine Relation.ReflTransGen.head ⟨.main, .start rfl hstart, fun hne => absurd rfl hne, ?_⟩ ?_
  · intro g' c' hcancel
    cases hcancel
  · have hrun := System.under_run (S := system env) (execute env g c)
      (P := (System.idle b).put b Thread.main (some (execute env g c))) (i := .main) (by simp) hr
    simp only [Pool.put_put, System.put_idle, Pool.state_put, ht] at hrun
    refine hrun.imp ?_
    rintro i P P' - ⟨rfl, hcalm⟩
    exact ⟨fun hne => absurd rfl hne, fun _ _ _ _ => hcalm .sql⟩

theorem roster_has_cta_opening :
    let b := endState (opening ["Bobby"])
    b.db.users.vals.map Member.charName = ["Bobby"] ∧
      ∀ v ∈ b.db.users.vals, ∃ r ∈ b.db.cta.vals, r.guildId = v.guildId ∧ r.ctaId = v.ctaId := by
  refine ⟨by decide +kernel, ?_⟩
  have hstarted := @careful_slash Env.ascii Bot.empty (endState [startCTA]) 1
    (.start "03/01 19:00" "03/01 21:00" "CTA1" ⟨2024, 2024, 1709294400000000000⟩)
    (by decide +kernel) (by decide +kernel)
  have hlisted := @careful_slash Env.ascii (endState [startCTA]) (endState (opening ["Bobby"])) 1
    (.guildUpload (.text (online ["Bobby"]))) (by decide +kernel) (by decide +kernel)
  exact roster_has_cta (hstarted.trans hlisted) fun _ _ hcancel => nomatch hcancel

/-- The roster of a CTA that is cancelled while the file is downloaded. -/
def lateRoster : List Input :=
  [startCTA, does (.guildUpload .file), does .cancel, ⟨.complete 0 (online ["Bobby"]), []⟩]

theorem roster_orphaned : ∃ P, (system Env.ascii).Reaches (System.idle Bot.empty) P ∧
    (∀ i, P.slot i = none) ∧ ∃ v ∈ P.state.db.users.vals,
      ∀ r ∈ P.state.db.cta.vals, ¬(r.guildId = v.guildId ∧ r.ctaId = v.ctaId) :=
  ⟨System.idle (endState lateRoster), run_reaches (run_trace _ _ _), fun _ => rfl,
    by decide +kernel⟩

end AtomComm.GuildBot
