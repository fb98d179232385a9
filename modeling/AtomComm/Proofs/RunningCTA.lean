import AtomComm.Proofs.Readings
import AtomComm.Sanity.Keyed

/-! A CTA ends when it should and not before. The checker and `/cta delete` end CTAs by their id
alone, and the checker looks the end up some statements before it writes; still, in whatever order
statements fall, an active CTA stays the one active CTA of its guild, with the times it was
started with, until a checker's clock is past its end or its own guild ends it. -/

namespace AtomComm.GuildBot

/-- The CTA is the active one of its guild, with these times, and no other bears its id. -/
structure Running (g : ℤ) (c : String) (startTime endTime : ℤ) (b : Bot) : Prop where
  active : getCTAID b.db g = some c
  row : ∀ r ∈ b.db.cta.vals, r.ctaId = c →
    r.guildId = g ∧ r.status = .active ∧ r.startTime = startTime ∧ r.endTime = endTime
  only : ∀ r ∈ b.db.cta.vals, r.guildId = g → r.status = .active → r.ctaId = c

/-- The actions that let the CTA run: checkers up to its end, what its guild does but for
`/cta cancel` and `/cta delete`, and what others do, who do not draw its id. -/
def spares (g : ℤ) (c : String) (endTime : ℤ) : Action → Prop
  | .slash h cmd => if h = g then endsCTA cmd = false else drawnId cmd ≠ some c
  | .complete .. => True
  | .check clock _ => ∀ i, clock i ≤ endTime

section Statements
variable {g h s e : ℤ} {c c' : String} {t : Bot} {u : Table Cta}

theorem Running.listed (ht : Running g c s e t) : ∃ r ∈ t.db.cta.vals, r.ctaId = c := by
  obtain ⟨r, hr, hid⟩ := Option.map_eq_some_iff.1 ht.active
  exact ⟨r, (Table.first_mem hr).1, hid⟩

/-- It is enough that some row has the id. -/
theorem running_of_listed (hlisted : ∃ r ∈ t.db.cta.vals, r.ctaId = c)
    (hrow : ∀ r ∈ t.db.cta.vals, r.ctaId = c →
      r.guildId = g ∧ r.status = .active ∧ r.startTime = s ∧ r.endTime = e)
    (honly : ∀ r ∈ t.db.cta.vals, r.guildId = g → r.status = .active → r.ctaId = c) :
    Running g c s e t := by
  refine ⟨?_, hrow, honly⟩
  obtain ⟨r, hr, hid⟩ := hlisted
  cases hc : getCTAID t.db g with
  | none =>
    unfold getCTAID at hc
    rw [Option.map_eq_none_iff, Table.first_none] at hc
    have hno := hc r hr
    simp [(hrow r hr hid).1, (hrow r hr hid).2.1] at hno
  | some c' =>
    obtain ⟨x, hx, rfl⟩ := Option.map_eq_some_iff.1 hc
    obtain ⟨hm, hp⟩ := Table.first_mem hx
    simp only [Bool.and_eq_true, decide_eq_true_eq] at hp
    rw [honly x hm hp.1 hp.2]

/-- What the checker finds. -/
theorem Running.end_time (ht : Running g c s e t) : getCTAEndTime t.db c none = some e := by
  obtain ⟨r, hr, hid⟩ := ht.listed
  cases hfirst : t.db.cta.first fun r => decide (r.ctaId = c) with
  | none =>
    rw [Table.first_none] at hfirst
    have hno := hfirst r hr
    simp [hid] at hno
  | some x =>
    obtain ⟨hm, hp⟩ := Table.first_mem hfirst
    simp only [getCTAEndTime, hfirst, Option.map_some, (ht.row x hm (of_decide_eq_true hp)).2.2.2]

/-- An update of CTAs that makes none active and leaves the times of this one. -/
theorem Running.updateCTA (ht : Running g c s e t) {p : Cta → Bool} {f : Cta → Cta}
    (hid : ∀ r, (f r).ctaId = r.ctaId ∧ (f r).guildId = r.guildId)
    (hactive : ∀ r, (f r).status = .active → r.status = .active)
    (hf : ∀ r, p r = true → r.ctaId = c →
      (f r).status = r.status ∧ (f r).startTime = r.startTime ∧ (f r).endTime = r.endTime) :
    Running g c s e { t with db := { t.db with cta := t.db.cta.update p f } } := by
  obtain ⟨x, hx, hxid⟩ := ht.listed
  refine running_of_listed ?_ (fun r hr hrid => ?_) fun r hr hg hact => ?_
  · refine ⟨if p x then f x else x, ?_, ?_⟩
    · rw [Table.vals_update]
      exact List.mem_map.2 ⟨x, hx, rfl⟩
    · split
      · exact (hid x).1.trans hxid
      · exact hxid
  · rw [Table.vals_update] at hr
    obtain ⟨y, hy, rfl⟩ := List.mem_map.1 hr
    split at hrid
    · rename_i hp
      have hyid : y.ctaId = c := (hid y).1.symm.trans hrid
      obtain ⟨hstatus, hstart, hend⟩ := hf y hp hyid
      rw [if_pos hp, (hid y).2, hstatus, hstart, hend]
      exact ht.row y hy hyid
    · rename_i hp
      rw [if_neg hp]
      exact ht.row y hy hrid
  · rw [Table.vals_update] at hr
    obtain ⟨y, hy, rfl⟩ := List.mem_map.1 hr
    split at hg
    · rename_i hp
      rw [if_pos hp] at hact ⊢
      rw [(hid y).1]
      exact ht.only y hy ((hid y).2.symm.trans hg) (hactive y hact)
    · rename_i hp
      rw [if_neg hp] at hact ⊢
      exact ht.only y hy hg hact

/-- Another CTA is ended, by its id alone. -/
theorem Running.finish (ht : Running g c s e t) (hc : c' ≠ c) :
    Running g c s e { t with db := updateCTAStatus c' .finished t.db } := by
  refine ht.updateCTA (fun _ => ⟨rfl, rfl⟩) (fun _ h => nomatch h) fun r hr hid => ?_
  exact absurd ((of_decide_eq_true hr).symm.trans hid) hc

/-- The updates of any guild, if they end other CTAs and draw other ids, and that not in `g`. -/
theorem Keyed.running {K : String → Prop} {f : DB → DB}
    (hf : Keyed (Running g c s e) K (fun c' => c' ≠ c) (fun id => h ≠ g ∧ id ≠ c) h f)
    (ht : Running g c s e t) : Running g c s e { t with db := f t.db } := by
  cases hf with
  | @create id startTime endTime hid =>
    obtain ⟨x, hx, hxid⟩ := ht.listed
    have hmem : ∀ r ∈ (createCTA id h startTime endTime t.db).cta.vals, r ∈ t.db.cta.vals ∨
        r.ctaId = id ∧ r.guildId = h := by
      intro r hr
      simp only [createCTA, Table.vals_insert, List.mem_append, List.mem_singleton] at hr
      exact hr.imp_right (by rintro rfl; exact ⟨rfl, rfl⟩)
    refine running_of_listed ⟨x, ?_, hxid⟩ (fun r hr hrid => ?_) fun r hr hg hact => ?_
    · simp only [createCTA, Table.vals_insert, List.mem_append]
      exact .inl hx
    · rcases hmem r hr with hr | ⟨hnew, -⟩
      · exact ht.row r hr hrid
      · exact absurd (hnew.symm.trans hrid) hid.2
    · rcases hmem r hr with hr | ⟨-, hnew⟩
      · exact ht.only r hr hg hact
      · exact absurd (hnew.symm.trans hg) hid.1
  | deleteCTA hc =>
    obtain ⟨x, hx, hxid⟩ := ht.listed
    refine running_of_listed ⟨x, ?_, hxid⟩ (fun r hr => ?_) fun r hr => ?_
    · simp only [deleteFromCTA, Table.vals_delete, List.mem_filter]
      exact ⟨hx, by simp [hxid, hc.symm]⟩
    · rw [deleteFromCTA, Table.vals_delete] at hr
      exact ht.row r (List.mem_filter.1 hr).1
    · rw [deleteFromCTA, Table.vals_delete] at hr
      exact ht.only r (List.mem_filter.1 hr).1
  | finish hc => exact ht.finish hc
  | finishTime hc =>
    refine ht.updateCTA (fun _ => ⟨rfl, rfl⟩) (fun _ => id) fun r hr hid => ?_
    exact absurd ((of_decide_eq_true (Bool.and_eq_true_iff.1 hr).1).symm.trans hid) hc
  | stats | report =>
    exact ht.updateCTA (fun _ => ⟨rfl, rfl⟩) (fun _ => id) fun _ _ _ => ⟨rfl, rfl, rfl⟩
  | deleteUsers | insertUser | updateUsers | words => exact ⟨ht.active, ht.row, ht.only⟩

end Statements

section Programs
variable {env : Env} {g h s e : ℤ} {c : String} {t t' : Bot} {a : Action} {p : Cmd Reply}

/-- Another guild's active CTA is another CTA. -/
theorem running_key {c' : String} (ht : Running g c s e t) (hc : getCTAID t.db h = some c') :
    h ≠ g → c' ≠ c := by
  rintro hne rfl
  obtain ⟨r, hr, hid⟩ := Option.map_eq_some_iff.1 hc
  obtain ⟨hm, hp⟩ := Table.first_mem hr
  exact hne ((of_decide_eq_true (Bool.and_eq_true_iff.1 hp).1).symm.trans (ht.row r hm hid).1)

theorem allows_running {K : String → Prop}
    (hK : ∀ t, Running g c s e t → ∀ c', getCTAID t.db h = some c' → K c') :
    Allows (Running g c s e) (fun _ _ => True) K (fun c' => c' ≠ c) (fun id => h ≠ g ∧ id ≠ c) h :=
  ⟨hK, fun _ => trivial, fun _ hf _ ht => ⟨hf.running ht, trivial⟩⟩

theorem running_read {α β : Type} {q : DB → α} {k : α → Cmd β}
    (hk : ∀ t, Running g c s e t → (k (q t.db)).Within (Running g c s e) fun _ _ => True) :
    (read q >>= k).Within (Running g c s e) fun _ _ => True :=
  Sql.within_query_bind (fun _ => trivial) hk

/-- While it runs, its guild starts no other. -/
theorem running_start {startTime endTime id : String} {clock : Clock} :
    (startCommand g startTime endTime id clock).Within (Running g c s e) fun _ _ => True := by
  refine running_read fun t ht => ?_
  rw [ht.active]
  split <;> trivial

theorem running_execute {cmd : Command} (ha : spares g c e (.slash h cmd)) :
    (execute env h cmd).Within (Running g c s e) fun _ _ => True := by
  by_cases hstart : h = g ∧ ∃ id, drawnId cmd = some id
  · obtain ⟨rfl, id, hid⟩ := hstart
    unfold drawnId at hid
    split at hid
    · exact running_start
    · cases hid
  · refine allows_execute (allows_running fun t ht c' hc => running_key ht hc) cmd ?_ ?_ ?_
    · intro id hid
      have hne : h ≠ g := fun heq => hstart ⟨heq, id, hid⟩
      rw [spares, if_neg hne, hid] at ha
      exact ⟨hne, fun heq => ha (congrArg some heq)⟩
    · intro hends c' hc
      by_cases heq : h = g
      · rw [spares, if_pos heq, hends] at ha
        cases ha
      · exact hc heq
    · exact fun _ _ _ _ t ht => ⟨⟨ht.active, ht.row, ht.only⟩, trivial⟩

/-- The checker finds its end not yet past, wherever it stands in its list. -/
theorem running_checkEach {clock : ℕ → ℤ} {channels : List (Option ℤ)} (hclock : ∀ i, clock i ≤ e)
    (i : ℕ) (ids : List String) :
    (checkEach clock channels i ids).Within (Running g c s e) fun _ _ => True := by
  induction ids generalizing i with
  | nil => trivial
  | cons c' ids ih =>
    refine running_read fun t ht => ?_
    cases hend : getCTAEndTime t.db c' none with
    | none => trivial
    | some endTime =>
      refine Sql.within_ite (fun hpast => ?_) fun _ => ih _
      have hother : c' ≠ c := by
        rintro rfl
        rw [ht.end_time] at hend
        cases hend
        exact absurd hpast (not_lt.2 (hclock i))
      refine Sql.within_bind (within_write fun t ht => ⟨ht.finish hother, trivial⟩) fun _ => ?_
      exact Sql.within_ite (fun _ => trivial) fun _ => Sql.within_bind (ih _) fun _ => trivial

theorem running_action (ht : Running g c s e t) (ha : spares g c e a)
    (hst : start env a t = some (t', p)) :
    Running g c s e t' ∧ p.Within (Running g c s e) fun _ _ => True := by
  cases a with
  | slash h cmd =>
    cases hst
    exact ⟨ht, running_execute ha⟩
  | complete j roster =>
    obtain ⟨u, hu, hq⟩ := Option.map_eq_some_iff.1 hst
    cases hq
    refine ⟨⟨ht.active, ht.row, ht.only⟩, ?_⟩
    have hallows := allows_running (g := g) (c := c) (s := s) (e := e) (h := u.guildID)
      (K := fun _ => True) fun _ _ _ _ => trivial
    exact allows_complete hallows rfl fun _ _ => trivial
  | check clock channels =>
    cases hst
    refine ⟨ht, running_read fun _ _ => ?_⟩
    exact Sql.within_bind (running_checkEach ha 0 _) fun _ => trivial

end Programs

/-- In whatever order the statements of all guilds' commands, the checkers and the downloads fall,
and whichever fail, a CTA that is active stays so, with its times and as the only one of its
guild, as long as the actions let it run. -/
theorem running_cta_kept {env : Env} {g startTime endTime : ℤ} {c : String} {b : Bot}
    {P : Pool Thread Bot Reply} (hb : Running g c startTime endTime b)
    (h : (systemOf env (spares g c endTime)).Reaches (System.idle b) P) :
    Running g c startTime endTime P.state := by
  refine System.reaches_invariant hb ?_ h
  rintro i s s' p hs ⟨a, ha, -, hst⟩
  exact running_action hs ha hst

/-- Another guild has a CTA of its own and ends it, and a checker looks at the very end. -/
def meanwhile : List Input :=
  [does (.partyAdd 1 "Bobby"),
    ⟨.slash 2 (.start "03/01 19:00" "03/01 20:00" "CTA2" ⟨2024, 2024, 1709294400000000000⟩), []⟩,
    ⟨.slash 2 (.delete 1709320000000000000), []⟩,
    ⟨.check (fun _ => 1709326800000000000) [some 1, none], []⟩]

theorem running_cta_kept_meanwhile :
    Running 1 "CTA1" 1709319600000000000 1709326800000000000
      (final (endState (opening ["Bobby"]))
        (trace (step Env.ascii) (endState (opening ["Bobby"])) meanwhile)) := by
  have hrunning : Running 1 "CTA1" 1709319600000000000 1709326800000000000
      (endState (opening ["Bobby"])) :=
    ⟨by decide +kernel, by decide +kernel, by decide +kernel⟩
  have hspares : ∀ a ∈ meanwhile, spares 1 "CTA1" 1709326800000000000 a.action := by
    simp [meanwhile, does, spares, endsCTA, drawnId]
  have hrun := run_trace (step Env.ascii) (endState (opening ["Bobby"])) meanwhile
  exact running_cta_kept hrunning
    (run_reachesOf hrun fun e he => hspares e.input (input_mem_of_trace he))

end AtomComm.GuildBot
