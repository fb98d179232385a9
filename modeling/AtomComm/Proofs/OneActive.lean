import AtomComm.Sanity.Statements

/-! Each guild has at most one active CTA. `/cta start` reads that its guild has none and
inserts one later; what the checker and the completions of downloads do in between only
ends CTAs. -/

namespace AtomComm.GuildBot

/-- The invariant: among the active rows no two are of one guild. -/
def OneActive (b : Bot) : Prop :=
  b.db.cta.UniqueOn (fun r => r.status = .active) Cta.guildId

def NoActive (g : ℤ) (t : Table Cta) : Prop := ∀ r ∈ t.vals, r.guildId = g → r.status ≠ .active

section Statements
variable {t t' : Table Cta} {g : ℤ}

theorem noActive_of_getCTAID {db : DB} (h : getCTAID db g = none) : NoActive g db.cta := by
  intro r hr hg hact
  unfold getCTAID at h
  rw [Option.map_eq_none_iff, Table.first_none] at h
  have hno := h r hr
  simp [hg, hact] at hno

theorem NoActive.onlyEnds (h : NoActive g t) (ht : OnlyEnds t t') : NoActive g t' := by
  intro v hv hg hact
  obtain ⟨r', hr', rfl⟩ := Table.mem_vals.1 hv
  obtain ⟨r, hr, -, he⟩ := ht.mem hr'
  exact h r.val (Table.val_mem hr) (he.1.symm.trans hg) (he.2 hact)

theorem unique_onlyEnds (h : t.UniqueOn (fun r => r.status = .active) Cta.guildId)
    (ht : OnlyEnds t t') : t'.UniqueOn (fun r => r.status = .active) Cta.guildId := by
  intro x hx y hy hxa hya hg
  obtain ⟨r, hr, hid, he⟩ := ht.mem hx
  obtain ⟨q, hq, hid', he'⟩ := ht.mem hy
  have hguild : r.val.guildId = q.val.guildId := he.1.symm.trans (hg.trans he'.1)
  have hrow : r = q := h r hr q hq (he.2 hxa) (he'.2 hya) hguild
  apply Table.id_inj hx hy
  rw [← hid, ← hid', hrow]

/-- A row for a guild without an active one. -/
theorem unique_insert (h : t.UniqueOn (fun r => r.status = .active) Cta.guildId) {x : Cta}
    (hx : NoActive x.guildId t) :
    (t.insert x).UniqueOn (fun r => r.status = .active) Cta.guildId := by
  apply Table.uniqueOn_insert h
  intro _ w hw hact hg
  exact hx w hw hg hact

end Statements

/-! ### Between the statements of `/cta start` -/

/-- What a command may rely on, and what every thread guarantees. -/
def quiet : Thread → Bot → Bot → Prop
  | .main => fun s t => OnlyEnds s.db.cta t.db.cta
  | _ => fun _ _ => True

def ending (i : Thread) (s t : Bot) : Prop :=
  Table.Evolves Ends s.db.cta t.db.cta ∧ (i ≠ .main → OnlyEnds s.db.cta t.db.cta)

theorem ending_of_onlyEnds {i : Thread} {s t : Bot} (h : OnlyEnds s.db.cta t.db.cta) :
    ending i s t := ⟨h.1, fun _ => h⟩

theorem ending_refl (i : Thread) (s : Bot) : ending i s s := ending_of_onlyEnds (OnlyEnds.refl _)

abbrev Safe (i : Thread) (p : Cmd Reply) (s : Bot) : Prop :=
  p.Ok ⟨OneActive, quiet i, ending i⟩ (fun _ _ => True) (fun _ _ => True) s

/-- The insert comes after others have run, and still finds the guild without an active CTA. -/
theorem createCTA_ok {g s e : ℤ} {id : String} {r : Reply} {b : Bot} (hb : OneActive b)
    (hnone : NoActive g b.db.cta) :
    Safe .main (write (createCTA id g s e) >>= fun _ => pure r) b := by
  refine Sql.ok_bind.2 (Sql.ok_exec (fun t ht => ?_) fun _ _ => trivial)
  have hstill : NoActive g t.db.cta :=
    ht.stable (A := fun s => NoActive g s.db.cta) (fun _ _ hq _ hA => hA.onlyEnds hq) hnone
  have hinv : OneActive t := ht.inv hb
  refine ⟨unique_insert hinv hstill, ⟨?_, fun h => absurd rfl h⟩, fun _ _ _ _ => trivial⟩
  exact Table.evolves_insert Ends.refl _ _

theorem start_ok {g : ℤ} {startTime endTime id : String} {clock : Clock} {b : Bot}
    (hb : OneActive b) : Safe .main (startCommand g startTime endTime id clock) b := by
  unfold startCommand
  refine Sql.ok_query_bind hb (ending_refl _) (fun t _ ht => ?_) fun _ _ => trivial
  split
  · split
    · exact fun _ _ => trivial
    · rename_i hnone
      split
      · exact fun _ _ => trivial
      · split
        · split
          · exact fun _ _ => trivial
          · exact createCTA_ok ht (noActive_of_getCTAID hnone)
        · exact fun _ _ => trivial
  · exact fun _ _ => trivial

theorem disciplined (env : Env) : (system env).Disciplined OneActive quiet ending where
  start := by
    rintro i b b' p hI ⟨a, ha, hst⟩
    by_cases hstart : ∃ g startTime endTime id clock, a = .slash g (.start startTime endTime id clock)
    · obtain ⟨g, startTime, endTime, id, clock, rfl⟩ := hstart
      cases hst
      obtain rfl : i = .main := ha
      exact ⟨hI, ending_refl _ _, start_ok hI⟩
    · obtain ⟨hdb, hk⟩ := start_within hst
      have hends : ∀ s t, Effect env b a s t → OnlyEnds s.db.cta t.db.cta := by
        intro s t he
        rcases effect_ctas he with h | ⟨g, s, e, id, clock, _, _, ha, -⟩
        · exact h
        · exact absurd ⟨g, s, e, id, clock, ha⟩ hstart
      have hsame : OnlyEnds b.db.cta b'.db.cta := by
        rw [hdb]
        exact OnlyEnds.refl _
      have hI' : OneActive b' := unique_onlyEnds hI hsame
      refine ⟨hI', ending_of_onlyEnds hsame, Sql.Within.ok (hk.imp (fun _ _ => trivial) ?_) hI'⟩
      intro s t hs he
      exact ⟨unique_onlyEnds hs (hends s t he), ending_of_onlyEnds (hends s t he)⟩
  compat := by
    intro i j hij s t hst
    cases i with
    | main => exact hst.2 fun h => hij h.symm
    | upload => trivial
    | scheduler => trivial
  refl := ending_refl

/-- In every state that commands, checkers and completions reach, their statements in any
order, a guild has at most one active CTA, and a CTA that has finished stays so. -/
theorem one_active_cta {env : Env} {P P' : Pool Thread Bot Reply}
    (h : (system env).Reaches (System.idle Bot.empty) P) (h' : (system env).Reaches P P') :
    P.state.db.cta.UniqueOn (fun r => r.status = .active) Cta.guildId ∧
      ∀ r ∈ P.state.db.cta.rows, ∀ r' ∈ P'.state.db.cta.rows, r'.id = r.id →
        r.val.status = .finished → r'.val.status ≠ .active := by
  have hempty : OneActive Bot.empty := Table.uniqueOn_empty
  have hgood := System.good_reaches (disciplined env) (System.good_idle hempty) h
  refine ⟨hgood.inv, fun r hr r' hr' hid hfin hact => ?_⟩
  have hevolves : Table.Evolves Ends P.state.db.cta P'.state.db.cta :=
    System.rel_reaches (disciplined env) (T := fun s t => Table.Evolves Ends s.db.cta t.db.cta)
      (fun _ => Table.Evolves.refl Ends.refl _) (fun _ _ _ => Table.Evolves.trans Ends.trans)
      (fun _ _ _ hG => hG.1) hgood h'
  have hstill : r.val.status = .active := (hevolves.row hr hr' hid).2 hact
  rw [hfin] at hstill
  cases hstill

/-- A CTA whose end the checker finds past, and the next one. -/
def finishedCTA : List Input :=
  [startCTA, ⟨.check (fun _ => 1709330000000000000) [some 1], []⟩]

def nextCTA : Input :=
  does (.start "03/02 19:00" "03/02 21:00" "CTA2" ⟨2024, 2024, 1709330000000000000⟩)

theorem one_active_cta_next :
    let b := endState finishedCTA
    let b' := final b (trace (step Env.ascii) b [nextCTA])
    b.db.cta.UniqueOn (fun r => r.status = .active) Cta.guildId ∧
      ∀ r ∈ b.db.cta.rows, ∀ r' ∈ b'.db.cta.rows, r'.id = r.id →
        r.val.status = .finished → r'.val.status ≠ .active :=
  one_active_cta (run_reaches (run_trace _ _ _)) (run_reaches (run_trace _ _ [nextCTA]))

end AtomComm.GuildBot
