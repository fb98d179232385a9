import AtomComm.Proofs.Absentees
import AtomComm.Proofs.PartyPages

/-! The readings of who has a party. `getAbsentees` and `getParties` ask whether the number is
null and `getPartyMembersNames` compares it, while `playerHasParty` reads it as an int, which
of a null is 0. So they agree until somebody gives a party the number 0. -/

namespace AtomComm.GuildBot

/-- The actions that may give members the number 0. -/
def givesZero : Action → Bool
  | .slash _ (.partyAdd partyNumber _) => partyNumber = 0
  | .slash _ (.partyUpload partyNumber _) => partyNumber = 0
  | _ => false

/-- The machine `system`, where only actions that are allowed are started. -/
def systemOf (env : Env) (allowed : Action → Prop) : System Thread Bot Reply where
  start i b b' p := ∃ a : Action, allowed a ∧ a.thread i ∧ start env a b = some (b', p)

/-- A run without interruptions, all of whose actions are allowed. -/
theorem run_reachesOf {env : Env} {allowed : Action → Prop} {b b' : Bot}
    {es : List (Event Input Bot)} (h : Run (step env) b es b')
    (hes : ∀ e ∈ es, allowed e.input.action) :
    (systemOf env allowed).Reaches (System.idle b) (System.idle b') :=
  run_reaches_of h fun e he _ _ _ _ hi hs => ⟨_, hes e he, hi, hs⟩

/-! ### The number 0 -/

/-- No row has the number 0. -/
def Numbered (t : Table Member) : Prop := ∀ r ∈ t.vals, r.partyNumber ≠ some 0

section Statements
variable {t : Table Member}

theorem Numbered.update (h : Numbered t) (p : Member → Bool) {f : Member → Member}
    (hf : ∀ r, r.partyNumber ≠ some 0 → (f r).partyNumber ≠ some 0) : Numbered (t.update p f) := by
  intro x hx
  rw [Table.vals_update] at hx
  obtain ⟨r, hr, rfl⟩ := List.mem_map.1 hx
  split
  · exact hf r (h r hr)
  · exact h r hr

theorem Numbered.delete (h : Numbered t) (p : Member → Bool) : Numbered (t.delete p) := by
  intro r hr
  rw [Table.vals_delete] at hr
  exact h r (List.mem_filter.1 hr).1

theorem Numbered.insert (h : Numbered t) {v : Member} (hv : v.partyNumber = none) :
    Numbered (t.insert v) := by
  intro r hr
  rw [Table.vals_insert] at hr
  rcases List.mem_append.1 hr with hr | hr
  · exact h r hr
  · rw [List.mem_singleton.1 hr, hv]
    simp

/-- A number is given by the actions that name it. -/
theorem effect_numbered {env : Env} {b t t' : Bot} {a : Action} (he : Effect env b a t t')
    (ha : givesZero a = false) (h : Numbered t.db.users) : Numbered t'.db.users := by
  cases he with
  | @place _ g name n status ctaID _ hp =>
    refine h.update _ fun r _ => ?_
    rintro rfl
    cases hp with
    | add | upload => cases ha
  | remove | clear => exact h.update _ fun r _ => by simp
  | detect | shown | seen | online => exact h.update _ fun r hr => hr
  | cancelUsers | dropUsers => exact h.delete _
  | list => exact h.insert rfl
  | _ => exact h

end Statements

theorem reachable_numbered {env : Env} {P : Pool Thread Bot Reply}
    (h : (systemOf env fun a => givesZero a = false).Reaches (System.idle Bot.empty) P) :
    Numbered P.state.db.users := by
  refine System.reaches_invariant (I := fun b => Numbered b.db.users)
    (fun _ hr => absurd hr List.not_mem_nil) ?_ h
  rintro i b b' p hb ⟨a, ha, -, hst⟩
  obtain ⟨hdb, hk⟩ := start_within hst
  refine ⟨hdb ▸ hb, hk.imp (fun _ _ => trivial) ?_⟩
  exact fun t t' ht he => ⟨effect_numbered he ha ht, trivial⟩

/-! ### The readings -/

/-- What the four queries say about the row. -/
structure ReadingsAgree (env : Env) (db : DB) (r : Member) : Prop where
  hasParty : playerHasParty env db r.charName r.guildId r.ctaId = true ↔ r.partyNumber ≠ none
  listed : r.partyNumber ≠ none ↔ ∃ n, r.partyNumber = some n ∧
    n ∈ getParties db r.ctaId r.guildId ∧
      r.charName ∈ getPartyMembersNames db r.ctaId r.guildId n
  onlyThere : ∀ n, r.charName ∈ getPartyMembersNames db r.ctaId r.guildId n →
    r.partyNumber = some n
  absent : r.charName ∈ getAbsentees db r.guildId r.ctaId →
    playerHasParty env db r.charName r.guildId r.ctaId = false

section Rows
variable {env : Env} {db : DB} {r : Member}

theorem mem_getPartyMembersNames {g : ℤ} {c name : String} {n : ℤ} :
    name ∈ getPartyMembersNames db c g n ↔ ∃ r ∈ db.users.vals,
      r.inCTA g c = true ∧ r.partyNumber = some n ∧ r.charName = name := by
  simp [getPartyMembersNames, Table.select, and_assoc]

theorem inCTA_self (r : Member) : r.inCTA r.guildId r.ctaId = true := by
  simp [Member.inCTA]

/-- The look-up finds the row, or none when its name is lowered to something else. -/
theorem playerHasParty_iff (henv : LowersAscii env) (h : DistinctNames db r.guildId r.ctaId)
    (hr : r ∈ db.users.vals) : playerHasParty env db r.charName r.guildId r.ctaId = true ↔
      env.toLowerCase r.charName = LOWER r.charName ∧ r.partyNumber ≠ none ∧
        r.partyNumber ≠ some 0 := by
  have hcta := inCTA_self r
  unfold playerHasParty
  split
  · rename_i r' hfirst
    obtain ⟨hr', hp⟩ := Table.first_mem hfirst
    simp only [Bool.and_eq_true, decide_eq_true_eq] at hp
    have hascii : IsAscii (env.toLowerCase r.charName) :=
      hp.1 ▸ (lower_ascii (h.ascii r' hr' hp.2)).1
    have hlower := henv r.charName (h.ascii r hr hcta) hascii
    rw [h.eq hr' hr hp.2 hcta (hp.1.trans hlower), and_iff_right hlower]
    cases r.partyNumber <;> simp
  · rename_i hnone
    refine iff_of_false (by simp) fun hfound => ?_
    have hno := Table.first_none.1 hnone r hr
    simp [hfound.1, hcta] at hno

/-- The number of a row is where the row is listed, and nowhere else. -/
theorem listed_iff (h : DistinctNames db r.guildId r.ctaId) (hr : r ∈ db.users.vals) {n : ℤ} :
    r.charName ∈ getPartyMembersNames db r.ctaId r.guildId n ↔ r.partyNumber = some n := by
  have hcta := inCTA_self r
  rw [mem_getPartyMembersNames]
  constructor
  · rintro ⟨r', hr', hcta', hn, hname⟩
    rwa [← h.eq hr' hr hcta' hcta (by rw [hname])]
  · intro hn
    exact ⟨r, hr, hcta, hn, rfl⟩

theorem readingsAgree_iff (henv : LowersAscii env) (h : DistinctNames db r.guildId r.ctaId)
    (hr : r ∈ db.users.vals) : ReadingsAgree env db r ↔
      (r.partyNumber ≠ none →
        r.partyNumber ≠ some 0 ∧ env.toLowerCase r.charName = LOWER r.charName) := by
  have hparty := playerHasParty_iff henv h hr
  constructor
  · intro hagree hn
    obtain ⟨hlower, -, hzero⟩ := hparty.1 (hagree.hasParty.2 hn)
    exact ⟨hzero, hlower⟩
  · intro hcond
    refine ⟨⟨fun ht => (hparty.1 ht).2.1, fun hn => ?_⟩, ⟨fun hn => ?_, ?_⟩,
      fun n hn => (listed_iff h hr).1 hn, noParty_of_absentee henv h⟩
    · exact hparty.2 ⟨(hcond hn).2, hn, (hcond hn).1⟩
    · obtain ⟨n, hn⟩ := Option.ne_none_iff_exists'.1 hn
      exact ⟨n, hn, mem_getParties.2 ⟨r, hr, inCTA_self r, hn⟩, (listed_iff h hr).2 hn⟩
    · rintro ⟨n, hn, -⟩
      simp [hn]

end Rows

/-- In every state that is reached while nobody gives the number 0, in a locale that folds
ASCII, the readings agree on every row if the names are distinct; and in any state with
distinct names they agree on the rows that have another number, or none, and no others. -/
theorem party_readings_agree {env : Env} :
    (∀ P, env.FoldsAscii →
      (systemOf env fun a => givesZero a = false).Reaches (System.idle Bot.empty) P →
      (∀ g c, DistinctNames P.state.db g c) →
      ∀ r ∈ P.state.db.users.vals, ReadingsAgree env P.state.db r) ∧
    ∀ db, LowersAscii env → (∀ g c, DistinctNames db g c) → ∀ r ∈ db.users.vals,
      (ReadingsAgree env db r ↔ (r.partyNumber ≠ none →
        r.partyNumber ≠ some 0 ∧ env.toLowerCase r.charName = LOWER r.charName)) := by
  refine ⟨fun P hfold h hdistinct r hr => ?_,
    fun db henv hdistinct r hr => readingsAgree_iff henv (hdistinct _ _) hr⟩
  have hlower : env.toLowerCase r.charName = LOWER r.charName :=
    hfold _ ((hdistinct _ _).ascii r hr (inCTA_self r))
  have henv : LowersAscii env := fun s hs _ => hfold s hs
  exact (readingsAgree_iff henv (hdistinct _ _) hr).2
    fun _ => ⟨reachable_numbered h r hr, hlower⟩

theorem distinctNames_of_all {db : DB} (hascii : ∀ r ∈ db.users.vals, IsAscii r.charName)
    (hunique : ∀ q ∈ db.users.rows, ∀ q' ∈ db.users.rows,
      LOWER q.val.charName = LOWER q'.val.charName → q = q') (g : ℤ) (c : String) :
    DistinctNames db g c :=
  ⟨fun r hr _ => hascii r hr, fun q hq q' hq' _ _ => hunique q hq q' hq'⟩

/-- Bobby is in the party 2, and Evelyn in none. -/
def numberedParty : List Input := opening ["Bobby", "Evelyn"] ++ [does (.partyAdd 2 "bobby")]

theorem party_readings_agree_two :
    (∀ r ∈ (endState numberedParty).db.users.vals,
      ReadingsAgree Env.ascii (endState numberedParty).db r) ∧
      (endState numberedParty).db.users.vals.map Member.partyNumber = [some 2, none] := by
  have hrun : Run (step Env.ascii) Bot.empty (trace (step Env.ascii) Bot.empty numberedParty)
      (endState numberedParty) := run_trace _ _ _
  have hallowed : ∀ e ∈ trace (step Env.ascii) Bot.empty numberedParty,
      givesZero e.input.action = false := by
    decide +kernel
  exact ⟨party_readings_agree.1 _ (fun _ _ => rfl) (run_reachesOf hrun hallowed)
    (distinctNames_of_all (by decide +kernel) (by decide +kernel)), by decide +kernel⟩

/-- Bobby is in the party 0. -/
def zeroParty : List Input := opening ["Bobby"] ++ [does (.partyAdd 0 "Bobby")]

theorem party_zero_unread :
    (system Env.ascii).Reaches (System.idle Bot.empty) (System.idle (endState zeroParty)) ∧
      (∀ g c, DistinctNames (endState zeroParty).db g c) ∧
      ∃ r ∈ (endState zeroParty).db.users.vals, r.partyNumber = some 0 ∧
        playerHasParty Env.ascii (endState zeroParty).db r.charName r.guildId r.ctaId = false ∧
        getParties (endState zeroParty).db r.ctaId r.guildId = [0] ∧
        getPartyMembersNames (endState zeroParty).db r.ctaId r.guildId 0 = [r.charName] ∧
        ¬ReadingsAgree Env.ascii (endState zeroParty).db r := by
  have hrun : Run (step Env.ascii) Bot.empty (trace (step Env.ascii) Bot.empty zeroParty)
      (endState zeroParty) := run_trace _ _ _
  have hdistinct : ∀ g c, DistinctNames (endState zeroParty).db g c :=
    distinctNames_of_all (by decide +kernel) (by decide +kernel)
  have hrow : ∃ r ∈ (endState zeroParty).db.users.vals, r.partyNumber = some 0 ∧
      playerHasParty Env.ascii (endState zeroParty).db r.charName r.guildId r.ctaId = false ∧
      getParties (endState zeroParty).db r.ctaId r.guildId = [0] ∧
      getPartyMembersNames (endState zeroParty).db r.ctaId r.guildId 0 = [r.charName] := by
    decide +kernel
  obtain ⟨r, hr, hzero, hno, hparties, hnames⟩ := hrow
  refine ⟨run_reaches hrun, hdistinct, r, hr, hzero, hno, hparties, hnames, fun hagree => ?_⟩
  have htrue := hagree.hasParty.2 (by simp [hzero])
  rw [hno] at htrue
  cases htrue

end AtomComm.GuildBot
