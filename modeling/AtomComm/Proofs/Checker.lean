import AtomComm.Sanity.Statements

/-! The checker next to the other threads. It reads the ids of the active CTAs, and then looks
up the end of each one in a statement of its own, with whatever the other threads did in
between. Nothing but the two statements of `/cta delete` moves the end of a CTA, and these end
it first; so the rows that were past when their turn came have finished when the checker
returns, unless a look-up finds no CTA, or a guild no channel, and the exception ends it. -/

namespace AtomComm.GuildBot

/-! ### Rows -/

/-- A CTA that is active was so before, under the same id and with the same end. -/
structure Lasts (x y : Cta) : Prop where
  ctaId : y.ctaId = x.ctaId
  active : y.status = .active → x.status = .active ∧ y.endTime = x.endTime

theorem Lasts.refl (x : Cta) : Lasts x x := ⟨rfl, fun h => ⟨h, rfl⟩⟩

theorem Lasts.trans (x y z : Cta) (h : Lasts x y) (h' : Lasts y z) : Lasts x z := by
  refine ⟨h'.ctaId.trans h.ctaId, fun hz => ?_⟩
  obtain ⟨hy, he'⟩ := h'.active hz
  obtain ⟨hx, he⟩ := h.active hy
  exact ⟨hx, he'.trans he⟩

def Over (c : String) (t : Table Cta) : Prop := ∀ r ∈ t.vals, r.ctaId = c → r.status ≠ .active

section Rows
variable {t t' : Table Cta} {db : DB} {c : String} {g now : ℤ}

theorem over_finished : Over c (updateCTAStatus c .finished db).cta := by
  intro r hr hc hact
  simp only [updateCTAStatus, Table.vals_update] at hr
  obtain ⟨q, -, rfl⟩ := List.mem_map.1 hr
  by_cases hq : q.ctaId = c
  · simp [hq] at hact
  · simp [hq] at hc

theorem lasts_finished (db : DB) (c : String) :
    Table.Evolves Lasts db.cta (updateCTAStatus c .finished db).cta := by
  simp only [updateCTAStatus]
  apply Table.evolves_update Lasts.refl
  intro r _ _
  refine ⟨rfl, fun hact => ?_⟩
  cases hact

/-- The second statement of `/cta delete` finds no active CTA of that id. -/
theorem lasts_finishTime (h : Over c db.cta) :
    Table.Evolves Lasts db.cta (updateCTAFinishTime c g now db).cta := by
  simp only [updateCTAFinishTime]
  apply Table.evolves_update Lasts.refl
  intro r hr hc
  refine ⟨rfl, fun hact => ?_⟩
  have hid : r.ctaId = c := of_decide_eq_true (Bool.and_eq_true_iff.1 hc).1
  exact absurd hact (h r hr hid)

theorem Over.lasts (h : Over c t) (ht : Table.Evolves Lasts t t') (hseq : t'.seq = t.seq) :
    Over c t' := by
  intro v hv hc hact
  obtain ⟨r', hr', rfl⟩ := Table.mem_vals.1 hv
  obtain ⟨r, hr, -, hl⟩ := ht.rows r' hr' (hseq ▸ t'.bounded r' hr')
  exact h r.val (Table.val_mem hr) (hl.ctaId.symm.trans hc) (hl.active hact).1

end Rows

/-! ### What the threads do to the rows -/

/-- What a command may rely on, and what every thread guarantees. -/
def still : Thread → Bot → Bot → Prop
  | .main => fun s t => Table.Evolves Lasts s.db.cta t.db.cta ∧ t.db.cta.seq = s.db.cta.seq
  | _ => fun _ _ => True

def lasting (i : Thread) (s t : Bot) : Prop :=
  Table.Evolves Lasts s.db.cta t.db.cta ∧ (i ≠ .main → t.db.cta.seq = s.db.cta.seq)

theorem lasting_refl (i : Thread) (s : Bot) : lasting i s s :=
  ⟨Table.Evolves.refl Lasts.refl _, fun _ => rfl⟩

theorem lasting_of_eq {i : Thread} {s t : Bot} (h : t.db.cta = s.db.cta) : lasting i s t := by
  refine ⟨?_, fun _ => congrArg Table.seq h⟩
  rw [h]
  exact Table.Evolves.refl Lasts.refl _

section Threads
variable {env : Env} {b s t : Bot} {a : Action}

theorem effect_lasts (he : Effect env b a s t) (hdelete : ∀ g now, a ≠ .slash g (.delete now)) :
    Table.Evolves Lasts s.db.cta t.db.cta := by
  cases he with
  | create =>
    simp only [createCTA]
    exact Table.evolves_insert Lasts.refl _ _
  | cancel =>
    simp only [deleteFromCTA]
    exact Table.evolves_delete Lasts.refl _ _
  | delete => exact absurd rfl (hdelete _ _)
  | deleteTime => exact absurd rfl (hdelete _ _)
  | check => exact lasts_finished _ _
  | info =>
    simp only [updateCTAStats]
    exact Table.evolves_update Lasts.refl _ fun _ _ _ => ⟨rfl, fun h => ⟨h, rfl⟩⟩
  | report =>
    simp only [addReport]
    exact Table.evolves_update Lasts.refl _ fun _ _ _ => ⟨rfl, fun h => ⟨h, rfl⟩⟩
  | _ => exact Table.Evolves.refl Lasts.refl _

abbrev Lasting (i : Thread) (p : Cmd Reply) (s : Bot) : Prop :=
  p.Ok ⟨fun _ => True, still i, lasting i⟩ (fun _ _ => True) (fun _ _ => True) s

/-- The second statement of `/cta delete`: since the first one no CTA has become active. -/
theorem finishTime_lasting {g now : ℤ} {c : String} {r : Reply} (h : Over c b.db.cta) :
    Lasting .main (write (updateCTAFinishTime c g now) >>= fun _ => pure r) b := by
  apply Sql.ok_bind.2
  apply Sql.ok_exec _ fun _ _ => trivial
  intro t ht
  have hover : Over c t.db.cta := by
    apply ht.stable (A := fun s => Over c s.db.cta) _ h
    intro u v huv _ hu
    exact hu.lasts huv.1 huv.2
  exact ⟨trivial, ⟨lasts_finishTime hover, fun hi => absurd rfl hi⟩, fun _ _ _ _ => trivial⟩

theorem delete_lasting {g now : ℤ} : Lasting .main (deleteCommand g now) b := by
  apply Sql.ok_query_bind trivial (lasting_refl _) _ fun _ _ => trivial
  intro t _ _
  beta_reduce
  cases getCTAID t.db g with
  | none => exact fun _ _ => trivial
  | some c =>
    apply Sql.ok_bind.2
    apply Sql.ok_exec _ fun _ _ => trivial
    intro u _
    refine ⟨trivial, ⟨lasts_finished _ _, fun hi => absurd rfl hi⟩, fun v hv => ?_⟩
    exact Sql.Ok.drift (finishTime_lasting over_finished) hv

theorem lasting_disciplined (env : Env) :
    (system env).Disciplined (fun _ => True) still lasting where
  start := by
    rintro i b b' p - ⟨a, ha, hst⟩
    obtain ⟨hdb, hk⟩ := start_within hst
    refine ⟨trivial, lasting_of_eq (by rw [hdb]), ?_⟩
    by_cases hdelete : ∃ g now, a = .slash g (.delete now)
    · obtain ⟨g, now, rfl⟩ := hdelete
      cases hst
      obtain rfl : i = .main := ha
      exact delete_lasting
    · refine Sql.Within.ok (hk.imp (fun _ _ => trivial) fun s t _ he => ⟨trivial, ?_, ?_⟩) trivial
      · exact effect_lasts he fun g now h => hdelete ⟨g, now, h⟩
      · intro hi
        rcases effect_ctas he with h | ⟨g, startTime, endTime, id, clock, _, _, rfl, -⟩
        · exact h.2
        · exact absurd ha hi
  compat := by
    intro i j hij s t hst
    cases i with
    | main => exact ⟨hst.1, hst.2 fun h => hij h.symm⟩
    | upload => trivial
    | scheduler => trivial
  refl := lasting_refl

end Threads

/-! ### Where the checker is -/

section Points
variable {clock clock' : ℕ → ℤ} {channels channels' : List (Option ℤ)} {j j' : ℕ}
  {done done' rest rest' : List String} {c c' : String}

/-- What is left of the checker when it has found the CTAs `done` past, and comes to the
look-up of the next one of `ctaIDs`. -/
def looking (clock : ℕ → ℤ) (channels : List (Option ℤ)) (j : ℕ) (done ctaIDs : List String) :
    Cmd Reply := do
  let finished ← checkEach clock channels j ctaIDs
  return .finished (done ++ finished)

/-- What is left of it when it has found `ctaID` past. -/
def finishing (clock : ℕ → ℤ) (channels : List (Option ℤ)) (j : ℕ) (done : List String)
    (ctaID : String) (rest : List String) : Cmd Reply := do
  write (updateCTAStatus ctaID .finished)
  if channels.any Option.isNone then Sql.throw .runtime
  else looking clock channels (j + 1) (done ++ [ctaID]) rest

/-- What is left of it when the look-up has shown an end. -/
def looked (clock : ℕ → ℤ) (channels : List (Option ℤ)) (j : ℕ) (done : List String)
    (ctaID : String) (rest : List String) : Option ℤ → Cmd Reply
  | none => Sql.throw .runtime
  | some endTime =>
    if endTime < clock j then finishing clock channels j done ctaID rest
    else looking clock channels (j + 1) done rest

theorem checker_eq (clock : ℕ → ℤ) (channels : List (Option ℤ)) : checker clock channels =
    .stmt some (fun b => looking clock channels 0 [] (getJustFinishedActiveCTAs b.db))
      (.throw .sql) := rfl

theorem finishing_eq : finishing clock channels j done c rest = .stmt
    (fun b => some { b with db := updateCTAStatus c .finished b.db })
    (fun _ => if channels.any Option.isNone then Sql.throw .runtime
      else looking clock channels (j + 1) (done ++ [c]) rest) (.throw .sql) := rfl

theorem looking_nil : looking clock channels j done [] = .ret (.finished (done ++ [])) := rfl

theorem looking_cons : looking clock channels j done (c :: rest) = .stmt some
    (fun b => looked clock channels j done c rest (getCTAEndTime b.db c none)) (.throw .sql) := by
  show Sql.stmt _ _ _ = _
  congr 1
  funext b
  beta_reduce
  rw [Sql.ret_bind]
  cases getCTAEndTime b.db c none with
  | none => rfl
  | some e =>
    by_cases he : e < clock j
    · simp only [looked, he, if_true, finishing, Sql.bind_eq, Sql.bind_assoc]
      congr 1
      funext _
      split
      · rfl
      · simp [looking, Sql.bind_assoc, List.append_assoc]
    · simp only [looked, he, if_false]
      rfl

end Points

/-! ### Smooth steps -/

/-- The statement that the thread comes to does not throw. -/
def Executes (i : Thread) (P P' : Pool Thread Bot Reply) : Prop :=
  ∀ f k h, P.slot i = some (.stmt f k h) →
    ∃ t, f P.state = some t ∧ P' = P.put t i (some (k P.state))

/-- A CTA of that id is there. If the end that is read of it is past, every guild has a system
channel; and it is past if that of any active CTA of the id is. -/
def Finds (now : ℤ) (channels : List (Option ℤ)) (ctaID : String) (db : DB) : Prop :=
  ∃ endTime, getCTAEndTime db ctaID none = some endTime ∧ (endTime < now → none ∉ channels) ∧
    ∀ r ∈ db.cta.vals, r.ctaId = ctaID → r.status = .active → r.endTime < now → endTime < now

/-- A step of a scheduler's thread throws nothing, and a look-up of the checker finds its CTA. -/
def Smooth : Thread → Pool Thread Bot Reply → Pool Thread Bot Reply → Prop
  | .scheduler n, P, P' => Executes (.scheduler n) P P' ∧ ∀ clock channels j done ctaID rest,
      P.slot (.scheduler n) = some (looking clock channels j done (ctaID :: rest)) →
        Finds (clock j) channels ctaID P.state.db
  | _, _, _ => True

/-- A scheduler's thread that throws nothing: its checker is at one of its points, or is done. -/
inductive Checking : Cmd Reply → Prop
  | ret {r} : Checking (.ret r)
  | checker {clock channels} : Checking (checker clock channels)
  | looking {clock channels j done c rest} :
      Checking (looking clock channels j done (c :: rest))
  | finishing {clock channels j done c rest} : none ∉ channels →
      Checking (finishing clock channels j done c rest)

section Steps
variable {P P' : Pool Thread Bot Reply} {n : ℕ} {clock : ℕ → ℤ} {channels : List (Option ℤ)}
  {j : ℕ} {done rest : List String} {c : String}

theorem Smooth.list (h : Smooth (.scheduler n) P P')
    (hslot : P.slot (.scheduler n) = some (checker clock channels)) :
    P' = P.put P.state (.scheduler n)
      (some (looking clock channels 0 [] (getJustFinishedActiveCTAs P.state.db))) := by
  rw [checker_eq] at hslot
  obtain ⟨t, ht, hP'⟩ := h.1 _ _ _ hslot
  obtain rfl := Option.some.inj ht
  exact hP'

theorem Smooth.look (h : Smooth (.scheduler n) P P')
    (hslot : P.slot (.scheduler n) = some (looking clock channels j done (c :: rest))) :
    (none ∉ channels ∧
      P' = P.put P.state (.scheduler n) (some (finishing clock channels j done c rest))) ∨
    ((∀ r ∈ P.state.db.cta.vals, r.ctaId = c → r.status = .active → clock j ≤ r.endTime) ∧
      P' = P.put P.state (.scheduler n) (some (looking clock channels (j + 1) done rest))) := by
  obtain ⟨e, hend, hchannels, hactive⟩ := h.2 _ _ _ _ _ _ hslot
  rw [looking_cons] at hslot
  obtain ⟨t, ht, hP'⟩ := h.1 _ _ _ hslot
  obtain rfl := Option.some.inj ht
  rw [hend] at hP'
  by_cases he : e < clock j
  · rw [looked, if_pos he] at hP'
    exact .inl ⟨hchannels he, hP'⟩
  · rw [looked, if_neg he] at hP'
    refine .inr ⟨fun r hr hc hact => ?_, hP'⟩
    by_contra hpast
    exact he (hactive r hr hc hact (by omega))

theorem Smooth.finish (h : Smooth (.scheduler n) P P') (hchannels : none ∉ channels)
    (hslot : P.slot (.scheduler n) = some (finishing clock channels j done c rest)) :
    P' = P.put { P.state with db := updateCTAStatus c .finished P.state.db } (.scheduler n)
      (some (looking clock channels (j + 1) (done ++ [c]) rest)) := by
  have hall : ¬channels.any Option.isNone = true := by
    simpa using hchannels
  rw [finishing_eq] at hslot
  obtain ⟨t, ht, hP'⟩ := h.1 _ _ _ hslot
  obtain rfl := Option.some.inj ht
  rwa [if_neg hall] at hP'

theorem checking_looking {ctaIDs : List String} :
    Checking (looking clock channels j done ctaIDs) := by
  cases ctaIDs with
  | nil => exact .ret
  | cons c rest => exact .looking

theorem Checking.ne_throw {p : Cmd Reply} (h : Checking p) (e : Exn) : p ≠ .throw e := by
  rintro rfl
  generalize hp : Sql.throw e = p at h
  cases h with
  | ret => cases hp
  | checker => rw [checker_eq] at hp; cases hp
  | looking => rw [looking_cons] at hp; cases hp
  | finishing => rw [finishing_eq] at hp; cases hp

theorem checking_step {env : Env} {p : Cmd Reply} (h : Checking p)
    (hslot : P.slot (.scheduler n) = some p) (hst : (system env).StepOf (.scheduler n) P P')
    (hC : Smooth (.scheduler n) P P') :
    ∀ p', P'.slot (.scheduler n) = some p' → Checking p' := by
  intro p' hp'
  cases h with
  | ret =>
    rw [hst.of_ret hslot, Pool.slot_put] at hp'
    cases hp'
  | checker =>
    rw [hC.list hslot, Pool.slot_put] at hp'
    obtain rfl := Option.some.inj hp'
    exact checking_looking
  | looking =>
    rcases hC.look hslot with ⟨hchannels, hput⟩ | ⟨-, hput⟩
    · rw [hput, Pool.slot_put] at hp'
      obtain rfl := Option.some.inj hp'
      exact .finishing hchannels
    · rw [hput, Pool.slot_put] at hp'
      obtain rfl := Option.some.inj hp'
      exact checking_looking
  | finishing hchannels =>
    rw [hC.finish hchannels hslot, Pool.slot_put] at hp'
    obtain rfl := Option.some.inj hp'
    exact checking_looking

theorem checking_run {env : Env} {b : Bot} (h : (system env).Under Smooth (System.idle b) P) :
    ∀ n p, P.slot (.scheduler n) = some p → Checking p := by
  refine h.invariant (J := fun P => ∀ n p, P.slot (.scheduler n) = some p → Checking p)
    (fun _ _ hp => nomatch hp) ?_
  intro i P P' hst hC hJ n p hp
  by_cases hi : .scheduler n = i
  · subst hi
    cases hslot : P.slot (.scheduler n) with
    | some q => exact checking_step (hJ n q hslot) hslot hst hC p hp
    | none =>
      obtain ⟨t, q, ⟨a, ha, hs⟩, rfl⟩ := hst.of_none hslot
      rw [Pool.slot_put] at hp
      obtain rfl := Option.some.inj hp
      cases a with
      | check clock channels =>
        cases hs
        exact .checker
      | slash => cases ha
      | complete =>
        obtain ⟨m, hm⟩ := ha
        cases hm
  · rw [hst.slot_ne hi] at hp
    exact hJ n p hp

end Steps

/-! ### The points of the checker are told apart by what they do -/

section Apart
variable {clock clock' : ℕ → ℤ} {channels channels' : List (Option ℤ)} {j j' : ℕ}
  {done done' rest rest' ids : List String} {c c' : String}

/-- A database with one CTA. -/
def only (c : String) (e : ℤ) : Bot :=
  { Bot.empty with db := createCTA c 1 0 e DB.empty }

theorem end_only (c c' : String) (e : ℤ) :
    getCTAEndTime (only c e).db c' none = if c = c' then some e else none := by
  by_cases h : c = c'
  · simp [getCTAEndTime, only, createCTA, DB.empty, Table.first, Table.vals, Table.insert,
      Table.empty, h]
  · simp [getCTAEndTime, only, createCTA, DB.empty, Table.first, Table.vals, Table.insert,
      Table.empty, h]

/-- The first changes a CTA, the other one nothing. -/
theorem finishing_ne_looking :
    finishing clock channels j done c rest ≠ looking clock' channels' j' done' ids := by
  intro h
  cases ids with
  | nil => rw [finishing_eq, looking_nil] at h; cases h
  | cons c' rest' =>
    rw [finishing_eq, looking_cons] at h
    obtain ⟨hf, -, -⟩ := Sql.stmt.inj h
    have hsame := congrFun hf (only c 0)
    have hstatus := congrArg (fun b => b.map fun b => b.db.cta.vals.map Cta.status) hsame
    simp [only, createCTA, updateCTAStatus, DB.empty, Table.vals_update, Table.vals_insert] at hstatus

theorem looked_ne_throw {e : ℤ} {x : Exn} : looked clock channels j done c rest (some e) ≠ .throw x := by
  by_cases he : e < clock j
  · rw [looked, if_pos he, finishing_eq]
    exact fun h => nomatch h
  · rw [looked, if_neg he]
    exact checking_looking.ne_throw x

theorem checker_ne_looking :
    checker clock channels ≠ looking clock' channels' j' done' (c' :: rest') := by
  intro h
  rw [checker_eq, looking_cons] at h
  obtain ⟨-, hk, -⟩ := Sql.stmt.inj h
  have hempty := congrFun hk Bot.empty
  cases hempty

/-- Choices with the same outcome, where neither side's one outcome is the other's other one. -/
theorem iff_of_ite_eq {α : Type} {p q : Prop} [Decidable p] [Decidable q] {x y x' y' : α}
    (h : (if p then x else y) = if q then x' else y') (hx : x ≠ y') (hy : y ≠ x') : p ↔ q := by
  by_cases hp : p
  · by_cases hq : q
    · exact iff_of_true hp hq
    · rw [if_pos hp, if_neg hq] at h
      exact absurd h hx
  · by_cases hq : q
    · rw [if_neg hp, if_pos hq] at h
      exact absurd h hy
    · exact iff_of_false hp hq

/-- Two look-ups that are the same program are of one CTA, at one time, and want the same. -/
theorem looking_inj (h : looking clock channels j done (c :: rest) =
    looking clock' channels' j' done' (c' :: rest')) :
    c = c' ∧ clock j = clock' j' ∧ (none ∈ channels ↔ none ∈ channels') := by
  rw [looking_cons, looking_cons] at h
  obtain ⟨-, hk, -⟩ := Sql.stmt.inj h
  have hat : ∀ e, looked clock channels j done c rest (some e) =
      looked clock' channels' j' done' c' rest' (if c = c' then some e else none) := by
    intro e
    have he := congrFun hk (only c e)
    rwa [end_only, end_only, if_pos rfl] at he
  -- where only `c` is stored, the look-up of another id throws
  have hc : c = c' := by
    by_contra hne
    have hzero := hat 0
    rw [if_neg hne] at hzero
    exact looked_ne_throw hzero
  subst hc
  simp only [looked, if_true] at hat
  -- an end that is past to one of them only is followed by a write in one of them only
  have hpast : ∀ e, e < clock j ↔ e < clock' j' := fun e =>
    iff_of_ite_eq (hat e) finishing_ne_looking finishing_ne_looking.symm
  have hclock : clock j = clock' j' := by
    have h1 := hpast (clock j)
    have h2 := hpast (clock' j')
    omega
  have hfin := hat (clock j - 1)
  rw [if_pos (by omega), if_pos (by omega), finishing_eq, finishing_eq] at hfin
  obtain ⟨-, hrest, -⟩ := Sql.stmt.inj hfin
  have hgoes := congrFun hrest Bot.empty
  have hany : ∀ l : List (Option ℤ), l.any Option.isNone = true ↔ none ∈ l := by
    intro l
    simp
  refine ⟨rfl, hclock, ?_⟩
  rw [← hany, ← hany]
  exact iff_of_ite_eq hgoes (checking_looking.ne_throw _).symm (checking_looking.ne_throw _)

end Apart

/-! ### A run of the checker -/

/-- The checker on the thread reads its list in `P` and, all steps smooth, returns in `Q`. -/
structure CheckerRun (env : Env) (n : ℕ) (clock : ℕ → ℤ) (channels : List (Option ℤ))
    (P Q : Pool Thread Bot Reply) : Prop where
  called : P.slot (.scheduler n) = some (checker clock channels)
  run : ∃ P', (system env).StepOf (.scheduler n) P P' ∧ Smooth (.scheduler n) P P' ∧
    (system env).Under (fun i R R' => Smooth i R R' ∧ R'.slot (.scheduler n) ≠ none) P' Q
  returned : ∃ reply, Q.slot (.scheduler n) = some (.ret reply)

section Turns
variable {env : Env} {n : ℕ} {clock : ℕ → ℤ} {channels : List (Option ℤ)} {ids : List String}
  {t₀ t t' : Table Cta} {Q Q' : Pool Thread Bot Reply} {k : ℕ}

/-- Of the CTAs that were active in `t₀`, those that were past in the `k`-th turn are over. -/
def Turned (clock : ℕ → ℤ) (ids : List String) (t₀ : Table Cta) (k : ℕ) (t : Table Cta) : Prop :=
  ∀ r ∈ t₀.rows, ids[k]? = some r.val.ctaId → r.val.status = .active → r.val.endTime < clock k →
    ∀ r' ∈ t.rows, r'.id = r.id → r'.val.status ≠ .active

theorem Turned.lasts (h : Turned clock ids t₀ k t) (h₀ : t₀.seq ≤ t.seq)
    (ht : Table.Evolves Lasts t t') : Turned clock ids t₀ k t' := by
  intro r hr hid hact hpast r' hr' heq hact'
  have hold : r'.id ≤ t.seq := by
    have hbound := t₀.bounded r hr
    omega
  obtain ⟨q, hq, hqid, hl⟩ := ht.rows r' hr' hold
  exact h r hr hid hact hpast q hq (hqid.trans heq) (hl.active hact').1

theorem turned_past {db : DB} {c : String} (hk : ids[k]? = some c)
    (h : Table.Evolves Lasts t₀ (updateCTAStatus c .finished db).cta) :
    Turned clock ids t₀ k (updateCTAStatus c .finished db).cta := by
  intro r hr hid _ _ r' hr' heq
  have hrc : r.val.ctaId = c := Option.some.inj (hid.symm.trans hk)
  exact over_finished r'.val (Table.val_mem hr') ((h.row hr hr' heq).ctaId.trans hrc)

theorem turned_later {c : String} (hk : ids[k]? = some c) (h : Table.Evolves Lasts t₀ t)
    (hlater : ∀ r ∈ t.vals, r.ctaId = c → r.status = .active → clock k ≤ r.endTime) :
    Turned clock ids t₀ k t := by
  intro r hr hid _ hpast r' hr' heq hact'
  have hrc : r.val.ctaId = c := Option.some.inj (hid.symm.trans hk)
  have hl : Lasts r.val r'.val := h.row hr hr' heq
  have hend : r'.val.endTime = r.val.endTime := (hl.active hact').2
  have hnot := hlater r'.val (Table.val_mem hr') (hl.ctaId.trans hrc) hact'
  omega

/-- The checker is in turn `j`, and the turns before it are over. -/
def InTurn (n : ℕ) (clock : ℕ → ℤ) (channels : List (Option ℤ)) (ids : List String)
    (t₀ : Table Cta) (Q : Pool Thread Bot Reply) : Prop :=
  ∃ j done, (∀ k < j, Turned clock ids t₀ k Q.state.db.cta) ∧
    (Q.slot (.scheduler n) = some (looking clock channels j done (ids.drop j)) ∨
      ∃ c, ids[j]? = some c ∧ none ∉ channels ∧
        Q.slot (.scheduler n) = some (finishing clock channels j done c (ids.drop (j + 1))))

theorem drop_cons {j : ℕ} {c : String} {rest : List String} (h : ids.drop j = c :: rest) :
    ids[j]? = some c ∧ rest = ids.drop (j + 1) := by
  constructor
  · have hhead := congrArg (fun l => l[0]?) h
    simpa using hhead
  · have htail := congrArg List.tail h
    simpa using htail.symm

/-- A step of the checker's own. -/
theorem inTurn_own (h : InTurn n clock channels ids t₀ Q)
    (h₀ : Table.Evolves Lasts t₀ Q.state.db.cta)
    (hst : (system env).StepOf (.scheduler n) Q Q') (hC : Smooth (.scheduler n) Q Q')
    (hgoes : Q'.slot (.scheduler n) ≠ none) : InTurn n clock channels ids t₀ Q' := by
  obtain ⟨j, done, hturned, hslot | ⟨c, hc, hchannels, hslot⟩⟩ := h
  · cases hdrop : ids.drop j with
    | nil =>
      rw [hdrop, looking_nil] at hslot
      rw [hst.of_ret hslot, Pool.slot_put] at hgoes
      exact absurd rfl hgoes
    | cons c rest =>
      obtain ⟨hc, rfl⟩ := drop_cons hdrop
      rw [hdrop] at hslot
      rcases hC.look hslot with ⟨hchannels, rfl⟩ | ⟨hlater, rfl⟩
      · exact ⟨j, done, hturned, .inr ⟨c, hc, hchannels, Pool.slot_put⟩⟩
      · have hnow : Turned clock ids t₀ j Q.state.db.cta := turned_later hc h₀ hlater
        exact ⟨j + 1, done, Nat.forall_lt_succ_right.2 ⟨hturned, hnow⟩, .inl Pool.slot_put⟩
  · obtain rfl := hC.finish hchannels hslot
    have hlasts := lasts_finished Q.state.db c
    refine ⟨j + 1, done ++ [c], Nat.forall_lt_succ_right.2 ⟨fun k hk => ?_, ?_⟩, .inl Pool.slot_put⟩
    · exact (hturned k hk).lasts h₀.seq hlasts
    · exact turned_past hc (h₀.trans Lasts.trans hlasts)

/-- A step of another thread. -/
theorem inTurn_other {i : Thread} (h : InTurn n clock channels ids t₀ Q)
    (h₀ : Table.Evolves Lasts t₀ Q.state.db.cta) (hi : .scheduler n ≠ i)
    (hst : (system env).StepOf i Q Q')
    (hlasts : Table.Evolves Lasts Q.state.db.cta Q'.state.db.cta) :
    InTurn n clock channels ids t₀ Q' := by
  obtain ⟨j, done, hturned, hat⟩ := h
  refine ⟨j, done, fun k hk => (hturned k hk).lasts h₀.seq hlasts, ?_⟩
  rw [hst.slot_ne hi]
  exact hat

/-- When the checker returns, it has had all its turns. -/
theorem InTurn.returned {reply : Reply} (h : InTurn n clock channels ids t₀ Q)
    (hret : Q.slot (.scheduler n) = some (.ret reply)) (hk : k < ids.length) :
    Turned clock ids t₀ k Q.state.db.cta := by
  obtain ⟨j, done, hturned, hslot | ⟨c, -, -, hslot⟩⟩ := h
  · have hdrop : ids.drop j = [] := by
      cases hd : ids.drop j with
      | nil => rfl
      | cons c rest =>
        rw [hret, hd, looking_cons] at hslot
        cases hslot
    have hlen : ids.length ≤ j := List.drop_eq_nil_iff.1 hdrop
    exact hturned k (by omega)
  · rw [hret, finishing_eq] at hslot
    cases hslot

end Turns

/-- In every run of smooth steps no thread of a scheduler comes to throw an exception; and when
a checker returns, each CTA that was active when it read its list, and past when its turn came,
has finished. -/
theorem checker_survives {env : Env} {b : Bot} {P : Pool Thread Bot Reply}
    (h : (system env).Under Smooth (System.idle b) P) :
    (∀ n e, P.slot (.scheduler n) ≠ some (.throw e)) ∧
      ∀ n clock channels Q, CheckerRun env n clock channels P Q →
        ∀ j, ∀ r ∈ P.state.db.cta.rows,
          (getJustFinishedActiveCTAs P.state.db)[j]? = some r.val.ctaId →
          r.val.status = .active → r.val.endTime < clock j →
            ∀ r' ∈ Q.state.db.cta.rows, r'.id = r.id → r'.val.status = .finished := by
  constructor
  · intro n e hslot
    exact (checking_run h n _ hslot).ne_throw e rfl
  · rintro n clock channels Q ⟨hcalled, ⟨P', hst, hC, hrun⟩, ⟨reply, hret⟩⟩ j r hr hid hact hpast
    have hgood := System.good_reaches (lasting_disciplined env)
      (System.good_idle (s := b) trivial) h.reaches
    have hread := (System.good_step (lasting_disciplined env) hgood hst.step).1
    obtain rfl := hC.list hcalled
    let J := fun R : Pool Thread Bot Reply => Table.Evolves Lasts P.state.db.cta R.state.db.cta ∧
      InTurn n clock channels (getJustFinishedActiveCTAs P.state.db) P.state.db.cta R
    have hJ : J Q := by
      refine hrun.good_invariant (J := J) (lasting_disciplined env) hread
        ⟨Table.Evolves.refl Lasts.refl _, 0, [], ?_⟩ ?_
      · exact ⟨fun k hk => absurd hk (Nat.not_lt_zero k), .inl Pool.slot_put⟩
      · rintro i R R' hstep ⟨hsmooth, hgoes⟩ ⟨i', hlasts, -⟩ ⟨h₀, hturn⟩
        refine ⟨h₀.trans Lasts.trans hlasts, ?_⟩
        by_cases hi : .scheduler n = i
        · subst hi
          exact inTurn_own hturn h₀ hstep hsmooth hgoes
        · exact inTurn_other hturn h₀ hi hstep hlasts
    have hj : j < (getJustFinishedActiveCTAs P.state.db).length := by
      by_contra hlen
      rw [List.getElem?_eq_none (by omega)] at hid
      cases hid
    intro r' hr' heq
    have hover := hJ.2.returned hret hj r hr hid hact hpast r' hr' heq
    cases hs : r'.val.status with
    | active => exact absurd hs hover
    | finished => rfl

/-- The evening after. -/
def late (_ : ℕ) : ℤ := 1709330000000000000

/-- One thread of a scheduler runs, the others are idle. -/
def running (t : Bot) (p : Cmd Reply) : Pool Thread Bot Reply :=
  (System.idle t).put t (.scheduler 0) (some p)

theorem step_called (b : Bot) (channels : List (Option ℤ)) :
    (system Env.ascii).StepOf (.scheduler 0) (System.idle b) (running b (checker late channels)) :=
  .start rfl ⟨.check late channels, ⟨0, rfl⟩, rfl⟩

/-- A smooth step of the one thread. -/
def Moves (s : Bot) (p : Cmd Reply) (t : Bot) (q : Cmd Reply) : Prop :=
  (system Env.ascii).StepOf (.scheduler 0) (running s p) (running t q) ∧
    Smooth (.scheduler 0) (running s p) (running t q)

theorem moves_stmt {f : Bot → Option Bot} {k : Bot → Cmd Reply} {h p q : Cmd Reply} {s t : Bot}
    (hp : p = .stmt f k h) (hf : f s = some t) (hq : k s = q)
    (hlook : ∀ clock channels j done c rest, p = looking clock channels j done (c :: rest) →
      Finds (clock j) channels c s.db) : Moves s p t q := by
  subst hp
  subst hq
  have hslot : (running s (.stmt f k h)).slot (.scheduler 0) = some (.stmt f k h) := Pool.slot_put
  have hput : running t (k s) = (running s (.stmt f k h)).put t (.scheduler 0) (some (k s)) := by
    simp [running, System.idle, Pool.put]
  refine ⟨hput ▸ .stmt hslot hf, ?_, ?_⟩
  · intro f' k' h' hslot'
    obtain ⟨rfl, rfl, rfl⟩ := Sql.stmt.inj (Option.some.inj (hslot.symm.trans hslot'))
    exact ⟨t, hf, hput⟩
  · intro clock channels j done c rest hslot'
    exact hlook _ _ _ _ _ _ (Option.some.inj (hslot.symm.trans hslot'))

theorem list_active : getJustFinishedActiveCTAs (endState [startCTA]).db = ["CTA1"] := by
  decide +kernel

theorem moves_read : Moves (endState [startCTA]) (checker late [some 1]) (endState [startCTA])
    (looking late [some 1] 0 [] ["CTA1"]) := by
  apply moves_stmt (checker_eq _ _) rfl (by rw [list_active])
  exact fun _ _ _ _ _ _ h => absurd h checker_ne_looking

theorem checker_survives_past :
    let b := endState [startCTA]
    let t := { b with db := updateCTAStatus "CTA1" .finished b.db }
    CheckerRun Env.ascii 0 late [some 1] (running b (checker late [some 1]))
        (running t (.ret (.finished ["CTA1"]))) ∧
      (∀ n e, (running b (checker late [some 1])).slot (.scheduler n) ≠ some (.throw e)) ∧
      ∀ r ∈ b.db.cta.rows, r.val.ctaId = "CTA1" →
        ∀ r' ∈ t.db.cta.rows, r'.id = r.id → r'.val.status = .finished := by
  intro b t
  have hend : getCTAEndTime b.db "CTA1" none = some 1709326800000000000 := by decide +kernel
  have hlook : Moves b (looking late [some 1] 0 [] ["CTA1"]) b
      (finishing late [some 1] 0 [] "CTA1" []) := by
    apply moves_stmt looking_cons rfl (by rw [hend, looked, if_pos (by decide)])
    intro clock channels j done c rest h
    obtain ⟨rfl, hclock, hchannels⟩ := looking_inj h
    refine ⟨_, hend, fun _ hnone => ?_, fun r _ _ _ _ => ?_⟩
    · have hsome := hchannels.2 hnone
      simp at hsome
    · rw [← hclock]
      decide
  have hfinish : Moves b (finishing late [some 1] 0 [] "CTA1" []) t
      (.ret (.finished ["CTA1"])) := by
    apply moves_stmt finishing_eq rfl rfl
    exact fun _ _ _ _ _ _ h => absurd h finishing_ne_looking
  have hcalled : (system Env.ascii).Under Smooth (System.idle b)
      (running b (checker late [some 1])) := by
    refine Relation.ReflTransGen.single ⟨_, step_called b _, ?_, ?_⟩
    · exact fun _ _ _ h => nomatch h
    · exact fun _ _ _ _ _ _ h => nomatch h
  have hrun : CheckerRun Env.ascii 0 late [some 1] (running b (checker late [some 1]))
      (running t (.ret (.finished ["CTA1"]))) := by
    refine ⟨Pool.slot_put, ⟨_, moves_read.1, moves_read.2, ?_⟩, _, Pool.slot_put⟩
    have hgoes : ∀ s p, (running s p).slot (.scheduler 0) ≠ none := by
      intro s p
      simp [running]
    refine Relation.ReflTransGen.head ⟨_, hlook.1, hlook.2, hgoes _ _⟩ ?_
    exact Relation.ReflTransGen.single ⟨_, hfinish.1, hfinish.2, hgoes _ _⟩
  obtain ⟨hcalm, hpast⟩ := checker_survives hcalled
  refine ⟨hrun, hcalm, fun r hr hc => ?_⟩
  have hrow : r.val.status = .active ∧ r.val.endTime < late 0 := by
    revert r
    decide +kernel
  refine hpast _ _ _ _ hrun 0 r hr ?_ hrow.1 hrow.2
  rw [hc]
  exact congrArg (fun l => l[0]?) list_active

theorem throws_alone {P : Pool Thread Bot Reply} {i : Thread} {p : Cmd Reply} {e : Exn}
    (hslot : P.slot i = some p) (h : (p.run [] P.state).1 = .error e) :
    ∃ Q, (system Env.ascii).Reaches P Q ∧ Q.slot i = some (.throw e) := by
  refine ⟨_, System.reaches_result [] p hslot, ?_⟩
  rw [Pool.slot_put, h, Sql.ofResult]

/-- The checker throws when a guild has no system channel, and when the CTA is cancelled after
the list has been read. -/
theorem checker_stops :
    let b := endState [startCTA]
    (∃ Q, (system Env.ascii).Reaches (System.idle b) (running b (checker late [none])) ∧
      (system Env.ascii).Reaches (running b (checker late [none])) Q ∧
        Q.slot (.scheduler 0) = some (.throw .runtime)) ∧
    ∃ Q, (system Env.ascii).Reaches (System.idle b) (running b (checker late [some 1])) ∧
      (system Env.ascii).Reaches (running b (checker late [some 1])) Q ∧
        Q.slot (.scheduler 0) = some (.throw .runtime) := by
  intro b
  have hcalled : ∀ channels, (system Env.ascii).Reaches (System.idle b)
      (running b (checker late channels)) := fun channels =>
    Relation.ReflTransGen.single (step_called b channels).step
  constructor
  · obtain ⟨Q, hQ, hthrow⟩ := throws_alone (P := running b (checker late [none]))
      (i := .scheduler 0) (p := checker late [none]) (e := .runtime) Pool.slot_put
      (by decide +kernel)
    exact ⟨Q, hcalled _, hQ, hthrow⟩
  · let P := running b (looking late [some 1] 0 [] ["CTA1"])
    have hread : (system Env.ascii).Reaches (running b (checker late [some 1])) P :=
      Relation.ReflTransGen.single moves_read.1.step
    have hcancel : (system Env.ascii).Step P (P.put b .main (some (execute Env.ascii 1 .cancel))) :=
      .start rfl ⟨.slash 1 .cancel, rfl, rfl⟩
    have hcancelled := System.reaches_run (S := system Env.ascii) [] (execute Env.ascii 1 .cancel)
      (P := P.put b .main (some (execute Env.ascii 1 .cancel))) (i := .main) Pool.slot_put
    rw [Pool.put_put, Pool.state_put] at hcancelled
    obtain ⟨Q, hQ, hthrow⟩ := throws_alone (i := .scheduler 0)
      (P := P.put ((execute Env.ascii 1 .cancel).run [] b).2 .main none)
      (p := looking late [some 1] 0 [] ["CTA1"]) (e := .runtime)
      ((Pool.slot_put_ne (by decide)).trans Pool.slot_put) (by decide +kernel)
    exact ⟨Q, hcalled _, hread.trans ((hcancelled.head hcancel).trans hQ), hthrow⟩

end AtomComm.GuildBot
