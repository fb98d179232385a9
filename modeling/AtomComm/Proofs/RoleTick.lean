import AtomComm.Proofs.TimedRoles

/-! One run of the role checker, over any table and any guilds. What it does for a guild
depends on that guild's rows alone, but a row whose role is not found ends the run: the rows
and the guilds behind it are not served, and the exception is none that is caught. -/

namespace AtomComm.LootSplit

variable {fold : Char → Char} {G : Guild} {gs : List Guild} {T : Timers} {db : DB}

def tick (db : DB) (G : Guild) : DB := clear G (expired G db) (decrementTimeLeft G.id db)

/-! ### The rows of other guilds -/

theorem agree_tick {g : ℤ} (hne : g ≠ G.id) (db : DB) :
    Table.AgreeOn (fun r => r.guildId = g) (tick db G).playersRoles db.playersRoles := by
  have hdel : ∀ v : PlayerRole, (decide (v.guildId = g)) = true →
      (v.guildId = G.id && (expired G db).any fun r => r.userId = v.userId : Bool) = false := by
    intro v hv
    rw [of_decide_eq_true hv]
    simp [hne]
  have hupd : (decrementTimeLeft G.id db).playersRoles.select (fun r => r.guildId = g) =
      (db.playersRoles.select fun r => r.guildId = g).map fun v =>
        if decide (v.guildId = G.id) = true then v.down else v :=
    Table.select_update fun _ _ => rfl
  unfold Table.AgreeOn
  rw [tick, clear, Table.select_delete hdel, hupd]
  conv_rhs => rw [← List.map_id (db.playersRoles.select fun r => r.guildId = g)]
  apply List.map_congr_left
  intro v hv
  have hvg : v.guildId = g := by simpa using (List.mem_filter.1 hv).2
  simp [hvg, hne]

theorem expired_eq (G : Guild) (db : DB) : expired G db =
    (db.playersRoles.select fun r => r.guildId = G.id && r.timeLeft ≤ 1).map PlayerRole.down := by
  unfold expired decrementTimeLeft
  rw [Table.select, Table.vals_update, List.filter_map, Table.select]
  have hsame : db.playersRoles.vals.filter ((fun r => r.timeLeft ≤ 0 && r.guildId = G.id) ∘
      fun v => if decide (v.guildId = G.id) = true then v.down else v) =
      db.playersRoles.vals.filter fun r => r.guildId = G.id && r.timeLeft ≤ 1 := by
    apply List.filter_congr
    intro v _
    by_cases hg : v.guildId = G.id
    · have htime : v.timeLeft - 1 ≤ 0 ↔ v.timeLeft ≤ 1 := by omega
      simp [hg, PlayerRole.down, htime]
    · simp [hg]
  refine (congrArg (List.map _) hsame).trans (List.map_congr_left fun v hv => ?_)
  have hg := (List.mem_filter.1 hv).2
  rw [Bool.and_eq_true] at hg
  exact if_pos hg.1

theorem expired_tick {H : Guild} (hne : H.id ≠ G.id) (db : DB) :
    expired H (tick db G) = expired H db := by
  rw [expired_eq, expired_eq]
  congr 1
  apply (agree_tick hne db).select
  intro v hv
  rw [Bool.and_eq_true] at hv
  exact hv.1

theorem doomed_tick {r : PlayerRole} (hne : r.guildId ≠ G.id) (db : DB) :
    doomed (tick db G) r = doomed db r := by
  apply (agree_tick hne db).any
  intro v hv
  rw [Bool.and_eq_true, Bool.and_eq_true] at hv
  exact hv.1.1

/-! ### The run -/

def tickAll (gs : List Guild) (db : DB) : DB := gs.foldl tick db

theorem ne_of_nodup {H : Guild} (h : G.id ∉ gs.map Guild.id) (hH : H ∈ gs) : H.id ≠ G.id :=
  fun he => h (he ▸ List.mem_map_of_mem hH)

/-- All roles are found: each guild is served, by what was stored before the run. -/
theorem run_guilds (hnodup : (gs.map Guild.id).Nodup)
    (h : ∀ G ∈ gs, ∀ v ∈ expired G T.db, (found fold G v).isSome) :
    Sql.run [] (Sql.forEach (checkGuild fold) gs) T = (.ok (), ⟨tickAll gs T.db,
      T.removed ++ gs.flatMap fun G => taken fold G (expired G T.db), T.scheduled⟩) := by
  induction gs generalizing T with
  | nil => simp [Sql.forEach, tickAll]
  | cons G gs ih =>
    rw [List.map_cons, List.nodup_cons] at hnodup
    have hothers : ∀ H ∈ gs, expired H (tick T.db G) = expired H T.db :=
      fun H hH => expired_tick (ne_of_nodup hnodup.1 hH) T.db
    have hmap : (gs.flatMap fun H => taken fold H (expired H (tick T.db G))) =
        gs.flatMap fun H => taken fold H (expired H T.db) := by
      apply List.flatMap_congr
      intro H hH
      rw [hothers H hH]
    rw [Sql.run_forEach_cons (run_checkGuild (h G (by simp)))]
    rw [ih hnodup.2]
    · show (_, (⟨_, (T.removed ++ _) ++ gs.flatMap fun H => taken fold H (expired H (tick T.db G)),
        _⟩ : Timers)) = _
      rw [hmap, List.append_assoc]
      rfl
    · intro H hH v hv
      apply h H (by simp [hH]) v
      rw [← hothers H hH]
      exact hv

/-- One is not: the run ends there. -/
theorem run_guilds_none (hnodup : (gs.map Guild.id).Nodup)
    (h : ∃ G ∈ gs, ∃ v ∈ expired G T.db, found fold G v = none) :
    ∃ T', Sql.run [] (Sql.forEach (checkGuild fold) gs) T = (.error .runtime, T') := by
  induction gs generalizing T with
  | nil => simp at h
  | cons G gs ih =>
    rw [List.map_cons, List.nodup_cons] at hnodup
    by_cases hG : ∃ v ∈ expired G T.db, found fold G v = none
    · obtain ⟨T', hrun⟩ := run_removeAll_none (T := T.onDb (decrementTimeLeft G.id)) hG
      have hguild : Sql.run [] (checkGuild fold G) T = (.error .runtime, T') := hrun
      exact ⟨T', by rw [Sql.forEach, Sql.run_bind, hguild]⟩
    · have hall : ∀ v ∈ expired G T.db, (found fold G v).isSome := by
        intro v hv
        rw [Option.isSome_iff_ne_none]
        exact fun hno => hG ⟨v, hv, hno⟩
      rw [Sql.run_forEach_cons (run_checkGuild hall)]
      apply ih hnodup.2
      obtain ⟨H, hH, v, hv, hno⟩ := h
      rcases List.mem_cons.1 hH with rfl | hH
      · exact absurd ⟨v, hv, hno⟩ hG
      · refine ⟨H, hH, v, ?_, hno⟩
        show v ∈ expired H (tick T.db G)
        rw [expired_tick (ne_of_nodup hnodup.1 hH)]
        exact hv

theorem survives_survives {ids : List ℤ} (hG : G.id ∉ ids) (db : DB) (r : Row PlayerRole) :
    (survives [G.id] db r).bind (survives ids (tick db G)) = survives (G.id :: ids) db r := by
  by_cases hg : r.val.guildId = G.id
  · cases hd : doomed db r.val with
    | true => simp [survives, hg, hd]
    | false => simp [survives, hg, hd, PlayerRole.down, hG]
  · simp [survives, hg, doomed_tick hg]

theorem rows_tickAll (hnodup : (gs.map Guild.id).Nodup) (db : DB) :
    (tickAll gs db).playersRoles.rows =
      db.playersRoles.rows.filterMap (survives (gs.map Guild.id) db) := by
  induction gs generalizing db with
  | nil =>
    have hsome : survives [] db = some := by
      funext r
      simp [survives]
    rw [List.map_nil, hsome, List.filterMap_some]
    rfl
  | cons G gs ih =>
    rw [List.map_cons, List.nodup_cons] at hnodup
    have hrows : (tick db G).playersRoles.rows = _ := rows_clear G db
    have hrest : (tickAll (G :: gs) db).playersRoles.rows = _ := ih hnodup.2 (tick db G)
    rw [hrest, hrows, List.filterMap_filterMap, List.map_cons]
    congr 1
    funext r
    exact survives_survives hnodup.1 db r

/-! ### When a tick is robust -/

/-- Every row of the guilds is counted down once, those that have run out are gone, and for each
of these the role of its name is asked to be taken away, where there is one. -/
structure Robust (fold : Char → Char) (guilds : Guilds) (T : Timers)
    (r : Except Exn Unit × Timers) : Prop where
  returns : r.1 = .ok ()
  rows : r.2.db.playersRoles.rows =
    T.db.playersRoles.rows.filterMap (lasts (guilds.list.map Guild.id))
  removed : r.2.removed =
    T.removed ++ guilds.list.flatMap fun G => requests fold G (expired G T.db)

/-- The rows of a member run out together. -/
def Together (G : Guild) (t : Table PlayerRole) : Prop :=
  ∀ r ∈ t.vals, r.guildId = G.id → r.timeLeft ≤ 1 →
    ∀ r' ∈ t.vals, r'.guildId = G.id → r'.userId = r.userId → r'.timeLeft ≤ 1

/-- Each row that runs out has a role of its name in the guild, which is found again by its
text, and the rows of a member run out together. -/
def Serviceable (fold : Char → Char) (G : Guild) (t : Table PlayerRole) : Prop :=
  (∀ r ∈ t.vals, r.guildId = G.id → r.timeLeft ≤ 1 →
    (roleOf fold G r).isSome ∧ found fold G r = roleOf fold G r) ∧ Together G t

instance (t : Table PlayerRole) : Decidable (Serviceable fold G t) :=
  inferInstanceAs (Decidable ((∀ r ∈ t.vals, r.guildId = G.id → r.timeLeft ≤ 1 →
    (roleOf fold G r).isSome ∧ found fold G r = roleOf fold G r) ∧
      ∀ r ∈ t.vals, r.guildId = G.id → r.timeLeft ≤ 1 →
        ∀ r' ∈ t.vals, r'.guildId = G.id → r'.userId = r.userId → r'.timeLeft ≤ 1))

/-- The requests that should be made are no more than the rows, so where as many are made each
row has its own. -/
theorem filterMap_eq_filterMap {α β : Type*} {f f' : α → Option β} {xs : List α}
    (hf : ∀ x ∈ xs, (f x).isSome) (h : xs.filterMap f = xs.filterMap f') :
    ∀ x ∈ xs, f x = f' x := by
  have hf' : ∀ x ∈ xs, (f' x).isSome := by
    intro x hx
    rw [Option.isSome_iff_ne_none]
    intro hnone
    have hless := List.length_filterMap_lt_length_iff_exists.2 ⟨x, hx, hnone⟩
    rw [← h] at hless
    obtain ⟨y, hy, hy'⟩ := List.length_filterMap_lt_length_iff_exists.1 hless
    exact Option.isSome_iff_ne_none.1 (hf y hy) hy'
  induction xs with
  | nil => simp
  | cons x xs ih =>
    rw [List.forall_mem_cons] at hf hf' ⊢
    obtain ⟨z, hz⟩ := Option.isSome_iff_exists.1 hf.1
    obtain ⟨z', hz'⟩ := Option.isSome_iff_exists.1 hf'.1
    rw [List.filterMap_cons_some hz, List.filterMap_cons_some hz'] at h
    obtain ⟨rfl, htail⟩ := List.cons.inj h
    exact ⟨hz.trans hz'.symm, ih hf.2 htail hf'.2⟩

/-- The rows of a tick that run out, with their guilds. -/
def due (gs : List Guild) (db : DB) : List (Guild × PlayerRole) :=
  gs.flatMap fun G => (expired G db).map (Prod.mk G)

theorem requests_eq_due (gs : List Guild) (db : DB) (role : Guild → PlayerRole → Option DiscordRole) :
    (gs.flatMap fun G => (expired G db).filterMap fun r =>
        (role G r).map fun d => (⟨G.id, r.userId, d⟩ : Removal)) =
      (due gs db).filterMap fun p => (role p.1 p.2).map fun d => ⟨p.1.id, p.2.userId, d⟩ := by
  simp only [due, List.filterMap_flatMap, List.filterMap_map]
  rfl

theorem requests_eq_iff (h : ∀ G ∈ gs, ∀ v ∈ expired G db, (found fold G v).isSome) :
    (gs.flatMap fun G => taken fold G (expired G db)) =
        (gs.flatMap fun G => requests fold G (expired G db)) ↔
      ∀ G ∈ gs, ∀ v ∈ expired G db, found fold G v = roleOf fold G v := by
  constructor
  · intro heq G hG v hv
    unfold taken requests at heq
    rw [requests_eq_due, requests_eq_due] at heq
    have hdue : ∀ p ∈ due gs db, ((found fold p.1 p.2).map fun d =>
        (⟨p.1.id, p.2.userId, d⟩ : Removal)).isSome := by
      intro p hp
      obtain ⟨H, hH, hp⟩ := List.mem_flatMap.1 hp
      obtain ⟨w, hw, rfl⟩ := List.mem_map.1 hp
      rw [Option.isSome_map]
      exact h H hH w hw
    have hmem : (G, v) ∈ due gs db := List.mem_flatMap.2 ⟨G, hG, List.mem_map_of_mem hv⟩
    have hsame := filterMap_eq_filterMap hdue heq (G, v) hmem
    exact Option.map_injective (fun d d' hd => (Removal.mk.inj hd).2.2) hsame
  · intro hsame
    apply List.flatMap_congr
    intro G hG
    apply List.filterMap_congr
    intro v hv
    rw [hsame G hG v hv]

theorem survives_id {ids : List ℤ} {p q : Row PlayerRole} (h : survives ids db p = some q) :
    q.id = p.id := by
  unfold survives at h
  split at h
  · split at h
    · cases h
    · obtain rfl := Option.some.inj h
      rfl
  · obtain rfl := Option.some.inj h
    rfl

theorem rows_eq_iff (hnodup : (gs.map Guild.id).Nodup) :
    (tickAll gs db).playersRoles.rows =
        db.playersRoles.rows.filterMap (lasts (gs.map Guild.id)) ↔
      ∀ G ∈ gs, Together G db.playersRoles := by
  rw [rows_tickAll hnodup]
  constructor
  · intro heq G hG r hr hg ht r' hr' hg' hu
    by_contra hmore
    obtain ⟨q, hq, rfl⟩ := Table.mem_vals.1 hr'
    have hid : q.val.guildId ∈ gs.map Guild.id := hg' ▸ List.mem_map_of_mem hG
    -- the row should last, and is deleted with that of its member
    have hlast : (⟨q.id, q.val.down⟩ : Row PlayerRole) ∈
        db.playersRoles.rows.filterMap (survives (gs.map Guild.id) db) := by
      rw [heq]
      exact List.mem_filterMap.2 ⟨q, hq, by rw [lasts, if_pos hid, if_neg hmore]⟩
    obtain ⟨p, hp, hsurv⟩ := List.mem_filterMap.1 hlast
    have hsame := survives_id hsurv
    obtain rfl := Table.id_inj hq hp hsame
    have hdoomed : doomed db q.val = true :=
      doomed_iff.2 ⟨r, hr, hg.trans hg'.symm, hu.symm, ht⟩
    rw [survives, if_pos hid, if_pos hdoomed] at hsurv
    cases hsurv
  · intro h
    apply List.filterMap_congr
    intro r hr
    apply survives_eq_lasts hr
    intro hid v hv hvg hu ht
    obtain ⟨G, hG, hg⟩ := List.mem_map.1 hid
    exact h G hG v hv (hvg.trans hg.symm) ht r.val (Table.val_mem hr) hg.symm hu.symm

/-- The rows that run out, before they are counted down and after. -/
theorem forall_expired {p : PlayerRole → Prop} (hdown : ∀ r, p r.down ↔ p r) :
    (∀ v ∈ expired G db, p v) ↔
      ∀ r ∈ db.playersRoles.vals, r.guildId = G.id → r.timeLeft ≤ 1 → p r := by
  constructor
  · intro h r hr hg ht
    exact (hdown r).1 (h _ (mem_expired.2 ⟨r, hr, hg, ht, rfl⟩))
  · intro h v hv
    obtain ⟨r, hr, hg, ht, rfl⟩ := mem_expired.1 hv
    exact (hdown r).2 (h r hr hg ht)

/-- A run of the checker is robust exactly if every guild can be served. -/
theorem role_tick_robust (fold : Char → Char) (guilds : Guilds) (T : Timers) :
    Robust fold guilds T (Sql.run [] (checkExistingRoles fold guilds) T) ↔
      ∀ G ∈ guilds.list, Serviceable fold G T.db.playersRoles := by
  have hcheck : ∀ r T', Sql.run [] (Sql.forEach (checkGuild fold) guilds.list) T = (r, T') →
      r ≠ .error .sql → Sql.run [] (checkExistingRoles fold guilds) T = (r, T') := by
    intro r T' hrun hne
    rw [checkExistingRoles, Sql.run_tryCatch, hrun]
    cases r with
    | ok => rfl
    | error e => cases e with
      | sql => exact absurd rfl hne
      | runtime => rfl
  have hserve : ∀ G, (∀ r ∈ T.db.playersRoles.vals, r.guildId = G.id → r.timeLeft ≤ 1 →
      (roleOf fold G r).isSome ∧ found fold G r = roleOf fold G r) ↔
        ∀ v ∈ expired G T.db, (roleOf fold G v).isSome ∧ found fold G v = roleOf fold G v :=
    fun G => (forall_expired fun _ => Iff.rfl).symm
  by_cases hall : ∀ G ∈ guilds.list, ∀ v ∈ expired G T.db, (found fold G v).isSome
  · rw [hcheck _ _ (run_guilds guilds.nodup hall) (by simp)]
    constructor
    · intro h G hG
      have hroles := (requests_eq_iff hall).1 (List.append_cancel_left h.removed)
      refine ⟨(hserve G).2 fun v hv => ?_, (rows_eq_iff guilds.nodup).1 h.rows G hG⟩
      exact ⟨hroles G hG v hv ▸ hall G hG v hv, hroles G hG v hv⟩
    · intro h
      have hroles : ∀ G ∈ guilds.list, ∀ v ∈ expired G T.db, found fold G v = roleOf fold G v :=
        fun G hG v hv => ((hserve G).1 (h G hG).1 v hv).2
      exact ⟨rfl, (rows_eq_iff guilds.nodup).2 fun G hG => (h G hG).2,
        congrArg _ ((requests_eq_iff hall).2 hroles)⟩
  · have hnone : ∃ G ∈ guilds.list, ∃ v ∈ expired G T.db, found fold G v = none := by
      simpa using hall
    obtain ⟨T', hrun⟩ := run_guilds_none guilds.nodup hnone
    rw [hcheck _ _ hrun (by simp)]
    constructor
    · intro h
      cases h.returns
    · intro h
      obtain ⟨G, hG, v, hv, hno⟩ := hnone
      obtain ⟨hrole, hsame⟩ := (hserve G).1 (h G hG).1 v hv
      rw [← hsame, hno] at hrole
      cases hrole

/-! ### A role that was deleted -/

/-- The roles of two members run out together; that of the first one is no longer there. -/
def orphaned : Timers :=
  timersAfter ([⟨.roleAdd 1 6 [guest], []⟩] ++ List.replicate 8 minute ++ [gives vip, minute])

def withoutGuest : Guilds := ⟨[⟨1, [vip]⟩], by decide⟩

/-- The second member keeps the role. -/
theorem role_tick_stops :
    let r := Sql.run [] (checkExistingRoles Char.toLower withoutGuest) orphaned
    r.1.isOk = false ∧ r.2.removed = [] ∧ ⟨5, "VIP", 0, 1⟩ ∈ r.2.db.playersRoles.vals ∧
      ¬Robust Char.toLower withoutGuest orphaned r := by
  have hthrown : (Sql.run [] (checkExistingRoles Char.toLower withoutGuest) orphaned).1.isOk =
      false := by decide +kernel
  refine ⟨hthrown, by decide +kernel, by decide +kernel, fun h => ?_⟩
  rw [h.returns] at hthrown
  cases hthrown

end AtomComm.LootSplit
