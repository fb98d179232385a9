import AtomComm.Spec.LootSplit.Roles

/-! How long a timed role lasts. A tick counts each guild down and takes away what has run
out; the rows are deleted by member, so a row lasts as long as it should only where the
rows of a member run out together. -/

namespace AtomComm.LootSplit

variable {fold : Char → Char} {G : Guild} {T T' : Timers}

/-! ### One guild -/

/-- A name that comes back from the text of the row. -/
def Clean (roleName : String) : Prop := ¬bars <:+: roleName.toList ∧ roleName ≠ ""

instance (roleName : String) : Decidable (Clean roleName) := inferInstanceAs (Decidable (_ ∧ _))

theorem split_text {r : PlayerRole} (h : Clean r.roleName) :
    ∃ rest, Text.split bars r.text = Text.ofInt r.userId :: r.roleName.toList :: rest := by
  have hname : r.roleName.toList ≠ [] := by
    simpa using h.2
  have hid : Text.Skips bars (Text.ofInt r.userId) (bars ++ r.roleName.toList) :=
    Text.skips_of_not_mem (Text.not_mem_ofInt rfl (by decide))
  have hcut : Text.pieces bars 0 r.text = [Text.ofInt r.userId, r.roleName.toList] := by
    rw [PlayerRole.text, Text.pieces_append (by decide) hid, Text.pieces_whole h.1]
  exact Text.split_two hcut hname

/-- The role that is taken from the member when the row has run out. -/
def roleOf (fold : Char → Char) (G : Guild) (r : PlayerRole) : Option DiscordRole :=
  (getRolesByName fold G r.roleName.toList)[0]?

/-- The role that is looked up for the row, by the second piece of its text. -/
def found (fold : Char → Char) (G : Guild) (r : PlayerRole) : Option DiscordRole :=
  (Text.split bars r.text)[1]?.bind fun name => (getRolesByName fold G name)[0]?

theorem found_eq {r : PlayerRole} (h : Clean r.roleName) : found fold G r = roleOf fold G r := by
  obtain ⟨rest, hs⟩ := split_text h
  rw [found, hs]
  rfl

/-- The member's id comes back from any text, since it is not empty. -/
theorem split_text_head (r : PlayerRole) :
    ∃ rest, Text.split bars r.text = Text.ofInt r.userId :: rest := by
  have hid : Text.Skips bars (Text.ofInt r.userId) (bars ++ r.roleName.toList) :=
    Text.skips_of_not_mem (Text.not_mem_ofInt rfl (by decide))
  have hcut := Text.pieces_append (by decide) hid
  have hlen : (Text.ofInt r.userId :: Text.pieces bars 0 r.roleName.toList).length ≠ 1 := by
    simpa using Text.pieces_ne_nil
  have hkeep := @Text.rdropWhile_append_of_last _ List.isEmpty [Text.ofInt r.userId]
    (Text.pieces bars 0 r.roleName.toList) (by simpa using Text.ofInt_ne_nil r.userId)
  refine ⟨(Text.pieces bars 0 r.roleName.toList).rdropWhile List.isEmpty, ?_⟩
  rw [Text.split, PlayerRole.text, hcut, if_neg hlen]
  exact hkeep

theorem run_removeExpired {r : PlayerRole} {role : DiscordRole}
    (hrole : found fold G r = some role) :
    Sql.run [] (removeExpired fold G r.text) T = (.ok (),
      ⟨removePlayerRole r.userId G.id T.db, T.removed ++ [⟨G.id, r.userId, role⟩],
        T.scheduled⟩) := by
  obtain ⟨rest, hs⟩ := split_text_head r
  obtain ⟨name, hname, hget⟩ := Option.bind_eq_some_iff.1 hrole
  rw [removeExpired, hname, hs]
  simp only [List.getElem?_cons_zero, Option.bind_some, Text.toInt_ofInt, hget]
  rfl

/-- Without a role to take the loop ends in an exception. -/
theorem run_removeExpired_none {r : PlayerRole} (hrole : found fold G r = none) :
    Sql.run [] (removeExpired fold G r.text) T = (.error .runtime, T) := by
  obtain ⟨rest, hs⟩ := split_text_head r
  rw [found] at hrole
  rw [removeExpired]
  cases hname : (Text.split bars r.text)[1]? with
  | none =>
    rw [hs]
    simp
  | some name =>
    rw [hname, Option.bind_some] at hrole
    rw [hs]
    simp [Text.toInt_ofInt, hrole]

def requests (fold : Char → Char) (G : Guild) (rs : List PlayerRole) : List Removal :=
  rs.filterMap fun r => (roleOf fold G r).map fun role => ⟨G.id, r.userId, role⟩

def clear (G : Guild) (rs : List PlayerRole) (db : DB) : DB :=
  { db with
    playersRoles := db.playersRoles.delete fun v =>
      v.guildId = G.id && rs.any fun r => r.userId = v.userId }

theorem clear_cons (r : PlayerRole) (rs : List PlayerRole) (db : DB) :
    clear G rs (removePlayerRole r.userId G.id db) = clear G (r :: rs) db := by
  simp only [clear, removePlayerRole, Table.delete_delete]
  congr 2
  funext v
  by_cases hg : v.guildId = G.id
  · by_cases hu : v.userId = r.userId
    · simp [hg, hu]
    · simp [hg, hu, Ne.symm hu]
  · simp [hg]

/-- The requests that are made, for the roles as they are looked up. -/
def taken (fold : Char → Char) (G : Guild) (rs : List PlayerRole) : List Removal :=
  rs.filterMap fun r => (found fold G r).map fun role => ⟨G.id, r.userId, role⟩

theorem run_removeAll {rs : List PlayerRole} (hroles : ∀ r ∈ rs, (found fold G r).isSome) :
    Sql.run [] (Sql.forEach (removeExpired fold G) (rs.map PlayerRole.text)) T = (.ok (),
      ⟨clear G rs T.db, T.removed ++ taken fold G rs, T.scheduled⟩) := by
  induction rs generalizing T with
  | nil =>
    have hnone : clear G [] T.db = T.db := by
      rw [clear, Table.delete_eq_self (by simp)]
    rw [List.map_nil, Sql.forEach, Sql.run_ret, hnone, taken, List.filterMap_nil,
      List.append_nil]
  | cons r rs ih =>
    obtain ⟨role, hrole⟩ := Option.isSome_iff_exists.1 (hroles r (by simp))
    rw [List.map_cons, Sql.run_forEach_cons (run_removeExpired hrole),
      ih (fun r' hr' => hroles r' (by simp [hr'])), clear_cons]
    simp [taken, hrole]

theorem run_removeAll_none {rs : List PlayerRole} (hroles : ∃ r ∈ rs, found fold G r = none) :
    ∃ T', Sql.run [] (Sql.forEach (removeExpired fold G) (rs.map PlayerRole.text)) T =
      (.error .runtime, T') := by
  induction rs generalizing T with
  | nil => simp at hroles
  | cons r rs ih =>
    rw [List.map_cons]
    cases hrole : found fold G r with
    | none => exact ⟨T, by rw [Sql.forEach, Sql.run_bind, run_removeExpired_none hrole]⟩
    | some role =>
      rw [Sql.run_forEach_cons (run_removeExpired hrole)]
      apply ih
      obtain ⟨r', hr', hno⟩ := hroles
      rcases List.mem_cons.1 hr' with rfl | hr'
      · rw [hrole] at hno
        cases hno
      · exact ⟨r', hr', hno⟩

/-- What runs out at the next tick has a clean name and a role in the guild, and the rows of
a member run out together. -/
def Settled (fold : Char → Char) (G : Guild) (t : Table PlayerRole) : Prop :=
  ∀ r ∈ t.vals, r.guildId = G.id → r.timeLeft ≤ 1 →
    Clean r.roleName ∧ (roleOf fold G r).isSome ∧
      ∀ r' ∈ t.vals, r'.guildId = G.id → r'.userId = r.userId → r'.timeLeft ≤ 1

instance (t : Table PlayerRole) : Decidable (Settled fold G t) :=
  inferInstanceAs (Decidable (∀ r ∈ t.vals, r.guildId = G.id → r.timeLeft ≤ 1 →
    Clean r.roleName ∧ (roleOf fold G r).isSome ∧
      ∀ r' ∈ t.vals, r'.guildId = G.id → r'.userId = r.userId → r'.timeLeft ≤ 1))

def PlayerRole.down (r : PlayerRole) : PlayerRole := { r with timeLeft := r.timeLeft - 1 }

def expired (G : Guild) (db : DB) : List PlayerRole :=
  (decrementTimeLeft G.id db).playersRoles.select fun r => r.timeLeft ≤ 0 && r.guildId = G.id

theorem mem_expired {db : DB} {v : PlayerRole} :
    v ∈ expired G db ↔
      ∃ r ∈ db.playersRoles.vals, r.guildId = G.id ∧ r.timeLeft ≤ 1 ∧ r.down = v := by
  simp only [expired, decrementTimeLeft, Table.select, Table.vals_update, List.mem_filter,
    List.mem_map, Bool.and_eq_true, decide_eq_true_eq]
  constructor
  · rintro ⟨⟨r, hr, rfl⟩, htime, hguild⟩
    by_cases hg : r.guildId = G.id
    · rw [if_pos hg] at htime ⊢
      exact ⟨r, hr, hg, by simpa using htime, rfl⟩
    · rw [if_neg hg] at hguild
      exact absurd hguild hg
  · rintro ⟨r, hr, hg, htime, rfl⟩
    refine ⟨⟨r, hr, if_pos hg⟩, ?_, hg⟩
    show r.timeLeft - 1 ≤ 0
    omega

/-- A row after a tick of the guilds, if it lasts. -/
def lasts (ids : List ℤ) (r : Row PlayerRole) : Option (Row PlayerRole) :=
  if r.val.guildId ∈ ids then
    if r.val.timeLeft ≤ 1 then none else some ⟨r.id, r.val.down⟩
  else some r

theorem lasts_lasts {g : ℤ} {gs : List ℤ} (h : g ∉ gs) (r : Row PlayerRole) :
    (lasts [g] r).bind (lasts gs) = lasts (g :: gs) r := by
  unfold lasts
  by_cases hg : r.val.guildId = g
  · by_cases ht : r.val.timeLeft ≤ 1
    · simp [hg, ht]
    · simp [hg, ht, PlayerRole.down, h]
  · simp [hg]

theorem run_checkGuild (h : ∀ v ∈ expired G T.db, (found fold G v).isSome) :
    Sql.run [] (checkGuild fold G) T = (.ok (),
      ⟨clear G (expired G T.db) (decrementTimeLeft G.id T.db),
        T.removed ++ taken fold G (expired G T.db), T.scheduled⟩) :=
  run_removeAll (T := T.onDb (decrementTimeLeft G.id)) h

theorem found_settled (h : Settled fold G T.db.playersRoles) :
    ∀ v ∈ expired G T.db, found fold G v = roleOf fold G v ∧ (roleOf fold G v).isSome := by
  intro v hv
  obtain ⟨r, hr, hg, ht, rfl⟩ := mem_expired.1 hv
  obtain ⟨hclean, hrole, -⟩ := h r hr hg ht
  exact ⟨found_eq hclean, hrole⟩

theorem run_checkGuild_settled (h : Settled fold G T.db.playersRoles) :
    Sql.run [] (checkGuild fold G) T = (.ok (),
      ⟨clear G (expired G T.db) (decrementTimeLeft G.id T.db),
        T.removed ++ requests fold G (expired G T.db), T.scheduled⟩) := by
  have hsame : taken fold G (expired G T.db) = requests fold G (expired G T.db) := by
    apply List.filterMap_congr
    intro v hv
    rw [(found_settled h v hv).1]
  rw [run_checkGuild fun v hv => (found_settled h v hv).1 ▸ (found_settled h v hv).2, hsame]

/-- The row runs out at the next tick, or another one of its member in the guild does. -/
def doomed (db : DB) (r : PlayerRole) : Bool :=
  db.playersRoles.any fun v => v.guildId = r.guildId && v.userId = r.userId && v.timeLeft ≤ 1

/-- What a tick of the guilds leaves of a row. -/
def survives (ids : List ℤ) (db : DB) (r : Row PlayerRole) : Option (Row PlayerRole) :=
  if r.val.guildId ∈ ids then
    if doomed db r.val then none else some ⟨r.id, r.val.down⟩
  else some r

theorem doomed_iff {db : DB} {r : PlayerRole} : doomed db r = true ↔
    ∃ v ∈ db.playersRoles.vals, v.guildId = r.guildId ∧ v.userId = r.userId ∧ v.timeLeft ≤ 1 := by
  simp [doomed, Table.any_eq_true, and_assoc]

/-- Deleting by member deletes what is doomed. -/
theorem rows_clear (G : Guild) (db : DB) :
    (clear G (expired G db) (decrementTimeLeft G.id db)).playersRoles.rows =
      db.playersRoles.rows.filterMap (survives [G.id] db) := by
  simp only [clear, decrementTimeLeft, Table.rows_delete, Table.rows_update]
  rw [← List.filterMap_eq_filter, List.filterMap_map]
  apply List.filterMap_congr
  intro r _
  by_cases hg : r.val.guildId = G.id
  · have hiff : ((expired G db).any fun v => v.userId = r.val.userId) = doomed db r.val := by
      rw [Bool.eq_iff_iff, doomed_iff, List.any_eq_true]
      constructor
      · rintro ⟨v, hv, hu⟩
        obtain ⟨r', hr', hg', ht', rfl⟩ := mem_expired.1 hv
        exact ⟨r', hr', hg'.trans hg.symm, of_decide_eq_true hu, ht'⟩
      · rintro ⟨r', hr', hg', hu, ht'⟩
        exact ⟨r'.down, mem_expired.2 ⟨r', hr', hg'.trans hg, ht', rfl⟩, decide_eq_true hu⟩
    cases hd : doomed db r.val <;> simp [survives, hg, hiff, hd, PlayerRole.down]
  · simp [survives, hg]

/-- A row that is deleted only if it has run out. -/
theorem survives_eq_lasts {ids : List ℤ} {db : DB} {r : Row PlayerRole}
    (hr : r ∈ db.playersRoles.rows) (h : r.val.guildId ∈ ids → ∀ v ∈ db.playersRoles.vals,
      v.guildId = r.val.guildId → v.userId = r.val.userId → v.timeLeft ≤ 1 → r.val.timeLeft ≤ 1) :
    survives ids db r = lasts ids r := by
  unfold survives lasts
  by_cases hg : r.val.guildId ∈ ids
  · have hiff : doomed db r.val = true ↔ r.val.timeLeft ≤ 1 := by
      rw [doomed_iff]
      constructor
      · rintro ⟨v, hv, hvg, hu, ht⟩
        exact h hg v hv hvg hu ht
      · exact fun ht => ⟨r.val, Table.val_mem hr, rfl, rfl, ht⟩
    by_cases ht : r.val.timeLeft ≤ 1
    · simp [hg, ht, hiff.2 ht]
    · simp [hg, ht, Bool.eq_false_iff.2 (mt hiff.1 ht)]
  · simp [hg]

theorem rows_checkGuild {db : DB} (h : Settled fold G db.playersRoles) :
    (clear G (expired G db) (decrementTimeLeft G.id db)).playersRoles.rows =
      db.playersRoles.rows.filterMap (lasts [G.id]) := by
  rw [rows_clear]
  apply List.filterMap_congr
  intro r hr
  apply survives_eq_lasts hr
  intro hg v hv hvg hu ht
  have hid : r.val.guildId = G.id := List.mem_singleton.1 hg
  exact (h v hv (hvg.trans hid) ht).2.2 r.val (Table.val_mem hr) hid hu.symm

/-! ### All guilds -/

/-- A guild's tick leaves the rows of the others. -/
theorem mem_vals_other {t t' : Table PlayerRole} {v : PlayerRole}
    (hrows : t'.rows = t.rows.filterMap (lasts [G.id])) (hne : v.guildId ≠ G.id) :
    v ∈ t'.vals ↔ v ∈ t.vals := by
  rw [Table.mem_vals, Table.mem_vals, hrows]
  constructor
  · rintro ⟨r, hr, rfl⟩
    obtain ⟨q, hq, hlast⟩ := List.mem_filterMap.1 hr
    by_cases hg : q.val.guildId = G.id
    · rw [lasts, if_pos (List.mem_singleton.2 hg)] at hlast
      split at hlast
      · cases hlast
      · obtain rfl := Option.some.inj hlast
        exact absurd hg hne
    · rw [lasts, if_neg (mt List.mem_singleton.1 hg)] at hlast
      obtain rfl := Option.some.inj hlast
      exact ⟨q, hq, rfl⟩
  · rintro ⟨r, hr, rfl⟩
    refine ⟨r, List.mem_filterMap.2 ⟨r, hr, ?_⟩, rfl⟩
    rw [lasts, if_neg (mt List.mem_singleton.1 hne)]

theorem settled_other {H : Guild} {t t' : Table PlayerRole} (h : Settled fold H t)
    (hne : H.id ≠ G.id) (hrows : t'.rows = t.rows.filterMap (lasts [G.id])) :
    Settled fold H t' := by
  have hmem : ∀ v ∈ t'.vals, v.guildId = H.id → v ∈ t.vals := by
    intro v hv hg
    exact (mem_vals_other hrows (hg.trans_ne hne)).1 hv
  intro v hv hg ht
  obtain ⟨hclean, hrole, hmates⟩ := h v (hmem v hv hg) hg ht
  exact ⟨hclean, hrole, fun v' hv' hg' => hmates v' (hmem v' hv' hg') hg'⟩

/-- The requests of a tick: those of each guild, for what has run out there. -/
def Asks (fold : Char → Char) (gs : List Guild) (t : Table PlayerRole) (rs : List Removal) : Prop :=
  (∀ v ∈ t.vals, ∀ G ∈ gs, v.guildId = G.id → v.timeLeft ≤ 1 →
    ∀ role, roleOf fold G v = some role → ⟨G.id, v.userId, role⟩ ∈ rs) ∧
  ∀ q ∈ rs, q.guildId ∈ gs.map Guild.id ∧
    ∃ v ∈ t.vals, v.guildId = q.guildId ∧ v.userId = q.userId ∧ v.timeLeft ≤ 1

theorem asks_cons {gs : List Guild} {db : DB} {t' : Table PlayerRole} {rs : List Removal}
    (hG : G.id ∉ gs.map Guild.id) (h : Asks fold gs t' rs)
    (hrows : t'.rows = db.playersRoles.rows.filterMap (lasts [G.id])) :
    Asks fold (G :: gs) db.playersRoles (requests fold G (expired G db) ++ rs) := by
  constructor
  · intro v hv H hH hg ht role hrole
    rw [List.mem_append]
    rcases List.mem_cons.1 hH with rfl | hH
    · refine .inl (List.mem_filterMap.2 ⟨v.down, mem_expired.2 ⟨v, hv, hg, ht, rfl⟩, ?_⟩)
      have hdown : roleOf fold H v.down = some role := hrole
      rw [hdown]
      rfl
    · have hne : v.guildId ≠ G.id := by
        intro he
        exact hG (he ▸ hg ▸ List.mem_map_of_mem hH)
      exact .inr (h.1 v ((mem_vals_other hrows hne).2 hv) H hH hg ht role hrole)
  · intro q hq
    rw [List.map_cons, List.mem_cons]
    rcases List.mem_append.1 hq with hq | hq
    · obtain ⟨w, hw, hask⟩ := List.mem_filterMap.1 hq
      obtain ⟨v, hv, hg, ht, rfl⟩ := mem_expired.1 hw
      obtain ⟨role, -, rfl⟩ := Option.map_eq_some_iff.1 hask
      exact ⟨.inl rfl, v, hv, hg, rfl, ht⟩
    · obtain ⟨hids, v, hv, hg, hu, ht⟩ := h.2 q hq
      have hne : v.guildId ≠ G.id := by
        intro he
        exact hG (he ▸ hg ▸ hids)
      exact ⟨.inr hids, v, (mem_vals_other hrows hne).1 hv, hg, hu, ht⟩

theorem run_checkGuilds {gs : List Guild} (hnodup : (gs.map Guild.id).Nodup)
    (h : ∀ G ∈ gs, Settled fold G T.db.playersRoles) :
    ∃ T', Sql.run [] (Sql.forEach (checkGuild fold) gs) T = (.ok (), T') ∧
      T'.scheduled = T.scheduled ∧ T'.db.playersRoles.seq = T.db.playersRoles.seq ∧
      T'.db.playersRoles.rows = T.db.playersRoles.rows.filterMap (lasts (gs.map Guild.id)) ∧
      ∃ rs, T'.removed = T.removed ++ rs ∧ Asks fold gs T.db.playersRoles rs := by
  induction gs generalizing T with
  | nil =>
    have hlast : lasts [] = some := by
      funext r
      simp [lasts]
    refine ⟨T, rfl, rfl, rfl, ?_, [], by simp, by simp, by simp⟩
    rw [List.map_nil, hlast, List.filterMap_some]
  | cons G gs ih =>
    rw [List.map_cons, List.nodup_cons] at hnodup
    have hG := h G (by simp)
    have hrows := rows_checkGuild hG
    obtain ⟨T', hrun, hsched, hseq, hrows', rs, hrem, hasks⟩ := ih
      (T := ⟨clear G (expired G T.db) (decrementTimeLeft G.id T.db),
        T.removed ++ requests fold G (expired G T.db), T.scheduled⟩) hnodup.2 (by
      intro H hH
      refine settled_other (h H (by simp [hH])) ?_ hrows
      rintro he
      exact hnodup.1 (he ▸ List.mem_map_of_mem hH))
    refine ⟨T', ?_, hsched, hseq, ?_, _, ?_, asks_cons hnodup.1 hasks hrows⟩
    · rw [Sql.run_forEach_cons (run_checkGuild_settled hG), hrun]
    · rw [hrows', hrows, List.filterMap_filterMap, List.map_cons]
      congr 1
      funext r
      exact lasts_lasts hnodup.1 r
    · rw [hrem, List.append_assoc]

/-! ### One event -/

/-- At most rows for the event's member, guild and first role are added. -/
structure Adds (g u : ℤ) (roles : List DiscordRole) (T T' : Timers) : Prop where
  scheduled : T'.scheduled = T.scheduled
  removed : T'.removed = T.removed
  seq : T.db.playersRoles.seq ≤ T'.db.playersRoles.seq
  rows : ∃ added, T'.db.playersRoles.rows = T.db.playersRoles.rows ++ added ∧
    ∀ r ∈ added, T.db.playersRoles.seq < r.id ∧
      ∃ role d, roles.head? = some role ∧ r.val = ⟨u, role.name, d, g⟩

variable {g u : ℤ} {roles : List DiscordRole}

theorem Adds.refl (T : Timers) : Adds g u roles T T :=
  ⟨rfl, rfl, Nat.le_refl _, [], by simp, by simp⟩

theorem Adds.trans {T₁ T₂ T₃ : Timers} (h : Adds g u roles T₁ T₂) (h' : Adds g u roles T₂ T₃) :
    Adds g u roles T₁ T₃ := by
  obtain ⟨xs, hxs, hnew⟩ := h.rows
  obtain ⟨ys, hys, hnew'⟩ := h'.rows
  refine ⟨h'.scheduled.trans h.scheduled, h'.removed.trans h.removed, h.seq.trans h'.seq,
    xs ++ ys, by rw [hys, hxs, List.append_assoc], ?_⟩
  intro r hr
  rcases List.mem_append.1 hr with hr | hr
  · exact hnew r hr
  · exact ⟨lt_of_le_of_lt h.seq (hnew' r hr).1, (hnew' r hr).2⟩

theorem adds_give (role : DiscordRole) (others : List DiscordRole) (d : ℤ) (T : Timers) :
    Adds g u (role :: others) T (T.onDb (givePlayerRole u g role.name d)) := by
  refine ⟨rfl, rfl, Nat.le_succ _, [⟨T.db.playersRoles.seq + 1, ⟨u, role.name, d, g⟩⟩], rfl, ?_⟩
  intro r hr
  obtain rfl := List.mem_singleton.1 hr
  exact ⟨Nat.lt_succ_self _, role, d, rfl, rfl⟩

theorem within_roleAdd :
    (onGuildMemberRoleAdd g u roles).Within (fun _ => True) (Adds g u roles) := by
  have hrefl : ∀ T, Adds g u roles T T := Adds.refl
  cases roles with
  | nil => trivial
  | cons role others =>
    refine Sql.within_tryCatch ?_ fun _ => trivial
    refine Sql.within_bind (Sql.within_query hrefl _) fun known => ?_
    cases known with
    | false => trivial
    | true =>
      refine Sql.within_bind (Sql.within_query hrefl _) fun d => ?_
      exact Sql.within_exec fun T _ => ⟨trivial, adds_give role others d T⟩

theorem roleAdd_effect {a : RoleInput} (h : roleStep fold a T = some T')
    (ha : a.action = .roleAdd g u roles) : Adds g u roles T T' := by
  unfold roleStep at h
  rw [ha] at h
  obtain rfl := Option.some.inj h
  exact (within_roleAdd.run Adds.refl (fun _ _ _ => Adds.trans) a.faults trivial).2

/-- No statement of a tick throws, and its guilds are settled. -/
def Punctual (fold : Char → Char) (e : Event RoleInput Timers) : Prop :=
  ∀ guilds, e.input.action = .tick guilds → (∀ f ∈ e.input.faults, f = false) ∧
    ∀ G ∈ guilds.list, Settled fold G e.before.db.playersRoles

theorem tick_effect {e : Event RoleInput Timers} {guilds : Guilds}
    (h : roleStep fold e.input e.before = some e.after) (he : e.input.action = .tick guilds)
    (hp : Punctual fold e) (hs : e.before.scheduled = true) :
    e.after.scheduled = true ∧ e.after.db.playersRoles.seq = e.before.db.playersRoles.seq ∧
      e.after.db.playersRoles.rows =
        e.before.db.playersRoles.rows.filterMap (lasts (guilds.list.map Guild.id)) ∧
      ∃ rs, e.after.removed = e.before.removed ++ rs ∧
        Asks fold guilds.list e.before.db.playersRoles rs := by
  obtain ⟨hquiet, hsettled⟩ := hp guilds he
  obtain ⟨T', hrun, hsched, hrest⟩ := run_checkGuilds guilds.nodup hsettled
  have hcheck : Sql.run e.input.faults (checkExistingRoles fold guilds) e.before = (.ok (), T') := by
    rw [Sql.run_quiet hquiet, checkExistingRoles, Sql.run_tryCatch, hrun]
  unfold roleStep at h
  rw [he] at h
  simp only [hs, if_true, hcheck] at h
  obtain rfl := Option.some.inj h
  exact ⟨hsched.trans hs, hrest⟩

/-! ### A row through a run -/

/-- The event is a tick of the guild. -/
def ticked (g : ℤ) (e : Event RoleInput Timers) : Bool :=
  match e.input.action with
  | .tick guilds => guilds.list.any fun G => G.id = g
  | .roleAdd .. => false

def ticks (g : ℤ) (es : List (Event RoleInput Timers)) : ℕ := es.countP (ticked g)

/-- The row is the one that was inserted as `r`, `k` ticks ago, or it is gone. -/
structure Tracked (r : Row PlayerRole) (k : ℕ) (T : Timers) : Prop where
  scheduled : T.scheduled = true
  seq : r.id ≤ T.db.playersRoles.seq
  lasts : k < max 1 r.val.timeLeft →
    ⟨r.id, { r.val with timeLeft := r.val.timeLeft - k }⟩ ∈ T.db.playersRoles.rows
  gone : max 1 r.val.timeLeft ≤ k → ∀ q ∈ T.db.playersRoles.rows, q.id ≠ r.id

variable {r : Row PlayerRole} {k : ℕ} {e : Event RoleInput Timers}

theorem ticked_iff {guilds : Guilds} (he : e.input.action = .tick guilds) :
    ticked g e = true ↔ g ∈ guilds.list.map Guild.id := by
  rw [ticked, he, List.any_eq_true, List.mem_map]
  exact exists_congr fun G => and_congr_right fun _ => decide_eq_true_iff

theorem tracked_roleAdd (h : Tracked r k T) (hadds : Adds g u roles T T') : Tracked r k T' := by
  obtain ⟨added, hrows, hnew⟩ := hadds.rows
  refine ⟨hadds.scheduled.trans h.scheduled, h.seq.trans hadds.seq, ?_, ?_⟩
  · intro hk
    rw [hrows]
    exact List.mem_append_left added (h.lasts hk)
  · intro hk q hq
    rw [hrows] at hq
    rcases List.mem_append.1 hq with hq | hq
    · exact h.gone hk q hq
    · have hlt := (hnew q hq).1
      have hle := h.seq
      omega

theorem lasts_id {ids : List ℤ} {p q : Row PlayerRole} (h : lasts ids p = some q) :
    q.id = p.id := by
  unfold lasts at h
  split at h
  · split at h
    · cases h
    · obtain rfl := Option.some.inj h
      rfl
  · obtain rfl := Option.some.inj h
    rfl

section Tick
variable {ids : List ℤ} (h : Tracked r k T) (hs : T'.scheduled = true)
  (hseq : T'.db.playersRoles.seq = T.db.playersRoles.seq)
  (hrows : T'.db.playersRoles.rows = T.db.playersRoles.rows.filterMap (lasts ids))
include h hs hseq hrows

theorem tracked_other (hg : r.val.guildId ∉ ids) : Tracked r k T' := by
  refine ⟨hs, hseq ▸ h.seq, ?_, ?_⟩
  · intro hk
    rw [hrows, List.mem_filterMap]
    exact ⟨_, h.lasts hk, if_neg hg⟩
  · intro hk q hq
    rw [hrows, List.mem_filterMap] at hq
    obtain ⟨p, hp, hlast⟩ := hq
    rw [lasts_id hlast]
    exact h.gone hk p hp

theorem tracked_own (hg : r.val.guildId ∈ ids) : Tracked r (k + 1) T' := by
  refine ⟨hs, hseq ▸ h.seq, ?_, ?_⟩
  · intro hk
    rw [hrows, List.mem_filterMap]
    refine ⟨_, h.lasts (by omega), ?_⟩
    have hmore : ¬r.val.timeLeft - k ≤ 1 := by omega
    have htime : r.val.timeLeft - k - 1 = r.val.timeLeft - (k + 1 : ℕ) := by omega
    rw [lasts, if_pos hg, if_neg hmore, PlayerRole.down, htime]
  · intro hk q hq hid
    rw [hrows, List.mem_filterMap] at hq
    obtain ⟨p, hp, hlast⟩ := hq
    rw [lasts_id hlast] at hid
    by_cases hgone : max 1 r.val.timeLeft ≤ k
    · exact h.gone hgone p hp hid
    · obtain rfl := Table.id_inj hp (h.lasts (by omega)) hid
      have hless : r.val.timeLeft - k ≤ 1 := by omega
      rw [lasts, if_pos hg, if_pos hless] at hlast
      cases hlast

end Tick

theorem tracked_step (h : Tracked r k e.before) (hp : Punctual fold e)
    (hstep : roleStep fold e.input e.before = some e.after) :
    Tracked r (k + ticks r.val.guildId [e]) e.after := by
  cases ha : e.input.action with
  | roleAdd g u roles =>
    have hno : ticks r.val.guildId [e] = 0 := by simp [ticks, ticked, ha]
    rw [hno]
    exact tracked_roleAdd h (roleAdd_effect hstep ha)
  | tick guilds =>
    obtain ⟨hs, hseq, hrows, -⟩ := tick_effect hstep ha hp h.scheduled
    by_cases hg : r.val.guildId ∈ guilds.list.map Guild.id
    · have hone : ticks r.val.guildId [e] = 1 := by
        simp [ticks, (ticked_iff ha).2 hg]
      rw [hone]
      exact tracked_own h hs hseq hrows hg
    · have hno : ticks r.val.guildId [e] = 0 := by
        simp [ticks, mt (ticked_iff ha).1 hg]
      rw [hno]
      exact tracked_other h hs hseq hrows hg

theorem tracked_run {es : List (Event RoleInput Timers)} (hrun : Run (roleStep fold) T es T')
    (h : Tracked r k T) (hC : ∀ e ∈ es, Punctual fold e) :
    Tracked r (k + ticks r.val.guildId es) T' := by
  induction es generalizing T k with
  | nil =>
    obtain rfl := hrun
    exact h
  | cons e es ih =>
    obtain ⟨rfl, hstep, hrest⟩ := hrun
    have hnext := ih hrest (tracked_step h (hC e (by simp)) hstep) fun e' he' => hC e' (by simp [he'])
    have hsum : ticks r.val.guildId (e :: es) = ticks r.val.guildId [e] + ticks r.val.guildId es := by
      rw [ticks, ticks, ticks, ← List.countP_append, List.singleton_append]
    rwa [hsum, ← Nat.add_assoc]

theorem scheduled_run {es : List (Event RoleInput Timers)} (hrun : Run (roleStep fold) T es T')
    (h : T.scheduled = true) (hC : ∀ e ∈ es, Punctual fold e) : T'.scheduled = true := by
  refine hrun.invariant (I := fun T => T.scheduled = true) h ?_ hC
  intro e hp hstep hs
  cases ha : e.input.action with
  | roleAdd g u roles => exact (roleAdd_effect hstep ha).scheduled.trans hs
  | tick guilds => exact (tick_effect hstep ha hp hs).1

/-- The requests that an event makes. -/
def asked (e : Event RoleInput Timers) : List Removal :=
  e.after.removed.drop e.before.removed.length

theorem asked_eq {rs : List Removal} (h : e.after.removed = e.before.removed ++ rs) :
    asked e = rs := by
  rw [asked, h, List.drop_left]

/-- When the row runs out its role is taken from the member; until then no role of the
member is, in that guild. -/
theorem asked_step (h : Tracked r k e.before) (hp : Punctual fold e)
    (hstep : roleStep fold e.input e.before = some e.after) :
    (∀ guilds, e.input.action = .tick guilds → ∀ G ∈ guilds.list, G.id = r.val.guildId →
      ∀ role, roleOf fold G r.val = some role → (k + 1 : ℤ) = max 1 r.val.timeLeft →
        ⟨r.val.guildId, r.val.userId, role⟩ ∈ asked e) ∧
    ((k + 1 : ℤ) < max 1 r.val.timeLeft →
      ∀ q ∈ asked e, ¬(q.guildId = r.val.guildId ∧ q.userId = r.val.userId)) := by
  cases ha : e.input.action with
  | roleAdd g u roles =>
    have hnone : asked e = [] := by
      apply asked_eq
      rw [(roleAdd_effect hstep ha).removed, List.append_nil]
    refine ⟨fun guilds he => (by cases he), fun _ q hq => ?_⟩
    rw [hnone] at hq
    cases hq
  | tick guilds =>
    obtain ⟨-, -, -, rs, hrem, hown, hback⟩ := tick_effect hstep ha hp h.scheduled
    rw [asked_eq hrem]
    constructor
    · intro guilds' he G hG hg role hrole hk
      obtain rfl := RoleAction.tick.inj he
      have hrow := Table.val_mem (h.lasts (by omega))
      have hless : r.val.timeLeft - k ≤ 1 := by omega
      have hask := hown _ hrow G hG hg.symm hless role hrole
      rwa [hg] at hask
    · rintro hk q hq ⟨hg, hu⟩
      obtain ⟨hids, v, hv, hvg, hvu, hvt⟩ := hback q hq
      obtain ⟨G, hG, hGg⟩ := List.mem_map.1 hids
      obtain ⟨-, -, hmates⟩ := (hp guilds ha).2 G hG v hv (hvg.trans hGg.symm) hvt
      have hrow := Table.val_mem (h.lasts (by omega))
      have hless : r.val.timeLeft - k ≤ 1 :=
        hmates _ hrow (hg.symm.trans hGg.symm) (hu.symm.trans hvu.symm)
      omega

def Lives (n : ℕ) (T : Timers) : Prop := ∃ q ∈ T.db.playersRoles.rows, q.id = n

/-- The guild still has the role, and has no other of that name before it. -/
def Foremost (fold : Char → Char) (g : ℤ) (role : DiscordRole) (e : Event RoleInput Timers) :
    Prop :=
  ∀ guilds, e.input.action = .tick guilds → ∀ G ∈ guilds.list, G.id = g →
    (getRolesByName fold G role.name.toList)[0]? = some role

/-- A row inserted for a role that was added: when it goes, and when the role does. -/
theorem timed_role (fold : Char → Char) (db : DB) (xs ys : List (Event RoleInput Timers))
    (e : Event RoleInput Timers) (T : Timers) (g u : ℤ) (role : DiscordRole)
    (others : List DiscordRole) (r : Row PlayerRole)
    (hrun : Run (roleStep fold) ⟨db, [], true⟩ (xs ++ e :: ys) T)
    (hadd : e.input.action = .roleAdd g u (role :: others))
    (hold : r ∉ e.before.db.playersRoles.rows) (hnew : r ∈ e.after.db.playersRoles.rows)
    (hC : ∀ e' ∈ xs ++ e :: ys, Punctual fold e') (hrole : ∀ e' ∈ ys, Foremost fold g role e') :
    r.val.userId = u ∧ r.val.roleName = role.name ∧ r.val.guildId = g ∧
      ∀ as e' bs, ys = as ++ e' :: bs →
        (Lives r.id e'.after ↔ (ticks g (as ++ [e']) : ℤ) < max 1 r.val.timeLeft) ∧
        (ticked g e' = true → (ticks g as + 1 : ℤ) = max 1 r.val.timeLeft →
          ⟨g, u, role⟩ ∈ asked e') ∧
        ((ticks g as + 1 : ℤ) < max 1 r.val.timeLeft →
          ∀ q ∈ asked e', ¬(q.guildId = g ∧ q.userId = u)) := by
  obtain ⟨hbefore, hstep, hrest⟩ := hrun.split
  have hs : e.before.scheduled = true :=
    scheduled_run hbefore rfl fun e' he' => hC e' (List.mem_append_left _ he')
  have hadds := roleAdd_effect hstep hadd
  obtain ⟨added, hrows, hadded⟩ := hadds.rows
  have hmem : r ∈ added := by
    rw [hrows] at hnew
    exact (List.mem_append.1 hnew).resolve_left hold
  obtain ⟨-, role', d, hhead, hval⟩ := hadded r hmem
  obtain rfl := Option.some.inj hhead
  have hg : r.val.guildId = g := by rw [hval]
  have hu : r.val.userId = u := by rw [hval]
  have hname : r.val.roleName = role.name := by rw [hval]
  refine ⟨hu, hname, hg, ?_⟩
  have hstart : Tracked r 0 e.after := by
    refine ⟨hadds.scheduled.trans hs, e.after.db.playersRoles.bounded r hnew, fun _ => ?_, ?_⟩
    · simpa using hnew
    · intro hk
      omega
  rintro as e' bs rfl
  obtain ⟨has, hstep', -⟩ := hrest.split
  have hC' : ∀ e'' ∈ as ++ e' :: bs, Punctual fold e'' := fun e'' he'' => hC e'' (by simp [he''])
  have hp : Punctual fold e' := hC' e' (by simp)
  have htrack := tracked_run has hstart fun e'' he'' => hC' e'' (by simp [he''])
  have hafter := tracked_step htrack hp hstep'
  obtain ⟨hasked, hearly⟩ := asked_step htrack hp hstep'
  rw [Nat.zero_add, hg] at htrack hafter hasked hearly
  rw [hu] at hasked hearly
  have hsum : ticks g (as ++ [e']) = ticks g as + ticks g [e'] := List.countP_append
  refine ⟨?_, ?_, hearly⟩
  · rw [hsum]
    constructor
    · rintro ⟨q, hq, hid⟩
      by_contra hk
      exact hafter.gone (by omega) q hq hid
    · intro hk
      exact ⟨_, hafter.lasts (by omega), rfl⟩
  · intro ht hk
    cases ha : e'.input.action with
    | roleAdd => simp [ticked, ha] at ht
    | tick guilds =>
      obtain ⟨G, hG, hGg⟩ := List.mem_map.1 ((ticked_iff ha).1 ht)
      refine hasked guilds ha G hG hGg role ?_ hk
      rw [roleOf, hname]
      exact hrole e' (by simp) guilds ha G hG hGg

/-! ### A guild with two timed roles -/

def vip : DiscordRole := ⟨7, "VIP"⟩

def guest : DiscordRole := ⟨8, "Guest"⟩

def home : Guilds := ⟨[⟨1, [vip, guest]⟩], by decide⟩

/-- One role lasts two minutes, the other ten. -/
def configured : Timers :=
  ⟨addNewRole "Guest" 10 1 (addNewRole "VIP" 2 1 DB.empty), [], true⟩

def gives (role : DiscordRole) : RoleInput := ⟨.roleAdd 1 5 [role], []⟩

def minute : RoleInput := ⟨.tick home, []⟩

def timersAfter (as : List RoleInput) : Timers :=
  final configured (trace (roleStep Char.toLower) configured as)

theorem minute_punctual {T T' : Timers}
    (h : ∀ G ∈ home.list, Settled Char.toLower G T.db.playersRoles) :
    Punctual Char.toLower ⟨minute, T, T'⟩ := by
  intro guilds he
  obtain rfl := RoleAction.tick.inj he
  exact ⟨fun f hf => (by cases hf), h⟩

theorem gives_punctual (role : DiscordRole) (T T' : Timers) :
    Punctual Char.toLower ⟨gives role, T, T'⟩ := by
  intro guilds he
  cases he

theorem minute_foremost {role : DiscordRole} (hrole : role = vip ∨ role = guest)
    (T T' : Timers) : Foremost Char.toLower 1 role ⟨minute, T, T'⟩ := by
  intro guilds he G hG hg
  obtain rfl := RoleAction.tick.inj he
  obtain rfl := List.mem_singleton.1 hG
  rcases hrole with rfl | rfl <;> decide +kernel

theorem timed_role_twoMinutes :
    Lives 1 (timersAfter [gives vip, minute]) ∧
      ¬Lives 1 (timersAfter [gives vip, minute, minute]) ∧
      ⟨1, 5, vip⟩ ∈ asked ⟨minute, timersAfter [gives vip, minute],
        timersAfter [gives vip, minute, minute]⟩ := by
  have hlife := timed_role Char.toLower configured.db []
    [⟨minute, timersAfter [gives vip], timersAfter [gives vip, minute]⟩,
      ⟨minute, timersAfter [gives vip, minute], timersAfter [gives vip, minute, minute]⟩]
    ⟨gives vip, configured, timersAfter [gives vip]⟩ (timersAfter [gives vip, minute, minute])
    1 5 vip [] ⟨1, ⟨5, "VIP", 2, 1⟩⟩
    ⟨rfl, by decide +kernel, rfl, by decide +kernel, rfl, by decide +kernel, rfl⟩ rfl
    (by decide +kernel) (by decide +kernel) (by
      intro e he
      simp only [List.nil_append, List.mem_cons, List.not_mem_nil, or_false] at he
      rcases he with rfl | rfl | rfl
      · exact gives_punctual vip _ _
      · exact minute_punctual (by decide +kernel)
      · exact minute_punctual (by decide +kernel)) (by
      intro e he
      simp only [List.mem_cons, List.not_mem_nil, or_false] at he
      rcases he with rfl | rfl
      · exact minute_foremost (.inl rfl) _ _
      · exact minute_foremost (.inl rfl) _ _)
  obtain ⟨-, -, -, hat⟩ := hlife
  have hone := hat [] _ _ rfl
  have htwo := hat [_] _ [] rfl
  refine ⟨hone.1.2 (by decide +kernel), fun hlives => ?_, htwo.2.1 (by decide +kernel) (by decide +kernel)⟩
  exact absurd (htwo.1.1 hlives) (by decide +kernel)

/-- The member's other role goes with the first one, eight minutes early. -/
theorem timed_role_cut_short : ∃ xs e ys T r,
    Run (roleStep Char.toLower) configured (xs ++ e :: ys) T ∧
      e.input.action = .roleAdd 1 5 [guest] ∧ r ∉ e.before.db.playersRoles.rows ∧
      r ∈ e.after.db.playersRoles.rows ∧ (∀ e' ∈ xs ++ e :: ys, e'.input.faults = []) ∧
      (∀ e' ∈ ys, Foremost Char.toLower 1 guest e' ∧ Foremost Char.toLower 1 vip e') ∧
      (ticks 1 ys : ℤ) < max 1 r.val.timeLeft ∧ ¬Lives r.id T := by
  refine ⟨[⟨gives vip, configured, timersAfter [gives vip]⟩],
    ⟨gives guest, timersAfter [gives vip], timersAfter [gives vip, gives guest]⟩,
    [⟨minute, timersAfter [gives vip, gives guest], timersAfter [gives vip, gives guest, minute]⟩,
      ⟨minute, timersAfter [gives vip, gives guest, minute],
        timersAfter [gives vip, gives guest, minute, minute]⟩],
    timersAfter [gives vip, gives guest, minute, minute], ⟨2, ⟨5, "Guest", 10, 1⟩⟩,
    ⟨rfl, by decide +kernel, rfl, by decide +kernel, rfl, by decide +kernel, rfl,
      by decide +kernel, rfl⟩, rfl, by decide +kernel, by decide +kernel, ?_, ?_,
    by decide +kernel, ?_⟩
  · simp [gives, minute]
  · intro e he
    simp only [List.mem_cons, List.not_mem_nil, or_false] at he
    rcases he with rfl | rfl
    · exact ⟨minute_foremost (.inr rfl) _ _, minute_foremost (.inl rfl) _ _⟩
    · exact ⟨minute_foremost (.inr rfl) _ _, minute_foremost (.inl rfl) _ _⟩
  · rintro ⟨q, hq, hid⟩
    have hnone : (timersAfter [gives vip, gives guest, minute, minute]).db.playersRoles.rows = [] := by
      decide +kernel
    rw [hnone] at hq
    cases hq

end AtomComm.LootSplit
