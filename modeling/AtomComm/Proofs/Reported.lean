import AtomComm.Proofs.Registration

/-! What a command that reports success has done. The guards match a name in any case and in
any guild, the updates after them match it exactly, or in the guild; none of the commands
looks at how many rows its update has changed. -/

namespace AtomComm.LootSplit

/-- The answer to a command that has got through. -/
def successReply (u : User) : Command → Option Reply
  | .add w _ => some (sendPlayerAddedToLootSplit w)
  | .removePlayer w => some (sendPlayerRemovedFromLootSplit w)
  | .register w user => some (sendUserRegisteredSuccessfullyMessage w (u.id == user.getD u.id))
  | .unregister w user => some (sendUserUnregisteredSuccessfullyMessage w (u.id == user.getD u.id))
  | _ => none

/-- A member of the split goes by the name, in some spelling. -/
def HasMember (db : DB) (splitId w : String) : Prop :=
  ∃ m ∈ db.lootsplitPlayers.vals, m.splitId = splitId ∧ LOWER m.username = LOWER w

instance (db : DB) (splitId w : String) : Decidable (HasMember db splitId w) :=
  inferInstanceAs (Decidable (∃ m ∈ db.lootsplitPlayers.vals, _))

/-- What the answer says about the database. -/
def Real (g : ℤ) (u : User) : Command → DB → Prop
  | .add w _, db => ∃ s ∈ getLootSplitId db g, HasMember db s w
  | .removePlayer w, db => ∀ s ∈ getLootSplitId db g, ¬HasMember db s w
  | .register _ user, db => isUserRegistered db (user.getD u.id) = true
  | .unregister _ user, db => isUserRegistered db (user.getD u.id) = false
  | _, _ => True

/-- The update of the command matches the rows that its answer is about. -/
def Meets (g : ℤ) (u : User) : Command → DB → Prop
  | .add w _, db => (∃ s ∈ getLootSplitId db g, HasMember db s w) ∨
      ∃ r ∈ db.players.vals, LOWER r.username = LOWER w ∧ r.guildId = g
  | .removePlayer w, db => ∀ s ∈ getLootSplitId db g, ∀ m ∈ db.lootsplitPlayers.vals,
      m.splitId = s → LOWER m.username = LOWER w → m.username = w
  | .register w _, db => ∃ r ∈ db.players.vals, r.username = w
  | .unregister w user, db => ∀ r ∈ db.players.vals, r.userId = some (user.getD u.id) →
      r.username = w
  | _, _ => True

section Updates
variable {db db' : DB} {g : ℤ} {u : User} {w uploadId splitId : String} {user : Option ℤ}

theorem getLootSplitId_of_active (h : isThereActiveSession db g = true) :
    ∃ s, getLootSplitId db g = some s := by
  obtain ⟨r, hr, hp⟩ := Table.count_pos.1 (of_decide_eq_true h)
  obtain ⟨q, hq⟩ := Table.first_isSome_of_mem (p := fun r => r.guildId = g && r.status = .active)
    hr (by simpa [and_comm] using hp)
  exact ⟨q.splitId, congrArg (Option.map Session.splitId) hq⟩

/-- The insert finds a member there, or a player of the guild to add. -/
theorem hasMember_add (h : addPlayerToLootSplit (some splitId) uploadId w g db = some db') :
    db'.lootsplitSessions = db.lootsplitSessions ∧ (HasMember db' splitId w ↔
      HasMember db splitId w ∨
        ∃ r ∈ db.players.vals, LOWER r.username = LOWER w ∧ r.guildId = g) := by
  have hmember : (db.lootsplitPlayers.any fun r =>
      some r.splitId = some splitId && LOWER r.username = LOWER w) = true ↔
        HasMember db splitId w := by
    simp [HasMember, Table.any_eq_true]
  have hlisted : (db.players.any fun r => LOWER r.username = LOWER w && r.guildId = g) = true ↔
      ∃ r ∈ db.players.vals, LOWER r.username = LOWER w ∧ r.guildId = g := by
    simp [Table.any_eq_true]
  unfold addPlayerToLootSplit at h
  split at h
  · rename_i hkept
    cases h
    rw [Bool.or_eq_true, hmember, Bool.not_eq_true'] at hkept
    refine ⟨rfl, ?_⟩
    rcases hkept with hin | hout
    · simp [hin]
    · rw [← hlisted, hout]
      simp
  · rename_i hnew
    rw [Bool.or_eq_true, not_or, Bool.not_eq_true', Bool.not_eq_false] at hnew
    cases h
    refine ⟨rfl, iff_of_true ?_ (.inr (hlisted.1 hnew.2))⟩
    exact ⟨⟨splitId, uploadId, w, .fin 0, false, g⟩, by simp, rfl, rfl⟩

/-- What the delete leaves of the name is spelled another way. -/
theorem hasMember_remove : HasMember (removePlayerFromLootSplit (some splitId) w db) splitId w ↔
    ∃ m ∈ db.lootsplitPlayers.vals, m.splitId = splitId ∧ LOWER m.username = LOWER w ∧
      m.username ≠ w := by
  simp only [HasMember, removePlayerFromLootSplit, Table.vals_delete, List.mem_filter]
  constructor
  · rintro ⟨m, ⟨hm, hkeep⟩, hs, hw⟩
    exact ⟨m, hm, hs, hw, by simpa [hs] using hkeep⟩
  · rintro ⟨m, hm, hs, hw, hother⟩
    exact ⟨m, ⟨hm, by simp [hs, hother]⟩, hs, hw⟩

/-- A user with rows is registered, as each of them says. -/
theorem isUserRegistered_iff {v : ℤ} (h : OneToOne db.players) :
    isUserRegistered db v = true ↔ ∃ r ∈ db.players.vals, r.userId = some v := by
  constructor
  · intro hyes
    unfold isUserRegistered at hyes
    split at hyes
    · rename_i r hr
      obtain ⟨hm, hid⟩ := Table.first_mem hr
      exact ⟨r, hm, of_decide_eq_true hid⟩
    · cases hyes
  · rintro ⟨r, hr, hid⟩
    by_contra hno
    exact hasNoRow_of_unregistered h (by simpa using hno) r hr hid

theorem registered_register {v : ℤ} (h : OneToOne db.players)
    (hno : isUserRegistered db v = false) :
    isUserRegistered (registerTheUser w v db) v = true ↔ ∃ r ∈ db.players.vals, r.username = w := by
  have hrow := hasNoRow_of_unregistered h hno
  have hafter : OneToOne (registerTheUser w v db).players := h.register hrow
  rw [isUserRegistered_iff hafter, registerTheUser, Table.vals_update]
  constructor
  · rintro ⟨r, hr, hid⟩
    obtain ⟨q, hq, rfl⟩ := List.mem_map.1 hr
    by_cases hw : q.username = w
    · exact ⟨q, hq, hw⟩
    · exact absurd (by simpa [hw] using hid) (hrow q hq)
  · rintro ⟨r, hr, hw⟩
    exact ⟨_, List.mem_map_of_mem hr, by simp [hw]⟩

theorem unregistered_unregister {v : ℤ} (h : OneToOne (unregisterTheUser w v db).players) :
    isUserRegistered (unregisterTheUser w v db) v = false ↔
      ∀ r ∈ db.players.vals, r.userId = some v → r.username = w := by
  rw [← Bool.not_eq_true, isUserRegistered_iff h, unregisterTheUser, Table.vals_update]
  constructor
  · intro hnone r hr hid
    by_contra hw
    exact hnone ⟨r, List.mem_map.2 ⟨r, hr, by simp [hw]⟩, hid⟩
  · rintro hall ⟨r, hr, hid⟩
    obtain ⟨q, hq, rfl⟩ := List.mem_map.1 hr
    split at hid
    · cases hid
    · rename_i hother
      exact hother (by simp [hall q hq hid, hid])

end Updates

section Commands
variable {env : Env} {g : ℤ} {u : User} {w uploadId : String} {user : Option ℤ} {b : Bot}

/-- Run alone, the program gives another answer or leaves `A`. -/
abbrev Reports (r : Reply) (A : Bot → Prop) (p : Cmd Reply) (b : Bot) : Prop :=
  p.Ok Sql.solo (fun r' t => r' = r → A t) (fun _ _ => True) b

theorem reports_other {title title' text text' : String} {A : Bot → Prop}
    (h : title' ≠ title) :
    Reports (.embed title text) A (.ret (.embed title' text')) b :=
  Sql.solo_ret fun he => absurd (Reply.embed.inj he).1 h

theorem add_reports : Reports (sendPlayerAddedToLootSplit w)
    (fun t => ∃ s, getLootSplitId b.db g = some s ∧
      addPlayerToLootSplit (some s) uploadId w g b.db = some t.db)
    (execute env g u (.add w uploadId)) b := by
  show Reports _ _ (requireRole env u (lootSplitAddCommand env g w uploadId)) b
  unfold requireRole lootSplitAddCommand
  split
  · exact reports_other (by decide)
  refine Sql.solo_query_bind (Sql.solo_query_bind ?_ trivial) trivial
  split
  · exact reports_other (by decide)
  rename_i hact
  refine Sql.solo_query_bind ?_ trivial
  split
  · exact reports_other (by decide)
  obtain ⟨s, hs⟩ := getLootSplitId_of_active (by simpa using hact)
  refine Sql.solo_attempt_bind (fun t ht => Sql.solo_ret fun _ => ?_) trivial
  obtain ⟨db, hdb, rfl⟩ := Option.map_eq_some_iff.1 ht
  exact ⟨s, hs, hs ▸ hdb⟩

theorem remove_reports : Reports (sendPlayerRemovedFromLootSplit w)
    (fun t => t.db = removePlayerFromLootSplit (getLootSplitId b.db g) w b.db)
    (execute env g u (.removePlayer w)) b := by
  show Reports _ _ (requireRole env u (lootSplitRemoveCommand env g w)) b
  unfold requireRole lootSplitRemoveCommand
  split
  · exact reports_other (by decide)
  refine Sql.solo_query_bind (Sql.solo_query_bind ?_ trivial) trivial
  split
  · exact reports_other (by decide)
  refine Sql.solo_query_bind ?_ trivial
  split
  · exact reports_other (by decide)
  · exact Sql.solo_exec_bind (Sql.solo_ret fun _ => rfl) trivial

theorem register_reports : Reports
    (sendUserRegisteredSuccessfullyMessage w (u.id == user.getD u.id))
    (fun t => isUserRegistered b.db (user.getD u.id) = false ∧
      t.db = registerTheUser w (user.getD u.id) b.db)
    (execute env g u (.register w user)) b := by
  show Reports _ _ (registerCommand env u w user) b
  unfold registerCommand
  dsimp only
  split
  · exact reports_other (by decide)
  refine Sql.solo_query_bind ?_ trivial
  split
  · exact reports_other (by decide)
  refine Sql.solo_query_bind ?_ trivial
  split
  · exact reports_other (by decide)
  rename_i hunreg
  exact Sql.solo_exec_bind (Sql.solo_ret fun _ => ⟨by simpa using hunreg, rfl⟩) trivial

theorem unregister_reports : Reports
    (sendUserUnregisteredSuccessfullyMessage w (u.id == user.getD u.id))
    (fun t => t.db = unregisterTheUser w (user.getD u.id) b.db)
    (execute env g u (.unregister w user)) b := by
  show Reports _ _ (unregisterCommand env u w user) b
  unfold unregisterCommand
  dsimp only
  split
  · exact reports_other (by decide)
  refine Sql.solo_query_bind ?_ trivial
  split
  · exact reports_other (by decide)
  refine Sql.solo_query_bind ?_ trivial
  split
  · exact reports_other (by decide)
  · exact Sql.solo_exec_bind (Sql.solo_ret fun _ => rfl) trivial

/-- A command that reports success has done it exactly if its update meets the rows that its
answer is about. -/
theorem success_real {c : Command} {fs : List Bool} {r : Reply} {b' : Bot} (hb : Reachable env b)
    (h : perform env ⟨.slash g u c, fs⟩ b = some (.ok r, b')) (hr : successReply u c = some r) :
    Real g u c b'.db ↔ Meets g u c b.db := by
  have hmapped := reachable_mapped hb
  have hrun : (execute env g u c).run fs b = (.ok r, b') := Option.some.inj h
  cases c with
  | add w uploadId =>
    obtain rfl := Option.some.inj hr
    obtain ⟨s, hs, hdb⟩ := Sql.solo_returns add_reports hrun rfl
    obtain ⟨hsessions, hmember⟩ := hasMember_add hdb
    have hs' : getLootSplitId b'.db g = some s := by
      rw [← hs, getLootSplitId, activeSession, hsessions]
      rfl
    simp [Real, Meets, hs, hs', hmember]
  | removePlayer w =>
    obtain rfl := Option.some.inj hr
    have hdb := Sql.solo_returns remove_reports hrun rfl
    have hs' : getLootSplitId b'.db g = getLootSplitId b.db g := by rw [hdb]; rfl
    rw [Real, Meets, hs', hdb]
    cases getLootSplitId b.db g with
    | none => simp
    | some s => simp [hasMember_remove]
  | register w user =>
    obtain rfl := Option.some.inj hr
    obtain ⟨hno, hdb⟩ := Sql.solo_returns register_reports hrun rfl
    rw [Real, Meets, hdb]
    exact registered_register hmapped hno
  | unregister w user =>
    obtain rfl := Option.some.inj hr
    have hdb := Sql.solo_returns unregister_reports hrun rfl
    have hchange : PlayersChange env b (.slash g u (.unregister w user)) b.db.players
        (unregisterTheUser w (user.getD u.id) b.db).players := .unregister rfl
    have hafter := change_oneToOne hchange hmapped fun _ _ _ _ hc => by cases hc
    rw [Real, Meets, hdb]
    exact unregistered_unregister hafter
  | _ => cases hr

end Commands

/-- Alice is a member of the split and the officer's name, Bob is listed, and Zed is listed in
guild 2 only. -/
def spellings : Bot :=
  endState (opening ["Bob"] ++ [does (.add "Alice" "U1"),
    ⟨.slash 2 officer (.guildUpload "Other" (.text ["Zed"])), []⟩])

theorem success_real_alice :
    Real 1 officer (.unregister "Alice" none)
      ((execute Env.ascii 1 officer (.unregister "Alice" none)).run [] spellings).2.db :=
  have hreachable : Reachable Env.ascii spellings := endState_reachable _
  have hrun : perform Env.ascii ⟨.slash 1 officer (.unregister "Alice" none), []⟩ spellings =
      some (.ok (sendUserUnregisteredSuccessfullyMessage "Alice" true),
        ((execute Env.ascii 1 officer (.unregister "Alice" none)).run [] spellings).2) := by
    decide +kernel
  (success_real hreachable hrun rfl).2 (by simp only [Meets]; decide +kernel)

/-- Zed is no player of the guild, and the others are spelled another way. -/
def misspelt : List Command :=
  [.add "Zed" "U2", .removePlayer "ALICE", .register "bob" (some 7), .unregister "ALICE" none]

theorem success_unreal : Reachable Env.ascii spellings ∧ ∀ c ∈ misspelt,
    ∃ o ∈ perform Env.ascii ⟨.slash 1 officer c, []⟩ spellings,
      some o.1 = (successReply officer c).map Except.ok ∧ ¬Real 1 officer c o.2.db := by
  refine ⟨endState_reachable _, ?_⟩
  simp only [misspelt, List.forall_mem_cons, List.not_mem_nil, IsEmpty.forall_iff, implies_true,
    and_true, Real]
  decide +kernel

end AtomComm.LootSplit
