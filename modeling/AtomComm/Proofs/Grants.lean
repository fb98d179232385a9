import AtomComm.Sanity.Members
import AtomComm.Spec.LootSplit.Roles

/-! What a member gets when roles are added. The table of configured roles is the history of
the `/guestsetup` commands of the guild that got through, in order; a lookup reads it from
its beginning, so it finds the duration that was set first. Of the roles of an event only
the first one is looked up at all. -/

namespace AtomComm.LootSplit

/-- The role and the duration that an input configures in the guild: the member has the role
for it, the number fits in 32 bits and the insert is not made to throw. -/
def configures (env : Env) (g : ℤ) (a : Input) : Option (String × ℤ) :=
  match a.action with
  | .slash g' u (.guestsetup role duration) =>
    if g' = g ∧ u.allowed env ∧ (getAsInt duration).isSome ∧ a.faults.headD false = false then
      some (role, duration)
    else none
  | _ => none

/-- What the commands of a run have configured in the guild. -/
def configuration (env : Env) (g : ℤ) (es : List (Event Input Bot)) : List (String × ℤ) :=
  es.filterMap fun e => configures env g e.input

def setFirst (cs : List (String × ℤ)) (name : String) : Option ℤ :=
  (cs.find? fun c => c.1 = name).map Prod.snd

/-- The duration of the latest `/guestsetup` for the name. -/
def setLast (cs : List (String × ℤ)) (name : String) : Option ℤ := setFirst cs.reverse name

/-! ### The table of roles -/

section Table
variable {env : Env} {b b' : Bot} {a : Input} {g : ℤ} {role : String} {duration : ℤ}

theorem getAsInt_eq {n m : ℤ} (h : getAsInt n = some m) : n = m := by
  unfold getAsInt at h
  split at h
  · exact Option.some.inj h
  · cases h

theorem guestsetup_run (g : ℤ) (u : User) (role : String) (duration : ℤ) (fs : List Bool) (b : Bot) :
    ((execute env g u (.guestsetup role duration)).run fs b).2 =
      if u.allowed env ∧ (getAsInt duration).isSome ∧ fs.headD false = false then
        { b with db := addNewRole role duration g b.db }
      else b := by
  simp only [execute, guestSetupCommand]
  cases hd : getAsInt duration with
  | none => simp
  | some d =>
    obtain rfl := getAsInt_eq hd
    simp only [write, tryWrite, Sql.bind_eq, Sql.pure_eq, Sql.run_ite, Sql.run_attempt_bind,
      Sql.run_ret, onDb, Option.map_some]
    cases u.allowed env <;> cases fs.headD false <;> rfl

/-- No other statement writes the table. -/
theorem effect_roles {t t' : Bot} {a : Action} (he : Effect env b a t t')
    (ha : ∀ g u role duration, a ≠ .slash g u (.guestsetup role duration)) :
    t'.db.roles = t.db.roles := by
  cases he with
  | guestsetup => exact absurd rfl (ha _ _ _ _)
  | give _ hdb => obtain ⟨_, rfl⟩ := creditPlayers_some hdb; rfl
  | remove _ hdb => obtain ⟨_, rfl⟩ := creditPlayers_some hdb; rfl
  | add _ hdb =>
    rcases addPlayer_cases hdb with rfl | ⟨_, -, -, -, rfl⟩ <;> rfl
  | listed => unfold addListedPlayer; split <;> rfl
  | listName => unfold uploadGuildName; split <;> rfl
  | pay _ hf hdb =>
    rcases payout_cases hf hdb with ⟨_, rfl⟩ | ⟨_, _, rfl⟩ | ⟨_, _, rfl⟩ | rfl <;> rfl
  | _ => rfl

theorem roles_step {t : Bot} (h : step env a b = some t) :
    (t.db.roles.select fun r => r.guildId = g) = (b.db.roles.select fun r => r.guildId = g) ++
      ((configures env g a).map fun c => (⟨c.1, c.2, g⟩ : Role)).toList := by
  obtain ⟨b', p, hs, rfl⟩ := step_eq_some h
  by_cases ha : ∃ g' u role duration, a.action = .slash g' u (.guestsetup role duration)
  · obtain ⟨g', u, role, duration, ha⟩ := ha
    rw [ha] at hs
    cases hs
    have hconf : configures env g a =
        if g' = g ∧ u.allowed env ∧ (getAsInt duration).isSome ∧ a.faults.headD false = false then
          some (role, duration)
        else none := by
      simp only [configures, ha]
    rw [guestsetup_run, hconf]
    by_cases hok : u.allowed env ∧ (getAsInt duration).isSome ∧ a.faults.headD false = false
    · by_cases hg : g' = g
      · rw [if_pos hok, if_pos ⟨hg, hok⟩]
        simp [addNewRole, Table.select, hg]
      · rw [if_pos hok, if_neg fun hc => hg hc.1]
        simp [addNewRole, Table.select, hg]
    · rw [if_neg hok, if_neg fun hc => hok hc.2]
      simp
  · have hnone : configures env g a = none := by
      unfold configures
      split
      · rename_i g' u role duration hact
        exact absurd ⟨g', u, role, duration, hact⟩ ha
      · rfl
    obtain ⟨⟨hdb, -, -⟩, hk⟩ := start_within hs
    have hroles : p.Within (fun s => s.db.roles = b.db.roles) fun _ _ => True :=
      hk.imp (fun _ _ => trivial) fun s t hs he =>
        ⟨(effect_roles he fun g u role d hc => ha ⟨g, u, role, d, hc⟩).trans hs, trivial⟩
    have hend := (hroles.run (fun _ => trivial) (fun _ _ _ _ _ => trivial) a.faults
      (by rw [hdb])).1
    rw [hend, hnone]
    simp

theorem roles_run {es : List (Event Input Bot)} (h : Run (step env) b es b') :
    (b'.db.roles.select fun r => r.guildId = g) = (b.db.roles.select fun r => r.guildId = g) ++
      (configuration env g es).map fun c => ⟨c.1, c.2, g⟩ := by
  induction es generalizing b with
  | nil =>
    obtain rfl := h
    simp [configuration]
  | cons e es ih =>
    obtain ⟨rfl, hstep, hrest⟩ := h
    rw [ih hrest, roles_step hstep, List.append_assoc]
    congr 1
    cases hc : configures env g e.input <;> simp [configuration, hc]

/-- The row that a lookup stands on. -/
theorem first_role {es : List (Event Input Bot)} (h : Run (step env) Bot.empty es b) (name : String) :
    b.db.roles.first (fun r => r.roleName = name && r.guildId = g) =
      ((configuration env g es).find? fun c => c.1 = name).map fun c => ⟨c.1, c.2, g⟩ := by
  have hguild : ∀ r : Role, (r.roleName = name && r.guildId = g : Bool) = true →
      (r.guildId = g : Bool) = true := fun r hr => (Bool.and_eq_true_iff.1 hr).2
  rw [Table.first_select hguild, roles_run h]
  have hempty : (Bot.empty.db.roles.select fun r => r.guildId = g) = [] := rfl
  rw [hempty, List.nil_append, List.find?_map]
  refine congrArg (fun q => Option.map _ (List.find? q _)) (funext fun c => ?_)
  simp

end Table

/-! ### The event -/

section Event
variable {cs : List (String × ℤ)} {name : String} {T : Timers} {g userId : ℤ}
  {roles : List DiscordRole}

/-- The rows that should be inserted: one for each configured role, with its latest duration. -/
def grants (cs : List (String × ℤ)) (g userId : ℤ) (roles : List DiscordRole) : List PlayerRole :=
  roles.filterMap fun role =>
    (setLast cs role.name).map fun duration => ⟨userId, role.name, duration, g⟩

/-- The row that is inserted. -/
def granted (cs : List (String × ℤ)) (g userId : ℤ) (roles : List DiscordRole) : List PlayerRole :=
  (roles.head?.bind fun role =>
    (setFirst cs role.name).map fun duration => ⟨userId, role.name, duration, g⟩).toList

theorem setFirst_isSome : (setFirst cs name).isSome ↔ ∃ c ∈ cs, c.1 = name := by
  simp [setFirst, List.find?_isSome]

theorem setLast_isSome : (setLast cs name).isSome ↔ ∃ c ∈ cs, c.1 = name := by
  simp [setLast, setFirst_isSome]

theorem run_roleAdd (h : ∀ name, T.db.roles.first (fun r => r.roleName = name && r.guildId = g) =
      (cs.find? fun c => c.1 = name).map fun c => ⟨c.1, c.2, g⟩) (hroles : roles ≠ []) :
    (Sql.run [] (onGuildMemberRoleAdd g userId roles) T).2.db.playersRoles =
      T.db.playersRoles.insertAll (granted cs g userId roles) := by
  obtain ⟨role, others, rfl⟩ := List.exists_cons_of_ne_nil hroles
  have hduration : getRoleDuration T.db role.name g = (setFirst cs role.name).getD 0 := by
    rw [getRoleDuration, h role.name, setFirst]
    cases cs.find? fun c => c.1 = role.name <;> rfl
  have hknown : roleExists T.db role.name g = (setFirst cs role.name).isSome := by
    have hiff : roleExists T.db role.name g = true ↔ (setFirst cs role.name).isSome = true := by
      rw [roleExists, decide_eq_true_iff, Table.count_pos, setFirst, Option.isSome_map,
        ← Option.isSome_map, ← h role.name]
      constructor
      · rintro ⟨r, hr, hp⟩
        exact Option.isSome_iff_exists.2 (Table.first_isSome_of_mem hr hp)
      · intro hsome
        obtain ⟨r, hr⟩ := Option.isSome_iff_exists.1 hsome
        exact ⟨r, Table.first_mem hr⟩
    exact Bool.eq_iff_iff.2 hiff
  unfold onGuildMemberRoleAdd
  rw [Sql.run_tryCatch]
  simp only [Sql.bind_eq, Sql.run_query_bind, hknown]
  cases hset : setFirst cs role.name with
  | none => simp [granted, hset, Table.insertAll]
  | some d => simp [granted, hset, hduration, Timers.onDb, givePlayerRole, Table.insertAll]

/-- One row at most is inserted, so it has to be the only one that should be. -/
theorem granted_perm_iff (g userId : ℤ) {role : DiscordRole} {others : List DiscordRole} :
    (granted cs g userId (role :: others)).Perm (grants cs g userId (role :: others)) ↔
      (∀ role' ∈ others, ∀ c ∈ cs, c.1 ≠ role'.name) ∧
        setFirst cs role.name = setLast cs role.name := by
  have hsize : (setFirst cs role.name).isSome = (setLast cs role.name).isSome :=
    Bool.eq_iff_iff.2 (setFirst_isSome.trans setLast_isSome.symm)
  have hothers : grants cs g userId others = [] ↔ ∀ role' ∈ others, ∀ c ∈ cs, c.1 ≠ role'.name := by
    rw [grants, List.filterMap_eq_nil_iff]
    refine forall₂_congr fun role' _ => ?_
    rw [Option.map_eq_none_iff, ← Option.not_isSome_iff_eq_none, setLast_isSome, not_exists]
    exact forall_congr' fun c => not_and
  have hgrants : grants cs g userId (role :: others) =
      ((setLast cs role.name).map fun d => (⟨userId, role.name, d, g⟩ : PlayerRole)).toList ++
        grants cs g userId others := by
    cases hlast : setLast cs role.name <;> simp [grants, hlast]
  rw [← hothers, hgrants, granted, List.head?_cons, Option.bind_some]
  cases hfirst : setFirst cs role.name with
  | none =>
    have hlast : setLast cs role.name = none := by simpa [hfirst] using hsize
    simp [hlast]
  | some d =>
    obtain ⟨d', hlast⟩ : ∃ d', setLast cs role.name = some d' := by
      rw [hfirst] at hsize
      exact Option.isSome_iff_exists.1 hsize.symm
    simp [hlast, and_comm]

end Event

/-- An event inserts what the configuration asks for exactly if no role but the first is
configured and the first was never given another duration than at first. -/
theorem role_grants {env : Env} {b : Bot} {es : List (Event Input Bot)} (g userId : ℤ)
    (role : DiscordRole) (others : List DiscordRole) (T : Timers)
    (h : Run (step env) Bot.empty es b) (hT : T.db.roles = b.db.roles) :
    (∃ rows, (Sql.run [] (onGuildMemberRoleAdd g userId (role :: others)) T).2.db.playersRoles =
        T.db.playersRoles.insertAll rows ∧
        rows.Perm (grants (configuration env g es) g userId (role :: others))) ↔
      (∀ role' ∈ others, ∀ c ∈ configuration env g es, c.1 ≠ role'.name) ∧
        setFirst (configuration env g es) role.name = setLast (configuration env g es) role.name := by
  have hfirst := first_role (g := g) h
  rw [← hT] at hfirst
  rw [run_roleAdd hfirst (List.cons_ne_nil role others), ← granted_perm_iff g userId]
  constructor
  · rintro ⟨rows, hrows, hperm⟩
    have hvals := congrArg Table.vals hrows
    rw [Table.vals_insertAll, Table.vals_insertAll] at hvals
    rw [List.append_cancel_left hvals]
    exact hperm
  · exact fun hperm => ⟨_, rfl, hperm⟩

/-- VIP is given an hour. -/
def hourSetup : List Input := [does (.guestsetup "VIP" 60)]

/-- And then ten minutes. -/
def shortened : List Input := hourSetup ++ [does (.guestsetup "VIP" 10)]

def arrival (b : Bot) : Timers :=
  (Sql.run [] (onGuildMemberRoleAdd 1 5 [⟨7, "VIP"⟩]) ⟨b.db, [], true⟩).2

theorem role_grants_hour :
    let es := trace (step Env.ascii) Bot.empty hourSetup
    es.length = 1 ∧ ((∃ rows, (arrival (endState hourSetup)).db.playersRoles =
        (endState hourSetup).db.playersRoles.insertAll rows ∧
        rows.Perm (grants (configuration Env.ascii 1 es) 1 5 [⟨7, "VIP"⟩])) ↔
      (∀ role' ∈ ([] : List DiscordRole), ∀ c ∈ configuration Env.ascii 1 es, c.1 ≠ role'.name) ∧
        setFirst (configuration Env.ascii 1 es) "VIP" = setLast (configuration Env.ascii 1 es) "VIP") :=
  ⟨by decide +kernel, role_grants 1 5 ⟨7, "VIP"⟩ [] ⟨(endState hourSetup).db, [], true⟩
    (run_trace _ _ _) rfl⟩

/-- The row has the hour. -/
theorem role_grants_stale :
    ∃ es, Run (step Env.ascii) Bot.empty es (endState shortened) ∧
      ¬∃ rows, (arrival (endState shortened)).db.playersRoles =
          (endState shortened).db.playersRoles.insertAll rows ∧
        rows.Perm (grants (configuration Env.ascii 1 es) 1 5 [⟨7, "VIP"⟩]) := by
  refine ⟨trace (step Env.ascii) Bot.empty shortened, run_trace _ _ _, ?_⟩
  rintro ⟨rows, hrows, hperm⟩
  have hnone : (endState shortened).db.playersRoles.vals = [] := by decide +kernel
  have hstored : (arrival (endState shortened)).db.playersRoles.vals = [⟨5, "VIP", 60, 1⟩] := by
    decide +kernel
  have hlatest : grants (configuration Env.ascii 1 (trace (step Env.ascii) Bot.empty shortened)) 1 5
      [⟨7, "VIP"⟩] = [⟨5, "VIP", 10, 1⟩] := by decide +kernel
  rw [hrows, Table.vals_insertAll, hnone, List.nil_append] at hstored
  rw [hstored, hlatest] at hperm
  exact absurd (List.perm_singleton.1 hperm) (by decide)

end AtomComm.LootSplit
