import AtomComm.Sanity.Effects

/-! What a member without the configured role can do to the loot split bot: bind a players row to
itself, or free one that is bound to it. Whatever such members type and press, and whatever
statements fail, no balance, guild list, split, payout, role or download changes. -/

namespace AtomComm.LootSplit

def Action.user : Action → Option User
  | .slash _ u _ => some u
  | .press _ u _ => some u
  | .complete .. => none

/-- A member among `who` acts that has not the role, and is not the author of the page. -/
inductive Outside (env : Env) (who : ℤ → Prop) (b : Bot) : Action → Prop
  | slash {g u c} : who u.id → u.allowed env = false → Outside env who b (.slash g u c)
  | press {i u button page} : who u.id → b.pages[i]? = some page → u.id ≠ page.authorID →
      Outside env who b (.press i u button)

/-- The bot, which only such members use. -/
def outsiders (env : Env) (who : ℤ → Prop) : System Thread Bot Reply where
  start i b b' p := ∃ a, Outside env who b a ∧ a.thread i ∧ start env a b = some (b', p)

/-- The row is bound as before, to one of the members, or to nobody. -/
structure Rebound (who : ℤ → Prop) (r r' : Player) : Prop where
  rest : r' = { r with userId := r'.userId, registered := r'.registered }
  binding : (r'.userId = r.userId ∧ r'.registered = r.registered) ∨
    (∃ v, who v ∧ r'.userId = some v ∧ r'.registered = true) ∨
    (r'.userId = none ∧ r'.registered = false)

/-- Nothing but bindings of players rows is different. -/
structure OnlyRebinds (who : ℤ → Prop) (b t : Bot) : Prop where
  players : Table.Maps (Rebound who) b.db.players t.db.players
  rest : t = { b with db := { b.db with players := t.db.players } }

section
variable {env : Env} {who : ℤ → Prop} {a b c : Bot}

theorem Rebound.refl (r : Player) : Rebound who r r := ⟨rfl, .inl ⟨rfl, rfl⟩⟩

theorem Rebound.trans (x y z : Player) (h : Rebound who x y) (h' : Rebound who y z) :
    Rebound who x z := by
  refine ⟨?_, ?_⟩
  · rw [h'.rest, h.rest]
  · rcases h'.binding with ⟨hid, hreg⟩ | hnew
    · rw [hid, hreg]
      exact h.binding
    · exact .inr hnew

theorem OnlyRebinds.refl (b : Bot) : OnlyRebinds who b b :=
  ⟨Table.Maps.refl Rebound.refl b.db.players, rfl⟩

theorem OnlyRebinds.trans (x y z : Bot) (h : OnlyRebinds who x y) (h' : OnlyRebinds who y z) :
    OnlyRebinds who x z := by
  refine ⟨h.players.trans Rebound.trans h'.players, ?_⟩
  rw [h'.rest, h.rest]

/-- A statement that rewrites bindings. -/
theorem onlyRebinds_update {p : Player → Bool} {f : Player → Player}
    (hf : ∀ r, Rebound who r (f r)) :
    OnlyRebinds who b { b with db := { b.db with players := b.db.players.update p f } } :=
  ⟨Table.maps_update Rebound.refl b.db.players hf, rfl⟩

/-- A program of such a member. -/
abbrev Rebinds (who : ℤ → Prop) {α : Type} (p : Cmd α) : Prop :=
  p.Within (fun _ => True) (OnlyRebinds who)

theorem rebinds_read_bind {α β : Type} {q : DB → α} {k : α → Cmd β}
    (hk : ∀ x, Rebinds who (k x)) : Rebinds who (read q >>= k) :=
  Sql.within_bind (Sql.within_query OnlyRebinds.refl _) hk

theorem rebinds_write {f : DB → DB} (hf : ∀ t : Bot, OnlyRebinds who t { t with db := f t.db }) :
    Rebinds who (write f) := by
  refine Sql.within_attempt fun t t' _ h => ⟨trivial, ?_⟩
  obtain rfl := Option.some.inj h
  exact hf t

section Commands
variable {g : ℤ} {u : User} {w : String} {user : Option ℤ}

/-- Without the role, a member registers itself. -/
theorem rebinds_register (hwho : who u.id) (hu : u.allowed env = false) :
    Rebinds who (registerCommand env u w user) := by
  refine Sql.within_ite (fun _ => trivial) fun h => ?_
  have hself : u.id = user.getD u.id := by simpa [hu] using h
  refine rebinds_read_bind fun _ => Sql.within_ite (fun _ => trivial) fun _ => ?_
  refine rebinds_read_bind fun _ => Sql.within_ite (fun _ => trivial) fun _ => ?_
  refine Sql.within_bind (rebinds_write fun t => onlyRebinds_update fun r => ?_) fun _ => trivial
  exact ⟨rfl, .inr (.inl ⟨_, hself ▸ hwho, rfl, rfl⟩)⟩

theorem rebinds_unregister : Rebinds who (unregisterCommand env u w user) := by
  refine Sql.within_ite (fun _ => trivial) fun _ => ?_
  refine rebinds_read_bind fun _ => Sql.within_ite (fun _ => trivial) fun _ => ?_
  refine rebinds_read_bind fun _ => Sql.within_ite (fun _ => trivial) fun _ => ?_
  refine Sql.within_bind (rebinds_write fun t => onlyRebinds_update fun r => ?_) fun _ => trivial
  exact ⟨rfl, .inr (.inr ⟨rfl, rfl⟩)⟩

theorem rebinds_requireRole (hu : u.allowed env = false) {p : Cmd Reply} :
    Rebinds who (requireRole env u p) := by
  rw [requireRole, hu]
  trivial

theorem rebinds_execute (hwho : who u.id) (hu : u.allowed env = false) (c : Command) :
    Rebinds who (execute env g u c) := by
  cases c with
  | give username amount =>
    refine Sql.within_ite (fun _ => trivial) fun h => ?_
    simp [hu] at h
  | remove username amount =>
    refine Sql.within_ite (fun _ => trivial) fun h => ?_
    simp [hu] at h
  | register username user => exact rebinds_register hwho hu
  | unregister username user => exact rebinds_unregister
  | bal player =>
    refine rebinds_read_bind fun _ => Sql.within_ite (fun _ => trivial) fun _ => ?_
    exact rebinds_read_bind fun _ => rebinds_read_bind fun _ => trivial
  | leaderboard =>
    exact rebinds_read_bind fun _ => Sql.within_ite (fun _ => trivial) fun _ => trivial
  | guestsetup role duration =>
    change Rebinds who (guestSetupCommand env g u role duration)
    unfold guestSetupCommand
    split
    · trivial
    · refine Sql.within_ite (fun _ => trivial) fun h => ?_
      simp [hu] at h
  | list => exact rebinds_read_bind fun _ => Sql.within_ite (fun _ => trivial) fun _ => trivial
  | _ => exact rebinds_requireRole hu

end Commands

theorem rebinds_start {act : Action} {p : Cmd Reply} (ha : Outside env who a act)
    (hst : start env act a = some (b, p)) : b = a ∧ Rebinds who p := by
  cases ha with
  | slash hwho hu =>
    cases hst
    exact ⟨rfl, rebinds_execute hwho hu _⟩
  | @press i u button page _ hp hne =>
    obtain ⟨page', hp', he⟩ := Option.map_eq_some_iff.1 hst
    obtain rfl := Option.some.inj (hp.symm.trans hp')
    change onButtonInteraction i page u button a = (b, p) at he
    unfold onButtonInteraction at he
    rw [if_pos hne] at he
    cases he
    exact ⟨rfl, trivial⟩

end

/-- A member without roles. -/
def mallory : User := ⟨7, "mallory", []⟩

/-- The member tries to credit himself, and then takes the name of the officer. -/
def credit : Command := .give "Alice" 100

def takeover : Command := .register "Alice" none

/-- The name is taken, and nothing is paid. -/
example :
    ((execute Env.ascii 1 mallory takeover).run []
      ((execute Env.ascii 1 mallory credit).run [] submitted).2).2.db.players.vals.map
        (fun r => (r.userId, r.balance)) = [(some 7, .fin 0)] := by
  decide +kernel

end AtomComm.LootSplit
