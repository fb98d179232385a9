import AtomComm.Sanity.Players

/-! Which actions unbind a players row from its Discord user. `/register` asks whether the
user to be registered is registered already, not whether the name is, so it takes a name
over from whoever has it. Nothing else but an `/unregister` that names the user changes the
binding of a row; uploads and removals of guild lists and users delete rows. -/

namespace AtomComm.LootSplit

def BoundTo (v : ℤ) (r : Player) : Prop := r.userId = some v ∧ r.registered = true

instance (v : ℤ) (r : Player) : Decidable (BoundTo v r) := inferInstanceAs (Decidable (_ ∧ _))

/-- An `/unregister` that names the user. -/
def Releases (v : ℤ) (a : Action) : Prop :=
  ∃ g u w user, a = .slash g u (.unregister w user) ∧ user.getD u.id = v

/-- What `/register` checks. -/
structure Accepts (env : Env) (b : Bot) (u : User) (w : String) (userId : ℤ) : Prop where
  permitted : u.allowed env = true ∨ u.id = userId
  listed : isUserExists env.toRuntime b.db w = true
  unregistered : isUserRegistered b.db userId = false

/-- A `/register` of the name for another user that passes the checks. -/
def TakesOver (env : Env) (b : Bot) (w : String) (v : ℤ) (a : Action) : Prop :=
  ∃ g u user, a = .slash g u (.register w user) ∧ user.getD u.id ≠ v ∧
    Accepts env b u w (user.getD u.id)

/-! ### `/register` -/

section Register
variable {env : Env} {g : ℤ} {u : User} {w : String} {user : Option ℤ} {b : Bot}

/-- `/register` does nothing, or passes its checks and binds the name. -/
theorem register_run (env : Env) (g : ℤ) (u : User) (w : String) (user : Option ℤ) (b : Bot)
    (fs : List Bool) :
    let t := ((execute env g u (.register w user)).run fs b).2
    t = b ∨ (Accepts env b u w (user.getD u.id) ∧
      t = { b with db := registerTheUser w (user.getD u.id) b.db }) := by
  simp only [execute, registerCommand, read, write, tryWrite, Sql.bind_eq, Sql.pure_eq,
    Sql.run_ite, Sql.run_faulty_query_bind, Sql.run_attempt_bind, Sql.run_ret]
  split
  · exact .inl rfl
  rename_i hperm
  split
  · exact .inl rfl
  split
  · exact .inl rfl
  rename_i hlisted
  split
  · exact .inl rfl
  split
  · exact .inl rfl
  rename_i hunreg
  split
  · rename_i hdb
    cases hdb
    refine .inr ⟨⟨?_, by simpa using hlisted, by simpa using hunreg⟩, rfl⟩
    by_contra hno
    simp_all
  · exact .inl rfl

theorem register_accepted (h : Accepts env b u w (user.getD u.id)) :
    ((execute env g u (.register w user)).run [] b).2 =
      { b with db := registerTheUser w (user.getD u.id) b.db } := by
  have hperm : ¬(!u.allowed env && u.id != user.getD u.id) = true := by
    rcases h.permitted with hp | hp
    · simp [hp]
    · simp [← hp]
  simp only [execute, registerCommand, read, write, tryWrite, Sql.bind_eq, Sql.pure_eq,
    Sql.run_ite, Sql.run_faulty_query_bind, Sql.run_attempt_bind, Sql.run_ret, if_neg hperm,
    h.listed, h.unregistered]
  rfl

end Register

/-! ### The other statements -/

/-- What identifies a row to the statements that delete. -/
def SameKey (x y : Player) : Prop :=
  y.username = x.username ∧ y.guildName = x.guildName ∧ y.guildId = x.guildId

section Changes
variable {env : Env} {b : Bot} {a : Action} {t t' : Table Player} {v : ℤ} {r : Row Player}

/-- The rows that were bound to the user and are still there are bound to it. -/
theorem change_keepsBound (hc : PlayersChange env b a t t') (hrel : ¬Releases v a)
    (hreg : ∀ g u w user, a ≠ .slash g u (.register w user)) :
    Table.Evolves (fun x y => BoundTo v x → BoundTo v y) t t' := by
  have hrefl : ∀ x, BoundTo v x → BoundTo v x := fun _ h => h
  cases hc with
  | same => exact Table.Evolves.refl hrefl t
  | credit => exact Table.evolves_update hrefl t fun _ _ _ h => h
  | register ha => exact absurd ha (hreg _ _ _ _)
  | @unregister g u w user ha =>
    refine Table.evolves_update hrefl t fun x _ hx hb => absurd ?_ hrel
    have hid := of_decide_eq_true (Bool.and_eq_true_iff.1 hx).2
    exact ⟨g, u, w, user, ha, Option.some.inj (hid.symm.trans hb.1)⟩
  | insert => exact Table.evolves_insert hrefl t _
  | delete => exact Table.evolves_delete hrefl t _

theorem Deletes.of_sameKey {x y : Player} (h : Deletes env b y a) (hk : SameKey x y) :
    Deletes env b x a := by
  obtain ⟨h1, h2, h3⟩ := hk
  cases h with
  | guildRemove hu hn hg => exact .guildRemove hu (h2.symm.trans hn) (h3.symm.trans hg)
  | guildRemoveUser hu hw hg => exact .guildRemoveUser hu (h1.symm.trans hw) (h3.symm.trans hg)
  | upload hu hn hg => exact .upload hu (h2.symm.trans hn) (h3.symm.trans hg)

/-- A row that the action does not delete stays. -/
theorem change_stays (hc : PlayersChange env b a t t') (hdel : ¬Deletes env b r.val a)
    (h : t.Holds r.id (SameKey r.val)) : t'.Holds r.id (SameKey r.val) := by
  cases hc with
  | same => exact h
  | credit => exact Table.holds_update h fun _ _ hk => hk
  | register => exact Table.holds_update h fun _ _ hk => hk
  | unregister => exact Table.holds_update h fun _ _ hk => hk
  | insert => exact Table.holds_insert h _
  | delete hp =>
    refine Table.holds_delete h fun x hk => ?_
    rw [Bool.eq_false_iff]
    exact fun hx => hdel ((hp x hx).of_sameKey hk)

end Changes

section Steps
variable {env : Env} {b t : Bot} {a : Action} {fs : List Bool} {v : ℤ} {r : Row Player}

theorem step_stays (hs : step env ⟨a, fs⟩ b = some t) (hr : r ∈ b.db.players.rows) :
    (∃ r' ∈ t.db.players.rows, r'.id = r.id) ∨ Deletes env b r.val a := by
  by_cases hdel : Deletes env b r.val a
  · exact .inr hdel
  · obtain ⟨b', p, hst, rfl⟩ := step_eq_some hs
    obtain ⟨⟨hdb, -, -⟩, hk⟩ := start_within hst
    have hw : p.Within (fun t => t.db.players.Holds r.id (SameKey r.val)) fun _ _ => True :=
      hk.imp (fun _ _ => trivial) fun s t h he =>
        ⟨change_stays (effect_players he) hdel h, trivial⟩
    have hstart : b'.db.players.Holds r.id (SameKey r.val) :=
      hdb ▸ ⟨r, hr, rfl, rfl, rfl, rfl⟩
    obtain ⟨r', hr', hid, -⟩ := (hw.run (fun _ => trivial) (fun _ _ _ _ _ => trivial) fs hstart).1
    exact .inl ⟨r', hr', hid⟩

/-- The row keeps its user in every step, whatever throws. -/
theorem step_keepsBound (hs : step env ⟨a, fs⟩ b = some t) (hrel : ¬Releases v a)
    (hno : ¬TakesOver env b r.val.username v a) (hr : r ∈ b.db.players.rows)
    (hb : BoundTo v r.val) :
    ∀ r' ∈ t.db.players.rows, r'.id = r.id → BoundTo v r'.val := by
  intro r' hr' hid
  obtain ⟨b', p, hst, rfl⟩ := step_eq_some hs
  by_cases hreg : ∃ g u w user, a = .slash g u (.register w user)
  · obtain ⟨g, u, w, user, rfl⟩ := hreg
    cases hst
    rcases register_run env g u w user b fs with ht | ⟨hacc, ht⟩
    · rw [ht] at hr'
      rw [Table.id_inj hr' hr hid]
      exact hb
    · rw [ht] at hr'
      obtain ⟨q, hq, hqid, hval⟩ := Table.mem_update.1 hr'
      obtain rfl := Table.id_inj hq hr (hqid.trans hid)
      rw [← hval]
      by_cases hw : q.val.username = w
      · have hv : user.getD u.id = v := by
          by_contra hne
          exact hno ⟨g, u, user, by rw [hw], hne, hw ▸ hacc⟩
        simp [hw, hv, BoundTo]
      · simpa [hw] using hb
  · obtain ⟨⟨hdb, -, -⟩, hk⟩ := start_within hst
    have hrefl : ∀ x, BoundTo v x → BoundTo v x := fun _ h => h
    have hw : p.Within (fun _ => True) fun s t =>
        Table.Evolves (fun x y => BoundTo v x → BoundTo v y) s.db.players t.db.players :=
      hk.imp (fun _ h => h) fun s t _ he => ⟨trivial, change_keepsBound (effect_players he) hrel
        fun g u w user ha => hreg ⟨g, u, w, user, ha⟩⟩
    have hrun := (hw.run (fun s => Table.Evolves.refl hrefl _)
      (fun _ _ _ => Table.Evolves.trans fun _ _ _ h h' hx => h' (h hx)) fs (s := b') trivial).2
    rw [hdb] at hrun
    exact hrun.row hr hr' hid hb

end Steps

def bob : User := ⟨2, "bob", []⟩

/-- Alice has user 1, and Bob user 2. -/
def registered : Bot := endState (opening ["Bob"] ++ [does (.register "Bob" (some 2))])

def aliceRow : Row Player := ⟨1, ⟨some 1, "Alice", .fin 0, "Atom", true, 1⟩⟩

end AtomComm.LootSplit
