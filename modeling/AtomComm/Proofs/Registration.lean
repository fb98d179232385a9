import AtomComm.Sanity.Players

/-! Registration is a partial one-to-one map between users and usernames. `/register` reads
that its user has no row and binds a name one statement later; what may come in between is
the upload of a file, which brings no row with a user. -/

namespace AtomComm.LootSplit

structure OneToOne (t : Table Player) : Prop where
  registered_iff : ∀ r ∈ t.vals, r.registered = true ↔ r.userId ≠ none
  one_name : ∀ r ∈ t.vals, ∀ r' ∈ t.vals, ∀ v, r.userId = some v → r'.userId = some v →
    r.username = r'.username
  one_user : ∀ r ∈ t.vals, ∀ r' ∈ t.vals, ∀ v v', r.userId = some v → r'.userId = some v' →
    r.username = r'.username → v = v'

def HasNoRow (v : ℤ) (t : Table Player) : Prop := ∀ r ∈ t.vals, r.userId ≠ some v

/-- No user has a row in `t'` that had none in `t`. -/
def NoNewUser (t t' : Table Player) : Prop := ∀ v, HasNoRow v t → HasNoRow v t'

section Changes
variable {env : Env} {b : Bot} {a : Action} {t t' : Table Player}

theorem oneToOne_empty : OneToOne .empty :=
  ⟨fun _ h => by simp at h, fun _ h => by simp at h, fun _ h => by simp at h⟩

/-- A table whose bound rows are rows of `t`, up to what the binding is not about. -/
theorem OneToOne.of_rows (h : OneToOne t)
    (hreg : ∀ r ∈ t'.vals, r.registered = true ↔ r.userId ≠ none)
    (hrow : ∀ r ∈ t'.vals, ∀ v, r.userId = some v →
      ∃ q ∈ t.vals, q.userId = some v ∧ q.username = r.username) : OneToOne t' := by
  refine ⟨hreg, fun r hr r' hr' v hv hv' => ?_, fun r hr r' hr' v v' hv hv' hn => ?_⟩
  · obtain ⟨q, hq, hqv, hqn⟩ := hrow r hr v hv
    obtain ⟨q', hq', hqv', hqn'⟩ := hrow r' hr' v hv'
    rw [← hqn, ← hqn']
    exact h.one_name q hq q' hq' v hqv hqv'
  · obtain ⟨q, hq, hqv, hqn⟩ := hrow r hr v hv
    obtain ⟨q', hq', hqv', hqn'⟩ := hrow r' hr' v' hv'
    exact h.one_user q hq q' hq' v v' hqv hqv' (hqn.trans (hn.trans hqn'.symm))

/-- Binding a name to a user without a row. -/
theorem OneToOne.register (h : OneToOne t) {w : String} {v : ℤ} (hv : HasNoRow v t) :
    OneToOne (t.update (fun r => r.username = w)
      fun r => { r with userId := some v, registered := true }) := by
  have hrow : ∀ r ∈ (t.update (fun r => r.username = w)
      fun r => { r with userId := some v, registered := true }).vals,
      (r.username = w ∧ r.userId = some v ∧ r.registered = true) ∨ (r.username ≠ w ∧ r ∈ t.vals) := by
    intro r hr
    rw [Table.vals_update] at hr
    obtain ⟨q, hq, rfl⟩ := List.mem_map.1 hr
    by_cases hw : q.username = w
    · exact .inl (by simp [hw])
    · exact .inr (by simp [hw, hq])
  refine ⟨fun r hr => ?_, fun r hr r' hr' x hx hx' => ?_, fun r hr r' hr' x x' hx hx' hn => ?_⟩
  · rcases hrow r hr with ⟨-, hu, hreg⟩ | ⟨-, hr⟩
    · simp [hu, hreg]
    · exact h.registered_iff r hr
  · rcases hrow r hr with ⟨hw, hu, -⟩ | ⟨hw, hr⟩ <;> rcases hrow r' hr' with ⟨hw', hu', -⟩ | ⟨hw', hr'⟩
    · exact hw.trans hw'.symm
    · exact absurd (hx'.trans (hx.symm.trans hu)) (hv r' hr')
    · exact absurd (hx.trans (hx'.symm.trans hu')) (hv r hr)
    · exact h.one_name r hr r' hr' x hx hx'
  · rcases hrow r hr with ⟨hw, hu, -⟩ | ⟨hw, hr⟩ <;> rcases hrow r' hr' with ⟨hw', hu', -⟩ | ⟨hw', hr'⟩
    · rw [hu] at hx
      rw [hu'] at hx'
      exact Option.some.inj (hx.symm.trans hx')
    · exact absurd (hn.symm.trans hw) hw'
    · exact absurd (hn.trans hw') hw
    · exact h.one_user r hr r' hr' x x' hx hx' hn

/-- Every statement keeps the map one-to-one, if what registers a user finds it without a
row. -/
theorem change_oneToOne (hc : PlayersChange env b a t t') (h : OneToOne t)
    (hguard : ∀ g u w user, a = .slash g u (.register w user) → HasNoRow (user.getD u.id) t) :
    OneToOne t' := by
  cases hc with
  | same => exact h
  | credit =>
    refine h.of_rows (fun r hr => ?_) fun r hr v hv => ?_ <;> rw [Table.vals_update] at hr <;>
      obtain ⟨q, hq, rfl⟩ := List.mem_map.1 hr
    · split <;> exact h.registered_iff q hq
    · refine ⟨q, hq, ?_⟩
      split at hv <;> split <;> exact ⟨hv, rfl⟩
  | register ha => exact h.register (hguard _ _ _ _ ha)
  | unregister ha =>
    refine h.of_rows (fun r hr => ?_) fun r hr v hv => ?_ <;> rw [Table.vals_update] at hr <;>
      obtain ⟨q, hq, rfl⟩ := List.mem_map.1 hr
    · split
      · simp
      · exact h.registered_iff q hq
    · refine ⟨q, hq, ?_⟩
      split at hv
      · cases hv
      · rename_i hp
        rw [if_neg hp]
        exact ⟨hv, rfl⟩
  | insert hu hreg =>
    refine h.of_rows (fun r hr => ?_) fun r hr v hv => ?_ <;> rw [Table.vals_insert] at hr <;>
      rcases List.mem_append.1 hr with hr | hr
    · exact h.registered_iff r hr
    · obtain rfl := List.mem_singleton.1 hr
      simp [hu, hreg]
    · exact ⟨r, hr, hv, rfl⟩
    · obtain rfl := List.mem_singleton.1 hr
      rw [hu] at hv
      cases hv
  | delete =>
    refine h.of_rows (fun r hr => ?_) fun r hr v hv => ?_ <;> rw [Table.vals_delete] at hr
    · exact h.registered_iff r (List.mem_filter.1 hr).1
    · exact ⟨r, (List.mem_filter.1 hr).1, hv, rfl⟩

theorem change_noNewUser (hc : PlayersChange env b a t t')
    (hreg : ∀ g u w user, a ≠ .slash g u (.register w user)) : NoNewUser t t' := by
  intro v hv r hr hid
  cases hc with
  | same => exact hv r hr hid
  | register ha => exact hreg _ _ _ _ ha
  | credit =>
    rw [Table.vals_update] at hr
    obtain ⟨q, hq, rfl⟩ := List.mem_map.1 hr
    refine hv q hq ?_
    split at hid <;> exact hid
  | unregister ha =>
    rw [Table.vals_update] at hr
    obtain ⟨q, hq, rfl⟩ := List.mem_map.1 hr
    refine hv q hq ?_
    split at hid
    · cases hid
    · exact hid
  | insert hu _ =>
    rw [Table.vals_insert] at hr
    rcases List.mem_append.1 hr with hr | hr
    · exact hv r hr hid
    · obtain rfl := List.mem_singleton.1 hr
      rw [hu] at hid
      cases hid
  | delete =>
    rw [Table.vals_delete] at hr
    exact hv r (List.mem_filter.1 hr).1 hid

end Changes

/-! ### Between the statements of `/register` -/

theorem hasNoRow_of_unregistered {db : DB} {v : ℤ} (h : OneToOne db.players)
    (hno : isUserRegistered db v = false) : HasNoRow v db.players := by
  intro r hr hid
  obtain ⟨q, hq⟩ := Table.first_isSome_of_mem (p := fun r => r.userId = some v) hr (by simp [hid])
  obtain ⟨hm, hqid⟩ := Table.first_mem hq
  have hreg : q.registered = true := by
    rw [h.registered_iff q hm, of_decide_eq_true hqid]
    simp
  simp [isUserRegistered, hq, hreg] at hno

/-- What a command may rely on and what a thread of uploads guarantees, and what any thread
keeps. -/
def quietly : Thread → Bot → Bot → Prop
  | .main => fun s t => NoNewUser s.db.players t.db.players
  | .upload _ => fun _ _ => True

def surely : Thread → Bot → Bot → Prop
  | .main => fun _ _ => True
  | .upload _ => fun s t => NoNewUser s.db.players t.db.players

def Mapped (b : Bot) : Prop := OneToOne b.db.players

abbrev Safe (i : Thread) (p : Cmd Reply) (s : Bot) : Prop :=
  p.Ok ⟨Mapped, quietly i, surely i⟩ (fun _ _ => True) (fun _ _ => True) s

theorem register_ok {env : Env} {g : ℤ} {u : User} {w : String} {user : Option ℤ} {b : Bot}
    (h : Mapped b) : Safe .main (execute env g u (.register w user)) b := by
  show Safe .main (registerCommand env u w user) b
  unfold registerCommand
  dsimp only
  split
  · exact fun _ _ => trivial
  refine Sql.ok_query_bind h (fun _ => trivial) (fun s _ hs => ?_) fun _ _ => trivial
  split
  · exact fun _ _ => trivial
  refine Sql.ok_query_bind hs (fun _ => trivial) (fun t _ ht => ?_) fun _ _ => trivial
  split
  · exact fun _ _ => trivial
  rename_i hunreg
  -- the user has no row when the guard reads, and gets none before the write
  have hnone : HasNoRow (user.getD u.id) t.db.players :=
    hasNoRow_of_unregistered ht (by simpa using hunreg)
  refine Sql.ok_bind.2 (Sql.ok_attempt (fun r r' hr hf => ?_) fun _ _ => trivial)
  have hstill : HasNoRow (user.getD u.id) r.db.players :=
    hr.stable (A := fun s => HasNoRow (user.getD u.id) s.db.players)
      (fun _ _ hq _ hA => hq _ hA) hnone
  have hmapped : Mapped r := hr.inv ht
  cases hf
  exact ⟨hmapped.register hstill, trivial, fun _ _ _ _ => trivial⟩

theorem disciplined (env : Env) : (system env).Disciplined Mapped quietly surely where
  start := by
    rintro i b b' p hI ⟨a, ha, hst⟩
    by_cases hreg : ∃ g u w user, a = .slash g u (.register w user)
    · obtain ⟨g, u, w, user, rfl⟩ := hreg
      cases hst
      obtain rfl : i = .main := ha
      exact ⟨hI, trivial, register_ok hI⟩
    · obtain ⟨⟨hdb, -, -⟩, hk⟩ := start_within hst
      have hI' : Mapped b' := by
        rw [Mapped, hdb]
        exact hI
      have hno : ∀ g u w user, a ≠ .slash g u (.register w user) :=
        fun g u w user ha => hreg ⟨g, u, w, user, ha⟩
      have hsure : ∀ s t : Bot, NoNewUser s.db.players t.db.players → surely i s t := by
        intro s t hst
        cases i with
        | main => trivial
        | upload => exact hst
      refine ⟨hI', hsure b b' (by rw [hdb]; exact fun _ h => h), ?_⟩
      refine Sql.Within.ok (hk.imp (fun _ _ => trivial) fun s t hs he => ⟨?_, ?_⟩) hI'
      · exact change_oneToOne (effect_players he) hs fun g u w user ha => absurd ha (hno g u w user)
      · exact hsure s t (change_noNewUser (effect_players he) hno)
  compat := by
    intro i j hij s t hst
    cases i with
    | upload => trivial
    | main =>
      cases j with
      | main => exact absurd rfl hij
      | upload => exact hst
  refl := by
    intro i s
    cases i with
    | main => trivial
    | upload => exact fun _ h => h

theorem reachable_mapped {env : Env} {b : Bot} (h : Reachable env b) : Mapped b := by
  obtain ⟨P, hP, rfl⟩ := h
  have hempty : Mapped Bot.empty := oneToOne_empty
  exact (System.good_reaches (disciplined env) (System.good_idle hempty) hP).inv

/-- In every state that commands and uploads reach, their statements in any order, a row is
registered exactly if it has a user, a user has one name and a name one user. -/
theorem registration_one_to_one {env : Env} {b : Bot} (h : Reachable env b) :
    OneToOne b.db.players := reachable_mapped h

/-- Two guilds list Alice, who is registered in both. -/
theorem registration_one_to_one_twoGuilds :
    OneToOne (endState (opening ["Bob"] ++
      [⟨.slash 2 officer (.guildUpload "Other" (.text ["Alice", "Zed"])), []⟩,
        does (.unregister "Alice" none), does (.register "Alice" none)])).db.players :=
  registration_one_to_one (endState_reachable _)

end AtomComm.LootSplit
