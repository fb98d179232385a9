import AtomComm.Sanity.Statements

/-! How far the guilds of the attendance bot are apart. Every statement that a command or the
completion of a download issues is keyed by its guild, but for one: `updateCTAStatus` goes by
the id of the CTA alone, and `/cta delete` issues it. Between CTAs with distinct ids it
touches no other guild's row. What `/cta info`, `stats`, `list` and the check show comes
from queries of the guild's rows. -/

namespace AtomComm.GuildBot

def Upload.guildID : Upload → ℤ
  | .guild _ g => g
  | .check _ g => g

/-- The guild that an action is issued in; the checker runs for all. -/
def guildOf (b : Bot) : Action → Option ℤ
  | .slash g _ => some g
  | .complete j _ => (b.pending[j]?).map Upload.guildID
  | .check .. => none

def ctaOf (h : ℤ) (r : Cta) : Option Cta := if r.guildId = h then some r else none

def memberOf (h : ℤ) (r : Member) : Option Member := if r.guildId = h then some r else none

/-- The rows of guild `h` are in `db'` as in `db`, under their rowids. -/
structure Apart (h : ℤ) (db db' : DB) : Prop where
  cta : db'.cta.view (ctaOf h) = db.cta.view (ctaOf h)
  users : db'.users.view (memberOf h) = db.users.view (memberOf h)

theorem Apart.refl (h : ℤ) (db : DB) : Apart h db db := ⟨rfl, rfl⟩

theorem Apart.trans {h : ℤ} (x y z : DB) (hxy : Apart h x y) (hyz : Apart h y z) : Apart h x z :=
  ⟨hyz.cta.trans hxy.cta, hyz.users.trans hxy.users⟩

section Statements
variable {g h : ℤ} {db : DB}

theorem apart_insertCTA {r : Cta} (hr : r.guildId ≠ h) :
    Apart h db { db with cta := db.cta.insert r } := by
  refine ⟨Table.view_insert ?_, rfl⟩
  rw [ctaOf, if_neg hr]

theorem apart_deleteCTA {p : Cta → Bool} (hp : ∀ r, p r = true → r.guildId ≠ h) :
    Apart h db { db with cta := db.cta.delete p } := by
  refine ⟨Table.view_delete fun r hr => ?_, rfl⟩
  rw [ctaOf, if_neg (hp r hr)]

theorem apart_updateCTA {p : Cta → Bool} {f : Cta → Cta}
    (hp : ∀ r ∈ db.cta.vals, p r = true → r.guildId ≠ h) (hf : ∀ r, (f r).guildId = r.guildId) :
    Apart h db { db with cta := db.cta.update p f } := by
  refine ⟨Table.view_update_of_mem fun r hr hpr => ?_, rfl⟩
  rw [ctaOf, ctaOf, hf, if_neg (hp r hr hpr), if_neg (hp r hr hpr)]

theorem apart_insertUser {r : Member} (hr : r.guildId ≠ h) :
    Apart h db { db with users := db.users.insert r } := by
  refine ⟨rfl, Table.view_insert ?_⟩
  rw [memberOf, if_neg hr]

theorem apart_deleteUsers {p : Member → Bool} (hp : ∀ r, p r = true → r.guildId ≠ h) :
    Apart h db { db with users := db.users.delete p } := by
  refine ⟨rfl, Table.view_delete fun r hr => ?_⟩
  rw [memberOf, if_neg (hp r hr)]

theorem apart_updateUsers {p : Member → Bool} {f : Member → Member}
    (hp : ∀ r, p r = true → r.guildId ≠ h) (hf : ∀ r, (f r).guildId = r.guildId) :
    Apart h db { db with users := db.users.update p f } := by
  refine ⟨rfl, Table.view_update fun r hr => ?_⟩
  rw [memberOf, memberOf, hf, if_neg (hp r hr), if_neg (hp r hr)]

theorem guild_of_inCTA {c : String} {r : Member} (h : r.inCTA g c = true) : r.guildId = g :=
  of_decide_eq_true (Bool.and_eq_true_iff.1 h).1

theorem other_of_inCTA {c : String} {r : Member} (hne : g ≠ h) (hr : r.inCTA g c = true) :
    r.guildId ≠ h := by
  rw [guild_of_inCTA hr]
  exact hne

/-- The statements on one CTA of a guild end their condition with the guild. -/
theorem other_of_row {p : Bool} {r : Cta} (hne : g ≠ h)
    (hr : (p && decide (r.guildId = g)) = true) : r.guildId ≠ h := by
  rw [of_decide_eq_true (Bool.and_eq_true_iff.1 hr).2]
  exact hne

end Statements

/-! ### What a command changes -/

section Frame
variable {env : Env} {b t t' : Bot} {a : Action} {g h : ℤ}

theorem Uploads.guildOf_eq (hu : Uploads b a g) : guildOf b a = some g := by
  cases hu with
  | text => rfl
  | file hj => simp [guildOf, hj, Upload.guildID]

theorem Checks.guildOf_eq (hc : Checks b a g) : guildOf b a = some g := by
  cases hc with
  | command => rfl
  | file hj => simp [guildOf, hj, Upload.guildID]

theorem Places.guildOf_eq {name : String} {n : Option ℤ} {status : Status}
    (hp : Places a g name n status) : guildOf b a = some g := by
  cases hp <;> rfl

theorem effect_apart (he : Effect env b a t t') (hg : guildOf b a = some g) (hne : g ≠ h)
    (hdel : ∀ g now, a ≠ .slash g (.delete now)) : Apart h t.db t'.db := by
  cases he with
  | query => exact Apart.refl h t.db
  | words => exact ⟨rfl, rfl⟩
  | download => exact Apart.refl h t.db
  | create =>
    obtain rfl := Option.some.inj hg
    exact apart_insertCTA hne
  | cancel =>
    obtain rfl := Option.some.inj hg
    exact apart_deleteCTA fun r => other_of_row hne
  | cancelUsers =>
    obtain rfl := Option.some.inj hg
    exact apart_deleteUsers fun r => other_of_inCTA hne
  | delete => exact absurd rfl (hdel _ _)
  | deleteTime => exact absurd rfl (hdel _ _)
  | check => cases hg
  | info | report =>
    obtain rfl := Option.some.inj hg
    exact apart_updateCTA (fun r _ => other_of_row hne) fun _ => rfl
  | place hp =>
    obtain rfl := Option.some.inj (hp.guildOf_eq.symm.trans hg)
    refine apart_updateUsers (fun r hr => ?_) fun _ => rfl
    exact other_of_inCTA hne (Bool.and_eq_true_iff.1 hr).2
  | remove =>
    obtain rfl := Option.some.inj hg
    refine apart_updateUsers (fun r hr => ?_) fun _ => rfl
    exact other_of_inCTA hne (Bool.and_eq_true_iff.1 (Bool.and_eq_true_iff.1 hr).1).2
  | clear | detect =>
    obtain rfl := Option.some.inj hg
    refine apart_updateUsers (fun r hr => ?_) fun _ => rfl
    exact other_of_inCTA hne (Bool.and_eq_true_iff.1 hr).1
  | shown hc | seen hc =>
    obtain rfl := Option.some.inj (hc.guildOf_eq.symm.trans hg)
    refine apart_updateUsers (fun r hr => ?_) fun _ => rfl
    exact other_of_inCTA hne (Bool.and_eq_true_iff.1 hr).1
  | dropUsers hu =>
    obtain rfl := Option.some.inj (hu.guildOf_eq.symm.trans hg)
    exact apart_deleteUsers fun r => other_of_inCTA hne
  | list hu =>
    obtain rfl := Option.some.inj (hu.guildOf_eq.symm.trans hg)
    exact apart_insertUser hne
  | online hu =>
    obtain rfl := Option.some.inj (hu.guildOf_eq.symm.trans hg)
    refine apart_updateUsers (fun r hr => ?_) fun _ => rfl
    exact other_of_inCTA hne (Bool.and_eq_true_iff.1 hr).1

/-- The active CTA of the guild is the only row of its id. -/
theorem ctaID_guild {db : DB} (hu : db.cta.UniqueOn (fun _ => True) Cta.ctaId) {c : String}
    (hc : getCTAID db g = some c) : ∀ r ∈ db.cta.vals, r.ctaId = c → r.guildId = g := by
  intro r hr hid
  obtain ⟨q, hq, rfl⟩ := Option.map_eq_some_iff.1 hc
  obtain ⟨hm, hp⟩ := Table.first_mem hq
  obtain ⟨x, hx, rfl⟩ := Table.mem_vals.1 hr
  obtain ⟨y, hy, rfl⟩ := Table.mem_vals.1 hm
  rw [hu x hx y hy trivial trivial hid]
  exact of_decide_eq_true (Bool.and_eq_true_iff.1 hp).1

theorem leaves_write {I : Bot → Prop} {f : DB → DB} (hf : I { b with db := f b.db }) (hb : I b) :
    (write f).Leaves I b :=
  Sql.leaves_exec hf hb

theorem delete_apart {now : ℤ} (hu : b.db.cta.UniqueOn (fun _ => True) Cta.ctaId) (hne : g ≠ h) :
    (deleteCommand g now).Leaves (fun t => Apart h b.db t.db) b := by
  have hrefl : Apart h b.db b.db := Apart.refl h b.db
  apply Sql.solo_query_bind _ hrefl
  beta_reduce
  cases hc : getCTAID b.db g with
  | none => exact Sql.solo_ret hrefl
  | some c =>
    have hstatus : Apart h b.db (updateCTAStatus c .finished b.db) := by
      refine apart_updateCTA (fun r hr hp => ?_) fun _ => rfl
      rw [ctaID_guild hu hc r hr (of_decide_eq_true hp)]
      exact hne
    apply Sql.leaves_bind (leaves_write (I := fun t => Apart h b.db t.db) hstatus hrefl) _
      fun _ ht => ht
    intro _ t ht
    have htime : Apart h t.db (updateCTAFinishTime c g now t.db) :=
      apart_updateCTA (fun r _ => other_of_row hne) fun _ => rfl
    apply Sql.leaves_bind (leaves_write (I := fun t => Apart h b.db t.db)
      (ht.trans _ _ _ htime) ht) _ fun _ ht => ht
    exact fun _ _ ht => Sql.solo_ret ht

theorem step_apart {fs : List Bool} (hu : b.db.cta.UniqueOn (fun _ => True) Cta.ctaId)
    (hg : guildOf b a = some g) (hne : g ≠ h) (hs : step env ⟨a, fs⟩ b = some t) :
    Apart h b.db t.db := by
  obtain ⟨b', p, hst, rfl⟩ := step_eq_some hs
  by_cases hdel : ∃ g now, a = .slash g (.delete now)
  · obtain ⟨g', now, rfl⟩ := hdel
    obtain rfl := Option.some.inj hg
    cases hst
    exact (delete_apart hu hne).run fs
  · obtain ⟨hdb, hk⟩ := start_within hst
    have hw : p.Within (fun _ => True) fun s t => Apart h s.db t.db :=
      hk.imp (fun _ _ => trivial) fun s t _ he =>
        ⟨trivial, effect_apart he hg hne fun g now hc => hdel ⟨g, now, hc⟩⟩
    have hrun := hw.run (fun s => Apart.refl h s.db)
      (fun x y z => Apart.trans x.db y.db z.db) fs (s := b') trivial
    exact hdb ▸ hrun.2

end Frame

/-! ### What a command shows -/

/-- The states agree on the CTAs and the members of the guild. -/
structure Alike (g : ℤ) (b b' : Bot) : Prop where
  cta : Table.AgreeOn (fun r => r.guildId = g) b.db.cta b'.db.cta
  users : Table.AgreeOn (fun r => r.guildId = g) b.db.users b'.db.users

section Queries
variable {env : Env} {g : ℤ} {b b' : Bot} {c name : String}

theorem getCTAID_alike (h : Alike g b b') : getCTAID b.db g = getCTAID b'.db g := by
  unfold getCTAID
  rw [h.cta.first]
  exact fun r hr => (Bool.and_eq_true_iff.1 hr).1

theorem ctaRow_alike {c : Option String} (h : Alike g b b') :
    ctaRow b.db c g = ctaRow b'.db c g :=
  h.cta.first fun _ hr => (Bool.and_eq_true_iff.1 hr).2

theorem getAllCTAs_alike (h : Alike g b b') : getAllCTAs b.db g = getAllCTAs b'.db g := by
  unfold getAllCTAs
  rw [h.cta.select fun _ hr => hr]

theorem calcCTAStats_alike (h : Alike g b b') : calcCTAStats b.db c g = calcCTAStats b'.db c g := by
  have hcount : ∀ s : Status, (b.db.users.count fun r => r.ctaId = c && r.guildId = g && r.status = s) =
      b'.db.users.count fun r => r.ctaId = c && r.guildId = g && r.status = s := by
    intro s
    apply h.users.count
    exact fun r hr => (Bool.and_eq_true_iff.1 (Bool.and_eq_true_iff.1 hr).1).2
  unfold calcCTAStats
  simp only [hcount]

theorem getCountForUser_alike {status : Status} (h : Alike g b b') :
    getCountForUser env status b.db name g = getCountForUser env status b'.db name g := by
  apply h.users.count
  exact fun r hr => (Bool.and_eq_true_iff.1 (Bool.and_eq_true_iff.1 hr).1).2

theorem getPlayerStatus_alike (h : Alike g b b') :
    getPlayerStatus b.db g c name = getPlayerStatus b'.db g c name := by
  unfold getPlayerStatus
  rw [h.users.first]
  exact fun r hr => decide_eq_true (guild_of_inCTA (Bool.and_eq_true_iff.1 hr).1)

theorem playerHasParty_alike (h : Alike g b b') :
    playerHasParty env b.db name g c = playerHasParty env b'.db name g c := by
  unfold playerHasParty
  rw [h.users.first]
  exact fun r hr => decide_eq_true (guild_of_inCTA (Bool.and_eq_true_iff.1 hr).2)

theorem getAbsentees_alike (h : Alike g b b') : getAbsentees b.db g c = getAbsentees b'.db g c := by
  unfold getAbsentees
  rw [h.users.select]
  intro r hr
  exact decide_eq_true (guild_of_inCTA (Bool.and_eq_true_iff.1 (Bool.and_eq_true_iff.1 hr).1).1)

theorem getParties_alike (h : Alike g b b') : getParties b.db c g = getParties b'.db c g := by
  unfold getParties
  rw [h.users.select]
  exact fun r hr => decide_eq_true (guild_of_inCTA hr)

theorem getPartyMembers_alike {n : ℤ} (h : Alike g b b') :
    getPartyMembers b.db c g n = getPartyMembers b'.db c g n := by
  have hselect : ∀ s : Status, (b.db.users.select fun r =>
      r.inCTA g c && r.partyNumber = some n && r.status = s) =
      b'.db.users.select fun r => r.inCTA g c && r.partyNumber = some n && r.status = s := by
    intro s
    apply h.users.select
    intro r hr
    exact decide_eq_true (guild_of_inCTA (Bool.and_eq_true_iff.1 (Bool.and_eq_true_iff.1 hr).1).1)
  unfold getPartyMembers
  simp only [hselect]

end Queries

section Replies
variable {env : Env} {g : ℤ} {c : String} {α β : Type}

theorem alike_read {q : DB → α} (hq : ∀ b b', Alike g b b' → q b.db = q b'.db) :
    (read q).Blind (Alike g) :=
  Sql.blind_query hq

theorem alike_read_bind {q : DB → α} {k : α → Cmd β}
    (hq : ∀ b b', Alike g b b' → q b.db = q b'.db) (hk : ∀ x, (k x).Blind (Alike g)) :
    (read q >>= k).Blind (Alike g) :=
  Sql.blind_bind (alike_read hq) hk

theorem alike_updateUserStatus {name : String} {status : Status} :
    (write (updateUserStatus g c name status)).Blind (Alike g) := by
  apply Sql.blind_exec
  intro b b' h
  exact ⟨h.cta, h.users.update fun _ _ => rfl⟩

theorem alike_info : (infoCommand g c).Blind (Alike g) := by
  unfold infoCommand
  have hwrite : ∀ stats, (write (updateCTAStats c g stats)).Blind (Alike g) := by
    intro stats
    apply Sql.blind_exec
    intro b b' h
    exact ⟨h.cta.update fun _ _ => rfl, h.users⟩
  have hrow : ∀ {β : Type} (q : Option Cta → β) (b b' : Bot), Alike g b b' →
      q (ctaRow b.db (some c) g) = q (ctaRow b'.db (some c) g) :=
    fun q b b' h => congrArg q (ctaRow_alike h)
  apply alike_read_bind (hrow Option.isSome)
  intro listed
  refine Sql.blind_ite (fun _ => trivial) fun _ => ?_
  apply alike_read_bind fun _ _ => calcCTAStats_alike
  intro stats
  refine Sql.blind_bind (hwrite stats) fun _ => ?_
  apply alike_read_bind (hrow fun r => r.map Cta.startTime)
  intro s
  apply alike_read_bind (hrow fun r => r.map Cta.endTime)
  intro e
  apply alike_read_bind (hrow fun r => r.bind Cta.report)
  intro report
  apply alike_read_bind (hrow fun r => (r.map Cta.attendees).getD 0)
  intro attendees
  apply alike_read_bind (hrow fun r => (r.map Cta.lates).getD 0)
  intro lates
  apply alike_read_bind (hrow fun r => (r.map Cta.absentees).getD 0)
  intro absentees
  cases s <;> cases e <;> trivial

theorem alike_stats {name : String} : (statsCommand env g name).Blind (Alike g) := by
  apply alike_read_bind fun _ _ => getCTAID_alike
  intro ctaID
  cases ctaID with
  | none => trivial
  | some ctaID =>
    apply alike_read_bind fun _ _ => getCountForUser_alike
    intro attendances
    apply alike_read_bind fun _ _ => getCountForUser_alike
    intro lates
    apply alike_read_bind fun _ _ => getCountForUser_alike
    exact fun _ => trivial

theorem alike_list : (listCommand g).Blind (Alike g) := by
  apply alike_read_bind fun _ _ => getAllCTAs_alike
  exact fun _ => trivial

theorem alike_statusFromDB {name : String} : (statusFromDB env g c name).Blind (Alike g) := by
  apply alike_read_bind fun _ _ => getPlayerStatus_alike
  intro status
  split
  · apply alike_read_bind fun _ _ => playerHasParty_alike
    intro hasParty
    refine Sql.blind_ite (fun _ => trivial) fun _ => ?_
    apply alike_read_bind fun _ _ => playerHasParty_alike
    exact fun _ => Sql.blind_ite (fun _ => trivial) fun _ => trivial
  · trivial

/-- The read path that writes: the status shown for a player is written back. -/
theorem alike_getPlayerStatus {name : String} :
    (helperGetPlayerStatus env g c name).Blind (Alike g) := by
  apply Sql.blind_bind alike_statusFromDB
  intro status
  refine Sql.blind_bind (Sql.blind_tryCatch alike_updateUserStatus fun e => ?_) fun _ => trivial
  cases e <;> trivial

theorem alike_absenteesPages {names : List String} :
    (absenteesPages env g c names).Blind (Alike g) := by
  induction names with
  | nil => trivial
  | cons name names ih =>
    apply Sql.blind_bind alike_getPlayerStatus
    exact fun _ => Sql.blind_bind ih fun _ => trivial

theorem alike_partiesPages {parties : List ℤ} : (partiesPages g c parties).Blind (Alike g) := by
  induction parties with
  | nil => trivial
  | cons n parties ih =>
    apply alike_read_bind fun _ _ => getPartyMembers_alike
    exact fun _ => Sql.blind_bind ih fun _ => trivial

theorem alike_check : (guildCheckCommand env g .neither).Blind (Alike g) := by
  apply alike_read_bind fun _ _ => getCTAID_alike
  intro ctaID
  cases ctaID with
  | none => trivial
  | some ctaID =>
    apply alike_read_bind fun _ _ => getAbsentees_alike
    intro absentees
    apply alike_read_bind fun _ _ => getParties_alike
    intro parties
    refine Sql.blind_ite (fun _ => trivial) fun _ => ?_
    apply Sql.blind_bind alike_absenteesPages
    exact fun _ => Sql.blind_bind alike_partiesPages fun _ => trivial

end Replies

/-- The commands that show what is stored. -/
inductive Shows : Command → Prop
  | info (c : String) : Shows (.info c)
  | stats (name : String) : Shows (.stats name)
  | list : Shows .list
  | check : Shows (.guildCheck .neither)

theorem shows_blind {env : Env} {g : ℤ} {c : Command} (hc : Shows c) :
    (execute env g c).Blind (Alike g) := by
  cases hc with
  | info => exact alike_info
  | stats => exact alike_stats
  | list => exact alike_list
  | check => exact alike_check

/-- Whatever statements are made to throw, a command in guild `g`, or the completion of its
download, leaves the rows of `h` as they are, if no two CTAs have the same id; and what the
commands that show something answer depends on the rows of their guild. -/
theorem guilds_apart {env : Env} {g h : ℤ} (hne : g ≠ h) :
    (∀ (b t : Bot) (a : Action) (fs : List Bool),
      b.db.cta.UniqueOn (fun _ => True) Cta.ctaId → guildOf b a = some g →
      step env ⟨a, fs⟩ b = some t → Apart h b.db t.db) ∧
    ∀ (b b' : Bot) (c : Command) (fs : List Bool), Shows c → Alike g b b' →
      (perform env ⟨.slash g c, fs⟩ b).map Prod.fst =
        (perform env ⟨.slash g c, fs⟩ b').map Prod.fst := by
  refine ⟨fun b t a fs hu hg hs => step_apart hu hg hne hs, fun b b' c fs hc hb => ?_⟩
  simp only [perform, start, Option.map_some]
  rw [((shows_blind hc).run fs hb).1]

/-- A guild with a CTA and its roster, and another that deletes its own CTA. -/
def twoGuilds : List Input :=
  opening ["Bobby"] ++
    [⟨.slash 2 (.start "03/01 19:00" "03/01 21:00" "CTA2" ⟨2024, 2024, 1709294400000000000⟩), []⟩,
      ⟨.slash 2 (.guildUpload (.text (online ["Evelyn"]))), []⟩]

def deleteInTwo : Input := ⟨.slash 2 (.delete 1709310000000000000), []⟩

theorem guilds_apart_two :
    Apart 1 (endState twoGuilds).db (endState (twoGuilds ++ [deleteInTwo])).db ∧
      (perform Env.ascii (does (.info "CTA1")) (endState twoGuilds)).map Prod.fst =
        (perform Env.ascii (does (.info "CTA1")) (endState (opening ["Bobby"]))).map Prod.fst := by
  have hapart := @guilds_apart Env.ascii 2 1 (by decide)
  have hreply := (@guilds_apart Env.ascii 1 2 (by decide)).2
  have hunique : (endState twoGuilds).db.cta.UniqueOn (fun _ => True) Cta.ctaId := by
    decide +kernel
  refine ⟨hapart.1 _ _ deleteInTwo.action [] hunique rfl (by decide +kernel), ?_⟩
  exact hreply _ _ _ [] (.info "CTA1") ⟨by decide +kernel, by decide +kernel⟩

end AtomComm.GuildBot
