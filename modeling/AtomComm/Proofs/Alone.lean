import AtomComm.Lib.Observer
import AtomComm.Sanity.Views

/-! A guild that shares the attendance bot with others sees no more of them than if it were
alone. Replies go to the guild of their command, and each guild draws its CTA ids from a set of
its own. Then whatever the other guilds do, and in whatever order their statements and those of
their downloads fall, the CTAs, the rosters and the replies of a guild are those of a run in which
only its own commands and downloads happen. The checker, which runs for all guilds, is left out. -/

namespace AtomComm.GuildBot

/-- A program that answers in guild `g`. -/
def addressed (g : ℤ) (p : Cmd Reply) : Cmd (ℤ × Reply) := p >>= fun reply => pure (g, reply)

/-- The ids that are drawn in a guild are its own, and guild `g` uploads no parties. -/
structure Separate (owner : String → ℤ) (g : ℤ) (a : Action) : Prop where
  drawn : ∀ h cmd, a = .slash h cmd → ∀ id, drawnId cmd = some id → owner id = h
  noWords : ∀ cmd, a = .slash g cmd → matchesNone cmd = true

/-- The bot with replies addressed to the guilds `of`. -/
def guildSystem (env : Env) (owner : String → ℤ) (g : ℤ) (of : ℤ → Prop) :
    System Thread Bot (ℤ × Reply) where
  start i b b' p := ∃ a h q, a.thread i ∧ guildOf b a = some h ∧ of h ∧ Separate owner g a ∧
    start env a b = some (b', q) ∧ p = addressed h q

/-- All guilds share the bot. -/
abbrev sharedBot (env : Env) (owner : String → ℤ) (g : ℤ) : System Thread Bot (ℤ × Reply) :=
  guildSystem env owner g fun _ => True

/-- Only guild `g` uses it. -/
abbrev aloneBot (env : Env) (owner : String → ℤ) (g : ℤ) : System Thread Bot (ℤ × Reply) :=
  guildSystem env owner g (· = g)

/-- CTAs and downloads have ids of their own guild. -/
structure Owned (owner : String → ℤ) (b : Bot) : Prop where
  ctas : ∀ r ∈ b.db.cta.vals, owner r.ctaId = r.guildId
  downloads : ∀ u ∈ b.pending, ∀ c, u.ctaID = some c → owner c = u.guildID

section Statements
variable {owner : String → ℤ} {g h : ℤ} {b t : Bot} {f : DB → DB} {I : Bot → Prop}

theorem Keyed.owned (hf : Keyed I (owner · = h) (owner · = h) (owner · = h) h f)
    (ht : Owned owner t) : Owned owner { t with db := f t.db } := by
  refine ⟨fun r hr => ?_, ht.downloads⟩
  have hupdate : ∀ (p : Cta → Bool) (w : Cta → Cta),
      (∀ x, (w x).ctaId = x.ctaId ∧ (w x).guildId = x.guildId) →
      r ∈ (t.db.cta.update p w).vals → owner r.ctaId = r.guildId := by
    intro p w hw hmem
    rw [Table.vals_update] at hmem
    obtain ⟨x, hx, rfl⟩ := List.mem_map.1 hmem
    split
    · rw [(hw x).1, (hw x).2]
      exact ht.ctas x hx
    · exact ht.ctas x hx
  cases hf with
  | create hid =>
    change r ∈ (t.db.cta.insert _).vals at hr
    rw [Table.vals_insert, List.mem_append, List.mem_singleton] at hr
    rcases hr with hr | rfl
    · exact ht.ctas r hr
    · exact hid
  | deleteCTA =>
    change r ∈ (t.db.cta.delete _).vals at hr
    rw [Table.vals_delete] at hr
    exact ht.ctas r (List.mem_filter.1 hr).1
  | finish | finishTime | stats | report =>
    refine hupdate _ _ ?_ hr
    exact fun _ => ⟨rfl, rfl⟩
  | deleteUsers | insertUser | updateUsers | words => exact ht.ctas r hr

/-- An update of guild `h` does not reach the rows of another one. -/
theorem Keyed.apart (hf : Keyed I (owner · = h) (owner · = h) (owner · = h) h f) (hne : h ≠ g)
    (ht : Owned owner t) : Apart g t.db (f t.db) := by
  cases hf with
  | create => exact apart_insertCTA hne
  | deleteCTA => exact apart_deleteCTA fun _ => other_of_row hne
  | finish hc =>
    refine apart_updateCTA (fun r hr hp => ?_) fun _ => rfl
    rw [← ht.ctas r hr, of_decide_eq_true hp, hc]
    exact hne
  | finishTime | stats | report =>
    exact apart_updateCTA (fun r _ => other_of_row hne) fun _ => rfl
  | deleteUsers => exact apart_deleteUsers fun _ => other_of_inCTA hne
  | insertUser => exact apart_insertUser hne
  | updateUsers _ hp hid =>
    exact apart_updateUsers (fun r hr => other_of_inCTA hne (hp r hr)) fun r => (hid r).1
  | words => exact ⟨rfl, rfl⟩

theorem Apart.viewed {t' u : Bot} (h : Apart g t.db t'.db) (hu : Viewed g t u)
    (hpending : t'.pending.filter (Upload.of g) = t.pending.filter (Upload.of g)) :
    Viewed g t' u := by
  refine ⟨⟨?_, ?_⟩, hpending.trans hu.2⟩
  · exact (Table.select_of_view (fun x => by simp [ctaOf]) h.cta).trans hu.1.cta
  · exact (Table.select_of_view (fun x => by simp [memberOf]) h.users).trans hu.1.users

theorem owned_key {c : String} (ht : Owned owner t) (hc : getCTAID t.db h = some c) :
    owner c = h := by
  obtain ⟨r, hr, rfl⟩ := Option.map_eq_some_iff.1 hc
  obtain ⟨hm, hp⟩ := Table.first_mem hr
  rw [ht.ctas r hm]
  exact of_decide_eq_true (Bool.and_eq_true_iff.1 hp).1

theorem owned_download {u : Upload} (ht : Owned owner t)
    (hu : ∀ c, u.ctaID = some c → owner c = u.guildID) :
    Owned owner { t with pending := t.pending ++ [u] } := by
  refine ⟨ht.ctas, fun v hv => ?_⟩
  rcases List.mem_append.1 hv with hv | hv
  · exact ht.downloads v hv
  · rwa [List.mem_singleton.1 hv]

end Statements

section Programs
variable {env : Env} {owner : String → ℤ} {g h : ℤ} {b b' : Bot} {a : Action} {q : Cmd Reply}

/-- The contract of any guild. -/
theorem allows_owned :
    Allows (Owned owner) (fun _ _ => True) (owner · = h) (owner · = h) (owner · = h) h :=
  ⟨fun _ ht _ => owned_key ht, fun _ => trivial, fun _ hf _ ht => ⟨hf.owned ht, trivial⟩⟩

/-- What another guild sees of it. -/
theorem allows_hidden (hne : h ≠ g) :
    Allows (Owned owner) (fun t t' => ∀ u, Viewed g t u → Viewed g t' u) (owner · = h)
      (owner · = h) (owner · = h) h :=
  ⟨fun _ ht _ => owned_key ht, fun _ _ hu => hu,
    fun _ hf _ ht => ⟨hf.owned ht, fun _ hu => (hf.apart hne ht).viewed hu rfl⟩⟩

theorem download_owned : AllowsDownload (Owned owner) (fun _ _ => True) (owner · = h) h :=
  fun _ hg hc _ ht => ⟨owned_download ht fun c hu => (hc c hu).trans hg.symm, trivial⟩

theorem download_hidden (hne : h ≠ g) : AllowsDownload (Owned owner)
    (fun t t' => ∀ u, Viewed g t u → Viewed g t' u) (owner · = h) h := by
  refine fun u hg hc t ht => ⟨owned_download ht fun c hu => (hc c hu).trans hg.symm, ?_⟩
  intro v hv
  have hother : Upload.of g u = false := by simp [Upload.of, hg, hne]
  exact Apart.viewed (Apart.refl g t.db) hv (by simp [List.filter_append, hother])

/-- What is done for guild `h` keeps the ids apart, and respects whatever its updates respect. -/
theorem within_of_allows {G : Bot → Bot → Prop} (hb : Owned owner b)
    (hst : start env a b = some (b', q)) (hg : guildOf b a = some h) (ha : Separate owner g a)
    (hG : Allows (Owned owner) G (owner · = h) (owner · = h) (owner · = h) h)
    (hd : AllowsDownload (Owned owner) G (owner · = h) h) : q.Within (Owned owner) G := by
  cases a with
  | slash h' cmd =>
    obtain rfl := Option.some.inj hg
    cases hst
    exact allows_execute hG cmd (ha.drawn h' cmd rfl) (fun _ _ => id) fun _ => hd
  | complete j roster =>
    obtain ⟨u, hu, hq⟩ := Option.map_eq_some_iff.1 hst
    obtain rfl : u.guildID = h := by simpa [guildOf, hu] using hg
    cases hq
    exact allows_complete hG rfl (hb.downloads u (List.mem_of_getElem? hu))
  | check => cases hg

/-- To take up a download is to take the same one out of any list that looks the same. -/
theorem exists_eraseIdx {l l' : List Upload} {j : ℕ} {u : Upload}
    (h : l.filter (Upload.of g) = l'.filter (Upload.of g)) (hj : l[j]? = some u)
    (hu : Upload.of g u = true) : ∃ j', l'[j']? = some u ∧
      (l.eraseIdx j).filter (Upload.of g) = (l'.eraseIdx j').filter (Upload.of g) := by
  obtain ⟨hlt, hget⟩ := List.getElem?_eq_some_iff.1 hj
  have hl : l = l.take j ++ u :: l.drop (j + 1) := by
    rw [← hget, List.cons_getElem_drop_succ, List.take_append_drop]
  rw [hl, List.filter_append, List.filter_cons_of_pos hu, eq_comm, List.filter_eq_append_iff] at h
  obtain ⟨x, y, rfl, hx, hy⟩ := h
  obtain ⟨y₁, y₂, rfl, hy₁, -, hy₂⟩ := List.filter_eq_cons_iff.1 hy
  refine ⟨(x ++ y₁).length, ?_, ?_⟩
  · rw [← List.append_assoc, List.getElem?_append_right (Nat.le_refl _)]
    simp
  · have hnone : y₁.filter (Upload.of g) = [] := List.filter_eq_nil_iff.2 hy₁
    rw [List.eraseIdx_eq_take_drop_succ, ← List.append_assoc,
      List.eraseIdx_append_of_length_le (Nat.le_refl _)]
    simp [hx, hy₂, hnone]

theorem filter_eraseIdx {l : List Upload} {j : ℕ} {u : Upload} (hj : l[j]? = some u)
    (hu : Upload.of g u = false) :
    (l.eraseIdx j).filter (Upload.of g) = l.filter (Upload.of g) := by
  obtain ⟨hlt, hget⟩ := List.getElem?_eq_some_iff.1 hj
  have hl : l = l.take j ++ u :: l.drop (j + 1) := by
    rw [← hget, List.cons_getElem_drop_succ, List.take_append_drop]
  rw [List.eraseIdx_eq_take_drop_succ, List.filter_append]
  conv_rhs => rw [hl, List.filter_append]
  simp [hu]

/-- An action of the guild itself, which every state that looks the same can take too. -/
theorem start_viewed {u : Bot} (hst : start env a b = some (b', q)) (hg : guildOf b a = some g)
    (ha : Separate owner g a) (hu : Viewed g b u) : ∃ a' u', (∀ i, a.thread i → a'.thread i) ∧
      guildOf u a' = some g ∧ Separate owner g a' ∧ start env a' u = some (u', q) ∧
      Viewed g b' u' := by
  cases a with
  | slash h cmd =>
    cases hst
    exact ⟨.slash h cmd, u, fun _ hi => hi, hg, ha, rfl, hu⟩
  | complete j roster =>
    obtain ⟨up, hup, hq⟩ := Option.map_eq_some_iff.1 hst
    cases hq
    have hof : Upload.of g up = true := by simpa [guildOf, hup, Upload.of] using hg
    obtain ⟨j', hj', hsame⟩ := exists_eraseIdx hu.2 hup hof
    refine ⟨.complete j' roster, { u with pending := u.pending.eraseIdx j' }, fun _ hi => hi, ?_,
      ⟨by simp, by simp⟩, ?_, ⟨hu.1.cta, hu.1.users⟩, hsame⟩
    · simpa [guildOf, hj', Upload.of] using hof
    · simp [start, hj']
  | check => cases hg

theorem start_blind (hst : start env a b = some (b', q)) (hg : guildOf b a = some g)
    (ha : Separate owner g a) : q.Blind (Viewed g) := by
  cases a with
  | slash h cmd =>
    obtain rfl := Option.some.inj hg
    cases hst
    exact viewed_execute (ha.noWords cmd rfl)
  | complete j roster =>
    obtain ⟨up, hup, hq⟩ := Option.map_eq_some_iff.1 hst
    cases hq
    exact viewed_complete (by simpa [guildOf, hup] using hg)
  | check => cases hg

/-- An action of another guild. -/
theorem start_hidden {u : Bot} (hst : start env a b = some (b', q)) (hg : guildOf b a = some h)
    (hne : h ≠ g) (hu : Viewed g b u) : Viewed g b' u := by
  cases a with
  | slash h' cmd =>
    cases hst
    exact hu
  | complete j roster =>
    obtain ⟨up, hup, hq⟩ := Option.map_eq_some_iff.1 hst
    cases hq
    have hother : Upload.of g up = false := by
      have : up.guildID = h := by simpa [guildOf, hup] using hg
      simp [Upload.of, this, hne]
    exact ⟨⟨hu.1.cta, hu.1.users⟩, (filter_eraseIdx hup hother).trans hu.2⟩
  | check => cases hg

theorem start_owned (hb : Owned owner b) (hst : start env a b = some (b', q)) : Owned owner b' := by
  cases a with
  | slash h cmd =>
    cases hst
    exact hb
  | complete j roster =>
    obtain ⟨up, -, hq⟩ := Option.map_eq_some_iff.1 hst
    cases hq
    exact ⟨hb.ctas, fun u hu => hb.downloads u ((List.eraseIdx_sublist _ _).subset hu)⟩
  | check =>
    cases hst
    exact hb

theorem shared_separates : (sharedBot env owner g).Separates (aloneBot env owner g) (Owned owner)
    (Viewed g) fun r => r.1 = g := by
  rintro i b b' p hb ⟨a, h, q, hi, hg, -, ha, hst, rfl⟩
  refine ⟨start_owned hb hst, ?_⟩
  by_cases hne : h = g
  · subst hne
    refine .inl ⟨⟨?_, ?_⟩, fun u hu => ?_⟩
    · exact Sql.within_bind (within_of_allows hb hst hg ha allows_owned download_owned)
        fun _ => trivial
    · exact Sql.blind_bind (start_blind hst hg ha) fun _ => trivial
    · obtain ⟨a', u', hthread, hg', ha', hst', hview⟩ := start_viewed hst hg ha hu
      exact ⟨u', ⟨a', h, q, hthread i hi, hg', rfl, ha', hst', rfl⟩, hview⟩
  · refine .inr ⟨⟨?_, ?_⟩, fun u hu => start_hidden hst hg hne hu⟩
    · exact Sql.within_bind
        (within_of_allows hb hst hg ha (allows_hidden hne) (download_hidden hne)) fun _ => trivial
    · exact (Sql.returns_any q).bind fun _ _ => hne

end Programs

/-- Guild 2 owns the id of its CTA. -/
def secondOwner (id : String) : ℤ := if id = "CTA2" then 2 else 1

/-- The CTAs of the first guild, as `/cta list` shows them. -/
def oneListed : Reply := .ctas [("CTA1", 1709319600000000000, 1709326800000000000, .active)]

end AtomComm.GuildBot
