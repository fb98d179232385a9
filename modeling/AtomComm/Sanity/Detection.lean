import AtomComm.Sanity.Parties

/-! What `/cta party upload` makes of the table when no statement fails. Each detected name
has its status read, computed and written back; then the party loses its members, and the
detected names are put in it. -/

namespace AtomComm.GuildBot

/-- The status that `getPlayerStatus` of the helpers shows. -/
def shownStatus (env : Env) (db : DB) (g : ℤ) (c name : String) : Status :=
  if getPlayerStatus db g c name = some .absent then
    if playerHasParty env db name g c then .present else .absent
  else .offline

/-- Absent, but in a party for all that `playerHasParty` can tell, which folds case. -/
def Mistaken (env : Env) (db : DB) (g : ℤ) (c name : String) : Prop :=
  getPlayerStatus db g c name = some .absent ∧ playerHasParty env db name g c = true

instance (env : Env) (db : DB) (g : ℤ) (c name : String) : Decidable (Mistaken env db g c name) :=
  inferInstanceAs (Decidable (_ ∧ _))

/-- What showing a status writes. -/
def refresh (env : Env) (g : ℤ) (c : String) (db : DB) (name : String) : DB :=
  updateUserStatus g c name (shownStatus env db g c name) db

/-- The name that `spellFixMatch` makes of a word. -/
def matchedName (env : Env) (db : DB) (g : ℤ) (c word : String) : Option String :=
  if word ∈ forbiddenWords ∨ db.demo = [] then none else nearestMember env db word g c

def detected (env : Env) (db : DB) (g : ℤ) (c : String) (words : List String) : List String :=
  words.filterMap (matchedName env db g c)

/-- The names that are put in the party. -/
def known (names : List (String × Status)) : List String :=
  names.filterMap fun e => if e.2 = .unknown then none else some e.1

def place (env : Env) (g : ℤ) (c : String) (n : ℤ) (db : DB) (name : String) : DB :=
  setParty env name g c (some n) .present db

/-- What the upload of a party leaves behind. -/
def partyUploaded (env : Env) (g : ℤ) (c : String) (n : ℤ) (words : List String) (db : DB) : DB :=
  let names := detected env db g c words
  names.foldl (place env g c n)
    (clearUsersDataForParty g c n (names.foldl (refresh env g c) db))

section Queries
variable {env : Env} {db : DB} {g : ℤ} {c : String}

/-- Rewriting neither names nor parties changes who has a party. -/
theorem playerHasParty_update {p : Member → Bool} {f : Member → Member}
    (hkey : ∀ r, SameKey r (f r)) (hparty : ∀ r, (f r).partyNumber = r.partyNumber)
    (name : String) :
    playerHasParty env { db with users := db.users.update p f } name g c =
      playerHasParty env db name g c := by
  unfold playerHasParty
  dsimp only
  rw [Table.first_update fun r _ => by rw [(hkey r).2.2, (hkey r).inCTA]]
  cases db.users.first fun r => LOWER r.charName = env.toLowerCase name && r.inCTA g c with
  | none => rfl
  | some r =>
    simp only [Option.map_some]
    split
    · rw [hparty]
    · rfl

theorem playerHasParty_status (v : String) (s : Status) (name : String) :
    playerHasParty env (updateUserStatus g c v s db) name g c =
      playerHasParty env db name g c := by
  simp only [updateUserStatus]
  apply playerHasParty_update
  · exact fun r => ⟨rfl, rfl, rfl⟩
  · exact fun r => rfl

theorem getPlayerStatus_status (v : String) (s : Status) (name : String) :
    getPlayerStatus (updateUserStatus g c v s db) g c name =
      if name = v then (getPlayerStatus db g c name).map fun _ => s
      else getPlayerStatus db g c name := by
  have hfirst := Table.first_update (t := db.users) (q := fun r => r.inCTA g c && r.charName = name)
    (p := fun r => r.inCTA g c && r.charName = v) (f := fun r => { r with status := s })
    fun _ _ => rfl
  simp only [getPlayerStatus, updateUserStatus, hfirst]
  cases hr : db.users.first fun r => r.inCTA g c && r.charName = name with
  | none => simp
  | some r =>
    obtain ⟨hcta, hn⟩ := Bool.and_eq_true_iff.1 (Table.first_mem hr).2
    have hname : r.charName = name := of_decide_eq_true hn
    by_cases hv : name = v
    · simp [hcta, hname, hv]
    · simp [hcta, hname, hv]

theorem shownStatus_eq_present {name : String} :
    shownStatus env db g c name = .present ↔ Mistaken env db g c name := by
  unfold shownStatus Mistaken
  by_cases hs : getPlayerStatus db g c name = some .absent
  · rw [if_pos hs]
    by_cases hp : playerHasParty env db name g c = true
    · simp [hs, hp]
    · simp [hp]
  · simp [hs]

/-- Who is not shown as present is not shown so after a status was shown either. -/
theorem shownStatus_refresh {name : String} (h : shownStatus env db g c name ≠ .present)
    (v : String) : shownStatus env (refresh env g c db v) g c name ≠ .present := by
  unfold refresh
  by_cases hnv : name = v
  · subst hnv
    unfold shownStatus at h ⊢
    rw [playerHasParty_status, getPlayerStatus_status, if_pos rfl]
    by_cases habs : getPlayerStatus db g c name = some .absent
    · have hno : playerHasParty env db name g c = false := by simpa [habs] using h
      simp [habs, hno]
    · cases hs : getPlayerStatus db g c name with
      | none => simp
      | some s =>
        have hne : s ≠ .absent := fun h => habs (by rw [hs, h])
        simp [hne]
  · unfold shownStatus at h ⊢
    rwa [playerHasParty_status, getPlayerStatus_status, if_neg hnv]

theorem shownStatus_known (name : String) : shownStatus env db g c name ≠ .unknown := by
  unfold shownStatus
  split
  · split <;> simp
  · simp

theorem matchedName_refresh (v word : String) :
    matchedName env (refresh env g c db v) g c word = matchedName env db g c word := by
  unfold matchedName nearestMember refresh updateUserStatus
  simp only
  refine congrArg (fun q => if word ∈ forbiddenWords ∨ db.demo = [] then none
    else env.nearest (env.candidates db.demo q word)) (funext fun w => ?_)
  exact Table.any_update fun r _ => rfl

theorem detected_refresh (v : String) (words : List String) :
    detected env (refresh env g c db v) g c words = detected env db g c words := by
  unfold detected
  exact List.filterMap_congr fun word _ => matchedName_refresh v word

end Queries

/-! ### What is left of a row -/

section Rows
variable {env : Env} {db : DB} {g : ℤ} {c : String} {n : ℤ} {names : List String}

/-- The row is one that the upload puts in the party. -/
def placed (env : Env) (g : ℤ) (c : String) (names : List String) (r : Member) : Bool :=
  r.inCTA g c && names.any fun name => LOWER r.charName = env.toLowerCase name

/-- `r'` is `r`, but for the status if it is one of the names. -/
def Restated (g : ℤ) (c : String) (names : List String) (r r' : Member) : Prop :=
  (∃ s, r' = { r with status := s }) ∧ (r' = r ∨ (r.inCTA g c = true ∧ r.charName ∈ names))

theorem Restated.refl (r : Member) : Restated g c names r r := ⟨⟨r.status, rfl⟩, .inl rfl⟩

theorem Restated.trans {r r' r'' : Member} (h : Restated g c names r r')
    (h' : Restated g c names r' r'') : Restated g c names r r'' := by
  obtain ⟨⟨s, rfl⟩, h⟩ := h
  obtain ⟨⟨s', rfl⟩, h'⟩ := h'
  refine ⟨⟨s', rfl⟩, ?_⟩
  rcases h' with h' | h'
  · rw [h']
    exact h
  · exact .inr h'

theorem mem_updateUserStatus {v : String} {s : Status} {x : Member}
    (hx : x ∈ (updateUserStatus g c v s db).users.vals) :
    ∃ r ∈ db.users.vals, x = if r.inCTA g c && r.charName = v then { r with status := s } else r := by
  simp only [updateUserStatus, Table.vals_update] at hx
  obtain ⟨r, hr, rfl⟩ := List.mem_map.1 hx
  exact ⟨r, hr, rfl⟩

/-- A status moves nobody, neither to another name nor to another party. -/
theorem party_updateUserStatus {v : String} {s : Status} {x : Member}
    (hx : x ∈ (updateUserStatus g c v s db).users.vals) :
    ∃ r ∈ db.users.vals, SameKey r x ∧ x.partyNumber = r.partyNumber := by
  obtain ⟨r, hr, rfl⟩ := mem_updateUserStatus hx
  refine ⟨r, hr, ?_⟩
  split <;> exact ⟨⟨rfl, rfl, rfl⟩, rfl⟩

theorem mem_refreshes {ws : List String} (hws : ∀ w ∈ ws, w ∈ names) {x : Member}
    (hx : x ∈ (ws.foldl (refresh env g c) db).users.vals) :
    ∃ r ∈ db.users.vals, Restated g c names r x := by
  induction ws generalizing db with
  | nil => exact ⟨x, hx, Restated.refl x⟩
  | cons w ws ih =>
    obtain ⟨r', hr', h'⟩ := ih (fun v hv => hws v (by simp [hv])) hx
    obtain ⟨r, hr, rfl⟩ := mem_updateUserStatus hr'
    refine ⟨r, hr, Restated.trans ?_ h'⟩
    split
    · rename_i hp
      obtain ⟨hcta, hw⟩ := Bool.and_eq_true_iff.1 hp
      refine ⟨⟨_, rfl⟩, .inr ⟨hcta, ?_⟩⟩
      rw [of_decide_eq_true hw]
      exact hws w (by simp)
    · exact Restated.refl r

/-- No row of the name in the CTA is present. -/
def NotPresent (g : ℤ) (c v : String) (db : DB) : Prop :=
  ∀ r ∈ db.users.vals, r.inCTA g c = true → r.charName = v → r.status ≠ .present

theorem notPresent_refresh {v w : String} (hv : shownStatus env db g c v ≠ .present)
    (h : v = w ∨ NotPresent g c v db) : NotPresent g c v (refresh env g c db w) := by
  intro x hx hcta hname
  obtain ⟨r, hmem, hr⟩ := mem_updateUserStatus hx
  split at hr
  · rename_i hp
    have hrw : r.charName = w := of_decide_eq_true (Bool.and_eq_true_iff.1 hp).2
    have hvw : w = v := by
      rw [hr] at hname
      exact hrw.symm.trans hname
    rw [hr, hvw]
    exact hv
  · rename_i hp
    rw [hr] at hcta hname ⊢
    rcases h with rfl | h
    · exact absurd (by simp [hcta, hname]) hp
    · exact h r hmem hcta hname

/-- A detected name that is not shown as present is not present afterwards. -/
theorem notPresent_refreshes {v : String} (hv : shownStatus env db g c v ≠ .present)
    (h : v ∈ names ∨ NotPresent g c v db) :
    NotPresent g c v (names.foldl (refresh env g c) db) := by
  induction names generalizing db with
  | nil => exact h.resolve_left List.not_mem_nil
  | cons w names ih =>
    have hstep : v = w ∨ NotPresent g c v db → NotPresent g c v (refresh env g c db w) :=
      notPresent_refresh hv
    apply ih (shownStatus_refresh hv w)
    rcases h with h | h
    · rcases List.mem_cons.1 h with h | h
      · exact .inr (hstep (.inl h))
      · exact .inl h
    · exact .inr (hstep (.inr h))

theorem mem_places {x : Member} (hx : x ∈ (names.foldl (place env g c n) db).users.vals) :
    ∃ r ∈ db.users.vals, x = if placed env g c names r then
      { r with status := .present, partyNumber := some n } else r := by
  induction names generalizing db with
  | nil => exact ⟨x, hx, by simp [placed]⟩
  | cons v names ih =>
    obtain ⟨r', hr', rfl⟩ := ih hx
    simp only [place, setParty, Table.vals_update] at hr'
    obtain ⟨r, hr, rfl⟩ := List.mem_map.1 hr'
    refine ⟨r, hr, ?_⟩
    by_cases hv : LOWER r.charName = env.toLowerCase v <;> by_cases hcta : r.inCTA g c = true
    · have hcta' : Member.inCTA g c { r with status := .present, partyNumber := some n } = true := hcta
      simp [placed, hv, hcta, hcta']
    · simp [placed, hcta]
    · simp [placed, hv, hcta]
    · simp [placed, hcta]

theorem mem_clear {x : Member} (hx : x ∈ (clearUsersDataForParty g c n db).users.vals) :
    ∃ r ∈ db.users.vals, x = if r.inCTA g c && r.partyNumber = some n then
      { r with partyNumber := none } else r := by
  simp only [clearUsersDataForParty, Table.vals_update] at hx
  obtain ⟨r, hr, rfl⟩ := List.mem_map.1 hx
  exact ⟨r, hr, rfl⟩

end Rows

/-! ### Statuses that are written back as they are -/

/-- Every row of the name is offline, or every one is absent and none has a party. -/
def Undisturbed (env : Env) (db : DB) (g : ℤ) (c name : String) : Prop :=
  (∀ r ∈ db.users.vals, r.inCTA g c = true → r.charName = name → r.status = .offline) ∨
    playerHasParty env db name g c = false ∧
      ∀ r ∈ db.users.vals, r.inCTA g c = true → r.charName = name → r.status = .absent

instance (env : Env) (db : DB) (g : ℤ) (c name : String) :
    Decidable (Undisturbed env db g c name) :=
  inferInstanceAs (Decidable (_ ∨ _ ∧ _))

section Unchanged
variable {env : Env} {db : DB} {g : ℤ} {c : String}

theorem users_eq_self {t : Table Member} : { db with users := t } = db ↔ t = db.users :=
  ⟨fun h => congrArg DB.users h, fun h => by rw [h]⟩

/-- A status that is written back as it is. -/
theorem refresh_eq_self {name : String} :
    refresh env g c db name = db ↔ ∀ r ∈ db.users.vals, r.inCTA g c = true → r.charName = name →
      r.status = shownStatus env db g c name := by
  rw [refresh, updateUserStatus, users_eq_self, Table.update_eq_mapRows, Table.mapRows_eq_self]
  refine forall₂_congr fun r _ => ?_
  by_cases hp : (r.inCTA g c && decide (r.charName = name)) = true
  · obtain ⟨hcta, hn⟩ := Bool.and_eq_true_iff.1 hp
    rw [if_pos hp]
    constructor
    · intro h _ _
      exact (congrArg Member.status h).symm
    · intro h
      rw [← h hcta (of_decide_eq_true hn)]
  · rw [if_neg hp]
    exact ⟨fun _ hcta hn => absurd (by simp [hcta, hn]) hp, fun _ => rfl⟩

theorem refresh_undisturbed {name : String} :
    refresh env g c db name = db ↔ Undisturbed env db g c name := by
  rw [refresh_eq_self, Undisturbed, shownStatus, getPlayerStatus]
  cases hr : db.users.first fun r => r.inCTA g c && r.charName = name with
  | none =>
    have hno : ∀ r ∈ db.users.vals, r.inCTA g c = true → ¬r.charName = name := by
      intro r hmem hcta hn
      have := Table.first_none.1 hr r hmem
      simp [hcta, hn] at this
    constructor
    · exact fun _ => .inl fun r hmem hcta hn => absurd hn (hno r hmem hcta)
    · exact fun _ r hmem hcta hn => absurd hn (hno r hmem hcta)
  | some r =>
    obtain ⟨hmem, hp⟩ := Table.first_mem hr
    obtain ⟨hcta, hn⟩ := Bool.and_eq_true_iff.1 hp
    have hn : r.charName = name := of_decide_eq_true hn
    by_cases hs : r.status = .absent
    · -- the first row of the name is absent, so not all of them are offline
      have hoff : ¬∀ r ∈ db.users.vals, r.inCTA g c = true → r.charName = name →
          r.status = .offline := by
        intro h
        have := h r hmem hcta hn
        simp [hs] at this
      cases hparty : playerHasParty env db name g c with
      | false => simp [hs, hoff]
      | true =>
        simp only [Option.map_some, hs, if_true, hoff, false_or]
        constructor
        · intro h
          have := h r hmem hcta hn
          simp [hs] at this
        · rintro ⟨h, -⟩
          cases h
    · have habs : ¬∀ r ∈ db.users.vals, r.inCTA g c = true → r.charName = name →
          r.status = .absent := fun h => hs (h r hmem hcta hn)
      simp [hs, habs]

end Unchanged

/-! ### Without faults -/

section Runs
variable {env : Env} {g : ℤ} {c : String} {b : Bot}

theorem run_statusFromDB (name : String) :
    (statusFromDB env g c name).run [] b = (.ok (shownStatus env b.db g c name), b) := by
  unfold statusFromDB shownStatus
  simp only [read, Sql.bind_eq, Sql.pure_eq, Sql.run_query_bind]
  cases getPlayerStatus b.db g c name with
  | none => rfl
  | some s =>
    cases s with
    | absent =>
      simp only [Sql.run_query_bind, if_true]
      cases hp : playerHasParty env b.db name g c with
      | true => rfl
      | false => simp [hp]
    | offline => rfl
    | present => rfl
    | late => rfl
    | unknown => rfl

theorem run_getPlayerStatus (name : String) :
    (helperGetPlayerStatus env g c name).run [] b =
      (.ok (shownStatus env b.db g c name), { b with db := refresh env g c b.db name }) := by
  unfold helperGetPlayerStatus swallow
  rw [Sql.bind_eq, Sql.run_bind, run_statusFromDB]
  rfl

theorem run_spellFixMatch (word : String) :
    (spellFixMatch env word g c).run [] b = (.ok (matchedName env b.db g c word), b) := by
  unfold spellFixMatch matchedName
  by_cases hf : word ∈ forbiddenWords
  · simp [hf]
  · rw [if_neg hf, Sql.run_tryCatch]
    by_cases hd : b.db.demo = []
    · simp [read, hf, hd]
    · simp [read, hf, hd]

/-- The names read off an image, with the writes that reading them makes. -/
theorem run_getValidNames (words : List String) : ∃ names,
    (getValidNamesFromImage env g c words).run [] b =
      (.ok names,
        { b with db := (detected env b.db g c words).foldl (refresh env g c) b.db }) ∧
    known names = detected env b.db g c words ∧ (names = [] → words = []) := by
  induction words generalizing b with
  | nil => exact ⟨[], rfl, rfl, fun _ => rfl⟩
  | cons word words ih =>
    unfold getValidNamesFromImage
    rw [Sql.bind_eq, Sql.run_bind, run_spellFixMatch]
    cases hm : matchedName env b.db g c word with
    | none =>
      obtain ⟨names, hrun, hnames, -⟩ := ih (b := b)
      refine ⟨("????", .unknown) :: names, ?_, ?_, by simp⟩
      · simp only [Sql.bind_eq, Sql.run_bind, hrun]
        simp [detected, hm]
      · rw [detected] at hnames
        simpa [known, detected, hm] using hnames
    | some name =>
      obtain ⟨names, hrun, hnames, -⟩ := ih (b := { b with db := refresh env g c b.db name })
      rw [detected_refresh] at hrun hnames
      refine ⟨(name, shownStatus env b.db g c name) :: names, ?_, ?_, by simp⟩
      · simp only [Sql.bind_eq, Sql.run_bind, run_getPlayerStatus, hrun]
        simp [detected, hm]
      · rw [detected] at hnames
        simpa [known, detected, hm, shownStatus_known] using hnames

theorem run_addPlayersToParty (n : ℤ) (names : List (String × Status)) :
    (addPlayersToParty env g c n names).run [] b =
      (.ok (), { b with db := (known names).foldl (place env g c n) b.db }) := by
  induction names generalizing b with
  | nil => rfl
  | cons e names ih =>
    unfold addPlayersToParty
    by_cases hu : e.2 = .unknown
    · rw [if_pos hu, ih]
      simp [known, hu]
    · have hadd : (addPlayerToParty env e.1 g c (some n) .present).run [] b =
          (.ok (), { b with db := place env g c n b.db e.1 }) := rfl
      rw [if_neg hu, Sql.bind_eq, Sql.run_bind, hadd]
      simp only [ih]
      simp [known, hu]

theorem run_uploadParty (n : ℤ) (words : List String) :
    ((uploadParty env g c n words).run [] b).2 =
      { b with db := partyUploaded env g c n words b.db } := by
  obtain ⟨names, hrun, hnames, hempty⟩ : ∃ names, (getValidNamesFromImage env g c words).run [] b =
      (.ok names,
        { b with db := (detected env b.db g c words).foldl (refresh env g c) b.db }) ∧
      known names = detected env b.db g c words ∧ (names = [] → words = []) :=
    run_getValidNames words
  unfold uploadParty partyUploaded
  rw [Sql.bind_eq, Sql.run_bind, hrun]
  simp only [write, Sql.bind_eq, Sql.run_exec_bind, Sql.run_ite]
  split
  · rename_i hnil
    simp [hempty hnil, detected]
  · rw [Sql.run_bind, run_addPlayersToParty, hnames]
    simp only
    split <;> rfl

end Runs

end AtomComm.GuildBot
