import AtomComm.Proofs.Attendance

/-! What a party upload installs. The statuses that the matching loop rewrites are those of
detected names, and whom it detects the upload puts in the party afterwards, so of the loop
nothing is left. -/

namespace AtomComm.GuildBot

/-- What the last pass makes of a row. -/
def admitted (env : Env) (g : ℤ) (c : String) (n : ℤ) (names : List String) (r : Member) : Member :=
  if placed env g c names r then { r with status := .present, partyNumber := some n } else r

/-- What the upload makes of a row. -/
def installed (env : Env) (g : ℤ) (c : String) (n : ℤ) (names : List String) (r : Member) :
    Member :=
  if placed env g c names r then { r with status := .present, partyNumber := some n }
  else if r.inCTA g c && r.partyNumber = some n then { r with partyNumber := none }
  else r

section Rows
variable {env : Env} {g : ℤ} {c : String} {n : ℤ} {names : List String} {r : Member}

theorem installed_key : SameKey r (installed env g c n names r) := by
  unfold installed
  split
  · exact ⟨rfl, rfl, rfl⟩
  · split <;> exact ⟨rfl, rfl, rfl⟩

theorem installed_placed (h : placed env g c names r = true) :
    installed env g c n names r = { r with status := .present, partyNumber := some n } := if_pos h

theorem installed_former (h : placed env g c names r = false) (hcta : r.inCTA g c = true)
    (hn : r.partyNumber = some n) :
    installed env g c n names r = { r with partyNumber := none } := by
  simp [installed, h, hcta, hn]

theorem installed_other (h : placed env g c names r = false)
    (hn : r.inCTA g c = true → r.partyNumber ≠ some n) : installed env g c n names r = r := by
  have hno : (r.inCTA g c && decide (r.partyNumber = some n)) = false := by
    cases hcta : r.inCTA g c with
    | false => rfl
    | true => simpa using hn hcta
  simp [installed, h, hno]

theorem installed_twice :
    installed env g c n names (installed env g c n names r) = installed env g c n names r := by
  have hkey : placed env g c names (installed env g c n names r) = placed env g c names r :=
    placed_congr installed_key
  cases hp : placed env g c names r with
  | true => rw [installed_placed (hkey.trans hp), installed_placed hp]
  | false =>
    apply installed_other (hkey.trans hp)
    intro hcta
    rw [installed_key.inCTA] at hcta
    by_cases hn : r.partyNumber = some n
    · simp [installed_former hp hcta hn]
    · rwa [installed_other hp fun _ => hn]

theorem installed_party (hcta : r.inCTA g c = true) :
    (installed env g c n names r).partyNumber = some n ↔ placed env g c names r = true := by
  cases hp : placed env g c names r with
  | true => simp [installed_placed hp]
  | false =>
    by_cases hn : r.partyNumber = some n
    · simp [installed_former hp hcta hn]
    · simp [installed_other hp fun _ => hn, hn]

end Rows

/-! ### The three passes -/

section Passes
variable {env : Env} {g : ℤ} {c : String} {n : ℤ} {names : List String} {db : DB}

theorem refreshes_rows (ws : List String) (hws : ∀ w ∈ ws, w ∈ names) :
    ∃ f : Member → Member, (∀ r, Restated g c names r (f r)) ∧
      ws.foldl (refresh env g c) db = { db with users := db.users.mapRows f } := by
  induction ws generalizing db with
  | nil => exact ⟨id, Restated.refl, by simp [Table.mapRows]⟩
  | cons w ws ih =>
    obtain ⟨f, hf, hrest⟩ : ∃ f : Member → Member, (∀ r, Restated g c names r (f r)) ∧
        ws.foldl (refresh env g c) (refresh env g c db w) = { refresh env g c db w with
          users := (refresh env g c db w).users.mapRows f } := ih fun v hv => hws v (by simp [hv])
    refine ⟨fun r => f (if r.inCTA g c && r.charName = w then
      { r with status := shownStatus env db g c w } else r), fun r => ?_, ?_⟩
    · refine Restated.trans ?_ (hf _)
      split
      · rename_i hp
        obtain ⟨hcta, hw⟩ := Bool.and_eq_true_iff.1 hp
        have hmem : r.charName ∈ names := of_decide_eq_true hw ▸ hws w (by simp)
        exact ⟨⟨_, rfl⟩, .inr ⟨hcta, hmem⟩⟩
      · exact Restated.refl r
    · rw [List.foldl_cons, hrest, refresh, updateUserStatus, Table.update_eq_mapRows,
        Table.mapRows_mapRows]

theorem places_rows (ws : List String) :
    ws.foldl (place env g c n) db =
      { db with users := db.users.mapRows (admitted env g c n ws) } := by
  induction ws generalizing db with
  | nil =>
    have hid : admitted env g c n [] = id := funext fun r => by simp [admitted, placed]
    have hrows : db.users.mapRows id = db.users := Table.ext_rows (by simp) rfl
    rw [hid, hrows]
    rfl
  | cons w ws ih =>
    rw [List.foldl_cons, ih, place, setParty, Table.update_eq_mapRows, Table.mapRows_mapRows]
    refine congrArg (fun t => { db with users := t }) (Table.mapRows_congr fun r _ => ?_)
    -- one round: the row has the first name, or it is up to the others
    cases hcta : r.inCTA g c with
    | false => simp [admitted, placed, hcta]
    | true =>
      have hcta' : Member.inCTA g c { r with status := .present, partyNumber := some n } = true :=
        hcta
      by_cases hw : LOWER r.charName = env.toLowerCase w
      · simp [admitted, placed, hw, hcta, hcta']
      · simp [admitted, placed, hw, hcta]

/-- If the detected names are found again when they are put in the party. -/
theorem partyUploaded_rows {words : List String} (hfound : ∀ r ∈ db.users.vals,
      r.inCTA g c = true → r.charName ∈ detected env db g c words →
      placed env g c (detected env db g c words) r = true) :
    partyUploaded env g c n words db =
      { db with users := db.users.mapRows (installed env g c n (detected env db g c words)) } := by
  obtain ⟨f, hf, hrefresh⟩ : ∃ f : Member → Member,
      (∀ r, Restated g c (detected env db g c words) r (f r)) ∧
      (detected env db g c words).foldl (refresh env g c) db =
        { db with users := db.users.mapRows f } := refreshes_rows _ fun _ hw => hw
  unfold partyUploaded
  dsimp only
  rw [hrefresh, places_rows, clearUsersDataForParty]
  dsimp only
  rw [Table.update_eq_mapRows, Table.mapRows_mapRows, Table.mapRows_mapRows]
  refine congrArg (fun t => { db with users := t }) (Table.mapRows_congr fun r hr => ?_)
  obtain ⟨⟨s, hs⟩, hrest⟩ := hf r
  have hkey : SameKey r (f r) := by
    rw [hs]
    exact ⟨rfl, rfl, rfl⟩
  have hclear : ∀ v : Member, SameKey v
      (if v.inCTA g c && v.partyNumber = some n then { v with partyNumber := none } else v) := by
    intro v
    split <;> exact ⟨rfl, rfl, rfl⟩
  rw [admitted, placed_congr (hclear (f r)), placed_congr hkey]
  cases hp : placed env g c (detected env db g c words) r with
  | true =>
    rw [installed_placed hp, if_pos rfl, hs]
    split <;> rfl
  | false =>
    -- not put in the party, so not detected, and its status was left alone
    have hsame : f r = r := hrest.resolve_right fun h => by simp [hfound r hr h.1 h.2] at hp
    rw [hsame, installed, hp]
    rfl

end Passes

/-! ### The command -/

/-- Party `n` of the CTA becomes the rows that the names match, whatever their case; who was in
it otherwise has no party, and every other row is as it was. -/
structure Installs (g : ℤ) (c : String) (n : ℤ) (names : List String) (t t' : Table Member) :
    Prop where
  ids : t'.rows.map Row.id = t.rows.map Row.id
  members : ∀ r ∈ t'.vals, r.inCTA g c = true →
    (r.partyNumber = some n ↔ ∃ name ∈ names, LOWER r.charName = LOWER name)
  present : ∀ r ∈ t'.vals, r.inCTA g c = true → r.partyNumber = some n → r.status = .present
  former : ∀ r ∈ t.rows, r.val.inCTA g c = true → r.val.partyNumber = some n →
    (¬∃ name ∈ names, LOWER r.val.charName = LOWER name) →
    ⟨r.id, { r.val with partyNumber := none }⟩ ∈ t'.rows
  others : ∀ r ∈ t.rows, (r.val.inCTA g c = true → r.val.partyNumber ≠ some n ∧
    ¬∃ name ∈ names, LOWER r.val.charName = LOWER name) → r ∈ t'.rows

section Command
variable {env : Env} {b t : Bot} {g n : ℤ} {c : String} {words : List String} {reply : Reply}

/-- A detected name is one of the roster. -/
theorem detected_listed {db : DB} {name : String} (h : name ∈ detected env db g c words) :
    ∃ r ∈ db.users.vals, r.inCTA g c = true ∧ r.charName = name := by
  obtain ⟨word, -, hw⟩ := List.mem_filterMap.1 h
  unfold matchedName at hw
  split at hw
  · cases hw
  obtain ⟨d, hrow, -⟩ := env.nearest_mem _ _ hw
  obtain ⟨v, hv, hrow⟩ := List.mem_map.1 (List.mem_filter.1 hrow).1
  obtain ⟨rfl, -⟩ := Prod.mk.inj hrow
  have hjoined := (Bool.and_eq_true_iff.1 (List.mem_filter.1 hv).2).1
  obtain ⟨r, hr, hp⟩ := Table.any_eq_true.1 hjoined
  obtain ⟨hname, hcta⟩ := Bool.and_eq_true_iff.1 hp
  exact ⟨r, hr, hcta, of_decide_eq_true hname⟩

/-- With names in ASCII both sides of the comparison fold them alike. -/
theorem placed_iff {db : DB} {r : Member} (henv : env.FoldsAscii)
    (hnames : ∀ r ∈ db.users.vals, IsAscii r.charName) (hcta : r.inCTA g c = true) :
    placed env g c (detected env db g c words) r = true ↔
      ∃ name ∈ detected env db g c words, LOWER r.charName = LOWER name := by
  have hfold : ∀ name ∈ detected env db g c words, env.toLowerCase name = LOWER name := by
    intro name hname
    obtain ⟨q, hq, -, rfl⟩ := detected_listed hname
    exact henv _ (hnames q hq)
  simp only [placed, hcta, Bool.true_and, List.any_eq_true, decide_eq_true_eq]
  refine exists_congr fun name => and_congr_right fun hname => ?_
  rw [hfold name hname]

theorem installs_rows {db : DB} (henv : env.FoldsAscii)
    (hnames : ∀ r ∈ db.users.vals, IsAscii r.charName) :
    Installs g c n (detected env db g c words) db.users
      (db.users.mapRows (installed env g c n (detected env db g c words))) := by
  have hplaced : ∀ {r : Member}, r.inCTA g c = true →
      (placed env g c (detected env db g c words) r = true ↔
        ∃ name ∈ detected env db g c words, LOWER r.charName = LOWER name) :=
    placed_iff henv hnames
  have hmem : ∀ r ∈ db.users.rows, ∀ v, installed env g c n (detected env db g c words) r.val = v →
      ⟨r.id, v⟩ ∈ (db.users.mapRows (installed env g c n (detected env db g c words))).rows := by
    rintro r hr v rfl
    exact List.mem_map_of_mem hr
  have hout : ∀ r : Member, ¬r.inCTA g c = true →
      placed env g c (detected env db g c words) r = false := fun r h => by simp [placed, h]
  constructor
  · simp
  · intro x hx hcta
    rw [Table.vals_mapRows] at hx
    obtain ⟨r, -, rfl⟩ := List.mem_map.1 hx
    rw [installed_key.inCTA] at hcta
    rw [installed_party hcta, hplaced hcta, installed_key.2.2]
  · intro x hx hcta hn
    rw [Table.vals_mapRows] at hx
    obtain ⟨r, -, rfl⟩ := List.mem_map.1 hx
    rw [installed_key.inCTA] at hcta
    rw [installed_placed ((installed_party hcta).1 hn)]
  · intro r hr hcta hn hno
    apply hmem r hr
    exact installed_former (Bool.eq_false_iff.2 (mt (hplaced hcta).1 hno)) hcta hn
  · intro r hr hother
    refine hmem r hr r.val (installed_other ?_ fun hcta => (hother hcta).1)
    by_cases hcta : r.val.inCTA g c = true
    · exact Bool.eq_false_iff.2 (mt (hplaced hcta).1 (hother hcta).2)
    · exact hout r.val hcta

theorem run_partyUpload (hc : getCTAID b.db g = some c) (hn : getAsInt n = some n) :
    ((partyUploadCommand env g n (.words words)).run [] b).2 =
      { b with db := partyUploaded env g c n words b.db } := by
  unfold partyUploadCommand
  simp only [hn, read, Sql.bind_eq, Sql.run_query_bind, hc]
  exact run_uploadParty n words

theorem detected_installed {db : DB} {names : List String} :
    detected env { db with users := db.users.mapRows (installed env g c n names) } g c words =
      detected env db g c words := by
  unfold detected matchedName nearestMember
  dsimp only
  have hany : ∀ w : String, ((db.users.mapRows (installed env g c n names)).any fun r =>
      decide (r.charName = w) && r.inCTA g c) =
      db.users.any fun r => decide (r.charName = w) && r.inCTA g c := by
    intro w
    simp only [Table.any, Table.vals_mapRows, List.any_map, Function.comp_def,
      installed_key.inCTA, installed_key.2.2]
  simp only [hany]

/-- An upload that raises no exception installs the detected party, and the same upload again
changes nothing. -/
theorem party_upload_installs (henv : env.FoldsAscii)
    (hnames : ∀ r ∈ b.db.users.vals, IsAscii r.charName) (hc : getCTAID b.db g = some c)
    (hrun : (partyUploadCommand env g n (.words words)).run [] b = (.ok reply, t)) :
    Installs g c n (detected env b.db g c words) b.db.users t.db.users ∧
      ((partyUploadCommand env g n (.words words)).run [] t).2.db.users = t.db.users := by
  have hn : getAsInt n = some n := by
    cases hm : getAsInt n with
    | some m => rw [getAsInt_some hm]
    | none => simp [partyUploadCommand, hm] at hrun
  have hfound : ∀ db : DB, (∀ r ∈ db.users.vals, IsAscii r.charName) → ∀ r ∈ db.users.vals,
      r.inCTA g c = true → r.charName ∈ detected env db g c words →
      placed env g c (detected env db g c words) r = true :=
    fun db hnames r _ hcta hmem => (placed_iff henv hnames hcta).2 ⟨_, hmem, rfl⟩
  have ht : t = { b with db := { b.db with
      users := b.db.users.mapRows (installed env g c n (detected env b.db g c words)) } } := by
    have hend := @run_partyUpload env b g n c words hc hn
    rw [hrun, partyUploaded_rows (hfound b.db hnames)] at hend
    exact hend
  refine ⟨by rw [ht]; exact installs_rows henv hnames, ?_⟩
  have hascii : ∀ r ∈ t.db.users.vals, IsAscii r.charName := by
    intro x hx
    rw [ht] at hx
    rw [Table.vals_mapRows] at hx
    obtain ⟨r, hr, rfl⟩ := List.mem_map.1 hx
    rw [installed_key.2.2]
    exact hnames r hr
  have hc' : getCTAID t.db g = some c := by
    rw [ht]
    exact hc
  have hsame : detected env t.db g c words = detected env b.db g c words := by
    rw [ht]
    exact detected_installed
  rw [run_partyUpload hc' hn, partyUploaded_rows (hfound t.db hascii), hsame, ht]
  dsimp only
  rw [Table.mapRows_mapRows]
  exact Table.mapRows_congr fun r _ => installed_twice

end Command

/-- Two members, one of whom is in the party. -/
def oneInParty : Bot :=
  endState (opening ["Bobby", "Evelyn"] ++ [does (.partyAdd 1 "Evelyn")])

/-- The words of an image, of which one is a name. -/
def bobbyOnly : List String := "Bobby" :: List.replicate 19 "zzzz"

theorem bobby_detected :
    ((partyUploadCommand Env.ascii 1 1 (.words bobbyOnly)).run [] oneInParty).1 =
      .ok (.detected 1 (("Bobby", .absent) :: List.replicate 19 ("????", .unknown))) := by
  decide +kernel

theorem party_upload_installs_bobby :
    let upload := partyUploadCommand Env.ascii 1 1 (.words bobbyOnly)
    let t := (upload.run [] oneInParty).2
    t.db.users.vals.map (fun r => (r.charName, r.partyNumber)) =
        [("Bobby", some 1), ("Evelyn", none)] ∧
      Installs 1 "CTA1" 1 (detected Env.ascii oneInParty.db 1 "CTA1" bobbyOnly) oneInParty.db.users
        t.db.users ∧ (upload.run [] t).2.db.users = t.db.users :=
  ⟨by decide +kernel,
    party_upload_installs (fun _ _ => rfl) (by decide +kernel) (by decide +kernel)
      (Prod.ext bobby_detected rfl)⟩

end AtomComm.GuildBot
