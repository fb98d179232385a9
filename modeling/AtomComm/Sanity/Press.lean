import AtomComm.Sanity.Members

/-! A confirm press that gets to the payout. `press_cases` says all it can do: commit the
first few of its six updates and stop at the one that throws, or commit all six. A press
that does not get there leaves the database alone. -/

namespace AtomComm.LootSplit

theorem applyAll_onDb (us : List (DB → Option DB)) (b : Bot) :
    Sql.applyAll (us.map onDb) b = (Sql.applyAll us b.db).map fun db => { b with db := db } := by
  induction us generalizing b with
  | nil => rfl
  | cons f us ih =>
    simp only [List.map_cons, Sql.applyAll, onDb]
    cases f b.db with
    | none => rfl
    | some db => exact ih _

/-- The page that an action pays, if any. -/
def payingPage (b : Bot) : Action → Option Page
  | .press i u .confirm =>
    (b.pages[i]?).filter fun page => u.id = page.authorID && preConfirmCheck u page
  | _ => none

theorem pays_iff {b : Bot} {a : Action} {page : Page} :
    Pays b a page ↔ payingPage b a = some page := by
  constructor
  · rintro ⟨hpage, hauthor, hcheck⟩
    simp [payingPage, Option.filter_eq_some_iff, hpage, hauthor, hcheck]
  · intro h
    unfold payingPage at h
    split at h
    · obtain ⟨hpage, hc⟩ := Option.filter_eq_some_iff.1 h
      rw [Bool.and_eq_true, decide_eq_true_eq] at hc
      exact .press hpage hc.1 hc.2
    · cases h

instance (b : Bot) (a : Action) (page : Page) : Decidable (Pays b a page) :=
  decidable_of_iff _ pays_iff.symm

theorem Pays.mem {b : Bot} {a : Action} {page : Page} (h : Pays b a page) : page ∈ b.pages := by
  cases h with
  | press hpage => exact List.mem_of_getElem? hpage

theorem Pays.creator {b : Bot} {i : ℕ} {u : User} {button : Button} {page : Page}
    (h : Pays b (.press i u button) page) : page.sessionCreator = some u.name := by
  cases h with
  | press _ _ hcheck =>
    have : some u.name = page.sessionCreator := by simpa [preConfirmCheck] using hcheck
    exact this.symm

theorem Pays.exists_creator {b : Bot} {a : Action} {page : Page} (h : Pays b a page) :
    ∃ creator, page.sessionCreator = some creator := by
  cases h with
  | press hpage hauthor hcheck => exact ⟨_, (Pays.press hpage hauthor hcheck).creator⟩

theorem start_pays (env : Env) {b : Bot} {a : Action} {page : Page} (h : Pays b a page) :
    ∃ b' : Bot, b'.db = b.db ∧ start env a b = some (b',
      (Sql.script ((payout page).map onDb)).bind fun _ =>
        .ret (.embed "Loot Split Confirmed" "The loot split session has been confirmed.")) := by
  cases h with
  | @press i u _ hpage hauthor hcheck =>
    refine ⟨finishPage i b, rfl, ?_⟩
    simp [start, hpage, onButtonInteraction, hauthor, confirm, hcheck]

/-- The first `k` updates of the payout, and that the next one, if any is left, throws. -/
structure Commits (page : Page) (fs : List Bool) (k : ℕ) (db db' : DB) : Prop where
  le : k ≤ (payout page).length
  applied : Sql.applyAll ((payout page).take k) db = some db'
  before : ∀ i < k, fs.getD i false = false
  thrown : ∀ hk : k < (payout page).length,
    fs.getD k false = true ∨ (payout page)[k] db' = none

theorem press_cases {env : Env} {b t : Bot} {a : Action} {page : Page} {fs : List Bool}
    {r : Except Exn Reply} (hp : Pays b a page) (h : perform env ⟨a, fs⟩ b = some (r, t)) :
    ∃ k, Commits page fs k b.db t.db ∧ (r.isOk ↔ k = (payout page).length) := by
  obtain ⟨b', hdb, hs⟩ := start_pays env hp
  simp only [perform, hs, Option.map_some, Option.some.injEq] at h
  rcases Sql.run_script_bind ((payout page).map onDb) fs
    (fun _ => Sql.ret (Reply.embed "Loot Split Confirmed"
      "The loot split session has been confirmed.")) b' with
    ⟨s, h1, h2, h3⟩ | ⟨k, hk, s, h1, h2, h3, h4⟩
  · rw [h3, Sql.run_ret] at h
    obtain ⟨rfl, rfl⟩ := Prod.mk.inj h
    rw [applyAll_onDb, Option.map_eq_some_iff] at h1
    obtain ⟨db, hdb', rfl⟩ := h1
    refine ⟨(payout page).length, ⟨le_rfl, ?_, ?_, fun hk => absurd hk (lt_irrefl _)⟩, ?_⟩
    · rw [List.take_length, ← hdb]; exact hdb'
    · simpa using h2
    · simp [Except.isOk, Except.toBool]
  · rw [h4] at h
    obtain ⟨rfl, rfl⟩ := Prod.mk.inj h
    rw [← List.map_take, applyAll_onDb, Option.map_eq_some_iff] at h1
    obtain ⟨db, hdb', rfl⟩ := h1
    rw [List.length_map] at hk
    refine ⟨k, ⟨hk.le, by rw [← hdb]; exact hdb', h2, fun hk => ?_⟩, ?_⟩
    · refine h3.imp id fun hnone => ?_
      simpa [onDb] using hnone
    · simp [Except.isOk, Except.toBool, hk.ne]

end AtomComm.LootSplit
