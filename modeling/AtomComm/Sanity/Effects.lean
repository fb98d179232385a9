import AtomComm.Spec.LootSplit.System

/-! What the statements of the loot split bot can do, action by action. `start_within` is
the one place where every command is unfolded: each statement that a program issues is a
query or one of the updates that `Effect` lists for its action. The invariants argue from
`Effect`. -/

namespace AtomComm.LootSplit

/-- The press of a confirm button that gets to the payout of its page. -/
inductive Pays (b : Bot) : Action → Page → Prop
  | press {i u page} : b.pages[i]? = some page → u.id = page.authorID →
      preConfirmCheck u page = true → Pays b (.press i u .confirm) page

/-- The guild list that an action uploads. -/
inductive UploadsList (env : Env) (b : Bot) : Action → String → ℤ → List String → Prop
  | text {g u guildName names} : u.allowed env →
      UploadsList env b (.slash g u (.guildUpload guildName (.text names))) guildName g names
  | file {j names uploadId guildName g} : b.pending[j]? = some (.guild guildName g) →
      UploadsList env b (.complete j names uploadId) guildName g names

/-- The split that an action adds listed players to, if it is known before the action runs. -/
inductive UploadsSplit (env : Env) (b : Bot) : Action → Option String → ℤ → Prop
  | text {g u uploadId names} : u.allowed env →
      UploadsSplit env b (.slash g u (.lootSplitGuildUpload uploadId (.text names))) none g
  | image {g u uploadId words} : u.allowed env →
      UploadsSplit env b (.slash g u (.lootSplitPartyUpload uploadId words)) none g
  | file {j names uploadId splitId g} : b.pending[j]? = some (.lootSplit splitId g) →
      UploadsSplit env b (.complete j names uploadId) (some splitId) g

/-- One statement of the program of an action that was started in `b`. -/
inductive Effect (env : Env) (b : Bot) : Action → Bot → Bot → Prop
  | query {a t} : Effect env b a t t
  | give {g u username amount t db} : u.allowed env →
      giveUserAmount username amount t.db = some db →
      Effect env b (.slash g u (.give username amount)) t { t with db := db }
  | remove {g u username amount t db} : u.allowed env →
      removeUserAmount username amount t.db = some db →
      Effect env b (.slash g u (.remove username amount)) t { t with db := db }
  | register {g u username user t} : (u.allowed env ∨ u.id = user.getD u.id) →
      Effect env b (.slash g u (.register username user)) t
        { t with db := registerTheUser username (user.getD u.id) t.db }
  | unregister {g u username user t} : (u.allowed env ∨ u.id = user.getD u.id) →
      Effect env b (.slash g u (.unregister username user)) t
        { t with db := unregisterTheUser username (user.getD u.id) t.db }
  | guestsetup {g u role duration t} : u.allowed env →
      Effect env b (.slash g u (.guestsetup role duration)) t
        { t with db := addNewRole role duration g t.db }
  | guildRemove {g u guildName t} : u.allowed env →
      Effect env b (.slash g u (.guildRemove guildName)) t
        { t with db := removeGuildList guildName g t.db }
  | guildRemoveUser {g u user t} : u.allowed env →
      Effect env b (.slash g u (.guildRemoveUser user)) t
        { t with db := removeGuildUser g user t.db }
  | guildAddUser {g u user t} : u.allowed env →
      Effect env b (.slash g u (.guildAddUser user)) t { t with db := addGuildUser g user t.db }
  | dropList {a guildName g names t} : UploadsList env b a guildName g names →
      Effect env b a t { t with db := removeGuildList guildName g t.db }
  | listName {a guildName g names name t} : UploadsList env b a guildName g names →
      Effect env b a t { t with db := uploadGuildName guildName name g t.db }
  | words {a t} : Effect env b a t { t with db := postProcessPlayersTable t.db }
  | download {g u c upload t} : u.allowed env →
      Effect env b (.slash g u c) t { t with pending := t.pending ++ [upload] }
  | create {g u name splitId t} : u.allowed env →
      Effect env b (.slash g u (.create name splitId)) t
        { t with db := createNewLootSplitSession splitId name g u.name t.db }
  | add {g u username uploadId splitId t db} : u.allowed env →
      addPlayerToLootSplit splitId uploadId username g t.db = some db →
      Effect env b (.slash g u (.add username uploadId)) t { t with db := db }
  | listed {a target g uploadId splitId name t} : UploadsSplit env b a target g →
      (∀ s, target = some s → splitId = s) →
      Effect env b a t { t with db := addListedPlayer uploadId splitId name g t.db }
  | removePlayer {g u username splitId t} : u.allowed env →
      Effect env b (.slash g u (.removePlayer username)) t
        { t with db := removePlayerFromLootSplit splitId username t.db }
  | half {g u username splitId t} : u.allowed env →
      Effect env b (.slash g u (.half username)) t
        { t with db := makePlayerBalanceHalvedInLootSplit splitId username t.db }
  | set {g u silver items splitId t} : u.allowed env →
      Effect env b (.slash g u (.set silver items)) t
        { t with db := setLootSplitSilverAndItems splitId silver items t.db }
  | page {g u splitId s amount t} : u.allowed env →
      Effect env b (.slash g u (.confirm splitId)) t
        { t with pages := t.pages ++
          [⟨u.id, s, amount, getLootSplitSessionCreator t.db g, false, g⟩] }
  | pay {a page f t db} : Pays b a page → f ∈ payout page → f t.db = some db →
      Effect env b a t { t with db := db }

section Rules
variable {env : Env} {b : Bot} {a : Action} {α β : Type}

/-- A program whose statements are all effects of `a`. -/
abbrev Keeps (env : Env) (b : Bot) (a : Action) (p : Cmd α) : Prop :=
  p.Within (fun _ => True) (Effect env b a)

theorem keeps_read {q : DB → α} : Keeps env b a (read q) :=
  Sql.within_query (fun _ => .query) _

theorem keeps_tryWrite {f : DB → Option DB}
    (hf : ∀ t db, f t.db = some db → Effect env b a t { t with db := db }) :
    Keeps env b a (tryWrite f) := by
  refine Sql.within_attempt fun t t' _ h => ⟨trivial, ?_⟩
  obtain ⟨db, hdb, rfl⟩ := Option.map_eq_some_iff.1 h
  exact hf t db hdb

theorem keeps_write {f : DB → DB} (hf : ∀ t, Effect env b a t { t with db := f t.db }) :
    Keeps env b a (write f) := by
  refine keeps_tryWrite fun t db h => ?_
  obtain rfl := Option.some.inj h
  exact hf t

theorem keeps_executeBatch {fs : List (DB → DB)}
    (hf : ∀ f ∈ fs, ∀ t, Effect env b a t { t with db := f t.db }) :
    Keeps env b a (executeBatch fs) := by
  refine Sql.within_script fun f hmem t t' _ h => ⟨trivial, ?_⟩
  obtain ⟨f, hf', rfl⟩ := List.mem_map.1 hmem
  obtain ⟨db, hdb, rfl⟩ := Option.map_eq_some_iff.1 h
  obtain rfl := Option.some.inj hdb
  exact hf f hf' t

theorem keeps_bind {p : Cmd α} {g : α → Cmd β} (hp : Keeps env b a p)
    (hg : ∀ x, Keeps env b a (g x)) : Keeps env b a (p >>= g) :=
  Sql.within_bind hp hg

/-- A query and what follows it. -/
theorem keeps_read_bind {q : DB → α} {g : α → Cmd β} (hg : ∀ x, Keeps env b a (g x)) :
    Keeps env b a (read q >>= g) :=
  keeps_bind keeps_read hg

theorem keeps_write_ret {f : DB → DB} {r : Reply}
    (hf : ∀ t, Effect env b a t { t with db := f t.db }) :
    Keeps env b a (write f >>= fun _ => pure r) :=
  keeps_bind (keeps_write hf) fun _ => trivial

theorem keeps_ite {c : Prop} [Decidable c] {p q : Cmd α} (hp : c → Keeps env b a p)
    (hq : ¬c → Keeps env b a q) : Keeps env b a (if c then p else q) :=
  Sql.within_ite hp hq

/-- The role check lets the member through or ends the command. -/
theorem keeps_requireRole {u : User} {p : Cmd Reply} (hp : u.allowed env = true → Keeps env b a p) :
    Keeps env b a (requireRole env u p) :=
  keeps_ite (fun _ => trivial) fun h => hp (by simpa using h)

end Rules

section Programs
variable {env : Env} {b : Bot} {a : Action} {g : ℤ} {u : User}

theorem keeps_register {username : String} {user : Option ℤ} :
    Keeps env b (.slash g u (.register username user)) (registerCommand env u username user) := by
  unfold registerCommand
  refine keeps_ite (fun _ => trivial) fun h => ?_
  refine keeps_read_bind fun ex => keeps_ite (fun _ => trivial) fun _ => ?_
  refine keeps_read_bind fun reg => keeps_ite (fun _ => trivial) fun _ => ?_
  refine keeps_write_ret fun t => .register ?_
  by_contra hno
  simp_all

theorem keeps_unregister {username : String} {user : Option ℤ} :
    Keeps env b (.slash g u (.unregister username user))
      (unregisterCommand env u username user) := by
  unfold unregisterCommand
  refine keeps_ite (fun _ => trivial) fun h => ?_
  refine keeps_read_bind fun ex => keeps_ite (fun _ => trivial) fun _ => ?_
  refine keeps_read_bind fun reg => keeps_ite (fun _ => trivial) fun _ => ?_
  refine keeps_write_ret fun t => .unregister ?_
  by_contra hno
  simp_all

theorem keeps_balance {player : Option ℤ} : Keeps env b a (balanceCommand u player) := by
  unfold balanceCommand
  refine keeps_read_bind fun reg => keeps_ite (fun _ => trivial) fun _ => ?_
  exact keeps_read_bind fun name => keeps_read_bind fun balance => trivial

theorem keeps_leaderboard : Keeps env b a leaderboardCommand := by
  unfold leaderboardCommand
  exact keeps_read_bind fun top => keeps_ite (fun _ => trivial) fun _ => trivial

theorem keeps_guestSetup {role : String} {duration : ℤ} :
    Keeps env b (.slash g u (.guestsetup role duration))
      (guestSetupCommand env g u role duration) := by
  unfold guestSetupCommand getAsInt
  split
  · trivial
  · rename_i d hd
    obtain rfl : duration = d := by split at hd <;> simp_all
    refine keeps_ite (fun _ => trivial) fun h => keeps_write_ret fun t => .guestsetup ?_
    simpa using h

theorem keeps_addUsers {insert : List String → List (DB → DB)} {batches : List (List String)}
    (h : ∀ batch, ∀ f ∈ insert batch, ∀ t, Effect env b a t { t with db := f t.db }) :
    Keeps env b a (addUsersToDatabase insert batches) := by
  induction batches with
  | nil => exact keeps_write fun t => .words
  | cons batch rest ih =>
    refine keeps_bind (Sql.within_tryCatch (keeps_executeBatch (h batch)) fun _ => trivial) ?_
    exact fun _ => ih

theorem keeps_uploadGuildUsers {guildName : String} {names : List String}
    (h : UploadsList env b a guildName g names) :
    Keeps env b a (uploadGuildUsers guildName names g) := by
  unfold uploadGuildUsers
  refine keeps_read_bind fun listed => keeps_bind ?_ fun _ => keeps_addUsers ?_
  · exact keeps_ite (fun _ => keeps_write fun t => .dropList h) fun _ => trivial
  · intro batch f hf t
    obtain ⟨name, -, rfl⟩ := List.mem_map.1 hf
    exact .listName h

theorem keeps_sendPaginator {names : List String} :
    Keeps env b a (sendGuildUploadPaginator names) :=
  keeps_ite (fun _ => trivial) fun _ => trivial

theorem keeps_guildUpload {guildName : String} {source : Source} (hu : u.allowed env = true) :
    Keeps env b (.slash g u (.guildUpload guildName source))
      (guildUploadCommand g guildName source) := by
  cases source with
  | text names =>
    exact keeps_bind (keeps_uploadGuildUsers (.text hu)) fun _ => keeps_sendPaginator
  | file =>
    exact keeps_bind (Sql.within_exec fun t _ => ⟨trivial, .download hu⟩) fun _ => trivial
  | neither => trivial
  | both => trivial
  | imageOrVideo => trivial

theorem keeps_create {name splitId : String} (hu : u.allowed env = true) :
    Keeps env b (.slash g u (.create name splitId)) (lootSplitCreateCommand g u name splitId) := by
  unfold lootSplitCreateCommand
  refine keeps_read_bind fun active => keeps_ite (fun _ => trivial) fun _ => ?_
  refine keeps_read_bind fun reg => keeps_ite (fun _ => trivial) fun _ => ?_
  exact keeps_write_ret fun t => .create hu

theorem keeps_add {username uploadId : String} (hu : u.allowed env = true) :
    Keeps env b (.slash g u (.add username uploadId))
      (lootSplitAddCommand env g username uploadId) := by
  unfold lootSplitAddCommand
  refine keeps_read_bind fun splitId => keeps_read_bind fun active => ?_
  refine keeps_ite (fun _ => trivial) fun _ => keeps_read_bind fun ex => ?_
  refine keeps_ite (fun _ => trivial) fun _ => ?_
  exact keeps_bind (keeps_tryWrite fun t db h => .add hu h) fun _ => trivial

theorem keeps_removePlayer {username : String} (hu : u.allowed env = true) :
    Keeps env b (.slash g u (.removePlayer username)) (lootSplitRemoveCommand env g username) := by
  unfold lootSplitRemoveCommand
  refine keeps_read_bind fun splitId => keeps_read_bind fun active => ?_
  refine keeps_ite (fun _ => trivial) fun _ => keeps_read_bind fun ex => ?_
  exact keeps_ite (fun _ => trivial) fun _ => keeps_write_ret fun t => .removePlayer hu

theorem keeps_half {username : String} (hu : u.allowed env = true) :
    Keeps env b (.slash g u (.half username)) (lootSplitHalfBalanceCommand g username) := by
  unfold lootSplitHalfBalanceCommand
  refine keeps_read_bind fun splitId => keeps_read_bind fun member => ?_
  exact keeps_ite (fun _ => trivial) fun _ => keeps_write_ret fun t => .half hu

theorem keeps_set {silver items : ℤ} (hu : u.allowed env = true) :
    Keeps env b (.slash g u (.set silver items)) (lootSplitSetCommand g silver items) := by
  unfold lootSplitSetCommand getAsInt
  split
  · rename_i s i hs hi
    obtain rfl : silver = s := by split at hs <;> simp_all
    obtain rfl : items = i := by split at hi <;> simp_all
    refine keeps_read_bind fun active => keeps_ite (fun _ => trivial) fun _ => ?_
    exact keeps_read_bind fun splitId => keeps_write_ret fun t => .set hu
  · trivial

theorem keeps_list : Keeps env b a (lootSplitListCommand g) :=
  keeps_read_bind fun _ => keeps_ite (fun _ => trivial) fun _ => trivial

theorem keeps_splitFigures {title splitId : String}
    {k : Session → Option Double → SplitPages → Cmd Reply}
    (hk : ∀ info amount pages, Keeps env b a (k info amount pages)) :
    Keeps env b a (splitFigures env title g splitId k) := by
  unfold splitFigures
  refine keeps_read_bind fun active => keeps_ite (fun _ => trivial) fun _ => ?_
  refine keeps_read_bind fun figures => ?_
  split
  · trivial
  · refine keeps_read_bind fun count => keeps_read_bind fun info => ?_
    split
    · trivial
    · refine keeps_bind ?_ fun pages => hk _ _ pages
      exact keeps_read_bind fun _ => keeps_read_bind fun _ => keeps_read_bind fun _ => trivial

theorem keeps_confirmCommand {splitId : String} (hu : u.allowed env = true) :
    Keeps env b (.slash g u (.confirm splitId)) (lootSplitConfirmCommand env g u splitId) := by
  refine keeps_splitFigures fun info amount pages => keeps_bind ?_ fun _ => trivial
  exact Sql.within_exec fun t _ => ⟨trivial, .page hu⟩

theorem keeps_uploadSplitPlayers {splitId uploadId : String} {names : List String}
    {target : Option String} (h : UploadsSplit env b a target g)
    (hs : ∀ s, target = some s → splitId = s) :
    Keeps env b a (uploadSplitPlayers splitId uploadId names g) := by
  unfold uploadSplitPlayers
  refine keeps_bind (keeps_addUsers ?_) fun _ => ?_
  · intro batch f hf t
    obtain ⟨name, -, rfl⟩ := List.mem_map.1 hf
    exact .listed h hs
  · exact keeps_bind (Sql.within_tryCatch keeps_read fun _ => trivial) fun _ => trivial

theorem keeps_lootSplitGuildUpload {uploadId : String} {source : Source}
    (hu : u.allowed env = true) :
    Keeps env b (.slash g u (.lootSplitGuildUpload uploadId source))
      (lootSplitGuildUploadCommand g uploadId source) := by
  unfold lootSplitGuildUploadCommand
  refine keeps_read_bind fun splitId => ?_
  split
  · trivial
  · cases source with
    | text names => exact keeps_uploadSplitPlayers (.text hu) (by simp)
    | file =>
      exact keeps_bind (Sql.within_exec fun t _ => ⟨trivial, .download hu⟩) fun _ => trivial
    | neither => trivial
    | both => trivial
    | imageOrVideo => trivial

theorem keeps_spellFixMatch {rt : Runtime} {word : String} :
    Keeps env b a (spellFixMatch rt word g) := by
  unfold spellFixMatch
  refine keeps_ite (fun _ => trivial) fun _ => Sql.within_tryCatch ?_ fun _ => trivial
  exact keeps_read_bind fun words => keeps_ite (fun _ => trivial) fun _ => keeps_read

theorem keeps_getValidNames {rt : Runtime} {words : List String} :
    Keeps env b a (getValidNamesFromImage rt g words) := by
  induction words with
  | nil => trivial
  | cons word words ih =>
    exact keeps_bind keeps_spellFixMatch fun _ => keeps_bind ih fun _ => trivial

theorem keeps_partyUpload {uploadId : String} {words : Option (List String)}
    (hu : u.allowed env = true) :
    Keeps env b (.slash g u (.lootSplitPartyUpload uploadId words))
      (lootSplitPartyUploadCommand env g uploadId words) := by
  unfold lootSplitPartyUploadCommand
  refine keeps_read_bind fun splitId => ?_
  split
  · trivial
  · split
    · trivial
    · refine keeps_bind keeps_getValidNames fun names => keeps_ite (fun _ => trivial) fun _ => ?_
      refine keeps_bind (keeps_executeBatch ?_) fun _ =>
        keeps_ite (fun _ => trivial) fun _ => trivial
      intro f hf t
      obtain ⟨name, -, rfl⟩ := List.mem_map.1 hf
      exact .listed (.image hu) (by simp)

theorem keeps_execute (c : Command) : Keeps env b (.slash g u c) (execute env g u c) := by
  cases c with
  | give username amount =>
    refine keeps_ite (fun _ => trivial) fun hu => ?_
    exact keeps_bind (keeps_tryWrite fun t db h => .give (by simpa using hu) h) fun _ => trivial
  | remove username amount =>
    refine keeps_ite (fun _ => trivial) fun hu => ?_
    exact keeps_bind (keeps_tryWrite fun t db h => .remove (by simpa using hu) h) fun _ => trivial
  | register username user => exact keeps_register
  | unregister username user => exact keeps_unregister
  | bal player => exact keeps_balance
  | leaderboard => exact keeps_leaderboard
  | guestsetup role duration => exact keeps_guestSetup
  | guildUpload guildName source => exact keeps_requireRole fun hu => keeps_guildUpload hu
  | guildRemove guildName =>
    exact keeps_requireRole fun hu => keeps_write_ret fun t => .guildRemove hu
  | guildRemoveUser user =>
    exact keeps_requireRole fun hu => keeps_write_ret fun t => .guildRemoveUser hu
  | guildAddUser user =>
    exact keeps_requireRole fun hu => keeps_write_ret fun t => .guildAddUser hu
  | create name splitId => exact keeps_requireRole keeps_create
  | add username uploadId => exact keeps_requireRole keeps_add
  | removePlayer username => exact keeps_requireRole keeps_removePlayer
  | half username => exact keeps_requireRole keeps_half
  | set silver items => exact keeps_requireRole keeps_set
  | confirm splitId => exact keeps_requireRole keeps_confirmCommand
  | info splitId => exact keeps_requireRole fun _ => keeps_splitFigures fun _ _ _ => trivial
  | list => exact keeps_list
  | lootSplitGuildUpload uploadId source => exact keeps_requireRole keeps_lootSplitGuildUpload
  | lootSplitPartyUpload uploadId words => exact keeps_requireRole keeps_partyUpload

theorem keeps_confirm {i : ℕ} {page : Page} (hp : b.pages[i]? = some page)
    (hu : u.id = page.authorID) : Keeps env b (.press i u .confirm) (confirm u page) := by
  unfold confirm
  refine keeps_ite (fun _ => trivial) fun hc => keeps_bind (Sql.within_script ?_) fun _ => trivial
  intro f hf t t' _ h
  obtain ⟨f, hmem, rfl⟩ := List.mem_map.1 hf
  obtain ⟨db, hdb, rfl⟩ := Option.map_eq_some_iff.1 h
  exact ⟨trivial, .pay (.press hp hu (by simpa using hc)) hmem hdb⟩

end Programs

/-- What an action does to the memory before its program runs. -/
def Prepared (b b' : Bot) : Prop :=
  b'.db = b.db ∧ b'.pending.Sublist b.pending ∧
    b'.pages.map (fun page => { page with isSessionFinished := false }) =
      b.pages.map fun page => { page with isSessionFinished := false }

theorem prepared_finishPage (i : ℕ) (b : Bot) : Prepared b (finishPage i b) := by
  refine ⟨rfl, List.Sublist.refl _, List.ext_getElem? fun j => ?_⟩
  simp only [finishPage, List.getElem?_map, List.getElem?_modify]
  split <;> cases b.pages[j]? <;> rfl

/-- An action only sets flags and takes its download, and then runs statements that are its
effects. -/
theorem start_within {env : Env} {b b' : Bot} {a : Action} {p : Cmd Reply}
    (h : start env a b = some (b', p)) : Prepared b b' ∧ Keeps env b a p := by
  cases a with
  | slash g u c =>
    cases h
    exact ⟨⟨rfl, List.Sublist.refl _, rfl⟩, keeps_execute c⟩
  | press i u button =>
    obtain ⟨page, hp, he⟩ := Option.map_eq_some_iff.1 h
    unfold onButtonInteraction at he
    split at he
    · cases he
      exact ⟨⟨rfl, List.Sublist.refl _, rfl⟩, trivial⟩
    · rename_i hu
      cases he
      refine ⟨prepared_finishPage i b, ?_⟩
      cases button with
      | confirm => exact keeps_confirm hp (by simpa using hu)
      | cancel => trivial
  | complete j names uploadId =>
    obtain ⟨upload, hp, he⟩ := Option.map_eq_some_iff.1 h
    cases he
    refine ⟨⟨rfl, List.eraseIdx_sublist .., rfl⟩, ?_⟩
    cases upload with
    | guild guildName g =>
      exact keeps_bind (keeps_uploadGuildUsers (.file hp)) fun _ => keeps_sendPaginator
    | lootSplit splitId g => exact keeps_uploadSplitPlayers (.file hp) (by simp)

/-! ### Invariants from effects -/

/-- What every statement keeps, whatever the order of the statements of different threads,
holds in every reachable state. -/
theorem reachable_of_effects {env : Env} {I : DB → Prop} (h0 : I DB.empty)
    (heff : ∀ b a t t', Effect env b a t t' → I t.db → I t'.db) {b : Bot}
    (h : Reachable env b) : I b.db := by
  obtain ⟨P, hP, rfl⟩ := h
  refine System.reaches_invariant (I := fun b => I b.db) h0 ?_ hP
  rintro i s s' p hI ⟨a, -, hst⟩
  obtain ⟨⟨hdb, -, -⟩, hk⟩ := start_within hst
  refine ⟨hdb ▸ hI, hk.imp (fun _ _ => trivial) ?_⟩
  exact fun t t' ht he => ⟨heff s a t t' he ht, trivial⟩

end AtomComm.LootSplit
