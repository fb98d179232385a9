import AtomComm.Lib.Ledger
import AtomComm.Sanity.Credits
import AtomComm.Sanity.Members
import AtomComm.Sanity.Press

/-! The balances of the players as a ledger. Only `/give`, `/remove` and the confirm button of a
submission page book anything, and they book by the name alone; uploads and the commands on guild
lists open rows and delete them. So a balance is the sum of what was booked to the name since its
row was opened, whatever else happened and whichever statements failed. -/

namespace AtomComm.LootSplit

/-- The rows of `players` as accounts. -/
def accounts : Accounts Player String Double := ⟨Player.username, Player.balance, .fin 0⟩

/-- What `/give` and `/remove` book, and to whom. -/
def gift (env : Env) : Action → Option (String × ℚ)
  | .slash _ u (.give username amount) => if u.allowed env then some (username, amount) else none
  | .slash _ u (.remove username amount) => if u.allowed env then some (username, -amount) else none
  | _ => none

/-- The amount of a page that was opened for a split with members. -/
def paidAmount (page : Page) : ℚ := (page.amount.map Double.toRat).getD 0

/-- What the two updates of a payout that pay players book to a name, as far as they are
executed: the fourth to halved members and the fifth to the others. -/
def shares (db : DB) (splitId : String) (a : ℚ) (fourth fifth : Bool) (username : String) : ℚ :=
  (if fourth && inSplit db splitId true username then share a true else 0) +
    if fifth && inSplit db splitId false username then share a false else 0

/-- What an event books to the players of a name. -/
def booked (env : Env) (e : Event Input Bot) (username : String) : ℚ :=
  match gift env e.input.action, payingPage e.before e.input.action with
  | some (name, amount), _ => if e.input.faults.headD false || name != username then 0 else amount
  | none, some page =>
    -- an update is executed unless a statement up to it is made to throw
    shares e.before.db page.splitId (paidAmount page) (true ∉ e.input.faults.take 4)
      (true ∉ e.input.faults.take 5) username
  | none, none => 0

/-- The amount that an event pays is a number: the page was opened for a split with members. -/
def PaysFinite (e : Event Input Bot) : Prop :=
  ∀ page ∈ payingPage e.before e.input.action, ∃ x ∈ page.amount, x.IsFin

instance (e : Event Input Bot) : Decidable (PaysFinite e) :=
  inferInstanceAs (Decidable (∀ page ∈ payingPage .., ∃ x ∈ page.amount, x.IsFin))

section Press
variable {page : Page} {a : ℚ} {k : ℕ} {db db' : DB} {fs : List Bool}

/-- The updates of a number throw on no database. -/
theorem payout_isSome (ha : page.amount = some (.fin a)) {f : DB → Option DB}
    (hf : f ∈ payout page) : (f db).isSome = true := by
  simp only [payout, addBalanceToAllLootSplitPlayers, ha, List.mem_append, List.mem_cons,
    List.not_mem_nil, or_false] at hf
  rcases hf with (rfl | rfl | rfl | rfl | rfl) | rfl
  · rw [creditSession_fin]; rfl
  · rw [creditSplitPlayers_fin]; rfl
  · rw [half_fin, creditSplitPlayers_fin]; rfl
  · rw [half_fin, creditUsernames, creditPlayers_fin]; rfl
  · rw [creditUsernames, creditPlayers_fin]; rfl
  · rfl

/-- The updates before the fault are those that are executed. -/
theorem Commits.executed (h : Commits page fs k db db') (ha : page.amount = some (.fin a)) {i : ℕ}
    (hi : i < 6) : true ∉ fs.take (i + 1) ↔ i < k := by
  constructor
  · intro hno
    by_contra hk
    have hlt : k < (payout page).length := lt_of_le_of_lt (not_lt.1 hk) hi
    rcases h.thrown hlt with hfault | hnone
    · rw [List.getD_eq_getElem?_getD, Option.getD_eq_iff] at hfault
      obtain hget | ⟨-, hfalse⟩ := hfault
      · obtain ⟨hlen, hget⟩ := List.getElem?_eq_some_iff.1 hget
        exact hno (List.mem_take_iff_getElem.2 ⟨k, by omega, hget⟩)
      · cases hfalse
    · have hsome : ((payout page)[k] db').isSome = true := payout_isSome ha (List.getElem_mem hlt)
      rw [hnone] at hsome
      cases hsome
  · intro hk hmem
    obtain ⟨j, hj, hget⟩ := List.mem_take_iff_getElem.1 hmem
    have hcalm := h.before j (by omega)
    rw [List.getD_eq_getElem?_getD, List.getElem?_eq_getElem (by omega), hget] at hcalm
    cases hcalm

/-- The first three updates pay no player. -/
theorem players_kept {us : List (DB → Option DB)} (hus : ∀ f ∈ us, f ∈ (payout page).take 3)
    (h : Sql.applyAll us db = some db') : db'.players = db.players := by
  induction us generalizing db with
  | nil =>
    cases h
    rfl
  | cons f us ih =>
    obtain ⟨db₁, h1, h2⟩ := Option.bind_eq_some_iff.1 h
    rw [ih (fun g hg => hus g (List.mem_cons_of_mem _ hg)) h2]
    have hf := hus f List.mem_cons_self
    simp only [payout, addBalanceToAllLootSplitPlayers, List.cons_append, List.take_succ_cons,
      List.take_zero, List.mem_cons, List.not_mem_nil, or_false] at hf
    rcases hf with rfl | rfl | rfl <;> obtain ⟨_, -, rfl⟩ := Option.map_eq_some_iff.1 h1 <;> rfl

/-- What the first `k` updates make of the players. -/
theorem players_after (ha : page.amount = some (.fin a))
    (h : Sql.applyAll ((payout page).take k) db = some db') :
    db'.players = db.players.mapRows fun r => { r with
      balance := r.balance.plus (shares db page.splitId a (3 < k) (4 < k) r.username) } := by
  have hmany : 4 < k → (credited page.splitId a db).players = db.players.mapRows fun r => { r with
      balance := r.balance.plus (shares db page.splitId a (3 < k) (4 < k) r.username) } := by
    intro hk
    have h3 : 3 < k := by omega
    simp [credited, gain, shares, h3, hk]
  obtain hk | rfl | rfl | hk : k ≤ 3 ∨ k = 4 ∨ k = 5 ∨ 6 ≤ k := by omega
  · have h3 : ¬3 < k := by omega
    have h4 : ¬4 < k := by omega
    have hsub : ∀ f ∈ (payout page).take k, f ∈ (payout page).take 3 := fun f hf =>
      List.take_subset_take_left _ hk hf
    rw [players_kept hsub h]
    refine (Table.mapRows_eq_self.2 fun r _ => ?_).symm
    simp [shares, h3, h4]
  · simp only [payout, addBalanceToAllLootSplitPlayers, ha, List.cons_append, List.take_succ_cons,
      List.take_zero, Sql.applyAll, half_fin, creditSession_fin, creditSplitPlayers_fin,
      creditUsernames, creditPlayers_fin, Option.bind_some] at h
    cases h
    dsimp only
    rw [Table.update_eq_mapRows]
    refine Table.mapRows_congr fun r _ => ?_
    rw [inSplit_credit (update_members db.lootsplitPlayers page.splitId a)]
    split <;> simp [shares, *]
  · change Sql.applyAll (addBalanceToAllLootSplitPlayers page.splitId page.amount) db = _ at h
    rw [ha, addBalance_fin] at h
    cases h
    exact hmany (by omega)
  · have hall : (payout page).take k = payout page := List.take_of_length_le hk
    rw [hall, payout, ha, Sql.applyAll_append, addBalance_fin] at h
    cases h
    exact hmany (by omega)

end Press

/-! ### One event -/

section Event
variable {env : Env} {b t t' : Bot} {act : Action} {fs : List Bool}

theorem books_credit {db : DB} {w : String} {x : ℚ} :
    Books accounts (fun name => if w = name then x else 0) db.players
      (db.players.update (fun r => r.username = w)
        fun r => { r with balance := r.balance.plus x }) := by
  refine books_mapRows (fun r => ?_) fun r => ?_
  · dsimp only
    split <;> rfl
  · dsimp only [accounts]
    rw [Double.vadd_eq]
    by_cases h : r.username = w
    · simp [h]
    · simp [h, Ne.symm h]

/-- The program of a gift. -/
theorem start_gift {w : String} {x : ℚ} (h : gift env act = some (w, x)) :
    ∃ reply : Reply, start env act b = some (b,
      (tryWrite (creditPlayers (fun r => r.username = w) (some (.fin x)))).bind
        fun _ => .ret reply) := by
  unfold gift at h
  split at h
  · rename_i u username amount
    split at h
    · rename_i hu
      cases h
      refine ⟨sendAmountAddedToPlayer w x, ?_⟩
      simp only [start, execute, giveUserAmountCommand, hu]
      rfl
    · cases h
  · rename_i u username amount
    split at h
    · rename_i hu
      cases h
      refine ⟨sendAmountRemovedFromPlayer w amount, ?_⟩
      simp only [start, execute, removeUserAmountCommand, hu]
      rfl
    · cases h
  · cases h

/-- The statements of all other actions open rows, delete them, or leave names and balances. -/
theorem effect_booksNothing (he : Effect env b act t t') (hgift : gift env act = none)
    (hpage : payingPage b act = none) : BooksNothing ℚ accounts t.db.players t'.db.players := by
  cases he with
  | give hu | remove hu => simp [gift, hu] at hgift
  | register | unregister =>
    dsimp only [registerTheUser, unregisterTheUser]
    exact booksNothing_update fun _ => ⟨rfl, rfl⟩
  | guildRemove | guildRemoveUser | dropList =>
    dsimp only [removeGuildList, removeGuildUser]
    exact booksNothing_delete
  | guildAddUser =>
    dsimp only [addGuildUser]
    exact booksNothing_insert rfl
  | listName =>
    dsimp only
    unfold uploadGuildName
    split
    · exact booksNothing_refl _
    · exact booksNothing_insert rfl
  | add _ hdb =>
    rcases addPlayer_cases hdb with rfl | ⟨_, -, -, -, rfl⟩ <;> exact booksNothing_refl _
  | listed =>
    dsimp only
    unfold addListedPlayer
    split <;> exact booksNothing_refl _
  | pay hp =>
    rw [pays_iff.1 hp] at hpage
    cases hpage
  | _ => exact booksNothing_refl _

variable {r : Except Exn Reply}

theorem books_gift {w : String} {x : ℚ} (hgift : gift env act = some (w, x))
    (h : perform env ⟨act, fs⟩ b = some (r, t)) :
    Books accounts (booked env ⟨⟨act, fs⟩, b, t⟩) b.db.players t.db.players := by
  obtain ⟨reply, hstart⟩ := start_gift (b := b) hgift
  simp only [perform, hstart, Option.map_some, Option.some.injEq, tryWrite] at h
  rw [Sql.run_attempt_bind] at h
  cases hf : fs.headD false with
  | true =>
    have hnone : booked env ⟨⟨act, fs⟩, b, t⟩ = fun _ => 0 := by
      funext name
      simp only [booked, hgift, hf, Bool.true_or, if_true]
    simp only [hf] at h
    cases h
    rw [hnone]
    exact booksNothing_refl _
  | false =>
    have hall : booked env ⟨⟨act, fs⟩, b, t⟩ = fun name => if w = name then x else 0 := by
      funext name
      by_cases hw : w = name <;>
        simp only [booked, hgift, hf, hw, Bool.false_or, bne_self_eq_false, bne_iff_ne, ne_eq,
          not_false_eq_true, Bool.false_eq_true, if_true, if_false]
    simp only [hf, onDb, creditPlayers_fin, Option.map_some, Sql.run_ret] at h
    cases h
    rw [hall]
    exact books_credit

theorem books_press {page : Page} (hgift : gift env act = none)
    (hpage : payingPage b act = some page) (hfin : ∃ x ∈ page.amount, x.IsFin)
    (h : perform env ⟨act, fs⟩ b = some (r, t)) :
    Books accounts (booked env ⟨⟨act, fs⟩, b, t⟩) b.db.players t.db.players := by
  obtain ⟨y, hy, hyfin⟩ := hfin
  have ha : page.amount = some (.fin (paidAmount page)) := by
    have hy' : page.amount = some y := hy
    rw [paidAmount, hy', Option.map_some, Option.getD_some, ← hyfin.eq]
  obtain ⟨k, hk, -⟩ := press_cases (pays_iff.2 hpage) h
  have hbooked : booked env ⟨⟨act, fs⟩, b, t⟩ = fun name =>
      shares b.db page.splitId (paidAmount page) (3 < k) (4 < k) name := by
    funext name
    simp only [booked, hgift, hpage, hk.executed ha (i := 3) (by omega),
      hk.executed ha (i := 4) (by omega)]
  rw [hbooked, players_after ha hk.applied]
  exact books_mapRows (fun _ => rfl) fun _ => rfl

theorem books_other (hgift : gift env act = none) (hpage : payingPage b act = none)
    (h : perform env ⟨act, fs⟩ b = some (r, t)) :
    Books accounts (booked env ⟨⟨act, fs⟩, b, t⟩) b.db.players t.db.players := by
  have hnone : booked env ⟨⟨act, fs⟩, b, t⟩ = fun _ => 0 := by
    funext name
    simp only [booked, hgift, hpage]
  obtain ⟨⟨b', p⟩, hstart, hrun⟩ := Option.map_eq_some_iff.1 h
  obtain ⟨⟨hdb, -, -⟩, hk⟩ := start_within hstart
  have hwithin : p.Within (fun _ => True) fun s s' =>
      BooksNothing ℚ accounts s.db.players s'.db.players :=
    hk.imp (fun _ _ => trivial) fun s s' _ he => ⟨trivial, effect_booksNothing he hgift hpage⟩
  have hend := (hwithin.run (fun _ => booksNothing_refl _) (fun _ _ _ h h' => h.trans h') fs
    (s := b') trivial).2
  have hresult : p.run fs b' = (r, t) := hrun
  rw [hdb, hresult] at hend
  rw [hnone]
  exact hend

/-- One event books what `booked` says. -/
theorem books_event {e : Event Input Bot} (hfin : PaysFinite e)
    (h : step env e.input e.before = some e.after) :
    Books accounts (booked env e) e.before.db.players e.after.db.players := by
  obtain ⟨⟨act, fs⟩, b, t⟩ := e
  obtain ⟨⟨r, t'⟩, hperform, rfl⟩ := Option.map_eq_some_iff.1 h
  cases hgift : gift env act with
  | some entry => exact books_gift hgift hperform
  | none =>
    cases hpage : payingPage b act with
    | some page => exact books_press hgift hpage (hfin page hpage) hperform
    | none => exact books_other hgift hpage hperform

end Event

/-- The split is paid and its members are given and taken silver; Bob comes later. -/
def accountRun : List Input :=
  [pressConfirm 0 officer, does (.give "Alice" 5), does (.guildAddUser "Bob"),
    does (.remove "Alice" 10), ⟨.slash 1 officer (.give "Bob" 7), [true]⟩, does (.give "Bob" 3)]

/-- Seventy of the split, the gift and the deduction; and the gift that did not fail. -/
example :
    let es := trace (step Env.ascii) submitted accountRun
    (final submitted es).db.players.vals.map (fun r => (r.username, r.balance)) =
        [("Alice", .fin 65), ("Bob", .fin 3)] ∧
      bookings (booked Env.ascii) es "Alice" = 65 := by
  decide +kernel

end AtomComm.LootSplit
