import AtomComm.Sanity.Sessions

/-! What a payout adds to the balances of the members against the budget, seven tenths of
the silver and items recorded for the split. The amount of a page is fixed when it is
opened, from the figures and the members of that moment; the press applies it to the
members there are by then. -/

namespace AtomComm.LootSplit

/-- Silver and items recorded for the split. -/
def worth (db : DB) (splitId : String) : ℤ :=
  match getLootSplitSilverAndItems db splitId with
  | some (silver, items) => silver + items
  | none => 0

/-- How many shares the members of the split make, a halved one being half a share. -/
def weight (db : DB) (splitId : String) : ℚ :=
  db.lootsplitPlayers.total fun m => if m.splitId = splitId then share 1 m.isHalved else 0

/-- What the members' balances of the split come to. -/
def balances (db : DB) (splitId : String) : ℚ :=
  db.lootsplitPlayers.total fun m => if m.splitId = splitId then m.balance.toRat else 0

/-- The balances of the split are rationals. -/
def ExactSplit (db : DB) (splitId : String) : Prop :=
  (∀ r ∈ db.lootsplitSessions.vals, r.splitId = splitId → r.amount.IsFin) ∧
    ∀ m ∈ db.lootsplitPlayers.vals, m.splitId = splitId → m.balance.IsFin

/-- From `db` to `db'` the members' balances of the split grew by `x` at most in total. -/
def SpendsAtMost (splitId : String) (x : ℚ) (db db' : DB) : Prop :=
  (∀ m ∈ db'.lootsplitPlayers.vals, m.splitId = splitId → m.balance.IsFin) ∧
    balances db' splitId - balances db splitId ≤ x

/-! ### The member rows after the first updates of a payout -/

/-- What a member row is credited of an amount that may be infinite. -/
def shareOf (x : Double) (isHalved : Bool) : Double := if isHalved then x.scale (1 / 2) else x

def paidMember (x : Double) (m : SplitPlayer) : SplitPlayer :=
  { m with balance := (shareOf x m.isHalved).plus m.balance.toRat }

/-- Do the first `k` updates reach the member row? -/
def reached (k : ℕ) (m : SplitPlayer) : Bool := if m.isHalved then 2 < k else 1 < k

section Prefix
variable {page : Page} {db db' : DB} {x : Double}

theorem creditSplitPlayers_exact {splitId : String} {halved : Bool}
    (he : ∀ m ∈ db.lootsplitPlayers.vals, m.splitId = splitId → m.isHalved = halved →
      m.balance.IsFin)
    (h : creditSplitPlayers splitId halved (some x) db = some db') :
    db'.lootsplitPlayers = db.lootsplitPlayers.update
      (fun m => m.splitId = splitId && m.isHalved == halved)
      fun m => { m with balance := x.plus m.balance.toRat } := by
  obtain ⟨t, ht, rfl⟩ := Option.map_eq_some_iff.1 h
  rw [Table.tryUpdate_eq_some ht]
  dsimp only
  refine Table.update_congr fun m hm => ?_
  by_cases hc : (m.splitId = splitId && m.isHalved == halved) = true
  · obtain ⟨hs, hh⟩ : m.splitId = splitId ∧ m.isHalved = halved := by simpa using hc
    simp [hs, hh, (he m hm hs hh).add]
  · simp [hc]

/-- Only the second and the third update write member rows. -/
theorem members_kept {f : DB → Option DB} (hf : f ∈ (payout page).drop 3) (h : f db = some db') :
    db'.lootsplitPlayers = db.lootsplitPlayers := by
  simp only [payout, addBalanceToAllLootSplitPlayers, List.cons_append, List.nil_append,
    List.drop_succ_cons, List.drop_zero, List.mem_cons, List.not_mem_nil, or_false] at hf
  rcases hf with rfl | rfl | rfl
  · obtain ⟨_, rfl⟩ := creditPlayers_some h; rfl
  · obtain ⟨_, rfl⟩ := creditPlayers_some h; rfl
  · cases h; rfl

theorem members_kept_all {us : List (DB → Option DB)} (hus : ∀ f ∈ us, f ∈ (payout page).drop 3)
    (h : Sql.applyAll us db = some db') : db'.lootsplitPlayers = db.lootsplitPlayers := by
  induction us generalizing db with
  | nil => cases h; rfl
  | cons f us ih =>
    obtain ⟨db₁, h1, h2⟩ := Option.bind_eq_some_iff.1 h
    have hrest := ih (fun g hg => hus g (List.mem_cons_of_mem _ hg)) h2
    rw [hrest, members_kept (hus f List.mem_cons_self) h1]

/-- The session and then the full shares. -/
theorem members_two (hx : page.amount = some x) (he : ExactSplit db page.splitId)
    (h : Sql.applyAll ((payout page).take 2) db = some db') :
    db'.lootsplitPlayers = db.lootsplitPlayers.update
      (fun m => m.splitId = page.splitId && reached 2 m) (paidMember x) := by
  obtain ⟨db₁, h1, h2⟩ := Option.bind_eq_some_iff.1 h
  obtain ⟨db₂, h2, h3⟩ := Option.bind_eq_some_iff.1 h2
  cases h3
  obtain ⟨_, rfl⟩ := creditSession_some h1
  rw [hx] at h2
  rw [creditSplitPlayers_exact ?_ h2]
  rotate_left
  · exact fun m hm hs _ => he.2 m hm hs
  dsimp only
  refine Table.update_congr fun m _ => ?_
  cases hh : m.isHalved <;> simp [reached, hh, paidMember, shareOf]

/-- The halved shares after them. -/
theorem members_three (hx : page.amount = some x) (he : ExactSplit db page.splitId)
    (h : Sql.applyAll ((payout page).take 3) db = some db') :
    db'.lootsplitPlayers = db.lootsplitPlayers.update
      (fun m => m.splitId = page.splitId && reached 3 m) (paidMember x) := by
  have htake : (payout page).take 3 = (payout page).take 2 ++
      [creditSplitPlayers page.splitId true (half page.amount)] := rfl
  rw [htake, Sql.applyAll_append] at h
  obtain ⟨db₂, h2, h3⟩ := Option.bind_eq_some_iff.1 h
  obtain ⟨db₃, h3, h4⟩ := Option.bind_eq_some_iff.1 h3
  cases h4
  have h2' := members_two hx he h2
  rw [hx, half, Option.map_some] at h3
  rw [creditSplitPlayers_exact ?_ h3, h2']
  · simp only [Table.update_eq_mapRows, Table.mapRows_mapRows]
    refine Table.mapRows_congr fun m _ => ?_
    cases hh : m.isHalved <;> by_cases hs : m.splitId = page.splitId <;>
      simp [reached, hh, hs, paidMember, shareOf]
  · intro m hm hs hh
    rw [h2', Table.vals_update] at hm
    obtain ⟨v, hv, rfl⟩ := List.mem_map.1 hm
    split at hh
    · rename_i hc
      rw [if_pos hc] at hs ⊢
      obtain ⟨-, hc⟩ : v.splitId = page.splitId ∧ reached 2 v = true := by simpa using hc
      have : v.isHalved = true := hh
      simp [reached, this] at hc
    · rename_i hc
      rw [if_neg hc] at hs ⊢
      exact he.2 v hv hs

theorem members_after (hx : page.amount = some x) (he : ExactSplit db page.splitId) {k : ℕ}
    (h : Sql.applyAll ((payout page).take k) db = some db') :
    db'.lootsplitPlayers = db.lootsplitPlayers.update
      (fun m => m.splitId = page.splitId && reached k m) (paidMember x) := by
  have hnone : ∀ k ≤ 1, db.lootsplitPlayers.update
      (fun m => m.splitId = page.splitId && reached k m) (paidMember x) = db.lootsplitPlayers := by
    intro k hk
    refine Table.update_eq_self fun m _ hm => ?_
    simp only [reached, Bool.and_eq_true, decide_eq_true_eq] at hm
    split at hm <;> simp only [decide_eq_true_eq] at hm <;> omega
  match k, h with
  | 0, h =>
    cases h
    exact (hnone 0 (by omega)).symm
  | 1, h =>
    obtain ⟨db₁, h1, h2⟩ := Option.bind_eq_some_iff.1 h
    cases h2
    obtain ⟨_, rfl⟩ := creditSession_some h1
    exact (hnone 1 le_rfl).symm
  | 2, h => exact members_two hx he h
  | k + 3, h =>
    have htake : (payout page).take (k + 3) =
        (payout page).take 3 ++ ((payout page).drop 3).take k := rfl
    rw [htake, Sql.applyAll_append] at h
    obtain ⟨db₃, h3, hrest⟩ := Option.bind_eq_some_iff.1 h
    rw [members_kept_all (fun f hf => List.mem_of_mem_take hf) hrest, members_three hx he h3]
    refine Table.update_congr fun m _ => ?_
    cases hh : m.isHalved <;> simp [reached, hh]

end Prefix

/-! ### What they add up to -/

section Spent
variable {page : Page} {db db' : DB}

theorem share_eq_mul (a : ℚ) (isHalved : Bool) : share a isHalved = a * share 1 isHalved := by
  cases isHalved <;> simp [share, mul_comm]

theorem share_nonneg {a : ℚ} (ha : 0 ≤ a) (isHalved : Bool) : 0 ≤ share a isHalved := by
  rw [share_eq_mul]
  refine mul_nonneg ha ?_
  cases isHalved <;> simp [share]

theorem total_shares (db : DB) (splitId : String) (a : ℚ) :
    (db.lootsplitPlayers.total fun m => if m.splitId = splitId then share a m.isHalved else 0) =
      a * weight db splitId := by
  rw [weight, ← Table.total_mul]
  refine Table.total_congr fun m _ => ?_
  split
  · exact share_eq_mul a m.isHalved
  · exact (mul_zero a).symm

/-- The first `k` updates of a finite amount add the shares of the rows they reach. -/
theorem balances_after {a : ℚ} {k : ℕ} (he : ExactSplit db page.splitId)
    (h : db'.lootsplitPlayers = db.lootsplitPlayers.update
      (fun m => m.splitId = page.splitId && reached k m) (paidMember (.fin a))) :
    (∀ m ∈ db'.lootsplitPlayers.vals, m.splitId = page.splitId → m.balance.IsFin) ∧
      balances db' page.splitId - balances db page.splitId = db.lootsplitPlayers.total fun m =>
        if m.splitId = page.splitId then if reached k m then share a m.isHalved else 0 else 0 := by
  have hshare : ∀ m : SplitPlayer, shareOf (.fin a) m.isHalved = .fin (share a m.isHalved) := by
    intro m
    cases m.isHalved <;> rfl
  constructor
  · intro m hm hs
    rw [h, Table.vals_update] at hm
    obtain ⟨v, hv, rfl⟩ := List.mem_map.1 hm
    split
    · rw [paidMember, hshare]
      exact Double.isFin_fin _
    · rename_i hc
      rw [if_neg hc] at hs
      exact he.2 v hv hs
  · rw [sub_eq_iff_eq_add, balances, balances, h, ← Table.total_add]
    refine (Table.total_mapRows _ fun m : SplitPlayer =>
      if m.splitId = page.splitId then m.balance.toRat else 0).trans
        (Table.total_congr fun m _ => ?_)
    by_cases hs : m.splitId = page.splitId
    · by_cases hr : reached k m = true
      · simp only [hs, hr, decide_true, Bool.and_true, if_true, paidMember, hshare]
        exact rfl
      · simp [hs, hr]
    · simp [hs]

/-- So they add at most the amount for each share. -/
theorem spends_after {a : ℚ} (ha : 0 ≤ a) {k : ℕ} (he : ExactSplit db page.splitId)
    (h : db'.lootsplitPlayers = db.lootsplitPlayers.update
      (fun m => m.splitId = page.splitId && reached k m) (paidMember (.fin a))) :
    SpendsAtMost page.splitId (a * weight db page.splitId) db db' := by
  obtain ⟨hfin, hsum⟩ := balances_after he h
  refine ⟨hfin, ?_⟩
  rw [hsum, ← total_shares]
  refine Table.total_mono fun m _ => ?_
  have := share_nonneg ha m.isHalved
  split
  · split
    · exact le_rfl
    · exact this
  · exact le_rfl

/-- Exactly that once the first three are through. -/
theorem spends_all {a x : ℚ} {k : ℕ} (hk : 3 ≤ k) (he : ExactSplit db page.splitId)
    (h : db'.lootsplitPlayers = db.lootsplitPlayers.update
      (fun m => m.splitId = page.splitId && reached k m) (paidMember (.fin a))) :
    SpendsAtMost page.splitId x db db' ↔ a * weight db page.splitId ≤ x := by
  obtain ⟨hfin, hsum⟩ := balances_after he h
  have hall : ∀ m, reached k m = true := by
    intro m
    unfold reached
    split <;> simp only [decide_eq_true_eq] <;> omega
  simp only [hall, if_true, total_shares] at hsum
  rw [SpendsAtMost, hsum]
  exact and_iff_right hfin

end Spent

/-! ### Which updates throw of their own accord -/

section Throws
variable {page : Page} {db db' : DB} {x : Double}

theorem creditSession_nan {splitId : String} {r : Session}
    (hr : r ∈ db.lootsplitSessions.vals) (hs : r.splitId = splitId) :
    creditSession splitId none db = none := by
  obtain ⟨q, hq, rfl⟩ := Table.mem_vals.1 hr
  have hno : db.lootsplitSessions.rows.all (fun r => !decide (r.val.splitId = splitId) ||
      (((none : Option Double).bind r.val.amount.add).map
        fun x => { r.val with amount := x }).isSome) ≠ true := by
    intro hall
    have := List.all_eq_true.1 hall q hq
    simp [hs] at this
  exact Option.map_eq_none_iff.2 (if_neg hno)

theorem creditSession_exact {splitId : String} (he : ExactSplit db splitId) (x : Double) :
    creditSession splitId (some x) db ≠ none := by
  intro h
  have hsome := Table.tryUpdate_some (p := fun r : Session => r.splitId = splitId)
    (f := fun r => ((some x).bind r.amount.add).map fun y => { r with amount := y })
    (t := db.lootsplitSessions) fun r hr hs => by
      rw [Option.bind_some, (he.1 r hr (by simpa using hs)).add]; rfl
  rw [creditSession, hsome] at h
  cases h

theorem creditSplitPlayers_finite {splitId : String} {halved : Bool}
    (he : ∀ m ∈ db.lootsplitPlayers.vals, m.splitId = splitId → m.isHalved = halved →
      m.balance.IsFin) (x : Double) :
    creditSplitPlayers splitId halved (some x) db ≠ none := by
  intro h
  have hsome := Table.tryUpdate_some
    (p := fun m : SplitPlayer => m.splitId = splitId && m.isHalved == halved)
    (f := fun m => ((some x).bind m.balance.add).map fun y => { m with balance := y })
    (t := db.lootsplitPlayers) fun m hm hs => by
      obtain ⟨hs, hh⟩ : m.splitId = splitId ∧ m.isHalved = halved := by simpa using hs
      rw [Option.bind_some, (he m hm hs hh).add]; rfl
  rw [creditSplitPlayers, hsome] at h
  cases h

/-- The rows that the first `k` updates do not reach are as they were. -/
theorem exact_after (he : ExactSplit db page.splitId) {k : ℕ}
    (h : db'.lootsplitPlayers = db.lootsplitPlayers.update
      (fun m => m.splitId = page.splitId && reached k m) (paidMember x)) :
    ∀ m ∈ db'.lootsplitPlayers.vals, m.splitId = page.splitId → reached k m = false →
      m.balance.IsFin := by
  intro m hm hs hr
  rw [h, Table.vals_update] at hm
  obtain ⟨v, hv, rfl⟩ := List.mem_map.1 hm
  by_cases hc : (v.splitId = page.splitId && reached k v) = true
  · rw [if_pos hc] at hr
    have : reached k v = true := by simpa using (Bool.and_eq_true_iff.1 hc).2
    have hsame : reached k (paidMember x v) = reached k v := rfl
    rw [hsame, this] at hr
    cases hr
  · rw [if_neg hc] at hs ⊢
    exact he.2 v hv hs

/-- The updates of the session and of the members throw for nan only. -/
theorem first_three (hx : page.amount = some x) (he : ExactSplit db page.splitId) {k : ℕ}
    (hk : k < 3) (h : Sql.applyAll ((payout page).take k) db = some db') :
    ∃ f, (payout page)[k]? = some f ∧ f db' ≠ none := by
  have hkeep := exact_after he (members_after hx he h)
  match k, hk, h with
  | 0, _, h =>
    cases h
    exact ⟨_, rfl, hx ▸ creditSession_exact he x⟩
  | 1, _, h =>
    refine ⟨_, rfl, hx ▸ creditSplitPlayers_finite (fun m hm hs hh => hkeep m hm hs ?_) x⟩
    simp [reached]
  | 2, _, h =>
    refine ⟨_, rfl, hx ▸ creditSplitPlayers_finite (fun m hm hs hh => hkeep m hm hs ?_) _⟩
    simp [reached, hh]

end Throws

/-! ### A press and the budget -/

section Pressed
variable {env : Env} {b : Bot} {a : Action} {page : Page}

/-- Whatever statement is made to throw, the press spends `x` at most. -/
def Affordable (env : Env) (b : Bot) (a : Action) (page : Page) (x : ℚ) : Prop :=
  ∀ fs t, step env ⟨a, fs⟩ b = some t → SpendsAtMost page.splitId x b.db t.db

theorem exists_commits (env : Env) (hp : Pays b a page) (fs : List Bool) :
    ∃ t, step env ⟨a, fs⟩ b = some t := by
  obtain ⟨b', -, hs⟩ := start_pays env hp
  exact ⟨_, by rw [step, perform, hs]; rfl⟩

theorem commits_of_step {fs : List Bool} {t : Bot} (hp : Pays b a page)
    (h : step env ⟨a, fs⟩ b = some t) : ∃ k, Commits page fs k b.db t.db := by
  obtain ⟨⟨r, t⟩, hr, rfl⟩ := Option.map_eq_some_iff.1 h
  obtain ⟨k, hc, -⟩ := press_cases hp hr
  exact ⟨k, hc⟩

/-- Left alone, a press whose amount is not nan gets past the member rows. -/
theorem uninterrupted (env : Env) (hp : Pays b a page) {x : Double} (hx : page.amount = some x)
    (he : ExactSplit b.db page.splitId) :
    ∃ t k, step env ⟨a, []⟩ b = some t ∧ 3 ≤ k ∧ Commits page [] k b.db t.db := by
  obtain ⟨t, ht⟩ := exists_commits env hp []
  obtain ⟨k, hc⟩ := commits_of_step hp ht
  refine ⟨t, k, ht, ?_, hc⟩
  by_contra hlt
  have hk : k < 3 := by omega
  have hlen : k < (payout page).length :=
    Nat.lt_of_lt_of_le hk (by simp [payout, addBalanceToAllLootSplitPlayers])
  obtain ⟨f, hf, hsome⟩ := first_three hx he hk hc.applied
  obtain rfl : (payout page)[k] = f := Option.some.inj ((List.getElem?_eq_getElem hlen).symm.trans hf)
  rcases hc.thrown hlen with hfault | hnone
  · simp at hfault
  · exact hsome hnone

theorem affordable_fin (hp : Pays b a page) (he : ExactSplit b.db page.splitId) {q x : ℚ}
    (hq : 0 ≤ q) (hx : page.amount = some (.fin q)) :
    Affordable env b a page x ↔ q * weight b.db page.splitId ≤ x := by
  constructor
  · intro h
    obtain ⟨t, k, ht, hk, hc⟩ := uninterrupted env hp hx he
    exact (spends_all hk he (members_after hx he hc.applied)).1 (h [] t ht)
  · intro h fs t ht
    obtain ⟨k, hc⟩ := commits_of_step hp ht
    obtain ⟨hfin, hle⟩ := spends_after hq he (members_after hx he hc.applied)
    exact ⟨hfin, hle.trans h⟩

/-- Nan is refused by the first update. -/
theorem affordable_nan (hp : Pays b a page) (he : ExactSplit b.db page.splitId) {x : ℚ}
    (hx : 0 ≤ x) (hn : page.amount = none) {r : Session}
    (hr : r ∈ b.db.lootsplitSessions.vals) (hs : r.splitId = page.splitId) :
    Affordable env b a page x := by
  intro fs t ht
  obtain ⟨k, hc⟩ := commits_of_step hp ht
  have hdb : t.db = b.db := by
    cases k with
    | zero => exact (Option.some.inj hc.applied).symm
    | succ k =>
      obtain ⟨db₁, h1, -⟩ := Option.bind_eq_some_iff.1 hc.applied
      rw [hn, creditSession_nan hr hs] at h1
      cases h1
  rw [hdb]
  refine ⟨he.2, ?_⟩
  rw [sub_self]
  exact hx

theorem counted_nonneg (splitId : String) (m : SplitPlayer) :
    0 ≤ if m.splitId = splitId then share 1 m.isHalved else 0 := by
  split
  · exact share_nonneg zero_le_one m.isHalved
  · exact le_rfl

theorem weight_nonneg (db : DB) (splitId : String) : 0 ≤ weight db splitId := by
  have hzero : db.lootsplitPlayers.total (fun _ => (0 : ℚ)) = 0 := Table.total_zero fun _ _ => rfl
  rw [← hzero]
  exact Table.total_mono fun m _ => counted_nonneg splitId m

theorem weight_eq_zero {db : DB} {splitId : String} :
    weight db splitId = 0 ↔ ∀ m ∈ db.lootsplitPlayers.vals, m.splitId ≠ splitId := by
  constructor
  · intro h m hm hs
    have hle : share 1 m.isHalved ≤ weight db splitId := by
      simpa [weight, hs] using Table.single_le_total (fun v _ => counted_nonneg splitId v) hm
    rw [h] at hle
    revert hle
    cases m.isHalved <;> norm_num [share]
  · intro h
    exact Table.total_zero fun m hm => if_neg (h m hm)

/-- An infinite amount is affordable where nobody gets it. -/
theorem affordable_inf (hp : Pays b a page) (he : ExactSplit b.db page.splitId) {s : Bool} {x : ℚ}
    (hx : 0 ≤ x) (hi : page.amount = some (.inf s)) :
    Affordable env b a page x ↔ weight b.db page.splitId = 0 := by
  rw [weight_eq_zero]
  constructor
  · intro h m hm hs
    obtain ⟨t, k, ht, hk, hc⟩ := uninterrupted env hp hi he
    have hmem : paidMember (.inf s) m ∈ t.db.lootsplitPlayers.vals := by
      rw [members_after hi he hc.applied, Table.vals_update]
      refine List.mem_map.2 ⟨m, hm, if_pos ?_⟩
      simp only [hs, decide_true, Bool.true_and, reached]
      split <;> simp only [decide_eq_true_eq] <;> omega
    have hfin := (h [] t ht).1 _ hmem hs
    revert hfin
    cases hh : m.isHalved <;> simp [paidMember, hh, shareOf, Double.scale, Double.plus]
  · intro h fs t ht
    obtain ⟨k, hc⟩ := commits_of_step hp ht
    have hsame : t.db.lootsplitPlayers = b.db.lootsplitPlayers := by
      rw [members_after hi he hc.applied]
      refine Table.update_eq_self fun m hm hs => absurd ?_ (h m hm)
      simpa using (Bool.and_eq_true_iff.1 hs).1
    unfold SpendsAtMost balances
    rw [hsame, sub_self]
    exact ⟨he.2, hx⟩

end Pressed

/-! ### From the opening of a page to the press -/

/-- The pages keep their places, and a session its split id. -/
def Stays (i : ℕ) (page : Page) (splitId : String) (b : Bot) : Prop :=
  b.unflagged[i]? = some page ∧ ∃ r ∈ b.db.lootsplitSessions.vals, r.splitId = splitId

theorem stays_step {env : Env} {e : Event Input Bot} {i : ℕ} {page : Page} {splitId : String}
    (h : step env e.input e.before = some e.after) (hi : Stays i page splitId e.before) :
    Stays i page splitId e.after := by
  obtain ⟨hpage, r, hr, hs⟩ := hi
  constructor
  · rcases step_pages h with ⟨g, u, splitId', info, -, -, hafter⟩ | hsame
    · have hlt : i < e.before.unflagged.length := (List.getElem?_eq_some_iff.1 hpage).1
      rw [hafter, Bot.unflagged, List.map_append, ← hpage]
      exact List.getElem?_append_left hlt
    · rw [hsame]; exact hpage
  · rcases step_sessions h with ⟨g, u, name, id, -, -, hafter⟩ | hkept
    · refine ⟨r, ?_, hs⟩
      rw [hafter]
      simp only [createNewLootSplitSession, Table.vals_insert]
      exact List.mem_append_left _ hr
    · obtain ⟨r', hr', hst⟩ := hkept.mem hr
      exact ⟨r', hr', hst.splitId.trans hs⟩

theorem opened_page {env : Env} {e : Event Input Bot} {opened : Page}
    (h : step env e.input e.before = some e.after)
    (hopen : e.after.pages = e.before.pages ++ [opened]) :
    e.after.db = e.before.db ∧ ∃ g u info,
      getLootSplitSessionInfo e.before.db info.splitId = some info ∧
      opened = openedPage e.before.db g u info := by
  rcases step_pages h with ⟨g, u, splitId, info, -, hinfo, hafter⟩ | hsame
  · obtain ⟨-, rfl⟩ := splitId_of_info hinfo
    have hpages : e.before.pages ++ [openedPage e.before.db g u info] =
        e.before.pages ++ [opened] := by rw [← hopen, hafter]
    have := List.append_cancel_left hpages
    exact ⟨by rw [hafter], g, u, info, hinfo, (List.cons.inj this).1.symm⟩
  · have hlen := congrArg List.length hsame
    rw [Bot.unflagged, Bot.unflagged, List.length_map, List.length_map, hopen] at hlen
    simp at hlen

/-- At the press the page is the one that was opened, but for its flag. -/
theorem pressed_page {env : Env} {s b : Bot} {e : Event Input Bot} {ys : List (Event Input Bot)}
    (h : Run (step env) s (e :: ys) b) {opened page : Page} {u : User}
    (hopen : e.after.pages = e.before.pages ++ [opened])
    (hp : Pays b (.press e.before.pages.length u .confirm) page) :
    (page.splitId = opened.splitId ∧ page.amount = opened.amount ∧
      page.guildId = opened.guildId) ∧
    ∃ r ∈ b.db.lootsplitSessions.vals, r.splitId = page.splitId := by
  obtain ⟨rfl, hstep, hrest⟩ := h
  obtain ⟨hdb, g, u', info, hinfo, ho⟩ := opened_page hstep hopen
  have hunflag : e.after.unflagged[e.before.pages.length]? =
      some { opened with isSessionFinished := false } := by
    simp [Bot.unflagged, hopen]
  have hexists : ∃ r ∈ e.after.db.lootsplitSessions.vals, r.splitId = opened.splitId := by
    rw [hdb, ho]
    exact ⟨info, (splitId_of_info hinfo).1, rfl⟩
  have hstay := hrest.invariant
    (I := Stays e.before.pages.length { opened with isSessionFinished := false } opened.splitId)
    (C := fun _ => True) ⟨hunflag, hexists⟩ (fun _ _ => stays_step) fun _ _ => trivial
  have hpage : b.pages[e.before.pages.length]? = some page := by
    cases hp; assumption
  have hflag : ({ page with isSessionFinished := false } : Page) =
      { opened with isSessionFinished := false } := by
    have := hstay.1
    rw [Bot.unflagged, List.getElem?_map, hpage] at this
    exact Option.some.inj this
  obtain ⟨-, hsplit, hamount, -, -, hguild⟩ := Page.mk.injEq .. ▸ hflag
  refine ⟨⟨hsplit, hamount, hguild⟩, ?_⟩
  rw [hsplit]
  exact hstay.2

/-- The figures of the split, if it exists, are no negative ones and their sum fits 32 bits. -/
def Valued (db : DB) (splitId : String) : Prop :=
  ∀ figures ∈ getLootSplitSilverAndItems db splitId,
    0 ≤ figures.1 ∧ 0 ≤ figures.2 ∧ figures.1 + figures.2 < 2 ^ 31

theorem Valued.worth_nonneg {db : DB} {splitId : String} (h : Valued db splitId) :
    0 ≤ worth db splitId := by
  unfold worth
  split
  · rename_i silver items hs
    obtain ⟨h1, h2, -⟩ := h _ hs
    exact Int.add_nonneg h1 h2
  · exact le_rfl

/-- In every run, whatever comes between the opening of a page and its press, the press
stays within seven tenths of what is then recorded for the split exactly when the shares
there are by then, at the worth and the count of the opening, are covered by it. -/
theorem payout_budget_iff {env : Env} {s b : Bot} {e : Event Input Bot}
    {ys : List (Event Input Bot)} (h : Run (step env) s (e :: ys) b) {opened page : Page}
    {u : User} (hopen : e.after.pages = e.before.pages ++ [opened])
    (hp : Pays b (.press e.before.pages.length u .confirm) page)
    (hv : Valued e.before.db page.splitId) (hv' : Valued b.db page.splitId)
    (he : ExactSplit b.db page.splitId) :
    Affordable env b (.press e.before.pages.length u .confirm) page
      (7 / 10 * worth b.db page.splitId) ↔
    worth e.before.db page.splitId * weight b.db page.splitId ≤
      worth b.db page.splitId * getLootSplitPlayersCount e.before.db page.splitId page.guildId := by
  obtain ⟨⟨hsplit, hamount, hguild⟩, r, hr, hrs⟩ := pressed_page h hopen hp
  obtain ⟨rfl, hstep, -⟩ := h
  obtain ⟨-, g, u', info, hinfo, ho⟩ := opened_page hstep hopen
  have hworth : worth e.before.db page.splitId = info.silver + info.items := by
    rw [hsplit, ho]
    simp [worth, getLootSplitSilverAndItems, openedPage, hinfo]
  have hfits := hv (info.silver, info.items) (by
    rw [hsplit, ho]
    simp [getLootSplitSilverAndItems, openedPage, hinfo])
  have hx : page.amount = Double.divNat (worth e.before.db page.splitId * (7 / 10))
      (getLootSplitPlayersCount e.before.db page.splitId page.guildId) := by
    rw [hworth, hamount, hsplit, hguild, ho, openedPage, amountToSplit,
      Double.wrap32_eq (by omega) (by omega)]
  have hworth0 : (0 : ℚ) ≤ worth e.before.db page.splitId := by
    exact_mod_cast hv.worth_nonneg
  have hbudget : (0 : ℚ) ≤ 7 / 10 * worth b.db page.splitId := by
    have := hv'.worth_nonneg
    positivity
  generalize getLootSplitPlayersCount e.before.db page.splitId page.guildId = n at hx ⊢
  generalize (worth e.before.db page.splitId : ℚ) = v at hx hworth0 ⊢
  rcases Nat.eq_zero_or_pos n with rfl | hn
  · -- nobody to divide by: the amount is nan, or infinite
    rw [Double.divNat, if_pos rfl] at hx
    rw [Nat.cast_zero, mul_zero]
    by_cases h0 : v = 0
    · rw [if_pos (by rw [h0, zero_mul])] at hx
      refine iff_of_true (affordable_nan hp he hbudget hx hr hrs) ?_
      rw [h0, zero_mul]
    · rw [if_neg (mul_ne_zero h0 (by norm_num))] at hx
      rw [affordable_inf hp he hbudget hx]
      have hv0 : 0 < v := lt_of_le_of_ne hworth0 (Ne.symm h0)
      have hw := weight_nonneg b.db page.splitId
      constructor
      · intro hw0
        rw [hw0, mul_zero]
      · intro hle
        exact le_antisymm (nonpos_of_mul_nonpos_right hle hv0) hw
  · rw [Double.divNat_pos hn] at hx
    have hn' : (0 : ℚ) < n := by exact_mod_cast hn
    rw [affordable_fin hp he (by positivity) hx]
    have hcalc : v * (7 / 10) / n * weight b.db page.splitId =
        7 / 10 * (v * weight b.db page.splitId) / n := by ring
    rw [hcalc, div_le_iff₀ hn', mul_assoc]
    exact mul_le_mul_iff_right₀ (by norm_num)

instance (db : DB) (splitId : String) : Decidable (Valued db splitId) :=
  inferInstanceAs (Decidable (∀ _ ∈ _, _))

instance (db : DB) (splitId : String) : Decidable (ExactSplit db splitId) :=
  inferInstanceAs (Decidable (_ ∧ _))

/-- The command that opens the first page, as an event. -/
def opensPage (before : List Input) : Event Input Bot :=
  ⟨does (.confirm "S"), endState before, endState (before ++ [does (.confirm "S")])⟩

def pressable (before between : List Input) : Bot :=
  endState (before ++ does (.confirm "S") :: between)

/-- Alice and Bob share 100 silver. -/
def twoMembers : List Input :=
  opening ["Bob"] ++ [does (.add "Alice" "U1"), does (.add "Bob" "U2"), does (.set 100 0)]

def twoPage : Page := ⟨1, "S", some (.fin 35), some "alice", false, 1⟩

/-- Bob's share is halved and more silver recorded after the page was opened. -/
def meanwhile : List Input := [does (.half "Bob"), does (.set 120 0)]

theorem run_pressable {before between : List Input}
    (hopen : step Env.ascii (does (.confirm "S")) (endState before) =
      some (opensPage before).after)
    (hend : pressable before between = final (opensPage before).after
      (trace (step Env.ascii) (opensPage before).after between)) :
    Run (step Env.ascii) (endState before) (opensPage before ::
      trace (step Env.ascii) (opensPage before).after between) (pressable before between) :=
  ⟨rfl, hopen, hend ▸ run_trace _ _ _⟩

theorem payout_budget_iff_meanwhile :
    Affordable Env.ascii (pressable twoMembers meanwhile) (.press 0 officer .confirm) twoPage
      (7 / 10 * worth (pressable twoMembers meanwhile).db "S") := by
  have hrun : Run (step Env.ascii) (endState twoMembers) (opensPage twoMembers ::
      trace (step Env.ascii) (opensPage twoMembers).after meanwhile)
      (pressable twoMembers meanwhile) :=
    run_pressable (by decide +kernel) (by decide +kernel)
  have hopen : (opensPage twoMembers).after.pages =
      (opensPage twoMembers).before.pages ++ [twoPage] := by decide +kernel
  have hp : Pays (pressable twoMembers meanwhile) (.press 0 officer .confirm) twoPage := by
    decide +kernel
  exact (payout_budget_iff hrun hopen hp (by decide +kernel) (by decide +kernel)
    (by decide +kernel)).2 (by decide +kernel)

/-- Alice alone is to get 70 when the page is opened, and Bob joins after. -/
def oneMember : List Input := opening ["Bob"] ++ [does (.add "Alice" "U1"), does (.set 100 0)]

/-- The press pays 70 to each of the two. -/
theorem payout_over_budget :
    let b := pressable oneMember [does (.add "Bob" "U2")]
    Run (step Env.ascii) Bot.empty (trace (step Env.ascii) Bot.empty oneMember ++
      opensPage oneMember ::
        trace (step Env.ascii) (opensPage oneMember).after [does (.add "Bob" "U2")]) b ∧
    (opensPage oneMember).after.pages = (opensPage oneMember).before.pages ++ [submittedPage] ∧
    Pays b (.press 0 officer .confirm) submittedPage ∧
    Valued (endState oneMember).db "S" ∧ Valued b.db "S" ∧ ExactSplit b.db "S" ∧
    0 < getLootSplitPlayersCount (endState oneMember).db "S" 1 ∧
    ¬Affordable Env.ascii b (.press 0 officer .confirm) submittedPage
      (7 / 10 * worth b.db "S") := by
  intro b
  have hp : Pays b (.press 0 officer .confirm) submittedPage := by decide +kernel
  have he : ExactSplit b.db "S" := by decide +kernel
  refine ⟨run_append.2 ⟨_, run_trace _ _ _, run_pressable (by decide +kernel)
    (by decide +kernel)⟩, by decide +kernel, hp, by decide +kernel, by decide +kernel, he, by decide +kernel, fun h => ?_⟩
  have hle : (70 : ℚ) * weight b.db "S" ≤ 7 / 10 * worth b.db "S" :=
    (affordable_fin hp he (by norm_num) rfl).1 h
  have hover : ¬(70 : ℚ) * weight b.db "S" ≤ 7 / 10 * worth b.db "S" := by decide +kernel
  exact hover hle

end AtomComm.LootSplit
