import AtomComm.Spec.LootSplit.Database

/-! What the leaderboard shows. The rows come by balance, the highest first, and fall into a
map that is keyed by username alone; a later row of a name overwrites the balance in place.
So the map is right exactly if no name comes a second time, within the limit, with less. -/

namespace AtomComm.LootSplit

/-! ### Putting rows into the map -/

section Put
variable {α : Type} {xs : List α} {name : α → String} {value : α → Double} {e : String × Double}

/-- Rows put one after the other. -/
def collect (name : α → String) (value : α → Double) (xs : List α) : List (String × Double) :=
  xs.foldl (fun entries x => putOrdered entries (name x) (value x)) []

theorem collect_concat (x : α) :
    collect name value (xs ++ [x]) = putOrdered (collect name value xs) (name x) (value x) := by
  simp [collect]

theorem mem_putOrdered {entries : List (String × Double)} {k : String} {v : Double}
    (h : e ∈ putOrdered entries k v) : e = (k, v) ∨ e ∈ entries ∧ e.1 ≠ k := by
  unfold putOrdered at h
  split at h
  · obtain ⟨e', he', rfl⟩ := List.mem_map.1 h
    by_cases hk : e'.1 = k
    · exact .inl (by rw [if_pos hk])
    · rw [if_neg hk]
      exact .inr ⟨he', hk⟩
  · rename_i hnone
    rcases List.mem_append.1 h with h | h
    · refine .inr ⟨h, fun hk => hnone ?_⟩
      exact List.any_eq_true.2 ⟨e, h, decide_eq_true hk⟩
    · exact .inl (List.mem_singleton.1 h)

theorem key_putOrdered {entries : List (String × Double)} {k : String} {v : Double} :
    (k, v) ∈ putOrdered entries k v := by
  unfold putOrdered
  split
  · rename_i hany
    obtain ⟨e', he', hk⟩ := List.any_eq_true.1 hany
    exact List.mem_map.2 ⟨e', he', if_pos (of_decide_eq_true hk)⟩
  · simp

theorem mem_putOrdered_of_ne {entries : List (String × Double)} {k : String} {v : Double}
    (h : e ∈ entries) (hk : e.1 ≠ k) : e ∈ putOrdered entries k v := by
  unfold putOrdered
  split
  · exact List.mem_map.2 ⟨e, h, if_neg hk⟩
  · exact List.mem_append_left _ h

/-- Every row has an entry under its name. -/
theorem exists_collect (name : α → String) (value : α → Double) {x : α} (h : x ∈ xs) :
    ∃ e ∈ collect name value xs, e.1 = name x := by
  induction xs using List.reverseRecOn with
  | nil => cases h
  | append_singleton xs y ih =>
    rw [collect_concat]
    by_cases hxy : name x = name y
    · exact ⟨_, key_putOrdered, hxy.symm⟩
    · have hx : x ∈ xs := by
        rcases List.mem_append.1 h with h | h
        · exact h
        · exact absurd (congrArg name (List.mem_singleton.1 h)) hxy
      obtain ⟨e, he, hname⟩ := ih hx
      exact ⟨e, mem_putOrdered_of_ne he (hname ▸ hxy), hname⟩

/-- Every entry is one of the rows. -/
theorem of_mem_collect (h : e ∈ collect name value xs) : ∃ x ∈ xs, e = (name x, value x) := by
  induction xs using List.reverseRecOn with
  | nil => cases h
  | append_singleton xs y ih =>
    rw [collect_concat] at h
    rcases mem_putOrdered h with rfl | ⟨h, -⟩
    · exact ⟨y, by simp, rfl⟩
    · obtain ⟨x, hx, he⟩ := ih h
      exact ⟨x, List.mem_append_left _ hx, he⟩

/-- The last row of a name stays, which has the least balance if the rows come sorted. -/
theorem collect_le (hsorted : xs.Pairwise fun x y => (value y).le (value x) = true)
    (h : e ∈ collect name value xs) {x : α} (hx : x ∈ xs) (hname : name x = e.1) :
    e.2.le (value x) = true := by
  induction xs using List.reverseRecOn with
  | nil => cases hx
  | append_singleton xs y ih =>
    obtain ⟨hxs, -, hlast⟩ := List.pairwise_append.1 hsorted
    rw [collect_concat] at h
    rcases mem_putOrdered h with rfl | ⟨h, hne⟩
    · rcases List.mem_append.1 hx with hx | hx
      · exact hlast x hx y (by simp)
      · rw [List.mem_singleton.1 hx, Double.le_iff]
    · rcases List.mem_append.1 hx with hx | hx
      · exact ih hxs h hx
      · rw [List.mem_singleton.1 hx] at hname
        exact absurd hname.symm hne

/-- If a name has one balance only, nothing is overwritten. -/
theorem collect_sublist
    (hone : ∀ x ∈ xs, ∀ y ∈ xs, name x = name y → value x = value y) :
    (collect name value xs).Sublist (xs.map fun x => (name x, value x)) := by
  induction xs using List.reverseRecOn with
  | nil => exact List.Sublist.refl _
  | append_singleton xs y ih =>
    have hih := ih fun x hx z hz => hone x (by simp [hx]) z (by simp [hz])
    rw [collect_concat, putOrdered, List.map_append]
    split
    · -- the row that is there has this balance already
      have hsame : ∀ e ∈ collect name value xs,
          (if e.1 = name y then (name y, value y) else e) = e := by
        intro e he
        split
        · rename_i hk
          obtain ⟨x, hx, rfl⟩ := of_mem_collect he
          rw [hone x (by simp [hx]) y (by simp) hk, show name x = name y from hk]
        · rfl
      rw [List.map_congr_left hsame, List.map_id']
      exact hih.trans (List.sublist_append_left _ _)
    · exact hih.append (List.Sublist.refl _)

end Put

/-! ### The order of the rows -/

/-- `q` comes before `r`: it has more, or as much and the smaller rowid. -/
def Ahead (q r : Row Player) : Prop :=
  r.val.balance.lt q.val.balance = true ∨ r.val.balance = q.val.balance ∧ q.id < r.id

instance : DecidableRel Ahead := fun _ _ => inferInstanceAs (Decidable (_ ∨ _))

theorem Ahead.asymm {q r : Row Player} (h : Ahead q r) : ¬Ahead r q := by
  simp only [Ahead, Double.lt_iff] at h ⊢
  rcases h with h | ⟨h, hid⟩
  · rintro (h' | ⟨h', -⟩)
    · exact lt_asymm h h'
    · rw [h'] at h
      exact lt_irrefl _ h
  · rintro (h' | ⟨-, hid'⟩)
    · rw [h] at h'
      exact lt_irrefl _ h'
    · omega

/-- The rows as ORDER BY leaves them. -/
def ranked (db : DB) : List (Row Player) :=
  db.players.rows.mergeSort fun r r' => r'.val.balance.le r.val.balance

section Ranked
variable {db : DB} {n : ℤ} {r q : Row Player}

theorem mem_ranked : r ∈ ranked db ↔ r ∈ db.players.rows := List.mem_mergeSort

theorem ranked_pairwise : (ranked db).Pairwise Ahead := by
  have hids : db.players.rows.Pairwise fun r q => r.id < q.id :=
    List.pairwise_map.1 db.players.sorted
  refine (pairwise_mergeSort_stable ?_ ?_ hids).imp ?_
  · intro a b c hab hbc
    rw [Double.le_iff] at *
    exact hbc.trans hab
  · intro a b
    rw [Bool.or_eq_true, Double.le_iff, Double.le_iff]
    exact le_total _ _
  · rintro a b ⟨hle, hid⟩
    rw [Double.le_iff] at hle hid
    rcases hle.lt_or_eq with hlt | heq
    · exact .inl (Double.lt_iff.2 hlt)
    · exact .inr ⟨Double.ext_injective heq, hid heq.symm.le⟩

theorem ranked_sorted (db : DB) :
    (ranked db).Pairwise fun r q => q.val.balance.le r.val.balance = true := by
  refine ranked_pairwise.imp fun {a b} h => Double.le_iff.2 ?_
  rcases h with h | ⟨h, -⟩
  · exact (Double.lt_iff.1 h).le
  · rw [h]

/-- Where a row stands is how many are ahead of it. -/
theorem mem_limit_ranked (hr : r ∈ db.players.rows) :
    r ∈ limit n (ranked db) ↔ InLimit n (db.players.rows.countP (Ahead · r)) := by
  rw [mem_limit_iff ranked_pairwise (fun _ _ => Ahead.asymm) (mem_ranked.2 hr)]
  rw [ranked, (List.mergeSort_perm _ _).countP_eq]

theorem limit_map {α β : Type} (f : α → β) (xs : List α) :
    limit n (xs.map f) = (limit n xs).map f := by
  unfold limit
  split
  · rfl
  · rw [List.map_take]

theorem getLeaderboard_collect :
    getLeaderboard db n =
      collect (fun r => r.val.username) (fun r => r.val.balance) (limit n (ranked db)) := by
  have hsort : db.players.vals.mergeSort (fun r r' => r'.balance.le r.balance) =
      (ranked db).map Row.val := by
    rw [ranked, Table.vals, List.map_mergeSort]
    intro _ _ _ _
    rfl
  rw [getLeaderboard, hsort, limit_map, List.foldl_map, collect]

end Ranked

/-! ### The leaderboard -/

/-- The balances never increase, each is the highest of its name, and everyone with more
than the last one is listed. -/
structure Faithful (db : DB) (entries : List (String × Double)) : Prop where
  sorted : entries.Pairwise fun e e' => e'.2.le e.2 = true
  highest : ∀ e ∈ entries, (∃ r ∈ db.players.vals, r.username = e.1 ∧ r.balance = e.2) ∧
    ∀ r ∈ db.players.vals, r.username = e.1 → r.balance.le e.2 = true
  complete : ∀ last ∈ entries.getLast?, ∀ r ∈ db.players.vals,
    last.2.lt r.balance = true → ∃ e ∈ entries, e.1 = r.username

/-- Among the first `n` rows none has less than another row of its name. -/
def NoLowerRow (db : DB) (n : ℤ) : Prop :=
  ∀ r ∈ db.players.rows, ∀ q ∈ db.players.rows, q.val.username = r.val.username →
    q.val.balance.lt r.val.balance = true → ¬InLimit n (db.players.rows.countP (Ahead · q))

section Leaderboard
variable {db : DB} {n : ℤ}

theorem noLowerRow_of_highest
    (h : ∀ e ∈ getLeaderboard db n, ∀ r ∈ db.players.vals, r.username = e.1 →
      r.balance.le e.2 = true) : NoLowerRow db n := by
  intro r hr q hq hname hlt hin
  have hshown : q ∈ limit n (ranked db) := (mem_limit_ranked hq).2 hin
  rw [getLeaderboard_collect] at h
  obtain ⟨e, he, hkey⟩ := exists_collect (fun r : Row Player => r.val.username)
    (fun r => r.val.balance) hshown
  have hle := collect_le ((ranked_sorted db).sublist (limit_front _ _).sublist) he hshown hkey.symm
  have hhigh := h e he r.val (Table.val_mem hr) (hname.symm.trans hkey.symm)
  rw [Double.le_iff] at hle hhigh
  rw [Double.lt_iff] at hlt
  exact absurd (hhigh.trans hle) (not_le.2 hlt)

theorem faithful_of_noLowerRow (h : NoLowerRow db n) : Faithful db (getLeaderboard db n) := by
  have hrow : ∀ {x}, x ∈ limit n (ranked db) → x ∈ db.players.rows := fun hx =>
    mem_ranked.1 ((limit_front _ _).subset hx)
  have hhigh : ∀ x ∈ limit n (ranked db), ∀ r ∈ db.players.rows,
      r.val.username = x.val.username → r.val.balance.le x.val.balance = true := by
    intro x hx r hr hname
    have hno : ¬x.val.balance.lt r.val.balance = true := fun hlt =>
      h r hr x (hrow hx) hname.symm hlt ((mem_limit_ranked (hrow hx)).1 hx)
    rw [Double.lt_iff, not_lt] at hno
    exact Double.le_iff.2 hno
  have hone : ∀ x ∈ limit n (ranked db), ∀ y ∈ limit n (ranked db),
      x.val.username = y.val.username → x.val.balance = y.val.balance := by
    intro x hx y hy hname
    have hxy := hhigh x hx y (hrow hy) hname.symm
    have hyx := hhigh y hy x (hrow hx) hname
    rw [Double.le_iff] at hxy hyx
    exact Double.ext_injective (le_antisymm hyx hxy)
  rw [getLeaderboard_collect]
  refine ⟨?_, ?_, ?_⟩
  · refine List.Pairwise.sublist (collect_sublist hone) (List.pairwise_map.2 ?_)
    exact (ranked_sorted db).sublist (limit_front _ _).sublist
  · intro e he
    obtain ⟨x, hx, rfl⟩ := of_mem_collect he
    refine ⟨⟨x.val, Table.val_mem (hrow hx), rfl, rfl⟩, fun r hr hname => ?_⟩
    obtain ⟨q, hq, rfl⟩ := Table.mem_vals.1 hr
    exact hhigh x hx q hq hname
  · intro last hlast r hr hlt
    obtain ⟨x, hx, rfl⟩ := of_mem_collect (List.mem_of_getLast? hlast)
    obtain ⟨q, hq, rfl⟩ := Table.mem_vals.1 hr
    apply exists_collect (fun r : Row Player => r.val.username)
    -- whoever is cut off has no more than those listed
    obtain ⟨rest, hrest⟩ := limit_front n (ranked db)
    have hq' : q ∈ limit n (ranked db) ++ rest := by
      rw [hrest]
      exact mem_ranked.2 hq
    rcases List.mem_append.1 hq' with hq' | hq'
    · exact hq'
    · have hsorted := ranked_sorted db
      rw [← hrest] at hsorted
      have hle := (List.pairwise_append.1 hsorted).2.2 x hx q hq'
      rw [Double.le_iff] at hle
      rw [Double.lt_iff] at hlt
      exact absurd hle (not_le.2 hlt)

end Leaderboard

/-- For every table and every limit. -/
theorem leaderboard_faithful_iff (db : DB) (n : ℤ) :
    Faithful db (getLeaderboard db n) ↔ NoLowerRow db n :=
  ⟨fun h => noLowerRow_of_highest fun e he => (h.highest e he).2, faithful_of_noLowerRow⟩

/-- `a` has 10 in one guild, and is then listed by another. -/
def listedTwice : DB :=
  [addGuildUser 1 "a", addGuildUser 1 "b",
    fun db => ((giveUserAmount "a" 10 db).bind (giveUserAmount "b" 5)).getD db,
    addGuildUser 2 "a"].foldl (fun db f => f db) .empty

theorem leaderboard_unsorted :
    getLeaderboard listedTwice 50 = [("a", .fin 0), ("b", .fin 5)] ∧
      ¬Faithful listedTwice (getLeaderboard listedTwice 50) := by
  have hshown : getLeaderboard listedTwice 50 = [("a", .fin 0), ("b", .fin 5)] := by
    rw [getLeaderboard, List.mergeSort_of_pairwise]
    · decide +kernel
    · decide +kernel
  refine ⟨hshown, fun h => ?_⟩
  have hsorted := h.sorted
  rw [hshown] at hsorted
  revert hsorted
  decide

end AtomComm.LootSplit
