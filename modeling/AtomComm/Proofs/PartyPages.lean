import AtomComm.Sanity.Pages

/-! The members on the pages of the check. A page has room for twenty lines, whatever the
number of the members. What the check writes while it lists the absentees changes nobody's
party, and it makes nobody offline who has one but the rows of a name that has a party and
is listed twice: rows of one name keep in step, the later ones behind the first. -/

namespace AtomComm.GuildBot

/-! ### Rows of one name -/

/-- The later row has no party but that of the earlier one, and is absent only after it. -/
def Behind (r r' : Member) : Prop :=
  (r'.partyNumber = none ∨ r'.partyNumber = r.partyNumber) ∧
    (r'.status = .absent → r.status = .absent)

def InStep (t : Table Member) : Prop := t.vals.Pairwise fun r r' => SameKey r r' → Behind r r'

theorem inStep_empty : InStep .empty := List.Pairwise.nil

section Steps
variable {t : Table Member}

theorem inStep_update (h : InStep t) {p : Member → Bool} {f : Member → Member}
    (hkey : ∀ r, SameKey r (f r)) (hf : ∀ r r', SameKey r r' → Behind r r' →
      Behind (if p r then f r else r) (if p r' then f r' else r')) : InStep (t.update p f) := by
  have hsame : ∀ r, SameKey r (if p r then f r else r) := by
    intro r
    split
    · exact hkey r
    · exact ⟨rfl, rfl, rfl⟩
  unfold InStep
  rw [Table.vals_update, List.pairwise_map]
  refine h.imp fun hb hk => ?_
  have hk' := ((hsame _).trans hk).trans (hsame _).symm
  exact hf _ _ hk' (hb hk')

/-- An update that goes by the name and the CTA alone. -/
theorem inStep_named (h : InStep t) {p : Member → Bool} {f : Member → Member}
    (hkey : ∀ r, SameKey r (f r)) (hp : ∀ r r', SameKey r r' → p r' = p r)
    (hf : ∀ r r', Behind r r' → Behind (f r) (f r')) : InStep (t.update p f) := by
  apply inStep_update h hkey
  intro r r' hk hb
  rw [hp r r' hk]
  split
  · exact hf r r' hb
  · exact hb

theorem inStep_delete (h : InStep t) (p : Member → Bool) : InStep (t.delete p) := by
  unfold InStep
  rw [Table.vals_delete]
  exact h.filter _

theorem inStep_insert (h : InStep t) {r : Member} (hs : r.status ≠ .absent)
    (hn : r.partyNumber = none) : InStep (t.insert r) := by
  unfold InStep
  rw [Table.vals_insert, List.pairwise_append]
  refine ⟨h, List.pairwise_singleton _ _, fun q _ r' hr' _ => ?_⟩
  rw [List.mem_singleton.1 hr']
  exact ⟨.inl hn, fun ha => absurd ha hs⟩

/-- An update of the rows in one party, which takes them out of it. -/
theorem inStep_leave (h : InStep t) {p : Member → Bool} {f : Member → Member} {n : ℤ}
    (hkey : ∀ r, SameKey r (f r)) (hp : ∀ r r', SameKey r r' → p r' = p r)
    (hnone : ∀ r, (f r).partyNumber = none)
    (hf : ∀ r r', Behind r r' → ((f r').status = .absent → (f r).status = .absent) ∧
      (r'.status = .absent → (f r).status = .absent)) :
    InStep (t.update (fun r => p r && r.partyNumber = some n) f) := by
  apply inStep_update h hkey
  intro r r' hk hb
  rw [hp r r' hk]
  by_cases hpr : p r = true
  · by_cases hn : r.partyNumber = some n <;> by_cases hn' : r'.partyNumber = some n
    · simpa [hpr, hn, hn', Behind, hnone] using (hf r r' hb).1
    · have hgone : r'.partyNumber = none := hb.1.resolve_right fun h => hn' (h.trans hn)
      simpa [hpr, hn, hgone, Behind, hnone] using (hf r r' hb).2
    · have hsame := hb.1.resolve_left (by simp [hn'])
      exact absurd (hsame.symm.trans hn') hn
    · simpa [hpr, hn, hn'] using hb
  · simpa [hpr] using hb

end Steps

theorem effect_inStep {env : Env} {b t t' : Bot} {a : Action} (he : Effect env b a t t')
    (h : InStep t.db.users) : InStep t'.db.users := by
  cases he with
  | place =>
    simp only [setParty]
    refine inStep_named h (fun _ => ⟨rfl, rfl, rfl⟩) (fun r r' hk => ?_) fun _ _ _ => ⟨.inr rfl, id⟩
    rw [hk.2.2, hk.inCTA]
  | remove =>
    simp only [removePlayerFromParty]
    refine inStep_leave h (fun _ => ⟨rfl, rfl, rfl⟩) (fun r r' hk => ?_) (fun _ => rfl)
      fun _ _ _ => ⟨id, fun _ => rfl⟩
    rw [hk.2.2, hk.inCTA]
  | clear =>
    exact inStep_leave h (fun _ => ⟨rfl, rfl, rfl⟩) (fun r r' hk => hk.inCTA _ _) (fun _ => rfl)
      fun _ _ hb => ⟨hb.2, hb.2⟩
  | detect | shown | online =>
    refine inStep_named h (fun _ => ⟨rfl, rfl, rfl⟩) (fun r r' hk => ?_) fun _ _ hb => ⟨hb.1, id⟩
    rw [hk.2.2, hk.inCTA]
  | seen =>
    refine inStep_named h (fun _ => ⟨rfl, rfl, rfl⟩) (fun r r' hk => ?_) fun _ _ hb => hb
    rw [hk.2.2, hk.inCTA]
  | cancelUsers | dropUsers => exact inStep_delete h _
  | list => exact inStep_insert h (by simp) rfl
  | _ => exact h

theorem reachable_inStep {env : Env} {P : Pool Thread Bot Reply}
    (h : (system env).Reaches (System.idle Bot.empty) P) : InStep P.state.db.users := by
  refine System.reaches_invariant (I := fun b => InStep b.db.users) inStep_empty ?_ h
  rintro i b b' p hb ⟨a, -, hst⟩
  obtain ⟨hdb, hk⟩ := start_within hst
  refine ⟨hdb ▸ hb, hk.imp (fun _ _ => trivial) ?_⟩
  exact fun t t' ht he => ⟨effect_inStep he ht, trivial⟩

theorem run_inStep {env : Env} {b : Bot} {es : List (Event Input Bot)}
    (h : Run (step env) Bot.empty es b) : InStep b.db.users :=
  reachable_inStep (run_reaches h)

/-! ### What the listing writes -/

section Written
variable {env : Env} {db : DB} {g : ℤ} {c : String}

/-- The status of a row of the name when it has been listed so many times. -/
def statusAfter (env : Env) (db : DB) (g : ℤ) (c name : String) : ℕ → Status → Status
  | 0, s => s
  | 1, _ => shownStatus env db g c name
  | _ + 2, _ => if shownStatus env db g c name = .absent then .absent else .offline

theorem shownStatus_eq_absent {name : String} : shownStatus env db g c name = .absent ↔
    getPlayerStatus db g c name = some .absent ∧ playerHasParty env db name g c = false := by
  unfold shownStatus
  by_cases hs : getPlayerStatus db g c name = some .absent
  · cases hp : playerHasParty env db name g c <;> simp [hs]
  · simp [hs]

/-- A name that was listed is shown as absent for good, or as offline from the second time on. -/
theorem shownStatus_after {db' : DB} {name : String} {k : ℕ}
    (hstatus : getPlayerStatus db' g c name =
      (getPlayerStatus db g c name).map (statusAfter env db g c name k))
    (hparty : playerHasParty env db' name g c = playerHasParty env db name g c) (s : Status) :
    shownStatus env db' g c name = statusAfter env db g c name (k + 1) s := by
  rw [shownStatus, hstatus, hparty]
  cases k with
  | zero => simp [statusAfter, shownStatus]
  | succ k =>
    by_cases habs : shownStatus env db g c name = .absent
    · obtain ⟨hs, hp⟩ := shownStatus_eq_absent.1 habs
      cases k <;> simp [statusAfter, habs, hs, hp]
    · cases k <;> cases getPlayerStatus db g c name <;> simp [statusAfter, habs]

theorem playerHasParty_refreshes (names : List String) (name : String) :
    playerHasParty env (names.foldl (refresh env g c) db) name g c =
      playerHasParty env db name g c := by
  induction names generalizing db with
  | nil => rfl
  | cons v names ih => rw [List.foldl_cons, ih, refresh, playerHasParty_status]

/-- By induction on the names from their end: the last one is shown as the others have left it. -/
theorem getPlayerStatus_refreshes (names : List String) (name : String) :
    getPlayerStatus (names.foldl (refresh env g c) db) g c name =
      (getPlayerStatus db g c name).map (statusAfter env db g c name (names.count name)) := by
  induction names using List.reverseRecOn with
  | nil => cases h : getPlayerStatus db g c name <;> simp [statusAfter, h]
  | append_singleton names v ih =>
    rw [List.foldl_append, List.foldl_cons, List.foldl_nil, refresh, getPlayerStatus_status]
    by_cases hv : name = v
    · subst hv
      rw [if_pos rfl, ih, Option.map_map, List.count_append, List.count_singleton_self]
      refine Option.map_congr fun s _ => ?_
      exact shownStatus_after ih (playerHasParty_refreshes names name) s
    · rw [if_neg hv, ih, List.count_append, List.count_singleton]
      simp [Ne.symm hv]

/-- The rows that the listing leaves. -/
theorem vals_refreshes (names : List String) :
    (names.foldl (refresh env g c) db).users.vals = db.users.vals.map fun r =>
      if r.inCTA g c then
        { r with status := statusAfter env db g c r.charName (names.count r.charName) r.status }
      else r := by
  induction names using List.reverseRecOn with
  | nil => simp [statusAfter]
  | append_singleton names v ih =>
    rw [List.foldl_append, List.foldl_cons, List.foldl_nil, refresh, updateUserStatus,
      Table.vals_update, ih, List.map_map]
    apply List.map_congr_left
    intro r _
    by_cases hcta : r.inCTA g c = true
    · have hcta' : ∀ s, Member.inCTA g c { r with status := s } = true := fun s => hcta
      by_cases hv : r.charName = v
      · subst hv
        have hshown := shownStatus_after (getPlayerStatus_refreshes names r.charName)
          (@playerHasParty_refreshes env db g c names r.charName) r.status
        simp [hcta, hcta', hshown]
      · simp [hcta, hv, Ne.symm hv]
    · simp [hcta]

end Written

/-! ### Who is looked for on a page -/

def attends (s : Status) : Bool := s = .absent || s = .present

/-- The rows that the page of a party is for. -/
def inParty (g : ℤ) (c : String) (n : ℤ) (r : Member) : Bool :=
  r.inCTA g c && r.partyNumber = some n && attends r.status

def partyNames (db : DB) (g : ℤ) (c : String) (n : ℤ) : List String :=
  (db.users.select (inParty g c n)).map Member.charName

/-- The name has a party for `playerHasParty`, and it is an absentee twice. -/
def Forgotten (env : Env) (db : DB) (g : ℤ) (c name : String) : Prop :=
  playerHasParty env db name g c = true ∧ 2 ≤ (getAbsentees db g c).count name

instance (env : Env) (db : DB) (g : ℤ) (c name : String) : Decidable (Forgotten env db g c name) :=
  inferInstanceAs (Decidable (_ ∧ _))

/-- The pages have a line for each of those rows, on the page of its party. -/
def MembersShown (db : DB) (g : ℤ) (c : String) (pages : List MessageEmbed) : Prop :=
  ∃ chunks, ∃ members : ℤ → List (String × Status),
    pages = checkPages chunks ((getParties db c g).map fun n =>
      (n, (members n).map fun m => (m.1, m.2.text))) ∧
    ∀ n ∈ getParties db c g, ((members n).map Prod.fst).Perm (partyNames db g c n) ∧
      ∀ m ∈ members n, attends m.2 = true

theorem pairwise_or {α : Type} {R : α → α → Prop} {xs : List α} {a x : α} (h : xs.Pairwise R)
    (ha : a ∈ xs) (hx : x ∈ xs) (hne : a ≠ x) : R a x ∨ R x a := by
  have hsymm : Std.Symm fun y z => R y z ∨ R z y := ⟨fun _ _ => Or.symm⟩
  have hor : xs.Pairwise fun y z => R y z ∨ R z y := h.imp .inl
  exact hor.forall ha hx hne

theorem pairwise_find {α : Type} {R : α → α → Prop} {p : α → Bool} {xs : List α} {a x : α}
    (h : xs.Pairwise R) (hfind : xs.find? p = some a) (hx : x ∈ xs) (hp : p x = true) :
    x = a ∨ R a x := by
  obtain ⟨-, ys, zs, rfl, hys⟩ := List.find?_eq_some_iff_append.1 hfind
  rcases List.mem_append.1 hx with hx | hx
  · simpa [hp] using hys x hx
  · rcases List.mem_cons.1 hx with hx | hx
    · exact .inl hx
    · exact .inr (List.rel_of_pairwise_cons (List.pairwise_append.1 h).2.1 hx)

section Rows
variable {env : Env} {db : DB} {g : ℤ} {c : String} {n : ℤ}

/-- Before an absentee of the same name, a row with a party is absent, and so is the first. -/
theorem absent_of_listed (h : InStep db.users) {r : Member} (hr : r ∈ db.users.vals)
    (hcta : r.inCTA g c = true) (hparty : r.partyNumber ≠ none)
    (hname : r.charName ∈ getAbsentees db g c) :
    r.status = .absent ∧ getPlayerStatus db g c r.charName = some .absent := by
  obtain ⟨q, hq, hqname⟩ := List.mem_map.1 hname
  obtain ⟨hq, hsel⟩ := List.mem_filter.1 hq
  simp only [Bool.and_eq_true, decide_eq_true_eq] at hsel
  obtain ⟨⟨hqcta, hqs⟩, hqn⟩ := hsel
  have hkey : ∀ x : Member, x.inCTA g c = true → x.charName = r.charName → SameKey x q := by
    intro x hx hn
    simp only [Member.inCTA, Bool.and_eq_true, decide_eq_true_eq] at hx hqcta
    exact ⟨hqcta.1.trans hx.1.symm, hqcta.2.trans hx.2.symm, hqname.trans hn.symm⟩
  have hne : r ≠ q := by
    rintro rfl
    exact hparty hqn
  have hbefore : Behind r q := by
    rcases pairwise_or h hr hq hne with hb | hb
    · exact hb (hkey r hcta rfl)
    · have hnone := (hb (hkey r hcta rfl).symm).1
      rw [hqn] at hnone
      exact absurd (hnone.elim id id) hparty
  refine ⟨hbefore.2 hqs, ?_⟩
  obtain ⟨r₀, hfirst⟩ := Table.first_isSome_of_mem (p := fun r' => r'.inCTA g c && r'.charName = r.charName)
    hr (by simp [hcta])
  obtain ⟨-, hp⟩ := Table.first_mem hfirst
  obtain ⟨hcta₀, hname₀⟩ := Bool.and_eq_true_iff.1 hp
  have habs : r₀.status = .absent := by
    rcases pairwise_find h hfirst hq (by simp [Member.inCTA] at hqcta ⊢; simp [hqcta, hqname]) with rfl | hb
    · exact hqs
    · exact (hb (hkey r₀ hcta₀ (of_decide_eq_true hname₀))).2 hqs
  rw [getPlayerStatus, hfirst, Option.map_some, habs]

/-- What the listing leaves of the rows that a page is for. -/
theorem attends_after (h : InStep db.users) {r : Member} (hr : r ∈ db.users.vals)
    (hcta : r.inCTA g c = true) (hparty : r.partyNumber ≠ none) :
    attends (statusAfter env db g c r.charName ((getAbsentees db g c).count r.charName) r.status) =
      (attends r.status && !decide (Forgotten env db g c r.charName)) := by
  by_cases hname : r.charName ∈ getAbsentees db g c
  · obtain ⟨hs, hfirst⟩ := absent_of_listed h hr hcta hparty hname
    have hpos := List.count_pos_iff.2 hname
    have hshown : shownStatus env db g c r.charName =
        if playerHasParty env db r.charName g c then .present else .absent := if_pos hfirst
    obtain hone | ⟨k, hk⟩ : (getAbsentees db g c).count r.charName = 1 ∨
        ∃ k, (getAbsentees db g c).count r.charName = k + 2 := by
      by_cases hone : (getAbsentees db g c).count r.charName = 1
      · exact .inl hone
      · exact .inr ⟨(getAbsentees db g c).count r.charName - 2, by omega⟩
    · have hkept : ¬Forgotten env db g c r.charName := fun hf => by
        have := hf.2
        omega
      rw [hone, statusAfter, hshown, hs]
      split <;> simp [attends, hkept]
    · have hforgotten : Forgotten env db g c r.charName ↔
          playerHasParty env db r.charName g c = true :=
        and_iff_left (by omega)
      rw [hk, statusAfter, hshown, hs]
      cases hp : playerHasParty env db r.charName g c <;> simp [attends, hforgotten, hp]
  · have hzero := List.count_eq_zero.2 hname
    simp [hzero, statusAfter, Forgotten]

/-- Who is left on the page of a party. -/
theorem partyNames_rechecked {b : Bot} (h : InStep b.db.users) :
    partyNames (rechecked env g c b (getAbsentees b.db g c)).db g c n =
      ((b.db.users.select (inParty g c n)).filter fun r =>
        !decide (Forgotten env b.db g c r.charName)).map Member.charName := by
  unfold partyNames Table.select rechecked
  simp only
  rw [vals_refreshes, List.filter_map, List.map_map, List.filter_filter]
  rw [List.filter_congr fun r hr => ?_]
  · apply List.map_congr_left
    intro r _
    simp only [Function.comp]
    split <;> rfl
  · by_cases hcta : r.inCTA g c = true
    · by_cases hn : r.partyNumber = some n
      · have hafter := @attends_after env b.db g c h r hr hcta (by simp [hn])
        have hkey : r.guildId = g ∧ r.ctaId = c := by simpa [Member.inCTA] using hcta
        simp [inParty, Member.inCTA, hkey, hn, hafter, Bool.and_comm]
      · simp [inParty, hcta, hn]
    · simp [inParty, hcta]

theorem perm_getPartyMembers : ((getPartyMembers db c g n).map Prod.fst).Perm (partyNames db g c n) := by
  have hsplit := List.filter_append_perm (fun r : Member => decide (r.status = .absent))
    (db.users.select (inParty g c n))
  have habs : (db.users.select fun r =>
      r.inCTA g c && r.partyNumber = some n && r.status = .absent) =
        (db.users.select (inParty g c n)).filter fun r => decide (r.status = .absent) := by
    unfold Table.select
    rw [List.filter_filter]
    refine List.filter_congr fun r _ => ?_
    by_cases hs : r.status = .absent <;> simp [inParty, attends, hs]
  have hpres : (db.users.select fun r =>
      r.inCTA g c && r.partyNumber = some n && r.status = .present) =
        (db.users.select (inParty g c n)).filter fun r => !decide (r.status = .absent) := by
    unfold Table.select
    rw [List.filter_filter]
    refine List.filter_congr fun r _ => ?_
    cases hs : r.status <;> simp [inParty, attends, hs]
  rw [← habs, ← hpres] at hsplit
  unfold getPartyMembers partyNames
  simp only [List.map_map]
  refine (List.Perm.map _ ?_).trans (hsplit.map _)
  exact (List.perm_insertionSort _ _).append (List.perm_insertionSort _ _)

theorem attends_getPartyMembers {m : String × Status × ℤ} (hm : m ∈ getPartyMembers db c g n) :
    attends m.2.1 = true := by
  obtain ⟨r, hr, rfl⟩ := List.mem_map.1 hm
  simp only [List.mem_append, List.mem_insertionSort, Table.select, List.mem_filter,
    Bool.and_eq_true, decide_eq_true_eq] at hr
  rcases hr with ⟨-, -, hs⟩ | ⟨-, -, hs⟩ <;> simp [attends, hs]

end Rows

/-! ### The length of a table -/

section Lengths
variable {entries : List (String × String)}

/-- What a line takes after its number. -/
def lineWidth (e : String × String) : ℕ := max e.1.length 40 + min e.2.length 25 + 1

def numbersWidth (k : ℕ) : ℕ :=
  ((List.range k).map fun j => (StringUtils.left (toString (j + 1)) 25).length).sum

theorem numbersWidth_mono {k k' : ℕ} (h : k ≤ k') : numbersWidth k ≤ numbersWidth k' := by
  obtain ⟨d, rfl⟩ := Nat.exists_eq_add_of_le h
  induction d with
  | zero => exact Nat.le_refl _
  | succ d ih =>
    apply (ih (Nat.le_add_right _ _)).trans
    rw [← Nat.add_assoc, numbersWidth, numbersWidth, List.range_succ, List.map_append, List.sum_append]
    exact Nat.le_add_right _ _

theorem length_lines : (String.join (entries.mapIdx fun j e => tableLine j e.1 e.2)).length =
    numbersWidth entries.length + (entries.map lineWidth).sum := by
  induction entries using List.reverseRecOn with
  | nil => rfl
  | append_singleton entries e ih =>
    have hline : (tableLine entries.length e.1 e.2).length =
        (StringUtils.left (toString (entries.length + 1)) 25).length + lineWidth e := by
      unfold tableLine lineWidth
      simp only [String.length_append, length_center, length_right]
      rw [show "\n".length = 1 from rfl]
      omega
    rw [List.mapIdx_concat, String.length_join, List.map_append, List.sum_append, ← String.length_join,
      ih, List.map_append, List.sum_append, List.length_append, List.length_singleton, numbersWidth,
      numbersWidth, List.range_succ, List.map_append, List.sum_append]
    simp only [List.map_cons, List.map_nil, List.sum_cons, List.sum_nil, hline]
    omega

/-- Fewer values of at least `m` each have a smaller sum. -/
theorem sum_subperm {α : Type} {f : α → ℕ} {m : ℕ} {xs ys : List α} (h : xs.Subperm ys)
    (hm : ∀ y ∈ ys, m ≤ f y) :
    (xs.map f).sum + m * ys.length ≤ (ys.map f).sum + m * xs.length := by
  obtain ⟨zs, hperm, hsub⟩ := List.subperm_iff.1 h
  rw [← (hperm.map f).sum_eq, ← hperm.length_eq]
  replace hm := fun z hz => hm z (hperm.subset hz)
  clear h hperm
  induction hsub with
  | slnil => simp
  | cons z _ ih =>
    have hz := hm z List.mem_cons_self
    have hle := ih fun y hy => hm y (List.mem_cons_of_mem z hy)
    simp only [List.map_cons, List.sum_cons, List.length_cons, Nat.mul_succ]
    omega
  | cons_cons z _ ih =>
    have hle := ih fun y hy => hm y (List.mem_cons_of_mem z hy)
    simp only [List.map_cons, List.sum_cons, List.length_cons, Nat.mul_succ]
    omega

theorem length_text {s : Status} (h : attends s = true) : 6 ≤ s.text.length ∧ s.text.length ≤ 7 := by
  cases s <;> simp_all [attends, Status.text] <;> decide

/-- The width of the lines against that of the names. -/
theorem sum_lineWidth {k : ℕ} (members : List (String × Status))
    (h : ∀ m ∈ members, attends m.2 = true) (hk : members.length ≤ k) :
    ((members.map Prod.fst).map fun name => max name.length 40 + 7).sum ≤
        ((members.map fun m => (m.1, m.2.text)).map lineWidth).sum ∧
      ((members.map fun m => (m.1, m.2.text)).map lineWidth).sum ≤
        ((members.map Prod.fst).map fun name => max name.length 40 + 7).sum + k := by
  induction members generalizing k with
  | nil => simp
  | cons m members ih =>
    have htext := length_text (h m List.mem_cons_self)
    rw [List.length_cons] at hk
    have hrest := ih (k := k - 1) (fun m' hm' => h m' (List.mem_cons_of_mem m hm')) (by omega)
    have hline : lineWidth (m.1, m.2.text) = max m.1.length 40 + m.2.text.length + 1 := by
      unfold lineWidth
      dsimp only
      omega
    simp only [List.map_cons, List.sum_cons, hline]
    omega

theorem partyTable_nil_ne (e : String × String) : partyTable [] ≠ partyTable (e :: entries) := by
  intro h
  have hnil : (partyTable []).toList.head? = some ' ' := by decide
  have hcons : (partyTable (e :: entries)).toList.head? = some '1' := by
    have hone : (StringUtils.left (toString (0 + 1)) 25).toList = ['1'] := by decide
    simp only [partyTable, List.mapIdx_cons, String.join_cons, tableLine, String.toList_append, hone]
    rfl
  rw [h, hcons] at hnil
  cases hnil

/-- A page that leaves someone out is shorter. -/
theorem partyTable_ne {members members' : List (String × Status)}
    (h : ∀ m ∈ members, attends m.2 = true) (h' : ∀ m ∈ members', attends m.2 = true)
    (hpage : members.length ≤ 20) (hlt : members.length < members'.length)
    (hsub : (members.map Prod.fst).Subperm (members'.map Prod.fst)) :
    partyTable (members.map fun m => (m.1, m.2.text)) ≠
      partyTable (members'.map fun m => (m.1, m.2.text)) := by
  intro heq
  have hne' : members' ≠ [] := List.ne_nil_of_length_pos (by omega)
  by_cases hne : members = []
  · obtain ⟨m, rest, rfl⟩ := List.exists_cons_of_ne_nil hne'
    rw [hne] at heq
    exact partyTable_nil_ne _ heq
  · have hlen := congrArg String.length heq
    unfold partyTable at hlen
    simp only [String.length_append, length_lines, List.length_map, List.map_eq_nil_iff, hne, hne',
      if_false] at hlen
    have hnumbers := numbersWidth_mono (Nat.le_of_lt hlt)
    have hsum := sum_subperm (f := fun name => max name.length 40 + 7) (m := 47) hsub
      fun _ _ => by omega
    simp only [List.length_map] at hsum
    have hle := (sum_lineWidth members h hpage).2
    have hge := (sum_lineWidth members' h' (Nat.le_refl _)).1
    omega

end Lengths

/-! ### The pages -/

section Pages
variable {fmt : Formatter} {env : Env} {b : Bot} {g : ℤ} {c : String}

/-- Pages with the same text have the same tables. -/
theorem partyTable_of_checkPages {chunks chunks' : List (List String)} {parties : List ℤ}
    {entries entries' : ℤ → List (String × String)}
    (h : checkPages chunks (parties.map fun n => (n, entries n)) =
      checkPages chunks' (parties.map fun n => (n, entries' n))) {n : ℤ} (hn : n ∈ parties) :
    partyTable (entries n) = partyTable (entries' n) := by
  have hne : parties.map (fun n => (n, entries n)) ≠ [] := by
    simpa using List.ne_nil_of_mem hn
  have hne' : parties.map (fun n => (n, entries' n)) ≠ [] := by
    simpa using List.ne_nil_of_mem hn
  unfold checkPages at h
  rw [if_neg fun hc => hne hc.2, if_neg fun hc => hne' hc.2] at h
  have hpages := (List.append_inj' h (by simp)).2
  obtain ⟨i, hi, rfl⟩ := List.getElem_of_mem hn
  have hpage := congrArg (fun pages => pages[i]?) hpages
  simp only [List.getElem?_mapIdx, List.getElem?_map, List.getElem?_eq_getElem hi, Option.map_some,
    Option.some.injEq, listingPage, MessageEmbed.mk.injEq, true_and] at hpage
  have htext := congrArg String.toList hpage.1
  rw [String.toList_append, String.toList_append] at htext
  exact String.toList_inj.1 (List.append_cancel_left htext)

theorem mem_getParties {n : ℤ} {db : DB} : n ∈ getParties db c g ↔
    ∃ r ∈ db.users.vals, r.inCTA g c = true ∧ r.partyNumber = some n := by
  simp [getParties, Table.select, and_assoc]

/-- What the page of a party lists. -/
def listedMembers (db : DB) (g : ℤ) (c : String) (n : ℤ) : List (String × Status) :=
  ((getPartyMembers db c g n).map fun m => (m.1, m.2.1)).take namesPerPage

theorem partyEntries_eq {db : DB} {n : ℤ} : partyEntries db g c n =
    (listedMembers db g c n).map fun m => (m.1, m.2.text) := by
  simp [partyEntries, listedMembers, shownMembers, Function.comp_def]

theorem attends_listed {db : DB} {n : ℤ} {m : String × Status} (hm : m ∈ listedMembers db g c n) :
    attends m.2 = true := by
  obtain ⟨x, hx, rfl⟩ := List.mem_map.1 (List.mem_of_mem_take hm)
  exact attends_getPartyMembers hx

theorem names_listed {db : DB} {n : ℤ} :
    ((listedMembers db g c n).map Prod.fst).Subperm (partyNames db g c n) := by
  have hprefix := (List.take_prefix namesPerPage ((getPartyMembers db c g n).map Prod.fst)).sublist
  have hmap : (listedMembers db g c n).map Prod.fst =
      ((getPartyMembers db c g n).map Prod.fst).take namesPerPage := by
    simp [listedMembers, Function.comp_def]
  rw [hmap]
  exact hprefix.subperm.trans perm_getPartyMembers.subperm

/-- A page that shows every member lists as many as the party has. -/
theorem length_of_shown (h : InStep b.db.users) (hclean : CleanNames b.db g c)
    {pages : List MessageEmbed} {t : Bot}
    (hrun : (getPaginatorEmbed fmt env g c).run [] b = (.ok pages, t))
    (hshown : MembersShown b.db g c pages) {n : ℤ} (hn : n ∈ getParties b.db c g) :
    (partyNames b.db g c n).length ≤
      (listedMembers (rechecked env g c b (getAbsentees b.db g c)).db g c n).length := by
  rw [run_getPaginatorEmbed_clean hclean] at hrun
  obtain rfl := Except.ok.inj (Prod.mk.inj hrun).1
  obtain ⟨chunks, members, hpages, hmembers⟩ := hshown
  obtain ⟨hperm, hattend⟩ := hmembers n hn
  have htable := partyTable_of_checkPages hpages hn
  rw [partyEntries_eq] at htable
  have hsub : (partyNames (rechecked env g c b (getAbsentees b.db g c)).db g c n).Sublist
      (partyNames b.db g c n) := by
    rw [partyNames_rechecked h]
    exact List.filter_sublist.map _
  have hnames := (names_listed.trans hsub.subperm).trans hperm.symm.subperm
  rw [← hperm.length_eq, List.length_map]
  by_contra hlt
  have hpage : (listedMembers (rechecked env g c b (getAbsentees b.db g c)).db g c n).length ≤ 20 :=
    List.length_take_le _ _
  exact partyTable_ne (fun _ hm => attends_listed hm) hattend hpage (by omega) hnames htable

theorem room_of_shown (h : InStep b.db.users) (hclean : CleanNames b.db g c)
    {pages : List MessageEmbed} {t : Bot}
    (hrun : (getPaginatorEmbed fmt env g c).run [] b = (.ok pages, t))
    (hshown : MembersShown b.db g c pages) (n : ℤ) : (partyNames b.db g c n).length ≤ 20 := by
  by_cases hn : n ∈ getParties b.db c g
  · exact (length_of_shown h hclean hrun hshown hn).trans (List.length_take_le _ _)
  · have hnobody : b.db.users.select (inParty g c n) = [] := by
      apply List.filter_eq_nil_iff.2
      intro r hr hin
      simp only [inParty, Bool.and_eq_true, decide_eq_true_eq] at hin
      exact hn (mem_getParties.2 ⟨r, hr, hin.1.1, hin.1.2⟩)
    simp [partyNames, hnobody]

theorem kept_of_shown (h : InStep b.db.users) (hclean : CleanNames b.db g c)
    {pages : List MessageEmbed} {t : Bot}
    (hrun : (getPaginatorEmbed fmt env g c).run [] b = (.ok pages, t))
    (hshown : MembersShown b.db g c pages) {r : Member} (hr : r ∈ b.db.users.vals)
    (hcta : r.inCTA g c = true) (hparty : r.partyNumber ≠ none) (hs : attends r.status = true) :
    ¬Forgotten env b.db g c r.charName := by
  obtain ⟨n, hnum⟩ := Option.ne_none_iff_exists'.1 hparty
  have hn : n ∈ getParties b.db c g := mem_getParties.2 ⟨r, hr, hcta, hnum⟩
  have hlisted : (listedMembers (rechecked env g c b (getAbsentees b.db g c)).db g c n).length ≤
      (partyNames (rechecked env g c b (getAbsentees b.db g c)).db g c n).length := by
    simpa using (@names_listed g c (rechecked env g c b (getAbsentees b.db g c)).db n).length_le
  have hlen := (length_of_shown h hclean hrun hshown hn).trans hlisted
  rw [partyNames_rechecked h, partyNames, List.length_map, List.length_map] at hlen
  have hall := List.filter_sublist.eq_of_length_le hlen
  have hmem : r ∈ b.db.users.select (inParty g c n) :=
    List.mem_filter.2 ⟨hr, by simp [inParty, hcta, hnum, hs]⟩
  simpa using List.filter_eq_self.1 hall r hmem

/-- Pages with the entries of a database in which each party has the same names, and room for
all of them. -/
theorem shown_of_names {db db' : DB}
    (hsame : ∀ n ∈ getParties db c g, partyNames db' g c n = partyNames db g c n)
    (hroom : ∀ n ∈ getParties db c g, (partyNames db g c n).length ≤ 20)
    (chunks : List (List String)) :
    MembersShown db g c (checkPages chunks ((getParties db c g).map fun n =>
      (n, partyEntries db' g c n))) := by
  refine ⟨chunks, listedMembers db' g c, by simp only [partyEntries_eq], fun n hn => ?_⟩
  have hperm := @perm_getPartyMembers db' g c n
  rw [hsame n hn] at hperm
  have hwhole : ((getPartyMembers db' c g n).map Prod.fst).length ≤ namesPerPage :=
    hperm.length_eq.trans_le (hroom n hn)
  refine ⟨?_, fun _ hm => attends_listed hm⟩
  rw [listedMembers, List.take_of_length_le (by simpa using hwhole), List.map_map]
  exact hperm

/-- With room for everyone, and with everyone kept, the pages show all members. -/
theorem shown_of_room (h : InStep b.db.users)
    (hroom : ∀ n ∈ getParties b.db c g, (partyNames b.db g c n).length ≤ 20)
    (hkept : ∀ r ∈ b.db.users.vals, r.inCTA g c = true → r.partyNumber ≠ none →
      attends r.status = true → ¬Forgotten env b.db g c r.charName) (chunks : List (List String)) :
    MembersShown b.db g c (checkPages chunks ((getParties b.db c g).map fun n =>
      (n, partyEntries (rechecked env g c b (getAbsentees b.db g c)).db g c n))) := by
  apply shown_of_names _ hroom
  intro n _
  rw [partyNames_rechecked h, List.filter_eq_self.2 fun r hr => ?_, partyNames]
  obtain ⟨hr, hin⟩ := List.mem_filter.1 hr
  simp only [inParty, Bool.and_eq_true, decide_eq_true_eq] at hin
  simpa using hkept r hr hin.1.1 (by simp [hin.1.2]) hin.2

/-- In every state that commands, checkers and completions reach, their statements in any order,
the pages show every member exactly if no party has more than the twenty that a page has room
for, and no member's name is one of those that end as offline while they are listed. -/
theorem members_shown {P : Pool Thread Bot Reply}
    (h : (system env).Reaches (System.idle Bot.empty) P) (hclean : CleanNames P.state.db g c) :
    (∃ pages t, (getPaginatorEmbed fmt env g c).run [] P.state = (.ok pages, t) ∧
        MembersShown P.state.db g c pages) ↔
      (∀ n ∈ getParties P.state.db c g, (partyNames P.state.db g c n).length ≤ 20) ∧
        ∀ r ∈ P.state.db.users.vals, r.inCTA g c = true → r.partyNumber ≠ none →
          attends r.status = true → ¬Forgotten env P.state.db g c r.charName := by
  have hstep := reachable_inStep h
  constructor
  · rintro ⟨pages, t, hrun, hshown⟩
    exact ⟨fun n _ => room_of_shown hstep hclean hrun hshown n,
      fun r hr hcta hparty hs => kept_of_shown hstep hclean hrun hshown hr hcta hparty hs⟩
  · rintro ⟨hroom, hkept⟩
    exact ⟨_, _, run_getPaginatorEmbed_clean hclean, shown_of_room hstep hroom hkept _⟩

end Pages

/-- The members are online and go to party 1. -/
def party (names : List String) : List Input :=
  opening names ++ names.map fun name => does (.partyAdd 1 name)

theorem members_shown_pair :
    ∃ pages t, (getPaginatorEmbed Formatter.plain Env.ascii 1 "CTA1").run []
        (endState (party ["Bobby", "Evelyn"])) = (.ok pages, t) ∧
      MembersShown (endState (party ["Bobby", "Evelyn"])).db 1 "CTA1" pages :=
  (@members_shown Formatter.plain Env.ascii 1 "CTA1"
    (System.idle (endState (party ["Bobby", "Evelyn"]))) (run_reaches (run_trace _ _ _))
      (by decide +kernel)).2 ⟨by decide +kernel, by decide +kernel⟩

/-- Twenty-one members. -/
def crowd : List String := "abcdefghijklmnopqrstu".toList.map fun c => String.ofList [c]

/-- The last of twenty-one members of a party is on no page. -/
theorem crowd_not_shown :
    (system Env.ascii).Reaches (System.idle Bot.empty) (System.idle (endState (party crowd))) ∧
      CleanNames (endState (party crowd)).db 1 "CTA1" ∧
      (partyNames (endState (party crowd)).db 1 "CTA1" 1).length = 21 ∧
      ¬∃ pages t, (getPaginatorEmbed Formatter.plain Env.ascii 1 "CTA1").run []
          (endState (party crowd)) = (.ok pages, t) ∧
        MembersShown (endState (party crowd)).db 1 "CTA1" pages := by
  have hcrowd : CleanNames (endState (party crowd)).db 1 "CTA1" ∧
      (partyNames (endState (party crowd)).db 1 "CTA1" 1).length = 21 := by
    decide +kernel
  have hrun : Run (step Env.ascii) Bot.empty (trace (step Env.ascii) Bot.empty (party crowd))
      (endState (party crowd)) := run_trace _ _ _
  refine ⟨run_reaches hrun, hcrowd.1, hcrowd.2, ?_⟩
  rintro ⟨pages, t, hpages, hshown⟩
  have hroom := room_of_shown (run_inStep hrun) hcrowd.1 hpages hshown 1
  omega

end AtomComm.GuildBot
