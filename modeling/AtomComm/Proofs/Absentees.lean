import AtomComm.Proofs.Statistics
import AtomComm.Sanity.Pages
import AtomComm.Sanity.Rosters

/-! The check of a guild as a read. When no two names of the CTA are one for `LOWER`, the row
that a status is looked up for and the row that its party is looked up for are the absentee's
own: he is shown as absent, and absent is what is written back. -/

namespace AtomComm.GuildBot

/-- `toLowerCase` makes of ASCII text what `LOWER` makes of it, or else no ASCII text, as with
the dotless i. -/
def LowersAscii (env : Env) : Prop :=
  ∀ s, IsAscii s → IsAscii (env.toLowerCase s) → env.toLowerCase s = LOWER s

/-- The names of the CTA are ASCII, and no two are the same but for their case. -/
structure DistinctNames (db : DB) (g : ℤ) (c : String) : Prop where
  ascii : ∀ r ∈ db.users.vals, r.inCTA g c = true → IsAscii r.charName
  unique : db.users.UniqueOn (fun r => r.inCTA g c = true) fun r => LOWER r.charName

section Rows
variable {env : Env} {db : DB} {g : ℤ} {c name : String}

theorem DistinctNames.eq (h : DistinctNames db g c) {r r' : Member} (hr : r ∈ db.users.vals)
    (hr' : r' ∈ db.users.vals) (hcta : r.inCTA g c = true) (hcta' : r'.inCTA g c = true)
    (hname : LOWER r.charName = LOWER r'.charName) : r = r' := by
  obtain ⟨q, hq, rfl⟩ := Table.mem_vals.1 hr
  obtain ⟨q', hq', rfl⟩ := Table.mem_vals.1 hr'
  rw [h.unique q hq q' hq' hcta hcta' hname]

theorem mem_getAbsentees : name ∈ getAbsentees db g c ↔ ∃ r ∈ db.users.vals,
    r.inCTA g c = true ∧ r.status = .absent ∧ r.partyNumber = none ∧ r.charName = name := by
  simp [getAbsentees, Table.select, and_assoc]

/-- An absentee's name has no party, in whatever case it is looked up. -/
theorem noParty_of_absentee (henv : LowersAscii env) (h : DistinctNames db g c)
    (hname : name ∈ getAbsentees db g c) : playerHasParty env db name g c = false := by
  obtain ⟨r, hr, hcta, -, hparty, rfl⟩ := mem_getAbsentees.1 hname
  unfold playerHasParty
  split
  · rename_i r' hfirst
    obtain ⟨hr', hp⟩ := Table.first_mem hfirst
    simp only [Bool.and_eq_true, decide_eq_true_eq] at hp
    have hascii : IsAscii (env.toLowerCase r.charName) :=
      hp.1 ▸ (lower_ascii (h.ascii r' hr' hp.2)).1
    have hlower := henv r.charName (h.ascii r hr hcta) hascii
    rw [h.eq hr' hr hp.2 hcta (hp.1.trans hlower), hparty]
    rfl
  · rfl

theorem refresh_absentee (henv : LowersAscii env) (h : DistinctNames db g c)
    (hname : name ∈ getAbsentees db g c) : refresh env g c db name = db := by
  refine refresh_undisturbed.2 (.inr ⟨noParty_of_absentee henv h hname, fun r' hr' hcta' hn => ?_⟩)
  obtain ⟨r, hr, hcta, hs, -, rfl⟩ := mem_getAbsentees.1 hname
  rw [h.eq hr' hr hcta' hcta (by rw [hn]), hs]

theorem shownStatus_absentee (henv : LowersAscii env) (h : DistinctNames db g c)
    (hname : name ∈ getAbsentees db g c) : shownStatus env db g c name = .absent := by
  have hparty := noParty_of_absentee henv h hname
  have hself := refresh_eq_self.1 (refresh_absentee henv h hname)
  obtain ⟨r, hr, hcta, hs, -, hn⟩ := mem_getAbsentees.1 hname
  rw [← hself r hr hcta hn, hs]

theorem refreshes_absentees (henv : LowersAscii env) (h : DistinctNames db g c)
    {names : List String} (hnames : ∀ name ∈ names, name ∈ getAbsentees db g c) :
    names.foldl (refresh env g c) db = db := by
  induction names with
  | nil => rfl
  | cons v names ih =>
    rw [List.foldl_cons, refresh_absentee henv h (hnames v List.mem_cons_self)]
    exact ih fun name hn => hnames name (List.mem_cons_of_mem v hn)

end Rows

/-! ### Whatever fails -/

section Faults
variable {fmt : Formatter} {env : Env} {b : Bot} {g : ℤ} {c : String}

/-- Nothing is written but statuses that are there. -/
abbrev Untouched {α : Type} (b : Bot) (p : Cmd α) : Prop := p.Leaves (fun t => t = b) b

theorem untouched_query_bind {α β : Type} {q : DB → α} {k : α → Cmd β} (h : Untouched b (k (q b.db))) :
    Untouched b ((read q).bind k) :=
  Sql.solo_query_bind h rfl

theorem untouched_bind {α β : Type} {p : Cmd α} {k : α → Cmd β} (hp : Untouched b p)
    (hk : ∀ a, Untouched b (k a)) : Untouched b (p.bind k) := by
  refine Sql.leaves_bind hp (fun a t ht => ?_) fun _ ht => ht
  rw [ht]
  exact hk a

theorem untouched_absenteeLines {absentees : List String}
    (h : ∀ name ∈ absentees, refresh env g c b.db name = b.db) (j n : ℕ) :
    Untouched b (absenteeLines env g c absentees j n) := by
  induction n generalizing j with
  | zero => exact Sql.solo_ret rfl
  | succ n ih =>
    rw [absenteeLines]
    split
    · exact Sql.solo_ret rfl
    · rename_i name hj
      have hself : ({ b with db := refresh env g c b.db name } : Bot) = b := by
        rw [h name (List.mem_of_getElem? hj)]
      have hstatus : Untouched b (helperGetPlayerStatus env g c name) := solo_getPlayerStatus hself rfl
      exact untouched_bind hstatus fun _ => untouched_bind (ih (j + 1)) fun _ => Sql.solo_ret rfl

theorem untouched_checkPage {absentees : List String} {parties : List ℤ}
    (h : ∀ name ∈ absentees, refresh env g c b.db name = b.db) (k : ℕ) :
    Untouched b (checkPage fmt env g c absentees parties k) := by
  unfold checkPage
  dsimp only
  split
  · exact untouched_bind (untouched_absenteeLines h _ _) fun _ => Sql.solo_ret rfl
  · split
    · exact Sql.solo_throw rfl
    · apply untouched_query_bind
      split
      · exact Sql.solo_throw rfl
      · exact Sql.solo_ret rfl

theorem untouched_getPaginatorEmbed
    (h : ∀ name ∈ getAbsentees b.db g c, refresh env g c b.db name = b.db) :
    Untouched b (getPaginatorEmbed fmt env g c) := by
  have hpages : ∀ n k, Untouched b (pagesFrom fmt env g c (getAbsentees b.db g c)
      (getParties b.db c g) k n) := by
    intro n
    induction n with
    | zero => exact fun _ => Sql.solo_ret rfl
    | succ n ih =>
      intro k
      exact untouched_bind (untouched_checkPage h k) fun _ => untouched_bind (ih (k + 1)) fun _ => Sql.solo_ret rfl
  unfold getPaginatorEmbed
  refine Sql.leaves_tryCatch (untouched_query_bind (untouched_query_bind ?_)) fun _ _ ht => Sql.solo_throw ht
  split
  · exact Sql.solo_ret rfl
  · exact hpages _ 0

end Faults

/-! ### The pages -/

section Pages
variable {fmt : Formatter} {env : Env} {b : Bot} {g : ℤ} {c : String}

theorem mem_chunksOf {absentees lines : List String} (h : lines ∈ chunksOf env g c b absentees) :
    lines ≠ [] ∧ lines.length ≤ namesPerPage := by
  obtain ⟨k, hk, rfl⟩ := List.mem_map.1 h
  rw [List.mem_range] at hk
  have hlen : (window (checkLines env g c b absentees) k).length =
      min namesPerPage (absentees.length - namesPerPage * k) := by
    simp [window, checkLines]
  unfold absenteesPagesCount at hk
  unfold namesPerPage at *
  refine ⟨fun hnil => ?_, by omega⟩
  rw [hnil, List.length_nil] at hlen
  omega

end Pages

/-- Bobby is in a party, and two members are absent. -/
def twoAbsent : List Input := opening ["Bobby", "Evelyn", "olivia"] ++ [does (.partyAdd 2 "bobby")]

end AtomComm.GuildBot
