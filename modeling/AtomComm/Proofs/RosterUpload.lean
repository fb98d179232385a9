import AtomComm.Sanity.Batches
import AtomComm.Spec.ParseText

/-! What a roster upload makes of the rows of its CTA. It deletes them all, inserts the roster
batch by batch and marks who is online. A date that cannot be read ends it after the batches
that were whole, and the rows from before do not come back. -/

namespace AtomComm.GuildBot

/-- The rows of the CTA. -/
def listed (db : DB) (g : ℤ) (c : String) : List Member := db.users.select fun r => r.inCTA g c

/-- The row that is inserted for a member. -/
def rowOf (g : ℤ) (c : String) (e : String × ℤ) : Member := ⟨e.1, c, e.2, g, .offline, none⟩

/-- The row after the names that are online were marked. -/
def marked (g : ℤ) (c : String) (online : List String) (r : Member) : Member :=
  if r.inCTA g c && r.charName ∈ online then { r with status := .absent } else r

/-! ### Without faults -/

section Runs
variable {b : Bot} {g : ℤ} {c : String}

theorem writeAll_insert (es : List (String × ℤ)) (db : DB) :
    writeAll (insertUser g c .offline) es db =
      { db with users := db.users.insertAll (es.map (rowOf g c)) } := by
  induction es generalizing db with
  | nil => rfl
  | cons e es ih => exact ih _

theorem marked_cons (name : String) (online : List String) (r : Member) :
    marked g c online (if r.inCTA g c && r.charName = name then { r with status := .absent } else r) =
      marked g c (name :: online) r := by
  by_cases hcta : r.inCTA g c = true
  · by_cases hn : r.charName = name
    · simp [marked, hcta, hn]
    · simp [marked, hcta, hn]
  · simp [marked, hcta]

theorem run_markOnline (online : List String) :
    (markOnline g c online).run [] b =
      (.ok (), { b with db := { b.db with users := b.db.users.mapRows (marked g c online) } }) := by
  induction online generalizing b with
  | nil =>
    have hid : b.db.users.mapRows (marked g c []) = b.db.users :=
      Table.mapRows_eq_self.2 fun r _ => by simp [marked]
    rw [hid]
    rfl
  | cons name online ih =>
    have hmap : ∀ t : Table Member, t.mapRows (marked g c (name :: online)) =
        (t.mapRows fun r => if r.inCTA g c && r.charName = name then { r with status := .absent }
          else r).mapRows (marked g c online) := by
      intro t
      rw [Table.mapRows_mapRows]
      exact Table.mapRows_congr fun r _ => (marked_cons name online r).symm
    rw [hmap]
    exact ih (b := { b with db := updateUserStatus g c name .absent b.db })

/-- The users after the rows of the CTA were deleted and members listed. -/
def relisted (g : ℤ) (c : String) (es : List (String × ℤ)) (t : Table Member) : Table Member :=
  (t.delete fun r => r.inCTA g c).insertAll (es.map (rowOf g c))

theorem select_relisted (es : List (String × ℤ)) (t : Table Member) :
    ((relisted g c es t).select fun r => r.inCTA g c) = es.map (rowOf g c) := by
  have hdel : ((t.vals.filter fun r => !r.inCTA g c).filter fun r => r.inCTA g c) = [] := by
    rw [List.filter_filter]
    simp
  have hrows : ((es.map (rowOf g c)).filter fun r => r.inCTA g c) = es.map (rowOf g c) := by
    rw [List.filter_eq_self]
    intro r hr
    obtain ⟨e, -, rfl⟩ := List.mem_map.1 hr
    simp [rowOf, Member.inCTA]
  rw [Table.select, relisted, Table.vals_insertAll, Table.vals_delete, List.filter_append, hdel,
    hrows, List.nil_append]

theorem run_uploadUsers (roster : Roster) :
    let xs := items roster.charNames roster.lastSeen
    (uploadGuildUploadUsers g roster (some c)).run [] b =
      if ∀ x ∈ xs, (dated x).isSome = true then
        (.ok (), { b with db := postProcessUsersTable { b.db with
          users := (relisted g c (readable xs) b.db.users).mapRows (marked g c roster.onlineUsers) } })
      else (.error .runtime, { b with db := { b.db with
        users := relisted g c (wholeBatches xs) b.db.users } }) := by
  have hloop : ∀ b : Bot,
      (inBatches (uploadGuildData g c · .offline) [] roster.charNames roster.lastSeen).run [] b =
        (outcome (items roster.charNames roster.lastSeen), { b with
          db := writeAll (insertUser g c .offline) (sent (items roster.charNames roster.lastSeen))
            b.db }) :=
    fun b => run_inBatches _ _ [] (by simp) fun _ => rfl
  have hdelete : (write (deleteUsersDataForGuild g c)).run [] b =
      (.ok (), { b with db := deleteUsersDataForGuild g c b.db }) := rfl
  dsimp only
  rw [uploadGuildUploadUsers, addUsersToDatabase, Sql.bind_eq, Sql.run_bind, hdelete]
  dsimp only
  rw [Sql.bind_eq, Sql.run_bind, hloop, writeAll_insert]
  by_cases hall : ∀ x ∈ items roster.charNames roster.lastSeen, (dated x).isSome = true
  · rw [outcome, sent, if_pos hall, if_pos hall, if_pos hall]
    dsimp only
    rw [Sql.bind_eq, Sql.run_bind, run_markOnline]
    rfl
  · rw [outcome, sent, if_neg hall, if_neg hall, if_neg hall]
    rfl

end Runs

section Rows
variable {g : ℤ} {c : String}

theorem marked_inCTA (online : List String) (r : Member) :
    (marked g c online r).inCTA g c = r.inCTA g c := by
  unfold marked
  split <;> rfl

theorem select_marked (online : List String) (t : Table Member) :
    ((t.mapRows (marked g c online)).select fun r => r.inCTA g c) =
      (t.select fun r => r.inCTA g c).map (marked g c online) := by
  rw [Table.select, Table.select, Table.vals_mapRows, List.filter_map]
  refine congrArg _ (List.filter_congr fun r _ => marked_inCTA online r)

/-- Rows that are not of the CTA. -/
def elsewhere (g : ℤ) (c : String) (t : Table Member) : List (Row Member) :=
  t.rows.filter fun r => !r.val.inCTA g c

theorem elsewhere_insert (t : Table Member) (es : List (String × ℤ)) :
    elsewhere g c (t.insertAll (es.map (rowOf g c))) = elsewhere g c t := by
  induction es generalizing t with
  | nil => rfl
  | cons e es ih =>
    refine (ih (t.insert (rowOf g c e))).trans ?_
    simp [elsewhere, rowOf, Member.inCTA]

theorem elsewhere_delete (t : Table Member) :
    elsewhere g c (t.delete fun r => r.inCTA g c) = elsewhere g c t := by
  simp [elsewhere, List.filter_filter]

theorem elsewhere_marked (online : List String) (t : Table Member) :
    elsewhere g c (t.mapRows (marked g c online)) = elsewhere g c t := by
  rw [elsewhere, elsewhere, Table.rows_mapRows, List.filter_map]
  have hrow : ∀ r ∈ t.rows.filter fun r => !r.val.inCTA g c,
      (⟨r.id, marked g c online r.val⟩ : Row Member) = id r := by
    intro r hr
    have hcta : r.val.inCTA g c = false := by simpa using (List.mem_filter.1 hr).2
    simp [marked, hcta]
  simp only [Function.comp_def, marked_inCTA]
  rw [List.map_congr_left hrow, List.map_id]

theorem items_dated {entries : List (String × ℤ)} {names lastSeen : List String}
    (hnames : names = entries.map Prod.fst)
    (hdates : lastSeen.map getInstantFromString = entries.map fun e => some e.2) :
    (items names lastSeen).map dated = entries.map some := by
  induction entries generalizing names lastSeen with
  | nil =>
    rw [hnames]
    rfl
  | cons e entries ih =>
    obtain ⟨seen, rest, rfl, hseen, hrest⟩ := List.map_eq_cons_iff.1 hdates
    rw [hnames, List.map_cons, items, List.map_cons, List.map_cons, ih rfl hrest]
    simp [dated, hseen]

end Rows

/-- A roster with a date for each of its names, none of which fails to be read, becomes the
rows of the CTA in its order; no other row is touched. -/
theorem roster_uploaded {b : Bot} {g : ℤ} {c : String} {roster : Roster}
    {entries : List (String × ℤ)} (hnames : roster.charNames = entries.map Prod.fst)
    (hdates : roster.lastSeen.map getInstantFromString = entries.map fun e => some e.2) :
    ∃ t, (uploadGuildUploadUsers g roster (some c)).run [] b = (.ok (), t) ∧
      listed t.db g c = entries.map (fun e =>
        ⟨e.1, c, e.2, g, if e.1 ∈ roster.onlineUsers then .absent else .offline, none⟩) ∧
      elsewhere g c t.db.users = elsewhere g c b.db.users := by
  have hitems : (items roster.charNames roster.lastSeen).map dated = entries.map some :=
    items_dated hnames hdates
  have hall : ∀ x ∈ items roster.charNames roster.lastSeen, (dated x).isSome = true := by
    intro x hx
    have hmem : dated x ∈ entries.map some := hitems ▸ List.mem_map_of_mem hx
    obtain ⟨e, -, he⟩ := List.mem_map.1 hmem
    rw [← he]
    rfl
  have hreadable : readable (items roster.charNames roster.lastSeen) = entries := by
    have hsome := (front_map hall).trans hitems
    exact List.map_injective_iff.2 (Option.some_injective _) hsome
  have hrun := run_uploadUsers (b := b) (g := g) (c := c) roster
  dsimp only at hrun
  rw [if_pos hall, hreadable] at hrun
  refine ⟨_, hrun, ?_, ?_⟩
  · show ((Table.mapRows _ _).select _) = _
    rw [select_marked, select_relisted, List.map_map]
    refine List.map_congr_left fun e _ => ?_
    by_cases hon : e.1 ∈ roster.onlineUsers
    · simp [marked, rowOf, Member.inCTA, hon]
    · simp [marked, rowOf, Member.inCTA, hon]
  · show elsewhere g c (Table.mapRows _ _) = _
    rw [elsewhere_marked, relisted, elsewhere_insert, elsewhere_delete]

/-- One of the two is online. -/
def evening : Roster :=
  ⟨["Bobby", "Evelyn"], ["03/01/2024 12:00:00", "02/28/2024 09:30:00"], ["Bobby"]⟩

def eveningEntries : List (String × ℤ) :=
  [("Bobby", 1709294400000000000), ("Evelyn", 1709112600000000000)]

theorem roster_uploaded_evening :
    ∃ t, (uploadGuildUploadUsers 1 evening (some "CTA1")).run [] (endState (opening ["Olivia"])) =
        (.ok (), t) ∧
      listed t.db 1 "CTA1" = eveningEntries.map (fun e =>
        ⟨e.1, "CTA1", e.2, 1, if e.1 ∈ evening.onlineUsers then .absent else .offline, none⟩) ∧
      elsewhere 1 "CTA1" t.db.users = elsewhere 1 "CTA1" (endState (opening ["Olivia"])).db.users :=
  roster_uploaded (by decide +kernel) (by decide +kernel)

/-! ### All or nothing -/

/-- What a row says of its member. -/
def entry (r : Member) : Option (String × ℤ) := some (r.charName, r.lastSeen)

/-- The rows of the CTA are one for each name, with its date, or the ones from before. -/
def AllOrNothing (g : ℤ) (c : String) (roster : Roster) (b t : Bot) : Prop :=
  (listed t.db g c).map entry = (items roster.charNames roster.lastSeen).map dated ∨
    listed t.db g c = listed b.db g c

instance (g : ℤ) (c : String) (roster : Roster) (b t : Bot) :
    Decidable (AllOrNothing g c roster b t) :=
  inferInstanceAs (Decidable (_ ∨ _))

section Faultless
variable {b : Bot} {g : ℤ} {c : String} {roster : Roster}

theorem uploaded_state (hc : getCTAID b.db g = some c) :
    ((guildUploadCommand g (.text roster)).run [] b).2 =
      ((uploadGuildUploadUsers g roster (some c)).run [] b).2 := by
  unfold guildUploadCommand uploadRoster
  simp only [read, Sql.bind_eq, Sql.run_query_bind, hc]
  rw [Sql.run_bind]
  split
  · rename_i t hrun
    rw [hrun]
    have hpages : (sendGuildUploadPaginator g (some c)).Within (fun u => u = t) fun _ _ => True :=
      Sql.within_bind (Sql.within_tryCatch (Sql.within_query (fun _ => trivial) _) fun _ => trivial)
        fun _ => Sql.within_ite (fun _ => trivial) fun _ => trivial
    exact (hpages.run (fun _ => trivial) (fun _ _ _ _ _ => trivial) [] rfl).1
  · rename_i hrun
    rw [hrun]

theorem map_entry_rowOf (es : List (String × ℤ)) :
    (es.map (rowOf g c)).map entry = es.map some := by
  rw [List.map_map]
  exact List.map_congr_left fun _ _ => rfl

theorem map_entry_marked (online : List String) (rows : List Member) :
    (rows.map (marked g c online)).map entry = rows.map entry := by
  rw [List.map_map]
  refine List.map_congr_left fun r _ => ?_
  simp only [Function.comp, marked]
  split <;> rfl

/-- When no statement fails. -/
theorem faultless_iff (hc : getCTAID b.db g = some c) :
    AllOrNothing g c roster b ((guildUploadCommand g (.text roster)).run [] b).2 ↔
      (∀ x ∈ items roster.charNames roster.lastSeen, (dated x).isSome = true) ∨
        listed b.db g c = (wholeBatches (items roster.charNames roster.lastSeen)).map (rowOf g c) := by
  have hrun := run_uploadUsers (b := b) (g := g) (c := c) roster
  dsimp only at hrun
  rw [uploaded_state hc, hrun, AllOrNothing]
  generalize items roster.charNames roster.lastSeen = xs
  by_cases hall : ∀ x ∈ xs, (dated x).isSome = true
  · rw [if_pos hall]
    refine iff_of_true (.inl ?_) (.inl hall)
    show ((Table.mapRows _ _).select _).map entry = _
    rw [select_marked, select_relisted, map_entry_marked, map_entry_rowOf]
    exact front_map hall
  · rw [if_neg hall]
    have hlisted : listed { b.db with users := relisted g c (wholeBatches xs) b.db.users } g c =
        (wholeBatches xs).map (rowOf g c) := select_relisted _ _
    rw [hlisted, map_entry_rowOf]
    have hdates : (wholeBatches xs).map some ≠ xs.map dated := by
      intro h
      refine hall fun x hx => ?_
      have hmem : dated x ∈ (wholeBatches xs).map some := h ▸ List.mem_map_of_mem hx
      obtain ⟨e, -, he⟩ := List.mem_map.1 hmem
      rw [← he]
      rfl
    exact ⟨fun h => .inr (h.resolve_left hdates).symm, fun h => .inr (h.resolve_left hall).symm⟩

end Faultless

/-! ### Whatever fails -/

section Faults
variable {b t : Bot} {g : ℤ} {c : String} {roster : Roster}

/-- The rows of the CTA are none, or one for each name with its date. -/
def NoneOrAll (g : ℤ) (c : String) (xs : List (String × Option String)) (t : Bot) : Prop :=
  (listed t.db g c).map entry = [] ∨ (listed t.db g c).map entry = xs.map dated

theorem listed_delete : listed (deleteUsersDataForGuild g c b.db) g c = [] := by
  simp [listed, deleteUsersDataForGuild, Table.select, List.filter_filter]

theorem noneOrAll_online {xs : List (String × Option String)} {name : String}
    (h : NoneOrAll g c xs t) :
    NoneOrAll g c xs { t with db := updateUserStatus g c name .absent t.db } := by
  have hsame : (listed (updateUserStatus g c name .absent t.db) g c).map entry =
      (listed t.db g c).map entry := by
    rw [listed, listed, updateUserStatus, Table.select_update, List.map_map]
    · refine List.map_congr_left fun r _ => ?_
      simp only [Function.comp]
      split <;> rfl
    · exact fun _ _ => rfl
  unfold NoneOrAll at h ⊢
  rwa [hsame]

/-- What follows the loop leaves the names and the dates alone. -/
theorem after_loop {xs : List (String × Option String)} (h : NoneOrAll g c xs t) :
    ((markOnline g c roster.onlineUsers).bind fun _ => swallow (write postProcessUsersTable)).Leaves
      (NoneOrAll g c xs) t := by
  refine Sql.Within.leaves (G := fun _ _ => True) (Sql.within_bind (within_markOnline ?_) ?_) h
  · exact fun name t ht => ⟨noneOrAll_online ht, trivial⟩
  · exact fun _ => within_swallow (within_write fun t ht => ⟨ht, trivial⟩)

theorem entry_insert {e : String × ℤ} :
    (listed (insertUser g c .offline e.1 e.2 t.db) g c).map entry =
      (listed t.db g c).map entry ++ [some e] := by
  simp [listed, insertUser, Table.select, Member.inCTA, entry]

/-- A loop that writes nothing, or at most one member. -/
theorem loop_leaves (hempty : (listed t.db g c).map entry = [])
    (hshort : (∀ x ∈ (items roster.charNames roster.lastSeen).take 40, (dated x).isSome = true) →
      (items roster.charNames roster.lastSeen).length ≤ 1) :
    (inBatches (uploadGuildData g c · .offline) [] roster.charNames roster.lastSeen).Leaves
      (NoneOrAll g c (items roster.charNames roster.lastSeen)) t := by
  by_cases hfirst : ∀ x ∈ (items roster.charNames roster.lastSeen).take 40, (dated x).isSome = true
  · have hone := hshort hfirst
    match hn : roster.charNames, hs : roster.lastSeen with
    | [], _ => exact Sql.solo_ret (.inl hempty)
    | name :: _, [] =>
      have := hfirst (name, none) (by simp [hn, hs, items])
      simp [dated] at this
    | name :: _ :: _, seen :: rest =>
      rw [hn, hs] at hone
      cases rest <;> simp [items] at hone
    | [name], seen :: rest =>
      have hall : ∀ x ∈ [(name, seen)].map given, (dated x).isSome = true := by
        intro x hx
        refine hfirst x ?_
        simpa [hn, hs, items, given] using hx
      have hsend : (uploadGuildData g c [(name, seen)] .offline).Leaves
          (NoneOrAll g c (items [name] (seen :: rest))) t := by
        rw [uploadGuildData, sendBatch_eq, if_pos hall]
        obtain ⟨e, he⟩ := Option.isSome_iff_exists.1 (hall (name, some seen) (by simp [given]))
        have hfront : readable ([(name, seen)].map given) = [e] := by
          simp [readable, front, given, he]
        rw [hfront]
        refine Sql.leaves_tryCatch (I := NoneOrAll g c (items [name] (seen :: rest))) ?_ ?_
        · refine Sql.solo_exec_bind (Sql.solo_ret (.inr ?_)) (.inl hempty)
          rw [entry_insert, hempty]
          simp [items, he]
        · intro x u hu
          cases x with
          | sql => exact Sql.solo_ret hu
          | runtime => exact Sql.solo_throw hu
      rw [inBatches, if_pos (.inr rfl)]
      exact Sql.leaves_bind hsend (fun _ _ hu => Sql.solo_ret hu) fun _ hu => hu
  · have hloop : inBatches (uploadGuildData g c · .offline) [] roster.charNames roster.lastSeen =
        Sql.throw .runtime := inBatches_stop _ _ [] (by simp) (fun _ => rfl) hfirst
    rw [hloop]
    exact Sql.solo_throw (.inl hempty)

/-- The command with no fault up to the deletion. -/
theorem run_after_delete (hc : getCTAID b.db g = some c) (fs : List Bool) :
    (guildUploadCommand g (.text roster)).run (false :: false :: fs) b =
      ((addUsersToDatabase g c roster).bind fun _ => sendGuildUploadPaginator g (some c)).run fs
        { b with db := deleteUsersDataForGuild g c b.db } := by
  unfold guildUploadCommand
  simp only [read, Sql.bind_eq, Sql.run_faulty_query_bind, hc]
  rfl

/-- A roster with names has no rows to lose, and its loop writes one member at most. -/
theorem single_of_faulty (hc : getCTAID b.db g = some c)
    (h : ∀ fs, AllOrNothing g c roster b ((guildUploadCommand g (.text roster)).run fs b).2)
    (hnil : items roster.charNames roster.lastSeen ≠ []) :
    listed b.db g c = [] ∧
      ((∀ x ∈ (items roster.charNames roster.lastSeen).take 40, (dated x).isSome = true) →
        (items roster.charNames roster.lastSeen).length = 1) := by
  -- every statement after the deletion fails
  obtain ⟨fs, hfs⟩ := Sql.run_allFail
    ((addUsersToDatabase g c roster).bind fun _ => sendGuildUploadPaginator g (some c))
  have hnone := h (false :: false :: fs)
  rw [run_after_delete hc, hfs, AllOrNothing, listed_delete] at hnone
  have hold : listed b.db g c = [] :=
    (hnone.resolve_left fun h => hnil (List.map_eq_nil_iff.1 h.symm)).symm
  refine ⟨hold, fun hfirst => ?_⟩
  -- only the first member is written
  have hne : roster.charNames ≠ [] := by
    intro hn
    exact hnil (by rw [hn, items])
  obtain ⟨e, -, hstarts⟩ := @inBatches_starts (insertUser g c .offline) roster.charNames
    roster.lastSeen [] (by simp) hfirst hne
  have hprogram : ((addUsersToDatabase g c roster).bind fun _ =>
      sendGuildUploadPaginator g (some c)).Starts fun b =>
        some { b with db := insertUser g c .offline e.1 e.2 b.db } := (hstarts.bind _).bind _
  obtain ⟨fs, hfs⟩ := hprogram.run rfl
  have hsome := h (false :: false :: fs)
  rw [run_after_delete hc, hfs, AllOrNothing, hold] at hsome
  have hentry := entry_insert (t := { b with db := deleteUsersDataForGuild g c b.db }) (g := g)
    (c := c) (e := e)
  rw [listed_delete] at hentry
  rcases hsome with hsome | hsome
  · simpa using (congrArg List.length (hsome.symm.trans hentry))
  · rw [hsome] at hentry
    simp at hentry

/-- The upload when its loop writes nothing or one member. -/
theorem upload_leaves
    (hshort : (∀ x ∈ (items roster.charNames roster.lastSeen).take 40, (dated x).isSome = true) →
      (items roster.charNames roster.lastSeen).length ≤ 1)
    (hend : ∀ t, NoneOrAll g c (items roster.charNames roster.lastSeen) t →
      AllOrNothing g c roster b t) :
    (uploadRoster g (some c) roster).Leaves (AllOrNothing g c roster b) b := by
  have hloop : (inBatches (uploadGuildData g c · .offline) [] roster.charNames
      roster.lastSeen).Leaves (NoneOrAll g c (items roster.charNames roster.lastSeen))
        { b with db := deleteUsersDataForGuild g c b.db } := by
    apply loop_leaves _ hshort
    rw [listed_delete]
    rfl
  have hadd : (addUsersToDatabase g c roster).Leaves
      (NoneOrAll g c (items roster.charNames roster.lastSeen))
        { b with db := deleteUsersDataForGuild g c b.db } :=
    Sql.leaves_bind hloop (fun _ _ ht => after_loop ht) fun _ ht => ht
  have hpages : ∀ t, NoneOrAll g c (items roster.charNames roster.lastSeen) t →
      (sendGuildUploadPaginator g (some c)).Leaves (AllOrNothing g c roster b) t :=
    fun t ht => (Sql.Within.leaves (within_uploadPaginator (G := fun _ _ => True)
      fun _ => trivial) ht).imp (fun _ u hu => hend u hu) fun _ u hu => hend u hu
  have hprogram : uploadRoster g (some c) roster = (write (deleteUsersDataForGuild g c)).bind
      fun _ => (addUsersToDatabase g c roster).bind fun _ =>
        sendGuildUploadPaginator g (some c) := rfl
  rw [hprogram]
  exact Sql.solo_exec_bind (Sql.leaves_bind hadd (fun _ t ht => hpages t ht) hend) (.inr rfl)

/-- Whatever statements fail. -/
theorem faulty_iff (hc : getCTAID b.db g = some c) :
    (∀ fs, AllOrNothing g c roster b ((guildUploadCommand g (.text roster)).run fs b).2) ↔
      items roster.charNames roster.lastSeen = [] ∨ listed b.db g c = [] ∧
        ((∀ x ∈ (items roster.charNames roster.lastSeen).take 40, (dated x).isSome = true) →
          (items roster.charNames roster.lastSeen).length = 1) := by
  constructor
  · intro h
    by_cases hnil : items roster.charNames roster.lastSeen = []
    · exact .inl hnil
    · exact .inr (single_of_faulty hc h hnil)
  · intro h fs
    have hshort : (∀ x ∈ (items roster.charNames roster.lastSeen).take 40,
        (dated x).isSome = true) → (items roster.charNames roster.lastSeen).length ≤ 1 := by
      rcases h with h | ⟨-, h⟩
      · simp [h]
      · exact fun hfirst => (h hfirst).le
    have hend : ∀ t, NoneOrAll g c (items roster.charNames roster.lastSeen) t →
        AllOrNothing g c roster b t := by
      intro t ht
      rcases ht with ht | ht
      · rcases h with h | ⟨h, -⟩
        · exact .inl (by rw [ht, h, List.map_nil])
        · exact .inr (by rw [List.map_eq_nil_iff.1 ht, h])
      · exact .inl ht
    have hcommand : (guildUploadCommand g (.text roster)).Leaves (AllOrNothing g c roster b) b := by
      apply Sql.solo_query_bind _ (.inr rfl)
      beta_reduce
      rw [hc]
      exact upload_leaves hshort hend
    exact hcommand.run fs

end Faults

/-- A list whose second date cannot be read. -/
def badDate : String :=
  "\"Character Name\"    \"Last Seen\"    \"Roles\" \"Olivia\"    \"03/01/2024 12:00:00\"    \"Officer\" " ++
    "\"Evelyn\"    \"yesterday\"    \"Member\""

def badRoster : Roster := parseText Env.ascii (fun _ => "03/01/2024 16:00:00") false badDate

end AtomComm.GuildBot
