import AtomComm.Sanity.Uploads
import AtomComm.Spec.ParseText

/-! What becomes of a guild's list when it is uploaded again. The rows of the list of exactly
that name go and a new row comes for each name that the guild then lacks, with nothing in it.
The existence query compares names ignoring case, the deletion as they stand, so the rows
of a list in another spelling stay. -/

namespace AtomComm.LootSplit

section Lists
variable {players : Table Player} {guildName : String} {names : List String} {g : ℤ}

/-- What the guild keeps when the list is taken away. -/
theorem mem_kept {r : Player} :
    r ∈ (players.delete fun r => r.guildName = guildName && r.guildId = g).vals ↔
      r ∈ players.vals ∧ (r.guildId = g → r.guildName ≠ guildName) := by
  rw [Table.vals_delete, List.mem_filter]
  simp only [Bool.not_eq_true', Bool.and_eq_false_imp, decide_eq_true_eq, decide_eq_false_iff_not]
  exact and_congr_right fun _ => ⟨fun h hg hn => h hn hg, fun h hn hg => h hg hn⟩

theorem mem_relist {q : Player} :
    q ∈ (relist guildName names g players).vals ↔
      (q ∈ players.vals ∧ (q.guildId = g → q.guildName ≠ guildName)) ∨
        ∃ w ∈ names, (∀ r ∈ players.vals, r.guildId = g → r.guildName ≠ guildName →
          r.username ≠ w) ∧ q = listRow guildName g w := by
  have hnew : ∀ w, w ∈ newPlayers (players.delete fun r =>
      r.guildName = guildName && r.guildId = g) g names ↔
        w ∈ names ∧ ∀ r ∈ players.vals, r.guildId = g → r.guildName ≠ guildName →
          r.username ≠ w := by
    intro w
    rw [mem_newPlayers]
    apply and_congr_right
    intro _
    constructor
    · intro h r hr hg hn
      exact h r (mem_kept.2 ⟨hr, fun _ => hn⟩) hg
    · intro h r hr hg
      exact h r (mem_kept.1 hr).1 hg ((mem_kept.1 hr).2 hg)
  rw [relist, Table.vals_insertAll, List.mem_append, mem_kept, List.mem_map]
  apply or_congr_right
  apply exists_congr
  intro w
  rw [hnew, and_assoc]
  exact and_congr_right fun _ => and_congr_right fun _ => eq_comm

end Lists

/-! ### The ledger -/

/-- The same balance, user and registration. -/
def SameAccount (r q : Player) : Prop :=
  q.balance = r.balance ∧ q.userId = r.userId ∧ q.registered = r.registered

instance (r q : Player) : Decidable (SameAccount r q) := inferInstanceAs (Decidable (_ ∧ _))

/-- Whoever was on the list and is on the new one still has its account in the guild. -/
def KeepsLedger (guildName : String) (names : List String) (g : ℤ) (t t' : Table Player) : Prop :=
  ∀ r ∈ t.vals, r.guildId = g → LOWER r.guildName = LOWER guildName → r.username ∈ names →
    ∃ q ∈ t'.vals, q.guildId = g ∧ q.username = r.username ∧ SameAccount r q

instance (guildName : String) (names : List String) (g : ℤ) (t t' : Table Player) :
    Decidable (KeepsLedger guildName names g t t') :=
  inferInstanceAs (Decidable (∀ r ∈ t.vals, r.guildId = g → LOWER r.guildName = LOWER guildName →
    r.username ∈ names → ∃ q ∈ t'.vals, q.guildId = g ∧ q.username = r.username ∧ SameAccount r q))

/-- The row of a list has an account that is written down a second time, under another list of
the guild, or it has no second row and nothing in it. -/
def Spared (guildName : String) (g : ℤ) (t : Table Player) (r : Player) : Prop :=
  (∃ q ∈ t.vals, q.guildId = g ∧ q.guildName ≠ guildName ∧ q.username = r.username ∧
    SameAccount r q) ∨
  ((∀ q ∈ t.vals, q.guildId = g → q.guildName ≠ guildName → q.username ≠ r.username) ∧
    r.balance = .fin 0 ∧ r.userId = none ∧ r.registered = false)

/-- An upload keeps the ledger exactly if each row that it deletes and brings back is spared. -/
theorem reupload_ledger (guildName : String) (names : List String) (g : ℤ) (b : Bot) :
    KeepsLedger guildName names g b.db.players
        (Sql.run [] (uploadGuildUsers guildName names g) b).2.db.players ↔
      ∀ r ∈ b.db.players.vals, r.guildId = g → r.guildName = guildName → r.username ∈ names →
        Spared guildName g b.db.players r := by
  rw [run_uploadGuildUsers]
  show KeepsLedger guildName names g b.db.players (relist guildName names g b.db.players) ↔ _
  constructor
  · intro h r hr hg hn hw
    obtain ⟨q, hq, hqg, hqw, hsame⟩ := h r hr hg (by rw [hn]) hw
    rcases mem_relist.1 hq with ⟨hold, hother⟩ | ⟨w, -, hno, rfl⟩
    · exact .inl ⟨q, hold, hqg, hother hqg, hqw, hsame⟩
    · obtain rfl : w = r.username := hqw
      exact .inr ⟨hno, hsame.1.symm, hsame.2.1.symm, hsame.2.2.symm⟩
  · intro h r hr hg _ hw
    by_cases hn : r.guildName = guildName
    · rcases h r hr hg hn hw with ⟨q, hq, hqg, hqn, hqw, hsame⟩ | ⟨hno, hbal, huser, hreg⟩
      · exact ⟨q, mem_relist.2 (.inl ⟨hq, fun _ => hqn⟩), hqg, hqw, hsame⟩
      · have hnew : listRow guildName g r.username ∈
            (relist guildName names g b.db.players).vals :=
          mem_relist.2 (.inr ⟨r.username, hw, hno, rfl⟩)
        exact ⟨_, hnew, rfl, rfl, hbal.symm, huser.symm, hreg.symm⟩
    · -- the row stands under another spelling and is not deleted
      exact ⟨r, mem_relist.2 (.inl ⟨hr, fun _ => hn⟩), hg, rfl, rfl, rfl, rfl⟩

/-- Alice is registered, has 100 and is on the list that is uploaded again. -/
theorem reupload_loses :
    let b := endState (opening [] ++ [does (.give "Alice" 100)])
    isGuildListExists b.db "Atom" 1 = true ∧
      ¬KeepsLedger "Atom" ["Alice"] 1 b.db.players
        (Sql.run [] (uploadGuildUsers "Atom" ["Alice"] 1) b).2.db.players := by
  decide +kernel

/-! ### An upload of nothing -/

/-- Of a text without players only the deletion is left, if its query and it do not throw. -/
theorem upload_nothing (guildName : String) (g : ℤ) (fs : List Bool) (b : Bot) :
    (Sql.run fs (uploadGuildUsers guildName [] g) b).2.db.players =
      if fs.headD false ∨ fs.tail.headD false then b.db.players
      else b.db.players.delete fun r => r.guildName = guildName && r.guildId = g := by
  have hwords : ∀ (t : Bot) (fs : List Bool), (Sql.run fs (addUsersToDatabase
      (uploadGuildList guildName · g) (batches [] [])) t).2.db.players = t.db.players := by
    intro t fs
    have hkeep : (addUsersToDatabase (uploadGuildList guildName · g) (batches [] [])).Within
        (fun s => s.db.players = t.db.players) fun _ _ => True := by
      refine within_addUsers (I := fun db => db.players = t.db.players)
        (fun batch hb => ?_) fun db h => h
      cases hb
    exact (hkeep.run (fun _ => trivial) (fun _ _ _ _ _ => trivial) fs rfl).1
  unfold uploadGuildUsers
  rw [Sql.bind_eq, read, Sql.run_faulty_query_bind]
  cases fs.headD false with
  | true => simp
  | false =>
    cases hex : isGuildListExists b.db guildName g with
    | false =>
      rw [delete_of_not_exists hex]
      simpa [when] using hwords b fs.tail
    | true =>
      rw [Sql.bind_eq]
      show (Sql.run fs.tail ((Sql.attempt (onDb fun db => some (removeGuildList guildName g db))).bind
        fun _ => addUsersToDatabase _ _) b).2.db.players = _
      rw [Sql.run_attempt_bind]
      cases fs.tail.headD false with
      | true => simp
      | false =>
        have hafter := hwords { b with db := removeGuildList guildName g b.db } fs.tail.tail
        simpa [onDb, removeGuildList] using hafter

/-- A text without players leaves the players as they were exactly if the guild has no list of
exactly that name, or a statement that looks for it or deletes it throws. -/
theorem bad_upload (isFile : Bool) (text guildName : String) (g : ℤ) (fs : List Bool) (b : Bot)
    (htext : GuildUploadHelper.parseText isFile text = []) :
    (Sql.run fs (uploadGuildUsers guildName (GuildUploadHelper.parseText isFile text) g)
        b).2.db.players = b.db.players ↔
      fs.headD false = true ∨ fs.tail.headD false = true ∨
        ∀ r ∈ b.db.players.vals, r.guildId = g → r.guildName ≠ guildName := by
  rw [htext, upload_nothing]
  split
  · rename_i hfault
    exact iff_of_true rfl (hfault.imp_right .inl)
  · rename_i hno
    rw [not_or] at hno
    rw [Table.delete_eq_self_iff]
    constructor
    · intro h
      refine .inr (.inr fun r hr hg hn => ?_)
      have hdel := h r hr
      simp [hg, hn] at hdel
    · intro h r hr
      have hother := (h.resolve_left hno.1).resolve_left hno.2 r hr
      by_cases hg : r.guildId = g
      · simp [hother hg]
      · simp [hg]

/-- An empty text under a name that the guild has no list of. -/
theorem bad_upload_newName :
    let b := endState (opening [])
    (Sql.run [] (uploadGuildUsers "Other" (GuildUploadHelper.parseText false "") 1) b).2.db.players =
        b.db.players ↔
      ([] : List Bool).headD false = true ∨ ([] : List Bool).tail.headD false = true ∨
        ∀ r ∈ b.db.players.vals, r.guildId = 1 → r.guildName ≠ "Other" :=
  bad_upload false "" "Other" 1 [] _ (by decide +kernel)

/-- A header and nothing else, under the name of the guild's list. -/
theorem bad_upload_deletes :
    let b := endState (opening [])
    GuildUploadHelper.parseText false "\"Character Name\"    \"Roles\"" = [] ∧
      (Sql.run [] (uploadGuildUsers "Atom"
        (GuildUploadHelper.parseText false "\"Character Name\"    \"Roles\"") 1) b).2.db.players ≠
        b.db.players := by
  decide +kernel

/-! ### The list after an upload -/

/-- The usernames under the name, in any spelling. -/
def listed (guildName : String) (g : ℤ) (t : Table Player) : List String :=
  (t.select fun r => r.guildId = g && LOWER r.guildName = LOWER guildName).map Player.username

/-- Those under another spelling of it. -/
def respelled (guildName : String) (g : ℤ) (t : Table Player) : List String :=
  (t.select fun r =>
    r.guildId = g && r.guildName ≠ guildName && LOWER r.guildName = LOWER guildName).map
      Player.username

section Replace
variable {players : Table Player} {guildName w : String} {names : List String} {g : ℤ}

theorem listed_relist : listed guildName g (relist guildName names g players) =
    respelled guildName g players ++ newPlayers
      (players.delete fun r => r.guildName = guildName && r.guildId = g) g names := by
  have hall : ((newPlayers (players.delete fun r => r.guildName = guildName && r.guildId = g) g
      names).map (listRow guildName g)).filter
        (fun r => r.guildId = g && LOWER r.guildName = LOWER guildName) =
      (newPlayers (players.delete fun r => r.guildName = guildName && r.guildId = g) g names).map
        (listRow guildName g) := by
    apply List.filter_eq_self.2
    intro r hr
    obtain ⟨w, -, rfl⟩ := List.mem_map.1 hr
    simp [listRow]
  have hkept : (players.vals.filter fun r => !(r.guildName = guildName && r.guildId = g)).filter
        (fun r => r.guildId = g && LOWER r.guildName = LOWER guildName) =
      players.select fun r =>
        r.guildId = g && r.guildName ≠ guildName && LOWER r.guildName = LOWER guildName := by
    rw [List.filter_filter, Table.select]
    apply List.filter_congr
    intro r _
    by_cases hg : r.guildId = g
    · simp [hg, Bool.and_comm]
    · simp [hg]
  rw [listed, respelled, Table.select, relist_vals, List.filter_append, hall, hkept,
    List.map_append, List.map_map]
  congr 1
  exact List.map_id _

theorem mem_respelled : w ∈ respelled guildName g players ↔
    ∃ r ∈ players.vals, r.guildId = g ∧ r.guildName ≠ guildName ∧
      LOWER r.guildName = LOWER guildName ∧ r.username = w := by
  simp [respelled, Table.select, and_assoc]

/-- The list then has each name once exactly if the rows in other spellings are distinct and
on the new list. -/
theorem listed_relist_iff (h : ∀ r ∈ players.vals, r.guildId = g → r.username ∈ names →
      LOWER r.guildName = LOWER guildName) :
    ((listed guildName g (relist guildName names g players)).Nodup ∧
        ∀ w, w ∈ listed guildName g (relist guildName names g players) ↔ w ∈ names) ↔
      (respelled guildName g players).Nodup ∧ ∀ w ∈ respelled guildName g players, w ∈ names := by
  set kept := players.delete fun r => r.guildName = guildName && r.guildId = g with hkept
  have hnew : (newPlayers kept g names).Nodup := Table.nodup_newKeys _ _ _ _
  have hdisj : ∀ w ∈ respelled guildName g players, w ∉ newPlayers kept g names := by
    intro w hw hw'
    obtain ⟨r, hr, hg, hn, -, rfl⟩ := mem_respelled.1 hw
    exact (mem_newPlayers.1 hw').2 r (mem_kept.2 ⟨hr, fun _ => hn⟩) hg rfl
  have hcover : ∀ w ∈ names, w ∈ respelled guildName g players ∨ w ∈ newPlayers kept g names := by
    intro w hw
    by_cases hex : ∃ r ∈ kept.vals, r.guildId = g ∧ r.username = w
    · obtain ⟨r, hr, hg, rfl⟩ := hex
      obtain ⟨hold, hother⟩ := mem_kept.1 hr
      exact .inl (mem_respelled.2 ⟨r, hold, hg, hother hg, h r hold hg hw, rfl⟩)
    · exact .inr (mem_newPlayers.2 ⟨hw, fun r hr hg hn => hex ⟨r, hr, hg, hn⟩⟩)
  rw [listed_relist, ← hkept, List.nodup_append]
  constructor
  · rintro ⟨⟨hnodup, -, -⟩, hmem⟩
    exact ⟨hnodup, fun w hw => (hmem w).1 (List.mem_append_left _ hw)⟩
  · rintro ⟨hnodup, hsub⟩
    refine ⟨⟨hnodup, hnew, fun a ha b hb he => hdisj a ha (he ▸ hb)⟩, fun w => ?_⟩
    rw [List.mem_append]
    constructor
    · rintro (hw | hw)
      · exact hsub w hw
      · exact (mem_newPlayers.1 hw).1
    · exact hcover w

end Replace

theorem upload_replaces (guildName : String) (names : List String) (g : ℤ) (b : Bot)
    (h : ∀ r ∈ b.db.players.vals, r.guildId = g → r.username ∈ names →
      LOWER r.guildName = LOWER guildName) :
    let after := (Sql.run [] (uploadGuildUsers guildName names g) b).2.db.players
    ((listed guildName g after).Nodup ∧ ∀ w, w ∈ listed guildName g after ↔ w ∈ names) ↔
      (respelled guildName g b.db.players).Nodup ∧
        ∀ w ∈ respelled guildName g b.db.players, w ∈ names := by
  rw [run_uploadGuildUsers]
  exact listed_relist_iff h

/-- Bob has left, Carol has come. -/
theorem upload_replaces_atom :
    let b := endState (opening ["Bob"])
    let after := (Sql.run [] (uploadGuildUsers "Atom" ["Alice", "Carol", "Alice"] 1) b).2.db.players
    ((listed "Atom" 1 after).Nodup ∧ ∀ w, w ∈ listed "Atom" 1 after ↔
        w ∈ ["Alice", "Carol", "Alice"]) ↔
      (respelled "Atom" 1 b.db.players).Nodup ∧
        ∀ w ∈ respelled "Atom" 1 b.db.players, w ∈ ["Alice", "Carol", "Alice"] :=
  upload_replaces "Atom" ["Alice", "Carol", "Alice"] 1 _ (by decide +kernel)

/-- The list was spelled in small letters before, and Bob stays on it. -/
theorem upload_leaves_respelled :
    let b := endState [does (.guildUpload "atom" (.text ["Alice", "Bob"]))]
    let after := (Sql.run [] (uploadGuildUsers "Atom" ["Alice"] 1) b).2.db.players
    (∀ r ∈ b.db.players.vals, r.guildId = 1 → r.username ∈ ["Alice"] →
        LOWER r.guildName = LOWER "Atom") ∧
      ¬((listed "Atom" 1 after).Nodup ∧ ∀ w, w ∈ listed "Atom" 1 after ↔ w ∈ ["Alice"]) := by
  refine ⟨by decide +kernel, fun h => ?_⟩
  have hbob : "Bob" ∈ ["Alice"] := (h.2 "Bob").1 (by decide +kernel)
  exact absurd hbob (by decide)

end AtomComm.LootSplit
