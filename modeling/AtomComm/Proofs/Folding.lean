import AtomComm.Spec.GuildBot.Commands
import AtomComm.Spec.LootSplit.Database

/-! Names looked up by their lower case. SQLite folds the column and Java the argument, so a
name that is stored is found by itself exactly if both fold it to the same text; the queries
for a guild's name, which let SQLite fold both sides, do not have this condition. -/

namespace AtomComm

/-- `toLowerCase` of text in Latin-1, whose capitals are the ASCII ones and those from U+00C0
to U+00DE, the multiplication sign apart. -/
def toLowerLatin1 (s : String) : String :=
  String.ofList (s.toList.map fun c =>
    if 0xC0 ≤ c.toNat ∧ c.toNat ≤ 0xDE ∧ c.toNat ≠ 0xD7 then Char.ofNat (c.toNat + 32)
    else c.toLower)

def Runtime.latin1 : Runtime := { Runtime.ascii with toLowerCase := toLowerLatin1 }

namespace LootSplit
variable {rt : Runtime} {w : String}

theorem exists_of_folds (h : rt.toLowerCase w = LOWER w) {db : DB}
    (hw : ∃ r ∈ db.players.vals, r.username = w) : isUserExists rt db w = true := by
  obtain ⟨r, hr, hname⟩ := hw
  apply decide_eq_true
  rw [Table.count_pos]
  refine ⟨r, hr, decide_eq_true ?_⟩
  rw [hname, h]

/-- The name of the only player is found only if it folds alike. -/
theorem folds_of_exists (h : isUserExists rt (addGuildUser 1 w DB.empty) w = true) :
    rt.toLowerCase w = LOWER w := by
  obtain ⟨r, hr, hfold⟩ := Table.count_pos.1 (of_decide_eq_true h)
  have hrow : r = ⟨none, w, .fin 0, "N/A", false, 1⟩ := by
    simpa [addGuildUser, DB.empty] using hr
  rw [← of_decide_eq_true hfold, hrow]

theorem exists_iff_folds :
    (∀ db : DB, (∃ r ∈ db.players.vals, r.username = w) → isUserExists rt db w = true) ↔
      rt.toLowerCase w = LOWER w := by
  refine ⟨fun h => folds_of_exists (h _ ?_), fun h db => exists_of_folds h⟩
  exact ⟨⟨none, w, .fin 0, "N/A", false, 1⟩, by simp [addGuildUser], rfl⟩

end LootSplit

namespace GuildBot
variable {env : Env} {w ctaId : String} {g n : ℤ}

def Env.latin1 : Env := { Runtime.latin1 with toLowerCaseROOT := toLowerLatin1 }

/-- Adding the member of a row to a party by name updates the row, and removing the member
resets it. -/
def AddedAndRemoved (env : Env) (g : ℤ) (ctaId : String) (n : ℤ) (b : Bot) (r : Row Member) :
    Prop :=
  let added := ((addPlayerToParty env r.val.charName g ctaId (some n) .present).run [] b).2.db
  added.users.Holds r.id (· = { r.val with status := .present, partyNumber := some n }) ∧
    (removePlayerFromParty env r.val.charName g ctaId n added).users.Holds r.id
      (· = { r.val with status := .absent, partyNumber := none })

theorem holds_setParty {db : DB} {r : Row Member} {p : Option ℤ} {s : Status}
    (hr : r ∈ db.users.rows) (hcta : r.val.inCTA g ctaId = true)
    (h : env.toLowerCase r.val.charName = LOWER r.val.charName) :
    (setParty env r.val.charName g ctaId p s db).users.Holds r.id
      (· = { r.val with status := s, partyNumber := p }) := by
  apply Table.holds_update_of_mem hr
  rw [h, hcta, decide_eq_true rfl, Bool.and_self]

theorem added_of_folds (h : env.toLowerCase w = LOWER w) (hroot : env.toLowerCaseROOT w = LOWER w)
    {b : Bot} {r : Row Member} (hr : r ∈ b.db.users.rows) (hw : r.val.charName = w)
    (hcta : r.val.inCTA g ctaId = true) : AddedAndRemoved env g ctaId n b r := by
  subst hw
  have hadded := holds_setParty (p := some n) (s := .present) hr hcta h
  refine ⟨hadded, ?_⟩
  obtain ⟨q, hq, hid, hval⟩ := hadded
  have hremoved : (removePlayerFromParty env r.val.charName g ctaId n
      (setParty env r.val.charName g ctaId (some n) .present b.db)).users.Holds q.id
      (· = { q.val with status := .absent, partyNumber := none }) := by
    apply Table.holds_update_of_mem hq
    have hq' : q.val.inCTA g ctaId = true := by rw [hval]; exact hcta
    rw [hq', hval, hroot]
    simp
  rw [hid, hval] at hremoved
  exact hremoved

/-- A row that is absent shows both changes. -/
theorem folds_of_added {b : Bot} {r : Row Member} (hr : r ∈ b.db.users.rows)
    (habs : r.val.status = .absent) (h : AddedAndRemoved env g ctaId n b r) :
    env.toLowerCase r.val.charName = LOWER r.val.charName ∧
      env.toLowerCaseROOT r.val.charName = LOWER r.val.charName := by
  obtain ⟨hadded, hremoved⟩ := h
  have hne : r.val ≠ { r.val with status := .present, partyNumber := some n } := by
    intro heq
    rw [heq] at habs
    cases habs
  have hsel := Table.selected_of_changed hr hadded hne
  obtain ⟨q, hq, hid, hval⟩ := hadded
  rw [← hid] at hremoved
  have hne' : q.val ≠ { r.val with status := .absent, partyNumber := none } := by
    rw [hval]
    intro heq
    cases congrArg Member.status heq
  have hsel' := Table.selected_of_changed hq hremoved hne'
  simp only [hval, Bool.and_eq_true, decide_eq_true_eq] at hsel hsel'
  exact ⟨hsel.1.symm, hsel'.1.1.symm⟩

/-- The only row of the CTA, before it has a party. -/
def lone (g : ℤ) (ctaId w : String) : Bot := ⟨insertUser g ctaId .absent w 0 DB.empty, []⟩

theorem lone_rows :
    ⟨1, ⟨w, ctaId, 0, g, .absent, none⟩⟩ ∈ (lone g ctaId w).db.users.rows :=
  List.mem_singleton.2 rfl

theorem added_iff_folds :
    (∀ b : Bot, ∀ r ∈ b.db.users.rows, r.val.charName = w → r.val.inCTA g ctaId = true →
        AddedAndRemoved env g ctaId n b r) ↔
      env.toLowerCase w = LOWER w ∧ env.toLowerCaseROOT w = LOWER w := by
  constructor
  · intro h
    have hadded := h (lone g ctaId w) _ lone_rows rfl (by simp [Member.inCTA])
    exact folds_of_added lone_rows rfl hadded
  · rintro ⟨h, hroot⟩ b r hr hw hcta
    exact added_of_folds h hroot hr hw hcta

end GuildBot

/-- Whatever else is stored, a name that is stored is found by itself, and can be added to a
party and removed again, exactly if Java folds it as SQLite does. -/
theorem stored_name_found_iff (rt : Runtime) (env : GuildBot.Env) (w ctaId : String) (g n : ℤ) :
    ((∀ db : LootSplit.DB, (∃ r ∈ db.players.vals, r.username = w) →
        LootSplit.isUserExists rt db w = true) ↔ rt.toLowerCase w = LOWER w) ∧
      ((∀ b : GuildBot.Bot, ∀ r ∈ b.db.users.rows, r.val.charName = w →
          r.val.inCTA g ctaId = true → GuildBot.AddedAndRemoved env g ctaId n b r) ↔
        env.toLowerCase w = LOWER w ∧ env.toLowerCaseROOT w = LOWER w) :=
  ⟨LootSplit.exists_iff_folds, GuildBot.added_iff_folds⟩

/-- An accent is enough: `toLowerCase` folds it and `LOWER` leaves it. -/
theorem accented_name_not_found :
    (LootSplit.addGuildUser 1 "ÉVA" .empty).players.any (fun r => r.username = "ÉVA") = true ∧
      LootSplit.isUserExists Runtime.latin1 (LootSplit.addGuildUser 1 "ÉVA" .empty) "ÉVA" = false ∧
      (GuildBot.setParty GuildBot.Env.latin1 "ÉVA" 1 "CTA1" (some 7) .present
        (GuildBot.lone 1 "CTA1" "ÉVA").db) = (GuildBot.lone 1 "CTA1" "ÉVA").db ∧
      ¬GuildBot.AddedAndRemoved GuildBot.Env.latin1 1 "CTA1" 7 (GuildBot.lone 1 "CTA1" "ÉVA")
        ⟨1, ⟨"ÉVA", "CTA1", 0, 1, .absent, none⟩⟩ := by
  refine ⟨by decide, by decide, by decide, fun h => ?_⟩
  have hfold := (GuildBot.folds_of_added GuildBot.lone_rows rfl h).1
  revert hfold
  decide

end AtomComm
