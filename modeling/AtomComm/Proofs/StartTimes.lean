import AtomComm.Sanity.Calendar
import AtomComm.Spec.GuildBot.System

/-! The times that `/cta start` stores. What is entered has no year, and each of the two dates
is read with the year of the clock, so that a window is stored as it was entered when it lies
in that year, and the year has four digits. -/

namespace AtomComm.GuildBot
open LocalDateTime

section Start
variable {g : ℤ} {id : String} {b : Bot} {now s e : LocalDateTime} {nanos : ℕ}

theorem convertToFullTimestamp_entered {t : LocalDateTime} {year : ℕ} (ht : t.Valid)
    (hsec : t.second = 0) : convertToFullTimestamp year t.entered =
      if 1000 ≤ year ∧ year ≤ 9999 then some (t.inYear year).format else none := by
  rw [convertToFullTimestamp, parseShort_entered ht hsec]
  split <;> rfl

theorem getInstantFromString_format {t : LocalDateTime} (ht : t.Valid) (hy : t.year ≤ 9999) :
    getInstantFromString t.format = some t.toInstant := by
  rw [getInstantFromString, parseFull_format ht hy]
  rfl

/-- What the command does to the database when it finds no active CTA. -/
theorem run_startCommand (hs : s.Valid) (hs0 : s.second = 0) (he : e.Valid) (he0 : e.second = 0)
    (year : ℕ) (t : ℤ) (hg : getCTAID b.db g = none) :
    ((startCommand g s.entered e.entered id ⟨year, year, t⟩).run [] b).2 =
      if 1000 ≤ year ∧ year ≤ 9999 ∧ (s.inYear year).toInstant ≤ (e.inYear year).toInstant ∧
          t ≤ (e.inYear year).toInstant then
        { b with
          db := createCTA id g (s.inYear year).toInstant (e.inYear year).toInstant b.db }
      else b := by
  unfold startCommand
  simp only [Sql.bind_eq, read, Sql.run_query_bind, hg, convertToFullTimestamp_entered hs hs0,
    convertToFullTimestamp_entered he he0]
  by_cases hy : 1000 ≤ year ∧ year ≤ 9999
  · have hread : ∀ {t : LocalDateTime}, t.Valid →
        getInstantFromString (t.inYear year).format = some (t.inYear year).toInstant :=
      fun ht => getInstantFromString_format (valid_inYear ht (by omega) (by omega)) hy.2
    simp only [hy.1, hy.2, and_self, true_and, if_true, validateTimeFormat, hread hs, hread he]
    by_cases hle : (s.inYear year).toInstant ≤ (e.inYear year).toInstant
    · rcases lt_or_ge (e.inYear year).toInstant t with hlt | hge
      · simp [hle, hlt]
      · simp [hle, hge, Int.not_lt.2 hge, write, toTimestamp, toInstant_floor]
    · simp [hle]
  · have hno : ∀ p : Prop, ¬(1000 ≤ year ∧ year ≤ 9999 ∧ p) := fun p h => hy ⟨h.1, h.2.1⟩
    simp only [if_neg hy, if_neg (hno _)]
    rfl

theorem createCTA_injective {s s' e e' : ℤ} {db : DB}
    (h : createCTA id g s e db = createCTA id g s' e' db) : s = s' ∧ e = e' := by
  have hrows := congrArg (fun db : DB => db.cta.rows) h
  simpa [createCTA] using hrows

theorem createCTA_ne {s e : ℤ} {db : DB} : createCTA id g s e db ≠ db := by
  intro h
  have hlen := congrArg (fun db : DB => db.cta.rows.length) h
  simp [createCTA] at hlen

/-- The clock shows `now` and some nanoseconds. A window that has not ended by then is stored
as it was entered if and only if it lies in the year of the clock and that year has four
digits. -/
theorem start_times_stored (hg : getCTAID b.db g = none) (hnow : now.Valid)
    (hs : s.Valid) (hs0 : s.second = 0) (he : e.Valid) (he0 : e.second = 0)
    (hse : s.toInstant ≤ e.toInstant) (hend : now.toInstant + nanos ≤ e.toInstant) :
    ((startCommand g s.entered e.entered id
        ⟨now.year, now.year, now.toInstant + nanos⟩).run [] b).2 =
        { b with db := createCTA id g s.toInstant e.toInstant b.db } ↔
      1000 ≤ now.year ∧ now.year ≤ 9999 ∧ s.year = now.year ∧ e.year = now.year := by
  rw [run_startCommand hs hs0 he he0 _ _ hg]
  constructor
  · intro h
    split at h
    · rename_i hstored
      obtain ⟨hstart, hstop⟩ := createCTA_injective (congrArg Bot.db h)
      have hin : ∀ {t : LocalDateTime}, t.Valid → (t.inYear now.year).Valid :=
        fun ht => valid_inYear ht hnow.1 hnow.2.1
      exact ⟨hstored.1, hstored.2.1, (year_eq_of_toInstant_eq (hin hs) hs hstart).symm,
        (year_eq_of_toInstant_eq (hin he) he hstop).symm⟩
    · exact absurd (congrArg Bot.db h).symm createCTA_ne
  · rintro ⟨hlow, hhigh, hsy, hey⟩
    have hss : s.inYear now.year = s := hsy ▸ inYear_self hs
    have hee : e.inYear now.year = e := hey ▸ inYear_self he
    rw [hss, hee, if_pos ⟨hlow, hhigh, hse, hend⟩]

/-- A night in February, up to midnight of the leap day. -/
theorem start_times_stored_leap :
    let now : LocalDateTime := ⟨2024, 2, 28, 20, 15, 7⟩
    let s : LocalDateTime := ⟨2024, 2, 28, 23, 30, 0⟩
    let e : LocalDateTime := ⟨2024, 2, 29, 0, 0, 0⟩
    ((startCommand 1 s.entered e.entered "CTA1"
        ⟨2024, 2024, now.toInstant + (5 : ℕ)⟩).run [] Bot.empty).2 =
      { Bot.empty with db := createCTA "CTA1" 1 s.toInstant e.toInstant Bot.empty.db } :=
  (@start_times_stored 1 "CTA1" Bot.empty ⟨2024, 2, 28, 20, 15, 7⟩ ⟨2024, 2, 28, 23, 30, 0⟩
    ⟨2024, 2, 29, 0, 0, 0⟩ 5 rfl (by decide) (by decide) rfl (by decide) rfl (by decide)
    (by decide)).2 (by decide)

/-- On New Year's Eve the end of the window is read as the first of January that has gone
by, before the start. -/
theorem start_over_new_year :
    let now : LocalDateTime := ⟨2024, 12, 31, 23, 0, 0⟩
    let s : LocalDateTime := ⟨2024, 12, 31, 23, 30, 0⟩
    let e : LocalDateTime := ⟨2025, 1, 1, 0, 30, 0⟩
    (s.Valid ∧ e.Valid ∧ now.toInstant ≤ s.toInstant ∧ s.toInstant ≤ e.toInstant ∧
        e.toInstant - now.toInstant ≤ 86400 * 1000000000) ∧
      s.entered = "12/31 23:30" ∧ e.entered = "01/01 00:30" ∧
      getCTAID Bot.empty.db 1 = none ∧
      (startCommand 1 s.entered e.entered "CTA1" ⟨2024, 2024, now.toInstant⟩).run [] Bot.empty =
        (.ok (sendErrorMessage "You need to provide a valid time in the format `MM/dd HH:mm`"),
          Bot.empty) := by
  decide +kernel

end Start

end AtomComm.GuildBot
