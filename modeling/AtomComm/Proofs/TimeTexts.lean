import AtomComm.Sanity.Calendar

/-! Instants and their texts. A printed instant is read back as its second; two instants have one
text exactly if they are in the same second, and every date is printed from its own instant. -/

namespace AtomComm.GuildBot

namespace LocalDateTime

/-! ### The years from March on -/

/-- The days before the first of March of the year. -/
def marchStart (year : ℤ) : ℤ := 365 * year + year / 4 - year / 100 + year / 400

theorem marchStart_sum {k i p s : ℤ} (hi : 0 ≤ i) (hi' : i ≤ 3) (hp : 0 ≤ p) (hp' : p ≤ 24)
    (hs : 0 ≤ s) (hs' : s ≤ 3) : marchStart (400 * k + 100 * i + 4 * p + s) =
      146097 * k + 36524 * i + 1461 * p + 365 * s := by
  unfold marchStart
  omega

/-- The estimate is not a year too early. -/
theorem lt_marchStart {day year : ℤ} (h : year = (400 * day + 591) / 146097) :
    day < marchStart (year + 1) := by
  obtain ⟨k, i, p, s, hyear, hi, hi', hp, hp', hs, hs'⟩ : ∃ k i p s : ℤ,
      year + 1 = 400 * k + 100 * i + 4 * p + s ∧ 0 ≤ i ∧ i ≤ 3 ∧ 0 ≤ p ∧ p ≤ 24 ∧ 0 ≤ s ∧ s ≤ 3 :=
    ⟨(year + 1) / 400, (year + 1) % 400 / 100, (year + 1) % 100 / 4, (year + 1) % 4, by omega,
      by omega, by omega, by omega, by omega, by omega, by omega⟩
  rw [hyear, marchStart_sum hi hi' hp hp' hs hs']
  omega

theorem isLeapYear_iff {year : ℕ} :
    isLeapYear year = true ↔ year % 4 = 0 ∧ (year % 100 ≠ 0 ∨ year % 400 = 0) := by
  simp [isLeapYear]

theorem marchStart_succ (year : ℕ) :
    marchStart (year + 1) = marchStart year + lengthOfYear (year + 1) := by
  simp only [marchStart, lengthOfYear, isLeapYear_iff]
  split <;> omega

/-- The year in which a day falls. -/
theorem exists_march {zeroDay : ℤ} (h : 306 ≤ zeroDay) :
    let estimate := (400 * zeroDay + 591) / 146097
    ∃ year : ℕ, (if zeroDay - marchStart estimate < 0 then estimate - 1 else estimate) = year ∧
      marchStart year ≤ zeroDay ∧ zeroDay < marchStart (year + 1) := by
  intro estimate
  have hnext : zeroDay < marchStart (estimate + 1) := lt_marchStart rfl
  have hback : -2 ≤ zeroDay - marchStart estimate := (estimate_bounds rfl).1
  have hpos : 0 ≤ estimate := by omega
  split
  · rename_i hneg
    have hfirst : 1 ≤ estimate := by
      by_contra hzero
      obtain hzero : estimate = 0 := by omega
      simp only [hzero, marchStart] at hneg
      omega
    obtain ⟨year, hyear⟩ := Int.eq_ofNat_of_zero_le (show 0 ≤ estimate - 1 by omega)
    have hstep := marchStart_succ year
    rw [← hyear, Int.sub_add_cancel] at hstep
    have hlong : 365 ≤ lengthOfYear (year + 1) := by
      unfold lengthOfYear
      split <;> decide
    refine ⟨year, hyear, ?_, ?_⟩
    · rw [← hyear]
      omega
    · rw [← hyear, Int.sub_add_cancel]
      omega
  · rename_i hneg
    obtain ⟨year, hyear⟩ := Int.eq_ofNat_of_zero_le hpos
    refine ⟨year, hyear, ?_, ?_⟩
    · rw [← hyear]
      omega
    · rwa [← hyear]

/-! ### The date of a day -/

/-- A day counted from the first of March. -/
def ofMarch (year day hour minute second : ℕ) : LocalDateTime :=
  let month := (day * 5 + 2) / 153
  ⟨year + month / 10, (month + 2) % 12 + 1, day - (month * 306 + 5) / 10 + 1, hour, minute, second⟩

section March
variable {year day : ℕ}

theorem yearStart_eq : yearStart year = marchStart year + if isLeapYear year then 0 else 1 := by
  simp only [yearStart, marchStart, isLeapYear_iff]
  split <;> omega

theorem yearStart_next : yearStart (year + 1) = marchStart year + 366 := by
  unfold yearStart marchStart
  omega

/-- January and February belong to the year after. -/
theorem ofMarch_date (h : (day : ℤ) < lengthOfYear (year + 1)) (hour minute second : ℕ) :
    let t := ofMarch year day hour minute second
    (1 ≤ t.month ∧ t.month ≤ 12) ∧ (1 ≤ t.day ∧ t.day ≤ lengthOfMonth t.year t.month) ∧
      t.epochDay = marchStart year + day + 60 - 719528 := by
  simp only [epochDay_eq, ofMarch]
  generalize hm : (day * 5 + 2) / 153 = m
  simp only [dayOfYear, lengthOfMonth, lengthOfYear] at h ⊢
  have hlast : m ≤ 11 := by
    split at h <;> omega
  interval_cases m
  all_goals
    simp only [Nat.reduceDiv, Nat.reduceAdd, Nat.reduceMod, Nat.reduceEqDiff, Nat.reduceLeDiff,
      Nat.zero_add, Nat.add_zero, Nat.zero_div, Nat.cast_ofNat, Nat.cast_one, List.mem_cons,
      List.not_mem_nil, or_true, or_false, true_and, if_true, if_false]
  case «10» | «11» =>
    rw [yearStart_next]
    split_ifs at h ⊢ <;> omega
  all_goals
    rw [yearStart_eq]
    split_ifs at h ⊢ <;> omega

end March

/-! ### Instants -/

section Instants
variable {instant : ℤ} {s t : LocalDateTime}

/-- The seconds of the day of an instant. -/
def secondOfDay (instant : ℤ) : ℕ := (instant / 1000000000 % 86400).toNat

/-- The day of the instant, counted from the first of March of the year 0. -/
def marchDay (instant : ℤ) : ℤ := instant / 1000000000 / 86400 + 719528 - 60

theorem ofInstant_eq (h : Stored instant) : ∃ year day : ℕ, (day : ℤ) < lengthOfYear (year + 1) ∧
    marchStart year + day = marchDay instant ∧
    ofInstant instant = ofMarch year day (secondOfDay instant / 3600)
      (secondOfDay instant % 3600 / 60) (secondOfDay instant % 60) := by
  have hfirst : -62135596800000000000 ≤ instant := h.1
  obtain ⟨year, hyear, hlow, hhigh⟩ := exists_march
    (show 306 ≤ marchDay instant by unfold marchDay; omega)
  obtain ⟨day, hday⟩ := Int.eq_ofNat_of_zero_le (Int.sub_nonneg_of_le hlow)
  refine ⟨year, day, ?_, ?_, ?_⟩
  · rw [marchStart_succ] at hhigh
    omega
  · omega
  · have hdate : ofInstant instant =
        let year := if marchDay instant - marchStart ((400 * marchDay instant + 591) / 146097) < 0
          then (400 * marchDay instant + 591) / 146097 - 1
          else (400 * marchDay instant + 591) / 146097
        let day := marchDay instant - marchStart year
        let month := (day * 5 + 2) / 153
        ⟨(year + month / 10).toNat, ((month + 2) % 12 + 1).toNat,
          (day - (month * 306 + 5) / 10 + 1).toNat, secondOfDay instant / 3600,
          secondOfDay instant % 3600 / 60, secondOfDay instant % 60⟩ := rfl
    have hmonth : ((day : ℤ) * 5 + 2) / 153 = ((day * 5 + 2) / 153 : ℕ) := by omega
    rw [hdate, hyear]
    simp only [hday, hmonth, ofMarch, mk.injEq, and_true]
    omega

theorem valid_ofInstant (h : Stored instant) : (ofInstant instant).Valid := by
  obtain ⟨⟨hy, hy'⟩, hm, -, hh, hmin, hs⟩ := ofInstant_bounds h
  obtain ⟨year, day, hday, -, heq⟩ := ofInstant_eq h
  obtain ⟨-, hdate, -⟩ := ofMarch_date hday (secondOfDay instant / 3600)
    (secondOfDay instant % 3600 / 60) (secondOfDay instant % 60)
  rw [← heq] at hdate
  exact ⟨hy, hy', hm.1, hm.2, hdate.1, hdate.2, hh, hmin, hs⟩

theorem toInstant_ofInstant (h : Stored instant) :
    (ofInstant instant).toInstant = instant / 1000000000 * 1000000000 := by
  obtain ⟨year, day, hday, hsum, heq⟩ := ofInstant_eq h
  obtain ⟨-, -, hepoch⟩ := ofMarch_date hday (secondOfDay instant / 3600)
    (secondOfDay instant % 3600 / 60) (secondOfDay instant % 60)
  rw [toInstant, heq, hepoch, hsum]
  simp only [ofMarch, marchDay, secondOfDay]
  omega

theorem dayOfYear_lt (hs : s.Valid) (ht : t.Valid) (hyear : s.year = t.year)
    (h : s.month < t.month) : s.dayOfYear < t.dayOfYear := by
  obtain ⟨-, -, hm, hm', -, hd, -⟩ := hs
  obtain ⟨-, -, -, hlast, hfirst, -⟩ := ht
  simp only [dayOfYear, hyear] at hd ⊢
  generalize s.month = m at *
  interval_cases m <;> simp [lengthOfMonth] at hd ⊢ <;> split_ifs at * <;> omega

/-- The fields of a date are those of its instant. -/
theorem toInstant_inj (hs : s.Valid) (ht : t.Valid) : s.toInstant = t.toInstant ↔ s = t := by
  refine ⟨fun h => ?_, congrArg _⟩
  have hyear := year_eq_of_toInstant_eq hs ht h
  have hdays : s.dayOfYear = t.dayOfYear ∧ s.hour = t.hour ∧ s.minute = t.minute ∧
      s.second = t.second := by
    obtain ⟨-, -, -, -, -, -, hh, hm, hsec⟩ := hs
    obtain ⟨-, -, -, -, -, -, hh', hm', hsec'⟩ := ht
    simp only [toInstant, epochDay_eq, hyear] at h
    omega
  have hmonth : s.month = t.month := by
    rcases lt_trichotomy s.month t.month with hlt | heq | hgt
    · exact absurd hdays.1 (dayOfYear_lt hs ht hyear hlt).ne
    · exact heq
    · exact absurd hdays.1 (dayOfYear_lt ht hs hyear.symm hgt).ne'
  have hday : s.day = t.day := by
    have hsame := hdays.1
    simp only [dayOfYear, hyear, hmonth] at hsame
    omega
  cases s
  cases t
  simp_all

theorem parseFull_valid (ht : t.Valid) : parseFull t.format = some t := by
  obtain ⟨hm, hd, hh, hmi, hs⟩ := ht.two_digits
  rw [parseFull_format_eq hm hd hh hmi hs (ht.2.1.trans_lt (by decide)), resolve_self ht]

/-- What is printed is read back up to its second. -/
theorem getInstantFromString_printed (h : Stored instant) :
    getInstantFromString (getStringFromInstant instant) =
      some (instant / 1000000000 * 1000000000) := by
  rw [getInstantFromString, getStringFromInstant, parseFull_valid (valid_ofInstant h),
    Option.map_some, toInstant_ofInstant h]

theorem format_inj (hs : s.Valid) (ht : t.Valid) : s.format = t.format ↔ s = t := by
  refine ⟨fun h => ?_, congrArg _⟩
  have hread := parseFull_valid hs
  rw [h, parseFull_valid ht] at hread
  exact (Option.some.inj hread).symm

end Instants

end LocalDateTime

open LocalDateTime

/-- An instant is printed as the one valid date of its second, from which the second is read
back: no two seconds have one text. -/
theorem printed_time_read {instant other : ℤ} (h : Stored instant) (hother : Stored other) :
    getInstantFromString (getStringFromInstant instant) =
        some (instant / 1000000000 * 1000000000) ∧
      (getStringFromInstant instant = getStringFromInstant other ↔
        instant / 1000000000 = other / 1000000000) ∧
      ∀ t : LocalDateTime, t.Valid → (getStringFromInstant instant = t.format ↔
        instant / 1000000000 * 1000000000 = t.toInstant) := by
  have hvalid := valid_ofInstant h
  refine ⟨getInstantFromString_printed h, ?_, fun t ht => ?_⟩
  · rw [getStringFromInstant, getStringFromInstant, format_inj hvalid (valid_ofInstant hother),
      ← toInstant_inj hvalid (valid_ofInstant hother), toInstant_ofInstant h,
      toInstant_ofInstant hother]
    omega
  · rw [getStringFromInstant, format_inj hvalid ht, ← toInstant_inj hvalid ht,
      toInstant_ofInstant h]

/-- The last nanosecond of a leap day and the first of the day after. -/
theorem printed_time_read_leap :
    let instant := 1709251199999999999
    let other := 1709251200000000000
    getInstantFromString (getStringFromInstant instant) =
        some (instant / 1000000000 * 1000000000) ∧
      (getStringFromInstant instant = getStringFromInstant other ↔
        instant / 1000000000 = other / 1000000000) ∧
      ∀ t : LocalDateTime, t.Valid → (getStringFromInstant instant = t.format ↔
        instant / 1000000000 * 1000000000 = t.toInstant) :=
  printed_time_read (by decide +kernel) (by decide +kernel)

end AtomComm.GuildBot
