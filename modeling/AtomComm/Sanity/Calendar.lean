import AtomComm.Spec.GuildBot.Time
import Mathlib.Order.Monotone.Basic
import Mathlib.Tactic.IntervalCases

/-! Dates and their texts. A valid date is read back from what is printed of it, and dates of
different years are different instants. -/

namespace AtomComm.GuildBot

/-! ### Numbers of fixed width -/

section Digits
variable {w n : ℕ} {c : Char} {ds cs : List Char}

theorem number_eq (ds : List Char) : number ds = Nat.ofDigitChars 10 ds 0 := by
  unfold number
  rw [Nat.ofDigitChars_eq_foldl]
  congr 1
  funext m c
  omega

theorem toList_pushn (s : String) (c : Char) (n : ℕ) :
    (s.pushn c n).toList = s.toList ++ List.replicate n c := by
  rw [String.pushn_eq_repeat_push]
  induction n with
  | zero => simp [Nat.repeat]
  | succ n ih => simp [Nat.repeat, ih, List.replicate_succ']

theorem toList_pad : (LocalDateTime.pad w n).toList =
    List.replicate (w - (Nat.toDigits 10 n).length) '0' ++ Nat.toDigits 10 n := by
  have hlen : n.repr.length = (Nat.toDigits 10 n).length := by
    rw [← String.length_toList, Nat.toList_repr]
  simp [LocalDateTime.pad, toList_pushn, hlen]

theorem length_pad (hw : 0 < w) (hn : n < 10 ^ w) :
    (LocalDateTime.pad w n).toList.length = w := by
  have hlen := (Nat.length_toDigits_le_iff (b := 10) (by decide) hw).2 hn
  rw [toList_pad, List.length_append, List.length_replicate]
  omega

theorem isDigit_pad (h : c ∈ (LocalDateTime.pad w n).toList) : c.isDigit = true := by
  rw [toList_pad, List.mem_append] at h
  rcases h with h | h
  · rw [List.eq_of_mem_replicate h]
    rfl
  · exact Nat.isDigit_of_mem_toDigits (by decide) (by decide) h

theorem number_pad : number (LocalDateTime.pad w n).toList = n := by
  rw [number_eq, toList_pad, Nat.ofDigitChars_append, Nat.ofDigitChars_replicate_zero,
    Nat.mul_zero, Nat.ofDigitChars_ten_toDigits]

theorem digits_append (hlen : ds.length = w) (hds : ∀ c ∈ ds, c.isDigit = true) :
    digits w (ds ++ cs) = some (number ds, cs) := by
  subst hlen
  simp only [digits, List.take_left', List.drop_left']
  rw [if_pos ⟨trivial, List.all_eq_true.2 hds⟩]

theorem digits_pad (hw : 0 < w) (hn : n < 10 ^ w) :
    digits w ((LocalDateTime.pad w n).toList ++ cs) = some (n, cs) := by
  rw [digits_append (length_pad hw hn) fun _ => isDigit_pad, number_pad]

theorem literal_cons : literal c (c :: cs) = some cs := by
  simp [literal]

/-- Without a sign the year has four digits. -/
theorem yearDigits_of_isDigit (hne : ds ≠ []) (hds : ∀ c ∈ ds, c.isDigit = true) :
    yearDigits (ds ++ cs) = digits 4 (ds ++ cs) := by
  obtain ⟨d, ds, rfl⟩ := List.exists_cons_of_ne_nil hne
  rw [List.cons_append, yearDigits]
  rintro t ht
  have hd := hds d List.mem_cons_self
  rw [(List.cons.inj ht).1] at hd
  exact absurd hd (by decide)

theorem yearDigits_pad (hn : n < 10 ^ 4) :
    yearDigits ((LocalDateTime.pad 4 n).toList ++ cs) = some (n, cs) := by
  have hne : (LocalDateTime.pad 4 n).toList ≠ [] := by
    have hlen := length_pad (by decide) hn
    intro h
    simp [h] at hlen
  rw [yearDigits_of_isDigit hne fun _ => isDigit_pad, digits_pad (by decide) hn]

/-- With a sign it has more, and what is no digit ends it. -/
theorem yearDigits_plus (hn : 10 ^ 4 ≤ n) (hmax : n < 10 ^ 19) (hc : c.isDigit = false) :
    yearDigits ('+' :: ((LocalDateTime.pad 4 n).toList ++ c :: cs)) = some (n, c :: cs) := by
  have h4 := Nat.length_toDigits_le_iff (b := 10) (n := n) (k := 4) (by decide) (by decide)
  have h19 := Nat.length_toDigits_le_iff (b := 10) (n := n) (k := 19) (by decide) (by decide)
  have hlen : (LocalDateTime.pad 4 n).toList.length = (Nat.toDigits 10 n).length := by
    rw [toList_pad, List.length_append, List.length_replicate]
    omega
  have htake : ((LocalDateTime.pad 4 n).toList ++ c :: cs).takeWhile Char.isDigit =
      (LocalDateTime.pad 4 n).toList := by
    rw [List.takeWhile_append_of_pos fun _ => isDigit_pad, List.takeWhile_cons, hc]
    simp
  rw [yearDigits]
  simp only [htake, List.drop_left, number_pad]
  rw [if_pos ⟨by omega, by omega⟩]

/-- The year as `Year.getValue` prints it is read back when it has four digits. -/
theorem yearDigits_toDigits :
    (yearDigits (Nat.toDigits 10 n) >>= fun p => if p.2 = [] then some p.1 else none) =
      if 1000 ≤ n ∧ n ≤ 9999 then some n else none := by
  have hds : ∀ c ∈ Nat.toDigits 10 n, c.isDigit = true :=
    fun c h => Nat.isDigit_of_mem_toDigits (by decide) (by decide) h
  have h3 := Nat.length_toDigits_le_iff (b := 10) (n := n) (k := 3) (by decide) (by decide)
  have h4 := Nat.length_toDigits_le_iff (b := 10) (n := n) (k := 4) (by decide) (by decide)
  have hyear := @yearDigits_of_isDigit _ [] Nat.toDigits_ne_nil hds
  rw [List.append_nil] at hyear
  rw [hyear]
  split
  · rename_i hn
    have hlen : (Nat.toDigits 10 n).length = 4 := by omega
    have hread := @digits_append _ _ [] hlen hds
    rw [List.append_nil] at hread
    simp [hread, number_eq]
  · rename_i hn
    by_cases hshort : n < 1000
    · have hlen := h3.2 hshort
      have hread : digits 4 (Nat.toDigits 10 n) = none := by
        rw [digits, if_neg fun h => ?_]
        have htake := h.1
        rw [List.length_take] at htake
        omega
      rw [hread]
      rfl
    · have hrest : (Nat.toDigits 10 n).drop 4 ≠ [] := by
        rw [Ne, List.drop_eq_nil_iff]
        omega
      have htake : ((Nat.toDigits 10 n).take 4).length = 4 := by
        rw [List.length_take]
        omega
      have hread := @digits_append _ _ ((Nat.toDigits 10 n).drop 4) htake
        fun c hc => hds c (List.mem_of_mem_take hc)
      rw [List.take_append_drop] at hread
      rw [hread]
      exact if_neg hrest

end Digits

/-! ### Valid dates -/

namespace LocalDateTime

def Valid (t : LocalDateTime) : Prop :=
  1 ≤ t.year ∧ t.year ≤ 999999999 ∧ 1 ≤ t.month ∧ t.month ≤ 12 ∧ 1 ≤ t.day ∧
    t.day ≤ lengthOfMonth t.year t.month ∧ t.hour ≤ 23 ∧ t.minute ≤ 59 ∧ t.second ≤ 59

instance (t : LocalDateTime) : Decidable t.Valid := inferInstanceAs (Decidable (_ ∧ _))

/-- The same month, day and time in the given year, the 29th of February moved to the 28th
where the year has none. -/
def inYear (year : ℕ) (t : LocalDateTime) : LocalDateTime :=
  { t with year, day := min t.day (lengthOfMonth year t.month) }

section
variable {s t : LocalDateTime} {year month : ℕ}

theorem lengthOfMonth_le : lengthOfMonth year month ≤ 31 := by
  unfold lengthOfMonth
  split_ifs <;> decide

theorem lengthOfMonth_pos : 1 ≤ lengthOfMonth year month := by
  unfold lengthOfMonth
  split_ifs <;> decide

theorem resolve_eq_inYear (ht : t.Valid) (hy : 1 ≤ year) (hmax : year ≤ 999999999) :
    resolve { t with year } = some (t.inYear year) := by
  obtain ⟨-, -, hm, hm', hd, hd', hh, hmin, hs⟩ := ht
  have hlen := @lengthOfMonth_le t.year t.month
  rw [resolve, if_pos ⟨hy, hmax, hm, hm', hd, by simp only; omega, hmin⟩]
  simp only
  rw [if_neg (by omega), if_pos ⟨hh, hs⟩]
  rfl

theorem inYear_self (ht : t.Valid) : t.inYear t.year = t := by
  obtain ⟨-, -, -, -, -, hd, -⟩ := ht
  rw [inYear, Nat.min_eq_left hd]

theorem valid_inYear (ht : t.Valid) (hy : 1 ≤ year) (hmax : year ≤ 999999999) :
    (t.inYear year).Valid := by
  obtain ⟨-, -, hm, hm', hd, -, hrest⟩ := ht
  exact ⟨hy, hmax, hm, hm', le_min hd lengthOfMonth_pos, min_le_right _ _, hrest⟩

theorem resolve_self (ht : t.Valid) : resolve t = some t := by
  rw [resolve_eq_inYear ht ht.1 ht.2.1, inYear_self ht]

/-! ### Days -/

/-- The days before the year. -/
def yearStart (year : ℕ) : ℤ :=
  365 * year + ((year + 3) / 4 - (year + 99) / 100 + (year + 399) / 400)

def dayOfYear (t : LocalDateTime) : ℤ :=
  (367 * t.month - 362) / 12 -
    (if t.month ≤ 2 then 0 else if isLeapYear t.year then 1 else 2) + (t.day - 1)

theorem epochDay_eq (t : LocalDateTime) : t.epochDay = yearStart t.year + t.dayOfYear - 719528 := by
  simp only [epochDay, yearStart, dayOfYear]
  omega

def lengthOfYear (year : ℕ) : ℤ := if isLeapYear year then 366 else 365

theorem yearStart_succ (year : ℕ) : yearStart (year + 1) = yearStart year + lengthOfYear year := by
  simp only [yearStart, lengthOfYear, isLeapYear, Bool.and_eq_true, decide_eq_true_eq,
    Bool.or_eq_true]
  split <;> omega

theorem dayOfYear_bounds (ht : t.Valid) :
    0 ≤ t.dayOfYear ∧ t.dayOfYear < lengthOfYear t.year := by
  obtain ⟨-, -, hm, hm', hd, hd', -⟩ := ht
  simp only [dayOfYear, lengthOfYear]
  generalize t.month = m at *
  interval_cases m <;> simp [lengthOfMonth] at hd' ⊢ <;> split_ifs at * <;> omega

theorem epochDay_lt (hs : s.Valid) (ht : t.Valid) (h : s.year < t.year) :
    s.epochDay < t.epochDay := by
  have hmono : Monotone yearStart := monotone_nat_of_le_succ fun n => by
    rw [yearStart_succ, lengthOfYear]
    split <;> omega
  have hnext := hmono (show s.year + 1 ≤ t.year from h)
  have hstart := yearStart_succ s.year
  have hlast := dayOfYear_bounds hs
  have hfirst := dayOfYear_bounds ht
  rw [epochDay_eq, epochDay_eq]
  omega

theorem toInstant_lt (hs : s.Valid) (ht : t.Valid) (h : s.year < t.year) :
    s.toInstant < t.toInstant := by
  have hday := epochDay_lt hs ht h
  obtain ⟨-, -, -, -, -, -, hh, hm, hsec⟩ := hs
  unfold toInstant
  omega

/-- Dates that are the same instant are of the same year. -/
theorem year_eq_of_toInstant_eq (hs : s.Valid) (ht : t.Valid) (h : s.toInstant = t.toInstant) :
    s.year = t.year := by
  rcases lt_trichotomy s.year t.year with hlt | heq | hgt
  · exact absurd h (toInstant_lt hs ht hlt).ne
  · exact heq
  · exact absurd h (toInstant_lt ht hs hgt).ne'

theorem toInstant_floor (t : LocalDateTime) : t.toInstant / 1000000 * 1000000 = t.toInstant := by
  unfold toInstant
  omega

end

/-! ### What is printed is read back -/

/-- `MM/dd HH:mm`, as a date is given to `/cta start`. -/
def entered (t : LocalDateTime) : String :=
  pad 2 t.month ++ "/" ++ pad 2 t.day ++ " " ++ pad 2 t.hour ++ ":" ++ pad 2 t.minute

section Texts
variable {t : LocalDateTime} {year : ℕ}

theorem Valid.two_digits (ht : t.Valid) : t.month < 10 ^ 2 ∧ t.day < 10 ^ 2 ∧ t.hour < 10 ^ 2 ∧
    t.minute < 10 ^ 2 ∧ t.second < 10 ^ 2 := by
  have hlen := @lengthOfMonth_le t.year t.month
  obtain ⟨-, -, -, hm, -, hd, hh, hmi, hs⟩ := ht
  omega

theorem parseShort_entered (ht : t.Valid) (hsec : t.second = 0) :
    parseShort (t.entered ++ " " ++ toString year) =
      if 1000 ≤ year ∧ year ≤ 9999 then some (t.inYear year) else none := by
  obtain ⟨hm, hd, hh, hmi, -⟩ := ht.two_digits
  have htext : (t.entered ++ " " ++ toString year).toList =
      (pad 2 t.month).toList ++ '/' :: ((pad 2 t.day).toList ++ ' ' :: ((pad 2 t.hour).toList ++
        ':' :: ((pad 2 t.minute).toList ++ ' ' :: Nat.toDigits 10 year))) := by
    simp [entered]
  rw [parseShort, htext, digits_pad two_pos hm]
  simp only [Option.bind_eq_bind, Option.bind_some, literal_cons, digits_pad two_pos hd,
    digits_pad two_pos hh, digits_pad two_pos hmi]
  -- the year is read to the end of the text, and then the rest is resolved with it
  calc _ = (yearDigits (Nat.toDigits 10 year) >>= fun p => if p.2 = [] then some p.1 else none).bind
        fun y => resolve { t with year := y } := by
        rw [Option.bind_eq_bind, Option.bind_assoc]
        refine Option.bind_congr fun p _ => ?_
        have hp : ({ t with year := p.1 } : LocalDateTime) =
            ⟨p.1, t.month, t.day, t.hour, t.minute, 0⟩ := by
          simp only [hsec]
        split
        · rw [Option.bind_some, hp]
        · rfl
    _ = _ := by
        rw [yearDigits_toDigits]
        split
        · exact resolve_eq_inYear ht (by omega) (by omega)
        · rfl

/-- What is printed is read, and then resolved. -/
theorem parseFull_format_eq (hmonth : t.month < 10 ^ 2) (hday : t.day < 10 ^ 2)
    (hhour : t.hour < 10 ^ 2) (hminute : t.minute < 10 ^ 2) (hsecond : t.second < 10 ^ 2)
    (hyear : t.year < 10 ^ 19) : parseFull t.format = resolve t := by
  have htext : t.format.toList =
      (pad 2 t.month).toList ++ '/' :: ((pad 2 t.day).toList ++ '/' ::
        ((if 9999 < t.year then "+" else "").toList ++ ((pad 4 t.year).toList ++
          ' ' :: ((pad 2 t.hour).toList ++ ':' :: ((pad 2 t.minute).toList ++
            ':' :: ((pad 2 t.second).toList ++ [])))))) := by
    simp [format]
  have hread : ∀ cs, yearDigits ((if 9999 < t.year then "+" else "").toList ++
      ((pad 4 t.year).toList ++ ' ' :: cs)) = some (t.year, ' ' :: cs) := by
    intro cs
    split
    · have hplus : yearDigits ('+' :: ((pad 4 t.year).toList ++ ' ' :: cs)) =
          some (t.year, ' ' :: cs) := yearDigits_plus (by omega) hyear (by decide)
      simpa using hplus
    · have hpad : yearDigits ((pad 4 t.year).toList ++ ' ' :: cs) = some (t.year, ' ' :: cs) :=
        yearDigits_pad (by omega)
      simpa using hpad
  rw [parseFull, htext, digits_pad two_pos hmonth]
  simp only [Option.bind_eq_bind, Option.bind_some, literal_cons, digits_pad two_pos hday,
    digits_pad two_pos hhour, digits_pad two_pos hminute, digits_pad two_pos hsecond, hread]
  rfl

theorem parseFull_format (ht : t.Valid) (hy : t.year ≤ 9999) : parseFull t.format = some t := by
  obtain ⟨hm, hd, hh, hmi, hs⟩ := ht.two_digits
  rw [parseFull_format_eq hm hd hh hmi hs (by omega), resolve_self ht]

end Texts

/-! ### Instants -/

/-- The years are counted from March on; every fourth, but for the hundredth and again the
four hundredth, has a day more. -/
theorem estimate_bounds {day year : ℤ} (h : year = (400 * day + 591) / 146097) :
    -2 ≤ day - (365 * year + year / 4 - year / 100 + year / 400) ∧
      day - (365 * year + year / 4 - year / 100 + year / 400) ≤ 365 := by
  obtain ⟨k, i, p, s, rfl, hi, hi', hp, hp', hs, hs'⟩ : ∃ k i p s : ℤ,
      year = 400 * k + 100 * i + 4 * p + s ∧ 0 ≤ i ∧ i ≤ 3 ∧ 0 ≤ p ∧ p ≤ 24 ∧ 0 ≤ s ∧ s ≤ 3 :=
    ⟨year / 400, year % 400 / 100, year % 100 / 4, year % 4, by omega, by omega, by omega,
      by omega, by omega, by omega, by omega⟩
  have h4 : (400 * k + 100 * i + 4 * p + s) / 4 = 100 * k + 25 * i + p := by omega
  have h100 : (400 * k + 100 * i + 4 * p + s) / 100 = 4 * k + i := by omega
  have h400 : (400 * k + 100 * i + 4 * p + s) / 400 = k := by omega
  rw [h4, h100, h400]
  omega

/-- A day counted from the start of its year, which is the estimate or the one before. -/
theorem day_bounds {zeroDay estimate year : ℤ} (h : estimate = (400 * zeroDay + 591) / 146097)
    (hyear : year = if zeroDay - (365 * estimate + estimate / 4 - estimate / 100 +
      estimate / 400) < 0 then estimate - 1 else estimate) :
    0 ≤ zeroDay - (365 * year + year / 4 - year / 100 + year / 400) ∧
      zeroDay - (365 * year + year / 4 - year / 100 + year / 400) ≤ 366 := by
  have hestimate := estimate_bounds h
  clear h
  split at hyear
  · subst hyear
    omega
  · subst hyear
    omega

/-- From the first day of the year 1 on, and a number of milliseconds that fits in 64 bits. -/
def Stored (instant : ℤ) : Prop :=
  (⟨1, 1, 1, 0, 0, 0⟩ : LocalDateTime).toInstant ≤ instant ∧ instant < 2 ^ 63 * 1000000

instance (instant : ℤ) : Decidable (Stored instant) := inferInstanceAs (Decidable (_ ∧ _))

theorem ofInstant_bounds {instant : ℤ} (h : Stored instant) :
    (1 ≤ (ofInstant instant).year ∧ (ofInstant instant).year ≤ 999999999) ∧
      (1 ≤ (ofInstant instant).month ∧ (ofInstant instant).month ≤ 12) ∧
      (1 ≤ (ofInstant instant).day ∧ (ofInstant instant).day ≤ 31) ∧
      (ofInstant instant).hour ≤ 23 ∧ (ofInstant instant).minute ≤ 59 ∧
      (ofInstant instant).second ≤ 59 := by
  have hfirst : -62135596800000000000 ≤ instant := h.1
  have hlast := h.2
  unfold ofInstant
  simp only
  set zeroDay := instant / 1000000000 / 86400 + 719528 - 60 with hzero
  set estimate := (400 * zeroDay + 591) / 146097 with hestimate
  set year := if zeroDay - (365 * estimate + estimate / 4 - estimate / 100 + estimate / 400) < 0
    then estimate - 1 else estimate with hyear
  have hdays := day_bounds hestimate hyear
  set day := zeroDay - (365 * year + year / 4 - year / 100 + year / 400) with hday
  have hrange : 306 ≤ zeroDay ∧ zeroDay < 110000000000 := by omega
  have hyears : 0 ≤ year ∧ year < 900000000 := by
    clear_value year
    omega
  -- of the year 0 only January and February of the next one are left
  have hearly : 1 ≤ year ∨ 306 ≤ day := by
    clear_value year
    omega
  clear_value day year
  refine ⟨⟨?_, ?_⟩, ⟨?_, ?_⟩, ⟨?_, ?_⟩, ?_, ?_, ?_⟩ <;> omega

/-- The text of a timestamp can be read. -/
theorem getInstantFromString_isSome {instant : ℤ} (h : Stored instant) :
    (getInstantFromString (getStringFromInstant instant)).isSome := by
  obtain ⟨⟨hy, hy'⟩, ⟨hm, hm'⟩, ⟨hd, hd'⟩, hh, hmin, hs⟩ := ofInstant_bounds h
  rw [getInstantFromString, getStringFromInstant, Option.isSome_map,
    parseFull_format_eq (by omega) (by omega) (by omega) (by omega) (by omega) (by omega), resolve,
    if_pos ⟨hy, hy', hm, hm', hd, hd', hmin⟩]
  simp only
  rw [if_neg (by omega), if_pos ⟨hh, hs⟩]
  rfl

end LocalDateTime

end AtomComm.GuildBot
