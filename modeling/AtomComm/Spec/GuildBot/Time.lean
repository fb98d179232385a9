import Mathlib.Data.List.Basic
import Mathlib.Data.String.Basic

/-! The times of the attendance bot: texts of the pattern `MM/dd/yyyy HH:mm:ss`, read in
UTC, and instants, which are counted in nanoseconds since 1970. The reader is the smart one
of `java.time`: a day past the end of its month becomes the last day, and 24:00 the midnight
after it. -/

namespace AtomComm.GuildBot

structure LocalDateTime where
  year : ℕ
  month : ℕ
  day : ℕ
  hour : ℕ
  minute : ℕ
  second : ℕ
  deriving DecidableEq

def isLeapYear (year : ℕ) : Bool := year % 4 = 0 && (year % 100 ≠ 0 || year % 400 = 0)

def lengthOfMonth (year month : ℕ) : ℕ :=
  if month = 2 then (if isLeapYear year then 29 else 28)
  else if month ∈ [4, 6, 9, 11] then 30 else 31

namespace LocalDateTime

def midnightAfter (t : LocalDateTime) : LocalDateTime :=
  if t.day < lengthOfMonth t.year t.month then ⟨t.year, t.month, t.day + 1, 0, 0, 0⟩
  else if t.month < 12 then ⟨t.year, t.month + 1, 1, 0, 0, 0⟩
  else ⟨t.year + 1, 1, 1, 0, 0, 0⟩

def resolve (t : LocalDateTime) : Option LocalDateTime :=
  if 1 ≤ t.year ∧ t.year ≤ 999999999 ∧ 1 ≤ t.month ∧ t.month ≤ 12 ∧ 1 ≤ t.day ∧ t.day ≤ 31 ∧
      t.minute ≤ 59 then
    let t := { t with day := min t.day (lengthOfMonth t.year t.month) }
    if t.hour = 24 ∧ t.minute = 0 ∧ t.second = 0 then some t.midnightAfter
    else if t.hour ≤ 23 ∧ t.second ≤ 59 then some t
    else none
  else none

/-- Days since 1970. -/
def epochDay (t : LocalDateTime) : ℤ :=
  let years : ℤ := 365 * t.year + ((t.year + 3) / 4 - (t.year + 99) / 100 + (t.year + 399) / 400)
  let months : ℤ := (367 * t.month - 362) / 12 -
    (if t.month ≤ 2 then 0 else if isLeapYear t.year then 1 else 2)
  years + months + (t.day - 1) - 719528

/-- The instant in UTC. -/
def toInstant (t : LocalDateTime) : ℤ :=
  (t.epochDay * 86400 + t.hour * 3600 + t.minute * 60 + t.second) * 1000000000

/-- `LocalDate.ofEpochDay` and the time of the day, from the year 0 on. -/
def ofInstant (instant : ℤ) : LocalDateTime :=
  let seconds := instant / 1000000000
  let secondOfDay := (seconds % 86400).toNat
  -- years start on the first of March
  let zeroDay := seconds / 86400 + 719528 - 60
  let dayOf (year : ℤ) := zeroDay - (365 * year + year / 4 - year / 100 + year / 400)
  let estimate := (400 * zeroDay + 591) / 146097
  let year := if dayOf estimate < 0 then estimate - 1 else estimate
  let month := (dayOf year * 5 + 2) / 153
  ⟨(year + month / 10).toNat, ((month + 2) % 12 + 1).toNat,
    (dayOf year - (month * 306 + 5) / 10 + 1).toNat,
    secondOfDay / 3600, secondOfDay % 3600 / 60, secondOfDay % 60⟩

def pad (width n : ℕ) : String := "".pushn '0' (width - (toString n).length) ++ toString n

/-- `MM/dd/yyyy HH:mm:ss`. -/
def format (t : LocalDateTime) : String :=
  pad 2 t.month ++ "/" ++ pad 2 t.day ++ "/" ++ (if 9999 < t.year then "+" else "") ++
    pad 4 t.year ++ " " ++ pad 2 t.hour ++ ":" ++ pad 2 t.minute ++ ":" ++ pad 2 t.second

end LocalDateTime

/-! ### Readers of the patterns -/

def number (ds : List Char) : ℕ := ds.foldl (fun n c => n * 10 + (c.toNat - '0'.toNat)) 0

/-- A field of fixed width. -/
def digits (width : ℕ) (cs : List Char) : Option (ℕ × List Char) :=
  let ds := cs.take width
  if ds.length = width ∧ ds.all Char.isDigit then some (number ds, cs.drop width) else none

def literal (c : Char) : List Char → Option (List Char)
  | d :: cs => if d = c then some cs else none
  | [] => none

/-- `yyyy`: four digits, or a sign and more. -/
def yearDigits : List Char → Option (ℕ × List Char)
  | '+' :: cs =>
    let ds := cs.takeWhile Char.isDigit
    if 5 ≤ ds.length ∧ ds.length ≤ 19 then some (number ds, cs.drop ds.length) else none
  | cs => digits 4 cs

/-- `MM/dd HH:mm yyyy`. -/
def parseShort (s : String) : Option LocalDateTime := do
  let (month, cs) ← digits 2 s.toList
  let (day, cs) ← literal '/' cs >>= digits 2
  let (hour, cs) ← literal ' ' cs >>= digits 2
  let (minute, cs) ← literal ':' cs >>= digits 2
  let (year, cs) ← literal ' ' cs >>= yearDigits
  if cs = [] then LocalDateTime.resolve ⟨year, month, day, hour, minute, 0⟩ else none

/-- `MM/dd/yyyy HH:mm:ss`. -/
def parseFull (s : String) : Option LocalDateTime := do
  let (month, cs) ← digits 2 s.toList
  let (day, cs) ← literal '/' cs >>= digits 2
  let (year, cs) ← literal '/' cs >>= yearDigits
  let (hour, cs) ← literal ' ' cs >>= digits 2
  let (minute, cs) ← literal ':' cs >>= digits 2
  let (second, cs) ← literal ':' cs >>= digits 2
  if cs = [] then LocalDateTime.resolve ⟨year, month, day, hour, minute, second⟩ else none

/-! ### The class `CTA` -/

/-- The date is read with the current year behind it; `none` is the `ParseException`. -/
def convertToFullTimestamp (year : ℕ) (inputDateTime : String) : Option String :=
  (parseShort (inputDateTime ++ " " ++ toString year)).map LocalDateTime.format

def getInstantFromString (time : String) : Option ℤ := (parseFull time).map LocalDateTime.toInstant

def getStringFromInstant (instant : ℤ) : String := (LocalDateTime.ofInstant instant).format

def validateTimeFormat (startTime endTime : String) : Bool :=
  match getInstantFromString startTime, getInstantFromString endTime with
  | some startInstant, some endInstant => startInstant ≤ endInstant
  | _, _ => false

example : convertToFullTimestamp 2024 "02/31 24:00" = some "03/01/2024 00:00:00" := by
  decide +kernel

example : getInstantFromString "03/01/2024 00:00:00" = some 1709251200000000000 := by
  decide +kernel

example : getStringFromInstant 1709251199999999999 = "02/29/2024 23:59:59" := by
  decide +kernel

end AtomComm.GuildBot
