import AgenticFirewall.Lib.Text

/-!
# Date and time texts

`datetime.fromtimestamp(ts, tz=utc)` and the formats that print it:
rounding to whole microseconds, the proleptic Gregorian calendar, and the
fixed-width digits of `strftime` and `:.2f`.
-/

namespace Py

/-- Rounding to an integer, ties to even. -/
def roundEven (q : ℚ) : Int :=
  let fl := q.floor
  if 1 / 2 < q - fl ∨ (q - fl = 1 / 2 ∧ fl % 2 = 1) then fl + 1 else fl

/-- The last decimal digit of `n`. -/
def lastDigit (n : Nat) : CodePoint := hexDigit (n % 10)

/-- `%m`, `%d`, `%H`, `%M`, `%S` -/
def twoDigits (n : Nat) : Str := [lastDigit (n / 10), lastDigit n]

/-- `%Y` -/
def fourDigits (n : Nat) : Str := twoDigits (n / 100) ++ twoDigits n

/-- `{q:.2f}`. -/
def formatFixed2 (q : ℚ) : Str :=
  let n := (roundEven (|q| * 100)).toNat
  (if q < 0 then str "-" else []) ++ intStr (n / 100) ++ str "." ++ twoDigits n

structure DateTime where
  year : Nat
  month : Nat
  day : Nat
  hour : Nat
  minute : Nat
  second : Nat
  deriving DecidableEq, Repr

/-- Year, month and day of a day counted from 0000-03-01: years start in
March here, so that a leap day is the last of its year. -/
def civil (n : Nat) : Nat × Nat × Nat :=
  let era := n / 146097
  let dayOfEra := n % 146097
  let yearOfEra := (dayOfEra - dayOfEra / 1460 + dayOfEra / 36524 - dayOfEra / 146096) / 365
  let dayOfYear := dayOfEra - (365 * yearOfEra + yearOfEra / 4 - yearOfEra / 100)
  let shifted := (5 * dayOfYear + 2) / 153
  let month := if shifted < 10 then shifted + 3 else shifted - 9
  let year := era * 400 + yearOfEra + (if month ≤ 2 then 1 else 0)
  (year, month, dayOfYear - (153 * shifted + 2) / 5 + 1)

/-- `datetime.fromtimestamp(ts, tz=timezone.utc)`, microseconds dropped.
There is none outside the years 1 to 9999. -/
def fromTimestamp (ts : ℚ) : Option DateTime :=
  -- seconds since 0000-03-01
  let secs := roundEven (ts * 1000000) / 1000000 + 62162035200
  if secs < 26438400 ∨ 315564336000 ≤ secs then none
  else
    let secs := secs.toNat
    let (year, month, day) := civil (secs / 86400)
    let clock := secs % 86400
    some { year, month, day, hour := clock / 3600, minute := clock / 60 % 60, second := clock % 60 }

/-- `%Y-%m-%d` -/
def DateTime.date (t : DateTime) : Str :=
  fourDigits t.year ++ str "-" ++ twoDigits t.month ++ str "-" ++ twoDigits t.day

/-- `%H:%M:%S` -/
def DateTime.time (t : DateTime) : Str :=
  twoDigits t.hour ++ str ":" ++ twoDigits t.minute ++ str ":" ++ twoDigits t.second

/-- `strftime("%Y-%m-%d %H:%M:%S")` -/
def DateTime.text (t : DateTime) : Str := t.date ++ ofChar ' ' :: t.time

example : fromTimestamp 951782400 = some ⟨2000, 2, 29, 0, 0, 0⟩ := by decide +kernel

/-! ## What the texts are made of -/

theorem isDigit_lastDigit (n : Nat) : isDigit (lastDigit n) = true := by
  have hall : ∀ d : Fin 10, isDigit (hexDigit d.val) = true := by decide
  exact hall ⟨n % 10, Nat.mod_lt n (by decide)⟩

/-- A digit, a dash or a colon. -/
def isClockChar (c : CodePoint) : Bool := isDigit c || oneOf "-:" c

theorem clockChars_twoDigits (n : Nat) : (twoDigits n).all isClockChar = true := by
  simp [twoDigits, isClockChar, isDigit_lastDigit]

theorem clockChars_date (t : DateTime) : t.date.all isClockChar = true := by
  have hdash : (str "-").all isClockChar = true := by decide
  simp [DateTime.date, fourDigits, clockChars_twoDigits, hdash]

theorem clockChars_time (t : DateTime) : t.time.all isClockChar = true := by
  have hcolon : (str ":").all isClockChar = true := by decide
  simp [DateTime.time, clockChars_twoDigits, hcolon]

end Py
