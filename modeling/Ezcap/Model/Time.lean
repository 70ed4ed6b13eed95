import Ezcap.Library.Gregorian
import Ezcap.Model.Ipc

/-! Reading timestamps, from `time.cpp`. A time point is its count of nanoseconds, a signed 64-bit
number; what C leaves undefined when it overflows is taken to wrap. -/

namespace Ezcap.TimeUtil

open StdString

/-- The members of `std::tm` that are used. -/
structure Tm where
  tmYear : ℤ
  tmMon : ℤ
  tmMday : ℤ
  tmHour : ℤ
  tmMin : ℤ
  tmSec : ℤ
  deriving DecidableEq

/-! ## The C library -/

/-- `gmtime_r`, with the calendar of `to_rfc3339`. -/
def gmtime (secs : ℤ) : Tm :=
  let (year, month, day) := Ipc.civilFromDays (secs.fdiv 86400)
  let rem := secs.fmod 86400
  { tmYear := year - 1900, tmMon := month - 1, tmMday := day
    tmHour := rem / 3600, tmMin := rem % 3600 / 60, tmSec := rem % 60 }

/-- `timegm`; members outside of their range count on. -/
def timegm (tm : Tm) : ℤ :=
  Gregorian.dayNumber (tm.tmYear + 1900 + tm.tmMon / 12) (tm.tmMon % 12 + 1) tm.tmMday * 86400 +
    tm.tmHour * 3600 + tm.tmMin * 60 + tm.tmSec

/-! ## Parsing -/

/-- `c - '0'`, with `char` signed. -/
def digitValue (c : UInt8) : ℤ := c.toInt8.toInt - 48

def isDigit (c : UInt8) : Bool := '0'.toUInt8.toInt8 ≤ c.toInt8 && c.toInt8 ≤ '9'.toUInt8.toInt8

def parse2 (p : ℕ → UInt8) (i : ℕ) : ℤ := digitValue (p i) * 10 + digitValue (p (i + 1))

/-- The positions up to the seconds. -/
def dateTimeOk (p : ℕ → UInt8) : Bool :=
  isDigit (p 0) && isDigit (p 1) && isDigit (p 2) && isDigit (p 3) &&
    p 4 == '-'.toUInt8 && isDigit (p 5) && isDigit (p 6) && p 7 == '-'.toUInt8 &&
    isDigit (p 8) && isDigit (p 9) && (p 10 == 'T'.toUInt8 || p 10 == 't'.toUInt8) &&
    isDigit (p 11) && isDigit (p 12) && p 13 == ':'.toUInt8 && isDigit (p 14) &&
    isDigit (p 15) && p 16 == ':'.toUInt8 && isDigit (p 17) && isDigit (p 18)

def dateTime (p : ℕ → UInt8) : Tm where
  tmYear := digitValue (p 0) * 1000 + digitValue (p 1) * 100 + digitValue (p 2) * 10 +
    digitValue (p 3) - 1900
  tmMon := parse2 p 5 - 1
  tmMday := parse2 p 8
  tmHour := parse2 p 11
  tmMin := parse2 p 14
  tmSec := parse2 p 17

def milliseconds (p : ℕ → UInt8) (size : ℕ) : ℤ :=
  if p 19 = '.'.toUInt8 ∧ 24 ≤ size then
    digitValue (p 20) * 100 + digitValue (p 21) * 10 + digitValue (p 22)
  else 0

/-- The nanoseconds of `seconds{tt} + milliseconds{ms}`. -/
def timePoint (tt ms : ℤ) : ℤ := Int.bmod ((tt * 1000 + ms) * 10 ^ 6) (2 ^ 64)

/-- A text that is refused gives the epoch. -/
def fromRfc3339 (timegm : Tm → ℤ) (text : Bytes) : ℤ :=
  let p := fun i => text.getD i 0
  -- the outer condition asks for a `Z` at the end, but only the inner one returns
  if (text.length < 20 ∨ text ≠ [] ∧ text.getLast? ≠ some 'Z'.toUInt8) ∧ text.length < 20 then 0
  else if !dateTimeOk p then 0
  else
    let tt := timegm (dateTime p)
    if tt = -1 then 0 else timePoint tt (milliseconds p text.length)

end Ezcap.TimeUtil
