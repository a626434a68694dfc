import Mathlib.Tactic.Ring

/-!
# Times and durations

A `time.Time` is the number of nanoseconds since its zero value, the first
instant of year 1; a `time.Duration` is a number of nanoseconds on 64 bits.
-/

namespace QuicLab.Go

/-- A `time.Time`. -/
abbrev Time := ℤ

/-- A `time.Duration`. -/
abbrev Duration := ℤ

/-- `time.Second`. -/
def second : Duration := 1000000000

/-- `time.Duration(n) * time.Second`, which wraps around. -/
def seconds (n : ℤ) : Duration := (n * second).bmod (2 ^ 64)

/-- `Time.Unix`: the seconds since 1970. -/
def Time.unix (t : Time) : ℤ := t / second - 62135596800

/-- `time.Unix(n, 0)`. -/
def unixTime (n : ℤ) : Time := (n + 62135596800) * second

/-- `Time.AddDate(0, 0, days)` of a time in UTC. -/
def Time.addDays (t : Time) (days : ℤ) : Time := t + days * (24 * 60 * 60 * second)

end QuicLab.Go
