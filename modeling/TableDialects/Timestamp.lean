import TableDialects.Text.Basic

/- Points in time as text: the date and the time of day in UTC. -/
namespace TableDialects.Timestamp

/-- A number in at least `width` digits. -/
def padded (width n : Nat) : Text :=
  let digits := Text.ofNat n
  List.replicate (width - digits.length) '0' ++ digits

/-- Year, month and day of a day, counted from the first of January 1970. Years
are counted from March on, so that the leap day comes last. -/
def date (day : Nat) : Nat × Nat × Nat :=
  let shifted := day + 719468
  let era := shifted / 146097
  let dayOfEra := shifted % 146097
  let yearOfEra := (dayOfEra - dayOfEra / 1460 + dayOfEra / 36524 - dayOfEra / 146096) / 365
  let dayOfYear := dayOfEra - (365 * yearOfEra + yearOfEra / 4 - yearOfEra / 100)
  let monthFromMarch := (5 * dayOfYear + 2) / 153
  let dayOfMonth := dayOfYear - (153 * monthFromMarch + 2) / 5 + 1
  let month := if monthFromMarch < 10 then monthFromMarch + 3 else monthFromMarch - 9
  let year := yearOfEra + era * 400 + (if month ≤ 2 then 1 else 0)
  (year, month, dayOfMonth)

/-- The text of a point in time, given in microseconds since 1970. -/
def render (micros : Nat) : Text :=
  let seconds := micros / 1000000
  let fraction := micros % 1000000
  let (year, month, day) := date (seconds / 86400)
  let second := seconds % 86400
  padded 4 year ++ '-' :: padded 2 month ++ '-' :: padded 2 day ++ 'T' :: padded 2 (second / 3600)
    ++ ':' :: padded 2 (second / 60 % 60) ++ ':' :: padded 2 (second % 60)
    ++ (if fraction = 0 then [] else '.' :: padded 6 fraction) ++ "+00:00".toList

end TableDialects.Timestamp
