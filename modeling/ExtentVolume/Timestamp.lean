namespace ExtentVolume.Timestamp

structure Date where
  year : Int
  month : Nat
  day : Nat
deriving DecidableEq

/-- The date that lies so many days after the first of January 1970. Years are counted from March,
so that the leap day is the last one, in cycles of 400 years, which have 146097 days. -/
def Date.ofDays (days : Int) : Date :=
  let shifted := days + 719468
  let cycle := shifted / 146097
  let dayOfCycle := (shifted % 146097).toNat
  let yearOfCycle :=
    (dayOfCycle - dayOfCycle / 1460 + dayOfCycle / 36524 - dayOfCycle / 146096) / 365
  let dayOfYear := dayOfCycle - (365 * yearOfCycle + yearOfCycle / 4 - yearOfCycle / 100)
  let fromMarch := (5 * dayOfYear + 2) / 153
  let month := if fromMarch < 10 then fromMarch + 3 else fromMarch - 9
  { year := yearOfCycle + cycle * 400 + if month ≤ 2 then 1 else 0
    month
    day := dayOfYear - (153 * fromMarch + 2) / 5 + 1 }

def padded (width n : Nat) : String := String.ofList ((Nat.repr n).toList.leftpad width '0')

def yearText (year : Int) : String :=
  if year < 0 then "-" ++ padded 4 year.natAbs
  else if year ≤ 9999 then padded 4 year.toNat
  else "+" ++ Nat.repr year.toNat

def earliest : Int := -8334601228800
def latest : Int := 8210266876799

/-- Date and time of day in UTC, or a dash outside of the calendar's range. -/
def text (t : Int64) : String :=
  let seconds := t.toInt
  if seconds < earliest || latest < seconds then "-"
  else
    let date := Date.ofDays (seconds / 86400)
    let time := (seconds % 86400).toNat
    yearText date.year ++ "-" ++ padded 2 date.month ++ "-" ++ padded 2 date.day ++ " " ++
      padded 2 (time / 3600) ++ ":" ++ padded 2 (time / 60 % 60) ++ ":" ++ padded 2 (time % 60)

end ExtentVolume.Timestamp
