/-!
# `Bindery.Text.Stamp` — texts made from a time or from random bytes

A book without an identifier gets one of 16 random bytes, six bits of which tell how it was made. The
time of a build is written in the civil calendar, to the second.

A day is counted in eras of 400 years, which all have the same number of days, with years that start in
March, so that the day that leap years add is the last one of a year.

**Contents.** `Stamp.identifier`; `Stamp.Day` and `Stamp.Day.ofCount`, the calendar; `Stamp.date`.
-/

namespace Bindery.Text.Stamp

/-- A number in digits of a base, at least `width` of them. -/
def digits (base : Nat) : (width : Nat) → Nat → List Char
  | 0, _ => []
  | width + 1, n => digits base width (n / base) ++ [Nat.digitChar (n % base)]

/-- Two hexadecimal digits for each byte. -/
def hex (bytes : List UInt8) : String :=
  String.ofList (bytes.flatMap fun byte => digits 16 2 byte.toNat)

/-- The identifier of 16 random bytes. -/
def identifier (bytes : List UInt8) : String :=
  let marked := bytes.mapIdx fun n byte =>
    if n = 6 then (byte &&& 0x0f) ||| 0x40 else if n = 8 then (byte &&& 0x3f) ||| 0x80 else byte
  let part (start size : Nat) : String := hex ((marked.drop start).take size)
  "urn:uuid:" ++ "-".intercalate [part 0 4, part 4 2, part 6 2, part 8 2, part 10 6]

/-- A day of the calendar. -/
structure Day where
  year : Nat
  month : Nat
  day : Nat
deriving DecidableEq, Repr

/-- The days of an era. -/
def eraDays : Nat := 146097

/-- The day that is `count` days after the first of January 1970. -/
def Day.ofCount (count : Nat) : Day :=
  let sinceMarch := count + 719468
  let inEra := sinceMarch % eraDays
  let yearInEra := (inEra - inEra / 1460 + inEra / 36524 - inEra / 146096) / 365
  let inYear := inEra - (365 * yearInEra + yearInEra / 4 - yearInEra / 100)
  let fromMarch := (5 * inYear + 2) / 153
  let month := if fromMarch < 10 then fromMarch + 3 else fromMarch - 9
  let year := yearInEra + sinceMarch / eraDays * 400
  { year := if month ≤ 2 then year + 1 else year
    month
    day := inYear - (153 * fromMarch + 2) / 5 + 1 }

example : Day.ofCount 0 = ⟨1970, 1, 1⟩ := by decide
example : Day.ofCount 11016 = ⟨2000, 2, 29⟩ := by decide
example : Day.ofCount 20088 = ⟨2024, 12, 31⟩ := by decide

/-- The time that is some seconds after the start of 1970. -/
def date (seconds : Nat) : String :=
  let day := Day.ofCount (seconds / 86400)
  let rest := seconds % 86400
  let two (n : Nat) : String := String.ofList (digits 10 2 n)
  String.ofList (digits 10 4 day.year) ++ "-" ++ two day.month ++ "-" ++ two day.day ++ "T"
    ++ two (rest / 3600) ++ ":" ++ two (rest / 60 % 60) ++ ":" ++ two (rest % 60) ++ "Z"

end Bindery.Text.Stamp
