import ReplicatedStore.Text.Blank
import ReplicatedStore.Text.Decimal
import ReplicatedStore.Time.Calendar
/-!
# Instants

A point in time to the nanosecond, and its RFC 3339 text. It is written in UTC with `Z` and 0, 3, 6
or 9 digits of a second, the fewest that lose nothing. It is read with any offset, with blanks
between its parts, and with fewer digits than the standard asks for.
-/
namespace ReplicatedStore

/-- A point in time. -/
structure Instant where
  /-- Seconds since 1970-01-01T00:00:00Z. -/
  second : Int
  /-- Nanoseconds; from 10⁹ on they belong to the leap second that follows. -/
  nano : Nat
  deriving DecidableEq, Repr

namespace Instant

/-- Milliseconds since 1970-01-01T00:00:00Z. -/
def ofMillis (ms : Nat) : Instant := ⟨ms / 1000, ms % 1000 * 1000000⟩

/-! ## Writing -/

/-- A number with at least as many digits as asked for. -/
def padded (width n : Nat) : List Char :=
  let ds := Decimal.digits n
  List.replicate (width - ds.length) '0' ++ ds

/-- A year: four digits, or a sign and at least four digits outside 0 to 9999. -/
def writeYear (y : Int) : List Char :=
  if 0 ≤ y ∧ y ≤ 9999 then padded 4 y.toNat
  else (if y < 0 then '-' else '+') :: padded 4 y.natAbs

/-- The fraction of a second. -/
def writeFraction (nano : Nat) : List Char :=
  if nano = 0 then []
  else if nano % 1000000 = 0 then '.' :: padded 3 (nano / 1000000)
  else if nano % 1000 = 0 then '.' :: padded 6 (nano / 1000)
  else '.' :: padded 9 nano

/-- The text of an instant. -/
def write (t : Instant) : String :=
  let date := Calendar.Date.ofNumber (t.second / 86400)
  let clock := (t.second % 86400).toNat
  let leap := 1000000000 ≤ t.nano
  let second := clock % 60 + (if leap then 1 else 0)
  let nano := if leap then t.nano - 1000000000 else t.nano
  String.ofList (writeYear date.year ++ '-' :: padded 2 date.month ++ '-' :: padded 2 date.day ++
    'T' :: padded 2 (clock / 3600) ++ ':' :: padded 2 (clock / 60 % 60) ++
    ':' :: padded 2 second ++ writeFraction nano ++ ['Z'])

/-! ## Reading -/

/-- Between one and `most` digits, and what follows them. -/
def readNumber (most : Nat) (cs : List Char) : Option (Nat × List Char) :=
  let ds := (cs.take most).takeWhile Decimal.isDigit
  if ds.isEmpty then none else some (Decimal.value ds, cs.drop ds.length)

/-- Between one and two digits after blanks. -/
def readPart (cs : List Char) : Option (Nat × List Char) := readNumber 2 (Blank.trimLeft cs)

/-- A year after blanks: up to four digits, or a sign and any number of digits. -/
def readYear (cs : List Char) : Option (Int × List Char) :=
  match Blank.trimLeft cs with
  | '-' :: r => (readNumber r.length r).map fun (n, r) => (-(n : Int), r)
  | '+' :: r => (readNumber r.length r).map fun (n, r) => ((n : Int), r)
  | r => (readNumber 4 r).map fun (n, r) => ((n : Int), r)

/-- A separator, after blanks. -/
def readMark (c : Char) (cs : List Char) : Option (List Char) :=
  match Blank.trimLeft cs with
  | c' :: r => if c' = c then some r else none
  | [] => none

/-- The fraction of a second in nanoseconds; digits past the ninth are dropped. -/
def readFraction : List Char → Option (Nat × List Char)
  | '.' :: r => do
    let (n, r') ← readNumber 9 r
    return (n * Nat.pow 10 (9 - (r.length - r'.length)), r'.dropWhile Decimal.isDigit)
  | cs => some (0, cs)

/-- Two digits. -/
def readPair : List Char → Option (Nat × List Char)
  | a :: b :: r =>
    if Decimal.isDigit a && Decimal.isDigit b then some (Decimal.value [a, b], r) else none
  | _ => none

/-- The sign of an offset: hyphen, plus or the minus sign. -/
def readSign : List Char → Option (Bool × List Char)
  | '+' :: r => some (false, r)
  | '-' :: r => some (true, r)
  | c :: r => if c.toNat = 0x2212 then some (true, r) else none
  | [] => none

/-- An offset from UTC in seconds. -/
def readOffset (cs : List Char) : Option (Int × List Char) :=
  match cs with
  | 'Z' :: r => some (0, r)
  | 'z' :: r => some (0, r)
  | _ =>
    if (cs.take 3).map Char.toUpper == ['U', 'T', 'C'] then some (0, cs.drop 3)
    else do
      let (negative, r) ← readSign cs
      let (hours, r) ← readPair r
      let (minutes, r) ← readPair (r.dropWhile fun c => c == ':' || Blank.isBlank c)
      if 60 ≤ minutes then none
      else
        let seconds : Int := hours * 3600 + minutes * 60
        return (if negative then -seconds else seconds, r)

/-- The first and the last second of the calendar. -/
def inRange (second : Int) : Bool :=
  (⟨Calendar.minYear, 1, 1⟩ : Calendar.Date).number * 86400 ≤ second &&
    second < (⟨Calendar.maxYear + 1, 1, 1⟩ : Calendar.Date).number * 86400

/-- The instant that a text names, if it names one. -/
def read? (s : String) : Option Instant := do
  let (year, r) ← readYear s.toList
  let r ← readMark '-' r
  let (month, r) ← readPart r
  let r ← readMark '-' r
  let (day, r) ← readPart r
  let r ← match r with
    | 'T' :: r => some r
    | 't' :: r => some r
    | ' ' :: r => some r
    | _ => none
  let (hour, r) ← readPart r
  let r ← readMark ':' r
  let (minute, r) ← readPart r
  let r ← readMark ':' r
  let (second, r) ← readPart r
  let (nano, r) ← readFraction r
  let (offset, r) ← readOffset (Blank.trimLeft r)
  let date : Calendar.Date := ⟨year, month, day⟩
  if !(Blank.trimLeft r).isEmpty || !date.isValid || 24 ≤ hour || 60 ≤ minute || 60 < second ||
      86400 ≤ offset.natAbs then none
  else
    let leap := second = 60
    let clock : Int := hour * 3600 + minute * 60 + (if leap then 59 else second)
    let utc := date.number * 86400 + clock - offset
    if inRange utc then some ⟨utc, if leap then nano + 1000000000 else nano⟩ else none

end Instant

end ReplicatedStore
