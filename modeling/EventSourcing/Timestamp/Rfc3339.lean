import EventSourcing.Text.Blank
import EventSourcing.Text.Bytes
import EventSourcing.Timestamp
import EventSourcing.Word

/-!
Instants in the form of RFC 3339.
Writing uses the zone Z and 0, 3, 6 or 9 decimals of the second, the fewest that lose nothing.
Reading is more liberal: blanks may stand around the parts, the date and the time may be separated
by a blank, and the zone may be written as UTC or as an offset with or without a colon.
-/
namespace EventSourcing.Timestamp

inductive TextError where
  | outOfRange
  | impossible
  | invalid
  | tooShort
  | tooLong
  deriving DecidableEq, Repr

def TextError.message : TextError → String
  | .outOfRange => "input is out of range"
  | .impossible => "no possible date and time matching input"
  | .invalid => "input contains invalid characters"
  | .tooShort => "premature end of input"
  | .tooLong => "trailing input"

/-- A number with zeros in front up to a width. -/
def padded (width n : Nat) : List Char :=
  let ds := Nat.toDigits 10 n
  List.replicate (width - ds.length) '0' ++ ds

def yearText (y : Int) : List Char :=
  if 0 ≤ y ∧ y ≤ 9999 then padded 4 y.toNat
  else (if y < 0 then '-' else '+') :: padded 4 y.natAbs

def fractionText (nanos : Nat) : List Char :=
  if nanos = 0 then []
  else if nanos % 1000000 = 0 then '.' :: padded 3 (nanos / 1000000)
  else if nanos % 1000 = 0 then '.' :: padded 6 (nanos / 1000)
  else '.' :: padded 9 nanos

def text (t : Timestamp) : String :=
  let date := Date.ofDays t.day
  let s := t.secondOfDay
  let leap := 1000000000 ≤ t.nanos
  String.ofList <|
    yearText date.year ++ '-' :: padded 2 date.month ++ '-' :: padded 2 date.day ++
    'T' :: padded 2 (s / 3600) ++ ':' :: padded 2 (s / 60 % 60) ++
    ':' :: padded 2 (s % 60 + if leap then 1 else 0) ++
    fractionText (if leap then t.nanos - 1000000000 else t.nanos) ++ ['Z']

/-- Reads some of a text. -/
abbrev Scan (α : Type) := Except TextError (α × List Char)

/-- Up to `limit` digits; the number must fit 63 bits. -/
def numberFrom (acc : Nat) : Nat → List Char → Except TextError (Nat × List Char)
  | 0, cs => .ok (acc, cs)
  | _ + 1, [] => .ok (acc, [])
  | limit + 1, c :: cs =>
    if c.isDigit then
      let n := acc * 10 + (c.toNat - 48)
      if n < Word.count 63 then numberFrom n limit cs else .error .outOfRange
    else .ok (acc, c :: cs)

/-- At least one digit and at most `limit`. -/
def number (limit : Nat) (cs : List Char) : Except TextError (Nat × List Char) :=
  match cs with
  | [] => .error .tooShort
  | c :: _ => if c.isDigit then numberFrom 0 limit cs else .error .invalid

/-- A part of the date or time: blanks, one or two digits, within bounds. -/
def part (low high : Nat) (cs : List Char) : Except TextError (Nat × List Char) := do
  let (n, rest) ← number 2 (Text.trimLeft cs)
  if low ≤ n ∧ n ≤ high then .ok (n, rest) else .error .outOfRange

/-- A year has up to four digits, or a sign and any number of them. -/
def yearPart (cs : List Char) : Except TextError (Int × List Char) := do
  let cs := Text.trimLeft cs
  let (y, rest) ← match cs with
    | '-' :: ds => (number ds.length ds).map fun (n, r) => (-(n : Int), r)
    | '+' :: ds => (number ds.length ds).map fun (n, r) => ((n : Int), r)
    | ds => (number 4 ds).map fun (n, r) => ((n : Int), r)
  if Word.leastInt32 ≤ y ∧ y ≤ Word.greatestInt32 then .ok (y, rest) else .error .outOfRange

def mark (c : Char) (cs : List Char) : Except TextError (List Char) :=
  match Text.trimLeft cs with
  | [] => .error .tooShort
  | x :: rest => if x = c then .ok rest else .error .invalid

/-- The mark between date and time. -/
def dateMark : List Char → Except TextError (List Char)
  | [] => .error .tooShort
  | x :: rest => if x = 't' ∨ x = 'T' ∨ x = ' ' then .ok rest else .error .invalid

/-- Decimals of the second, of which nine count. -/
def fractionPart (cs : List Char) : Except TextError (Nat × List Char) :=
  match cs with
  | '.' :: ds => do
    let (n, rest) ← number 9 ds
    .ok (n * Nat.pow 10 (9 - (ds.length - rest.length)), rest.dropWhile Char.isDigit)
  | _ => .ok (0, cs)

/-- Two digits, of which the first is at most 5 unless `full`. -/
def twoDigits (full : Bool) (cs : List Char) : Except TextError (Nat × List Char) :=
  match cs with
  | a :: b :: rest =>
    if a.isDigit ∧ b.isDigit then
      if full ∨ a ≤ '5' then .ok ((a.toNat - 48) * 10 + (b.toNat - 48), rest)
      else .error .outOfRange
    else .error .invalid
  | cs => if 2 ≤ Text.byteCount cs then .error .invalid else .error .tooShort

/-- Seconds of an offset after its sign. -/
def offsetSize (cs : List Char) : Except TextError (Nat × List Char) := do
  let (hours, cs) ← twoDigits true cs
  let (minutes, cs) ← twoDigits false (cs.dropWhile fun c => c = ':' || Text.isBlank c)
  .ok (hours * 3600 + minutes * 60, cs)

/-- Seconds by which a zone is ahead. -/
def zonePart (cs : List Char) : Except TextError (Int × List Char) :=
  match cs with
  | [] => .error .tooShort
  | c :: rest =>
    if (cs.take 3).map Char.toLower = ['u', 't', 'c'] then .ok (0, cs.drop 3)
    else if c = 'Z' ∨ c = 'z' then .ok (0, rest)
    else if c = '+' then (offsetSize rest).map fun (n, r) => ((n : Int), r)
    else if c = '-' ∨ c = '\u2212' then (offsetSize rest).map fun (n, r) => (-(n : Int), r)
    else .error .invalid

/-- The instant of a local date and time. A second 60 is a leap second. -/
def ofLocal (date : Date) (hour minute second nanos : Nat) (ahead : Int) :
    Except TextError Timestamp :=
  if !date.valid then .error .outOfRange
  else if ahead ≤ -86400 ∨ 86400 ≤ ahead then .error .outOfRange
  else
    let ofDay : Int := hour * 3600 + minute * 60 + min second 59
    let t : Timestamp :=
      ⟨date.toDays * secondsPerDay + ofDay - ahead,
        if second = 60 then nanos + 1000000000 else nanos⟩
    let year := (Date.ofDays t.day).year
    if firstYear ≤ year ∧ year ≤ lastYear then .ok t else .error .impossible

def parse (s : String) : Except TextError Timestamp := do
  let (year, cs) ← yearPart s.toList
  let cs ← mark '-' cs
  let (month, cs) ← part 1 12 cs
  let cs ← mark '-' cs
  let (day, cs) ← part 1 31 cs
  let cs ← dateMark cs
  let (hour, cs) ← part 0 23 cs
  let cs ← mark ':' cs
  let (minute, cs) ← part 0 59 cs
  let cs ← mark ':' cs
  let (second, cs) ← part 0 60 cs
  let (nanos, cs) ← fractionPart cs
  let (ahead, cs) ← zonePart (Text.trimLeft cs)
  if (Text.trimLeft cs).isEmpty then ofLocal ⟨year, month, day⟩ hour minute second nanos ahead
  else .error .tooLong

end EventSourcing.Timestamp
