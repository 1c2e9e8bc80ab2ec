import Strongroom.Text.Basic
import Strongroom.Text.Decimal
import Strongroom.Time.Instant

/-!
Date and time as text, in the form of RFC 3339. Written in UTC with no fraction or the shortest of
3, 6 and 9 digits that is exact; read with any offset, with blanks between the parts, short numbers
and signed years.
-/

namespace Strongroom.Time

open Text

namespace Instant

def yearText (year : Int) : List Char :=
  if 0 ≤ year && year ≤ 9999 then paddedDigits 4 year.toNat
  else (if year < 0 then '-' else '+') :: paddedDigits 4 year.natAbs

def fractionText (nano : Nat) : List Char :=
  if nano = 0 then []
  else if nano % 1000000 = 0 then '.' :: paddedDigits 3 (nano / 1000000)
  else if nano % 1000 = 0 then '.' :: paddedDigits 6 (nano / 1000)
  else '.' :: paddedDigits 9 nano

def textChars (t : Instant) : List Char :=
  let d := t.date
  let s := (t.second % secondsPerDay).toNat
  let leap := t.nano / nanosPerSecond
  yearText d.year ++ '-' :: paddedDigits 2 d.month ++ '-' :: paddedDigits 2 d.day ++
    'T' :: paddedDigits 2 (s / 3600) ++ ':' :: paddedDigits 2 (s / 60 % 60) ++
    ':' :: paddedDigits 2 (s % 60 + leap) ++ fractionText (t.nano % nanosPerSecond) ++ ['Z']

def text (t : Instant) : String := String.ofList t.textChars

def expect? (c : Char) (s : List Char) : Option (List Char) :=
  match s with
  | d :: rest => if c = d then some rest else none
  | [] => none

def readYear? (s : List Char) : Option (Int × List Char) :=
  match s with
  | '-' :: rest => (readNumber? rest.length rest).map fun (n, r) => (-(n : Int), r)
  | '+' :: rest => (readNumber? rest.length rest).map fun (n, r) => ((n : Int), r)
  | _ => (readNumber? 4 s).map fun (n, r) => ((n : Int), r)

/-- Digits after a point; those past the ninth are passed over. -/
def readFraction? (s : List Char) : Option (Nat × List Char) :=
  match s with
  | '.' :: rest =>
    match spanDigits 9 rest with
    | ([], _) => none
    | (run, rest) => some (valueOfDigits run * Nat.pow 10 (9 - run.length), rest.dropWhile isDigit)
  | _ => some (0, s)

def readOffset? (s : List Char) : Option (Int × List Char) :=
  match s with
  | c :: rest =>
    if c = 'Z' || c = 'z' then some (0, rest)
    else if (s.take 3).map Char.toLower = ['u', 't', 'c'] then some (0, s.drop 3)
    else do
      let sign : Int ←
        if c = '+' then some 1
        else if c = '-' || c = '\u2212' then some (-1)
        else none
      let (hours, rest) ← readFixed? 2 rest
      let rest := rest.dropWhile fun c => c = ':' || isBlank c
      let (minutes, rest) ← readFixed? 2 rest
      if minutes < 60 && hours < 24 then some (sign * (60 * hours + minutes), rest) else none
  | [] => none

def readDate? (s : List Char) : Option (Date × List Char) := do
  let (year, s) ← readYear? (trimStart s)
  let s ← expect? '-' (trimStart s)
  let (month, s) ← readNumber? 2 (trimStart s)
  let s ← expect? '-' (trimStart s)
  let (day, s) ← readNumber? 2 (trimStart s)
  let date ← Date.exists? year month day
  return (date, s)

def readClock? (s : List Char) : Option ((Nat × Nat) × List Char) := do
  let (hour, s) ← readNumber? 2 (trimStart s)
  let s ← expect? ':' (trimStart s)
  let (minute, s) ← readNumber? 2 (trimStart s)
  let s ← expect? ':' (trimStart s)
  let (second, s) ← readNumber? 2 (trimStart s)
  let (nano, s) ← readFraction? s
  if hour < 24 && minute < 60 && second ≤ 60 then
    let leap := second / 60
    return ((3600 * hour + 60 * minute + (second - leap), nano + leap * nanosPerSecond), s)
  else none

def ofChars? (s : List Char) : Option Instant := do
  let (date, s) ← readDate? s
  let s ← match s with
    | c :: rest => if c = 'T' || c = 't' || c = ' ' then some rest else none
    | [] => none
  let ((second, nano), s) ← readClock? s
  let (offset, s) ← readOffset? (trimStart s)
  let t := ofDate date second nano
  let t : Instant := ⟨t.second - 60 * offset, t.nano⟩
  if (trimStart s).isEmpty && t.inRange then some t else none

def ofText? (s : String) : Option Instant := ofChars? s.toList

end Instant

end Strongroom.Time
