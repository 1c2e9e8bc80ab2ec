import Strongroom.Json.Basic
import Strongroom.Time.Calendar
import Strongroom.Toml.Quoted
import Strongroom.Toml.Table

/-!
Scalar values: whole numbers in four bases, numbers with a fraction or an exponent, dates and times,
and words.
-/

namespace Strongroom.Toml

open Text

def readDigits? (isDigit : Char → Bool) (s : List Char) : Option (List Char × List Char) :=
  let run := s.takeWhile fun c => isDigit c || c = '_'
  let rec separated : List Char → Bool
    | [] => false
    | [c] => isDigit c
    | a :: b :: rest => (isDigit a || isDigit b) && separated (b :: rest)
  if run.head?.any isDigit && separated run then some (run.filter (· ≠ '_'), s.drop run.length)
  else none

def limit : Nat := Nat.pow 2 63

def readBased? (base : Nat) (s : List Char) : Option (Value × List Char) := do
  let (digits, rest) ← readDigits? (fun c => (Octets.hexValue? c).any (· < base)) s
  let values ← digits.mapM Octets.hexValue?
  let n := values.foldl (fun n d => base * n + d) 0
  if n < limit then some (.integer n, rest) else none

def readWhole? (s : List Char) : Option (List Char × List Char) := do
  let (digits, rest) ← readDigits? isDigit s
  if digits.head? = some '0' && 1 < digits.length then none else some (digits, rest)

def readSign (s : List Char) : Bool × List Char :=
  match s with
  | '-' :: rest => (true, rest)
  | '+' :: rest => (false, rest)
  | _ => (false, s)

def readPlaces? (s : List Char) : Option (List Char × List Char) :=
  match s with
  | '.' :: rest => readDigits? isDigit rest
  | _ => some ([], s)

def readPower? (s : List Char) : Option (Option Int × List Char) :=
  match s with
  | c :: rest =>
    if c = 'e' || c = 'E' then
      let (negative, rest) := readSign rest
      (readDigits? isDigit rest).map fun (digits, rest) =>
        let n : Int := valueOfDigits digits
        (some (if negative then -n else n), rest)
    else some (none, s)
  | [] => some (none, s)

def startsWith (word : List Char) (s : List Char) : Bool := word.isPrefixOf s

/-- A decimal number. One with a fraction or an exponent is refused if it is too large for double
precision and positive. -/
def readDecimal? (s : List Char) : Option (Value × List Char) := do
  let (negative, s) := readSign s
  if startsWith ['i', 'n', 'f'] s || startsWith ['n', 'a', 'n'] s then return (.float, s.drop 3)
  let (whole, s) ← readWhole? s
  let (places, afterPlaces) ← readPlaces? s
  let (power, rest) ← readPower? afterPlaces
  if places.isEmpty && power.isNone then
    let n := valueOfDigits whole
    if n < limit || negative && n = limit then
      return (.integer (if negative then -(n : Int) else n), rest)
    else none
  else
    let number : Json.Number :=
      ⟨negative, valueOfDigits (whole ++ places), power.getD 0 - places.length, false⟩
    if negative || number.isFinite then return (.float, rest) else none

def readClock? (s : List Char) : Option (List Char) := do
  let (hour, s) ← readFixed? 2 s
  let s ← if s.head? = some ':' then some (s.drop 1) else none
  let (minute, s) ← readFixed? 2 s
  let s ← if s.head? = some ':' then some (s.drop 1) else none
  let (second, s) ← readFixed? 2 s
  if hour < 24 && minute < 60 && second ≤ 60 then
    match s with
    | '.' :: rest =>
      let run := rest.takeWhile isDigit
      if run.isEmpty then none else some (rest.drop run.length)
    | _ => some s
  else none

def readOffset? (s : List Char) : Option (List Char) :=
  match s with
  | c :: rest =>
    if c = 'Z' || c = 'z' then some rest
    else if c = '+' || c = '-' then do
      let (hour, s) ← readFixed? 2 rest
      let s ← if s.head? = some ':' then some (s.drop 1) else none
      let (minute, s) ← readFixed? 2 s
      if hour < 24 && minute < 60 then some s else none
    else some s
  | [] => some s

def readMoment? (s : List Char) : Option (Value × List Char) :=
  match readFixed? 4 s with
  | some (year, '-' :: rest) => do
    let (month, s) ← readFixed? 2 rest
    let s ← if s.head? = some '-' then some (s.drop 1) else none
    let (day, s) ← readFixed? 2 s
    let _ ← Time.Date.exists? year month day
    match s with
    | c :: rest =>
      if c = 'T' || c = 't' || c = ' ' && (rest.head?.any isDigit) then
        let s ← readClock? rest
        let s ← readOffset? s
        return (.moment, s)
      else return (.moment, s)
    | [] => return (.moment, s)
  | _ => (readClock? s).map (.moment, ·)

def isMoment (s : List Char) : Bool :=
  let digits := (s.take 4).takeWhile isDigit
  match s.drop digits.length with
  | '-' :: _ => digits.length = 4
  | ':' :: _ => digits.length = 2
  | _ => false

def readScalar? (s : List Char) : Option (Value × List Char) :=
  if startsWith ['t', 'r', 'u', 'e'] s then some (.boolean true, s.drop 4)
  else if startsWith ['f', 'a', 'l', 's', 'e'] s then some (.boolean false, s.drop 5)
  else if isMoment s then readMoment? s
  else if startsWith ['0', 'x'] s then readBased? 16 (s.drop 2)
  else if startsWith ['0', 'o'] s then readBased? 8 (s.drop 2)
  else if startsWith ['0', 'b'] s then readBased? 2 (s.drop 2)
  else readDecimal? s

end Strongroom.Toml
