/-!
Decimal digits: natural numbers written with and without a fixed width, and runs of digits read.
-/

namespace Strongroom.Text

def isDigit (c : Char) : Bool := '0' ≤ c && c ≤ '9'

def digitValue (c : Char) : Nat := c.toNat - 48

def digitsOf (n : Nat) : List Char :=
  if n < 10 then [Char.ofNat (48 + n)] else digitsOf (n / 10) ++ [Char.ofNat (48 + n % 10)]

def paddedDigits (width n : Nat) : List Char :=
  let s := digitsOf n
  List.replicate (width - s.length) '0' ++ s

def valueOfDigits (s : List Char) : Nat := s.foldl (fun n c => 10 * n + digitValue c) 0

def spanDigits (limit : Nat) (s : List Char) : List Char × List Char :=
  let run := (s.take limit).takeWhile isDigit
  (run, s.drop run.length)

def readNumber? (limit : Nat) (s : List Char) : Option (Nat × List Char) :=
  match spanDigits limit s with
  | ([], _) => none
  | (run, rest) => some (valueOfDigits run, rest)

def readFixed? (count : Nat) (s : List Char) : Option (Nat × List Char) :=
  let run := s.take count
  if run.length = count && run.all isDigit then some (valueOfDigits run, s.drop count) else none

def natText (n : Nat) : String := String.ofList (digitsOf n)

end Strongroom.Text
