import Strongroom.Base64
import Strongroom.Text.Basic

/-!
Documents in text armour: a header line with a label, the octets in base 64, and a footer line.

There are two readings of a text. The lenient one takes the first header at the beginning of a line
and does not look at the footer's label. The strict one takes the first header anywhere, wants the
same label in the footer, and takes lines before an empty line for header fields.
-/

namespace Strongroom.Armor

open Text

structure Block where
  label : String
  contents : Octets
deriving DecidableEq, Repr

inductive Fault
  | missingHeader
  | malformedHeader
  | missingFooter
  | malformedBody
deriving DecidableEq, Repr

def dashes : List Char := ['-', '-', '-', '-', '-']

def headerMark : List Char := dashes ++ ['B', 'E', 'G', 'I', 'N', ' ']

def footerMark : List Char := dashes ++ ['E', 'N', 'D', ' ']

def lines : List Char → List (List Char)
  | [] => []
  | c :: rest =>
    if c = '\n' then [c] :: lines rest
    else match lines rest with
      | line :: more => (c :: line) :: more
      | [] => [[c]]

def splitAt? (mark : List Char) : List Char → Option (List Char × List Char)
  | [] => if mark.isEmpty then some ([], []) else none
  | c :: rest =>
    if mark.isPrefixOf (c :: rest) then some ([], (c :: rest).drop mark.length)
    else (splitAt? mark rest).map fun (before, after) => (c :: before, after)

/-- The label of a header line, which has to be closed by five dashes. The label itself ends at its
first dash. -/
def label? (line : List Char) : Option (List Char) :=
  (splitAt? dashes (line.drop dashes.length)).map fun (middle, _) =>
    (middle.drop 6).takeWhile (· ≠ '-')

def readBlock (text : String) : Except Fault Block :=
  match (lines text.toList).dropWhile fun line => !headerMark.isPrefixOf line with
  | [] => .error .missingHeader
  | header :: body =>
    match label? header with
    | none => .error .malformedHeader
    | some label =>
      let inside := body.takeWhile fun line => !footerMark.isPrefixOf line
      if inside.length = body.length then .error .missingFooter
      else match Base64.decodeJoined? (inside.flatMap trimEnd) with
        | some contents => .ok ⟨String.ofList label, contents⟩
        | none => .error .malformedBody

def skipBreaks (s : List Char) : List Char :=
  s.dropWhile fun c => c = ' ' || c = '\t' || c = '\n' || c = '\r'

def splitFields (inside : List Char) : List Char × List Char :=
  ((splitAt? ['\n', '\n'] inside).orElse fun _ =>
    splitAt? ['\r', '\n', '\r', '\n'] inside).getD ([], inside)

def readStrict? (text : String) : Option Block := do
  let (_, s) ← splitAt? headerMark text.toList
  let (label, s) ← splitAt? dashes s
  let (inside, s) ← splitAt? footerMark (skipBreaks s)
  let (closing, _) ← splitAt? dashes s
  let (fields, body) := splitFields inside
  let contents ← Base64.decode? ((lines body).flatMap trimEnd)
  if label.isEmpty || closing ≠ label || !(lines fields).all (·.contains ':') then none
  else some ⟨String.ofList label, contents⟩

end Strongroom.Armor
