import Strongroom.Fault
import Strongroom.Text.Basic
import Strongroom.Text.LowerCase

/-!
Names of credentials. A normal name is a slash before each of one or more non-empty segments; the
key under which a credential is found is the name without blanks at its ends, in lower case, with a
slash in front.
-/

namespace Strongroom.Naming

open Text

def slashed (s : List Char) : List Char :=
  if s.head? = some '/' then s else '/' :: s

def hasEmptySegment : List Char → Bool
  | [] => false
  | '/' :: [] => true
  | '/' :: '/' :: _ => true
  | _ :: rest => hasEmptySegment rest

def normalizeChars (s : List Char) : Except ParameterCode (List Char) :=
  let t := trim s
  if t = [] || t = ['/'] then .error .missingName
  else if hasEmptySegment (slashed t) then .error .malformedName
  else .ok (slashed t)

def normalize (name : String) : Except Fault String :=
  match normalizeChars name.toList with
  | .ok s => .ok (String.ofList s)
  | .error .malformedName => .error (.invalid .malformedName (some name))
  | .error code => .error (.validation code)

def keyChars (s : List Char) : List Char := slashed (lower (trim s))

def key (name : String) : String := String.ofList (keyChars name.toList)

end Strongroom.Naming
