import Strongroom.Octets

/-!
Quoted strings, on one line or on several, with and without escapes.
-/

namespace Strongroom.Toml

def isSpace (c : Char) : Bool := c = ' ' || c = '\t'

def skipSpace (s : List Char) : List Char := s.dropWhile isSpace

def readBreak? (s : List Char) : Option (List Char) :=
  match s with
  | '\n' :: rest => some rest
  | '\r' :: '\n' :: rest => some rest
  | _ => none

def isPlain (c : Char) : Bool := c = '\t' || 32 ≤ c.toNat && c.toNat ≠ 127

def skipBreaks (fuel : Nat) (s : List Char) : List Char :=
  match fuel with
  | 0 => s
  | fuel + 1 =>
    match readBreak? (skipSpace s) with
    | some rest => skipBreaks fuel rest
    | none => skipSpace s

def readCodePoint? (count : Nat) (s : List Char) : Option (Char × List Char) := do
  let digits ← (s.take count).mapM Octets.hexValue?
  let n := digits.foldl (fun n d => 16 * n + d) 0
  if digits.length = count && n.isValidChar then some (Char.ofNat n, s.drop count) else none

def readEscape? (s : List Char) : Option (Char × List Char) :=
  match s with
  | 'b' :: rest => some ('\x08', rest)
  | 't' :: rest => some ('\t', rest)
  | 'n' :: rest => some ('\n', rest)
  | 'f' :: rest => some ('\x0c', rest)
  | 'r' :: rest => some ('\r', rest)
  | '"' :: rest => some ('"', rest)
  | '\\' :: rest => some ('\\', rest)
  | 'u' :: rest => readCodePoint? 4 rest
  | 'U' :: rest => readCodePoint? 8 rest
  | _ => none

def readLine? (escapes : Bool) (quote : Char) (fuel : Nat) (s : List Char) :
    Option (List Char × List Char) :=
  match fuel, s with
  | fuel + 1, c :: rest =>
    if c = quote then some ([], rest)
    else if escapes && c = '\\' then do
      let (d, rest) ← readEscape? rest
      let (text, rest) ← readLine? escapes quote fuel rest
      return (d :: text, rest)
    else if isPlain c then
      (readLine? escapes quote fuel rest).map fun (text, rest) => (c :: text, rest)
    else none
  | _, _ => none

/-- What follows three opening quotes, up to the three closing ones; one or two quotes may stand
anywhere, also before those. A backslash at the end of a line takes the blanks after it away. -/
def readLines? (escapes : Bool) (quote : Char) (fuel : Nat) (s : List Char) :
    Option (List Char × List Char) :=
  match fuel, s with
  | fuel + 1, c :: rest =>
    if c = quote then
      let run := (s.takeWhile (· = quote)).take 5
      if 3 ≤ run.length then some (run.drop 3, s.drop run.length)
      else (readLines? escapes quote fuel rest).map fun (text, rest) => (c :: text, rest)
    else if escapes && c = '\\' then
      match readBreak? (skipSpace rest) with
      | some after => readLines? escapes quote fuel (skipBreaks after.length after)
      | none => do
        let (d, rest) ← readEscape? rest
        let (text, rest) ← readLines? escapes quote fuel rest
        return (d :: text, rest)
    else match readBreak? s with
      | some rest =>
        (readLines? escapes quote fuel rest).map fun (text, rest) => ('\n' :: text, rest)
      | none =>
        if isPlain c then
          (readLines? escapes quote fuel rest).map fun (text, rest) => (c :: text, rest)
        else none
  | _, _ => none

def readQuoted? (s : List Char) : Option (List Char × List Char) :=
  match s with
  | q :: rest =>
    if q = '"' || q = '\'' then
      match rest with
      | a :: b :: more =>
        if a = q && b = q then
          readLines? (q = '"') q more.length ((readBreak? more).getD more)
        else readLine? (q = '"') q rest.length rest
      | _ => readLine? (q = '"') q rest.length rest
    else none
  | [] => none

def isBare (c : Char) : Bool := c.isAlphanum || c = '_' || c = '-'

def readKeyPart? (s : List Char) : Option (String × List Char) :=
  match s with
  | q :: rest =>
    if q = '"' || q = '\'' then
      (readLine? (q = '"') q rest.length rest).map fun (text, rest) => (String.ofList text, rest)
    else
      let bare := s.takeWhile isBare
      if bare.isEmpty then none else some (String.ofList bare, s.drop bare.length)
  | [] => none

def readKey? (fuel : Nat) (s : List Char) : Option (List String × List Char) :=
  match fuel with
  | 0 => none
  | fuel + 1 => do
    let (part, s) ← readKeyPart? (skipSpace s)
    match skipSpace s with
    | '.' :: rest =>
      let (parts, rest) ← readKey? fuel rest
      return (part :: parts, rest)
    | s => return ([part], s)

end Strongroom.Toml
