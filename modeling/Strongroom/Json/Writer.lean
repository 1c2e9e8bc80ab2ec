import Strongroom.Json.Basic
import Strongroom.Octets
import Strongroom.Text.Decimal

/-!
JSON in its compact form: no blanks between tokens, and only quotes, backslashes and control
characters escaped.
-/

namespace Strongroom.Json

open Text

def escapedChar (c : Char) : List Char :=
  if c = '"' then ['\\', '"']
  else if c = '\\' then ['\\', '\\']
  else if c = '\n' then ['\\', 'n']
  else if c = '\r' then ['\\', 'r']
  else if c = '\t' then ['\\', 't']
  else if c = '\x08' then ['\\', 'b']
  else if c = '\x0c' then ['\\', 'f']
  else if c.toNat < 32 then
    ['\\', 'u', '0', '0', Octets.hexDigit (c.toNat / 16), Octets.hexDigit (c.toNat % 16)]
  else [c]

def quoted (s : List Char) : List Char := '"' :: s.flatMap escapedChar ++ ['"']

def Number.chars (n : Number) : List Char :=
  (if n.negative then ['-'] else []) ++ digitsOf n.significand ++
    if n.integral then []
    else 'e' :: (if n.exponent < 0 then ['-'] else []) ++ digitsOf n.exponent.natAbs

def textChars (s : Option String) : List Char := quoted (s.getD "\ufffd").toList

mutual

def chars : Json → List Char
  | null => ['n', 'u', 'l', 'l']
  | bool true => ['t', 'r', 'u', 'e']
  | bool false => ['f', 'a', 'l', 's', 'e']
  | number n => n.chars
  | text s => textChars s
  | array items => '[' :: itemChars items ++ [']']
  | object members => '{' :: memberChars members ++ ['}']

def itemChars : List Json → List Char
  | [] => []
  | [item] => chars item
  | item :: rest => chars item ++ ',' :: itemChars rest

def memberChars : List (Option String × Json) → List Char
  | [] => []
  | [(key, value)] => textChars key ++ ':' :: chars value
  | (key, value) :: rest => textChars key ++ ':' :: chars value ++ ',' :: memberChars rest

end

def compact (j : Json) : String := String.ofList j.chars

end Strongroom.Json
