import Strongroom.Octets

/-!
Elements of the basic and distinguished encoding rules: a tag, a length and the contents. Lengths
need not be minimal; the distinguished rules refuse the indefinite form, which ends at an element of
tag 0 and length 0.
-/

namespace Strongroom.Der

inductive TagClass
  | universal
  | application
  | context
  | privateUse
deriving DecidableEq, Repr

structure Header where
  tagClass : TagClass
  constructed : Bool
  tag : Nat
  /-- The count of octets; `none` is the indefinite form. -/
  length : Option Nat
deriving DecidableEq, Repr

structure Element where
  header : Header
  contents : Octets
deriving DecidableEq, Repr

namespace Tag

def boolean : Nat := 1
def integer : Nat := 2
def bitString : Nat := 3
def octetString : Nat := 4
def objectIdentifier : Nat := 6
def utf8String : Nat := 12
def sequence : Nat := 16
def set : Nat := 17
def numericString : Nat := 18
def printableString : Nat := 19
def teletexString : Nat := 20
def ia5String : Nat := 22
def utcTime : Nat := 23
def generalizedTime : Nat := 24
def universalString : Nat := 28
def bmpString : Nat := 30

end Tag

def classOf (n : Nat) : TagClass :=
  match n with
  | 0 => .universal
  | 1 => .application
  | 2 => .context
  | _ => .privateUse

def readLongTag (fuel : Nat) (tag : Nat) (s : Octets) : Option (Nat × Octets) :=
  match fuel, s with
  | fuel + 1, b :: rest =>
    let tag := (128 * tag + b.toNat % 128) % 4294967296
    if b.toNat < 128 then some (tag, rest) else readLongTag fuel tag rest
  | _, _ => none

def readLength? (constructed indefinite : Bool) (s : Octets) :
    Option (Option Nat × Octets) :=
  match s with
  | [] => none
  | b :: rest =>
    let n := b.toNat
    if n < 128 then some (some n, rest)
    else if n = 128 then if indefinite && constructed then some (none, rest) else none
    else if n = 255 || rest.length < n - 128 then none
    else
      let value := Octets.toNat (rest.take (n - 128))
      if value < Nat.pow 2 64 then some (some value, rest.drop (n - 128)) else none

def readHeader? (indefinite : Bool) (s : Octets) : Option (Header × Octets) :=
  match s with
  | [] => none
  | b :: rest => do
    let n := b.toNat
    let (tag, rest) ← if n % 32 = 31 then readLongTag 5 0 rest else some (n % 32, rest)
    let constructed := n / 32 % 2 = 1
    let (length, rest) ← readLength? constructed indefinite rest
    return (⟨classOf (n / 64), constructed, tag, length⟩, rest)

def read? (s : Octets) : Option (Element × Octets) := do
  let (header, rest) ← readHeader? false s
  let length ← header.length
  if rest.length < length then none
  else some (⟨header, rest.take length⟩, rest.drop length)

mutual

def skipContents (fuel : Nat) (h : Header) (s : Octets) : Option (Bool × Octets) :=
  match fuel with
  | 0 => none
  | fuel + 1 =>
    match h.length with
    | some length =>
      if length = 0 && h.tag = 0 then some (true, s)
      else if s.length < length then none
      else some (false, s.drop length)
    | none => (skipToEnd fuel (s.length + 1) s).map (false, ·)

def skipToEnd (fuel count : Nat) (s : Octets) : Option Octets :=
  match fuel, count with
  | fuel + 1, count + 1 => do
    let (h, rest) ← readHeader? true s
    let (atEnd, rest) ← skipContents fuel h rest
    if atEnd then some rest else skipToEnd (fuel + 1) count rest
  | _, _ => none

end

def depthLimit : Nat := 50

def readBasic? (s : Octets) : Option (Element × Octets) := do
  let (header, rest) ← readHeader? true s
  let (_, after) ← skipContents (2 * depthLimit) header rest
  let length := rest.length - after.length
  let contents := rest.take (if header.length.isNone then length - 2 else length)
  return (⟨header, contents⟩, after)

def readTagged? (tag : Nat) (s : Octets) : Option (Octets × Octets) := do
  let (e, rest) ← read? s
  if e.header.tag = tag then some (e.contents, rest) else none

def readSequence? : Octets → Option (Octets × Octets) := readTagged? Tag.sequence

def readMany {α : Type} (read : Octets → Option (α × Octets)) (fuel : Nat) (s : Octets) :
    List α × Octets :=
  match fuel with
  | 0 => ([], s)
  | fuel + 1 =>
    match read s with
    | some (a, rest) =>
      if rest.length < s.length then
        let (more, rest) := readMany read fuel rest
        (a :: more, rest)
      else ([], s)
    | none => ([], s)

def readAll? {α : Type} (read : Octets → Option (α × Octets)) (s : Octets) : Option (List α) :=
  let (items, rest) := readMany read s.length s
  if rest.isEmpty then some items else none

/-- An element that does not have subelements, as the contents of an object identifier; its tag is
not looked at. -/
def readIdentifier? (s : Octets) : Option (Octets × Octets) := do
  let (e, rest) ← read? s
  if e.header.constructed then none else some (e.contents, rest)

def bitsOf? (e : Element) : Option Octets :=
  if e.header.constructed then none
  else match e.contents with
    | [] => none
    | unused :: bits =>
      match bits.getLast? with
      | none => if unused = 0 then some [] else none
      | some last =>
        let n := unused.toNat
        if last = 0 then if n ≤ 8 then some bits else none
        else if last.toNat % Nat.pow 2 (min n 8) = 0 && n ≤ 7 then some bits
        else none

def readBits? (s : Octets) : Option (Octets × Octets) := do
  let (e, rest) ← read? s
  if e.header.tag = Tag.bitString then (bitsOf? e).map (·, rest) else none

def smallNat? (width : Nat) (contents : Octets) : Option Nat :=
  match contents with
  | [] => none
  | b :: rest =>
    if 128 ≤ b.toNat then none
    else
      let value := b :: rest
      let digits := value.dropWhile (· = 0)
      if digits.length ≤ width then some (Octets.toNat digits) else none

/-- An integer is minimal if its first nine bits are not all equal. -/
def isMinimal (contents : Octets) : Bool :=
  match contents with
  | [] => false
  | [_] => true
  | a :: b :: _ => !(a = 0 && b.toNat < 128) && !(a = 255 && 128 ≤ b.toNat)

def readNat32? (s : Octets) : Option (Nat × Octets) := do
  let (e, rest) ← read? s
  if e.header.tag = Tag.integer && !e.header.constructed && isMinimal e.contents then
    (smallNat? 4 e.contents).map (·, rest)
  else none

end Strongroom.Der
