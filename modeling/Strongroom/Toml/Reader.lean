import Strongroom.Toml.Scalar

/-!
Reading of whole documents, line by line.
-/

namespace Strongroom.Toml

def depthLimit : Nat := 80

def skipComment? (s : List Char) : Option (List Char) :=
  match s with
  | '#' :: rest =>
    let after := rest.dropWhile isPlain
    if after.isEmpty || (readBreak? after).isSome then some after else none
  | _ => some s

def skipFiller? (fuel : Nat) (s : List Char) : Option (List Char) :=
  match fuel with
  | 0 => some s
  | fuel + 1 =>
    match skipSpace s with
    | '#' :: rest => (skipComment? ('#' :: rest)).bind (skipFiller? fuel)
    | s =>
      match readBreak? s with
      | some rest => skipFiller? fuel rest
      | none => some s

def readPath? (s : List Char) : Option (List String × List Char) := do
  let (path, rest) ← readKey? s.length s
  if path.length < depthLimit then some (path, rest) else none

mutual

def readValue (fuel depth : Nat) (s : List Char) : Option (Value × List Char) :=
  match fuel, s with
  | 0, _ => none
  | fuel + 1, '[' :: rest =>
    if depthLimit ≤ depth + 1 then none
    else (readItems fuel (depth + 1) rest).map fun (items, rest) => (.array items, rest)
  | fuel + 1, '\x7b' :: rest =>
    if depthLimit ≤ depth + 1 then none
    else match skipSpace rest with
      | '\x7d' :: rest => some (.table .closed [], rest)
      | _ =>
        (readMembers fuel (depth + 1) [] rest).map fun (entries, rest) =>
          (.table .closed entries, rest)
  | _, s =>
    match s.head? with
    | some '"' | some '\'' => (readQuoted? s).map fun (_, rest) => (.text, rest)
    | _ => readScalar? s

def readItems (fuel depth : Nat) (s : List Char) : Option (List Value × List Char) :=
  match fuel with
  | 0 => none
  | fuel + 1 => do
    match ← skipFiller? s.length s with
    | ']' :: rest => return ([], rest)
    | s =>
      let (item, s) ← readValue fuel depth s
      match ← skipFiller? s.length s with
      | ']' :: rest => return ([item], rest)
      | ',' :: rest =>
        let (items, rest) ← readItems fuel depth rest
        return (item :: items, rest)
      | _ => none

def readMembers (fuel depth : Nat) (before : Entries) (s : List Char) :
    Option (Entries × List Char) :=
  match fuel with
  | 0 => none
  | fuel + 1 => do
    let (path, s) ← readPath? s
    match s with
    | '=' :: rest =>
      let (v, s) ← readValue fuel depth (skipSpace rest)
      let key ← path.getLast?
      let entries ← before.put key v path.dropLast
      match skipSpace s with
      | '\x7d' :: rest => return (entries, rest)
      | ',' :: rest => readMembers fuel depth entries rest
      | _ => none
    | _ => none

end

def endLine? (s : List Char) : Option (List Char) := do
  let s ← skipComment? (skipSpace s)
  if s.isEmpty then some s else readBreak? s

def readHeader? (d : Document) (s : List Char) : Option (Document × List Char) :=
  match s with
  | '[' :: rest => do
    let (path, s) ← readPath? rest
    match s with
    | ']' :: ']' :: rest => return (← d.openHeader true path, ← endLine? rest)
    | _ => none
  | _ => do
    let (path, s) ← readPath? s
    match s with
    | ']' :: rest => return (← d.openHeader false path, ← endLine? rest)
    | _ => none

def readLine (d : Document) (s : List Char) : Option (Document × List Char) :=
  match s with
  | '[' :: rest => readHeader? d rest
  | _ =>
    if s.head? = some '#' || (readBreak? s).isSome then (endLine? s).map (d, ·)
    else do
      let (path, s) ← readPath? s
      match s with
      | '=' :: rest =>
        let rest := skipSpace rest
        let (v, s) ← readValue (2 * rest.length + 1) 0 rest
        return (← d.put path v, ← endLine? s)
      | _ => none

def readFrom (fuel : Nat) (d : Document) (s : List Char) : Option Document :=
  match fuel with
  | 0 => none
  | fuel + 1 =>
    match skipSpace s with
    | [] => some d
    | s => (readLine d s).bind fun (d, rest) => readFrom fuel d rest

def ofText? (text : String) : Option Entries :=
  let s := text.toList
  let s := if s.head? = some '\ufeff' then s.drop 1 else s
  (readFrom (s.length + 1) .empty s).bind Document.finish

end Strongroom.Toml
