import KspWorkbench.Data.Toml.Quoted
import KspWorkbench.Data.Toml.Table

/-!
# Reading TOML

A document is a sequence of lines, each blank, a comment, a header or a key with a value. Values in
brackets and braces may go on over several lines and nest at most 80 deep.
-/

namespace KspWorkbench.Toml

/-- The number of levels that brackets and braces may nest. -/
def depthLimit : Nat :=
  80

def skipSpace (cs : List Char) : List Char :=
  cs.dropWhile fun c => c == ' ' || c == '\t'

/-- What stands behind a comment at the front of `cs`, which may be missing: the end of the line. -/
def afterComment? (cs : List Char) : Option (List Char) :=
  match cs with
  | '#' :: rest =>
    let text := rest.takeWhile (· != '\n')
    let text :=
      if text.getLast? = some '\r' ∧ text.length < rest.length then text.dropLast else text
    if text.all isPlain then some (rest.drop text.length) else none
  | _ => some cs

/-- What stands behind the end of a line: blanks, a comment, and a line break or the end. -/
def afterLineEnd? (cs : List Char) : Option (List Char) := do
  match ← afterComment? (skipSpace cs) with
  | [] => some []
  | rest => afterBreak? rest

def skipLines? (fuel : Nat) (cs : List Char) : Option (List Char) :=
  match fuel with
  | 0 => none
  | fuel + 1 => do
    let cs := skipSpace cs
    let rest ← afterComment? cs
    match afterBreak? rest with
    | some rest => skipLines? fuel rest
    | none => some rest

def keyPart? (cs : List Char) : Option (String × List Char) :=
  match cs with
  | '"' :: _ | '\'' :: _ => oneLineString? cs
  | _ =>
    let isKeyChar (c : Char) : Bool := c.isAlphanum || c == '_' || c == '-'
    match cs.takeWhile isKeyChar with
    | [] => none
    | key => some (String.ofList key, cs.dropWhile isKeyChar)

/-- A dotted key at the front of `cs`: the parts before the last one, the last one, and the rest
behind blanks. -/
def key? (fuel : Nat) (path : List String) (cs : List Char) :
    Option (List String × String × List Char) :=
  match fuel with
  | 0 => none
  | fuel + 1 => do
    let (part, rest) ← keyPart? (skipSpace cs)
    match skipSpace rest with
    | '.' :: rest => key? fuel (path ++ [part]) rest
    | rest => some (path, part, rest)

mutual

/-- A value at the front of `cs`; `depth` levels may still be opened. -/
def value? (fuel depth : Nat) (cs : List Char) : Option (Datum × List Char) :=
  match fuel with
  | 0 => none
  | fuel + 1 =>
    match cs with
    | '"' :: _ | '\'' :: _ => (string? cs).map fun (s, rest) => (.text s, rest)
    | '[' :: rest =>
      if depth = 0 then none
      else (items? fuel (depth - 1) [] rest).map fun (ds, rest) => (.list ds, rest)
    | '{' :: rest =>
      if depth = 0 then none
      else (pairs? fuel (depth - 1) [] rest).map fun (entries, rest) =>
        (.record (entriesToFields entries), rest)
    | _ =>
      let (word, rest) := scalarWord cs
      (scalar? word).map (·, rest)

/-- The items of a list up to its closing bracket; `done` holds those read, the last first. -/
def items? (fuel depth : Nat) (done : List Datum) (cs : List Char) :
    Option (List Datum × List Char) :=
  match fuel with
  | 0 => none
  | fuel + 1 => do
    match ← skipLines? fuel cs with
    | ']' :: rest => some (done.reverse, rest)
    | cs => do
      let (d, rest) ← value? fuel depth cs
      match ← skipLines? fuel rest with
      | ',' :: rest => items? fuel depth (d :: done) rest
      | ']' :: rest => some ((d :: done).reverse, rest)
      | _ => none

/-- The pairs of a table in braces up to its closing brace. -/
def pairs? (fuel depth : Nat) (entries : Entries) (cs : List Char) : Option (Entries × List Char) :=
  match fuel with
  | 0 => none
  | fuel + 1 => do
    match ← skipLines? fuel cs with
    | '}' :: rest => some (entries, rest)
    | cs => do
      let (path, key, rest) ← key? fuel [] cs
      let '=' :: rest := rest | none
      let (d, rest) ← value? fuel depth (skipSpace rest)
      let entries ← entries.insertDotted path key d
      match ← skipLines? fuel rest with
      | ',' :: rest => pairs? fuel depth entries rest
      | '}' :: rest => some (entries, rest)
      | _ => none

end

/-- A document under construction, with the path of the table that values go to. -/
structure Draft where
  root : Entries := []
  current : List String := []

/-- One line of a document that is not blank, up to what ends it. -/
def Draft.line? (fuel : Nat) (draft : Draft) (cs : List Char) : Option (Draft × List Char) :=
  match cs with
  | '[' :: '[' :: rest => do
    let (path, key, rest) ← key? fuel [] rest
    let ']' :: ']' :: rest := rest | none
    return ({ root := ← draft.root.appendTable path key, current := path ++ [key] }, rest)
  | '[' :: rest => do
    let (path, key, rest) ← key? fuel [] rest
    let ']' :: rest := rest | none
    return ({ root := ← draft.root.openTable path key, current := path ++ [key] }, rest)
  | _ => do
    let (path, key, rest) ← key? fuel [] cs
    let '=' :: rest := rest | none
    let (d, rest) ← value? fuel depthLimit (skipSpace rest)
    let root ← draft.root.modifyHeader draft.current fun inner => inner.insertDotted path key d
    return ({ draft with root := root }, rest)

def Draft.lines? (fuel : Nat) (draft : Draft) (cs : List Char) : Option Draft :=
  match fuel with
  | 0 => none
  | fuel + 1 => do
    match ← skipLines? fuel cs with
    | [] => some draft
    | cs => do
      let (draft, rest) ← draft.line? fuel cs
      Draft.lines? fuel draft (← afterLineEnd? rest)

/-- Reads a document. A byte order mark in front of it is passed over. Each step takes at least one
character, so the length of the text bounds the number of steps. -/
def read? (text : String) : Option Datum := do
  let cs := text.toList
  let cs := if cs.head? = some '\uFEFF' then cs.tail else cs
  let draft ← Draft.lines? (2 * cs.length + 4) {} cs
  return .record (entriesToFields draft.root)

end KspWorkbench.Toml
