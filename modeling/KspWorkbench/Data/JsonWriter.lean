import KspWorkbench.Data.Datum

/-!
# Writing JSON

Two layouts: on one line without blanks, and indented by two spaces a level with one member a line.
Control characters, quotes and backslashes are escaped; every other character stands for itself.
-/

namespace KspWorkbench.Json

def hexDigit (n : Nat) : Char :=
  if n < 10 then Char.ofNat (48 + n) else Char.ofNat (87 + n)

/-- A character as it stands inside a quoted string. -/
def escapeChar (c : Char) : String :=
  match c with
  | '"' => "\\\""
  | '\\' => "\\\\"
  | '\n' => "\\n"
  | '\r' => "\\r"
  | '\t' => "\\t"
  | _ =>
    if c.toNat = 8 then "\\b"
    else if c.toNat = 12 then "\\f"
    else if c.toNat < 32 then
      "\\u00" ++ String.ofList [hexDigit (c.toNat / 16), hexDigit (c.toNat % 16)]
    else String.singleton c

def quote (s : String) : String :=
  s.toList.foldl (fun acc c => acc ++ escapeChar c) "\"" ++ "\""

mutual

def compact : Datum → String
  | .null => "null"
  | .bool b => if b then "true" else "false"
  | .int i => toString i
  | .real literal => literal
  | .time literal => quote literal
  | .text s => quote s
  | .list items => "[" ++ ",".intercalate (compactItems items) ++ "]"
  | .record fields => "\x7b" ++ ",".intercalate (compactFields fields) ++ "\x7d"

def compactItems : List Datum → List String
  | [] => []
  | d :: ds => compact d :: compactItems ds

def compactFields : List (String × Datum) → List String
  | [] => []
  | (name, d) :: fields => (quote name ++ ":" ++ compact d) :: compactFields fields

end

/-- Members between brackets, one a line, indented below `level`. -/
def block (level : Nat) (opening closing : String) (members : List String) : String :=
  match members with
  | [] => opening ++ closing
  | _ =>
    let indent := "\n" ++ String.ofList (List.replicate (2 * (level + 1)) ' ')
    opening ++ indent ++ ("," ++ indent).intercalate members ++ "\n" ++
      String.ofList (List.replicate (2 * level) ' ') ++ closing

mutual

/-- A value laid out over several lines at indentation `level`. -/
def prettyAt (level : Nat) : Datum → String
  | .null => "null"
  | .bool b => if b then "true" else "false"
  | .int i => toString i
  | .real literal => literal
  | .time literal => quote literal
  | .text s => quote s
  | .list items => block level "[" "]" (prettyItems (level + 1) items)
  | .record fields => block level "\x7b" "\x7d" (prettyFields (level + 1) fields)

def prettyItems (level : Nat) : List Datum → List String
  | [] => []
  | d :: ds => prettyAt level d :: prettyItems level ds

def prettyFields (level : Nat) : List (String × Datum) → List String
  | [] => []
  | (name, d) :: fields => (quote name ++ ": " ++ prettyAt level d) :: prettyFields level fields

end

def pretty (d : Datum) : String :=
  prettyAt 0 d

end KspWorkbench.Json
