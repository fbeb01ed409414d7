/-!
# Structured data

The values that configuration files, requests and events are made of, whatever format they are
written in. A record keeps its fields in the order in which they were written, repeated ones
included, because some readers refuse a field that is given twice.
-/

namespace KspWorkbench

inductive Datum where
  | null
  | bool (value : Bool)
  | int (value : Int)
  -- numbers that are no integers, or too great for one, and dates and times are kept as they were
  -- written.
  | real (literal : String)
  | time (literal : String)
  | text (value : String)
  | list (items : List Datum)
  | record (fields : List (String × Datum))
  deriving Repr, Inhabited

namespace Datum

def nat (n : Nat) : Datum :=
  .int n

/-- The record with those of `fields` that have a value. -/
def recordOf (fields : List (String × Option Datum)) : Datum :=
  .record (fields.filterMap fun (name, value) => value.map (name, ·))

def toBool? : Datum → Option Bool
  | .bool b => some b
  | _ => none

def toText? : Datum → Option String
  | .text s => some s
  | _ => none

/-- The integer, if it is one and lies from zero to `greatest`. -/
def toNat? (greatest : Nat) : Datum → Option Nat
  | .int i => if 0 ≤ i ∧ i ≤ greatest then some i.toNat else none
  | _ => none

def toTexts? : Datum → Option (List String)
  | .list items => items.mapM toText?
  | _ => none

/-- An absent value for `null`, else what `read` makes of it. -/
def toOptional? {α : Type} (read : Datum → Option α) : Datum → Option (Option α)
  | .null => some none
  | d => (read d).map some

end Datum

/-- The values given for the fields of a record, by position; `none` where a field is absent. -/
abbrev Fields := List (Option Datum)

/-- The values of the named fields. Other fields are passed over. A field given twice is refused.
A list gives the fields by position and may be shorter than the names, but not longer. -/
def Datum.fields? (names : List String) : Datum → Option Fields
  | .record given =>
    if names.any fun name => 1 < given.countP (·.1 == name) then none
    else some (names.map fun name => given.lookup name)
  | .list items =>
    if items.length ≤ names.length then
      some (items.map some ++ List.replicate (names.length - items.length) none)
    else
      none
  | _ => none

/-- Field `index` as `read` takes it, or `default` if it is absent. -/
def Fields.getD {α : Type} (fields : Fields) (index : Nat) (read : Datum → Option α)
    (default : α) : Option α :=
  match (fields[index]?).join with
  | none => some default
  | some d => read d

/-- Field `index` as `read` takes it; it may not be absent. -/
def Fields.get? {α : Type} (fields : Fields) (index : Nat) (read : Datum → Option α) : Option α :=
  ((fields[index]?).join).bind read

end KspWorkbench
