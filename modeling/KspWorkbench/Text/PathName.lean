/-!
# Path names

What a path name says apart from its spelling: repeated slashes, a slash at the end and `.`
components do not count, except for a `.` at the very front.
-/

namespace KspWorkbench

/-- The components of a path name. A leading `.` is told apart from the other components, of which
`..` is one. -/
structure PathName where
  rooted : Bool
  fromHere : Bool
  names : List String
  deriving DecidableEq, Repr

namespace PathName

/-- Puts one more character in front of a text that is already split at slashes. -/
def extendParts (c : Char) (parts : List (List Char)) : List (List Char) :=
  if c = '/' then
    [] :: parts
  else
    match parts with
    | [] => [[c]]
    | part :: parts => (c :: part) :: parts

def split (path : String) : List String :=
  (path.toList.foldr extendParts [[]]).map String.ofList

def ofString (path : String) : PathName :=
  let parts := split path
  { rooted := path.toList.head? = some '/'
    fromHere := parts.head? = some "."
    names := parts.filter fun part => part ≠ "" ∧ part ≠ "." }

def length (p : PathName) : Nat :=
  p.rooted.toNat + p.fromHere.toNat + p.names.length

end PathName

/-- Whether two texts name the same path. -/
def samePath (a b : String) : Bool :=
  PathName.ofString a = PathName.ofString b

@[simp] theorem samePath_self (a : String) : samePath a a = true := by
  simp [samePath]

end KspWorkbench
