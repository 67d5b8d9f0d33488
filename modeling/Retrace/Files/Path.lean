/-!
# Paths as they are written

A path is kept as it was given, because messages show it so. What it leads to is decided by its
names alone: the pieces between its slashes, of which an empty one and `.` lead nowhere.
-/

namespace Retrace

/-- A path as it was given. -/
structure Path where
  text : String
deriving DecidableEq, Repr, Inhabited

namespace Path

instance : ToString Path := ⟨text⟩

/-- Cuts characters at every slash. -/
def cut : List Char → List (List Char)
  | [] => [[]]
  | c :: cs =>
    if c = '/' then [] :: cut cs
    else match cut cs with
      | [] => [[c]]
      | first :: more => (c :: first) :: more

/-- The pieces of a path between its slashes. -/
def names (p : Path) : List String := (cut p.text.toList).map String.ofList

/-- Whether a path starts from the top. -/
def isAbsolute (p : Path) : Bool := p.text.toList.head? = some '/'

/-- The path to a name below `p`. -/
def join (p : Path) (name : String) : Path :=
  if p.text = "" ∨ p.text.toList.getLast? = some '/' then ⟨p.text ++ name⟩
  else ⟨p.text ++ "/" ++ name⟩

/-- Drops the names at the end that lead nowhere, but never the first name of a path. Names are
given last first. -/
def trim : List String → List String
  | last :: before :: more =>
    if last = "" ∨ last = "." then trim (before :: more) else last :: before :: more
  | short => short

/-- The path without its last name. The top has no parent, and neither has the empty path. -/
def parent? (p : Path) : Option Path :=
  match trim p.names.reverse with
  | [] => none
  | [only] => if only = "" then none else some ⟨""⟩
  | _ :: before =>
    match trim before with
    | [""] => some ⟨"/"⟩
    | kept => some ⟨String.intercalate "/" kept.reverse⟩

end Path
end Retrace
