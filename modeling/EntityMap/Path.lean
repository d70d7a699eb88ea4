import EntityMap.Text.Blank

/-!
# Navigation paths

A path is a list of member names with dots between them. `segments`
splits it at every dot, `splitMember?` at the last one, in front of the
member that the rest of the path leads to.
-/

namespace EntityMap.Path

/-- The parts of a text between its dots, one more than there are dots. -/
def splitDots : List Char → List (List Char)
  | [] => [[]]
  | c :: rest =>
    if c = '.' then [] :: splitDots rest
    else
      match splitDots rest with
      | [] => [[c]]
      | part :: parts => (c :: part) :: parts

/-- The parts of a path. -/
def segments (path : String) : List String :=
  (splitDots path.toList).map String.ofList

/-- Whether some part of a path is empty or blank. -/
def hasBlank (path : String) : Bool :=
  (splitDots path.toList).any Text.isBlank

/-- Names joined by dots. -/
def join (names : List String) : String :=
  ".".intercalate names

/-- A name below a path; below the empty path, the name itself. -/
def below (path name : String) : String :=
  if path.isEmpty then name else path ++ "." ++ name

/-- The path in front of the last dot and the member behind it, which is not
empty. Without a dot the path is empty. -/
def splitMember? (path : String) : Option (String × String) :=
  let parts := segments path
  match parts.getLast? with
  | some member => if member.isEmpty then none else some (join parts.dropLast, member)
  | none => none

end EntityMap.Path
