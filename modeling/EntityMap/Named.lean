/-!
# Lists by name

Association lists whose names ascend and are distinct, which is the order
in which the members of a record are visited. Names compare by their
code points.
-/

namespace EntityMap

/-- Entries by name, in ascending order. -/
abbrev Named (α : Type) := List (String × α)

namespace Named

variable {α : Type}

/-- The entry of a name. -/
def get? (name : String) (entries : Named α) : Option α :=
  List.lookup name entries

/-- Puts an entry in its place, instead of an older one of that name. -/
def insert (name : String) (a : α) : Named α → Named α
  | [] => [(name, a)]
  | (other, b) :: rest =>
    if name < other then (name, a) :: (other, b) :: rest
    else if name = other then (name, a) :: rest
    else (other, b) :: insert name a rest

/-- The entries in their order; of two entries with one name the later counts. -/
def ofList (entries : List (String × α)) : Named α :=
  entries.foldl (fun done (name, a) => insert name a done) []

end Named

end EntityMap
